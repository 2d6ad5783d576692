import Relay.Fault

/-!
# Transports

The families of transports and what their status codes mean: `Transport.classify` depends on the family
and the code alone.
-/

namespace Relay

/-- the families of transports -/
inductive Transport
  | messageBus
  | rpc
  | http
  | webSocket
  | localProcess
deriving DecidableEq, Repr

namespace Transport

def name : Transport → String
  | messageBus => "message_bus"
  | rpc => "rpc"
  | http => "http"
  | webSocket => "web_socket"
  | localProcess => "local_process"

instance : Named Transport := ⟨[messageBus, rpc, http, webSocket, localProcess], name⟩

instance : Wire Transport := Named.wire

/-- what a status code of HTTP means -/
def classifyHttp (code : Int) : Fault.Kind :=
  if code = 400 ∨ code = 422 then .validation
  else if code = 401 ∨ code = 403 then .security
  else if code = 404 then .notFound
  else if code = 408 ∨ code = 504 then .timeout
  else if code = 429 ∨ code = 502 ∨ code = 503 then .connection
  else if 500 ≤ code ∧ code ≤ 599 then .external
  else .transport

/-- what a status code of a remote procedure call means -/
def classifyRpc (code : Int) : Fault.Kind :=
  if code = 3 then .validation
  else if code = 4 then .timeout
  else if code = 5 then .notFound
  else if code = 7 ∨ code = 16 then .security
  else if code = 13 then .internal
  else if code = 14 then .connection
  else .external

/-- what the close code of a web socket means -/
def classifyWebSocket (code : Int) : Fault.Kind :=
  if code = 1006 then .connection
  else if code = 1008 then .security
  else if code = 1009 then .validation
  else if code = 1011 then .internal
  else .transport

/-- what a status of a message bus means; 503 says that nobody listens -/
def classifyMessageBus (code : Int) : Fault.Kind :=
  if code = 404 then .notFound
  else if code = 408 then .timeout
  else if code = 503 then .connection
  else .transport

/-- what the exit code of a process means -/
def classifyLocalProcess (code : Int) : Fault.Kind :=
  if code = 124 then .timeout
  else if code = 126 then .security
  else if code = 127 then .notFound
  else .toolExecution

/-- what a status code means on a transport -/
def classify : Transport → Int → Fault.Kind
  | http => classifyHttp
  | rpc => classifyRpc
  | webSocket => classifyWebSocket
  | messageBus => classifyMessageBus
  | localProcess => classifyLocalProcess

end Transport

end Relay
