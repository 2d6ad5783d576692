import Relay.Transport

/-!
# Remote calls

A tool runs at a service by one JSON-RPC 2.0 request, `tools/call`. An `Rpc.Response` holds a result
or an error object; `Response.output` is what the tool put out, or the fault that the response tells
of. A `Rpc.Failure` is a call that ended without a response.
-/

namespace Relay.Rpc

open Wire (field fieldIfSome fieldOrNull)

/-- the protocol version of every message -/
def version : String := "2.0"

/-- the method of every request -/
def toolsCall : String := "tools/call"

/-- what a request asks to run -/
structure Params where
  name : String
  arguments : Json
deriving DecidableEq

namespace Params

def form (p : Params) : Form := .record <|
  field "name" p.name ++ field "arguments" p.arguments

def read {σ : Type} [Readable σ] (s : σ) : Option Params := do
  let r ← Row.read? ["name", "arguments"] s
  return { name := ← r.required "name" Wire.read, arguments := ← r.required "arguments" Wire.read }

instance : Wire Params := ⟨form, read⟩

end Params

/-- a request to a service -/
structure Request where
  jsonrpc : String
  id : String
  method : String
  params : Params
deriving DecidableEq

namespace Request

def toolCall (id tool : String) (arguments : Json) : Request :=
  ⟨version, id, toolsCall, ⟨tool, arguments⟩⟩

def form (r : Request) : Form := .record <|
  field "jsonrpc" r.jsonrpc ++ field "id" r.id ++ field "method" r.method ++
    field "params" r.params

def read {σ : Type} [Readable σ] (s : σ) : Option Request := do
  let r ← Row.read? ["jsonrpc", "id", "method", "params"] s
  return {
    jsonrpc := ← r.required "jsonrpc" Wire.read
    id := ← r.required "id" Wire.read
    method := ← r.required "method" Wire.read
    params := ← r.required "params" Wire.read }

instance : Wire Request := ⟨form, read⟩

end Request

structure ErrorObject where
  code : Int64
  message : String
  data : Option Json := none
deriving DecidableEq

/-- what an error code means, on every transport -/
def classify (code : Int) : Fault.Kind :=
  if code = -32700 then .serialization
  else if code = -32600 ∨ code = -32602 then .validation
  else if code = -32601 then .notFound
  else if code = -32603 then .internal
  else if -32099 ≤ code ∧ code ≤ -32000 then .toolExecution
  else .protocolAdapter

namespace ErrorObject

def text (e : ErrorObject) : String :=
  "JSON-RPC error " ++ toString e.code.toInt ++ ": " ++ e.message

def fault (e : ErrorObject) : Fault := (Fault.ofKind (classify e.code.toInt) e.text).withCode e.code

def form (e : ErrorObject) : Form := .record <|
  field "code" e.code ++ field "message" e.message ++ fieldIfSome "data" e.data

def read {σ : Type} [Readable σ] (s : σ) : Option ErrorObject := do
  let r ← Row.read? ["code", "message", "data"] s
  return {
    code := ← r.required "code" Wire.read
    message := ← r.required "message" Wire.read
    data := ← r.optional "data" Wire.read }

instance : Wire ErrorObject := ⟨form, read⟩

end ErrorObject

/-- the response of a service -/
structure Response where
  jsonrpc : String
  id : Option String := none
  result : Option Json := none
  error : Option ErrorObject := none
deriving DecidableEq

/-- the text parts of the content list of a result, one to a line -/
def contentText? (result : Json) : Option String := do
  let items ← (← result.field? "content").asItems?
  let parts := items.filterMap (fun item => (item.field? "text").bind Json.asText?)
  if parts.isEmpty then none else some ("\n".intercalate parts)

namespace Response

def success (id : String) (result : Json) : Response := ⟨version, some id, some result, none⟩

def failure (id : String) (code : Int64) (message : String) : Response :=
  ⟨version, some id, none, some ⟨code, message, none⟩⟩

/-- whether a result is marked as the failure of the tool -/
def isMarkedError (result : Json) : Bool :=
  ((result.field? "isError").bind Json.asBool?).getD false

/-- what the tool put out -/
def output (r : Response) (tool : String) : Except Fault Json :=
  match r.error, r.result with
  | some error, _ => .error error.fault
  | none, none => .error (.protocolAdapter "response has neither result nor error")
  | none, some result =>
    if isMarkedError result then .error (.tool tool ((contentText? result).getD result.text))
    else .ok result

def form (r : Response) : Form := .record <|
  field "jsonrpc" r.jsonrpc ++ fieldOrNull "id" r.id ++ fieldIfSome "result" r.result ++
    fieldIfSome "error" r.error

def read {σ : Type} [Readable σ] (s : σ) : Option Response := do
  let r ← Row.read? ["jsonrpc", "id", "result", "error"] s
  return {
    jsonrpc := ← r.required "jsonrpc" Wire.read
    id := ← r.optional "id" Wire.read
    result := ← r.optional "result" Wire.read
    error := ← r.optional "error" Wire.read }

instance : Wire Response := ⟨form, read⟩

end Response

/-- a call that ended without a response -/
inductive Failure
  /-- the peer answered with a status code -/
  | status (code : Int64) (message : String)
  /-- the connection was lost or could not be used -/
  | disconnected (reason : String)
  /-- the transport gave up waiting -/
  | timedOut
  /-- the peer sent something that is no response -/
  | malformed (reason : String)
deriving DecidableEq, Repr

namespace Failure

def text : Failure → String
  | status code message => "status " ++ toString code.toInt ++ ": " ++ message
  | disconnected reason => "disconnected: " ++ reason
  | timedOut => "timed out"
  | malformed reason => "malformed response: " ++ reason

def fault (transport : Transport) (service : String) (f : Failure) : Fault :=
  let place := service ++ " (" ++ transport.name ++ ")"
  match f with
  | status code message =>
    (Fault.ofKind (transport.classify code.toInt)
      (place ++ " status " ++ toString code.toInt ++ ": " ++ message)).withCode code
  | disconnected reason => .connection (place ++ ": " ++ reason)
  | timedOut => .timeout (place ++ " did not respond")
  | malformed reason => .serialization (place ++ ": " ++ reason)

end Failure

end Relay.Rpc
