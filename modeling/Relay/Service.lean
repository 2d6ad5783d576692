import Relay.Pause
import Relay.Rpc
import Relay.Table

/-!
# Services

A `Service` answers requests over one transport. Its answer to an attempt is a function of the
request and the number of the attempt, so that a whole run can be followed; a request id is used by
one call only, so this is no restriction on what a service may do.

A `Script` is a service that follows a list of lines for each tool and stays at the last one.
-/

namespace Relay

/-- what a service does with one attempt -/
structure Reply where
  delayMs : Nat
  outcome : Except Rpc.Failure Rpc.Response

/-- a service on a transport -/
structure Service where
  transport : Transport
  /-- the reply to an attempt, counted from 0 -/
  answer : Rpc.Request → (attempt : Nat) → Reply

namespace Service

/-- the fault of a service that is not registered -/
def unknownFault (name : String) : Fault :=
  .notFound ("no transport registered for service '" ++ name ++ "'")

def connect (services : Table Service) (name : String) : Except Fault Service :=
  match services.lookup name with
  | some service => .ok service
  | none => .error (unknownFault name)

end Service

namespace Script

/-- what a scripted service does once its delay is over -/
inductive Action
  /-- returns the tool and its arguments -/
  | echo
  | result (value : Json)
  | error (code : Int64) (message : String)
  | respond (response : Rpc.Response)
  | fail (failure : Rpc.Failure)

/-- one entry of a script -/
structure Line where
  delayMs : Nat := 0
  action : Action

/-- the script of the tools that have none of their own -/
def anyTool : String := "*"

/-- the line for an attempt; the last line holds for all later attempts -/
def lineAt (lines : List Line) (attempt : Nat) : Line :=
  (lines[min attempt (lines.length - 1)]?).getD ⟨0, .echo⟩

def perform (request : Rpc.Request) : Action → Except Rpc.Failure Rpc.Response
  | .echo => .ok <| .success request.id <|
    Json.object [("tool", .str request.params.name), ("args", request.params.arguments)]
  | .result value => .ok (.success request.id value)
  | .error code message => .ok (.failure request.id code message)
  | .respond response => .ok response
  | .fail failure => .error failure

def linesFor (tools : Table (List Line)) (tool : String) : List Line :=
  (tools.lookup tool).getD ((tools.lookup anyTool).getD [])

/-- a service that follows a script -/
def service (transport : Transport) (tools : Table (List Line)) : Service where
  transport
  answer request attempt :=
    let line := lineAt (linesFor tools request.params.name) attempt
    ⟨Pause.lengthMs line.delayMs, perform request line.action⟩

end Script

end Relay
