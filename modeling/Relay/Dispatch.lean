import Relay.Envelope
import Relay.Injection.BuiltIn
import Relay.Resolution
import Relay.Retry
import Relay.Service
import Relay.Tool

/-!
# Dispatching calls

A `Dispatcher` carries one tool call to a service: it finds the service, adds context to the
arguments, sends the request until it succeeds or may not be sent again, and puts the outcome into a
response envelope. What the call did on its way is kept in a `CallRun`.

An envelope without a call, an unknown service and arguments that context cannot be added to fail the
call before anything is sent, whatever the policy.
-/

namespace Relay

/-- what calls are dispatched with -/
structure Dispatcher where
  services : Table Service
  board : Injection.Board := Injection.Board.empty
  settings : RetrySettings := {}
  fallback : Option FallbackSource := none
  /-- the policy of requests that have none -/
  defaultPolicy : Policy := {}
  /-- the fractions that jitter draws, by attempt -/
  fractions : Nat → Float := fun _ => 0.5

/-- the requests of one call that left for a service -/
structure Exchange where
  service : String
  /-- every attempt sends this request -/
  request : Rpc.Request
  /-- what holds while the service runs -/
  context : Context
  /-- the start of each attempt in milliseconds after the first -/
  starts : List Nat
deriving DecidableEq

/-- a call with what it did on its way -/
structure CallRun where
  result : Except Fault (Envelope Tool.Answer)
  /-- the requests sent, if any were -/
  exchange : Option Exchange := none
  /-- whether the source of substitutes was asked -/
  askedFallback : Bool := false
  elapsedMs : Nat := 0

namespace Dispatcher

def attempt (name tool : String) (service : Service) (request : Rpc.Request) (n : Nat) :
    Retry.Attempt Json :=
  let reply := service.answer request n
  { durationMs := reply.delayMs
    outcome := match reply.outcome with
      | .ok response => response.output tool
      | .error failure => .error (failure.fault service.transport name) }

/-- the answer to a request whose tool put out a value -/
def answered (header : Header) (tool : String) (content : Json) : Envelope Tool.Answer :=
  .ok header { tool, content }

/-- what a resolved failure is to the caller -/
def resolved (header : Header) (tool : String) : Resolution → Except Fault (Envelope Tool.Answer)
  | .propagate fault => .error fault
  | .partially fault data =>
    .ok (.partly header (data.map fun content => { tool, content }) fault.notice)
  | .substitute fault content =>
    .ok (.partly header (some { tool, content, fromFallback := true }) fault.notice)

/-- the fault of an envelope without a call -/
def emptyFault (header : Header) : Fault :=
  .validation ("envelope " ++ header.requestId ++ " carries no tool call")

/-- what has to be there before a request is sent: the call, its service and the arguments -/
def prepare (d : Dispatcher) (c : Context) (service : String) (request : Envelope Tool.Call) :
    Except Fault (Tool.Call × Service × Rpc.Request) := do
  let call ← match request.data with
    | some call => .ok call
    | none => .error (emptyFault request.header)
  let connection ← Service.connect d.services service
  let arguments ← (d.board.resolve service call.tool).inject c call.tool call.arguments
  return (call, connection, .toolCall c.requestId call.tool arguments)

/-- sends a prepared request and resolves its outcome -/
def send (d : Dispatcher) (now : Timestamp) (c : Context) (name : String) (header : Header)
    (call : Tool.Call) (service : Service) (request : Rpc.Request) : CallRun :=
  let run := Retry.run (Retry.Budget.ofPolicy d.settings c.policy) d.fractions
    (attempt name call.tool service request)
  let header := header.respond now (UInt64.ofNat run.elapsedMs)
  let exchange := some ⟨name, request, c, run.starts⟩
  match run.outcome with
  | .ok content =>
    { result := .ok (answered header call.tool content), exchange, elapsedMs := run.elapsedMs }
  | .error fault =>
    { result := resolved header call.tool (.resolve d.fallback c name call.tool fault c.policy)
      exchange
      askedFallback := d.fallback.isSome && Resolution.asksFallback fault c.policy
      elapsedMs := run.elapsedMs }

/-- runs the call of an envelope at a service; the response is stamped with `now` -/
def call (d : Dispatcher) (now : Timestamp) (service : String) (request : Envelope Tool.Call) :
    CallRun :=
  let c := Context.ofHeader request.header d.defaultPolicy
  match d.prepare c service request with
  | .error fault => { result := .error fault }
  | .ok (call, connection, rpc) => d.send now c service request.header call connection rpc

end Dispatcher

end Relay
