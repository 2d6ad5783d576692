import Relay.Policy
import Relay.Timestamp

/-!
# Envelope headers

`Header` is the header of every request and response: who asks, for whom, as part of what, under which
policy. Absent fields are not written, so that a header is passed on with exactly the fields it
came with.

`Trace` is the place of a call in a distributed trace, `Caller` the identity that is forwarded to
services, `WorkflowPlace` the place of a call in a workflow.
-/

namespace Relay

open Wire (field fieldIfSome fieldIfAny)

/-- the place of a call in a trace -/
structure Trace where
  /-- one for all calls of a workflow -/
  traceId : String
  /-- one for each call -/
  spanId : String
  /-- the span of the caller -/
  parentSpanId : Option String := none
deriving DecidableEq, Repr

namespace Trace

/-- a span under this one, in the same trace -/
def child (t : Trace) (spanId : String) : Trace := ⟨t.traceId, spanId, some t.spanId⟩

def form (t : Trace) : Form := .record <|
  field "trace_id" t.traceId ++ field "span_id" t.spanId ++
    fieldIfSome "parent_span_id" t.parentSpanId

def read {σ : Type} [Readable σ] (s : σ) : Option Trace := do
  let r ← Row.read? ["trace_id", "span_id", "parent_span_id"] s
  return {
    traceId := ← r.required "trace_id" Wire.read
    spanId := ← r.required "span_id" Wire.read
    parentSpanId := ← r.optional "parent_span_id" Wire.read }

instance : Wire Trace := ⟨form, read⟩

end Trace

/-- the identity that is forwarded to services -/
structure Caller where
  principal : Option String := none
  roles : List String := []
deriving DecidableEq, Repr

namespace Caller

def form (c : Caller) : Form := .record <|
  fieldIfSome "principal" c.principal ++ fieldIfAny "roles" c.roles

def read {σ : Type} [Readable σ] (s : σ) : Option Caller := do
  let r ← Row.read? ["principal", "roles"] s
  return {
    principal := ← r.optional "principal" Wire.read
    roles := ← r.defaulted "roles" (readList Wire.read) [] }

instance : Wire Caller := ⟨form, read⟩

end Caller

structure WorkflowPlace where
  workflowId : String
  operation : String
  step : Option String := none
  index : Option Nat := none
  total : Option Nat := none
deriving DecidableEq, Repr

namespace WorkflowPlace

def form (p : WorkflowPlace) : Form := .record <|
  field "workflow_id" p.workflowId ++ field "operation" p.operation ++
    fieldIfSome "step" p.step ++ fieldIfSome "index" p.index ++ fieldIfSome "total" p.total

def read {σ : Type} [Readable σ] (s : σ) : Option WorkflowPlace := do
  let r ← Row.read? ["workflow_id", "operation", "step", "index", "total"] s
  return {
    workflowId := ← r.required "workflow_id" Wire.read
    operation := ← r.required "operation" Wire.read
    step := ← r.optional "step" Wire.read
    index := ← r.optional "index" Wire.read
    total := ← r.optional "total" Wire.read }

instance : Wire WorkflowPlace := ⟨form, read⟩

end WorkflowPlace

/-- the header of a request or response -/
structure Header where
  requestId : String
  parentRequestId : Option String := none
  childRequestId : Option String := none
  tenant : Option String := none
  sessionId : Option String := none
  agentId : Option String := none
  timestamp : Option Timestamp := none
  /-- only in responses -/
  durationMs : Option UInt64 := none
  tracing : Option Trace := none
  security : Option Caller := none
  errorPolicy : Option Policy := none
  workflowContext : Option WorkflowPlace := none
deriving DecidableEq, Repr

namespace Header

def generate (requestId : String) (now : Timestamp) (root : Trace) : Header :=
  { requestId, timestamp := some now, tracing := some root }

/-- the header of the response that is sent at `now`, after `elapsed` milliseconds -/
def respond (h : Header) (now : Timestamp) (elapsed : UInt64) : Header :=
  { h with timestamp := some now, durationMs := some elapsed }

def form (h : Header) : Form := .record <|
  field "request_id" h.requestId ++ fieldIfSome "parent_request_id" h.parentRequestId ++
    fieldIfSome "child_request_id" h.childRequestId ++ fieldIfSome "tenant" h.tenant ++
    fieldIfSome "session_id" h.sessionId ++ fieldIfSome "agent_id" h.agentId ++
    fieldIfSome "timestamp" h.timestamp ++ fieldIfSome "duration_ms" h.durationMs ++
    fieldIfSome "tracing" h.tracing ++ fieldIfSome "security" h.security ++
    fieldIfSome "error_policy" h.errorPolicy ++ fieldIfSome "workflow_context" h.workflowContext

def read {σ : Type} [Readable σ] (s : σ) : Option Header := do
  let r ← Row.read? ["request_id", "parent_request_id", "child_request_id", "tenant", "session_id",
    "agent_id", "timestamp", "duration_ms", "tracing", "security", "error_policy",
    "workflow_context"] s
  return {
    requestId := ← r.required "request_id" Wire.read
    parentRequestId := ← r.optional "parent_request_id" Wire.read
    childRequestId := ← r.optional "child_request_id" Wire.read
    tenant := ← r.optional "tenant" Wire.read
    sessionId := ← r.optional "session_id" Wire.read
    agentId := ← r.optional "agent_id" Wire.read
    timestamp := ← r.optional "timestamp" Wire.read
    durationMs := ← r.optional "duration_ms" Wire.read
    tracing := ← r.optional "tracing" Wire.read
    security := ← r.optional "security" Wire.read
    errorPolicy := ← r.optional "error_policy" Wire.read
    workflowContext := ← r.optional "workflow_context" Wire.read }

instance : Wire Header := ⟨form, read⟩

end Header

end Relay
