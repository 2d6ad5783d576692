import Relay.Envelope.Header
import Relay.Fault
import Relay.Plan.Numbering

/-!
# Contexts

A `Context` is what holds during one call or one workflow run: the identity of the request, on whose
behalf it runs, its trace, and the one policy that was resolved for it. `Context.childHeader` is the
header of a call that a workflow makes on behalf of its own request.

Contexts are bound to the running task. `Bindings` is the nest of bound contexts; the innermost one
is current.
-/

namespace Relay

/-- what holds during a call or a run -/
structure Context where
  requestId : String
  /-- the request that made this one -/
  parentRequestId : Option String
  tenant : Option String
  sessionId : Option String
  agentId : Option String
  trace : Option Trace
  security : Option Caller
  policy : Policy
  workflow : Option WorkflowPlace
deriving DecidableEq, Repr

namespace Context

/-- the context of a request; the default policy holds if the request has none -/
def ofHeader (h : Header) (default : Policy) : Context where
  requestId := h.requestId
  parentRequestId := h.parentRequestId
  tenant := h.tenant
  sessionId := h.sessionId
  agentId := h.agentId
  trace := h.tracing
  security := h.security
  policy := Policy.resolve h.errorPolicy default
  workflow := h.workflowContext

/-- the context with the given trace, unless it has one -/
def ensureTrace (root : Trace) (c : Context) : Context :=
  { c with trace := some (c.trace.getD root) }

def withWorkflow (place : WorkflowPlace) (c : Context) : Context :=
  { c with workflow := some place }

/-- the tenant, which must be there -/
def requireTenant (c : Context) : Except Fault String :=
  match c.tenant with
  | some tenant => .ok tenant
  | none => .error (.tenantExtraction ("request " ++ c.requestId ++ " carries no tenant"))

def traceId? (c : Context) : Option String := c.trace.map Trace.traceId

def stepPlace (c : Context) (step : Plan.Numbered) : Option WorkflowPlace :=
  c.workflow.map fun w =>
    { w with step := some step.name, index := some step.index, total := some step.total }

/-- the header of a call for a step: `id` is a fresh request id, and `spanId` goes under the current
span, or into the trace of `root` if there is none -/
def childHeader (c : Context) (step : Plan.Numbered) (spanId id : String) (root : Trace) : Header where
  requestId := id
  parentRequestId := some c.requestId
  childRequestId := some id
  tenant := c.tenant
  sessionId := c.sessionId
  agentId := c.agentId
  tracing := some (match c.trace with
    | some parent => parent.child spanId
    | none => { root with spanId })
  security := c.security
  errorPolicy := some c.policy
  workflowContext := c.stepPlace step

end Context

/-- the contexts bound to a task, the innermost first -/
structure Bindings where
  contexts : List Context := []

namespace Bindings

def runWith {α : Type} (b : Bindings) (c : Context) (body : Bindings → α) : α :=
  body ⟨c :: b.contexts⟩

/-- the innermost bound context -/
def current (b : Bindings) : Except Fault Context :=
  match b.contexts with
  | c :: _ => .ok c
  | [] => .error .missingContext

end Bindings

end Relay
