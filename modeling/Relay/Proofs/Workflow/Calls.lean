import Relay.Proofs.Dispatch.Call
import Relay.Workflow.Run

/-!
# What a call means to a workflow

A step and an undo look at the response to their call only. `Turns` says what that was on the wire:

* `Exchange.Ended`       how the last attempt ended, told from the requests that left;
* `Exchange.Delivered`   the last response was a result;
* `CallRun.Softened`     the last attempt failed, and the source of substitutes gave a value;
* `turns_call`           there is nothing else that a call can be to a workflow.
-/

namespace Relay

open Retry (limitOf)

namespace Exchange

variable (d : Dispatcher) (x : Exchange)

/-- how the last attempt of an exchange ended -/
def Ended (o : Except Fault Json) : Prop :=
  ∃ connection, d.services.lookup x.service = some connection ∧
    connection.Ends (limitOf x.context.policy) x.service x.request (x.starts.length - 1) o

/-- the last response of an exchange was a result -/
def Delivered (value : Json) : Prop :=
  ∃ connection response, d.services.lookup x.service = some connection ∧
    (connection.answer x.request (x.starts.length - 1)).outcome = .ok response ∧
    response.Delivers value

variable {d x}

theorem Ended.delivered {value : Json} (h : x.Ended d (.ok value)) : x.Delivered d value := by
  obtain ⟨connection, hconnection, hends⟩ := h
  obtain ⟨response, hresponse, hvalue⟩ := hends.delivers
  exact ⟨connection, response, hconnection, hresponse, hvalue⟩

theorem Ended.unique {o o' : Except Fault Json} (h : x.Ended d o) (h' : x.Ended d o') : o = o' := by
  obtain ⟨connection, hconnection, hends⟩ := h
  obtain ⟨connection', hconnection', hends'⟩ := h'
  cases hconnection.symm.trans hconnection'
  exact hends.unique hends'

end Exchange

namespace CallRun

variable (d : Dispatcher) (run : CallRun)

def Ended (o : Except Fault Json) : Prop := ∃ x, run.exchange = some x ∧ x.Ended d o

/-- a call that failed with `fault`, and for which the source of substitutes had `value` -/
structure Softened (fault : Fault) (value : Json) : Prop where
  ended : run.Ended d (.error fault)
  mild : fault.failsFast = false
  asked : run.askedFallback = true
  given : ∃ x, run.exchange = some x ∧
    d.substitute? x.context x.service x.request.params.name = some value

variable {d run}

theorem Ended.unique {o o' : Except Fault Json} (h : run.Ended d o) (h' : run.Ended d o') : o = o' := by
  obtain ⟨x, hx, hended⟩ := h
  obtain ⟨y, hy, hended'⟩ := h'
  cases hx.symm.trans hy
  exact hended.unique hended'

theorem isSome_fallback {c : Context} {service tool : String} {value : Json}
    (h : d.substitute? c service tool = some value) : d.fallback.isSome = true := by
  unfold Dispatcher.substitute? at h
  cases hd : d.fallback with
  | none =>
    rw [hd] at h
    cases h
  | some source => rfl

section
variable {now : Timestamp} {service : String} {header : Header} {call : Tool.Call}
  {connection : Service} {arguments : Json} {x : Exchange} {k : Nat} {o : Except Fault Json}
  (h : run.Sent d now service header call connection arguments x k o)
include h

theorem Sent.ended (hs : d.services.lookup service = some connection) : run.Ended d o := by
  refine ⟨x, h.exchange, connection, ?_, ?_⟩
  · rw [h.service_eq]
    exact hs
  · rw [h.context, h.service_eq, h.attempts]
    exact h.last

theorem Sent.substitute?_eq : d.substitute? x.context x.service x.request.params.name =
    d.substitute? (d.contextFor header) service call.tool := by
  rw [h.context, h.service_eq, h.request]
  rfl

theorem Sent.softened_iff (hs : d.services.lookup service = some connection) (f : Fault)
    (value : Json) : run.Softened d f value ↔
      o = .error f ∧ f.failsFast = false ∧ (d.contextFor header).policy.mode = .bestEffort ∧
        d.substitute? (d.contextFor header) service call.tool = some value := by
  obtain ⟨elapsed, hsurfaces⟩ := h.surfaces
  constructor
  · rintro ⟨hended, hmild, hasked, y, hy, hgiven⟩
    cases h.exchange.symm.trans hy
    rw [h.substitute?_eq] at hgiven
    exact ⟨(h.ended hs).unique hended, hmild, (hsurfaces.asked.mp hasked).2.1, hgiven⟩
  · rintro ⟨ho, hmild, hmode, hgiven⟩
    refine ⟨ho ▸ h.ended hs, hmild, ?_, x, h.exchange, h.substitute?_eq.trans hgiven⟩
    exact hsurfaces.asked.mpr ⟨isSome_fallback hgiven, hmode, f, ho, hmild⟩

end

end CallRun

/-- every request of a call is made from its envelope -/
theorem exchange_call {d : Dispatcher} {now : Timestamp} {service : String}
    {request : Envelope Tool.Call} {x : Exchange}
    (h : (d.call now service request).exchange = some x) :
    x.service = service ∧ x.context = d.contextFor request.header ∧
      ∃ call arguments, request.data = some call ∧
        x.request = .toolCall request.header.requestId call.tool arguments := by
  rcases Dispatcher.call_cases d now service request with
    ⟨f, hrefused⟩ | ⟨call, connection, arguments, y, k, o, hdata, _, hsent⟩
  · cases hrefused.exchange.symm.trans h
  · cases hsent.exchange.symm.trans h
    exact ⟨hsent.service_eq, hsent.context, call, arguments, hdata, hsent.request⟩

namespace Workflow

/-! ## how calls turn out -/

/-- what a call is to a workflow, and what it was on the wire -/
inductive Turns (d : Dispatcher) (policy : Policy) (run : CallRun) : StepResult → Prop
  | refused (f : Fault) (hr : run.Refused f) : Turns d policy run (.error f.notice)
  | delivered (value : Json) (he : run.Ended d (.ok value)) : Turns d policy run (.ok (value, none))
  | failed (f : Fault) (he : run.Ended d (.error f)) (hn : ∀ value, ¬run.Softened d f value) :
    Turns d policy run (.error f.notice)
  | softened (f : Fault) (value : Json) (hs : run.Softened d f value)
    (hm : policy.mode = .bestEffort) : Turns d policy run (.ok (value, some f.notice))

section
variable {d : Dispatcher} {run : CallRun}

theorem callOutcome_error {f : Fault} (h : run.result = .error f) : callOutcome run = .error f.notice := by
  unfold callOutcome
  rw [h]

theorem callOutcome_ok {answer : Envelope Tool.Answer} (h : run.result = .ok answer) :
    callOutcome run = outcome answer := by
  unfold callOutcome
  rw [h]

theorem turns_failed {now : Timestamp} {service : String} {header : Header} {call : Tool.Call}
    {connection : Service} {arguments : Json} {x : Exchange} {k : Nat} {f : Fault}
    (h : run.Sent d now service header call connection arguments x k (.error f))
    (hs : d.services.lookup service = some connection) :
    Turns d (d.contextFor header).policy run (callOutcome run) := by
  obtain ⟨elapsed, hsurfaces⟩ := h.surfaces
  have hended := h.ended hs
  have hsoftened := h.softened_iff hs f
  -- the cases of a policy that may soften a failure, in which only a substitute does
  cases hmild : f.failsFast with
  | true =>
    rw [callOutcome_error (hsurfaces.fault f rfl (.inl hmild))]
    refine .failed f hended fun value hv => ?_
    cases hmild.symm.trans hv.mild
  | false =>
    cases hmode : (d.contextFor header).policy.mode with
    | failFast =>
      rw [callOutcome_error (hsurfaces.fault f rfl (.inr (.inl hmode)))]
      refine .failed f hended fun value hv => ?_
      cases hmode.symm.trans ((hsoftened value).mp hv).2.2.1
    | allowPartial =>
      rw [callOutcome_ok (hsurfaces.partly f rfl hmild hmode)]
      refine .failed f hended fun value hv => ?_
      cases hmode.symm.trans ((hsoftened value).mp hv).2.2.1
    | bestEffort =>
      cases hvalue : d.substitute? (d.contextFor header) service call.tool with
      | none =>
        rw [callOutcome_error (hsurfaces.fault f rfl (.inr (.inr ⟨hmode, hvalue⟩)))]
        refine .failed f hended fun value hv => ?_
        cases hvalue.symm.trans ((hsoftened value).mp hv).2.2.2
      | some value =>
        rw [callOutcome_ok (hsurfaces.substitute f value rfl hmild hmode hvalue)]
        exact .softened f value ((hsoftened value).mpr ⟨rfl, hmild, hmode, hvalue⟩) hmode

/-- **what a call can be to a workflow** -/
theorem turns_call {now : Timestamp} {service : String} {request : Envelope Tool.Call}
    (hrun : run = d.call now service request) {policy : Policy}
    (hpolicy : (d.contextFor request.header).policy = policy) :
    Turns d policy run (callOutcome run) := by
  rw [hrun, ← hpolicy]
  rcases Dispatcher.call_cases d now service request with
    ⟨f, hrefused⟩ | ⟨call, connection, arguments, x, k, o, _, hs, hsent⟩
  · rw [callOutcome_error hrefused.result]
    exact .refused f hrefused
  · cases o with
    | ok value =>
      obtain ⟨elapsed, hsurfaces⟩ := hsent.surfaces
      rw [callOutcome_ok (hsurfaces.value value rfl)]
      exact .delivered value (hsent.ended hs)
    | error f => exact turns_failed hsent hs

/-- a softened call cannot turn out in any other way -/
theorem Turns.eq_of_softened {policy : Policy} {o : StepResult} (h : Turns d policy run o) {f : Fault}
    {value : Json} (hs : run.Softened d f value) : o = .ok (value, some f.notice) := by
  have hended := hs.ended
  obtain ⟨x, hx, hgiven⟩ := hs.given
  cases h with
  | refused f' hr => cases hr.exchange.symm.trans hx
  | delivered value' he => cases he.unique hended
  | failed f' he hn =>
    cases he.unique hended
    exact absurd hs (hn value)
  | softened f' value' hs' hm =>
    cases hs'.ended.unique hended
    obtain ⟨y, hy, hgiven'⟩ := hs'.given
    cases hx.symm.trans hy
    cases hgiven.symm.trans hgiven'
    rfl

end

end Workflow

end Relay
