import Relay.Proofs.Workflow.Calls
import Relay.Proofs.Workflow.Rollback

/-!
# Whether an undo happened

A step that a report calls undone was undone. `UndoRun.Proved` is what there is to show for it: a handler
that was found and did not fail, or a result as the last response to the call of a tool. `UndoRun.Failed`
is what became of the other undos, and `Run.Compensates` says of a run that each of its undos is entered
as the one or the other.

A substitute would prove nothing. The header of an undo carries a policy under which no source of
substitutes is asked, so that with any other source the undos would be the same.
-/

namespace Relay.Workflow

/-- the engine with another source of substitutes -/
def Engine.withFallback (e : Engine) (source : Option FallbackSource) : Engine :=
  { e with dispatcher := { e.dispatcher with fallback := source } }

namespace UndoRun

/-- an undo by a call of the tool that the step declares -/
structure Calls (u : UndoRun) (run : CallRun) : Prop where
  action : u.action = .call run
  declared : ∃ service tool arguments, u.step.undo = some (.tool service tool arguments) ∧
    ∀ x, run.exchange = some x → x.service = service ∧ x.request.params.name = tool

/-- what an undo that happened has to show -/
inductive Proved (e : Engine) (u : UndoRun) : Prop
  | handled (name : String) (hu : u.step.undo = some (.named name)) (handler : Handler)
    (hh : e.handlers.lookup name = some handler) (context : Context)
    (ha : u.action = .handler name context true) (hr : handler context u.step u.output = .ok ())
  | answered (run : CallRun) (hc : u.Calls run) (x : Exchange) (hx : run.exchange = some x)
    (value : Json) (hv : x.Delivered e.dispatcher value)

/-- what became of an undo that failed -/
inductive Failed (e : Engine) (u : UndoRun) : Notice → Prop
  | unregistered (name : String) (hu : u.step.undo = some (.named name))
    (hh : e.handlers.lookup name = none) :
    Failed e u (.ofKind .notFound ("no compensating action named '" ++ name ++ "'"))
  | handled (name : String) (hu : u.step.undo = some (.named name)) (handler : Handler)
    (hh : e.handlers.lookup name = some handler) (context : Context)
    (ha : u.action = .handler name context true) (f : Fault)
    (hr : handler context u.step u.output = .error f) : Failed e u f.notice
  | refused (run : CallRun) (hc : u.Calls run) (f : Fault) (hr : run.Refused f) : Failed e u f.notice
  | ended (run : CallRun) (hc : u.Calls run) (f : Fault) (hr : run.Ended e.dispatcher (.error f)) :
    Failed e u f.notice

end UndoRun

/-! ## one undo -/

section
variable {e : Engine} {names : Names} {now : Timestamp} {c : Context} {d : Completed} {u : UndoRun}

/-- a call for an undo undid the step if its last attempt succeeded -/
theorem undoOutcome_cases {d : Dispatcher} {step : Plan.Numbered} {service : String}
    {call : Tool.Call} {run : CallRun}
    (hrun : run = d.call now service (.ok (undoHeader names c step) call)) :
    (undoOutcome run = .ok () ∧ ∃ value, run.Ended d (.ok value)) ∨
      ∃ f, undoOutcome run = .error f.notice ∧ (run.Refused f ∨ run.Ended d (.error f)) := by
  have h : Turns d { c.policy with mode := .failFast } run (callOutcome run) := turns_call hrun rfl
  unfold undoOutcome
  generalize callOutcome run = o at h ⊢
  cases h with
  | refused f hr => exact .inr ⟨f, rfl, .inl hr⟩
  | delivered value he => exact .inl ⟨rfl, value, he⟩
  | failed f he hn => exact .inr ⟨f, rfl, .inr he⟩
  | softened f value hs hbest => cases hbest

theorem Undoes.calls {service tool : String} {arguments sent : Json} {run : CallRun}
    (hu : d.step.undo = some (.tool service tool arguments))
    (hrun : run = e.dispatcher.call now service
      (.ok (undoHeader names c d.step) { tool, arguments := sent })) :
    UndoRun.Calls ⟨d.step, d.output, .call run, undoOutcome run⟩ run := by
  refine ⟨rfl, service, tool, arguments, hu, ?_⟩
  intro x hx
  rw [hrun] at hx
  obtain ⟨hservice, _, call, injected, hdata, hrequest⟩ := exchange_call hx
  cases hdata
  rw [hrequest]
  exact ⟨hservice, rfl⟩

/-- **an undo with nothing to report happened** -/
theorem Undoes.proved (h : Undoes e names now c d u) (hd : u.declared = true) (he : u.error? = none) :
    u.Proved e := by
  unfold UndoRun.error? at he
  cases h with
  | undeclared hu =>
    have hnone : d.step.undo.isSome = true := hd
    rw [hu] at hnone
    cases hnone
  | tool service tool arguments sent hu hinput hothers run hrun =>
    rcases undoOutcome_cases hrun with
      ⟨_, value, x, hx, hended⟩ | ⟨f, hf, _⟩
    · exact .answered run (Undoes.calls hu hrun) x hx value hended.delivered
    · simp only [hf] at he
      cases he
  | handled name hu handler hh context hc =>
    cases hr : handler context d.step d.output with
    | ok => exact .handled name hu handler hh context rfl hr
    | error f =>
      simp only [hr, Except.mapError] at he
      cases he
  | unknown name hu hh context hc => cases he

/-- **the notice of an undo is that of what went wrong in it** -/
theorem Undoes.failed (h : Undoes e names now c d u) {n : Notice} (he : u.error? = some n) :
    u.Failed e n := by
  unfold UndoRun.error? at he
  cases h with
  | undeclared hu => cases he
  | tool service tool arguments sent hu hinput hothers run hrun =>
    rcases undoOutcome_cases hrun with
      ⟨hok, _⟩ | ⟨f, hf, hwhy⟩
    · simp only [hok] at he
      cases he
    · simp only [hf] at he
      cases he
      rcases hwhy with hrefused | hended
      · exact .refused run (Undoes.calls hu hrun) f hrefused
      · exact .ended run (Undoes.calls hu hrun) f hended
  | handled name hu handler hh context hc =>
    cases hr : handler context d.step d.output with
    | ok =>
      simp only [hr, Except.mapError] at he
      cases he
    | error f =>
      simp only [hr, Except.mapError] at he
      cases he
      exact .handled name hu handler hh context rfl f hr
  | unknown name hu hh context hc =>
    cases he
    exact .unregistered name hu hh

/-- no undo asks a source of substitutes -/
theorem Undoes.unasked (h : Undoes e names now c d u) {run : CallRun} (ha : u.action = .call run) :
    run.askedFallback = false := by
  cases h with
  | tool service tool arguments sent hu hinput hothers run' hrun =>
    cases ha
    rw [hrun]
    exact (Dispatcher.call_failFast rfl).1
  | undeclared | handled | unknown => cases ha

theorem Undoes.withFallback (h : Undoes e names now c d u) (source : Option FallbackSource) :
    Undoes (e.withFallback source) names now c d u := by
  cases h with
  | undeclared hu => exact .undeclared hu
  | tool service tool arguments sent hu hinput hothers run hrun =>
    apply Undoes.tool service tool arguments sent hu hinput hothers run
    rw [hrun]
    have hsame : ∀ source, ({ e.dispatcher with fallback := source } : Dispatcher).call now service
        (.ok (undoHeader names c d.step) { tool, arguments := sent }) =
          e.dispatcher.call now service (.ok (undoHeader names c d.step) { tool, arguments := sent }) :=
      (Dispatcher.call_failFast rfl).2
    exact (hsame source).symm
  | handled name hu handler hh context hc =>
    have hsame : (e.withFallback source).handlers.lookup name = some handler := hh
    exact .handled name hu handler hsame context hc
  | unknown name hu hh context hc =>
    have hsame : (e.withFallback source).handlers.lookup name = none := hh
    exact .unknown name hu hsame context hc

end

/-! ## the undos of a run -/

/-- **what the undos of a run have to show** -/
structure Run.Compensates (e : Engine) (names : Names) (now : Timestamp) (c : Context) (r : Run) :
    Prop where
  /-- a step that is called undone was -/
  proved : ∀ n ∈ r.report.compensated, ∃ u ∈ r.undos, u.name = n ∧ u.Proved e
  /-- any other that declares an undo is entered with what went wrong -/
  failed : ∀ u ∈ r.undos, u.declared = true → u.name ∉ r.report.compensated →
    ∃ n, ⟨u.name, n⟩ ∈ r.report.compensationFailures ∧ u.Failed e n
  unasked : ∀ u ∈ r.undos, ∀ run, u.action = .call run → run.askedFallback = false
  /-- with any other source of substitutes the undos are the same -/
  unaffected : ∀ source, ∀ u ∈ r.undos,
    Undoes (e.withFallback source) names now c ⟨u.step, u.output⟩ u

section
variable {e : Engine} {names : Names} {now : Timestamp} {c : Context} {r : Run}

theorem Run.RolledBack.undoes (h : r.RolledBack e names now c) {u : UndoRun} (hu : u ∈ r.undos) :
    Undoes e names now c ⟨u.step, u.output⟩ u := by
  obtain ⟨s, _, _, _, hundoes⟩ := h.each u hu
  have hstep : u.step = s.step := hundoes.step_eq
  rw [hstep]
  exact hundoes

theorem Run.RolledBack.compensates (h : r.RolledBack e names now c) :
    r.Compensates e names now c := by
  constructor
  case proved =>
    intro n hn
    rw [h.compensated] at hn
    obtain ⟨u, hu, rfl⟩ := List.mem_map.mp hn
    obtain ⟨hmem, hkept⟩ := List.mem_filter.mp hu
    obtain ⟨hdeclared, hnone⟩ := Bool.and_eq_true_iff.mp hkept
    exact ⟨u, hmem, rfl, (h.undoes hmem).proved hdeclared (Option.isNone_iff_eq_none.mp hnone)⟩
  case failed =>
    intro u hu hdeclared hnot
    rw [h.compensated] at hnot
    cases he : u.error? with
    | none =>
      refine absurd (List.mem_map_of_mem (List.mem_filter.mpr ⟨hu, ?_⟩)) hnot
      rw [hdeclared, he]
      rfl
    | some n =>
      refine ⟨n, ?_, (h.undoes hu).failed he⟩
      rw [h.compensationFailures]
      refine List.mem_filterMap.mpr ⟨u, List.mem_filter.mpr ⟨hu, hdeclared⟩, ?_⟩
      rw [he]
      rfl
  case unasked => exact fun u hu run ha => (h.undoes hu).unasked ha
  case unaffected => exact fun source u hu => (h.undoes hu).withFallback source

theorem Run.Untouched.compensates (h : r.Untouched) : r.Compensates e names now c := by
  have hnone : ∀ u, u ∉ r.undos := by
    rw [h.undos]
    exact fun u => List.not_mem_nil
  constructor
  case proved =>
    rw [h.compensated]
    exact fun n hn => absurd hn List.not_mem_nil
  case failed => exact fun u hu => absurd hu (hnone u)
  case unasked => exact fun u hu => absurd hu (hnone u)
  case unaffected => exact fun source u hu => absurd hu (hnone u)

end

/-- **a step that is reported as undone was undone** -/
theorem execute_compensates (e : Engine) (names : Names) (now : Timestamp)
    (request : Envelope Request) :
    (e.execute names now request).2.Compensates e names now (e.contextFor names request) := by
  show (e.start names now request).Compensates e names now (e.contextFor names request)
  rcases undone_or_untouched_start e names now request with hundone | huntouched
  · exact hundone.compensates
  · exact huntouched.compensates

/-- the bank answered when it was asked for the charge -/
theorem execute_compensates_order :
    ∃ u ∈ (Order.engine.execute Order.names Order.now Order.envelope).2.undos,
      u.name = "charge" ∧ u.Proved Order.engine := by
  apply (execute_compensates Order.engine Order.names Order.now Order.envelope).proved
  decide +kernel

end Relay.Workflow
