import Relay.Proofs.Wire.Report
import Relay.Proofs.Workflow.Compensation

/-!
# What an answer says of its run

An envelope that answers a workflow request has one of three shapes, `Shape`. Which it has is told by
the state of the report, and the report is never lost: where there is no data it is in the details of
the notice. `Run.Blames` says which failure the notice is that of. `execute_outcome` is the whole of it.
-/

namespace Relay

/-- the same failure, whatever is attached -/
def Notice.Agrees (n m : Notice) : Prop := n.kind = m.kind ∧ n.message = m.message ∧ n.code = m.code

theorem Notice.Agrees.trans {n m k : Notice} (h : n.Agrees m) (hk : m.Agrees k) : n.Agrees k :=
  ⟨h.1.trans hk.1, h.2.1.trans hk.2.1, h.2.2.trans hk.2.2⟩

namespace Workflow

/-! ## no notice in a report has details -/

theorem Turns.details {d : Dispatcher} {policy : Policy} {run : CallRun} {o : StepResult}
    (h : Turns d policy run o) {n : Notice} (hn : o.notice? = some n) : n.details = none := by
  cases h with
  | delivered value he => cases hn
  | refused | failed | softened =>
    cases hn
    rfl

section
variable {e : Engine} {names : Names} {now : Timestamp} {c : Context}

theorem details_runStep (input : Json) (step : Plan.Numbered) (spec : Plan.Step) {n : Notice}
    (hn : (runStep e names now c input step spec).notice? = some n) : n.details = none := by
  unfold runStep at hn
  cases ha : stepArguments? spec.arguments input with
  | none =>
    simp only [ha] at hn
    cases hn
    rfl
  | some arguments =>
    simp only [ha] at hn
    exact (turns_call rfl rfl).details hn

theorem Undoes.details {d : Completed} {u : UndoRun} (h : Undoes e names now c d u) {n : Notice}
    (hn : u.error? = some n) : n.details = none := by
  cases h.failed hn with
  | unregistered | handled | refused | ended => rfl

section
variable {input : Json} {plan : List Plan.Phase} {r : Run}

theorem Run.GoesThrough.details_failures (h : r.GoesThrough e names now c input plan) :
    ∀ f ∈ r.report.failures, f.error.details = none := by
  intro f hf
  rw [h.failures_eq] at hf
  obtain ⟨s, hs, hfail⟩ := List.mem_filterMap.mp hf
  obtain ⟨n, hn, rfl⟩ := Option.map_eq_some_iff.mp hfail
  obtain ⟨p, hp, hs⟩ := List.mem_flatMap.mp hs
  rw [h.steps_eq hp] at hs
  obtain ⟨x, _, rfl⟩ := List.mem_map.mp hs
  exact details_runStep p.input x.1 x.2 hn

theorem Run.RolledBack.details_failures (h : r.RolledBack e names now c) :
    ∀ f ∈ r.report.compensationFailures, f.error.details = none := by
  intro f hf
  rw [h.compensationFailures] at hf
  obtain ⟨u, hu, hfail⟩ := List.mem_filterMap.mp hf
  obtain ⟨n, hn, rfl⟩ := Option.map_eq_some_iff.mp hfail
  obtain ⟨s, _, _, _, hundoes⟩ := h.each u (List.mem_of_mem_filter hu)
  exact hundoes.details hn

/-- the failure that ended a run is the one entry of its step -/
theorem Run.GoesThrough.fatal_entry (h : r.GoesThrough e names now c input plan) {f : Failure}
    (hf : r.fatal? = some f) :
    r.report.failed = some f.step ∧ ⟨f.step, f.error⟩ ∈ r.report.failures ∧
      ∀ g ∈ r.report.failures, g.step = f.step → g = ⟨f.step, f.error⟩ := by
  obtain ⟨s, hs, hsome⟩ := List.exists_of_findSome?_eq_some hf
  have hmem : ⟨f.step, f.error⟩ ∈ r.report.failures := by
    rw [h.failures_eq]
    exact List.mem_filterMap.mpr ⟨s, hs, (StepRun.fatal?_eq_some hsome).2.2⟩
  have hnodup : (r.report.failures.map StepFailure.step).Nodup := by
    rw [h.failures_eq, map_step_failures]
    exact h.nodup_filter _
  refine ⟨?_, hmem, fun g hg hstep => List.inj_on_of_nodup_map hnodup hg hmem hstep⟩
  rw [h.failed_eq, hf]
  rfl

end

end

/-! ## what a run says of itself -/

/-- whose failure a notice tells of -/
structure Run.Blames (e : Engine) (request : Envelope Request) (r : Run) (n : Notice) : Prop where
  /-- that of the step that ended the run -/
  failed : ∀ name, r.report.failed = some name → ∃ f ∈ r.report.failures, f.step = name ∧
    (∀ g ∈ r.report.failures, g.step = name → g = f) ∧ n.Agrees f.error
  /-- else the first in the report -/
  first : r.report.failed = none → ∀ f ∈ r.report.failures.head?, n.Agrees f.error
  /-- else no step was run, and the request was turned down -/
  rejected : r.report.failed = none → r.report.failures = [] →
    r.steps = [] ∧ ∃ fault, e.rejection? request = some fault ∧ n.Agrees fault.notice

/-- what a run says of itself, whatever it is answered with -/
structure Run.Consistent (e : Engine) (request : Envelope Request) (r : Run) : Prop where
  whole : r.error = none → r.report.state = .completed ∧ r.report.failures = [] ∧ r.report.failed = none
  state : ∀ n, r.error = some n → r.report.state ≠ .completed
  blames : ∀ n, r.error = some n → r.Blames e request n
  faithful : Wire.Faithful r.report

theorem consistent_rejected (e : Engine) (request : Envelope Request) {fault : Fault}
    (h : e.rejection? request = some fault) :
    (Run.rejected (firstReport request) fault).Consistent e request := by
  constructor
  case whole => exact fun hn => absurd hn (Option.some_ne_none _)
  case state => exact fun n _ hs => by cases hs
  case blames =>
    intro n hn
    cases hn
    constructor
    case failed => exact fun name hname => by cases hname
    case first => exact fun _ f hf => by cases hf
    case rejected => exact fun _ _ => ⟨rfl, fault, h, rfl, rfl, rfl⟩
  case faithful =>
    exact Report.faithful (fun f hf => absurd hf List.not_mem_nil) fun f hf => absurd hf List.not_mem_nil

theorem Ends.error_cases {e : Engine} {names : Names} {now : Timestamp} {c : Context} {p : Progress}
    {r : Run} (h : Ends e names now c p r) :
    (p.failure = none ∧ r.error = none ∧ r.report.state = .completed ∧ p.report.failures = []) ∨
      (p.failure = none ∧ r.report.state = .partialSuccess ∧
        ∃ first ∈ p.report.failures.head?, r.error = some first.error) ∨
      ∃ f, p.failure = some f ∧ r.error = some f.error ∧ r.report.state ≠ .completed := by
  cases h with
  | completed hp hf => exact .inl ⟨hp, rfl, rfl, hf⟩
  | recovered hp first rest hf =>
    refine .inr (.inl ⟨hp, rfl, first, ?_, rfl⟩)
    rw [hf]
    rfl
  | stopped f hp | failed f hp => exact .inr (.inr ⟨f, hp, rfl, fun hs => by cases hs⟩)
  | undone f hp hs hr report hu =>
    refine .inr (.inr ⟨f, hp, rfl, ?_⟩)
    show rollbackState report ≠ .completed
    rw [rollbackState_eq]
    split <;> exact fun hs => by cases hs

theorem Run.blames_first (e : Engine) (request : Envelope Request) {r : Run}
    (hfailed : r.report.failed = none) {f : StepFailure} (hf : f ∈ r.report.failures.head?) :
    r.Blames e request f.error := by
  constructor
  case failed =>
    intro name hname
    rw [hfailed] at hname
    cases hname
  case first =>
    intro _ g hg
    cases hf.symm.trans hg
    exact ⟨rfl, rfl, rfl⟩
  case rejected =>
    intro _ hnil
    rw [hnil] at hf
    cases hf

section
variable {e : Engine} {names : Names} {now : Timestamp} {c : Context} {input : Json} {body : Request}
  {plan : List Plan.Phase} {r : Run}

theorem Run.GoesThrough.blames_fatal (h : r.GoesThrough e names now c input plan)
    (request : Envelope Request) {f : Failure} (hf : r.fatal? = some f) : r.Blames e request f.error := by
  obtain ⟨hfailed, hmem, honly⟩ := h.fatal_entry hf
  constructor
  case failed =>
    intro name hname
    cases hfailed.symm.trans hname
    exact ⟨_, hmem, rfl, honly, rfl, rfl, rfl⟩
  case first | rejected =>
    intro hnone
    cases hfailed.symm.trans hnone

/-- the report of every run can be read back -/
theorem faithful_run (hp : e.plan body = .ok plan) (workflowId operation : String)
    (hr : r = run e names now c body (blankReport workflowId operation)) : Wire.Faithful r.report := by
  obtain ⟨_, hgo⟩ := ends_through hp workflowId operation hr
  refine Report.faithful (fun f hf => ?_) fun f hf => ?_
  · rw [hgo.details_failures f hf]
    exact fun h => by cases h
  · rcases undone_or_untouched hp workflowId operation hr with hback | hnone
    · rw [hback.details_failures f hf]
      exact fun h => by cases h
    · rw [hnone.compensationFailures] at hf
      exact absurd hf List.not_mem_nil

theorem consistent_run (request : Envelope Request) (hp : e.plan body = .ok plan)
    (workflowId operation : String)
    (hr : r = run e names now c body (blankReport workflowId operation)) : r.Consistent e request := by
  obtain ⟨hend, hgo⟩ := ends_through hp workflowId operation hr
  have hfatal : _ = r.fatal? := failure_through (blankReport workflowId operation) body.input r.phases
  have hfailures := hend.report.2.2
  have hfaithful := faithful_run hp workflowId operation hr
  rcases hend.error_cases with ⟨hf, he, hs, hnil⟩ | ⟨hf, hs, first, hfirst, he⟩ | ⟨f, hf, he, hs⟩
  · have hfailed : r.report.failed = none := by
      rw [hgo.failed_eq, ← hfatal, hf]
      rfl
    refine ⟨fun _ => ⟨hs, hfailures.trans hnil, hfailed⟩, fun n hn => ?_, fun n hn => ?_, hfaithful⟩
    · cases he.symm.trans hn
    · cases he.symm.trans hn
  · have hfailed : r.report.failed = none := by
      rw [hgo.failed_eq, ← hfatal, hf]
      rfl
    rw [← hfailures] at hfirst
    refine ⟨fun hn => ?_, fun n hn => ?_, fun n hn => ?_, hfaithful⟩
    · cases he.symm.trans hn
    · rw [hs]
      exact fun h => by cases h
    · cases he.symm.trans hn
      exact Run.blames_first e request hfailed hfirst
  · refine ⟨fun hn => ?_, fun n hn => hs, fun n hn => ?_, hfaithful⟩
    · cases he.symm.trans hn
    · cases he.symm.trans hn
      exact hgo.blames_fatal request (hfatal.symm.trans hf)

theorem consistent_start (e : Engine) (names : Names) (now : Timestamp) (request : Envelope Request) :
    (e.start names now request).Consistent e request := by
  rcases start_cases e names now request with ⟨fault, hf, hstart⟩ | ⟨_, body, plan, _, hp, hstart⟩
  · rw [hstart]
    exact consistent_rejected e request hf
  · exact consistent_run request hp request.header.requestId (operationOf request) hstart

end

/-! ## what an answer says -/

/-- the shapes of an answer -/
inductive Shape
  | whole
  | part
  | broken

/-- an answer shows a report in a shape -/
def Shape.Shows : Shape → Envelope Report → Report → Prop
  | whole, a, r =>
    r.state = .completed ∧ a.data = some r ∧ a.error = none ∧ r.failures = [] ∧ r.failed = none
  | part, a, r => r.state = .partialSuccess ∧ a.data = some r ∧ a.error.isSome
  | broken, a, r =>
    (r.state = .failed ∨ r.state = .failedWithRollback) ∧ a.data = none ∧
      ∃ n, a.error = some n ∧ Report.ofNotice? n = some r

/-- the state of a report tells its shape -/
theorem Shape.eq_of_shows {s t : Shape} {a b : Envelope Report} {r : Report} (hs : s.Shows a r)
    (ht : t.Shows b r) : s = t := by
  have hstate : ∀ u : Shape, ∀ a, u.Shows a r → u = match r.state with
      | .completed => .whole
      | .partialSuccess => .part
      | .failed | .failedWithRollback => .broken := by
    intro u a hu
    cases u with
    | whole | part => rw [hu.1]
    | broken => rcases hu.1 with hu | hu <;> rw [hu]
  rw [hstate s a hs, hstate t b ht]

theorem Run.Consistent.shows {e : Engine} {request : Envelope Request} {r : Run}
    (h : r.Consistent e request) (header : Header) : ∃ s : Shape, s.Shows (r.envelope header) r.report := by
  unfold Run.envelope
  cases he : r.error with
  | none =>
    obtain ⟨hs, hf, hfailed⟩ := h.whole he
    exact ⟨.whole, hs, rfl, rfl, hf, hfailed⟩
  | some n =>
    by_cases hp : r.report.state = .partialSuccess
    · simp only [hp, if_true]
      exact ⟨.part, hp, rfl, rfl⟩
    · simp only [hp, if_false]
      refine ⟨.broken, ?_, rfl, _, rfl, Report.ofNotice?_attached h.faithful n⟩
      cases hs : r.report.state with
      | completed => exact absurd hs (h.state n he)
      | partialSuccess => exact absurd hs hp
      | failedWithRollback => exact .inr rfl
      | failed => exact .inl rfl

theorem header_envelope (r : Run) (header : Header) : (r.envelope header).header = header := by
  unfold Run.envelope
  cases r.error with
  | none => rfl
  | some n =>
    by_cases hp : r.report.state = .partialSuccess
    · simp only [hp, if_true]
      rfl
    · simp only [hp, if_false]
      rfl

/-- the notice of an answer is that of its run, perhaps with the report attached -/
theorem agrees_envelope {r : Run} {header : Header} {n : Notice}
    (h : (r.envelope header).error = some n) : ∃ m, r.error = some m ∧ n.Agrees m := by
  unfold Run.envelope at h
  cases he : r.error with
  | none =>
    rw [he] at h
    cases h
  | some m =>
    rw [he] at h
    by_cases hp : r.report.state = .partialSuccess
    · simp only [hp, if_true] at h
      cases h
      exact ⟨n, rfl, rfl, rfl, rfl⟩
    · simp only [hp, if_false] at h
      cases h
      exact ⟨m, rfl, rfl, rfl, rfl⟩

theorem Run.Blames.of_agrees {e : Engine} {request : Envelope Request} {r : Run} {n m : Notice}
    (h : r.Blames e request m) (hn : n.Agrees m) : r.Blames e request n := by
  constructor
  case failed =>
    intro name hname
    obtain ⟨f, hf, hstep, honly, hm⟩ := h.failed name hname
    exact ⟨f, hf, hstep, honly, hn.trans hm⟩
  case first => exact fun hnone f hf => hn.trans (h.first hnone f hf)
  case rejected =>
    intro hnone hnil
    obtain ⟨hsteps, fault, hfault, hm⟩ := h.rejected hnone hnil
    exact ⟨hsteps, fault, hfault, hn.trans hm⟩

/-- **what an answer says of its run** -/
structure Outcome (e : Engine) (names : Names) (request : Envelope Request) (a : Envelope Report)
    (r : Run) : Prop where
  shape : ∃! s : Shape, s.Shows a r.report
  blames : ∀ n, a.error = some n → r.Blames e request n
  /-- the header of the request, which is given a trace if it has none -/
  header : a.header = { request.header with
    timestamp := a.header.timestamp
    durationMs := a.header.durationMs
    tracing := some (request.header.tracing.getD names.root) }

/-- **every request is answered in one of three shapes, and no report is lost** -/
theorem execute_outcome (e : Engine) (names : Names) (now : Timestamp) (request : Envelope Request) :
    Outcome e names request (e.execute names now request).1 (e.execute names now request).2 := by
  have hstart := consistent_start e names now request
  constructor
  case shape =>
    obtain ⟨s, hs⟩ := hstart.shows _
    exact ⟨s, hs, fun t ht => Shape.eq_of_shows ht hs⟩
  case blames =>
    intro n hn
    obtain ⟨m, hm, hagrees⟩ := agrees_envelope hn
    exact (hstart.blames m hm).of_agrees hagrees
  case header =>
    have header : (e.execute names now request).1.header = _ := header_envelope _ _
    rw [header]
    rfl

/-- the report of an order that was not shipped is in the notice -/
theorem execute_outcome_order :
    Shape.broken.Shows (Order.engine.execute Order.names Order.now Order.envelope).1
      (Order.engine.execute Order.names Order.now Order.envelope).2.report := by
  have hstate : (Order.engine.execute Order.names Order.now Order.envelope).2.report.state = .failed := by
    decide +kernel
  obtain ⟨s, hs, _⟩ := (execute_outcome Order.engine Order.names Order.now Order.envelope).shape
  cases s with
  | whole | part => cases hstate.symm.trans hs.1
  | broken => exact hs

end Workflow

end Relay
