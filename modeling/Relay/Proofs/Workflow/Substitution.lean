import Relay.Proofs.Workflow.Calls
import Relay.Proofs.Workflow.DataFlow
import Relay.Proofs.Workflow.Outcome

/-!
# No substitute goes unreported

A step that completed although its call failed has a substitute for an output. Its name is then in two
lists of the report, and no other name is. So what a run that is called completed has for results are
values that services returned.

`StepRun.Softened` and `StepRun.Delivered` say where the output of a step is from, `turns_step` that it is
from nowhere else, and `Run.Discloses` what a report tells of it.
-/

namespace Relay.Workflow

namespace StepRun

/-- the call of the step failed, and the source of substitutes had a value -/
def Softened (d : Dispatcher) (s : StepRun) (f : Fault) (value : Json) : Prop :=
  ∃ run, s.call = some run ∧ run.Softened d f value

/-- the last response to the call of the step was a result -/
def Delivered (d : Dispatcher) (s : StepRun) (value : Json) : Prop :=
  ∃ run x, s.call = some run ∧ run.exchange = some x ∧ x.Delivered d value

end StepRun

/-! ## one step -/

section
variable {e : Engine} {names : Names} {now : Timestamp} {c : Context} {input : Json} {s : StepRun}

/-- a step makes no call, or its result is what its call is to a workflow -/
theorem turns_step (h : s.Sent e names now c input) :
    (s.call = none ∧ ∃ n, s.result = .error n) ∨
      ∃ run, s.call = some run ∧ Turns e.dispatcher c.policy run s.result := by
  cases hown : ownArguments? s.spec.arguments with
  | none =>
    obtain ⟨hcall, n, hn, _⟩ := h.refused hown
    exact .inl ⟨hcall, n, hn⟩
  | some own =>
    obtain ⟨sent, run, _, hrun, hcall, hresult⟩ := h.called own hown
    refine .inr ⟨run, hcall, ?_⟩
    rw [hresult]
    exact turns_call hrun rfl

theorem result_of_softened (h : s.Sent e names now c input) {f : Fault} {value : Json}
    (hs : s.Softened e.dispatcher f value) : s.result = .ok (value, some f.notice) := by
  obtain ⟨run, hrun, hsoftened⟩ := hs
  rcases turns_step h with ⟨hnone, _⟩ | ⟨run', hrun', hturns⟩
  · cases hnone.symm.trans hrun
  · cases hrun.symm.trans hrun'
    exact hturns.eq_of_softened hsoftened

theorem softened_of_result (h : s.Sent e names now c input) {value : Json} {n : Notice}
    (hr : s.result = .ok (value, some n)) :
    c.policy.mode = .bestEffort ∧ ∃ f, n = f.notice ∧ s.Softened e.dispatcher f value := by
  rcases turns_step h with ⟨_, m, hm⟩ | ⟨run, hrun, hturns⟩
  · cases hr.symm.trans hm
  · rw [hr] at hturns
    cases hturns with
    | softened f _ hs hm => exact ⟨hm, f, rfl, run, hrun, hs⟩

theorem delivered_of_result (h : s.Sent e names now c input) {value : Json}
    (hr : s.result = .ok (value, none)) : s.Delivered e.dispatcher value := by
  rcases turns_step h with ⟨_, m, hm⟩ | ⟨run, hrun, hturns⟩
  · cases hr.symm.trans hm
  · rw [hr] at hturns
    cases hturns with
    | delivered _ he =>
      obtain ⟨x, hx, hended⟩ := he
      exact ⟨run, x, hrun, hx, hended.delivered⟩

theorem StepRun.result_eq {value : Json} (h : s.output? = some value) :
    s.result = .ok (value, s.notice?) := by
  unfold StepRun.output? at h
  unfold StepRun.notice? StepResult.notice?
  cases hr : s.result with
  | error n =>
    rw [hr] at h
    cases h
  | ok r =>
    obtain ⟨output, recovered⟩ := r
    rw [hr] at h
    cases h
    rfl

theorem StepRun.notice?_eq {value : Json} {n : Notice} (h : s.result = .ok (value, some n)) :
    s.output? = some value ∧ s.notice? = some n := by
  unfold StepRun.output? StepRun.notice? StepResult.notice?
  rw [h]
  exact ⟨rfl, rfl⟩

end

/-! ## a run -/

/-- **what a report tells of substitutes** -/
structure Run.Discloses (d : Dispatcher) (policy : Policy) (r : Run) : Prop where
  /-- a completed step is among the failures if its result is a substitute, and only then -/
  both : ∀ n, n ∈ r.report.completed ∧ n ∈ r.report.failures.map StepFailure.step ↔
    policy.mode = .bestEffort ∧ ∃ s ∈ r.steps, s.name = n ∧
      ∃ f value, s.Softened d f value ∧ (n, value) ∈ r.report.results
  /-- it is there with the fault that its call ended with, and with no other -/
  entry : ∀ s ∈ r.steps, ∀ f value, s.Softened d f value →
    ∀ g, g ∈ r.report.failures ∧ g.step = s.name ↔ g = ⟨s.name, f.notice⟩
  delivered : r.report.state = .completed → ∀ k v, (k, v) ∈ r.report.results →
    ∃ s ∈ r.steps, s.name = k ∧ s.Delivered d v
  substituted : ∀ s ∈ r.steps, ∀ f value, s.Softened d f value → r.report.state ≠ .completed

section
variable {e : Engine} {names : Names} {now : Timestamp} {c : Context} {input : Json}
  {plan : List Plan.Phase} {r : Run} (h : r.GoesThrough e names now c input plan)
include h

theorem Run.GoesThrough.eq_of_name {s t : StepRun} (hs : s ∈ r.steps) (ht : t ∈ r.steps)
    (hn : s.name = t.name) : s = t :=
  List.inj_on_of_nodup_map h.names_nodup hs ht hn

theorem Run.GoesThrough.mem_completed_iff (n : String) :
    n ∈ r.report.completed ↔ ∃ s ∈ r.steps, s.name = n ∧ ∃ value, s.output? = some value := by
  rw [h.completed_eq]
  simp only [List.mem_map, Prod.exists, mem_results]
  constructor
  · rintro ⟨k, value, ⟨s, hs, rfl, ho⟩, rfl⟩
    exact ⟨s, hs, rfl, value, ho⟩
  · rintro ⟨s, hs, rfl, value, ho⟩
    exact ⟨s.name, value, ⟨s, hs, rfl, ho⟩, rfl⟩

theorem Run.GoesThrough.mem_failures_iff (g : StepFailure) :
    g ∈ r.report.failures ↔ ∃ s ∈ r.steps, s.name = g.step ∧ s.notice? = some g.error := by
  rw [h.failures_eq, List.mem_filterMap]
  constructor
  · rintro ⟨s, hs, hg⟩
    obtain ⟨n, hn, rfl⟩ := Option.map_eq_some_iff.mp hg
    exact ⟨s, hs, rfl, hn⟩
  · rintro ⟨s, hs, hname, hn⟩
    refine ⟨s, hs, Option.map_eq_some_iff.mpr ⟨g.error, hn, ?_⟩⟩
    rw [hname]

/-- **a substitute is told of twice** -/
theorem Run.GoesThrough.both_iff (n : String) :
    n ∈ r.report.completed ∧ n ∈ r.report.failures.map StepFailure.step ↔
      c.policy.mode = .bestEffort ∧ ∃ s ∈ r.steps, s.name = n ∧
        ∃ f value, s.Softened e.dispatcher f value ∧ (n, value) ∈ r.report.results := by
  constructor
  · rintro ⟨hcompleted, hfailed⟩
    obtain ⟨s, hs, rfl, value, ho⟩ := (h.mem_completed_iff n).mp hcompleted
    obtain ⟨g, hg, hstep⟩ := List.mem_map.mp hfailed
    obtain ⟨t, ht, htname, hnotice⟩ := (h.mem_failures_iff g).mp hg
    -- both lists speak of one step, for no name is given twice
    have hts : t = s := h.eq_of_name ht hs (htname.trans hstep)
    rw [hts] at hnotice
    have hresult := StepRun.result_eq ho
    rw [hnotice] at hresult
    obtain ⟨given, hsent⟩ := h.sent_step hs
    obtain ⟨hmode, f, _, hsoftened⟩ := softened_of_result hsent hresult
    exact ⟨hmode, s, hs, rfl, f, value, hsoftened, (h.mem_results_iff _ _).mpr ⟨s, hs, rfl, ho⟩⟩
  · rintro ⟨_, s, hs, rfl, f, value, hsoftened, _⟩
    obtain ⟨given, hsent⟩ := h.sent_step hs
    obtain ⟨ho, hn⟩ := StepRun.notice?_eq (result_of_softened hsent hsoftened)
    constructor
    · exact (h.mem_completed_iff _).mpr ⟨s, hs, rfl, value, ho⟩
    · exact List.mem_map_of_mem ((h.mem_failures_iff ⟨s.name, f.notice⟩).mpr ⟨s, hs, rfl, hn⟩)

theorem Run.GoesThrough.entry_iff {s : StepRun} (hs : s ∈ r.steps) {f : Fault} {value : Json}
    (hsoftened : s.Softened e.dispatcher f value) (g : StepFailure) :
    g ∈ r.report.failures ∧ g.step = s.name ↔ g = ⟨s.name, f.notice⟩ := by
  obtain ⟨given, hsent⟩ := h.sent_step hs
  obtain ⟨_, hn⟩ := StepRun.notice?_eq (result_of_softened hsent hsoftened)
  constructor
  · rintro ⟨hg, hstep⟩
    obtain ⟨t, ht, htname, hnotice⟩ := (h.mem_failures_iff g).mp hg
    have hts : t = s := h.eq_of_name ht hs (htname.trans hstep)
    rw [hts, hn] at hnotice
    obtain ⟨step, error⟩ := g
    cases hstep
    cases hnotice
    rfl
  · intro hg
    rw [hg]
    exact ⟨(h.mem_failures_iff _).mpr ⟨s, hs, rfl, hn⟩, rfl⟩

/-- where nothing failed, every result is one that a service returned -/
theorem Run.GoesThrough.delivered (hnil : r.report.failures = []) {k : String} {v : Json}
    (hv : (k, v) ∈ r.report.results) : ∃ s ∈ r.steps, s.name = k ∧ s.Delivered e.dispatcher v := by
  obtain ⟨s, hs, hname, ho⟩ := (h.mem_results_iff k v).mp hv
  have hresult := StepRun.result_eq ho
  cases hn : s.notice? with
  | some n =>
    have hmem : ⟨s.name, n⟩ ∈ r.report.failures := (h.mem_failures_iff _).mpr ⟨s, hs, rfl, hn⟩
    rw [hnil] at hmem
    exact absurd hmem List.not_mem_nil
  | none =>
    rw [hn] at hresult
    obtain ⟨given, hsent⟩ := h.sent_step hs
    exact ⟨s, hs, hname, delivered_of_result hsent hresult⟩

end

/-- in a run that is called completed nothing failed -/
theorem Run.Consistent.failures_nil {e : Engine} {request : Envelope Request} {r : Run}
    (h : r.Consistent e request) (hs : r.report.state = .completed) : r.report.failures = [] := by
  cases he : r.error with
  | none => exact (h.whole he).2.1
  | some n => exact absurd hs (h.state n he)

/-- **no result is a substitute unless the report says so** -/
theorem execute_discloses (e : Engine) (names : Names) (now : Timestamp) (request : Envelope Request) :
    (e.execute names now request).2.Discloses e.dispatcher
      (Policy.resolve request.header.errorPolicy e.dispatcher.defaultPolicy) := by
  show (e.start names now request).Discloses e.dispatcher (e.contextFor names request).policy
  have hconsistent := consistent_start e names now request
  rcases start_cases e names now request with ⟨fault, _, hstart⟩ | ⟨_, body, plan, _, hp, hstart⟩
  · -- no step was run
    have hsteps : ∀ s, s ∉ (e.start names now request).steps := by
      rw [hstart]
      exact fun s => List.not_mem_nil
    constructor
    case both =>
      intro n
      rw [hstart]
      constructor
      · exact fun hn => absurd hn.1 List.not_mem_nil
      · rintro ⟨_, s, hs, _⟩
        exact absurd hs List.not_mem_nil
    case entry | substituted => exact fun s hs => absurd hs (hsteps s)
    case delivered =>
      intro _ k v hv
      rw [hstart] at hv
      exact absurd hv List.not_mem_nil
  · have hgo := goesThrough_of_start hp hstart
    constructor
    case both => exact hgo.both_iff
    case entry => exact fun s hs f value hsoftened => hgo.entry_iff hs hsoftened
    case delivered =>
      intro hs k v hv
      exact hgo.delivered (hconsistent.failures_nil hs) hv
    case substituted =>
      intro s hs f value hsoftened hcompleted
      have hmem := ((hgo.entry_iff hs hsoftened ⟨s.name, f.notice⟩).mpr rfl).1
      rw [hconsistent.failures_nil hcompleted] at hmem
      exact absurd hmem List.not_mem_nil

/-! ## an order -/

/-- nobody ships a parcel, and a substitute is taken for an answer -/
def Order.lenient : Engine where
  dispatcher := {
    services := Order.engine.dispatcher.services.put "parcels"
      (Script.service .http [(Script.anyTool, [{ action := .error (-32000) "closed" }])])
    fallback := some (Resolution.fixedFallback [("ship", .str "later")])
    defaultPolicy := { mode := .bestEffort } }

theorem execute_discloses_order :
    ∃ s ∈ (Order.lenient.execute Order.names Order.now Order.envelope).2.steps, s.name = "ship" ∧
      ∃ f value, s.Softened Order.lenient.dispatcher f value ∧
        ("ship", value) ∈
          (Order.lenient.execute Order.names Order.now Order.envelope).2.report.results := by
  have hboth :=
    (execute_discloses Order.lenient Order.names Order.now Order.envelope).both "ship"
  have hlists : "ship" ∈
        (Order.lenient.execute Order.names Order.now Order.envelope).2.report.completed ∧
      "ship" ∈ (Order.lenient.execute Order.names Order.now
        Order.envelope).2.report.failures.map StepFailure.step := by
    decide +kernel
  exact (hboth.mp hlists).2

end Relay.Workflow
