import Relay.Proofs.Workflow.Ending

/-!
# Run accounting

A run of a plan goes through the first phases of the plan, runs each of their steps once, and its
report says what became of each. `Run.Accounts` lists what that means field by field, and `run_accounts`
says that every run of a plan that can be run accounts for it, whatever the services answer.
-/

namespace Relay.Workflow

/-! ## the steps of a run and the steps of its plan -/

section
variable (e : Engine) (names : Names) (now : Timestamp) (c : Context)

theorem map_phase_eq_take (plan : List Plan.NumberedPhase) (input : Json) :
    (phaseRuns e names now c input plan).map PhaseRun.phase =
      plan.take (phaseRuns e names now c input plan).length := by
  have h := List.prefix_iff_eq_take.mp (map_phase_isPrefix e names now c plan input)
  rwa [List.length_map] at h

theorem numberedSteps_phaseRuns (plan : List Plan.NumberedPhase) (input : Json) :
    (stepRuns (phaseRuns e names now c input plan)).map (fun s => (s.step, s.spec)) =
      Plan.numberedSteps (plan.take (phaseRuns e names now c input plan).length) := by
  rw [← map_phase_eq_take]
  unfold stepRuns Plan.numberedSteps
  rw [List.map_flatMap, List.flatMap_map]
  refine List.flatMap_congr fun p hp => ?_
  rw [(mem_phaseRuns e names now c hp).2]
  show (List.map _ p.phase.steps).map _ = p.phase.steps
  rw [List.map_map]
  refine (List.map_congr_left fun x _ => ?_).trans (List.map_id _)
  show ((runStep e names now c p.input x.1 x.2).step, (runStep e names now c p.input x.1 x.2).spec) = x
  rw [step_runStep, spec_runStep]

/-- the steps that are run are the first of the plan, under their names -/
theorem named_phaseRuns (plan : List Plan.Phase) (input : Json) :
    (stepRuns (phaseRuns e names now c input (Plan.number plan))).map (fun s => (s.name, s.spec)) =
      (Plan.steps (plan.take (phaseRuns e names now c input (Plan.number plan)).length)).map
        fun s => (s.name, s) := by
  rw [← Plan.named_take_number, ← numberedSteps_phaseRuns, List.map_map]
  rfl

end

/-! ## the report and the steps -/

theorem findSome?_step (ss : List StepRun) :
    (ss.findSome? StepRun.fatal?).map Failure.step = (ss.find? StepRun.isFatal).map StepRun.name := by
  induction ss with
  | nil => rfl
  | cons s ss ih =>
    rw [List.findSome?_cons, List.find?_cons, ← s.isSome_fatal?]
    cases hf : s.fatal? with
    | none => exact ih
    | some f =>
      show some f.step = some s.name
      rw [(StepRun.fatal?_eq_some hf).2.1]

theorem map_step_failures (ss : List StepRun) :
    (ss.filterMap StepRun.failure?).map StepFailure.step =
      (ss.filter fun s => s.notice?.isSome).map StepRun.name := by
  induction ss with
  | nil => rfl
  | cons s ss ih =>
    rw [List.filterMap_cons, List.filter_cons]
    unfold StepRun.failure?
    cases s.notice? with
    | none => exact ih
    | some error => exact congrArg (s.name :: ·) ih

theorem mem_results (ss : List StepRun) (k : String) (v : Json) :
    (k, v) ∈ results ss ↔ ∃ s ∈ ss, s.name = k ∧ s.output? = some v := by
  unfold results StepRun.result?
  rw [List.mem_filterMap]
  simp only [Option.map_eq_some_iff, Prod.mk.injEq]
  constructor
  · rintro ⟨s, hs, output, ho, rfl, rfl⟩
    exact ⟨s, hs, rfl, ho⟩
  · rintro ⟨s, hs, rfl, ho⟩
    exact ⟨s, hs, v, ho, rfl, rfl⟩

/-! ## a run that went through a plan -/

namespace Run.GoesThrough

variable {e : Engine} {names : Names} {now : Timestamp} {c : Context} {input : Json}
  {plan : List Plan.Phase} {r : Run} (h : r.GoesThrough e names now c input plan)
include h

theorem named_eq : r.steps.map (fun s => (s.name, s.spec)) =
    (Plan.steps (plan.take r.phases.length)).map fun s => (s.name, s) := by
  rw [Run.steps, h.phases_eq]
  exact named_phaseRuns e names now c plan input

theorem names_eq : r.steps.map StepRun.name = Plan.names (plan.take r.phases.length) := by
  have hfst := congrArg (List.map Prod.fst) h.named_eq
  rw [List.map_map, List.map_map] at hfst
  exact hfst

theorem names_append : (r.steps.map StepRun.name ++ Plan.names (plan.drop r.phases.length)).Nodup := by
  have hnodup := h.runnable.nodup
  rw [← List.take_append_drop r.phases.length plan, Plan.names, Plan.steps_append,
    List.map_append] at hnodup
  rw [h.names_eq]
  exact hnodup

theorem names_nodup : (r.steps.map StepRun.name).Nodup :=
  (List.nodup_append.mp h.names_append).1

theorem nodup_filter (q : StepRun → Bool) : ((r.steps.filter q).map StepRun.name).Nodup :=
  h.names_nodup.sublist (List.filter_sublist.map _)

theorem not_later : ∀ s ∈ Plan.steps (plan.drop r.phases.length), s.name ∉ r.steps.map StepRun.name := by
  intro s hs hm
  exact (List.nodup_append.mp h.names_append).2.2 _ hm _ (List.mem_map_of_mem hs) rfl

theorem steps_eq {p : PhaseRun} (hp : p ∈ r.phases) :
    p.steps = p.phase.steps.map fun x => runStep e names now c p.input x.1 x.2 := by
  rw [h.phases_eq] at hp
  exact congrArg PhaseRun.steps (mem_phaseRuns e names now c hp).2

theorem fits {p : PhaseRun} (hp : p ∈ r.phases) : ∃ q ∈ plan, p.phase.Fits q := by
  rw [h.phases_eq] at hp
  exact Plan.fits_of_mem_number (mem_phaseRuns e names now c hp).1

theorem schedule_eq {p : PhaseRun} (hp : p ∈ r.phases) {s : StepRun} (hs : s ∈ p.steps) :
    s.step.schedule = p.phase.schedule := by
  obtain ⟨q, _, hfits⟩ := h.fits hp
  rw [h.steps_eq hp] at hs
  obtain ⟨x, hx, rfl⟩ := List.mem_map.mp hs
  rw [step_runStep]
  exact (hfits.places x hx).schedule

/-- a sequential phase runs one step -/
theorem eq_singleton {p : PhaseRun} (hp : p ∈ r.phases) (hs : p.phase.schedule = .sequential) :
    ∃ s, p.steps = [s] := by
  obtain ⟨q, _, hfits⟩ := h.fits hp
  obtain ⟨x, hx⟩ := Plan.eq_singleton_of_sequential hfits hs
  rw [h.steps_eq hp, hx]
  exact ⟨_, rfl⟩

theorem keys_results_nodup : ((results r.steps).map Prod.fst).Nodup := by
  rw [map_fst_results]
  exact h.nodup_filter _

theorem mem_results_iff (k : String) (v : Json) :
    (k, v) ∈ r.report.results ↔ ∃ s ∈ r.steps, s.name = k ∧ s.output? = some v := by
  rw [h.results_eq, Table.mem_ofList h.keys_results_nodup, mem_results]

theorem mem_keys_iff (k : String) : k ∈ r.report.results.keys ↔ k ∈ r.report.completed := by
  rw [h.completed_eq]
  show k ∈ r.report.results.map Prod.fst ↔ _
  simp only [List.mem_map, Prod.exists, h.mem_results_iff, mem_results]

theorem failed_iff (n : String) : r.report.failed = some n ↔
    ∃ p ∈ r.phases.getLast?, (p.steps.find? StepRun.isFatal).map StepRun.name = some n := by
  rw [h.failed_eq, Run.fatal?, Run.steps, h.phases_eq, findSome?_fatal?, ← h.phases_eq]
  cases r.phases.getLast? with
  | none => simp
  | some p =>
    show (PhaseRun.fatal? p).map Failure.step = some n ↔ _
    rw [PhaseRun.fatal?, findSome?_step]
    simp

theorem whole (hf : r.report.failed = none) : r.phases.map PhaseRun.phase = Plan.number plan := by
  rw [h.failed_eq, Option.map_eq_none_iff, Run.fatal?, Run.steps, h.phases_eq] at hf
  rw [h.phases_eq]
  exact map_phase_phaseRuns e names now c _ _ hf

end Run.GoesThrough

/-- **what a run accounts for** -/
structure Run.Accounts (e : Engine) (names : Names) (now : Timestamp) (c : Context)
    (plan : List Plan.Phase) (r : Run) : Prop where
  /-- the phases that were run are the first of the plan -/
  first : r.phases.map PhaseRun.phase <+: Plan.number plan
  /-- every step of such a phase was run with what the phase was given, whatever the others do -/
  each : ∀ p ∈ r.phases, p.steps = p.phase.steps.map fun x => runStep e names now c p.input x.1 x.2
  named : r.steps.map (fun s => (s.name, s.spec)) =
    (Plan.steps (plan.take r.phases.length)).map fun s => (s.name, s)
  once : (r.steps.map StepRun.name).Nodup
  no_later : ∀ s ∈ Plan.steps (plan.drop r.phases.length), s.name ∉ r.steps.map StepRun.name
  completed : r.report.completed = (r.steps.filter StepRun.succeeded).map StepRun.name
  completed_nodup : r.report.completed.Nodup
  results : ∀ k v, (k, v) ∈ r.report.results ↔ ∃ s ∈ r.steps, s.name = k ∧ s.output? = some v
  results_keys : ∀ k, k ∈ r.report.results.keys ↔ k ∈ r.report.completed
  results_nodup : r.report.results.keys.Nodup
  /-- of steps without an output, and those that an output makes up for -/
  failures : r.report.failures = r.steps.filterMap StepRun.failure?
  failures_nodup : (r.report.failures.map StepFailure.step).Nodup
  /-- the first required step that failed in the last phase -/
  failed : ∀ n, r.report.failed = some n ↔
    ∃ p ∈ r.phases.getLast?, (p.steps.find? StepRun.isFatal).map StepRun.name = some n
  whole : r.report.failed = none → r.phases.map PhaseRun.phase = Plan.number plan

/-- **every run of a plan that can be run accounts for it** -/
theorem run_accounts (e : Engine) (names : Names) (now : Timestamp) (c : Context)
    (request : Request) (plan : List Plan.Phase) (workflowId operation : String)
    (hplan : e.plan request = .ok plan) :
    (run e names now c request (blankReport workflowId operation)).Accounts e names now c plan := by
  have h := run_goesThrough e names now c hplan workflowId operation
  constructor
  case first =>
    rw [h.phases_eq]
    exact map_phase_isPrefix e names now c _ _
  case each => exact fun p hp => h.steps_eq hp
  case named => exact h.named_eq
  case once => exact h.names_nodup
  case no_later => exact h.not_later
  case completed => rw [h.completed_eq, map_fst_results]
  case completed_nodup =>
    rw [h.completed_eq]
    exact h.keys_results_nodup
  case results => exact h.mem_results_iff
  case results_keys => exact h.mem_keys_iff
  case results_nodup =>
    rw [h.results_eq]
    exact Table.keys_nodup (Table.sorted_ofList _)
  case failures => exact h.failures_eq
  case failures_nodup =>
    rw [h.failures_eq, map_step_failures]
    exact h.nodup_filter _
  case failed => exact h.failed_iff
  case whole => exact h.whole

/-! ## an order -/

namespace Order

/-- nobody answers for the ratings and for the parcel -/
def plan : List Plan.Phase := [
  .parallel "checks" [
    { name := "stock", service := "warehouse", tool := "reserve" },
    { name := "rating", service := "ratings", tool := "rate", required := false }],
  .sequential {
    name := "charge", service := "bank", tool := "charge", arguments := .null
    undo := some (.tool "bank" "refund" Json.emptyObject) },
  .sequential { name := "label", service := "warehouse", tool := "label" },
  .sequential { name := "ship", service := "parcels", tool := "ship" }]

def engine : Engine where
  dispatcher := {
    services := [("bank", Script.service .http []), ("warehouse", Script.service .messageBus [])]
    defaultPolicy := { rollbackOnFailure := true } }

def request : Request := { operation := "order", input := Json.int 7, plan := some plan }

def envelope : Envelope Request := .ok { requestId := "order-1" } request

def names : Names where
  stepId n := "step-" ++ toString n
  undoId n := "undo-" ++ toString n
  root := ⟨"trace", "root", none⟩

def now : Timestamp := ⟨⟨2024, 2, 29⟩, 12, 0, 0, 0⟩

def context : Context := contextOf engine.dispatcher names { requestId := "order-1" } "order"

end Order

theorem run_accounts_order : Order.engine.plan Order.request = .ok Order.plan ∧
    (run Order.engine Order.names Order.now Order.context Order.request
      (blankReport "order-1" "order")).Accounts Order.engine Order.names Order.now Order.context
      Order.plan :=
  ⟨rfl, run_accounts _ _ _ _ _ _ _ _ rfl⟩

end Relay.Workflow
