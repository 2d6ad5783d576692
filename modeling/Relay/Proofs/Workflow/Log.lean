import Mathlib.Data.List.Chain
import Relay.Workflow.Run

/-!
# What a run has in its log

The loop over the phases keeps a report, a stack of completed steps and a first failure. All three are
functions of the list of steps that were run:

* `StepRun.output?`, `StepRun.notice?`, `StepRun.fatal?`   what one step put out, what went wrong in
  it, whether it ends the run;
* `Progress.after`   the progress after given steps, field by field, and `foldl_record`: the loop over
  the steps of a phase computes it;
* `phaseRuns`        the phases that are run, `Progress.through` the progress after them, and
  `runPhases_eq`: the loop over the phases computes it.

So what is proved of `phaseRuns` by induction over the plan holds of every run.
-/

namespace Relay.Workflow

/-! ## one step -/

/-- what went wrong: the failure, or the one that the output makes up for -/
def StepResult.notice? : StepResult → Option Notice
  | .ok (_, recovered) => recovered
  | .error error => some error

namespace StepRun

def name (s : StepRun) : String := s.step.name

/-- the output of a step that completed -/
def output? (s : StepRun) : Option Json :=
  match s.result with
  | .ok (output, _) => some output
  | .error _ => none

def notice? (s : StepRun) : Option Notice := s.result.notice?

def succeeded (s : StepRun) : Bool := s.output?.isSome

/-- a required step that failed -/
def isFatal (s : StepRun) : Bool := s.spec.required && !s.succeeded

/-- the output by name -/
def result? (s : StepRun) : Option (String × Json) := s.output?.map fun output => (s.name, output)

def failure? (s : StepRun) : Option StepFailure := s.notice?.map fun error => ⟨s.name, error⟩

/-- the failure that ends the run -/
def fatal? (s : StepRun) : Option Failure :=
  match s.result with
  | .ok _ => none
  | .error error => if s.spec.required then some ⟨s.name, error⟩ else none

/-- what a rollback comes back to -/
def completed? (s : StepRun) : Option Completed :=
  if s.step.schedule = .sequential then s.output?.map fun output => ⟨s.step, output⟩ else none

theorem fatal?_eq_some {s : StepRun} {f : Failure} (h : s.fatal? = some f) :
    s.isFatal = true ∧ f.step = s.name ∧ s.failure? = some ⟨f.step, f.error⟩ := by
  unfold fatal? at h
  unfold isFatal succeeded output? failure? notice? StepResult.notice?
  cases hr : s.result with
  | ok r => simp [hr] at h
  | error error =>
    rw [hr] at h
    by_cases hq : s.spec.required = true
    · simp only [hq, if_true, Option.some.injEq] at h
      subst h
      simp [hq]
    · simp [hq] at h

theorem isSome_fatal? (s : StepRun) : s.fatal?.isSome = s.isFatal := by
  unfold fatal? isFatal succeeded output?
  cases s.result with
  | ok r => simp
  | error error => cases s.spec.required <;> simp

end StepRun

/-! ## the steps of a phase -/

/-- the outputs by name in order -/
def results (ss : List StepRun) : List (String × Json) := ss.filterMap StepRun.result?

/-- the completed sequential steps in order -/
def completions (ss : List StepRun) : List Completed := ss.filterMap StepRun.completed?

/-- binds outputs by name -/
def putResults (bs : List (String × Json)) (t : Table Json) : Table Json :=
  bs.foldl (fun t b => t.put b.1 b.2) t

theorem results_cons (s : StepRun) (ss : List StepRun) :
    results (s :: ss) = s.result?.toList ++ results ss := by
  unfold results
  cases h : s.result? <;> simp [h]

theorem results_append (ss ts : List StepRun) : results (ss ++ ts) = results ss ++ results ts := by
  simp [results]

theorem completions_cons (s : StepRun) (ss : List StepRun) :
    completions (s :: ss) = s.completed?.toList ++ completions ss := by
  unfold completions
  cases h : s.completed? <;> simp [h]

theorem completions_append (ss ts : List StepRun) :
    completions (ss ++ ts) = completions ss ++ completions ts := by
  simp [completions]

theorem putResults_append (bs cs : List (String × Json)) (t : Table Json) :
    putResults (bs ++ cs) t = putResults cs (putResults bs t) := by
  simp [putResults]

theorem map_fst_results (ss : List StepRun) :
    (results ss).map Prod.fst = (ss.filter StepRun.succeeded).map StepRun.name := by
  induction ss with
  | nil => rfl
  | cons s ss ih =>
    rw [results_cons, List.map_append, ih, List.filter_cons]
    unfold StepRun.result? StepRun.succeeded
    cases s.output? <;> simp

theorem phaseOutputs_eq (ss : List StepRun) : phaseOutputs ss = putResults (results ss) [] := by
  suffices h : ∀ t : Table Json, ss.foldl (fun t s => match s.result with
      | .ok (output, _) => t.put s.step.name output
      | .error _ => t) t = putResults (results ss) t from h []
  induction ss with
  | nil => exact fun t => rfl
  | cons s ss ih =>
    intro t
    rw [List.foldl_cons, ih, results_cons, putResults_append]
    unfold StepRun.result? StepRun.output?
    cases s.result <;> rfl

/-- the progress after the given steps -/
def Progress.after (p : Progress) (ss : List StepRun) : Progress :=
  { p with
    report := { p.report with
      results := putResults (results ss) p.report.results
      completed := p.report.completed ++ (results ss).map Prod.fst
      failures := p.report.failures ++ ss.filterMap StepRun.failure? }
    done := (completions ss).reverse ++ p.done
    failure := p.failure.or (ss.findSome? StepRun.fatal?) }

theorem Progress.after_nil (p : Progress) : p.after [] = p := by
  obtain ⟨report, done, input, failure, phases⟩ := p
  cases report
  simp [after, results, completions, putResults]

theorem Progress.after_append (p : Progress) (ss ts : List StepRun) :
    p.after (ss ++ ts) = (p.after ss).after ts := by
  simp [after, results_append, completions_append, putResults_append, List.findSome?_append,
    Option.or_assoc]

/-- entering one step -/
theorem record_eq (p : Progress) (s : StepRun) : p.record s = p.after [s] := by
  obtain ⟨step, spec, result, call⟩ := s
  obtain ⟨report, done, input, failure, phases⟩ := p
  unfold Progress.record Progress.after results completions StepRun.result? StepRun.failure?
    StepRun.completed? StepRun.fatal? StepRun.notice? StepResult.notice? StepRun.output? StepRun.name
  cases result with
  | ok r =>
    obtain ⟨output, recovered⟩ := r
    cases recovered <;> by_cases hs : step.schedule = .sequential <;> simp [hs, putResults]
  | error error =>
    cases failure <;> cases hq : spec.required <;> simp [putResults, hq]

/-- **the loop over the steps of a phase** -/
theorem foldl_record (ss : List StepRun) (p : Progress) : ss.foldl Progress.record p = p.after ss := by
  induction ss generalizing p with
  | nil => exact p.after_nil.symm
  | cons s ss ih =>
    rw [List.foldl_cons, ih, record_eq, ← Progress.after_append]
    rfl

/-! ## the phases of a run -/

/-- the failure with which a phase ends the run -/
def PhaseRun.fatal? (p : PhaseRun) : Option Failure := p.steps.findSome? StepRun.fatal?

/-- what the next phase is given -/
def PhaseRun.output (p : PhaseRun) : Json := nextInput p.phase.schedule p.input p.steps

/-- the steps of phases in order -/
def stepRuns (ps : List PhaseRun) : List StepRun := ps.flatMap PhaseRun.steps

theorem stepRuns_nil : stepRuns [] = [] := rfl

theorem stepRuns_cons (p : PhaseRun) (ps : List PhaseRun) :
    stepRuns (p :: ps) = p.steps ++ stepRuns ps := rfl

theorem stepRuns_append (ps qs : List PhaseRun) : stepRuns (ps ++ qs) = stepRuns ps ++ stepRuns qs := by
  simp [stepRuns]

/-- the progress after the given phases -/
def Progress.through (p : Progress) (runs : List PhaseRun) : Progress :=
  { p.after (stepRuns runs) with
    input := (runs.getLast?.map PhaseRun.output).getD p.input
    phases := p.phases ++ runs }

theorem Progress.through_nil (p : Progress) : p.through [] = p := by
  unfold through
  rw [stepRuns_nil, after_nil, List.append_nil]
  rfl

theorem Progress.through_append (p : Progress) (ps qs : List PhaseRun) :
    p.through (ps ++ qs) = (p.through ps).through qs := by
  unfold through
  rw [stepRuns_append, after_append, List.append_assoc, List.getLast?_append]
  cases qs.getLast? <;> rfl

theorem Progress.through_singleton_failure (p : Progress) (run : PhaseRun) :
    (p.through [run]).failure = p.failure.or run.fatal? := by
  show p.failure.or ((stepRuns [run]).findSome? StepRun.fatal?) = _
  rw [stepRuns_cons, stepRuns_nil, List.append_nil]
  rfl

section
variable (e : Engine) (names : Names) (now : Timestamp) (c : Context)

theorem step_runStep (input : Json) (step : Plan.Numbered) (spec : Plan.Step) :
    (runStep e names now c input step spec).step = step := by
  unfold runStep
  cases stepArguments? spec.arguments input <;> rfl

theorem spec_runStep (input : Json) (step : Plan.Numbered) (spec : Plan.Step) :
    (runStep e names now c input step spec).spec = spec := by
  unfold runStep
  cases stepArguments? spec.arguments input <;> rfl

/-- runs the steps of a phase -/
def phaseRun (input : Json) (phase : Plan.NumberedPhase) : PhaseRun :=
  ⟨phase, input, phase.steps.map fun x => runStep e names now c input x.1 x.2⟩

/-- runs phases, each with what the one before puts out, until one ends the run -/
def phaseRuns (input : Json) : List Plan.NumberedPhase → List PhaseRun
  | [] => []
  | phase :: phases =>
    let run := phaseRun e names now c input phase
    run :: match run.fatal? with
      | some _ => []
      | none => phaseRuns run.output phases

theorem phaseRuns_of_fatal {input : Json} {phase : Plan.NumberedPhase} {f : Failure}
    (h : (phaseRun e names now c input phase).fatal? = some f) (phases : List Plan.NumberedPhase) :
    phaseRuns e names now c input (phase :: phases) = [phaseRun e names now c input phase] := by
  rw [phaseRuns]
  simp only [h]

theorem phaseRuns_of_none {input : Json} {phase : Plan.NumberedPhase}
    (h : (phaseRun e names now c input phase).fatal? = none) (phases : List Plan.NumberedPhase) :
    phaseRuns e names now c input (phase :: phases) =
      phaseRun e names now c input phase ::
        phaseRuns e names now c (phaseRun e names now c input phase).output phases := by
  rw [phaseRuns]
  simp only [h]

theorem runPhase_eq (p : Progress) (phase : Plan.NumberedPhase) :
    runPhase e names now c p phase = p.through [phaseRun e names now c p.input phase] := by
  unfold runPhase Progress.through
  rw [stepRuns_cons, stepRuns_nil, List.append_nil]
  simp only [foldl_record]
  rfl

theorem failure_runPhase {p : Progress} (h : p.failure = none) (phase : Plan.NumberedPhase) :
    (runPhase e names now c p phase).failure = (phaseRun e names now c p.input phase).fatal? := by
  rw [runPhase_eq, Progress.through_singleton_failure, h, Option.none_or]

/-- **the loop over the phases** -/
theorem runPhases_eq (plan : List Plan.NumberedPhase) (p : Progress) (h : p.failure = none) :
    runPhases e names now c p plan = p.through (phaseRuns e names now c p.input plan) := by
  -- the progress is generalised, for each phase begins with what the one before left
  induction plan generalizing p with
  | nil => exact p.through_nil.symm
  | cons phase phases ih =>
    have hrun := runPhase_eq e names now c p phase
    have hfail := failure_runPhase e names now c h phase
    unfold runPhases
    cases hf : (phaseRun e names now c p.input phase).fatal? with
    | some f =>
      rw [hf] at hfail
      simp only [hfail]
      rw [phaseRuns_of_fatal e names now c hf, hrun]
    | none =>
      rw [hf] at hfail
      simp only [hfail]
      rw [ih _ hfail, hrun, phaseRuns_of_none e names now c hf, ← Progress.through_append]
      rfl

theorem mem_phaseRuns {plan : List Plan.NumberedPhase} {input : Json} {p : PhaseRun}
    (h : p ∈ phaseRuns e names now c input plan) :
    p.phase ∈ plan ∧ p = phaseRun e names now c p.input p.phase := by
  induction plan generalizing input with
  | nil => exact absurd h List.not_mem_nil
  | cons phase phases ih =>
    cases hf : (phaseRun e names now c input phase).fatal? with
    | some f =>
      rw [phaseRuns_of_fatal e names now c hf, List.mem_singleton] at h
      subst h
      exact ⟨List.mem_cons_self, rfl⟩
    | none =>
      rw [phaseRuns_of_none e names now c hf] at h
      rcases List.mem_cons.mp h with rfl | h
      · exact ⟨List.mem_cons_self, rfl⟩
      · exact ⟨List.mem_cons_of_mem _ (ih h).1, (ih h).2⟩

theorem map_phase_isPrefix (plan : List Plan.NumberedPhase) (input : Json) :
    (phaseRuns e names now c input plan).map PhaseRun.phase <+: plan := by
  induction plan generalizing input with
  | nil => exact List.prefix_rfl
  | cons phase phases ih =>
    cases hf : (phaseRun e names now c input phase).fatal? with
    | some f =>
      rw [phaseRuns_of_fatal e names now c hf]
      exact List.cons_prefix_cons.mpr ⟨rfl, List.nil_prefix⟩
    | none =>
      rw [phaseRuns_of_none e names now c hf]
      exact List.cons_prefix_cons.mpr ⟨rfl, ih _⟩

/-- the failure of a run is that of its last phase -/
theorem findSome?_fatal? (plan : List Plan.NumberedPhase) (input : Json) :
    (stepRuns (phaseRuns e names now c input plan)).findSome? StepRun.fatal? =
      (phaseRuns e names now c input plan).getLast?.bind PhaseRun.fatal? := by
  induction plan generalizing input with
  | nil => rfl
  | cons phase phases ih =>
    cases hf : (phaseRun e names now c input phase).fatal? with
    | some f =>
      rw [phaseRuns_of_fatal e names now c hf, stepRuns_cons, stepRuns_nil, List.append_nil]
      rfl
    | none =>
      rw [phaseRuns_of_none e names now c hf, stepRuns_cons, List.findSome?_append, ih]
      show (phaseRun e names now c input phase).fatal?.or _ = _
      rw [hf, Option.none_or, List.getLast?_cons]
      cases h : (phaseRuns e names now c (phaseRun e names now c input phase).output phases).getLast? with
      | none => exact hf.symm
      | some q => rfl

/-- a run that no phase ends goes through the whole plan -/
theorem map_phase_phaseRuns (plan : List Plan.NumberedPhase) (input : Json)
    (h : (stepRuns (phaseRuns e names now c input plan)).findSome? StepRun.fatal? = none) :
    (phaseRuns e names now c input plan).map PhaseRun.phase = plan := by
  induction plan generalizing input with
  | nil => rfl
  | cons phase phases ih =>
    cases hf : (phaseRun e names now c input phase).fatal? with
    | some f =>
      rw [phaseRuns_of_fatal e names now c hf, stepRuns_cons, List.findSome?_append,
        Option.or_eq_none_iff] at h
      exact absurd (hf.symm.trans h.1) (Option.some_ne_none f)
    | none =>
      rw [phaseRuns_of_none e names now c hf, stepRuns_cons, List.findSome?_append,
        Option.or_eq_none_iff] at h
      rw [phaseRuns_of_none e names now c hf, List.map_cons, ih _ h.2]
      rfl

/-- every phase is given what the one before puts out -/
theorem isChain_phaseRuns (plan : List Plan.NumberedPhase) (input : Json) :
    (∀ p ∈ (phaseRuns e names now c input plan).head?, p.input = input) ∧
      (phaseRuns e names now c input plan).IsChain fun p q => q.input = p.output := by
  induction plan generalizing input with
  | nil => exact ⟨fun p h => absurd h (by simp [phaseRuns]), .nil⟩
  | cons phase phases ih =>
    cases hf : (phaseRun e names now c input phase).fatal? with
    | some f =>
      rw [phaseRuns_of_fatal e names now c hf]
      exact ⟨fun p h => by cases h; rfl, .singleton _⟩
    | none =>
      rw [phaseRuns_of_none e names now c hf]
      obtain ⟨hhead, hchain⟩ := ih (phaseRun e names now c input phase).output
      exact ⟨fun p h => by cases h; rfl, List.isChain_cons.mpr ⟨hhead, hchain⟩⟩

end

end Relay.Workflow
