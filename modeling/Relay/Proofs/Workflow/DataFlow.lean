import Relay.Proofs.Workflow.Accounting

/-!
# What is passed from phase to phase

The first phase of a run is given the input of the request, each later one what the phase before it
leads to (`Feeds`): the outputs of a group by name, the output of a single step, or, if that step failed,
what it was itself given. `StepRun.Sent` says what a step does with what its phase is given: it adds it
to its own arguments and calls, or does not call at all. `run_dataFlow` says both of every run.
-/

namespace Relay.Workflow

/-- what a phase leads to, and the next one is given -/
inductive Feeds (p : PhaseRun) : Json → Prop
  /-- the outputs of the steps of a group that have one, by name -/
  | group (hp : p.phase.schedule = .parallelGroup) (t : Table Json) (hsorted : t.Sorted)
    (ht : ∀ k v, (k, v) ∈ t ↔ ∃ s ∈ p.steps, s.name = k ∧ s.output? = some v) : Feeds p (.obj t)
  | step (hp : p.phase.schedule = .sequential) (s : StepRun) (hs : p.steps = [s]) (output : Json)
    (ho : s.output? = some output) : Feeds p output
  | kept (hp : p.phase.schedule = .sequential) (s : StepRun) (hs : p.steps = [s])
    (ho : s.output? = none) : Feeds p p.input

/-- the arguments that a step has of its own, where null is as good as none -/
def ownArguments? : Json → Option (Table Json)
  | .obj fields => some fields
  | .null => some []
  | _ => none

/-- own arguments with an input, which takes the place of an argument of that name -/
structure Supplies (own : Table Json) (input : Json) (sent : Table Json) : Prop where
  null : input = .null → sent = own
  input : input ≠ .null → sent.lookup "input" = some input
  others : ∀ k ≠ "input", sent.lookup k = own.lookup k
  sorted : own.Sorted → sent.Sorted

/-- what a step does with the input of its phase -/
structure StepRun.Sent (e : Engine) (names : Names) (now : Timestamp) (c : Context) (input : Json)
    (s : StepRun) : Prop where
  called : ∀ own, ownArguments? s.spec.arguments = some own → ∃ sent run, Supplies own input sent ∧
    run = e.dispatcher.call now s.spec.service
      (.ok (c.childHeader s.step s.step.spanId (names.stepId s.step.index) names.root)
        { tool := s.spec.tool, arguments := .obj sent }) ∧
    s.call = some run ∧ s.result = callOutcome run
  refused : ownArguments? s.spec.arguments = none → s.call = none ∧
    ∃ n, s.result = .error n ∧ n.kind = .validation

theorem stepArguments?_eq (arguments input : Json) :
    stepArguments? arguments input = (ownArguments? arguments).map fun own =>
      .obj (if input.isNull then own else Table.put "input" input own) := by
  cases arguments <;> rfl

theorem supplies_put (own : Table Json) (input : Json) :
    Supplies own input (if input.isNull then own else Table.put "input" input own) := by
  by_cases h : input = .null
  · subst h
    exact ⟨fun _ => rfl, fun h => absurd rfl h, fun _ _ => rfl, id⟩
  · have hnull : ¬input.isNull = true := fun hn => h ((Json.isNull_iff input).mp hn)
    rw [if_neg hnull]
    exact ⟨fun hn => absurd hn h, fun _ => Table.lookup_put_self _ _ _,
      fun k hk => Table.lookup_put_of_ne hk _ _, Table.sorted_put _ _⟩

theorem sent_runStep (e : Engine) (names : Names) (now : Timestamp) (c : Context) (input : Json)
    (step : Plan.Numbered) (spec : Plan.Step) :
    (runStep e names now c input step spec).Sent e names now c input := by
  constructor
  case called =>
    intro own hown
    rw [spec_runStep] at hown ⊢
    rw [step_runStep]
    refine ⟨_, _, supplies_put own input, rfl, ?_⟩
    unfold runStep
    rw [stepArguments?_eq, hown]
    exact ⟨rfl, rfl⟩
  case refused =>
    intro hown
    rw [spec_runStep] at hown
    unfold runStep
    rw [stepArguments?_eq, hown]
    exact ⟨rfl, _, rfl, rfl⟩

/-! ## from phase to phase -/

section
variable {e : Engine} {names : Names} {now : Timestamp} {c : Context} {input : Json}
  {plan : List Plan.Phase} {r : Run} {p : PhaseRun}

theorem Run.GoesThrough.keys_phase_nodup (h : r.GoesThrough e names now c input plan)
    (hp : p ∈ r.phases) : ((results p.steps).map Prod.fst).Nodup := by
  have hsub : p.steps.Sublist r.steps := by
    rw [Run.steps, stepRuns, List.flatMap_def]
    exact List.sublist_flatten_of_mem (List.mem_map_of_mem hp)
  rw [map_fst_results]
  exact h.names_nodup.sublist ((List.filter_sublist.trans hsub).map _)

theorem output_sequential (hp : p.phase.schedule = .sequential) {s : StepRun} (hs : p.steps = [s]) :
    p.output = s.output?.getD p.input := by
  unfold PhaseRun.output nextInput
  rw [hp, phaseOutputs_eq, hs, results_cons]
  unfold StepRun.result?
  cases s.output? <;> rfl

theorem Run.GoesThrough.feeds (h : r.GoesThrough e names now c input plan) (hp : p ∈ r.phases) :
    Feeds p p.output := by
  cases hschedule : p.phase.schedule with
  | parallelGroup =>
    have houtput : p.output = .obj (Table.ofList (results p.steps)) := by
      unfold PhaseRun.output nextInput
      rw [hschedule, phaseOutputs_eq]
      rfl
    rw [houtput]
    refine .group hschedule _ (Table.sorted_ofList _) fun k v => ?_
    rw [Table.mem_ofList (h.keys_phase_nodup hp), mem_results]
  | sequential =>
    obtain ⟨s, hs⟩ := h.eq_singleton hp hschedule
    rw [output_sequential hschedule hs]
    cases ho : s.output? with
    | some output => exact .step hschedule s hs output ho
    | none => exact .kept hschedule s hs ho

theorem Run.GoesThrough.sent (h : r.GoesThrough e names now c input plan) (hp : p ∈ r.phases) :
    ∀ s ∈ p.steps, s.Sent e names now c p.input := by
  intro s hs
  rw [h.steps_eq hp] at hs
  obtain ⟨x, _, rfl⟩ := List.mem_map.mp hs
  exact sent_runStep e names now c p.input x.1 x.2

theorem Run.GoesThrough.sent_step (h : r.GoesThrough e names now c input plan) {s : StepRun}
    (hs : s ∈ r.steps) : ∃ given, s.Sent e names now c given := by
  obtain ⟨p, hp, hs⟩ := List.mem_flatMap.mp hs
  exact ⟨p.input, h.sent hp s hs⟩

theorem Run.GoesThrough.head_input (h : r.GoesThrough e names now c input plan) :
    ∃ p ∈ r.phases.head?, p.input = input := by
  rw [h.phases_eq]
  cases hn : Plan.number plan with
  | nil =>
    have hlength := (Plan.forall₂_number plan).length_eq
    rw [hn] at hlength
    exact absurd (List.length_eq_zero_iff.mp hlength.symm) h.runnable.ne_nil
  | cons phase phases => exact ⟨phaseRun e names now c input phase, rfl, rfl⟩

end

/-- **what is passed from phase to phase** -/
structure Run.DataFlow (e : Engine) (names : Names) (now : Timestamp) (c : Context) (input : Json)
    (r : Run) : Prop where
  /-- the first phase is given the input of the request -/
  first : ∃ p ∈ r.phases.head?, p.input = input
  /-- each later one is given what the one before it leads to -/
  next : r.phases.IsChain fun p q => Feeds p q.input
  /-- all steps of a phase are given the same -/
  sent : ∀ p ∈ r.phases, ∀ s ∈ p.steps, s.Sent e names now c p.input

/-- **every step of a run is given what the phase before it leads to** -/
theorem run_dataFlow (e : Engine) (names : Names) (now : Timestamp) (c : Context) (request : Request)
    (plan : List Plan.Phase) (workflowId operation : String) (hplan : e.plan request = .ok plan) :
    (run e names now c request (blankReport workflowId operation)).DataFlow e names now c
      request.input := by
  have h := run_goesThrough e names now c hplan workflowId operation
  constructor
  case first => exact h.head_input
  case next =>
    have hchain := (isChain_phaseRuns e names now c (Plan.number plan) request.input).2
    rw [← h.phases_eq] at hchain
    refine hchain.imp_of_mem_imp fun p q hp _ hq => ?_
    rw [hq]
    exact h.feeds hp
  case sent => exact fun p hp => h.sent hp

theorem run_dataFlow_order : Order.engine.plan Order.request = .ok Order.plan ∧
    (run Order.engine Order.names Order.now Order.context Order.request
      (blankReport "order-1" "order")).DataFlow Order.engine Order.names Order.now Order.context
      Order.request.input :=
  ⟨rfl, run_dataFlow _ _ _ _ _ _ _ _ rfl⟩

end Relay.Workflow
