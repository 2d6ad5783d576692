import Relay.Proofs.Workflow.Ending

/-!
# Runs one step at a time

A run as it goes on in time. `Move` is one move of a run: a phase is started, one of its steps ends, in
whatever order they do, the phase is joined when none is left, and after a failure one completed step
is undone. Moves at which a step ends or an undo is made are visible as an `Event`.

* `Stage.result`   the run that a stage leads to, which no move changes;
* `Stage.ahead`    the steps that have not ended, phase by phase, and `Stage.undosAhead` the undos that
  have not been made;
* `trace_start`    the events of a whole run: the steps of each phase in some order, phase by phase, and
  then the undos;
* `exists_trace`   from every stage a trace leads to its result.
-/

namespace Relay.Workflow

inductive Event
  | step (s : StepRun)
  | undo (u : UndoRun)

/-- where a run stands -/
inductive Stage
  | ready (p : Progress) (left : List Plan.NumberedPhase)
  /-- some steps of a phase have not ended -/
  | waiting (p : Progress) (phase : Plan.NumberedPhase) (pending : List (Plan.Numbered × Plan.Step))
    (left : List Plan.NumberedPhase)
  /-- some completed steps have not been undone -/
  | undoing (p : Progress) (f : Failure) (r : Report) (undos : List UndoRun) (left : List Completed)
  | ended (r : Run)

section
variable (e : Engine) (names : Names) (now : Timestamp) (c : Context)

/-- one move of a run -/
inductive Move : Stage → Option Event → Stage → Prop
  | launch (p : Progress) (phase : Plan.NumberedPhase) (left : List Plan.NumberedPhase)
    (hp : p.failure = none) :
    Move (.ready p (phase :: left)) none (.waiting p phase phase.steps left)
  | step (p : Progress) (phase : Plan.NumberedPhase) (pending rest : List (Plan.Numbered × Plan.Step))
    (left : List Plan.NumberedPhase) (x : Plan.Numbered × Plan.Step) (hx : pending.Perm (x :: rest)) :
    Move (.waiting p phase pending left) (some (.step (runStep e names now c p.input x.1 x.2)))
      (.waiting p phase rest left)
  | join (p : Progress) (phase : Plan.NumberedPhase) (left : List Plan.NumberedPhase) :
    Move (.waiting p phase [] left) none (.ready (runPhase e names now c p phase) left)
  | finish (p : Progress) (hp : p.failure = none) :
    Move (.ready p []) none (.ended (finishUnbroken p))
  | stop (p : Progress) (left : List Plan.NumberedPhase) (f : Failure) (hp : p.failure = some f)
    (hs : staysPartial c.policy f = true ∨ c.policy.rollbackOnFailure = false) :
    Move (.ready p left) none (.ended (finishBroken e names now c p f))
  | turn (p : Progress) (left : List Plan.NumberedPhase) (f : Failure) (hp : p.failure = some f)
    (hs : staysPartial c.policy f = false) (hr : c.policy.rollbackOnFailure = true) :
    Move (.ready p left) none (.undoing p f (p.brokenReport f) [] p.done)
  | undo (p : Progress) (f : Failure) (r : Report) (undos : List UndoRun) (d : Completed)
    (left : List Completed) :
    Move (.undoing p f r undos (d :: left)) (some (.undo (undo e names now c d)))
      (.undoing p f (r.recordUndo (undo e names now c d)) (undos ++ [undo e names now c d]) left)
  | settle (p : Progress) (f : Failure) (r : Report) (undos : List UndoRun) :
    Move (.undoing p f r undos []) none
      (.ended {
        report := { r with state := rollbackState r }
        error := some f.error
        phases := p.phases
        undos })

/-- moves one after the other, with their events -/
inductive Trace : Stage → List Event → Stage → Prop
  | refl (s : Stage) : Trace s [] s
  | head {s t u : Stage} {ev : Option Event} {log : List Event} (hm : Move e names now c s ev t)
    (ht : Trace t log u) : Trace s (ev.toList ++ log) u

/-! ## what is ahead of a stage -/

/-- the progress after the phases that are left -/
def onward (p : Progress) (left : List Plan.NumberedPhase) : Progress :=
  match p.failure with
  | some _ => p
  | none => runPhases e names now c p left

/-- the steps that are run from here, phase by phase -/
def groupsOnward (p : Progress) (left : List Plan.NumberedPhase) : List (List StepRun) :=
  match p.failure with
  | some _ => []
  | none => (phaseRuns e names now c p.input left).map PhaseRun.steps

/-- the run that a stage leads to -/
def Stage.result : Stage → Run
  | ready p left => finish e names now c (onward e names now c p left)
  | waiting p phase _ left => finish e names now c (onward e names now c (runPhase e names now c p phase) left)
  | undoing p f r undos left =>
    let report := r.afterUndos (left.map (Workflow.undo e names now c))
    { report := { report with state := rollbackState report }, error := some f.error
      phases := p.phases, undos := undos ++ left.map (Workflow.undo e names now c) }
  | ended r => r

def Stage.ahead : Stage → List (List StepRun)
  | ready p left => groupsOnward e names now c p left
  | waiting p phase pending left =>
    pending.map (fun x => runStep e names now c p.input x.1 x.2) ::
      groupsOnward e names now c (runPhase e names now c p phase) left
  | undoing _ _ _ _ _ => []
  | ended _ => []

def Stage.undosAhead : Stage → List UndoRun
  | ready p left => (Stage.result e names now c (.ready p left)).undos
  | waiting p phase pending left => (Stage.result e names now c (.waiting p phase pending left)).undos
  | undoing _ _ _ _ left => left.map (Workflow.undo e names now c)
  | ended _ => []

theorem onward_of_none {p : Progress} (h : p.failure = none) (left : List Plan.NumberedPhase) :
    onward e names now c p left = runPhases e names now c p left := by
  unfold onward
  rw [h]

theorem onward_of_some {p : Progress} {f : Failure} (h : p.failure = some f)
    (left : List Plan.NumberedPhase) : onward e names now c p left = p := by
  unfold onward
  rw [h]

theorem groupsOnward_of_none {p : Progress} (h : p.failure = none) (left : List Plan.NumberedPhase) :
    groupsOnward e names now c p left =
      (phaseRuns e names now c p.input left).map PhaseRun.steps := by
  unfold groupsOnward
  rw [h]

theorem groupsOnward_of_some {p : Progress} {f : Failure} (h : p.failure = some f)
    (left : List Plan.NumberedPhase) : groupsOnward e names now c p left = [] := by
  unfold groupsOnward
  rw [h]

theorem onward_cons {p : Progress} (h : p.failure = none) (phase : Plan.NumberedPhase)
    (left : List Plan.NumberedPhase) :
    onward e names now c p (phase :: left) =
      onward e names now c (runPhase e names now c p phase) left := by
  rw [onward_of_none e names now c h]
  rfl

theorem groupsOnward_cons {p : Progress} (h : p.failure = none) (phase : Plan.NumberedPhase)
    (left : List Plan.NumberedPhase) :
    groupsOnward e names now c p (phase :: left) =
      phase.steps.map (fun x => runStep e names now c p.input x.1 x.2) ::
        groupsOnward e names now c (runPhase e names now c p phase) left := by
  have hfail := failure_runPhase e names now c h phase
  rw [groupsOnward_of_none e names now c h]
  cases hf : (phaseRun e names now c p.input phase).fatal? with
  | some f =>
    rw [phaseRuns_of_fatal e names now c hf, groupsOnward_of_some e names now c (hfail.trans hf)]
    rfl
  | none =>
    rw [phaseRuns_of_none e names now c hf, groupsOnward_of_none e names now c (hfail.trans hf),
      runPhase_eq]
    rfl

/-! ## steps phase by phase -/

/-- the steps of each group in some order, one group after the other -/
inductive InOrder : List StepRun → List (List StepRun) → Prop
  | nil : InOrder [] []
  | cons {part group ss : List StepRun} {groups : List (List StepRun)} (hp : part.Perm group)
    (hs : InOrder ss groups) : InOrder (part ++ ss) (group :: groups)

theorem InOrder.flatten (groups : List (List StepRun)) : InOrder groups.flatten groups := by
  induction groups with
  | nil => exact .nil
  | cons group groups ih => exact .cons (.refl _) ih

theorem InOrder.perm {ss : List StepRun} {groups : List (List StepRun)} (h : InOrder ss groups) :
    ss.Perm groups.flatten := by
  induction h with
  | nil => exact .refl _
  | cons hp _ ih => exact hp.append ih

/-- steps of which no group has two keep their order -/
theorem InOrder.filter_eq {ss : List StepRun} {groups : List (List StepRun)} (h : InOrder ss groups)
    (q : StepRun → Bool) (hq : ∀ g ∈ groups, (∃ s, g = [s]) ∨ ∀ s ∈ g, q s = false) :
    ss.filter q = groups.flatten.filter q := by
  induction h with
  | nil => rfl
  | @cons part group ss groups hp _ ih =>
    rw [List.flatten_cons, List.filter_append, List.filter_append,
      ih fun g hg => hq g (List.mem_cons_of_mem _ hg)]
    congr 1
    rcases hq group List.mem_cons_self with ⟨s, rfl⟩ | hnone
    · rw [List.perm_singleton.mp hp]
    · have hpart : ∀ s ∈ part, q s = false := fun s hs => hnone s (hp.mem_iff.mp hs)
      rw [List.filter_eq_nil_iff.mpr fun s hs => by simp [hpart s hs],
        List.filter_eq_nil_iff.mpr fun s hs => by simp [hnone s hs]]

/-! ## one move -/

theorem onward_nil (p : Progress) : onward e names now c p [] = p := by
  unfold onward
  cases p.failure <;> rfl

theorem result_ready_of_some {p : Progress} {f : Failure} (h : p.failure = some f)
    (left : List Plan.NumberedPhase) :
    Stage.result e names now c (.ready p left) = finishBroken e names now c p f := by
  show finish e names now c (onward e names now c p left) = _
  rw [onward_of_some e names now c h]
  unfold finish
  rw [h]

theorem result_ready_nil {p : Progress} (h : p.failure = none) :
    Stage.result e names now c (.ready p []) = finishUnbroken p := by
  show finish e names now c (onward e names now c p []) = _
  rw [onward_nil]
  unfold finish
  rw [h]

theorem undos_finishUnbroken (p : Progress) : (finishUnbroken p).undos = [] := by
  unfold finishUnbroken
  cases p.report.failures <;> rfl

theorem undos_finishBroken_of_stop {p : Progress} {f : Failure}
    (hs : staysPartial c.policy f = true ∨ c.policy.rollbackOnFailure = false) :
    (finishBroken e names now c p f).undos = [] := by
  unfold finishBroken
  rcases hs with hs | hr
  · simp only [hs, if_true]
  · simp only [hr, Bool.false_eq_true, if_false]
    split <;> rfl

theorem finishBroken_of_turn {p : Progress} {f : Failure} (hs : staysPartial c.policy f = false)
    (hr : c.policy.rollbackOnFailure = true) :
    finishBroken e names now c p f =
      Stage.result e names now c (.undoing p f (p.brokenReport f) [] p.done) := by
  unfold finishBroken
  simp only [hs, hr, Bool.false_eq_true, if_false, if_true, rollback_eq]
  rfl

variable {e names now c} {s t : Stage} {ev : Option Event} {log : List Event}

/-- **no move changes where a run leads** -/
theorem Move.result_eq (h : Move e names now c s ev t) :
    Stage.result e names now c t = Stage.result e names now c s := by
  cases h with
  | launch p phase left hp =>
    show Workflow.finish e names now c _ = Workflow.finish e names now c _
    rw [onward_cons e names now c hp]
  | step p phase pending rest left x hx => rfl
  | join p phase left => rfl
  | finish p hp => exact (result_ready_nil e names now c hp).symm
  | stop p left f hp hs => exact (result_ready_of_some e names now c hp left).symm
  | turn p left f hp hs hr =>
    rw [result_ready_of_some e names now c hp left, finishBroken_of_turn e names now c hs hr]
  | undo p f r undos d left =>
    unfold Stage.result
    simp only [List.map_cons, recordUndo_eq, ← Report.afterUndos_append, List.append_assoc,
      List.singleton_append]
  | settle p f r undos =>
    unfold Stage.result
    simp only [List.map_nil, Report.afterUndos_nil, List.append_nil]

def stepsOf (log : List Event) : List StepRun :=
  log.filterMap fun
    | .step s => some s
    | .undo _ => none

def undosOf (log : List Event) : List UndoRun :=
  log.filterMap fun
    | .step _ => none
    | .undo u => some u

theorem stepsOf_append (log log' : List Event) : stepsOf (log ++ log') = stepsOf log ++ stepsOf log' :=
  List.filterMap_append

theorem undosOf_append (log log' : List Event) : undosOf (log ++ log') = undosOf log ++ undosOf log' :=
  List.filterMap_append

/-- of the steps of the phase that is run a move ends at most one -/
theorem Move.inOrder (h : Move e names now c s ev t) {ss : List StepRun}
    (hss : InOrder ss (Stage.ahead e names now c t)) :
    InOrder (stepsOf ev.toList ++ ss) (Stage.ahead e names now c s) := by
  cases h with
  | launch p phase left hp =>
    show InOrder ss (groupsOnward e names now c p (phase :: left))
    rw [groupsOnward_cons e names now c hp]
    exact hss
  | step p phase pending rest left x hx =>
    cases hss with
    | @cons part _ ss _ hp hs =>
      have hperm := hx.map fun y => runStep e names now c p.input y.1 y.2
      show InOrder ((runStep e names now c p.input x.1 x.2 :: part) ++ ss) _
      exact .cons ((hp.cons _).trans hperm.symm) hs
  | join p phase left => exact .cons (.refl _) hss
  | finish p hp =>
    show InOrder ss (groupsOnward e names now c p [])
    rw [groupsOnward_of_none e names now c hp]
    exact hss
  | stop p left f hp | turn p left f hp =>
    show InOrder ss (groupsOnward e names now c p left)
    rw [groupsOnward_of_some e names now c hp]
    exact hss
  | undo p f r undos d left => exact hss
  | settle p f r undos => exact hss

/-- of the undos that are ahead a move makes at most the first -/
theorem Move.undosAhead_eq (h : Move e names now c s ev t) :
    undosOf ev.toList ++ Stage.undosAhead e names now c t = Stage.undosAhead e names now c s := by
  cases h with
  | launch p phase left hp =>
    have hm : Move e names now c (.ready p (phase :: left)) none _ := .launch p phase left hp
    exact congrArg Run.undos hm.result_eq
  | step p phase pending rest left x hx => rfl
  | join p phase left => rfl
  | finish p hp =>
    show [] = (Stage.result e names now c (.ready p [])).undos
    rw [result_ready_nil e names now c hp, undos_finishUnbroken]
  | stop p left f hp hs =>
    show [] = (Stage.result e names now c (.ready p left)).undos
    rw [result_ready_of_some e names now c hp, undos_finishBroken_of_stop e names now c hs]
  | turn p left f hp hs hr =>
    show p.done.map _ = (Stage.result e names now c (.ready p left)).undos
    rw [result_ready_of_some e names now c hp, finishBroken_of_turn e names now c hs hr]
    rfl
  | undo p f r undos d left => rfl
  | settle p f r undos => rfl

/-- nothing is undone before all steps have ended -/
theorem Move.ahead_of_undo {u : UndoRun} (h : Move e names now c s (some (.undo u)) t) :
    Stage.ahead e names now c t = [] := by
  cases h
  rfl

/-! ## a whole trace -/

namespace Trace

theorem result_eq (h : Trace e names now c s log t) :
    Stage.result e names now c t = Stage.result e names now c s := by
  induction h with
  | refl s => rfl
  | head hm _ ih => exact ih.trans hm.result_eq

theorem inOrder (h : Trace e names now c s log t) {ss : List StepRun}
    (hss : InOrder ss (Stage.ahead e names now c t)) :
    InOrder (stepsOf log ++ ss) (Stage.ahead e names now c s) := by
  induction h with
  | refl s => exact hss
  | head hm _ ih =>
    rw [stepsOf_append, List.append_assoc]
    exact hm.inOrder (ih hss)

theorem undosAhead_eq (h : Trace e names now c s log t) :
    undosOf log ++ Stage.undosAhead e names now c t = Stage.undosAhead e names now c s := by
  induction h with
  | refl s => rfl
  | head hm _ ih => rw [undosOf_append, List.append_assoc, ih, hm.undosAhead_eq]

/-- **all steps come before all undos** -/
theorem log_eq (h : Trace e names now c s log t) :
    log = (stepsOf log).map .step ++ (undosOf log).map .undo := by
  induction h with
  | refl s => rfl
  | @head s t u ev log hm ht ih =>
    match ev, hm with
    | none, _ => exact ih
    | some (.step x), _ => exact congrArg (Event.step x :: ·) ih
    | some (.undo x), hm =>
      -- once something is undone no step is ahead, so the rest of the log has none
      have hnone : stepsOf log = [] := by
        have hsteps := (ht.inOrder (.flatten _)).perm
        rw [hm.ahead_of_undo] at hsteps
        exact (List.append_eq_nil_iff.mp hsteps.eq_nil).1
      rw [hnone] at ih
      show Event.undo x :: log = (stepsOf log).map .step ++ Event.undo x :: (undosOf log).map .undo
      rw [hnone]
      exact congrArg (Event.undo x :: ·) ih

end Trace

/-! ## every run has a trace -/

variable {p : Progress} {f : Failure} {r : Run} {left : List Plan.NumberedPhase}

theorem exists_trace_undoing (report : Report) (undos : List UndoRun) (done : List Completed) :
    ∃ log, Trace e names now c (.undoing p f report undos done) log
      (.ended (Stage.result e names now c (.undoing p f report undos done))) := by
  induction done generalizing report undos with
  | nil =>
    have hm : Move e names now c (.undoing p f report undos []) none _ := .settle p f report undos
    rw [← hm.result_eq]
    exact ⟨_, .head hm (.refl _)⟩
  | cons d done ih =>
    have hm : Move e names now c (.undoing p f report undos (d :: done)) _ _ :=
      .undo p f report undos d done
    rw [← hm.result_eq]
    obtain ⟨log, ht⟩ := ih (report.recordUndo (undo e names now c d)) (undos ++ [undo e names now c d])
    exact ⟨_, .head hm ht⟩

theorem exists_trace_broken (h : p.failure = some f) :
    ∃ log, Trace e names now c (.ready p left) log
      (.ended (Stage.result e names now c (.ready p left))) := by
  by_cases hs : staysPartial c.policy f = true ∨ c.policy.rollbackOnFailure = false
  · have hm : Move e names now c (.ready p left) none _ := .stop p left f h hs
    rw [← hm.result_eq]
    exact ⟨_, .head hm (.refl _)⟩
  · rw [not_or, Bool.not_eq_true, Bool.not_eq_false] at hs
    have hm : Move e names now c (.ready p left) none _ := .turn p left f h hs.1 hs.2
    rw [← hm.result_eq]
    obtain ⟨log, ht⟩ := exists_trace_undoing (p.brokenReport f) [] p.done
    exact ⟨_, .head hm ht⟩

theorem exists_trace_waiting {phase : Plan.NumberedPhase}
    (h : ∃ log, Trace e names now c (.ready (runPhase e names now c p phase) left) log (.ended r))
    (pending : List (Plan.Numbered × Plan.Step)) :
    ∃ log, Trace e names now c (.waiting p phase pending left) log (.ended r) := by
  induction pending with
  | nil =>
    obtain ⟨log, ht⟩ := h
    exact ⟨_, .head (.join p phase left) ht⟩
  | cons x rest ih =>
    obtain ⟨log, ht⟩ := ih
    exact ⟨_, .head (.step p phase (x :: rest) rest left x (.refl _)) ht⟩

/-- **a run can be gone through move by move** -/
theorem exists_trace (p : Progress) (left : List Plan.NumberedPhase) :
    ∃ log, Trace e names now c (.ready p left) log
      (.ended (Stage.result e names now c (.ready p left))) := by
  induction left generalizing p with
  | nil =>
    cases h : p.failure with
    | some f => exact exists_trace_broken h
    | none =>
      rw [result_ready_nil e names now c h]
      exact ⟨_, .head (.finish p h) (.refl _)⟩
  | cons phase left ih =>
    cases h : p.failure with
    | some f => exact exists_trace_broken h
    | none =>
      -- the phase is launched, its steps end, and the rest goes on from where it is joined
      have hm : Move e names now c (.ready p (phase :: left)) none _ := .launch p phase left h
      rw [← hm.result_eq]
      obtain ⟨log, ht⟩ := exists_trace_waiting (ih (runPhase e names now c p phase)) phase.steps
      exact ⟨_, .head hm ht⟩

end

/-! ## from a request -/

/-- where the run of a request begins -/
def Engine.opening (e : Engine) (request : Envelope Request) : Stage :=
  match request.data with
  | none => .ended (.rejected (firstReport request) emptyFault)
  | some body =>
    match e.plan body with
    | .error fault => .ended (.rejected (firstReport request) fault)
    | .ok plan => .ready { report := firstReport request, input := body.input } (Plan.number plan)

section
variable (e : Engine) (names : Names) (now : Timestamp) (request : Envelope Request)

theorem opening_of_rejection {fault : Fault} (h : e.rejection? request = some fault) :
    e.opening request = .ended (.rejected (firstReport request) fault) := by
  unfold Engine.rejection? at h
  unfold Engine.opening
  cases hd : request.data with
  | none =>
    rw [hd] at h
    rw [← Option.some.inj h]
  | some body =>
    simp only [hd] at h
    cases hp : e.plan body with
    | error fault' =>
      simp only [hp, Option.some.injEq] at h
      simp only [hp, h]
    | ok plan => simp [hp] at h

theorem opening_of_plan {body : Request} {plan : List Plan.Phase} (hd : request.data = some body)
    (hp : e.plan body = .ok plan) :
    e.opening request =
      .ready { report := firstReport request, input := body.input } (Plan.number plan) := by
  unfold Engine.opening
  simp only [hd, hp]

/-- a request begins where its whole run is ahead -/
theorem opening_ahead :
    Stage.result e names now (e.contextFor names request) (e.opening request) =
        e.start names now request ∧
      Stage.ahead e names now (e.contextFor names request) (e.opening request) =
        (e.start names now request).phases.map PhaseRun.steps ∧
      Stage.undosAhead e names now (e.contextFor names request) (e.opening request) =
        (e.start names now request).undos ∧
      ∃ log, Trace e names now (e.contextFor names request) (e.opening request) log
        (.ended (e.start names now request)) := by
  rcases start_cases e names now request with ⟨fault, hf, hstart⟩ | ⟨_, body, plan, hd, hp, hstart⟩
  · rw [opening_of_rejection e request hf, hstart]
    exact ⟨rfl, rfl, rfl, [], .refl _⟩
  · rw [opening_of_plan e request hd hp, hstart]
    have hrun : Stage.result e names now (e.contextFor names request)
        (.ready { report := firstReport request, input := body.input } (Plan.number plan)) =
          run e names now (e.contextFor names request) body (firstReport request) := by
      unfold run
      simp only [hp]
      rfl
    refine ⟨hrun, ?_, ?_, ?_⟩
    · have hgo := run_goesThrough e names now (e.contextFor names request) hp
        request.header.requestId (operationOf request)
      exact (congrArg (List.map PhaseRun.steps) hgo.phases_eq).symm
    · rw [← hrun]
      rfl
    · rw [← hrun]
      exact exists_trace _ _

/-- **every trace of a request makes its run: the steps, phase by phase, and then the undos** -/
theorem trace_start {log : List Event} {r : Run}
    (h : Trace e names now (e.contextFor names request) (e.opening request) log (.ended r)) :
    r = e.start names now request ∧
      ∃ ss, InOrder ss ((e.start names now request).phases.map PhaseRun.steps) ∧
        log = ss.map .step ++ (e.start names now request).undos.map .undo := by
  obtain ⟨hresult, hahead, hundos, _⟩ := opening_ahead e names now request
  have horder := h.inOrder .nil
  have hlast : undosOf log ++ [] = _ := h.undosAhead_eq
  have hlog := h.log_eq
  rw [hahead, List.append_nil] at horder
  rw [hundos, List.append_nil] at hlast
  rw [hlast] at hlog
  exact ⟨h.result_eq.trans hresult, stepsOf log, horder, hlog⟩

end

end Relay.Workflow
