import Relay.Proofs.Plan.Numbering
import Relay.Proofs.Workflow.Log

/-!
# How a run ends

A run is turned down, or it goes through phases and then ends in one of five ways. `Ends` lists the
five with all they say about the run, and `ends_finish` says that there is no other. `rejection?` is the
fault of a request that is turned down, and `start_cases` the two ways in which a request is answered.

A rollback fills three lists of the report. `Report.afterUndos` is the report after given undos, list by
list, and `rollback_eq` says that the loop over the stack computes it.
-/

namespace Relay.Workflow

/-! ## undoing -/

namespace UndoRun

def name (u : UndoRun) : String := u.step.name

/-- a step that was left in place, for it declares no undo -/
def left? (u : UndoRun) : Option String :=
  match u.action with
  | .none => some u.name
  | _ => none

/-- a step that was undone -/
def undone? (u : UndoRun) : Option String :=
  match u.action, u.result with
  | .none, _ => none
  | _, .ok () => some u.name
  | _, .error _ => none

/-- a step whose undo failed -/
def failure? (u : UndoRun) : Option StepFailure :=
  match u.action, u.result with
  | .none, _ => none
  | _, .ok () => none
  | _, .error error => some ⟨u.name, error⟩

end UndoRun

/-- the report after the given undos -/
def Report.afterUndos (r : Report) (us : List UndoRun) : Report :=
  { r with
    uncompensated := r.uncompensated ++ us.filterMap UndoRun.left?
    compensated := r.compensated ++ us.filterMap UndoRun.undone?
    compensationFailures := r.compensationFailures ++ us.filterMap UndoRun.failure? }

theorem Report.afterUndos_nil (r : Report) : r.afterUndos [] = r := by
  cases r
  simp [afterUndos]

theorem Report.afterUndos_append (r : Report) (us vs : List UndoRun) :
    r.afterUndos (us ++ vs) = (r.afterUndos us).afterUndos vs := by
  simp [afterUndos]

theorem recordUndo_eq (r : Report) (u : UndoRun) : r.recordUndo u = r.afterUndos [u] := by
  obtain ⟨step, output, action, result⟩ := u
  unfold Report.recordUndo Report.afterUndos UndoRun.left? UndoRun.undone? UndoRun.failure?
  cases action <;> cases result <;> simp [UndoRun.name]

theorem foldl_recordUndo (us : List UndoRun) (r : Report) :
    us.foldl Report.recordUndo r = r.afterUndos us := by
  induction us generalizing r with
  | nil => exact r.afterUndos_nil.symm
  | cons u us ih =>
    rw [List.foldl_cons, ih, recordUndo_eq, ← Report.afterUndos_append]
    rfl

section
variable (e : Engine) (names : Names) (now : Timestamp) (c : Context)

/-- **the loop over the completed steps** -/
theorem rollback_eq (done : List Completed) (r : Report) :
    rollback e names now c done r =
      (r.afterUndos (done.map (undo e names now c)), done.map (undo e names now c)) := by
  unfold rollback
  simp only [foldl_recordUndo]

/-! ## ending -/

/-- the report of a progress with the state in which it ends -/
def Progress.reportAs (p : Progress) (state : State) : Report := { p.report with state }

/-- the report of a progress that a failure ends -/
def Progress.brokenReport (p : Progress) (f : Failure) : Report :=
  { p.report with failed := some f.step }

/-- the ways in which a run ends -/
inductive Ends (p : Progress) : Run → Prop
  /-- all went well -/
  | completed (hp : p.failure = none) (hf : p.report.failures = []) :
    Ends p { report := p.reportAs .completed, error := none, phases := p.phases }
  /-- optional steps failed, or outputs made up for failures -/
  | recovered (hp : p.failure = none) (first : StepFailure) (rest : List StepFailure)
    (hf : p.report.failures = first :: rest) :
    Ends p { report := p.reportAs .partialSuccess, error := some first.error, phases := p.phases }
  /-- a required step failed, and what was done stays -/
  | stopped (f : Failure) (hp : p.failure = some f) (hs : staysPartial c.policy f = true) :
    Ends p {
      report := { p.brokenReport f with state := .partialSuccess }
      error := some f.error
      phases := p.phases }
  /-- a required step failed, and what was done is undone -/
  | undone (f : Failure) (hp : p.failure = some f) (hs : staysPartial c.policy f = false)
    (hr : c.policy.rollbackOnFailure = true) (r : Report)
    (hu : r = (p.brokenReport f).afterUndos (p.done.map (undo e names now c))) :
    Ends p {
      report := { r with state := rollbackState r }
      error := some f.error
      phases := p.phases
      undos := p.done.map (undo e names now c) }
  /-- a required step failed, and nothing more is done -/
  | failed (f : Failure) (hp : p.failure = some f) (hs : staysPartial c.policy f = false)
    (hr : c.policy.rollbackOnFailure = false) :
    Ends p {
      report := { p.brokenReport f with state := .failed }
      error := some f.error
      phases := p.phases }

theorem ends_finish (p : Progress) : Ends e names now c p (finish e names now c p) := by
  unfold finish
  cases hp : p.failure with
  | none =>
    show Ends e names now c p (finishUnbroken p)
    unfold finishUnbroken
    cases hf : p.report.failures with
    | nil => exact .completed hp hf
    | cons first rest => exact .recovered hp first rest hf
  | some f =>
    show Ends e names now c p (finishBroken e names now c p f)
    unfold finishBroken
    cases hs : staysPartial c.policy f with
    | true => exact .stopped f hp hs
    | false =>
      cases hr : c.policy.rollbackOnFailure with
      | true =>
        simp only [Bool.false_eq_true, if_false, if_true, rollback_eq]
        exact .undone f hp hs hr _ rfl
      | false => exact .failed f hp hs hr

variable {e names now c} {p : Progress} {r : Run}

theorem Ends.phases (h : Ends e names now c p r) : r.phases = p.phases := by
  cases h <;> rfl

/-- an ending leaves alone what is known of the steps -/
theorem Ends.report (h : Ends e names now c p r) :
    r.report.results = p.report.results ∧ r.report.completed = p.report.completed ∧
      r.report.failures = p.report.failures := by
  cases h with
  | undone f hp hs hr r hu =>
    subst hu
    exact ⟨rfl, rfl, rfl⟩
  | completed | recovered | stopped | failed => exact ⟨rfl, rfl, rfl⟩

theorem Ends.failed_eq (h : Ends e names now c p r) (hp : p.report.failed = none) :
    r.report.failed = p.failure.map Failure.step := by
  cases h with
  | completed hf | recovered hf =>
    rw [hf]
    exact hp
  | stopped f hf | failed f hf =>
    rw [hf]
    rfl
  | undone f hf hs hr r hu =>
    subst hu
    rw [hf]
    rfl

end

/-! ## answering a request -/

/-- the report of a run that has not begun -/
def blankReport (workflowId operation : String) : Report := { workflowId, operation }

/-- the fault of a request that is turned down -/
def Engine.rejection? (e : Engine) (request : Envelope Request) : Option Fault :=
  match request.data with
  | none => some emptyFault
  | some body =>
    match e.plan body with
    | .error fault => some fault
    | .ok _ => none

/-- the operation that an envelope asks for -/
def operationOf (request : Envelope Request) : String := (request.data.map Request.operation).getD ""

/-- the context in which an envelope is run -/
def Engine.contextFor (e : Engine) (names : Names) (request : Envelope Request) : Context :=
  contextOf e.dispatcher names request.header (operationOf request)

/-- the report that an envelope begins with -/
def firstReport (request : Envelope Request) : Report :=
  blankReport request.header.requestId (operationOf request)

section
variable (e : Engine) (names : Names) (now : Timestamp) (c : Context)

/-- a plan that can be run is gone through, and then the run ends -/
theorem ends_run {request : Request} {plan : List Plan.Phase} (h : e.plan request = .ok plan)
    (report : Report) :
    Ends e names now c
      (Progress.through { report, input := request.input }
        (phaseRuns e names now c request.input (Plan.number plan)))
      (run e names now c request report) := by
  unfold run
  simp only [h]
  rw [runPhases_eq e names now c (Plan.number plan) { report, input := request.input } rfl]
  exact ends_finish e names now c _

theorem failure_through (report : Report) (input : Json) (runs : List PhaseRun) :
    (Progress.through { report, input } runs).failure = (stepRuns runs).findSome? StepRun.fatal? :=
  Option.none_or

theorem done_through (report : Report) (input : Json) (runs : List PhaseRun) :
    (Progress.through { report, input } runs).done = (completions (stepRuns runs)).reverse :=
  List.append_nil _

/-- a request is turned down, or its plan is run -/
theorem start_cases (request : Envelope Request) :
    (∃ fault, e.rejection? request = some fault ∧
      e.start names now request = .rejected (firstReport request) fault) ∨
    (e.rejection? request = none ∧ ∃ body plan, request.data = some body ∧ e.plan body = .ok plan ∧
      e.start names now request =
        run e names now (e.contextFor names request) body (firstReport request)) := by
  unfold Engine.rejection? Engine.start
  cases hd : request.data with
  | none =>
    refine .inl ⟨emptyFault, rfl, ?_⟩
    simp only [firstReport, operationOf, hd]
    rfl
  | some body =>
    cases hp : e.plan body with
    | error fault =>
      refine .inl ⟨fault, by simp only [hp], ?_⟩
      unfold run
      simp only [hp, firstReport, operationOf, hd]
      rfl
    | ok plan =>
      refine .inr ⟨by simp only [hp], body, plan, rfl, hp, ?_⟩
      simp only [Engine.contextFor, firstReport, operationOf, hd]
      rfl

theorem check_of_plan {request : Request} {plan : List Plan.Phase} (h : e.plan request = .ok plan) :
    Plan.check plan = .ok () := by
  unfold Engine.plan at h
  cases hq : request.plan with
  | some phases =>
    simp only [hq, bind, Except.bind] at h
    cases hc : Plan.check phases with
    | error flaw =>
      rw [hc] at h
      cases h
    | ok =>
      rw [hc] at h
      cases h
      exact hc
  | none =>
    simp only [hq, bind, Except.bind] at h
    cases hl : e.definitions.lookup request.operation with
    | none =>
      rw [hl] at h
      cases h
    | some definition =>
      simp only [hl] at h
      cases hc : Plan.check definition.phases with
      | error flaw =>
        rw [hc] at h
        cases h
      | ok =>
        rw [hc] at h
        cases h
        exact hc

/-- only plans that can be run are run -/
theorem runnable_of_plan {request : Request} {plan : List Plan.Phase} (h : e.plan request = .ok plan) :
    Plan.Runnable plan :=
  (Plan.check_eq_ok_iff plan).mp (check_of_plan e h)

end

/-! ## a run and its log -/

/-- the steps of a run in order -/
def Run.steps (r : Run) : List StepRun := stepRuns r.phases

/-- the first failure of a required step -/
def Run.fatal? (r : Run) : Option Failure := r.steps.findSome? StepRun.fatal?

/-- a run that went through the phases of a plan, with all that its report says of the steps -/
structure Run.GoesThrough (e : Engine) (names : Names) (now : Timestamp) (c : Context) (input : Json)
    (plan : List Plan.Phase) (r : Run) : Prop where
  runnable : Plan.Runnable plan
  phases_eq : r.phases = phaseRuns e names now c input (Plan.number plan)
  results_eq : r.report.results = Table.ofList (results r.steps)
  completed_eq : r.report.completed = (results r.steps).map Prod.fst
  failures_eq : r.report.failures = r.steps.filterMap StepRun.failure?
  failed_eq : r.report.failed = r.fatal?.map Failure.step

theorem run_goesThrough (e : Engine) (names : Names) (now : Timestamp) (c : Context)
    {request : Request} {plan : List Plan.Phase} (h : e.plan request = .ok plan)
    (workflowId operation : String) :
    (run e names now c request (blankReport workflowId operation)).GoesThrough e names now c
      request.input plan := by
  have hend := ends_run e names now c h (blankReport workflowId operation)
  have hphases := hend.phases
  obtain ⟨hresults, hcompleted, hfailures⟩ := hend.report
  have hfailed := hend.failed_eq rfl
  constructor
  case runnable => exact runnable_of_plan e h
  case phases_eq => exact hphases
  case results_eq =>
    rw [hresults, Run.steps, hphases]
    rfl
  case completed_eq =>
    rw [hcompleted, Run.steps, hphases]
    exact List.nil_append _
  case failures_eq =>
    rw [hfailures, Run.steps, hphases]
    exact List.nil_append _
  case failed_eq =>
    rw [hfailed, Run.fatal?, Run.steps, hphases]
    rfl

/-- the ending of a run, in terms of the phases that it has -/
theorem ends_through {e : Engine} {names : Names} {now : Timestamp} {c : Context} {request : Request}
    {plan : List Plan.Phase} {r : Run} (h : e.plan request = .ok plan) (workflowId operation : String)
    (hr : r = run e names now c request (blankReport workflowId operation)) :
    Ends e names now c
        (Progress.through { report := blankReport workflowId operation, input := request.input } r.phases)
        r ∧
      r.GoesThrough e names now c request.input plan := by
  have hend := ends_run e names now c h (blankReport workflowId operation)
  have hgo := run_goesThrough e names now c h workflowId operation
  rw [← hgo.phases_eq] at hend
  rw [hr]
  exact ⟨hend, hgo⟩

theorem goesThrough_of_start {e : Engine} {names : Names} {now : Timestamp} {request : Envelope Request}
    {body : Request} {plan : List Plan.Phase} (hp : e.plan body = .ok plan)
    (h : e.start names now request =
      run e names now (e.contextFor names request) body (firstReport request)) :
    (e.start names now request).GoesThrough e names now (e.contextFor names request) body.input plan :=
  (ends_through hp request.header.requestId (operationOf request) h).2

end Relay.Workflow
