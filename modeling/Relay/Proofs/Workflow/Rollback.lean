import Mathlib.Data.List.Nodup
import Relay.Proofs.Workflow.Accounting
import Relay.Proofs.Workflow.Timeline

/-!
# Rollback

When a required step fails and the policy says so, a run undoes what it did. `RollsBack` is what the
policy has to say, `Undoes` what it is to undo one step, and `Run.RolledBack` lists what holds of a run
that was undone: every completed sequential step was come back to, once, the last first, and each is in
one of three lists of the report. `execute_rollback` says that a run is undone in this way or not at all.
-/

namespace Relay.Workflow

/-- whether a policy has a failure undone -/
def RollsBack (policy : Policy) (f : Failure) : Prop :=
  policy.rollbackOnFailure = true ∧ ¬(policy.mode = .allowPartial ∧ f.error.kind.failsFast = false)

theorem rollsBack_iff (policy : Policy) (f : Failure) :
    RollsBack policy f ↔ staysPartial policy f = false ∧ policy.rollbackOnFailure = true := by
  unfold RollsBack staysPartial
  by_cases hm : policy.mode = .allowPartial <;> cases f.error.kind.failsFast <;> simp [hm]

/-! ## one undo -/

section
variable (e : Engine) (names : Names) (now : Timestamp) (c : Context)

/-- the undo of a completed step: its action is given what the step put out -/
inductive Undoes (d : Completed) : UndoRun → Prop
  | undeclared (hu : d.step.undo = none) : Undoes d ⟨d.step, d.output, .none, .ok ()⟩
  | tool (service tool : String) (arguments sent : Json)
    (hu : d.step.undo = some (.tool service tool arguments))
    (hinput : sent.field? "input" = some d.output)
    (hothers : ∀ k ≠ "input", sent.field? k = arguments.field? k) (run : CallRun)
    (hrun : run = e.dispatcher.call now service
      (.ok (undoHeader names c d.step) { tool, arguments := sent })) :
    Undoes d ⟨d.step, d.output, .call run, undoOutcome run⟩
  | handled (name : String) (hu : d.step.undo = some (.named name)) (handler : Handler)
    (hh : e.handlers.lookup name = some handler) (context : Context)
    (hc : context = Context.ofHeader (undoHeader names c d.step) {}) :
    Undoes d ⟨d.step, d.output, .handler name context true,
      (handler context d.step d.output).mapError Fault.notice⟩
  | unknown (name : String) (hu : d.step.undo = some (.named name))
    (hh : e.handlers.lookup name = none) (context : Context)
    (hc : context = Context.ofHeader (undoHeader names c d.step) {}) :
    Undoes d ⟨d.step, d.output, .handler name context false, .error (unknownHandlerNotice name)⟩

theorem field?_undoArguments (arguments output : Json) :
    (undoArguments arguments output).field? "input" = some output ∧
      ∀ k ≠ "input", (undoArguments arguments output).field? k = arguments.field? k := by
  unfold undoArguments
  constructor
  · exact Table.lookup_put_self _ _ _
  · intro k hk
    show List.lookup k (Table.put "input" output _) = _
    rw [Table.lookup_put_of_ne hk]
    cases arguments <;> rfl

theorem undoes_undo (d : Completed) : Undoes e names now c d (undo e names now c d) := by
  unfold undo
  cases hu : d.step.undo with
  | none => exact .undeclared hu
  | some action =>
    cases action with
    | tool service tool arguments =>
      obtain ⟨hinput, hothers⟩ := field?_undoArguments arguments d.output
      exact .tool service tool arguments _ hu hinput hothers _ rfl
    | named name =>
      cases hh : e.handlers.lookup name with
      | none =>
        simp only [hh]
        exact .unknown name hu hh _ rfl
      | some handler =>
        simp only [hh]
        exact .handled name hu handler hh _ rfl

end

namespace UndoRun

/-- whether the step says how to undo it -/
def declared (u : UndoRun) : Bool := u.step.undo.isSome

def error? (u : UndoRun) : Option Notice :=
  match u.result with
  | .ok () => none
  | .error error => some error

end UndoRun

section
variable {e : Engine} {names : Names} {now : Timestamp} {c : Context} {d : Completed} {u : UndoRun}

theorem Undoes.step_eq (h : Undoes e names now c d u) : u.step = d.step := by
  cases h <;> rfl

theorem Undoes.output_eq (h : Undoes e names now c d u) : u.output = d.output := by
  cases h <;> rfl

/-- which list an undo is entered in -/
theorem Undoes.entered (h : Undoes e names now c d u) :
    u.left? = (if !u.declared then some u.name else none) ∧
      u.undone? = (if u.declared && u.error?.isNone then some u.name else none) ∧
      u.failure? = (if u.declared then u.error?.map (StepFailure.mk u.name) else none) := by
  unfold UndoRun.declared UndoRun.left? UndoRun.undone? UndoRun.failure? UndoRun.error?
  cases h with
  | undeclared hu => simp [hu]
  | tool service tool arguments sent hu hinput hothers run hrun =>
    cases hr : undoOutcome run <;> simp [hu]
  | handled name hu handler hh context hc =>
    cases hr : (handler context d.step d.output).mapError Fault.notice <;> simp [hu]
  | unknown name hu hh context hc => simp [hu]

end

/-! ## the three lists -/

theorem filterMap_ite {us : List UndoRun} {β : Type} {g : UndoRun → Option β} {q : UndoRun → Bool}
    {f : UndoRun → Option β} (h : ∀ u ∈ us, g u = if q u then f u else none) :
    us.filterMap g = (us.filter q).filterMap f := by
  rw [List.filterMap_filter]
  exact List.filterMap_congr h

/-- the steps that were left, undone, and not undone for a failure -/
theorem afterUndos_lists {us : List UndoRun} {e : Engine} {names : Names} {now : Timestamp} {c : Context}
    (h : ∀ u ∈ us, ∃ d, Undoes e names now c d u) {r : Report} (hu : r.uncompensated = [])
    (hc : r.compensated = []) (hf : r.compensationFailures = []) :
    (r.afterUndos us).uncompensated = (us.filter fun u => !u.declared).map UndoRun.name ∧
      (r.afterUndos us).compensated =
        (us.filter fun u => u.declared && u.error?.isNone).map UndoRun.name ∧
      (r.afterUndos us).compensationFailures =
        (us.filter UndoRun.declared).filterMap fun u => u.error?.map (StepFailure.mk u.name) := by
  have hentered := fun u hu => (h u hu).choose_spec.entered
  refine ⟨?_, ?_, ?_⟩
  · show r.uncompensated ++ us.filterMap UndoRun.left? = _
    rw [hu, List.nil_append, filterMap_ite fun u hu => (hentered u hu).1, List.filterMap_eq_map']
  · show r.compensated ++ us.filterMap UndoRun.undone? = _
    rw [hc, List.nil_append, filterMap_ite fun u hu => (hentered u hu).2.1, List.filterMap_eq_map']
  · show r.compensationFailures ++ us.filterMap UndoRun.failure? = _
    rw [hf, List.nil_append, filterMap_ite fun u hu => (hentered u hu).2.2]

theorem map_step_undoFailures (us : List UndoRun) :
    ((us.filter UndoRun.declared).filterMap fun u => u.error?.map (StepFailure.mk u.name)).map
        StepFailure.step =
      (us.filter fun u => u.declared && !u.error?.isNone).map UndoRun.name := by
  induction us with
  | nil => rfl
  | cons u us ih =>
    rw [List.filter_cons, List.filter_cons]
    cases u.declared with
    | false => exact ih
    | true =>
      rw [if_pos rfl, List.filterMap_cons, Bool.true_and]
      cases u.error? with
      | none => exact ih
      | some error => exact congrArg (u.name :: ·) ih

/-- the three sorts of undo make up all of them -/
theorem sorts_perm (us : List UndoRun) :
    (((us.filter fun u => u.declared && u.error?.isNone) ++
      (us.filter fun u => u.declared && !u.error?.isNone)) ++ us.filter fun u => !u.declared).Perm us := by
  have hdeclared := List.filter_append_perm (fun u => u.error?.isNone) (us.filter UndoRun.declared)
  rw [List.filter_filter, List.filter_filter] at hdeclared
  have hall := List.filter_append_perm UndoRun.declared us
  refine List.Perm.trans ?_ hall
  refine List.Perm.append_right _ ?_
  simpa only [Bool.and_comm] using hdeclared

/-! ## the steps that are come back to -/

theorem map_name_completions (ss : List StepRun) :
    (completions ss).map (fun d => d.step.name) =
      (ss.filter fun s => s.step.schedule = .sequential && s.succeeded).map StepRun.name := by
  induction ss with
  | nil => rfl
  | cons s ss ih =>
    rw [completions_cons, List.map_append, ih, List.filter_cons]
    unfold StepRun.completed? StepRun.succeeded
    by_cases hs : s.step.schedule = .sequential <;> cases s.output? <;> simp [hs, StepRun.name]

theorem mem_completions {ss : List StepRun} {d : Completed} (h : d ∈ completions ss) :
    ∃ s ∈ ss, s.step.schedule = .sequential ∧ s.output? = some d.output ∧ s.step = d.step := by
  obtain ⟨s, hs, hd⟩ := List.mem_filterMap.mp h
  unfold StepRun.completed? at hd
  by_cases hq : s.step.schedule = .sequential
  · rw [if_pos hq, Option.map_eq_some_iff] at hd
    obtain ⟨output, ho, rfl⟩ := hd
    exact ⟨s, hs, hq, ho, rfl⟩
  · rw [if_neg hq] at hd
    cases hd

/-- **what holds of a run that was undone** -/
structure Run.RolledBack (e : Engine) (names : Names) (now : Timestamp) (c : Context) (r : Run) :
    Prop where
  /-- the undos come to the completed sequential steps, the last first -/
  visited : r.undos.map UndoRun.name =
    ((r.steps.filter fun s => s.step.schedule = .sequential && s.succeeded).map StepRun.name).reverse
  once : (r.undos.map UndoRun.name).Nodup
  /-- whatever becomes of the others, each undoes its own step and is given what that put out -/
  each : ∀ u ∈ r.undos, ∃ s ∈ r.steps, s.step.schedule = .sequential ∧ s.output? = some u.output ∧
    Undoes e names now c ⟨s.step, u.output⟩ u
  uncompensated : r.report.uncompensated = (r.undos.filter fun u => !u.declared).map UndoRun.name
  compensated : r.report.compensated =
    (r.undos.filter fun u => u.declared && u.error?.isNone).map UndoRun.name
  compensationFailures : r.report.compensationFailures =
    (r.undos.filter UndoRun.declared).filterMap fun u => u.error?.map (StepFailure.mk u.name)
  ordered : r.report.uncompensated.Sublist (r.undos.map UndoRun.name) ∧
    r.report.compensated.Sublist (r.undos.map UndoRun.name) ∧
    (r.report.compensationFailures.map StepFailure.step).Sublist (r.undos.map UndoRun.name)
  /-- the three lists have no step in common, and together they have all -/
  disjoint : (r.report.compensated ++ r.report.compensationFailures.map StepFailure.step ++
    r.report.uncompensated).Nodup
  together : (r.report.compensated ++ r.report.compensationFailures.map StepFailure.step ++
    r.report.uncompensated).Perm (r.undos.map UndoRun.name)
  state : r.report.state =
    if r.report.compensationFailures = [] ∧ r.report.uncompensated = [] then .failedWithRollback
    else .failed

/-- a run in which nothing was undone -/
structure Run.Untouched (r : Run) : Prop where
  undos : r.undos = []
  uncompensated : r.report.uncompensated = []
  compensated : r.report.compensated = []
  compensationFailures : r.report.compensationFailures = []

theorem rollbackState_eq (r : Report) : rollbackState r =
    if r.compensationFailures = [] ∧ r.uncompensated = [] then .failedWithRollback else .failed := by
  unfold rollbackState
  simp only [Bool.and_eq_true, List.isEmpty_iff]

section
variable {e : Engine} {names : Names} {now : Timestamp} {c : Context} {input : Json}
  {plan : List Plan.Phase} {r : Run} {request : Request}

theorem map_name_undos (ds : List Completed) :
    (ds.map (undo e names now c)).map UndoRun.name = ds.map fun d => d.step.name := by
  rw [List.map_map]
  exact List.map_congr_left fun d _ =>
    congrArg Plan.Numbered.name (undoes_undo e names now c d).step_eq

/-- a run that undid what is on the stack was undone -/
theorem Run.GoesThrough.rolledBack (h : r.GoesThrough e names now c input plan)
    (hundos : r.undos = (completions r.steps).reverse.map (undo e names now c)) {report : Report}
    (hu : report.uncompensated = []) (hc : report.compensated = [])
    (hf : report.compensationFailures = [])
    (hreport : r.report = { report.afterUndos r.undos with
      state := rollbackState (report.afterUndos r.undos) }) : r.RolledBack e names now c := by
  have heach : ∀ u ∈ r.undos, ∃ d ∈ completions r.steps, Undoes e names now c d u := by
    intro u hu
    rw [hundos] at hu
    obtain ⟨d, hd, rfl⟩ := List.mem_map.mp hu
    exact ⟨d, List.mem_reverse.mp hd, undoes_undo e names now c d⟩
  have hvisited : r.undos.map UndoRun.name =
      ((r.steps.filter fun s => s.step.schedule = .sequential && s.succeeded).map
        StepRun.name).reverse := by
    rw [hundos, map_name_undos, List.map_reverse, map_name_completions]
  have honce : (r.undos.map UndoRun.name).Nodup := by
    rw [hvisited]
    exact (List.reverse_perm _).nodup_iff.mpr (h.nodup_filter _)
  obtain ⟨huncompensated, hcompensated, hfailures⟩ :
      r.report.uncompensated = _ ∧ r.report.compensated = _ ∧ r.report.compensationFailures = _ := by
    rw [hreport]
    exact afterUndos_lists (fun u hu => (heach u hu).imp fun d hd => hd.2) hu hc hf
  have htogether : (r.report.compensated ++ r.report.compensationFailures.map StepFailure.step ++
      r.report.uncompensated).Perm (r.undos.map UndoRun.name) := by
    rw [hcompensated, hfailures, huncompensated, map_step_undoFailures, ← List.map_append,
      ← List.map_append]
    exact (sorts_perm r.undos).map _
  constructor
  case visited => exact hvisited
  case once => exact honce
  case each =>
    intro u hu
    obtain ⟨d, hd, hundoes⟩ := heach u hu
    obtain ⟨s, hs, hsequential, houtput, hstep⟩ := mem_completions hd
    refine ⟨s, hs, hsequential, ?_, ?_⟩
    · rw [hundoes.output_eq, houtput]
    · rw [hundoes.output_eq, hstep]
      exact hundoes
  case uncompensated => exact huncompensated
  case compensated => exact hcompensated
  case compensationFailures => exact hfailures
  case ordered =>
    rw [huncompensated, hcompensated, hfailures, map_step_undoFailures]
    exact ⟨List.filter_sublist.map _, List.filter_sublist.map _, List.filter_sublist.map _⟩
  case disjoint => exact htogether.nodup_iff.mpr honce
  case together => exact htogether
  case state =>
    rw [hreport]
    exact rollbackState_eq _

/-! ## endings -/

variable {p : Progress}

/-- an ending that is undone -/
theorem Ends.of_rollsBack (h : Ends e names now c p r) {f : Failure} (hp : p.failure = some f)
    (hf : RollsBack c.policy f) :
    r.undos = p.done.map (undo e names now c) ∧
      r.report = { (p.brokenReport f).afterUndos r.undos with
        state := rollbackState ((p.brokenReport f).afterUndos r.undos) } := by
  obtain ⟨hs, hr⟩ := (rollsBack_iff c.policy f).mp hf
  cases h with
  | completed hp' | recovered hp' => cases hp.symm.trans hp'
  | stopped f' hp' hs' =>
    cases hp.symm.trans hp'
    cases hs.symm.trans hs'
  | undone f' hp' hs' hr' report hu =>
    cases hp.symm.trans hp'
    subst hu
    exact ⟨rfl, rfl⟩
  | failed f' hp' hs' hr' =>
    cases hp.symm.trans hp'
    cases hr.symm.trans hr'

/-- any other ending -/
theorem Ends.of_not_rollsBack (h : Ends e names now c p r)
    (hn : ∀ f, p.failure = some f → ¬RollsBack c.policy f) :
    r.undos = [] ∧ r.report.uncompensated = p.report.uncompensated ∧
      r.report.compensated = p.report.compensated ∧
      r.report.compensationFailures = p.report.compensationFailures := by
  cases h with
  | undone f hp hs hr => exact absurd ((rollsBack_iff c.policy f).mpr ⟨hs, hr⟩) (hn f hp)
  | completed | recovered | stopped | failed => exact ⟨rfl, rfl, rfl, rfl⟩

/-! ## runs -/

theorem run_rollback (h : e.plan request = .ok plan) (workflowId operation : String)
    (hr : r = run e names now c request (blankReport workflowId operation)) :
    (∀ f, r.fatal? = some f → RollsBack c.policy f → r.RolledBack e names now c) ∧
      ((∀ f, r.fatal? = some f → ¬RollsBack c.policy f) → r.Untouched) := by
  obtain ⟨hend, hgo⟩ := ends_through h workflowId operation hr
  have hfatal := failure_through (blankReport workflowId operation) request.input r.phases
  have hdone := done_through (blankReport workflowId operation) request.input r.phases
  constructor
  · intro f hf hroll
    obtain ⟨hundos, hreport⟩ := hend.of_rollsBack (hfatal.trans hf) hroll
    rw [hdone] at hundos
    exact hgo.rolledBack hundos rfl rfl rfl hreport
  · intro hnone
    obtain ⟨hundos, hu, hc, hf⟩ :=
      hend.of_not_rollsBack fun f hf => hnone f (hfatal.symm.trans hf)
    exact ⟨hundos, hu, hc, hf⟩

/-- a run was undone, or nothing in it was -/
theorem undone_or_untouched (h : e.plan request = .ok plan) (workflowId operation : String)
    (hr : r = run e names now c request (blankReport workflowId operation)) :
    r.RolledBack e names now c ∨ r.Untouched := by
  obtain ⟨hundone, huntouched⟩ := run_rollback h workflowId operation hr
  by_cases hroll : ∃ f, r.fatal? = some f ∧ RollsBack c.policy f
  · obtain ⟨f, hf, hroll⟩ := hroll
    exact .inl (hundone f hf hroll)
  · apply Or.inr
    apply huntouched
    intro f hf hback
    exact hroll ⟨f, hf, hback⟩

theorem undone_or_untouched_start (e : Engine) (names : Names) (now : Timestamp)
    (request : Envelope Request) :
    (e.start names now request).RolledBack e names now (e.contextFor names request) ∨
      (e.start names now request).Untouched := by
  rcases start_cases e names now request with ⟨fault, _, hstart⟩ | ⟨_, body, plan, _, hp, hstart⟩
  · rw [hstart]
    exact .inr ⟨rfl, rfl, rfl, rfl⟩
  · exact undone_or_untouched hp request.header.requestId (operationOf request) hstart

theorem Run.GoesThrough.not_undone (h : r.GoesThrough e names now c input plan)
    (hr : r.RolledBack e names now c) {p : PhaseRun} (hp : p ∈ r.phases)
    (hg : p.phase.schedule = .parallelGroup) {s : StepRun} (hs : s ∈ p.steps) :
    s.name ∉ r.undos.map UndoRun.name := by
  intro hm
  obtain ⟨u, hu, hname⟩ := List.mem_map.mp hm
  obtain ⟨t, ht, hsequential, _, hundoes⟩ := hr.each u hu
  have hst : t.name = s.name := (congrArg Plan.Numbered.name hundoes.step_eq).symm.trans hname
  have heq : t = s :=
    List.inj_on_of_nodup_map h.names_nodup ht (List.mem_flatMap.mpr ⟨p, hp, hs⟩) hst
  subst heq
  cases hsequential.symm.trans ((h.schedule_eq hp hs).trans hg)

/-- in every order in which the steps of each phase may end, the sequential ones end in one -/
theorem Run.GoesThrough.filter_inOrder (h : r.GoesThrough e names now c input plan)
    {ss : List StepRun} (ho : InOrder ss (r.phases.map PhaseRun.steps)) :
    ss.filter (fun s => s.step.schedule = .sequential && s.succeeded) =
      r.steps.filter fun s => s.step.schedule = .sequential && s.succeeded := by
  have hsteps : (r.phases.map PhaseRun.steps).flatten = r.steps := List.flatMap_def.symm
  rw [← hsteps]
  -- a sequential phase has one step only, and of a group no step counts
  refine ho.filter_eq _ fun g hg => ?_
  obtain ⟨p, hp, rfl⟩ := List.mem_map.mp hg
  cases hs : p.phase.schedule with
  | sequential => exact .inl (h.eq_singleton hp hs)
  | parallelGroup =>
    refine .inr fun s hm => ?_
    rw [h.schedule_eq hp hm, hs]
    rfl

end

/-- **what holds of the rollback of a run** -/
structure Run.Rollback (e : Engine) (names : Names) (now : Timestamp) (request : Envelope Request)
    (r : Run) : Prop where
  /-- a failure that the policy has undone is undone -/
  undone : ∀ f, r.fatal? = some f →
    RollsBack (Policy.resolve request.header.errorPolicy e.dispatcher.defaultPolicy) f →
    r.RolledBack e names now (e.contextFor names request)
  /-- nothing else is -/
  untouched : (∀ f, r.fatal? = some f →
    ¬RollsBack (Policy.resolve request.header.errorPolicy e.dispatcher.defaultPolicy) f) → r.Untouched
  /-- no step of a group is undone -/
  no_group : ∀ p ∈ r.phases, p.phase.schedule = .parallelGroup →
    ∀ s ∈ p.steps, s.name ∉ r.undos.map UndoRun.name
  traced : ∃ log, Trace e names now (e.contextFor names request) (e.opening request) log (.ended r)
  /-- in whatever order the steps of the groups end, all undos come after all steps, and the completed
  sequential steps end in the order in which the report has them -/
  last : ∀ log r', Trace e names now (e.contextFor names request) (e.opening request) log (.ended r') →
    r' = r ∧ ∃ ss, InOrder ss (r.phases.map PhaseRun.steps) ∧
      ss.filter (fun s => s.step.schedule = .sequential && s.succeeded) =
        r.steps.filter (fun s => s.step.schedule = .sequential && s.succeeded) ∧
      log = ss.map .step ++ r.undos.map .undo

/-- **a run is undone from its last completed step to its first, or not at all** -/
theorem execute_rollback (e : Engine) (names : Names) (now : Timestamp) (request : Envelope Request) :
    (e.execute names now request).2.Rollback e names now request := by
  show (e.start names now request).Rollback e names now request
  have htraced := (opening_ahead e names now request).2.2.2
  rcases start_cases e names now request with ⟨fault, _, hstart⟩ | ⟨_, body, plan, _, hp, hstart⟩
  · constructor
    case undone =>
      rw [hstart]
      intro f hf
      cases (show none = some f from hf)
    case untouched =>
      rw [hstart]
      exact fun _ => ⟨rfl, rfl, rfl, rfl⟩
    case no_group =>
      rw [hstart]
      exact fun p hp => absurd hp List.not_mem_nil
    case traced => exact htraced
    case last =>
      intro log r' ht
      obtain ⟨hr, ss, horder, hlog⟩ := trace_start e names now request ht
      refine ⟨hr, ss, horder, ?_, hlog⟩
      rw [hstart] at horder ⊢
      cases horder
      rfl
  · have hgo := goesThrough_of_start hp hstart
    obtain ⟨hundone, huntouched⟩ := run_rollback hp request.header.requestId (operationOf request) hstart
    constructor
    case undone => exact hundone
    case untouched => exact huntouched
    case no_group =>
      intro p hp hg s hs
      by_cases hroll : ∃ f, (e.start names now request).fatal? = some f ∧
          RollsBack (e.contextFor names request).policy f
      · obtain ⟨f, hf, hroll⟩ := hroll
        exact hgo.not_undone (hundone f hf hroll) hp hg hs
      · have hnone := huntouched fun f hf hr => hroll ⟨f, hf, hr⟩
        rw [hnone.undos]
        exact List.not_mem_nil
    case traced => exact htraced
    case last =>
      intro log r' ht
      obtain ⟨hr, ss, horder, hlog⟩ := trace_start e names now request ht
      exact ⟨hr, ss, horder, hgo.filter_inOrder horder, hlog⟩

theorem execute_rollback_order :
    (Order.engine.execute Order.names Order.now Order.envelope).2.RolledBack Order.engine Order.names
      Order.now (Order.engine.contextFor Order.names Order.envelope) := by
  have hfatal : (Order.engine.execute Order.names Order.now Order.envelope).2.fatal?.isSome = true := by
    decide +kernel
  obtain ⟨f, hf⟩ := Option.isSome_iff_exists.mp hfatal
  refine (execute_rollback Order.engine Order.names Order.now Order.envelope).undone f hf ⟨rfl, ?_⟩
  exact fun h => by cases h.1

/-- the label has no undo, and the bank takes the charge back -/
example :
    (Order.engine.execute Order.names Order.now Order.envelope).2.undos.map UndoRun.name =
      ["label", "charge"] := by
  decide +kernel

end Relay.Workflow
