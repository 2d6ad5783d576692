import Relay.Proofs.Workflow.Compensation
import Relay.Proofs.Workflow.DataFlow
import Relay.Proofs.Workflow.Outcome

/-!
# What ties a call to its workflow

Every call that a run makes, and every context that it hands to a handler, comes from a header of its own.
`Header.Belongs` says field by field how that header is tied to the request of the workflow, and
`CallRun.Carries` that a call is made with it and that it is what the service and the policy are given.

`Run.headers` are the headers of a run in order. If no request id is given twice their ids are distinct.
-/

namespace Relay

/-- a header of a call for a step of the workflow that a request `w` asks for -/
structure Header.Belongs (h w : Header) (operation : String) (root : Trace) (policy : Policy)
    (step : Plan.Numbered) (spanId : String) : Prop where
  child : h.childRequestId = some h.requestId
  parent : h.parentRequestId = some w.requestId
  tenant : h.tenant = w.tenant
  session : h.sessionId = w.sessionId
  agent : h.agentId = w.agentId
  security : h.security = w.security
  /-- a span of its own under that of the workflow -/
  tracing : h.tracing = some ⟨root.traceId, spanId, some root.spanId⟩
  place : h.workflowContext =
    some ⟨w.requestId, operation, some step.name, some step.index, some step.total⟩
  /-- the policy that is read from it, whatever the default is -/
  policy : ∀ default, (Context.ofHeader h default).policy = policy

/-- a call that is made with a header, which goes along with every request -/
structure CallRun.Carries (d : Dispatcher) (now : Timestamp) (h : Header) (run : CallRun) : Prop where
  made : ∃ service call, run = d.call now service (.ok h call)
  request : ∀ x, run.exchange = some x → x.request.id = h.requestId
  context : ∀ x, run.exchange = some x → ∀ default, x.context = Context.ofHeader h default

theorem carries_call {d : Dispatcher} {now : Timestamp} {service : String} {h : Header}
    {call : Tool.Call} {run : CallRun} (hrun : run = d.call now service (.ok h call))
    (hpolicy : h.errorPolicy.isSome = true) : run.Carries d now h := by
  constructor
  case made => exact ⟨service, call, hrun⟩
  case request =>
    intro x hx
    rw [hrun] at hx
    obtain ⟨_, _, _, _, _, hrequest⟩ := exchange_call hx
    rw [hrequest]
    rfl
  case context =>
    intro x hx default
    rw [hrun] at hx
    obtain ⟨_, hcontext, _⟩ := exchange_call hx
    rw [hcontext]
    show Context.ofHeader h d.defaultPolicy = Context.ofHeader h default
    unfold Context.ofHeader Policy.resolve
    obtain ⟨policy, hp⟩ := Option.isSome_iff_exists.mp hpolicy
    rw [hp]
    rfl

namespace Workflow

/-- no request id is given twice -/
structure Names.Fresh (names : Names) : Prop where
  steps : ∀ i j, names.stepId i = names.stepId j → i = j
  undos : ∀ i j, names.undoId i = names.undoId j → i = j
  apart : ∀ i j, names.stepId i ≠ names.undoId j

/-- the trace of a request, or the one it is given -/
def Names.rootFor (names : Names) (request : Envelope Request) : Relay.Trace :=
  request.header.tracing.getD names.root

section
variable (names : Names) (c : Context)

/-- the header of the call of a step -/
def StepRun.header (s : StepRun) : Header :=
  c.childHeader s.step s.step.spanId (names.stepId s.step.index) names.root

/-- the header of an undo -/
def UndoRun.header (u : UndoRun) : Header := undoHeader names c u.step

/-- the headers of all calls and of all contexts that handlers are given -/
def Run.headers (r : Run) : List Header :=
  (r.steps.filter fun s => s.call.isSome).map (StepRun.header names c) ++
    (r.undos.filter UndoRun.declared).map (UndoRun.header names c)

end

/-! ## one call -/

section
variable (e : Engine) (names : Names) (request : Envelope Request)

theorem belongs_step (s : StepRun) :
    (s.header names (e.contextFor names request)).Belongs request.header (operationOf request)
      (names.rootFor request) (Policy.resolve request.header.errorPolicy e.dispatcher.defaultPolicy)
      s.step ("span-" ++ s.step.name ++ "-" ++ Text.padded 3 s.step.index) := by
  constructor
  case policy => exact fun default => rfl
  all_goals rfl

/-- the header of an undo differs in its span and in the mode of its policy -/
theorem belongs_undo (u : UndoRun) :
    (u.header names (e.contextFor names request)).Belongs request.header (operationOf request)
      (names.rootFor request)
      { Policy.resolve request.header.errorPolicy e.dispatcher.defaultPolicy with mode := .failFast }
      u.step ("span-compensate-" ++ u.step.name ++ "-" ++ Text.padded 3 u.step.index) := by
  constructor
  case policy => exact fun default => rfl
  all_goals rfl

end

section
variable {e : Engine} {names : Names} {now : Timestamp} {c : Context}

theorem StepRun.Sent.carries {input : Json} {s : StepRun} (h : s.Sent e names now c input)
    {run : CallRun} (hrun : s.call = some run) : run.Carries e.dispatcher now (s.header names c) := by
  cases hown : ownArguments? s.spec.arguments with
  | none => cases (h.refused hown).1.symm.trans hrun
  | some own =>
    obtain ⟨sent, run', _, hmade, hcall, _⟩ := h.called own hown
    cases hcall.symm.trans hrun
    exact carries_call hmade rfl

theorem Undoes.carries {d : Completed} {u : UndoRun} (h : Undoes e names now c d u) {run : CallRun}
    (ha : u.action = .call run) : run.Carries e.dispatcher now (u.header names c) := by
  cases h with
  | tool service tool arguments sent hu hinput hothers run' hrun =>
    cases ha
    exact carries_call hrun rfl
  | undeclared | handled | unknown => cases ha

/-- the context of a handler is read from the header of its undo -/
theorem Undoes.context {d : Completed} {u : UndoRun} (h : Undoes e names now c d u) {name : String}
    {context : Context} {found : Bool} (ha : u.action = .handler name context found)
    (default : Policy) : context = Context.ofHeader (u.header names c) default := by
  cases h with
  | undeclared | tool => cases ha
  | handled name' hu handler hh context' hc | unknown name' hu hh context' hc =>
    cases ha
    exact hc

end

/-! ## the calls of a run -/

/-- **what ties the calls of a run to its request** -/
structure Run.Correlates (e : Engine) (names : Names) (now : Timestamp) (request : Envelope Request)
    (a : Envelope Report) (r : Run) : Prop where
  /-- the trace of all calls is that of the answer -/
  traced : a.header.tracing = some (names.rootFor request)
  steps : ∀ s ∈ r.steps, ∀ run, s.call = some run →
    run.Carries e.dispatcher now (s.header names (e.contextFor names request))
  tools : ∀ u ∈ r.undos, ∀ run, u.action = .call run →
    run.Carries e.dispatcher now (u.header names (e.contextFor names request))
  handlers : ∀ u ∈ r.undos, ∀ name context found, u.action = .handler name context found →
    ∀ default, context = Context.ofHeader (u.header names (e.contextFor names request)) default
  step_belongs : ∀ s ∈ r.steps, (s.header names (e.contextFor names request)).Belongs request.header
    (operationOf request) (names.rootFor request)
    (Policy.resolve request.header.errorPolicy e.dispatcher.defaultPolicy) s.step
    ("span-" ++ s.step.name ++ "-" ++ Text.padded 3 s.step.index)
  /-- an undo may only fail or succeed, whatever the policy of the run is -/
  undo_belongs : ∀ u ∈ r.undos, (u.header names (e.contextFor names request)).Belongs request.header
    (operationOf request) (names.rootFor request)
    { Policy.resolve request.header.errorPolicy e.dispatcher.defaultPolicy with mode := .failFast }
    u.step ("span-compensate-" ++ u.step.name ++ "-" ++ Text.padded 3 u.step.index)
  /-- the steps are counted from 1, and an undo has the place of its step -/
  counted : r.steps.map (fun s => s.step.index) = List.range' 1 r.steps.length
  total : ∀ body plan, request.data = some body → e.plan body = .ok plan →
    ∀ s ∈ r.steps, s.step.total = (Plan.steps plan).length
  undone : ∀ u ∈ r.undos, ∃ s ∈ r.steps, s.step = u.step
  distinct : names.Fresh →
    ((r.headers names (e.contextFor names request)).map Header.requestId).Nodup
  /-- nor is one of them the id of the workflow, unless it is given again -/
  foreign : (∀ i, names.stepId i ≠ request.header.requestId) →
    (∀ i, names.undoId i ≠ request.header.requestId) →
    ∀ h ∈ r.headers names (e.contextFor names request), h.requestId ≠ request.header.requestId

section
variable {e : Engine} {names : Names} {now : Timestamp} {c : Context} {input : Json}
  {plan : List Plan.Phase} {r : Run}

theorem Run.GoesThrough.numbered_eq (h : r.GoesThrough e names now c input plan) :
    r.steps.map (fun s => (s.step, s.spec)) =
      Plan.numberedSteps ((Plan.number plan).take r.phases.length) := by
  unfold Run.steps
  rw [h.phases_eq]
  exact numberedSteps_phaseRuns e names now c _ _

theorem Run.GoesThrough.counted (h : r.GoesThrough e names now c input plan) :
    r.steps.map (fun s => s.step.index) = List.range' 1 r.steps.length := by
  have hindexes := congrArg (List.map fun x => x.1.index) h.numbered_eq
  rw [List.map_map, Plan.indexes_take_number] at hindexes
  -- the range is as long as the list that it counts
  have hlength := congrArg List.length hindexes
  rw [List.length_map, List.length_range'] at hlength
  rw [hlength]
  exact hindexes

theorem Run.GoesThrough.total (h : r.GoesThrough e names now c input plan) {s : StepRun}
    (hs : s ∈ r.steps) : s.step.total = (Plan.steps plan).length := by
  have hmem : (s.step, s.spec) ∈ Plan.numberedSteps ((Plan.number plan).take r.phases.length) := by
    rw [← h.numbered_eq]
    exact List.mem_map_of_mem hs
  obtain ⟨n, hn, hx⟩ := List.mem_flatMap.mp hmem
  exact Plan.total_of_mem_number (List.mem_flatMap.mpr ⟨n, List.mem_of_mem_take hn, hx⟩)

theorem nodup_indexes (h : r.steps.map (fun s => s.step.index) = List.range' 1 r.steps.length) :
    (r.steps.map fun s => s.step.index).Nodup := by
  rw [h]
  exact List.nodup_range'

/-- two undos of a run do not have one index -/
theorem nodup_undoIndexes
    (hsteps : r.steps.map (fun s => s.step.index) = List.range' 1 r.steps.length)
    (hundone : ∀ u ∈ r.undos, ∃ s ∈ r.steps, s.step = u.step)
    (honce : (r.undos.map UndoRun.name).Nodup) : (r.undos.map fun u => u.step.index).Nodup := by
  -- an index tells the step, the step its name, and the name the undo
  refine List.Nodup.map_on ?_ honce.of_map
  intro u hu v hv hindex
  obtain ⟨s, hs, hsu⟩ := hundone u hu
  obtain ⟨t, ht, htv⟩ := hundone v hv
  have hst : s = t := by
    apply List.inj_on_of_nodup_map (nodup_indexes hsteps) hs ht
    rw [hsu, htv]
    exact hindex
  apply List.inj_on_of_nodup_map honce hu hv
  show u.step.name = v.step.name
  rw [← hsu, ← htv, hst]

/-- what is made from distinct indexes is distinct -/
theorem nodup_ids {α : Type} {xs : List α} {index : α → Nat} (h : (xs.map index).Nodup)
    (keep : α → Bool) {id : Nat → String} (hid : ∀ i j, id i = id j → i = j) :
    ((xs.filter keep).map fun x => id (index x)).Nodup := by
  have hkept : ((xs.filter keep).map index).Nodup := h.sublist (List.filter_sublist.map _)
  have hids := hkept.map hid
  rw [List.map_map] at hids
  exact hids

theorem mem_headers {h : Header} (hh : h ∈ r.headers names c) :
    (∃ i, h.requestId = names.stepId i) ∨ ∃ i, h.requestId = names.undoId i := by
  rcases List.mem_append.mp hh with hh | hh
  · obtain ⟨s, _, rfl⟩ := List.mem_map.mp hh
    exact .inl ⟨s.step.index, rfl⟩
  · obtain ⟨u, _, rfl⟩ := List.mem_map.mp hh
    exact .inr ⟨u.step.index, rfl⟩

/-- **no two calls of a run have one request id** -/
theorem nodup_requestIds (hnames : names.Fresh)
    (hsteps : (r.steps.map fun s => s.step.index).Nodup)
    (hundos : (r.undos.map fun u => u.step.index).Nodup) (c : Context) :
    ((r.headers names c).map Header.requestId).Nodup := by
  unfold Run.headers
  rw [List.map_append, List.map_map, List.map_map]
  refine List.nodup_append.mpr ⟨?_, ?_, ?_⟩
  · exact nodup_ids hsteps _ hnames.steps
  · exact nodup_ids hundos _ hnames.undos
  · intro a ha b hb
    obtain ⟨s, _, rfl⟩ := List.mem_map.mp ha
    obtain ⟨u, _, rfl⟩ := List.mem_map.mp hb
    exact hnames.apart s.step.index u.step.index

end

section
variable (e : Engine) (names : Names) (now : Timestamp) (request : Envelope Request)

theorem sent_start : ∀ s ∈ (e.start names now request).steps,
    ∃ given, s.Sent e names now (e.contextFor names request) given := by
  intro s hs
  rcases start_cases e names now request with ⟨fault, _, hstart⟩ | ⟨_, body, plan, _, hp, hstart⟩
  · rw [hstart] at hs
    exact absurd hs List.not_mem_nil
  · exact (goesThrough_of_start hp hstart).sent_step hs

theorem counted_start : (e.start names now request).steps.map (fun s => s.step.index) =
    List.range' 1 (e.start names now request).steps.length := by
  rcases start_cases e names now request with ⟨fault, _, hstart⟩ | ⟨_, body, plan, _, hp, hstart⟩
  · rw [hstart]
    rfl
  · exact (goesThrough_of_start hp hstart).counted

theorem total_start {body : Request} {plan : List Plan.Phase} (hd : request.data = some body)
    (hplan : e.plan body = .ok plan) :
    ∀ s ∈ (e.start names now request).steps, s.step.total = (Plan.steps plan).length := by
  intro s hs
  rcases start_cases e names now request with ⟨fault, _, hstart⟩ | ⟨_, body', plan', hd', hp, hstart⟩
  · rw [hstart] at hs
    exact absurd hs List.not_mem_nil
  · cases hd.symm.trans hd'
    cases hplan.symm.trans hp
    exact (goesThrough_of_start hp hstart).total hs

theorem undos_start : ((e.start names now request).undos.map UndoRun.name).Nodup ∧
    ∀ u ∈ (e.start names now request).undos,
      Undoes e names now (e.contextFor names request) ⟨u.step, u.output⟩ u ∧
        ∃ s ∈ (e.start names now request).steps, s.step = u.step := by
  rcases undone_or_untouched_start e names now request with hundone | huntouched
  · refine ⟨hundone.once, ?_⟩
    intro u hu
    obtain ⟨s, hs, _, _, hundoes⟩ := hundone.each u hu
    exact ⟨hundone.undoes hu, s, hs, hundoes.step_eq.symm⟩
  · rw [huntouched.undos]
    exact ⟨List.nodup_nil, fun u hu => absurd hu List.not_mem_nil⟩

end

/-- **every call of a run is tied to its request** -/
theorem execute_correlates (e : Engine) (names : Names) (now : Timestamp) (request : Envelope Request) :
    (e.execute names now request).2.Correlates e names now request (e.execute names now request).1 := by
  obtain ⟨honce, hundos⟩ := undos_start e names now request
  have hcounted := counted_start e names now request
  constructor
  case traced =>
    have hheader : (e.execute names now request).1.header = _ := header_envelope _ _
    rw [hheader]
    rfl
  case steps =>
    intro s hs run hrun
    obtain ⟨given, hsent⟩ := sent_start e names now request s hs
    exact hsent.carries hrun
  case tools => exact fun u hu run ha => (hundos u hu).1.carries ha
  case handlers => exact fun u hu name context found ha => (hundos u hu).1.context ha
  case step_belongs => exact fun s _ => belongs_step e names request s
  case undo_belongs => exact fun u _ => belongs_undo e names request u
  case counted => exact hcounted
  case total => exact fun body plan hd hp => total_start e names now request hd hp
  case undone => exact fun u hu => (hundos u hu).2
  case distinct =>
    intro hnames
    apply nodup_requestIds hnames
    · exact nodup_indexes hcounted
    · exact nodup_undoIndexes hcounted (fun u hu => (hundos u hu).2) honce
  case foreign =>
    intro hsteps hundos h hh
    rcases mem_headers hh with ⟨i, hi⟩ | ⟨i, hi⟩
    · rw [hi]
      exact hsteps i
    · rw [hi]
      exact hundos i

/-! ## an order -/

theorem eq_of_toString_eq {i j : Nat} (h : toString i = toString j) : i = j := by
  have hdigits : Nat.toDigits 10 i = Nat.toDigits 10 j := by
    rw [← Nat.toList_repr, ← Nat.toList_repr]
    exact congrArg String.toList h
  have hi := Nat.ofDigitChars_ten_toDigits (n := i)
  rw [hdigits, Nat.ofDigitChars_ten_toDigits] at hi
  exact hi.symm

theorem Order.fresh : Order.names.Fresh := by
  constructor
  case steps =>
    intro i j h
    exact eq_of_toString_eq ((String.append_right_inj "step-").mp h)
  case undos =>
    intro i j h
    exact eq_of_toString_eq ((String.append_right_inj "undo-").mp h)
  case apart =>
    intro i j h
    have hlist := congrArg String.toList h
    have hhead := congrArg List.head? hlist
    simp [Order.names, String.toList_append] at hhead

theorem execute_correlates_order : Order.names.Fresh ∧
    (((Order.engine.execute Order.names Order.now Order.envelope).2.headers Order.names
      (Order.engine.contextFor Order.names Order.envelope)).map Header.requestId).Nodup :=
  ⟨Order.fresh,
    (execute_correlates Order.engine Order.names Order.now Order.envelope).distinct Order.fresh⟩

end Workflow

end Relay
