import Relay.Proofs.Workflow.Rollback
import Relay.Workflow.Assembly

/-!
# What an assembled engine can rely on

An engine is given definitions and handlers in any order. What is left of them at the end are the last
definition for each operation and the last handler for each name (`Table.IsLast`), and `Draft.register`
keeps just these (`foldl_register`).

* `Definition.Broken`     a plan that cannot be run, or a step whose undo names a handler that is missing;
* `assemble_eq_ok_iff`    an engine comes out if no definition that is left is broken;
* `RolledBack.served`     no rollback of a registered plan asks for a handler that is not there;
* `assemble_delivers`     both, for every sequence of registrations and every request.
-/

namespace Relay.Workflow

open Table (IsLast)

namespace Engine

/-! ## what is registered -/

namespace Registration

def definition? : Registration → Option (String × Definition)
  | definition d => some (d.operation, d)
  | handler _ _ => none

def handler? : Registration → Option (String × Handler)
  | definition _ => none
  | handler name h => some (name, h)

end Registration

/-- the definitions in the order in which they are registered, by operation -/
def definitionsIn (rs : List Registration) : List (String × Definition) :=
  rs.filterMap Registration.definition?

/-- the handlers in the order in which they are registered, by name -/
def handlersIn (rs : List Registration) : List (String × Handler) :=
  rs.filterMap Registration.handler?

theorem foldl_register (rs : List Registration) (d : Draft) :
    rs.foldl Draft.register d = { d with
      definitions := (definitionsIn rs).foldl (fun t b => t.put b.1 b.2) d.definitions
      handlers := (handlersIn rs).foldl (fun t b => t.put b.1 b.2) d.handlers } := by
  induction rs generalizing d with
  | nil => rfl
  | cons r rs ih =>
    rw [List.foldl_cons, ih]
    cases r <;> rfl

/-- the engine of what is left of registrations -/
def ofRegistrations (dispatcher : Dispatcher) (rs : List Registration) : Engine where
  dispatcher
  definitions := Table.ofList (definitionsIn rs)
  handlers := Table.ofList (handlersIn rs)

end Engine

/-! ## broken definitions -/

/-- a plan that cannot be run, or a step whose undo names a handler that is missing -/
def Definition.Broken (handlers : List (String × Handler)) (d : Definition) : Prop :=
  Plan.check d.phases ≠ .ok () ∨
    ∃ step ∈ Plan.steps d.phases, ∃ name, step.undo = some (.named name) ∧ name ∉ Table.keys handlers

namespace Engine

theorem namedUndo?_eq_some_iff (step : Plan.Step) (name : String) :
    namedUndo? step = some name ↔ step.undo = some (.named name) := by
  unfold namedUndo?
  cases step.undo with
  | none => simp
  | some undo => cases undo <;> simp

theorem stepFlaw?_eq_none_iff (handlers : List (String × Handler)) (operation : String)
    (step : Plan.Step) : stepFlaw? (Table.ofList handlers) operation step = none ↔
      ∀ name, step.undo = some (.named name) → name ∈ Table.keys handlers := by
  unfold stepFlaw?
  rw [Option.bind_eq_none_iff]
  refine forall_congr' fun name => imp_congr (namedUndo?_eq_some_iff step name) ?_
  have hnone := Table.lookup_ofList_eq_none_iff handlers name
  cases hlookup : (Table.ofList handlers).lookup name with
  | none => simp [hnone.mp hlookup]
  | some handler =>
    rw [hlookup] at hnone
    have hmem : name ∈ Table.keys handlers := by
      by_contra hn
      cases hnone.mpr hn
    simp [hmem]

theorem definitionFlaw?_eq_none_iff (handlers : List (String × Handler)) (d : Definition) :
    definitionFlaw? (Table.ofList handlers) d = none ↔ ¬d.Broken handlers := by
  unfold definitionFlaw? Definition.Broken
  rw [not_or, not_not]
  cases hc : Plan.check d.phases with
  | error flaw => simp
  | ok =>
    simp only [List.findSome?_eq_none_iff, stepFlaw?_eq_none_iff, true_and]
    push Not
    rfl

theorem flaw?_eq_none_iff (dispatcher : Dispatcher) (rs : List Registration) :
    (rs.foldl Draft.register { dispatcher }).flaw? = none ↔
      ∀ operation d, IsLast operation d (definitionsIn rs) → ¬d.Broken (handlersIn rs) := by
  rw [foldl_register]
  show (Table.ofList (definitionsIn rs)).findSome? _ = none ↔ _
  have hkeys := Table.keys_nodup (Table.sorted_ofList (definitionsIn rs))
  rw [List.findSome?_eq_none_iff, Prod.forall]
  refine forall₂_congr fun operation d => ?_
  rw [Table.mem_iff_lookup hkeys, Table.lookup_ofList_eq_some_iff]
  exact imp_congr_right fun _ => definitionFlaw?_eq_none_iff _ d

/-- **an engine comes out if no definition that is left is broken** -/
theorem assemble_eq_ok_iff (dispatcher : Dispatcher) (rs : List Registration) (e : Engine) :
    assemble dispatcher rs = .ok e ↔
      (∀ operation d, IsLast operation d (definitionsIn rs) → ¬d.Broken (handlersIn rs)) ∧
        e = ofRegistrations dispatcher rs := by
  rw [← flaw?_eq_none_iff dispatcher rs]
  unfold assemble Draft.build
  cases hf : (rs.foldl Draft.register { dispatcher }).flaw? with
  | some flaw => simp
  | none =>
    rw [foldl_register]
    simp only [Except.ok.injEq, true_and]
    exact eq_comm

/-! ## the plan of a request -/

section
variable {dispatcher : Dispatcher} {rs : List Registration} {e : Engine} {request : Request}

theorem plan_of_isLast (he : assemble dispatcher rs = .ok e) (hplan : request.plan = none)
    {d : Definition} (hd : IsLast request.operation d (definitionsIn rs)) :
    e.plan request = .ok d.phases := by
  obtain ⟨hsound, rfl⟩ := (assemble_eq_ok_iff dispatcher rs e).mp he
  have hlookup := (Table.lookup_ofList_eq_some_iff _ _ _).mpr hd
  have hcheck : Plan.check d.phases = .ok () := by
    by_contra hnot
    exact hsound _ d hd (.inl hnot)
  simp only [plan, hplan, ofRegistrations, hlookup, bind, Except.bind, hcheck, pure, Except.pure]

theorem plan_of_not_mem (he : assemble dispatcher rs = .ok e) (hplan : request.plan = none)
    (hn : request.operation ∉ Table.keys (definitionsIn rs)) :
    e.plan request = .error (unknownOperation request.operation) := by
  obtain ⟨_, rfl⟩ := (assemble_eq_ok_iff dispatcher rs e).mp he
  have hlookup := (Table.lookup_ofList_eq_none_iff _ _).mpr hn
  simp only [plan, hplan, ofRegistrations, hlookup, bind, Except.bind]

theorem exists_isLast_of_plan (he : assemble dispatcher rs = .ok e) (hplan : request.plan = none)
    {phases : List Plan.Phase} (hp : e.plan request = .ok phases) :
    ∃ d, IsLast request.operation d (definitionsIn rs) ∧ phases = d.phases := by
  by_cases hmem : request.operation ∈ Table.keys (definitionsIn rs)
  · obtain ⟨d, hd⟩ := Table.exists_isLast hmem
    cases hp.symm.trans (plan_of_isLast he hplan hd)
    exact ⟨d, hd, rfl⟩
  · cases hp.symm.trans (plan_of_not_mem he hplan hmem)

end

end Engine

/-! ## rollbacks -/

section
variable {e : Engine} {names : Names} {now : Timestamp} {c : Context} {input : Json}
  {plan : List Plan.Phase} {r : Run}

/-- the undo of a step is the one that its plan declares -/
theorem Run.GoesThrough.undo_eq (h : r.GoesThrough e names now c input plan) {s : StepRun}
    (hs : s ∈ r.steps) : ∃ step ∈ Plan.steps plan, s.step.undo = step.undo := by
  obtain ⟨p, hp, hsp⟩ := List.mem_flatMap.mp hs
  obtain ⟨q, hq, hfits⟩ := h.fits hp
  rw [h.steps_eq hp] at hsp
  obtain ⟨x, hx, rfl⟩ := List.mem_map.mp hsp
  have hspec : x.2 ∈ q.steps := by
    rw [← hfits.specs]
    exact List.mem_map_of_mem hx
  refine ⟨x.2, List.mem_flatMap.mpr ⟨q, hq, hspec⟩, ?_⟩
  rw [step_runStep]
  exact (hfits.places x hx).undo

/-- an undo that finds the handler it looks up -/
structure UndoRun.Served (handlers : List (String × Handler)) (u : UndoRun) : Prop where
  found : ∀ name context found, u.action = .handler name context found → found = true
  /-- the last handler of the name is asked, and says how the undo ends -/
  handled : ∀ name, u.step.undo = some (.named name) → ∃ handler context,
    IsLast name handler handlers ∧ u.action = .handler name context true ∧
      u.result = (handler context u.step u.output).mapError Fault.notice

theorem Undoes.served {d : Completed} {u : UndoRun} (h : Undoes e names now c d u)
    {handlers : List (String × Handler)} (he : e.handlers = Table.ofList handlers)
    (hknown : ∀ name, d.step.undo = some (.named name) → name ∈ Table.keys handlers) :
    u.Served handlers := by
  cases h with
  | undeclared hundo =>
    constructor
    case found => exact fun name context found haction => by cases haction
    case handled => exact fun name hname => by cases hundo.symm.trans hname
  | tool service tool arguments sent hundo =>
    constructor
    case found => exact fun name context found haction => by cases haction
    case handled => exact fun name hname => by cases hundo.symm.trans hname
  | handled name hundo handler hlookup context =>
    rw [he, Table.lookup_ofList_eq_some_iff] at hlookup
    constructor
    case found =>
      intro _ _ _ haction
      cases haction
      rfl
    case handled =>
      intro _ hname
      cases hundo.symm.trans hname
      exact ⟨handler, context, hlookup, rfl, rfl⟩
  | unknown name hundo hlookup =>
    rw [he, Table.lookup_ofList_eq_none_iff] at hlookup
    exact absurd (hknown name hundo) hlookup

/-- **no rollback of a sound definition asks for a handler that is not there** -/
theorem Run.RolledBack.served {d : Definition} (hr : r.RolledBack e names now c)
    (h : r.GoesThrough e names now c input d.phases) {handlers : List (String × Handler)}
    (he : e.handlers = Table.ofList handlers) (hd : ¬d.Broken handlers) :
    ∀ u ∈ r.undos, u.Served handlers := by
  intro u hu
  obtain ⟨s, hs, _, _, hundoes⟩ := hr.each u hu
  refine hundoes.served he fun name hundo => ?_
  obtain ⟨step, hstep, heq⟩ := h.undo_eq hs
  by_contra hmissing
  exact hd (.inr ⟨step, hstep, name, heq.symm.trans hundo, hmissing⟩)

end

/-! ## runs -/

/-- a request that is turned down before anything is called -/
structure TurnedDown (kind : Fault.Kind) (a : Envelope Report) (r : Run) : Prop where
  data : a.data = none
  error : ∃ n, a.error = some n ∧ n.kind = kind
  state : r.report.state = .failed
  phases : r.phases = []
  undos : r.undos = []

theorem turnedDown_rejected (r : Report) (fault : Fault) (header : Header) :
    TurnedDown fault.kind ((Run.rejected r fault).envelope header) (.rejected r fault) := by
  constructor
  case data => rfl
  case error => exact ⟨_, rfl, rfl⟩
  case state => rfl
  case phases => rfl
  case undos => rfl

theorem turnedDown_of_plan {e : Engine} {request : Envelope Request} {body : Request} {fault : Fault}
    (hdata : request.data = some body) (hplan : e.plan body = .error fault) (names : Names)
    (now : Timestamp) : TurnedDown fault.kind (e.execute names now request).1
      (e.execute names now request).2 := by
  have hstart : e.start names now request = .rejected (firstReport request) fault := by
    rcases start_cases e names now request with ⟨fault', hrejection, hstart⟩ | ⟨_, body', plan, hbody, hok, _⟩
    · unfold Engine.rejection? at hrejection
      simp only [hdata, hplan] at hrejection
      cases hrejection
      exact hstart
    · cases hdata.symm.trans hbody
      cases hplan.symm.trans hok
  show TurnedDown fault.kind ((e.start names now request).envelope _) (e.start names now request)
  rw [hstart]
  exact turnedDown_rejected _ _ _

theorem served_start {dispatcher : Dispatcher} {rs : List Engine.Registration} {e : Engine}
    {request : Envelope Request} {body : Request} (he : Engine.assemble dispatcher rs = .ok e)
    (hdata : request.data = some body) (hplan : body.plan = none) (names : Names) (now : Timestamp) :
    ∀ u ∈ (e.start names now request).undos, u.Served (Engine.handlersIn rs) := by
  intro u hu
  obtain ⟨hsound, heq⟩ := (Engine.assemble_eq_ok_iff dispatcher rs e).mp he
  have hhandlers : e.handlers = Table.ofList (Engine.handlersIn rs) := by rw [heq, Engine.ofRegistrations]
  rcases undone_or_untouched_start e names now request with hundone | huntouched
  · rcases start_cases e names now request with ⟨fault, _, hstart⟩ | ⟨_, body', plan, hbody, hp, hstart⟩
    · rw [hstart] at hu
      exact absurd hu List.not_mem_nil
    · cases hdata.symm.trans hbody
      obtain ⟨d, hd, rfl⟩ := Engine.exists_isLast_of_plan he hplan hp
      exact hundone.served (goesThrough_of_start hp hstart) hhandlers (hsound _ d hd) u hu
  · rw [huntouched.undos] at hu
    exact absurd hu List.not_mem_nil

/-- **what assembling an engine comes to** -/
structure Engine.Assembles (dispatcher : Dispatcher) (rs : List Registration) : Prop where
  refused : (∃ flaw, assemble dispatcher rs = .error flaw) ↔
    ∃ operation d, IsLast operation d (definitionsIn rs) ∧ d.Broken (handlersIn rs)
  kind : ∀ flaw, assemble dispatcher rs = .error flaw → flaw.fault.kind = .config
  /-- a registered operation has the plan of its last definition -/
  planned : ∀ e, assemble dispatcher rs = .ok e → ∀ request : Request, request.plan = none →
    request.operation ∈ Table.keys (definitionsIn rs) →
    ∃ d, IsLast request.operation d (definitionsIn rs) ∧ e.plan request = .ok d.phases
  /-- whatever becomes of a run, each handler that it looks up is there, the last of its name -/
  served : ∀ e, assemble dispatcher rs = .ok e → ∀ names now (request : Envelope Request) body,
    request.data = some body → body.plan = none →
    ∀ u ∈ (e.execute names now request).2.undos, u.Served (handlersIn rs)
  unregistered : ∀ e, assemble dispatcher rs = .ok e → ∀ names now (request : Envelope Request) body,
    request.data = some body → body.plan = none → body.operation ∉ Table.keys (definitionsIn rs) →
    TurnedDown .notFound (e.execute names now request).1 (e.execute names now request).2

/-- **an assembled engine never finds a registered definition broken** -/
theorem Engine.assemble_delivers (dispatcher : Dispatcher) (rs : List Registration) :
    Assembles dispatcher rs := by
  constructor
  case refused =>
    have hok := assemble_eq_ok_iff dispatcher rs
    constructor
    · rintro ⟨flaw, hflaw⟩
      by_contra hnone
      have hsound : ∀ operation d, IsLast operation d (definitionsIn rs) →
          ¬d.Broken (handlersIn rs) := fun operation d hd hbroken => hnone ⟨operation, d, hd, hbroken⟩
      cases hflaw.symm.trans ((hok _).mpr ⟨hsound, rfl⟩)
    · rintro ⟨operation, d, hd, hbroken⟩
      cases h : assemble dispatcher rs with
      | error flaw => exact ⟨flaw, rfl⟩
      | ok e => exact absurd hbroken (((hok e).mp h).1 operation d hd)
  case kind => exact fun flaw _ => rfl
  case planned =>
    intro e he request hplan hmem
    obtain ⟨d, hd⟩ := Table.exists_isLast hmem
    exact ⟨d, hd, plan_of_isLast he hplan hd⟩
  case served =>
    intro e he names now request body hdata hplan u hu
    exact served_start he hdata hplan names now u hu
  case unregistered =>
    intro e he names now request body hdata hplan hn
    exact turnedDown_of_plan hdata (plan_of_not_mem he hplan hn) names now

/-! ## a registered checkout -/

namespace Checkout

/-- the charge is taken back by a handler, and nobody answers for the parcel -/
def plan : List Plan.Phase := [
  .sequential {
    name := "charge", service := "bank", tool := "charge", undo := some (.named "refund") },
  .sequential { name := "ship", service := "parcels", tool := "ship" }]

/-- a definition without phases, the one that replaces it, and then the handler of that one -/
def registrations : List Engine.Registration := [
  .definition { operation := "checkout", phases := [] },
  .definition { operation := "checkout", phases := plan },
  .handler "refund" fun _ _ _ => .ok ()]

def envelope : Envelope Request := .ok { requestId := "checkout-1" } { operation := "checkout" }

end Checkout

theorem Engine.assemble_delivers_checkout :
    ∃ e, assemble Order.engine.dispatcher Checkout.registrations = .ok e ∧
      ∃ u ∈ (e.execute Order.names Order.now Checkout.envelope).2.undos,
        u.name = "charge" ∧ u.Served (handlersIn Checkout.registrations) := by
  have he : assemble Order.engine.dispatcher Checkout.registrations =
      .ok (ofRegistrations Order.engine.dispatcher Checkout.registrations) := rfl
  have hundone : "charge" ∈ ((ofRegistrations Order.engine.dispatcher Checkout.registrations).execute
      Order.names Order.now Checkout.envelope).2.undos.map UndoRun.name := by
    decide +kernel
  obtain ⟨u, hu, hname⟩ := List.mem_map.mp hundone
  have hserved := (assemble_delivers Order.engine.dispatcher Checkout.registrations).served _ he
    Order.names Order.now Checkout.envelope _ rfl rfl u hu
  exact ⟨_, he, u, hu, hname, hserved⟩

end Relay.Workflow
