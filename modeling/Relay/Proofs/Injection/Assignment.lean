import Relay.Proofs.Checks
import Relay.Proofs.Dispatch.Call
import Relay.Proofs.Workflow.Assembly
import Relay.Hub

/-!
# Which injector a call goes through

A hub is told of injectors twice: its settings name built-in ones (`namedIn`), and others are added to its
parts (`injectorsIn`). All of them end in one table, those of the settings first (`board_of_known`), so
that for each service the last counts (`Table.IsLast`).

* `Misnamed`          settings that name an injector which is not built in; with these there is no hub;
* `Assigned`          the injector of a service;
* `Selected`          the injector of a call, which is the default one where that of the service does not
                      support the tool;
* `assemble_selects`  the calls of a hub go through the selected injectors.
-/

namespace Relay

/-- a call whose arguments an injector adds context to, before its requests leave -/
structure CallRun.Uses (i : Injector) (d : Dispatcher) (now : Timestamp) (service : String)
    (header : Header) (call : Tool.Call) (connection : Service) (r : CallRun) : Prop where
  refused : ∀ fault, i.inject (d.contextFor header) call.tool call.arguments = .error fault →
    r.Refused fault
  sent : ∀ arguments, i.inject (d.contextFor header) call.tool call.arguments = .ok arguments →
    ∃ x k o, r.Sent d now service header call connection arguments x k o

theorem Dispatcher.uses_call {d : Dispatcher} {now : Timestamp} {service : String}
    {request : Envelope Tool.Call} {call : Tool.Call} {connection : Service}
    (h : request.data = some call) (hs : d.services.lookup service = some connection) :
    (d.call now service request).Uses (d.board.resolve service call.tool) d now service request.header
      call connection := by
  constructor
  case refused => exact fun fault hi => refused_call (prepare_of_uninjected h hs hi)
  case sent => exact fun arguments hi => sent_call h hs hi

namespace Hub

open Injection (BuiltIn Board)
open Table (IsLast keys)

/-! ## names -/

/-- the injectors that settings can name -/
def builtIns : List (String × BuiltIn) := [
  ("default", .standard),
  ("database", .database .any),
  ("filesystem", .filesystem (.ofText "/tenants") .any),
  ("http", .http .any)]

theorem exists_mem_builtIns {name : String} (h : name ∈ keys builtIns) : ∃ b, (name, b) ∈ builtIns := by
  obtain ⟨⟨name', b⟩, hb, rfl⟩ := List.mem_map.mp h
  exact ⟨b, hb⟩

theorem ofName_of_mem {name : String} {b : BuiltIn} (h : (name, b) ∈ builtIns) :
    BuiltIn.ofName name = .ok b := by
  simp only [builtIns, List.mem_cons, List.not_mem_nil, or_false, Prod.mk.injEq] at h
  rcases h with ⟨rfl, rfl⟩ | ⟨rfl, rfl⟩ | ⟨rfl, rfl⟩ | ⟨rfl, rfl⟩ <;> rfl

theorem ofName_of_not_mem {name : String} (h : name ∉ keys builtIns) :
    BuiltIn.ofName name = .error (Injection.Flaw.unknownInjector name).fault := by
  simp only [keys, builtIns, List.map_cons, List.map_nil, List.mem_cons, List.not_mem_nil, or_false,
    not_or] at h
  obtain ⟨hdefault, hdatabase, hfilesystem, hhttp⟩ := h
  rw [BuiltIn.ofName, if_neg hdefault, if_neg hdatabase, if_neg hfilesystem, if_neg hhttp]

theorem ofName_eq_ok_iff (name : String) (b : BuiltIn) :
    BuiltIn.ofName name = .ok b ↔ (name, b) ∈ builtIns := by
  constructor
  · intro h
    by_cases hname : name ∈ keys builtIns
    · obtain ⟨b', hb'⟩ := exists_mem_builtIns hname
      cases h.symm.trans (ofName_of_mem hb')
      exact hb'
    · cases h.symm.trans (ofName_of_not_mem hname)
  · exact ofName_of_mem

/-- the built-in injector of a name -/
def builtInOf (name : String) : Injector :=
  match BuiltIn.ofName name with
  | .ok b => b.injector
  | .error _ => BuiltIn.standard.injector

theorem builtInOf_eq_iff {name : String} (h : name ∈ keys builtIns) (i : Injector) :
    builtInOf name = i ↔ ∃ b, (name, b) ∈ builtIns ∧ b.injector = i := by
  obtain ⟨b, hmem⟩ := exists_mem_builtIns h
  have hb := ofName_of_mem hmem
  unfold builtInOf
  simp only [← ofName_eq_ok_iff, hb, Except.ok.injEq]
  simp

section
variable (services : List Settings.KnownService)

/-- settings in which a service names an injector that is not built in -/
def Misnamed : Prop :=
  ∃ service ∈ services, ∃ name, service.injector = some name ∧ name ∉ keys builtIns

/-- the injectors that are named, in the order of the services, by service -/
def namedIn : List (String × String) :=
  services.filterMap fun service => service.injector.map fun name => (service.name, name)

end

/-! ## the table of injectors -/

section
variable {service : Settings.KnownService} {services : List Settings.KnownService}

theorem namedIn_cons_of_none (h : service.injector = none) :
    namedIn (service :: services) = namedIn services := by
  unfold namedIn
  rw [List.filterMap_cons_none]
  rw [h]
  rfl

theorem namedIn_cons_of_some {name : String} (h : service.injector = some name) :
    namedIn (service :: services) = (service.name, name) :: namedIn services := by
  unfold namedIn
  rw [List.filterMap_cons_some]
  rw [h]
  rfl

theorem misnamed_cons_iff : Misnamed (service :: services) ↔
    (∃ name, service.injector = some name ∧ name ∉ keys builtIns) ∨ Misnamed services := by
  unfold Misnamed
  exact List.exists_mem_cons_iff ..

theorem mem_builtIns_of_known (h : ¬Misnamed services) (hservice : service ∈ services) {name : String}
    (hname : service.injector = some name) : name ∈ keys builtIns := by
  by_contra hunknown
  exact h ⟨service, hservice, name, hname, hunknown⟩

theorem mem_builtIns_of_mem_namedIn (h : ¬Misnamed services) {e : String × String}
    (he : e ∈ namedIn services) : e.2 ∈ keys builtIns := by
  obtain ⟨service, hservice, hmap⟩ := List.mem_filterMap.mp he
  obtain ⟨name, hname, rfl⟩ := Option.map_eq_some_iff.mp hmap
  exact mem_builtIns_of_known h hservice hname

/-- where every name is that of a built-in injector all of them are assigned, in their order -/
theorem assignNamed_of_known (h : ¬Misnamed services) (board : Board) :
    assignNamed board services = .ok { board with
      byService := ((namedIn services).map fun e => (e.1, builtInOf e.2)).foldl
        (fun t b => t.put b.1 b.2) board.byService } := by
  induction services generalizing board with
  | nil => rfl
  | cons service services ih =>
    have hrest : ¬Misnamed services := fun hrest => h (misnamed_cons_iff.mpr (.inr hrest))
    unfold assignNamed
    cases hname : service.injector with
    | none =>
      rw [namedIn_cons_of_none hname]
      exact ih hrest board
    | some name =>
      have hmem := mem_builtIns_of_known h List.mem_cons_self hname
      obtain ⟨b, hb⟩ := exists_mem_builtIns hmem
      have hof := ofName_of_mem hb
      have hinjector := (builtInOf_eq_iff hmem b.injector).mpr ⟨b, hb, rfl⟩
      rw [namedIn_cons_of_some hname, List.map_cons, List.foldl_cons, hinjector]
      simp only [hof]
      exact ih hrest _

/-- a name that is not built in is found, wherever it stands -/
theorem assignNamed_of_misnamed (h : Misnamed services) (board : Board) :
    ∃ name, (∃ service ∈ services, service.injector = some name) ∧ name ∉ keys builtIns ∧
      assignNamed board services = .error (Injection.Flaw.unknownInjector name).fault := by
  induction services generalizing board with
  | nil =>
    obtain ⟨service, hservice, -⟩ := h
    exact absurd hservice List.not_mem_nil
  | cons service services ih =>
    unfold assignNamed
    rw [misnamed_cons_iff] at h
    cases hname : service.injector with
    | none =>
      rw [hname] at h
      have hrest : Misnamed services := h.resolve_left fun ⟨name, hsome, _⟩ => by cases hsome
      obtain ⟨name, ⟨service', hmem, hname'⟩, hunknown, herror⟩ := ih hrest board
      exact ⟨name, ⟨service', List.mem_cons_of_mem _ hmem, hname'⟩, hunknown, herror⟩
    | some name =>
      by_cases hmem : name ∈ keys builtIns
      · obtain ⟨b, hb⟩ := exists_mem_builtIns hmem
        have hrest : Misnamed services := by
          refine h.resolve_left fun ⟨other, hother, hunknown⟩ => ?_
          cases hname.symm.trans hother
          exact hunknown hmem
        simp only [ofName_of_mem hb]
        obtain ⟨name, ⟨service', hmem', hname'⟩, hunknown, herror⟩ := ih hrest _
        exact ⟨name, ⟨service', List.mem_cons_of_mem _ hmem', hname'⟩, hunknown, herror⟩
      · refine ⟨name, ⟨service, List.mem_cons_self, hname⟩, hmem, ?_⟩
        simp only [ofName_of_not_mem hmem]

end

theorem foldl_assign (added : List (String × Injector)) (board : Board) :
    added.foldl (fun board entry => board.assign entry.1 entry.2) board =
      { board with byService := added.foldl (fun t b => t.put b.1 b.2) board.byService } := by
  induction added generalizing board with
  | nil => rfl
  | cons entry added ih =>
    rw [List.foldl_cons, ih]
    rfl

/-- the injectors of settings and of parts in the order in which they are assigned -/
def assignments (settings : Settings) (added : List (String × Injector)) : List (String × Injector) :=
  (namedIn settings.services).map (fun e => (e.1, builtInOf e.2)) ++ added

def boardOf (settings : Settings) (added : List (String × Injector)) : Board :=
  { Board.empty with byService := Table.ofList (assignments settings added) }

theorem board_of_known {settings : Settings} (h : ¬Misnamed settings.services)
    (added : List (String × Injector)) : board settings added = .ok (boardOf settings added) := by
  unfold board boardOf assignments
  rw [assignNamed_of_known h, Table.ofList_append]
  exact congrArg Except.ok (foldl_assign added _)

theorem board_of_misnamed {settings : Settings} (h : Misnamed settings.services)
    (added : List (String × Injector)) :
    ∃ name, (∃ service ∈ settings.services, service.injector = some name) ∧ name ∉ keys builtIns ∧
      board settings added = .error (Injection.Flaw.unknownInjector name).fault := by
  obtain ⟨name, hservice, hunknown, herror⟩ := assignNamed_of_misnamed h Board.empty
  refine ⟨name, hservice, hunknown, ?_⟩
  unfold board
  rw [herror]
  rfl

/-! ## the injector of a service, and of a call -/

section
variable (settings : Settings) (added : List (String × Injector)) (service : String)

/-- the injector of a service: the last that was added for it, and without one that of the last of its
entries in the settings that names one -/
inductive Assigned : Injector → Prop
  | added {i : Injector} (last : IsLast service i added) : Assigned i
  | named {name : String} {b : BuiltIn} (not_added : service ∉ keys added)
      (last : IsLast service name (namedIn settings.services)) (builtIn : (name, b) ∈ builtIns) :
      Assigned b.injector

/-- the injector of the calls of a tool -/
inductive Selected (tool : String) : Injector → Prop
  | supported {i : Injector} (assigned : Assigned settings added service i)
      (supports : i.supports tool = true) : Selected tool i
  | unsupported {i : Injector} (assigned : Assigned settings added service i)
      (supports : i.supports tool = false) : Selected tool BuiltIn.standard.injector
  | unassigned (not_added : service ∉ keys added)
      (not_named : service ∉ keys (namedIn settings.services)) :
      Selected tool BuiltIn.standard.injector

end

section
variable {settings : Settings} (hknown : ¬Misnamed settings.services)
  {added : List (String × Injector)} {service : String}
include hknown

theorem lookup_assignments_eq_some_iff (i : Injector) :
    (Table.ofList (assignments settings added)).lookup service = some i ↔
      Assigned settings added service i := by
  unfold assignments
  rw [Table.lookup_ofList_eq_some_iff, Table.isLast_append_iff, Table.isLast_map_iff]
  constructor
  · rintro (hlast | ⟨hn, name, hlast, hi⟩)
    · exact .added hlast
    · obtain ⟨before, after, hnamed, -⟩ := id hlast
      have hmem : (service, name) ∈ namedIn settings.services := by
        rw [hnamed]
        exact List.mem_append_right _ List.mem_cons_self
      have hbuiltIn := mem_builtIns_of_mem_namedIn hknown hmem
      obtain ⟨b, hb, rfl⟩ := (builtInOf_eq_iff hbuiltIn i).mp hi
      exact .named hn hlast hb
  · intro h
    cases h with
    | added last => exact .inl last
    | @named name b not_added last builtIn =>
      have hbuiltIn : name ∈ keys builtIns := List.mem_map_of_mem builtIn
      exact .inr ⟨not_added, name, last, (builtInOf_eq_iff hbuiltIn _).mpr ⟨b, builtIn, rfl⟩⟩

omit hknown in
theorem lookup_assignments_eq_none_iff :
    (Table.ofList (assignments settings added)).lookup service = none ↔
      service ∉ keys added ∧ service ∉ keys (namedIn settings.services) := by
  have hkeys : keys (assignments settings added) = keys (namedIn settings.services) ++ keys added := by
    unfold assignments keys
    rw [List.map_append, List.map_map]
    rfl
  rw [Table.lookup_ofList_eq_none_iff, hkeys, List.mem_append, not_or]
  exact and_comm

/-- of the rules of `Selected` one applies, and it gives what the board does -/
theorem resolve_eq_iff (tool : String) (i : Injector) :
    (boardOf settings added).resolve service tool = i ↔ Selected settings added service tool i := by
  unfold Board.resolve boardOf
  constructor
  · rintro rfl
    cases hlookup : (Table.ofList (assignments settings added)).lookup service with
    | none =>
      obtain ⟨hadded, hnamed⟩ := lookup_assignments_eq_none_iff.mp hlookup
      exact .unassigned hadded hnamed
    | some j =>
      have hassigned := (lookup_assignments_eq_some_iff hknown j).mp hlookup
      cases hsupports : j.supports tool with
      | true =>
        simp only [hsupports, if_true]
        exact .supported hassigned hsupports
      | false =>
        simp only [hsupports, Bool.false_eq_true, if_false]
        exact .unsupported hassigned hsupports
  · intro h
    cases h with
    | supported assigned supports =>
      have hlookup := (lookup_assignments_eq_some_iff hknown i).mpr assigned
      simp only [hlookup, supports, if_true]
    | @unsupported j assigned supports =>
      have hlookup := (lookup_assignments_eq_some_iff hknown j).mpr assigned
      simp only [hlookup, supports, Bool.false_eq_true, if_false]
      rfl
    | unassigned not_added not_named =>
      have hlookup := lookup_assignments_eq_none_iff.mpr ⟨not_added, not_named⟩
      simp only [hlookup]
      rfl

end

/-! ## additions -/

namespace Addition

def injector? : Addition → Option (String × Injector)
  | injector service i => some (service, i)
  | _ => none

end Addition

/-- the injectors that are added, in their order, by service -/
def injectorsIn (additions : List Addition) : List (String × Injector) :=
  additions.filterMap Addition.injector?

theorem injectors_addAll (p : Parts) (additions : List Addition) :
    (p.addAll additions).injectors = p.injectors ++ injectorsIn additions := by
  unfold Parts.addAll
  induction additions generalizing p with
  | nil => exact (List.append_nil _).symm
  | cons addition additions ih =>
    rw [List.foldl_cons, ih]
    unfold injectorsIn
    cases addition with
    | injector service i => exact List.append_assoc _ _ _
    | definition _ | handler _ _ | fallback _ => rfl

/-! ## hubs -/

theorem assemble_of_misnamed {settings : Settings} (h : Misnamed settings.services) (parts : Parts) :
    ∃ name, (∃ service ∈ settings.services, service.injector = some name) ∧ name ∉ keys builtIns ∧
      assemble settings parts = .error (Injection.Flaw.unknownInjector name).fault := by
  obtain ⟨name, hservice, hunknown, herror⟩ := board_of_misnamed h parts.injectors
  refine ⟨name, hservice, hunknown, ?_⟩
  unfold assemble
  rw [herror]
  rfl

/-- what is left to fail is the engine -/
theorem assemble_of_known {settings : Settings} (h : ¬Misnamed settings.services) (parts : Parts) :
    assemble settings parts = ((Workflow.Engine.assemble
      (dispatcher settings parts (boardOf settings parts.injectors)) (registrations parts)).mapError
        Workflow.Engine.Flaw.fault).map fun engine => { settings, engine } := by
  unfold assemble
  rw [board_of_known h]
  rfl

section
variable {settings : Settings} (hknown : ¬Misnamed settings.services) {parts : Parts}
include hknown

theorem assemble_eq_ok_iff (h : Hub) : assemble settings parts = .ok h ↔ ∃ engine,
    Workflow.Engine.assemble (dispatcher settings parts (boardOf settings parts.injectors))
      (registrations parts) = .ok engine ∧ { settings, engine } = h := by
  rw [assemble_of_known hknown, Checks.map_eq_ok_iff]
  simp only [Checks.mapError_eq_ok_iff]

theorem assemble_eq_error_iff (fault : Fault) : assemble settings parts = .error fault ↔ ∃ flaw,
    Workflow.Engine.assemble (dispatcher settings parts (boardOf settings parts.injectors))
      (registrations parts) = .error flaw ∧ flaw.fault = fault := by
  rw [assemble_of_known hknown, Checks.map_eq_error_iff, Checks.mapError_eq_error_iff]

/-- whether an engine comes out does not depend on what its calls are dispatched with -/
theorem exists_assemble_iff (d : Dispatcher) : (∃ h, assemble settings parts = .ok h) ↔
    ∃ e, Workflow.Engine.assemble d (registrations parts) = .ok e := by
  simp only [assemble_eq_ok_iff hknown, Workflow.Engine.assemble_eq_ok_iff]
  simp

end

section
variable {settings : Settings} {parts : Parts} {h : Hub}

theorem kind_of_assemble {fault : Fault} (hfault : assemble settings parts = .error fault) :
    fault.kind = .config := by
  by_cases hmisnamed : Misnamed settings.services
  · obtain ⟨name, -, -, herror⟩ := assemble_of_misnamed hmisnamed parts
    cases herror.symm.trans hfault
    rfl
  · obtain ⟨flaw, -, rfl⟩ := (assemble_eq_error_iff hmisnamed fault).mp hfault
    rfl

theorem known_of_assemble (hassemble : assemble settings parts = .ok h) :
    ¬Misnamed settings.services := by
  intro hmisnamed
  obtain ⟨name, -, -, herror⟩ := assemble_of_misnamed hmisnamed parts
  cases herror.symm.trans hassemble

theorem calls_of_assemble (hassemble : assemble settings parts = .ok h) :
    h.calls = dispatcher settings parts (boardOf settings parts.injectors) := by
  have hknown := known_of_assemble hassemble
  obtain ⟨engine, hengine, rfl⟩ := (assemble_eq_ok_iff hknown h).mp hassemble
  obtain ⟨-, rfl⟩ := (Workflow.Engine.assemble_eq_ok_iff _ _ _).mp hengine
  rfl

theorem resolve_calls_iff (hassemble : assemble settings parts = .ok h) (service tool : String)
    (i : Injector) :
    h.calls.board.resolve service tool = i ↔ Selected settings parts.injectors service tool i := by
  rw [calls_of_assemble hassemble]
  exact resolve_eq_iff (known_of_assemble hassemble) tool i

end

/-- **which injectors the calls of a hub go through** -/
structure Selects (settings : Settings) (parts : Parts) (added : List (String × Injector)) : Prop where
  /-- whatever was added for the service -/
  misnamed : Misnamed settings.services →
    ∃ name, (∃ service ∈ settings.services, service.injector = some name) ∧ name ∉ keys builtIns ∧
      assemble settings parts = .error (Injection.Flaw.unknownInjector name).fault
  assembled : ¬Misnamed settings.services → ∀ d, (∃ h, assemble settings parts = .ok h) ↔
    ∃ e, Workflow.Engine.assemble d (registrations parts) = .ok e
  kind : ∀ fault, assemble settings parts = .error fault → fault.kind = .config
  selected : ∀ h, assemble settings parts = .ok h → ∀ service tool i,
    h.calls.board.resolve service tool = i ↔ Selected settings added service tool i
  used : ∀ h, assemble settings parts = .ok h →
    ∀ now service (request : Envelope Tool.Call) call connection i, request.data = some call →
      parts.services.lookup service = some connection → Selected settings added service call.tool i →
      (h.calls.call now service request).Uses i h.calls now service request.header call connection

/-- settings of any kind, and any additions to the parts of a hub -/
theorem assemble_selects (settings : Settings) (services : Table Service) (fractions : Nat → Float)
    (additions : List Addition) :
    Selects settings (Parts.addAll { services, fractions } additions) (injectorsIn additions) := by
  have hadded : (Parts.addAll { services, fractions } additions).injectors = injectorsIn additions :=
    injectors_addAll _ additions
  constructor
  case misnamed => exact fun hmisnamed => assemble_of_misnamed hmisnamed _
  case assembled => exact fun hknown d => exists_assemble_iff hknown d
  case kind => exact fun fault hfault => kind_of_assemble hfault
  case selected =>
    intro h hassemble service tool i
    rw [← hadded]
    exact resolve_calls_iff hassemble service tool i
  case used =>
    intro h hassemble now service request call connection i hdata hconnection hselected
    rw [← hadded] at hselected
    rw [← (resolve_calls_iff hassemble service call.tool i).mpr hselected]
    refine Dispatcher.uses_call hdata ?_
    rw [calls_of_assemble hassemble]
    exact hconnection

/-! ## a service whose injectors were replaced -/

namespace Archive

/-- two services that stand twice in the settings, and one without an injector -/
def settings : Settings := { services := [
  { name := "archive", transport := .rpc, injector := some "database" },
  { name := "web", transport := .http, injector := some "database" },
  { name := "archive", transport := .rpc, injector := some "http" },
  { name := "web", transport := .http, injector := some "http" },
  { name := "search", transport := .http }] }

/-- an injector for the reading of files -/
def reader : Injector := (BuiltIn.filesystem (.ofText "/archive") (.only ["read"])).injector

def additions : List Addition := [
  .injector "archive" (BuiltIn.database .any).injector,
  .injector "archive" reader]

end Archive

/-- none of the injectors that were replaced serves the tool that the last one does not support -/
theorem assemble_selects_archive : ∃ h,
    assemble Archive.settings (Parts.addAll { services := [], fractions := fun _ => 0.5 }
      Archive.additions) = .ok h ∧
    h.calls.board.resolve "archive" "read" = Archive.reader ∧
    h.calls.board.resolve "archive" "query" = BuiltIn.standard.injector ∧
    h.calls.board.resolve "web" "get" = (BuiltIn.http .any).injector ∧
    h.calls.board.resolve "search" "find" = BuiltIn.standard.injector := by
  have hselects := assemble_selects Archive.settings [] (fun _ => 0.5) Archive.additions
  have hassemble : ∃ h, assemble Archive.settings (Parts.addAll { services := [], fractions := fun _ => 0.5 }
      Archive.additions) = .ok h := ⟨_, rfl⟩
  obtain ⟨h, hassemble⟩ := hassemble
  have hselected := hselects.selected h hassemble
  have harchive : Assigned Archive.settings (injectorsIn Archive.additions) "archive" Archive.reader :=
    .added ⟨[_], [], rfl, List.not_mem_nil⟩
  have hlast : IsLast "web" "http" (namedIn Archive.settings.services) :=
    ⟨[_, _, _], [], rfl, List.not_mem_nil⟩
  have hweb : Assigned Archive.settings (injectorsIn Archive.additions) "web"
      (BuiltIn.http .any).injector := .named (by decide) hlast (by decide)
  refine ⟨h, hassemble, ?_, ?_, ?_, ?_⟩
  · exact (hselected _ _ _).mpr (.supported harchive rfl)
  · exact (hselected _ _ _).mpr (.unsupported harchive rfl)
  · exact (hselected _ _ _).mpr (.supported hweb rfl)
  · exact (hselected _ _ _).mpr (.unassigned (by decide) (by decide))

end Hub

end Relay
