import Relay.Proofs.Injection.Tenant

/-!
# Tenants below the root

An injector with a root lets a call through only with a directory for its tenant, which lies right below
what can be read of the root (`Confines`, `filesystem_confines`): one step down, whatever the root and the
tenant are. If the root is text this is the root itself, and if it is not, the directory is nowhere below
the root (`LiesBelow`); a root that is not text cannot be told to a service.

A call without a tenant is refused, and so is one whose tenant is not a single name. `Path.Unnamed` lists
what that may be: nothing, a path from the root of all, steps back or in place, or more steps than one.
-/

namespace Relay.Injection.BuiltIn

def Refused (kind : Fault.Kind) (outcome : Except Fault Json) : Prop :=
  ∃ fault, outcome = .error fault ∧ fault.kind = kind

section
variable (root : RawPath) (tools : ToolSet) {c : Context} (arguments : Json)

theorem inject_filesystem_of_none (h : c.tenant = none) :
    Refused .tenantExtraction ((filesystem root tools).inject c arguments) := by
  refine ⟨.tenantExtraction ("request " ++ c.requestId ++ " carries no tenant"), ?_, rfl⟩
  unfold inject
  rw [Context.requireTenant_of_none h]
  rfl

theorem inject_filesystem_of_unnamed {tenant : String} (h : c.tenant = some tenant)
    (hname : isDirectoryName tenant = false) :
    Refused .security ((filesystem root tools).inject c arguments) := by
  refine ⟨(Flaw.tenantName tenant).fault, ?_, rfl⟩
  unfold inject
  rw [(c.requireTenant_eq_ok_iff tenant).mpr h]
  show (if isDirectoryName tenant = true then _ else throw (Flaw.tenantName tenant).fault) = _
  rw [if_neg (by rw [hname]; decide)]
  rfl

end

/-- where a directory of a name lies -/
structure LiesBelow (root : RawPath) (directory name : String) : Prop where
  isName : Path.IsName name
  /-- one step down from what can be read of the root -/
  read : Path.components directory = Path.components root.lossyText ++ [.normal name]
  /-- and so from a root that is text -/
  text : root.IsText →
    (RawPath.ofText directory).components = root.components ++ [.normal (Text.encode name.toList)]
  /-- but not below any other -/
  other : ¬root.IsText → ¬root.components <+: (RawPath.ofText directory).components

theorem liesBelow_of_components {root : RawPath} {directory name : String} (hname : Path.IsName name)
    (h : Path.components directory = Path.components root.lossyText ++ [.normal name]) :
    LiesBelow root directory name where
  isName := hname
  read := h
  text := by
    rintro ⟨text, rfl⟩
    rw [RawPath.lossyText_ofText] at h
    rw [RawPath.components_ofText, RawPath.components_ofText, h, List.map_append]
    rfl
  other := fun hother hbelow => hother (RawPath.isText_of_prefix hbelow)

/-- **what becomes of a call with a root for its tenants** -/
structure Confines (root : RawPath) (tools : ToolSet) (c : Context) (arguments : Json) : Prop where
  below : ∀ result, (filesystem root tools).inject c arguments = .ok result →
    ∃ directory name, result.field? "tenant_root" = some (.str directory) ∧
      LiesBelow root directory name
  withoutTenant : c.tenant = none →
    Refused .tenantExtraction ((filesystem root tools).inject c arguments)
  unnamed : ∀ tenant, c.tenant = some tenant → (∀ name, Path.components tenant ≠ [.normal name]) →
    Refused .security ((filesystem root tools).inject c arguments)
  /-- what makes a tenant no single name -/
  listed : ∀ tenant, Path.Unnamed tenant ↔ ∀ name, Path.components tenant ≠ [.normal name]
  named : ∀ tenant name fields, c.tenant = some tenant → Path.components tenant = [.normal name] →
    argumentFields arguments = .ok fields →
    ∃ result, (filesystem root tools).inject c arguments = .ok result

theorem filesystem_confines (root : RawPath) (tools : ToolSet) (c : Context) (arguments : Json) :
    Confines root tools c arguments := by
  constructor
  case below =>
    intro result hresult
    obtain ⟨tenant, _, directory, hdirectory, hcomponents⟩ := tenantRoot_of_accepted hresult
    have hlast : .normal (Path.firstName tenant) ∈ Path.components directory := by
      rw [hcomponents]
      exact List.mem_append_right _ List.mem_cons_self
    have hname := Path.isName_of_mem_components hlast
    exact ⟨directory, _, hdirectory, liesBelow_of_components hname hcomponents⟩
  case withoutTenant => exact inject_filesystem_of_none root tools arguments
  case unnamed =>
    intro tenant htenant hunnamed
    refine inject_filesystem_of_unnamed root tools arguments htenant ?_
    rw [← Bool.not_eq_true, isDirectoryName_iff]
    rintro ⟨name, hname⟩
    exact hunnamed name hname
  case listed => exact Path.unnamed_iff
  case named =>
    intro tenant name fields htenant hname hfields
    have hdirectory := (isDirectoryName_iff tenant).mpr ⟨name, hname⟩
    exact ⟨_, (inject_filesystem_iff c arguments _ root tools).mpr
      ⟨tenant, htenant, hdirectory, fields, hfields, rfl⟩⟩

/-! ## a root that is not text -/

/-- a directory in `/srv` with a name of one byte, which is part of no text -/
def unreadableRoot : RawPath := ⟨[0x2F, 0x73, 0x72, 0x76, 0x2F, 0xFF]⟩

/-- where a root cannot be read, its tenants are sent elsewhere -/
theorem filesystem_leaves_root : ¬∀ (root : RawPath) (tools : ToolSet) (c : Context)
    (arguments result : Json), (filesystem root tools).inject c arguments = .ok result →
      ∃ directory name, result.field? "tenant_root" = some (.str directory) ∧
        (RawPath.ofText directory).components = root.components ++ [.normal name] := by
  intro h
  have hsent := Neighbours.inject_of_join unreadableRoot "acme" "/srv/\uFFFD/acme"
    (by decide +kernel) (by decide +kernel)
  obtain ⟨directory, name, hdirectory, hcomponents⟩ := h _ _ _ _ _ hsent
  obtain rfl : "/srv/\uFFFD/acme" = directory := by
    injection hdirectory with hjson
    injection hjson
  have hbelow : unreadableRoot.components <+: (RawPath.ofText "/srv/\uFFFD/acme").components :=
    ⟨_, hcomponents.symm⟩
  exact absurd hbelow (by decide +kernel)

end Relay.Injection.BuiltIn
