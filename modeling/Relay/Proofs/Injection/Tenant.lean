import Relay.Proofs.Injection.Accepted
import Relay.Proofs.RawPath

/-!
# Directories of tenants

The directory of a tenant lies right under what can be read of the root, and has the name that stands in
front of the first slash of the tenant (`tenantRoot_of_accepted`). So tenants without a slash have
directories of their own, and those that differ only from the first slash on share one:
`tenantRoot_separates` is about any two tenants, `tenants_share_directory` about two that share.
-/

namespace Relay.Injection

theorem isDirectoryName_iff (tenant : String) :
    isDirectoryName tenant = true ↔ ∃ name, Path.components tenant = [.normal name] := by
  unfold isDirectoryName
  split
  · rename_i name hname
    exact iff_of_true rfl ⟨name, hname⟩
  · rename_i hother
    exact iff_of_false (by decide) fun ⟨name, hname⟩ => hother name hname

namespace BuiltIn

section
variable {root : RawPath} {tools : ToolSet} {c : Context} {arguments result : Json}

theorem tenantRoot_of_accepted (h : (filesystem root tools).inject c arguments = .ok result) :
    ∃ tenant, c.tenant = some tenant ∧
      ∃ directory, result.field? "tenant_root" = some (.str directory) ∧
        Path.components directory =
          Path.components root.lossyText ++ [.normal (Path.firstName tenant)] := by
  obtain ⟨tenant, htenant, hname, fields, _, rfl⟩ :=
    (inject_filesystem_iff c arguments result root tools).mp h
  obtain ⟨name, hname⟩ := (isDirectoryName_iff tenant).mp hname
  refine ⟨tenant, htenant, (root.join tenant).lossyText, Table.lookup_put_self _ _ _, ?_⟩
  rw [RawPath.lossyText_join, Path.components_join hname, Path.name_eq_firstName hname]

end

/-- two tenants and their directories -/
structure Separated (t₁ t₂ d₁ d₂ : String) : Prop where
  shared_iff : Path.components d₁ = Path.components d₂ ↔ Path.firstName t₁ = Path.firstName t₂
  apart : '/' ∉ t₁.toList → '/' ∉ t₂.toList → t₁ ≠ t₂ → Path.components d₁ ≠ Path.components d₂

/-- **two tenants share a directory if they are the same up to the first slash, and only then** -/
theorem tenantRoot_separates {root : RawPath} {tools : ToolSet} {c₁ c₂ : Context}
    {p₁ p₂ q₁ q₂ : Json} (h₁ : (filesystem root tools).inject c₁ p₁ = .ok q₁)
    (h₂ : (filesystem root tools).inject c₂ p₂ = .ok q₂) :
    ∃ t₁ t₂ d₁ d₂, c₁.tenant = some t₁ ∧ c₂.tenant = some t₂ ∧
      q₁.field? "tenant_root" = some (.str d₁) ∧ q₂.field? "tenant_root" = some (.str d₂) ∧
      Separated t₁ t₂ d₁ d₂ := by
  obtain ⟨t₁, ht₁, d₁, hd₁, hc₁⟩ := tenantRoot_of_accepted h₁
  obtain ⟨t₂, ht₂, d₂, hd₂, hc₂⟩ := tenantRoot_of_accepted h₂
  have hshared : Path.components d₁ = Path.components d₂ ↔
      Path.firstName t₁ = Path.firstName t₂ := by
    rw [hc₁, hc₂, List.append_cancel_left_eq, List.cons.injEq, Path.Component.normal.injEq]
    exact and_iff_left rfl
  refine ⟨t₁, t₂, d₁, d₂, ht₁, ht₂, hd₁, hd₂, hshared, fun hs₁ hs₂ hne hsame => hne ?_⟩
  have hnames := hshared.mp hsame
  rwa [Path.firstName_of_not_mem hs₁, Path.firstName_of_not_mem hs₂] at hnames

/-! ## a slash at the end -/

namespace Neighbours

def context (tenant : String) : Context :=
  .ofHeader { requestId := "r", tenant := some tenant } {}

def told (tenant directory : String) : Json :=
  .obj [("tenant_id", .str tenant), ("tenant_root", .str directory)]

theorem inject_of_join (root : RawPath) (tenant directory : String)
    (hname : isDirectoryName tenant = true) (hjoin : (root.join tenant).lossyText = directory) :
    (filesystem root .any).inject (context tenant) .null = .ok (told tenant directory) := by
  subst hjoin
  exact (inject_filesystem_iff _ _ _ _ _).mpr ⟨tenant, rfl, hname, [], rfl, rfl⟩

end Neighbours

theorem tenantRoot_separates_neighbours :
    (filesystem defaultRoot .any).inject (Neighbours.context "acme") .null =
      .ok (Neighbours.told "acme" "/tenants/acme") ∧
    (filesystem defaultRoot .any).inject (Neighbours.context "apex") .null =
      .ok (Neighbours.told "apex" "/tenants/apex") ∧
    ∃ t₁ t₂ d₁ d₂, (Neighbours.context "acme").tenant = some t₁ ∧
      (Neighbours.context "apex").tenant = some t₂ ∧
      (Neighbours.told "acme" "/tenants/acme").field? "tenant_root" = some (.str d₁) ∧
      (Neighbours.told "apex" "/tenants/apex").field? "tenant_root" = some (.str d₂) ∧
      Separated t₁ t₂ d₁ d₂ := by
  have hacme := Neighbours.inject_of_join defaultRoot "acme" "/tenants/acme"
    (by decide +kernel) (by decide +kernel)
  have hapex := Neighbours.inject_of_join defaultRoot "apex" "/tenants/apex"
    (by decide +kernel) (by decide +kernel)
  exact ⟨hacme, hapex, tenantRoot_separates hacme hapex⟩

/-- a slash at its end makes another tenant of a name, but not another directory -/
theorem tenants_share_directory : ¬∀ (root : RawPath) (tools : ToolSet) (c₁ c₂ : Context)
    (p₁ p₂ q₁ q₂ : Json) (d₁ d₂ : String), (filesystem root tools).inject c₁ p₁ = .ok q₁ →
      (filesystem root tools).inject c₂ p₂ = .ok q₂ → c₁.tenant ≠ c₂.tenant →
      q₁.field? "tenant_root" = some (.str d₁) → q₂.field? "tenant_root" = some (.str d₂) →
      Path.components d₁ ≠ Path.components d₂ := by
  intro h
  have hname := Neighbours.inject_of_join defaultRoot "acme" "/tenants/acme"
    (by decide +kernel) (by decide +kernel)
  have hslash := Neighbours.inject_of_join defaultRoot "acme/" "/tenants/acme/"
    (by decide +kernel) (by decide +kernel)
  exact h _ _ _ _ _ _ _ _ _ _ hname hslash (by decide) rfl rfl (by decide +kernel)

end BuiltIn

end Relay.Injection
