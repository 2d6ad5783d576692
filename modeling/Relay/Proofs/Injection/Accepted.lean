import Relay.Injection.BuiltIn
import Relay.Proofs.Checks

/-!
# Arguments that are accepted

When a built-in injector accepts arguments, and what comes out: one equivalence for each injector, from
which later modules start. The fields of accepted arguments, and their headers, are read as those of the
table that they make up (`field?_eq_lookup`, `header_eq_lookup`).
-/

namespace Relay

theorem Context.requireTenant_eq_ok_iff (c : Context) (tenant : String) :
    c.requireTenant = .ok tenant ↔ c.tenant = some tenant := by
  unfold requireTenant
  cases c.tenant <;> simp

theorem Context.requireTenant_of_none {c : Context} (h : c.tenant = none) :
    c.requireTenant = .error (.tenantExtraction ("request " ++ c.requestId ++ " carries no tenant")) := by
  rw [requireTenant, h]

namespace Injection

/-! ## reading by key -/

section
variable (key : String) (value : Option Json) (t : Table Json)

theorem lookup_putSome_self : (putSome key value t).lookup key = value.or (t.lookup key) := by
  cases value with
  | none => rfl
  | some v => exact Table.lookup_put_self key v t

theorem lookup_putSome_of_ne {k : String} (h : k ≠ key) :
    (putSome key value t).lookup k = t.lookup k := by
  cases value with
  | none => rfl
  | some v => exact Table.lookup_put_of_ne h v t

end

theorem field?_eq_lookup {arguments : Json} {fields : Table Json}
    (h : argumentFields arguments = .ok fields) (key : String) :
    arguments.field? key = fields.lookup key := by
  unfold argumentFields at h
  split at h
  · cases h
    rfl
  · cases h
    rfl
  · cases h

theorem header_eq_lookup {value : Option Json} {headers : Table Json}
    (h : headerFields value = .ok headers) (key : String) :
    value.bind (Json.field? key) = headers.lookup key := by
  unfold headerFields at h
  split at h
  · cases h
    rfl
  · cases h
    rfl
  · cases h
    rfl
  · cases h

/-! ## what comes out -/

namespace BuiltIn

open Checks

section
variable (c : Context) (arguments result : Json)

theorem inject_standard_iff : standard.inject c arguments = .ok result ↔
    ∃ fields, argumentFields arguments = .ok fields ∧
      .obj (fields.put "_context" (contextObject c)) = result := by
  unfold inject
  rw [bind_eq_ok_iff]
  simp only [pure_eq_ok_iff]

theorem inject_database_iff (tools : ToolSet) : (database tools).inject c arguments = .ok result ↔
    ∃ tenant, c.tenant = some tenant ∧ ∃ fields, argumentFields arguments = .ok fields ∧
      .obj (putSome "_trace" (c.trace.map Wire.toJson) (fields.put "tenant_id" (.str tenant))) =
        result := by
  unfold inject
  simp only [bind_eq_ok_iff, pure_eq_ok_iff, Context.requireTenant_eq_ok_iff]

theorem inject_filesystem_iff (root : RawPath) (tools : ToolSet) :
    (filesystem root tools).inject c arguments = .ok result ↔
    ∃ tenant, c.tenant = some tenant ∧ isDirectoryName tenant = true ∧
      ∃ fields, argumentFields arguments = .ok fields ∧
        .obj ((fields.put "tenant_id" (.str tenant)).put "tenant_root"
          (.str (root.join tenant).lossyText)) = result := by
  unfold inject
  rw [bind_eq_ok_iff]
  refine exists_congr fun tenant => and_congr (c.requireTenant_eq_ok_iff tenant) ?_
  by_cases hname : isDirectoryName tenant = true
  · simp only [hname, if_true, true_and, bind_eq_ok_iff, pure_eq_ok_iff]
  · rw [if_neg hname]
    exact iff_of_false throw_ne_ok fun h => hname h.1

theorem inject_http_iff (tools : ToolSet) : (http tools).inject c arguments = .ok result ↔
    ∃ fields, argumentFields arguments = .ok fields ∧
      ∃ headers, headerFields (fields.lookup "headers") = .ok headers ∧
        .obj (fields.put "headers" (.obj (putHeaders c headers))) = result := by
  unfold inject
  simp only [bind_eq_ok_iff, pure_eq_ok_iff]

end

end BuiltIn

end Injection

end Relay
