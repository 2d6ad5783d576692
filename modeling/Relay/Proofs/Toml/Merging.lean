import Mathlib
import Relay.Proofs.Toml.Sorted

/-!
# The law of paths

`Merges` says of every path where the plain values and the tables of an overlay are from: from the overlay
where it touches the path, and from what is below it everywhere else.

Sorted values are told by where their plain values and their tables are (`Sorted.eq_of_alike`), so that
what an overlay comes to the second time is read off the paths: whatever it touches is its own already.
-/

namespace Relay.Toml

/-- a path leads to a table -/
def HasTable (v : Toml) (path : List String) : Prop :=
  ∃ fields, v.at? path = some (table fields)

/-- values with the same plain values and with tables at the same paths -/
structure Alike (v w : Toml) : Prop where
  plain : ∀ path u, u.isTable = false → (v.at? path = some u ↔ w.at? path = some u)
  tables : ∀ path, v.HasTable path ↔ w.HasTable path

section
variable {path : List String} {base above v u : Toml}

theorem hasTable_of_at? (h : v.at? path = some u) : v.HasTable path ↔ u.isTable = true := by
  rw [HasTable, h]
  constructor
  · rintro ⟨fields, hu⟩
    rw [Option.some.inj hu]
    rfl
  · intro hu
    obtain ⟨fields, rfl⟩ := exists_fields_of_isTable hu
    exact ⟨fields, rfl⟩

theorem hasTable_overlay_of_touches (habove : above.Sorted) (h : above.Touches path) :
    (base.overlay above).HasTable path ↔ above.HasTable path := by
  rcases h.at?_overlay base habove with ⟨w, hw, hover⟩ | ⟨hnone, hover⟩
  · rw [hasTable_of_at? hw, hasTable_of_at? hover, isTable_laidOver]
  · rw [HasTable, HasTable, hnone, hover]

end

/-! ## values told by their paths -/

section
variable {key : String} {path : List String} {fields others : List (String × Toml)} {v w u : Toml}

theorem Alike.symm (h : Alike v w) : Alike w v :=
  ⟨fun path u hu => (h.plain path u hu).symm, fun path => (h.tables path).symm⟩

/-- alike values have something at the same paths -/
theorem Alike.exists_at? (h : Alike v w) (hu : v.at? path = some u) : ∃ u', w.at? path = some u' := by
  cases hleaf : u.isTable with
  | false => exact ⟨u, (h.plain path u hleaf).mp hu⟩
  | true =>
    obtain ⟨fields, hfields⟩ := (h.tables path).mp ((hasTable_of_at? hu).mpr hleaf)
    exact ⟨table fields, hfields⟩

theorem Alike.lookup (h : Alike (table fields) (table others)) (hv : fields.lookup key = some v) :
    ∃ w, others.lookup key = some w ∧ Alike v w := by
  have hat : (table fields).at? [key] = some v := by
    rw [at?_table_cons, hv]
    rfl
  obtain ⟨w, hw⟩ := h.exists_at? hat
  replace hw : others.lookup key = some w := (Option.bind_fun_some _).symm.trans hw
  have hinner : ∀ path, v.at? path = (table fields).at? (key :: path) ∧
      w.at? path = (table others).at? (key :: path) := by
    intro path
    rw [at?_table_cons, at?_table_cons, hv, hw]
    exact ⟨rfl, rfl⟩
  refine ⟨w, hw, ?_, ?_⟩
  · intro path u hu
    rw [(hinner path).1, (hinner path).2]
    exact h.plain (key :: path) u hu
  · intro path
    rw [HasTable, HasTable, (hinner path).1, (hinner path).2]
    exact h.tables (key :: path)

/-- **a sorted value is told by where its plain values and its tables are** -/
theorem Sorted.eq_of_alike (hv : v.Sorted) (hw : w.Sorted) (h : Alike v w) : v = w := by
  induction hv generalizing w with
  | @leaf v hleaf => exact (Option.some.inj ((h.plain [] v hleaf).mp rfl)).symm
  | @table fields hsorted hinner ih =>
    obtain ⟨others, hothers⟩ := (h.tables []).mp ⟨fields, rfl⟩
    obtain rfl := Option.some.inj hothers
    obtain ⟨hsorted', hinner'⟩ := hw.fields
    refine congrArg Toml.table (Table.Sorted.eq_of_lookup hsorted hsorted' fun key => ?_)
    cases hu : fields.lookup key with
    | none =>
      cases hu' : others.lookup key with
      | none => rfl
      | some u' =>
        obtain ⟨u, hlookup, -⟩ := h.symm.lookup hu'
        rw [hu] at hlookup
        cases hlookup
    | some u =>
      obtain ⟨u', hu', halike⟩ := h.lookup hu
      have hsame : u = u' := ih _ (Table.mem_of_lookup hsorted hu)
        (hinner' _ (Table.mem_of_lookup hsorted' hu')) halike
      rw [hu', hsame]

end

/-! ## the law -/

/-- **what is at a path once `above` is laid over `base`** -/
structure Merges (base above : Toml) : Prop where
  plain : ∀ path v, v.isTable = false → ((base.overlay above).at? path = some v ↔
    above.at? path = some v ∨ ¬above.Touches path ∧ base.at? path = some v)
  tables : ∀ path, (base.overlay above).HasTable path ↔
    above.HasTable path ∨ ¬above.Touches path ∧ base.HasTable path
  /-- the second time nothing changes -/
  again : (base.overlay above).overlay above = base.overlay above
  /-- a table with no fields changes no table -/
  empty : base.isTable = true → base.overlay emptyTable = base

section
variable {path : List String} {base above v : Toml}

theorem at?_overlay_iff (habove : above.Sorted) (hv : v.isTable = false) :
    (base.overlay above).at? path = some v ↔
      above.at? path = some v ∨ ¬above.Touches path ∧ base.at? path = some v := by
  by_cases h : above.Touches path
  · rw [at?_overlay_of_touches habove h hv]
    exact (or_iff_left fun hnot => hnot.1 h).symm
  · rw [at?_overlay_of_untouched habove h, at?_of_untouched h]
    simp [h]

theorem hasTable_overlay_iff (habove : above.Sorted) : (base.overlay above).HasTable path ↔
    above.HasTable path ∨ ¬above.Touches path ∧ base.HasTable path := by
  by_cases h : above.Touches path
  · rw [hasTable_overlay_of_touches habove h]
    exact (or_iff_left fun hnot => hnot.1 h).symm
  · rw [HasTable, HasTable, HasTable, at?_overlay_of_untouched habove h, at?_of_untouched h]
    simp [h]

theorem overlay_emptyTable (h : base.isTable = true) : base.overlay emptyTable = base := by
  obtain ⟨fields, rfl⟩ := exists_fields_of_isTable h
  rw [emptyTable, overlay_table, overlayFields]

/-- an overlay has its own say already where it has been laid -/
theorem alike_overlay_overlay (habove : above.Sorted) :
    Alike ((base.overlay above).overlay above) (base.overlay above) := by
  have habsorb : ∀ {own touches below : Prop},
      own ∨ ¬touches ∧ (own ∨ ¬touches ∧ below) ↔ own ∨ ¬touches ∧ below := by tauto
  constructor
  case plain =>
    intro path v hv
    rw [at?_overlay_iff habove hv, at?_overlay_iff habove hv, habsorb]
  case tables =>
    intro path
    rw [hasTable_overlay_iff habove, hasTable_overlay_iff habove, habsorb]

theorem overlay_merges (hbase : base.Sorted) (habove : above.Sorted) : Merges base above where
  plain _ _ hv := at?_overlay_iff habove hv
  tables _ := hasTable_overlay_iff habove
  again := ((hbase.overlay habove).overlay habove).eq_of_alike (hbase.overlay habove)
    (alike_overlay_overlay habove)
  empty := overlay_emptyTable

end

namespace Nested

def base : Toml :=
  .table [("a", .table [("x", .integer 1), ("y", .integer 2)]), ("b", .table [("z", .integer 5)])]

def above : Toml :=
  .table [("a", .table [("y", .integer 3), ("z", .integer 4)]), ("b", .boolean true)]

theorem parse_base : parse? "[a]\nx = 1\ny = 2\n[b]\nz = 5" = some base := by cbv

theorem parse_above : parse? "b = true\n[a]\ny = 3\nz = 4" = some above := by cbv

end Nested

/-- a table is laid over a table, and a plain value takes the place of one -/
theorem overlay_merges_nested :
    Nested.base.Sorted ∧ Nested.above.Sorted ∧ Merges Nested.base Nested.above ∧
    Nested.base.overlay Nested.above = .table
      [("a", .table [("x", .integer 1), ("y", .integer 3), ("z", .integer 4)]), ("b", .boolean true)] := by
  have hbase : Nested.base.Sorted := sorted_of_parse? Nested.parse_base
  have habove : Nested.above.Sorted := sorted_of_parse? Nested.parse_above
  exact ⟨hbase, habove, overlay_merges hbase habove, by cbv⟩

end Relay.Toml
