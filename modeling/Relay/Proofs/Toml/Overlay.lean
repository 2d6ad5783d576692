import Relay.Toml

/-!
# What an overlay says of a path

A path of keys leads through tables to a value.

* `Toml.at?`       the value at a path;
* `Toml.Touches`   a value has a say in what is at a path: it has something there, or something on the
                   way that is no table;
* `Toml.Sorted`    tables are sorted by key, and so are the tables in them;
* `Toml.LastSays`  of the values that touch a path, the last one has a given value there.

What the overlay has at a path is laid over what was there (`at?_overlay_of_some`). So where it touches a
path it decides whether a plain value is there (`at?_overlay_of_touches`), and elsewhere everything is as
it was (`at?_overlay_of_untouched`). All need the overlay to have each key once, which is what `Sorted` is
for; `Sorted.overlay` keeps it. Of values that are laid over each other, the last one that touches a path
decides (`at?_foldl_overlay`).
-/

namespace Relay.Toml

def isTable : Toml → Bool
  | table _ => true
  | _ => false

/-- the value that a path leads to -/
def at? : (path : List String) → Toml → Option Toml
  | [], v => some v
  | key :: path, table fields => (fields.lookup key).bind (at? path)
  | _ :: _, _ => none

/-- something at a path, or on the way to it and not a table -/
def Touches (v : Toml) (path : List String) : Prop :=
  (v.at? path).isSome ∨
    ∃ front, front <+: path ∧ front ≠ path ∧ ∃ w, v.at? front = some w ∧ w.isTable = false

/-- every table is sorted, down to what is no table -/
inductive Sorted : Toml → Prop
  | leaf {v : Toml} (h : v.isTable = false) : Sorted v
  | table {fields : List (String × Toml)} (sorted : Table.Sorted fields)
      (inner : ∀ f ∈ fields, Sorted f.2) : Sorted (table fields)

/-! ## paths -/

section
variable {key : String} {path : List String} {fields : List (String × Toml)} {v : Toml}

theorem exists_fields_of_isTable (h : v.isTable = true) : ∃ fields, v = table fields := by
  cases v with
  | table fields => exact ⟨fields, rfl⟩
  | string | integer | float | boolean | moment | array => cases h

theorem at?_cons_of_leaf (h : v.isTable = false) : v.at? (key :: path) = none := by
  cases v with
  | table fields => cases h
  | string | integer | float | boolean | moment | array => rfl

theorem at?_table_cons : (table fields).at? (key :: path) = (fields.lookup key).bind (at? path) := rfl

theorem touches_of_leaf (h : v.isTable = false) (path : List String) : v.Touches path := by
  cases path with
  | nil => exact .inl rfl
  | cons key path => exact .inr ⟨[], List.nil_prefix, by simp, v, rfl, h⟩

theorem touches_table_cons : (table fields).Touches (key :: path) ↔
    ∃ w, fields.lookup key = some w ∧ w.Touches path := by
  constructor
  · rintro (hsome | ⟨front, hfront, hne, u, hu, hleaf⟩)
    · obtain ⟨u, hu⟩ := Option.isSome_iff_exists.mp hsome
      obtain ⟨w, hw, hat⟩ := Option.bind_eq_some_iff.mp hu
      exact ⟨w, hw, .inl (Option.isSome_iff_exists.mpr ⟨u, hat⟩)⟩
    · cases front with
      | nil =>
        obtain rfl := Option.some.inj hu
        cases hleaf
      | cons key' front =>
        obtain ⟨rfl, hfront'⟩ := List.cons_prefix_cons.mp hfront
        obtain ⟨w, hw, hat⟩ := Option.bind_eq_some_iff.mp hu
        have hne' : front ≠ path := fun e => hne (e ▸ rfl)
        exact ⟨w, hw, .inr ⟨front, hfront', hne', u, hat, hleaf⟩⟩
  · rintro ⟨w, hw, hsome | ⟨front, hfront, hne, u, hu, hleaf⟩⟩
    · refine .inl ?_
      show ((fields.lookup key).bind (at? path)).isSome
      rw [hw]
      exact hsome
    · refine .inr ⟨key :: front, List.cons_prefix_cons.mpr ⟨rfl, hfront⟩, ?_, u, ?_, hleaf⟩
      · intro e
        exact hne (List.cons.inj e).2
      · show (fields.lookup key).bind (at? front) = some u
        rw [hw]
        exact hu

theorem at?_append {front more : List String} : v.at? (front ++ more) = (v.at? front).bind (at? more) := by
  induction front generalizing v with
  | nil => rfl
  | cons key front ih =>
    cases hleaf : v.isTable with
    | false => rw [List.cons_append, at?_cons_of_leaf hleaf, at?_cons_of_leaf hleaf, Option.bind_none]
    | true =>
      obtain ⟨fields, rfl⟩ := exists_fields_of_isTable hleaf
      rw [List.cons_append, at?_table_cons, at?_table_cons, Option.bind_assoc]
      exact congrArg _ (funext fun v => ih)

/-- nothing lies behind what is no table -/
theorem at?_of_leaf_before {front : List String} {u : Toml} (h : v.at? front = some u)
    (hleaf : u.isTable = false) (hfront : front <+: path) (hne : front ≠ path) : v.at? path = none := by
  obtain ⟨more, rfl⟩ := hfront
  cases more with
  | nil => exact absurd (List.append_nil front).symm hne
  | cons key more => rw [at?_append, h, Option.bind_some, at?_cons_of_leaf hleaf]

theorem at?_of_untouched (h : ¬v.Touches path) : v.at? path = none := by
  rw [← Option.not_isSome_iff_eq_none]
  exact fun hsome => h (.inl hsome)

end

/-! ## overlays -/

section
variable {key : String} {path : List String} {below fields : List (String × Toml)} {base above v w : Toml}

theorem overlay_of_leaf (h : above.isTable = false) : base.overlay above = above := by
  cases above with
  | table fields => cases h
  | string | integer | float | boolean | moment | array => simp [overlay]

theorem overlay_table_of_leaf (h : base.isTable = false) : base.overlay (table fields) = table fields := by
  cases base with
  | table below => cases h
  | string | integer | float | boolean | moment | array => simp [overlay]

theorem isTable_overlay : (base.overlay above).isTable = above.isTable := by
  cases habove : above.isTable with
  | false => rw [overlay_of_leaf habove, habove]
  | true =>
    obtain ⟨fields, rfl⟩ := exists_fields_of_isTable habove
    cases hbase : base.isTable with
    | false =>
      rw [overlay_table_of_leaf hbase]
      rfl
    | true =>
      obtain ⟨below, rfl⟩ := exists_fields_of_isTable hbase
      rw [overlay_table]
      rfl

/-- a value laid over what there may be below it -/
def laidOver : Option Toml → Toml → Toml
  | some under, w => under.overlay w
  | none, w => w

theorem laidOver_of_leaf (under : Option Toml) (h : w.isTable = false) : laidOver under w = w := by
  cases under with
  | none => rfl
  | some under => exact overlay_of_leaf h

theorem isTable_laidOver (under : Option Toml) (w : Toml) : (laidOver under w).isTable = w.isTable := by
  cases under with
  | none => rfl
  | some under => exact isTable_overlay

theorem overlayFields_cons (below rest : List (String × Toml)) (key : String) (v : Toml) :
    overlayFields below ((key, v) :: rest) =
      overlayFields (Table.put key (laidOver (below.lookup key) v) below) rest := by
  rw [overlayFields]
  cases below.lookup key with
  | none => rfl
  | some under => rfl

/-- a key that the overlay has holds what the overlay says, laid over what was there -/
theorem lookup_overlayFields_of_some (h : Table.Sorted fields) (hw : fields.lookup key = some w) :
    (overlayFields below fields).lookup key = some (laidOver (below.lookup key) w) := by
  induction fields generalizing below with
  | nil => cases hw
  | cons f rest ih =>
    obtain ⟨k, u⟩ := f
    obtain ⟨hfirst, hrest⟩ := List.pairwise_cons.mp h
    rw [overlayFields_cons]
    rw [List.lookup_cons] at hw
    by_cases e : key = k
    · subst e
      rw [beq_self_eq_true] at hw
      obtain rfl := Option.some.inj hw
      have hlater : rest.lookup key = none := by
        rw [List.lookup_eq_none_iff]
        intro f hf
        refine bne_iff_ne.mpr fun e => ?_
        have hlt := hfirst f hf
        rw [← e] at hlt
        exact String.lt_irrefl _ hlt
      rw [lookup_overlayFields_of_none key rest _ hlater]
      exact Table.lookup_put_self key (laidOver (below.lookup key) u) below
    · rw [beq_false_of_ne e] at hw
      rw [ih hrest hw, Table.lookup_put_of_ne e]

/-- what the overlay has at a path is laid over what was there -/
theorem at?_overlay_of_some (hsorted : above.Sorted) (h : above.at? path = some w) :
    (base.overlay above).at? path = some (laidOver (base.at? path) w) := by
  induction path generalizing base above with
  | nil =>
    obtain rfl := Option.some.inj h
    rfl
  | cons key path ih =>
    cases hsorted with
    | leaf hleaf =>
      rw [at?_cons_of_leaf hleaf] at h
      cases h
    | @table fields hsorted hinner =>
      cases hbase : base.isTable with
      | false =>
        rw [overlay_table_of_leaf hbase, at?_cons_of_leaf hbase]
        exact h
      | true =>
        obtain ⟨below, rfl⟩ := exists_fields_of_isTable hbase
        obtain ⟨u, hu, hw⟩ := Option.bind_eq_some_iff.mp h
        rw [overlay_table, at?_table_cons, at?_table_cons, lookup_overlayFields_of_some hsorted hu]
        cases hunder : below.lookup key with
        | none => exact hw
        | some under => exact ih (hinner _ (Table.mem_of_lookup hsorted hu)) hw

theorem at?_overlay_of_untouched (hsorted : above.Sorted) (h : ¬above.Touches path) :
    (base.overlay above).at? path = base.at? path := by
  induction path generalizing base above with
  | nil => exact absurd (.inl rfl) h
  | cons key path ih =>
    cases hsorted with
    | leaf hleaf => exact absurd (touches_of_leaf hleaf _) h
    | @table fields hsorted hinner =>
      rw [touches_table_cons] at h
      cases hbase : base.isTable with
      | false =>
        rw [overlay_table_of_leaf hbase, at?_cons_of_leaf hbase, at?_table_cons, Option.bind_eq_none_iff]
        intro w hw
        exact at?_of_untouched fun htouches => h ⟨w, hw, htouches⟩
      | true =>
        obtain ⟨below, rfl⟩ := exists_fields_of_isTable hbase
        rw [overlay_table, at?_table_cons, at?_table_cons]
        cases hw : fields.lookup key with
        | none => rw [lookup_overlayFields_of_none key fields below hw]
        | some w =>
          have huntouched : ¬w.Touches path := fun htouches => h ⟨w, hw, htouches⟩
          rw [lookup_overlayFields_of_some hsorted hw]
          cases hunder : below.lookup key with
          | none => exact at?_of_untouched huntouched
          | some under => exact ih (hinner _ (Table.mem_of_lookup hsorted hw)) huntouched

/-- what is touched is decided by the overlay: it has something there, or hides what was there -/
theorem Touches.at?_overlay (base : Toml) (hsorted : above.Sorted) (h : above.Touches path) :
    (∃ w, above.at? path = some w ∧ (base.overlay above).at? path = some (laidOver (base.at? path) w)) ∨
      above.at? path = none ∧ (base.overlay above).at? path = none := by
  rcases h with hsome | ⟨front, hfront, hne, u, hu, hleaf⟩
  · obtain ⟨w, hw⟩ := Option.isSome_iff_exists.mp hsome
    exact .inl ⟨w, hw, at?_overlay_of_some hsorted hw⟩
  · have hover : (base.overlay above).at? front = some u := by
      rw [at?_overlay_of_some hsorted hu, laidOver_of_leaf _ hleaf]
    exact .inr ⟨at?_of_leaf_before hu hleaf hfront hne, at?_of_leaf_before hover hleaf hfront hne⟩

theorem at?_overlay_of_touches (hsorted : above.Sorted) (h : above.Touches path)
    (hv : v.isTable = false) : (base.overlay above).at? path = some v ↔ above.at? path = some v := by
  rcases h.at?_overlay base hsorted with ⟨w, hw, hover⟩ | ⟨habove, hover⟩
  · rw [hw, hover]
    cases hleaf : w.isTable with
    | false => rw [laidOver_of_leaf _ hleaf]
    | true =>
      -- a table laid over anything is a table
      refine iff_of_false (fun e => ?_) (fun e => ?_)
      · rw [← Option.some.inj e, isTable_laidOver, hleaf] at hv
        cases hv
      · rw [← Option.some.inj e, hleaf] at hv
        cases hv
  · rw [habove, hover]

end

/-! ## key order -/

section
variable {base above : Toml} {entries : List (String × Toml)}

theorem sorted_emptyTable : Sorted emptyTable :=
  .table Table.sorted_nil fun _ h => absurd h List.not_mem_nil

theorem Sorted.fields (h : Sorted (Toml.table entries)) :
    Table.Sorted entries ∧ ∀ f ∈ entries, Sorted f.2 := by
  cases h with
  | leaf h => cases h
  | table sorted inner => exact ⟨sorted, inner⟩

theorem Sorted.put {key : String} {v : Toml} (hv : Sorted v) (h : Sorted (Toml.table entries)) :
    Sorted (Toml.table (Table.put key v entries)) := by
  obtain ⟨hsorted, hinner⟩ := h.fields
  refine .table (Table.sorted_put key v hsorted) fun f hf => ?_
  rcases Table.mem_put hf with rfl | hf
  · exact hv
  · exact hinner f hf

/-- fields are laid over a table one by one -/
theorem Sorted.overlayFields {below : List (String × Toml)} (hbelow : Sorted (Toml.table below))
    (hinner : ∀ f ∈ entries, Sorted f.2)
    (hlaid : ∀ f ∈ entries, ∀ {under : Toml}, Sorted under → Sorted (under.overlay f.2)) :
    Sorted (Toml.table (Toml.overlayFields below entries)) := by
  induction entries generalizing below with
  | nil =>
    rw [Toml.overlayFields]
    exact hbelow
  | cons f rest ih =>
    obtain ⟨key, v⟩ := f
    have hvalue : Sorted (laidOver (below.lookup key) v) := by
      cases hunder : below.lookup key with
      | none => exact hinner _ List.mem_cons_self
      | some under =>
        obtain ⟨hsorted, hin⟩ := hbelow.fields
        exact hlaid _ List.mem_cons_self (hin _ (Table.mem_of_lookup hsorted hunder))
    rw [overlayFields_cons]
    exact ih (Sorted.put hvalue hbelow) (fun f hf => hinner f (List.mem_cons_of_mem _ hf))
      (fun f hf => hlaid f (List.mem_cons_of_mem _ hf))

theorem Sorted.overlay (hbase : Sorted base) (habove : Sorted above) : Sorted (base.overlay above) := by
  induction habove generalizing base with
  | leaf h =>
    rw [overlay_of_leaf h]
    exact .leaf h
  | @table fields hsorted hinner ih =>
    cases hbase with
    | leaf h =>
      rw [overlay_table_of_leaf h]
      exact .table hsorted hinner
    | table hbelow hin =>
      rw [overlay_table]
      exact Sorted.overlayFields (.table hbelow hin) hinner ih

end

/-! ## layers -/

/-- of the values that touch a path, the last one has this at the path -/
def LastSays (layers : List Toml) (path : List String) (v : Toml) : Prop :=
  ∃ before w after, layers = before ++ w :: after ∧ w.Touches path ∧ w.at? path = some v ∧
    ∀ u ∈ after, ¬u.Touches path

section
variable {base above v w : Toml} {layers : List Toml} {key : String} {path : List String}

theorem lastSays_cons : LastSays (w :: layers) path v ↔
    LastSays layers path v ∨
      w.Touches path ∧ w.at? path = some v ∧ ∀ u ∈ layers, ¬u.Touches path := by
  constructor
  · rintro ⟨before, u, after, hsplit, htouches, hat, hafter⟩
    cases before with
    | nil =>
      obtain ⟨rfl, rfl⟩ := List.cons.inj hsplit
      exact .inr ⟨htouches, hat, hafter⟩
    | cons _ before => exact .inl ⟨before, u, after, (List.cons.inj hsplit).2, htouches, hat, hafter⟩
  · rintro (⟨before, u, after, rfl, hlast⟩ | ⟨htouches, hat, hlayers⟩)
    · exact ⟨w :: before, u, after, rfl, hlast⟩
    · exact ⟨[], w, layers, rfl, htouches, hat, hlayers⟩

theorem not_lastSays_nil : ¬LastSays [] path v := by
  rintro ⟨before, _, _, hsplit, _⟩
  exact List.append_ne_nil_of_right_ne_nil before (List.cons_ne_nil _ _) hsplit.symm

theorem lastSays_append {more : List Toml} : LastSays (layers ++ more) path v ↔
    LastSays more path v ∨ LastSays layers path v ∧ ∀ u ∈ more, ¬u.Touches path := by
  induction layers with
  | nil => simp only [List.nil_append, not_lastSays_nil, false_and, or_false]
  | cons w rest ih =>
    simp only [List.cons_append, lastSays_cons, ih, List.forall_mem_append, or_and_right, or_assoc,
      and_assoc]

theorem lastSays_singleton : LastSays [w] path v ↔ w.Touches path ∧ w.at? path = some v := by
  simp only [lastSays_cons, not_lastSays_nil, List.not_mem_nil, false_imp_iff, implies_true, and_true,
    false_or]

/-- one value laid over the other, the last that touches a path decides on the plain value at it -/
theorem at?_foldl_overlay (hsorted : ∀ u ∈ layers, u.Sorted) (hv : v.isTable = false) :
    (layers.foldl overlay base).at? path = some v ↔
      LastSays layers path v ∨ (∀ u ∈ layers, ¬u.Touches path) ∧ base.at? path = some v := by
  induction layers generalizing base with
  | nil => simp [not_lastSays_nil]
  | cons w rest ih =>
    obtain ⟨hw, hrest⟩ := List.forall_mem_cons.mp hsorted
    rw [List.foldl_cons, ih hrest, lastSays_cons, List.forall_mem_cons]
    by_cases htouches : w.Touches path
    · rw [at?_overlay_of_touches hw htouches hv]
      simp only [htouches, not_true_eq_false, false_and, or_false, true_and, and_comm]
    · rw [at?_overlay_of_untouched hw htouches]
      simp only [htouches, not_false_eq_true, true_and, false_and, or_false]

/-- an overlay touches nothing of its own -/
theorem Touches.of_overlay (hsorted : above.Sorted) (h : (base.overlay above).Touches path) :
    base.Touches path ∨ above.Touches path := by
  rcases h with hsome | ⟨front, hfront, hne, u, hu, hleaf⟩
  · by_cases habove : above.Touches path
    · exact .inr habove
    · rw [at?_overlay_of_untouched hsorted habove] at hsome
      exact .inl (.inl hsome)
  · by_cases habove : above.Touches front
    · rw [at?_overlay_of_touches hsorted habove hleaf] at hu
      exact .inr (.inr ⟨front, hfront, hne, u, hu, hleaf⟩)
    · rw [at?_overlay_of_untouched hsorted habove] at hu
      exact .inl (.inr ⟨front, hfront, hne, u, hu, hleaf⟩)

theorem Touches.of_foldl_overlay (hsorted : ∀ u ∈ layers, u.Sorted)
    (h : (layers.foldl overlay base).Touches path) :
    base.Touches path ∨ ∃ u ∈ layers, u.Touches path := by
  induction layers generalizing base with
  | nil => exact .inl h
  | cons w rest ih =>
    obtain ⟨hw, hrest⟩ := List.forall_mem_cons.mp hsorted
    rcases ih hrest h with h | ⟨u, hu, htouches⟩
    · rcases h.of_overlay hw with h | h
      · exact .inl h
      · exact .inr ⟨w, List.mem_cons_self, h⟩
    · exact .inr ⟨u, List.mem_cons_of_mem _ hu, htouches⟩

theorem untouched_emptyTable : ¬emptyTable.Touches (key :: path) := by
  intro h
  obtain ⟨w, hw, _⟩ := touches_table_cons.mp h
  cases hw

theorem at?_singleton_overlay (hbase : base.at? [key] = none) (habove : above.at? [key] = none) :
    (base.overlay above).at? [key] = none := by
  cases hleaf : above.isTable with
  | false => rw [overlay_of_leaf hleaf, habove]
  | true =>
    obtain ⟨fields, rfl⟩ := exists_fields_of_isTable hleaf
    cases hunder : base.isTable with
    | false => rw [overlay_table_of_leaf hunder, habove]
    | true =>
      obtain ⟨below, rfl⟩ := exists_fields_of_isTable hunder
      have hlookup : fields.lookup key = none := Option.bind_fun_some (fields.lookup key) ▸ habove
      rw [overlay_table]
      show ((overlayFields below fields).lookup key).bind some = none
      rw [lookup_overlayFields_of_none key fields below hlookup]
      exact hbase

end

end Relay.Toml
