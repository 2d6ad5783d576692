import Relay.Wire

/-!
# Reading back what was written

A record is written field by field, and some fields only if there is something in them. `Slots` lists all
fields that a record may have, each with its form if it is written; the row that is read back from them
gives for a name the value of its slot (`given_ofSlots`), for the names are different.

* `Wire.Faithful` a value is read back as it was written;
* `Row.Holds`     a row gives for each slot what is written in it.

A written record is read as such a row (`holds_ofSlots`), and so is what is left of it once its tag has
been taken out (`exists_untagged`). `Holds.required`, `Holds.defaulted`, `Holds.optional` and
`Holds.elective` read one field of it back, also where another value is read than was written.
-/

namespace Relay

/-- a value, unless it is null -/
def Json.nonNull? : Json → Option Json
  | null => none
  | v => some v

namespace Wire

variable {α : Type} [Wire α]

/-- read back as it was written -/
def Faithful (a : α) : Prop := ofJson? (toJson a) = some a

end Wire

/-- the fields that a record may have -/
abbrev Slots := List (String × Option Form)

namespace Slots

/-- the fields that are written -/
def written (ps : Slots) : List (String × Form) := ps.filterMap fun p => p.2.map (p.1, ·)

theorem written_cons (p : String × Option Form) (ps : Slots) :
    written (p :: ps) = (p.2.map (p.1, ·)).toList ++ ps.written := by
  unfold written
  rw [List.filterMap_cons]
  cases p.2 <;> rfl

theorem written_append (ps qs : Slots) : written (ps ++ qs) = ps.written ++ qs.written :=
  List.filterMap_append

section
variable {α : Type} [Wire α]

theorem field_eq (name : String) (a : α) :
    Wire.field name a = written [(name, some (Wire.form a))] := rfl

theorem fieldIfSome_eq (name : String) (o : Option α) :
    Wire.fieldIfSome name o = written [(name, o.map Wire.form)] := by
  cases o <;> rfl

/-- the form of a list that is written if it has items -/
def ofList (as : List α) : Option Form :=
  if as.isEmpty then none else some (.list (as.map Wire.form))

theorem fieldIfAny_eq (name : String) (as : List α) :
    Wire.fieldIfAny name as = written [(name, ofList as)] := by
  cases as <;> rfl

/-- the form of a flag that is written if it is set -/
def ofFlag (b : Bool) : Option Form := if b then some (.bool true) else none

theorem fieldIfTrue_eq (name : String) (b : Bool) :
    Wire.fieldIfTrue name b = written [(name, ofFlag b)] := by
  cases b <;> rfl

/-- the form of a field that is null if it is not there -/
def orNull (o : Option α) : Form := (o.map Wire.form).getD (.payload .null)

theorem fieldOrNull_eq (name : String) (o : Option α) :
    Wire.fieldOrNull name o = written [(name, some (orNull o))] := by
  cases o <;> rfl

theorem fieldList_eq (name : String) (as : List α) :
    Wire.fieldList name as = written [(name, some (.list (as.map Wire.form)))] := rfl

end

/-! ## the row of a record -/

theorem map_fst_fieldsJson (fs : List (String × Form)) :
    (Form.fieldsJson fs).map Prod.fst = fs.map Prod.fst := by
  induction fs with
  | nil => rfl
  | cons f fs ih => exact congrArg (f.1 :: ·) ih

theorem lookup_fieldsJson (fs : List (String × Form)) (name : String) :
    (Form.fieldsJson fs).lookup name = (fs.lookup name).map Form.json := by
  induction fs with
  | nil => rfl
  | cons f fs ih =>
    obtain ⟨k, f⟩ := f
    unfold Form.fieldsJson
    rw [List.lookup_cons, List.lookup_cons, ih]
    cases name == k <;> rfl

theorem fst_mem_written {ps : Slots} {b : String × Form} (h : b ∈ ps.written) :
    b.1 ∈ ps.map Prod.fst := by
  obtain ⟨p, hp, hb⟩ := List.mem_filterMap.mp h
  obtain ⟨f, _, rfl⟩ := Option.map_eq_some_iff.mp hb
  exact List.mem_map_of_mem hp

variable {ps : Slots} (h : (ps.map Prod.fst).Nodup)
include h

theorem nodup_written : (ps.written.map Prod.fst).Nodup := by
  induction ps with
  | nil => exact List.nodup_nil
  | cons p ps ih =>
    obtain ⟨hp, hps⟩ := List.nodup_cons.mp h
    rw [written_cons]
    cases p.2 with
    | none => exact ih hps
    | some f =>
      refine List.nodup_cons.mpr ⟨fun hm => ?_, ih hps⟩
      obtain ⟨b, hb, he⟩ := List.mem_map.mp hm
      exact hp (he ▸ fst_mem_written hb)

theorem lookup_written (name : String) : ps.written.lookup name = (ps.lookup name).join := by
  induction ps with
  | nil => rfl
  | cons p ps ih =>
    obtain ⟨k, o⟩ := p
    obtain ⟨hk, hps⟩ := List.nodup_cons.mp h
    rw [written_cons, List.lookup_cons]
    by_cases e : name = k
    · subst e
      rw [beq_self_eq_true]
      cases o with
      | some f => exact List.lookup_cons_self
      | none =>
        refine List.lookup_eq_none_iff.mpr fun b hb => ?_
        exact bne_iff_ne.mpr fun he => hk (he ▸ fst_mem_written hb)
    · rw [beq_false_of_ne e]
      cases o with
      | none => exact ih hps
      | some f =>
        show ((k, f) :: written ps).lookup name = _
        rw [List.lookup_cons, beq_false_of_ne e]
        exact ih hps

end Slots

namespace Row

/-- the row of a written record -/
def ofSlots (ps : Slots) : Row Json := ⟨Table.ofList (Form.fieldsJson ps.written), false⟩

theorem read?_written (names : List String) (ps : Slots) :
    Row.read? names (Form.record ps.written).json = some (ofSlots ps) := by
  unfold Form.json
  rfl

/-- a row that gives for each slot what is written in it -/
def Holds (r : Row Json) (ps : Slots) : Prop :=
  ∀ name f?, ps.lookup name = some f? → r.given name = (f?.map Form.json).toList

section
variable {ps : Slots} (h : (ps.map Prod.fst).Nodup)
include h

theorem given_ofSlots (name : String) :
    (ofSlots ps).given name = ((ps.lookup name).join.map Form.json).toList := by
  have hnodup : ((Form.fieldsJson ps.written).map Prod.fst).Nodup := by
    rw [Slots.map_fst_fieldsJson]
    exact Slots.nodup_written h
  show ((Table.ofList (Form.fieldsJson ps.written)).filter (·.1 == name)).map Prod.snd = _
  rw [Table.filter_key (Table.keys_nodup (Table.sorted_ofList _)), Table.lookup_ofList _ hnodup,
    Slots.lookup_fieldsJson, Slots.lookup_written h]

theorem holds_ofSlots : (ofSlots ps).Holds ps := by
  intro name f? hl
  rw [given_ofSlots h, hl]
  rfl

end

/-- a record is read from what it holds -/
theorem read_written (ps : Slots) (h : (ps.map Prod.fst).Nodup) {names : List String} {α : Type}
    {read : Row Json → Option α} {a : α} (hread : ∀ r : Row Json, r.Holds ps → read r = some a) :
    (read? names (Form.record ps.written).json).bind read = some a := by
  rw [read?_written]
  exact hread _ (holds_ofSlots h)

/-! ## tagged records -/

/-- the fields that a written record may have beside its tag -/
abbrev tagged (key variant : String) (ps : Slots) : Slots := (key, some (.str variant)) :: ps

/-- the row of a written record without its tag -/
def untagged (key variant : String) (ps : Slots) : Row Json :=
  ⟨(ofSlots (tagged key variant ps)).fields.filter (·.1 != key), false⟩

section
variable {key variant : String} {variants : List String} {ps : Slots}

theorem holds_untagged (h : ((tagged key variant ps).map Prod.fst).Nodup) :
    (untagged key variant ps).Holds ps := by
  intro name f? hl
  have hne : name ≠ key := by
    rintro rfl
    obtain ⟨before, after, rfl, -⟩ := List.lookup_eq_some_iff.mp hl
    exact (List.nodup_cons.mp h).1 (List.mem_map.mpr ⟨(name, f?), by simp, rfl⟩)
  have hwhole : (ofSlots (tagged key variant ps)).given name = (f?.map Form.json).toList := by
    refine holds_ofSlots h name f? ?_
    rw [List.lookup_cons, beq_false_of_ne hne]
    exact hl
  rw [← hwhole]
  show (List.filter _ (List.filter _ _)).map Prod.snd = _
  rw [List.filter_filter]
  refine congrArg (List.map Prod.snd) (List.filter_congr fun f _ => ?_)
  by_cases e : f.1 = name
  · simp [e, hne]
  · simp [e]

theorem untag?_obj (inside : Bool) {fs : List (String × Json)} {tag : Json}
    (htag : (fs.filter (·.1 == key)).map Prod.snd = [tag]) : untag? key variants inside (Json.obj fs) =
      (variant? variants inside tag).map (·, .fields (fs.filter (·.1 != key))) := by
  obtain ⟨⟨tagKey, tag⟩, htags, rfl⟩ := List.map_eq_singleton_iff.mp htag
  have hshape : Readable.shape (Json.obj fs) = .fields fs := rfl
  have husable : (Readable.payload? (Json.obj fs)).isNone = false := rfl
  unfold untag?
  simp only [hshape, husable, htags]
  rfl

end

/-- a tagged record is read from what it holds beside the tag -/
theorem exists_untagged (key variant : String) (variants : List String) (ps : Slots) (inside : Bool)
    (hv : variant ∈ variants) (h : ((tagged key variant ps).map Prod.fst).Nodup) :
    ∃ r : Row Json, r.Holds ps ∧
      untag? key variants inside (Form.record (Slots.written (tagged key variant ps))).json =
        some (variant, .fields r.fields) ∧ ∀ names, ofShape? names (.fields r.fields) = some r := by
  refine ⟨untagged key variant ps, holds_untagged h, ?_, fun _ => rfl⟩
  have htag : (ofSlots (tagged key variant ps)).given key = [Json.str variant] :=
    holds_ofSlots h key (some (.str variant)) List.lookup_cons_self
  unfold Form.json
  refine (untag?_obj inside htag).trans ?_
  show (if variant ∈ variants then some variant else none).map _ = _
  rw [if_pos hv]
  rfl

/-! ## fields -/

section
variable {r : Row Json} {ps : Slots} (h : r.Holds ps) {α : Type} (name : String)
include h

theorem Holds.required_form {f : Form} (hl : ps.lookup name = some (some f)) (read : Json → Option α) :
    r.required name read = read f.json := by
  unfold required
  rw [h name _ hl]
  rfl

theorem Holds.defaulted_form {f : Form} (hl : ps.lookup name = some (some f)) (read : Json → Option α)
    (default : α) : r.defaulted name read default = read f.json := by
  unfold defaulted
  rw [h name _ hl]
  rfl

theorem Holds.defaulted_absent (hl : ps.lookup name = some none) (read : Json → Option α) (default : α) :
    r.defaulted name read default = some default := by
  unfold defaulted
  rw [h name _ hl]
  rfl

/-- a flag that is written if it is set -/
theorem Holds.defaulted_flag {b : Bool} (hl : ps.lookup name = some (Slots.ofFlag b)) :
    r.defaulted name Wire.read false = some b := by
  cases b with
  | false => exact h.defaulted_absent name hl _ false
  | true => exact h.defaulted_form name hl _ false

/-- a field that is written if it is there; what is read may be absent nevertheless -/
theorem Holds.optional {o : Option α} {form : α → Form} {read : Json → Option α} {kept : α → Option α}
    (hl : ps.lookup name = some (o.map form))
    (ho : ∀ a ∈ o, readNullable read (form a).json = some (kept a)) :
    r.optional name read = some (o.bind kept) := by
  cases o with
  | none => exact h.defaulted_absent name hl _ none
  | some a => exact (h.defaulted_form name hl _ none).trans (ho a rfl)

variable [Wire α]

theorem Holds.required {a b : α} (hl : ps.lookup name = some (some (Wire.form a)))
    (hread : Wire.ofJson? (Wire.toJson a) = some b) : r.required name Wire.read = some b :=
  (h.required_form name hl Wire.read).trans hread

theorem Holds.defaulted {a b : α} (hl : ps.lookup name = some (some (Wire.form a)))
    (hread : Wire.ofJson? (Wire.toJson a) = some b) (default : α) :
    r.defaulted name Wire.read default = some b :=
  (h.defaulted_form name hl Wire.read default).trans hread

end

/-! ## absence and lists -/

section
variable {α : Type}

theorem readNullable_json (v : Json) : readNullable Wire.read (Wire.toJson v) = some v.nonNull? := by
  cases v <;> rfl

theorem readNullable_of_present {read : Json → Option α} {v : Json} {a : α} (hread : read v = some a)
    (hpresent : v.isNull = false) : readNullable read v = some (some a) := by
  unfold readNullable
  -- null would be read as absence, whatever the value is read as
  cases v with
  | null => cases hpresent
  | bool | num | str | arr | obj => exact congrArg (Option.map some) hread

variable [Wire α]

theorem readNullable_orNull {o : Option α} {kept : α → Option α}
    (ho : ∀ a ∈ o, readNullable Wire.read (Wire.toJson a) = some (kept a)) :
    readNullable Wire.read (Slots.orNull o).json = some (o.bind kept) := by
  cases o with
  | none =>
    show readNullable Wire.read (Form.payload .null).json = _
    unfold Form.json
    rfl
  | some a => exact ho a rfl

theorem readList_form {read : Json → Option α} {as : List α} {got : α → α}
    (has : ∀ a ∈ as, read (Wire.toJson a) = some (got a)) :
    readList read (Form.list (as.map Wire.form)).json = some (as.map got) := by
  unfold Form.json
  show (Form.itemsJson (as.map Wire.form)).mapM read = some (as.map got)
  induction as with
  | nil => rfl
  | cons a as ih =>
    show (Wire.toJson a :: Form.itemsJson (as.map Wire.form)).mapM read = _
    rw [List.mapM_cons, ih fun b hb => has b (List.mem_cons_of_mem _ hb), has a List.mem_cons_self]
    rfl

theorem readList_self {read : Json → Option α} {as : List α}
    (has : ∀ a ∈ as, read (Wire.toJson a) = some a) :
    readList read (Form.list (as.map Wire.form)).json = some as := by
  have hread := readList_form has
  rwa [List.map_id'] at hread

variable {r : Row Json} {ps : Slots} (h : r.Holds ps) (name : String)
include h

theorem Holds.optional_faithful {o : Option α} (hl : ps.lookup name = some (o.map Wire.form))
    (ho : ∀ a ∈ o, Wire.Faithful a ∧ (Wire.toJson a).isNull = false) :
    r.optional name Wire.read = some o :=
  Option.bind_fun_some o ▸ h.optional name hl fun a ha =>
    readNullable_of_present (ho a ha).1 (ho a ha).2

/-- a field that is null if it is not there, and may be left out -/
theorem Holds.optional_orNull {o : Option α} (hl : ps.lookup name = some (some (Slots.orNull o)))
    (ho : ∀ a ∈ o, Wire.Faithful a ∧ (Wire.toJson a).isNull = false) :
    r.optional name Wire.read = some o := by
  have hread := readNullable_orNull fun a ha => readNullable_of_present (ho a ha).1 (ho a ha).2
  rw [Option.bind_fun_some] at hread
  exact (h.defaulted_form name hl _ none).trans hread

/-- a field that is null if it is not there -/
theorem Holds.elective {o : Option α} {kept : α → Option α}
    (hl : ps.lookup name = some (some (Slots.orNull o)))
    (ho : ∀ a ∈ o, readNullable Wire.read (Wire.toJson a) = some (kept a)) :
    r.elective name Wire.read = some (o.bind kept) := by
  unfold Row.elective
  rw [h name _ hl]
  exact readNullable_orNull ho

omit [Wire α] in
/-- a value that is written if it is there -/
theorem Holds.optional_value {o : Option Json} (hl : ps.lookup name = some (o.map Wire.form))
    (ho : o ≠ some .null) : r.optional name Wire.read = some o := by
  refine h.optional_faithful name hl fun v hv => ⟨rfl, Bool.eq_false_iff.mpr fun hnull => ?_⟩
  exact ho (hv.trans (congrArg some ((Json.isNull_iff v).mp hnull)))

/-- a list that is written if it has items -/
theorem Holds.defaulted_list {as : List α} {got : α → α} (hl : ps.lookup name = some (Slots.ofList as))
    (has : ∀ a ∈ as, Wire.ofJson? (Wire.toJson a) = some (got a)) :
    r.defaulted name (readList Wire.read) [] = some (as.map got) := by
  cases as with
  | nil => exact h.defaulted_absent name hl _ []
  | cons a as => exact (h.defaulted_form name hl _ []).trans (readList_form has)

end

end Row

end Relay
