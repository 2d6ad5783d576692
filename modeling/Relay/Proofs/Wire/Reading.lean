import Relay.Proofs.Wire.Scalar

/-!
# What a field was read from

Whatever the reader of a record finds in a field it has read from a value of that name, or it is the
default (`Row.exists_of_required`, `Row.exists_of_defaulted`, `Row.exists_of_optional`,
`Row.exists_of_elective`). A field that may be absent is never read from null. `representable_of_given`
says that the fields of a record are representable if the record is.
-/

namespace Relay

namespace Row

section
variable {r : Row Json} {name : String} {α : Type} {read : Json → Option α} {a : α}

theorem exists_of_required (h : r.required name read = some a) : ∃ v ∈ r.given name, read v = some a := by
  unfold required at h
  split at h
  case h_1 v hgiven => exact ⟨v, hgiven ▸ List.mem_singleton_self v, h⟩
  case h_2 => cases h

theorem exists_of_defaulted {default : α} (h : r.defaulted name read default = some a) :
    a = default ∨ ∃ v ∈ r.given name, read v = some a := by
  unfold defaulted at h
  split at h
  case h_1 => exact .inl (Option.some.inj h).symm
  case h_2 v hgiven => exact .inr ⟨v, hgiven ▸ List.mem_singleton_self v, h⟩
  case h_3 => cases h

theorem exists_of_readNullable {v : Json} (h : readNullable read v = some (some a)) :
    v.isNull = false ∧ read v = some a := by
  cases v with
  | null => cases h
  | bool | num | str | arr | obj =>
    obtain ⟨b, hread, hb⟩ := Option.map_eq_some_iff.mp h
    exact ⟨rfl, hread.trans hb⟩

theorem exists_of_optional (h : r.optional name read = some (some a)) :
    ∃ v ∈ r.given name, v.isNull = false ∧ read v = some a := by
  rcases exists_of_defaulted h with habsent | ⟨v, hv, hread⟩
  · cases habsent
  · exact ⟨v, hv, exists_of_readNullable hread⟩

theorem exists_of_elective (h : r.elective name read = some (some a)) :
    ∃ v ∈ r.given name, v.isNull = false ∧ read v = some a := by
  unfold elective at h
  split at h
  case h_1 =>
    split at h
    · cases h
    · cases h
  case h_2 v hgiven => exact ⟨v, hgiven ▸ List.mem_singleton_self v, exists_of_readNullable h⟩
  case h_3 => cases h

/-- what is read of a field that may be absent is never null -/
theorem ne_null_of_optional {o : Option Json} (h : r.optional name Wire.read = some o) :
    o ≠ some .null := by
  rintro rfl
  obtain ⟨v, -, hpresent, hread⟩ := exists_of_optional h
  obtain rfl : v = .null := Option.some.inj hread
  cases hpresent

theorem exists_of_mapM {vs : List Json} {as : List α} (h : vs.mapM read = some as) :
    ∀ a ∈ as, ∃ v ∈ vs, read v = some a := by
  induction vs generalizing as with
  | nil =>
    rw [List.mapM_nil] at h
    obtain rfl := Option.some.inj h
    exact fun _ ha => absurd ha List.not_mem_nil
  | cons v vs ih =>
    rw [List.mapM_cons] at h
    obtain ⟨b, hb, h⟩ := Option.bind_eq_some_iff.mp h
    obtain ⟨bs, hbs, h⟩ := Option.bind_eq_some_iff.mp h
    obtain rfl := Option.some.inj h
    intro a ha
    rcases List.mem_cons.mp ha with rfl | ha
    · exact ⟨v, List.mem_cons_self, hb⟩
    · obtain ⟨w, hw, hread⟩ := ih hbs a ha
      exact ⟨w, List.mem_cons_of_mem _ hw, hread⟩

theorem exists_of_readList {v : Json} {as : List α} (h : readList read v = some as) :
    ∀ a ∈ as, ∃ item, read item = some a := by
  cases v with
  | arr items =>
    intro a ha
    obtain ⟨item, -, hread⟩ := exists_of_mapM h a ha
    exact ⟨item, hread⟩
  | null | bool | num | str | obj => cases h

/-- an item of a list that may be left out was read from something -/
theorem exists_of_defaulted_list {as : List α} (h : r.defaulted name (readList read) [] = some as) :
    ∀ a ∈ as, ∃ item, read item = some a := by
  rcases exists_of_defaulted h with rfl | ⟨v, -, hread⟩
  · exact fun _ ha => absurd ha List.not_mem_nil
  · exact exists_of_readList hread

end

theorem representable_of_given {names : List String} {v : Json} {r : Row Json} (hv : v.Representable)
    (h : read? names v = some r) {name : String} : ∀ w ∈ r.given name, w.Representable := by
  have hfields : ∀ f ∈ r.fields, f.2.Representable := by
    cases hv with
    | @arr items hitems =>
      replace h : (if items.length ≤ names.length then some (Row.mk (names.zip items) true) else none) =
        some r := h
      split at h
      · obtain rfl := Option.some.inj h
        exact fun f hf => hitems _ (List.of_mem_zip hf).2
      · cases h
    | obj hfields =>
      obtain rfl := Option.some.inj h
      exact hfields
    | null | bool | int | float | str => cases h
  intro w hw
  obtain ⟨f, hf, rfl⟩ := List.mem_map.mp hw
  exact hfields f (List.mem_filter.mp hf).1

end Row

end Relay
