import Mathlib.Data.List.Nodup
import Relay.Proofs.Plan.Numbering
import Relay.Text.Split

/-!
# Spans of numbered steps

Names of steps are any texts, so that a span id of one step may well begin like that of another. What keeps
them apart is their end: after the last hyphen stands the index and nothing else (`EndsWith`), which can be
read back from there (`EndsWith.unique`). Within one step the two span ids differ in length.

`number_numbers` is all that is known of a numbered plan.
-/

namespace Relay.Plan

open Text (padded)

/-- a text that ends in a hyphen and an index -/
def EndsWith (text : String) (index : Nat) : Prop :=
  ∃ stem, text.toList = stem ++ '-' :: (padded 3 index).toList

theorem toList_hyphenated (s t : String) : (s ++ "-" ++ t).toList = s.toList ++ '-' :: t.toList := by
  simp

theorem endsWith_append (stem : String) (index : Nat) :
    EndsWith (stem ++ "-" ++ padded 3 index) index :=
  ⟨stem.toList, toList_hyphenated stem (padded 3 index)⟩

theorem hyphen_not_mem_padded (width n : Nat) : '-' ∉ (padded width n).toList := by
  intro h
  have hdigit := Text.isDigit_of_mem_padded width n '-' h
  cases hdigit

/-- the hyphen in front of the index is the last one, whatever stands before it -/
theorem EndsWith.unique {text : String} {i j : Nat} (hi : EndsWith text i) (hj : EndsWith text j) :
    i = j := by
  obtain ⟨stem, hi⟩ := hi
  obtain ⟨stem', hj⟩ := hj
  have hdigits : (padded 3 i).toList = (padded 3 j).toList :=
    Text.eq_of_append_sep_eq (hyphen_not_mem_padded 3 i) (hyphen_not_mem_padded 3 j)
      (hi.symm.trans hj)
  exact Text.eq_of_padded_eq (String.toList_inj.mp hdigits)

theorem length_span_lt (name index : String) :
    ("span-" ++ name ++ "-" ++ index).length < ("span-compensate-" ++ name ++ "-" ++ index).length := by
  have hspan : "span-".length = 5 := rfl
  have hundo : "span-compensate-".length = 16 := rfl
  simp only [String.length_append, hspan, hundo]
  omega

namespace Numbered

/-- the span ids of a step, first that of its call -/
def spanIds (n : Numbered) : List String := [n.spanId, n.undoSpanId]

theorem endsWith_spanIds (n : Numbered) : ∀ id ∈ n.spanIds, EndsWith id n.index := by
  intro id hid
  rcases List.mem_cons.mp hid with hid | hid
  · rw [hid]
    exact endsWith_append ("span-" ++ n.name) n.index
  · rw [List.mem_singleton.mp hid]
    exact endsWith_append ("span-compensate-" ++ n.name) n.index

theorem spanId_ne_undoSpanId (n : Numbered) : n.spanId ≠ n.undoSpanId := by
  intro h
  have hlength : n.spanId.length < n.undoSpanId.length := length_span_lt n.name n.indexText
  rw [h] at hlength
  exact Nat.lt_irrefl _ hlength

theorem nodup_spanIds (n : Numbered) : n.spanIds.Nodup := by
  unfold spanIds
  rw [List.nodup_cons, List.mem_singleton]
  exact ⟨n.spanId_ne_undoSpanId, List.nodup_singleton _⟩

/-- steps with different indexes share no span id -/
theorem disjoint_spanIds {m n : Numbered} (h : m.index ≠ n.index) : m.spanIds.Disjoint n.spanIds := by
  intro id hm hn
  have hm := m.endsWith_spanIds id hm
  have hn := n.endsWith_spanIds id hn
  exact h (hm.unique hn)

end Numbered

/-- the span ids of numbered phases, those of one step after those of the other -/
def spanIds (ns : List NumberedPhase) : List String :=
  (numberedSteps ns).flatMap fun x => x.1.spanIds

theorem nodup_spanIds {ns : List NumberedPhase}
    (h : ((numberedSteps ns).map fun x => x.1.index).Nodup) : (spanIds ns).Nodup := by
  have hindexes := List.pairwise_map.mp h
  unfold spanIds
  rw [List.nodup_flatMap]
  refine ⟨fun x _ => x.1.nodup_spanIds, ?_⟩
  exact hindexes.imp fun hne => Numbered.disjoint_spanIds hne

theorem length_spanIds (ns : List NumberedPhase) :
    (spanIds ns).length = 2 * (numberedSteps ns).length := by
  unfold spanIds
  induction numberedSteps ns with
  | nil => rfl
  | cons x xs ih =>
    rw [List.flatMap_cons, List.length_append, ih, List.length_cons]
    show 2 + 2 * xs.length = _
    omega

/-- **what a numbered plan is** -/
structure Numbers (phases : List Phase) (ns : List NumberedPhase) : Prop where
  /-- each phase keeps its schedule, its name and its steps, which have their name, schedule and undo
  beside them -/
  inStep : List.Forall₂ NumberedPhase.Fits ns phases
  specs : (numberedSteps ns).map Prod.snd = steps phases
  indexes : (numberedSteps ns).map (fun x => x.1.index) = List.range' 1 (steps phases).length
  total : ∀ x ∈ numberedSteps ns, x.1.total = (steps phases).length
  /-- two for each step, of which no two are equal -/
  spans : (spanIds ns).length = 2 * (steps phases).length ∧ (spanIds ns).Nodup

theorem number_numbers (phases : List Phase) : Numbers phases (number phases) := by
  have hspecs : (numberedSteps (number phases)).map Prod.snd = steps phases := by
    have htake := steps_take_number phases phases.length
    rw [List.take_length, List.take_of_length_le] at htake
    · exact htake
    · exact Nat.le_of_eq (length_numberPhases _ 0 phases)
  have hindexes : (numberedSteps (number phases)).map (fun x => x.1.index) =
      List.range' 1 (steps phases).length := by
    unfold number
    rw [indexes_numberPhases]
  have hlength : (numberedSteps (number phases)).length = (steps phases).length := by
    rw [← hspecs, List.length_map]
  constructor
  case inStep => exact forall₂_number phases
  case specs => exact hspecs
  case indexes => exact hindexes
  case total => exact fun x hx => total_of_mem_number hx
  case spans =>
    refine ⟨by rw [length_spanIds, hlength], nodup_spanIds ?_⟩
    rw [hindexes]
    exact List.nodup_range'

end Relay.Plan
