/-!
# Splitting at a separator

`split sep cs` is the list of the runs between the occurrences of `sep`; there is always at least
one. `join_split` puts the characters back together, `split_join` takes them apart again, and
`not_mem_of_mem_split` says that no run holds the separator. `split_append_sep` splits at any one
occurrence first, and `eq_of_append_sep_eq` at the last one. What is split are characters, or bytes.
-/

namespace Relay.Text

variable {α : Type}

/-- the runs with a separator between neighbours -/
def join (sep : α) : List (List α) → List α
  | [] => []
  | [run] => run
  | run :: next :: runs => run ++ sep :: join sep (next :: runs)

variable [DecidableEq α]

/-- the runs of `cs` between occurrences of `sep` -/
def split (sep : α) : List α → List (List α)
  | [] => [[]]
  | c :: cs =>
    if c = sep then [] :: split sep cs
    else match split sep cs with
      | [] => [[c]]
      | run :: runs => (c :: run) :: runs

theorem split_ne_nil (sep : α) (cs : List α) : split sep cs ≠ [] := by
  cases cs with
  | nil => simp [split]
  | cons c cs =>
    unfold split
    split
    · simp
    · split <;> simp

theorem split_cons_sep (sep : α) (cs : List α) : split sep (sep :: cs) = [] :: split sep cs := by
  simp [split]

theorem split_cons_of_ne {sep c : α} (h : c ≠ sep) {cs run : List α} {runs : List (List α)}
    (hs : split sep cs = run :: runs) : split sep (c :: cs) = (c :: run) :: runs := by
  simp [split, h, hs]

theorem split_append_of_not_mem {sep : α} {front : List α} (h : sep ∉ front) {cs run : List α}
    {runs : List (List α)} (hs : split sep cs = run :: runs) :
    split sep (front ++ cs) = (front ++ run) :: runs := by
  induction front with
  | nil => exact hs
  | cons c front ih =>
    obtain ⟨hne, hfront⟩ := List.ne_and_not_mem_of_not_mem_cons h
    exact split_cons_of_ne hne.symm (ih hfront)

theorem split_of_not_mem {sep : α} {cs : List α} (h : sep ∉ cs) : split sep cs = [cs] := by
  have hs := split_append_of_not_mem h (rfl : split sep [] = [[]])
  rwa [List.append_nil] at hs

theorem split_append_sep (sep : α) (cs ds : List α) :
    split sep (cs ++ sep :: ds) = split sep cs ++ split sep ds := by
  induction cs with
  | nil => exact split_cons_sep sep ds
  | cons c cs ih =>
    by_cases h : c = sep
    · subst h
      rw [List.cons_append, split_cons_sep, split_cons_sep, ih, List.cons_append]
    · cases hs : split sep cs with
      | nil => exact absurd hs (split_ne_nil sep cs)
      | cons run runs =>
        rw [hs, List.cons_append] at ih
        rw [List.cons_append, split_cons_of_ne h ih, split_cons_of_ne h hs, List.cons_append]

/-- what stands after the last separator is the last run -/
theorem eq_of_append_sep_eq {sep : α} {cs ds cs' ds' : List α} (hds : sep ∉ ds) (hds' : sep ∉ ds')
    (h : cs ++ sep :: ds = cs' ++ sep :: ds') : ds = ds' := by
  have hruns := congrArg (split sep) h
  rw [split_append_sep, split_append_sep, split_of_not_mem hds, split_of_not_mem hds'] at hruns
  have hlast := (List.append_inj' hruns rfl).2
  exact List.singleton_inj.mp hlast

theorem join_split (sep : α) (cs : List α) : join sep (split sep cs) = cs := by
  induction cs with
  | nil => rfl
  | cons c cs ih =>
    cases hs : split sep cs with
    | nil => exact absurd hs (split_ne_nil sep cs)
    | cons run runs =>
      rw [hs] at ih
      by_cases h : c = sep
      · subst h
        rw [split_cons_sep, hs, join, ih]
        rfl
      · rw [split_cons_of_ne h hs]
        cases runs with
        | nil => simpa [join] using ih
        | cons next runs => simpa [join] using ih

theorem split_join {sep : α} {runs : List (List α)} (hne : runs ≠ [])
    (h : ∀ run ∈ runs, sep ∉ run) : split sep (join sep runs) = runs := by
  induction runs with
  | nil => exact absurd rfl hne
  | cons run runs ih =>
    have hrun := h run List.mem_cons_self
    cases runs with
    | nil => exact split_of_not_mem hrun
    | cons next runs =>
      rw [join, split_append_sep, split_of_not_mem hrun,
        ih (List.cons_ne_nil next runs) fun r hr => h r (List.mem_cons_of_mem run hr)]
      rfl

theorem not_mem_of_mem_split (sep : α) (cs : List α) : ∀ run ∈ split sep cs, sep ∉ run := by
  induction cs with
  | nil => simp [split]
  | cons c cs ih =>
    by_cases h : c = sep
    · subst h
      rw [split_cons_sep]
      intro run hr
      rcases List.mem_cons.1 hr with rfl | hr
      · simp
      · exact ih run hr
    · cases hs : split sep cs with
      | nil => exact absurd hs (split_ne_nil sep cs)
      | cons r rs =>
        rw [split_cons_of_ne h hs]
        intro run hr
        rcases List.mem_cons.1 hr with rfl | hr
        · have := ih r (by simp [hs])
          simp only [List.mem_cons, not_or]
          exact ⟨Ne.symm h, this⟩
        · exact ih run (by simp [hs, hr])

end Relay.Text
