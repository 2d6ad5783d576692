import Relay.Plan.Flaw
import Relay.Plan.Numbering

/-!
# Plans that can be run

`Runnable` says which plans can be run, without an order in which to look: there is a phase, every
phase has a step, no name is blank and no two steps have one name. `check_eq_ok_iff` says that
`Plan.check` accepts exactly these.

`checkSteps_eq_ok_iff` and `checkPhases_eq_ok_iff` are about the names seen so far.
-/

namespace Relay.Plan

/-- the names of the steps of a plan in order -/
def names (phases : List Phase) : List String := (steps phases).map Step.name

theorem steps_cons (p : Phase) (ps : List Phase) : steps (p :: ps) = p.steps ++ steps ps := rfl

theorem steps_append (ps qs : List Phase) : steps (ps ++ qs) = steps ps ++ steps qs := by
  simp [steps, List.flatMap_append]

theorem names_cons (p : Phase) (ps : List Phase) :
    names (p :: ps) = p.steps.map Step.name ++ names ps := by
  unfold names
  rw [steps_cons, List.map_append]

/-- a plan that can be run -/
structure Runnable (phases : List Phase) : Prop where
  ne_nil : phases ≠ []
  steps_ne_nil : ∀ p ∈ phases, p.steps ≠ []
  not_blank : ∀ name ∈ names phases, Text.isBlankText name = false
  nodup : (names phases).Nodup

theorem emptyGroup?_eq_none_iff (p : Phase) : emptyGroup? p = none ↔ p.steps ≠ [] := by
  cases p with
  | parallel name ss => cases ss <;> simp [emptyGroup?, Phase.steps]
  | sequential s => simp [emptyGroup?, Phase.steps]

theorem checkSteps_eq_ok_iff (ss : List Step) (seen seen' : List String) :
    checkSteps seen ss = .ok seen' ↔
      (∀ s ∈ ss, Text.isBlankText s.name = false) ∧ (ss.map Step.name).Nodup ∧
        (∀ s ∈ ss, s.name ∉ seen) ∧ seen' = (ss.map Step.name).reverse ++ seen := by
  induction ss generalizing seen with
  | nil =>
    rw [checkSteps, Except.ok.injEq]
    exact ⟨fun h => ⟨by simp, List.nodup_nil, by simp, h.symm⟩, fun h => h.2.2.2.symm⟩
  | cons s ss ih =>
    unfold checkSteps
    by_cases hb : Text.isBlankText s.name = true
    · simp [hb]
    · rw [if_neg hb]
      by_cases hs : s.name ∈ seen
      · simp [hs]
      · rw [if_neg hs, ih, List.forall_mem_cons, List.forall_mem_cons, List.map_cons, List.nodup_cons,
          List.reverse_cons, List.append_assoc, List.singleton_append]
        constructor
        · rintro ⟨h1, h2, h3, h4⟩
          have hn : s.name ∉ ss.map Step.name := by
            intro hm
            obtain ⟨t, ht, e⟩ := List.mem_map.mp hm
            exact h3 t ht (e ▸ List.mem_cons_self)
          exact ⟨⟨eq_false_of_ne_true hb, h1⟩, ⟨hn, h2⟩,
            ⟨hs, fun t ht hm => h3 t ht (List.mem_cons_of_mem _ hm)⟩, h4⟩
        · rintro ⟨⟨_, h1⟩, ⟨hn, h2⟩, ⟨_, h3⟩, h4⟩
          refine ⟨h1, h2, fun t ht hm => ?_, h4⟩
          rcases List.mem_cons.mp hm with e | hm
          · exact hn (e ▸ List.mem_map_of_mem ht)
          · exact h3 t ht hm

theorem checkPhases_eq_ok_iff (ps : List Phase) (seen seen' : List String) :
    checkPhases seen ps = .ok seen' ↔
      (∀ p ∈ ps, p.steps ≠ []) ∧ (∀ name ∈ names ps, Text.isBlankText name = false) ∧
        (names ps).Nodup ∧ (∀ name ∈ names ps, name ∉ seen) ∧
        seen' = (names ps).reverse ++ seen := by
  induction ps generalizing seen with
  | nil =>
    rw [checkPhases, Except.ok.injEq]
    exact ⟨fun h => ⟨by simp, by simp [names, steps], List.nodup_nil, by simp [names, steps], h.symm⟩,
      fun h => h.2.2.2.2.symm⟩
  | cons p ps ih =>
    unfold checkPhases
    cases hg : emptyGroup? p with
    | some flaw =>
      have hp : ¬ p.steps ≠ [] := by
        rw [← emptyGroup?_eq_none_iff, hg]
        simp
      simp [hp]
    | none =>
      have hp := (emptyGroup?_eq_none_iff p).mp hg
      cases hc : checkSteps seen p.steps with
      | error flaw =>
        refine ⟨fun h => (by cases h), fun ⟨_, h1, h2, h3, _⟩ => ?_⟩
        rw [names_cons] at h1 h2 h3
        have hok := (checkSteps_eq_ok_iff p.steps seen _).mpr
          ⟨fun s hs => h1 _ (List.mem_append_left _ (List.mem_map_of_mem hs)),
            (List.nodup_append.mp h2).1,
            fun s hs => h3 _ (List.mem_append_left _ (List.mem_map_of_mem hs)), rfl⟩
        cases hc.symm.trans hok
      | ok mid =>
        obtain ⟨h1, h2, h3, rfl⟩ := (checkSteps_eq_ok_iff p.steps seen mid).mp hc
        show checkPhases _ ps = _ ↔ _
        rw [ih, names_cons, List.forall_mem_cons, List.forall_mem_append, List.forall_mem_append,
          List.forall_mem_map, List.forall_mem_map, List.reverse_append, List.append_assoc]
        constructor
        · rintro ⟨g1, g2, g3, g4, g5⟩
          refine ⟨⟨hp, g1⟩, ⟨h1, g2⟩, List.nodup_append.mpr ⟨h2, g3, fun x hx y hy e => ?_⟩,
            ⟨h3, fun n hn hm => g4 n hn (List.mem_append_right _ hm)⟩, g5⟩
          exact g4 y hy (List.mem_append_left _ (List.mem_reverse.mpr (e ▸ hx)))
        · rintro ⟨⟨_, g1⟩, ⟨_, g2⟩, g3, ⟨_, g4⟩, g5⟩
          obtain ⟨_, g6, g7⟩ := List.nodup_append.mp g3
          refine ⟨g1, g2, g6, fun n hn hm => ?_, g5⟩
          rcases List.mem_append.mp hm with hm | hm
          · exact g7 n (List.mem_reverse.mp hm) n hn rfl
          · exact g4 n hn hm

/-- **the check accepts exactly the plans that can be run** -/
theorem check_eq_ok_iff (phases : List Phase) : check phases = .ok () ↔ Runnable phases := by
  unfold check
  cases phases with
  | nil => exact ⟨fun h => (by cases h), fun h => absurd rfl h.ne_nil⟩
  | cons p ps =>
    show (checkPhases [] (p :: ps)).map (fun _ => ()) = _ ↔ _
    constructor
    · intro h
      cases hc : checkPhases [] (p :: ps) with
      | error flaw =>
        rw [hc] at h
        cases h
      | ok seen =>
        obtain ⟨h1, h2, h3, _⟩ := (checkPhases_eq_ok_iff _ _ _).mp hc
        exact ⟨List.cons_ne_nil _ _, h1, h2, h3⟩
    · intro h
      have hc := (checkPhases_eq_ok_iff (p :: ps) [] _).mpr
        ⟨h.steps_ne_nil, h.not_blank, h.nodup, fun _ _ => List.not_mem_nil, rfl⟩
      rw [hc]
      rfl

end Relay.Plan
