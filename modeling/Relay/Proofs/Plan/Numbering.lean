import Mathlib.Data.List.Forall2
import Relay.Proofs.Plan.Validity

/-!
# What numbering keeps

Numbering a plan changes nothing but that it adds places. `NumberedPhase.Fits` relates a numbered phase
to the phase it comes from, and `forall₂_number` says that the two lists go in step. Read off from it:

* `specs_number`       the steps of each phase, in order;
* `named_take_number`  the steps of the first phases, under their names;
* `eq_singleton_of_sequential`   a numbered sequential phase has one step.

The places that numbering adds count the steps of all phases: `indexes_take_number`, `total_of_mem_number`.
-/

namespace Relay.Plan

/-- the numbered steps of numbered phases in order -/
def numberedSteps (ps : List NumberedPhase) : List (Numbered × Step) :=
  ps.flatMap NumberedPhase.steps

/-- a place that belongs to the step it stands beside -/
structure Numbered.Fits (n : Numbered) (schedule : Schedule) (s : Step) : Prop where
  name : n.name = s.name
  schedule : n.schedule = schedule
  undo : n.undo = s.undo

/-- a numbered phase that comes from a phase -/
structure NumberedPhase.Fits (n : NumberedPhase) (p : Phase) : Prop where
  schedule : n.schedule = p.schedule
  name : n.name = p.name
  specs : n.steps.map Prod.snd = p.steps
  places : ∀ x ∈ n.steps, x.1.Fits n.schedule x.2

/-! ## steps -/

theorem map_snd_numberSteps (schedule : Schedule) (total before : Nat) (ss : List Step) :
    (numberSteps schedule total before ss).map Prod.snd = ss := by
  induction ss generalizing before with
  | nil => rfl
  | cons s ss ih =>
    show s :: (numberSteps schedule total (before + 1) ss).map Prod.snd = s :: ss
    rw [ih]

theorem fits_of_mem_numberSteps (schedule : Schedule) (total before : Nat) (ss : List Step) :
    ∀ x ∈ numberSteps schedule total before ss, x.1.Fits schedule x.2 := by
  induction ss generalizing before with
  | nil => exact fun x hx => absurd hx List.not_mem_nil
  | cons s ss ih =>
    intro x hx
    rcases List.mem_cons.mp hx with rfl | hx
    · exact ⟨rfl, rfl, rfl⟩
    · exact ih (before + 1) x hx

/-! ## phases -/

theorem forall₂_numberPhases (total before : Nat) (ps : List Phase) :
    List.Forall₂ NumberedPhase.Fits (numberPhases total before ps) ps := by
  induction ps generalizing before with
  | nil => exact .nil
  | cons p ps ih =>
    refine .cons ⟨rfl, rfl, ?_, ?_⟩ (ih _)
    · exact map_snd_numberSteps _ _ _ _
    · exact fits_of_mem_numberSteps _ _ _ _

/-- **a numbered plan goes in step with the plan** -/
theorem forall₂_number (phases : List Phase) :
    List.Forall₂ NumberedPhase.Fits (number phases) phases :=
  forall₂_numberPhases _ _ _

theorem specs_of_forall₂ {ns : List NumberedPhase} {ps : List Phase}
    (h : List.Forall₂ NumberedPhase.Fits ns ps) :
    ns.map (fun n => n.steps.map Prod.snd) = ps.map Phase.steps := by
  induction h with
  | nil => rfl
  | cons hf _ ih => rw [List.map_cons, List.map_cons, hf.specs, ih]

theorem specs_number (phases : List Phase) :
    (number phases).map (fun n => n.steps.map Prod.snd) = phases.map Phase.steps :=
  specs_of_forall₂ (forall₂_number phases)

theorem fits_of_mem_number {phases : List Phase} {n : NumberedPhase} (h : n ∈ number phases) :
    ∃ p ∈ phases, n.Fits p := by
  obtain ⟨i, hi, rfl⟩ := List.mem_iff_getElem.mp h
  have hl := (forall₂_number phases).length_eq
  exact ⟨_, List.getElem_mem (hl ▸ hi), (forall₂_number phases).get hi (hl ▸ hi)⟩

theorem steps_take_number (phases : List Phase) (k : Nat) :
    (numberedSteps ((number phases).take k)).map Prod.snd = steps (phases.take k) := by
  show (((number phases).take k).flatMap NumberedPhase.steps).map Prod.snd = _
  rw [List.map_flatMap, List.flatMap_def, List.map_take, specs_number, ← List.map_take]
  rfl

theorem name_of_mem_numberedSteps {phases : List Phase} {x : Numbered × Step}
    (h : x ∈ numberedSteps (number phases)) : x.1.name = x.2.name := by
  obtain ⟨n, hn, hx⟩ := List.mem_flatMap.mp h
  obtain ⟨p, _, hf⟩ := fits_of_mem_number hn
  exact (hf.places x hx).name

/-- the numbered steps of the first phases, under their names -/
theorem named_take_number (phases : List Phase) (k : Nat) :
    (numberedSteps ((number phases).take k)).map (fun x => (x.1.name, x.2)) =
      (steps (phases.take k)).map fun s => (s.name, s) := by
  rw [← steps_take_number, List.map_map]
  refine List.map_congr_left fun x hx => ?_
  obtain ⟨n, hn, hx⟩ := List.mem_flatMap.mp hx
  have hmem : x ∈ numberedSteps (number phases) :=
    List.mem_flatMap.mpr ⟨n, List.mem_of_mem_take hn, hx⟩
  show (x.1.name, x.2) = (x.2.name, x.2)
  rw [name_of_mem_numberedSteps hmem]

theorem eq_singleton_of_sequential {n : NumberedPhase} {p : Phase} (h : n.Fits p)
    (hs : n.schedule = .sequential) : ∃ x, n.steps = [x] := by
  cases p with
  | parallel name ss => cases h.schedule.symm.trans hs
  | sequential s =>
    have hl : (n.steps.map Prod.snd).length = 1 := by rw [h.specs]; rfl
    rw [List.length_map] at hl
    exact List.length_eq_one_iff.mp hl

/-! ## places -/

theorem numberedSteps_cons (n : NumberedPhase) (ns : List NumberedPhase) :
    numberedSteps (n :: ns) = n.steps ++ numberedSteps ns := rfl

theorem indexes_numberSteps (schedule : Schedule) (total before : Nat) (ss : List Step) :
    (numberSteps schedule total before ss).map (fun x => x.1.index) =
      List.range' (before + 1) ss.length := by
  induction ss generalizing before with
  | nil => rfl
  | cons s ss ih =>
    rw [List.length_cons, List.range'_succ, ← ih]
    rfl

theorem indexes_numberPhases (total before : Nat) (ps : List Phase) :
    (numberedSteps (numberPhases total before ps)).map (fun x => x.1.index) =
      List.range' (before + 1) (steps ps).length := by
  induction ps generalizing before with
  | nil => rfl
  | cons p ps ih =>
    have hnext : before + p.steps.length + 1 = before + 1 + p.steps.length := by omega
    show (numberedSteps (⟨p.schedule, p.name, numberSteps p.schedule total before p.steps⟩ ::
      numberPhases total (before + p.steps.length) ps)).map _ = _
    rw [numberedSteps_cons, List.map_append, indexes_numberSteps, ih, steps_cons, List.length_append,
      hnext, List.range'_append_1]

theorem take_numberPhases (total before : Nat) (ps : List Phase) (k : Nat) :
    (numberPhases total before ps).take k = numberPhases total before (ps.take k) := by
  induction ps generalizing before k with
  | nil =>
    rw [List.take_nil]
    exact List.take_nil
  | cons p ps ih =>
    cases k with
    | zero => rfl
    | succ k =>
      rw [List.take_succ_cons]
      show _ :: (numberPhases total (before + p.steps.length) ps).take k = _
      rw [ih]
      rfl

/-- the steps of the first phases are counted from 1 -/
theorem indexes_take_number (phases : List Phase) (k : Nat) :
    (numberedSteps ((number phases).take k)).map (fun x => x.1.index) =
      List.range' 1 (steps (phases.take k)).length := by
  unfold number
  rw [take_numberPhases, indexes_numberPhases]

theorem total_of_mem_numberSteps (schedule : Schedule) (total before : Nat) (ss : List Step) :
    ∀ x ∈ numberSteps schedule total before ss, x.1.total = total := by
  induction ss generalizing before with
  | nil => exact fun x hx => absurd hx List.not_mem_nil
  | cons s ss ih =>
    intro x hx
    rcases List.mem_cons.mp hx with rfl | hx
    · rfl
    · exact ih (before + 1) x hx

theorem total_of_mem_numberPhases (total before : Nat) (ps : List Phase) :
    ∀ x ∈ numberedSteps (numberPhases total before ps), x.1.total = total := by
  induction ps generalizing before with
  | nil => exact fun x hx => absurd hx List.not_mem_nil
  | cons p ps ih =>
    intro x hx
    rcases List.mem_append.mp hx with hx | hx
    · exact total_of_mem_numberSteps _ _ _ _ x hx
    · exact ih _ x hx

/-- every place tells how many steps the plan has -/
theorem total_of_mem_number {phases : List Phase} {x : Numbered × Step}
    (h : x ∈ numberedSteps (number phases)) : x.1.total = (steps phases).length :=
  total_of_mem_numberPhases _ _ _ x h

end Relay.Plan
