import Relay.Plan
import Relay.Text.Padded

/-!
# Numbered steps

Before a plan is run its steps are numbered from 1 across all phases. The number is part of the span
ids of a step and of its undo, which is why no two of them are equal.
-/

namespace Relay.Plan

open Wire (field fieldIfSome)

/-- a step with its place in the plan -/
structure Numbered where
  name : String
  /-- counted from 1 -/
  index : Nat
  total : Nat
  schedule : Schedule
  undo : Option Undo := none
deriving DecidableEq

namespace Numbered

/-- the index in at least three digits -/
def indexText (n : Numbered) : String := Text.padded 3 n.index

/-- the span of the call of the step -/
def spanId (n : Numbered) : String := "span-" ++ n.name ++ "-" ++ n.indexText

/-- the span of the call that undoes the step -/
def undoSpanId (n : Numbered) : String := "span-compensate-" ++ n.name ++ "-" ++ n.indexText

def form (n : Numbered) : Form := .record <|
  field "name" n.name ++ field "index" n.index ++ field "total" n.total ++
    field "kind" n.schedule ++ fieldIfSome "compensating_action" n.undo

def read {σ : Type} [Readable σ] (s : σ) : Option Numbered := do
  let r ← Row.read? ["name", "index", "total", "kind", "compensating_action"] s
  return {
    name := ← r.required "name" Wire.read
    index := ← r.required "index" Wire.read
    total := ← r.required "total" Wire.read
    schedule := ← r.required "kind" Wire.read
    undo := ← r.optional "compensating_action" Wire.read }

instance : Wire Numbered := ⟨form, read⟩

end Numbered

structure NumberedPhase where
  schedule : Schedule
  name : String
  steps : List (Numbered × Step)
deriving DecidableEq

/-- numbers steps from the one after `before` -/
def numberSteps (schedule : Schedule) (total before : Nat) : List Step → List (Numbered × Step)
  | [] => []
  | step :: steps =>
    (⟨step.name, before + 1, total, schedule, step.undo⟩, step) ::
      numberSteps schedule total (before + 1) steps

/-- numbers the steps of phases from the one after `before` -/
def numberPhases (total before : Nat) : List Phase → List NumberedPhase
  | [] => []
  | phase :: phases =>
    ⟨phase.schedule, phase.name, numberSteps phase.schedule total before phase.steps⟩ ::
      numberPhases total (before + phase.steps.length) phases

/-- the steps of a plan in order -/
def steps (phases : List Phase) : List Step := phases.flatMap Phase.steps

/-- numbers the steps of a plan -/
def number (phases : List Phase) : List NumberedPhase :=
  numberPhases (steps phases).length 0 phases

theorem length_numberPhases (total before : Nat) (ps : List Phase) :
    (numberPhases total before ps).length = ps.length := by
  induction ps generalizing before with
  | nil => rfl
  | cons p ps ih => simp [numberPhases, ih]

end Relay.Plan
