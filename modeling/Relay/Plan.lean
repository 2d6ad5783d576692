import Relay.Wire

/-!
# Plans

A plan is a list of phases. A phase is one step, or a group of steps that start together. A step is
one call of a tool; it may say how to undo it. `Phase.steps` reads both sorts of phase as a list.
-/

namespace Relay.Plan

open Wire (field fieldIfSome fieldList)

/-- how the steps of a phase are run -/
inductive Schedule
  | parallelGroup
  | sequential
deriving DecidableEq, Repr

namespace Schedule

def name : Schedule → String
  | parallelGroup => "parallel_group"
  | sequential => "sequential"

instance : Named Schedule := ⟨[parallelGroup, sequential], name⟩

instance : Wire Schedule := Named.wire

end Schedule

/-- how to undo a completed step -/
inductive Undo
  /-- by the call of a tool -/
  | tool (service tool : String) (arguments : Json)
  /-- by the handler that is registered under a name -/
  | named (name : String)
deriving DecidableEq

namespace Undo

def form : Undo → Form
  | tool service called arguments => .record <|
    field "type" "tool" ++ field "service" service ++ field "tool" called ++
      field "arguments" arguments
  | named handler => .record <| field "type" "named" ++ field "name" handler

/-- reads an undo; `inside` if it is part of a tagged record -/
def readInside {σ : Type} [Readable σ] (inside : Bool) (s : σ) : Option Undo := do
  let (variant, rest) ← untag? "type" ["tool", "named"] inside s
  if variant = "tool" then
    let r ← Row.ofShape? ["service", "tool", "arguments"] rest
    return .tool (← r.required "service" Wire.read) (← r.required "tool" Wire.read)
      (← r.defaulted "arguments" Wire.read Json.emptyObject)
  else
    let r ← Row.ofShape? ["name"] rest
    return .named (← r.required "name" Wire.read)

instance : Wire Undo := ⟨form, readInside false⟩

end Undo

/-- one call of a plan -/
structure Step where
  /-- one of a kind within a plan -/
  name : String
  service : String
  tool : String
  arguments : Json := Json.emptyObject
  /-- whether its failure fails the phase -/
  required : Bool := true
  undo : Option Undo := none
deriving DecidableEq

namespace Step

def fields (s : Step) : List (String × Form) :=
  field "name" s.name ++ field "service" s.service ++ field "tool" s.tool ++
    field "arguments" s.arguments ++ field "required" s.required ++
    fieldIfSome "compensation" s.undo

def fieldNames : List String :=
  ["name", "service", "tool", "arguments", "required", "compensation"]

/-- reads a step from its fields; `inside` if they are part of a tagged record -/
def ofRow {σ : Type} [Readable σ] (inside : Bool) (r : Row σ) : Option Step := do
  return {
    name := ← r.required "name" Wire.read
    service := ← r.required "service" Wire.read
    tool := ← r.required "tool" Wire.read
    arguments := ← r.defaulted "arguments" Wire.read Json.emptyObject
    required := ← r.defaulted "required" Wire.read true
    undo := ← r.optional "compensation" (Undo.readInside inside) }

/-- reads a step; `inside` if it is part of a tagged record -/
def readInside {σ : Type} [Readable σ] (inside : Bool) (s : σ) : Option Step := do
  ofRow inside (← Row.read? fieldNames s)

instance : Wire Step := ⟨fun s => .record s.fields, readInside false⟩

end Step

/-- one phase of a plan -/
inductive Phase
  /-- steps that start together and are awaited together -/
  | parallel (name : String) (steps : List Step)
  /-- one step, which is given what the phase before it put out -/
  | sequential (step : Step)
deriving DecidableEq

namespace Phase

def steps : Phase → List Step
  | parallel _ steps => steps
  | sequential step => [step]

def schedule : Phase → Schedule
  | parallel _ _ => .parallelGroup
  | sequential _ => .sequential

def name : Phase → String
  | parallel name _ => name
  | sequential step => step.name

def form : Phase → Form
  | parallel name steps => .record <|
    field "kind" "parallel" ++ field "name" name ++ fieldList "steps" steps
  | sequential step => .record <| field "kind" "sequential" ++ step.fields

def read {σ : Type} [Readable σ] (s : σ) : Option Phase := do
  let (variant, rest) ← untag? "kind" ["parallel", "sequential"] false s
  if variant = "parallel" then
    let r ← Row.ofShape? ["name", "steps"] rest
    return .parallel (← r.required "name" Wire.read)
      (← r.required "steps" (readList (Step.readInside true)))
  else
    return .sequential (← Step.ofRow true (← Row.ofShape? Step.fieldNames rest))

instance : Wire Phase := ⟨form, read⟩

end Phase

end Relay.Plan
