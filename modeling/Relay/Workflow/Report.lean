import Relay.Fault
import Relay.Plan

/-!
# Workflow requests and reports

A `Workflow.Definition` is a plan that is registered under the name of an operation; a
`Workflow.Request` asks for an operation, or brings its own plan. A `Workflow.Report` says how a run
ended and what became of each step. The report of a failed run travels in the details of its notice,
from which `Report.ofNotice?` takes it.
-/

namespace Relay.Workflow

open Wire (field fieldIfSome fieldIfAny fieldList)

/-- a registered plan -/
structure Definition where
  operation : String
  description : String := ""
  phases : List Plan.Phase
deriving DecidableEq

namespace Definition

def form (d : Definition) : Form := .record <|
  field "operation" d.operation ++ field "description" d.description ++
    fieldList "phases" d.phases

def read {σ : Type} [Readable σ] (s : σ) : Option Definition := do
  let r ← Row.read? ["operation", "description", "phases"] s
  return {
    operation := ← r.required "operation" Wire.read
    description := ← r.defaulted "description" Wire.read ""
    phases := ← r.required "phases" (readList Wire.read) }

instance : Wire Definition := ⟨form, read⟩

end Definition

/-- a request to run a workflow -/
structure Request where
  operation : String
  /-- what the first phase is given -/
  input : Json := .null
  /-- a plan that takes the place of the registered one -/
  plan : Option (List Plan.Phase) := none
deriving DecidableEq

namespace Request

/-- the plan field, if the request brings a plan -/
def planField : Option (List Plan.Phase) → List (String × Form)
  | none => []
  | some phases => fieldList "plan" phases

def form (r : Request) : Form := .record <|
  field "operation" r.operation ++ field "input" r.input ++ planField r.plan

def read {σ : Type} [Readable σ] (s : σ) : Option Request := do
  let r ← Row.read? ["operation", "input", "plan"] s
  return {
    operation := ← r.required "operation" Wire.read
    input := ← r.defaulted "input" Wire.read .null
    plan := ← r.optional "plan" (readList Wire.read) }

instance : Wire Request := ⟨form, read⟩

end Request

/-- how a run ended -/
inductive State
  | completed
  | partialSuccess
  | failedWithRollback
  | failed
deriving DecidableEq, Repr

namespace State

def name : State → String
  | completed => "completed"
  | partialSuccess => "partial_success"
  | failedWithRollback => "failed_with_rollback"
  | failed => "failed"

instance : Named State := ⟨[completed, partialSuccess, failedWithRollback, failed], name⟩

instance : Wire State := Named.wire

end State

/-- a step that failed, or whose undo failed -/
structure StepFailure where
  step : String
  error : Notice
deriving DecidableEq

namespace StepFailure

def form (f : StepFailure) : Form := .record <| field "step" f.step ++ field "error" f.error

def read {σ : Type} [Readable σ] (s : σ) : Option StepFailure := do
  let r ← Row.read? ["step", "error"] s
  return { step := ← r.required "step" Wire.read, error := ← r.required "error" Wire.read }

instance : Wire StepFailure := ⟨form, read⟩

end StepFailure

/-- how a run ended and what became of its steps -/
structure Report where
  workflowId : String
  operation : String
  state : State := .completed
  /-- the outputs of the completed steps by name -/
  results : Table Json := []
  /-- the completed steps in order -/
  completed : List String := []
  /-- the step that ended the run -/
  failed : Option String := none
  /-- the failures of all steps, also of those that were optional or had a substitute result -/
  failures : List StepFailure := []
  /-- the steps that were undone, the last completed first -/
  compensated : List String := []
  /-- the steps whose undo failed -/
  compensationFailures : List StepFailure := []
  /-- the completed steps that a rollback left in place, since they have no undo -/
  uncompensated : List String := []
deriving DecidableEq

namespace Report

def form (r : Report) : Form := .record <|
  field "workflow_id" r.workflowId ++ field "operation" r.operation ++ field "state" r.state ++
    [("results", .payload (.obj r.results))] ++ fieldList "completed" r.completed ++
    fieldIfSome "failed" r.failed ++ fieldIfAny "failures" r.failures ++
    fieldIfAny "compensated" r.compensated ++
    fieldIfAny "compensation_failures" r.compensationFailures ++
    fieldIfAny "uncompensated" r.uncompensated

def readResults {σ : Type} [Readable σ] (s : σ) : Option (Table Json) :=
  match Readable.payload? s with
  | some (.obj fields) => some fields
  | _ => none

def read {σ : Type} [Readable σ] (s : σ) : Option Report := do
  let r ← Row.read? ["workflow_id", "operation", "state", "results", "completed", "failed",
    "failures", "compensated", "compensation_failures", "uncompensated"] s
  return {
    workflowId := ← r.required "workflow_id" Wire.read
    operation := ← r.required "operation" Wire.read
    state := ← r.required "state" Wire.read
    results := ← r.defaulted "results" readResults []
    completed := ← r.defaulted "completed" (readList Wire.read) []
    failed := ← r.optional "failed" Wire.read
    failures := ← r.defaulted "failures" (readList Wire.read) []
    compensated := ← r.defaulted "compensated" (readList Wire.read) []
    compensationFailures := ← r.defaulted "compensation_failures" (readList Wire.read) []
    uncompensated := ← r.defaulted "uncompensated" (readList Wire.read) [] }

instance : Wire Report := ⟨form, read⟩

def ofNotice? (n : Notice) : Option Report := n.details.bind Wire.ofJson?

end Report

end Relay.Workflow
