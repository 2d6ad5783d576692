import Relay.Fault
import Relay.Plan
import Relay.Text.Blank

/-!
# Flaws of plans

A plan can be run if it has a phase, no group is empty, and its step names are not blank and all
different. `Plan.check` reports the first `Flaw` in the order of the plan.
-/

namespace Relay.Plan

/-- why a plan cannot be run -/
inductive Flaw
  | noPhases
  | emptyGroup (name : String)
  | blankName
  | duplicateName (name : String)
deriving DecidableEq, Repr

namespace Flaw

def message : Flaw → String
  | noPhases => "workflow plan has no phases"
  | emptyGroup name => "parallel group '" ++ name ++ "' has no steps"
  | blankName => "step name is empty"
  | duplicateName name => "duplicate step name '" ++ name ++ "'"

def fault (f : Flaw) : Fault := .validation f.message

end Flaw

/-- checks the names of steps against those seen; the result is all seen then -/
def checkSteps (seen : List String) : List Step → Except Flaw (List String)
  | [] => .ok seen
  | step :: steps =>
    if Text.isBlankText step.name then .error .blankName
    else if step.name ∈ seen then .error (.duplicateName step.name)
    else checkSteps (step.name :: seen) steps

/-- a group without steps -/
def emptyGroup? : Phase → Option Flaw
  | .parallel name [] => some (.emptyGroup name)
  | _ => none

/-- checks phases one after the other against the names seen -/
def checkPhases (seen : List String) : List Phase → Except Flaw (List String)
  | [] => .ok seen
  | phase :: phases =>
    match emptyGroup? phase with
    | some flaw => .error flaw
    | none =>
      match checkSteps seen phase.steps with
      | .error flaw => .error flaw
      | .ok seen => checkPhases seen phases

/-- the first flaw of a plan -/
def check (phases : List Phase) : Except Flaw Unit :=
  if phases.isEmpty then .error .noPhases
  else (checkPhases [] phases).map (fun _ => ())

end Relay.Plan
