import Relay.Workflow.Run

/-!
# Assembling workflow engines

An engine is assembled from definitions and handlers, which are registered in any order; of two for one
name the later counts. `Engine.Draft` is what has been registered so far. `Engine.assemble` turns down
definitions whose plan cannot be run, and steps whose undo names a handler that is not registered, so that
a registered workflow never fails for these reasons. Only definitions that are left at the end are looked
at, with the handlers that are there then.
-/

namespace Relay.Workflow

/-- why an engine cannot be assembled -/
inductive Engine.Flaw
  | plan (operation : String) (flaw : Plan.Flaw)
  | unknownHandler (operation step handler : String)
deriving DecidableEq, Repr

namespace Engine

namespace Flaw

def message : Flaw → String
  | plan operation flaw => "workflow '" ++ operation ++ "': " ++ flaw.fault.message
  | unknownHandler operation step handler =>
    "workflow '" ++ operation ++ "' step '" ++ step ++ "' uses unregistered compensator '" ++
      handler ++ "'"

def fault (f : Flaw) : Fault := .config f.message

end Flaw

def namedUndo? (step : Plan.Step) : Option String :=
  match step.undo with
  | some (.named handler) => some handler
  | _ => none

/-- the flaw of a step whose undo names a handler that is not registered -/
def stepFlaw? (handlers : Table Handler) (operation : String) (step : Plan.Step) : Option Flaw :=
  (namedUndo? step).bind fun handler =>
    if (handlers.lookup handler).isSome then none
    else some (.unknownHandler operation step.name handler)

/-- the first flaw of a definition -/
def definitionFlaw? (handlers : Table Handler) (d : Definition) : Option Flaw :=
  match Plan.check d.phases with
  | .error flaw => some (.plan d.operation flaw)
  | .ok () => (Plan.steps d.phases).findSome? (stepFlaw? handlers d.operation)

/-- what an engine is given before it is assembled -/
inductive Registration
  | definition (definition : Definition)
  | handler (name : String) (handler : Handler)

/-- an engine that is being assembled -/
structure Draft where
  dispatcher : Dispatcher
  definitions : Table Definition := []
  handlers : Table Handler := []

namespace Draft

/-- takes a registration in, in place of an earlier one for its name -/
def register (d : Draft) : Registration → Draft
  | .definition definition =>
    { d with definitions := d.definitions.put definition.operation definition }
  | .handler name handler => { d with handlers := d.handlers.put name handler }

/-- the first flaw of a definition that is left -/
def flaw? (d : Draft) : Option Flaw :=
  d.definitions.findSome? fun entry => definitionFlaw? d.handlers entry.2

def build (d : Draft) : Except Flaw Engine :=
  match d.flaw? with
  | some flaw => .error flaw
  | none => .ok { dispatcher := d.dispatcher, definitions := d.definitions, handlers := d.handlers }

end Draft

/-- the engine that is given registrations, one after the other -/
def assemble (dispatcher : Dispatcher) (registrations : List Registration) : Except Flaw Engine :=
  (registrations.foldl Draft.register { dispatcher }).build

end Engine

end Relay.Workflow
