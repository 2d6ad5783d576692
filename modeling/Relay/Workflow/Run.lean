import Relay.Dispatch
import Relay.Plan.Flaw
import Relay.Plan.Numbering
import Relay.Workflow.Report

/-!
# Running workflows

A `Workflow.Engine` runs the phases of a plan one after the other. All steps of a phase are run and
awaited, whatever becomes of the others. A failed required step ends the run after its phase; then
the policy of the request says whether what was done stays, is reported as a partial success, or is
undone.

* `runStep`    one step as a call;
* `runPhases`  the phases until one fails;
* `rollback`   the undoing of the completed sequential steps, the last one first;
* `execute`    a request envelope with its report as the response.

What a run did is kept beside its report: a `PhaseRun` for each phase and an `UndoRun` for each undo.
-/

namespace Relay.Workflow

/-- undoes a step, whose output it is given; a failure is a fault -/
abbrev Handler := Context → Plan.Numbered → (output : Json) → Except Fault Unit

/-- what request ids and traces are made from -/
structure Names where
  /-- the request id of the call of the step with an index -/
  stepId : Nat → String
  /-- the request id of the undo of the step with an index -/
  undoId : Nat → String
  /-- the trace of a request that has none -/
  root : Trace

/-- what workflows are run with -/
structure Engine where
  dispatcher : Dispatcher
  definitions : Table Definition := []
  handlers : Table Handler := []

/-- the output of a step, with the notice of the failure that a substitute stands for -/
abbrev StepResult := Except Notice (Json × Option Notice)

structure StepRun where
  step : Plan.Numbered
  spec : Plan.Step
  result : StepResult
  /-- the call, if the step got as far as one -/
  call : Option CallRun

structure PhaseRun where
  phase : Plan.NumberedPhase
  /-- what the steps were given -/
  input : Json
  steps : List StepRun

/-- how a step was undone -/
inductive UndoAction
  /-- it declares no undo -/
  | none
  | call (run : CallRun)
  /-- by a handler with a context; no handler if none is registered -/
  | handler (name : String) (context : Context) (found : Bool)

/-- a step that a rollback came to -/
structure UndoRun where
  step : Plan.Numbered
  output : Json
  action : UndoAction
  result : Except Notice Unit

/-- what a rollback comes back to -/
structure Completed where
  step : Plan.Numbered
  output : Json

/-- the step that ended a run -/
structure Failure where
  step : String
  error : Notice

/-- a run so far -/
structure Progress where
  report : Report
  /-- the completed sequential steps, the last first -/
  done : List Completed := []
  /-- what the next phase is given -/
  input : Json
  failure : Option Failure := none
  phases : List PhaseRun := []

/-! ## one step -/

/-- the outcome of a step in the response to its call -/
def outcome (e : Envelope Tool.Answer) : StepResult :=
  match e.data, e.error with
  | some answer, notice => .ok (answer.content, notice)
  | none, some notice => .error notice
  | none, none =>
    .error (.ofKind .protocolAdapter "step response carries neither data nor error")

def callOutcome (run : CallRun) : StepResult :=
  match run.result with
  | .ok e => outcome e
  | .error fault => .error fault.notice

/-- the notice of a step whose arguments are neither an object nor null -/
def argumentsNotice (step : Plan.Numbered) : Notice :=
  .ofKind .validation ("arguments of step '" ++ step.name ++ "' must be an object")

/-- the arguments of a step with its input, which null leaves out -/
def stepArguments? (arguments input : Json) : Option Json :=
  let fields? : Option (Table Json) := match arguments with
    | .obj fields => some fields
    | .null => some []
    | _ => none
  fields?.map fun fields => .obj (if input.isNull then fields else Table.put "input" input fields)

variable (e : Engine) (names : Names) (now : Timestamp) (c : Context)

def runStep (input : Json) (step : Plan.Numbered) (spec : Plan.Step) : StepRun :=
  match stepArguments? spec.arguments input with
  | none => ⟨step, spec, .error (argumentsNotice step), none⟩
  | some arguments =>
    let header := c.childHeader step step.spanId (names.stepId step.index) names.root
    let run := e.dispatcher.call now spec.service (.ok header { tool := spec.tool, arguments })
    ⟨step, spec, callOutcome run, some run⟩

/-! ## phases -/

def phaseOutputs (steps : List StepRun) : Table Json :=
  steps.foldl (fun t s => match s.result with
    | .ok (output, _) => t.put s.step.name output
    | .error _ => t) []

/-- what the phase after this one is given -/
def nextInput (schedule : Plan.Schedule) (input : Json) (steps : List StepRun) : Json :=
  match schedule with
  | .parallelGroup => .obj (phaseOutputs steps)
  | .sequential =>
    match phaseOutputs steps with
    | (_, output) :: _ => output
    | [] => input

/-- enters the outcome of a step in the report -/
def Progress.record (p : Progress) (run : StepRun) : Progress :=
  let name := run.step.name
  match run.result with
  | .ok (output, recovered) =>
    let failures := match recovered with
      | some error => p.report.failures ++ [⟨name, error⟩]
      | none => p.report.failures
    { p with
      report := { p.report with
        failures
        results := p.report.results.put name output
        completed := p.report.completed ++ [name] }
      done := if run.step.schedule = .sequential then ⟨run.step, output⟩ :: p.done else p.done }
  | .error error =>
    { p with
      report := { p.report with failures := p.report.failures ++ [⟨name, error⟩] }
      failure := match p.failure with
        | some failure => some failure
        | none => if run.spec.required then some ⟨name, error⟩ else none }

def runPhase (p : Progress) (phase : Plan.NumberedPhase) : Progress :=
  let steps := phase.steps.map fun (step, spec) => runStep e names now c p.input step spec
  let recorded := steps.foldl Progress.record p
  { recorded with
    input := nextInput phase.schedule p.input steps
    phases := p.phases ++ [⟨phase, p.input, steps⟩] }

/-- runs phases until one of them fails -/
def runPhases (p : Progress) : List Plan.NumberedPhase → Progress
  | [] => p
  | phase :: phases =>
    let p := runPhase e names now c p phase
    match p.failure with
    | some _ => p
    | none => runPhases p phases

/-! ## rollback -/

/-- the arguments of the tool that undoes a step -/
def undoArguments (arguments output : Json) : Json :=
  let fields : Table Json := match arguments with
    | .obj fields => fields
    | _ => []
  .obj (Table.put "input" output fields)

/-- the header of an undo: it either happens or fails -/
def undoHeader (step : Plan.Numbered) : Header :=
  { c.childHeader step step.undoSpanId (names.undoId step.index) names.root with
    errorPolicy := some { c.policy with mode := .failFast } }

/-- the notice of an undo whose handler is not registered -/
def unknownHandlerNotice (name : String) : Notice :=
  .ofKind .notFound ("no compensating action named '" ++ name ++ "'")

/-- whether the call of a tool undid a step: a substitute does not prove it -/
def undoOutcome (run : CallRun) : Except Notice Unit :=
  match callOutcome run with
  | .ok (_, none) => .ok ()
  | .ok (_, some notice) => .error notice
  | .error notice => .error notice

def undo (done : Completed) : UndoRun :=
  let header := undoHeader names c done.step
  match done.step.undo with
  | none => ⟨done.step, done.output, .none, .ok ()⟩
  | some (.tool service tool arguments) =>
    let run := e.dispatcher.call now service
      (.ok header { tool, arguments := undoArguments arguments done.output })
    ⟨done.step, done.output, .call run, undoOutcome run⟩
  | some (.named name) =>
    let context := Context.ofHeader header {}
    match e.handlers.lookup name with
    | none =>
      ⟨done.step, done.output, .handler name context false, .error (unknownHandlerNotice name)⟩
    | some handler =>
      ⟨done.step, done.output, .handler name context true,
        (handler context done.step done.output).mapError Fault.notice⟩

def Report.recordUndo (r : Report) (run : UndoRun) : Report :=
  let name := run.step.name
  match run.action, run.result with
  | .none, _ => { r with uncompensated := r.uncompensated ++ [name] }
  | _, .ok () => { r with compensated := r.compensated ++ [name] }
  | _, .error error =>
    { r with compensationFailures := r.compensationFailures ++ [⟨name, error⟩] }

/-- undoes completed steps in the given order -/
def rollback (done : List Completed) (r : Report) : Report × List UndoRun :=
  let runs := done.map (undo e names now c)
  (runs.foldl Report.recordUndo r, runs)

/-! ## runs -/

/-- a finished run -/
structure Run where
  report : Report
  /-- what ended the run, or the first failure of a partial success -/
  error : Option Notice
  phases : List PhaseRun := []
  undos : List UndoRun := []

/-- the run of a request that was turned down -/
def Run.rejected (r : Report) (fault : Fault) : Run :=
  { report := { r with state := .failed }, error := some fault.notice }

/-- ends a run in which no required step failed -/
def finishUnbroken (p : Progress) : Run :=
  match p.report.failures with
  | first :: _ =>
    { report := { p.report with state := .partialSuccess }, error := some first.error
      phases := p.phases }
  | [] => { report := { p.report with state := .completed }, error := none, phases := p.phases }

/-- whether a failure leaves what was done as a partial success -/
def staysPartial (policy : Policy) (failure : Failure) : Bool :=
  policy.mode = .allowPartial && !failure.error.kind.failsFast

def rollbackState (r : Report) : State :=
  if r.compensationFailures.isEmpty && r.uncompensated.isEmpty then .failedWithRollback else .failed

/-- ends a run in which a required step failed -/
def finishBroken (p : Progress) (failure : Failure) : Run :=
  let report := { p.report with failed := some failure.step }
  let error := some failure.error
  if staysPartial c.policy failure then
    { report := { report with state := .partialSuccess }, error, phases := p.phases }
  else if c.policy.rollbackOnFailure then
    let (report, undos) := rollback e names now c p.done report
    { report := { report with state := rollbackState report }, error, phases := p.phases, undos }
  else { report := { report with state := .failed }, error, phases := p.phases }

/-- ends a run -/
def finish (p : Progress) : Run :=
  match p.failure with
  | none => finishUnbroken p
  | some failure => finishBroken e names now c p failure

/-- the fault of an operation that is not registered -/
def unknownOperation (operation : String) : Fault :=
  .notFound ("unknown workflow operation '" ++ operation ++ "'")

/-- the plan of a request: its own, or the registered one -/
def Engine.plan (e : Engine) (request : Request) : Except Fault (List Plan.Phase) := do
  let phases ← match request.plan with
    | some phases => .ok phases
    | none =>
      match e.definitions.lookup request.operation with
      | some definition => .ok definition.phases
      | none => .error (unknownOperation request.operation)
  match Plan.check phases with
  | .ok () => return phases
  | .error flaw => throw flaw.fault

def run (request : Request) (report : Report) : Run :=
  match e.plan request with
  | .error fault => .rejected report fault
  | .ok phases =>
    finish e names now c <|
      runPhases e names now c { report, input := request.input } (Plan.number phases)

/-- the context of a workflow -/
def contextOf (d : Dispatcher) (names : Names) (header : Header) (operation : String) : Context :=
  (Context.ofHeader header d.defaultPolicy).ensureTrace names.root |>.withWorkflow
    { workflowId := header.requestId, operation }

def emptyFault : Fault := .validation "workflow envelope carries no request"

/-- puts a run into a response envelope; a failed one carries its report in the notice -/
def Run.envelope (r : Run) (header : Header) : Envelope Report :=
  match r.error with
  | none => .ok header r.report
  | some notice =>
    if r.report.state = .partialSuccess then .partly header (some r.report) notice
    else .partly header none { notice with details := some (Wire.toJson r.report) }

def Engine.start (e : Engine) (names : Names) (now : Timestamp) (request : Envelope Request) : Run :=
  let operation := (request.data.map Request.operation).getD ""
  let report : Report := { workflowId := request.header.requestId, operation }
  match request.data with
  | none => .rejected report emptyFault
  | some body =>
    Workflow.run e names now (contextOf e.dispatcher names request.header operation) body report

/-- how long a run took: the steps of a phase overlap -/
def Run.elapsedMs (r : Run) : Nat :=
  let ofCall (run : Option CallRun) : Nat := (run.map CallRun.elapsedMs).getD 0
  let ofPhase (p : PhaseRun) : Nat := (p.steps.map (fun s => ofCall s.call)).foldl max 0
  let ofUndo (u : UndoRun) : Nat := match u.action with
    | .call run => run.elapsedMs
    | _ => 0
  (r.phases.map ofPhase).foldl (· + ·) 0 + (r.undos.map ofUndo).foldl (· + ·) 0

/-- runs the request of an envelope and answers it -/
def Engine.execute (e : Engine) (names : Names) (now : Timestamp) (request : Envelope Request) :
    Envelope Report × Run :=
  let run := e.start names now request
  let root := request.header.tracing.getD names.root
  let header := { request.header.respond now (UInt64.ofNat run.elapsedMs) with tracing := some root }
  (run.envelope header, run)

end Relay.Workflow
