import FlowEngine.Engine.Inputs
import FlowEngine.Text.Blank
/-! Running a step: first the steps it requires, then the step itself.

A step that is done is not run for another one that requires it. A conflict or an interruption in a
required step is passed on and leaves the requiring step alone; any other failure fails it too. -/

namespace FlowEngine

structure PollLimits where
  interval : Nat
  limit : Nat
  deriving DecidableEq, Repr

/-- How steps are run: the kinds of target that can be reached, and how they are polled. -/
structure Dispatcher where
  targets : List TargetType
  poll : PollLimits
  deriving DecidableEq, Repr

def Dispatcher.standard (poll : PollLimits) : Dispatcher :=
  ⟨[.service, .assistant, .app], poll⟩

structure StepOrder where
  tenant : String
  session : Handle
  userInput : Option String
  withRequired : Bool
  deriving DecidableEq, Repr

namespace Steps

def question (description : String) (userInput : Option String) : String :=
  match (userInput.map Text.trim).filter fun words => !words.isEmpty with
  | none => description
  | some words => if description.isEmpty then words else description ++ "\n\n" ++ words

def request (o : StepOrder) (step : Step) (inUse : InUse) : ProviderRequest where
  target := step.target.externalId
  question := question inUse.description o.userInput
  files := inUse.files

/-- Asks an assistant: in the conversation of an earlier time, if there is one. -/
def askAssistant (o : StepOrder) (x : StepExecution) (inUse : InUse) : Attempt TargetOutcome := do
  let s ← Proc.session o.session
  match (s.graph.nodes[x.index]?).bind fun x => x.record.conversation with
  | some conversation =>
    let output ← Attempt.ask (.followUp o.tenant conversation (request o x.step inUse))
    pure ⟨output, none, some conversation⟩
  | none =>
    let answer ← Attempt.ask (.ask o.tenant (request o x.step inUse))
    Proc.change (.noteConversation o.session x.index answer.conversation)
    pure ⟨answer.answer, none, some answer.conversation⟩

/-- The run of an app: the one of an earlier time, or a new one that is noted at once. -/
def appRun (o : StepOrder) (x : StepExecution) (inUse : InUse) : Attempt String := do
  let s ← Proc.session o.session
  match (s.graph.nodes[x.index]?).bind fun x => x.record.appRun with
  | some run => pure run
  | none =>
    let run ← Attempt.ask (.runApp o.tenant (request o x.step inUse))
    Proc.change (.noteAppRun o.session x.index run)
    pure run

def execute (d : Dispatcher) (o : StepOrder) (x : StepExecution) (inUse : InUse) :
    Attempt TargetOutcome :=
  match x.step.target.targetType with
  | .service => do
    let output ← Attempt.ask (.runService o.tenant (request o x.step inUse))
    pure ⟨output, none, none⟩
  | .assistant => askAssistant o x inUse
  | .app => do
    let run ← appRun o x inUse
    let output ← Attempt.await ⟨o.tenant, run, x.step.name, d.poll.interval, d.poll.limit⟩
    pure ⟨output, some run, none⟩

def dispatch (d : Dispatcher) (o : StepOrder) (x : StepExecution) : Attempt TargetOutcome := do
  let inUse ← Inputs.prepare o.tenant o.session x.step
  if x.step.target.targetType ∈ d.targets then execute d o x inUse
  else throw (.targetNotImplemented x.step.target.targetType)

def recordFailure (o : StepOrder) (x : StepExecution) (fault : EngineFault) : Proc Unit := do
  let now ← Proc.now
  Proc.change (.fail o.session x.index fault.message now)
  let s ← Proc.session o.session
  Proc.log "error" "step.failed"
    s!"session_id={s.id} step_id={x.step.id.text} error={fault.message}"

def enterRunning (o : StepOrder) (x : StepExecution) : Attempt Unit := do
  let now ← Proc.now
  let s ← Proc.session o.session
  match (s.graph.nodes[x.index]?).bind fun x => x.record.begin? now with
  | none => throw (.stepRunning x.id)
  | some _ =>
    Proc.change (.begin o.session x.index now)
    Proc.log "info" "step.started"
      s!"session_id={s.id} step_id={x.step.id.text} target={x.step.target.targetType.label}"

def recordOutcome (o : StepOrder) (x : StepExecution) (outcome : TargetOutcome) :
    Proc StepReport := do
  let now ← Proc.now
  let s ← Proc.session o.session
  Proc.change (.complete o.session x.index outcome now)
  Proc.log "info" "step.done" s!"session_id={s.id} step_id={x.step.id.text}"
  let s ← Proc.session o.session
  pure ((s.graph.nodes[x.index]?).getD x).report

def runAlone (d : Dispatcher) (o : StepOrder) (x : StepExecution) : Attempt StepReport := do
  enterRunning o x
  match ← (dispatch d o x).outcome with
  | .ok outcome => recordOutcome o x outcome
  | .error fault =>
    recordFailure o x fault
    throw fault

/-- Whether a fault in a required step leaves the requiring step alone. -/
def leavesAlone (fault : EngineFault) : Bool :=
  fault.isConflict || fault.kind == .interrupted

def runRequired (run : String → Attempt StepReport) (o : StepOrder) (x required : StepExecution) :
    Attempt Unit := do
  let s ← Proc.session o.session
  if (s.graph.nodes[required.index]?).any fun x => x.record.isDone then pure ()
  else
    match ← (run required.step.id.text).outcome with
    | .ok _ => pure ()
    | .error fault =>
      if leavesAlone fault then throw fault
      else
        let fault := EngineFault.requiredStepFailed x.step.id.text required.step.id.text fault
        recordFailure o x fault
        throw fault

/-- Runs a step for the steps in `active`, which require each other in turn. The first argument
bounds how many more steps can be on that chain. -/
def runGuarded (d : Dispatcher) (o : StepOrder) : Nat → List String → String → Attempt StepReport
  | depth, active, step => do
    let s ← Proc.session o.session
    let x ← Attempt.ofExcept (s.execution step)
    if step ∈ active then throw (.cyclicDependency step)
    if x.record.isRunning then throw (.stepRunning x.id)
    match depth with
    | 0 => throw (.cyclicDependency step)
    | depth + 1 =>
      if o.withRequired then
        (s.graph.requiredOf x).forM fun required =>
          runRequired (runGuarded d o depth (step :: active)) o x required
      runAlone d o x

/-- Runs a step. A chain of required steps has at most as many steps as there are nodes. -/
def runStep (d : Dispatcher) (o : StepOrder) (step : String) : Attempt StepReport := do
  let s ← Proc.session o.session
  runGuarded d o s.graph.nodes.length [] step

end Steps

end FlowEngine
