import FlowEngine.Json.Basic
import FlowEngine.Markup.Record
/-! The record of a step: its state, the moments of its changes, and what it brought about.

A step enters the running state only from another one. -/

namespace FlowEngine

inductive StepState where
  | created
  | running
  | done
  | error
  deriving DecidableEq, Repr

namespace StepState

def label : StepState → String
  | .created => "CREATED"
  | .running => "RUNNING"
  | .done => "DONE"
  | .error => "ERROR"

def isTerminal : StepState → Bool
  | .done | .error => true
  | .created | .running => false

def spellings : List (String × StepState) :=
  [StepState.created, .running, .done, .error].map fun s => (s.label, s)

end StepState

structure StepRecord where
  state : StepState
  startedAt : Option Int
  lastUpdatedAt : Int
  finishedAt : Option Int
  output : Option String
  errorMessage : Option String
  conversation : Option String
  appRun : Option String
  /-- The run of the session in which the step was last done; zero before. -/
  completedInRun : Nat
  deriving DecidableEq, Repr

namespace StepRecord

def fresh (now : Int) : StepRecord where
  state := .created
  startedAt := none
  lastUpdatedAt := now
  finishedAt := none
  output := none
  errorMessage := none
  conversation := none
  appRun := none
  completedInRun := 0

/-- Enters a state. The first start is kept; a terminal state sets the end, a start clears it. -/
def enter (r : StepRecord) (state : StepState) (now : Int) : StepRecord :=
  { r with
    state := state
    lastUpdatedAt := now
    startedAt := if state = .running then some (r.startedAt.getD now) else r.startedAt
    finishedAt :=
      if state = .running then none
      else if state.isTerminal then some now
      else r.finishedAt }

/-- Enters a state, unless that would start a running step. -/
def enter? (r : StepRecord) (state : StepState) (now : Int) : Option StepRecord :=
  if state = .running ∧ r.state = .running then none else some (r.enter state now)

def begin? (r : StepRecord) (now : Int) : Option StepRecord :=
  (r.enter? .running now).map fun r => { r with errorMessage := none }

def complete (r : StepRecord) (output : String) (now : Int) : StepRecord :=
  { r with output := some output, errorMessage := none }.enter .done now

/-- Ends the step with an error; an earlier output is kept. -/
def fail (r : StepRecord) (message : String) (now : Int) : StepRecord :=
  { r with errorMessage := some message }.enter .error now

def isRunning (r : StepRecord) : Bool := r.state == .running
def isDone (r : StepRecord) : Bool := r.state == .done

end StepRecord

structure StepReport where
  id : String
  session : String
  step : String
  stepName : String
  order : UInt32
  state : StepState
  startedAt : Option Int
  lastUpdatedAt : Int
  finishedAt : Option Int
  output : Option String
  errorMessage : Option String
  conversation : Option String
  appRun : Option String
  deriving DecidableEq, Repr

open Markup

variable {N : Type} [Form N]

def StepState.read : Reader N StepState := oneOf StepState.spellings
def StepState.toJson (s : StepState) : Json := .str s.label

namespace StepReport

def read : Reader N StepReport :=
  RecordReader.read
    ((RecordReader.pure StepReport.mk)
      |>.both (.required "id" string)
      |>.both (.required "sessionId" string)
      |>.both (.required "stepId" string)
      |>.both (.required "stepName" string)
      |>.both (.required "order" uint32)
      |>.both (.required "state" StepState.read)
      |>.both (.nullable "startedAt" signed)
      |>.both (.required "lastUpdatedAt" signed)
      |>.both (.nullable "finishedAt" signed)
      |>.both (.nullable "output" string)
      |>.both (.nullable "errorMessage" string)
      |>.both (.nullable "externalSessionId" string)
      |>.both (.nullable "externalRunId" string))
    "struct StepExecutionSnapshot"

def toJson (r : StepReport) : Json :=
  .record [("id", .str r.id), ("sessionId", .str r.session), ("stepId", .str r.step),
    ("stepName", .str r.stepName), ("order", .nat r.order.toNat), ("state", r.state.toJson),
    ("startedAt", .option .int r.startedAt), ("lastUpdatedAt", .int r.lastUpdatedAt),
    ("finishedAt", .option .int r.finishedAt), ("output", .option .str r.output),
    ("errorMessage", .option .str r.errorMessage),
    ("externalSessionId", .option .str r.conversation),
    ("externalRunId", .option .str r.appRun)]

end StepReport

end FlowEngine
