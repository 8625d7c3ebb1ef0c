import FlowEngine.Identifier
import FlowEngine.Text.Blank
/-! Flows: the inputs that a tenant supplies and the steps that are run on them.

A step takes flow inputs and the outputs of other steps; the latter references are its redirects. -/

namespace FlowEngine

inductive InputType where
  | text
  | document
  deriving DecidableEq, Repr

inductive TargetType where
  | service
  | assistant
  | app
  deriving DecidableEq, Repr

def InputType.label : InputType → String
  | .text => "TEXT"
  | .document => "DOCUMENT"

def TargetType.label : TargetType → String
  | .service => "SERVICE"
  | .assistant => "ASSISTANT"
  | .app => "APP"

structure FlowInput where
  id : FlowInputId
  name : String
  description : String
  inputType : InputType
  isOptional : Bool
  multipleValued : Bool
  passthrough : Bool
  deriving DecidableEq, Repr

structure StepTarget where
  targetType : TargetType
  externalId : String
  deriving DecidableEq, Repr

inductive StepInput where
  | flowInput (id : FlowInputId)
  /-- The output of another step, handed on under the name `useAs`. -/
  | redirect (source : StepId) (useAs : String)
  deriving DecidableEq, Repr

structure Step where
  id : StepId
  order : UInt32
  name : String
  description : String
  target : StepTarget
  inputs : List StepInput
  deriving DecidableEq, Repr

structure Flow where
  id : FlowId
  version : UInt32
  name : String
  description : String
  inputLead : String
  ttlInMinutes : UInt64
  defaultTemplateId : Option String
  inputs : List FlowInput
  steps : List Step
  deriving DecidableEq, Repr

/-- Moments are whole seconds of 64 bits with sign. -/
def maxTime : Int := 9223372036854775807

def minTime : Int := -9223372036854775808

def addTime (a b : Int) : Int :=
  max minTime (min maxTime (a + b))

def StepInput.source? : StepInput → Option StepId
  | .flowInput _ => none
  | .redirect source _ => some source

def StepInput.flowInput? : StepInput → Option FlowInputId
  | .flowInput id => some id
  | .redirect _ _ => none

namespace Step

def sources (s : Step) : List StepId := s.inputs.filterMap StepInput.source?

def inputRefs (s : Step) : List FlowInputId := s.inputs.filterMap StepInput.flowInput?

end Step

namespace Flow

def findStep? (f : Flow) (id : String) : Option Step :=
  f.steps.find? fun s => s.id.text == id

def findInput? (f : Flow) (id : String) : Option FlowInput :=
  f.inputs.find? fun i => i.id.text == id

def ttlSeconds (f : Flow) : Int :=
  min maxTime (f.ttlInMinutes.toNat * 60)

end Flow

end FlowEngine
