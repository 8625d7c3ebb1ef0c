import FlowEngine.Session.Graph
/-! Sessions: one tenant's inputs for a flow, and the records of its steps.

Two books hold the values: one by flow input, one by the step whose output was wrapped. A value gets
a slot number on arrival, by which its upload finds it again. -/

namespace FlowEngine

inductive SessionState where
  | created
  | running
  | finished
  | error
  deriving DecidableEq, Repr

namespace SessionState

def label : SessionState → String
  | .created => "CREATED"
  | .running => "RUNNING"
  | .finished => "FINISHED"
  | .error => "ERROR"

def spellings : List (String × SessionState) :=
  [SessionState.created, .running, .finished, .error].map fun s => (s.label, s)

def read {N : Type} [Markup.Form N] : Markup.Reader N SessionState :=
  Markup.oneOf SessionState.spellings

def toJson (s : SessionState) : Json := .str s.label

end SessionState

structure Session where
  id : String
  tenant : String
  flow : Flow
  createdAt : Int
  state : SessionState
  inputs : InputBook
  /-- Outputs handed on as values, by the step that they came from. -/
  redirected : InputBook
  nextSlot : Nat
  generation : Nat
  graph : StepGraph
  deriving DecidableEq, Repr

namespace Session

/-- A session without steps or values. -/
def bare (id tenant : String) (flow : Flow) (now : Int) (graph : StepGraph) : Session where
  id := id
  tenant := tenant
  flow := flow
  createdAt := now
  state := .created
  inputs := .empty
  redirected := .empty
  nextSlot := 1
  generation := 0
  graph := graph

def new (id tenant : String) (flow : Flow) (now : Int) : Except EngineFault Session := do
  .ok (bare id tenant flow now (← StepGraph.build id flow now))

def started (s : Session) : Session :=
  { s with state := .running, generation := s.generation + 1 }

/-- Starts a run, unless one is in progress; gives its number. -/
def startRun (s : Session) : Except EngineFault (Nat × Session) :=
  if s.state = .running then .error (.sessionRunning s.id)
  else .ok (s.generation + 1, s.started)

def hasRunningStep (s : Session) : Bool :=
  s.graph.nodes.any fun x => x.record.isRunning

/-- The moment of the last change of a step; of the creation, if there are no steps. -/
def lastUpdatedAt (s : Session) : Int :=
  ((s.graph.nodes.map fun x => x.record.lastUpdatedAt).max?).getD s.createdAt

def isStale (s : Session) (now : Int) : Bool :=
  addTime s.lastUpdatedAt s.flow.ttlSeconds < now

def execution (s : Session) (step : String) : Except EngineFault StepExecution :=
  match s.graph.node? step with
  | some x => .ok x
  | none => .error (.unknownStep s.flow.id.text step)

def flowInput (s : Session) (input : String) : Except EngineFault FlowInput :=
  match s.flow.findInput? input with
  | some i => .ok i
  | none => .error (.unknownInput s.flow.id.text input)

def modifyRecord (s : Session) (i : Nat) (f : StepRecord → StepRecord) : Session :=
  { s with graph := s.graph.modifyRecord i f }

def slotted (s : Session) (value : Input) : Input × Session :=
  ({ value with slot := s.nextSlot }, { s with nextSlot := s.nextSlot + 1 })

/-- Adds a value; it displaces earlier ones unless the flow input takes several. -/
def addInput (s : Session) (input : String) (value : Input) :
    Except EngineFault (List Input × Session) := do
  let declared ← s.flowInput input
  let (value, s) := s.slotted value
  if declared.multipleValued then
    .ok ([], { s with inputs := s.inputs.add input value })
  else
    .ok (s.inputs.get input, { s with inputs := s.inputs.set input [value] })

def addText (s : Session) (input text : String) : Except EngineFault (List Input × Session) := do
  let declared ← s.flowInput input
  s.addInput input (.ofText declared.name text)

def replaceInput (s : Session) (input : String) (value : Input) :
    Except EngineFault (List Input × Session) := do
  let _ ← s.flowInput input
  let (value, s) := s.slotted value
  .ok (s.inputs.get input, { s with inputs := s.inputs.set input [value] })

def clearInput (s : Session) (input : String) : Except EngineFault (List Input × Session) := do
  let _ ← s.flowInput input
  .ok (s.inputs.get input, { s with inputs := s.inputs.erase input })

def addRedirected (s : Session) (step : String) (value : Input) : Session :=
  let (value, s) := s.slotted value
  { s with redirected := s.redirected.add step value }

def removeRedirected (s : Session) (step : String) (value : Input) : Bool × Session :=
  let values := s.redirected.get step
  if values.any fun v => v.alike value then
    match values.eraseP fun v => v.alike value with
    | [] => (true, { s with redirected := s.redirected.erase step })
    | rest => (true, { s with redirected := s.redirected.set step rest })
  else (false, s)

/-- All values by key, those handed on after those supplied. -/
def allInputs (s : Session) : InputBook :=
  s.inputs.append s.redirected

def pendingUploads (s : Session) : List Input :=
  (s.inputs.values ++ s.redirected.values).filter fun v => !v.isUploaded

/-- Notes the file of the value in a slot; says whether the value is still there. -/
def recordFile (s : Session) (slot : Nat) (file : String) : Bool × Session :=
  let note := fun (v : Input) => if v.slot = slot then { v with file := some file } else v
  ((s.inputs.values ++ s.redirected.values).any fun v => v.slot == slot,
    { s with inputs := s.inputs.map note, redirected := s.redirected.map note })

/-- Takes out the uploaded values handed on from the given steps. -/
def takeUploadedRedirected (s : Session) (steps : List String) : List Input × Session :=
  let (taken, book) := steps.foldl (fun (acc : List Input × InputBook) step =>
      let (taken, book) := acc
      match book.get? step with
      | none => acc
      | some values =>
        (taken ++ values.filter Input.isUploaded,
          book.set step (values.filter fun v => !v.isUploaded)))
    ([], s.redirected)
  (taken, { s with redirected := book.compacted })

end Session

end FlowEngine
