import FlowEngine.Engine.Steps
import FlowEngine.Session.Parameters
/-! The operations that tenants use: making sessions, supplying inputs, running, rendering,
deleting.

Every operation on a session looks it up for its tenant first; the session of another tenant is as
good as unknown. -/

namespace FlowEngine

/-- Makes a document from a template, for a tenant. -/
abbrev Renderer := String → String → Parameters → Except String Text.Bytes

/-- Takes the text out of a named document. -/
abbrev Extractor := String → Text.Bytes → Except String String

structure Facilities where
  dispatcher : Dispatcher
  renderer : Option Renderer
  extractor : Option Extractor

namespace Sessions

def idAttempts : Nat := 5

def createWith (tenant : String) (flow : Flow) (now : Int) : Nat → Attempt Handle
  | 0 => throw (.sessionId s!"no unused session id after {idAttempts} attempts")
  | attempts + 1 => do
    let word ← Proc.word
    match SessionId.generate now word with
    | .error fault => throw (.sessionId fault.message)
    | .ok id => do
      let s ← Attempt.ofExcept (Session.new id tenant flow now)
      let e ← Proc.engine
      if (e.find? id).isSome then createWith tenant flow now attempts
      else
        Proc.change (.enlist s)
        Proc.log "info" "session.created"
          s!"session_id={id} tenant={tenant} flow_id={flow.id.text} version={flow.version}"
        pure e.nextHandle

def create (tenant flow : String) (version : Option UInt32) : Attempt Handle := do
  let e ← Proc.engine
  match e.registry.load flow version with
  | .error fault => throw (.flow fault)
  | .ok flow => do
    let now ← Proc.now
    createWith tenant flow now idAttempts

def find (tenant id : String) : Attempt Handle := do
  let e ← Proc.engine
  match (e.find? id).filter fun h => (e.session h).tenant == tenant with
  | some h => pure h
  | none => throw (.unknownSession id)

/-- Changes the values of a session, then deletes the files of the values that were displaced. -/
def changeInputs (tenant id : String)
    (change : Session → Except EngineFault (List Input × Session)) : Attempt Unit := do
  let h ← find tenant id
  let s ← Proc.session h
  let (displaced, changed) ← Attempt.ofExcept (change s)
  Proc.change (.values h changed)
  if displaced.any Input.isUploaded then
    let _ ← (Inputs.release s.tenant s.id displaced : Proc ReleaseSummary)

def addText (tenant id input text : String) : Attempt Unit :=
  changeInputs tenant id fun s => s.addText input text

/-- Takes the text out of a document, if there is an extractor. -/
def extracted (f : Facilities) (declared : FlowInput) (value : Input) : Except EngineFault Input :=
  match f.extractor, declared.inputType, value.payload with
  | some extract, .document, .bytes bs =>
    match extract value.name bs with
    | .ok text => .ok (.ofText value.name text)
    | .error reason => .error (.extraction value.name reason)
  | _, _, _ => .ok value

def add (f : Facilities) (tenant id input : String) (value : Input) : Attempt Unit :=
  changeInputs tenant id fun s => do
    s.addInput input (← extracted f (← s.flowInput input) value)

def replace (f : Facilities) (tenant id input : String) (value : Input) : Attempt Unit :=
  changeInputs tenant id fun s => do
    s.replaceInput input (← extracted f (← s.flowInput input) value)

def clear (tenant id input : String) : Attempt Unit :=
  changeInputs tenant id fun s => s.clearInput input

def runStepBy (run : Handle → String → Attempt StepReport) (tenant id step : String) :
    Attempt StepReport := do
  let h ← find tenant id
  let s ← Proc.session h
  let x ← Attempt.ofExcept (s.execution step)
  if s.state = .created then throw (.sessionNotStarted id)
  if x.record.isRunning then throw (.stepRunning x.id)
  run h step

def runStep (f : Facilities) (tenant id step : String) (userInput : Option String)
    (withRequired : Bool) : Attempt StepReport :=
  runStepBy (fun h => Steps.runStep f.dispatcher ⟨tenant, h, userInput, withRequired⟩) tenant id
    step

/-- Runs a step, unless it has been done in the given run. -/
def runInTurn (run : String → Attempt StepReport) (h : Handle) (generation : Nat)
    (x : StepExecution) : Attempt Unit := do
  let s ← Proc.session h
  if (s.graph.nodes[x.index]?).any fun x =>
      x.record.isDone && x.record.completedInRun == generation then
    pure ()
  else
    let _ ← run x.step.id.text

def runAllSteps (run : String → Attempt StepReport) (tenant : String) (h : Handle)
    (generation : Nat) : Attempt Unit := do
  let _ ← Inputs.uploadMissing tenant h
  let s ← Proc.session h
  s.graph.inOrder.forM (runInTurn run h generation)

def runBy (run : Handle → String → Attempt StepReport) (tenant id : String) :
    Attempt SessionState := do
  let h ← find tenant id
  let s ← Proc.session h
  let (generation, _) ← Attempt.ofExcept s.startRun
  Proc.change (.startRun h)
  Proc.log "info" "session.started" s!"session_id={id} run={generation}"
  match ← (runAllSteps (run h) tenant h generation).outcome with
  | .ok () =>
    Proc.change (.finishRun h)
    Proc.log "info" "session.finished" s!"session_id={id}"
    pure .finished
  | .error fault =>
    Proc.change (.failRun h)
    Proc.log "error" "session.failed" s!"session_id={id} error={fault.message}"
    throw fault

/-- In a run of a session, a step is run with the steps that it requires. -/
abbrev stepOfRun (f : Facilities) (tenant : String) (h : Handle) : String → Attempt StepReport :=
  Steps.runStep f.dispatcher ⟨tenant, h, none, true⟩

def run (f : Facilities) (tenant id : String) : Attempt SessionState :=
  runBy (stepOfRun f tenant) tenant id

def report (tenant id step : String) : Attempt StepReport := do
  let h ← find tenant id
  let s ← Proc.session h
  let x ← Attempt.ofExcept (s.execution step)
  pure x.report

def render (f : Facilities) (tenant id : String) (template : Option String) :
    Attempt Text.Bytes := do
  let h ← find tenant id
  let s ← Proc.session h
  match template.or s.flow.defaultTemplateId with
  | none => throw (.missingTemplate s.flow.id.text)
  | some template =>
    match f.renderer with
    | none => throw (.render template "no template renderer configured")
    | some renderer =>
      match renderer tenant template s.parameters with
      | .ok document => pure document
      | .error reason => throw (.render template reason)

def releaseRemoved (h : Handle) : Proc ReleaseSummary := do
  let summary ← Inputs.releaseSession h
  let s ← Proc.session h
  Proc.log "info" "session.deleted"
    s!"session_id={s.id} released={summary.released} release_failures={summary.failed}"
  pure summary

/-- Takes the session with this one's identifier out of the store, and releases this one. -/
def remove (h : Handle) : Proc ReleaseSummary := do
  let e ← Proc.engine
  match (e.removeIf (e.session h).id fun _ => true).1 with
  | none => releaseRemoved h
  | some other => do
    Proc.change (.withdraw other)
    releaseRemoved h

def removeIf (id : String) (condition : Session → Bool) : Proc (Option ReleaseSummary) := do
  let e ← Proc.engine
  match (e.removeIf id condition).1 with
  | none => pure none
  | some h => do
    Proc.change (.withdraw h)
    let summary ← releaseRemoved h
    pure (some summary)

def delete (tenant id : String) : Attempt ReleaseSummary := do
  let h ← find tenant id
  (remove h : Proc ReleaseSummary)

end Sessions

end FlowEngine
