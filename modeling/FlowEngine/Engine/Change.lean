import FlowEngine.Engine.State
/-! The changes that operations make to an engine, by name.

Each change is made at once; between two changes of an operation the engine may be looked at and the
provider be called. A change that addresses a session or a step which is not there does nothing. -/

namespace FlowEngine

/-- What brought a step to its end. -/
structure TargetOutcome where
  output : String
  appRun : Option String
  conversation : Option String
  deriving DecidableEq, Repr

namespace StepRecord

def begin (r : StepRecord) (now : Int) : StepRecord := (r.begin? now).getD r

def finish (r : StepRecord) (outcome : TargetOutcome) (generation : Nat) (now : Int) :
    StepRecord :=
  { r.complete outcome.output now with
    appRun := outcome.appRun.or r.appRun
    conversation := outcome.conversation.or r.conversation
    completedInRun := generation }

end StepRecord

def Session.withValues (s t : Session) : Session :=
  { s with inputs := t.inputs, redirected := t.redirected, nextSlot := t.nextSlot }

inductive Change where
  | log (record : LogRecord)
  | enlist (s : Session)
  | withdraw (h : Handle)
  | sweep (inProgress : Bool)
  | values (h : Handle) (s : Session)
  | startRun (h : Handle)
  | finishRun (h : Handle)
  | failRun (h : Handle)
  | begin (h : Handle) (i : Nat) (now : Int)
  | complete (h : Handle) (i : Nat) (outcome : TargetOutcome) (now : Int)
  | fail (h : Handle) (i : Nat) (message : String) (now : Int)
  | noteConversation (h : Handle) (i : Nat) (conversation : String)
  | noteAppRun (h : Handle) (i : Nat) (run : String)
  deriving DecidableEq, Repr

namespace Engine

def modifyRecord (e : Engine) (h : Handle) (i : Nat) (f : StepRecord → StepRecord) : Engine :=
  e.modifySession h fun s => s.modifyRecord i f

end Engine

def Change.apply (e : Engine) : Change → Engine
  | .log r => e.log r.level r.event r.message
  | .enlist s => ((e.addSession s).store e.nextHandle).2
  | .withdraw h => { e with stored := e.stored.filter fun other => other ≠ h }
  | .sweep inProgress => { e with sweeping := inProgress }
  | .values h t => e.modifySession h fun s => s.withValues t
  | .startRun h => e.modifySession h Session.started
  | .finishRun h => e.modifySession h fun s => { s with state := .finished }
  | .failRun h => e.modifySession h fun s => { s with state := .error }
  | .begin h i now => e.modifyRecord h i fun r => r.begin now
  | .complete h i outcome now =>
    e.modifyRecord h i fun r => r.finish outcome (e.session h).generation now
  | .fail h i message now => e.modifyRecord h i fun r => r.fail message now
  | .noteConversation h i conversation =>
    e.modifyRecord h i fun r => { r with conversation := some conversation }
  | .noteAppRun h i run => e.modifyRecord h i fun r => { r with appRun := some run }

end FlowEngine
