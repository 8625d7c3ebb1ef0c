import FlowEngine.Session.Basic
/-! The files that a step is asked about, and the text that tells which is which.

Each flow input that the step references and each step whose output it redirects counts once, at its
first mention. It gets a line in the description if it has files. -/

namespace FlowEngine

def describeInput (name : String) (files : List String) : String :=
  s!"you will find {name} in file(s) " ++ ", ".intercalate files

structure InputBlock where
  name : String
  files : List String
  deriving DecidableEq, Repr

/-- The files of a step in order, and their description. -/
structure InUse where
  files : List String
  description : String
  deriving DecidableEq, Repr

namespace Session

/-- The name and the values that a step input stands for; nothing for a value that is passed through
to the result. -/
def blockOf (s : Session) : StepInput → Option InputBlock
  | .flowInput id =>
    match s.flow.findInput? id.text with
    | none => none
    | some declared =>
      if declared.passthrough then none
      else some ⟨s.flow.inputLead ++ declared.name, (s.inputs.get id.text).filterMap Input.file⟩
  | .redirect source useAs =>
    some ⟨useAs, (s.redirected.get source.text).filterMap Input.file⟩

/-- Whether two step inputs have the same values. -/
def sameOrigin : StepInput → StepInput → Bool
  | .flowInput a, .flowInput b => a == b
  | .redirect a _, .redirect b _ => a == b
  | _, _ => false

/-- Keeps the first mention of each origin. -/
def firstMentions : List StepInput → List StepInput
  | [] => []
  | i :: rest => i :: (firstMentions rest).filter fun other => !sameOrigin i other

def blocks (s : Session) (step : Step) : List InputBlock :=
  ((firstMentions step.inputs).filterMap s.blockOf).filter fun b => !b.files.isEmpty

def inUse (s : Session) (step : Step) : InUse where
  files := (s.blocks step).flatMap InputBlock.files
  description := "\n".intercalate ((s.blocks step).map fun b => describeInput b.name b.files)

/-- The outputs that a step redirects, as values, with the steps they come from. -/
def redirects (s : Session) (step : Step) : Except EngineFault (List (String × Input)) :=
  step.inputs.filterMapM fun
    | .flowInput _ => .ok none
    | .redirect source useAs => do
      match (← s.execution source.text).record.output with
      | some output => .ok (some (source.text, .ofText useAs output))
      | none => .error (.missingOutput step.id.text source.text)

def addAllRedirected (s : Session) (values : List (String × Input)) : Session :=
  values.foldl (fun s v => s.addRedirected v.1 v.2) s

end Session

end FlowEngine
