import FlowEngine.Flow.Fault
import FlowEngine.Flow.Redirect
/-! Whether a flow is well formed. The first defect counts, in the order: name, time to live, flow
inputs, steps, references, cycles. -/

namespace FlowEngine.Flow

def checkInputs : List FlowInputId → List FlowInput → Except FlowDefect Unit
  | _, [] => .ok ()
  | met, i :: rest =>
    if i.id ∈ met then .error (.duplicateInput i.id)
    else if Text.isBlank i.name then .error (.blankInputName i.id)
    else checkInputs (i.id :: met) rest

def checkSteps : List StepId → List Step → Except FlowDefect Unit
  | _, [] => .ok ()
  | met, s :: rest =>
    if s.id ∈ met then .error (.duplicateStep s.id)
    else if Text.isBlank s.target.externalId then .error (.blankTarget s.id)
    else checkSteps (s.id :: met) rest

def checkReferences (f : Flow) (s : Step) : Except FlowDefect Unit :=
  match s.inputRefs.find? fun id => !f.inputs.any fun i => i.id == id with
  | some id => .error (.unknownInput s.id id)
  | none =>
    match s.sources.find? fun id => !f.steps.any fun t => t.id == id with
    | some id => .error (.unknownSource s.id id)
    | none => .ok ()

def checkParts (f : Flow) : Except FlowDefect Unit := do
  if Text.isBlank f.name then .error .blankName
  if f.ttlInMinutes = 0 then .error .zeroTtl
  checkInputs [] f.inputs
  checkSteps [] f.steps
  f.steps.forM f.checkReferences

def validate (f : Flow) : Except FlowFault Unit :=
  match f.checkParts with
  | .error defect => .error (.invalid f.id.text defect)
  | .ok () => if f.hasCycle then .error (.cyclicSteps f.id.text) else .ok ()

end FlowEngine.Flow
