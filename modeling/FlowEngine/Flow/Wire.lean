import FlowEngine.Flow.Basic
import FlowEngine.Json.Basic
import FlowEngine.Markup.Record
/-! The written form of flows.

Reading is described once for every form that `Markup.Form` covers; writing gives JSON with every
member, except that a step input has only the members of its kind. -/

namespace FlowEngine

open Markup

variable {N : Type} [Form N]

def InputType.spellings : List (String × InputType) :=
  [("TEXT", .text), ("text", .text), ("DOCUMENT", .document), ("document", .document)]

def TargetType.spellings : List (String × TargetType) :=
  [("SERVICE", .service), ("service", .service), ("ASSISTANT", .assistant),
   ("assistant", .assistant), ("APP", .app), ("app", .app)]

def InputType.read : Reader N InputType := oneOf InputType.spellings
def TargetType.read : Reader N TargetType := oneOf TargetType.spellings

def InputType.toJson (t : InputType) : Json := .str t.label
def TargetType.toJson (t : TargetType) : Json := .str t.label

def FlowInput.read : Reader N FlowInput :=
  RecordReader.read
    ((RecordReader.pure FlowInput.mk)
      |>.both (.required "id" (identifier .input))
      |>.both (.required "name" string)
      |>.both (.withDefault "description" "" string)
      |>.both (.withDefault "type" .text InputType.read)
      |>.both (.withDefault "optional" false boolean)
      |>.both (.withDefault "multipleValued" false boolean)
      |>.both (.withDefault "passthrough" false boolean))
    "struct FlowInput"

def FlowInput.toJson (i : FlowInput) : Json :=
  .record [("id", .str i.id.text), ("name", .str i.name), ("description", .str i.description),
    ("type", i.inputType.toJson), ("optional", .bool i.isOptional),
    ("multipleValued", .bool i.multipleValued), ("passthrough", .bool i.passthrough)]

def StepTarget.read : Reader N StepTarget :=
  RecordReader.read
    ((RecordReader.pure StepTarget.mk)
      |>.both (.required "type" TargetType.read)
      |>.both (.required "id" string))
    "struct StepTarget"

def StepTarget.toJson (t : StepTarget) : Json :=
  .record [("type", t.targetType.toJson), ("id", .str t.externalId)]

/-- The members of a step input, before it is known which kind it is. -/
structure StepInputDraft where
  flowInput : Option FlowInputId
  source : Option StepId
  useAs : Option String
  deriving DecidableEq, Repr

def StepInputDraft.refine : StepInputDraft → Except Rejection StepInput
  | ⟨some id, none, none⟩ => .ok (.flowInput id)
  | ⟨none, some source, some useAs⟩ =>
    if Text.isBlank useAs then .error .blankUseAs else .ok (.redirect source useAs)
  | ⟨none, some source, none⟩ => .error (.missingUseAs source.text)
  | _ => .error .unclearStepInput

def StepInputDraft.read : Reader N StepInputDraft :=
  RecordReader.read
    ((RecordReader.pure StepInputDraft.mk)
      |>.both (.withDefault "use-flow-input" none (optional (identifier .input)))
      |>.both (.withDefault "use-output-from-step" none (optional (identifier .step)))
      |>.both (.withDefault "use-as" none (optional string)))
    "struct StepInputRaw"

def StepInput.read : Reader N StepInput := fun node => do
  match (← StepInputDraft.read node).refine with
  | .ok input => .ok input
  | .error why => .error (.mismatch (.rejected why))

def StepInput.toJson : StepInput → Json
  | .flowInput id => .record [("use-flow-input", .str id.text)]
  | .redirect source useAs =>
    .record [("use-output-from-step", .str source.text), ("use-as", .str useAs)]

def Step.read : Reader N Step :=
  RecordReader.read
    ((RecordReader.pure Step.mk)
      |>.both (.required "id" (identifier .step))
      |>.both (.required "order" uint32)
      |>.both (.required "name" string)
      |>.both (.withDefault "description" "" string)
      |>.both (.required "target" StepTarget.read)
      |>.both (.withDefault "input" [] (listOf StepInput.read)))
    "struct Step"

def Step.toJson (s : Step) : Json :=
  .record [("id", .str s.id.text), ("order", .nat s.order.toNat), ("name", .str s.name),
    ("description", .str s.description), ("target", s.target.toJson),
    ("input", .list (s.inputs.map StepInput.toJson))]

def Flow.read : Reader N Flow :=
  RecordReader.read
    ((RecordReader.pure Flow.mk)
      |>.both (.required "id" (identifier .flow))
      |>.both (.required "version" uint32)
      |>.both (.required "name" string)
      |>.both (.withDefault "description" "" string)
      |>.both (.withDefault "inputPrefix" "" string)
      |>.both (.required "ttlInMinutes" uint64)
      |>.both (.withDefault "defaultTemplateId" none (optional string))
      |>.both (.withDefault "input" [] (listOf FlowInput.read))
      |>.both (.withDefault "steps" [] (listOf Step.read)))
    "struct Flow"

def Flow.toJson (f : Flow) : Json :=
  .record [("id", .str f.id.text), ("version", .nat f.version.toNat), ("name", .str f.name),
    ("description", .str f.description), ("inputPrefix", .str f.inputLead),
    ("ttlInMinutes", .nat f.ttlInMinutes.toNat),
    ("defaultTemplateId", .option .str f.defaultTemplateId),
    ("input", .list (f.inputs.map FlowInput.toJson)), ("steps", .list (f.steps.map Step.toJson))]

end FlowEngine
