import FlowEngine.Disk.Basic
import FlowEngine.Flow.Basic
import FlowEngine.Markup.Fault
/-! What can be wrong with a flow, with a flow file, and with a request for a flow. -/

namespace FlowEngine

inductive FlowDefect where
  | blankName
  | zeroTtl
  | duplicateInput (id : FlowInputId)
  | blankInputName (id : FlowInputId)
  | duplicateStep (id : StepId)
  | blankTarget (id : StepId)
  | unknownInput (step : StepId) (input : FlowInputId)
  | unknownSource (step : StepId) (source : StepId)
  | stated (reason : String)
  deriving DecidableEq, Repr

def FlowDefect.message : FlowDefect → String
  | .blankName => "`name` must be non-empty"
  | .zeroTtl => "`ttlInMinutes` must be > 0"
  | .duplicateInput id => s!"duplicate flow input id `{id.text}`"
  | .blankInputName id => s!"flow input `{id.text}` requires a non-empty `name`"
  | .duplicateStep id => s!"duplicate step id `{id.text}`"
  | .blankTarget id => s!"step `{id.text}` requires a non-empty target `id`"
  | .unknownInput step input => s!"step `{step.text}` references unknown flow input `{input.text}`"
  | .unknownSource step source => s!"step `{step.text}` uses output of unknown step `{source.text}`"
  | .stated reason => reason

inductive FlowFormat where
  | json
  | yaml
  deriving DecidableEq, Repr

def FlowFormat.label : FlowFormat → String
  | .json => "json"
  | .yaml => "yaml"

inductive FlowFault where
  | unreadable (path : String) (why : DiskFault)
  | illWritten (path : String) (format : FlowFormat) (why : Markup.Fault)
  | unsupportedFile (path : String)
  | invalid (flow : String) (defect : FlowDefect)
  | cyclicSteps (flow : String)
  | duplicateVersion (flow : String) (version : UInt32)
  | unknownFlow (flow : String) (version : Option UInt32)
  deriving DecidableEq, Repr

def FlowFault.message : FlowFault → String
  | .unreadable path why => s!"failed to read flow file {path}: {why.message}"
  | .illWritten path format _ => s!"invalid {format.label} in flow file {path}"
  | .unsupportedFile path =>
    s!"unsupported flow file extension for {path}; expected .json, .yaml or .yml"
  | .invalid flow defect => s!"flow `{flow}` is invalid: {defect.message}"
  | .cyclicSteps flow => s!"flow `{flow}` contains cyclic step dependencies"
  | .duplicateVersion flow version => s!"flow `{flow}` version {version} is already registered"
  | .unknownFlow flow none => s!"unknown flow `{flow}`"
  | .unknownFlow flow (some version) => s!"unknown flow `{flow}` version {version}"

end FlowEngine
