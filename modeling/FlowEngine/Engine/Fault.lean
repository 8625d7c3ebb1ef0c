import FlowEngine.Flow.Fault
import FlowEngine.Provider.Basic
/-! How operations of the engine fail.

A failed step passes its fault on to the step that required it, so that the faults of a chain of
required steps are nested; `EngineFault.root` is the innermost one. -/

namespace FlowEngine

inductive EngineFault where
  | unknownSession (session : String)
  | unknownStep (flow step : String)
  | unknownInput (flow input : String)
  | stepRunning (execution : String)
  | sessionNotStarted (session : String)
  | sessionRunning (session : String)
  | cyclicDependency (step : String)
  | missingOutput (step source : String)
  | requiredStepFailed (step required : String) (cause : EngineFault)
  /-- A failure of which only the wording is known. -/
  | reported (reason : String)
  | targetNotImplemented (target : TargetType)
  | appRunFailed (step : String)
  | appRunNotFound (run : String)
  | appRunTimeout (step run : String) (milliseconds : Nat)
  | interrupted
  | extraction (name reason : String)
  | render (template reason : String)
  | missingTemplate (flow : String)
  | sessionId (reason : String)
  | provider (fault : ProviderFault)
  | flow (fault : FlowFault)
  deriving DecidableEq, Repr

inductive FaultKind where
  | notFound
  | conflict
  | configuration
  | externalCall
  | timeout
  | interrupted
  deriving DecidableEq, Repr

namespace EngineFault

def message : EngineFault → String
  | .unknownSession session => s!"session `{session}` not found"
  | .unknownStep flowId step => s!"step `{step}` not found in flow `{flowId}`"
  | .unknownInput flowId input => s!"flow input `{input}` not found in flow `{flowId}`"
  | .stepRunning execution => s!"step execution `{execution}` is already running"
  | .sessionNotStarted session =>
    s!"session `{session}` has not been started; run the whole session first"
  | .sessionRunning session => s!"session `{session}` is already running"
  | .cyclicDependency step => s!"step `{step}` depends on itself through its required steps"
  | .missingOutput step source =>
    s!"step `{step}` requires output of step `{source}`, which has none"
  | .requiredStepFailed step required cause =>
    s!"required step `{required}` of step `{step}` failed: " ++ cause.message
  | .reported reason => reason
  | .targetNotImplemented target => s!"no executor implemented for target type `{target.label}`"
  | .appRunFailed step => s!"app run for step `{step}` failed"
  | .appRunNotFound run => s!"app run `{run}` not found"
  | .appRunTimeout step run milliseconds =>
    s!"app run `{run}` for step `{step}` timed out after {milliseconds}ms"
  | .interrupted => "execution interrupted by engine shutdown"
  | .extraction name reason => s!"document text extraction failed for `{name}`: {reason}"
  | .render template reason => s!"template rendering failed for template `{template}`: {reason}"
  | .missingTemplate flowId => s!"no template id given and flow `{flowId}` has no default template"
  | .sessionId reason => s!"failed to generate session id: {reason}"
  | .provider fault => fault.message
  | .flow fault => fault.message

def kind : EngineFault → FaultKind
  | .unknownSession _ | .unknownStep _ _ | .unknownInput _ _ | .appRunNotFound _ => .notFound
  | .flow (.unknownFlow _ _) => .notFound
  | .stepRunning _ | .sessionNotStarted _ | .sessionRunning _ => .conflict
  | .cyclicDependency _ | .targetNotImplemented _ | .missingTemplate _ | .flow _ => .configuration
  | .appRunTimeout _ _ _ => .timeout
  | .interrupted => .interrupted
  | .missingOutput _ _ | .requiredStepFailed _ _ _ | .reported _ | .appRunFailed _
  | .extraction _ _ | .render _ _ | .sessionId _ | .provider _ => .externalCall

def isConflict (e : EngineFault) : Bool := e.kind == .conflict

def root : EngineFault → EngineFault
  | .requiredStepFailed _ _ cause => cause.root
  | e => e

end EngineFault

end FlowEngine
