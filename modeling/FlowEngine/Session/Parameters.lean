import FlowEngine.Session.Basic
/-! The parameters for a document made from a session: the outputs of the steps that are done, and
the texts of the flow inputs that are passed through. They are listed in the order of their names; a
flow input takes the place of a step with the same identifier. -/

namespace FlowEngine

abbrev Parameters := Table String String

/-- The texts of a flow input's values, a blank line between them. -/
def joinTexts (values : List Input) : String :=
  "\n\n".intercalate (values.map fun v => v.payload.toTextLossy)

def Session.outputs (s : Session) : Parameters :=
  s.graph.inOrder.filterMap fun x =>
    if x.record.isDone then x.record.output.map fun o => (x.step.id.text, o) else none

def Session.passedThrough (s : Session) : Parameters :=
  (s.flow.inputs.filter FlowInput.passthrough).filterMap fun i =>
    (s.inputs.get? i.id.text).map fun values => (i.id.text, joinTexts values)

def Session.parameters (s : Session) : Parameters :=
  (s.outputs ++ s.passedThrough).foldl (fun all p => all.put p.1 p.2) []

end FlowEngine
