import FlowEngine.Flow.Basic
/-! The redirect relation between step identifiers, and the test for cycles in it.

Each identifier has the sources of the last step declared with it. `hasCycle` visits the declared
steps in turn, each step before its sources; a cycle shows as a source that is on the stack, which
holds the steps whose sources are being visited. -/

namespace FlowEngine.Flow

/-- The sources of the last step declared with the identifier. -/
def sourcesOf (f : Flow) (id : StepId) : List StepId :=
  ((f.steps.reverse.find? fun s => s.id == id).map Step.sources).getD []

/-- `b` is among the sources of `a`. -/
def Redirects (f : Flow) (a b : StepId) : Prop :=
  b ∈ f.sourcesOf a

/-- `b` is reached from `a` by one or more redirects. -/
inductive Reaches (f : Flow) : StepId → StepId → Prop where
  | single {a b : StepId} : f.Redirects a b → Reaches f a b
  | tail {a b c : StepId} : Reaches f a b → f.Redirects b c → Reaches f a c

/-- Goes on to a step, unless it has been visited; gives the steps visited by then, or nothing if
the step is on the stack. -/
def follow (visit : List StepId → StepId → Option (List StepId)) (stack : List StepId)
    (visited : List StepId) (id : StepId) : Option (List StepId) :=
  if stack.contains id then none
  else if visited.contains id then some visited
  else visit visited id

/-- Visits a step and what it reaches; the first argument bounds how long the stack can get. -/
def visit (f : Flow) : Nat → List StepId → List StepId → StepId → Option (List StepId)
  | 0, _, _, _ => none
  | depth + 1, stack, visited, id =>
    (f.sourcesOf id).foldlM (follow (visit f depth (id :: stack)) (id :: stack)) (id :: visited)

def hasCycle (f : Flow) : Bool :=
  ((f.steps.map Step.id).foldlM (follow (f.visit (f.steps.length + 1) []) []) []).isNone

end FlowEngine.Flow
