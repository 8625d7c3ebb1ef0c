import FlowEngine.Engine.Fault
import FlowEngine.Session.Record
/-! The steps of a session, each with the steps whose output it redirects.

Nodes are laid out so that every node comes after the nodes it requires. `StepGraph.build` visits
the declared steps in turn, and before each step the sources of its redirects; of steps with the
same identifier the first declared one counts. -/

namespace FlowEngine

structure StepExecution where
  session : String
  step : Step
  index : Nat
  /-- The positions of the nodes whose output the step redirects. -/
  required : List Nat
  record : StepRecord
  deriving DecidableEq, Repr

namespace StepExecution

def id (x : StepExecution) : String := s!"{x.session}/{x.step.id.text}"

def report (x : StepExecution) : StepReport where
  id := x.id
  session := x.session
  step := x.step.id.text
  stepName := x.step.name
  order := x.step.order
  state := x.record.state
  startedAt := x.record.startedAt
  lastUpdatedAt := x.record.lastUpdatedAt
  finishedAt := x.record.finishedAt
  output := x.record.output
  errorMessage := x.record.errorMessage
  conversation := x.record.conversation
  appRun := x.record.appRun

/-- The order of steps: by declared order, then by identifier. -/
def le (a b : StepExecution) : Bool :=
  a.step.order < b.step.order || (a.step.order == b.step.order && textLe a.id b.id)

end StepExecution

structure StepGraph where
  nodes : List StepExecution
  deriving DecidableEq, Repr

namespace StepGraph

def empty : StepGraph := ⟨[]⟩

def position? (g : StepGraph) (step : String) : Option Nat :=
  g.nodes.findIdx? fun x => x.step.id.text == step

def node? (g : StepGraph) (step : String) : Option StepExecution :=
  g.nodes.find? fun x => x.step.id.text == step

/-- The nodes that a node requires, in the order of their first mention. -/
def requiredOf (g : StepGraph) (x : StepExecution) : List StepExecution :=
  x.required.filterMap fun i => g.nodes[i]?

/-- Puts a node before the first one that it may come before. -/
def insertInOrder (x : StepExecution) : List StepExecution → List StepExecution
  | [] => [x]
  | y :: rest => if x.le y then x :: y :: rest else y :: insertInOrder x rest

def inOrder (g : StepGraph) : List StepExecution :=
  g.nodes.foldr insertInOrder []

def modifyRecord (g : StepGraph) (i : Nat) (f : StepRecord → StepRecord) : StepGraph :=
  ⟨g.nodes.modify i fun x => { x with record := f x.record }⟩

def addNew (i : Nat) (positions : List Nat) : List Nat :=
  if i ∈ positions then positions else positions ++ [i]

structure Setting where
  session : String
  flow : Flow
  now : Int

/-- Positions without repeats, and the nodes laid out so far. -/
abbrev Layout := List Nat × List StepExecution

def addPlace (place : StepId → List StepExecution → Except EngineFault (Nat × List StepExecution))
    (layout : Layout) (id : StepId) : Except EngineFault Layout := do
  let (i, nodes) ← place id layout.2
  .ok (addNew i layout.1, nodes)

/-- Sees to it that a step has a node; gives its position. `path` holds the steps whose sources are
being visited, and the first argument bounds how many more can be. -/
def place (c : Setting) : Nat → List StepId → StepId → List StepExecution →
    Except EngineFault (Nat × List StepExecution)
  | depth, path, id, nodes =>
    match nodes.findIdx? fun x => x.step.id == id with
    | some i => .ok (i, nodes)
    | none =>
      if id ∈ path then .error (.cyclicDependency id.text)
      else
        match c.flow.steps.find? fun s => s.id == id with
        | none => .error (.unknownStep c.flow.id.text id.text)
        | some step =>
          match depth with
          | 0 => .error (.cyclicDependency id.text)
          | depth + 1 => do
            let (required, nodes) ←
              step.sources.foldlM (addPlace (place c depth (id :: path))) ([], nodes)
            .ok (nodes.length, nodes ++
              [⟨c.session, step, nodes.length, required, StepRecord.fresh c.now⟩])

def build (session : String) (flow : Flow) (now : Int) : Except EngineFault StepGraph := do
  let c : Setting := ⟨session, flow, now⟩
  let (_, nodes) ←
    (flow.steps.map Step.id).foldlM (addPlace (place c flow.steps.length [])) ([], [])
  .ok ⟨nodes⟩

end StepGraph

end FlowEngine
