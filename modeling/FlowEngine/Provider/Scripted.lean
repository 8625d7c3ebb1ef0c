import FlowEngine.Provider.Basic
/-! A provider that follows a script.

Targets answer with texts from a table, or fail; the run of an app goes through a list of states.
Files, runs and conversations are numbered from one. Every call is recorded, also one that fails. -/

namespace FlowEngine

/-- A call as it was made; an upload with the file that it made. -/
structure CallRecord where
  call : ProviderCall
  file : Option String
  deriving DecidableEq, Repr

/-- A run of an app, with the states that it still goes through. -/
structure ScriptedRun where
  target : String
  statuses : List RunStatus
  deriving DecidableEq, Repr

structure StoredFile where
  id : String
  name : String
  payload : Payload
  deriving DecidableEq, Repr

structure ScriptedProvider where
  answers : List (String × String)
  failures : List (String × String)
  statuses : List (String × List RunStatus)
  runs : List (String × ScriptedRun)
  files : List StoredFile
  deleted : List String
  uploads : Nat
  conversations : Nat
  calls : List CallRecord

namespace ScriptedProvider

def new (answers failures : List (String × String)) (statuses : List (String × List RunStatus)) :
    ScriptedProvider where
  answers := answers
  failures := failures
  statuses := statuses
  runs := []
  files := []
  deleted := []
  uploads := 0
  conversations := 0
  calls := []

def setFailure (p : ScriptedProvider) (target message : String) : ScriptedProvider :=
  { p with failures := (target, message) :: p.failures.filter fun f => f.1 ≠ target }

def clearFailure (p : ScriptedProvider) (target : String) : ScriptedProvider :=
  { p with failures := p.failures.filter fun f => f.1 ≠ target }

def record (p : ScriptedProvider) (call : ProviderCall) (file : Option String) :
    ScriptedProvider :=
  { p with calls := ⟨call, file⟩ :: p.calls }

def answerOf (p : ScriptedProvider) (target : String) : Except ProviderFault String :=
  match p.failures.lookup target with
  | some message => .error (.unavailable message)
  | none => .ok ((p.answers.lookup target).getD s!"{target} answer")

def startConversation (p : ScriptedProvider) (target : String) :
    Except ProviderFault AssistantAnswer × ScriptedProvider :=
  match p.answerOf target with
  | .error fault => (.error fault, p)
  | .ok answer =>
    (.ok ⟨s!"assistant-session-{p.conversations + 1}", answer⟩,
      { p with conversations := p.conversations + 1 })

def startRun (p : ScriptedProvider) (target : String) :
    Except ProviderFault String × ScriptedProvider :=
  match p.failures.lookup target with
  | some message => (.error (.unavailable message), p)
  | none =>
    let id := s!"run-{p.runs.length + 1}"
    let run : ScriptedRun := ⟨target, (p.statuses.lookup target).getD [.complete]⟩
    (.ok id, { p with runs := (id, run) :: p.runs })

/-- The present state of a run, and the states after it. The last state stays. -/
def advance : List RunStatus → RunStatus × List RunStatus
  | [] => (.complete, [])
  | [status] => (status, [status])
  | status :: rest => (status, rest)

def poll (p : ScriptedProvider) (id : String) :
    Except ProviderFault AppRun × ScriptedProvider :=
  match p.runs.lookup id with
  | none => (.ok ⟨.notFound, none⟩, p)
  | some run =>
    let (status, rest) := advance run.statuses
    let p := { p with runs := p.runs.map fun r =>
      if r.1 = id then (id, { run with statuses := rest }) else r }
    if status = .complete then ((p.answerOf run.target).map fun a => ⟨.complete, some a⟩, p)
    else (.ok ⟨status, none⟩, p)

def upload (p : ScriptedProvider) (name : String) (payload : Payload) :
    String × ScriptedProvider :=
  let id := s!"file-{p.uploads + 1}"
  (id, { p with uploads := p.uploads + 1, files := p.files ++ [⟨id, name, payload⟩] })

def delete (p : ScriptedProvider) (file : String) : ScriptedProvider :=
  { p with
    files := p.files.filter fun f => f.id ≠ file
    deleted := p.deleted ++ [file] }

def answer (p : ScriptedProvider) : (c : ProviderCall) → c.Outcome × ScriptedProvider
  | .runService tenant request =>
    let p := p.record (.runService tenant request) none
    (p.answerOf request.target, p)
  | .ask tenant request =>
    (p.record (.ask tenant request) none).startConversation request.target
  | .followUp tenant conversation request =>
    let p := p.record (.followUp tenant conversation request) none
    (p.answerOf request.target, p)
  | .runApp tenant request =>
    (p.record (.runApp tenant request) none).startRun request.target
  | .appRun tenant run =>
    (p.record (.appRun tenant run) none).poll run
  | .upload tenant name payload =>
    let (id, p) := p.upload name payload
    (.ok id, p.record (.upload tenant name payload) (some id))
  | .delete tenant file =>
    (.ok (), (p.record (.delete tenant file) none).delete file)

def callsFor (p : ScriptedProvider) (target : String) : Nat :=
  p.calls.countP fun c => c.call.target? == some target

end ScriptedProvider

end FlowEngine
