import FlowEngine.Engine.Procedure
import FlowEngine.Session.InUse
/-! Bringing the values of a session to the provider as files, and releasing files again.

Before a step is run, the outputs that it redirects are wrapped as new values, the files of earlier
wrappings are deleted, and all values without a file are uploaded. -/

namespace FlowEngine

structure ReleaseSummary where
  released : Nat
  failed : Nat
  deriving DecidableEq, Repr

namespace Inputs

def deleteFile (tenant session file : String) : Proc Bool := do
  match ← Proc.ask (.delete tenant file) with
  | .ok _ => pure true
  | .error fault =>
    Proc.log "warn" "input.delete_failed"
      s!"session_id={session} file_id={file} error={fault.message}"
    pure false

/-- Wraps the outputs that a step redirects. -/
def resolveRedirects (h : Handle) (step : Step) : Attempt Unit := do
  let s ← Proc.session h
  let values ← Attempt.ofExcept (s.redirects step)
  Proc.change (.values h (s.addAllRedirected values))

def discardStale (tenant : String) (h : Handle) (step : Step) : Proc Unit := do
  let s ← Proc.session h
  let taken := s.takeUploadedRedirected (step.sources.map Identifier.text).eraseDups
  Proc.change (.values h taken.2)
  (taken.1.filterMap Input.file).forM fun file => do
    let _ ← deleteFile tenant s.id file

/-- Uploads a value that has no file. Says whether the value was still there; if it was not, the
file is deleted again. -/
def uploadOne (tenant : String) (h : Handle) (value : Input) : Attempt Bool := do
  let file ← Attempt.ask (.upload tenant value.name value.payload)
  let s ← Proc.session h
  let recorded := s.recordFile value.slot file
  Proc.change (.values h recorded.2)
  if recorded.1 then pure true
  else
    let _ ← (deleteFile tenant s.id file : Proc Bool)
    pure false

/-- Uploads the given values up to the first failure; counts those that were still there. -/
def uploadAll (tenant : String) (h : Handle) : List Input → Attempt Nat
  | [] => pure 0
  | value :: rest => do
    let recorded ← uploadOne tenant h value
    let more ← uploadAll tenant h rest
    pure (if recorded then more + 1 else more)

def uploadMissing (tenant : String) (h : Handle) : Attempt Nat := do
  let s ← Proc.session h
  uploadAll tenant h s.pendingUploads

/-- Gets a step ready to be run; tells the files that it is asked about. -/
def prepare (tenant : String) (h : Handle) (step : Step) : Attempt InUse := do
  resolveRedirects h step
  discardStale tenant h step
  let _ ← uploadMissing tenant h
  let s ← Proc.session h
  pure (s.inUse step)

def releaseFiles (tenant session : String) : List String → Proc ReleaseSummary
  | [] => pure ⟨0, 0⟩
  | file :: rest => do
    let deleted ← deleteFile tenant session file
    let ⟨released, failed⟩ ← releaseFiles tenant session rest
    pure (if deleted then ⟨released + 1, failed⟩ else ⟨released, failed + 1⟩)

def release (tenant session : String) (values : List Input) : Proc ReleaseSummary :=
  releaseFiles tenant session (values.filterMap Input.file)

def releaseSession (h : Handle) : Proc ReleaseSummary := do
  let s ← Proc.session h
  release s.tenant s.id s.allInputs.values

end Inputs

end FlowEngine
