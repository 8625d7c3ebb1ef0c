import FlowEngine.Host.Pool
import FlowEngine.Host.StatePaths
import FlowEngine.Provider.Http
import FlowEngine.Settings.File
/-! An engine in operation: launched from settings, and shut down again.

A launch makes the directories of the state root, if there is one, and keeps the journal there. -/

namespace FlowEngine

structure Host where
  engine : Engine
  pool : Pool
  facilities : Facilities
  sweep : SweepSettings

namespace Host

def pollLimits (s : ExecutionSettings) : PollLimits :=
  ⟨s.pollIntervalMillis.toNat * 1000000, s.pollMaxSeconds.toNat * 1000000000⟩

def facilitiesOf (s : ExecutionSettings) : Facilities where
  dispatcher := .standard (pollLimits s)
  renderer := none
  extractor := none

/-- Prepares the state root; says whether a journal can be kept there. -/
def openJournal (stateRoot : Option String) (files : FileTree) : Except HostFault Bool :=
  match stateRoot with
  | none => .ok false
  | some root => (StatePaths.prepare root files).map fun files => StatePaths.canAppend root files

def startNote (s : Settings) : LogRecord :=
  ⟨"info", "engine.started", s!"worker_concurrency={s.execution.workerConcurrency} " ++
    s!"reaper_enabled={s.sweep.enabled}"⟩

def stopNote : LogRecord := ⟨"info", "engine.stopped", "engine shut down"⟩

def launch (s : Settings) (registry : Registry) (files : FileTree) : Except HostFault Host := do
  let logging ← openJournal s.stateRoot files
  let pool := Pool.ofSize s.execution.workerConcurrency.toNat s.execution.completionBuffer.toNat
  let engine : Engine := { Engine.empty with registry := registry, logging := logging }
  .ok
    { engine := engine.note [pool.startNote, startNote s]
      pool := pool
      facilities := facilitiesOf s.execution
      sweep := s.sweep }

def flows (s : Settings) (files : FileTree) : Except HostFault Registry :=
  (Id.run (s.registry files.disk)).mapError .flow

def ofSettings (s : Settings) (files : FileTree) : Except HostFault (HttpProvider × Host) := do
  match s.provider with
  | none => .error .missingProvider
  | some provider =>
    let host ← launch s (← flows s files) files
    .ok (.ofSettings provider, host)

def shutDown (h : Host) : Host :=
  let (pool, engine) := h.pool.turn { h.engine with stopping := true } fun _ => .ok ()
  { h with pool := pool, engine := engine.note [stopNote] }

end Host

end FlowEngine
