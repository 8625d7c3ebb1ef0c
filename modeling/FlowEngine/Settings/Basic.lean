import FlowEngine.Disk.Path
import FlowEngine.Markup.Record
import FlowEngine.Text.Blank
/-! The settings of an engine, their defaults, and what can be wrong with them. -/

namespace FlowEngine

structure ProviderSettings where
  apiBase : String
  clientId : String
  clientSecret : String
  refreshMargin : UInt64
  deriving DecidableEq, Repr

structure ExecutionSettings where
  workerConcurrency : UInt64
  pollIntervalMillis : UInt64
  pollMaxSeconds : UInt64
  completionBuffer : UInt64
  deriving DecidableEq, Repr

structure SweepSettings where
  enabled : Bool
  intervalSeconds : UInt64
  maxSeconds : UInt64
  deriving DecidableEq, Repr

structure Settings where
  stateRoot : Option String
  flowsPath : Option String
  provider : Option ProviderSettings
  execution : ExecutionSettings
  sweep : SweepSettings
  deriving DecidableEq, Repr

def ExecutionSettings.standard : ExecutionSettings := ⟨4, 5000, 600, 256⟩

def SweepSettings.standard : SweepSettings := ⟨true, 60, 300⟩

inductive SettingsDefect where
  | relativeStateRoot
  | relativeFlowsPath
  | apiBase
  | blankClientId
  | blankClientSecret
  | zeroConcurrency
  | zeroBuffer
  | zeroPollInterval
  | zeroPollMax
  | intervalBeyondMax
  | zeroSweepInterval
  | zeroSweepMax
  | stated (reason : String)
  deriving DecidableEq, Repr

def SettingsDefect.message : SettingsDefect → String
  | .relativeStateRoot => "`state_root` must be an absolute path"
  | .relativeFlowsPath => "`flows_path` must be an absolute path"
  | .apiBase => "`provider.api_base` must be an http(s) url"
  | .blankClientId => "`provider.client_id` must be non-empty"
  | .blankClientSecret => "`provider.client_secret` must be non-empty"
  | .zeroConcurrency => "`execution.worker_concurrency` must be > 0"
  | .zeroBuffer => "`execution.completion_buffer` must be > 0"
  | .zeroPollInterval => "`execution.poll_interval_millis` must be > 0"
  | .zeroPollMax => "`execution.poll_max_duration_seconds` must be > 0"
  | .intervalBeyondMax =>
    "`execution.poll_interval_millis` must not exceed the poll max duration"
  | .zeroSweepInterval => "`reaper.interval_seconds` must be > 0 when `reaper.enabled=true`"
  | .zeroSweepMax => "`reaper.max_execution_seconds` must be > 0 when `reaper.enabled=true`"
  | .stated reason => reason

def startsWith (lead s : String) : Bool :=
  lead.toList.isPrefixOf s.toList

namespace ProviderSettings

def validate (p : ProviderSettings) : Except SettingsDefect Unit := do
  if !(startsWith "http://" p.apiBase || startsWith "https://" p.apiBase) then .error .apiBase
  if Text.isBlank p.clientId then .error .blankClientId
  if Text.isBlank p.clientSecret then .error .blankClientSecret

end ProviderSettings

def ExecutionSettings.validate (e : ExecutionSettings) : Except SettingsDefect Unit := do
  if e.workerConcurrency = 0 then .error .zeroConcurrency
  if e.completionBuffer = 0 then .error .zeroBuffer
  if e.pollIntervalMillis = 0 then .error .zeroPollInterval
  if e.pollMaxSeconds = 0 then .error .zeroPollMax
  if e.pollMaxSeconds.toNat * 1000 < e.pollIntervalMillis.toNat then .error .intervalBeyondMax

def SweepSettings.validate (s : SweepSettings) : Except SettingsDefect Unit := do
  if s.enabled then
    if s.intervalSeconds = 0 then .error .zeroSweepInterval
    if s.maxSeconds = 0 then .error .zeroSweepMax

namespace Settings

def validate (s : Settings) : Except SettingsDefect Unit := do
  if s.stateRoot.any fun path => !Disk.isAbsolute path then .error .relativeStateRoot
  if s.flowsPath.any fun path => !Disk.isAbsolute path then .error .relativeFlowsPath
  match s.provider with
  | some p => p.validate
  | none => pure ()
  s.execution.validate
  s.sweep.validate

def overrideApiBase (s : Settings) (address : String) : Settings :=
  if Text.isBlank address then s
  else { s with provider := s.provider.map fun p => { p with apiBase := Text.trim address } }

end Settings

open Markup

variable {N : Type} [Form N]

def ProviderSettings.read : Reader N ProviderSettings :=
  RecordReader.read
    ((RecordReader.pure ProviderSettings.mk)
      |>.both (.required "api_base" string)
      |>.both (.required "client_id" string)
      |>.both (.required "client_secret" string)
      |>.both (.withDefault "token_refresh_margin_seconds" 30 uint64))
    "struct ProviderSettings"

def ExecutionSettings.read : Reader N ExecutionSettings :=
  let standard := ExecutionSettings.standard
  RecordReader.read
    ((RecordReader.pure ExecutionSettings.mk)
      |>.both (.withDefault "worker_concurrency" standard.workerConcurrency uint64)
      |>.both (.withDefault "poll_interval_millis" standard.pollIntervalMillis uint64)
      |>.both (.withDefault "poll_max_duration_seconds" standard.pollMaxSeconds uint64)
      |>.both (.withDefault "completion_buffer" standard.completionBuffer uint64))
    "struct ExecutionSettings"

def SweepSettings.read : Reader N SweepSettings :=
  let standard := SweepSettings.standard
  RecordReader.read
    ((RecordReader.pure SweepSettings.mk)
      |>.both (.withDefault "enabled" standard.enabled boolean)
      |>.both (.withDefault "interval_seconds" standard.intervalSeconds uint64)
      |>.both (.withDefault "max_execution_seconds" standard.maxSeconds uint64))
    "struct ReaperSettings"

def Settings.read : Reader N Settings :=
  RecordReader.read
    ((RecordReader.pure Settings.mk)
      |>.both (.nullable "state_root" string)
      |>.both (.nullable "flows_path" string)
      |>.both (.nullable "provider" ProviderSettings.read)
      |>.both (.withDefault "execution" .standard ExecutionSettings.read)
      |>.both (.withDefault "reaper" .standard SweepSettings.read))
    "struct Settings"

end FlowEngine
