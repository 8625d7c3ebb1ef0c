import FlowEngine.Settings.File
/-! The commands of the program: checking flow files, listing flows, and showing the settings. -/

namespace FlowEngine.CommandLine

def help : String :=
  "\n".intercalate
    ["Usage: docflow <command> [args]",
     "  validate <flow-file>...      check flow definition files",
     "  flows [--config <path>]      list flows found under `flows_path`",
     "  config [--config <path>]     show the effective settings",
     "  help                         show this message"]

inductive Command where
  | help
  | validate (paths : List String)
  | flows (config : Option String)
  | config (config : Option String)
  deriving DecidableEq, Repr

inductive Fault where
  | unknownCommand (name : String)
  | noFlowFile
  | badArguments
  | flow (fault : FlowFault)
  | invalid (path : String) (fault : FlowFault)
  | settings (fault : SettingsFault)
  deriving DecidableEq, Repr

def Fault.message : Fault → String
  | .unknownCommand name => s!"unknown command `{name}`\n" ++ CommandLine.help
  | .noFlowFile => "usage: docflow validate <flow-file>..."
  | .badArguments => "expected `--config <path>`"
  | .flow fault => fault.message
  | .invalid path fault => s!"{path}: {fault.message}"
  | .settings fault => fault.message

def configArgument : List String → Except Fault (Option String)
  | [] => .ok none
  | ["--config", path] => .ok (some path)
  | _ => .error .badArguments

def Command.parse : List String → Except Fault Command
  | [] => .ok .help
  | "help" :: _ => .ok .help
  | "--help" :: _ => .ok .help
  | "-h" :: _ => .ok .help
  | ["validate"] => .error .noFlowFile
  | "validate" :: paths => .ok (.validate paths)
  | "flows" :: args => (configArgument args).map Command.flows
  | "config" :: args => (configArgument args).map Command.config
  | name :: _ => .error (.unknownCommand name)

def settingsLines (s : Settings) : List String :=
  ["state_root=" ++ s.stateRoot.getD "none",
   "flows_path=" ++ s.flowsPath.getD "none",
   "provider.api_base=" ++ (s.provider.map ProviderSettings.apiBase).getD "none",
   s!"execution.worker_concurrency={s.execution.workerConcurrency}",
   s!"execution.poll_interval_millis={s.execution.pollIntervalMillis}",
   s!"execution.poll_max_duration_seconds={s.execution.pollMaxSeconds}",
   s!"reaper.enabled={s.sweep.enabled}",
   s!"reaper.interval_seconds={s.sweep.intervalSeconds}",
   s!"reaper.max_execution_seconds={s.sweep.maxSeconds}"]

def validLine (path : String) (f : Flow) : String :=
  s!"{path}: flow `{f.id.text}` version {f.version} ok " ++
    s!"({f.steps.length} steps, {f.inputs.length} inputs)"

def flowLine (f : Flow) : String :=
  s!"{f.id.text} version={f.version} name={f.name} ttl_minutes={f.ttlInMinutes}"

variable {m : Type → Type} [Monad m]

def validateFiles (disk : Disk m) : List String → m (Except Fault (List String))
  | [] => return .ok []
  | path :: rest => do
    match ← Flow.load disk path with
    | .error fault => return .error (.flow fault)
    | .ok flow =>
      match flow.validate with
      | .error fault => return .error (.invalid path fault)
      | .ok () =>
        let lines ← validateFiles disk rest
        return lines.map (validLine path flow :: ·)

def loadSettings (disk : Disk m) (s : Surrounding) : Option String → m (Except Fault Settings)
  | none => return (← Settings.loadDefault disk s).mapError .settings
  | some path => return (← Settings.load disk s path).mapError .settings

def latestFlows (r : Registry) : List Flow :=
  r.flowIds.filterMap r.latest?

def listFlows (disk : Disk m) (settings : Settings) : m (Except Fault String) := do
  match ← settings.registry disk with
  | .error fault => return .error (.flow fault)
  | .ok r =>
    match latestFlows r with
    | [] => return .ok "no flows"
    | flows => return .ok ("\n".intercalate (flows.map flowLine))

def perform (disk : Disk m) (s : Surrounding) : Command → m (Except Fault String)
  | .help => return .ok help
  | .validate paths => do
    return (← validateFiles disk paths).map fun lines => "\n".intercalate lines
  | .flows config => do
    match ← loadSettings disk s config with
    | .error fault => return .error fault
    | .ok settings => listFlows disk settings
  | .config config => do
    match ← loadSettings disk s config with
    | .error fault => return .error fault
    | .ok settings => return .ok ("\n".intercalate (settingsLines settings))

def run (disk : Disk m) (s : Surrounding) (args : List String) : m (Except Fault String) :=
  match Command.parse args with
  | .error fault => return .error fault
  | .ok command => perform disk s command

end FlowEngine.CommandLine
