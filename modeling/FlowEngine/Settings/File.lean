import FlowEngine.Disk.Basic
import FlowEngine.Flow.File
import FlowEngine.Settings.Basic
import FlowEngine.Yaml.Shape
/-! Settings from a file, where the file is if none is named, and the flows that settings lead
to. -/

namespace FlowEngine

inductive SettingsFault where
  | unreadable (path : String) (why : DiskFault)
  | illWritten (path : String)
  | invalid (defect : SettingsDefect)
  | noHome
  deriving DecidableEq, Repr

def SettingsFault.message : SettingsFault → String
  | .unreadable path why => s!"failed to read file {path}: {why.message}"
  | .illWritten path => s!"invalid yaml in {path}"
  | .invalid defect => s!"settings validation failed: {defect.message}"
  | .noHome => "failed to resolve home directory for global config path"

structure Surrounding where
  apiBase : Option String
  home : Option String
  deriving DecidableEq, Repr

namespace Settings

def defaultPath (s : Surrounding) : Except SettingsFault String :=
  match s.home with
  | none => .error .noHome
  | some home => .ok (Disk.join (Disk.join home ".docflow") "config.yaml")

def ofText (path text : String) : Except SettingsFault Settings :=
  match (Yaml.Document.ofText text).read Settings.read with
  | .ok settings => .ok settings
  | .error _ => .error (.illWritten path)

variable {m : Type → Type} [Monad m]

def ofFile (disk : Disk m) (path : String) : m (Except SettingsFault Settings) := do
  match ← disk.readText path with
  | .error why => return .error (.unreadable path why)
  | .ok text => return ofText path text

def checked (s : Surrounding) (settings : Settings) : Except SettingsFault Settings :=
  let settings := match s.apiBase with
    | some address => settings.overrideApiBase address
    | none => settings
  match settings.validate with
  | .ok () => .ok settings
  | .error defect => .error (.invalid defect)

def load (disk : Disk m) (s : Surrounding) (path : String) : m (Except SettingsFault Settings) := do
  match ← ofFile disk path with
  | .error fault => return .error fault
  | .ok settings => return checked s settings

def loadDefault (disk : Disk m) (s : Surrounding) : m (Except SettingsFault Settings) := do
  match defaultPath s with
  | .error fault => return .error fault
  | .ok path => load disk s path

def registry (settings : Settings) (disk : Disk m) : m (Except FlowFault Registry) :=
  match settings.flowsPath with
  | none => return .ok .empty
  | some dir => Registry.ofDirectory disk dir

end Settings

end FlowEngine
