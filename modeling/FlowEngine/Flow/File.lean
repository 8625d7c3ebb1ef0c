import FlowEngine.Disk.Basic
import FlowEngine.Flow.Registry
import FlowEngine.Flow.Wire
import FlowEngine.Json.Shape
import FlowEngine.Yaml.Shape
/-! Flows from files. The form of a file is told by the ending of its name.

A directory is read file by file in the order of the names; files of other kinds and further
directories are passed over. -/

namespace FlowEngine

def FlowFormat.ofPath? (path : String) : Option FlowFormat :=
  match Disk.extension path with
  | some "json" => some .json
  | some "yaml" => some .yaml
  | some "yml" => some .yaml
  | _ => none

def Flow.ofText (format : FlowFormat) (text : String) : Except Markup.Fault Flow :=
  match format with
  | .json => (Json.Document.ofText text).read Flow.read
  | .yaml => (Yaml.Document.ofText text).read Flow.read

variable {m : Type → Type} [Monad m]

def Flow.load (disk : Disk m) (path : String) : m (Except FlowFault Flow) := do
  match FlowFormat.ofPath? path with
  | none => return .error (.unsupportedFile path)
  | some format =>
    match ← disk.readText path with
    | .error why => return .error (.unreadable path why)
    | .ok text =>
      match Flow.ofText format text with
      | .error why => return .error (.illWritten path format why)
      | .ok flow => return .ok flow

namespace Registry

def addFile (disk : Disk m) (r : Registry) (path : String) : m (Except FlowFault Registry) := do
  match ← Flow.load disk path with
  | .error fault => return .error fault
  | .ok flow => return r.register flow

def addFiles (disk : Disk m) (r : Registry) : List String → m (Except FlowFault Registry)
  | [] => return .ok r
  | path :: rest => do
    match ← r.addFile disk path with
    | .error fault => return .error fault
    | .ok r => addFiles disk r rest

def ofDirectory (disk : Disk m) (dir : String) : m (Except FlowFault Registry) := do
  match ← disk.list dir with
  | .error why => return .error (.unreadable dir why)
  | .ok names =>
    let paths := (names.mergeSort textLe).map (Disk.join dir)
    let candidates := paths.filter fun path => (FlowFormat.ofPath? path).isSome
    let files ← candidates.filterM disk.isFile
    addFiles disk .empty files

end Registry

end FlowEngine
