import FlowEngine.Host.Fault
/-! Where an engine keeps its files below its state root. -/

namespace FlowEngine.StatePaths

def logs (root : String) : String := Disk.join root "logs"
def journal (root : String) : String := Disk.join root "logs/engine.log"

def required (root : String) : List String := [logs root]

def prepare (root : String) (files : FileTree) : Except HostFault FileTree :=
  (required root).foldlM (fun files path =>
    match files.makeDirectories path with
    | .ok files => .ok files
    | .error why => .error (.directory path why)) files

def canAppend (root : String) (files : FileTree) : Bool :=
  match files.makeDirectories (logs root) with
  | .error _ => false
  | .ok files =>
    match files.resolve (journal root) with
    | .ok (_, .directory) => false
    | .ok (_, .file _) => true
    | .error .missing => true
    | .error _ => false

end FlowEngine.StatePaths
