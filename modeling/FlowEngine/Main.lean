import FlowEngine.CommandLine
/-! The program: performs what its arguments ask for, on the files of the machine it runs on. -/

namespace FlowEngine.Program

def diskFault : IO.Error → DiskFault
  | .noFileOrDirectory _ _ _ => .missing
  | .permissionDenied _ _ _ => .notPermitted
  | .alreadyExists _ _ _ => .exists
  | .inappropriateType _ 21 _ => .isDirectory
  | .inappropriateType _ _ _ => .notDirectory
  | fault => .other (toString fault)

def attempted {α : Type} (access : IO α) : IO (Except DiskFault α) := do
  match ← access.toBaseIO with
  | .ok value => return .ok value
  | .error fault => return .error (diskFault fault)

def machine : Disk IO where
  read path := attempted do return (← IO.FS.readBinFile path).toList
  list path := attempted do
    let entries ← (← IO.FS.realPath path).readDir
    return (entries.map fun e => e.fileName).toList
  isFile path := do
    let found ← attempted do return (← (← IO.FS.realPath path).metadata).type
    match found with
    | .ok .file => return true
    | _ => return false

def surrounding : IO Surrounding := do
  return ⟨← IO.getEnv "DOCFLOW_PROVIDER_API_BASE", ← IO.getEnv "HOME"⟩

end FlowEngine.Program

open FlowEngine in
def main (args : List String) : IO UInt32 := do
  match ← CommandLine.run Program.machine (← Program.surrounding) args with
  | .ok output =>
    IO.println output
    return 0
  | .error fault =>
    IO.eprintln fault.message
    return 1
