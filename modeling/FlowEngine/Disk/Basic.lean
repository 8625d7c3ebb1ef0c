import FlowEngine.Disk.Path
import FlowEngine.Text.Utf8
/-! Access to files, and why it fails.

`Disk` is what the engine needs of a file system, in any monad; `FileTree` is a file system held in
a value. -/

namespace FlowEngine

inductive DiskFault where
  | missing
  | notPermitted
  | exists
  | notDirectory
  | isDirectory
  | nameTooLong
  | notText
  | nulInPath
  | other (message : String)
  deriving DecidableEq, Repr

def DiskFault.message : DiskFault → String
  | .missing => "No such file or directory (os error 2)"
  | .notPermitted => "Permission denied (os error 13)"
  | .exists => "File exists (os error 17)"
  | .notDirectory => "Not a directory (os error 20)"
  | .isDirectory => "Is a directory (os error 21)"
  | .nameTooLong => "File name too long (os error 36)"
  | .notText => "stream did not contain valid UTF-8"
  | .nulInPath => "file name contained an unexpected NUL byte"
  | .other message => message

structure Disk (m : Type → Type) where
  read : String → m (Except DiskFault Text.Bytes)
  list : String → m (Except DiskFault (List String))
  isFile : String → m Bool

def Disk.readText {m : Type → Type} [Monad m] (disk : Disk m) (path : String) :
    m (Except DiskFault String) := do
  match ← disk.read path with
  | .error fault => return .error fault
  | .ok bytes =>
    match Text.ofBytes? bytes with
    | some text => return .ok text
    | none => return .error .notText

namespace FileTree

inductive Node where
  | file (bytes : Text.Bytes)
  | directory
  deriving DecidableEq, Repr

end FileTree

/-- Files and directories by the names on the way to them. -/
structure FileTree where
  entries : List (List String × FileTree.Node)

namespace FileTree

def empty : FileTree := ⟨[]⟩

def at? (t : FileTree) (way : List String) : Option Node :=
  if way.isEmpty || way = ["/"] then some .directory else t.entries.lookup way

def follow (t : FileTree) (way : List String) : List String → Except DiskFault (List String)
  | [] => .ok way
  | name :: rest =>
    match t.at? way with
    | none => .error .missing
    | some (.file _) => .error .notDirectory
    | some .directory =>
      if name = "." then follow t way rest
      else if name = ".." && !way.isEmpty then follow t way.dropLast rest
      else if name.utf8ByteSize > 255 then .error .nameTooLong
      else follow t (way ++ [name]) rest

def start (path : String) : List String :=
  if Disk.isAbsolute path then ["/"] else []

def resolve (t : FileTree) (path : String) : Except DiskFault (List String × Node) := do
  if path = "" then .error .missing
  if path.toList.contains (Char.ofNat 0) then .error .nulInPath
  let way ← t.follow (start path) (Disk.names path)
  match t.at? way with
  | none => .error .missing
  | some (.file bytes) =>
    if path.toList.getLast? = some '/' then .error .notDirectory else .ok (way, .file bytes)
  | some .directory => .ok (way, .directory)

def read (t : FileTree) (path : String) : Except DiskFault Text.Bytes := do
  match ← t.resolve path with
  | (_, .file bytes) => .ok bytes
  | (_, .directory) => .error .isDirectory

def isFile (t : FileTree) (path : String) : Bool :=
  match t.resolve path with
  | .ok (_, .file _) => true
  | _ => false

def isDirectory (t : FileTree) (path : String) : Bool :=
  match t.resolve path with
  | .ok (_, .directory) => true
  | _ => false

def list (t : FileTree) (path : String) : Except DiskFault (List String) := do
  match ← t.resolve path with
  | (_, .file _) => .error .notDirectory
  | (way, .directory) =>
    .ok (t.entries.filterMap fun e =>
      if e.1.dropLast = way && !e.1.isEmpty then e.1.getLast? else none)

def parents (way : List String) : List (List String) :=
  (List.range (way.length - 1)).map fun n => way.take (n + 1)

/-- Puts an entry, and the directories on the way to it. -/
def put (t : FileTree) (path : String) (node : Node) : FileTree :=
  let way := Disk.names path
  let missing := (parents way).filter fun p => (t.at? p).isNone
  ⟨t.entries.filter (fun e => e.1 ≠ way) ++ missing.map (fun p => (p, .directory)) ++ [(way, node)]⟩

def makeDirectory (t : FileTree) (absolute : Bool) (way : List String) :
    Except DiskFault FileTree := do
  let top := if absolute then ["/"] else []
  let above ← t.follow top way.dropLast
  match t.at? above with
  | none => .error .missing
  | some (.file _) => .error .notDirectory
  | some .directory =>
    let here ← t.follow above (way.drop (way.length - 1))
    match t.at? here with
    | some _ => .error .exists
    | none => .ok ⟨t.entries ++ [(here, .directory)]⟩

def leadsToDirectory (t : FileTree) (absolute : Bool) (way : List String) : Bool :=
  match t.follow (if absolute then ["/"] else []) way with
  | .ok here => t.at? here == some .directory
  | .error _ => false

/-- Makes a directory, and first the one above it if that is missing; `levels` bounds the way up. -/
def makeDirectoriesFrom (absolute : Bool) :
    Nat → List String → FileTree → Except DiskFault FileTree
  | 0, _, t => .ok t
  | levels + 1, way, t =>
    if way.isEmpty then .ok t
    else
      match t.makeDirectory absolute way with
      | .ok t => .ok t
      | .error .missing => do
        let t ← makeDirectoriesFrom absolute levels way.dropLast t
        match t.makeDirectory absolute way with
        | .ok t => .ok t
        | .error fault => if t.leadsToDirectory absolute way then .ok t else .error fault
      | .error fault => if t.leadsToDirectory absolute way then .ok t else .error fault

def makeDirectories (t : FileTree) (path : String) : Except DiskFault FileTree :=
  if path.toList.contains (Char.ofNat 0) then .error .nulInPath
  else
    let way := Disk.names path
    makeDirectoriesFrom (Disk.isAbsolute path) (way.length + 1) way t

def disk (t : FileTree) : Disk Id where
  read path := t.read path
  list path := t.list path
  isFile path := t.isFile path

end FileTree

end FlowEngine
