/-! Paths as they are written, with `/` between names. -/

namespace FlowEngine.Disk

def pieces : List Char → List (List Char)
  | [] => [[]]
  | c :: cs =>
    if c = '/' then [] :: pieces cs
    else
      match pieces cs with
      | [] => [[c]]
      | piece :: rest => (c :: piece) :: rest

def isAbsolute (path : String) : Bool :=
  path.toList.head? == some '/'

/-- The names on a path. Empty pieces and single dots are left out, but for a dot at the start. -/
def names (path : String) : List String :=
  let all := (pieces path.toList).map String.ofList
  let kept := (all.drop 1).filter fun n => n ≠ "" && n ≠ "."
  match all with
  | "" :: _ => kept
  | first :: _ => first :: kept
  | [] => kept

def join (base rest : String) : String :=
  if base = "" || isAbsolute rest then rest
  else if base.toList.getLast? = some '/' then base ++ rest
  else base ++ "/" ++ rest

/-- What follows the last dot of a file's name; a dot at the start does not count. -/
def extensionOfName (name : String) : Option String :=
  let reversed := name.toList.reverse
  let ending := reversed.takeWhile (· ≠ '.')
  match reversed.dropWhile (· ≠ '.') with
  | [] => none
  | [_] => none
  | _ :: _ => some (String.ofList ending.reverse)

def extension (path : String) : Option String :=
  match (names path).getLast? with
  | none => none
  | some name => if name = ".." || name = "." then none else extensionOfName name

end FlowEngine.Disk
