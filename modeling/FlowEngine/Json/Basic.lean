import FlowEngine.Markup.Fault
/-! JSON values, and what is left of a text that is not JSON.

Members and items stand in document order. Where a text breaks off, the tree ends with the fault
that a reader meets there, so that what stands before it can still be read. -/

namespace FlowEngine

/-- Whole numbers that fit 64 bits stay exact; other numbers are kept as they are shown. -/
inductive Json.Number where
  | int (i : Int)
  | decimal (shown : String)
  deriving DecidableEq, Repr

structure Json.Cut where
  fault : Markup.Fault
  /-- Whether a comma stands before the break. -/
  afterComma : Bool
  deriving DecidableEq, Repr

inductive Json where
  | null
  | bool (b : Bool)
  | num (n : Json.Number)
  | str (s : String)
  | arr (items : List Json) (cut : Option Markup.Fault)
  | obj (members : List (String × Json)) (cut : Option Json.Cut)
  /-- An object whose first key is not a string. -/
  | keyless (key : Json)
  /-- A value that cannot be read. If it can be passed over, the text goes on after it. -/
  | faulty (whenRead : Markup.Fault) (whenSkipped : Option Markup.Fault)

namespace Json

instance : Inhabited Json := ⟨.null⟩

def int (i : Int) : Json := .num (.int i)
def nat (n : Nat) : Json := .num (.int n)
def list (items : List Json) : Json := .arr items none
def record (members : List (String × Json)) : Json := .obj members none

def option {α : Type} (write : α → Json) : Option α → Json
  | none => .null
  | some a => write a

mutual

/-- The fault met when a value is passed over. -/
def skipFault : Json → Option Markup.Fault
  | .faulty _ whenSkipped => whenSkipped
  | .keyless _ => some .malformed
  | .arr items cut => (skipFaultItems items).or cut
  | .obj members cut => (skipFaultMembers members).or (cut.map Cut.fault)
  | _ => none

def skipFaultItems : List Json → Option Markup.Fault
  | [] => none
  | j :: rest => (skipFault j).or (skipFaultItems rest)

def skipFaultMembers : List (String × Json) → Option Markup.Fault
  | [] => none
  | (_, j) :: rest => (skipFault j).or (skipFaultMembers rest)

end

mutual

/-- The fault met when a value is read as a whole, whatever it is, with room for `depth` levels. -/
def readFault (depth : Nat) : Json → Option Markup.Fault
  | .faulty whenRead _ => some whenRead
  | .keyless _ => some .malformed
  | .arr items cut =>
    if depth ≤ 1 then some .malformed else (readFaultItems (depth - 1) items).or cut
  | .obj members cut =>
    if depth ≤ 1 then some .malformed
    else (readFaultMembers (depth - 1) members).or (cut.map Cut.fault)
  | _ => none

def readFaultItems (depth : Nat) : List Json → Option Markup.Fault
  | [] => none
  | j :: rest => (readFault depth j).or (readFaultItems depth rest)

def readFaultMembers (depth : Nat) : List (String × Json) → Option Markup.Fault
  | [] => none
  | (_, j) :: rest => (readFault depth j).or (readFaultMembers depth rest)

end

end Json

end FlowEngine
