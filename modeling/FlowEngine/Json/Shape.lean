import FlowEngine.Json.Reader
import FlowEngine.Markup.Record
/-! What JSON values can be read as.

A record may be written as an object or as the list of its members, and a spelling as a string or as
an object that maps it to `null`. -/

namespace FlowEngine.Json

open Markup (Fault Fields Form Found bound)

def found : Json → Except Fault Found
  | .null => .ok .null
  | .bool b => .ok (.boolean b)
  | .num (.int i) => .ok (.integer i)
  | .num (.decimal shown) => .ok (.decimal shown)
  | .str s => .ok (.string s)
  | .arr _ _ => .ok .sequence
  | .obj _ _ => .ok .map
  | .keyless _ => .ok .map
  | .faulty whenRead _ => .error whenRead

def unexpected {α : Type} (expected : String) (j : Json) : Except Fault α := do
  .error (.wrongType (← found j) expected)

def integer (expected : String) (low high : Int) : Json → Except Fault Int
  | .num (.int i) =>
    if low ≤ i ∧ i ≤ high then .ok i
    else .error (.mismatch (.outOfRange (.integer i) expected))
  | j => unexpected expected j

def spelling (known : List String) (s : String) : Except Fault String :=
  if s ∈ known then .ok s else .error (.mismatch (.unknownVariant s known))

def spelledObject (known : List String) (members : List (String × Json)) (cut : Option Cut) :
    Except Fault String :=
  match members with
  | [] => .error ((cut.map Cut.fault).getD .malformed)
  | (name, value) :: rest => do
    let given ← spelling known name
    match value with
    | .null => pure ()
    | value => unexpected "unit" value
    match rest, cut with
    | [], none => .ok given
    | [], some ⟨fault, false⟩ => .error fault
    | _, _ => .error .malformed

instance : Form Json where
  string
    | .str s => .ok s
    | j => unexpected "a string" j
  boolean
    | .bool b => .ok b
    | j => unexpected "a boolean" j
  unsigned bits j := (integer s!"u{bits}" 0 (bound bits - 1) j).map Int.toNat
  signed j := integer "i64" (-bound 63) (bound 63 - 1) j
  present
    | .null => .ok none
    | j => .ok (some j)
  items
    | .arr items none => .ok items
    | .arr items (some fault) => .ok (items ++ [.faulty fault (some fault)])
    | j => unexpected "a sequence" j
  choice known
    | .str s => spelling known s
    | .obj members cut => spelledObject known members cut
    | .keyless key => do
      let _ : Unit ← unexpected "variant identifier" key
      .error .malformed
    | .faulty whenRead _ => .error whenRead
    | _ => .error .malformed
  fields expected
    | .obj members cut => .ok (.named members (cut.map Cut.fault))
    | .keyless _ => .ok (.named [] (some .malformed))
    | .arr items cut => .ok (.listed items cut)
    | j => unexpected expected j
  skip j :=
    match skipFault j with
    | none => .ok ()
    | some fault => .error fault

end FlowEngine.Json
