import FlowEngine.Markup.Record
import FlowEngine.Yaml.Node
/-! What YAML nodes can be read as.

A scalar read as a text keeps its source. Numbers and truth values are read from plain scalars, or
from literal blocks with the tag of their type. A record is a mapping; an empty scalar stands for a
record or a list without members. -/

namespace FlowEngine.Yaml

open Markup (Fault Fields Form bound)

structure Place where
  anchored : List Anchored
  node : Node

def later (best : Option Anchored) (a : Anchored) : Option Anchored :=
  match best with
  | some b => if b.order < a.order then some a else some b
  | none => some a

def Place.target (p : Place) : Node :=
  match p.node with
  | .aliasOf number =>
    match (p.anchored.filter fun a => a.number = number).foldl later none with
    | some a => a.node
    | none => .broken
  | node => node

def intTag : String := "tag:yaml.org,2002:int"
def boolTag : String := "tag:yaml.org,2002:bool"
def nullTag : String := "tag:yaml.org,2002:null"

/-- Whether a scalar can be read as more than a text. -/
def Scalar.isBare (s : Scalar) (tag : String) : Bool :=
  s.style = .plain || (s.style = .literal && s.tag == some tag)

def isNullWord (s : String) : Bool := ["~", "null", "Null", "NULL"].contains s

def truth? (s : String) : Option Bool :=
  if ["true", "True", "TRUE"].contains s then some true
  else if ["false", "False", "FALSE"].contains s then some false
  else none

def numeral? (base : Nat) (cs : List Char) : Option Nat :=
  if cs.isEmpty then none
  else cs.foldlM (fun n c => (hexDigit? c).bind fun d =>
    if d < base then some (n * base + d) else none) 0

def hasLeadingZero (cs : List Char) : Bool :=
  1 < cs.length && cs.head? == some '0' && cs.all isDecimal

/-- A number of at most 64 bits, in base ten, or with a mark in base 16, 8 or 2. -/
def natural? (text : String) : Option Nat :=
  let digits := match text.toList with
    | '+' :: rest => rest
    | cs => cs
  let marked := match digits with
    | '0' :: 'x' :: rest => numeral? 16 rest
    | '0' :: 'o' :: rest => numeral? 8 rest
    | '0' :: 'b' :: rest => numeral? 2 rest
    | _ => none
  match marked.filter (· < bound 64) with
  | some n => some n
  | none => if hasLeadingZero digits then none else (numeral? 10 digits).filter (· < bound 64)

/-- The spelling that a tag with an exclamation mark gives. -/
def localTag? (tag : Option String) : Option String :=
  match tag.map String.toList with
  | some ['!'] => some "!"
  | some ('!' :: rest) => some (String.ofList rest)
  | _ => none

def Scalar.isVoid (s : Scalar) : Bool := s.style = .plain && (s.text = "" || isNullWord s.text)

mutual

/-- Whether a node can be passed over: nothing in it is broken. -/
def Node.isWhole : Node → Bool
  | .sequence items cut => !cut && wholeItems items
  | .mapping entries _ cut => !cut && wholeEntries entries
  | .broken => false
  | _ => true

def wholeItems : List Node → Bool
  | [] => true
  | n :: rest => n.isWhole && wholeItems rest

def wholeEntries : List (Node × Node) → Bool
  | [] => true
  | (k, v) :: rest => k.isWhole && v.isWhole && wholeEntries rest

end

def members (anchored : List Anchored) : List (Node × Node) → List (String × Place) × Bool
  | [] => ([], false)
  | (key, value) :: rest =>
    match (Place.mk anchored key).target with
    | .scalar s =>
      let (more, stopped) := members anchored rest
      ((s.text, ⟨anchored, value⟩) :: more, stopped)
    | _ => ([], true)

def refuse {α : Type} : Except Fault α := .error .malformed

def spelled (known : List String) (s : String) : Except Fault String :=
  if s ∈ known then .ok s else .error (.mismatch (.unknownVariant s known))

instance : Form Place where
  string p :=
    match p.target with
    | .scalar s => .ok s.text
    | _ => refuse
  boolean p :=
    match p.target with
    | .scalar s =>
      match truth? s.text with
      | some b => if s.isBare boolTag then .ok b else refuse
      | none => refuse
    | _ => refuse
  unsigned bits p :=
    match p.target with
    | .scalar s =>
      match natural? s.text with
      | some n => if s.isBare intTag && n < bound bits then .ok n else refuse
      | none => refuse
    | _ => refuse
  signed p :=
    match p.target with
    | .scalar s =>
      match natural? s.text with
      | some n => if s.isBare intTag && n < bound 63 then .ok n else refuse
      | none => refuse
    | _ => refuse
  present p :=
    match p.target with
    | .scalar s =>
      let value := some (Place.mk p.anchored (.scalar s))
      if s.style = .plain then
        match s.tag with
        | none => .ok (if s.isVoid then none else value)
        | some tag =>
          if tag = nullTag then if isNullWord s.text then .ok none else refuse else .ok value
      else .ok value
    | .void => .ok none
    | .broken => refuse
    | node => .ok (some ⟨p.anchored, node⟩)
  items p :=
    match p.target with
    | .sequence items cut =>
      .ok ((items ++ if cut then [Node.broken] else []).map fun n => ⟨p.anchored, n⟩)
    | .scalar s => if s.style = .plain && s.text = "" then .ok [] else refuse
    | .void => .ok []
    | _ => refuse
  choice known p :=
    match p.target with
    | .scalar s =>
      match localTag? s.tag with
      | some given => do
        let given ← spelled known given
        if s.isVoid then .ok given else refuse
      | none => spelled known s.text
    | _ => refuse
  fields _ p :=
    match p.target with
    | .mapping entries _ cut =>
      let (known, stopped) := members p.anchored entries
      .ok (.named known (if stopped || cut then some .malformed else none))
    | .scalar s => if s.style = .plain && s.text = "" then .ok (.named [] none) else refuse
    | .void => .ok (.named [] none)
    | _ => refuse
  skip p := if p.node.isWhole then .ok () else refuse

def Document.read {α : Type} (d : Document) (read : Place → Except Fault α) : Except Fault α := do
  let value ← read ⟨d.anchored, d.root⟩
  if d.ends then .ok value else refuse

end FlowEngine.Yaml
