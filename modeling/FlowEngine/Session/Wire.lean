import FlowEngine.Json.Shape
import FlowEngine.Session.Input
/-! The written form of payloads: an object with the kind under `kind` and the content under
`value`, in either order, or the list of the two.

If the content comes before the kind it is taken in whole, with all that is in it, before it is
read. -/

namespace FlowEngine.Payload

open Markup (Fault Mismatch byte choice listOf oneOf string)

inductive Kind where
  | text
  | bytes
  deriving DecidableEq, Repr

def Kind.label : Kind → String
  | .text => "text"
  | .bytes => "bytes"

def Kind.read : Json → Except Fault Kind :=
  oneOf [("text", Kind.text), ("bytes", Kind.bytes)]

def readContent : Kind → Json → Except Fault Payload
  | .text, j => (string j).map Payload.text
  | .bytes, j => (listOf byte j).map Payload.bytes

def shape : String := "adjacently tagged enum InputPayload"

inductive Part where
  | kind (value : Json) (rest : List (String × Json))
  | content (value : Json) (rest : List (String × Json))
  | none

def nextPart (cut : Option Fault) : List (String × Json) → Except Fault Part
  | [] =>
    match cut with
    | some fault => .error fault
    | none => .ok .none
  | (name, value) :: rest =>
    if name = "kind" then .ok (.kind value rest)
    else if name = "value" then .ok (.content value rest)
    else
      match value.skipFault with
      | some fault => .error fault
      | none => nextPart cut rest

def duplicate {α : Type} (name : String) : Except Fault α :=
  .error (.mismatch (.duplicateField name))

def missing {α : Type} (name : String) : Except Fault α :=
  .error (.mismatch (.missingField name))

/-- Makes sure that neither member is repeated. -/
def endParts (cut : Option Fault) (members : List (String × Json)) : Except Fault Unit := do
  match ← nextPart cut members with
  | .kind _ _ => duplicate "kind"
  | .content _ _ => duplicate "value"
  | .none => .ok ()

def innerDepth : Nat := 127

def readMembers (cut : Option Fault) (members : List (String × Json)) : Except Fault Payload := do
  match ← nextPart cut members with
  | .none => missing "kind"
  | .kind value rest =>
    let kind ← Kind.read value
    match ← nextPart cut rest with
    | .none => missing "value"
    | .kind _ _ => duplicate "kind"
    | .content value rest =>
      let payload ← readContent kind value
      endParts cut rest
      .ok payload
  | .content content rest =>
    match content.readFault innerDepth with
    | some fault => .error fault
    | none =>
      match ← nextPart cut rest with
      | .none => missing "kind"
      | .content _ _ => duplicate "value"
      | .kind value rest =>
        let kind ← Kind.read value
        let payload ← readContent kind content
        endParts cut rest
        .ok payload

def readItems (cut : Option Fault) : List Json → Except Fault Payload
  | [] => .error (cut.getD (.mismatch (.wrongLength 0 shape)))
  | [kind] => do
    let _ ← Kind.read kind
    .error (cut.getD (.mismatch (.wrongLength 1 shape)))
  | kind :: content :: rest => do
    let payload ← readContent (← Kind.read kind) content
    match rest, cut with
    | _ :: _, _ => .error .malformed
    | [], some fault => .error fault
    | [], none => .ok payload

def read : Json → Except Fault Payload
  | .obj members cut => readMembers (cut.map Json.Cut.fault) members
  | .keyless _ => .error .malformed
  | .arr items cut => readItems cut items
  | j => Json.unexpected shape j

def toJson : Payload → Json
  | .text s => .record [("kind", .str Kind.text.label), ("value", .str s)]
  | .bytes bs =>
    .record [("kind", .str Kind.bytes.label), ("value", .list (bs.map fun b => .nat b.toNat))]

end FlowEngine.Payload
