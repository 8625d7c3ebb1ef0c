import FlowEngine.Flow.Registry
import FlowEngine.Text.Utf8
/-! Input values, and the book that keeps them by key.

A book lists its keys in increasing order and the values of a key in the order of their arrival.
`get` is its view; the lemmas say what `set` and `erase` do to it. -/

namespace FlowEngine

inductive Payload where
  | text (s : String)
  | bytes (bs : Text.Bytes)
  deriving DecidableEq, Repr

namespace Payload

def text? : Payload → Option String
  | .text s => some s
  | .bytes _ => none

def toTextLossy : Payload → String
  | .text s => s
  | .bytes bs => Text.ofBytesLossy bs

def toBytes : Payload → Text.Bytes
  | .text s => Text.toBytes s
  | .bytes bs => bs

end Payload

/-- A value, the file that holds it at the provider, and the number it was given on arrival. -/
structure Input where
  name : String
  payload : Payload
  file : Option String
  slot : Nat
  deriving DecidableEq, Repr

namespace Input

def ofPayload (name : String) (payload : Payload) : Input :=
  ⟨name, payload, none, 0⟩

def ofText (name text : String) : Input :=
  ofPayload name (.text text)

def isUploaded (i : Input) : Bool := i.file.isSome

def alike (a b : Input) : Bool :=
  match a.file, b.file with
  | some f, some g => f == g
  | none, none => a.name == b.name && a.payload == b.payload
  | _, _ => false

end Input

structure InputBook where
  entries : Table String (List Input)
  deriving DecidableEq, Repr

namespace InputBook

def empty : InputBook := ⟨[]⟩

def get? (b : InputBook) (key : String) : Option (List Input) :=
  b.entries.lookup key

def get (b : InputBook) (key : String) : List Input :=
  (b.get? key).getD []

def values (b : InputBook) : List Input :=
  b.entries.flatMap Prod.snd

def set (b : InputBook) (key : String) (values : List Input) : InputBook :=
  ⟨b.entries.put key values⟩

def erase (b : InputBook) (key : String) : InputBook :=
  ⟨b.entries.filter fun e => e.1 ≠ key⟩

def add (b : InputBook) (key : String) (value : Input) : InputBook :=
  b.set key (b.get key ++ [value])

def map (f : Input → Input) (b : InputBook) : InputBook :=
  ⟨b.entries.map fun e => (e.1, e.2.map f)⟩

def compacted (b : InputBook) : InputBook :=
  ⟨b.entries.filter fun e => !e.2.isEmpty⟩

def append (a b : InputBook) : InputBook :=
  b.entries.foldl (fun book e => book.set e.1 (book.get e.1 ++ e.2)) a

@[simp] theorem get_empty (key : String) : empty.get key = [] := rfl

@[simp] theorem get_set_self (b : InputBook) (key : String) (values : List Input) :
    (b.set key values).get key = values := by
  simp [set, get, get?, Table.lookup_put]

theorem get_set_of_ne (b : InputBook) {key other : String} (values : List Input)
    (h : other ≠ key) : (b.set key values).get other = b.get other := by
  simp [set, get, get?, Table.lookup_put, h]

@[simp] theorem get_erase_self (b : InputBook) (key : String) : (b.erase key).get key = [] := by
  rw [erase, get, get?, Table.lookup_filter_ne, if_pos rfl, Option.getD_none]

theorem get_erase_of_ne (b : InputBook) {key other : String} (h : other ≠ key) :
    (b.erase key).get other = b.get other := by
  rw [erase, get, get?, Table.lookup_filter_ne, if_neg h, get, get?]

end InputBook

end FlowEngine
