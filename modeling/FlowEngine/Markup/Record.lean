import FlowEngine.Markup.Fault
/-! Reading records from a written form.

`Form N` says what the nodes `N` of a written form can be read as; the shape of each record is
described once with `RecordReader` and serves every form. Members are read in document order, so the
first fault in the document is the one reported; absent members are noticed afterwards, in the order
in which the record declares them. -/

namespace FlowEngine.Markup

abbrev Reader (N α : Type) := N → Except Fault α

/-- The members of a record: named, or listed in the order of declaration. `ending` is the fault
met after the last member, if the document breaks off there. -/
inductive Fields (N : Type) where
  | named (members : List (String × N)) (ending : Option Fault)
  | listed (items : List N) (ending : Option Fault)

def bound (bits : Nat) : Nat := Nat.pow 2 bits

class Form (N : Type) where
  string : Reader N String
  boolean : Reader N Bool
  unsigned (bits : Nat) : Reader N Nat
  signed : Reader N Int
  present : Reader N (Option N)
  items : Reader N (List N)
  choice (known : List String) : Reader N String
  /-- The members of a record, or the fault of something that is not `expected`. -/
  fields (expected : String) : Reader N (Fields N)
  skip : Reader N Unit

export Form (string boolean unsigned signed present items choice fields skip)

variable {N : Type} [Form N] {α β : Type}

def optional (read : Reader N α) : Reader N (Option α) := fun node => do
  match ← present node with
  | none => .ok none
  | some inner => (read inner).map some

def listOf (read : Reader N α) : Reader N (List α) := fun node => do
  (← items node).mapM read

def uint32 : Reader N UInt32 := fun node =>
  (unsigned 32 node).map UInt32.ofNat

def uint64 : Reader N UInt64 := fun node =>
  (unsigned 64 node).map UInt64.ofNat

def byte : Reader N UInt8 := fun node =>
  (unsigned 8 node).map UInt8.ofNat

def oneOf (table : List (String × α)) : Reader N α := fun node => do
  let given ← choice (table.map Prod.fst) node
  match table.lookup given with
  | some value => .ok value
  | none => .error (.mismatch (.unknownVariant given (table.map Prod.fst)))

def identifier (kind : IdentifierKind) : Reader N (Identifier kind) := fun node => do
  let raw ← string node
  match Identifier.parse kind raw with
  | .ok id => .ok id
  | .error fault => .error (.mismatch (.rejected (.identifier kind raw fault)))

/-- How the members of a record become a value: a draft is filled as members arrive, then
finished. -/
structure RecordReader (N α : Type) where
  Draft : Type
  blank : Draft
  /-- Takes a named member; `none` if the record has no member of that name. -/
  offer : Draft → String → N → Option (Except Fault Draft)
  /-- Turns the draft into a value, or names the first absent member. -/
  finish : Draft → Except Fault α
  /-- Takes the leading items of a listed record, the first of which has the given position. A
  record that is too short is reported by its length. -/
  take : Nat → List N → Except (Fault ⊕ Nat) (α × Nat × List N)
  /-- How many members the record declares. -/
  size : Nat

namespace RecordReader

inductive Absence (α : Type) where
  | required
  | default (value : α)
  /-- Absence stands for a value in a named record, and is a fault in a listed one. -/
  | omitted (value : α)

def pure (value : α) : RecordReader N α where
  Draft := Unit
  blank := ()
  offer _ _ _ := none
  finish _ := .ok value
  take at_ rest := .ok (value, at_, rest)
  size := 0

def member (name : String) (absence : Absence α) (read : Reader N α) : RecordReader N α where
  Draft := Option α
  blank := none
  offer draft given node :=
    if given = name then
      some (if draft.isSome then .error (.mismatch (.duplicateField name))
        else (read node).map some)
    else none
  finish draft :=
    match draft, absence with
    | some value, _ => .ok value
    | none, .required => .error (.mismatch (.missingField name))
    | none, .default value => .ok value
    | none, .omitted value => .ok value
  take position rest :=
    match rest, absence with
    | node :: rest, _ =>
      match read node with
      | .ok value => .ok (value, position + 1, rest)
      | .error fault => .error (.inl fault)
    | [], .default value => .ok (value, position + 1, [])
    | [], _ => .error (.inr position)
  size := 1

def both (f : RecordReader N (α → β)) (x : RecordReader N α) : RecordReader N β where
  Draft := f.Draft × x.Draft
  blank := (f.blank, x.blank)
  offer draft name node :=
    match f.offer draft.1 name node with
    | some result => some (result.map fun d => (d, draft.2))
    | none => (x.offer draft.2 name node).map fun result => result.map fun d => (draft.1, d)
  finish draft := do (← f.finish draft.1) <$> x.finish draft.2
  take position rest :=
    match f.take position rest with
    | .error e => .error e
    | .ok (g, position, rest) =>
      match x.take position rest with
      | .error e => .error e
      | .ok (value, position, rest) => .ok (g value, position, rest)
  size := f.size + x.size

def required (name : String) (read : Reader N α) : RecordReader N α :=
  member name .required read

def withDefault (name : String) (value : α) (read : Reader N α) : RecordReader N α :=
  member name (.default value) read

def nullable (name : String) (read : Reader N α) : RecordReader N (Option α) :=
  member name (.omitted none) (optional read)

/-- Reads named members in document order; a member that the record does not have is passed over. -/
def collect (r : RecordReader N α) : r.Draft → List (String × N) → Except Fault r.Draft
  | draft, [] => .ok draft
  | draft, (name, node) :: rest =>
    match r.offer draft name node with
    | some (.ok draft) => collect r draft rest
    | some (.error fault) => .error fault
    | none =>
      match skip node with
      | .ok () => collect r draft rest
      | .error fault => .error fault

def extent (name : String) (size : Nat) : String :=
  if size = 1 then s!"{name} with 1 element" else s!"{name} with {size} elements"

def read (r : RecordReader N α) (name : String) : Reader N α := fun node => do
  match ← fields name node with
  | .named members ending =>
    let draft ← collect r r.blank members
    match ending with
    | some fault => .error fault
    | none => r.finish draft
  | .listed items ending =>
    match r.take 0 items with
    | .error (.inl fault) => .error fault
    | .error (.inr length) =>
      .error (ending.getD (.mismatch (.wrongLength length (extent name r.size))))
    | .ok (_, _, _ :: _) => .error .malformed
    | .ok (value, _, []) =>
      match ending with
      | some fault => .error fault
      | none => .ok value

end RecordReader

end FlowEngine.Markup
