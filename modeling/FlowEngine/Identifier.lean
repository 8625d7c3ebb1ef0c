import FlowEngine.Text.Base36
/-! Identifiers of flows, steps and flow inputs, and the identifiers that sessions are given.

An identifier is non-empty and made of ASCII letters, digits, `-`, `_` and `.`; the type carries
that fact. Main statements: `Identifier.parse` accepts exactly the well-formed texts, and an
identifier parses back from its own text. -/

namespace FlowEngine

def isIdentifierChar (c : Char) : Bool :=
  c.isAlphanum || c == '-' || c == '_' || c == '.'

def isIdentifier (s : String) : Bool :=
  !s.isEmpty && s.toList.all isIdentifierChar

inductive IdentifierFault where
  | empty
  | strayCharacter
  deriving DecidableEq, Repr

def IdentifierFault.message (label : String) : IdentifierFault → String
  | .empty => s!"{label} must be non-empty"
  | .strayCharacter => label ++ " must use only ASCII letters, digits, '-', '_' or '.'"

def checkIdentifier (s : String) : Except IdentifierFault Unit :=
  if s.isEmpty then .error .empty
  else if s.toList.all isIdentifierChar then .ok ()
  else .error .strayCharacter

theorem checkIdentifier_eq_ok_iff (s : String) :
    checkIdentifier s = .ok () ↔ isIdentifier s = true := by
  unfold checkIdentifier isIdentifier
  cases s.isEmpty <;> cases h : s.toList.all isIdentifierChar <;> simp

inductive IdentifierKind where
  | flow
  | step
  | input
  deriving DecidableEq, Repr

def IdentifierKind.label : IdentifierKind → String
  | .flow => "flow id"
  | .step => "step id"
  | .input => "flow input id"

structure Identifier (kind : IdentifierKind) where
  text : String
  wellFormed : isIdentifier text = true
  deriving DecidableEq, Repr

abbrev FlowId := Identifier .flow
abbrev StepId := Identifier .step
abbrev FlowInputId := Identifier .input

namespace Identifier

variable {kind : IdentifierKind}

instance : ToString (Identifier kind) := ⟨Identifier.text⟩

def parse (kind : IdentifierKind) (s : String) : Except IdentifierFault (Identifier kind) :=
  if h : isIdentifier s = true then .ok ⟨s, h⟩
  else .error (if s.isEmpty then .empty else .strayCharacter)

@[simp] theorem parse_text (i : Identifier kind) : parse kind i.text = .ok i := by
  simp [parse, i.wellFormed]

theorem ext_text {i j : Identifier kind} (h : i.text = j.text) : i = j := by
  cases i; cases j; cases h; rfl

/-- Parsing accepts exactly the well-formed texts, and keeps the text. -/
theorem parse_eq_ok_iff (s : String) (i : Identifier kind) :
    parse kind s = .ok i ↔ i.text = s := by
  constructor
  · intro h
    unfold parse at h
    split at h
    · cases h; rfl
    · cases h
  · rintro rfl; exact parse_text i

end Identifier

namespace SessionId

def suffixWidth : Nat := 8

inductive Fault where
  | negativeTime
  deriving DecidableEq, Repr

def Fault.message : Fault → String
  | .negativeTime => "session id requires a non-negative timestamp"

/-- The identifier given to a session created at `now`, with `sample` as its random part. -/
def generate (now : Int) (sample : UInt64) : Except Fault String :=
  if now < 0 then .error .negativeTime
  else .ok (String.ofList
    ("session-".toList ++ Text.Base36.encode now.toNat ++
      '-' :: Text.Base36.encodeFixed suffixWidth sample.toNat))

end SessionId

end FlowEngine
