/-! A place in a YAML text, and the characters that matter there.

Lines end with a line feed, a carriage return (with or without a line feed after it), a next-line
character, or a line or paragraph separator. -/

namespace FlowEngine.Yaml

def isSpaceOrTab (c : Char) : Bool := c = ' ' || c = '\t'

def isBreak (c : Char) : Bool :=
  c = '\n' || c = '\r' || c.toNat = 0x85 || c.toNat = 0x2028 || c.toNat = 0x2029

def isBlankOrBreak (c : Char) : Bool := isSpaceOrTab c || isBreak c

def isDecimal (c : Char) : Bool := '0' ≤ c && c ≤ '9'

def isWordChar (c : Char) : Bool :=
  isDecimal c || ('a' ≤ c && c ≤ 'z') || ('A' ≤ c && c ≤ 'Z') || c = '_' || c = '-'

def isPrintable (c : Char) : Bool :=
  let n := c.toNat
  n = 0x09 || n = 0x0a || n = 0x0d || (0x20 ≤ n && n ≤ 0x7e) || n = 0x85 ||
    (0xa0 ≤ n && n ≤ 0xd7ff) || (0xe000 ≤ n && n ≤ 0xfffd) || 0x10000 ≤ n

/-- The text from here on, and where it stands. -/
structure Cursor where
  rest : List Char
  index : Nat
  line : Nat
  column : Nat
  deriving Repr

namespace Cursor

def ofText (s : String) : Cursor := ⟨s.toList, 0, 0, 0⟩

def ahead? (c : Cursor) (n : Nat) : Option Char := c.rest[n]?

def atEnd (c : Cursor) : Bool := c.rest.isEmpty

def is (c : Cursor) (x : Char) : Bool := c.rest.head? == some x

def holdsAt (c : Cursor) (n : Nat) (p : Char → Bool) : Bool := (c.ahead? n).any p

/-- Whether a blank, the end of the line or the end of the text is `n` places ahead. -/
def gapAt (c : Cursor) (n : Nat) : Bool := (c.ahead? n).all isBlankOrBreak

def atLineEnd (c : Cursor) : Bool := (c.ahead? 0).all isBreak

def atBreak (c : Cursor) : Bool := c.holdsAt 0 isBreak

def atBlank (c : Cursor) : Bool := c.holdsAt 0 isSpaceOrTab

def skip (c : Cursor) (n : Nat) : Cursor :=
  ⟨c.rest.drop n, c.index + n, c.line, c.column + n⟩

def skipLine (c : Cursor) : Cursor :=
  match c.rest with
  | '\r' :: '\n' :: rest => ⟨rest, c.index + 2, c.line + 1, 0⟩
  | _ :: rest => ⟨rest, c.index + 1, c.line + 1, 0⟩
  | [] => c

/-- What the end of a line is kept as: a separator as it is, any other as a line feed. -/
def lineBreak (c : Cursor) : List Char :=
  match c.rest with
  | x :: _ => if x.toNat = 0x2028 || x.toNat = 0x2029 then [x] else if isBreak x then ['\n'] else []
  | [] => []

/-- Reads characters as long as they satisfy a condition that holds for no line end. -/
def takeWhile (c : Cursor) (p : Char → Bool) : List Char × Cursor :=
  let run := c.rest.takeWhile p
  (run, c.skip run.length)

def skipBlanks (c : Cursor) : Cursor := (c.takeWhile isSpaceOrTab).2

def skipToLineEnd (c : Cursor) : Cursor := (c.takeWhile fun x => !isBreak x).2

/-- Whether a line begins here with the given three characters and a gap. -/
def atMark (c : Cursor) (mark : Char) : Bool :=
  c.column = 0 && c.rest.take 3 == [mark, mark, mark] && c.gapAt 3

def atDocumentMark (c : Cursor) : Bool := c.atMark '-' || c.atMark '.'

end Cursor

end FlowEngine.Yaml
