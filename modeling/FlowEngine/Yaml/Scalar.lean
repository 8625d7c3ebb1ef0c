import FlowEngine.Yaml.Cursor
/-! Reading scalars: plain, quoted, and in blocks.

Inside a plain or quoted scalar a gap that holds a line end is folded: one line end becomes a space,
and of several all but the first are kept. -/

namespace FlowEngine.Yaml

inductive Style where
  | plain
  | singleQuoted
  | doubleQuoted
  | literal
  | folded
  deriving DecidableEq, Repr

/-- Blanks and line ends between two words of a scalar. -/
inductive Gap where
  | none
  | blanks (cs : List Char)
  /-- The first line end, if it counts, and those after it. -/
  | breaks (first more : List Char)
  deriving Repr

namespace Gap

def fold : Gap → List Char
  | none => []
  | blanks cs => cs
  | breaks ['\n'] [] => [' ']
  | breaks ['\n'] more => more
  | breaks first more => first ++ more

def hasBreak : Gap → Bool
  | breaks _ _ => true
  | _ => false

end Gap

/-- Reads the rest of a gap. Nothing, if a tab stands where a line should be indented to
`indent`. -/
def readGap (indent : Nat) : Nat → Gap → Cursor → Option (Gap × Cursor)
  | 0, _, _ => none
  | fuel + 1, gap, c =>
    if c.atBlank then
      match gap with
      | .none => readGap indent fuel (.blanks (c.rest.take 1)) (c.skip 1)
      | .blanks cs => readGap indent fuel (.blanks (cs ++ c.rest.take 1)) (c.skip 1)
      | .breaks first more =>
        if c.column < indent && c.is '\t' then none
        else readGap indent fuel (.breaks first more) (c.skip 1)
    else if c.atBreak then
      match gap with
      | .breaks first more => readGap indent fuel (.breaks first (more ++ c.lineBreak)) c.skipLine
      | _ => readGap indent fuel (.breaks c.lineBreak []) c.skipLine
    else some (gap, c)

def isFlowIndicator (c : Char) : Bool := [',', '[', ']', '\x7b', '\x7d'].contains c

/-- The characters of a plain scalar up to a gap or an indicator. Nothing, if a colon stands before
another indicator in a flow collection. -/
def plainRun (inFlow : Bool) : List Char → Option (List Char)
  | [] => some []
  | c :: rest =>
    if isBlankOrBreak c then some []
    else if inFlow && c = ':' && rest.head?.any (fun n => n = '?' || isFlowIndicator n) then none
    else if c = ':' && rest.head?.all isBlankOrBreak then some []
    else if inFlow && isFlowIndicator c then some []
    else (plainRun inFlow rest).map (c :: ·)

/-- A plain scalar as far as it goes: its text, the gap after it, and the place after the gap. -/
def readPlain (inFlow : Bool) (indent : Nat) :
    Nat → List Char → Gap → Cursor → Option (List Char × Gap × Cursor)
  | 0, _, _, _ => none
  | fuel + 1, text, gap, c =>
    if c.atDocumentMark || c.is '#' then some (text, gap, c)
    else
      match plainRun inFlow c.rest with
      | none => none
      | some run =>
        let (text, gap) := if run.isEmpty then (text, gap) else (text ++ gap.fold ++ run, Gap.none)
        let c := c.skip run.length
        if !c.atBlank && !c.atBreak then some (text, gap, c)
        else
          match readGap indent (c.rest.length + 1) gap c with
          | none => none
          | some (gap, c) =>
            if !inFlow && c.column < indent then some (text, gap, c)
            else readPlain inFlow indent fuel text gap c

def hexDigit? (c : Char) : Option Nat :=
  if isDecimal c then some (c.toNat - 48)
  else if 'a' ≤ c && c ≤ 'f' then some (c.toNat - 87)
  else if 'A' ≤ c && c ≤ 'F' then some (c.toNat - 55)
  else none

def hexValue? (cs : List Char) : Option Nat :=
  cs.foldlM (fun n c => (hexDigit? c).map fun d => n * 16 + d) 0

/-- What a letter after a backslash stands for: a character, or so many digits of its code. -/
def escapeOf : Char → Option (Char ⊕ Nat)
  | '0' => some (.inl (Char.ofNat 0))
  | 'a' => some (.inl (Char.ofNat 7))
  | 'b' => some (.inl (Char.ofNat 8))
  | 't' => some (.inl '\t')
  | '\t' => some (.inl '\t')
  | 'n' => some (.inl '\n')
  | 'v' => some (.inl (Char.ofNat 11))
  | 'f' => some (.inl (Char.ofNat 12))
  | 'r' => some (.inl '\r')
  | 'e' => some (.inl (Char.ofNat 27))
  | ' ' => some (.inl ' ')
  | '\x22' => some (.inl '\x22')
  | '/' => some (.inl '/')
  | '\\' => some (.inl '\\')
  | 'N' => some (.inl (Char.ofNat 0x85))
  | '_' => some (.inl (Char.ofNat 0xa0))
  | 'L' => some (.inl (Char.ofNat 0x2028))
  | 'P' => some (.inl (Char.ofNat 0x2029))
  | 'x' => some (.inr 2)
  | 'u' => some (.inr 4)
  | 'U' => some (.inr 8)
  | _ => none

/-- The character after a backslash, and how many characters it takes. -/
def escaped? : List Char → Option (Char × Nat)
  | [] => none
  | c :: rest =>
    match escapeOf c with
    | none => none
    | some (.inl x) => some (x, 1)
    | some (.inr digits) =>
      if rest.length < digits then none
      else
        match hexValue? (rest.take digits) with
        | none => none
        | some n => if n.isValidChar then some (Char.ofNat n, digits + 1) else none

/-- The characters of a quoted scalar up to a gap or the closing quote. The flag tells whether the
run ends with an escaped line end. -/
def quotedRun (double : Bool) : Nat → List Char → Cursor → Option (List Char × Bool × Cursor)
  | 0, _, _ => none
  | fuel + 1, text, c =>
    match c.rest with
    | [] => some (text, false, c)
    | x :: rest =>
      if isBlankOrBreak x then some (text, false, c)
      else if double then
        if x = '\x22' then some (text, false, c)
        else if x = '\\' then
          if rest.head?.any isBreak then some (text, true, (c.skip 1).skipLine)
          else
            match escaped? rest with
            | none => none
            | some (y, n) => quotedRun double fuel (text ++ [y]) (c.skip (n + 1))
        else quotedRun double fuel (text ++ [x]) (c.skip 1)
      else if x = '\x27' then
        if rest.head? == some '\x27' then quotedRun double fuel (text ++ ['\x27']) (c.skip 2)
        else some (text, false, c)
      else quotedRun double fuel (text ++ [x]) (c.skip 1)

def readQuoted (double : Bool) : Nat → List Char → Cursor → Option (List Char × Cursor)
  | 0, _, _ => none
  | fuel + 1, text, c =>
    if c.atDocumentMark || c.atEnd then none
    else
      match quotedRun double (c.rest.length + 1) text c with
      | none => none
      | some (text, escapedBreak, c) =>
        if c.is (if double then '\x22' else '\x27') then some (text, c.skip 1)
        else
          let gap := if escapedBreak then Gap.breaks [] [] else .none
          match readGap 0 (c.rest.length + 1) gap c with
          | none => none
          | some (gap, c) => readQuoted double fuel (text ++ gap.fold) c

inductive Chomping where
  | clip
  | strip
  | keep
  deriving DecidableEq, Repr

def chomping? : Char → Option Chomping
  | '+' => some .keep
  | '-' => some .strip
  | _ => none

/-- An indentation given by a digit; zero is refused. -/
def indentDigit? (c : Cursor) : Option (Option Nat × Cursor) :=
  match c.ahead? 0 with
  | some d =>
    if isDecimal d then if d = '0' then none else some (some (d.toNat - 48), c.skip 1)
    else some (none, c)
  | none => some (none, c)

/-- The signs after the one that opens a block, in either order. -/
def blockHeader (c : Cursor) : Option (Chomping × Option Nat × Cursor) :=
  match (c.ahead? 0).bind chomping? with
  | some chomping => (indentDigit? (c.skip 1)).map fun (n, c) => (chomping, n, c)
  | none =>
    (indentDigit? c).map fun (n, c) =>
      if n.isSome then
        match (c.ahead? 0).bind chomping? with
        | some chomping => (chomping, n, c.skip 1)
        | none => (.clip, n, c)
      else (.clip, n, c)

/-- Passes over empty lines and the indentation of the next one. Gives the line ends, the deepest
column reached and the place; nothing, if a tab stands in the indentation. -/
def blockGap (indent : Option Nat) :
    Nat → List Char → Nat → Cursor → Option (List Char × Nat × Cursor)
  | 0, _, _, _ => none
  | fuel + 1, breaks, deepest, c =>
    let spaces := (c.rest.takeWhile (· = ' ')).length
    let c := c.skip (match indent with
      | none => spaces
      | some n => min spaces (n - c.column))
    let deepest := max deepest c.column
    if indent.all (fun n => c.column < n) && c.is '\t' then none
    else if c.atBreak then blockGap indent fuel (breaks ++ c.lineBreak) deepest c.skipLine
    else some (breaks, deepest, c)

/-- The text of a block so far, and the line ends that may still become part of it. -/
structure BlockText where
  text : List Char
  leading : List Char
  trailing : List Char
  /-- Whether the line before begins with a blank. -/
  leadingBlank : Bool

/-- Adds the line ends before a line that begins with a blank or not. -/
def BlockText.join (b : BlockText) (literal blank : Bool) : List Char :=
  if !literal && b.leading == ['\n'] && !b.leadingBlank && !blank then
    b.text ++ (if b.trailing.isEmpty then [' '] else []) ++ b.trailing
  else b.text ++ b.leading ++ b.trailing

def blockLines (literal : Bool) (indent : Nat) :
    Nat → BlockText → Cursor → Option (BlockText × Cursor)
  | 0, _, _ => none
  | fuel + 1, b, c =>
    if c.column = indent && !c.atEnd then
      let blank := c.atBlank
      let text := b.join literal blank
      let (line, c) := c.takeWhile fun x => !isBreak x
      let leading := c.lineBreak
      let c := if c.atBreak then c.skipLine else c
      match blockGap (some indent) (c.rest.length + 1) [] 0 c with
      | none => none
      | some (trailing, _, c) =>
        blockLines literal indent fuel ⟨text ++ line, leading, trailing, blank⟩ c
    else some (b, c)

def BlockText.chomped (b : BlockText) : Chomping → List Char
  | .strip => b.text
  | .clip => b.text ++ b.leading
  | .keep => b.text ++ b.leading ++ b.trailing

/-- A block scalar after the sign that opens it. `parent` is the column that the block is indented
from; it is nothing at the top. -/
def readBlock (literal : Bool) (parent : Option Nat) (c : Cursor) :
    Option (List Char × Cursor) := do
  let (chomping, increment, c) ← blockHeader c
  let c := c.skipBlanks
  let c := if c.is '#' then c.skipToLineEnd else c
  if !c.atLineEnd then none
  let c := if c.atBreak then c.skipLine else c
  let given := increment.map fun n => parent.getD 0 + n
  let (trailing, deepest, c) ← blockGap given (c.rest.length + 1) [] 0 c
  let least := match parent with
    | none => 1
    | some n => n + 1
  let indent := given.getD (max deepest least)
  let (b, c) ← blockLines literal indent (c.rest.length + 1) ⟨[], [], trailing, false⟩ c
  some (b.chomped chomping, c)

end FlowEngine.Yaml
