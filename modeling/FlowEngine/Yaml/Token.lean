import FlowEngine.Yaml.Scalar
/-! The tokens of YAML, and reading those that are not scalars: anchors, tags and directives. -/

namespace FlowEngine.Yaml

inductive Bracket where
  | square
  | curly
  deriving DecidableEq, Repr

inductive Token where
  | streamStart
  | streamEnd
  | version (major minor : Nat)
  | tagDirective (handle lead : String)
  | documentStart
  | documentEnd
  | blockSequenceStart
  | blockMappingStart
  | blockEnd
  | flowStart (b : Bracket)
  | flowEnd (b : Bracket)
  | blockEntry
  | flowEntry
  | key
  | value
  | aliasOf (name : String)
  | anchor (name : String)
  | tag (handle suffix : String)
  | scalar (text : String) (style : Style)
  deriving DecidableEq, Repr

/-- Characters that may follow a name directly, besides blanks. -/
def mayFollowName (c : Char) : Bool :=
  isBlankOrBreak c || ['?', ':', ',', ']', '\x7d', '%', '@', Char.ofNat 96].contains c

def readName (c : Cursor) : Option (String × Cursor) :=
  let (name, c) := c.takeWhile isWordChar
  if name.isEmpty || !(c.ahead? 0).all mayFollowName then none else some (String.ofList name, c)

def isTagChar (verbatim : Bool) (c : Char) : Bool :=
  isWordChar c ||
    [';', '/', '?', ':', '@', '&', '=', '+', '$', '.', '!', '~', '*', '\x27', '(',
      ')'].contains c ||
    (verbatim && [',', '[', ']'].contains c)

def escapedByte? : List Char → Option (Nat × List Char)
  | '%' :: a :: b :: rest => (hexValue? [a, b]).map fun n => (n, rest)
  | _ => none

/-- How many bytes follow a first byte, and the bits that it contributes. -/
def escapedLead? (n : Nat) : Option (Nat × Nat) :=
  if n < 0x80 then some (0, n)
  else if n / 32 = 6 then some (1, n % 32)
  else if n / 16 = 14 then some (2, n % 16)
  else if n / 8 = 30 then some (3, n % 8)
  else none

def escapedTail : Nat → Nat → List Char → Option (Nat × List Char)
  | 0, n, cs => some (n, cs)
  | k + 1, n, cs =>
    match escapedByte? cs with
    | some (b, rest) => if b / 64 = 2 then escapedTail k (n * 64 + b % 64) rest else none
    | none => none

def escapedChar? (cs : List Char) : Option (Char × List Char) := do
  let (first, rest) ← escapedByte? cs
  let (more, bits) ← escapedLead? first
  let (n, rest) ← escapedTail more bits rest
  some (Char.ofNat n, rest)

def tagRun (verbatim : Bool) : Nat → List Char → Cursor → Option (List Char × Cursor)
  | 0, _, _ => none
  | fuel + 1, text, c =>
    if c.is '%' then
      match escapedChar? c.rest with
      | none => none
      | some (x, rest) =>
        tagRun verbatim fuel (text ++ [x]) (c.skip (c.rest.length - rest.length))
    else if c.holdsAt 0 (isTagChar verbatim) then
      tagRun verbatim fuel (text ++ c.rest.take 1) (c.skip 1)
    else some (text, c)

/-- A tag, or what follows its handle. `head` is what has been read of it, with an exclamation mark
in front; it may not be empty altogether. -/
def readTagText (verbatim : Bool) (head : List Char) (c : Cursor) :
    Option (List Char × Cursor) := do
  let (text, after) ← tagRun verbatim (c.rest.length + 1) [] c
  if head.isEmpty && after.index = c.index then none
  some (head.drop 1 ++ text, after)

/-- An exclamation mark, a word and, if there is one, another exclamation mark. -/
def readHandle (c : Cursor) : Option (List Char × Cursor) :=
  if c.is '!' then
    let (word, c) := (c.skip 1).takeWhile isWordChar
    if c.is '!' then some ('!' :: word ++ ['!'], c.skip 1) else some ('!' :: word, c)
  else none

def isHandle (cs : List Char) : Bool :=
  2 ≤ cs.length && cs.getLast? == some '!'

def readTagParts (c : Cursor) : Option (List Char × List Char × Cursor) :=
  if c.ahead? 1 == some '<' then
    match readTagText true [] (c.skip 2) with
    | some (text, c) => if c.is '>' then some ([], text, c.skip 1) else none
    | none => none
  else
    match readHandle c with
    | none => none
    | some (handle, c) =>
      if isHandle handle then
        (readTagText false [] c).map fun (text, c) => (handle, text, c)
      else
        (readTagText false handle c).map fun (text, c) =>
          if text.isEmpty then ([], ['!'], c) else (['!'], text, c)

def readTag (inFlow : Bool) (c : Cursor) : Option (Token × Cursor) :=
  match readTagParts c with
  | none => none
  | some (handle, suffix, c) =>
    if c.gapAt 0 || (inFlow && c.is ',') then
      some (.tag (String.ofList handle) (String.ofList suffix), c)
    else none

def readVersionNumber (c : Cursor) : Option (Nat × Cursor) :=
  let (digits, c) := c.takeWhile isDecimal
  if digits.isEmpty || 9 < digits.length then none
  else some (digits.foldl (fun n d => n * 10 + (d.toNat - 48)) 0, c)

def readVersion (c : Cursor) : Option (Token × Cursor) := do
  let (major, c) ← readVersionNumber c.skipBlanks
  if !c.is '.' then none
  let (minor, c) ← readVersionNumber (c.skip 1)
  some (.version major minor, c)

def readTagDirective (c : Cursor) : Option (Token × Cursor) := do
  let (handle, c) ← readHandle c.skipBlanks
  if !(isHandle handle || handle == ['!']) then none
  if !c.atBlank then none
  let (text, c) ← readTagText true [] c.skipBlanks
  if !c.gapAt 0 then none
  some (.tagDirective (String.ofList handle) (String.ofList text), c)

/-- A directive after its percent sign, and the rest of its line. -/
def readDirective (c : Cursor) : Option (Token × Cursor) := do
  let (name, c) := c.takeWhile isWordChar
  if name.isEmpty || !c.gapAt 0 then none
  let (token, c) ←
    if name == "YAML".toList then readVersion c
    else if name == "TAG".toList then readTagDirective c
    else none
  let c := c.skipBlanks
  let c := if c.is '#' then c.skipToLineEnd else c
  if !c.atLineEnd then none
  some (token, if c.atBreak then c.skipLine else c)

end FlowEngine.Yaml
