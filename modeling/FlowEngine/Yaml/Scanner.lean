import FlowEngine.Yaml.Token
/-! The tokens of a YAML text.

Where a key may begin, it is not yet known whether a colon follows; a pending key remembers the
place. Tokens from a pending key on are held back until the matter is settled. So a fault in the
text hides the tokens that were held back when it was met. -/

namespace FlowEngine.Yaml

/-- A place where a key may have begun. -/
structure PendingKey where
  required : Bool
  /-- The number of the token that begins the key. -/
  token : Nat
  index : Nat
  line : Nat
  column : Nat
  deriving Repr

structure Scanner where
  cursor : Cursor
  /-- The tokens held back, and how many were handed out before. -/
  queue : List Token
  handedOut : Nat
  indents : List Nat
  /-- The pending key of each level of flow collections, the innermost first. -/
  keys : List (Option PendingKey)
  /-- Whether a key may begin here. -/
  keyAllowed : Bool
  started : Bool

namespace Scanner

def ofText (s : String) : Scanner where
  cursor := .ofText s
  queue := []
  handedOut := 0
  indents := []
  keys := []
  keyAllowed := true
  started := false

def inFlow (s : Scanner) : Bool := 1 < s.keys.length

/-- The column from which a scalar that belongs to the innermost collection is indented. -/
def scalarIndent (s : Scanner) : Nat :=
  match s.indents.head? with
  | none => 0
  | some n => n + 1

def push (s : Scanner) (t : Token) : Scanner := { s with queue := s.queue ++ [t] }

def insertAt (s : Scanner) (number : Nat) (t : Token) : Scanner :=
  { s with queue := s.queue.insertIdx (number - s.handedOut) t }

/-- Whether a key on another line, or too far back, is given up. -/
def isStale (c : Cursor) (k : PendingKey) : Bool :=
  k.line < c.line || k.index + 1024 < c.index

/-- Gives up stale keys; nothing, if one of them was required. -/
def dropStale (s : Scanner) : Option Scanner :=
  let stale := fun (k : Option PendingKey) => k.any (isStale s.cursor)
  if s.keys.any fun k => stale k && k.any PendingKey.required then none
  else some { s with keys := s.keys.map fun k => if stale k then none else k }

/-- Gives up the pending key of the innermost level; nothing, if it was required. -/
def dropKey (s : Scanner) : Option Scanner :=
  match s.keys with
  | some k :: rest => if k.required then none else some { s with keys := none :: rest }
  | _ => some s

def noteKey (s : Scanner) : Option Scanner :=
  if !s.keyAllowed then some s
  else do
    let s ← s.dropKey
    let k : PendingKey :=
      { required := !s.inFlow && s.indents.head? == some s.cursor.column
        token := s.handedOut + s.queue.length
        index := s.cursor.index
        line := s.cursor.line
        column := s.cursor.column }
    some { s with keys := some k :: s.keys.drop 1 }

/-- Opens a block collection at a column, unless one is open there. `number` tells before which
token it begins, if not here. -/
def openBlock (s : Scanner) (column : Nat) (number : Option Nat) (t : Token) : Scanner :=
  if s.inFlow || s.indents.head?.any (fun n => column ≤ n) then s
  else
    let s := { s with indents := column :: s.indents }
    match number with
    | none => s.push t
    | some number => s.insertAt number t

/-- Closes the block collections that are indented deeper than a column, or all. -/
def closeBlocks (s : Scanner) (column : Option Nat) : Scanner :=
  if s.inFlow then s
  else
    let deeper := s.indents.takeWhile fun n => column.all fun column => column < n
    { s with
      indents := s.indents.drop deeper.length
      queue := s.queue ++ deeper.map fun _ => Token.blockEnd }

/-- Passes over blanks, comments and line ends. In a block a key may begin on each new line, and
tabs may not stand where one can begin. A byte order mark that begins a line takes up a column. -/
def skipGaps : Nat → Scanner → Scanner
  | 0, s => s
  | fuel + 1, s =>
    let c := s.cursor
    let c := if c.column = 0 && c.holdsAt 0 (fun x => x.toNat = 0xfeff) then c.skip 1 else c
    let tabs := s.inFlow || !s.keyAllowed
    let (_, c) := c.takeWhile fun x => x = ' ' || (tabs && x = '\t')
    let c := if c.is '#' then c.skipToLineEnd else c
    if c.atBreak then
      skipGaps fuel { s with cursor := c.skipLine, keyAllowed := s.keyAllowed || !s.inFlow }
    else { s with cursor := c }

def sign (s : Scanner) (width : Nat) (t : Token) : Scanner :=
  { s.push t with cursor := s.cursor.skip width }

def fetchStreamEnd (s : Scanner) : Option Scanner := do
  let s ← (s.closeBlocks none).dropKey
  some ({ s with keyAllowed := false }.push .streamEnd)

def fetchDirective (s : Scanner) : Option Scanner := do
  let s ← (s.closeBlocks none).dropKey
  let (t, c) ← readDirective (s.cursor.skip 1)
  some { s.push t with cursor := c, keyAllowed := false }

def fetchDocumentMark (s : Scanner) (t : Token) : Option Scanner := do
  let s ← (s.closeBlocks none).dropKey
  some ({ s with keyAllowed := false }.sign 3 t)

def fetchFlowStart (s : Scanner) (b : Bracket) : Option Scanner := do
  let s ← s.noteKey
  some ({ s with keys := none :: s.keys, keyAllowed := true }.sign 1 (.flowStart b))

def fetchFlowEnd (s : Scanner) (b : Bracket) : Option Scanner := do
  let s ← s.dropKey
  let keys := if s.inFlow then s.keys.drop 1 else s.keys
  some ({ s with keys := keys, keyAllowed := false }.sign 1 (.flowEnd b))

def fetchFlowEntry (s : Scanner) : Option Scanner := do
  let s ← s.dropKey
  some ({ s with keyAllowed := true }.sign 1 .flowEntry)

def fetchBlockEntry (s : Scanner) : Option Scanner := do
  if !s.inFlow && !s.keyAllowed then none
  let s ← (s.openBlock s.cursor.column none .blockSequenceStart).dropKey
  some ({ s with keyAllowed := true }.sign 1 .blockEntry)

def fetchKey (s : Scanner) : Option Scanner := do
  if !s.inFlow && !s.keyAllowed then none
  let s ← (s.openBlock s.cursor.column none .blockMappingStart).dropKey
  some ({ s with keyAllowed := !s.inFlow }.sign 1 .key)

def fetchValue (s : Scanner) : Option Scanner :=
  match s.keys with
  | some k :: rest =>
    let s := (s.insertAt k.token .key).openBlock k.column (some k.token) .blockMappingStart
    some ({ s with keys := none :: rest, keyAllowed := false }.sign 1 .value)
  | _ =>
    if !s.inFlow && !s.keyAllowed then none
    else
      let s := s.openBlock s.cursor.column none .blockMappingStart
      some ({ s with keyAllowed := !s.inFlow }.sign 1 .value)

def fetchKeyed (s : Scanner) (read : Cursor → Option (Token × Cursor)) : Option Scanner := do
  let s ← s.noteKey
  let (t, c) ← read s.cursor
  some { s.push t with cursor := c, keyAllowed := false }

def fetchBlockScalar (s : Scanner) (style : Style) : Option Scanner := do
  let s ← s.dropKey
  let (text, c) ← readBlock (style = .literal) s.indents.head? (s.cursor.skip 1)
  some { s.push (.scalar (String.ofList text) style) with cursor := c, keyAllowed := true }

def fetchQuoted (s : Scanner) (style : Style) : Option Scanner :=
  s.fetchKeyed fun c =>
    (readQuoted (style = .doubleQuoted) (c.rest.length + 1) [] (c.skip 1)).map fun (text, c) =>
      (.scalar (String.ofList text) style, c)

/-- A key may begin after a plain scalar only on another line. -/
def fetchPlain (s : Scanner) : Option Scanner := do
  let s ← s.noteKey
  let (text, gap, c) ←
    readPlain s.inFlow s.scalarIndent (s.cursor.rest.length + 1) [] .none s.cursor
  some { s.push (.scalar (String.ofList text) .plain) with
    cursor := c, keyAllowed := gap.hasBreak }

/-- Signs that a plain scalar does not begin with. -/
def isIndicator (c : Char) : Bool :=
  ['-', '?', ':', ',', '[', ']', '\x7b', '\x7d', '#', '&', '*', '!', '|', '>', '\x27', '\x22', '%',
   '@', Char.ofNat 96].contains c

def startsPlain (inFlow : Bool) (c : Cursor) : Bool :=
  c.holdsAt 0 (fun x => !isBlankOrBreak x && !isIndicator x) ||
    (c.is '-' && !c.holdsAt 1 isSpaceOrTab) ||
    (!inFlow && (c.is '?' || c.is ':') && !c.gapAt 1)

def fetchSign (s : Scanner) : Char → Option Scanner
  | '[' => s.fetchFlowStart .square
  | '\x7b' => s.fetchFlowStart .curly
  | ']' => s.fetchFlowEnd .square
  | '\x7d' => s.fetchFlowEnd .curly
  | ',' => s.fetchFlowEntry
  | '*' => s.fetchKeyed fun c => (readName (c.skip 1)).map fun (n, c) => (.aliasOf n, c)
  | '&' => s.fetchKeyed fun c => (readName (c.skip 1)).map fun (n, c) => (.anchor n, c)
  | '!' => s.fetchKeyed (readTag s.inFlow)
  | '\x27' => s.fetchQuoted .singleQuoted
  | '\x22' => s.fetchQuoted .doubleQuoted
  | '|' => if s.inFlow then none else s.fetchBlockScalar .literal
  | '>' => if s.inFlow then none else s.fetchBlockScalar .folded
  | _ => if startsPlain s.inFlow s.cursor then s.fetchPlain else none

def fetch (s : Scanner) : Option Scanner :=
  if !s.started then
    some ({ s with started := true, keys := [none], keyAllowed := true }.push .streamStart)
  else do
    let s ← (s.skipGaps (s.cursor.rest.length + 1)).dropStale
    let s := s.closeBlocks (some s.cursor.column)
    let c := s.cursor
    match c.ahead? 0 with
    | none => s.fetchStreamEnd
    | some x =>
      if c.column = 0 && x = '%' then s.fetchDirective
      else if c.atMark '-' then s.fetchDocumentMark .documentStart
      else if c.atMark '.' then s.fetchDocumentMark .documentEnd
      else if x = '-' && c.gapAt 1 then s.fetchBlockEntry
      else if x = '?' && (s.inFlow || c.gapAt 1) then s.fetchKey
      else if x = ':' && (s.inFlow || c.gapAt 1) then s.fetchValue
      else s.fetchSign x

/-- Whether the first token held back may turn out to begin a key. -/
def isBlocked (s : Scanner) : Bool :=
  s.keys.any fun k => k.any fun k => k.token = s.handedOut

/-- Hands out tokens until the text ends or a fault is met; the flag tells which. -/
def tokens : Nat → Scanner → List Token × Bool
  | 0, _ => ([], false)
  | fuel + 1, s =>
    match (if s.queue.isEmpty then some s else s.dropStale) with
    | none => ([], false)
    | some s =>
      match s.queue with
      | t :: rest =>
        if s.isBlocked then
          match s.fetch with
          | none => ([], false)
          | some s => tokens fuel s
        else if t = .streamEnd then ([t], true)
        else
          let (more, sound) := tokens fuel { s with queue := rest, handedOut := s.handedOut + 1 }
          (t :: more, sound)
      | [] =>
        match s.fetch with
        | none => ([], false)
        | some s => tokens fuel s

end Scanner

/-- The tokens of a text as far as they can be had. A text with unprintable characters has none. -/
def tokensOf (s : String) : List Token :=
  let cs := s.toList
  if cs.all isPrintable then (Scanner.tokens (8 * cs.length + 16) (.ofText s)).1 else []

end FlowEngine.Yaml
