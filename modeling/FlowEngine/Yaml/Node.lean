import FlowEngine.Yaml.Scanner
/-! The nodes of a YAML text.

Where the text breaks off the tree does too: a collection is cut, or a value is broken. What stands
before can still be read. An anchor gives a number to a node; an alias holds the number. If two
anchors got the same number, the later one counts. -/

namespace FlowEngine.Yaml

structure Scalar where
  text : String
  style : Style
  tag : Option String
  deriving DecidableEq, Repr

inductive Node where
  | scalar (s : Scalar)
  | sequence (items : List Node) (cut : Bool)
  /-- Pairs of nodes; the mapping may be cut after the last pair. -/
  | mapping (entries : List (Node × Node)) (tag : Option String) (cut : Bool)
  | aliasOf (anchor : Nat)
  | void
  /-- A place where the text breaks off. -/
  | broken

structure Anchored where
  number : Nat
  order : Nat
  node : Node

/-- What is known while nodes are read. -/
structure Reading where
  handles : List (String × String)
  names : List (String × Nat)
  count : Nat
  anchored : List Anchored

/-- A node, the tokens after it, and what is known then. No tokens after a break. -/
structure Parsed (α : Type) where
  value : α
  rest : Option (List Token)
  reading : Reading

namespace Reading

def name (r : Reading) (anchor : String) : Nat × Reading :=
  let number := r.names.length
  (number, { r with
    names := (anchor, number) :: r.names.filter fun e => e.1 ≠ anchor
    count := r.count + 1 })

def note (r : Reading) (anchor : Option (Nat × Nat)) (node : Node) : Reading :=
  match anchor with
  | none => r
  | some (number, order) => { r with anchored := ⟨number, order, node⟩ :: r.anchored }

def tag? (r : Reading) (handle suffix : String) : Option String :=
  if handle = "" then some suffix else (r.handles.lookup handle).map fun lead => lead ++ suffix

end Reading

def emptyNode : Node := .scalar ⟨"", .plain, none⟩

structure Properties where
  anchor : Option String
  tag : Option (String × String)

def properties : List Token → Properties × List Token
  | .anchor a :: .tag h s :: rest => (⟨some a, some (h, s)⟩, rest)
  | .tag h s :: .anchor a :: rest => (⟨some a, some (h, s)⟩, rest)
  | .anchor a :: rest => (⟨some a, none⟩, rest)
  | .tag h s :: rest => (⟨none, some (h, s)⟩, rest)
  | tokens => (⟨none, none⟩, tokens)

def brokenAt (r : Reading) : Parsed Node := ⟨.broken, none, r⟩

/-- Whether a token ends an entry of a block collection without a node. -/
def endsBlockEntry : Token → Bool
  | .blockEntry | .key | .value | .blockEnd => true
  | _ => false

def endsBlockPart : Token → Bool
  | .key | .value | .blockEnd => true
  | _ => false

def endsFlowPart (b : Bracket) : Token → Bool
  | .value | .flowEntry => true
  | .flowEnd e => e = b
  | _ => false

def endsFlowValue (b : Bracket) : Token → Bool
  | .flowEntry => true
  | .flowEnd e => e = b
  | _ => false

/-- A scalar with a tag; the tag of a single exclamation mark counts for nothing. -/
def scalarNode (text : String) (style : Style) (tag : Option String) : Node :=
  .scalar ⟨text, style, tag.filter (· ≠ "!")⟩

mutual

/-- A node. In a block, block collections can begin; after a key, a list may stand without
indentation. -/
def readNode (block unindented : Bool) : Nat → Reading → List Token → Parsed Node
  | 0, r, _ => brokenAt r
  | _ + 1, r, [] => brokenAt r
  | _ + 1, r, .aliasOf name :: rest =>
    match r.names.lookup name with
    | some number => ⟨.aliasOf number, some rest, r⟩
    | none => brokenAt r
  | fuel + 1, r, tokens =>
    let (p, rest) := properties tokens
    match rest with
    | [] => brokenAt r
    | t :: after =>
      match p.tag.map fun t => r.tag? t.1 t.2 with
      | some none => brokenAt r
      | tag =>
        let tag := tag.join
        let order := r.count
        let (anchor, r) :=
          match p.anchor with
          | none => (none, r)
          | some name => let (number, r) := r.name name; (some (number, order), r)
        let result : Parsed Node :=
          match t with
          | .scalar text style => ⟨scalarNode text style tag, some after, r⟩
          | .flowStart .square =>
            let ⟨(items, cut), rest, r⟩ := readFlowItems true fuel r after
            ⟨.sequence items cut, rest, r⟩
          | .flowStart .curly =>
            let ⟨(entries, cut), rest, r⟩ := readFlowEntries true fuel r after
            ⟨.mapping entries tag cut, rest, r⟩
          | .blockSequenceStart =>
            if block then
              let ⟨(items, cut), rest, r⟩ := readBlockItems fuel r after
              ⟨.sequence items cut, rest, r⟩
            else brokenAt r
          | .blockMappingStart =>
            if block then
              let ⟨(entries, cut), rest, r⟩ := readBlockEntries fuel r after
              ⟨.mapping entries tag cut, rest, r⟩
            else brokenAt r
          | t =>
            if unindented && t = .blockEntry then
              let ⟨(items, cut), rest, r⟩ := readUnindentedItems fuel r (t :: after)
              ⟨.sequence items cut, rest, r⟩
            else if p.anchor.isSome || p.tag.isSome then
              ⟨.scalar ⟨"", .plain, tag⟩, some (t :: after), r⟩
            else brokenAt r
        ⟨result.value, result.rest, result.reading.note anchor result.value⟩

/-- The items of a block list, and whether it is cut. -/
def readBlockItems : Nat → Reading → List Token → Parsed (List Node × Bool)
  | 0, r, _ => ⟨([], true), none, r⟩
  | fuel + 1, r, .blockEntry :: t :: rest =>
    if t = .blockEntry || t = .blockEnd then
      let ⟨(items, cut), rest, r⟩ := readBlockItems fuel r (t :: rest)
      ⟨(emptyNode :: items, cut), rest, r⟩
    else
      match readNode true false fuel r (t :: rest) with
      | ⟨node, none, r⟩ => ⟨([node], true), none, r⟩
      | ⟨node, some rest, r⟩ =>
        let ⟨(items, cut), rest, r⟩ := readBlockItems fuel r rest
        ⟨(node :: items, cut), rest, r⟩
  | _ + 1, r, .blockEnd :: rest => ⟨([], false), some rest, r⟩
  | _ + 1, r, _ => ⟨([], true), none, r⟩

/-- The items of a list that is not indented; it ends before the first other token. -/
def readUnindentedItems : Nat → Reading → List Token → Parsed (List Node × Bool)
  | 0, r, _ => ⟨([], true), none, r⟩
  | fuel + 1, r, .blockEntry :: t :: rest =>
    if endsBlockEntry t then
      let ⟨(items, cut), rest, r⟩ := readUnindentedItems fuel r (t :: rest)
      ⟨(emptyNode :: items, cut), rest, r⟩
    else
      match readNode true false fuel r (t :: rest) with
      | ⟨node, none, r⟩ => ⟨([node], true), none, r⟩
      | ⟨node, some rest, r⟩ =>
        let ⟨(items, cut), rest, r⟩ := readUnindentedItems fuel r rest
        ⟨(node :: items, cut), rest, r⟩
  | _ + 1, r, [] => ⟨([], true), none, r⟩
  | _ + 1, r, [.blockEntry] => ⟨([], true), none, r⟩
  | _ + 1, r, rest => ⟨([], false), some rest, r⟩

/-- The entries of a block mapping, and whether it is cut. -/
def readBlockEntries : Nat → Reading → List Token → Parsed (List (Node × Node) × Bool)
  | 0, r, _ => ⟨([], true), none, r⟩
  | fuel + 1, r, .key :: t :: rest =>
    let ⟨key, rest, r⟩ : Parsed Node :=
      if endsBlockPart t then ⟨emptyNode, some (t :: rest), r⟩
      else readNode true true fuel r (t :: rest)
    match rest with
    | none => ⟨([(key, .broken)], true), none, r⟩
    | some rest =>
      match readBlockValue fuel r rest with
      | ⟨value, none, r⟩ => ⟨([(key, value)], true), none, r⟩
      | ⟨value, some rest, r⟩ =>
        let ⟨(entries, cut), rest, r⟩ := readBlockEntries fuel r rest
        ⟨((key, value) :: entries, cut), rest, r⟩
  | _ + 1, r, .blockEnd :: rest => ⟨([], false), some rest, r⟩
  | _ + 1, r, _ => ⟨([], true), none, r⟩

def readBlockValue : Nat → Reading → List Token → Parsed Node
  | 0, r, _ => brokenAt r
  | _ + 1, r, [] => brokenAt r
  | _ + 1, r, [.value] => brokenAt r
  | fuel + 1, r, .value :: t :: rest =>
    if endsBlockPart t then ⟨emptyNode, some (t :: rest), r⟩
    else readNode true true fuel r (t :: rest)
  | _ + 1, r, rest => ⟨emptyNode, some rest, r⟩

def readFlowItems (first : Bool) : Nat → Reading → List Token → Parsed (List Node × Bool)
  | 0, r, _ => ⟨([], true), none, r⟩
  | _ + 1, r, .flowEnd .square :: rest => ⟨([], false), some rest, r⟩
  | fuel + 1, r, tokens =>
    let tokens :=
      match tokens with
      | .flowEntry :: rest => if first then some tokens else some rest
      | tokens => if first then some tokens else none
    match tokens with
    | none => ⟨([], true), none, r⟩
    | some [] => ⟨([], true), none, r⟩
    | some (.flowEnd .square :: rest) => ⟨([], false), some rest, r⟩
    | some (.key :: rest) =>
      match readFlowPair fuel r rest with
      | ⟨node, none, r⟩ => ⟨([node], true), none, r⟩
      | ⟨node, some rest, r⟩ =>
        let ⟨(items, cut), rest, r⟩ := readFlowItems false fuel r rest
        ⟨(node :: items, cut), rest, r⟩
    | some tokens =>
      match readNode false false fuel r tokens with
      | ⟨node, none, r⟩ => ⟨([node], true), none, r⟩
      | ⟨node, some rest, r⟩ =>
        let ⟨(items, cut), rest, r⟩ := readFlowItems false fuel r rest
        ⟨(node :: items, cut), rest, r⟩

def readFlowPair : Nat → Reading → List Token → Parsed Node
  | 0, r, _ => brokenAt r
  | _ + 1, r, [] => ⟨.mapping [] none true, none, r⟩
  | fuel + 1, r, t :: rest =>
    let ⟨key, rest, r⟩ : Parsed Node :=
      if endsFlowPart .square t then ⟨emptyNode, some rest, r⟩
      else readNode false false fuel r (t :: rest)
    match rest with
    | none => ⟨.mapping [(key, .broken)] none true, none, r⟩
    | some rest =>
      match readFlowValue .square fuel r rest with
      | ⟨value, none, r⟩ => ⟨.mapping [(key, value)] none true, none, r⟩
      | ⟨value, some rest, r⟩ => ⟨.mapping [(key, value)] none false, some rest, r⟩

def readFlowValue (b : Bracket) : Nat → Reading → List Token → Parsed Node
  | 0, r, _ => brokenAt r
  | _ + 1, r, [] => brokenAt r
  | _ + 1, r, [.value] => brokenAt r
  | fuel + 1, r, .value :: t :: rest =>
    if endsFlowValue b t then ⟨emptyNode, some (t :: rest), r⟩
    else readNode false false fuel r (t :: rest)
  | _ + 1, r, rest => ⟨emptyNode, some rest, r⟩

def readFlowEntries (first : Bool) : Nat → Reading → List Token →
    Parsed (List (Node × Node) × Bool)
  | 0, r, _ => ⟨([], true), none, r⟩
  | _ + 1, r, .flowEnd .curly :: rest => ⟨([], false), some rest, r⟩
  | fuel + 1, r, tokens =>
    let tokens :=
      match tokens with
      | .flowEntry :: rest => if first then some tokens else some rest
      | tokens => if first then some tokens else none
    match tokens with
    | none => ⟨([], true), none, r⟩
    | some [] => ⟨([], true), none, r⟩
    | some (.flowEnd .curly :: rest) => ⟨([], false), some rest, r⟩
    | some [.key] => ⟨([], true), none, r⟩
    | some (.key :: t :: rest) =>
      let ⟨key, rest, r⟩ : Parsed Node :=
        if endsFlowPart .curly t then ⟨emptyNode, some (t :: rest), r⟩
        else readNode false false fuel r (t :: rest)
      match rest with
      | none => ⟨([(key, .broken)], true), none, r⟩
      | some rest =>
        match readFlowValue .curly fuel r rest with
        | ⟨value, none, r⟩ => ⟨([(key, value)], true), none, r⟩
        | ⟨value, some rest, r⟩ =>
          let ⟨(entries, cut), rest, r⟩ := readFlowEntries false fuel r rest
          ⟨((key, value) :: entries, cut), rest, r⟩
    | some tokens =>
      match readNode false false fuel r tokens with
      | ⟨key, none, r⟩ => ⟨([(key, .broken)], true), none, r⟩
      | ⟨key, some [], r⟩ => ⟨([(key, .broken)], true), none, r⟩
      | ⟨key, some rest, r⟩ =>
        let ⟨(entries, cut), rest, r⟩ := readFlowEntries false fuel r rest
        ⟨((key, emptyNode) :: entries, cut), rest, r⟩

end

/-- The directives at the head of a document: the tags that handles stand for, and the tokens
after them. Nothing, if they clash or ask for an unknown version. -/
def readDirectives (handles : List (String × String)) (versioned : Bool) :
    List Token → Option (List (String × String) × List Token)
  | .version major minor :: rest =>
    if versioned || major ≠ 1 || (minor ≠ 1 && minor ≠ 2) then none
    else readDirectives handles true rest
  | .tagDirective handle lead :: rest =>
    if (handles.lookup handle).isSome then none
    else readDirectives (handles ++ [(handle, lead)]) versioned rest
  | rest => some (handles, rest)

/-- The handles that are known without a directive; those of directives come first. -/
def withStandardHandles (handles : List (String × String)) : List (String × String) :=
  handles ++ [("!", "!"), ("!!", "tag:yaml.org,2002:")]

def endsStream : List Token → Bool
  | [.streamEnd] => true
  | .documentEnd :: rest => endsStream rest
  | _ => false

structure Document where
  root : Node
  anchored : List Anchored
  ends : Bool

namespace Document

def broken : Document := ⟨.broken, [], false⟩

def ofParsed (p : Parsed Node) : Document :=
  ⟨p.value, p.reading.anchored, p.rest.any endsStream⟩

def readContent (r : Reading) : List Token → Parsed Node
  | [] => brokenAt r
  | t :: rest =>
    match t with
    | .version _ _ | .tagDirective _ _ | .documentStart | .documentEnd | .streamEnd =>
      ⟨emptyNode, some (t :: rest), r⟩
    | t => readNode true false (4 * rest.length + 8) r (t :: rest)

def ofTokens : List Token → Document
  | [.streamStart, .streamEnd] => ⟨.void, [], true⟩
  | .streamStart :: tokens =>
    match readDirectives [] false tokens with
    | none => broken
    | some (handles, rest) =>
      let r : Reading := ⟨withStandardHandles handles, [], 0, []⟩
      match rest with
      | .documentStart :: rest => ofParsed (readContent r rest)
      | rest =>
        if rest.length < tokens.length then broken
        else ofParsed (readNode true false (4 * rest.length + 8) r rest)
  | _ => broken

def ofText (s : String) : Document := ofTokens (tokensOf s)

end Document

end FlowEngine.Yaml
