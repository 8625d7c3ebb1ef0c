import FlowEngine.Json.Number
/-! JSON values from text.

The text is read from left to right. At a fault the tree ends, and nothing after it is looked at.
Every call consumes a character or answers at once, so the length of the text bounds the
recursion. -/

namespace FlowEngine.Json

open Markup (Fault)

def isSpace (c : Char) : Bool :=
  c = ' ' || c = '\n' || c = '\t' || c = '\r'

def skipSpace (cs : List Char) : List Char :=
  cs.dropWhile isSpace

/-- A string as far as it goes. `sound` is false if the text can be passed over but not read. -/
inductive ScannedString where
  | complete (chars : List Char) (sound : Bool) (rest : List Char)
  | cut (sound : Bool) (fault : Fault)

def hexValue? (c : Char) : Option Nat :=
  if '0' ≤ c && c ≤ '9' then some (c.toNat - 48)
  else if 'a' ≤ c && c ≤ 'f' then some (c.toNat - 87)
  else if 'A' ≤ c && c ≤ 'F' then some (c.toNat - 55)
  else none

/-- Four hexadecimal digits. Fewer than four bytes of text count as its end. -/
def hexCode (cs : List Char) : Except Fault (Nat × List Char) :=
  match cs with
  | a :: b :: c :: d :: rest =>
    match hexValue? a, hexValue? b, hexValue? c, hexValue? d with
    | some a, some b, some c, some d => .ok (((a * 16 + b) * 16 + c) * 16 + d, rest)
    | _, _, _, _ => .error .malformed
  | few =>
    if (few.foldl (fun n c => n + c.utf8Size) 0) < 4 then .error .truncated else .error .malformed

def isLeading (n : Nat) : Bool := 0xd800 ≤ n && n ≤ 0xdbff
def isTrailing (n : Nat) : Bool := 0xdc00 ≤ n && n ≤ 0xdfff

def shortEscape? : Char → Option Char
  | '\x22' => some '\x22'
  | '\\' => some '\\'
  | '/' => some '/'
  | 'b' => some (Char.ofNat 8)
  | 'f' => some (Char.ofNat 12)
  | 'n' => some '\n'
  | 'r' => some '\r'
  | 't' => some '\t'
  | _ => none

/-- Scans a string after its opening quote. `acc` holds the characters read, the last first. -/
def scanString : Nat → List Char → List Char → Bool → ScannedString
  | 0, _, _, sound => .cut sound .truncated
  | _ + 1, [], _, sound => .cut sound .truncated
  | fuel + 1, c :: rest, acc, sound =>
    if c = '\x22' then .complete acc.reverse sound rest
    else if c.toNat < 32 then .cut sound .malformed
    else if c ≠ '\\' then scanString fuel rest (c :: acc) sound
    else
      match rest with
      | [] => .cut sound .truncated
      | 'u' :: rest =>
        match hexCode rest with
        | .error fault => .cut sound fault
        | .ok (n, rest) =>
          if isTrailing n then scanString fuel rest acc false
          else if isLeading n then
            match rest with
            | '\\' :: 'u' :: after =>
              match hexCode after with
              | .error fault => .cut sound fault
              | .ok (m, after) =>
                if isTrailing m then
                  scanString fuel after
                    (Char.ofNat ((n - 0xd800) * 1024 + (m - 0xdc00) + 0x10000) :: acc) sound
                else scanString fuel rest acc false
            | [] => .cut sound .truncated
            | ['\\'] => .cut sound .truncated
            | _ => scanString fuel rest acc false
          else scanString fuel rest (Char.ofNat n :: acc) sound
      | e :: rest =>
        match shortEscape? e with
        | some c => scanString fuel rest (c :: acc) sound
        | none => .cut sound .malformed

/-- A value and the text after it; no text after a fault that ends the reading. -/
abbrev Step := Json × Option (List Char)

def broken (fault : Fault) : Step :=
  (.faulty fault (some fault), none)

def literal (value : Json) : List Char → List Char → Step
  | [], rest => (value, some rest)
  | _ :: _, [] => broken .truncated
  | w :: word, c :: rest => if w = c then literal value word rest else broken .malformed

def numberStep (cs : List Char) : Step :=
  match scanNumber cs with
  | .cut whenRead whenSkipped => (.faulty whenRead (some whenSkipped), none)
  | .complete lexeme rest =>
    match lexeme.value? with
    | some n => (.num n, some rest)
    | none => (.faulty .malformed none, some rest)

def stringStep (cs : List Char) : Step :=
  match scanString (cs.length + 1) cs [] true with
  | .complete chars true rest => (.str (String.ofList chars), some rest)
  | .complete _ false rest => (.faulty .malformed none, some rest)
  | .cut true fault => broken fault
  | .cut false fault => (.faulty .malformed (some fault), none)

mutual

def readValue : Nat → List Char → Step
  | 0, _ => broken .truncated
  | fuel + 1, cs =>
    match skipSpace cs with
    | [] => broken .truncated
    | '[' :: rest =>
      match skipSpace rest with
      | [] => (.arr [] (some .truncated), none)
      | ']' :: rest => (.arr [] none, some rest)
      | rest =>
        let (items, cut, after) := readItems fuel rest
        (.arr items cut, after)
    | '\x7b' :: rest =>
      match skipSpace rest with
      | [] => (.obj [] (some ⟨.truncated, false⟩), none)
      | '\x7d' :: rest => (.obj [] none, some rest)
      | '\x22' :: rest =>
        let (members, cut, after) := readMembers fuel rest
        (.obj members cut, after)
      | rest => (.keyless (readValue fuel rest).1, none)
    | '\x22' :: rest => stringStep rest
    | 'n' :: rest => literal .null ['u', 'l', 'l'] rest
    | 't' :: rest => literal (.bool true) ['r', 'u', 'e'] rest
    | 'f' :: rest => literal (.bool false) ['a', 'l', 's', 'e'] rest
    | c :: rest => if c = '-' || isDigit c then numberStep (c :: rest) else broken .malformed

def readItems : Nat → List Char → List Json × Option Fault × Option (List Char)
  | 0, _ => ([], some .truncated, none)
  | fuel + 1, cs =>
    match readValue fuel cs with
    | (item, none) => ([item], none, none)
    | (item, some rest) =>
      match skipSpace rest with
      | [] => ([item], some .truncated, none)
      | ']' :: rest => ([item], none, some rest)
      | ',' :: rest =>
        match skipSpace rest with
        | [] => ([item, .faulty .truncated (some .truncated)], none, none)
        | ']' :: _ => ([item, .faulty .malformed (some .malformed)], none, none)
        | rest =>
          let (items, cut, after) := readItems fuel rest
          (item :: items, cut, after)
      | _ => ([item], some .malformed, none)

def readMembers :
    Nat → List Char → List (String × Json) × Option Cut × Option (List Char)
  | 0, _ => ([], some ⟨.truncated, false⟩, none)
  | fuel + 1, cs =>
    match scanString (cs.length + 1) cs [] true with
    | .cut true fault => ([], some ⟨fault, true⟩, none)
    | .cut false _ => ([], some ⟨.malformed, true⟩, none)
    | .complete _ false _ => ([], some ⟨.malformed, true⟩, none)
    | .complete chars true rest =>
      let name := String.ofList chars
      match skipSpace rest with
      | [] => ([(name, .faulty .truncated (some .truncated))], none, none)
      | ':' :: rest =>
        match readValue fuel rest with
        | (value, none) => ([(name, value)], none, none)
        | (value, some rest) =>
          match skipSpace rest with
          | [] => ([(name, value)], some ⟨.truncated, false⟩, none)
          | '\x7d' :: rest => ([(name, value)], none, some rest)
          | ',' :: rest =>
            match skipSpace rest with
            | [] => ([(name, value)], some ⟨.truncated, true⟩, none)
            | '\x22' :: rest =>
              let (members, cut, after) := readMembers fuel rest
              ((name, value) :: members, cut, after)
            | _ => ([(name, value)], some ⟨.malformed, true⟩, none)
          | _ => ([(name, value)], some ⟨.malformed, false⟩, none)
      | _ => ([(name, .faulty .malformed (some .malformed))], none, none)

end

structure Document where
  root : Json
  trailing : Bool

def Document.ofText (s : String) : Document :=
  let cs := s.toList
  let (root, rest) := readValue (2 * cs.length + 2) cs
  ⟨root, match rest with
    | none => false
    | some rest => !(skipSpace rest).isEmpty⟩

/-- Reads the value of a document; what follows a sound value is a fault. -/
def Document.read {α : Type} (d : Document) (read : Json → Except Fault α) : Except Fault α := do
  let value ← read d.root
  if d.trailing then .error .malformed else .ok value

end FlowEngine.Json
