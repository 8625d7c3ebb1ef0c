import FlowEngine.Json.Basic
/-! Compact JSON text: no blanks, the quotation mark, the backslash and the controls escaped, all
other characters as they are. -/

namespace FlowEngine.Json

def hexDigit (n : Nat) : Char :=
  if n < 10 then Char.ofNat (48 + n) else Char.ofNat (87 + n)

def escape (c : Char) : List Char :=
  if c = '\x22' || c = '\\' then ['\\', c]
  else if c = '\n' then ['\\', 'n']
  else if c = '\r' then ['\\', 'r']
  else if c = '\t' then ['\\', 't']
  else if c.toNat = 8 then ['\\', 'b']
  else if c.toNat = 12 then ['\\', 'f']
  else if c.toNat < 32 then
    ['\\', 'u', '0', '0', hexDigit (c.toNat / 16), hexDigit (c.toNat % 16)]
  else [c]

def quoted (s : String) : String :=
  String.ofList ('\x22' :: s.toList.flatMap escape ++ ['\x22'])

def Number.text : Number → String
  | .int i => toString i
  | .decimal shown => shown

mutual

def compact : Json → String
  | .null => "null"
  | .bool true => "true"
  | .bool false => "false"
  | .num n => n.text
  | .str s => quoted s
  | .arr items _ => "[" ++ ",".intercalate (compactItems items) ++ "]"
  | .obj members _ => "\x7b" ++ ",".intercalate (compactMembers members) ++ "\x7d"
  | .keyless _ => "null"
  | .faulty _ _ => "null"

def compactItems : List Json → List String
  | [] => []
  | j :: rest => compact j :: compactItems rest

def compactMembers : List (String × Json) → List String
  | [] => []
  | (name, j) :: rest => (quoted name ++ ":" ++ compact j) :: compactMembers rest

end

end FlowEngine.Json
