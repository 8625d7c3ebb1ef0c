/-! UTF-8: bytes of a text, and texts read from bytes that may be ill-formed.

Ill-formed input is cut into maximal subparts: the longest start of a well-formed sequence that is
there, or a single byte. `units` gives the characters and the ill-formed subparts in order; a
lenient reader shows one U+FFFD for each subpart, a strict one refuses any. -/

namespace FlowEngine.Text

abbrev Bytes := List UInt8

def toBytes (s : String) : Bytes :=
  s.toUTF8.toList

/-- What a first byte announces: how many bytes follow, and the range of the second one. -/
inductive Lead where
  | alone
  | two
  | three (low high : UInt8)
  | four (low high : UInt8)
  | illFormed
  deriving DecidableEq, Repr

/-- Well-formed first bytes; `c0`, `c1` and `f5` upwards start nothing. -/
def leadOf (b : UInt8) : Lead :=
  if b < 0x80 then .alone
  else if b < 0xc2 then .illFormed
  else if b < 0xe0 then .two
  else if b = 0xe0 then .three 0xa0 0xbf
  else if b = 0xed then .three 0x80 0x9f
  else if b < 0xf0 then .three 0x80 0xbf
  else if b = 0xf0 then .four 0x90 0xbf
  else if b < 0xf4 then .four 0x80 0xbf
  else if b = 0xf4 then .four 0x80 0x8f
  else .illFormed

def within (low high b : UInt8) : Bool :=
  low ≤ b && b ≤ high

def isContinuation (b : UInt8) : Bool :=
  within 0x80 0xbf b

def tailBits (b : UInt8) : Nat :=
  b.toNat % 64

/-- The characters of the bytes in order, with `none` for each ill-formed subpart. -/
def units : Bytes → List (Option Char)
  | [] => []
  | b0 :: r0 =>
    match leadOf b0 with
    | .alone => some (Char.ofNat b0.toNat) :: units r0
    | .illFormed => none :: units r0
    | .two =>
      match r0 with
      | [] => [none]
      | b1 :: r1 =>
        if isContinuation b1 then
          some (Char.ofNat (b0.toNat % 32 * 64 + tailBits b1)) :: units r1
        else none :: units (b1 :: r1)
    | .three low high =>
      match r0 with
      | [] => [none]
      | b1 :: r1 =>
        if within low high b1 then
          match r1 with
          | [] => [none]
          | b2 :: r2 =>
            if isContinuation b2 then
              some (Char.ofNat ((b0.toNat % 16 * 64 + tailBits b1) * 64 + tailBits b2)) :: units r2
            else none :: units (b2 :: r2)
        else none :: units (b1 :: r1)
    | .four low high =>
      match r0 with
      | [] => [none]
      | b1 :: r1 =>
        if within low high b1 then
          match r1 with
          | [] => [none]
          | b2 :: r2 =>
            if isContinuation b2 then
              match r2 with
              | [] => [none]
              | b3 :: r3 =>
                if isContinuation b3 then
                  some (Char.ofNat
                    (((b0.toNat % 8 * 64 + tailBits b1) * 64 + tailBits b2) * 64 + tailBits b3))
                    :: units r3
                else none :: units (b3 :: r3)
            else none :: units (b2 :: r2)
        else none :: units (b1 :: r1)

def replacement : Char :=
  Char.ofNat 0xfffd

/-- Reads bytes leniently, one U+FFFD for each ill-formed subpart. -/
def ofBytesLossy (bs : Bytes) : String :=
  String.ofList ((units bs).map fun u => u.getD replacement)

def ofBytes? (bs : Bytes) : Option String :=
  ((units bs).mapM id).map String.ofList

end FlowEngine.Text
