import FlowEngine.Text.Utf8
/-! Percent-encoding of one segment of a URL: letters, digits and `- _ . ~` stand for themselves,
each other byte of the UTF-8 form is written as `%` and two upper-case hexadecimal digits. -/

namespace FlowEngine.Text.Percent

def isUnreserved (b : UInt8) : Bool :=
  within 0x30 0x39 b || within 0x41 0x5a b || within 0x61 0x7a b ||
    b == 0x2d || b == 0x5f || b == 0x2e || b == 0x7e

def hexDigit (n : Nat) : Char :=
  if n < 10 then Char.ofNat (48 + n) else Char.ofNat (55 + n)

def encodeByte (b : UInt8) : List Char :=
  if isUnreserved b then [Char.ofNat b.toNat]
  else ['%', hexDigit (b.toNat / 16), hexDigit (b.toNat % 16)]

def encode (s : String) : String :=
  String.ofList ((toBytes s).flatMap encodeByte)

end FlowEngine.Text.Percent
