/-! Shortest decimal text of a binary floating-point number.

A finite number is `mantissa * 2 ^ power`. The reals that round to it form an interval, with its
ends included if the mantissa is even. `shortest` looks for the coarsest decimal grid with a point
in that interval, in exact arithmetic, and takes the nearer of the two neighbours of the value. -/

namespace FlowEngine.Decimal

structure Ratio where
  num : Nat
  den : Nat

def Ratio.le (a b : Ratio) : Bool := a.num * b.den ≤ b.num * a.den
def Ratio.lt (a b : Ratio) : Bool := a.num * b.den < b.num * a.den

def Ratio.scaled (n base : Nat) (exponent : Int) : Ratio :=
  if exponent < 0 then ⟨n, Nat.pow base exponent.natAbs⟩
  else ⟨n * Nat.pow base exponent.toNat, 1⟩

/-- The magnitude of a finite number: `mantissa * 2 ^ power`. -/
structure Binary where
  mantissa : Nat
  power : Int

/-- The first significand bit, which is not stored. -/
def hiddenBit : Nat := 4503599627370496

def Binary.ofBits (bits : UInt64) : Binary :=
  let exponent : Nat := bits.toNat / hiddenBit % 2048
  let fraction := bits.toNat % hiddenBit
  if exponent = 0 then ⟨fraction, -1074⟩ else ⟨fraction + hiddenBit, (exponent : Int) - 1075⟩

/-- The interval of reals that round to the number. -/
structure Interval where
  low : Ratio
  high : Ratio
  closed : Bool

def Binary.interval (b : Binary) : Interval where
  low :=
    if b.mantissa = hiddenBit && b.power != -1074 then .scaled (4 * b.mantissa - 1) 2 (b.power - 2)
    else .scaled (4 * b.mantissa - 2) 2 (b.power - 2)
  high := .scaled (4 * b.mantissa + 2) 2 (b.power - 2)
  closed := b.mantissa % 2 = 0

def Interval.contains (i : Interval) (r : Ratio) : Bool :=
  if i.closed then i.low.le r && r.le i.high else i.low.lt r && r.lt i.high

/-- `digits * 10 ^ exponent`. -/
structure Numeral where
  digits : Nat
  exponent : Int

def Numeral.value (n : Numeral) : Ratio := .scaled n.digits 10 n.exponent

def width (n : Nat) : Nat := (Nat.toDigits 10 n).length

/-- The decimal exponent of the first digit of a ratio; `fuel` bounds the search below one. -/
def magnitude (fuel : Nat) (r : Ratio) : Int :=
  if r.num / r.den ≠ 0 then (width (r.num / r.den) : Int) - 1
  else
    match fuel with
    | 0 => 0
    | fuel + 1 => magnitude fuel ⟨r.num * 10, r.den⟩ - 1

/-- The neighbours of a ratio on the grid `10 ^ exponent`, the nearer first. -/
def neighbours (r : Ratio) (exponent : Int) : List Numeral :=
  let unit := Ratio.scaled 1 10 exponent
  let below := r.num * unit.den / (r.den * unit.num)
  let rest := r.num * unit.den % (r.den * unit.num)
  if 2 * rest ≤ r.den * unit.num then [⟨below, exponent⟩, ⟨below + 1, exponent⟩]
  else [⟨below + 1, exponent⟩, ⟨below, exponent⟩]

/-- The first grid, from `size` digits on, with a point in the interval. -/
def search (i : Interval) (r : Ratio) (top : Int) : Nat → Nat → Numeral
  | 0, size => ⟨0, size⟩
  | tries + 1, size =>
    match (neighbours r (top - size + 1)).find? fun n => n.digits ≠ 0 && i.contains n.value with
    | some n => n
    | none => search i r top tries (size + 1)

def shortest (b : Binary) : Numeral :=
  if b.mantissa = 0 then ⟨0, 0⟩
  else
    let r := Ratio.scaled b.mantissa 2 b.power
    search b.interval r (magnitude 400 r) 17 1

/-- Drops zeros at the end of the digits; `fuel` bounds their number. -/
def Numeral.trimmed : Nat → Numeral → Numeral
  | 0, n => n
  | fuel + 1, n =>
    if n.digits ≠ 0 && n.digits % 10 = 0 then trimmed fuel ⟨n.digits / 10, n.exponent + 1⟩ else n

structure Style where
  positionalFrom : Int
  positionalTo : Int
  exponentDigits : Nat

def padLeft (size : Nat) (digits : List Char) : List Char :=
  List.replicate (size - digits.length) '0' ++ digits

def Numeral.write (style : Style) (n : Numeral) : String :=
  let digits := Nat.toDigits 10 n.digits
  let first := n.exponent + digits.length - 1
  if n.digits = 0 then "0.0"
  else if style.positionalFrom ≤ first && first ≤ style.positionalTo then
    if n.exponent ≥ 0 then
      String.ofList (digits ++ List.replicate n.exponent.toNat '0' ++ ['.', '0'])
    else if first ≥ 0 then
      String.ofList (digits.take (first.toNat + 1) ++ '.' :: digits.drop (first.toNat + 1))
    else
      String.ofList ('0' :: '.' :: List.replicate (first.natAbs - 1) '0' ++ digits)
  else
    let fraction := if digits.length = 1 then [] else '.' :: digits.drop 1
    let sign := if first < 0 then '-' else '+'
    String.ofList (digits.take 1 ++ fraction ++ 'e' :: sign ::
      padLeft style.exponentDigits (Nat.toDigits 10 first.natAbs))

/-- Positional from five zeros after the point up to sixteen digits before it; other exponents
have a sign and at least two digits. -/
def messageStyle : Style := ⟨-5, 15, 2⟩

def shown (x : Float) : String :=
  let bits := x.toBits
  let text := ((shortest (.ofBits bits)).trimmed 20).write messageStyle
  if bits.toNat ≥ 9223372036854775808 then "-" ++ text else text

end FlowEngine.Decimal
