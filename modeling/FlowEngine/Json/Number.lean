import FlowEngine.Json.Basic
import FlowEngine.Decimal.Shortest
/-! Numbers in JSON text.

A whole number of at most 64 bits is kept exactly. Any other number is taken as a binary
floating-point value, computed from the first digits that fit 64 bits and a power of ten; beyond the
range of such values it cannot be read. -/

namespace FlowEngine.Json

def maxWord : Nat := 18446744073709551615

def digitOf (c : Char) : Nat := c.toNat - 48

structure Lexeme where
  negative : Bool
  whole : List Char
  fraction : Option (List Char)
  exponent : Option (Bool × List Char)

/-- A number as far as its text allows: the lexeme and the rest, or where it breaks off. -/
inductive Scanned where
  | complete (lexeme : Lexeme) (rest : List Char)
  | cut (whenRead whenSkipped : Markup.Fault)

def isDigit (c : Char) : Bool := '0' ≤ c && c ≤ '9'

def digitFault (rest : List Char) : Scanned :=
  if rest.isEmpty then .cut .truncated .malformed else .cut .malformed .malformed

def scanExponent (negative : Bool) (whole : List Char) (fraction : Option (List Char))
    (cs : List Char) : Scanned :=
  match cs with
  | e :: rest =>
    if e = 'e' || e = 'E' then
      let (positive, rest) :=
        match rest with
        | '+' :: rest => (true, rest)
        | '-' :: rest => (false, rest)
        | rest => (true, rest)
      let digits := rest.takeWhile isDigit
      if digits.isEmpty then digitFault rest
      else .complete ⟨negative, whole, fraction, some (positive, digits)⟩ (rest.dropWhile isDigit)
    else .complete ⟨negative, whole, fraction, none⟩ cs
  | [] => .complete ⟨negative, whole, fraction, none⟩ []

def scanFraction (negative : Bool) (whole : List Char) (cs : List Char) : Scanned :=
  match cs with
  | '.' :: rest =>
    let digits := rest.takeWhile isDigit
    if digits.isEmpty then digitFault rest
    else scanExponent negative whole (some digits) (rest.dropWhile isDigit)
  | cs => scanExponent negative whole none cs

def scanWhole (negative : Bool) (cs : List Char) : Scanned :=
  match cs with
  | '0' :: rest =>
    match rest with
    | c :: _ =>
      if isDigit c then .cut .malformed .malformed else scanFraction negative ['0'] rest
    | [] => scanFraction negative ['0'] []
  | [] => .cut .truncated .malformed
  | c :: _ =>
    if isDigit c then scanFraction negative (cs.takeWhile isDigit) (cs.dropWhile isDigit)
    else .cut .malformed .malformed

def scanNumber (cs : List Char) : Scanned :=
  match cs with
  | '-' :: rest => scanWhole true rest
  | cs => scanWhole false cs

/-- Appends digits while the number fits 64 bits; says how many were not taken. -/
def gather : Nat → List Char → Nat × Nat
  | n, [] => (n, 0)
  | n, c :: cs =>
    if n * 10 + digitOf c > maxWord then (n, cs.length + 1) else gather (n * 10 + digitOf c) cs

/-- Divides by powers of ten that are in range until the exponent is small. -/
def scaleDown : Nat → Float → Nat → Float
  | 0, x, _ => x
  | fuel + 1, x, exponent =>
    if exponent ≤ 308 then x / Float.ofScientific 1 false exponent
    else if x == 0 then x
    else scaleDown fuel (x / Float.ofScientific 1 false 308) (exponent - 308)

/-- `significand * 10 ^ exponent`, unless it is out of range. -/
def compose? (significand : Nat) (exponent : Int) : Option Float :=
  let x := (UInt64.ofNat significand).toFloat
  if exponent < 0 then some (scaleDown (exponent.natAbs / 308 + 1) x exponent.natAbs)
  else if exponent ≤ 308 then
    let y := x * Float.ofScientific 1 false exponent.toNat
    if y.isInf then none else some y
  else if significand = 0 then some x
  else none

/-- The largest exponent that is added up; beyond it a number is zero or out of range. -/
def maxExponent : Nat := 2147483647

def decimal (negative : Bool) (x : Float) : Number :=
  .decimal (Decimal.shown (if negative then -x else x))

def Lexeme.value? (l : Lexeme) : Option Number :=
  let (whole, wholeLeft) := gather 0 l.whole
  match l.fraction, l.exponent, wholeLeft with
  | none, none, 0 =>
    if !l.negative then some (.int whole)
    else if whole = 0 || whole > 9223372036854775808 then
      some (decimal true (UInt64.ofNat whole).toFloat)
    else some (.int (-(whole : Int)))
  | _, _, _ =>
    let fraction := l.fraction.getD []
    let (significand, fractionLeft) := gather whole fraction
    let shift : Int := wholeLeft - (fraction.length - fractionLeft : Nat)
    match l.exponent with
    | none => (compose? significand shift).map (decimal l.negative)
    | some (positive, digits) =>
      let exponent := digits.foldl (fun n c => n * 10 + digitOf c) 0
      if exponent > maxExponent then
        if significand ≠ 0 && positive then none else some (decimal l.negative 0)
      else
        (compose? significand (if positive then shift + exponent else shift - exponent)).map
          (decimal l.negative)

end FlowEngine.Json
