/-! Numbers in base 36 with the digits `0` to `9` and `a` to `z`.

Main statements: reading back what `encode` or `encodeFixed` writes gives the number, or the number
modulo `36 ^ width`. -/

namespace FlowEngine.Text.Base36

def digit (n : Nat) : Char :=
  if n < 10 then Char.ofNat (48 + n) else Char.ofNat (87 + n)

def digitValue? (c : Char) : Option Nat :=
  if 48 ≤ c.toNat ∧ c.toNat ≤ 57 then some (c.toNat - 48)
  else if 97 ≤ c.toNat ∧ c.toNat ≤ 122 then some (c.toNat - 87)
  else none

/-- The shortest numeral; zero is written `0`. -/
def encode (n : Nat) : List Char :=
  if n < 36 then [digit n] else encode (n / 36) ++ [digit (n % 36)]
termination_by n
decreasing_by omega

/-- Exactly `width` digits: the number modulo `36 ^ width`, padded with zeros. -/
def encodeFixed : Nat → Nat → List Char
  | 0, _ => []
  | width + 1, n => encodeFixed width (n / 36) ++ [digit (n % 36)]

def decodeFrom (acc : Nat) : List Char → Option Nat
  | [] => some acc
  | c :: cs => (digitValue? c).bind fun d => decodeFrom (acc * 36 + d) cs

def decode? (cs : List Char) : Option Nat :=
  decodeFrom 0 cs

theorem digitValue?_digit : ∀ n : Nat, n < 36 → digitValue? (digit n) = some n := by
  decide

theorem decodeFrom_append (acc : Nat) (xs ys : List Char) :
    decodeFrom acc (xs ++ ys) = (decodeFrom acc xs).bind fun n => decodeFrom n ys := by
  induction xs generalizing acc with
  | nil => rfl
  | cons c cs ih =>
    cases h : digitValue? c with
    | none => simp [decodeFrom, h]
    | some d => simp [decodeFrom, h, ih]

theorem decodeFrom_encodeFixed (acc width n : Nat) :
    decodeFrom acc (encodeFixed width n) = 
      some (acc * Nat.pow 36 width + n % Nat.pow 36 width) := by
  induction width generalizing n with
  | zero => simp [encodeFixed, decodeFrom, Nat.mod_one]
  | succ w ih =>
    rw [encodeFixed, decodeFrom_append, ih]
    have hd : digitValue? (digit (n % 36)) = some (n % 36) :=
      digitValue?_digit _ (Nat.mod_lt _ (by decide))
    have hp : Nat.pow 36 (w + 1) = 36 * Nat.pow 36 w := Nat.mul_comm _ _
    simp only [Option.bind_some, decodeFrom, hd]
    rw [hp, Nat.mod_mul, Nat.add_mul, Nat.mul_assoc, Nat.add_assoc, Nat.mul_comm _ 36,
      Nat.mul_comm _ 36, Nat.add_comm (n % 36)]

theorem decode?_encodeFixed (width n : Nat) :
    decode? (encodeFixed width n) = some (n % Nat.pow 36 width) := by
  simp [decode?, decodeFrom_encodeFixed]

theorem length_encodeFixed (width n : Nat) : (encodeFixed width n).length = width := by
  induction width generalizing n with
  | zero => rfl
  | succ w ih => simp [encodeFixed, ih]

theorem decode?_encode (n : Nat) : decode? (encode n) = some n := by
  induction n using encode.induct with
  | case1 n h => rw [encode, if_pos h]; simp [decode?, decodeFrom, digitValue?_digit n h]
  | case2 n h ih =>
    rw [encode, if_neg h, decode?, decodeFrom_append, ← decode?, ih]
    have hd := digitValue?_digit (n % 36) (Nat.mod_lt _ (by decide))
    simp only [Option.bind_some, decodeFrom, hd]
    congr 1
    omega

end FlowEngine.Text.Base36
