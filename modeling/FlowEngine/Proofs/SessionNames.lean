import FlowEngine.Identifier

/-! # The names of sessions

A session is named by the moment it is made at and a random sample, both in base 36. The numeral of
the moment is the shortest one, that of the sample has a fixed width; so a name falls into the two
from its end, and says of the sample just as much as that many digits can.
-/
namespace FlowEngine

namespace Text.Base36

/-- Digits that read as the number, the first of which is zero only in the numeral of zero. -/
structure Numeral (cs : List Char) (n : Nat) : Prop where
  reads : decode? cs = some n
  nonempty : cs ≠ []
  tight : cs.head? = some '0' → cs = ['0']

theorem digit_eq_zero : ∀ n < 36, digit n = '0' → n = 0 := by
  decide

theorem encode_ne_nil (n : Nat) : encode n ≠ [] := by
  rw [encode]
  split
  · exact List.cons_ne_nil _ _
  · exact List.append_ne_nil_of_right_ne_nil _ (List.cons_ne_nil _ _)

theorem head?_encode (n : Nat) (hn : 0 < n) : (encode n).head? ≠ some '0' := by
  induction n using encode.induct with
  | case1 n hlt =>
    rw [encode, if_pos hlt]
    intro h
    exact absurd (digit_eq_zero n hlt (Option.some.inj h)) (Nat.ne_of_gt hn)
  | case2 n hge ih =>
    rw [encode, if_neg hge, List.head?_append, Option.or_of_isSome]
    · exact ih (by omega)
    · simpa using encode_ne_nil (n / 36)

theorem encode_numeral (n : Nat) : Numeral (encode n) n := by
  refine ⟨decode?_encode n, encode_ne_nil n, fun h => ?_⟩
  rcases Nat.eq_zero_or_pos n with rfl | hn
  · rw [encode]
    rfl
  · exact absurd h (head?_encode n hn)

theorem encode_inj {m n : Nat} (h : encode m = encode n) : m = n := by
  have hread := decode?_encode m
  rw [h, decode?_encode] at hread
  exact (Option.some.inj hread).symm

theorem encodeFixed_congr {width m n : Nat}
    (h : m % Nat.pow 36 width = n % Nat.pow 36 width) :
    encodeFixed width m = encodeFixed width n := by
  induction width generalizing m n with
  | zero => rfl
  | succ width ih =>
    have hpow : Nat.pow 36 (width + 1) = 36 * Nat.pow 36 width := Nat.mul_comm _ _
    rw [hpow, Nat.mod_mul, Nat.mod_mul] at h
    have hlast : m % 36 = n % 36 := by omega
    have hrest : m / 36 % Nat.pow 36 width = n / 36 % Nat.pow 36 width := by omega
    rw [encodeFixed, encodeFixed, hlast, ih hrest]

theorem encodeFixed_inj {width m n : Nat} :
    encodeFixed width m = encodeFixed width n ↔ m % Nat.pow 36 width = n % Nat.pow 36 width := by
  refine ⟨fun h => ?_, encodeFixed_congr⟩
  have hread := decode?_encodeFixed width m
  rw [h, decode?_encodeFixed] at hread
  exact (Option.some.inj hread).symm

theorem mem_concat_digit {cs : List Char} {n : Nat} {c : Char}
    (hc : c ∈ cs ++ [digit (n % 36)]) : c ∈ cs ∨ ∃ d < 36, digit d = c := by
  rcases List.mem_append.mp hc with hc | hc
  · exact .inl hc
  · exact .inr ⟨n % 36, Nat.mod_lt _ (by decide), (List.mem_singleton.mp hc).symm⟩

theorem mem_encode {n : Nat} {c : Char} (hc : c ∈ encode n) : ∃ d < 36, digit d = c := by
  induction n using encode.induct with
  | case1 n hlt =>
    rw [encode, if_pos hlt] at hc
    exact ⟨n, hlt, (List.mem_singleton.mp hc).symm⟩
  | case2 n hge ih =>
    rw [encode, if_neg hge] at hc
    exact (mem_concat_digit hc).elim ih id

theorem mem_encodeFixed {width n : Nat} {c : Char} (hc : c ∈ encodeFixed width n) :
    ∃ d < 36, digit d = c := by
  induction width generalizing n with
  | zero => exact absurd hc List.not_mem_nil
  | succ width ih =>
    rw [encodeFixed] at hc
    exact (mem_concat_digit hc).elim ih id

end Text.Base36

namespace SessionId

open Text.Base36

def name (moment : Nat) (sample : UInt64) : String :=
  "session-" ++ String.ofList (encode moment) ++ "-" ++
    String.ofList (encodeFixed suffixWidth sample.toNat)

theorem toList_name (moment : Nat) (sample : UInt64) : (name moment sample).toList =
    "session-".toList ++ encode moment ++ '-' :: encodeFixed suffixWidth sample.toNat := by
  simp [name]

theorem generate_eq {now : Int} (hnow : 0 ≤ now) (sample : UInt64) :
    generate now sample = .ok (name now.toNat sample) := by
  rw [generate, if_neg (Int.not_lt.mpr hnow), ← toList_name, String.ofList_toList]

theorem name_inj {moment moment' : Nat} {sample sample' : UInt64} :
    name moment sample = name moment' sample' ↔
      moment = moment' ∧
        sample.toNat % Nat.pow 36 suffixWidth = sample'.toNat % Nat.pow 36 suffixWidth := by
  rw [← String.toList_inj, toList_name, toList_name, ← encodeFixed_inj]
  constructor
  · intro h
    obtain ⟨hfront, htail⟩ := List.append_inj' h (by simp [length_encodeFixed])
    exact ⟨encode_inj (List.append_cancel_left hfront), (List.cons.inj htail).2⟩
  · rintro ⟨rfl, htail⟩
    rw [htail]

theorem isIdentifierChar_digit : ∀ d < 36, isIdentifierChar (digit d) = true := by
  decide

theorem all_isIdentifierChar {cs : List Char} (h : ∀ c ∈ cs, ∃ d < 36, digit d = c) :
    cs.all isIdentifierChar = true := by
  refine List.all_eq_true.mpr fun c hc => ?_
  obtain ⟨d, hd, rfl⟩ := h c hc
  exact isIdentifierChar_digit d hd

theorem checkIdentifier_name (moment : Nat) (sample : UInt64) :
    checkIdentifier (name moment sample) = .ok () := by
  have hempty : (name moment sample).isEmpty = false := by
    rw [String.isEmpty_eq_false_iff]
    intro h
    have hlist := toList_name moment sample
    rw [h] at hlist
    exact absurd (List.append_eq_nil_iff.mp hlist.symm).2 (List.cons_ne_nil _ _)
  have hchars : (name moment sample).toList.all isIdentifierChar = true := by
    rw [toList_name, List.all_append, List.all_append, List.all_cons,
      all_isIdentifierChar fun _ => mem_encode, all_isIdentifierChar fun _ => mem_encodeFixed]
    decide
  rw [checkIdentifier_eq_ok_iff, isIdentifier, hempty, hchars]
  rfl

/-- The name of a session tells the moment, and of the sample as much as eight digits hold. It is
well formed, and two are the same just if they tell the same. -/
theorem generate_reads_back (now : Int) (sample : UInt64) (hnow : 0 ≤ now) :
    (∃ time tail, generate now sample =
        .ok ("session-" ++ String.ofList time ++ "-" ++ String.ofList tail) ∧
      Numeral time now.toNat ∧ tail.length = 8 ∧
      decode? tail = some (sample.toNat % Nat.pow 36 8)) ∧
    (∀ id, generate now sample = .ok id → checkIdentifier id = .ok ()) ∧
    ∀ now' sample', 0 ≤ now' → (generate now sample = generate now' sample' ↔
      now = now' ∧ sample.toNat % Nat.pow 36 8 = sample'.toNat % Nat.pow 36 8) := by
  refine ⟨⟨encode now.toNat, encodeFixed suffixWidth sample.toNat, generate_eq hnow sample,
    encode_numeral _, length_encodeFixed _ _, decode?_encodeFixed _ _⟩, fun id hid => ?_,
    fun now' sample' hnow' => ?_⟩
  · rw [generate_eq hnow] at hid
    rw [← Except.ok.inj hid, checkIdentifier_name]
  · rw [generate_eq hnow, generate_eq hnow', Except.ok.injEq, name_inj, suffixWidth]
    exact and_congr_left fun _ => ⟨fun h => by omega, fun h => h ▸ rfl⟩

/-- Samples that differ by the number of all suffixes give the same name. -/
theorem generate_reads_back_wrapped :
    (0 : Int) ≤ 1700000000 ∧
    SessionId.generate 1700000000 7 = SessionId.generate 1700000000 2821109907463 ∧
    SessionId.generate 1700000000 7 ≠ SessionId.generate 1700000001 7 ∧
    ∀ id, SessionId.generate 1700000000 7 = .ok id → checkIdentifier id = .ok () := by
  have hnow : (0 : Int) ≤ 1700000000 := by decide
  obtain ⟨-, hvalid, hsame⟩ := generate_reads_back 1700000000 7 hnow
  refine ⟨hnow, (hsame _ _ hnow).mpr ⟨rfl, by decide⟩, fun h => ?_, hvalid⟩
  have hmoments := ((hsame _ _ (by decide)).mp h).1
  exact absurd hmoments (by decide)

end SessionId

end FlowEngine
