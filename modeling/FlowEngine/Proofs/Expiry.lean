import FlowEngine.Proofs.Interpreter

/-! # When a session has rested too long

Moments and spans are words of 64 bits. The span that a flow allows is counted in minutes without
sign; as seconds, as a span with sign and as the end of the rest it is held at the greatest word
when there is no room for it. A moment is a word too, so that none comes after an end that was held
there: the answer is that of exact arithmetic.
-/
namespace FlowEngine

namespace Word

/-- The product, held at the greatest word without sign. -/
def times (a b : UInt64) : UInt64 :=
  if a.toNat * b.toNat < UInt64.size then a * b else UInt64.ofNat (UInt64.size - 1)

def signed (a : UInt64) : Int64 :=
  if a.toNat ≤ Int64.maxValue.toInt then a.toInt64 else Int64.maxValue

def plus (a b : Int64) : Int64 :=
  if Int64.maxValue.toInt < a.toInt + b.toInt then Int64.maxValue
  else if a.toInt + b.toInt < Int64.minValue.toInt then Int64.minValue
  else a + b

/-- The last moment at which a session has not yet rested too long. -/
def restEnd (updated : Int64) (minutes : UInt64) : Int64 :=
  plus updated (signed (times minutes 60))

theorem toNat_times (a b : UInt64) :
    (times a b).toNat = min (UInt64.size - 1) (a.toNat * b.toNat) := by
  rw [times]
  split
  · next hroom =>
    rw [UInt64.toNat_mul, Nat.mod_eq_of_lt hroom]
    omega
  · next hfull =>
    rw [Nat.min_eq_left (by omega)]
    rfl

theorem toInt_maxValue : Int64.maxValue.toInt = maxTime := rfl

theorem toInt_minValue : Int64.minValue.toInt = minTime := rfl

theorem toInt_signed (a : UInt64) : (signed a).toInt = min maxTime a.toNat := by
  rw [signed, toInt_maxValue]
  split
  · next hroom =>
    have hword : a.toInt64 = Int64.ofNat a.toNat := by
      rw [← UInt64.toInt64_ofNat', UInt64.ofNat_toNat]
    have hlt : a.toNat < 9223372036854775808 := by
      rw [maxTime] at hroom
      omega
    rw [hword, Int64.toInt_ofNat_of_lt hlt, Int.min_eq_right hroom]
  · next hfull => rw [toInt_maxValue, Int.min_eq_left (by omega)]

theorem toInt_plus (a b : Int64) : (plus a b).toInt = addTime a.toInt b.toInt := by
  rw [plus, addTime, toInt_maxValue, toInt_minValue]
  split
  · next habove =>
    rw [toInt_maxValue, Int.min_eq_left (by omega)]
    rfl
  · next habove =>
    rw [Int.min_eq_right (by omega)]
    split
    · next hbelow => rw [toInt_minValue, Int.max_eq_left (by omega)]
    · next hbelow =>
      rw [Int.max_eq_right (by omega), Int64.toInt_add]
      rw [maxTime] at habove
      rw [minTime] at hbelow
      exact Int.bmod_eq_of_le (by omega) (by omega)

end Word

theorem Flow.ttlSeconds_eq_word (f : Flow) :
    f.ttlSeconds = (Word.signed (Word.times f.ttlInMinutes 60)).toInt := by
  rw [ttlSeconds, Word.toInt_signed, Word.toNat_times]
  simp only [maxTime, UInt64.size, show (60 : UInt64).toNat = 60 from rfl]
  omega

namespace Session

variable (s : Session)

theorem lastUpdatedAt_of_nil (hnodes : s.graph.nodes = []) : s.lastUpdatedAt = s.createdAt := by
  rw [lastUpdatedAt, hnodes]
  rfl

theorem lastUpdatedAt_isGreatest (hnodes : s.graph.nodes ≠ []) :
    (∃ x ∈ s.graph.nodes, x.record.lastUpdatedAt = s.lastUpdatedAt) ∧
      ∀ x ∈ s.graph.nodes, x.record.lastUpdatedAt ≤ s.lastUpdatedAt := by
  cases hmax : (s.graph.nodes.map fun x => x.record.lastUpdatedAt).max? with
  | none =>
    rw [List.max?_eq_none_iff, List.map_eq_nil_iff] at hmax
    exact absurd hmax hnodes
  | some t =>
    obtain ⟨hmem, hle⟩ := List.max?_eq_some_iff.mp hmax
    rw [lastUpdatedAt, hmax, Option.getD_some]
    exact ⟨List.mem_map.mp hmem, fun x hx => hle _ (List.mem_map_of_mem hx)⟩

theorem isStale_eq_word {updated : Int64} (hupdated : updated.toInt = s.lastUpdatedAt)
    (now : Int64) :
    s.isStale now.toInt = decide (Word.restEnd updated s.flow.ttlInMinutes < now) := by
  rw [isStale, ← hupdated, Flow.ttlSeconds_eq_word, ← Word.toInt_plus]
  exact decide_eq_decide.mpr Int64.lt_iff_toInt_lt.symm

theorem isStale_iff (hlast : 0 ≤ s.lastUpdatedAt) {now : Int} (hnow : now ≤ maxTime) :
    s.isStale now = true ↔ s.lastUpdatedAt + 60 * s.flow.ttlInMinutes.toNat < now := by
  rw [isStale, decide_eq_true_iff, addTime, Flow.ttlSeconds]
  simp only [maxTime, minTime] at hnow ⊢
  omega

theorem isStale_mono {now later : Int} (hle : now ≤ later) (h : s.isStale now = true) :
    s.isStale later = true :=
  decide_eq_true (Int.lt_of_lt_of_le (of_decide_eq_true h) hle)

/-- A session has rested too long once the time that its flow allows is over, counted exactly from
the last change of a step, or from the creation if there are no steps. So it is told by words that
are held at their ends; and a session that has rested too long has done so at any later moment. -/
theorem stale_iff_overdue (now : Int64) (hlast : 0 ≤ s.lastUpdatedAt) :
    (s.isStale now.toInt = true ↔
      s.lastUpdatedAt + 60 * s.flow.ttlInMinutes.toNat < now.toInt) ∧
    (s.graph.nodes = [] → s.lastUpdatedAt = s.createdAt) ∧
    (s.graph.nodes ≠ [] → (∃ x ∈ s.graph.nodes, x.record.lastUpdatedAt = s.lastUpdatedAt) ∧
      ∀ x ∈ s.graph.nodes, x.record.lastUpdatedAt ≤ s.lastUpdatedAt) ∧
    (∀ later : Int64, now ≤ later → s.isStale now.toInt = true →
      s.isStale later.toInt = true) ∧
    ∀ updated : Int64, updated.toInt = s.lastUpdatedAt →
      s.isStale now.toInt = decide (Word.restEnd updated s.flow.ttlInMinutes < now) := by
  have hnow : now.toInt ≤ maxTime := Int.le_of_lt_add_one now.toInt_lt
  exact ⟨s.isStale_iff hlast hnow, s.lastUpdatedAt_of_nil, s.lastUpdatedAt_isGreatest,
    fun later hle => s.isStale_mono (Int64.le_iff_toInt_le.mp hle),
    fun updated hupdated => s.isStale_eq_word hupdated now⟩

end Session

namespace Sample

/-- A letter that may rest for nearly as long as there are moments. -/
def patient (createdAt : Int) : Session :=
  .bare "letter-1" "acme" { flow with ttlInMinutes := 153722867280912930 } createdAt
    ⟨[⟨"letter-1", step draft [], 0, [], .fresh createdAt⟩]⟩

end Sample

/-- At the last moment of all, a patient letter made at 6 has rested too long by a second, and one
made at 7 has not. -/
theorem stale_iff_overdue_patient :
    (0 ≤ (Sample.patient 6).lastUpdatedAt ∧
      (Sample.patient 6).isStale Int64.maxValue.toInt = true) ∧
    0 ≤ (Sample.patient 7).lastUpdatedAt ∧
      ¬ (Sample.patient 7).isStale Int64.maxValue.toInt = true := by
  have h6 : 0 ≤ (Sample.patient 6).lastUpdatedAt := by decide
  have h7 : 0 ≤ (Sample.patient 7).lastUpdatedAt := by decide
  refine ⟨⟨h6, ?_⟩, h7, ?_⟩
  · rw [((Sample.patient 6).stale_iff_overdue Int64.maxValue h6).1]
    decide
  · rw [((Sample.patient 7).stale_iff_overdue Int64.maxValue h7).1]
    decide

end FlowEngine
