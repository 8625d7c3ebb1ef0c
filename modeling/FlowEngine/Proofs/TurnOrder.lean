import FlowEngine.Proofs.Outline
import Mathlib.Data.List.Sort

/-! # The order of turns

In a run the steps have their turns by their declared order, and by identifier where that is the
same. The program, which does without Mathlib, has its own insertion sort; it is the one of the
library, and what the steps have recorded plays no part in it.
-/
namespace FlowEngine

namespace StepExecution

theorem le_iff {a b : StepExecution} : a.le b = true ↔
    a.step.order.toNat < b.step.order.toNat ∨
      a.step.order.toNat = b.step.order.toNat ∧ a.id ≤ b.id := by
  rw [le, Bool.or_eq_true, Bool.and_eq_true, decide_eq_true_iff, beq_iff_eq, textLe,
    Bool.not_eq_true', decide_eq_false_iff_not, String.not_lt, UInt32.lt_iff_toNat_lt,
    UInt32.toNat_inj]

theorem le_total (a b : StepExecution) : a.le b = true ∨ b.le a = true := by
  rw [le_iff, le_iff]
  rcases Nat.lt_trichotomy a.step.order.toNat b.step.order.toNat with h | h | h
  · exact .inl (.inl h)
  · exact (String.le_total a.id b.id).imp (fun hle => .inr ⟨h, hle⟩) fun hle => .inr ⟨h.symm, hle⟩
  · exact .inr (.inl h)

theorem le_trans {a b c : StepExecution} (h : a.le b = true) (h' : b.le c = true) :
    a.le c = true := by
  rw [le_iff] at h h' ⊢
  rcases h with h | ⟨h, hid⟩
  · left
    omega
  · rcases h' with h' | ⟨h', hid'⟩
    · left
      omega
    · right
      exact ⟨h.trans h', String.le_trans hid hid'⟩

theorem le_antisymm {a b : StepExecution} (hs : a.session = b.session) (h : a.le b = true)
    (h' : b.le a = true) : a.step.id = b.step.id := by
  rw [le_iff] at h h'
  have hid : a.id = b.id := by
    rcases h with h | ⟨heq, hid⟩
    · rcases h' with h' | ⟨heq, -⟩ <;> omega
    · rcases h' with h' | ⟨-, hid'⟩
      · omega
      · exact String.le_antisymm hid hid'
  have htext : a.session ++ "/" ++ a.step.id.text = a.session ++ "/" ++ b.step.id.text := by
    have hb : b.id = a.session ++ "/" ++ b.step.id.text := by rw [hs]; rfl
    exact hid.trans hb
  exact Identifier.ext_text ((String.append_right_inj _).mp htext)

end StepExecution

namespace StepGraph

/-- The relation by which steps are sorted. -/
abbrev Before (a b : StepExecution) : Prop := a.le b = true

instance : Std.Total Before := ⟨StepExecution.le_total⟩

instance : IsTrans StepExecution Before := ⟨fun _ _ _ => StepExecution.le_trans⟩

theorem insertInOrder_eq (x : StepExecution) (nodes : List StepExecution) :
    insertInOrder x nodes = nodes.orderedInsert Before x := by
  induction nodes with
  | nil => rfl
  | cons y rest ih => rw [insertInOrder, List.orderedInsert_cons, ih]

theorem inOrder_eq (g : StepGraph) : g.inOrder = g.nodes.insertionSort Before := by
  rw [inOrder, List.insertionSort, funext₂ insertInOrder_eq]

theorem inOrder_perm (g : StepGraph) : g.inOrder.Perm g.nodes := by
  rw [inOrder_eq]
  exact List.perm_insertionSort Before g.nodes

theorem inOrder_sorted (g : StepGraph) : g.inOrder.Pairwise fun a b => a.le b = true := by
  rw [inOrder_eq]
  exact List.pairwise_insertionSort Before g.nodes

end StepGraph

/-- An outline comes before another one as the steps do, whatever their records. -/
abbrev StepOutline.Before (a b : StepOutline) : Prop :=
  StepGraph.Before ⟨a.session, a.step, a.index, a.required, .fresh 0⟩
    ⟨b.session, b.step, b.index, b.required, .fresh 0⟩

theorem StepGraph.inOrder_outlines (g : StepGraph) :
    g.inOrder.map StepExecution.outline =
      (g.nodes.map StepExecution.outline).insertionSort StepOutline.Before := by
  rw [inOrder_eq]
  exact List.map_insertionSort Before StepOutline.Before StepExecution.outline g.nodes
    fun _ _ _ _ => Iff.rfl

end FlowEngine
