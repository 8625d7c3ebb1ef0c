import FlowEngine.Table
import Mathlib.Data.List.Nodup

/-! # Tables in the order of their keys

What is found in a table does not depend on the order of its entries, as long as no two have the
same key. In order, a table is determined by what is found in it.
-/
namespace FlowEngine

namespace Table

section Distinct

variable {κ α : Type} {t : Table κ α} {key : κ} {v : α}

def Distinct (t : Table κ α) : Prop := (t.map Prod.fst).Nodup

theorem Distinct.reverse (h : t.Distinct) : Distinct t.reverse := by
  rw [Distinct, List.map_reverse, List.nodup_reverse]
  exact h

theorem Distinct.lookup [DecidableEq κ] (h : t.Distinct) :
    t.lookup key = some v ↔ (key, v) ∈ t := by
  refine ⟨mem_of_lookup, fun hmem => ?_⟩
  obtain ⟨before, after, rfl⟩ := List.append_of_mem hmem
  refine List.lookup_eq_some_iff.mpr ⟨before, after, rfl, fun e he => ?_⟩
  rw [Distinct, List.map_append, List.map_cons] at h
  have hne := (List.nodup_append.mp h).2.2 e.1 (List.mem_map_of_mem he) key List.mem_cons_self
  exact bne_iff_ne.mpr hne.symm

/-- Of several entries with one key, the last one stays. -/
theorem lookup_foldl_put [DecidableEq κ] [LT κ] [DecidableLT κ] (entries t : Table κ α) (key : κ) :
    (entries.foldl (fun all e => all.put e.1 e.2) t).lookup key =
      (entries.reverse.lookup key).or (t.lookup key) := by
  induction entries generalizing t with
  | nil => rfl
  | cons e rest ih =>
    rw [List.foldl_cons, ih, lookup_put, List.reverse_cons, List.lookup_append, Option.or_assoc,
      lookup_cons_if]
    split <;> rfl

end Distinct

variable {κ α : Type} [LE κ] [LT κ] [Std.LawfulOrderLT κ]

section Least

variable {t : Table κ α} {key : κ} (h : ∀ e ∈ t, key < e.1)
include h

theorem filter_ne_of_lt [DecidableEq κ] : (t.filter fun e => decide (e.1 ≠ key)) = t := by
  rw [List.filter_eq_self]
  intro e he
  exact decide_eq_true fun heq => Std.lt_irrefl (heq ▸ h e he)

theorem lookup_of_lt [DecidableEq κ] : t.lookup key = none := by
  rw [List.lookup_eq_none_iff]
  intro e he
  exact bne_iff_ne.mpr fun heq => Std.lt_irrefl (heq ▸ h e he)

end Least

/-- The keys increase. -/
def Sorted (t : Table κ α) : Prop := t.Pairwise fun a b => a.1 < b.1

namespace Sorted

variable {t t' : Table κ α} {key : κ} {v : α}

theorem distinct (h : t.Sorted) : t.Distinct := by
  refine List.pairwise_map.mpr (h.imp fun hlt heq => ?_)
  exact Std.lt_irrefl (heq ▸ hlt)

variable [Std.IsLinearOrder κ]

theorem le_getLast (h : t.Sorted) {e last : κ × α} (hlast : t.getLast? = some last)
    (he : e ∈ t) : e.1 ≤ last.1 := by
  obtain ⟨before, rfl⟩ := List.getLast?_eq_some_iff.mp hlast
  rcases List.mem_append.mp he with he | he
  · exact Std.le_of_lt ((List.pairwise_append.mp h).2.2 e he last List.mem_cons_self)
  · rw [List.mem_singleton.mp he]
    exact Std.le_refl _

variable [DecidableEq κ]

/-- Sorted tables in which the same is found are the same. -/
theorem ext (h : t.Sorted) (h' : t'.Sorted) (hl : ∀ key, t.lookup key = t'.lookup key) :
    t = t' := by
  have hperm : t.Perm t' := by
    refine (List.perm_ext_iff_of_nodup (List.Nodup.of_map _ h.distinct)
      (List.Nodup.of_map _ h'.distinct)).mpr ?_
    rintro ⟨key, v⟩
    rw [← h.distinct.lookup, ← h'.distinct.lookup, hl]
  refine hperm.eq_of_pairwise (fun a b _ _ hab hba => ?_) h h'
  exact absurd (Std.lt_trans hab hba) Std.lt_irrefl

variable [DecidableLT κ]

theorem put (h : t.Sorted) (key : κ) (v : α) : (t.put key v).Sorted := by
  induction t with
  | nil => exact List.pairwise_singleton _ _
  | cons e rest ih =>
    obtain ⟨hfirst, hrest⟩ := List.pairwise_cons.mp h
    rw [Table.put]
    split
    · next heq => exact List.pairwise_cons.mpr ⟨heq ▸ hfirst, hrest⟩
    · next hne =>
      split
      · next hlt =>
        refine List.pairwise_cons.mpr ⟨fun b hb => ?_, h⟩
        rcases List.mem_cons.mp hb with rfl | hb
        · exact hlt
        · exact Std.lt_trans hlt (hfirst b hb)
      · next hnot =>
        refine List.pairwise_cons.mpr ⟨fun b hb => ?_, ih hrest⟩
        rcases mem_put hb with rfl | hb
        · exact Std.lt_of_le_of_ne (Std.not_lt.mp hnot) (Ne.symm hne)
        · exact hfirst b hb

theorem put_self (h : t.Sorted) (hv : t.lookup key = some v) : t.put key v = t := by
  refine (h.put key v).ext h fun other => ?_
  rw [lookup_put]
  split
  · next heq => rw [heq, hv]
  · rfl

theorem foldl_put {entries : Table κ α} (h : t.Sorted) :
    Sorted (entries.foldl (fun all e => all.put e.1 e.2) t) := by
  induction entries generalizing t with
  | nil => exact h
  | cons e rest ih => exact ih (h.put e.1 e.2)

end Sorted

theorem put_comm [Std.IsLinearOrder κ] [DecidableEq κ] [DecidableLT κ] {a b : κ} (hne : a ≠ b)
    (u v : α) (t : Table κ α) : (t.put a u).put b v = (t.put b v).put a u := by
  induction t with
  | nil => grind [put]
  | cons e rest ih => grind [put]

end Table

end FlowEngine
