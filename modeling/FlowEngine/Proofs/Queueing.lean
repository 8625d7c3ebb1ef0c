import FlowEngine.Proofs.Scheduling

/-! # What becomes of the items of a scheduler

A desk is a scheduler with its books: what has come in, what has been handed out, what of that is
not completed yet, and what has been cleared away. `Desk.Orderly` says how the books agree with the
scheduler; every deed that may be done at a desk keeps it.
-/
namespace FlowEngine

namespace Scheduler

/-- A scheduler, and all that has become of its items. -/
structure Desk (K V : Type) where
  scheduler : Scheduler K V
  enqueued : List (K × V)
  dequeued : List (K × V)
  drained : List (K × V)
  /-- The items that were dequeued and are not completed yet. -/
  outstanding : List (K × V)
  deriving DecidableEq, Repr

inductive Deed (K V : Type) where
  | enqueue (key : K) (value : V)
  | dequeue (limit : Nat)
  | complete (key : K)
  | drain
  deriving DecidableEq, Repr

namespace Desk

variable {K V : Type} [DecidableEq K] {d : Desk K V}

def opening : Desk K V := ⟨.empty, [], [], [], []⟩

/-- A key is completed with the item of it that is outstanding; where there is none, nothing
changes. -/
def next (d : Desk K V) : Deed K V → Desk K V
  | .enqueue key value =>
    { d with
      scheduler := d.scheduler.enqueue key value
      enqueued := d.enqueued ++ [(key, value)] }
  | .dequeue limit =>
    { d with
      scheduler := (d.scheduler.dequeue limit).2
      dequeued := d.dequeued ++ (d.scheduler.dequeue limit).1
      outstanding := d.outstanding ++ (d.scheduler.dequeue limit).1 }
  | .complete key =>
    { d with
      scheduler := d.scheduler.complete key
      outstanding := d.outstanding.eraseP fun item => item.1 = key }
  | .drain =>
    { d with
      scheduler := d.scheduler.drain.2
      drained := d.drained ++ d.scheduler.drain.1 }

def perform (d : Desk K V) (deeds : List (Deed K V)) : Desk K V := deeds.foldl next d

/-- The books of a desk agree with its scheduler. -/
structure Orderly (d : Desk K V) : Prop where
  /-- No item is lost or there twice. -/
  accounted : d.enqueued.Perm (d.scheduler.pending ++ d.dequeued ++ d.drained)
  /-- What waits is in the order in which it came. -/
  queued : d.scheduler.pending.Sublist d.enqueued
  /-- Of one key, what was handed out and then what waits are in the order in which they came. -/
  ordered : ∀ key, ((d.dequeued ++ d.scheduler.pending).filter fun item => item.1 = key).Sublist
    (d.enqueued.filter fun item => item.1 = key)
  held : d.outstanding.Sublist d.dequeued
  /-- Of one key, at most one item is outstanding. -/
  single : (d.outstanding.map Prod.fst).Nodup
  active : d.scheduler.active.Perm (d.outstanding.map Prod.fst)

end Desk

variable {K V : Type} [DecidableEq K]

theorem select_left_sublist (limit : Nat) (active : List K) (items : List (K × V)) :
    (select limit active items).2.Sublist items := by
  induction items generalizing limit active with
  | nil => exact List.Sublist.refl _
  | cons item rest ih =>
    rw [select]
    split
    · exact (ih _ _).cons item
    · exact (ih _ _).cons_cons item

theorem map_fst_eraseP (key : K) (items : List (K × V)) :
    (items.eraseP fun item => item.1 = key).map Prod.fst = (items.map Prod.fst).erase key := by
  induction items with
  | nil => rfl
  | cons item rest ih =>
    by_cases hkey : item.1 = key
    · rw [List.eraseP_cons_of_pos (by simpa using hkey), List.map_cons, hkey, List.erase_cons_head]
    · rw [List.eraseP_cons_of_neg (by simpa using hkey), List.map_cons, List.map_cons, ih,
        List.erase_cons_tail (by simpa using hkey)]

namespace Desk

variable {d : Desk K V}

namespace Orderly

theorem opening : (opening : Desk K V).Orderly := by
  constructor
  · exact .refl _
  · exact List.Sublist.refl _
  · intro key
    exact List.Sublist.refl _
  · exact List.Sublist.refl _
  · exact List.nodup_nil
  · exact .refl _

theorem enqueue (h : d.Orderly) (key : K) (value : V) :
    (d.next (.enqueue key value)).Orderly := by
  obtain ⟨accounted, queued, ordered, held, single, active⟩ := h
  constructor
  · have hperm : (d.enqueued ++ [(key, value)]).Perm
        ((key, value) :: (d.scheduler.pending ++ d.dequeued ++ d.drained)) :=
      (List.perm_append_singleton _ _).trans (accounted.cons _)
    refine hperm.trans ?_
    have hmiddle : ((key, value) :: (d.scheduler.pending ++ (d.dequeued ++ d.drained))).Perm
        (d.scheduler.pending ++ (key, value) :: (d.dequeued ++ d.drained)) :=
      List.perm_middle.symm
    simpa [next, Scheduler.enqueue] using hmiddle
  · exact queued.append_right [(key, value)]
  · intro other
    have hmore := (ordered other).append_right ([(key, value)].filter fun item => item.1 = other)
    rw [← List.filter_append, ← List.filter_append, List.append_assoc] at hmore
    exact hmore
  · exact held
  · exact single
  · exact active

theorem dequeue (h : d.Orderly) (limit : Nat) : (d.next (.dequeue limit)).Orderly := by
  obtain ⟨accounted, queued, ordered, held, single, active⟩ := h
  obtain ⟨-, inactive, distinct, perm, split⟩ :=
    select_selects limit d.scheduler.active d.scheduler.pending
  have hleft := select_left_sublist limit d.scheduler.active d.scheduler.pending
  generalize hselect : select limit d.scheduler.active d.scheduler.pending = selected at *
  obtain ⟨taken, left⟩ := selected
  have hdequeue : d.scheduler.dequeue limit =
      (taken, ⟨left, d.scheduler.active ++ taken.map Prod.fst⟩) := by
    rw [Scheduler.dequeue, hselect]
  simp only [next, hdequeue]
  constructor
  · refine accounted.trans (List.Perm.append_right _ ?_)
    have hswap := (perm.trans List.perm_append_comm).append_right d.dequeued
    rw [List.append_assoc] at hswap
    exact hswap.trans (List.perm_append_comm.append_left left)
  · exact hleft.trans queued
  · intro key
    have hsame : ((d.dequeued ++ taken ++ left).filter fun item => item.1 = key) =
        (d.dequeued ++ d.scheduler.pending).filter fun item => item.1 = key := by
      simp only [List.filter_append, split key, List.append_assoc]
    rw [hsame]
    exact ordered key
  · exact held.append_right taken
  · rw [List.map_append, List.nodup_append]
    refine ⟨single, distinct, ?_⟩
    intro key hkey other hother heq
    obtain ⟨item, hitem, rfl⟩ := List.mem_map.mp hother
    exact inactive item hitem (active.mem_iff.mpr (heq ▸ hkey))
  · rw [List.map_append]
    exact active.append_right _

theorem complete (h : d.Orderly) (key : K) : (d.next (.complete key)).Orderly := by
  obtain ⟨accounted, queued, ordered, held, single, active⟩ := h
  have hactive := complete_active (active.nodup_iff.mpr single) key
  constructor
  · exact accounted
  · exact queued
  · exact ordered
  · exact List.eraseP_sublist.trans held
  · rw [next, map_fst_eraseP]
    exact single.erase key
  · rw [next, hactive, map_fst_eraseP]
    exact active.erase key

theorem drain (h : d.Orderly) : (d.next .drain).Orderly := by
  obtain ⟨accounted, queued, ordered, held, single, active⟩ := h
  constructor
  · have hmoved : (d.scheduler.pending ++ (d.dequeued ++ d.drained)).Perm
        (d.dequeued ++ d.drained ++ d.scheduler.pending) := List.perm_append_comm
    rw [← List.append_assoc, List.append_assoc d.dequeued] at hmoved
    exact accounted.trans hmoved
  · exact List.nil_sublist _
  · intro key
    have hfewer : (d.dequeued ++ []).Sublist (d.dequeued ++ d.scheduler.pending) :=
      (List.nil_sublist _).append_left d.dequeued
    exact (hfewer.filter _).trans (ordered key)
  · exact held
  · exact single
  · exact active

theorem next (h : d.Orderly) (deed : Deed K V) : (d.next deed).Orderly := by
  cases deed with
  | enqueue key value => exact h.enqueue key value
  | dequeue limit => exact h.dequeue limit
  | complete key => exact h.complete key
  | drain => exact h.drain

theorem perform (h : d.Orderly) (deeds : List (Deed K V)) : (d.perform deeds).Orderly := by
  induction deeds generalizing d with
  | nil => exact h
  | cons deed rest ih => exact ih (h.next deed)

end Orderly

/-- At every time each item that came is in exactly one of the three places, what waits and what
was handed out of a key is in the order of arrival, no key has two items outstanding, and as many
keys are active as items are outstanding. -/
theorem perform_opening_orderly (deeds : List (Deed K V)) :
    (opening.perform deeds).Orderly ∧
      (opening.perform deeds).scheduler.active.length =
        (opening.perform deeds).outstanding.length := by
  have h : (opening.perform deeds).Orderly := Orderly.opening.perform deeds
  refine ⟨h, ?_⟩
  rw [h.active.length_eq, List.length_map]

example : ((opening : Desk Char Nat).perform [.enqueue 's' 1, .enqueue 's' 2, .enqueue 't' 3,
    .dequeue 4, .complete 't', .dequeue 4]).scheduler = ⟨[('s', 2)], ['s']⟩ := by decide

end Desk

end Scheduler

end FlowEngine
