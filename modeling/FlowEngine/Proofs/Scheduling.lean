import FlowEngine.Host.Pool
import Mathlib.Data.List.Nodup

/-! # What the parts of a pool do

The scheduler hands out waiting items, of each key one at a time and the earliest first. The other
functions of a pool are described by what they leave alone and what they change.
-/
namespace FlowEngine

namespace Scheduler

variable {K V : Type} [DecidableEq K] {limit : Nat} {active : List K}
  {items taken left : List (K × V)}

/-- Some of the items are taken, each with a key of its own that is not active, and of each key the
first ones. -/
structure Selects (limit : Nat) (active : List K) (items taken left : List (K × V)) : Prop where
  bounded : taken.length ≤ limit
  inactive : ∀ item ∈ taken, item.1 ∉ active
  distinct : (taken.map Prod.fst).Nodup
  perm : items.Perm (taken ++ left)
  ordered : ∀ key, (items.filter fun item => item.1 = key) =
    (taken.filter fun item => item.1 = key) ++ left.filter fun item => item.1 = key

theorem Selects.nil (limit : Nat) (active : List K) :
    Selects limit active ([] : List (K × V)) [] [] :=
  ⟨Nat.zero_le _, nofun, List.nodup_nil, .refl _, fun _ => rfl⟩

theorem Selects.take {item : K × V} (h : Selects (limit - 1) (item.1 :: active) items taken left)
    (hlimit : 0 < limit) (hitem : item.1 ∉ active) :
    Selects limit active (item :: items) (item :: taken) left := by
  obtain ⟨bounded, inactive, distinct, perm, ordered⟩ := h
  constructor
  · simp only [List.length_cons]
    omega
  · intro other hm
    rcases List.mem_cons.mp hm with rfl | hm
    · exact hitem
    · exact fun ha => inactive other hm (List.mem_cons_of_mem _ ha)
  · rw [List.map_cons, List.nodup_cons]
    refine ⟨fun hm => ?_, distinct⟩
    obtain ⟨other, hother, heq⟩ := List.mem_map.mp hm
    exact inactive other hother (heq ▸ List.mem_cons_self)
  · exact perm.cons item
  · intro key
    by_cases hkey : item.1 = key <;> simp [hkey, ordered]

theorem Selects.leave {item : K × V} (h : Selects limit active items taken left)
    (hitem : ¬ (0 < limit ∧ item.1 ∉ active)) :
    Selects limit active (item :: items) taken (item :: left) := by
  obtain ⟨bounded, inactive, distinct, perm, ordered⟩ := h
  refine ⟨bounded, inactive, distinct, (perm.cons item).trans List.perm_middle.symm, ?_⟩
  intro key
  by_cases hkey : item.1 = key
  · have hnone : (taken.filter fun other => other.1 = key) = [] := by
      rw [List.filter_eq_nil_iff]
      intro other hm heq
      have hother : other.1 = item.1 := (of_decide_eq_true heq).trans hkey.symm
      have hpos : 0 < limit := Nat.lt_of_lt_of_le (List.length_pos_of_mem hm) bounded
      exact hitem ⟨hpos, hother ▸ inactive other hm⟩
    simp [hkey, ordered, hnone]
  · simp [hkey, ordered]

theorem select_selects (limit : Nat) (active : List K) (items : List (K × V)) :
    Selects limit active items (select limit active items).1 (select limit active items).2 := by
  induction items generalizing limit active with
  | nil => exact .nil limit active
  | cons item rest ih =>
    rw [select]
    split
    · next hitem => exact (ih _ _).take hitem.1 hitem.2
    · next hitem => exact (ih _ _).leave hitem

theorem complete_active {s : Scheduler K V} (hs : s.active.Nodup) (key : K) :
    (s.complete key).active = s.active.erase key := by
  rw [hs.erase_eq_filter]
  refine List.filter_congr fun k _ => ?_
  by_cases hk : k = key <;> simp [hk]

end Scheduler

namespace PoolMessage

def job? : PoolMessage → Option Job
  | submit job => some job
  | finished _ | wake => none

def completion? : PoolMessage → Option Completion
  | finished c => some c
  | submit _ | wake => none

end PoolMessage

namespace Pool

variable (p : Pool) (c : Completion)

section Forward

@[simp] theorem forward_width : (p.forward c).1.width = p.width := by
  rw [forward]
  split <;> rfl

@[simp] theorem forward_inbox : (p.forward c).1.inbox = p.inbox := by
  rw [forward]
  split <;> rfl

@[simp] theorem forward_scheduler : (p.forward c).1.scheduler = p.scheduler := by
  rw [forward]
  split <;> rfl

@[simp] theorem forward_running : (p.forward c).1.running = p.running := by
  rw [forward]
  split <;> rfl

@[simp] theorem forward_inFlight : (p.forward c).1.inFlight = p.inFlight := by
  rw [forward]
  split <;> rfl

@[simp] theorem forward_status : (p.forward c).1.status = p.status := by
  rw [forward]
  split <;> rfl

end Forward

def offered (p : Pool) : List Job := p.inbox.filterMap PoolMessage.job?

def finished (p : Pool) : List Completion := p.inbox.filterMap PoolMessage.completion?

@[simp] theorem forward_offered : (p.forward c).1.offered = p.offered := by
  simp only [offered, forward_inbox]

@[simp] theorem forward_finished : (p.forward c).1.finished = p.finished := by
  simp only [finished, forward_inbox]

variable {p c} {q : Pool} {m : PoolMessage}

section Inbox

variable {job : Job} {rest : List PoolMessage}

theorem finished_receive (hi : p.inbox = .submit job :: rest) :
    ({ p with inbox := rest }.handle (.submit job)).1.finished = p.finished := by
  rw [finished, finished, hi]
  rfl

theorem finished_woken (hi : p.inbox = .wake :: rest) :
    ({ p with inbox := rest }.handle .wake).1.finished = p.finished := by
  rw [finished, finished, hi]
  rfl

theorem finished_hear (hi : p.inbox = .finished c :: rest) :
    p.finished = c :: ({ p with inbox := rest }.handle (.finished c)).1.finished := by
  rw [handle, forward_finished, finished, finished, hi]
  rfl

theorem finished_send (h : m.completion? = none) :
    { p with inbox := p.inbox ++ [m] }.finished = p.finished := by
  rw [finished, List.filterMap_append, List.filterMap_cons, h]
  exact List.append_nil _

end Inbox

theorem send_eq_ok (h : p.send m = .ok q) :
    p.status = .serving ∧ q = { p with inbox := p.inbox ++ [m] } := by
  rw [send] at h
  split at h
  · next hs =>
    cases h
    exact ⟨hs, rfl⟩
  · cases h

theorem handle_finished (p : Pool) (c : Completion) : (p.handle (.finished c)).1 =
    ({ p with
      inFlight := p.inFlight - 1
      scheduler := p.scheduler.complete c.job.key }.forward c).1 := rfl

theorem finish_eq (p : Pool) (c : Completion) : p.finish c =
    { p with
      running := p.running.erase c.job
      inbox := if p.status = .serving then p.inbox ++ [.finished c] else p.inbox } := by
  by_cases hs : p.status = .serving <;> simp [finish, send, hs]

theorem read_eq_some (h : p.read = (some c, q)) :
    p.completions = c :: q.completions ∧ q = { p with completions := q.completions } := by
  rw [read] at h
  split at h
  · cases h
  · next hc =>
    cases h
    exact ⟨hc, rfl⟩

theorem start_ok {spawn : Job → Except String Unit} {item : String × Job}
    (h : spawn item.2 = .ok ()) : (p.start spawn item).1 =
      { p with inFlight := p.inFlight + 1, running := p.running ++ [item.2] } := by
  simp [start, h]

theorem start_error {spawn : Job → Except String Unit} {item : String × Job} {reason : String}
    (h : spawn item.2 = .error reason) : (p.start spawn item).1 =
      ({ p with scheduler := p.scheduler.complete item.1 }.forward
        ⟨item.2, .error (.spawn (workerName item.1) reason)⟩).1 := by
  simp [start, h]

theorem take_selects (p : Pool) : Scheduler.Selects (p.width - p.inFlight) p.scheduler.active
    p.scheduler.pending p.take.1 p.take.2.scheduler.pending :=
  Scheduler.select_selects _ _ _

theorem take_active (p : Pool) :
    p.take.2.scheduler.active = p.scheduler.active ++ p.take.1.map Prod.fst := rfl

end Pool

end FlowEngine
