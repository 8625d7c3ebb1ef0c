import FlowEngine.Host.Scheduler

/-! # Which waiting items are taken

An item leads when its key is not active and no item of the key waits before it. The one scan
through the queue, which makes keys active as it goes, takes the leading items in their order as far
as the limit allows, and keeps all others in their places. Positions tell equal items apart.
-/
namespace FlowEngine.Scheduler

section Places

variable {K V : Type} {active : List K} {item : K × V} {rest : List (K × V)}

/-- The item at a position leads: its key is not active, and no item before it has the key. -/
def Leads (active : List K) (items : List (K × V)) (e : (K × V) × Nat) : Prop :=
  e.1.1 ∉ active ∧ ∀ earlier ∈ items.take e.2, e.1.1 ≠ earlier.1

instance [DecidableEq K] (active : List K) (items : List (K × V)) (e : (K × V) × Nat) :
    Decidable (Leads active items e) :=
  inferInstanceAs (Decidable (_ ∧ _))

def others (chosen : List ((K × V) × Nat)) (items : List (K × V)) : List (K × V) :=
  (items.zipIdx.filter fun e => e.2 ∉ chosen.map Prod.snd).map Prod.fst

def behind (e : (K × V) × Nat) : (K × V) × Nat := (e.1, e.2 + 1)

theorem zipIdx_cons_behind (item : K × V) (rest : List (K × V)) :
    (item :: rest).zipIdx = (item, 0) :: rest.zipIdx.map behind := by
  rw [List.zipIdx_cons, Nat.zero_add, List.zipIdx_succ]
  rfl

theorem leads_behind (e : (K × V) × Nat) :
    Leads active (item :: rest) (behind e) ↔ Leads (item.1 :: active) rest e := by
  simp only [Leads, behind, List.take_succ_cons, List.mem_cons, not_or]
  constructor
  · rintro ⟨hfree, hearlier⟩
    exact ⟨⟨hearlier item (.inl rfl), hfree⟩, fun other hother => hearlier other (.inr hother)⟩
  · rintro ⟨⟨hitem, hfree⟩, hearlier⟩
    exact ⟨hfree, fun other hother => hother.elim (· ▸ hitem) (hearlier other)⟩

theorem leads_cons_active (hitem : item.1 ∈ active) (e : (K × V) × Nat) :
    Leads (item.1 :: active) rest e ↔ Leads active rest e := by
  simp only [Leads, List.mem_cons, not_or]
  refine and_congr_left fun _ => and_iff_right_of_imp fun hfree heq => ?_
  exact hfree (heq ▸ hitem)

theorem succ_mem_behind (n : Nat) (chosen : List ((K × V) × Nat)) :
    n + 1 ∈ (chosen.map behind).map Prod.snd ↔ n ∈ chosen.map Prod.snd := by
  simp [behind]

theorem others_cons_left (chosen : List ((K × V) × Nat)) :
    others (chosen.map behind) (item :: rest) = item :: others chosen rest := by
  have hfirst : 0 ∉ (chosen.map behind).map Prod.snd := by simp [behind]
  rw [others, zipIdx_cons_behind, List.filter_cons_of_pos (by simpa using hfirst), List.map_cons,
    List.filter_map, List.map_map, others]
  refine congrArg (item :: List.map Prod.fst ·) (List.filter_congr fun e _ => ?_)
  exact decide_eq_decide.mpr (not_congr (succ_mem_behind e.2 chosen))

theorem others_cons_chosen (chosen : List ((K × V) × Nat)) :
    others ((item, 0) :: chosen.map behind) (item :: rest) = others chosen rest := by
  rw [others, zipIdx_cons_behind, List.filter_cons_of_neg (by simp), List.filter_map, List.map_map,
    others]
  refine congrArg (List.map Prod.fst ·) (List.filter_congr fun e _ => ?_)
  refine decide_eq_decide.mpr (not_congr (.trans ?_ (succ_mem_behind e.2 chosen)))
  rw [List.map_cons, List.mem_cons]
  exact or_iff_right (Nat.succ_ne_zero e.2)

end Places

variable {K V : Type} [DecidableEq K] {active : List K} {item : K × V} {items rest : List (K × V)}

/-- The leading items with their positions. -/
def leaders (active : List K) (items : List (K × V)) : List ((K × V) × Nat) :=
  items.zipIdx.filter fun e => Leads active items e

theorem filter_leads_behind (active : List K) (item : K × V) (rest : List (K × V)) :
    ((rest.zipIdx.map behind).filter fun e => Leads active (item :: rest) e) =
      (leaders (item.1 :: active) rest).map behind := by
  rw [List.filter_map, leaders]
  exact congrArg _ (List.filter_congr fun e _ => decide_eq_decide.mpr (leads_behind e))

theorem leaders_cons_active (hitem : item.1 ∈ active) :
    leaders active (item :: rest) = (leaders active rest).map behind := by
  have hfirst : ¬ Leads active (item :: rest) (item, 0) := fun h => h.1 hitem
  rw [leaders, zipIdx_cons_behind, List.filter_cons_of_neg (by simpa using hfirst),
    filter_leads_behind, leaders, leaders]
  simp only [leads_cons_active hitem]

theorem leaders_cons_free (hitem : item.1 ∉ active) :
    leaders active (item :: rest) =
      (item, 0) :: (leaders (item.1 :: active) rest).map behind := by
  have hfirst : Leads active (item :: rest) (item, 0) := ⟨hitem, nofun⟩
  rw [leaders, zipIdx_cons_behind, List.filter_cons_of_pos (by simpa using hfirst),
    filter_leads_behind]

theorem select_eq (limit : Nat) (active : List K) (items : List (K × V)) :
    select limit active items =
      (((leaders active items).take limit).map Prod.fst,
        others ((leaders active items).take limit) items) := by
  induction items generalizing limit active with
  | nil => simp [select, leaders, others]
  | cons item rest ih =>
    rw [select]
    split
    · next hitem =>
      obtain ⟨hlimit, hfree⟩ := hitem
      obtain ⟨n, rfl⟩ : ∃ n, limit = n + 1 := ⟨limit - 1, by omega⟩
      rw [ih, leaders_cons_free hfree, List.take_succ_cons, ← List.map_take, others_cons_chosen]
      simp [behind, Function.comp_def]
    · next hitem =>
      have hleft : (leaders active (item :: rest)).take limit =
          ((leaders active rest).take limit).map behind := by
        rcases Nat.eq_zero_or_pos limit with rfl | hlimit
        · rfl
        · have hactive : item.1 ∈ active := Decidable.byContradiction fun h => hitem ⟨hlimit, h⟩
          rw [leaders_cons_active hactive, List.map_take]
      rw [ih, hleft, others_cons_left]
      simp [behind, Function.comp_def]

theorem exists_leader (hitem : item ∈ items) (hfree : item.1 ∉ active) :
    ∃ e ∈ leaders active items, e.1.1 = item.1 := by
  induction items generalizing active with
  | nil => exact absurd hitem List.not_mem_nil
  | cons first rest ih =>
    rcases List.mem_cons.mp hitem with rfl | hrest
    · rw [leaders_cons_free hfree]
      exact ⟨(item, 0), List.mem_cons_self, rfl⟩
    · by_cases hfirst : first.1 ∈ active
      · obtain ⟨e, he, hkey⟩ := ih hrest hfree
        rw [leaders_cons_active hfirst]
        exact ⟨behind e, List.mem_map_of_mem he, hkey⟩
      · rw [leaders_cons_free hfirst]
        by_cases hkey : item.1 = first.1
        · exact ⟨(first, 0), List.mem_cons_self, hkey.symm⟩
        · have hfree' : item.1 ∉ first.1 :: active := fun h =>
            (List.mem_cons.mp h).elim hkey hfree
          obtain ⟨e, he, hkey⟩ := ih hrest hfree'
          exact ⟨behind e, List.mem_cons_of_mem _ (List.mem_map_of_mem he), hkey⟩

theorem dequeue_eq (s : Scheduler K V) (limit : Nat) :
    let chosen := (leaders s.active s.pending).take limit
    s.dequeue limit = (chosen.map Prod.fst,
      ⟨others chosen s.pending, s.active ++ chosen.map fun e => e.1.1⟩) := by
  simp only [dequeue, select_eq, List.map_map]
  rfl

/-- Of the items that lead, the first ones are taken, as many as the limit allows. The others stay
in their order, and the keys of those taken become active. A key that waits is left inactive only
when the limit is reached. -/
theorem dequeue_takes_leaders (s : Scheduler K V) (limit : Nat) :
    let firsts := leaders s.active s.pending
    let chosen := firsts.take (min limit firsts.length)
    (s.dequeue limit).1 = chosen.map Prod.fst ∧
    (s.dequeue limit).2.pending = others chosen s.pending ∧
    (s.dequeue limit).2.active = s.active ++ chosen.map (fun e => e.1.1) ∧
    ∀ item ∈ s.pending, item.1 ∉ (s.dequeue limit).2.active →
      (s.dequeue limit).1.length = limit := by
  intro firsts chosen
  have hchosen : chosen = firsts.take limit := by
    rw [show chosen = (firsts.take firsts.length).take limit from List.take_take.symm,
      List.take_length]
  rw [dequeue_eq, ← show chosen = (leaders s.active s.pending).take limit from hchosen]
  refine ⟨rfl, rfl, rfl, fun item hitem hleft => ?_⟩
  obtain ⟨hfree, hunchosen⟩ := not_or.mp (mt List.mem_append.mpr hleft)
  obtain ⟨e, he, hkey⟩ := exists_leader hitem hfree
  have hreached : limit ≤ firsts.length := by
    refine Nat.le_of_not_lt fun hlt => hunchosen ?_
    rw [hchosen, List.take_of_length_le (Nat.le_of_lt hlt)]
    exact List.mem_map.mpr ⟨e, he, hkey⟩
  rw [List.length_map, hchosen, List.length_take, Nat.min_eq_left hreached]

/-- Of two equal items the first one is taken, and the other stays. -/
example : (⟨[("a", 1), ("a", 1), ("b", 3)], []⟩ : Scheduler String Nat).dequeue 4 =
    ([("a", 1), ("b", 3)], ⟨[("a", 1)], ["a", "b"]⟩) := by
  decide

end FlowEngine.Scheduler
