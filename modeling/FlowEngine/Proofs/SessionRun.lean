import FlowEngine.Proofs.StepRuns

/-! # Running a session runs each step once

The ledger of a run says of each step whether the run has yet to start it, or has started it once
and seen it done. Starting a step, with the steps that it requires, moves entries from one side to
the other; whatever goes wrong leaves no step that was started twice.
-/
namespace FlowEngine

def Event.begun? : Event → Option (Handle × Nat)
  | .change (.begin h i _) => some (h, i)
  | _ => none

def begins (h : Handle) (i : Nat) (own : List Moment) : Nat :=
  own.countP fun m => m.event.begun? == some (h, i)

def Engine.Supplies (e : Engine) (h : Handle) (j : Nat) : Prop :=
  ∃ r, e.record? h j = some r ∧ r.isDone = true ∧ r.output.isSome = true

def Sourced (t : SessionOutline) (e : Engine) (h : Handle) (i : Nat) : Prop :=
  ∀ x, t.steps[i]? = some x → ∀ source ∈ x.step.sources,
    ∃ j y, t.steps[j]? = some y ∧ y.step.id = source ∧ e.Supplies h j

/-- Whenever a step was started, the engine and the step were as required. -/
def EachBegun (h : Handle) (P : Engine → Nat → Prop) (own : List Moment) : Prop :=
  ∀ m ∈ own, ∀ i, m.event.begun? = some (h, i) → P m.engine i

def WellBegun (t : SessionOutline) (h : Handle) (own : List Moment) : Prop :=
  ∀ m ∈ own, ∀ i, m.event.begun? = some (h, i) → Sourced t m.engine h i

structure FinishedRun (e : Engine) (h : Handle) (s : Situation) : Prop where
  generation : (s.engine.session h).generation = (e.session h).generation + 1
  once : ∀ step ∈ (e.session h).flow.steps, ∃ i x r,
    (e.session h).outline.steps[i]? = some x ∧ x.step = step ∧ begins h i s.own = 1 ∧
      s.engine.record? h i = some r ∧ r.isDone = true ∧
        r.completedInRun = (s.engine.session h).generation
  ordered : WellBegun (e.session h).outline h s.own

section Begins

variable {h k : Handle} {i : Nat} {own own' : List Moment} {m : Moment}

theorem begins_cons_of_none (hm : m.event.begun? = none) : begins h i (m :: own) = begins h i own := by
  rw [begins, List.countP_cons_of_neg]
  · rfl
  · rw [hm]
    exact nofun

theorem begins_cons (hm : m.event.begun? = some (k, i)) (j : Nat) :
    begins k j (m :: own) = begins k j own + if j = i then 1 else 0 := by
  rw [begins, List.countP_cons, hm, begins]
  by_cases hj : j = i
  · simp [hj]
  · simp [hj, Ne.symm hj]

theorem begins_mono (hs : own <:+ own') : begins h i own ≤ begins h i own' :=
  hs.sublist.countP_le

variable {P : Engine → Nat → Prop}

theorem EachBegun.nil : EachBegun h P [] := fun _ hm => nomatch hm

theorem EachBegun.cons_of_none (hm : m.event.begun? = none) (hw : EachBegun h P own) :
    EachBegun h P (m :: own) := by
  intro m' hm' i hb
  rcases List.mem_cons.mp hm' with rfl | hm'
  · rw [hm] at hb
    cases hb
  · exact hw m' hm' i hb

theorem EachBegun.cons (hm : m.event.begun? = some (h, i)) (hs : P m.engine i)
    (hw : EachBegun h P own) : EachBegun h P (m :: own) := by
  intro m' hm' i' hb
  rcases List.mem_cons.mp hm' with rfl | hm'
  · rw [hm] at hb
    cases hb
    exact hs
  · exact hw m' hm' i' hb

variable {t : SessionOutline}

theorem WellBegun.cons_of_none (hm : m.event.begun? = none) (hw : WellBegun t h own) :
    WellBegun t h (m :: own) :=
  EachBegun.cons_of_none (P := fun e i => Sourced t e h i) hm hw

theorem WellBegun.cons (hm : m.event.begun? = some (h, i)) (hs : Sourced t m.engine h i)
    (hw : WellBegun t h own) : WellBegun t h (m :: own) :=
  EachBegun.cons (P := fun e i => Sourced t e h i) hm hs hw

end Begins

/-- No step was started twice, and each in its time. -/
structure Orderly (t : SessionOutline) (h : Handle) (own : List Moment) : Prop where
  once : ∀ i, begins h i own ≤ 1
  begun : WellBegun t h own

/-- Each step has yet to be started in the run, or was started in it once and is done. -/
structure Ledger (t : SessionOutline) (h : Handle) (generation : Nat) (s : Situation) : Prop where
  entries : ∀ i, (begins h i s.own = 0 ∧
      ∀ r, s.engine.record? h i = some r → r.completedInRun < generation) ∨
    (begins h i s.own = 1 ∧ s.engine.isDoneIn h i generation = true)
  supplied : ∀ i, s.engine.isDone h i = true → s.engine.Supplies h i
  current : (s.engine.session h).generation = generation
  begun : WellBegun t h s.own

variable {answers : List Moment → (c : ProviderCall) → c.Outcome → Prop} {t : SessionOutline}
  {tenant : String} {h : Handle} {g : Nat} {s s' s'' : Situation}

namespace Ledger

theorem orderly (hl : Ledger t h g s) : Orderly t h s.own := by
  refine ⟨fun i => ?_, hl.begun⟩
  rcases hl.entries i with ⟨hb, -⟩ | ⟨hb, -⟩
  · exact hb ▸ Nat.zero_le 1
  · exact Nat.le_of_eq hb

theorem begins_of_not_done {i : Nat} (hl : Ledger t h g s) (hd : s.engine.isDoneIn h i g = false) :
    begins h i s.own = 0 := by
  rcases hl.entries i with ⟨hb, -⟩ | ⟨-, hdone⟩
  · exact hb
  · rw [hd] at hdone
    cases hdone

theorem begins_of_done {i : Nat} (hl : Ledger t h g s) (hd : s.engine.isDoneIn h i g = true) :
    begins h i s.own = 1 := by
  rcases hl.entries i with ⟨-, hlt⟩ | ⟨hb, -⟩
  · obtain ⟨r, hr, -, hg⟩ := Engine.isDoneIn_iff.mp hd
    exact absurd hg (Nat.ne_of_lt (hlt r hr))
  · exact hb

theorem done_of_begins {i : Nat} (hl : Ledger t h g s) (hb : begins h i s.own = 1) :
    s.engine.isDoneIn h i g = true := by
  rcases hl.entries i with ⟨hb', -⟩ | ⟨-, hd⟩
  · rw [hb] at hb'
    cases hb'
  · exact hd

end Ledger

theorem Change.Quiet.begun? {c : Change} {i : Option Nat} (hc : c.Quiet h i) :
    (Event.change c).begun? = none := by
  cases c <;> first | rfl | exact hc.elim

theorem Quietly.begins {K : Conduct} {i : Option Nat} (hq : Quietly K tenant h i s s')
    (k : Handle) (j : Nat) : begins k j s'.own = begins k j s.own := by
  refine hq.keeps (J := fun s' => FlowEngine.begins k j s'.own = FlowEngine.begins k j s.own)
    ?_ ?_ rfl
  · exact fun s' c hs hc => (begins_cons_of_none hc.begun?).trans hs
  · rintro s' c r s'' hs - ⟨u, -, -, rfl⟩
    exact (begins_cons_of_none rfl).trans hs

theorem Quietly.eachBegun {K : Conduct} {P : Engine → Nat → Prop} {i : Option Nat}
    (hq : Quietly K tenant h i s s') (hw : EachBegun h P s.own) : EachBegun h P s'.own := by
  refine hq.keeps (J := fun s' => EachBegun h P s'.own) ?_ ?_ hw
  · exact fun s' c hs hc => hs.cons_of_none hc.begun?
  · rintro s' c r s'' hs - ⟨u, -, -, rfl⟩
    exact hs.cons_of_none rfl

theorem Quietly.wellBegun {K : Conduct} {i : Option Nat} (hq : Quietly K tenant h i s s')
    (hw : WellBegun t h s.own) : WellBegun t h s'.own :=
  hq.eachBegun (P := fun e i => Sourced t e h i) hw

theorem Quietly.orderly {K : Conduct} {i : Option Nat} (hq : Quietly K tenant h i s s')
    (ho : Orderly t h s.own) : Orderly t h s'.own :=
  ⟨fun j => hq.begins h j ▸ ho.once j, hq.wellBegun ho.begun⟩

theorem Orderly.change {c : Change} (hc : (Event.change c).begun? = none)
    (ho : Orderly t h s.own) : Orderly t h (s.change c).own := by
  refine ⟨fun j => ?_, ho.begun.cons_of_none hc⟩
  rw [Situation.change_own, begins_cons_of_none hc]
  exact ho.once j

theorem Ledger.quietly (hl : Ledger t h g s)
    (hq : Quietly (Conduct.solitary answers) tenant h none s s') : Ledger t h g s' := by
  have same : ∀ i, s'.engine.record? h i = s.engine.record? h i := fun i => hq.record? (by simp)
  refine ⟨fun i => ?_, fun i => ?_, (hq.state h).2.trans hl.current, hq.wellBegun hl.begun⟩
  · rw [hq.begins, same, Engine.isDoneIn, same]
    exact hl.entries i
  · rw [Engine.isDone, Engine.Supplies, same]
    exact hl.supplied i

section Alone

variable {i : Nat} {now : Int}

theorem begins_begin {i' : Option Nat} {K : Conduct}
    (hb : Quietly K tenant h i' (s.change (.begin h i now)) s') (j : Nat) :
    begins h j s'.own = begins h j s.own + if j = i then 1 else 0 := by
  rw [hb.begins, Situation.change_own, begins_cons rfl]

theorem Ledger.begin {i' : Option Nat} {K : Conduct} (hl : Ledger t h g s)
    (hzero : begins h i s.own = 0) (hs : Sourced t s.engine h i)
    (hb : Quietly K tenant h i' (s.change (.begin h i now)) s') : Orderly t h s'.own := by
  refine ⟨fun j => ?_, hb.wellBegun (hl.begun.cons rfl hs)⟩
  rw [begins_begin hb]
  by_cases hj : j = i
  · refine Nat.le_of_eq ?_
    rw [hj, hzero, if_pos rfl, Nat.zero_add]
  · rw [if_neg hj]
    exact hl.orderly.once j

theorem Ledger.complete {r : StepRecord} {outcome : TargetOutcome} {later : Int}
    (hl : Ledger t h g s) (hr : s.engine.record? h i = some r) (hzero : begins h i s.own = 0)
    (hs : Sourced t s.engine h i)
    (hb : Quietly (.solitary answers) tenant h (some i) (s.change (.begin h i now)) s')
    (hq : Quietly (.solitary answers) tenant h none (s'.change (.complete h i outcome later)) s'') :
    Ledger t h g s'' ∧ begins h i s''.own = 1 ∧
      ∀ j, j ≠ i → begins h j s''.own = begins h j s.own ∧
        s''.engine.record? h j = s.engine.record? h j := by
  have hcount : ∀ j, begins h j s''.own = begins h j s.own + if j = i then 1 else 0 := by
    intro j
    rw [hq.begins, Situation.change_own, begins_cons_of_none rfl, begins_begin hb]
  have others : ∀ j, j ≠ i → begins h j s''.own = begins h j s.own ∧
      s''.engine.record? h j = s.engine.record? h j := by
    intro j hj
    refine ⟨by rw [hcount, if_neg hj]; rfl, ?_⟩
    exact Quietly.dispatched_of_ne rfl hb hq hj
  have hself : begins h i s''.own = 1 := by rw [hcount, hzero, if_pos rfl]
  have hcurrent : (s'.engine.session h).generation = g := by
    rw [(hb.state h).2, ← hl.current]
    exact (Change.state_apply (by simp [Change.run?]) (.inl rfl)).2
  obtain ⟨r', conversation, run, hdone⟩ := Quietly.dispatched rfl hb hq hr
  refine ⟨⟨?_, ?_, ?_, ?_⟩, hself, others⟩
  · intro j
    by_cases hj : j = i
    · subst hj
      exact .inr ⟨hself, Engine.isDoneIn_iff.mpr ⟨_, hdone, rfl, hcurrent⟩⟩
    · obtain ⟨hbj, hrj⟩ := others j hj
      rw [hbj, hrj, Engine.isDoneIn, hrj]
      exact hl.entries j
  · intro j hd
    by_cases hj : j = i
    · subst hj
      exact ⟨_, hdone, rfl, rfl⟩
    · obtain ⟨-, hrj⟩ := others j hj
      rw [Engine.isDone, hrj] at hd
      rw [Engine.Supplies, hrj]
      exact hl.supplied j hd
  · rw [(hq.state h).2, ← hcurrent]
    exact (Change.state_apply (by simp [Change.run?]) (.inl rfl)).2
  · exact hq.wellBegun ((hl.begin hzero hs hb).begun.cons_of_none rfl)

end Alone

def Prepared (t : SessionOutline) (h : Handle) (g : Nat) (s : Situation) : Task → Prop
  | .guarded i => Ledger t h g s ∧ begins h i s.own = 0
  | .required _ _ => Ledger t h g s
  | .alone i => Ledger t h g s ∧ begins h i s.own = 0 ∧ Sourced t s.engine h i
  | .turns generation _ => generation = g ∧ Ledger t h g s

def Accomplished (h : Handle) (s s' : Situation) : Task → Prop
  | .guarded i | .alone i => begins h i s'.own = 1 ∧
      ∀ j, i < j → begins h j s'.own = begins h j s.own
  | .required i rest => (∀ j ∈ rest, s'.engine.isDone h j = true) ∧
      ∀ j, i ≤ j → begins h j s'.own = begins h j s.own
  | .turns _ rest => ∀ j ∈ rest, begins h j s'.own = 1

structure Success (t : SessionOutline) (h : Handle) (g : Nat) (task : Task) (s s' : Situation) :
    Prop where
  ledger : Ledger t h g s'
  kept : ∀ j, s.engine.isDone h j = true → s'.engine.isDone h j = true
  accomplished : Accomplished h s s' task

/-- What is left of a ledger when a task ends, or is under way. -/
def Kept (t : SessionOutline) (h : Handle) (g : Nat) (task : Task) (s : Situation) :
    Ending → Situation → Prop
  | .succeeded, s' => Success t h g task s s'
  | _, s' => Orderly t h s'.own

theorem Kept.of_ne {task task' : Task} {s₀ : Situation} {e : Ending} (he : e ≠ .succeeded)
    (hk : Kept t h g task s e s') : Kept t h g task' s₀ e s' := by
  cases e with
  | succeeded => exact absurd rfl he
  | underWay => exact hk
  | failed fault => exact hk

theorem Kept.imp {task task' : Task} {s₀ : Situation} {e : Ending} (hk : Kept t h g task s e s')
    (hs : Success t h g task s s' → Success t h g task' s₀ s') : Kept t h g task' s₀ e s' := by
  cases e with
  | succeeded => exact hs hk
  | underWay => exact hk
  | failed fault => exact hk

theorem Prepared.orderly {task : Task} (hp : Prepared t h g s task) : Orderly t h s.own := by
  cases task with
  | guarded i => exact hp.1.orderly
  | required i rest => exact Ledger.orderly hp
  | alone i => exact hp.1.orderly
  | turns generation rest => exact hp.2.orderly

theorem Ledger.isDone_of_begins {i : Nat} (hl : Ledger t h g s) (hb : begins h i s.own = 1) :
    s.engine.isDone h i = true := by
  obtain ⟨r, hr, hd, -⟩ := Engine.isDoneIn_iff.mp (hl.done_of_begins hb)
  exact Engine.isDone_iff.mpr ⟨r, hr, hd⟩

theorem Ledger.begins_of_pending {i : Nat} (hl : Ledger t h g s)
    (hd : s.engine.isDone h i = false) : begins h i s.own = 0 := by
  rcases hl.entries i with ⟨hb, -⟩ | ⟨hb, -⟩
  · exact hb
  · rw [hl.isDone_of_begins hb] at hd
    cases hd

theorem Ledger.begins_stays {i : Nat} (hl : Ledger t h g s') (hown : s.own <:+ s'.own)
    (hb : begins h i s.own = 1) : begins h i s'.own = 1 :=
  Nat.le_antisymm (hl.orderly.once i) (hb ▸ begins_mono hown)

theorem Ledger.sourced (ht : t.WellLaid) (hl : Ledger t h g s) {i : Nat} {x : StepOutline}
    (hx : t.steps[i]? = some x) (hd : ∀ j ∈ x.required, s.engine.isDone h j = true) :
    Sourced t s.engine h i := by
  intro x' hx' source hs
  cases hx.symm.trans hx'
  obtain ⟨j, hj, y, hy, he⟩ := ht.laid.supplied x (List.mem_of_getElem? hx) source hs
  exact ⟨j, y, hy, he, hl.supplied j (hd j hj)⟩

theorem Ending.PassedOn.ne {e : Ending} (he : e.PassedOn) : e ≠ .succeeded := by
  rintro rfl
  exact he

theorem Course.kept (ht : t.WellLaid) {task : Task} {e : Ending}
    (hx : Course (.solitary answers) ⟨tenant, h, .none, true⟩ t task s e s')
    (hp : Prepared t h g s task) : Kept t h g task s e s' := by
  -- a ledger goes in and, on success, comes out; a failure leaves of it that steps are in order
  induction hx with
  | halted => exact hp.orderly
  | busy hx hrun => exact hp.1.orderly
  | @unready i x s e s' hx hidle hr he ih => exact (ih hp.1).of_ne he
  | @ready i x s s' e s'' hx hidle hr ha ihr iha =>
    obtain ⟨hl, hkept, hall, hsame⟩ := ihr hp.1
    have hafter := iha ⟨hl, (hsame i (Nat.le_refl i)).trans hp.2, hl.sourced ht hx hall⟩
    refine hafter.imp fun hs => ?_
    refine ⟨hs.ledger, fun j hd => hs.kept j (hkept j hd), hs.accomplished.1, ?_⟩
    exact fun j hj => (hs.accomplished.2 j hj).trans (hsame j (Nat.le_of_lt hj))
  | none => exact ⟨hp, fun _ => id, nofun, fun _ _ => rfl⟩
  | @settled i j rest s e s' hreq hd hr ih =>
    refine (ih hp).imp fun hs => ?_
    refine ⟨hs.ledger, hs.kept, ?_, hs.accomplished.2⟩
    exact List.forall_mem_cons.mpr ⟨hs.kept j hd, hs.accomplished.1⟩
  | @next i j rest s s' e s'' hreq hd hg hr ihg ihr =>
    obtain ⟨hl, hkept, hbegun, hsame⟩ := ihg ⟨hp, Ledger.begins_of_pending hp hd⟩
    have hdone := hl.isDone_of_begins hbegun
    have hlt := hreq.lt ht
    refine (ihr hl).imp fun hs => ?_
    refine ⟨hs.ledger, fun k hk => hs.kept k (hkept k hk), ?_, ?_⟩
    · exact List.forall_mem_cons.mpr ⟨hs.kept j hdone, hs.accomplished.1⟩
    · exact fun k hk => (hs.accomplished.2 k hk).trans (hsame k (Nat.lt_of_lt_of_le hlt hk))
  | @passed i j rest s e s' hreq hd hg he ih =>
    exact (ih ⟨hp, Ledger.begins_of_pending hp hd⟩).of_ne he.ne
  | blamed hx hy hreq hd hg hl hf hq he ih =>
    have hafter : Orderly t h _ := ih ⟨hp, Ledger.begins_of_pending hp hd⟩
    have horderly := hq.orderly (hafter.change rfl)
    rcases he with rfl | rfl <;> exact horderly
  | refused hx hrun => exact hp.1.orderly
  | begun hr hidle hb => exact hp.1.begin hp.2.1 hp.2.2 hb
  | @done i s r now s' outcome later e s'' hr hidle hb hq he =>
    obtain ⟨hl, hself, hothers⟩ := hp.1.complete hr hp.2.1 hp.2.2 hb hq
    rcases he with rfl | rfl
    · exact hl.orderly
    · refine ⟨hl, fun j hd => ?_, hself, fun j hj => (hothers j (Nat.ne_of_gt hj)).1⟩
      by_cases hj : j = i
      · exact hj ▸ hl.isDone_of_begins hself
      · rw [Engine.isDone, (hothers j hj).2]
        exact hd
  | failed hr hidle hb hf hq he =>
    have horderly := hq.orderly ((hp.1.begin hp.2.1 hp.2.2 hb).change rfl)
    rcases he with rfl | rfl <;> exact horderly
  | ended => exact ⟨hp.2, fun _ => id, nofun⟩
  | @skipped generation i rest s e s' hd hr ih =>
    obtain ⟨rfl, hl⟩ := hp
    refine (ih ⟨rfl, hl⟩).imp fun hs => ?_
    have hbegun := hs.ledger.begins_stays hr.own_suffix (hl.begins_of_done hd)
    exact ⟨hs.ledger, hs.kept, List.forall_mem_cons.mpr ⟨hbegun, hs.accomplished⟩⟩
  | @taken generation i rest s s' e s'' hd hg hr ihg ihr =>
    obtain ⟨rfl, hl⟩ := hp
    have hfirst := ihg ⟨hl, hl.begins_of_not_done hd⟩
    refine (ihr ⟨rfl, hfirst.ledger⟩).imp fun hs => ?_
    have hbegun := hs.ledger.begins_stays hr.own_suffix hfirst.accomplished.1
    exact ⟨hs.ledger, fun j hj => hs.kept j (hfirst.kept j hj),
      List.forall_mem_cons.mpr ⟨hbegun, hs.accomplished⟩⟩
  | broken hd hg he ih =>
    obtain ⟨rfl, hl⟩ := hp
    exact (ih ⟨hl, hl.begins_of_not_done hd⟩).of_ne he

theorem Ledger.opened (hs : s.engine.Sound) (hh : s.engine.Hosts h t) (hown : s.own = []) :
    Ledger t h ((s.engine.session h).generation + 1) (s.change (.startRun h)) := by
  have same : ∀ i, (s.change (.startRun h)).engine.record? h i = s.engine.record? h i :=
    fun i => Change.record?_apply nofun (.inl rfl)
  have zero : ∀ i, begins h i (s.change (.startRun h)).own = 0 := by
    intro i
    rw [Situation.change_own, begins_cons_of_none rfl, hown]
    rfl
  refine ⟨fun i => .inl ⟨zero i, ?_⟩, fun i hd => ?_, ?_, ?_⟩
  · intro r hr
    exact Nat.lt_succ_of_le (hs.records h i r (same i ▸ hr)).counted
  · rw [Engine.isDone, same] at hd
    obtain ⟨r, hr, hd⟩ := Engine.isDone_iff.mp hd
    exact ⟨r, (same i).trans hr, hd, (hs.records h i r hr).supplied hd⟩
  · rw [Situation.change_engine, Change.apply, Engine.session_modifySession_self hh.lt]
    rfl
  · rw [Situation.change_own, hown]
    exact WellBegun.cons_of_none rfl (by simp [WellBegun])

theorem Work.kept (ht : t.WellLaid) {e : Ending} (hl : Ledger t h g s)
    (hw : Work (.solitary answers) tenant h t g s e s') :
    Kept t h g (.turns g (List.range t.steps.length)) s e s' := by
  cases hw with
  | uploads hq he =>
    cases e with
    | succeeded => exact absurd rfl he
    | underWay => exact (hl.quietly hq).orderly
    | failed fault => exact (hl.quietly hq).orderly
  | steps hq horder hx =>
    have hk := hx.kept ht ⟨rfl, hl.quietly hq⟩
    cases e with
    | underWay => exact hk
    | failed fault => exact hk
    | succeeded =>
      refine ⟨hk.ledger, fun j hd => hk.kept j ?_, fun j hj => ?_⟩
      · rw [Engine.isDone, hq.record? (by simp)]
        exact hd
      · exact hk.accomplished j (horder.mem_iff.mpr hj)

theorem Ledger.finish (hl : Ledger t h g s) : Ledger t h g (s.change (.finishRun h)) := by
  have same : ∀ i, (s.change (.finishRun h)).engine.record? h i = s.engine.record? h i :=
    fun i => Change.record?_apply nofun (.inl rfl)
  refine ⟨fun i => ?_, fun i => ?_, ?_, hl.begun.cons_of_none rfl⟩
  · rw [Situation.change_own, begins_cons_of_none rfl, same, Engine.isDoneIn, same]
    exact hl.entries i
  · rw [Engine.isDone, Engine.Supplies, same]
    exact hl.supplied i
  · rw [← hl.current]
    refine Engine.session_modifySession_keeps (·.generation) ?_ s.engine h h
    exact fun _ => rfl

theorem Ledger.finished {e : Engine} (hs : e.Sound) (hh : e.Hosts h (e.session h).outline)
    (hl : Ledger (e.session h).outline h ((e.session h).generation + 1) s')
    (hall : ∀ i < (e.session h).outline.steps.length, begins h i s'.own = 1) :
    FinishedRun e h s' := by
  have ht := hs.laid h _ hh
  have hnodup := Flow.validate_nodup (hs.flows h _ hh)
  refine ⟨hl.current, ?_, hl.begun⟩
  intro step hstep
  obtain ⟨x, hx, hid⟩ := ht.complete step hstep
  obtain ⟨i, hi⟩ := List.mem_iff_getElem?.mp hx
  have hself : x.step = step := ht.laid.step_eq hnodup hx hstep hid
  have hbegun := hall i (List.getElem?_eq_some_iff.mp hi).1
  obtain ⟨r, hr, hd, hg⟩ := Engine.isDoneIn_iff.mp (hl.done_of_begins hbegun)
  exact ⟨i, x, r, hi, hself, hbegun, hr, hd, hg.trans hl.current.symm⟩

def RunResult (e : Engine) (h : Handle) : Ending → Situation → Prop
  | .underWay, _ => True
  | .succeeded, s' => FinishedRun e h s'
  | .failed _, s' => (s'.engine.session h).state = .error

theorem RunCourse.result (hs : s.engine.Sound) (hh : s.engine.Hosts h (s.engine.session h).outline)
    (hown : s.own = []) {e : Ending}
    (hx : RunCourse (.solitary answers) tenant h (s.engine.session h).outline s e s') :
    Orderly (s.engine.session h).outline h s'.own ∧ RunResult s.engine h e s' := by
  have ht := hs.laid h _ hh
  have hl := Ledger.opened hs hh hown
  cases hx with
  | working _ hw => exact ⟨hw.kept ht hl, trivial⟩
  | finished _ hw hq he =>
    have hk := hw.kept ht hl
    have hdone := hk.ledger.finish.quietly hq
    rcases he with rfl | rfl
    · exact ⟨hdone.orderly, trivial⟩
    · refine ⟨hdone.orderly, hdone.finished hs hh fun i hi => ?_⟩
      rw [hq.begins, Situation.change_own, begins_cons_of_none rfl]
      exact hk.accomplished i (List.mem_range.mpr hi)
  | failed _ hw hq he =>
    have horderly : Orderly (s.engine.session h).outline h _ := hw.kept ht hl
    have hafter := hq.orderly (horderly.change rfl)
    rcases he with rfl | rfl
    · exact ⟨hafter, trivial⟩
    · have hh' := (hh.evolve (Change.evolves_apply (.startRun h) _)).evolve
        (hw.evolves (Conduct.solitary_evolving answers))
      refine ⟨hafter, (hq.state h).1.trans ?_⟩
      rw [Situation.change_engine, Change.apply, Engine.session_modifySession_self hh'.lt]

def OwnSession (h : Handle) (own : List Moment) : Prop :=
  ∀ m ∈ own, ∀ k, (∀ i, m.event.begun? = some (k, i) → k = h) ∧
    (m.event = .change (.startRun k) → k = h)

theorem Change.OfSteps.own {c : Change} (hc : c.OfSteps h ∨ c.run? = some h) (k : Handle) :
    (∀ i, (Event.change c).begun? = some (k, i) → k = h) ∧
      (Event.change c = .change (.startRun k) → k = h) := by
  constructor
  · intro i hb
    cases c <;> cases hb
    rcases hc with (hc | ⟨j, hc⟩) | hc
    · exact hc.elim
    · cases hc
      rfl
    · cases hc
  · rintro ⟨⟩
    rcases hc with (hc | ⟨j, hc⟩) | hc
    · exact hc.elim
    · cases hc
    · cases hc
      rfl

theorem RunCourse.ownSession {K : Conduct} {e : Ending} (hx : RunCourse K tenant h t s e s')
    (ho : OwnSession h s.own) : OwnSession h s'.own := by
  refine hx.keeps (J := fun s' => OwnSession h s'.own) ?_ ?_ ho
  · intro s' c hs hc
    exact List.forall_mem_cons.mpr ⟨Change.OfSteps.own hc, hs⟩
  · rintro s' c r s'' hs - ⟨u, -, -, rfl⟩
    exact List.forall_mem_cons.mpr ⟨fun k => ⟨nofun, nofun⟩, hs⟩

theorem OwnSession.begins {own : List Moment} (ho : OwnSession h own) {k : Handle} (hk : k ≠ h)
    (i : Nat) : begins k i own = 0 := by
  rw [FlowEngine.begins, List.countP_eq_zero]
  intro m hm hb
  exact hk ((ho m hm k).1 i (by simpa using hb))

/-- In a run of a session every step is started at most once. If the run finishes, every step of
the flow was started once and is done, each after its sources; if it fails, the session is in
error. -/
theorem run_starts_each_step_once {f : Facilities} {allowed : Request → Prop} {story : Story}
    (hr : Reachable (.solitary answers) f allowed story) {tenant id : String}
    {p : Proc (Except EngineFault SessionState)} {s' : Situation}
    (hx : Execution (.solitary answers) ((Sessions.run f tenant id).run, story.enter) (p, s')) :
    (∀ h i, begins h i s'.own ≤ 1) ∧
    (∀ state, p = .done (.ok state) → state = .finished ∧
      ∃ h, story.engine.find? id = some h ∧ FinishedRun story.engine h s') ∧
    ∀ fault, p = .done (.error fault) → ∀ h,
      (∃ m ∈ s'.own, m.event = .change (.startRun h)) →
        (s'.engine.session h).state = .error := by
  have hK : (Conduct.solitary answers).Evolving := Conduct.solitary_evolving answers
  have hs : story.enter.engine.Sound := hr.sound (Conduct.solitary_keeps answers)
  have follows := Sessions.run_follows (s := story.enter) hK hs f tenant id
    (I := fun s' => ∀ h i, begins h i s'.own ≤ 1)
    (Q := fun state s' => state = .finished ∧
      ∃ h, story.engine.find? id = some h ∧ FinishedRun story.engine h s')
    (F := fun _ s' => ∀ h, (∃ m ∈ s'.own, m.event = .change (.startRun h)) →
      (s'.engine.session h).state = .error) ?_ ?_
  · obtain ⟨honce, hafter⟩ := execution_assured hx (fun _ _ => Nat.zero_le _) follows
    refine ⟨honce, ?_, ?_⟩
    · rintro state rfl
      exact hafter
    · rintro fault rfl
      exact hafter
  · rintro fault h ⟨m, hm, -⟩
    cases hm
  · intro h hf e s' hrun
    have hh := Sessions.find?_hosts hs hf
    have hown := hrun.ownSession (by simp [OwnSession, Story.enter])
    obtain ⟨horderly, hresult⟩ := hrun.result hs hh rfl
    cases e with
    | underWay =>
      intro k i
      by_cases hk : k = h
      · exact hk ▸ horderly.once i
      · rw [hown.begins hk]
        exact Nat.zero_le 1
    | succeeded => exact ⟨rfl, h, hf, hresult⟩
    | failed fault =>
      rintro k ⟨m, hm, hstart⟩
      rw [(hown m hm k).2 hstart]
      exact hresult

/-- The sample session is run to its end. -/
theorem run_starts_each_step_once_letter :
    ∃ past s', Execution (Conduct.solitary Conduct.anyAnswer)
        ((Sessions.run Sample.facilities "acme" "session-0-00000000").run,
          Story.enter ⟨Sample.created, past⟩) (.done (.ok .finished), s') ∧
      (∀ h i, begins h i s'.own ≤ 1) ∧
      ∃ h, Sample.created.find? "session-0-00000000" = some h ∧
        FinishedRun Sample.created h s' := by
  obtain ⟨past, hr⟩ := Sample.reachable_created (fun _ => True) trivial
  obtain ⟨s', hx, -⟩ := still_execution Sample.echo Sample.created past
    (p := (Sessions.run Sample.facilities "acme" "session-0-00000000").run)
    (v := .ok .finished) (by decide +kernel)
  obtain ⟨honce, hfinished, -⟩ := run_starts_each_step_once hr hx
  exact ⟨past, s', hx, honce, (hfinished _ rfl).2⟩

end FlowEngine
