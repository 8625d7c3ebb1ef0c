import FlowEngine.Proofs.SessionRun
import FlowEngine.Proofs.Upkeep

/-! # Which outputs a run hands on

A required step that is done is not run again for the step that requires it. In a run of a session
a step is therefore started with outputs of that run, except those of steps that were done before
it and whose own turns are yet to come.
-/
namespace FlowEngine

def SessionOutline.EachSource (t : SessionOutline) (i : Nat) (P : Nat → Prop) : Prop :=
  ∀ x, t.steps[i]? = some x → ∀ source ∈ x.step.sources,
    ∃ j ∈ x.required, ∃ y, t.steps[j]? = some y ∧ y.step.id = source ∧ P j

/-- A step that is done: in the present run, or before it if its turn comes later. -/
structure Served (before e : Engine) (h : Handle) (later : List Nat) (j : Nat) : Prop where
  done : e.isDone h j = true
  origin : e.isDoneIn h j (e.session h).generation = true ∨
    j ∈ later ∧ e.record? h j = before.record? h j

/-- A place in the order of turns, between the steps before it and those after it. -/
structure Session.Place (s : Session) where
  earlier : List Nat
  step : Nat
  later : List Nat
  order : s.turns = earlier ++ step :: later

/-- A run has come to the place: the steps before it have been done in the run, its own has not. -/
structure Session.Place.Reached {t : Session} (place : t.Place) (e : Engine) (h : Handle) : Prop where
  past : ∀ j ∈ place.earlier, e.isDoneIn h j (e.session h).generation = true
  present : e.isDoneIn h place.step (e.session h).generation = false

/-- It is the turn of the step or of one that requires it, directly or not, and the outputs that the
step takes are there. -/
def Timely (before : Engine) (h : Handle) (e : Engine) (i : Nat) : Prop :=
  ∃ place : (before.session h).Place, place.Reached e h ∧
    Relation.ReflTransGen (before.session h).outline.Requires place.step i ∧
    (before.session h).outline.EachSource i (Served before e h place.later)

theorem Engine.isDone_eq_false {e : Engine} {h : Handle}
    (hn : ((e.session h).graph.nodes.all fun x => !x.record.isDone) = true) (j : Nat) :
    e.isDone h j = false := by
  rw [isDone, Option.any_eq_false]
  intro r hr
  obtain ⟨x, hx, rfl⟩ := Option.map_eq_some_iff.mp hr
  have hpending := List.all_eq_true.mp hn x (List.mem_of_getElem? hx)
  simpa using hpending

section Turns

theorem Session.turns_congr {s s' : Session} (hs : s.outline = s'.outline) : s.turns = s'.turns := by
  have houtlines : s.graph.inOrder.map StepExecution.outline =
      s'.graph.inOrder.map StepExecution.outline := by
    have hnodes : s.graph.nodes.map StepExecution.outline =
        s'.graph.nodes.map StepExecution.outline := congrArg SessionOutline.steps hs
    rw [StepGraph.inOrder_outlines, StepGraph.inOrder_outlines, hnodes]
  have hindex := congrArg (List.map StepOutline.index) houtlines
  rw [List.map_map, List.map_map] at hindex
  exact hindex

theorem SessionOutline.Requires.le_of_chain {t : SessionOutline} (ht : t.WellLaid) {k i : Nat}
    (hr : Relation.ReflTransGen t.Requires k i) : i ≤ k := by
  induction hr with
  | refl => exact Nat.le_refl k
  | tail _ hreq ih =>
    have hlt := hreq.lt ht
    omega

theorem SessionOutline.WellLaid.eachSource {t : SessionOutline} (ht : t.WellLaid) {i : Nat}
    {P : Nat → Prop} (hp : ∀ j, t.Requires i j → P j) : t.EachSource i P := by
  intro x hx source hs
  obtain ⟨j, hj, y, hy, hid⟩ := ht.laid.supplied x (List.mem_of_getElem? hx) source hs
  exact ⟨j, hj, y, hy, hid, hp j ⟨x, hx, hj⟩⟩

theorem SessionOutline.EachSource.imp {t : SessionOutline} {i : Nat} {P Q : Nat → Prop}
    (hs : t.EachSource i P) (hpq : ∀ j, t.Requires i j → P j → Q j) : t.EachSource i Q := by
  intro x hx source hsource
  obtain ⟨j, hj, y, hy, hid, hp⟩ := hs x hx source hsource
  exact ⟨j, hj, y, hy, hid, hpq j ⟨x, hx, hj⟩ hp⟩

end Turns

variable {answers : List Moment → (c : ProviderCall) → c.Outcome → Prop} {tenant : String}
  {h : Handle} {g : Nat} {before : Engine} {s s' s'' : Situation}

/-- Steps that the run has not started are as they were before; those that it has started were
started in time. -/
structure OnTime (before : Engine) (h : Handle) (s : Situation) : Prop where
  untouched : ∀ j, begins h j s.own = 0 → s.engine.record? h j = before.record? h j
  timely : EachBegun h (Timely before h) s.own

/-- In its turn the step at the place is run, or one that it requires. -/
structure Session.Place.Serves {t : Session} (place : t.Place) (h : Handle) (own : List Moment)
    (i : Nat) : Prop where
  chain : Relation.ReflTransGen t.outline.Requires place.step i
  past : ∀ j ∈ place.earlier, begins h j own = 1
  present : begins h place.step own = 0

def Task.Due (before : Engine) (h : Handle) (s : Situation) : Task → Prop
  | .guarded i | .required i _ => ∃ place : (before.session h).Place, place.Serves h s.own i
  | .alone i => (∃ place : (before.session h).Place, place.Serves h s.own i) ∧
      ∀ j, (before.session h).outline.Requires i j → s.engine.isDone h j = true
  | .turns _ rest => ∃ earlier, (before.session h).turns = earlier ++ rest ∧
      ∀ j ∈ earlier, begins h j s.own = 1

namespace Session.Place.Serves

variable {place : (before.session h).Place} {i j : Nat} {t : SessionOutline}

theorem required (hs : place.Serves h s.own i) (hr : (before.session h).outline.Requires i j) :
    place.Serves h s.own j :=
  ⟨hs.chain.tail hr, hs.past, hs.present⟩

theorem after (hs : place.Serves h s.own i) (hl : Ledger t h g s') (hown : s.own <:+ s'.own)
    (hsame : begins h place.step s'.own = begins h place.step s.own) : place.Serves h s'.own i :=
  ⟨hs.chain, fun j hj => hl.begins_stays hown (hs.past j hj), hsame.trans hs.present⟩

theorem reached (hs : place.Serves h s.own i) (hl : Ledger t h g s) :
    place.Reached s.engine h := by
  rw [← hl.current] at hl
  refine ⟨fun j hj => hl.done_of_begins (hs.past j hj), Bool.eq_false_iff.mpr fun hd => ?_⟩
  have hbegun := hl.begins_of_done hd
  rw [hs.present] at hbegun
  cases hbegun

theorem mem_later (hs : place.Serves h s.own i) (ht : (before.session h).outline.WellLaid)
    (hperm : (before.session h).turns.Perm (List.range (before.session h).outline.steps.length))
    (hl : Ledger t h g s) (hr : (before.session h).outline.Requires i j)
    (hd : s.engine.isDoneIn h j g = false) : j ∈ place.later := by
  have hlt := hr.lt ht
  have hle := SessionOutline.Requires.le_of_chain ht hs.chain
  have hmem : j ∈ place.earlier ++ place.step :: place.later := by
    obtain ⟨y, hy, hj⟩ := hr
    obtain ⟨z, hz, -⟩ := ht.laid.required y (List.mem_of_getElem? hy) j hj
    have hrange := (List.getElem?_eq_some_iff.mp hz).1
    exact place.order ▸ hperm.mem_iff.mpr (List.mem_range.mpr hrange)
  rcases List.mem_append.mp hmem with hearly | hrest
  · have hbegun := hs.past j hearly
    rw [hl.begins_of_not_done hd] at hbegun
    cases hbegun
  · rcases List.mem_cons.mp hrest with rfl | hlater
    · omega
    · exact hlater

end Session.Place.Serves

namespace OnTime

theorem begin (ht : (before.session h).outline.WellLaid)
    (hperm : (before.session h).turns.Perm (List.range (before.session h).outline.steps.length))
    (ho : OnTime before h s) (hl : Ledger (before.session h).outline h g s) {i : Nat}
    (hdue : Task.Due before h s (.alone i)) : Timely before h s.engine i := by
  obtain ⟨⟨place, hplace⟩, hdone⟩ := hdue
  refine ⟨place, hplace.reached hl, hplace.chain, ht.eachSource fun j hreq => ⟨hdone j hreq, ?_⟩⟩
  rw [hl.current]
  cases hin : s.engine.isDoneIn h j g with
  | true => exact .inl rfl
  | false =>
    have hlater := hplace.mem_later ht hperm hl hreq hin
    exact .inr ⟨hlater, ho.untouched j (hl.begins_of_not_done hin)⟩

theorem quietly (ho : OnTime before h s)
    (hq : Quietly (.solitary answers) tenant h none s s') : OnTime before h s' := by
  refine ⟨fun j hb => ?_, hq.eachBegun ho.timely⟩
  rw [hq.begins] at hb
  rw [hq.record? (by simp)]
  exact ho.untouched j hb

variable {i : Nat} {now later : Int} {K : Conduct} {c : Change}

theorem begun {i' : Option Nat} (ho : OnTime before h s) (hs : Timely before h s.engine i)
    (hb : Quietly K tenant h i' (s.change (.begin h i now)) s') :
    EachBegun h (Timely before h) s'.own :=
  hb.eachBegun (ho.timely.cons rfl hs)

theorem ended {i' : Option Nat} (ho : OnTime before h s) (hs : Timely before h s.engine i)
    (hb : Quietly K tenant h i' (s.change (.begin h i now)) s')
    (hc : (Event.change c).begun? = none) (hq : Quietly K tenant h none (s'.change c) s'') :
    EachBegun h (Timely before h) s''.own :=
  hq.eachBegun ((ho.begun hs hb).cons_of_none hc)

theorem completed {r : StepRecord} {outcome : TargetOutcome} {t : SessionOutline}
    (ho : OnTime before h s) (hs : Timely before h s.engine i)
    (hl : Ledger t h g s) (hr : s.engine.record? h i = some r)
    (hzero : begins h i s.own = 0) (hsourced : Sourced t s.engine h i)
    (hb : Quietly (.solitary answers) tenant h (some i) (s.change (.begin h i now)) s')
    (hq : Quietly (.solitary answers) tenant h none (s'.change (.complete h i outcome later)) s'') :
    OnTime before h s'' := by
  obtain ⟨-, hself, hothers⟩ := hl.complete hr hzero hsourced hb hq
  refine ⟨fun j hj => ?_, ho.ended hs hb rfl hq⟩
  have hne : j ≠ i := by
    rintro rfl
    omega
  obtain ⟨hcount, hrecord⟩ := hothers j hne
  rw [hrecord]
  exact ho.untouched j (hcount ▸ hj)

end OnTime

/-- The steps that a task has started were started in time, and a task that has succeeded has left
the others alone. -/
structure Kept.OnTime (before : Engine) (h : Handle) (e : Ending) (s : Situation) : Prop where
  timely : EachBegun h (Timely before h) s.own
  onTime : e = .succeeded → FlowEngine.OnTime before h s

namespace Kept.OnTime

variable {e : Ending}

theorem of_onTime (ho : FlowEngine.OnTime before h s) : Kept.OnTime before h e s :=
  ⟨ho.timely, fun _ => ho⟩

theorem of_ne (he : e ≠ .succeeded) (ht : EachBegun h (Timely before h) s.own) :
    Kept.OnTime before h e s :=
  ⟨ht, fun hs => absurd hs he⟩

end Kept.OnTime

theorem Ending.ne_of_failed {e : Ending} {fault : EngineFault}
    (he : e = .underWay ∨ e = .failed fault) : e ≠ .succeeded := by
  rintro rfl
  rcases he with he | he <;> cases he

/-- The steps of a session are started in time, whatever way its run goes. -/
theorem Course.onTime (ht : (before.session h).outline.WellLaid)
    (hperm : (before.session h).turns.Perm (List.range (before.session h).outline.steps.length))
    {task : Task} {e : Ending}
    (hx : Course (.solitary answers) ⟨tenant, h, .none, true⟩ (before.session h).outline task s e s')
    (hp : Prepared (before.session h).outline h g s task) (hdue : task.Due before h s)
    (ho : OnTime before h s) : Kept.OnTime before h e s' := by
  induction hx with
  | halted | busy | refused | none | ended => exact .of_onTime ho
  | unready _ _ _ he ih => exact .of_ne he (ih hp.1 hdue ho).timely
  | @ready i x s s' e s'' hx _ hr _ ihr iha =>
    obtain ⟨hl, -, hall, hsame⟩ := hr.kept ht hp.1
    obtain ⟨place, hplace⟩ := hdue
    have hle := SessionOutline.Requires.le_of_chain ht hplace.chain
    have hbegins := (hsame i (Nat.le_refl i)).trans hp.2
    refine iha ⟨hl, hbegins, hl.sourced ht hx hall⟩
      ⟨⟨place, hplace.after hl hr.own_suffix (hsame _ hle)⟩, ?_⟩
      ((ihr hp.1 ⟨place, hplace⟩ ho).onTime rfl)
    rintro j ⟨y, hy, hj⟩
    cases hx.symm.trans hy
    exact hall j hj
  | settled _ _ _ ih => exact ih hp hdue ho
  | @next i j rest s s' e s'' hreq hd hg _ ihg ihr =>
    obtain ⟨place, hplace⟩ := hdue
    have hprepared : Prepared (before.session h).outline h g s (.guarded j) :=
      ⟨hp, Ledger.begins_of_pending hp hd⟩
    obtain ⟨hl, -, -, hsame⟩ := hg.kept ht hprepared
    have hlt := hreq.lt ht
    have hle := SessionOutline.Requires.le_of_chain ht hplace.chain
    have hafter := hplace.after hl hg.own_suffix (hsame _ (Nat.lt_of_lt_of_le hlt hle))
    exact ihr hl ⟨place, hafter⟩ ((ihg hprepared ⟨place, hplace.required hreq⟩ ho).onTime rfl)
  | passed hreq hd _ he ih =>
    obtain ⟨place, hplace⟩ := hdue
    have hfirst := ih ⟨hp, Ledger.begins_of_pending hp hd⟩ ⟨place, hplace.required hreq⟩ ho
    exact .of_ne he.ne hfirst.timely
  | @blamed i j rest x y s cause s' fault now e s'' hx _ hreq hd _ _ _ hq he ih =>
    obtain ⟨place, hplace⟩ := hdue
    have hfirst := ih ⟨hp, Ledger.begins_of_pending hp hd⟩ ⟨place, hplace.required ⟨x, hx, hreq⟩⟩ ho
    exact .of_ne (Ending.ne_of_failed he) (hq.eachBegun (hfirst.timely.cons_of_none rfl))
  | begun _ _ hb => exact .of_ne nofun (ho.begun (ho.begin ht hperm hp.1 hdue) hb)
  | done hr _ hb hq _ =>
    exact .of_onTime (ho.completed (ho.begin ht hperm hp.1 hdue) hp.1 hr hp.2.1 hp.2.2 hb hq)
  | failed _ _ hb _ hq he =>
    exact .of_ne (Ending.ne_of_failed he) (ho.ended (ho.begin ht hperm hp.1 hdue) hb rfl hq)
  | @skipped generation i rest s e s' hd _ ih =>
    obtain ⟨rfl, hl⟩ := hp
    obtain ⟨earlier, horder, hpast⟩ := hdue
    refine ih ⟨rfl, hl⟩ ⟨earlier ++ [i], by simpa using horder, ?_⟩ ho
    exact List.forall_mem_append.mpr ⟨hpast, List.forall_mem_singleton.mpr (hl.begins_of_done hd)⟩
  | @taken generation i rest s s' e s'' hd hg _ ihg ihr =>
    obtain ⟨rfl, hl⟩ := hp
    obtain ⟨earlier, horder, hpast⟩ := hdue
    have hbegins := hl.begins_of_not_done hd
    obtain ⟨hl', -, hbegun, -⟩ := hg.kept ht ⟨hl, hbegins⟩
    have hfirst := ihg ⟨hl, hbegins⟩ ⟨⟨earlier, i, rest, horder⟩, .refl, hpast, hbegins⟩ ho
    refine ihr ⟨rfl, hl'⟩ ⟨earlier ++ [i], by simpa using horder, ?_⟩ (hfirst.onTime rfl)
    refine List.forall_mem_append.mpr ⟨fun j hj => ?_, List.forall_mem_singleton.mpr hbegun⟩
    exact hl'.begins_stays hg.own_suffix (hpast j hj)
  | @broken generation i rest s e s' hd _ he ih =>
    obtain ⟨rfl, hl⟩ := hp
    obtain ⟨earlier, horder, hpast⟩ := hdue
    have hbegins := hl.begins_of_not_done hd
    have hfirst := ih ⟨hl, hbegins⟩ ⟨⟨earlier, i, rest, horder⟩, .refl, hpast, hbegins⟩ ho
    exact .of_ne he hfirst.timely

theorem Work.onTime (ht : (before.session h).outline.WellLaid) {e : Ending}
    (hh : s.engine.Hosts h (before.session h).outline)
    (hl : Ledger (before.session h).outline h g s) (ho : OnTime before h s)
    (hw : Work (.solitary answers) tenant h (before.session h).outline g s e s') :
    EachBegun h (Timely before h) s'.own := by
  cases hw with
  | uploads hq _ => exact hq.eachBegun ho.timely
  | steps hq hperm hx =>
    rename_i s₁
    have hhosts := hh.evolve (hq.evolves (Conduct.solitary_evolving answers))
    have hturns : (s₁.engine.session h).turns = (before.session h).turns :=
      Session.turns_congr hhosts.outline
    rw [hturns] at hperm hx
    exact (hx.onTime ht hperm ⟨rfl, hl.quietly hq⟩ ⟨[], rfl, by simp⟩ (ho.quietly hq)).timely

theorem RunCourse.onTime (hs : s.engine.Sound) (hh : s.engine.Hosts h (s.engine.session h).outline)
    (hown : s.own = []) {e : Ending}
    (hx : RunCourse (.solitary answers) tenant h (s.engine.session h).outline s e s') :
    EachBegun h (Timely s.engine h) s'.own := by
  have ht := hs.laid h _ hh
  have hl := Ledger.opened hs hh hown
  have hh' := hh.evolve (Change.evolves_apply (.startRun h) s.engine)
  have ho : OnTime s.engine h (s.change (.startRun h)) := by
    refine ⟨fun j _ => Change.record?_apply nofun (.inl rfl), ?_⟩
    rw [Situation.change_own, hown]
    exact EachBegun.nil.cons_of_none rfl
  have worked : ∀ {e s'}, Work (.solitary answers) tenant h (s.engine.session h).outline
      ((s.engine.session h).generation + 1) (s.change (.startRun h)) e s' →
      EachBegun h (Timely s.engine h) s'.own := fun hw => hw.onTime ht hh' hl ho
  cases hx with
  | working _ hw => exact worked hw
  | finished _ hw hq _ => exact hq.eachBegun ((worked hw).cons_of_none rfl)
  | failed _ hw hq _ => exact hq.eachBegun ((worked hw).cons_of_none rfl)

/-- Steps have their turns after those whose outputs they take. -/
def Session.InDependencyOrder (s : Session) : Prop :=
  ∀ i j, s.outline.Requires i j → s.turns.idxOf j < s.turns.idxOf i

theorem Session.InDependencyOrder.not_later {s : Session} (hs : s.InDependencyOrder)
    (hn : s.turns.Nodup) (place : s.Place) {i j : Nat}
    (hchain : Relation.ReflTransGen s.outline.Requires place.step i)
    (hreq : s.outline.Requires i j) : j ∉ place.later := by
  obtain ⟨earlier, k, later, horder⟩ := place
  have before : ∀ {a}, Relation.ReflTransGen s.outline.Requires k a →
      s.turns.idxOf a ≤ s.turns.idxOf k := by
    intro a ha
    induction ha with
    | refl => exact Nat.le_refl _
    | tail _ hstep ih =>
      have hlt := hs _ _ hstep
      omega
  intro hlater
  have hle := before hchain
  have hlt := hs i j hreq
  rw [horder] at hn hlt hle
  obtain ⟨-, hrest, hapart⟩ := List.nodup_append.mp hn
  have hk : k ∉ earlier := fun hm => hapart k hm k List.mem_cons_self rfl
  have hj : j ∉ earlier := fun hm => hapart j hm j (List.mem_cons_of_mem _ hlater) rfl
  have hne : k ≠ j := by
    rintro rfl
    exact (List.nodup_cons.mp hrest).1 hlater
  rw [List.idxOf_append_of_notMem hk, List.idxOf_cons_self] at hle
  rw [List.idxOf_append_of_notMem hj, List.idxOf_cons_ne _ hne] at hlt
  omega

theorem Engine.Sound.turns_nodup {e : Engine} (he : e.Sound) (h : Handle) :
    (e.session h).turns.Nodup := by
  by_cases hlt : h < e.sessions.length
  · have hh := Engine.hosts_of_lt hlt
    have hperm : (e.session h).turns.Perm (List.range (e.session h).outline.steps.length) :=
      (Sessions.inOrder_steps hh (he.laid h _ hh)).1
    exact hperm.nodup_iff.mpr List.nodup_range
  · rw [Engine.session_of_le (Nat.le_of_not_lt hlt)]
    exact List.nodup_nil

/-- Whatever has happened before and is in progress, whenever a run of a session starts a step, all
steps whose outputs that one takes are done. Each of them has been completed in this run, or it is
as it was before the run and its turn is yet to come. All are of this run if the order of turns
follows the outputs, or if nothing was done before. -/
theorem run_sources_fresh {R : Regime} {f : Facilities} {m : Machine} (hm : m.Under R f)
    {tenant id : String} {p : Proc (Except EngineFault SessionState)} {s' : Situation}
    (hx : Execution (.solitary answers) ((Sessions.run f tenant id).run, m.story.enter) (p, s')) :
    ∀ x ∈ s'.own, ∀ h i, x.event.begun? = some (h, i) →
      Timely m.story.engine h x.engine i ∧
      ((m.story.engine.session h).InDependencyOrder ∨
          (∀ j, m.story.engine.isDone h j = false) →
        (m.story.engine.session h).outline.EachSource i fun j =>
          x.engine.isDoneIn h j (x.engine.session h).generation = true) := by
  have hs : m.story.engine.Sound := hm.wellKept.sound
  generalize m.story = story at hs hx ⊢
  have hrun : ∀ h, story.engine.find? id = some h → ∀ e s',
      RunCourse (.solitary answers) tenant h (story.engine.session h).outline story.enter e s' →
      ∀ k, EachBegun k (Timely story.engine k) s'.own := by
    intro h hf e s' hcourse k x hx i hb
    have hown := hcourse.ownSession (by simp [OwnSession, Story.enter])
    obtain rfl := (hown x hx k).1 i hb
    exact RunCourse.onTime (s := story.enter) hs (Sessions.find?_hosts hs hf) rfl hcourse x hx i hb
  have follows := Sessions.run_follows (s := story.enter) (Conduct.solitary_evolving answers) hs f
    tenant id (I := fun s' => ∀ k, EachBegun k (Timely story.engine k) s'.own)
    (Q := fun _ s' => ∀ k, EachBegun k (Timely story.engine k) s'.own)
    (F := fun _ s' => ∀ k, EachBegun k (Timely story.engine k) s'.own) (fun _ _ => .nil) ?_
  · obtain ⟨htimely, -⟩ := execution_assured hx (fun _ => .nil) follows
    intro x hx h i hb
    have htime := htimely h x hx i hb
    refine ⟨htime, fun hall => ?_⟩
    obtain ⟨place, -, hchain, hsources⟩ := htime
    refine hsources.imp fun j hreq hserved => ?_
    rcases hserved.origin with hfresh | ⟨hlater, hsame⟩
    · exact hfresh
    · exfalso
      rcases hall with hdep | hnone
      · exact hdep.not_later (hs.turns_nodup h) place hchain hreq hlater
      · have hdone := hserved.done
        rw [Engine.isDone, hsame, ← Engine.isDone, hnone j] at hdone
        cases hdone
  · intro h hf e s' hcourse
    cases e with
    | underWay => exact hrun h hf _ s' hcourse
    | succeeded => exact hrun h hf _ s' hcourse
    | failed fault => exact hrun h hf _ s' hcourse

namespace Sample

/-- The review has its turn before the draft that it takes. -/
def hasty : Flow :=
  { flow with steps := [step review [.redirect draft "draft"], { step draft [] with order := 2 }] }

def hastyRun : Request := .run "acme" "session-0-00000000"

def hastyCreated : Machine :=
  Machine.serve facilities filing create 0 ⟨.opening [hasty] false, []⟩

/-- The flow has been run once. -/
def hastened : Machine := hastyCreated.serve facilities filing hastyRun 9

theorem under_hastyCreated : hastyCreated.Under .lax facilities :=
  .served (fun _ _ => trivial) trivial 0 (.opening [hasty] false)

theorem under_hastened : hastened.Under .lax facilities :=
  under_hastyCreated.served (fun _ _ => trivial) trivial 9

end Sample

/-- The first run starts the review with the draft of that run, though the review has its turn
before the draft. -/
theorem run_sources_fresh_hasty : ∃ s', Execution .faithful
      (Sample.hastyRun.proc Sample.facilities, Sample.hastyCreated.story.enter)
      (.done (.ok .finished), s') ∧
    ∃ x ∈ s'.own, x.event.begun? = some (0, 1) ∧
      Timely Sample.hastyCreated.story.engine 0 x.engine 1 ∧
      (Sample.hastyCreated.story.engine.session 0).outline.EachSource 1 fun j =>
        x.engine.isDoneIn 0 j (x.engine.session 0).generation = true := by
  have hx := Sample.answered_execution Sample.hastyRun Sample.hastyCreated.story
  have hend : (Sample.answered Sample.hastyRun Sample.hastyCreated.story).1 =
      .done (.ok .finished) :=
    Proc.eq_done (α := Except EngineFault SessionState) (by decide +kernel)
  have hbegun : ((Sample.answered Sample.hastyRun Sample.hastyCreated.story).2.own.any fun x =>
      x.event.begun? == some (0, 1)) = true := by decide +kernel
  obtain ⟨x, hm, hb⟩ := List.any_eq_true.mp hbegun
  have hreview : x.event.begun? = some (0, 1) := by simpa using hb
  have hnone : ∀ j, Sample.hastyCreated.story.engine.isDone 0 j = false :=
    Engine.isDone_eq_false (by decide +kernel)
  obtain ⟨htimely, hfresh⟩ := run_sources_fresh Sample.under_hastyCreated hx x hm 0 1 hreview
  exact ⟨_, hend ▸ hx, x, hm, hreview, htimely, hfresh (.inr hnone)⟩

/-- The second run starts the review with the draft of the first run, and finishes. -/
theorem rerun_takes_earlier_output :
    Sample.hastened.Under .lax Sample.facilities ∧ Sample.hastened.stack = [] ∧
    ∃ s', Execution .faithful
      (Sample.hastyRun.proc Sample.facilities, Sample.hastened.story.enter)
      (.done (.ok .finished), s') ∧
    ∃ x ∈ s'.own, x.event.begun? = some (0, 1) ∧ (x.engine.session 0).generation = 2 ∧
      ¬ (Sample.hastened.story.engine.session 0).outline.EachSource 1 fun j =>
        x.engine.isDoneIn 0 j (x.engine.session 0).generation = true := by
  have hx := Sample.answered_execution Sample.hastyRun Sample.hastened.story
  have hend : (Sample.answered Sample.hastyRun Sample.hastened.story).1 =
      .done (.ok .finished) :=
    Proc.eq_done (α := Except EngineFault SessionState) (by decide +kernel)
  have hrest : Sample.hastened.stack = [] := List.isEmpty_iff.mp (by decide +kernel)
  have hbegun : ((Sample.answered Sample.hastyRun Sample.hastened.story).2.own.any fun x =>
      x.event.begun? == some (0, 1) && (x.engine.session 0).generation == 2 &&
        !x.engine.isDoneIn 0 0 (x.engine.session 0).generation) = true := by decide +kernel
  obtain ⟨x, hm, hb⟩ := List.any_eq_true.mp hbegun
  simp only [Bool.and_eq_true, beq_iff_eq, Bool.not_eq_true'] at hb
  obtain ⟨⟨hreview, hgeneration⟩, hold⟩ := hb
  refine ⟨Sample.under_hastened, hrest, _, hend ▸ hx, x, hm, hreview, hgeneration, ?_⟩
  intro hfresh
  obtain ⟨y, hy, hrequired, hsource⟩ : ∃ y,
      (Sample.hastened.story.engine.session 0).outline.steps[1]? = some y ∧ y.required = [0] ∧
        Sample.draft ∈ y.step.sources := by
    refine ⟨⟨"session-0-00000000", Sample.step Sample.review [.redirect Sample.draft "draft"], 1,
      [0]⟩, ?_, rfl, ?_⟩ <;> decide +kernel
  obtain ⟨j, hj, z, -, -, hdone⟩ := hfresh y hy Sample.draft hsource
  rw [hrequired] at hj
  rw [List.mem_singleton.mp hj, hold] at hdone
  cases hdone

end FlowEngine
