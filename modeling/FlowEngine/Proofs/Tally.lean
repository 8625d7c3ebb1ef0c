import FlowEngine.Proofs.StepRuns

/-! # What is in progress

A watch counts, in the events of an operation, what it has begun and not yet brought to an end, and
sees in an engine what is marked as being in progress. An operation keeps a tally: the marks in the
engine are those that it has found at its start and those of what it has itself in progress.
-/
namespace FlowEngine

inductive Turn (β : Type) where
  | opens (x : β)
  | closes (x : β)
  deriving DecidableEq

/-- Things that events open and close, and that are marked in the engine in between. -/
structure Watch (β : Type) where
  turn : Event → Option (Turn β)
  marked : Engine → β → Bool

namespace Watch

/-- From the start of a step to its end the step is running. -/
def dispatches : Watch (Handle × Nat) where
  turn
    | .change (.begin h i _) => some (.opens (h, i))
    | .change (.complete h i _ _) | .change (.fail h i _ _) => some (.closes (h, i))
    | _ => none
  marked e x := e.isRunning x.1 x.2

/-- From the start of a run to its end the session is running. -/
def runs : Watch Handle where
  turn
    | .change (.startRun h) => some (.opens h)
    | .change (.finishRun h) | .change (.failRun h) => some (.closes h)
    | _ => none
  marked e h := (e.session h).state == .running

variable {β : Type} [DecidableEq β]

/-- How often a thing has been opened and not yet closed; the last moment comes first. -/
def inProgress (w : Watch β) (x : β) : List Moment → Nat
  | [] => 0
  | m :: earlier =>
    match w.turn m.event with
    | some (.opens y) => w.inProgress x earlier + if y = x then 1 else 0
    | some (.closes y) => w.inProgress x earlier - if y = x then 1 else 0
    | none => w.inProgress x earlier

def Settled (w : Watch β) (own : List Moment) : Prop :=
  ∀ x, w.inProgress x own = 0

/-- Nothing is in progress, one thing apart. -/
def Only (w : Watch β) (x : β) (own : List Moment) : Prop :=
  ∀ y, y ≠ x → w.inProgress y own = 0

/-- The marks are those of the given engine, and those of what is in progress. -/
def Agrees (w : Watch β) (e : Engine) (s : Situation) : Prop :=
  ∀ x, (w.marked s.engine x).toNat = (w.marked e x).toNat + w.inProgress x s.own

variable {w : Watch β} {x : β} {m : Moment} {own : List Moment} {e : Engine} {s : Situation}

theorem inProgress_ignored (hm : w.turn m.event = none) (y : β) :
    w.inProgress y (m :: own) = w.inProgress y own := by
  rw [inProgress, hm]

theorem inProgress_opened (hm : w.turn m.event = some (.opens x)) (y : β) :
    w.inProgress y (m :: own) = w.inProgress y own + if x = y then 1 else 0 := by
  rw [inProgress, hm]

theorem inProgress_closed (hm : w.turn m.event = some (.closes x)) (y : β) :
    w.inProgress y (m :: own) = w.inProgress y own - if x = y then 1 else 0 := by
  rw [inProgress, hm]

theorem Settled.only (hs : w.Settled own) (x : β) : w.Only x own := fun y _ => hs y

theorem Only.opened (ho : w.Only x own) (hm : w.turn m.event = some (.opens x)) :
    w.Only x (m :: own) := by
  intro y hy
  rw [inProgress_opened hm, if_neg (Ne.symm hy), ho y hy]

theorem Only.closed (ho : w.Only x own) (hone : w.inProgress x own ≤ 1)
    (hm : w.turn m.event = some (.closes x)) : w.Settled (m :: own) := by
  intro y
  rw [inProgress_closed hm]
  by_cases hy : x = y
  · subst hy
    rw [if_pos rfl]
    omega
  · rw [if_neg hy, ho y (Ne.symm hy)]

namespace Agrees

theorem same (ha : w.Agrees e s) (hs : w.Settled s.own) (x : β) :
    w.marked s.engine x = w.marked e x := by
  have h := ha x
  rw [hs x] at h
  cases hm : w.marked s.engine x <;> cases he : w.marked e x <;> simp_all

theorem le_one (ha : w.Agrees e s) (x : β) : w.inProgress x s.own ≤ 1 := by
  have h := ha x
  have hle := Bool.toNat_le (w.marked s.engine x)
  omega

theorem ignored (ha : w.Agrees e s) {s' : Situation} (hm : w.turn m.event = none)
    (hown : s'.own = m :: s.own) (hmark : ∀ y, w.marked s'.engine y = w.marked s.engine y) :
    w.Agrees e s' := by
  intro y
  rw [hown, inProgress_ignored hm, hmark y]
  exact ha y

theorem opened (ha : w.Agrees e s) {s' : Situation} (hm : w.turn m.event = some (.opens x))
    (hown : s'.own = m :: s.own) (hbefore : w.marked s.engine x = false)
    (hafter : w.marked s'.engine x = true)
    (hmark : ∀ y, y ≠ x → w.marked s'.engine y = w.marked s.engine y) : w.Agrees e s' := by
  intro y
  rw [hown, inProgress_opened hm]
  have h := ha y
  by_cases hy : x = y
  · subst hy
    rw [hbefore] at h
    rw [hafter, if_pos rfl]
    simp only [Bool.toNat_false, Bool.toNat_true] at h ⊢
    omega
  · rw [if_neg hy, hmark y (Ne.symm hy)]
    exact h

theorem closed (ha : w.Agrees e s) {s' : Situation} (hm : w.turn m.event = some (.closes x))
    (hown : s'.own = m :: s.own) (hbase : w.marked e x = false)
    (hafter : w.marked s'.engine x = false)
    (hmark : ∀ y, y ≠ x → w.marked s'.engine y = w.marked s.engine y) : w.Agrees e s' := by
  intro y
  rw [hown, inProgress_closed hm]
  by_cases hy : x = y
  · subst hy
    have hle := ha.le_one x
    rw [hafter, hbase, if_pos rfl]
    simp only [Bool.toNat_false]
    omega
  · rw [if_neg hy, hmark y (Ne.symm hy)]
    exact ha y

end Agrees

end Watch

def startedRuns (h : Handle) (past : List Moment) : Nat :=
  past.countP fun m => Watch.runs.turn m.event == some (.opens h)

/-- A story whose engine is sound and numbers the runs of sessions as they are started. -/
structure Story.Proper (s : Story) : Prop where
  sound : s.engine.Sound
  numbered : ∀ h, (s.engine.session h).generation = startedRuns h s.past

/-- The story goes on, and in the end nothing is marked that was not before. -/
structure Story.Calm (s t : Story) : Prop where
  evolves : s.engine.Evolves t.engine
  registry : t.engine.registry = s.engine.registry
  proper : s.Proper → t.Proper
  steps : ∀ x, Watch.dispatches.marked t.engine x = Watch.dispatches.marked s.engine x
  runs : ∀ h, Watch.runs.marked t.engine h = Watch.runs.marked s.engine h

/-- What an operation that began in the story `base` has kept. -/
structure Tally (base : Story) (s : Situation) : Prop where
  evolves : base.engine.Evolves s.engine
  registry : s.engine.registry = base.engine.registry
  proper : s.toStory.Proper
  steps : Watch.dispatches.Agrees base.engine s
  runs : Watch.runs.Agrees base.engine s

/-- A session with which nothing has been done. -/
structure Session.Unused (s : Session) : Prop where
  state : s.state = .created
  generation : s.generation = 0
  idle : ∀ i, (s.record? i).any StepRecord.isRunning = false

theorem Session.unused_vacant : Session.vacant.Unused :=
  ⟨rfl, rfl, fun _ => rfl⟩

theorem Session.unused_new {id tenant : String} {flow : Flow} {now : Int} {s : Session}
    (h : Session.new id tenant flow now = .ok s) : s.Unused := by
  have hidle : ∀ i, (s.record? i).any StepRecord.isRunning = false := by
    intro i
    rw [Option.any_eq_false]
    intro r hr
    rw [Session.new_fresh h hr]
    rfl
  obtain ⟨g, -, rfl⟩ := Session.new_eq h
  exact ⟨rfl, rfl, hidle⟩

section Marks

variable {e : Engine} {c : Change}

theorem Change.unused_apply (hc : c.Welcome e.registry) {h : Handle}
    (hn : ¬ (c.newcomer? = none ∨ h < e.sessions.length)) :
    (e.session h).Unused ∧ ((c.apply e).session h).Unused := by
  obtain ⟨hsome, hle⟩ := not_or.mp hn
  have hbefore : (e.session h).Unused := by
    rw [Engine.session_of_le (Nat.le_of_not_lt hle)]
    exact Session.unused_vacant
  refine ⟨hbefore, ?_⟩
  cases c with
  | enlist s =>
    obtain ⟨id, tenant, flow, now, -, hnew⟩ := hc s rfl
    rw [session_enlist]
    split
    · exact Session.unused_new hnew
    · exact hbefore
  | _ => exact absurd rfl hsome

theorem Change.isRunning_apply (hc : c.Welcome e.registry)
    (hw : Watch.dispatches.turn (.change c) = none) (h : Handle) (i : Nat) :
    (c.apply e).isRunning h i = e.isRunning h i := by
  by_cases hself : c.record? = some (h, i)
  · rw [Engine.isRunning, record?_apply_self hself, Engine.isRunning]
    cases c <;> cases hself <;> first | (cases e.record? h i <;> rfl) | cases hw
  · by_cases hn : c.newcomer? = none ∨ h < e.sessions.length
    · rw [Engine.isRunning, record?_apply hself hn, Engine.isRunning]
    · obtain ⟨hbefore, hafter⟩ := unused_apply hc hn
      exact (hafter.idle i).trans (hbefore.idle i).symm

theorem Change.state_apply_ignored (hc : c.Welcome e.registry)
    (hw : Watch.runs.turn (.change c) = none) (h : Handle) :
    ((c.apply e).session h).state = (e.session h).state := by
  by_cases hn : c.newcomer? = none ∨ h < e.sessions.length
  · have hrun : c.run? ≠ some h := by
      intro hr
      cases c <;> cases hr <;> cases hw
    exact (state_apply hrun hn).1
  · obtain ⟨hbefore, hafter⟩ := unused_apply hc hn
    exact hafter.state.trans hbefore.state.symm

/-- Runs are started of sessions that are there. -/
def Change.Founded (e : Engine) (c : Change) : Prop :=
  ∀ h, c = .startRun h → h < e.sessions.length

theorem Change.generation_apply_founded (hc : c.Welcome e.registry) (hf : c.Founded e)
    (h : Handle) : ((c.apply e).session h).generation =
      (e.session h).generation + if c = .startRun h then 1 else 0 := by
  by_cases hn : c.newcomer? = none ∨ h < e.sessions.length
  · rw [generation_apply c e h hn]
    by_cases hs : c = .startRun h
    · rw [if_pos hs, if_pos ⟨hs, hf h hs⟩]
    · rw [if_neg hs, if_neg fun hp => hs hp.1]
  · obtain ⟨hbefore, hafter⟩ := unused_apply hc hn
    have hs : c ≠ .startRun h := by
      rintro rfl
      exact hn (.inl rfl)
    rw [if_neg hs, hafter.generation, hbefore.generation]

theorem Change.isRunning_apply_self {h : Handle} {i : Nat} (hc : c.record? = some (h, i))
    (running : Bool) (hr : ∀ g r, (c.onRecord g r).isRunning = running) {r : StepRecord}
    (hrec : e.record? h i = some r) : (c.apply e).isRunning h i = running := by
  rw [Engine.isRunning, record?_apply_self hc, hrec]
  exact hr _ r

theorem Change.isRunning_apply_of_ne {h : Handle} {i : Nat} (hc : c.record? = some (h, i))
    {x : Handle × Nat} (hx : x ≠ (h, i)) : (c.apply e).isRunning x.1 x.2 = e.isRunning x.1 x.2 := by
  have hne : c.record? ≠ some (x.1, x.2) := by
    rw [hc]
    exact fun he => hx (Option.some.inj he).symm
  have hn : c.newcomer? = none := by
    cases c <;> first | rfl | cases hc
  rw [Engine.isRunning, record?_apply hne (.inl hn), Engine.isRunning]

end Marks

namespace Story

variable {s : Story} {base t : Story}

theorem startedRuns_change (h : Handle) (s : Situation) (c : Change) :
    startedRuns h (s.change c).past =
      startedRuns h s.past + if c = .startRun h then 1 else 0 := by
  cases c <;> simp [startedRuns, Watch.runs, List.countP_cons]

theorem Proper.change {s : Situation} (hp : s.toStory.Proper) {c : Change}
    (hc : c.Welcome s.engine.registry) (hf : c.Founded s.engine) :
    (s.change c).toStory.Proper := by
  refine ⟨hp.sound.apply hc, fun h => ?_⟩
  have hcount := startedRuns_change h s c
  rw [← hp.numbered h] at hcount
  exact (Change.generation_apply_founded hc hf h).trans hcount.symm

theorem Proper.called {s : Story} (hp : s.Proper) (e : Engine) (c : ProviderCall) (r : c.Outcome) :
    Proper { s with past := ⟨e, .call c r⟩ :: s.past } := by
  refine ⟨hp.sound, fun h => (hp.numbered h).trans ?_⟩
  simp [startedRuns, Watch.runs]

theorem Calm.refl (s : Story) : s.Calm s :=
  ⟨.refl _, rfl, id, fun _ => rfl, fun _ => rfl⟩

theorem Calm.trans {s t u : Story} (h : s.Calm t) (h' : t.Calm u) : s.Calm u :=
  ⟨h.evolves.trans h'.evolves, h'.registry.trans h.registry, fun hp => h'.proper (h.proper hp),
    fun x => (h'.steps x).trans (h.steps x), fun k => (h'.runs k).trans (h.runs k)⟩

theorem calm_flagged (s : Story) (b : Bool) : s.Calm (s.flagged b) := by
  refine ⟨.refl _, rfl, fun hp => ⟨?_, hp.numbered⟩, fun _ => rfl, fun _ => rfl⟩
  exact (Conduct.solitary_keeps Conduct.anyAnswer ⟨b, rfl⟩ hp.sound).1

end Story

/-- Others keep calm while a call is under way; the provider does as it likes. -/
def Conduct.calm : Conduct := ⟨Story.Calm, anyAnswer⟩

theorem Conduct.calm_evolving : Conduct.calm.Evolving := fun h => h.evolves

namespace Tally

variable {base : Story} {s s' : Situation}

theorem enter {s : Story} (hp : s.Proper) : Tally s s.enter :=
  ⟨.refl _, rfl, hp, fun _ => rfl, fun _ => rfl⟩

theorem change (ht : Tally base s) {c : Change} (hc : c.Welcome s.engine.registry)
    (hf : c.Founded s.engine) (hsteps : Watch.dispatches.Agrees base.engine (s.change c))
    (hruns : Watch.runs.Agrees base.engine (s.change c)) : Tally base (s.change c) :=
  ⟨ht.evolves.trans (Change.evolves_apply c _), (Change.registry_apply c _).trans ht.registry,
    ht.proper.change hc hf, hsteps, hruns⟩

theorem steps_ignored (ht : Tally base s) {c : Change} (hc : c.Welcome s.engine.registry)
    (hw : Watch.dispatches.turn (.change c) = none) :
    Watch.dispatches.Agrees base.engine (s.change c) :=
  ht.steps.ignored hw rfl fun x => Change.isRunning_apply hc hw x.1 x.2

theorem runs_ignored (ht : Tally base s) {c : Change} (hc : c.Welcome s.engine.registry)
    (hw : Watch.runs.turn (.change c) = none) :
    Watch.runs.Agrees base.engine (s.change c) :=
  ht.runs.ignored hw rfl fun h =>
    congrArg (· == SessionState.running) (Change.state_apply_ignored hc hw h)

theorem ignored (ht : Tally base s) {c : Change} (hc : c.Welcome s.engine.registry)
    (hd : Watch.dispatches.turn (.change c) = none) (hr : Watch.runs.turn (.change c) = none) :
    Tally base (s.change c) := by
  refine ht.change hc ?_ (ht.steps_ignored hc hd) (ht.runs_ignored hc hr)
  rintro h rfl
  cases hr

theorem called (ht : Tally base s) {c : ProviderCall} {r : c.Outcome}
    (hm : Conduct.calm.Meets s c r s') : Tally base s' := by
  obtain ⟨t, hcalm, -, rfl⟩ := hm
  exact ⟨ht.evolves.trans hcalm.evolves, hcalm.registry.trans ht.registry,
    (hcalm.proper ht.proper).called t.engine c r, ht.steps.ignored rfl rfl hcalm.steps,
    ht.runs.ignored rfl rfl hcalm.runs⟩

end Tally

theorem Change.Quiet.ignored {h : Handle} {i : Option Nat} {c : Change} (hc : c.Quiet h i) :
    Watch.dispatches.turn (.change c) = none := by
  cases c <;> first | rfl | exact hc.elim

theorem Change.OfSteps.ignored {h : Handle} {c : Change} (hc : c.OfSteps h) :
    Watch.runs.turn (.change c) = none := by
  have hrun := hc.run
  cases c <;> first | rfl | cases hrun

section Courses

variable {base : Story} {s s' : Situation} {tenant : String} {h : Handle} {t : SessionOutline}

theorem Quietly.tally {i : Option Nat} (hq : Quietly .calm tenant h i s s')
    (ht : Tally base s) :
    Tally base s' ∧ (∀ x, Watch.dispatches.inProgress x s'.own = Watch.dispatches.inProgress x s.own) ∧
      ∀ k, Watch.runs.inProgress k s'.own = Watch.runs.inProgress k s.own := by
  refine hq.keeps (J := fun s' => Tally base s' ∧
    (∀ x, Watch.dispatches.inProgress x s'.own = Watch.dispatches.inProgress x s.own) ∧
      ∀ k, Watch.runs.inProgress k s'.own = Watch.runs.inProgress k s.own) ?_ ?_
      ⟨ht, fun _ => rfl, fun _ => rfl⟩
  · rintro a c ⟨ha, hsteps, hruns⟩ hc
    have hwelcome := Change.welcome_of_newcomer hc.ofSteps.newcomer a.engine.registry
    refine ⟨ha.ignored hwelcome hc.ignored hc.ofSteps.ignored, fun x => ?_, fun k => ?_⟩
    · exact (Watch.inProgress_ignored hc.ignored x).trans (hsteps x)
    · exact (Watch.inProgress_ignored hc.ofSteps.ignored k).trans (hruns k)
  · rintro a c r b ⟨ha, hsteps, hruns⟩ - hm
    refine ⟨ha.called hm, ?_⟩
    obtain ⟨u, -, -, rfl⟩ := hm
    refine ⟨fun x => ?_, fun k => ?_⟩
    · exact (Watch.inProgress_ignored rfl x).trans (hsteps x)
    · exact (Watch.inProgress_ignored rfl k).trans (hruns k)

theorem Course.runs {K : Conduct} {o : StepOrder} {task : Task} {e : Ending}
    (hx : Course K o t task s e s') (k : Handle) :
    Watch.runs.inProgress k s'.own = Watch.runs.inProgress k s.own := by
  refine hx.keeps (J := fun s' => Watch.runs.inProgress k s'.own = Watch.runs.inProgress k s.own)
    ?_ ?_ rfl
  · exact fun a c ha hc => (Watch.inProgress_ignored hc.ignored k).trans ha
  · rintro a c r b ha - ⟨u, -, -, rfl⟩
    exact (Watch.inProgress_ignored rfl k).trans ha

theorem Change.founded_of_ignored {c : Change} (hc : Watch.runs.turn (.change c) = none)
    (e : Engine) : c.Founded e := by
  rintro h rfl
  cases hc

theorem Tally.begun (ht : Tally base s) {i : Nat} {now : Int} {r : StepRecord}
    (hr : s.engine.record? h i = some r) (hidle : r.isRunning = false) :
    Tally base (s.change (.begin h i now)) := by
  have hbefore : s.engine.isRunning h i = false := by
    rw [Engine.isRunning, hr]
    exact hidle
  have hwelcome := Change.welcome_of_newcomer (c := .begin h i now) rfl s.engine.registry
  refine ht.change hwelcome (Change.founded_of_ignored rfl _) ?_ (ht.runs_ignored hwelcome rfl)
  refine ht.steps.opened (x := (h, i)) rfl rfl hbefore ?_ ?_
  · refine Change.isRunning_apply_self rfl true (fun g r => ?_) hr
    simp [Change.onRecord, StepRecord.isRunning]
  · exact fun x hx => Change.isRunning_apply_of_ne rfl hx

theorem Tally.ended (ht : Tally base s) {i : Nat} {c : Change} (hc : c.record? = some (h, i))
    (hturn : Watch.dispatches.turn (.change c) = some (.closes (h, i)))
    (hbase : base.engine.isRunning h i = false) : Tally base (s.change c) := by
  have hsteps : c.OfSteps h := .inr ⟨i, hc⟩
  have hwelcome := Change.welcome_of_newcomer hsteps.newcomer s.engine.registry
  refine ht.change hwelcome (Change.founded_of_ignored hsteps.ignored _) ?_
    (ht.runs_ignored hwelcome hsteps.ignored)
  refine ht.steps.closed (x := (h, i)) hturn rfl hbase ?_ fun x hx =>
    Change.isRunning_apply_of_ne hc hx
  cases hrec : s.engine.record? h i with
  | none =>
    show (c.apply s.engine).isRunning h i = false
    rw [Engine.isRunning, Change.record?_apply_self hc, hrec]
    rfl
  | some r =>
    refine Change.isRunning_apply_self hc false (fun g r => ?_) hrec
    cases c <;> cases hturn <;> rfl

theorem Tally.dispatched {i : Nat} {now : Int} {r : StepRecord} {c : Change} {s'' : Situation}
    (ht : Tally base s) (hs : Watch.dispatches.Settled s.own)
    (hr : s.engine.record? h i = some r) (hidle : r.isRunning = false)
    (hb : Quietly .calm tenant h (some i) (s.change (.begin h i now)) s')
    (hc : c.record? = some (h, i))
    (hturn : Watch.dispatches.turn (.change c) = some (.closes (h, i)))
    (hq : Quietly .calm tenant h none (s'.change c) s'') :
    Tally base s'' ∧ Watch.dispatches.Settled s''.own := by
  have hbase : base.engine.isRunning h i = false := by
    have hrun : s.engine.isRunning h i = false := by
      rw [Engine.isRunning, hr]
      exact hidle
    exact (ht.steps.same hs (h, i)).symm.trans hrun
  obtain ⟨ht', hsame, -⟩ := hb.tally (ht.begun hr hidle)
  have honly : Watch.dispatches.Only (h, i) s'.own := by
    intro x hx
    rw [hsame]
    exact (hs.only (h, i)).opened (m := ⟨s.engine, .change (.begin h i now)⟩) rfl x hx
  have hsettled := honly.closed (ht'.steps.le_one _) (m := ⟨s'.engine, .change c⟩) hturn
  obtain ⟨ht'', hsame', -⟩ := hq.tally (ht'.ended hc hturn hbase)
  exact ⟨ht'', fun x => (hsame' x).trans (hsettled x)⟩

/-- What a task has to find: a step whose required steps are run is not running. -/
def Task.Idle (h : Handle) (e : Engine) : Task → Prop
  | .required i _ => e.isRunning h i = false
  | _ => True

/-- A task that has come to its end has nothing left in progress. -/
theorem Course.tally {o : StepOrder} {task : Task} {e : Ending}
    (hx : Course .calm o t task s e s') (ht : Tally base s)
    (hs : Watch.dispatches.Settled s.own) (hidle : task.Idle o.session base.engine) :
    Tally base s' ∧ (e ≠ .underWay → Watch.dispatches.Settled s'.own) := by
  induction hx with
  | halted => exact ⟨ht, fun he => absurd rfl he⟩
  | busy => exact ⟨ht, fun _ => hs⟩
  | @unready i x s e s' hy hrun hr he ih =>
    exact ih ht hs ((ht.steps.same hs (o.session, i)).symm.trans hrun)
  | @ready i x s s' e s'' hy hrun hr ha ihr iha =>
    obtain ⟨ht', hs'⟩ := ihr ht hs ((ht.steps.same hs (o.session, i)).symm.trans hrun)
    exact iha ht' (hs' nofun) trivial
  | none => exact ⟨ht, fun _ => hs⟩
  | settled hreq hd hr ih => exact ih ht hs hidle
  | next hreq hd hg hr ihg ihr =>
    obtain ⟨ht', hs'⟩ := ihg ht hs trivial
    exact ihr ht' (hs' nofun) hidle
  | passed hreq hd hg he ih => exact ih ht hs trivial
  | @blamed i j rest x y s cause s' fault now e s'' hy hz hreq hd hg hl hf hq he ih =>
    obtain ⟨ht', hs'⟩ := ih ht hs trivial
    have hlast := ((hs' nofun).only (o.session, i)).closed (ht'.steps.le_one _)
      (m := ⟨s'.engine, .change (.fail o.session i fault.message now)⟩) rfl
    obtain ⟨hafter, hsame, -⟩ := hq.tally (ht'.ended rfl rfl hidle)
    exact ⟨hafter, fun _ x => (hsame x).trans (hlast x)⟩
  | refused => exact ⟨ht, fun _ => hs⟩
  | begun hr hrun hb =>
    obtain ⟨hafter, -⟩ := hb.tally (ht.begun hr hrun)
    exact ⟨hafter, fun he => absurd rfl he⟩
  | done hr hrun hb hq he =>
    obtain ⟨ht', hs'⟩ := ht.dispatched hs hr hrun hb rfl rfl hq
    exact ⟨ht', fun _ => hs'⟩
  | failed hr hrun hb hf hq he =>
    obtain ⟨ht', hs'⟩ := ht.dispatched hs hr hrun hb rfl rfl hq
    exact ⟨ht', fun _ => hs'⟩
  | ended => exact ⟨ht, fun _ => hs⟩
  | skipped hd hr ih => exact ih ht hs trivial
  | taken hd hg hr ihg ihr =>
    obtain ⟨ht', hs'⟩ := ihg ht hs trivial
    exact ihr ht' (hs' nofun) trivial
  | broken hd hg he ih => exact ih ht hs trivial

theorem Tally.started (ht : Tally base s) (hlt : h < s.engine.sessions.length)
    (hstate : (s.engine.session h).state ≠ .running) : Tally base (s.change (.startRun h)) := by
  have hwelcome := Change.welcome_of_newcomer (c := .startRun h) rfl s.engine.registry
  refine ht.change hwelcome ?_ (ht.steps_ignored hwelcome rfl) ?_
  · rintro k ⟨⟩
    exact hlt
  · refine ht.runs.opened (x := h) rfl rfl (by simpa [Watch.runs] using hstate) ?_ ?_
    · have hself := Engine.session_modifySession_self hlt Session.started
      exact congrArg (fun a => a.state == SessionState.running) hself
    · intro k hk
      have hsame := Engine.session_modifySession_of_ne hk s.engine Session.started
      exact congrArg (fun a => a.state == SessionState.running) hsame

theorem Tally.closed (ht : Tally base s) {c : Change} (hc : c = .finishRun h ∨ c = .failRun h)
    (hlt : h < s.engine.sessions.length)
    (hbase : (base.engine.session h).state ≠ .running) : Tally base (s.change c) := by
  have hd : Watch.dispatches.turn (.change c) = none := by
    rcases hc with rfl | rfl <;> rfl
  have hn : c.newcomer? = none := by
    rcases hc with rfl | rfl <;> rfl
  have hwelcome := Change.welcome_of_newcomer hn s.engine.registry
  refine ht.change hwelcome ?_ (ht.steps_ignored hwelcome hd) ?_
  · rcases hc with rfl | rfl <;> nofun
  · refine ht.runs.closed (x := h) (m := ⟨s.engine, .change c⟩) ?_ rfl
      (by simpa [Watch.runs] using hbase) ?_ ?_
    · rcases hc with rfl | rfl <;> rfl
    · rcases hc with rfl | rfl <;>
        exact congrArg (fun a => a.state == SessionState.running)
          (Engine.session_modifySession_self hlt _)
    · intro k hk
      rcases hc with rfl | rfl <;>
        exact congrArg (fun a => a.state == SessionState.running)
          (Engine.session_modifySession_of_ne hk _ _)

def Finished (own : List Moment) : Prop :=
  Watch.dispatches.Settled own ∧ Watch.runs.Settled own

/-- A run of the session is in progress, and no step. -/
structure AtWork (base : Story) (h : Handle) (s : Situation) : Prop where
  tally : Tally base s
  settled : Watch.dispatches.Settled s.own
  only : Watch.runs.Only h s.own
  hosted : h < s.engine.sessions.length

theorem AtWork.start (ht : Tally base s) (hs : Finished s.own) (hlt : h < s.engine.sessions.length)
    (hstate : (s.engine.session h).state ≠ .running) : AtWork base h (s.change (.startRun h)) := by
  refine ⟨ht.started hlt hstate, fun x => ?_, ?_, ?_⟩
  · exact (Watch.inProgress_ignored rfl x).trans (hs.1 x)
  · exact (hs.2.only h).opened (m := ⟨s.engine, .change (.startRun h)⟩) rfl
  · exact Nat.lt_of_lt_of_le hlt (Engine.length_sessions_le _ _)

theorem Work.tally {g : Nat} {e : Ending} (hx : Work .calm tenant h t g s e s')
    (hw : AtWork base h s) : Tally base s' ∧ (e ≠ .underWay → AtWork base h s') := by
  have hosted : h < s'.engine.sessions.length :=
    ((Engine.hosts_of_lt hw.hosted).evolve (hx.evolves Conduct.calm_evolving)).lt
  cases hx with
  | uploads hq he =>
    obtain ⟨ht, hsame, hruns⟩ := hq.tally hw.tally
    exact ⟨ht, fun _ => ⟨ht, fun x => (hsame x).trans (hw.settled x),
      fun k hk => (hruns k).trans (hw.only k hk), hosted⟩⟩
  | steps hq horder hx =>
    obtain ⟨ht, hsame, hruns⟩ := hq.tally hw.tally
    obtain ⟨ht', hs'⟩ := hx.tally ht (fun x => (hsame x).trans (hw.settled x)) trivial
    exact ⟨ht', fun he => ⟨ht', hs' he,
      fun k hk => (hx.runs k).trans ((hruns k).trans (hw.only k hk)), hosted⟩⟩

theorem AtWork.close (hw : AtWork base h s) {c : Change} (hc : c = .finishRun h ∨ c = .failRun h)
    (hbase : (base.engine.session h).state ≠ .running)
    (hq : Quietly .calm tenant h none (s.change c) s') : Tally base s' ∧ Finished s'.own := by
  have hd : Watch.dispatches.turn (.change c) = none := by
    rcases hc with rfl | rfl <;> rfl
  have hr : Watch.runs.turn (.change c) = some (.closes h) := by
    rcases hc with rfl | rfl <;> rfl
  obtain ⟨ht, hsteps, hruns⟩ := hq.tally (hw.tally.closed hc hw.hosted hbase)
  have hsettled := hw.only.closed (hw.tally.runs.le_one h) (m := ⟨s.engine, .change c⟩) hr
  refine ⟨ht, fun x => ?_, fun k => (hruns k).trans (hsettled k)⟩
  exact (hsteps x).trans ((Watch.inProgress_ignored hd x).trans (hw.settled x))

theorem RunCourse.tally {e : Ending} (hx : RunCourse .calm tenant h t s e s')
    (ht : Tally base s) (hs : Finished s.own) (hlt : h < s.engine.sessions.length) :
    Tally base s' ∧ (e ≠ .underWay → Finished s'.own) := by
  have hbase : (s.engine.session h).state ≠ .running →
      (base.engine.session h).state ≠ .running := by
    intro hstate hrun
    exact hstate (by simpa [Watch.runs, hrun] using ht.runs.same hs.2 h)
  cases hx with
  | working hstate hw =>
    obtain ⟨ht', -⟩ := hw.tally (.start ht hs hlt hstate)
    exact ⟨ht', fun he => absurd rfl he⟩
  | finished hstate hw hq he =>
    obtain ⟨-, hwork⟩ := hw.tally (.start ht hs hlt hstate)
    obtain ⟨ht', hs'⟩ := (hwork nofun).close (.inl rfl) (hbase hstate) hq
    exact ⟨ht', fun _ => hs'⟩
  | failed hstate hw hq he =>
    obtain ⟨-, hwork⟩ := hw.tally (.start ht hs hlt hstate)
    obtain ⟨ht', hs'⟩ := (hwork nofun).close (.inr rfl) (hbase hstate) hq
    exact ⟨ht', fun _ => hs'⟩

end Courses

/-- Whatever is done outside of runs is noticed by no watch. -/
def Scope.unwatched (r : Registry) : Scope where
  sees e := e.registry = r
  makes c := c.Welcome r ∧ Watch.dispatches.turn (.change c) = none ∧
    Watch.runs.turn (.change c) = none
  calls _ := True

theorem Scope.unwatched_requests (r : Registry) : (Scope.unwatched r).Requests r := by
  have quiet : ∀ {c : Change}, c.newcomer? = none → c.Welcome r :=
    fun hc => Change.welcome_of_newcomer hc r
  refine ⟨⟨fun _ => ⟨quiet rfl, rfl, rfl⟩, fun _ _ => ⟨quiet rfl, rfl, rfl⟩,
    fun _ => ⟨quiet rfl, rfl, rfl⟩, fun _ => ⟨quiet rfl, rfl, rfl⟩, fun _ _ => trivial⟩,
    fun _ => id, ?_⟩
  intro s id tenant flow now hf hnew
  refine ⟨?_, rfl, rfl⟩
  rintro s' ⟨⟩
  exact ⟨id, tenant, flow, now, hf, hnew⟩

/-- Every operation keeps a tally, and ends with nothing in progress. -/
theorem Request.tally (f : Facilities) (q : Request) {s : Story} (hs : s.Proper) :
    (q.proc f).Assures .calm (Tally s) (fun _ s' => Tally s s' ∧ Finished s'.own) s.enter := by
  have hfinished : Finished s.enter.own := ⟨fun _ => rfl, fun _ => rfl⟩
  have hstart : Tally s s.enter ∧ Finished s.enter.own := ⟨Tally.enter hs, hfinished⟩
  by_cases hq : q.Runs
  · cases q with
    | runStep tenant id step userInput withRequired =>
      refine (Sessions.runStep_follows (s := s.enter)
        Conduct.calm_evolving hs.sound f tenant id step userInput withRequired
        (I := Tally s) (Q := fun _ s' => Tally s s' ∧ Finished s'.own)
        (F := fun _ s' => Tally s s' ∧ Finished s'.own) (fun _ => hstart) ?_).proc
      intro h i y hf hy e s' hx
      obtain ⟨ht, hdone⟩ := hx.tally hstart.1 hfinished.1 trivial
      have hruns : Watch.runs.Settled s'.own := hx.runs
      cases e with
      | underWay => exact ht
      | succeeded => exact fun _ => ⟨ht, hdone (by simp), hruns⟩
      | failed fault => exact ⟨ht, hdone (by simp), hruns⟩
    | run tenant id =>
      refine (Sessions.run_follows (s := s.enter)
        Conduct.calm_evolving hs.sound f tenant id
        (I := Tally s) (Q := fun _ s' => Tally s s' ∧ Finished s'.own)
        (F := fun _ s' => Tally s s' ∧ Finished s'.own) (fun _ => hstart) ?_).proc
      intro h hf e s' hx
      have hlt := (Sessions.find?_hosts hs.sound hf).lt
      obtain ⟨ht, hdone⟩ := hx.tally hstart.1 hfinished hlt
      cases e with
      | underWay => exact ht
      | succeeded => exact ⟨ht, hdone (by simp)⟩
      | failed fault => exact ⟨ht, hdone (by simp)⟩
    | _ => exact absurd hq id
  · have hw := within_of_not_runs (Scope.unwatched_requests s.engine.registry) f hq
    have ha := Proc.Within.assures (K := .calm)
      (J := fun s' => Tally s s' ∧ Finished s'.own) ?_ ?_ ?_ hw hstart
    · exact ha.mono (fun _ h => h.1) (fun _ _ h => h.2)
    · exact fun a ha => ha.1.registry
    · rintro a c ⟨ha, hdone⟩ ⟨hc, hd, hr⟩
      refine ⟨ha.ignored (ha.registry ▸ hc) hd hr, fun x => ?_, fun k => ?_⟩
      · exact (Watch.inProgress_ignored hd x).trans (hdone.1 x)
      · exact (Watch.inProgress_ignored hr k).trans (hdone.2 k)
    · rintro a c r b ⟨ha, hdone⟩ - hm
      refine ⟨ha.called hm, ?_⟩
      obtain ⟨u, -, -, rfl⟩ := hm
      refine ⟨fun x => ?_, fun k => ?_⟩
      · exact (Watch.inProgress_ignored rfl x).trans (hdone.1 x)
      · exact (Watch.inProgress_ignored rfl k).trans (hdone.2 k)

end FlowEngine
