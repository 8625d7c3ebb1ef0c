import FlowEngine.Proofs.Handover
import Mathlib.Algebra.Order.BigOperators.Group.List
import Mathlib.Algebra.Order.Group.Nat

/-! # What a sweep removes

A sweep removes a session that is due: none of its steps is running, and it has rested for longer
than its flow allows. A run that is in progress protects its session only while it has a step
running. It calls the provider before that as well, for the values that have no file yet; the
moments of a run show which of the two a call belongs to.
-/
namespace FlowEngine

variable {α : Type}

def Proc.change? : Proc α → Option Change
  | .update c _ => some c
  | _ => none

def Proc.call? : Proc α → Option ProviderCall
  | .call c _ => some c
  | _ => none

theorem Proc.eq_update {p : Proc α} {c : Change} (h : p.change? = some c) :
    ∃ next, p = .update c next := by
  cases p <;> cases h
  exact ⟨_, rfl⟩

theorem Proc.eq_call {p : Proc α} {c : ProviderCall} (h : p.call? = some c) :
    ∃ next, p = .call c next := by
  cases p <;> cases h
  exact ⟨_, rfl⟩

/-! ## What operations in progress keep -/

/-- During a call anything may happen, except to the flows. -/
def Conduct.steady : Conduct where
  meanwhile s t := t.engine.registry = s.engine.registry
  answers := anyAnswer

theorem Conduct.immediate_steady : Conduct.immediate.Within .steady := by
  refine ⟨?_, id⟩
  rintro s t rfl
  rfl

/-- The moments of the operation are as they should be, and will be from here. -/
def Frame.Keeps (P : Request → List Moment → Prop) (fr : Frame) (now : Story) : Prop :=
  P fr.request fr.own ∧
    fr.rest.Assures .steady (fun s => P fr.request s.own) (fun _ _ => True) ⟨now, fr.own⟩

/-- All operations in progress keep what is to be kept; those that wait do so in whatever story. -/
structure Machine.Keeps (P : Request → List Moment → Prop) (r : Registry) (m : Machine) : Prop where
  registry : m.story.engine.registry = r
  innermost : ∀ fr ∈ m.stack.head?, fr.Keeps P m.story
  waiting : ∀ fr ∈ m.stack.tail, (∃ c next, fr.rest = .call c next) ∧
    ∀ t : Story, t.engine.registry = r → fr.Keeps P t

section Keeps

variable {P : Request → List Moment → Prop} {f : Facilities} {r : Registry}

theorem Frame.Keeps.waits {fr : Frame} {now t : Story} (h : fr.Keeps P now)
    (hw : ∃ c next, fr.rest = .call c next)
    (ht : t.engine.registry = now.engine.registry) : fr.Keeps P t := by
  obtain ⟨c, next, hcall⟩ := hw
  obtain ⟨hown, hrest⟩ := h
  refine ⟨hown, ?_⟩
  rw [hcall] at hrest ⊢
  rintro a s' ⟨u, hu, hanswer, rfl⟩
  exact hrest a _ ⟨u, hu.trans ht, hanswer, rfl⟩

theorem Frame.Keeps.change {fr : Frame} {now : Story} {c : Change} (h : fr.Keeps P now)
    (hc : fr.rest.change? = some c) : P fr.request (⟨now.engine, .change c⟩ :: fr.own) := by
  obtain ⟨next, hnext⟩ := Proc.eq_update hc
  obtain ⟨-, hrest⟩ := h
  rw [hnext] at hrest
  exact hrest.1

theorem Frame.Keeps.call {fr : Frame} {now : Story} {c : ProviderCall} (h : fr.Keeps P now)
    (hc : fr.rest.call? = some c) (a : c.Outcome) :
    P fr.request (⟨now.engine, .call c a⟩ :: fr.own) := by
  obtain ⟨next, hnext⟩ := Proc.eq_call hc
  obtain ⟨-, hrest⟩ := h
  rw [hnext] at hrest
  exact (hrest a _ ⟨now, rfl, trivial, rfl⟩).1

theorem Move.registry {K : Conduct} (hK : K.Within .steady) {x y : Point α} (h : Move K x y) :
    y.2.engine.registry = x.2.engine.registry := by
  cases h with
  | update => exact Change.registry_apply _ _
  | @call c next s r s' hm =>
    obtain ⟨t, ht, -, rfl⟩ := hm
    have hsteady : t.engine.registry = s.engine.registry := hK.meanwhile ht
    exact hsteady
  | _ => rfl

namespace Machine

/-- What is kept by every request is kept by all operations in progress. -/
theorem Keeps.step (hnil : ∀ q, P q [])
    (hproc : ∀ (q : Request) (s : Story),
      (q.proc f).Assures .steady (fun s => P q s.own) (fun _ _ => True) s.enter)
    {m m' : Machine} (hm : m.Keeps P r) (h : m.Step f m') : m'.Keeps P r := by
  obtain ⟨hregistry, hinner, hwaiting⟩ := hm
  have tail : ∀ {stack : List Frame}, stack = m.stack → Waiting stack →
      ∀ fr ∈ stack, (∃ c next, fr.rest = .call c next) ∧
        ∀ t : Story, t.engine.registry = r → fr.Keeps P t := by
    intro stack hs hw fr hfr
    subst hs
    cases hstack : m.stack with
    | nil => rw [hstack] at hfr; cases hfr
    | cons top below =>
      rw [hstack] at hfr hinner hwaiting hw
      rcases List.mem_cons.mp hfr with rfl | hfr
      · exact ⟨hw _ rfl, fun t ht => (hinner _ rfl).waits (hw _ rfl) (ht.trans hregistry.symm)⟩
      · exact hwaiting fr hfr
  cases h with
  | flag b hw =>
    refine ⟨hregistry, fun fr hfr => ?_, hwaiting⟩
    exact (hinner fr hfr).waits (hw fr hfr) rfl
  | enter q hw =>
    refine ⟨hregistry, ?_, tail rfl hw⟩
    rintro fr ⟨⟩
    exact ⟨hnil q, hproc q _⟩
  | act hmove =>
    have hsame := hmove.registry Conduct.immediate_steady
    refine ⟨hsame.trans hregistry, ?_, hwaiting⟩
    rintro fr ⟨⟩
    obtain ⟨hown, hrest⟩ := hinner _ rfl
    exact move_assured Conduct.immediate_steady hmove hown hrest
  | @leave story own below q v =>
    refine ⟨hregistry, fun fr hfr => ?_, fun fr hfr => hwaiting fr (List.mem_of_mem_tail hfr)⟩
    exact (hwaiting fr (List.mem_of_mem_head? hfr)).2 _ hregistry

theorem Reachable.keeps (hnil : ∀ q, P q [])
    (hproc : ∀ (q : Request) (s : Story),
      (q.proc f).Assures .steady (fun s => P q s.own) (fun _ _ => True) s.enter) {m : Machine}
    (hm : Reachable f m) : ∃ r, m.Keeps P r := by
  induction hm with
  | opening flows logging => exact ⟨_, rfl, nofun, nofun⟩
  | step _ hs ih =>
    obtain ⟨r, hk⟩ := ih
    exact ⟨r, hk.step hnil hproc hs⟩

end Machine

end Keeps

/-! ## Calls of a run -/

def Unbegun (own : List Moment) : Prop :=
  ∀ m ∈ own, ∀ x, Watch.dispatches.turn m.event ≠ some (.opens x)

/-- A call that has been made in a run was made for a step in progress, or for files before the
first step. -/
def CallsInPlace : List Moment → Prop
  | ⟨_, .call c _⟩ :: earlier => ∀ h, Watch.runs.inProgress h earlier ≠ 0 →
      (∃ i, Watch.dispatches.inProgress (h, i) earlier ≠ 0) ∨ (Unbegun earlier ∧ ¬ c.Fileless)
  | _ => True

theorem Unbegun.nil : Unbegun [] :=
  fun _ hm => absurd hm List.not_mem_nil

theorem Unbegun.cons {m : Moment} {own : List Moment} (hu : Unbegun own)
    (hm : Watch.dispatches.turn m.event = none) : Unbegun (m :: own) := by
  intro m' hm' x
  rcases List.mem_cons.mp hm' with rfl | hm'
  · rw [hm]
    nofun
  · exact hu m' hm' x

theorem Watch.Only.ignored {β : Type} [DecidableEq β] {w : Watch β} {x : β} {m : Moment}
    {own : List Moment} (ho : w.Only x own) (hm : w.turn m.event = none) : w.Only x (m :: own) := by
  intro y hy
  rw [inProgress_ignored hm, ho y hy]

theorem Watch.Settled.ignored {β : Type} [DecidableEq β] {w : Watch β} {m : Moment}
    {own : List Moment} (hs : w.Settled own) (hm : w.turn m.event = none) :
    w.Settled (m :: own) := by
  intro y
  rw [inProgress_ignored hm, hs y]

/-- Bounds within which no step and no run is started or ended. -/
def Scope.still (calls : ProviderCall → Prop) : Scope where
  sees _ := True
  makes c := Watch.dispatches.turn (.change c) = none ∧ Watch.runs.turn (.change c) = none
  calls := calls

section Runs

variable {h : Handle} {i : Nat} {s : Situation} {V : α → Prop} {G : EngineFault → Prop}

theorem Attempt.Within.inDispatch {a : Attempt α} (ha : a.Within (.still fun _ => True) V G)
    (ho : Watch.runs.Only h s.own) (hi : Watch.dispatches.inProgress (h, i) s.own ≠ 0)
    (hs : CallsInPlace s.own) :
    a.Assures .steady (fun s' => CallsInPlace s'.own)
      (fun _ s' => Watch.runs.Only h s'.own) (fun _ s' => Watch.runs.Only h s'.own) s := by
  have hall := ha.assures (K := .steady) (J := fun s' => Watch.runs.Only h s'.own ∧
    Watch.dispatches.inProgress (h, i) s'.own ≠ 0 ∧ CallsInPlace s'.own)
    (fun _ _ => trivial) ?_ ?_ ⟨ho, hi, hs⟩
  · exact hall.mono (fun _ hs => hs.2.2) (fun _ _ hs => hs.2.1) fun _ _ hs => hs.2.1
  · rintro s' c ⟨ho', hi', -⟩ ⟨hd, hr⟩
    exact ⟨ho'.ignored hr, by rwa [Situation.change_own, Watch.inProgress_ignored hd], trivial⟩
  · rintro s' c r s'' ⟨ho', hi', -⟩ - ⟨t, -, -, rfl⟩
    refine ⟨ho'.ignored rfl, by rwa [Situation.called_own, Watch.inProgress_ignored rfl], ?_⟩
    intro k hk
    have hk : k = h := by
      by_contra hne
      exact hk (ho' k hne)
    exact .inl ⟨i, hk ▸ hi'⟩

theorem Attempt.Within.beforeSteps {a : Attempt α}
    (ha : a.Within (.still fun c => ¬ c.Fileless) V G) (ho : Watch.runs.Only h s.own)
    (hu : Unbegun s.own) (hs : CallsInPlace s.own) :
    a.Assures .steady (fun s' => CallsInPlace s'.own)
      (fun _ s' => Watch.runs.Only h s'.own) (fun _ s' => Watch.runs.Only h s'.own) s := by
  have hall := ha.assures (K := .steady) (J := fun s' => Watch.runs.Only h s'.own ∧
    Unbegun s'.own ∧ CallsInPlace s'.own) (fun _ _ => trivial) ?_ ?_ ⟨ho, hu, hs⟩
  · exact hall.mono (fun _ hs => hs.2.2) (fun _ _ hs => hs.2.1) fun _ _ hs => hs.2.1
  · rintro s' c ⟨ho', hu', -⟩ ⟨hd, hr⟩
    exact ⟨ho'.ignored hr, hu'.cons hd, trivial⟩
  · rintro s' c r s'' ⟨ho', hu', -⟩ hc ⟨t, -, -, rfl⟩
    exact ⟨ho'.ignored rfl, hu'.cons rfl, fun _ _ => .inr ⟨hu', hc⟩⟩

end Runs

namespace Steps

variable {o : StepOrder} {s : Situation} (d : Dispatcher)

/-- In a run the operation makes calls in place, and the run goes on after it. -/
abbrev InPlace (h : Handle) (a : Attempt α) : Prop :=
  ∀ s : Situation, Watch.runs.Only h s.own → a.Assures .steady (fun s' => CallsInPlace s'.own)
    (fun _ s' => Watch.runs.Only h s'.own) (fun _ s' => Watch.runs.Only h s'.own) s

theorem recordFailure_inPlace (x : StepExecution) (fault : EngineFault)
    (ho : Watch.runs.Only o.session s.own) :
    (recordFailure o x fault).Assures .steady (fun s' => CallsInPlace s'.own)
      (fun _ s' => Watch.runs.Only o.session s'.own) s := by
  simp only [recordFailure, Proc.assures_bind', Proc.assures_now, Proc.assures_change,
    Proc.assures_session, Proc.assures_log]
  exact fun now => ⟨trivial, trivial, (ho.ignored rfl).ignored rfl⟩

theorem runAlone_inPlace (x : StepExecution) : InPlace o.session (runAlone d o x) := by
  intro s ho
  simp only [runAlone, enterRunning, Attempt.assures_bind, Attempt.assures_lift,
    Proc.assures_now, Proc.assures_session]
  intro now
  split
  · exact ho
  · simp only [Attempt.assures_bind, Attempt.assures_lift, Proc.assures_change, Proc.assures_log,
      Attempt.assures_outcome]
    refine ⟨trivial, trivial, ?_⟩
    have hnotes : (Scope.still fun _ => True).Notes o.tenant o.session x.index :=
      ⟨⟨fun _ => ⟨rfl, rfl⟩, fun _ => ⟨rfl, rfl⟩, fun _ _ => trivial⟩, fun _ => ⟨rfl, rfl⟩,
        fun _ => ⟨rfl, rfl⟩⟩
    have hbegun : Watch.dispatches.inProgress (o.session, x.index)
        ((s.change (.begin o.session x.index now)).own) ≠ 0 := by
      rw [Situation.change_own, Watch.inProgress_opened rfl, if_pos rfl]
      exact Nat.succ_ne_zero _
    have hlogged : ∀ r, Watch.dispatches.inProgress (o.session, x.index)
        ((s.change (.begin o.session x.index now)).change (.log r)).own ≠ 0 := by
      intro r
      rwa [Situation.change_own, Watch.inProgress_ignored rfl]
    have hrun : ∀ r, Watch.runs.Only o.session
        ((s.change (.begin o.session x.index now)).change (.log r)).own :=
      fun _ => (ho.ignored rfl).ignored rfl
    have hplaced : ∀ r, CallsInPlace
        ((s.change (.begin o.session x.index now)).change (.log r)).own := fun _ => trivial
    refine Attempt.Assures.imp
      ((dispatch_within hnotes d).inDispatch (hrun _) (hlogged _) (hplaced _)) ?_ ?_
    · intro outcome s' ho'
      simp only [recordOutcome, Proc.assures_bind', Proc.assures_now, Proc.assures_session,
        Proc.assures_change, Proc.assures_log, Proc.assures_pure]
      exact fun _ => ⟨trivial, trivial, (ho'.ignored rfl).ignored rfl⟩
    · intro fault s' ho'
      exact recordFailure_inPlace x fault ho'

theorem runRequired_inPlace {run : String → Attempt StepReport}
    (hrun : ∀ step, InPlace o.session (run step)) (x required : StepExecution) :
    InPlace o.session (runRequired run o x required) := by
  intro s ho
  simp only [runRequired, Attempt.assures_bind, Attempt.assures_lift, Proc.assures_session]
  split
  · exact ho
  · simp only [Attempt.assures_bind, Attempt.assures_outcome]
    refine (hrun _ s ho).imp (fun _ _ ho' => ho') ?_
    intro fault s' ho'
    split
    · exact ho'
    · simp only [Attempt.assures_bind, Attempt.assures_lift, Attempt.assures_throw]
      exact recordFailure_inPlace x _ ho'

theorem runGuarded_inPlace (depth : Nat) (active : List String) (step : String) :
    InPlace o.session (runGuarded d o depth active step) := by
  induction depth generalizing active step with
  | zero =>
    intro s ho
    simp only [runGuarded, Attempt.assures_bind, Attempt.assures_lift, Proc.assures_session,
      Attempt.assures_ofExcept]
    refine ⟨fun x _ => ?_, fun _ _ => ho⟩
    split
    · exact ho
    · split <;> exact ho
  | succ depth ih =>
    intro s ho
    simp only [runGuarded_succ, Attempt.assures_bind, Attempt.assures_lift, Proc.assures_session,
      Attempt.assures_ofExcept]
    refine ⟨fun x _ => ?_, fun _ _ => ho⟩
    split
    · exact ho
    · split
      · exact ho
      · refine (Attempt.assures_forM (J := fun _ s' => Watch.runs.Only o.session s'.own) ?_ _
          ho).bind fun _ s' ho' => runAlone_inPlace d x s' ho'
        exact fun y _ s' ho' => runRequired_inPlace (ih (step :: active)) x y s' ho'

theorem runStep_inPlace (step : String) : InPlace o.session (Steps.runStep d o step) :=
  fun s ho => runGuarded_inPlace d (s.engine.session o.session).graph.nodes.length [] step s ho

end Steps

namespace Sessions

theorem runAllSteps_inPlace (f : Facilities) (tenant : String) {h : Handle} (generation : Nat)
    {s : Situation} (ho : Watch.runs.Only h s.own) (hu : Unbegun s.own) (hs : CallsInPlace s.own) :
    (runAllSteps (stepOfRun f tenant h) tenant h generation).Assures .steady
      (fun s' => CallsInPlace s'.own)
      (fun _ s' => Watch.runs.Only h s'.own) (fun _ s' => Watch.runs.Only h s'.own) s := by
  have huploads : (Scope.still fun c => ¬ c.Fileless).Uploads tenant h :=
    ⟨fun _ => ⟨rfl, rfl⟩, fun _ => ⟨rfl, rfl⟩, fun _ _ => id, fun _ => id⟩
  have hwithin := Inputs.uploadMissing_within (G := fun _ => True) huploads fun _ => trivial
  refine (hwithin.beforeSteps ho hu hs).bind fun _ s' ho' => ?_
  simp only [Attempt.assures_bind, Attempt.assures_lift, Proc.assures_session]
  refine Attempt.assures_forM (J := fun _ s' => Watch.runs.Only h s'.own) ?_ _ ho'
  intro x _ s'' ho''
  simp only [runInTurn, Attempt.assures_bind, Attempt.assures_lift, Proc.assures_session]
  split
  · exact ho''
  · exact (Steps.runStep_inPlace f.dispatcher (o := ⟨tenant, h, none, true⟩) _ s'' ho'').bind
      fun _ _ => id

theorem run_inPlace (f : Facilities) (tenant id : String) (s : Story) :
    (Request.proc f (.run tenant id)).Assures .steady (fun s' => CallsInPlace s'.own)
      (fun _ _ => True) s.enter := by
  have hall : (run f tenant id).Assures .steady (fun s' => CallsInPlace s'.own)
      (fun _ _ => True) (fun _ _ => True) s.enter := by
    simp only [run, runBy, Attempt.assures_bind, assures_find, Attempt.assures_lift,
      Proc.assures_session, Attempt.assures_ofExcept, Proc.assures_change, Proc.assures_log,
      Attempt.assures_outcome]
    refine ⟨fun h _ _ => ⟨fun _ _ => ⟨trivial, trivial, ?_⟩, fun _ _ => trivial⟩,
      fun _ => trivial⟩
    have hnone : Watch.runs.Settled s.enter.own := fun _ => rfl
    have hstarted : Watch.runs.Only h (s.enter.change (.startRun h)).own :=
      (hnone.only h).opened rfl
    have hunbegun : Unbegun (s.enter.change (.startRun h)).own := Unbegun.nil.cons rfl
    have hlogged : ∀ r, Watch.runs.Only h ((s.enter.change (.startRun h)).change (.log r)).own :=
      fun r => hstarted.ignored rfl
    have hbefore : ∀ r, Unbegun ((s.enter.change (.startRun h)).change (.log r)).own :=
      fun r => hunbegun.cons rfl
    have hplaced : ∀ r, CallsInPlace ((s.enter.change (.startRun h)).change (.log r)).own :=
      fun r => trivial
    refine Attempt.Assures.imp
      (runAllSteps_inPlace f tenant _ (hlogged _) (hbefore _) (hplaced _)) ?_ ?_
    · exact fun _ _ _ => ⟨trivial, trivial, trivial⟩
    · exact fun _ _ _ => ⟨trivial, trivial, trivial⟩
  exact hall.proc

end Sessions

/-! ## Removals of a sweep -/

/-- The session that was removed last was in the store, and due. -/
def RemovesDue (now : Int) : List Moment → Prop
  | ⟨e, .change (.withdraw h)⟩ :: _ => h ∈ e.stored ∧ Sweep.isDue now (e.session h) = true
  | _ => True

theorem removesDue_change (now : Int) (e : Engine) {c : Change} (hc : ∀ h, c ≠ .withdraw h)
    (own : List Moment) : RemovesDue now (⟨e, .change c⟩ :: own) := by
  cases c with
  | withdraw h => exact absurd rfl (hc h)
  | _ => trivial

namespace Sweep

theorem releaseRemoved_removesDue (now : Int) (h : Handle) {s : Situation}
    (hs : RemovesDue now s.own) :
    (Sessions.releaseRemoved h).Assures .steady (fun s' => RemovesDue now s'.own)
      (fun _ _ => True) s := by
  let keeping : Scope := ⟨fun _ => True, fun c => ∀ h, c ≠ .withdraw h, fun _ => True⟩
  have hlog : ∀ r, keeping.makes (.log r) := by
    intro r h' hw
    cases hw
  have hvalues : ∀ t, keeping.makes (.values h t) := by
    intro t h' hw
    cases hw
  have hinputs : ∀ tenant, keeping.Inputs tenant h :=
    fun tenant => ⟨hlog, hvalues, fun _ _ => trivial⟩
  have hwithin : (Sessions.releaseRemoved h).Within keeping fun _ => True := by
    simp only [Sessions.releaseRemoved, Inputs.releaseSession, Proc.within_bind',
      Proc.within_session, Proc.within_log, Proc.within_pure]
    intro e _
    exact (Inputs.release_within (hinputs _).deletes _ _).imp fun _ _ _ _ => ⟨hlog _, trivial⟩
  refine (hwithin.assures (J := fun s' => RemovesDue now s'.own) (fun _ _ => trivial) ?_ ?_ hs).imp
    fun _ _ _ => trivial
  · exact fun s' c _ hc => removesDue_change now _ hc _
  · rintro s' c r s'' - - ⟨t, -, -, rfl⟩
    trivial

theorem removeIf_removesDue (now : Int) (id : String) (s : Situation) :
    (Sessions.removeIf id (isDue now)).Assures .steady (fun s' => RemovesDue now s'.own)
      (fun _ _ => True) s := by
  simp only [Sessions.removeIf, Proc.assures_bind', Proc.assures_engine]
  split
  · trivial
  · next h hr =>
    simp only [Proc.assures_bind', Proc.assures_change, Proc.assures_pure]
    have hdue : RemovesDue now (s.change (.withdraw h)).own :=
      ⟨Engine.removeIf_stored hr, Engine.removeIf_condition hr⟩
    exact ⟨hdue, releaseRemoved_removesDue now h hdue⟩

theorem visitAll_removesDue (limit : Nat) (now : Int) (started : Nat) (summary : SweepSummary)
    (handles : List Handle) (s : Situation) :
    (visitAll limit now started summary handles).Assures .steady
      (fun s' => RemovesDue now s'.own) (fun _ _ => True) s := by
  induction handles generalizing summary s with
  | nil => trivial
  | cons h rest ih =>
    simp only [visitAll, Proc.assures_bind', Proc.assures_stopwatch]
    intro t
    split
    · trivial
    · simp only [visit, Proc.assures_bind', Proc.assures_session]
      refine (removeIf_removesDue now _ s).imp fun release s' _ => ?_
      split
      · exact ih _ _
      · simp only [Proc.assures_bind', Proc.assures_session, Proc.assures_log, Proc.assures_pure]
        exact ⟨trivial, ih _ _⟩

theorem run_removesDue (limit : Nat) (now : Int) (s : Situation) :
    (run limit now).Assures .steady (fun s' => RemovesDue now s'.own) (fun _ _ => True) s := by
  simp only [run, Proc.assures_bind', Proc.assures_engine]
  split
  · simp only [Proc.assures_bind', Proc.assures_log, Proc.assures_pure]
    exact ⟨trivial, trivial⟩
  · simp only [Proc.assures_bind', Proc.assures_change, Proc.assures_stopwatch,
      Proc.assures_listed, Proc.assures_log, Proc.assures_pure]
    exact ⟨trivial, fun t listed _ => (visitAll_removesDue limit now t _ _ _).imp fun _ _ _ =>
      ⟨trivial, trivial, trivial⟩⟩

end Sweep

/-! ## Operations in progress -/

/-- What the moments of an operation in progress are like. -/
def Request.KeepsPlace : Request → List Moment → Prop
  | .run _ _, own => CallsInPlace own
  | .sweep _ now, own => Watch.runs.Settled own ∧ RemovesDue now own
  | _, own => Watch.runs.Settled own

theorem Request.keepsPlace_nil (q : Request) : q.KeepsPlace [] := by
  cases q with
  | run tenant id => trivial
  | sweep limit now => exact ⟨fun _ => rfl, trivial⟩
  | _ => exact fun _ => rfl

theorem Request.settled (f : Facilities) {q : Request} (hq : ∀ tenant id, q ≠ .run tenant id)
    (s : Story) : (q.proc f).Assures .steady (fun s' => Watch.runs.Settled s'.own)
      (fun _ _ => True) s.enter := by
  have hnone : Watch.runs.Settled s.enter.own := fun _ => rfl
  by_cases hruns : q.Runs
  · cases q with
    | run tenant id => exact absurd rfl (hq tenant id)
    | runStep tenant id step userInput withRequired =>
      let unstarted : Scope :=
        ⟨fun _ => True, fun c => Watch.runs.turn (.change c) = none, fun _ => True⟩
      have hsteps : ∀ tenant h, unstarted.Steps tenant h := by
        refine fun tenant h => ⟨⟨fun _ => rfl, fun _ => rfl, fun _ _ => trivial⟩, ?_⟩
        intro c i hc
        cases c <;> cases hc <;> rfl
      have hwithin := (Sessions.runStep_within hsteps f tenant id step userInput withRequired).proc
      refine (hwithin.assures (J := fun s' => Watch.runs.Settled s'.own) (fun _ _ => trivial)
        (fun _ _ hs hc => hs.ignored hc) ?_ hnone).imp fun _ _ _ => trivial
      rintro s' c r s'' hs - ⟨t, -, -, rfl⟩
      exact hs.ignored rfl
    | _ => exact hruns.elim
  · have hwithin := within_of_not_runs (Scope.unwatched_requests s.engine.registry) f hruns
    have hall := hwithin.assures (K := .steady) (J := fun s' =>
      s'.engine.registry = s.engine.registry ∧ Watch.runs.Settled s'.own) (fun _ hs => hs.1)
      ?_ ?_ ⟨rfl, hnone⟩
    · exact hall.mono (fun _ hs => hs.2) fun _ _ _ => trivial
    · rintro s' c ⟨hregistry, hs⟩ ⟨-, -, hc⟩
      exact ⟨(Change.registry_apply c _).trans hregistry, hs.ignored hc⟩
    · rintro s' c r s'' ⟨hregistry, hs⟩ - ⟨t, ht, -, rfl⟩
      exact ⟨ht.trans hregistry, hs.ignored rfl⟩

theorem Request.keepsPlace (f : Facilities) (q : Request) (s : Story) :
    (q.proc f).Assures .steady (fun s' => q.KeepsPlace s'.own) (fun _ _ => True) s.enter := by
  cases q with
  | run tenant id => exact Sessions.run_inPlace f tenant id s
  | sweep limit now =>
    have hsettled := Request.settled f (q := .sweep limit now) (by simp) s
    exact (hsettled.and (Sweep.run_removesDue limit now s.enter)).imp fun _ _ _ => trivial
  | _ => exact Request.settled f (by simp) s

/-- A run of the session is in progress that has started no step yet and waits for the upload of a
value, or for the deletion of a file whose value is gone. -/
structure Frame.AtOpening (h : Handle) (fr : Frame) : Prop where
  running : Watch.runs.inProgress h fr.own = 1
  unbegun : Unbegun fr.own
  waiting : ∃ c, fr.rest.call? = some c ∧ ¬ c.Fileless

theorem Machine.Reachable.not_dispatched {f : Facilities} {m : Machine} (hm : Reachable f m)
    {fr : Frame} {below : List Frame} (hstack : m.stack = fr :: below) {h : Handle} {i : Nat}
    (hidle : m.story.engine.isRunning h i = false) {fr' : Frame} (hfr : fr' ∈ below) :
    Watch.dispatches.inProgress (h, i) fr'.own = 0 := by
  have hsum := hm.dispatches h i
  rw [hidle, Machine.inProgress, hstack, List.map_cons, List.sum_cons] at hsum
  have hle := List.le_sum_of_mem
    (List.mem_map_of_mem (f := fun fr : Frame => Watch.dispatches.inProgress (h, i) fr.own) hfr)
  simp only [Bool.toNat_false] at hsum
  omega

/-- A session is running as often as the operations that wait have a run of it in progress, unless
the innermost one runs it. -/
theorem Machine.Reachable.runs_waiting {f : Facilities} {m : Machine} (hm : Reachable f m)
    {fr : Frame} {below : List Frame} (hstack : m.stack = fr :: below)
    (hsettled : Watch.runs.Settled fr.own) (h : Handle) :
    ((m.story.engine.session h).state == .running).toNat =
      (below.map fun fr => Watch.runs.inProgress h fr.own).sum := by
  have hsum := hm.runs h
  rwa [Machine.inProgress, hstack, List.map_cons, List.sum_cons, hsettled h, Nat.zero_add] at hsum

theorem Frame.Keeps.atOpening {fr : Frame} {now : Story} {h : Handle}
    (hk : fr.Keeps Request.KeepsPlace now) (hw : ∃ c next, fr.rest = .call c next)
    (hone : Watch.runs.inProgress h fr.own = 1)
    (hidle : ∀ i, Watch.dispatches.inProgress (h, i) fr.own = 0) : fr.AtOpening h := by
  obtain ⟨c, hc⟩ : ∃ c, fr.rest.call? = some c := by
    obtain ⟨c, next, hcall⟩ := hw
    exact ⟨c, by rw [hcall]; rfl⟩
  have hne : ¬ Watch.runs.Settled fr.own := fun hs => by simp [hs h] at hone
  have hown := hk.1
  have hplace := hk.call hc (.error (.unavailable ""))
  cases hq : fr.request with
  | run tenant id =>
    rw [hq] at hplace
    rcases hplace h (by rw [hone]; exact Nat.one_ne_zero) with ⟨i, hi⟩ | ⟨hu, hfiles⟩
    · exact absurd (hidle i) hi
    · exact ⟨hone, hu, c, hc, hfiles⟩
  | sweep limit now =>
    rw [hq] at hown
    exact absurd hown.1 hne
  | _ =>
    rw [hq] at hown
    exact absurd hown hne

theorem Session.record?_idle {s : Session} (h : s.hasRunningStep = false) (i : Nat) :
    (s.record? i).any StepRecord.isRunning = false := by
  rw [record?, Option.any_map]
  cases hx : s.graph.nodes[i]? with
  | none => rfl
  | some x =>
    rw [hasRunningStep, List.any_eq_false] at h
    simpa using h x (List.mem_of_getElem? hx)

/-- Goes on to a change of a certain kind, or to a call; time stands still. -/
def Proc.upTo (stop : Change → Bool) : Proc α → Situation → Point α
  | .update c next, s => if stop c then (.update c next, s) else next.upTo stop (s.change c)
  | .observe next, s => (next s.engine).upTo stop s
  | .clock next, s => (next 0).upTo stop s
  | .instant next, s => (next 0).upTo stop s
  | .sample next, s => (next 0).upTo stop s
  | .listing next, s => (next s.engine.stored).upTo stop s
  | p, s => (p, s)

theorem Proc.upTo_execution {K : Conduct} (stop : Change → Bool) (p : Proc α) (s : Situation) :
    Execution K (p, s) (p.upTo stop s) := by
  induction p generalizing s with
  | update c next ih =>
    rw [upTo]
    split
    · exact .refl
    · exact .head .update (ih _)
  | observe next ih => exact .head .observe (ih _ s)
  | clock next ih => exact .head (.clock 0) (ih 0 s)
  | instant next ih => exact .head (.instant 0) (ih 0 s)
  | sample next ih => exact .head (.sample 0) (ih 0 s)
  | listing next ih => exact .head (.listing (.refl _)) (ih _ s)
  | done v => exact .refl
  | call c next => exact .refl
  | await w next => exact .refl

namespace Sample

/-- The letter is run again after a run whose upload has failed; it waits for that upload. -/
def resumed : Machine :=
  ((written balky).enter facilities (.run "acme" "session-0-00000000")).advance filing 0

theorem under_resumed : resumed.Under .lax facilities :=
  ((under_written balky).entered trivial).advanced (fun _ _ => trivial) 0

/-- A sweep comes to the removal of a session. -/
def reaping : Point SweepOutcome :=
  (Sweep.run 0 7200).upTo (fun c => c matches .withdraw _) resumed.story.enter

/-- Two hours later a sweep has come in. -/
def reaped : Machine :=
  ⟨reaping.2.toStory, ⟨.sweep 0 7200, reaping.1, reaping.2.own⟩ :: resumed.stack⟩

theorem reachable_reaped : Machine.Reachable facilities reaped := by
  have hentered := under_resumed.reachable.step (.enter (.sweep 0 7200) (by decide +kernel))
  exact hentered.act (Proc.upTo_execution _ _ _)

end Sample

/-- A session that a sweep is about to remove is in the store, no step of it is running, and it has
rested for longer than its flow allows. A run of it may be in progress nevertheless: if, and only
if, one is at its opening. -/
theorem sweep_removes_due {f : Facilities} {m : Machine} (hm : Machine.Reachable f m) {fr : Frame}
    {below : List Frame} (hstack : m.stack = fr :: below) {limit : Nat} {now : Int}
    (hq : fr.request = .sweep limit now) {h : Handle}
    (hc : fr.rest.change? = some (.withdraw h)) :
    h ∈ m.story.engine.stored ∧
      (∀ i, m.story.engine.isRunning h i = false) ∧
      (m.story.engine.session h).isStale now = true ∧
      ((m.story.engine.session h).state = .running ↔ ∃ fr' ∈ below, fr'.AtOpening h) := by
  obtain ⟨r, hk⟩ := hm.keeps Request.keepsPlace_nil (Request.keepsPlace f)
  obtain ⟨hregistry, hinner, hwaiting⟩ := hk
  rw [hstack] at hinner hwaiting
  have hkept := hinner fr rfl
  obtain ⟨hsettled, -⟩ := hq ▸ hkept.1
  obtain ⟨-, hstored, hdue⟩ := hq ▸ hkept.change hc
  obtain ⟨hnone, hstale⟩ : (m.story.engine.session h).hasRunningStep = false ∧
      (m.story.engine.session h).isStale now = true := by
    simpa [Sweep.isDue] using hdue
  have hidle : ∀ i, m.story.engine.isRunning h i = false := Session.record?_idle hnone
  have hruns := hm.runs_waiting hstack hsettled h
  refine ⟨hstored, hidle, hstale, fun hstate => ?_, fun hopening => ?_⟩
  · have hone : (below.map fun fr => Watch.runs.inProgress h fr.own).sum = 1 := by
      rw [← hruns, hstate]
      rfl
    obtain ⟨n, hn, hne⟩ := List.exists_mem_ne_zero_of_sum_ne_zero (hone ▸ Nat.one_ne_zero)
    have hle := List.le_sum_of_mem hn
    obtain ⟨fr', hfr, rfl⟩ := List.mem_map.mp hn
    obtain ⟨hw, hkeeps⟩ := hwaiting fr' hfr
    exact ⟨fr', hfr, (hkeeps m.story hregistry).atOpening hw (by omega)
      fun i => hm.not_dispatched hstack (hidle i) hfr⟩
  · obtain ⟨fr', hfr, hat⟩ := hopening
    have hle := List.le_sum_of_mem
      (List.mem_map_of_mem (f := fun fr : Frame => Watch.runs.inProgress h fr.own) hfr)
    rw [hat.running, ← hruns] at hle
    by_contra hstate
    have hfalse : ((m.story.engine.session h).state == .running) = false := by simpa using hstate
    rw [hfalse] at hle
    exact absurd hle (by decide)

/-- The sweep removes the session of a run that waits for its first upload. -/
theorem sweep_removes_due_resumed :
    0 ∈ Sample.reaped.story.engine.stored ∧
      (Sample.reaped.story.engine.session 0).isStale 7200 = true ∧
      ∃ fr ∈ Sample.resumed.stack, fr.AtOpening 0 := by
  have hnext : Sample.reaping.1.change? = some (.withdraw 0) := by decide +kernel
  have hstate : (Sample.reaped.story.engine.session 0).state = .running := by decide +kernel
  obtain ⟨hstored, -, hstale, hrun⟩ := sweep_removes_due Sample.reachable_reaped rfl rfl hnext
  exact ⟨hstored, hstale, hrun.mp hstate⟩

/-- A session has left the store by a sweep while it is running. -/
theorem running_session_removed :
    Machine.Reachable Sample.facilities (Sample.reaped.ahead 0) ∧
      (Sample.reaped.story.engine.session 0).state = .running ∧
      0 ∈ Sample.reaped.story.engine.stored ∧
      ((Sample.reaped.ahead 0).story.engine.session 0).state = .running ∧
      (Sample.reaped.ahead 0).story.engine.stored = [] :=
  ⟨Sample.reachable_reaped.ahead 0, by decide +kernel, by decide +kernel, by decide +kernel,
    by decide +kernel⟩

end FlowEngine
