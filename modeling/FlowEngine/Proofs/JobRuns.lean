import FlowEngine.Host.Pool
import FlowEngine.Proofs.Interference
import FlowEngine.Proofs.Tally

/-! # Jobs of one session, one at a time

A job relies on one thing only while others are at work: they leave the sessions that bear its
identifier alone, as far as what is running is concerned. If nothing of these sessions was running
when it began, it never finds anything running that it has not started itself, and nothing is
running when it ends, whatever its fault.
-/
namespace FlowEngine

/-- A session with the identifier is running, or the given step of it. -/
def Engine.Busy (k : String) (e : Engine) (h : Handle) : Option Nat → Prop
  | none => (e.session h).id = k ∧ (e.session h).state = .running
  | some i => (e.session h).id = k ∧ e.isRunning h i = true

def Engine.Idle (k : String) (e : Engine) : Prop := ∀ h i, ¬ e.Busy k h i

/-- What a change starts or brings to its end: a run, or a step. -/
def Change.turn? : Change → Option (Turn (Handle × Option Nat))
  | .startRun h => some (.opens (h, none))
  | .finishRun h | .failRun h => some (.closes (h, none))
  | .begin h i _ => some (.opens (h, some i))
  | .complete h i _ _ | .fail h i _ _ => some (.closes (h, some i))
  | .log _ | .enlist _ | .withdraw _ | .sweep _ | .values _ _ | .noteConversation _ _ _
  | .noteAppRun _ _ _ => none

theorem Change.turn?_eq_none {c : Change} (hs : Watch.dispatches.turn (.change c) = none)
    (hr : Watch.runs.turn (.change c) = none) : c.turn? = none := by
  cases c with
  | begin | complete | fail => cases hs
  | startRun | finishRun | failRun => cases hr
  | _ => rfl

def Change.starts : Change → Bool
  | .startRun _ | .begin _ _ _ => true
  | _ => false

theorem Change.starts_of_opens {c : Change} {x : Handle × Option Nat}
    (h : c.turn? = some (.opens x)) : c.starts = true := by
  cases c <;> first | rfl | cases h

/-- Nothing has been started of the sessions with the identifier. -/
structure Engine.Spares (k : String) (e e' : Engine) : Prop where
  evolves : e.Evolves e'
  sound : e.Sound → e'.Sound
  busy : ∀ h i, e'.Busy k h i → e.Busy k h i

/-- A change that brings in no session and starts nothing but in sessions with the identifier. -/
structure Change.StartsOnly (k : String) (e : Engine) (c : Change) : Prop where
  newcomer : c.newcomer? = none
  opens : ∀ x, c.turn? = some (.opens x) → (e.session x.1).id = k

section Busy

variable {k : String} {e e' e'' : Engine} {c c' : Change} {h : Handle} {i : Option Nat}

theorem Session.Unused.not_busy (hs : (e.session h).Unused) : ¬ e.Busy k h i := by
  intro hb
  cases i with
  | none =>
    have hstate := hs.state.symm.trans hb.2
    cases hstate
  | some i =>
    have hidle := (hs.idle i).symm.trans hb.2
    cases hidle

theorem Change.running_apply (hlt : h < e.sessions.length)
    (hstate : ((c.apply e).session h).state = .running) :
    ((e.session h).state = .running ∨ c.turn? = some (.opens (h, none))) ∧
      c.turn? ≠ some (.closes (h, none)) := by
  by_cases hrun : c.run? = some h
  · cases c with
    | startRun =>
      cases hrun
      exact ⟨.inr rfl, by simp [turn?]⟩
    | finishRun | failRun =>
      cases hrun
      rw [apply, Engine.session_modifySession_self hlt] at hstate
      cases hstate
    | _ => cases hrun
  · refine ⟨.inl ((state_apply hrun (.inr hlt)).1 ▸ hstate), fun hturn => ?_⟩
    cases c <;> cases hturn <;> exact hrun rfl

theorem Change.isRunning_of_apply {i : Nat} (hlt : h < e.sessions.length)
    (hrunning : (c.apply e).isRunning h i = true) :
    (e.isRunning h i = true ∨ c.turn? = some (.opens (h, some i))) ∧
      c.turn? ≠ some (.closes (h, some i)) := by
  by_cases hself : c.record? = some (h, i)
  · rw [Engine.isRunning, record?_apply_self hself] at hrunning
    rw [Engine.isRunning]
    cases hr : e.record? h i with
    | none => simp [hr] at hrunning
    | some r =>
      rw [hr] at hrunning
      cases c with
      | begin =>
        cases hself
        exact ⟨.inr rfl, by simp [turn?]⟩
      | complete | fail => cases hrunning
      | noteConversation | noteAppRun => exact ⟨.inl hrunning, by simp [turn?]⟩
      | _ => cases hself
  · rw [Engine.isRunning, record?_apply hself (.inr hlt)] at hrunning
    refine ⟨.inl hrunning, fun hturn => ?_⟩
    cases c <;> cases hturn <;> exact hself rfl

theorem Change.unused_apply_of_le (hc : c.Welcome e.registry) (hle : e.sessions.length ≤ h) :
    ((c.apply e).session h).Unused := by
  by_cases hn : c.newcomer? = none
  · have hlength : (c.apply e).sessions.length = e.sessions.length := by
      have houtlines := congrArg List.length (outlines_apply c e)
      simpa [hn, Engine.outlines] using houtlines
    rw [Engine.session_of_le (hlength ▸ hle)]
    exact Session.unused_vacant
  · exact (unused_apply hc fun hor => hor.elim hn (Nat.not_lt_of_le hle)).2

theorem Change.busy_apply (hc : c.Welcome e.registry) (hb : (c.apply e).Busy k h i) :
    (e.session h).id = k ∧ (e.Busy k h i ∨ c.turn? = some (.opens (h, i))) ∧
      c.turn? ≠ some (.closes (h, i)) := by
  rcases Nat.lt_or_ge h e.sessions.length with hlt | hle
  · have hid : ((c.apply e).session h).id = (e.session h).id :=
      congrArg SessionOutline.id (Engine.outline_apply c hlt)
    cases i with
    | none =>
      obtain ⟨hk, hstate⟩ := hb
      obtain ⟨hbefore, hopen⟩ := running_apply hlt hstate
      exact ⟨hid ▸ hk, hbefore.imp_left fun hrun => ⟨hid ▸ hk, hrun⟩, hopen⟩
    | some i =>
      obtain ⟨hk, hrunning⟩ := hb
      obtain ⟨hbefore, hopen⟩ := isRunning_of_apply hlt hrunning
      exact ⟨hid ▸ hk, hbefore.imp_left fun hrun => ⟨hid ▸ hk, hrun⟩, hopen⟩
  · exact absurd hb (unused_apply_of_le hc hle).not_busy

namespace Engine.Spares

theorem refl (k : String) (e : Engine) : e.Spares k e :=
  ⟨.refl e, id, fun _ _ => id⟩

theorem trans (h : e.Spares k e') (h' : e'.Spares k e'') : e.Spares k e'' :=
  ⟨h.evolves.trans h'.evolves, fun hs => h'.sound (h.sound hs),
    fun x i hb => h.busy x i (h'.busy x i hb)⟩

theorem idle (h : e.Spares k e') (he : e.Idle k) : e'.Idle k :=
  fun x i hb => he x i (h.busy x i hb)

theorem change (hc : c.Welcome e.registry)
    (ho : ∀ x, c.turn? = some (.opens x) → (e.session x.1).id ≠ k) : e.Spares k (c.apply e) := by
  refine ⟨Change.evolves_apply c e, fun he => he.apply hc, ?_⟩
  intro h i hb
  obtain ⟨hk, hbefore | hopens, -⟩ := Change.busy_apply hc hb
  · exact hbefore
  · exact absurd hk (ho _ hopens)

theorem quiet (h : e.Spares k e') (hn : c.newcomer? = none) (hs : c.starts = false) :
    e.Spares k (c.apply e') := by
  refine h.trans (change (Change.welcome_of_newcomer hn _) fun x hx => ?_)
  rw [Change.starts_of_opens hx] at hs
  cases hs

theorem log (h : e.Spares k e') (r : LogRecord) : e.Spares k ((Change.log r).apply e') :=
  h.quiet rfl rfl

theorem bracket {x : Handle × Option Nat} (h : e.Spares k e') (hc : c.turn? = some (.opens x))
    (h' : (c.apply e').Spares k e'') (hc' : c'.turn? = some (.closes x)) :
    e.Spares k (c'.apply e'') := by
  have hn : c.newcomer? = none := by
    cases c <;> first | rfl | cases hc
  have hn' : c'.newcomer? = none := by
    cases c' <;> first | rfl | cases hc'
  have hwelcome := Change.welcome_of_newcomer hn e'.registry
  have hwelcome' := Change.welcome_of_newcomer hn' e''.registry
  refine ⟨?_, fun he => ?_, fun y i hb => ?_⟩
  · exact ((h.evolves.trans (Change.evolves_apply c e')).trans h'.evolves).trans
      (Change.evolves_apply c' e'')
  · exact (h'.sound ((h.sound he).apply hwelcome)).apply hwelcome'
  · obtain ⟨-, hbefore, hopen⟩ := Change.busy_apply hwelcome' hb
    have hbegun : e''.Busy k y i := by
      refine hbefore.resolve_right fun hturn => ?_
      rw [hc'] at hturn
      cases hturn
    obtain ⟨-, hold, -⟩ := Change.busy_apply hwelcome (h'.busy y i hbegun)
    refine h.busy y i (hold.resolve_right fun hturn => ?_)
    rw [hc] at hturn
    cases hturn
    exact hopen hc'

end Engine.Spares

end Busy

/-- The others leave the sessions with the identifier alone; this one starts nothing elsewhere. -/
def Accord.ofKey (k : String) : Accord where
  others := Engine.Spares k
  own := Change.StartsOnly k
  refl := .refl k
  trans := .trans

theorem Change.StartsOnly.spares {k k' : String} {e : Engine} {c : Change}
    (hc : c.StartsOnly k e) (hk : k' ≠ k) : e.Spares k' (c.apply e) :=
  .change (welcome_of_newcomer hc.newcomer _) fun x hx he => hk (he.symm.trans (hc.opens x hx))

def EngineFault.isBusy : EngineFault → Bool
  | .sessionRunning _ | .stepRunning _ => true
  | _ => false

/-- Not even the innermost fault says that something was found running. -/
def EngineFault.Clear (fault : EngineFault) : Prop := fault.root.isBusy = false

theorem EngineFault.OfWork.clear {fault : EngineFault} (h : fault.OfWork) : fault.Clear := by
  rw [Clear, h.root]
  have hconflict := h.conflict
  cases fault <;> first | rfl | cases hconflict

variable {k : String} {base e : Engine} {t : SessionOutline} {α : Type}

theorem Change.startsOnly {c : Change} (hn : c.newcomer? = none) (hs : c.starts = false) :
    c.StartsOnly k e := by
  refine ⟨hn, fun x hx => ?_⟩
  rw [starts_of_opens hx] at hs
  cases hs

theorem Change.Quiet.starts {c : Change} {h : Handle} {i : Option Nat} (hc : c.Quiet h i) :
    c.starts = false := by
  cases c <;> first | rfl | exact hc.elim

theorem Attempt.Within.spares {a : Attempt α} {V : α → Prop} {G : EngineFault → Prop}
    {tenant : String} {h : Handle} {i : Option Nat} (ha : a.Within (Scope.quiet tenant h i) V G)
    (he : base.Spares k e) : a.Holds (.ofKey k) (fun _ e' => base.Spares k e')
      (fun fault e' => G fault ∧ base.Spares k e') e := by
  refine (Attempt.Within.holds (A := .ofKey k) (J := base.Spares k) (fun _ _ => trivial)
    (fun hj ho => hj.trans ho) ?_ ha he).imp (fun _ _ h => h.2) (fun _ _ => id)
  intro e' c hj hc
  exact ⟨Change.startsOnly hc.ofSteps.newcomer hc.starts,
    hj.quiet hc.ofSteps.newcomer hc.starts⟩

section Found

variable {h : Handle} (hh : base.Hosts h t) (hk : t.id = k)
  (hidle : ∀ h i, ¬ base.Busy k h (some i)) (he : base.Spares k e)
include hh hk hidle he

theorem Engine.Spares.not_running {i : Nat} {r : StepRecord} (hr : e.record? h i = some r) :
    r.isRunning = false := by
  refine Bool.eq_false_iff.mpr fun hrun => hidle h i (he.busy _ _ ⟨?_, ?_⟩)
  · exact (congrArg SessionOutline.id (hh.evolve he.evolves).outline).trans hk
  · rw [Engine.isRunning, hr]
    exact hrun

theorem Engine.Spares.execution (ht : t.WellLaid) {step : String} {x : StepExecution}
    (hx : (e.session h).execution step = .ok x) :
    t.steps[x.index]? = some x.outline ∧ x.record.isRunning = false := by
  have hh' := hh.evolve he.evolves
  obtain ⟨hy, htext⟩ := hh'.of_execution ht hx
  obtain ⟨z, hz, -, -, hrec⟩ := hh'.execution ht hy
  have hzx : (Except.ok z : Except EngineFault StepExecution) = .ok x :=
    hz.symm.trans (htext ▸ hx)
  cases hzx
  exact ⟨hy, he.not_running hh hk hidle hrec⟩

end Found

namespace Steps

variable {o : StepOrder}

theorem recordFailure_spares (x : StepExecution) (fault : EngineFault) {Q : Engine → Prop}
    (hq : ∀ e₁ now e₂, e.Spares k e₁ →
      ((Change.fail o.session x.index fault.message now).apply e₁).Spares k e₂ → Q e₂) :
    (recordFailure o x fault).Holds (.ofKey k) (fun _ => Q) e := by
  simp only [recordFailure, Proc.holds_bind', Proc.holds_now, Proc.holds_change,
    Proc.holds_session, Proc.holds_log]
  intro now e₁ h₁
  refine ⟨Change.startsOnly rfl rfl, fun e₂ h₂ e₃ h₃ => ⟨Change.startsOnly rfl rfl, ?_⟩⟩
  exact hq e₁ now _ h₁ ((h₂.trans h₃).log _)

theorem recordOutcome_spares (x : StepExecution) (outcome : TargetOutcome) {Q : Engine → Prop}
    (hq : ∀ e₁ now e₂, e.Spares k e₁ →
      ((Change.complete o.session x.index outcome now).apply e₁).Spares k e₂ → Q e₂) :
    (recordOutcome o x outcome).Holds (.ofKey k) (fun _ => Q) e := by
  simp only [recordOutcome, Proc.holds_bind', Proc.holds_now, Proc.holds_change,
    Proc.holds_session, Proc.holds_log, Proc.holds_pure]
  intro now e₁ h₁ e₂ h₂
  refine ⟨Change.startsOnly rfl rfl, fun e₃ h₃ => ⟨Change.startsOnly rfl rfl, fun e₄ h₄ => ?_⟩⟩
  exact hq e₂ now _ (h₁.trans h₂) ((h₃.log _).trans h₄)

theorem enterRunning_spares (hh : base.Hosts o.session t) (hk : t.id = k)
    (hidle : ∀ h i, ¬ base.Busy k h (some i)) {x : StepExecution}
    (hx : t.steps[x.index]? = some x.outline) (he : base.Spares k e) :
    (enterRunning o x).Holds (.ofKey k)
      (fun _ e' => ∃ e₁ now, base.Spares k e₁ ∧
        ((Change.begin o.session x.index now).apply e₁).Spares k e') (fun _ _ => False) e := by
  simp only [enterRunning, Attempt.holds_bind, Attempt.holds_lift, Proc.holds_now,
    Proc.holds_session]
  intro now e₁ h₁
  have he₁ := he.trans h₁
  have hh₁ := hh.evolve he₁.evolves
  obtain ⟨z, hz, -, hrec⟩ := hh₁.record hx
  have hnot := he₁.not_running hh hk hidle hrec
  rw [hz, Option.bind_some]
  cases hbegin : z.record.begin? now with
  | none =>
    rw [StepRecord.begin?_eq_none.mp hbegin] at hnot
    cases hnot
  | some r =>
    simp only [Attempt.holds_bind, Attempt.holds_lift, Proc.holds_change, Proc.holds_log]
    intro e₂ h₂
    have hid₂ : (e₂.session o.session).id = k :=
      (congrArg SessionOutline.id (hh₁.evolve h₂.evolves).outline).trans hk
    refine ⟨⟨rfl, ?_⟩, fun e₃ h₃ => ⟨Change.startsOnly rfl rfl, e₂, now, he₁.trans h₂, h₃.log _⟩⟩
    rintro y ⟨⟩
    exact hid₂

theorem runAlone_spares (hh : base.Hosts o.session t) (hk : t.id = k)
    (hidle : ∀ h i, ¬ base.Busy k h (some i)) (d : Dispatcher) {x : StepExecution}
    (hx : t.steps[x.index]? = some x.outline) (he : base.Spares k e) :
    (runAlone d o x).Holds (.ofKey k) (fun _ e' => base.Spares k e')
      (fun fault e' => fault.Clear ∧ base.Spares k e') e := by
  rw [runAlone, Attempt.holds_bind]
  refine (enterRunning_spares hh hk hidle hx he).imp ?_ (fun _ _ => False.elim)
  rintro _ e' ⟨e₁, now, he₁, hbegun⟩
  have hdispatch := (dispatch_within (Scope.quiet_notes o.tenant o.session x.index) d).spares hbegun
  rw [Attempt.holds_bind, Attempt.holds_outcome]
  refine hdispatch.imp ?_ ?_
  · intro outcome e₂ he₂
    rw [Attempt.holds_lift]
    refine recordOutcome_spares x outcome fun e₃ later e₄ h₃ h₄ => ?_
    exact (he₁.bracket rfl (he₂.trans h₃) rfl).trans h₄
  · rintro fault e₂ ⟨hwork, he₂⟩
    simp only [Attempt.holds_bind, Attempt.holds_lift, Attempt.holds_throw]
    refine recordFailure_spares x fault fun e₃ later e₄ h₃ h₄ => ?_
    exact ⟨hwork.clear, (he₁.bracket rfl (he₂.trans h₃) rfl).trans h₄⟩

theorem runRequired_spares {run : String → Attempt StepReport} {x required : StepExecution}
    (hrun : ∀ e, base.Spares k e → (run required.step.id.text).Holds (.ofKey k)
      (fun _ e' => base.Spares k e') (fun fault e' => fault.Clear ∧ base.Spares k e') e)
    (he : base.Spares k e) : (runRequired run o x required).Holds (.ofKey k)
      (fun _ e' => base.Spares k e') (fun fault e' => fault.Clear ∧ base.Spares k e') e := by
  simp only [runRequired, Attempt.holds_bind, Attempt.holds_lift, Proc.holds_session]
  intro e₁ h₁
  have he₁ := he.trans h₁
  split
  · exact he₁
  · simp only [Attempt.holds_bind, Attempt.holds_outcome]
    refine (hrun e₁ he₁).imp (fun _ _ => id) ?_
    rintro fault e₂ ⟨hclear, he₂⟩
    split
    · exact ⟨hclear, he₂⟩
    · simp only [Attempt.holds_bind, Attempt.holds_lift, Attempt.holds_throw]
      refine recordFailure_spares x _ fun e₃ now e₄ h₃ h₄ => ⟨hclear, .trans ?_ h₄⟩
      exact (he₂.trans h₃).quiet rfl rfl

theorem runGuarded_spares (ht : t.WellLaid) (hh : base.Hosts o.session t) (hk : t.id = k)
    (hidle : ∀ h i, ¬ base.Busy k h (some i)) (d : Dispatcher) (depth : Nat)
    (active : List String) (step : String) (he : base.Spares k e) :
    (runGuarded d o depth active step).Holds (.ofKey k) (fun _ e' => base.Spares k e')
      (fun fault e' => fault.Clear ∧ base.Spares k e') e := by
  induction depth generalizing active step e with
  | zero =>
    simp only [runGuarded, Attempt.holds_bind, Attempt.holds_lift, Proc.holds_session,
      Attempt.holds_ofExcept]
    intro e₁ h₁
    have he₁ := he.trans h₁
    refine ⟨fun x hx => ?_, fun fault hf => ⟨(execution_ofWork hf).clear, he₁⟩⟩
    rw [(he₁.execution hh hk hidle ht hx).2]
    by_cases hactive : step ∈ active
    · rw [if_pos hactive]
      exact ⟨rfl, he₁⟩
    · rw [if_neg hactive]
      exact ⟨rfl, he₁⟩
  | succ depth ih =>
    simp only [runGuarded_succ, Attempt.holds_bind, Attempt.holds_lift, Proc.holds_session,
      Attempt.holds_ofExcept]
    intro e₁ h₁
    have he₁ := he.trans h₁
    refine ⟨fun x hx => ?_, fun fault hf => ⟨(execution_ofWork hf).clear, he₁⟩⟩
    obtain ⟨hy, hnot⟩ := he₁.execution hh hk hidle ht hx
    rw [hnot]
    split
    · exact ⟨rfl, he₁⟩
    · simp only [Bool.false_eq_true, if_false, Attempt.holds_bind]
      have required := Attempt.holds_forM (A := .ofKey k) (J := base.Spares k)
        (F := fun fault e' => fault.Clear ∧ base.Spares k e')
        (f := fun required => runRequired (runGuarded d o depth (step :: active)) o x required)
        (l := if o.withRequired then (e₁.session o.session).graph.requiredOf x else [])
        (fun y _ e' he' => runRequired_spares (fun e'' => ih (step :: active) _) he') he₁
      exact required.imp (fun _ e₂ he₂ => runAlone_spares hh hk hidle d hy he₂) (fun _ _ => id)

theorem runStep_spares (ht : t.WellLaid) (hh : base.Hosts o.session t) (hk : t.id = k)
    (hidle : ∀ h i, ¬ base.Busy k h (some i)) (d : Dispatcher) (step : String)
    (he : base.Spares k e) : (Steps.runStep d o step).Holds (.ofKey k)
      (fun _ e' => base.Spares k e') (fun fault e' => fault.Clear ∧ base.Spares k e') e := by
  simp only [Steps.runStep, Attempt.holds_bind, Attempt.holds_lift, Proc.holds_session]
  exact fun e₁ h₁ => runGuarded_spares ht hh hk hidle d _ [] step (he.trans h₁)

end Steps

namespace Sessions

variable {tenant id : String} {h : Handle}

theorem find_spares (hs : base.Sound) (he : base.Spares k e) {Q : Handle → Engine → Prop}
    {F : EngineFault → Engine → Prop}
    (hq : ∀ h e', base.Spares k e' → e'.Hosts h (e'.session h).outline → (e'.session h).id = id →
      Q h e') (hf : ∀ e', base.Spares k e' → F (.unknownSession id) e') :
    (find tenant id).Holds (.ofKey k) Q F e := by
  simp only [find, Attempt.holds_bind, Attempt.holds_lift, Proc.holds_engine]
  intro e₁ h₁
  have he₁ := he.trans h₁
  split
  · next h hfound =>
    obtain ⟨hfind, -⟩ := Option.filter_eq_some_iff.mp hfound
    have hid : (e₁.session h).id = id := by simpa using List.find?_some hfind
    exact hq h e₁ he₁ (find?_hosts (he₁.sound hs) hfind) hid
  · exact hf e₁ he₁

theorem runAllSteps_spares (ht : t.WellLaid) (hh : base.Hosts h t) (hk : t.id = k)
    (hidle : ∀ h i, ¬ base.Busy k h (some i)) (f : Facilities) (tenant : String)
    (generation : Nat) (he : base.Spares k e) :
    (runAllSteps (stepOfRun f tenant h) tenant h generation).Holds (.ofKey k)
      (fun _ e' => base.Spares k e')
      (fun fault e' => fault.Clear ∧ base.Spares k e') e := by
  have uploaded := (Inputs.uploadMissing_within (Scope.quiet_inputs tenant h none).uploads
    (G := EngineFault.OfWork) fun _ => ⟨rfl, rfl⟩).spares he
  rw [runAllSteps, Attempt.holds_bind]
  refine uploaded.imp ?_ fun fault e' hf => ⟨hf.1.clear, hf.2⟩
  intro _ e₁ he₁
  simp only [Attempt.holds_bind, Attempt.holds_lift, Proc.holds_session]
  intro e₂ h₂
  refine Attempt.holds_forM (fun x _ e₃ he₃ => ?_) (he₁.trans h₂)
  simp only [runInTurn, Attempt.holds_bind, Attempt.holds_lift, Proc.holds_session]
  intro e₄ h₄
  have he₄ := he₃.trans h₄
  split
  · exact he₄
  · simp only [Attempt.holds_bind, Attempt.holds_pure]
    exact Steps.runStep_spares (o := ⟨tenant, h, none, true⟩) ht hh hk hidle f.dispatcher _ he₄

theorem run_spares (hs : base.Sound) (hidle : base.Idle id) (f : Facilities) (tenant : String) :
    (run f tenant id).Holds (.ofKey id) (fun _ e' => base.Spares id e')
      (fun fault e' => fault.Clear ∧ base.Spares id e') base := by
  rw [run, runBy, Attempt.holds_bind]
  refine find_spares hs (.refl id base) ?_ fun e' he' => ⟨rfl, he'⟩
  intro h e₁ he₁ hh₁ hk
  simp only [Attempt.holds_bind, Attempt.holds_lift, Proc.holds_session, Attempt.holds_ofExcept,
    Proc.holds_change, Proc.holds_log, Attempt.holds_outcome]
  intro e₂ h₂
  have he₂ := he₁.trans h₂
  have hh₂ := hh₁.evolve h₂.evolves
  have hid₂ : (e₂.session h).id = id := (congrArg SessionOutline.id hh₂.outline).trans hk
  have hstate : (e₂.session h).state ≠ .running :=
    fun hrun => he₂.idle hidle h none ⟨hid₂, hrun⟩
  refine ⟨?_, fun fault hf => ?_⟩
  · intro started _ e₃ h₃
    have hh₃ := hh₂.evolve h₃.evolves
    have hid₃ : (e₃.session h).id = id := (congrArg SessionOutline.id hh₃.outline).trans hk
    refine ⟨⟨rfl, ?_⟩, fun e₄ h₄ => ⟨Change.startsOnly rfl rfl, ?_⟩⟩
    · rintro x ⟨⟩
      exact hid₃
    · have he₃ := he₂.trans h₃
      have hquiet : ∀ k i, ¬ ((Change.startRun h).apply e₃).Busy id k (some i) := by
        intro k i hb
        obtain ⟨-, hbefore | hopens, -⟩ :=
          Change.busy_apply (Change.welcome_of_newcomer rfl e₃.registry) hb
        · exact he₃.idle hidle k (some i) hbefore
        · cases hopens
      have hh₄ := hh₃.evolve (Change.evolves_apply (.startRun h) e₃)
      have ht := (he₁.sound hs).laid h _ hh₁
      refine (runAllSteps_spares ht hh₄ hk hquiet f tenant _ (h₄.log _)).imp ?_ ?_
      · intro _ e₅ he₅ e₆ h₆
        refine ⟨Change.startsOnly rfl rfl, fun e₇ h₇ => ⟨Change.startsOnly rfl rfl, ?_⟩⟩
        exact ((he₃.bracket rfl (he₅.trans h₆) rfl).trans h₇).log _
      · rintro fault e₅ ⟨hclear, he₅⟩ e₆ h₆
        refine ⟨Change.startsOnly rfl rfl, fun e₇ h₇ => ⟨Change.startsOnly rfl rfl, hclear, ?_⟩⟩
        exact ((he₃.bracket rfl (he₅.trans h₆) rfl).trans h₇).log _
  · rw [Session.startRun, if_neg hstate] at hf
    cases hf

theorem runStep_spares (hs : base.Sound) (hidle : base.Idle id) (f : Facilities)
    (tenant step : String) (userInput : Option String) (withRequired : Bool) :
    (runStep f tenant id step userInput withRequired).Holds (.ofKey id)
      (fun _ e' => base.Spares id e') (fun fault e' => fault.Clear ∧ base.Spares id e') base := by
  rw [runStep, runStepBy, Attempt.holds_bind]
  refine find_spares hs (.refl id base) ?_ fun e' he' => ⟨rfl, he'⟩
  intro h e₁ he₁ hh₁ hk
  simp only [Attempt.holds_bind, Attempt.holds_lift, Proc.holds_session, Attempt.holds_ofExcept]
  intro e₂ h₂
  have he₂ := he₁.trans h₂
  have hquiet : ∀ k i, ¬ e₁.Busy id k (some i) := fun k i => he₁.idle hidle k (some i)
  have ht := (he₁.sound hs).laid h _ hh₁
  refine ⟨fun x hx => ?_, fun fault hf => ⟨(Steps.execution_ofWork hf).clear, he₂⟩⟩
  obtain ⟨-, hnot⟩ := h₂.execution hh₁ hk hquiet ht hx
  split
  · exact ⟨rfl, he₂⟩
  · rw [hnot]
    refine (Steps.runStep_spares (o := ⟨tenant, h, userInput, withRequired⟩) ht hh₁ hk hquiet
      f.dispatcher step h₂).imp ?_ ?_
    · exact fun _ e' he' => he₁.trans he'
    · exact fun fault e' he' => ⟨he'.1, he₁.trans he'.2⟩

end Sessions

/-- A job that finds nothing running of its sessions leaves nothing of them running, and does not
fail because something was. -/
theorem Job.operation_spares (f : Facilities) (job : Job) (hs : base.Sound)
    (hidle : base.Idle job.key) : (job.operation f).Holds (.ofKey job.key)
      (fun _ e' => base.Spares job.key e')
      (fun fault e' => fault.Clear ∧ base.Spares job.key e') base := by
  cases job with
  | session tenant id =>
    exact Attempt.Holds.map (Q := fun _ e' => base.Spares id e')
      (Sessions.run_spares hs hidle f tenant)
  | step tenant id step userInput withRequired =>
    exact Attempt.Holds.map (Q := fun _ e' => base.Spares id e')
      (Sessions.runStep_spares hs hidle f tenant step userInput withRequired)

end FlowEngine
