import FlowEngine.Engine.Procedure
import Mathlib.Logic.Relation

/-! # Executions of operations

An operation moves by small steps: it looks at the engine, changes it, or calls the provider.
What others do while a call is under way, and what the provider answers, is given by a `Conduct`.
`Proc.Assures` is a precondition computed along the tree of an operation; `execution_assured` says
that it speaks about every point of every execution.
-/
namespace FlowEngine

inductive Event where
  | change (c : Change)
  | call (c : ProviderCall) (outcome : c.Outcome)

/-- An event, and the engine in which it happened. -/
structure Moment where
  engine : Engine
  event : Event

/-- An engine and all that has happened to it, the last moment first. -/
structure Story where
  engine : Engine
  past : List Moment

/-- A story as an operation sees it: `own` holds the moments of its own making. -/
structure Situation extends Story where
  own : List Moment

namespace Story

/-- Anyone may raise or lower the flag that stops waits. -/
def flagged (s : Story) (b : Bool) : Story :=
  { s with engine := { s.engine with stopping := b } }

@[simp] theorem flagged_stopping (s : Story) : s.flagged s.engine.stopping = s := rfl

def enter (s : Story) : Situation := ⟨s, []⟩

def change (s : Story) (c : Change) : Story := ⟨c.apply s.engine, ⟨s.engine, .change c⟩ :: s.past⟩

def called (s : Story) (c : ProviderCall) (r : c.Outcome) : Story :=
  ⟨s.engine, ⟨s.engine, .call c r⟩ :: s.past⟩

end Story

namespace Situation

def change (s : Situation) (c : Change) : Situation where
  engine := c.apply s.engine
  past := ⟨s.engine, .change c⟩ :: s.past
  own := ⟨s.engine, .change c⟩ :: s.own

/-- A call has come back; meanwhile the story went on to `t`. -/
def called (s : Situation) (t : Story) (c : ProviderCall) (r : c.Outcome) : Situation where
  engine := t.engine
  past := ⟨t.engine, .call c r⟩ :: t.past
  own := ⟨t.engine, .call c r⟩ :: s.own

@[simp] theorem change_engine (s : Situation) (c : Change) :
    (s.change c).engine = c.apply s.engine := rfl

@[simp] theorem change_own (s : Situation) (c : Change) :
    (s.change c).own = ⟨s.engine, .change c⟩ :: s.own := rfl

@[simp] theorem change_past (s : Situation) (c : Change) :
    (s.change c).past = ⟨s.engine, .change c⟩ :: s.past := rfl

@[simp] theorem called_engine (s : Situation) (t : Story) (c : ProviderCall) (r : c.Outcome) :
    (s.called t c r).engine = t.engine := rfl

@[simp] theorem called_own (s : Situation) (t : Story) (c : ProviderCall) (r : c.Outcome) :
    (s.called t c r).own = ⟨t.engine, .call c r⟩ :: s.own := rfl

@[simp] theorem called_past (s : Situation) (t : Story) (c : ProviderCall) (r : c.Outcome) :
    (s.called t c r).past = ⟨t.engine, .call c r⟩ :: t.past := rfl

end Situation

/-- What may happen while a call is under way, and what the provider may answer after a past. -/
structure Conduct where
  meanwhile : Story → Story → Prop
  answers : List Moment → (c : ProviderCall) → c.Outcome → Prop

namespace Conduct

/-- Nothing but the flag changes during a call. -/
def solitary (answers : List Moment → (c : ProviderCall) → c.Outcome → Prop) : Conduct where
  meanwhile s t := ∃ b, t = s.flagged b
  answers := answers

def anyAnswer (_ : List Moment) (c : ProviderCall) (_ : c.Outcome) : Prop := True

def Meets (K : Conduct) (s : Situation) (c : ProviderCall) (r : c.Outcome) (s' : Situation) :
    Prop :=
  ∃ t, K.meanwhile s.toStory t ∧ K.answers t.past c r ∧ s' = s.called t c r

def Polls (K : Conduct) (w : Wait) (s s' : Situation) : Prop :=
  ∃ r, K.Meets s (.appRun w.tenant w.run) r s'

inductive Awaits (K : Conduct) (w : Wait) : Situation → Wait.Verdict → Situation → Prop where
  | stopped {s} : Awaits K w s (.error .interrupted) s
  | settled {s r s' v} : K.Meets s (.appRun w.tenant w.run) r s' → w.ofPoll r = some v →
      Awaits K w s v s'
  | late {s r s' v elapsed} : K.Meets s (.appRun w.tenant w.run) r s' → w.ofPoll r = none →
      w.ofElapsed elapsed = some v → Awaits K w s v s'
  | again {s s' v s''} : K.Polls w s s' → Awaits K w s' v s'' → Awaits K w s v s''

end Conduct

namespace Wait

variable {α : Type}

def unlessStopped (next : Wait.Verdict → Proc α) (rest : Proc α) : Proc α :=
  .observe fun e => if e.stopping then next (.error .interrupted) else rest

def request (w : Wait) (next : Wait.Verdict → Proc α) : Proc α :=
  .call (.appRun w.tenant w.run) fun r =>
    match w.ofPoll r with
    | some v => next v
    | none => .instant fun elapsed =>
      match w.ofElapsed elapsed with
      | some v => next v
      | none => unlessStopped next (.await w next)

/-- A wait up to the end of its next poll. -/
def poll (w : Wait) (next : Wait.Verdict → Proc α) : Proc α :=
  unlessStopped next (w.request next)

end Wait

/-- What is left of an operation, and where it stands. -/
abbrev Point (α : Type) := Proc α × Situation

inductive Move {α : Type} (K : Conduct) : Point α → Point α → Prop where
  | observe {next s} : Move K (.observe next, s) (next s.engine, s)
  | update {c next s} : Move K (.update c next, s) (next, s.change c)
  | clock {next s} (t) : Move K (.clock next, s) (next t, s)
  | instant {next s} (t) : Move K (.instant next, s) (next t, s)
  | sample {next s} (w) : Move K (.sample next, s) (next w, s)
  | listing {next s l} : l.Perm s.engine.stored → Move K (.listing next, s) (next l, s)
  | call {c next s r s'} : K.Meets s c r s' → Move K (.call c next, s) (next r, s')
  | await {w next s} : Move K (.await w next, s) (w.poll next, s)

abbrev Execution {α : Type} (K : Conduct) : Point α → Point α → Prop :=
  Relation.ReflTransGen (Move K)

variable {α β : Type} {K : Conduct} {I : Situation → Prop}

namespace Proc

/-- From here the operation keeps `I` at every point that it comes to, and ends in `Q`. -/
def Assures (K : Conduct) (I : Situation → Prop) (Q : α → Situation → Prop) :
    Proc α → Situation → Prop
  | .done v, s => Q v s
  | .observe next, s => (next s.engine).Assures K I Q s
  | .update c next, s => I (s.change c) ∧ next.Assures K I Q (s.change c)
  | .clock next, s => ∀ t, (next t).Assures K I Q s
  | .instant next, s => ∀ t, (next t).Assures K I Q s
  | .sample next, s => ∀ w, (next w).Assures K I Q s
  | .listing next, s => ∀ l, l.Perm s.engine.stored → (next l).Assures K I Q s
  | .call c next, s => ∀ r s', K.Meets s c r s' → I s' ∧ (next r).Assures K I Q s'
  | .await w next, s => (∀ s', Relation.TransGen (K.Polls w) s s' → I s') ∧
      ∀ v s', K.Awaits w s v s' → (next v).Assures K I Q s'

theorem assures_bind {Q : β → Situation → Prop} (p : Proc α) (f : α → Proc β) (s : Situation) :
    (p.bind f).Assures K I Q s ↔ p.Assures K I (fun v s' => (f v).Assures K I Q s') s := by
  induction p generalizing s with
  | done v => rfl
  | observe next ih => exact ih _ s
  | update c next ih => exact and_congr Iff.rfl (ih _)
  | clock next ih => exact forall_congr' fun t => ih t s
  | instant next ih => exact forall_congr' fun t => ih t s
  | sample next ih => exact forall_congr' fun w => ih w s
  | listing next ih => exact forall_congr' fun l => imp_congr_right fun _ => ih l s
  | call c next ih =>
    exact forall_congr' fun r => forall_congr' fun s' => imp_congr_right fun _ =>
      and_congr Iff.rfl (ih r s')
  | await w next ih =>
    exact and_congr Iff.rfl <| forall_congr' fun v => forall_congr' fun s' =>
      imp_congr_right fun _ => ih v s'

theorem Assures.mono {I' : Situation → Prop} {Q Q' : α → Situation → Prop}
    (hi : ∀ s, I s → I' s) (hq : ∀ v s, Q v s → Q' v s) {p : Proc α} {s : Situation}
    (h : p.Assures K I Q s) : p.Assures K I' Q' s := by
  induction p generalizing s with
  | done v => exact hq v s h
  | observe next ih => exact ih _ h
  | update c next ih => exact ⟨hi _ h.1, ih h.2⟩
  | clock next ih => exact fun t => ih t (h t)
  | instant next ih => exact fun t => ih t (h t)
  | sample next ih => exact fun w => ih w (h w)
  | listing next ih => exact fun l hl => ih l (h l hl)
  | call c next ih => exact fun r s' hm => ⟨hi _ (h r s' hm).1, ih r (h r s' hm).2⟩
  | await w next ih =>
    exact ⟨fun s' hp => hi _ (h.1 s' hp), fun v s' ha => ih v (h.2 v s' ha)⟩

theorem assures_unlessStopped {Q : α → Situation → Prop} {next : Wait.Verdict → Proc α}
    {rest : Proc α} {s : Situation} (hstop : (next (.error .interrupted)).Assures K I Q s)
    (hrest : rest.Assures K I Q s) : (Wait.unlessStopped next rest).Assures K I Q s := by
  show Assures K I Q (if s.engine.stopping then _ else _) s
  split
  · exact hstop
  · exact hrest

theorem assures_poll {Q : α → Situation → Prop} {w : Wait} {next : Wait.Verdict → Proc α}
    {s : Situation} (h : (Proc.await w next).Assures K I Q s) :
    (w.poll next).Assures K I Q s := by
  obtain ⟨hpoll, hend⟩ := h
  refine assures_unlessStopped (hend _ s .stopped) ?_
  intro r s' hm
  refine ⟨hpoll s' (.single ⟨r, hm⟩), ?_⟩
  cases hr : w.ofPoll r with
  | some v => simpa only [hr] using hend v s' (.settled hm hr)
  | none =>
    simp only [hr]
    intro elapsed
    cases he : w.ofElapsed elapsed with
    | some v => simpa only [he] using hend v s' (.late hm hr he)
    | none =>
      simp only [he]
      refine assures_unlessStopped (hend _ s' (.again ⟨r, hm⟩ .stopped)) ?_
      exact ⟨fun s'' hp => hpoll s'' (.head ⟨r, hm⟩ hp),
        fun v s'' ha => hend v s'' (.again ⟨r, hm⟩ ha)⟩

end Proc

/-- Others and the provider do under `K` nothing that they may not do under `K'`. -/
structure Conduct.Within (K K' : Conduct) : Prop where
  meanwhile : ∀ {s t}, K.meanwhile s t → K'.meanwhile s t
  answers : ∀ {past c r}, K.answers past c r → K'.answers past c r

theorem Conduct.Meets.within {K K' : Conduct} (hk : K.Within K') {s : Situation}
    {c : ProviderCall} {r : c.Outcome} {s' : Situation} (h : K.Meets s c r s') :
    K'.Meets s c r s' := by
  obtain ⟨t, hm, ha, rfl⟩ := h
  exact ⟨t, hk.meanwhile hm, hk.answers ha, rfl⟩

theorem Move.within {K K' : Conduct} (hk : K.Within K') {x y : Point α} (h : Move K x y) :
    Move K' x y := by
  cases h with
  | observe => exact .observe
  | update => exact .update
  | clock t => exact .clock t
  | instant t => exact .instant t
  | sample w => exact .sample w
  | listing hl => exact .listing hl
  | call hm => exact .call (hm.within hk)
  | await => exact .await

theorem move_assured {K K' : Conduct} (hk : K'.Within K) {Q : α → Situation → Prop}
    {x y : Point α} (h : Move K' x y) (hi : I x.2) (ha : x.1.Assures K I Q x.2) :
    I y.2 ∧ y.1.Assures K I Q y.2 := by
  cases h.within hk with
  | observe => exact ⟨hi, ha⟩
  | update => exact ha
  | clock t => exact ⟨hi, ha t⟩
  | instant t => exact ⟨hi, ha t⟩
  | sample w => exact ⟨hi, ha w⟩
  | listing hl => exact ⟨hi, ha _ hl⟩
  | call hm => exact ha _ _ hm
  | await => exact ⟨hi, Proc.assures_poll ha⟩

/-- What an operation assures at its start holds at every point of its executions. -/
theorem execution_assured {Q : α → Situation → Prop} {x y : Point α} (h : Execution K x y)
    (hi : I x.2) (ha : x.1.Assures K I Q x.2) : I y.2 ∧ y.1.Assures K I Q y.2 := by
  induction h with
  | refl => exact ⟨hi, ha⟩
  | tail _ hmove ih => exact move_assured ⟨id, id⟩ hmove ih.1 ih.2

theorem execution_ends {Q : α → Situation → Prop} {x : Point α} {v : α} {s : Situation}
    (h : Execution K x (.done v, s)) (hi : I x.2) (ha : x.1.Assures K I Q x.2) :
    I s ∧ Q v s :=
  execution_assured h hi ha

section Answers

variable {answers : List Moment → (c : ProviderCall) → c.Outcome → Prop}
  (ha : ∀ past c, ∃ outcome, answers past c outcome)
include ha

theorem Conduct.solitary_meets (s : Situation) (b : Bool) (c : ProviderCall) : ∃ outcome,
    (Conduct.solitary answers).Meets s c outcome (s.called (s.toStory.flagged b) c outcome) := by
  obtain ⟨outcome, houtcome⟩ := ha (s.toStory.flagged b).past c
  exact ⟨outcome, _, ⟨b, rfl⟩, houtcome, rfl⟩

/-- The flag that stops waits may be raised during the first poll. -/
theorem Wait.can_end (w : Wait) {next : Wait.Verdict → Proc α}
    (hnext : ∀ v s, ∃ u s', Execution (.solitary answers) (next v, s) (.done u, s'))
    (s : Situation) : ∃ u s', Execution (.solitary answers) (w.poll next, s) (.done u, s') := by
  have hstopped : ∀ (s : Situation) (rest : Proc α), s.engine.stopping = true →
      ∃ u s', Execution (.solitary answers) (unlessStopped next rest, s) (.done u, s') := by
    intro s rest hstop
    obtain ⟨u, s', hx⟩ := hnext (.error .interrupted) s
    refine ⟨u, s', .head .observe ?_⟩
    rwa [if_pos hstop]
  by_cases hstop : s.engine.stopping = true
  · exact hstopped s _ hstop
  · obtain ⟨outcome, hmeet⟩ := Conduct.solitary_meets ha s true (.appRun w.tenant w.run)
    have hbegun : Execution (.solitary answers) (w.poll next, s) (w.request next, s) := by
      have hlook : Move (.solitary answers) (w.poll next, s)
          (if s.engine.stopping then next (.error .interrupted) else w.request next, s) := .observe
      rw [if_neg hstop] at hlook
      exact .single hlook
    have hcalled := hbegun.tail (.call hmeet)
    cases hr : w.ofPoll outcome with
    | some v =>
      simp only [hr] at hcalled
      obtain ⟨u, s', hx⟩ := hnext v _
      exact ⟨u, s', hcalled.trans hx⟩
    | none =>
      simp only [hr] at hcalled
      have hpolled := hcalled.tail (.instant 0)
      cases he : w.ofElapsed 0 with
      | some v =>
        simp only [he] at hpolled
        obtain ⟨u, s', hx⟩ := hnext v _
        exact ⟨u, s', hpolled.trans hx⟩
      | none =>
        simp only [he] at hpolled
        obtain ⟨u, s', hx⟩ := hstopped (s.called (s.toStory.flagged true) _ outcome) _ rfl
        exact ⟨u, s', hpolled.trans hx⟩

/-- If the provider has an answer to each call, an operation can be brought to its end. -/
theorem Proc.can_end (p : Proc α) (s : Situation) :
    ∃ v s', Execution (.solitary answers) (p, s) (.done v, s') := by
  induction p generalizing s with
  | done v => exact ⟨v, s, .refl⟩
  | observe next ih =>
    obtain ⟨v, s', hx⟩ := ih s.engine s
    exact ⟨v, s', .head .observe hx⟩
  | update c next ih =>
    obtain ⟨v, s', hx⟩ := ih (s.change c)
    exact ⟨v, s', .head .update hx⟩
  | clock next ih =>
    obtain ⟨v, s', hx⟩ := ih 0 s
    exact ⟨v, s', .head (.clock 0) hx⟩
  | instant next ih =>
    obtain ⟨v, s', hx⟩ := ih 0 s
    exact ⟨v, s', .head (.instant 0) hx⟩
  | sample next ih =>
    obtain ⟨v, s', hx⟩ := ih 0 s
    exact ⟨v, s', .head (.sample 0) hx⟩
  | listing next ih =>
    obtain ⟨v, s', hx⟩ := ih s.engine.stored s
    exact ⟨v, s', .head (.listing (.refl _)) hx⟩
  | call c next ih =>
    obtain ⟨outcome, hmeet⟩ := Conduct.solitary_meets ha s s.engine.stopping c
    obtain ⟨v, s', hx⟩ := ih outcome _
    exact ⟨v, s', .head (.call hmeet) hx⟩
  | await w next ih =>
    obtain ⟨v, s', hx⟩ := w.can_end ha ih s
    exact ⟨v, s', .head .await hx⟩

end Answers

end FlowEngine
