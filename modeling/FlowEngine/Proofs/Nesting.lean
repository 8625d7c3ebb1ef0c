import FlowEngine.Proofs.Tally
import Mathlib.Algebra.GroupWithZero.Nat

/-! # Nested operations

Operations can be entered while another one waits for the provider, to any depth; the one that was
entered last goes on until it is over. `Stacked` says of each operation in progress what it still
assures, provided that those above it leave nothing in progress.
-/
namespace FlowEngine

/-- An operation in progress: what is left of it, and what it has done. -/
structure Frame where
  request : Request
  rest : Proc request.Reply
  own : List Moment

def Waiting (stack : List Frame) : Prop :=
  ∀ fr ∈ stack.head?, ∃ c next, fr.rest = .call c next

/-- A story, and the operations in progress, the innermost first. -/
structure Machine where
  story : Story
  stack : List Frame

/-- An answer comes at once; what happens before it happens in operations of its own. -/
def Conduct.immediate : Conduct := ⟨fun s t => t = s, anyAnswer⟩

inductive Machine.Step (f : Facilities) : Machine → Machine → Prop where
  | flag {story stack} (b) : Waiting stack → Step f ⟨story, stack⟩ ⟨story.flagged b, stack⟩
  | enter {story stack} (q) : Waiting stack →
      Step f ⟨story, stack⟩ ⟨story, ⟨q, q.proc f, []⟩ :: stack⟩
  | act {story own below s'} {q : Request} {p p' : Proc q.Reply} :
      Move .immediate (p, ⟨story, own⟩) (p', s') →
      Step f ⟨story, ⟨q, p, own⟩ :: below⟩ ⟨s'.toStory, ⟨q, p', s'.own⟩ :: below⟩
  | leave {story own below} {q : Request} {r : q.Reply} :
      Step f ⟨story, ⟨q, .done r, own⟩ :: below⟩ ⟨story, below⟩

inductive Machine.Reachable (f : Facilities) : Machine → Prop where
  | opening (flows logging) : Reachable f ⟨.opening flows logging, []⟩
  | step {m m'} : Reachable f m → Step f m m' → Reachable f m'

/-- How often something is in progress in all operations together. -/
def Machine.inProgress {β : Type} [DecidableEq β] (m : Machine) (w : Watch β) (x : β) : Nat :=
  (m.stack.map fun fr => w.inProgress x fr.own).sum

/-- The operations in progress, the innermost of which has come to the given story. -/
inductive Stacked : Story → List Frame → Prop where
  | bottom {now flows logging} : (Story.opening flows logging).Calm now → Stacked now []
  | frame {base now fr below} : Stacked base below → Waiting below → Tally base ⟨now, fr.own⟩ →
      fr.rest.Assures .calm (Tally base) (fun _ s => Tally base s ∧ Finished s.own)
        ⟨now, fr.own⟩ → Stacked now (fr :: below)

theorem Story.proper_opening (flows : List Flow) (logging : Bool) :
    (Story.opening flows logging).Proper :=
  ⟨Engine.sound_opening flows logging, fun _ => rfl⟩

theorem Tally.calm {base now t : Story} {own : List Moment} (ht : Tally base ⟨now, own⟩)
    (hc : now.Calm t) : Tally base ⟨t, own⟩ := by
  refine ⟨ht.evolves.trans hc.evolves, hc.registry.trans ht.registry, hc.proper ht.proper, ?_, ?_⟩
  · intro x
    rw [hc.steps]
    exact ht.steps x
  · intro h
    rw [hc.runs]
    exact ht.runs h

theorem Tally.finished {base : Story} {s : Situation} (ht : Tally base s)
    (hs : Finished s.own) : base.Calm s.toStory :=
  ⟨ht.evolves, ht.registry, fun _ => ht.proper, ht.steps.same hs.1, ht.runs.same hs.2⟩

theorem Conduct.immediate_within : Conduct.immediate.Within .calm := by
  refine ⟨?_, id⟩
  rintro s t rfl
  exact Story.Calm.refl _

namespace Stacked

variable {f : Facilities} {now t : Story} {stack : List Frame}

theorem proper (h : Stacked now stack) : now.Proper := by
  cases h with
  | bottom hc => exact hc.proper (Story.proper_opening _ _)
  | frame _ _ ht _ => exact ht.proper

theorem calm (h : Stacked now stack) (hw : Waiting stack) (hc : now.Calm t) : Stacked t stack := by
  cases h with
  | bottom hc' => exact .bottom (hc'.trans hc)
  | @frame base _ fr below hbelow hwaiting ht hrest =>
    obtain ⟨c, next, hcall⟩ := hw fr rfl
    refine .frame hbelow hwaiting (ht.calm hc) ?_
    rw [hcall] at hrest ⊢
    rintro r s' ⟨u, hu, ha, rfl⟩
    exact hrest r _ ⟨u, hc.trans hu, ha, rfl⟩

theorem step {m m' : Machine} (hm : Stacked m.story m.stack) (h : m.Step f m') :
    Stacked m'.story m'.stack := by
  cases h with
  | flag b hw => exact hm.calm hw (Story.calm_flagged _ b)
  | enter q hw => exact .frame hm hw (Tally.enter hm.proper) (Request.tally f q hm.proper)
  | act hmove =>
    cases hm with
    | frame hbelow hwaiting ht hrest =>
      obtain ⟨ht', hrest'⟩ := move_assured Conduct.immediate_within hmove ht hrest
      exact .frame hbelow hwaiting ht' hrest'
  | leave =>
    cases hm with
    | frame hbelow hwaiting _ hdone => exact hbelow.calm hwaiting (hdone.1.finished hdone.2)

theorem reachable {m : Machine} (h : Machine.Reachable f m) : Stacked m.story m.stack := by
  induction h with
  | opening flows logging => exact .bottom (.refl _)
  | step _ hs ih => exact ih.step hs

theorem marked {β : Type} [DecidableEq β] {w : Watch β}
    (hcalm : ∀ {flows logging now}, (Story.opening flows logging).Calm now →
      ∀ x, w.marked now.engine x = false)
    (hagrees : ∀ {base s}, Tally base s → w.Agrees base.engine s) (h : Stacked now stack) (x : β) :
    (w.marked now.engine x).toNat = (stack.map fun fr => w.inProgress x fr.own).sum := by
  induction h with
  | bottom hc =>
    rw [hcalm hc]
    rfl
  | frame _ _ ht _ ih =>
    rw [List.map_cons, List.sum_cons, ← ih, Nat.add_comm]
    exact hagrees ht x

end Stacked

namespace Machine.Reachable

variable {f : Facilities} {m : Machine}

theorem dispatches (hm : Reachable f m) (h : Handle) (i : Nat) :
    (m.story.engine.isRunning h i).toNat = m.inProgress .dispatches (h, i) := by
  refine (Stacked.reachable hm).marked (w := .dispatches) ?_ (fun ht => ht.steps) (h, i)
  intro flows logging now hc x
  exact (hc.steps x).trans rfl

theorem runs (hm : Reachable f m) (h : Handle) :
    ((m.story.engine.session h).state == .running).toNat = m.inProgress .runs h := by
  refine (Stacked.reachable hm).marked (w := .runs) ?_ (fun ht => ht.runs) h
  intro flows logging now hc x
  exact (hc.runs x).trans rfl

end Machine.Reachable

section Sample

instance {α : Type} (p : Proc α) : Decidable (∃ c next, p = .call c next) :=
  match p with
  | .call c next => isTrue ⟨c, next, rfl⟩
  | .done _ | .observe _ | .update _ _ | .clock _ | .instant _ | .sample _ | .listing _
  | .await _ _ =>
    isFalse (by simp)

instance (stack : List Frame) : Decidable (Waiting stack) :=
  inferInstanceAs (Decidable (∀ fr ∈ stack.head?, _))

namespace Machine

def enter (f : Facilities) (q : Request) (m : Machine) : Machine :=
  if Waiting m.stack then ⟨m.story, ⟨q, q.proc f, []⟩ :: m.stack⟩ else m

def ahead (n : Nat) : Machine → Machine
  | ⟨story, ⟨q, p, own⟩ :: below⟩ =>
    let x := p.ahead (fun _ => Sample.echo) n ⟨story, own⟩
    ⟨x.2.toStory, ⟨q, x.1, x.2.own⟩ :: below⟩
  | m => m

def leave : Machine → Machine
  | ⟨story, ⟨_, .done _, _⟩ :: below⟩ => ⟨story, below⟩
  | m => m

variable {f : Facilities} {m : Machine}

theorem Reachable.enter (q : Request) (hm : Reachable f m) : Reachable f (m.enter f q) := by
  rw [Machine.enter]
  split
  · next hw => exact .step hm (.enter q hw)
  · exact hm

theorem Reachable.act {q : Request} {story : Story} {below : List Frame} {own : List Moment}
    {p : Proc q.Reply} {y : Point q.Reply} (hm : Reachable f ⟨story, ⟨q, p, own⟩ :: below⟩)
    (hx : Execution .immediate (p, ⟨story, own⟩) y) :
    Reachable f ⟨y.2.toStory, ⟨q, y.1, y.2.own⟩ :: below⟩ := by
  induction hx with
  | refl => exact hm
  | tail _ hmove ih => exact .step ih (.act hmove)

theorem Reachable.ahead (n : Nat) (hm : Reachable f m) : Reachable f (m.ahead n) := by
  rw [Machine.ahead.eq_def]
  split
  · exact hm.act (Proc.ahead_execution _ (fun s _ => ⟨s.toStory, rfl, trivial, rfl⟩) _ n _)
  · exact hm

theorem Reachable.leave (hm : Reachable f m) : Reachable f m.leave := by
  rw [Machine.leave.eq_def]
  split
  · exact .step hm .leave
  · exact hm

end Machine

namespace Sample

/-- The session is being run and its second step asks the service, while the first is run anew. -/
def nested : Machine :=
  let m : Machine := ⟨.opening [flow] false, []⟩
  let m := ((m.enter facilities create).ahead 0).leave
  let m := (m.enter facilities (.run "acme" "session-0-00000000")).ahead 1
  (m.enter facilities (.runStep "acme" "session-0-00000000" "draft" none false)).ahead 0

theorem reachable_nested : Machine.Reachable facilities nested :=
  ((((((Machine.Reachable.opening [flow] false).enter create).ahead 0).leave.enter _).ahead 1).enter
    _).ahead 0

end Sample

end Sample

/-- At every point, with operations nested in any way, a step is running if and only if one dispatch
of it is in progress, and a session is running if and only if one run of it is; there is never more
than one. Runs are numbered as they are started. When no operation is in progress, nothing is
running. -/
theorem running_iff_in_progress {f : Facilities} {m : Machine} (hm : Machine.Reachable f m) :
    (∀ h i, m.inProgress .dispatches (h, i) ≤ 1 ∧
      (m.story.engine.isRunning h i = true ↔ m.inProgress .dispatches (h, i) = 1)) ∧
    (∀ h, m.inProgress .runs h ≤ 1 ∧
      ((m.story.engine.session h).state = .running ↔ m.inProgress .runs h = 1)) ∧
    (∀ h, (m.story.engine.session h).generation = startedRuns h m.story.past) ∧
    (m.stack = [] → (∀ h i, m.story.engine.isRunning h i = false) ∧
      ∀ h, (m.story.engine.session h).state ≠ .running) := by
  have hstacked := Stacked.reachable hm
  have hsteps := hm.dispatches
  have hruns := hm.runs
  refine ⟨fun h i => ?_, fun h => ?_, hstacked.proper.numbered,
    fun hempty => ⟨fun h i => ?_, fun h => ?_⟩⟩
  · rw [← hsteps]
    cases m.story.engine.isRunning h i <;> decide
  · rw [← hruns]
    refine ⟨Bool.toNat_le _, ?_⟩
    by_cases hs : (m.story.engine.session h).state = .running <;> simp [hs]
  · have hnone := hsteps h i
    rw [Machine.inProgress, hempty] at hnone
    simpa using hnone
  · have hnone := hruns h
    rw [Machine.inProgress, hempty] at hnone
    simpa using hnone

/-- Two operations are in progress, and each of them has dispatched a step of the session. -/
theorem running_iff_in_progress_letter : Sample.nested.stack.length = 2 ∧
    (Sample.nested.story.engine.isRunning 0 0 = true ∧
      Sample.nested.inProgress .dispatches (0, 0) = 1) ∧
    (Sample.nested.story.engine.isRunning 0 1 = true ∧
      Sample.nested.inProgress .dispatches (0, 1) = 1) ∧
    (Sample.nested.story.engine.session 0).state = .running ∧
      Sample.nested.inProgress .runs 0 = 1 := by
  obtain ⟨hsteps, hruns, -, -⟩ := running_iff_in_progress Sample.reachable_nested
  have hdraft : Sample.nested.story.engine.isRunning 0 0 = true := by decide +kernel
  have hreview : Sample.nested.story.engine.isRunning 0 1 = true := by decide +kernel
  have hrun : (Sample.nested.story.engine.session 0).state = .running := by decide +kernel
  exact ⟨by decide +kernel, ⟨hdraft, (hsteps 0 0).2.mp hdraft⟩,
    ⟨hreview, (hsteps 0 1).2.mp hreview⟩, hrun, (hruns 0).2.mp hrun⟩

end FlowEngine
