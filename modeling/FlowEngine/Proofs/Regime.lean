import FlowEngine.Proofs.Nesting

/-! # Nested operations under a regime

A regime says which requests are made and what the provider may answer. `Machine.Under` has the
machines that are reached under it; where nothing is forbidden, all that can be reached is.
-/
namespace FlowEngine

structure Regime where
  allows : Request → Prop
  answers : List Moment → (c : ProviderCall) → c.Outcome → Prop

/-- An answer comes at once, and is one of those that are given after such a past. -/
def Conduct.prompt (answers : List Moment → (c : ProviderCall) → c.Outcome → Prop) : Conduct where
  meanwhile s t := t = s
  answers := answers

/-- Operations that the regime allows have been entered, made to go on, and left. -/
inductive Machine.Under (R : Regime) (f : Facilities) : Machine → Prop where
  | opening (flows logging) : Under R f ⟨.opening flows logging, []⟩
  | flag {story stack} (b) : Under R f ⟨story, stack⟩ → Waiting stack →
      Under R f ⟨story.flagged b, stack⟩
  | enter {story stack} (q) : Under R f ⟨story, stack⟩ → Waiting stack → R.allows q →
      Under R f ⟨story, ⟨q, q.proc f, []⟩ :: stack⟩
  | act {story own below s'} {q : Request} {p p' : Proc q.Reply} :
      Under R f ⟨story, ⟨q, p, own⟩ :: below⟩ → Move (.prompt R.answers) (p, ⟨story, own⟩) (p', s') →
      Under R f ⟨s'.toStory, ⟨q, p', s'.own⟩ :: below⟩
  | leave {story own below} {q : Request} {r : q.Reply} :
      Under R f ⟨story, ⟨q, .done r, own⟩ :: below⟩ → Under R f ⟨story, below⟩

namespace Regime

/-- All requests are made, and the provider may answer anything. -/
def lax : Regime := ⟨fun _ => True, Conduct.anyAnswer⟩

end Regime

namespace Machine

variable {R : Regime} {f : Facilities} {m : Machine}

/-- Has the innermost operation go on to a call, after as many as given have been answered. -/
def advance (answer : List Moment → (c : ProviderCall) → c.Outcome) (n : Nat) : Machine → Machine
  | ⟨story, ⟨q, p, own⟩ :: below⟩ =>
    let x := p.ahead answer n ⟨story, own⟩
    ⟨x.2.toStory, ⟨q, x.1, x.2.own⟩ :: below⟩
  | m => m

/-- Has a request served: it is made, and its operation is left after some answers. -/
def serve (f : Facilities) (answer : List Moment → (c : ProviderCall) → c.Outcome) (q : Request)
    (n : Nat) (m : Machine) : Machine :=
  ((m.enter f q).advance answer n).leave

theorem Under.lax (hm : m.Under R f) : m.Under .lax f := by
  induction hm with
  | opening flows logging => exact .opening flows logging
  | flag b _ hw ih => exact .flag b ih hw
  | enter q _ hw _ ih => exact .enter q ih hw trivial
  | @act story own below s' q p p' _ hmove ih =>
    have hwithin : (Conduct.prompt R.answers).Within (.prompt Regime.lax.answers) :=
      ⟨id, fun _ => trivial⟩
    exact .act ih (hmove.within hwithin)
  | leave _ ih => exact .leave ih

theorem Under.reachable (hm : m.Under R f) : Reachable f m := by
  induction hm with
  | opening flows logging => exact .opening flows logging
  | flag b _ hw ih => exact .step ih (.flag b hw)
  | enter q _ hw _ ih => exact .step ih (.enter q hw)
  | act _ hmove ih =>
    have hwithin : (Conduct.prompt R.answers).Within .immediate := ⟨id, fun _ => trivial⟩
    exact .step ih (.act (hmove.within hwithin))
  | leave _ ih => exact .step ih .leave

theorem Under.entered {q : Request} (hm : m.Under R f) (hq : R.allows q) :
    (m.enter f q).Under R f := by
  rw [Machine.enter]
  split
  · next hw => exact .enter q hm hw hq
  · exact hm

theorem Under.executed {q : Request} {story : Story} {below : List Frame} {own : List Moment}
    {p : Proc q.Reply} {y : Point q.Reply} (hm : Under R f ⟨story, ⟨q, p, own⟩ :: below⟩)
    (hx : Execution (.prompt R.answers) (p, ⟨story, own⟩) y) :
    Under R f ⟨y.2.toStory, ⟨q, y.1, y.2.own⟩ :: below⟩ := by
  induction hx with
  | refl => exact hm
  | tail _ hmove ih => exact .act ih hmove

theorem Under.advanced {answer : List Moment → (c : ProviderCall) → c.Outcome}
    (ha : ∀ past c, R.answers past c (answer past c)) (n : Nat) (hm : m.Under R f) :
    (m.advance answer n).Under R f := by
  rw [Machine.advance.eq_def]
  split
  · have hmeets : ∀ s c, (Conduct.prompt R.answers).Meets s c (answer s.past c)
        (s.called s.toStory c (answer s.past c)) := fun s c => ⟨s.toStory, rfl, ha s.past c, rfl⟩
    exact hm.executed (Proc.ahead_execution answer hmeets _ n _)
  · exact hm

theorem Under.left (hm : m.Under R f) : m.leave.Under R f := by
  rw [Machine.leave.eq_def]
  split
  · exact .leave hm
  · exact hm

theorem Under.served {answer : List Moment → (c : ProviderCall) → c.Outcome}
    (ha : ∀ past c, R.answers past c (answer past c)) {q : Request} (hq : R.allows q) (n : Nat)
    (hm : m.Under R f) : (m.serve f answer q n).Under R f :=
  ((hm.entered hq).advanced ha n).left

end Machine

end FlowEngine
