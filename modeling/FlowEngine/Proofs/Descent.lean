import FlowEngine.Proofs.Supplies
import Mathlib.Data.List.Perm.Subperm

/-! # How far required steps lead

Running a step leads to the steps that it requires, and so on. The layout of a session puts every
step after those that it requires, so the chain gets no longer than the steps are many, and what
would be done further down is never come to. An operation comes to its end as long as every call
that it makes comes back.
-/
namespace FlowEngine

variable {α β : Type} {K : Conduct}

/-! ## Operations in step with each other -/

namespace Proc

/-- Started with the engine, both operations do the same, provided that no session gets lost during
a call. -/
inductive Tracks : Engine → Proc α → Proc α → Prop where
  | done {e} (v) : Tracks e (.done v) (.done v)
  | observe {e next next'} : Tracks e (next e) (next' e) → Tracks e (.observe next) (.observe next')
  | update {e c p p'} : Tracks (c.apply e) p p' → Tracks e (.update c p) (.update c p')
  | clock {e next next'} : (∀ t, Tracks e (next t) (next' t)) →
      Tracks e (.clock next) (.clock next')
  | instant {e next next'} : (∀ t, Tracks e (next t) (next' t)) →
      Tracks e (.instant next) (.instant next')
  | sample {e next next'} : (∀ w, Tracks e (next w) (next' w)) →
      Tracks e (.sample next) (.sample next')
  | listing {e next next'} : (∀ l, Tracks e (next l) (next' l)) →
      Tracks e (.listing next) (.listing next')
  | call {e c next next'} : (∀ r e', e.Evolves e' → Tracks e' (next r) (next' r)) →
      Tracks e (.call c next) (.call c next')
  | await {e w next next'} : (∀ v e', e.Evolves e' → Tracks e' (next v) (next' v)) →
      Tracks e (.await w next) (.await w next')

namespace Tracks

variable {e : Engine} {p p' : Proc α} {s : Situation} {y : Point α}

protected theorem refl (e : Engine) (p : Proc α) : Tracks e p p := by
  induction p generalizing e with
  | done v => exact .done v
  | observe next ih => exact .observe (ih e e)
  | update c next ih => exact .update (ih _)
  | clock next ih => exact .clock fun t => ih t e
  | instant next ih => exact .instant fun t => ih t e
  | sample next ih => exact .sample fun w => ih w e
  | listing next ih => exact .listing fun l => ih l e
  | call c next ih => exact .call fun r e' _ => ih r e'
  | await w next ih => exact .await fun v e' _ => ih v e'

protected theorem symm (h : Tracks e p p') : Tracks e p' p := by
  induction h with
  | done v => exact .done v
  | observe _ ih => exact .observe ih
  | update _ ih => exact .update ih
  | clock _ ih => exact .clock ih
  | instant _ ih => exact .instant ih
  | sample _ ih => exact .sample ih
  | listing _ ih => exact .listing ih
  | call _ ih => exact .call ih
  | await _ ih => exact .await ih

theorem bind {f f' : α → Proc β} (h : Tracks e p p')
    (hf : ∀ v e', e.Evolves e' → Tracks e' (f v) (f' v)) : Tracks e (p.bind f) (p'.bind f') := by
  induction h with
  | done v => exact hf v _ (.refl _)
  | observe _ ih => exact .observe (ih hf)
  | update _ ih =>
    exact .update (ih fun v e' he => hf v e' ((Change.evolves_apply _ _).trans he))
  | clock _ ih => exact .clock fun t => ih t hf
  | instant _ ih => exact .instant fun t => ih t hf
  | sample _ ih => exact .sample fun w => ih w hf
  | listing _ ih => exact .listing fun l => ih l hf
  | call _ ih => exact .call fun r e' he => ih r e' he fun v d hd => hf v d (he.trans hd)
  | await _ ih => exact .await fun v e' he => ih v e' he fun u d hd => hf u d (he.trans hd)

theorem unlessStopped {next next' : Wait.Verdict → Proc α}
    (hstop : Tracks e (next (.error .interrupted)) (next' (.error .interrupted)))
    (h : Tracks e p p') : Tracks e (Wait.unlessStopped next p) (Wait.unlessStopped next' p') := by
  refine .observe ?_
  split
  · exact hstop
  · exact h

theorem poll {w : Wait} {next next' : Wait.Verdict → Proc α}
    (h : ∀ v e', e.Evolves e' → Tracks e' (next v) (next' v)) :
    Tracks e (w.poll next) (w.poll next') := by
  refine unlessStopped (h _ e (.refl e)) (.call fun r e' he => ?_)
  cases w.ofPoll r with
  | some v => exact h v e' he
  | none =>
    refine .instant fun elapsed => ?_
    cases w.ofElapsed elapsed with
    | some v => exact h v e' he
    | none =>
      exact unlessStopped (h _ e' he) (.await fun v d hd => h v d (he.trans hd))

theorem move (hK : K.Evolving) (h : Tracks s.engine p p') (hm : Move K (p, s) y) :
    ∃ q, Move K (p', s) (q, y.2) ∧ Tracks y.2.engine y.1 q := by
  cases hm with
  | observe =>
    cases h with
    | observe h => exact ⟨_, .observe, h⟩
  | update =>
    cases h with
    | update h => exact ⟨_, .update, h⟩
  | clock t =>
    cases h with
    | clock h => exact ⟨_, .clock t, h t⟩
  | instant t =>
    cases h with
    | instant h => exact ⟨_, .instant t, h t⟩
  | sample w =>
    cases h with
    | sample h => exact ⟨_, .sample w, h w⟩
  | listing hl =>
    cases h with
    | listing h => exact ⟨_, .listing hl, h _⟩
  | call hm =>
    cases h with
    | call h => exact ⟨_, .call hm, h _ _ (hm.evolves hK)⟩
  | await =>
    cases h with
    | await h => exact ⟨_, .await, poll h⟩

theorem execution (hK : K.Evolving) (h : Tracks s.engine p p') (hx : Execution K (p, s) y) :
    ∃ q, Execution K (p', s) (q, y.2) ∧ Tracks y.2.engine y.1 q := by
  induction hx with
  | refl => exact ⟨p', .refl, h⟩
  | tail _ hmove ih =>
    obtain ⟨q, hq, htracks⟩ := ih
    obtain ⟨q', hmove', htracks'⟩ := htracks.move hK hmove
    exact ⟨q', hq.tail hmove', htracks'⟩

theorem ends (hK : K.Evolving) (h : Tracks s.engine p p') {v : α} {s' : Situation}
    (hx : Execution K (p, s) (.done v, s')) : Execution K (p', s) (.done v, s') := by
  obtain ⟨q, hq, htracks⟩ := h.execution hK hx
  cases htracks
  exact hq

end Tracks

/-- Both operations come to the same situations, and end with the same values. -/
structure Coincide (K : Conduct) (p p' : Proc α) (s : Situation) : Prop where
  passes : ∀ s', (∃ q, Execution K (p, s) (q, s')) ↔ ∃ q, Execution K (p', s) (q, s')
  ends : ∀ v s', Execution K (p, s) (.done v, s') ↔ Execution K (p', s) (.done v, s')

theorem Coincide.observed {next : Engine → Proc α} {p : Proc α} {s : Situation}
    (h : Coincide K (next s.engine) p s) : Coincide K (.observe next) p s := by
  constructor
  · intro s'
    constructor
    · rintro ⟨q, hq⟩
      rcases Relation.ReflTransGen.cases_head hq with heq | ⟨_, hmove, hrest⟩
      · cases heq
        exact ⟨p, .refl⟩
      · cases hmove
        exact (h.passes s').mp ⟨q, hrest⟩
    · intro hp
      obtain ⟨q, hq⟩ := (h.passes s').mpr hp
      exact ⟨q, .head .observe hq⟩
  · intro v s'
    constructor
    · intro hq
      rcases Relation.ReflTransGen.cases_head hq with heq | ⟨_, hmove, hrest⟩
      · cases heq
      · cases hmove
        exact (h.ends v s').mp hrest
    · exact fun hp => .head .observe ((h.ends v s').mpr hp)

theorem Tracks.coincide {p p' : Proc α} {s : Situation} (hK : K.Evolving)
    (h : Tracks s.engine p p') : Coincide K p p' s := by
  refine ⟨fun s' => ⟨?_, ?_⟩, fun v s' => ⟨h.ends hK, h.symm.ends hK⟩⟩
  · rintro ⟨q, hq⟩
    obtain ⟨q', hq', -⟩ := h.execution hK hq
    exact ⟨q', hq'⟩
  · rintro ⟨q, hq⟩
    obtain ⟨q', hq', -⟩ := h.symm.execution hK hq
    exact ⟨q', hq'⟩

end Proc

/-! ## Termination -/

/-- A move, or the whole of a wait: it is up to the provider that a wait comes to an end. -/
inductive Stride (K : Conduct) : Point α → Point α → Prop where
  | move {p s y} : (∀ w next, p ≠ .await w next) → Move K (p, s) y → Stride K (p, s) y
  | wait {w next s v s'} : K.Awaits w s v s' → Stride K (.await w next, s) (next v, s')

/-- Every call that is made from here on comes back. -/
def Answered (K : Conduct) (x : Point α) : Prop :=
  ∀ c next s, Relation.ReflTransGen (Stride K) x (.call c next, s) → ∃ r s', K.Meets s c r s'

/-- The operation cannot go on for ever, and does not stop before it is done. -/
structure Terminates (K : Conduct) (x : Point α) : Prop where
  ends : Acc (fun y x => Stride K x y) x
  completes : ∀ y, Relation.ReflTransGen (Stride K) x y → (∀ z, ¬ Stride K y z) →
    ∃ v, y.1 = .done v

theorem Stride.acc (p : Proc α) (s : Situation) : Acc (fun y x => Stride K x y) (p, s) := by
  induction p generalizing s with
  | done v =>
    refine ⟨_, ?_⟩
    rintro y (⟨-, ⟨⟩⟩ | _)
  | update c next ih =>
    refine ⟨_, ?_⟩
    rintro y (⟨-, ⟨⟩⟩ | _)
    exact ih _
  | observe next ih | clock next ih | instant next ih | sample next ih | listing next ih
  | call c next ih =>
    refine ⟨_, ?_⟩
    rintro y (⟨-, ⟨⟩⟩ | _)
    exact ih _ _
  | await w next ih =>
    refine ⟨_, ?_⟩
    rintro y (⟨hnot, -⟩ | _)
    · exact absurd rfl (hnot w next)
    · exact ih _ _

theorem Answered.terminates {x : Point α} (h : Answered K x) : Terminates K x := by
  refine ⟨Stride.acc x.1 x.2, ?_⟩
  rintro ⟨p, s⟩ hx hstuck
  cases p with
  | done v => exact ⟨v, rfl⟩
  | observe next => exact absurd (.move nofun .observe) (hstuck _)
  | update c next => exact absurd (.move nofun .update) (hstuck _)
  | clock next => exact absurd (.move nofun (.clock 0)) (hstuck _)
  | instant next => exact absurd (.move nofun (.instant 0)) (hstuck _)
  | sample next => exact absurd (.move nofun (.sample 0)) (hstuck _)
  | listing next => exact absurd (.move nofun (.listing (.refl _))) (hstuck _)
  | call c next =>
    obtain ⟨r, s', hm⟩ := h c next s hx
    exact absurd (.move nofun (.call hm)) (hstuck _)
  | await w next => exact absurd (.wait .stopped) (hstuck _)

namespace Proc.Tracks

variable {s : Situation} {p p' : Proc α} {y : Point α}

theorem stride (hK : K.Evolving) (h : Tracks s.engine p p') (hx : Stride K (p, s) y) :
    ∃ q, Stride K (p', s) (q, y.2) ∧ Tracks y.2.engine y.1 q := by
  cases hx with
  | move hnot hm =>
    obtain ⟨q, hq, htracks⟩ := h.move hK hm
    refine ⟨q, .move ?_ hq, htracks⟩
    rintro w next rfl
    cases h
    exact hnot _ _ rfl
  | wait hw =>
    cases h with
    | await h => exact ⟨_, .wait hw, h _ _ (hw.evolves hK)⟩

theorem strides (hK : K.Evolving) (h : Tracks s.engine p p')
    (hx : Relation.ReflTransGen (Stride K) (p, s) y) :
    ∃ q, Relation.ReflTransGen (Stride K) (p', s) (q, y.2) ∧ Tracks y.2.engine y.1 q := by
  induction hx with
  | refl => exact ⟨p', .refl, h⟩
  | tail _ hstride ih =>
    obtain ⟨q, hq, htracks⟩ := ih
    obtain ⟨q', hstride', htracks'⟩ := htracks.stride hK hstride
    exact ⟨q', hq.tail hstride', htracks'⟩

theorem answered (hK : K.Evolving) (h : Tracks s.engine p p') (ha : Answered K (p, s)) :
    Answered K (p', s) := by
  intro c next s' hx
  obtain ⟨q, hq, htracks⟩ := h.symm.strides hK hx
  cases htracks
  exact ha c _ s' hq

end Proc.Tracks

/-- Both operations do the same, and terminate if the calls that the first makes come back. -/
structure Proc.EndAlike (K : Conduct) (p p' : Proc α) (s : Situation) : Prop where
  coincide : Coincide K p p' s
  terminate : Answered K (p, s) → Terminates K (p, s) ∧ Terminates K (p', s)

theorem Proc.EndAlike.of_tracks {p p' : Proc α} {s : Situation} (hK : K.Evolving)
    (h : Tracks s.engine p p') : EndAlike K p p' s :=
  ⟨h.coincide hK, fun ha => ⟨ha.terminates, (h.answered hK ha).terminates⟩⟩

namespace Attempt

variable {e : Engine}

def Tracks (e : Engine) (a b : Attempt α) : Prop := Proc.Tracks e a.run b.run

theorem Tracks.bind {a b : Attempt α} {f g : α → Attempt β} (h : Tracks e a b)
    (hf : ∀ v e', e.Evolves e' → Tracks e' (f v) (g v)) : Tracks e (a >>= f) (b >>= g) := by
  refine Proc.Tracks.bind h ?_
  rintro (fault | v) e' he
  · exact .refl _ _
  · exact hf v e' he

theorem Tracks.outcome {a b : Attempt α} (h : Tracks e a b) : Tracks e a.outcome b.outcome :=
  Proc.Tracks.bind h fun _ _ _ => .refl _ _

theorem tracks_session {h : Handle} {f g : Session → Attempt α}
    (hf : Tracks e (f (e.session h)) (g (e.session h))) :
    Tracks e ((Proc.session h : Attempt Session) >>= f)
      ((Proc.session h : Attempt Session) >>= g) :=
  .observe hf

theorem tracks_ofExcept {r : Except EngineFault α} {f g : α → Attempt β}
    (hf : ∀ v, r = .ok v → Tracks e (f v) (g v)) :
    Tracks e (ofExcept r >>= f) (ofExcept r >>= g) := by
  cases r with
  | ok v => exact hf v rfl
  | error fault => exact .refl _ _

theorem tracks_forM {γ : Type} {f g : γ → Attempt PUnit} (l : List γ)
    (hf : ∀ x ∈ l, ∀ e', e.Evolves e' → Tracks e' (f x) (g x)) :
    Tracks e (l.forM f) (l.forM g) := by
  induction l generalizing e with
  | nil => exact .refl _ _
  | cons x rest ih =>
    refine (hf x List.mem_cons_self e (.refl e)).bind fun _ e' he => ih fun y hy e'' he' => ?_
    exact hf y (List.mem_cons_of_mem _ hy) e'' (he.trans he')

end Attempt

/-! ## The chain of required steps -/

theorem SessionOutline.WellLaid.length_le {t : SessionOutline} (ht : t.WellLaid) :
    t.steps.length ≤ t.flow.steps.length := by
  have hsub : t.steps.map (fun x => x.step.id) ⊆ t.flow.steps.map Step.id := by
    intro id hid
    obtain ⟨x, hx, rfl⟩ := List.mem_map.mp hid
    exact List.mem_map_of_mem (ht.laid.declares hx)
  simpa using (ht.laid.distinct.subperm hsub).length_le

namespace Steps

variable {o : StepOrder} {t : SessionOutline} {e : Engine} (d : Dispatcher)

/-- Runs a step, and `below` the steps that it requires. -/
def level (d : Dispatcher) (o : StepOrder) (below : List String → String → Attempt StepReport)
    (active : List String) (step : String) : Attempt StepReport := do
  let s ← Proc.session o.session
  let x ← Attempt.ofExcept (s.execution step)
  if step ∈ active then throw (.cyclicDependency step)
  else if x.record.isRunning then throw (.stepRunning x.id)
  else
    (if o.withRequired then s.graph.requiredOf x else []).forM fun required =>
      runRequired (below (step :: active)) o x required
    runAlone d o x

/-- The chain of required steps down to a depth; `floor` is what is done further down. -/
def descend (d : Dispatcher) (o : StepOrder) (floor : List String → String → Attempt StepReport) :
    Nat → List String → String → Attempt StepReport
  | 0 => floor
  | depth + 1 => level d o (descend d o floor depth)

def runWithin (d : Dispatcher) (o : StepOrder) (floor : List String → String → Attempt StepReport)
    (depth : Nat) (step : String) : Attempt StepReport := do
  let _ ← Proc.session o.session
  descend d o floor depth [] step

/-- The bound of a run is one such floor. -/
theorem runGuarded_eq_descend (depth : Nat) :
    runGuarded d o depth = descend d o (runGuarded d o 0) depth := by
  induction depth with
  | zero => rfl
  | succ depth ih =>
    funext active step
    rw [runGuarded_succ, ih]
    rfl

theorem runRequired_tracks {run run' : String → Attempt StepReport} (x required : StepExecution)
    (h : Attempt.Tracks e (run required.step.id.text) (run' required.step.id.text)) :
    Attempt.Tracks e (runRequired run o x required) (runRequired run' o x required) := by
  refine Attempt.tracks_session ?_
  split
  · exact .refl _ _
  · exact h.outcome.bind fun r e' _ => .refl _ _

/-- Where a chain has room for the steps before the one that it has come to, it is all the same what
is done further down. -/
theorem descend_tracks (ht : t.WellLaid) (floor floor' : List String → String → Attempt StepReport)
    (depth depth' : Nat) (active : List String) {i : Nat} {y : StepOutline}
    (hy : t.steps[i]? = some y) (hdepth : i < depth) (hdepth' : i < depth')
    (hh : e.Hosts o.session t) :
    Attempt.Tracks e (descend d o floor depth active y.step.id.text)
      (descend d o floor' depth' active y.step.id.text) := by
  -- a required step is laid out before the step, so its position has room in what is left
  induction depth generalizing depth' active i y e with
  | zero => exact absurd hdepth (Nat.not_lt_zero i)
  | succ depth ih =>
    cases depth' with
    | zero => exact absurd hdepth' (Nat.not_lt_zero i)
    | succ depth' =>
      obtain ⟨x, hx, ho, -, -⟩ := hh.execution ht hy
      refine Attempt.tracks_session (Attempt.tracks_ofExcept ?_)
      rintro z hz
      cases hx.symm.trans hz
      by_cases hin : y.step.id.text ∈ active
      · simp only [if_pos hin]
        exact .refl _ _
      · by_cases hrunning : x.record.isRunning = true
        · simp only [if_neg hin, if_pos hrunning]
          exact .refl _ _
        · simp only [if_neg hin, if_neg hrunning]
          obtain ⟨-, hnodes⟩ := hh.requirements ht hy ho
          refine (Attempt.tracks_forM _ fun r hr e' he => ?_).bind fun _ e' _ => .refl _ _
          obtain ⟨hrnode, hrreq⟩ := hnodes r hr
          have hlt : r.index < i := SessionOutline.Requires.lt ht ⟨y, hy, hrreq⟩
          exact runRequired_tracks x r (ih depth' (y.step.id.text :: active) hrnode
            (Nat.lt_of_lt_of_le hlt (Nat.le_of_lt_succ hdepth))
            (Nat.lt_of_lt_of_le hlt (Nat.le_of_lt_succ hdepth')) (hh.evolve he))

section Bound

variable (ht : t.WellLaid) (floor : List String → String → Attempt StepReport) {i : Nat}
  {y : StepOutline} (hy : t.steps[i]? = some y) {depth : Nat} (hdepth : t.flow.steps.length ≤ depth)
include ht hy hdepth

theorem runGuarded_tracks (hh : e.Hosts o.session t) :
    Attempt.Tracks e (runGuarded d o (e.session o.session).graph.nodes.length [] y.step.id.text)
      (descend d o floor depth [] y.step.id.text) := by
  have hlt : i < t.steps.length := (List.getElem?_eq_some_iff.mp hy).1
  have hnodes : (e.session o.session).graph.nodes.length = t.steps.length := by
    rw [← hh.outline, Session.outline, List.length_map]
  rw [runGuarded_eq_descend, hnodes]
  exact descend_tracks d ht (runGuarded d o 0) floor t.steps.length depth [] hy hlt
    (Nat.lt_of_lt_of_le hlt (Nat.le_trans ht.length_le hdepth)) hh

theorem runStep_coincides (hK : K.Evolving) {s : Situation}
    (hh : s.engine.Hosts o.session t) :
    Proc.Coincide K (runStep d o y.step.id.text).run
      (descend d o floor depth [] y.step.id.text).run s :=
  .observed (Proc.Tracks.coincide hK (runGuarded_tracks d ht floor hy hdepth hh))

theorem runStep_tracks (hh : e.Hosts o.session t) :
    Attempt.Tracks e (runStep d o y.step.id.text) (runWithin d o floor depth y.step.id.text) :=
  Attempt.tracks_session (runGuarded_tracks d ht floor hy hdepth hh)

end Bound

end Steps

namespace Sessions

variable {e : Engine} {t : SessionOutline} {h : Handle} {tenant id : String}

theorem tracks_find {f g : Handle → Attempt α}
    (hf : ∀ h, e.find? id = some h → Attempt.Tracks e (f h) (g h)) :
    Attempt.Tracks e (find tenant id >>= f) (find tenant id >>= g) := by
  refine .observe ?_
  simp only [Proc.bind, Function.comp_apply, ExceptT.bindCont]
  split
  · next h howned => exact hf h (Option.filter_eq_some_iff.mp howned).1
  · exact .refl _ _

theorem runInTurn_tracks {run run' : String → Attempt StepReport} (g : Nat) (x : StepExecution)
    (hrun : Attempt.Tracks e (run x.step.id.text) (run' x.step.id.text)) :
    Attempt.Tracks e (runInTurn run h g x) (runInTurn run' h g x) := by
  refine Attempt.tracks_session ?_
  split
  · exact .refl _ _
  · exact hrun.bind fun _ _ _ => .refl _ _

theorem runAllSteps_tracks {run run' : String → Attempt StepReport} (ht : t.WellLaid) (g : Nat)
    (hh : e.Hosts h t) (hrun : ∀ (e' : Engine) (i : Nat) (y : StepOutline), e'.Hosts h t →
      t.steps[i]? = some y →
      Attempt.Tracks e' (run y.step.id.text) (run' y.step.id.text)) :
    Attempt.Tracks e (runAllSteps run tenant h g) (runAllSteps run' tenant h g) := by
  refine Attempt.Tracks.bind (.refl _ _) fun _ e' he => Attempt.tracks_session ?_
  obtain ⟨-, hnodes⟩ := inOrder_steps (hh.evolve he) ht
  refine Attempt.tracks_forM _ fun x hx e'' he' => runInTurn_tracks g x ?_
  exact hrun e'' x.index x.outline ((hh.evolve he).evolve he') (hnodes x hx)

section Bound

variable (hs : e.Sound) (f : Facilities) (floor : List String → String → Attempt StepReport)
  {depth : Nat}
  (hdepth : ∀ h, e.find? id = some h → (e.session h).flow.steps.length ≤ depth)
include hs hdepth

theorem run_tracks :
    Attempt.Tracks e (run f tenant id)
      (runBy (fun h => Steps.runWithin f.dispatcher ⟨tenant, h, none, true⟩ floor depth) tenant
        id) := by
  refine tracks_find fun h hf => Attempt.tracks_session (Attempt.tracks_ofExcept ?_)
  rintro ⟨g, _⟩ -
  have hh := find?_hosts hs hf
  have ht := hs.laid h _ hh
  refine Attempt.Tracks.bind (.refl _ _) fun _ e' he => ?_
  refine Attempt.Tracks.bind (.refl _ _) fun _ e'' he' => ?_
  refine Attempt.Tracks.bind (Attempt.Tracks.outcome ?_) fun _ _ _ => .refl _ _
  refine runAllSteps_tracks ht g (hh.evolve (he.trans he')) fun d i y hd hy => ?_
  exact Steps.runStep_tracks f.dispatcher ht floor hy (hdepth h hf) hd

theorem runStep_tracks (step : String) (userInput : Option String) (withRequired : Bool) :
    Attempt.Tracks e (runStep f tenant id step userInput withRequired)
      (runStepBy (fun h => Steps.runWithin f.dispatcher ⟨tenant, h, userInput, withRequired⟩ floor
        depth) tenant id step) := by
  refine tracks_find fun h hf => Attempt.tracks_session (Attempt.tracks_ofExcept ?_)
  intro x hx
  have hh := find?_hosts hs hf
  have ht := hs.laid h _ hh
  obtain ⟨hy, rfl⟩ := hh.of_execution ht hx
  by_cases hcreated : (e.session h).state = .created
  · simp only [if_pos hcreated]
    exact .refl _ _
  · by_cases hrunning : x.record.isRunning = true
    · simp only [if_neg hcreated, if_pos hrunning]
      exact .refl _ _
    · simp only [if_neg hcreated, if_neg hrunning]
      exact Steps.runStep_tracks f.dispatcher ht floor hy (hdepth h hf) hh

end Bound

end Sessions

theorem Conduct.immediate_evolving : Conduct.immediate.Evolving := by
  rintro s t rfl
  exact .refl _

/-- With operations nested in any way, a run of a session, or of a step of one, is the same whatever
would be done below as many levels of required steps as the flow has steps, and it terminates if the
calls that it makes come back. So it is with a step that others require. A request that runs steps
with those that they require writes down no failure but those of targets, and what it fails with is
not to blame on the flow, unless the step that is asked for is not of it. -/
theorem runs_terminate_blameless {f : Facilities} {m : Machine} (hm : Machine.Reachable f m) :
    (∀ (K : Conduct) (tenant id : String) (floor : List String → String → Attempt StepReport)
      (depth : Nat), K.Evolving →
      (∀ h, m.story.engine.find? id = some h →
        (m.story.engine.session h).flow.steps.length ≤ depth) →
      Proc.EndAlike K (Sessions.run f tenant id).run
        (Sessions.runBy (fun h => Steps.runWithin f.dispatcher ⟨tenant, h, none, true⟩ floor depth)
          tenant id).run m.story.enter ∧
      ∀ (step : String) (userInput : Option String) (withRequired : Bool),
        Proc.EndAlike K (Sessions.runStep f tenant id step userInput withRequired).run
          (Sessions.runStepBy (fun h => Steps.runWithin f.dispatcher
            ⟨tenant, h, userInput, withRequired⟩ floor depth) tenant id step).run m.story.enter) ∧
    (∀ (K : Conduct) (o : StepOrder) (own : List Moment)
      (floor : List String → String → Attempt StepReport) (depth : Nat), K.Evolving →
      o.session < m.story.engine.sessions.length →
      (m.story.engine.session o.session).flow.steps.length ≤ depth →
      ∀ step ∈ (m.story.engine.session o.session).flow.steps,
        Proc.Coincide K (Steps.runStep f.dispatcher o step.id.text).run
          (Steps.descend f.dispatcher o floor depth [] step.id.text).run ⟨m.story, own⟩) ∧
    (∀ fr ∈ m.stack, fr.request.RunsRequired → Attributed fr.own) ∧
    ∀ (fr : Frame) (below : List Frame) (r : fr.request.Reply), m.stack = fr :: below →
      fr.rest = .done r → fr.request.Blameless r ⟨m.story, fr.own⟩ := by
  have hkept := Custom.Kept.reachable (Custom.onward_followed f) hm
  have hsound := hm.recorded.sound
  refine ⟨?_, ?_, hkept.own, ?_⟩
  · intro K tenant id floor depth hK hdepth
    refine ⟨.of_tracks hK (Sessions.run_tracks hsound f floor hdepth), ?_⟩
    intro step userInput withRequired
    exact .of_tracks hK
      (Sessions.runStep_tracks hsound f floor hdepth step userInput withRequired)
  · intro K o own floor depth hK hlt hdepth step hstep
    have hh := Engine.hosts_of_lt hlt
    have ht := hsound.laid o.session _ hh
    obtain ⟨y, hy, hid⟩ := ht.complete step hstep
    obtain ⟨i, hi⟩ := List.mem_iff_getElem?.mp hy
    rw [← hid]
    exact Steps.runStep_coincides f.dispatcher ht floor hi hdepth hK hh
  · intro fr below r hstack hr
    rw [hstack] at hkept
    exact hkept.ended hr

namespace Sample

def letter : Machine :=
  let m : Machine := ⟨.opening [flow] false, []⟩
  ((m.enter facilities create).ahead 0).leave

theorem reachable_letter : Machine.Reachable facilities letter :=
  (((Machine.Reachable.opening [flow] false).enter create).ahead 0).leave

def typing : Request := .run "acme" "session-0-00000000"

end Sample

/-- A run of the letter terminates, and its review leads no further down than to the draft. If the
provider is down, the run fails for that reason and for no other. -/
theorem runs_terminate_blameless_letter :
    Terminates .immediate (Sample.typing.proc Sample.facilities, Sample.letter.story.enter) ∧
    (∀ floor, Proc.Coincide .immediate
      (Steps.runStep Sample.facilities.dispatcher Sample.order "review").run
      (Steps.descend Sample.facilities.dispatcher Sample.order floor 2 [] "review").run
      Sample.letter.story.enter) ∧
    ∃ (fault : EngineFault) (s' : Situation), Execution .immediate
      (Sample.typing.proc Sample.facilities, Sample.letter.story.enter) (.done (.error fault), s') ∧
      Attributed s'.own ∧ ¬ fault.root.OfFlow := by
  obtain ⟨hruns, hlevels, -, -⟩ := runs_terminate_blameless Sample.reachable_letter
  have hflow : (Sample.letter.story.engine.session 0).flow = Sample.flow := by decide +kernel
  refine ⟨?_, fun floor => ?_, ?_⟩
  · have hfound : Sample.letter.story.engine.find? "session-0-00000000" = some 0 := by
      decide +kernel
    have hroom : ∀ h, Sample.letter.story.engine.find? "session-0-00000000" = some h →
        (Sample.letter.story.engine.session h).flow.steps.length ≤ 2 := by
      intro h hh
      obtain rfl := Option.some.inj (hfound.symm.trans hh)
      exact hflow ▸ Nat.le_refl 2
    have hrun := (hruns .immediate "acme" "session-0-00000000"
      (fun _ step => throw (.cyclicDependency step)) 2 Conduct.immediate_evolving hroom).1
    refine (hrun.terminate fun c _ s _ => ?_).1
    exact ⟨Sample.echo c, _, s.toStory, rfl, trivial, rfl⟩
  · refine hlevels .immediate Sample.order [] floor 2 Conduct.immediate_evolving ?_ ?_
      (Sample.step Sample.review [.redirect Sample.draft "draft"]) ?_
    · decide +kernel
    · exact hflow ▸ Nat.le_refl 2
    · exact hflow ▸ List.mem_cons_self
  · have hwaiting : Waiting Sample.letter.stack := by decide +kernel
    have hx := Proc.ahead_execution (K := .immediate) (fun _ => Sample.silence)
      (fun s c => ⟨s.toStory, rfl, trivial, rfl⟩) (Sample.typing.proc Sample.facilities) 1
      Sample.letter.story.enter
    have hdown : ((Sample.typing.proc Sample.facilities).ahead (fun _ => Sample.silence) 1
        Sample.letter.story.enter).1 = .done (.error (.provider (.unavailable "down"))) :=
      Proc.eq_done (α := Except EngineFault SessionState) (by decide +kernel)
    generalize (Sample.typing.proc Sample.facilities).ahead (fun _ => Sample.silence) 1
      Sample.letter.story.enter = y at hx hdown
    obtain ⟨p, s'⟩ := y
    obtain rfl : p = .done (.error (.provider (.unavailable "down"))) := hdown
    obtain ⟨-, -, hown, hblameless⟩ := runs_terminate_blameless
      ((Sample.reachable_letter.step (.enter Sample.typing hwaiting)).act hx)
    refine ⟨_, s', hx, hown _ List.mem_cons_self trivial, fun hflow => ?_⟩
    exact (hblameless _ _ _ rfl rfl trivial _ rfl hflow).1 trivial

end FlowEngine
