import FlowEngine.Proofs.Interpreter
import FlowEngine.Proofs.StepRuns
import Mathlib.Data.List.Chain

/-! # How a failure gets to the step that was to be run

A step fails on its own or for a step that it requires, and so down to the step where the failure
began. A conflict leaves the whole chain alone, an interruption all of it but the last step; any
other failure is recorded on every step of the chain, each with the message of the next.
-/
namespace FlowEngine

namespace Engine

def stepState? (e : Engine) (h : Handle) (i : Nat) : Option StepState :=
  (e.record? h i).map StepRecord.state

def stepError? (e : Engine) (h : Handle) (i : Nat) : Option String :=
  (e.record? h i).bind StepRecord.errorMessage

end Engine

/-- The operation has started and completed the step, which is done now. -/
def Situation.RanToDone (s : Situation) (h : Handle) (i : Nat) : Prop :=
  s.engine.isDone h i = true ∧
    (∃ m ∈ s.own, ∃ now, m.event = .change (.begin h i now)) ∧
    ∃ m ∈ s.own, ∃ outcome now, m.event = .change (.complete h i outcome now)

/-- The message on the first step names both steps and has the message on the second as reason. -/
def SessionOutline.Blames (t : SessionOutline) (e : Engine) (h : Handle) (i j : Nat) : Prop :=
  ∃ (x y : StepOutline) (reason : String), t.steps[i]? = some x ∧ t.steps[j]? = some y ∧
    e.stepError? h j = some reason ∧ e.stepError? h i =
      some (EngineFault.requiredStepFailed x.step.id.text y.step.id.text (.reported reason)).message

/-- What a fault of an operation says about a chain of steps that require each other. -/
structure FailureChain (t : SessionOutline) (h : Handle) (fault : EngineFault)
    (s s' : Situation) (chain : List Nat) : Prop where
  linked : chain.IsChain t.Requires
  conflict : fault.isConflict = true →
    (∃ k, chain.getLast? = some k ∧ s.engine.isRunning h k = true) ∧
      ∀ k ∈ chain, s'.engine.record? h k = s.engine.record? h k
  interrupted : fault.kind = .interrupted →
    (∃ k, chain.getLast? = some k ∧ s'.engine.stepState? h k = some .error) ∧
      ∀ k ∈ chain.dropLast, s'.engine.record? h k = s.engine.record? h k
  blamed : Steps.leavesAlone fault = false →
    (∀ k ∈ chain, s'.engine.stepState? h k = some .error) ∧
      chain.IsChain (t.Blames s'.engine h) ∧
      ∃ i, chain.head? = some i ∧ s'.engine.stepError? h i = some fault.message
  others : ∀ k, k ∉ chain →
    s'.engine.record? h k = s.engine.record? h k ∨ s'.RanToDone h k

variable {answers : List Moment → (c : ProviderCall) → c.Outcome → Prop} {o : StepOrder}
  {t : SessionOutline} {h : Handle} {s s' s'' : Situation} {fault : EngineFault}

theorem Situation.RanToDone.later {k : Nat} (hr : s.RanToDone h k) (hown : s.own <:+ s'.own)
    (hsame : s'.engine.record? h k = s.engine.record? h k) : s'.RanToDone h k := by
  obtain ⟨hdone, ⟨m, hm, hb⟩, ⟨m', hm', hc⟩⟩ := hr
  refine ⟨?_, ⟨m, hown.subset hm, hb⟩, ⟨m', hown.subset hm', hc⟩⟩
  rw [Engine.isDone, hsame]
  exact hdone

/-- Every record is as it was, or that of a step that was run. -/
def Settled (h : Handle) (s s' : Situation) : Prop :=
  ∀ k, s'.engine.record? h k = s.engine.record? h k ∨ s'.RanToDone h k

theorem Settled.trans (h₁ : Settled h s s') (h₂ : Settled h s' s'') (hown : s'.own <:+ s''.own) :
    Settled h s s'' := by
  intro k
  rcases h₂ k with hsame | hran
  · rcases h₁ k with hsame' | hran'
    · exact .inl (hsame.trans hsame')
    · exact .inr (hran'.later hown hsame)
  · exact .inr hran

namespace FailureChain

variable {chain : List Nat} {i j : Nat}

theorem precede (hs : Settled h s s') (hown : s'.own <:+ s''.own)
    (hsame : ∀ k ∈ chain, s'.engine.record? h k = s.engine.record? h k)
    (hc : FailureChain t h fault s' s'' chain) : FailureChain t h fault s s'' chain := by
  refine ⟨hc.linked, ?_, ?_, hc.blamed, ?_⟩
  · intro hf
    obtain ⟨⟨k, hk, hrun⟩, hall⟩ := hc.conflict hf
    have hmem := List.mem_of_getLast? hk
    refine ⟨⟨k, hk, ?_⟩, fun k hk => (hall k hk).trans (hsame k hk)⟩
    rw [Engine.isRunning, ← hsame k hmem]
    exact hrun
  · intro hf
    obtain ⟨hlast, hall⟩ := hc.interrupted hf
    exact ⟨hlast, fun k hk => (hall k hk).trans (hsame k (List.dropLast_subset _ hk))⟩
  · intro k hk
    rcases hc.others k hk with hsame' | hran
    · rcases hs k with hsame'' | hran'
      · exact .inl (hsame'.trans hsame'')
      · exact .inr (hran'.later hown hsame')
    · exact .inr hran

theorem refused {x : StepOutline} (hrun : s.engine.isRunning h i = true) :
    FailureChain t h (.stepRunning x.id) s s [i] := by
  refine ⟨.singleton i, fun _ => ⟨⟨i, rfl, hrun⟩, fun _ _ => rfl⟩, nofun, nofun, ?_⟩
  exact fun _ _ => .inl rfl

theorem failed (hf : fault.isConflict = false) (herror : s'.engine.stepState? h i = some .error)
    (hmessage : s'.engine.stepError? h i = some fault.message)
    (hsame : ∀ k, k ≠ i → s'.engine.record? h k = s.engine.record? h k) :
    FailureChain t h fault s s' [i] := by
  refine ⟨.singleton i, ?_, ?_, ?_, ?_⟩
  · intro hc
    rw [hf] at hc
    cases hc
  · exact fun _ => ⟨⟨i, rfl, herror⟩, by simp⟩
  · exact fun _ => ⟨by simpa using herror, .singleton i, i, rfl, hmessage⟩
  · exact fun k hk => .inl (hsame k (by simpa using hk))

theorem passed (hreq : t.Requires i j) (hf : Steps.leavesAlone fault = true)
    (hsame : s'.engine.record? h i = s.engine.record? h i)
    (hc : FailureChain t h fault s s' (j :: chain)) :
    FailureChain t h fault s s' (i :: j :: chain) := by
  refine ⟨.cons_cons hreq hc.linked, ?_, ?_, ?_, ?_⟩
  · intro hk
    obtain ⟨hlast, hall⟩ := hc.conflict hk
    refine ⟨by rwa [List.getLast?_cons_cons], ?_⟩
    intro k hk
    rcases List.mem_cons.mp hk with rfl | hk
    · exact hsame
    · exact hall k hk
  · intro hk
    obtain ⟨hlast, hall⟩ := hc.interrupted hk
    refine ⟨by rwa [List.getLast?_cons_cons], ?_⟩
    intro k hk
    rcases List.mem_cons.mp hk with rfl | hk
    · exact hsame
    · exact hall k hk
  · intro hl
    rw [hf] at hl
    cases hl
  · exact fun k hk => hc.others k fun hm => hk (List.mem_cons_of_mem _ hm)

theorem recorded {x y : StepOutline} {cause : EngineFault} (hx : t.steps[i]? = some x)
    (hy : t.steps[j]? = some y) (hreq : j ∈ x.required) (hl : Steps.leavesAlone cause = false)
    (hi : i ∉ j :: chain) (hc : FailureChain t h cause s s' (j :: chain))
    (hown : s'.own <:+ s''.own)
    (hsame : ∀ k, k ≠ i → s''.engine.record? h k = s'.engine.record? h k)
    (herror : s''.engine.stepState? h i = some .error)
    (hfault : fault = .requiredStepFailed x.step.id.text y.step.id.text cause)
    (hmessage : s''.engine.stepError? h i = some fault.message) :
    FailureChain t h fault s s'' (i :: j :: chain) := by
  subst hfault
  obtain ⟨hstates, hblames, k, hk, hcause⟩ := hc.blamed hl
  cases hk
  have state : ∀ k ∈ j :: chain, s''.engine.stepState? h k = s'.engine.stepState? h k :=
    fun k hk => congrArg (Option.map _) (hsame k (ne_of_mem_of_not_mem hk hi))
  have error : ∀ k ∈ j :: chain, s''.engine.stepError? h k = s'.engine.stepError? h k :=
    fun k hk => congrArg (Option.bind · _) (hsame k (ne_of_mem_of_not_mem hk hi))
  refine ⟨.cons_cons ⟨x, hx, hreq⟩ hc.linked, nofun, nofun, fun _ => ⟨?_, ?_, i, rfl, hmessage⟩, ?_⟩
  · intro k hk
    rcases List.mem_cons.mp hk with rfl | hk
    · exact herror
    · exact (state k hk).trans (hstates k hk)
  · refine .cons_cons ?_ (hblames.imp_of_mem_imp ?_)
    · exact ⟨x, y, cause.message, hx, hy, (error j List.mem_cons_self).trans hcause, hmessage⟩
    · rintro a b ha hb ⟨x, y, reason, hx, hy, hreason, htext⟩
      exact ⟨x, y, reason, hx, hy, (error b hb).trans hreason, (error a ha).trans htext⟩
  · intro k hk
    have hne : k ≠ i := fun he => hk (he ▸ List.mem_cons_self)
    rcases hc.others k fun hm => hk (List.mem_cons_of_mem _ hm) with hs | hran
    · exact .inl ((hsame k hne).trans hs)
    · exact .inr (hran.later hown (hsame k hne))

end FailureChain

theorem Settled.same {k : Nat} (hs : Settled h s s') (hk : s'.engine.isDone h k = false) :
    s'.engine.record? h k = s.engine.record? h k := by
  rcases hs k with hsame | hran
  · exact hsame
  · rw [hran.1] at hk
    cases hk

/-- Above a step nothing happens when it fails; below, along a chain of steps that were not done. -/
def FailsAt (t : SessionOutline) (h : Handle) (i : Nat) (fault : EngineFault)
    (s s' : Situation) : Prop :=
  ∃ chain, FailureChain t h fault s s' (i :: chain) ∧
    (∀ k ∈ chain, k < i ∧ s.engine.isDone h k = false) ∧
    ∀ k, i < k → s'.engine.record? h k = s.engine.record? h k

theorem FailsAt.precede {i : Nat} (hs : Settled h s s') (hown : s'.own <:+ s''.own)
    (hsame : ∀ k, i ≤ k → s'.engine.record? h k = s.engine.record? h k)
    (hf : FailsAt t h i fault s' s'') : FailsAt t h i fault s s'' := by
  obtain ⟨chain, hc, hpending, habove⟩ := hf
  refine ⟨chain, hc.precede hs hown ?_, ?_, ?_⟩
  · intro k hk
    rcases List.mem_cons.mp hk with rfl | hk
    · exact hsame k (Nat.le_refl k)
    · exact hs.same (hpending k hk).2
  · intro k hk
    obtain ⟨hlt, hdone⟩ := hpending k hk
    refine ⟨hlt, ?_⟩
    rw [Engine.isDone, ← hs.same hdone]
    exact hdone
  · exact fun k hk => (habove k hk).trans (hsame k (Nat.le_of_lt hk))

/-- What becomes of the records, from the step of a task down. -/
def Traced (t : SessionOutline) (h : Handle) (task : Task) (s : Situation) (e : Ending)
    (s' : Situation) : Prop :=
  match task, e with
  | .guarded i, .succeeded | .alone i, .succeeded =>
    Settled h s s' ∧ ∀ k, i < k → s'.engine.record? h k = s.engine.record? h k
  | .required i _, .succeeded =>
    Settled h s s' ∧ ∀ k, i ≤ k → s'.engine.record? h k = s.engine.record? h k
  | .guarded i, .failed fault | .alone i, .failed fault | .required i _, .failed fault =>
    FailsAt t h i fault s s'
  | _, _ => True

theorem pending_cons {e : Engine} {i j : Nat} {chain : List Nat} (hlt : j < i)
    (hd : e.isDone h j = false) (hp : ∀ k ∈ chain, k < j ∧ e.isDone h k = false) :
    ∀ k ∈ j :: chain, k < i ∧ e.isDone h k = false := by
  refine List.forall_mem_cons.mpr ⟨⟨hlt, hd⟩, ?_⟩
  intro k hk
  obtain ⟨hkj, hkd⟩ := hp k hk
  exact ⟨Nat.lt_trans hkj hlt, hkd⟩

theorem alone_succeeds {tenant : String} {i : Nat} {r : StepRecord} {now later : Int}
    {outcome : TargetOutcome} (hr : s.engine.record? h i = some r)
    (hb : Quietly (.solitary answers) tenant h (some i) (s.change (.begin h i now)) s')
    (hq : Quietly (.solitary answers) tenant h none (s'.change (.complete h i outcome later)) s'') :
    Settled h s s'' ∧ ∀ k, i < k → s''.engine.record? h k = s.engine.record? h k := by
  have others : ∀ k, k ≠ i → s''.engine.record? h k = s.engine.record? h k :=
    fun k => Quietly.dispatched_of_ne rfl hb hq
  refine ⟨?_, fun k hk => others k (Nat.ne_of_gt hk)⟩
  intro k
  by_cases hk : k = i
  · subst hk
    obtain ⟨r', conversation, run, hdone⟩ := Quietly.dispatched rfl hb hq hr
    refine .inr ⟨?_, ⟨⟨s.engine, _⟩, ?_, now, rfl⟩, ⟨⟨s'.engine, _⟩, ?_, outcome, later, rfl⟩⟩
    · rw [Engine.isDone, hdone]
      rfl
    · exact hq.own_suffix.subset (List.mem_cons_of_mem _ (hb.own_suffix.subset List.mem_cons_self))
    · exact hq.own_suffix.subset List.mem_cons_self
  · exact .inl (others k hk)

theorem alone_fails {tenant : String} {i : Nat} {r : StepRecord} {now later : Int}
    (hr : s.engine.record? h i = some r)
    (hb : Quietly (.solitary answers) tenant h (some i) (s.change (.begin h i now)) s')
    (hf : fault.isConflict = false)
    (hq : Quietly (.solitary answers) tenant h none
      (s'.change (.fail h i fault.message later)) s'') : FailsAt t h i fault s s'' := by
  have others : ∀ k, k ≠ i → s''.engine.record? h k = s.engine.record? h k :=
    fun k => Quietly.dispatched_of_ne rfl hb hq
  obtain ⟨r', conversation, run, hfailed⟩ := Quietly.dispatched rfl hb hq hr
  refine ⟨[], .failed hf ?_ ?_ others, by simp, fun k hk => others k (Nat.ne_of_gt hk)⟩
  · rw [Engine.stepState?, hfailed]
    rfl
  · rw [Engine.stepError?, hfailed]
    rfl

theorem required_blamed {tenant : String} {i j : Nat} {x y : StepOutline} {cause : EngineFault}
    {now : Int} (ht : t.WellLaid) (hh : s'.engine.Hosts h t) (hx : t.steps[i]? = some x)
    (hy : t.steps[j]? = some y) (hreq : j ∈ x.required) (hl : Steps.leavesAlone cause = false)
    (hundone : s.engine.isDone h j = false) (hc : FailsAt t h j cause s s')
    (hfault : fault = .requiredStepFailed x.step.id.text y.step.id.text cause)
    (hq : Quietly (.solitary answers) tenant h none
      (s'.change (.fail h i fault.message now)) s'') : FailsAt t h i fault s s'' := by
  have hlt : j < i := SessionOutline.Requires.lt ht ⟨x, hx, hreq⟩
  obtain ⟨chain, hchain, hpending, habove⟩ := hc
  obtain ⟨z, -, -, hr⟩ := hh.record hx
  obtain ⟨conversation, run, hfailed⟩ := hq.record?_change rfl hr
  have others : ∀ k, k ≠ i → s''.engine.record? h k = s'.engine.record? h k :=
    fun k hk => hq.record?_change_of_ne rfl hk (by simp)
  have hi : i ∉ j :: chain := by
    intro hm
    rcases List.mem_cons.mp hm with rfl | hm
    · exact Nat.lt_irrefl i hlt
    · exact Nat.lt_asymm (hpending i hm).1 hlt
  refine ⟨j :: chain, hchain.recorded hx hy hreq hl hi ?_ others ?_ hfault ?_, ?_, ?_⟩
  · exact (List.suffix_cons _ _).trans hq.own_suffix
  · rw [Engine.stepState?, hfailed]
    rfl
  · rw [Engine.stepError?, hfailed]
    rfl
  · exact pending_cons hlt hundone hpending
  · exact fun k hk => (others k (Nat.ne_of_gt hk)).trans (habove k (Nat.lt_trans hlt hk))

theorem Course.traced (ht : t.WellLaid) {task : Task} {e : Ending}
    (hx : Course (.solitary answers) o t task s e s') (hh : s.engine.Hosts o.session t) :
    Traced t o.session task s e s' := by
  have hK : (Conduct.solitary answers).Evolving := Conduct.solitary_evolving answers
  -- the chain grows at its head: each requiring step is put before the chain of the required one
  induction hx with
  | @halted task s => cases task <;> trivial
  | busy hx hrun => exact ⟨[], .refused hrun, by simp, fun _ _ => rfl⟩
  | @unready i x s e s' hx hidle _ he ih =>
    cases e with
    | underWay => trivial
    | succeeded => exact absurd rfl he
    | failed fault => exact ih hh
  | @ready i x s s' e s'' hx hidle hr ha ihr iha =>
    obtain ⟨hsettled, hsame⟩ := ihr hh
    have hafter := iha (hh.evolve (hr.evolves hK))
    cases e with
    | underWay => trivial
    | succeeded =>
      exact ⟨hsettled.trans hafter.1 ha.own_suffix,
        fun k hk => (hafter.2 k hk).trans (hsame k (Nat.le_of_lt hk))⟩
    | failed fault => exact FailsAt.precede hsettled ha.own_suffix hsame hafter
  | none => exact ⟨fun _ => .inl rfl, fun _ _ => rfl⟩
  | @settled i j rest s e s' hreq hd hr ih => cases e <;> exact ih hh
  | @next i j rest s s' e s'' hreq hd hg hr ihg ihr =>
    obtain ⟨hsettled, hsame⟩ := ihg hh
    have hlt := hreq.lt ht
    have hafter := ihr (hh.evolve (hg.evolves hK))
    have hsame' : ∀ k, i ≤ k → s'.engine.record? o.session k = s.engine.record? o.session k :=
      fun k hk => hsame k (Nat.lt_of_lt_of_le hlt hk)
    cases e with
    | underWay => trivial
    | succeeded =>
      exact ⟨hsettled.trans hafter.1 hr.own_suffix,
        fun k hk => (hafter.2 k hk).trans (hsame' k hk)⟩
    | failed fault => exact FailsAt.precede hsettled hr.own_suffix hsame' hafter
  | @passed i j rest s e s' hreq hd hg he ih =>
    cases e with
    | underWay => trivial
    | succeeded => exact he.elim
    | failed fault =>
      have hlt := hreq.lt ht
      obtain ⟨chain, hchain, hpending, habove⟩ := ih hh
      refine ⟨j :: chain, hchain.passed hreq he (habove i hlt), pending_cons hlt hd hpending, ?_⟩
      exact fun k hk => habove k (Nat.lt_trans hlt hk)
  | blamed hx hy hreq hd hg hl hf hq he ih =>
    have hh' := hh.evolve (hg.evolves hK)
    rcases he with rfl | rfl
    · trivial
    · exact required_blamed ht hh' hx hy hreq hl hd (ih hh) hf hq
  | refused hx hrun => exact ⟨[], .refused hrun, by simp, fun _ _ => rfl⟩
  | begun => trivial
  | done hr hidle hb hq he =>
    rcases he with rfl | rfl
    · trivial
    · exact alone_succeeds hr hb hq
  | failed hr hidle hb hf hq he =>
    rcases he with rfl | rfl
    · trivial
    · exact alone_fails hr hb hf hq
  | ended => trivial
  | skipped => trivial
  | taken => trivial
  | broken => trivial

/-- Running a step fails along a chain of steps that require each other, from that step on. -/
theorem runStep_failure_chain {id tenant : String} {flow : Flow} {now : Int} {made : Session}
    (hmade : Session.new id tenant flow now = .ok made) {story : Story} {o : StepOrder}
    (hh : story.engine.Hosts o.session made.outline) {step : Step} (hstep : step ∈ flow.steps)
    {d : Dispatcher} {fault : EngineFault} {s' : Situation}
    (hx : Execution (.solitary answers) ((Steps.runStep d o step.id.text).run, story.enter)
      (.done (.error fault), s')) :
    ∃ i x chain, made.outline.steps[i]? = some x ∧ x.step.id = step.id ∧
      FailureChain made.outline o.session fault story.enter s' (i :: chain) := by
  have ht := Session.new_wellLaid hmade
  have hflow : made.outline.flow = flow := by
    obtain ⟨g, -, rfl⟩ := Session.new_eq hmade
    rfl
  obtain ⟨x, hmem, hid⟩ := ht.complete step (hflow.symm ▸ hstep)
  obtain ⟨i, hi⟩ := List.mem_iff_getElem?.mp hmem
  have follows := Steps.runStep_follows (s := story.enter)
    (Conduct.solitary_evolving answers) ht d hi hh
  rw [hid] at follows
  have hcourse := (execution_ends hx .halted follows).2
  obtain ⟨chain, hchain, -⟩ := hcourse.traced ht hh
  exact ⟨i, x, chain, hi, hid, hchain⟩

/-- The draft fails when its provider is down, and the review for it. -/
theorem runStep_failure_chain_review :
    ∃ s', Execution (Conduct.solitary Conduct.anyAnswer)
        ((Steps.runStep Sample.facilities.dispatcher Sample.order "review").run,
          Story.enter ⟨Sample.engine, []⟩)
        (.done (.error (.requiredStepFailed "review" "draft" (.provider (.unavailable "down")))),
          s') ∧
      ∃ i x chain, Sample.session.outline.steps[i]? = some x ∧ x.step.id = Sample.review ∧
        FailureChain Sample.session.outline 0
          (.requiredStepFailed "review" "draft" (.provider (.unavailable "down")))
          (Story.enter ⟨Sample.engine, []⟩) s' (i :: chain) := by
  obtain ⟨s', hx, -⟩ := still_execution Sample.silence Sample.engine []
    (p := (Steps.runStep Sample.facilities.dispatcher Sample.order "review").run)
    (v := .error (.requiredStepFailed "review" "draft" (.provider (.unavailable "down"))))
    (by decide +kernel)
  have hh : Sample.engine.Hosts Sample.order.session Sample.session.outline := rfl
  have hstep : Sample.step Sample.review [.redirect Sample.draft "draft"] ∈ Sample.flow.steps :=
    List.mem_cons_self
  exact ⟨s', hx, runStep_failure_chain Sample.session_new hh hstep hx⟩

end FlowEngine
