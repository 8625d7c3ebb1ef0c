import FlowEngine.Proofs.Dialogues
import FlowEngine.Proofs.Regime

/-! # Steps keep to their conversations

Operations keep the records and the talks of steps together, provided that the others in whose
company they wait do so too: these may start and end steps, but leave the steps that they find in
progress and the talks of these alone. Over all nestings of operations, then, a step begins its
dialogue with the provider once, and keeps to it.
-/
namespace FlowEngine

section Operations

variable {base : Story} {mine : List (Handle × Nat)} {x : Handle × Nat} {step : Step}
  {s s' : Situation} {D : Dialogue}

/-- Work among attentive others: at every point it is clear what the operation has in progress. -/
abbrev Attempt.Attends {α : Type} (base : Story) (Q : α → Situation → Prop)
    (F : Situation → Prop) (a : Attempt α) (s : Situation) : Prop :=
  a.Assures .attentive (fun s' => ∃ mine, Busy base mine s') Q (fun _ => F) s

abbrev Attempt.Tidies {α : Type} (base : Story) (a : Attempt α) : Prop :=
  ∀ s, Amid base [] s → a.Attends base (fun _ => Amid base []) (Amid base []) s

def Scope.unasked (r : Registry) : Scope where
  sees e := e.registry = r
  makes c := c.Welcome r ∧ c.record? = none
  calls c := ¬ c.Fileless

theorem Scope.unasked_requests (r : Registry) : (Scope.unasked r).Requests r := by
  have quiet : ∀ c : Change, c.newcomer? = none → c.record? = none → (Scope.unasked r).makes c :=
    fun c hc hrec => ⟨Change.welcome_of_newcomer hc r, hrec⟩
  refine ⟨⟨fun _ => quiet _ rfl rfl, fun _ _ => quiet _ rfl rfl, fun _ => quiet _ rfl rfl,
    fun _ => quiet _ rfl rfl, fun _ _ => id⟩, fun _ => id, ?_⟩
  intro s id tenant flow now hf hnew
  refine ⟨?_, rfl⟩
  intro s' hs
  cases hs
  exact ⟨id, tenant, flow, now, hf, hnew⟩

theorem Scope.unasked_uploads (r : Registry) (tenant : String) (h : Handle) :
    (Scope.unasked r).Uploads tenant h :=
  ⟨(Scope.unasked_requests r).log, (Scope.unasked_requests r).values h, fun _ _ => id,
    fun _ => id⟩

section Unasked

variable {α : Type} {V : α → Prop}

theorem Proc.Within.amid {p : Proc α} (hp : p.Within (.unasked base.engine.registry) V)
    (h : Amid base mine s) :
    p.Assures .attentive (fun s' => ∃ mine, Busy base mine s')
      (fun v s' => V v ∧ Amid base mine s') s := by
  refine (hp.assures (J := Amid base mine) (fun _ h => h.registry) ?_ ?_ h).mono
    (fun _ h => ⟨mine, h.toBusy⟩) fun _ _ h => h
  · rintro s' c h ⟨hc, hrec⟩
    exact h.plain (h.registry ▸ hc) hrec
  · exact fun s' c r s'' h hc hm => h.called hm hc

theorem Attempt.Within.amid {G : EngineFault → Prop} {a : Attempt α}
    (ha : a.Within (.unasked base.engine.registry) V G) (h : Amid base mine s) :
    a.Attends base (fun v s' => V v ∧ Amid base mine s') (Amid base mine) s := by
  refine (Proc.Within.amid ha h).imp ?_
  rintro (fault | v) s' hs'
  · exact hs'.2
  · exact hs'

end Unasked

namespace Steps

variable {o : StepOrder} {z : StepExecution}

/-- The target of the step has done its work; what it has told comes with the outcome. -/
structure Brings (base : Story) (x : Handle × Nat) (step : Step) (outcome : TargetOutcome)
    (s : Situation) : Prop extends Amid base [x] s where
  brings : ∀ D, step.target.targetType.dialogue? = some D →
    D.brought outcome = D.told? (talk x s.past)

theorem bind_record (x : Handle × Nat) (e : Engine) {β : Type} {part : StepRecord → Option β} :
    (((e.session x.1).graph.nodes[x.2]?).bind fun z => part z.record) =
      (e.record? x.1 x.2).bind part := by
  rw [Engine.record?, Session.record?]
  cases (e.session x.1).graph.nodes[x.2]? <;> rfl

theorem noted_bind (h : Amid base mine s) (hstep : s.engine.stepAt x = some step)
    (hD : step.target.targetType.dialogue? = some D) :
    (s.engine.record? x.1 x.2).bind D.shown = D.told? (talk x s.past) := by
  cases hr : s.engine.record? x.1 x.2 with
  | none =>
    rw [Engine.stepAt_eq_none.mpr hr] at hstep
    cases hstep
  | some r => exact h.noted x step D r hstep hD hr

theorem of_dialogue (hD : step.target.targetType.dialogue? = some D) {P : Dialogue → Prop}
    (h : P D) : ∀ D', step.target.targetType.dialogue? = some D' → P D' := by
  intro D' hD'
  cases hD.symm.trans hD'
  exact h

theorem askAssistant_attends (h : Amid base [(o.session, z.index)] s)
    (hstep : s.engine.stepAt (o.session, z.index) = some z.step)
    (hD : z.step.target.targetType.dialogue? = some .assistant) (inUse : InUse) :
    (askAssistant o z inUse).Attends base (Brings base (o.session, z.index) z.step)
      (Amid base [(o.session, z.index)]) s := by
  have hnoted : ((s.engine.session o.session).graph.nodes[z.index]?).bind
      (fun x => x.record.conversation) =
        Dialogue.assistant.told? (talk (o.session, z.index) s.past) :=
    (bind_record (o.session, z.index) s.engine).trans (noted_bind h hstep hD)
  have htarget : ∀ target, some (request o z.step inUse).target = some target →
      target = z.step.target.externalId := fun target ht => (Option.some.inj ht).symm
  simp only [askAssistant, Attempt.assures_bind, Attempt.assures_lift, Proc.assures_session, hnoted]
  cases htold : Dialogue.assistant.told? (talk (o.session, z.index) s.past) with
  | some conversation =>
    simp only [Attempt.assures_bind, Attempt.assures_ask, Attempt.assures_pure]
    intro r s' hm
    have hfits : Dialogue.assistant.Fits (Dialogue.assistant.told?
        (talk (o.session, z.index) s.past))
        (.followUp o.tenant conversation (request o z.step inUse)) := by
      rw [htold]
      rfl
    obtain ⟨hs', hsame⟩ :=
      (h.asked hstep hm trivial (of_dialogue hD hfits) htarget).unanswered (of_dialogue hD rfl)
    refine ⟨⟨_, hs'.toBusy⟩, fun output _ => ⟨hs', of_dialogue hD ?_⟩, fun _ _ => hs'⟩
    rw [hsame _ hD, htold]
    rfl
  | none =>
    simp only [Attempt.assures_bind, Attempt.assures_ask, Attempt.assures_lift,
      Proc.assures_change, Attempt.assures_pure]
    intro r s' hm
    have hfits : Dialogue.assistant.Fits (Dialogue.assistant.told?
        (talk (o.session, z.index) s.past)) (.ask o.tenant (request o z.step inUse)) := by
      rw [htold]
      trivial
    have hasked := h.asked hstep hm trivial (of_dialogue hD hfits) htarget
    refine ⟨⟨_, hasked.toBusy⟩, ?_, ?_⟩
    · rintro answer rfl
      have hanswer : Dialogue.assistant.answered
          (.call (.ask o.tenant (request o z.step inUse)) (.ok answer)) =
            some answer.conversation := rfl
      obtain ⟨hs'', hafter⟩ := hasked.answered hD hanswer
      exact ⟨⟨_, hs''.toBusy⟩, hs'', of_dialogue hD hafter.symm⟩
    · rintro fault rfl
      exact (hasked.unanswered (of_dialogue hD rfl)).1

theorem appRun_attends (h : Amid base [(o.session, z.index)] s)
    (hstep : s.engine.stepAt (o.session, z.index) = some z.step)
    (hD : z.step.target.targetType.dialogue? = some .app) (inUse : InUse) :
    (appRun o z inUse).Attends base
      (fun run s' => Amid base [(o.session, z.index)] s' ∧
        Dialogue.app.told? (talk (o.session, z.index) s'.past) = some run)
      (Amid base [(o.session, z.index)]) s := by
  have hnoted : ((s.engine.session o.session).graph.nodes[z.index]?).bind
      (fun x => x.record.appRun) = Dialogue.app.told? (talk (o.session, z.index) s.past) :=
    (bind_record (o.session, z.index) s.engine).trans (noted_bind h hstep hD)
  simp only [appRun, Attempt.assures_bind, Attempt.assures_lift, Proc.assures_session, hnoted]
  cases htold : Dialogue.app.told? (talk (o.session, z.index) s.past) with
  | some run => exact ⟨h, htold⟩
  | none =>
    simp only [Attempt.assures_bind, Attempt.assures_ask, Attempt.assures_lift,
      Proc.assures_change]
    intro r s' hm
    have hfits : Dialogue.app.Fits (Dialogue.app.told? (talk (o.session, z.index) s.past))
        (.runApp o.tenant (request o z.step inUse)) := by
      rw [htold]
      trivial
    have hasked := h.asked hstep hm trivial (of_dialogue hD hfits)
      fun target ht => (Option.some.inj ht).symm
    refine ⟨⟨_, hasked.toBusy⟩, ?_, ?_⟩
    · rintro run rfl
      have hanswer : Dialogue.app.answered
          (.call (.runApp o.tenant (request o z.step inUse)) (.ok run)) = some run := rfl
      obtain ⟨hs'', hafter⟩ := hasked.answered hD hanswer
      exact ⟨⟨_, hs''.toBusy⟩, hs'', hafter⟩
    · rintro fault rfl
      exact (hasked.unanswered (of_dialogue hD rfl)).1

theorem await_attends (h : Amid base [x] s) (hstep : base.engine.stepAt x = some step)
    (hD : step.target.targetType.dialogue? = some .app) {w : Wait}
    (htold : Dialogue.app.told? (talk x s.past) = some w.run) :
    (Attempt.await w).Attends base
      (fun _ s' => Amid base [x] s' ∧ Dialogue.app.told? (talk x s'.past) = some w.run)
      (Amid base [x]) s := by
  let polling : Scope := ⟨fun _ => True, fun _ => False, fun c => c = .appRun w.tenant w.run⟩
  have hwithin : Attempt.Within polling (fun _ => True) (fun _ => True) (Attempt.await w) := by
    rw [Attempt.within_await]
    exact ⟨rfl, fun _ _ => trivial, fun _ _ => trivial⟩
  have hall := hwithin.assures (K := .attentive) (J := fun s' => Amid base [x] s' ∧
    Dialogue.app.told? (talk x s'.past) = some w.run) (fun _ _ => trivial)
    (fun _ _ _ hc => False.elim hc) ?_ ⟨h, htold⟩
  · exact hall.mono (fun _ hs => ⟨_, hs.1.toBusy⟩) (fun _ _ hs => hs.2) fun _ _ hs => hs.2.1
  · rintro s' c r s'' ⟨hs', htold'⟩ rfl hm
    have hfits : Dialogue.app.Fits (Dialogue.app.told? (talk x s'.past))
        (.appRun w.tenant w.run) := by
      rw [htold']
      rfl
    have hnone : ∀ target, (ProviderCall.appRun w.tenant w.run).target? = some target →
        target = step.target.externalId := by
      intro target ht
      cases ht
    obtain ⟨hs'', hsame⟩ := (hs'.asked (hs'.evolves.stepAt hstep) hm trivial
      (of_dialogue hD hfits) hnone).unanswered (of_dialogue hD rfl)
    exact ⟨hs'', (hsame _ hD).trans htold'⟩

theorem execute_attends (d : Dispatcher) (h : Amid base [(o.session, z.index)] s)
    (hstep : base.engine.stepAt (o.session, z.index) = some z.step) (inUse : InUse) :
    (execute d o z inUse).Attends base (Brings base (o.session, z.index) z.step)
      (Amid base [(o.session, z.index)]) s := by
  have hnow := h.evolves.stepAt hstep
  rw [execute]
  split
  · next htype =>
    have hnone : ∀ D, z.step.target.targetType.dialogue? ≠ some D := by
      intro D
      rw [htype]
      simp [TargetType.dialogue?]
    simp only [Attempt.assures_bind, Attempt.assures_ask, Attempt.assures_pure]
    intro r s' hm
    obtain ⟨hs', -⟩ := (h.asked hnow hm trivial (fun D hD => absurd hD (hnone D))
      fun target ht => (Option.some.inj ht).symm).unanswered fun D hD => absurd hD (hnone D)
    exact ⟨⟨_, hs'.toBusy⟩, fun _ _ => ⟨hs', fun D hD => absurd hD (hnone D)⟩, fun _ _ => hs'⟩
  · next htype =>
    have hD : z.step.target.targetType.dialogue? = some .assistant := by rw [htype]; rfl
    exact askAssistant_attends h hnow hD inUse
  · next htype =>
    have hD : z.step.target.targetType.dialogue? = some .app := by rw [htype]; rfl
    refine (appRun_attends h hnow hD inUse).bind fun run s' hs' => ?_
    rw [Attempt.assures_bind]
    refine (await_attends hs'.1 hstep hD hs'.2).imp ?_ fun _ _ hs => hs
    rintro output s'' ⟨hs'', htold⟩
    exact ⟨hs'', of_dialogue hD htold.symm⟩

theorem dispatch_attends (d : Dispatcher) (h : Amid base [(o.session, z.index)] s)
    (hstep : base.engine.stepAt (o.session, z.index) = some z.step) :
    (dispatch d o z).Attends base (Brings base (o.session, z.index) z.step)
      (Amid base [(o.session, z.index)]) s := by
  have hprepare := Inputs.prepare_within (G := fun _ => True)
    (Scope.unasked_uploads base.engine.registry o.tenant o.session) z.step (fun _ => trivial)
    fun _ _ _ _ => trivial
  refine (hprepare.amid h).bind fun inUse s' hs' => ?_
  split
  · exact execute_attends d hs'.2 hstep inUse
  · exact hs'.2

theorem recordFailure_blames (h : Amid base [] s)
    (hidle : (o.session, z.index) ∉ openSteps base.past) (fault : EngineFault) :
    (recordFailure o z fault).Assures .attentive (fun s' => ∃ mine, Busy base mine s')
      (fun _ => Amid base []) s := by
  simp only [recordFailure, Proc.assures_bind', Proc.assures_now, Proc.assures_change,
    Proc.assures_session, Proc.assures_log]
  intro now
  have hblamed := h.blamed hidle fault.message now
  exact ⟨⟨_, hblamed.toBusy⟩, ⟨_, (hblamed.log _).toBusy⟩, hblamed.log _⟩

theorem recordFailure_ends (h : Amid base [(o.session, z.index)] s) (fault : EngineFault) :
    (recordFailure o z fault).Assures .attentive (fun s' => ∃ mine, Busy base mine s')
      (fun _ => Amid base []) s := by
  simp only [recordFailure, Proc.assures_bind', Proc.assures_now, Proc.assures_change,
    Proc.assures_session, Proc.assures_log]
  intro now
  have hfailed : Amid base [] (s.change (.fail o.session z.index fault.message now)) := by
    refine h.ended rfl fun step D g r _ _ hr => ?_
    rw [← hr]
    cases D <;> rfl
  exact ⟨⟨_, hfailed.toBusy⟩, ⟨_, (hfailed.log _).toBusy⟩, hfailed.log _⟩

theorem recordOutcome_ends {outcome : TargetOutcome}
    (hstep : base.engine.stepAt (o.session, z.index) = some z.step)
    (h : Brings base (o.session, z.index) z.step outcome s) :
    (recordOutcome o z outcome).Assures .attentive (fun s' => ∃ mine, Busy base mine s')
      (fun _ => Amid base []) s := by
  simp only [recordOutcome, Proc.assures_bind', Proc.assures_now, Proc.assures_session,
    Proc.assures_change, Proc.assures_log, Proc.assures_pure]
  intro now
  have hdone : Amid base [] (s.change (.complete o.session z.index outcome now)) := by
    refine h.ended rfl fun step D g r hat hD hr => ?_
    cases hat.symm.trans (h.evolves.stepAt hstep)
    have hbrought := h.brings D hD
    have hfinish : D.shown (Change.onRecord (.complete o.session z.index outcome now) g r) =
        (D.brought outcome).or (D.shown r) := by
      cases D <;> rfl
    rw [hfinish, hbrought, hr, Option.or_self]
  exact ⟨⟨_, hdone.toBusy⟩, ⟨_, (hdone.log _).toBusy⟩, hdone.log _⟩

theorem runAlone_tidies (d : Dispatcher)
    (hstep : base.engine.stepAt (o.session, z.index) = some z.step) :
    (runAlone d o z).Tidies base := by
  intro s h
  simp only [runAlone, enterRunning, Attempt.assures_bind, Attempt.assures_lift, Proc.assures_now,
    Proc.assures_session]
  intro now
  split
  · exact h
  · next r hr =>
    have hbegin : (s.engine.record? o.session z.index).bind (fun r => r.begin? now) = some r :=
      (bind_record (o.session, z.index) s.engine).symm.trans hr
    have hidle : s.engine.isRunning o.session z.index = false := by
      obtain ⟨r', hr', hsome⟩ := Option.bind_eq_some_iff.mp hbegin
      rw [Engine.isRunning, hr', Option.any_some]
      by_contra hrunning
      rw [StepRecord.begin?_eq_none.mpr (Bool.not_eq_false _ ▸ hrunning)] at hsome
      cases hsome
    have hbegun := h.begun (x := (o.session, z.index)) now (h.evolves.stepAt hstep) hidle
    simp only [Attempt.assures_bind, Attempt.assures_lift, Proc.assures_change, Proc.assures_log,
      Attempt.assures_outcome]
    refine ⟨⟨_, hbegun.toBusy⟩, ⟨_, (hbegun.log _).toBusy⟩, ?_⟩
    refine Attempt.Assures.imp (dispatch_attends d (hbegun.log _) hstep) ?_ ?_
    · exact fun outcome s' hs' => recordOutcome_ends hstep hs'
    · exact fun fault s' hs' => recordFailure_ends hs' fault

theorem runRequired_tidies {run : String → Attempt StepReport}
    (hrun : ∀ id, (run id).Tidies base) (hidle : (o.session, z.index) ∉ openSteps base.past)
    (required : StepExecution) : (runRequired run o z required).Tidies base := by
  intro s h
  simp only [runRequired, Attempt.assures_bind, Attempt.assures_lift, Proc.assures_session]
  split
  · exact h
  · simp only [Attempt.assures_bind, Attempt.assures_outcome]
    refine (hrun _ s h).imp (fun _ _ hs' => hs') ?_
    intro fault s' hs'
    split
    · exact hs'
    · simp only [Attempt.assures_bind, Attempt.assures_lift, Attempt.assures_throw]
      exact recordFailure_blames hs' hidle _

theorem stepAt_base (h : Amid base mine s) (hh : o.session < base.engine.sessions.length)
    {id : String} (hz : (s.engine.session o.session).execution id = .ok z) :
    base.engine.stepAt (o.session, z.index) = some z.step := by
  have hnow := h.heard.sound.stepAt_of_execution hz
  have hsame := (Engine.hosts_of_lt hh).evolve h.evolves
  rw [Engine.stepAt_outline, hsame.outline] at hnow
  exact (Engine.stepAt_outline _ _).trans hnow

theorem runGuarded_tidies (d : Dispatcher) (hh : o.session < base.engine.sessions.length)
    (depth : Nat) (active : List String) (id : String) :
    (runGuarded d o depth active id).Tidies base := by
  induction depth generalizing active id with
  | zero =>
    intro s h
    simp only [runGuarded, Attempt.assures_bind, Attempt.assures_lift, Proc.assures_session,
      Attempt.assures_ofExcept]
    refine ⟨fun z _ => ?_, fun _ _ => h⟩
    split
    · exact h
    · split <;> exact h
  | succ depth ih =>
    intro s h
    simp only [runGuarded_succ, Attempt.assures_bind, Attempt.assures_lift, Proc.assures_session,
      Attempt.assures_ofExcept]
    refine ⟨fun z hz => ?_, fun _ _ => h⟩
    split
    · exact h
    · split
      · exact h
      · next hrunning =>
        have hstep := stepAt_base h hh hz
        have hidle : (o.session, z.index) ∉ openSteps base.past := by
          have hnode : s.engine.isRunning o.session z.index = z.record.isRunning :=
            h.heard.sound.isRunning_of_execution hz
          have hnot := h.heard.not_open (x := (o.session, z.index))
            (hnode.trans (Bool.not_eq_true _ ▸ hrunning))
          rwa [h.all, List.nil_append] at hnot
        refine Attempt.Assures.bind (Q := fun _ => Amid base []) ?_
          fun _ s' hs' => runAlone_tidies d hstep s' hs'
        refine Attempt.assures_forM (J := fun _ => Amid base []) ?_ _ h
        exact fun y _ s' hs' => runRequired_tidies (ih (id :: active)) hidle y s' hs'

theorem runStep_tidies (d : Dispatcher) (hh : o.session < base.engine.sessions.length)
    (id : String) : (Steps.runStep d o id).Tidies base :=
  fun s h => runGuarded_tidies d hh (s.engine.session o.session).graph.nodes.length [] id s h

end Steps

namespace Sessions

theorem runAllSteps_tidies (f : Facilities) (tenant : String) {h : Handle} (generation : Nat)
    (hh : h < base.engine.sessions.length) :
    (runAllSteps (stepOfRun f tenant h) tenant h generation).Tidies base := by
  intro s hs
  have huploads := Inputs.uploadMissing_within (G := fun _ => True)
    (Scope.unasked_uploads base.engine.registry tenant h) fun _ => trivial
  refine (huploads.amid hs).bind fun _ s' hs' => ?_
  simp only [Attempt.assures_bind, Attempt.assures_lift, Proc.assures_session]
  refine Attempt.assures_forM (J := fun _ => Amid base []) ?_ _ hs'.2
  intro z _ s'' hs''
  simp only [runInTurn, Attempt.assures_bind, Attempt.assures_lift, Proc.assures_session]
  split
  · exact hs''
  · exact (Steps.runStep_tidies (o := ⟨tenant, h, none, true⟩) f.dispatcher hh _ s'' hs'').bind
      fun _ _ => id

theorem run_tidies (f : Facilities) (tenant id : String) (h : Amid base [] s)
    (hbase : s.engine = base.engine) :
    (run f tenant id).Attends base (fun _ => Amid base []) (Amid base []) s := by
  rw [run, runBy, Attempt.Attends, Attempt.assures_bind, assures_find]
  refine ⟨fun k hk _ => ?_, fun _ => h⟩
  have hlt : k < base.engine.sessions.length :=
    hbase ▸ h.heard.sound.stored k (List.mem_of_find?_eq_some hk)
  simp only [Attempt.assures_bind, Attempt.assures_lift, Proc.assures_session,
    Attempt.assures_ofExcept]
  refine ⟨fun v _ => ?_, fun _ _ => h⟩
  simp only [Attempt.assures_bind, Attempt.assures_lift, Proc.assures_change, Proc.assures_log,
    Attempt.assures_outcome]
  have hquiet : ∀ {c : Change} {s' : Situation}, c.newcomer? = none → c.record? = none →
      Amid base [] s' → Amid base [] (s'.change c) :=
    fun hc hrec hs' => hs'.plain (Change.welcome_of_newcomer hc _) hrec
  have hstarted := hquiet (c := .startRun k) rfl rfl h
  refine ⟨⟨_, hstarted.toBusy⟩, ⟨_, (hstarted.log _).toBusy⟩, ?_⟩
  refine Attempt.Assures.imp (runAllSteps_tidies f tenant v.1 hlt _ (hstarted.log _)) ?_ ?_
  · intro _ s' hs'
    have hfinished := hquiet (c := .finishRun k) rfl rfl hs'
    exact ⟨⟨_, hfinished.toBusy⟩, ⟨_, (hfinished.log _).toBusy⟩, hfinished.log _⟩
  · intro fault s' hs'
    have hfailed := hquiet (c := .failRun k) rfl rfl hs'
    exact ⟨⟨_, hfailed.toBusy⟩, ⟨_, (hfailed.log _).toBusy⟩, hfailed.log _⟩

theorem runStep_attends (f : Facilities) (tenant id step : String) (userInput : Option String)
    (withRequired : Bool) (h : Amid base [] s) (hbase : s.engine = base.engine) :
    (runStep f tenant id step userInput withRequired).Attends base (fun _ => Amid base [])
      (Amid base []) s := by
  rw [runStep, runStepBy, Attempt.Attends, Attempt.assures_bind, assures_find]
  refine ⟨fun k hk _ => ?_, fun _ => h⟩
  have hlt : k < base.engine.sessions.length :=
    hbase ▸ h.heard.sound.stored k (List.mem_of_find?_eq_some hk)
  simp only [Attempt.assures_bind, Attempt.assures_lift, Proc.assures_session,
    Attempt.assures_ofExcept]
  refine ⟨fun z _ => ?_, fun _ _ => h⟩
  split
  · exact h
  · split
    · exact h
    · exact Steps.runStep_tidies (o := ⟨tenant, k, userInput, withRequired⟩) f.dispatcher hlt step
        s h

end Sessions

theorem Request.attends (f : Facilities) (q : Request) {s : Story} (hs : Noted s) :
    (q.proc f).Assures .attentive (fun s' => ∃ mine, Busy s mine s') (fun _ => Amid s [])
      s.enter := by
  have henter := Amid.enter hs
  by_cases hruns : q.Runs
  · cases q with
    | run tenant id => exact (Sessions.run_tidies f tenant id henter rfl).proc
    | runStep tenant id step userInput withRequired =>
      exact (Sessions.runStep_attends f tenant id step userInput withRequired henter rfl).proc
    | _ => exact hruns.elim
  · have hwithin := within_of_not_runs (Scope.unasked_requests s.engine.registry) f hruns
    exact (hwithin.amid henter).imp fun _ _ hs' => hs'.2

end Operations

/-- The operations in progress, the innermost of which has come to the given story. -/
inductive Backed : Story → List Frame → Prop where
  | bottom {now flows logging} : Spared (Story.opening flows logging) now → Backed now []
  | frame {base now fr below} : Backed base below → Waiting below →
      (∃ mine, Busy base mine ⟨now, fr.own⟩) →
      fr.rest.Assures .attentive (fun s => ∃ mine, Busy base mine s) (fun _ => Amid base [])
        ⟨now, fr.own⟩ → Backed now (fr :: below)

theorem noted_opening (flows : List Flow) (logging : Bool) :
    Noted (Story.opening flows logging) := by
  refine ⟨⟨Engine.sound_opening flows logging, fun _ => rfl, fun _ _ => rfl, ?_⟩, ?_⟩
  · intro x step _
    exact step.converses_nil
  · intro x step D r hstep
    cases hstep

theorem Conduct.immediate_attentive : Conduct.immediate.Within .attentive := by
  refine ⟨?_, id⟩
  rintro s t rfl
  exact Spared.refl

namespace Backed

variable {f : Facilities} {now t : Story} {stack : List Frame}

theorem noted (h : Backed now stack) (hw : Waiting stack) : Noted now := by
  cases h with
  | bottom hk => exact hk.noted
  | @frame base _ fr below _ _ _ hrest =>
    obtain ⟨c, next, hcall⟩ := hw fr rfl
    rw [hcall] at hrest
    by_contra hnot
    let began : Moment := ⟨now.engine, .change (.begin 0 0 0)⟩
    let twice : Story := ⟨now.engine, [began, began]⟩
    obtain ⟨⟨mine, hbusy⟩, -⟩ :=
      hrest (.error (.unavailable "")) _ ⟨twice, fun hn => absurd hn hnot, trivial, rfl⟩
    exact absurd hbusy.heard.open_nodup (by simp [openSteps, twice, began, Watch.dispatches])

theorem spared (h : Backed now stack) (hw : Waiting stack) (hk : Spared now t) : Backed t stack := by
  have hnoted := h.noted hw
  cases h with
  | bottom hk' => exact .bottom (hk'.trans hk)
  | @frame base _ fr below hbelow hwaiting hbusy hrest =>
    obtain ⟨c, next, hcall⟩ := hw fr rfl
    obtain ⟨mine, hbusy⟩ := hbusy
    have hamid : Amid base mine ⟨now, fr.own⟩ := ⟨hbusy, hnoted.noted⟩
    refine .frame hbelow hwaiting ⟨mine, (hamid.waited hk).toBusy⟩ ?_
    rw [hcall] at hrest ⊢
    rintro r s' ⟨u, hu, ha, rfl⟩
    exact hrest r _ ⟨u, fun _ => hk.trans (hu hk.noted), ha, rfl⟩

theorem step {m m' : Machine} (hm : Backed m.story m.stack) (h : m.Step f m') :
    Backed m'.story m'.stack := by
  cases h with
  | flag b hw => exact hm.spared hw (Spared.flagged (hm.noted hw) b)
  | enter q hw =>
    have hnoted := hm.noted hw
    exact .frame hm hw ⟨[], (Amid.enter hnoted).toBusy⟩ (Request.attends f q hnoted)
  | act hmove =>
    cases hm with
    | frame hbelow hwaiting hbusy hrest =>
      obtain ⟨hbusy', hrest'⟩ := move_assured Conduct.immediate_attentive hmove hbusy hrest
      exact .frame hbelow hwaiting hbusy' hrest'
  | leave =>
    cases hm with
    | frame hbelow hwaiting _ hdone => exact hbelow.spared hwaiting hdone.spared

theorem reachable {m : Machine} (h : Machine.Reachable f m) : Backed m.story m.stack := by
  induction h with
  | opening flows logging => exact .bottom (Spared.refl (noted_opening flows logging))
  | step _ hs ih => exact ih.step hs

theorem heard (h : Backed now stack) : Heard now := by
  cases h with
  | bottom hk => exact hk.noted.toHeard
  | frame _ _ hbusy _ =>
    obtain ⟨mine, hbusy⟩ := hbusy
    exact hbusy.heard

end Backed

theorem Machine.Reachable.asks_for_own {f : Facilities} {m : Machine} (hm : Reachable f m)
    {fr : Frame} {below : List Frame} (hstack : m.stack = fr :: below) {c : ProviderCall}
    {next : c.Outcome → Proc fr.request.Reply} (hrest : fr.rest = .call c next)
    (hc : c.Fileless) : ∃ x, (openSteps m.story.past).head? = some x ∧
      (openSteps fr.own).head? = some x := by
  have hbacked := Backed.reachable hm
  rw [hstack] at hbacked
  cases hbacked with
  | @frame base _ _ _ _ _ _ hassures =>
    rw [hrest] at hassures
    obtain ⟨⟨mine, hbusy⟩, -⟩ :=
      hassures (.error (.unavailable "")) _ ⟨m.story, Spared.refl, trivial, rfl⟩
    have hown : openSteps fr.own = mine := hbusy.own
    have hall : openSteps m.story.past = mine ++ openSteps base.past := hbusy.all
    have hasked : openSteps fr.own ≠ [] := hbusy.voiced.1 hc
    obtain ⟨x, rest, hx⟩ := List.exists_cons_of_ne_nil hasked
    refine ⟨x, ?_, by rw [hx]; rfl⟩
    rw [hall, ← hown, hx]
    rfl

/-- What is known of a dialogue at any time: it has been begun once at most and been kept to, and
when the record of the step can be looked at, it shows the identifier that was told, from the time
on when it was told. -/
structure Dialogue.Held (D : Dialogue) (m : Machine) (x : Handle × Nat) (shown : Option String) :
    Prop where
  single : D.Single (talk x m.story.past)
  shows : Waiting m.stack → shown = D.told? (talk x m.story.past)
  stays : ∀ earlier told, earlier <:+ m.story.past → D.told? (talk x earlier) = some told →
    Waiting m.stack → shown = some told

theorem Machine.Reachable.held {f : Facilities} {m : Machine} (hm : Reachable f m) {h : Handle}
    {i : Nat} {z : StepExecution} (hz : (m.story.engine.session h).graph.nodes[i]? = some z)
    {D : Dialogue} (hD : z.step.target.targetType.dialogue? = some D) :
    D.Held m (h, i) (D.shown z.record) := by
  have hbacked := Backed.reachable hm
  have hstep : m.story.engine.stepAt (h, i) = some z.step := by
    rw [Engine.stepAt, hz]
    rfl
  have hrec : m.story.engine.record? h i = some z.record := by
    rw [Engine.record?, Session.record?, hz]
    rfl
  have hsingle := ((hbacked.heard.converses (h, i) z.step hstep).proceeds D hD).single
  have hshows : Waiting m.stack → D.shown z.record = D.told? (talk (h, i) m.story.past) :=
    fun hw => (hbacked.noted hw).noted (h, i) z.step D z.record hstep hD hrec
  refine ⟨hsingle, hshows, ?_⟩
  intro earlier told hearlier htold hw
  obtain ⟨later, hlater⟩ := talk_suffix (h, i) hearlier
  rw [hshows hw, hsingle.stays later _ told hlater.symm htold]

namespace Machine

def poll : Machine → Machine
  | ⟨story, ⟨q, .await w next, own⟩ :: below⟩ => ⟨story, ⟨q, w.poll next, own⟩ :: below⟩
  | m => m

theorem Under.polled {R : Regime} {f : Facilities} {m : Machine} (hm : m.Under R f) :
    m.poll.Under R f := by
  rw [poll.eq_def]
  split
  · exact .act hm .await
  · exact hm

end Machine

namespace Sample

/-- The draft is asked of an assistant, and the review is done by an app. -/
def advisory : Flow :=
  { flow with steps := [⟨draft, 1, "draft", "", ⟨.assistant, "writer"⟩, []⟩,
    ⟨review, 2, "review", "", ⟨.app, "checker"⟩, []⟩] }

/-- The provider was down when the assistant was asked first, and has answered then. The run of the
app is waited for, and meanwhile the assistant is asked again. -/
def advised : Machine :=
  let ask : Request := .runStep "acme" "session-0-00000000" "draft" none false
  let check : Request := .runStep "acme" "session-0-00000000" "review" none false
  let m : Machine := ⟨.opening [advisory] false, []⟩
  let m := m.serve facilities (fun _ => echo) create 0
  let m := m.serve facilities (fun _ => silence) (.run "acme" "session-0-00000000") 1
  let m := m.serve facilities (fun _ => echo) ask 1
  let m := ((m.enter facilities check).advance (fun _ => echo) 1).poll.advance (fun _ => echo) 0
  (m.enter facilities ask).advance (fun _ => echo) 0

theorem reachable_advised : Machine.Reachable facilities advised := by
  have hany : ∀ (answer : (c : ProviderCall) → c.Outcome) past c,
      Regime.lax.answers past c (answer c) := fun _ _ _ => trivial
  have hcreated := (Machine.Under.opening (R := .lax) (f := facilities) [advisory] false).served
    (hany echo) (q := create) trivial 0
  have hrun := hcreated.served (hany silence) (q := .run "acme" "session-0-00000000") trivial 1
  have hasked := hrun.served (hany echo)
    (q := .runStep "acme" "session-0-00000000" "draft" none false) trivial 1
  have hchecked := (((hasked.entered
    (q := .runStep "acme" "session-0-00000000" "review" none false) trivial).advanced (hany echo)
    1).polled).advanced (hany echo) 0
  exact ((hchecked.entered (q := .runStep "acme" "session-0-00000000" "draft" none false)
    trivial).advanced (hany echo) 0).reachable

end Sample

/-- In all nestings of operations, whatever the provider answers and however often a step is run: a
step whose target is an app begins one run of it at most and polls only the run that it has begun; a
step whose target is an assistant opens one conversation at most and goes on only with that one. The
identifier that it was told is what its report shows from then on. -/
theorem steps_hold_dialogue {f : Facilities} {m : Machine} (hm : Machine.Reachable f m) {h : Handle}
    {i : Nat} {z : StepExecution} (hz : (m.story.engine.session h).graph.nodes[i]? = some z) :
    (z.step.target.targetType = .app → Dialogue.app.Held m (h, i) z.report.appRun) ∧
    (z.step.target.targetType = .assistant →
      Dialogue.assistant.Held m (h, i) z.report.conversation) ∧
    ∀ e c r target, ⟨e, .call c r⟩ ∈ talk (h, i) m.story.past → c.target? = some target →
      target = z.step.target.externalId := by
  have hstep : m.story.engine.stepAt (h, i) = some z.step := by
    rw [Engine.stepAt, hz]
    rfl
  refine ⟨fun htype => ?_, fun htype => ?_, ?_⟩
  · exact hm.held hz (D := .app) (by rw [htype]; rfl)
  · exact hm.held hz (D := .assistant) (by rw [htype]; rfl)
  · intro e c r target hmem htarget
    have hconverses := (Backed.reachable hm).heard.converses (h, i) z.step hstep
    exact hconverses.addressed _ hmem c r rfl target htarget

/-- The assistant has told its conversation and the app its run, and both are shown. -/
theorem steps_hold_dialogue_advised :
    (Sample.advised.story.engine.record? 0 0).bind StepRecord.conversation = some "talk" ∧
      (Sample.advised.story.engine.record? 0 1).bind StepRecord.appRun = some "run" := by
  have hwaiting : Waiting Sample.advised.stack := by decide +kernel
  let kind (z : StepExecution) : TargetType := z.step.target.targetType
  have hdraft : ((Sample.advised.story.engine.session 0).graph.nodes[0]?).map kind =
      some .assistant := by decide +kernel
  have hreview : ((Sample.advised.story.engine.session 0).graph.nodes[1]?).map kind =
      some .app := by decide +kernel
  obtain ⟨x, hx, hxtype⟩ := Option.map_eq_some_iff.mp hdraft
  obtain ⟨y, hy, hytype⟩ := Option.map_eq_some_iff.mp hreview
  have hasked := (steps_hold_dialogue Sample.reachable_advised hx).2.1 hxtype
  have hchecked := (steps_hold_dialogue Sample.reachable_advised hy).1 hytype
  constructor
  · rw [Engine.record?, Session.record?, hx]
    exact (hasked.shows hwaiting).trans (by decide +kernel)
  · rw [Engine.record?, Session.record?, hy]
    exact (hchecked.shows hwaiting).trans (by decide +kernel)

end FlowEngine
