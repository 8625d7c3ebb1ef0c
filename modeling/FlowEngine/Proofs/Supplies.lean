import FlowEngine.Proofs.Underway

/-! # What required steps supply

A step that is run with the steps that it requires finds their outputs: each of them is done, or is
run before it, and an output that is there stays there, whatever others do in between. So such a run
never fails for want of an output, of a step, or because of a cycle; what it reports and writes down
is what the target of a step has brought.
-/
namespace FlowEngine

variable {α : Type}

/-! ## Outputs -/

namespace Engine

variable {e e' : Engine} {h : Handle} {i : Nat} {t : SessionOutline} {y : StepOutline}

def HasOutput (e : Engine) (h : Handle) (i : Nat) : Prop :=
  ∃ r, e.record? h i = some r ∧ r.output.isSome

def HasStarted (e : Engine) (h : Handle) (i : Nat) : Prop :=
  ∃ r, e.record? h i = some r ∧ r.startedAt.isSome

theorem HasOutput.later (ho : e.HasOutput h i) (ha : e.Advances e') : e'.HasOutput h i := by
  obtain ⟨r, hr, ho⟩ := ho
  obtain ⟨r', hr', hp⟩ := ha.records h i r hr
  exact ⟨r', hr', hp.output ho⟩

theorem HasStarted.later (hs : e.HasStarted h i) (ha : e.Advances e') : e'.HasStarted h i := by
  obtain ⟨r, hr, hs⟩ := hs
  obtain ⟨t, ht⟩ := Option.isSome_iff_exists.mp hs
  obtain ⟨r', hr', hp⟩ := ha.records h i r hr
  exact ⟨r', hr', Option.isSome_iff_exists.mpr ⟨t, hp.started t ht⟩⟩

end Engine

theorem Session.redirects_ok {s : Session} {step : Step}
    (h : ∀ source ∈ step.sources, ∃ x, s.execution source.text = .ok x ∧ x.record.output.isSome) :
    ∃ values, s.redirects step = .ok values := by
  rw [Session.redirects]
  rw [Step.sources] at h
  generalize step.inputs = inputs at h ⊢
  induction inputs with
  | nil => exact ⟨[], rfl⟩
  | cons input rest ih =>
    rw [List.filterMapM_cons]
    cases input with
    | flowInput id =>
      obtain ⟨values, hvalues⟩ := ih fun source hs =>
        h source (by rwa [List.filterMap_cons_none rfl])
      exact ⟨values, by simpa [bind, Except.bind] using hvalues⟩
    | redirect source useAs =>
      obtain ⟨values, hvalues⟩ := ih fun other hs => h other (List.mem_cons_of_mem _ hs)
      obtain ⟨x, hx, ho⟩ := h source List.mem_cons_self
      obtain ⟨output, houtput⟩ := Option.isSome_iff_exists.mp ho
      simp only [bind, Except.bind] at hvalues
      simp only [hx, houtput, bind, Except.bind, hvalues]
      exact ⟨_, rfl⟩

theorem Engine.Hosts.redirects_ok {e : Engine} {h : Handle} {t : SessionOutline} {i : Nat}
    {y : StepOutline} (hh : e.Hosts h t) (ht : t.WellLaid) (hy : t.steps[i]? = some y)
    (hs : ∀ j ∈ y.required, e.HasOutput h j) :
    ∃ values, (e.session h).redirects y.step = .ok values := by
  refine Session.redirects_ok fun source hsource => ?_
  obtain ⟨j, hj, z, hz, rfl⟩ := ht.laid.supplied y (List.mem_of_getElem? hy) source hsource
  obtain ⟨x, hx, -, -, hrecord⟩ := hh.execution ht hz
  obtain ⟨r, hr, ho⟩ := hs j hj
  rw [hrecord] at hr
  cases hr
  exact ⟨x, hx, ho⟩

/-! ## Steps with the steps that they require -/

/-- What running a step with the steps that it requires may end with: a fault of a target, or that
the step is running already. -/
def EngineFault.Excused (fault : EngineFault) : Prop :=
  fault.root.OfTarget ∨ ∃ execution, fault = .stepRunning execution

theorem EngineFault.OfTarget.excused {fault : EngineFault} (h : fault.OfTarget) : fault.Excused :=
  .inl (h.ofWork.root.symm ▸ h)

theorem EngineFault.Excused.wrapped {fault : EngineFault} (h : fault.Excused)
    (hf : Steps.leavesAlone fault = false) (step required : String) :
    (EngineFault.requiredStepFailed step required fault).root.OfTarget := by
  rcases h with h | ⟨execution, rfl⟩
  · exact h
  · cases hf

namespace Inputs

variable {strict : Bool} {base : Story} {s : Situation}

theorem resolveRedirects_proceeds (hs : Underway strict base s) (h : Handle) (step : Step)
    (hr : strict = true → ∃ values, (s.engine.session h).redirects step = .ok values) :
    (resolveRedirects h step).Proceeds strict base (fun _ _ => True) EngineFault.OfTarget s := by
  refine Attempt.proceeds_session (Attempt.proceeds_ofExcept hs ?_ ?_)
  · intro values _
    have hchanged : ∀ t, Underway strict base (s.change (.values h t)) :=
      fun t => hs.plain rfl trivial rfl
    exact ⟨hchanged _, ⟨hchanged _, (Engine.Advances.refl _).change _⟩, trivial⟩
  · intro fault hfault hstrict
    obtain ⟨values, hvalues⟩ := hr hstrict
    cases hvalues.symm.trans hfault

theorem prepare_proceeds (hs : Underway strict base s) (tenant : String) (h : Handle) (step : Step)
    (hr : strict = true → ∃ values, (s.engine.session h).redirects step = .ok values) :
    (prepare tenant h step).Proceeds strict base (fun _ _ => True) EngineFault.OfTarget s := by
  have huploads : ∀ r, (Scope.uneventful r).Uploads tenant h :=
    fun r => (Scope.uneventful_notes r tenant h 0).uploads
  refine (resolveRedirects_proceeds hs h step hr).bind fun _ s₁ hs₁ _ _ => ?_
  refine ((Attempt.within_lift.mpr (discardStale_within (huploads _) step)).proceeds rfl hs₁).bind
    fun _ s₂ hs₂ _ _ => ?_
  refine ((uploadMissing_within (huploads _) fun _ => trivial).proceeds rfl hs₂).bind
    fun _ s₃ hs₃ _ _ => ?_
  exact Attempt.proceeds_session (Attempt.proceeds_pure hs₃ trivial)

end Inputs

namespace Steps

variable {strict : Bool} {base : Story} {s : Situation} {o : StepOrder} {t : SessionOutline}
  (d : Dispatcher)

theorem dispatch_proceeds (hs : Underway strict base s) (x : StepExecution)
    (hr : strict = true → ∃ values, (s.engine.session o.session).redirects x.step = .ok values) :
    (dispatch d o x).Proceeds strict base (fun _ _ => True) EngineFault.OfTarget s := by
  refine (Inputs.prepare_proceeds hs o.tenant o.session x.step hr).bind fun inUse s₁ hs₁ _ _ => ?_
  split
  · have hnotes := Scope.uneventful_notes s₁.engine.registry o.tenant o.session x.index
    exact (execute_within hnotes.asks d inUse).proceeds rfl hs₁
  · exact Attempt.proceeds_throw hs₁ fun _ => trivial

theorem enterRunning_proceeds (hs : Underway strict base s) (x : StepExecution) :
    (enterRunning o x).Proceeds strict base
      (fun _ s' => s'.engine.HasStarted o.session x.index) EngineFault.Excused s := by
  simp only [enterRunning, Attempt.Proceeds, Attempt.assures_bind, Attempt.assures_lift,
    Proc.assures_now, Proc.assures_session]
  intro now
  split
  · exact ⟨⟨hs, .refl _⟩, fun _ => .inr ⟨_, rfl⟩⟩
  · next r hr =>
    obtain ⟨z, hz, hbegin⟩ := Option.bind_eq_some_iff.mp hr
    have hrecord : s.engine.record? o.session x.index = some z.record := by
      rw [Engine.record?, Session.record?, hz]
      rfl
    have hidle : z.record.isRunning = false := by
      rw [Bool.eq_false_iff]
      intro hrunning
      rw [StepRecord.begin?_eq_none.mpr hrunning] at hbegin
      cases hbegin
    have hbegun : Underway strict base (s.change (.begin o.session x.index now)) :=
      hs.plain rfl trivial rfl
    have hstarted : (s.change (.begin o.session x.index now)).engine.HasStarted o.session
        x.index := by
      refine ⟨z.record.begin now, ?_, ?_⟩
      · rw [Situation.change_engine, Change.record?_apply_self rfl, hrecord]
        rfl
      · rw [StepRecord.begin_of_idle hidle]
        rfl
    simp only [Attempt.assures_bind, Attempt.assures_lift, Proc.assures_change, Proc.assures_log]
    exact ⟨hbegun, hbegun.log _, ⟨hbegun.log _, ((Engine.Advances.refl _).change _).change _⟩,
      hstarted.later ((Engine.Advances.refl _).change _)⟩

theorem recordFailure_proceeds (hs : Underway strict base s) (x : StepExecution)
    {fault : EngineFault} (hf : strict = true → fault.root.OfTarget) :
    Attempt.Proceeds strict base (fun _ _ => True) EngineFault.Excused
      (monadLift (recordFailure o x fault) : Attempt Unit) s := by
  simp only [recordFailure, Attempt.Proceeds, Attempt.assures_lift, Proc.assures_bind',
    Proc.assures_now, Proc.assures_change, Proc.assures_session, Proc.assures_log]
  intro now
  have hfailed := hs.change (c := .fail o.session x.index fault.message now)
    (Change.welcome_of_newcomer rfl _) trivial ?_
  · exact ⟨hfailed, hfailed.log _,
      ⟨hfailed.log _, ((Engine.Advances.refl _).change _).change _⟩, trivial⟩
  · rintro hstrict h i text now ⟨⟩
    exact ⟨fault, hf hstrict, rfl⟩

theorem recordOutcome_proceeds (hs : Underway strict base s) (x : StepExecution)
    (outcome : TargetOutcome) (hstarted : s.engine.HasStarted o.session x.index)
    (hg : 1 ≤ (s.engine.session o.session).generation) :
    Attempt.Proceeds strict base (fun _ s' => s'.engine.HasOutput o.session x.index)
      EngineFault.Excused (monadLift (recordOutcome o x outcome) : Attempt StepReport) s := by
  simp only [recordOutcome, Attempt.Proceeds, Attempt.assures_lift, Proc.assures_bind',
    Proc.assures_now, Proc.assures_session, Proc.assures_change, Proc.assures_log,
    Proc.assures_pure]
  intro now
  obtain ⟨r, hr, hsome⟩ := hstarted
  have hdone : Underway strict base (s.change (.complete o.session x.index outcome now)) := by
    refine hs.plain rfl ⟨fun r' hr' => ?_, hg⟩ rfl
    cases hr.symm.trans hr'
    exact hsome
  have houtput : (s.change (.complete o.session x.index outcome now)).engine.HasOutput o.session
      x.index := by
    refine ⟨r.finish outcome (s.engine.session o.session).generation now, ?_, rfl⟩
    rw [Situation.change_engine, Change.record?_apply_self rfl, hr]
    rfl
  exact ⟨hdone, hdone.log _, ⟨hdone.log _, ((Engine.Advances.refl _).change _).change _⟩,
    houtput.later ((Engine.Advances.refl _).change _)⟩

theorem runAlone_proceeds (hs : Underway strict base s) (hh : s.engine.Hosts o.session t)
    (ht : t.WellLaid) {x : StepExecution} {y : StepOutline} (hy : t.steps[x.index]? = some y)
    (hx : x.outline = y) (hg : 1 ≤ (s.engine.session o.session).generation)
    (hsupplied : strict = true → ∀ j ∈ y.required, s.engine.HasOutput o.session j) :
    (runAlone d o x).Proceeds strict base (fun _ s' => s'.engine.HasOutput o.session x.index)
      EngineFault.Excused s := by
  have hstep : x.step = y.step := congrArg StepOutline.step hx
  refine (enterRunning_proceeds hs x).bind fun _ s₁ hs₁ hadv₁ hstarted => ?_
  have hh₁ : s₁.engine.Hosts o.session t := hh.evolve hadv₁.evolves
  have hg₁ := Nat.le_trans hg (hadv₁.generations _ hh.lt)
  have hdispatch := dispatch_proceeds d (o := o) hs₁ x fun hstrict =>
    hstep ▸ hh₁.redirects_ok ht hy fun j hj => (hsupplied hstrict j hj).later hadv₁
  refine hdispatch.outcome ?_ ?_
  · intro outcome s₂ hs₂ hadv₂ _
    exact recordOutcome_proceeds hs₂ x outcome (hstarted.later hadv₂)
      (Nat.le_trans hg₁ (hadv₂.generations _ hh₁.lt))
  · intro fault s₂ hs₂ _ hfault
    refine (recordFailure_proceeds hs₂ x fun hstrict => ?_).bind fun _ s₃ hs₃ _ _ => ?_
    · rw [(hfault hstrict).ofWork.root]
      exact hfault hstrict
    · exact Attempt.proceeds_throw hs₃ fun hstrict => (hfault hstrict).excused

theorem runRequired_proceeds {run : String → Attempt StepReport} (hs : Underway strict base s)
    (hh : s.engine.Hosts o.session t) {x required : StepExecution}
    (hr : t.steps[required.index]? = some required.outline)
    (hrun : (run required.step.id.text).Proceeds strict base
      (fun _ s' => s'.engine.HasOutput o.session required.index) EngineFault.Excused s) :
    (runRequired run o x required).Proceeds strict base
      (fun _ s' => s'.engine.HasOutput o.session required.index) EngineFault.Excused s := by
  obtain ⟨z, hz, -, hrecord⟩ := hh.record hr
  rw [runRequired]
  refine Attempt.proceeds_session ?_
  rw [hz, Option.any_some]
  cases hdone : z.record.isDone with
  | true =>
    have hstate : z.record.state = .done := by simpa [StepRecord.isDone] using hdone
    have hformed := hs.recorded.formed o.session required.index z.record hrecord
    exact Attempt.proceeds_pure hs ⟨z.record, hrecord, (hformed.done hstate).1⟩
  | false =>
    simp only [Bool.false_eq_true, if_false]
    refine hrun.outcome ?_ ?_
    · intro _ s' hs' _ ho
      exact Attempt.proceeds_pure hs' ho
    · intro fault s' hs' _ hfault
      cases hleaves : leavesAlone fault with
      | true =>
        simp only [hleaves, if_true]
        exact Attempt.proceeds_throw hs' hfault
      | false =>
        simp only [hleaves, Bool.false_eq_true, if_false]
        refine (recordFailure_proceeds hs' x fun hstrict => ?_).bind fun _ s'' hs'' _ _ => ?_
        · exact (hfault hstrict).wrapped hleaves _ _
        · exact Attempt.proceeds_throw hs'' fun hstrict =>
            .inl ((hfault hstrict).wrapped hleaves _ _)

/-- A step that is run with the steps that it requires ends with an output, or with the fault of a
target. -/
theorem runGuarded_proceeds (ht : t.WellLaid) (depth : Nat) (active : List String) {i : Nat}
    {y : StepOutline} (hy : t.steps[i]? = some y) (hdepth : i < depth)
    (hactive : t.Above i active) (hs : Underway o.withRequired base s)
    (hh : s.engine.Hosts o.session t) (hg : 1 ≤ (s.engine.session o.session).generation) :
    (runGuarded d o depth active y.step.id.text).Proceeds o.withRequired base
      (fun _ s' => s'.engine.HasOutput o.session i) EngineFault.Excused s := by
  induction depth generalizing active i y s with
  | zero => exact absurd hdepth (Nat.not_lt_zero i)
  | succ depth ih =>
    obtain ⟨x, hx, ho, hi, -⟩ := hh.execution ht hy
    rw [runGuarded_succ]
    refine Attempt.proceeds_session ?_
    rw [hx]
    refine Attempt.proceeds_ofExcept hs ?_ fun _ hf => by cases hf
    rintro _ ⟨⟩
    rw [if_neg (hactive.not_mem ht hy)]
    cases hrunning : x.record.isRunning with
    | true =>
      simp only [if_true]
      exact Attempt.proceeds_throw hs fun _ => .inr ⟨_, rfl⟩
    | false =>
      simp only [Bool.false_eq_true, if_false]
      obtain ⟨hindex, hnodes⟩ := hh.requirements ht hy ho
      refine (Attempt.proceeds_forM
        (D := fun (r : StepExecution) e => e.HasOutput o.session r.index)
        (fun ho ha => ho.later ha) _ hs ?_).bind fun _ s' hs' hadv hall => ?_
      · intro r hr s' hs' hadv
        obtain ⟨hrnode, hrreq⟩ := hnodes r hr
        have hh' : s'.engine.Hosts o.session t := hh.evolve hadv.evolves
        have hlt : r.index < i := SessionOutline.Requires.lt ht ⟨y, hy, hrreq⟩
        exact runRequired_proceeds hs' hh' hrnode (ih (y.step.id.text :: active) hrnode
          (Nat.lt_of_lt_of_le hlt (Nat.le_of_lt_succ hdepth)) (hactive.cons hy hlt) hs' hh'
          (Nat.le_trans hg (hadv.generations _ hh.lt)))
      · subst hi
        refine runAlone_proceeds d hs' (hh.evolve hadv.evolves) ht hy ho
          (Nat.le_trans hg (hadv.generations _ hh.lt)) fun hstrict j hj => ?_
        have hrequired : o.requirements y = y.required := if_pos hstrict
        rw [← hrequired, ← hindex] at hj
        obtain ⟨r, hr, rfl⟩ := List.mem_map.mp hj
        exact hall r hr

theorem runStep_proceeds (ht : t.WellLaid) {i : Nat} {y : StepOutline}
    (hy : t.steps[i]? = some y) (hs : Underway o.withRequired base s)
    (hh : s.engine.Hosts o.session t) (hg : 1 ≤ (s.engine.session o.session).generation) :
    (Steps.runStep d o y.step.id.text).Proceeds o.withRequired base
      (fun _ s' => s'.engine.HasOutput o.session i) EngineFault.Excused s := by
  have hlt : i < (s.engine.session o.session).graph.nodes.length := by
    obtain ⟨x, hx, -⟩ := hh.record hy
    exact (List.getElem?_eq_some_iff.mp hx).1
  exact Attempt.proceeds_session
    (runGuarded_proceeds d ht _ [] hy hlt (.nil t i) hs hh hg)

end Steps

/-! ## Requests -/

/-- A fault that is to blame on a flow: a cycle, a step that is not there, or an output that is
not. -/
def EngineFault.OfFlow : EngineFault → Prop
  | .cyclicDependency _ | .unknownStep _ _ | .missingOutput _ _ => True
  | _ => False

theorem EngineFault.OfTarget.not_ofFlow {fault : EngineFault} (h : fault.OfTarget) :
    ¬ fault.OfFlow := by
  intro hflow
  cases fault <;> first | exact h | exact hflow

theorem EngineFault.Excused.not_ofFlow {fault : EngineFault} (h : fault.Excused) :
    ¬ fault.root.OfFlow := by
  rcases h with h | ⟨execution, rfl⟩
  · exact h.not_ofFlow
  · exact id

namespace Sessions

variable {strict : Bool} {base : Story} {s : Situation} {tenant id : String} {h : Handle}
  {t : SessionOutline} {Q : α → Situation → Prop} {G : EngineFault → Prop}

theorem proceeds_find {f : Handle → Attempt α} (hs : Underway strict base s)
    (hfound : ∀ h, s.engine.find? id = some h → (s.engine.session h).tenant = tenant →
      (f h).Proceeds strict base Q G s) (hnone : strict = true → G (.unknownSession id)) :
    (find tenant id >>= f).Proceeds strict base Q G s := by
  rw [Attempt.Proceeds, Attempt.assures_bind, assures_find]
  exact ⟨hfound, fun _ => ⟨⟨hs, .refl _⟩, hnone⟩⟩

theorem runInTurn_proceeds (f : Facilities) (generation : Nat) (ht : t.WellLaid)
    {x : StepExecution} (hx : t.steps[x.index]? = some x.outline) (hs : Underway true base s)
    (hh : s.engine.Hosts h t) (hg : 1 ≤ (s.engine.session h).generation) :
    (runInTurn (stepOfRun f tenant h) h generation x).Proceeds true base (fun _ _ => True)
      EngineFault.Excused s := by
  refine Attempt.proceeds_session ?_
  split
  · exact Attempt.proceeds_pure hs trivial
  · refine (Steps.runStep_proceeds (o := ⟨tenant, h, none, true⟩) f.dispatcher ht hx hs hh
      hg).bind fun _ s' hs' _ _ => ?_
    exact Attempt.proceeds_pure hs' trivial

theorem runAllSteps_proceeds (f : Facilities) (generation : Nat) (ht : t.WellLaid)
    (hs : Underway true base s) (hh : s.engine.Hosts h t)
    (hg : 1 ≤ (s.engine.session h).generation) :
    (runAllSteps (stepOfRun f tenant h) tenant h generation).Proceeds true base (fun _ _ => True)
      EngineFault.Excused s := by
  have huploads := (Scope.uneventful_notes s.engine.registry tenant h 0).uploads
  have hprovider : ∀ fault, (EngineFault.provider fault).OfTarget := fun _ => trivial
  have hmissing := Inputs.uploadMissing_within huploads fun fault => (hprovider fault).excused
  refine (hmissing.proceeds rfl hs).bind fun _ s' hs' hadv _ => ?_
  have hh' : s'.engine.Hosts h t := hh.evolve hadv.evolves
  obtain ⟨-, hnodes⟩ := inOrder_steps hh' ht
  refine Attempt.proceeds_session ?_
  refine (Attempt.proceeds_forM (D := fun _ _ => True) (fun _ _ => trivial) _ hs' ?_).imp
    (fun _ _ _ => trivial) fun _ => id
  intro x hx s'' hs'' hadv'
  have hg'' := Nat.le_trans hg ((hadv.trans hadv').generations h hh.lt)
  exact runInTurn_proceeds f generation ht (hnodes x hx) hs'' (hh'.evolve hadv'.evolves) hg''

/-- Running a session does not fail for want of a step or an output, nor because of a cycle. -/
theorem run_proceeds (f : Facilities) (tenant id : String) (hs : Underway true base s) :
    (run f tenant id).Proceeds true base (fun _ _ => True)
      (fun fault => ¬ fault.root.OfFlow) s := by
  refine proceeds_find hs (fun h hf _ => ?_) fun _ hflow => hflow
  have hh := find?_hosts hs.recorded.sound hf
  have ht := hs.recorded.sound.laid h _ hh
  refine Attempt.proceeds_session (Attempt.proceeds_ofExcept hs ?_ ?_)
  · intro started hstarted
    have hstart : Underway true base (s.change (.startRun h)) := hs.plain rfl trivial rfl
    have hpos : 1 ≤ ((s.change (.startRun h)).engine.session h).generation := by
      rw [Situation.change_engine, Change.generation_apply _ _ _ (.inl rfl), if_pos ⟨rfl, hh.lt⟩]
      exact Nat.le_add_left 1 _
    have hh₁ := hh.evolve (Change.evolves_apply (.startRun h) _)
    refine Attempt.proceeds_change hstart (Attempt.proceeds_log hstart fun s₂ hs₂ hadv₂ => ?_)
    have hh₂ := hh₁.evolve hadv₂.evolves
    have hpos₂ := Nat.le_trans hpos (hadv₂.generations h hh₁.lt)
    refine (runAllSteps_proceeds f started.1 ht hs₂ hh₂ hpos₂).outcome ?_ ?_
    · intro _ s₃ hs₃ hadv₃ _
      have hclosed : Underway true base (s₃.change (.finishRun h)) :=
        hs₃.plain rfl (Nat.le_trans hpos₂ (hadv₃.generations h hh₂.lt)) rfl
      refine Attempt.proceeds_change hclosed (Attempt.proceeds_log hclosed fun s₄ hs₄ _ => ?_)
      exact Attempt.proceeds_pure hs₄ trivial
    · intro fault s₃ hs₃ hadv₃ hfault
      have hclosed : Underway true base (s₃.change (.failRun h)) :=
        hs₃.plain rfl (Nat.le_trans hpos₂ (hadv₃.generations h hh₂.lt)) rfl
      refine Attempt.proceeds_change hclosed (Attempt.proceeds_log hclosed fun s₄ hs₄ _ => ?_)
      exact Attempt.proceeds_throw hs₄ fun hstrict => (hfault hstrict).not_ofFlow
  · intro fault hfault _
    rw [Session.startRun] at hfault
    split at hfault <;> cases hfault
    exact fun hflow => hflow

/-- If there is a session of this identifier and tenant in the store, its flow declares the step. -/
def Declares (e : Engine) (tenant id step : String) : Prop :=
  ∀ h, e.find? id = some h → (e.session h).tenant = tenant →
    ∃ st ∈ (e.session h).flow.steps, st.id.text = step

theorem runStep_proceeds (f : Facilities) (tenant id step : String) (userInput : Option String)
    (withRequired : Bool) (hs : Underway withRequired base s) :
    (runStep f tenant id step userInput withRequired).Assures Custom.onward.conduct
      (Underway withRequired base) (fun _ s' => Underway withRequired base s')
      (fun fault s' => Underway withRequired base s' ∧ (withRequired = true →
        fault.root.OfFlow → ¬ Declares s'.engine tenant id step ∧ s' = s)) s := by
  rw [runStep, runStepBy, Attempt.assures_bind, assures_find]
  refine ⟨fun h hf htenant => ?_, fun _ => ⟨hs, fun _ hflow => hflow.elim⟩⟩
  have hh := find?_hosts hs.recorded.sound hf
  have ht := hs.recorded.sound.laid h _ hh
  rw [Attempt.assures_bind, Attempt.assures_lift, Proc.assures_session, Attempt.assures_bind,
    Attempt.assures_ofExcept]
  constructor
  · intro x hx
    obtain ⟨hy, hid⟩ := hh.of_execution ht hx
    by_cases hstate : (s.engine.session h).state = .created
    · rw [if_pos hstate]
      exact ⟨hs, fun _ hflow => hflow.elim⟩
    · rw [if_neg hstate]
      by_cases hrunning : x.record.isRunning = true
      · rw [if_pos hrunning]
        exact ⟨hs, fun _ hflow => hflow.elim⟩
      · rw [if_neg hrunning]
        have hg := hs.recorded.used h hstate
        have hrun := Steps.runStep_proceeds (o := ⟨tenant, h, userInput, withRequired⟩)
          f.dispatcher ht hy hs hh hg
        have hname : x.outline.step.id.text = step := hid
        rw [hname] at hrun
        refine Attempt.Assures.imp hrun (fun _ _ hs' => hs'.1.1) ?_
        exact fun fault s' hs' => ⟨hs'.1.1, fun hstrict hflow =>
          absurd hflow (hs'.2 hstrict).not_ofFlow⟩
  · intro fault hfault
    refine ⟨hs, fun _ _ => ⟨fun hdeclares => ?_, rfl⟩⟩
    obtain ⟨st, hst, rfl⟩ := hdeclares h hf htenant
    obtain ⟨y, hy, hid⟩ := ht.complete st hst
    obtain ⟨i, hi⟩ := List.mem_iff_getElem?.mp hy
    obtain ⟨x, hx, -⟩ := hh.execution ht hi
    rw [hid] at hx
    cases hx.symm.trans hfault

end Sessions

namespace Request

def RunsRequired : Request → Prop
  | .run _ _ => True
  | .runStep _ _ _ _ withRequired => withRequired = true
  | _ => False

/-- A step that is asked for is declared. -/
def NamesStep (e : Engine) : Request → Prop
  | .runStep tenant id step _ _ => Sessions.Declares e tenant id step
  | _ => True

def fault? : (q : Request) → q.Reply → Option EngineFault
  | .run _ _, .error fault => some fault
  | .runStep _ _ _ _ _, .error fault => some fault
  | _, _ => none

/-- What a request ends with is to blame on the flow only if the step that is asked for is not
declared; nothing has been done then. -/
def Blameless (q : Request) (r : q.Reply) (s : Situation) : Prop :=
  q.RunsRequired → ∀ fault, q.fault? r = some fault → fault.root.OfFlow →
    ¬ q.NamesStep s.engine ∧ s.own = []

theorem RunsRequired.runs {q : Request} (hq : q.RunsRequired) : q.Runs := by
  cases q <;> trivial

theorem proceeds (f : Facilities) (q : Request) {s : Story} (hs : s.Recorded) :
    (q.proc f).Assures Custom.onward.conduct
      (fun s' => s.Onward s'.toStory ∧ (q.RunsRequired → Attributed s'.own))
      (fun r s' => (s.Onward s'.toStory ∧ (q.RunsRequired → Attributed s'.own)) ∧
        q.Blameless r s') s.enter := by
  by_cases hq : q.Runs
  · cases q with
    | run tenant id =>
      refine Proc.Assures.mono ?_ ?_ (Sessions.run_proceeds f tenant id (Underway.start hs))
      · exact fun s' hs' => ⟨hs'.onward, fun _ => hs'.attributed rfl⟩
      · rintro (fault | v) s' ⟨⟨hs', -⟩, hend⟩
        · refine ⟨⟨hs'.onward, fun _ => hs'.attributed rfl⟩, ?_⟩
          rintro - _ ⟨⟩ hflow
          exact absurd hflow (hend rfl)
        · exact ⟨⟨hs'.onward, fun _ => hs'.attributed rfl⟩, fun _ _ hf => by cases hf⟩
    | runStep tenant id step userInput withRequired =>
      refine Proc.Assures.mono ?_ ?_
        (Sessions.runStep_proceeds f tenant id step userInput withRequired (Underway.start hs))
      · exact fun s' hs' => ⟨hs'.onward, hs'.attributed⟩
      · rintro (fault | v) s' hs'
        · obtain ⟨hunder, hend⟩ := hs'
          refine ⟨⟨hunder.onward, hunder.attributed⟩, ?_⟩
          rintro hrequired _ ⟨⟩ hflow
          obtain ⟨hnot, rfl⟩ := hend hrequired hflow
          exact ⟨hnot, rfl⟩
        · have hunder : Underway withRequired s s' := hs'
          exact ⟨⟨hunder.onward, hunder.attributed⟩, fun _ _ hf => by cases hf⟩
    | _ => exact absurd hq id
  · have hnot : ¬ q.RunsRequired := fun hrequired => hq hrequired.runs
    have hwithin := within_of_not_runs (Scope.uneventful_requests s.engine.registry) f hq
    have hall := hwithin.assures (K := Custom.onward.conduct)
      (J := fun s' => Underway false s s') (fun s' hs' => hs'.onward.advances.registry) ?_ ?_
      (Underway.start hs)
    · refine hall.mono (fun _ hs' => ⟨hs'.onward, fun hrequired => absurd hrequired hnot⟩) ?_
      exact fun _ _ hs' => ⟨⟨hs'.2.onward, fun hrequired => absurd hrequired hnot⟩,
        fun hrequired => absurd hrequired hnot⟩
    · rintro s' c hs' ⟨hc, hquiet⟩
      have hregistry : s'.engine.registry = s.engine.registry := hs'.onward.advances.registry
      exact hs'.change (hregistry ▸ hc) (hquiet.timely _) nofun
    · intro s' c r s'' hs' _ hm
      exact (hs'.meets hm).1

end Request

theorem Custom.onward_followed (f : Facilities) :
    Custom.onward.Followed f (fun q own => q.RunsRequired → Attributed own) Request.Blameless := by
  constructor
  · exact fun _ _ _ hm => absurd hm List.not_mem_nil
  · rintro q s ⟨flows, logging, hs⟩
    exact q.proceeds f (hs.recorded (Story.recorded_opening flows logging))

namespace Machine

variable {f : Facilities} {m m' : Machine}

theorem Reachable.recorded (hm : Reachable f m) : m.story.Recorded := by
  obtain ⟨flows, logging, hs⟩ := (Custom.Kept.reachable (Custom.onward_followed f) hm).begun
  exact hs.recorded (Story.recorded_opening flows logging)

theorem Step.advances (h : m.Step f m') : m.story.engine.Advances m'.story.engine := by
  cases h with
  | flag b hw => exact (Story.onward_flagged _ b).advances
  | enter q hw => exact .refl _
  | leave => exact .refl _
  | act hmove =>
    cases hmove with
    | update => exact Engine.advances_apply _ _
    | call hm =>
      obtain ⟨t, rfl, -, rfl⟩ := hm
      exact .refl _
    | _ => exact .refl _

theorem advances_of_steps (h : Relation.ReflTransGen (Step f) m m') :
    m.story.engine.Advances m'.story.engine := by
  induction h with
  | refl => exact .refl _
  | tail _ hstep ih => exact ih.trans hstep.advances

end Machine

end FlowEngine
