import FlowEngine.Proofs.Cycles
import FlowEngine.Proofs.JobRuns
import FlowEngine.Proofs.Nesting

/-! # Refused requests

A request is refused when it asks for something that is not there, or that is not allowed in the
state in which the session is. Such a fault is found by looking, before anything has been done; the
same fault never comes from inside a run, because the steps of a session are laid out so that every
source is a step, and what a run asks for is there. So a request that is refused has left everything
as it was.

When operations follow one another, nothing is running when one begins, and an operation does not
run into what it has started itself.
-/
namespace FlowEngine

variable {α β : Type} {K : Conduct} {answers : List Moment → (c : ProviderCall) → c.Outcome → Prop}

namespace EngineFault

def Refuses : EngineFault → Prop
  | .unknownSession _ | .unknownStep _ _ | .unknownInput _ _ | .sessionNotStarted _
  | .sessionRunning _ | .extraction _ _ | .missingTemplate _ | .render _ _ => True
  | _ => False

theorem OfTarget.not_refuses {fault : EngineFault} (h : fault.OfTarget) : ¬ fault.Refuses := by
  intro hrefuses
  cases fault <;> first | exact h | exact hrefuses

end EngineFault

/-! ## Inside a run nothing is refused -/

def Scope.hosting (h : Handle) (t : SessionOutline) : Scope where
  sees e := e.Hosts h t
  makes _ := True
  calls _ := True

theorem Scope.hosting_steps (tenant : String) (h : Handle) (t : SessionOutline) :
    (Scope.hosting h t).Steps tenant h :=
  ⟨⟨fun _ => trivial, fun _ => trivial, fun _ _ => trivial⟩, fun _ _ _ => trivial⟩

theorem Attempt.Within.hosted {a : Attempt α} {V : α → Prop} {G : EngineFault → Prop} {h : Handle}
    {t : SessionOutline} {s : Situation} (hK : K.Evolving) (ha : a.Within (.hosting h t) V G)
    (hs : s.engine.Hosts h t) :
    a.Assures K (fun s' => s'.engine.Hosts h t) (fun v s' => V v ∧ s'.engine.Hosts h t)
      (fun fault s' => G fault ∧ s'.engine.Hosts h t) s := by
  refine Attempt.Within.assures (fun _ hs' => hs') ?_ ?_ ha hs
  · exact fun s' c hs' _ => hs'.evolve (Change.evolves_apply c _)
  · rintro s' c r s'' hs' - ⟨u, hu, -, rfl⟩
    have hevolves : s'.engine.Evolves u.engine := hK hu
    exact hs'.evolve hevolves

namespace Steps

variable {o : StepOrder} {t : SessionOutline} (d : Dispatcher)

theorem redirects_not_refuses (ht : t.WellLaid) {i : Nat} {y : StepOutline}
    (hy : t.steps[i]? = some y) {e : Engine} {h : Handle} (hh : e.Hosts h t) {fault : EngineFault}
    (hf : (e.session h).redirects y.step = .error fault) : ¬ fault.Refuses := by
  obtain ⟨source, hsource, hx | rfl⟩ := redirects_fault hf
  · obtain ⟨j, -, z, hz, rfl⟩ := ht.laid.supplied y (List.mem_of_getElem? hy) source hsource
    obtain ⟨x, hok, -⟩ := hh.execution ht hz
    cases hok.symm.trans hx
  · exact id

theorem runGuarded_not_refuses (ht : t.WellLaid) (depth : Nat) (active : List String) {i : Nat}
    {y : StepOutline} (hy : t.steps[i]? = some y) :
    (runGuarded d o depth active y.step.id.text).Within (.hosting o.session t) (fun _ => True)
      fun fault => ¬ fault.Refuses := by
  have hb := Scope.hosting_steps o.tenant o.session t
  induction depth generalizing active i y with
  | zero =>
    simp only [runGuarded, Attempt.within_bind, Attempt.within_lift, Proc.within_session,
      Attempt.within_ofExcept]
    intro e he
    obtain ⟨x, hx, -⟩ := he.execution ht hy
    rw [hx]
    refine ⟨fun x' _ => ?_, fun _ hf => by cases hf⟩
    split
    · exact id
    · split <;> exact id
  | succ depth ih =>
    simp only [runGuarded_succ, Attempt.within_bind, Attempt.within_lift, Proc.within_session,
      Attempt.within_ofExcept]
    intro e he
    obtain ⟨x, hx, hxy, -⟩ := he.execution ht hy
    rw [hx]
    refine ⟨?_, fun _ hf => by cases hf⟩
    rintro _ ⟨⟩
    split
    · exact id
    · split
      · exact id
      · obtain ⟨-, hnodes⟩ := he.requirements (o := o) ht hy hxy
        have required := Attempt.within_forM fun r hr =>
          runRequired_within hb x r (ih (y.step.id.text :: active) (hnodes r hr).1)
            fun _ _ => id
        refine required.bind fun _ _ => ?_
        refine runAlone_fails hb d x (fun _ => EngineFault.OfTarget.not_refuses) id ?_
        have hstep : x.step = y.step := congrArg StepOutline.step hxy
        exact fun e' he' fault hf => redirects_not_refuses ht hy he' (hstep ▸ hf)

theorem runStep_not_refuses (ht : t.WellLaid) {i : Nat} {y : StepOutline}
    (hy : t.steps[i]? = some y) :
    (Steps.runStep d o y.step.id.text).Within (.hosting o.session t) (fun _ => True)
      fun fault => ¬ fault.Refuses := by
  simp only [Steps.runStep, Attempt.within_bind, Attempt.within_lift, Proc.within_session]
  exact fun e _ => runGuarded_not_refuses d ht _ [] hy

end Steps

theorem Sessions.runAllSteps_not_refuses {t : SessionOutline} (ht : t.WellLaid) (f : Facilities)
    (tenant : String) (h : Handle) (generation : Nat) :
    (runAllSteps (stepOfRun f tenant h) tenant h generation).Within (.hosting h t) (fun _ => True)
      fun fault => ¬ fault.Refuses := by
  have hb := Scope.hosting_steps tenant h t
  refine (Inputs.uploadMissing_within hb.uploads fun _ => id).bind fun _ _ => ?_
  simp only [Attempt.within_bind, Attempt.within_lift, Proc.within_session]
  intro e he
  obtain ⟨-, hnodes⟩ := inOrder_steps he ht
  refine Attempt.within_forM fun x hx => ?_
  simp only [runInTurn, Attempt.within_bind, Attempt.within_lift, Proc.within_session]
  intro e' _
  split
  · trivial
  · simp only [Attempt.within_bind, Attempt.within_pure]
    exact Steps.runStep_not_refuses (o := ⟨tenant, h, none, true⟩) f.dispatcher ht (hnodes x hx)

/-! ## Requests -/

/-- The operation fails with faults in `G`, and if it is refused nothing has been done. -/
def Attempt.RefusesAtOnce (K : Conduct) (G : EngineFault → Prop) (a : Attempt α) (s : Situation) :
    Prop :=
  a.Assures K (fun _ => True) (fun _ _ => True)
    (fun fault s' => G fault ∧ (fault.Refuses → s' = s)) s

theorem Proc.assures_anything (p : Proc α) (s : Situation) :
    p.Assures K (fun _ => True) (fun _ _ => True) s :=
  p.assures_always (fun _ _ _ => trivial) (fun _ _ _ _ _ _ => trivial) trivial

namespace Attempt

variable {s : Situation} {G : EngineFault → Prop} {fault : EngineFault}

theorem refusesAtOnce_throw (hg : G fault) :
    (throw fault : Attempt α).RefusesAtOnce K G s :=
  ⟨hg, fun _ => rfl⟩

theorem refusesAtOnce_lift (p : Proc α) :
    Attempt.RefusesAtOnce K G (monadLift p : Attempt α) s :=
  assures_lift.mpr (p.assures_anything s)

theorem refusesAtOnce_ofExcept {r : Except EngineFault α} {f : α → Attempt β}
    (hok : ∀ v, r = .ok v → (f v).RefusesAtOnce K G s) (hg : ∀ fault, r = .error fault → G fault) :
    (ofExcept r >>= f).RefusesAtOnce K G s := by
  rw [RefusesAtOnce, assures_bind, assures_ofExcept]
  exact ⟨hok, fun fault hf => ⟨hg fault hf, fun _ => rfl⟩⟩

theorem RefusesAtOnce.request {a : Attempt α} (h : a.RefusesAtOnce K G s)
    {failure : Except EngineFault α → Option EngineFault}
    (herror : ∀ fault, failure (.error fault) = some fault) (hok : ∀ v, failure (.ok v) = none)
    {G' : EngineFault → Prop} (hg : ∀ fault, G fault → G' fault) :
    a.run.Assures K (fun _ => True) (fun r s' => ∀ fault, failure r = some fault →
      G' fault ∧ (fault.Refuses → s' = s)) s := by
  refine Proc.Assures.imp h ?_
  rintro (found | v) s' h fault hfault
  · rw [herror] at hfault
    cases hfault
    exact ⟨hg found h.1, h.2⟩
  · rw [hok] at hfault
    cases hfault

end Attempt

namespace Sessions

variable {s : Situation} {G : EngineFault → Prop} {tenant id : String}

theorem refusesAtOnce_find {f : Handle → Attempt α}
    (hfound : ∀ h, s.engine.find? id = some h → (f h).RefusesAtOnce K G s)
    (hg : G (.unknownSession id)) : (find tenant id >>= f).RefusesAtOnce K G s := by
  rw [Attempt.RefusesAtOnce, Attempt.assures_bind, assures_find]
  exact ⟨fun h hf _ => hfound h hf, fun _ => ⟨hg, fun _ => rfl⟩⟩

theorem find_refusesAtOnce : (find tenant id).RefusesAtOnce K EngineFault.Clear s := by
  rw [Attempt.RefusesAtOnce, assures_find]
  exact ⟨fun _ _ _ => trivial, fun _ => ⟨rfl, fun _ => rfl⟩⟩

theorem changeInputs_refusesAtOnce
    {change : Session → Except EngineFault (List Input × Session)}
    (hchange : ∀ s fault, change s = .error fault → fault.Clear) :
    (changeInputs tenant id change).RefusesAtOnce K EngineFault.Clear s := by
  refine refusesAtOnce_find (fun h _ => ?_) rfl
  refine Attempt.refusesAtOnce_ofExcept (r := change (s.engine.session h)) ?_ (hchange _)
  rintro ⟨displaced, changed⟩ -
  simp only [Attempt.RefusesAtOnce, Attempt.assures_bind, Attempt.assures_lift,
    Proc.assures_change]
  refine ⟨trivial, ?_⟩
  split
  · simp only [Attempt.assures_bind, Attempt.assures_lift]
    exact Proc.assures_anything _ _
  · trivial

theorem flowInput_then_clear {s : Session} {input : String} {next : FlowInput → Except EngineFault β}
    {fault : EngineFault} (h : (s.flowInput input >>= next) = .error fault)
    (hnext : ∀ declared, next declared = .error fault → fault.Clear) : fault.Clear := by
  cases hd : s.flowInput input with
  | error found =>
    simp only [hd, bind, Except.bind, Except.error.injEq] at h
    rw [Session.flowInput] at hd
    split at hd <;> cases hd
    exact h ▸ rfl
  | ok declared =>
    simp only [hd, bind, Except.bind] at h
    exact hnext declared h

theorem addInput_clear {s : Session} {input : String} {value : Input} {fault : EngineFault}
    (h : s.addInput input value = .error fault) : fault.Clear := by
  refine flowInput_then_clear h fun declared hd => ?_
  dsimp only at hd
  split at hd <;> cases hd

theorem addText_clear {s : Session} {input text : String} {fault : EngineFault}
    (h : s.addText input text = .error fault) : fault.Clear :=
  flowInput_then_clear h fun _ hd => addInput_clear hd

theorem replaceInput_clear {s : Session} {input : String} {value : Input} {fault : EngineFault}
    (h : s.replaceInput input value = .error fault) : fault.Clear :=
  flowInput_then_clear h fun _ hd => by cases hd

theorem clearInput_clear {s : Session} {input : String} {fault : EngineFault}
    (h : s.clearInput input = .error fault) : fault.Clear :=
  flowInput_then_clear h fun _ hd => by cases hd

theorem extracted_clear {f : Facilities} {declared : FlowInput} {value : Input}
    {fault : EngineFault} (h : extracted f declared value = .error fault) : fault.Clear := by
  rw [extracted] at h
  split at h
  · split at h <;> cases h
    rfl
  · cases h

theorem extracted_then_clear {f : Facilities} {s : Session} {input : String} {value : Input}
    {take : Input → Except EngineFault (List Input × Session)} {fault : EngineFault}
    (h : (do take (← extracted f (← s.flowInput input) value)) = .error fault)
    (htake : ∀ value, take value = .error fault → fault.Clear) : fault.Clear := by
  refine flowInput_then_clear h fun declared hd => ?_
  cases hx : extracted f declared value with
  | error found =>
    simp only [hx, bind, Except.bind, Except.error.injEq] at hd
    exact hd ▸ extracted_clear hx
  | ok value =>
    simp only [hx, bind, Except.bind] at hd
    exact htake value hd

theorem newSession_clear {id : String} {flow : Flow} (hflow : (flow.steps.map Step.id).Nodup)
    {now : Int} {fault : EngineFault} (h : Session.new id tenant flow now = .error fault) :
    fault.Clear := by
  cases hbuild : StepGraph.build id flow now with
  | ok graph => simp [Session.new, hbuild, bind, Except.bind] at h
  | error found =>
    simp only [Session.new, hbuild, bind, Except.bind, Except.error.injEq] at h
    subst h
    obtain ⟨a, rfl, -⟩ | ⟨a, rfl, -⟩ := StepGraph.build_fault hflow hbuild <;> rfl

theorem createWith_refusesAtOnce {flow : Flow} (hflow : (flow.steps.map Step.id).Nodup)
    (now : Int) (attempts : Nat) :
    (createWith tenant flow now attempts).RefusesAtOnce K EngineFault.Clear s := by
  induction attempts with
  | zero => exact Attempt.refusesAtOnce_throw rfl
  | succ attempts ih =>
    rw [createWith, Attempt.RefusesAtOnce, Attempt.assures_bind, Attempt.assures_lift,
      Proc.assures_word]
    intro word
    split
    · exact Attempt.refusesAtOnce_throw rfl
    · refine Attempt.refusesAtOnce_ofExcept (fun created _ => ?_) fun fault hf =>
        newSession_clear hflow hf
      rw [Attempt.RefusesAtOnce, Attempt.assures_bind, Attempt.assures_lift, Proc.assures_engine]
      split
      · exact ih
      · simp only [Attempt.assures_bind, Attempt.assures_lift, Proc.assures_change,
          Proc.assures_log, Attempt.assures_pure]
        exact ⟨trivial, trivial, trivial⟩

theorem create_refusesAtOnce (hs : s.engine.Sound) (flow : String) (version : Option UInt32) :
    (create tenant flow version).RefusesAtOnce K EngineFault.Clear s := by
  rw [create, Attempt.RefusesAtOnce, Attempt.assures_bind, Attempt.assures_lift,
    Proc.assures_engine]
  split
  · exact Attempt.refusesAtOnce_throw rfl
  · next loaded hloaded =>
    rw [Attempt.assures_bind, Attempt.assures_lift, Proc.assures_now]
    have hvalid := hs.valid loaded (load_accepted hloaded)
    exact fun now => createWith_refusesAtOnce (Flow.validate_nodup hvalid) now _

theorem report_refusesAtOnce (step : String) :
    (report tenant id step).RefusesAtOnce K EngineFault.Clear s := by
  refine refusesAtOnce_find (fun h _ => ?_) rfl
  refine Attempt.refusesAtOnce_ofExcept (r := (s.engine.session h).execution step) ?_ ?_
  · exact fun x _ => trivial
  · exact fun fault hf => (Steps.execution_ofWork hf).clear

theorem render_refusesAtOnce (f : Facilities) (template : Option String) :
    (render f tenant id template).RefusesAtOnce K EngineFault.Clear s := by
  refine refusesAtOnce_find (fun h _ => ?_) rfl
  rw [Attempt.RefusesAtOnce, Attempt.assures_bind, Attempt.assures_lift, Proc.assures_session]
  split
  · exact Attempt.refusesAtOnce_throw rfl
  · split
    · exact Attempt.refusesAtOnce_throw rfl
    · split
      · trivial
      · exact Attempt.refusesAtOnce_throw rfl

theorem delete_refusesAtOnce : (delete tenant id).RefusesAtOnce K EngineFault.Clear s :=
  refusesAtOnce_find (fun h _ => Attempt.refusesAtOnce_lift (remove h)) rfl

theorem runStep_refusesAtOnce (hK : K.Evolving) (hs : s.engine.Sound) (f : Facilities)
    (step : String) (userInput : Option String) (withRequired : Bool) :
    (runStep f tenant id step userInput withRequired).RefusesAtOnce K (fun _ => True) s := by
  refine refusesAtOnce_find (fun h hf => ?_) trivial
  have hh := find?_hosts hs hf
  have ht := hs.laid h _ hh
  refine Attempt.refusesAtOnce_ofExcept (r := (s.engine.session h).execution step) ?_ ?_
  · intro x hx
    obtain ⟨hy, rfl⟩ := hh.of_execution ht hx
    by_cases hstate : (s.engine.session h).state = .created
    · rw [if_pos hstate]
      exact Attempt.refusesAtOnce_throw trivial
    · rw [if_neg hstate]
      by_cases hrunning : x.record.isRunning = true
      · rw [if_pos hrunning]
        exact Attempt.refusesAtOnce_throw trivial
      · rw [if_neg hrunning]
        have hwithin := Steps.runStep_not_refuses (o := ⟨tenant, h, userInput, withRequired⟩)
          f.dispatcher ht hy
        refine (hwithin.hosted hK hh).mono (fun _ _ => trivial) (fun _ _ _ => trivial) ?_
        exact fun fault s' hfault => ⟨trivial, fun hrefuses => absurd hrefuses hfault.1⟩
  · exact fun _ _ => trivial

theorem run_refusesAtOnce (hK : K.Evolving) (hs : s.engine.Sound) (f : Facilities) :
    (run f tenant id).RefusesAtOnce K (fun _ => True) s := by
  refine refusesAtOnce_find (fun h hf => ?_) trivial
  have hh := find?_hosts hs hf
  have ht := hs.laid h _ hh
  refine Attempt.refusesAtOnce_ofExcept (r := (s.engine.session h).startRun) ?_ ?_
  · rintro ⟨generation, started⟩ -
    simp only [Attempt.RefusesAtOnce, Attempt.assures_bind, Attempt.assures_lift,
      Proc.assures_change, Proc.assures_log, Attempt.assures_outcome]
    refine ⟨trivial, trivial, ?_⟩
    have hh' := (hh.evolve (Change.evolves_apply (.startRun h) _)).evolve
      (Change.evolves_apply (.log ⟨"info", "session.started", s!"session_id={id} run={generation}"⟩) _)
    have hwithin := runAllSteps_not_refuses ht f tenant h generation
    refine (hwithin.hosted hK hh').mono (fun _ _ => trivial) ?_ ?_
    · exact fun _ _ _ => ⟨trivial, trivial, trivial⟩
    · rintro fault s' ⟨hfault, -⟩
      exact ⟨trivial, trivial, trivial, fun hrefuses => absurd hrefuses hfault⟩
  · exact fun _ _ => trivial

end Sessions

namespace Request

def failure? : (q : Request) → q.Reply → Option EngineFault
  | .create _ _ _, .error fault | .find _ _, .error fault | .addText _ _ _ _, .error fault
  | .add _ _ _ _, .error fault | .replace _ _ _ _, .error fault | .clear _ _ _, .error fault
  | .runStep _ _ _ _ _, .error fault | .run _ _, .error fault | .report _ _ _, .error fault
  | .render _ _ _, .error fault | .delete _ _, .error fault => some fault
  | _, _ => none

/-- A request that is refused has done nothing. A request that runs nothing does not fail because
something is running. -/
theorem refuses_at_once (hK : K.Evolving) (f : Facilities) (q : Request) {s : Situation}
    (hs : s.engine.Sound) :
    (q.proc f).Assures K (fun _ => True) (fun r s' => ∀ fault, q.failure? r = some fault →
      (¬ q.Runs → fault.Clear) ∧ (fault.Refuses → s' = s)) s := by
  have clear : ∀ fault : EngineFault, fault.Clear → ¬ q.Runs → fault.Clear := fun _ h _ => h
  cases q with
  | create tenant flow version =>
    exact (Sessions.create_refusesAtOnce hs flow version).request (fun _ => rfl) (fun _ => rfl) clear
  | find tenant id =>
    exact Sessions.find_refusesAtOnce.request (fun _ => rfl) (fun _ => rfl) clear
  | addText tenant id input text =>
    exact (Sessions.changeInputs_refusesAtOnce fun _ _ => Sessions.addText_clear).request
      (fun _ => rfl) (fun _ => rfl) clear
  | add tenant id input value =>
    exact (Sessions.changeInputs_refusesAtOnce fun _ _ h =>
      Sessions.extracted_then_clear h fun _ => Sessions.addInput_clear).request
      (fun _ => rfl) (fun _ => rfl) clear
  | replace tenant id input value =>
    exact (Sessions.changeInputs_refusesAtOnce fun _ _ h =>
      Sessions.extracted_then_clear h fun _ => Sessions.replaceInput_clear).request
      (fun _ => rfl) (fun _ => rfl) clear
  | clear tenant id input =>
    exact (Sessions.changeInputs_refusesAtOnce fun _ _ => Sessions.clearInput_clear).request
      (fun _ => rfl) (fun _ => rfl) clear
  | runStep tenant id step userInput withRequired =>
    exact (Sessions.runStep_refusesAtOnce hK hs f step userInput withRequired).request
      (fun _ => rfl) (fun _ => rfl) fun _ _ hq => absurd trivial hq
  | run tenant id =>
    exact (Sessions.run_refusesAtOnce hK hs f).request (fun _ => rfl) (fun _ => rfl)
      fun _ _ hq => absurd trivial hq
  | report tenant id step =>
    exact (Sessions.report_refusesAtOnce step).request (fun _ => rfl) (fun _ => rfl) clear
  | render tenant id template =>
    exact (Sessions.render_refusesAtOnce f template).request (fun _ => rfl) (fun _ => rfl) clear
  | delete tenant id =>
    exact Sessions.delete_refusesAtOnce.request (fun _ => rfl) (fun _ => rfl) clear
  | remove | removeIf | sweep =>
    exact (Proc.assures_anything _ s).imp fun _ _ _ _ h => by cases h

end Request

/-! ## One after another -/

theorem Machine.Reachable.alone {f : Facilities} {q : Request} {x y : Point q.Reply}
    (hx : Execution (.solitary answers) x y)
    (hm : Machine.Reachable f ⟨x.2.toStory, [⟨q, x.1, x.2.own⟩]⟩) :
    Machine.Reachable f ⟨y.2.toStory, [⟨q, y.1, y.2.own⟩]⟩ := by
  induction hx with
  | refl => exact hm
  | tail _ hmove ih =>
    cases hmove with
    | observe => exact .step ih (.act .observe)
    | update => exact .step ih (.act .update)
    | clock t => exact .step ih (.act (.clock t))
    | instant t => exact .step ih (.act (.instant t))
    | sample w => exact .step ih (.act (.sample w))
    | listing hl => exact .step ih (.act (.listing hl))
    | await => exact .step ih (.act .await)
    | @call c next s r s' hmeets =>
      obtain ⟨u, ⟨b, rfl⟩, -, rfl⟩ := hmeets
      have hwaiting : Waiting [⟨q, .call c next, s.own⟩] := by
        rintro fr ⟨⟩
        exact ⟨c, next, rfl⟩
      exact .step (.step ih (.flag b hwaiting)) (.act (.call ⟨_, rfl, trivial, rfl⟩))

theorem Reachable.machine {f : Facilities} {allowed : Request → Prop} {s : Story}
    (hs : Reachable (.solitary answers) f allowed s) : Machine.Reachable f ⟨s, []⟩ := by
  induction hs with
  | opening flows logging => exact .opening flows logging
  | @request s t q r s' _ hflag _ hx ih =>
    obtain ⟨b, rfl⟩ := hflag
    have hflagged : Machine.Reachable f ⟨s.flagged b, []⟩ := .step ih (.flag b nofun)
    have hentered := Machine.Reachable.step hflagged (.enter q nofun)
    exact .step (hentered.alone hx) .leave

theorem Reachable.idle {f : Facilities} {allowed : Request → Prop} {s : Story}
    (hs : Reachable (.solitary answers) f allowed s) (k : String) : s.engine.Idle k := by
  intro h i hbusy
  cases i with
  | none =>
    have hruns := hs.machine.runs h
    simp [Machine.inProgress, hbusy.2] at hruns
  | some i =>
    have hsteps := hs.machine.dispatches h i
    simp [Machine.inProgress, hbusy.2] at hsteps

/-- An operation that keeps to an accord ends as the accord says, if the others keep to it too. -/
theorem Proc.Holds.execution {A : Accord} {Q : α → Engine → Prop} (hq : A.Leaves Q)
    (hK : ∀ {s t}, K.meanwhile s t → A.others s.engine t.engine) {x y : Point α}
    (hx : Execution K x y) (h : x.1.Holds A Q x.2.engine) : y.1.Holds A Q y.2.engine := by
  induction hx with
  | refl => exact h
  | tail _ hmove ih =>
    cases hmove with
    | observe => exact ih _ (A.refl _)
    | update => exact (ih _ (A.refl _)).2
    | clock t => exact ih t
    | instant t => exact ih t
    | sample w => exact ih w
    | listing hl => exact ih _ (A.refl _) _ hl
    | call hmeets =>
      obtain ⟨u, hu, -, rfl⟩ := hmeets
      have hothers := hK hu
      exact (ih _).later hq hothers
    | await => exact Proc.holds_poll hq ih

theorem Engine.spares_flagged {s : Story} (b : Bool) (k : String) :
    s.engine.Spares k (s.flagged b).engine :=
  ⟨.refl _, fun hs => (Conduct.solitary_keeps Conduct.anyAnswer ⟨b, rfl⟩ hs).1, fun _ _ => id⟩

theorem Request.clear_of_idle (f : Facilities) (q : Request) {s : Story} (hs : s.engine.Sound)
    (hidle : ∀ k, s.engine.Idle k) {r : q.Reply} {s' : Situation}
    (hx : Execution (.solitary answers) (q.proc f, s.enter) (.done r, s')) {fault : EngineFault}
    (hf : q.failure? r = some fault) : fault.Clear := by
  have held : ∀ {α : Type} {k : String} {a : Attempt α} {v : Except EngineFault α},
      Execution (.solitary answers) (a.run, s.enter) (.done v, s') →
      a.Holds (.ofKey k) (fun _ e' => s.engine.Spares k e')
        (fun fault e' => fault.Clear ∧ s.engine.Spares k e') s.engine →
      ∀ fault, v = .error fault → fault.Clear := by
    intro α k a v hx ha
    have hclear : a.run.Holds (.ofKey k) (fun v _ => ∀ fault, v = .error fault → fault.Clear)
        s.engine := by
      refine Proc.Holds.imp ha ?_
      rintro (fault | v) e' h _ ⟨⟩
      exact h.1
    refine hclear.execution (fun _ _ _ h _ => h) ?_ hx
    rintro s t ⟨b, rfl⟩
    exact Engine.spares_flagged b k
  by_cases hq : q.Runs
  · cases q with
    | run tenant id =>
      cases r with
      | error found =>
        cases hf
        exact held hx (Sessions.run_spares hs (hidle id) f tenant) _ rfl
      | ok v => cases hf
    | runStep tenant id step userInput withRequired =>
      cases r with
      | error found =>
        cases hf
        exact held hx (Sessions.runStep_spares hs (hidle id) f tenant step userInput withRequired)
          _ rfl
      | ok v => cases hf
    | _ => exact absurd hq id
  · have hall := q.refuses_at_once (Conduct.solitary_evolving answers) f (s := s.enter) hs
    exact ((execution_ends hx trivial hall).2 fault hf).1 hq

/-- A request that is made after others have come to their end, and is refused, leaves everything
as it was, and has called nobody. No request fails then because a step is running, not even the
step that is at the root of what it reports. -/
theorem refused_untouched {f : Facilities} {allowed : Request → Prop} {s t : Story}
    (hs : Reachable (.solitary answers) f allowed s)
    (hm : (Conduct.solitary answers).meanwhile s t) {q : Request} {r : q.Reply} {s' : Situation}
    (hx : Execution (.solitary answers) (q.proc f, t.enter) (.done r, s')) {fault : EngineFault}
    (hf : q.failure? r = some fault) :
    (fault.Refuses → s'.engine = t.engine ∧ s'.past = t.past ∧ s'.own = []) ∧
      ∀ execution, fault.root ≠ .stepRunning execution := by
  have hsound : s.engine.Sound := hs.sound (Conduct.solitary_keeps answers)
  have ht : t.engine.Sound := (Conduct.solitary_keeps answers hm hsound).1
  have hidle : ∀ k, t.engine.Idle k := by
    obtain ⟨b, rfl⟩ := hm
    exact hs.idle
  constructor
  · intro hrefuses
    have hall := q.refuses_at_once (Conduct.solitary_evolving answers) f (s := t.enter) ht
    obtain rfl := ((execution_ends hx trivial hall).2 fault hf).2 hrefuses
    exact ⟨rfl, rfl, rfl⟩
  · intro execution hroot
    have hclear := q.clear_of_idle f ht hidle hx hf
    rw [EngineFault.Clear, hroot] at hclear
    cases hclear

/-- A step of the sample session is asked for before the session has been run. -/
theorem refused_untouched_letter : ∃ past s',
    Execution (.solitary Conduct.anyAnswer)
      ((Request.runStep "acme" "session-0-00000000" "draft" none true).proc Sample.facilities,
        Story.enter ⟨Sample.created, past⟩)
      (.done (.error (.sessionNotStarted "session-0-00000000")), s') ∧
    (EngineFault.sessionNotStarted "session-0-00000000").Refuses ∧
    s'.engine = Sample.created ∧ s'.past = past ∧ s'.own = [] := by
  obtain ⟨past, hs⟩ := Sample.reachable_created (fun _ => True) trivial
  obtain ⟨s', hx, -⟩ := still_execution Sample.echo Sample.created past
    (p := (Sessions.runStep Sample.facilities "acme" "session-0-00000000" "draft" none true).run)
    (v := .error (.sessionNotStarted "session-0-00000000")) (by decide +kernel)
  obtain ⟨huntouched, -⟩ := refused_untouched hs ⟨false, rfl⟩
    (q := .runStep "acme" "session-0-00000000" "draft" none true) hx rfl
  exact ⟨past, s', hx, trivial, huntouched trivial⟩

end FlowEngine
