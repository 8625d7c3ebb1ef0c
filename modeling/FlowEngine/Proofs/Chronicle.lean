import FlowEngine.Proofs.Supplies

/-! # The chronicle of a step

A change that has a step enter a state is stamped with a reading of the clock that is taken right
before it, and so is a new session. With that the record of a step tells, at every point and however
operations are nested, what has become of the step.
-/
namespace FlowEngine

variable {α β : Type}

/-- The reading of the clock that a change carries. -/
def Change.stamp? : Change → Option Int
  | .begin _ _ now | .complete _ _ _ now | .fail _ _ _ now => some now
  | .enlist s => some s.createdAt
  | _ => none

namespace Proc

/-- Every change is stamped with the latest reading of the clock since the last call; the one before
the operation is given. -/
def Stamps : Proc α → Option Int → Prop
  | .done _, _ => True
  | .observe next, reading => ∀ e, (next e).Stamps reading
  | .update c next, reading => (∀ t, c.stamp? = some t → reading = some t) ∧ next.Stamps reading
  | .clock next, _ => ∀ t, (next t).Stamps (some t)
  | .instant next, reading => ∀ t, (next t).Stamps reading
  | .sample next, reading => ∀ w, (next w).Stamps reading
  | .listing next, reading => ∀ l, (next l).Stamps reading
  | .call _ next, _ => ∀ r, (next r).Stamps none
  | .await w next, _ => ∀ v, w.Ends v → (next v).Stamps none

/-- The operation stamps its changes, whatever was read before it. -/
def Stamped (p : Proc α) : Prop := ∀ reading, p.Stamps reading

theorem Stamps.bind {p : Proc α} {f : α → Proc β} {reading : Option Int} (h : p.Stamps reading)
    (hf : ∀ v, (f v).Stamped) : (p >>= f).Stamps reading := by
  induction p generalizing reading with
  | done v => exact hf v reading
  | observe next ih => exact fun e => ih e (h e)
  | update c next ih => exact ⟨h.1, ih h.2⟩
  | clock next ih => exact fun t => ih t (h t)
  | instant next ih => exact fun t => ih t (h t)
  | sample next ih => exact fun w => ih w (h w)
  | listing next ih => exact fun l => ih l (h l)
  | call c next ih => exact fun r => ih r (h r)
  | await w next ih => exact fun v hv => ih v (h v hv)

theorem Stamped.bind {p : Proc α} {f : α → Proc β} (h : p.Stamped) (hf : ∀ v, (f v).Stamped) :
    (p >>= f).Stamped :=
  fun reading => (h reading).bind hf

def unstamped : Scope := ⟨fun _ => True, fun c => c.stamp? = none, fun _ => True⟩

theorem Within.stamped {V : α → Prop} {p : Proc α} (h : p.Within unstamped V) : p.Stamped := by
  intro reading
  induction p generalizing reading with
  | done v => trivial
  | observe next ih => exact fun e => ih e (h e trivial) reading
  | update c next ih =>
    refine ⟨fun t ht => ?_, ih h.2 reading⟩
    cases h.1.symm.trans ht
  | clock next ih => exact fun t => ih t (h t) (some t)
  | instant next ih => exact fun t => ih t (h t) reading
  | sample next ih => exact fun w => ih w (h w) reading
  | listing next ih => exact fun l => ih l (h l) reading
  | call c next ih => exact fun r => ih r (h.2 r) none
  | await w next ih => exact fun v hv => ih v (h.2 v hv) none

theorem unstamped_housekeeping : unstamped.Housekeeping :=
  ⟨fun _ => rfl, fun _ _ => rfl, fun _ => rfl, fun _ => rfl, fun _ _ => trivial⟩

theorem unstamped_notes (tenant : String) (h : Handle) (i : Nat) :
    unstamped.Notes tenant h i :=
  ⟨⟨fun _ => rfl, fun _ => rfl, fun _ _ => trivial⟩, fun _ => rfl, fun _ => rfl⟩

end Proc

namespace Attempt

def Stamped (a : Attempt α) : Prop := a.run.Stamped

theorem stamped_pure (v : α) : (pure v : Attempt α).Stamped := fun _ => trivial

theorem stamped_throw (fault : EngineFault) : (throw fault : Attempt α).Stamped := fun _ => trivial

theorem Stamped.bind {a : Attempt α} {f : α → Attempt β} (h : a.Stamped)
    (hf : ∀ v, (f v).Stamped) : (a >>= f).Stamped := by
  refine Proc.Stamped.bind h ?_
  rintro (fault | v)
  · exact fun _ => trivial
  · exact hf v

theorem stamped_lift {p : Proc α} (h : p.Stamped) : Stamped (monadLift p : Attempt α) :=
  Proc.Stamped.bind h fun _ _ => trivial

theorem Stamped.outcome {a : Attempt α} (h : a.Stamped) : a.outcome.Stamped :=
  Proc.Stamped.bind h fun _ _ => trivial

theorem stamped_session (h : Handle) : Stamped (Proc.session h : Attempt Session) :=
  stamped_lift fun _ _ => trivial

section Stamps

variable {reading : Option Int}

theorem stamps_now {f : Int → Attempt α} (hf : ∀ now, (f now).run.Stamps (some now)) :
    Proc.Stamps (ExceptT.run ((Proc.now : Attempt Int) >>= f)) reading :=
  hf

theorem stamps_session {h : Handle} {f : Session → Attempt α}
    (hf : ∀ s, (f s).run.Stamps reading) :
    Proc.Stamps (ExceptT.run ((Proc.session h : Attempt Session) >>= f)) reading :=
  fun e => hf (e.session h)

theorem stamps_engine {f : Engine → Attempt α} (hf : ∀ e, (f e).run.Stamps reading) :
    Proc.Stamps (ExceptT.run ((Proc.engine : Attempt Engine) >>= f)) reading :=
  hf

theorem stamps_word {f : UInt64 → Attempt α} (hf : ∀ w, (f w).run.Stamps reading) :
    Proc.Stamps (ExceptT.run ((Proc.word : Attempt UInt64) >>= f)) reading :=
  hf

end Stamps

theorem stamped_change {c : Change} (hc : c.stamp? = none) :
    Stamped (Proc.change c : Attempt Unit) := by
  refine stamped_lift fun _ => ⟨fun t ht => ?_, trivial⟩
  cases hc.symm.trans ht

theorem stamped_log (level event message : String) :
    Stamped (Proc.log level event message : Attempt Unit) :=
  stamped_change rfl

theorem stamped_ofExcept (r : Except EngineFault α) : (ofExcept r).Stamped := by
  cases r with
  | ok v => exact stamped_pure v
  | error fault => exact stamped_throw fault

theorem stamped_forM {γ : Type} {f : γ → Attempt PUnit} (hf : ∀ x, (f x).Stamped) (l : List γ) :
    (l.forM f).Stamped := by
  induction l with
  | nil => exact stamped_pure _
  | cons x rest ih => exact (hf x).bind fun _ => ih

theorem Within.stamped {V : α → Prop} {G : EngineFault → Prop} {a : Attempt α}
    (h : a.Within Proc.unstamped V G) : a.Stamped :=
  Proc.Within.stamped h

end Attempt

namespace Steps

variable (d : Dispatcher) (o : StepOrder) (x : StepExecution)

theorem recordFailure_stamped (fault : EngineFault) : (recordFailure o x fault).Stamped :=
  fun _ _ => ⟨fun _ => id, fun _ => ⟨nofun, trivial⟩⟩

theorem recordOutcome_stamped (outcome : TargetOutcome) : (recordOutcome o x outcome).Stamped :=
  fun _ _ _ => ⟨fun _ => id, nofun, fun _ => trivial⟩

theorem enterRunning_stamped : (enterRunning o x).Stamped := by
  refine fun reading => Attempt.stamps_now fun now => Attempt.stamps_session fun s => ?_
  split
  · trivial
  · exact ⟨fun _ => id, nofun, trivial⟩

theorem runAlone_stamped : (runAlone d o x).Stamped := by
  refine (enterRunning_stamped o x).bind fun _ => ?_
  have hdispatch := (dispatch_within (Proc.unstamped_notes o.tenant o.session x.index) d).stamped
  refine hdispatch.outcome.bind ?_
  rintro (fault | outcome)
  · exact (Attempt.stamped_lift (recordFailure_stamped o x fault)).bind fun _ =>
      Attempt.stamped_throw fault
  · exact Attempt.stamped_lift (recordOutcome_stamped o x outcome)

theorem runRequired_stamped {run : String → Attempt StepReport} (hrun : ∀ step, (run step).Stamped)
    (required : StepExecution) : (runRequired run o x required).Stamped := by
  refine (Attempt.stamped_session _).bind fun s => ?_
  split
  · exact Attempt.stamped_pure ()
  · refine (hrun _).outcome.bind ?_
    rintro (fault | report)
    · dsimp only
      split
      · exact Attempt.stamped_throw fault
      · exact (Attempt.stamped_lift (recordFailure_stamped o x _)).bind fun _ =>
          Attempt.stamped_throw _
    · exact Attempt.stamped_pure ()

theorem runGuarded_stamped (depth : Nat) (active : List String) (step : String) :
    (runGuarded d o depth active step).Stamped := by
  induction depth generalizing active step with
  | zero =>
    refine (Attempt.stamped_session _).bind fun s => (Attempt.stamped_ofExcept _).bind fun x => ?_
    have hend := Attempt.stamped_throw (α := StepReport) (.cyclicDependency step)
    have hrunning := (Attempt.stamped_throw (α := PUnit) (.stepRunning x.id)).bind fun _ => hend
    split <;> split
    · exact (Attempt.stamped_throw _).bind fun _ => hrunning
    · exact hrunning
    · exact (Attempt.stamped_throw _).bind fun _ => hend
    · exact hend
  | succ depth ih =>
    rw [runGuarded_succ]
    refine (Attempt.stamped_session _).bind fun s => (Attempt.stamped_ofExcept _).bind fun x => ?_
    split
    · exact Attempt.stamped_throw _
    · split
      · exact Attempt.stamped_throw _
      · refine (Attempt.stamped_forM (fun r => ?_) _).bind fun _ => runAlone_stamped d o x
        exact runRequired_stamped o x (ih (step :: active)) r

theorem runStep_stamped (step : String) : (Steps.runStep d o step).Stamped :=
  (Attempt.stamped_session _).bind fun _ => runGuarded_stamped d o _ [] step

end Steps

namespace Sessions

theorem createWith_stamps (tenant : String) (flow : Flow) (now : Int) (attempts : Nat) :
    (createWith tenant flow now attempts).run.Stamps (some now) := by
  induction attempts with
  | zero => trivial
  | succ attempts ih =>
    refine Attempt.stamps_word fun word => ?_
    split
    · trivial
    · next id _ =>
      cases hnew : Session.new id tenant flow now with
      | error fault => trivial
      | ok s =>
        refine Attempt.stamps_engine fun e => ?_
        split
        · exact ih
        · obtain ⟨g, -, rfl⟩ := Session.new_eq hnew
          exact ⟨fun _ ht => ht, nofun, trivial⟩

theorem create_stamped (tenant flow : String) (version : Option UInt32) :
    (create tenant flow version).Stamped := by
  refine fun reading => Attempt.stamps_engine fun e => ?_
  split
  · trivial
  · exact Attempt.stamps_now fun now => createWith_stamps tenant _ now idAttempts

theorem find_stamped (tenant id : String) : (find tenant id).Stamped := by
  have hfind : Attempt.Within Proc.unstamped (fun _ => True) (fun _ => True) (find tenant id) := by
    simp
  exact hfind.stamped

theorem runStep_stamped (f : Facilities) (tenant id step : String) (userInput : Option String)
    (withRequired : Bool) : (runStep f tenant id step userInput withRequired).Stamped := by
  refine (find_stamped tenant id).bind fun h => (Attempt.stamped_session h).bind fun s =>
    (Attempt.stamped_ofExcept _).bind fun x => ?_
  have hrun := Steps.runStep_stamped f.dispatcher ⟨tenant, h, userInput, withRequired⟩ step
  have hidle : (if x.record.isRunning then throw (.stepRunning x.id) >>= fun (_ : PUnit) =>
      Steps.runStep f.dispatcher ⟨tenant, h, userInput, withRequired⟩ step
      else Steps.runStep f.dispatcher ⟨tenant, h, userInput, withRequired⟩ step :
      Attempt StepReport).Stamped := by
    split
    · exact (Attempt.stamped_throw _).bind fun _ => hrun
    · exact hrun
  by_cases hstate : s.state = .created
  · rw [if_pos hstate]
    exact Attempt.stamped_throw _
  · rw [if_neg hstate]
    exact hidle

theorem runAllSteps_stamped (f : Facilities) (tenant : String) (h : Handle) (generation : Nat) :
    (runAllSteps (stepOfRun f tenant h) tenant h generation).Stamped := by
  have hmissing := Inputs.uploadMissing_within (G := fun _ => True)
    (Proc.unstamped_notes tenant h 0).uploads fun _ => trivial
  refine hmissing.stamped.bind fun _ => (Attempt.stamped_session h).bind fun s => ?_
  refine Attempt.stamped_forM (fun x => (Attempt.stamped_session h).bind fun s => ?_) _
  split
  · exact Attempt.stamped_pure ()
  · exact (Steps.runStep_stamped f.dispatcher _ _).bind fun _ => Attempt.stamped_pure ()

theorem run_stamped (f : Facilities) (tenant id : String) : (run f tenant id).Stamped := by
  refine (find_stamped tenant id).bind fun h => (Attempt.stamped_session h).bind fun s =>
    (Attempt.stamped_ofExcept _).bind fun started => ?_
  refine (Attempt.stamped_change rfl).bind fun _ => (Attempt.stamped_log _ _ _).bind fun _ => ?_
  refine (runAllSteps_stamped f tenant h started.1).outcome.bind ?_
  rintro (fault | _)
  · exact (Attempt.stamped_change rfl).bind fun _ => (Attempt.stamped_log _ _ _).bind fun _ =>
      Attempt.stamped_throw fault
  · exact (Attempt.stamped_change rfl).bind fun _ => (Attempt.stamped_log _ _ _).bind fun _ =>
      Attempt.stamped_pure _

end Sessions

theorem Request.stamped (f : Facilities) (q : Request) : (q.proc f).Stamped := by
  by_cases hruns : q.Runs
  · cases q with
    | run tenant id => exact Sessions.run_stamped f tenant id
    | runStep tenant id step userInput withRequired =>
      exact Sessions.runStep_stamped f tenant id step userInput withRequired
    | _ => exact absurd hruns id
  · by_cases hcreates : q.Creates
    · cases q with
      | create tenant flow version => exact Sessions.create_stamped tenant flow version
      | _ => exact absurd hcreates id
    · exact (within_of_housekeeping Proc.unstamped_housekeeping f hruns hcreates).stamped

/-- At every point, with operations nested in any way, a record has what belongs to its state. It is
dated with the reading of the clock at the latest transition of its step, or at the creation of its
session if there was none. From then on the step has an output if it had one, and its first start
stays. All operations stamp what they do with readings that are taken right before. -/
theorem record_tells_state {f : Facilities} {m : Machine} (hm : Machine.Reachable f m) {h : Handle}
    {i : Nat} {r : StepRecord} (hr : m.story.engine.record? h i = some r) :
    r.Formed (m.story.engine.session h).generation ∧
      r.lastUpdatedAt =
        (lastTransition? (h, i) m.story.past).getD (m.story.engine.session h).createdAt ∧
      (∀ m', Relation.ReflTransGen (Machine.Step f) m m' →
        ∃ r', m'.story.engine.record? h i = some r' ∧ (r.output.isSome → r'.output.isSome) ∧
          ∀ t, r.startedAt = some t → r'.startedAt = some t) ∧
      ∀ q : Request, (q.proc f).Stamped := by
  have hrecorded := hm.recorded
  refine ⟨hrecorded.formed h i r hr, hrecorded.dated h i r hr, ?_, fun q => q.stamped f⟩
  intro m' hsteps
  obtain ⟨r', hr', hp⟩ := (Machine.advances_of_steps hsteps).records h i r hr
  exact ⟨r', hr', hp.output, hp.started⟩

/-- The first step of the letter is run anew while a run of the letter waits; the output of its
first run is there to stay. -/
theorem record_tells_state_nested : ∃ r, Sample.nested.story.engine.record? 0 0 = some r ∧
    r.state = .running ∧ r.Formed 1 ∧
    ∀ m', Relation.ReflTransGen (Machine.Step Sample.facilities) Sample.nested m' →
      ∃ r', m'.story.engine.record? 0 0 = some r' ∧ r'.output.isSome ∧ r'.startedAt = some 0 := by
  have hgeneration : (Sample.nested.story.engine.session 0).generation = 1 := by decide +kernel
  have hrecord : Sample.nested.story.engine.record? 0 0 =
      some ⟨.running, some 0, 0, none, some "yes", none, none, none, 1⟩ := by decide +kernel
  obtain ⟨hformed, -, hlater, -⟩ := record_tells_state Sample.reachable_nested hrecord
  rw [hgeneration] at hformed
  refine ⟨_, hrecord, rfl, hformed, fun m' hsteps => ?_⟩
  obtain ⟨r', hr', houtput, hstarted⟩ := hlater m' hsteps
  exact ⟨r', hr', houtput rfl, hstarted 0 rfl⟩

end FlowEngine
