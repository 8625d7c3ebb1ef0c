import FlowEngine.Proofs.Requests

/-! # What is uploaded

Operations upload values that they have seen in a session without a file. The slot in which a file
will be put down is settled when its upload is asked for; whatever happens until the file comes
makes no difference to that. `Proc.Sends` says so of all uploads of an operation.
-/
namespace FlowEngine

variable {α β : Type}

/-- Values that are known to be, or to have been, in a session without a file. -/
abbrev Known := Handle → Input → Prop

def Known.seen (K : Known) (e : Engine) : Known :=
  fun h v => K h v ∨ v ∈ (e.session h).pendingUploads

def ProviderCall.Uploads : ProviderCall → Prop
  | .upload _ _ _ => True
  | _ => False

namespace Proc

/-- The upload of a value. As soon as the file has come it is put down in the slot of the value. -/
def Submits (h : Handle) (v : Input) (p : Proc α) : Prop :=
  ∃ (tenant : String) (next : Except ProviderFault String → Proc α)
    (after : String → Engine → Proc α), p = .call (.upload tenant v.name v.payload) next ∧
      ∀ file, next (.ok file) = .observe fun e =>
        .update (.values h ((e.session h).recordFile v.slot file).2) (after file e)

/-- All uploads of an operation are those of known values, and of those that it sees. -/
def Sends : Known → Proc α → Prop
  | _, .done _ => True
  | K, .observe next => ∀ e, (next e).Sends (K.seen e)
  | K, .update _ next => next.Sends K
  | K, .clock next => ∀ t, (next t).Sends K
  | K, .instant next => ∀ t, (next t).Sends K
  | K, .sample next => ∀ w, (next w).Sends K
  | K, .listing next => ∀ l, (next l).Sends K
  | K, .call c next =>
    (c.Uploads → ∃ h v, K h v ∧ (Proc.call c next).Submits h v) ∧ ∀ r, (next r).Sends K
  | K, .await w next => ∀ v, w.Ends v → (next v).Sends K

variable {K K' : Known} {B : Scope} {h : Handle} {v : Input}

theorem Submits.bind {p : Proc α} (hp : p.Submits h v) (f : α → Proc β) :
    (p.bind f).Submits h v := by
  obtain ⟨tenant, next, after, rfl, hnext⟩ := hp
  refine ⟨tenant, fun r => (next r).bind f, fun file e => (after file e).bind f, rfl, ?_⟩
  intro file
  show (next (.ok file)).bind f = _
  rw [hnext file]
  rfl

theorem Sends.later {p : Proc α} (hp : p.Sends K) (hK : ∀ h v, K h v → K' h v) : p.Sends K' := by
  induction p generalizing K K' with
  | done v => trivial
  | observe next ih => exact fun e => ih e (hp e) fun h v => Or.imp (hK h v) id
  | update c next ih => exact ih hp hK
  | clock next ih => exact fun t => ih t (hp t) hK
  | instant next ih => exact fun t => ih t (hp t) hK
  | sample next ih => exact fun w => ih w (hp w) hK
  | listing next ih => exact fun l => ih l (hp l) hK
  | call c next ih =>
    refine ⟨fun hc => ?_, fun r => ih r (hp.2 r) hK⟩
    obtain ⟨h, v, hknown, hsubmits⟩ := hp.1 hc
    exact ⟨h, v, hK h v hknown, hsubmits⟩
  | await w next ih => exact fun v hv => ih v (hp v hv) hK

theorem Sends.bind {p : Proc α} {f : α → Proc β} (hp : p.Sends K)
    (hf : ∀ x K', (∀ h v, K h v → K' h v) → (f x).Sends K') : (p.bind f).Sends K := by
  induction p generalizing K with
  | done v => exact hf v K fun _ _ => id
  | observe next ih =>
    exact fun e => ih e (hp e) fun x K' hK' => hf x K' fun h v hv => hK' h v (.inl hv)
  | update c next ih => exact ih hp hf
  | clock next ih => exact fun t => ih t (hp t) hf
  | instant next ih => exact fun t => ih t (hp t) hf
  | sample next ih => exact fun w => ih w (hp w) hf
  | listing next ih => exact fun l => ih l (hp l) hf
  | call c next ih =>
    refine ⟨fun hc => ?_, fun r => ih r (hp.2 r) hf⟩
    obtain ⟨h, v, hknown, hsubmits⟩ := hp.1 hc
    exact ⟨h, v, hknown, hsubmits.bind f⟩
  | await w next ih => exact fun v hv => ih v (hp v hv) hf

theorem Within.sends {V : α → Prop} {p : Proc α} (hp : p.Within B V) (hsees : ∀ e, B.sees e)
    (hcalls : ∀ c, B.calls c → ¬ c.Uploads) (K : Known) : p.Sends K := by
  induction p generalizing K with
  | done v => trivial
  | observe next ih => exact fun e => ih e (hp e (hsees e)) _
  | update c next ih => exact ih hp.2 K
  | clock next ih => exact fun t => ih t (hp t) K
  | instant next ih => exact fun t => ih t (hp t) K
  | sample next ih => exact fun w => ih w (hp w) K
  | listing next ih => exact fun l => ih l (hp l) K
  | call c next ih => exact ⟨fun hc => absurd hc (hcalls c hp.1), fun r => ih r (hp.2 r) K⟩
  | await w next ih => exact fun v hv => ih v (hp.2 v hv) K

theorem sends_poll {w : Wait} {next : Wait.Verdict → Proc α}
    (hnext : ∀ v, w.Ends v → (next v).Sends K) : (w.poll next).Sends K := by
  have unstopped : ∀ {rest : Proc α}, (∀ K', (∀ h v, K h v → K' h v) → rest.Sends K') → ∀ K',
      (∀ h v, K h v → K' h v) → (Wait.unlessStopped next rest).Sends K' := by
    intro rest hrest K' hK' e
    have hseen : ∀ h v, K h v → K'.seen e h v := fun h v hv => .inl (hK' h v hv)
    show Sends _ (if e.stopping then _ else _)
    split
    · exact (hnext _ (.inl rfl)).later hseen
    · exact hrest _ hseen
  have again : ∀ K', (∀ h v, K h v → K' h v) → (Proc.await w next).Sends K' :=
    fun K' hK' v hv => (hnext v hv).later hK'
  have requested : ∀ K', (∀ h v, K h v → K' h v) → (w.request next).Sends K' := by
    refine fun K' hK' => ⟨False.elim, fun r => ?_⟩
    cases hr : w.ofPoll r with
    | some v => simpa only [hr] using (hnext v (.inr (.inl ⟨r, hr⟩))).later hK'
    | none =>
      simp only [hr]
      intro elapsed
      cases he : w.ofElapsed elapsed with
      | some v => simpa only [he] using (hnext v (.inr (.inr ⟨elapsed, he⟩))).later hK'
      | none =>
        simp only [he]
        exact unstopped again K' hK'
  exact unstopped requested K fun _ _ => id

end Proc

def Scope.uploadless : Scope := ⟨fun _ => True, fun _ => True, fun c => ¬ c.Uploads⟩

theorem Scope.uploadless_housekeeping : Scope.uploadless.Housekeeping :=
  ⟨fun _ => trivial, fun _ _ => trivial, fun _ => trivial, fun _ => trivial, fun _ _ => id⟩

theorem Scope.uploadless_asks (tenant : String) (h : Handle) (i : Nat) :
    Scope.uploadless.Asks tenant h i := by
  refine ⟨fun c hc _ => ?_, fun _ => trivial, fun _ => trivial⟩
  cases c <;> first | exact id | exact hc.elim

namespace Attempt

variable {K : Known} {V : α → Prop} {G : EngineFault → Prop}

def Sends (K : Known) (a : Attempt α) : Prop := a.run.Sends K

theorem Sends.bind {a : Attempt α} {f : α → Attempt β} (ha : a.Sends K)
    (hf : ∀ v K', (∀ h v, K h v → K' h v) → (f v).Sends K') : (a >>= f).Sends K := by
  refine Proc.Sends.bind ha fun r K' hK' => ?_
  cases r with
  | ok v => exact hf v K' hK'
  | error fault => trivial

theorem sends_lift {p : Proc α} (hp : p.Sends K) : Sends K (monadLift p) :=
  Proc.Sends.bind hp fun _ _ _ => trivial

theorem Sends.outcome {a : Attempt α} (ha : a.Sends K) : a.outcome.Sends K :=
  Proc.Sends.bind ha fun _ _ _ => trivial

theorem sends_forM {γ : Type} {f : γ → Attempt PUnit} (hf : ∀ x K, (f x).Sends K) (l : List γ) :
    (l.forM f).Sends K := by
  induction l generalizing K with
  | nil => trivial
  | cons x rest ih => exact (hf x K).bind fun _ _ _ => ih

theorem Within.sends {a : Attempt α} (ha : a.Within .uploadless V G) (K : Known) : a.Sends K :=
  Proc.Within.sends ha (fun _ => trivial) (fun _ => id) K

end Attempt

variable {K : Known} {tenant : String} {h : Handle} {value : Input}

namespace Inputs

theorem uploadOne_sends (hv : K h value) : (uploadOne tenant h value).Sends K := by
  refine ⟨fun _ => ⟨h, value, hv, tenant, _, _, rfl, fun file => rfl⟩, fun r => ?_⟩
  cases r with
  | error fault => trivial
  | ok file =>
    intro e
    show Attempt.Sends _ (if ((e.session h).recordFile value.slot file).1 then _ else _)
    split
    · trivial
    · have hdeletes := Scope.uploadless_housekeeping.edits.deletes tenant
      refine (Attempt.sends_lift ?_).bind fun _ _ _ => trivial
      exact (deleteFile_within hdeletes _ _).sends (fun _ => trivial) (fun _ => id) _

theorem uploadAll_sends (values : List Input) (hv : ∀ v ∈ values, K h v) :
    (uploadAll tenant h values).Sends K := by
  induction values generalizing K with
  | nil => trivial
  | cons value rest ih =>
    obtain ⟨hfirst, hrest⟩ := List.forall_mem_cons.mp hv
    refine (uploadOne_sends hfirst).bind fun _ K' hK' => ?_
    exact (ih fun v hv => hK' h v (hrest v hv)).bind fun _ _ _ => trivial

theorem uploadMissing_sends (tenant : String) (h : Handle) (K : Known) :
    (uploadMissing tenant h).Sends K :=
  fun _ => uploadAll_sends _ fun _ hv => .inr hv

theorem prepare_sends (tenant : String) (h : Handle) (step : Step) (K : Known) :
    (prepare tenant h step).Sends K := by
  have hdeletes := Scope.uploadless_housekeeping.edits.deletes tenant
  have resolved : (resolveRedirects h step).Within .uploadless (fun _ => True) fun _ => True := by
    simp only [resolveRedirects, Attempt.within_bind, Attempt.within_lift, Proc.within_session,
      Attempt.within_ofExcept, Proc.within_change]
    exact fun e _ => ⟨fun _ _ => ⟨trivial, trivial⟩, fun _ _ => trivial⟩
  have discarded : (discardStale tenant h step).Within .uploadless fun _ => True := by
    simp only [discardStale, Proc.within_bind', Proc.within_session, Proc.within_change]
    exact fun e _ => ⟨trivial, deleteAll_within hdeletes _ _⟩
  refine (resolved.sends K).bind fun _ K₁ _ => ?_
  refine (Attempt.sends_lift (discarded.sends (fun _ => trivial) (fun _ => id) K₁)).bind
    fun _ K₂ _ => ?_
  exact (uploadMissing_sends tenant h K₂).bind fun _ _ _ => fun _ => trivial

end Inputs

namespace Steps

variable (d : Dispatcher) (o : StepOrder)

theorem dispatch_sends (x : StepExecution) (K : Known) : (dispatch d o x).Sends K := by
  refine (Inputs.prepare_sends o.tenant o.session x.step K).bind fun inUse K' _ => ?_
  split
  · have hasks := Scope.uploadless_asks o.tenant o.session x.index
    exact (execute_within hasks d inUse).sends K'
  · trivial

theorem recordFailure_sends (x : StepExecution) (fault : EngineFault) (K : Known) :
    Attempt.Sends K (monadLift (recordFailure o x fault)) := by
  have recorded : (recordFailure o x fault).Within .uploadless fun _ => True := by
    simp only [recordFailure, Proc.within_bind', Proc.within_now, Proc.within_change,
      Proc.within_session, Proc.within_log]
    exact fun now => ⟨trivial, fun e _ => ⟨trivial, trivial⟩⟩
  exact Attempt.sends_lift (recorded.sends (fun _ => trivial) (fun _ => id) K)

theorem runAlone_sends (x : StepExecution) (K : Known) : (runAlone d o x).Sends K := by
  have entered : (enterRunning o x).Within .uploadless (fun _ => True) fun _ => True := by
    simp only [enterRunning, Attempt.within_bind, Attempt.within_lift, Proc.within_now,
      Proc.within_session]
    intro now e _
    split
    · trivial
    · exact ⟨trivial, trivial, trivial⟩
  have recorded : ∀ outcome, (recordOutcome o x outcome).Within .uploadless fun _ => True := by
    intro outcome
    simp only [recordOutcome, Proc.within_bind', Proc.within_now, Proc.within_session,
      Proc.within_change, Proc.within_log, Proc.within_pure]
    exact fun now e _ => ⟨trivial, trivial, fun _ _ => trivial⟩
  refine (entered.sends K).bind fun _ K₁ _ => ?_
  refine (dispatch_sends d o x K₁).outcome.bind fun r K₂ _ => ?_
  cases r with
  | ok outcome =>
    exact Attempt.sends_lift ((recorded outcome).sends (fun _ => trivial) (fun _ => id) K₂)
  | error fault => exact (recordFailure_sends o x fault K₂).bind fun _ _ _ => trivial

theorem runRequired_sends {run : String → Attempt StepReport}
    (hrun : ∀ step K, (run step).Sends K) (x required : StepExecution) (K : Known) :
    (runRequired run o x required).Sends K := by
  intro e
  show Attempt.Sends _ (if _ then _ else _)
  split
  · trivial
  · refine (hrun _ _).outcome.bind fun r K' _ => ?_
    cases r with
    | ok report => trivial
    | error fault =>
      dsimp only
      split
      · trivial
      · exact (recordFailure_sends o x _ K').bind fun _ _ _ => trivial

theorem runGuarded_sends (depth : Nat) (active : List String) (step : String) (K : Known) :
    (runGuarded d o depth active step).Sends K := by
  induction depth generalizing active step K with
  | zero =>
    have refused : (runGuarded d o 0 active step).Within .uploadless (fun _ => True)
        fun _ => True := by
      simp only [runGuarded, Attempt.within_bind, Attempt.within_lift, Proc.within_session,
        Attempt.within_ofExcept]
      refine fun e _ => ⟨fun x _ => ?_, fun _ _ => trivial⟩
      split
      · trivial
      · split <;> trivial
    exact refused.sends K
  | succ depth ih =>
    rw [runGuarded_succ]
    intro e
    refine Attempt.Sends.bind (a := Attempt.ofExcept _) ?_ fun x K' _ => ?_
    · cases (e.session o.session).execution step <;> trivial
    · split
      · trivial
      · split
        · trivial
        · have required := fun y K => runRequired_sends o (ih (step :: active)) x y K
          exact (Attempt.sends_forM required _).bind fun _ K'' _ => runAlone_sends d o x K''

theorem runStep_sends (step : String) (K : Known) : (Steps.runStep d o step).Sends K :=
  fun _ => runGuarded_sends d o _ _ step _

end Steps

namespace Sessions

theorem find_sends (tenant id : String) (K : Known) : (find tenant id).Sends K := by
  have found : (find tenant id).Within .uploadless (fun _ => True) fun _ => True := by simp
  exact found.sends K

theorem create_sends (tenant flow : String) (version : Option UInt32) (K : Known) :
    (create tenant flow version).Sends K := by
  have made : ∀ f now attempts, (createWith tenant f now attempts).Within .uploadless
      (fun _ => True) fun _ => True := by
    intro f now attempts
    induction attempts with
    | zero => trivial
    | succ attempts ih =>
      simp only [createWith, Attempt.within_bind, Attempt.within_lift, Proc.within_word]
      intro word
      split
      · trivial
      · simp only [Attempt.within_bind, Attempt.within_ofExcept, Attempt.within_lift,
          Proc.within_engine]
        refine ⟨fun s _ e _ => ?_, fun _ _ => trivial⟩
        split
        · exact ih
        · exact ⟨trivial, trivial, trivial⟩
  have created : (create tenant flow version).Within .uploadless (fun _ => True)
      fun _ => True := by
    simp only [create, Attempt.within_bind, Attempt.within_lift, Proc.within_engine]
    intro e _
    split
    · trivial
    · simp only [Attempt.within_bind, Attempt.within_lift, Proc.within_now]
      exact fun now => made _ now _
  exact created.sends K

theorem runStep_sends (f : Facilities) (tenant id step : String) (userInput : Option String)
    (withRequired : Bool) (K : Known) :
    (runStep f tenant id step userInput withRequired).Sends K := by
  refine (find_sends tenant id K).bind fun h K₁ _ e => ?_
  refine Attempt.Sends.bind (a := Attempt.ofExcept _) ?_ fun x K₂ _ => ?_
  · cases (e.session h).execution step <;> trivial
  · dsimp only
    split
    · trivial
    · split
      · trivial
      · exact Steps.runStep_sends f.dispatcher ⟨tenant, h, userInput, withRequired⟩ step K₂

theorem runAllSteps_sends (f : Facilities) (tenant : String) (h : Handle) (generation : Nat)
    (K : Known) : (runAllSteps (stepOfRun f tenant h) tenant h generation).Sends K := by
  have inTurn : ∀ x K, (runInTurn (stepOfRun f tenant h) h generation x).Sends K := by
    intro x K e
    show Attempt.Sends _ (if _ then _ else _)
    split
    · trivial
    · exact (Steps.runStep_sends f.dispatcher ⟨tenant, h, none, true⟩ _ _).bind
        fun _ _ _ => trivial
  exact (Inputs.uploadMissing_sends tenant h K).bind fun _ _ _ _ => Attempt.sends_forM inTurn _

theorem run_sends (f : Facilities) (tenant id : String) (K : Known) :
    (run f tenant id).Sends K := by
  refine (find_sends tenant id K).bind fun h K₁ _ e => ?_
  refine Attempt.Sends.bind (a := Attempt.ofExcept _) ?_ fun started K₂ _ => ?_
  · cases (e.session h).startRun <;> trivial
  · refine Attempt.Sends.bind (a := (runAllSteps (stepOfRun f tenant h) tenant h started.1).outcome)
      ?_ fun r _ _ => ?_
    · exact (runAllSteps_sends f tenant h started.1 K₂).outcome
    · cases r <;> trivial

end Sessions

theorem Request.sends (f : Facilities) (q : Request) (K : Known) : (q.proc f).Sends K := by
  by_cases hq : q.Runs
  · cases q with
    | runStep tenant id step userInput withRequired =>
      exact Sessions.runStep_sends f tenant id step userInput withRequired K
    | run tenant id => exact Sessions.run_sends f tenant id K
    | _ => exact absurd hq id
  · by_cases hc : q.Creates
    · cases q with
      | create tenant flow version => exact Sessions.create_sends tenant flow version K
      | _ => exact absurd hc id
    · exact (within_of_housekeeping Scope.uploadless_housekeeping f hq hc).sends
        (fun _ => trivial) (fun _ => id) K

end FlowEngine
