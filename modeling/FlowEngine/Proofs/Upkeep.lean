import FlowEngine.Proofs.FileBalance
import FlowEngine.Proofs.Regime

/-! # What operations keep up among others

An upkeep is a property of stories together with what each change and each call makes of it. All
operations keep it up, whatever others do while they wait, provided that these keep it up too. The
property may speak of files that are loose: an operation has taken them out of the books, or could
not enter them there, and has yet to delete them.
-/
namespace FlowEngine

/-- Files by session. -/
abbrev Loose := Handle → List String

namespace Loose

def none : Loose := fun _ => []

def put (l : Loose) (h : Handle) (files : List String) : Loose :=
  fun k => if k = h then files ++ l k else l k

theorem put_nil (l : Loose) (h : Handle) : l.put h [] = l := by
  funext k
  rw [put]
  split <;> rfl

theorem put_cons (l : Loose) (h : Handle) (file : String) (files : List String) :
    l.put h (file :: files) = (l.put h files).put h [file] := by
  funext k
  by_cases hk : k = h <;> simp [put, hk]

theorem put_perm (l : Loose) (h : Handle) {files files' : List String} (hp : files.Perm files')
    (k : Handle) : (l.put h files k).Perm (l.put h files' k) := by
  rw [put, put]
  split
  · exact hp.append_right _
  · exact .refl _

end Loose

/-- What changes and calls make of a property of stories. `between` holds at every point, also after
an upload that is not in the books yet. If the upkeep is lenient, values may come with files, and it
does not matter what is loose. -/
structure Upkeep where
  regime : Regime
  lenient : Prop
  holds : Loose → Story → Prop
  between : Story → Prop
  allowed : ∀ {q}, regime.allows q → lenient ∨ q.Fileless
  opening : ∀ flows logging, holds .none (.opening flows logging)
  point : ∀ {l s}, holds l s → between s
  resumed : ∀ {s}, between s → (∃ l, holds l s) ∨ ∀ t, between t
  sound : ∀ {l s}, holds l s → s.engine.Sound
  booked : ∀ {l s}, holds l s → ∀ h, (s.engine.session h).Booked
  regardless : ∀ {l l' s}, lenient → holds l s → holds l' s
  perm : ∀ {l l' s}, (∀ h, (l h).Perm (l' h)) → holds l s → holds l' s
  flagged : ∀ {l s} b, holds l s → holds l (s.flagged b)
  plain : ∀ {l s c}, Change.Fileless c → holds l s → holds l (s.change c)
  enlisted : ∀ {l s t}, (Change.enlist t).Welcome s.engine.registry → holds l s →
    holds l (s.change (.enlist t))
  withdrawn : ∀ {l s h}, h ∈ s.engine.stored → holds l s →
    holds (l.put h (s.engine.session h).files) (s.change (.withdraw h))
  revalued : ∀ {l s h gone come t}, h < s.engine.sessions.length →
    (s.engine.session h).Turnover gone come t → (lenient ∨ ∀ v ∈ come, v.file = none) →
    holds l s → holds (l.put h (gone.filterMap Input.file)) (s.change (.values h t))
  answered : ∀ {l s c} {r : c.Outcome}, (Event.call c r).uploaded? = none →
    (Event.call c r).deleted? = none → holds l s → holds l (s.called c r)
  deleted : ∀ {l s h tenant file} {r : ProviderCall.Outcome (.delete tenant file)},
    regime.answers s.past (.delete tenant file) r → holds (l.put h [file]) s →
    holds l (s.called (.delete tenant file) r)
  uploaded : ∀ {l s tenant name payload file},
    regime.answers s.past (.upload tenant name payload) (.ok file) → holds l s →
    between (s.called (.upload tenant name payload) (.ok file))
  filed : ∀ {l s h tenant name payload file} slot, h < s.engine.sessions.length →
    regime.answers s.past (.upload tenant name payload) (.ok file) → holds l s →
    holds (if ((s.engine.session h).recordFile slot file).1 then l else l.put h [file])
      ((s.called (.upload tenant name payload) (.ok file)).change
        (.values h ((s.engine.session h).recordFile slot file).2))

namespace Upkeep

variable (U : Upkeep)

/-- Others lose no session and keep up what is to be kept up. -/
def conduct : Conduct where
  meanwhile s t := s.engine.Evolves t.engine ∧ (U.between s → U.between t) ∧
    ∀ l, U.holds l s → U.holds l t
  answers := U.regime.answers

theorem conduct_evolving : U.conduct.Evolving := fun h => h.1

/-- Amid the work on a session. -/
structure At (l : Loose) (h : Handle) (s : Situation) : Prop where
  holds : U.holds l s.toStory
  hosted : h < s.engine.sessions.length

abbrev Keeps {α : Type} (Q : α → Situation → Prop) (p : Proc α) (s : Situation) : Prop :=
  p.Assures U.conduct (fun s => U.between s.toStory) Q s

/-- Work on a session leaves loose what has been loose, whether it succeeds or fails. -/
def Tends {α : Type} (h : Handle) (a : Attempt α) : Prop :=
  ∀ l s, U.At l h s →
    a.Assures U.conduct (fun s => U.between s.toStory) (fun _ => U.At l h) (fun _ => U.At l h) s

variable {U} {α β : Type} {l : Loose} {h : Handle} {s s' : Situation} {tenant owner : String}

namespace At

theorem change (hs : U.At l h s) {c : Change} (hc : c.Fileless) : U.At l h (s.change c) :=
  ⟨U.plain hc hs.holds, Nat.lt_of_lt_of_le hs.hosted (Engine.length_sessions_le _ _)⟩

theorem between (hs : U.At l h s) : U.between s.toStory := U.point hs.holds

theorem meets (hs : U.At l h s) {c : ProviderCall} {r : c.Outcome} (hm : U.conduct.Meets s c r s') :
    ∃ t : Story, U.holds l t ∧ h < t.engine.sessions.length ∧ U.regime.answers t.past c r ∧
      s' = s.called t c r := by
  obtain ⟨t, ⟨hevolves, -, hkept⟩, ha, rfl⟩ := hm
  exact ⟨t, hkept l hs.holds, ((Engine.hosts_of_lt hs.hosted).evolve hevolves).lt, ha, rfl⟩

theorem answered (hs : U.At l h s) {c : ProviderCall} {r : c.Outcome}
    (hm : U.conduct.Meets s c r s') (hu : (Event.call c r).uploaded? = none)
    (hd : (Event.call c r).deleted? = none) : U.At l h s' := by
  obtain ⟨t, ht, hlt, -, rfl⟩ := hs.meets hm
  exact ⟨U.answered hu hd ht, hlt⟩

theorem revalued (hs : U.At l h s) {gone come : List Input} {t : Session}
    (ht : (s.engine.session h).Turnover gone come t)
    (hcome : U.lenient ∨ ∀ v ∈ come, v.file = none) :
    U.At (l.put h (gone.filterMap Input.file)) h (s.change (.values h t)) :=
  ⟨U.revalued hs.hosted ht hcome hs.holds,
    Nat.lt_of_lt_of_le hs.hosted (Engine.length_sessions_le _ _)⟩

end At

namespace Tends

theorem pure (v : α) : U.Tends h (Pure.pure v : Attempt α) := fun _ _ hs => hs

theorem throw (fault : EngineFault) : U.Tends h (MonadExcept.throw fault : Attempt α) :=
  fun _ _ hs => hs

theorem bind {a : Attempt α} {f : α → Attempt β} (ha : U.Tends h a) (hf : ∀ v, U.Tends h (f v)) :
    U.Tends h (a >>= f) :=
  fun l s hs => (ha l s hs).bind fun v s' hs' => hf v l s' hs'

theorem ofExcept (r : Except EngineFault α) : U.Tends h (Attempt.ofExcept r) := by
  intro l s hs
  rw [Attempt.assures_ofExcept]
  exact ⟨fun _ _ => hs, fun _ _ => hs⟩

theorem session (k : Handle) : U.Tends h (monadLift (Proc.session k) : Attempt Session) := by
  intro l s hs
  rw [Attempt.assures_lift, Proc.assures_session]
  exact hs

theorem now : U.Tends h (monadLift Proc.now : Attempt Int) := by
  intro l s hs
  rw [Attempt.assures_lift, Proc.assures_now]
  exact fun _ => hs

theorem change {c : Change} (hc : c.Fileless) :
    U.Tends h (monadLift (Proc.change c) : Attempt Unit) := by
  intro l s hs
  rw [Attempt.assures_lift, Proc.assures_change]
  exact ⟨(hs.change hc).between, hs.change hc⟩

theorem log (level event message : String) :
    U.Tends h (monadLift (Proc.log level event message) : Attempt Unit) :=
  change (c := .log ⟨level, event, message⟩) trivial

theorem lift_bind {p : Proc α} {f : α → Proc β} (hp : U.Tends h (monadLift p : Attempt α))
    (hf : ∀ v, U.Tends h (monadLift (f v) : Attempt β)) :
    U.Tends h (monadLift (p >>= f) : Attempt β) := by
  intro l s hs
  rw [Attempt.assures_lift, Proc.assures_bind']
  refine (Attempt.assures_lift.mp (hp l s hs)).imp fun v s' hs' => ?_
  exact Attempt.assures_lift.mp (hf v l s' hs')

theorem outcome {a : Attempt α} (ha : U.Tends h a) : U.Tends h a.outcome := by
  intro l s hs
  rw [Attempt.assures_outcome]
  exact ha l s hs

theorem forM {γ : Type} {f : γ → Attempt PUnit} (hf : ∀ x, U.Tends h (f x)) (xs : List γ) :
    U.Tends h (xs.forM f) :=
  fun l _ hs => Attempt.assures_forM (J := fun _ => U.At l h) (fun x _ a ha => hf x l a ha) xs hs

theorem of_within {B : Scope} (hmakes : ∀ c, B.makes c → c.Fileless)
    (hcalls : ∀ c, B.calls c → c.Fileless) (hsees : ∀ e, B.sees e) {a : Attempt α}
    (ha : a.Within B (fun _ => True) fun _ => True) : U.Tends h a := by
  intro l _ hs
  have hall := Attempt.Within.assures (K := U.conduct) (J := U.At l h) (fun a _ => hsees a.engine)
    (fun _ c hs hc => hs.change (hmakes c hc)) ?_ ha hs
  · exact hall.mono (fun _ hs => hs.between) (fun _ _ hs => hs.2) (fun _ _ hs => hs.2)
  · intro a c r b ha hc hm
    have hfileless := hcalls c hc
    cases c with
    | upload | delete => exact hfileless.elim
    | _ => exact ha.answered hm rfl rfl

end Tends

/-! ## Files -/

theorem deleteFile_keeps {file : String} (hs : U.At (l.put h [file]) h s) :
    U.Keeps (fun _ => U.At l h) (Inputs.deleteFile tenant owner file) s := by
  simp only [Keeps, Inputs.deleteFile, Proc.assures_bind', Proc.assures_ask]
  intro r s' hm
  obtain ⟨t, ht, hlt, ha, rfl⟩ := hs.meets hm
  have hdone : U.At l h (s.called t (.delete tenant file) r) := ⟨U.deleted ha ht, hlt⟩
  refine ⟨hdone.between, ?_⟩
  cases r with
  | ok u => exact hdone
  | error fault =>
    have hlogged : U.At l h _ := hdone.change (c := .log ⟨"warn", "input.delete_failed",
      s!"session_id={owner} file_id={file} error={fault.message}"⟩) trivial
    exact ⟨hlogged.between, hlogged⟩

theorem deleteAll_keeps (files : List String) (hs : U.At (l.put h files) h s) :
    U.Keeps (fun _ => U.At l h) (files.forM fun file => do
      let _ ← Inputs.deleteFile tenant owner file : Proc PUnit) s := by
  induction files generalizing s with
  | nil => exact (l.put_nil h) ▸ hs
  | cons file rest ih =>
    show Proc.Assures _ _ _ ((Inputs.deleteFile tenant owner file >>= fun _ =>
      pure PUnit.unit) >>= fun _ => rest.forM _) s
    rw [Loose.put_cons] at hs
    rw [Proc.assures_bind']
    exact (deleteFile_keeps hs).bind fun _ _ hs' => ih hs'

theorem releaseFiles_keeps (files : List String) (hs : U.At (l.put h files) h s) :
    U.Keeps (fun _ => U.At l h) (Inputs.releaseFiles tenant owner files) s := by
  induction files generalizing s with
  | nil => exact (l.put_nil h) ▸ hs
  | cons file rest ih =>
    show Proc.Assures _ _ _ (Inputs.deleteFile tenant owner file >>= fun _ =>
      Inputs.releaseFiles tenant owner rest >>= fun _ => pure _) s
    rw [Loose.put_cons] at hs
    refine (deleteFile_keeps hs).bind fun _ _ hs' => ?_
    exact (ih hs').bind fun _ _ hs'' => hs''

theorem resolveRedirects_tends (h : Handle) (step : Step) :
    U.Tends h (Inputs.resolveRedirects h step) := by
  intro l s hs
  simp only [Inputs.resolveRedirects, Attempt.assures_bind, Attempt.assures_lift,
    Proc.assures_session, Attempt.assures_ofExcept, Proc.assures_change]
  refine ⟨fun handed hr => ?_, fun _ _ => hs⟩
  obtain ⟨come, hcome, hturn⟩ :=
    (U.booked hs.holds h).addedAllRedirected (Session.redirects_fileless hr)
  have hafter := hs.revalued hturn (.inr hcome)
  rw [List.filterMap_nil, Loose.put_nil] at hafter
  exact ⟨hafter.between, hafter⟩

theorem discardStale_tends (tenant : String) (h : Handle) (step : Step) :
    U.Tends h (monadLift (Inputs.discardStale tenant h step) : Attempt Unit) := by
  intro l s hs
  rw [Attempt.assures_lift]
  simp only [Inputs.discardStale, Proc.assures_bind', Proc.assures_session, Proc.assures_change]
  have hturn := (U.booked hs.holds h).takenUploaded (step.sources.map Identifier.text).eraseDups
  have hafter := hs.revalued hturn (.inr (List.forall_mem_nil _))
  exact ⟨hafter.between, deleteAll_keeps _ hafter⟩

theorem uploadOne_tends (tenant : String) (h : Handle) (value : Input) :
    U.Tends h (Inputs.uploadOne tenant h value) := by
  intro l s hs
  simp only [Inputs.uploadOne, Attempt.assures_bind, Attempt.assures_ask, Attempt.assures_lift,
    Proc.assures_session, Proc.assures_change]
  intro r s' hm
  obtain ⟨t, ht, hlt, ha, rfl⟩ := hs.meets hm
  cases r with
  | error fault =>
    have hrefused : U.At l h (s.called t (.upload tenant value.name value.payload) (.error fault)) :=
      ⟨U.answered rfl rfl ht, hlt⟩
    refine ⟨hrefused.between, ?_, fun _ _ => hrefused⟩
    rintro _ ⟨⟩
  | ok file =>
    refine ⟨U.uploaded ha ht, ?_, by rintro _ ⟨⟩⟩
    rintro _ ⟨⟩
    have hfiled := U.filed value.slot hlt ha ht
    have hhosted := Nat.lt_of_lt_of_le hlt (Engine.length_sessions_le
      (.values h ((t.engine.session h).recordFile value.slot file).2) t.engine)
    refine ⟨U.point hfiled, ?_⟩
    cases hfound : ((t.engine.session h).recordFile value.slot file).1 with
    | true =>
      rw [hfound] at hfiled
      simp only [Situation.called_engine, hfound, if_true, Attempt.assures_pure]
      exact ⟨hfiled, hhosted⟩
    | false =>
      rw [hfound] at hfiled
      simp only [Situation.called_engine, hfound, Bool.false_eq_true, if_false,
        Attempt.assures_bind, Attempt.assures_lift, Attempt.assures_pure]
      exact deleteFile_keeps ⟨hfiled, hhosted⟩

theorem uploadAll_tends (tenant : String) (h : Handle) (values : List Input) :
    U.Tends h (Inputs.uploadAll tenant h values) := by
  induction values with
  | nil => exact .pure 0
  | cons value rest ih => exact (uploadOne_tends tenant h value).bind fun _ => ih.bind fun _ => .pure _

theorem uploadMissing_tends (tenant : String) (h : Handle) :
    U.Tends h (Inputs.uploadMissing tenant h) :=
  (Tends.session h).bind fun s => uploadAll_tends tenant h s.pendingUploads

theorem prepare_tends (tenant : String) (h : Handle) (step : Step) :
    U.Tends h (Inputs.prepare tenant h step) :=
  (resolveRedirects_tends h step).bind fun _ => (discardStale_tends tenant h step).bind fun _ =>
    (uploadMissing_tends tenant h).bind fun _ => (Tends.session h).bind fun _ => .pure _

/-! ## Steps -/

section Steps

variable (d : Dispatcher) (o : StepOrder)

def fileless : Scope := ⟨fun _ => True, Change.Fileless, ProviderCall.Fileless⟩

theorem execute_tends (h : Handle) (x : StepExecution) (inUse : InUse) :
    U.Tends h (Steps.execute d o x inUse) := by
  have hasks : fileless.Asks o.tenant o.session x.index :=
    ⟨fun _ hc _ => hc, fun _ => trivial, fun _ => trivial⟩
  have hwithin := Steps.execute_within hasks d inUse
  exact .of_within (fun _ => id) (fun _ => id) (fun _ => trivial)
    (hwithin.mono (fun _ => id) (fun _ => id) (fun _ => id) (fun _ => id) fun _ _ => trivial)

theorem dispatch_tends (x : StepExecution) : U.Tends o.session (Steps.dispatch d o x) := by
  refine (prepare_tends o.tenant o.session x.step).bind fun inUse => ?_
  split
  · exact execute_tends d o o.session x inUse
  · exact .throw _

theorem recordFailure_tends (h : Handle) (x : StepExecution) (fault : EngineFault) :
    U.Tends h (monadLift (Steps.recordFailure o x fault) : Attempt Unit) :=
  .lift_bind .now fun _ => .lift_bind (.change trivial) fun _ => .lift_bind (.session _) fun _ =>
    .log _ _ _

theorem recordOutcome_tends (h : Handle) (x : StepExecution) (outcome : TargetOutcome) :
    U.Tends h (monadLift (Steps.recordOutcome o x outcome) : Attempt StepReport) :=
  .lift_bind .now fun _ => .lift_bind (.session _) fun _ => .lift_bind (.change trivial) fun _ =>
    .lift_bind (.log _ _ _) fun _ => .lift_bind (.session _) fun _ => .pure _

theorem runAlone_tends (x : StepExecution) : U.Tends o.session (Steps.runAlone d o x) := by
  have entered : U.Tends o.session (Steps.enterRunning o x) := by
    refine Tends.now.bind fun now => (Tends.session _).bind fun s => ?_
    split
    · exact .throw _
    · have hbegin : (Change.begin o.session x.index now).Fileless := trivial
      exact (Tends.change hbegin).bind fun _ => .log _ _ _
  refine entered.bind fun _ => (dispatch_tends d o x).outcome.bind fun r => ?_
  split
  · exact recordOutcome_tends o o.session x _
  · exact (recordFailure_tends o o.session x _).bind fun _ => .throw _

theorem runRequired_tends {run : String → Attempt StepReport}
    (hrun : ∀ step, U.Tends o.session (run step)) (x required : StepExecution) :
    U.Tends o.session (Steps.runRequired run o x required) := by
  refine (Tends.session _).bind fun s => ?_
  split
  · exact .pure _
  · refine (hrun _).outcome.bind fun r => ?_
    split
    · exact .pure _
    · split
      · exact .throw _
      · exact (recordFailure_tends o o.session x _).bind fun _ => .throw _

theorem runGuarded_tends (depth : Nat) (active : List String) (step : String) :
    U.Tends o.session (Steps.runGuarded d o depth active step) := by
  induction depth generalizing active step with
  | zero =>
    intro l s hs
    simp only [Steps.runGuarded, Attempt.assures_bind, Attempt.assures_lift, Proc.assures_session,
      Attempt.assures_ofExcept]
    refine ⟨fun x _ => ?_, fun _ _ => hs⟩
    split
    · exact hs
    · split <;> exact hs
  | succ depth ih =>
    rw [Steps.runGuarded_succ]
    refine (Tends.session _).bind fun s => (Tends.ofExcept _).bind fun x => ?_
    split
    · exact .throw _
    · split
      · exact .throw _
      · have required : ∀ y, U.Tends o.session
            (Steps.runRequired (Steps.runGuarded d o depth (step :: active)) o x y) :=
          fun y => runRequired_tends o (ih (step :: active)) x y
        exact (Tends.forM required _).bind fun _ => runAlone_tends d o x

theorem runStep_tends (step : String) : U.Tends o.session (Steps.runStep d o step) :=
  (Tends.session _).bind fun _ => runGuarded_tends d o _ _ step

end Steps

/-! ## Requests -/

/-- A whole operation leaves loose what has been loose. -/
abbrev Serves (U : Upkeep) (l : Loose) {α : Type} (a : Attempt α) (s : Situation) : Prop :=
  a.Assures U.conduct (fun s => U.between s.toStory) (fun _ s' => U.holds l s'.toStory)
    (fun _ s' => U.holds l s'.toStory) s

abbrev ServesProc (U : Upkeep) (l : Loose) {α : Type} (p : Proc α) (s : Situation) : Prop :=
  U.Keeps (fun _ s' => U.holds l s'.toStory) p s

section Requests

theorem Tends.serves {a : Attempt α} (ha : U.Tends h a) (hs : U.holds l s.toStory)
    (hlt : h < s.engine.sessions.length) : U.Serves l a s :=
  (ha l s ⟨hs, hlt⟩).imp (fun _ _ hs => hs.holds) fun _ _ hs => hs.holds

theorem serves_log (hs : U.holds l s.toStory) (level event message : String) :
    U.ServesProc l (Proc.log level event message) s := by
  have hlogged : U.holds l (s.toStory.change (.log ⟨level, event, message⟩)) := U.plain trivial hs
  exact ⟨U.point hlogged, hlogged⟩

theorem createWith_serves (tenant : String) {flow : Flow} {r : Registry} (hf : flow ∈ r.accepted)
    (now : Int) (attempts : Nat) (hs : U.holds l s.toStory) (hr : s.engine.registry = r) :
    U.Serves l (Sessions.createWith tenant flow now attempts) s := by
  induction attempts with
  | zero => exact hs
  | succ attempts ih =>
    simp only [Serves, Sessions.createWith, Attempt.assures_bind, Attempt.assures_lift,
      Proc.assures_word]
    intro word
    split
    · exact hs
    · next id hid =>
      simp only [Attempt.assures_bind, Attempt.assures_ofExcept, Attempt.assures_lift,
        Proc.assures_engine]
      refine ⟨fun t ht => ?_, fun _ _ => hs⟩
      split
      · exact ih
      · simp only [Attempt.assures_bind, Attempt.assures_lift, Proc.assures_change,
          Attempt.assures_pure]
        have hwelcome : (Change.enlist t).Welcome s.engine.registry := by
          rintro t' ⟨⟩
          exact ⟨id, tenant, flow, now, hr ▸ hf, ht⟩
        have henlisted : U.holds l (s.toStory.change (.enlist t)) := U.enlisted hwelcome hs
        exact ⟨U.point henlisted, serves_log henlisted _ _ _⟩

theorem create_serves (tenant flow : String) (version : Option UInt32)
    (hs : U.holds l s.toStory) : U.Serves l (Sessions.create tenant flow version) s := by
  simp only [Serves, Sessions.create, Attempt.assures_bind, Attempt.assures_lift,
    Proc.assures_engine]
  split
  · exact hs
  · next flow hf =>
    simp only [Attempt.assures_bind, Attempt.assures_lift, Proc.assures_now]
    exact fun now => createWith_serves tenant (Sessions.load_accepted hf) now _ hs rfl

theorem changeInputs_serves (tenant id : String)
    {change : Session → Except EngineFault (List Input × Session)}
    (hchange : ∀ {t gone t'}, Session.Booked t → change t = .ok (gone, t') →
      ∃ come, (U.lenient ∨ ∀ v ∈ come, v.file = none) ∧ t.Turnover gone come t')
    (hs : U.holds l s.toStory) : U.Serves l (Sessions.changeInputs tenant id change) s := by
  simp only [Serves, Sessions.changeInputs, Attempt.assures_bind, Sessions.assures_find,
    Attempt.assures_lift, Proc.assures_session, Attempt.assures_ofExcept, Proc.assures_change]
  refine ⟨fun h hf _ => ⟨?_, fun _ _ => hs⟩, fun _ => hs⟩
  rintro ⟨displaced, changed⟩ hok
  obtain ⟨come, hcome, hturn⟩ := hchange (U.booked hs h) hok
  have hat : U.At l h s := ⟨hs, (U.sound hs).stored h (List.mem_of_find?_eq_some hf)⟩
  have hafter := hat.revalued hturn hcome
  refine ⟨hafter.between, ?_⟩
  dsimp only
  split
  · simp only [Attempt.assures_bind, Attempt.assures_lift]
    exact (releaseFiles_keeps _ hafter).imp fun _ _ hs' => hs'.holds
  · next hnone =>
    have hempty : displaced.filterMap Input.file = [] := by
      refine List.filterMap_eq_nil_iff.mpr fun v hv => ?_
      simp only [List.any_eq_true, not_exists, not_and] at hnone
      simpa [Input.isUploaded] using hnone v hv
    rw [hempty, Loose.put_nil] at hafter
    exact hafter.holds

theorem releaseRemoved_keeps (hs : U.At (l.put h (s.engine.session h).files) h s) :
    U.Keeps (fun _ => U.At l h) (Sessions.releaseRemoved h) s := by
  have hall := ((U.booked hs.holds h).allInputs.filterMap Input.file).symm
  have hloose : U.At (l.put h ((s.engine.session h).allInputs.values.filterMap Input.file)) h s :=
    ⟨U.perm (l.put_perm h hall) hs.holds, hs.hosted⟩
  simp only [Keeps, Sessions.releaseRemoved, Inputs.releaseSession, Inputs.release,
    Proc.assures_bind', Proc.assures_session, Proc.assures_log, Proc.assures_pure]
  refine (releaseFiles_keeps _ hloose).imp fun summary s' hs' => ?_
  have hlogged := fun r => hs'.change (c := .log r) trivial
  exact ⟨(hlogged _).between, hlogged _⟩

theorem withdrawn_releases (hs : U.holds l s.toStory) (hh : h ∈ s.engine.stored) :
    U.between (s.change (.withdraw h)).toStory ∧
      U.ServesProc l (Sessions.releaseRemoved h) (s.change (.withdraw h)) := by
  have hat : U.At (l.put h (s.engine.session h).files) h (s.change (.withdraw h)) :=
    ⟨U.withdrawn hh hs, (U.sound hs).stored h hh⟩
  exact ⟨hat.between, (releaseRemoved_keeps hat).imp fun _ _ hs' => hs'.holds⟩

theorem removeIf_serves (id : String) (condition : Session → Bool) (hs : U.holds l s.toStory) :
    U.ServesProc l (Sessions.removeIf id condition) s := by
  simp only [Sessions.removeIf, Proc.assures_bind', Proc.assures_engine]
  split
  · exact hs
  · next h hh =>
    simp only [Proc.assures_bind', Proc.assures_change, Proc.assures_pure]
    exact withdrawn_releases hs (Engine.removeIf_stored hh)

theorem remove_serves (hs : U.holds l s.toStory) (hh : h ∈ s.engine.stored) :
    U.ServesProc l (Sessions.remove h) s := by
  simp only [Sessions.remove, Proc.assures_bind', Proc.assures_engine, Engine.removeIf,
    (U.sound hs).find?_self hh, if_true, Proc.assures_change]
  exact withdrawn_releases hs hh

theorem releaseRemoved_serves (hlenient : U.lenient) (h : Handle) (hs : U.holds l s.toStory) :
    U.ServesProc l (Sessions.releaseRemoved h) s := by
  by_cases hlt : h < s.engine.sessions.length
  · have hat : U.At (l.put h (s.engine.session h).files) h s := ⟨U.regardless hlenient hs, hlt⟩
    exact (releaseRemoved_keeps hat).imp fun _ _ hs' => hs'.holds
  · simp only [Sessions.releaseRemoved, Inputs.releaseSession, Proc.assures_bind',
      Proc.assures_session, Engine.session_of_le (Nat.le_of_not_lt hlt)]
    exact serves_log hs _ _ _

theorem remove_serves_lenient (hlenient : U.lenient) (h : Handle) (hs : U.holds l s.toStory) :
    U.ServesProc l (Sessions.remove h) s := by
  simp only [Sessions.remove, Proc.assures_bind', Proc.assures_engine]
  split
  · exact releaseRemoved_serves hlenient h hs
  · next k hk =>
    have hgone : U.holds l (s.toStory.change (.withdraw k)) :=
      U.regardless hlenient (U.withdrawn (Engine.removeIf_stored hk) hs)
    simp only [Proc.assures_bind', Proc.assures_change]
    exact ⟨U.point hgone, releaseRemoved_serves hlenient h hgone⟩

theorem delete_serves (tenant id : String) (hs : U.holds l s.toStory) :
    U.Serves l (Sessions.delete tenant id) s := by
  simp only [Serves, Sessions.delete, Attempt.assures_bind, Sessions.assures_find,
    Attempt.assures_lift]
  exact ⟨fun h hf _ => remove_serves hs (List.mem_of_find?_eq_some hf), fun _ => hs⟩

theorem runStep_serves (f : Facilities) (tenant id step : String) (userInput : Option String)
    (withRequired : Bool) (hs : U.holds l s.toStory) :
    U.Serves l (Sessions.runStep f tenant id step userInput withRequired) s := by
  simp only [Serves, Sessions.runStep, Sessions.runStepBy, Attempt.assures_bind,
    Sessions.assures_find, Attempt.assures_lift, Proc.assures_session, Attempt.assures_ofExcept]
  refine ⟨fun h hf _ => ⟨fun x _ => ?_, fun _ _ => hs⟩, fun _ => hs⟩
  split
  · exact hs
  · split
    · exact hs
    · have hlt := (U.sound hs).stored h (List.mem_of_find?_eq_some hf)
      exact (runStep_tends f.dispatcher ⟨tenant, h, userInput, withRequired⟩ step).serves hs hlt

theorem runAllSteps_tends (f : Facilities) (tenant : String) (h : Handle) (generation : Nat) :
    U.Tends h (Sessions.runAllSteps (Sessions.stepOfRun f tenant h) tenant h generation) := by
  refine (uploadMissing_tends tenant h).bind fun _ => (Tends.session h).bind fun s => ?_
  refine .forM (fun x => ?_) _
  refine (Tends.session h).bind fun s => ?_
  split
  · exact .pure _
  · exact (runStep_tends f.dispatcher ⟨tenant, h, none, true⟩ _).bind fun _ => .pure _

theorem run_serves (f : Facilities) (tenant id : String) (hs : U.holds l s.toStory) :
    U.Serves l (Sessions.run f tenant id) s := by
  simp only [Serves, Sessions.run, Sessions.runBy, Attempt.assures_bind, Sessions.assures_find,
    Attempt.assures_lift, Proc.assures_session, Attempt.assures_ofExcept, Proc.assures_change,
    Proc.assures_log, Attempt.assures_outcome]
  refine ⟨fun h hf _ => ⟨fun _ _ => ?_, fun _ _ => hs⟩, fun _ => hs⟩
  have hat : U.At l h s := ⟨hs, (U.sound hs).stored h (List.mem_of_find?_eq_some hf)⟩
  have hstarted := hat.change (c := .startRun h) trivial
  have hlogged := fun r => hstarted.change (c := .log r) trivial
  refine ⟨hstarted.between, (hlogged _).between, ?_⟩
  refine (runAllSteps_tends f tenant h _ l _ (hlogged _)).imp ?_ ?_
  · intro _ s' hs'
    have hended := hs'.change (c := .finishRun h) trivial
    have hnoted := fun r => hended.change (c := .log r) trivial
    exact ⟨hended.between, (hnoted _).between, (hnoted _).holds⟩
  · intro fault s' hs'
    have hended := hs'.change (c := .failRun h) trivial
    have hnoted := fun r => hended.change (c := .log r) trivial
    exact ⟨hended.between, (hnoted _).between, (hnoted _).holds⟩

theorem visitAll_serves (limit : Nat) (now : Int) (started : Nat) (summary : SweepSummary)
    (handles : List Handle) (hs : U.holds l s.toStory) :
    U.ServesProc l (Sweep.visitAll limit now started summary handles) s := by
  induction handles generalizing summary s with
  | nil => exact hs
  | cons h rest ih =>
    simp only [Sweep.visitAll, Proc.assures_bind', Proc.assures_stopwatch]
    intro t
    split
    · exact hs
    · simp only [Sweep.visit, Proc.assures_bind', Proc.assures_session]
      refine (removeIf_serves _ _ hs).imp ?_
      intro release s' hs'
      split
      · exact ih _ hs'
      · simp only [Proc.assures_bind', Proc.assures_session, Proc.assures_pure]
        exact (serves_log hs' _ _ _).imp fun _ _ hs'' => ih _ hs''

theorem sweep_serves (limit : Nat) (now : Int) (hs : U.holds l s.toStory) :
    U.ServesProc l (Sweep.run limit now) s := by
  simp only [Sweep.run, Proc.assures_bind', Proc.assures_engine]
  split
  · simp only [Proc.assures_bind', Proc.assures_pure]
    exact serves_log hs _ _ _
  · simp only [Proc.assures_bind', Proc.assures_change, Proc.assures_stopwatch,
      Proc.assures_listed, Proc.assures_pure]
    have hbegun : U.holds l (s.toStory.change (.sweep true)) := U.plain trivial hs
    refine ⟨U.point hbegun, fun t listed _ => ?_⟩
    refine (visitAll_serves limit now t _ _ hbegun).imp fun summary s' hs' => ?_
    refine (serves_log hs' _ _ _).imp fun _ s'' hs'' => ?_
    have hended : U.holds l (s''.toStory.change (.sweep false)) := U.plain trivial hs''
    exact ⟨U.point hended, hended⟩

theorem looks_serve {a : Attempt α}
    (ha : ∀ B, a.Within B (fun _ => True) fun _ => True) (hs : U.holds l s.toStory) :
    U.ServesProc l a.run s := by
  let looking : Scope := ⟨fun _ => True, fun _ => False, fun _ => False⟩
  have hall := (ha looking).proc.assures (K := U.conduct) (J := fun s => U.holds l s.toStory)
    (fun _ _ => trivial) (fun _ _ _ hc => absurd hc id) (fun _ _ _ _ _ hc => absurd hc id) hs
  exact hall.mono (fun _ hs => U.point hs) fun _ _ hs => hs.2

theorem put_turnover {f : Facilities} {input : String} {value : Input}
    (hv : U.lenient ∨ value.file = none) {t t' : Session} {gone : List Input}
    {put : Session → String → Input → Except EngineFault (List Input × Session)}
    (hput : ∀ {value}, put t input value = .ok (gone, t') →
      t.Turnover gone [(t.slotted value).1] t')
    (h : (do put t input (← Sessions.extracted f (← t.flowInput input) value)) = .ok (gone, t')) :
    ∃ come, (U.lenient ∨ ∀ v ∈ come, v.file = none) ∧ t.Turnover gone come t' := by
  cases hd : t.flowInput input with
  | error fault => simp [hd, bind, Except.bind] at h
  | ok declared =>
    cases hx : Sessions.extracted f declared value with
    | error fault => simp [hd, hx, bind, Except.bind] at h
    | ok value' =>
      simp only [hd, hx, bind, Except.bind] at h
      refine ⟨_, hv.imp id fun hnone => ?_, hput h⟩
      have hnew : value'.file = none := Sessions.extracted_fileless hnone hx
      exact List.forall_mem_singleton.mpr hnew

theorem request_serves (f : Facilities) {q : Request} (hq : U.regime.allows q)
    (hs : U.holds l s.toStory) : U.ServesProc l (q.proc f) s := by
  have hallowed := U.allowed hq
  cases q with
  | create tenant flow version => exact (create_serves tenant flow version hs).proc
  | find tenant id =>
    have hfind : ∀ B, Attempt.Within B (fun _ => True) (fun _ => True) (Sessions.find tenant id) :=
      fun B => by simp
    exact looks_serve hfind hs
  | addText tenant id input text =>
    refine (changeInputs_serves tenant id (fun ht h => ?_) hs).proc
    obtain ⟨v, hv, hturn⟩ := ht.addedText h
    exact ⟨[v], .inr (List.forall_mem_singleton.mpr hv), hturn⟩
  | add tenant id input value =>
    exact (changeInputs_serves tenant id
      (fun ht h => put_turnover hallowed (fun h => ht.addedInput h) h) hs).proc
  | replace tenant id input value =>
    exact (changeInputs_serves tenant id
      (fun ht h => put_turnover hallowed (fun h => ht.replacedInput h) h) hs).proc
  | clear tenant id input =>
    exact (changeInputs_serves tenant id
      (fun ht h => ⟨[], .inr nofun, ht.clearedInput h⟩) hs).proc
  | runStep tenant id step userInput withRequired =>
    exact (runStep_serves f tenant id step userInput withRequired hs).proc
  | run tenant id => exact (run_serves f tenant id hs).proc
  | report tenant id step => exact looks_serve (fun B => Sessions.report_within tenant id step) hs
  | render tenant id template =>
    exact looks_serve (fun B => Sessions.render_within f tenant id template) hs
  | delete tenant id => exact (delete_serves tenant id hs).proc
  | remove h =>
    rcases hallowed with hlenient | hfileless
    · exact remove_serves_lenient hlenient h hs
    · exact hfileless.elim
  | removeIf id condition => exact removeIf_serves id condition hs
  | sweep limit now => exact sweep_serves limit now hs

theorem request_meanwhile (f : Facilities) {q : Request} (hq : U.regime.allows q) {s : Story}
    (hs : U.between s) : (q.proc f).Assures U.conduct (fun s' => U.between s'.toStory)
      (fun _ s' => U.conduct.meanwhile s s'.toStory) s.enter := by
  have hevolves : (q.proc f).Assures U.conduct (fun s' => s.engine.Evolves s'.engine)
      (fun _ s' => s.engine.Evolves s'.engine) s.enter :=
    Proc.assures_always (fun _ c hs => hs.trans (Change.evolves_apply c _))
      (fun _ _ _ _ hs hm => hs.trans (hm.evolves U.conduct_evolving)) _ (.refl _)
  have hany : (q.proc f).Assures U.conduct (fun s' => U.between s'.toStory)
      (fun _ s' => U.between s'.toStory) s.enter := by
    rcases U.resumed hs with ⟨l, hl⟩ | hall
    · exact (request_serves f hq hl).imp fun _ _ hs' => U.point hs'
    · exact (Proc.assures_always (J := fun _ => True) (fun _ _ _ => trivial)
        (fun _ _ _ _ _ _ => trivial) _ trivial).mono (fun _ _ => hall _) fun _ _ _ => hall _
  have hkept : (q.proc f).Assures U.conduct (fun s' => U.between s'.toStory)
      (fun _ s' => ∀ l : { l // U.holds l s }, U.holds l.1 s'.toStory) s.enter :=
    Proc.assures_forall (hany.imp fun _ _ _ => trivial) fun l => request_serves f hq l.2
  refine ((hevolves.and hany).and hkept).mono (fun _ h => h.1.2) ?_
  rintro _ s' ⟨⟨hgrown, hpoint⟩, hall⟩
  exact ⟨hgrown, fun _ => hpoint, fun l hl => hall ⟨l, hl⟩⟩

end Requests

/-! ## Nested operations -/

variable (U) in
/-- The operations in progress, each of which will have kept up what it found. -/
inductive Stacked : Story → List Frame → Prop where
  | bottom {now flows logging} : U.conduct.meanwhile (.opening flows logging) now → Stacked now []
  | frame {base now fr below} : Stacked base below → Waiting below → U.between now →
      fr.rest.Assures U.conduct (fun s => U.between s.toStory)
        (fun _ s => U.conduct.meanwhile base s.toStory) ⟨now, fr.own⟩ → Stacked now (fr :: below)

namespace Stacked

variable {f : Facilities} {now t : Story} {stack : List Frame}

theorem between (h : U.Stacked now stack) : U.between now := by
  cases h with
  | bottom hm => exact hm.2.1 (U.point (U.opening _ _))
  | frame _ _ hs _ => exact hs

theorem meanwhile_refl (s : Story) : U.conduct.meanwhile s s := ⟨.refl _, id, fun _ => id⟩

theorem meanwhile_trans {s t u : Story} (h : U.conduct.meanwhile s t)
    (h' : U.conduct.meanwhile t u) : U.conduct.meanwhile s u :=
  ⟨h.1.trans h'.1, fun hs => h'.2.1 (h.2.1 hs), fun l hs => h'.2.2 l (h.2.2 l hs)⟩

theorem meanwhile_flagged {s : Story} (hs : U.between s) (b : Bool) :
    U.conduct.meanwhile s (s.flagged b) := by
  refine ⟨.refl _, fun _ => ?_, fun _ hl => U.flagged b hl⟩
  rcases U.resumed hs with ⟨l, hl⟩ | hall
  · exact U.point (U.flagged b hl)
  · exact hall _

theorem meanwhile (h : U.Stacked now stack) (hw : Waiting stack)
    (hm : U.conduct.meanwhile now t) : U.Stacked t stack := by
  cases h with
  | bottom hm' => exact .bottom (meanwhile_trans hm' hm)
  | @frame base _ fr below hbelow hwaiting hs hrest =>
    obtain ⟨c, next, hcall⟩ := hw fr rfl
    refine .frame hbelow hwaiting (hm.2.1 hs) ?_
    rw [hcall] at hrest ⊢
    rintro r s' ⟨u, hu, ha, rfl⟩
    exact hrest r _ ⟨u, meanwhile_trans hm hu, ha, rfl⟩

theorem enter {q : Request} (f : Facilities) (h : U.Stacked now stack) (hw : Waiting stack)
    (hq : U.regime.allows q) : U.Stacked now (⟨q, q.proc f, []⟩ :: stack) :=
  .frame h hw h.between (request_meanwhile f hq h.between)

theorem act {q : Request} {p p' : Proc q.Reply} {own : List Moment} {s' : Situation}
    (h : U.Stacked now (⟨q, p, own⟩ :: stack))
    (hmove : Move (.prompt U.regime.answers) (p, ⟨now, own⟩) (p', s')) :
    U.Stacked s'.toStory (⟨q, p', s'.own⟩ :: stack) := by
  cases h with
  | frame hbelow hwaiting hs hrest =>
    have hwithin : (Conduct.prompt U.regime.answers).Within U.conduct := by
      refine ⟨?_, id⟩
      rintro s t rfl
      exact meanwhile_refl _
    obtain ⟨hs', hrest'⟩ := move_assured hwithin hmove hs hrest
    exact .frame hbelow hwaiting hs' hrest'

theorem leave {q : Request} {r : q.Reply} {own : List Moment}
    (h : U.Stacked now (⟨q, .done r, own⟩ :: stack)) : U.Stacked now stack := by
  cases h with
  | frame hbelow hwaiting _ hdone => exact hbelow.meanwhile hwaiting hdone

theorem under {m : Machine} (hm : m.Under U.regime f) : U.Stacked m.story m.stack := by
  induction hm with
  | opening flows logging => exact .bottom (meanwhile_refl _)
  | flag b _ hw ih => exact ih.meanwhile hw (meanwhile_flagged ih.between b)
  | enter q _ hw hq ih => exact ih.enter f hw hq
  | act _ hmove ih => exact ih.act hmove
  | leave _ ih => exact ih.leave

end Stacked

theorem between_under {f : Facilities} {m : Machine} (hm : m.Under U.regime f) :
    U.between m.story :=
  (Stacked.under hm).between

/-- When no operation is in progress, nothing is loose. -/
theorem holds_at_rest {f : Facilities} {m : Machine} (hm : m.Under U.regime f)
    (hrest : m.stack = []) : U.holds .none m.story := by
  have hstacked := Stacked.under hm
  rw [hrest] at hstacked
  cases hstacked with
  | bottom hkept => exact hkept.2.2 _ (U.opening _ _)

end Upkeep

/-- The books of all sessions are kept in order by all that can happen. -/
def bookkeeping : Upkeep where
  regime := .lax
  lenient := True
  holds _ s := s.engine.WellKept
  between s := s.engine.WellKept
  allowed _ := .inl trivial
  opening := Engine.WellKept.opening
  point := id
  resumed hs := .inl ⟨.none, hs⟩
  sound hs := hs.sound
  booked hs := hs.booked
  regardless _ := id
  perm _ := id
  flagged b hs := hs.flagged b
  plain hc hs := hs.fileless hc
  enlisted hc hs := hs.enlist hc
  withdrawn _ hs := hs.withdraw _
  revalued _ hturn _ hs := hs.revalued _ (hturn.booked (hs.booked _))
  answered _ _ := id
  deleted _ := id
  uploaded _ := id
  filed slot _ _ hs := hs.revalued _ ((hs.booked _).recorded slot _)

theorem Machine.Under.wellKept {R : Regime} {f : Facilities} {m : Machine} (hm : m.Under R f) :
    m.story.engine.WellKept :=
  Upkeep.between_under (U := bookkeeping) hm.lax

end FlowEngine
