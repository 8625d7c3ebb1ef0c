import FlowEngine.Proofs.Files
import FlowEngine.Proofs.StepRuns

/-! # No file is lost

Each operation is followed through its uploads and deletions: what it takes out of the books it has
loose until it is deleted, and what it has uploaded until it is recorded. At its end it has nothing
loose, whether it succeeds or fails.
-/
namespace FlowEngine

/-- Operations one after another, with a provider that can be trusted with files. -/
def Conduct.faithful : Conduct := .solitary Faithful

theorem Conduct.Meets.faithful {s s' : Situation} {c : ProviderCall} {r : c.Outcome}
    (hm : Conduct.faithful.Meets s c r s') :
    Faithful s.past c r ∧ ∃ b, s' = s.called (s.toStory.flagged b) c r := by
  obtain ⟨t, ⟨b, rfl⟩, ha, rfl⟩ := hm
  exact ⟨ha, b, rfl⟩

/-- Between two changes of an operation that leaves the store alone. -/
structure Holding (loose : List StoredFile) (handles : List Handle) (s : Situation) : Prop where
  kept : Accounted loose s.toStory
  stored : s.engine.stored = handles

namespace Holding

variable {loose : List StoredFile} {handles : List Handle} {s s' : Situation}

theorem fileless (hs : Holding loose handles s) {c : Change} (hc : c.Fileless) :
    Holding loose handles (s.change c) :=
  ⟨hs.kept.fileless hc, (hc.stored s.engine).trans hs.stored⟩

theorem noted (hs : Holding loose handles s) {c : Change} (hc : c.Fileless) (r : LogRecord) :
    Holding loose handles ((s.change c).change (.log r)) :=
  (hs.fileless hc).fileless trivial

theorem answered (hs : Holding loose handles s) {c : ProviderCall} {r : c.Outcome}
    (hm : Conduct.faithful.Meets s c r s') (hu : (Event.call c r).uploaded? = none)
    (hd : (Event.call c r).deleted? = none)
    (ha : ∀ file ∈ (Event.call c r).asked, file ∈ (storedFiles s.past).map StoredFile.id) :
    Holding loose handles s' := by
  obtain ⟨-, b, rfl⟩ := hm.faithful
  exact ⟨(hs.kept.flagged b).answered hu hd ha, hs.stored⟩

theorem uploaded (hs : Holding loose handles s) {tenant name file : String} {payload : Payload}
    (hm : Conduct.faithful.Meets s (.upload tenant name payload) (.ok file) s') :
    Holding (⟨file, name, payload⟩ :: loose) handles s' ∧
      ∀ h, s'.engine.session h = s.engine.session h := by
  obtain ⟨hnew, b, rfl⟩ := hm.faithful
  exact ⟨⟨(hs.kept.flagged b).uploaded hnew, hs.stored⟩, fun _ => rfl⟩

theorem deleted {f : StoredFile} (hs : Holding (f :: loose) handles s) {tenant : String}
    {r : ProviderCall.Outcome (.delete tenant f.id)}
    (hm : Conduct.faithful.Meets s (.delete tenant f.id) r s') :
    (∃ u, r = .ok u) ∧ Holding loose handles s' := by
  obtain ⟨hok, b, rfl⟩ := hm.faithful
  cases r with
  | ok u => exact ⟨⟨u, rfl⟩, (hs.kept.flagged b).deleted, hs.stored⟩
  | error fault => exact hok.elim

end Holding

def Anything (_ : Situation) : Prop := True

namespace Inputs

variable {loose : List StoredFile} {handles : List Handle} {s : Situation} {tenant session : String}
  {h : Handle}

theorem deleteFile_holding {f : StoredFile} (hs : Holding (f :: loose) handles s) :
    (deleteFile tenant session f.id).Assures .faithful Anything
      (fun _ => Holding loose handles) s := by
  simp only [deleteFile, Proc.assures_bind', Proc.assures_ask]
  intro r s' hm
  obtain ⟨⟨u, rfl⟩, hs'⟩ := hs.deleted hm
  exact ⟨trivial, hs'⟩

theorem deleteAll_holding (files : List StoredFile)
    (hs : Holding (files ++ loose) handles s) :
    ((files.map StoredFile.id).forM fun file => do
      let _ ← deleteFile tenant session file : Proc PUnit).Assures .faithful Anything
        (fun _ => Holding loose handles) s := by
  induction files generalizing s with
  | nil => exact hs
  | cons f rest ih =>
    show Proc.Assures _ _ _ ((deleteFile tenant session f.id >>= fun _ => pure PUnit.unit) >>=
      fun _ => (rest.map StoredFile.id).forM _) s
    rw [Proc.assures_bind']
    refine (deleteFile_holding hs).bind fun _ _ hs' => ?_
    exact ih hs'

theorem releaseFiles_holding (files : List StoredFile)
    (hs : Holding (files ++ loose) handles s) :
    (releaseFiles tenant session (files.map StoredFile.id)).Assures .faithful Anything
      (fun _ => Holding loose handles) s := by
  induction files generalizing s with
  | nil => exact hs
  | cons f rest ih =>
    show Proc.Assures _ _ _ (deleteFile tenant session f.id >>= fun _ =>
      releaseFiles tenant session (rest.map StoredFile.id) >>= fun _ => pure _) s
    refine (deleteFile_holding hs).bind fun _ _ hs' => ?_
    exact (ih hs').bind fun _ _ hs'' => hs''

theorem release_holding (values : List Input)
    (hs : Holding (filesOf values ++ loose) handles s) :
    (release tenant session values).Assures .faithful Anything
      (fun _ => Holding loose handles) s := by
  rw [release, ← filesOf_ids]
  exact releaseFiles_holding _ hs

theorem resolveRedirects_holding (hh : h ∈ handles) (step : Step) (hs : Holding [] handles s) :
    Attempt.Assures .faithful Anything (fun _ => Holding [] handles) (fun _ => Holding [] handles)
      (resolveRedirects h step) s := by
  simp only [resolveRedirects, Attempt.assures_bind, Attempt.assures_lift, Proc.assures_session,
    Attempt.assures_ofExcept, Proc.assures_change]
  refine ⟨fun handed hr => ⟨trivial, ?_⟩, fun _ _ => hs⟩
  have htrade := (hs.kept.booked h).addAllRedirected (Session.redirects_fileless hr)
  refine ⟨hs.kept.revalued (hs.stored ▸ hh) htrade.booked ?_, hs.stored⟩
  rw [List.append_nil, List.append_nil]
  simpa [filesOf] using htrade.files

theorem discardStale_holding (hh : h ∈ handles) (step : Step) (hs : Holding [] handles s) :
    (discardStale tenant h step).Assures .faithful Anything (fun _ => Holding [] handles) s := by
  simp only [discardStale, Proc.assures_bind', Proc.assures_session, Proc.assures_change]
  refine ⟨trivial, ?_⟩
  rw [← filesOf_ids]
  refine deleteAll_holding _ ?_
  have htrade := (hs.kept.booked h).takeUploadedRedirected
    (step.sources.map Identifier.text).eraseDups
  refine ⟨hs.kept.revalued (hs.stored ▸ hh) htrade.booked ?_, hs.stored⟩
  rw [List.append_nil, List.append_nil]
  exact htrade.files

theorem uploadOne_holding (hh : h ∈ handles) {value : Input} (hs : Holding [] handles s)
    (hv : value ∈ (s.engine.session h).values) (hnone : value.file = none) :
    Attempt.Assures .faithful Anything
      (fun _ s' => Holding [] handles s' ∧ ∀ w ∈ (s.engine.session h).values,
        w.slot ≠ value.slot → w ∈ (s'.engine.session h).values)
      (fun _ => Holding [] handles) (uploadOne tenant h value) s := by
  simp only [uploadOne, Attempt.assures_bind, Attempt.assures_ask, Attempt.assures_lift,
    Proc.assures_session, Proc.assures_change]
  rintro r s' hm
  refine ⟨trivial, ?_, ?_⟩
  · rintro file rfl
    obtain ⟨hs', hsame⟩ := hs.uploaded hm
    rw [hsame]
    obtain ⟨hfound, hbooked, hfiles, hothers⟩ :=
      (hs.kept.booked h).recordFile hv hnone file
    refine ⟨trivial, ?_⟩
    rw [hfound]
    simp only [if_true, Attempt.assures_pure]
    refine ⟨⟨hs'.kept.revalued (hs'.stored ▸ hh) hbooked ?_, hs'.stored⟩, ?_⟩
    · rw [List.append_nil, hsame]
      exact hfiles.trans (List.perm_append_singleton _ _).symm
    · have hlt := hs'.kept.sound.stored h (hs'.stored ▸ hh)
      intro w hw hne
      rw [Situation.change_engine, Change.apply, Engine.session_modifySession_self hlt]
      exact hothers w hw hne
  · rintro fault rfl
    exact hs.answered hm rfl rfl (List.forall_mem_nil _)

theorem uploadAll_holding (hh : h ∈ handles) (values : List Input) (hs : Holding [] handles s)
    (hslots : (values.map Input.slot).Nodup)
    (hv : ∀ v ∈ values, v ∈ (s.engine.session h).values ∧ v.file = none) :
    Attempt.Assures .faithful Anything (fun _ => Holding [] handles) (fun _ => Holding [] handles)
      (uploadAll tenant h values) s := by
  induction values generalizing s with
  | nil => exact hs
  | cons value rest ih =>
    obtain ⟨hfirst, hrest⟩ := List.nodup_cons.mp hslots
    obtain ⟨⟨hm, hnone⟩, hothers⟩ := List.forall_mem_cons.mp hv
    rw [uploadAll]
    refine (uploadOne_holding hh hs hm hnone).bind ?_
    rintro found s' ⟨hs', hkept⟩
    have hwaiting : ∀ v ∈ rest, v ∈ (s'.engine.session h).values ∧ v.file = none := by
      intro v hmem
      obtain ⟨hold, hvnone⟩ := hothers v hmem
      refine ⟨hkept v hold ?_, hvnone⟩
      intro he
      exact hfirst (he ▸ List.mem_map_of_mem hmem)
    exact (ih hs' hrest hwaiting).bind fun _ _ hs'' => hs''

theorem uploadMissing_holding (hh : h ∈ handles) (hs : Holding [] handles s) :
    Attempt.Assures .faithful Anything (fun _ => Holding [] handles) (fun _ => Holding [] handles)
      (uploadMissing tenant h) s := by
  obtain ⟨hslots, hv⟩ := (hs.kept.booked h).pendingUploads
  simp only [uploadMissing, Attempt.assures_bind, Attempt.assures_lift, Proc.assures_session]
  exact uploadAll_holding hh _ hs hslots hv

theorem prepare_holding (hh : h ∈ handles) (step : Step) (hs : Holding [] handles s) :
    Attempt.Assures .faithful Anything
      (fun inUse s' => Holding [] handles s' ∧
        ∀ file ∈ inUse.files, file ∈ (storedFiles s'.past).map StoredFile.id)
      (fun _ => Holding [] handles) (prepare tenant h step) s := by
  rw [prepare]
  refine (resolveRedirects_holding hh step hs).bind ?_
  intro _ s₁ hs₁
  rw [Attempt.assures_bind, Attempt.assures_lift]
  refine (discardStale_holding hh step hs₁).imp ?_
  intro _ s₂ hs₂
  refine (uploadMissing_holding hh hs₂).bind ?_
  intro _ s₃ hs₃
  simp only [Attempt.assures_bind, Attempt.assures_lift, Proc.assures_session,
    Attempt.assures_pure]
  refine ⟨hs₃, fun file hf => ?_⟩
  have hfile := Session.inUse_subset _ step file hf
  rw [← filesOf_ids] at hfile
  obtain ⟨stored, hstored, rfl⟩ := List.mem_map.mp hfile
  refine hs₃.kept.file_stored (List.mem_append_left _ ?_)
  exact List.mem_flatMap.mpr ⟨h, hs₃.stored ▸ hh, hstored⟩

end Inputs

namespace Steps

variable {handles : List Handle} {s : Situation} {o : StepOrder}

theorem await_holding (w : Wait) (hs : Holding [] handles s) :
    Attempt.Assures .faithful Anything (fun _ => Holding [] handles) (fun _ => Holding [] handles)
      (Attempt.await w) s := by
  let polls : Scope := ⟨fun _ => True, fun _ => False, fun c => ∃ tenant run, c = .appRun tenant run⟩
  have hw : Attempt.Within polls (fun _ => True) (fun _ => True) (Attempt.await w) := by
    simp [polls]
  have ha := Attempt.Within.assures (K := .faithful) (J := Holding [] handles)
    (fun _ _ => trivial) (fun _ _ _ hc => absurd hc id) ?_ hw hs
  · exact ha.mono (fun _ _ => trivial) (fun _ _ h => h.2) (fun _ _ h => h.2)
  · rintro a c r b ha ⟨tenant, run, rfl⟩ hm
    exact ha.answered hm rfl rfl (List.forall_mem_nil _)

theorem execute_holding (d : Dispatcher) (x : StepExecution) (inUse : InUse)
    (hs : Holding [] handles s)
    (hf : ∀ file ∈ inUse.files, file ∈ (storedFiles s.past).map StoredFile.id) :
    Attempt.Assures .faithful Anything (fun _ => Holding [] handles) (fun _ => Holding [] handles)
      (execute d o x inUse) s := by
  have answered : ∀ {c : ProviderCall} {r : c.Outcome} {s'}, Conduct.faithful.Meets s c r s' →
      (Event.call c r).uploaded? = none → (Event.call c r).deleted? = none →
      (∀ q, c.request? = some q → q.files = inUse.files) → Holding [] handles s' := by
    intro c r s' hm hu hd hq
    refine hs.answered hm hu hd fun file hmem => ?_
    cases hc : c.request? with
    | none => simp [Event.asked, hc] at hmem
    | some q =>
      rw [Event.asked, hc] at hmem
      exact hf file (hq q hc ▸ hmem)
  rw [execute]
  split
  · simp only [Attempt.assures_bind, Attempt.assures_ask, Attempt.assures_pure]
    intro r s' hm
    have hs' := answered hm rfl rfl (by rintro q ⟨⟩; rfl)
    exact ⟨trivial, fun _ _ => hs', fun _ _ => hs'⟩
  · simp only [askAssistant, Attempt.assures_bind, Attempt.assures_lift, Proc.assures_session]
    split
    · simp only [Attempt.assures_bind, Attempt.assures_ask, Attempt.assures_pure]
      intro r s' hm
      have hs' := answered hm rfl rfl (by rintro q ⟨⟩; rfl)
      exact ⟨trivial, fun _ _ => hs', fun _ _ => hs'⟩
    · simp only [Attempt.assures_bind, Attempt.assures_ask, Attempt.assures_lift,
        Proc.assures_change, Attempt.assures_pure]
      intro r s' hm
      have hs' := answered hm rfl rfl (by rintro q ⟨⟩; rfl)
      exact ⟨trivial, fun _ _ => ⟨trivial, hs'.fileless trivial⟩, fun _ _ => hs'⟩
  · have hrun : Attempt.Assures .faithful Anything (fun _ => Holding [] handles)
        (fun _ => Holding [] handles) (appRun o x inUse) s := by
      simp only [appRun, Attempt.assures_bind, Attempt.assures_lift, Proc.assures_session]
      split
      · exact hs
      · simp only [Attempt.assures_bind, Attempt.assures_ask, Attempt.assures_lift,
          Proc.assures_change]
        intro r s' hm
        have hs' := answered hm rfl rfl (by rintro q ⟨⟩; rfl)
        exact ⟨trivial, fun _ _ => ⟨trivial, hs'.fileless trivial⟩, fun _ _ => hs'⟩
    refine hrun.bind fun run s' hs' => ?_
    exact (await_holding _ hs').bind fun _ _ hs'' => hs''

theorem dispatch_holding (hh : o.session ∈ handles) (d : Dispatcher) (x : StepExecution)
    (hs : Holding [] handles s) :
    Attempt.Assures .faithful Anything (fun _ => Holding [] handles) (fun _ => Holding [] handles)
      (dispatch d o x) s := by
  rw [dispatch]
  refine (Inputs.prepare_holding hh x.step hs).bind ?_
  rintro inUse s' ⟨hs', hf⟩
  split
  · exact execute_holding d x inUse hs' hf
  · exact hs'

theorem recordFailure_holding (x : StepExecution) (fault : EngineFault)
    (hs : Holding [] handles s) :
    (recordFailure o x fault).Assures .faithful Anything (fun _ => Holding [] handles) s := by
  simp only [recordFailure, Proc.assures_bind', Proc.assures_now, Proc.assures_change,
    Proc.assures_session, Proc.assures_log]
  intro now
  exact ⟨trivial, trivial, hs.noted (c := .fail o.session x.index fault.message now) trivial _⟩

theorem runAlone_holding (hh : o.session ∈ handles) (d : Dispatcher) (x : StepExecution)
    (hs : Holding [] handles s) :
    Attempt.Assures .faithful Anything (fun _ => Holding [] handles) (fun _ => Holding [] handles)
      (runAlone d o x) s := by
  simp only [runAlone, enterRunning, Attempt.assures_bind, Attempt.assures_lift,
    Proc.assures_now, Proc.assures_session]
  intro now
  split
  · exact hs
  · simp only [Attempt.assures_bind, Attempt.assures_lift, Proc.assures_change, Proc.assures_log,
      Attempt.assures_outcome]
    refine ⟨trivial, trivial, ?_⟩
    have hstarted := hs.noted (c := .begin o.session x.index now) trivial
    refine (dispatch_holding hh d x (hstarted _)).imp ?_ ?_
    · intro outcome s' hs'
      simp only [recordOutcome, Proc.assures_bind', Proc.assures_now,
        Proc.assures_session, Proc.assures_change, Proc.assures_log, Proc.assures_pure]
      intro later
      exact ⟨trivial, trivial, hs'.noted (c := .complete o.session x.index outcome later) trivial _⟩
    · exact fun fault s' hs' => recordFailure_holding x fault hs'

theorem runRequired_holding {run : String → Attempt StepReport}
    (hrun : ∀ step s', Holding [] handles s' → Attempt.Assures .faithful Anything
      (fun _ => Holding [] handles) (fun _ => Holding [] handles) (run step) s')
    (x required : StepExecution) (hs : Holding [] handles s) :
    Attempt.Assures .faithful Anything (fun _ => Holding [] handles) (fun _ => Holding [] handles)
      (runRequired run o x required) s := by
  simp only [runRequired, Attempt.assures_bind, Attempt.assures_lift, Proc.assures_session]
  split
  · exact hs
  · simp only [Attempt.assures_bind, Attempt.assures_outcome]
    refine (hrun _ s hs).imp (fun _ _ => id) ?_
    intro fault s' hs'
    split
    · exact hs'
    · simp only [Attempt.assures_bind, Attempt.assures_lift, Attempt.assures_throw]
      exact recordFailure_holding x _ hs'

theorem runGuarded_holding (hh : o.session ∈ handles) (d : Dispatcher) (depth : Nat)
    (active : List String) (step : String) (hs : Holding [] handles s) :
    Attempt.Assures .faithful Anything (fun _ => Holding [] handles) (fun _ => Holding [] handles)
      (runGuarded d o depth active step) s := by
  induction depth generalizing active step s with
  | zero =>
    simp only [runGuarded, Attempt.assures_bind, Attempt.assures_lift, Proc.assures_session,
      Attempt.assures_ofExcept]
    refine ⟨fun x _ => ?_, fun _ _ => hs⟩
    split
    · exact hs
    · split <;> exact hs
  | succ depth ih =>
    simp only [runGuarded_succ, Attempt.assures_bind, Attempt.assures_lift, Proc.assures_session,
      Attempt.assures_ofExcept]
    refine ⟨fun x _ => ?_, fun _ _ => hs⟩
    split
    · exact hs
    · split
      · exact hs
      · have required := Attempt.assures_forM (K := .faithful) (I := Anything)
          (F := fun _ => Holding [] handles) (J := fun _ => Holding [] handles)
          (fun y rest s' hs' => runRequired_holding (o := o)
            (fun name s' => ih (step :: active) name) x y hs')
          (if o.withRequired then (s.engine.session o.session).graph.requiredOf x else []) hs
        exact required.bind fun _ _ hs' => runAlone_holding hh d x hs'

theorem runStep_holding (hh : o.session ∈ handles) (d : Dispatcher) (step : String)
    (hs : Holding [] handles s) :
    Attempt.Assures .faithful Anything (fun _ => Holding [] handles) (fun _ => Holding [] handles)
      (Steps.runStep d o step) s := by
  simp only [Steps.runStep, Attempt.assures_bind, Attempt.assures_lift, Proc.assures_session]
  exact runGuarded_holding hh d _ _ step hs

end Steps

abbrev Balanced (s : Situation) : Prop := Accounted [] s.toStory

theorem Inputs.release_balanced {s : Situation} {tenant session : String} (values : List Input)
    (hs : Accounted (filesOf values) s.toStory) :
    (release tenant session values).Assures .faithful Anything (fun _ => Balanced) s := by
  have hall : Holding (filesOf values ++ []) s.engine.stored s :=
    ⟨hs.perm (by rw [List.append_nil]), rfl⟩
  exact (release_holding values hall).imp fun _ _ h => h.kept

namespace Sessions

variable {s : Situation} {tenant id : String} {h : Handle}

theorem createWith_balanced (tenant : String) {flow : Flow} {r : Registry}
    (hf : flow ∈ r.accepted) (now : Int) (attempts : Nat) (hs : Balanced s)
    (hr : s.engine.registry = r) :
    Attempt.Assures .faithful Anything (fun _ => Balanced) (fun _ => Balanced)
      (createWith tenant flow now attempts) s := by
  induction attempts with
  | zero => exact hs
  | succ attempts ih =>
    simp only [createWith, Attempt.assures_bind, Attempt.assures_lift, Proc.assures_word]
    intro word
    split
    · exact hs
    · next id hid =>
      simp only [Attempt.assures_bind, Attempt.assures_ofExcept, Attempt.assures_lift,
        Proc.assures_engine]
      refine ⟨fun t ht => ?_, fun _ _ => hs⟩
      split
      · exact ih
      · simp only [Attempt.assures_bind, Attempt.assures_lift, Proc.assures_change,
          Proc.assures_log, Attempt.assures_pure]
        have hwelcome : (Change.enlist t).Welcome s.engine.registry := by
          rintro t' ⟨⟩
          exact ⟨id, tenant, flow, now, hr ▸ hf, ht⟩
        have henlisted : Balanced (s.change (.enlist t)) := hs.enlist hwelcome
        exact ⟨trivial, trivial, henlisted.fileless trivial⟩

theorem create_balanced (tenant flow : String) (version : Option UInt32) (hs : Balanced s) :
    Attempt.Assures .faithful Anything (fun _ => Balanced) (fun _ => Balanced)
      (create tenant flow version) s := by
  simp only [create, Attempt.assures_bind, Attempt.assures_lift, Proc.assures_engine]
  split
  · exact hs
  · next flow hf =>
    simp only [Attempt.assures_bind, Attempt.assures_lift, Proc.assures_now]
    exact fun now => createWith_balanced tenant (load_accepted hf) now _ hs rfl

theorem changeInputs_balanced (tenant id : String)
    {change : Session → Except EngineFault (List Input × Session)}
    (hchange : ∀ {t gone t'}, Session.Booked t → change t = .ok (gone, t') → t.Trade gone t')
    (hs : Balanced s) :
    Attempt.Assures .faithful Anything (fun _ => Balanced) (fun _ => Balanced)
      (changeInputs tenant id change) s := by
  simp only [changeInputs, Attempt.assures_bind, assures_find, Attempt.assures_lift,
    Proc.assures_session, Attempt.assures_ofExcept, Proc.assures_change]
  refine ⟨fun h hf _ => ⟨?_, fun _ _ => hs⟩, fun _ => hs⟩
  rintro ⟨displaced, changed⟩ hok
  refine ⟨trivial, ?_⟩
  have htrade := hchange (hs.booked h) hok
  have hloose : Accounted (filesOf displaced) (s.change (.values h changed)).toStory := by
    refine hs.revalued (List.mem_of_find?_eq_some hf) htrade.booked ?_
    rw [List.append_nil]
    exact htrade.files
  dsimp only
  split
  · simp only [Attempt.assures_bind, Attempt.assures_lift]
    exact Inputs.release_balanced displaced hloose
  · next hnone =>
    have hempty : filesOf displaced = [] := by
      refine List.filterMap_eq_nil_iff.mpr fun v hv => ?_
      simp only [List.any_eq_true, not_exists, not_and] at hnone
      have hfile : v.file = none := by simpa [Input.isUploaded] using hnone v hv
      simp [Input.stored?, hfile]
    rw [hempty] at hloose
    exact hloose

theorem extracted_fileless {f : Facilities} {declared : FlowInput} {value value' : Input}
    (hv : value.file = none) (h : extracted f declared value = .ok value') : value'.file = none := by
  rw [extracted] at h
  split at h
  · split at h
    · cases h
      rfl
    · cases h
  · cases h
    exact hv

theorem add_trade {f : Facilities} {input : String} {value : Input} (hv : value.file = none)
    {t t' : Session} {gone : List Input}
    {put : Session → String → Input → Except EngineFault (List Input × Session)}
    (hput : ∀ {value}, value.file = none → put t input value = .ok (gone, t') → t.Trade gone t')
    (h : (do put t input (← extracted f (← t.flowInput input) value)) = .ok (gone, t')) :
    t.Trade gone t' := by
  cases hd : t.flowInput input with
  | error fault => simp [hd, bind, Except.bind] at h
  | ok declared =>
    cases hx : extracted f declared value with
    | error fault => simp [hd, hx, bind, Except.bind] at h
    | ok value' =>
      simp only [hd, hx, bind, Except.bind] at h
      exact hput (extracted_fileless hv hx) h

theorem releaseRemoved_balanced (h : Handle)
    (hs : Accounted (filesOf (s.engine.session h).values) s.toStory) :
    (releaseRemoved h).Assures .faithful Anything (fun _ => Balanced) s := by
  simp only [releaseRemoved, Inputs.releaseSession, Proc.assures_bind', Proc.assures_session,
    Proc.assures_log, Proc.assures_pure]
  have hall : (filesOf (s.engine.session h).values).Perm
      (filesOf (s.engine.session h).allInputs.values) :=
    ((hs.booked h).allInputs.filterMap _).symm
  refine (Inputs.release_balanced _ (hs.perm hall)).imp ?_
  intro _ s' hs'
  have hlogged : ∀ r, Balanced (s'.change (.log r)) := fun r => hs'.fileless trivial
  exact ⟨trivial, hlogged _⟩

theorem withdraw_balanced (hs : Balanced s) (hh : h ∈ s.engine.stored) :
    Accounted (filesOf ((s.change (.withdraw h)).engine.session h).values)
      (s.change (.withdraw h)).toStory :=
  (hs.withdraw hh).perm (by rw [List.append_nil]; rfl)

theorem removeIf_balanced (id : String) (condition : Session → Bool) (hs : Balanced s) :
    (removeIf id condition).Assures .faithful Anything (fun _ => Balanced) s := by
  simp only [removeIf, Proc.assures_bind', Proc.assures_engine]
  split
  · exact hs
  · next h hh =>
    have hstored := Engine.removeIf_stored hh
    simp only [Proc.assures_bind', Proc.assures_change, Proc.assures_pure]
    exact ⟨trivial, releaseRemoved_balanced h (withdraw_balanced hs hstored)⟩

theorem remove_balanced (hs : Balanced s) (hh : h ∈ s.engine.stored) :
    (remove h).Assures .faithful Anything (fun _ => Balanced) s := by
  simp only [remove, Proc.assures_bind', Proc.assures_engine, Engine.removeIf,
    hs.sound.find?_self hh, if_true, Proc.assures_change]
  exact ⟨trivial, releaseRemoved_balanced h (withdraw_balanced hs hh)⟩

theorem delete_balanced (tenant id : String) (hs : Balanced s) :
    Attempt.Assures .faithful Anything (fun _ => Balanced) (fun _ => Balanced)
      (delete tenant id) s := by
  simp only [delete, Attempt.assures_bind, assures_find, Attempt.assures_lift]
  exact ⟨fun h hf _ => remove_balanced hs (List.mem_of_find?_eq_some hf), fun _ => hs⟩

theorem runStep_balanced (f : Facilities) (tenant id step : String) (userInput : Option String)
    (withRequired : Bool) (hs : Balanced s) :
    Attempt.Assures .faithful Anything (fun _ => Balanced) (fun _ => Balanced)
      (runStep f tenant id step userInput withRequired) s := by
  simp only [runStep, runStepBy, Attempt.assures_bind, assures_find, Attempt.assures_lift,
    Proc.assures_session, Attempt.assures_ofExcept]
  refine ⟨fun h hf _ => ⟨fun x _ => ?_, fun _ _ => hs⟩, fun _ => hs⟩
  split
  · exact hs
  · split
    · exact hs
    · have hh : h ∈ s.engine.stored := List.mem_of_find?_eq_some hf
      have hstep := Steps.runStep_holding (o := ⟨tenant, h, userInput, withRequired⟩) hh
        f.dispatcher step ⟨hs, rfl⟩
      exact hstep.imp (fun _ _ h => h.kept) (fun _ _ h => h.kept)

theorem runAllSteps_holding {handles : List Handle} (hh : h ∈ handles) (f : Facilities)
    (tenant : String) (generation : Nat) (hs : Holding [] handles s) :
    Attempt.Assures .faithful Anything (fun _ => Holding [] handles) (fun _ => Holding [] handles)
      (runAllSteps (stepOfRun f tenant h) tenant h generation) s := by
  rw [runAllSteps]
  refine (Inputs.uploadMissing_holding hh hs).bind ?_
  intro _ s' hs'
  simp only [Attempt.assures_bind, Attempt.assures_lift, Proc.assures_session]
  refine Attempt.assures_forM (J := fun _ => Holding [] handles) (fun x rest a ha => ?_) _ hs'
  simp only [runInTurn, Attempt.assures_bind, Attempt.assures_lift, Proc.assures_session]
  split
  · exact ha
  · simp only [Attempt.assures_bind, Attempt.assures_pure]
    exact Steps.runStep_holding (o := ⟨tenant, h, none, true⟩) hh _ _ ha

theorem run_balanced (f : Facilities) (tenant id : String) (hs : Balanced s) :
    Attempt.Assures .faithful Anything (fun _ => Balanced) (fun _ => Balanced)
      (run f tenant id) s := by
  simp only [run, runBy, Attempt.assures_bind, assures_find, Attempt.assures_lift,
    Proc.assures_session, Attempt.assures_ofExcept, Proc.assures_change, Proc.assures_log,
    Attempt.assures_outcome]
  refine ⟨fun h hf _ => ⟨fun _ _ => ⟨trivial, trivial, ?_⟩, fun _ _ => hs⟩, fun _ => hs⟩
  have hh : h ∈ s.engine.stored := List.mem_of_find?_eq_some hf
  have hstart : Holding [] s.engine.stored s := ⟨hs, rfl⟩
  have hstarted := hstart.noted (c := .startRun h) trivial
  refine (runAllSteps_holding hh f tenant _ (hstarted _)).imp ?_ ?_
  · intro _ s' hs'
    have hended := hs'.noted (c := .finishRun h) trivial
    exact ⟨trivial, trivial, (hended _).kept⟩
  · intro fault s' hs'
    have hended := hs'.noted (c := .failRun h) trivial
    exact ⟨trivial, trivial, (hended _).kept⟩

end Sessions

namespace Sweep

variable {s : Situation}

theorem visitAll_balanced (limit : Nat) (now : Int) (started : Nat) (summary : SweepSummary)
    (handles : List Handle) (hs : Balanced s) :
    (visitAll limit now started summary handles).Assures .faithful Anything
      (fun _ => Balanced) s := by
  induction handles generalizing summary s with
  | nil => exact hs
  | cons h rest ih =>
    simp only [visitAll, Proc.assures_bind', Proc.assures_stopwatch]
    intro t
    split
    · exact hs
    · simp only [visit, Proc.assures_bind', Proc.assures_session]
      refine (Sessions.removeIf_balanced _ _ hs).imp ?_
      intro release s' hs'
      split
      · exact ih _ hs'
      · simp only [Proc.assures_bind', Proc.assures_session, Proc.assures_log, Proc.assures_pure]
        have hlogged : ∀ r, Balanced (s'.change (.log r)) := fun r => hs'.fileless trivial
        exact ⟨trivial, ih _ (hlogged _)⟩

theorem run_balanced (limit : Nat) (now : Int) (hs : Balanced s) :
    (run limit now).Assures .faithful Anything (fun _ => Balanced) s := by
  have plain : ∀ {c a}, Change.Fileless c → Balanced a → Balanced (a.change c) :=
    fun hc ha => Accounted.fileless ha hc
  simp only [run, Proc.assures_bind', Proc.assures_engine]
  split
  · simp only [Proc.assures_bind', Proc.assures_log, Proc.assures_pure]
    exact ⟨trivial, plain trivial hs⟩
  · simp only [Proc.assures_bind', Proc.assures_change, Proc.assures_stopwatch,
      Proc.assures_listed, Proc.assures_log, Proc.assures_pure]
    refine ⟨trivial, fun t listed _ => ?_⟩
    have hbegun : Balanced (s.change (.sweep true)) := plain trivial hs
    refine (visitAll_balanced limit now t _ _ hbegun).imp ?_
    intro summary s' hs'
    have hlogged : ∀ r, Balanced (s'.change (.log r)) := fun r => plain trivial hs'
    exact ⟨trivial, trivial, plain trivial (hlogged _)⟩

end Sweep

namespace Request

/-- Requests whose values bring no file, and that delete sessions by their identifiers only. -/
def Fileless : Request → Prop
  | .add _ _ _ value | .replace _ _ _ value => value.file = none
  | .remove _ => False
  | _ => True

theorem looks_balanced {α : Type} {a : Attempt α} {s : Situation}
    (ha : ∀ B, Attempt.Within B (fun _ => True) (fun _ => True) a) (hs : Balanced s) :
    a.run.Assures .faithful Anything (fun _ => Balanced) s := by
  let looking : Scope := ⟨fun _ => True, fun _ => False, fun _ => False⟩
  have hw := (ha looking).proc
  have hall := hw.assures (K := .faithful) (J := Balanced) (fun _ _ => trivial)
    (fun _ _ _ hc => absurd hc id) (fun _ _ _ _ _ hc => absurd hc id) hs
  exact hall.mono (fun _ _ => trivial) fun _ _ h => h.2

theorem balanced (f : Facilities) {q : Request} (hq : q.Fileless) {s : Situation}
    (hs : Balanced s) : (q.proc f).Assures .faithful Anything (fun _ => Balanced) s := by
  cases q with
  | create tenant flow version => exact (Sessions.create_balanced tenant flow version hs).proc
  | find tenant id =>
    have hfind : ∀ B, Attempt.Within B (fun _ => True) (fun _ => True) (Sessions.find tenant id) :=
      fun B => by simp
    exact looks_balanced hfind hs
  | addText tenant id input text =>
    exact (Sessions.changeInputs_balanced tenant id (fun ht h => ht.addText h) hs).proc
  | add tenant id input value =>
    exact (Sessions.changeInputs_balanced tenant id
      (fun ht h => Sessions.add_trade hq (fun hv h => ht.addInput hv h) h) hs).proc
  | replace tenant id input value =>
    exact (Sessions.changeInputs_balanced tenant id
      (fun ht h => Sessions.add_trade hq (fun hv h => ht.replaceInput hv h) h) hs).proc
  | clear tenant id input =>
    exact (Sessions.changeInputs_balanced tenant id (fun ht h => ht.clearInput h) hs).proc
  | runStep tenant id step userInput withRequired =>
    exact (Sessions.runStep_balanced f tenant id step userInput withRequired hs).proc
  | run tenant id => exact (Sessions.run_balanced f tenant id hs).proc
  | report tenant id step => exact looks_balanced (fun B => Sessions.report_within tenant id step) hs
  | render tenant id template =>
    exact looks_balanced (fun B => Sessions.render_within f tenant id template) hs
  | delete tenant id => exact (Sessions.delete_balanced tenant id hs).proc
  | remove h => exact hq.elim
  | removeIf id condition => exact Sessions.removeIf_balanced id condition hs
  | sweep limit now => exact Sweep.run_balanced limit now hs

end Request

theorem Reachable.accounted {f : Facilities} {s : Story}
    (h : Reachable .faithful f Request.Fileless s) : Accounted [] s := by
  induction h with
  | opening flows logging =>
    refine ⟨Engine.sound_opening flows logging, fun h => ?_, .refl _, ?_⟩
    · exact ⟨.empty, .empty, List.nodup_nil, nofun⟩
    · exact ⟨List.nodup_nil, List.nodup_nil, nofun, fun _ h => h.elim nofun nofun, trivial⟩
  | @request s t q _ s' _ hm hq hx ih =>
    obtain ⟨b, rfl⟩ := hm
    have hstart : Balanced (Story.enter (s.flagged b)) := ih.flagged b
    exact (execution_ends hx trivial (Request.balanced f hq hstart)).2

theorem WellAsked.earlier {later earlier : List Moment} {m : Moment}
    (h : WellAsked (later ++ m :: earlier)) : ∀ file ∈ m.event.asked,
      file ∈ (storedFiles earlier).map StoredFile.id ∧ file ∉ deletedFiles earlier := by
  induction later with
  | nil => exact h.1
  | cons _ _ ih => exact ih h.2

namespace Sample

/-- A provider that numbers its files, and has no room when a number is taken. -/
def filing (past : List Moment) : (c : ProviderCall) → c.Outcome
  | .upload _ _ _ =>
    let file := s!"file-{(uploadedFiles past).length + 1}"
    if file ∈ uploadedFiles past then .error (.unavailable "full") else .ok file
  | c => echo c

theorem filing_faithful (past : List Moment) (c : ProviderCall) :
    Faithful past c (filing past c) := by
  cases c with
  | upload tenant name payload =>
    simp only [filing]
    split
    · trivial
    · next hnew => exact hnew
  | _ => trivial

def answered (q : Request) (s : Story) : Point q.Reply :=
  (q.proc facilities).ahead filing 9 s.enter

def followed (s : Story) (q : Request) : Story :=
  match answered q s with
  | (.done _, s') => s'.toStory
  | _ => s

theorem answered_execution (q : Request) (s : Story) :
    Execution .faithful (q.proc facilities, s.enter) (answered q s) := by
  have hmeets : ∀ (a : Situation) c,
      Conduct.faithful.Meets a c (filing a.past c) (a.called a.toStory c (filing a.past c)) :=
    fun a c => ⟨a.toStory, ⟨a.engine.stopping, rfl⟩, filing_faithful a.past c, rfl⟩
  exact Proc.ahead_execution filing hmeets _ 9 _

theorem reachable_followed {s : Story} {q : Request} (hq : q.Fileless)
    (hs : Reachable .faithful facilities Request.Fileless s) :
    Reachable .faithful facilities Request.Fileless (followed s q) := by
  have hx := answered_execution q s
  rw [followed]
  split
  · next hdone =>
    rw [hdone] at hx
    exact .request hs ⟨s.engine.stopping, rfl⟩ hq hx
  · exact hs

def rewritten : Story :=
  followed (followed (followed (.opening [flow] false) create)
    (.run "acme" "session-0-00000000")) (.run "acme" "session-0-00000000")

theorem reachable_rewritten : Reachable .faithful facilities Request.Fileless rewritten :=
  reachable_followed trivial <| reachable_followed trivial <| reachable_followed trivial <|
    .opening [flow] false

end Sample

/-- When no operation is in progress the provider holds those files, with their names and payloads,
that are recorded on the values of the sessions in the store, each of them on one value. No file was
deleted twice, and none that was deleted is on a value, or was in a request after that. -/
theorem files_balance {f : Facilities} {s : Story}
    (hr : Reachable .faithful f Request.Fileless s) :
    (recordedFiles s.engine).Perm (storedFiles s.past) ∧
      ((recordedFiles s.engine).map StoredFile.id).Nodup ∧
      (deletedFiles s.past).Nodup ∧
      (∀ file ∈ (recordedFiles s.engine).map StoredFile.id, file ∉ deletedFiles s.past) ∧
      ∀ later m earlier, s.past = later ++ m :: earlier → ∀ file ∈ m.event.asked,
        file ∈ (storedFiles earlier).map StoredFile.id ∧ file ∉ deletedFiles earlier := by
  have haccounted := hr.accounted
  have hfiles : (recordedFiles s.engine).Perm (storedFiles s.past) := by
    simpa using haccounted.files
  have hids := hfiles.map StoredFile.id
  refine ⟨hfiles, hids.nodup_iff.mpr haccounted.tidy.stored, haccounted.tidy.once, ?_, ?_⟩
  · intro file hf hd
    exact haccounted.tidy.apart file hd (hids.subset hf)
  · intro later m earlier hpast
    exact WellAsked.earlier (hpast ▸ haccounted.tidy.asked)

/-- The file of the first letter has made room for that of the second. -/
theorem files_balance_letter :
    (recordedFiles Sample.rewritten.engine).Perm (storedFiles Sample.rewritten.past) ∧
      storedFiles Sample.rewritten.past = [⟨"file-2", "draft", .text "yes"⟩] ∧
      deletedFiles Sample.rewritten.past = ["file-1"] := by
  obtain ⟨hfiles, -, -, -, -⟩ := files_balance Sample.reachable_rewritten
  have hstored : storedFiles Sample.rewritten.past = [⟨"file-2", "draft", .text "yes"⟩] := by
    decide +kernel
  exact ⟨hfiles, hstored, by decide +kernel⟩

end FlowEngine
