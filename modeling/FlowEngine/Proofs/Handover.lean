import FlowEngine.Proofs.Upkeep

/-! # What a step is handed

Before a step is asked about, the outputs that it redirects are put down as new values, the earlier
values of the same sources are taken out if they were uploaded, and what has no file is uploaded. An
earlier value that was not uploaded, because its upload failed, stays and is handed over as well.
-/
namespace FlowEngine

/-- What a value says, wherever it is kept. -/
def Input.content (v : Input) : String × Payload := (v.name, v.payload)

def uploads (past : List Moment) : List StoredFile := past.filterMap fun m => m.event.uploaded?

/-- The name under which an input hands on the output of a step. -/
def StepInput.useOf? (source : StepId) : StepInput → Option String
  | .flowInput _ => none
  | .redirect other useAs => if other = source then some useAs else none

/-- The output of a source as a step wraps it, once for each redirect and in their order. -/
def Step.wrappings (step : Step) (source : StepId) (output : String) : List (String × Payload) :=
  (step.inputs.filterMap (StepInput.useOf? source)).map fun useAs => (useAs, .text output)

namespace Session

/-- The values handed on from a step that were not uploaded. -/
def leftover (s : Session) (source : StepId) : List Input :=
  (s.redirected.get source.text).filter fun v => !v.isUploaded

variable {s : Session} {source : StepId}

theorem handed_wrappings {step : Step} {output : String} (ho : s.output? source = some output) :
    ((step.inputs.filterMap s.handed?).filter fun v => v.1 = source.text).map
      (fun v => v.2.content) = step.wrappings source output := by
  rw [Step.wrappings]
  induction step.inputs with
  | nil => rfl
  | cons input rest ih =>
    cases input with
    | flowInput id => exact ih
    | redirect other useAs =>
      by_cases heq : other = source
      · subst heq
        have hhanded : s.handed? (.redirect other useAs) =
            some (other.text, .ofText useAs output) := by
          rw [handed?, ho]
          rfl
        have huse : StepInput.useOf? other (.redirect other useAs) = some useAs := if_pos rfl
        rw [List.filterMap_cons_some hhanded, List.filterMap_cons_some huse,
          List.filter_cons_of_pos (by simp), List.map_cons, List.map_cons, ih]
        rfl
      · have huse : StepInput.useOf? source (.redirect other useAs) = none := if_neg heq
        rw [List.filterMap_cons_none huse, ← ih]
        cases hx : s.handed? (.redirect other useAs) with
        | none => rw [List.filterMap_cons_none hx]
        | some v =>
          obtain ⟨_, -, rfl⟩ := Option.map_eq_some_iff.mp hx
          have htext : other.text ≠ source.text := fun ht => heq (Identifier.ext_text ht)
          rw [List.filterMap_cons_some hx, List.filter_cons_of_neg (by simpa using htext)]

theorem addAllRedirected_get (s : Session) {handed : List (String × Input)}
    (hh : ∀ v ∈ handed, v.2.file = none) (key : String) : ∃ come : List Input,
      (s.addAllRedirected handed).redirected.get key = s.redirected.get key ++ come ∧
      (∀ v ∈ come, v.file = none) ∧
      come.map Input.content = (handed.filter fun v => v.1 = key).map fun v => v.2.content := by
  rw [addAllRedirected]
  induction handed generalizing s with
  | nil => exact ⟨[], by simp, List.forall_mem_nil _, rfl⟩
  | cons v rest ih =>
    obtain ⟨hfirst, hrest⟩ := List.forall_mem_cons.mp hh
    obtain ⟨come, hget, hnone, hcontent⟩ := ih (s.addRedirected v.1 v.2) hrest
    rw [List.foldl_cons, hget]
    by_cases heq : v.1 = key
    · refine ⟨(s.slotted v.2).1 :: come, ?_, List.forall_mem_cons.mpr ⟨hfirst, hnone⟩, ?_⟩
      · have hself : (s.addRedirected v.1 v.2).redirected.get key =
            s.redirected.get key ++ [(s.slotted v.2).1] := by
          rw [← heq]
          exact InputBook.get_set_self _ _ _
        rw [hself, List.append_assoc]
        rfl
      · rw [List.filter_cons_of_pos (by simpa using heq), List.map_cons, List.map_cons, hcontent]
        rfl
    · have hother : (s.addRedirected v.1 v.2).redirected.get key = s.redirected.get key :=
        InputBook.get_set_of_ne _ _ (Ne.symm heq)
      rw [hother, List.filter_cons_of_neg (by simpa using heq)]
      exact ⟨come, rfl, hnone, hcontent⟩

/-- For one key the uploaded values of a book are taken out. -/
def TakesUploaded (f : List Input × InputBook → String → List Input × InputBook) : Prop :=
  ∀ acc step, acc.2.Sorted → (f acc step).2.Sorted ∧ ∀ key, (f acc step).2.get key =
    if key = step then (acc.2.get key).filter fun v => !v.isUploaded else acc.2.get key

theorem TakesUploaded.foldl {f : List Input × InputBook → String → List Input × InputBook}
    (hf : TakesUploaded f) {steps : List String} {taken : List Input} {book : InputBook}
    (hb : book.Sorted) : (steps.foldl f (taken, book)).2.Sorted ∧
      ∀ key, (steps.foldl f (taken, book)).2.get key =
        if key ∈ steps then (book.get key).filter fun v => !v.isUploaded else book.get key := by
  induction steps generalizing taken book with
  | nil => exact ⟨hb, fun _ => rfl⟩
  | cons step rest ih =>
    obtain ⟨hsorted, hget⟩ := hf (taken, book) step hb
    obtain ⟨hsorted', hget'⟩ := @ih (f (taken, book) step).1 _ hsorted
    refine ⟨hsorted', fun key => ?_⟩
    rw [List.foldl_cons, hget', hget]
    by_cases hkey : key = step
    · simp [hkey, List.filter_filter]
    · simp [hkey]

theorem TakesUploaded.compacted {f : List Input × InputBook → String → List Input × InputBook}
    (hf : TakesUploaded f) {steps : List String} {book : InputBook} (hb : book.Sorted)
    {key : String} (hk : key ∈ steps) : (steps.foldl f ([], book)).2.compacted.get key =
      (book.get key).filter fun v => !v.isUploaded := by
  obtain ⟨hsorted, hget⟩ := hf.foldl hb
  rw [InputBook.get_compacted hsorted, hget, if_pos hk]

theorem takeUploadedRedirected_get (hr : s.redirected.Sorted) {steps : List String}
    {key : String} (hk : key ∈ steps) : (s.takeUploadedRedirected steps).2.redirected.get key =
      (s.redirected.get key).filter fun v => !v.isUploaded := by
  rw [takeUploadedRedirected]
  refine TakesUploaded.compacted ?_ hr hk
  rintro ⟨gone, book⟩ step hsorted
  dsimp only at hsorted ⊢
  split
  · next hnone =>
    have hempty : book.get step = [] := by rw [InputBook.get, hnone]; rfl
    refine ⟨hsorted, fun key => ?_⟩
    split
    · next heq => rw [heq, hempty]; rfl
    · rfl
  · next values hsome =>
    have hvalues : book.get step = values := by rw [InputBook.get, hsome]; rfl
    refine ⟨hsorted.set _ _, fun key => ?_⟩
    split
    · next heq => rw [heq, InputBook.get_set_self, hvalues]
    · next hne => exact InputBook.get_set_of_ne _ _ hne

theorem leftover_fileless (s : Session) (source : StepId) : ∀ v ∈ s.leftover source, v.file = none := by
  intro v hv
  have hpending := (List.mem_filter.mp hv).2
  simpa [Input.isUploaded] using hpending

/-- When the redirected outputs have been put down and uploaded values have been taken out, there is
for a source what was left over and what the step wraps. -/
theorem discarded_get {t : Session} {step : Step} {handed : List (String × Input)}
    (hr : t.redirected.Sorted) (ht : t.redirected = (s.addAllRedirected handed).redirected)
    (hh : s.redirects step = .ok handed) (hs : source ∈ step.sources) :
    ∃ output, s.output? source = some output ∧ ∃ come : List Input,
      (t.takeUploadedRedirected (step.sources.map Identifier.text).eraseDups).2.redirected.get
        source.text = s.leftover source ++ come ∧
      (∀ v ∈ come, v.file = none) ∧ come.map Input.content = step.wrappings source output := by
  obtain ⟨hhanded, hall⟩ := redirects_eq hh
  obtain ⟨output, houtput⟩ := Option.isSome_iff_exists.mp (hall source hs)
  obtain ⟨come, hget, hnone, hcontent⟩ :=
    s.addAllRedirected_get (redirects_fileless hh) source.text
  have hkey : source.text ∈ (step.sources.map Identifier.text).eraseDups :=
    List.mem_eraseDups.mpr (List.mem_map_of_mem hs)
  have hpending : (come.filter fun v => !v.isUploaded) = come := by
    refine List.filter_eq_self.mpr fun v hv => ?_
    simp [Input.isUploaded, hnone v hv]
  refine ⟨output, houtput, come, ?_, hnone, ?_⟩
  · rw [takeUploadedRedirected_get hr hkey, ht, hget, List.filter_append, hpending]
    rfl
  · rw [hcontent, hhanded]
    exact handed_wrappings houtput

end Session

variable {answers : List Moment → (c : ProviderCall) → c.Outcome → Prop} {tenant : String}
  {h : Handle} {s s' : Situation}

theorem redirected_revalued (hlt : h < s.engine.sessions.length) (t : Session) :
    ((s.change (.values h t)).engine.session h).redirected = t.redirected := by
  have hself := Engine.session_modifySession_self hlt fun u => u.withValues t
  exact (congrArg Session.redirected hself).trans rfl

def Scope.journal : Scope := ⟨fun _ => True, fun c => ∃ r, c = .log r, fun _ => True⟩

theorem Scope.journal_deletes (tenant : String) : journal.Deletes tenant :=
  ⟨fun r => ⟨r, rfl⟩, fun _ => trivial⟩

/-- A session has not been touched since, and what was done before is not forgotten. -/
structure Untouched (h : Handle) (s s' : Situation) : Prop where
  hosted : h < s.engine.sessions.length → h < s'.engine.sessions.length
  session : s'.engine.session h = s.engine.session h
  own : s.own ⊆ s'.own

namespace Untouched

theorem refl (h : Handle) (s : Situation) : Untouched h s s := ⟨id, rfl, fun _ hm => hm⟩

theorem log (hu : Untouched h s s') (r : LogRecord) : Untouched h s (s'.change (.log r)) := by
  refine ⟨fun hlt => ?_, ?_, fun m hm => List.mem_cons_of_mem _ (hu.own hm)⟩
  · exact Nat.lt_of_lt_of_le (hu.hosted hlt) (Engine.length_sessions_le _ _)
  · exact (Engine.session_log s'.engine r.level r.event r.message h).trans hu.session

theorem meets {s'' : Situation} (hu : Untouched h s s') {c : ProviderCall} {r : c.Outcome}
    (hm : (Conduct.solitary answers).Meets s' c r s'') : Untouched h s s'' := by
  obtain ⟨t, ⟨b, rfl⟩, -, rfl⟩ := hm
  exact ⟨hu.hosted, hu.session, fun m hm => List.mem_cons_of_mem _ (hu.own hm)⟩

theorem uploads (hu : Untouched h s s') : FlowEngine.uploads s.own ⊆ FlowEngine.uploads s'.own :=
  List.filterMap_subset _ hu.own

theorem of_within {p : Proc α} (hp : p.Within .journal fun _ => True) (s : Situation) :
    p.Assures (.solitary answers) Anything (fun _ s' => Untouched h s s') s := by
  have hall := hp.assures (K := .solitary answers) (J := Untouched h s) (fun _ _ => trivial)
    (by rintro s' _ hu ⟨r, rfl⟩; exact hu.log r) (fun _ _ _ _ hu _ hm => hu.meets hm) (refl h s)
  exact hall.mono (fun _ _ => trivial) fun _ _ h => h.2

end Untouched

namespace Session

theorem content_noteFile (slot : Nat) (file : String) (v : Input) :
    (noteFile slot file v).content = v.content := by
  rw [noteFile]
  split <;> rfl

theorem stored?_noteFile {slot : Nat} {v w : Input} (hs : v.slot = slot)
    (hw : v.content = w.content) (file : String) :
    (noteFile slot file v).stored? = some ⟨file, w.name, w.payload⟩ := by
  obtain ⟨hname, hpayload⟩ := Prod.mk.inj hw
  rw [noteFile, if_pos hs, Input.stored?, Option.map_some, hname, hpayload]

end Session

/-- Values of a session without files have got some by uploads of the operation's own, all but those
that are yet to be uploaded. -/
structure Uploading (t : Session) (h : Handle) (todo : List Input) (s : Situation) : Prop where
  hosted : h < s.engine.sessions.length
  filled : ∃ g : Input → Input, (s.engine.session h).redirected = t.redirected.map g ∧
    (∀ v, (g v).slot = v.slot ∧ (g v).content = v.content) ∧
    ∀ v ∈ t.pendingUploads, v ∈ todo ∨ ∃ file ∈ uploads s.own, (g v).stored? = some file

namespace Uploading

variable {t : Session} {todo rest : List Input} {value : Input}

theorem start (hlt : h < s.engine.sessions.length) :
    Uploading (s.engine.session h) h (s.engine.session h).pendingUploads s := by
  refine ⟨hlt, id, ?_, fun _ => ⟨rfl, rfl⟩, fun v hv => .inl hv⟩
  simp [InputBook.map]

theorem untouched (hs : Uploading t h todo s) (hu : Untouched h s s') : Uploading t h todo s' := by
  obtain ⟨g, hbook, hsame, hfiles⟩ := hs.filled
  refine ⟨hu.hosted hs.hosted, g, hu.session ▸ hbook, hsame, fun v hv => ?_⟩
  rcases hfiles v hv with htodo | ⟨file, hfile, hstored⟩
  · exact .inl htodo
  · exact .inr ⟨file, hu.uploads hfile, hstored⟩

theorem filed (ht : t.Booked) (hvalue : value ∈ t.pendingUploads)
    (hs : Uploading t h (value :: rest) s) {file : String}
    (hm : (Conduct.solitary answers).Meets s (.upload tenant value.name value.payload) (.ok file)
      s') : Uploading t h rest
        (s'.change (.values h ((s'.engine.session h).recordFile value.slot file).2)) := by
  obtain ⟨_, ⟨b, rfl⟩, -, rfl⟩ := hm
  obtain ⟨g, hbook, hsame, hfiles⟩ := hs.filled
  have hlt : h < (s.toStory.flagged b).engine.sessions.length := hs.hosted
  refine ⟨Nat.lt_of_lt_of_le hlt (Engine.length_sessions_le _ _),
    Session.noteFile value.slot file ∘ g, ?_, fun v => ?_, fun v hv => ?_⟩
  · have hnoted : ((s.engine.session h).recordFile value.slot file).2.redirected =
        (s.engine.session h).redirected.map (Session.noteFile value.slot file) := rfl
    have hafter := redirected_revalued (s := s.called (s.toStory.flagged b)
      (.upload tenant value.name value.payload) (.ok file)) hlt
      ((s.engine.session h).recordFile value.slot file).2
    refine hafter.trans (hnoted.trans ?_)
    simp [hbook, InputBook.map, Function.comp_def]
  · obtain ⟨hslot, hcontent⟩ := hsame v
    exact ⟨(Session.slot_noteFile _ _ _).trans hslot,
      (Session.content_noteFile _ _ _).trans hcontent⟩
  · obtain ⟨hslot, hcontent⟩ := hsame v
    by_cases heq : v = value
    · subst heq
      exact .inr ⟨_, List.mem_cons_self, Session.stored?_noteFile hslot hcontent file⟩
    · have hne : v.slot ≠ value.slot := by
        intro hslots
        exact heq (List.inj_on_of_nodup_map ht.pendingUploads.1 hv hvalue hslots)
      have hkept : Session.noteFile value.slot file (g v) = g v :=
        Session.noteFile_of_ne (hslot ▸ hne) file
      rcases hfiles v hv with htodo | ⟨earlier, hearlier, hstored⟩
      · rcases List.mem_cons.mp htodo with hv | hv
        · exact absurd hv heq
        · exact .inl hv
      · refine .inr ⟨earlier, List.mem_cons_of_mem _ hearlier, ?_⟩
        exact (congrArg Input.stored? hkept).trans hstored

theorem finished (hs : Uploading t h [] s) {key : String}
    (hnone : ∀ v ∈ t.redirected.get key, v.file = none) :
    ((s.engine.session h).redirected.get key).map Input.content =
      (t.redirected.get key).map Input.content ∧
    ∀ v ∈ (s.engine.session h).redirected.get key, ∃ file ∈ uploads s.own,
      v.stored? = some file := by
  obtain ⟨g, hbook, hsame, hfiles⟩ := hs.filled
  rw [hbook, InputBook.get_map]
  constructor
  · rw [List.map_map]
    exact List.map_congr_left fun v _ => (hsame v).2
  · intro w hw
    obtain ⟨v, hv, rfl⟩ := List.mem_map.mp hw
    have hvalue : v ∈ t.values := List.mem_append_right _ (InputBook.get_subset _ _ hv)
    have hpending : v ∈ t.pendingUploads :=
      List.mem_filter.mpr ⟨hvalue, by simp [Input.isUploaded, hnone v hv]⟩
    rcases hfiles v hpending with htodo | hfile
    · cases htodo
    · exact hfile

end Uploading

namespace Inputs

variable {t : Session}

theorem uploadOne_fills (ht : t.Booked) {value : Input} {rest : List Input}
    (hvalue : value ∈ t.pendingUploads) (hs : Uploading t h (value :: rest) s) :
    Attempt.Assures (.solitary answers) Anything (fun _ => Uploading t h rest)
      (fun _ _ => True) (uploadOne tenant h value) s := by
  simp only [uploadOne, Attempt.assures_bind, Attempt.assures_ask, Attempt.assures_lift,
    Proc.assures_session, Proc.assures_change]
  intro r s' hm
  refine ⟨trivial, ?_, fun _ _ => trivial⟩
  rintro file rfl
  have hfiled := hs.filed ht hvalue hm
  refine ⟨trivial, ?_⟩
  split
  · exact hfiled
  · simp only [Attempt.assures_bind, Attempt.assures_lift, Attempt.assures_pure]
    have hdeletes := deleteFile_within (Scope.journal_deletes tenant)
      (s'.engine.session h).id file
    exact (Untouched.of_within hdeletes _).imp fun _ _ hu => hfiled.untouched hu

theorem uploadAll_fills (ht : t.Booked) {todo : List Input} (htodo : todo ⊆ t.pendingUploads)
    (hs : Uploading t h todo s) : Attempt.Assures (.solitary answers) Anything
      (fun _ => Uploading t h []) (fun _ _ => True) (uploadAll tenant h todo) s := by
  induction todo generalizing s with
  | nil => exact hs
  | cons value rest ih =>
    obtain ⟨hvalue, hrest⟩ := List.cons_subset.mp htodo
    refine (uploadOne_fills ht hvalue hs).bind fun _ s' hs' => ?_
    exact (ih hrest hs').bind fun _ _ hs'' => hs''

end Inputs

/-- The outputs that a step redirects have been put down. -/
structure PutDown (before : Session) (step : Step) (h : Handle) (s : Situation) : Prop where
  kept : s.engine.WellKept
  hosted : h < s.engine.sessions.length
  handed : ∃ handed, before.redirects step = .ok handed ∧
    (s.engine.session h).redirected = (before.addAllRedirected handed).redirected

/-- Of the values of each source there are those that were left over and those that the step wraps;
none of them has a file. -/
structure Sifted (before : Session) (step : Step) (h : Handle) (s : Situation) : Prop where
  booked : (s.engine.session h).Booked
  hosted : h < s.engine.sessions.length
  sources : ∀ source ∈ step.sources, ∃ output, before.output? source = some output ∧
    ∃ come : List Input,
      (s.engine.session h).redirected.get source.text = before.leftover source ++ come ∧
      (∀ v ∈ come, v.file = none) ∧ come.map Input.content = step.wrappings source output

/-- The values of each source say the same still, and have files that were made for them. -/
structure Ready (before : Session) (step : Step) (h : Handle) (s : Situation) : Prop where
  handed : ∀ source ∈ step.sources, ∃ output, before.output? source = some output ∧
    ((s.engine.session h).redirected.get source.text).map Input.content =
      (before.leftover source).map Input.content ++ step.wrappings source output
  uploaded : ∀ source ∈ step.sources, ∀ v ∈ (s.engine.session h).redirected.get source.text,
    ∃ file ∈ uploads s.own, v.stored? = some file

namespace Inputs

variable {before : Session} {step : Step}

theorem resolveRedirects_puts (hk : s.engine.WellKept) (hlt : h < s.engine.sessions.length) :
    Attempt.Assures (.solitary answers) Anything
      (fun _ => PutDown (s.engine.session h) step h) (fun _ _ => True)
      (resolveRedirects h step) s := by
  simp only [resolveRedirects, Attempt.assures_bind, Attempt.assures_lift, Proc.assures_session,
    Attempt.assures_ofExcept, Proc.assures_change]
  refine ⟨fun handed hr => ⟨trivial, ?_⟩, fun _ _ => trivial⟩
  obtain ⟨_, -, hturn⟩ := (hk.booked h).addedAllRedirected (Session.redirects_fileless hr)
  refine ⟨hk.revalued h (hturn.booked (hk.booked h)), ?_, handed, hr, redirected_revalued hlt _⟩
  exact Nat.lt_of_lt_of_le hlt (Engine.length_sessions_le _ _)

theorem discardStale_sifts (hs : PutDown before step h s) :
    (discardStale tenant h step).Assures (.solitary answers) Anything
      (fun _ => Sifted before step h) s := by
  simp only [discardStale, Proc.assures_bind', Proc.assures_session, Proc.assures_change]
  refine ⟨trivial, ?_⟩
  obtain ⟨handed, hr, hbook⟩ := hs.handed
  have hbooked := hs.kept.booked h
  have hturn := hbooked.takenUploaded (step.sources.map Identifier.text).eraseDups
  generalize htaken : (s.engine.session h).takeUploadedRedirected
    (step.sources.map Identifier.text).eraseDups = taken at hturn ⊢
  have hkept := hs.kept.revalued h (hturn.booked hbooked)
  have hsifted : Sifted before step h (s.change (.values h taken.2)) := by
    refine ⟨hkept.booked h, ?_, fun source hsource => ?_⟩
    · exact Nat.lt_of_lt_of_le hs.hosted (Engine.length_sessions_le _ _)
    · rw [redirected_revalued hs.hosted, ← htaken]
      exact Session.discarded_get hbooked.redirected hbook hr hsource
  have hdeletes := deleteAll_within (Scope.journal_deletes tenant) (s.engine.session h).id
    (taken.1.filterMap Input.file)
  refine (Untouched.of_within (h := h) hdeletes _).imp fun _ s' hu => ?_
  exact ⟨hu.session ▸ hsifted.booked, hu.hosted hsifted.hosted, hu.session ▸ hsifted.sources⟩

theorem uploadMissing_readies (hs : Sifted before step h s) :
    Attempt.Assures (.solitary answers) Anything (fun _ => Ready before step h)
      (fun _ _ => True) (uploadMissing tenant h) s := by
  simp only [uploadMissing, Attempt.assures_bind, Attempt.assures_lift, Proc.assures_session]
  refine (uploadAll_fills hs.booked (List.Subset.refl _) (.start hs.hosted)).imp ?_ fun _ _ => id
  intro _ s' hs'
  constructor
  · intro source hsource
    obtain ⟨output, houtput, come, hget, hnone, hcontent⟩ := hs.sources source hsource
    have hfileless : ∀ v ∈ (s.engine.session h).redirected.get source.text, v.file = none := by
      rw [hget]
      exact List.forall_mem_append.mpr ⟨Session.leftover_fileless _ _, hnone⟩
    refine ⟨output, houtput, ?_⟩
    rw [(hs'.finished hfileless).1, hget, List.map_append, hcontent]
  · intro source hsource
    obtain ⟨output, houtput, come, hget, hnone, hcontent⟩ := hs.sources source hsource
    refine (hs'.finished ?_).2
    rw [hget]
    exact List.forall_mem_append.mpr ⟨Session.leftover_fileless _ _, hnone⟩

theorem prepare_readies (hk : s.engine.WellKept) (hlt : h < s.engine.sessions.length) :
    Attempt.Assures (.solitary answers) Anything
      (fun inUse s' => inUse = (s'.engine.session h).inUse step ∧
        Ready (s.engine.session h) step h s') (fun _ _ => True) (prepare tenant h step) s := by
  refine (resolveRedirects_puts hk hlt).bind fun _ s₁ hs₁ => ?_
  rw [Attempt.assures_bind, Attempt.assures_lift]
  refine (discardStale_sifts hs₁).imp fun _ s₂ hs₂ => ?_
  refine (uploadMissing_readies hs₂).bind fun _ s₃ hs₃ => ?_
  rw [Attempt.assures_bind, Attempt.assures_lift, Proc.assures_session, Attempt.assures_pure]
  exact ⟨rfl, hs₃⟩

end Inputs

namespace Sample

/-- A provider that has no room for the first file that it is given. -/
def balky (past : List Moment) : (c : ProviderCall) → c.Outcome
  | .upload tenant name payload =>
    let isUpload : Event → Bool
      | .call (.upload _ _ _) _ => true
      | _ => false
    if past.any fun m => isUpload m.event then filing past (.upload tenant name payload)
    else .error (.unavailable "full")
  | c => echo c

def written (answer : List Moment → (c : ProviderCall) → c.Outcome) : Machine :=
  (Machine.serve facilities answer create 0 ⟨.opening [flow] false, []⟩).serve facilities answer
    (.run "acme" "session-0-00000000") 9

theorem under_written (answer : List Moment → (c : ProviderCall) → c.Outcome) :
    (written answer).Under .lax facilities := by
  have hanswer : ∀ past c, Regime.lax.answers past c (answer past c) := fun _ _ => trivial
  have hopening : Machine.Under .lax facilities ⟨.opening [flow] false, []⟩ := .opening _ _
  have hcreated := hopening.served hanswer (q := create) trivial 0
  exact hcreated.served hanswer trivial 9

def reviewing : Step := step review [.redirect draft "draft"]

def readied (answer : List Moment → (c : ProviderCall) → c.Outcome) :
    Point (Except EngineFault InUse) :=
  (Inputs.prepare "acme" 0 reviewing).run.ahead answer 9 (written answer).story.enter

theorem readied_execution {answer : List Moment → (c : ProviderCall) → c.Outcome} {inUse : InUse}
    (hv : (readied answer).1.value? = some (.ok inUse)) :
    Execution (.solitary Conduct.anyAnswer)
      ((Inputs.prepare "acme" 0 reviewing).run, (written answer).story.enter)
      (.done (.ok inUse), (readied answer).2) :=
  Proc.ahead_ends hv

end Sample

/-- When a step has been made ready, the values of each of its sources are those that were left over
from earlier attempts, and after them the current output of the source, once for each redirect and
in their order. They all have files that were made for this. They are the output as the step wraps
it, and nothing else, if and only if nothing was left over. -/
theorem prepare_hands_over {R : Regime} {f : Facilities} {m : Machine} (hm : m.Under R f)
    (hlt : h < m.story.engine.sessions.length) {step : Step} {inUse : InUse}
    (hx : Execution (.solitary answers)
      ((Inputs.prepare tenant h step).run, m.story.enter) (.done (.ok inUse), s')) :
    inUse = (s'.engine.session h).inUse step ∧
    ∀ source ∈ step.sources, ∃ output,
      (m.story.engine.session h).output? source = some output ∧
      ((s'.engine.session h).redirected.get source.text).map Input.content =
        ((m.story.engine.session h).leftover source).map Input.content ++
          step.wrappings source output ∧
      (∀ v ∈ (s'.engine.session h).redirected.get source.text, ∃ file ∈ uploads s'.own,
        v.stored? = some file) ∧
      (((s'.engine.session h).redirected.get source.text).map Input.content =
        step.wrappings source output ↔ (m.story.engine.session h).leftover source = []) := by
  obtain ⟨hinUse, hready⟩ := (execution_ends hx trivial
    (Inputs.prepare_readies (s := m.story.enter) hm.wellKept hlt)).2
  refine ⟨hinUse, fun source hsource => ?_⟩
  obtain ⟨output, houtput, hcontent⟩ := hready.handed source hsource
  refine ⟨output, houtput, hcontent, hready.uploaded source hsource, ?_⟩
  rw [hcontent, List.append_left_eq_self, List.map_eq_nil_iff]
  rfl

/-- The letter has been written, and its draft is handed over with a new file. -/
theorem prepare_hands_over_draft : ∃ inUse s', Execution (.solitary Conduct.anyAnswer)
      ((Inputs.prepare "acme" 0 Sample.reviewing).run,
        (Sample.written Sample.filing).story.enter) (.done (.ok inUse), s') ∧
    inUse = (s'.engine.session 0).inUse Sample.reviewing ∧ inUse.files = ["file-2"] ∧
    ((s'.engine.session 0).redirected.get "draft").map Input.content =
      Sample.reviewing.wrappings Sample.draft "yes" := by
  have hvalue : (Sample.readied Sample.filing).1.value? =
      some (.ok ⟨["file-2"], "you will find draft in file(s) file-2"⟩) := by decide +kernel
  have hx := Sample.readied_execution hvalue
  obtain ⟨huse, hsources⟩ := prepare_hands_over (Sample.under_written Sample.filing)
    (by decide +kernel) hx
  obtain ⟨output, houtput, -, -, hiff⟩ := hsources Sample.draft (by decide +kernel)
  have hyes : ((Sample.written Sample.filing).story.engine.session 0).output? Sample.draft =
      some "yes" := by decide +kernel
  cases houtput.symm.trans hyes
  have hnone : ((Sample.written Sample.filing).story.engine.session 0).leftover Sample.draft =
      [] := by decide +kernel
  exact ⟨_, _, hx, huse, rfl, hiff.mpr hnone⟩

/-- After a failed upload the draft that was left over is handed over as well. -/
theorem leftover_draft_handed_over : (Sample.written Sample.balky).Under .lax Sample.facilities ∧
    (Sample.written Sample.balky).stack = [] ∧
    ∃ inUse s', Execution (.solitary Conduct.anyAnswer)
      ((Inputs.prepare "acme" 0 Sample.reviewing).run,
        (Sample.written Sample.balky).story.enter) (.done (.ok inUse), s') ∧
    inUse.files = ["file-1", "file-2"] ∧
    ((s'.engine.session 0).redirected.get "draft").map Input.content ≠
      Sample.reviewing.wrappings Sample.draft "yes" := by
  have hvalue : (Sample.readied Sample.balky).1.value? = some (.ok ⟨["file-1", "file-2"],
      "you will find draft in file(s) file-1, file-2"⟩) := by decide +kernel
  have htwice : (((Sample.readied Sample.balky).2.engine.session 0).redirected.get "draft").map
      Input.content ≠ Sample.reviewing.wrappings Sample.draft "yes" := by decide +kernel
  have hrest : (Sample.written Sample.balky).stack = [] := List.isEmpty_iff.mp (by decide +kernel)
  exact ⟨Sample.under_written Sample.balky, hrest, _, _, Sample.readied_execution hvalue, rfl,
    htwice⟩

end FlowEngine
