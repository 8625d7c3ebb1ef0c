import FlowEngine.Proofs.Books
import FlowEngine.Proofs.Reachable

/-! # Files at the provider

What the provider holds is what was uploaded and not deleted. In `Accounted` the files that it
holds are those recorded on the values of the sessions in the store, and some loose ones, which an
operation has yet to record or to delete.
-/
namespace FlowEngine

def Event.uploaded? : Event → Option StoredFile
  | .call (.upload _ name payload) (.ok file) => some ⟨file, name, payload⟩
  | _ => none

def Event.deleted? : Event → Option String
  | .call (.delete _ file) _ => some file
  | _ => none

def Event.asked : Event → List String
  | .call c _ => (c.request?.map ProviderRequest.files).getD []
  | .change _ => []

def uploadedFiles (past : List Moment) : List String :=
  past.filterMap fun m => m.event.uploaded?.map StoredFile.id

def deletedFiles (past : List Moment) : List String :=
  past.filterMap fun m => m.event.deleted?

/-- The files that the provider holds after what has happened, the last moment first. -/
def storedFiles : List Moment → List StoredFile
  | [] => []
  | m :: earlier =>
    match m.event with
    | .call (.upload _ name payload) (.ok file) => ⟨file, name, payload⟩ :: storedFiles earlier
    | .call (.delete _ file) (.ok _) => (storedFiles earlier).filter fun stored => stored.id ≠ file
    | _ => storedFiles earlier

section Views

variable {m : Moment} (past : List Moment)

theorem uploadedFiles_cons (hu : m.event.uploaded? = none) :
    uploadedFiles (m :: past) = uploadedFiles past := by
  rw [uploadedFiles, List.filterMap_cons_none (by rw [hu]; rfl)]
  rfl

theorem deletedFiles_cons (hd : m.event.deleted? = none) :
    deletedFiles (m :: past) = deletedFiles past := by
  rw [deletedFiles, List.filterMap_cons_none (by rw [hd])]
  rfl

theorem storedFiles_cons (hu : m.event.uploaded? = none) (hd : m.event.deleted? = none) :
    storedFiles (m :: past) = storedFiles past := by
  obtain ⟨e, event⟩ := m
  cases event with
  | change c => rfl
  | call c r =>
    cases c with
    | upload tenant name payload =>
      cases r with
      | ok file => cases hu
      | error fault => rfl
    | delete tenant file => cases hd
    | _ => rfl

end Views

/-- A provider that gives every file a new identifier and deletes what it is told to. -/
def Faithful (past : List Moment) : (c : ProviderCall) → c.Outcome → Prop
  | .upload _ _ _, .ok file => file ∉ uploadedFiles past
  | .delete _ _, .error _ => False
  | _, _ => True

/-- Targets were asked about files that the provider held at that time. -/
def WellAsked : List Moment → Prop
  | [] => True
  | m :: earlier =>
    (∀ file ∈ m.event.asked,
      file ∈ (storedFiles earlier).map StoredFile.id ∧ file ∉ deletedFiles earlier) ∧
        WellAsked earlier

/-- Files come and go once. -/
structure Tidy (past : List Moment) : Prop where
  stored : ((storedFiles past).map StoredFile.id).Nodup
  once : (deletedFiles past).Nodup
  apart : ∀ file ∈ deletedFiles past, file ∉ (storedFiles past).map StoredFile.id
  known : ∀ file, file ∈ (storedFiles past).map StoredFile.id ∨ file ∈ deletedFiles past →
    file ∈ uploadedFiles past
  asked : WellAsked past

namespace Tidy

variable {past : List Moment} {e : Engine}

theorem change (h : Tidy past) (e : Engine) (c : Change) : Tidy (⟨e, .change c⟩ :: past) :=
  ⟨h.stored, h.once, h.apart, h.known, nofun, h.asked⟩

theorem answered (h : Tidy past) {c : ProviderCall} {r : c.Outcome}
    (hu : (Event.call c r).uploaded? = none) (hd : (Event.call c r).deleted? = none)
    (ha : ∀ file ∈ (Event.call c r).asked, file ∈ (storedFiles past).map StoredFile.id) :
    storedFiles (⟨e, .call c r⟩ :: past) = storedFiles past ∧ Tidy (⟨e, .call c r⟩ :: past) := by
  have hstored := storedFiles_cons (m := ⟨e, .call c r⟩) past hu hd
  have huploaded := uploadedFiles_cons (m := ⟨e, .call c r⟩) past hu
  have hdeleted := deletedFiles_cons (m := ⟨e, .call c r⟩) past hd
  have hasked : ∀ file ∈ (Event.call c r).asked,
      file ∈ (storedFiles past).map StoredFile.id ∧ file ∉ deletedFiles past :=
    fun file hf => ⟨ha file hf, fun hd => h.apart file hd (ha file hf)⟩
  refine ⟨hstored, ?_, ?_, ?_, ?_, hasked, h.asked⟩
  · rw [hstored]
    exact h.stored
  · rw [hdeleted]
    exact h.once
  · rw [hstored, hdeleted]
    exact h.apart
  · rw [hstored, hdeleted, huploaded]
    exact h.known

theorem uploaded (h : Tidy past) {tenant name file : String} {payload : Payload}
    (hnew : file ∉ uploadedFiles past) :
    Tidy (⟨e, .call (.upload tenant name payload) (.ok file)⟩ :: past) := by
  refine ⟨?_, h.once, ?_, ?_, nofun, h.asked⟩
  · exact List.nodup_cons.mpr ⟨fun hm => hnew (h.known file (.inl hm)), h.stored⟩
  · intro f hf hm
    rcases List.mem_cons.mp hm with rfl | hm
    · exact hnew (h.known _ (.inr hf))
    · exact h.apart f hf hm
  · rintro f (hm | hm)
    · rcases List.mem_cons.mp hm with rfl | hm
      · exact List.mem_cons_self
      · exact List.mem_cons_of_mem _ (h.known f (.inl hm))
    · exact List.mem_cons_of_mem _ (h.known f (.inr hm))

theorem deleted (h : Tidy past) {tenant file : String} {u : Unit}
    (hheld : file ∈ (storedFiles past).map StoredFile.id) :
    Tidy (⟨e, .call (.delete tenant file) (.ok u)⟩ :: past) := by
  have hsub : ∀ f, f ∈ ((storedFiles past).filter fun stored => stored.id ≠ file).map
      StoredFile.id → f ∈ (storedFiles past).map StoredFile.id :=
    fun f hm => (List.filter_sublist.map StoredFile.id).subset hm
  refine ⟨?_, ?_, ?_, ?_, nofun, h.asked⟩
  · exact h.stored.sublist (List.filter_sublist.map StoredFile.id)
  · exact List.nodup_cons.mpr ⟨fun hm => h.apart file hm hheld, h.once⟩
  · intro f hf hm
    rcases List.mem_cons.mp hf with rfl | hf
    · obtain ⟨stored, hs, rfl⟩ := List.mem_map.mp hm
      simpa using (List.mem_filter.mp hs).2
    · exact h.apart f hf (hsub f hm)
  · rintro f (hm | hm)
    · exact h.known f (.inl (hsub f hm))
    · rcases List.mem_cons.mp hm with rfl | hm
      · exact h.known f (.inl hheld)
      · exact h.known f (.inr hm)

end Tidy

/-- The files recorded on the values of the sessions in the store. -/
def recordedFiles (e : Engine) : List StoredFile :=
  e.stored.flatMap fun h => filesOf (e.session h).values

/-- The provider holds what is recorded, and what is loose. -/
structure Accounted (loose : List StoredFile) (s : Story) : Prop where
  sound : s.engine.Sound
  booked : ∀ h, (s.engine.session h).Booked
  files : (recordedFiles s.engine ++ loose).Perm (storedFiles s.past)
  tidy : Tidy s.past

def Session.holdings (s : Session) : InputBook × InputBook × Nat :=
  (s.inputs, s.redirected, s.nextSlot)

theorem Session.values_of_holdings {s t : Session} (h : t.holdings = s.holdings) :
    t.values = s.values := by
  simp only [holdings, Prod.mk.injEq] at h
  rw [values, values, h.1, h.2.1]

theorem Session.Booked.of_holdings {s t : Session} (h : t.holdings = s.holdings) (hs : s.Booked) :
    t.Booked := by
  have hv := values_of_holdings h
  simp only [holdings, Prod.mk.injEq] at h
  obtain ⟨hi, hr, hn⟩ := h
  exact ⟨hi ▸ hs.inputs, hr ▸ hs.redirected, hv ▸ hs.slots, hv ▸ hn ▸ hs.below⟩

/-- Changes that are of no account to files. -/
def Change.Fileless : Change → Prop
  | .enlist _ | .withdraw _ | .values _ _ => False
  | _ => True

theorem Change.Fileless.stored {c : Change} (hc : c.Fileless) (e : Engine) :
    (c.apply e).stored = e.stored := by
  cases c with
  | enlist | withdraw | values => exact hc.elim
  | log r =>
    rw [apply, Engine.log]
    split <;> rfl
  | _ => rfl

theorem Change.Fileless.holdings {c : Change} (hc : c.Fileless) (e : Engine) (h : Handle) :
    ((c.apply e).session h).holdings = (e.session h).holdings := by
  cases c with
  | enlist | withdraw | values => exact hc.elim
  | log r => rw [apply, Engine.session_log]
  | sweep => rfl
  | _ =>
    refine Engine.session_modifySession_keeps Session.holdings ?_ e _ h
    exact fun _ => rfl

theorem Change.Fileless.newcomer {c : Change} (hc : c.Fileless) : c.newcomer? = none := by
  cases c <;> first | rfl | exact hc.elim

theorem Change.stored_enlist (e : Engine) (s : Session) :
    ((Change.enlist s).apply e).stored = e.stored ∨
      ((Change.enlist s).apply e).stored = e.stored ++ [e.nextHandle] := by
  rw [apply, Engine.store]
  split
  · exact .inl rfl
  · exact .inr rfl

structure Engine.WellKept (e : Engine) : Prop where
  sound : e.Sound
  booked : ∀ h, (e.session h).Booked

namespace Engine.WellKept

variable {e : Engine} {t : Session}

theorem opening (flows : List Flow) (logging : Bool) :
    (Story.opening flows logging).engine.WellKept :=
  ⟨sound_opening flows logging, fun _ => Session.booked_bare _ _ _ _ _⟩

theorem flagged {s : Story} (hk : s.engine.WellKept) (b : Bool) : (s.flagged b).engine.WellKept :=
  ⟨(Conduct.solitary_keeps Conduct.anyAnswer ⟨b, rfl⟩ hk.sound).1, hk.booked⟩

theorem fileless (hk : e.WellKept) {c : Change} (hc : c.Fileless) : (c.apply e).WellKept :=
  ⟨hk.sound.apply (Change.welcome_of_newcomer hc.newcomer _),
    fun h => (hk.booked h).of_holdings (hc.holdings e h)⟩

theorem withdraw (hk : e.WellKept) (h : Handle) : ((Change.withdraw h).apply e).WellKept :=
  ⟨hk.sound.apply (Change.welcome_of_newcomer rfl _), hk.booked⟩

theorem enlist (hk : e.WellKept) (hc : (Change.enlist t).Welcome e.registry) :
    ((Change.enlist t).apply e).WellKept := by
  obtain ⟨id, tenant, flow, now, -, hnew⟩ := hc t rfl
  obtain ⟨g, -, rfl⟩ := Session.new_eq hnew
  refine ⟨hk.sound.apply hc, fun h => ?_⟩
  rw [Change.session_enlist]
  split
  · exact Session.booked_bare _ _ _ _ _
  · exact hk.booked h

theorem revalued (hk : e.WellKept) (h : Handle) (ht : t.Booked) :
    ((Change.values h t).apply e).WellKept := by
  refine ⟨hk.sound.apply (Change.welcome_of_newcomer rfl _), fun k => ?_⟩
  rw [Change.apply, session_modifySession]
  split
  · have hsame : ((e.session k).withValues t).holdings = t.holdings := rfl
    exact ht.of_holdings hsame
  · exact hk.booked k

end Engine.WellKept

namespace Accounted

variable {loose loose' : List StoredFile} {s : Situation} {h : Handle} {t : Session}

theorem wellKept {s : Story} (hk : Accounted loose s) : s.engine.WellKept := ⟨hk.sound, hk.booked⟩

theorem perm {s : Story} (hk : Accounted loose s) (hp : loose.Perm loose') : Accounted loose' s :=
  ⟨hk.sound, hk.booked, (hp.symm.append_left _).trans hk.files, hk.tidy⟩

theorem flagged {s : Story} (hk : Accounted loose s) (b : Bool) : Accounted loose (s.flagged b) :=
  ⟨(hk.wellKept.flagged b).sound, hk.booked, hk.files, hk.tidy⟩

theorem stored_nodup {s : Story} (hk : Accounted loose s) : s.engine.stored.Nodup :=
  hk.sound.distinct.of_map _

theorem fileless (hk : Accounted loose s.toStory) {c : Change} (hc : c.Fileless) :
    Accounted loose (s.change c).toStory := by
  have hrecorded : recordedFiles (c.apply s.engine) = recordedFiles s.engine := by
    rw [recordedFiles, hc.stored, recordedFiles]
    refine List.flatMap_congr fun k _ => ?_
    rw [Session.values_of_holdings (hc.holdings s.engine k)]
  obtain ⟨hsound, hbooked⟩ := hk.wellKept.fileless hc
  refine ⟨hsound, hbooked, ?_, hk.tidy.change _ _⟩
  show (recordedFiles (c.apply s.engine) ++ loose).Perm (storedFiles s.past)
  rw [hrecorded]
  exact hk.files

theorem recordedFiles_split {e : Engine} (hn : e.stored.Nodup) (hh : h ∈ e.stored) :
    (recordedFiles e).Perm (filesOf (e.session h).values ++
      (e.stored.filter fun k => decide (k ≠ h)).flatMap fun k => filesOf (e.session k).values) := by
  have hothers : e.stored.erase h = e.stored.filter fun k => decide (k ≠ h) := by
    rw [hn.erase_eq_filter]
    exact List.filter_congr fun k _ => by simp [bne, beq_eq_decide]
  have hperm := (List.perm_cons_erase hh).flatMap_right fun k => filesOf (e.session k).values
  rw [hothers] at hperm
  exact hperm

theorem withdraw (hk : Accounted loose s.toStory) (hh : h ∈ s.engine.stored) :
    Accounted (filesOf (s.engine.session h).values ++ loose) (s.change (.withdraw h)).toStory := by
  refine ⟨(hk.wellKept.withdraw h).sound, hk.booked, ?_, hk.tidy.change _ _⟩
  refine List.Perm.trans ?_ hk.files
  rw [← List.append_assoc]
  refine List.Perm.append_right loose ?_
  exact List.perm_append_comm.trans (recordedFiles_split hk.stored_nodup hh).symm

theorem revalued (hk : Accounted loose s.toStory) (hh : h ∈ s.engine.stored) (ht : t.Booked)
    (hfiles : (filesOf t.values ++ loose').Perm (filesOf (s.engine.session h).values ++ loose)) :
    Accounted loose' (s.change (.values h t)).toStory := by
  have hself : (s.change (.values h t)).engine.session h = (s.engine.session h).withValues t :=
    Engine.session_modifySession_self (hk.sound.stored h hh) _
  have hothers : ∀ k, k ≠ h →
      (s.change (.values h t)).engine.session k = s.engine.session k :=
    fun k hne => Engine.session_modifySession_of_ne hne _ _
  obtain ⟨hsound, hbooked⟩ := hk.wellKept.revalued h ht
  refine ⟨hsound, hbooked, ?_, hk.tidy.change _ _⟩
  · have hafter := recordedFiles_split (e := (s.change (.values h t)).engine) hk.stored_nodup hh
    have hrest : ((s.engine.stored.filter fun k => decide (k ≠ h)).flatMap fun k =>
        filesOf ((s.change (.values h t)).engine.session k).values) =
        (s.engine.stored.filter fun k => decide (k ≠ h)).flatMap fun k =>
          filesOf (s.engine.session k).values := by
      refine List.flatMap_congr fun k hm => ?_
      rw [hothers k (by simpa using (List.mem_filter.mp hm).2)]
    have hbefore := recordedFiles_split hk.stored_nodup hh
    have hstored : (s.change (.values h t)).engine.stored = s.engine.stored := rfl
    rw [hself, hstored, hrest] at hafter
    refine (hafter.append_right loose').trans ((Session.append_swap _ _ _).trans ?_)
    refine (hfiles.append_right _).trans ((Session.append_swap _ _ _).trans ?_)
    exact (hbefore.symm.append_right loose).trans hk.files

theorem enlist (hk : Accounted loose s.toStory) (hc : (Change.enlist t).Welcome s.engine.registry) :
    Accounted loose (s.change (.enlist t)).toStory := by
  obtain ⟨-, hbooked⟩ := hk.wellKept.enlist hc
  obtain ⟨id, tenant, flow, now, -, hnew⟩ := hc t rfl
  obtain ⟨g, -, rfl⟩ := Session.new_eq hnew
  have hnone : ∀ k, k = s.engine.nextHandle →
      filesOf (((Change.enlist (.bare id tenant flow now g)).apply s.engine).session k).values =
        [] := by
    rintro k rfl
    rw [Change.session_enlist, if_pos rfl]
    rfl
  have hothers : ∀ k ∈ s.engine.stored,
      filesOf (((Change.enlist (.bare id tenant flow now g)).apply s.engine).session k).values =
        filesOf (s.engine.session k).values := by
    intro k hm
    rw [Change.session_enlist, if_neg]
    exact Nat.ne_of_lt (hk.sound.stored k hm)
  refine ⟨hk.sound.apply hc, hbooked, ?_, hk.tidy.change _ _⟩
  · have hrecorded : recordedFiles ((Change.enlist (.bare id tenant flow now g)).apply s.engine) =
        recordedFiles s.engine := by
      rw [recordedFiles]
      rcases Change.stored_enlist s.engine (.bare id tenant flow now g) with hsame | hmore
      · rw [hsame]
        exact List.flatMap_congr hothers
      · rw [hmore, List.flatMap_append, List.flatMap_congr hothers, List.flatMap_singleton,
          hnone _ rfl, List.append_nil, recordedFiles]
    show (recordedFiles (Change.apply s.engine _) ++ loose).Perm (storedFiles s.past)
    rw [hrecorded]
    exact hk.files

section Calls

variable {s : Story}

theorem file_stored (hk : Accounted loose s) {f : StoredFile} (hf : f ∈ recordedFiles s.engine ++ loose) :
    f.id ∈ (storedFiles s.past).map StoredFile.id :=
  List.mem_map_of_mem (hk.files.subset hf)

theorem answered (hk : Accounted loose s) {c : ProviderCall} {r : c.Outcome}
    (hu : (Event.call c r).uploaded? = none) (hd : (Event.call c r).deleted? = none)
    (ha : ∀ file ∈ (Event.call c r).asked, file ∈ (storedFiles s.past).map StoredFile.id) :
    Accounted loose ⟨s.engine, ⟨s.engine, .call c r⟩ :: s.past⟩ := by
  obtain ⟨hstored, htidy⟩ := hk.tidy.answered (e := s.engine) hu hd ha
  refine ⟨hk.sound, hk.booked, ?_, htidy⟩
  rw [hstored]
  exact hk.files

theorem uploaded (hk : Accounted loose s) {tenant name file : String} {payload : Payload}
    (hnew : file ∉ uploadedFiles s.past) : Accounted (⟨file, name, payload⟩ :: loose)
      ⟨s.engine, ⟨s.engine, .call (.upload tenant name payload) (.ok file)⟩ :: s.past⟩ :=
  ⟨hk.sound, hk.booked, List.perm_middle.trans (hk.files.cons _), hk.tidy.uploaded hnew⟩

theorem deleted {f : StoredFile} (hk : Accounted (f :: loose) s) {tenant : String} {u : Unit} :
    Accounted loose ⟨s.engine, ⟨s.engine, .call (.delete tenant f.id) (.ok u)⟩ :: s.past⟩ := by
  have hperm := List.perm_middle.symm.trans hk.files
  refine ⟨hk.sound, hk.booked, ?_, hk.tidy.deleted (hk.file_stored (by simp))⟩
  have hnodup := (hperm.map StoredFile.id).nodup_iff.mpr hk.tidy.stored
  obtain ⟨hfirst, -⟩ := List.nodup_cons.mp hnodup
  have hfilter := hperm.filter fun stored => decide (stored.id ≠ f.id)
  rw [List.filter_cons_of_neg (by simp), List.filter_eq_self.mpr] at hfilter
  · exact hfilter
  · intro g hg
    have hne : g.id ≠ f.id := by
      intro he
      exact hfirst (he ▸ List.mem_map_of_mem hg)
    simpa using hne

end Calls

end Accounted

end FlowEngine
