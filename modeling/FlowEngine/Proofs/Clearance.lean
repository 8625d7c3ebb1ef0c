import FlowEngine.Proofs.Departures

/-! # What a sweep leaves

A sweep that nobody comes into finds the store as it was listed: what it does for one session
changes nothing that it reads for another. It leaves the sessions that have a step running or are
not stale, and deletes the files of the others, once for each value that has one. The order of the
list shows in the order of what is done and nowhere else.
-/
namespace FlowEngine

/-- A file that was asked to be deleted, and whether it was. -/
structure Deletion where
  tenant : String
  file : String
  succeeded : Bool

namespace Deletion

def request (d : Deletion) : String × String := (d.tenant, d.file)

/-- The deletion came out as the provider may answer it. -/
def Answered (answers : List Moment → (c : ProviderCall) → c.Outcome → Prop) (d : Deletion) :
    Prop :=
  ∃ past r, answers past (.delete d.tenant d.file) r ∧ d.succeeded = r.isOk

end Deletion

def Event.deletion? : Event → Option Deletion
  | .call (.delete tenant file) r => some ⟨tenant, file, r.isOk⟩
  | _ => none

def deletions (own : List Moment) : List Deletion :=
  (own.filterMap fun m => m.event.deletion?).reverse

/-- Whether a deletion fails depends on the file. -/
def FailsBy (answers : List Moment → (c : ProviderCall) → c.Outcome → Prop)
    (fails : String × String → Bool) : Prop :=
  ∀ past tenant file r, answers past (.delete tenant file) r → r.isOk = !fails (tenant, file)

namespace Engine

/-- A store has each identifier once, and the books of its sessions are in order. -/
structure Orderly (e : Engine) : Prop where
  distinct : (e.stored.map fun h => (e.session h).id).Nodup
  sorted : ∀ h ∈ e.stored, (e.session h).inputs.Sorted

def due (e : Engine) (now : Int) (listed : List Handle) : List Handle :=
  listed.filter fun h => Sweep.isDue now (e.session h)

def ownedFiles (e : Engine) (h : Handle) : List (String × String) :=
  (e.session h).files.map fun file => ((e.session h).tenant, file)

/-- The same files in the order in which the session is released. -/
def releaseOrder (e : Engine) (h : Handle) : List (String × String) :=
  ((e.session h).allInputs.values.filterMap Input.file).map fun file => ((e.session h).tenant, file)

end Engine

namespace Sweep

/-- What a sweep that was not cut short has done to the store `e`, which was listed in an order. -/
structure Cleared (now : Int) (e : Engine) (listed : List Handle) (summary : SweepSummary)
    (s : Situation) : Prop where
  sessions : s.engine.sessions = e.sessions
  stored : s.engine.stored = e.stored.filter fun h =>
    (e.session h).hasRunningStep || !(e.session h).isStale now
  examined : summary.examined = e.stored.length
  deleted : summary.deleted = (e.due now listed).map fun h => (e.session h).id
  once : summary.deleted.Nodup
  deeds : FlowEngine.deeds s.own = .change (.sweep true) ::
    (e.due now listed).flatMap (fun h => farewell (e, h)) ++ [.change (.sweep false)]
  requested : ((deletions s.own).map Deletion.request).Perm
    ((e.due now listed).flatMap e.ownedFiles)
  released : summary.releasedFiles = (deletions s.own).countP fun d => d.succeeded
  failed : summary.failedReleases = (deletions s.own).countP fun d => !d.succeeded
  total : summary.releasedFiles + summary.failedReleases =
    ((e.due now listed).flatMap e.ownedFiles).length

/-- Two sweeps have come to the same, but for the order of what they tell and did. -/
structure SameButOrder (summary summary' : SweepSummary) (s s' : Situation) : Prop where
  examined : summary.examined = summary'.examined
  deleted : summary.deleted.Perm summary'.deleted
  total : summary.releasedFiles + summary.failedReleases =
    summary'.releasedFiles + summary'.failedReleases
  sessions : s.engine.sessions = s'.engine.sessions
  stored : s.engine.stored.Perm s'.engine.stored
  requested : ((deletions s.own).map Deletion.request).Perm
    ((deletions s'.own).map Deletion.request)

end Sweep

/-! ## Deletions -/

theorem deletions_cons (m : Moment) (own : List Moment) :
    deletions (m :: own) = deletions own ++ m.event.deletion?.toList := by
  rw [deletions, deletions, List.filterMap_cons]
  cases m.event.deletion? <;> simp

variable {answers : List Moment → (c : ProviderCall) → c.Outcome → Prop}

/-- Since `s` an operation has asked for deletions, and has done nothing else but write to the
journal. -/
structure Deleted (answers : List Moment → (c : ProviderCall) → c.Outcome → Prop)
    (ds : List Deletion) (s s' : Situation) : Prop where
  passed : Passed (ds.map fun d => .call (.delete d.tenant d.file)) s s'
  sessions : s'.engine.sessions = s.engine.sessions
  stored : s'.engine.stored = s.engine.stored
  deletions : FlowEngine.deletions s'.own = FlowEngine.deletions s.own ++ ds
  answered : ∀ d ∈ ds, d.Answered answers

namespace Deleted

variable {s s' s'' : Situation} {ds ds' : List Deletion}

theorem refl (s : Situation) : Deleted answers [] s s :=
  ⟨.refl s, rfl, rfl, (List.append_nil _).symm, List.forall_mem_nil _⟩

theorem trans (h : Deleted answers ds s s') (h' : Deleted answers ds' s' s'') :
    Deleted answers (ds ++ ds') s s'' := by
  refine ⟨?_, h'.sessions.trans h.sessions, h'.stored.trans h.stored, ?_,
    List.forall_mem_append.mpr ⟨h.answered, h'.answered⟩⟩
  · rw [List.map_append]
    exact h.passed.trans h'.passed
  · rw [h'.deletions, h.deletions, List.append_assoc]

theorem log (s : Situation) (r : LogRecord) : Deleted answers [] s (s.change (.log r)) := by
  have hengine : (s.change (.log r)).engine.sessions = s.engine.sessions ∧
      (s.change (.log r)).engine.stored = s.engine.stored := by
    rw [Situation.change_engine, Change.apply, Engine.log]
    split <;> exact ⟨rfl, rfl⟩
  exact ⟨.log s r, hengine.1, hengine.2, deletions_cons _ _, List.forall_mem_nil _⟩

theorem meets {tenant file : String} {r : (ProviderCall.delete tenant file).Outcome}
    (hm : (Conduct.solitary answers).Meets s (.delete tenant file) r s') :
    Deleted answers [⟨tenant, file, r.isOk⟩] s s' := by
  have hpassed := Passed.meets (Conduct.solitary_evolving answers) hm
  obtain ⟨t, ⟨b, rfl⟩, ha, rfl⟩ := hm
  refine ⟨hpassed, rfl, rfl, deletions_cons _ _, List.forall_mem_singleton.mpr ?_⟩
  exact ⟨_, r, ha, rfl⟩

end Deleted

namespace Inputs

theorem deleteFile_deletes (tenant session file : String) (s : Situation) :
    (deleteFile tenant session file).Assures (.solitary answers) (fun _ => True)
      (fun ok s' => Deleted answers [⟨tenant, file, ok⟩] s s') s := by
  simp only [deleteFile, Proc.assures_bind', Proc.assures_ask]
  intro r s' hm
  refine ⟨trivial, ?_⟩
  cases r with
  | ok u => exact .meets hm
  | error fault =>
    simp only [Proc.assures_bind', Proc.assures_log, Proc.assures_pure]
    exact ⟨trivial, (Deleted.meets hm).trans (.log s' _)⟩

theorem releaseFiles_deletes (tenant session : String) (files : List String) (s : Situation) :
    (releaseFiles tenant session files).Assures (.solitary answers) (fun _ => True)
      (fun summary s' => ∃ ds : List Deletion,
        ds.map Deletion.request = files.map (fun file => (tenant, file)) ∧
        summary.released = ds.countP (fun d => d.succeeded) ∧
        summary.failed = ds.countP (fun d => !d.succeeded) ∧ Deleted answers ds s s') s := by
  induction files generalizing s with
  | nil => exact ⟨[], rfl, rfl, rfl, .refl s⟩
  | cons file rest ih =>
    refine (deleteFile_deletes tenant session file s).bind fun ok s₁ hs₁ => ?_
    refine (ih s₁).bind ?_
    rintro ⟨released, failed⟩ s₂ ⟨ds, hrequests, rfl, rfl, hs₂⟩
    refine ⟨⟨tenant, file, ok⟩ :: ds, ?_, ?_, ?_, hs₁.trans hs₂⟩
    · rw [List.map_cons, hrequests, List.map_cons]
      rfl
    · cases ok <;> simp
    · cases ok <;> simp

end Inputs

theorem Sessions.releaseRemoved_deletes (h : Handle) (s : Situation) :
    (releaseRemoved h).Assures (.solitary answers) (fun _ => True)
      (fun summary s' => ∃ ds : List Deletion,
        ds.map Deletion.request = s.engine.releaseOrder h ∧
        summary.released = ds.countP (fun d => d.succeeded) ∧
        summary.failed = ds.countP (fun d => !d.succeeded) ∧ Deleted answers ds s s') s := by
  simp only [releaseRemoved, Inputs.releaseSession, Proc.assures_bind', Proc.assures_session]
  refine (Inputs.releaseFiles_deletes _ _ _ s).imp ?_
  rintro summary s' ⟨ds, hrequests, hreleased, hfailed, hs'⟩
  simp only [Proc.assures_log, Proc.assures_pure]
  exact ⟨trivial, ds, hrequests, hreleased, hfailed, List.append_nil ds ▸ hs'.trans (.log s' _)⟩

/-! ## One visit -/

namespace Engine

variable {e e' : Engine} {h : Handle}

theorem session_of_sessions (hs : e'.sessions = e.sessions) (h : Handle) :
    e'.session h = e.session h := by
  rw [session, session, hs]

theorem Orderly.find?_self (he : e.Orderly) (hs : e'.sessions = e.sessions)
    (hsub : e'.stored.Sublist e.stored) (hh : h ∈ e'.stored) :
    e'.find? (e'.session h).id = some h := by
  have hdistinct : (e'.stored.map fun h => (e'.session h).id).Nodup := by
    simp only [session_of_sessions hs]
    exact he.distinct.sublist (hsub.map _)
  cases hk : e'.find? (e'.session h).id with
  | none => exact absurd rfl (find?_eq_none.mp hk h hh)
  | some k =>
    have hid : (e'.session k).id = (e'.session h).id := by simpa using List.find?_some hk
    rw [List.inj_on_of_nodup_map hdistinct (List.mem_of_find?_eq_some hk) hh hid]

theorem WellKept.orderly (hk : e.WellKept) : e.Orderly :=
  ⟨hk.sound.distinct, fun h _ => (hk.booked h).inputs⟩

theorem removeIf_found {id : String} (hfind : e.find? id = some h) (condition : Session → Bool) :
    (e.removeIf id condition).1 = if condition (e.session h) then some h else none := by
  simp only [removeIf, hfind]
  split <;> rfl

theorem releasePass_eq (e : Engine) (h : Handle) :
    releasePass e h = (e.releaseOrder h).map fun d => .call (.delete d.1 d.2) := by
  rw [releasePass, releaseOrder, List.map_map]
  rfl

end Engine

namespace Sweep

/-- A sweep of the store `e` that has visited some sessions. -/
structure Clearing (answers : List Moment → (c : ProviderCall) → c.Outcome → Prop) (now : Int)
    (e : Engine) (visited : List Handle) (summary : SweepSummary) (s : Situation) : Prop where
  sessions : s.engine.sessions = e.sessions
  stored : s.engine.stored = e.stored.filter fun h =>
    h ∉ visited ∨ isDue now (e.session h) = false
  examined : summary.examined = visited.length
  deleted : summary.deleted = (e.due now visited).map fun h => (e.session h).id
  deeds : FlowEngine.deeds s.own = .change (.sweep true) ::
    (e.due now visited).flatMap fun h => farewell (e, h)
  requested : (deletions s.own).map Deletion.request =
    (e.due now visited).flatMap e.releaseOrder
  released : summary.releasedFiles = (deletions s.own).countP fun d => d.succeeded
  failed : summary.failedReleases = (deletions s.own).countP fun d => !d.succeeded
  answered : ∀ d ∈ deletions s.own, d.Answered answers

namespace Clearing

variable {now : Int} {e : Engine} {visited : List Handle} {summary : SweepSummary}
  {s s' : Situation} {h : Handle} {ds : List Deletion}

theorem kept (hc : Clearing answers now e visited summary s)
    (hdue : isDue now (e.session h) = false) :
    Clearing answers now e (visited ++ [h])
      { summary with examined := summary.examined + 1 } s := by
  have hleave : e.due now (visited ++ [h]) = e.due now visited := by
    rw [Engine.due, List.filter_append, List.filter_singleton, hdue]
    exact List.append_nil _
  refine ⟨hc.sessions, ?_, ?_, ?_, ?_, ?_, hc.released, hc.failed, hc.answered⟩
  · rw [hc.stored]
    refine List.filter_congr fun k _ => decide_eq_decide.mpr ?_
    rw [List.mem_append, List.mem_singleton, not_or]
    refine ⟨?_, Or.imp And.left id⟩
    rintro (hk | hk)
    · by_cases heq : k = h
      · exact .inr (heq ▸ hdue)
      · exact .inl ⟨hk, heq⟩
    · exact .inr hk
  · rw [List.length_append, hc.examined]
    rfl
  · rw [hleave, hc.deleted]
  · rw [hleave, hc.deeds]
  · rw [hleave, hc.requested]

theorem removed (hc : Clearing answers now e visited summary s)
    (hdue : isDue now (e.session h) = true) (hrequests : ds.map Deletion.request = e.releaseOrder h)
    (hs' : Deleted answers ds (s.change (.withdraw h)) s') :
    Clearing answers now e (visited ++ [h])
      { summary with
        examined := summary.examined + 1
        deleted := summary.deleted ++ [(e.session h).id]
        releasedFiles := summary.releasedFiles + ds.countP fun d => d.succeeded
        failedReleases := summary.failedReleases + ds.countP fun d => !d.succeeded } s' := by
  have hleave : e.due now (visited ++ [h]) = e.due now visited ++ [h] := by
    rw [Engine.due, List.filter_append, List.filter_singleton, hdue]
    rfl
  have hdeletions : deletions s'.own = deletions s.own ++ ds := by
    rw [hs'.deletions, Situation.change_own, deletions_cons]
    exact congrArg (· ++ ds) (List.append_nil _)
  refine ⟨hs'.sessions.trans hc.sessions, ?_, ?_, ?_, ?_, ?_, ?_, ?_, ?_⟩
  · have hwithdrawn : (s.change (.withdraw h)).engine.stored =
        s.engine.stored.filter fun other => other ≠ h := rfl
    rw [hs'.stored, hwithdrawn, hc.stored, List.filter_filter]
    refine List.filter_congr fun k _ => ?_
    rw [Bool.eq_iff_iff]
    by_cases heq : k = h
    · simp [heq, hdue]
    · simp [heq]
  · rw [List.length_append, hc.examined]
    rfl
  · rw [hleave, List.map_append, hc.deleted]
    rfl
  · have hcalls : ds.map (fun d => Deed.call (.delete d.tenant d.file)) = releasePass e h := by
      rw [Engine.releasePass_eq, ← hrequests, List.map_map]
      rfl
    rw [hs'.passed.deeds, Situation.change_own, deeds_cons, hc.deeds, hcalls, hleave,
      List.flatMap_append, List.flatMap_singleton, List.append_assoc]
    rfl
  · rw [hdeletions, List.map_append, hc.requested, hrequests, hleave, List.flatMap_append,
      List.flatMap_singleton]
  · rw [hdeletions, List.countP_append, hc.released]
  · rw [hdeletions, List.countP_append, hc.failed]
  · rw [hdeletions]
    exact List.forall_mem_append.mpr ⟨hc.answered, hs'.answered⟩

end Clearing

variable {now : Int} {e : Engine} {visited : List Handle} {summary : SweepSummary}
  {s s' : Situation} {h : Handle}

theorem visit_clears (he : e.Orderly) (hc : Clearing answers now e visited summary s)
    (hmem : h ∈ e.stored) (hnew : h ∉ visited) :
    (visit now summary h).Assures (.solitary answers) (fun _ => True)
      (fun summary' s' => summary'.cutShort = summary.cutShort ∧
        Clearing answers now e (visited ++ [h]) summary' s') s := by
  have hsession := Engine.session_of_sessions hc.sessions h
  have hstored : h ∈ s.engine.stored := by
    rw [hc.stored]
    exact List.mem_filter.mpr ⟨hmem, decide_eq_true (.inl hnew)⟩
  have hfind := he.find?_self hc.sessions (hc.stored ▸ List.filter_sublist) hstored
  simp only [visit, Sessions.removeIf, Proc.assures_bind', Proc.assures_session,
    Proc.assures_engine, Engine.removeIf_found hfind]
  cases hdue : isDue now (e.session h) with
  | false =>
    rw [hsession, hdue]
    exact ⟨rfl, hc.kept hdue⟩
  | true =>
    rw [hsession, hdue]
    simp only [if_true, Proc.assures_bind', Proc.assures_change, Proc.assures_pure]
    refine ⟨trivial, (Sessions.releaseRemoved_deletes h _).imp ?_⟩
    rintro ⟨released, failed⟩ s₁ ⟨ds, hrequests, rfl, rfl, hs₁⟩
    simp only [Proc.assures_session, Proc.assures_log]
    have hsame : s₁.engine.session h = e.session h :=
      Engine.session_of_sessions (hs₁.sessions.trans hc.sessions) h
    have horder : ds.map Deletion.request = e.releaseOrder h := by
      have hleft : (s.change (.withdraw h)).engine.session h = e.session h :=
        Engine.session_of_sessions hc.sessions h
      rw [hrequests, Engine.releaseOrder, hleft, Engine.releaseOrder]
    rw [hsame]
    exact ⟨trivial, trivial, hc.removed hdue horder (List.append_nil ds ▸ hs₁.trans (.log s₁ _))⟩

theorem visitAll_clears (he : e.Orderly) (limit started : Nat) (handles : List Handle)
    (hlisted : (visited ++ handles).Perm e.stored)
    (hc : Clearing answers now e visited summary s) (hwhole : summary.cutShort = false) :
    (visitAll limit now started summary handles).Assures (.solitary answers) (fun _ => True)
      (fun summary' s' => summary'.cutShort = false →
        Clearing answers now e (visited ++ handles) summary' s') s := by
  induction handles generalizing visited summary s with
  | nil => exact fun _ => (List.append_nil visited).symm ▸ hc
  | cons h rest ih =>
    simp only [visitAll, Proc.assures_bind', Proc.assures_stopwatch]
    intro t
    split
    · rintro ⟨⟩
    · have hnew : h ∉ visited := by
        have hnodup := hlisted.nodup_iff.mpr he.distinct.of_map
        exact fun hm => (List.nodup_append.mp hnodup).2.2 h hm h List.mem_cons_self rfl
      have hmem : h ∈ e.stored := hlisted.subset (List.mem_append_right _ List.mem_cons_self)
      refine (visit_clears he hc hmem hnew).bind ?_
      rintro summary₁ s₁ ⟨hcut, hc₁⟩
      rw [List.append_cons] at hlisted ⊢
      exact ih hlisted hc₁ (hcut.trans hwhole)

theorem isDue_eq_false {t : Session} :
    isDue now t = false ↔ t.hasRunningStep = true ∨ t.isStale now = false := by
  rw [isDue, Bool.and_eq_false_iff, Bool.not_eq_false']

theorem releaseOrder_perm (he : e.Orderly) {h : Handle} (hh : h ∈ e.stored) :
    (e.releaseOrder h).Perm (e.ownedFiles h) :=
  (((he.sorted h hh).append _).2.filterMap Input.file).map _

theorem Clearing.cleared (he : e.Orderly) {listed : List Handle} (hlisted : listed.Perm e.stored)
    (hc : Clearing answers now e listed summary s) (r : LogRecord) :
    Cleared now e listed summary ((s.change (.log r)).change (.sweep false)) ∧
      deletions ((s.change (.log r)).change (.sweep false)).own = deletions s.own := by
  have hlog : Deleted answers [] s (s.change (.log r)) := .log s r
  have hdeletions :
      deletions ((s.change (.log r)).change (.sweep false)).own = deletions s.own := by
    rw [Situation.change_own, deletions_cons, hlog.deletions, List.append_nil]
    exact List.append_nil _
  have hrequested : ((deletions s.own).map Deletion.request).Perm
      ((e.due now listed).flatMap e.ownedFiles) := by
    rw [hc.requested]
    exact List.Perm.flatMap_left _ fun h hh =>
      releaseOrder_perm he (hlisted.subset (List.mem_of_mem_filter hh))
  refine ⟨⟨hlog.sessions.trans hc.sessions, ?_, hc.examined.trans hlisted.length_eq, hc.deleted, ?_,
    ?_, ?_, ?_, ?_, ?_⟩, hdeletions⟩
  · refine (hlog.stored.trans hc.stored).trans (List.filter_congr fun h hh => ?_)
    rw [Bool.eq_iff_iff, decide_eq_true_iff, isDue_eq_false, Bool.or_eq_true, Bool.not_eq_true',
      or_iff_right (not_not_intro (hlisted.mem_iff.mpr hh))]
  · rw [hc.deleted]
    exact ((hlisted.map _).nodup_iff.mpr he.distinct).sublist (List.filter_sublist.map _)
  · rw [Situation.change_own, deeds_cons, hlog.passed.deeds, hc.deeds, List.map_nil,
      List.append_nil]
    rfl
  · rw [hdeletions]
    exact hrequested
  · rw [hdeletions, hc.released]
  · rw [hdeletions, hc.failed]
  · rw [hc.released, hc.failed, ← hrequested.length_eq, List.length_map]
    simpa using (List.length_eq_countP_add_countP fun d : Deletion => d.succeeded).symm

theorem run_clears (he : e.Orderly) (hidle : e.sweeping = false) (limit : Nat) (now : Int)
    (past : List Moment) :
    (run limit now).Assures (.solitary answers) (fun _ => True)
      (fun outcome s' => ∃ summary listed, outcome = .completed summary ∧ listed.Perm e.stored ∧
        (summary.cutShort = false → Cleared now e listed summary s' ∧
          ∀ d ∈ deletions s'.own, d.Answered answers)) (Story.enter ⟨e, past⟩) := by
  have hbegun : Clearing answers now e [] blank ((Story.enter ⟨e, past⟩).change (.sweep true)) := by
    refine ⟨rfl, ?_, rfl, rfl, rfl, rfl, rfl, rfl, nofun⟩
    exact (List.filter_eq_self.mpr fun h _ => decide_eq_true (.inl List.not_mem_nil)).symm
  simp only [run, Proc.assures_bind', Proc.assures_engine]
  rw [if_neg (by simp [Story.enter, hidle])]
  simp only [Proc.assures_bind', Proc.assures_change, Proc.assures_stopwatch, Proc.assures_listed]
  refine ⟨trivial, fun t listed hlisted => ?_⟩
  have hperm : ([] ++ listed).Perm e.stored := hlisted
  refine (visitAll_clears he limit t listed hperm hbegun rfl).imp fun summary s' hall => ?_
  simp only [Proc.assures_log, Proc.assures_pure]
  refine ⟨trivial, trivial, summary, listed, rfl, hlisted, fun hwhole => ?_⟩
  obtain ⟨hcleared, hdeletions⟩ := (hall hwhole).cleared he hperm _
  exact ⟨hcleared, hdeletions ▸ (hall hwhole).answered⟩

/-! ## Sweeps of the same store in another order -/

theorem Cleared.sameButOrder {stored listed listed' : List Handle} {summary' : SweepSummary}
    (hstored : stored.Perm e.stored) (hlisted : listed.Perm e.stored) (hlisted' : listed'.Perm stored)
    (hc : Cleared now e listed summary s)
    (hc' : Cleared now { e with stored := stored } listed' summary' s') :
    SameButOrder summary summary' s s' := by
  have hdue : (Engine.due { e with stored := stored } now listed').Perm (e.due now listed) :=
    ((hlisted'.trans hstored).trans hlisted.symm).filter _
  refine ⟨?_, ?_, ?_, hc.sessions.trans hc'.sessions.symm, ?_, ?_⟩
  · rw [hc.examined, hc'.examined]
    exact hstored.length_eq.symm
  · rw [hc.deleted, hc'.deleted]
    exact (hdue.map fun h => (e.session h).id).symm
  · rw [hc.total, hc'.total]
    exact (hdue.flatMap_right e.ownedFiles).length_eq.symm
  · rw [hc.stored, hc'.stored]
    exact (hstored.filter _).symm
  · exact hc.requested.trans ((hdue.flatMap_right e.ownedFiles).symm.trans hc'.requested.symm)

theorem count_failed {fails : String × String → Bool} (hf : FailsBy answers fails)
    {ds : List Deletion} (ha : ∀ d ∈ ds, d.Answered answers) :
    ds.countP (fun d => d.succeeded) = (ds.map Deletion.request).countP (fun p => !fails p) ∧
      ds.countP (fun d => !d.succeeded) = (ds.map Deletion.request).countP fails := by
  have hsucceeded : ∀ d ∈ ds, d.succeeded = !fails d.request := by
    intro d hd
    obtain ⟨past, r, hr, hd⟩ := ha d hd
    rw [hd, hf past d.tenant d.file r hr]
    rfl
  rw [List.countP_map, List.countP_map]
  constructor
  · exact List.countP_congr fun d hd => by rw [hsucceeded d hd]; rfl
  · exact List.countP_congr fun d hd => by rw [hsucceeded d hd, Bool.not_not]; rfl

end Sweep

/-- A sweep that nobody comes into leaves the sessions that have a step running or are not stale, as
they are. It deletes the files of the others for their tenants, and tells how many there were and of
how many the deletion has failed. In whichever order the sessions are listed, the sweep comes to the
same; if a failure depends on the file, so do the failures. -/
theorem sweep_clears_store {e : Engine} (he : e.Orderly) (hidle : e.sweeping = false) {limit : Nat}
    {now : Int} {past : List Moment} {outcome : SweepOutcome} {s : Situation}
    (hx : Execution (.solitary answers) (Sweep.run limit now, Story.enter ⟨e, past⟩)
      (.done outcome, s)) :
    ∃ summary, outcome = .completed summary ∧ (summary.cutShort = false →
      (∃ listed, listed.Perm e.stored ∧ Sweep.Cleared now e listed summary s) ∧
      ∀ {stored limit' past' summary' s'}, stored.Perm e.stored →
        Execution (.solitary answers)
          (Sweep.run limit' now, Story.enter ⟨{ e with stored := stored }, past'⟩)
          (.done (.completed summary'), s') →
        summary'.cutShort = false →
        Sweep.SameButOrder summary summary' s s' ∧
        ∀ {fails}, FailsBy answers fails → summary.releasedFiles = summary'.releasedFiles ∧
          summary.failedReleases = summary'.failedReleases) := by
  obtain ⟨-, summary, listed, rfl, hlisted, hwhole⟩ := execution_ends hx trivial
    (Sweep.run_clears he hidle limit now past)
  refine ⟨summary, rfl, fun hcut => ?_⟩
  obtain ⟨hcleared, hanswered⟩ := hwhole hcut
  refine ⟨⟨listed, hlisted, hcleared⟩, fun {stored _ past' _ _} hstored hx' hcut' => ?_⟩
  have he' : Engine.Orderly { e with stored := stored } :=
    ⟨(hstored.map _).nodup_iff.mpr he.distinct, fun h hh => he.sorted h (hstored.subset hh)⟩
  obtain ⟨-, _, listed', ⟨⟩, hlisted', hwhole'⟩ := execution_ends hx' trivial
    (Sweep.run_clears he' hidle _ now past')
  obtain ⟨hcleared', hanswered'⟩ := hwhole' hcut'
  have hsame := hcleared.sameButOrder hstored hlisted hlisted' hcleared'
  refine ⟨hsame, fun {fails} hf => ?_⟩
  obtain ⟨hreleased, hfailed⟩ := Sweep.count_failed hf hanswered
  obtain ⟨hreleased', hfailed'⟩ := Sweep.count_failed hf hanswered'
  rw [hcleared.released, hcleared'.released, hcleared.failed, hcleared'.failed, hreleased, hfailed,
    hreleased', hfailed', hsame.requested.countP_eq, hsame.requested.countP_eq]
  exact ⟨rfl, rfl⟩

namespace Sample

/-- A letter that nobody has worked on for two hours. A place was supplied and a draft handed on. -/
def forgotten : Session :=
  { session with
    inputs := ⟨[("place", [⟨"place", .text "here", some "file-1", 1⟩])]⟩
    redirected := ⟨[("draft", [⟨"draft", .text "yes", some "file-2", 2⟩])]⟩ }

def underway : Session := { session with id := "letter-2" }.modifyRecord 0 fun r => r.begin 1

def recent : Session :=
  { session with id := "letter-3" }.modifyRecord 0 fun r => r.finish ⟨"yes", none, none⟩ 1 7000

/-- The three letters, listed in the given order. -/
def letters (listed : List Handle) : Engine :=
  { Engine.empty with
    sessions := [forgotten, underway, recent], stored := listed, logging := false }

def clinging : (c : ProviderCall) → c.Outcome
  | .delete _ file => if file = "file-2" then .error (.unavailable "down") else .ok ()
  | c => echo c

def clings (_ : List Moment) (c : ProviderCall) (r : c.Outcome) : Prop := r = clinging c

def sweptLetters (listed : List Handle) : Point SweepOutcome :=
  (Sweep.run 0 7200).ahead (fun _ => clinging) 2 (Story.enter ⟨letters listed, []⟩)

theorem letters_swept (listed : List Handle) {outcome : SweepOutcome}
    (h : (sweptLetters listed).1.value? = some outcome) :
    Execution (.solitary clings) (Sweep.run 0 7200, Story.enter ⟨letters listed, []⟩)
      (.done outcome, (sweptLetters listed).2) := by
  have hmeets : ∀ (s : Situation) c, (Conduct.solitary clings).Meets s c (clinging c)
      (s.called s.toStory c (clinging c)) :=
    fun s c => ⟨s.toStory, ⟨s.engine.stopping, rfl⟩, rfl, rfl⟩
  exact Proc.eq_done h ▸ Proc.ahead_execution (fun _ => clinging) hmeets (Sweep.run 0 7200) 2 _

/-- Of the three letters one is gone, and one of its two files is still there. -/
def lettersSummary : SweepSummary := ⟨3, ["letter-1"], 1, 1, false⟩

theorem letters_orderly : (letters [0, 1, 2]).Orderly := by
  refine ⟨by decide +kernel, fun h hh => ?_⟩
  obtain rfl | rfl | rfl : h = 0 ∨ h = 1 ∨ h = 2 := by simpa [letters] using hh
  · exact List.pairwise_singleton _ _
  · exact List.Pairwise.nil
  · exact List.Pairwise.nil

end Sample

theorem sweep_clears_letters :
    (Sample.letters [0, 1, 2]).Orderly ∧ (Sample.letters [0, 1, 2]).sweeping = false ∧
    Execution (.solitary Sample.clings)
      (Sweep.run 0 7200, Story.enter ⟨Sample.letters [0, 1, 2], []⟩)
      (.done (.completed Sample.lettersSummary), (Sample.sweptLetters [0, 1, 2]).2) ∧
    (∃ listed, listed.Perm [0, 1, 2] ∧
      Sweep.Cleared 7200 (Sample.letters [0, 1, 2]) listed Sample.lettersSummary
        (Sample.sweptLetters [0, 1, 2]).2) ∧
    Sweep.SameButOrder Sample.lettersSummary Sample.lettersSummary
      (Sample.sweptLetters [0, 1, 2]).2 (Sample.sweptLetters [2, 1, 0]).2 ∧
    FailsBy Sample.clings fun p => p.2 == "file-2" := by
  have hx : Execution (.solitary Sample.clings)
      (Sweep.run 0 7200, Story.enter ⟨Sample.letters [0, 1, 2], []⟩)
      (.done (.completed Sample.lettersSummary), (Sample.sweptLetters [0, 1, 2]).2) :=
    Sample.letters_swept [0, 1, 2] (by decide +kernel)
  have hx' : Execution (.solitary Sample.clings)
      (Sweep.run 0 7200, Story.enter ⟨Sample.letters [2, 1, 0], []⟩)
      (.done (.completed Sample.lettersSummary), (Sample.sweptLetters [2, 1, 0]).2) :=
    Sample.letters_swept [2, 1, 0] (by decide +kernel)
  have hfails : FailsBy Sample.clings fun p => p.2 == "file-2" := by
    rintro past tenant file r rfl
    by_cases hfile : file = "file-2"
    · rw [hfile]
      rfl
    · have hother : (file == "file-2") = false := beq_eq_false_iff_ne.mpr hfile
      simp only [Sample.clinging, if_neg hfile, hother]
      rfl
  obtain ⟨_, ⟨⟩, hall⟩ := sweep_clears_store Sample.letters_orderly rfl hx
  obtain ⟨hcleared, hany⟩ := hall rfl
  exact ⟨Sample.letters_orderly, rfl, hx, hcleared, (hany (by decide) hx' rfl).1, hfails⟩

end FlowEngine
