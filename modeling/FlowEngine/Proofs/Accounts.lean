import FlowEngine.Proofs.Files

/-! # Accounts of files

What becomes of the files that were uploaded for a session is read off the past: they are on its
values, other files took their place there, the session was released with them, or they were
deleted. An `Account` sets these against each other.
-/
namespace FlowEngine

namespace Session

variable {s t : Session} {gone come : List Input} {slot : Nat} {file : String}

/-- A value is in the books with another file, or with none. -/
def refiles (t : Session) (v : Input) : Bool :=
  t.values.any fun w => w.slot == v.slot && w.file != v.file

/-- Files that are not on their values any more, though the values are still there. -/
def overwrittenBy (s t : Session) : List String :=
  (s.values.filter t.refiles).filterMap Input.file

theorem overwrittenBy_eq_nil (h : ∀ v ∈ s.values, ∀ w ∈ t.values, w.slot = v.slot → w = v) :
    s.overwrittenBy t = [] := by
  have hnone : s.values.filter t.refiles = [] := by
    refine List.filter_eq_nil_iff.mpr fun v hv hrefiles => ?_
    obtain ⟨w, hw, hboth⟩ := List.any_eq_true.mp hrefiles
    simp only [Bool.and_eq_true, beq_iff_eq, bne_iff_ne] at hboth
    exact hboth.2 (congrArg Input.file (h v hv w hw hboth.1))
  rw [overwrittenBy, hnone]
  rfl

theorem Turnover.overwrittenBy (hs : s.Booked) (h : s.Turnover gone come t) :
    s.overwrittenBy t = [] := by
  refine overwrittenBy_eq_nil fun v hv w hw hslot => ?_
  have hmem : w ∈ come ++ s.values := h.values.subset (List.mem_append_left _ hw)
  exact List.inj_on_of_nodup_map (h.slots_nodup hs) hmem (List.mem_append_right _ hv) hslot

theorem file_noteFile (slot : Nat) (file : String) (v : Input) :
    (noteFile slot file v).file = if v.slot = slot then some file else v.file := by
  rw [noteFile]
  split <;> rfl

theorem refiles_recordFile (hs : s.Booked) (hnew : file ∉ s.files) {v : Input}
    (hv : v ∈ s.values) : (s.recordFile slot file).2.refiles v = (v.slot == slot) := by
  have hne : v.file ≠ some file := fun hf => hnew (List.mem_filterMap.mpr ⟨v, hv, hf⟩)
  rw [Bool.eq_iff_iff, refiles, values_recordFile, List.any_map, List.any_eq_true, beq_iff_eq]
  simp only [Function.comp_apply, slot_noteFile, file_noteFile, Bool.and_eq_true, beq_iff_eq,
    bne_iff_ne]
  constructor
  · rintro ⟨w, hw, hslot, hfile⟩
    have hsame : w = v := List.inj_on_of_nodup_map hs.slots hw hv hslot
    subst hsame
    by_contra hother
    rw [if_neg hother] at hfile
    exact hfile rfl
  · intro hslot
    refine ⟨v, hv, rfl, ?_⟩
    rw [if_pos hslot]
    exact hne.symm

theorem filterMap_noteFile {values : List Input} (hn : (values.map Input.slot).Nodup) :
    ((values.map (noteFile slot file)).filterMap Input.file ++
        (values.filter fun v => v.slot == slot).filterMap Input.file).Perm
      ((if values.any fun v => v.slot == slot then [file] else []) ++
        values.filterMap Input.file) := by
  induction values with
  | nil => exact .refl _
  | cons v rest ih =>
    obtain ⟨hfirst, hrest⟩ := List.nodup_cons.mp hn
    by_cases hslot : v.slot = slot
    · have hothers : ∀ w ∈ rest, w.slot ≠ slot := by
        intro w hw heq
        exact hfirst (hslot ▸ heq ▸ List.mem_map_of_mem hw)
      have hsame : rest.map (noteFile slot file) = rest :=
        (List.map_congr_left fun w hw => noteFile_of_ne (hothers w hw) file).trans (List.map_id _)
      have hnone : (rest.filter fun w => w.slot == slot) = [] :=
        List.filter_eq_nil_iff.mpr fun w hw => by simpa using hothers w hw
      have hnoted : (noteFile slot file v).file = some file := by rw [file_noteFile, if_pos hslot]
      have hany : ((v :: rest).any fun w => w.slot == slot) = true := by simp [hslot]
      rw [List.map_cons, List.filterMap_cons_some hnoted, hsame,
        List.filter_cons_of_pos (by simpa using hslot), hnone, hany]
      cases hfile : v.file <;> simp [hfile]
    · have hsame := noteFile_of_ne hslot file
      have hany : ((v :: rest).any fun w => w.slot == slot) =
          rest.any fun w => w.slot == slot := by simp [hslot]
      rw [List.map_cons, hsame, List.filter_cons_of_neg (by simpa using hslot), hany]
      cases hfile : v.file with
      | none =>
        rw [List.filterMap_cons_none hfile, List.filterMap_cons_none hfile]
        exact ih hrest
      | some f =>
        rw [List.filterMap_cons_some hfile, List.filterMap_cons_some hfile]
        exact ((ih hrest).cons f).trans List.perm_middle.symm

theorem Booked.recorded_files (hs : s.Booked) (hnew : file ∉ s.files) (slot : Nat) :
    ((s.recordFile slot file).2.files ++ s.overwrittenBy (s.recordFile slot file).2).Perm
      ((if (s.recordFile slot file).1 then [file] else []) ++ s.files) := by
  have hover : s.values.filter (s.recordFile slot file).2.refiles =
      s.values.filter fun v => v.slot == slot :=
    List.filter_congr fun v hv => refiles_recordFile hs hnew hv
  rw [files, overwrittenBy, hover, values_recordFile]
  exact filterMap_noteFile hs.slots

end Session

def Event.revalued? : Event → Option (Handle × Session)
  | .change (.values h t) => some (h, t)
  | _ => none

def Event.withdrawn? : Event → Option Handle
  | .change (.withdraw h) => some h
  | _ => none

/-- The file of an upload that came back just now. -/
def newFile? (past : List Moment) : Option String :=
  past.head?.bind fun m => m.event.uploaded?.map StoredFile.id

/-- The files that were uploaded. Each of them was to be recorded in the next moment, on a value of
the session that stands beside it. -/
def filings : List Moment → List (Handle × String)
  | [] => []
  | m :: earlier =>
    match m.event.revalued?, newFile? earlier with
    | some (h, _), some file => (h, file) :: filings earlier
    | _, _ => filings earlier

def uploadsFor (h : Handle) (past : List Moment) : List String :=
  (filings past).filterMap fun f => if f.1 = h then some f.2 else none

/-- The files of a session that are not recorded any more because another file took their place. -/
def overwrittenOn (h : Handle) (past : List Moment) : List String :=
  past.flatMap fun m => (m.event.revalued?.toList.filter fun c => c.1 = h).flatMap fun c =>
    (m.engine.session h).overwrittenBy c.2

def departures (h : Handle) (past : List Moment) : List Engine :=
  (past.filter fun m => m.event.withdrawn? = some h).map Moment.engine

/-- The files that a session had when it left the store. -/
def releasedFrom (h : Handle) (past : List Moment) : List String :=
  (departures h past).flatMap fun e => (e.session h).files

section Views

variable {m : Moment} {past : List Moment} {h k : Handle} {t : Session}

theorem newFile?_cons (hu : m.event.uploaded? = none) : newFile? (m :: past) = none := by
  rw [newFile?, List.head?_cons, Option.bind_some, hu]
  rfl

theorem filings_cons (hr : m.event.revalued? = none) : filings (m :: past) = filings past := by
  rw [filings, hr]

theorem filings_cons_of_settled (hn : newFile? past = none) :
    filings (m :: past) = filings past := by
  rw [filings, hn]
  cases m.event.revalued? <;> rfl

theorem filings_filed {file : String} (hr : m.event.revalued? = some (h, t))
    (hn : newFile? past = some file) : filings (m :: past) = (h, file) :: filings past := by
  rw [filings, hr, hn]

theorem uploadsFor_cons (hr : m.event.revalued? = none) :
    uploadsFor h (m :: past) = uploadsFor h past := by
  rw [uploadsFor, filings_cons hr, uploadsFor]

theorem uploadsFor_filed {file : String} (hr : m.event.revalued? = some (k, t))
    (hn : newFile? past = some file) : uploadsFor h (m :: past) =
      if k = h then file :: uploadsFor h past else uploadsFor h past := by
  rw [uploadsFor, filings_filed hr hn, List.filterMap_cons]
  by_cases hk : k = h
  · rw [if_pos hk, if_pos hk]
    rfl
  · rw [if_neg hk, if_neg hk]
    rfl

theorem overwrittenOn_cons (hr : m.event.revalued? = none) :
    overwrittenOn h (m :: past) = overwrittenOn h past := by
  rw [overwrittenOn, List.flatMap_cons, hr]
  rfl

theorem overwrittenOn_revalued (hr : m.event.revalued? = some (k, t)) :
    overwrittenOn h (m :: past) =
      (if k = h then (m.engine.session h).overwrittenBy t else []) ++ overwrittenOn h past := by
  rw [overwrittenOn, List.flatMap_cons, hr]
  by_cases hk : k = h <;> simp [hk, overwrittenOn]

theorem departures_cons (hw : m.event.withdrawn? = none) :
    departures h (m :: past) = departures h past := by
  rw [departures, List.filter_cons_of_neg (by simp [hw])]
  rfl

theorem releasedFrom_cons (hw : m.event.withdrawn? = none) :
    releasedFrom h (m :: past) = releasedFrom h past := by
  rw [releasedFrom, departures_cons hw, releasedFrom]

theorem departures_withdrawn (hw : m.event.withdrawn? = some k) :
    departures h (m :: past) = (if k = h then [m.engine] else []) ++ departures h past := by
  by_cases hk : k = h
  · rw [departures, List.filter_cons_of_pos (by simp [hw, hk]), if_pos hk]
    rfl
  · rw [departures, List.filter_cons_of_neg (by simp [hw, hk]), if_neg hk]
    rfl

theorem mem_uploadsFor {file : String} : file ∈ uploadsFor h past ↔ (h, file) ∈ filings past := by
  rw [uploadsFor, List.mem_filterMap]
  constructor
  · rintro ⟨⟨k, f⟩, hf, hsome⟩
    by_cases hk : k = h
    · subst hk
      simp only [if_true, Option.some.injEq] at hsome
      exact hsome ▸ hf
    · simp [hk] at hsome
  · exact fun hf => ⟨(h, file), hf, if_pos rfl⟩

end Views

/-- What is known about the files of a session: all those that were uploaded for it, those recorded
on its values, those that other files took the place of, those that it was released with, all files
that were deleted, and those of its files that are loose. -/
@[ext]
structure Account where
  uploads : List String
  held : List String
  overwritten : List String
  released : List String
  deleted : List String
  loose : List String

namespace Account

/-- Each file is somewhere, once for its upload and once more if the session was released with
it. -/
structure Balanced (a : Account) : Prop where
  held : a.held ⊆ a.uploads
  overwritten : a.overwritten ⊆ a.uploads
  released : a.released ⊆ a.uploads
  loose : a.loose ⊆ a.uploads
  distinct : (a.held ++ a.overwritten).Nodup
  apart : a.released.Nodup
  balance : ∀ file ∈ a.uploads, 1 + a.released.count file =
    (a.held ++ a.overwritten).count file + a.deleted.count file + a.loose.count file

namespace Balanced

variable {a : Account} {held gone lost loose : List String} {file : String}

theorem trade (ha : a.Balanced) (hp : (held ++ gone).Perm a.held) :
    { a with held := held, loose := gone ++ a.loose }.Balanced := by
  have hheld : held ⊆ a.held := fun f hf => hp.subset (List.mem_append_left _ hf)
  have hgone : gone ⊆ a.held := fun f hf => hp.subset (List.mem_append_right _ hf)
  refine ⟨fun f hf => ha.held (hheld hf), ha.overwritten, ha.released, ?_, ?_, ha.apart, ?_⟩
  · exact List.append_subset.mpr ⟨fun f hf => ha.held (hgone hf), ha.loose⟩
  · have hall := (hp.append_right a.overwritten).nodup_iff.mpr ha.distinct
    refine hall.sublist ?_
    exact (List.sublist_append_left held gone).append_right _
  · intro f hf
    have hcount := hp.count_eq f
    have hbalance := ha.balance f hf
    simp only [List.count_append] at hcount hbalance ⊢
    omega

theorem perm (ha : a.Balanced) (hp : a.loose.Perm loose) : { a with loose := loose }.Balanced := by
  refine ⟨ha.held, ha.overwritten, ha.released, fun f hf => ha.loose (hp.symm.subset hf),
    ha.distinct, ha.apart, fun f hf => ?_⟩
  have hcount := hp.count_eq f
  have hbalance := ha.balance f hf
  dsimp only
  omega

theorem withdraw (ha : a.Balanced) (hr : a.released = []) :
    { a with released := a.held, loose := a.held ++ a.loose }.Balanced := by
  refine ⟨ha.held, ha.overwritten, ha.held, List.append_subset.mpr ⟨ha.held, ha.loose⟩,
    ha.distinct, (List.nodup_append.mp ha.distinct).1, fun f hf => ?_⟩
  have hbalance := ha.balance f hf
  rw [hr, List.count_nil] at hbalance
  simp only [List.count_append] at hbalance ⊢
  omega

theorem delete (ha : { a with loose := file :: a.loose }.Balanced) :
    { a with deleted := file :: a.deleted }.Balanced := by
  refine ⟨ha.held, ha.overwritten, ha.released, (List.cons_subset.mp ha.loose).2, ha.distinct,
    ha.apart, fun f hf => ?_⟩
  have hbalance := ha.balance f hf
  simp only [List.count_cons] at hbalance ⊢
  omega

theorem delete_other (ha : a.Balanced) (hf : file ∉ a.uploads) :
    { a with deleted := file :: a.deleted }.Balanced := by
  refine ⟨ha.held, ha.overwritten, ha.released, ha.loose, ha.distinct, ha.apart, fun f hm => ?_⟩
  have hne : file ≠ f := by
    rintro rfl
    exact hf hm
  have hbalance := ha.balance f hm
  rw [List.count_cons_of_ne hne]
  exact hbalance

theorem filed (ha : a.Balanced) (hnew : file ∉ a.uploads) (hd : file ∉ a.deleted) (found : Bool)
    (hp : (held ++ lost).Perm ((if found then [file] else []) ++ a.held)) :
    { a with
      uploads := file :: a.uploads
      held := held
      overwritten := lost ++ a.overwritten
      loose := if found then a.loose else file :: a.loose }.Balanced := by
  have hknown : ∀ f ∈ held ++ lost, f ∈ file :: a.uploads := by
    intro f hf
    rcases List.mem_append.mp (hp.subset hf) with hf | hf
    · cases found
      · cases hf
      · exact List.mem_singleton.mp hf ▸ List.mem_cons_self
    · exact List.mem_cons_of_mem _ (ha.held hf)
  obtain ⟨hheld, hlost⟩ := List.append_subset.mp hknown
  refine ⟨hheld, ?_, fun f hf => List.mem_cons_of_mem _ (ha.released hf), ?_, ?_, ha.apart, ?_⟩
  · exact List.append_subset.mpr ⟨hlost, fun f hf => List.mem_cons_of_mem _ (ha.overwritten hf)⟩
  · cases found
    · exact List.cons_subset_cons _ ha.loose
    · exact fun f hf => List.mem_cons_of_mem _ (ha.loose hf)
  · show (held ++ (lost ++ a.overwritten)).Nodup
    rw [← List.append_assoc, (hp.append_right _).nodup_iff, List.append_assoc]
    cases found
    · exact ha.distinct
    · show (file :: (a.held ++ a.overwritten)).Nodup
      refine List.nodup_cons.mpr ⟨fun hm => ?_, ha.distinct⟩
      rcases List.mem_append.mp hm with hm | hm
      · exact hnew (ha.held hm)
      · exact hnew (ha.overwritten hm)
  · intro f hf
    have hcount := hp.count_eq f
    by_cases heq : f = file
    · subst heq
      have hheld := List.count_eq_zero_of_not_mem fun hm => hnew (ha.held hm)
      have hover := List.count_eq_zero_of_not_mem fun hm => hnew (ha.overwritten hm)
      have hreleased := List.count_eq_zero_of_not_mem fun hm => hnew (ha.released hm)
      have hloose := List.count_eq_zero_of_not_mem fun hm => hnew (ha.loose hm)
      have hdeleted := List.count_eq_zero_of_not_mem hd
      cases found <;> simp only [List.count_append, if_true, List.count_cons_self,
        List.count_nil, Bool.false_eq_true, if_false] at hcount ⊢ <;> omega
    · have hold : f ∈ a.uploads := (List.mem_cons.mp hf).resolve_left heq
      have hbalance := ha.balance f hold
      have hne : (file == f) = false := by simpa using Ne.symm heq
      cases found <;> simp only [List.count_append, if_true, List.count_cons, hne,
        List.count_nil, Bool.false_eq_true, if_false] at hcount hbalance ⊢ <;> omega

end Balanced

end Account

end FlowEngine
