import FlowEngine.Proofs.Accounts
import FlowEngine.Proofs.Upkeep

/-! # What becomes of the files of a session

However operations are nested, each file that was uploaded for a session is accounted for: it is
recorded on a value, or it was deleted, or another file was recorded in its place. A session that
has left the store is released once, with the files that it had then.
-/
namespace FlowEngine

/-- Every file was uploaded for one session, and the provider has those that were not deleted. -/
structure Archived (past : List Moment) : Prop where
  settled : newFile? past = none
  filed : (filings past).map Prod.snd = uploadedFiles past
  fresh : (uploadedFiles past).Nodup
  deleted : deletedFiles past ⊆ uploadedFiles past
  stored : ∀ file, file ∈ (storedFiles past).map StoredFile.id ↔
    file ∈ uploadedFiles past ∧ file ∉ deletedFiles past

namespace Archived

variable {past : List Moment} {m : Moment} {h k : Handle} {file : String}

theorem uploaded (ha : Archived past) (hf : file ∈ uploadsFor h past) :
    file ∈ uploadedFiles past := by
  rw [← ha.filed]
  exact List.mem_map_of_mem (mem_uploadsFor.mp hf)

theorem owner (ha : Archived past) (hh : file ∈ uploadsFor h past)
    (hk : file ∈ uploadsFor k past) : h = k := by
  have hnodup : ((filings past).map Prod.snd).Nodup := ha.filed ▸ ha.fresh
  have hsame := List.inj_on_of_nodup_map hnodup (mem_uploadsFor.mp hh) (mem_uploadsFor.mp hk) rfl
  exact congrArg Prod.fst hsame

theorem assigned (ha : Archived past) (hf : file ∈ uploadedFiles past) :
    ∃! h, file ∈ uploadsFor h past := by
  rw [← ha.filed] at hf
  obtain ⟨⟨h, f⟩, hm, rfl⟩ := List.mem_map.mp hf
  have hmine : f ∈ uploadsFor h past := mem_uploadsFor.mpr hm
  exact ⟨h, hmine, fun k hk => ha.owner hk hmine⟩

theorem cons (ha : Archived past) (hu : m.event.uploaded? = none)
    (hd : m.event.deleted? = none) : Archived (m :: past) := by
  have huploaded := uploadedFiles_cons past hu
  have hdeleted := deletedFiles_cons past hd
  refine ⟨newFile?_cons hu, ?_, huploaded ▸ ha.fresh, ?_, ?_⟩
  · rw [filings_cons_of_settled ha.settled, huploaded]
    exact ha.filed
  · rw [huploaded, hdeleted]
    exact ha.deleted
  · rw [storedFiles_cons past hu hd, huploaded, hdeleted]
    exact ha.stored

theorem delete (ha : Archived past) (e : Engine) (tenant : String) (u : Unit)
    (hf : file ∈ uploadedFiles past) :
    Archived (⟨e, .call (.delete tenant file) (.ok u)⟩ :: past) := by
  refine ⟨rfl, ?_, ha.fresh, List.cons_subset.mpr ⟨hf, ha.deleted⟩, fun f => ?_⟩
  · rw [filings_cons rfl]
    exact ha.filed
  · have hcons : storedFiles (⟨e, .call (.delete tenant file) (.ok u)⟩ :: past) =
        (storedFiles past).filter fun stored => stored.id ≠ file := rfl
    have hmem : f ∈ ((storedFiles past).filter fun stored => stored.id ≠ file).map StoredFile.id ↔
        f ∈ (storedFiles past).map StoredFile.id ∧ f ≠ file := by
      simp only [List.mem_map, List.mem_filter, decide_eq_true_eq]
      constructor
      · rintro ⟨stored, ⟨hs, hne⟩, rfl⟩
        exact ⟨⟨stored, hs, rfl⟩, hne⟩
      · rintro ⟨⟨stored, hs, rfl⟩, hne⟩
        exact ⟨stored, ⟨hs, hne⟩, rfl⟩
    have hdeleted : f ∉ file :: deletedFiles past ↔ f ≠ file ∧ f ∉ deletedFiles past := by simp
    rw [hcons, hmem, ha.stored]
    show _ ↔ f ∈ uploadedFiles past ∧ f ∉ file :: deletedFiles past
    rw [hdeleted, and_assoc, and_comm (a := f ∉ deletedFiles past)]

theorem filing (ha : Archived past) (e e' : Engine) (t : Session) {tenant name : String}
    {payload : Payload} (hnew : file ∉ uploadedFiles past) :
    Archived (⟨e', .change (.values h t)⟩ ::
      ⟨e, .call (.upload tenant name payload) (.ok file)⟩ :: past) := by
  refine ⟨rfl, ?_, List.nodup_cons.mpr ⟨hnew, ha.fresh⟩, ?_, fun f => ?_⟩
  · rw [filings_filed (h := h) (t := t) rfl rfl, filings_cons rfl, List.map_cons, ha.filed]
    rfl
  · exact fun f hf => List.mem_cons_of_mem _ (ha.deleted hf)
  · show f ∈ file :: (storedFiles past).map StoredFile.id ↔
      f ∈ file :: uploadedFiles past ∧ f ∉ deletedFiles past
    rw [List.mem_cons, List.mem_cons, ha.stored]
    by_cases heq : f = file
    · subst heq
      simp only [true_or, true_and]
      exact ⟨fun _ hd => hnew (ha.deleted hd), fun _ => trivial⟩
    · simp [heq]

end Archived

/-- The files on the values of a session, and those whose place there others have taken. -/
def attached (h : Handle) (s : Story) : List String :=
  (s.engine.session h).files ++ overwrittenOn h s.past

def account (l : Loose) (s : Story) (h : Handle) : Account where
  uploads := uploadsFor h s.past
  held := (s.engine.session h).files
  overwritten := overwrittenOn h s.past
  released := releasedFrom h s.past
  deleted := deletedFiles s.past
  loose := l h

/-- The accounts of all sessions are balanced, and a session leaves the store once. -/
structure Ledgered (l : Loose) (s : Story) : Prop where
  kept : s.engine.WellKept
  archived : Archived s.past
  balanced : ∀ h, (account l s h).Balanced
  present : ∀ h, h ∈ s.engine.stored ∨ s.engine.sessions.length ≤ h → departures h s.past = []
  once : ∀ h, (departures h s.past).length ≤ 1

namespace Ledgered

variable {l l' : Loose} {s : Story} {h k : Handle} {e : Engine} {m : Moment}

theorem account_cons (hd : m.event.deleted? = none) (hr : m.event.revalued? = none)
    (hw : m.event.withdrawn? = none) (l : Loose) (s : Story) :
    account l ⟨e, m :: s.past⟩ h = { account l s h with held := (e.session h).files } :=
  Account.ext (uploadsFor_cons hr) rfl (overwrittenOn_cons hr) (releasedFrom_cons hw)
    (deletedFiles_cons s.past hd) rfl

theorem opening (flows : List Flow) (logging : Bool) :
    Ledgered .none (.opening flows logging) := by
  refine ⟨.opening flows logging, ⟨rfl, rfl, List.nodup_nil, nofun, ?_⟩, fun h => ?_,
    fun _ _ => rfl, fun _ => Nat.zero_le _⟩
  · exact fun _ => ⟨nofun, fun h => nomatch h.1⟩
  · exact ⟨nofun, nofun, nofun, nofun, List.nodup_nil, List.nodup_nil, nofun⟩

theorem perm (hs : Ledgered l s) (hp : ∀ h, (l h).Perm (l' h)) : Ledgered l' s :=
  ⟨hs.kept, hs.archived, fun h => (hs.balanced h).perm (hp h), hs.present, hs.once⟩

theorem flagged (hs : Ledgered l s) (b : Bool) : Ledgered l (s.flagged b) :=
  ⟨hs.kept.flagged b, hs.archived, hs.balanced, hs.present, hs.once⟩

theorem quiet (hs : Ledgered l s) (hu : m.event.uploaded? = none) (hd : m.event.deleted? = none)
    (hr : m.event.revalued? = none) (hw : m.event.withdrawn? = none) (hk : e.WellKept)
    (hfiles : ∀ h, (e.session h).files = (s.engine.session h).files)
    (hstore : ∀ h, h ∈ e.stored ∨ e.sessions.length ≤ h →
      h ∈ s.engine.stored ∨ s.engine.sessions.length ≤ h) :
    Ledgered l ⟨e, m :: s.past⟩ := by
  refine ⟨hk, hs.archived.cons hu hd, fun h => ?_, fun h hh => ?_, fun h => ?_⟩
  · rw [account_cons hd hr hw, hfiles]
    exact hs.balanced h
  · exact (departures_cons hw).trans (hs.present h (hstore h hh))
  · show (departures h (m :: s.past)).length ≤ 1
    rw [departures_cons hw]
    exact hs.once h

theorem plain (hs : Ledgered l s) {c : Change} (hc : c.Fileless) : Ledgered l (s.change c) := by
  have hviews : (Event.change c).revalued? = none ∧ (Event.change c).withdrawn? = none := by
    cases c <;> first | exact ⟨rfl, rfl⟩ | exact hc.elim
  have hfiles : ∀ h, ((c.apply s.engine).session h).files = (s.engine.session h).files :=
    fun h => congrArg (List.filterMap Input.file)
      (Session.values_of_holdings (hc.holdings s.engine h))
  refine hs.quiet rfl rfl hviews.1 hviews.2 (hs.kept.fileless hc) hfiles fun h hh => ?_
  rw [hc.stored] at hh
  have hle := Engine.length_sessions_le c s.engine
  exact hh.imp id fun hlt => Nat.le_trans hle hlt

theorem enlist (hs : Ledgered l s) {t : Session}
    (ht : (Change.enlist t).Welcome s.engine.registry) : Ledgered l (s.change (.enlist t)) := by
  refine hs.quiet rfl rfl rfl rfl (hs.kept.enlist ht) (fun h => ?_) fun h hh => ?_
  · obtain ⟨id, tenant, flow, now, -, hnew⟩ := ht t rfl
    obtain ⟨g, -, rfl⟩ := Session.new_eq hnew
    rw [Change.session_enlist]
    split
    · next heq =>
      have hle : s.engine.sessions.length ≤ h := Nat.le_of_eq heq.symm
      rw [Engine.session_of_le hle]
      rfl
    · rfl
  · have hle := Engine.length_sessions_le (.enlist t) s.engine
    rcases hh with hm | hlt
    · rcases Change.stored_enlist s.engine t with hsame | hmore
      · exact .inl (hsame ▸ hm)
      · rw [hmore, List.mem_append, List.mem_singleton] at hm
        exact hm.imp id fun heq => Nat.le_of_eq heq.symm
    · exact .inr (Nat.le_trans hle hlt)

theorem answered (hs : Ledgered l s) {c : ProviderCall} {r : c.Outcome}
    (hu : (Event.call c r).uploaded? = none) (hd : (Event.call c r).deleted? = none) :
    Ledgered l (s.called c r) :=
  hs.quiet hu hd rfl rfl hs.kept (fun _ => rfl) fun _ => id

theorem withdraw (hs : Ledgered l s) (hh : h ∈ s.engine.stored) :
    Ledgered (l.put h (s.engine.session h).files) (s.change (.withdraw h)) := by
  have hnone := hs.present h (.inl hh)
  have hdepart : ∀ k, departures k (s.change (.withdraw h)).past =
      (if h = k then [s.engine] else []) ++ departures k s.past :=
    fun k => departures_withdrawn (m := ⟨s.engine, .change (.withdraw h)⟩) rfl
  refine ⟨hs.kept.withdraw h, hs.archived.cons rfl rfl, fun k => ?_, fun k hk => ?_, fun k => ?_⟩
  · by_cases heq : h = k
    · subst heq
      have hbefore : releasedFrom h s.past = [] := by rw [releasedFrom, hnone]; rfl
      have hafter : releasedFrom h (s.change (.withdraw h)).past =
          (s.engine.session h).files := by
        rw [releasedFrom, hdepart, hnone, if_pos rfl]
        exact List.append_nil _
      have haccount : account (l.put h (s.engine.session h).files) (s.change (.withdraw h)) h =
          { account l s h with
            released := (s.engine.session h).files
            loose := (s.engine.session h).files ++ l h } :=
        Account.ext (uploadsFor_cons rfl) rfl (overwrittenOn_cons rfl) hafter rfl (if_pos rfl)
      rw [haccount]
      exact (hs.balanced h).withdraw hbefore
    · have hreleased : releasedFrom k (s.change (.withdraw h)).past = releasedFrom k s.past := by
        rw [releasedFrom, hdepart, if_neg heq, List.nil_append, releasedFrom]
      have haccount : account (l.put h (s.engine.session h).files) (s.change (.withdraw h)) k =
          account l s k :=
        Account.ext (uploadsFor_cons rfl) rfl (overwrittenOn_cons rfl) hreleased rfl
          (if_neg (Ne.symm heq))
      rw [haccount]
      exact hs.balanced k
  · rw [hdepart]
    have hne : h ≠ k := by
      rintro rfl
      rcases hk with hm | hle
      · simpa using (List.mem_filter.mp hm).2
      · exact absurd (hs.kept.sound.stored h hh) (Nat.not_lt.mpr hle)
    rw [if_neg hne]
    refine hs.present k (hk.imp (fun hm => (List.mem_filter.mp hm).1) id)
  · rw [hdepart]
    by_cases heq : h = k
    · rw [if_pos heq, ← heq, hnone]
      exact Nat.le_refl 1
    · rw [if_neg heq]
      exact hs.once k

theorem stays {c : Change} (hs : Ledgered l s) (hc : (c.apply s.engine).stored = s.engine.stored)
    (hk : k ∈ (c.apply s.engine).stored ∨ (c.apply s.engine).sessions.length ≤ k) :
    departures k s.past = [] := by
  have hle := Engine.length_sessions_le c s.engine
  rw [hc] at hk
  exact hs.present k (hk.imp id fun hlt => Nat.le_trans hle hlt)

theorem files_revalued (hlt : h < s.engine.sessions.length) (t : Session) :
    ((s.change (.values h t)).engine.session h).files = t.files := by
  have hself := Engine.session_modifySession_self hlt fun u => u.withValues t
  exact (congrArg Session.files hself).trans rfl

theorem files_revalued_of_ne (hne : k ≠ h) (t : Session) :
    ((s.change (.values h t)).engine.session k).files = (s.engine.session k).files :=
  congrArg Session.files (Engine.session_modifySession_of_ne hne _ _)

theorem revalued (hs : Ledgered l s) (hlt : h < s.engine.sessions.length)
    {gone come : List Input} {t : Session} (ht : (s.engine.session h).Turnover gone come t)
    (hcome : ∀ v ∈ come, v.file = none) :
    Ledgered (l.put h (gone.filterMap Input.file)) (s.change (.values h t)) := by
  have hbooked := hs.kept.booked h
  have huploads : ∀ k, uploadsFor k (s.change (.values h t)).past = uploadsFor k s.past := by
    intro k
    rw [uploadsFor, Story.change, filings_cons_of_settled hs.archived.settled, uploadsFor]
  have hover : ∀ k, overwrittenOn k (s.change (.values h t)).past = overwrittenOn k s.past := by
    intro k
    rw [Story.change, overwrittenOn_revalued rfl]
    by_cases heq : h = k
    · subst heq
      rw [if_pos rfl, ht.overwrittenBy hbooked, List.nil_append]
    · rw [if_neg heq, List.nil_append]
  refine ⟨hs.kept.revalued h (ht.booked hbooked), hs.archived.cons rfl rfl, fun k => ?_,
    fun k hk => (departures_cons rfl).trans (hs.stays rfl hk), fun k => ?_⟩
  · by_cases heq : k = h
    · subst heq
      have haccount : account (l.put k (gone.filterMap Input.file)) (s.change (.values k t)) k =
          { account l s k with
            held := t.files
            loose := gone.filterMap Input.file ++ l k } :=
        Account.ext (huploads k) (files_revalued hlt t) (hover k) (releasedFrom_cons rfl) rfl
          (if_pos rfl)
      have hnone : come.filterMap Input.file = [] := List.filterMap_eq_nil_iff.mpr hcome
      have hfiles := ht.files
      rw [hnone] at hfiles
      rw [haccount]
      exact (hs.balanced k).trade hfiles
    · have haccount : account (l.put h (gone.filterMap Input.file)) (s.change (.values h t)) k =
          account l s k :=
        Account.ext (huploads k) (files_revalued_of_ne heq t) (hover k) (releasedFrom_cons rfl) rfl
          (if_neg heq)
      rw [haccount]
      exact hs.balanced k
  · exact (departures_cons (h := k) (m := ⟨s.engine, .change (.values h t)⟩) rfl) ▸ hs.once k

theorem delete {tenant file : String} (u : Unit) (hs : Ledgered (l.put h [file]) s) :
    Ledgered l (s.called (.delete tenant file) (.ok u)) := by
  have hself : l.put h [file] h = file :: l h := if_pos rfl
  have hmine : file ∈ uploadsFor h s.past := by
    refine (hs.balanced h).loose ?_
    show file ∈ l.put h [file] h
    rw [hself]
    exact List.mem_cons_self
  refine ⟨hs.kept, hs.archived.delete _ _ u (hs.archived.uploaded hmine), fun k => ?_, hs.present,
    hs.once⟩
  have haccount : account l (s.called (.delete tenant file) (.ok u)) k =
      { account l s k with deleted := file :: deletedFiles s.past } := rfl
  rw [haccount]
  by_cases heq : k = h
  · subst heq
    have hloose : account (l.put k [file]) s k =
        { account l s k with loose := file :: (account l s k).loose } :=
      Account.ext rfl rfl rfl rfl rfl hself
    have hbalanced := hs.balanced k
    rw [hloose] at hbalanced
    exact hbalanced.delete
  · have hloose : account (l.put h [file]) s k = account l s k :=
      Account.ext rfl rfl rfl rfl rfl (if_neg heq)
    have hbalanced := hs.balanced k
    rw [hloose] at hbalanced
    exact hbalanced.delete_other fun hm => heq (hs.archived.owner hm hmine)

theorem filing {tenant name file : String} {payload : Payload} (slot : Nat)
    (hs : Ledgered l s) (hlt : h < s.engine.sessions.length) (hnew : file ∉ uploadedFiles s.past) :
    Ledgered (if ((s.engine.session h).recordFile slot file).1 then l else l.put h [file])
      ((s.called (.upload tenant name payload) (.ok file)).change
        (.values h ((s.engine.session h).recordFile slot file).2)) := by
  have hbooked := hs.kept.booked h
  have hunknown : ∀ k, file ∉ uploadsFor k s.past :=
    fun k hm => hnew (hs.archived.uploaded hm)
  have hrecorded := hbooked.recorded_files (fun hm => hunknown h ((hs.balanced h).held hm)) slot
  have hafter := hbooked.recorded slot file
  generalize (s.engine.session h).recordFile slot file = recorded at hrecorded hafter ⊢
  obtain ⟨found, t⟩ := recorded
  dsimp only at hrecorded hafter ⊢
  set s' := (s.called (.upload tenant name payload) (.ok file)).change (.values h t) with hs'
  have hbefore : ∀ k, uploadsFor k (s.called (.upload tenant name payload) (.ok file)).past =
      uploadsFor k s.past := fun _ => uploadsFor_cons rfl
  have huploads : ∀ k, uploadsFor k s'.past =
      if h = k then file :: uploadsFor k s.past else uploadsFor k s.past :=
    fun k => (uploadsFor_filed (t := t) rfl rfl).trans
      (congrArg (fun files => if h = k then file :: files else files) (hbefore k))
  have hover : ∀ k, overwrittenOn k s'.past =
      (if h = k then (s.engine.session k).overwrittenBy t else []) ++ overwrittenOn k s.past :=
    fun k => overwrittenOn_revalued (m := ⟨s.engine, .change (.values h t)⟩) rfl
  have hdepart : ∀ k, departures k s'.past = departures k s.past :=
    fun _ => (departures_cons rfl).trans (departures_cons rfl)
  refine ⟨hs.kept.revalued h hafter, hs.archived.filing _ _ t hnew, fun k => ?_,
    fun k hk => (hdepart k).trans (hs.stays (c := .values h t) rfl hk),
    fun k => hdepart k ▸ hs.once k⟩
  by_cases heq : k = h
  · subst heq
    have hloose : (if found then l else l.put k [file]) k =
        if found then l k else file :: l k := by
      cases found
      · exact if_pos rfl
      · rfl
    have haccount : account (if found then l else l.put k [file]) s' k =
        { account l s k with
          uploads := file :: uploadsFor k s.past
          held := t.files
          overwritten := (s.engine.session k).overwrittenBy t ++ overwrittenOn k s.past
          loose := if found then l k else file :: l k } :=
      Account.ext ((huploads k).trans (if_pos rfl))
        (files_revalued (s := s.called (.upload tenant name payload) (.ok file)) hlt t)
        ((hover k).trans (by rw [if_pos rfl])) rfl rfl hloose
    rw [haccount]
    have hkept : file ∉ deletedFiles s.past := fun hd => hnew (hs.archived.deleted hd)
    exact (hs.balanced k).filed (hunknown k) hkept found hrecorded
  · have hloose : (if found then l else l.put h [file]) k = l k := by
      cases found
      · exact if_neg heq
      · rfl
    have haccount : account (if found then l else l.put h [file]) s' k = account l s k :=
      Account.ext ((huploads k).trans (if_neg (Ne.symm heq)))
        (files_revalued_of_ne (s := s.called (.upload tenant name payload) (.ok file)) heq t)
        ((hover k).trans (by rw [if_neg (Ne.symm heq)]; rfl)) rfl rfl hloose
    rw [haccount]
    exact hs.balanced k

end Ledgered

/-- Values bring no files; the provider gives new ones, and deletes what it is told to. -/
def Regime.tended : Regime := ⟨Request.Fileless, Faithful⟩

/-- Accounts are kept balanced, except while an upload is waiting to be recorded. -/
def deposits : Upkeep where
  regime := .tended
  lenient := False
  holds := Ledgered
  between _ := True
  allowed := .inr
  opening := Ledgered.opening
  point _ := trivial
  resumed _ := .inr fun _ => trivial
  sound hs := hs.kept.sound
  booked hs := hs.kept.booked
  regardless := False.elim
  perm hp hs := hs.perm hp
  flagged b hs := hs.flagged b
  plain hc hs := hs.plain hc
  enlisted ht hs := hs.enlist ht
  withdrawn hh hs := hs.withdraw hh
  revalued hlt ht hcome hs := hs.revalued hlt ht (hcome.resolve_left id)
  answered hu hd hs := hs.answered hu hd
  deleted {_ _ _ _ _ r} ha hs :=
    match r, ha with
    | .ok u, _ => hs.delete u
    | .error _, ha => ha.elim
  uploaded _ _ := trivial
  filed slot hlt ha hs := hs.filing slot hlt ha

section Results

variable {f : Facilities} {m : Machine} {h : Handle}

theorem Machine.Under.ledgered (hm : m.Under .tended f) (hrest : m.stack = []) :
    Ledgered .none m.story :=
  Upkeep.holds_at_rest (U := deposits) hm hrest

/-- Every file was uploaded for one session. When no operation is in progress, each file that was
uploaded for a session in the store is on one of its values, or was deleted, or was overwritten:
another file took its place on the value. So no file is lost if and only if none was overwritten. -/
theorem lost_iff_overwritten (hm : m.Under .tended f) (hrest : m.stack = [])
    (hh : h ∈ m.story.engine.stored) :
    (∀ file ∈ uploadedFiles m.story.past, ∃! k, file ∈ uploadsFor k m.story.past) ∧
    (∀ file ∈ uploadsFor h m.story.past,
      (m.story.engine.session h).files.count file + (deletedFiles m.story.past).count file +
        (overwrittenOn h m.story.past).count file = 1) ∧
    ((∀ file ∈ uploadsFor h m.story.past, file ∉ deletedFiles m.story.past →
        (m.story.engine.session h).files.count file = 1) ↔
      overwrittenOn h m.story.past = []) := by
  have hs := hm.ledgered hrest
  have hbalanced := hs.balanced h
  have hreleased : releasedFrom h m.story.past = [] := by
    rw [releasedFrom, hs.present h (.inl hh)]
    rfl
  have hall : ∀ file ∈ uploadsFor h m.story.past,
      (m.story.engine.session h).files.count file + (deletedFiles m.story.past).count file +
        (overwrittenOn h m.story.past).count file = 1 := by
    intro file hf
    have hcount := hbalanced.balance file hf
    simp only [account, hreleased, Loose.none, List.count_nil, List.count_append] at hcount
    omega
  refine ⟨fun file => hs.archived.assigned, hall, fun hkept => ?_, fun hnone file hf hd => ?_⟩
  · rw [List.eq_nil_iff_forall_not_mem]
    intro file hover
    have hf : file ∈ uploadsFor h m.story.past := hbalanced.overwritten hover
    have hone := hall file hf
    have hpos := List.count_pos_iff.mpr hover
    have hundeleted : file ∉ deletedFiles m.story.past := by
      intro hd
      have hdeleted := List.count_pos_iff.mpr hd
      omega
    have hheld := hkept file hf hundeleted
    omega
  · have hone := hall file hf
    have hdeleted := List.count_eq_zero_of_not_mem hd
    rw [hnone, List.count_nil] at hone
    omega

end Results

namespace Sample

/-- The letter is being written: the run has been answered a number of times when another operation
comes in, and goes on after that. -/
def interrupted (answered : Nat) (q : Request) : Machine :=
  let m := Machine.serve facilities filing create 0 ⟨.opening [flow] false, []⟩
  let m := (m.enter facilities (.run "acme" "session-0-00000000")).advance filing answered
  ((m.serve facilities filing q 9).advance filing 9).leave

theorem under_interrupted {q : Request} (hq : q.Fileless) (answered : Nat) :
    (interrupted answered q).Under .tended facilities := by
  have hanswer : ∀ past c, Regime.tended.answers past c (filing past c) := filing_faithful
  have hopening : Machine.Under .tended facilities ⟨.opening [flow] false, []⟩ := .opening _ _
  have hcreated := hopening.served hanswer (q := create) trivial 0
  have hwaiting := (hcreated.entered (q := .run "acme" "session-0-00000000") trivial).advanced
    hanswer answered
  exact ((hwaiting.served hanswer hq 9).advanced hanswer 9).left

def redraft : Request := .runStep "acme" "session-0-00000000" "draft" none false

def removal : Request := .delete "acme" "session-0-00000000"

end Sample

/-- The draft was written anew while the review was asked about; its file is on one value. -/
theorem lost_iff_overwritten_redraft :
    (Sample.interrupted 2 Sample.redraft).stack = [] ∧
      0 ∈ (Sample.interrupted 2 Sample.redraft).story.engine.stored ∧
      uploadsFor 0 (Sample.interrupted 2 Sample.redraft).story.past = ["file-1"] ∧
      ∀ file ∈ uploadsFor 0 (Sample.interrupted 2 Sample.redraft).story.past,
        file ∉ deletedFiles (Sample.interrupted 2 Sample.redraft).story.past →
        ((Sample.interrupted 2 Sample.redraft).story.engine.session 0).files.count file = 1 := by
  have hrest : (Sample.interrupted 2 Sample.redraft).stack = [] :=
    List.isEmpty_iff.mp (by decide +kernel)
  have hstored : 0 ∈ (Sample.interrupted 2 Sample.redraft).story.engine.stored := by
    decide +kernel
  have hnone : overwrittenOn 0 (Sample.interrupted 2 Sample.redraft).story.past = [] := by
    decide +kernel
  obtain ⟨-, -, hlost⟩ := lost_iff_overwritten
    (Sample.under_interrupted (q := Sample.redraft) trivial 2) hrest hstored
  exact ⟨hrest, hstored, by decide +kernel, hlost.mpr hnone⟩

/-- The draft was written anew while it was being uploaded for the review. It was uploaded a second
time, and the first of its files is on no value, though it was not deleted. -/
theorem overlapping_uploads_lose_file :
    (Sample.interrupted 1 Sample.redraft).Under .tended Sample.facilities ∧
      (Sample.interrupted 1 Sample.redraft).stack = [] ∧
      0 ∈ (Sample.interrupted 1 Sample.redraft).story.engine.stored ∧
      "file-1" ∈ uploadsFor 0 (Sample.interrupted 1 Sample.redraft).story.past ∧
      "file-1" ∉ deletedFiles (Sample.interrupted 1 Sample.redraft).story.past ∧
      ((Sample.interrupted 1 Sample.redraft).story.engine.session 0).files = ["file-2"] := by
  have hrest : (Sample.interrupted 1 Sample.redraft).stack = [] :=
    List.isEmpty_iff.mp (by decide +kernel)
  exact ⟨Sample.under_interrupted (q := Sample.redraft) trivial 1, hrest, by decide +kernel,
    by decide +kernel, by decide +kernel, by decide +kernel⟩

section Removal

variable {f : Facilities} {m : Machine} {l : Loose} {s : Story} {h : Handle} {e : Engine}
  {file : String}

namespace Ledgered

theorem released (hs : Ledgered .none s) (he : e ∈ departures h s.past) :
    releasedFrom h s.past = (e.session h).files := by
  have hone : (departures h s.past).length = 1 :=
    Nat.le_antisymm (hs.once h) (List.length_pos_of_mem he)
  obtain ⟨x, hx⟩ := List.length_eq_one_iff.mp hone
  rw [hx] at he
  rw [releasedFrom, hx, List.flatMap_singleton, List.mem_singleton.mp he]

theorem attached_subset (hs : Ledgered l s) (h : Handle) :
    attached h s ⊆ uploadsFor h s.past :=
  List.append_subset.mpr ⟨(hs.balanced h).held, (hs.balanced h).overwritten⟩

theorem attached_nodup (hs : Ledgered l s) (h : Handle) : (attached h s).Nodup :=
  (hs.balanced h).distinct

theorem released_subset (hs : Ledgered .none s) (he : e ∈ departures h s.past) :
    (e.session h).files ⊆ uploadsFor h s.past := by
  rw [← hs.released he]
  exact (hs.balanced h).released

theorem released_nodup (hs : Ledgered .none s) (he : e ∈ departures h s.past) :
    (e.session h).files.Nodup := by
  rw [← hs.released he]
  exact (hs.balanced h).apart

/-- The provider still has a file that came after the session had left, and was told twice to delete
one that was taken out after that. -/
theorem remains_iff (hs : Ledgered .none s) (he : e ∈ departures h s.past)
    (hf : file ∈ uploadsFor h s.past) :
    (file ∈ (storedFiles s.past).map StoredFile.id ↔
      file ∈ attached h s ∧ file ∉ (e.session h).files) ∧
    (1 < (deletedFiles s.past).count file ↔
      file ∈ (e.session h).files ∧ file ∉ attached h s) := by
  have hbalance : 1 + (releasedFrom h s.past).count file =
      (attached h s).count file + (deletedFiles s.past).count file + 0 :=
    (hs.balanced h).balance file hf
  rw [hs.released he] at hbalance
  have hattached := List.nodup_iff_count_le_one.mp (hs.attached_nodup h) file
  have hreleased := List.nodup_iff_count_le_one.mp (hs.released_nodup he) file
  have hstored : file ∈ (storedFiles s.past).map StoredFile.id ↔
      (deletedFiles s.past).count file = 0 := by
    rw [hs.archived.stored, List.count_eq_zero]
    exact and_iff_right (hs.archived.uploaded hf)
  rw [hstored, ← List.count_pos_iff, ← List.count_pos_iff]
  omega

end Ledgered

/-- When a session has left the store and no operation is in progress, one of its files remains with
the provider if it was recorded after the session had left, and one was deleted twice if it was
taken out after that. So neither happens if and only if the session has had the files with which it
left the store ever since. -/
theorem removal_clean_iff (hm : m.Under .tended f) (hrest : m.stack = [])
    (he : e ∈ departures h m.story.past) :
    (∀ file ∈ uploadsFor h m.story.past,
      (file ∈ (storedFiles m.story.past).map StoredFile.id ↔
        file ∈ attached h m.story ∧ file ∉ (e.session h).files) ∧
      (1 < (deletedFiles m.story.past).count file ↔
        file ∈ (e.session h).files ∧ file ∉ attached h m.story)) ∧
    ((∀ file ∈ uploadsFor h m.story.past,
        file ∉ (storedFiles m.story.past).map StoredFile.id ∧
          (deletedFiles m.story.past).count file ≤ 1) ↔
      (attached h m.story).Perm (e.session h).files) := by
  have hs := hm.ledgered hrest
  refine ⟨fun file hf => hs.remains_iff he hf, fun hclean => ?_, fun hsame file hf => ?_⟩
  · rw [List.perm_ext_iff_of_nodup (hs.attached_nodup h) (hs.released_nodup he)]
    intro file
    by_cases hf : file ∈ uploadsFor h m.story.past
    · obtain ⟨hgone, honce⟩ := hclean file hf
      obtain ⟨hstays, htwice⟩ := hs.remains_iff he hf
      constructor
      · intro hattached
        by_contra hnot
        exact hgone (hstays.mpr ⟨hattached, hnot⟩)
      · intro hreleased
        by_contra hnot
        have hmore := htwice.mpr ⟨hreleased, hnot⟩
        omega
    · have hunattached : file ∉ attached h m.story := fun hm => hf (hs.attached_subset h hm)
      have hunreleased : file ∉ (e.session h).files := fun hm => hf (hs.released_subset he hm)
      exact iff_of_false hunattached hunreleased
  · obtain ⟨hstays, htwice⟩ := hs.remains_iff he hf
    constructor
    · intro hstored
      obtain ⟨hattached, hnot⟩ := hstays.mp hstored
      exact hnot (hsame.subset hattached)
    · by_contra hmore
      obtain ⟨hreleased, hnot⟩ := htwice.mp (Nat.not_le.mp hmore)
      exact hnot (hsame.symm.subset hreleased)

end Removal

/-- The letter was removed while its review was asked about; its file was deleted then. -/
theorem removal_clean_iff_review : ∃ e,
    e ∈ departures 0 (Sample.interrupted 2 Sample.removal).story.past ∧
    (e.session 0).files = ["file-1"] ∧ (Sample.interrupted 2 Sample.removal).stack = [] ∧
    ∀ file ∈ uploadsFor 0 (Sample.interrupted 2 Sample.removal).story.past,
      file ∉ (storedFiles (Sample.interrupted 2 Sample.removal).story.past).map StoredFile.id ∧
        (deletedFiles (Sample.interrupted 2 Sample.removal).story.past).count file ≤ 1 := by
  have hrest : (Sample.interrupted 2 Sample.removal).stack = [] :=
    List.isEmpty_iff.mp (by decide +kernel)
  have hfiles : ((departures 0 (Sample.interrupted 2 Sample.removal).story.past).map fun e =>
      (e.session 0).files) = [["file-1"]] := by decide +kernel
  obtain ⟨e, he, heq⟩ := List.mem_map.mp (hfiles ▸ List.mem_singleton_self ["file-1"])
  have hattached : attached 0 (Sample.interrupted 2 Sample.removal).story = ["file-1"] := by
    decide +kernel
  have hunder := Sample.under_interrupted (q := Sample.removal) trivial 2
  have hall := removal_clean_iff hunder hrest he
  exact ⟨e, he, heq, hrest, hall.2.mpr (by rw [hattached, heq])⟩

/-- The letter was removed while its draft was being uploaded for the review. The file came after
that, and remains with the provider. -/
theorem removal_during_upload_leaves_file :
    (Sample.interrupted 1 Sample.removal).Under .tended Sample.facilities ∧
      (Sample.interrupted 1 Sample.removal).stack = [] ∧
      (departures 0 (Sample.interrupted 1 Sample.removal).story.past).length = 1 ∧
      "file-1" ∈ uploadsFor 0 (Sample.interrupted 1 Sample.removal).story.past ∧
      "file-1" ∈ (storedFiles (Sample.interrupted 1 Sample.removal).story.past).map
        StoredFile.id := by
  have hrest : (Sample.interrupted 1 Sample.removal).stack = [] :=
    List.isEmpty_iff.mp (by decide +kernel)
  exact ⟨Sample.under_interrupted (q := Sample.removal) trivial 1, hrest, by decide +kernel,
    by decide +kernel, by decide +kernel⟩

end FlowEngine
