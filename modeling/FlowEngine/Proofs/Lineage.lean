import FlowEngine.Proofs.Accounts
import FlowEngine.Proofs.Handover
import FlowEngine.Proofs.Returns
import Mathlib.Data.List.Pairwise

/-! # Which value is which

Two values may have the same name and say the same. They are told apart by their slots: a slot is
given to one value of a session, and to no other after it, whatever becomes of that value. A file
that a value has it had when it came in, or the file was put down for it right after an upload.
Operations may be nested in any way here, and those who hold a session may edit its values in
between.
-/
namespace FlowEngine

namespace Session

variable {s t u : Session} {gone come : List Input}

/-- A session at a later time. What is in a slot that had been given by then was in it, with the
same content; its file may be another. -/
structure Ages (s t : Session) : Prop where
  later : s.nextSlot ≤ t.nextSlot
  stays : ∀ w ∈ t.values, w.slot < s.nextSlot →
    ∃ v ∈ s.values, v.slot = w.slot ∧ v.content = w.content

theorem Ages.refl (s : Session) : s.Ages s := ⟨Nat.le_refl _, fun w hw _ => ⟨w, hw, rfl, rfl⟩⟩

theorem Ages.trans (h : s.Ages t) (h' : t.Ages u) : s.Ages u := by
  refine ⟨Nat.le_trans h.later h'.later, fun w hw hlt => ?_⟩
  obtain ⟨v, hv, hslot, hcontent⟩ := h'.stays w hw (Nat.lt_of_lt_of_le hlt h.later)
  obtain ⟨x, hx, hslot', hcontent'⟩ := h.stays v hv (hslot ▸ hlt)
  exact ⟨x, hx, hslot'.trans hslot, hcontent'.trans hcontent⟩

theorem Ages.of_holdings (h : t.holdings = s.holdings) : s.Ages t := by
  have hslot : t.nextSlot = s.nextSlot := congrArg (fun x => x.2.2) h
  refine ⟨Nat.le_of_eq hslot.symm, fun w hw _ => ⟨w, ?_, rfl, rfl⟩⟩
  exact values_of_holdings h ▸ hw

theorem Turnover.ages (h : s.Turnover gone come t) : s.Ages t := by
  refine ⟨h.later, fun w hw hlt => ⟨w, ?_, rfl, rfl⟩⟩
  refine (List.mem_append.mp (h.values.subset (List.mem_append_left _ hw))).resolve_left fun hc => ?_
  exact Nat.not_lt_of_le (h.slots w hc).1 hlt

theorem recordFile_ages (s : Session) (slot : Nat) (file : String) :
    s.Ages (s.recordFile slot file).2 := by
  refine ⟨Nat.le_refl _, fun w hw _ => ?_⟩
  rw [values_recordFile] at hw
  obtain ⟨v, hv, rfl⟩ := List.mem_map.mp hw
  exact ⟨v, hv, (slot_noteFile slot file v).symm, (content_noteFile slot file v).symm⟩

theorem Ages.content (h : s.Ages t) (hs : s.Booked) {v w : Input} (hv : v ∈ s.values)
    (hw : w ∈ t.values) (hslot : v.slot = w.slot) : v.content = w.content := by
  obtain ⟨x, hx, hslot', hcontent⟩ := h.stays w hw (hslot ▸ hs.below v hv)
  have hsame : x = v := List.inj_on_of_nodup_map hs.slots hx hv (hslot'.trans hslot.symm)
  exact hsame ▸ hcontent

/-- What those who hold a session may do to its values. -/
inductive Edits (s : Session) : Session → Prop where
  | add {input value gone t} : s.addInput input value = .ok (gone, t) → s.Edits t
  | addText {input text gone t} : s.addText input text = .ok (gone, t) → s.Edits t
  | replace {input value gone t} : s.replaceInput input value = .ok (gone, t) → s.Edits t
  | clear {input gone t} : s.clearInput input = .ok (gone, t) → s.Edits t
  | redirect (step value) : s.Edits (s.addRedirected step value)
  | unredirect (step value) : s.Edits (s.removeRedirected step value).2

theorem Booked.removedRedirected (hs : s.Booked) (step : String) (value : Input) :
    s.Turnover ((s.redirected.get step).find? fun v => v.alike value).toList []
      (s.removeRedirected step value).2 := by
  have hgone : ∀ {gone : List Input} {book : InputBook}, book.Sorted →
      (book.values ++ gone).Perm s.redirected.values →
      s.Turnover gone [] { s with redirected := book } := by
    intro gone book hbook hperm
    refine ⟨hs.inputs, hbook, ?_, List.nodup_nil, ?_, Nat.le_refl _⟩
    · have hleft := hperm.append_left s.inputs.values
      rwa [← List.append_assoc] at hleft
    · exact fun v hv => absurd hv List.not_mem_nil
  rw [Session.removeRedirected]
  split
  · next hany =>
    obtain ⟨v, hv, hlike⟩ := List.any_eq_true.mp hany
    obtain ⟨a, before, after, hbefore, ha, hvalues, herase⟩ :=
      List.exists_of_eraseP (p := fun v => v.alike value) hv hlike
    have hfirst : (s.redirected.get step).find? (fun v => v.alike value) = some a :=
      List.find?_eq_some_iff_append.mpr ⟨ha, before, after, hvalues, by simpa using hbefore⟩
    rw [hfirst]
    split
    · next hnone =>
      obtain ⟨rfl, rfl⟩ := List.append_eq_nil_iff.mp (herase.symm.trans hnone)
      have hperm := hs.redirected.values_erase step
      rw [hvalues] at hperm
      exact hgone (hs.redirected.erase step) hperm
    · refine hgone (hs.redirected.set step _) ?_
      have hset := hs.redirected.values_set step (before ++ after)
      have hsplit : (s.redirected.get step).Perm ([a] ++ (before ++ after)) :=
        hvalues ▸ List.perm_middle
      have hall := (hsplit.symm.append_left _).trans (hset.trans List.perm_append_comm)
      rw [← List.append_assoc] at hall
      rw [herase]
      exact (List.perm_append_right_iff _).mp hall
  · next hany =>
    rw [List.find?_eq_none.mpr (by simpa using hany)]
    exact .refl hs

theorem Edits.turnover (hs : s.Booked) (h : s.Edits t) : ∃ gone come, s.Turnover gone come t := by
  cases h with
  | add h => exact ⟨_, _, hs.addedInput h⟩
  | addText h =>
    obtain ⟨v, -, hturn⟩ := hs.addedText h
    exact ⟨_, _, hturn⟩
  | replace h => exact ⟨_, _, hs.replacedInput h⟩
  | clear h => exact ⟨_, _, hs.clearedInput h⟩
  | redirect step value => exact ⟨_, _, hs.addedRedirected step value⟩
  | unredirect step value => exact ⟨_, _, hs.removedRedirected step value⟩

end Session

namespace Engine

variable {e e' e'' : Engine} {h : Handle} {t : Session}

def Ages (e e' : Engine) : Prop := ∀ h, (e.session h).Ages (e'.session h)

theorem Ages.refl (e : Engine) : e.Ages e := fun _ => .refl _

theorem Ages.trans (h : e.Ages e') (h' : e'.Ages e'') : e.Ages e'' := fun k => (h k).trans (h' k)

theorem holdings_values (e : Engine) (h k : Handle) (t : Session) :
    (((Change.values h t).apply e).session k).holdings =
      if k = h ∧ k < e.sessions.length then t.holdings else (e.session k).holdings := by
  rw [Change.apply, session_modifySession]
  split <;> rfl

theorem ages_values (ht : (e.session h).Ages t) : e.Ages ((Change.values h t).apply e) := by
  intro k
  have hk := holdings_values e h k t
  split at hk
  · next hself =>
    have hafter : t.Ages (((Change.values h t).apply e).session k) := .of_holdings hk
    exact (hself.1 ▸ ht).trans hafter
  · exact .of_holdings hk

theorem values_values (hlt : h < e.sessions.length) (k : Handle) :
    (((Change.values h t).apply e).session k).values =
      if k = h then t.values else (e.session k).values := by
  have hk := holdings_values e h k t
  by_cases hself : k = h
  · rw [if_pos ⟨hself, hself ▸ hlt⟩] at hk
    rw [if_pos hself, Session.values_of_holdings hk]
  · rw [if_neg fun hp => hself hp.1] at hk
    rw [if_neg hself, Session.values_of_holdings hk]

end Engine

theorem Change.Fileless.ages {c : Change} (hc : c.Fileless) (e : Engine) : e.Ages (c.apply e) :=
  fun h => .of_holdings (hc.holdings e h)

namespace Story

variable {s : Story} {e : Engine} {h : Handle} {v w : Input}

def engines (s : Story) : List Engine := s.engine :: s.past.map Moment.engine

/-- The session has or has had a value. -/
def Had (s : Story) (h : Handle) (v : Input) : Prop := ∃ e ∈ s.engines, v ∈ (e.session h).values

theorem engine_mem (s : Story) : s.engine ∈ s.engines := List.mem_cons_self

end Story

/-- A value came into a session as it is. -/
def CameIn (past : List Moment) (h : Handle) (v : Input) : Prop :=
  ∃ m ∈ past, ∃ t, m.event = .change (.values h t) ∧ v ∈ t.values ∧
    ∀ w ∈ (m.engine.session h).values, w.slot ≠ v.slot

/-- An upload made a file, and in the next moment the value in a slot got it, which did not have
it. -/
def Recording (past : List Moment) (h : Handle) (slot : Nat) (stored : StoredFile) : Prop :=
  ∃ r u older t, r :: u :: older <:+ past ∧ u.event.uploaded? = some stored ∧
    r.event = .change (.values h t) ∧
    (∃ v ∈ (r.engine.session h).values, v.slot = slot ∧ v.file ≠ some stored.id) ∧
    ∃ w ∈ t.values, w.slot = slot ∧ w.file = some stored.id

theorem CameIn.cons {past : List Moment} {h : Handle} {v : Input} (hv : CameIn past h v)
    (m : Moment) : CameIn (m :: past) h v := by
  obtain ⟨r, hr, hrest⟩ := hv
  exact ⟨r, List.mem_cons_of_mem _ hr, hrest⟩

theorem Recording.cons {past : List Moment} {h : Handle} {slot : Nat} {stored : StoredFile}
    (hr : Recording past h slot stored) (m : Moment) : Recording (m :: past) h slot stored := by
  obtain ⟨r, u, older, t, hsuffix, hrest⟩ := hr
  exact ⟨r, u, older, t, hsuffix.trans (List.suffix_cons m past), hrest⟩

/-- Where the file of a value comes from: the value came in with it, or got it after an upload. -/
def Explained (past : List Moment) (h : Handle) (v : Input) : Prop :=
  ∀ file, v.file = some file →
    CameIn past h v ∨ ∃ stored : StoredFile, stored.id = file ∧ Recording past h v.slot stored

theorem Explained.cons {past : List Moment} {h : Handle} {v : Input} (hv : Explained past h v)
    (m : Moment) : Explained (m :: past) h v := by
  intro file hfile
  rcases hv file hfile with hcame | ⟨stored, hid, hrecording⟩
  · exact .inl (hcame.cons m)
  · exact .inr ⟨stored, hid, hrecording.cons m⟩

/-- The books of all sessions have always been in order, slots have been given once, and the files
of values are explained. -/
structure Chronicled (s : Story) : Prop where
  kept : ∀ e ∈ s.engines, e.WellKept
  ages : s.engines.Pairwise fun later earlier => earlier.Ages later
  explained : ∀ h, ∀ v ∈ (s.engine.session h).values, Explained s.past h v

namespace Chronicled

variable {s : Story} {e : Engine} {h : Handle} {t : Session} {v w : Input} {gone come : List Input}

theorem now (hs : Chronicled s) : s.engine.WellKept := hs.kept _ s.engine_mem

theorem since (hs : Chronicled s) (he : e ∈ s.engines) : e.Ages s.engine := by
  rcases List.mem_cons.mp he with rfl | he
  · exact .refl _
  · exact List.rel_of_pairwise_cons hs.ages he

theorem content (hs : Chronicled s) (hv : s.Had h v) (hw : s.Had h w) (hslot : v.slot = w.slot) :
    v.content = w.content := by
  obtain ⟨e, he, hv⟩ := hv
  obtain ⟨e', he', hw⟩ := hw
  let Agree (e e' : Engine) : Prop := ∀ v ∈ (e.session h).values, ∀ w ∈ (e'.session h).values,
    v.slot = w.slot → v.content = w.content
  have hsymm : Std.Symm Agree :=
    ⟨fun _ _ hab v hv w hw heq => (hab w hw v hv heq.symm).symm⟩
  have hrefl : ∀ e ∈ s.engines, Agree e e := fun e he v hv w hw heq =>
    (Session.Ages.refl _).content ((hs.kept e he).booked h) hv hw heq
  have hall : s.engines.Pairwise Agree :=
    hs.ages.imp_of_mem fun {later earlier} _ hearlier hages v hv w hw heq =>
      ((hages h).content ((hs.kept _ hearlier).booked h) hw hv heq.symm).symm
  exact List.Pairwise.forall_of_forall hrefl hall he he' v hv w hw hslot

theorem opening (flows : List Flow) (logging : Bool) : Chronicled (.opening flows logging) := by
  refine ⟨?_, List.pairwise_singleton _ _, fun h v hv => absurd hv List.not_mem_nil⟩
  intro e he
  obtain rfl := List.mem_singleton.mp he
  exact .opening flows logging

theorem flagged (hs : Chronicled s) (b : Bool) : Chronicled (s.flagged b) := by
  obtain ⟨hnow, hpast⟩ := List.forall_mem_cons.mp hs.kept
  obtain ⟨hfirst, hrest⟩ := List.pairwise_cons.mp hs.ages
  exact ⟨List.forall_mem_cons.mpr ⟨hnow.flagged b, hpast⟩, List.pairwise_cons.mpr ⟨hfirst, hrest⟩,
    hs.explained⟩

theorem moment (hs : Chronicled s) {event : Event} (hk : e.WellKept) (ha : s.engine.Ages e)
    (hx : ∀ h, ∀ v ∈ (e.session h).values, Explained (⟨s.engine, event⟩ :: s.past) h v) :
    Chronicled ⟨e, ⟨s.engine, event⟩ :: s.past⟩ := by
  refine ⟨List.forall_mem_cons.mpr ⟨hk, hs.kept⟩, List.pairwise_cons.mpr ⟨?_, hs.ages⟩, hx⟩
  exact fun e' he' => (hs.since he').trans ha

theorem called (hs : Chronicled s) (c : ProviderCall) (r : c.Outcome) : Chronicled (s.called c r) :=
  hs.moment hs.now (.refl _) fun h v hv => (hs.explained h v hv).cons _

theorem plain (hs : Chronicled s) {c : Change} (hk : (c.apply s.engine).WellKept)
    (ha : s.engine.Ages (c.apply s.engine))
    (hv : ∀ h, ((c.apply s.engine).session h).values ⊆ (s.engine.session h).values) :
    Chronicled (s.change c) :=
  hs.moment hk ha fun h v hm => (hs.explained h v (hv h hm)).cons _

theorem enlisted (hs : Chronicled s) (ht : (Change.enlist t).Welcome s.engine.registry) :
    Chronicled (s.change (.enlist t)) := by
  have hkept := hs.now.enlist ht
  obtain ⟨id, tenant, flow, now, -, hnew⟩ := ht t rfl
  obtain ⟨g, -, rfl⟩ := Session.new_eq hnew
  refine hs.plain hkept (fun k => ?_) fun k => ?_ <;> rw [Change.session_enlist] <;> split
  · next hk =>
    have hle : s.engine.sessions.length ≤ k := Nat.le_of_eq hk.symm
    rw [Engine.session_of_le hle]
    exact ⟨Nat.le_refl _, fun w hw => absurd hw List.not_mem_nil⟩
  · exact .refl _
  · exact List.nil_subset _
  · exact List.Subset.refl _

theorem values (hs : Chronicled s) (hlt : h < s.engine.sessions.length) (ht : t.Booked)
    (ha : (s.engine.session h).Ages t)
    (hx : ∀ v ∈ t.values, Explained (⟨s.engine, .change (.values h t)⟩ :: s.past) h v) :
    Chronicled (s.change (.values h t)) := by
  refine hs.moment (hs.now.revalued h ht) (Engine.ages_values ha) fun k v hv => ?_
  rw [Engine.values_values hlt] at hv
  split at hv
  · next hk => exact hk ▸ hx v hv
  · exact (hs.explained k v hv).cons _

theorem turned (hs : Chronicled s) (hlt : h < s.engine.sessions.length)
    (ht : (s.engine.session h).Turnover gone come t) : Chronicled (s.change (.values h t)) := by
  have hbooked := hs.now.booked h
  refine hs.values hlt (ht.booked hbooked) ht.ages fun v hv => ?_
  rcases List.mem_append.mp (ht.values.subset (List.mem_append_left _ hv)) with hcome | hold
  · refine fun file _ => .inl ⟨_, List.mem_cons_self, t, rfl, hv, fun w hw heq => ?_⟩
    have hgiven := hbooked.below w hw
    have hnew := (ht.slots v hcome).1
    omega
  · exact (hs.explained h v hold).cons _

theorem filed (hs : Chronicled s) (hlt : h < s.engine.sessions.length) (slot : Nat)
    {tenant name : String} {payload : Payload} {file : String} :
    Chronicled ((s.called (.upload tenant name payload) (.ok file)).change
      (.values h ((s.engine.session h).recordFile slot file).2)) := by
  have hcalled := hs.called (.upload tenant name payload) (.ok file)
  refine hcalled.values hlt ((hs.now.booked h).recorded slot file)
    (Session.recordFile_ages _ slot file) fun v hv => ?_
  have hvalues := hv
  rw [Session.values_recordFile] at hvalues
  obtain ⟨w, hw, hnoted⟩ := List.mem_map.mp hvalues
  have hold := (hcalled.explained h w hw).cons
    ⟨s.engine, .change (.values h ((s.engine.session h).recordFile slot file).2)⟩
  by_cases hsame : w.slot = slot ∧ w.file ≠ some file
  · have hfile : v.file = some file := by rw [← hnoted, Session.file_noteFile, if_pos hsame.1]
    have hslot : v.slot = w.slot := by rw [← hnoted, Session.slot_noteFile]
    intro f hf
    obtain rfl : file = f := Option.some.inj (hfile.symm.trans hf)
    exact .inr ⟨⟨file, name, payload⟩, rfl, _, _, s.past, _, List.suffix_refl _, rfl, rfl,
      ⟨w, hw, hslot.symm, hsame.2⟩, v, hv, rfl, hfile⟩
  · have hkept : v = w := by
      rw [← hnoted, Session.noteFile]
      split
      · next hslot =>
        have hfile : w.file = some file := by
          by_contra hne
          exact hsame ⟨hslot, hne⟩
        rw [← hfile]
      · rfl
    exact hkept ▸ hold

end Chronicled

def chronicle : Upkeep where
  regime := .lax
  lenient := True
  holds _ := Chronicled
  between := Chronicled
  allowed := bookkeeping.allowed
  opening := Chronicled.opening
  point := id
  resumed hs := .inl ⟨.none, hs⟩
  sound hs := hs.now.sound
  booked hs := hs.now.booked
  regardless _ := id
  perm _ := id
  flagged b hs := hs.flagged b
  plain hc hs := hs.plain (hs.now.fileless hc) (hc.ages _) fun h =>
    (List.Perm.of_eq (Session.values_of_holdings (hc.holdings _ h))).subset
  enlisted ht hs := hs.enlisted ht
  withdrawn _ hs := hs.plain (hs.now.withdraw _) (.refl _) fun _ => List.Subset.refl _
  revalued hlt ht _ hs := hs.turned hlt ht
  answered _ _ hs := hs.called _ _
  deleted _ hs := hs.called _ _
  uploaded _ hs := hs.called _ _
  filed slot hlt _ hs := hs.filed hlt slot

/-- A step of the operations, or an edit of a session by one who holds it, while the operations
wait. -/
inductive Machine.Stir (f : Facilities) : Machine → Machine → Prop where
  | step {m m'} : m.Step f m' → Stir f m m'
  | edit {story stack h t} : Waiting stack → h < story.engine.sessions.length →
      (story.engine.session h).Edits t → Stir f ⟨story, stack⟩ ⟨story.change (.values h t), stack⟩

/-- What comes about by operations that are nested in any way, and by edits in between. -/
def Machine.Attended (f : Facilities) (m : Machine) : Prop :=
  ∃ flows logging, Relation.ReflTransGen (Stir f) ⟨.opening flows logging, []⟩ m

namespace Machine

variable {f : Facilities} {m m' : Machine}

theorem Attended.later (hm : m.Attended f) (h : Relation.ReflTransGen (Stir f) m m') :
    m'.Attended f := by
  obtain ⟨flows, logging, hm⟩ := hm
  exact ⟨flows, logging, hm.trans h⟩

theorem Reachable.attended (hm : Reachable f m) : m.Attended f := by
  induction hm with
  | opening flows logging => exact ⟨flows, logging, .refl⟩
  | step _ hs ih => exact ih.later (.single (.step hs))

/-- To the operations that wait an edit is nothing but what others may do. -/
theorem Stir.stacked (h : m.Stir f m') (hm : chronicle.Stacked m.story m.stack) :
    chronicle.Stacked m'.story m'.stack := by
  cases h with
  | step h =>
    cases h with
    | flag b hw => exact hm.meanwhile hw (Upkeep.Stacked.meanwhile_flagged hm.between b)
    | enter q hw => exact hm.enter f hw trivial
    | act hmove => exact hm.act (hmove.within ⟨id, id⟩)
    | leave => exact hm.leave
  | edit hw hlt hedit =>
    obtain ⟨gone, come, hturn⟩ := hedit.turnover (hm.between.now.booked _)
    have hedited := hm.between.turned hlt hturn
    exact hm.meanwhile hw ⟨Change.evolves_apply _ _, fun _ => hedited, fun _ _ => hedited⟩

theorem Attended.chronicled (hm : m.Attended f) : Chronicled m.story := by
  obtain ⟨flows, logging, hsteps⟩ := hm
  have hstacked : chronicle.Stacked m.story m.stack := by
    induction hsteps with
    | refl => exact .bottom (Upkeep.Stacked.meanwhile_refl _)
    | tail _ hstep ih => exact hstep.stacked ih
  exact hstacked.between

end Machine

end FlowEngine
