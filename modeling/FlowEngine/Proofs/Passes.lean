import FlowEngine.Proofs.Lineage
import FlowEngine.Proofs.Mentions

/-! # Passes of uploads

One pass takes the values without a file in the order of the books, those supplied first, and
uploads them up to the first that is refused. Each file is put down for its value before the next
upload begins. So what a pass leaves is the rest of what it found, and the next pass goes on from
there, whatever was done to the values in between.
-/
namespace FlowEngine

abbrev Got := List (Input × String)

namespace Got

def slots (got : Got) : List Nat := got.map fun g => g.1.slot

theorem mem_slots {got : Got} {slot : Nat} : slot ∈ got.slots ↔ ∃ g ∈ got, g.1.slot = slot :=
  List.mem_map

end Got

/-- A value after some values have got files; it is told apart from others by its slot. -/
def Input.filed (got : Got) (v : Input) : Input :=
  match got.find? fun g => g.1.slot == v.slot with
  | some g => { v with file := some g.2 }
  | none => v

def Session.filed (s : Session) (got : Got) : Session :=
  { s with inputs := s.inputs.map (Input.filed got)
           redirected := s.redirected.map (Input.filed got) }

namespace Input

variable {got : Got} {g : Input × String} {v : Input}

@[simp] theorem filed_nil (v : Input) : v.filed [] = v := rfl

theorem slot_filed (got : Got) (v : Input) : (v.filed got).slot = v.slot := by
  rw [filed]
  split <;> rfl

theorem filed_of_not_mem (h : v.slot ∉ got.slots) : v.filed got = v := by
  have hnone : (got.find? fun g => g.1.slot == v.slot) = none := by
    rw [List.find?_eq_none]
    intro g hg heq
    exact h (Got.mem_slots.mpr ⟨g, hg, beq_iff_eq.mp heq⟩)
  rw [filed, hnone]

theorem filed_of_mem (hd : got.slots.Nodup) (hg : g ∈ got) (hs : g.1.slot = v.slot) :
    v.filed got = { v with file := some g.2 } := by
  rw [filed]
  cases hfind : got.find? fun g => g.1.slot == v.slot with
  | none => exact absurd (beq_iff_eq.mpr hs) (List.find?_eq_none.mp hfind g hg)
  | some g' =>
    have hslot : g'.1.slot = v.slot := by simpa using List.find?_some hfind
    have hsame : g' = g :=
      List.inj_on_of_nodup_map hd (List.mem_of_find?_eq_some hfind) hg (hslot.trans hs.symm)
    rw [hsame]

theorem filed_cons (h : g.1.slot ∉ got.slots) (v : Input) :
    v.filed (g :: got) = (Session.noteFile g.1.slot g.2 v).filed got := by
  by_cases hs : g.1.slot = v.slot
  · have hfind : (g :: got).find? (fun g => g.1.slot == v.slot) = some g :=
      List.find?_cons_of_pos (beq_iff_eq.mpr hs)
    have hrest : (Session.noteFile g.1.slot g.2 v).filed got = Session.noteFile g.1.slot g.2 v :=
      filed_of_not_mem (by rwa [Session.slot_noteFile, ← hs])
    rw [hrest, Session.noteFile, if_pos hs.symm, filed, hfind]
  · have hfind : (g :: got).find? (fun g => g.1.slot == v.slot) =
        got.find? fun g => g.1.slot == v.slot := List.find?_cons_of_neg (by simpa using hs)
    rw [Session.noteFile_of_ne (Ne.symm hs), filed, filed, hfind]

theorem isUploaded_filed (got : Got) (v : Input) :
    (v.filed got).isUploaded = (v.isUploaded || got.slots.contains v.slot) := by
  by_cases hs : v.slot ∈ got.slots
  · obtain ⟨g, hg, hslot⟩ := Got.mem_slots.mp hs
    have hsome : (got.find? fun g => g.1.slot == v.slot).isSome := by
      rw [List.find?_isSome]
      exact ⟨g, hg, beq_iff_eq.mpr hslot⟩
    obtain ⟨g', hfind⟩ := Option.isSome_iff_exists.mp hsome
    simp [filed, hfind, isUploaded, hs]
  · simp [filed_of_not_mem hs, hs]

end Input

namespace Session

variable {s : Session} {got : Got} {g : Input × String} {left : List Input}

@[simp] theorem filed_nil (s : Session) : s.filed [] = s := by
  have hsame : Input.filed [] = fun v => v := funext Input.filed_nil
  simp [filed, InputBook.map, hsame]

theorem filed_cons (h : g.1.slot ∉ got.slots) :
    s.filed (g :: got) = ((s.recordFile g.1.slot g.2).2).filed got := by
  have hone := funext (Input.filed_cons (g := g) h)
  rw [filed, filed, hone]
  simp [recordFile, noteFile, InputBook.map, Function.comp_def]

theorem values_filed (s : Session) (got : Got) :
    (s.filed got).values = s.values.map (Input.filed got) := by
  rw [values, values, List.map_append, ← InputBook.values_map, ← InputBook.values_map]
  rfl

theorem Booked.filed (hs : s.Booked) (got : Got) : (s.filed got).Booked := by
  have hslots : Input.slot ∘ Input.filed got = Input.slot := funext (Input.slot_filed got)
  refine ⟨hs.inputs.map _, hs.redirected.map _, ?_, fun w hw => ?_⟩
  · rw [values_filed, List.map_map, hslots]
    exact hs.slots
  · rw [values_filed] at hw
    obtain ⟨v, hv, rfl⟩ := List.mem_map.mp hw
    rw [Input.slot_filed]
    exact hs.below v hv

theorem pendingUploads_eq (s : Session) :
    s.pendingUploads = s.values.filter fun v => !v.isUploaded := rfl

theorem pendingUploads_filed (hd : (s.pendingUploads.map Input.slot).Nodup)
    (hs : s.pendingUploads = got.map Prod.fst ++ left) : (s.filed got).pendingUploads = left := by
  have hslots : got.slots ++ left.map Input.slot = s.pendingUploads.map Input.slot := by
    rw [hs, List.map_append, List.map_map]
    rfl
  obtain ⟨-, -, hapart⟩ := List.nodup_append.mp (hslots ▸ hd)
  have hgot : ∀ v ∈ got.map Prod.fst, v.slot ∈ got.slots := by
    intro v hv
    obtain ⟨g, hg, rfl⟩ := List.mem_map.mp hv
    exact Got.mem_slots.mpr ⟨g, hg, rfl⟩
  have hleft : ∀ v ∈ left, v.slot ∉ got.slots := fun v hv hslot =>
    hapart _ hslot _ (List.mem_map_of_mem hv) rfl
  have hpending : (s.values.filter fun v => !(v.filed got).isUploaded) = left := by
    have hsplit : ∀ v : Input, (!(v.filed got).isUploaded) =
        (!got.slots.contains v.slot && !v.isUploaded) := by
      intro v
      rw [Input.isUploaded_filed, Bool.not_or, Bool.and_comm]
    simp only [hsplit]
    rw [← List.filter_filter, ← pendingUploads_eq, hs, List.filter_append,
      List.filter_eq_nil_iff.mpr (by simpa using hgot), List.nil_append]
    exact List.filter_eq_self.mpr (by simpa using hleft)
  rw [pendingUploads_eq, values_filed, List.filter_map]
  refine (congrArg (List.map _) hpending).trans ?_
  refine (List.map_congr_left fun v hv => ?_).trans (List.map_id left)
  exact Input.filed_of_not_mem (hleft v hv)

end Session

def Situation.events (s : Situation) : List Event := (s.own.map Moment.event).reverse

/-- Uploads that succeed: each is followed by its file being put down, before the next one. -/
def uploadEvents (tenant : String) (h : Handle) : Session → Got → List Event
  | _, [] => []
  | s, g :: rest =>
    let next := (s.recordFile g.1.slot g.2).2
    .call (.upload tenant g.1.name g.1.payload) (.ok g.2) :: .change (.values h next) ::
      uploadEvents tenant h next rest

/-- A pass ends with the number of values that got files, or with an upload that is refused. -/
inductive PassEnd (tenant : String) (got : Got) :
    List Input → Except EngineFault Nat → List Event → Prop where
  | through : PassEnd tenant got [] (.ok got.length) []
  | refused (v : Input) (rest : List Input) (fault : ProviderFault) :
      PassEnd tenant got (v :: rest) (.error (.provider fault))
        [.call (.upload tenant v.name v.payload) (.error fault)]

/-- Of the values that were to be uploaded the first have got files, and the others are left. -/
structure Pass (tenant : String) (h : Handle) (todo : List Input) (s s' : Situation)
    (r : Except EngineFault Nat) (got : Got) (left : List Input) : Prop where
  split : todo = got.map Prod.fst ++ left
  session : s'.engine.session h = (s.engine.session h).filed got
  others : ∀ k, k ≠ h → s'.engine.session k = s.engine.session k
  hosted : h < s.engine.sessions.length → h < s'.engine.sessions.length
  ends : ∃ last, PassEnd tenant got left r last ∧
    s'.events = s.events ++ uploadEvents tenant h (s.engine.session h) got ++ last

def PassEnded (tenant : String) (h : Handle) (todo : List Input) (s : Situation)
    (r : Except EngineFault Nat) (s' : Situation) : Prop :=
  ∃ got left, Pass tenant h todo s s' r got left

variable {answers : List Moment → (c : ProviderCall) → c.Outcome → Prop} {tenant : String}
  {h : Handle} {s s' s'' : Situation} {todo left : List Input} {v : Input} {file : String}
  {r : Except EngineFault Nat} {got : Got}

structure Filed (tenant : String) (h : Handle) (v : Input) (file : String) (s s' : Situation) :
    Prop where
  hosted : h < s'.engine.sessions.length
  session : s'.engine.session h = ((s.engine.session h).recordFile v.slot file).2
  others : ∀ k, k ≠ h → s'.engine.session k = s.engine.session k
  events : s'.events = s.events ++ [.call (.upload tenant v.name v.payload) (.ok file),
    .change (.values h ((s.engine.session h).recordFile v.slot file).2)]

theorem Conduct.Meets.alone {c : ProviderCall} {outcome : c.Outcome}
    (hm : (solitary answers).Meets s c outcome s') :
    (∀ k, s'.engine.session k = s.engine.session k) ∧
      s'.engine.sessions.length = s.engine.sessions.length ∧
      s'.events = s.events ++ [.call c outcome] := by
  obtain ⟨_, ⟨b, rfl⟩, -, rfl⟩ := hm
  exact ⟨fun _ => rfl, rfl, List.reverse_cons⟩

theorem Filed.of_meets (hlt : h < s.engine.sessions.length)
    (hm : (Conduct.solitary answers).Meets s (.upload tenant v.name v.payload) (.ok file) s') :
    Filed tenant h v file s
      (s'.change (.values h ((s.engine.session h).recordFile v.slot file).2)) := by
  obtain ⟨hsessions, hlength, hevents⟩ := hm.alone
  have hlt' : h < s'.engine.sessions.length := hlength ▸ hlt
  refine ⟨Nat.lt_of_lt_of_le hlt' (Engine.length_sessions_le _ _), ?_, fun k hne => ?_, ?_⟩
  · have hself := Engine.session_modifySession_self hlt' fun u =>
      u.withValues ((s.engine.session h).recordFile v.slot file).2
    rw [hsessions] at hself
    exact hself
  · exact (Engine.session_modifySession_of_ne hne _ _).trans (hsessions k)
  · rw [Situation.events, Situation.change_own, List.map_cons, List.reverse_cons]
    exact (congrArg (· ++ _) hevents).trans (List.append_assoc _ _ _)

theorem PassEnd.cons {last : List Event} (g : Input × String)
    (he : PassEnd tenant got left r last) : PassEnd tenant (g :: got) left (r.map (· + 1)) last := by
  cases he with
  | through => exact .through
  | refused v rest fault => exact .refused v rest fault

theorem Pass.cons (hf : Filed tenant h v file s s') (hp : Pass tenant h todo s' s'' r got left)
    (hslot : v.slot ∉ got.slots) :
    Pass tenant h (v :: todo) s s'' (r.map (· + 1)) ((v, file) :: got) left := by
  obtain ⟨last, hend, hevents⟩ := hp.ends
  refine ⟨congrArg (v :: ·) hp.split, ?_, fun k hne => (hp.others k hne).trans (hf.others k hne),
    fun _ => hp.hosted hf.hosted, last, hend.cons _, ?_⟩
  · rw [hp.session, hf.session, Session.filed_cons (g := (v, file)) hslot]
  · rw [hevents, hf.events, hf.session, uploadEvents]
    simp

namespace Inputs

theorem uploadOne_files (hlt : h < s.engine.sessions.length)
    (hv : v.slot ∈ (s.engine.session h).values.map Input.slot) :
    Attempt.Assures (.solitary answers) Anything
      (fun recorded s' => recorded = true ∧ ∃ file, Filed tenant h v file s s')
      (fun fault => PassEnded tenant h (v :: todo) s (.error fault)) (uploadOne tenant h v) s := by
  simp only [uploadOne, Attempt.assures_bind, Attempt.assures_ask, Attempt.assures_lift,
    Proc.assures_session, Proc.assures_change]
  intro r s' hm
  obtain ⟨hsessions, hlength, hevents⟩ := hm.alone
  refine ⟨trivial, ?_, ?_⟩
  · rintro file rfl
    have hthere : ((s.engine.session h).recordFile v.slot file).1 = true := by
      obtain ⟨w, hw, hslot⟩ := List.mem_map.mp hv
      exact List.any_eq_true.mpr ⟨w, hw, beq_iff_eq.mpr hslot⟩
    rw [hsessions, if_pos hthere]
    exact ⟨trivial, rfl, file, .of_meets hlt hm⟩
  · rintro fault rfl
    exact ⟨[], v :: todo, rfl, (hsessions h).trans (Session.filed_nil _).symm,
      fun k _ => hsessions k, fun hlt => hlength ▸ hlt, _, .refused v todo fault,
      by rw [hevents, uploadEvents, List.append_nil]⟩

theorem uploadAll_passes (hlt : h < s.engine.sessions.length) (hd : (todo.map Input.slot).Nodup)
    (htodo : ∀ v ∈ todo, v.slot ∈ (s.engine.session h).values.map Input.slot) :
    Attempt.Assures (.solitary answers) Anything (fun n => PassEnded tenant h todo s (.ok n))
      (fun fault => PassEnded tenant h todo s (.error fault)) (uploadAll tenant h todo) s := by
  induction todo generalizing s with
  | nil =>
    exact ⟨[], [], rfl, (Session.filed_nil _).symm, fun _ _ => rfl, fun hlt => hlt, _, .through,
      by simp [uploadEvents]⟩
  | cons v rest ih =>
    obtain ⟨hfirst, hrest⟩ := List.nodup_cons.mp hd
    obtain ⟨hv, hothers⟩ := List.forall_mem_cons.mp htodo
    refine (uploadOne_files hlt hv).bind ?_
    rintro _ s₁ ⟨rfl, file, hfiled⟩
    have hthere : ∀ w ∈ rest, w.slot ∈ (s₁.engine.session h).values.map Input.slot := by
      intro w hw
      have hslots : Input.slot ∘ Session.noteFile v.slot file = Input.slot :=
        funext (Session.slot_noteFile v.slot file)
      rw [hfiled.session, Session.values_recordFile, List.map_map, hslots]
      exact hothers w hw
    have hcons : ∀ {r s₂ got left}, Pass tenant h rest s₁ s₂ r got left →
        Pass tenant h (v :: rest) s s₂ (r.map (· + 1)) ((v, file) :: got) left := by
      intro r s₂ got left hp
      refine hp.cons hfiled fun hslot => hfirst ?_
      obtain ⟨g, hg, hgslot⟩ := Got.mem_slots.mp hslot
      rw [hp.split, List.map_append]
      exact List.mem_append_left _ (hgslot ▸ List.mem_map_of_mem (List.mem_map_of_mem hg))
    rw [Attempt.assures_bind]
    refine (ih hfiled.hosted hrest hthere).imp ?_ ?_
    · rintro n s₂ ⟨got, left, hp⟩
      exact ⟨_, _, hcons hp⟩
    · rintro fault s₂ ⟨got, left, hp⟩
      exact ⟨_, _, hcons hp⟩

/-- What an execution of a pass comes to. -/
theorem uploadMissing_passes (hlt : h < s.engine.sessions.length)
    (hs : (s.engine.session h).Booked)
    (hx : Execution (.solitary answers) ((uploadMissing tenant h).run, s) (.done r, s')) :
    PassEnded tenant h (s.engine.session h).pendingUploads s r s' := by
  obtain ⟨hd, hpending⟩ := hs.pendingUploads
  have hall : Attempt.Assures (.solitary answers) Anything
      (fun n => PassEnded tenant h (s.engine.session h).pendingUploads s (.ok n))
      (fun fault => PassEnded tenant h (s.engine.session h).pendingUploads s (.error fault))
      (uploadMissing tenant h) s := by
    simp only [uploadMissing, Attempt.assures_bind, Attempt.assures_lift, Proc.assures_session]
    exact uploadAll_passes hlt hd fun v hv => List.mem_map_of_mem (hpending v hv).1
  have hends := (execution_ends hx trivial hall).2
  cases r with
  | error fault => exact hends
  | ok n => exact hends

theorem uploadMissing_idle (hnone : (s.engine.session h).pendingUploads = []) :
    Execution (.solitary answers) ((uploadMissing tenant h).run, s) (.done (.ok 0), s) ∧
      ∀ {r s'}, Execution (.solitary answers) ((uploadMissing tenant h).run, s) (.done r, s') →
        r = .ok 0 ∧ s' = s := by
  constructor
  · have hnext : (uploadAll tenant h (s.engine.session h).pendingUploads).run = .done (.ok 0) := by
      rw [hnone]
      rfl
    exact hnext ▸ .single .observe
  · intro r s' hx
    have hall : Attempt.Assures (.solitary answers) Anything (fun n s' => n = 0 ∧ s' = s)
        (fun _ _ => False) (uploadMissing tenant h) s := by
      simp only [uploadMissing, Attempt.assures_bind, Attempt.assures_lift, Proc.assures_session,
        hnone, uploadAll, Attempt.assures_pure, and_self]
    have hends := (execution_ends hx trivial hall).2
    cases r with
    | error fault => exact hends.elim
    | ok n => exact ⟨congrArg Except.ok hends.1, hends.2⟩

end Inputs

theorem Pass.first {rest : List Input} (hp : Pass tenant h (v :: rest) s s' r got left)
    (hnew : s.events = []) :
    ∃ outcome, s'.events.head? = some (.call (.upload tenant v.name v.payload) outcome) := by
  obtain ⟨last, hend, hevents⟩ := hp.ends
  have hsplit := hp.split
  rw [hevents, hnew, List.nil_append]
  cases got with
  | nil =>
    rw [List.map_nil, List.nil_append] at hsplit
    subst hsplit
    cases hend with
    | refused _ _ fault => exact ⟨.error fault, rfl⟩
  | cons g got =>
    rw [List.map_cons, List.cons_append] at hsplit
    obtain ⟨rfl, -⟩ := List.cons.inj hsplit
    exact ⟨.ok g.2, rfl⟩

/-- A pass from its beginning to its end, with nobody else around. -/
abbrev PassRun (answers : List Moment → (c : ProviderCall) → c.Outcome → Prop) (tenant : String)
    (h : Handle) (t : Story) (r : Except EngineFault Nat) (s' : Situation) : Prop :=
  Execution (.solitary answers) ((Inputs.uploadMissing tenant h).run, t.enter) (.done r, s')

/-- Passes for a session, with the values that got files in them. In between values may go, and
others may come in new slots. -/
inductive Passes (tenant : String) (h : Handle) (s : Story) : Got → Story → Prop where
  | start : Passes tenant h s [] s
  | pass {log got : Got} {t : Story} {answers} {r} {t' : Situation} {left : List Input} :
      Passes tenant h s log t → PassRun answers tenant h t r t' →
      Pass tenant h (t.engine.session h).pendingUploads t.enter t' r got left →
      Passes tenant h s (log ++ got) t'.toStory
  | between {log : Got} {t t' : Story} {gone come : List Input} :
      Passes tenant h s log t → h < t'.engine.sessions.length →
      (t.engine.session h).Turnover gone come (t'.engine.session h) →
      Passes tenant h s log t'

/-- Values have got files once each, and those that are still there have these files. -/
structure Logged (log : Got) (s : Session) : Prop where
  booked : s.Booked
  once : log.slots.Nodup
  given : ∀ g ∈ log, g.1.slot < s.nextSlot
  kept : ∀ g ∈ log, ∀ v ∈ s.values, v.slot = g.1.slot → v.file = some g.2

namespace Logged

variable {s t : Session} {log : Got} {gone come : List Input}

theorem start (hs : s.Booked) : Logged [] s := ⟨hs, List.nodup_nil, nofun, nofun⟩

theorem turnover (hl : Logged log s) (ht : s.Turnover gone come t) : Logged log t := by
  refine ⟨ht.booked hl.booked, hl.once, fun g hg => Nat.lt_of_lt_of_le (hl.given g hg) ht.later, ?_⟩
  intro g hg v hv hslot
  rcases List.mem_append.mp (ht.values.subset (List.mem_append_left _ hv)) with hcome | hold
  · have hnew := (ht.slots v hcome).1
    have hgiven := hl.given g hg
    omega
  · exact hl.kept g hg v hold hslot

theorem filed (hl : Logged log s) (hs : s.pendingUploads = got.map Prod.fst ++ left) :
    Logged (log ++ got) (s.filed got) := by
  obtain ⟨hd, hpending⟩ := hl.booked.pendingUploads
  have hgot : ∀ g ∈ got, g.1 ∈ s.values ∧ g.1.file = none := by
    intro g hg
    exact hpending g.1 (hs ▸ List.mem_append_left _ (List.mem_map_of_mem hg))
  have honce : got.slots.Nodup := by
    rw [hs, List.map_append, List.map_map] at hd
    exact (List.nodup_append.mp hd).1
  have hapart : ∀ g ∈ log, ∀ g' ∈ got, g.1.slot ≠ g'.1.slot := by
    intro g hg g' hg' heq
    obtain ⟨hvalue, hnone⟩ := hgot g' hg'
    rw [hl.kept g hg g'.1 hvalue heq.symm] at hnone
    cases hnone
  refine ⟨hl.booked.filed got, ?_, ?_, ?_⟩
  · rw [Got.slots, List.map_append]
    refine List.nodup_append.mpr ⟨hl.once, honce, ?_⟩
    intro a ha b hb
    obtain ⟨g, hg, rfl⟩ := Got.mem_slots.mp ha
    obtain ⟨g', hg', rfl⟩ := Got.mem_slots.mp hb
    exact hapart g hg g' hg'
  · intro g hg
    rcases List.mem_append.mp hg with hg | hg
    · exact hl.given g hg
    · exact hl.booked.below g.1 (hgot g hg).1
  · intro g hg w hw hslot
    rw [Session.values_filed] at hw
    obtain ⟨v, hv, rfl⟩ := List.mem_map.mp hw
    rw [Input.slot_filed] at hslot
    rcases List.mem_append.mp hg with hg | hg
    · have hother : v.slot ∉ got.slots := by
        intro hmem
        obtain ⟨g', hg', hslot'⟩ := Got.mem_slots.mp hmem
        exact hapart g hg g' hg' (hslot.symm.trans hslot'.symm)
      rw [Input.filed_of_not_mem hother]
      exact hl.kept g hg v hv hslot
    · rw [Input.filed_of_mem honce hg hslot.symm]

end Logged

theorem Passes.logged {s t : Story} {log : Got} (hp : Passes tenant h s log t)
    (hlt : h < s.engine.sessions.length) (hs : (s.engine.session h).Booked) :
    h < t.engine.sessions.length ∧ Logged log (t.engine.session h) := by
  induction hp with
  | start => exact ⟨hlt, .start hs⟩
  | pass _ _ hpass ih => exact ⟨hpass.hosted ih.1, hpass.session ▸ ih.2.filed hpass.split⟩
  | between _ hlt' hturn ih => exact ⟨hlt', ih.2.turnover hturn⟩

/-- However many passes there have been, and whatever was done to the values in between, no value
has got a file twice, and those that are still there have the files that they got. A pass uploads
the values without a file in the order of the books, whose keys increase, up to the first that is
refused; each file is put down before the next upload, no other value is touched, and what is left
is the rest. A further pass begins with the first that is left. When a pass ends with a number, this
many values have got files and none is left, and a further pass does nothing and ends with zero. -/
theorem passes_resume {f : Facilities} {m : Machine} (hm : m.Attended f)
    (hlt : h < m.story.engine.sessions.length) {log : Got} {t : Story}
    (hp : Passes tenant h m.story log t) :
    log.slots.Nodup ∧
    (∀ g ∈ log, ∀ v ∈ (t.engine.session h).values, v.slot = g.1.slot → v.file = some g.2) ∧
    (t.engine.session h).inputs.Sorted ∧ (t.engine.session h).redirected.Sorted ∧
    ∀ {answers}, ((∀ past c, ∃ outcome, answers past c outcome) →
        ∃ r s', PassRun answers tenant h t r s') ∧
      ∀ {r s'}, PassRun answers tenant h t r s' → ∃ got left,
        Pass tenant h (t.engine.session h).pendingUploads t.enter s' r got left ∧
        (s'.engine.session h).pendingUploads = left ∧
        (∀ v rest, left = v :: rest → ∀ {answers r' s''},
          PassRun answers tenant h s'.toStory r' s'' →
          ∃ outcome, s''.events.head? = some (.call (.upload tenant v.name v.payload) outcome)) ∧
        ∀ n, r = .ok n → n = got.length ∧ left = [] ∧ ∀ {answers},
          PassRun answers tenant h s'.toStory (.ok 0) s'.toStory.enter ∧
          ∀ {r' s''}, PassRun answers tenant h s'.toStory r' s'' →
            r' = .ok 0 ∧ s'' = s'.toStory.enter := by
  obtain ⟨hlt', hlogged⟩ := hp.logged hlt (hm.chronicled.now.booked h)
  refine ⟨hlogged.once, hlogged.kept, hlogged.booked.inputs, hlogged.booked.redirected, ?_⟩
  refine fun {answers} => ⟨fun ha => Proc.can_end ha _ _, fun {r s'} hx => ?_⟩
  obtain ⟨got, left, hpass⟩ := Inputs.uploadMissing_passes hlt' hlogged.booked hx
  have hleft : (s'.engine.session h).pendingUploads = left := by
    rw [hpass.session]
    exact Session.pendingUploads_filed hlogged.booked.pendingUploads.1 hpass.split
  obtain ⟨hlt'', hlogged'⟩ := (hp.pass hx hpass).logged hlt (hm.chronicled.now.booked h)
  refine ⟨got, left, hpass, hleft, ?_, ?_⟩
  · intro v rest heq answers r' s'' hx'
    obtain ⟨got', left', hpass'⟩ :=
      Inputs.uploadMissing_passes (s := s'.toStory.enter) hlt'' hlogged'.booked hx'
    have htodo : (s'.toStory.enter.engine.session h).pendingUploads = v :: rest := hleft.trans heq
    rw [htodo] at hpass'
    exact hpass'.first rfl
  · rintro n rfl
    obtain ⟨last, hend, -⟩ := hpass.ends
    cases hend with
    | through => exact ⟨rfl, rfl, Inputs.uploadMissing_idle hleft⟩

namespace Sample

/-- A provider that has no room for the second draft. -/
def choosy (past : List Moment) : (c : ProviderCall) → c.Outcome
  | .upload tenant name payload =>
    if payload = .text "two" then .error (.unavailable "full")
    else filing past (.upload tenant name payload)
  | c => echo c

def supplying (text : String) : Request := .addText "acme" "session-0-00000000" "draft" text

def drafts : Flow :=
  { flow with inputs := [⟨draftInput, "draft", "", .text, true, true, false⟩] }

def collected : Machine :=
  ((Machine.serve facilities filing create 0 ⟨.opening [drafts] false, []⟩).serve facilities filing
    (supplying "one") 0).serve facilities filing (supplying "two") 0

theorem attended_collected : collected.Attended facilities := by
  have hanswer : ∀ past c, Regime.lax.answers past c (filing past c) := fun _ _ => trivial
  have hopening : Machine.Under .lax facilities ⟨.opening [drafts] false, []⟩ := .opening _ _
  have hcreated := hopening.served hanswer (q := create) trivial 0
  have hone := hcreated.served hanswer (q := supplying "one") trivial 0
  exact (hone.served hanswer (q := supplying "two") trivial 0).reachable.attended

def uploaded (answer : List Moment → (c : ProviderCall) → c.Outcome) (s : Story) :
    Point (Except EngineFault Nat) :=
  (Inputs.uploadMissing "acme" 0).run.ahead answer 9 s.enter

/-- The pass in which the second draft was refused. -/
def halfway : Situation := (uploaded choosy collected.story).2

end Sample

theorem passes_resume_drafts : ∃ log s',
    PassRun Conduct.anyAnswer "acme" 0 Sample.collected.story
      (.error (.provider (.unavailable "full"))) Sample.halfway ∧
    PassRun Conduct.anyAnswer "acme" 0 Sample.halfway.toStory (.ok 1) s' ∧
    Passes "acme" 0 Sample.collected.story log s'.toStory ∧ log.length = 2 ∧
    log.slots.Nodup ∧ (s'.engine.session 0).pendingUploads = [] := by
  have hlt : 0 < Sample.collected.story.engine.sessions.length := by decide +kernel
  have hrefused : (Sample.uploaded Sample.choosy Sample.collected.story).1.value? =
      some (.error (.provider (.unavailable "full"))) := by decide +kernel
  have hended : (Sample.uploaded Sample.filing Sample.halfway.toStory).1.value? =
      some (.ok 1) := by decide +kernel
  have hx : PassRun Conduct.anyAnswer "acme" 0 Sample.collected.story
      (.error (.provider (.unavailable "full"))) Sample.halfway := Proc.ahead_ends hrefused
  have hx' : PassRun Conduct.anyAnswer "acme" 0 Sample.halfway.toStory (.ok 1)
      (Sample.uploaded Sample.filing Sample.halfway.toStory).2 := Proc.ahead_ends hended
  obtain ⟨-, -, -, -, hpasses⟩ := passes_resume Sample.attended_collected hlt .start
  obtain ⟨got, left, hpass, hleft, -⟩ := hpasses.2 hx
  have hone := Passes.start.pass hx hpass
  obtain ⟨-, -, -, -, hpasses'⟩ := passes_resume Sample.attended_collected hlt hone
  obtain ⟨got', left', hpass', hleft', -, hnumber⟩ := hpasses'.2 hx'
  have hboth := hone.pass hx' hpass'
  obtain ⟨hlength, hnone, -⟩ := hnumber 1 rfl
  have hfirst : got.length = 1 := by
    have htodo : (Sample.collected.story.engine.session 0).pendingUploads.length = 2 := by
      decide +kernel
    have hrest : (Sample.halfway.engine.session 0).pendingUploads.length = 1 := by decide +kernel
    have hsplit := congrArg List.length hpass.split
    rw [List.length_append, List.length_map, ← hleft, hrest] at hsplit
    have hsum : 2 = got.length + 1 := htodo.symm.trans hsplit
    omega
  refine ⟨_, _, hx, hx', hboth, ?_, (passes_resume Sample.attended_collected hlt hboth).1,
    hleft'.trans hnone⟩
  rw [List.nil_append, List.length_append, hfirst, ← hlength]

end FlowEngine
