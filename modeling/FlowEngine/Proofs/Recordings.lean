import FlowEngine.Proofs.Lineage
import FlowEngine.Proofs.Submissions

/-! # On which value a file is put down

An upload is asked for with the name and the payload of a value, and its file is put down in the
slot of that value. If the value is still there when the file comes, it gets the file; if it is not,
no value does, though another like it may have come in its place.
-/
namespace FlowEngine

variable {α : Type}

def StoredFile.content (stored : StoredFile) : String × Payload := (stored.name, stored.payload)

/-- The next thing that the operation does to the engine is to put down a file in a slot. -/
inductive Proc.Files (e : Engine) (h : Handle) (slot : Nat) (file : String) : Proc α → Prop where
  | looking {after : Engine → Proc α} : Files e h slot file (.observe fun e =>
      .update (.values h ((e.session h).recordFile slot file).2) (after e))
  | filing {after : Proc α} :
      Files e h slot file (.update (.values h ((e.session h).recordFile slot file).2) after)

theorem Proc.Submits.files {h : Handle} {v : Input} {tenant name : String} {payload : Payload}
    {next : Except ProviderFault String → Proc α}
    (hs : Submits h v (Proc.call (.upload tenant name payload) next)) (e : Engine) (file : String) :
    v.content = (name, payload) ∧ (next (.ok file)).Files e h v.slot file := by
  obtain ⟨tenant', next', after, heq, hnext⟩ := hs
  cases heq
  refine ⟨rfl, ?_⟩
  rw [hnext file]
  exact .looking

namespace Story

variable {s : Story} {e : Engine} {h : Handle} {v : Input} {m : Moment}

def Pending (s : Story) : Known := fun h v => ∃ e ∈ s.engines, v ∈ (e.session h).pendingUploads

theorem Pending.had (hv : s.Pending h v) : s.Had h v := by
  obtain ⟨e, he, hv⟩ := hv
  exact ⟨e, he, (List.mem_filter.mp hv).1⟩

theorem Pending.fileless (hv : s.Pending h v) : v.file = none := by
  obtain ⟨e, -, hv⟩ := hv
  simpa [Input.isUploaded] using (List.mem_filter.mp hv).2

theorem pending_seen (hv : s.Pending.seen s.engine h v) : s.Pending h v :=
  hv.elim id fun hv => ⟨s.engine, s.engine_mem, hv⟩

theorem Pending.flagged (hv : s.Pending h v) (b : Bool) : (s.flagged b).Pending h v := by
  obtain ⟨e', he, hv⟩ := hv
  rcases List.mem_cons.mp he with rfl | he
  · exact ⟨_, engine_mem _, hv⟩
  · exact ⟨e', List.mem_cons_of_mem _ he, hv⟩

theorem Pending.moment (hv : s.Pending h v) (hm : m.engine = s.engine) :
    Pending ⟨e, m :: s.past⟩ h v := by
  obtain ⟨e', he, hv⟩ := hv
  refine ⟨e', List.mem_cons_of_mem _ ?_, hv⟩
  rwa [List.map_cons, hm]

def Meant (s : Story) (stored : StoredFile) (h : Handle) (v : Input) : Prop :=
  s.Pending h v ∧ v.content = stored.content

end Story

def Moment.Records (m : Moment) (stored : StoredFile) (h : Handle) (v : Input) : Prop :=
  m.event = .change (.values h ((m.engine.session h).recordFile v.slot stored.id).2)

/-- What operations upload are values, and the files of these uploads are put down in their slots,
each in the moment after its upload. -/
structure Machine.Purposeful (m : Machine) : Prop where
  sends : ∀ fr ∈ m.stack, fr.rest.Sends m.story.Pending
  filed : ∀ r u older stored, r :: u :: older <:+ m.story.past → u.event.uploaded? = some stored →
    ∃ h v, m.story.Meant stored h v ∧ r.Records stored h v
  awaited : ∀ u older stored, m.story.past = u :: older → u.event.uploaded? = some stored →
    ∃ h v, m.story.Meant stored h v ∧
      ∃ fr below, m.stack = fr :: below ∧ fr.rest.Files m.story.engine h v.slot stored.id

theorem Waiting.not_files {fr : Frame} {below : List Frame} {e : Engine} {h : Handle} {slot : Nat}
    {file : String} (hw : Waiting (fr :: below)) : ¬ fr.rest.Files e h slot file := by
  obtain ⟨c, next, hcall⟩ := hw fr rfl
  rw [hcall]
  intro hf
  cases hf

namespace Machine.Purposeful

variable {f : Facilities} {m m' : Machine} {story : Story} {stack below : List Frame}

theorem opening (flows : List Flow) (logging : Bool) :
    Purposeful ⟨.opening flows logging, []⟩ := by
  refine ⟨fun fr hfr => absurd hfr List.not_mem_nil, fun r u older stored hs => ?_, ?_⟩
  · cases List.suffix_nil.mp hs
  · rintro u older stored ⟨⟩

theorem idle (hm : Purposeful ⟨story, stack⟩) (hw : Waiting stack) {u : Moment}
    {older : List Moment} {stored : StoredFile} (hpast : story.past = u :: older) :
    u.event.uploaded? ≠ some stored := by
  intro hu
  obtain ⟨h, v, -, fr, below, rfl, hfiles⟩ := hm.awaited u older stored hpast hu
  exact hw.not_files hfiles

theorem flagged (hm : Purposeful ⟨story, stack⟩) (hw : Waiting stack) (b : Bool) :
    Purposeful ⟨story.flagged b, stack⟩ := by
  refine ⟨fun fr hfr => (hm.sends fr hfr).later fun _ _ hv => hv.flagged b, ?_, ?_⟩
  · intro r u older stored hs hu
    obtain ⟨h, v, ⟨hpending, hcontent⟩, hr⟩ := hm.filed r u older stored hs hu
    exact ⟨h, v, ⟨hpending.flagged b, hcontent⟩, hr⟩
  · exact fun u older stored hpast hu => absurd hu (hm.idle hw hpast)

theorem entered (hm : Purposeful ⟨story, stack⟩) (hw : Waiting stack) (f : Facilities)
    (q : Request) : Purposeful ⟨story, ⟨q, q.proc f, []⟩ :: stack⟩ :=
  ⟨List.forall_mem_cons.mpr ⟨q.sends f _, hm.sends⟩, hm.filed,
    fun _ _ _ hpast hu => absurd hu (hm.idle hw hpast)⟩

theorem left {q : Request} {r : q.Reply} {own : List Moment}
    (hm : Purposeful ⟨story, ⟨q, .done r, own⟩ :: below⟩) : Purposeful ⟨story, below⟩ := by
  refine ⟨(List.forall_mem_cons.mp hm.sends).2, hm.filed, fun u older stored hpast hu => ?_⟩
  obtain ⟨h, v, -, fr, rest, hstack, hfiles⟩ := hm.awaited u older stored hpast hu
  cases hstack
  cases hfiles

theorem look {q : Request} {p p' : Proc q.Reply} {own : List Moment}
    (hm : Purposeful ⟨story, ⟨q, p, own⟩ :: below⟩) (hsends : p'.Sends story.Pending)
    (hfiles : ∀ h slot file, p.Files story.engine h slot file → p'.Files story.engine h slot file) :
    Purposeful ⟨story, ⟨q, p', own⟩ :: below⟩ := by
  obtain ⟨-, hbelow⟩ := List.forall_mem_cons.mp hm.sends
  refine ⟨List.forall_mem_cons.mpr ⟨hsends, hbelow⟩, hm.filed, fun u older stored hpast hu => ?_⟩
  obtain ⟨h, v, hmeant, fr, rest, hstack, hput⟩ := hm.awaited u older stored hpast hu
  cases hstack
  exact ⟨h, v, hmeant, _, _, rfl, hfiles h _ _ hput⟩

theorem moment {r : Moment} {e : Engine} {stack' : List Frame} (hm : Purposeful ⟨story, stack⟩)
    (hr : r.engine = story.engine)
    (hsends : ∀ fr ∈ stack', fr.rest.Sends (Story.Pending ⟨e, r :: story.past⟩))
    (hput : ∀ u older stored, story.past = u :: older → u.event.uploaded? = some stored →
      ∃ h v, story.Meant stored h v ∧ r.Records stored h v)
    (hnext : ∀ stored, r.event.uploaded? = some stored →
      ∃ h v, Story.Meant ⟨e, r :: story.past⟩ stored h v ∧
        ∃ fr below, stack' = fr :: below ∧ fr.rest.Files e h v.slot stored.id) :
    Purposeful ⟨⟨e, r :: story.past⟩, stack'⟩ := by
  refine ⟨hsends, fun r' u older stored hs hu => ?_, fun u older stored hpast hu => ?_⟩
  · have hearlier : ∃ h v, story.Meant stored h v ∧ r'.Records stored h v := by
      rcases List.suffix_cons_iff.mp hs with heq | hs
      · obtain ⟨rfl, hpast⟩ := List.cons.inj heq
        exact hput u older stored hpast.symm hu
      · exact hm.filed r' u older stored hs hu
    obtain ⟨h, v, ⟨hpending, hcontent⟩, hrecords⟩ := hearlier
    exact ⟨h, v, ⟨hpending.moment hr, hcontent⟩, hrecords⟩
  · obtain ⟨rfl, -⟩ := List.cons.inj hpast
    exact hnext stored hu

theorem answered {q : Request} {own own' : List Moment} {c : ProviderCall}
    {next : c.Outcome → Proc q.Reply} (hm : Purposeful ⟨story, ⟨q, .call c next, own⟩ :: below⟩)
    (r : c.Outcome) : Purposeful ⟨story.called c r, ⟨q, next r, own'⟩ :: below⟩ := by
  obtain ⟨⟨hsubmits, hnext⟩, hbelow⟩ := List.forall_mem_cons.mp hm.sends
  have hgrown : ∀ h v, story.Pending h v → (story.called c r).Pending h v :=
    fun _ _ hv => hv.moment rfl
  refine hm.moment rfl ?_ ?_ ?_
  · exact List.forall_mem_cons.mpr ⟨(hnext r).later hgrown,
      fun fr hfr => (hbelow fr hfr).later hgrown⟩
  · intro u older stored hpast hu
    obtain ⟨h, v, -, fr, rest, hstack, hfiles⟩ := hm.awaited u older stored hpast hu
    cases hstack
    cases hfiles
  · intro stored hu
    cases c with
    | upload tenant name payload =>
      cases r with
      | error fault => cases hu
      | ok file =>
        cases hu
        obtain ⟨h, v, hpending, hs⟩ := hsubmits trivial
        obtain ⟨hcontent, hfiles⟩ := hs.files story.engine file
        exact ⟨h, v, ⟨hgrown h v hpending, hcontent⟩, _, _, rfl, hfiles⟩
    | _ => cases hu

theorem changed {q : Request} {own own' : List Moment} {c : Change} {next : Proc q.Reply}
    (hm : Purposeful ⟨story, ⟨q, .update c next, own⟩ :: below⟩) :
    Purposeful ⟨story.change c, ⟨q, next, own'⟩ :: below⟩ := by
  obtain ⟨hnext, hbelow⟩ := List.forall_mem_cons.mp hm.sends
  have hgrown : ∀ h v, story.Pending h v → (story.change c).Pending h v :=
    fun _ _ hv => hv.moment rfl
  refine hm.moment rfl ?_ ?_ ?_
  · exact List.forall_mem_cons.mpr ⟨Proc.Sends.later hnext hgrown,
      fun fr hfr => (hbelow fr hfr).later hgrown⟩
  · intro u older stored hpast hu
    obtain ⟨h, v, hmeant, fr, rest, hstack, hfiles⟩ := hm.awaited u older stored hpast hu
    cases hstack
    have hchange : Proc.Files story.engine h v.slot stored.id (.update c next) := hfiles
    cases hchange
    exact ⟨h, v, hmeant, rfl⟩
  · intro stored hu
    cases hu

theorem edited (hm : Purposeful ⟨story, stack⟩) (hw : Waiting stack) (h : Handle) (t : Session) :
    Purposeful ⟨story.change (.values h t), stack⟩ := by
  refine hm.moment rfl (fun fr hfr => (hm.sends fr hfr).later fun _ _ hv => hv.moment rfl) ?_ ?_
  · exact fun u older stored hpast hu => absurd hu (hm.idle hw hpast)
  · intro stored hu
    cases hu

theorem stir (hm : m.Purposeful) (h : m.Stir f m') : m'.Purposeful := by
  cases h with
  | edit hw => exact hm.edited hw _ _
  | step h =>
    cases h with
    | flag b hw => exact hm.flagged hw b
    | enter q hw => exact hm.entered hw f q
    | leave => exact hm.left
    | act hmove =>
      have hsends := hm.sends _ List.mem_cons_self
      cases hmove with
      | update => exact hm.changed
      | call hmeets =>
        obtain ⟨t, rfl, -, rfl⟩ := hmeets
        exact hm.answered _
      | observe =>
        refine hm.look (Proc.Sends.later (hsends _) fun _ _ => Story.pending_seen) ?_
        intro h slot file hfiles
        cases hfiles
        exact .filing
      | clock | instant | sample | listing =>
        refine hm.look (hsends _) ?_
        intro h slot file hfiles
        cases hfiles
      | await =>
        refine hm.look (Proc.sends_poll hsends) ?_
        intro h slot file hfiles
        cases hfiles

theorem attended (hm : m.Attended f) : m.Purposeful := by
  obtain ⟨flows, logging, hsteps⟩ := hm
  induction hsteps with
  | refl => exact opening flows logging
  | tail _ hstep ih => exact ih.stir hstep

theorem recorded (hm : m.Purposeful) (hc : Chronicled m.story) {h : Handle} {slot : Nat}
    {stored : StoredFile} (hr : Recording m.story.past h slot stored) {v : Input}
    (hv : m.story.Had h v) (hslot : v.slot = slot) : v.content = stored.content := by
  obtain ⟨r, u, older, t, hsuffix, hu, hevent, ⟨before, hbefore, hwas, hnot⟩, w, hw, his, hfile⟩ := hr
  obtain ⟨k, meant, ⟨hpending, hcontent⟩, hrecords⟩ := hm.filed r u older stored hsuffix hu
  obtain ⟨rfl, rfl⟩ := Change.values.inj (Event.change.inj (hevent.symm.trans hrecords))
  rw [Session.values_recordFile] at hw
  obtain ⟨x, hx, rfl⟩ := List.mem_map.mp hw
  rw [Session.slot_noteFile] at his
  have hengine : r.engine ∈ m.story.engines :=
    List.mem_cons_of_mem _ (List.mem_map_of_mem (hsuffix.subset List.mem_cons_self))
  have hsame : x = before := List.inj_on_of_nodup_map ((hc.kept _ hengine).booked h).slots hx
    hbefore (his.trans hwas.symm)
  subst hsame
  have hmeant : x.slot = meant.slot := by
    by_contra hother
    rw [Session.noteFile_of_ne hother] at hfile
    exact hnot hfile
  exact (hc.content hv hpending.had (hslot.trans (hwas.symm.trans hmeant))).trans hcontent

end Machine.Purposeful

/-! ## Uploads in flight -/

/-- No value of the session has the slot. -/
def Engine.Lacks (e : Engine) (h : Handle) (slot : Nat) : Prop :=
  ∀ w ∈ (e.session h).values, w.slot ≠ slot

instance (e : Engine) (h : Handle) (slot : Nat) : Decidable (e.Lacks h slot) :=
  inferInstanceAs (Decidable (∀ w ∈ (e.session h).values, w.slot ≠ slot))

theorem Engine.values_recorded (e : Engine) (h : Handle) (slot : Nat) (file : String) (k : Handle) :
    (((Change.values h ((e.session h).recordFile slot file).2).apply e).session k).values =
      if k = h then (e.session h).values.map (Session.noteFile slot file)
      else (e.session k).values := by
  by_cases hlt : h < e.sessions.length
  · rw [values_values hlt, Session.values_recordFile]
  · have hk := holdings_values e h k ((e.session h).recordFile slot file).2
    have hnone : ¬ (k = h ∧ k < e.sessions.length) := fun hp => hlt (hp.1 ▸ hp.2)
    rw [if_neg hnone] at hk
    rw [Session.values_of_holdings hk]
    split
    · next heq =>
      rw [heq, session_of_le (Nat.le_of_not_lt hlt)]
      rfl
    · rfl

namespace Machine

variable {f : Facilities} {m m' : Machine} {story : Story} {below : List Frame} {fr : Frame}
  {h : Handle} {v : Input}

/-- The call of the innermost operation comes back with a file, and the operation goes on for two
steps. -/
def Brought (f : Facilities) (m : Machine) (file : String) (m' : Machine) : Prop :=
  ∃ (m₁ m₂ : Machine) (tenant name : String) (payload : Payload),
    m₁.story = m.story.called (.upload tenant name payload) (.ok file) ∧
      m.Stir f m₁ ∧ m₁.Stir f m₂ ∧ m₂.Stir f m'

/-- An upload has an aim: its file is for one value, which the session has or has had. While this
value is in the session, it alone has its slot. If the value is in the session when a file comes, it
gets the file and nothing else changes; if it has gone by then, nothing changes at all. -/
structure Aimed (f : Facilities) (m : Machine) (fr : Frame) (h : Handle) (v : Input) : Prop where
  had : m.story.Had h v
  fileless : v.file = none
  same : ∀ m', Relation.ReflTransGen (Stir f) m m' → ∀ w ∈ (m'.story.engine.session h).values,
    w.slot = v.slot → w.content = v.content
  gone : ∀ m₁ m₂, Relation.ReflTransGen (Stir f) m m₁ → Relation.ReflTransGen (Stir f) m₁ m₂ →
    m₁.story.engine.Lacks h v.slot → m₂.story.engine.Lacks h v.slot
  brought : ∀ m', Relation.ReflTransGen (Stir f) m m' → m'.stack.head? = some fr →
    ∀ file, ∃ m'', m'.Brought f file m''
  recorded : ∀ m' m'' file, Relation.ReflTransGen (Stir f) m m' → m'.stack.head? = some fr →
    m'.Brought f file m'' → ∀ k, (m''.story.engine.session k).values =
      if k = h then (m'.story.engine.session h).values.map (Session.noteFile v.slot file)
      else (m'.story.engine.session k).values
  unrecorded : ∀ m₁ m₂ m₃ file, Relation.ReflTransGen (Stir f) m m₁ →
    m₁.story.engine.Lacks h v.slot → Relation.ReflTransGen (Stir f) m₁ m₂ →
    m₂.stack.head? = some fr → m₂.Brought f file m₃ →
    ∀ k, (m₃.story.engine.session k).values = (m₂.story.engine.session k).values

theorem Stir.of_busy {q : Request} {p : Proc q.Reply} {own : List Moment}
    (hs : Stir f ⟨story, ⟨q, p, own⟩ :: below⟩ m') (hcall : p.call? = none) :
    (∃ r, p = .done r) ∨ ∃ p' s', Move .immediate (p, ⟨story, own⟩) (p', s') ∧
      m' = ⟨s'.toStory, ⟨q, p', s'.own⟩ :: below⟩ := by
  have hbusy : ¬ Waiting (⟨q, p, own⟩ :: below) := by
    intro hw
    obtain ⟨c, next, hwaits⟩ := hw _ rfl
    cases (congrArg Proc.call? hwaits).symm.trans hcall
  cases hs with
  | edit hw => exact absurd hw hbusy
  | step hs =>
    cases hs with
    | flag b hw => exact absurd hw hbusy
    | enter q hw => exact absurd hw hbusy
    | act hmove => exact .inr ⟨_, _, hmove, rfl⟩
    | leave => exact .inl ⟨_, rfl⟩

theorem Stir.of_observe {q : Request} {next : Engine → Proc q.Reply} {own : List Moment}
    (hs : Stir f ⟨story, ⟨q, .observe next, own⟩ :: below⟩ m') :
    m' = ⟨story, ⟨q, next story.engine, own⟩ :: below⟩ := by
  obtain ⟨r, hdone⟩ | ⟨p', s', hmove, rfl⟩ := hs.of_busy rfl
  · cases hdone
  · cases hmove
    rfl

theorem Stir.of_update {q : Request} {c : Change} {next : Proc q.Reply} {own : List Moment}
    (hs : Stir f ⟨story, ⟨q, .update c next, own⟩ :: below⟩ m') : m'.story = story.change c := by
  obtain ⟨r, hdone⟩ | ⟨p', s', hmove, rfl⟩ := hs.of_busy rfl
  · cases hdone
  · cases hmove
    rfl

theorem Stir.of_call {q : Request} {c c' : ProviderCall} {next : c.Outcome → Proc q.Reply}
    {own : List Moment} {r' : c'.Outcome} (hs : Stir f ⟨story, ⟨q, .call c next, own⟩ :: below⟩ m')
    (hstory : m'.story = story.called c' r') :
    ∃ r own', Event.call c r = .call c' r' ∧ m' = ⟨story.called c r, ⟨q, next r, own'⟩ :: below⟩ := by
  have hpast := congrArg Story.past hstory
  have hlonger : story.past ≠ (story.called c' r').past := (List.cons_ne_self _ _).symm
  cases hs with
  | edit => cases (Moment.mk.inj (List.cons.inj hpast).1).2
  | step hs =>
    cases hs with
    | flag b hw => exact absurd hpast hlonger
    | enter q hw => exact absurd hpast hlonger
    | act hmove =>
      cases hmove with
      | call hmeets =>
        obtain ⟨t, rfl, -, rfl⟩ := hmeets
        exact ⟨_, _, (Moment.mk.inj (List.cons.inj hpast).1).2, rfl⟩

theorem Stir.filed {q : Request} {p : Proc q.Reply} {own : List Moment} {slot : Nat} {file : String}
    {after : Engine → Proc q.Reply} {m₁ : Machine}
    (hs : Stir f ⟨story, ⟨q, p, own⟩ :: below⟩ m₁) (hs' : m₁.Stir f m')
    (hp : p = .observe fun e =>
      .update (.values h ((e.session h).recordFile slot file).2) (after e)) :
    m'.story = story.change (.values h ((story.engine.session h).recordFile slot file).2) := by
  subst hp
  obtain rfl := hs.of_observe
  exact hs'.of_update

theorem Brought.engine {q : Request} {p : Proc q.Reply} {own : List Moment} {file : String}
    (hb : Brought f ⟨story, ⟨q, p, own⟩ :: below⟩ file m') (hs : p.Submits h v) :
    m'.story.engine =
      (Change.values h ((story.engine.session h).recordFile v.slot file).2).apply story.engine := by
  obtain ⟨tenant, next, after, rfl, hnext⟩ := hs
  obtain ⟨m₁, m₂, tenant', name, payload, hstory, h₁, h₂, h₃⟩ := hb
  obtain ⟨r, own', hevent, rfl⟩ := h₁.of_call hstory
  cases hevent
  rw [h₂.filed h₃ (hnext file)]
  rfl

theorem Brought.exists {q : Request} {p : Proc q.Reply} {own : List Moment} (hs : p.Submits h v)
    (f : Facilities) (file : String) :
    ∃ m', Brought f ⟨story, ⟨q, p, own⟩ :: below⟩ file m' := by
  obtain ⟨tenant, next, after, rfl, hnext⟩ := hs
  have hcalled : Move .immediate (Proc.call (.upload tenant v.name v.payload) next, ⟨story, own⟩)
      (next (.ok file),
        Situation.called ⟨story, own⟩ story (.upload tenant v.name v.payload) (.ok file)) :=
    .call ⟨story, rfl, trivial, rfl⟩
  rw [hnext file] at hcalled
  exact ⟨_, _, _, tenant, v.name, v.payload, rfl, .step (.act hcalled), .step (.act .observe),
    .step (.act .update)⟩

theorem Stir.ages (hm : m.Attended f) (h : m.Stir f m') :
    m.story.engine.Ages m'.story.engine := by
  have hc := (hm.later (.single h)).chronicled
  cases h with
  | edit => exact hc.since (List.mem_cons_of_mem _ List.mem_cons_self)
  | step h =>
    cases h with
    | flag b hw => exact fun k => .refl _
    | enter q hw => exact .refl _
    | leave => exact .refl _
    | @act story own below s' q p p' hmove =>
      rcases hmove.moment with hsame | ⟨r, hengine, -, hpast, -⟩
      · obtain rfl : s' = ⟨story, own⟩ := hsame
        exact .refl _
      · refine hengine ▸ hc.since (List.mem_cons_of_mem _ ?_)
        exact List.mem_map_of_mem (hpast ▸ List.mem_cons_self)

theorem Attended.ages (hm : m.Attended f) (h : Relation.ReflTransGen (Stir f) m m') :
    m.story.engine.Ages m'.story.engine := by
  induction h with
  | refl => exact .refl _
  | tail hsteps hstep ih => exact ih.trans (hstep.ages (hm.later hsteps))

theorem Attended.same (hm : m.Attended f) (hv : m.story.Had h v)
    (h' : Relation.ReflTransGen (Stir f) m m') :
    ∀ w ∈ (m'.story.engine.session h).values, w.slot = v.slot → w.content = v.content := by
  obtain ⟨e, he, hv⟩ := hv
  intro w hw hslot
  have hages := (hm.chronicled.since he).trans (hm.ages h')
  exact ((hages h).content ((hm.chronicled.kept e he).booked h) hv hw hslot.symm).symm

theorem Attended.gone {m₁ m₂ : Machine} (hm : m.Attended f) (hv : m.story.Had h v)
    (h₁ : Relation.ReflTransGen (Stir f) m m₁) (h₂ : Relation.ReflTransGen (Stir f) m₁ m₂)
    (hlacks : m₁.story.engine.Lacks h v.slot) : m₂.story.engine.Lacks h v.slot := by
  obtain ⟨e, he, hv⟩ := hv
  intro w hw hslot
  have hgiven : v.slot < (m₁.story.engine.session h).nextSlot :=
    Nat.lt_of_lt_of_le (((hm.chronicled.kept e he).booked h).below v hv)
      ((hm.chronicled.since he).trans (hm.ages h₁) h).later
  obtain ⟨x, hx, hsame, -⟩ := ((hm.later h₁).ages h₂ h).stays w hw (hslot ▸ hgiven)
  exact hlacks x hx (hsame.trans hslot)

theorem Attended.aimed (hm : m.Attended f) (hfr : fr ∈ m.stack) {tenant name : String}
    {payload : Payload} {next : Except ProviderFault String → Proc fr.request.Reply}
    (hcall : fr.rest = .call (.upload tenant name payload) next) :
    ∃ h v, v.content = (name, payload) ∧ m.Aimed f fr h v := by
  have hsends := (Purposeful.attended hm).sends fr hfr
  rw [hcall] at hsends
  obtain ⟨h, v, hpending, hcalls⟩ := hsends.1 trivial
  have hsubmits : fr.rest.Submits h v := hcall ▸ hcalls
  have hrecorded : ∀ (m' m'' : Machine) (file : String), m'.stack.head? = some fr →
      m'.Brought f file m'' → ∀ k, (m''.story.engine.session k).values =
        if k = h then (m'.story.engine.session h).values.map (Session.noteFile v.slot file)
        else (m'.story.engine.session k).values := by
    rintro ⟨story, stack⟩ m'' file hhead hbrought k
    obtain ⟨below, rfl⟩ := List.head?_eq_some_iff.mp hhead
    rw [hbrought.engine hsubmits]
    exact Engine.values_recorded story.engine h v.slot file k
  refine ⟨h, v, (hcalls.files m.story.engine "").1, hpending.had, hpending.fileless,
    fun _ h' => hm.same hpending.had h', fun _ _ => hm.gone hpending.had, ?_,
    fun m' m'' file _ => hrecorded m' m'' file, ?_⟩
  · rintro ⟨story, stack⟩ - hhead file
    obtain ⟨below, rfl⟩ := List.head?_eq_some_iff.mp hhead
    exact Brought.exists hsubmits f file
  · intro m₁ m₂ m₃ file h₁ hlacks h₂ hhead hbrought k
    rw [hrecorded m₂ m₃ file hhead hbrought k]
    split
    · next heq =>
      have hstill := hm.gone hpending.had h₁ h₂ hlacks
      rw [heq]
      exact (List.map_congr_left fun w hw => Session.noteFile_of_ne (hstill w hw) file).trans
        (List.map_id _)
    · rfl

end Machine

section Sample

namespace Sample

/-- The draft is being uploaded for the review. -/
def uploading : Machine :=
  ((Machine.serve facilities filing create 0 ⟨.opening [flow] false, []⟩).enter facilities
    (.run "acme" "session-0-00000000")).advance filing 1

/-- The session after the draft has been taken out of it by hand. -/
def drained : Session :=
  ((uploading.story.engine.session 0).removeRedirected "draft" (.ofText "draft" "yes")).2

/-- An equal draft is put in place of the one that was taken out. -/
def substituted : Machine :=
  let story := uploading.story.change (.values 0 drained)
  let given := (story.engine.session 0).addRedirected "draft" (.ofText "draft" "yes")
  ⟨story.change (.values 0 given), uploading.stack⟩

theorem attended_uploading : uploading.Attended facilities := by
  have hanswer : ∀ past c, Regime.lax.answers past c (filing past c) := fun _ _ => trivial
  have hopening : Machine.Under .lax facilities ⟨.opening [flow] false, []⟩ := .opening _ _
  have hcreated := hopening.served hanswer (q := create) trivial 0
  exact ((hcreated.entered trivial).advanced hanswer 1).reachable.attended

theorem substituted_later : Relation.ReflTransGen (Machine.Stir facilities) uploading substituted := by
  have hw : Waiting uploading.stack := by decide +kernel
  have hlt : 0 < uploading.story.engine.sessions.length := by decide +kernel
  have htaken : Machine.Stir facilities uploading
      ⟨uploading.story.change (.values 0 drained), uploading.stack⟩ :=
    .edit hw hlt (.unredirect "draft" (.ofText "draft" "yes"))
  have hgiven : Machine.Stir facilities
      ⟨uploading.story.change (.values 0 drained), uploading.stack⟩ substituted :=
    .edit hw (by decide +kernel) (.redirect "draft" (.ofText "draft" "yes"))
  exact .tail (.single htaken) hgiven

end Sample

end Sample

/-- The file that a value has it had when it came into the session, or it was uploaded with just the
name and the payload of this value. What was put down for a slot was put down for the one value that
the session has ever had in it, and an upload in flight has such a value as its aim: however
operations are nested and values edited meanwhile, its file is for this value or for none. -/
theorem recorded_as_uploaded {f : Facilities} {m : Machine} (hm : m.Attended f) :
    (∀ h, ∀ v ∈ (m.story.engine.session h).values, ∀ file, v.file = some file →
      CameIn m.story.past h v ∨ Recording m.story.past h v.slot ⟨file, v.name, v.payload⟩) ∧
    (∀ h slot stored, Recording m.story.past h slot stored →
      ∀ v, m.story.Had h v → v.slot = slot → v.content = stored.content) ∧
    ∀ fr ∈ m.stack, ∀ (tenant name : String) (payload : Payload)
      (next : Except ProviderFault String → Proc fr.request.Reply),
      fr.rest = .call (.upload tenant name payload) next →
        ∃ h v, v.content = (name, payload) ∧ m.Aimed f fr h v := by
  have hchronicled := hm.chronicled
  have hall : ∀ h slot stored, Recording m.story.past h slot stored →
      ∀ v, m.story.Had h v → v.slot = slot → v.content = stored.content :=
    fun _ _ _ hr _ hv => (Machine.Purposeful.attended hm).recorded hchronicled hr hv
  refine ⟨fun h v hv file hfile => ?_, hall, fun fr hfr _ _ _ _ => hm.aimed hfr⟩
  refine (hchronicled.explained h v hv file hfile).imp_right ?_
  rintro ⟨⟨file', name, payload⟩, rfl, hr⟩
  have hcontent := hall h v.slot _ hr v ⟨_, m.story.engine_mem, hv⟩ rfl
  obtain ⟨rfl, rfl⟩ := Prod.mk.inj hcontent
  exact hr

section Sample

open Sample

/-- A draft with the same content has come in place of the one that is being uploaded. Whatever file
comes, no value gets it. -/
theorem recorded_as_uploaded_substituted :
    uploading.Attended facilities ∧
    Relation.ReflTransGen (Machine.Stir facilities) uploading substituted ∧
    (uploading.story.engine.session 0).values.map Input.content = [("draft", .text "yes")] ∧
    (substituted.story.engine.session 0).values.map Input.content = [("draft", .text "yes")] ∧
    ∃ fr next, substituted.stack.head? = some fr ∧
      fr.rest = .call (.upload "acme" "draft" (.text "yes")) next ∧
      ∀ file m', substituted.Brought facilities file m' → ∀ k,
        (m'.story.engine.session k).values = (substituted.story.engine.session k).values := by
  have hwaiting : uploading.stack.head?.bind (fun fr => fr.rest.call?) =
      some (.upload "acme" "draft" (.text "yes")) := by decide +kernel
  obtain ⟨fr, hhead, hcalls⟩ := Option.bind_eq_some_iff.mp hwaiting
  obtain ⟨next, hcall⟩ := Proc.eq_call hcalls
  obtain ⟨h, v, -, haimed⟩ :=
    (recorded_as_uploaded attended_uploading).2.2 fr (List.mem_of_head? hhead) _ _ _ _ hcall
  have hlacks : substituted.story.engine.Lacks h v.slot := by
    obtain ⟨e, he, hv⟩ := haimed.had
    have hone : ∀ e ∈ uploading.story.engines, e.sessions.length ≤ 1 ∧
        ∀ v ∈ (e.session 0).values, substituted.story.engine.Lacks 0 v.slot := by decide +kernel
    match h with
    | 0 => exact (hone e he).2 v hv
    | h + 1 =>
      rw [Engine.session_of_le ((hone e he).1.trans (Nat.le_add_left 1 h))] at hv
      exact absurd hv List.not_mem_nil
  refine ⟨attended_uploading, substituted_later, by decide +kernel, by decide +kernel, fr, next,
    hhead, hcall, fun file m' => ?_⟩
  exact haimed.unrecorded substituted substituted m' file substituted_later hlacks .refl hhead

end Sample

end FlowEngine
