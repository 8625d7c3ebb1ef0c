import FlowEngine.Proofs.Interpreter
import FlowEngine.Proofs.Reachable

/-! # Tenants and their sessions

A request with an identifier addresses the session that its tenant finds under it. Where there is
none, the request is refused at its first look at the engine, and whose session has the identifier
makes no difference. Where there is one, the request calls the provider for the tenant of that
session only, and works on no other session. A sweep calls the provider for the sessions that it has
removed, each for its own tenant.
-/
namespace FlowEngine

variable {α : Type} {K : Conduct}

def Change.session? : Change → Option Handle
  | .values h _ | .startRun h | .finishRun h | .failRun h | .begin h _ _ | .complete h _ _ _
  | .fail h _ _ _ | .noteConversation h _ _ | .noteAppRun h _ _ => some h
  | .log _ | .enlist _ | .withdraw _ | .sweep _ => none

theorem Change.session_apply {c : Change} {e : Engine} {k : Handle} (hc : c.session? ≠ some k)
    (hk : k < e.sessions.length) : (c.apply e).session k = e.session k := by
  cases c with
  | log r => rw [apply, Engine.session_log]
  | enlist s =>
    have hne : k ≠ e.nextHandle := Nat.ne_of_lt hk
    rw [session_enlist, if_neg hne]
  | withdraw h => rfl
  | sweep b => rfl
  | _ =>
    refine Engine.session_modifySession_of_ne ?_ e _
    rintro rfl
    exact hc rfl

theorem Change.session?_of_record? {c : Change} {h : Handle} {i : Nat}
    (hc : c.record? = some (h, i)) : c.session? = some h := by
  cases c <;> cases hc <;> rfl

theorem Change.session?_of_run? {c : Change} {h : Handle} (hc : c.run? = some h) :
    c.session? = some h := by
  cases c <;> cases hc <;> rfl

namespace Engine

def Stocked (e : Engine) : Prop := ∀ h ∈ e.stored, h < e.sessions.length

/-- The session that a tenant finds under an identifier. -/
def found? (e : Engine) (tenant id : String) : Option Handle :=
  (e.find? id).filter fun h => (e.session h).tenant == tenant

variable {e e' : Engine} {id : String} {h : Handle}

theorem found?_eq_some {tenant : String} (hf : e.found? tenant id = some h) :
    h ∈ e.stored ∧ (e.session h).tenant = tenant := by
  obtain ⟨hfind, htenant⟩ := Option.filter_eq_some_iff.mp hf
  exact ⟨List.mem_of_find?_eq_some hfind, by simpa using htenant⟩

theorem found?_eq_none {tenant : String}
    (hf : ∀ h, e.find? id = some h → (e.session h).tenant ≠ tenant) :
    e.found? tenant id = none := by
  rw [found?, Option.filter_eq_none_iff]
  intro h hh
  simpa using hf h hh

theorem Evolves.tenant (he : e.Evolves e') (hlt : h < e.sessions.length) :
    (e'.session h).tenant = (e.session h).tenant :=
  congrArg SessionOutline.tenant ((hosts_of_lt hlt).evolve he).outline

end Engine

/-- During a call others may work on sessions and bring in new ones, as operations do. -/
structure Conduct.Orderly (K : Conduct) : Prop where
  evolves : ∀ {s t}, K.meanwhile s t → s.engine.Evolves t.engine
  stocked : ∀ {s t}, K.meanwhile s t → s.engine.Stocked → t.engine.Stocked

def Conduct.Spares (K : Conduct) (k : Handle) : Prop :=
  ∀ {s t}, K.meanwhile s t → t.engine.session k = s.engine.session k

theorem Conduct.solitary_orderly (answers) : (Conduct.solitary answers).Orderly := by
  constructor
  · rintro s t ⟨b, rfl⟩
    exact Engine.Evolves.refl _
  · rintro s t ⟨b, rfl⟩ hs
    exact hs

theorem Conduct.solitary_spares (answers) (k : Handle) : (Conduct.solitary answers).Spares k := by
  rintro s t ⟨b, rfl⟩
  rfl

/-- The call deletes a file that a session had when it was removed, for the tenant of that
session. -/
def Releases (own : List Moment) (c : ProviderCall) : Prop :=
  ∃ e h, ⟨e, .change (.withdraw h)⟩ ∈ own ∧
    ∃ file ∈ (e.session h).allInputs.values.filterMap Input.file,
      c = .delete (e.session h).tenant file

/-- An operation that began in `start` has worked on the target only, if there is one, and has
called the provider for the tenant of the target, or for sessions that it has removed. -/
structure Apart (K : Conduct) (target : Option Handle) (start : Story) (s : Situation) : Prop where
  evolves : start.engine.Evolves s.engine
  stocked : s.engine.Stocked
  changes : ∀ e c k, ⟨e, .change c⟩ ∈ s.own → c.session? = some k → target = some k
  calls : ∀ e c r, ⟨e, .call c r⟩ ∈ s.own →
    (∃ h, target = some h ∧ c.tenant = (e.session h).tenant) ∨ Releases s.own c
  others : ∀ k, target ≠ some k → k < start.engine.sessions.length → K.Spares k →
    s.engine.session k = start.engine.session k

namespace Apart

variable {target : Option Handle} {start : Story} {s s' : Situation} {c : ProviderCall}
  {r : c.Outcome} {tenant : String} {h : Handle}

theorem enter (hs : start.engine.Stocked) : Apart K target start start.enter :=
  ⟨Engine.Evolves.refl _, hs, by simp [Story.enter], by simp [Story.enter], fun _ _ _ _ => rfl⟩

theorem Releases.cons {own : List Moment} {c : ProviderCall} (m : Moment) (hr : Releases own c) :
    Releases (m :: own) c := by
  obtain ⟨e, h, hm, hfile⟩ := hr
  exact ⟨e, h, List.mem_cons_of_mem _ hm, hfile⟩

theorem change (ha : Apart K target start s) {c : Change}
    (hc : ∀ k, c.session? = some k → target = some k) : Apart K target start (s.change c) := by
  refine ⟨ha.evolves.trans (Change.evolves_apply c _), Engine.stored_apply ha.stocked, ?_, ?_, ?_⟩
  · intro e d k hm hd
    rcases List.mem_cons.mp hm with heq | hm
    · cases heq
      exact hc k hd
    · exact ha.changes e d k hm hd
  · intro e d r hm
    rcases List.mem_cons.mp hm with heq | hm
    · cases heq
    · exact (ha.calls e d r hm).imp id (Releases.cons _)
  · intro k hk hlt hspares
    have hlt' := Nat.lt_of_lt_of_le hlt ha.evolves.length_le
    rw [Situation.change_engine, Change.session_apply (fun heq => hk (hc k heq)) hlt']
    exact ha.others k hk hlt hspares

theorem called (hK : K.Orderly) (ha : Apart K target start s) (hm : K.Meets s c r s')
    (hc : (∃ h, target = some h ∧ c.tenant = (s'.engine.session h).tenant) ∨ Releases s.own c) :
    Apart K target start s' := by
  obtain ⟨t, ht, -, rfl⟩ := hm
  have hevolves : s.engine.Evolves t.engine := hK.evolves ht
  refine ⟨ha.evolves.trans hevolves, hK.stocked (t := t) ht ha.stocked, ?_, ?_, ?_⟩
  · intro e d k hm hd
    rcases List.mem_cons.mp hm with heq | hm
    · cases heq
    · exact ha.changes e d k hm hd
  · intro e d r hm
    rcases List.mem_cons.mp hm with heq | hm
    · cases heq
      exact hc.imp id (Releases.cons _)
    · exact (ha.calls e d r hm).imp id (Releases.cons _)
  · intro k hk hlt hspares
    exact (hspares ht).trans (ha.others k hk hlt hspares)

end Apart

/-! ## Requests for a session -/

structure Scope.Works (B : Scope) (tenant : String) (h : Handle) : Prop
    extends Scope.Steps B tenant h where
  sees : ∀ e, B.sees e → (e.session h).tenant = tenant
  run : ∀ c, Change.run? c = some h → B.makes c
  withdraw : ∀ k, B.makes (.withdraw k)

def Scope.confined (tenant : String) (h : Handle) : Scope where
  sees e := (e.session h).tenant = tenant
  makes c := ∀ k, c.session? = some k → k = h
  calls c := c.tenant = tenant

theorem Scope.confined_works (tenant : String) (h : Handle) :
    (Scope.confined tenant h).Works tenant h := by
  have hsession : ∀ c : Change, c.session? = some h → (Scope.confined tenant h).makes c := by
    intro c hc k hk
    rw [hc] at hk
    exact (Option.some.inj hk).symm
  refine ⟨⟨⟨?_, fun t => hsession _ rfl, fun _ => id⟩, ?_⟩, fun _ => id, ?_, ?_⟩
  · intro r k hk
    cases hk
  · exact fun c i hc => hsession c (Change.session?_of_record? hc)
  · exact fun c hc => hsession c (Change.session?_of_run? hc)
  · intro k k' hk
    cases hk

theorem Proc.Within.apart (hK : K.Orderly) {start : Story} {h : Handle}
    (hlt : h < start.engine.sessions.length) {V : α → Prop} {p : Proc α}
    (hp : p.Within (.confined (start.engine.session h).tenant h) V) {s : Situation}
    (hs : Apart K (some h) start s) :
    p.Assures K (Apart K (some h) start) (fun _ => Apart K (some h) start) s := by
  have htenant : ∀ s : Situation, Apart K (some h) start s →
      (s.engine.session h).tenant = (start.engine.session h).tenant :=
    fun s ha => ha.evolves.tenant hlt
  refine (hp.assures htenant ?_ ?_ hs).imp fun _ _ h => h.2
  · exact fun s c ha hc => ha.change fun k hk => congrArg some (hc k hk).symm
  · intro s c r s' ha hc hm
    refine ha.called hK hm (.inl ⟨h, rfl, ?_⟩)
    obtain ⟨t, ht, -, rfl⟩ := hm
    have hevolves : start.engine.Evolves t.engine := ha.evolves.trans (hK.evolves ht)
    exact hc.trans (hevolves.tenant hlt).symm

namespace Sessions

variable {B : Scope} {tenant : String} {h : Handle}

/-- The operation looks for a session first; it works on what it finds, or fails. -/
def Opens (tenant id : String) (a : Attempt α) : Prop :=
  ∃ work : Handle → Proc (Except EngineFault α),
    (a.run = .observe fun e =>
      match e.found? tenant id with
      | some h => work h
      | none => .done (.error (.unknownSession id))) ∧
    ∀ B h, Scope.Works B tenant h → (work h).Within B fun _ => True

theorem find_opens (tenant id : String) : Opens tenant id (find tenant id) := by
  refine ⟨fun h => .done (.ok h), congrArg Proc.observe (funext fun e => ?_), fun _ _ _ => trivial⟩
  show (match e.found? tenant id with
    | some h => pure h
    | none => throw (.unknownSession id) : Attempt Handle).run = _
  cases e.found? tenant id <;> rfl

theorem opens_bind {id : String} {g : Handle → Attempt α}
    (hg : ∀ B h, Scope.Works B tenant h → Attempt.Within B (fun _ => True) (fun _ => True) (g h)) :
    Opens tenant id (find tenant id >>= g) := by
  refine ⟨fun h => (g h).run, congrArg Proc.observe (funext fun e => ?_),
    fun B h hb => (hg B h hb).proc⟩
  show ((match e.found? tenant id with
    | some h => pure h
    | none => throw (.unknownSession id) : Attempt Handle) >>= g).run = _
  cases e.found? tenant id <;> rfl

theorem changeInputs_opens (tenant id : String)
    (change : Session → Except EngineFault (List Input × Session)) :
    Opens tenant id (changeInputs tenant id change) := by
  refine opens_bind fun B h hb => ?_
  simp only [Attempt.within_bind, Attempt.within_lift, Proc.within_session,
    Attempt.within_ofExcept, Proc.within_change]
  refine fun e he => ⟨fun v _ => ⟨hb.values _, ?_⟩, fun _ _ => trivial⟩
  split
  · simp only [Attempt.within_bind, Attempt.within_lift]
    exact Inputs.release_within (hb.sees e he ▸ hb.deletes) _ _
  · trivial

theorem runStep_opens (f : Facilities) (tenant id step : String) (userInput : Option String)
    (withRequired : Bool) : Opens tenant id (runStep f tenant id step userInput withRequired) := by
  refine opens_bind fun B h hb => ?_
  simp only [Attempt.within_bind, Attempt.within_lift, Proc.within_session,
    Attempt.within_ofExcept]
  refine fun e _ => ⟨fun x _ => ?_, fun _ _ => trivial⟩
  split
  · trivial
  · split
    · trivial
    · exact Steps.runStep_within (o := ⟨tenant, h, userInput, withRequired⟩) hb.toSteps _ _

theorem run_opens (f : Facilities) (tenant id : String) : Opens tenant id (run f tenant id) := by
  refine opens_bind fun B h hb => ?_
  simp only [Attempt.within_bind, Attempt.within_lift, Proc.within_session,
    Attempt.within_ofExcept, Proc.within_change, Proc.within_log, Attempt.within_outcome]
  refine fun e _ => ⟨fun _ _ => ⟨hb.run _ rfl, hb.log _, ?_⟩, fun _ _ => trivial⟩
  refine (runAllSteps_within hb.toSteps f _).mono (fun _ h => h) (fun _ h => h)
    (fun _ h => h) ?_ ?_
  · exact fun _ _ => ⟨hb.run _ rfl, hb.log _, trivial⟩
  · exact fun _ _ => ⟨hb.run _ rfl, hb.log _, trivial⟩

theorem report_opens (tenant id step : String) : Opens tenant id (report tenant id step) := by
  refine opens_bind fun B h _ => ?_
  simp

theorem render_opens (f : Facilities) (tenant id : String) (template : Option String) :
    Opens tenant id (render f tenant id template) := by
  refine opens_bind fun B h _ => ?_
  simp only [Attempt.within_bind, Attempt.within_lift, Proc.within_session]
  intro e _
  split
  · trivial
  · split
    · trivial
    · split <;> trivial

theorem delete_opens (tenant id : String) : Opens tenant id (delete tenant id) := by
  refine opens_bind fun B h hb => ?_
  rw [Attempt.within_lift]
  exact remove_within (fun e he => hb.sees e he ▸ hb.deletes) hb.withdraw

end Sessions

namespace Request

/-- The tenant that makes a request, and the identifier of the session that it is for. -/
def address? : Request → Option (String × String)
  | .find tenant id | .addText tenant id _ _ | .add tenant id _ _ | .replace tenant id _ _
  | .clear tenant id _ | .runStep tenant id _ _ _ | .run tenant id | .report tenant id _
  | .render tenant id _ | .delete tenant id => some (tenant, id)
  | .create _ _ _ | .remove _ | .removeIf _ _ | .sweep _ _ => none

def failed (fault : EngineFault) : (q : Request) → Option q.Reply
  | .create _ _ _ | .find _ _ | .addText _ _ _ _ | .add _ _ _ _ | .replace _ _ _ _
  | .clear _ _ _ | .runStep _ _ _ _ _ | .run _ _ | .report _ _ _ | .render _ _ _
  | .delete _ _ => some (.error fault)
  | .remove _ | .removeIf _ _ | .sweep _ _ => none

/-- The session that a request is for, as the engine is when it is made. -/
def target? (e : Engine) : Request → Option Handle
  | .remove h => some h
  | .removeIf id _ => e.find? id
  | q => q.address?.bind fun (tenant, id) => e.found? tenant id

theorem opens (f : Facilities) {q : Request} {tenant id : String}
    (hq : q.address? = some (tenant, id)) :
    ∃ (work : Handle → Proc q.Reply) (refusal : q.Reply),
      q.failed (.unknownSession id) = some refusal ∧
      (q.proc f = .observe fun e =>
        match e.found? tenant id with
        | some h => work h
        | none => .done refusal) ∧
      ∀ B h, Scope.Works B tenant h → (work h).Within B fun _ => True := by
  have of_opens : ∀ {α : Type} {a : Attempt α}, Sessions.Opens tenant id a →
      ∃ (work : Handle → Proc (Except EngineFault α)) (refusal : Except EngineFault α),
        some (.error (.unknownSession id)) = some refusal ∧
        (a.run = .observe fun e =>
          match e.found? tenant id with
          | some h => work h
          | none => .done refusal) ∧
        ∀ B h, Scope.Works B tenant h → (work h).Within B fun _ => True :=
    fun ⟨work, hrun, hwithin⟩ => ⟨work, _, rfl, hrun, hwithin⟩
  cases q with
  | create | remove | removeIf | sweep => cases hq
  | find => cases hq; exact of_opens (Sessions.find_opens tenant id)
  | addText => cases hq; exact of_opens (Sessions.changeInputs_opens tenant id _)
  | add => cases hq; exact of_opens (Sessions.changeInputs_opens tenant id _)
  | replace => cases hq; exact of_opens (Sessions.changeInputs_opens tenant id _)
  | clear => cases hq; exact of_opens (Sessions.changeInputs_opens tenant id _)
  | runStep => cases hq; exact of_opens (Sessions.runStep_opens f tenant id _ _ _)
  | run => cases hq; exact of_opens (Sessions.run_opens f tenant id)
  | report => cases hq; exact of_opens (Sessions.report_opens tenant id _)
  | render => cases hq; exact of_opens (Sessions.render_opens f tenant id _)
  | delete => cases hq; exact of_opens (Sessions.delete_opens tenant id)

end Request
/-! ## Requests for the store -/

section Store

variable {target : Option Handle} {start : Story} {s : Situation}

theorem Apart.aside (ha : Apart K target start s) {c : Change} (hc : c.session? = none) :
    Apart K target start (s.change c) := by
  refine ha.change fun k hk => ?_
  rw [hc] at hk
  cases hk

theorem Apart.log (ha : Apart K target start s) (r : LogRecord) :
    Apart K target start (s.change (.log r)) :=
  ha.aside rfl

theorem Inputs.releaseFiles_only {B : Scope} {tenant : String} (hlog : ∀ r, B.makes (.log r))
    (session : String) {files : List String}
    (hcalls : ∀ file ∈ files, B.calls (.delete tenant file)) :
    (releaseFiles tenant session files).Within B fun _ => True := by
  induction files with
  | nil => trivial
  | cons file rest ih =>
    have deleted : (deleteFile tenant session file).Within B fun _ => True := by
      simp only [deleteFile, Proc.within_bind', Proc.within_ask]
      refine ⟨hcalls file List.mem_cons_self, ?_⟩
      rintro (fault | v)
      · simp [hlog]
      · trivial
    refine deleted.bind fun _ _ => ?_
    exact (ih fun other hm => hcalls other (List.mem_cons_of_mem _ hm)).bind fun _ _ => trivial

theorem Sessions.releaseRemoved_apart (hK : K.Orderly) {h : Handle} {e : Engine}
    (hm : ⟨e, .change (.withdraw h)⟩ ∈ s.own) (heq : s.engine.session h = e.session h)
    (hs : Apart K target start s) :
    (releaseRemoved h).Assures K (Apart K target start) (fun _ => Apart K target start) s := by
  simp only [releaseRemoved, Inputs.releaseSession, Proc.assures_bind', Proc.assures_session,
    Proc.assures_log, Proc.assures_pure, heq]
  let releasing : Scope := ⟨fun _ => True, fun c => ∃ r, c = .log r, Releases s.own⟩
  have hfiles : ∀ file ∈ (e.session h).allInputs.values.filterMap Input.file,
      releasing.calls (.delete (e.session h).tenant file) :=
    fun file hfile => ⟨e, h, hm, file, hfile, rfl⟩
  have hwithin := Inputs.releaseFiles_only (B := releasing) (fun r => ⟨r, rfl⟩) (e.session h).id
    hfiles
  refine (hwithin.assures (J := fun s' => Apart K target start s' ∧ s.own ⊆ s'.own)
    (fun _ _ => trivial) ?_ ?_ ⟨hs, List.Subset.refl _⟩).mono (fun _ h => h.1) ?_
  · rintro s' c ⟨ha, hsub⟩ ⟨r, rfl⟩
    exact ⟨ha.log r, List.Subset.trans hsub (List.subset_cons_self _ _)⟩
  · rintro s' c r s'' ⟨ha, hsub⟩ ⟨e', h', hm', hfile⟩ hmeets
    refine ⟨ha.called hK hmeets (.inr ⟨e', h', hsub hm', hfile⟩), ?_⟩
    obtain ⟨t, -, -, rfl⟩ := hmeets
    exact List.Subset.trans hsub (List.subset_cons_self _ _)
  · rintro summary s' ⟨-, ha, -⟩
    exact ⟨ha.log _, ha.log _⟩

theorem Sessions.removeIf_apart (hK : K.Orderly) (id : String) (condition : Session → Bool)
    (hs : Apart K target start s) :
    (removeIf id condition).Assures K (Apart K target start) (fun _ => Apart K target start) s := by
  simp only [removeIf, Proc.assures_bind', Proc.assures_engine]
  split
  · exact hs
  · next h hr =>
    simp only [Proc.assures_bind', Proc.assures_change, Proc.assures_pure]
    have hw := hs.aside (c := .withdraw h) rfl
    exact ⟨hw, releaseRemoved_apart hK List.mem_cons_self rfl hw⟩

theorem Sweep.visitAll_apart (hK : K.Orderly) (limit : Nat) (now : Int) (started : Nat)
    (summary : SweepSummary) (handles : List Handle) (hs : Apart K target start s) :
    (visitAll limit now started summary handles).Assures K (Apart K target start)
      (fun _ => Apart K target start) s := by
  induction handles generalizing summary s with
  | nil => exact hs
  | cons h rest ih =>
    simp only [visitAll, Proc.assures_bind', Proc.assures_stopwatch]
    intro t
    split
    · exact hs
    · simp only [visit, Proc.assures_bind', Proc.assures_session]
      refine (Sessions.removeIf_apart hK _ _ hs).imp fun release s' hs' => ?_
      split
      · exact ih _ hs'
      · simp only [Proc.assures_bind', Proc.assures_session, Proc.assures_log, Proc.assures_pure]
        exact ⟨hs'.log _, ih _ (hs'.log _)⟩

theorem Sweep.run_apart (hK : K.Orderly) (limit : Nat) (now : Int) (hs : Apart K target start s) :
    (run limit now).Assures K (Apart K target start) (fun _ => Apart K target start) s := by
  simp only [run, Proc.assures_bind', Proc.assures_engine]
  split
  · simp only [Proc.assures_bind', Proc.assures_log, Proc.assures_pure]
    exact ⟨hs.log _, hs.log _⟩
  · simp only [Proc.assures_bind', Proc.assures_change, Proc.assures_stopwatch,
      Proc.assures_listed, Proc.assures_log, Proc.assures_pure]
    have hsweep : ∀ {s : Situation} (b : Bool), Apart K target start s →
        Apart K target start (s.change (.sweep b)) := fun _ ha => ha.aside rfl
    refine ⟨hsweep true hs, fun t listed _ => ?_⟩
    refine (visitAll_apart hK limit now t _ _ (hsweep true hs)).imp fun _ _ hs' => ?_
    exact ⟨hs'.log _, hsweep false (hs'.log _), hsweep false (hs'.log _)⟩

theorem Sessions.createWith_apart (tenant : String) (flow : Flow) (now : Int) (attempts : Nat)
    (hs : Apart K target start s) :
    Attempt.Assures K (Apart K target start) (fun _ => Apart K target start)
      (fun _ => Apart K target start) (createWith tenant flow now attempts) s := by
  induction attempts with
  | zero => exact hs
  | succ attempts ih =>
    simp only [createWith, Attempt.assures_bind, Attempt.assures_lift, Proc.assures_word]
    intro word
    split
    · exact hs
    · simp only [Attempt.assures_bind, Attempt.assures_ofExcept, Attempt.assures_lift,
        Proc.assures_engine]
      refine ⟨fun t _ => ?_, fun _ _ => hs⟩
      split
      · exact ih
      · simp only [Attempt.assures_bind, Attempt.assures_lift, Proc.assures_change,
          Proc.assures_log, Attempt.assures_pure]
        have henlist := hs.aside (c := .enlist t) rfl
        exact ⟨henlist, henlist.log _, henlist.log _⟩

theorem Sessions.create_apart (tenant flow : String) (version : Option UInt32)
    (hs : Apart K target start s) :
    Attempt.Assures K (Apart K target start) (fun _ => Apart K target start)
      (fun _ => Apart K target start) (create tenant flow version) s := by
  simp only [create, Attempt.assures_bind, Attempt.assures_lift, Proc.assures_engine]
  split
  · exact hs
  · simp only [Attempt.assures_bind, Attempt.assures_lift, Proc.assures_now]
    exact fun now => createWith_apart tenant _ now _ hs

end Store

namespace Request

theorem target?_of_address {q : Request} {tenant id : String} (hq : q.address? = some (tenant, id))
    (e : Engine) : q.target? e = e.found? tenant id := by
  cases q <;> cases hq <;> rfl

theorem assures_apart (hK : K.Orderly) (f : Facilities) (q : Request) {start : Story}
    (hs : start.engine.Stocked) (hq : ∀ h, q = .remove h → h < start.engine.sessions.length) :
    (q.proc f).Assures K (Apart K (q.target? start.engine) start)
      (fun _ => Apart K (q.target? start.engine) start) start.enter := by
  have henter : ∀ target, Apart K target start start.enter := fun _ => .enter hs
  cases haddress : q.address? with
  | some address =>
    obtain ⟨tenant, id⟩ := address
    obtain ⟨work, refusal, -, hproc, hwithin⟩ := q.opens f haddress
    rw [hproc, target?_of_address haddress]
    show Proc.Assures K _ _ (match start.engine.found? tenant id with
      | some h => work h
      | none => .done refusal) start.enter
    cases hfound : start.engine.found? tenant id with
    | none => exact henter none
    | some h =>
      obtain ⟨hstored, rfl⟩ := Engine.found?_eq_some hfound
      exact (hwithin _ h (Scope.confined_works _ h)).apart hK (hs h hstored) (henter _)
  | none =>
    cases q with
    | create tenant flow version =>
      exact (Sessions.create_apart tenant flow version (henter _)).proc
    | remove h =>
      have hb := Scope.confined_works (start.engine.session h).tenant h
      exact (Sessions.remove_within (fun e he => hb.sees e he ▸ hb.deletes) hb.withdraw).apart hK
        (hq h rfl) (henter _)
    | removeIf id condition => exact Sessions.removeIf_apart hK id condition (henter _)
    | sweep limit now => exact Sweep.run_apart hK limit now (henter _)
    | _ => cases haddress

end Request

/-- Requests have been made one after another. -/
inductive Succession (K : Conduct) (f : Facilities) (start : Story) : Story → Prop where
  | refl : Succession K f start start
  | request {s t : Story} {q : Request} {r : q.Reply} {s' : Situation} :
      Succession K f start s → K.meanwhile s t → Execution K (q.proc f, t.enter) (.done r, s') →
      Succession K f start s'.toStory

theorem Succession.stocked (hK : K.Orderly) {f : Facilities} {start s : Story}
    (hs : Succession K f start s) (hstart : start.engine.Stocked) : s.engine.Stocked := by
  induction hs with
  | refl => exact hstart
  | @request s t q r s' _ ht hx ih =>
    have hkeeps : (q.proc f).Assures K (·.engine.Stocked) (fun _ => (·.engine.Stocked))
        t.enter := by
      refine Proc.assures_always (fun _ _ => Engine.stored_apply) ?_ _ (hK.stocked ht ih)
      rintro s c r s' hs ⟨t, ht, -, rfl⟩
      exact hK.stocked (t := t) ht hs
    exact (execution_ends hx (hK.stocked ht ih) hkeeps).2

/-- After any requests from any store that holds sessions: if a tenant makes a request for a session
that is not there or is another tenant's, the reply is the same refusal in both cases, and nothing
is changed or called. Every request works on its target only, if it has one, leaves all other
sessions as they are, and calls the provider only for the tenant of its target; sessions that it has
removed have their files deleted, each for its own tenant. -/
theorem tenants_kept_apart (hK : K.Orderly) (f : Facilities) {start s : Story}
    (hstart : start.engine.Stocked) (hs : Succession K f start s) (q : Request) :
    (∀ tenant id, q.address? = some (tenant, id) →
      (∀ h, s.engine.find? id = some h → (s.engine.session h).tenant ≠ tenant) →
      ∃ refusal, q.failed (.unknownSession id) = some refusal ∧
        Execution K (q.proc f, s.enter) (.done refusal, s.enter) ∧
        ∀ y, Execution K (q.proc f, s.enter) y →
          y.2 = s.enter ∧ ∀ r, y.1 = .done r → r = refusal) ∧
    ((∀ h, q = .remove h → h < s.engine.sessions.length) →
      ∀ y, Execution K (q.proc f, s.enter) y → Apart K (q.target? s.engine) s y.2) := by
  have hstocked := hs.stocked hK hstart
  constructor
  · intro tenant id haddress hforeign
    obtain ⟨work, refusal, hfailed, hproc, -⟩ := q.opens f haddress
    have hnone := Engine.found?_eq_none hforeign
    have hassures : (q.proc f).Assures K (· = s.enter)
        (fun r s' => s' = s.enter ∧ r = refusal) s.enter := by
      rw [hproc]
      show Proc.Assures K _ _ (match s.engine.found? tenant id with
        | some h => work h
        | none => .done refusal) s.enter
      rw [hnone]
      exact ⟨rfl, rfl⟩
    refine ⟨refusal, hfailed, ?_, fun y hy => ?_⟩
    · rw [hproc]
      refine .single ?_
      have hmove : Move K (.observe fun e => match e.found? tenant id with
          | some h => work h
          | none => .done refusal, s.enter) _ := .observe
      rwa [show s.enter.engine.found? tenant id = none from hnone] at hmove
    · obtain ⟨hsame, hrest⟩ := execution_assured (I := (· = s.enter)) hy rfl hassures
      refine ⟨hsame, fun r hr => ?_⟩
      rw [hr] at hrest
      exact hrest.2
  · intro hq y hy
    have henter : Apart K (q.target? s.engine) s s.enter := .enter hstocked
    exact (execution_assured hy henter (q.assures_apart hK f hstocked hq)).1

def Sample.neighbours : Engine :=
  { Sample.engine with
    sessions := [session, (Session.new "letter-2" "globex" flow 0).toOption.getD session]
    stored := [0, 1] }

/-- The other tenant is refused the letter, as it would be if there were none; a run of the letter
makes its calls for its own tenant, and the other letter stays as it is. -/
theorem tenants_kept_apart_letters :
    let K := Conduct.solitary Conduct.anyAnswer
    let story : Story := ⟨Sample.neighbours, []⟩
    let ran := ((Request.run "acme" "letter-1").proc Sample.facilities).ahead
      (fun _ => Sample.echo) 2 story.enter
    Execution K ((Request.run "globex" "letter-1").proc Sample.facilities, story.enter)
        (.done (Except.error (.unknownSession "letter-1")), story.enter) ∧
      Apart K (some 0) story ran.2 ∧
      ran.2.engine.session 1 = Sample.neighbours.session 1 ∧
      (ran.2.own.filterMap fun m =>
        match m.event with
        | .call c _ => some c.tenant
        | .change _ => none) = ["acme", "acme"] := by
  intro K story ran
  have hstocked : ∀ h ∈ story.engine.stored, h < story.engine.sessions.length := by
    decide +kernel
  have horderly : K.Orderly := Conduct.solitary_orderly _
  obtain ⟨hrefused, -⟩ := tenants_kept_apart horderly Sample.facilities hstocked .refl
    (.run "globex" "letter-1")
  obtain ⟨-, hworks⟩ := tenants_kept_apart horderly Sample.facilities hstocked .refl
    (.run "acme" "letter-1")
  have hforeign : ∀ h, story.engine.find? "letter-1" = some h →
      (story.engine.session h).tenant ≠ "globex" := by decide +kernel
  obtain ⟨refusal, hrefusal, hx, -⟩ := hrefused "globex" "letter-1" rfl hforeign
  have hmeets : ∀ s c, K.Meets s c (Sample.echo c) (s.called s.toStory c (Sample.echo c)) :=
    fun s _ => ⟨s.toStory, ⟨s.engine.stopping, rfl⟩, trivial, rfl⟩
  have hran : Execution K (_, story.enter) ran := Proc.ahead_execution _ hmeets _ 2 _
  have hapart : Apart K (some 0) story ran.2 := hworks (by simp) ran hran
  refine ⟨Option.some.inj hrefusal ▸ hx, hapart, ?_, by decide +kernel⟩
  exact hapart.others 1 (by decide) (by decide +kernel) (Conduct.solitary_spares _ 1)

end FlowEngine
