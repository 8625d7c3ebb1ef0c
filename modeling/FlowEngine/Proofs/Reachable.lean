import FlowEngine.Proofs.Interpreter
import FlowEngine.Proofs.Parts
import FlowEngine.Proofs.Requests

/-! # Reachable stories

A story is reached by requests that are made one after another of an engine whose flows have been
registered. `Engine.Sound` holds in all of them: the flows are valid, the sessions are laid out for
their flows, those in the store have different identifiers, a step that is done has an output, and
no step was last done in a run to come.
-/
namespace FlowEngine

/-- Offers flows in turn. A flow that is refused is left out. -/
def Registry.ofFlows (flows : List Flow) : Registry :=
  flows.foldl (fun r f => (r.offer f).2) .empty

def Story.opening (flows : List Flow) (logging : Bool) : Story where
  engine := { Engine.empty with registry := .ofFlows flows, logging := logging }
  past := []

/-- Requests that are allowed have been made one after another. -/
inductive Reachable (K : Conduct) (f : Facilities) (allowed : Request → Prop) : Story → Prop where
  | opening (flows logging) : Reachable K f allowed (.opening flows logging)
  | request {s t : Story} {q : Request} {r : q.Reply} {s' : Situation} :
      Reachable K f allowed s → K.meanwhile s t → allowed q →
      Execution K (q.proc f, t.enter) (.done r, s') → Reachable K f allowed s'.toStory

/-- A record of a session whose runs are numbered up to `generation`. -/
structure StepRecord.Sound (generation : Nat) (r : StepRecord) : Prop where
  supplied : r.isDone → r.output.isSome
  counted : r.completedInRun ≤ generation

structure Engine.Sound (e : Engine) : Prop where
  valid : ∀ f ∈ e.registry.accepted, f.validate = .ok ()
  stored : ∀ h ∈ e.stored, h < e.sessions.length
  distinct : (e.stored.map fun h => (e.session h).id).Nodup
  laid : ∀ h t, e.Hosts h t → t.WellLaid
  flows : ∀ h t, e.Hosts h t → t.flow.validate = .ok ()
  records : ∀ h i r, e.record? h i = some r → r.Sound (e.session h).generation

/-- A session that is brought in was made for an accepted flow. -/
def Change.Welcome (r : Registry) (c : Change) : Prop :=
  ∀ s, c.newcomer? = some s →
    ∃ id tenant flow now, flow ∈ r.accepted ∧ Session.new id tenant flow now = .ok s

theorem Change.welcome_of_newcomer {c : Change} (hc : c.newcomer? = none) (r : Registry) :
    c.Welcome r := by
  intro s hs
  rw [hc] at hs
  cases hs

namespace Flow

theorem validate_nodup {f : Flow} (h : f.validate = .ok ()) : (f.steps.map Step.id).Nodup :=
  (validate_ok h).1.stepsDistinct

end Flow

namespace Registry

theorem mem_accepted {r : Registry} {g : Flow} :
    g ∈ r.accepted ↔ ∃ id versions version, (id, versions) ∈ r.flows ∧ (version, g) ∈ versions := by
  simp only [accepted, List.mem_flatMap, List.mem_map, Prod.exists]
  constructor
  · rintro ⟨id, versions, hv, version, f, hf, rfl⟩
    exact ⟨id, versions, version, hv, hf⟩
  · rintro ⟨id, versions, version, hv, hg⟩
    exact ⟨id, versions, hv, version, g, hg, rfl⟩

theorem accepted_offer {r : Registry} {f g : Flow} (h : g ∈ (r.offer f).2.accepted) :
    g ∈ r.accepted ∨ (g = f ∧ f.validate = .ok ()) := by
  have held : ∀ {v}, (v, g) ∈ r.versions f.id.text → g ∈ r.accepted := by
    intro v hg
    rw [versions] at hg
    cases hl : r.flows.lookup f.id.text with
    | none => simp [hl] at hg
    | some versions =>
      rw [hl] at hg
      exact mem_accepted.mpr ⟨_, versions, v, Table.mem_of_lookup hl, hg⟩
  rw [offer] at h
  split at h
  · exact .inl h
  · next hvalid =>
    split at h <;> obtain ⟨id, versions, v, hv, hg⟩ := mem_accepted.mp h <;>
      rcases Table.mem_put hv with heq | hv
    · cases heq
      exact .inl (held hg)
    · exact .inl (mem_accepted.mpr ⟨id, versions, v, hv, hg⟩)
    · cases heq
      rcases Table.mem_put hg with heq | hg
      · cases heq
        exact .inr ⟨rfl, hvalid⟩
      · exact .inl (held hg)
    · exact .inl (mem_accepted.mpr ⟨id, versions, v, hv, hg⟩)

theorem ofFlows_valid (flows : List Flow) : ∀ f ∈ (ofFlows flows).accepted, f.validate = .ok () := by
  rw [ofFlows]
  have hall : ∀ r : Registry, (∀ f ∈ r.accepted, f.validate = .ok ()) →
      ∀ f ∈ (flows.foldl (fun r f => (r.offer f).2) r).accepted, f.validate = .ok () := by
    induction flows with
    | nil => exact fun _ => id
    | cons flow rest ih =>
      intro r hr
      refine ih _ fun f hf => ?_
      rcases accepted_offer hf with hf | ⟨rfl, hv⟩
      · exact hr f hf
      · exact hv
  exact hall .empty (by simp [empty, accepted])

end Registry

namespace StepRecord

theorem Sound.later {m n : Nat} (hle : m ≤ n) {r : StepRecord} (h : r.Sound m) : r.Sound n :=
  ⟨h.supplied, Nat.le_trans h.counted hle⟩

theorem sound_fresh (now : Int) (n : Nat) : (fresh now).Sound n :=
  ⟨by simp [fresh, isDone], Nat.zero_le n⟩

end StepRecord

namespace Change

theorem registry_apply (c : Change) (e : Engine) : (c.apply e).registry = e.registry := by
  cases c with
  | log r => simp only [apply, Engine.log]; split <;> rfl
  | enlist s => simp only [apply, Engine.store]; split <;> rfl
  | _ => rfl

theorem sound_onRecord (c : Change) {n : Nat} {r : StepRecord} (h : r.Sound n) :
    (c.onRecord n r).Sound n := by
  obtain ⟨supplied, counted⟩ := h
  cases c <;> constructor <;>
    simp_all [onRecord, StepRecord.isDone]

theorem generation_apply (c : Change) (e : Engine) (h : Handle)
    (hn : c.newcomer? = none ∨ h < e.sessions.length) :
    ((c.apply e).session h).generation =
      (e.session h).generation + if c = .startRun h ∧ h < e.sessions.length then 1 else 0 := by
  by_cases hc : c.run? = some h
  · by_cases hlt : h < e.sessions.length
    · cases c <;> cases hc <;>
        simp [apply, Engine.session_modifySession_self hlt, Session.started, hlt]
    · have hvacant : (e.session h).generation = ((c.apply e).session h).generation := by
        cases c <;> cases hc <;> rw [apply, Engine.session_modifySession, if_neg fun hp => hlt hp.2]
      rw [← hvacant, if_neg fun hp => hlt hp.2]
      rfl
  · rw [(state_apply hc hn).2, if_neg]
    · rfl
    · rintro ⟨rfl, -⟩
      exact hc rfl

end Change

namespace Engine

theorem hosts_apply {c : Change} {e : Engine} {h : Handle} {t : SessionOutline}
    (ht : (c.apply e).Hosts h t) :
    e.Hosts h t ∨ ∃ s, c.newcomer? = some s ∧ h = e.nextHandle ∧ t = s.outline := by
  have hlen : e.outlines.length = e.nextHandle := List.length_map _
  rw [Hosts, Change.outlines_apply] at ht
  rcases Nat.lt_or_ge h e.outlines.length with hlt | hge
  · rw [List.getElem?_append_left hlt] at ht
    exact .inl ht
  · rw [List.getElem?_append_right hge] at ht
    cases hn : c.newcomer? with
    | none => simp [hn] at ht
    | some s =>
      simp only [hn, Option.map_some, Option.toList_some, List.getElem?_singleton] at ht
      split at ht
      · next h0 =>
        refine .inr ⟨s, rfl, ?_, (Option.some.inj ht).symm⟩
        exact hlen ▸ Nat.le_antisymm (Nat.le_of_sub_eq_zero h0) hge
      · cases ht

theorem find?_eq_none {e : Engine} {id : String} :
    e.find? id = none ↔ ∀ h ∈ e.stored, (e.session h).id ≠ id := by
  simp [find?]

theorem removeIf_stored {e : Engine} {id : String} {condition : Session → Bool} {h : Handle}
    (hr : (e.removeIf id condition).1 = some h) : h ∈ e.stored := by
  rw [removeIf] at hr
  split at hr
  · cases hr
  · next k hk =>
    split at hr
    · cases hr
      exact List.mem_of_find?_eq_some hk
    · cases hr

theorem removeIf_condition {e : Engine} {id : String} {condition : Session → Bool} {h : Handle}
    (hr : (e.removeIf id condition).1 = some h) : condition (e.session h) = true := by
  rw [removeIf] at hr
  split at hr
  · cases hr
  · split at hr
    · next hc =>
      cases hr
      exact hc
    · cases hr

theorem stored_apply_cases (c : Change) (e : Engine) :
    (c.apply e).stored.Sublist e.stored ∨ ∃ s, c.newcomer? = some s ∧
      (∀ h ∈ (e.addSession s).stored, ((e.addSession s).session h).id ≠ s.id) ∧
      (c.apply e).stored = e.stored ++ [e.nextHandle] := by
  cases c with
  | enlist s =>
    have hs : (e.addSession s).session e.nextHandle = s := by
      rw [session_addSession, if_pos rfl]
    simp only [Change.apply, store, hs]
    split
    · exact .inl (List.Sublist.refl _)
    · next hnone => exact .inr ⟨s, rfl, find?_eq_none.mp hnone, rfl⟩
  | withdraw k => exact .inl List.filter_sublist
  | log r =>
    simp only [Change.apply, log]
    split <;> exact .inl (List.Sublist.refl _)
  | _ => exact .inl (List.Sublist.refl _)

theorem length_sessions_le (c : Change) (e : Engine) :
    e.sessions.length ≤ (c.apply e).sessions.length :=
  (Change.evolves_apply c e).length_le

theorem stored_apply {c : Change} {e : Engine} (he : ∀ h ∈ e.stored, h < e.sessions.length) :
    ∀ h ∈ (c.apply e).stored, h < (c.apply e).sessions.length := by
  intro h hm
  have hle := length_sessions_le c e
  rcases stored_apply_cases c e with hsub | ⟨s, hs, -, hstored⟩
  · exact Nat.lt_of_lt_of_le (he h (hsub.subset hm)) hle
  · rw [hstored] at hm
    rcases List.mem_append.mp hm with hm | hm
    · exact Nat.lt_of_lt_of_le (he h hm) hle
    · cases c <;> cases hs
      rw [List.mem_singleton.mp hm, Change.apply, sessions_store, addSession, nextHandle,
        List.length_append]
      exact Nat.lt_succ_self _

theorem outline_apply (c : Change) {e : Engine} {h : Handle} (hlt : h < e.sessions.length) :
    ((c.apply e).session h).outline = (e.session h).outline :=
  ((hosts_of_lt hlt).evolve (Change.evolves_apply c e)).outline

namespace Sound

variable {e : Engine}

theorem find?_self (he : e.Sound) {h : Handle} (hh : h ∈ e.stored) :
    e.find? (e.session h).id = some h := by
  cases hk : e.find? (e.session h).id with
  | none => exact absurd rfl (find?_eq_none.mp hk h hh)
  | some k =>
    have hid : (e.session k).id = (e.session h).id := by simpa using List.find?_some hk
    rw [List.inj_on_of_nodup_map he.distinct (List.mem_of_find?_eq_some hk) hh hid]

theorem distinct_apply (he : e.Sound) {c : Change} :
    ((c.apply e).stored.map fun h => ((c.apply e).session h).id).Nodup := by
  have same : ∀ h ∈ e.stored, ((c.apply e).session h).id = (e.session h).id := fun h hm =>
    congrArg SessionOutline.id (outline_apply c (he.stored h hm))
  rcases stored_apply_cases c e with hsub | ⟨s, hs, hnew, hstored⟩
  · rw [List.map_congr_left fun h hm => same h (hsub.subset hm)]
    exact he.distinct.sublist (hsub.map _)
  · cases c <;> cases hs
    rw [hstored, List.map_append, List.map_congr_left same, List.map_singleton,
      Change.session_enlist, if_pos rfl, ← List.concat_eq_append, List.nodup_concat]
    refine ⟨?_, he.distinct⟩
    intro hm
    obtain ⟨h, hm, hid⟩ := List.mem_map.mp hm
    have hne : h ≠ e.nextHandle := Nat.ne_of_lt (he.stored h hm)
    have hold : (e.addSession s).session h = e.session h := by
      rw [session_addSession, if_neg hne]
    exact hnew h hm (by rw [hold]; exact hid)

theorem record_apply (he : e.Sound) {c : Change} (hc : c.newcomer? = none) {h : Handle} {i : Nat}
    {r : StepRecord} (hr : (c.apply e).record? h i = some r) :
    r.Sound ((c.apply e).session h).generation := by
  have hle : (e.session h).generation ≤ ((c.apply e).session h).generation := by
    rw [Change.generation_apply c e h (.inl hc)]
    exact Nat.le_add_right _ _
  by_cases hself : c.record? = some (h, i)
  · rw [Change.record?_apply_self hself] at hr
    obtain ⟨r', hr', rfl⟩ := Option.map_eq_some_iff.mp hr
    exact (Change.sound_onRecord c (he.records h i r' hr')).later hle
  · rw [Change.record?_apply hself (.inl hc)] at hr
    exact (he.records h i r hr).later hle

/-- What an engine is known for stays so with every change that brings in no odd session. -/
theorem apply (he : e.Sound) {c : Change} (hc : c.Welcome e.registry) : (c.apply e).Sound := by
  have welcome : ∀ {s}, c.newcomer? = some s →
      s.outline.WellLaid ∧ s.outline.flow.validate = .ok () := by
    intro s hs
    obtain ⟨id, tenant, flow, now, hf, hnew⟩ := hc s hs
    obtain ⟨g, -, rfl⟩ := Session.new_eq hnew
    exact ⟨Session.new_wellLaid hnew, he.valid flow hf⟩
  constructor
  · rw [Change.registry_apply]
    exact he.valid
  · exact stored_apply he.stored
  · exact he.distinct_apply
  · intro h t ht
    rcases hosts_apply ht with ht | ⟨s, hs, -, rfl⟩
    · exact he.laid h t ht
    · exact (welcome hs).1
  · intro h t ht
    rcases hosts_apply ht with ht | ⟨s, hs, -, rfl⟩
    · exact he.flows h t ht
    · exact (welcome hs).2
  · intro h i r hr
    cases hn : c.newcomer? with
    | none => exact he.record_apply hn hr
    | some s =>
      obtain ⟨id, tenant, flow, now, -, hnew⟩ := hc s hn
      cases c <;> cases hn
      rw [record?, Change.session_enlist] at hr
      rw [Change.session_enlist]
      split
      · next hh =>
        rw [if_pos hh] at hr
        exact Session.new_fresh hnew hr ▸ StepRecord.sound_fresh _ _
      · next hh =>
        rw [if_neg hh] at hr
        exact he.records h i r hr

end Sound

theorem sound_opening (flows : List Flow) (logging : Bool) :
    (Story.opening flows logging).engine.Sound := by
  constructor
  · exact Registry.ofFlows_valid flows
  · intro h hm
    cases hm
  · exact List.nodup_nil
  · intro h t ht
    cases ht
  · intro h t ht
    cases ht
  · intro h i r hr
    cases hr

end Engine

def Scope.welcoming (r : Registry) : Scope where
  sees e := e.registry = r
  makes := Change.Welcome r
  calls _ := True

theorem Scope.welcoming_runs (r : Registry) : (Scope.welcoming r).Runs r := by
  have quiet : ∀ c : Change, c.newcomer? = none → c.Welcome r :=
    fun c hc => Change.welcome_of_newcomer hc r
  refine ⟨⟨⟨fun _ => quiet _ rfl, fun _ _ => quiet _ rfl, fun _ => quiet _ rfl,
    fun _ => quiet _ rfl, fun _ _ => trivial⟩, fun _ => id, ?_⟩, ?_, ?_, fun _ => trivial⟩
  · intro s id tenant flow now hf hnew s' hs
    cases hs
    exact ⟨id, tenant, flow, now, hf, hnew⟩
  · intro c p hp
    cases c <;> first | exact quiet _ rfl | cases hp
  · intro c h hp
    cases c <;> first | exact quiet _ rfl | cases hp

/-- Others keep an engine sound, and its flows. -/
def Conduct.Keeps (K : Conduct) : Prop :=
  ∀ {s t}, K.meanwhile s t → s.engine.Sound →
    t.engine.Sound ∧ t.engine.registry = s.engine.registry

theorem Conduct.solitary_keeps (answers) : (Conduct.solitary answers).Keeps := by
  rintro s t ⟨b, rfl⟩ hs
  exact ⟨⟨hs.valid, hs.stored, hs.distinct, hs.laid, hs.flows, hs.records⟩, rfl⟩

theorem Request.assures_sound {K : Conduct} (hK : K.Keeps) (f : Facilities) (q : Request)
    {s : Situation} (hs : s.engine.Sound) :
    (q.proc f).Assures K (fun s' => s'.engine.Sound) (fun _ s' => s'.engine.Sound) s := by
  have hw := Request.within (Scope.welcoming_runs s.engine.registry) f q
  have ha := Proc.Within.assures (K := K)
    (J := fun s' => s'.engine.Sound ∧ s'.engine.registry = s.engine.registry)
    (fun s' h => h.2) ?_ ?_ hw ⟨hs, rfl⟩
  · exact ha.mono (fun _ h => h.1) (fun _ _ h => h.2.1)
  · rintro s' c ⟨hs', hr⟩ hc
    exact ⟨hs'.apply (hr ▸ hc), (Change.registry_apply c _).trans hr⟩
  · rintro s' c r s'' ⟨hs', hr⟩ - ⟨t, hm, -, rfl⟩
    obtain ⟨ht, hrt⟩ := hK hm hs'
    exact ⟨ht, hrt.trans hr⟩

theorem Reachable.sound {K : Conduct} (hK : K.Keeps) {f : Facilities}
    {allowed : Request → Prop} {s : Story} (h : Reachable K f allowed s) : s.engine.Sound := by
  induction h with
  | opening flows logging => exact Engine.sound_opening flows logging
  | request _ hm _ hx ih =>
    exact (execution_ends hx (hK hm ih).1 (Request.assures_sound hK f _ (hK hm ih).1)).2

namespace Sample

def create : Request := .create "acme" "letter" none

def created : Engine :=
  let opened := (Story.opening [flow] false).engine
  (((Sessions.create "acme" "letter" none).run.run (.still echo) (fun _ => 1) opened).map
    Prod.snd).getD opened

theorem reachable_created (allowed : Request → Prop) (ha : allowed create) :
    ∃ past, Reachable (Conduct.solitary Conduct.anyAnswer) facilities allowed ⟨created, past⟩ := by
  obtain ⟨b, hx, hb⟩ := still_execution echo (Story.opening [flow] false).engine []
    (p := (Sessions.create "acme" "letter" none).run) (v := .ok 0) (by decide +kernel)
  have hengine : b.engine = created := by
    rw [created, hb]
    rfl
  refine ⟨b.past, ?_⟩
  rw [← hengine]
  exact .request (q := create) (.opening [flow] false) ⟨false, rfl⟩ ha hx

end Sample

end FlowEngine
