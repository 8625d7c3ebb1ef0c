import FlowEngine.Engine.Change
import Mathlib.Data.List.Basic

/-! # What changes leave alone

The outline of a session is all of it that no change touches: its identity, its flow, and its steps
without their records. Outlines of engines only ever grow at the end, so a handle stays good. The
remaining lemmas say what a change does to records, states and generations, and to which.
-/
namespace FlowEngine

namespace StepRecord

@[simp] theorem begin_state (r : StepRecord) (now : Int) : (r.begin now).state = .running := by
  rw [begin, begin?, enter?]
  split
  · next h => exact h.2
  · rfl

@[simp] theorem begin_output (r : StepRecord) (now : Int) : (r.begin now).output = r.output := by
  rw [begin, begin?, enter?]
  split <;> rfl

@[simp] theorem begin_completedInRun (r : StepRecord) (now : Int) :
    (r.begin now).completedInRun = r.completedInRun := by
  rw [begin, begin?, enter?]
  split <;> rfl

section Ends

variable (r : StepRecord) (outcome : TargetOutcome) (message : String) (generation : Nat) (now : Int)

@[simp] theorem finish_state : (r.finish outcome generation now).state = .done := rfl

@[simp] theorem finish_output :
    (r.finish outcome generation now).output = some outcome.output := rfl

@[simp] theorem finish_completedInRun :
    (r.finish outcome generation now).completedInRun = generation := rfl

@[simp] theorem fail_state : (r.fail message now).state = .error := rfl

@[simp] theorem fail_errorMessage : (r.fail message now).errorMessage = some message := rfl

@[simp] theorem fail_output : (r.fail message now).output = r.output := rfl

@[simp] theorem fail_completedInRun : (r.fail message now).completedInRun = r.completedInRun := rfl

end Ends

end StepRecord

/-- A step of a session without its record. -/
structure StepOutline where
  session : String
  step : Step
  index : Nat
  required : List Nat
  deriving DecidableEq, Repr

structure SessionOutline where
  id : String
  tenant : String
  flow : Flow
  createdAt : Int
  steps : List StepOutline
  deriving DecidableEq, Repr

def StepExecution.outline (x : StepExecution) : StepOutline :=
  ⟨x.session, x.step, x.index, x.required⟩

def Session.outline (s : Session) : SessionOutline :=
  ⟨s.id, s.tenant, s.flow, s.createdAt, s.graph.nodes.map StepExecution.outline⟩

def Session.record? (s : Session) (i : Nat) : Option StepRecord :=
  (s.graph.nodes[i]?).map StepExecution.record

namespace Session

@[simp] theorem outline_modifyRecord (s : Session) (i : Nat) (f : StepRecord → StepRecord) :
    (s.modifyRecord i f).outline = s.outline := by
  have h : (s.graph.nodes.modify i fun x => { x with record := f x.record }).map
      StepExecution.outline = s.graph.nodes.map StepExecution.outline := by
    apply List.ext_getElem?
    intro j
    rw [List.getElem?_map, List.getElem?_map, List.getElem?_modify]
    cases s.graph.nodes[j]? with
    | none => rfl
    | some x => by_cases hij : i = j <;> simp [hij, StepExecution.outline]
  simp only [outline, modifyRecord, StepGraph.modifyRecord, h]

@[simp] theorem outline_withValues (s t : Session) : (s.withValues t).outline = s.outline := rfl

@[simp] theorem outline_started (s : Session) : s.started.outline = s.outline := rfl

theorem record?_modifyRecord (s : Session) (i j : Nat) (f : StepRecord → StepRecord) :
    (s.modifyRecord i f).record? j = if j = i then (s.record? j).map f else s.record? j := by
  simp only [record?, modifyRecord, StepGraph.modifyRecord, List.getElem?_modify]
  by_cases h : j = i
  · subst h
    cases s.graph.nodes[j]? <;> simp
  · cases s.graph.nodes[j]? <;> simp [h, Ne.symm h]

theorem node_of_outline {s : Session} {i : Nat} {o : StepOutline}
    (h : s.outline.steps[i]? = some o) :
    ∃ x, s.graph.nodes[i]? = some x ∧ x.outline = o ∧ s.record? i = some x.record := by
  rw [outline, List.getElem?_map, Option.map_eq_some_iff] at h
  obtain ⟨x, hx, ho⟩ := h
  exact ⟨x, hx, ho, by rw [record?, hx]; rfl⟩

end Session

namespace Engine

def outlines (e : Engine) : List SessionOutline := e.sessions.map Session.outline

/-- The handle is that of a session with the given outline. -/
def Hosts (e : Engine) (h : Handle) (t : SessionOutline) : Prop := e.outlines[h]? = some t

/-- Sessions may have been added, and nothing else happened to the outlines. -/
def Evolves (e e' : Engine) : Prop := e.outlines <+: e'.outlines

theorem Evolves.refl (e : Engine) : e.Evolves e := List.prefix_refl _

theorem Evolves.trans {e e' e'' : Engine} (h : e.Evolves e') (h' : e'.Evolves e'') :
    e.Evolves e'' := List.IsPrefix.trans h h'

theorem Evolves.length_le {e e' : Engine} (he : e.Evolves e') :
    e.sessions.length ≤ e'.sessions.length := by
  have hle := List.IsPrefix.length_le he
  rwa [outlines, outlines, List.length_map, List.length_map] at hle

theorem Hosts.evolve {e e' : Engine} {h : Handle} {t : SessionOutline} (ht : e.Hosts h t)
    (he : e.Evolves e') : e'.Hosts h t := by
  obtain ⟨added, ha⟩ := he
  have hlt : h < e.outlines.length := (List.getElem?_eq_some_iff.mp ht).1
  rw [Hosts, ← ha, List.getElem?_append_left hlt]
  exact ht

theorem Hosts.lt {e : Engine} {h : Handle} {t : SessionOutline} (ht : e.Hosts h t) :
    h < e.sessions.length := by
  have := (List.getElem?_eq_some_iff.mp ht).1
  rwa [outlines, List.length_map] at this

theorem hosts_of_lt {e : Engine} {h : Handle} (hlt : h < e.sessions.length) :
    e.Hosts h (e.session h).outline := by
  rw [Hosts, outlines, List.getElem?_map, session, List.getElem?_eq_getElem hlt]
  rfl

theorem Hosts.outline {e : Engine} {h : Handle} {t : SessionOutline} (ht : e.Hosts h t) :
    (e.session h).outline = t :=
  Option.some.inj ((hosts_of_lt ht.lt).symm.trans ht)

theorem session_of_le {e : Engine} {h : Handle} (hle : e.sessions.length ≤ h) :
    e.session h = .vacant := by
  rw [session, List.getElem?_eq_none hle]
  rfl

theorem session_modifySession (e : Engine) (h k : Handle) (f : Session → Session) :
    (e.modifySession h f).session k =
      if k = h ∧ k < e.sessions.length then f (e.session k) else e.session k := by
  simp only [session, modifySession, List.getElem?_modify]
  by_cases hk : k < e.sessions.length
  · rw [List.getElem?_eq_getElem hk]
    by_cases hh : k = h
    · simp [hh, hh ▸ hk]
    · simp [hh, Ne.symm hh]
  · rw [List.getElem?_eq_none (Nat.le_of_not_lt hk)]
    simp [hk]

theorem session_modifySession_of_ne {h k : Handle} (hne : k ≠ h) (e : Engine)
    (f : Session → Session) : (e.modifySession h f).session k = e.session k := by
  rw [session_modifySession, if_neg fun hp => hne hp.1]

theorem session_modifySession_self {e : Engine} {h : Handle} (hlt : h < e.sessions.length)
    (f : Session → Session) : (e.modifySession h f).session h = f (e.session h) := by
  rw [session_modifySession, if_pos ⟨rfl, hlt⟩]

theorem session_modifySession_keeps {β : Type} (part : Session → β) {f : Session → Session}
    (hf : ∀ s, part (f s) = part s) (e : Engine) (h k : Handle) :
    part ((e.modifySession h f).session k) = part (e.session k) := by
  rw [session_modifySession]
  split
  · exact hf _
  · rfl

theorem outlines_modifySession {f : Session → Session} (hf : ∀ s, (f s).outline = s.outline)
    (e : Engine) (h : Handle) : (e.modifySession h f).outlines = e.outlines := by
  apply List.ext_getElem?
  intro k
  simp only [outlines, modifySession, List.getElem?_map, List.getElem?_modify]
  cases e.sessions[k]? with
  | none => rfl
  | some s => by_cases hk : h = k <;> simp [hk, hf]

def record? (e : Engine) (h : Handle) (i : Nat) : Option StepRecord := (e.session h).record? i

theorem record?_of_le {e : Engine} {h : Handle} (hle : e.sessions.length ≤ h) (i : Nat) :
    e.record? h i = none := by
  rw [record?, session_of_le hle]
  rfl

theorem record?_modifyRecord (e : Engine) (h k : Handle) (i j : Nat)
    (f : StepRecord → StepRecord) :
    (e.modifyRecord h i f).record? k j =
      if k = h ∧ j = i then (e.record? k j).map f else e.record? k j := by
  rw [record?, modifyRecord, session_modifySession]
  by_cases hk : k < e.sessions.length
  · by_cases hh : k = h
    · simp [hh, hh ▸ hk, Session.record?_modifyRecord, record?]
    · simp [hh, record?]
  · rw [record?_of_le (Nat.le_of_not_lt hk)]
    simp [hk, session_of_le (Nat.le_of_not_lt hk), Session.record?, Session.vacant, Session.bare,
      StepGraph.empty]

theorem Hosts.record {e : Engine} {h : Handle} {t : SessionOutline} (ht : e.Hosts h t) {i : Nat}
    {o : StepOutline} (ho : t.steps[i]? = some o) :
    ∃ x, (e.session h).graph.nodes[i]? = some x ∧ x.outline = o ∧
      e.record? h i = some x.record :=
  Session.node_of_outline (ht.outline.symm ▸ ho)

theorem sessions_store (e : Engine) (h : Handle) : (e.store h).2.sessions = e.sessions := by
  rw [store]
  split <;> rfl

theorem sessions_log (e : Engine) (level event message : String) :
    (e.log level event message).sessions = e.sessions := by
  rw [log]
  split <;> rfl

@[simp] theorem session_log (e : Engine) (level event message : String) (h : Handle) :
    (e.log level event message).session h = e.session h := by
  rw [session, sessions_log, session]

theorem session_addSession (e : Engine) (s : Session) (h : Handle) :
    (e.addSession s).session h = if h = e.nextHandle then s else e.session h := by
  rw [session, addSession]
  by_cases heq : h = e.nextHandle
  · rw [if_pos heq, heq, nextHandle]
    simp
  · rw [if_neg heq, session]
    rcases Nat.lt_or_gt_of_ne heq with hlt | hgt
    · rw [List.getElem?_append_left hlt]
    · have hle : e.sessions.length + 1 ≤ h := hgt
      rw [List.getElem?_eq_none (by simpa using hle),
        List.getElem?_eq_none (Nat.le_of_succ_le hle)]

end Engine

namespace Change

/-- The record that a change is made to. -/
def record? : Change → Option (Handle × Nat)
  | .begin h i _ | .complete h i _ _ | .fail h i _ _ | .noteConversation h i _
  | .noteAppRun h i _ => some (h, i)
  | .log _ | .enlist _ | .withdraw _ | .sweep _ | .values _ _ | .startRun _ | .finishRun _
  | .failRun _ => none

def run? : Change → Option Handle
  | .startRun h | .finishRun h | .failRun h => some h
  | .log _ | .enlist _ | .withdraw _ | .sweep _ | .values _ _ | .begin _ _ _ | .complete _ _ _ _
  | .fail _ _ _ _ | .noteConversation _ _ _ | .noteAppRun _ _ _ => none

def newcomer? : Change → Option Session
  | .enlist s => some s
  | _ => none

@[simp] theorem session_enlist (e : Engine) (s : Session) (h : Handle) :
    ((Change.enlist s).apply e).session h = if h = e.nextHandle then s else e.session h := by
  rw [apply, Engine.session, Engine.sessions_store, ← Engine.session, Engine.session_addSession]

theorem outlines_apply (c : Change) (e : Engine) :
    (c.apply e).outlines = e.outlines ++ (c.newcomer?.map Session.outline).toList := by
  cases c with
  | enlist s =>
    simp [apply, Engine.outlines, Engine.sessions_store, Engine.addSession, newcomer?]
  | log r => simp [apply, Engine.outlines, Engine.sessions_log, newcomer?]
  | withdraw h => simp [apply, Engine.outlines, newcomer?]
  | sweep b => simp [apply, Engine.outlines, newcomer?]
  | _ =>
    simp only [apply, newcomer?, Engine.modifyRecord, Option.map_none, Option.toList_none,
      List.append_nil]
    exact Engine.outlines_modifySession (fun s => by first | rfl | simp) e _

theorem evolves_apply (c : Change) (e : Engine) : e.Evolves (c.apply e) := by
  rw [Engine.Evolves, outlines_apply]
  exact List.prefix_append _ _

theorem record?_apply {c : Change} {e : Engine} {h : Handle} {i : Nat}
    (hc : c.record? ≠ some (h, i)) (hn : c.newcomer? = none ∨ h < e.sessions.length) :
    (c.apply e).record? h i = e.record? h i := by
  cases c with
  | log r => rw [apply, Engine.record?, Engine.session_log]; rfl
  | enlist s =>
    have hlt : h ≠ e.nextHandle := by
      rcases hn with hn | hn
      · cases hn
      · exact Nat.ne_of_lt hn
    rw [Engine.record?, session_enlist, if_neg hlt, Engine.record?]
  | withdraw k => rfl
  | sweep b => rfl
  | values | startRun | finishRun | failRun =>
    refine Engine.session_modifySession_keeps (·.record? i) ?_ e _ h
    exact fun _ => rfl
  | _ =>
    have hne : ¬ (h = _ ∧ i = _) := fun hp => hc (by rw [record?, hp.1, hp.2])
    rw [apply, Engine.record?_modifyRecord, if_neg hne]

theorem state_apply {c : Change} {e : Engine} {h : Handle} (hc : c.run? ≠ some h)
    (hn : c.newcomer? = none ∨ h < e.sessions.length) :
    ((c.apply e).session h).state = (e.session h).state ∧
      ((c.apply e).session h).generation = (e.session h).generation := by
  cases c with
  | log r => simp [apply]
  | enlist s =>
    have hlt : h ≠ e.nextHandle := by
      rcases hn with hn | hn
      · cases hn
      · exact Nat.ne_of_lt hn
    rw [session_enlist, if_neg hlt]
    exact ⟨rfl, rfl⟩
  | withdraw k => exact ⟨rfl, rfl⟩
  | sweep b => exact ⟨rfl, rfl⟩
  | startRun | finishRun | failRun =>
    rw [apply, Engine.session_modifySession_of_ne fun hk => hc (by rw [run?, hk])]
    exact ⟨rfl, rfl⟩
  | _ =>
    constructor
    · refine Engine.session_modifySession_keeps (·.state) ?_ e _ h
      exact fun _ => rfl
    · refine Engine.session_modifySession_keeps (·.generation) ?_ e _ h
      exact fun _ => rfl

def onRecord (c : Change) (generation : Nat) (r : StepRecord) : StepRecord :=
  match c with
  | .begin _ _ now => r.begin now
  | .complete _ _ outcome now => r.finish outcome generation now
  | .fail _ _ message now => r.fail message now
  | .noteConversation _ _ conversation => { r with conversation := some conversation }
  | .noteAppRun _ _ run => { r with appRun := some run }
  | _ => r

theorem record?_apply_self {c : Change} {h : Handle} {i : Nat} (hc : c.record? = some (h, i))
    (e : Engine) : (c.apply e).record? h i =
      (e.record? h i).map (c.onRecord (e.session h).generation) := by
  cases c <;> cases hc <;> rw [apply, Engine.record?_modifyRecord, if_pos ⟨rfl, rfl⟩] <;> rfl

end Change

end FlowEngine
