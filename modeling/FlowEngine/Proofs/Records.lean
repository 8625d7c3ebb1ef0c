import FlowEngine.Proofs.Reachable

/-! # The records of steps

`StepRecord.Formed` says what belongs to each state of a record. Every change keeps it but one: the
end of a step that was never started, or outside of all runs, would not. `Change.Timely` excludes
that. What a record has kept of an earlier one, and that it is dated with its latest transition,
holds whatever is changed.
-/
namespace FlowEngine

namespace StepRecord

/-- A record of a session whose runs are numbered up to `generation` has what belongs to its
state. -/
structure Formed (generation : Nat) (r : StepRecord) : Prop where
  created : r.state = .created →
    r.startedAt = none ∧ r.finishedAt = none ∧ r.output = none ∧ r.errorMessage = none
  running : r.state = .running →
    r.startedAt.isSome ∧ r.finishedAt = none ∧ r.errorMessage = none
  done : r.state = .done →
    r.output.isSome ∧ r.startedAt.isSome ∧ r.finishedAt.isSome ∧ r.errorMessage = none ∧
      1 ≤ r.completedInRun ∧ r.completedInRun ≤ generation
  error : r.state = .error → r.errorMessage.isSome ∧ r.finishedAt.isSome

/-- What a later record has kept of an earlier one. -/
structure Precedes (r r' : StepRecord) : Prop where
  output : r.output.isSome → r'.output.isSome
  started : ∀ t, r.startedAt = some t → r'.startedAt = some t

variable {r r' : StepRecord} {generation : Nat}

theorem Precedes.refl (r : StepRecord) : r.Precedes r := ⟨id, fun _ => id⟩

theorem Precedes.trans {r'' : StepRecord} (h : r.Precedes r') (h' : r'.Precedes r'') :
    r.Precedes r'' :=
  ⟨fun ho => h'.output (h.output ho), fun t ht => h'.started t (h.started t ht)⟩

theorem begin_of_running (h : r.isRunning = true) (now : Int) : r.begin now = r := by
  have hstate : r.state = .running := by simpa [isRunning] using h
  simp [begin, begin?, enter?, hstate]

theorem begin_of_idle (h : r.isRunning = false) (now : Int) :
    r.begin now = { r.enter .running now with errorMessage := none } := by
  have hstate : r.state ≠ .running := by simpa [isRunning] using h
  simp [begin, begin?, enter?, hstate]

theorem formed_fresh (now : Int) (generation : Nat) : (fresh now).Formed generation :=
  ⟨fun _ => ⟨rfl, rfl, rfl, rfl⟩, nofun, nofun, nofun⟩

theorem Formed.later {n : Nat} (h : r.Formed generation) (hle : generation ≤ n) : r.Formed n := by
  obtain ⟨created, running, done, error⟩ := h
  refine ⟨created, running, fun hs => ?_, error⟩
  obtain ⟨houtput, hstarted, hfinished, hmessage, hpos, hcount⟩ := done hs
  exact ⟨houtput, hstarted, hfinished, hmessage, hpos, Nat.le_trans hcount hle⟩

theorem Formed.begin (h : r.Formed generation) (now : Int) : (r.begin now).Formed generation := by
  cases hrunning : r.isRunning with
  | true =>
    rw [begin_of_running hrunning]
    exact h
  | false =>
    rw [begin_of_idle hrunning]
    refine ⟨nofun, fun _ => ⟨?_, rfl, rfl⟩, nofun, nofun⟩
    rfl

theorem Formed.finish (hstarted : r.startedAt.isSome) (hpos : 1 ≤ generation)
    (outcome : TargetOutcome) (now : Int) : (r.finish outcome generation now).Formed generation :=
  ⟨nofun, nofun, fun _ => ⟨rfl, hstarted, rfl, rfl, hpos, Nat.le_refl _⟩, nofun⟩

theorem Formed.fail (r : StepRecord) (generation : Nat) (message : String) (now : Int) :
    (r.fail message now).Formed generation :=
  ⟨nofun, nofun, nofun, fun _ => ⟨rfl, rfl⟩⟩

theorem precedes_begin (r : StepRecord) (now : Int) : r.Precedes (r.begin now) := by
  cases hrunning : r.isRunning with
  | true =>
    rw [begin_of_running hrunning]
    exact .refl r
  | false =>
    rw [begin_of_idle hrunning]
    constructor
    · exact id
    · intro t ht
      simp [enter, ht]

end StepRecord

namespace Change

variable {c : Change} {r : StepRecord} {generation : Nat}

/-- The reading of the clock at which the change has the record enter a state. -/
def enters? (c : Change) (r : StepRecord) : Option Int :=
  match c with
  | .begin _ _ now => if r.isRunning then none else some now
  | .complete _ _ _ now | .fail _ _ _ now => some now
  | _ => none

theorem precedes_onRecord (c : Change) (generation : Nat) (r : StepRecord) :
    r.Precedes (c.onRecord generation r) := by
  cases c with
  | begin h i now => exact r.precedes_begin now
  | complete h i outcome now => exact ⟨fun _ => rfl, fun _ => id⟩
  | fail h i message now => exact ⟨id, fun _ => id⟩
  | _ => exact ⟨id, fun _ => id⟩

theorem lastUpdatedAt_onRecord (c : Change) (generation : Nat) (r : StepRecord) :
    (c.onRecord generation r).lastUpdatedAt = (c.enters? r).getD r.lastUpdatedAt := by
  cases c with
  | begin h i now =>
    rw [onRecord, enters?]
    cases hrunning : r.isRunning with
    | true =>
      rw [StepRecord.begin_of_running hrunning]
      rfl
    | false =>
      rw [StepRecord.begin_of_idle hrunning]
      rfl
  | _ => rfl

/-- A step ends only after a start and in a run, and a run after it was started. -/
def Timely (e : Engine) : Change → Prop
  | .complete h i _ _ => (∀ r, e.record? h i = some r → r.startedAt.isSome) ∧
      1 ≤ (e.session h).generation
  | .finishRun h | .failRun h => 1 ≤ (e.session h).generation
  | _ => True

theorem formed_onRecord {e : Engine} {h : Handle} {i : Nat} (hself : c.record? = some (h, i))
    (hr : e.record? h i = some r) (hformed : r.Formed (e.session h).generation)
    (hc : c.Timely e) :
    (c.onRecord (e.session h).generation r).Formed (e.session h).generation := by
  cases c with
  | begin k j now => exact hformed.begin now
  | complete k j outcome now =>
    cases hself
    exact .finish (hc.1 r hr) hc.2 outcome now
  | fail k j message now => exact .fail r _ message now
  | noteConversation k j conversation =>
    exact ⟨hformed.created, hformed.running, hformed.done, hformed.error⟩
  | noteAppRun k j run => exact ⟨hformed.created, hformed.running, hformed.done, hformed.error⟩
  | _ => cases hself

end Change

/-- From one engine to a later one the records of steps are kept, and runs are only added. -/
structure Engine.Advances (e e' : Engine) : Prop where
  evolves : e.Evolves e'
  registry : e'.registry = e.registry
  records : ∀ h i r, e.record? h i = some r → ∃ r', e'.record? h i = some r' ∧ r.Precedes r'
  generations : ∀ h, h < e.sessions.length → (e.session h).generation ≤ (e'.session h).generation

namespace Engine

variable {e e' e'' : Engine} {h : Handle} {i : Nat} {r : StepRecord}

theorem lt_of_record? (hr : e.record? h i = some r) : h < e.sessions.length := by
  by_contra hle
  rw [record?_of_le (Nat.le_of_not_lt hle)] at hr
  cases hr

theorem Advances.refl (e : Engine) : e.Advances e :=
  ⟨.refl e, rfl, fun _ _ r hr => ⟨r, hr, .refl r⟩, fun _ _ => Nat.le_refl _⟩

theorem Advances.trans (h : e.Advances e') (h' : e'.Advances e'') : e.Advances e'' := by
  refine ⟨h.evolves.trans h'.evolves, h'.registry.trans h.registry, ?_, ?_⟩
  · intro k i r hr
    obtain ⟨r', hr', hp⟩ := h.records k i r hr
    obtain ⟨r'', hr'', hp'⟩ := h'.records k i r' hr'
    exact ⟨r'', hr'', hp.trans hp'⟩
  · intro k hk
    exact Nat.le_trans (h.generations k hk)
      (h'.generations k (Nat.lt_of_lt_of_le hk h.evolves.length_le))

/-- Whatever is changed, an engine only advances. -/
theorem advances_apply (c : Change) (e : Engine) : e.Advances (c.apply e) := by
  refine ⟨Change.evolves_apply c e, Change.registry_apply c e, ?_, ?_⟩
  · intro h i r hr
    by_cases hself : c.record? = some (h, i)
    · rw [Change.record?_apply_self hself, hr]
      exact ⟨_, rfl, c.precedes_onRecord _ r⟩
    · rw [Change.record?_apply hself (.inr (lt_of_record? hr))]
      exact ⟨r, hr, .refl r⟩
  · intro h hlt
    rw [Change.generation_apply c e h (.inr hlt)]
    exact Nat.le_add_right _ _

theorem record?_apply_cases {c : Change} (hc : c.Welcome e.registry)
    (hr : (c.apply e).record? h i = some r) :
    (∃ r₀, e.record? h i = some r₀ ∧ (c.record? = some (h, i) ∧
        r = c.onRecord (e.session h).generation r₀ ∨ c.record? ≠ some (h, i) ∧ r = r₀)) ∨
      ∃ s, c = .enlist s ∧ h = e.nextHandle ∧ r = .fresh s.createdAt := by
  by_cases hself : c.record? = some (h, i)
  · rw [Change.record?_apply_self hself] at hr
    obtain ⟨r₀, hr₀, rfl⟩ := Option.map_eq_some_iff.mp hr
    exact .inl ⟨r₀, hr₀, .inl ⟨hself, rfl⟩⟩
  · cases hn : c.newcomer? with
    | none =>
      rw [Change.record?_apply hself (.inl hn)] at hr
      exact .inl ⟨r, hr, .inr ⟨hself, rfl⟩⟩
    | some s =>
      obtain ⟨id, tenant, flow, now, -, hnew⟩ := hc s hn
      cases c <;> cases hn
      rw [record?, Change.session_enlist] at hr
      split at hr
      · next hh =>
        obtain ⟨g, -, hs⟩ := Session.new_eq hnew
        have hnow : s.createdAt = now := by rw [hs]; rfl
        exact .inr ⟨s, rfl, hh, hnow ▸ Session.new_fresh hnew hr⟩
      · exact .inl ⟨r, hr, .inr ⟨hself, rfl⟩⟩

end Engine

/-- The reading of the clock at which a moment had step `x.2` of session `x.1` enter a state. -/
def Moment.transition? (x : Handle × Nat) (m : Moment) : Option Int :=
  match m.event with
  | .change c => if c.record? = some x then (m.engine.record? x.1 x.2).bind c.enters? else none
  | .call _ _ => none

/-- The reading at the latest transition of a step; the past has the last moment first. -/
def lastTransition? (x : Handle × Nat) (past : List Moment) : Option Int :=
  past.findSome? (Moment.transition? x)

/-- What the past of a story has made of the records. -/
structure Story.Recorded (s : Story) : Prop where
  sound : s.engine.Sound
  formed : ∀ h i r, s.engine.record? h i = some r → r.Formed (s.engine.session h).generation
  /-- A session that was ever run has a run. -/
  used : ∀ h, (s.engine.session h).state ≠ .created → 1 ≤ (s.engine.session h).generation
  dated : ∀ h i r, s.engine.record? h i = some r →
    r.lastUpdatedAt = (lastTransition? (h, i) s.past).getD (s.engine.session h).createdAt
  earlier : ∀ m ∈ s.past, m.engine.sessions.length ≤ s.engine.sessions.length

namespace Story

variable {s t u : Story} {x : Handle × Nat} {c : Change}

theorem transition?_change (e : Engine) (c : Change) (x : Handle × Nat) :
    Moment.transition? x ⟨e, .change c⟩ =
      if c.record? = some x then (e.record? x.1 x.2).bind c.enters? else none := rfl

theorem lastTransition?_change (hself : c.record? = some x) {r : StepRecord}
    (hr : s.engine.record? x.1 x.2 = some r) :
    lastTransition? x (s.change c).past = (c.enters? r).or (lastTransition? x s.past) := by
  have hmoment : Moment.transition? x ⟨s.engine, .change c⟩ = c.enters? r := by
    rw [transition?_change, if_pos hself, hr, Option.bind_some]
  rw [lastTransition?, Story.change, List.findSome?_cons, hmoment]
  cases c.enters? r <;> rfl

theorem lastTransition?_ignored {e : Engine} (hother : c.record? ≠ some x)
    (past : List Moment) :
    lastTransition? x (⟨e, .change c⟩ :: past) = lastTransition? x past := by
  rw [lastTransition?, List.findSome?_cons, transition?_change, if_neg hother]
  rfl

theorem Recorded.lastTransition?_eq_none (hs : s.Recorded)
    (hle : s.engine.sessions.length ≤ x.1) : lastTransition? x s.past = none := by
  refine List.findSome?_eq_none_iff.mpr fun m hm => ?_
  have hnone : m.engine.record? x.1 x.2 = none :=
    Engine.record?_of_le (Nat.le_trans (hs.earlier m hm) hle) x.2
  rw [Moment.transition?]
  split
  · split
    · rw [hnone]
      rfl
    · rfl
  · rfl

theorem Recorded.dated_change (hs : s.Recorded) (hc : c.Welcome s.engine.registry) {h : Handle}
    {i : Nat} {r : StepRecord} (hr : (c.apply s.engine).record? h i = some r) :
    r.lastUpdatedAt =
      (lastTransition? (h, i) (s.change c).past).getD ((c.apply s.engine).session h).createdAt := by
  rcases Engine.record?_apply_cases hc hr with ⟨r₀, hr₀, hcases⟩ | ⟨new, rfl, rfl, rfl⟩
  · have hcreated : ((c.apply s.engine).session h).createdAt = (s.engine.session h).createdAt :=
      congrArg SessionOutline.createdAt (Engine.outline_apply c (Engine.lt_of_record? hr₀))
    rw [hcreated]
    have hdated := hs.dated h i r₀ hr₀
    rcases hcases with ⟨hself, rfl⟩ | ⟨hother, rfl⟩
    · rw [lastTransition?_change hself hr₀, Change.lastUpdatedAt_onRecord]
      cases c.enters? r₀ with
      | none => exact hdated
      | some t => rfl
    · rw [Story.change, lastTransition?_ignored hother]
      exact hdated
  · have hother : (Change.enlist new).record? ≠ some (s.engine.nextHandle, i) := nofun
    rw [Story.change, lastTransition?_ignored hother,
      hs.lastTransition?_eq_none (Nat.le_refl _), Change.session_enlist, if_pos rfl]
    rfl

theorem Recorded.formed_change (hs : s.Recorded) (hc : c.Welcome s.engine.registry)
    (ht : c.Timely s.engine) {h : Handle} {i : Nat} {r : StepRecord}
    (hr : (c.apply s.engine).record? h i = some r) :
    r.Formed ((c.apply s.engine).session h).generation := by
  rcases Engine.record?_apply_cases hc hr with ⟨r₀, hr₀, hcases⟩ | ⟨new, rfl, rfl, rfl⟩
  · have hformed := hs.formed h i r₀ hr₀
    have hle := (Engine.advances_apply c s.engine).generations h (Engine.lt_of_record? hr₀)
    rcases hcases with ⟨hself, rfl⟩ | ⟨-, rfl⟩
    · exact (Change.formed_onRecord hself hr₀ hformed ht).later hle
    · exact hformed.later hle
  · exact StepRecord.formed_fresh _ _

theorem Recorded.used_change (hs : s.Recorded) (hc : c.Welcome s.engine.registry)
    (ht : c.Timely s.engine) {h : Handle}
    (hstate : ((c.apply s.engine).session h).state ≠ .created) :
    1 ≤ ((c.apply s.engine).session h).generation := by
  by_cases hlt : h < s.engine.sessions.length
  · by_cases hself : c.run? = some h
    · have hle := (Engine.advances_apply c s.engine).generations h hlt
      cases c with
      | startRun k =>
        cases hself
        rw [Change.generation_apply _ _ _ (.inr hlt), if_pos ⟨rfl, hlt⟩]
        exact Nat.le_add_left 1 _
      | finishRun k =>
        cases hself
        exact Nat.le_trans ht hle
      | failRun k =>
        cases hself
        exact Nat.le_trans ht hle
      | _ => cases hself
    · obtain ⟨hsame, hgeneration⟩ := Change.state_apply hself (.inr hlt)
      rw [hgeneration]
      exact hs.used h (hsame ▸ hstate)
  · cases hn : c.newcomer? with
    | none =>
      have hlen : (c.apply s.engine).sessions.length = s.engine.sessions.length := by
        have houtlines := congrArg List.length (Change.outlines_apply c s.engine)
        simpa [hn, Engine.outlines] using houtlines
      have hvacant := Engine.session_of_le (hlen ▸ Nat.le_of_not_lt hlt)
      rw [hvacant] at hstate
      exact absurd rfl hstate
    | some new =>
      obtain ⟨id, tenant, flow, now, -, hnew⟩ := hc new hn
      obtain ⟨g, -, rfl⟩ := Session.new_eq hnew
      cases c <;> cases hn
      rw [Change.session_enlist] at hstate
      split at hstate
      · exact absurd rfl hstate
      · rw [Engine.session_of_le (Nat.le_of_not_lt hlt)] at hstate
        exact absurd rfl hstate

theorem Recorded.change (hs : s.Recorded) (hc : c.Welcome s.engine.registry)
    (ht : c.Timely s.engine) : (s.change c).Recorded := by
  refine ⟨hs.sound.apply hc, fun h i r hr => hs.formed_change hc ht hr,
    fun h hstate => hs.used_change hc ht hstate, fun h i r hr => hs.dated_change hc hr, ?_⟩
  intro m hm
  have hle : s.engine.sessions.length ≤ (c.apply s.engine).sessions.length :=
    Engine.length_sessions_le c s.engine
  rcases List.mem_cons.mp hm with rfl | hm
  · exact hle
  · exact Nat.le_trans (hs.earlier m hm) hle

theorem Recorded.called (hs : s.Recorded) (c : ProviderCall) (r : c.Outcome) :
    (s.called c r).Recorded := by
  refine ⟨hs.sound, hs.formed, hs.used, hs.dated, ?_⟩
  intro m hm
  rcases List.mem_cons.mp hm with rfl | hm
  · exact Nat.le_refl _
  · exact hs.earlier m hm

theorem Recorded.flagged (hs : s.Recorded) (b : Bool) : (s.flagged b).Recorded := by
  obtain ⟨valid, stored, distinct, laid, flows, records⟩ := hs.sound
  exact ⟨⟨valid, stored, distinct, laid, flows, records⟩, hs.formed, hs.used, hs.dated, hs.earlier⟩

theorem recorded_opening (flows : List Flow) (logging : Bool) :
    (Story.opening flows logging).Recorded := by
  refine ⟨Engine.sound_opening flows logging, ?_, fun h hstate => absurd rfl hstate, ?_, ?_⟩
  · intro h i r hr
    cases hr
  · intro h i r hr
    cases hr
  · intro m hm
    cases hm

/-- A story has gone on to another one, and its records with it. -/
structure Onward (s t : Story) : Prop where
  advances : s.engine.Advances t.engine
  recorded : s.Recorded → t.Recorded

theorem Onward.refl (s : Story) : s.Onward s := ⟨.refl _, id⟩

theorem Onward.trans (h : s.Onward t) (h' : t.Onward u) : s.Onward u :=
  ⟨h.advances.trans h'.advances, h'.recorded ∘ h.recorded⟩

theorem Onward.change (h : s.Onward t) (hc : c.Welcome t.engine.registry)
    (ht : c.Timely t.engine) : s.Onward (t.change c) :=
  ⟨h.advances.trans (Engine.advances_apply c t.engine), fun hs => (h.recorded hs).change hc ht⟩

theorem onward_flagged (s : Story) (b : Bool) : s.Onward (s.flagged b) :=
  ⟨⟨.refl _, rfl, fun _ _ r hr => ⟨r, hr, .refl r⟩, fun _ _ => Nat.le_refl _⟩,
    fun hs => hs.flagged b⟩

end Story

end FlowEngine
