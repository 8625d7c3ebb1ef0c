import FlowEngine.Proofs.Company
import FlowEngine.Proofs.Records

/-! # Operations that keep the records

`Underway` is what holds at every point of an operation that runs steps: the records of steps have
been kept since it began, by the operation and by others, and the failures that it has written down
come from the targets of steps. `Attempt.Proceeds` is about a part of such an operation, between two
points of which the engine only advances.
-/
namespace FlowEngine

variable {α β : Type}

def Change.failure? : Change → Option String
  | .fail _ _ text _ => some text
  | _ => none

/-- The failures that an operation has written down come from the targets of steps. -/
def Attributed (own : List Moment) : Prop :=
  ∀ m ∈ own, ∀ h i text now, m.event = .change (.fail h i text now) →
    ∃ fault : EngineFault, fault.root.OfTarget ∧ text = fault.message

theorem Attributed.cons {m : Moment} {own : List Moment} (h : Attributed own)
    (hm : ∀ h i text now, m.event = .change (.fail h i text now) →
      ∃ fault : EngineFault, fault.root.OfTarget ∧ text = fault.message) :
    Attributed (m :: own) := by
  intro m' hm'
  rcases List.mem_cons.mp hm' with rfl | hm'
  · exact hm
  · exact h m' hm'

/-- The records of steps are kept. -/
def Custom.onward : Custom :=
  ⟨Story.Onward, .refl, .trans, Story.onward_flagged⟩

/-- An operation that runs steps, when it began at `base`. The failures that it writes down are
accounted for if it is `strict`. -/
structure Underway (strict : Bool) (base : Story) (s : Situation) : Prop where
  onward : base.Onward s.toStory
  recorded : s.toStory.Recorded
  attributed : strict = true → Attributed s.own

namespace Underway

variable {strict : Bool} {base : Story} {s s' : Situation} {c : Change}

theorem start (hb : base.Recorded) : Underway strict base base.enter :=
  ⟨.refl base, hb, fun _ _ hm => absurd hm List.not_mem_nil⟩

theorem change (hs : Underway strict base s) (hc : c.Welcome s.engine.registry)
    (ht : c.Timely s.engine)
    (hf : strict = true → ∀ h i text now, c = .fail h i text now →
      ∃ fault : EngineFault, fault.root.OfTarget ∧ text = fault.message) :
    Underway strict base (s.change c) := by
  refine ⟨hs.onward.change hc ht, hs.recorded.change hc ht, fun hstrict => ?_⟩
  refine (hs.attributed hstrict).cons fun h i text now hevent => ?_
  exact hf hstrict h i text now (Event.change.inj hevent)

theorem plain (hs : Underway strict base s) (hn : c.newcomer? = none) (ht : c.Timely s.engine)
    (hf : c.failure? = none) : Underway strict base (s.change c) := by
  refine hs.change (Change.welcome_of_newcomer hn _) ht ?_
  rintro - h i text now rfl
  cases hf

theorem log (hs : Underway strict base s) (r : LogRecord) :
    Underway strict base (s.change (.log r)) :=
  hs.plain rfl trivial rfl

theorem meets (hs : Underway strict base s) {p : ProviderCall} {r : p.Outcome}
    (hm : Custom.onward.conduct.Meets s p r s') :
    Underway strict base s' ∧ s.engine.Advances s'.engine := by
  obtain ⟨t, ht, -, rfl⟩ := hm
  have hcalled : (t.called p r).Recorded := (ht.recorded hs.recorded).called p r
  refine ⟨⟨⟨hs.onward.advances.trans ht.advances, fun _ => hcalled⟩, hcalled, ?_⟩, ht.advances⟩
  refine fun hstrict => (hs.attributed hstrict).cons ?_
  intro h i text now hevent
  cases hevent

end Underway

theorem Engine.Advances.change {e : Engine} {s : Situation} (h : e.Advances s.engine) (c : Change) :
    e.Advances (s.change c).engine :=
  h.trans (Engine.advances_apply c s.engine)

/-- Changes that neither begin nor end a step or a run. -/
def Change.Uneventful : Change → Prop
  | .begin _ _ _ | .complete _ _ _ _ | .fail _ _ _ _ | .startRun _ | .finishRun _ | .failRun _ =>
    False
  | _ => True

theorem Change.Uneventful.timely {c : Change} (hc : c.Uneventful) (e : Engine) : c.Timely e := by
  cases c <;> trivial

def Scope.uneventful (r : Registry) : Scope where
  sees e := e.registry = r
  makes c := c.Welcome r ∧ c.Uneventful
  calls _ := True

theorem Scope.uneventful_requests (r : Registry) : (Scope.uneventful r).Requests r := by
  have quiet : ∀ {c : Change}, c.newcomer? = none → c.Welcome r :=
    fun hc => Change.welcome_of_newcomer hc r
  refine ⟨⟨fun _ => ⟨quiet rfl, trivial⟩, fun _ _ => ⟨quiet rfl, trivial⟩,
    fun _ => ⟨quiet rfl, trivial⟩, fun _ => ⟨quiet rfl, trivial⟩, fun _ _ => trivial⟩,
    fun _ => id, ?_⟩
  intro s id tenant flow now hf hnew
  refine ⟨?_, trivial⟩
  rintro s' ⟨⟩
  exact ⟨id, tenant, flow, now, hf, hnew⟩

theorem Scope.uneventful_notes (r : Registry) (tenant : String) (h : Handle) (i : Nat) :
    (Scope.uneventful r).Notes tenant h i := by
  have hb := uneventful_requests r
  refine ⟨⟨hb.log, hb.values h, fun _ _ => trivial⟩, fun _ => ⟨?_, trivial⟩, fun _ => ⟨?_, trivial⟩⟩
  · exact Change.welcome_of_newcomer rfl r
  · exact Change.welcome_of_newcomer rfl r

namespace Attempt

variable {strict : Bool} {base : Story} {s : Situation} {Q : α → Situation → Prop}
  {G G' : EngineFault → Prop}

/-- The operation goes on, and ends with a value as in `Q`, or with a fault that is in `G` if it is
strict. -/
def Proceeds (strict : Bool) (base : Story) (Q : α → Situation → Prop) (G : EngineFault → Prop)
    (a : Attempt α) (s : Situation) : Prop :=
  a.Assures Custom.onward.conduct (Underway strict base)
    (fun v s' => (Underway strict base s' ∧ s.engine.Advances s'.engine) ∧ Q v s')
    (fun fault s' => (Underway strict base s' ∧ s.engine.Advances s'.engine) ∧
      (strict = true → G fault)) s

theorem Proceeds.imp {Q' : α → Situation → Prop} {a : Attempt α}
    (h : a.Proceeds strict base Q G s) (hq : ∀ v s', Q v s' → Q' v s')
    (hg : ∀ fault, G fault → G' fault) : a.Proceeds strict base Q' G' s :=
  Assures.imp h (fun v s' hs => ⟨hs.1, hq v s' hs.2⟩)
    fun fault _ hs => ⟨hs.1, fun hstrict => hg fault (hs.2 hstrict)⟩

theorem Proceeds.since {a : Attempt α} {s' : Situation} (h : a.Proceeds strict base Q G s')
    (hadv : s.engine.Advances s'.engine) :
    a.Assures Custom.onward.conduct (Underway strict base)
      (fun v s'' => (Underway strict base s'' ∧ s.engine.Advances s''.engine) ∧ Q v s'')
      (fun fault s'' => (Underway strict base s'' ∧ s.engine.Advances s''.engine) ∧
        (strict = true → G fault)) s' := by
  refine Assures.imp h ?_ ?_
  · rintro v s'' ⟨⟨hunder, hadv'⟩, hq⟩
    exact ⟨⟨hunder, hadv.trans hadv'⟩, hq⟩
  · rintro fault s'' ⟨⟨hunder, hadv'⟩, hg⟩
    exact ⟨⟨hunder, hadv.trans hadv'⟩, hg⟩

theorem Proceeds.bind {Q' : β → Situation → Prop} {a : Attempt α} {f : α → Attempt β}
    (h : a.Proceeds strict base Q G s)
    (hf : ∀ v s', Underway strict base s' → s.engine.Advances s'.engine → Q v s' →
      (f v).Proceeds strict base Q' G s') : (a >>= f).Proceeds strict base Q' G s := by
  refine Assures.bind h ?_
  rintro v s' ⟨⟨hunder, hadv⟩, hq⟩
  exact (hf v s' hunder hadv hq).since hadv

theorem proceeds_pure {v : α} (hs : Underway strict base s) (hq : Q v s) :
    (pure v : Attempt α).Proceeds strict base Q G s :=
  ⟨⟨hs, .refl _⟩, hq⟩

theorem proceeds_throw {fault : EngineFault} (hs : Underway strict base s)
    (hg : strict = true → G fault) : (throw fault : Attempt α).Proceeds strict base Q G s :=
  ⟨⟨hs, .refl _⟩, hg⟩

theorem proceeds_session {h : Handle} {f : Session → Attempt α}
    (hf : (f (s.engine.session h)).Proceeds strict base Q G s) :
    Proceeds strict base Q G ((Proc.session h : Attempt Session) >>= f) s := by
  rw [Proceeds, assures_bind, assures_lift, Proc.assures_session]
  exact hf

theorem proceeds_change {c : Change} {f : Unit → Attempt α} (hs : Underway strict base (s.change c))
    (hf : (f ()).Proceeds strict base Q G (s.change c)) :
    Proceeds strict base Q G ((Proc.change c : Attempt Unit) >>= f) s := by
  have hadv : s.engine.Advances (s.change c).engine := Engine.advances_apply c s.engine
  rw [Proceeds, assures_bind, assures_lift, Proc.assures_change]
  exact ⟨hs, hf.since hadv⟩

theorem proceeds_log {level event message : String} {f : Unit → Attempt α}
    (hs : Underway strict base s)
    (hf : ∀ s', Underway strict base s' → s.engine.Advances s'.engine →
      (f ()).Proceeds strict base Q G s') :
    Proceeds strict base Q G ((Proc.log level event message : Attempt Unit) >>= f) s :=
  proceeds_change (hs.log _) (hf _ (hs.log _) ((Engine.Advances.refl _).change _))

theorem proceeds_ofExcept {r : Except EngineFault α} {f : α → Attempt β}
    {Q : β → Situation → Prop} (hs : Underway strict base s)
    (hok : ∀ v, r = .ok v → (f v).Proceeds strict base Q G s)
    (herror : ∀ fault, r = .error fault → strict = true → G fault) :
    (ofExcept r >>= f).Proceeds strict base Q G s := by
  rw [Proceeds, assures_bind, assures_ofExcept]
  exact ⟨hok, fun fault hf => ⟨⟨hs, .refl _⟩, herror fault hf⟩⟩

theorem Proceeds.outcome {Q' : β → Situation → Prop} {a : Attempt α}
    {f : Except EngineFault α → Attempt β} (h : a.Proceeds strict base Q G s)
    (hok : ∀ v s', Underway strict base s' → s.engine.Advances s'.engine → Q v s' →
      (f (.ok v)).Proceeds strict base Q' G' s')
    (herror : ∀ fault s', Underway strict base s' → s.engine.Advances s'.engine →
      (strict = true → G fault) → (f (.error fault)).Proceeds strict base Q' G' s') :
    (a.outcome >>= f).Proceeds strict base Q' G' s := by
  rw [Proceeds, assures_bind, assures_outcome]
  refine Assures.imp h ?_ ?_
  · rintro v s' ⟨⟨hunder, hadv⟩, hq⟩
    exact (hok v s' hunder hadv hq).since hadv
  · rintro fault s' ⟨⟨hunder, hadv⟩, hg⟩
    exact (herror fault s' hunder hadv hg).since hadv

theorem proceeds_forM {γ : Type} {D : γ → Engine → Prop}
    (hD : ∀ {x e e'}, D x e → e.Advances e' → D x e') {f : γ → Attempt PUnit} (l : List γ)
    (hs : Underway strict base s)
    (hf : ∀ x ∈ l, ∀ s', Underway strict base s' → s.engine.Advances s'.engine →
      (f x).Proceeds strict base (fun _ s'' => D x s''.engine) G s') :
    (l.forM f).Proceeds strict base (fun _ s' => ∀ x ∈ l, D x s'.engine) G s := by
  induction l generalizing s with
  | nil => exact proceeds_pure hs nofun
  | cons x rest ih =>
    show Proceeds strict base _ G (f x >>= fun _ => rest.forM f) s
    refine (hf x List.mem_cons_self s hs (.refl _)).bind fun _ s' hs' hadv hx => ?_
    have hrest := ih hs' fun y hy s'' hs'' hadv' =>
      hf y (List.mem_cons_of_mem _ hy) s'' hs'' (hadv.trans hadv')
    refine Assures.imp hrest ?_ fun _ _ => id
    rintro _ s'' ⟨⟨hunder, hadv'⟩, hall⟩
    refine ⟨⟨hunder, hadv'⟩, fun y hy => ?_⟩
    rcases List.mem_cons.mp hy with rfl | hy
    · exact hD hx hadv'
    · exact hall y hy

end Attempt

theorem Attempt.Within.proceeds {strict : Bool} {base : Story} {s : Situation} {V : α → Prop}
    {G : EngineFault → Prop} {a : Attempt α} {r : Registry} (ha : a.Within (.uneventful r) V G)
    (hr : s.engine.registry = r) (hs : Underway strict base s) :
    a.Proceeds strict base (fun v _ => V v) G s := by
  have hall := ha.assures (K := Custom.onward.conduct)
    (J := fun s' => Underway strict base s' ∧ s.engine.Advances s'.engine)
    (fun s' h => h.2.registry.trans hr) ?_ ?_ ⟨hs, .refl _⟩
  · exact hall.mono (fun _ h => h.1) (fun _ _ h => ⟨h.2, h.1⟩) fun _ _ h => ⟨h.2, fun _ => h.1⟩
  · rintro s' c ⟨hunder, hadv⟩ ⟨hc, hquiet⟩
    have hregistry : s'.engine.registry = r := hadv.registry.trans hr
    refine ⟨hunder.change (hregistry ▸ hc) (hquiet.timely _) ?_,
      hadv.change c⟩
    rintro - h i text now rfl
    exact hquiet.elim
  · rintro s' c r' s'' ⟨hunder, hadv⟩ - hm
    obtain ⟨hunder', hadv'⟩ := hunder.meets hm
    exact ⟨hunder', hadv.trans hadv'⟩

end FlowEngine
