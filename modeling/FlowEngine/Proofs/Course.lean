import FlowEngine.Engine.Steps
import FlowEngine.Proofs.Effects
import FlowEngine.Proofs.Layout

/-! # Courses of steps

A course is what can be seen of running a step, its required steps, or all steps of a session in
turn: which step is started, ended or failed in which situation, and what goes on in between. It is
about the outline of the session and knows nothing of the text of the operations.
-/
namespace FlowEngine

namespace StepOutline

def id (x : StepOutline) : String := s!"{x.session}/{x.step.id.text}"

end StepOutline

namespace Engine

def isRunning (e : Engine) (h : Handle) (i : Nat) : Bool :=
  (e.record? h i).any StepRecord.isRunning

def isDone (e : Engine) (h : Handle) (i : Nat) : Bool :=
  (e.record? h i).any StepRecord.isDone

def isDoneIn (e : Engine) (h : Handle) (i generation : Nat) : Bool :=
  (e.record? h i).any fun r => r.isDone && r.completedInRun == generation

theorem isDone_iff {e : Engine} {h : Handle} {i : Nat} :
    e.isDone h i = true ↔ ∃ r, e.record? h i = some r ∧ r.isDone = true := by
  rw [isDone, Option.any_eq_true]

theorem isDoneIn_iff {e : Engine} {h : Handle} {i g : Nat} :
    e.isDoneIn h i g = true ↔
      ∃ r, e.record? h i = some r ∧ r.isDone = true ∧ r.completedInRun = g := by
  simp [isDoneIn, Option.any_eq_true]

end Engine

/-- Changes that start and end no step. Only the given step may take notes. -/
def Change.Quiet (h : Handle) (i : Option Nat) : Change → Prop
  | .log _ => True
  | .values k _ => k = h
  | .noteConversation k j _ | .noteAppRun k j _ => k = h ∧ i = some j
  | _ => False

/-- A quiet change, or a call for the tenant. -/
inductive Aside (K : Conduct) (tenant : String) (h : Handle) (i : Option Nat) :
    Situation → Situation → Prop where
  | change {s c} : Change.Quiet h i c → Aside K tenant h i s (s.change c)
  | call {s c r s'} : c.tenant = tenant → K.Meets s c r s' → Aside K tenant h i s s'

abbrev Quietly (K : Conduct) (tenant : String) (h : Handle) (i : Option Nat) :
    Situation → Situation → Prop :=
  Relation.ReflTransGen (Aside K tenant h i)

/-- What is run: a step with the steps that it requires, what is left of the latter, the step
itself, or what is left of the steps of a session, in the given run. -/
inductive Task where
  | guarded (i : Nat)
  | required (i : Nat) (rest : List Nat)
  | alone (i : Nat)
  | turns (generation : Nat) (rest : List Nat)

inductive Ending where
  | underWay
  | succeeded
  | failed (fault : EngineFault)

/-- The requiring step has no part in this. -/
def Ending.PassedOn : Ending → Prop
  | .underWay => True
  | .succeeded => False
  | .failed fault => Steps.leavesAlone fault

def StepOrder.requirements (o : StepOrder) (x : StepOutline) : List Nat :=
  if o.withRequired then x.required else []

/-- The first of two steps takes an output of the second. -/
def SessionOutline.Requires (t : SessionOutline) (i j : Nat) : Prop :=
  ∃ x : StepOutline, t.steps[i]? = some x ∧ j ∈ x.required

theorem SessionOutline.Requires.lt {t : SessionOutline} {i j : Nat} (ht : t.WellLaid)
    (hr : t.Requires i j) : j < i := by
  obtain ⟨x, hx, hj⟩ := hr
  exact ht.laid.position i x hx ▸ ht.laid.earlier x (List.mem_of_getElem? hx) j hj

/-- From one situation a task comes to another, where it may have come to its end. -/
inductive Course (K : Conduct) (o : StepOrder) (t : SessionOutline) :
    Task → Situation → Ending → Situation → Prop where
  | halted {task s} : Course K o t task s .underWay s
  | busy {i x s} : t.steps[i]? = some x → s.engine.isRunning o.session i = true →
      Course K o t (.guarded i) s (.failed (.stepRunning x.id)) s
  | unready {i x s e s'} : t.steps[i]? = some x → s.engine.isRunning o.session i = false →
      Course K o t (.required i (o.requirements x)) s e s' → e ≠ .succeeded →
      Course K o t (.guarded i) s e s'
  | ready {i x s s' e s''} : t.steps[i]? = some x → s.engine.isRunning o.session i = false →
      Course K o t (.required i (o.requirements x)) s .succeeded s' →
      Course K o t (.alone i) s' e s'' → Course K o t (.guarded i) s e s''
  | none {i s} : Course K o t (.required i []) s .succeeded s
  | settled {i j rest s e s'} : t.Requires i j → s.engine.isDone o.session j = true →
      Course K o t (.required i rest) s e s' → Course K o t (.required i (j :: rest)) s e s'
  | next {i j rest s s' e s''} : t.Requires i j → s.engine.isDone o.session j = false →
      Course K o t (.guarded j) s .succeeded s' → Course K o t (.required i rest) s' e s'' →
      Course K o t (.required i (j :: rest)) s e s''
  | passed {i j rest s e s'} : t.Requires i j → s.engine.isDone o.session j = false →
      Course K o t (.guarded j) s e s' → e.PassedOn →
      Course K o t (.required i (j :: rest)) s e s'
  | blamed {i j rest x y s cause s' fault now e s''} : t.steps[i]? = some x →
      t.steps[j]? = some y → j ∈ x.required → s.engine.isDone o.session j = false →
      Course K o t (.guarded j) s (.failed cause) s' → Steps.leavesAlone cause = false →
      fault = EngineFault.requiredStepFailed x.step.id.text y.step.id.text cause →
      Quietly K o.tenant o.session .none
        (s'.change (.fail o.session i fault.message now)) s'' →
      e = .underWay ∨ e = .failed fault → Course K o t (.required i (j :: rest)) s e s''
  | refused {i x s} : t.steps[i]? = some x → s.engine.isRunning o.session i = true →
      Course K o t (.alone i) s (.failed (.stepRunning x.id)) s
  | begun {i s r now s'} : s.engine.record? o.session i = some r → r.isRunning = false →
      Quietly K o.tenant o.session (some i) (s.change (.begin o.session i now)) s' →
      Course K o t (.alone i) s .underWay s'
  | done {i s r now s' outcome later e s''} : s.engine.record? o.session i = some r →
      r.isRunning = false →
      Quietly K o.tenant o.session (some i) (s.change (.begin o.session i now)) s' →
      Quietly K o.tenant o.session .none
        (s'.change (.complete o.session i outcome later)) s'' →
      e = .underWay ∨ e = .succeeded → Course K o t (.alone i) s e s''
  | failed {i s r now s' fault later e s''} : s.engine.record? o.session i = some r →
      r.isRunning = false →
      Quietly K o.tenant o.session (some i) (s.change (.begin o.session i now)) s' →
      fault.isConflict = false →
      Quietly K o.tenant o.session .none
        (s'.change (.fail o.session i fault.message later)) s'' →
      e = .underWay ∨ e = .failed fault → Course K o t (.alone i) s e s''
  | ended {g s} : Course K o t (.turns g []) s .succeeded s
  | skipped {g i rest s e s'} : s.engine.isDoneIn o.session i g = true →
      Course K o t (.turns g rest) s e s' → Course K o t (.turns g (i :: rest)) s e s'
  | taken {g i rest s s' e s''} : s.engine.isDoneIn o.session i g = false →
      Course K o t (.guarded i) s .succeeded s' → Course K o t (.turns g rest) s' e s'' →
      Course K o t (.turns g (i :: rest)) s e s''
  | broken {g i rest s e s'} : s.engine.isDoneIn o.session i g = false →
      Course K o t (.guarded i) s e s' → e ≠ .succeeded →
      Course K o t (.turns g (i :: rest)) s e s'

def Session.turns (s : Session) : List Nat := s.graph.inOrder.map StepExecution.index

/-- What is done in a run of a session, whose number is given: uploads, then all steps. -/
inductive Work (K : Conduct) (tenant : String) (h : Handle) (t : SessionOutline)
    (generation : Nat) : Situation → Ending → Situation → Prop where
  | uploads {s s' e} : Quietly K tenant h none s s' → e ≠ .succeeded →
      Work K tenant h t generation s e s'
  | steps {s s' e s''} : Quietly K tenant h none s s' →
      (s'.engine.session h).turns.Perm (List.range t.steps.length) →
      Course K ⟨tenant, h, none, true⟩ t (.turns generation (s'.engine.session h).turns) s' e s'' →
      Work K tenant h t generation s e s''

theorem Work.after {K : Conduct} {tenant : String} {h : Handle} {t : SessionOutline}
    {generation : Nat} {s₀ s s' : Situation} {e : Ending} (hq : Quietly K tenant h none s₀ s)
    (hw : Work K tenant h t generation s e s') : Work K tenant h t generation s₀ e s' := by
  cases hw with
  | uploads hq' he => exact .uploads (hq.trans hq') he
  | steps hq' ho hx => exact .steps (hq.trans hq') ho hx

inductive RunCourse (K : Conduct) (tenant : String) (h : Handle) (t : SessionOutline) :
    Situation → Ending → Situation → Prop where
  | working {s s'} : (s.engine.session h).state ≠ .running →
      Work K tenant h t ((s.engine.session h).generation + 1) (s.change (.startRun h)) .underWay s' →
      RunCourse K tenant h t s .underWay s'
  | finished {s s' e s''} : (s.engine.session h).state ≠ .running →
      Work K tenant h t ((s.engine.session h).generation + 1) (s.change (.startRun h)) .succeeded
        s' →
      Quietly K tenant h none (s'.change (.finishRun h)) s'' → e = .underWay ∨ e = .succeeded →
      RunCourse K tenant h t s e s''
  | failed {s fault s' e s''} : (s.engine.session h).state ≠ .running →
      Work K tenant h t ((s.engine.session h).generation + 1) (s.change (.startRun h))
        (.failed fault) s' →
      Quietly K tenant h none (s'.change (.failRun h)) s'' → e = .underWay ∨ e = .failed fault →
      RunCourse K tenant h t s e s''

def Change.OfSteps (h : Handle) (c : Change) : Prop :=
  c.Quiet h none ∨ ∃ i, c.record? = some (h, i)

theorem Change.Quiet.ofSteps {h : Handle} {i : Option Nat} {c : Change} (hc : c.Quiet h i) :
    c.OfSteps h := by
  cases c with
  | log r => exact .inl hc
  | values k t => exact .inl hc
  | noteConversation k j conversation =>
    obtain ⟨rfl, -⟩ := hc
    exact .inr ⟨j, rfl⟩
  | noteAppRun k j run =>
    obtain ⟨rfl, -⟩ := hc
    exact .inr ⟨j, rfl⟩
  | _ => exact hc.elim

theorem Change.OfSteps.newcomer {h : Handle} {c : Change} (hc : c.OfSteps h) :
    c.newcomer? = none := by
  rcases hc with hc | ⟨i, hc⟩
  · cases c <;> first | rfl | exact hc.elim
  · cases c <;> first | rfl | cases hc

theorem Change.OfSteps.run {h : Handle} {c : Change} (hc : c.OfSteps h) : c.run? = none := by
  rcases hc with hc | ⟨i, hc⟩
  · cases c <;> first | rfl | exact hc.elim
  · cases c <;> first | rfl | cases hc

section Keeps

variable {K : Conduct} {J : Situation → Prop} {h : Handle}

theorem Quietly.keeps {tenant : String} {i : Option Nat}
    (hchange : ∀ s c, J s → Change.Quiet h i c → J (s.change c))
    (hcall : ∀ s c r s', J s → c.tenant = tenant → K.Meets s c r s' → J s') {s s' : Situation}
    (hq : Quietly K tenant h i s s') (hs : J s) : J s' := by
  induction hq with
  | refl => exact hs
  | tail _ haside ih =>
    cases haside with
    | change hc => exact hchange _ _ ih hc
    | call ht hm => exact hcall _ _ _ _ ih ht hm

theorem Course.keeps {o : StepOrder} {t : SessionOutline}
    (hchange : ∀ s c, J s → Change.OfSteps o.session c → J (s.change c))
    (hcall : ∀ s c r s', J s → c.tenant = o.tenant → K.Meets s c r s' → J s') {task : Task}
    {s s' : Situation} {e : Ending} (hx : Course K o t task s e s') (hs : J s) : J s' := by
  have quietly : ∀ {i a b}, Quietly K o.tenant o.session i a b → J a → J b :=
    fun hq ha => hq.keeps (fun s c hs hc => hchange s c hs hc.ofSteps) hcall ha
  have recorded : ∀ {a : Situation} {c i}, Change.record? c = some (o.session, i) → J a →
      J (a.change c) := fun hc ha => hchange _ _ ha (.inr ⟨_, hc⟩)
  induction hx with
  | halted | busy | none | refused | ended => exact hs
  | unready _ _ _ _ ih => exact ih hs
  | ready _ _ _ _ ihr iha => exact iha (ihr hs)
  | settled _ _ _ ih => exact ih hs
  | next _ _ _ _ ihg ihr => exact ihr (ihg hs)
  | passed _ _ _ _ ih => exact ih hs
  | blamed _ _ _ _ _ _ _ hq _ ih => exact quietly hq (recorded rfl (ih hs))
  | begun _ _ hq => exact quietly hq (recorded rfl hs)
  | done _ _ hb hq _ => exact quietly hq (recorded rfl (quietly hb (recorded rfl hs)))
  | failed _ _ hb _ hq _ => exact quietly hq (recorded rfl (quietly hb (recorded rfl hs)))
  | skipped _ _ ih => exact ih hs
  | taken _ _ _ ihg ihr => exact ihr (ihg hs)
  | broken _ _ _ ih => exact ih hs

theorem Work.keeps {tenant : String} {t : SessionOutline} {g : Nat}
    (hchange : ∀ s c, J s → Change.OfSteps h c → J (s.change c))
    (hcall : ∀ s c r s', J s → c.tenant = tenant → K.Meets s c r s' → J s') {s s' : Situation}
    {e : Ending} (hw : Work K tenant h t g s e s') (hs : J s) : J s' := by
  have quietly : ∀ {a b}, Quietly K tenant h none a b → J a → J b :=
    fun hq ha => hq.keeps (fun s c hs hc => hchange s c hs hc.ofSteps) hcall ha
  cases hw with
  | uploads hq _ => exact quietly hq hs
  | steps hq _ hx => exact hx.keeps hchange hcall (quietly hq hs)

theorem RunCourse.keeps {tenant : String} {t : SessionOutline}
    (hchange : ∀ s c, J s → Change.OfSteps h c ∨ c.run? = some h → J (s.change c))
    (hcall : ∀ s c r s', J s → c.tenant = tenant → K.Meets s c r s' → J s') {s s' : Situation}
    {e : Ending} (hx : RunCourse K tenant h t s e s') (hs : J s) : J s' := by
  have steps : ∀ s c, J s → Change.OfSteps h c → J (s.change c) :=
    fun s c hs hc => hchange s c hs (.inl hc)
  have quietly : ∀ {a b}, Quietly K tenant h none a b → J a → J b :=
    fun hq ha => hq.keeps (fun s c hs hc => steps s c hs hc.ofSteps) hcall ha
  have started := hchange s (.startRun h) hs (.inr rfl)
  cases hx with
  | working _ hw => exact hw.keeps steps hcall started
  | finished _ hw hq _ =>
    exact quietly hq (hchange _ _ (hw.keeps steps hcall started) (.inr rfl))
  | failed _ hw hq _ =>
    exact quietly hq (hchange _ _ (hw.keeps steps hcall started) (.inr rfl))

end Keeps

/-- Others never lose a session. -/
def Conduct.Evolving (K : Conduct) : Prop :=
  ∀ {s t}, K.meanwhile s t → s.engine.Evolves t.engine

theorem Conduct.solitary_evolving (answers) : (Conduct.solitary answers).Evolving := by
  rintro s t ⟨b, rfl⟩
  exact .refl _

section Evolves

variable {K : Conduct} {s s' : Situation}

theorem Conduct.Meets.evolves (hK : K.Evolving) {c : ProviderCall} {r : c.Outcome}
    (hm : K.Meets s c r s') : s.engine.Evolves s'.engine := by
  obtain ⟨u, hu, -, rfl⟩ := hm
  exact hK (t := u) hu

theorem Conduct.Awaits.evolves (hK : K.Evolving) {w : Wait} {v : Wait.Verdict}
    (h : K.Awaits w s v s') : s.engine.Evolves s'.engine := by
  induction h with
  | stopped => exact .refl _
  | settled hm _ => exact hm.evolves hK
  | late hm _ _ => exact hm.evolves hK
  | again hpoll _ ih =>
    obtain ⟨_, hm⟩ := hpoll
    exact (hm.evolves hK).trans ih

theorem Quietly.evolves (hK : K.Evolving) {tenant : String} {h : Handle} {i : Option Nat}
    (hq : Quietly K tenant h i s s') : s.engine.Evolves s'.engine :=
  hq.keeps (J := fun s' => s.engine.Evolves s'.engine)
    (fun _ c hs _ => hs.trans (Change.evolves_apply c _))
    (fun _ _ _ _ hs _ hm => hs.trans (hm.evolves hK)) (.refl _)

theorem Quietly.own_suffix {tenant : String} {h : Handle} {i : Option Nat}
    (hq : Quietly K tenant h i s s') : s.own <:+ s'.own := by
  refine hq.keeps (J := fun s' => s.own <:+ s'.own) ?_ ?_ (List.suffix_refl _)
  · exact fun s' c hs _ => hs.trans (List.suffix_cons _ _)
  · rintro s' c r s'' hs - ⟨u, -, -, rfl⟩
    exact hs.trans (List.suffix_cons _ _)

theorem Course.own_suffix {o : StepOrder} {t : SessionOutline} {task : Task} {e : Ending}
    (hx : Course K o t task s e s') : s.own <:+ s'.own := by
  refine hx.keeps (J := fun s' => s.own <:+ s'.own) ?_ ?_ (List.suffix_refl _)
  · exact fun s' c hs _ => hs.trans (List.suffix_cons _ _)
  · rintro s' c r s'' hs - ⟨u, -, -, rfl⟩
    exact hs.trans (List.suffix_cons _ _)

theorem Course.evolves (hK : K.Evolving) {o : StepOrder} {t : SessionOutline} {task : Task}
    {e : Ending} (hx : Course K o t task s e s') : s.engine.Evolves s'.engine :=
  hx.keeps (J := fun s' => s.engine.Evolves s'.engine)
    (fun _ c hs _ => hs.trans (Change.evolves_apply c _))
    (fun _ _ _ _ hs _ hm => hs.trans (hm.evolves hK)) (.refl _)

theorem Work.evolves (hK : K.Evolving) {tenant : String} {h : Handle} {t : SessionOutline}
    {g : Nat} {e : Ending} (hw : Work K tenant h t g s e s') : s.engine.Evolves s'.engine :=
  hw.keeps (J := fun s' => s.engine.Evolves s'.engine)
    (fun _ c hs _ => hs.trans (Change.evolves_apply c _))
    (fun _ _ _ _ hs _ hm => hs.trans (hm.evolves hK)) (.refl _)

end Evolves

section Solitary

variable {answers : List Moment → (c : ProviderCall) → c.Outcome → Prop} {s s' : Situation}
  {tenant : String} {h : Handle} {i : Option Nat}

theorem Conduct.Meets.same {c : ProviderCall} {r : c.Outcome}
    (hm : (Conduct.solitary answers).Meets s c r s') :
    ∃ b, s'.engine = { s.engine with stopping := b } := by
  obtain ⟨u, ⟨b, rfl⟩, -, rfl⟩ := hm
  exact ⟨b, rfl⟩

theorem Conduct.Meets.record? {c : ProviderCall} {r : c.Outcome}
    (hm : (Conduct.solitary answers).Meets s c r s') (k : Handle) (j : Nat) :
    s'.engine.record? k j = s.engine.record? k j := by
  obtain ⟨b, hb⟩ := hm.same
  rw [hb]
  rfl

theorem Conduct.Meets.session {c : ProviderCall} {r : c.Outcome}
    (hm : (Conduct.solitary answers).Meets s c r s') (k : Handle) :
    s'.engine.session k = s.engine.session k := by
  obtain ⟨b, hb⟩ := hm.same
  rw [hb]
  rfl

theorem Quietly.state (hq : Quietly (Conduct.solitary answers) tenant h i s s') (k : Handle) :
    (s'.engine.session k).state = (s.engine.session k).state ∧
      (s'.engine.session k).generation = (s.engine.session k).generation := by
  refine hq.keeps (J := fun s' => (s'.engine.session k).state = (s.engine.session k).state ∧
    (s'.engine.session k).generation = (s.engine.session k).generation) ?_ ?_ ⟨rfl, rfl⟩
  · intro s' c hs hc
    have hkeep := Change.state_apply (c := c) (e := s'.engine) (h := k)
      (by rw [hc.ofSteps.run]; exact nofun) (.inl hc.ofSteps.newcomer)
    exact ⟨hkeep.1.trans hs.1, hkeep.2.trans hs.2⟩
  · intro s' c r s'' hs _ hm
    rw [hm.session]
    exact hs

theorem Change.Quiet.record? {c : Change} (hc : c.Quiet h i) {j : Nat} (hj : i ≠ some j)
    (e : Engine) : (c.apply e).record? h j = e.record? h j := by
  refine Change.record?_apply (fun hr => ?_) (.inl hc.ofSteps.newcomer)
  cases c <;> cases hr <;> first | exact hc.elim | exact hj hc.2

theorem Quietly.record? (hq : Quietly (Conduct.solitary answers) tenant h i s s') {j : Nat}
    (hj : i ≠ some j) : s'.engine.record? h j = s.engine.record? h j :=
  hq.keeps (J := fun s' => s'.engine.record? h j = s.engine.record? h j)
    (fun _ _ hs hc => (hc.record? hj _).trans hs)
    (fun _ _ _ _ hs _ hm => (hm.record? h j).trans hs) rfl

def StepRecord.noted (r : StepRecord) (conversation appRun : Option String) : StepRecord :=
  { r with conversation := conversation, appRun := appRun }

theorem Change.Quiet.noted {c : Change} (hc : c.Quiet h i) (g : Nat) (r : StepRecord) :
    ∃ conversation run, c.onRecord g r = r.noted conversation run := by
  cases c with
  | noteConversation k j conversation => exact ⟨some conversation, r.appRun, rfl⟩
  | noteAppRun k j run => exact ⟨r.conversation, some run, rfl⟩
  | log | values => exact ⟨r.conversation, r.appRun, rfl⟩
  | _ => exact hc.elim

theorem Quietly.noted (hq : Quietly (Conduct.solitary answers) tenant h i s s') {j : Nat}
    {r : StepRecord} (hr : s.engine.record? h j = some r) :
    ∃ conversation run, s'.engine.record? h j = some (r.noted conversation run) := by
  refine hq.keeps (J := fun s' => ∃ conversation run,
    s'.engine.record? h j = some (r.noted conversation run)) ?_ ?_ ⟨r.conversation, r.appRun, hr⟩
  · rintro s' c ⟨conversation, run, hs⟩ hc
    by_cases hself : c.record? = some (h, j)
    · obtain ⟨conversation', run', hn⟩ :=
        hc.noted (s'.engine.session h).generation (r.noted conversation run)
      refine ⟨conversation', run', ?_⟩
      rw [Situation.change_engine, Change.record?_apply_self hself, hs, Option.map_some, hn]
      rfl
    · refine ⟨conversation, run, ?_⟩
      rw [Situation.change_engine, Change.record?_apply hself (.inl hc.ofSteps.newcomer), hs]
  · rintro s' c r' s'' ⟨conversation, run, hs⟩ - hm
    exact ⟨conversation, run, (hm.record? h j).trans hs⟩

theorem Quietly.record?_change {c : Change} {j : Nat} {r : StepRecord} (hc : c.record? = some (h, j))
    (hr : s.engine.record? h j = some r)
    (hq : Quietly (Conduct.solitary answers) tenant h i (s.change c) s') :
    ∃ conversation run, s'.engine.record? h j =
      some ((c.onRecord (s.engine.session h).generation r).noted conversation run) := by
  refine hq.noted ?_
  rw [Situation.change_engine, Change.record?_apply_self hc, hr, Option.map_some]

theorem Quietly.record?_change_of_ne {c : Change} {j k : Nat} (hc : c.record? = some (h, j))
    (hk : k ≠ j) (hi : i ≠ some k)
    (hq : Quietly (Conduct.solitary answers) tenant h i (s.change c) s') :
    s'.engine.record? h k = s.engine.record? h k := by
  rw [hq.record? hi, Situation.change_engine]
  refine Change.record?_apply ?_ (.inl (Change.OfSteps.newcomer (.inr ⟨j, hc⟩)))
  rw [hc]
  intro he
  cases he
  exact hk rfl

section Dispatch

variable {c : Change} {j k : Nat} {now : Int} {s'' : Situation}
  (hc : c.record? = some (h, j))
  (hb : Quietly (Conduct.solitary answers) tenant h (some j) (s.change (.begin h j now)) s')
  (hq : Quietly (Conduct.solitary answers) tenant h none (s'.change c) s'')
include hc hb hq

theorem Quietly.dispatched {r : StepRecord} (hr : s.engine.record? h j = some r) :
    ∃ r' conversation run, s''.engine.record? h j =
      some ((c.onRecord (s'.engine.session h).generation r').noted conversation run) := by
  obtain ⟨conversation, run, hbegun⟩ := hb.record?_change rfl hr
  exact ⟨_, hq.record?_change hc hbegun⟩

theorem Quietly.dispatched_of_ne (hk : k ≠ j) :
    s''.engine.record? h k = s.engine.record? h k := by
  have hother : some j ≠ some k := by
    intro he
    exact hk (Option.some.inj he).symm
  rw [hq.record?_change_of_ne hc hk (by simp), hb.record?_change_of_ne rfl hk hother]

end Dispatch

end Solitary

end FlowEngine
