import FlowEngine.Proofs.Nesting

/-! # What steps say to the provider

The talk of a step are the calls about it: those that are made while it has been started last of all
steps in progress, uploads and deletions apart. A step whose target is an app begins one run of it
and asks for that run from then on; a step whose target is an assistant opens one conversation and
goes on with it. `Heard` says that talks proceed like this, and `Noted` that the records show the
identifier that the provider has told.
-/
namespace FlowEngine

/-- The steps that have been started and not ended, the one that was started last first. -/
def openSteps : List Moment → List (Handle × Nat)
  | [] => []
  | m :: earlier =>
    match Watch.dispatches.turn m.event with
    | some (.opens x) => x :: openSteps earlier
    | some (.closes x) => (openSteps earlier).erase x
    | none => openSteps earlier

instance (c : ProviderCall) : Decidable c.Fileless :=
  match c with
  | .upload _ _ _ | .delete _ _ => isFalse id
  | .runService _ _ | .ask _ _ | .followUp _ _ _ | .runApp _ _ | .appRun _ _ => isTrue trivial

namespace Event

def Asks : Event → Prop
  | .change _ => False
  | .call c _ => c.Fileless

instance (e : Event) : Decidable e.Asks :=
  match e with
  | .change _ => isFalse id
  | .call c _ => inferInstanceAs (Decidable c.Fileless)

end Event

def talk (x : Handle × Nat) : List Moment → List Moment
  | [] => []
  | m :: earlier =>
    if m.event.Asks ∧ (openSteps earlier).head? = some x then m :: talk x earlier
    else talk x earlier

/-- Whoever asks has a step in progress. -/
def Voiced : List Moment → Prop
  | [] => True
  | m :: earlier => (m.event.Asks → openSteps earlier ≠ []) ∧ Voiced earlier

/-- What is begun with a call and gone on with in later ones. -/
inductive Dialogue where
  | app
  | assistant
  deriving DecidableEq

namespace Dialogue

def answered : Dialogue → Event → Option String
  | .app, .call (.runApp _ _) (.ok run) => some run
  | .assistant, .call (.ask _ _) (.ok answer) => some answer.conversation
  | _, _ => none

def told? (D : Dialogue) (talk : List Moment) : Option String :=
  talk.findSome? fun m => D.answered m.event

/-- The call begins the dialogue if no identifier has been told yet, and goes on with it by the
identifier if one has. -/
def Fits : Dialogue → Option String → ProviderCall → Prop
  | .app, none, .runApp _ _ => True
  | .app, some told, .appRun _ run => run = told
  | .assistant, none, .ask _ _ => True
  | .assistant, some told, .followUp _ conversation _ => conversation = told
  | _, _, _ => False

def Proceeds (D : Dialogue) : List Moment → Prop
  | [] => True
  | m :: earlier =>
    (∀ c r, m.event = .call c r → D.Fits (D.told? earlier) c) ∧ D.Proceeds earlier

/-- The dialogue is begun successfully once at most, each call fits what was told before it, and
what was told stays. -/
structure Single (D : Dialogue) (talk : List Moment) : Prop where
  once : (talk.countP fun m => (D.answered m.event).isSome) ≤ 1
  fits : ∀ later e c r earlier, talk = later ++ ⟨e, .call c r⟩ :: earlier →
    D.Fits (D.told? earlier) c
  stays : ∀ later earlier told, talk = later ++ earlier → D.told? earlier = some told →
    D.told? talk = some told

def shown : Dialogue → StepRecord → Option String
  | .app, r => r.appRun
  | .assistant, r => r.conversation

def brought : Dialogue → TargetOutcome → Option String
  | .app, outcome => outcome.appRun
  | .assistant, outcome => outcome.conversation

def note : Dialogue → Handle × Nat → String → Change
  | .app, x, run => .noteAppRun x.1 x.2 run
  | .assistant, x, conversation => .noteConversation x.1 x.2 conversation

variable {D : Dialogue} {m : Moment} {τ : List Moment}

theorem told?_cons : D.told? (m :: τ) = (D.answered m.event).or (D.told? τ) := by
  rw [told?, List.findSome?_cons]
  cases D.answered m.event <;> rfl

theorem answered_of_fits {told : String} {c : ProviderCall} (h : D.Fits (some told) c)
    (r : c.Outcome) : D.answered (.call c r) = none := by
  cases D <;> cases c <;> first | rfl | exact h.elim

theorem Proceeds.answered_none {told : String} (h : D.Proceeds (m :: τ))
    (htold : D.told? τ = some told) : D.answered m.event = none := by
  obtain ⟨hfits, -⟩ := h
  obtain ⟨e, c | ⟨c, r⟩⟩ := m
  · cases D <;> rfl
  · have hfit := hfits c r rfl
    rw [htold] at hfit
    exact answered_of_fits hfit r

theorem Proceeds.answered_once (h : D.Proceeds τ) :
    (τ.countP fun m => (D.answered m.event).isSome) = (D.told? τ).toList.length := by
  induction τ with
  | nil => rfl
  | cons m τ ih =>
    rw [List.countP_cons, ih h.2, told?_cons]
    cases htold : D.told? τ with
    | none => cases D.answered m.event <;> rfl
    | some told =>
      rw [h.answered_none htold]
      rfl

theorem Proceeds.stays {later earlier : List Moment} {told : String}
    (h : D.Proceeds (later ++ earlier)) (htold : D.told? earlier = some told) :
    D.told? (later ++ earlier) = some told := by
  induction later with
  | nil => exact htold
  | cons m later ih =>
    have hbefore := ih h.2
    rw [List.cons_append, told?_cons, h.answered_none hbefore, hbefore]
    rfl

theorem Proceeds.single (h : D.Proceeds τ) : D.Single τ := by
  constructor
  · rw [h.answered_once]
    exact Option.length_toList_le
  · rintro later e c r earlier rfl
    induction later with
    | nil => exact h.1 c r rfl
    | cons m later ih => exact ih h.2
  · rintro later earlier told rfl htold
    exact h.stays htold

end Dialogue

/-- The dialogue of a kind of target; a service is asked anew each time. -/
def TargetType.dialogue? : TargetType → Option Dialogue
  | .app => some .app
  | .assistant => some .assistant
  | .service => none

/-- The calls of a talk ask the target of the step, and proceed with its dialogue. -/
structure Step.Converses (step : Step) (talk : List Moment) : Prop where
  proceeds : ∀ D, step.target.targetType.dialogue? = some D → D.Proceeds talk
  addressed : ∀ m ∈ talk, ∀ c r, m.event = .call c r → ∀ target, c.target? = some target →
    target = step.target.externalId

theorem Step.converses_nil (step : Step) : step.Converses [] :=
  ⟨fun _ _ => trivial, by simp⟩

theorem Step.Converses.call {step : Step} {τ : List Moment} (h : step.Converses τ) {e : Engine}
    {c : ProviderCall} {r : c.Outcome}
    (hfits : ∀ D, step.target.targetType.dialogue? = some D → D.Fits (D.told? τ) c)
    (htarget : ∀ target, c.target? = some target → target = step.target.externalId) :
    step.Converses (⟨e, .call c r⟩ :: τ) := by
  constructor
  · intro D hD
    refine ⟨?_, h.proceeds D hD⟩
    intro c' r' hm
    cases hm
    exact hfits D hD
  · intro m hm c' r' hc
    rcases List.mem_cons.mp hm with rfl | hm
    · cases hc
      exact htarget
    · exact h.addressed m hm c' r' hc

section Moments

variable {x : Handle × Nat} {e : Engine} {c : Change} {m : Moment} {past : List Moment}

theorem openSteps_ignored (hm : Watch.dispatches.turn m.event = none) :
    openSteps (m :: past) = openSteps past := by
  rw [openSteps, hm]

theorem openSteps_opened (hm : Watch.dispatches.turn m.event = some (.opens x)) :
    openSteps (m :: past) = x :: openSteps past := by
  rw [openSteps, hm]

theorem openSteps_closed (hm : Watch.dispatches.turn m.event = some (.closes x)) :
    openSteps (m :: past) = (openSteps past).erase x := by
  rw [openSteps, hm]

@[simp] theorem talk_change (x : Handle × Nat) :
    talk x (⟨e, .change c⟩ :: past) = talk x past := by
  rw [talk, if_neg fun h => h.1]

theorem talk_asked {c : ProviderCall} {r : c.Outcome} (hc : c.Fileless)
    (hx : (openSteps past).head? = some x) :
    talk x (⟨e, .call c r⟩ :: past) = ⟨e, .call c r⟩ :: talk x past := by
  rw [talk, if_pos ⟨hc, hx⟩]

theorem talk_unasked {c : ProviderCall} {r : c.Outcome}
    (hx : ¬ (c.Fileless ∧ (openSteps past).head? = some x)) :
    talk x (⟨e, .call c r⟩ :: past) = talk x past :=
  if_neg hx

theorem talk_suffix {earlier : List Moment} (x : Handle × Nat) (h : earlier <:+ past) :
    talk x earlier <:+ talk x past := by
  induction past with
  | nil =>
    obtain rfl := List.suffix_nil.mp h
    exact List.suffix_refl _
  | cons m past ih =>
    rcases List.suffix_cons_iff.mp h with rfl | h
    · exact List.suffix_refl _
    · rw [talk]
      split
      · exact (ih h).trans (List.suffix_cons m _)
      · exact ih h

end Moments

/-- The engine is sound, steps are in progress as long as they are running, and talks proceed. -/
structure Heard (s : Story) : Prop where
  sound : s.engine.Sound
  counted : ∀ x : Handle × Nat,
    (openSteps s.past).count x = (s.engine.isRunning x.1 x.2).toNat
  silent : ∀ x, s.engine.stepAt x = none → talk x s.past = []
  converses : ∀ x step, s.engine.stepAt x = some step → step.Converses (talk x s.past)

/-- The record of a step shows what has been told in its talk. -/
def NotedAt (x : Handle × Nat) (s : Story) : Prop :=
  ∀ step D r, s.engine.stepAt x = some step → step.target.targetType.dialogue? = some D →
    s.engine.record? x.1 x.2 = some r → D.shown r = D.told? (talk x s.past)

/-- Nothing that the provider has told is missing in the records. -/
structure Noted (s : Story) : Prop extends Heard s where
  noted : ∀ x, NotedAt x s

section Stories

variable {s t : Story} {x y : Handle × Nat} {c : Change}

theorem Heard.not_open (hs : Heard s) (hx : s.engine.isRunning x.1 x.2 = false) :
    x ∉ openSteps s.past := by
  apply List.count_eq_zero.mp
  rw [hs.counted x, hx]
  rfl

theorem Heard.open_nodup (hs : Heard s) : (openSteps s.past).Nodup := by
  rw [List.nodup_iff_count_le_one]
  intro x
  rw [hs.counted x]
  exact Bool.toNat_le _

/-- A step is started only if it is not running. -/
def Change.Starts (e : Engine) (c : Change) : Prop :=
  ∀ x, Watch.dispatches.turn (.change c) = some (.opens x) →
    e.isRunning x.1 x.2 = false ∧ (e.stepAt x).isSome

theorem Watch.dispatches_opens (h : Watch.dispatches.turn (.change c) = some (.opens x)) :
    ∃ now, c = .begin x.1 x.2 now := by
  cases c <;> cases h
  exact ⟨_, rfl⟩

theorem Watch.dispatches_closes (h : Watch.dispatches.turn (.change c) = some (.closes x)) :
    c.record? = some x ∧ ∀ g r, (c.onRecord g r).isRunning = false := by
  cases c <;> cases h <;> exact ⟨rfl, fun _ _ => rfl⟩

theorem Change.isRunning_closed (hx : Watch.dispatches.turn (.change c) = some (.closes x))
    (e : Engine) : (c.apply e).isRunning x.1 x.2 = false := by
  obtain ⟨hrec, hended⟩ := Watch.dispatches_closes hx
  cases hr : e.record? x.1 x.2 with
  | none => rw [Engine.isRunning, record?_apply_self hrec, hr]; rfl
  | some r => exact isRunning_apply_self hrec false hended hr

theorem Heard.counted_change (hs : Heard s) (hc : c.Welcome s.engine.registry)
    (hstart : c.Starts s.engine) (y : Handle × Nat) :
    (openSteps (s.change c).past).count y = ((c.apply s.engine).isRunning y.1 y.2).toNat := by
  have hcount := hs.counted y
  show (openSteps (⟨s.engine, .change c⟩ :: s.past)).count y = _
  rcases hturn : Watch.dispatches.turn (.change c) with _ | (x | x)
  · rw [openSteps_ignored hturn, hcount, Change.isRunning_apply hc hturn]
  · obtain ⟨hidle, hstep⟩ := hstart x hturn
    obtain ⟨now, rfl⟩ := Watch.dispatches_opens hturn
    rw [openSteps_opened hturn]
    by_cases hy : y = x
    · subst hy
      obtain ⟨r, hr⟩ : ∃ r, s.engine.record? y.1 y.2 = some r := by
        rw [← Option.ne_none_iff_exists', ne_eq, ← Engine.stepAt_eq_none]
        exact Option.isSome_iff_ne_none.mp hstep
      have hrunning := Change.isRunning_apply_self (c := .begin y.1 y.2 now) rfl true
        (by intro g r; simp [Change.onRecord, StepRecord.isRunning]) hr
      rw [List.count_cons_self, hcount, hidle, hrunning]
      rfl
    · rw [List.count_cons_of_ne (Ne.symm hy), hcount, Change.isRunning_apply_of_ne rfl hy]
  · obtain ⟨hrec, -⟩ := Watch.dispatches_closes hturn
    rw [openSteps_closed hturn]
    by_cases hy : y = x
    · subst hy
      have hle := Bool.toNat_le (s.engine.isRunning y.1 y.2)
      rw [List.count_erase_self, hcount, Change.isRunning_closed hturn]
      simp only [Bool.toNat_false]
      omega
    · rw [List.count_erase_of_ne hy, hcount, Change.isRunning_apply_of_ne hrec hy]

theorem Heard.change (hs : Heard s) (hc : c.Welcome s.engine.registry)
    (hstart : c.Starts s.engine) : Heard (s.change c) := by
  have hevolves := Change.evolves_apply c s.engine
  refine ⟨hs.sound.apply hc, hs.counted_change hc hstart, ?_, ?_⟩
  · intro x hx
    rw [Story.change, talk_change]
    apply hs.silent
    cases hbefore : s.engine.stepAt x with
    | none => rfl
    | some step => exact absurd ((hevolves.stepAt hbefore).symm.trans hx) (by simp)
  · intro x step hx
    rw [Story.change, talk_change]
    cases hbefore : s.engine.stepAt x with
    | none =>
      rw [hs.silent x hbefore]
      exact step.converses_nil
    | some step' =>
      obtain rfl : step' = step := Option.some.inj ((hevolves.stepAt hbefore).symm.trans hx)
      exact hs.converses x step' hbefore

theorem NotedAt.change (hn : NotedAt x s) (hs : Heard s) (hc : c.Welcome s.engine.registry)
    (hshown : c.record? = some x → ∀ step D g r, s.engine.stepAt x = some step →
      step.target.targetType.dialogue? = some D → D.shown r = D.told? (talk x s.past) →
      D.shown (c.onRecord g r) = D.told? (talk x s.past)) : NotedAt x (s.change c) := by
  have hevolves := Change.evolves_apply c s.engine
  intro step D r hstep hD hr
  have hr : (c.apply s.engine).record? x.1 x.2 = some r := hr
  rw [Story.change, talk_change]
  cases hbefore : s.engine.record? x.1 x.2 with
  | none =>
    have hnone := Engine.stepAt_eq_none.mpr hbefore
    rw [hs.silent x hnone]
    by_cases hself : c.record? = some x
    · rw [Change.record?_apply_self hself, hbefore] at hr
      cases hr
    · by_cases hn : c.newcomer? = none ∨ x.1 < s.engine.sessions.length
      · rw [Change.record?_apply hself hn, hbefore] at hr
        cases hr
      · obtain ⟨hsome, hle⟩ := not_or.mp hn
        cases c with
        | enlist t =>
          obtain ⟨id, tenant, flow, now, -, hnew⟩ := hc t rfl
          rw [Engine.record?, Change.session_enlist] at hr
          split at hr
          · rw [Session.new_fresh hnew hr]
            cases D <;> rfl
          · rw [Engine.session_of_le (Nat.le_of_not_lt hle)] at hr
            cases hr
        | _ => exact absurd rfl hsome
  | some r' =>
    obtain ⟨step', hstep'⟩ : ∃ step', s.engine.stepAt x = some step' := by
      rw [← Option.ne_none_iff_exists', ne_eq, Engine.stepAt_eq_none, hbefore]
      simp
    obtain rfl : step' = step := Option.some.inj ((hevolves.stepAt hstep').symm.trans hstep)
    have hnoted := hn step' D r' hstep' hD hbefore
    by_cases hself : c.record? = some x
    · rw [Change.record?_apply_self hself, hbefore] at hr
      cases hr
      exact hshown hself step' D _ r' hstep' hD hnoted
    · have hlt := Engine.lt_of_stepAt hstep'
      rw [Change.record?_apply hself (.inr hlt), hbefore] at hr
      cases hr
      exact hnoted

theorem NotedAt.change_other (hn : NotedAt x s) (hs : Heard s) (hc : c.Welcome s.engine.registry)
    (hx : c.record? ≠ some x) : NotedAt x (s.change c) :=
  hn.change hs hc fun h => absurd h hx

end Stories

/-! ## Among others -/

/-- All is noted still; the steps in progress are the same, and their talks are. -/
structure Spared (s t : Story) : Prop where
  noted : Noted t
  evolves : s.engine.Evolves t.engine
  registry : t.engine.registry = s.engine.registry
  inProgress : openSteps t.past = openSteps s.past
  talks : ∀ x ∈ openSteps s.past, talk x t.past = talk x s.past

theorem Spared.refl {s : Story} (hs : Noted s) : Spared s s :=
  ⟨hs, .refl _, rfl, rfl, fun _ _ => rfl⟩

theorem Spared.trans {s t u : Story} (h : Spared s t) (h' : Spared t u) : Spared s u := by
  refine ⟨h'.noted, h.evolves.trans h'.evolves, h'.registry.trans h.registry,
    h'.inProgress.trans h.inProgress, fun x hx => ?_⟩
  rw [h'.talks x (h.inProgress.symm ▸ hx), h.talks x hx]

theorem Spared.flagged {s : Story} (hs : Noted s) (b : Bool) : Spared s (s.flagged b) := by
  obtain ⟨⟨hsound, hcounted, hsilent, hconverses⟩, hnoted⟩ := hs
  have hsound' := (Conduct.solitary_keeps Conduct.anyAnswer ⟨b, rfl⟩ hsound).1
  exact ⟨⟨⟨hsound', hcounted, hsilent, hconverses⟩, hnoted⟩, .refl _, rfl, rfl, fun _ _ => rfl⟩

/-- Others keep what they find in good order; the provider does as it likes. -/
def Conduct.attentive : Conduct := ⟨fun s t => Noted s → Spared s t, anyAnswer⟩

/-- The operation that began in the story `base` has the steps `mine` in progress; it has asked only
while there were any, and it has left the talks of other steps in progress alone. -/
structure Busy (base : Story) (mine : List (Handle × Nat)) (s : Situation) : Prop where
  heard : Heard s.toStory
  evolves : base.engine.Evolves s.engine
  registry : s.engine.registry = base.engine.registry
  own : openSteps s.own = mine
  all : openSteps s.past = mine ++ openSteps base.past
  talks : ∀ x ∈ openSteps base.past, talk x s.past = talk x base.past
  voiced : Voiced s.own

structure Amid (base : Story) (mine : List (Handle × Nat)) (s : Situation) : Prop
    extends Busy base mine s where
  noted : ∀ x, NotedAt x s.toStory

variable {base : Story} {mine : List (Handle × Nat)} {x : Handle × Nat} {step : Step}
  {s s' : Situation} {D : Dialogue}

namespace Amid

theorem enter {s : Story} (hs : Noted s) : Amid s [] s.enter :=
  ⟨⟨hs.toHeard, .refl _, rfl, rfl, rfl, fun _ _ => rfl, trivial⟩, hs.noted⟩

theorem allNoted (h : Amid base mine s) : Noted s.toStory := ⟨h.heard, h.noted⟩

theorem spared (h : Amid base [] s) : Spared base s.toStory :=
  ⟨h.allNoted, h.evolves, h.registry, h.all, h.talks⟩

theorem waited (h : Amid base mine s) {t : Story} (hk : Spared s.toStory t) :
    Amid base mine ⟨t, s.own⟩ := by
  refine ⟨⟨hk.noted.toHeard, h.evolves.trans hk.evolves, hk.registry.trans h.registry, h.own,
    hk.inProgress.trans h.all, fun y hy => ?_, h.voiced⟩, hk.noted.noted⟩
  have hopen : y ∈ openSteps s.past := h.all ▸ List.mem_append_right _ hy
  rw [← h.talks y hy]
  exact hk.talks y hopen

theorem change {mine' : List (Handle × Nat)} (h : Amid base mine s) {c : Change}
    (hc : c.Welcome s.engine.registry) (hstart : c.Starts s.engine)
    (hshown : ∀ x, c.record? = some x → ∀ step D g r, s.engine.stepAt x = some step →
      step.target.targetType.dialogue? = some D → D.shown r = D.told? (talk x s.past) →
      D.shown (c.onRecord g r) = D.told? (talk x s.past))
    (hown : openSteps (⟨s.engine, .change c⟩ :: s.own) = mine')
    (hall : openSteps (⟨s.engine, .change c⟩ :: s.past) = mine' ++ openSteps base.past) :
    Amid base mine' (s.change c) := by
  refine ⟨⟨h.heard.change hc hstart, h.evolves.trans (Change.evolves_apply c _),
    (Change.registry_apply c _).trans h.registry, hown, hall, fun y hy => ?_, ?_⟩, fun y => ?_⟩
  · exact (talk_change y).trans (h.talks y hy)
  · exact ⟨fun hasks => hasks.elim, h.voiced⟩
  · exact (h.noted y).change h.heard hc (hshown y)

theorem plain (h : Amid base mine s) {c : Change} (hc : c.Welcome s.engine.registry)
    (hrec : c.record? = none) : Amid base mine (s.change c) := by
  have hturn : Watch.dispatches.turn (.change c) = none := by
    cases c <;> first | rfl | cases hrec
  refine h.change hc ?_ ?_ ?_ ?_
  · intro x hx
    rw [hturn] at hx
    cases hx
  · intro x hx
    rw [hrec] at hx
    cases hx
  · rw [openSteps_ignored hturn, h.own]
  · rw [openSteps_ignored hturn, h.all]

theorem log (h : Amid base mine s) (r : LogRecord) : Amid base mine (s.change (.log r)) :=
  h.plain (Change.welcome_of_newcomer rfl _) rfl

theorem begun (h : Amid base [] s) (now : Int) (hstep : s.engine.stepAt x = some step)
    (hidle : s.engine.isRunning x.1 x.2 = false) :
    Amid base [x] (s.change (.begin x.1 x.2 now)) := by
  refine h.change (Change.welcome_of_newcomer rfl _) ?_ ?_ ?_ ?_
  · intro y hy
    cases hy
    exact ⟨hidle, by rw [hstep]; rfl⟩
  · intro y _ _ D g r _ _ hr
    rw [← hr, Change.onRecord, StepRecord.begin, StepRecord.begin?, StepRecord.enter?]
    split <;> cases D <;> rfl
  · rw [openSteps_opened rfl, h.own]
  · rw [openSteps_opened rfl, h.all]
    rfl

theorem ended (h : Amid base [x] s) {c : Change}
    (hturn : Watch.dispatches.turn (.change c) = some (.closes x))
    (hshown : ∀ step D g r, s.engine.stepAt x = some step →
      step.target.targetType.dialogue? = some D → D.shown r = D.told? (talk x s.past) →
      D.shown (c.onRecord g r) = D.told? (talk x s.past)) : Amid base [] (s.change c) := by
  obtain ⟨hrec, -⟩ := Watch.dispatches_closes hturn
  refine h.change (Change.welcome_of_newcomer ?_ _) ?_ ?_ ?_ ?_
  · cases c <;> first | rfl | cases hrec
  · intro y hy
    rw [hturn] at hy
    cases hy
  · intro y hy
    cases hrec.symm.trans hy
    exact hshown
  · rw [openSteps_closed hturn, h.own, List.erase_cons_head]
  · rw [openSteps_closed hturn, h.all, List.cons_append, List.erase_cons_head]

theorem blamed (h : Amid base [] s) (hx : x ∉ openSteps base.past) (message : String) (now : Int) :
    Amid base [] (s.change (.fail x.1 x.2 message now)) := by
  refine h.change (Change.welcome_of_newcomer rfl _) ?_ ?_ ?_ ?_
  · intro y hy
    cases hy
  · intro y _ _ D g r _ _ hr
    rw [← hr]
    cases D <;> rfl
  · rw [openSteps_closed rfl, h.own]
    rfl
  · rw [openSteps_closed rfl, h.all]
    exact List.erase_of_not_mem hx

theorem called (h : Amid base mine s) {c : ProviderCall} {r : c.Outcome}
    (hm : Conduct.attentive.Meets s c r s') (hc : ¬ c.Fileless) : Amid base mine s' := by
  obtain ⟨t, hk, -, rfl⟩ := hm
  obtain ⟨⟨⟨hsound, hcounted, hsilent, hconverses⟩, hevolves, hregistry, hown, hall, htalks,
    hvoiced⟩, hnoted⟩ := h.waited (hk h.allNoted)
  have htalk : ∀ y, talk y (s.called t c r).past = talk y t.past :=
    fun y => talk_unasked fun hasked => hc hasked.1
  refine ⟨⟨⟨hsound, hcounted, ?_, ?_⟩, hevolves, hregistry, hown, hall, ?_, ?_⟩, ?_⟩
  · exact fun y hy => (htalk y).trans (hsilent y hy)
  · exact fun y step hy => (htalk y).symm ▸ hconverses y step hy
  · exact fun y hy => (htalk y).trans (htalks y hy)
  · exact ⟨fun hasks => absurd hasks hc, hvoiced⟩
  · intro y step D r' hstep hD hr
    rw [htalk]
    exact hnoted y step D r' hstep hD hr

/-- What is known when a call about the step in progress comes back. -/
structure Asked (base : Story) (x : Handle × Nat) (step : Step) (s : Situation)
    (c : ProviderCall) (r : c.Outcome) (s' : Situation) : Prop extends Busy base [x] s' where
  others : ∀ y, y ≠ x → NotedAt y s'.toStory
  stepAt : s'.engine.stepAt x = some step
  talk : ∃ e, FlowEngine.talk x s'.past = ⟨e, .call c r⟩ :: FlowEngine.talk x s.past
  before : ∀ D rec, step.target.targetType.dialogue? = some D →
    s'.engine.record? x.1 x.2 = some rec → D.shown rec = D.told? (FlowEngine.talk x s.past)

theorem asked (h : Amid base [x] s) (hstep : s.engine.stepAt x = some step) {c : ProviderCall}
    {r : c.Outcome} (hm : Conduct.attentive.Meets s c r s') (hc : c.Fileless)
    (hfits : ∀ D, step.target.targetType.dialogue? = some D → D.Fits (D.told? (talk x s.past)) c)
    (htarget : ∀ target, c.target? = some target → target = step.target.externalId) :
    Asked base x step s c r s' := by
  obtain ⟨t, hk, -, rfl⟩ := hm
  have hkept : Spared s.toStory t := hk h.allNoted
  have hstep' : t.engine.stepAt x = some step := hkept.evolves.stepAt hstep
  have hsame : talk x t.past = talk x s.past :=
    hkept.talks x (h.all ▸ List.mem_cons_self)
  obtain ⟨⟨⟨hsound, hcounted, hsilent, hconverses⟩, hevolves, hregistry, hown, hall, htalks,
    hvoiced⟩, hnoted⟩ := h.waited hkept
  have hall : openSteps t.past = x :: openSteps base.past := hall
  have hhead : (openSteps t.past).head? = some x := by rw [hall]; rfl
  have htalk : talk x (s.called t c r).past = ⟨t.engine, .call c r⟩ :: talk x t.past :=
    talk_asked hc hhead
  have hother : ∀ y, y ≠ x → talk y (s.called t c r).past = talk y t.past := by
    intro y hy
    refine talk_unasked fun hasked => hy ?_
    exact Option.some.inj (hasked.2.symm.trans hhead)
  have hnotin : ∀ y ∈ openSteps base.past, y ≠ x := by
    have hnodup : (x :: openSteps base.past).Nodup := hall ▸ hkept.noted.open_nodup
    rintro y hy rfl
    exact (List.nodup_cons.mp hnodup).1 hy
  refine ⟨⟨⟨hsound, hcounted, ?_, ?_⟩, hevolves, hregistry, hown, hall, ?_, ?_⟩, ?_, hstep',
    ⟨_, hsame ▸ htalk⟩, ?_⟩
  · intro y hy
    by_cases hyx : y = x
    · subst hyx
      cases hy.symm.trans hstep'
    · exact (hother y hyx).trans (hsilent y hy)
  · intro y step' hy
    by_cases hyx : y = x
    · subst hyx
      cases hy.symm.trans hstep'
      rw [htalk]
      exact (hconverses y step hy).call (hsame ▸ hfits) htarget
    · exact (hother y hyx).symm ▸ hconverses y step' hy
  · exact fun y hy => (hother y (hnotin y hy)).trans (htalks y hy)
  · refine ⟨fun _ => ?_, hvoiced⟩
    rw [h.own]
    exact List.cons_ne_nil _ _
  · intro y hy step' D r' hstep'' hD hr
    rw [hother y hy]
    exact hnoted y step' D r' hstep'' hD hr
  · intro D rec hD hr
    rw [← hsame]
    exact hnoted x step D rec hstep' hD hr

namespace Asked

variable {c : ProviderCall} {r : c.Outcome}

theorem unanswered (h : Asked base x step s c r s')
    (hnone : ∀ D, step.target.targetType.dialogue? = some D → D.answered (.call c r) = none) :
    Amid base [x] s' ∧ ∀ D, step.target.targetType.dialogue? = some D →
      D.told? (FlowEngine.talk x s'.past) = D.told? (FlowEngine.talk x s.past) := by
  obtain ⟨e, htalk⟩ := h.talk
  have htold : ∀ D, step.target.targetType.dialogue? = some D →
      D.told? (FlowEngine.talk x s'.past) = D.told? (FlowEngine.talk x s.past) := by
    intro D hD
    rw [htalk, Dialogue.told?_cons, hnone D hD]
    rfl
  refine ⟨⟨h.toBusy, fun y => ?_⟩, htold⟩
  by_cases hy : y = x
  · subst hy
    intro step' D rec hstep hD hr
    cases hstep.symm.trans h.stepAt
    rw [htold D hD]
    exact h.before D rec hD hr
  · exact h.others y hy

theorem answered (h : Asked base x step s c r s') (hD : step.target.targetType.dialogue? = some D)
    {id : String} (hid : D.answered (.call c r) = some id) :
    Amid base [x] (s'.change (D.note x id)) ∧
      D.told? (FlowEngine.talk x (s'.change (D.note x id)).past) = some id := by
  obtain ⟨e, htalk⟩ := h.talk
  have htold : D.told? (FlowEngine.talk x s'.past) = some id := by
    rw [htalk, Dialogue.told?_cons, hid]
    rfl
  have hturn : Watch.dispatches.turn (.change (D.note x id)) = none := by cases D <;> rfl
  have hrec : (D.note x id).record? = some x := by cases D <;> rfl
  have hwelcome : (D.note x id).Welcome s'.engine.registry := by
    cases D <;> exact Change.welcome_of_newcomer rfl _
  have hstart : (D.note x id).Starts s'.engine := by
    intro y hy
    rw [hturn] at hy
    cases hy
  have hafter : D.told? (FlowEngine.talk x (s'.change (D.note x id)).past) = some id := by
    rw [Situation.change_past, talk_change, htold]
  refine ⟨⟨⟨h.heard.change hwelcome hstart, h.evolves.trans (Change.evolves_apply _ _),
    (Change.registry_apply _ _).trans h.registry, ?_, ?_, fun y hy => ?_,
    ⟨fun hasks => hasks.elim, h.voiced⟩⟩, fun y => ?_⟩, hafter⟩
  · rw [Situation.change_own, openSteps_ignored hturn, h.own]
  · rw [Situation.change_past, openSteps_ignored hturn, h.all]
  · exact (talk_change y).trans (h.talks y hy)
  · by_cases hy : y = x
    · subst hy
      intro step' D' rec hstep hD' hr
      have hstep' := (Change.evolves_apply (D.note y id) s'.engine).stepAt h.stepAt
      cases hstep.symm.trans hstep'
      cases hD.symm.trans hD'
      have hr : ((D.note y id).apply s'.engine).record? y.1 y.2 = some rec := hr
      rw [Change.record?_apply_self hrec] at hr
      obtain ⟨rec', -, rfl⟩ := Option.map_eq_some_iff.mp hr
      refine Eq.trans ?_ hafter.symm
      cases D <;> rfl
    · refine (h.others y hy).change_other h.heard hwelcome ?_
      rw [hrec]
      exact fun he => hy (Option.some.inj he).symm

end Asked

end Amid

end FlowEngine
