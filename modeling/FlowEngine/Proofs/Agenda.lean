import FlowEngine.Proofs.Nodes
import FlowEngine.Proofs.SessionRun
import Mathlib.Logic.Relation

/-! # The steps that are begun for a step

Running a step keeps no account of the steps that it has been to: a step is left out because it is
done, from the start or by then. All the same the steps are begun in the order in which a search
comes through them that goes depth first, keeps such an account, and looks only at what was not done
at the start.
-/
namespace FlowEngine

/-- A search that follows some numbers in turn: from those that it has been through before it comes
to those that it has been through afterwards. It is through with a number after all that follow. -/
inductive DepthFirst (next : Nat → List Nat) : List Nat → List Nat → List Nat → Prop where
  | ended {met} : DepthFirst next met [] met
  | known {met i rest met'} : i ∈ met → DepthFirst next met rest met' →
      DepthFirst next met (i :: rest) met'
  | through {met i rest met' met''} : i ∉ met → DepthFirst next met (next i) met' →
      DepthFirst next (met' ++ [i]) rest met'' → DepthFirst next met (i :: rest) met''

namespace DepthFirst

variable {next : Nat → List Nat} {met met' met'' ids ids' order : List Nat} {i j k : Nat}

theorem append (h : DepthFirst next met ids met') (h' : DepthFirst next met' ids' met'') :
    DepthFirst next met (ids ++ ids') met'' := by
  induction h with
  | ended => exact h'
  | known hi _ ih => exact .known hi (ih h')
  | through hi hnext _ _ ih => exact .through hi hnext (ih h')

theorem unique (h : DepthFirst next met ids met') (h' : DepthFirst next met ids met'') :
    met' = met'' := by
  induction h generalizing met'' with
  | ended =>
    cases h'
    rfl
  | known hi _ ih =>
    cases h' with
    | known _ hrest => exact ih hrest
    | through hnew => exact absurd hi hnew
  | through hi _ _ ihnext ihrest =>
    cases h' with
    | known hold => exact absurd hold hi
    | through _ hnext hrest =>
      obtain rfl := ihnext hnext
      exact ihrest hrest

theorem grown (h : DepthFirst next met ids met') : met ⊆ met' := by
  induction h with
  | ended => exact List.Subset.refl _
  | known _ _ ih => exact ih
  | through _ _ _ ihnext ihrest =>
    exact List.Subset.trans (List.Subset.trans ihnext (List.subset_append_left _ _)) ihrest

theorem covers (h : DepthFirst next met ids met') : ids ⊆ met' := by
  induction h with
  | ended => exact List.nil_subset _
  | known hi hrest ih => exact List.cons_subset.mpr ⟨hrest.grown hi, ih⟩
  | through _ _ hrest _ ih =>
    exact List.cons_subset.mpr ⟨hrest.grown (by simp), ih⟩

theorem closed (h : DepthFirst next met ids met') (hmet : ∀ k ∈ met, next k ⊆ met) :
    ∀ k ∈ met', next k ⊆ met' := by
  induction h with
  | ended => exact hmet
  | known _ _ ih => exact ih hmet
  | @through met i rest met' met'' _ hnext _ ihnext ihrest =>
    refine ihrest ?_
    intro k hk
    rcases List.mem_append.mp hk with hk | hk
    · exact List.Subset.trans (ihnext hmet k hk) (List.subset_append_left _ _)
    · obtain rfl := List.mem_singleton.mp hk
      exact List.Subset.trans hnext.covers (List.subset_append_left _ _)

theorem reached (h : DepthFirst next met ids met') (hk : k ∈ met') :
    k ∈ met ∨ ∃ j ∈ ids, Relation.ReflTransGen (fun a b => b ∈ next a) j k := by
  induction h with
  | ended => exact .inl hk
  | known _ _ ih =>
    rcases ih hk with hk | ⟨j, hj, hreach⟩
    · exact .inl hk
    · exact .inr ⟨j, List.mem_cons_of_mem _ hj, hreach⟩
  | through _ _ _ ihnext ihrest =>
    rcases ihrest hk with hk | ⟨j, hj, hreach⟩
    · rcases List.mem_append.mp hk with hk | hk
      · rcases ihnext hk with hk | ⟨j, hj, hreach⟩
        · exact .inl hk
        · exact .inr ⟨_, List.mem_cons_self, .head hj hreach⟩
      · obtain rfl := List.mem_singleton.mp hk
        exact .inr ⟨_, List.mem_cons_self, .refl⟩
    · exact .inr ⟨j, List.mem_cons_of_mem _ hj, hreach⟩

theorem mem_iff (h : DepthFirst next [] [i] order) :
    k ∈ order ↔ Relation.ReflTransGen (fun a b => b ∈ next a) i k := by
  constructor
  · intro hk
    rcases h.reached hk with hk | ⟨j, hj, hreach⟩
    · cases hk
    · obtain rfl := List.mem_singleton.mp hj
      exact hreach
  · intro hreach
    induction hreach with
    | refl => exact h.covers List.mem_cons_self
    | tail _ hnext ih => exact h.closed (by simp) _ ih hnext

theorem getLast? (h : DepthFirst next [] [i] order) : order.getLast? = some i := by
  cases h with
  | known hi => cases hi
  | through _ _ hrest =>
    cases hrest
    exact List.getLast?_concat

theorem le_of_reached (hdown : ∀ a, ∀ b ∈ next a, b < a)
    (h : Relation.ReflTransGen (fun a b => b ∈ next a) i k) : k ≤ i := by
  induction h with
  | refl => exact Nat.le_refl i
  | tail _ hnext ih => exact Nat.le_trans (Nat.le_of_lt (hdown _ _ hnext)) ih

theorem nodup (hdown : ∀ a, ∀ b ∈ next a, b < a) (h : DepthFirst next met ids met')
    (hmet : met.Nodup) : met'.Nodup := by
  induction h with
  | ended => exact hmet
  | known _ _ ih => exact ih hmet
  | @through met i rest met' met'' hi hnext _ ihnext ihrest =>
    refine ihrest ?_
    rw [← List.concat_eq_append, List.nodup_concat]
    refine ⟨?_, ihnext hmet⟩
    intro hmem
    rcases hnext.reached hmem with hmem | ⟨j, hj, hreach⟩
    · exact hi hmem
    · have hlt := hdown i j hj
      have hle := le_of_reached hdown hreach
      omega

end DepthFirst

def begunSteps (own : List Moment) : List (Handle × Nat) :=
  (own.filterMap fun m => m.event.begun?).reverse

/-- The required steps that are not done, in the order of their first mention. -/
def StepOrder.pending (o : StepOrder) (t : SessionOutline) (e : Engine) (i : Nat) : List Nat :=
  ((t.steps[i]?).elim [] o.requirements).filter fun j => !e.isDone o.session j

variable {answers : List Moment → (c : ProviderCall) → c.Outcome → Prop} {o : StepOrder}
  {t : SessionOutline} {h k : Handle} {s s' s'' s₀ : Situation} {i j : Nat} {order : List Nat}

theorem StepOrder.pending_eq {e : Engine} {x : StepOutline} (hx : t.steps[i]? = some x) :
    o.pending t e i = (o.requirements x).filter fun j => !e.isDone o.session j := by
  rw [pending, hx]
  rfl

theorem StepOrder.mem_pending {e : Engine} : j ∈ o.pending t e i ↔
    o.withRequired = true ∧ t.Requires i j ∧ e.isDone o.session j = false := by
  cases hx : t.steps[i]? with
  | none => simp [pending, SessionOutline.Requires, hx]
  | some x =>
    cases hw : o.withRequired <;>
      simp [pending, SessionOutline.Requires, requirements, hx, hw]

theorem begunSteps_cons (m : Moment) (own : List Moment) :
    begunSteps (m :: own) = begunSteps own ++ m.event.begun?.toList := by
  cases hm : m.event.begun? with
  | none => simp [begunSteps, hm]
  | some x => simp [begunSteps, hm]

theorem Quietly.begunSteps {K : Conduct} {tenant : String} {i : Option Nat}
    (hq : Quietly K tenant h i s s') :
    FlowEngine.begunSteps s'.own = FlowEngine.begunSteps s.own := by
  refine hq.keeps (J := fun s' => FlowEngine.begunSteps s'.own = FlowEngine.begunSteps s.own)
    ?_ ?_ rfl
  · intro s' c hs hc
    rw [Situation.change_own, begunSteps_cons, hc.begun?, hs]
    exact List.append_nil _
  · rintro s' c r s'' hs - ⟨u, -, -, rfl⟩
    exact (begunSteps_cons _ _).trans ((List.append_nil _).trans hs)

theorem Change.OfSteps.record?_of_ne {c : Change} (hc : c.OfSteps h) (hk : k ≠ h) (e : Engine)
    (j : Nat) : (c.apply e).record? k j = e.record? k j := by
  refine Change.record?_apply ?_ (.inl hc.newcomer)
  intro hr
  rcases hc with hc | ⟨i, hi⟩
  · cases c <;> cases hr <;> first | exact hc.elim | cases hc.2
  · rw [hi] at hr
    cases hr
    exact hk rfl

theorem Course.record?_of_ne {task : Task} {e : Ending}
    (hx : Course (.solitary answers) o t task s e s') (hk : k ≠ o.session) (j : Nat) :
    s'.engine.record? k j = s.engine.record? k j :=
  hx.keeps (J := fun s' => s'.engine.record? k j = s.engine.record? k j)
    (fun _ _ hs hc => (hc.record?_of_ne hk _ j).trans hs)
    (fun _ _ _ _ hs _ hm => (hm.record? k j).trans hs) rfl

/-- Since a situation the given steps have been begun in that order, and all of them are done; the
records of other steps are as they were. -/
structure HasRun (h : Handle) (s₀ : Situation) (order : List Nat) (s : Situation) : Prop where
  begun : begunSteps s.own = begunSteps s₀.own ++ order.map fun i => (h, i)
  done : ∀ k ∈ order, s.engine.isDone h k = true
  others : ∀ k, k ∉ order → s.engine.record? h k = s₀.engine.record? h k

namespace HasRun

theorem refl (h : Handle) (s : Situation) : HasRun h s [] s :=
  ⟨(List.append_nil _).symm, nofun, fun _ _ => rfl⟩

theorem pending (hs : HasRun h s₀ order s) (hd : s.engine.isDone h j = false) :
    j ∉ order ∧ s₀.engine.isDone h j = false := by
  have hnew : j ∉ order := by
    intro hj
    rw [hs.done j hj] at hd
    cases hd
  refine ⟨hnew, ?_⟩
  rw [Engine.isDone, ← hs.others j hnew]
  exact hd

theorem settled (hs : HasRun h s₀ order s) (hd : s.engine.isDone h j = true)
    (h₀ : s₀.engine.isDone h j = false) : j ∈ order := by
  by_contra hnew
  rw [Engine.isDone, hs.others j hnew] at hd
  rw [Engine.isDone, hd] at h₀
  cases h₀

theorem alone {tenant : String} {r : StepRecord} {now later : Int} {outcome : TargetOutcome}
    (hs : HasRun h s₀ order s) (hr : s.engine.record? h i = some r)
    (hb : Quietly (.solitary answers) tenant h (some i) (s.change (.begin h i now)) s')
    (hq : Quietly (.solitary answers) tenant h none (s'.change (.complete h i outcome later)) s'') :
    HasRun h s₀ (order ++ [i]) s'' := by
  have hother : ∀ k, k ≠ i → s''.engine.record? h k = s.engine.record? h k :=
    fun k => Quietly.dispatched_of_ne rfl hb hq
  refine ⟨?_, ?_, ?_⟩
  · rw [hq.begunSteps, Situation.change_own, begunSteps_cons, hb.begunSteps, Situation.change_own,
      begunSteps_cons, hs.begun, List.map_append]
    exact (List.append_nil _).trans (List.append_assoc _ _ _)
  · intro k hk
    by_cases hki : k = i
    · subst hki
      obtain ⟨r', conversation, run, hdone⟩ := Quietly.dispatched rfl hb hq hr
      rw [Engine.isDone, hdone]
      rfl
    · have hk : k ∈ order := by simpa [hki] using hk
      rw [Engine.isDone, hother k hki]
      exact hs.done k hk
  · intro k hk
    rw [List.mem_append, List.mem_singleton, not_or] at hk
    exact (hother k hk.2).trans (hs.others k hk.1)

end HasRun

/-- What a task that succeeds adds to the steps that have been run. -/
def Adds (o : StepOrder) (t : SessionOutline) (s₀ : Situation) (order : List Nat) (s' : Situation) :
    Task → Ending → Prop
  | .guarded i, .succeeded => i ∉ order → ∃ order',
      DepthFirst (o.pending t s₀.engine) order [i] order' ∧ HasRun o.session s₀ order' s'
  | .required _ rest, .succeeded => ∃ order',
      DepthFirst (o.pending t s₀.engine) order (rest.filter fun j => !s₀.engine.isDone o.session j)
        order' ∧ HasRun o.session s₀ order' s'
  | .alone i, .succeeded => HasRun o.session s₀ (order ++ [i]) s'
  | _, _ => True

theorem Adds.of_ne {task : Task} {e : Ending} (he : e ≠ .succeeded) :
    Adds o t s₀ order s' task e := by
  cases e with
  | succeeded => exact absurd rfl he
  | underWay | failed => cases task <;> trivial

theorem Course.adds {task : Task} {e : Ending}
    (hx : Course (.solitary answers) o t task s e s') (hs : HasRun o.session s₀ order s) :
    Adds o t s₀ order s' task e := by
  induction hx generalizing order with
  | halted => exact .of_ne nofun
  | busy => exact .of_ne nofun
  | unready _ _ _ he => exact .of_ne he
  | @ready i x s s' e s'' hx _ _ _ ihr iha =>
    cases e with
    | succeeded =>
      intro hi
      obtain ⟨order', hsearch, hs'⟩ := ihr hs
      rw [← StepOrder.pending_eq hx] at hsearch
      exact ⟨order' ++ [i], .through hi hsearch .ended, iha hs'⟩
    | underWay | failed => trivial
  | none => exact ⟨order, .ended, hs⟩
  | @settled i j rest s e s' _ hd _ ih =>
    cases e with
    | succeeded =>
      obtain ⟨order', hsearch, hs'⟩ := ih hs
      refine ⟨order', ?_, hs'⟩
      cases h₀ : s₀.engine.isDone o.session j with
      | true => rwa [List.filter_cons_of_neg (by simp [h₀])]
      | false =>
        rw [List.filter_cons_of_pos (by simp [h₀])]
        exact .known (hs.settled hd h₀) hsearch
    | underWay | failed => trivial
  | @next i j rest s s' e s'' _ hd _ _ ihg ihr =>
    cases e with
    | succeeded =>
      obtain ⟨hnew, h₀⟩ := hs.pending hd
      obtain ⟨middle, hfirst, hs'⟩ := ihg hs hnew
      obtain ⟨order', hrest, hs''⟩ := ihr hs'
      refine ⟨order', ?_, hs''⟩
      rw [List.filter_cons_of_pos (by simp [h₀])]
      exact hfirst.append hrest
    | underWay | failed => trivial
  | passed _ _ _ he => exact .of_ne he.ne
  | blamed _ _ _ _ _ _ _ _ he =>
    refine .of_ne ?_
    rcases he with rfl | rfl <;> exact nofun
  | refused => exact .of_ne nofun
  | begun => exact .of_ne nofun
  | done hr _ hb hq he =>
    rcases he with rfl | rfl
    · exact .of_ne nofun
    · exact hs.alone hr hb hq
  | failed _ _ _ _ _ he =>
    refine .of_ne ?_
    rcases he with rfl | rfl <;> exact nofun
  | ended | skipped | taken | broken => trivial

namespace Steps

variable {K : Conduct} {I : Situation → Prop}

theorem runGuarded_unknown (d : Dispatcher) (depth : Nat) (active : List String) {step : String}
    {fault : EngineFault} (hstep : (s.engine.session o.session).execution step = .error fault) :
    Attempt.Assures K I (fun _ _ => False) (fun _ _ => True) (runGuarded d o depth active step)
      s := by
  cases depth <;>
    simp only [runGuarded, Attempt.assures_bind, Attempt.assures_lift, Proc.assures_session,
      Attempt.assures_ofExcept, hstep, reduceCtorEq, false_imp_iff, implies_true, and_self]

theorem known_of_runStep {d : Dispatcher} {step : String} {report : StepReport} {story : Story}
    (ht : t.WellLaid) (hh : story.engine.Hosts o.session t)
    (hx : Execution K ((Steps.runStep d o step).run, story.enter) (.done (.ok report), s')) :
    ∃ (i : Nat) (x : StepOutline), t.steps[i]? = some x ∧ x.step.id.text = step := by
  cases hstep : (story.engine.session o.session).execution step with
  | ok x =>
    obtain ⟨hnode, hid⟩ := hh.of_execution ht hstep
    exact ⟨x.index, x.outline, hnode, hid⟩
  | error fault =>
    have hnever : Attempt.Assures K (fun _ => True) (fun _ _ => False) (fun _ _ => True)
        (Steps.runStep d o step) story.enter := by
      rw [runStep, Attempt.assures_bind, Attempt.assures_lift, Proc.assures_session]
      exact runGuarded_unknown d _ [] hstep
    exact (execution_ends hx trivial hnever).2.elim

end Steps

theorem StepOrder.pending_lt (ht : t.WellLaid) (e : Engine) :
    ∀ a, ∀ b ∈ o.pending t e a, b < a := by
  intro a b hb
  exact (StepOrder.mem_pending.mp hb).2.1.lt ht

theorem StepOrder.pending_reach (hw : o.withRequired = true) (e : Engine) :
    (fun a b => b ∈ o.pending t e a) =
      fun a b => t.Requires a b ∧ e.isDone o.session b = false := by
  funext a b
  rw [mem_pending, eq_true hw, true_and]

theorem DepthFirst.only (hw : o.withRequired = false) {e : Engine}
    (hsearch : DepthFirst (o.pending t e) [] [i] order) : order = [i] := by
  have hnext : o.pending t e i = [] := by
    rw [List.eq_nil_iff_forall_not_mem]
    intro j hj
    have hrequired := (StepOrder.mem_pending.mp hj).1
    rw [hw] at hrequired
    cases hrequired
  have hsole : DepthFirst (o.pending t e) [] [i] ([] ++ [i]) := by
    refine .through List.not_mem_nil ?_ .ended
    rw [hnext]
    exact .ended
  exact hsearch.unique hsole

theorem Session.new_required {id tenant : String} {flow : Flow} {now : Int} {made : Session}
    (hmade : Session.new id tenant flow now = .ok made) {x : StepOutline}
    (hx : x ∈ made.outline.steps) : x.required.map some =
      x.step.sources.eraseDups.map fun source => made.graph.position? source.text := by
  obtain ⟨g, hg, rfl⟩ := Session.new_eq hmade
  obtain ⟨z, hz, rfl⟩ := List.mem_map.mp hx
  exact StepGraph.required_eq (StepGraph.build_laid hg).1 (StepGraph.build_named hg) hz

/-- What a step that is run, alone or with the steps that it requires, has made of a session that
was in any state: the steps that were begun, in order, are those that a search comes through that
goes depth first from the step along the required steps that were not done, in the order in which
they are declared. -/
structure Agenda (made : Session) (o : StepOrder) (e : Engine) (s' : Situation) (i : Nat)
    (order : List Nat) : Prop where
  begun : begunSteps s'.own = order.map fun j => (o.session, j)
  searched : ∀ other, DepthFirst (o.pending made.outline e) [] [i] other ↔ other = order
  declared : ∀ y ∈ made.outline.steps, y.required.map some =
    y.step.sources.eraseDups.map fun source => made.graph.position? source.text
  reached : o.withRequired = true → ∀ j, j ∈ order ↔ Relation.ReflTransGen
    (fun a b => made.outline.Requires a b ∧ e.isDone o.session b = false) i j
  alone : o.withRequired = false → order = [i]
  once : order.Nodup
  last : order.getLast? = some i
  done : ∀ j ∈ order, s'.engine.isDone o.session j = true
  others : ∀ k j, ¬ (k = o.session ∧ j ∈ order) → s'.engine.record? k j = e.record? k j

/-- When running a step succeeds and nobody else is about, whatever the records were: the steps that
were begun are those that the step leads to through required steps that were not done, each once,
depth first and the step last, or the step alone if it is to be run without the steps that it
requires. All of them are done, and no other record has changed. -/
theorem runStep_begins_pending {id tenant : String} {flow : Flow} {now : Int} {made : Session}
    (hmade : Session.new id tenant flow now = .ok made) {story : Story}
    (hh : story.engine.Hosts o.session made.outline) {d : Dispatcher} {step : String}
    {report : StepReport} (hx : Execution (.solitary answers)
      ((Steps.runStep d o step).run, story.enter) (.done (.ok report), s')) :
    ∃ (i : Nat) (x : StepOutline) (order : List Nat), made.outline.steps[i]? = some x ∧
      x.step.id.text = step ∧ Agenda made o story.engine s' i order := by
  have ht := Session.new_wellLaid hmade
  obtain ⟨i, x, hi, rfl⟩ := Steps.known_of_runStep ht hh hx
  have follows := Steps.runStep_follows (s := story.enter)
    (Conduct.solitary_evolving answers) ht d hi hh
  have hcourse := (execution_ends hx .halted follows).2
  obtain ⟨order, hsearch, hrun⟩ := hcourse.adds (.refl _ _) List.not_mem_nil
  refine ⟨i, x, order, hi, rfl, hrun.begun, ?_, fun y => Session.new_required hmade, ?_,
    fun hw => hsearch.only hw, hsearch.nodup (StepOrder.pending_lt ht _) List.nodup_nil,
    hsearch.getLast?, hrun.done, ?_⟩
  · intro other
    constructor
    · intro hother
      exact hother.unique hsearch
    · rintro rfl
      exact hsearch
  · intro hw j
    rw [hsearch.mem_iff, ← StepOrder.pending_reach hw]
    rfl
  · intro k j hother
    by_cases hk : k = o.session
    · subst hk
      exact hrun.others j fun hj => hother ⟨rfl, hj⟩
    · exact hcourse.record?_of_ne hk j

namespace Sample

def journalSession : Session :=
  .bare "letter-1" "acme" journal 0
    ⟨[⟨"letter-1", step draft [], 0, [], .fresh 0⟩,
      ⟨"letter-1", step review [.redirect draft "draft"], 1, [0], .fresh 0⟩,
      ⟨"letter-1", step sketch [], 2, [], .fresh 0⟩,
      ⟨"letter-1", step polish [.redirect sketch "sketch", .redirect draft "draft"], 3, [2, 0],
        .fresh 0⟩,
      ⟨"letter-1", step publish [.redirect review "notes", .redirect polish "text",
        .redirect review "verdict"], 4, [1, 3], .fresh 0⟩]⟩

theorem journalSession_new : Session.new "letter-1" "acme" journal 0 = .ok journalSession := by
  decide +kernel

/-- The sketch is done, and the review has failed once. -/
def journalEngine : Engine :=
  { engine with
    registry := ⟨[(journal.id.text, [(journal.version, journal)])]⟩
    sessions := [(journalSession.modifyRecord 2 fun r => r.finish ⟨"lines", none, none⟩ 0 0)
      |>.modifyRecord 1 fun r => r.fail "down" 0] }

def published : StepReport where
  id := "letter-1/publish"
  session := "letter-1"
  step := "publish"
  stepName := "publish"
  order := 1
  state := .done
  startedAt := some 0
  lastUpdatedAt := 0
  finishedAt := some 0
  output := some "yes"
  errorMessage := none
  conversation := none
  appRun := none

theorem journal_search :
    DepthFirst (Sample.order.pending journalSession.outline journalEngine) [] [4] [0, 1, 3, 4] := by
  have hdraft : Sample.order.pending journalSession.outline journalEngine 0 = [] := by
    decide +kernel
  have hreview : Sample.order.pending journalSession.outline journalEngine 1 = [0] := by
    decide +kernel
  have hpolish : Sample.order.pending journalSession.outline journalEngine 3 = [0] := by
    decide +kernel
  have hpublish : Sample.order.pending journalSession.outline journalEngine 4 = [1, 3] := by
    decide +kernel
  generalize Sample.order.pending journalSession.outline journalEngine = next at *
  have drafted : DepthFirst next [] (next 0) [] := by
    rw [hdraft]
    exact .ended
  have reviewed : DepthFirst next [] (next 1) [0] := by
    rw [hreview]
    exact .through List.not_mem_nil drafted .ended
  have polished : DepthFirst next [0, 1] (next 3) [0, 1] := by
    rw [hpolish]
    exact .known List.mem_cons_self .ended
  have both : DepthFirst next [] (next 4) [0, 1, 3] := by
    rw [hpublish]
    exact .through List.not_mem_nil reviewed (.through (by decide) polished .ended)
  exact .through List.not_mem_nil both .ended

end Sample

/-- To publish takes the review and the polished draft, which share the draft; the sketch was done
before. -/
theorem runStep_begins_pending_journal :
    ∃ s', Execution (Conduct.solitary Conduct.anyAnswer)
        ((Steps.runStep Sample.facilities.dispatcher Sample.order "publish").run,
          Story.enter ⟨Sample.journalEngine, []⟩) (.done (.ok Sample.published), s') ∧
      begunSteps s'.own = [(0, 0), (0, 1), (0, 3), (0, 4)] ∧
      s'.engine.record? 0 2 = Sample.journalEngine.record? 0 2 := by
  obtain ⟨s', hx, -⟩ := still_execution Sample.echo Sample.journalEngine []
    (p := (Steps.runStep Sample.facilities.dispatcher Sample.order "publish").run)
    (v := .ok Sample.published) (by decide +kernel)
  have hh : Sample.journalEngine.Hosts Sample.order.session Sample.journalSession.outline := rfl
  obtain ⟨i, x, order, hi, hid, hagenda⟩ :=
    runStep_begins_pending Sample.journalSession_new hh hx
  obtain rfl : i = 4 :=
    (Session.new_wellLaid Sample.journalSession_new).laid.unique hi rfl (Identifier.ext_text hid)
  obtain rfl := (hagenda.searched [0, 1, 3, 4]).mp Sample.journal_search
  exact ⟨s', hx, hagenda.begun, hagenda.others 0 2 (by simp)⟩

end FlowEngine
