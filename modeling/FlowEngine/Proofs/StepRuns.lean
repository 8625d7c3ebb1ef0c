import FlowEngine.Proofs.Course
import FlowEngine.Proofs.Reachable
import FlowEngine.Proofs.TurnOrder

/-! # Operations follow courses

Running steps of a session that is laid out comes, with every point, along a course. The chain of
steps that require each other runs down the layout, so that the bound on its length is never used
up and no step is met twice.
-/
namespace FlowEngine

variable {α : Type} {K : Conduct} {o : StepOrder} {t : SessionOutline} {s : Situation}

/-- Every point is on a course of the task, which ends as the operation does. -/
def Attempt.Follows (K : Conduct) (o : StepOrder) (t : SessionOutline) (task : Task)
    (a : Attempt α) (s : Situation) : Prop :=
  a.Assures K (fun s' => Course K o t task s .underWay s')
    (fun _ s' => Course K o t task s .succeeded s')
    (fun fault s' => Course K o t task s (.failed fault) s') s

theorem Attempt.Follows.lift {task task' : Task} {a : Attempt α} {s₀ : Situation}
    (ha : a.Follows K o t task' s)
    (hx : ∀ e s', Course K o t task' s e s' → Course K o t task s₀ e s') :
    a.Assures K (fun s' => Course K o t task s₀ .underWay s')
      (fun _ s' => Course K o t task s₀ .succeeded s')
      (fun fault s' => Course K o t task s₀ (.failed fault) s') s :=
  Assures.mono (fun _ => hx _ _) (fun _ _ => hx _ _) (fun _ _ => hx _ _) ha

def Scope.quiet (tenant : String) (h : Handle) (i : Option Nat) : Scope where
  sees _ := True
  makes := Change.Quiet h i
  calls c := c.tenant = tenant

theorem Scope.quiet_inputs (tenant : String) (h : Handle) (i : Option Nat) :
    (Scope.quiet tenant h i).Inputs tenant h :=
  ⟨fun _ => trivial, fun _ => rfl, fun _ => id⟩

theorem Scope.quiet_notes (tenant : String) (h : Handle) (i : Nat) :
    (Scope.quiet tenant h (some i)).Notes tenant h i :=
  ⟨quiet_inputs tenant h (some i), fun _ => ⟨rfl, rfl⟩, fun _ => ⟨rfl, rfl⟩⟩

section Quietly

variable {tenant : String} {h : Handle} {i : Option Nat} {s₀ : Situation}

theorem Quietly.log (hq : Quietly K tenant h i s₀ s) (r : LogRecord) :
    Quietly K tenant h i s₀ (s.change (.log r)) :=
  hq.tail (.change trivial)

theorem Attempt.Within.quietly {a : Attempt α} {V : α → Prop} {G : EngineFault → Prop}
    (ha : a.Within (Scope.quiet tenant h i) V G) (hq : Quietly K tenant h i s₀ s) :
    a.Assures K (Quietly K tenant h i s₀) (fun v s' => V v ∧ Quietly K tenant h i s₀ s')
      (fun f s' => G f ∧ Quietly K tenant h i s₀ s') s :=
  Attempt.Within.assures (fun _ _ => trivial) (fun _ _ hq hc => hq.tail (.change hc))
    (fun _ _ _ _ hq hc hm => hq.tail (.call hc hm)) ha hq

end Quietly

theorem StepRecord.begin?_eq_none {r : StepRecord} {now : Int} :
    r.begin? now = none ↔ r.isRunning = true := by
  simp [begin?, enter?, isRunning]

namespace Engine

variable {e : Engine} {h : Handle} {i : Nat} {y : StepOutline}

theorem Hosts.execution (hh : e.Hosts h t) (ht : t.WellLaid) (hy : t.steps[i]? = some y) :
    ∃ x, (e.session h).execution y.step.id.text = .ok x ∧ x.outline = y ∧ x.index = i ∧
      e.record? h i = some x.record := by
  obtain ⟨x, hx, ho, hr⟩ := hh.record hy
  refine ⟨x, ?_, ho, ?_, hr⟩
  · have hfind : (e.session h).graph.node? y.step.id.text = some x := by
      rw [StepGraph.node?, List.find?_eq_some_iff_getElem]
      obtain ⟨hlt, hget⟩ := List.getElem?_eq_some_iff.mp hx
      refine ⟨by rw [← ho]; exact beq_self_eq_true _, i, hlt, hget, ?_⟩
      intro j hj
      simp only [Bool.not_eq_true', beq_eq_false_iff_ne, ne_eq]
      intro heq
      have hz : t.steps[j]? = some (e.session h).graph.nodes[j].outline := by
        rw [← hh.outline, Session.outline, List.getElem?_map,
          List.getElem?_eq_getElem (Nat.lt_trans hj hlt)]
        rfl
      exact Nat.ne_of_lt hj (ht.laid.unique hz hy (Identifier.ext_text heq))
    rw [Session.execution, hfind]
  · exact (congrArg StepOutline.index ho).trans (ht.laid.position i y hy)

theorem Hosts.node (hh : e.Hosts h t) (ht : t.WellLaid) {x : StepExecution}
    (hx : (e.session h).graph.nodes[i]? = some x) :
    t.steps[i]? = some x.outline ∧ x.index = i := by
  have hy : t.steps[i]? = some x.outline := by
    rw [← hh.outline, Session.outline, List.getElem?_map, hx]
    rfl
  exact ⟨hy, ht.laid.position i x.outline hy⟩

theorem Hosts.of_execution (hh : e.Hosts h t) (ht : t.WellLaid) {step : String}
    {x : StepExecution} (hx : (e.session h).execution step = .ok x) :
    t.steps[x.index]? = some x.outline ∧ x.step.id.text = step := by
  rw [Session.execution] at hx
  split at hx
  · next z hz =>
    cases hx
    obtain ⟨i, hi⟩ := List.mem_iff_getElem?.mp (List.mem_of_find?_eq_some hz)
    obtain ⟨hy, rfl⟩ := hh.node ht hi
    exact ⟨hy, by simpa using List.find?_some hz⟩
  · cases hx

theorem Hosts.requiredOf (hh : e.Hosts h t) (ht : t.WellLaid) (hy : t.steps[i]? = some y)
    {x : StepExecution} (hx : x.outline = y) :
    ((e.session h).graph.requiredOf x).map StepExecution.index = y.required ∧
      ∀ r ∈ (e.session h).graph.requiredOf x,
        t.steps[r.index]? = some r.outline ∧ r.index ∈ y.required := by
  have hmem := List.mem_of_getElem? hy
  have node : ∀ j ∈ y.required, ∃ r, (e.session h).graph.nodes[j]? = some r ∧
      r.index = j ∧ t.steps[j]? = some r.outline := by
    intro j hj
    obtain ⟨z, hz, -⟩ := ht.laid.required y hmem j hj
    obtain ⟨r, hr, ho, -⟩ := hh.record hz
    exact ⟨r, hr, (congrArg StepOutline.index ho).trans (ht.laid.position j z hz), ho ▸ hz⟩
  have hreq : x.required = y.required := congrArg StepOutline.required hx
  rw [StepGraph.requiredOf, hreq]
  constructor
  · rw [List.map_filterMap]
    refine (List.filterMap_congr fun j hj => ?_).trans (List.filterMap_some)
    obtain ⟨r, hr, hi, -⟩ := node j hj
    rw [hr, Option.map_some, hi]
  · intro r hr
    obtain ⟨j, hj, hjr⟩ := List.mem_filterMap.mp hr
    obtain ⟨r', hr', hi, ho⟩ := node j hj
    obtain rfl := Option.some.inj (hr'.symm.trans hjr)
    exact ⟨hi.symm ▸ ho, hi.symm ▸ hj⟩

end Engine

theorem Engine.Hosts.requirements {e : Engine} {i : Nat} {y : StepOutline}
    (hh : e.Hosts o.session t) (ht : t.WellLaid) (hy : t.steps[i]? = some y) {x : StepExecution}
    (hx : x.outline = y) :
    (if o.withRequired then (e.session o.session).graph.requiredOf x else []).map
        StepExecution.index = o.requirements y ∧
      ∀ r ∈ (if o.withRequired then (e.session o.session).graph.requiredOf x else []),
        t.steps[r.index]? = some r.outline ∧ r.index ∈ y.required := by
  rw [StepOrder.requirements]
  split
  · exact hh.requiredOf ht hy hx
  · exact ⟨rfl, fun _ hm => absurd hm List.not_mem_nil⟩

/-- The steps on a chain come after a position. -/
def SessionOutline.Above (t : SessionOutline) (i : Nat) (active : List String) : Prop :=
  ∀ a ∈ active, ∃ k z, t.steps[k]? = some z ∧ z.step.id.text = a ∧ i < k

namespace SessionOutline.Above

variable {i : Nat} {active : List String} {y : StepOutline}

theorem nil (t : SessionOutline) (i : Nat) : t.Above i [] :=
  fun _ hm => absurd hm List.not_mem_nil

theorem not_mem (ha : t.Above i active) (ht : t.WellLaid) (hy : t.steps[i]? = some y) :
    y.step.id.text ∉ active := by
  intro hm
  obtain ⟨k, z, hz, he, hlt⟩ := ha _ hm
  exact Nat.ne_of_gt hlt (ht.laid.unique hz hy (Identifier.ext_text he))

theorem cons (ha : t.Above i active) (hy : t.steps[i]? = some y) {j : Nat} (hj : j < i) :
    t.Above j (y.step.id.text :: active) := by
  intro a hm
  rcases List.mem_cons.mp hm with rfl | hm
  · exact ⟨i, y, hy, rfl, hj⟩
  · obtain ⟨k, z, hz, he, hlt⟩ := ha a hm
    exact ⟨k, z, hz, he, Nat.lt_trans hj hlt⟩

end SessionOutline.Above

namespace Engine

variable {e e' : Engine} {x : Handle × Nat} {step : Step}

def stepAt (e : Engine) (x : Handle × Nat) : Option Step :=
  ((e.session x.1).graph.nodes[x.2]?).map StepExecution.step

theorem stepAt_eq_none : e.stepAt x = none ↔ e.record? x.1 x.2 = none := by
  rw [stepAt, record?, Session.record?, Option.map_eq_none_iff, Option.map_eq_none_iff]

theorem stepAt_outline (e : Engine) (x : Handle × Nat) :
    e.stepAt x = ((e.session x.1).outline.steps[x.2]?).map StepOutline.step := by
  rw [stepAt, Session.outline, List.getElem?_map, Option.map_map]
  rfl

theorem lt_of_stepAt (h : e.stepAt x = some step) : x.1 < e.sessions.length := by
  by_contra hle
  rw [stepAt, session_of_le (Nat.le_of_not_lt hle)] at h
  cases h

theorem Evolves.stepAt (he : e.Evolves e') (h : e.stepAt x = some step) :
    e'.stepAt x = some step := by
  have hhosts := (hosts_of_lt (lt_of_stepAt h)).evolve he
  rw [stepAt_outline, hhosts.outline, ← stepAt_outline, h]

theorem Sound.stepAt_of_execution (he : e.Sound) {h : Handle} {id : String} {x : StepExecution}
    (hx : (e.session h).execution id = .ok x) : e.stepAt (h, x.index) = some x.step := by
  by_cases hlt : h < e.sessions.length
  · have hhosts := hosts_of_lt hlt
    obtain ⟨hy, -⟩ := hhosts.of_execution (he.laid h _ hhosts) hx
    rw [stepAt_outline, hy]
    rfl
  · rw [session_of_le (Nat.le_of_not_lt hlt)] at hx
    cases hx

theorem Sound.isRunning_of_execution (he : e.Sound) {h : Handle} {id : String} {x : StepExecution}
    (hx : (e.session h).execution id = .ok x) : e.isRunning h x.index = x.record.isRunning := by
  by_cases hlt : h < e.sessions.length
  · have hhosts := hosts_of_lt hlt
    have hlaid := he.laid h _ hhosts
    obtain ⟨hy, rfl⟩ := hhosts.of_execution hlaid hx
    obtain ⟨x', hx', -, -, hrec⟩ := hhosts.execution hlaid hy
    cases hx.symm.trans hx'
    rw [isRunning, hrec]
    rfl
  · rw [session_of_le (Nat.le_of_not_lt hlt)] at hx
    cases hx

end Engine

namespace Steps

theorem recordFailure_quietly {x : StepExecution} (fault : EngineFault)
    {I Q : Situation → Prop} (h : ∀ now s', Quietly K o.tenant o.session none
      (s.change (.fail o.session x.index fault.message now)) s' → I s' ∧ Q s') :
    (recordFailure o x fault).Assures K I (fun _ => Q) s := by
  simp only [recordFailure, Proc.assures_bind', Proc.assures_now, Proc.assures_change,
    Proc.assures_session, Proc.assures_log]
  exact fun now => ⟨(h now _ .refl).1, h now _ (Quietly.log .refl _)⟩

theorem recordOutcome_quietly {x : StepExecution} (outcome : TargetOutcome)
    {I Q : Situation → Prop} (h : ∀ now s', Quietly K o.tenant o.session none
      (s.change (.complete o.session x.index outcome now)) s' → I s' ∧ Q s') :
    (recordOutcome o x outcome).Assures K I (fun _ => Q) s := by
  simp only [recordOutcome, Proc.assures_bind', Proc.assures_now, Proc.assures_change,
    Proc.assures_session, Proc.assures_log, Proc.assures_pure]
  exact fun now => ⟨(h now _ .refl).1, h now _ (Quietly.log .refl _)⟩

theorem runAlone_follows (d : Dispatcher) {x : StepExecution} {i : Nat} {y : StepOutline}
    (hh : s.engine.Hosts o.session t) (hy : t.steps[i]? = some y) (hx : x.outline = y)
    (hi : x.index = i) : (runAlone d o x).Follows K o t (.alone i) s := by
  subst hi
  obtain ⟨z, hz, -, hr⟩ := hh.record hy
  have running : s.engine.isRunning o.session x.index = z.record.isRunning := by
    rw [Engine.isRunning, hr]
    rfl
  simp only [runAlone, enterRunning, Attempt.Follows, Attempt.assures_bind, Attempt.assures_lift,
    Proc.assures_now, Proc.assures_session, hz, Option.bind_some]
  intro now
  cases hb : z.record.begin? now with
  | none =>
    have hrun := running.trans (StepRecord.begin?_eq_none.mp hb)
    have hid : x.id = y.id := by rw [← hx]; rfl
    simp only [Attempt.assures_throw]
    exact hid ▸ .refused hy hrun
  | some r =>
    have hrun : z.record.isRunning = false := by
      rw [Bool.eq_false_iff]
      intro hc
      rw [StepRecord.begin?_eq_none.mpr hc] at hb
      cases hb
    have started : ∀ s', Quietly K o.tenant o.session (some x.index)
        (s.change (.begin o.session x.index now)) s' →
        Course K o t (.alone x.index) s .underWay s' := fun s' => .begun hr hrun
    simp only [Attempt.assures_bind, Attempt.assures_lift, Proc.assures_change, Proc.assures_log,
      Attempt.assures_outcome]
    have logged : ∀ r, Quietly K o.tenant o.session (some x.index)
        (s.change (.begin o.session x.index now))
        ((s.change (.begin o.session x.index now)).change (.log r)) := fun r => Quietly.log .refl r
    refine ⟨started _ .refl, started _ (logged _), ?_⟩
    have dispatched := fun r =>
      (dispatch_within (Scope.quiet_notes o.tenant o.session x.index) d).quietly (logged r)
    refine (dispatched _).mono started ?_ ?_
    · rintro outcome s' ⟨-, hq⟩
      exact recordOutcome_quietly outcome fun later s'' hl =>
        ⟨.done hr hrun hq hl (.inl rfl), .done hr hrun hq hl (.inr rfl)⟩
    · rintro fault s' ⟨hf, hq⟩
      exact recordFailure_quietly fault fun later s'' hl =>
        ⟨.failed hr hrun hq hf.conflict hl (.inl rfl),
          .failed hr hrun hq hf.conflict hl (.inr rfl)⟩

theorem runRequired_follows (hK : K.Evolving) {run : String → Attempt StepReport}
    {x : StepExecution} {i : Nat} {y : StepOutline} (hy : t.steps[i]? = some y)
    (hx : x.outline = y) (hi : x.index = i)
    (hrun : ∀ j z s', t.steps[j]? = some z → j ∈ y.required → s'.engine.Hosts o.session t →
      (run z.step.id.text).Follows K o t (.guarded j) s')
    (nodes : List StepExecution)
    (hnodes : ∀ r ∈ nodes, t.steps[r.index]? = some r.outline ∧ r.index ∈ y.required)
    (hh : s.engine.Hosts o.session t) :
    Attempt.Follows K o t (.required i (nodes.map StepExecution.index))
      (nodes.forM fun r => runRequired run o x r) s := by
  induction nodes generalizing s with
  | nil => exact .none
  | cons r rest ih =>
    obtain ⟨hr, hreq⟩ := hnodes r List.mem_cons_self
    have hrest := fun {a} => ih (s := a) fun r hr => hnodes r (List.mem_cons_of_mem _ hr)
    obtain ⟨z, hz, -, hrec⟩ := hh.record hr
    have hdone : s.engine.isDone o.session r.index = z.record.isDone := by
      rw [Engine.isDone, hrec]
      rfl
    show Attempt.Assures K _ _ _ (runRequired run o x r >>= fun _ => rest.forM _) s
    rw [Attempt.assures_bind, runRequired, Attempt.assures_bind, Attempt.assures_lift,
      Proc.assures_session, hz, Option.any_some]
    cases hd : z.record.isDone with
    | true =>
      exact (hrest hh).lift fun e s' => .settled ⟨y, hy, hreq⟩ (hdone.trans hd)
    | false =>
      have hundone := hdone.trans hd
      simp only [Bool.false_eq_true, if_false, Attempt.assures_bind, Attempt.assures_outcome]
      refine (hrun r.index r.outline s hr hreq hh).mono ?_ ?_ ?_
      · exact fun s' hx => .passed ⟨y, hy, hreq⟩ hundone hx trivial
      · intro _ s' hx
        exact (hrest (hh.evolve (hx.evolves hK))).lift fun e s'' =>
          .next ⟨y, hy, hreq⟩ hundone hx
      · intro fault s' hx'
        cases hl : leavesAlone fault with
        | true => exact .passed ⟨y, hy, hreq⟩ hundone hx' hl
        | false =>
          simp only [Bool.false_eq_true, if_false, Attempt.assures_bind, Attempt.assures_lift,
            Attempt.assures_throw]
          subst hi
          refine recordFailure_quietly _ fun now s'' hq => ?_
          have hfault : EngineFault.requiredStepFailed x.step.id.text r.step.id.text fault =
              .requiredStepFailed y.step.id.text r.outline.step.id.text fault := by
            rw [← hx]
            rfl
          exact ⟨.blamed hy hr hreq hundone hx' hl hfault hq (.inl rfl),
            .blamed hy hr hreq hundone hx' hl hfault hq (.inr rfl)⟩

/-- A step that is met on a chain comes before the steps that are on it already. -/
theorem runGuarded_follows (hK : K.Evolving) (ht : t.WellLaid) (d : Dispatcher) (depth : Nat)
    (active : List String) {i : Nat} {y : StepOutline} (hy : t.steps[i]? = some y)
    (hdepth : i < depth) (hactive : t.Above i active) (hh : s.engine.Hosts o.session t) :
    (runGuarded d o depth active y.step.id.text).Follows K o t (.guarded i) s := by
  -- required steps are laid out before the step, so the bound is never met and nothing in
  -- `active` is met again
  induction depth generalizing active i y s with
  | zero => exact absurd hdepth (Nat.not_lt_zero i)
  | succ depth ih =>
    obtain ⟨x, hx, ho, hi, hr⟩ := hh.execution ht hy
    have running : s.engine.isRunning o.session i = x.record.isRunning := by
      rw [Engine.isRunning, hr]
      rfl
    rw [runGuarded_succ, Attempt.Follows, Attempt.assures_bind, Attempt.assures_lift,
      Proc.assures_session, hx, Attempt.assures_bind, Attempt.ofExcept, Attempt.assures_pure,
      if_neg (hactive.not_mem ht hy)]
    cases hrun : x.record.isRunning with
    | true =>
      have hid : x.id = y.id := by rw [← ho]; rfl
      simp only [if_true, Attempt.assures_throw]
      exact hid ▸ .busy hy (running.trans hrun)
    | false =>
      have hidle := running.trans hrun
      simp only [Bool.false_eq_true, if_false]
      rw [Attempt.assures_bind]
      obtain ⟨hindex, hnodes⟩ := hh.requirements ht hy ho
      have lower : ∀ j ∈ y.required, j < i := fun j hj =>
        SessionOutline.Requires.lt ht ⟨y, hy, hj⟩
      have required := runRequired_follows hK hy ho hi (fun j z s' hz hj hh' =>
        ih (y.step.id.text :: active) hz
          (Nat.lt_of_lt_of_le (lower j hj) (Nat.le_of_lt_succ hdepth))
          (hactive.cons hy (lower j hj)) hh') _ hnodes hh
      rw [hindex, Attempt.Follows] at required
      refine required.mono ?_ ?_ ?_
      · exact fun s' hx => .unready hy hidle hx (by simp)
      · intro _ s' hx
        exact (runAlone_follows d (hh.evolve (hx.evolves hK)) hy ho hi).lift fun e s'' =>
          .ready hy hidle hx
      · exact fun fault s' hx => .unready hy hidle hx (by simp)

/-- The chain of steps that require each other is no longer than the steps are many. -/
theorem runStep_follows (hK : K.Evolving) (ht : t.WellLaid) (d : Dispatcher) {i : Nat}
    {y : StepOutline} (hy : t.steps[i]? = some y) (hh : s.engine.Hosts o.session t) :
    (Steps.runStep d o y.step.id.text).Follows K o t (.guarded i) s := by
  have hlt : i < (s.engine.session o.session).graph.nodes.length := by
    obtain ⟨x, hx, -⟩ := hh.record hy
    exact (List.getElem?_eq_some_iff.mp hx).1
  rw [Steps.runStep, Attempt.Follows, Attempt.assures_bind, Attempt.assures_lift,
    Proc.assures_session]
  exact runGuarded_follows hK ht d _ [] hy hlt (.nil t i) hh

end Steps

namespace Sessions

variable {I : Situation → Prop} {F : EngineFault → Situation → Prop} {tenant id : String}
  {h : Handle}

@[simp] theorem assures_find {Q : Handle → Situation → Prop} :
    Attempt.Assures K I Q F (find tenant id) s ↔
      (∀ h, s.engine.find? id = some h → (s.engine.session h).tenant = tenant → Q h s) ∧
      ((s.engine.find? id).filter (fun h => (s.engine.session h).tenant == tenant) = none →
        F (.unknownSession id) s) := by
  simp only [find, Attempt.assures_bind, Attempt.assures_lift, Proc.assures_engine]
  cases hf : s.engine.find? id with
  | none => simp
  | some h =>
    by_cases ht : (s.engine.session h).tenant = tenant
    · have hfilter : (some h).filter (fun h => (s.engine.session h).tenant == tenant) = some h := by
        simp [ht]
      simp [hfilter, ht]
    · have hfilter : (some h).filter (fun h => (s.engine.session h).tenant == tenant) = none := by
        simp [ht]
      simp [hfilter, ht]

theorem find?_hosts {e : Engine} (he : e.Sound) (hf : e.find? id = some h) :
    e.Hosts h (e.session h).outline :=
  Engine.hosts_of_lt (he.stored h (List.mem_of_find?_eq_some hf))

theorem runInTurn_follows (hK : K.Evolving) (ht : t.WellLaid) (f : Facilities) (g : Nat)
    (nodes : List StepExecution) (hnodes : ∀ x ∈ nodes, t.steps[x.index]? = some x.outline)
    (hh : s.engine.Hosts h t) :
    (nodes.forM (runInTurn (stepOfRun f tenant h) h g)).Follows K ⟨tenant, h, none, true⟩ t
      (.turns g (nodes.map StepExecution.index)) s := by
  induction nodes generalizing s with
  | nil => exact .ended
  | cons x rest ih =>
    have hx := hnodes x List.mem_cons_self
    have hrest := fun {a} => ih (s := a) fun r hr => hnodes r (List.mem_cons_of_mem _ hr)
    obtain ⟨z, hz, -, hrec⟩ := hh.record hx
    have hdone : s.engine.isDoneIn h x.index g =
        (z.record.isDone && z.record.completedInRun == g) := by
      rw [Engine.isDoneIn, hrec]
      rfl
    show Attempt.Assures K _ _ _
      (runInTurn (stepOfRun f tenant h) h g x >>= fun _ => rest.forM _) s
    rw [Attempt.assures_bind, runInTurn, Attempt.assures_bind, Attempt.assures_lift,
      Proc.assures_session, hz, Option.any_some]
    cases hd : (z.record.isDone && z.record.completedInRun == g) with
    | true =>
      exact (hrest hh).lift fun e s' => .skipped (hdone.trans hd)
    | false =>
      have hundone := hdone.trans hd
      simp only [Bool.false_eq_true, if_false, Attempt.assures_bind, Attempt.assures_pure]
      have follows := Steps.runStep_follows (o := ⟨tenant, h, none, true⟩) hK ht f.dispatcher hx hh
      rw [Attempt.Follows] at follows
      refine follows.mono ?_ ?_ ?_
      · exact fun s' hx => .broken hundone hx (by simp)
      · intro _ s' hx
        exact (hrest (hh.evolve (hx.evolves hK))).lift fun e s'' => .taken hundone hx
      · exact fun fault s' hx => .broken hundone hx (by simp)

theorem inOrder_steps {e : Engine} (hh : e.Hosts h t) (ht : t.WellLaid) :
    ((e.session h).graph.inOrder.map StepExecution.index).Perm (List.range t.steps.length) ∧
      ∀ x ∈ (e.session h).graph.inOrder, t.steps[x.index]? = some x.outline := by
  have hperm := (e.session h).graph.inOrder_perm
  have hlen : t.steps.length = (e.session h).graph.nodes.length := by
    rw [← hh.outline, Session.outline, List.length_map]
  have hindex : (e.session h).graph.nodes.map StepExecution.index =
      List.range t.steps.length := by
    refine List.ext_getElem (by simp [hlen]) fun i hi _ => ?_
    rw [List.getElem_map, List.getElem_range]
    exact (hh.node ht (List.getElem?_eq_getElem _)).2
  refine ⟨hindex ▸ hperm.map _, ?_⟩
  intro x hx
  obtain ⟨i, hi⟩ := List.mem_iff_getElem?.mp (hperm.mem_iff.mp hx)
  obtain ⟨hy, rfl⟩ := hh.node ht hi
  exact hy

theorem runAllSteps_follows (hK : K.Evolving) (ht : t.WellLaid) (f : Facilities) (g : Nat)
    (hh : s.engine.Hosts h t) :
    Attempt.Assures K (fun s' => Work K tenant h t g s .underWay s')
      (fun _ s' => Work K tenant h t g s .succeeded s')
      (fun fault s' => Work K tenant h t g s (.failed fault) s')
      (runAllSteps (stepOfRun f tenant h) tenant h g) s := by
  have uploaded := (Inputs.uploadMissing_within (Scope.quiet_inputs tenant h none).uploads
    (G := fun _ => True) fun _ => trivial).quietly (K := K) (s := s) .refl
  rw [runAllSteps, Attempt.assures_bind]
  refine uploaded.mono ?_ ?_ ?_
  · exact fun s' hq => .uploads hq (by simp)
  · rintro _ s' ⟨-, hq⟩
    have hh' : s'.engine.Hosts h t := hh.evolve (hq.evolves hK)
    obtain ⟨hperm, hnodes⟩ := inOrder_steps hh' ht
    rw [Attempt.assures_bind, Attempt.assures_lift, Proc.assures_session]
    exact Attempt.Assures.mono (fun _ => .steps hq hperm) (fun _ _ => .steps hq hperm)
      (fun _ _ => .steps hq hperm) (runInTurn_follows hK ht f g _ hnodes hh')
  · exact fun fault s' hq => .uploads hq.2 (by simp)

/-- Running a session is refused at once, or follows the course of a run of it. -/
theorem run_follows (hK : K.Evolving) (hs : s.engine.Sound) (f : Facilities)
    (tenant id : String) {Q : SessionState → Situation → Prop} (hrefused : ∀ fault, F fault s)
    (hrun : ∀ h, s.engine.find? id = some h → ∀ e s',
      RunCourse K tenant h (s.engine.session h).outline s e s' →
        match e with
        | .underWay => I s'
        | .succeeded => Q .finished s'
        | .failed fault => F fault s') :
    Attempt.Assures K I Q F (run f tenant id) s := by
  rw [run, runBy, Attempt.assures_bind, assures_find]
  refine ⟨?_, fun _ => hrefused _⟩
  intro h hf _
  have hh := find?_hosts hs hf
  have ht := hs.laid h _ hh
  have hcourse := hrun h hf
  rw [Attempt.assures_bind, Attempt.assures_lift, Proc.assures_session, Session.startRun]
  by_cases hstate : (s.engine.session h).state = .running
  · rw [if_pos hstate]
    exact hrefused _
  · rw [if_neg hstate, Attempt.assures_bind, Attempt.ofExcept, Attempt.assures_pure]
    simp only [Attempt.assures_bind, Attempt.assures_lift, Proc.assures_change, Proc.assures_log,
      Attempt.assures_outcome]
    have working : ∀ s', Work K tenant h (s.engine.session h).outline
        ((s.engine.session h).generation + 1) (s.change (.startRun h)) .underWay s' → I s' :=
      fun s' hw => hcourse .underWay s' (.working hstate hw)
    have started : ∀ r, Quietly K tenant h none (s.change (.startRun h))
        ((s.change (.startRun h)).change (.log r)) := fun r => Quietly.log .refl r
    refine ⟨working _ (.uploads .refl (by simp)), working _ (.uploads (started _) (by simp)), ?_⟩
    have hh' := fun r => hh.evolve ((Change.evolves_apply (.startRun h) _).trans
      (Change.evolves_apply (.log r) _))
    refine (runAllSteps_follows hK ht f _ (hh' _)).mono ?_ ?_ ?_
    · exact fun s' hw => working s' (hw.after (started _))
    · intro _ s' hw
      have finished : ∀ e s'', Quietly K tenant h none (s'.change (.finishRun h)) s'' →
          e = .underWay ∨ e = .succeeded →
          RunCourse K tenant h (s.engine.session h).outline s e s'' :=
        fun e s'' hq he => .finished hstate (hw.after (started _)) hq he
      exact ⟨hcourse .underWay _ (finished _ _ .refl (.inl rfl)),
        hcourse .underWay _ (finished _ _ (.log .refl _) (.inl rfl)),
        hcourse .succeeded _ (finished _ _ (.log .refl _) (.inr rfl))⟩
    · intro fault s' hw
      have failed : ∀ e s'', Quietly K tenant h none (s'.change (.failRun h)) s'' →
          e = .underWay ∨ e = .failed fault →
          RunCourse K tenant h (s.engine.session h).outline s e s'' :=
        fun e s'' hq he => .failed hstate (hw.after (started _)) hq he
      exact ⟨hcourse .underWay _ (failed _ _ .refl (.inl rfl)),
        hcourse .underWay _ (failed _ _ (.log .refl _) (.inl rfl)),
        hcourse (.failed fault) _ (failed _ _ (.log .refl _) (.inr rfl))⟩

theorem runStep_follows (hK : K.Evolving) (hs : s.engine.Sound) (f : Facilities)
    (tenant id step : String) (userInput : Option String) (withRequired : Bool)
    {Q : StepReport → Situation → Prop} (hrefused : ∀ fault, F fault s)
    (hrun : ∀ h i y, s.engine.find? id = some h →
      (s.engine.session h).outline.steps[i]? = some y → ∀ e s',
      Course K ⟨tenant, h, userInput, withRequired⟩ (s.engine.session h).outline (.guarded i) s e
          s' →
        match e with
        | .underWay => I s'
        | .succeeded => ∀ r, Q r s'
        | .failed fault => F fault s') :
    Attempt.Assures K I Q F (runStep f tenant id step userInput withRequired) s := by
  rw [runStep, runStepBy, Attempt.assures_bind, assures_find]
  refine ⟨?_, fun _ => hrefused _⟩
  intro h hf _
  have hh := find?_hosts hs hf
  have ht := hs.laid h _ hh
  rw [Attempt.assures_bind, Attempt.assures_lift, Proc.assures_session, Attempt.assures_bind,
    Attempt.assures_ofExcept]
  refine ⟨?_, fun _ _ => hrefused _⟩
  intro x hx
  obtain ⟨hy, rfl⟩ := hh.of_execution ht hx
  dsimp only
  split
  · exact hrefused _
  · split
    · exact hrefused _
    · have hcourse := hrun h x.index x.outline hf hy
      have follows := Steps.runStep_follows (o := ⟨tenant, h, userInput, withRequired⟩) hK ht
        f.dispatcher hy hh
      rw [Attempt.Follows] at follows
      exact follows.mono (hcourse .underWay) (fun r s' hx => hcourse .succeeded s' hx r)
        (fun fault => hcourse (.failed fault))

end Sessions

end FlowEngine
