import FlowEngine.Proofs.Accounts
import FlowEngine.Proofs.Reaping
import FlowEngine.Proofs.Supplies

/-! # Sessions that leave the store

The deeds of an operation are its changes and calls in their order, the journal apart. A request
that takes a session out of the store goes once over the files that the session has at that moment,
and then is done. A sweep goes through the sessions of the store, as they are listed at its start.
Between two of them others may have done anything; it decides on each session by the state that it
comes to.
-/
namespace FlowEngine

variable {α : Type} {K : Conduct}

/-! ## Deeds -/

/-- What an operation does, apart from writing to the journal. -/
inductive Deed where
  | change (c : Change)
  | call (c : ProviderCall)

def Event.deed? : Event → Option Deed
  | .change (.log _) => none
  | .change c => some (.change c)
  | .call c _ => some (.call c)

def deeds (own : List Moment) : List Deed := (own.filterMap fun m => m.event.deed?).reverse

/-- The sessions that have left the store, the first one first, with the engine that they left. -/
def departed (past : List Moment) : List (Engine × Handle) :=
  (past.filterMap fun m => m.event.withdrawn?.map fun h => (m.engine, h)).reverse

/-- A sweep is active from its start to its end. -/
def Watch.sweeps : Watch Unit where
  turn
    | .change (.sweep true) => some (.opens ())
    | .change (.sweep false) => some (.closes ())
    | _ => none
  marked e _ := e.sweeping

def Moment.after : Moment → Engine
  | ⟨e, .change c⟩ => c.apply e
  | ⟨e, .call _ _⟩ => e

/-- One pass over the files of a session. -/
def releasePass (e : Engine) (h : Handle) : List Deed :=
  ((e.session h).allInputs.values.filterMap Input.file).map fun file =>
    .call (.delete (e.session h).tenant file)

/-- A session leaves the store and is released. -/
def farewell (x : Engine × Handle) : List Deed := .change (.withdraw x.2) :: releasePass x.1 x.2

/-- Changes that neither bring a session into the store nor take one out, and of no sweep. -/
def Change.Stays : Change → Prop
  | .enlist _ | .withdraw _ | .sweep _ => False
  | _ => True

/-- The last moment of an operation was in order. A session comes in under an identifier that is
free, and one that leaves was there. A sweep starts when none is active, and ends what it has
started. -/
def Seemly : List Moment → Prop
  | ⟨e, .change (.enlist s)⟩ :: _ => e.find? s.id = none
  | ⟨e, .change (.withdraw h)⟩ :: _ => h ∈ e.stored
  | ⟨e, .change (.sweep true)⟩ :: _ => e.sweeping = false
  | ⟨_, .change (.sweep false)⟩ :: earlier => Watch.sweeps.inProgress () earlier ≠ 0
  | _ => True

section Deeds

variable {m : Moment} {own : List Moment} {c : Change} {e : Engine}

theorem deeds_cons (m : Moment) (own : List Moment) :
    deeds (m :: own) = deeds own ++ m.event.deed?.toList := by
  rw [deeds, deeds, List.filterMap_cons]
  cases m.event.deed? <;> simp

theorem departed_cons (m : Moment) (own : List Moment) :
    departed (m :: own) = departed own ++ (m.event.withdrawn?.map fun h => (m.engine, h)).toList := by
  rw [departed, departed, List.filterMap_cons]
  cases m.event.withdrawn? <;> simp

theorem Change.Stays.withdrawn (hc : c.Stays) : (Event.change c).withdrawn? = none := by
  cases c with
  | withdraw h => exact hc.elim
  | _ => rfl

theorem Change.Stays.unswept (hc : c.Stays) : Watch.sweeps.turn (.change c) = none := by
  cases c <;> first | rfl | exact hc.elim

theorem Change.Stays.seemly (hc : c.Stays) (e : Engine) (own : List Moment) :
    Seemly (⟨e, .change c⟩ :: own) := by
  cases c <;> trivial

end Deeds

/-! ## One release pass -/

/-- Since `s` an operation has done the given deeds; no session has left the store by them. -/
structure Passed (ds : List Deed) (s s' : Situation) : Prop where
  evolves : s.engine.Evolves s'.engine
  own : s.own <:+ s'.own
  deeds : FlowEngine.deeds s'.own = FlowEngine.deeds s.own ++ ds
  departed : FlowEngine.departed s'.own = FlowEngine.departed s.own
  sweeps : Watch.sweeps.inProgress () s'.own = Watch.sweeps.inProgress () s.own

namespace Passed

variable {s s' s'' : Situation} {ds ds' : List Deed}

theorem refl (s : Situation) : Passed [] s s :=
  ⟨.refl _, List.suffix_refl _, (List.append_nil _).symm, rfl, rfl⟩

theorem trans (h : Passed ds s s') (h' : Passed ds' s' s'') : Passed (ds ++ ds') s s'' := by
  refine ⟨h.evolves.trans h'.evolves, h.own.trans h'.own, ?_, h'.departed.trans h.departed,
    h'.sweeps.trans h.sweeps⟩
  rw [h'.deeds, h.deeds, List.append_assoc]

theorem log (s : Situation) (r : LogRecord) : Passed [] s (s.change (.log r)) := by
  refine ⟨Change.evolves_apply _ _, List.suffix_cons _ _, ?_, ?_, Watch.inProgress_ignored rfl ()⟩
  · exact deeds_cons _ _
  · exact (departed_cons _ _).trans (List.append_nil _)

theorem meets (hK : K.Evolving) {c : ProviderCall} {r : c.Outcome} (hm : K.Meets s c r s') :
    Passed [.call c] s s' := by
  have hevolves := hm.evolves hK
  obtain ⟨t, -, -, rfl⟩ := hm
  refine ⟨hevolves, List.suffix_cons _ _, ?_, ?_, Watch.inProgress_ignored rfl ()⟩
  · exact deeds_cons _ _
  · exact (departed_cons _ _).trans (List.append_nil _)

end Passed

abbrev Proc.Tidy (K : Conduct) (Q : α → Situation → Prop) (p : Proc α) (s : Situation) : Prop :=
  p.Assures K (fun s' => Seemly s'.own) Q s

namespace Inputs

theorem deleteFile_passes (hK : K.Evolving) (tenant session file : String) (s : Situation) :
    (deleteFile tenant session file).Tidy K
      (fun _ => Passed [.call (.delete tenant file)] s) s := by
  simp only [deleteFile, Proc.Tidy, Proc.assures_bind', Proc.assures_ask]
  intro r s' hm
  have hpassed := Passed.meets hK hm
  obtain ⟨t, -, -, rfl⟩ := hm
  refine ⟨trivial, ?_⟩
  cases r with
  | ok u => exact hpassed
  | error fault =>
    simp only [Proc.assures_bind', Proc.assures_log, Proc.assures_pure]
    exact ⟨trivial, hpassed.trans (.log _ _)⟩

theorem releaseFiles_passes (hK : K.Evolving) (tenant session : String) (files : List String)
    (s : Situation) : (releaseFiles tenant session files).Tidy K
      (fun _ => Passed (files.map fun file => .call (.delete tenant file)) s) s := by
  induction files generalizing s with
  | nil => exact Passed.refl s
  | cons file rest ih =>
    refine (deleteFile_passes hK tenant session file s).bind fun _ s₁ hs₁ => ?_
    exact (ih s₁).bind fun _ _ hs₂ => hs₁.trans hs₂

end Inputs

namespace Sessions

theorem releaseRemoved_passes (hK : K.Evolving) (h : Handle) (s : Situation) :
    (releaseRemoved h).Tidy K (fun _ s' => Passed (releasePass s.engine h) s s' ∧
      s'.own.head?.map Moment.after = some s'.engine) s := by
  simp only [releaseRemoved, Inputs.releaseSession, Proc.Tidy, Proc.assures_bind',
    Proc.assures_session]
  refine (Inputs.releaseFiles_passes hK _ _ _ s).imp fun _ s' hs' => ?_
  simp only [Proc.assures_log, Proc.assures_pure]
  exact ⟨trivial, List.append_nil (releasePass s.engine h) ▸ hs'.trans (.log s' _), rfl⟩

end Sessions

/-- Since `s` a session has left the store and been released. -/
structure Released (h : Handle) (s s' : Situation) : Prop where
  evolves : s.engine.Evolves s'.engine
  own : (⟨s.engine, .change (.withdraw h)⟩ :: s.own) <:+ s'.own
  deeds : FlowEngine.deeds s'.own = FlowEngine.deeds s.own ++ farewell (s.engine, h)
  departed : FlowEngine.departed s'.own = FlowEngine.departed s.own ++ [(s.engine, h)]
  sweeps : Watch.sweeps.inProgress () s'.own = Watch.sweeps.inProgress () s.own
  after : s'.own.head?.map Moment.after = some s'.engine

theorem Released.log {h : Handle} {s s' : Situation} (hs : Released h s s') (r : LogRecord) :
    Released h s (s'.change (.log r)) := by
  have hlog := Passed.log s' r
  refine ⟨hs.evolves.trans hlog.evolves, hs.own.trans hlog.own, ?_, hlog.departed.trans hs.departed,
    hlog.sweeps.trans hs.sweeps, rfl⟩
  rw [hlog.deeds, List.append_nil, hs.deeds]

theorem Sessions.releaseRemoved_released (hK : K.Evolving) (h : Handle) (s : Situation) :
    (releaseRemoved h).Tidy K (fun _ => Released h s) (s.change (.withdraw h)) := by
  refine (releaseRemoved_passes hK h _).imp ?_
  rintro _ s' ⟨hpassed, hafter⟩
  refine ⟨(Change.evolves_apply _ _).trans hpassed.evolves, hpassed.own, ?_, ?_, ?_, hafter⟩
  · rw [hpassed.deeds, Situation.change_own, deeds_cons, List.append_assoc]
    rfl
  · rw [hpassed.departed, Situation.change_own, departed_cons]
    rfl
  · rw [hpassed.sweeps, Situation.change_own, Watch.inProgress_ignored rfl]

/-! ## The requests that remove sessions -/

theorem Engine.removeIf_id {e : Engine} {id : String} {condition : Session → Bool} {h : Handle}
    (hr : (e.removeIf id condition).1 = some h) : (e.session h).id = id := by
  rw [removeIf] at hr
  split at hr
  · cases hr
  · next k hk =>
    split at hr
    · cases hr
      simpa using List.find?_some hk
    · cases hr

theorem Engine.removeIf_always (e : Engine) (id : String) :
    (e.removeIf id fun _ => true).1 = e.find? id := by
  rw [removeIf]
  cases e.find? id <;> rfl

namespace Sessions

theorem removeIf_releases (hK : K.Evolving) (id : String) (condition : Session → Bool)
    (s : Situation) : (removeIf id condition).Tidy K (fun r s' =>
      (r = none ∧ (s.engine.removeIf id condition).1 = none ∧ s' = s) ∨
      ∃ summary h, r = some summary ∧ (s.engine.removeIf id condition).1 = some h ∧
        Released h s s') s := by
  simp only [removeIf, Proc.Tidy, Proc.assures_bind', Proc.assures_engine]
  split
  · next hnone => exact .inl ⟨rfl, hnone, rfl⟩
  · next h hsome =>
    simp only [Proc.assures_bind', Proc.assures_change, Proc.assures_pure]
    refine ⟨Engine.removeIf_stored hsome, ?_⟩
    exact (releaseRemoved_released hK h s).imp fun summary _ hs' =>
      .inr ⟨summary, h, rfl, hsome, hs'⟩

theorem remove_releases (hK : K.Evolving) (h : Handle) (s : Situation) :
    (remove h).Tidy K (fun _ s' =>
      (s.engine.find? (s.engine.session h).id = none ∧ Passed (releasePass s.engine h) s s') ∨
      ∃ k, s.engine.find? (s.engine.session h).id = some k ∧
        Passed (releasePass s.engine h) (s.change (.withdraw k)) s') s := by
  simp only [remove, Proc.Tidy, Proc.assures_bind', Proc.assures_engine, Engine.removeIf_always]
  split
  · next hnone => exact (releaseRemoved_passes hK h s).imp fun _ _ hs' => .inl ⟨hnone, hs'.1⟩
  · next k hsome =>
    simp only [Proc.assures_bind', Proc.assures_change]
    refine ⟨List.mem_of_find?_eq_some hsome, ?_⟩
    exact (releaseRemoved_passes hK h _).imp fun _ _ hs' => .inr ⟨k, hsome, hs'.1⟩

theorem delete_releases (hK : K.Evolving) (tenant id : String) (s : Situation) :
    (delete tenant id).Assures K (fun s' => Seemly s'.own)
      (fun _ s' => ∃ h, s.engine.find? id = some h ∧ (s.engine.session h).tenant = tenant ∧
        Released h s s') (fun _ s' => s' = s) s := by
  rw [delete, Attempt.assures_bind, assures_find]
  refine ⟨fun h hfind htenant => ?_, fun _ => rfl⟩
  have hid : (s.engine.session h).id = id := by simpa using List.find?_some hfind
  simp only [remove, Attempt.assures_lift, Proc.assures_bind', Proc.assures_engine,
    Engine.removeIf_always, hid, hfind, Proc.assures_change]
  refine ⟨List.mem_of_find?_eq_some hfind, ?_⟩
  exact (releaseRemoved_released hK h s).imp fun _ _ hs' => ⟨h, rfl, htenant, hs'⟩

end Sessions

/-! ## Sweeps -/

namespace Sweep

/-- What a sweep has done, and the sessions that it has come to so far. A session is looked up by
its identifier when the sweep comes to it, and it leaves the store if and only if it is due by
then. -/
inductive Tour (now : Int) (start : List Moment) : List Moment → List Handle → Prop where
  | listed : Tour now start start []
  | kept {own visited e h} : Tour now start own visited → own.head?.map Moment.after = some e →
      (e.removeIf (e.session h).id (isDue now)).1 = none → Tour now start own (visited ++ [h])
  | removed {own own' visited e h k} : Tour now start own visited →
      own.head?.map Moment.after = some e → (e.removeIf (e.session h).id (isDue now)).1 = some k →
      (⟨e, .change (.withdraw k)⟩ :: own) <:+ own' → departed own' = departed own ++ [(e, k)] →
      Tour now start own' (visited ++ [h])

/-- What a sweep that has come to its end has done, and what it says about it. -/
structure Performed (now : Int) (summary : SweepSummary) (own : List Moment) : Prop where
  deeds : FlowEngine.deeds own =
    .change (.sweep true) :: (departed own).flatMap farewell ++ [.change (.sweep false)]
  deleted : summary.deleted = (departed own).map fun x => (x.1.session x.2).id
  tour : ∃ e listed toured visited, listed.Perm e.stored ∧
    Tour now [⟨e, .change (.sweep true)⟩] toured visited ∧ toured <:+ own ∧
    departed toured = departed own ∧ visited <+: listed ∧ summary.examined = visited.length ∧
    (summary.cutShort = false → visited = listed)

/-- A sweep that began in `e` and has visited some sessions. -/
structure Touring (now : Int) (e : Engine) (summary : SweepSummary) (visited : List Handle)
    (s : Situation) : Prop where
  evolves : e.Evolves s.engine
  tour : Tour now [⟨e, .change (.sweep true)⟩] s.own visited
  deeds : FlowEngine.deeds s.own = .change (.sweep true) :: (departed s.own).flatMap farewell
  deleted : summary.deleted = (departed s.own).map fun x => (x.1.session x.2).id
  examined : summary.examined = visited.length
  active : Watch.sweeps.inProgress () s.own = 1
  after : s.own.head?.map Moment.after = some s.engine

namespace Touring

variable {now : Int} {e : Engine} {summary : SweepSummary} {visited : List Handle}
  {s s' : Situation} {h k : Handle}

theorem kept (ht : Touring now e summary visited s)
    (hnone : (s.engine.removeIf (s.engine.session h).id (isDue now)).1 = none) :
    Touring now e { summary with examined := summary.examined + 1 } (visited ++ [h]) s := by
  refine ⟨ht.evolves, ht.tour.kept ht.after hnone, ht.deeds, ht.deleted, ?_, ht.active, ht.after⟩
  rw [List.length_append, ht.examined]
  rfl

theorem removed (ht : Touring now e summary visited s)
    (hsome : (s.engine.removeIf (s.engine.session h).id (isDue now)).1 = some k)
    (hs : Released k s s') (released failed : Nat) :
    Touring now e
      { summary with
        examined := summary.examined + 1
        deleted := summary.deleted ++ [(s.engine.session k).id]
        releasedFiles := released
        failedReleases := failed } (visited ++ [h]) s' := by
  refine ⟨ht.evolves.trans hs.evolves, ht.tour.removed ht.after hsome hs.own hs.departed, ?_, ?_, ?_,
    hs.sweeps.trans ht.active, hs.after⟩
  · rw [hs.deeds, hs.departed, ht.deeds, List.flatMap_append, List.flatMap_singleton]
    rfl
  · rw [hs.departed, List.map_append, ht.deleted]
    rfl
  · rw [List.length_append, ht.examined]
    rfl

theorem performed (ht : Touring now e summary visited s) {listed : List Handle}
    (hlisted : listed.Perm e.stored) (hvisited : visited <+: listed)
    (hwhole : summary.cutShort = false → visited = listed) (r : LogRecord) :
    Performed now summary ((s.change (.log r)).change (.sweep false)).own ∧
      Watch.sweeps.Settled ((s.change (.log r)).change (.sweep false)).own := by
  have hlog := Passed.log s r
  have hdeparted : departed ((s.change (.log r)).change (.sweep false)).own = departed s.own := by
    rw [Situation.change_own, departed_cons, hlog.departed]
    exact List.append_nil _
  refine ⟨⟨?_, ?_, e, listed, s.own, visited, hlisted, ht.tour, ?_, hdeparted.symm, hvisited,
    ht.examined, hwhole⟩, ?_⟩
  · rw [hdeparted, Situation.change_own, deeds_cons, hlog.deeds, List.append_nil, ht.deeds]
    rfl
  · rw [hdeparted, ht.deleted]
  · exact hlog.own.trans (List.suffix_cons _ _)
  · intro x
    rw [Situation.change_own, Watch.inProgress_closed rfl, hlog.sweeps, ht.active]
    rfl

end Touring

variable {now : Int} {e : Engine} {summary : SweepSummary} {visited : List Handle} {s : Situation}

theorem visit_tours (hK : K.Evolving) (ht : Touring now e summary visited s) {h : Handle}
    (hlt : h < e.sessions.length) : (visit now summary h).Tidy K (fun summary' s' =>
      summary'.cutShort = summary.cutShort ∧ Touring now e summary' (visited ++ [h]) s') s := by
  simp only [visit, Proc.Tidy, Proc.assures_bind', Proc.assures_session]
  refine (Sessions.removeIf_releases hK _ _ s).imp ?_
  rintro _ s' (⟨rfl, hnone, rfl⟩ | ⟨release, k, rfl, hsome, hs'⟩)
  · exact ⟨rfl, ht.kept hnone⟩
  · simp only [Proc.assures_bind', Proc.assures_session, Proc.assures_log, Proc.assures_pure]
    have hid : (s'.engine.session h).id = (s.engine.session k).id := by
      have hlisted := Engine.hosts_of_lt (Nat.lt_of_lt_of_le hlt ht.evolves.length_le)
      rw [Engine.removeIf_id hsome]
      exact congrArg SessionOutline.id (hlisted.evolve hs'.evolves).outline
    rw [hid]
    exact ⟨trivial, trivial, ht.removed hsome (hs'.log _) _ _⟩

theorem visitAll_tours (hK : K.Evolving) (limit : Nat) (started : Nat) (handles : List Handle)
    (hlt : ∀ h ∈ handles, h < e.sessions.length) (hwhole : summary.cutShort = false)
    (ht : Touring now e summary visited s) :
    (visitAll limit now started summary handles).Tidy K (fun summary' s' =>
      ∃ more, more <+: handles ∧ (summary'.cutShort = false → more = handles) ∧
        Touring now e summary' (visited ++ more) s') s := by
  induction handles generalizing summary visited s with
  | nil => exact ⟨[], List.prefix_refl _, fun _ => rfl, (List.append_nil visited).symm ▸ ht⟩
  | cons h rest ih =>
    obtain ⟨hfirst, hrest⟩ := List.forall_mem_cons.mp hlt
    simp only [visitAll, Proc.Tidy, Proc.assures_bind', Proc.assures_stopwatch]
    intro t
    split
    · refine ⟨[], List.nil_prefix, fun hwhole => ?_, ?_⟩
      · cases hwhole
      · rw [List.append_nil]
        exact ⟨ht.evolves, ht.tour, ht.deeds, ht.deleted, ht.examined, ht.active, ht.after⟩
    · refine (visit_tours hK ht hfirst).bind ?_
      rintro summary₁ s₁ ⟨hcut, hs₁⟩
      refine (ih hrest (hcut.trans hwhole) hs₁).imp ?_
      rintro summary₂ s₂ ⟨more, hmore, hall, hs₂⟩
      refine ⟨h :: more, (List.prefix_cons_inj h).mpr hmore, fun hwhole => ?_, ?_⟩
      · rw [hall hwhole]
      · rwa [List.append_assoc] at hs₂

theorem run_tours (hK : K.Evolving) (limit : Nat) (now : Int) (s : Situation) (hown : s.own = [])
    (hs : s.engine.Sound) : (run limit now).Tidy K (fun r s' =>
      match r with
      | .skipped => s.engine.sweeping = true ∧ ∃ record, s' = s.change (.log record)
      | .completed summary => Performed now summary s'.own ∧ Watch.sweeps.Settled s'.own) s := by
  simp only [run, Proc.Tidy, Proc.assures_bind', Proc.assures_engine]
  split
  · next hactive =>
    simp only [Proc.assures_bind', Proc.assures_log, Proc.assures_pure]
    exact ⟨trivial, hactive, _, rfl⟩
  · next hidle =>
    simp only [Proc.assures_bind', Proc.assures_change, Proc.assures_stopwatch,
      Proc.assures_listed]
    refine ⟨by simpa [Seemly] using hidle, fun t listed hlisted => ?_⟩
    have hown' : (s.change (.sweep true)).own = [⟨s.engine, .change (.sweep true)⟩] := by
      rw [Situation.change_own, hown]
    have hbegun : Touring now s.engine blank [] (s.change (.sweep true)) := by
      refine ⟨Change.evolves_apply _ _, ?_, ?_, ?_, rfl, ?_, ?_⟩ <;> rw [hown']
      · exact .listed
      · rfl
      · rfl
      · rfl
      · rfl
    have hlt : ∀ h ∈ listed, h < s.engine.sessions.length :=
      fun h hh => hs.stored h (hlisted.subset hh)
    refine (visitAll_tours hK limit t listed hlt rfl hbegun).imp ?_
    rintro summary s' ⟨visited, hvisited, hall, ht⟩
    simp only [Proc.assures_log, Proc.assures_pure]
    have hlogged := fun r => (Passed.log s' r).sweeps.trans ht.active
    refine ⟨trivial, ?_, ht.performed hlisted hvisited hall _⟩
    rw [Situation.change_own, Seemly, hlogged]
    exact Nat.one_ne_zero

end Sweep

/-! ## All requests -/

namespace Request

/-- What a request that has come to its end has to account for: what it has taken out of the store,
and what it has done about that. -/
def Accounts : (q : Request) → q.Reply → List Moment → Prop
  | .delete tenant id, .ok _, own => ∃ e h, e.find? id = some h ∧ (e.session h).tenant = tenant ∧
      departed own = [(e, h)] ∧ deeds own = farewell (e, h)
  | .delete _ _, .error _, own => own = []
  | .removeIf id condition, some _, own => ∃ e h, (e.removeIf id condition).1 = some h ∧
      departed own = [(e, h)] ∧ deeds own = farewell (e, h)
  | .removeIf _ _, none, own => own = []
  | .remove h, _, own => ∃ e,
      departed own = ((e.find? (e.session h).id).map fun k => (e, k)).toList ∧
      deeds own = (departed own).map (fun x => .change (.withdraw x.2)) ++ releasePass e h
  | .sweep _ _, .skipped, own => ∃ e record, e.sweeping = true ∧ own = [⟨e, .change (.log record)⟩]
  | .sweep _ now, .completed summary, own => Sweep.Performed now summary own
  | _, _, own => departed own = []

end Request

/-- Nothing has been done to the store, except that sessions may have come in. -/
structure Settling (own : List Moment) : Prop where
  departed : FlowEngine.departed own = []
  sweeps : Watch.sweeps.Settled own

namespace Settling

variable {own : List Moment} {m : Moment}

theorem nil : Settling [] := ⟨rfl, fun _ => rfl⟩

theorem cons (h : Settling own) (hw : m.event.withdrawn? = none)
    (hs : Watch.sweeps.turn m.event = none) : Settling (m :: own) := by
  refine ⟨?_, h.sweeps.ignored hs⟩
  rw [departed_cons, h.departed, hw]
  rfl

end Settling

def Scope.staying : Scope where
  sees _ := True
  makes := Change.Stays
  calls _ := True

theorem Scope.staying_labours : Scope.staying.Labours := by
  refine ⟨⟨fun _ => trivial, fun _ _ => trivial, fun _ _ => trivial⟩, ?_, ?_, fun _ => trivial⟩
  · intro c p hc
    cases c <;> cases hc <;> trivial
  · intro c h hc
    cases c <;> cases hc <;> trivial

theorem Proc.Within.settles {p : Proc α} {V : α → Prop} (hp : p.Within .staying V) {s : Situation}
    (hs : Settling s.own) (hseemly : Seemly s.own) :
    p.Tidy K (fun _ s' => Settling s'.own) s := by
  have hall := hp.assures (K := K) (J := fun s' => Settling s'.own ∧ Seemly s'.own)
    (fun _ _ => trivial) ?_ ?_ ⟨hs, hseemly⟩
  · exact hall.mono (fun _ h => h.2) fun _ _ h => h.2.1
  · exact fun s' c h hc => ⟨h.1.cons hc.withdrawn hc.unswept, hc.seemly _ _⟩
  · rintro s' c r s'' h - ⟨t, -, -, rfl⟩
    exact ⟨h.1.cons rfl rfl, trivial⟩

namespace Sessions

variable {s : Situation}

theorem createWith_settles (tenant : String) (flow : Flow) (now : Int) (attempts : Nat)
    (hs : Settling s.own) :
    (createWith tenant flow now attempts).Assures K (fun s' => Seemly s'.own)
      (fun _ s' => Settling s'.own) (fun _ s' => Settling s'.own) s := by
  induction attempts with
  | zero => exact hs
  | succ attempts ih =>
    simp only [createWith, Attempt.assures_bind, Attempt.assures_lift, Proc.assures_word]
    intro word
    split
    · exact hs
    · next id hid =>
      simp only [Attempt.assures_bind, Attempt.assures_ofExcept, Attempt.assures_lift,
        Proc.assures_engine]
      refine ⟨fun new hnew => ?_, fun _ _ => hs⟩
      split
      · exact ih
      · next hfree =>
        simp only [Attempt.assures_bind, Attempt.assures_lift, Proc.assures_change,
          Proc.assures_log, Attempt.assures_pure]
        obtain ⟨g, -, rfl⟩ := Session.new_eq hnew
        have hnone : s.engine.find? id = none := by simpa using hfree
        exact ⟨hnone, trivial, (hs.cons rfl rfl).cons rfl rfl⟩

theorem create_settles (tenant flow : String) (version : Option UInt32) (hs : Settling s.own) :
    (create tenant flow version).Assures K (fun s' => Seemly s'.own)
      (fun _ s' => Settling s'.own) (fun _ s' => Settling s'.own) s := by
  simp only [create, Attempt.assures_bind, Attempt.assures_lift, Proc.assures_engine]
  split
  · exact hs
  · simp only [Attempt.assures_bind, Attempt.assures_lift, Proc.assures_now]
    exact fun now => createWith_settles tenant _ now _ hs

end Sessions

namespace Request

theorem accounts_of_not_removes {q : Request} (hq : ¬ q.Removes) (r : q.Reply) {own : List Moment}
    (h : departed own = []) : q.Accounts r own := by
  cases q with
  | delete | remove | removeIf | sweep => exact absurd trivial hq
  | _ => exact h

theorem accounts (hK : K.Evolving) (f : Facilities) (q : Request) {s : Story} (hs : s.engine.Sound) :
    (q.proc f).Tidy K (fun r s' => q.Accounts r s'.own ∧ Watch.sweeps.Settled s'.own) s.enter := by
  have settled : ∀ {h : Handle} {s' : Situation}, Released h s.enter s' →
      Watch.sweeps.Settled s'.own := fun hs' _ => hs'.sweeps
  by_cases hr : q.Removes
  · cases q with
    | delete tenant id =>
      refine Proc.Assures.imp (Sessions.delete_releases hK tenant id s.enter) ?_
      rintro (fault | summary) s' hs'
      · obtain rfl : s' = s.enter := hs'
        exact ⟨rfl, fun _ => rfl⟩
      · obtain ⟨h, hfind, htenant, hreleased⟩ := hs'
        exact ⟨⟨_, h, hfind, htenant, hreleased.departed, hreleased.deeds⟩, settled hreleased⟩
    | remove h =>
      refine (Sessions.remove_releases hK h s.enter).imp ?_
      rintro summary s' (⟨hnone, hpassed⟩ | ⟨k, hsome, hpassed⟩)
      · have hdeparted : departed s'.own = [] := hpassed.departed
        refine ⟨⟨s.enter.engine, ?_, ?_⟩, fun _ => hpassed.sweeps⟩
        · rw [hdeparted, hnone]
          rfl
        · rw [hdeparted]
          exact hpassed.deeds
      · have hdeparted : departed s'.own = [(s.enter.engine, k)] := hpassed.departed
        refine ⟨⟨s.enter.engine, ?_, ?_⟩, fun _ => hpassed.sweeps⟩
        · rw [hdeparted, hsome]
          rfl
        · rw [hdeparted]
          exact hpassed.deeds
    | removeIf id condition =>
      refine (Sessions.removeIf_releases hK id condition s.enter).imp ?_
      rintro _ s' (⟨rfl, -, rfl⟩ | ⟨summary, h, rfl, hsome, hreleased⟩)
      · exact ⟨rfl, fun _ => rfl⟩
      · exact ⟨⟨_, h, hsome, hreleased.departed, hreleased.deeds⟩, settled hreleased⟩
    | sweep limit now =>
      refine (Sweep.run_tours hK limit now s.enter rfl hs).imp ?_
      rintro (_ | summary) s' hs'
      · obtain ⟨hactive, record, rfl⟩ := hs'
        exact ⟨⟨_, record, hactive, rfl⟩, fun _ => rfl⟩
      · exact hs'
    | _ => exact absurd hr id
  · refine Proc.Assures.imp ?_ fun r s' (hs' : Settling s'.own) =>
      ⟨accounts_of_not_removes hr r hs'.departed, hs'.sweeps⟩
    by_cases hc : q.Creates
    · cases q with
      | create tenant flow version => exact (Sessions.create_settles tenant flow version .nil).proc
      | _ => exact absurd hc id
    · exact (within_of_labours Scope.staying_labours f hc hr).settles .nil trivial

end Request

end FlowEngine
