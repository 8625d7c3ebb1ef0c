import FlowEngine.Proofs.Rearrangement
import FlowEngine.Proofs.Requests

/-! # Twin operations

Engines are alike if their sessions are, pair by pair, and all else in them is the same. Operations
in engines that are alike are paired: they look at the engine at the same points and leave it alike,
make the same calls in the same order, and end in the same way. Nothing is assumed of what happens
to the engines in between, but that they stay alike.
-/
namespace FlowEngine

/-- Flows that are accepted and differ in the order of their declarations only. -/
structure Flow.Twin (f f' : Flow) : Prop where
  rearranged : f.Rearranged f'
  valid : f.validate = .ok ()
  valid' : f'.validate = .ok ()

/-- Tables with the same keys and related values. -/
def Table.Matches {κ α β : Type} (R : α → β → Prop) (t : Table κ α) (t' : Table κ β) : Prop :=
  List.Forall₂ (fun a b => a.1 = b.1 ∧ R a.2 b.2) t t'

/-- Registries of which each has the twins of the flows of the other. -/
def Registry.Twin (r r' : Registry) : Prop :=
  Table.Matches (Table.Matches Flow.Twin) r.flows r'.flows

structure Engine.Alike (e e' : Engine) : Prop where
  registry : e.registry.Twin e'.registry
  length : e.sessions.length = e'.sessions.length
  sessions : ∀ h, (e.session h).Alike (e'.session h)
  stored : e.stored = e'.stored
  sweeping : e.sweeping = e'.sweeping
  stopping : e.stopping = e'.stopping
  logging : e.logging = e'.logging
  journal : e.journal = e'.journal

/-- The nodes of a step that are looked at in the two engines. -/
structure Engine.Located (e e' : Engine) (h : Handle) (x x' : StepExecution) : Prop where
  left : e.stepAt (h, x.index) = some x.step
  right : e'.stepAt (h, x'.index) = some x'.step
  session : x.session = x'.session
  step : x.step = x'.step

namespace Engine

variable {e e' d d' : Engine} {h : Handle} {x x' : StepExecution}

theorem Located.id (hl : Located e e' h x x') : x.id = x'.id := by
  rw [StepExecution.id, StepExecution.id, hl.session, hl.step]

/-- What becomes of two engines that stay alike. -/
structure Later (e e' d d' : Engine) : Prop where
  alike : d.Alike d'
  evolves : e.Evolves d
  evolves' : e'.Evolves d'

theorem Later.refl (ha : e.Alike e') : Later e e' e e' :=
  ⟨ha, .refl e, .refl e'⟩

theorem Later.trans {b b' : Engine} (h : Later e e' d d') (h' : Later d d' b b') :
    Later e e' b b' :=
  ⟨h'.alike, h.evolves.trans h'.evolves, h.evolves'.trans h'.evolves'⟩

theorem Later.apply {c c' : Change} (h : (c.apply e).Alike (c'.apply e')) :
    Later e e' (c.apply e) (c'.apply e') :=
  ⟨h, Change.evolves_apply c e, Change.evolves_apply c' e'⟩

theorem Located.later (hx : Located e e' h x x') (hl : Later e e' d d') : Located d d' h x x' :=
  ⟨hl.evolves.stepAt hx.left, hl.evolves'.stepAt hx.right, hx.session, hx.step⟩

theorem stepAt_eq_some {step : Step} {i : Nat} (hs : e.stepAt (h, i) = some step) :
    ∃ z, (e.session h).graph.nodes[i]? = some z ∧ z.step = step :=
  Option.map_eq_some_iff.mp hs

namespace Alike

theorem find? (ha : e.Alike e') (id : String) : e.find? id = e'.find? id := by
  rw [Engine.find?, Engine.find?, ha.stored]
  congr 1
  funext k
  rw [(ha.sessions k).id]

theorem located (ha : e.Alike e') (hx : x ∈ (e.session h).graph.nodes)
    (hx' : x' ∈ (e'.session h).graph.nodes)
    (hface : (e.session h).graph.face x = (e'.session h).graph.face x') :
    Located e e' h x x' := by
  have hs := ha.sessions h
  refine ⟨?_, ?_, congrArg StepFace.session hface, congrArg StepFace.step hface⟩
  · rw [stepAt, hs.laid.laid.node_at hx]
    rfl
  · rw [stepAt, hs.laid'.laid.node_at hx']
    rfl

theorem nodes (ha : e.Alike e') (hl : Located e e' h x x') :
    ∃ z z', (e.session h).graph.nodes[x.index]? = some z ∧
      (e'.session h).graph.nodes[x'.index]? = some z' ∧ z.step = x.step ∧ z'.step = x'.step ∧
      (e.session h).graph.face z = (e'.session h).graph.face z' := by
  obtain ⟨z, hz, hstep⟩ := stepAt_eq_some hl.left
  obtain ⟨z', hz', hstep'⟩ := stepAt_eq_some hl.right
  refine ⟨z, z', hz, hz', hstep, hstep', ?_⟩
  refine (ha.sessions h).face_eq (List.mem_of_getElem? hz) (List.mem_of_getElem? hz') ?_
  rw [hstep, hstep', hl.step]

theorem bind_record (ha : e.Alike e') (hl : Located e e' h x x') {β : Type}
    (part : StepRecord → Option β) :
    (((e.session h).graph.nodes[x.index]?).bind fun z => part z.record) =
      ((e'.session h).graph.nodes[x'.index]?).bind fun z => part z.record := by
  obtain ⟨z, z', hz, hz', -, -, hface⟩ := ha.nodes hl
  have hrecord : z.record = z'.record := congrArg StepFace.record hface
  rw [hz, hz', Option.bind_some, Option.bind_some, hrecord]

theorem any_record (ha : e.Alike e') (hl : Located e e' h x x') (p : StepRecord → Bool) :
    (((e.session h).graph.nodes[x.index]?).any fun z => p z.record) =
      ((e'.session h).graph.nodes[x'.index]?).any fun z => p z.record := by
  obtain ⟨z, z', hz, hz', -, -, hface⟩ := ha.nodes hl
  have hrecord : z.record = z'.record := congrArg StepFace.record hface
  rw [hz, hz', Option.any_some, Option.any_some, hrecord]

theorem report (ha : e.Alike e') (hl : Located e e' h x x') :
    (((e.session h).graph.nodes[x.index]?).getD x).report =
      (((e'.session h).graph.nodes[x'.index]?).getD x').report := by
  obtain ⟨z, z', hz, hz', -, -, hface⟩ := ha.nodes hl
  rw [hz, hz', Option.getD_some, Option.getD_some]
  exact StepGraph.report_of_face hface

/-! ### Changes -/

theorem modifySession (ha : e.Alike e') {f f' : Session → Session}
    (hf : (f (e.session h)).Alike (f' (e'.session h))) :
    (e.modifySession h f).Alike (e'.modifySession h f') := by
  refine { ha with length := ?_, sessions := fun k => ?_ }
  · simp only [Engine.modifySession, List.length_modify, ha.length]
  · rw [session_modifySession, session_modifySession, ← ha.length]
    by_cases hk : k = h ∧ k < e.sessions.length
    · rw [if_pos hk, if_pos hk, hk.1]
      exact hf
    · rw [if_neg hk, if_neg hk]
      exact ha.sessions k

theorem values (ha : e.Alike e') {t t' : Session} (ht : t.held = t'.held) :
    ((Change.values h t).apply e).Alike ((Change.values h t').apply e') :=
  ha.modifySession ((ha.sessions h).withValues ht)

theorem record (ha : e.Alike e') (hl : Located e e' h x x') (c c' : Change)
    (hc : c.record? = some (h, x.index)) (hc' : c'.record? = some (h, x'.index))
    (hsame : c.onRecord = c'.onRecord) : (c.apply e).Alike (c'.apply e') := by
  have happly : ∀ {c : Change} {i : Nat} (e : Engine), c.record? = some (h, i) →
      c.apply e = e.modifyRecord h i (c.onRecord (e.session h).generation) := by
    intro c i e hc
    cases c <;> cases hc <;> rfl
  obtain ⟨z, z', hz, hz', hstep, hstep', -⟩ := ha.nodes hl
  have hid : z.step.id = z'.step.id := by rw [hstep, hstep', hl.step]
  rw [happly e hc, happly e' hc', hsame, (ha.sessions h).generation]
  exact ha.modifySession ((ha.sessions h).modifyRecord hz hz' hid _)

theorem log (ha : e.Alike e') (r : LogRecord) :
    ((Change.log r).apply e).Alike ((Change.log r).apply e') := by
  have hjournal : r :: e.journal = r :: e'.journal := congrArg _ ha.journal
  rw [Change.apply, Change.apply, Engine.log, Engine.log, ← ha.logging]
  split
  · exact { ha with logging := rfl, journal := hjournal }
  · exact ha

theorem withdraw (ha : e.Alike e') (k : Handle) :
    ((Change.withdraw k).apply e).Alike ((Change.withdraw k).apply e') :=
  { ha with stored := congrArg (List.filter fun other => other ≠ k) ha.stored }

theorem sweep (ha : e.Alike e') (b : Bool) :
    ((Change.sweep b).apply e).Alike ((Change.sweep b).apply e') :=
  { ha with sweeping := rfl }

theorem enlist (ha : e.Alike e') {s s' : Session} (hs : s.Alike s') :
    ((Change.enlist s).apply e).Alike ((Change.enlist s').apply e') := by
  have hadded : (e.addSession s).Alike (e'.addSession s') := by
    refine { ha with length := ?_, sessions := fun k => ?_ }
    · simp only [addSession, List.length_append, List.length_cons, ha.length]
    · rw [session_addSession, session_addSession, nextHandle, nextHandle, ← ha.length]
      split
      · exact hs
      · exact ha.sessions k
  have hnext : e.nextHandle = e'.nextHandle := ha.length
  have hfound := hadded.find? ((e.addSession s).session e.nextHandle).id
  rw [Change.apply, Change.apply, store, store, hfound, (hadded.sessions e.nextHandle).id, hnext]
  split
  · exact hadded
  · exact { hadded with stored := congrArg (fun stored => stored ++ [e'.nextHandle]) hadded.stored }

theorem startRun (ha : e.Alike e') (k : Handle) :
    ((Change.startRun k).apply e).Alike ((Change.startRun k).apply e') :=
  ha.modifySession (ha.sessions k).started

theorem finishRun (ha : e.Alike e') (k : Handle) :
    ((Change.finishRun k).apply e).Alike ((Change.finishRun k).apply e') :=
  ha.modifySession ((ha.sessions k).inState .finished)

theorem failRun (ha : e.Alike e') (k : Handle) :
    ((Change.failRun k).apply e).Alike ((Change.failRun k).apply e') :=
  ha.modifySession ((ha.sessions k).inState .error)

theorem removeIf (ha : e.Alike e') (id : String) {condition : Session → Bool}
    (hc : ∀ s s', s.Alike s' → condition s = condition s') :
    (e.removeIf id condition).1 = (e'.removeIf id condition).1 := by
  rw [Engine.removeIf, Engine.removeIf, ha.find?]
  cases e'.find? id with
  | none => rfl
  | some k =>
    simp only [hc _ _ (ha.sessions k)]
    split <;> rfl

theorem located_all (ha : e.Alike e') {l l' : List StepExecution}
    (hl : ∀ x ∈ l, x ∈ (e.session h).graph.nodes) (hl' : ∀ x ∈ l', x ∈ (e'.session h).graph.nodes)
    (hids : l.map (fun x => x.step.id) = l'.map fun x => x.step.id) :
    List.Forall₂ (Located e e' h) l l' := by
  induction l generalizing l' with
  | nil =>
    obtain rfl : l' = [] := List.map_eq_nil_iff.mp hids.symm
    exact .nil
  | cons x rest ih =>
    cases l' with
    | nil => cases hids
    | cons x' rest' =>
      obtain ⟨hid, hrest⟩ := List.cons.inj hids
      have hx := hl x List.mem_cons_self
      have hx' := hl' x' List.mem_cons_self
      refine .cons (ha.located hx hx' ((ha.sessions h).face_eq hx hx' hid)) ?_
      exact ih (fun y hy => hl y (List.mem_cons_of_mem _ hy))
        (fun y hy => hl' y (List.mem_cons_of_mem _ hy)) hrest

end Alike

end Engine

open Engine (Alike Located Later)

/-- From here two operations, each in its own engine, go on in the same way: they make changes after
which the engines are alike, and calls that are the same, whatever becomes of the engines in the
meantime and whatever the calls bring. -/
inductive Proc.Paired {α : Type} : Engine → Engine → Proc α → Proc α → Prop where
  | done {e e'} (v : α) : Paired e e' (.done v) (.done v)
  | observe {e e' next next'} : Paired e e' (next e) (next' e') →
      Paired e e' (.observe next) (.observe next')
  | update {e e' c c' next next'} : (Change.apply e c).Alike (Change.apply e' c') →
      Paired (c.apply e) (c'.apply e') next next' → Paired e e' (.update c next) (.update c' next')
  | clock {e e' next next'} : (∀ t, Paired e e' (next t) (next' t)) →
      Paired e e' (.clock next) (.clock next')
  | instant {e e' next next'} : (∀ t, Paired e e' (next t) (next' t)) →
      Paired e e' (.instant next) (.instant next')
  | sample {e e' next next'} : (∀ w, Paired e e' (next w) (next' w)) →
      Paired e e' (.sample next) (.sample next')
  | listing {e e' next next'} : (∀ l, Paired e e' (next l) (next' l)) →
      Paired e e' (.listing next) (.listing next')
  | call {e e' c next next'} : (∀ r d d', Later e e' d d' → Paired d d' (next r) (next' r)) →
      Paired e e' (.call c next) (.call c next')
  | await {e e' w next next'} : (∀ v d d', Later e e' d d' → Paired d d' (next v) (next' v)) →
      Paired e e' (.await w next) (.await w next')

namespace Proc

variable {α β : Type} {e e' : Engine}

theorem Paired.bind {p p' : Proc α} {f f' : α → Proc β} (h : Paired e e' p p') (ha : e.Alike e')
    (hf : ∀ v d d', Later e e' d d' → Paired d d' (f v) (f' v)) :
    Paired e e' (p >>= f) (p' >>= f') := by
  induction h with
  | done v => exact hf v _ _ (.refl ha)
  | observe _ ih => exact .observe (ih ha hf)
  | update hc _ ih => exact .update hc (ih hc fun v d d' hl => hf v d d' (.trans (.apply hc) hl))
  | clock _ ih => exact .clock fun t => ih t ha hf
  | instant _ ih => exact .instant fun t => ih t ha hf
  | sample _ ih => exact .sample fun w => ih w ha hf
  | listing _ ih => exact .listing fun l => ih l ha hf
  | call _ ih =>
    exact .call fun r d d' hl => ih r d d' hl hl.alike fun v b b' hb => hf v b b' (hl.trans hb)
  | await _ ih =>
    exact .await fun v d d' hl => ih v d d' hl hl.alike fun v b b' hb => hf v b b' (hl.trans hb)

theorem paired_ask (c : ProviderCall) : Paired e e' (ask c) (ask c) :=
  .call fun r _ _ _ => .done r

theorem paired_now : Paired e e' now now := .clock .done

theorem paired_stopwatch : Paired e e' stopwatch stopwatch := .instant .done

theorem paired_word : Paired e e' word word := .sample .done

theorem paired_listed : Paired e e' listed listed := .listing .done

theorem paired_change {c c' : Change} (h : (c.apply e).Alike (c'.apply e')) :
    Paired e e' (change c) (change c') :=
  .update h (.done ())

theorem paired_log (ha : e.Alike e') (level event message : String) :
    Paired e e' (log level event message) (log level event message) :=
  paired_change (ha.log _)

theorem paired_session {h : Handle} {f f' : Session → Proc α}
    (hf : Paired e e' (f (e.session h)) (f' (e'.session h))) :
    Paired e e' (session h >>= f) (session h >>= f') :=
  .observe hf

theorem paired_engine {f f' : Engine → Proc α} (hf : Paired e e' (f e) (f' e')) :
    Paired e e' (engine >>= f) (engine >>= f') :=
  .observe hf

theorem paired_forM {γ : Type} (ha : e.Alike e') {f : γ → Proc PUnit} (l : List γ)
    (hf : ∀ x d d', d.Alike d' → Paired d d' (f x) (f x)) :
    Paired e e' (l.forM f) (l.forM f) := by
  induction l generalizing e e' with
  | nil => exact .done _
  | cons x rest ih => exact (hf x e e' ha).bind ha fun _ d d' hl => ih hl.alike

end Proc

namespace Attempt

variable {α β : Type} {e e' : Engine}

def Paired (e e' : Engine) (a a' : Attempt α) : Prop := Proc.Paired e e' a.run a'.run

theorem Paired.bind {a a' : Attempt α} {f f' : α → Attempt β} (h : Paired e e' a a')
    (ha : e.Alike e') (hf : ∀ v d d', Later e e' d d' → Paired d d' (f v) (f' v)) :
    Paired e e' (a >>= f) (a' >>= f') := by
  refine Proc.Paired.bind h ha ?_
  rintro (fault | v) d d' hl
  · exact .done _
  · exact hf v d d' hl

theorem paired_pure (v : α) : Paired e e' (pure v) (pure v) := Proc.Paired.done _

theorem paired_throw (fault : EngineFault) :
    Paired e e' (throw fault : Attempt α) (throw fault) :=
  Proc.Paired.done _

theorem paired_ofExcept (r : Except EngineFault α) : Paired e e' (ofExcept r) (ofExcept r) := by
  cases r <;> exact Proc.Paired.done _

theorem paired_lift (ha : e.Alike e') {p p' : Proc α} (h : Proc.Paired e e' p p') :
    Paired e e' (monadLift p) (monadLift p') :=
  h.bind ha fun _ _ _ _ => .done _

theorem paired_outcome (ha : e.Alike e') {a a' : Attempt α} (h : Paired e e' a a') :
    Paired e e' a.outcome a'.outcome :=
  Proc.Paired.bind h ha fun _ _ _ _ => .done _

theorem paired_ask (ha : e.Alike e') (c : ProviderCall) : Paired e e' (ask c) (ask c) := by
  refine (paired_lift ha (Proc.paired_ask c)).bind ha fun r d d' _ => ?_
  cases r <;> exact Proc.Paired.done _

theorem paired_await (w : Wait) : Paired e e' (await w) (await w) :=
  Proc.Paired.await fun v _ _ _ => .done v

theorem paired_session {h : Handle} {f f' : Session → Attempt α}
    (hf : Paired e e' (f (e.session h)) (f' (e'.session h))) :
    Paired e e' ((Proc.session h : Attempt Session) >>= f)
      ((Proc.session h : Attempt Session) >>= f') :=
  Proc.Paired.observe hf

theorem paired_engine {f f' : Engine → Attempt α} (hf : Paired e e' (f e) (f' e')) :
    Paired e e' ((Proc.engine : Attempt Engine) >>= f) ((Proc.engine : Attempt Engine) >>= f') :=
  Proc.Paired.observe hf

theorem paired_forM {h : Handle} {f f' : StepExecution → Attempt PUnit}
    {l l' : List StepExecution} (hl : List.Forall₂ (Located e e' h) l l')
    (hf : ∀ x x' d d', Later e e' d d' → Located d d' h x x' → Paired d d' (f x) (f' x'))
    {d d' : Engine} (hd : Later e e' d d') : Paired d d' (l.forM f) (l'.forM f') := by
  induction hl generalizing d d' with
  | nil => exact Proc.Paired.done _
  | cons hx _ ih =>
    exact (hf _ _ d d' hd (hx.later hd)).bind hd.alike fun _ b b' hb => ih (hd.trans hb)

end Attempt

end FlowEngine
