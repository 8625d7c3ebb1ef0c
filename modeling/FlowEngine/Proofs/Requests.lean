import FlowEngine.Engine.Sweep
import FlowEngine.Proofs.Effects
import FlowEngine.Proofs.Outline

/-! # Requests and their effects

A request is an operation of the engine with its arguments. The bounds of the operations are stated
from the inside out: preparing inputs, running steps, and whole requests.
-/
namespace FlowEngine

inductive Request where
  | create (tenant flow : String) (version : Option UInt32)
  | find (tenant id : String)
  | addText (tenant id input text : String)
  | add (tenant id input : String) (value : Input)
  | replace (tenant id input : String) (value : Input)
  | clear (tenant id input : String)
  | runStep (tenant id step : String) (userInput : Option String) (withRequired : Bool)
  | run (tenant id : String)
  | report (tenant id step : String)
  | render (tenant id : String) (template : Option String)
  | delete (tenant id : String)
  | remove (h : Handle)
  | removeIf (id : String) (condition : Session → Bool)
  | sweep (limit : Nat) (now : Int)

namespace Request

def Reply : Request → Type
  | .create _ _ _ | .find _ _ => Except EngineFault Handle
  | .addText _ _ _ _ | .add _ _ _ _ | .replace _ _ _ _ | .clear _ _ _ => Except EngineFault Unit
  | .runStep _ _ _ _ _ | .report _ _ _ => Except EngineFault StepReport
  | .run _ _ => Except EngineFault SessionState
  | .render _ _ _ => Except EngineFault Text.Bytes
  | .delete _ _ => Except EngineFault ReleaseSummary
  | .remove _ => ReleaseSummary
  | .removeIf _ _ => Option ReleaseSummary
  | .sweep _ _ => SweepOutcome

def proc (f : Facilities) : (q : Request) → Proc q.Reply
  | .create tenant flow version => (Sessions.create tenant flow version).run
  | .find tenant id => (Sessions.find tenant id).run
  | .addText tenant id input text => (Sessions.addText tenant id input text).run
  | .add tenant id input value => (Sessions.add f tenant id input value).run
  | .replace tenant id input value => (Sessions.replace f tenant id input value).run
  | .clear tenant id input => (Sessions.clear tenant id input).run
  | .runStep tenant id step userInput withRequired =>
    (Sessions.runStep f tenant id step userInput withRequired).run
  | .run tenant id => (Sessions.run f tenant id).run
  | .report tenant id step => (Sessions.report tenant id step).run
  | .render tenant id template => (Sessions.render f tenant id template).run
  | .delete tenant id => (Sessions.delete tenant id).run
  | .remove h => Sessions.remove h
  | .removeIf id condition => Sessions.removeIf id condition
  | .sweep limit now => Sweep.run limit now

end Request

/-- A fault of a step's own work: no conflict, and not the fault of a required step. -/
structure EngineFault.OfWork (fault : EngineFault) : Prop where
  conflict : fault.isConflict = false
  root : fault.root = fault

/-- A fault of the provider, or of having a target do its work. -/
def EngineFault.OfTarget : EngineFault → Prop
  | .provider _ | .targetNotImplemented _ | .appRunFailed _ | .appRunNotFound _
  | .appRunTimeout _ _ _ | .interrupted => True
  | _ => False

theorem EngineFault.OfTarget.ofWork {fault : EngineFault} (h : fault.OfTarget) : fault.OfWork := by
  cases fault <;> first | exact ⟨rfl, rfl⟩ | exact h.elim

/-- Bounds that leave room for deleting files of a tenant. -/
structure Scope.Deletes (B : Scope) (tenant : String) : Prop where
  log : ∀ r, B.makes (.log r)
  calls : ∀ file, B.calls (.delete tenant file)

structure Scope.Uploads (B : Scope) (tenant : String) (h : Handle) : Prop where
  log : ∀ r, B.makes (.log r)
  values : ∀ t, B.makes (.values h t)
  upload : ∀ name payload, B.calls (.upload tenant name payload)
  delete : ∀ file, B.calls (.delete tenant file)

structure Scope.Inputs (B : Scope) (tenant : String) (h : Handle) : Prop where
  log : ∀ r, B.makes (.log r)
  values : ∀ t, B.makes (.values h t)
  calls : ∀ c : ProviderCall, c.tenant = tenant → B.calls c

/-- Calls that neither make nor delete a file. -/
def ProviderCall.Fileless : ProviderCall → Prop
  | .upload _ _ _ | .delete _ _ => False
  | _ => True

/-- Bounds that leave room for asking the target of a step, and for notes of that. -/
structure Scope.Asks (B : Scope) (tenant : String) (h : Handle) (i : Nat) : Prop where
  calls : ∀ c : ProviderCall, c.Fileless → c.tenant = tenant → B.calls c
  conversation : ∀ c, B.makes (.noteConversation h i c)
  appRun : ∀ run, B.makes (.noteAppRun h i run)

structure Scope.Notes (B : Scope) (tenant : String) (h : Handle) (i : Nat) : Prop
    extends Scope.Inputs B tenant h where
  conversation : ∀ c, B.makes (.noteConversation h i c)
  appRun : ∀ run, B.makes (.noteAppRun h i run)

structure Scope.Steps (B : Scope) (tenant : String) (h : Handle) : Prop
    extends Scope.Inputs B tenant h where
  record : ∀ c i, Change.record? c = some (h, i) → B.makes c

/-- Bounds that leave room for handling the values of sessions. -/
structure Scope.Edits (B : Scope) : Prop where
  log : ∀ r, B.makes (.log r)
  values : ∀ h t, B.makes (.values h t)
  delete : ∀ tenant file, B.calls (.delete tenant file)

/-- Bounds that leave room for all that is done to sessions while they are in the store. -/
structure Scope.Labours (B : Scope) : Prop extends Scope.Edits B where
  record : ∀ c p, Change.record? c = some p → B.makes c
  run : ∀ c h, Change.run? c = some h → B.makes c
  calls : ∀ c, B.calls c

/-- Bounds that leave room for all that is done to sessions outside of runs. -/
structure Scope.Housekeeping (B : Scope) : Prop where
  log : ∀ r, B.makes (.log r)
  values : ∀ h t, B.makes (.values h t)
  withdraw : ∀ h, B.makes (.withdraw h)
  sweep : ∀ b, B.makes (.sweep b)
  delete : ∀ tenant file, B.calls (.delete tenant file)

/-- Bounds that leave room for making sessions as well, given the accepted flows. -/
structure Scope.Requests (B : Scope) (r : Registry) : Prop extends Scope.Housekeeping B where
  sees : ∀ e, B.sees e → e.registry = r
  enlist : ∀ s id tenant flow now, flow ∈ r.accepted → Session.new id tenant flow now = .ok s →
    B.makes (.enlist s)

structure Scope.Runs (B : Scope) (r : Registry) : Prop extends Scope.Requests B r where
  record : ∀ c p, Change.record? c = some p → B.makes c
  run : ∀ c h, Change.run? c = some h → B.makes c
  calls : ∀ c, B.calls c

variable {B : Scope} {r : Registry} {tenant : String} {h : Handle}

theorem Scope.Uploads.deletes (hb : B.Uploads tenant h) : B.Deletes tenant :=
  ⟨hb.log, hb.delete⟩

theorem Scope.Inputs.uploads (hb : B.Inputs tenant h) : B.Uploads tenant h :=
  ⟨hb.log, hb.values, fun _ _ => hb.calls _ rfl, fun _ => hb.calls _ rfl⟩

theorem Scope.Inputs.deletes (hb : B.Inputs tenant h) : B.Deletes tenant :=
  hb.uploads.deletes

theorem Scope.Notes.asks {i : Nat} (hb : B.Notes tenant h i) : B.Asks tenant h i :=
  ⟨fun c _ => hb.calls c, hb.conversation, hb.appRun⟩

theorem Scope.Steps.notes (hb : B.Steps tenant h) (i : Nat) : B.Notes tenant h i :=
  ⟨hb.toInputs, fun _ => hb.record _ i rfl, fun _ => hb.record _ i rfl⟩

theorem Scope.Edits.deletes (hb : B.Edits) (tenant : String) : B.Deletes tenant :=
  ⟨hb.log, hb.delete tenant⟩

theorem Scope.Labours.steps (hb : B.Labours) (tenant : String) (h : Handle) : B.Steps tenant h :=
  ⟨⟨hb.log, hb.values h, fun c _ => hb.calls c⟩, fun c _ => hb.record c _⟩

theorem Scope.Housekeeping.edits (hb : B.Housekeeping) : B.Edits :=
  ⟨hb.log, hb.values, hb.delete⟩

theorem Scope.Runs.labours (hb : B.Runs r) : B.Labours :=
  ⟨hb.edits, hb.record, hb.run, hb.calls⟩

namespace Inputs

theorem deleteFile_within (hb : B.Deletes tenant) (session file : String) :
    (deleteFile tenant session file).Within B fun _ => True := by
  simp only [deleteFile, Proc.within_bind', Proc.within_ask]
  refine ⟨hb.calls file, ?_⟩
  rintro (fault | v)
  · simp [hb.log]
  · simp

theorem deleteAll_within (hb : B.Deletes tenant) (session : String) (files : List String) :
    (files.forM fun file => do
      let _ ← deleteFile tenant session file : Proc PUnit).Within B fun _ => True := by
  induction files with
  | nil => trivial
  | cons file rest ih =>
    show Proc.Within B _ ((deleteFile tenant session file >>= fun _ => pure PUnit.unit) >>=
      fun _ => rest.forM _)
    simp only [Proc.within_bind', Proc.within_pure]
    exact (deleteFile_within hb session file).imp fun _ _ => ih

theorem resolveRedirects_within {G : EngineFault → Prop} (hb : B.Uploads tenant h) (step : Step)
    (hr : ∀ e, B.sees e → ∀ fault, (e.session h).redirects step = .error fault → G fault) :
    Attempt.Within B (fun _ => True) G (resolveRedirects h step) := by
  simp only [resolveRedirects, Attempt.within_bind, Attempt.within_lift, Proc.within_session,
    Attempt.within_ofExcept, Proc.within_change]
  exact fun e he => ⟨fun v _ => ⟨hb.values _, trivial⟩, hr e he⟩

theorem discardStale_within (hb : B.Uploads tenant h) (step : Step) :
    (discardStale tenant h step).Within B fun _ => True := by
  simp only [discardStale, Proc.within_bind', Proc.within_session, Proc.within_change]
  exact fun e _ => ⟨hb.values _, deleteAll_within hb.deletes _ _⟩

theorem uploadOne_within {G : EngineFault → Prop} (hb : B.Uploads tenant h) (value : Input)
    (hg : ∀ fault, G (.provider fault)) :
    Attempt.Within B (fun _ => True) G (uploadOne tenant h value) := by
  simp only [uploadOne, Attempt.within_bind, Attempt.within_ask, Attempt.within_lift,
    Proc.within_session, Proc.within_change]
  refine ⟨hb.upload _ _, fun file e _ => ⟨hb.values _, ?_⟩, hg⟩
  split
  · trivial
  · simp only [Attempt.within_bind, Attempt.within_lift, Attempt.within_pure]
    exact deleteFile_within hb.deletes _ _

theorem uploadAll_within {G : EngineFault → Prop} (hb : B.Uploads tenant h)
    (hg : ∀ fault, G (.provider fault)) (values : List Input) :
    Attempt.Within B (fun _ => True) G (uploadAll tenant h values) := by
  induction values with
  | nil => trivial
  | cons value rest ih =>
    exact (uploadOne_within hb value hg).bind fun _ _ => ih.bind fun _ _ => trivial

theorem uploadMissing_within {G : EngineFault → Prop} (hb : B.Uploads tenant h)
    (hg : ∀ fault, G (.provider fault)) :
    Attempt.Within B (fun _ => True) G (uploadMissing tenant h) := by
  simp only [uploadMissing, Attempt.within_bind, Attempt.within_lift, Proc.within_session]
  exact fun e _ => uploadAll_within hb hg _

theorem prepare_within {G : EngineFault → Prop} (hb : B.Uploads tenant h) (step : Step)
    (hg : ∀ fault, G (.provider fault))
    (hr : ∀ e, B.sees e → ∀ fault, (e.session h).redirects step = .error fault → G fault) :
    Attempt.Within B (fun _ => True) G (prepare tenant h step) := by
  refine (resolveRedirects_within hb step hr).bind fun _ _ => ?_
  rw [Attempt.within_bind, Attempt.within_lift]
  refine (discardStale_within hb step).imp fun _ _ => ?_
  refine (uploadMissing_within hb hg).bind fun _ _ => ?_
  simp

theorem releaseFiles_within (hb : B.Deletes tenant) (session : String) (files : List String) :
    (releaseFiles tenant session files).Within B fun _ => True := by
  induction files with
  | nil => trivial
  | cons file rest ih =>
    exact (deleteFile_within hb session file).bind fun _ _ => ih.bind fun _ _ => trivial

theorem release_within (hb : B.Deletes tenant) (session : String) (values : List Input) :
    (release tenant session values).Within B fun _ => True :=
  releaseFiles_within hb session _

end Inputs

namespace Steps

variable {o : StepOrder}

theorem execution_ofWork {s : Session} {step : String} {fault : EngineFault}
    (h : s.execution step = .error fault) : fault.OfWork := by
  rw [Session.execution] at h
  split at h <;> cases h
  exact ⟨rfl, rfl⟩

theorem redirects_fault {s : Session} {step : Step} {fault : EngineFault}
    (h : s.redirects step = .error fault) : ∃ source ∈ step.sources,
      s.execution source.text = .error fault ∨
        fault = .missingOutput step.id.text source.text := by
  rw [Session.redirects] at h
  rw [Step.sources]
  generalize step.inputs = inputs at h ⊢
  induction inputs with
  | nil => cases h
  | cons input rest ih =>
    rw [List.filterMapM_cons] at h
    cases input with
    | flowInput id =>
      rw [List.filterMap_cons_none rfl]
      exact ih (by simpa [bind, Except.bind] using h)
    | redirect source useAs =>
      have hsources : (StepInput.redirect source useAs :: rest).filterMap StepInput.source? =
          source :: rest.filterMap StepInput.source? := rfl
      rw [hsources]
      cases hx : s.execution source.text with
      | error f =>
        simp only [hx, bind, Except.bind, Except.error.injEq] at h
        exact ⟨source, List.mem_cons_self, .inl (h ▸ hx)⟩
      | ok x =>
        cases ho : x.record.output with
        | none =>
          simp only [hx, ho, bind, Except.bind, Except.error.injEq] at h
          exact ⟨source, List.mem_cons_self, .inr h.symm⟩
        | some output =>
          simp only [hx, ho, bind, Except.bind] at h
          split at h
          · next hrest =>
            obtain ⟨other, hother, hcases⟩ := ih (hrest.trans h)
            exact ⟨other, List.mem_cons_of_mem _ hother, hcases⟩
          · cases h

theorem redirects_ofWork {s : Session} {step : Step} {fault : EngineFault}
    (h : s.redirects step = .error fault) : fault.OfWork := by
  obtain ⟨source, -, hx | rfl⟩ := redirects_fault h
  · exact execution_ofWork hx
  · exact ⟨rfl, rfl⟩

theorem wait_ofTarget {w : Wait} {fault : EngineFault} (h : w.Ends (.error fault)) :
    fault.OfTarget := by
  rcases h with h | ⟨r, hr⟩ | ⟨elapsed, he⟩
  · cases h
    trivial
  · rw [Wait.ofPoll.eq_def] at hr
    split at hr <;> cases hr <;> trivial
  · rw [Wait.ofElapsed] at he
    split at he <;> cases he
    trivial

theorem askAssistant_within {x : StepExecution} (hb : B.Asks o.tenant o.session x.index)
    (inUse : InUse) : Attempt.Within B (fun _ => True) EngineFault.OfTarget
      (askAssistant o x inUse) := by
  simp only [askAssistant, Attempt.within_bind, Attempt.within_lift, Proc.within_session]
  intro e _
  split
  · simp only [Attempt.within_bind, Attempt.within_ask, Attempt.within_pure]
    exact ⟨hb.calls _ trivial rfl, fun _ => trivial, fun _ => trivial⟩
  · simp only [Attempt.within_bind, Attempt.within_ask, Attempt.within_lift, Proc.within_change]
    exact ⟨hb.calls _ trivial rfl, fun _ => ⟨hb.conversation _, trivial⟩, fun _ => trivial⟩

theorem appRun_within {x : StepExecution} (hb : B.Asks o.tenant o.session x.index) (inUse : InUse) :
    Attempt.Within B (fun _ => True) EngineFault.OfTarget (appRun o x inUse) := by
  simp only [appRun, Attempt.within_bind, Attempt.within_lift, Proc.within_session]
  intro e _
  split
  · trivial
  · simp only [Attempt.within_bind, Attempt.within_ask, Attempt.within_lift, Proc.within_change]
    exact ⟨hb.calls _ trivial rfl, fun _ => ⟨hb.appRun _, trivial⟩, fun _ => trivial⟩

theorem execute_within {x : StepExecution} (hb : B.Asks o.tenant o.session x.index)
    (d : Dispatcher) (inUse : InUse) :
    Attempt.Within B (fun _ => True) EngineFault.OfTarget (execute d o x inUse) := by
  rw [execute]
  split
  · simp only [Attempt.within_bind, Attempt.within_ask, Attempt.within_pure]
    exact ⟨hb.calls _ trivial rfl, fun _ => trivial, fun _ => trivial⟩
  · exact askAssistant_within hb inUse
  · refine (appRun_within hb inUse).bind fun run _ => ?_
    simp only [Attempt.within_bind, Attempt.within_await, Attempt.within_pure]
    exact ⟨hb.calls _ trivial rfl, fun _ _ => trivial, fun _ => wait_ofTarget⟩

theorem dispatch_fails {G : EngineFault → Prop} {x : StepExecution}
    (hb : B.Notes o.tenant o.session x.index) (d : Dispatcher)
    (hg : ∀ fault : EngineFault, fault.OfTarget → G fault)
    (hr : ∀ e, B.sees e → ∀ fault, (e.session o.session).redirects x.step = .error fault →
      G fault) : Attempt.Within B (fun _ => True) G (dispatch d o x) := by
  refine (Inputs.prepare_within hb.uploads x.step (fun _ => hg _ trivial) hr).bind
    fun inUse _ => ?_
  split
  · exact (execute_within hb.asks d inUse).mono (fun _ => id) (fun _ => id) (fun _ => id)
      (fun _ => id) hg
  · exact hg _ trivial

theorem dispatch_within {x : StepExecution} (hb : B.Notes o.tenant o.session x.index)
    (d : Dispatcher) :
    Attempt.Within B (fun _ => True) EngineFault.OfWork (dispatch d o x) :=
  dispatch_fails hb d (fun _ => EngineFault.OfTarget.ofWork) fun _ _ _ => redirects_ofWork

theorem recordFailure_within (hb : B.Steps o.tenant o.session) (x : StepExecution)
    (fault : EngineFault) : (recordFailure o x fault).Within B fun _ => True := by
  simp only [recordFailure, Proc.within_bind', Proc.within_now, Proc.within_change,
    Proc.within_session, Proc.within_log]
  exact fun now => ⟨hb.record _ _ rfl, fun e _ => ⟨hb.log _, trivial⟩⟩

theorem runAlone_fails {G : EngineFault → Prop} (hb : B.Steps o.tenant o.session)
    (d : Dispatcher) (x : StepExecution) (hg : ∀ fault : EngineFault, fault.OfTarget → G fault)
    (hrunning : G (.stepRunning x.id))
    (hr : ∀ e, B.sees e → ∀ fault, (e.session o.session).redirects x.step = .error fault →
      G fault) : Attempt.Within B (fun _ => True) G (runAlone d o x) := by
  have entered : Attempt.Within B (fun _ => True) G (enterRunning o x) := by
    simp only [enterRunning, Attempt.within_bind, Attempt.within_lift, Proc.within_now,
      Proc.within_session]
    intro now e _
    split
    · exact hrunning
    · simp only [Attempt.within_bind, Attempt.within_lift, Proc.within_change, Proc.within_log]
      exact ⟨hb.record _ _ rfl, hb.log _, trivial⟩
  refine entered.bind fun _ _ => ?_
  rw [Attempt.within_bind, Attempt.within_outcome]
  refine (dispatch_fails (hb.notes x.index) d hg hr).mono (fun _ => id) (fun _ => id)
    (fun _ => id) ?_ ?_
  · intro outcome _
    simp only [recordOutcome, Attempt.within_lift, Proc.within_bind', Proc.within_now,
      Proc.within_session, Proc.within_change, Proc.within_log, Proc.within_pure]
    exact fun now e _ => ⟨hb.record _ _ rfl, hb.log _, fun _ _ => trivial⟩
  · intro fault hfault
    simp only [Attempt.within_bind, Attempt.within_lift, Attempt.within_throw]
    exact (recordFailure_within hb x fault).imp fun _ _ => hfault

theorem runRequired_within {G : EngineFault → Prop} (hb : B.Steps o.tenant o.session)
    {run : String → Attempt StepReport} (x required : StepExecution)
    (hrun : Attempt.Within B (fun _ => True) G (run required.step.id.text))
    (hfailed : ∀ fault, G fault →
      G (.requiredStepFailed x.step.id.text required.step.id.text fault)) :
    Attempt.Within B (fun _ => True) G (runRequired run o x required) := by
  simp only [runRequired, Attempt.within_bind, Attempt.within_lift, Proc.within_session]
  intro e _
  split
  · trivial
  · simp only [Attempt.within_bind, Attempt.within_outcome]
    refine hrun.mono (fun _ => id) (fun _ => id) (fun _ => id) (fun _ _ => trivial) ?_
    intro fault hfault
    split
    · exact hfault
    · simp only [Attempt.within_bind, Attempt.within_lift, Attempt.within_throw]
      exact (recordFailure_within hb x _).imp fun _ _ => hfailed fault hfault

theorem runGuarded_succ (d : Dispatcher) (depth : Nat) (active : List String) (step : String) :
    runGuarded d o (depth + 1) active step = (do
      let s ← Proc.session o.session
      let x ← Attempt.ofExcept (s.execution step)
      if step ∈ active then throw (.cyclicDependency step)
      else if x.record.isRunning then throw (.stepRunning x.id)
      else
        (if o.withRequired then s.graph.requiredOf x else []).forM fun required =>
          runRequired (runGuarded d o depth (step :: active)) o x required
        runAlone d o x) := by
  rw [runGuarded]
  refine bind_congr fun s => bind_congr fun x => ?_
  by_cases ha : step ∈ active
  · simp only [if_pos ha]
    rfl
  · simp only [if_neg ha]
    by_cases hx : x.record.isRunning
    · simp only [if_pos hx]
      rfl
    · simp only [if_neg hx]
      cases o.withRequired <;> rfl

theorem runGuarded_within (hb : B.Steps o.tenant o.session) (d : Dispatcher) (depth : Nat)
    (active : List String) (step : String) :
    Attempt.Within B (fun _ => True) (fun _ => True) (runGuarded d o depth active step) := by
  induction depth generalizing active step with
  | zero =>
    simp only [runGuarded, Attempt.within_bind, Attempt.within_lift, Proc.within_session,
      Attempt.within_ofExcept]
    intro e _
    refine ⟨fun x _ => ?_, fun _ _ => trivial⟩
    split
    · trivial
    · split <;> trivial
  | succ depth ih =>
    simp only [runGuarded_succ, Attempt.within_bind, Attempt.within_lift, Proc.within_session,
      Attempt.within_ofExcept]
    intro e _
    refine ⟨fun x _ => ?_, fun _ _ => trivial⟩
    split
    · trivial
    · split
      · trivial
      · have required := Attempt.within_forM (l := if o.withRequired then
          (e.session o.session).graph.requiredOf x else [])
          fun y _ => runRequired_within hb x y (ih (step :: active) _) fun _ => id
        exact required.bind fun _ _ => runAlone_fails hb d x (fun _ _ => trivial) trivial
          fun _ _ _ _ => trivial

theorem runStep_within (hb : B.Steps o.tenant o.session) (d : Dispatcher) (step : String) :
    Attempt.Within B (fun _ => True) (fun _ => True) (Steps.runStep d o step) := by
  simp only [Steps.runStep, Attempt.within_bind, Attempt.within_lift, Proc.within_session]
  exact fun e _ => runGuarded_within hb d _ _ step

end Steps

namespace Sessions

@[simp] theorem within_find {V : Handle → Prop} {G : EngineFault → Prop} {tenant id : String} :
    Attempt.Within B V G (find tenant id) ↔ ∀ e, B.sees e →
      (∀ h, (e.find? id).filter (fun h => (e.session h).tenant == tenant) = some h → V h) ∧
      ((e.find? id).filter (fun h => (e.session h).tenant == tenant) = none →
        G (.unknownSession id)) := by
  simp only [find, Attempt.within_bind, Attempt.within_lift, Proc.within_engine]
  refine forall_congr' fun e => imp_congr_right fun _ => ?_
  split
  · next h hh => simp [hh]
  · next hh => simp [hh]

theorem load_accepted {r : Registry} {id : String} {version : Option UInt32} {flow : Flow}
    (h : r.load id version = .ok flow) : flow ∈ r.accepted := by
  have held : ∀ {versions v}, r.flows.lookup id = some versions → (v, flow) ∈ versions →
      flow ∈ r.accepted := fun hl hf =>
    List.mem_flatMap.mpr ⟨_, Table.mem_of_lookup hl, List.mem_map.mpr ⟨_, hf, rfl⟩⟩
  rw [Registry.load.eq_def] at h
  dsimp only at h
  split at h
  · next f hf =>
    cases h
    cases version with
    | some v =>
      obtain ⟨versions, hl, hf⟩ := Option.bind_eq_some_iff.mp hf
      exact held hl (Table.mem_of_lookup hf)
    | none =>
      obtain ⟨versions, hl, hf⟩ := Option.bind_eq_some_iff.mp hf
      obtain ⟨e, he, hf⟩ := Option.bind_eq_some_iff.mp hf
      cases hf
      exact held hl (List.mem_of_getLast? he)
  · cases h

theorem createWith_within (hb : B.Requests r) (tenant : String) {flow : Flow}
    (hf : flow ∈ r.accepted) (now : Int) (attempts : Nat) :
    Attempt.Within B (fun _ => True) (fun _ => True) (createWith tenant flow now attempts) := by
  induction attempts with
  | zero => trivial
  | succ attempts ih =>
    simp only [createWith, Attempt.within_bind, Attempt.within_lift, Proc.within_word]
    intro word
    split
    · trivial
    · next id hid =>
      simp only [Attempt.within_bind, Attempt.within_ofExcept, Attempt.within_lift,
        Proc.within_engine]
      refine ⟨fun s hs e _ => ?_, fun _ _ => trivial⟩
      split
      · exact ih
      · simp only [Attempt.within_bind, Attempt.within_lift, Proc.within_change, Proc.within_log]
        exact ⟨hb.enlist s id tenant flow now hf hs, hb.log _, trivial⟩

theorem create_within (hb : B.Requests r) (tenant flow : String) (version : Option UInt32) :
    Attempt.Within B (fun _ => True) (fun _ => True) (create tenant flow version) := by
  simp only [create, Attempt.within_bind, Attempt.within_lift, Proc.within_engine]
  intro e he
  split
  · trivial
  · next flow hf =>
    simp only [Attempt.within_bind, Attempt.within_lift, Proc.within_now]
    exact fun now => createWith_within hb tenant (hb.sees e he ▸ load_accepted hf) now _

theorem changeInputs_within (hb : B.Edits) (tenant id : String)
    (change : Session → Except EngineFault (List Input × Session)) :
    Attempt.Within B (fun _ => True) (fun _ => True) (changeInputs tenant id change) := by
  simp only [changeInputs, Attempt.within_bind, within_find, Attempt.within_lift,
    Proc.within_session, Attempt.within_ofExcept, Proc.within_change]
  refine fun e _ => ⟨fun h _ e _ => ⟨fun v _ => ⟨hb.values h _, ?_⟩, fun _ _ => trivial⟩,
    fun _ => trivial⟩
  split
  · simp only [Attempt.within_bind, Attempt.within_lift]
    exact Inputs.release_within (hb.deletes _) _ _
  · trivial

theorem report_within (tenant id step : String) :
    Attempt.Within B (fun _ => True) (fun _ => True) (report tenant id step) := by
  simp [report]

theorem render_within (f : Facilities) (tenant id : String) (template : Option String) :
    Attempt.Within B (fun _ => True) (fun _ => True) (render f tenant id template) := by
  simp only [render, Attempt.within_bind, within_find, Attempt.within_lift, Proc.within_session]
  refine fun e _ => ⟨fun h _ e _ => ?_, fun _ => trivial⟩
  split
  · trivial
  · split
    · trivial
    · split <;> trivial

theorem releaseRemoved_within (hb : ∀ e, B.sees e → B.Deletes (e.session h).tenant) :
    (releaseRemoved h).Within B fun _ => True := by
  simp only [releaseRemoved, Inputs.releaseSession, Proc.within_bind', Proc.within_session,
    Proc.within_log, Proc.within_pure]
  intro e he
  exact (Inputs.release_within (hb e he) _ _).imp fun _ _ _ _ => ⟨(hb e he).log _, trivial⟩

theorem remove_within (hb : ∀ e, B.sees e → B.Deletes (e.session h).tenant)
    (hw : ∀ k, B.makes (.withdraw k)) : (remove h).Within B fun _ => True := by
  simp only [remove, Proc.within_bind', Proc.within_engine]
  intro e _
  split
  · exact releaseRemoved_within hb
  · simp only [Proc.within_bind', Proc.within_change]
    exact ⟨hw _, releaseRemoved_within hb⟩

theorem removeIf_within (hb : B.Housekeeping) (id : String) (condition : Session → Bool) :
    (removeIf id condition).Within B fun _ => True := by
  simp only [removeIf, Proc.within_bind', Proc.within_engine]
  intro e _
  split
  · trivial
  · simp only [Proc.within_bind', Proc.within_change, Proc.within_pure]
    exact ⟨hb.withdraw _, releaseRemoved_within fun _ _ => hb.edits.deletes _⟩

theorem delete_within (hb : B.Housekeeping) (tenant id : String) :
    Attempt.Within B (fun _ => True) (fun _ => True) (delete tenant id) := by
  simp only [delete, Attempt.within_bind, within_find, Attempt.within_lift]
  intro e _
  exact ⟨fun h _ => remove_within (fun _ _ => hb.edits.deletes _) hb.withdraw, fun _ => trivial⟩

theorem runStep_within (hb : ∀ tenant h, B.Steps tenant h) (f : Facilities)
    (tenant id step : String) (userInput : Option String) (withRequired : Bool) :
    Attempt.Within B (fun _ => True) (fun _ => True)
      (runStep f tenant id step userInput withRequired) := by
  simp only [runStep, runStepBy, Attempt.within_bind, within_find, Attempt.within_lift,
    Proc.within_session, Attempt.within_ofExcept]
  refine fun e _ => ⟨fun h _ e _ => ⟨fun x _ => ?_, fun _ _ => trivial⟩, fun _ => trivial⟩
  split
  · trivial
  · split
    · trivial
    · exact Steps.runStep_within (o := ⟨tenant, h, userInput, withRequired⟩) (hb _ h) _ _

theorem runAllSteps_within (hb : B.Steps tenant h) (f : Facilities) (generation : Nat) :
    Attempt.Within B (fun _ => True) (fun _ => True)
      (runAllSteps (stepOfRun f tenant h) tenant h generation) := by
  refine (Inputs.uploadMissing_within hb.uploads fun _ => trivial).bind fun _ _ => ?_
  simp only [Attempt.within_bind, Attempt.within_lift, Proc.within_session]
  intro e _
  refine Attempt.within_forM fun x _ => ?_
  simp only [runInTurn, Attempt.within_bind, Attempt.within_lift, Proc.within_session]
  intro e _
  split
  · trivial
  · simp only [Attempt.within_bind, Attempt.within_pure]
    exact Steps.runStep_within (o := ⟨tenant, h, none, true⟩) hb _ _

theorem run_within (hb : B.Labours) (f : Facilities) (tenant id : String) :
    Attempt.Within B (fun _ => True) (fun _ => True) (run f tenant id) := by
  simp only [run, runBy, Attempt.within_bind, within_find, Attempt.within_lift, Proc.within_session,
    Attempt.within_ofExcept, Proc.within_change, Proc.within_log, Attempt.within_outcome]
  refine fun e _ => ⟨fun h _ e _ => ⟨fun _ _ => ⟨hb.run _ _ rfl, hb.log _, ?_⟩, fun _ _ => trivial⟩,
    fun _ => trivial⟩
  refine (runAllSteps_within (hb.steps tenant h) f _).mono (fun _ h => h) (fun _ h => h)
    (fun _ h => h) ?_ ?_
  · exact fun _ _ => ⟨hb.run _ _ rfl, hb.log _, trivial⟩
  · exact fun _ _ => ⟨hb.run _ _ rfl, hb.log _, trivial⟩

end Sessions

namespace Sweep

theorem visitAll_within (hb : B.Housekeeping) (limit : Nat) (now : Int) (started : Nat)
    (summary : SweepSummary) (handles : List Handle) :
    (visitAll limit now started summary handles).Within B fun _ => True := by
  induction handles generalizing summary with
  | nil => trivial
  | cons h rest ih =>
    simp only [visitAll, Proc.within_bind', Proc.within_stopwatch]
    intro t
    split
    · trivial
    · simp only [visit, Proc.within_bind', Proc.within_session]
      intro e _
      refine (Sessions.removeIf_within hb _ _).imp fun release _ => ?_
      split
      · exact ih _
      · simp only [Proc.within_bind', Proc.within_session, Proc.within_log, Proc.within_pure]
        exact fun e _ => ⟨hb.log _, ih _⟩

theorem run_within (hb : B.Housekeeping) (limit : Nat) (now : Int) :
    (run limit now).Within B fun _ => True := by
  simp only [run, Proc.within_bind', Proc.within_engine]
  intro e _
  split
  · simp [hb.log]
  · simp only [Proc.within_bind', Proc.within_change, Proc.within_stopwatch, Proc.within_listed,
      Proc.within_log, Proc.within_pure]
    exact ⟨hb.sweep _, fun t listed => (visitAll_within hb limit now t _ _).imp fun _ _ =>
      ⟨hb.log _, hb.sweep _, trivial⟩⟩

end Sweep

namespace Request

def Runs : Request → Prop
  | .runStep _ _ _ _ _ | .run _ _ => True
  | _ => False

def Creates : Request → Prop
  | .create _ _ _ => True
  | _ => False

def Removes : Request → Prop
  | .delete _ _ | .remove _ | .removeIf _ _ | .sweep _ _ => True
  | _ => False

theorem within_of_edits (hb : B.Edits) (f : Facilities) {q : Request} (hq : ¬ q.Runs)
    (hc : ¬ q.Creates) (hr : ¬ q.Removes) : (q.proc f).Within B fun _ => True := by
  cases q with
  | create => exact absurd trivial hc
  | find tenant id =>
    have found : Attempt.Within B (fun _ => True) (fun _ => True) (Sessions.find tenant id) := by
      simp
    exact found.proc
  | addText => exact (Sessions.changeInputs_within hb _ _ _).proc
  | add => exact (Sessions.changeInputs_within hb _ _ _).proc
  | replace => exact (Sessions.changeInputs_within hb _ _ _).proc
  | clear => exact (Sessions.changeInputs_within hb _ _ _).proc
  | runStep => exact absurd trivial hq
  | run => exact absurd trivial hq
  | report tenant id step => exact (Sessions.report_within tenant id step).proc
  | render tenant id template => exact (Sessions.render_within f tenant id template).proc
  | delete | remove | removeIf | sweep => exact absurd trivial hr

theorem within_of_housekeeping (hb : B.Housekeeping) (f : Facilities) {q : Request} (hq : ¬ q.Runs)
    (hc : ¬ q.Creates) : (q.proc f).Within B fun _ => True := by
  by_cases hr : q.Removes
  · cases q with
    | delete tenant id => exact (Sessions.delete_within hb tenant id).proc
    | remove h => exact Sessions.remove_within (fun _ _ => hb.edits.deletes _) hb.withdraw
    | removeIf id condition => exact Sessions.removeIf_within hb id condition
    | sweep limit now => exact Sweep.run_within hb limit now
    | _ => exact absurd hr id
  · exact within_of_edits hb.edits f hq hc hr

theorem within_of_runs (hb : B.Labours) (f : Facilities) {q : Request} (hq : q.Runs) :
    (q.proc f).Within B fun _ => True := by
  cases q with
  | runStep => exact (Sessions.runStep_within hb.steps f _ _ _ _ _).proc
  | run => exact (Sessions.run_within hb f _ _).proc
  | _ => exact absurd hq id

theorem within_of_labours (hb : B.Labours) (f : Facilities) {q : Request} (hc : ¬ q.Creates)
    (hr : ¬ q.Removes) : (q.proc f).Within B fun _ => True := by
  by_cases hq : q.Runs
  · exact within_of_runs hb f hq
  · exact within_of_edits hb.toEdits f hq hc hr

theorem within_of_not_runs (hb : B.Requests r) (f : Facilities) {q : Request} (hq : ¬ q.Runs) :
    (q.proc f).Within B fun _ => True := by
  by_cases hc : q.Creates
  · cases q with
    | create tenant flow version => exact (Sessions.create_within hb tenant flow version).proc
    | _ => exact absurd hc id
  · exact within_of_housekeeping hb.toHousekeeping f hq hc

theorem within (hb : B.Runs r) (f : Facilities) (q : Request) :
    (q.proc f).Within B fun _ => True := by
  by_cases hq : q.Runs
  · exact within_of_runs hb.labours f hq
  · exact within_of_not_runs hb.toRequests f hq

end Request

end FlowEngine
