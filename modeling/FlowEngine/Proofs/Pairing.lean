import FlowEngine.Proofs.Twins

/-! # Requests are paired

Each operation, in one engine and in an engine that is alike, goes on in the same way. The lemmas
follow the operations from the inside out. A step is given by its node, which is at another position
in the other engine.
-/
namespace FlowEngine

open Engine (Alike Located Later)

variable {e e' : Engine} {h : Handle} {x x' : StepExecution}

namespace Inputs

open Attempt

theorem deleteFile_paired (ha : e.Alike e') (tenant session file : String) :
    Proc.Paired e e' (deleteFile tenant session file) (deleteFile tenant session file) := by
  refine (Proc.paired_ask _).bind ha fun r d d' hl => ?_
  cases r with
  | ok _ => exact .done true
  | error fault =>
    exact (Proc.paired_log hl.alike _ _ _).bind hl.alike fun _ _ _ _ => .done false

theorem resolveRedirects_paired (ha : e.Alike e') (step : Step) :
    Paired e e' (resolveRedirects h step) (resolveRedirects h step) := by
  refine paired_session ?_
  rw [(ha.sessions h).redirects]
  refine (paired_ofExcept _).bind ha fun values d d' hl => ?_
  have hheld := (ha.sessions h).addAllRedirected values
  exact paired_lift hl.alike (Proc.paired_change (hl.alike.values hheld))

theorem discardStale_paired (ha : e.Alike e') (tenant : String) (step : Step) :
    Proc.Paired e e' (discardStale tenant h step) (discardStale tenant h step) := by
  refine Proc.paired_session ?_
  obtain ⟨htaken, hheld⟩ := (ha.sessions h).takeUploadedRedirected
    (step.sources.map Identifier.text).eraseDups
  refine (Proc.paired_change (ha.values hheld)).bind ha fun _ d d' hl => ?_
  rw [htaken, (ha.sessions h).id]
  refine Proc.paired_forM hl.alike _ fun file b b' hb => ?_
  exact (deleteFile_paired hb _ _ file).bind hb fun _ _ _ _ => .done _

theorem uploadOne_paired (ha : e.Alike e') (tenant : String) (value : Input) :
    Paired e e' (uploadOne tenant h value) (uploadOne tenant h value) := by
  refine (paired_ask ha _).bind ha fun file d d' hl => paired_session ?_
  obtain ⟨hfound, hheld⟩ := (hl.alike.sessions h).recordFile value.slot file
  refine (paired_lift hl.alike (Proc.paired_change (hl.alike.values hheld))).bind hl.alike
    fun _ b b' hb => ?_
  rw [hfound, (hl.alike.sessions h).id]
  split
  · exact paired_pure true
  · exact (paired_lift hb.alike (deleteFile_paired hb.alike _ _ file)).bind hb.alike
      fun _ _ _ _ => paired_pure false

theorem uploadAll_paired (ha : e.Alike e') (tenant : String) (values : List Input) :
    Paired e e' (uploadAll tenant h values) (uploadAll tenant h values) := by
  induction values generalizing e e' with
  | nil => exact paired_pure 0
  | cons value rest ih =>
    refine (uploadOne_paired ha tenant value).bind ha fun recorded d d' hl => ?_
    exact (ih hl.alike).bind hl.alike fun more _ _ _ => paired_pure _

theorem uploadMissing_paired (ha : e.Alike e') (tenant : String) :
    Paired e e' (uploadMissing tenant h) (uploadMissing tenant h) := by
  refine paired_session ?_
  rw [(ha.sessions h).pendingUploads]
  exact uploadAll_paired ha tenant _

theorem prepare_paired (ha : e.Alike e') (tenant : String) (step : Step) :
    Paired e e' (prepare tenant h step) (prepare tenant h step) := by
  refine (resolveRedirects_paired ha step).bind ha fun _ d d' hl => ?_
  refine (paired_lift hl.alike (discardStale_paired hl.alike tenant step)).bind hl.alike
    fun _ b b' hb => ?_
  refine (uploadMissing_paired hb.alike tenant).bind hb.alike fun _ c c' hc => paired_session ?_
  rw [(hc.alike.sessions h).inUse]
  exact paired_pure _

theorem releaseFiles_paired (ha : e.Alike e') (tenant session : String) (files : List String) :
    Proc.Paired e e' (releaseFiles tenant session files) (releaseFiles tenant session files) := by
  induction files generalizing e e' with
  | nil => exact .done _
  | cons file rest ih =>
    refine (deleteFile_paired ha tenant session file).bind ha fun deleted d d' hl => ?_
    exact (ih hl.alike).bind hl.alike fun _ _ _ _ => .done _

theorem releaseSession_paired (ha : e.Alike e') :
    Proc.Paired e e' (releaseSession h) (releaseSession h) := by
  have hs := ha.sessions h
  refine Proc.paired_session ?_
  rw [hs.tenant, hs.id, hs.allInputs]
  exact releaseFiles_paired ha _ _ _

end Inputs

namespace Steps

open Attempt

variable {o : StepOrder}

theorem askAssistant_paired (ha : e.Alike e') (hx : Located e e' o.session x x') (inUse : InUse) :
    Paired e e' (askAssistant o x inUse) (askAssistant o x' inUse) := by
  refine paired_session ?_
  rw [ha.bind_record hx StepRecord.conversation, hx.step]
  split
  · exact (paired_ask ha _).bind ha fun _ _ _ _ => paired_pure _
  · refine (paired_ask ha _).bind ha fun answer d d' hl => ?_
    have hnoted := hl.alike.record (hx.later hl)
      (.noteConversation o.session x.index answer.conversation)
      (.noteConversation o.session x'.index answer.conversation) rfl rfl rfl
    exact (paired_lift hl.alike (Proc.paired_change hnoted)).bind hl.alike
      fun _ _ _ _ => paired_pure _

theorem appRun_paired (ha : e.Alike e') (hx : Located e e' o.session x x') (inUse : InUse) :
    Paired e e' (appRun o x inUse) (appRun o x' inUse) := by
  refine paired_session ?_
  rw [ha.bind_record hx StepRecord.appRun, hx.step]
  split
  · exact paired_pure _
  · refine (paired_ask ha _).bind ha fun run d d' hl => ?_
    have hnoted := hl.alike.record (hx.later hl) (.noteAppRun o.session x.index run)
      (.noteAppRun o.session x'.index run) rfl rfl rfl
    exact (paired_lift hl.alike (Proc.paired_change hnoted)).bind hl.alike
      fun _ _ _ _ => paired_pure _

theorem execute_paired (ha : e.Alike e') (hx : Located e e' o.session x x') (d : Dispatcher)
    (inUse : InUse) : Paired e e' (execute d o x inUse) (execute d o x' inUse) := by
  rw [execute, execute, hx.step]
  split
  · exact (paired_ask ha _).bind ha fun _ _ _ _ => paired_pure _
  · exact askAssistant_paired ha hx inUse
  · refine (appRun_paired ha hx inUse).bind ha fun run b b' hb => ?_
    exact (paired_await _).bind hb.alike fun _ _ _ _ => paired_pure _

theorem dispatch_paired (ha : e.Alike e') (hx : Located e e' o.session x x') (d : Dispatcher) :
    Paired e e' (dispatch d o x) (dispatch d o x') := by
  rw [dispatch, dispatch, hx.step]
  refine (Inputs.prepare_paired ha o.tenant x'.step).bind ha fun inUse b b' hb => ?_
  split
  · exact execute_paired hb.alike (hx.later hb) d inUse
  · exact paired_throw _

theorem recordFailure_paired (ha : e.Alike e') (hx : Located e e' o.session x x')
    (fault : EngineFault) :
    Proc.Paired e e' (recordFailure o x fault) (recordFailure o x' fault) := by
  refine Proc.paired_now.bind ha fun now d d' hl => ?_
  have hfailed := hl.alike.record (hx.later hl) (.fail o.session x.index fault.message now)
    (.fail o.session x'.index fault.message now) rfl rfl rfl
  refine (Proc.paired_change hfailed).bind hl.alike fun _ b b' hb => Proc.paired_session ?_
  rw [(hb.alike.sessions o.session).id, hx.step]
  exact Proc.paired_log hb.alike _ _ _

theorem enterRunning_paired (ha : e.Alike e') (hx : Located e e' o.session x x') :
    Paired e e' (enterRunning o x) (enterRunning o x') := by
  refine (paired_lift ha Proc.paired_now).bind ha fun now d d' hl => paired_session ?_
  rw [hl.alike.bind_record (hx.later hl) fun r => r.begin? now, hx.id, hx.step,
    (hl.alike.sessions o.session).id]
  split
  · exact paired_throw _
  · have hbegun := hl.alike.record (hx.later hl) (.begin o.session x.index now)
      (.begin o.session x'.index now) rfl rfl rfl
    refine (paired_lift hl.alike (Proc.paired_change hbegun)).bind hl.alike fun _ b b' hb => ?_
    exact paired_lift hb.alike (Proc.paired_log hb.alike _ _ _)

theorem recordOutcome_paired (ha : e.Alike e') (hx : Located e e' o.session x x')
    (outcome : TargetOutcome) :
    Proc.Paired e e' (recordOutcome o x outcome) (recordOutcome o x' outcome) := by
  refine Proc.paired_now.bind ha fun now d d' hl => Proc.paired_session ?_
  have hdone := hl.alike.record (hx.later hl) (.complete o.session x.index outcome now)
    (.complete o.session x'.index outcome now) rfl rfl rfl
  refine (Proc.paired_change hdone).bind hl.alike fun _ b b' hb => ?_
  rw [(hl.alike.sessions o.session).id, hx.step]
  refine (Proc.paired_log hb.alike _ _ _).bind hb.alike fun _ c c' hc => Proc.paired_session ?_
  rw [hc.alike.report (((hx.later hl).later hb).later hc)]
  exact .done _

theorem runAlone_paired (ha : e.Alike e') (hx : Located e e' o.session x x') (d : Dispatcher) :
    Paired e e' (runAlone d o x) (runAlone d o x') := by
  refine (enterRunning_paired ha hx).bind ha fun _ b b' hb => ?_
  have hdispatched := dispatch_paired hb.alike (hx.later hb) d
  refine (paired_outcome hb.alike hdispatched).bind hb.alike fun r c c' hc => ?_
  have hxc := (hx.later hb).later hc
  cases r with
  | ok outcome => exact paired_lift hc.alike (recordOutcome_paired hc.alike hxc outcome)
  | error fault =>
    exact (paired_lift hc.alike (recordFailure_paired hc.alike hxc fault)).bind hc.alike
      fun _ _ _ _ => paired_throw fault

theorem runRequired_paired {y y' : StepExecution} (ha : e.Alike e')
    (hx : Located e e' o.session x x') (hy : Located e e' o.session y y')
    {run : String → Attempt StepReport}
    (hrun : ∀ step d d', d.Alike d' → Paired d d' (run step) (run step)) :
    Paired e e' (runRequired run o x y) (runRequired run o x' y') := by
  refine paired_session ?_
  rw [ha.any_record hy StepRecord.isDone, hx.step, hy.step]
  split
  · exact paired_pure _
  · refine (paired_outcome ha (hrun _ e e' ha)).bind ha fun r d d' hl => ?_
    cases r with
    | ok _ => exact paired_pure _
    | error fault =>
      dsimp only
      split
      · exact paired_throw fault
      · have hfailed := recordFailure_paired hl.alike (hx.later hl)
          (.requiredStepFailed x'.step.id.text y'.step.id.text fault)
        exact (paired_lift hl.alike hfailed).bind hl.alike fun _ _ _ _ => paired_throw _

theorem located_required (ha : e.Alike e')
    (hface : (e.session h).graph.face x = (e'.session h).graph.face x') :
    List.Forall₂ (Located e e' h) ((e.session h).graph.requiredOf x)
      ((e'.session h).graph.requiredOf x') :=
  ha.located_all (fun _ => Session.mem_requiredOf) (fun _ => Session.mem_requiredOf)
    (congrArg StepFace.required hface)

theorem paired_execution {α : Type} (ha : e.Alike e') {step : String}
    {f f' : StepExecution → Attempt α}
    (hf : ∀ x x', Located e e' h x x' →
      (e.session h).graph.face x = (e'.session h).graph.face x' → Paired e e' (f x) (f' x')) :
    Paired e e' (Attempt.ofExcept ((e.session h).execution step) >>= f)
      (Attempt.ofExcept ((e'.session h).execution step) >>= f') := by
  rcases (ha.sessions h).execution step with
    ⟨x, hx, x', hx', hfound, hfound', hface⟩ | ⟨fault, hfound, hfound'⟩
  · rw [hfound, hfound']
    exact hf x x' (ha.located hx hx' hface) hface
  · rw [hfound, hfound']
    exact paired_throw fault

theorem runGuarded_paired (d : Dispatcher) (depth : Nat) (active : List String) (step : String)
    (ha : e.Alike e') :
    Paired e e' (runGuarded d o depth active step) (runGuarded d o depth active step) := by
  induction depth generalizing e e' active step with
  | zero =>
    refine paired_session (paired_execution ha fun x x' hx hface => ?_)
    have hrecord : x.record = x'.record := congrArg StepFace.record hface
    rw [hrecord, hx.id]
    dsimp only
    split
    · exact paired_throw _
    · split <;> exact paired_throw _
  | succ depth ih =>
    rw [runGuarded_succ]
    refine paired_session (paired_execution ha fun x x' hx hface => ?_)
    have hrecord : x.record = x'.record := congrArg StepFace.record hface
    rw [hrecord, hx.id]
    split
    · exact paired_throw _
    · split
      · exact paired_throw _
      · have hrequired : List.Forall₂ (Located e e' o.session)
            (if o.withRequired then (e.session o.session).graph.requiredOf x else [])
            (if o.withRequired then (e'.session o.session).graph.requiredOf x' else []) := by
          split
          · exact located_required ha hface
          · exact .nil
        refine (paired_forM hrequired (fun y y' b b' hb hy => ?_) (.refl ha)).bind ha
          fun _ b b' hb => runAlone_paired hb.alike (hx.later hb) d
        exact runRequired_paired hb.alike (hx.later hb) hy
          fun other c c' hc => ih (step :: active) other hc

theorem runStep_paired (ha : e.Alike e') (d : Dispatcher) (step : String) :
    Paired e e' (Steps.runStep d o step) (Steps.runStep d o step) := by
  refine paired_session ?_
  rw [(ha.sessions o.session).length_nodes]
  exact runGuarded_paired d _ [] step ha

end Steps

/-! ## Flows -/

theorem Flow.Twin.eq_or {b b' : Option Flow} (h : Option.Rel Twin b b') :
    (b = none ∧ b' = none) ∨ ∃ f f', b = some f ∧ b' = some f' ∧ f.Twin f' := by
  cases h with
  | none => exact .inl ⟨rfl, rfl⟩
  | some hf => exact .inr ⟨_, _, rfl, rfl, hf⟩

theorem rel_bind {α β γ δ : Type} {R : α → β → Prop} {S : γ → δ → Prop} {a : Option α}
    {b : Option β} (h : Option.Rel R a b) {f : α → Option γ} {g : β → Option δ}
    (hf : ∀ x y, R x y → Option.Rel S (f x) (g y)) : Option.Rel S (a.bind f) (b.bind g) := by
  cases h with
  | none => exact .none
  | some hr => exact hf _ _ hr

namespace Table.Matches

variable {κ α β : Type} {R : α → β → Prop} {t : Table κ α} {t' : Table κ β}

theorem lookup [DecidableEq κ] (h : Matches R t t') (key : κ) :
    Option.Rel R (t.lookup key) (t'.lookup key) := by
  induction h with
  | nil => exact .none
  | @cons a b _ _ hab _ ih =>
    obtain ⟨⟨k, v⟩, ⟨k', v'⟩⟩ := a, b
    obtain ⟨rfl, hv⟩ := hab
    cases hk : key == k with
    | true => simpa only [List.lookup_cons, hk] using .some hv
    | false => simpa only [List.lookup_cons, hk] using ih

theorem getLast? (h : Matches R t t') :
    Option.Rel (fun a b => a.1 = b.1 ∧ R a.2 b.2) t.getLast? t'.getLast? := by
  have hr := List.forall₂_reverse_iff.mpr h
  rw [← List.head?_reverse, ← List.head?_reverse]
  generalize t.reverse = l, t'.reverse = l' at hr
  cases hr with
  | nil => exact .none
  | cons hab _ => exact .some hab

theorem put [DecidableEq κ] [LT κ] [DecidableLT κ] (h : Matches R t t') (key : κ) {v : α} {v' : β}
    (hv : R v v') : Matches R (t.put key v) (t'.put key v') := by
  induction h with
  | nil => exact .cons ⟨rfl, hv⟩ .nil
  | @cons a b _ _ hab htail ih =>
    rw [Table.put, Table.put, hab.1]
    split
    · exact .cons ⟨rfl, hv⟩ htail
    · split
      · exact .cons ⟨rfl, hv⟩ (.cons hab htail)
      · exact .cons hab ih

end Table.Matches

namespace Registry

variable {r r' : Registry}

theorem Twin.versions (hr : r.Twin r') (id : String) :
    Table.Matches Flow.Twin (r.versions id) (r'.versions id) := by
  have hl := Table.Matches.lookup hr id
  rw [Registry.versions, Registry.versions]
  generalize r.flows.lookup id = vs, r'.flows.lookup id = vs' at hl
  cases hl with
  | none => exact .nil
  | some hv => exact hv

theorem Twin.find? (hr : r.Twin r') (id : String) (version : UInt32) :
    Option.Rel Flow.Twin (r.find? id version) (r'.find? id version) :=
  rel_bind (Table.Matches.lookup hr id) fun _ _ hv => hv.lookup version

theorem Twin.latest? (hr : r.Twin r') (id : String) :
    Option.Rel Flow.Twin (r.latest? id) (r'.latest? id) :=
  rel_bind (Table.Matches.lookup hr id) fun _ _ hv =>
    rel_bind hv.getLast? fun _ _ hf => .some hf.2

theorem Twin.load (hr : r.Twin r') (id : String) (version : Option UInt32) :
    (∃ f f', Flow.Twin f f' ∧ r.load id version = .ok f ∧ r'.load id version = .ok f') ∨
      ∃ fault, r.load id version = .error fault ∧ r'.load id version = .error fault := by
  have hfound : Option.Rel Flow.Twin (version.elim (r.latest? id) (r.find? id))
      (version.elim (r'.latest? id) (r'.find? id)) := by
    cases version with
    | some v => exact hr.find? id v
    | none => exact hr.latest? id
  rw [load_eq, load_eq]
  rcases Flow.Twin.eq_or hfound with ⟨hb, hb'⟩ | ⟨f, f', hb, hb', hf⟩
  · right
    rw [hb, hb']
    exact ⟨_, rfl, rfl⟩
  · left
    rw [hb, hb']
    exact ⟨f, f', hf, rfl, rfl⟩

end Registry

namespace Sessions

open Attempt

theorem createWith_paired (ha : e.Alike e') (tenant : String) {flow flow' : Flow}
    (hf : flow.Twin flow') (now : Int) (attempts : Nat) :
    Paired e e' (createWith tenant flow now attempts) (createWith tenant flow' now attempts) := by
  induction attempts generalizing e e' with
  | zero => exact paired_throw _
  | succ attempts ih =>
    refine (paired_lift ha Proc.paired_word).bind ha fun word d d' hl => ?_
    cases SessionId.generate now word with
    | error fault => exact paired_throw _
    | ok id =>
      obtain ⟨s, hs⟩ := Session.new_of_valid hf.valid id tenant now
      obtain ⟨s', hs'⟩ := Session.new_of_valid hf.valid' id tenant now
      have hmade := Session.alike_of_new hf.rearranged hf.valid hf.valid' hs hs'
      dsimp only
      rw [hs, hs']
      refine paired_engine ?_
      rw [hl.alike.find?, hf.rearranged.id, hf.rearranged.version, Engine.nextHandle,
        Engine.nextHandle, hl.alike.length]
      split
      · exact ih hl.alike
      · refine (paired_lift hl.alike (Proc.paired_change (hl.alike.enlist hmade))).bind hl.alike
          fun _ b b' hb => ?_
        exact (paired_lift hb.alike (Proc.paired_log hb.alike _ _ _)).bind hb.alike
          fun _ _ _ _ => paired_pure _

theorem create_paired (ha : e.Alike e') (tenant flow : String) (version : Option UInt32) :
    Paired e e' (create tenant flow version) (create tenant flow version) := by
  refine paired_engine ?_
  rcases ha.registry.load flow version with
    ⟨f, f', hf, hload, hload'⟩ | ⟨fault, hload, hload'⟩
  · rw [hload, hload']
    refine (paired_lift ha Proc.paired_now).bind ha fun now d d' hl => ?_
    exact createWith_paired hl.alike tenant hf now idAttempts
  · rw [hload, hload']
    exact paired_throw _

theorem find_paired (ha : e.Alike e') (tenant id : String) :
    Paired e e' (find tenant id) (find tenant id) := by
  have hfound : ((e.find? id).filter fun h => (e.session h).tenant == tenant) =
      (e'.find? id).filter fun h => (e'.session h).tenant == tenant := by
    rw [ha.find?]
    congr 1
    funext h
    rw [(ha.sessions h).tenant]
  refine paired_engine ?_
  rw [hfound]
  split
  · exact paired_pure _
  · exact paired_throw _

theorem changeInputs_paired (ha : e.Alike e') (tenant id : String)
    {change : Session → Except EngineFault (List Input × Session)}
    (hc : ∀ s s', s.Alike s' →
      Session.Alike.outcome (change s) = Session.Alike.outcome (change s')) :
    Paired e e' (changeInputs tenant id change) (changeInputs tenant id change) := by
  refine (find_paired ha tenant id).bind ha fun h d d' hl => paired_session ?_
  have hs := hl.alike.sessions h
  rcases Session.Alike.outcome_eq_or (hc _ _ hs) with
    ⟨fault, hr, hr'⟩ | ⟨displaced, t, t', hr, hr', hheld⟩
  · rw [hr, hr']
    exact paired_throw fault
  · rw [hr, hr']
    have hchanged := Proc.paired_change (hl.alike.values (h := h) hheld)
    refine (paired_lift hl.alike hchanged).bind hl.alike fun _ b b' hb => ?_
    rw [hs.tenant, hs.id]
    split
    · exact (paired_lift hb.alike (Inputs.releaseFiles_paired hb.alike _ _ _)).bind hb.alike
        fun _ _ _ _ => paired_pure _
    · exact paired_pure _

theorem add_paired (ha : e.Alike e') (f : Facilities) (tenant id input : String) (value : Input) :
    Paired e e' (add f tenant id input value) (add f tenant id input value) := by
  refine changeInputs_paired ha tenant id fun s s' hs => ?_
  rw [hs.flowInput]
  cases s'.flowInput input with
  | error fault => rfl
  | ok declared =>
    cases hv : extracted f declared value with
    | error fault => simp only [hv, bind, Except.bind]
    | ok value => simpa only [hv, bind, Except.bind] using hs.addInput input value

theorem replace_paired (ha : e.Alike e') (f : Facilities) (tenant id input : String)
    (value : Input) :
    Paired e e' (replace f tenant id input value) (replace f tenant id input value) := by
  refine changeInputs_paired ha tenant id fun s s' hs => ?_
  rw [hs.flowInput]
  cases s'.flowInput input with
  | error fault => rfl
  | ok declared =>
    cases hv : extracted f declared value with
    | error fault => simp only [hv, bind, Except.bind]
    | ok value => simpa only [hv, bind, Except.bind] using hs.replaceInput input value

theorem runStep_paired (ha : e.Alike e') (f : Facilities) (tenant id step : String)
    (userInput : Option String) (withRequired : Bool) :
    Paired e e' (runStep f tenant id step userInput withRequired)
      (runStep f tenant id step userInput withRequired) := by
  refine (find_paired ha tenant id).bind ha fun h d d' hl => paired_session ?_
  refine Steps.paired_execution hl.alike fun x x' hx hface => ?_
  have hrecord : x.record = x'.record := congrArg StepFace.record hface
  rw [(hl.alike.sessions h).state, hrecord, hx.id]
  dsimp only
  split
  · exact paired_throw _
  · split
    · exact paired_throw _
    · exact Steps.runStep_paired hl.alike f.dispatcher step

theorem runInTurn_paired (ha : e.Alike e') (hx : Located e e' h x x') (f : Facilities)
    (tenant : String) (generation : Nat) :
    Paired e e' (runInTurn (stepOfRun f tenant h) h generation x)
      (runInTurn (stepOfRun f tenant h) h generation x') := by
  refine paired_session ?_
  rw [ha.any_record hx fun r => r.isDone && r.completedInRun == generation, hx.step]
  split
  · exact paired_pure _
  · exact (Steps.runStep_paired ha f.dispatcher _).bind ha fun _ _ _ _ => paired_pure _

theorem runAllSteps_paired (ha : e.Alike e') (f : Facilities) (tenant : String)
    (generation : Nat) :
    Paired e e' (runAllSteps (stepOfRun f tenant h) tenant h generation)
      (runAllSteps (stepOfRun f tenant h) tenant h generation) := by
  refine (Inputs.uploadMissing_paired ha tenant).bind ha fun _ d d' hl => paired_session ?_
  have hs := hl.alike.sessions h
  have hids : (d.session h).graph.inOrder.map (fun x => x.step.id) =
      (d'.session h).graph.inOrder.map fun x => x.step.id := by
    have hsame := congrArg (List.map fun F : StepFace => F.step.id) hs.inOrder
    rw [List.map_map, List.map_map] at hsame
    exact hsame
  have hturns := hl.alike.located_all
    (fun _ => (d.session h).graph.inOrder_perm.mem_iff.mp)
    (fun _ => (d'.session h).graph.inOrder_perm.mem_iff.mp) hids
  exact paired_forM hturns
    (fun x x' b b' hb hx => runInTurn_paired hb.alike hx f tenant generation) (.refl hl.alike)

theorem run_paired (ha : e.Alike e') (f : Facilities) (tenant id : String) :
    Paired e e' (run f tenant id) (run f tenant id) := by
  refine (find_paired ha tenant id).bind ha fun h d d' hl => paired_session ?_
  have hs := hl.alike.sessions h
  rw [Session.startRun, Session.startRun, hs.state, hs.id, hs.generation]
  split
  · exact paired_throw _
  · refine (paired_lift hl.alike (Proc.paired_change (hl.alike.startRun h))).bind hl.alike
      fun _ b b' hb => ?_
    refine (paired_lift hb.alike (Proc.paired_log hb.alike _ _ _)).bind hb.alike
      fun _ c c' hc => ?_
    have hrun := runAllSteps_paired (h := h) hc.alike f tenant ((d'.session h).generation + 1)
    refine (paired_outcome hc.alike hrun).bind hc.alike fun r u u' hu => ?_
    cases r with
    | ok _ =>
      refine (paired_lift hu.alike (Proc.paired_change (hu.alike.finishRun h))).bind hu.alike
        fun _ v v' hv => ?_
      exact (paired_lift hv.alike (Proc.paired_log hv.alike _ _ _)).bind hv.alike
        fun _ _ _ _ => paired_pure _
    | error fault =>
      refine (paired_lift hu.alike (Proc.paired_change (hu.alike.failRun h))).bind hu.alike
        fun _ v v' hv => ?_
      exact (paired_lift hv.alike (Proc.paired_log hv.alike _ _ _)).bind hv.alike
        fun _ _ _ _ => paired_throw _

theorem report_paired (ha : e.Alike e') (tenant id step : String) :
    Paired e e' (report tenant id step) (report tenant id step) := by
  refine (find_paired ha tenant id).bind ha fun h d d' hl => paired_session ?_
  refine Steps.paired_execution hl.alike fun x x' _ hface => ?_
  rw [StepGraph.report_of_face hface]
  exact paired_pure _

theorem render_paired (ha : e.Alike e') (f : Facilities) (tenant id : String)
    (template : Option String) :
    Paired e e' (render f tenant id template) (render f tenant id template) := by
  refine (find_paired ha tenant id).bind ha fun h d d' hl => paired_session ?_
  have hs := hl.alike.sessions h
  rw [hs.flow.defaultTemplateId, hs.flow.id, hs.parameters]
  split
  · exact paired_throw _
  · split
    · exact paired_throw _
    · split
      · exact paired_pure _
      · exact paired_throw _

theorem releaseRemoved_paired (ha : e.Alike e') :
    Proc.Paired e e' (releaseRemoved h) (releaseRemoved h) := by
  refine (Inputs.releaseSession_paired ha).bind ha fun summary d d' hl => Proc.paired_session ?_
  rw [(hl.alike.sessions h).id]
  exact (Proc.paired_log hl.alike _ _ _).bind hl.alike fun _ _ _ _ => .done _

theorem remove_paired (ha : e.Alike e') (h : Handle) :
    Proc.Paired e e' (remove h) (remove h) := by
  refine Proc.paired_engine ?_
  rw [ha.removeIf (e.session h).id fun _ _ _ => rfl,
    (ha.sessions h).id]
  split
  · exact releaseRemoved_paired ha
  · exact (Proc.paired_change (ha.withdraw _)).bind ha
      fun _ d d' hl => releaseRemoved_paired hl.alike

theorem removeIf_paired (ha : e.Alike e') (id : String) {condition : Session → Bool}
    (hc : ∀ s s', s.Alike s' → condition s = condition s') :
    Proc.Paired e e' (removeIf id condition) (removeIf id condition) := by
  refine Proc.paired_engine ?_
  rw [ha.removeIf id hc]
  split
  · exact .done _
  · refine (Proc.paired_change (ha.withdraw _)).bind ha fun _ d d' hl => ?_
    exact (releaseRemoved_paired hl.alike).bind hl.alike fun _ _ _ _ => .done _

theorem delete_paired (ha : e.Alike e') (tenant id : String) :
    Paired e e' (delete tenant id) (delete tenant id) :=
  (find_paired ha tenant id).bind ha fun h _ _ hl => paired_lift hl.alike (remove_paired hl.alike h)

end Sessions

namespace Sweep

theorem visit_paired (ha : e.Alike e') (now : Int) (summary : SweepSummary) (h : Handle) :
    Proc.Paired e e' (visit now summary h) (visit now summary h) := by
  refine Proc.paired_session ?_
  have hdue : ∀ s s' : Session, s.Alike s' → isDue now s = isDue now s' := by
    intro s s' hs
    rw [isDue, isDue, hs.hasRunningStep, hs.isStale]
  rw [(ha.sessions h).id]
  refine (Sessions.removeIf_paired ha _ hdue).bind ha fun release d d' hl => ?_
  cases release with
  | none => exact .done _
  | some release =>
    have hs := hl.alike.sessions h
    refine Proc.paired_session ?_
    rw [hs.id, hs.lastUpdatedAt, hs.flow.ttlInMinutes]
    exact (Proc.paired_log hl.alike _ _ _).bind hl.alike fun _ _ _ _ => .done _

theorem visitAll_paired (ha : e.Alike e') (limit : Nat) (now : Int) (started : Nat)
    (summary : SweepSummary) (handles : List Handle) :
    Proc.Paired e e' (visitAll limit now started summary handles)
      (visitAll limit now started summary handles) := by
  induction handles generalizing e e' summary with
  | nil => exact .done _
  | cons h rest ih =>
    refine Proc.paired_stopwatch.bind ha fun t d d' hl => ?_
    split
    · exact .done _
    · exact (visit_paired hl.alike now summary h).bind hl.alike
        fun summary _ _ hb => ih hb.alike summary

theorem run_paired (ha : e.Alike e') (limit : Nat) (now : Int) :
    Proc.Paired e e' (run limit now) (run limit now) := by
  refine Proc.paired_engine ?_
  rw [ha.sweeping]
  split
  · exact (Proc.paired_log ha _ _ _).bind ha fun _ _ _ _ => .done _
  · refine (Proc.paired_change (ha.sweep true)).bind ha fun _ d d' hl => ?_
    refine Proc.paired_stopwatch.bind hl.alike fun started b b' hb => ?_
    refine Proc.paired_listed.bind hb.alike fun listed a a' ha => ?_
    refine (visitAll_paired ha.alike limit now started blank listed).bind ha.alike
      fun summary c c' hc => ?_
    refine (Proc.paired_log hc.alike _ _ _).bind hc.alike fun _ u u' hu => ?_
    exact (Proc.paired_change (hu.alike.sweep false)).bind hu.alike fun _ _ _ _ => .done _

end Sweep

namespace Request

/-- The condition of a removal does not depend on the order of declarations. -/
def Impartial : Request → Prop
  | .removeIf _ condition => ∀ s s' : Session, s.Alike s' → condition s = condition s'
  | _ => True

theorem paired (ha : e.Alike e') (f : Facilities) {q : Request} (hq : q.Impartial) :
    Proc.Paired e e' (q.proc f) (q.proc f) := by
  cases q with
  | create tenant flow version => exact Sessions.create_paired ha tenant flow version
  | find tenant id => exact Sessions.find_paired ha tenant id
  | addText tenant id input text =>
    exact Sessions.changeInputs_paired ha tenant id fun _ _ hs => hs.addText input text
  | add tenant id input value => exact Sessions.add_paired ha f tenant id input value
  | replace tenant id input value => exact Sessions.replace_paired ha f tenant id input value
  | clear tenant id input =>
    exact Sessions.changeInputs_paired ha tenant id fun _ _ hs => hs.clearInput input
  | runStep tenant id step userInput withRequired =>
    exact Sessions.runStep_paired ha f tenant id step userInput withRequired
  | run tenant id => exact Sessions.run_paired ha f tenant id
  | report tenant id step => exact Sessions.report_paired ha tenant id step
  | render tenant id template => exact Sessions.render_paired ha f tenant id template
  | delete tenant id => exact Sessions.delete_paired ha tenant id
  | remove h => exact Sessions.remove_paired ha h
  | removeIf id condition => exact Sessions.removeIf_paired ha id hq
  | sweep limit now => exact Sweep.run_paired ha limit now

end Request

end FlowEngine
