import FlowEngine.Rehearsal.Basic
/-! Performing the operations of a rehearsal.

A hook fires at most once, so an operation can be nested at most as deep as there are hooks. The
clock moves a nanosecond with each look at it, so a wait with a limit of `n` nanoseconds ends within
`n + 1` polls. -/

namespace FlowEngine.Rehearsal

namespace World

def countEvent (w : World) (event : String) : Nat × World :=
  let n := ((w.events.lookup event).getD 0) + 1
  (n, { w with events := (event, n) :: w.events.filter fun e => e.1 ≠ event })

def hookedOps (w : World) (event : String) : List Op × World :=
  let (n, w) := w.countEvent event
  ((w.setup.hooks.filter fun h => h.event == event && h.nth == n).flatMap Hook.ops, w)

def ask (w : World) (c : ProviderCall) : c.Outcome × World :=
  let (answer, provider) := w.provider.answer c
  (answer, { w with provider := provider })

def answerReached (w : World) : (c : ProviderCall) → c.Outcome × World
  | .upload tenant name payload =>
    match w.setup.uploadFaults.lookup name with
    | some fault => (.error fault, w)
    | none => w.ask (.upload tenant name payload)
  | .delete tenant file =>
    match w.setup.deleteFaults.lookup file with
    | some fault => (.error fault, w)
    | none => w.ask (.delete tenant file)
  | .appRun tenant run =>
    match w.setup.pollFaults.lookup run with
    | some fault => (.error fault, w)
    | none =>
      let (result, w) := w.ask (.appRun tenant run)
      if run ∈ w.setup.emptyAnswers then
        (result.map fun (r : AppRun) => { r with answer := none }, w)
      else (result, w)
  | c => w.ask c

def answer (w : World) (c : ProviderCall) : c.Outcome × World :=
  if w.setup.reachable then w.answerReached c
  else (.error (.authentication c.tenant "provider cannot be reached"), w)

end World

def eventOf : ProviderCall → String
  | .upload _ name _ => s!"upload:{name}"
  | .delete _ file => s!"delete:{file}"
  | .appRun _ run => s!"poll:{run}"
  | .runService _ request => s!"call:{request.target}"
  | .ask _ request => s!"call:{request.target}"
  | .followUp _ _ request => s!"call:{request.target}"
  | .runApp _ request => s!"call:{request.target}"

/-- Surroundings in which hooked operations are performed by `hook`. -/
def surroundings (hook : Op → World → World) : Surroundings World where
  engine w := w.engine
  setEngine e w := { w with engine := e }
  clock w := (w.time, w)
  instant w := (w.elapsed + 1, { w with elapsed := w.elapsed + 1 })
  sample w := (UInt64.ofNat w.draws, { w with draws := w.draws + 1 })
  listing w := (w.engine.stored, w)
  sleep n w := { w with elapsed := w.elapsed + n }
  call c w :=
    let (ops, w) := w.hookedOps (eventOf c)
    let w := ops.foldl (fun w op => hook op w) w
    some (w.answer c)

abbrev Setting := Surroundings World

namespace Setting

variable {α : Type}

def attempt (s : Setting) (a : Attempt α) (w : World) (tell : α → Outcome) : Outcome × World :=
  match Proc.run s (fun wait => wait.limit + 2) a.run w with
  | none => (.unfinished, w)
  | some (.ok value, w) => (tell value, w)
  | some (.error fault, w) => (.fault fault, w)

def operate (s : Setting) (p : Proc α) (w : World) (tell : α → Outcome) : Outcome × World :=
  match p.run s (fun wait => wait.limit + 2) w with
  | none => (.unfinished, w)
  | some (value, w) => (tell value, w)

end Setting

def World.change (w : World) (f : Engine → Engine) : World :=
  { w with engine := f w.engine }

def World.changeSession (w : World) (h : Handle) (f : Session → Session) : World :=
  w.change fun e => e.modifySession h f

def World.trySession {α : Type} (w : World) (h : Handle)
    (f : Session → Except EngineFault (α × Session)) (tell : α → Outcome) : Outcome × World :=
  match f (w.engine.session h) with
  | .error fault => (.fault fault, w)
  | .ok (value, s) => (tell value, w.changeSession h fun _ => s)

def World.withStep (w : World) (h : Handle) (step : String)
    (f : StepExecution → Outcome × World) : Outcome × World :=
  match (w.engine.session h).execution step with
  | .error fault => (.fault fault, w)
  | .ok x => f x

def RecordChange.apply : RecordChange → StepExecution → Except EngineFault StepRecord
  | .begin now, x =>
    match x.record.begin? now with
    | some r => .ok r
    | none => .error (.stepRunning x.id)
  | .enter state now, x =>
    match x.record.enter? state now with
    | some r => .ok r
    | none => .error (.stepRunning x.id)
  | .complete output now, x => .ok (x.record.complete output now)
  | .fail message now, x => .ok (x.record.fail message now)
  | .setConversation conversation, x => .ok { x.record with conversation := some conversation }
  | .setAppRun run, x => .ok { x.record with appRun := some run }

def performOnSession (s : Setting) (h : Handle) (w : World) : SessionOp → Outcome × World
  | .dump => (.session (w.engine.session h), w)
  | .addText input text => w.trySession h (fun s => s.addText input text) .values
  | .add input value => w.trySession h (fun s => s.addInput input value) .values
  | .replace input value => w.trySession h (fun s => s.replaceInput input value) .values
  | .clear input => w.trySession h (fun s => s.clearInput input) .values
  | .addRedirected step value => (.done, w.changeSession h fun s => s.addRedirected step value)
  | .removeRedirected step value =>
    w.trySession h (fun s => .ok (s.removeRedirected step value)) .flag
  | .startRun => w.trySession h Session.startRun .count
  | .setState state => (.done, w.changeSession h fun s => { s with state := state })
  | .stale now => (.flag ((w.engine.session h).isStale now), w)
  | .parameters => (.parameters (w.engine.session h).parameters, w)
  | .changeRecord step change =>
    w.withStep h step fun x =>
      match change.apply x with
      | .error fault => (.fault fault, w)
      | .ok r => (.done, w.changeSession h fun s => s.modifyRecord x.index fun _ => r)
  | .inUse step => w.withStep h step fun x => (.inUse ((w.engine.session h).inUse x.step), w)
  | .prepare tenant step =>
    w.withStep h step fun x => s.attempt (Inputs.prepare tenant h x.step) w .inUse
  | .resolveRedirects step =>
    w.withStep h step fun x => s.attempt (Inputs.resolveRedirects h x.step) w fun _ => .done
  | .uploadMissing tenant => s.attempt (Inputs.uploadMissing tenant h) w .count
  | .releaseSession => s.operate (Inputs.releaseSession h) w .released
  | .runnerStep tenant step userInput withRequired =>
    s.attempt (Steps.runStep w.setup.runner ⟨tenant, h, userInput, withRequired⟩ step) w .report
  | .remove => s.operate (Sessions.remove h) w .released
  | .insertIntoStore =>
    let (stored, e) := w.engine.store h
    (.flag stored, { w with engine := e })

def performAsTenant (s : Setting) (tenant id : String) (w : World) : TenantOp → Outcome × World
  | .get => s.attempt (Sessions.find tenant id) w fun h => .text (w.engine.session h).id
  | .addText input text => s.attempt (Sessions.addText tenant id input text) w fun _ => .done
  | .add input value =>
    s.attempt (Sessions.add w.setup.facilities tenant id input value) w fun _ => .done
  | .replace input value =>
    s.attempt (Sessions.replace w.setup.facilities tenant id input value) w fun _ => .done
  | .clear input => s.attempt (Sessions.clear tenant id input) w fun _ => .done
  | .run => s.attempt (Sessions.run w.setup.facilities tenant id) w .state
  | .runStep step userInput withRequired =>
    s.attempt (Sessions.runStep w.setup.facilities tenant id step userInput withRequired) w .report
  | .report step => s.attempt (Sessions.report tenant id step) w .report
  | .render template =>
    s.attempt (Sessions.render w.setup.facilities tenant id template) w fun document =>
      .text (Text.ofBytesLossy document)
  | .delete => s.attempt (Sessions.delete tenant id) w .released

def FlowChoice.find (choice : FlowChoice) (r : Registry) : Except EngineFault Flow :=
  match choice with
  | .given flow => .ok flow
  | .registered flow version =>
    match r.load flow version with
    | .ok flow => .ok flow
    | .error fault => .error (.flow fault)

def insertSession (w : World) (label tenant : String) (choice : FlowChoice) (now : Int)
    (store : Bool) : Outcome × World :=
  match (do Session.new label tenant (← choice.find w.engine.registry) now) with
  | .error fault => (.fault fault, w)
  | .ok s =>
    let h := w.engine.nextHandle
    let e := w.engine.addSession s
    if store then
      let (stored, e) := e.store h
      let w := { w with engine := e }
      (.inserted stored s.graph, if stored then w.bind label h else w)
    else
      (.inserted false s.graph, { w with engine := e }.bind label h)

/-- Sweeps again and again until few enough sessions are left, at most the given number of
times. -/
def sweepUntil (s : Setting) (interval remain : Nat) : Nat → World → World
  | 0, w => w
  | rounds + 1, w =>
    if w.engine.stored.length ≤ remain || w.engine.stopping then w
    else
      let w := { w with elapsed := w.elapsed + interval * 1000000 }
      sweepUntil s interval remain rounds
        (s.operate (Sweep.run w.setup.sweepLimit w.time) w .swept).2

def turnPool (p : Pool) (w : World) : Pool × World :=
  let (p, e) := p.turn w.engine fun _ => .ok ()
  (p, { w with engine := e })

def runJob (s : Setting) (job : Job) (w : World) : Except HostFault JobOutcome × World :=
  match Proc.run s (fun wait => wait.limit + 2) (job.operation w.setup.facilities).run w with
  | none => (.error (.workerPanicked job.key), w)
  | some (.ok outcome, w) => (.ok outcome, w)
  | some (.error fault, w) => (.error (.job fault), w)

/-- Runs the jobs in progress one after another, the pool taking its turn after each; at most the
given number of times. -/
def drivePool (s : Setting) : Nat → Pool → World → Pool × World
  | 0, p, w => (p, w)
  | rounds + 1, p, w =>
    match p.running with
    | [] => (p, w)
    | job :: _ =>
      let (result, w) := runJob s job w
      let (p, w) := turnPool (p.finish ⟨job, result⟩) w
      drivePool s rounds p w

def submitAll (stopping : Bool) : Pool → List Job → List (Except HostFault Unit) × Pool
  | p, [] => ([], p)
  | p, job :: rest =>
    match p.submit stopping job with
    | .ok p =>
      let (results, p) := submitAll stopping p rest
      (.ok () :: results, p)
    | .error fault =>
      let (results, p) := submitAll stopping p rest
      (.error fault :: results, p)

def World.addressed (w : World) : Job → Job
  | .session tenant label => .session tenant (w.idOf label)
  | .step tenant label step userInput withRequired =>
    .step tenant (w.idOf label) step userInput withRequired

def performPool (s : Setting) (plan : PoolPlan) (w : World) : Outcome × World :=
  let stopping := w.engine.stopping
  let p := Pool.ofSize plan.width (plan.room.getD Pool.defaultRoom)
  let w := w.change fun e => e.note [p.startNote]
  let (submitted, p) := submitAll w.engine.stopping p (plan.jobs.map w.addressed)
  let (p, w) := turnPool p w
  let (p, w) := drivePool s plan.jobs.length p w
  let completions := p.completions
  let p := { p with completions := [] }
  let w := w.change fun e => { e with stopping := true }
  let (p, w) := turnPool p w
  let (late, p) := submitAll w.engine.stopping p (plan.late.map w.addressed)
  (.pool plan.width ⟨submitted, completions, p.dropped, p.ending, late, p.read.1.isSome⟩,
    w.change fun e => { e with stopping := stopping })

/-- Performs an operation; those that are hooked onto its calls are performed by the setting. -/
def performIn (s : Setting) (w : World) : Op → Outcome × World
  | .register flow =>
    let (answer, registry) := w.engine.registry.offer flow
    let w := w.change fun e => { e with registry := registry }
    match answer with
    | .error fault => (.flowFault fault, w)
    | .ok flow => (.flow flow.id.text flow.version, w)
  | .flowIds => (.ids w.engine.registry.flowIds, w)
  | .create session tenant flow version =>
    match Proc.run s (fun wait => wait.limit + 2) (Sessions.create tenant flow version).run w with
    | none => (.unfinished, w)
    | some (.error fault, w) => (.fault fault, w)
    | some (.ok h, w) =>
      let made := (w.engine.session h).flow
      (.created made.id.text made.version, w.bind session h)
  | .insert session tenant flow now store => insertSession w session tenant flow now store
  | .onSession session op =>
    match w.handle? session with
    | none => (.unaddressed, w)
    | some h => performOnSession s h w op
  | .asTenant session tenant op => performAsTenant s tenant (w.idOf session) w op
  | .stored => (.stored w.storedIds, w)
  | .removeFromStore session =>
    let (removed, e) := w.engine.removeIf (w.idOf session) fun _ => true
    (.flag removed.isSome, { w with engine := e })
  | .release tenant session values =>
    s.operate (Inputs.release tenant (w.idOf session) values) w .released
  | .poll tenant run step =>
    let limits := w.setup.runner.poll
    s.attempt (Attempt.await ⟨tenant, run, step, limits.interval, limits.limit⟩) w .text
  | .setFailure target message =>
    (.done, { w with provider := w.provider.setFailure target message })
  | .clearFailure target => (.done, { w with provider := w.provider.clearFailure target })
  | .runApp tenant request => s.attempt (Attempt.ask (.runApp tenant request)) w .text
  | .files => (.files w.provider.files w.provider.deleted, w)
  | .callsFor target => (.count (w.provider.callsFor target), w)
  | .sweep time =>
    let now :=
      match time with
      | .given now => now
      | .after seconds => w.time + seconds
    s.operate (Sweep.run w.setup.sweepLimit now) w .swept
  | .sweeping => (.flag w.engine.sweeping, w)
  | .sweepWorker interval remain =>
    let w := sweepUntil s interval remain (w.engine.stored.length + w.setup.hooks.length + 1) w
    (.sweepWorker w.engine.sweeping w.storedIds, w)
  | .stop value => (.done, w.change fun e => { e with stopping := value })
  | .sleep milliseconds => (.done, { w with elapsed := w.elapsed + milliseconds * 1000000 })
  | .log record => (.done, w.change fun e => e.note [record])
  | .pool plan => performPool s plan w
  | .unknown => (.unaddressed, w)

/-- Performs an operation, and those hooked onto its calls down to the given depth. -/
def perform : Nat → Op → World → Outcome × World
  | 0, op, w => performIn (surroundings fun _ w => w) w op
  | depth + 1, op, w =>
    performIn (surroundings fun op w =>
      let (outcome, w) := perform depth op w
      { w with hooked := outcome :: w.hooked }) w op

structure SessionView where
  state : SessionState
  run : Nat
  steps : List (String × StepState)
  stored : Bool

def World.view (w : World) (h : Handle) : SessionView :=
  let s := w.engine.session h
  { state := s.state
    run := s.generation
    steps := s.graph.nodes.map fun x => (x.step.id.text, x.record.state)
    stored := (w.engine.find? s.id).isSome }

structure Scene where
  outcome : Outcome
  calls : List CallRecord
  log : List LogRecord
  hooked : List Outcome
  view : Option SessionView
  after : World

def Op.session? : Op → Option String
  | .create session _ _ _ => some session
  | .insert session _ _ _ _ => some session
  | .onSession session _ => some session
  | .asTenant session _ _ => some session
  | .removeFromStore session => some session
  | .release _ session _ => some session
  | _ => none

def newest {α : Type} (before after : List α) : List α :=
  (after.take (after.length - before.length)).reverse

def scene (op : Op) (w : World) : Scene :=
  let (outcome, after) := perform w.setup.hooks.length op { w with hooked := [] }
  { outcome := outcome
    calls := newest w.provider.calls after.provider.calls
    log := newest w.engine.journal after.engine.journal
    hooked := after.hooked.reverse
    view := (op.session?.bind after.handle?).map after.view
    after := after }

def rehearse : List Op → World → List Scene
  | [], _ => []
  | op :: rest, w =>
    let s := scene op w
    s :: rehearse rest s.after

end FlowEngine.Rehearsal
