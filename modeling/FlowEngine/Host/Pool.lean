import FlowEngine.Engine.Sessions
import FlowEngine.Host.Fault
import FlowEngine.Host.Scheduler
/-! A pool that runs jobs on sessions, one at a time for each session.

Jobs and the results of finished jobs reach the pool through its inbox. In its turn the pool empties
the inbox and then either starts jobs or, once the engine is stopping and nothing is in progress,
closes. Completions are kept for readers as long as there is room; the others are counted.

A job is run by a worker that bears the identifier of the session in its name. A name with a null
character in it cannot be given to a worker; the attempt breaks the pool, which then does nothing
any more and is not closed either. -/

namespace FlowEngine

inductive Job where
  | session (tenant id : String)
  | step (tenant id step : String) (userInput : Option String) (withRequired : Bool)
  deriving DecidableEq, Repr

inductive JobOutcome where
  | session (state : SessionState)
  | step (report : StepReport)
  deriving DecidableEq, Repr

structure Completion where
  job : Job
  result : Except HostFault JobOutcome

namespace Job

def key : Job → String
  | .session _ id => id
  | .step _ id _ _ _ => id

def stepId? : Job → Option String
  | .session _ _ => none
  | .step _ _ id _ _ => some id

def operation (f : Facilities) : Job → Attempt JobOutcome
  | .session tenant id => JobOutcome.session <$> Sessions.run f tenant id
  | .step tenant id stepId userInput withRequired =>
    JobOutcome.step <$> Sessions.runStep f tenant id stepId userInput withRequired

end Job

inductive PoolMessage where
  | submit (job : Job)
  | finished (completion : Completion)
  | wake

inductive PoolStatus where
  | serving
  | closed
  | broken
  deriving DecidableEq, Repr

structure Pool where
  width : Nat
  /-- How many completions are kept. -/
  room : Nat
  inbox : List PoolMessage
  scheduler : Scheduler String Job
  running : List Job
  inFlight : Nat
  completions : List Completion
  dropped : Nat
  status : PoolStatus

namespace Pool

def defaultRoom : Nat := 256

/-- A pool that runs at least one job at a time and keeps at least one completion. -/
def ofSize (width room : Nat) : Pool where
  width := max 1 width
  room := max 1 room
  inbox := []
  scheduler := .empty
  running := []
  inFlight := 0
  completions := []
  dropped := 0
  status := .serving

/-- A pool together with what it notes in the journal meanwhile. -/
abbrev Noted (α : Type) := α × List LogRecord

def startNote (p : Pool) : LogRecord :=
  ⟨"info", "worker.started", s!"max_concurrency={p.width}"⟩

def stopNote : LogRecord :=
  ⟨"info", "worker.stopped", "session dispatcher stopped"⟩

def send (p : Pool) (m : PoolMessage) : Except HostFault Pool :=
  if p.status = .serving then .ok { p with inbox := p.inbox ++ [m] } else .error .poolClosed

def submit (p : Pool) (stopping : Bool) (job : Job) : Except HostFault Pool :=
  if stopping then .error .poolClosed else p.send (.submit job)

/-- Hands a completion to the readers, or counts it if there is no room. -/
def forward (p : Pool) (c : Completion) : Noted Pool :=
  if p.completions.length < p.room then ({ p with completions := p.completions ++ [c] }, [])
  else ({ p with dropped := p.dropped + 1 },
    [⟨"warn", "worker.completion_dropped", s!"session_id={c.job.key}"⟩])

def failureNote (c : Completion) : List LogRecord :=
  match c.result with
  | .ok _ => []
  | .error fault =>
    [⟨"warn", "worker.job_failed", s!"session_id={c.job.key} error={fault.message}"⟩]

def handle (p : Pool) : PoolMessage → Noted Pool
  | .submit job => ({ p with scheduler := p.scheduler.enqueue job.key job }, [])
  | .finished c =>
    let p := { p with inFlight := p.inFlight - 1, scheduler := p.scheduler.complete c.job.key }
    let (p, notes) := p.forward c
    (p, failureNote c ++ notes)
  | .wake => (p, [])

def noting {α : Type} (f : Pool → α → Noted Pool) (p : Pool) (items : List α) : Noted Pool :=
  items.foldl (fun (acc : Noted Pool) item =>
    let (p, notes) := f acc.1 item
    (p, acc.2 ++ notes)) (p, [])

def receive (p : Pool) : Noted Pool :=
  noting handle { p with inbox := [] } p.inbox

def workerName (key : String) : String := s!"session-job-{key}"

def isNameable (name : String) : Bool := '\x00' ∉ name.toList

/-- Starts a job, or gives it up if the machine has no room for another worker. -/
def start (spawn : Job → Except String Unit) (p : Pool) (item : String × Job) : Noted Pool :=
  match spawn item.2 with
  | .ok () => ({ p with inFlight := p.inFlight + 1, running := p.running ++ [item.2] }, [])
  | .error reason =>
    let p := { p with scheduler := p.scheduler.complete item.1 }
    let (p, notes) := p.forward ⟨item.2, .error (.spawn (workerName item.1) reason)⟩
    (p, ⟨"error", "worker.spawn_failed", s!"session_id={item.1} error={reason}"⟩ :: notes)

/-- Starts jobs up to one whose worker cannot be given its name. -/
def startAll (spawn : Job → Except String Unit) (p : Pool) : List (String × Job) → Noted Pool
  | [] => (p, [])
  | item :: rest =>
    if isNameable (workerName item.1) then
      let (p, notes) := p.start spawn item
      let (p, more) := p.startAll spawn rest
      (p, notes ++ more)
    else ({ p with status := .broken }, [])

/-- Takes waiting jobs, as many as can be in progress beside those that are. -/
def take (p : Pool) : List (String × Job) × Pool :=
  let (items, scheduler) := p.scheduler.dequeue (p.width - p.inFlight)
  (items, { p with scheduler := scheduler })

def drain (p : Pool) : List (String × Job) × Pool :=
  let (items, scheduler) := p.scheduler.drain
  (items, { p with scheduler := scheduler })

def giveUp (p : Pool) (item : String × Job) : Noted Pool :=
  p.forward ⟨item.2, .error .poolClosed⟩

/-- Gives up the waiting jobs and closes. -/
def close (p : Pool) : Noted Pool :=
  let (items, p) := p.drain
  let (p, notes) := noting giveUp p items
  ({ p with status := .closed }, notes ++ [stopNote])

/-- Starts jobs, or closes if the engine is stopping and nothing is in progress. -/
def proceed (p : Pool) (stopping : Bool) (spawn : Job → Except String Unit) : Noted Pool :=
  if stopping then if p.inFlight = 0 then p.close else (p, [])
  else
    let (items, p) := p.take
    p.startAll spawn items

/-- Has the pool take its turn, if it is serving: it empties the inbox, then starts jobs or
closes. -/
def turn (p : Pool) (e : Engine) (spawn : Job → Except String Unit) : Pool × Engine :=
  if p.status = .serving then
    let (p, received) := p.receive
    let (p, started) := p.proceed e.stopping spawn
    (p, e.note (received ++ started))
  else (p, e)

/-- A job in progress comes to its end; the pool hears of it if it is serving. -/
def finish (p : Pool) (c : Completion) : Pool :=
  let p := { p with running := p.running.erase c.job }
  match p.send (.finished c) with
  | .ok p => p
  | .error _ => p

/-- What a shutdown brings when the pool does not serve any more. -/
def ending (p : Pool) : Except HostFault Unit :=
  if p.status = .broken then .error (.workerPanicked "session-dispatcher") else .ok ()

def read (p : Pool) : Option Completion × Pool :=
  match p.completions with
  | [] => (none, p)
  | c :: rest => (some c, { p with completions := rest })

end Pool

end FlowEngine
