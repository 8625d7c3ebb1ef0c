import FlowEngine.Engine.Sweep
import FlowEngine.Host.Pool
import FlowEngine.Provider.Scripted
/-! Rehearsals: an engine run against a scripted provider, with a clock of its own.

A rehearsal is a list of operations. Further operations can be hooked onto calls of the provider;
they are performed inside the call. A session is addressed by an alias; an alias that nobody gave
stands for an identifier. -/

namespace FlowEngine.Rehearsal

inductive FlowChoice where
  | registered (flow : String) (version : Option UInt32)
  | given (flow : Flow)

/-- Jobs for a pool; a job has the alias of its session in the place of the identifier. -/
structure PoolPlan where
  width : Nat
  room : Option Nat
  jobs : List Job
  late : List Job

inductive RecordChange where
  | begin (now : Int)
  | complete (output : String) (now : Int)
  | fail (message : String) (now : Int)
  | enter (state : StepState) (now : Int)
  | setConversation (conversation : String)
  | setAppRun (run : String)

inductive SessionOp where
  | dump
  | addText (input text : String)
  | add (input : String) (value : Input)
  | replace (input : String) (value : Input)
  | clear (input : String)
  | addRedirected (step : String) (value : Input)
  | removeRedirected (step : String) (value : Input)
  | startRun
  | setState (state : SessionState)
  | stale (now : Int)
  | parameters
  | changeRecord (step : String) (change : RecordChange)
  | inUse (step : String)
  | prepare (tenant step : String)
  | resolveRedirects (step : String)
  | uploadMissing (tenant : String)
  | releaseSession
  | runnerStep (tenant step : String) (userInput : Option String) (withRequired : Bool)
  | remove
  | insertIntoStore

inductive TenantOp where
  | get
  | addText (input text : String)
  | add (input : String) (value : Input)
  | replace (input : String) (value : Input)
  | clear (input : String)
  | run
  | runStep (step : String) (userInput : Option String) (withRequired : Bool)
  | report (step : String)
  | render (template : Option String)
  | delete

inductive SweepTime where
  | given (now : Int)
  | after (seconds : Int)

inductive Op where
  | register (flow : Flow)
  | flowIds
  | create (session tenant flow : String) (version : Option UInt32)
  | insert (session tenant : String) (flow : FlowChoice) (now : Int) (store : Bool)
  | onSession (session : String) (op : SessionOp)
  | asTenant (session tenant : String) (op : TenantOp)
  | stored
  | removeFromStore (session : String)
  | release (tenant session : String) (values : List Input)
  | poll (tenant run step : String)
  | setFailure (target message : String)
  | clearFailure (target : String)
  | runApp (tenant : String) (request : ProviderRequest)
  | files
  | callsFor (target : String)
  | sweep (time : SweepTime)
  | sweeping
  | sweepWorker (interval : Nat) (remain : Nat)
  | stop (value : Bool)
  | sleep (milliseconds : Nat)
  | log (record : LogRecord)
  | pool (plan : PoolPlan)
  | unknown

structure PoolResult where
  submitted : List (Except HostFault Unit)
  completions : List Completion
  dropped : Nat
  shutdown : Except HostFault Unit
  late : List (Except HostFault Unit)
  extra : Bool

inductive Outcome where
  | done
  | fault (fault : EngineFault)
  | flowFault (fault : FlowFault)
  | flow (id : String) (version : UInt32)
  | created (flow : String) (version : UInt32)
  | inserted (stored : Bool) (graph : StepGraph)
  | text (s : String)
  | ids (all : List String)
  | flag (b : Bool)
  | count (n : Nat)
  | state (s : SessionState)
  | report (r : StepReport)
  | released (summary : ReleaseSummary)
  | values (vs : List Input)
  | session (s : Session)
  | parameters (ps : Parameters)
  | inUse (u : InUse)
  | stored (ids : List String)
  | files (stored : List StoredFile) (deleted : List String)
  | swept (outcome : SweepOutcome)
  | sweepWorker (sweeping : Bool) (left : List String)
  | pool (width : Nat) (result : PoolResult)
  | unfinished
  | unaddressed

/-- Operations to be performed when an event happens for the `nth` time. -/
structure Hook where
  event : String
  nth : Nat
  ops : List Op

/-- What is fixed for a rehearsal. -/
structure Setup where
  facilities : Facilities
  runner : Dispatcher
  sweepLimit : Nat
  reachable : Bool
  hooks : List Hook
  uploadFaults : List (String × ProviderFault)
  deleteFaults : List (String × ProviderFault)
  pollFaults : List (String × ProviderFault)
  /-- Runs whose answer is lost. -/
  emptyAnswers : List String

structure World where
  setup : Setup
  engine : Engine
  provider : ScriptedProvider
  elapsed : Nat
  draws : Nat
  events : List (String × Nat)
  /-- What hooked operations brought, the last one first. -/
  hooked : List Outcome
  aliases : List (String × Handle)

namespace World

def initial (setup : Setup) (registry : Registry) (logging : Bool) (provider : ScriptedProvider) :
    World where
  setup := setup
  engine := { Engine.empty with registry := registry, logging := logging }
  provider := provider
  elapsed := 0
  draws := 0
  events := []
  hooked := []
  aliases := []

def start : Int := 1760000000

def time (w : World) : Int := start + w.elapsed / 1000000000

def isReading (w : World) (t : Int) : Bool :=
  start ≤ t && t ≤ w.time

def handle? (w : World) (label : String) : Option Handle :=
  w.aliases.lookup label

def idOf (w : World) (label : String) : String :=
  match w.handle? label with
  | some h => (w.engine.session h).id
  | none => label

def bind (w : World) (label : String) (h : Handle) : World :=
  { w with aliases := (label, h) :: w.aliases }

def storedIds (w : World) : List String :=
  w.engine.stored.map fun h => (w.engine.session h).id

end World

end FlowEngine.Rehearsal
