import FlowEngine.Host.Launch
import FlowEngine.Rehearsal.Performance
/-! Rehearsals of a launched engine: tenants order runs one after another, each of a new session,
and then the engine is shut down. The session of the `n`th order has the alias `sn`. -/

namespace FlowEngine.Rehearsal

structure RunOrder where
  tenant : String
  flow : String
  version : Option UInt32
  inputs : List (String × String)
  deriving DecidableEq, Repr

inductive RunOutcome where
  | refused (fault : EngineFault)
  | notSubmitted (fault : HostFault)
  | ended (result : Except HostFault JobOutcome)
  | lost

structure LaunchReport where
  runs : List RunOutcome
  stoppingBefore : Bool
  stoppingAfter : Bool
  sweeping : Bool
  journal : List LogRecord
  after : World

structure Launched where
  pool : Pool
  world : World

def setupFor (h : Host) (reachable : Bool) : Setup where
  facilities := h.facilities
  runner := h.facilities.dispatcher
  sweepLimit := h.sweep.maxSeconds.toNat * 1000000000
  reachable := reachable
  hooks := []
  uploadFaults := []
  deleteFaults := []
  pollFaults := []
  emptyAnswers := []

def Launched.ofHost (h : Host) (reachable : Bool) : Launched where
  pool := h.pool
  world :=
    { World.initial (setupFor h reachable) .empty false (.new [] [] []) with engine := h.engine }

def unhooked : Setting := surroundings fun _ w => w

def runByPool (job : Job) (l : Launched) : RunOutcome × Launched :=
  match l.pool.submit l.world.engine.stopping job with
  | .error fault => (.notSubmitted fault, l)
  | .ok p =>
    let (p, w) := turnPool p l.world
    let (p, w) := drivePool unhooked 1 p w
    match p.read with
    | (none, p) => (.lost, ⟨p, w⟩)
    | (some c, p) => (.ended c.result, ⟨p, w⟩)

/-- Carries out an order; a text that is refused is left out. -/
def carryOut (label : String) (o : RunOrder) (l : Launched) : RunOutcome × Launched :=
  match performIn unhooked l.world (.create label o.tenant o.flow o.version) with
  | (.fault fault, w) => (.refused fault, { l with world := w })
  | (_, w) =>
    let w := o.inputs.foldl (fun w e =>
      (performIn unhooked w (.asTenant label o.tenant (.addText e.1 e.2))).2) w
    runByPool (.session o.tenant (w.idOf label)) { l with world := w }

def carryOutAll : Nat → List RunOrder → Launched → List RunOutcome × Launched
  | _, [], l => ([], l)
  | n, o :: rest, l =>
    let (outcome, l) := carryOut s!"s{n}" o l
    let (outcomes, l) := carryOutAll (n + 1) rest l
    (outcome :: outcomes, l)

def rehearseLaunched (h : Host) (reachable : Bool) (orders : List RunOrder) : LaunchReport :=
  let (runs, l) := carryOutAll 0 orders (.ofHost h reachable)
  let before := l.world.engine.stopping
  let h := { h with engine := l.world.engine, pool := l.pool }.shutDown
  { runs := runs
    stoppingBefore := before
    stoppingAfter := h.engine.stopping
    sweeping := h.engine.sweeping
    journal := h.engine.journal.reverse
    after := { l.world with engine := h.engine } }

end FlowEngine.Rehearsal
