import FlowEngine.Engine.Change
/-! Operations of an engine as trees.

A `Proc` says what an operation does between its calls to the provider. Nothing else happens while
it looks at or changes the engine; other operations can come in at a call, or while it waits. What a
call brings is up to the `Surroundings` in which the operation is run.

A wait polls the run of an app until it ends. It may last for ever, so `Proc.run` has a bound on the
number of polls of each wait and gives nothing if the bound is too small. -/

namespace FlowEngine

/-- Waiting for the run of an app. Durations are in nanoseconds. -/
structure Wait where
  tenant : String
  run : String
  step : String
  interval : Nat
  limit : Nat
  deriving DecidableEq, Repr

namespace Wait

abbrev Verdict := Except EngineFault String

def ofPoll (w : Wait) : Except ProviderFault AppRun → Option Verdict
  | .error fault => some (.error (.provider fault))
  | .ok ⟨.complete, answer⟩ => some (.ok (answer.getD ""))
  | .ok ⟨.failed, _⟩ => some (.error (.appRunFailed w.step))
  | .ok ⟨.notFound, _⟩ => some (.error (.appRunNotFound w.run))
  | .ok ⟨.queued, _⟩ => none
  | .ok ⟨.inProgress, _⟩ => none

/-- A wait ends when it has lasted longer than its limit. -/
def ofElapsed (w : Wait) (elapsed : Nat) : Option Verdict :=
  if w.limit < elapsed then some (.error (.appRunTimeout w.step w.run (elapsed / 1000000)))
  else none

end Wait

/-- An operation that ends with a value of type `α`. -/
inductive Proc (α : Type) where
  | done (value : α)
  | observe (next : Engine → Proc α)
  | update (change : Change) (next : Proc α)
  /-- Reads the time of day, in seconds. -/
  | clock (next : Int → Proc α)
  /-- Reads a clock that never goes back, in nanoseconds. -/
  | instant (next : Nat → Proc α)
  /-- Draws a random word. -/
  | sample (next : UInt64 → Proc α)
  /-- Lists the sessions of the store, in any order. -/
  | listing (next : List Handle → Proc α)
  | call (c : ProviderCall) (next : c.Outcome → Proc α)
  | await (w : Wait) (next : Wait.Verdict → Proc α)

namespace Proc

variable {α β : Type}

def bind : Proc α → (α → Proc β) → Proc β
  | done value, f => f value
  | observe next, f => observe fun e => (next e).bind f
  | update change next, f => update change (next.bind f)
  | clock next, f => clock fun t => (next t).bind f
  | instant next, f => instant fun t => (next t).bind f
  | sample next, f => sample fun w => (next w).bind f
  | listing next, f => listing fun l => (next l).bind f
  | call c next, f => call c fun r => (next r).bind f
  | await w next, f => await w fun v => (next v).bind f

instance : Monad Proc where
  pure := done
  bind := bind

end Proc

abbrev Attempt (α : Type) := ExceptT EngineFault Proc α

namespace Proc

def engine : Proc Engine := observe done
def change (c : Change) : Proc Unit := update c (done ())
def now : Proc Int := clock done
def stopwatch : Proc Nat := instant done
def word : Proc UInt64 := sample done
def listed : Proc (List Handle) := listing done
def ask (c : ProviderCall) : Proc c.Outcome := call c done

def session (h : Handle) : Proc Session := observe fun e => done (e.session h)

def log (level event message : String) : Proc Unit :=
  change (.log ⟨level, event, message⟩)

end Proc

namespace Attempt

variable {α : Type}

def ofExcept : Except EngineFault α → Attempt α
  | .ok value => pure value
  | .error fault => throw fault

def outcome (a : Attempt α) : Attempt (Except EngineFault α) :=
  ExceptT.lift a.run

def ask (c : ProviderCall) : Attempt c.Answer := do
  match ← (Proc.ask c : Proc _) with
  | .ok answer => pure answer
  | .error fault => throw (.provider fault)

def await (w : Wait) : Attempt String :=
  ExceptT.mk (Proc.await w .done)

end Attempt

/-- A run of something in a world of type `σ`; nothing, if it does not end. -/
abbrev Run (σ α : Type) := σ → Option (α × σ)

structure Surroundings (σ : Type) where
  engine : σ → Engine
  setEngine : Engine → σ → σ
  clock : σ → Int × σ
  instant : σ → Nat × σ
  sample : σ → UInt64 × σ
  listing : σ → List Handle × σ
  sleep : Nat → σ → σ
  call : (c : ProviderCall) → Run σ c.Outcome

/-- How long a pause goes on at most without a look at the engine's stop. -/
def pauseSlice : Nat := 200000000

/-- A pause in slices, the last of which may be shorter. -/
def pauseSlices (total : Nat) : List Nat :=
  List.replicate (total / pauseSlice) pauseSlice ++
    if total % pauseSlice = 0 then [] else [total % pauseSlice]

namespace Surroundings

variable {σ : Type}

/-- Pauses slice by slice. The engine's stop is noticed before each slice and at the end; says
whether there was none. -/
def pause (s : Surroundings σ) : List Nat → σ → Bool × σ
  | [], world => (!(s.engine world).stopping, world)
  | slice :: rest, world =>
    if (s.engine world).stopping then (false, world)
    else s.pause rest (s.sleep slice world)

/-- Polls until the wait ends, at most the given number of times. The engine's stop is noticed
before a poll and during the pause that follows one. -/
def await (s : Surroundings σ) (w : Wait) (started : Nat) : Nat → Run σ Wait.Verdict
  | 0, _ => none
  | polls + 1, world =>
    if (s.engine world).stopping then some (.error .interrupted, world)
    else
      match s.call (.appRun w.tenant w.run) world with
      | none => none
      | some (result, world) =>
        match w.ofPoll result with
        | some verdict => some (verdict, world)
        | none =>
          let (t, world) := s.instant world
          match w.ofElapsed (t - started) with
          | some verdict => some (verdict, world)
          | none =>
            match s.pause (pauseSlices w.interval) world with
            | (false, world) => some (.error .interrupted, world)
            | (true, world) => s.await w started polls world

end Surroundings

/-- Runs an operation; `patience` says how many polls a wait may take. -/
def Proc.run {σ α : Type} (s : Surroundings σ) (patience : Wait → Nat) : Proc α → Run σ α
  | .done value, world => some (value, world)
  | .observe next, world => (next (s.engine world)).run s patience world
  | .update change next, world =>
    next.run s patience (s.setEngine (change.apply (s.engine world)) world)
  | .clock next, world => let (t, world) := s.clock world; (next t).run s patience world
  | .instant next, world => let (t, world) := s.instant world; (next t).run s patience world
  | .sample next, world => let (w, world) := s.sample world; (next w).run s patience world
  | .listing next, world => let (l, world) := s.listing world; (next l).run s patience world
  | .call c next, world =>
    match s.call c world with
    | none => none
    | some (result, world) => (next result).run s patience world
  | .await w next, world =>
    let (t, world) := s.instant world
    match s.await w t (patience w) world with
    | none => none
    | some (verdict, world) => (next verdict).run s patience world

end FlowEngine
