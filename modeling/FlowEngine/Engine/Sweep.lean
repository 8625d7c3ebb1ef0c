import FlowEngine.Engine.Sessions
/-! Sweeping the store: sessions that have rested longer than their flows allow are deleted.

One sweep is in progress at a time. A sweep that takes too long is cut short. -/

namespace FlowEngine

structure SweepSummary where
  examined : Nat
  deleted : List String
  releasedFiles : Nat
  failedReleases : Nat
  cutShort : Bool
  deriving DecidableEq, Repr

inductive SweepOutcome where
  | skipped
  | completed (summary : SweepSummary)
  deriving DecidableEq, Repr

namespace Sweep

def blank : SweepSummary := ⟨0, [], 0, 0, false⟩

def isDue (now : Int) (s : Session) : Bool :=
  !s.hasRunningStep && s.isStale now

def visit (now : Int) (summary : SweepSummary) (h : Handle) : Proc SweepSummary := do
  let s ← Proc.session h
  match ← Sessions.removeIf s.id (isDue now) with
  | none => pure { summary with examined := summary.examined + 1 }
  | some release => do
    let s ← Proc.session h
    Proc.log "info" "reaper.deleted" <|
      s!"session_id={s.id} last_updated_at={s.lastUpdatedAt} ttl_minutes={s.flow.ttlInMinutes}"
    pure { summary with
      examined := summary.examined + 1
      deleted := summary.deleted ++ [s.id]
      releasedFiles := summary.releasedFiles + release.released
      failedReleases := summary.failedReleases + release.failed }

/-- Visits the sessions in turn, until the sweep has lasted longer than its limit. -/
def visitAll (limit : Nat) (now : Int) (started : Nat) :
    SweepSummary → List Handle → Proc SweepSummary
  | summary, [] => pure summary
  | summary, h :: rest => do
    let t ← Proc.stopwatch
    if limit < t - started then pure { summary with cutShort := true }
    else
      let summary ← visit now summary h
      visitAll limit now started summary rest

/-- Sweeps the store as of `now`; `limit` is in nanoseconds. -/
def run (limit : Nat) (now : Int) : Proc SweepOutcome := do
  let e ← Proc.engine
  if e.sweeping then
    Proc.log "warn" "reaper.skipped" "previous sweep still active"
    pure .skipped
  else
    Proc.change (.sweep true)
    let started ← Proc.stopwatch
    let listed ← Proc.listed
    let summary ← visitAll limit now started blank listed
    Proc.log "info" "reaper.sweep" <|
      s!"examined={summary.examined} deleted={summary.deleted.length} " ++
      s!"released_files={summary.releasedFiles} cut_short={summary.cutShort}"
    Proc.change (.sweep false)
    pure (.completed summary)

end Sweep

end FlowEngine
