import FlowEngine.Engine.Fault
/-! How the host of an engine fails: what it needs from the machine, and what its jobs come back
with. -/

namespace FlowEngine

inductive HostFault where
  | directory (path : String) (why : DiskFault)
  | spawn (worker reason : String)
  | poolClosed
  | workerPanicked (worker : String)
  | missingProvider
  | flow (fault : FlowFault)
  | job (fault : EngineFault)
  deriving DecidableEq, Repr

def HostFault.message : HostFault → String
  | .directory path why => s!"failed to create runtime path {path}: {why.message}"
  | .spawn worker reason => s!"failed to spawn worker thread `{worker}`: {reason}"
  | .poolClosed => "session worker pool is shut down"
  | .workerPanicked worker => s!"worker thread `{worker}` panicked"
  | .missingProvider => "engine requires `provider` settings"
  | .flow fault => fault.message
  | .job fault => fault.message

end FlowEngine
