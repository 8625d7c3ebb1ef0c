import FlowEngine.Flow.Validity
import FlowEngine.Table
/-! The accepted flows, looked up by identifier and version.

At most one flow is accepted for each identifier and version, the first that is well formed. A
request without a version gets the greatest one. -/

namespace FlowEngine

/-- Whether texts are in order by their bytes, or equal; for well-formed text this is the order of
the code points. -/
def textLe (a b : String) : Bool :=
  !decide (b < a)

structure Registry where
  flows : Table String (Table UInt32 Flow)

namespace Registry

def empty : Registry := ⟨[]⟩

def accepted (r : Registry) : List Flow :=
  r.flows.flatMap fun e => e.2.map Prod.snd

/-- The flows of an identifier; there are none where it has no entry. -/
def versions (r : Registry) (id : String) : Table UInt32 Flow :=
  (r.flows.lookup id).getD []

def find? (r : Registry) (id : String) (version : UInt32) : Option Flow := do
  let versions ← r.flows.lookup id
  versions.lookup version

def latest? (r : Registry) (id : String) : Option Flow := do
  let versions ← r.flows.lookup id
  let (_, flow) ← versions.getLast?
  return flow

/-- Offers a flow. The answer goes with the registry as it is afterwards: the identifier of a flow
that is well formed has an entry by the time that its versions are looked at. -/
def offer (r : Registry) (f : Flow) : Except FlowFault Flow × Registry :=
  match f.validate with
  | .error fault => (.error fault, r)
  | .ok () =>
    match (r.versions f.id.text).lookup f.version with
    | some _ =>
      (.error (.duplicateVersion f.id.text f.version),
        ⟨r.flows.put f.id.text (r.versions f.id.text)⟩)
    | none => (.ok f, ⟨r.flows.put f.id.text ((r.versions f.id.text).put f.version f)⟩)

def register (r : Registry) (f : Flow) : Except FlowFault Registry :=
  match r.offer f with
  | (.error fault, _) => .error fault
  | (.ok _, r) => .ok r

def load (r : Registry) (id : String) (version : Option UInt32) : Except FlowFault Flow :=
  let found :=
    match version with
    | some v => r.find? id v
    | none => r.latest? id
  match found with
  | some f => .ok f
  | none => .error (.unknownFlow id version)

theorem load_eq (r : Registry) (id : String) (version : Option UInt32) :
    r.load id version =
      (version.elim (r.latest? id) (r.find? id)).elim (.error (.unknownFlow id version)) .ok := by
  rw [load.eq_def]
  dsimp only
  cases version with
  | some v =>
    dsimp only [Option.elim_some]
    cases r.find? id v <;> rfl
  | none =>
    dsimp only [Option.elim_none]
    cases r.latest? id <;> rfl

def flowIds (r : Registry) : List String :=
  r.flows.map Prod.fst

end Registry

end FlowEngine
