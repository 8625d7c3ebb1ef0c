/-! A queue of items with keys, of which at most one of each key is taken at a time.

Items wait in the order of their arrival. A key becomes active when an item of it is taken, and is
so until the item is completed. -/

namespace FlowEngine

structure Scheduler (K V : Type) where
  pending : List (K × V)
  active : List K
  deriving DecidableEq, Repr

namespace Scheduler

variable {K V : Type} [DecidableEq K]

def empty : Scheduler K V := ⟨[], []⟩

def enqueue (s : Scheduler K V) (key : K) (value : V) : Scheduler K V :=
  { s with pending := s.pending ++ [(key, value)] }

/-- Splits waiting items into those that can be taken, at most `limit`, and those that stay. -/
def select : Nat → List K → List (K × V) → List (K × V) × List (K × V)
  | _, _, [] => ([], [])
  | limit, active, item :: rest =>
    if 0 < limit ∧ item.1 ∉ active then
      let (taken, left) := select (limit - 1) (item.1 :: active) rest
      (item :: taken, left)
    else
      let (taken, left) := select limit active rest
      (taken, item :: left)

def dequeue (s : Scheduler K V) (limit : Nat) : List (K × V) × Scheduler K V :=
  let (taken, left) := select limit s.active s.pending
  (taken, ⟨left, s.active ++ taken.map Prod.fst⟩)

def complete (s : Scheduler K V) (key : K) : Scheduler K V :=
  { s with active := s.active.filter fun k => k ≠ key }

def drain (s : Scheduler K V) : List (K × V) × Scheduler K V :=
  (s.pending, { s with pending := [] })

end Scheduler

end FlowEngine
