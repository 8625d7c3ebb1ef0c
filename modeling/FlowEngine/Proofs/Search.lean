import FlowEngine.Proofs.Cycles

/-! # The search for cycles

`Search` is the search through the redirects of a flow with no bound on its depth: the stack and the
steps visited so far go in, and the steps visited by the end come out, or nothing if a step was met
again on the stack. Every flow has exactly one outcome of it, which the test for cycles gives. So a
flow is valid if and only if its parts are as they should be and no step reaches itself.
-/
namespace FlowEngine

namespace Flow

/-- The course of a search that follows identifiers in turn, each to its end. -/
inductive Search (f : Flow) :
    List StepId → List StepId → List StepId → Option (List StepId) → Prop where
  | ended {stack visited} : Search f stack visited [] (some visited)
  | closed {stack visited id rest} : id ∈ stack → Search f stack visited (id :: rest) none
  | known {stack visited id rest found} : id ∉ stack → id ∈ visited →
      Search f stack visited rest found → Search f stack visited (id :: rest) found
  | caught {stack visited id rest} : id ∉ stack → id ∉ visited →
      Search f (id :: stack) (id :: visited) (f.sourcesOf id) none →
      Search f stack visited (id :: rest) none
  | through {stack visited id rest visited' found} : id ∉ stack → id ∉ visited →
      Search f (id :: stack) (id :: visited) (f.sourcesOf id) (some visited') →
      Search f stack visited' rest found → Search f stack visited (id :: rest) found

variable {f : Flow} {stack visited ids : List StepId} {found found' : Option (List StepId)}

theorem Search.unique (h : f.Search stack visited ids found)
    (h' : f.Search stack visited ids found') : found = found' := by
  induction h generalizing found' with
  | ended =>
    cases h'
    rfl
  | closed hon =>
    cases h' with
    | closed => rfl
    | known hoff | caught hoff | through hoff => exact absurd hon hoff
  | known hoff hold _ ih =>
    cases h' with
    | closed hon => exact absurd hon hoff
    | known _ _ hrest => exact ih hrest
    | caught _ hnew | through _ hnew => exact absurd hold hnew
  | caught hoff hnew _ ih =>
    cases h' with
    | closed => rfl
    | known _ hold => exact absurd hold hnew
    | caught => rfl
    | through _ _ hthrough => cases ih hthrough
  | through hoff hnew _ _ ihsources ihrest =>
    cases h' with
    | closed hon => exact absurd hon hoff
    | known _ hold => exact absurd hold hnew
    | caught _ _ hcaught => cases ihsources hcaught
    | through _ _ hthrough hrest =>
      cases ihsources hthrough
      exact ihrest hrest

theorem sourcesOf_undeclared {id : StepId} (h : id ∉ f.steps.map Step.id) :
    f.sourcesOf id = [] := by
  rw [List.eq_nil_iff_forall_not_mem]
  intro source hsource
  exact h (Redirects.declared hsource)

/-- The bound on the depth is never met: a stack holds each step once at most. -/
theorem search_foldlM (depth : Nat) (hstack : stack.Nodup) (hsteps : stack ⊆ f.steps.map Step.id)
    (hdepth : f.steps.length < stack.length + depth) :
    f.Search stack visited ids (ids.foldlM (follow (f.visit depth stack) stack) visited) := by
  induction depth generalizing stack visited ids with
  | zero =>
    have hle := (hstack.subperm hsteps).length_le
    rw [List.length_map] at hle
    omega
  | succ depth ih =>
    induction ids generalizing visited with
    | nil => exact .ended
    | cons id rest ihrest =>
      rw [List.foldlM_cons, follow]
      by_cases hon : id ∈ stack
      · simp only [List.contains_iff_mem, hon, if_true]
        exact .closed hon
      · by_cases hold : id ∈ visited
        · simp only [List.contains_iff_mem, hon, hold, if_false, if_true]
          exact .known hon hold ihrest
        · simp only [List.contains_iff_mem, hon, hold, if_false]
          have hsources : f.Search (id :: stack) (id :: visited) (f.sourcesOf id)
              (f.visit (depth + 1) stack visited id) := by
            rw [visit]
            by_cases hid : id ∈ f.steps.map Step.id
            · refine ih (List.nodup_cons.mpr ⟨hon, hstack⟩) (List.cons_subset.mpr ⟨hid, hsteps⟩) ?_
              rw [List.length_cons]
              omega
            · rw [sourcesOf_undeclared hid]
              exact .ended
          cases hvisit : f.visit (depth + 1) stack visited id with
          | none => exact .caught hon hold (hvisit ▸ hsources)
          | some visited' => exact .through hon hold (hvisit ▸ hsources) ihrest

theorem search_outcome (f : Flow) : ∃ found,
    f.Search [] [] (f.steps.map Step.id) found ∧ f.hasCycle = found.isNone :=
  ⟨_, search_foldlM (f.steps.length + 1) List.nodup_nil (List.nil_subset _) (by simp), rfl⟩

theorem hasCycle_iff_step (f : Flow) :
    f.hasCycle = true ↔ ∃ s ∈ f.steps, f.Reaches s.id s.id := by
  rw [hasCycle_iff_reaches]
  constructor
  · rintro ⟨a, ha⟩
    obtain ⟨s, hs, rfl⟩ := List.mem_map.mp ha.declared
    exact ⟨s, hs, ha⟩
  · rintro ⟨s, -, hs⟩
    exact ⟨s.id, hs⟩

/-- On every flow the search ends, with one outcome, and it is caught in a cycle if and only if some
step reaches itself by redirects; so the test says. Of steps with the same identifier the last one
has the redirects, and an identifier that no step is declared with has none. -/
theorem search_caught_iff_cycle (f : Flow) :
    (∃! found, f.Search [] [] (f.steps.map Step.id) found) ∧
      (f.hasCycle = true ↔ f.Search [] [] (f.steps.map Step.id) none) ∧
      (f.hasCycle = true ↔ ∃ s ∈ f.steps, f.Reaches s.id s.id) ∧
      ∀ a b, f.Redirects a b ↔ ∃ s, f.DeclaredLast s ∧ s.id = a ∧ b ∈ s.sources := by
  obtain ⟨found, hsearch, htest⟩ := f.search_outcome
  refine ⟨⟨found, hsearch, fun other hother => hother.unique hsearch⟩, ?_, f.hasCycle_iff_step,
    fun a b => redirects_iff_declaredLast⟩
  rw [htest, Option.isNone_iff_eq_none]
  constructor
  · rintro rfl
    exact hsearch
  · intro hnone
    exact hsearch.unique hnone

/-- The first review takes its own output; the second, which counts, does not. -/
example : Flow.hasCycle { Sample.flow with
    steps := [Sample.step Sample.review [.redirect Sample.review "notes"],
      Sample.step Sample.review [.redirect Sample.draft "draft"]] } = false := by
  decide +kernel

/-! ### Validity -/

/-- A flow is accepted if and only if its parts are as they should be and no step reaches itself by
redirects. It is refused for a cycle if and only if a cycle is all that is wrong; otherwise it is
refused for a defect that it has. -/
theorem validate_decides (f : Flow) :
    (f.validate = .ok () ↔ f.WellFormed ∧ ¬ ∃ s ∈ f.steps, f.Reaches s.id s.id) ∧
      (∀ name, f.validate = .error (.cyclicSteps name) ↔
        name = f.id.text ∧ f.WellFormed ∧ ∃ s ∈ f.steps, f.Reaches s.id s.id) ∧
      (¬ f.WellFormed ↔
        ∃ defect, f.validate = .error (.invalid f.id.text defect) ∧ f.Has defect) := by
  rw [← hasCycle_iff_step, Bool.not_eq_true]
  rcases f.validate_cases with ⟨hv, hw, hcycle⟩ | ⟨hv, hw, hcycle⟩ | ⟨defect, hv, hhas⟩
  · simp [hv, hw, hcycle]
  · simp [hv, hw, hcycle, eq_comm]
  · have hw : ¬ f.WellFormed := fun hw => hw.lacks hhas
    simp [hv, hw, hhas]

end Flow

end FlowEngine
