import FlowEngine.Flow.Validity
import Mathlib.Data.List.Duplicate

/-! # The parts of a flow

The checks of a flow go through its inputs, its steps and its references, and end with the first
defect that they meet. They pass if and only if every part is as it should be, and the defect that
they name is one that the flow has.
-/
namespace FlowEngine

namespace Flow

/-- All that is asked of a flow, cycles apart. -/
structure WellFormed (f : Flow) : Prop where
  named : Text.isBlank f.name = false
  lasting : 0 < f.ttlInMinutes
  inputsDistinct : (f.inputs.map FlowInput.id).Nodup
  inputsNamed : ∀ i ∈ f.inputs, Text.isBlank i.name = false
  stepsDistinct : (f.steps.map Step.id).Nodup
  targetsGiven : ∀ s ∈ f.steps, Text.isBlank s.target.externalId = false
  inputsKnown : ∀ s ∈ f.steps, ∀ id ∈ s.inputRefs, ∃ i ∈ f.inputs, i.id = id
  sourcesKnown : ∀ s ∈ f.steps, ∀ id ∈ s.sources, ∃ t ∈ f.steps, t.id = id

/-- What each defect says of a flow. -/
def Has (f : Flow) : FlowDefect → Prop
  | .blankName => Text.isBlank f.name = true
  | .zeroTtl => f.ttlInMinutes = 0
  | .duplicateInput id => List.Duplicate id (f.inputs.map FlowInput.id)
  | .blankInputName id => ∃ i ∈ f.inputs, i.id = id ∧ Text.isBlank i.name = true
  | .duplicateStep id => List.Duplicate id (f.steps.map Step.id)
  | .blankTarget id => ∃ s ∈ f.steps, s.id = id ∧ Text.isBlank s.target.externalId = true
  | .unknownInput step id =>
    ∃ s ∈ f.steps, s.id = step ∧ id ∈ s.inputRefs ∧ ∀ i ∈ f.inputs, i.id ≠ id
  | .unknownSource step id =>
    ∃ s ∈ f.steps, s.id = step ∧ id ∈ s.sources ∧ ∀ t ∈ f.steps, t.id ≠ id
  | .stated _ => False

variable {f : Flow} {defect : FlowDefect}

theorem WellFormed.lacks (hw : f.WellFormed) : ¬ f.Has defect := by
  intro h
  cases defect with
  | blankName => exact Bool.false_ne_true (hw.named.symm.trans h)
  | zeroTtl =>
    have hlasting := hw.lasting
    rw [h] at hlasting
    exact absurd hlasting (by decide)
  | duplicateInput id => exact h.not_nodup hw.inputsDistinct
  | blankInputName id =>
    obtain ⟨i, hi, -, hblank⟩ := h
    exact Bool.false_ne_true ((hw.inputsNamed i hi).symm.trans hblank)
  | duplicateStep id => exact h.not_nodup hw.stepsDistinct
  | blankTarget id =>
    obtain ⟨s, hs, -, hblank⟩ := h
    exact Bool.false_ne_true ((hw.targetsGiven s hs).symm.trans hblank)
  | unknownInput step id =>
    obtain ⟨s, hs, -, hid, hunknown⟩ := h
    obtain ⟨i, hi, he⟩ := hw.inputsKnown s hs id hid
    exact hunknown i hi he
  | unknownSource step id =>
    obtain ⟨s, hs, -, hid, hunknown⟩ := h
    obtain ⟨t, ht, he⟩ := hw.sourcesKnown s hs id hid
    exact hunknown t ht he
  | stated reason => exact h

/-! ### Declarations -/

section Declarations

variable {α κ : Type} [DecidableEq κ] {key : α → κ} {blank : α → Bool}
  {repeated unnamed : κ → FlowDefect} {met : List κ} {l : List α}

/-- Goes through declarations that each have a key and a text; refuses a key that has been met, and
a blank text. -/
def checkEach (key : α → κ) (blank : α → Bool) (repeated unnamed : κ → FlowDefect) :
    List κ → List α → Except FlowDefect Unit
  | _, [] => .ok ()
  | met, a :: rest =>
    if key a ∈ met then .error (repeated (key a))
    else if blank a then .error (unnamed (key a))
    else checkEach key blank repeated unnamed (key a :: met) rest

theorem checkInputs_eq (met : List FlowInputId) (inputs : List FlowInput) :
    checkInputs met inputs = checkEach FlowInput.id (fun i => Text.isBlank i.name)
      .duplicateInput .blankInputName met inputs := by
  induction inputs generalizing met with
  | nil => rfl
  | cons i rest ih => rw [checkInputs, checkEach, ih]

theorem checkSteps_eq (met : List StepId) (steps : List Step) :
    checkSteps met steps = checkEach Step.id (fun s => Text.isBlank s.target.externalId)
      .duplicateStep .blankTarget met steps := by
  induction steps generalizing met with
  | nil => rfl
  | cons s rest ih => rw [checkSteps, checkEach, ih]

theorem checkEach_ok (h : checkEach key blank repeated unnamed met l = .ok ()) :
    (l.map key).Nodup ∧ (∀ a ∈ l, blank a = false) ∧ ∀ a ∈ l, key a ∉ met := by
  induction l generalizing met with
  | nil => simp
  | cons a rest ih =>
    rw [checkEach] at h
    split at h
    · cases h
    · next hmet =>
      split at h
      · cases h
      · next hblank =>
        obtain ⟨hnodup, hgiven, hnew⟩ := ih h
        refine ⟨?_, List.forall_mem_cons.mpr ⟨by simpa using hblank, hgiven⟩,
          List.forall_mem_cons.mpr ⟨hmet, fun b hb hm => hnew b hb (List.mem_cons_of_mem _ hm)⟩⟩
        rw [List.map_cons, List.nodup_cons]
        refine ⟨?_, hnodup⟩
        intro hm
        obtain ⟨b, hb, he⟩ := List.mem_map.mp hm
        exact hnew b hb (he ▸ List.mem_cons_self)

theorem checkEach_error (h : checkEach key blank repeated unnamed met l = .error defect) :
    (∃ k, defect = repeated k ∧ (k ∈ met ∧ k ∈ l.map key ∨ List.Duplicate k (l.map key))) ∨
      ∃ a ∈ l, defect = unnamed (key a) ∧ blank a = true := by
  induction l generalizing met with
  | nil => cases h
  | cons a rest ih =>
    rw [checkEach] at h
    split at h
    · next hmet =>
      cases h
      exact .inl ⟨key a, rfl, .inl ⟨hmet, List.mem_cons_self⟩⟩
    · split at h
      · next hblank =>
        cases h
        exact .inr ⟨a, List.mem_cons_self, rfl, hblank⟩
      · rcases ih h with ⟨k, rfl, hk⟩ | ⟨b, hb, rfl, hblank⟩
        · refine .inl ⟨k, rfl, ?_⟩
          rcases hk with ⟨hmet, hrest⟩ | hk
          · rcases List.mem_cons.mp hmet with rfl | hmet
            · exact .inr hrest.duplicate_cons_self
            · exact .inl ⟨hmet, List.mem_cons_of_mem _ hrest⟩
          · exact .inr (hk.duplicate_cons _)
        · exact .inr ⟨b, List.mem_cons_of_mem _ hb, rfl, hblank⟩

theorem checkEach_start (h : checkEach key blank repeated unnamed [] l = .error defect) :
    (∃ k, defect = repeated k ∧ List.Duplicate k (l.map key)) ∨
      ∃ a ∈ l, defect = unnamed (key a) ∧ blank a = true := by
  rcases checkEach_error h with ⟨k, rfl, ⟨hmet, -⟩ | hk⟩ | hb
  · cases hmet
  · exact .inl ⟨k, rfl, hk⟩
  · exact .inr hb

theorem checkInputs_error (h : checkInputs [] f.inputs = .error defect) : f.Has defect := by
  rw [checkInputs_eq] at h
  rcases checkEach_start h with ⟨id, rfl, hid⟩ | ⟨i, hi, rfl, hblank⟩
  · exact hid
  · exact ⟨i, hi, rfl, hblank⟩

theorem checkSteps_error (h : checkSteps [] f.steps = .error defect) : f.Has defect := by
  rw [checkSteps_eq] at h
  rcases checkEach_start h with ⟨id, rfl, hid⟩ | ⟨s, hs, rfl, hblank⟩
  · exact hid
  · exact ⟨s, hs, rfl, hblank⟩

end Declarations

/-! ### References -/

section Each

variable {α ε : Type} {check : α → Except ε Unit} {l : List α}

theorem forM_eq_ok (h : l.forM check = .ok ()) : ∀ a ∈ l, check a = .ok () := by
  induction l with
  | nil => simp
  | cons a rest ih =>
    rw [List.forM_eq_forM, List.forM_cons] at h
    cases ha : check a with
    | error e => simp [ha, bind, Except.bind] at h
    | ok =>
      simp only [ha, bind, Except.bind] at h
      exact List.forall_mem_cons.mpr ⟨ha, ih h⟩

theorem forM_eq_error {e : ε} (h : l.forM check = .error e) : ∃ a ∈ l, check a = .error e := by
  induction l with
  | nil => cases h
  | cons a rest ih =>
    rw [List.forM_eq_forM, List.forM_cons] at h
    cases ha : check a with
    | error e' =>
      simp only [ha, bind, Except.bind, Except.error.injEq] at h
      exact ⟨a, List.mem_cons_self, ha.trans (congrArg _ h)⟩
    | ok =>
      simp only [ha, bind, Except.bind] at h
      obtain ⟨b, hb, hcheck⟩ := ih h
      exact ⟨b, List.mem_cons_of_mem _ hb, hcheck⟩

end Each

theorem checkReferences_ok {s : Step} (h : f.checkReferences s = .ok ()) :
    (∀ id ∈ s.inputRefs, ∃ i ∈ f.inputs, i.id = id) ∧
      ∀ id ∈ s.sources, ∃ t ∈ f.steps, t.id = id := by
  rw [checkReferences] at h
  split at h
  · cases h
  · next hinputs =>
    split at h
    · cases h
    · next hsources => exact ⟨by simpa using hinputs, by simpa using hsources⟩

theorem checkReferences_error {s : Step} (hs : s ∈ f.steps)
    (h : f.checkReferences s = .error defect) : f.Has defect := by
  rw [checkReferences] at h
  split at h
  · next id hfind =>
    cases h
    have hid := List.find?_some hfind
    exact ⟨s, hs, rfl, List.mem_of_find?_eq_some hfind, by simpa using hid⟩
  · split at h
    · next id hfind =>
      cases h
      have hid := List.find?_some hfind
      exact ⟨s, hs, rfl, List.mem_of_find?_eq_some hfind, by simpa using hid⟩
    · cases h

/-! ### All parts -/

theorem checkParts_cases (f : Flow) :
    f.checkParts = .ok () ∧ f.WellFormed ∨
      ∃ defect, f.checkParts = .error defect ∧ f.Has defect := by
  simp only [checkParts, bind, Except.bind]
  split
  · next hname => exact .inr ⟨_, rfl, hname⟩
  · next hname =>
    split
    · next httl => exact .inr ⟨_, rfl, httl⟩
    · next httl =>
      cases hinputs : checkInputs [] f.inputs with
      | error defect => exact .inr ⟨defect, rfl, checkInputs_error hinputs⟩
      | ok =>
        cases hsteps : checkSteps [] f.steps with
        | error defect => exact .inr ⟨defect, rfl, checkSteps_error hsteps⟩
        | ok =>
          cases hreferences : f.steps.forM f.checkReferences with
          | error defect =>
            obtain ⟨s, hs, hcheck⟩ := forM_eq_error hreferences
            exact .inr ⟨defect, rfl, checkReferences_error hs hcheck⟩
          | ok =>
            rw [checkInputs_eq] at hinputs
            rw [checkSteps_eq] at hsteps
            obtain ⟨hinputIds, hinputNames, -⟩ := checkEach_ok hinputs
            obtain ⟨hstepIds, htargets, -⟩ := checkEach_ok hsteps
            have known := fun s hs => checkReferences_ok (forM_eq_ok hreferences s hs)
            have lasting : 0 < f.ttlInMinutes := UInt64.pos_iff_ne_zero.mpr httl
            exact .inl ⟨rfl, by simpa using hname, lasting, hinputIds, hinputNames, hstepIds,
              htargets, fun s hs => (known s hs).1, fun s hs => (known s hs).2⟩

theorem validate_cases (f : Flow) :
    f.validate = .ok () ∧ f.WellFormed ∧ f.hasCycle = false ∨
      f.validate = .error (.cyclicSteps f.id.text) ∧ f.WellFormed ∧ f.hasCycle = true ∨
      ∃ defect, f.validate = .error (.invalid f.id.text defect) ∧ f.Has defect := by
  rcases checkParts_cases f with ⟨hok, hw⟩ | ⟨defect, herror, hhas⟩
  · cases hcycle : f.hasCycle with
    | false => exact .inl ⟨by simp [validate, hok, hcycle], hw, rfl⟩
    | true => exact .inr (.inl ⟨by simp [validate, hok, hcycle], hw, rfl⟩)
  · exact .inr (.inr ⟨defect, by simp [validate, herror], hhas⟩)

theorem validate_ok (h : f.validate = .ok ()) : f.WellFormed ∧ f.hasCycle = false := by
  rcases validate_cases f with ⟨-, hparts⟩ | ⟨herror, -⟩ | ⟨defect, herror, -⟩
  · exact hparts
  · rw [herror] at h
    cases h
  · rw [herror] at h
    cases h

end Flow

end FlowEngine
