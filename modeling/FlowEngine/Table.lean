/-! Values by key, in the order of the keys.

`put` looks for the key itself before it compares, so what is found does not depend on the order. -/

namespace FlowEngine

abbrev Table (κ α : Type) := List (κ × α)

namespace Table

variable {κ α : Type} [DecidableEq κ]

theorem lookup_cons_if (e : κ × α) (rest : Table κ α) (other : κ) :
    (e :: rest).lookup other = if other = e.1 then some e.2 else rest.lookup other := by
  obtain ⟨key, v⟩ := e
  cases hk : other == key with
  | true => simp only [List.lookup_cons, hk, if_pos (beq_iff_eq.mp hk)]
  | false => simp only [List.lookup_cons, hk, if_neg (beq_eq_false_iff_ne.mp hk)]

theorem mem_of_lookup {key : κ} {value : α} {t : Table κ α} (h : t.lookup key = some value) :
    (key, value) ∈ t := by
  obtain ⟨before, after, rfl, -⟩ := List.lookup_eq_some_iff.mp h
  exact List.mem_append_right _ List.mem_cons_self

theorem lookup_filter_ne (key other : κ) (t : Table κ α) :
    (t.filter fun e => decide (e.1 ≠ key)).lookup other =
      if other = key then none else t.lookup other := by
  induction t with
  | nil => simp
  | cons e rest ih =>
    rw [List.filter_cons, lookup_cons_if]
    by_cases h : e.1 = key
    · rw [if_neg (by simp [h]), ih]
      by_cases ho : other = key
      · simp [ho]
      · simp [ho, h]
    · rw [if_pos (by simp [h]), lookup_cons_if, ih]
      by_cases ho : other = e.1
      · simp [ho, h]
      · simp [ho]

variable [LT κ] [DecidableLT κ]

/-- Puts a value in the place of a key, in the stead of the one that is there. -/
def put (key : κ) (value : α) : Table κ α → Table κ α
  | [] => [(key, value)]
  | e :: rest =>
    if key = e.1 then (key, value) :: rest
    else if key < e.1 then (key, value) :: e :: rest
    else e :: put key value rest

theorem mem_put {key : κ} {value : α} {t : Table κ α} {e : κ × α} (h : e ∈ t.put key value) :
    e = (key, value) ∨ e ∈ t := by
  induction t with
  | nil => exact .inl (List.mem_singleton.mp h)
  | cons a rest ih =>
    rw [put] at h
    split at h
    · exact (List.mem_cons.mp h).imp id (List.mem_cons_of_mem _)
    · split at h
      · exact List.mem_cons.mp h
      · rcases List.mem_cons.mp h with rfl | h
        · exact .inr List.mem_cons_self
        · exact (ih h).imp id (List.mem_cons_of_mem _)

theorem lookup_put (t : Table κ α) (key other : κ) (v : α) :
    (t.put key v).lookup other = if other = key then some v else t.lookup other := by
  induction t with
  | nil => exact lookup_cons_if (key, v) [] other
  | cons e rest ih =>
    rw [put]
    split
    · next h =>
      rw [lookup_cons_if, lookup_cons_if, ← h]
      split <;> rfl
    · split
      · exact lookup_cons_if (key, v) (e :: rest) other
      · next h _ =>
        rw [lookup_cons_if, lookup_cons_if, ih]
        by_cases he : other = e.1
        · rw [if_pos he, if_pos he, if_neg fun hk => h (hk.symm.trans he)]
        · rw [if_neg he, if_neg he]

end Table

end FlowEngine
