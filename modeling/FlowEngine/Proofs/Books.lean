import FlowEngine.Proofs.Tables
import FlowEngine.Provider.Scripted
import FlowEngine.Session.InUse
import Mathlib.Data.List.Perm.Basic

/-! # What is in the books

The keys of a book increase, so that what is put in the place of the values of a key displaces all
of them. No two values of a session have the same slot. Each change of the values of a session is
followed in the files that they have.
-/
namespace FlowEngine

namespace InputBook

def Sorted (b : InputBook) : Prop := Table.Sorted b.entries

section Entries

variable {key : String} {vs : List Input} {entries : Table String (List Input)}

theorem flatMap_put (h : entries.Sorted) :
    ((entries.put key vs).flatMap Prod.snd).Perm
      (vs ++ (entries.filter fun b => decide (b.1 ≠ key)).flatMap Prod.snd) := by
  induction entries with
  | nil => simp [Table.put]
  | cons a rest ih =>
    obtain ⟨hfirst, hrest⟩ := List.pairwise_cons.mp h
    rw [Table.put]
    split
    · next heq =>
      rw [List.filter_cons_of_neg (by simp [heq]),
        Table.filter_ne_of_lt fun b hb => heq ▸ hfirst b hb]
      exact .refl _
    · next hne =>
      rw [List.filter_cons_of_pos (by simp [Ne.symm hne])]
      split
      · next hlt =>
        rw [Table.filter_ne_of_lt fun b hb => String.lt_trans hlt (hfirst b hb)]
        exact .refl _
      · simp only [List.flatMap_cons]
        refine ((ih hrest).append_left a.2).trans ?_
        rw [← List.append_assoc, ← List.append_assoc]
        exact List.perm_append_comm.append_right _

theorem flatMap_split (h : entries.Sorted) :
    (entries.flatMap Prod.snd).Perm ((entries.lookup key).getD [] ++
      (entries.filter fun b => decide (b.1 ≠ key)).flatMap Prod.snd) := by
  induction entries with
  | nil => exact .refl _
  | cons a rest ih =>
    obtain ⟨hfirst, hrest⟩ := List.pairwise_cons.mp h
    rw [Table.lookup_cons_if]
    by_cases heq : key = a.1
    · rw [if_pos heq, List.filter_cons_of_neg (by simp [heq]),
        Table.filter_ne_of_lt fun b hb => heq ▸ hfirst b hb]
      exact .refl _
    · rw [if_neg heq, List.filter_cons_of_pos (by simp [Ne.symm heq])]
      simp only [List.flatMap_cons]
      refine ((ih hrest).append_left a.2).trans ?_
      rw [← List.append_assoc, ← List.append_assoc]
      exact List.perm_append_comm.append_right _

end Entries

namespace Sorted

variable {b : InputBook}

theorem empty : InputBook.empty.Sorted := List.Pairwise.nil

theorem set (hb : b.Sorted) (key : String) (vs : List Input) : (b.set key vs).Sorted :=
  Table.Sorted.put hb key vs

theorem erase (hb : b.Sorted) (key : String) : (b.erase key).Sorted :=
  List.Pairwise.filter _ hb

theorem compacted (hb : b.Sorted) : b.compacted.Sorted := List.Pairwise.filter _ hb

theorem map (hb : b.Sorted) (f : Input → Input) : (b.map f).Sorted :=
  List.pairwise_map.mpr hb

theorem values_erase (hb : b.Sorted) (key : String) :
    ((b.erase key).values ++ b.get key).Perm b.values :=
  List.perm_append_comm.trans (flatMap_split hb).symm

theorem values_set (hb : b.Sorted) (key : String) (vs : List Input) :
    ((b.set key vs).values ++ b.get key).Perm (vs ++ b.values) := by
  refine ((flatMap_put hb).append_right _).trans ?_
  rw [List.append_assoc]
  exact (hb.values_erase key).append_left vs

theorem values_put (hb : b.Sorted) (key : String) (vs : List Input) :
    (b.set key (b.get key ++ vs)).values.Perm (b.values ++ vs) := by
  have h := hb.values_set key (b.get key ++ vs)
  rw [List.append_assoc] at h
  have hcancel := (List.perm_append_left_iff (b.get key)).mp (List.perm_append_comm.trans h)
  exact hcancel.trans List.perm_append_comm

theorem append {a : InputBook} (ha : a.Sorted) (b : InputBook) : (a.append b).Sorted ∧
    (a.append b).values.Perm (a.values ++ b.values) := by
  rw [InputBook.append, InputBook.values.eq_def b]
  induction b.entries generalizing a with
  | nil => exact ⟨ha, by simp⟩
  | cons e rest ih =>
    obtain ⟨hsorted, hperm⟩ := ih (ha.set e.1 (a.get e.1 ++ e.2))
    refine ⟨hsorted, hperm.trans ?_⟩
    rw [List.flatMap_cons, ← List.append_assoc]
    exact (ha.values_put e.1 e.2).append_right _

end Sorted

theorem values_map (b : InputBook) (f : Input → Input) : (b.map f).values = b.values.map f := by
  rw [map, values, values, List.flatMap_map, List.map_flatMap]

theorem values_compacted (b : InputBook) : b.compacted.values = b.values := by
  rw [compacted, values, values]
  induction b.entries with
  | nil => rfl
  | cons e rest ih =>
    rw [List.filter_cons]
    split
    · rw [List.flatMap_cons, List.flatMap_cons, ih]
    · next hempty =>
      have hnil : e.2 = [] := by simpa using hempty
      rw [List.flatMap_cons, hnil, ih]
      rfl

theorem get_map (b : InputBook) (f : Input → Input) (key : String) :
    (b.map f).get key = (b.get key).map f := by
  rw [map, get, get, get?, get?]
  induction b.entries with
  | nil => rfl
  | cons e rest ih =>
    rw [List.map_cons, Table.lookup_cons_if, Table.lookup_cons_if]
    split
    · rfl
    · exact ih

theorem get_compacted {b : InputBook} (hb : b.Sorted) (key : String) :
    b.compacted.get key = b.get key := by
  rw [compacted, get, get, get?, get?]
  have hentries : Table.Sorted b.entries := hb
  generalize b.entries = entries at hentries
  induction entries with
  | nil => rfl
  | cons e rest ih =>
    obtain ⟨hfirst, hrest⟩ := List.pairwise_cons.mp hentries
    by_cases hempty : e.2 = []
    · rw [List.filter_cons_of_neg (by simp [hempty]), ih hrest, Table.lookup_cons_if]
      by_cases heq : key = e.1
      · rw [if_pos heq, Table.lookup_of_lt fun b hb => heq ▸ hfirst b hb, hempty]
        rfl
      · rw [if_neg heq]
    · rw [List.filter_cons_of_pos (by simpa using hempty), Table.lookup_cons_if,
        Table.lookup_cons_if]
      split
      · rfl
      · exact ih hrest

theorem get_sublist (b : InputBook) (key : String) : (b.get key).Sublist b.values := by
  rw [get, get?, values]
  induction b.entries with
  | nil => exact .slnil
  | cons e rest ih =>
    rw [Table.lookup_cons_if, List.flatMap_cons]
    split
    · exact List.sublist_append_left _ _
    · exact ih.trans (List.sublist_append_right _ _)

theorem get_subset (b : InputBook) (key : String) : b.get key ⊆ b.values :=
  (b.get_sublist key).subset

end InputBook

def Input.stored? (v : Input) : Option StoredFile :=
  v.file.map fun file => ⟨file, v.name, v.payload⟩

def filesOf (values : List Input) : List StoredFile := values.filterMap Input.stored?

theorem filesOf_ids (values : List Input) :
    (filesOf values).map StoredFile.id = values.filterMap Input.file := by
  rw [filesOf, List.map_filterMap]
  refine List.filterMap_congr fun v _ => ?_
  rw [Input.stored?, Option.map_map]
  cases v.file <;> rfl

namespace Session

def values (s : Session) : List Input := s.inputs.values ++ s.redirected.values

def files (s : Session) : List String := s.values.filterMap Input.file

structure Booked (s : Session) : Prop where
  inputs : s.inputs.Sorted
  redirected : s.redirected.Sorted
  slots : (s.values.map Input.slot).Nodup
  below : ∀ v ∈ s.values, v.slot < s.nextSlot

/-- From one session to the other some values have gone; others may have come, without files. -/
structure Trade (s : Session) (gone : List Input) (t : Session) : Prop where
  booked : t.Booked
  files : (filesOf t.values ++ filesOf gone).Perm (filesOf s.values)

/-- From one session to the other some values have gone, and others have come in new slots. -/
structure Turnover (s : Session) (gone come : List Input) (t : Session) : Prop where
  inputs : t.inputs.Sorted
  redirected : t.redirected.Sorted
  values : (t.values ++ gone).Perm (come ++ s.values)
  distinct : (come.map Input.slot).Nodup
  slots : ∀ v ∈ come, s.nextSlot ≤ v.slot ∧ v.slot < t.nextSlot
  later : s.nextSlot ≤ t.nextSlot

theorem booked_bare (id tenant : String) (flow : Flow) (now : Int) (graph : StepGraph) :
    (bare id tenant flow now graph).Booked :=
  ⟨.empty, .empty, List.nodup_nil, fun _ hv => nomatch hv⟩

variable {s t : Session} {gone come : List Input}

namespace Turnover

theorem refl (hs : s.Booked) : s.Turnover [] [] s :=
  ⟨hs.inputs, hs.redirected, by simp, List.nodup_nil, nofun, Nat.le_refl _⟩

theorem trans {u : Session} {gone' come' : List Input} (h : s.Turnover gone come t)
    (h' : t.Turnover gone' come' u) : s.Turnover (gone' ++ gone) (come' ++ come) u := by
  refine ⟨h'.inputs, h'.redirected, ?_, ?_, ?_, Nat.le_trans h.later h'.later⟩
  · have hlast := h'.values.append_right gone
    have hfirst := h.values.append_left come'
    simp only [← List.append_assoc] at hlast hfirst ⊢
    exact hlast.trans hfirst
  · rw [List.map_append]
    refine List.nodup_append.mpr ⟨h'.distinct, h.distinct, ?_⟩
    intro a ha b hb heq
    obtain ⟨v, hv, rfl⟩ := List.mem_map.mp ha
    obtain ⟨w, hw, rfl⟩ := List.mem_map.mp hb
    have hnew := (h'.slots v hv).1
    have hold := (h.slots w hw).2
    omega
  · intro v hv
    rcases List.mem_append.mp hv with hv | hv
    · exact ⟨Nat.le_trans h.later (h'.slots v hv).1, (h'.slots v hv).2⟩
    · exact ⟨(h.slots v hv).1, Nat.lt_of_lt_of_le (h.slots v hv).2 h'.later⟩

theorem slots_nodup (hs : s.Booked) (h : s.Turnover gone come t) :
    ((come ++ s.values).map Input.slot).Nodup := by
  rw [List.map_append]
  refine List.nodup_append.mpr ⟨h.distinct, hs.slots, ?_⟩
  intro a ha b hb heq
  obtain ⟨v, hv, rfl⟩ := List.mem_map.mp ha
  obtain ⟨w, hw, rfl⟩ := List.mem_map.mp hb
  have hnew := (h.slots v hv).1
  have hold := hs.below w hw
  omega

theorem booked (hs : s.Booked) (h : s.Turnover gone come t) : t.Booked := by
  refine ⟨h.inputs, h.redirected, ?_, ?_⟩
  · have hall := (h.values.map Input.slot).nodup_iff.mpr (h.slots_nodup hs)
    rw [List.map_append] at hall
    exact (List.nodup_append.mp hall).1
  · intro v hv
    rcases List.mem_append.mp (h.values.subset (List.mem_append_left _ hv)) with hv | hv
    · exact (h.slots v hv).2
    · exact Nat.lt_of_lt_of_le (hs.below v hv) h.later

theorem trade (hs : s.Booked) (h : s.Turnover gone come t) (hcome : ∀ v ∈ come, v.file = none) :
    s.Trade gone t := by
  refine ⟨h.booked hs, ?_⟩
  have hnone : filesOf come = [] := by
    refine List.filterMap_eq_nil_iff.mpr fun v hv => ?_
    simp [Input.stored?, hcome v hv]
  have hfiles := h.values.filterMap Input.stored?
  rw [List.filterMap_append, List.filterMap_append] at hfiles
  have hall : (filesOf t.values ++ filesOf gone).Perm (filesOf come ++ filesOf s.values) := hfiles
  rw [hnone] at hall
  exact hall

theorem files (h : s.Turnover gone come t) :
    (t.files ++ gone.filterMap Input.file).Perm (come.filterMap Input.file ++ s.files) := by
  rw [Session.files, Session.files, ← List.filterMap_append, ← List.filterMap_append]
  exact h.values.filterMap Input.file

end Turnover

theorem append_swap {α : Type} (a b c : List α) : (a ++ b ++ c).Perm (a ++ c ++ b) := by
  rw [List.append_assoc, List.append_assoc]
  exact List.perm_append_comm.append_left a

theorem Booked.supplied (hs : s.Booked) {value : Input} {book : InputBook} (hb : book.Sorted)
    (hv : (book.values ++ gone).Perm ((s.slotted value).1 :: s.inputs.values)) :
    s.Turnover gone [(s.slotted value).1] { (s.slotted value).2 with inputs := book } := by
  refine ⟨hb, hs.redirected, ?_, by simp, ?_, Nat.le_succ _⟩
  · exact (append_swap _ _ _).trans (hv.append_right s.redirected.values)
  · intro v hv
    rw [List.mem_singleton.mp hv]
    exact ⟨Nat.le_refl _, Nat.lt_succ_self _⟩

theorem ok_of_bind {ε α β : Type} {x : Except ε α} {f : α → Except ε β} {r : β}
    (h : (x >>= f) = .ok r) : ∃ v, x = .ok v ∧ f v = .ok r := by
  cases x with
  | error fault => cases h
  | ok v => exact ⟨v, rfl, h⟩

theorem Booked.addedInput (hs : s.Booked) {value : Input} {input : String}
    (h : s.addInput input value = .ok (gone, t)) : s.Turnover gone [(s.slotted value).1] t := by
  obtain ⟨declared, -, h⟩ := ok_of_bind h
  dsimp only at h
  split at h
  · cases h
    refine hs.supplied (hs.inputs.set _ _) ?_
    rw [List.append_nil]
    exact (hs.inputs.values_put input _).trans List.perm_append_comm
  · cases h
    exact hs.supplied (hs.inputs.set _ _) (hs.inputs.values_set input _)

theorem Booked.addedText (hs : s.Booked) {input text : String}
    (h : s.addText input text = .ok (gone, t)) :
    ∃ v, v.file = none ∧ s.Turnover gone [v] t := by
  obtain ⟨declared, -, h⟩ := ok_of_bind h
  exact ⟨_, rfl, hs.addedInput h⟩

theorem Booked.replacedInput (hs : s.Booked) {value : Input} {input : String}
    (h : s.replaceInput input value = .ok (gone, t)) :
    s.Turnover gone [(s.slotted value).1] t := by
  obtain ⟨declared, -, h⟩ := ok_of_bind h
  cases h
  exact hs.supplied (hs.inputs.set _ _) (hs.inputs.values_set input _)

theorem Booked.clearedInput (hs : s.Booked) {input : String}
    (h : s.clearInput input = .ok (gone, t)) : s.Turnover gone [] t := by
  obtain ⟨declared, -, h⟩ := ok_of_bind h
  cases h
  refine ⟨hs.inputs.erase _, hs.redirected, ?_, List.nodup_nil, nofun, Nat.le_refl _⟩
  exact (append_swap _ _ _).trans ((hs.inputs.values_erase input).append_right _)

theorem Booked.addedRedirected (hs : s.Booked) (step : String) (value : Input) :
    s.Turnover [] [(s.slotted value).1] (s.addRedirected step value) := by
  refine ⟨hs.inputs, hs.redirected.set _ _, ?_, by simp, ?_, Nat.le_succ _⟩
  · rw [List.append_nil]
    refine ((hs.redirected.values_put step _).append_left s.inputs.values).trans ?_
    rw [← List.append_assoc]
    exact List.perm_append_comm
  · intro v hv
    rw [List.mem_singleton.mp hv]
    exact ⟨Nat.le_refl _, Nat.lt_succ_self _⟩

theorem Booked.addedAllRedirected (hs : s.Booked) {handed : List (String × Input)}
    (hh : ∀ v ∈ handed, v.2.file = none) :
    ∃ come, (∀ v ∈ come, v.file = none) ∧ s.Turnover [] come (s.addAllRedirected handed) := by
  rw [Session.addAllRedirected]
  induction handed generalizing s with
  | nil => exact ⟨[], nofun, .refl hs⟩
  | cons v rest ih =>
    obtain ⟨hfirst, hrest⟩ := List.forall_mem_cons.mp hh
    have hone := hs.addedRedirected v.1 v.2
    obtain ⟨come, hcome, hmore⟩ := ih (hone.booked hs) hrest
    refine ⟨come ++ [(s.slotted v.2).1], ?_, hone.trans hmore⟩
    exact List.forall_mem_append.mpr ⟨hcome, List.forall_mem_singleton.mpr hfirst⟩

theorem Booked.addInput (hs : s.Booked) {value : Input} (hvalue : value.file = none)
    {input : String} (h : s.addInput input value = .ok (gone, t)) : s.Trade gone t :=
  (hs.addedInput h).trade hs (List.forall_mem_singleton.mpr hvalue)

theorem Booked.addText (hs : s.Booked) {input text : String}
    (h : s.addText input text = .ok (gone, t)) : s.Trade gone t := by
  obtain ⟨v, hv, hturn⟩ := hs.addedText h
  exact hturn.trade hs (List.forall_mem_singleton.mpr hv)

theorem Booked.replaceInput (hs : s.Booked) {value : Input} (hvalue : value.file = none)
    {input : String} (h : s.replaceInput input value = .ok (gone, t)) : s.Trade gone t :=
  (hs.replacedInput h).trade hs (List.forall_mem_singleton.mpr hvalue)

theorem Booked.clearInput (hs : s.Booked) {input : String}
    (h : s.clearInput input = .ok (gone, t)) : s.Trade gone t :=
  (hs.clearedInput h).trade hs nofun

theorem Booked.addAllRedirected (hs : s.Booked) {handed : List (String × Input)}
    (hh : ∀ v ∈ handed, v.2.file = none) : s.Trade [] (s.addAllRedirected handed) := by
  obtain ⟨come, hcome, hturn⟩ := hs.addedAllRedirected hh
  exact hturn.trade hs hcome

def output? (s : Session) (step : StepId) : Option String :=
  (s.execution step.text).toOption.bind fun x => x.record.output

/-- What is handed on for a step input. -/
def handed? (s : Session) : StepInput → Option (String × Input)
  | .flowInput _ => none
  | .redirect source useAs =>
    (s.output? source).map fun output => (source.text, .ofText useAs output)

theorem redirects_eq {step : Step} {handed : List (String × Input)}
    (h : s.redirects step = .ok handed) : handed = step.inputs.filterMap s.handed? ∧
      ∀ source ∈ step.sources, (s.output? source).isSome := by
  rw [redirects] at h
  rw [Step.sources]
  generalize step.inputs = inputs at h
  induction inputs generalizing handed with
  | nil =>
    cases h
    exact ⟨rfl, nofun⟩
  | cons input rest ih =>
    rw [List.filterMapM_cons] at h
    cases input with
    | flowInput id => exact ih (by simpa [bind, Except.bind] using h)
    | redirect source useAs =>
      cases hx : s.execution source.text with
      | error fault => simp [hx, bind, Except.bind] at h
      | ok x =>
        cases ho : x.record.output with
        | none => simp [hx, ho, bind, Except.bind] at h
        | some output =>
          have houtput : s.output? source = some output := by
            rw [output?, hx]
            exact ho
          simp only [hx, ho, bind, Except.bind] at h
          split at h
          · cases h
          · next hrest =>
            cases h
            obtain ⟨rfl, hall⟩ := ih hrest
            refine ⟨?_, List.forall_mem_cons.mpr ⟨by rw [houtput]; rfl, hall⟩⟩
            rw [List.filterMap_cons_some (by rw [handed?, houtput]; rfl)]

theorem redirects_fileless {step : Step} {handed : List (String × Input)}
    (h : s.redirects step = .ok handed) : ∀ v ∈ handed, v.2.file = none := by
  obtain ⟨rfl, -⟩ := redirects_eq h
  intro v hv
  obtain ⟨input, -, hi⟩ := List.mem_filterMap.mp hv
  cases input with
  | flowInput id => cases hi
  | redirect source useAs =>
    obtain ⟨output, -, rfl⟩ := Option.map_eq_some_iff.mp hi
    rfl

theorem values_take {book : InputBook} (hb : book.Sorted) (key : String) :
    ((book.set key ((book.get key).filter fun v => !v.isUploaded)).values ++
      (book.get key).filter Input.isUploaded).Perm book.values := by
  have hset := hb.values_set key ((book.get key).filter fun v => !v.isUploaded)
  have hsplit := List.filter_append_perm Input.isUploaded (book.get key)
  have hall := (hsplit.append_left _).trans (hset.trans List.perm_append_comm)
  rw [← List.append_assoc] at hall
  exact (List.perm_append_right_iff _).mp hall

theorem takeUploadedRedirected_book (hr : s.redirected.Sorted) (steps : List String) :
    (s.takeUploadedRedirected steps).2.redirected.Sorted ∧
      ((s.takeUploadedRedirected steps).2.redirected.values ++
        (s.takeUploadedRedirected steps).1).Perm s.redirected.values := by
  rw [Session.takeUploadedRedirected]
  dsimp only
  rw [InputBook.values_compacted]
  refine And.imp InputBook.Sorted.compacted (fun h => h) ?_
  refine List.foldlRecOn steps _ (motive := fun acc : List Input × InputBook => acc.2.Sorted ∧
    (acc.2.values ++ acc.1).Perm s.redirected.values) ⟨hr, by simp⟩ ?_
  rintro ⟨taken, book⟩ ⟨hsorted, hperm⟩ step -
  dsimp only at hsorted hperm ⊢
  split
  · exact ⟨hsorted, hperm⟩
  · next values hget =>
    have hvalues : values = book.get step := by rw [InputBook.get, hget]; rfl
    subst hvalues
    refine ⟨hsorted.set _ _, ?_⟩
    rw [← List.append_assoc]
    exact ((append_swap _ _ _).trans ((values_take hsorted step).append_right taken)).trans hperm

theorem Booked.takenUploaded (hs : s.Booked) (steps : List String) :
    s.Turnover (s.takeUploadedRedirected steps).1 [] (s.takeUploadedRedirected steps).2 := by
  obtain ⟨hsorted, hperm⟩ := takeUploadedRedirected_book hs.redirected steps
  refine ⟨hs.inputs, hsorted, ?_, List.nodup_nil, nofun, Nat.le_refl _⟩
  have hleft := hperm.append_left s.inputs.values
  rw [← List.append_assoc] at hleft
  exact hleft

theorem Booked.takeUploadedRedirected (hs : s.Booked) (steps : List String) :
    s.Trade (s.takeUploadedRedirected steps).1 (s.takeUploadedRedirected steps).2 :=
  (hs.takenUploaded steps).trade hs nofun

def noteFile (slot : Nat) (file : String) (v : Input) : Input :=
  if v.slot = slot then { v with file := some file } else v

theorem values_recordFile (s : Session) (slot : Nat) (file : String) :
    (s.recordFile slot file).2.values = s.values.map (noteFile slot file) := by
  rw [values, values, List.map_append, ← InputBook.values_map, ← InputBook.values_map]
  rfl

@[simp] theorem slot_noteFile (slot : Nat) (file : String) (v : Input) :
    (noteFile slot file v).slot = v.slot := by
  rw [noteFile]
  split <;> rfl

theorem noteFile_of_ne {slot : Nat} {v : Input} (hne : v.slot ≠ slot) (file : String) :
    noteFile slot file v = v :=
  if_neg hne

theorem Booked.recorded (hs : s.Booked) (slot : Nat) (file : String) :
    (s.recordFile slot file).2.Booked := by
  have hvalues := values_recordFile s slot file
  refine ⟨hs.inputs.map _, hs.redirected.map _, ?_, ?_⟩
  · have hslot : Input.slot ∘ noteFile slot file = Input.slot :=
      funext fun w => slot_noteFile slot file w
    rw [hvalues, List.map_map, hslot]
    exact hs.slots
  · intro w hw
    rw [hvalues] at hw
    obtain ⟨u, hu, rfl⟩ := List.mem_map.mp hw
    rw [slot_noteFile]
    exact hs.below u hu

theorem filesOf_noteFile {values : List Input} {v : Input} (file : String) (hv : v ∈ values)
    (hnone : v.file = none) (hslots : (values.map Input.slot).Nodup) :
    (filesOf (values.map (noteFile v.slot file))).Perm
      (⟨file, v.name, v.payload⟩ :: filesOf values) := by
  induction values with
  | nil => cases hv
  | cons w rest ih =>
    obtain ⟨hfirst, hrest⟩ := List.nodup_cons.mp hslots
    rcases List.mem_cons.mp hv with rfl | hv
    · have hsame : rest.map (noteFile v.slot file) = rest := by
        refine (List.map_congr_left fun u hu => noteFile_of_ne ?_ file).trans (List.map_id rest)
        intro he
        exact hfirst (he ▸ List.mem_map_of_mem hu)
      rw [List.map_cons, hsame]
      simp [filesOf, noteFile, Input.stored?, hnone]
    · have hne : w.slot ≠ v.slot := by
        intro he
        exact hfirst (he ▸ List.mem_map_of_mem hv)
      rw [List.map_cons, noteFile_of_ne hne]
      have hrest' := ih hv hrest
      cases hw : w.stored? with
      | none => simpa [filesOf, hw] using hrest'
      | some stored =>
        simp only [filesOf, List.filterMap_cons, hw] at hrest' ⊢
        exact (hrest'.cons stored).trans (.swap _ _ _)

theorem Booked.recordFile (hs : s.Booked) {v : Input} (hv : v ∈ s.values) (hnone : v.file = none)
    (file : String) :
    (s.recordFile v.slot file).1 = true ∧ (s.recordFile v.slot file).2.Booked ∧
      (filesOf (s.recordFile v.slot file).2.values).Perm
        (⟨file, v.name, v.payload⟩ :: filesOf s.values) ∧
      ∀ w ∈ s.values, w.slot ≠ v.slot → w ∈ (s.recordFile v.slot file).2.values := by
  have hvalues := values_recordFile s v.slot file
  refine ⟨?_, hs.recorded v.slot file, ?_, ?_⟩
  · exact List.any_eq_true.mpr ⟨v, hv, beq_self_eq_true _⟩
  · rw [hvalues]
    exact filesOf_noteFile file hv hnone hs.slots
  · intro w hw hne
    rw [hvalues]
    exact List.mem_map.mpr ⟨w, hw, noteFile_of_ne hne file⟩

theorem Booked.pendingUploads (hs : s.Booked) :
    (s.pendingUploads.map Input.slot).Nodup ∧
      ∀ v ∈ s.pendingUploads, v ∈ s.values ∧ v.file = none := by
  constructor
  · exact hs.slots.sublist (List.filter_sublist.map _)
  · intro v hv
    obtain ⟨hm, hup⟩ := List.mem_filter.mp hv
    exact ⟨hm, by simpa [Input.isUploaded] using hup⟩

theorem inUse_subset (s : Session) (step : Step) :
    ∀ file ∈ (s.inUse step).files, file ∈ s.values.filterMap Input.file := by
  intro file hf
  obtain ⟨block, hb, hfile⟩ := List.mem_flatMap.mp hf
  obtain ⟨input, -, hblock⟩ := List.mem_filterMap.mp (List.mem_filter.mp hb).1
  rw [values, List.filterMap_append, List.mem_append]
  cases input with
  | flowInput id =>
    rw [blockOf] at hblock
    split at hblock
    · cases hblock
    · split at hblock
      · cases hblock
      · cases hblock
        exact .inl (List.filterMap_subset _ (InputBook.get_subset _ _) hfile)
  | redirect source useAs =>
    cases hblock
    exact .inr (List.filterMap_subset _ (InputBook.get_subset _ _) hfile)

theorem Booked.allInputs (hs : s.Booked) : s.allInputs.values.Perm s.values :=
  (hs.inputs.append s.redirected).2

end Session

end FlowEngine
