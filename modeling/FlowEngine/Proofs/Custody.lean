import FlowEngine.Proofs.Entries

/-! # Where values are

Those who hold a session put values into it and are given back what goes out of it, so that each
file of a value can be deleted by one of them. A value is told from others by its slot, and what is
kept for a flow input or handed on from a step is on a shelf of its own. Over any edits nothing on a
shelf gets lost, is given back twice or changes places.
-/
namespace FlowEngine

namespace Session

/-- What values are kept under: a flow input, or the step whose output they are. -/
inductive Shelf where
  | input (id : String)
  | output (step : String)
  deriving DecidableEq

def on (s : Session) : Shelf → List Input
  | .input id => s.inputs.get id
  | .output step => s.redirected.get step

def Shelf.pick (k : Shelf) (values : List (Shelf × Input)) : List Input :=
  (values.filter fun v => v.1 = k).map Prod.snd

/-- A call by which those who hold a session change its values. -/
inductive Edit where
  | addText (input text : String)
  | add (input : String) (value : Input)
  | replace (input : String) (value : Input)
  | clear (input : String)
  | handOn (step : String) (value : Input)
  | takeBack (step : String) (value : Input)

namespace Edit

def shelf : Edit → Shelf
  | .addText input _ | .add input _ | .replace input _ | .clear input => .input input
  | .handOn step _ | .takeBack step _ => .output step

/-- Makes the call. The values that go out of the session come with the session afterwards; a value
that is taken back is known to the caller, who has given one that is like it. -/
def perform (s : Session) : Edit → Except EngineFault (List Input × Session)
  | .addText input text => s.addText input text
  | .add input value => s.addInput input value
  | .replace input value => s.replaceInput input value
  | .clear input => s.clearInput input
  | .handOn step value => .ok ([], s.addRedirected step value)
  | .takeBack step value =>
    .ok (((s.redirected.get step).find? fun v => v.alike value).toList,
      (s.removeRedirected step value).2)

def brings (s : Session) : Edit → List Input
  | .addText input text =>
    ((s.flow.findInput? input).map fun i => (s.slotted (.ofText i.name text)).1).toList
  | .add _ value | .replace _ value | .handOn _ value => [(s.slotted value).1]
  | .clear _ | .takeBack _ _ => []

end Edit

/-- A session in the course of edits, with the values that have come and gone so far. -/
structure Custody where
  session : Session
  come : List (Shelf × Input)
  gone : List (Shelf × Input)

namespace Custody

/-- A call that fails leaves everything as it is. -/
def edit (c : Custody) (e : Edit) : Custody :=
  match e.perform c.session with
  | .error _ => c
  | .ok (gone, t) =>
    ⟨t, c.come ++ (e.brings c.session).map fun v => (e.shelf, v),
      c.gone ++ gone.map fun v => (e.shelf, v)⟩

def after (s : Session) (edits : List Edit) : Custody :=
  edits.foldl edit ⟨s, [], []⟩

end Custody

end Session

/-- The keys of a book are flow inputs and have values, more than one only where several are taken.
-/
structure InputBook.Suits (flow : Flow) (b : InputBook) : Prop where
  filled : b.Filled
  declared : ∀ e ∈ b.entries, (flow.findInput? e.1).isSome
  single : ∀ id i, flow.findInput? id = some i → i.multipleValued = false → (b.get id).length ≤ 1

namespace Session

structure Kept (s : Session) : Prop where
  booked : s.Booked
  inputs : s.inputs.Suits s.flow
  redirected : s.redirected.Filled

/-- Each shelf has what was on it and what has come to it, but for what has gone from it. For a flow
input the order tells which values have gone: the first. -/
structure Custody.Balanced (s : Session) (c : Custody) : Prop where
  balance : ∀ id, (Shelf.input id).pick c.gone ++ c.session.on (.input id) =
    s.on (.input id) ++ (Shelf.input id).pick c.come
  shares : ∀ k : Shelf, (k.pick c.gone ++ c.session.on k).Perm (s.on k ++ k.pick c.come)
  order : ∀ k : Shelf, (c.session.on k).Sublist (s.on k ++ k.pick c.come)

/-- All values that a session has had are accounted for, each once. -/
structure Custody.Complete (s : Session) (c : Custody) : Prop extends Balanced s c where
  once : ∀ v ∈ s.values ++ c.come.map Prod.snd,
    ((c.session.values ++ c.gone.map Prod.snd).map Input.slot).count v.slot = 1
  kept : c.session.Kept
  flow : c.session.flow = s.flow

/-- A call fails if and only if it is for a flow input that is not declared. It changes nothing
then, and nothing but its shelf and the count of slots otherwise. -/
structure Custody.Confined (c : Custody) (e : Edit) : Prop where
  fails : ∀ fault, e.perform c.session = .error fault ↔ ∃ id, e.shelf = .input id ∧
    c.session.flow.findInput? id = none ∧ fault = .unknownInput c.session.flow.id.text id
  failed : ∀ fault, e.perform c.session = .error fault → c.edit e = c
  missed : ∀ step value, e = .takeBack step value →
    (c.session.removeRedirected step value).1 = false → c.edit e = c
  others : ∀ k, k ≠ e.shelf → (c.edit e).session.on k = c.session.on k
  books : (∀ id, e.shelf = .input id → (c.edit e).session.redirected = c.session.redirected) ∧
    ∀ step, e.shelf = .output step → (c.edit e).session.inputs = c.session.inputs
  rest : { (c.edit e).session with
    inputs := c.session.inputs, redirected := c.session.redirected,
    nextSlot := c.session.nextSlot } = c.session

end Session

/-! ## Books -/

namespace InputBook.Suits

variable {flow : Flow} {b : InputBook} {key : String} {values : List Input}

theorem empty (flow : Flow) : InputBook.empty.Suits flow :=
  ⟨nofun, nofun, fun _ _ _ _ => Nat.zero_le 1⟩

theorem set (h : b.Suits flow) {i : FlowInput} (hi : flow.findInput? key = some i)
    (hne : values ≠ []) (hsingle : i.multipleValued = false → values.length ≤ 1) :
    (b.set key values).Suits flow := by
  refine ⟨h.filled.set key hne, fun e he => ?_, fun id j hj hone => ?_⟩
  · rcases Table.mem_put he with rfl | he
    · rw [hi]
      rfl
    · exact h.declared e he
  · by_cases hid : id = key
    · subst hid
      cases hi.symm.trans hj
      rw [get_set_self]
      exact hsingle hone
    · rw [get_set_of_ne b values hid]
      exact h.single id j hj hone

theorem erase (h : b.Suits flow) (key : String) : (b.erase key).Suits flow := by
  refine ⟨h.filled.erase key, fun e he => h.declared e (List.mem_of_mem_filter he), ?_⟩
  intro id i hi hone
  by_cases hid : id = key
  · rw [hid, get_erase_self]
    exact Nat.zero_le 1
  · rw [get_erase_of_ne b hid]
    exact h.single id i hi hone

theorem map (h : b.Suits flow) (f : Input → Input) : (b.map f).Suits flow := by
  refine ⟨h.filled.map f, fun e he => ?_, fun id i hi hone => ?_⟩
  · obtain ⟨e', he', rfl⟩ := List.mem_map.mp he
    exact h.declared e' he'
  · rw [get_map, List.length_map]
    exact h.single id i hi hone

end InputBook.Suits

theorem InputBook.filled_compacted (b : InputBook) : b.compacted.Filled := by
  intro e he hnil
  have hkept := (List.mem_filter.mp he).2
  rw [hnil] at hkept
  cases hkept

/-! ## What an edit does -/

namespace Session

variable {s t : Session} {gone come : List Input} {k : Shelf} {e : Edit}

theorem flowInput_iff {input : String} {i : FlowInput} :
    s.flowInput input = .ok i ↔ s.flow.findInput? input = some i := by
  rw [flowInput]
  cases s.flow.findInput? input <;> simp

theorem removeRedirected_cases (s : Session) (step : String) (value : Input) :
    ((s.redirected.get step).find? (fun v => v.alike value) = none ∧
      s.removeRedirected step value = (false, s)) ∨
    ∃ before v after book, s.redirected.get step = before ++ v :: after ∧
      (s.redirected.get step).find? (fun v => v.alike value) = some v ∧
      s.removeRedirected step value = (true, { s with redirected := book }) ∧
      book.get step = before ++ after ∧
      (∀ other, other ≠ step → book.get other = s.redirected.get other) ∧
      (s.redirected.Filled → book.Filled) := by
  rw [removeRedirected]
  split
  · next hany =>
    right
    obtain ⟨w, hw, hlike⟩ := List.any_eq_true.mp hany
    obtain ⟨v, before, after, hbefore, hv, hvalues, herase⟩ :=
      List.exists_of_eraseP (p := fun v => v.alike value) hw hlike
    have hfirst : (s.redirected.get step).find? (fun v => v.alike value) = some v :=
      List.find?_eq_some_iff_append.mpr ⟨hv, before, after, hvalues, by simpa using hbefore⟩
    split
    · next hnone =>
      refine ⟨before, v, after, _, hvalues, hfirst, rfl, ?_, fun other hne => ?_, fun hf => ?_⟩
      · rw [InputBook.get_erase_self, ← herase, hnone]
      · rw [InputBook.get_erase_of_ne _ hne]
      · exact hf.erase step
    · next hsome =>
      refine ⟨before, v, after, _, hvalues, hfirst, rfl, ?_, fun other hne => ?_, fun hf => ?_⟩
      · rw [InputBook.get_set_self, herase]
      · rw [InputBook.get_set_of_ne _ _ hne]
      · exact hf.set step hsome
  · next hany => exact .inl ⟨List.find?_eq_none.mpr (by simpa using hany), rfl⟩

theorem addInput_kept (hk : s.Kept) {input : String} {value : Input}
    (h : s.addInput input value = .ok (gone, t)) :
    t.inputs.Suits s.flow ∧ t.redirected.Filled := by
  obtain ⟨declared, hd, h⟩ := ok_of_bind h
  dsimp only at h
  split at h <;> cases h
  · next hmany =>
    refine ⟨hk.inputs.set (flowInput_iff.mp hd) (by simp) fun hone => ?_, hk.redirected⟩
    rw [hmany] at hone
    cases hone
  · exact ⟨hk.inputs.set (flowInput_iff.mp hd) (by simp) fun _ => Nat.le_refl 1, hk.redirected⟩

theorem Edits.kept (hk : s.Kept) (h : s.Edits t) : t.Kept := by
  obtain ⟨gone, come, hturn⟩ := h.turnover hk.booked
  have hflow : t.flow = s.flow := congrArg SessionOutline.flow h.keeps.1
  have hbooks : t.inputs.Suits s.flow ∧ t.redirected.Filled := by
    cases h with
    | add h => exact addInput_kept hk h
    | addText h =>
      obtain ⟨declared, -, h⟩ := ok_of_bind h
      exact addInput_kept hk h
    | replace h =>
      obtain ⟨declared, hd, h⟩ := ok_of_bind h
      cases h
      exact ⟨hk.inputs.set (flowInput_iff.mp hd) (by simp) fun _ => Nat.le_refl 1, hk.redirected⟩
    | clear h =>
      obtain ⟨declared, -, h⟩ := ok_of_bind h
      cases h
      exact ⟨hk.inputs.erase _, hk.redirected⟩
    | redirect step value => exact ⟨hk.inputs, hk.redirected.set step (by simp)⟩
    | unredirect step value =>
      rcases removeRedirected_cases s step value with ⟨-, hsame⟩ |
        ⟨before, v, after, book, -, -, htaken, -, -, hfilled⟩
      · rw [hsame]
        exact ⟨hk.inputs, hk.redirected⟩
      · rw [htaken]
        exact ⟨hk.inputs, hfilled hk.redirected⟩
  exact ⟨hturn.booked hk.booked, hflow ▸ hbooks.1, hbooks.2⟩

theorem Kept.sameBooks (hk : s.Kept) (hi : t.inputs = s.inputs) (hr : t.redirected = s.redirected)
    (hn : t.nextSlot = s.nextSlot) (hf : t.flow = s.flow) : t.Kept := by
  have hholdings : t.holdings = s.holdings := by rw [holdings, holdings, hi, hr, hn]
  exact ⟨hk.booked.of_holdings hholdings, by rw [hi, hf]; exact hk.inputs, hr ▸ hk.redirected⟩

theorem Moves.kept (hk : s.Kept) (h : s.Moves t) : t.Kept := by
  cases h with
  | edit h => exact h.kept hk
  | file slot file => exact ⟨hk.booked.recorded slot file, hk.inputs.map _, hk.redirected.map _⟩
  | take steps =>
    exact ⟨(hk.booked.takenUploaded steps).booked hk.booked, hk.inputs,
      InputBook.filled_compacted _⟩
  | record i f => exact hk.sameBooks rfl rfl rfl rfl
  | start => exact hk.sameBooks rfl rfl rfl rfl
  | settle state => exact hk.sameBooks rfl rfl rfl rfl

theorem kept {id tenant : String} {flow : Flow} {now : Int} {start : Session}
    (hn : Session.new id tenant flow now = .ok start) (hs : start.Becomes s) : s.Kept := by
  induction hs with
  | refl =>
    obtain ⟨g, -, rfl⟩ := Session.new_eq hn
    exact ⟨booked_bare .., .empty flow, nofun⟩
  | tail _ hmove ih => exact hmove.kept ih

/-- What an edit does to one shelf, and that it does nothing else but count slots. -/
structure Shifted (s : Session) (k : Shelf) (come gone : List Input) (t : Session) : Prop where
  turnover : s.Turnover gone come t
  balance : ∀ id, k = .input id → gone ++ t.on k = s.on k ++ come
  shares : (gone ++ t.on k).Perm (s.on k ++ come)
  order : (t.on k).Sublist (s.on k ++ come)
  others : ∀ k', k' ≠ k → t.on k' = s.on k'
  books : (∀ id, k = .input id → t.redirected = s.redirected) ∧
    ∀ step, k = .output step → t.inputs = s.inputs
  rest : { t with
    inputs := s.inputs, redirected := s.redirected, nextSlot := s.nextSlot } = s

theorem Shifted.refl (hs : s.Booked) (k : Shelf) : s.Shifted k [] [] s where
  turnover := .refl hs
  balance _ _ := (List.append_nil _).symm
  shares := .of_eq (List.append_nil _).symm
  order := List.sublist_append_left _ _
  others _ _ := rfl
  books := ⟨fun _ _ => rfl, fun _ _ => rfl⟩
  rest := rfl

theorem Shifted.ofInput {id : String} {book : InputBook} {n : Nat}
    (hturn : s.Turnover gone come { s with inputs := book, nextSlot := n })
    (hbalance : gone ++ book.get id = s.inputs.get id ++ come)
    (hothers : ∀ other, other ≠ id → book.get other = s.inputs.get other) :
    s.Shifted (.input id) come gone { s with inputs := book, nextSlot := n } := by
  refine ⟨hturn, fun _ _ => hbalance, .of_eq hbalance, ?_, fun k' hne => ?_,
    ⟨fun _ _ => rfl, nofun⟩, rfl⟩
  · exact hbalance ▸ List.sublist_append_right gone _
  · cases k' with
    | input other => exact hothers other fun h => hne (congrArg _ h)
    | output step => rfl

theorem Shifted.ofOutput {step : String} {book : InputBook} {n : Nat}
    (hturn : s.Turnover gone come { s with redirected := book, nextSlot := n })
    (hshares : (gone ++ book.get step).Perm (s.redirected.get step ++ come))
    (horder : (book.get step).Sublist (s.redirected.get step ++ come))
    (hothers : ∀ other, other ≠ step → book.get other = s.redirected.get other) :
    s.Shifted (.output step) come gone { s with redirected := book, nextSlot := n } := by
  refine ⟨hturn, nofun, hshares, horder, fun k' hne => ?_, ⟨nofun, fun _ _ => rfl⟩, rfl⟩
  cases k' with
  | input id => rfl
  | output other => exact hothers other fun h => hne (congrArg _ h)

theorem addInput_shifted (hs : s.Booked) {input : String} {value : Input}
    (h : s.addInput input value = .ok (gone, t)) :
    s.Shifted (.input input) [(s.slotted value).1] gone t := by
  have hturn := hs.addedInput h
  obtain ⟨declared, -, h⟩ := ok_of_bind h
  dsimp only at h
  split at h <;> cases h
  · refine .ofInput hturn ?_ fun other hne => InputBook.get_set_of_ne _ _ hne
    rw [InputBook.add, InputBook.get_set_self]
    rfl
  · refine .ofInput hturn ?_ fun other hne => InputBook.get_set_of_ne _ _ hne
    rw [InputBook.get_set_self]
    rfl

theorem Edit.shifted (hs : s.Booked) (h : e.perform s = .ok (gone, t)) :
    s.Shifted e.shelf (e.brings s) gone t := by
  cases e with
  | addText input text =>
    obtain ⟨declared, hd, h⟩ := ok_of_bind h
    rw [brings, flowInput_iff.mp hd]
    exact addInput_shifted hs h
  | add input value => exact addInput_shifted hs h
  | replace input value =>
    have hturn := hs.replacedInput h
    obtain ⟨declared, -, h⟩ := ok_of_bind h
    cases h
    refine .ofInput hturn ?_ fun other hne => InputBook.get_set_of_ne _ _ hne
    rw [InputBook.get_set_self]
    rfl
  | clear input =>
    have hturn := hs.clearedInput h
    obtain ⟨declared, -, h⟩ := ok_of_bind h
    cases h
    refine .ofInput hturn ?_ fun other hne => InputBook.get_erase_of_ne _ hne
    rw [InputBook.get_erase_self, brings]
  | handOn step value =>
    cases h
    have hself : (s.addRedirected step value).redirected.get step =
        s.redirected.get step ++ [(s.slotted value).1] := InputBook.get_set_self _ _ _
    exact .ofOutput (hs.addedRedirected step value) (.of_eq hself) (hself ▸ .refl _)
      fun other hne => InputBook.get_set_of_ne _ _ hne
  | takeBack step value =>
    have hturn := hs.removedRedirected step value
    cases h
    rcases removeRedirected_cases s step value with ⟨hnone, hsame⟩ |
      ⟨before, v, after, book, hvalues, hfirst, htaken, hleft, hothers, -⟩
    · rw [hnone, hsame]
      exact .refl hs _
    · rw [hfirst, htaken] at hturn ⊢
      refine .ofOutput hturn ?_ ?_ hothers
      · rw [hleft, hvalues, brings, List.append_nil, Option.toList_some,
          List.singleton_append]
        exact List.perm_middle.symm
      · rw [hleft, hvalues, brings, List.append_nil]
        exact (List.sublist_cons_self v after).append_left before

theorem Edit.edits (h : e.perform s = .ok (gone, t)) : s.Edits t := by
  cases e with
  | addText input text => exact .addText h
  | add input value => exact .add h
  | replace input value => exact .replace h
  | clear input => exact .clear h
  | handOn step value =>
    cases h
    exact .redirect step value
  | takeBack step value =>
    cases h
    exact .unredirect step value

theorem addInput_succeeds {input : String} {i : FlowInput} (value : Input)
    (hi : s.flow.findInput? input = some i) : ∃ r, s.addInput input value = .ok r := by
  rw [addInput, flowInput_iff.mpr hi]
  cases hmany : i.multipleValued with
  | true => exact ⟨_, by simp only [bind, Except.bind, hmany, if_true]; rfl⟩
  | false => exact ⟨_, by simp only [bind, Except.bind, hmany]; rfl⟩

theorem flowInput_bind_error {input : String} {fault : EngineFault}
    {f : FlowInput → Except EngineFault (List Input × Session)}
    (hf : ∀ i, s.flow.findInput? input = some i → ∃ r, f i = .ok r) :
    (s.flowInput input >>= f) = .error fault ↔ ∃ id, Shelf.input input = .input id ∧
      s.flow.findInput? id = none ∧ fault = .unknownInput s.flow.id.text id := by
  cases hi : s.flow.findInput? input with
  | none =>
    have herror : s.flowInput input = .error (.unknownInput s.flow.id.text input) := by
      rw [flowInput, hi]
    rw [herror]
    constructor
    · rintro ⟨⟩
      exact ⟨input, rfl, hi, rfl⟩
    · rintro ⟨id, heq, -, rfl⟩
      cases heq
      rfl
  | some i =>
    obtain ⟨r, hr⟩ := hf i hi
    rw [flowInput_iff.mpr hi]
    constructor
    · intro h
      cases hr.symm.trans h
    · rintro ⟨id, heq, hnone, -⟩
      cases heq
      cases hi.symm.trans hnone

theorem Edit.perform_error (s : Session) (e : Edit) (fault : EngineFault) :
    e.perform s = .error fault ↔ ∃ id, e.shelf = .input id ∧ s.flow.findInput? id = none ∧
      fault = .unknownInput s.flow.id.text id := by
  cases e with
  | addText input text => exact flowInput_bind_error fun i hi => addInput_succeeds _ hi
  | add input value =>
    refine flowInput_bind_error fun i hi => ?_
    obtain ⟨r, hr⟩ := addInput_succeeds value hi
    rw [addInput, flowInput_iff.mpr hi] at hr
    exact ⟨r, hr⟩
  | replace input value => exact flowInput_bind_error fun i _ => ⟨_, rfl⟩
  | clear input => exact flowInput_bind_error fun i _ => ⟨_, rfl⟩
  | handOn step value =>
    constructor
    · rintro ⟨⟩
    · rintro ⟨id, heq, -⟩
      cases heq
  | takeBack step value =>
    constructor
    · rintro ⟨⟩
    · rintro ⟨id, heq, -⟩
      cases heq

/-! ## Runs of edits -/

theorem Shelf.pick_append (k : Shelf) (l l' : List (Shelf × Input)) :
    k.pick (l ++ l') = k.pick l ++ k.pick l' := by
  rw [pick, List.filter_append, List.map_append, pick, pick]

theorem Shelf.pick_shelved (k k' : Shelf) (values : List Input) :
    k.pick (values.map fun v => (k', v)) = if k' = k then values else [] := by
  induction values with
  | nil => rw [ite_self]; rfl
  | cons v rest ih =>
    rw [pick] at ih
    rw [List.map_cons, pick, List.filter_cons]
    by_cases hk : k' = k
    · rw [if_pos hk] at ih ⊢
      rw [if_pos (by simpa using hk), List.map_cons, ih]
    · rw [if_neg hk] at ih ⊢
      rw [if_neg (by simpa using hk), ih]

theorem Turnover.of_perm {gone' come' : List Input} (h : s.Turnover gone come t)
    (hgone : gone.Perm gone') (hcome : come.Perm come') : s.Turnover gone' come' t :=
  ⟨h.inputs, h.redirected,
    ((hgone.symm.append_left _).trans h.values).trans (hcome.append_right _),
    (hcome.map Input.slot).nodup_iff.mp h.distinct, fun v hv => h.slots v (hcome.symm.subset hv),
    h.later⟩

namespace Custody

variable {c : Custody}

/-- The custody has followed a session: what has come and gone has done so in new slots. -/
structure Follows (s : Session) (c : Custody) : Prop extends Balanced s c where
  turnover : s.Turnover (c.gone.map Prod.snd) (c.come.map Prod.snd) c.session
  kept : c.session.Kept
  flow : c.session.flow = s.flow

theorem Follows.refl (hs : s.Kept) : Follows s ⟨s, [], []⟩ where
  balance _ := (List.append_nil _).symm
  shares _ := .of_eq (List.append_nil _).symm
  order _ := List.sublist_append_left _ _
  turnover := .refl hs.booked
  kept := hs
  flow := rfl

theorem Balanced.shift (h : c.Balanced s) (ht : c.session.Shifted k come gone t) :
    Balanced s ⟨t, c.come ++ come.map fun v => (k, v), c.gone ++ gone.map fun v => (k, v)⟩ := by
  constructor
  · intro id
    rw [Shelf.pick_append, Shelf.pick_append, Shelf.pick_shelved, Shelf.pick_shelved]
    split
    · next hk =>
      subst hk
      rw [List.append_assoc, ht.balance id rfl, ← List.append_assoc, h.balance, List.append_assoc]
    · next hk => rw [List.append_nil, List.append_nil, ht.others _ (Ne.symm hk), h.balance]
  · intro k'
    rw [Shelf.pick_append, Shelf.pick_append, Shelf.pick_shelved, Shelf.pick_shelved]
    split
    · next hk =>
      subst hk
      have hleft := ht.shares.append_left (k.pick c.gone)
      have hright := (h.shares k).append_right come
      rw [← List.append_assoc, ← List.append_assoc] at hleft
      rw [List.append_assoc (s.on k)] at hright
      exact hleft.trans hright
    · next hk =>
      rw [List.append_nil, List.append_nil, ht.others _ (Ne.symm hk)]
      exact h.shares k'
  · intro k'
    rw [Shelf.pick_append, Shelf.pick_shelved]
    split
    · next hk =>
      subst hk
      rw [← List.append_assoc]
      exact ht.order.trans ((h.order k).append_right come)
    · next hk =>
      rw [List.append_nil, ht.others _ (Ne.symm hk)]
      exact h.order k'

theorem Follows.edit (h : c.Follows s) (e : Edit) : (c.edit e).Follows s := by
  have unshelved : ∀ values : List Input,
      (values.map fun v => (e.shelf, v)).map Prod.snd = values := fun values => by
    rw [List.map_map]
    exact List.map_id values
  rw [Custody.edit]
  cases hp : e.perform c.session with
  | error fault => exact h
  | ok r =>
    obtain ⟨gone, t⟩ := r
    have hshift := e.shifted h.kept.booked hp
    refine ⟨h.toBalanced.shift hshift, ?_, (e.edits hp).kept h.kept, ?_⟩
    · rw [List.map_append, List.map_append, unshelved, unshelved]
      exact (h.turnover.trans hshift.turnover).of_perm List.perm_append_comm List.perm_append_comm
    · exact (congrArg SessionOutline.flow (e.edits hp).keeps.1).trans h.flow

theorem follows_after (hs : s.Kept) (edits : List Edit) : (after s edits).Follows s :=
  List.foldlRecOn edits _ (Follows.refl hs) fun _ h e _ => h.edit e

theorem Follows.complete (hs : s.Kept) (h : c.Follows s) : c.Complete s := by
  refine ⟨h.toBalanced, fun v hv => ?_, h.kept, h.flow⟩
  have hslots := h.turnover.slots_nodup hs.booked
  have hmem : v ∈ c.come.map Prod.snd ++ s.values := List.perm_append_comm.subset hv
  rw [(h.turnover.values.map Input.slot).count_eq]
  exact List.count_eq_one_of_mem hslots (List.mem_map_of_mem hmem)

theorem edit_shifted (hc : c.session.Booked) (e : Edit) :
    ∃ come gone, c.session.Shifted e.shelf come gone (c.edit e).session := by
  rw [Custody.edit]
  cases hp : e.perform c.session with
  | error fault => exact ⟨[], [], .refl hc e.shelf⟩
  | ok r => exact ⟨_, r.1, e.shifted hc hp⟩

theorem confined (hc : c.session.Kept) (e : Edit) : c.Confined e := by
  obtain ⟨come, gone, hshift⟩ := edit_shifted hc.booked e
  refine ⟨e.perform_error c.session, fun fault hf => ?_, ?_, hshift.others, hshift.books,
    hshift.rest⟩
  · rw [Custody.edit, hf]
  · rintro step value rfl hmissed
    rcases removeRedirected_cases c.session step value with ⟨hnone, hsame⟩ |
      ⟨-, -, -, book, -, -, htaken, -⟩
    · simp [Custody.edit, Edit.perform, Edit.brings, hnone, hsame]
    · rw [htaken] at hmissed
      cases hmissed

end Custody

/-- Over any edits of a session the values are accounted for: those that have come to a flow input
are there or have been given back, each once and in their order. A further edit is refused if and
only if its flow input is not declared, and leaves all but its own shelf as it is. -/
theorem edits_account_for_values {id tenant : String} {flow : Flow} {now : Int} {start : Session}
    (hn : Session.new id tenant flow now = .ok start) (hs : start.Becomes s) (edits : List Edit) :
    (Custody.after s edits).Complete s ∧ ∀ e, (Custody.after s edits).Confined e := by
  have hfollows := Custody.follows_after (kept hn hs) edits
  exact ⟨hfollows.complete (kept hn hs), fun e => Custody.confined hfollows.kept e⟩

end Session

namespace Sample

/-- The stamp is set anew, a draft is handed on and taken back, and then there is no stamp. -/
def stampEdits : List Session.Edit :=
  [.addText stampInput.text "yours", .handOn "draft" (.ofText "draft" "yes"),
    .addText "nobody" "theirs", .takeBack "draft" (.ofText "draft" "yes"), .clear stampInput.text]

end Sample

theorem edits_account_for_stamps :
    Session.new "letter-1" "acme" (Sample.annotating Sample.stampInput) 0 =
      .ok (Sample.blank Sample.stampInput) ∧
    (Sample.blank Sample.stampInput).Becomes (Sample.noted Sample.stampInput) ∧
    (Session.Custody.after (Sample.noted Sample.stampInput) Sample.stampEdits).Complete
      (Sample.noted Sample.stampInput) ∧
    ((Session.Custody.after (Sample.noted Sample.stampInput) Sample.stampEdits).gone.map
      fun v => (v.1, v.2.slot)) =
        [(.input "stamp", 1), (.output "draft", 3), (.input "stamp", 2)] := by
  have hn : Session.new "letter-1" "acme" (Sample.annotating Sample.stampInput) 0 =
      .ok (Sample.blank Sample.stampInput) := by decide +kernel
  have hadded : (Sample.blank Sample.stampInput).addText Sample.stampInput.text "mine" =
      .ok ([], Sample.noted Sample.stampInput) := by decide +kernel
  have hs : (Sample.blank Sample.stampInput).Becomes (Sample.noted Sample.stampInput) :=
    .single (.edit (.addText hadded))
  exact ⟨hn, hs, (Session.edits_account_for_values hn hs Sample.stampEdits).1, by decide +kernel⟩

end FlowEngine
