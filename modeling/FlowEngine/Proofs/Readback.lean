import FlowEngine.Flow.Wire
import FlowEngine.Json.Shape
import FlowEngine.Provider.Basic
import FlowEngine.Session.Record
import FlowEngine.Session.Wire

/-! # What is read is read again from what is written of it

Reading takes more than writing gives: members may be absent or stand in any order, a record may be
the list of its members, and some spellings have two cases. So reading does not undo writing on
every document, but it does on every value: a value that was read once is read again from its own
written form.

A record is followed member by member, in the order of its declaration. Two things are kept on the
way: what any document can make of the members so far, and what their written form makes of them.
-/
namespace FlowEngine

open Markup

variable {α β : Type}

/-- A value that is read from some node is read again from what is written of it. -/
def Restores (read : Reader Json α) (write : α → Json) : Prop :=
  ∀ j v, read j = .ok v → read (write v) = .ok v

namespace Restores

variable {read : Reader Json α} {write : α → Json}

theorem of_all (h : ∀ v, read (write v) = .ok v) : Restores read write := fun _ v _ => h v

theorem text : Restores string Json.str := of_all fun _ => rfl

theorem flag : Restores boolean Json.bool := of_all fun _ => rfl

theorem identifier_text {kind : IdentifierKind} (id : Identifier kind) :
    identifier kind (Json.str id.text) = .ok id := by
  simp [identifier, string, bind, Except.bind]

theorem name (kind : IdentifierKind) :
    Restores (identifier kind) (fun id : Identifier kind => .str id.text) :=
  of_all identifier_text

theorem unsigned_nat (bits : Nat) {n : Nat} (hn : n < bound bits) : unsigned bits (Json.nat n) = .ok n := by
  have h : (0 : Int) ≤ n ∧ (n : Int) ≤ bound bits - 1 := by omega
  simp [unsigned, Json.nat, Json.integer, h, Except.map]

theorem number32 : Restores uint32 (fun n => .nat n.toNat) := by
  refine of_all fun n => ?_
  simp [uint32, unsigned_nat 32 n.toNat_lt, Except.map]

theorem number64 : Restores uint64 (fun n => .nat n.toNat) := by
  refine of_all fun n => ?_
  simp [uint64, unsigned_nat 64 n.toNat_lt, Except.map]

theorem byte_nat (n : UInt8) : byte (Json.nat n.toNat) = .ok n := by
  simp [byte, unsigned_nat 8 n.toNat_lt, Except.map]

theorem integer_range {expected : String} {low high v : Int} {j : Json}
    (h : Json.integer expected low high j = .ok v) : low ≤ v ∧ v ≤ high := by
  unfold Json.integer at h
  split at h
  · split at h
    · next hi => cases h; exact hi
    · cases h
  · simp only [Json.unexpected] at h
    cases hf : Json.found j <;> simp [hf, bind, Except.bind] at h

theorem moment : Restores signed Json.int := by
  intro j v h
  simp only [signed, Json.int, Json.integer]
  rw [if_pos (integer_range h)]

end Restores

namespace Markup.RecordReader

/-- Every value that the record makes, of named members or of listed ones, is one of `V`. -/
structure Yields (r : RecordReader Json α) (V : α → Prop) : Prop where
  drafted : ∃ Good : r.Draft → Prop, Good r.blank ∧
    (∀ d name node d', Good d → r.offer d name node = some (.ok d') → Good d') ∧
    ∀ d v, Good d → r.finish d = .ok v → V v
  taken : ∀ position items v position' rest,
    r.take position items = .ok (v, position', rest) → V v

namespace Yields

theorem pure {V : α → Prop} {v : α} (hv : V v) : Yields (.pure v) V where
  drafted := ⟨fun _ => True, trivial, by simp [RecordReader.pure], by
    rintro d w - ⟨⟩; exact hv⟩
  taken := by rintro position items w position' rest ⟨⟩; exact hv

theorem member {read : Reader Json α} {V : α → Prop} {name : String} {absence : Absence α}
    (hread : ∀ j v, read j = .ok v → V v)
    (habsent : match absence with | .required => True | .default v => V v | .omitted v => V v) :
    Yields (.member name absence read) V where
  drafted := by
    refine ⟨fun d => ∀ v, d = some v → V v, by rintro v ⟨⟩, ?_, ?_⟩
    · rintro d given node d' - ho w rfl
      simp only [RecordReader.member] at ho
      split at ho
      · split at ho
        · cases ho
        · cases hr : read node with
          | error fault => simp [hr, Except.map] at ho
          | ok v =>
            simp only [hr, Except.map, Option.some.injEq, Except.ok.injEq] at ho
            exact ho ▸ hread node v hr
      · cases ho
    · intro d v hd hf
      cases d with
      | some w => cases hf; exact hd v rfl
      | none => cases absence <;> cases hf <;> exact habsent
  taken := by
    intro position items v position' rest ht
    cases items with
    | nil => cases absence <;> cases ht; exact habsent
    | cons node items =>
      simp only [RecordReader.member] at ht
      cases hr : read node with
      | error fault => simp [hr] at ht
      | ok w => simp only [hr] at ht; cases ht; exact hread node _ hr

theorem both {f : RecordReader Json (α → β)} {x : RecordReader Json α} {F : (α → β) → Prop}
    {X : α → Prop} {V : β → Prop} (hf : f.Yields F) (hx : x.Yields X)
    (hv : ∀ g a, F g → X a → V (g a)) : (f.both x).Yields V where
  drafted := by
    obtain ⟨Good, hblank, hoffer, hfinish⟩ := hf.drafted
    obtain ⟨Good', hblank', hoffer', hfinish'⟩ := hx.drafted
    refine ⟨fun d => Good d.1 ∧ Good' d.2, ⟨hblank, hblank'⟩, ?_, ?_⟩
    · rintro ⟨d, e⟩ name node ⟨d', e'⟩ ⟨hd, he⟩ ho
      simp only [RecordReader.both] at ho
      cases h : f.offer d name node with
      | some result =>
        cases result with
        | error fault => simp [h, Except.map] at ho
        | ok d₁ =>
          simp only [h, Except.map, Option.some.injEq, Except.ok.injEq, Prod.mk.injEq] at ho
          obtain ⟨rfl, rfl⟩ := ho
          exact ⟨hoffer d name node _ hd h, he⟩
      | none =>
        cases h' : x.offer e name node with
        | none => simp [h, h'] at ho
        | some result =>
          cases result with
          | error fault => simp [h, h', Except.map] at ho
          | ok e₁ =>
            simp only [h, h', Option.map_some, Except.map, Option.some.injEq, Except.ok.injEq,
              Prod.mk.injEq] at ho
            obtain ⟨rfl, rfl⟩ := ho
            exact ⟨hd, hoffer' e name node _ he h'⟩
    · rintro ⟨d, e⟩ v ⟨hd, he⟩ h
      simp only [RecordReader.both] at h
      cases hg : f.finish d with
      | error fault => simp [hg, bind, Except.bind] at h
      | ok g =>
        cases ha : x.finish e with
        | error fault => simp [hg, ha, bind, Except.bind, Functor.map, Except.map] at h
        | ok a =>
          simp only [hg, ha, bind, Except.bind, Functor.map, Except.map, Except.ok.injEq] at h
          exact h ▸ hv g a (hfinish d g hd hg) (hfinish' e a he ha)
  taken := by
    intro position items v position' rest ht
    simp only [RecordReader.both] at ht
    split at ht
    · cases ht
    · rename_i g p₁ r₁ hg
      split at ht
      · cases ht
      · rename_i a p₂ r₂ ha
        cases ht
        exact hv g a (hf.taken _ _ _ _ _ hg) (hx.taken _ _ _ _ _ ha)

theorem of_collected {r : RecordReader Json α} {Good : r.Draft → Prop}
    (hg : ∀ d name node d', Good d → r.offer d name node = some (.ok d') → Good d')
    {members : List (String × Json)} {d d' : r.Draft} (hd : Good d)
    (h : r.collect d members = .ok d') : Good d' := by
  induction members generalizing d with
  | nil => cases h; exact hd
  | cons m members ih =>
    obtain ⟨name, node⟩ := m
    simp only [collect] at h
    split at h
    · next d₁ ho => exact ih (hg d name node d₁ hd ho) h
    · cases h
    · split at h
      · exact ih hd h
      · cases h

theorem read {r : RecordReader Json α} {V : α → Prop} (hr : r.Yields V) {name : String} {j : Json}
    {v : α} (h : r.read name j = .ok v) : V v := by
  obtain ⟨Good, hblank, hoffer, hfinish⟩ := hr.drafted
  cases hf : fields name j with
  | error fault => simp [RecordReader.read, hf, bind, Except.bind] at h
  | ok shape =>
    simp only [RecordReader.read, hf, bind, Except.bind] at h
    cases shape with
    | named members ending =>
      cases hc : r.collect r.blank members with
      | error fault => simp [hc] at h
      | ok d =>
        cases ending with
        | some fault => simp [hc] at h
        | none =>
          simp only [hc] at h
          exact hfinish d v (of_collected hoffer hblank hc) h
    | listed items ending =>
      dsimp only at h
      split at h
      · cases h
      · cases h
      · cases h
      · next w _ ht =>
        cases ending with
        | some fault => cases h
        | none => cases h; exact hr.taken _ _ _ _ _ ht

end Yields

/-- The members, met in this order, fill a draft from which the record makes `v`. -/
def Fills (r : RecordReader Json α) (members : List (String × Json)) (v : α) : Prop :=
  ∃ draft, r.collect r.blank members = .ok draft ∧ r.finish draft = .ok v

theorem collect_append (r : RecordReader Json α) (d : r.Draft) (first last : List (String × Json)) :
    r.collect d (first ++ last) = (r.collect d first).bind fun d' => r.collect d' last := by
  induction first generalizing d with
  | nil => rfl
  | cons m first ih =>
    simp only [List.cons_append, collect]
    split
    · exact ih _
    · rfl
    · split
      · exact ih d
      · rfl

theorem collect_both {f : RecordReader Json (α → β)} {x : RecordReader Json α}
    {members : List (String × Json)}
    (hx : ∀ m ∈ members, ∀ e, x.offer e m.1 m.2 = none) (d : f.Draft) (e : x.Draft) :
    (f.both x).collect (d, e) members = (f.collect d members).map (·, e) := by
  induction members generalizing d with
  | nil => rfl
  | cons m members ih =>
    have ih := ih fun m hm => hx m (List.mem_cons_of_mem _ hm)
    have hm := hx m List.mem_cons_self e
    simp only [collect, both, hm]
    cases f.offer d m.1 m.2 with
    | some result =>
      cases result with
      | ok d' => exact ih d'
      | error fault => rfl
    | none =>
      cases skip m.2 with
      | ok _ => exact ih d
      | error fault => rfl

/-- A record whose members so far are `names`: what a document makes of them is also made of the
members in which it is written. -/
structure Mirrors (r : RecordReader Json α) (names : List String)
    (written : α → List (String × Json) → Prop) : Prop where
  knows : ∀ name ∉ names, ∀ d node, r.offer d name node = none
  yields : r.Yields fun v =>
    ∃ members, written v members ∧ (∀ m ∈ members, m.1 ∈ names) ∧ r.Fills members v

namespace Mirrors

variable {r : RecordReader Json α} {names : List String}

theorem pure {v : α} {written : α → List (String × Json) → Prop} (hw : written v []) :
    Mirrors (.pure v) [] written where
  knows _ _ _ _ := rfl
  yields := .pure ⟨[], hw, by simp, (), rfl, rfl⟩

theorem member {f : RecordReader Json (α → β)} {written : β → List (String × Json) → Prop}
    {name : String} {absence : Absence α} {read : Reader Json α} {write : α → Json}
    (hf : f.Mirrors names fun g members =>
      ∀ a, written (g a) (members ++ [(name, write a)]))
    (hr : Restores read write)
    (habsent : match absence with
      | .required => True
      | .default v => read (write v) = .ok v
      | .omitted v => read (write v) = .ok v)
    (hname : name ∉ names) :
    (f.both (.member name absence read)).Mirrors (names ++ [name]) written where
  knows given hg d node := by
    have hgiven : given ∉ names := fun h => hg (List.mem_append_left _ h)
    have hne : given ≠ name := fun h => hg (List.mem_append_right _ (by simp [h]))
    simp [both, RecordReader.member, hf.knows given hgiven, hne]
  yields := by
    refine Yields.both hf.yields (Yields.member (V := fun a => read (write a) = .ok a) hr habsent) ?_
    rintro g a ⟨members, hw, hm, d, hc, hd⟩ ha
    refine ⟨members ++ [(name, write a)], hw a, ?_, (d, some a), ?_, ?_⟩
    · intro m h
      rcases List.mem_append.mp h with h | h
      · exact List.mem_append_left _ (hm m h)
      · exact List.mem_append_right _ (by simp_all)
    · have hother : ∀ m ∈ members, ∀ e,
          (RecordReader.member name absence read).offer e m.1 m.2 = none := by
        intro m h e
        have hne : m.1 ≠ name := fun he => hname (he ▸ hm m h)
        simp [RecordReader.member, hne]
      have hlast : f.offer d name (write a) = none := hf.knows name hname d (write a)
      have hfirst : (f.both (.member name absence read)).collect
          (f.both (.member name absence read)).blank members = .ok (d, none) := by
        refine (collect_both hother f.blank none).trans ?_
        rw [hc]
        rfl
      rw [collect_append, hfirst]
      simp [Except.map, Except.bind, collect, both, RecordReader.member, hlast, ha]
    · simp [both, RecordReader.member, hd, bind, Except.bind, Functor.map, Except.map]

theorem required {f : RecordReader Json (α → β)} {written : β → List (String × Json) → Prop}
    {name : String} {read : Reader Json α} {write : α → Json}
    (hf : f.Mirrors names fun g members => ∀ a, written (g a) (members ++ [(name, write a)]))
    (hr : Restores read write) (hname : name ∉ names) :
    (f.both (.required name read)).Mirrors (names ++ [name]) written :=
  hf.member hr trivial hname

theorem withDefault {f : RecordReader Json (α → β)} {written : β → List (String × Json) → Prop}
    {name : String} {value : α} {read : Reader Json α} {write : α → Json}
    (hf : f.Mirrors names fun g members => ∀ a, written (g a) (members ++ [(name, write a)]))
    (hr : Restores read write) (hv : read (write value) = .ok value) (hname : name ∉ names) :
    (f.both (.withDefault name value read)).Mirrors (names ++ [name]) written :=
  hf.member hr hv hname

theorem nullable {f : RecordReader Json (Option α → β)}
    {written : β → List (String × Json) → Prop} {name : String} {read : Reader Json α}
    {write : α → Json}
    (hf : f.Mirrors names fun g members =>
      ∀ a, written (g a) (members ++ [(name, .option write a)]))
    (hr : Restores (optional read) (.option write)) (hname : name ∉ names) :
    (f.both (.nullable name read)).Mirrors (names ++ [name]) written :=
  hf.member hr rfl hname

theorem restores {write : α → Json} {title : String}
    (hr : r.Mirrors names fun v members => write v = .record members) :
    Restores (r.read title) write := by
  intro j v h
  obtain ⟨members, hw, -, d, hc, hd⟩ := hr.yields.read h
  simp [hw, RecordReader.read, fields, Json.record, hc, hd, bind, Except.bind]

end Mirrors

end Markup.RecordReader

namespace Restores

variable {read : Reader Json α} {write : α → Json}

theorem option (hr : Restores read write) (hnull : ∀ v, write v ≠ .null) :
    Restores (optional read) (.option write) := by
  intro j v h
  cases v with
  | none => rfl
  | some v =>
    have hv : read (write v) = .ok v := by
      cases hp : present j with
      | error fault => simp [Markup.optional, hp, bind, Except.bind] at h
      | ok inner =>
        cases inner with
        | none => simp [Markup.optional, hp, bind, Except.bind] at h
        | some inner =>
          cases hi : read inner with
          | error fault => simp [Markup.optional, hp, hi, bind, Except.bind, Except.map] at h
          | ok w =>
            simp only [Markup.optional, hp, hi, bind, Except.bind, Except.map, Except.ok.injEq,
              Option.some.injEq] at h
            exact h ▸ hr inner w hi
    have hp : present (write v) = .ok (some (write v)) := by
      cases hw : write v with
      | null => exact absurd hw (hnull v)
      | _ => rfl
    simp [Json.option, Markup.optional, hp, hv, bind, Except.bind, Except.map]

theorem mapM_map {vs : List α} (h : ∀ v ∈ vs, read (write v) = .ok v) :
    (vs.map write).mapM read = .ok vs := by
  induction vs with
  | nil => rfl
  | cons v vs ih =>
    have hv := h v List.mem_cons_self
    have hs := ih fun w hw => h w (List.mem_cons_of_mem _ hw)
    simp [hv, hs, bind, Except.bind, pure, Except.pure]

theorem exists_of_mapM {nodes : List Json} {vs : List α} (h : nodes.mapM read = .ok vs) :
    ∀ v ∈ vs, ∃ node, read node = .ok v := by
  induction nodes generalizing vs with
  | nil => cases h; simp
  | cons node nodes ih =>
    rw [List.mapM_cons] at h
    cases hn : read node with
    | error fault => simp [hn, bind, Except.bind] at h
    | ok v =>
      cases hs : nodes.mapM read with
      | error fault => simp [hn, hs, bind, Except.bind] at h
      | ok rest =>
        simp only [hn, hs, bind, Except.bind, pure, Except.pure, Except.ok.injEq] at h
        subst h
        intro w hw
        rcases List.mem_cons.mp hw with rfl | hw
        · exact ⟨node, hn⟩
        · exact ih hs w hw

theorem list (hr : Restores read write) :
    Restores (listOf read) (fun vs => .list (vs.map write)) := by
  intro j vs h
  cases hi : items j with
  | error fault => simp [listOf, hi, bind, Except.bind] at h
  | ok nodes =>
    simp only [listOf, hi, bind, Except.bind] at h
    refine mapM_map fun v hv => ?_
    obtain ⟨node, hn⟩ := exists_of_mapM h v hv
    exact hr node v hn

end Restores

/-! ## The records of the interface -/

theorem InputType.restores : Restores InputType.read InputType.toJson := by
  refine .of_all fun t => ?_
  cases t <;> rfl

theorem TargetType.restores : Restores TargetType.read TargetType.toJson := by
  refine .of_all fun t => ?_
  cases t <;> rfl

theorem StepState.restores : Restores StepState.read StepState.toJson := by
  refine .of_all fun s => ?_
  cases s <;> rfl

theorem RunStatus.restores : Restores RunStatus.read RunStatus.toJson := by
  refine .of_all fun s => ?_
  cases s <;> rfl

open RecordReader (Mirrors)

theorem FlowInput.restores : Restores FlowInput.read FlowInput.toJson := by
  refine (Mirrors.pure ?_
    |>.required (.name .input) (by decide)
    |>.required .text (by decide)
    |>.withDefault .text rfl (by decide)
    |>.withDefault InputType.restores rfl (by decide)
    |>.withDefault .flag rfl (by decide)
    |>.withDefault .flag rfl (by decide)
    |>.withDefault .flag rfl (by decide)).restores
  intros
  rfl

theorem StepTarget.restores : Restores StepTarget.read StepTarget.toJson := by
  refine (Mirrors.pure ?_
    |>.required TargetType.restores (by decide)
    |>.required .text (by decide)).restores
  intros
  rfl

theorem StepInputDraft.read_flowInput (id : FlowInputId) :
    StepInputDraft.read (Json.record [("use-flow-input", .str id.text)]) =
      .ok ⟨some id, none, none⟩ := by
  simp [StepInputDraft.read, RecordReader.read, RecordReader.collect, RecordReader.both,
    RecordReader.withDefault, RecordReader.member, RecordReader.pure, Markup.optional, fields,
    present, Json.record, Restores.identifier_text, bind, Except.bind, Except.map, Functor.map]

theorem StepInputDraft.read_redirect (source : StepId) (useAs : String) :
    StepInputDraft.read
      (Json.record [("use-output-from-step", .str source.text), ("use-as", .str useAs)]) =
      .ok ⟨none, some source, some useAs⟩ := by
  simp [StepInputDraft.read, RecordReader.read, RecordReader.collect, RecordReader.both,
    RecordReader.withDefault, RecordReader.member, RecordReader.pure, Markup.optional, fields,
    present, string, Json.record, Restores.identifier_text, bind, Except.bind, Except.map,
    Functor.map]

theorem StepInputDraft.useAs_of_refine {d : StepInputDraft} {source : StepId} {useAs : String}
    (h : d.refine = .ok (.redirect source useAs)) : Text.isBlank useAs = false := by
  unfold StepInputDraft.refine at h
  split at h
  · cases h
  · split at h
    · cases h
    · next hb => cases h; simpa using hb
  · cases h
  · cases h

/-- The two kinds of step input are told apart by the members that are there; a blank name is not
read, so none is met again. -/
theorem StepInput.restores : Restores StepInput.read StepInput.toJson := by
  intro j v h
  cases v with
  | flowInput id =>
    simp [StepInput.read, StepInput.toJson, StepInputDraft.read_flowInput, StepInputDraft.refine,
      bind, Except.bind]
  | redirect source useAs =>
    have hb : Text.isBlank useAs = false := by
      cases hd : StepInputDraft.read j with
      | error fault => simp [StepInput.read, hd, bind, Except.bind] at h
      | ok d =>
        cases hr : d.refine with
        | error why => simp [StepInput.read, hd, hr, bind, Except.bind] at h
        | ok input =>
          simp only [StepInput.read, hd, hr, bind, Except.bind, Except.ok.injEq] at h
          exact StepInputDraft.useAs_of_refine (hr.trans (congrArg _ h))
    simp [StepInput.read, StepInput.toJson, StepInputDraft.read_redirect, StepInputDraft.refine,
      hb, bind, Except.bind]

theorem Step.restores : Restores Step.read Step.toJson := by
  refine (Mirrors.pure ?_
    |>.required (.name .step) (by decide)
    |>.required .number32 (by decide)
    |>.required .text (by decide)
    |>.withDefault .text rfl (by decide)
    |>.required StepTarget.restores (by decide)
    |>.withDefault StepInput.restores.list rfl (by decide)).restores
  intros
  rfl

theorem Flow.restores : Restores Flow.read Flow.toJson := by
  refine (Mirrors.pure ?_
    |>.required (.name .flow) (by decide)
    |>.required .number32 (by decide)
    |>.required .text (by decide)
    |>.withDefault .text rfl (by decide)
    |>.withDefault .text rfl (by decide)
    |>.required .number64 (by decide)
    |>.withDefault (Restores.text.option (by simp)) rfl (by decide)
    |>.withDefault FlowInput.restores.list rfl (by decide)
    |>.withDefault Step.restores.list rfl (by decide)).restores
  intros
  rfl

theorem StepReport.restores : Restores StepReport.read StepReport.toJson := by
  have hmoment := Restores.moment.option (by simp [Json.int])
  have htext := Restores.text.option (by simp)
  refine (Mirrors.pure ?_
    |>.required .text (by decide)
    |>.required .text (by decide)
    |>.required .text (by decide)
    |>.required .text (by decide)
    |>.required .number32 (by decide)
    |>.required StepState.restores (by decide)
    |>.nullable hmoment (by decide)
    |>.required .moment (by decide)
    |>.nullable hmoment (by decide)
    |>.nullable htext (by decide)
    |>.nullable htext (by decide)
    |>.nullable htext (by decide)
    |>.nullable htext (by decide)).restores
  intros
  rfl

theorem AppRun.restores : Restores AppRun.read AppRun.toJson := by
  refine (Mirrors.pure ?_
    |>.required RunStatus.restores (by decide)
    |>.withDefault (Restores.text.option (by simp)) rfl (by decide)).restores
  intros
  rfl

theorem AssistantAnswer.restores : Restores AssistantAnswer.read AssistantAnswer.toJson := by
  refine (Mirrors.pure ?_
    |>.required .text (by decide)
    |>.required .text (by decide)).restores
  intros
  rfl

theorem Payload.restores : Restores Payload.read Payload.toJson := by
  refine .of_all fun p => ?_
  cases p with
  | text s => rfl
  | bytes bs =>
    have hbs : (bs.map fun b => Json.nat b.toNat).mapM (byte : Reader Json UInt8) = .ok bs :=
      Restores.mapM_map fun b _ => Restores.byte_nat b
    have hc : Payload.readContent .bytes (.list (bs.map fun b => .nat b.toNat)) = .ok (.bytes bs) :=
      congrArg (Except.map Payload.bytes) hbs
    have hk : Payload.Kind.read (.str Payload.Kind.bytes.label) = .ok .bytes := rfl
    simp [Payload.read, Payload.toJson, Json.record, Payload.readMembers, Payload.nextPart,
      Payload.endParts, hk, hc, bind, Except.bind]

/-- Every value of the interface that some document gives is given again by the document that is
written of it. -/
theorem read_again_from_written :
    (∀ (document : Json) (flow : Flow),
      Flow.read document = .ok flow → Flow.read flow.toJson = .ok flow) ∧
    (∀ (document : Json) (report : StepReport),
      StepReport.read document = .ok report → StepReport.read report.toJson = .ok report) ∧
    (∀ (document : Json) (run : AppRun),
      AppRun.read document = .ok run → AppRun.read run.toJson = .ok run) ∧
    (∀ (document : Json) (answer : AssistantAnswer),
      AssistantAnswer.read document = .ok answer →
        AssistantAnswer.read answer.toJson = .ok answer) ∧
    ∀ (document : Json) (payload : Payload),
      Payload.read document = .ok payload → Payload.read payload.toJson = .ok payload :=
  ⟨Flow.restores, StepReport.restores, AppRun.restores, AssistantAnswer.restores,
    Payload.restores⟩

namespace Sample

/-- A flow in its shortest form: defaults left out, members out of order, records as lists. -/
def terseFlow : Json :=
  .obj
    [("steps", .arr [.obj
        [("input", .arr
          [.obj [("use-as", .str "draft"), ("use-flow-input", .null),
            ("use-output-from-step", .str "draft")] none] none),
         ("target", .arr [.str "app", .str "7"] none), ("name", .str "Review"),
         ("order", .nat 2), ("id", .str "review")] none] none),
     ("ttlInMinutes", .nat 60), ("name", .str "Letter"), ("version", .nat 1),
     ("id", .str "letter")] none

def terseReport : Json :=
  .obj
    [("id", .str "1"), ("sessionId", .str "2"), ("stepId", .str "draft"), ("stepName", .str "Draft"),
     ("order", .nat 1), ("state", .str "DONE"), ("lastUpdatedAt", .int (-5)),
     ("output", .str "Dear all")] none

end Sample

theorem read_again_from_terse :
    (∃ flow, Flow.read Sample.terseFlow = .ok flow ∧ Flow.read flow.toJson = .ok flow) ∧
    (∃ report, StepReport.read Sample.terseReport = .ok report ∧
      StepReport.read report.toJson = .ok report) ∧
    (∃ run, AppRun.read (Json.arr [.str "FAILED"] none) = .ok run ∧ AppRun.read run.toJson = .ok run) ∧
    (∃ answer,
      AssistantAnswer.read (Json.arr [.str "c-1", .str "Dear all"] none) = .ok answer ∧
      AssistantAnswer.read answer.toJson = .ok answer) ∧
    ∃ payload, Payload.read (.arr [.str "bytes", .arr [.nat 1, .nat 255] none] none) = .ok payload ∧
      Payload.read payload.toJson = .ok payload :=
  ⟨⟨_, rfl, read_again_from_written.1 Sample.terseFlow _ rfl⟩,
    ⟨_, rfl, read_again_from_written.2.1 Sample.terseReport _ rfl⟩,
    ⟨_, rfl, read_again_from_written.2.2.1 (.arr [.str "FAILED"] none) _ rfl⟩,
    ⟨_, rfl, read_again_from_written.2.2.2.1 (.arr [.str "c-1", .str "Dear all"] none) _ rfl⟩,
    ⟨_, rfl, read_again_from_written.2.2.2.2
      (.arr [.str "bytes", .arr [.nat 1, .nat 255] none] none) _ rfl⟩⟩

end FlowEngine
