import FlowEngine.Proofs.Lineage
import FlowEngine.Proofs.Mentions
import FlowEngine.Proofs.Nodes
import FlowEngine.Proofs.Parts
import FlowEngine.Session.Parameters

/-! # What the parameters of a document are

The outputs are put in first and then the texts that are passed through, each under its identifier.
Steps and flow inputs are identified independently of each other. A text that is passed through
takes the place of the output of a step with the same identifier, so that nothing is hidden if and
only if no two such entries meet.
-/
namespace FlowEngine

namespace InputBook

/-- No key is there without values. -/
def Filled (b : InputBook) : Prop := ∀ e ∈ b.entries, e.2 ≠ []

namespace Filled

variable {b : InputBook} {key : String} {values : List Input}

theorem set (hb : b.Filled) (key : String) (hvalues : values ≠ []) : (b.set key values).Filled := by
  intro e he
  rcases Table.mem_put he with rfl | he
  · exact hvalues
  · exact hb e he

theorem erase (hb : b.Filled) (key : String) : (b.erase key).Filled :=
  fun e he => hb e (List.mem_of_mem_filter he)

theorem map (hb : b.Filled) (f : Input → Input) : (b.map f).Filled := by
  intro e he
  obtain ⟨e', he', rfl⟩ := List.mem_map.mp he
  exact fun hnil => hb e' he' (List.map_eq_nil_iff.mp hnil)

theorem get?_iff (hb : b.Filled) :
    b.get? key = some values ↔ b.get key = values ∧ values ≠ [] := by
  rw [get]
  cases hget : b.get? key with
  | none => simp [eq_comm]
  | some found =>
    have hne : found ≠ [] := by
      obtain ⟨before, after, hentries, -⟩ := List.lookup_eq_some_iff.mp hget
      exact hb (key, found) (hentries ▸ List.mem_append_right _ List.mem_cons_self)
    rw [Option.getD_some, Option.some.injEq]
    exact ⟨fun heq => ⟨heq, heq ▸ hne⟩, And.left⟩

end Filled

end InputBook

namespace Session

variable {s t : Session}

/-- What can become of a session at once: its values are edited, a file is noted on one of them or
those that were handed on are taken out, a record is written, or a run starts or ends. -/
inductive Moves (s : Session) : Session → Prop where
  | edit {t : Session} : s.Edits t → Moves s t
  | file (slot : Nat) (file : String) : Moves s (s.recordFile slot file).2
  | take (steps : List String) : Moves s (s.takeUploadedRedirected steps).2
  | record (i : Nat) (f : StepRecord → StepRecord) : Moves s (s.modifyRecord i f)
  | start : Moves s s.started
  | settle (state : SessionState) : Moves s { s with state }

def Becomes : Session → Session → Prop := Relation.ReflTransGen Moves

theorem addInput_keeps {input : String} {value : Input} {gone : List Input}
    (h : s.addInput input value = .ok (gone, t)) :
    t.outline = s.outline ∧ (s.inputs.Filled → t.inputs.Filled) := by
  obtain ⟨declared, -, h⟩ := ok_of_bind h
  dsimp only at h
  split at h <;> cases h
  · exact ⟨rfl, fun hs => hs.set _ (List.append_ne_nil_of_right_ne_nil _ (List.cons_ne_nil _ _))⟩
  · exact ⟨rfl, fun hs => hs.set _ (List.cons_ne_nil _ _)⟩

theorem Edits.keeps (h : s.Edits t) :
    t.outline = s.outline ∧ (s.inputs.Filled → t.inputs.Filled) := by
  cases h with
  | add h => exact addInput_keeps h
  | addText h =>
    obtain ⟨declared, -, h⟩ := ok_of_bind h
    exact addInput_keeps h
  | replace h =>
    obtain ⟨declared, -, h⟩ := ok_of_bind h
    cases h
    exact ⟨rfl, fun hs => hs.set _ (List.cons_ne_nil _ _)⟩
  | clear h =>
    obtain ⟨declared, -, h⟩ := ok_of_bind h
    cases h
    exact ⟨rfl, fun hs => hs.erase _⟩
  | redirect step value => exact ⟨rfl, fun hs => hs⟩
  | unredirect step value =>
    rw [removeRedirected]
    split
    · split <;> exact ⟨rfl, fun hs => hs⟩
    · exact ⟨rfl, fun hs => hs⟩

theorem Moves.keeps (h : s.Moves t) :
    t.outline = s.outline ∧ (s.inputs.Filled → t.inputs.Filled) := by
  cases h with
  | edit h => exact h.keeps
  | file slot file => exact ⟨rfl, fun hs => hs.map _⟩
  | take steps => exact ⟨rfl, fun hs => hs⟩
  | record i f => exact ⟨outline_modifyRecord s i f, fun hs => hs⟩
  | start => exact ⟨rfl, fun hs => hs⟩
  | settle state => exact ⟨rfl, fun hs => hs⟩

/-- A session of a flow at any time: its steps are laid out for the flow, and there are no keys
without values among those that were supplied. -/
structure Standing (s : Session) : Prop where
  laid : s.outline.WellLaid
  filled : s.inputs.Filled

theorem standing {id tenant : String} {flow : Flow} {now : Int} {start : Session}
    (hn : Session.new id tenant flow now = .ok start) (hs : start.Becomes s) :
    s.Standing ∧ s.flow = flow := by
  induction hs with
  | refl =>
    obtain ⟨g, -, rfl⟩ := Session.new_eq hn
    exact ⟨⟨new_wellLaid hn, fun e he => nomatch he⟩, rfl⟩
  | tail _ hmove ih =>
    obtain ⟨houtline, hfilled⟩ := hmove.keeps
    have hflow := congrArg SessionOutline.flow houtline
    exact ⟨⟨houtline ▸ ih.1.laid, hfilled ih.1.filled⟩, hflow.trans ih.2⟩

/-- A step is done and has an output. -/
def Delivers (s : Session) (name text : String) : Prop :=
  ∃ step ∈ s.flow.steps, step.id.text = name ∧
    ∃ x, s.execution name = .ok x ∧ x.record.isDone = true ∧ x.record.output = some text

/-- A flow input that is passed through has values, and these are their texts. -/
def PassesOn (s : Session) (name text : String) : Prop :=
  ∃ i ∈ s.flow.inputs, i.passthrough = true ∧ i.id.text = name ∧
    s.inputs.get name ≠ [] ∧
    text = "\n\n".intercalate ((s.inputs.get name).map fun v => v.payload.toTextLossy)

variable {name text : String}

theorem execution_iff (hl : s.outline.WellLaid) {x : StepExecution} :
    s.execution name = .ok x ↔ x ∈ s.graph.nodes ∧ x.step.id.text = name := by
  rw [← StepGraph.node?_iff hl.laid, execution]
  cases s.graph.node? name <;> simp

theorem mem_outputs (hl : s.outline.WellLaid) :
    (name, text) ∈ s.outputs ↔ s.Delivers name text := by
  rw [outputs, List.mem_filterMap]
  constructor
  · rintro ⟨x, hx, hentry⟩
    have hnode := s.graph.inOrder_perm.mem_iff.mp hx
    split at hentry
    · next hdone =>
      obtain ⟨output, houtput, heq⟩ := Option.map_eq_some_iff.mp hentry
      obtain ⟨rfl, rfl⟩ := Prod.mk.inj heq
      exact ⟨x.step, hl.laid.declares (List.mem_map_of_mem (f := StepExecution.outline) hnode), rfl,
        x, (execution_iff hl).mpr ⟨hnode, rfl⟩, hdone, houtput⟩
    · cases hentry
  · rintro ⟨step, -, -, x, hx, hdone, houtput⟩
    obtain ⟨hnode, rfl⟩ := (execution_iff hl).mp hx
    refine ⟨x, s.graph.inOrder_perm.mem_iff.mpr hnode, ?_⟩
    rw [if_pos hdone, houtput, Option.map_some]

theorem outputs_distinct (hl : s.outline.WellLaid) : s.outputs.Distinct := by
  have hids : (s.graph.inOrder.map fun x => x.step.id).Nodup :=
    (s.graph.inOrder_perm.map _).nodup_iff.mpr hl.laid.node_ids
  refine List.pairwise_map.mpr ((List.pairwise_map.mp hids).filterMap _ ?_)
  intro x y hne p hp q hq heq
  have hname : ∀ (x : StepExecution) (p : String × String), (if x.record.isDone then
      x.record.output.map fun o => (x.step.id.text, o) else none) = some p →
      p.1 = x.step.id.text := by
    intro x p hp
    split at hp
    · obtain ⟨output, -, rfl⟩ := Option.map_eq_some_iff.mp hp
      rfl
    · cases hp
  exact hne (Identifier.ext_text ((hname x p hp).symm.trans (heq.trans (hname y q hq))))

theorem mem_passedThrough (hf : s.inputs.Filled) :
    (name, text) ∈ s.passedThrough ↔ s.PassesOn name text := by
  rw [passedThrough, List.mem_filterMap]
  constructor
  · rintro ⟨i, hi, hentry⟩
    obtain ⟨hdeclared, hpassed⟩ := List.mem_filter.mp hi
    obtain ⟨values, hvalues, heq⟩ := Option.map_eq_some_iff.mp hentry
    obtain ⟨rfl, rfl⟩ := Prod.mk.inj heq
    obtain ⟨rfl, hne⟩ := hf.get?_iff.mp hvalues
    exact ⟨i, hdeclared, hpassed, rfl, hne, rfl⟩
  · rintro ⟨i, hdeclared, hpassed, rfl, hne, rfl⟩
    refine ⟨i, List.mem_filter.mpr ⟨hdeclared, hpassed⟩, ?_⟩
    rw [hf.get?_iff.mpr ⟨rfl, hne⟩]
    rfl

theorem passedThrough_distinct (hd : (s.flow.inputs.map FlowInput.id).Nodup) :
    s.passedThrough.Distinct := by
  have hids := (List.pairwise_map.mp hd).filter FlowInput.passthrough
  refine List.pairwise_map.mpr (hids.filterMap _ ?_)
  intro i j hne p hp q hq heq
  obtain ⟨values, -, rfl⟩ := Option.map_eq_some_iff.mp hp
  obtain ⟨values', -, rfl⟩ := Option.map_eq_some_iff.mp hq
  exact hne (Identifier.ext_text heq)

theorem parameters_sorted (s : Session) : Table.Sorted s.parameters :=
  Table.Sorted.foldl_put List.Pairwise.nil

theorem mem_parameters (hs : s.Standing) (hd : (s.flow.inputs.map FlowInput.id).Nodup) :
    (name, text) ∈ s.parameters ↔
      s.PassesOn name text ∨ s.Delivers name text ∧ ∀ other, ¬ s.PassesOn name other := by
  have houtputs := (outputs_distinct hs.laid).reverse
  have hpassed := (passedThrough_distinct hd).reverse
  rw [← (parameters_sorted s).distinct.lookup, parameters, Table.lookup_foldl_put,
    List.lookup_nil, Option.or_none, List.reverse_append, List.lookup_append,
    Option.or_eq_some_iff, hpassed.lookup, houtputs.lookup, List.mem_reverse, List.mem_reverse,
    mem_outputs hs.laid, mem_passedThrough hs.filled, Option.eq_none_iff_forall_ne_some]
  simp only [ne_eq, hpassed.lookup, List.mem_reverse, mem_passedThrough hs.filled]
  exact or_congr_right and_comm

/-- The parameters are in the order of their names, each name once. An entry is a text that is
passed through, or the output of a step that is done and whose name no such text has; there are no
others. So the outputs and the texts are all there, and nothing else is, if and only if those that
have the same name are the same. None takes the place of another if and only if none have the same
name. -/
theorem parameters_exact {id tenant : String} {flow : Flow} {now : Int} {start : Session}
    (hv : flow.validate = .ok ()) (hn : Session.new id tenant flow now = .ok start)
    (hs : start.Becomes s) :
    Table.Sorted s.parameters ∧
    (∀ name text, (name, text) ∈ s.parameters ↔
      s.PassesOn name text ∨ s.Delivers name text ∧ ∀ other, ¬ s.PassesOn name other) ∧
    ((∀ name text, (name, text) ∈ s.parameters ↔ s.Delivers name text ∨ s.PassesOn name text) ↔
      ∀ name output text, s.Delivers name output → s.PassesOn name text → output = text) ∧
    (s.parameters.Perm (s.outputs ++ s.passedThrough) ↔
      ∀ name output text, s.Delivers name output → ¬ s.PassesOn name text) := by
  obtain ⟨hstanding, rfl⟩ := standing hn hs
  have hd := (Flow.validate_ok hv).1.inputsDistinct
  have hmem : ∀ name text, (name, text) ∈ s.parameters ↔
      s.PassesOn name text ∨ s.Delivers name text ∧ ∀ other, ¬ s.PassesOn name other :=
    fun _ _ => mem_parameters hstanding hd
  have hsorted := parameters_sorted s
  refine ⟨hsorted, hmem, ⟨fun hall name output text hout hpass => ?_,
    fun hsame name text => ?_⟩, ⟨fun hperm name output text hout hpass => ?_, fun hapart => ?_⟩⟩
  · have hfound := hsorted.distinct.lookup.mpr ((hall name output).mpr (.inl hout))
    have hfound' := hsorted.distinct.lookup.mpr ((hall name text).mpr (.inr hpass))
    exact Option.some.inj (hfound.symm.trans hfound')
  · rw [hmem]
    constructor
    · exact fun h => h.symm.imp And.left fun hpass => hpass
    · rintro (hout | hpass)
      · by_cases hnone : ∃ other, s.PassesOn name other
        · obtain ⟨other, hother⟩ := hnone
          exact .inl (hsame name text other hout hother ▸ hother)
        · exact .inr ⟨hout, not_exists.mp hnone⟩
      · exact .inl hpass
  · have hdistinct := (hperm.map Prod.fst).nodup_iff.mp hsorted.distinct
    rw [List.map_append] at hdistinct
    have hfirst := List.mem_map_of_mem (f := Prod.fst) ((mem_outputs hstanding.laid).mpr hout)
    have hsecond :=
      List.mem_map_of_mem (f := Prod.fst) ((mem_passedThrough hstanding.filled).mpr hpass)
    exact (List.nodup_append.mp hdistinct).2.2 _ hfirst _ hsecond rfl
  · have hboth : (s.outputs ++ s.passedThrough).Distinct := by
      rw [Table.Distinct, List.map_append]
      refine List.nodup_append.mpr ⟨outputs_distinct hstanding.laid, passedThrough_distinct hd, ?_⟩
      intro a ha b hb heq
      obtain ⟨p, hp, rfl⟩ := List.mem_map.mp ha
      obtain ⟨q, hq, rfl⟩ := List.mem_map.mp hb
      exact hapart q.1 p.2 q.2 (heq ▸ (mem_outputs hstanding.laid).mp hp)
        ((mem_passedThrough hstanding.filled).mp hq)
    rw [List.perm_ext_iff_of_nodup (.of_map _ hsorted.distinct) (.of_map _ hboth)]
    rintro ⟨name, text⟩
    rw [hmem, List.mem_append, mem_outputs hstanding.laid, mem_passedThrough hstanding.filled,
      or_comm]
    exact or_congr_left ⟨And.left, fun hout => ⟨hout, fun other => hapart name text other hout⟩⟩

end Session

namespace Sample

/-- A draft, and a text that is passed through. -/
def annotating (note : FlowInputId) : Flow :=
  { flow with
    inputs := [⟨note, note.text, "", .text, true, false, true⟩]
    steps := [step draft []] }

def blank (note : FlowInputId) : Session :=
  .bare "letter-1" "acme" (annotating note) 0 ⟨[⟨"letter-1", step draft [], 0, [], .fresh 0⟩]⟩

def noted (note : FlowInputId) : Session :=
  { blank note with
    inputs := ⟨[(note.text, [⟨note.text, .text "mine", none, 1⟩])]⟩
    nextSlot := 2 }

def annotated (note : FlowInputId) : Session :=
  (noted note).modifyRecord 0 fun r => r.finish ⟨"yes", none, none⟩ 1 9

theorem blank_becomes (note : FlowInputId)
    (h : (blank note).addText note.text "mine" = .ok ([], noted note)) :
    (blank note).Becomes (annotated note) :=
  .tail (.single (.edit (.addText h))) (.record 0 _)

end Sample

theorem parameters_exact_stamp : (Sample.annotating Sample.stampInput).validate = .ok () ∧
    Session.new "letter-1" "acme" (Sample.annotating Sample.stampInput) 0 =
      .ok (Sample.blank Sample.stampInput) ∧
    (Sample.blank Sample.stampInput).Becomes (Sample.annotated Sample.stampInput) ∧
    (∀ name text, (name, text) ∈ [("draft", "yes"), ("stamp", "mine")] ↔
      (Sample.annotated Sample.stampInput).Delivers name text ∨
        (Sample.annotated Sample.stampInput).PassesOn name text) ∧
    ∀ name output text, (Sample.annotated Sample.stampInput).Delivers name output →
      ¬ (Sample.annotated Sample.stampInput).PassesOn name text := by
  have hv : (Sample.annotating Sample.stampInput).validate = .ok () := by decide +kernel
  have hn : Session.new "letter-1" "acme" (Sample.annotating Sample.stampInput) 0 =
      .ok (Sample.blank Sample.stampInput) := by decide +kernel
  have hs := Sample.blank_becomes Sample.stampInput (by decide +kernel)
  obtain ⟨-, -, hboth, happart⟩ := Session.parameters_exact hv hn hs
  have hparameters : (Sample.annotated Sample.stampInput).parameters =
      [("draft", "yes"), ("stamp", "mine")] := by decide +kernel
  have hnone := happart.mp (by decide +kernel)
  have hall := hboth.mpr fun name output text hout hpass =>
    absurd hpass (hnone name output text hout)
  exact ⟨hv, hn, hs, hparameters ▸ hall, hnone⟩

/-- The draft has been written, but under its name there is the text that was supplied. -/
theorem draft_hidden_by_text : (Sample.annotating Sample.draftInput).validate = .ok () ∧
    Session.new "letter-1" "acme" (Sample.annotating Sample.draftInput) 0 =
      .ok (Sample.blank Sample.draftInput) ∧
    (Sample.blank Sample.draftInput).Becomes (Sample.annotated Sample.draftInput) ∧
    (Sample.annotated Sample.draftInput).Delivers "draft" "yes" ∧
    (Sample.annotated Sample.draftInput).parameters = [("draft", "mine")] := by
  refine ⟨by decide +kernel, by decide +kernel, Sample.blank_becomes _ (by decide +kernel), ?_,
    by decide +kernel⟩
  exact ⟨Sample.step Sample.draft [], List.mem_singleton_self _, rfl, _, rfl, rfl, rfl⟩

end FlowEngine
