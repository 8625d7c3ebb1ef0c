import FlowEngine.Engine.Steps
import FlowEngine.Proofs.Handover
import FlowEngine.Proofs.Nodes
import Mathlib.Data.List.DropRight

/-! # What a step is asked about

A step mentions flow inputs, and steps whose output it redirects; these are its origins. The walk
over the inputs of a step keeps the first mention of each origin. What a step is asked about is then
one block for each origin that has files, in the order of the first mentions, and the request tells
of these blocks and of nothing else.
-/
namespace FlowEngine

/-- What a step input stands for. -/
inductive Origin where
  | supplied (id : FlowInputId)
  | handedOn (source : StepId)
  deriving DecidableEq, Repr

namespace StepInput

def origin : StepInput → Origin
  | .flowInput id => .supplied id
  | .redirect source _ => .handedOn source

theorem useOf?_eq_none {source : StepId} {input : StepInput}
    (h : input.origin ≠ .handedOn source) : input.useOf? source = none := by
  cases input with
  | flowInput id => rfl
  | redirect other useAs => exact if_neg fun heq => h (congrArg Origin.handedOn heq)

end StepInput

namespace Step

/-- What the inputs of a step stand for, each once, in the order of the first mentions. -/
def origins (step : Step) : List Origin := (step.inputs.map StepInput.origin).eraseDups

/-- The names under which a step hands on the output of a source to its target. -/
def uses (step : Step) (source : StepId) : List String :=
  step.inputs.filterMap (StepInput.useOf? source)

theorem nodup_origins (step : Step) : step.origins.Nodup := nodup_eraseDups _

theorem mem_origins {step : Step} {o : Origin} :
    o ∈ step.origins ↔ ∃ input ∈ step.inputs, input.origin = o := by
  rw [origins, List.mem_eraseDups, List.mem_map]

theorem supplied_mem_origins {step : Step} {id : FlowInputId} :
    .supplied id ∈ step.origins ↔ .flowInput id ∈ step.inputs := by
  rw [mem_origins]
  constructor
  · rintro ⟨input, hinput, horigin⟩
    cases input with
    | flowInput other => exact Origin.supplied.inj horigin ▸ hinput
    | redirect source useAs => cases horigin
  · exact fun h => ⟨_, h, rfl⟩

theorem handedOn_mem_origins {step : Step} {source : StepId} :
    .handedOn source ∈ step.origins ↔ ∃ useAs, .redirect source useAs ∈ step.inputs := by
  rw [mem_origins]
  constructor
  · rintro ⟨input, hinput, horigin⟩
    cases input with
    | flowInput id => cases horigin
    | redirect other useAs => exact ⟨useAs, Origin.handedOn.inj horigin ▸ hinput⟩
  · rintro ⟨useAs, h⟩
    exact ⟨_, h, rfl⟩

theorem mem_uses {step : Step} {source : StepId} {useAs : String} :
    useAs ∈ step.uses source ↔ .redirect source useAs ∈ step.inputs := by
  rw [uses, List.mem_filterMap]
  constructor
  · rintro ⟨input, hinput, huse⟩
    cases input with
    | flowInput id => cases huse
    | redirect other name =>
      simp only [StepInput.useOf?] at huse
      split at huse
      · next heq =>
        cases huse
        exact heq ▸ hinput
      · cases huse
  · exact fun h => ⟨_, h, if_pos rfl⟩

end Step

theorem eraseDups_filter {α : Type} [BEq α] [LawfulBEq α] (p : α → Bool) (l : List α) :
    (l.filter p).eraseDups = l.eraseDups.filter p := by
  induction l using List.reverseRecOn with
  | nil => rfl
  | append_singleton l a ih =>
    rw [List.filter_append, eraseDups_concat]
    by_cases hp : p a = true
    · have hmem : (l.filter p).contains a = l.contains a := by
        rw [Bool.eq_iff_iff, List.contains_iff_mem, List.contains_iff_mem, List.mem_filter]
        exact and_iff_left hp
      rw [List.filter_cons_of_pos hp, List.filter_nil, eraseDups_concat, hmem, ih]
      split
      · rfl
      · rw [List.filter_append, List.filter_cons_of_pos hp, List.filter_nil]
    · rw [List.filter_cons_of_neg hp, List.filter_nil, List.append_nil, ih]
      split
      · rfl
      · rw [List.filter_append, List.filter_cons_of_neg hp, List.filter_nil, List.append_nil]

namespace Session

/-! ### First mentions -/

theorem sameOrigin_iff (a b : StepInput) : sameOrigin a b = true ↔ b.origin = a.origin := by
  cases a <;> cases b <;> simp only [sameOrigin, StepInput.origin, beq_iff_eq,
    Origin.supplied.injEq, Origin.handedOn.injEq, reduceCtorEq, Bool.false_eq_true] <;>
    exact eq_comm

theorem firstMentions_origins (inputs : List StepInput) :
    (firstMentions inputs).map StepInput.origin = (inputs.map StepInput.origin).eraseDups := by
  induction inputs with
  | nil => rfl
  | cons i rest ih =>
    rw [firstMentions, List.map_cons, List.map_cons, List.eraseDups_cons, eraseDups_filter, ← ih,
      List.filter_map]
    congr 2
    refine List.filter_congr fun j _ => ?_
    rw [Bool.eq_iff_iff]
    simp [← Bool.not_eq_true, sameOrigin_iff]

theorem firstMentions_use {source : StepId} {useAs : String} {inputs : List StepInput}
    (h : .redirect source useAs ∈ firstMentions inputs) :
    (inputs.filterMap (StepInput.useOf? source)).head? = some useAs := by
  induction inputs with
  | nil => cases h
  | cons i rest ih =>
    rw [firstMentions] at h
    rcases List.mem_cons.mp h with rfl | h
    · have huse : StepInput.useOf? source (.redirect source useAs) = some useAs := if_pos rfl
      rw [List.filterMap_cons_some huse, List.head?_cons]
    · obtain ⟨hrest, hother⟩ := List.mem_filter.mp h
      have hne : i.origin ≠ .handedOn source := by
        intro heq
        have hsame : sameOrigin i (.redirect source useAs) = true :=
          (sameOrigin_iff _ _).mpr heq.symm
        rw [hsame] at hother
        cases hother
      rw [List.filterMap_cons_none (StepInput.useOf?_eq_none hne)]
      exact ih hrest

/-! ### Blocks -/

/-- The values that belong to an origin. A flow input that is passed through to the result has none
here, and neither has one that is not declared. -/
def valuesAt (s : Session) : Origin → List Input
  | .supplied id =>
    match s.flow.findInput? id.text with
    | some declared => if declared.passthrough then [] else s.inputs.get id.text
    | none => []
  | .handedOn source => s.redirected.get source.text

def filesAt (s : Session) (o : Origin) : List String := (s.valuesAt o).filterMap Input.file

/-- What an origin is called: a source goes by the name of its first redirect. -/
def nameAt (s : Session) (step : Step) : Origin → String
  | .supplied id => s.flow.inputLead ++ ((s.flow.findInput? id.text).map FlowInput.name).getD ""
  | .handedOn source => (step.uses source).headD ""

def blockAt (s : Session) (step : Step) (o : Origin) : InputBlock :=
  ⟨s.nameAt step o, s.filesAt o⟩

variable {s : Session} {step : Step}

theorem mem_valuesAt_supplied {id : FlowInputId} {v : Input} :
    v ∈ s.valuesAt (.supplied id) ↔ ∃ declared, s.flow.findInput? id.text = some declared ∧
      declared.passthrough = false ∧ v ∈ s.inputs.get id.text := by
  rw [valuesAt]
  cases hd : s.flow.findInput? id.text with
  | none => simp
  | some declared => cases hp : declared.passthrough <;> simp [hp]

theorem blockOf_cases {input : StepInput} (h : input ∈ firstMentions step.inputs) :
    s.blockOf input = some (s.blockAt step input.origin) ∨
      s.blockOf input = none ∧ s.filesAt input.origin = [] := by
  cases input with
  | flowInput id =>
    cases hd : s.flow.findInput? id.text with
    | none => exact .inr (by simp [blockOf, StepInput.origin, filesAt, valuesAt, hd])
    | some declared =>
      cases hp : declared.passthrough with
      | true => exact .inr (by simp [blockOf, StepInput.origin, filesAt, valuesAt, hd, hp])
      | false =>
        exact .inl (by simp [blockOf, StepInput.origin, blockAt, nameAt, filesAt, valuesAt, hd, hp])
  | redirect source useAs =>
    have hname : (step.uses source).headD "" = useAs := by
      rw [List.headD_eq_head?_getD, Step.uses, firstMentions_use h]
      rfl
    refine .inl ?_
    rw [StepInput.origin, blockAt, nameAt, hname]
    rfl

/-- A step has one block for each of its origins that has files, in the order of the origins. -/
theorem blocks_eq (s : Session) (step : Step) :
    s.blocks step = (step.origins.filter fun o => !(s.filesAt o).isEmpty).map (s.blockAt step) := by
  rw [blocks, Step.origins, ← firstMentions_origins]
  have hall : ∀ input ∈ firstMentions step.inputs, _ := fun _ h => blockOf_cases (s := s) h
  generalize firstMentions step.inputs = inputs at hall
  induction inputs with
  | nil => rfl
  | cons input rest ih =>
    obtain ⟨hinput, hrest⟩ := List.forall_mem_cons.mp hall
    rw [List.map_cons]
    rcases hinput with hblock | ⟨hnone, hfiles⟩
    · rw [List.filterMap_cons_some hblock]
      by_cases hfiles : s.filesAt input.origin = []
      · rw [List.filter_cons_of_neg (by simp [blockAt, hfiles]),
          List.filter_cons_of_neg (by simp [hfiles]), ih hrest]
      · rw [List.filter_cons_of_pos (by simpa [blockAt] using hfiles),
          List.filter_cons_of_pos (by simpa using hfiles), ih hrest, List.map_cons]
    · rw [List.filterMap_cons_none hnone, ih hrest, List.filter_cons_of_neg (by simp [hfiles])]

theorem inUse_files (s : Session) (step : Step) :
    (s.inUse step).files = step.origins.flatMap s.filesAt := by
  show (s.blocks step).flatMap InputBlock.files = _
  rw [blocks_eq, List.flatMap_map]
  induction step.origins with
  | nil => rfl
  | cons o rest ih =>
    rw [List.flatMap_cons, ← ih]
    by_cases hfiles : s.filesAt o = []
    · rw [List.filter_cons_of_neg (by simp [hfiles]), hfiles, List.nil_append]
    · rw [List.filter_cons_of_pos (by simpa using hfiles), List.flatMap_cons]
      rfl

theorem mem_inUse {file : String} : file ∈ (s.inUse step).files ↔
    (∃ id declared, .flowInput id ∈ step.inputs ∧ s.flow.findInput? id.text = some declared ∧
      declared.passthrough = false ∧ ∃ v ∈ s.inputs.get id.text, v.file = some file) ∨
    ∃ source useAs, .redirect source useAs ∈ step.inputs ∧
      ∃ v ∈ s.redirected.get source.text, v.file = some file := by
  rw [inUse_files, List.mem_flatMap]
  constructor
  · rintro ⟨o, ho, hfile⟩
    obtain ⟨v, hv, hvfile⟩ := List.mem_filterMap.mp hfile
    cases o with
    | supplied id =>
      obtain ⟨declared, hd, hp, hv⟩ := mem_valuesAt_supplied.mp hv
      exact .inl ⟨id, declared, Step.supplied_mem_origins.mp ho, hd, hp, v, hv, hvfile⟩
    | handedOn source =>
      obtain ⟨useAs, huse⟩ := Step.handedOn_mem_origins.mp ho
      exact .inr ⟨source, useAs, huse, v, hv, hvfile⟩
  · rintro (⟨id, declared, hid, hd, hp, v, hv, hfile⟩ | ⟨source, useAs, huse, v, hv, hfile⟩)
    · have hvalue := mem_valuesAt_supplied.mpr ⟨declared, hd, hp, hv⟩
      exact ⟨_, Step.supplied_mem_origins.mpr hid, List.mem_filterMap.mpr ⟨v, hvalue, hfile⟩⟩
    · exact ⟨_, Step.handedOn_mem_origins.mpr ⟨useAs, huse⟩, List.mem_filterMap.mpr ⟨v, hv, hfile⟩⟩

end Session

/-! ### Distinct files -/

namespace InputBook

theorem disjoint_get {b : InputBook} (hb : (b.values.filterMap Input.file).Nodup)
    {key other : String} (hne : key ≠ other) :
    List.Disjoint ((b.get key).filterMap Input.file) ((b.get other).filterMap Input.file) := by
  obtain ⟨entries⟩ := b
  induction entries with
  | nil => exact List.disjoint_nil_left _
  | cons e rest ih =>
    rw [values, List.flatMap_cons, List.filterMap_append] at hb
    obtain ⟨-, hrest, hapart⟩ := List.nodup_append'.mp hb
    have hlater : ∀ k, (((⟨rest⟩ : InputBook).get k).filterMap Input.file) ⊆
        (rest.flatMap Prod.snd).filterMap Input.file :=
      fun k => List.filterMap_subset _ (get_subset ⟨rest⟩ k)
    have hget : ∀ k, (⟨e :: rest⟩ : InputBook).get k =
        if k = e.1 then e.2 else (⟨rest⟩ : InputBook).get k := by
      intro k
      rw [get, get?, Table.lookup_cons_if]
      split <;> rfl
    rw [hget, hget]
    by_cases hkey : key = e.1
    · rw [if_pos hkey, if_neg fun h => hne (hkey.trans h.symm)]
      exact List.disjoint_of_subset_right (hlater other) hapart
    · rw [if_neg hkey]
      by_cases hother : other = e.1
      · rw [if_pos hother]
        exact List.disjoint_of_subset_left (hlater key) (List.disjoint_comm.mp hapart)
      · rw [if_neg hother]
        exact ih hrest

end InputBook

namespace Session

variable {s : Session} {step : Step}

theorem filesAt_supplied_sublist (s : Session) (id : FlowInputId) :
    (s.filesAt (.supplied id)).Sublist ((s.inputs.get id.text).filterMap Input.file) := by
  refine List.Sublist.filterMap _ ?_
  rw [valuesAt]
  split
  · split
    · exact List.nil_sublist _
    · exact List.Sublist.refl _
  · exact List.nil_sublist _

theorem disjoint_filesAt (hs : s.files.Nodup) {a b : Origin} (hne : a ≠ b) :
    List.Disjoint (s.filesAt a) (s.filesAt b) := by
  rw [files, values, List.filterMap_append] at hs
  obtain ⟨hinputs, hredirected, hapart⟩ := List.nodup_append'.mp hs
  have hsupplied : ∀ id, s.filesAt (.supplied id) ⊆ s.inputs.values.filterMap Input.file :=
    fun id => List.Subset.trans (filesAt_supplied_sublist s id).subset
      (List.filterMap_subset _ (InputBook.get_subset _ _))
  have hhanded : ∀ source, s.filesAt (.handedOn source) ⊆ s.redirected.values.filterMap Input.file :=
    fun source => List.filterMap_subset _ (InputBook.get_subset _ _)
  have hmixed : ∀ id source,
      List.Disjoint (s.filesAt (.supplied id)) (s.filesAt (.handedOn source)) :=
    fun id source => List.disjoint_of_subset_left (hsupplied id)
      (List.disjoint_of_subset_right (hhanded source) hapart)
  cases a with
  | supplied id =>
    cases b with
    | supplied other =>
      have htext : id.text ≠ other.text := fun ht => hne (congrArg _ (Identifier.ext_text ht))
      exact List.disjoint_of_subset_left (filesAt_supplied_sublist s id).subset
        (List.disjoint_of_subset_right (filesAt_supplied_sublist s other).subset
          (InputBook.disjoint_get hinputs htext))
    | handedOn source => exact hmixed id source
  | handedOn source =>
    cases b with
    | supplied id => exact List.disjoint_comm.mp (hmixed id source)
    | handedOn other =>
      have htext : source.text ≠ other.text := fun ht => hne (congrArg _ (Identifier.ext_text ht))
      exact InputBook.disjoint_get hredirected htext

theorem nodup_filesAt (hs : s.files.Nodup) (o : Origin) : (s.filesAt o).Nodup := by
  rw [files, values, List.filterMap_append] at hs
  obtain ⟨hinputs, hredirected, -⟩ := List.nodup_append'.mp hs
  cases o with
  | supplied id =>
    have hget := hinputs.sublist ((InputBook.get_sublist s.inputs id.text).filterMap Input.file)
    exact hget.sublist (filesAt_supplied_sublist s id)
  | handedOn source =>
    exact hredirected.sublist ((InputBook.get_sublist s.redirected source.text).filterMap Input.file)

theorem nodup_inUse (hs : s.files.Nodup) (step : Step) : (s.inUse step).files.Nodup := by
  rw [inUse_files, List.nodup_flatMap]
  refine ⟨fun o _ => nodup_filesAt hs o, ?_⟩
  exact step.nodup_origins.imp fun hne => disjoint_filesAt hs hne

end Session

namespace Text

theorem trimChars_eq_nil_iff (cs : List Char) :
    trimChars cs = [] ↔ cs.all isBlankChar = true := by
  rw [trimChars, List.reverse_eq_nil_iff, List.dropWhile_eq_nil_iff, List.all_eq_true]
  simp only [List.mem_reverse]
  rw [← List.dropWhile_eq_nil_iff, ← List.dropWhile_eq_nil_iff, List.dropWhile_idempotent]

theorem isEmpty_trim (s : String) : (trim s).isEmpty = isBlank s := by
  rw [Bool.eq_iff_iff, trim, isBlank, String.isEmpty_iff, String.ofList_eq_empty_iff]
  exact trimChars_eq_nil_iff s.toList

end Text

theorem Steps.question_of_isBlank (description : String) {words : String}
    (h : Text.isBlank words = true) : question description (some words) = description := by
  rw [question, Option.map_some, Option.filter_some, Text.isEmpty_trim, h]
  rfl

/-- A question is the description and the words of the user, as far as there are any, with a blank
line between them. -/
theorem Steps.question_eq (description : String) (userInput : Option String) :
    question description userInput = "\n\n".intercalate
      ([description, (userInput.map Text.trim).getD ""].filter fun part => !part.isEmpty) := by
  have halone : ∀ d : String,
      d = "\n\n".intercalate ([d, ""].filter fun part => !part.isEmpty) := by
    intro d
    by_cases hd : d.isEmpty = true
    · rw [String.isEmpty_iff.mp hd]
      rfl
    · rw [List.filter_cons_of_pos (by simpa using hd)]
      rfl
  cases userInput with
  | none => exact halone description
  | some input =>
    rw [question, Option.map_some, Option.getD_some]
    by_cases hwords : (Text.trim input).isEmpty = true
    · rw [Option.filter_some, if_neg (by simp [hwords]), String.isEmpty_iff.mp hwords]
      exact halone description
    · rw [Option.filter_some, if_pos (by simpa using hwords)]
      by_cases hd : description.isEmpty = true
      · rw [List.filter_cons_of_neg (by simp [hd]), List.filter_cons_of_pos (by simpa using hwords)]
        simp only [hd, if_true]
        rfl
      · rw [List.filter_cons_of_pos (by simpa using hd),
          List.filter_cons_of_pos (by simpa using hwords)]
        simp only [hd]
        rfl

/-- The files of a request are those of the lines that describe them, in the same order: one block
for each origin of the step that has files, at its first mention. They are the files that are
recorded on values of referenced flow inputs which are not passed through and on values handed on
from redirected sources, and no others. If the values of the session have different files, none is
listed twice; if all of them are uploaded, no value of such a flow input is left out. -/
theorem request_confined (o : StepOrder) (s : Session) (step : Step) :
    (Steps.request o step (s.inUse step)).files = (s.blocks step).flatMap InputBlock.files ∧
    (Steps.request o step (s.inUse step)).question = "\n\n".intercalate
      (["\n".intercalate ((s.blocks step).map fun b => describeInput b.name b.files),
        (o.userInput.map Text.trim).getD ""].filter fun part => !part.isEmpty) ∧
    s.blocks step =
      (step.origins.filter fun origin => !(s.filesAt origin).isEmpty).map (s.blockAt step) ∧
    (∀ file, file ∈ (Steps.request o step (s.inUse step)).files ↔
      (∃ id declared, .flowInput id ∈ step.inputs ∧ s.flow.findInput? id.text = some declared ∧
        declared.passthrough = false ∧ ∃ v ∈ s.inputs.get id.text, v.file = some file) ∨
      ∃ source useAs, .redirect source useAs ∈ step.inputs ∧
        ∃ v ∈ s.redirected.get source.text, v.file = some file) ∧
    (s.files.Nodup → (Steps.request o step (s.inUse step)).files.Nodup) ∧
    ((∀ v ∈ s.values, v.isUploaded) → ∀ id declared, .flowInput id ∈ step.inputs →
      s.flow.findInput? id.text = some declared → declared.passthrough = false →
      ∀ v ∈ s.inputs.get id.text, ∃ file ∈ (Steps.request o step (s.inUse step)).files,
        v.file = some file) := by
  refine ⟨rfl, Steps.question_eq _ _, Session.blocks_eq s step, fun file => Session.mem_inUse,
    fun hs => Session.nodup_inUse hs step, ?_⟩
  intro hall id declared hid hd hp v hv
  have huploaded := hall v (List.mem_append_left _ (InputBook.get_subset _ _ hv))
  obtain ⟨file, hfile⟩ := Option.isSome_iff_exists.mp huploaded
  exact ⟨file, Session.mem_inUse.mpr (.inl ⟨id, declared, hid, hd, hp, v, hv, hfile⟩), hfile⟩

namespace Sample

def draftInput : FlowInputId := ⟨draft.text, draft.wellFormed⟩

def stampInput : FlowInputId := ⟨"stamp", by decide +kernel⟩

/-- The review is asked about the drafts that were supplied, and about the opinion that the step
with the same identifier has given. -/
def briefing : Step :=
  step review [.flowInput draftInput, .flowInput stampInput, .redirect draft "opinion",
    .flowInput draftInput]

def briefed : Session :=
  { session with
    flow := { flow with inputs := [⟨draftInput, "draft", "", .text, true, true, false⟩,
      ⟨stampInput, "stamp", "", .text, true, false, true⟩] }
    inputs := ⟨[("draft", [⟨"draft", .text "one", some "file-1", 1⟩,
      ⟨"draft", .text "two", some "file-2", 2⟩]), ("stamp", [⟨"stamp", .text "x", some "file-3", 3⟩])]⟩
    redirected := ⟨[("draft", [⟨"opinion", .text "yes", some "file-4", 4⟩])]⟩ }

end Sample

/-- The second mention of the drafts adds nothing, and the stamp stays out. -/
theorem request_confined_briefing : Sample.briefed.files.Nodup ∧
    (∀ v ∈ Sample.briefed.values, v.isUploaded = true) ∧
    (Steps.request Sample.order Sample.briefing (Sample.briefed.inUse Sample.briefing)).question =
      "you will find draft in file(s) file-1, file-2\nyou will find opinion in file(s) file-4" ∧
    (Steps.request Sample.order Sample.briefing (Sample.briefed.inUse Sample.briefing)).files =
      ["file-1", "file-2", "file-4"] ∧
    (Steps.request Sample.order Sample.briefing (Sample.briefed.inUse Sample.briefing)).files.Nodup ∧
    ∀ v ∈ Sample.briefed.inputs.get "draft", ∃ file ∈
      (Steps.request Sample.order Sample.briefing (Sample.briefed.inUse Sample.briefing)).files,
      v.file = some file := by
  obtain ⟨-, -, -, -, hdistinct, hall⟩ :=
    request_confined Sample.order Sample.briefed Sample.briefing
  have hfiles : Sample.briefed.files.Nodup := by decide +kernel
  have huploaded : ∀ v ∈ Sample.briefed.values, v.isUploaded = true := by decide +kernel
  exact ⟨hfiles, huploaded, by decide +kernel, by decide +kernel, hdistinct hfiles,
    hall huploaded Sample.draftInput ⟨Sample.draftInput, "draft", "", .text, true, true, false⟩
      (by decide +kernel) (by decide +kernel) rfl⟩

end FlowEngine
