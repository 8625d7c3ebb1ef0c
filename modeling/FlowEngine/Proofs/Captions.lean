import FlowEngine.Proofs.Lineage
import FlowEngine.Proofs.Mentions

/-! # The lines that describe what is handed on

When a step has been made ready, each redirect of it has a file of its own, uploaded under the name
by which the step uses it. The lines of the description are by source: a source that is redirected
more than once has one line, under the name of its first redirect, with the files of all of them.
-/
namespace FlowEngine

section HandedOn

variable {answers : List Moment → (c : ProviderCall) → c.Outcome → Prop} {tenant : String}
  {h : Handle} {s' : Situation} {step : Step} {source : StepId}

theorem Step.mem_sources :
    source ∈ step.sources ↔ ∃ useAs, .redirect source useAs ∈ step.inputs := by
  rw [sources, List.mem_filterMap]
  constructor
  · rintro ⟨input, hinput, hsource⟩
    cases input with
    | flowInput id => cases hsource
    | redirect other useAs => exact ⟨useAs, Option.some.inj hsource ▸ hinput⟩
  · rintro ⟨useAs, h⟩
    exact ⟨_, h, rfl⟩

theorem Step.uses_ne_nil (hs : source ∈ step.sources) : step.uses source ≠ [] := by
  obtain ⟨useAs, huse⟩ := Step.mem_sources.mp hs
  exact List.ne_nil_of_mem (Step.mem_uses.mpr huse)

theorem files_of_contents {past : List Moment} {payload : Payload} {names : List String}
    {values : List Input}
    (hc : values.map Input.content = names.map fun name => (name, payload))
    (hu : ∀ v ∈ values, ∃ file ∈ uploads past, v.stored? = some file) :
    List.Forall₂ (fun name file => (⟨file, name, payload⟩ : StoredFile) ∈ uploads past) names
      (values.filterMap Input.file) := by
  induction names generalizing values with
  | nil =>
    rw [List.map_nil, List.map_eq_nil_iff] at hc
    rw [hc]
    exact .nil
  | cons name rest ih =>
    rw [List.map_cons, List.map_eq_cons_iff] at hc
    obtain ⟨v, others, rfl, hname, hothers⟩ := hc
    obtain ⟨⟨stored, hstored, hv⟩, hrest⟩ := List.forall_mem_cons.mp hu
    obtain ⟨file, hfile, rfl⟩ := Option.map_eq_some_iff.mp hv
    obtain ⟨rfl, rfl⟩ := Prod.mk.inj hname
    rw [List.filterMap_cons_some hfile]
    exact .cons hstored (ih hothers hrest)

theorem Ready.files {before : Session} {s : Situation} (hr : Ready before step h s)
    (hs : source ∈ step.sources) (hleft : before.leftover source = []) :
    ∃ output, before.output? source = some output ∧
      List.Forall₂ (fun useAs file => (⟨file, useAs, .text output⟩ : StoredFile) ∈ uploads s.own)
        (step.uses source) ((s.engine.session h).filesAt (.handedOn source)) := by
  obtain ⟨output, houtput, hcontent⟩ := hr.handed source hs
  rw [hleft, List.map_nil, List.nil_append] at hcontent
  exact ⟨output, houtput, files_of_contents hcontent (hr.uploaded source hs)⟩

theorem Session.block_of_source {s : Session} {first : String} {rest : List String}
    (huses : step.uses source = first :: rest) (hfiles : s.filesAt (.handedOn source) ≠ []) :
    s.blockAt step (.handedOn source) = ⟨first, s.filesAt (.handedOn source)⟩ ∧
      s.blockAt step (.handedOn source) ∈ s.blocks step := by
  constructor
  · rw [blockAt, nameAt, huses]
    rfl
  · have huse : first ∈ step.uses source := huses ▸ List.mem_cons_self
    rw [blocks_eq]
    refine List.mem_map_of_mem (List.mem_filter.mpr ⟨?_, by simpa using hfiles⟩)
    exact Step.handedOn_mem_origins.mpr ⟨first, Step.mem_uses.mp huse⟩

/-- When a step has been made ready and nothing was left over of what its sources handed on, the
description has one line for each origin that has files. The line of a source bears the name of its
first redirect, and lists the files that were uploaded for all redirects of the source, each under
the name of its own redirect. So each redirect of a source is described by a line of its own, with
its own name and its own file, if and only if the source is redirected once. -/
theorem lines_by_source {f : Facilities} {m : Machine} (hm : m.Attended f)
    (hlt : h < m.story.engine.sessions.length) {inUse : InUse}
    (hleft : ∀ source ∈ step.sources, (m.story.engine.session h).leftover source = [])
    (hx : Execution (.solitary answers)
      ((Inputs.prepare tenant h step).run, m.story.enter) (.done (.ok inUse), s')) :
    inUse.description = "\n".intercalate
      (((s'.engine.session h).blocks step).map fun b => describeInput b.name b.files) ∧
    (s'.engine.session h).blocks step =
      (step.origins.filter fun o => !((s'.engine.session h).filesAt o).isEmpty).map
        ((s'.engine.session h).blockAt step) ∧
    ∀ source ∈ step.sources, ∃ output first rest files,
      (m.story.engine.session h).output? source = some output ∧
      step.uses source = first :: rest ∧
      List.Forall₂ (fun useAs file => (⟨file, useAs, .text output⟩ : StoredFile) ∈ uploads s'.own)
        (step.uses source) files ∧
      (s'.engine.session h).blockAt step (.handedOn source) = ⟨first, files⟩ ∧
      ⟨first, files⟩ ∈ (s'.engine.session h).blocks step ∧
      ((∀ useAs ∈ step.uses source, ∃ file,
          (s'.engine.session h).blockAt step (.handedOn source) = ⟨useAs, [file]⟩ ∧
          (⟨file, useAs, .text output⟩ : StoredFile) ∈ uploads s'.own) ↔
        (step.uses source).length = 1) := by
  obtain ⟨rfl, hready⟩ := (execution_ends hx trivial
    (Inputs.prepare_readies (s := m.story.enter) hm.chronicled.now hlt)).2
  refine ⟨rfl, Session.blocks_eq _ _, fun source hsource => ?_⟩
  obtain ⟨output, houtput, hfiles⟩ := hready.files hsource (hleft source hsource)
  obtain ⟨first, rest, huses⟩ := List.exists_cons_of_ne_nil (Step.uses_ne_nil hsource)
  have hlength := hfiles.length_eq
  have hsome : (s'.engine.session h).filesAt (.handedOn source) ≠ [] := by
    intro hnone
    rw [hnone, huses] at hlength
    cases hlength
  obtain ⟨hblock, hmem⟩ := Session.block_of_source huses hsome
  refine ⟨output, first, rest, _, houtput, huses, hfiles, hblock, hblock ▸ hmem, ?_, ?_⟩
  · intro hown
    obtain ⟨file, hone, -⟩ := hown first (huses ▸ List.mem_cons_self)
    have hlist : (s'.engine.session h).filesAt (.handedOn source) = [file] :=
      congrArg InputBlock.files hone
    rw [hlength, hlist]
    rfl
  · intro hone useAs huse
    rw [huses, List.length_cons, Nat.add_eq_right, List.length_eq_zero_iff] at hone
    rw [huses, hone] at huse hfiles
    obtain rfl := List.mem_singleton.mp huse
    obtain ⟨file, others, hfile, hnone, hlist⟩ := List.forall₂_cons_left_iff.mp hfiles
    rw [List.forall₂_nil_left_iff.mp hnone] at hlist
    exact ⟨file, by rw [hblock, hlist], hfile⟩

end HandedOn

namespace Sample

/-- A provider whose polisher is down. -/
def halting (past : List Moment) : (c : ProviderCall) → c.Outcome
  | .runService tenant request =>
    if request.target = polish.text then .error (.unavailable "down")
    else filing past (.runService tenant request)
  | c => filing past c

/-- The draft is published as the notes and as the verdict. -/
def publishing : Step := step publish [.redirect draft "notes", .redirect draft "verdict"]

def digest : Flow := { flow with steps := [publishing, reviewing, step polish [], step draft []] }

/-- The run has stopped after the draft was written, and nothing has been handed on. -/
def drafted : Machine :=
  (Machine.serve facilities halting create 0 ⟨.opening [digest] false, []⟩).serve facilities halting
    (.run "acme" "session-0-00000000") 9

theorem attended_drafted : drafted.Attended facilities := by
  have hanswer : ∀ past c, Regime.lax.answers past c (halting past c) := fun _ _ => trivial
  have hopening : Machine.Under .lax facilities ⟨.opening [digest] false, []⟩ := .opening _ _
  have hcreated := hopening.served hanswer (q := create) trivial 0
  exact (hcreated.served hanswer trivial 9).reachable.attended

/-- A step is made ready after the draft has been written. -/
def madeReady (step : Step) : Point (Except EngineFault InUse) :=
  (Inputs.prepare "acme" 0 step).run.ahead filing 9 drafted.story.enter

end Sample

theorem lines_by_source_review : Sample.drafted.Attended Sample.facilities ∧
    ∃ inUse s', Execution (.solitary Conduct.anyAnswer)
      ((Inputs.prepare "acme" 0 Sample.reviewing).run, Sample.drafted.story.enter)
      (.done (.ok inUse), s') ∧
    inUse.description = "you will find draft in file(s) file-1" ∧
    (s'.engine.session 0).blockAt Sample.reviewing (.handedOn Sample.draft) =
      ⟨"draft", ["file-1"]⟩ ∧
    (⟨"file-1", "draft", .text "yes"⟩ : StoredFile) ∈ uploads s'.own := by
  have hvalue : (Sample.madeReady Sample.reviewing).1.value? =
      some (.ok ⟨["file-1"], "you will find draft in file(s) file-1"⟩) := by decide +kernel
  have hx := Proc.ahead_ends hvalue
  have hleft : ∀ source ∈ Sample.reviewing.sources,
      (Sample.drafted.story.engine.session 0).leftover source = [] := by decide +kernel
  obtain ⟨-, -, hlines⟩ :=
    lines_by_source Sample.attended_drafted (by decide +kernel) hleft hx
  obtain ⟨output, -, -, -, houtput, -, -, -, -, hown⟩ := hlines Sample.draft (by decide +kernel)
  obtain ⟨file, hblock, hstored⟩ := hown.mpr rfl "draft" (by decide +kernel)
  have hyes : (Sample.drafted.story.engine.session 0).output? Sample.draft = some "yes" := by
    decide +kernel
  cases houtput.symm.trans hyes
  have hfirst : ((Sample.madeReady Sample.reviewing).2.engine.session 0).blockAt Sample.reviewing
      (.handedOn Sample.draft) = ⟨"draft", ["file-1"]⟩ := by decide +kernel
  have hfile : [file] = ["file-1"] := congrArg InputBlock.files (hblock.symm.trans hfirst)
  obtain rfl := (List.cons.inj hfile).1
  exact ⟨Sample.attended_drafted, _, _, hx, rfl, hblock, hstored⟩

/-- The draft is described as the notes with both files, and nothing is described as the verdict. -/
theorem verdict_not_described : Sample.digest.validate = .ok () ∧
    Sample.publishing ∈ Sample.digest.steps ∧ Sample.drafted.Attended Sample.facilities ∧
    (Sample.drafted.story.engine.session 0).flow = Sample.digest ∧
    (Sample.drafted.story.engine.session 0).redirected.entries = [] ∧
    ∃ inUse s', Execution (.solitary Conduct.anyAnswer)
      ((Inputs.prepare "acme" 0 Sample.publishing).run, Sample.drafted.story.enter)
      (.done (.ok inUse), s') ∧
    uploads s'.own = [⟨"file-2", "verdict", .text "yes"⟩, ⟨"file-1", "notes", .text "yes"⟩] ∧
    inUse.description = "you will find notes in file(s) file-1, file-2" ∧
    ∀ b ∈ (s'.engine.session 0).blocks Sample.publishing, b.name ≠ "verdict" := by
  have hvalue : (Sample.madeReady Sample.publishing).1.value? =
      some (.ok ⟨["file-1", "file-2"], "you will find notes in file(s) file-1, file-2"⟩) := by
    decide +kernel
  exact ⟨by decide +kernel, by decide +kernel, Sample.attended_drafted, by decide +kernel,
    by decide +kernel, _, _, Proc.ahead_ends hvalue, by decide +kernel, rfl, by decide +kernel⟩

end FlowEngine
