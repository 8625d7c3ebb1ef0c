import FlowEngine.Proofs.Books
import FlowEngine.Proofs.Cycles
import FlowEngine.Proofs.StepRuns

/-! # Sessions of rearranged flows

Two flows that differ in the order of their declarations only are laid out differently: the nodes of
a session have other positions, and so have the nodes that they require. What can be seen of a node
without its position is its face; sessions are alike if they have the same faces, in whatever order,
and agree in everything else. All that an operation reads in a session is the same in sessions that
are alike.
-/
namespace FlowEngine

/-- The flows differ in the order of their inputs and of their steps only. -/
structure Flow.Rearranged (f f' : Flow) : Prop where
  inputs : f.inputs.Perm f'.inputs
  steps : f.steps.Perm f'.steps
  rest : { f with inputs := [], steps := [] } = { f' with inputs := [], steps := [] }

theorem find?_of_perm {α : Type} {l l' : List α} {p : α → Bool} (hl : l.Perm l')
    (hp : ∀ a ∈ l, ∀ b ∈ l, p a = true → p b = true → a = b) : l.find? p = l'.find? p := by
  cases h : l.find? p with
  | none =>
    symm
    rw [List.find?_eq_none] at h ⊢
    exact fun a ha => h a (hl.mem_iff.mpr ha)
  | some a =>
    have ha := List.mem_of_find?_eq_some h
    cases h' : l'.find? p with
    | none => exact absurd (List.find?_some h) (List.find?_eq_none.mp h' a (hl.mem_iff.mp ha))
    | some b =>
      have hb := hl.mem_iff.mpr (List.mem_of_find?_eq_some h')
      rw [hp a ha b hb (List.find?_some h) (List.find?_some h')]

theorem max?_of_perm {l l' : List Int} (hl : l.Perm l') : l.max? = l'.max? := by
  cases h : l.max? with
  | none =>
    rw [List.max?_eq_none_iff] at h
    subst h
    rw [List.nil_perm.mp hl]
    rfl
  | some a =>
    obtain ⟨hmem, hmax⟩ := List.max?_eq_some_iff.mp h
    exact (List.max?_eq_some_iff.mpr
      ⟨hl.mem_iff.mp hmem, fun b hb => hmax b (hl.mem_iff.mpr hb)⟩).symm

namespace Flow

variable {f f' : Flow}

theorem validate_inputs_nodup (h : f.validate = .ok ()) : (f.inputs.map FlowInput.id).Nodup :=
  (validate_ok h).1.inputsDistinct

namespace Rearranged

theorem refl (f : Flow) : f.Rearranged f := ⟨.refl _, .refl _, rfl⟩

theorem id (h : f.Rearranged f') : f.id = f'.id :=
  (congrArg Flow.id h.rest :)

theorem version (h : f.Rearranged f') : f.version = f'.version :=
  (congrArg Flow.version h.rest :)

theorem inputLead (h : f.Rearranged f') : f.inputLead = f'.inputLead :=
  (congrArg Flow.inputLead h.rest :)

theorem ttlInMinutes (h : f.Rearranged f') : f.ttlInMinutes = f'.ttlInMinutes :=
  (congrArg Flow.ttlInMinutes h.rest :)

theorem defaultTemplateId (h : f.Rearranged f') : f.defaultTemplateId = f'.defaultTemplateId :=
  (congrArg Flow.defaultTemplateId h.rest :)

theorem findInput? (h : f.Rearranged f') (hd : (f.inputs.map FlowInput.id).Nodup) (id : String) :
    f.findInput? id = f'.findInput? id := by
  refine find?_of_perm h.inputs fun i hi j hj hid hjd => ?_
  have htext : i.id.text = j.id.text := (beq_iff_eq.mp hid).trans (beq_iff_eq.mp hjd).symm
  exact List.inj_on_of_nodup_map hd hi hj (Identifier.ext_text htext)

end Rearranged

end Flow

/-- What is seen of a node when its position does not count. -/
structure StepFace where
  session : String
  step : Step
  required : List StepId
  record : StepRecord

/-- A node with the face, at no particular position. -/
def StepFace.node (F : StepFace) : StepExecution := ⟨F.session, F.step, 0, [], F.record⟩

namespace StepGraph

def face (g : StepGraph) (x : StepExecution) : StepFace :=
  ⟨x.session, x.step, (g.requiredOf x).map fun y => y.step.id, x.record⟩

def faces (g : StepGraph) : List StepFace := g.nodes.map g.face

theorem report_of_face {g g' : StepGraph} {x x' : StepExecution} (h : g.face x = g'.face x') :
    x.report = x'.report :=
  (congrArg (fun F : StepFace => F.node.report) h :)

end StepGraph

def Session.stripped (s : Session) : Session :=
  { s with flow := Session.vacant.flow, graph := .empty }

/-- Sessions that differ in the order of declarations only. -/
structure Session.Alike (s s' : Session) : Prop where
  rest : s.stripped = s'.stripped
  flow : s.flow.Rearranged s'.flow
  inputsDistinct : (s.flow.inputs.map FlowInput.id).Nodup
  faces : s.graph.faces.Perm s'.graph.faces
  laid : s.outline.WellLaid
  laid' : s'.outline.WellLaid

namespace Session

variable {s s' : Session} {x x' y : StepExecution}

theorem mem_requiredOf (hy : y ∈ s.graph.requiredOf x) : y ∈ s.graph.nodes := by
  obtain ⟨i, -, hi⟩ := List.mem_filterMap.mp hy
  exact List.mem_of_getElem? hi

namespace Alike

section Fields

variable (h : s.Alike s')
include h

theorem id : s.id = s'.id :=
  (congrArg Session.id h.rest :)

theorem tenant : s.tenant = s'.tenant :=
  (congrArg Session.tenant h.rest :)

theorem createdAt : s.createdAt = s'.createdAt :=
  (congrArg Session.createdAt h.rest :)

theorem state : s.state = s'.state :=
  (congrArg Session.state h.rest :)

theorem inputs : s.inputs = s'.inputs :=
  (congrArg Session.inputs h.rest :)

theorem redirected : s.redirected = s'.redirected :=
  (congrArg Session.redirected h.rest :)

theorem nextSlot : s.nextSlot = s'.nextSlot :=
  (congrArg Session.nextSlot h.rest :)

theorem generation : s.generation = s'.generation :=
  (congrArg Session.generation h.rest :)

end Fields

/-! ### Nodes -/

theorem exists_face (h : s.Alike s') (hx : x ∈ s.graph.nodes) :
    ∃ x' ∈ s'.graph.nodes, s'.graph.face x' = s.graph.face x :=
  List.mem_map.mp (h.faces.mem_iff.mp (List.mem_map_of_mem hx))

theorem face_eq (h : s.Alike s') (hx : x ∈ s.graph.nodes) (hx' : x' ∈ s'.graph.nodes)
    (hid : x.step.id = x'.step.id) : s.graph.face x = s'.graph.face x' := by
  obtain ⟨y, hy, hface⟩ := h.exists_face hx
  have hstep : y.step = x.step := congrArg StepFace.step hface
  obtain rfl := h.laid'.laid.node_unique hy hx' ((congrArg Step.id hstep).trans hid)
  exact hface.symm

theorem node? (h : s.Alike s') (id : String) :
    (s.graph.node? id).map s.graph.face = (s'.graph.node? id).map s'.graph.face := by
  have hfind : s.graph.faces.find? (fun F => F.step.id.text == id) =
      s'.graph.faces.find? (fun F => F.step.id.text == id) := by
    refine find?_of_perm h.faces fun F hF G hG hFid hGid => ?_
    obtain ⟨x, hx, rfl⟩ := List.mem_map.mp hF
    obtain ⟨y, hy, rfl⟩ := List.mem_map.mp hG
    have htext : x.step.id.text = y.step.id.text :=
      (beq_iff_eq.mp hFid).trans (beq_iff_eq.mp hGid).symm
    rw [h.laid.laid.node_unique hx hy (Identifier.ext_text htext)]
  rw [StepGraph.faces, StepGraph.faces, List.find?_map, List.find?_map] at hfind
  exact hfind

theorem execution (h : s.Alike s') (id : String) :
    (∃ x ∈ s.graph.nodes, ∃ x' ∈ s'.graph.nodes, s.execution id = .ok x ∧
      s'.execution id = .ok x' ∧ s.graph.face x = s'.graph.face x') ∨
    ∃ fault, s.execution id = .error fault ∧ s'.execution id = .error fault := by
  have hnode := h.node? id
  rw [Session.execution, Session.execution]
  cases hx : s.graph.node? id with
  | none =>
    rw [hx, Option.map_none] at hnode
    rw [Option.map_eq_none_iff.mp hnode.symm, h.flow.id]
    exact .inr ⟨_, rfl, rfl⟩
  | some x =>
    rw [hx, Option.map_some] at hnode
    obtain ⟨x', hx', hface⟩ := Option.map_eq_some_iff.mp hnode.symm
    rw [hx']
    exact .inl ⟨x, List.mem_of_find?_eq_some hx, x', List.mem_of_find?_eq_some hx', rfl, rfl,
      hface.symm⟩

theorem length_nodes (h : s.Alike s') : s.graph.nodes.length = s'.graph.nodes.length := by
  have hlength := h.faces.length_eq
  rwa [StepGraph.faces, StepGraph.faces, List.length_map, List.length_map] at hlength

theorem hasRunningStep (h : s.Alike s') : s.hasRunningStep = s'.hasRunningStep := by
  have hany := h.faces.any_eq (f := fun F => F.record.isRunning)
  rw [StepGraph.faces, StepGraph.faces, List.any_map, List.any_map] at hany
  exact hany

theorem lastUpdatedAt (h : s.Alike s') : s.lastUpdatedAt = s'.lastUpdatedAt := by
  have hmax := max?_of_perm (h.faces.map fun F => F.record.lastUpdatedAt)
  rw [StepGraph.faces, StepGraph.faces, List.map_map, List.map_map] at hmax
  have hmax : (s.graph.nodes.map fun x => x.record.lastUpdatedAt).max? =
      (s'.graph.nodes.map fun x => x.record.lastUpdatedAt).max? := hmax
  rw [Session.lastUpdatedAt, Session.lastUpdatedAt, hmax, h.createdAt]

theorem isStale (h : s.Alike s') (now : Int) : s.isStale now = s'.isStale now := by
  rw [Session.isStale, Session.isStale, h.lastUpdatedAt, Flow.ttlSeconds, Flow.ttlSeconds,
    h.flow.ttlInMinutes]

end Alike

end Session

/-! ## The order of steps -/

namespace Session.Alike

variable {s s' : Session}

theorem inOrder (h : s.Alike s') :
    s.graph.inOrder.map s.graph.face = s'.graph.inOrder.map s'.graph.face := by
  have hperm := s.graph.inOrder_perm
  have hperm' := s'.graph.inOrder_perm
  let Precedes (F G : StepFace) : Prop := F.node.le G.node = true
  refine @List.Perm.eq_of_pairwise _ Precedes _ _ ?_ ?_ ?_ ?_
  · intro F G hF hG hFG hGF
    obtain ⟨x, hx, rfl⟩ := List.mem_map.mp hF
    obtain ⟨y, hy, rfl⟩ := List.mem_map.mp hG
    have hx := hperm.mem_iff.mp hx
    have hy := hperm'.mem_iff.mp hy
    have hsession : x.session = y.session :=
      (h.laid.laid.node_owner hx).trans (h.id.trans (h.laid'.laid.node_owner hy).symm)
    exact h.face_eq hx hy (StepExecution.le_antisymm hsession hFG hGF)
  · rw [List.pairwise_map]
    exact s.graph.inOrder_sorted
  · rw [List.pairwise_map]
    exact s'.graph.inOrder_sorted
  · exact ((hperm.map _).trans h.faces).trans (hperm'.map _).symm

/-! ## Values -/

end Session.Alike

def Session.held (s : Session) : InputBook × InputBook × Nat :=
  (s.inputs, s.redirected, s.nextSlot)

namespace Session.Alike

variable {s s' : Session}

theorem held (h : s.Alike s') : s.held = s'.held := by
  rw [Session.held, Session.held, h.inputs, h.redirected, h.nextSlot]

theorem flowInput (h : s.Alike s') (input : String) : s.flowInput input = s'.flowInput input := by
  rw [Session.flowInput, Session.flowInput, h.flow.findInput? h.inputsDistinct, h.flow.id]

/-- What a change of the values displaces, and the values that it leaves. -/
def outcome (r : Except EngineFault (List Input × Session)) :
    Except EngineFault (List Input × InputBook × InputBook × Nat) :=
  r.map fun p => (p.1, p.2.held)

theorem outcome_eq_or {r r' : Except EngineFault (List Input × Session)}
    (h : outcome r = outcome r') :
    (∃ fault, r = .error fault ∧ r' = .error fault) ∨
      ∃ displaced t t', r = .ok (displaced, t) ∧ r' = .ok (displaced, t') ∧ t.held = t'.held := by
  cases r with
  | error fault =>
    cases r' with
    | error fault' =>
      obtain rfl := Except.error.inj h
      exact .inl ⟨fault, rfl, rfl⟩
    | ok changed' => cases h
  | ok changed =>
    cases r' with
    | error fault' => cases h
    | ok changed' =>
      obtain ⟨displaced, t⟩ := changed
      obtain ⟨displaced', t'⟩ := changed'
      obtain ⟨rfl, hheld⟩ := Prod.mk.inj (Except.ok.inj h)
      exact .inr ⟨displaced, t, t', rfl, rfl, hheld⟩

theorem addInput (h : s.Alike s') (input : String) (value : Input) :
    outcome (s.addInput input value) = outcome (s'.addInput input value) := by
  rw [Session.addInput, Session.addInput, h.flowInput]
  cases s'.flowInput input with
  | error fault => rfl
  | ok declared =>
    simp only [bind, Except.bind, slotted, h.nextSlot]
    split <;> simp only [outcome, Except.map, Session.held, h.inputs, h.redirected]

theorem addText (h : s.Alike s') (input text : String) :
    outcome (s.addText input text) = outcome (s'.addText input text) := by
  rw [Session.addText, Session.addText, h.flowInput]
  cases s'.flowInput input with
  | error fault => rfl
  | ok declared => exact h.addInput input _

theorem replaceInput (h : s.Alike s') (input : String) (value : Input) :
    outcome (s.replaceInput input value) = outcome (s'.replaceInput input value) := by
  rw [Session.replaceInput, Session.replaceInput, h.flowInput]
  cases s'.flowInput input with
  | error fault => rfl
  | ok declared =>
    simp only [bind, Except.bind, slotted, outcome, Except.map, Session.held, h.inputs,
      h.redirected, h.nextSlot]

theorem clearInput (h : s.Alike s') (input : String) :
    outcome (s.clearInput input) = outcome (s'.clearInput input) := by
  rw [Session.clearInput, Session.clearInput, h.flowInput]
  cases s'.flowInput input with
  | error fault => rfl
  | ok declared =>
    simp only [bind, Except.bind, outcome, Except.map, Session.held, h.inputs, h.redirected,
      h.nextSlot]

theorem addAllRedirected (h : s.Alike s') (values : List (String × Input)) :
    (s.addAllRedirected values).held = (s'.addAllRedirected values).held := by
  have hheld := h.held
  clear h
  rw [Session.addAllRedirected, Session.addAllRedirected]
  induction values generalizing s s' with
  | nil => exact hheld
  | cons v rest ih =>
    refine ih ?_
    simp only [Session.held, Prod.mk.injEq] at hheld
    obtain ⟨hinputs, hredirected, hslot⟩ := hheld
    simp only [addRedirected, slotted, Session.held, hinputs, hredirected, hslot]

theorem takeUploadedRedirected (h : s.Alike s') (steps : List String) :
    (s.takeUploadedRedirected steps).1 = (s'.takeUploadedRedirected steps).1 ∧
      (s.takeUploadedRedirected steps).2.held = (s'.takeUploadedRedirected steps).2.held := by
  simp only [Session.takeUploadedRedirected, Session.held, h.redirected, h.inputs, h.nextSlot,
    and_self]

theorem pendingUploads (h : s.Alike s') : s.pendingUploads = s'.pendingUploads := by
  rw [Session.pendingUploads, Session.pendingUploads, h.inputs, h.redirected]

theorem recordFile (h : s.Alike s') (slot : Nat) (file : String) :
    (s.recordFile slot file).1 = (s'.recordFile slot file).1 ∧
      (s.recordFile slot file).2.held = (s'.recordFile slot file).2.held := by
  simp only [Session.recordFile, Session.held, h.redirected, h.inputs, h.nextSlot, and_self]

theorem allInputs (h : s.Alike s') : s.allInputs = s'.allInputs := by
  rw [Session.allInputs, Session.allInputs, h.inputs, h.redirected]

theorem inUse (h : s.Alike s') (step : Step) : s.inUse step = s'.inUse step := by
  have hblock : s.blockOf = s'.blockOf := by
    funext input
    cases input with
    | flowInput id =>
      simp only [Session.blockOf, h.flow.findInput? h.inputsDistinct, h.flow.inputLead, h.inputs]
    | redirect source useAs => simp only [Session.blockOf, h.redirected]
  rw [Session.inUse, Session.inUse, Session.blocks, Session.blocks, hblock]

theorem redirects (h : s.Alike s') (step : Step) : s.redirects step = s'.redirects step := by
  rw [Session.redirects, Session.redirects]
  congr 1
  funext input
  cases input with
  | flowInput id => rfl
  | redirect source useAs =>
    rcases h.execution source.text with ⟨x, -, x', -, hx, hx', hface⟩ | ⟨fault, hx, hx'⟩
    · have hrecord : x.record = x'.record := congrArg StepFace.record hface
      simp only [hx, hx', bind, Except.bind, hrecord]
    · simp only [hx, hx', bind, Except.bind]

end Session.Alike

/-! ## Parameters -/

namespace Session.Alike

variable {s s' : Session}

theorem outputs (h : s.Alike s') : s.outputs = s'.outputs := by
  have hsame := congrArg (List.filterMap fun F : StepFace =>
    if F.record.isDone then F.record.output.map fun o => (F.step.id.text, o) else none) h.inOrder
  rw [List.filterMap_map, List.filterMap_map] at hsame
  exact hsame

theorem parameters (h : s.Alike s') : s.parameters = s'.parameters := by
  have hpassed : s.passedThrough.Perm s'.passedThrough := by
    rw [Session.passedThrough, Session.passedThrough, h.inputs]
    exact (h.flow.inputs.filter _).filterMap _
  rw [Session.parameters, Session.parameters, List.foldl_append, List.foldl_append, h.outputs]
  refine hpassed.foldl_eq' ?_ _
  intro p hp q hq all
  by_cases hname : p.1 = q.1
  · have htext : ∀ {p : String × String}, p ∈ s.passedThrough →
        (s.inputs.get? p.1).map joinTexts = some p.2 := by
      intro p hp
      obtain ⟨i, -, hi⟩ := List.mem_filterMap.mp hp
      obtain ⟨values, hvalues, rfl⟩ := Option.map_eq_some_iff.mp hi
      rw [hvalues]
      rfl
    have hsame : p = q := by
      refine Prod.ext hname (Option.some.inj ?_)
      rw [← htext hp, ← htext hq, hname]
    rw [hsame]
  · exact Table.put_comm hname p.2 q.2 all

end Session.Alike

/-! ## Changes of sessions -/

theorem Session.alike_vacant : Session.vacant.Alike .vacant := by
  have hlaid : Session.vacant.outline.WellLaid := ⟨Laid.nil, fun _ hs => absurd hs List.not_mem_nil⟩
  exact ⟨rfl, .refl _, List.nodup_nil, .refl _, hlaid, hlaid⟩

namespace StepFace

def revise (id : StepId) (f : StepRecord → StepRecord) (F : StepFace) : StepFace :=
  { F with record := if F.step.id = id then f F.record else F.record }

theorem revise_of_eq {id : StepId} {F : StepFace} (h : F.step.id = id)
    (f : StepRecord → StepRecord) : F.revise id f = { F with record := f F.record } := by
  rw [revise, if_pos h]

theorem revise_of_ne {id : StepId} {F : StepFace} (h : F.step.id ≠ id)
    (f : StepRecord → StepRecord) : F.revise id f = F := by
  rw [revise, if_neg h]

end StepFace

namespace Session

variable {s : Session} {x y : StepExecution}

theorem face_modifyRecord (s : Session) (i : Nat) (f : StepRecord → StepRecord)
    (y : StepExecution) (record : StepRecord) :
    (s.modifyRecord i f).graph.face { y with record := record } =
      { s.graph.face y with record := record } := by
  have hrequired : ((s.modifyRecord i f).graph.requiredOf y).map (fun z => z.step.id) =
      (s.graph.requiredOf y).map fun z => z.step.id := by
    rw [StepGraph.requiredOf, StepGraph.requiredOf, List.map_filterMap, List.map_filterMap]
    refine List.filterMap_congr fun j _ => ?_
    rw [modifyRecord, StepGraph.modifyRecord, List.getElem?_modify]
    cases s.graph.nodes[j]? with
    | none => rfl
    | some z => by_cases hij : i = j <;> simp [hij]
  rw [StepGraph.face, StepGraph.face]
  congr 1

theorem faces_modifyRecord (hl : s.outline.WellLaid) {i : Nat}
    (hx : s.graph.nodes[i]? = some x) (f : StepRecord → StepRecord) :
    (s.modifyRecord i f).graph.faces = s.graph.faces.map (StepFace.revise x.step.id f) := by
  rw [StepGraph.faces, StepGraph.faces, List.map_map]
  apply List.ext_getElem?
  intro j
  rw [List.getElem?_map, List.getElem?_map, modifyRecord, StepGraph.modifyRecord,
    List.getElem?_modify]
  cases hy : s.graph.nodes[j]? with
  | none => rfl
  | some y =>
    by_cases hij : i = j
    · subst hij
      obtain rfl : x = y := Option.some.inj (hx.symm.trans hy)
      have hrevised := StepFace.revise_of_eq (F := s.graph.face x) rfl f
      simp only [Option.map_some, if_pos, Function.comp_apply]
      exact congrArg some ((face_modifyRecord s i f x (f x.record)).trans hrevised.symm)
    · have hid : y.step.id ≠ x.step.id := by
        intro hid
        have hsame := hl.laid.node_unique (List.mem_of_getElem? hy) (List.mem_of_getElem? hx) hid
        exact hij ((hl.laid.node_index hx).symm.trans (hsame ▸ hl.laid.node_index hy))
      have hrevised := StepFace.revise_of_ne (F := s.graph.face y) hid f
      simp only [Option.map_some, if_neg hij, Function.comp_apply]
      exact congrArg some ((face_modifyRecord s i f y y.record).trans hrevised.symm)

end Session

namespace Session.Alike

variable {s s' : Session}

theorem revised (h : s.Alike s') {t t' : Session} (hrest : t.stripped = t'.stripped)
    (hflow : t.flow = s.flow) (hflow' : t'.flow = s'.flow) (hgraph : t.graph = s.graph)
    (hgraph' : t'.graph = s'.graph) (hlaid : t.outline = s.outline)
    (hlaid' : t'.outline = s'.outline) : t.Alike t' := by
  refine ⟨hrest, ?_, ?_, ?_, hlaid ▸ h.laid, hlaid' ▸ h.laid'⟩
  · rw [hflow, hflow']
    exact h.flow
  · rw [hflow]
    exact h.inputsDistinct
  · rw [hgraph, hgraph']
    exact h.faces

theorem withValues (h : s.Alike s') {t t' : Session} (ht : t.held = t'.held) :
    (s.withValues t).Alike (s'.withValues t') := by
  simp only [Session.held, Prod.mk.injEq] at ht
  obtain ⟨hinputs, hredirected, hslot⟩ := ht
  have hsame : s'.withValues t' = s'.withValues t := by
    simp only [Session.withValues, hinputs, hredirected, hslot]
  rw [hsame]
  have hrest : (s.withValues t).stripped = (s'.withValues t).stripped :=
    (congrArg (fun s : Session => s.withValues t) h.rest :)
  exact h.revised hrest rfl rfl rfl rfl rfl rfl

theorem started (h : s.Alike s') : s.started.Alike s'.started := by
  have hrest : s.started.stripped = s'.started.stripped := (congrArg Session.started h.rest :)
  exact h.revised hrest rfl rfl rfl rfl rfl rfl

theorem inState (h : s.Alike s') (state : SessionState) :
    Session.Alike { s with state := state } { s' with state := state } := by
  have hrest : Session.stripped { s with state := state } =
      Session.stripped { s' with state := state } :=
    (congrArg (fun s : Session => { s with state := state }) h.rest :)
  exact h.revised hrest rfl rfl rfl rfl rfl rfl

theorem modifyRecord (h : s.Alike s') {i i' : Nat} {x x' : StepExecution}
    (hx : s.graph.nodes[i]? = some x) (hx' : s'.graph.nodes[i']? = some x')
    (hid : x.step.id = x'.step.id) (f : StepRecord → StepRecord) :
    (s.modifyRecord i f).Alike (s'.modifyRecord i' f) := by
  refine ⟨h.rest, h.flow, h.inputsDistinct, ?_, ?_, ?_⟩
  · rw [faces_modifyRecord h.laid hx, faces_modifyRecord h.laid' hx', hid]
    exact h.faces.map _
  · rw [outline_modifyRecord]
    exact h.laid
  · rw [outline_modifyRecord]
    exact h.laid'

end Session.Alike

/-! ## Layouts -/

def mention (ids : List StepId) (id : StepId) : List StepId :=
  if ids.contains id then ids else ids ++ [id]

/-- The sources of a step, in the order of their first mention. -/
def Step.mentions (step : Step) : List StepId := step.sources.foldl mention []

namespace StepGraph

def namesAt (nodes : List StepExecution) (positions : List Nat) : List StepId :=
  (positions.filterMap fun i => nodes[i]?).map fun y => y.step.id

/-- Each node requires the sources of its step, in the order of their first mention. -/
def Named (nodes : List StepExecution) : Prop :=
  ∀ x ∈ nodes, namesAt nodes x.required = x.step.mentions

variable {c : Setting} {nodes nodes' : List StepExecution} {positions : List Nat}

theorem namesAt_grow (hg : nodes <+: nodes') (hp : ∀ i ∈ positions, i < nodes.length) :
    namesAt nodes' positions = namesAt nodes positions := by
  obtain ⟨added, rfl⟩ := hg
  rw [namesAt, namesAt]
  congr 1
  refine List.filterMap_congr fun i hi => ?_
  rw [List.getElem?_append_left (hp i hi)]

theorem mem_namesAt {id : StepId} :
    id ∈ namesAt nodes positions ↔ ∃ i ∈ positions, Placed nodes id i := by
  rw [namesAt, List.mem_map]
  constructor
  · rintro ⟨y, hy, rfl⟩
    obtain ⟨i, hi, hnode⟩ := List.mem_filterMap.mp hy
    exact ⟨i, hi, y, hnode, rfl⟩
  · rintro ⟨i, hi, y, hnode, rfl⟩
    exact ⟨y, List.mem_filterMap.mpr ⟨i, hi, hnode⟩, rfl⟩

theorem Ready.placed_unique (hr : Ready c nodes) {id : StepId} {i j : Nat}
    (hi : Placed nodes id i) (hj : Placed nodes id j) : i = j := by
  obtain ⟨x, hx, hid⟩ := hi.outline
  obtain ⟨y, hy, hid'⟩ := hj.outline
  exact hr.laid.unique hx hy (hid.trans hid'.symm)

theorem Ready.required_lt (hr : Ready c nodes) {x : StepExecution} (hx : x ∈ nodes) :
    ∀ i ∈ x.required, i < nodes.length := by
  intro i hi
  obtain ⟨y, hy, -⟩ := hr.laid.required x.outline (List.mem_map_of_mem hx) i hi
  have hlt := (List.getElem?_eq_some_iff.mp hy).1
  rwa [List.length_map] at hlt

theorem namesAt_addNew (hr : Ready c nodes) {id : StepId} {i : Nat} (hi : Placed nodes id i) :
    namesAt nodes (addNew i positions) = mention (namesAt nodes positions) id := by
  rw [addNew, mention]
  by_cases hmem : i ∈ positions
  · rw [if_pos hmem, if_pos (List.contains_iff_mem.mpr (mem_namesAt.mpr ⟨i, hmem, hi⟩))]
  · rw [if_neg hmem, if_neg]
    · obtain ⟨x, hx, rfl⟩ := hi
      simp [namesAt, List.filterMap_append, hx]
    · intro hid
      obtain ⟨j, hj, hplaced⟩ := mem_namesAt.mp (List.contains_iff_mem.mp hid)
      exact hmem (hr.placed_unique hi hplaced ▸ hj)

theorem Named.grow (hr : Ready c nodes) (hn : Named nodes) (hg : nodes <+: nodes')
    {x : StepExecution} (hx : x ∈ nodes) : namesAt nodes' x.required = x.step.mentions :=
  (namesAt_grow hg (hr.required_lt hx)).trans (hn x hx)

theorem foldlM_addPlace_named {path : List StepId}
    {place : StepId → List StepExecution → Except EngineFault (Nat × List StepExecution)}
    (hp : Lays c path place)
    (hn : ∀ {id nodes i nodes'}, Ready c nodes → Named nodes → place id nodes = .ok (i, nodes') →
      Named nodes')
    (ids : List StepId) {layout layout' : Layout} (hr : Ready c layout.2) (hnamed : Named layout.2)
    (hlt : ∀ i ∈ layout.1, i < layout.2.length)
    (h : ids.foldlM (addPlace place) layout = .ok layout') :
    Named layout'.2 ∧
      namesAt layout'.2 layout'.1 = ids.foldl mention (namesAt layout.2 layout.1) := by
  induction ids generalizing layout with
  | nil =>
    cases h
    exact ⟨hnamed, rfl⟩
  | cons id rest ih =>
    rw [List.foldlM_cons] at h
    obtain ⟨positions, nodes⟩ := layout
    cases hplace : place id nodes with
    | error fault => simp [addPlace, hplace, bind, Except.bind] at h
    | ok found =>
      obtain ⟨i, grown⟩ := found
      obtain ⟨hext, hi⟩ := hp id nodes i grown hr hplace
      have h' : rest.foldlM (addPlace place) (addNew i positions, grown) = .ok layout' := by
        simpa [addPlace, hplace, bind, Except.bind] using h
      have hlt' : ∀ j ∈ addNew i positions, j < grown.length := by
        intro j hj
        rcases mem_addNew.mp hj with hj | rfl
        · exact Nat.lt_of_lt_of_le (hlt j hj) hext.grown.length_le
        · obtain ⟨x, hx, -⟩ := hi
          exact (List.getElem?_eq_some_iff.mp hx).1
      obtain ⟨hnamed', hnames⟩ := ih hext.ready (hn hr hnamed hplace) hlt' h'
      refine ⟨hnamed', ?_⟩
      rw [hnames, namesAt_addNew hext.ready hi, namesAt_grow hext.grown hlt]
      rfl

theorem place_named (depth : Nat) (path : List StepId) {id : StepId} {i : Nat}
    {nodes nodes' : List StepExecution} (hr : Ready c nodes) (hn : Named nodes)
    (h : place c depth path id nodes = .ok (i, nodes')) : Named nodes' := by
  induction depth generalizing path id i nodes nodes' with
  | zero =>
    rw [place_eq] at h
    split at h
    · cases h
      exact hn
    · split at h
      · cases h
      · split at h <;> cases h
  | succ depth ih =>
    rw [place_eq] at h
    split at h
    · cases h
      exact hn
    · split at h
      · cases h
      · split at h
        · cases h
        · next step hstep =>
          cases hfold : step.sources.foldlM (addPlace (place c depth (id :: path))) ([], nodes) with
          | error fault => simp [hfold, bind, Except.bind] at h
          | ok layout =>
            obtain ⟨hext, -, -, -, honly⟩ :=
              foldlM_addPlace (place_lays depth (id :: path)) step.sources hr hfold
            obtain ⟨hnamed, hnames⟩ := foldlM_addPlace_named (place_lays depth (id :: path))
              (ih (id :: path)) step.sources hr hn (by simp) hfold
            simp only [hfold, bind, Except.bind, Except.ok.injEq, Prod.mk.injEq] at h
            obtain ⟨rfl, rfl⟩ := h
            have hgrown := List.prefix_append layout.2
              [⟨c.session, step, layout.2.length, layout.1, StepRecord.fresh c.now⟩]
            intro x hx
            rcases List.mem_append.mp hx with hx | hx
            · exact hnamed.grow hext.ready hgrown hx
            · rw [List.mem_singleton.mp hx]
              have hlt : ∀ j ∈ layout.1, j < layout.2.length := by
                intro j hj
                obtain ⟨source, -, y, hy, -⟩ := (honly j hj).resolve_left List.not_mem_nil
                exact (List.getElem?_eq_some_iff.mp hy).1
              exact (namesAt_grow hgrown hlt).trans hnames

theorem build_named {session : String} {flow : Flow} {now : Int} {g : StepGraph}
    (h : build session flow now = .ok g) : Named g.nodes := by
  rw [build] at h
  cases hfold : (flow.steps.map Step.id).foldlM
      (addPlace (place ⟨session, flow, now⟩ flow.steps.length [])) ([], []) with
  | error fault => simp [hfold, bind, Except.bind] at h
  | ok layout =>
    simp only [hfold, bind, Except.bind, Except.ok.injEq] at h
    subst h
    exact (foldlM_addPlace_named (place_lays flow.steps.length [])
      (place_named flow.steps.length []) _ ⟨Laid.nil, by simp⟩ (by simp [Named]) (by simp)
      hfold).1

theorem build_steps {session : String} {flow : Flow} {now : Int} {g : StepGraph}
    (hd : (flow.steps.map Step.id).Nodup) (h : build session flow now = .ok g) :
    (g.nodes.map StepExecution.step).Perm flow.steps := by
  obtain ⟨⟨hl, -⟩, hall⟩ := build_laid h
  have hnodup : (g.nodes.map StepExecution.step).Nodup := by
    have hids : ((g.nodes.map StepExecution.step).map Step.id).Nodup := by
      rw [List.map_map]
      exact hl.node_ids
    exact hids.of_map
  rw [List.perm_ext_iff_of_nodup hnodup hd.of_map]
  intro step
  constructor
  · intro hstep
    obtain ⟨x, hx, rfl⟩ := List.mem_map.mp hstep
    exact hl.declares (List.mem_map_of_mem (f := StepExecution.outline) hx)
  · intro hstep
    obtain ⟨x, hx, hid⟩ := hall step hstep
    exact List.mem_map.mpr ⟨x, hx, hl.step_eq hd (List.mem_map_of_mem hx) hstep hid⟩

theorem build_faces {session : String} {flow : Flow} {now : Int} {g : StepGraph}
    (h : build session flow now = .ok g) : g.faces = (g.nodes.map StepExecution.step).map
      fun step => ⟨session, step, step.mentions, .fresh now⟩ := by
  obtain ⟨⟨hlaid, hfresh⟩, -⟩ := build_laid h
  rw [faces, List.map_map]
  refine List.map_congr_left fun x hx => ?_
  have howner : x.session = session := hlaid.node_owner hx
  have hnames : (g.requiredOf x).map (fun y => y.step.id) = x.step.mentions :=
    build_named h x hx
  rw [face, howner, hnames, hfresh x hx]
  rfl

end StepGraph

/-- Sessions that are made of rearranged flows are alike. -/
theorem Session.alike_of_new {f f' : Flow} (hf : f.Rearranged f') (hv : f.validate = .ok ())
    (hv' : f'.validate = .ok ()) {id tenant : String} {now : Int} {s s' : Session}
    (h : Session.new id tenant f now = .ok s) (h' : Session.new id tenant f' now = .ok s') :
    s.Alike s' := by
  have hlaid := Session.new_wellLaid h
  have hlaid' := Session.new_wellLaid h'
  obtain ⟨g, hg, rfl⟩ := Session.new_eq h
  obtain ⟨g', hg', rfl⟩ := Session.new_eq h'
  have hsteps : (g.nodes.map StepExecution.step).Perm (g'.nodes.map StepExecution.step) :=
    ((StepGraph.build_steps (Flow.validate_nodup hv) hg).trans hf.steps).trans
      (StepGraph.build_steps (Flow.validate_nodup hv') hg').symm
  refine ⟨rfl, hf, Flow.validate_inputs_nodup hv, ?_, hlaid, hlaid'⟩
  have hfaces := hsteps.map fun step : Step =>
    (⟨id, step, step.mentions, .fresh now⟩ : StepFace)
  rw [← StepGraph.build_faces hg, ← StepGraph.build_faces hg'] at hfaces
  exact hfaces

end FlowEngine
