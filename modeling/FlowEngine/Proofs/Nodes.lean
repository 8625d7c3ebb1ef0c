import FlowEngine.Proofs.Rearrangement
import Mathlib.Data.List.Induction

/-! # The nodes of a session

The search that lays out the steps of a flow hands out positions as it goes. What it keeps is
`Ready` and `Named`; here is what these say of a graph that is built: which steps have nodes, what
is found by an identifier, what a node requires, and in which order the nodes have their turns.
-/
namespace FlowEngine

section Dups

variable {α : Type} [BEq α] [LawfulBEq α]

theorem eraseDups_concat (l : List α) (a : α) :
    (l ++ [a]).eraseDups = if l.contains a then l.eraseDups else l.eraseDups ++ [a] := by
  rw [List.eraseDups_append]
  by_cases ha : a ∈ l
  · simp [List.removeAll, ha]
  · simp [List.removeAll, ha, List.eraseDups_cons]

theorem nodup_eraseDups (l : List α) : l.eraseDups.Nodup := by
  induction l using List.reverseRecOn with
  | nil => exact List.nodup_nil
  | append_singleton l a ih =>
    rw [eraseDups_concat]
    split
    · exact ih
    · next ha =>
      rw [← List.concat_eq_append, List.nodup_concat]
      refine ⟨?_, ih⟩
      intro hmem
      exact ha (List.contains_iff_mem.mpr (List.mem_eraseDups.mp hmem))

end Dups

theorem Step.mentions_eq (step : Step) : step.mentions = step.sources.eraseDups := by
  rw [mentions]
  induction step.sources using List.reverseRecOn with
  | nil => rfl
  | append_singleton ids id ih =>
    have hmentioned : ids.eraseDups.contains id = ids.contains id := by
      rw [Bool.eq_iff_iff, List.contains_iff_mem, List.contains_iff_mem, List.mem_eraseDups]
    rw [List.foldl_concat, ih, mention, eraseDups_concat, hmentioned]

namespace StepGraph

variable {c : Setting} {g : StepGraph} {x : StepExecution} {i : Nat}

theorem position?_iff (hr : Ready c g.nodes) {name : String} :
    g.position? name = some i ↔ ∃ x, g.nodes[i]? = some x ∧ x.step.id.text = name := by
  rw [position?]
  constructor
  · intro h
    obtain ⟨hlt, hname, -⟩ := List.findIdx?_eq_some_iff_getElem.mp h
    exact ⟨g.nodes[i], List.getElem?_eq_getElem hlt, by simpa using hname⟩
  · rintro ⟨x, hx, rfl⟩
    cases hfind : g.nodes.findIdx? fun y => y.step.id.text == x.step.id.text with
    | none =>
      have hother := List.findIdx?_eq_none_iff.mp hfind x (List.mem_of_getElem? hx)
      simp at hother
    | some j =>
      obtain ⟨hlt, hname, -⟩ := List.findIdx?_eq_some_iff_getElem.mp hfind
      have hid : g.nodes[j].step.id = x.step.id := Identifier.ext_text (by simpa using hname)
      rw [hr.placed_unique ⟨_, List.getElem?_eq_getElem hlt, hid⟩ ⟨x, hx, rfl⟩]

theorem node?_iff {flow : Flow} {session : String}
    (hl : Laid flow session (g.nodes.map StepExecution.outline)) {name : String} :
    g.node? name = some x ↔ x ∈ g.nodes ∧ x.step.id.text = name := by
  rw [node?]
  constructor
  · intro h
    exact ⟨List.mem_of_find?_eq_some h, by simpa using List.find?_some h⟩
  · rintro ⟨hx, rfl⟩
    cases hfind : g.nodes.find? fun y => y.step.id.text == x.step.id.text with
    | none =>
      have hother := List.find?_eq_none.mp hfind x hx
      simp at hother
    | some y =>
      have hid : y.step.id = x.step.id := Identifier.ext_text (by simpa using List.find?_some hfind)
      rw [hl.node_unique (List.mem_of_find?_eq_some hfind) hx hid]

/-- A node requires the nodes of its sources, in the order of their first mention. -/
theorem required_eq (hr : Ready c g.nodes) (hn : Named g.nodes) (hx : x ∈ g.nodes) :
    x.required.map some = x.step.sources.eraseDups.map fun source => g.position? source.text := by
  have hnames : namesAt g.nodes x.required = x.step.sources.eraseDups := by
    rw [hn x hx, Step.mentions_eq]
  rw [← hnames, namesAt, List.map_map]
  have hlt := hr.required_lt hx
  generalize x.required = positions at hlt ⊢
  induction positions with
  | nil => rfl
  | cons j rest ih =>
    obtain ⟨hj, hrest⟩ := List.forall_mem_cons.mp hlt
    have hnode := List.getElem?_eq_getElem hj
    rw [List.map_cons, ih hrest, List.filterMap_cons_some hnode, List.map_cons]
    have hfound := (position?_iff hr).mpr ⟨_, hnode, rfl⟩
    rw [Function.comp_apply, hfound]

theorem inOrder_increasing (hr : Ready c g.nodes) : g.inOrder.Pairwise fun x y =>
    x.step.order < y.step.order ∨ x.step.order = y.step.order ∧ x.id < y.id := by
  have hperm := g.inOrder_perm
  have hdistinct : g.inOrder.Pairwise fun x y => x.step.id ≠ y.step.id :=
    List.pairwise_map.mp ((hperm.map _).nodup_iff.mpr hr.laid.node_ids)
  refine (g.inOrder_sorted.and hdistinct).imp_of_mem ?_
  rintro x y hx hy ⟨hle, hne⟩
  have hsession : x.session = y.session :=
    (hr.laid.node_owner (hperm.mem_iff.mp hx)).trans
      (hr.laid.node_owner (hperm.mem_iff.mp hy)).symm
  have hnot : ¬ y.le x = true := fun hge => hne (StepExecution.le_antisymm hsession hle hge)
  rw [StepExecution.le_iff] at hle hnot
  rw [UInt32.lt_iff_toNat_lt, ← UInt32.toNat_inj]
  rcases hle with hlt | ⟨heq, -⟩
  · exact .inl hlt
  · refine .inr ⟨heq, String.not_le.mp fun hid => hnot (.inr ⟨heq.symm, hid⟩)⟩

theorem build_identifiers {session : String} {flow : Flow} {now : Int}
    (h : build session flow now = .ok g) :
    (g.nodes.map fun x => x.step.id).Perm (flow.steps.map Step.id).eraseDups := by
  obtain ⟨hr, hall⟩ := build_laid h
  rw [List.perm_ext_iff_of_nodup hr.laid.node_ids (nodup_eraseDups _)]
  intro id
  rw [List.mem_eraseDups]
  constructor
  · intro hid
    obtain ⟨x, hx, rfl⟩ := List.mem_map.mp hid
    have hstep := hr.laid.declares (List.mem_map_of_mem (f := StepExecution.outline) hx)
    exact List.mem_map_of_mem hstep
  · intro hid
    obtain ⟨step, hstep, rfl⟩ := List.mem_map.mp hid
    obtain ⟨x, hx, hxid⟩ := hall step hstep
    exact List.mem_map.mpr ⟨x, hx, hxid⟩

/-- A graph that is built has one node for each identifier that is declared. The node at a position
has that position for its index, holds the first step that is declared with its identifier, is the
one that is found by it, and is fresh; it requires the nodes of its distinct sources in the order of
their first mention, each once and all of them before it. In order, each node comes once, and they
increase by declared order and then by identifier. -/
theorem build_nodes {session : String} {flow : Flow} {now : Int}
    (h : build session flow now = .ok g) :
    (g.nodes.map fun x => x.step.id).Perm (flow.steps.map Step.id).eraseDups ∧
      (∀ i (x : StepExecution), g.nodes[i]? = some x →
        x.index = i ∧ x.session = session ∧
        flow.steps.find? (fun step => step.id == x.step.id) = some x.step ∧
        x.required.map some =
          x.step.sources.eraseDups.map (fun source => g.position? source.text) ∧
        x.required.Nodup ∧ (∀ j ∈ x.required, j < i) ∧ x.record = .fresh now) ∧
      (∀ name i, g.position? name = some i ↔
        ∃ x, g.nodes[i]? = some x ∧ x.step.id.text = name) ∧
      (∀ name x, g.node? name = some x ↔ x ∈ g.nodes ∧ x.step.id.text = name) ∧
      g.inOrder.Perm g.nodes ∧ g.inOrder.Pairwise fun x y =>
        x.step.order < y.step.order ∨ x.step.order = y.step.order ∧ x.id < y.id := by
  have hr := (build_laid h).1
  refine ⟨build_identifiers h, ?_, fun _ _ => position?_iff hr, fun _ _ => node?_iff hr.laid,
    g.inOrder_perm, inOrder_increasing hr⟩
  intro i x hnode
  have hx := List.mem_of_getElem? hnode
  have hlaid := List.mem_map_of_mem (f := StepExecution.outline) hx
  have hindex := hr.laid.node_index hnode
  refine ⟨hindex, hr.laid.node_owner hx, hr.laid.declared _ hlaid, required_eq hr (build_named h) hx,
    hr.laid.once _ hlaid, ?_, hr.fresh x hx⟩
  intro j hj
  exact hindex ▸ hr.laid.earlier _ hlaid j hj

end StepGraph

namespace Sample

def sketch : StepId := ⟨"sketch", by decide +kernel⟩

def polish : StepId := ⟨"polish", by decide +kernel⟩

def publish : StepId := ⟨"publish", by decide +kernel⟩

/-- The draft has its review and is polished, and both are published; the review is taken twice. -/
def journal : Flow := { flow with
  steps := [
    step publish [.redirect review "notes", .redirect polish "text", .redirect review "verdict"],
    step review [.redirect draft "draft"],
    step polish [.redirect sketch "sketch", .redirect draft "draft"],
    step draft [],
    step sketch []] }

end Sample

/-- The draft is shared, and comes before the steps that take it. -/
theorem StepGraph.build_nodes_journal : ∃ g, build "letter-1" Sample.journal 7 = .ok g ∧
    (g.nodes.map fun x => (x.step.id.text, x.required)) =
      [("draft", []), ("review", [0]), ("sketch", []), ("polish", [2, 0]), ("publish", [1, 3])] ∧
    (∀ i (x : StepExecution), g.nodes[i]? = some x → x.index = i ∧ x.record = .fresh 7) ∧
    g.inOrder.Perm g.nodes ∧ g.inOrder.Pairwise fun x y =>
      x.step.order < y.step.order ∨ x.step.order = y.step.order ∧ x.id < y.id := by
  have hlaid : (build "letter-1" Sample.journal 7).map
      (fun g => g.nodes.map fun x => (x.step.id.text, x.required)) =
      .ok [("draft", []), ("review", [0]), ("sketch", []), ("polish", [2, 0]),
        ("publish", [1, 3])] := by
    decide +kernel
  cases hg : build "letter-1" Sample.journal 7 with
  | error fault =>
    rw [hg] at hlaid
    cases hlaid
  | ok g =>
    rw [hg] at hlaid
    obtain ⟨-, hnodes, -, -, hperm, hincreasing⟩ := build_nodes hg
    refine ⟨g, rfl, Except.ok.inj hlaid, ?_, hperm, hincreasing⟩
    intro i x hx
    obtain ⟨hindex, -, -, -, -, -, hfresh⟩ := hnodes i x hx
    exact ⟨hindex, hfresh⟩

end FlowEngine
