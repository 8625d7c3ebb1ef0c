import FlowEngine.Proofs.Outline
import Mathlib.Data.List.Nodup

/-! # How the steps of a session are laid out

A node comes after the nodes that it requires, and these are the nodes of its sources. The search
that lays out the steps keeps this from node to node; a step on the path of the search gets its
node last, which is why no step gets two.
-/
namespace FlowEngine

/-- Steps laid out for a flow and a session. -/
structure Laid (flow : Flow) (session : String) (steps : List StepOutline) : Prop where
  position : ∀ i (x : StepOutline), steps[i]? = some x → x.index = i
  owner : ∀ x ∈ steps, x.session = session
  declared : ∀ x ∈ steps, flow.steps.find? (fun s => s.id == x.step.id) = some x.step
  distinct : (steps.map fun x => x.step.id).Nodup
  once : ∀ x ∈ steps, x.required.Nodup
  earlier : ∀ x ∈ steps, ∀ j ∈ x.required, j < x.index
  required : ∀ x ∈ steps, ∀ j ∈ x.required,
    ∃ y : StepOutline, steps[j]? = some y ∧ y.step.id ∈ x.step.sources
  supplied : ∀ x ∈ steps, ∀ source ∈ x.step.sources,
    ∃ j ∈ x.required, ∃ y : StepOutline, steps[j]? = some y ∧ y.step.id = source

namespace Laid

variable {flow : Flow} {session : String} {steps : List StepOutline}

theorem nil : Laid flow session [] := by
  constructor <;> simp

theorem unique (hl : Laid flow session steps) {i j : Nat} {x y : StepOutline}
    (hx : steps[i]? = some x) (hy : steps[j]? = some y) (he : x.step.id = y.step.id) : i = j := by
  have hi := (List.getElem?_eq_some_iff.mp hx).1
  refine (List.getElem?_inj (by simpa using hi) hl.distinct).mp ?_
  rw [List.getElem?_map, List.getElem?_map, hx, hy, Option.map_some, Option.map_some, he]

theorem declares (hl : Laid flow session steps) {x : StepOutline} (hx : x ∈ steps) :
    x.step ∈ flow.steps :=
  List.mem_of_find?_eq_some (hl.declared x hx)

theorem step_eq (hl : Laid flow session steps) (hd : (flow.steps.map Step.id).Nodup)
    {x : StepOutline} (hx : x ∈ steps) {s : Step} (hs : s ∈ flow.steps) (hid : x.step.id = s.id) :
    x.step = s :=
  List.inj_on_of_nodup_map hd (hl.declares hx) hs hid

section Nodes

variable {nodes : List StepExecution} {x y : StepExecution}
  (hl : Laid flow session (nodes.map StepExecution.outline))
include hl

theorem node_ids : (nodes.map fun x => x.step.id).Nodup := by
  have h := hl.distinct
  rw [List.map_map] at h
  exact h

theorem node_unique (hx : x ∈ nodes) (hy : y ∈ nodes) (hid : x.step.id = y.step.id) : x = y :=
  List.inj_on_of_nodup_map hl.node_ids hx hy hid

theorem node_owner (hx : x ∈ nodes) : x.session = session :=
  hl.owner x.outline (List.mem_map_of_mem hx)

theorem node_index {i : Nat} (hx : nodes[i]? = some x) : x.index = i := by
  refine hl.position i x.outline ?_
  rw [List.getElem?_map, hx]
  rfl

theorem node_at (hx : x ∈ nodes) : nodes[x.index]? = some x := by
  obtain ⟨i, hi⟩ := List.getElem?_of_mem hx
  rw [hl.node_index hi, hi]

end Nodes

theorem append (hl : Laid flow session steps) {step : Step} {required : List Nat}
    (hd : flow.steps.find? (fun s => s.id == step.id) = some step)
    (hnew : ∀ x ∈ steps, x.step.id ≠ step.id) (hr : required.Nodup)
    (hreq : ∀ j ∈ required, ∃ y : StepOutline, steps[j]? = some y ∧ y.step.id ∈ step.sources)
    (hsup : ∀ source ∈ step.sources,
      ∃ j ∈ required, ∃ y : StepOutline, steps[j]? = some y ∧ y.step.id = source) :
    Laid flow session (steps ++ [⟨session, step, steps.length, required⟩]) := by
  have keep : ∀ {j : Nat} {y : StepOutline}, steps[j]? = some y →
      (steps ++ [⟨session, step, steps.length, required⟩])[j]? = some y := by
    intro j y hy
    rw [List.getElem?_append_left (List.getElem?_eq_some_iff.mp hy).1]
    exact hy
  constructor
  · intro i x hx
    rcases Nat.lt_trichotomy i steps.length with hlt | rfl | hgt
    · rw [List.getElem?_append_left hlt] at hx
      exact hl.position i x hx
    · simp only [List.getElem?_concat_length, Option.some.injEq] at hx
      rw [← hx]
    · rw [List.getElem?_eq_none (by simp; omega)] at hx
      cases hx
  · exact List.forall_mem_append.mpr ⟨hl.owner, List.forall_mem_singleton.mpr rfl⟩
  · exact List.forall_mem_append.mpr ⟨hl.declared, List.forall_mem_singleton.mpr hd⟩
  · rw [List.map_append, List.map_singleton, ← List.concat_eq_append, List.nodup_concat]
    refine ⟨?_, hl.distinct⟩
    intro hm
    obtain ⟨x, hx, he⟩ := List.mem_map.mp hm
    exact hnew x hx he
  · exact List.forall_mem_append.mpr ⟨hl.once, List.forall_mem_singleton.mpr hr⟩
  · refine List.forall_mem_append.mpr ⟨hl.earlier, List.forall_mem_singleton.mpr ?_⟩
    intro j hj
    obtain ⟨y, hy, -⟩ := hreq j hj
    exact (List.getElem?_eq_some_iff.mp hy).1
  · refine List.forall_mem_append.mpr ⟨?_, List.forall_mem_singleton.mpr ?_⟩
    · intro x hx j hj
      obtain ⟨y, hy, hs⟩ := hl.required x hx j hj
      exact ⟨y, keep hy, hs⟩
    · intro j hj
      obtain ⟨y, hy, hs⟩ := hreq j hj
      exact ⟨y, keep hy, hs⟩
  · refine List.forall_mem_append.mpr ⟨?_, List.forall_mem_singleton.mpr ?_⟩
    · intro x hx source hs
      obtain ⟨j, hj, y, hy, he⟩ := hl.supplied x hx source hs
      exact ⟨j, hj, y, keep hy, he⟩
    · intro source hs
      obtain ⟨j, hj, y, hy, he⟩ := hsup source hs
      exact ⟨j, hj, y, keep hy, he⟩

end Laid

namespace StepGraph

variable {c : Setting}

/-- Nodes laid out for a setting, all of them fresh. -/
structure Ready (c : Setting) (nodes : List StepExecution) : Prop where
  laid : Laid c.flow c.session (nodes.map StepExecution.outline)
  fresh : ∀ x ∈ nodes, x.record = .fresh c.now

/-- What visiting steps with the given path does to the nodes. -/
structure Extends (c : Setting) (path : List StepId) (nodes nodes' : List StepExecution) :
    Prop where
  grown : nodes <+: nodes'
  ready : Ready c nodes'
  off_path : ∀ x ∈ nodes', x.step.id ∈ path → x ∈ nodes

theorem Extends.trans {path : List StepId} {a b d : List StepExecution}
    (h : Extends c path a b) (h' : Extends c path b d) : Extends c path a d :=
  ⟨h.grown.trans h'.grown, h'.ready, fun x hx hp => h.off_path x (h'.off_path x hx hp) hp⟩

def Placed (nodes : List StepExecution) (id : StepId) (i : Nat) : Prop :=
  ∃ x : StepExecution, nodes[i]? = some x ∧ x.step.id = id

theorem Placed.grow {nodes nodes' : List StepExecution} {id : StepId} {i : Nat}
    (h : Placed nodes id i) (hg : nodes <+: nodes') : Placed nodes' id i := by
  obtain ⟨x, hx, he⟩ := h
  obtain ⟨added, rfl⟩ := hg
  exact ⟨x, by rw [List.getElem?_append_left (List.getElem?_eq_some_iff.mp hx).1]; exact hx, he⟩

theorem mem_addNew {i j : Nat} {positions : List Nat} :
    j ∈ addNew i positions ↔ j ∈ positions ∨ j = i := by
  rw [addNew]
  split
  · next h => exact ⟨.inl, fun hj => hj.elim id fun he => he ▸ h⟩
  · simp

theorem nodup_addNew {i : Nat} {positions : List Nat} (h : positions.Nodup) :
    (addNew i positions).Nodup := by
  rw [addNew]
  split
  · exact h
  · next hi => simpa [← List.concat_eq_append, List.nodup_concat] using ⟨hi, h⟩

def Lays (c : Setting) (path : List StepId)
    (place : StepId → List StepExecution → Except EngineFault (Nat × List StepExecution)) : Prop :=
  ∀ id nodes i nodes', Ready c nodes → place id nodes = .ok (i, nodes') →
    Extends c path nodes nodes' ∧ Placed nodes' id i

theorem foldlM_addPlace {path : List StepId}
    {place : StepId → List StepExecution → Except EngineFault (Nat × List StepExecution)}
    (hp : Lays c path place) (ids : List StepId) {layout layout' : Layout}
    (hr : Ready c layout.2) (h : ids.foldlM (addPlace place) layout = .ok layout') :
    Extends c path layout.2 layout'.2 ∧ (layout.1.Nodup → layout'.1.Nodup) ∧
      (∀ j ∈ layout.1, j ∈ layout'.1) ∧
      (∀ id ∈ ids, ∃ j ∈ layout'.1, Placed layout'.2 id j) ∧
      (∀ j ∈ layout'.1, j ∈ layout.1 ∨ ∃ id ∈ ids, Placed layout'.2 id j) := by
  induction ids generalizing layout with
  | nil =>
    cases h
    exact ⟨⟨List.prefix_refl _, hr, fun _ hx _ => hx⟩, id, fun _ => id, by simp, fun _ => .inl⟩
  | cons id rest ih =>
    rw [List.foldlM_cons] at h
    obtain ⟨positions, nodes⟩ := layout
    cases hplace : place id nodes with
    | error fault => simp [addPlace, hplace, bind, Except.bind] at h
    | ok found =>
      obtain ⟨i, grown⟩ := found
      obtain ⟨hext, hi⟩ := hp id nodes i grown hr hplace
      have h' : rest.foldlM (addPlace place) (addNew i positions, grown) = .ok layout' := by
        simpa [addPlace, hplace, bind, Except.bind] using h
      obtain ⟨hrest, hnodup, hkeep, hall, honly⟩ := ih hext.ready h'
      have hi' : Placed layout'.2 id i := hi.grow hrest.grown
      refine ⟨hext.trans hrest, fun hn => hnodup (nodup_addNew hn),
        fun j hj => hkeep j (mem_addNew.mpr (.inl hj)), ?_, ?_⟩
      · intro other ho
        rcases List.mem_cons.mp ho with rfl | ho
        · exact ⟨i, hkeep i (mem_addNew.mpr (.inr rfl)), hi'⟩
        · exact hall other ho
      · intro j hj
        rcases honly j hj with hj | ⟨other, ho, hpl⟩
        · rcases mem_addNew.mp hj with hj | rfl
          · exact .inl hj
          · exact .inr ⟨id, List.mem_cons_self, hi'⟩
        · exact .inr ⟨other, List.mem_cons_of_mem _ ho, hpl⟩

theorem Placed.outline {nodes : List StepExecution} {id : StepId} {i : Nat}
    (h : Placed nodes id i) :
    ∃ y : StepOutline, (nodes.map StepExecution.outline)[i]? = some y ∧ y.step.id = id := by
  obtain ⟨x, hx, he⟩ := h
  exact ⟨x.outline, by rw [List.getElem?_map, hx]; rfl, he⟩

theorem Ready.append {path : List StepId} {id : StepId} {step : Step}
    {nodes nodes' : List StepExecution} {required : List Nat}
    (hstep : c.flow.steps.find? (fun s => s.id == id) = some step)
    (hnew : ∀ x ∈ nodes, x.step.id ≠ id) (hpath : id ∉ path)
    (hext : Extends c (id :: path) nodes nodes') (hr : required.Nodup)
    (hall : ∀ source ∈ step.sources, ∃ j ∈ required, Placed nodes' source j)
    (honly : ∀ j ∈ required, ∃ source ∈ step.sources, Placed nodes' source j) :
    Extends c path nodes
      (nodes' ++ [⟨c.session, step, nodes'.length, required, .fresh c.now⟩]) := by
  have hid : step.id = id := by simpa using List.find?_some hstep
  have hnew' : ∀ x ∈ nodes', x.step.id ≠ id := by
    intro x hx he
    exact hnew x (hext.off_path x hx (he ▸ List.mem_cons_self)) he
  refine ⟨hext.grown.trans (List.prefix_append _ _), ⟨?_, ?_⟩, ?_⟩
  · have hlen : nodes'.length = (nodes'.map StepExecution.outline).length := by simp
    rw [List.map_append, List.map_singleton, StepExecution.outline, hlen]
    refine hext.ready.laid.append (hid.symm ▸ hstep) ?_ hr ?_ ?_
    · intro x hx
      obtain ⟨y, hy, rfl⟩ := List.mem_map.mp hx
      exact hid.symm ▸ hnew' y hy
    · intro j hj
      obtain ⟨source, hs, hpl⟩ := honly j hj
      obtain ⟨y, hy, he⟩ := hpl.outline
      exact ⟨y, hy, he.symm ▸ hs⟩
    · intro source hs
      obtain ⟨j, hj, hpl⟩ := hall source hs
      exact ⟨j, hj, hpl.outline⟩
  · exact List.forall_mem_append.mpr ⟨hext.ready.fresh, List.forall_mem_singleton.mpr rfl⟩
  · refine List.forall_mem_append.mpr ⟨?_, List.forall_mem_singleton.mpr ?_⟩
    · exact fun x hx hp => hext.off_path x hx (List.mem_cons_of_mem _ hp)
    · exact fun hp => absurd (hid ▸ hp) hpath

theorem Ready.found {nodes : List StepExecution} (hr : Ready c nodes) (path : List StepId)
    {id : StepId} {i : Nat} (hi : nodes.findIdx? (fun x => x.step.id == id) = some i) :
    Extends c path nodes nodes ∧ Placed nodes id i := by
  obtain ⟨hlt, he, -⟩ := List.findIdx?_eq_some_iff_getElem.mp hi
  refine ⟨⟨List.prefix_refl _, hr, fun _ hx _ => hx⟩, nodes[i], List.getElem?_eq_getElem hlt, ?_⟩
  simpa using he

theorem place_eq (c : Setting) (depth : Nat) (path : List StepId) (id : StepId)
    (nodes : List StepExecution) : place c depth path id nodes =
      match nodes.findIdx? fun x => x.step.id == id with
      | some i => .ok (i, nodes)
      | none =>
        if id ∈ path then .error (.cyclicDependency id.text)
        else
          match c.flow.steps.find? fun s => s.id == id with
          | none => .error (.unknownStep c.flow.id.text id.text)
          | some step =>
            match depth with
            | 0 => .error (.cyclicDependency id.text)
            | depth + 1 =>
              step.sources.foldlM (addPlace (place c depth (id :: path))) ([], nodes) >>=
                fun (required, nodes) => .ok (nodes.length, nodes ++
                  [⟨c.session, step, nodes.length, required, StepRecord.fresh c.now⟩]) := by
  delta place
  cases depth <;> rfl

theorem place_lays (depth : Nat) (path : List StepId) : Lays c path (place c depth path) := by
  induction depth generalizing path with
  | zero =>
    intro id nodes i nodes' hr h
    rw [place_eq] at h
    split at h
    · next j hj =>
      cases h
      exact hr.found path hj
    · split at h
      · cases h
      · split at h <;> cases h
  | succ depth ih =>
    intro id nodes i nodes' hr h
    rw [place_eq] at h
    split at h
    · next j hj =>
      cases h
      exact hr.found path hj
    · next hnone =>
      split at h
      · cases h
      · next hpath =>
        split at h
        · cases h
        · next step hstep =>
          cases hfold : step.sources.foldlM (addPlace (place c depth (id :: path))) ([], nodes) with
          | error fault => simp [hfold, bind, Except.bind] at h
          | ok layout =>
            obtain ⟨hext, hnodup, -, hall, honly⟩ :=
              foldlM_addPlace (ih (id :: path)) step.sources hr hfold
            simp only [hfold, bind, Except.bind, Except.ok.injEq, Prod.mk.injEq] at h
            obtain ⟨rfl, rfl⟩ := h
            have hnew : ∀ x ∈ nodes, x.step.id ≠ id := by
              intro x hx
              simpa using List.findIdx?_eq_none_iff.mp hnone x hx
            refine ⟨Ready.append hstep hnew hpath hext (hnodup List.nodup_nil) hall ?_, ?_⟩
            · intro j hj
              exact (honly j hj).resolve_left (by simp)
            · exact ⟨_, List.getElem?_concat_length .., by simpa using List.find?_some hstep⟩

/-- A graph that is built is laid out, has a node for each declared step, and is fresh. -/
theorem build_laid {session : String} {flow : Flow} {now : Int} {g : StepGraph}
    (h : build session flow now = .ok g) :
    Ready ⟨session, flow, now⟩ g.nodes ∧
      ∀ step ∈ flow.steps, ∃ x ∈ g.nodes, x.step.id = step.id := by
  rw [build] at h
  cases hfold : (flow.steps.map Step.id).foldlM
      (addPlace (place ⟨session, flow, now⟩ flow.steps.length [])) ([], []) with
  | error fault => simp [hfold, bind, Except.bind] at h
  | ok layout =>
    simp only [hfold, bind, Except.bind, Except.ok.injEq] at h
    subst h
    obtain ⟨hext, -, -, hall, -⟩ :=
      foldlM_addPlace (place_lays flow.steps.length []) _ ⟨Laid.nil, by simp⟩ hfold
    refine ⟨hext.ready, ?_⟩
    intro step hs
    obtain ⟨j, -, x, hx, he⟩ := hall step.id (List.mem_map_of_mem hs)
    exact ⟨x, List.mem_of_getElem? hx, he⟩

end StepGraph

/-- The outline of a session that was made for a flow. -/
structure SessionOutline.WellLaid (t : SessionOutline) : Prop where
  laid : Laid t.flow t.id t.steps
  complete : ∀ step ∈ t.flow.steps, ∃ x ∈ t.steps, x.step.id = step.id

theorem Session.new_eq {id tenant : String} {flow : Flow} {now : Int} {s : Session}
    (h : Session.new id tenant flow now = .ok s) :
    ∃ g, StepGraph.build id flow now = .ok g ∧ s = .bare id tenant flow now g := by
  rw [Session.new] at h
  cases hg : StepGraph.build id flow now with
  | error fault => simp [hg, bind, Except.bind] at h
  | ok g =>
    simp only [hg, bind, Except.bind, Except.ok.injEq] at h
    exact ⟨g, rfl, h.symm⟩

theorem Session.new_wellLaid {id tenant : String} {flow : Flow} {now : Int} {s : Session}
    (h : Session.new id tenant flow now = .ok s) : s.outline.WellLaid := by
  obtain ⟨g, hg, rfl⟩ := Session.new_eq h
  obtain ⟨hready, hall⟩ := StepGraph.build_laid hg
  refine ⟨hready.laid, ?_⟩
  intro step hs
  obtain ⟨x, hx, he⟩ := hall step hs
  exact ⟨x.outline, List.mem_map_of_mem hx, he⟩

theorem Session.new_fresh {id tenant : String} {flow : Flow} {now : Int} {s : Session}
    (h : Session.new id tenant flow now = .ok s) {i : Nat} {r : StepRecord}
    (hr : s.record? i = some r) : r = .fresh now := by
  obtain ⟨g, hg, rfl⟩ := Session.new_eq h
  obtain ⟨x, hx, rfl⟩ := Option.map_eq_some_iff.mp hr
  exact (StepGraph.build_laid hg).1.fresh x (List.mem_of_getElem? hx)

end FlowEngine
