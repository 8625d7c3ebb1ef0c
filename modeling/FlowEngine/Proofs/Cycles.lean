import FlowEngine.Proofs.Interpreter
import FlowEngine.Proofs.Reachable
import Mathlib.Data.List.Perm.Subperm

/-! # Cycles of redirects

Two searches go through the redirects of a flow: the test for cycles, which keeps the steps that it
has visited and a stack, and the layout of a session, which keeps the nodes laid out so far and a
path. The first finds a cycle if and only if some step reaches itself. The second succeeds if and
only if there is no cycle and every source is a step; neither ever meets the bound on its depth. So
sessions can be made of every registered flow.
-/
namespace FlowEngine

namespace Flow

variable {f : Flow} {a b : StepId} {stack visited visited' : List StepId}

/-- No later step is declared with the identifier of the step. -/
def DeclaredLast (f : Flow) (s : Step) : Prop :=
  ∃ earlier later, f.steps = earlier ++ s :: later ∧ ∀ t ∈ later, t.id ≠ s.id

theorem redirects_iff_declaredLast :
    f.Redirects a b ↔ ∃ s, f.DeclaredLast s ∧ s.id = a ∧ b ∈ s.sources := by
  rw [Redirects, sourcesOf]
  constructor
  · intro h
    cases hfind : f.steps.reverse.find? fun s => s.id == a with
    | none => simp [hfind] at h
    | some s =>
      obtain ⟨hid, before, after, hsteps, hbefore⟩ := List.find?_eq_some_iff_append.mp hfind
      obtain rfl : s.id = a := by simpa using hid
      refine ⟨s, ⟨after.reverse, before.reverse, ?_, ?_⟩, rfl, by simpa [hfind] using h⟩
      · simpa using congrArg List.reverse hsteps
      · intro t ht
        simpa using hbefore t (List.mem_reverse.mp ht)
  · rintro ⟨s, ⟨earlier, later, hsteps, hlast⟩, rfl, hb⟩
    have hfind : f.steps.reverse.find? (fun t => t.id == s.id) = some s := by
      refine List.find?_eq_some_iff_append.mpr ⟨by simp, later.reverse, earlier.reverse, ?_, ?_⟩
      · simp [hsteps]
      · intro t ht
        simpa using hlast t (List.mem_reverse.mp ht)
    simpa [hfind] using hb

theorem DeclaredLast.mem {s : Step} (h : f.DeclaredLast s) : s ∈ f.steps := by
  obtain ⟨earlier, later, hsteps, -⟩ := h
  rw [hsteps]
  exact List.mem_append_right _ List.mem_cons_self

theorem declaredLast_iff (hd : (f.steps.map Step.id).Nodup) {s : Step} :
    f.DeclaredLast s ↔ s ∈ f.steps := by
  constructor
  · exact DeclaredLast.mem
  · intro hs
    obtain ⟨earlier, later, hsteps⟩ := List.append_of_mem hs
    refine ⟨earlier, later, hsteps, ?_⟩
    rw [hsteps, List.map_append, List.map_cons] at hd
    have hnew := (List.nodup_cons.mp (List.nodup_append.mp hd).2.1).1
    intro t ht hid
    exact hnew (hid ▸ List.mem_map_of_mem ht)

theorem redirects_iff (hd : (f.steps.map Step.id).Nodup) :
    f.Redirects a b ↔ ∃ s ∈ f.steps, s.id = a ∧ b ∈ s.sources := by
  rw [redirects_iff_declaredLast]
  exact exists_congr fun s => and_congr_left fun _ => declaredLast_iff hd

theorem Redirects.declared (h : f.Redirects a b) : a ∈ f.steps.map Step.id := by
  obtain ⟨s, hs, rfl, -⟩ := redirects_iff_declaredLast.mp h
  exact List.mem_map_of_mem hs.mem

theorem Reaches.declared (h : f.Reaches a b) : a ∈ f.steps.map Step.id := by
  induction h with
  | single h => exact h.declared
  | tail _ _ ih => exact ih

theorem Reaches.extend (hreach : ∀ p ∈ stack, f.Reaches p a) (h : f.Redirects a b) :
    ∀ p ∈ a :: stack, f.Reaches p b := by
  intro p hp
  rcases List.mem_cons.mp hp with rfl | hp
  · exact .single h
  · exact .tail (hreach p hp) h

theorem foldlM_follow_none {go : List StepId → StepId → Option (List StepId)} {ids : List StepId}
    (h : ids.foldlM (follow go stack) visited = none) :
    ∃ id ∈ ids, id ∈ stack ∨ id ∉ stack ∧ ∃ visited', go visited' id = none := by
  induction ids generalizing visited with
  | nil => cases h
  | cons id rest ih =>
    rw [List.foldlM_cons] at h
    cases hfollow : follow go stack visited id with
    | none =>
      refine ⟨id, List.mem_cons_self, ?_⟩
      simp only [follow, List.contains_iff_mem] at hfollow
      split at hfollow
      · exact .inl ‹_›
      · split at hfollow
        · cases hfollow
        · exact .inr ⟨‹_›, visited, hfollow⟩
    | some visited' =>
      simp only [hfollow, bind, Option.bind] at h
      obtain ⟨other, hother, hwhy⟩ := ih h
      exact ⟨other, List.mem_cons_of_mem _ hother, hwhy⟩

/-- Where the search gives nothing, some step reaches itself: the stack leads to the step that is
visited, and its length and the depth that is left are more than there are steps. -/
theorem visit_none (depth : Nat) {stack visited : List StepId} {id : StepId}
    (hstack : stack.Nodup) (hsteps : stack ⊆ f.steps.map Step.id) (hid : id ∉ stack)
    (hdepth : stack.length + depth = f.steps.length + 1) (hreach : ∀ p ∈ stack, f.Reaches p id)
    (h : f.visit depth stack visited id = none) : ∃ a, f.Reaches a a := by
  induction depth generalizing stack visited id with
  | zero =>
    have hle := (hstack.subperm hsteps).length_le
    rw [List.length_map] at hle
    omega
  | succ depth ih =>
    rw [visit] at h
    obtain ⟨source, hsource, hwhy⟩ := foldlM_follow_none h
    have hreach' := Reaches.extend hreach hsource
    rcases hwhy with hon | ⟨hoff, visited', hnone⟩
    · exact ⟨source, hreach' source hon⟩
    · refine ih (List.nodup_cons.mpr ⟨hid, hstack⟩)
        (List.cons_subset.mpr ⟨Redirects.declared hsource, hsteps⟩) hoff ?_ hreach' hnone
      rw [List.length_cons]
      omega

/-- What a visited step that is not on the stack redirects has been visited and is not on the stack
either, and no such step reaches itself. -/
structure Settled (f : Flow) (stack visited : List StepId) : Prop where
  closed : ∀ a ∈ visited, a ∉ stack → ∀ b, f.Redirects a b → b ∈ visited ∧ b ∉ stack
  acyclic : ∀ a ∈ visited, a ∉ stack → ¬ f.Reaches a a

theorem Settled.push (hs : f.Settled stack visited) (hnew : a ∉ visited) :
    f.Settled (a :: stack) (a :: visited) := by
  constructor
  · intro c hc hoff b hb
    obtain ⟨hne, hoff⟩ := not_or.mp (mt List.mem_cons.mpr hoff)
    obtain ⟨hvisited, hoffb⟩ := hs.closed c ((List.mem_cons.mp hc).resolve_left hne) hoff b hb
    exact ⟨List.mem_cons_of_mem _ hvisited,
      mt List.mem_cons.mp (not_or.mpr ⟨fun heq => hnew (heq ▸ hvisited), hoffb⟩)⟩
  · intro c hc hoff
    obtain ⟨hne, hoff⟩ := not_or.mp (mt List.mem_cons.mpr hoff)
    exact hs.acyclic c ((List.mem_cons.mp hc).resolve_left hne) hoff

theorem Settled.pop (hs : f.Settled (a :: stack) visited)
    (hsources : ∀ b, f.Redirects a b → b ∈ visited ∧ b ∉ a :: stack) : f.Settled stack visited := by
  have hclosed : ∀ c ∈ visited, c ∉ stack →
      ∀ b, f.Redirects c b → b ∈ visited ∧ b ∉ a :: stack := by
    intro c hc hoff b hb
    by_cases heq : c = a
    · exact hsources b (heq ▸ hb)
    · exact hs.closed c hc (mt List.mem_cons.mp (not_or.mpr ⟨heq, hoff⟩)) b hb
  constructor
  · intro c hc hoff b hb
    obtain ⟨hvisited, hoffb⟩ := hclosed c hc hoff b hb
    exact ⟨hvisited, fun hm => hoffb (List.mem_cons_of_mem _ hm)⟩
  · intro c hc hoff hr
    by_cases heq : c = a
    · subst heq
      have hreached : ∀ d, f.Reaches c d → d ∈ visited ∧ d ∉ c :: stack := by
        intro d hd
        induction hd with
        | single hb => exact hsources _ hb
        | tail _ hb ih => exact hs.closed _ ih.1 ih.2 _ hb
      exact (hreached c hr).2 List.mem_cons_self
    · exact hs.acyclic c hc (mt List.mem_cons.mp (not_or.mpr ⟨heq, hoff⟩)) hr

theorem foldlM_follow_some {go : List StepId → StepId → Option (List StepId)}
    (hgo : ∀ {visited visited' : List StepId} {id : StepId}, f.Settled stack visited →
      id ∉ visited → go visited id = some visited' →
      f.Settled stack visited' ∧ visited ⊆ visited' ∧ id ∈ visited')
    {ids : List StepId} (hs : f.Settled stack visited)
    (h : ids.foldlM (follow go stack) visited = some visited') :
    f.Settled stack visited' ∧ visited ⊆ visited' ∧ ∀ id ∈ ids, id ∈ visited' ∧ id ∉ stack := by
  induction ids generalizing visited with
  | nil =>
    cases h
    refine ⟨hs, List.Subset.refl _, ?_⟩
    intro id hid
    cases hid
  | cons id rest ih =>
    rw [List.foldlM_cons] at h
    cases hfollow : follow go stack visited id with
    | none => simp [hfollow] at h
    | some found =>
      simp only [hfollow, bind, Option.bind] at h
      have hfound : id ∉ stack ∧ f.Settled stack found ∧ visited ⊆ found ∧ id ∈ found := by
        simp only [follow, List.contains_iff_mem] at hfollow
        split at hfollow
        · cases hfollow
        · next hoff =>
          split at hfollow
          · next hold =>
            cases hfollow
            exact ⟨hoff, hs, List.Subset.refl _, hold⟩
          · next hnew => exact ⟨hoff, hgo hs hnew hfollow⟩
      obtain ⟨hoff, hsettled, hsub, hmem⟩ := hfound
      obtain ⟨hend, hsub', hrest⟩ := ih hsettled h
      refine ⟨hend, List.Subset.trans hsub hsub', ?_⟩
      intro other hother
      rcases List.mem_cons.mp hother with rfl | hother
      · exact ⟨hsub' hmem, hoff⟩
      · exact hrest other hother

/-- What the search has been through is settled. -/
theorem visit_some (depth : Nat) {stack visited visited' : List StepId} {id : StepId}
    (hs : f.Settled stack visited) (hnew : id ∉ visited)
    (h : f.visit depth stack visited id = some visited') :
    f.Settled stack visited' ∧ visited ⊆ visited' ∧ id ∈ visited' := by
  induction depth generalizing stack visited visited' id with
  | zero => cases h
  | succ depth ih =>
    rw [visit] at h
    obtain ⟨hsettled, hsub, hsources⟩ := foldlM_follow_some ih (hs.push hnew) h
    obtain ⟨hid, hvisited⟩ := List.cons_subset.mp hsub
    exact ⟨hsettled.pop hsources, hvisited, hid⟩

/-- The test for cycles finds one if and only if some step reaches itself. -/
theorem hasCycle_iff_reaches (f : Flow) : f.hasCycle = true ↔ ∃ a, f.Reaches a a := by
  rw [hasCycle, Option.isNone_iff_eq_none]
  constructor
  · intro h
    obtain ⟨id, -, hwhy⟩ := foldlM_follow_none h
    obtain ⟨-, visited, hnone⟩ := hwhy.resolve_left List.not_mem_nil
    exact visit_none _ List.nodup_nil (List.nil_subset _) List.not_mem_nil (by simp) (by simp) hnone
  · rintro ⟨a, ha⟩
    cases h : (f.steps.map Step.id).foldlM (follow (f.visit (f.steps.length + 1) []) []) [] with
    | none => rfl
    | some visited =>
      have hstart : f.Settled [] [] := by constructor <;> simp
      obtain ⟨hs, -, hall⟩ := foldlM_follow_some (visit_some _) hstart h
      obtain ⟨hvisited, hoff⟩ := hall a ha.declared
      exact absurd ha (hs.acyclic a hvisited hoff)

def Closed (f : Flow) : Prop :=
  ∀ s ∈ f.steps, ∀ source ∈ s.sources, ∃ t ∈ f.steps, t.id = source

/-- The fault says what is wrong with the redirects of the flow: the step that it names is on a
cycle, or it is a source and no step. -/
def Explains (f : Flow) (fault : EngineFault) : Prop :=
  (∃ a : StepId, fault = .cyclicDependency a.text ∧ f.Reaches a a) ∨
    ∃ a : StepId, fault = .unknownStep f.id.text a.text ∧ (∃ s ∈ f.steps, a ∈ s.sources) ∧
      ∀ t ∈ f.steps, t.id ≠ a

end Flow

namespace StepGraph

variable {c : Setting} {fault : EngineFault}

theorem foldlM_addPlace_fault
    {place : StepId → List StepExecution → Except EngineFault (Nat × List StepExecution)}
    {ids : List StepId} {layout : Layout}
    (h : ids.foldlM (addPlace place) layout = .error fault) :
    ∃ id ∈ ids, ∃ nodes, place id nodes = .error fault := by
  induction ids generalizing layout with
  | nil => cases h
  | cons id rest ih =>
    rw [List.foldlM_cons] at h
    cases hplace : place id layout.2 with
    | error found =>
      simp only [addPlace, hplace, bind, Except.bind, Except.error.injEq] at h
      exact ⟨id, List.mem_cons_self, layout.2, hplace.trans (congrArg _ h)⟩
    | ok found =>
      simp only [addPlace, hplace, bind, Except.bind] at h
      obtain ⟨other, hother, hfault⟩ := ih h
      exact ⟨other, List.mem_cons_of_mem _ hother, hfault⟩

theorem place_error {depth : Nat} {path : List StepId} {id : StepId} {nodes : List StepExecution}
    (h : place c depth path id nodes = .error fault) :
    (fault = .cyclicDependency id.text ∧ id ∈ path) ∨
      (fault = .unknownStep c.flow.id.text id.text ∧ ∀ t ∈ c.flow.steps, t.id ≠ id) ∨
      (id ∉ path ∧ ∃ step ∈ c.flow.steps, step.id = id ∧ (depth = 0 ∨
        ∃ left, depth = left + 1 ∧ ∃ source ∈ step.sources, ∃ nodes',
          place c left (id :: path) source nodes' = .error fault)) := by
  rw [place_eq] at h
  split at h
  · cases h
  · split at h
    · next hmem =>
      cases h
      exact .inl ⟨rfl, hmem⟩
    · next hmem =>
      split at h
      · next hnone =>
        cases h
        exact .inr (.inl ⟨rfl, by simpa using hnone⟩)
      · next step hstep =>
        have hstepId : step.id = id := by simpa using List.find?_some hstep
        refine .inr (.inr ⟨hmem, step, List.mem_of_find?_eq_some hstep, hstepId, ?_⟩)
        split at h
        · exact .inl rfl
        · next left =>
          cases hfold : step.sources.foldlM (addPlace (place c left (id :: path))) ([], nodes) with
          | ok layout => simp [hfold, bind, Except.bind] at h
          | error found =>
            simp only [hfold, bind, Except.bind, Except.error.injEq] at h
            exact .inr ⟨left, rfl, foldlM_addPlace_fault (h ▸ hfold)⟩

/-- The path leads to the step that is visited, and its length and the depth that is left are as
many as there are steps. -/
theorem place_fault (hd : (c.flow.steps.map Step.id).Nodup) (depth : Nat) {path : List StepId}
    {id : StepId} {nodes : List StepExecution} (hpath : path.Nodup)
    (hsteps : path ⊆ c.flow.steps.map Step.id) (hdepth : path.length + depth = c.flow.steps.length)
    (hreach : ∀ p ∈ path, c.flow.Reaches p id)
    (hid : id ∈ c.flow.steps.map Step.id ∨ ∃ s ∈ c.flow.steps, id ∈ s.sources)
    (h : place c depth path id nodes = .error fault) : c.flow.Explains fault := by
  induction depth generalizing path id nodes with
  | zero =>
    rcases place_error h with ⟨rfl, hmem⟩ | ⟨rfl, hunknown⟩ | ⟨hmem, step, hstep, rfl, -⟩
    · exact .inl ⟨id, rfl, hreach id hmem⟩
    · refine .inr ⟨id, rfl, hid.resolve_left ?_, hunknown⟩
      simpa using hunknown
    · have hnodup : (step.id :: path).Nodup := List.nodup_cons.mpr ⟨hmem, hpath⟩
      have hsub : step.id :: path ⊆ c.flow.steps.map Step.id :=
        List.cons_subset.mpr ⟨List.mem_map_of_mem hstep, hsteps⟩
      have hle := (hnodup.subperm hsub).length_le
      rw [List.length_cons, List.length_map] at hle
      omega
  | succ depth ih =>
    rcases place_error h with ⟨rfl, hmem⟩ | ⟨rfl, hunknown⟩ | ⟨hmem, step, hstep, rfl, hwhy⟩
    · exact .inl ⟨id, rfl, hreach id hmem⟩
    · refine .inr ⟨id, rfl, hid.resolve_left ?_, hunknown⟩
      simpa using hunknown
    · obtain ⟨left, hleft, source, hsource, nodes', hplace⟩ :=
        hwhy.resolve_left (Nat.succ_ne_zero _)
      obtain rfl : depth = left := Nat.succ.inj hleft
      have hedge : c.flow.Redirects step.id source :=
        (Flow.redirects_iff hd).mpr ⟨step, hstep, rfl, hsource⟩
      refine ih (List.nodup_cons.mpr ⟨hmem, hpath⟩)
        (List.cons_subset.mpr ⟨hedge.declared, hsteps⟩) ?_ (Flow.Reaches.extend hreach hedge)
        (.inr ⟨step, hstep, hsource⟩) hplace
      rw [List.length_cons]
      omega

theorem build_fault {session : String} {flow : Flow} {now : Int}
    (hd : (flow.steps.map Step.id).Nodup) (h : build session flow now = .error fault) :
    flow.Explains fault := by
  rw [build] at h
  cases hfold : (flow.steps.map Step.id).foldlM
      (addPlace (place ⟨session, flow, now⟩ flow.steps.length [])) ([], []) with
  | ok layout => simp [hfold, bind, Except.bind] at h
  | error found =>
    simp only [hfold, bind, Except.bind, Except.error.injEq] at h
    obtain ⟨id, hid, nodes, hplace⟩ := foldlM_addPlace_fault (h ▸ hfold)
    exact place_fault hd _ List.nodup_nil (List.nil_subset _) (by simp) (by simp) (.inl hid) hplace

end StepGraph

namespace Laid

variable {flow : Flow} {session : String} {steps : List StepOutline} {a b : StepId}

theorem before (hl : Laid flow session steps) (hd : (flow.steps.map Step.id).Nodup)
    {i : Nat} {x : StepOutline} (hx : steps[i]? = some x) (hr : flow.Reaches x.step.id b) :
    ∃ j < i, ∃ y : StepOutline, steps[j]? = some y ∧ y.step.id = b := by
  have hedge : ∀ {i : Nat} {x : StepOutline} {b : StepId}, steps[i]? = some x →
      flow.Redirects x.step.id b →
      ∃ j < i, ∃ y : StepOutline, steps[j]? = some y ∧ y.step.id = b := by
    intro i x b hx h
    obtain ⟨s, hs, hid, hb⟩ := (Flow.redirects_iff hd).mp h
    have hmem := List.mem_of_getElem? hx
    obtain ⟨j, hj, y, hy, rfl⟩ :=
      hl.supplied x hmem b ((hl.step_eq hd hmem hs hid.symm).symm ▸ hb)
    exact ⟨j, hl.position i x hx ▸ hl.earlier x hmem j hj, y, hy, rfl⟩
  induction hr with
  | single h => exact hedge hx h
  | tail _ h ih =>
    obtain ⟨j, hj, y, hy, rfl⟩ := ih
    obtain ⟨k, hk, hz⟩ := hedge hy h
    exact ⟨k, Nat.lt_trans hk hj, hz⟩

end Laid

theorem StepGraph.build_sources {session : String} {flow : Flow} {now : Int} {g : StepGraph}
    (hd : (flow.steps.map Step.id).Nodup) (h : build session flow now = .ok g) :
    flow.Closed ∧ flow.hasCycle = false := by
  obtain ⟨⟨hl, -⟩, hall⟩ := build_laid h
  have hnode : ∀ s ∈ flow.steps, ∃ (i : Nat) (x : StepOutline),
      (g.nodes.map StepExecution.outline)[i]? = some x ∧ x.step = s := by
    intro s hs
    obtain ⟨n, hn, hid⟩ := hall s hs
    have hmem := List.mem_map_of_mem (f := StepExecution.outline) hn
    obtain ⟨i, hi⟩ := List.getElem?_of_mem hmem
    exact ⟨i, n.outline, hi, hl.step_eq hd hmem hs hid⟩
  constructor
  · intro s hs source hsource
    obtain ⟨i, x, hx, rfl⟩ := hnode s hs
    obtain ⟨j, -, y, hy, rfl⟩ := hl.supplied x (List.mem_of_getElem? hx) source hsource
    exact ⟨y.step, hl.declares (List.mem_of_getElem? hy), rfl⟩
  · rw [Bool.eq_false_iff, ne_eq, Flow.hasCycle_iff_reaches]
    rintro ⟨a, ha⟩
    obtain ⟨s, hs, rfl⟩ := List.mem_map.mp ha.declared
    obtain ⟨i, x, hx, rfl⟩ := hnode s hs
    obtain ⟨j, hj, y, hy, hid⟩ := hl.before hd hx ha
    have := hl.unique hy hx hid
    omega

theorem Flow.not_explains {f : Flow} (hclosed : f.Closed) (hcycle : f.hasCycle = false)
    (fault : EngineFault) : ¬ f.Explains fault := by
  rintro (⟨a, -, ha⟩ | ⟨a, -, ⟨s, hs, hsource⟩, hunknown⟩)
  · rw [(hasCycle_iff_reaches f).mpr ⟨a, ha⟩] at hcycle
    cases hcycle
  · obtain ⟨t, ht, hid⟩ := hclosed s hs a hsource
    exact hunknown t ht hid

theorem StepGraph.build_of_sources {flow : Flow} (hd : (flow.steps.map Step.id).Nodup)
    (hclosed : flow.Closed) (hcycle : flow.hasCycle = false) (session : String) (now : Int) :
    ∃ g, build session flow now = .ok g := by
  cases h : build session flow now with
  | ok g => exact ⟨g, rfl⟩
  | error fault => exact absurd (build_fault hd h) (Flow.not_explains hclosed hcycle fault)

namespace Flow

theorem validate_sources {f : Flow} (h : f.validate = .ok ()) : f.Closed ∧ f.hasCycle = false :=
  ⟨(validate_ok h).1.sourcesKnown, (validate_ok h).2⟩

end Flow

theorem Session.new_of_valid {f : Flow} (hv : f.validate = .ok ()) (id tenant : String)
    (now : Int) : ∃ s, Session.new id tenant f now = .ok s := by
  obtain ⟨hclosed, hcycle⟩ := Flow.validate_sources hv
  obtain ⟨g, hg⟩ := StepGraph.build_of_sources (Flow.validate_nodup hv) hclosed hcycle id now
  exact ⟨.bare id tenant f now g, by simp only [Session.new, hg, bind, Except.bind]⟩

/-- The layout of a flow whose identifiers are distinct succeeds if and only if every source is a
step and the test finds no cycle. A layout that fails names a step on a cycle, or a source that is
no step. So a session can be made of each flow that a registry gives, whatever flows it was
offered. -/
theorem builds_iff_sources_and_acyclic :
    (∀ (session : String) (flow : Flow) (now : Int), (flow.steps.map Step.id).Nodup →
      ((∃ g, StepGraph.build session flow now = .ok g) ↔ flow.Closed ∧ flow.hasCycle = false) ∧
      ∀ fault, StepGraph.build session flow now = .error fault → flow.Explains fault) ∧
    ∀ (offered : List Flow) (name : String) (version : Option UInt32) (flow : Flow),
      (Registry.ofFlows offered).load name version = .ok flow →
      ∀ (id tenant : String) (now : Int), ∃ s, Session.new id tenant flow now = .ok s := by
  constructor
  · intro session flow now hd
    refine ⟨⟨?_, ?_⟩, fun _ => StepGraph.build_fault hd⟩
    · rintro ⟨g, hg⟩
      exact StepGraph.build_sources hd hg
    · rintro ⟨hclosed, hcycle⟩
      exact StepGraph.build_of_sources hd hclosed hcycle session now
  · intro offered name version flow hload id tenant now
    exact Session.new_of_valid (Registry.ofFlows_valid offered flow (Sessions.load_accepted hload))
      id tenant now

def Sample.circular : Flow :=
  { Sample.flow with
    steps := [step review [.redirect draft "draft"], step draft [.redirect review "notes"]] }

theorem circular_letter_not_built :
    (Sample.circular.steps.map Step.id).Nodup ∧
      (¬ ∃ g, StepGraph.build "letter-1" Sample.circular 0 = .ok g) ∧
      StepGraph.build "letter-1" Sample.circular 0 = .error (.cyclicDependency "review") ∧
      Sample.circular.Explains (.cyclicDependency "review") ∧
      (Registry.ofFlows [Sample.circular, Sample.flow]).load "letter" none = .ok Sample.flow ∧
      ∃ s, Session.new "letter-1" "acme" Sample.flow 0 = .ok s := by
  have hd : (Sample.circular.steps.map Step.id).Nodup := by decide +kernel
  have hfault : StepGraph.build "letter-1" Sample.circular 0 =
      .error (.cyclicDependency "review") := by decide +kernel
  have hload : (Registry.ofFlows [Sample.circular, Sample.flow]).load "letter" none =
      .ok Sample.flow := by decide +kernel
  obtain ⟨hiff, hexplains⟩ := builds_iff_sources_and_acyclic.1 "letter-1" Sample.circular 0 hd
  refine ⟨hd, ?_, hfault, hexplains _ hfault, hload,
    builds_iff_sources_and_acyclic.2 _ _ _ _ hload "letter-1" "acme" 0⟩
  rw [hiff]
  rintro ⟨-, hcycle⟩
  have hfound : Sample.circular.hasCycle = true := by decide +kernel
  rw [hfound] at hcycle
  cases hcycle

end FlowEngine
