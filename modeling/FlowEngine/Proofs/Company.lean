import FlowEngine.Proofs.Nesting

/-! # Operations in company

A custom is what operations that are nested in one another may take for granted of each other: a
relation between the story at the start of an operation and the story at any later point of it. If
every request follows the custom by itself, provided that during its calls the others do, then all
operations in progress follow it.
-/
namespace FlowEngine

/-- A relation in which an operation leads the story on. -/
structure Custom where
  leads : Story → Story → Prop
  refl : ∀ s, leads s s
  trans : ∀ {s t u}, leads s t → leads t u → leads s u
  flagged : ∀ s b, leads s (s.flagged b)

namespace Custom

variable {C : Custom} {f : Facilities} {P : Request → List Moment → Prop}
  {Q : (q : Request) → q.Reply → Situation → Prop}

/-- Others follow the custom while a call is under way; the provider does as it likes. -/
def conduct (C : Custom) : Conduct := ⟨C.leads, Conduct.anyAnswer⟩

/-- The story has come from an opening. -/
def Begun (C : Custom) (s : Story) : Prop := ∃ flows logging, C.leads (.opening flows logging) s

/-- Every request follows the custom in company that does; what it has done is always in `P`, and
what it ends with in `Q`. -/
structure Followed (C : Custom) (f : Facilities) (P : Request → List Moment → Prop)
    (Q : (q : Request) → q.Reply → Situation → Prop) : Prop where
  start : ∀ q, P q []
  proc : ∀ (q : Request) (s : Story), C.Begun s →
    (q.proc f).Assures C.conduct (fun s' => C.leads s s'.toStory ∧ P q s'.own)
      (fun r s' => (C.leads s s'.toStory ∧ P q s'.own) ∧ Q q r s') s.enter

/-- The operations in progress follow the custom, the innermost of which has come to the given
story. -/
inductive Kept (C : Custom) (P : Request → List Moment → Prop)
    (Q : (q : Request) → q.Reply → Situation → Prop) : Story → List Frame → Prop where
  | bottom {now} : C.Begun now → Kept C P Q now []
  | frame {base now fr below} : Kept C P Q base below → Waiting below → C.leads base now →
      P fr.request fr.own →
      fr.rest.Assures C.conduct (fun s => C.leads base s.toStory ∧ P fr.request s.own)
        (fun r s => (C.leads base s.toStory ∧ P fr.request s.own) ∧ Q fr.request r s)
        ⟨now, fr.own⟩ →
      Kept C P Q now (fr :: below)

theorem Begun.later {s t : Story} (hs : C.Begun s) (h : C.leads s t) : C.Begun t := by
  obtain ⟨flows, logging, hs⟩ := hs
  exact ⟨flows, logging, C.trans hs h⟩

theorem immediate_within (C : Custom) : Conduct.immediate.Within C.conduct := by
  refine ⟨?_, id⟩
  rintro s t rfl
  exact C.refl _

namespace Kept

variable {now t : Story} {stack : List Frame}

theorem begun (h : C.Kept P Q now stack) : C.Begun now := by
  induction h with
  | bottom hs => exact hs
  | frame _ _ hleads _ _ ih => exact ih.later hleads

theorem own (h : C.Kept P Q now stack) : ∀ fr ∈ stack, P fr.request fr.own := by
  induction h with
  | bottom => exact nofun
  | frame _ _ _ hown _ ih =>
    intro fr hfr
    rcases List.mem_cons.mp hfr with rfl | hfr
    · exact hown
    · exact ih fr hfr

theorem ended {fr : Frame} {below : List Frame} {r : fr.request.Reply}
    (h : C.Kept P Q now (fr :: below)) (hr : fr.rest = .done r) :
    Q fr.request r ⟨now, fr.own⟩ := by
  cases h with
  | frame _ _ _ _ hrest =>
    rw [hr] at hrest
    exact hrest.2

theorem led (h : C.Kept P Q now stack) (hw : Waiting stack) (ht : C.leads now t) :
    C.Kept P Q t stack := by
  cases h with
  | bottom hs => exact .bottom (hs.later ht)
  | @frame base _ fr below hbelow hwaiting hleads hown hrest =>
    obtain ⟨c, next, hcall⟩ := hw fr rfl
    refine .frame hbelow hwaiting (C.trans hleads ht) hown ?_
    rw [hcall] at hrest ⊢
    rintro r s' ⟨u, hu, ha, rfl⟩
    exact hrest r _ ⟨u, C.trans ht hu, ha, rfl⟩

theorem step (hf : C.Followed f P Q) {m m' : Machine} (hm : C.Kept P Q m.story m.stack)
    (h : m.Step f m') : C.Kept P Q m'.story m'.stack := by
  cases h with
  | flag b hw => exact hm.led hw (C.flagged _ b)
  | enter q hw => exact .frame hm hw (C.refl _) (hf.start q) (hf.proc q _ hm.begun)
  | act hmove =>
    cases hm with
    | frame hbelow hwaiting hleads hown hrest =>
      obtain ⟨⟨hleads', hown'⟩, hrest'⟩ :=
        move_assured C.immediate_within hmove ⟨hleads, hown⟩ hrest
      exact .frame hbelow hwaiting hleads' hown' hrest'
  | leave =>
    cases hm with
    | frame hbelow hwaiting _ _ hdone => exact hbelow.led hwaiting hdone.1.1

theorem reachable (hf : C.Followed f P Q) {m : Machine} (h : Machine.Reachable f m) :
    C.Kept P Q m.story m.stack := by
  induction h with
  | opening flows logging => exact .bottom ⟨flows, logging, C.refl _⟩
  | step _ hs ih => exact ih.step hf hs

end Kept

end Custom

end FlowEngine
