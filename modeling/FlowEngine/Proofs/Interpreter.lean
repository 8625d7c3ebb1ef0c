import FlowEngine.Engine.Sessions
import FlowEngine.Proofs.Execution
import FlowEngine.Proofs.Layout

/-! # Runs of the interpreter are executions

The interpreter picks one execution of an operation: the surroundings choose every reading of a
clock, every word and every answer. A wait is followed poll by poll. `Surroundings.still` and
`Sample` are surroundings and an engine in which operations are run for example.
-/
namespace FlowEngine

variable {α σ : Type}

/-- Surroundings in which nobody else touches the engine, the flag apart. -/
structure Surroundings.Undisturbed (s : Surroundings σ) : Prop where
  engine_setEngine : ∀ e w, s.engine (s.setEngine e w) = e
  engine_clock : ∀ w, s.engine (s.clock w).2 = s.engine w
  engine_instant : ∀ w, s.engine (s.instant w).2 = s.engine w
  engine_sample : ∀ w, s.engine (s.sample w).2 = s.engine w
  engine_listing : ∀ w, s.engine (s.listing w).2 = s.engine w
  listing_perm : ∀ w, (s.listing w).1.Perm (s.engine w).stored
  engine_sleep : ∀ n w, s.engine (s.sleep n w) = s.engine w
  engine_call : ∀ c w r w', s.call c w = some (r, w') →
    ∃ b, s.engine w' = { s.engine w with stopping := b }

variable {s : Surroundings σ}

theorem Surroundings.Undisturbed.meets (hs : s.Undisturbed) {c : ProviderCall} {w w' : σ}
    {r : c.Outcome} (h : s.call c w = some (r, w')) {a : Situation}
    (ha : a.engine = s.engine w) :
    ∃ b, (Conduct.solitary Conduct.anyAnswer).Meets a c r b ∧ b.engine = s.engine w' := by
  obtain ⟨flag, hf⟩ := hs.engine_call c w r w' h
  refine ⟨a.called (a.toStory.flagged flag) c r, ⟨_, ⟨flag, rfl⟩, trivial, rfl⟩, ?_⟩
  rw [hf, ← ha]
  rfl

theorem Surroundings.Undisturbed.pause (hs : s.Undisturbed) (slices : List Nat) (w : σ) :
    (s.pause slices w).1 = !(s.engine w).stopping ∧
      s.engine (s.pause slices w).2 = s.engine w := by
  induction slices generalizing w with
  | nil => exact ⟨rfl, rfl⟩
  | cons slice rest ih =>
    rw [Surroundings.pause]
    split
    · next hstop => exact ⟨by rw [hstop]; rfl, rfl⟩
    · obtain ⟨hfirst, hengine⟩ := ih (s.sleep slice w)
      rw [hs.engine_sleep] at hfirst hengine
      exact ⟨hfirst, hengine⟩

private theorem await_execution (hs : s.Undisturbed) (wait : Wait) (started : Nat)
    (next : Wait.Verdict → Proc α) {polls : Nat} {w w' : σ} {v : Wait.Verdict}
    (h : s.await wait started polls w = some (v, w')) {a : Situation}
    (ha : a.engine = s.engine w) :
    ∃ b, Execution (Conduct.solitary Conduct.anyAnswer) (.await wait next, a) (next v, b) ∧
      b.engine = s.engine w' := by
  induction polls generalizing w a with
  | zero => cases h
  | succ polls ih =>
    have unfold : Execution (Conduct.solitary Conduct.anyAnswer) (.await wait next, a)
        (if a.engine.stopping then next (.error .interrupted) else wait.request next, a) :=
      .tail (.single .await) .observe
    rw [Surroundings.await] at h
    split at h
    · next hstop =>
      cases h
      rw [ha, if_pos hstop] at unfold
      exact ⟨a, unfold, ha⟩
    · next hstop =>
      rw [ha, if_neg hstop] at unfold
      split at h
      · cases h
      · next r w₁ hcall =>
        obtain ⟨b, hm, hb⟩ := hs.meets hcall ha
        have called := unfold.tail (.call hm)
        cases hr : wait.ofPoll r with
        | some u =>
          simp only [hr, Option.some.injEq, Prod.mk.injEq] at h called
          obtain ⟨rfl, rfl⟩ := h
          exact ⟨b, called, hb⟩
        | none =>
          simp only [hr] at h called
          have waited := called.tail (.instant ((s.instant w₁).1 - started))
          have hb₁ : b.engine = s.engine (s.instant w₁).2 := hb.trans (hs.engine_instant w₁).symm
          cases he : wait.ofElapsed ((s.instant w₁).1 - started) with
          | some u =>
            simp only [he, Option.some.injEq, Prod.mk.injEq] at h waited
            obtain ⟨rfl, rfl⟩ := h
            exact ⟨b, waited, hb₁⟩
          | none =>
            simp only [he] at h waited
            have looked := waited.tail .observe
            simp only [hb₁] at looked
            obtain ⟨hnone, hengine⟩ := hs.pause (pauseSlices wait.interval) (s.instant w₁).2
            split at h
            · next w₂ hpaused =>
              cases h
              rw [hpaused] at hnone hengine
              rw [if_pos (by simpa using hnone.symm)] at looked
              exact ⟨b, looked, hb₁.trans hengine.symm⟩
            · next w₂ hpaused =>
              rw [hpaused] at hnone hengine
              rw [if_neg (by simpa using hnone.symm)] at looked
              obtain ⟨c, hrest, hc⟩ := ih h (hb₁.trans hengine.symm)
              exact ⟨c, looked.trans hrest, hc⟩

/-- A run of the interpreter in undisturbed surroundings is an execution of the operation. -/
theorem run_execution (hs : s.Undisturbed) (patience : Wait → Nat) {p : Proc α} {w w' : σ} {v : α}
    (h : p.run s patience w = some (v, w')) {a : Situation} (ha : a.engine = s.engine w) :
    ∃ b, Execution (Conduct.solitary Conduct.anyAnswer) (p, a) (.done v, b) ∧
      b.engine = s.engine w' := by
  induction p generalizing w a with
  | done u =>
    cases h
    exact ⟨a, .refl, ha⟩
  | observe next ih =>
    obtain ⟨b, hx, hb⟩ := ih _ h ha
    exact ⟨b, .head (ha ▸ .observe) hx, hb⟩
  | update c next ih =>
    obtain ⟨b, hx, hb⟩ := ih h (a := a.change c) (by rw [hs.engine_setEngine, ← ha]; rfl)
    exact ⟨b, .head .update hx, hb⟩
  | clock next ih =>
    obtain ⟨b, hx, hb⟩ := ih _ h (ha.trans (hs.engine_clock w).symm)
    exact ⟨b, .head (.clock _) hx, hb⟩
  | instant next ih =>
    obtain ⟨b, hx, hb⟩ := ih _ h (ha.trans (hs.engine_instant w).symm)
    exact ⟨b, .head (.instant _) hx, hb⟩
  | sample next ih =>
    obtain ⟨b, hx, hb⟩ := ih _ h (ha.trans (hs.engine_sample w).symm)
    exact ⟨b, .head (.sample _) hx, hb⟩
  | listing next ih =>
    obtain ⟨b, hx, hb⟩ := ih _ h (ha.trans (hs.engine_listing w).symm)
    exact ⟨b, .head (.listing (ha ▸ hs.listing_perm w)) hx, hb⟩
  | call c next ih =>
    rw [Proc.run] at h
    split at h
    · cases h
    · next r w₁ hcall =>
      obtain ⟨b, hm, hb⟩ := hs.meets hcall ha
      obtain ⟨b', hx, hb'⟩ := ih r h hb
      exact ⟨b', .head (.call hm) hx, hb'⟩
  | await wait next ih =>
    rw [Proc.run] at h
    dsimp only at h
    split at h
    · cases h
    · next u w₁ hwait =>
      obtain ⟨b, hx, hb⟩ := await_execution hs wait _ next hwait
        (ha.trans (hs.engine_instant w).symm)
      obtain ⟨b', hx', hb'⟩ := ih u h hb
      exact ⟨b', hx.trans hx', hb'⟩

/-- Surroundings where time stands still and the provider always answers in one way. -/
def Surroundings.still (answer : (c : ProviderCall) → c.Outcome) : Surroundings Engine where
  engine := id
  setEngine e _ := e
  clock e := (0, e)
  instant e := (0, e)
  sample e := (0, e)
  listing e := (e.stored, e)
  sleep _ e := e
  call c e := some (answer c, e)

theorem Surroundings.still_undisturbed (answer : (c : ProviderCall) → c.Outcome) :
    (Surroundings.still answer).Undisturbed := by
  refine ⟨fun _ _ => rfl, fun _ => rfl, fun _ => rfl, fun _ => rfl, fun _ => rfl, fun _ => .refl _,
    fun _ _ => rfl, ?_⟩
  rintro c w r w' h
  cases h
  exact ⟨w.stopping, rfl⟩

theorem still_execution (answer : (c : ProviderCall) → c.Outcome) (e : Engine)
    (past : List Moment) {p : Proc α} {v : α}
    (h : (p.run (.still answer) (fun _ => 1) e).map Prod.fst = some v) :
    ∃ b, Execution (Conduct.solitary Conduct.anyAnswer) (p, Story.enter ⟨e, past⟩) (.done v, b) ∧
      (p.run (.still answer) (fun _ => 1) e).map Prod.snd = some b.engine := by
  obtain ⟨⟨_, e'⟩, hrun, rfl⟩ := Option.map_eq_some_iff.mp h
  obtain ⟨b, hx, hb⟩ := run_execution (Surroundings.still_undisturbed answer) _ hrun
    (a := Story.enter ⟨e, past⟩) rfl
  exact ⟨b, hx, by rw [hrun, hb]; rfl⟩

/-- Goes on to a call, after as many calls as given have been answered; time stands still. -/
def Proc.ahead (answer : List Moment → (c : ProviderCall) → c.Outcome) :
    Proc α → Nat → Situation → Point α
  | .done v, _, s => (.done v, s)
  | .observe next, n, s => (next s.engine).ahead answer n s
  | .update c next, n, s => next.ahead answer n (s.change c)
  | .clock next, n, s => (next 0).ahead answer n s
  | .instant next, n, s => (next 0).ahead answer n s
  | .sample next, n, s => (next 0).ahead answer n s
  | .listing next, n, s => (next s.engine.stored).ahead answer n s
  | .call c next, 0, s => (.call c next, s)
  | .call c next, n + 1, s =>
    (next (answer s.past c)).ahead answer n (s.called s.toStory c (answer s.past c))
  | .await w next, _, s => (.await w next, s)

theorem Proc.ahead_execution {K : Conduct} (answer : List Moment → (c : ProviderCall) → c.Outcome)
    (hK : ∀ s c, K.Meets s c (answer s.past c) (s.called s.toStory c (answer s.past c)))
    (p : Proc α) (n : Nat) (s : Situation) : Execution K (p, s) (p.ahead answer n s) := by
  induction p generalizing n s with
  | done v => exact .refl
  | observe next ih => exact .head .observe (ih _ n s)
  | update c next ih => exact .head .update (ih n _)
  | clock next ih => exact .head (.clock 0) (ih 0 n s)
  | instant next ih => exact .head (.instant 0) (ih 0 n s)
  | sample next ih => exact .head (.sample 0) (ih 0 n s)
  | listing next ih => exact .head (.listing (.refl _)) (ih _ n s)
  | call c next ih =>
    cases n with
    | zero => exact .refl
    | succ n => exact .head (.call (hK s c)) (ih _ n _)
  | await w next => exact .refl

def Proc.value? : Proc α → Option α
  | .done v => some v
  | _ => none

theorem Proc.eq_done {p : Proc α} {v : α} (h : p.value? = some v) : p = .done v := by
  cases p <;> cases h
  rfl

theorem Proc.ahead_ends {answer : List Moment → (c : ProviderCall) → c.Outcome} {p : Proc α}
    {n : Nat} {s : Situation} {v : α} (hv : (p.ahead answer n s).1.value? = some v) :
    Execution (.solitary Conduct.anyAnswer) (p, s) (.done v, (p.ahead answer n s).2) := by
  have hmeets : ∀ (a : Situation) c, (Conduct.solitary Conduct.anyAnswer).Meets a c
      (answer a.past c) (a.called a.toStory c (answer a.past c)) :=
    fun a c => ⟨a.toStory, ⟨a.engine.stopping, rfl⟩, trivial, rfl⟩
  exact Proc.eq_done hv ▸ Proc.ahead_execution answer hmeets p n s

namespace Sample

def draft : StepId := ⟨"draft", by decide +kernel⟩

def review : StepId := ⟨"review", by decide +kernel⟩

def step (id : StepId) (inputs : List StepInput) : Step :=
  ⟨id, 1, id.text, "", ⟨.service, id.text⟩, inputs⟩

def flow : Flow where
  id := ⟨"letter", by decide +kernel⟩
  version := 1
  name := "Letter"
  description := ""
  inputLead := ""
  ttlInMinutes := 60
  defaultTemplateId := none
  inputs := []
  steps := [step review [.redirect draft "draft"], step draft []]

def session : Session :=
  .bare "letter-1" "acme" flow 0
    ⟨[⟨"letter-1", step draft [], 0, [], .fresh 0⟩,
      ⟨"letter-1", step review [.redirect draft "draft"], 1, [0], .fresh 0⟩]⟩

theorem session_new : Session.new "letter-1" "acme" flow 0 = .ok session := by
  decide +kernel

def engine : Engine :=
  { Engine.empty with
    registry := ⟨[(flow.id.text, [(flow.version, flow)])]⟩, sessions := [session], stored := [0] }

def facilities : Facilities := ⟨.standard ⟨1, 1⟩, none, none⟩

def order : StepOrder := ⟨"acme", 0, none, true⟩

/-- A provider that answers every question in the same way. -/
def echo : (c : ProviderCall) → c.Outcome
  | .runService _ _ => .ok "yes"
  | .ask _ _ => .ok ⟨"talk", "yes"⟩
  | .followUp _ _ _ => .ok "yes"
  | .runApp _ _ => .ok "run"
  | .appRun _ _ => .ok ⟨.complete, some "yes"⟩
  | .upload _ _ _ => .ok "file"
  | .delete _ _ => .ok ()

def silence (c : ProviderCall) : c.Outcome := .error (.unavailable "down")

end Sample

end FlowEngine
