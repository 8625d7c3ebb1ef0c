import FlowEngine.Proofs.Effects

/-! # Operations side by side

When operations go on at the same time, others can do something before every look at the engine and
before every change of it. An `Accord` says what one of them may expect of the others and what the
others may expect of it. `Proc.Holds` says that an operation keeps its part of an accord, provided
that the others keep theirs, and what is known when it ends.
-/
namespace FlowEngine

structure Accord where
  /-- What the others may make of an engine. -/
  others : Engine → Engine → Prop
  /-- The changes that the operation itself may make to an engine. -/
  own : Engine → Change → Prop
  refl : ∀ e, others e e
  trans : ∀ {e e' e''}, others e e' → others e' e'' → others e e''

variable {α β : Type} {A : Accord} {e : Engine}

/-- What the others do not undo. -/
def Accord.Leaves (A : Accord) (Q : α → Engine → Prop) : Prop :=
  ∀ v e e', Q v e → A.others e e' → Q v e'

namespace Proc

/-- From here the operation keeps to its part of the accord, and ends in `Q`. -/
def Holds (A : Accord) (Q : α → Engine → Prop) : Proc α → Engine → Prop
  | .done v, e => Q v e
  | .observe next, e => ∀ e', A.others e e' → (next e').Holds A Q e'
  | .update c next, e => ∀ e', A.others e e' → A.own e' c ∧ next.Holds A Q (c.apply e')
  | .clock next, e => ∀ t, (next t).Holds A Q e
  | .instant next, e => ∀ t, (next t).Holds A Q e
  | .sample next, e => ∀ w, (next w).Holds A Q e
  | .listing next, e => ∀ e', A.others e e' → ∀ l, l.Perm e'.stored → (next l).Holds A Q e'
  | .call _ next, e => ∀ r, (next r).Holds A Q e
  | .await w next, e => ∀ v, w.Ends v → (next v).Holds A Q e

theorem holds_bind {Q : β → Engine → Prop} (p : Proc α) (f : α → Proc β) (e : Engine) :
    (p.bind f).Holds A Q e ↔ p.Holds A (fun v e' => (f v).Holds A Q e') e := by
  induction p generalizing e with
  | done v => rfl
  | observe next ih => exact forall_congr' fun e' => imp_congr_right fun _ => ih e' e'
  | update c next ih =>
    exact forall_congr' fun e' => imp_congr_right fun _ => and_congr Iff.rfl (ih _)
  | clock next ih => exact forall_congr' fun t => ih t e
  | instant next ih => exact forall_congr' fun t => ih t e
  | sample next ih => exact forall_congr' fun w => ih w e
  | listing next ih =>
    exact forall_congr' fun e' => imp_congr_right fun _ => forall_congr' fun l =>
      imp_congr_right fun _ => ih l e'
  | call c next ih => exact forall_congr' fun r => ih r e
  | await w next ih => exact forall_congr' fun v => imp_congr_right fun _ => ih v e

variable {Q : α → Engine → Prop}

theorem Holds.imp {Q' : α → Engine → Prop} {p : Proc α} (h : p.Holds A Q e)
    (hq : ∀ v e', Q v e' → Q' v e') : p.Holds A Q' e := by
  induction p generalizing e with
  | done v => exact hq v e h
  | observe next ih => exact fun e' he => ih e' (h e' he)
  | update c next ih => exact fun e' he => ⟨(h e' he).1, ih (h e' he).2⟩
  | clock next ih => exact fun t => ih t (h t)
  | instant next ih => exact fun t => ih t (h t)
  | sample next ih => exact fun w => ih w (h w)
  | listing next ih => exact fun e' he l hl => ih l (h e' he l hl)
  | call c next ih => exact fun r => ih r (h r)
  | await w next ih => exact fun v hv => ih v (h v hv)

theorem holds_congr {Q' : α → Engine → Prop} (hq : ∀ v e', Q v e' ↔ Q' v e') {p : Proc α} :
    p.Holds A Q e ↔ p.Holds A Q' e :=
  ⟨fun h => h.imp fun v e' => (hq v e').mp, fun h => h.imp fun v e' => (hq v e').mpr⟩

theorem Holds.later (hq : A.Leaves Q) {p : Proc α} {e' : Engine}
    (h : p.Holds A Q e) (he : A.others e e') : p.Holds A Q e' := by
  induction p with
  | done v => exact hq v _ _ h he
  | observe next ih => exact fun e'' he' => h e'' (A.trans he he')
  | update c next ih => exact fun e'' he' => h e'' (A.trans he he')
  | clock next ih => exact fun t => ih t (h t)
  | instant next ih => exact fun t => ih t (h t)
  | sample next ih => exact fun w => ih w (h w)
  | listing next ih => exact fun e'' he' => h e'' (A.trans he he')
  | call c next ih => exact fun r => ih r (h r)
  | await w next ih => exact fun v hv => ih v (h v hv)

theorem Within.holds {B : Scope} {V : α → Prop} {J : Engine → Prop} (sees : ∀ e, J e → B.sees e)
    (others : ∀ {e e'}, J e → A.others e e' → J e')
    (makes : ∀ e c, J e → B.makes c → A.own e c ∧ J (c.apply e)) {p : Proc α}
    (h : p.Within B V) (he : J e) : p.Holds A (fun v e' => V v ∧ J e') e := by
  induction p generalizing e with
  | done v => exact ⟨h, he⟩
  | observe next ih =>
    intro e' hothers
    have he' := others he hothers
    exact ih e' (h e' (sees e' he')) he'
  | update c next ih =>
    intro e' hothers
    obtain ⟨hown, hj⟩ := makes e' c (others he hothers) h.1
    exact ⟨hown, ih h.2 hj⟩
  | clock next ih => exact fun t => ih t (h t) he
  | instant next ih => exact fun t => ih t (h t) he
  | sample next ih => exact fun w => ih w (h w) he
  | listing next ih => exact fun e' he' l _ => ih l (h l) (others he he')
  | call c next ih => exact fun r => ih r (h.2 r) he
  | await w next ih => exact fun v hv => ih v (h.2 v hv) he

theorem holds_unlessStopped {next : Wait.Verdict → Proc α} {rest : Proc α}
    (hstop : ∀ e', A.others e e' → (next (.error .interrupted)).Holds A Q e')
    (hrest : ∀ e', A.others e e' → rest.Holds A Q e') :
    (Wait.unlessStopped next rest).Holds A Q e := by
  intro e' he
  dsimp only
  split
  · exact hstop e' he
  · exact hrest e' he

theorem holds_poll (hq : A.Leaves Q) {w : Wait}
    {next : Wait.Verdict → Proc α} (h : (Proc.await w next).Holds A Q e) :
    (w.poll next).Holds A Q e := by
  have ends : ∀ v, w.Ends v → ∀ e', A.others e e' → (next v).Holds A Q e' :=
    fun v hv e' he => (h v hv).later hq he
  refine holds_unlessStopped (ends _ (.inl rfl)) fun e' he => ?_
  intro r
  cases hr : w.ofPoll r with
  | some v => simpa only [hr] using ends v (.inr (.inl ⟨r, hr⟩)) e' he
  | none =>
    simp only [hr]
    intro elapsed
    cases helapsed : w.ofElapsed elapsed with
    | some v => simpa only [helapsed] using ends v (.inr (.inr ⟨elapsed, helapsed⟩)) e' he
    | none =>
      simp only [helapsed]
      have again : ∀ e'', A.others e' e'' → (Proc.await w next).Holds A Q e'' :=
        fun e'' he' v hv => ends v hv e'' (A.trans he he')
      exact holds_unlessStopped (fun e'' he' => again e'' he' _ (.inl rfl)) again

section Rules

variable {h : Handle} {c : Change}

@[simp] theorem holds_pure {v : α} : (pure v : Proc α).Holds A Q e ↔ Q v e := Iff.rfl

@[simp] theorem holds_bind' {Q : β → Engine → Prop} {p : Proc α} {f : α → Proc β} :
    (p >>= f).Holds A Q e ↔ p.Holds A (fun v e' => (f v).Holds A Q e') e := holds_bind p f e

@[simp] theorem holds_session {Q : Session → Engine → Prop} :
    (Proc.session h).Holds A Q e ↔ ∀ e', A.others e e' → Q (e'.session h) e' := Iff.rfl

@[simp] theorem holds_engine {Q : Engine → Engine → Prop} :
    Proc.engine.Holds A Q e ↔ ∀ e', A.others e e' → Q e' e' := Iff.rfl

@[simp] theorem holds_now {Q : Int → Engine → Prop} :
    Proc.now.Holds A Q e ↔ ∀ t, Q t e := Iff.rfl

@[simp] theorem holds_change {Q : Unit → Engine → Prop} :
    (Proc.change c).Holds A Q e ↔ ∀ e', A.others e e' → A.own e' c ∧ Q () (c.apply e') := Iff.rfl

@[simp] theorem holds_log {Q : Unit → Engine → Prop} {level event message : String} :
    (Proc.log level event message).Holds A Q e ↔ ∀ e', A.others e e' →
      A.own e' (.log ⟨level, event, message⟩) ∧
        Q () ((Change.log ⟨level, event, message⟩).apply e') := Iff.rfl

end Rules

end Proc

namespace Attempt

/-- The operation keeps to its part of the accord; the values end in `Q` and the faults in `F`. -/
def Holds (A : Accord) (Q : α → Engine → Prop) (F : EngineFault → Engine → Prop) (a : Attempt α)
    (e : Engine) : Prop :=
  a.run.Holds A (fun r e' =>
    match r with
    | .ok v => Q v e'
    | .error fault => F fault e') e

variable {Q : α → Engine → Prop} {F : EngineFault → Engine → Prop}

theorem Holds.imp {Q' : α → Engine → Prop} {F' : EngineFault → Engine → Prop} {a : Attempt α}
    (h : Holds A Q F a e) (hq : ∀ v e', Q v e' → Q' v e')
    (hf : ∀ fault e', F fault e' → F' fault e') : Holds A Q' F' a e := by
  refine Proc.Holds.imp h ?_
  rintro (fault | v) e' he
  · exact hf fault e' he
  · exact hq v e' he

@[simp] theorem holds_pure {v : α} : Holds A Q F (pure v) e ↔ Q v e := Iff.rfl

@[simp] theorem holds_throw {fault : EngineFault} :
    Holds A Q F (throw fault) e ↔ F fault e := Iff.rfl

@[simp] theorem holds_bind {Q : β → Engine → Prop} {a : Attempt α} {f : α → Attempt β} :
    Holds A Q F (a >>= f) e ↔ Holds A (fun v e' => Holds A Q F (f v) e') F a e := by
  rw [Holds, ExceptT.run_bind, Proc.holds_bind', Holds]
  refine Proc.holds_congr ?_
  rintro (fault | v) e' <;> rfl

@[simp] theorem holds_lift {p : Proc α} :
    Holds A Q F (monadLift p) e ↔ p.Holds A Q e :=
  Proc.holds_bind p (fun v => .done (Except.ok v)) e

@[simp] theorem holds_outcome {Q : Except EngineFault α → Engine → Prop} {a : Attempt α} :
    Holds A Q F a.outcome e ↔
      Holds A (fun v => Q (.ok v)) (fun fault => Q (.error fault)) a e := by
  refine (Proc.holds_bind a.run (fun r => .done (Except.ok r)) e).trans ?_
  refine Proc.holds_congr ?_
  rintro (fault | v) e' <;> rfl

@[simp] theorem holds_ofExcept {r : Except EngineFault α} :
    Holds A Q F (ofExcept r) e ↔ (∀ v, r = .ok v → Q v e) ∧
      ∀ fault, r = .error fault → F fault e := by
  cases r <;> simp [ofExcept]

theorem Holds.bind {Q' : β → Engine → Prop} {a : Attempt α} {f : α → Attempt β}
    (h : Holds A Q F a e) (hf : ∀ v e', Q v e' → Holds A Q' F (f v) e') :
    Holds A Q' F (a >>= f) e :=
  holds_bind.mpr (h.imp hf fun _ _ => id)

theorem Holds.map {g : α → β} {Q : β → Engine → Prop} {a : Attempt α}
    (h : Holds A (fun v => Q (g v)) F a e) : Holds A Q F (g <$> a) e := by
  refine (Proc.holds_bind a.run _ e).mpr (Proc.Holds.imp h ?_)
  rintro (fault | v) e' he <;> exact he

theorem holds_forM {γ : Type} {J : Engine → Prop} {f : γ → Attempt PUnit} {l : List γ}
    (hf : ∀ x ∈ l, ∀ e, J e → Holds A (fun _ => J) F (f x) e) (he : J e) :
    Holds A (fun _ => J) F (l.forM f) e := by
  induction l generalizing e with
  | nil => exact he
  | cons x rest ih =>
    show Holds A _ F (f x >>= fun _ => rest.forM f) e
    refine (hf x List.mem_cons_self e he).bind fun _ e' he' => ih ?_ he'
    exact fun y hy => hf y (List.mem_cons_of_mem _ hy)

theorem Within.holds {B : Scope} {V : α → Prop} {G : EngineFault → Prop} {J : Engine → Prop}
    (sees : ∀ e, J e → B.sees e) (others : ∀ {e e'}, J e → A.others e e' → J e')
    (makes : ∀ e c, J e → B.makes c → A.own e c ∧ J (c.apply e)) {a : Attempt α}
    (h : Within B V G a) (he : J e) :
    Holds A (fun v e' => V v ∧ J e') (fun fault e' => G fault ∧ J e') a e := by
  refine (Proc.Within.holds sees others makes h he).imp ?_
  rintro (fault | v) e' he' <;> exact he'

end Attempt

/-- A move of an operation that keeps to its part of the accord: it leaves the engine as it is or
makes a change to it that it may make, and goes on keeping to its part. -/
theorem move_held {Q : α → Engine → Prop} (hq : A.Leaves Q)
    {K : Conduct} (hK : ∀ {s t}, K.meanwhile s t → t = s) {x y : Point α} (h : Move K x y)
    (hx : x.1.Holds A Q x.2.engine) : y.1.Holds A Q y.2.engine ∧
      (y.2.engine = x.2.engine ∨
        ∃ c, A.own x.2.engine c ∧ y.2.engine = c.apply x.2.engine) := by
  cases h with
  | @observe next s => exact ⟨hx _ (A.refl _), .inl rfl⟩
  | @update c next s =>
    obtain ⟨hown, hnext⟩ := hx _ (A.refl _)
    exact ⟨hnext, .inr ⟨c, hown, rfl⟩⟩
  | clock t => exact ⟨hx t, .inl rfl⟩
  | instant t => exact ⟨hx t, .inl rfl⟩
  | sample w => exact ⟨hx w, .inl rfl⟩
  | listing hl => exact ⟨hx _ (A.refl _) _ hl, .inl rfl⟩
  | @call c next s r s' hm =>
    obtain ⟨u, hu, -, rfl⟩ := hm
    obtain rfl := hK hu
    exact ⟨hx r, .inl rfl⟩
  | await => exact ⟨Proc.holds_poll hq hx, .inl rfl⟩

end FlowEngine
