import FlowEngine.Proofs.Execution

/-! # The effects of operations

`Proc.Within` bounds what an operation can do wherever it is run: the changes it makes, the calls it
makes and the values it ends with, provided that the engines it looks at are of a certain kind. An
invariant that these changes and calls keep is kept by the operation (`Proc.Within.assures`). The
rules for `Attempt` keep the values that it ends with apart from its faults.
-/
namespace FlowEngine

/-- Bounds for an operation: the engines that it looks at, its changes and its calls. -/
structure Scope where
  sees : Engine → Prop
  makes : Change → Prop
  calls : ProviderCall → Prop

/-- How a wait ends, in whatever surroundings. -/
def Wait.Ends (w : Wait) (v : Wait.Verdict) : Prop :=
  v = .error .interrupted ∨ (∃ r, w.ofPoll r = some v) ∨ ∃ elapsed, w.ofElapsed elapsed = some v

theorem Conduct.Awaits.ends {K : Conduct} {w : Wait} {s s' : Situation} {v : Wait.Verdict}
    (h : K.Awaits w s v s') : w.Ends v := by
  induction h with
  | stopped => exact .inl rfl
  | settled _ hr => exact .inr (.inl ⟨_, hr⟩)
  | late _ _ he => exact .inr (.inr ⟨_, he⟩)
  | again _ _ ih => exact ih

variable {α β : Type} {K : Conduct} {I : Situation → Prop} {B : Scope}

theorem Conduct.Awaits.keeps {w : Wait} {s s' : Situation} {v : Wait.Verdict}
    (h : K.Awaits w s v s') (hs : I s) (hp : ∀ s', Relation.TransGen (K.Polls w) s s' → I s') :
    I s' := by
  induction h with
  | stopped => exact hs
  | settled hm _ => exact hp _ (.single ⟨_, hm⟩)
  | late hm _ _ => exact hp _ (.single ⟨_, hm⟩)
  | again hpoll _ ih => exact ih (hp _ (.single hpoll)) fun s' h => hp s' (.head hpoll h)

namespace Proc

/-- The operation keeps within its bounds and ends with a value in `V`. -/
def Within (B : Scope) (V : α → Prop) : Proc α → Prop
  | .done v => V v
  | .observe next => ∀ e, B.sees e → (next e).Within B V
  | .update c next => B.makes c ∧ next.Within B V
  | .clock next => ∀ t, (next t).Within B V
  | .instant next => ∀ t, (next t).Within B V
  | .sample next => ∀ w, (next w).Within B V
  | .listing next => ∀ l, (next l).Within B V
  | .call c next => B.calls c ∧ ∀ r, (next r).Within B V
  | .await w next => B.calls (.appRun w.tenant w.run) ∧ ∀ v, w.Ends v → (next v).Within B V

theorem within_bind {V : β → Prop} (p : Proc α) (f : α → Proc β) :
    (p.bind f).Within B V ↔ p.Within B fun v => (f v).Within B V := by
  induction p with
  | done v => rfl
  | observe next ih => exact forall_congr' fun e => imp_congr_right fun _ => ih e
  | update c next ih => exact and_congr Iff.rfl ih
  | clock next ih => exact forall_congr' fun t => ih t
  | instant next ih => exact forall_congr' fun t => ih t
  | sample next ih => exact forall_congr' fun w => ih w
  | listing next ih => exact forall_congr' fun l => ih l
  | call c next ih => exact and_congr Iff.rfl (forall_congr' fun r => ih r)
  | await w next ih =>
    exact and_congr Iff.rfl (forall_congr' fun v => imp_congr_right fun _ => ih v)

theorem Within.mono {B' : Scope} {V V' : α → Prop} (hs : ∀ e, B'.sees e → B.sees e)
    (hm : ∀ c, B.makes c → B'.makes c) (hc : ∀ c, B.calls c → B'.calls c)
    (hv : ∀ v, V v → V' v) {p : Proc α} (h : p.Within B V) : p.Within B' V' := by
  induction p with
  | done v => exact hv v h
  | observe next ih => exact fun e he => ih e (h e (hs e he))
  | update c next ih => exact ⟨hm c h.1, ih h.2⟩
  | clock next ih => exact fun t => ih t (h t)
  | instant next ih => exact fun t => ih t (h t)
  | sample next ih => exact fun w => ih w (h w)
  | listing next ih => exact fun l => ih l (h l)
  | call c next ih => exact ⟨hc c h.1, fun r => ih r (h.2 r)⟩
  | await w next ih => exact ⟨hc _ h.1, fun v hv => ih v (h.2 v hv)⟩

theorem Within.imp {V V' : α → Prop} {p : Proc α} (h : p.Within B V) (hv : ∀ v, V v → V' v) :
    p.Within B V' :=
  h.mono (fun _ => id) (fun _ => id) (fun _ => id) hv

theorem within_congr {V V' : α → Prop} (hv : ∀ v, V v ↔ V' v) {p : Proc α} :
    p.Within B V ↔ p.Within B V' :=
  ⟨fun h => h.imp fun v => (hv v).mp, fun h => h.imp fun v => (hv v).mpr⟩

theorem Within.bind {V : α → Prop} {V' : β → Prop} {p : Proc α} {f : α → Proc β}
    (h : p.Within B V) (hf : ∀ v, V v → (f v).Within B V') : (p >>= f).Within B V' :=
  (within_bind p f).mpr (h.imp hf)

theorem Assures.imp {Q Q' : α → Situation → Prop} {p : Proc α} {s : Situation}
    (h : p.Assures K I Q s) (hq : ∀ v s', Q v s' → Q' v s') : p.Assures K I Q' s :=
  h.mono (fun _ => id) hq

theorem assures_congr {Q Q' : α → Situation → Prop} (hq : ∀ v s', Q v s' ↔ Q' v s') {p : Proc α}
    {s : Situation} : p.Assures K I Q s ↔ p.Assures K I Q' s :=
  ⟨fun h => h.imp fun v s' => (hq v s').mp, fun h => h.imp fun v s' => (hq v s').mpr⟩

theorem Assures.bind {Q : α → Situation → Prop} {Q' : β → Situation → Prop} {p : Proc α}
    {f : α → Proc β} {s : Situation} (h : p.Assures K I Q s)
    (hf : ∀ v s', Q v s' → (f v).Assures K I Q' s') : (p >>= f).Assures K I Q' s :=
  (assures_bind p f s).mpr (h.imp hf)

/-- An invariant that the changes and calls of an operation keep is kept by the operation. -/
theorem Within.assures {V : α → Prop} {J : Situation → Prop}
    (sees : ∀ s, J s → B.sees s.engine) (makes : ∀ s c, J s → B.makes c → J (s.change c))
    (calls : ∀ s c r s', J s → B.calls c → K.Meets s c r s' → J s') {p : Proc α}
    {s : Situation} (h : p.Within B V) (hs : J s) :
    p.Assures K J (fun v s' => V v ∧ J s') s := by
  induction p generalizing s with
  | done v => exact ⟨h, hs⟩
  | observe next ih => exact ih _ (h _ (sees s hs)) hs
  | update c next ih =>
    have hc := makes s c hs h.1
    exact ⟨hc, ih h.2 hc⟩
  | clock next ih => exact fun t => ih t (h t) hs
  | instant next ih => exact fun t => ih t (h t) hs
  | sample next ih => exact fun w => ih w (h w) hs
  | listing next ih => exact fun l _ => ih l (h l) hs
  | call c next ih =>
    intro r s' hm
    have hc := calls s c r s' hs h.1 hm
    exact ⟨hc, ih r (h.2 r) hc⟩
  | await w next ih =>
    have polled : ∀ {a b}, K.Polls w a b → J a → J b :=
      fun ⟨r, hm⟩ ha => calls _ _ r _ ha h.1 hm
    have kept : ∀ s', Relation.TransGen (K.Polls w) s s' → J s' := by
      intro s' hp
      induction hp with
      | single hp => exact polled hp hs
      | tail _ hp ih => exact polled hp ih
    exact ⟨kept, fun v s' ha => ih v (h.2 v ha.ends) (ha.keeps hs kept)⟩

theorem within_unbounded (p : Proc α) :
    p.Within ⟨fun _ => True, fun _ => True, fun _ => True⟩ fun _ => True := by
  induction p with
  | done v => trivial
  | observe next ih => exact fun e _ => ih e
  | update c next ih => exact ⟨trivial, ih⟩
  | clock next ih => exact ih
  | instant next ih => exact ih
  | sample next ih => exact ih
  | listing next ih => exact ih
  | call c next ih => exact ⟨trivial, ih⟩
  | await w next ih => exact ⟨trivial, fun v _ => ih v⟩

theorem assures_always {J : Situation → Prop} (makes : ∀ s c, J s → J (s.change c))
    (calls : ∀ s c r s', J s → K.Meets s c r s' → J s') (p : Proc α) {s : Situation} (hs : J s) :
    p.Assures K J (fun _ => J) s :=
  ((within_unbounded p).assures (fun _ _ => trivial) (fun _ _ h _ => makes _ _ h)
    (fun _ _ _ _ h _ hm => calls _ _ _ _ h hm) hs).mono (fun _ => id) fun _ _ h => h.2

theorem Assures.and {Q Q' : α → Situation → Prop} {I' : Situation → Prop} {p : Proc α}
    {s : Situation} (h : p.Assures K I Q s) (h' : p.Assures K I' Q' s) :
    p.Assures K (fun s => I s ∧ I' s) (fun v s => Q v s ∧ Q' v s) s := by
  induction p generalizing s with
  | done v => exact ⟨h, h'⟩
  | observe next ih => exact ih _ h h'
  | update c next ih => exact ⟨⟨h.1, h'.1⟩, ih h.2 h'.2⟩
  | clock next ih => exact fun t => ih t (h t) (h' t)
  | instant next ih => exact fun t => ih t (h t) (h' t)
  | sample next ih => exact fun w => ih w (h w) (h' w)
  | listing next ih => exact fun l hl => ih l (h l hl) (h' l hl)
  | call c next ih =>
    intro r s' hm
    obtain ⟨hi, hnext⟩ := h r s' hm
    obtain ⟨hi', hnext'⟩ := h' r s' hm
    exact ⟨⟨hi, hi'⟩, ih r hnext hnext'⟩
  | await w next ih =>
    exact ⟨fun s' hp => ⟨h.1 s' hp, h'.1 s' hp⟩, fun v s' ha => ih v (h.2 v s' ha) (h'.2 v s' ha)⟩

theorem assures_forall {ι : Type} {Q : ι → α → Situation → Prop} {p : Proc α} {s : Situation}
    (hp : p.Assures K I (fun _ _ => True) s) (h : ∀ i, p.Assures K I (Q i) s) :
    p.Assures K I (fun v s => ∀ i, Q i v s) s := by
  induction p generalizing s with
  | done v => exact h
  | observe next ih => exact ih _ hp h
  | update c next ih => exact ⟨hp.1, ih hp.2 fun i => (h i).2⟩
  | clock next ih => exact fun t => ih t (hp t) fun i => h i t
  | instant next ih => exact fun t => ih t (hp t) fun i => h i t
  | sample next ih => exact fun w => ih w (hp w) fun i => h i w
  | listing next ih => exact fun l hl => ih l (hp l hl) fun i => h i l hl
  | call c next ih =>
    exact fun r s' hm => ⟨(hp r s' hm).1, ih r (hp r s' hm).2 fun i => (h i r s' hm).2⟩
  | await w next ih =>
    exact ⟨hp.1, fun v s' ha => ih v (hp.2 v s' ha) fun i => (h i).2 v s' ha⟩

theorem Assures.throughout {Q : α → Situation → Prop} {p : Proc α} {s : Situation} (hs : I s)
    (h : p.Assures K I Q s) : p.Assures K I (fun v s' => I s' ∧ Q v s') s := by
  induction p generalizing s with
  | done v => exact ⟨hs, h⟩
  | observe next ih => exact ih _ hs h
  | update c next ih => exact ⟨h.1, ih h.1 h.2⟩
  | clock next ih => exact fun t => ih t hs (h t)
  | instant next ih => exact fun t => ih t hs (h t)
  | sample next ih => exact fun w => ih w hs (h w)
  | listing next ih => exact fun l hl => ih l hs (h l hl)
  | call c next ih =>
    intro r s' hm
    obtain ⟨hi, hnext⟩ := h r s' hm
    exact ⟨hi, ih r hi hnext⟩
  | await w next ih => exact ⟨h.1, fun v s' ha => ih v (ha.keeps hs h.1) (h.2 v s' ha)⟩

section Rules

variable {Q : α → Situation → Prop} {V : α → Prop} {s : Situation}

@[simp] theorem assures_pure {v : α} : (pure v : Proc α).Assures K I Q s ↔ Q v s := Iff.rfl

@[simp] theorem assures_bind' {Q : β → Situation → Prop} {p : Proc α} {f : α → Proc β} :
    (p >>= f).Assures K I Q s ↔ p.Assures K I (fun v s' => (f v).Assures K I Q s') s :=
  assures_bind p f s

@[simp] theorem assures_session {Q : Session → Situation → Prop} {h : Handle} :
    (Proc.session h).Assures K I Q s ↔ Q (s.engine.session h) s := Iff.rfl

@[simp] theorem assures_engine {Q : Engine → Situation → Prop} :
    Proc.engine.Assures K I Q s ↔ Q s.engine s := Iff.rfl

@[simp] theorem assures_now {Q : Int → Situation → Prop} :
    Proc.now.Assures K I Q s ↔ ∀ t, Q t s := Iff.rfl

@[simp] theorem assures_stopwatch {Q : Nat → Situation → Prop} :
    Proc.stopwatch.Assures K I Q s ↔ ∀ t, Q t s := Iff.rfl

@[simp] theorem assures_word {Q : UInt64 → Situation → Prop} :
    Proc.word.Assures K I Q s ↔ ∀ w, Q w s := Iff.rfl

@[simp] theorem assures_listed {Q : List Handle → Situation → Prop} :
    Proc.listed.Assures K I Q s ↔ ∀ l, l.Perm s.engine.stored → Q l s := Iff.rfl

@[simp] theorem assures_change {Q : Unit → Situation → Prop} {c : Change} :
    (Proc.change c).Assures K I Q s ↔ I (s.change c) ∧ Q () (s.change c) := Iff.rfl

@[simp] theorem assures_log {Q : Unit → Situation → Prop} {level event message : String} :
    (Proc.log level event message).Assures K I Q s ↔
      I (s.change (.log ⟨level, event, message⟩)) ∧
        Q () (s.change (.log ⟨level, event, message⟩)) := Iff.rfl

@[simp] theorem assures_ask {c : ProviderCall} {Q : c.Outcome → Situation → Prop} :
    (Proc.ask c).Assures K I Q s ↔ ∀ r s', K.Meets s c r s' → I s' ∧ Q r s' := Iff.rfl

@[simp] theorem within_pure {v : α} : (pure v : Proc α).Within B V ↔ V v := Iff.rfl

@[simp] theorem within_bind' {V : β → Prop} {p : Proc α} {f : α → Proc β} :
    (p >>= f).Within B V ↔ p.Within B fun v => (f v).Within B V := within_bind p f

@[simp] theorem within_session {V : Session → Prop} {h : Handle} :
    (Proc.session h).Within B V ↔ ∀ e, B.sees e → V (e.session h) := Iff.rfl

@[simp] theorem within_engine {V : Engine → Prop} :
    Proc.engine.Within B V ↔ ∀ e, B.sees e → V e := Iff.rfl

@[simp] theorem within_now {V : Int → Prop} : Proc.now.Within B V ↔ ∀ t, V t := Iff.rfl

@[simp] theorem within_stopwatch {V : Nat → Prop} :
    Proc.stopwatch.Within B V ↔ ∀ t, V t := Iff.rfl

@[simp] theorem within_word {V : UInt64 → Prop} : Proc.word.Within B V ↔ ∀ w, V w := Iff.rfl

@[simp] theorem within_listed {V : List Handle → Prop} :
    Proc.listed.Within B V ↔ ∀ l, V l := Iff.rfl

@[simp] theorem within_change {V : Unit → Prop} {c : Change} :
    (Proc.change c).Within B V ↔ B.makes c ∧ V () := Iff.rfl

@[simp] theorem within_log {V : Unit → Prop} {level event message : String} :
    (Proc.log level event message).Within B V ↔
      B.makes (.log ⟨level, event, message⟩) ∧ V () := Iff.rfl

@[simp] theorem within_ask {c : ProviderCall} {V : c.Outcome → Prop} :
    (Proc.ask c).Within B V ↔ B.calls c ∧ ∀ r, V r := Iff.rfl

end Rules

end Proc

namespace Attempt

/-- Every point keeps `I`; the values end in `Q` and the faults in `F`. -/
def Assures (K : Conduct) (I : Situation → Prop) (Q : α → Situation → Prop)
    (F : EngineFault → Situation → Prop) (a : Attempt α) (s : Situation) : Prop :=
  a.run.Assures K I (fun r s' =>
    match r with
    | .ok v => Q v s'
    | .error fault => F fault s') s

/-- The operation keeps within its bounds; the values are in `V` and the faults in `F`. -/
def Within (B : Scope) (V : α → Prop) (F : EngineFault → Prop) (a : Attempt α) : Prop :=
  a.run.Within B fun r =>
    match r with
    | .ok v => V v
    | .error fault => F fault

variable {Q : α → Situation → Prop} {V : α → Prop} {F : EngineFault → Situation → Prop}
  {G : EngineFault → Prop} {s : Situation}

theorem Assures.mono {I' : Situation → Prop} {Q' : α → Situation → Prop}
    {F' : EngineFault → Situation → Prop} (hi : ∀ s, I s → I' s) (hq : ∀ v s, Q v s → Q' v s)
    (hf : ∀ f s, F f s → F' f s) {a : Attempt α} (h : Assures K I Q F a s) :
    Assures K I' Q' F' a s := by
  refine Proc.Assures.mono hi ?_ h
  rintro (fault | v) s' hs
  · exact hf fault s' hs
  · exact hq v s' hs

theorem Assures.imp {Q' : α → Situation → Prop} {F' : EngineFault → Situation → Prop}
    {a : Attempt α} (h : Assures K I Q F a s) (hq : ∀ v s', Q v s' → Q' v s')
    (hf : ∀ fault s', F fault s' → F' fault s') : Assures K I Q' F' a s :=
  h.mono (fun _ => id) hq hf

theorem Assures.proc {J : Situation → Prop} {a : Attempt α}
    (h : Assures K I (fun _ => J) (fun _ => J) a s) : a.run.Assures K I (fun _ => J) s := by
  refine Proc.Assures.imp h ?_
  rintro (fault | v) s' hs <;> exact hs

theorem Within.mono {V' : α → Prop} {G' : EngineFault → Prop} {B' : Scope}
    (hs : ∀ e, B'.sees e → B.sees e) (hm : ∀ c, B.makes c → B'.makes c)
    (hc : ∀ c, B.calls c → B'.calls c) (hv : ∀ v, V v → V' v) (hf : ∀ f, G f → G' f)
    {a : Attempt α} (h : Within B V G a) : Within B' V' G' a := by
  refine Proc.Within.mono hs hm hc ?_ h
  rintro (fault | v) h
  · exact hf fault h
  · exact hv v h

theorem Within.imp {V' : α → Prop} {a : Attempt α} (h : Within B V G a) (hv : ∀ v, V v → V' v) :
    Within B V' G a :=
  h.mono (fun _ => id) (fun _ => id) (fun _ => id) hv fun _ => id

theorem Within.proc {a : Attempt α} (h : Within B V G a) : a.run.Within B fun _ => True :=
  Proc.Within.imp h fun _ _ => trivial

@[simp] theorem assures_pure {v : α} : Assures K I Q F (pure v) s ↔ Q v s := Iff.rfl

@[simp] theorem assures_throw {fault : EngineFault} :
    Assures K I Q F (throw fault) s ↔ F fault s := Iff.rfl

@[simp] theorem assures_bind {Q : β → Situation → Prop} {a : Attempt α} {f : α → Attempt β} :
    Assures K I Q F (a >>= f) s ↔ Assures K I (fun v s' => Assures K I Q F (f v) s') F a s := by
  rw [Assures, ExceptT.run_bind, Proc.assures_bind', Assures]
  refine Proc.assures_congr ?_
  rintro (fault | v) s' <;> rfl

theorem Assures.bind {Q' : β → Situation → Prop} {a : Attempt α} {f : α → Attempt β}
    (h : Assures K I Q F a s) (hf : ∀ v s', Q v s' → Assures K I Q' F (f v) s') :
    Assures K I Q' F (a >>= f) s :=
  assures_bind.mpr (h.imp hf fun _ _ => id)

@[simp] theorem assures_lift {p : Proc α} :
    Assures K I Q F (monadLift p) s ↔ p.Assures K I Q s :=
  Proc.assures_bind p (fun v => .done (Except.ok v)) s

@[simp] theorem assures_outcome {Q : Except EngineFault α → Situation → Prop} {a : Attempt α} :
    Assures K I Q F a.outcome s ↔
      Assures K I (fun v => Q (.ok v)) (fun fault => Q (.error fault)) a s := by
  refine (Proc.assures_bind a.run (fun r => .done (Except.ok r)) s).trans ?_
  refine Proc.assures_congr ?_
  rintro (fault | v) s' <;> rfl

@[simp] theorem assures_ofExcept {r : Except EngineFault α} :
    Assures K I Q F (ofExcept r) s ↔ (∀ v, r = .ok v → Q v s) ∧
      ∀ fault, r = .error fault → F fault s := by
  cases r <;> simp [ofExcept]

@[simp] theorem assures_ask {c : ProviderCall} {Q : c.Answer → Situation → Prop} :
    Assures K I Q F (ask c) s ↔ ∀ (r : c.Outcome) s', K.Meets s c r s' → I s' ∧
      (∀ v, r = .ok v → Q v s') ∧ ∀ fault, r = .error fault → F (.provider fault) s' := by
  rw [ask, assures_bind, assures_lift, Proc.assures_ask]
  refine forall_congr' fun r => forall_congr' fun s' => imp_congr_right fun _ =>
    and_congr Iff.rfl ?_
  cases r <;> simp

theorem assures_forM {γ : Type} {J : List γ → Situation → Prop} {f : γ → Attempt PUnit}
    (hf : ∀ x rest s, J (x :: rest) s → Assures K I (fun _ s' => J rest s') F (f x) s)
    (l : List γ) (hs : J l s) : Assures K I (fun _ s' => J [] s') F (l.forM f) s := by
  induction l generalizing s with
  | nil => exact hs
  | cons x rest ih =>
    show Assures K I _ F (f x >>= fun _ => rest.forM f) s
    exact (hf x rest s hs).bind fun _ _ => ih

@[simp] theorem within_pure {v : α} : Within B V G (pure v) ↔ V v := Iff.rfl

@[simp] theorem within_throw {fault : EngineFault} :
    Within B V G (throw fault : Attempt α) ↔ G fault := Iff.rfl

@[simp] theorem within_bind {V : β → Prop} {a : Attempt α} {f : α → Attempt β} :
    Within B V G (a >>= f) ↔ Within B (fun v => Within B V G (f v)) G a := by
  rw [Within, ExceptT.run_bind, Proc.within_bind', Within]
  refine Proc.within_congr ?_
  rintro (fault | v) <;> rfl

theorem Within.bind {V' : β → Prop} {a : Attempt α} {f : α → Attempt β} (h : Within B V G a)
    (hf : ∀ v, V v → Within B V' G (f v)) : Within B V' G (a >>= f) :=
  within_bind.mpr (h.imp hf)

@[simp] theorem within_lift {p : Proc α} : Within B V G (monadLift p) ↔ p.Within B V :=
  Proc.within_bind p fun v => .done (Except.ok v)

@[simp] theorem within_outcome {V : Except EngineFault α → Prop} {a : Attempt α} :
    Within B V G a.outcome ↔ Within B (fun v => V (.ok v)) (fun fault => V (.error fault)) a := by
  refine (Proc.within_bind a.run fun r => .done (Except.ok r)).trans ?_
  refine Proc.within_congr ?_
  rintro (fault | v) <;> rfl

@[simp] theorem within_ofExcept {r : Except EngineFault α} :
    Within B V G (ofExcept r) ↔ (∀ v, r = .ok v → V v) ∧ ∀ fault, r = .error fault → G fault := by
  cases r <;> simp [ofExcept]

@[simp] theorem within_ask {c : ProviderCall} {V : c.Answer → Prop} :
    Within B V G (ask c) ↔ B.calls c ∧ (∀ v, V v) ∧ ∀ fault, G (.provider fault) := by
  rw [ask, within_bind, within_lift, Proc.within_ask]
  refine and_congr Iff.rfl ⟨fun h => ⟨fun v => h (.ok v), fun fault => h (.error fault)⟩, ?_⟩
  rintro h (fault | v)
  · exact h.2 fault
  · exact h.1 v

@[simp] theorem within_await {V : String → Prop} {w : Wait} :
    Within B V G (await w) ↔ B.calls (.appRun w.tenant w.run) ∧
      (∀ v, w.Ends (.ok v) → V v) ∧ ∀ fault, w.Ends (.error fault) → G fault := by
  refine and_congr Iff.rfl
    ⟨fun h => ⟨fun v => h (.ok v), fun fault => h (.error fault)⟩, ?_⟩
  rintro h (fault | v) hv
  · exact h.2 fault hv
  · exact h.1 v hv

theorem within_forM {γ : Type} {f : γ → Attempt PUnit} {l : List γ}
    (hf : ∀ x ∈ l, Within B (fun _ => True) G (f x)) :
    Within B (fun _ => True) G (l.forM f) := by
  induction l with
  | nil => trivial
  | cons x rest ih =>
    show Within B _ G (f x >>= fun _ => rest.forM f)
    refine (hf x List.mem_cons_self).bind fun _ _ => ih ?_
    exact fun y hy => hf y (List.mem_cons_of_mem _ hy)

theorem Within.assures {J : Situation → Prop} (sees : ∀ s, J s → B.sees s.engine)
    (makes : ∀ s c, J s → B.makes c → J (s.change c))
    (calls : ∀ s c r s', J s → B.calls c → K.Meets s c r s' → J s') {a : Attempt α}
    (h : Within B V G a) (hs : J s) :
    Assures K J (fun v s' => V v ∧ J s') (fun fault s' => G fault ∧ J s') a s := by
  refine (Proc.Within.assures sees makes calls h hs).imp ?_
  rintro (fault | v) s' hs' <;> exact hs'

end Attempt

end FlowEngine
