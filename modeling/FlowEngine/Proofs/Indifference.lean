import FlowEngine.Proofs.Pairing

/-! # The order of declarations makes no difference

An engine is installed in some outside, which sets the clocks, draws the words and answers the calls
as it likes, with a memory of its own. Requests are served there one after another. Whichever order
the steps and the inputs of a flow are declared in, the requests get the same replies, the same
calls are made in the same order, the journal has the same records, and the same can be seen of the
sessions.
-/
namespace FlowEngine

open Engine (Alike Later)

/-- What is outside of an engine: clocks, chance, the provider, and who may stop the engine. -/
structure Outside (ω : Type) where
  clock : ω → Int × ω
  instant : ω → Nat × ω
  sample : ω → UInt64 × ω
  /-- In which order the store lists the sessions that it has. -/
  listing : List Handle → ω → List Handle × ω
  sleep : Nat → ω → ω
  call : (c : ProviderCall) → Run ω c.Outcome
  /-- Whether the engine has been told to stop. -/
  stopped : ω → Bool

/-- An engine, the calls that it has made, the last one first, and what has become of the
outside. -/
structure Installation (ω : Type) where
  engine : Engine
  calls : List ProviderCall
  outside : ω

abbrev Exchange := (q : Request) × q.Reply

namespace Outside

variable {ω : Type}

/-- While the outside is at work, the engine may be told to stop. -/
def after (o : Outside ω) (w : Installation ω) (x : ω) : Installation ω where
  engine := { w.engine with stopping := o.stopped x }
  calls := w.calls
  outside := x

def surroundings (o : Outside ω) : Surroundings (Installation ω) where
  engine w := w.engine
  setEngine e w := { w with engine := e }
  clock w := ((o.clock w.outside).1, { w with outside := (o.clock w.outside).2 })
  instant w := ((o.instant w.outside).1, { w with outside := (o.instant w.outside).2 })
  sample w := ((o.sample w.outside).1, { w with outside := (o.sample w.outside).2 })
  listing w := ((o.listing w.engine.stored w.outside).1,
    { w with outside := (o.listing w.engine.stored w.outside).2 })
  sleep n w := o.after w (o.sleep n w.outside)
  call c w := (o.call c w.outside).map fun r => (r.1, o.after { w with calls := c :: w.calls } r.2)

/-- Serves requests in turn; `patience` says how many polls a wait may take. -/
def serveAll (o : Outside ω) (f : Facilities) (patience : Wait → Nat) :
    List Request → Run (Installation ω) (List Exchange)
  | [], w => some ([], w)
  | q :: rest, w => do
    let (r, w) ← (q.proc f).run o.surroundings patience w
    let (replies, w) ← serveAll o f patience rest w
    some (⟨q, r⟩ :: replies, w)

end Outside

structure SessionSight where
  id : String
  tenant : String
  state : SessionState
  run : Nat
  values : InputBook × InputBook × Nat
  /-- The reports of the steps, in their turns. -/
  reports : List StepReport
  parameters : Parameters

def Session.sight (s : Session) : SessionSight where
  id := s.id
  tenant := s.tenant
  state := s.state
  run := s.generation
  values := s.held
  reports := s.graph.inOrder.map StepExecution.report
  parameters := s.parameters

/-- What has come of serving requests. -/
structure Service (ω : Type) where
  replies : List Exchange
  calls : List ProviderCall
  journal : List LogRecord
  stored : List Handle
  sessions : List SessionSight
  outside : ω

namespace Installation

variable {ω : Type}

def opening (flows : List Flow) (logging : Bool) (x : ω) : Installation ω where
  engine := (Story.opening flows logging).engine
  calls := []
  outside := x

def service (replies : List Exchange) (w : Installation ω) : Service ω where
  replies := replies
  calls := w.calls
  journal := w.engine.journal
  stored := w.engine.stored
  sessions := w.engine.sessions.map Session.sight
  outside := w.outside

/-- Installations that differ in the order of declarations only. -/
structure Alike (w w' : Installation ω) : Prop where
  engine : w.engine.Alike w'.engine
  calls : w.calls = w'.calls
  outside : w.outside = w'.outside

end Installation

theorem Session.Alike.sight {s s' : Session} (h : s.Alike s') : s.sight = s'.sight := by
  have hreports : s.graph.inOrder.map StepExecution.report =
      s'.graph.inOrder.map StepExecution.report := by
    have hsame := congrArg (List.map fun F : StepFace => F.node.report) h.inOrder
    rw [List.map_map, List.map_map] at hsame
    exact hsame
  rw [Session.sight, Session.sight, h.id, h.tenant, h.state, h.generation, h.held, hreports,
    h.parameters]

theorem Installation.Alike.service {ω : Type} {w w' : Installation ω} (h : w.Alike w')
    (replies : List Exchange) : w.service replies = w'.service replies := by
  have hsessions : w.engine.sessions.map Session.sight = w'.engine.sessions.map Session.sight := by
    refine List.ext_getElem (by rw [List.length_map, List.length_map, h.engine.length]) ?_
    intro k hk hk'
    have hsession : ∀ {e : Engine} (hk : k < e.sessions.length), e.session k = e.sessions[k] := by
      intro e hk
      rw [Engine.session, List.getElem?_eq_getElem hk, Option.getD_some]
    rw [List.length_map] at hk hk'
    rw [List.getElem_map, List.getElem_map, ← hsession hk, ← hsession hk']
    exact (h.engine.sessions k).sight
  rw [Installation.service, Installation.service, h.calls, h.engine.journal, h.engine.stored,
    hsessions, h.outside]

namespace Outside

variable {ω α : Type} {o : Outside ω} {w w' u u' : Installation ω}

structure Leads (w w' u u' : Installation ω) : Prop where
  engine : Later w.engine w'.engine u.engine u'.engine
  calls : u.calls = u'.calls
  outside : u.outside = u'.outside

theorem Leads.refl (ha : w.Alike w') : Leads w w' w w' :=
  ⟨.refl ha.engine, ha.calls, ha.outside⟩

theorem Leads.alike (h : Leads w w' u u') : u.Alike u' :=
  ⟨h.engine.alike, h.calls, h.outside⟩

theorem Leads.trans {v v' : Installation ω} (h : Leads w w' u u') (h' : Leads u u' v v') :
    Leads w w' v v' :=
  ⟨h.engine.trans h'.engine, h'.calls, h'.outside⟩

/-- Two runs end with the same value, in installations that are alike, or neither of them ends. -/
inductive Agree (w w' : Installation ω) :
    Option (α × Installation ω) → Option (α × Installation ω) → Prop where
  | endless : Agree w w' none none
  | ends {v u u'} : Leads w w' u u' → Agree w w' (some (v, u)) (some (v, u'))

theorem Agree.eq_or {r r' : Option (α × Installation ω)} (h : Agree w w' r r') :
    (r = none ∧ r' = none) ∨ ∃ v u u', r = some (v, u) ∧ r' = some (v, u') ∧ Leads w w' u u' := by
  cases h with
  | endless => exact .inl ⟨rfl, rfl⟩
  | ends hl => exact .inr ⟨_, _, _, rfl, rfl, hl⟩

theorem Agree.after {r r' : Option (α × Installation ω)} (h : Leads w w' u u')
    (hr : Agree u u' r r') : Agree w w' r r' := by
  cases hr with
  | endless => exact .endless
  | ends hl => exact .ends (h.trans hl)

theorem read_alike (ha : w.Alike w') {β : Type} (read : ω → β × ω) :
    (read w.outside).1 = (read w'.outside).1 ∧
      Leads w w' { w with outside := (read w.outside).2 }
        { w' with outside := (read w'.outside).2 } := by
  constructor
  · rw [ha.outside]
  · refine ⟨.refl ha.engine, ha.calls, ?_⟩
    rw [ha.outside]

theorem instant_alike (ha : w.Alike w') :
    (o.surroundings.instant w).1 = (o.surroundings.instant w').1 ∧
      Leads w w' (o.surroundings.instant w).2 (o.surroundings.instant w').2 :=
  read_alike ha o.instant

theorem leads_after (ha : w.Alike w') (x : ω) : Leads w w' (o.after w x) (o.after w' x) := by
  obtain ⟨hregistry, hlength, hsessions, hstored, hsweeping, -, hlogging, hjournal⟩ := ha.engine
  refine ⟨⟨?_, .refl w.engine, .refl w'.engine⟩, ha.calls, rfl⟩
  exact ⟨hregistry, hlength, hsessions, hstored, hsweeping, rfl, hlogging, hjournal⟩

theorem leads_sleep (ha : w.Alike w') (n : Nat) :
    Leads w w' (o.surroundings.sleep n w) (o.surroundings.sleep n w') := by
  simp only [surroundings, ha.outside]
  exact leads_after ha _

theorem pause_agree (ha : w.Alike w') (slices : List Nat) :
    (o.surroundings.pause slices w).1 = (o.surroundings.pause slices w').1 ∧
      Leads w w' (o.surroundings.pause slices w).2 (o.surroundings.pause slices w').2 := by
  induction slices generalizing w w' with
  | nil => exact ⟨congrArg not ha.engine.stopping, .refl ha⟩
  | cons slice rest ih =>
    have hstopping : (o.surroundings.engine w).stopping = (o.surroundings.engine w').stopping :=
      ha.engine.stopping
    rw [Surroundings.pause, Surroundings.pause, hstopping]
    split
    · exact ⟨rfl, .refl ha⟩
    · have hslept := leads_sleep (o := o) ha slice
      obtain ⟨hfirst, hled⟩ := ih hslept.alike
      exact ⟨hfirst, hslept.trans hled⟩

theorem call_agree (ha : w.Alike w') (c : ProviderCall) :
    Agree w w' (o.surroundings.call c w) (o.surroundings.call c w') := by
  have hcalls : c :: w.calls = c :: w'.calls := congrArg _ ha.calls
  have hmade : Installation.Alike { w with calls := c :: w.calls }
      { w' with calls := c :: w'.calls } := ⟨ha.engine, hcalls, ha.outside⟩
  simp only [surroundings, ha.outside]
  cases o.call c w'.outside with
  | none => exact .endless
  | some r =>
    have hled := leads_after (o := o) hmade r.2
    exact .ends ⟨hled.engine, hled.calls, hled.outside⟩

theorem await_agree (ha : w.Alike w') (wait : Wait) (started polls : Nat) :
    Agree w w' (o.surroundings.await wait started polls w)
      (o.surroundings.await wait started polls w') := by
  induction polls generalizing w w' with
  | zero => exact .endless
  | succ polls ih =>
    have hstopping : (o.surroundings.engine w).stopping = (o.surroundings.engine w').stopping :=
      ha.engine.stopping
    rw [Surroundings.await, Surroundings.await, hstopping]
    split
    · exact .ends (.refl ha)
    · rcases (call_agree (o := o) ha (.appRun wait.tenant wait.run)).eq_or with
        ⟨hr, hr'⟩ | ⟨result, u, u', hr, hr', hcalled⟩
      · rw [hr, hr']
        exact .endless
      · rw [hr, hr']
        dsimp only
        cases wait.ofPoll result with
        | some verdict => exact .ends hcalled
        | none =>
          obtain ⟨htime, hled⟩ := instant_alike (o := o) hcalled.alike
          have hread := hcalled.trans hled
          dsimp only
          rw [htime]
          cases wait.ofElapsed ((o.surroundings.instant u').1 - started) with
          | some verdict => exact .ends hread
          | none =>
            dsimp only
            obtain ⟨hfirst, hled⟩ :=
              pause_agree (o := o) hread.alike (pauseSlices wait.interval)
            generalize o.surroundings.pause (pauseSlices wait.interval)
              (o.surroundings.instant u).2 = paused at hfirst hled ⊢
            generalize o.surroundings.pause (pauseSlices wait.interval)
              (o.surroundings.instant u').2 = paused' at hfirst hled ⊢
            obtain ⟨undisturbed, v⟩ := paused
            obtain ⟨_, v'⟩ := paused'
            obtain rfl : undisturbed = _ := hfirst
            have hpaused := hread.trans hled
            cases undisturbed with
            | false => exact .ends hpaused
            | true => exact (ih hpaused.alike).after hpaused

theorem run_agree {p p' : Proc α} (hp : Proc.Paired w.engine w'.engine p p') (ha : w.Alike w')
    (patience : Wait → Nat) :
    Agree w w' (p.run o.surroundings patience w) (p'.run o.surroundings patience w') := by
  -- by induction on the pairing: the engines of the installations are those that it is about
  generalize he : w.engine = e at hp
  generalize he' : w'.engine = e' at hp
  induction hp generalizing w w' with
  | done v => exact .ends (.refl ha)
  | observe _ ih =>
    subst he he'
    exact ih ha rfl rfl
  | @update e e' c c' next next' hc _ ih =>
    subst he he'
    have hled : Leads w w' { w with engine := c.apply w.engine }
        { w' with engine := c'.apply w'.engine } := ⟨.apply hc, ha.calls, ha.outside⟩
    exact (ih hled.alike rfl rfl).after hled
  | @clock e e' next next' _ ih =>
    obtain ⟨htime, hled⟩ := read_alike ha o.clock
    show Agree w w' ((next (o.clock w.outside).1).run o.surroundings patience _) _
    rw [htime]
    exact (ih _ hled.alike he he').after hled
  | @instant e e' next next' _ ih =>
    obtain ⟨htime, hled⟩ := read_alike ha o.instant
    show Agree w w' ((next (o.instant w.outside).1).run o.surroundings patience _) _
    rw [htime]
    exact (ih _ hled.alike he he').after hled
  | @sample e e' next next' _ ih =>
    obtain ⟨hword, hled⟩ := read_alike ha o.sample
    show Agree w w' ((next (o.sample w.outside).1).run o.surroundings patience _) _
    rw [hword]
    exact (ih _ hled.alike he he').after hled
  | @listing e e' next next' _ ih =>
    obtain ⟨hlisted, hled⟩ := read_alike ha (o.listing w'.engine.stored)
    show Agree w w' ((next (o.listing w.engine.stored w.outside).1).run o.surroundings patience
      { w with outside := (o.listing w.engine.stored w.outside).2 }) _
    rw [ha.engine.stored, hlisted]
    exact (ih _ hled.alike he he').after hled
  | @call e e' c next next' _ ih =>
    subst he he'
    rw [Proc.run, Proc.run]
    rcases (call_agree (o := o) ha c).eq_or with ⟨hr, hr'⟩ | ⟨result, u, u', hr, hr', hled⟩
    · rw [hr, hr']
      exact .endless
    · rw [hr, hr']
      exact (ih result _ _ hled.engine hled.alike rfl rfl).after hled
  | @await e e' wait next next' _ ih =>
    subst he he'
    obtain ⟨htime, hread⟩ := instant_alike (o := o) ha
    rw [Proc.run, Proc.run]
    dsimp only
    rw [htime]
    rcases (await_agree (o := o) hread.alike wait (o.surroundings.instant w').1
      (patience wait)).eq_or with ⟨hr, hr'⟩ | ⟨verdict, u, u', hr, hr', hended⟩
    · rw [hr, hr']
      exact .endless
    · rw [hr, hr']
      have hled := hread.trans hended
      exact (ih verdict _ _ hled.engine hled.alike rfl rfl).after hled

theorem serveAll_agree (ha : w.Alike w') (f : Facilities) (patience : Wait → Nat)
    {requests : List Request} (hq : ∀ q ∈ requests, q.Impartial) :
    Agree w w' (o.serveAll f patience requests w) (o.serveAll f patience requests w') := by
  induction requests generalizing w w' with
  | nil => exact .ends (.refl ha)
  | cons q rest ih =>
    have hrun := run_agree (o := o) (Request.paired ha.engine f (hq q List.mem_cons_self)) ha
      patience
    rw [serveAll, serveAll]
    rcases hrun.eq_or with ⟨hr, hr'⟩ | ⟨reply, u, u', hr, hr', hled⟩
    · rw [hr, hr']
      exact .endless
    · rw [hr, hr', Option.bind_eq_bind, Option.bind_some, Option.bind_some]
      dsimp only
      have hrest := ih hled.alike fun p hp => hq p (List.mem_cons_of_mem _ hp)
      rcases hrest.eq_or with ⟨hs, hs'⟩ | ⟨replies, v, v', hs, hs', hled'⟩
      · rw [hs, hs']
        exact .endless
      · rw [hs, hs']
        exact .ends (hled.trans hled')

end Outside

/-- Rearranged flows of which both are accepted, or both are refused for the same reason. -/
structure Flow.Interchangeable (f f' : Flow) : Prop where
  rearranged : f.Rearranged f'
  validity : f.validate = f'.validate

namespace Registry

variable {r r' : Registry} {f f' : Flow}

theorem Twin.offer (hr : r.Twin r') (hf : f.Interchangeable f') :
    (r.offer f).2.Twin (r'.offer f').2 := by
  have hversions := hr.versions f'.id.text
  have hfound := hversions.lookup f'.version
  rw [Registry.offer, Registry.offer, hf.validity, hf.rearranged.id, hf.rearranged.version]
  cases hvalid : f'.validate with
  | error fault => exact hr
  | ok _ =>
    rcases Flow.Twin.eq_or hfound with ⟨hb, hb'⟩ | ⟨g, g', hb, hb', -⟩
    · rw [hb, hb']
      exact hr.put _ (hversions.put _ ⟨hf.rearranged, hf.validity.trans hvalid, hvalid⟩)
    · rw [hb, hb']
      exact hr.put _ hversions

theorem ofFlows_twin {flows flows' : List Flow}
    (hf : List.Forall₂ Flow.Interchangeable flows flows') :
    (ofFlows flows).Twin (ofFlows flows') := by
  have fold : ∀ {r r' : Registry}, r.Twin r' →
      Twin (flows.foldl (fun r f => (r.offer f).2) r)
        (flows'.foldl (fun r f => (r.offer f).2) r') := by
    induction hf with
    | nil => exact fun hr => hr
    | cons h _ ih => exact fun hr => ih (hr.offer h)
  exact fold .nil

end Registry

theorem Installation.opening_alike {ω : Type} {flows flows' : List Flow}
    (hf : List.Forall₂ Flow.Interchangeable flows flows')
    (logging : Bool) (x : ω) : (opening flows logging x).Alike (opening flows' logging x) :=
  ⟨⟨Registry.ofFlows_twin hf, rfl, fun _ => Session.alike_vacant, rfl, rfl, rfl, rfl, rfl⟩, rfl,
    rfl⟩

/-- Whichever order the steps and inputs of an accepted flow are declared in, requests get the same
replies, and the same calls, records and sessions come of them. -/
theorem declaration_order_unseen {ω : Type} {flow flow' : Flow} (hv : flow.validate = .ok ())
    (hv' : flow'.validate = .ok ()) (hr : flow.Rearranged flow') (before after : List Flow)
    (logging : Bool) (o : Outside ω) (x : ω) (f : Facilities) (patience : Wait → Nat)
    {requests : List Request} (hq : ∀ q ∈ requests, q.Impartial) :
    (o.serveAll f patience requests (.opening (before ++ flow :: after) logging x)).map
        (fun r => r.2.service r.1) =
      (o.serveAll f patience requests (.opening (before ++ flow' :: after) logging x)).map
        fun r => r.2.service r.1 := by
  have same : ∀ flows : List Flow, List.Forall₂ Flow.Interchangeable flows flows :=
    fun flows => List.forall₂_same.mpr fun f _ => ⟨.refl f, rfl⟩
  have hflows : List.Forall₂ Flow.Interchangeable (before ++ flow :: after)
      (before ++ flow' :: after) :=
    List.rel_append (same before) (.cons ⟨hr, hv.trans hv'.symm⟩ (same after))
  have hagree := Outside.serveAll_agree (o := o)
    (Installation.opening_alike hflows logging x) f patience hq
  rcases hagree.eq_or with ⟨hend, hend'⟩ | ⟨replies, u, u', hend, hend', hled⟩
  · rw [hend, hend', Option.map_none]
  · rw [hend, hend', Option.map_some, Option.map_some, hled.alike.service]

namespace Sample

def passed (id : FlowInputId) : FlowInput := ⟨id, id.text, "", .text, true, false, true⟩

/-- A letter with a place and a date, which is sealed in the end. -/
def sealedLetter : Flow :=
  { flow with
    inputs := [passed ⟨"place", by decide +kernel⟩, passed ⟨"date", by decide +kernel⟩]
    steps := [step draft [], step review [.redirect draft "draft"],
      step ⟨"seal", by decide +kernel⟩ []] }

def reversedLetter : Flow :=
  { sealedLetter with
    inputs := sealedLetter.inputs.reverse
    steps := sealedLetter.steps.reverse }

def stillness : Outside Unit where
  clock x := (0, x)
  instant x := (0, x)
  sample x := (0, x)
  listing l x := (l, x)
  sleep _ x := x
  call c x := some (echo c, x)
  stopped _ := false

def letterRequests : List Request :=
  [create, .addText "acme" "session-0-00000000" "date" "today",
    .addText "acme" "session-0-00000000" "place" "here", .run "acme" "session-0-00000000",
    .report "acme" "session-0-00000000" "review"]

end Sample

/-- The two letters are laid out differently and served in the same way. -/
theorem declaration_order_unseen_letter :
    (Session.new "letter-1" "acme" Sample.sealedLetter 0).map (fun s => s.outline.steps) ≠
      (Session.new "letter-1" "acme" Sample.reversedLetter 0).map (fun s => s.outline.steps) ∧
    ∃ service, [Sample.sealedLetter, Sample.reversedLetter].map (fun flow =>
      (Sample.stillness.serveAll Sample.facilities (fun _ => 1) Sample.letterRequests
        (.opening [flow] true ())).map fun r => r.2.service r.1) =
      [some service, some service] := by
  have hr : Sample.sealedLetter.Rearranged Sample.reversedLetter :=
    ⟨(List.reverse_perm _).symm, (List.reverse_perm _).symm, rfl⟩
  have himpartial : ∀ q ∈ Sample.letterRequests, q.Impartial := by
    simp [Sample.letterRequests, Sample.create, Request.Impartial]
  have hvalid : Sample.sealedLetter.validate = .ok () := by decide +kernel
  have hsame := declaration_order_unseen hvalid (by decide +kernel) hr [] [] true
    Sample.stillness () Sample.facilities (fun _ => 1) himpartial
  have hends : ((Sample.stillness.serveAll Sample.facilities (fun _ => 1) Sample.letterRequests
      (.opening [Sample.sealedLetter] true ())).map fun r => r.2.service r.1).isSome = true := by
    decide +kernel
  refine ⟨by decide +kernel, ?_⟩
  obtain ⟨service, hservice⟩ := Option.isSome_iff_exists.mp hends
  refine ⟨service, ?_⟩
  rw [List.map_cons, List.map_cons, List.map_nil, ← hservice]
  rw [List.nil_append, List.nil_append] at hsame
  rw [hsame]

end FlowEngine
