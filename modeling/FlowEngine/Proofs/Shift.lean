import FlowEngine.Proofs.JobRuns
import FlowEngine.Proofs.Nesting
import FlowEngine.Proofs.Occupancy

/-! # An engine whose sessions are run by a pool

All runs go through one pool. Its jobs are carried out by workers, all at the same time and in small
steps, beside whatever other operations of the engine there are. The pool has at most one job of a
session running, so each job finds nothing of its session running.
-/
namespace FlowEngine

/-- Someone who carries out a job: what is left of it, and what it has done. -/
structure Worker where
  job : Job
  rest : Proc (Except EngineFault JobOutcome)
  own : List Moment

def Worker.hire (f : Facilities) (job : Job) : Worker := ⟨job, (job.operation f).run, []⟩

/-- An engine with its pool, those who carry out its jobs, and the other operations in progress. -/
structure Shift where
  story : Story
  shop : Workshop
  crew : List Worker
  others : List Frame

namespace Shift

def opening (flows : List Flow) (logging : Bool) (width room : Nat) : Shift :=
  ⟨.opening flows logging, .opening width room, [], []⟩

/-- The pool has come to another state; workers are hired for the jobs that it has started. -/
def advance (f : Facilities) (m : Shift) (w : Workshop) : Shift :=
  { m with
    shop := w
    crew := m.crew ++ (w.pool.running.drop m.shop.pool.running.length).map (.hire f) }

inductive Step (f : Facilities) : Shift → Shift → Prop where
  | flag {m : Shift} (b) : Step f m { m with story := m.story.flagged b, shop := m.shop.flagged b }
  /-- The dispatcher notes something in the journal. -/
  | note {m : Shift} (r) : Step f m { m with story := m.story.change (.log r) }
  | shop {m : Shift} {w} : m.shop.Act w → Step f m (m.advance f w)
  | work {story shop after others job p own p' s'} (before) :
      Move .immediate (p, ⟨story, own⟩) (p', s') →
      Step f ⟨story, shop, before ++ ⟨job, p, own⟩ :: after, others⟩
        ⟨s'.toStory, shop, before ++ ⟨job, p', s'.own⟩ :: after, others⟩
  | finish {story shop after others job r own} (before) :
      Step f ⟨story, shop, before ++ ⟨job, .done r, own⟩ :: after, others⟩
        ⟨story, shop.finish ⟨job, r.mapError .job⟩, before ++ after, others⟩
  | enter {m : Shift} (q : Request) : ¬ q.Runs →
      Step f m { m with others := ⟨q, q.proc f, []⟩ :: m.others }
  | act {story shop crew after own s'} {q : Request} {p p' : Proc q.Reply} (before) :
      Move .immediate (p, ⟨story, own⟩) (p', s') →
      Step f ⟨story, shop, crew, before ++ ⟨q, p, own⟩ :: after⟩
        ⟨s'.toStory, shop, crew, before ++ ⟨q, p', s'.own⟩ :: after⟩
  | leave {story shop crew after own} {q : Request} {r : q.Reply} (before) :
      Step f ⟨story, shop, crew, before ++ ⟨q, .done r, own⟩ :: after⟩
        ⟨story, shop, crew, before ++ after⟩

inductive Reachable (f : Facilities) (width room : Nat) : Shift → Prop where
  | opening (flows logging) : Reachable f width room (.opening flows logging width room)
  | step {m m'} : Reachable f width room m → Step f m m' → Reachable f width room m'

end Shift

/-! ## What comes back from jobs -/

/-- A job has not come back with a fault that says that something was found running. -/
def Completion.Clear (c : Completion) : Prop :=
  ∀ fault, c.result = .error (.job fault) → fault.Clear

namespace Workshop

variable {w w' : Workshop}

def completed (w : Workshop) : List Completion := w.reports ++ w.pool.finished ++ w.unheard

theorem Act.running (h : Act w w') : ∃ started, w'.pool.running = w.pool.running ++ started := by
  cases h with
  | send hj hp | wake hp =>
    obtain ⟨-, rfl⟩ := Pool.send_eq_ok hp
    exact ⟨[], (List.append_nil _).symm⟩
  | hear hs hi => exact ⟨[], by rw [Pool.handle_finished, Pool.forward_running, List.append_nil]⟩
  | @start item rest spawn hs hn hspawn => exact ⟨[item.2], by rw [Pool.start_ok hspawn]⟩
  | startFails hs hn hspawn =>
    exact ⟨[], by rw [Pool.start_error hspawn, Pool.forward_running, List.append_nil]⟩
  | giveUp hs => exact ⟨[], by rw [Pool.giveUp, Pool.forward_running, List.append_nil]⟩
  | read hr =>
    obtain ⟨-, hp⟩ := Pool.read_eq_some hr
    rw [hp]
    exact ⟨[], (List.append_nil _).symm⟩
  | _ => exact ⟨[], (List.append_nil _).symm⟩

theorem Acts.running (h : Acts w w') : ∃ started, w'.pool.running = w.pool.running ++ started := by
  induction h with
  | refl => exact ⟨[], (List.append_nil _).symm⟩
  | tail _ hact ih =>
    obtain ⟨earlier, hearlier⟩ := ih
    obtain ⟨started, hstarted⟩ := hact.running
    exact ⟨earlier ++ started, by rw [hstarted, hearlier, List.append_assoc]⟩

theorem Act.clear (h : Act w w') (hw : ∀ c ∈ w.completed, c.Clear) :
    ∀ c ∈ w'.completed, c.Clear := by
  have reported : ∀ {c : Completion} {p : Pool}, c.Clear → p.finished = w.pool.finished →
      ∀ c' ∈ w.reports ++ [c] ++ p.finished ++ w.unheard, c'.Clear := by
    intro c p hc hp c' hm
    rw [hp] at hm
    simp only [List.mem_append, List.mem_singleton] at hm
    rcases hm with ((hm | rfl) | hm) | hm
    · exact hw c' (List.mem_append_left _ (List.mem_append_left _ hm))
    · exact hc
    · exact hw c' (List.mem_append_left _ (List.mem_append_right _ hm))
    · exact hw c' (List.mem_append_right _ hm)
  cases h with
  | send hj hp | wake hp =>
    obtain ⟨-, rfl⟩ := Pool.send_eq_ok hp
    rwa [completed, Pool.finished_send rfl]
  | receive hs hi => rwa [completed, Pool.finished_receive hi]
  | hear hs hi =>
    intro c hm
    refine hw c ?_
    rw [completed, Pool.finished_hear hi]
    simpa [completed] using hm
  | woken hs hi => rwa [completed, Pool.finished_woken hi]
  | start hs hn hspawn =>
    rw [completed, Pool.start_ok hspawn]
    exact hw
  | startFails hs hn hspawn =>
    refine reported ?_ (by rw [Pool.start_error hspawn, Pool.forward_finished]; rfl)
    intro fault hc
    cases hc
  | giveUp hs =>
    refine reported ?_ (by rw [Pool.giveUp, Pool.forward_finished])
    intro fault hc
    cases hc
  | read hr =>
    obtain ⟨-, hp⟩ := Pool.read_eq_some hr
    rw [hp]
    exact hw
  | _ => exact hw

theorem clear_finish {c : Completion} (hc : c.Clear) (hw : ∀ c ∈ w.completed, c.Clear) :
    ∀ c' ∈ (w.finish c).completed, c'.Clear := by
  intro c' hm
  have hcases : c' ∈ w.completed ∨ c' = c := by
    by_cases hs : w.pool.status = .serving
    all_goals
      simp only [completed, finish, Pool.finish_eq, Pool.finished, hs, if_true, if_false,
        List.filterMap_append, List.filterMap_cons, List.filterMap_nil, PoolMessage.completion?,
        List.mem_append, List.mem_singleton] at hm ⊢
      tauto
  rcases hcases with hm | rfl
  · exact hw c' hm
  · exact hc

end Workshop

/-! ## The workers do not get into each other's way -/

def Job.Rest (k : String) (r : Except EngineFault JobOutcome) (e : Engine) : Prop :=
  (∀ fault, r = .error fault → fault.Clear) ∧ e.Idle k

theorem Job.leaves_rest (k : String) : (Accord.ofKey k).Leaves (Job.Rest k) :=
  fun _ _ _ h he => ⟨h.1, he.idle h.2⟩

theorem Job.operation_holds (f : Facilities) (job : Job) {e : Engine} (he : e.Sound)
    (hidle : e.Idle job.key) :
    (job.operation f).run.Holds (.ofKey job.key) (Job.Rest job.key) e := by
  refine Proc.Holds.imp (job.operation_spares f he hidle) ?_
  rintro (fault | v) e' h
  · refine ⟨?_, h.2.idle hidle⟩
    rintro _ ⟨⟩
    exact h.1
  · exact ⟨nofun, Engine.Spares.idle h hidle⟩

/-- The others keep the flows; this one starts nothing, and brings in no odd session. -/
def Accord.besides (r : Registry) : Accord where
  others e e' := e.registry = r → e'.registry = r
  own _ c := c.Welcome r ∧ c.turn? = none
  refl _ := id
  trans h h' hr := h' (h hr)

theorem Engine.registry_of_changed {e e' : Engine} {P : Change → Prop}
    (h : e' = e ∨ ∃ c, P c ∧ e' = c.apply e) : e'.registry = e.registry := by
  rcases h with rfl | ⟨c, -, rfl⟩
  · rfl
  · exact Change.registry_apply c e

theorem Request.holds_besides {r : Registry} (f : Facilities) {q : Request} (hq : ¬ q.Runs)
    {e : Engine} (he : e.registry = r) : (q.proc f).Holds (.besides r) (fun _ _ => True) e := by
  have hwithin := within_of_not_runs (Scope.unwatched_requests r) f hq
  refine (hwithin.holds (A := .besides r) (J := fun e => e.registry = r) (fun _ => id)
    (fun h ho => ho h) ?_ he).imp fun _ _ _ => trivial
  rintro e' c hr ⟨hwelcome, hsteps, hruns⟩
  exact ⟨⟨hwelcome, Change.turn?_eq_none hsteps hruns⟩, (Change.registry_apply c e').trans hr⟩

namespace Shift

/-- Each worker keeps to its part; where nobody is at work, nothing is running. -/
structure Safe (width room : Nat) (r : Registry) (m : Shift) : Prop where
  sound : m.story.engine.Sound
  registry : m.story.engine.registry = r
  shop : m.shop.Reachable width room
  hired : (m.crew.map Worker.job).Perm m.shop.pool.running
  crew : ∀ x ∈ m.crew,
    x.rest.Holds (.ofKey x.job.key) (Job.Rest x.job.key) m.story.engine
  idle : ∀ k, (∀ x ∈ m.crew, x.job.key ≠ k) → m.story.engine.Idle k
  others : ∀ fr ∈ m.others, fr.rest.Holds (.besides r) (fun _ _ => True) m.story.engine
  clear : ∀ c ∈ m.shop.completed, c.Clear

namespace Safe

variable {f : Facilities} {width room : Nat} {r : Registry} {m m' : Shift}

theorem opening (flows : List Flow) (logging : Bool) :
    (opening flows logging width room).Safe width room (.ofFlows flows) := by
  constructor
  · exact Engine.sound_opening flows logging
  · rfl
  · exact .refl
  · exact List.Perm.nil
  · intro x hx
    cases hx
  · intro k _ h i
    exact Session.Unused.not_busy Session.unused_vacant
  · intro fr hfr
    cases hfr
  · intro c hc
    cases hc

theorem distinct (hm : m.Safe width room r) : (m.crew.map fun x => x.job.key).Nodup := by
  have hkeys := (hm.hired.map Job.key).nodup_iff.mpr hm.shop.invariant.2.distinct_running
  rwa [List.map_map] at hkeys

theorem aside (hm : m.Safe width room r) {s : Story} {others : List Frame}
    (hspares : ∀ k, m.story.engine.Spares k s.engine) (hr : s.engine.registry = r)
    (hothers : ∀ fr ∈ others, fr.rest.Holds (.besides r) (fun _ _ => True) s.engine) :
    Safe width room r { m with story := s, others := others } := by
  obtain ⟨sound, registry, shop, hired, crew, idle, -, clear⟩ := hm
  constructor
  · exact (hspares "").sound sound
  · exact hr
  · exact shop
  · exact hired
  · exact fun x hx => (crew x hx).later (Job.leaves_rest x.job.key) (hspares x.job.key)
  · exact fun k hk => (hspares k).idle (idle k hk)
  · exact hothers
  · exact clear

theorem others_later (hm : m.Safe width room r) {e : Engine} (hr : e.registry = r) :
    ∀ fr ∈ m.others, fr.rest.Holds (.besides r) (fun _ _ => True) e :=
  fun fr hfr => (hm.others fr hfr).later (fun _ _ _ _ _ => trivial) fun _ => hr

theorem hire (hm : m.Safe width room r) {w : Workshop} (hact : m.shop.Act w) :
    (m.advance f w).Safe width room r := by
  obtain ⟨started, hstarted⟩ := hact.running
  have hcrew : (m.advance f w).crew = m.crew ++ started.map (.hire f) := by
    rw [advance, hstarted, List.drop_left]
  have hreach : w.Reachable width room := hm.shop.tail (.act hact)
  have hkeys : ((m.shop.pool.running ++ started).map Job.key).Nodup :=
    hstarted ▸ hreach.invariant.2.distinct_running
  obtain ⟨sound, registry, shop, hired, crew, idle, others, clear⟩ := hm
  refine ⟨sound, registry, hreach, ?_, ?_, ?_, others, hact.clear clear⟩
  · show ((m.advance f w).crew.map Worker.job).Perm w.pool.running
    rw [hcrew, hstarted, List.map_append, List.map_map]
    exact hired.append (.of_eq (List.map_id _))
  · intro x hx
    rw [hcrew] at hx
    rcases List.mem_append.mp hx with hx | hx
    · exact crew x hx
    · obtain ⟨job, hjob, rfl⟩ := List.mem_map.mp hx
      refine Job.operation_holds f job sound (idle job.key fun y hy heq => ?_)
      rw [List.map_append, List.nodup_append] at hkeys
      refine hkeys.2.2 y.job.key (List.mem_map_of_mem ?_) job.key (List.mem_map_of_mem hjob) heq
      exact hired.subset (List.mem_map_of_mem hy)
  · intro k hk
    refine idle k fun x hx => hk x ?_
    rw [hcrew]
    exact List.mem_append_left _ hx

section Crew

variable {story : Story} {shop : Workshop} {before after : List Worker} {others : List Frame}
  {job : Job} {own : List Moment}

theorem work {p p' : Proc (Except EngineFault JobOutcome)} {s' : Situation}
    (hm : Safe width room r ⟨story, shop, before ++ ⟨job, p, own⟩ :: after, others⟩)
    (hmove : Move .immediate (p, ⟨story, own⟩) (p', s')) :
    Safe width room r ⟨s'.toStory, shop, before ++ ⟨job, p', s'.own⟩ :: after, others⟩ := by
  have hdistinct := hm.distinct
  have hlater := fun e => hm.others_later (e := e)
  obtain ⟨sound, registry, shop, hired, crew, idle, -, clear⟩ := hm
  have hself := crew ⟨job, p, own⟩ (List.mem_append_right _ List.mem_cons_self)
  obtain ⟨hrest, hchange⟩ := move_held (Job.leaves_rest job.key) id hmove hself
  have hspares : ∀ k, k ≠ job.key → story.engine.Spares k s'.engine := by
    intro k hk
    rcases hchange with he | ⟨c, hown, he⟩
    · exact he ▸ .refl k _
    · exact he ▸ hown.spares hk
  have hregistry : s'.engine.registry = r := (Engine.registry_of_changed hchange).trans registry
  have hsound : s'.engine.Sound := by
    rcases hchange with he | ⟨c, hown, he⟩
    · exact he ▸ sound
    · exact he ▸ sound.apply (Change.welcome_of_newcomer hown.newcomer _)
  have hother : ∀ y ∈ before ++ after, y.job.key ≠ job.key := by
    rw [(List.perm_middle.map _).nodup_iff, List.map_cons, List.nodup_cons] at hdistinct
    exact fun y hy heq => hdistinct.1 (heq ▸ List.mem_map_of_mem hy)
  constructor
  · exact hsound
  · exact hregistry
  · exact shop
  · simpa using hired
  · intro y hy
    rcases List.mem_cons.mp (List.perm_middle.subset hy) with rfl | hy
    · exact hrest
    · refine (crew y ?_).later (Job.leaves_rest y.job.key) (hspares y.job.key (hother y hy))
      exact List.perm_middle.symm.subset (List.mem_cons_of_mem _ hy)
  · intro k hk
    have hne : k ≠ job.key := fun heq =>
      hk ⟨job, p', s'.own⟩ (List.mem_append_right _ List.mem_cons_self) heq.symm
    refine (hspares k hne).idle (idle k fun y hy => ?_)
    rcases List.mem_cons.mp (List.perm_middle.subset hy) with rfl | hy
    · exact hne.symm
    · exact hk y (List.perm_middle.symm.subset (List.mem_cons_of_mem _ hy))
  · exact hlater _ hregistry
  · exact clear

theorem finish {result : Except EngineFault JobOutcome}
    (hm : Safe width room r ⟨story, shop, before ++ ⟨job, .done result, own⟩ :: after, others⟩) :
    Safe width room r
      ⟨story, shop.finish ⟨job, result.mapError .job⟩, before ++ after, others⟩ := by
  obtain ⟨sound, registry, shop, hired, crew, idle, others, clear⟩ := hm
  have hrest : Job.Rest job.key result story.engine :=
    crew ⟨job, .done result, own⟩ (List.mem_append_right _ List.mem_cons_self)
  have hjobs := (List.perm_middle.map Worker.job).symm.trans hired
  rw [List.map_cons] at hjobs
  have hmem := hjobs.subset List.mem_cons_self
  have hclear : Completion.Clear ⟨job, result.mapError .job⟩ := by
    intro fault hf
    cases result with
    | ok v => cases hf
    | error fault' =>
      cases hf
      exact hrest.1 fault rfl
  constructor
  · exact sound
  · exact registry
  · exact shop.trans (Workshop.execution_finish hmem)
  · show ((before ++ after).map Worker.job).Perm (Pool.finish _ _).running
    rw [Pool.finish_eq]
    simpa using hjobs.erase job
  · intro x hx
    exact crew x (List.perm_middle.symm.subset (List.mem_cons_of_mem _ hx))
  · intro k hk
    by_cases hkey : job.key = k
    · exact hkey ▸ hrest.2
    · refine idle k fun x hx => ?_
      rcases List.mem_cons.mp (List.perm_middle.subset hx) with rfl | hx
      · exact hkey
      · exact hk x hx
  · exact others
  · exact Workshop.clear_finish hclear clear

end Crew

theorem serve {story : Story} {shop : Workshop} {crew : List Worker} {before after : List Frame}
    {own : List Moment} {q : Request} {p p' : Proc q.Reply} {s' : Situation}
    (hm : Safe width room r ⟨story, shop, crew, before ++ ⟨q, p, own⟩ :: after⟩)
    (hmove : Move .immediate (p, ⟨story, own⟩) (p', s')) :
    Safe width room r ⟨s'.toStory, shop, crew, before ++ ⟨q, p', s'.own⟩ :: after⟩ := by
  have hself := hm.others ⟨q, p, own⟩ (List.mem_append_right _ List.mem_cons_self)
  obtain ⟨hrest, hchange⟩ := move_held (A := .besides r) (fun _ _ _ _ _ => trivial) id hmove hself
  have hafter := (Engine.registry_of_changed hchange).trans hm.registry
  refine hm.aside (fun k => ?_) hafter fun fr hfr => ?_
  · rcases hchange with he | ⟨c, ⟨hwelcome, hturn⟩, he⟩
    · exact he ▸ .refl k _
    · refine he ▸ .change (hm.registry ▸ hwelcome) fun x hx => ?_
      rw [hturn] at hx
      cases hx
  · rcases List.mem_cons.mp (List.perm_middle.subset hfr) with rfl | hfr
    · exact hrest
    · refine hm.others_later hafter fr ?_
      exact List.perm_middle.symm.subset (List.mem_cons_of_mem _ hfr)

theorem step (hm : m.Safe width room r) (hstep : Step f m m') : m'.Safe width room r := by
  have hregistry := hm.registry
  cases hstep with
  | flag b =>
    have hspares : ∀ k, m.story.engine.Spares k (m.story.flagged b).engine := by
      intro k
      refine ⟨.refl _, fun hs => ?_, fun _ i hb => ?_⟩
      · exact ⟨hs.valid, hs.stored, hs.distinct, hs.laid, hs.flows, hs.records⟩
      · cases i <;> exact hb
    have haside := hm.aside hspares hregistry (hm.others_later hregistry)
    exact { haside with shop := hm.shop.tail (.flag b) }
  | note n =>
    refine hm.aside (fun k => Engine.Spares.log (.refl k _) n) ?_ (hm.others_later ?_)
    · exact (Change.registry_apply _ _).trans hregistry
    · exact (Change.registry_apply _ _).trans hregistry
  | shop hact => exact hm.hire hact
  | work before hmove => exact hm.work hmove
  | finish before => exact hm.finish
  | enter q hq =>
    refine { hm with others := fun fr hfr => ?_ }
    rcases List.mem_cons.mp hfr with rfl | hfr
    · exact q.holds_besides f hq hregistry
    · exact hm.others fr hfr
  | act before hmove => exact hm.serve hmove
  | leave before =>
    refine { hm with others := fun fr hfr => hm.others fr ?_ }
    exact List.perm_middle.symm.subset (List.mem_cons_of_mem _ hfr)

end Safe

variable {f : Facilities} {width room : Nat} {m : Shift}

theorem Reachable.safe (hm : Reachable f width room m) : ∃ r, m.Safe width room r := by
  induction hm with
  | opening flows logging => exact ⟨_, .opening flows logging⟩
  | step _ hstep ih =>
    obtain ⟨r, hr⟩ := ih
    exact ⟨r, hr.step hstep⟩

/-- When all runs go through one pool, no job comes back with the fault that its session or a step
of it was running already: not in any order in which jobs are submitted, started and carried out,
and whatever earlier jobs have failed with. -/
theorem found_nothing_running (hm : Reachable f width room m) {c : Completion}
    (hc : c ∈ m.shop.completed) {fault : EngineFault} (hf : c.result = .error (.job fault)) :
    (∀ id, fault.root ≠ .sessionRunning id) ∧ ∀ id, fault.root ≠ .stepRunning id := by
  obtain ⟨r, hsafe⟩ := hm.safe
  have hclear : fault.root.isBusy = false := hsafe.clear c hc fault hf
  refine ⟨fun id heq => ?_, fun id heq => ?_⟩
  · rw [heq] at hclear
    cases hclear
  · rw [heq] at hclear
    cases hclear

section Sample

def serve (f : Facilities) (q : Request) (m : Shift) : Shift :=
  { m with story := ((q.proc f).ahead (fun _ => Sample.echo) 0 m.story.enter).2.toStory }

def work (answer : (c : ProviderCall) → c.Outcome) (n : Nat) : Shift → Shift
  | ⟨story, shop, ⟨job, p, own⟩ :: rest, others⟩ =>
    let x := p.ahead (fun _ => answer) n ⟨story, own⟩
    ⟨x.2.toStory, shop, ⟨job, x.1, x.2.own⟩ :: rest, others⟩
  | m => m

def finish : Shift → Shift
  | ⟨story, shop, ⟨job, .done r, _⟩ :: rest, others⟩ =>
    ⟨story, shop.finish ⟨job, r.mapError .job⟩, rest, others⟩
  | m => m

theorem advance_advance {w w' : Workshop} (hw : m.shop.Acts w) (hw' : w.Act w') :
    (m.advance f w).advance f w' = m.advance f w' := by
  obtain ⟨earlier, hearlier⟩ := hw.running
  obtain ⟨started, hstarted⟩ := hw'.running
  have hboth : w'.pool.running = m.shop.pool.running ++ (earlier ++ started) := by
    rw [hstarted, hearlier, List.append_assoc]
  have hfirst : (m.advance f w).crew = m.crew ++ earlier.map (.hire f) := by
    rw [advance, hearlier, List.drop_left]
  have hlast : ((m.advance f w).advance f w').crew =
      (m.advance f w).crew ++ started.map (.hire f) := by
    rw [advance, hstarted]
    exact congrArg (fun jobs => _ ++ jobs.map (Worker.hire f)) List.drop_left
  have hcrew : ((m.advance f w).advance f w').crew = (m.advance f w').crew := by
    rw [hlast, hfirst, advance, hboth, List.drop_left, List.map_append, List.append_assoc]
  exact congrArg (fun crew => Shift.mk m.story w' crew m.others) hcrew

theorem Reachable.advance (hm : Reachable f width room m) {w : Workshop} (hw : m.shop.Acts w) :
    Reachable f width room (m.advance f w) := by
  induction hw with
  | refl => simpa [Shift.advance] using hm
  | tail hacts hact ih => exact advance_advance hacts hact ▸ .step ih (.shop hact)

theorem Reachable.acted {story : Story} {shop : Workshop} {crew : List Worker}
    {others : List Frame} {q : Request} {p : Proc q.Reply} {own : List Moment} {y : Point q.Reply}
    (hm : Reachable f width room ⟨story, shop, crew, ⟨q, p, own⟩ :: others⟩)
    (hx : Execution .immediate (p, ⟨story, own⟩) y) :
    Reachable f width room ⟨y.2.toStory, shop, crew, ⟨q, y.1, y.2.own⟩ :: others⟩ := by
  induction hx with
  | refl => exact hm
  | tail _ hmove ih => exact .step ih (.act [] hmove)

theorem Reachable.worked {story : Story} {shop : Workshop} {crew : List Worker}
    {others : List Frame} {job : Job} {p : Proc (Except EngineFault JobOutcome)}
    {own : List Moment} {y : Point (Except EngineFault JobOutcome)}
    (hm : Reachable f width room ⟨story, shop, ⟨job, p, own⟩ :: crew, others⟩)
    (hx : Execution .immediate (p, ⟨story, own⟩) y) :
    Reachable f width room ⟨y.2.toStory, shop, ⟨job, y.1, y.2.own⟩ :: crew, others⟩ := by
  induction hx with
  | refl => exact hm
  | tail _ hmove ih => exact .step ih (.work [] hmove)

theorem Reachable.serve (hm : Reachable f width room m) {q : Request} (hq : ¬ q.Runs)
    (hdone : ((q.proc f).ahead (fun _ => Sample.echo) 0 m.story.enter).1.value?.isSome = true) :
    Reachable f width room (m.serve f q) := by
  obtain ⟨v, hv⟩ := Option.isSome_iff_exists.mp hdone
  have hmeets : ∀ s c, Conduct.immediate.Meets s c (Sample.echo c)
      (s.called s.toStory c (Sample.echo c)) := fun s c => ⟨s.toStory, rfl, trivial, rfl⟩
  have hacted := (hm.step (.enter q hq)).acted
    (Proc.ahead_execution (fun _ => Sample.echo) hmeets (q.proc f) 0 m.story.enter)
  rw [Proc.eq_done hv] at hacted
  exact .step hacted (.leave [])

theorem Reachable.work (hm : Reachable f width room m) (answer : (c : ProviderCall) → c.Outcome)
    (n : Nat) : Reachable f width room (m.work answer n) := by
  rw [Shift.work.eq_def]
  split
  · exact hm.worked (Proc.ahead_execution (fun _ => answer)
      (fun s c => ⟨s.toStory, rfl, trivial, rfl⟩) _ n _)
  · exact hm

theorem Reachable.finish (hm : Reachable f width room m) : Reachable f width room m.finish := by
  rw [Shift.finish.eq_def]
  split
  · exact .step hm (.finish [])
  · exact hm

end Sample

end Shift

namespace Sample

/-- A job runs a session while the provider is down, and fails. The next one for the same session
is started when it has ended, and runs a step. -/
def shift : Shift :=
  let go (m : Shift) : Shift := m.advance facilities (m.shop.turn fun _ => .ok ())
  let offer (job : Job) (m : Shift) : Shift := m.advance facilities (m.shop.offer job)
  let m : Shift := (Shift.opening [flow] false 2 8).serve facilities create
  let m := offer (.step "acme" "session-0-00000000" "draft" none false)
    (offer (.session "acme" "session-0-00000000") m)
  let m := ((go m).work silence 5).finish
  go (((go m).work echo 5).finish)

theorem reachable_shift : Shift.Reachable facilities 2 8 shift := by
  have hopen : Shift.Reachable facilities 2 8 (.opening [flow] false 2 8) := .opening [flow] false
  have hserved := hopen.serve (q := create) id (by decide +kernel)
  have hoffered := (hserved.advance (Workshop.acts_offer
    (.session "acme" "session-0-00000000"))).advance (Workshop.acts_offer
      (.step "acme" "session-0-00000000" "draft" none false))
  have hfailed := ((hoffered.advance (Workshop.acts_turn (fun _ => .ok ())
    (by decide +kernel))).work silence 5).finish
  have hran := ((hfailed.advance (Workshop.acts_turn (fun _ => .ok ())
    (by decide +kernel))).work echo 5).finish
  exact hran.advance (Workshop.acts_turn _ (by decide +kernel))

end Sample

/-- Both jobs have come back: the first with a fault of the provider, the second with a report. -/
theorem Shift.found_nothing_running_after_failure :
    (Sample.shift.shop.reports.map fun c => c.result.toOption.isSome) = [false, true] ∧
    Sample.shift.shop.reports.map Completion.job =
      [.session "acme" "session-0-00000000",
        .step "acme" "session-0-00000000" "draft" none false] ∧
    ∀ c ∈ Sample.shift.shop.reports, ∀ fault, c.result = .error (.job fault) →
      (∀ id, fault.root ≠ .sessionRunning id) ∧ ∀ id, fault.root ≠ .stepRunning id := by
  refine ⟨by decide +kernel, by decide +kernel, fun c hc fault hf => ?_⟩
  refine Shift.found_nothing_running Sample.reachable_shift (List.mem_append_left _ ?_) hf
  exact List.mem_append_left _ hc

end FlowEngine
