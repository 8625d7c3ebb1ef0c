import FlowEngine.Proofs.Scheduling
import Mathlib.Data.List.Perm.Basic

/-! # A pool at work

A pool is used by many at a time: jobs are submitted, the dispatcher goes through its turn, workers
come to their ends, completions are read, and the engine is told to stop. Each of them goes on by
itself, in small steps. A submission first looks at the flag and then sends its job, so the
dispatcher can have come to its end in between. What has happened is kept in lists.
-/
namespace FlowEngine

/-- What the dispatcher of a pool is at. -/
inductive Stage where
  | receiving
  | deciding
  | starting (items : List (String × Job))
  | closing (items : List (String × Job))
  /-- The end, with what it had in hand. -/
  | ended (items : List (String × Job))
  deriving DecidableEq

namespace Stage

def Attending : Stage → Prop
  | receiving | deciding | starting _ => True
  | closing _ | ended _ => False

/-- Jobs that were taken to be started. -/
def batch : Stage → List (String × Job)
  | starting items | ended items => items
  | receiving | deciding | closing _ => []

/-- Jobs that are about to be given up. -/
def leaving : Stage → List (String × Job)
  | closing items => items
  | receiving | deciding | starting _ | ended _ => []

end Stage

structure Workshop where
  pool : Pool
  stage : Stage
  stopping : Bool
  /-- Jobs of submissions that have found the engine not stopping. -/
  submitting : List Job
  /-- Jobs that were put into the inbox. -/
  accepted : List Job
  /-- Those of them that the dispatcher took out of it. -/
  received : List Job
  /-- Those of them that were taken to be started. -/
  taken : List Job
  started : List Job
  /-- What finished jobs came back with, as far as the dispatcher heard of it. -/
  heard : List Completion
  /-- What finished jobs came back with when there was no dispatcher any more. -/
  unheard : List Completion
  /-- All completions that were handed to the readers or dropped. -/
  reports : List Completion
  delivered : List Completion

namespace Workshop

def opening (width room : Nat) : Workshop where
  pool := .ofSize width room
  stage := .receiving
  stopping := false
  submitting := []
  accepted := []
  received := []
  taken := []
  started := []
  heard := []
  unheard := []
  reports := []
  delivered := []

/-- What those who use the pool do, and its dispatcher. -/
inductive Act : Workshop → Workshop → Prop where
  | ask {w : Workshop} (job) : w.stopping = false →
      Act w { w with submitting := job :: w.submitting }
  | send {w : Workshop} {job p} : job ∈ w.submitting → w.pool.send (.submit job) = .ok p →
      Act w { w with
        pool := p
        submitting := w.submitting.erase job
        accepted := w.accepted ++ [job] }
  | refuse {w : Workshop} {job fault} : job ∈ w.submitting →
      w.pool.send (.submit job) = .error fault →
      Act w { w with submitting := w.submitting.erase job }
  | wake {w : Workshop} {p} : w.pool.send .wake = .ok p → Act w { w with pool := p }
  | receive {w : Workshop} {job rest} : w.stage = .receiving →
      w.pool.inbox = .submit job :: rest →
      Act w { w with
        pool := ({ w.pool with inbox := rest }.handle (.submit job)).1
        received := w.received ++ [job] }
  | hear {w : Workshop} {c rest} : w.stage = .receiving → w.pool.inbox = .finished c :: rest →
      Act w { w with
        pool := ({ w.pool with inbox := rest }.handle (.finished c)).1
        heard := w.heard ++ [c]
        reports := w.reports ++ [c] }
  | woken {w : Workshop} {rest} : w.stage = .receiving → w.pool.inbox = .wake :: rest →
      Act w { w with pool := ({ w.pool with inbox := rest }.handle .wake).1 }
  | decide {w : Workshop} : w.stage = .receiving → w.pool.inbox = [] →
      Act w { w with stage := .deciding }
  | take {w : Workshop} : w.stage = .deciding → w.stopping = false →
      Act w { w with
        pool := w.pool.take.2
        stage := .starting w.pool.take.1
        taken := w.taken ++ w.pool.take.1.map Prod.snd }
  | wait {w : Workshop} : w.stage = .deciding → w.stopping = true → w.pool.inFlight ≠ 0 →
      Act w { w with stage := .receiving }
  | drain {w : Workshop} : w.stage = .deciding → w.stopping = true → w.pool.inFlight = 0 →
      Act w { w with pool := w.pool.drain.2, stage := .closing w.pool.drain.1 }
  | start {w : Workshop} {item rest} {spawn : Job → Except String Unit} :
      w.stage = .starting (item :: rest) → Pool.isNameable (Pool.workerName item.1) = true →
      spawn item.2 = .ok () →
      Act w { w with
        pool := (w.pool.start spawn item).1
        stage := .starting rest
        started := w.started ++ [item.2] }
  | startFails {w : Workshop} {item rest reason} {spawn : Job → Except String Unit} :
      w.stage = .starting (item :: rest) → Pool.isNameable (Pool.workerName item.1) = true →
      spawn item.2 = .error reason →
      Act w { w with
        pool := (w.pool.start spawn item).1
        stage := .starting rest
        reports := w.reports ++ [⟨item.2, .error (.spawn (Pool.workerName item.1) reason)⟩] }
  | panic {w : Workshop} {item rest} : w.stage = .starting (item :: rest) →
      Pool.isNameable (Pool.workerName item.1) = false →
      Act w { w with
        pool := { w.pool with status := .broken }
        stage := .ended (item :: rest) }
  | settle {w : Workshop} : w.stage = .starting [] → Act w { w with stage := .receiving }
  | giveUp {w : Workshop} {item rest} : w.stage = .closing (item :: rest) →
      Act w { w with
        pool := (w.pool.giveUp item).1
        stage := .closing rest
        reports := w.reports ++ [⟨item.2, .error .poolClosed⟩] }
  | close {w : Workshop} : w.stage = .closing [] →
      Act w { w with pool := { w.pool with status := .closed }, stage := .ended [] }
  | read {w : Workshop} {c p} : w.pool.read = (some c, p) →
      Act w { w with pool := p, delivered := w.delivered ++ [c] }

/-- The engine is told to stop or to go on, and jobs come to their ends, whatever the pool does. -/
inductive Step : Workshop → Workshop → Prop where
  | act {w w'} : Act w w' → Step w w'
  | flag {w} (b : Bool) : Step w { w with stopping := b }
  | finish {w : Workshop} (c : Completion) : c.job ∈ w.pool.running →
      Step w { w with
        pool := w.pool.finish c
        unheard := if w.pool.status = .serving then w.unheard else w.unheard ++ [c] }

abbrev Acts : Workshop → Workshop → Prop := Relation.ReflTransGen Act

abbrev Execution : Workshop → Workshop → Prop := Relation.ReflTransGen Step

theorem Acts.execution {w w' : Workshop} (h : Acts w w') : Execution w w' := by
  induction h with
  | refl => exact .refl
  | tail _ hact ih => exact ih.tail (.act hact)

/-- What can become of a pool that was made with the given width and room. -/
def Reachable (width room : Nat) (w : Workshop) : Prop := Execution (opening width room) w

end Workshop

def jobsOf (id : String) (jobs : List Job) : List Job := jobs.filter fun job => job.key = id

@[simp] theorem jobsOf_append (id : String) (jobs jobs' : List Job) :
    jobsOf id (jobs ++ jobs') = jobsOf id jobs ++ jobsOf id jobs' :=
  List.filter_append ..

theorem jobsOf_map_snd (id : String) {items : List (String × Job)}
    (hk : ∀ item ∈ items, item.1 = item.2.key) :
    jobsOf id (items.map Prod.snd) = (items.filter fun item => item.1 = id).map Prod.snd := by
  rw [jobsOf, List.filter_map]
  congr 1
  refine List.filter_congr fun item hm => ?_
  simp [hk item hm]

namespace Workshop

/-- Jobs of a session are taken in the order in which they were accepted. -/
structure Orderly (w : Workshop) : Prop where
  keyed : ∀ item ∈ w.pool.scheduler.pending ++ w.stage.batch ++ w.stage.leaving, item.1 = item.2.key
  accepted : w.accepted = w.received ++ w.pool.offered
  waiting : w.stage.Attending → ∀ id, jobsOf id w.received =
    jobsOf id w.taken ++ jobsOf id (w.pool.scheduler.pending.map Prod.snd)
  ordered : ∀ id, jobsOf id w.taken <+: jobsOf id w.received

variable {w w' : Workshop}

namespace Orderly

theorem opening (width room : Nat) : (opening width room).Orderly :=
  ⟨nofun, rfl, fun _ _ => rfl, fun _ => List.prefix_refl _⟩

theorem pool (h : w.Orderly) {p : Pool}
    (hpending : p.scheduler.pending = w.pool.scheduler.pending)
    (hoffered : p.offered = w.pool.offered) : Orderly { w with pool := p } := by
  obtain ⟨keyed, accepted, waiting, ordered⟩ := h
  refine ⟨?_, ?_, ?_, ordered⟩
  · rwa [hpending]
  · rwa [hoffered]
  · rwa [hpending]

theorem next (h : w.Orderly) {p : Pool} {stage : Stage}
    (hpending : p.scheduler.pending = w.pool.scheduler.pending)
    (hoffered : p.offered = w.pool.offered)
    (hitems : stage.batch ++ stage.leaving ⊆ w.stage.batch ++ w.stage.leaving)
    (ha : stage.Attending → w.stage.Attending) :
    Orderly { w with pool := p, stage := stage } := by
  obtain ⟨keyed, accepted, waiting, ordered⟩ := h
  refine ⟨?_, ?_, ?_, ordered⟩
  · intro other hm
    rw [List.append_assoc] at hm
    refine keyed other ?_
    rw [List.append_assoc]
    rcases List.mem_append.mp hm with hm | hm
    · exact List.mem_append_left _ (hpending ▸ hm)
    · exact List.mem_append_right _ (hitems hm)
  · rwa [hoffered]
  · intro hat
    rw [hpending]
    exact waiting (ha hat)

theorem receive (h : w.Orderly) {job : Job} {rest : List PoolMessage}
    (hs : w.stage = .receiving) (hi : w.pool.inbox = .submit job :: rest) :
    Orderly { w with
      pool := ({ w.pool with inbox := rest }.handle (.submit job)).1
      received := w.received ++ [job] } := by
  obtain ⟨keyed, accepted, waiting, ordered⟩ := h
  rw [hs] at keyed
  have hpending : ({ w.pool with inbox := rest }.handle (.submit job)).1.scheduler.pending =
      w.pool.scheduler.pending ++ [(job.key, job)] := rfl
  constructor
  · intro item hm
    simp only [hpending, hs, Stage.batch, Stage.leaving, List.append_nil] at hm keyed
    rcases List.mem_append.mp hm with hm | hm
    · exact keyed item hm
    · rw [List.mem_singleton.mp hm]
  · rw [accepted, Pool.offered, hi]
    simp [Pool.offered, Pool.handle, PoolMessage.job?]
  · intro hat id
    rw [hpending, jobsOf_append, waiting hat id, List.map_append, jobsOf_append]
    simp
  · intro id
    rw [jobsOf_append]
    exact (ordered id).trans (List.prefix_append _ _)

theorem take (h : w.Orderly) (hs : w.stage = .deciding) :
    Orderly { w with
      pool := w.pool.take.2
      stage := .starting w.pool.take.1
      taken := w.taken ++ w.pool.take.1.map Prod.snd } := by
  obtain ⟨keyed, accepted, waiting, ordered⟩ := h
  obtain ⟨-, -, -, hperm, hfirst⟩ := w.pool.take_selects
  rw [hs] at keyed waiting
  simp only [Stage.batch, Stage.leaving, List.append_nil] at keyed
  have hkeyed : ∀ item ∈ w.pool.take.1 ++ w.pool.take.2.scheduler.pending,
      item.1 = item.2.key := fun item hm => keyed item (hperm.symm.subset hm)
  have hsplit : ∀ id, jobsOf id w.received = jobsOf id (w.taken ++ w.pool.take.1.map Prod.snd) ++
      jobsOf id (w.pool.take.2.scheduler.pending.map Prod.snd) := by
    intro id
    rw [waiting trivial id, jobsOf_map_snd id keyed, hfirst id, List.map_append, jobsOf_append,
      jobsOf_map_snd id fun item hm => hkeyed item (List.mem_append_left _ hm),
      jobsOf_map_snd id fun item hm => hkeyed item (List.mem_append_right _ hm),
      List.append_assoc]
  constructor
  · intro item hm
    simp only [Stage.batch, Stage.leaving, List.append_nil] at hm
    exact hkeyed item (List.perm_append_comm.subset hm)
  · exact accepted
  · exact fun _ => hsplit
  · exact fun id => ⟨_, (hsplit id).symm⟩

theorem act (h : w.Orderly) (hact : Act w w') : w'.Orderly := by
  cases hact with
  | ask job hs => exact { h with }
  | refuse hj hs => exact { h with }
  | @send job p hj hp =>
    obtain ⟨-, rfl⟩ := Pool.send_eq_ok hp
    refine { h with accepted := ?_ }
    simp [h.accepted, Pool.offered, PoolMessage.job?]
  | wake hp =>
    obtain ⟨-, rfl⟩ := Pool.send_eq_ok hp
    refine { h with accepted := ?_ }
    simp [h.accepted, Pool.offered, PoolMessage.job?]
  | receive hs hi => exact h.receive hs hi
  | @hear c rest hs hi =>
    have hpool := h.pool (p := ({ w.pool with inbox := rest }.handle (.finished c)).1)
      (by rw [Pool.handle_finished, Pool.forward_scheduler]; rfl)
      (by simp [Pool.handle_finished, Pool.offered, hi, List.filterMap_cons, PoolMessage.job?])
    exact { hpool with }
  | @woken rest hs hi =>
    exact h.pool rfl
      (by simp [Pool.handle, Pool.offered, hi, List.filterMap_cons, PoolMessage.job?])
  | decide hs hi => exact h.next rfl rfl (List.nil_subset _) fun _ => hs ▸ trivial
  | take hs hb => exact h.take hs
  | wait hs hb hc => exact h.next rfl rfl (List.nil_subset _) fun _ => hs ▸ trivial
  | drain hs hb hc =>
    obtain ⟨keyed, accepted, waiting, ordered⟩ := h
    rw [hs] at keyed
    simp only [Stage.batch, Stage.leaving, List.append_nil] at keyed
    exact ⟨keyed, accepted, False.elim, ordered⟩
  | @start item rest spawn hs hn hspawn =>
    have hnext : Orderly { w with pool := (w.pool.start spawn item).1, stage := .starting rest } :=
      h.next (by rw [Pool.start_ok hspawn]) (by rw [Pool.start_ok hspawn]; rfl)
        (by rw [hs]; exact List.subset_cons_self _ _) fun _ => hs ▸ trivial
    exact { hnext with }
  | @startFails item rest reason spawn hs hn hspawn =>
    have hnext : Orderly { w with pool := (w.pool.start spawn item).1, stage := .starting rest } :=
      h.next (by rw [Pool.start_error hspawn, Pool.forward_scheduler]; rfl)
        (by rw [Pool.start_error hspawn, Pool.forward_offered]; rfl)
        (by rw [hs]; exact List.subset_cons_self _ _) fun _ => hs ▸ trivial
    exact { hnext with }
  | panic hs hn =>
    refine { h with keyed := ?_, waiting := False.elim }
    have hkeyed := h.keyed
    rwa [hs] at hkeyed
  | settle hs => exact h.next rfl rfl (List.nil_subset _) fun _ => hs ▸ trivial
  | @giveUp item rest hs =>
    have hnext : Orderly { w with pool := (w.pool.giveUp item).1, stage := .closing rest } :=
      h.next (by rw [Pool.giveUp, Pool.forward_scheduler])
        (by rw [Pool.giveUp, Pool.forward_offered])
        (by rw [hs]; exact List.subset_cons_self _ _) False.elim
    exact { hnext with }
  | close hs =>
    have hended : Orderly { w with stage := .ended [] } :=
      h.next rfl rfl (List.nil_subset _) False.elim
    exact { hended with }
  | read hr =>
    obtain ⟨-, hp⟩ := Pool.read_eq_some hr
    rw [hp]
    exact { h with }

theorem step (h : w.Orderly) (hstep : Step w w') : w'.Orderly := by
  cases hstep with
  | act hact => exact h.act hact
  | flag b => exact { h with }
  | finish c hc =>
    have hpool := h.pool (p := w.pool.finish c) (by rw [Pool.finish_eq]) (by
      rw [Pool.finish_eq]
      by_cases hserving : w.pool.status = .serving <;>
        simp [Pool.offered, PoolMessage.job?, hserving])
    exact { hpool with }

end Orderly

end Workshop

end FlowEngine
