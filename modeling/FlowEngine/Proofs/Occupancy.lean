import FlowEngine.Proofs.Turns

/-! # How many jobs are under way

A job is under way from its start until the dispatcher has heard of its end. The counter of a pool
and the active keys of its scheduler are views of the jobs under way, and of those that were taken
and are still in hand. So no more than the width are under way, of each session at most one.
-/
namespace FlowEngine

/-- Jobs that were started and whose end the dispatcher has not heard of. -/
def Pool.underWay (p : Pool) (unheard : List Completion) : List Job :=
  p.running ++ p.finished.map Completion.job ++ unheard.map Completion.job

/-- The counter and the active keys of a pool agree with the jobs under way and those in hand. -/
structure Pool.Tallied (n : Nat) (batch : List (String × Job)) (unheard : List Completion)
    (p : Pool) : Prop where
  width : p.width = n
  counted : p.inFlight = (p.underWay unheard).length
  active : p.scheduler.active.Perm ((p.underWay unheard).map Job.key ++ batch.map Prod.fst)
  distinct : p.scheduler.active.Nodup
  bounded : (p.underWay unheard).length + batch.length ≤ n

namespace Pool

variable {n : Nat} {p : Pool} {batch : List (String × Job)} {unheard : List Completion}
  {c : Completion} {rest : List PoolMessage} {item : String × Job}
  {spawn : Job → Except String Unit}

section UnderWay

variable (unheard)

theorem underWay_hear (hi : p.inbox = .finished c :: rest) :
    (p.underWay unheard).Perm
      (c.job :: ({ p with inbox := rest }.handle (.finished c)).1.underWay unheard) := by
  have hrunning : ({ p with inbox := rest }.handle (.finished c)).1.running = p.running := by
    rw [handle_finished, forward_running]
  rw [List.perm_iff_count]
  intro job
  simp only [underWay, finished_hear hi, hrunning, List.map_cons, List.count_append,
    List.count_cons]
  omega

theorem underWay_start (hspawn : spawn item.2 = .ok ()) :
    ((p.start spawn item).1.underWay unheard).Perm (item.2 :: p.underWay unheard) := by
  rw [List.perm_iff_count]
  intro job
  simp only [underWay, start_ok hspawn, finished, List.count_append, List.count_cons,
    List.count_nil]
  omega

theorem underWay_startFails {reason : String} (hspawn : spawn item.2 = .error reason) :
    (p.start spawn item).1.underWay unheard = p.underWay unheard := by
  simp only [underWay, start_error hspawn, forward_running, forward_finished]
  rfl

theorem underWay_giveUp : (p.giveUp item).1.underWay unheard = p.underWay unheard := by
  simp only [underWay, giveUp, forward_running, forward_finished]

theorem underWay_finish (hc : c.job ∈ p.running) :
    ((p.finish c).underWay (if p.status = .serving then unheard else unheard ++ [c])).Perm
      (p.underWay unheard) := by
  rw [List.perm_iff_count]
  intro job
  have herase := (List.perm_cons_erase hc).count_eq job
  rw [List.count_cons] at herase
  by_cases hs : p.status = .serving
  · simp only [underWay, finish_eq, finished, hs, if_true, List.filterMap_append,
      List.filterMap_cons, List.filterMap_nil, PoolMessage.completion?, List.map_append,
      List.map_cons, List.map_nil, List.count_append, List.count_cons, List.count_nil]
    omega
  · simp only [underWay, finish_eq, finished, hs, if_false, List.map_append,
      List.map_cons, List.map_nil, List.count_append, List.count_cons, List.count_nil]
    omega

end UnderWay

namespace Tallied

theorem ofSize (width room : Nat) : (Pool.ofSize width room).Tallied (max 1 width) [] [] := by
  constructor
  · rfl
  · rfl
  · exact .refl _
  · exact List.nodup_nil
  · exact Nat.zero_le _

theorem keep (h : p.Tallied n batch unheard) {q : Pool} {unheard' : List Completion}
    (hwidth : q.width = p.width) (hcount : q.inFlight = p.inFlight)
    (hactive : q.scheduler.active = p.scheduler.active)
    (hperm : (q.underWay unheard').Perm (p.underWay unheard)) : q.Tallied n batch unheard' := by
  obtain ⟨width, counted, active, distinct, bounded⟩ := h
  constructor
  · exact hwidth.trans width
  · rw [hcount, hperm.length_eq]
    exact counted
  · rw [hactive]
    exact active.trans ((hperm.map Job.key).symm.append_right _)
  · rwa [hactive]
  · rwa [hperm.length_eq]

theorem hear (h : p.Tallied n batch unheard) (hi : p.inbox = .finished c :: rest) :
    ({ p with inbox := rest }.handle (.finished c)).1.Tallied n batch unheard := by
  obtain ⟨width, counted, active, distinct, bounded⟩ := h
  have hway := underWay_hear unheard hi
  have hlength := hway.length_eq
  rw [List.length_cons] at hlength
  have hcount : ({ p with inbox := rest }.handle (.finished c)).1.inFlight = p.inFlight - 1 := by
    rw [handle_finished, forward_inFlight]
  have hactive : ({ p with inbox := rest }.handle (.finished c)).1.scheduler.active =
      p.scheduler.active.erase c.job.key := by
    rw [handle_finished, forward_scheduler]
    exact Scheduler.complete_active distinct c.job.key
  constructor
  · rwa [handle_finished, forward_width]
  · omega
  · rw [hactive]
    have hkeys := active.trans ((hway.map Job.key).append_right _)
    simpa using hkeys.erase c.job.key
  · rw [hactive]
    exact distinct.erase _
  · omega

theorem take (h : p.Tallied n [] unheard) : p.take.2.Tallied n p.take.1 unheard := by
  obtain ⟨width, counted, active, distinct, bounded⟩ := h
  obtain ⟨hfew, hinactive, hdistinct, -, -⟩ := p.take_selects
  have hway : p.take.2.underWay unheard = p.underWay unheard := rfl
  simp only [List.map_nil, List.append_nil, List.length_nil] at active bounded
  constructor
  · exact width
  · exact counted
  · rw [take_active, hway]
    exact active.append_right _
  · rw [take_active, List.nodup_append]
    refine ⟨distinct, hdistinct, ?_⟩
    intro key hkey other hother heq
    obtain ⟨taken, hm, rfl⟩ := List.mem_map.mp hother
    exact hinactive taken hm (heq ▸ hkey)
  · rw [hway]
    omega

theorem start (h : p.Tallied n (item :: batch) unheard) (hkey : item.1 = item.2.key)
    (hspawn : spawn item.2 = .ok ()) : (p.start spawn item).1.Tallied n batch unheard := by
  obtain ⟨width, counted, active, distinct, bounded⟩ := h
  have hway := underWay_start (p := p) unheard hspawn
  have hlength := hway.length_eq
  simp only [List.map_cons, List.length_cons] at active bounded hlength
  have hcount : (p.start spawn item).1.inFlight = p.inFlight + 1 := by rw [start_ok hspawn]
  have hactive : (p.start spawn item).1.scheduler.active = p.scheduler.active := by
    rw [start_ok hspawn]
  constructor
  · rwa [start_ok hspawn]
  · omega
  · rw [hactive]
    refine active.trans (List.perm_middle.trans ?_)
    rw [hkey]
    exact (hway.map Job.key).symm.append_right (batch.map Prod.fst)
  · rwa [hactive]
  · omega

theorem startFails {reason : String} (h : p.Tallied n (item :: batch) unheard)
    (hspawn : spawn item.2 = .error reason) : (p.start spawn item).1.Tallied n batch unheard := by
  obtain ⟨width, counted, active, distinct, bounded⟩ := h
  have hway := underWay_startFails (p := p) unheard hspawn
  simp only [List.map_cons, List.length_cons] at active bounded
  have hactive : (p.start spawn item).1.scheduler.active = p.scheduler.active.erase item.1 := by
    rw [start_error hspawn, forward_scheduler]
    exact Scheduler.complete_active distinct item.1
  constructor
  · rwa [start_error hspawn, forward_width]
  · rwa [hway, start_error hspawn, forward_inFlight]
  · rw [hactive, hway]
    simpa using (active.trans List.perm_middle).erase item.1
  · rw [hactive]
    exact distinct.erase _
  · rw [hway]
    omega

end Tallied

end Pool

namespace Workshop

variable {n : Nat} {w w' : Workshop}

def underWay (w : Workshop) : List Job := w.pool.underWay w.unheard

/-- The pool is tallied, and each job that was taken is tried once to be started. -/
structure Counted (n : Nat) (w : Workshop) : Prop where
  tallied : w.pool.Tallied n w.stage.batch w.unheard
  tried : ∃ tried, w.taken = tried ++ w.stage.batch.map Prod.snd ∧ w.started.Sublist tried
  started : w.started.Perm (w.heard.map Completion.job ++ w.underWay)

namespace Counted

theorem opening (width room : Nat) : Counted (max 1 width) (opening width room) := by
  constructor
  · exact .ofSize width room
  · exact ⟨[], rfl, List.Sublist.refl _⟩
  · exact .refl _

theorem keep (h : w.Counted n) {p : Pool} {stage : Stage} {unheard : List Completion}
    (hwidth : p.width = w.pool.width) (hcount : p.inFlight = w.pool.inFlight)
    (hactive : p.scheduler.active = w.pool.scheduler.active) (hbatch : stage.batch = w.stage.batch)
    (hperm : (p.underWay unheard).Perm w.underWay) :
    Counted n { w with pool := p, stage := stage, unheard := unheard } := by
  obtain ⟨tallied, tried, started⟩ := h
  constructor
  · show p.Tallied n stage.batch unheard
    rw [hbatch]
    exact tallied.keep hwidth hcount hactive hperm
  · show ∃ tried, w.taken = tried ++ stage.batch.map Prod.snd ∧ w.started.Sublist tried
    rwa [hbatch]
  · exact started.trans (hperm.symm.append_left _)

theorem hear (h : w.Counted n) {c : Completion} {rest : List PoolMessage}
    (hi : w.pool.inbox = .finished c :: rest) :
    Counted n { w with
      pool := ({ w.pool with inbox := rest }.handle (.finished c)).1
      heard := w.heard ++ [c]
      reports := w.reports ++ [c] } := by
  obtain ⟨tallied, tried, started⟩ := h
  refine ⟨tallied.hear hi, tried, ?_⟩
  rw [List.map_append, List.append_assoc]
  exact started.trans ((Pool.underWay_hear w.unheard hi).append_left _)

theorem take (h : w.Counted n) (hs : w.stage = .deciding) :
    Counted n { w with
      pool := w.pool.take.2
      stage := .starting w.pool.take.1
      taken := w.taken ++ w.pool.take.1.map Prod.snd } := by
  obtain ⟨tallied, ⟨tried, htaken, hsub⟩, started⟩ := h
  rw [hs] at tallied htaken
  refine ⟨tallied.take, ⟨tried, ?_, hsub⟩, started⟩
  rw [htaken]
  simp [Stage.batch]

theorem start (h : w.Counted n) {item : String × Job} {rest : List (String × Job)}
    {spawn : Job → Except String Unit} (hs : w.stage = .starting (item :: rest))
    (hkey : item.1 = item.2.key) (hspawn : spawn item.2 = .ok ()) :
    Counted n { w with
      pool := (w.pool.start spawn item).1
      stage := .starting rest
      started := w.started ++ [item.2] } := by
  obtain ⟨tallied, ⟨tried, htaken, hsub⟩, started⟩ := h
  rw [hs] at tallied htaken
  refine ⟨tallied.start hkey hspawn, ⟨tried ++ [item.2], ?_, hsub.append (.refl _)⟩, ?_⟩
  · rw [htaken]
    simp [Stage.batch]
  · refine (started.append_right _).trans ?_
    rw [List.append_assoc]
    refine .append_left _ (List.perm_append_comm.trans ?_)
    exact (Pool.underWay_start w.unheard hspawn).symm

theorem startFails (h : w.Counted n) {item : String × Job} {rest : List (String × Job)}
    {spawn : Job → Except String Unit} {reason : String}
    (hs : w.stage = .starting (item :: rest)) (hspawn : spawn item.2 = .error reason) :
    Counted n { w with pool := (w.pool.start spawn item).1, stage := .starting rest } := by
  obtain ⟨tallied, ⟨tried, htaken, hsub⟩, started⟩ := h
  rw [hs] at tallied htaken
  refine ⟨tallied.startFails hspawn, ⟨tried ++ [item.2], ?_, ?_⟩, ?_⟩
  · rw [htaken]
    simp [Stage.batch]
  · exact hsub.trans (List.sublist_append_left _ _)
  · refine started.trans (.append_left _ (.of_eq ?_))
    exact (Pool.underWay_startFails w.unheard hspawn).symm

theorem act (h : w.Counted n) (ho : w.Orderly) (hact : Act w w') : w'.Counted n := by
  have nothing : ∀ {p : Pool}, p.finished = w.pool.finished → p.running = w.pool.running →
      (p.underWay w.unheard).Perm w.underWay := by
    intro p hfinished hrunning
    rw [underWay, Pool.underWay, Pool.underWay, hfinished, hrunning]
  cases hact with
  | ask job hs => exact { h with }
  | refuse hj hs => exact { h with }
  | @send job p hj hp =>
    obtain ⟨-, rfl⟩ := Pool.send_eq_ok hp
    have hkeep := h.keep (p := { w.pool with inbox := w.pool.inbox ++ [.submit job] })
      rfl rfl rfl rfl (nothing (Pool.finished_send rfl) rfl)
    exact { hkeep with }
  | wake hp =>
    obtain ⟨-, rfl⟩ := Pool.send_eq_ok hp
    exact h.keep rfl rfl rfl rfl (nothing (Pool.finished_send rfl) rfl)
  | @receive job rest hs hi =>
    have hkeep := h.keep (p := ({ w.pool with inbox := rest }.handle (.submit job)).1)
      rfl rfl rfl rfl (nothing (Pool.finished_receive hi) rfl)
    exact { hkeep with }
  | hear hs hi => exact h.hear hi
  | woken hs hi => exact h.keep rfl rfl rfl rfl (nothing (Pool.finished_woken hi) rfl)
  | decide hs hi => exact h.keep rfl rfl rfl (by rw [hs]; rfl) (nothing rfl rfl)
  | take hs hb => exact h.take hs
  | wait hs hb hc => exact h.keep rfl rfl rfl (by rw [hs]; rfl) (nothing rfl rfl)
  | drain hs hb hc => exact h.keep rfl rfl rfl (by rw [hs]; rfl) (nothing rfl rfl)
  | @start item rest spawn hs hn hspawn =>
    refine h.start hs (ho.keyed item ?_) hspawn
    rw [hs]
    exact List.mem_append_left _ (List.mem_append_right _ List.mem_cons_self)
  | startFails hs hn hspawn =>
    have hfails := h.startFails hs hspawn
    exact { hfails with }
  | panic hs hn => exact h.keep rfl rfl rfl (by rw [hs]; rfl) (nothing rfl rfl)
  | settle hs => exact h.keep rfl rfl rfl (by rw [hs]; rfl) (nothing rfl rfl)
  | @giveUp item rest hs =>
    have hkeep : Counted n { w with pool := (w.pool.giveUp item).1, stage := .closing rest } :=
      h.keep (by rw [Pool.giveUp, Pool.forward_width]) (by rw [Pool.giveUp, Pool.forward_inFlight])
        (by rw [Pool.giveUp, Pool.forward_scheduler]) (by rw [hs]; rfl)
        (.of_eq (Pool.underWay_giveUp _))
    exact { hkeep with }
  | close hs => exact h.keep rfl rfl rfl (by rw [hs]; rfl) (nothing rfl rfl)
  | @read c p hr =>
    obtain ⟨-, hp⟩ := Pool.read_eq_some hr
    rw [hp]
    have hkeep := h.keep (p := { w.pool with completions := p.completions }) rfl rfl rfl rfl
      (nothing rfl rfl)
    exact { hkeep with }

theorem step (h : w.Counted n) (ho : w.Orderly) (hstep : Step w w') : w'.Counted n := by
  cases hstep with
  | act hact => exact h.act ho hact
  | flag b => exact { h with }
  | finish c hc =>
    exact h.keep (by rw [Pool.finish_eq]) (by rw [Pool.finish_eq]) (by rw [Pool.finish_eq]) rfl
      (Pool.underWay_finish _ hc)

end Counted

theorem Reachable.invariant {width room : Nat} (hw : Reachable width room w) :
    w.Orderly ∧ w.Counted (max 1 width) := by
  induction hw with
  | refl => exact ⟨.opening width room, .opening width room⟩
  | tail _ hstep ih => exact ⟨ih.1.step hstep, ih.2.step ih.1 hstep⟩

theorem Counted.distinct_running (h : w.Counted n) : (w.pool.running.map Job.key).Nodup := by
  have hkeys := (List.nodup_append.mp (h.tallied.active.nodup h.tallied.distinct)).1
  refine hkeys.sublist (List.Sublist.map _ ?_)
  rw [Pool.underWay, List.append_assoc]
  exact List.sublist_append_left _ _

/-- Whatever the order in which a pool is used, its dispatcher goes on and its jobs end: no more
jobs are running than the width allows, and of each session at most one. The jobs of a session are
taken in the order in which they came into the inbox, those that are started keep this order, and
none is started more often than it was accepted. The counter is the number of jobs that were started
and not heard of; there are as many active keys, with those of the jobs that are in hand to be
started, which are none between two turns. Nothing that is subtracted exceeds what it is subtracted
from. -/
theorem runs_in_order {width room : Nat} (hw : Reachable width room w) :
    w.pool.running.length ≤ max 1 width ∧
    (w.pool.running.map Job.key).Nodup ∧
    (∀ id, jobsOf id w.taken <+: jobsOf id w.accepted ∧
      (jobsOf id w.started).Sublist (jobsOf id w.taken)) ∧
    (∀ job, w.started.count job ≤ w.accepted.count job) ∧
    w.started.Perm (w.heard.map Completion.job ++ w.underWay) ∧
    w.pool.inFlight = w.underWay.length ∧
    w.pool.scheduler.active.Nodup ∧
    w.pool.scheduler.active.length = w.pool.inFlight + w.stage.batch.length ∧
    (w.stage = .receiving → w.pool.scheduler.active.length = w.pool.inFlight) ∧
    w.pool.finished.length ≤ w.pool.inFlight ∧ w.pool.inFlight ≤ w.pool.width := by
  obtain ⟨horder, hcounted⟩ := hw.invariant
  have hone := hcounted.distinct_running
  obtain ⟨tallied, ⟨tried, htried, hsub⟩, hstarted⟩ := hcounted
  obtain ⟨hwidth, hcount, hactive, hdistinct, hbounded⟩ := tallied
  have hway : w.underWay.length = w.pool.running.length + w.pool.finished.length +
      w.unheard.length := by
    simp [underWay, Pool.underWay, Nat.add_assoc]
  have htaken : w.started.Sublist w.taken := by
    rw [htried]
    exact hsub.trans (List.sublist_append_left _ _)
  have hreceived : ∀ id, jobsOf id w.taken <+: jobsOf id w.accepted := by
    intro id
    rw [horder.accepted, jobsOf_append]
    exact (horder.ordered id).trans (List.prefix_append _ _)
  change w.pool.inFlight = w.underWay.length at hcount
  change w.underWay.length + w.stage.batch.length ≤ max 1 width at hbounded
  have hkeys : w.pool.scheduler.active.length = w.pool.inFlight + w.stage.batch.length := by
    rw [hactive.length_eq, hcount]
    simp [underWay]
  refine ⟨by omega, hone, fun id => ⟨hreceived id, htaken.filter _⟩, ?_,
    hstarted, hcount, hdistinct, hkeys, fun hs => ?_, by omega, by omega⟩
  · intro job
    have hcounts : (jobsOf job.key w.started).Sublist (jobsOf job.key w.accepted) :=
      (htaken.filter _).trans (hreceived job.key).sublist
    have hself : ∀ jobs : List Job, (jobsOf job.key jobs).count job = jobs.count job :=
      fun jobs => List.count_filter (by simp)
    rw [← hself w.started, ← hself w.accepted]
    exact hcounts.count_le job
  · rwa [hs] at hkeys

end Workshop

namespace Sample

def sessionJob : Job := .session "acme" "session-a"

def stepJob : Job := .step "acme" "session-a" "draft" none false

def otherJob : Job := .session "acme" "session-b"

/-- Two jobs were started, one of which has ended; another one for its session is waiting. -/
def busyWorkshop : Workshop :=
  ((((((Workshop.opening 2 8).offer sessionJob).offer stepJob).offer otherJob).turn
    fun _ => .ok ()).finish ⟨sessionJob, .ok (.session .finished)⟩)

theorem reachable_busyWorkshop : Workshop.Reachable 2 8 busyWorkshop := by
  refine .trans ?_ (Workshop.execution_finish (by decide +kernel))
  refine .trans ?_ (Workshop.acts_turn _ (by decide +kernel)).execution
  exact Workshop.Acts.execution (((Workshop.acts_offer _).trans (Workshop.acts_offer _)).trans
    (Workshop.acts_offer _))

end Sample

/-- One job is running and another one has ended, while a third waits for its session. -/
theorem Workshop.runs_in_order_busy :
    Sample.busyWorkshop.pool.running = [Sample.otherJob] ∧
    Sample.busyWorkshop.started = [Sample.sessionJob, Sample.otherJob] ∧
    Sample.busyWorkshop.pool.inFlight = 2 ∧
    Sample.busyWorkshop.pool.running.length ≤ max 1 2 ∧
    (Sample.busyWorkshop.pool.running.map Job.key).Nodup ∧
    Sample.busyWorkshop.pool.scheduler.active.length = Sample.busyWorkshop.pool.inFlight := by
  obtain ⟨hfew, hone, -, -, -, -, -, -, hactive, -⟩ :=
    Workshop.runs_in_order Sample.reachable_busyWorkshop
  have hstage : Sample.busyWorkshop.stage = .receiving := by decide +kernel
  exact ⟨by decide +kernel, by decide +kernel, by decide +kernel, hfew, hone, hactive hstage⟩

end FlowEngine
