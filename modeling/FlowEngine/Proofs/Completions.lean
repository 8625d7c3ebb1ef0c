import FlowEngine.Proofs.Occupancy

/-! # What becomes of accepted jobs

Each accepted job has been reported once or is still in hand somewhere, and each report was handed
over or counted. A dispatcher that closes its pool has reported all that it received. But it looks
at the flag after its last look at the inbox: what was put there in between is lost, although its
submission succeeded. All that is in hand is lost when a job comes whose worker cannot bear its
name.
-/
namespace FlowEngine

/-- The pool could not or would not start the job. -/
def Completion.Refusal (c : Completion) : Prop :=
  (∃ reason, c.result = .error (.spawn (Pool.workerName c.job.key) reason)) ∨
    c.result = .error .poolClosed

/-- The reports were handed over one after another, as long as there was room; the others are
counted. -/
structure Pool.Reported (reports delivered : List Completion) (p : Pool) : Prop where
  kept : (delivered ++ p.completions).Sublist reports
  dropped : reports.length = delivered.length + p.completions.length + p.dropped

/-- How the pool stands when the dispatcher is at a stage. -/
def Stage.Fits : Stage → Pool → Prop
  | .receiving, p | .deciding, p | .starting _, p => p.status = .serving
  | .closing _, p => p.status = .serving ∧ p.scheduler.pending = [] ∧ p.inFlight = 0
  | .ended [], p => p.status = .closed ∧ p.scheduler.pending = [] ∧ p.inFlight = 0
  | .ended (item :: _), p => p.status = .broken ∧ Pool.isNameable (Pool.workerName item.1) = false

namespace Pool

variable {p q : Pool} {reports delivered : List Completion}

theorem Reported.keep (h : p.Reported reports delivered) (hc : q.completions = p.completions)
    (hd : q.dropped = p.dropped) : q.Reported reports delivered := by
  obtain ⟨kept, dropped⟩ := h
  constructor
  · rwa [hc]
  · rwa [hc, hd]

theorem Reported.forward (h : p.Reported reports delivered) (c : Completion) :
    (p.forward c).1.Reported (reports ++ [c]) delivered := by
  obtain ⟨kept, dropped⟩ := h
  rw [Pool.forward]
  split
  · constructor
    · rw [← List.append_assoc]
      exact kept.append (.refl [c])
    · simp only [List.length_append, List.length_singleton]
      omega
  · constructor
    · exact kept.trans (List.sublist_append_left _ _)
    · simp only [List.length_append, List.length_singleton]
      omega

theorem Reported.read {c : Completion} (h : p.Reported reports delivered)
    (hr : p.read = (some c, q)) : q.Reported reports (delivered ++ [c]) := by
  obtain ⟨kept, dropped⟩ := h
  obtain ⟨hc, hq⟩ := read_eq_some hr
  rw [hc] at kept dropped
  rw [hq]
  constructor
  · simpa using kept
  · simp only [List.length_append, List.length_cons, List.length_nil] at dropped ⊢
    omega

end Pool

theorem Stage.Fits.keep {stage : Stage} {p q : Pool} (h : stage.Fits p)
    (hstatus : q.status = p.status) (hpending : q.scheduler.pending = p.scheduler.pending)
    (hcount : q.inFlight = p.inFlight) : stage.Fits q := by
  rcases stage with _ | _ | items | items | (_ | ⟨item, rest⟩)
  all_goals simpa only [Stage.Fits, hstatus, hpending, hcount] using h

theorem Stage.Fits.closed {stage : Stage} {p : Pool} (h : stage.Fits p)
    (hc : p.status = .closed) :
    stage = .ended [] ∧ p.scheduler.pending = [] ∧ p.inFlight = 0 := by
  rcases stage with _ | _ | items | items | (_ | ⟨item, rest⟩)
  case ended.nil => exact ⟨rfl, h.2⟩
  all_goals simp [Stage.Fits, hc] at h

theorem Stage.Fits.broken {stage : Stage} {p : Pool} (h : stage.Fits p)
    (hb : p.status = .broken) : ∃ item rest, stage = .ended (item :: rest) ∧
      Pool.isNameable (Pool.workerName item.1) = false := by
  rcases stage with _ | _ | items | items | (_ | ⟨item, rest⟩)
  case ended.cons => exact ⟨item, rest, rfl, h.2⟩
  all_goals simp [Stage.Fits, hb] at h

theorem Pool.null_of_unnameable {key : String}
    (h : Pool.isNameable (Pool.workerName key) = false) : '\x00' ∈ key.toList := by
  have hname : (Pool.workerName key).toList = "session-job-".toList ++ key.toList := by
    simp [Pool.workerName, toString]
  have hprefix : '\x00' ∉ "session-job-".toList := by decide +kernel
  rw [Pool.isNameable, decide_eq_false_iff_not, not_not, hname] at h
  exact (List.mem_append.mp h).resolve_left hprefix

namespace Workshop

def waiting (w : Workshop) : List Job :=
  (w.pool.scheduler.pending ++ w.stage.batch ++ w.stage.leaving).map Prod.snd

/-- Accepted jobs of which nothing has been reported. -/
def inHand (w : Workshop) : List Job := w.pool.offered ++ w.waiting ++ w.underWay

/-- What was received has been reported, or waits, or is under way. -/
structure Conserved (w : Workshop) : Prop where
  jobs : w.received.Perm (w.reports.map Completion.job ++ w.waiting ++ w.underWay)
  reported : w.pool.Reported w.reports w.delivered
  kinds : ∀ c ∈ w.reports, c ∈ w.heard ∨ c.Refusal
  fits : w.stage.Fits w.pool

variable {w w' : Workshop}

namespace Conserved

theorem opening (width room : Nat) : (opening width room).Conserved := by
  constructor
  · exact List.Perm.nil
  · exact ⟨List.Sublist.slnil, rfl⟩
  · intro c hc
    cases hc
  · exact rfl

theorem keep (h : w.Conserved) {p : Pool} {stage : Stage} {unheard : List Completion}
    (hkept : p.completions = w.pool.completions ∧ p.dropped = w.pool.dropped)
    (hjobs : ((p.scheduler.pending ++ stage.batch ++ stage.leaving).map Prod.snd ++
      p.underWay unheard).Perm (w.waiting ++ w.underWay)) (hfits : stage.Fits p) :
    Conserved { w with pool := p, stage := stage, unheard := unheard } := by
  obtain ⟨jobs, ⟨kept, dropped⟩, kinds, -⟩ := h
  refine ⟨?_, ⟨?_, ?_⟩, kinds, hfits⟩
  · rw [List.append_assoc] at jobs
    rw [List.append_assoc]
    exact jobs.trans (hjobs.symm.append_left _)
  · rwa [hkept.1]
  · rwa [hkept.1, hkept.2]

theorem report (h : w.Conserved) {p : Pool} {stage : Stage} {heard : List Completion}
    (c : Completion) (hreported : p.Reported (w.reports ++ [c]) w.delivered)
    (hjobs : (w.waiting ++ w.underWay).Perm
      (c.job :: ((p.scheduler.pending ++ stage.batch ++ stage.leaving).map Prod.snd ++
        p.underWay w.unheard))) (hheard : ∀ c ∈ w.heard, c ∈ heard)
    (hkind : c ∈ heard ∨ c.Refusal) (hfits : stage.Fits p) :
    Conserved { w with
      pool := p
      stage := stage
      heard := heard
      reports := w.reports ++ [c] } := by
  obtain ⟨jobs, reported, kinds, -⟩ := h
  refine ⟨?_, hreported, ?_, hfits⟩
  · rw [List.append_assoc] at jobs
    rw [List.map_append, List.append_assoc, List.append_assoc]
    exact jobs.trans (hjobs.append_left _)
  · intro other hm
    rcases List.mem_append.mp hm with hm | hm
    · exact (kinds other hm).imp_left (hheard other)
    · exact List.mem_singleton.mp hm ▸ hkind

theorem receive (h : w.Conserved) {job : Job} {rest : List PoolMessage}
    (hs : w.stage = .receiving) (hi : w.pool.inbox = .submit job :: rest) :
    Conserved { w with
      pool := ({ w.pool with inbox := rest }.handle (.submit job)).1
      received := w.received ++ [job] } := by
  obtain ⟨jobs, ⟨kept, dropped⟩, kinds, fits⟩ := h
  refine ⟨?_, ⟨kept, dropped⟩, kinds, ?_⟩
  · have hway : ({ w.pool with inbox := rest }.handle (.submit job)).1.underWay w.unheard =
        w.underWay := by
      rw [underWay, Pool.underWay, Pool.underWay, Pool.finished_receive hi]
      rfl
    rw [List.perm_iff_count] at jobs ⊢
    intro other
    have hcount := jobs other
    simp only [waiting, hs, Stage.batch, Stage.leaving, List.append_nil,
      List.count_append] at hcount ⊢
    show _ = _ +
      List.count other (List.map Prod.snd (w.pool.scheduler.pending ++ [(job.key, job)])) +
      List.count other (({ w.pool with inbox := rest }.handle (.submit job)).1.underWay w.unheard)
    simp only [hway, List.map_append, List.count_append, List.map_cons, List.map_nil]
    omega
  · show w.stage.Fits _
    rw [hs] at fits ⊢
    exact fits

theorem hear (h : w.Conserved) {c : Completion} {rest : List PoolMessage}
    (hs : w.stage = .receiving) (hi : w.pool.inbox = .finished c :: rest) :
    Conserved { w with
      pool := ({ w.pool with inbox := rest }.handle (.finished c)).1
      heard := w.heard ++ [c]
      reports := w.reports ++ [c] } := by
  have hfits := h.fits
  rw [hs] at hfits
  refine h.report (p := ({ w.pool with inbox := rest }.handle (.finished c)).1) c ?_ ?_
    (fun other => List.mem_append_left _) (.inl (List.mem_append_right _ List.mem_cons_self)) ?_
  · rw [Pool.handle_finished]
    refine Pool.Reported.forward ?_ c
    exact h.reported.keep rfl rfl
  · have hway := Pool.underWay_hear w.unheard hi
    have hpending : ({ w.pool with inbox := rest }.handle (.finished c)).1.scheduler.pending =
        w.pool.scheduler.pending := by
      rw [Pool.handle_finished, Pool.forward_scheduler]
      rfl
    rw [hpending]
    exact (hway.append_left w.waiting).trans List.perm_middle
  · rw [hs, Pool.handle_finished]
    exact (Pool.forward_status _ c).trans hfits

theorem take (h : w.Conserved) (hs : w.stage = .deciding) :
    Conserved { w with
      pool := w.pool.take.2
      stage := .starting w.pool.take.1
      taken := w.taken ++ w.pool.take.1.map Prod.snd } := by
  obtain ⟨-, -, -, hperm, -⟩ := w.pool.take_selects
  have hfits := h.fits
  rw [hs] at hfits
  have hkeep : Conserved { w with pool := w.pool.take.2, stage := .starting w.pool.take.1 } :=
    h.keep ⟨rfl, rfl⟩ ?_ hfits
  · exact { hkeep with }
  · refine .append_right _ ?_
    rw [waiting, hs]
    simp only [Stage.batch, Stage.leaving, List.append_nil]
    exact (List.perm_append_comm.trans hperm.symm).map Prod.snd

theorem drain (h : w.Conserved) (hs : w.stage = .deciding) (hidle : w.pool.inFlight = 0) :
    Conserved { w with pool := w.pool.drain.2, stage := .closing w.pool.drain.1 } := by
  have hfits := h.fits
  rw [hs] at hfits
  refine h.keep ⟨rfl, rfl⟩ ?_ ⟨hfits, rfl, hidle⟩
  refine .append_right _ (.of_eq ?_)
  rw [waiting, hs]
  simp [Stage.batch, Stage.leaving, Pool.drain, Scheduler.drain]

theorem start (h : w.Conserved) {item : String × Job} {rest : List (String × Job)}
    {spawn : Job → Except String Unit} (hs : w.stage = .starting (item :: rest))
    (hspawn : spawn item.2 = .ok ()) :
    Conserved { w with
      pool := (w.pool.start spawn item).1
      stage := .starting rest
      started := w.started ++ [item.2] } := by
  have hway := Pool.underWay_start (p := w.pool) w.unheard hspawn
  have hfits := h.fits
  rw [hs] at hfits
  have hkeep : Conserved { w with pool := (w.pool.start spawn item).1, stage := .starting rest } :=
    h.keep (by rw [Pool.start_ok hspawn]; exact ⟨rfl, rfl⟩) ?_
      (by rw [Pool.start_ok hspawn]; exact hfits)
  · exact { hkeep with }
  · have hpending : (w.pool.start spawn item).1.scheduler = w.pool.scheduler := by
      rw [Pool.start_ok hspawn]
    rw [hpending, waiting, hs]
    refine (hway.append_left _).trans ?_
    simp only [Stage.batch, Stage.leaving, List.append_nil, List.map_append, List.map_cons,
      List.append_assoc, List.cons_append]
    exact .append_left _ List.perm_middle

theorem startFails (h : w.Conserved) {item : String × Job} {rest : List (String × Job)}
    {spawn : Job → Except String Unit} {reason : String}
    (hs : w.stage = .starting (item :: rest)) (hkey : item.1 = item.2.key)
    (hspawn : spawn item.2 = .error reason) :
    Conserved { w with
      pool := (w.pool.start spawn item).1
      stage := .starting rest
      reports := w.reports ++ [⟨item.2, .error (.spawn (Pool.workerName item.1) reason)⟩] } := by
  have hway := Pool.underWay_startFails (p := w.pool) w.unheard hspawn
  have hfits := h.fits
  rw [hs] at hfits
  refine h.report ⟨item.2, .error (.spawn (Pool.workerName item.1) reason)⟩ ?_ ?_ (fun _ => id)
    (.inr (.inl ⟨reason, by rw [hkey]⟩)) ?_
  · rw [Pool.start_error hspawn]
    refine Pool.Reported.forward ?_ _
    exact h.reported.keep rfl rfl
  · have hpending : (w.pool.start spawn item).1.scheduler.pending = w.pool.scheduler.pending := by
      rw [Pool.start_error hspawn, Pool.forward_scheduler]
      rfl
    rw [hpending, hway, waiting, hs]
    simp only [Stage.batch, Stage.leaving, List.append_nil, List.map_append, List.map_cons]
    exact .append_right _ List.perm_middle
  · rw [Pool.start_error hspawn]
    exact (Pool.forward_status _ _).trans hfits

theorem giveUp (h : w.Conserved) {item : String × Job} {rest : List (String × Job)}
    (hs : w.stage = .closing (item :: rest)) :
    Conserved { w with
      pool := (w.pool.giveUp item).1
      stage := .closing rest
      reports := w.reports ++ [⟨item.2, .error .poolClosed⟩] } := by
  have hfits := h.fits
  rw [hs] at hfits
  refine h.report ⟨item.2, .error .poolClosed⟩ (h.reported.forward _) ?_ (fun _ => id)
    (.inr (.inr rfl)) ?_
  · have hpending : (w.pool.giveUp item).1.scheduler = w.pool.scheduler := by
      rw [Pool.giveUp, Pool.forward_scheduler]
    rw [hpending, Pool.underWay_giveUp, waiting, hs]
    simp only [Stage.batch, Stage.leaving, List.append_nil, List.map_append, List.map_cons]
    exact .append_right _ List.perm_middle
  · have hkept : Stage.Fits (.closing rest) w.pool := hfits
    exact hkept.keep (Pool.forward_status _ _) (by rw [Pool.giveUp, Pool.forward_scheduler])
      (Pool.forward_inFlight _ _)

theorem act (h : w.Conserved) (ho : w.Orderly) (hact : Act w w') : w'.Conserved := by
  have aside : ∀ {p : Pool}, p.scheduler = w.pool.scheduler → p.running = w.pool.running →
      p.finished = w.pool.finished → ((p.scheduler.pending ++ w.stage.batch ++
        w.stage.leaving).map Prod.snd ++ p.underWay w.unheard).Perm (w.waiting ++ w.underWay) := by
    intro p hscheduler hrunning hfinished
    rw [waiting, underWay, Pool.underWay, Pool.underWay, hscheduler, hrunning, hfinished]
  have turned : ∀ {stage : Stage}, stage.batch = w.stage.batch →
      stage.leaving = w.stage.leaving → ((w.pool.scheduler.pending ++ stage.batch ++
        stage.leaving).map Prod.snd ++ w.underWay).Perm (w.waiting ++ w.underWay) := by
    intro stage hbatch hleaving
    rw [waiting, hbatch, hleaving]
  have hfits := h.fits
  cases hact with
  | ask job hs => exact { h with }
  | refuse hj hs => exact { h with }
  | @send job p hj hp =>
    obtain ⟨-, rfl⟩ := Pool.send_eq_ok hp
    have hkeep := h.keep (p := { w.pool with inbox := w.pool.inbox ++ [.submit job] }) ⟨rfl, rfl⟩
      (aside rfl rfl (Pool.finished_send rfl)) (hfits.keep rfl rfl rfl)
    exact { hkeep with }
  | wake hp =>
    obtain ⟨-, rfl⟩ := Pool.send_eq_ok hp
    exact h.keep ⟨rfl, rfl⟩ (aside rfl rfl (Pool.finished_send rfl))
      (hfits.keep rfl rfl rfl)
  | receive hs hi => exact h.receive hs hi
  | hear hs hi => exact h.hear hs hi
  | woken hs hi =>
    exact h.keep ⟨rfl, rfl⟩ (aside rfl rfl (Pool.finished_woken hi)) (hfits.keep rfl rfl rfl)
  | decide hs hi =>
    exact h.keep ⟨rfl, rfl⟩ (turned (by rw [hs]; rfl) (by rw [hs]; rfl)) (by rwa [hs] at hfits)
  | take hs hb => exact h.take hs
  | wait hs hb hc =>
    exact h.keep ⟨rfl, rfl⟩ (turned (by rw [hs]; rfl) (by rw [hs]; rfl)) (by rwa [hs] at hfits)
  | drain hs hb hc => exact h.drain hs hc
  | start hs hn hspawn => exact h.start hs hspawn
  | @startFails item rest reason spawn hs hn hspawn =>
    refine h.startFails hs (ho.keyed item ?_) hspawn
    rw [hs]
    exact List.mem_append_left _ (List.mem_append_right _ List.mem_cons_self)
  | panic hs hn =>
    exact h.keep ⟨rfl, rfl⟩ (turned (by rw [hs]; rfl) (by rw [hs]; rfl)) ⟨rfl, hn⟩
  | settle hs =>
    exact h.keep ⟨rfl, rfl⟩ (turned (by rw [hs]; rfl) (by rw [hs]; rfl)) (by rwa [hs] at hfits)
  | giveUp hs => exact h.giveUp hs
  | close hs =>
    rw [hs] at hfits
    exact h.keep ⟨rfl, rfl⟩ (turned (by rw [hs]; rfl) (by rw [hs]; rfl)) ⟨rfl, hfits.2⟩
  | @read c p hr =>
    have hread := h.reported.read hr
    obtain ⟨-, hp⟩ := Pool.read_eq_some hr
    rw [hp] at hread ⊢
    exact ⟨h.jobs, hread, h.kinds, hfits.keep rfl rfl rfl⟩

theorem step (h : w.Conserved) (ho : w.Orderly) (hstep : Step w w') : w'.Conserved := by
  cases hstep with
  | act hact => exact h.act ho hact
  | flag b => exact { h with }
  | finish c hc =>
    refine h.keep (by rw [Pool.finish_eq]; exact ⟨rfl, rfl⟩) ?_
      (h.fits.keep (by rw [Pool.finish_eq]) (by rw [Pool.finish_eq]) (by rw [Pool.finish_eq]))
    have hscheduler : (w.pool.finish c).scheduler = w.pool.scheduler := by rw [Pool.finish_eq]
    rw [hscheduler]
    exact (Pool.underWay_finish _ hc).append_left _

end Conserved

theorem Reachable.conserved {width room : Nat} (hw : Reachable width room w) : w.Conserved := by
  induction hw with
  | refl => exact .opening width room
  | tail hexec hstep ih => exact ih.step (Reachable.invariant hexec).1 hstep

theorem Execution.ended {items : List (String × Job)} (hx : Execution w w')
    (hs : w.stage = .ended items) : w'.stage = .ended items ∧ w'.reports = w.reports := by
  induction hx with
  | refl => exact ⟨hs, rfl⟩
  | tail _ hstep ih =>
    obtain ⟨hstage, hreports⟩ := ih
    cases hstep with
    | flag | finish => exact ⟨hstage, hreports⟩
    | act hact =>
      cases hact with
      | ask | send | refuse | wake | read => exact ⟨hstage, hreports⟩
      | receive h | hear h | woken h | decide h | take h | wait h | drain h | start h | startFails h
      | panic h | settle h | giveUp h | close h =>
        rw [hstage] at h
        cases h

theorem mem_accepted_of_taken {width room : Nat} (hw : Reachable width room w) {job : Job}
    (hj : job ∈ w.taken) : job ∈ w.accepted := by
  have horder := hw.invariant.1
  have hmine : job ∈ jobsOf job.key w.taken := by
    rw [jobsOf, List.mem_filter]
    exact ⟨hj, by simp⟩
  rw [horder.accepted]
  exact List.mem_append_left _ (List.mem_of_mem_filter ((horder.ordered job.key).subset hmine))

/-- Each accepted job has been reported once or is in hand. A report is what the job came back with,
or says that it was not started, and was handed over or counted. When the pool is closed, a job has
been reported unless it was put into the inbox after the dispatcher had looked there for the last
time. Only a job of a session with a null character in its identifier breaks the pool. -/
theorem reported_once {width room : Nat} (hw : Reachable width room w) :
    w.accepted.Perm (w.reports.map Completion.job ++ w.inHand) ∧
    (∀ c ∈ w.reports, c ∈ w.heard ∨ c.Refusal) ∧
    (w.delivered ++ w.pool.completions).Sublist w.reports ∧
    w.reports.length = w.delivered.length + w.pool.completions.length + w.pool.dropped ∧
    (w.pool.status = .closed → w.pool.running = [] ∧
      w.accepted.Perm (w.reports.map Completion.job ++ w.pool.offered)) ∧
    (w.pool.status = .broken → ∃ job ∈ w.accepted, '\x00' ∈ job.key.toList) := by
  obtain ⟨jobs, ⟨kept, dropped⟩, kinds, fits⟩ := hw.conserved
  obtain ⟨horder, hcounted⟩ := hw.invariant
  have hall : w.accepted.Perm (w.reports.map Completion.job ++ w.inHand) := by
    rw [List.perm_iff_count] at jobs ⊢
    intro job
    have hcount := jobs job
    simp only [horder.accepted, inHand, List.count_append] at hcount ⊢
    omega
  refine ⟨hall, kinds, kept, dropped, fun hclosed => ?_, fun hbroken => ?_⟩
  · obtain ⟨hstage, hpending, hidle⟩ := fits.closed hclosed
    have hway : w.underWay = [] := List.eq_nil_of_length_eq_zero (hcounted.tallied.counted ▸ hidle)
    have hwaiting : w.waiting = [] := by
      simp [waiting, hstage, hpending, Stage.batch, Stage.leaving]
    have hrunning : w.pool.running = [] := by
      rw [underWay, Pool.underWay, List.append_assoc] at hway
      exact (List.append_eq_nil_iff.mp hway).1
    refine ⟨hrunning, ?_⟩
    rwa [inHand, hway, hwaiting, List.append_nil, List.append_nil] at hall
  · obtain ⟨item, rest, hstage, hname⟩ := fits.broken hbroken
    obtain ⟨tried, htaken, -⟩ := hcounted.tried
    have hitem : item ∈ w.stage.batch := hstage ▸ List.mem_cons_self
    have hmem : item.2 ∈ w.taken := by
      rw [htaken]
      exact List.mem_append_right _ (List.mem_map_of_mem hitem)
    have hkey := horder.keyed item (List.mem_append_left _ (List.mem_append_right _ hitem))
    exact ⟨item.2, mem_accepted_of_taken hw hmem, hkey ▸ Pool.null_of_unnameable hname⟩

end Workshop

namespace Sample

/-- Two jobs were accepted; one was run and the other one given up, and there was room for one
completion only. -/
def closedWorkshop : Workshop :=
  (((((Workshop.opening 1 1).offer sessionJob).offer otherJob).turn fun _ => .ok ()).finish
    ⟨sessionJob, .ok (.session .finished)⟩ |>.flagged true).turn fun _ => .ok ()

theorem reachable_closedWorkshop : Workshop.Reachable 1 1 closedWorkshop := by
  refine .trans ?_ (Workshop.acts_turn _ (by decide +kernel)).execution
  refine .trans ?_ (.single (.flag true))
  refine .trans ?_ (Workshop.execution_finish (by decide +kernel))
  refine .trans ?_ (Workshop.acts_turn _ (by decide +kernel)).execution
  exact Workshop.Acts.execution ((Workshop.acts_offer _).trans (Workshop.acts_offer _))

end Sample

theorem Workshop.reported_once_closed :
    Sample.closedWorkshop.pool.status = .closed ∧
    Sample.closedWorkshop.pool.dropped = 1 ∧
    Sample.closedWorkshop.accepted.Perm (Sample.closedWorkshop.reports.map Completion.job ++
      Sample.closedWorkshop.pool.offered) ∧
    Sample.closedWorkshop.reports.length = Sample.closedWorkshop.delivered.length +
      Sample.closedWorkshop.pool.completions.length + Sample.closedWorkshop.pool.dropped := by
  obtain ⟨-, -, -, hcounted, hclosed, -⟩ := Workshop.reported_once Sample.reachable_closedWorkshop
  have hstatus : Sample.closedWorkshop.pool.status = .closed := by decide +kernel
  exact ⟨hstatus, by decide +kernel, (hclosed hstatus).2, hcounted⟩

namespace Sample

/-- A job is submitted between the last look at the inbox and the look at the flag, which is raised
meanwhile. -/
def overtakenWorkshop : Workshop :=
  ((({ Workshop.opening 1 8 with stage := .deciding }.offer sessionJob).flagged
    true).drain).giveUpAll []

theorem reachable_overtakenWorkshop : Workshop.Reachable 1 8 overtakenWorkshop := by
  refine .trans ?_ (Workshop.acts_giveUpAll [] (by decide +kernel)).execution
  refine .trans ?_ (.single (.act
    (.drain (by decide +kernel) (by decide +kernel) (by decide +kernel))))
  refine .trans ?_ (.single (.flag true))
  exact Workshop.Acts.execution (.trans (.single (.decide rfl rfl)) (Workshop.acts_offer _))

def nullJob : Job := .session "acme" "a\x00b"

def brokenWorkshop : Workshop :=
  ((Workshop.opening 1 8).offer nullJob).turn fun _ => .ok ()

theorem reachable_brokenWorkshop : Workshop.Reachable 1 8 brokenWorkshop :=
  Workshop.Acts.execution
    ((Workshop.acts_offer _).trans (Workshop.acts_turn _ (by decide +kernel)))

end Sample

/-- An accepted job of which nothing is ever reported: it came after the last look at the inbox, or
its worker could not bear its name. -/
theorem Workshop.accepted_job_lost :
    (Workshop.Reachable 1 8 Sample.overtakenWorkshop ∧
      Sample.overtakenWorkshop.pool.status = .closed ∧
      Sample.overtakenWorkshop.accepted = [Sample.sessionJob] ∧
      ∀ w, Workshop.Execution Sample.overtakenWorkshop w → w.reports = []) ∧
    (Workshop.Reachable 1 8 Sample.brokenWorkshop ∧
      Sample.brokenWorkshop.pool.status = .broken ∧
      Sample.brokenWorkshop.accepted = [Sample.nullJob] ∧
      ∀ w, Workshop.Execution Sample.brokenWorkshop w → w.reports = []) := by
  refine ⟨⟨Sample.reachable_overtakenWorkshop, by decide +kernel, by decide +kernel, ?_⟩,
    Sample.reachable_brokenWorkshop, by decide +kernel, by decide +kernel, ?_⟩
  · intro w hx
    have hstage : Sample.overtakenWorkshop.stage = .ended [] := by decide +kernel
    exact (hx.ended hstage).2
  · intro w hx
    have hstage : Sample.brokenWorkshop.stage = .ended [("a\x00b", Sample.nullJob)] := by
      decide +kernel
    exact (hx.ended hstage).2

end FlowEngine
