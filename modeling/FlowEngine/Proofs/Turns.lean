import FlowEngine.Proofs.Workshop

/-! # Whole turns

A turn of the pool, as it is carried out, is one way through the small steps of the dispatcher: it
goes through the inbox, and then through the jobs that it starts or gives up.
-/
namespace FlowEngine

namespace Workshop

def offer (job : Job) (w : Workshop) : Workshop :=
  match w.pool.submit w.stopping job with
  | .ok p => { w with pool := p, accepted := w.accepted ++ [job] }
  | .error _ => w

def attend (w : Workshop) : PoolMessage → Workshop
  | .submit job =>
    { w with pool := (w.pool.handle (.submit job)).1, received := w.received ++ [job] }
  | .finished c =>
    { w with
      pool := (w.pool.handle (.finished c)).1
      heard := w.heard ++ [c]
      reports := w.reports ++ [c] }
  | .wake => { w with pool := (w.pool.handle .wake).1 }

def emptied (w : Workshop) (inbox : List PoolMessage) : Workshop :=
  { w with pool := { w.pool with inbox := inbox } }

def receive (w : Workshop) : Workshop := w.pool.inbox.foldl attend (w.emptied [])

def startOne (spawn : Job → Except String Unit) (item : String × Job)
    (rest : List (String × Job)) (w : Workshop) : Workshop :=
  let w := { w with pool := (w.pool.start spawn item).1, stage := .starting rest }
  match spawn item.2 with
  | .ok () => { w with started := w.started ++ [item.2] }
  | .error reason =>
    { w with
      reports := w.reports ++ [⟨item.2, .error (.spawn (Pool.workerName item.1) reason)⟩] }

def startAll (spawn : Job → Except String Unit) : List (String × Job) → Workshop → Workshop
  | [], w => { w with stage := .receiving }
  | item :: rest, w =>
    if Pool.isNameable (Pool.workerName item.1) then
      startAll spawn rest (w.startOne spawn item rest)
    else { w with pool := { w.pool with status := .broken }, stage := .ended (item :: rest) }

def giveUpAll : List (String × Job) → Workshop → Workshop
  | [], w => { w with pool := { w.pool with status := .closed }, stage := .ended [] }
  | item :: rest, w =>
    giveUpAll rest { w with
      pool := (w.pool.giveUp item).1
      stage := .closing rest
      reports := w.reports ++ [⟨item.2, .error .poolClosed⟩] }

def take (w : Workshop) : Workshop :=
  { w with
    pool := w.pool.take.2
    stage := .starting w.pool.take.1
    taken := w.taken ++ w.pool.take.1.map Prod.snd }

def drain (w : Workshop) : Workshop :=
  { w with pool := w.pool.drain.2, stage := .closing w.pool.drain.1 }

def proceed (spawn : Job → Except String Unit) (w : Workshop) : Workshop :=
  if w.stopping then
    if w.pool.inFlight = 0 then giveUpAll w.pool.drain.1 w.drain else w
  else startAll spawn w.pool.take.1 w.take

def turn (spawn : Job → Except String Unit) (w : Workshop) : Workshop := w.receive.proceed spawn

def flagged (b : Bool) (w : Workshop) : Workshop := { w with stopping := b }

def finish (c : Completion) (w : Workshop) : Workshop :=
  { w with
    pool := w.pool.finish c
    unheard := if w.pool.status = .serving then w.unheard else w.unheard ++ [c] }

variable {w : Workshop} {spawn : Job → Except String Unit}

theorem acts_offer (job : Job) : Acts w (w.offer job) := by
  rw [offer, Pool.submit]
  by_cases hs : w.stopping = true
  · rw [if_pos hs]
  · have hask := Relation.ReflTransGen.single (Act.ask (w := w) job (Bool.eq_false_iff.mpr hs))
    rw [if_neg hs]
    cases hp : w.pool.send (.submit job) with
    | ok p =>
      have hmem : job ∈ job :: w.submitting := List.mem_cons_self
      have hsent := hask.tail (.send hmem hp)
      rw [List.erase_cons_head] at hsent
      exact hsent
    | error fault => exact .refl

theorem attend_emptied (w : Workshop) (m : PoolMessage) (inbox inbox' : List PoolMessage) :
    ((w.emptied inbox').attend m).emptied inbox = (w.emptied inbox).attend m := by
  cases m with
  | submit job => rfl
  | wake => rfl
  | finished c =>
    simp only [attend, emptied, Pool.handle_finished, Pool.forward]
    split <;> rfl

theorem stage_attend (w : Workshop) (m : PoolMessage) : (w.attend m).stage = w.stage := by
  cases m <;> rfl

theorem stopping_attend (w : Workshop) (m : PoolMessage) :
    (w.attend m).stopping = w.stopping := by
  cases m <;> rfl

theorem pool_attend (w : Workshop) (m : PoolMessage) :
    (w.attend m).pool = (w.pool.handle m).1 := by
  cases m <;> rfl

theorem inbox_attend (w : Workshop) (m : PoolMessage) :
    (w.attend m).pool.inbox = w.pool.inbox := by
  cases m with
  | submit job => rfl
  | wake => rfl
  | finished c => rw [pool_attend, Pool.handle_finished, Pool.forward_inbox]

theorem act_attend {m : PoolMessage} {rest : List PoolMessage} (hs : w.stage = .receiving)
    (hi : w.pool.inbox = m :: rest) : Act w ((w.emptied rest).attend m) := by
  cases m with
  | submit job => exact .receive hs hi
  | finished c => exact .hear hs hi
  | wake => exact .woken hs hi

theorem acts_receive (hs : w.stage = .receiving) :
    Acts w w.receive ∧ w.receive.stage = .receiving ∧ w.receive.pool.inbox = [] ∧
      w.receive.stopping = w.stopping := by
  rw [receive]
  generalize hinbox : w.pool.inbox = inbox
  induction inbox generalizing w with
  | nil =>
    have hself : w.emptied [] = w := by
      rw [emptied, ← hinbox]
    rw [List.foldl_nil, hself]
    exact ⟨.refl, hs, hinbox, rfl⟩
  | cons m rest ih =>
    have hnext := ih (w := (w.emptied rest).attend m) (by rw [stage_attend]; exact hs)
      (inbox_attend _ _)
    rw [attend_emptied, stopping_attend] at hnext
    obtain ⟨hexec, hstage, hempty, hstopping⟩ := hnext
    exact ⟨.head (act_attend hs hinbox) hexec, hstage, hempty, hstopping⟩

theorem acts_startAll (items : List (String × Job)) (hs : w.stage = .starting items) :
    Acts w (w.startAll spawn items) := by
  induction items generalizing w with
  | nil => exact .single (.settle hs)
  | cons item rest ih =>
    rw [startAll]
    split
    · next hn =>
      rw [startOne]
      split
      · next hspawn => exact .head (.start hs hn hspawn) (ih rfl)
      · next hspawn => exact .head (.startFails hs hn hspawn) (ih rfl)
    · next hn => exact .single (.panic hs (Bool.eq_false_iff.mpr hn))

theorem acts_giveUpAll (items : List (String × Job)) (hs : w.stage = .closing items) :
    Acts w (w.giveUpAll items) := by
  induction items generalizing w with
  | nil => exact .single (.close hs)
  | cons item rest ih => exact .head (.giveUp hs) (ih rfl)

theorem acts_turn (spawn : Job → Except String Unit) (hs : w.stage = .receiving) :
    Acts w (w.turn spawn) := by
  obtain ⟨hreceive, hstage, hinbox, -⟩ := acts_receive hs
  refine hreceive.trans ?_
  have hdecide := Relation.ReflTransGen.single (Act.decide hstage hinbox)
  rw [turn, proceed]
  split
  · next hstop =>
    split
    · next hidle =>
      exact (hdecide.tail (.drain rfl hstop hidle)).trans (acts_giveUpAll _ rfl)
    · exact .refl
  · next hgo =>
    exact (hdecide.tail (.take rfl (Bool.eq_false_iff.mpr hgo))).trans (acts_startAll _ rfl)

theorem execution_finish {c : Completion} (hc : c.job ∈ w.pool.running) :
    Execution w (w.finish c) :=
  .single (.finish c hc)

theorem fst_foldl_noting {α : Type} (f : Pool → α → Pool.Noted Pool) (items : List α)
    (acc : Pool.Noted Pool) :
    (items.foldl (fun (acc : Pool.Noted Pool) item =>
      let (p, notes) := f acc.1 item
      (p, acc.2 ++ notes)) acc).1 = items.foldl (fun p item => (f p item).1) acc.1 := by
  induction items generalizing acc with
  | nil => rfl
  | cons item rest ih => exact ih _

theorem pool_receive (w : Workshop) : w.receive.pool = w.pool.receive.1 := by
  have hfold : ∀ (inbox : List PoolMessage) (w : Workshop), (inbox.foldl attend w).pool =
      inbox.foldl (fun p m => (p.handle m).1) w.pool := by
    intro inbox
    induction inbox with
    | nil => exact fun _ => rfl
    | cons m rest ih =>
      intro w
      rw [List.foldl_cons, List.foldl_cons, ih, pool_attend]
  rw [receive, hfold, Pool.receive, Pool.noting, fst_foldl_noting]
  rfl

theorem pool_startAll (items : List (String × Job)) (w : Workshop) :
    (w.startAll spawn items).pool = (w.pool.startAll spawn items).1 := by
  induction items generalizing w with
  | nil => rfl
  | cons item rest ih =>
    rw [startAll, Pool.startAll]
    split
    · have hone : (w.startOne spawn item rest).pool = (w.pool.start spawn item).1 := by
        rw [startOne]
        split <;> rfl
      rw [ih, hone]
    · rfl

theorem pool_giveUpAll (items : List (String × Job)) (w : Workshop) :
    (w.giveUpAll items).pool =
      { (Pool.noting Pool.giveUp w.pool items).1 with status := .closed } := by
  rw [Pool.noting, fst_foldl_noting]
  induction items generalizing w with
  | nil => rfl
  | cons item rest ih => exact ih _

/-- What becomes of the pool in a turn is what the turn of the pool makes of it. -/
theorem pool_turn (hserving : w.pool.status = .serving) (e : Engine)
    (he : e.stopping = w.receive.stopping) : (w.turn spawn).pool = (w.pool.turn e spawn).1 := by
  have hpool : (w.pool.turn e spawn).1 = (w.receive.pool.proceed w.receive.stopping spawn).1 := by
    rw [Pool.turn, if_pos hserving, pool_receive, ← he]
  rw [hpool, turn, proceed, Pool.proceed]
  by_cases hstop : w.receive.stopping = true
  · by_cases hidle : w.receive.pool.inFlight = 0
    · simp only [if_pos hstop, if_pos hidle, pool_giveUpAll]
      rfl
    · simp only [if_pos hstop, if_neg hidle]
  · simp only [if_neg hstop, pool_startAll]
    rfl

end Workshop

end FlowEngine
