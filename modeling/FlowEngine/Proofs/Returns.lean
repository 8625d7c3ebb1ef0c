import FlowEngine.Proofs.Departures
import FlowEngine.Proofs.Deposits

/-! # What is reported about the store

`Machine.Told` follows operations nested in any way and keeps what each of them has ended with. A
session that has left the store has been taken out by one operation, and that operation reports it.
A sweep is active as long as there is an operation in progress that has started it.
-/
namespace FlowEngine

variable {K : Conduct}

/-- A request that has come to its end, and what has been done for it. -/
structure Return where
  request : Request
  reply : request.Reply
  own : List Moment

/-- A machine that has been reached, and the requests that have come to their end, the last one
first. -/
inductive Machine.Told (f : Facilities) : List Return → Machine → Prop where
  | opening (flows logging) : Told f [] ⟨.opening flows logging, []⟩
  | flag {returns story stack} (b) : Told f returns ⟨story, stack⟩ → Waiting stack →
      Told f returns ⟨story.flagged b, stack⟩
  | enter {returns story stack} (q) : Told f returns ⟨story, stack⟩ → Waiting stack →
      Told f returns ⟨story, ⟨q, q.proc f, []⟩ :: stack⟩
  | act {returns story own below s'} {q : Request} {p p' : Proc q.Reply} :
      Told f returns ⟨story, ⟨q, p, own⟩ :: below⟩ → Move .immediate (p, ⟨story, own⟩) (p', s') →
      Told f returns ⟨s'.toStory, ⟨q, p', s'.own⟩ :: below⟩
  | leave {returns story own below} {q : Request} {r : q.Reply} :
      Told f returns ⟨story, ⟨q, .done r, own⟩ :: below⟩ →
      Told f (⟨q, r, own⟩ :: returns) ⟨story, below⟩

namespace Machine

variable {f : Facilities} {returns : List Return} {m : Machine}

theorem Told.reachable (hm : m.Told f returns) : Reachable f m := by
  induction hm with
  | opening flows logging => exact .opening flows logging
  | flag b _ hw ih => exact .step ih (.flag b hw)
  | enter q _ hw ih => exact .step ih (.enter q hw)
  | act _ hmove ih => exact .step ih (.act hmove)
  | leave _ ih => exact .step ih .leave

theorem Reachable.told (hm : Reachable f m) : ∃ returns, m.Told f returns := by
  induction hm with
  | opening flows logging => exact ⟨[], .opening flows logging⟩
  | step _ hs ih =>
    obtain ⟨returns, hm⟩ := ih
    cases hs with
    | flag b hw => exact ⟨returns, .flag b hm hw⟩
    | enter q hw => exact ⟨returns, .enter q hm hw⟩
    | act hmove => exact ⟨returns, .act hm hmove⟩
    | leave => exact ⟨_, .leave hm⟩

end Machine

/-! ## The store -/

theorem Move.moment {α : Type} {x y : Point α} (h : Move .immediate x y) :
    y.2 = x.2 ∨ ∃ m : Moment, m.engine = x.2.engine ∧ y.2.engine = m.after ∧
      y.2.past = m :: x.2.past ∧ y.2.own = m :: x.2.own := by
  cases h with
  | update => exact .inr ⟨_, rfl, rfl, rfl, rfl⟩
  | call hm =>
    obtain ⟨t, rfl, -, rfl⟩ := hm
    exact .inr ⟨_, rfl, rfl, rfl, rfl⟩
  | _ => exact .inl rfl

theorem Change.length_apply {c : Change} (hc : c.newcomer? = none) (e : Engine) :
    (c.apply e).sessions.length = e.sessions.length := by
  have houtlines := congrArg List.length (Change.outlines_apply c e)
  simpa [hc, Engine.outlines] using houtlines

theorem Change.stored_enlist_free {e : Engine} (he : e.Sound) {s : Session} (hs : e.find? s.id = none) :
    ((Change.enlist s).apply e).stored = e.stored ++ [e.nextHandle] := by
  have hself : (e.addSession s).session e.nextHandle = s := by
    rw [Engine.session_addSession, if_pos rfl]
  have hfree : (e.addSession s).find? s.id = none := by
    rw [Engine.find?_eq_none] at hs ⊢
    intro h hh
    have hne : h ≠ e.nextHandle := Nat.ne_of_lt (he.stored h hh)
    rw [Engine.session_addSession, if_neg hne]
    exact hs h hh
  rw [apply, Engine.store, hself, hfree]
  rfl

theorem Change.stored_apply_of_ne {c : Change} (hc : c.newcomer? = none)
    (hw : (Event.change c).withdrawn? = none) (e : Engine) : (c.apply e).stored = e.stored := by
  cases c with
  | enlist s => cases hc
  | withdraw h => cases hw
  | log r =>
    rw [apply, Engine.log]
    split <;> rfl
  | _ => rfl

/-- The sessions that are there and are not in the store have left it, each of them once. -/
structure Story.Left (s : Story) : Prop where
  once : ((departed s.past).map Prod.snd).Nodup
  left : ∀ h, h ∈ (departed s.past).map Prod.snd ↔
    h < s.engine.sessions.length ∧ h ∉ s.engine.stored

namespace Story.Left

variable {s : Story} {m : Moment}

theorem opening (flows : List Flow) (logging : Bool) : (Story.opening flows logging).Left :=
  ⟨List.nodup_nil, fun h => ⟨fun hm => absurd hm List.not_mem_nil, fun hh => absurd hh.1 h.not_lt_zero⟩⟩

theorem same (hs : s.Left) {e : Engine} (hw : m.event.withdrawn? = none)
    (hlength : e.sessions.length = s.engine.sessions.length)
    (hstored : e.stored = s.engine.stored) : Story.Left ⟨e, m :: s.past⟩ := by
  have hsame : departed (m :: s.past) = departed s.past := by
    rw [departed_cons, hw]
    exact List.append_nil _
  refine ⟨?_, fun h => ?_⟩
  · rw [hsame]
    exact hs.once
  · rw [hsame, hlength, hstored]
    exact hs.left h

theorem enlist (hs : s.Left) (he : s.engine.Sound) {new : Session}
    (hfree : s.engine.find? new.id = none) : (s.change (.enlist new)).Left := by
  have hsame : departed (s.change (.enlist new)).past = departed s.past :=
    (departed_cons _ _).trans (List.append_nil _)
  have hlength : (s.change (.enlist new)).engine.sessions.length =
      s.engine.sessions.length + 1 := by
    have houtlines := congrArg List.length (Change.outlines_apply (.enlist new) s.engine)
    rw [Story.change]
    simpa [Engine.outlines, Change.newcomer?] using houtlines
  have hstored : (s.change (.enlist new)).engine.stored = s.engine.stored ++ [s.engine.nextHandle] :=
    Change.stored_enlist_free he hfree
  refine ⟨?_, fun h => ?_⟩
  · rw [hsame]
    exact hs.once
  · rw [hsame, hs.left h, hlength, hstored, List.mem_append, List.mem_singleton, Engine.nextHandle,
      Nat.lt_succ_iff_lt_or_eq]
    by_cases hh : h = s.engine.sessions.length <;> simp [hh]

theorem withdraw (hs : s.Left) (he : s.engine.Sound) {k : Handle} (hk : k ∈ s.engine.stored) :
    (s.change (.withdraw k)).Left := by
  have hmore : (departed (s.change (.withdraw k)).past).map Prod.snd =
      (departed s.past).map Prod.snd ++ [k] := by
    rw [Story.change, departed_cons, List.map_append]
    rfl
  have hnew : k ∉ (departed s.past).map Prod.snd := fun hm => ((hs.left k).mp hm).2 hk
  refine ⟨?_, fun h => ?_⟩
  · rw [hmore, ← List.concat_eq_append, List.nodup_concat]
    exact ⟨hnew, hs.once⟩
  · have hstored : h ∈ (s.change (.withdraw k)).engine.stored ↔ h ∈ s.engine.stored ∧ h ≠ k := by
      simp [Story.change, Change.apply]
    rw [hmore, List.mem_append, List.mem_singleton, hs.left h, hstored]
    show _ ↔ h < s.engine.sessions.length ∧ _
    by_cases hh : h = k
    · subst hh
      simp [he.stored h hk]
    · simp [hh]

theorem moment (hs : s.Left) (he : s.engine.Sound) (hm : m.engine = s.engine)
    {own : List Moment} (hseemly : Seemly (m :: own)) : Story.Left ⟨m.after, m :: s.past⟩ := by
  obtain ⟨e, event⟩ := m
  obtain rfl : e = s.engine := hm
  cases event with
  | call c r => exact hs.same rfl rfl rfl
  | change c =>
    cases c with
    | enlist new => exact hs.enlist he hseemly
    | withdraw k => exact hs.withdraw he hseemly
    | _ =>
      refine hs.same rfl (Change.length_apply rfl _) ?_
      exact Change.stored_apply_of_ne rfl rfl _

end Story.Left

/-! ## Sweeps in progress -/

theorem Change.sweeping_apply {c : Change} (hc : Watch.sweeps.turn (.change c) = none) (e : Engine) :
    (c.apply e).sweeping = e.sweeping := by
  cases c with
  | sweep b => cases b <;> cases hc
  | enlist s =>
    rw [apply, Engine.store]
    split <;> rfl
  | log r =>
    rw [apply, Engine.log]
    split <;> rfl
  | _ => rfl

theorem Moment.sweeping {m : Moment} {own : List Moment} {elsewhere : Nat}
    (h : m.engine.sweeping.toNat = Watch.sweeps.inProgress () own + elsewhere)
    (hseemly : Seemly (m :: own)) :
    m.after.sweeping.toNat = Watch.sweeps.inProgress () (m :: own) + elsewhere := by
  obtain ⟨e, event⟩ := m
  have hle := Bool.toNat_le e.sweeping
  cases event with
  | call c r => rwa [Watch.inProgress_ignored rfl]
  | change c =>
    cases hturn : Watch.sweeps.turn (.change c) with
    | none =>
      rw [Watch.inProgress_ignored hturn, Moment.after, Change.sweeping_apply hturn]
      exact h
    | some turn =>
      cases c with
      | sweep b =>
        cases b with
        | true =>
          have hidle : e.sweeping = false := hseemly
          rw [Watch.inProgress_opened rfl, if_pos rfl]
          rw [hidle] at h
          have hafter : (Moment.after ⟨e, .change (.sweep true)⟩).sweeping = true := rfl
          rw [hafter]
          simp only [Bool.toNat_false, Bool.toNat_true] at h ⊢
          omega
        | false =>
          have hactive : Watch.sweeps.inProgress () own ≠ 0 := hseemly
          rw [Watch.inProgress_closed rfl, if_pos rfl]
          have hafter : (Moment.after ⟨e, .change (.sweep false)⟩).sweeping = false := rfl
          rw [hafter]
          simp only [Bool.toNat_false]
          dsimp only at h
          omega
      | _ => cases hturn

/-! ## All that is told -/

/-- What is told about the store of a machine. What has left it was taken out by one operation each;
a sweep is active if one is in progress; who has come to an end has accounted for it. -/
structure Machine.Reckoned (returns : List Return) (m : Machine) : Prop
    extends Story.Left m.story where
  told : (departed m.story.past).Perm
    ((returns.flatMap fun r => departed r.own) ++ m.stack.flatMap fun fr => departed fr.own)
  active : m.story.engine.sweeping.toNat = m.inProgress .sweeps ()
  accounts : ∀ r ∈ returns, r.request.Accounts r.reply r.own

theorem Machine.Reckoned.marked {returns : List Return} {m : Machine} {fr : Frame}
    (h : m.Reckoned returns) (hfr : fr ∈ m.stack)
    (hactive : Watch.sweeps.inProgress () fr.own ≠ 0) : m.story.engine.sweeping = true := by
  have hle := List.le_sum_of_mem
    (List.mem_map_of_mem (f := fun fr : Frame => Watch.sweeps.inProgress () fr.own) hfr)
  have hmarked := h.active
  rw [Machine.inProgress] at hmarked
  by_contra hidle
  rw [Bool.not_eq_true] at hidle
  rw [hidle, Bool.toNat_false] at hmarked
  omega

theorem Machine.Reckoned.idle {returns : List Return} {m : Machine} (h : m.Reckoned returns)
    (hrest : m.stack = []) : m.story.engine.sweeping = false := by
  have hactive := h.active
  rw [Machine.inProgress, hrest] at hactive
  simpa using hactive

theorem Machine.Reckoned.left_by_returns {returns : List Return} {m : Machine}
    (h : m.Reckoned returns) (hrest : m.stack = []) :
    (departed m.story.past).Perm (returns.flatMap fun r => departed r.own) := by
  have htold := h.told
  rwa [hrest, List.flatMap_nil, List.append_nil] at htold

theorem Custom.onward_evolving : Custom.onward.conduct.Evolving := fun h => h.advances.evolves

theorem Custom.onward_accounts (f : Facilities) : Custom.onward.Followed f (fun _ own => Seemly own)
    fun q r s => q.Accounts r s.own ∧ Watch.sweeps.Settled s.own := by
  constructor
  · exact fun _ => trivial
  · rintro q s ⟨flows, logging, hs⟩
    have hrecorded := hs.recorded (Story.recorded_opening flows logging)
    have hseemly : Seemly s.enter.own := trivial
    have haccounts := Proc.Assures.throughout hseemly
      (q.accounts Custom.onward_evolving f hrecorded.sound)
    refine ((q.proceeds f hrecorded).and haccounts).mono ?_ ?_
    · rintro s' ⟨⟨honward, -⟩, hown⟩
      exact ⟨honward, hown⟩
    · rintro r s' ⟨⟨⟨honward, -⟩, -⟩, hown, hq⟩
      exact ⟨⟨honward, hown⟩, hq⟩

namespace Machine

variable {f : Facilities} {returns : List Return} {m : Machine}

theorem Reckoned.moment {story : Story} {q : Request} {p p' : Proc q.Reply} {own : List Moment}
    {below : List Frame} (h : Reckoned returns ⟨story, ⟨q, p, own⟩ :: below⟩)
    (he : story.engine.Sound) {m : Moment} (hm : m.engine = story.engine)
    (hseemly : Seemly (m :: own)) :
    Reckoned returns ⟨⟨m.after, m :: story.past⟩, ⟨q, p', m :: own⟩ :: below⟩ := by
  refine ⟨h.toLeft.moment he hm hseemly, ?_, ?_, h.accounts⟩
  · have htold := h.told
    simp only [List.flatMap_cons] at htold ⊢
    rw [departed_cons, departed_cons]
    refine (htold.append_right _).trans ?_
    rw [List.append_assoc, List.append_assoc, List.append_assoc]
    refine .append_left _ (.append_left _ ?_)
    exact List.perm_append_comm
  · have hactive := h.active
    rw [Machine.inProgress, List.map_cons, List.sum_cons] at hactive ⊢
    exact Moment.sweeping (hm ▸ hactive) hseemly

theorem Told.reckoned (hm : m.Told f returns) : m.Reckoned returns := by
  induction hm with
  | opening flows logging =>
    exact ⟨.opening flows logging, .refl _, rfl, fun _ hr => absurd hr List.not_mem_nil⟩
  | flag b _ _ ih => exact ⟨⟨ih.once, ih.left⟩, ih.told, ih.active, ih.accounts⟩
  | enter q _ _ ih =>
    refine ⟨ih.toLeft, ih.told, ?_, ih.accounts⟩
    rw [Machine.inProgress, List.map_cons, List.sum_cons]
    exact ih.active.trans (Nat.zero_add _).symm
  | @act returns story own below s' q p p' hm' hmove ih =>
    have hkept := Custom.Kept.reachable (Custom.onward_accounts f) (hm'.act hmove).reachable
    have hseemly : Seemly s'.own := hkept.own _ List.mem_cons_self
    rcases hmove.moment with hsame | ⟨moment, hengine, hafter, hpast, hown⟩
    · obtain rfl : s' = ⟨story, own⟩ := hsame
      exact ⟨ih.toLeft, ih.told, ih.active, ih.accounts⟩
    · obtain ⟨⟨engine, past⟩, own'⟩ := s'
      obtain rfl : engine = moment.after := hafter
      obtain rfl : past = moment :: story.past := hpast
      obtain rfl : own' = moment :: own := hown
      exact ih.moment hm'.reachable.recorded.sound hengine hseemly
  | @leave returns story own below q r hm' ih =>
    have hkept := Custom.Kept.reachable (Custom.onward_accounts f) hm'.reachable
    obtain ⟨haccounts, hsettled⟩ := hkept.ended rfl
    refine ⟨ih.toLeft, ?_, ?_, List.forall_mem_cons.mpr ⟨haccounts, ih.accounts⟩⟩
    · refine ih.told.trans ?_
      simp only [List.flatMap_cons]
      rw [← List.append_assoc]
      exact List.perm_append_comm.append_right _
    · have hactive := ih.active
      rwa [Machine.inProgress, List.map_cons, List.sum_cons, hsettled (), Nat.zero_add] at hactive

theorem Reachable.under (hm : Reachable f m) : m.Under .lax f := by
  induction hm with
  | opening flows logging => exact .opening flows logging
  | step _ hs ih =>
    cases hs with
    | flag b hw => exact .flag b ih hw
    | enter q hw => exact .enter q ih hw trivial
    | act hmove => exact .act ih (hmove.within ⟨id, id⟩)
    | leave => exact .leave ih

theorem Reachable.wellKept_past (hm : Reachable f m) :
    ∀ moment ∈ m.story.past, moment.engine.WellKept := by
  induction hm with
  | opening flows logging => exact fun _ hm => absurd hm List.not_mem_nil
  | @step m m' hm hs ih =>
    cases hs with
    | @act story own below s' q p p' hmove =>
      show ∀ moment ∈ s'.past, moment.engine.WellKept
      rcases hmove.moment with hsame | ⟨moment, hengine, -, hpast, -⟩
      · obtain rfl : s' = ⟨story, own⟩ := hsame
        exact ih
      · rw [show s'.past = moment :: story.past from hpast, List.forall_mem_cons]
        exact ⟨hengine ▸ hm.under.wellKept, ih⟩
    | _ => exact ih

end Machine

theorem mem_departed {past : List Moment} {x : Engine × Handle} (hx : x ∈ departed past) :
    ⟨x.1, .change (.withdraw x.2)⟩ ∈ past := by
  rw [departed, List.mem_reverse, List.mem_filterMap] at hx
  obtain ⟨⟨e, event⟩, hm, hevent⟩ := hx
  obtain ⟨h, hw, rfl⟩ := Option.map_eq_some_iff.mp hevent
  cases event with
  | call c r => cases hw
  | change c =>
    cases c <;> cases hw
    exact hm

def Return.reports : Return → List String
  | ⟨.delete _ id, .ok _, _⟩ => [id]
  | ⟨.removeIf id _, some _, _⟩ => [id]
  | ⟨.sweep _ _, .completed summary, _⟩ => summary.deleted
  | _ => []

/-- The session is not looked up, but in the hands of the caller. -/
def Request.inHand : Request → Bool
  | .remove _ => true
  | _ => false

theorem Request.Accounts.reports {r : Return} (h : r.request.Accounts r.reply r.own)
    (hr : r.request.inHand = false) :
    r.reports = (departed r.own).map fun x => (x.1.session x.2).id := by
  obtain ⟨q, reply, own⟩ := r
  cases q with
  | delete tenant id =>
    cases reply with
    | ok summary =>
      obtain ⟨e, k, hfind, -, hdeparted, -⟩ := h
      have hid : (e.session k).id = id := by simpa using List.find?_some hfind
      show [id] = (departed own).map _
      rw [hdeparted, List.map_singleton, hid]
    | error fault =>
      obtain rfl : own = [] := h
      rfl
  | remove k => cases hr
  | removeIf id condition =>
    cases reply with
    | some summary =>
      obtain ⟨e, k, hremoved, hdeparted, -⟩ := h
      show [id] = (departed own).map _
      rw [hdeparted, List.map_singleton, Engine.removeIf_id hremoved]
    | none =>
      obtain rfl : own = [] := h
      rfl
  | sweep limit now =>
    cases reply with
    | skipped =>
      obtain ⟨e, record, -, rfl⟩ := h
      rfl
    | completed summary => exact h.deleted
  | _ =>
    have hnone : departed own = [] := h
    show [] = (departed own).map _
    rw [hnone]
    rfl

/-- A sweep that is asked for while another one is active does nothing but note that. -/
theorem Sweep.run_skips (limit : Nat) (now : Int) {s : Situation} (hs : s.engine.sweeping = true) :
    ∃ record, Execution K (run limit now, s) (.done .skipped, s.change (.log record)) ∧
      ∀ r s', Execution K (run limit now, s) (.done r, s') →
        r = .skipped ∧ s' = s.change (.log record) := by
  refine ⟨⟨"warn", "reaper.skipped", "previous sweep still active"⟩, ?_, fun r s' hx => ?_⟩
  · have hend : (run limit now).upTo (fun _ => false) s = (.done .skipped,
        s.change (.log ⟨"warn", "reaper.skipped", "previous sweep still active"⟩)) := by
      show Proc.upTo _ (if s.engine.sweeping then _ else _) s = _
      rw [if_pos hs]
      rfl
    exact hend ▸ Proc.upTo_execution _ _ s
  · have hall : (run limit now).Assures K (fun _ => True) (fun r s' => r = .skipped ∧
        s' = s.change (.log ⟨"warn", "reaper.skipped", "previous sweep still active"⟩)) s := by
      simp only [run, Proc.assures_bind', Proc.assures_engine, if_pos hs, Proc.assures_log,
        Proc.assures_pure]
      exact ⟨trivial, trivial, trivial⟩
    exact (execution_ends hx trivial hall).2

section Sample

namespace Machine

variable {f : Facilities} {returns : List Return} {m : Machine}

def returned : Machine → List Return
  | ⟨_, ⟨q, .done r, own⟩ :: _⟩ => [⟨q, r, own⟩]
  | _ => []

theorem Told.entered (hm : m.Told f returns) (q : Request) : (m.enter f q).Told f returns := by
  rw [Machine.enter]
  split
  · next hw => exact .enter q hm hw
  · exact hm

theorem Told.executed {q : Request} {story : Story} {below : List Frame} {own : List Moment}
    {p : Proc q.Reply} {y : Point q.Reply} (hm : Told f returns ⟨story, ⟨q, p, own⟩ :: below⟩)
    (hx : Execution .immediate (p, ⟨story, own⟩) y) :
    Told f returns ⟨y.2.toStory, ⟨q, y.1, y.2.own⟩ :: below⟩ := by
  induction hx with
  | refl => exact hm
  | tail _ hmove ih => exact .act ih hmove

theorem Told.advanced (hm : m.Told f returns)
    (answer : List Moment → (c : ProviderCall) → c.Outcome) (n : Nat) :
    (m.advance answer n).Told f returns := by
  rw [Machine.advance.eq_def]
  split
  · have hmeets : ∀ s c, Conduct.immediate.Meets s c (answer s.past c)
        (s.called s.toStory c (answer s.past c)) := fun s c => ⟨s.toStory, rfl, trivial, rfl⟩
    exact hm.executed (Proc.ahead_execution answer hmeets _ n _)
  · exact hm

theorem Told.left (hm : m.Told f returns) : m.leave.Told f (m.returned ++ returns) := by
  obtain ⟨story, stack⟩ := m
  cases stack with
  | nil => exact hm
  | cons fr below =>
    obtain ⟨q, rest, own⟩ := fr
    cases rest with
    | done r => exact .leave hm
    | _ => exact hm

end Machine

namespace Sample

theorem told_written : ∃ returns, (written filing).Told facilities returns ∧
    (∀ r ∈ returns, r.request.inHand = false) ∧ returns.flatMap Return.reports = [] := by
  have hopening : Machine.Told facilities [] ⟨.opening [flow] false, []⟩ := .opening _ _
  have hcreated := ((hopening.entered create).advanced filing 0).left
  have hwritten :=
    ((hcreated.entered (.run "acme" "session-0-00000000")).advanced filing 9).left
  exact ⟨_, hwritten, by decide +kernel, by decide +kernel⟩

/-- A sweep waits for the deletion of the file that the letter had. -/
def sweeping : Machine :=
  ((written filing).enter facilities (.sweep 0 7200)).advance filing 0

/-- Another sweep has come in meanwhile. -/
def overlapping : Machine :=
  (sweeping.enter facilities (.sweep 0 7200)).advance filing 0

def swept : Machine := overlapping.leave.advance filing 1

end Sample

end Sample

/-- With operations nested in any way, a session that is there and not in the store has left it
once, by one operation that is in progress or has ended. When operations have ended they account for
this: the deletion of a session for that session alone, a sweep for those that it says to have
deleted. Each of these sessions was released by one pass over the files that it had when it left. A
sweep has come to the listed sessions in their order and removed those that were due at that time.
When all operations have ended, no sweep is active, and the reports name the sessions that have
left. A sweep that is asked for while another one is active is skipped. -/
theorem departures_reported {f : Facilities} {returns : List Return} {m : Machine}
    (hm : m.Told f returns) :
    m.Reckoned returns ∧
    (∀ x ∈ departed m.story.past, ((x.1.session x.2).allInputs.values.filterMap Input.file).Perm
      (x.1.session x.2).files) ∧
    (m.stack = [] → m.story.engine.sweeping = false ∧
      ((∀ r ∈ returns, r.request.inHand = false) →
        ((departed m.story.past).map fun x => (x.1.session x.2).id).Perm
          (returns.flatMap Return.reports))) ∧
    ∀ (K : Conduct) (limit : Nat) (now : Int),
      (∃ fr ∈ m.stack, Watch.sweeps.inProgress () fr.own ≠ 0) →
      ∃ record, Execution K (Sweep.run limit now, m.story.enter)
          (.done .skipped, m.story.enter.change (.log record)) ∧
        ∀ r s', Execution K (Sweep.run limit now, m.story.enter) (.done r, s') →
          r = .skipped ∧ s' = m.story.enter.change (.log record) := by
  have hreckoned := hm.reckoned
  refine ⟨hreckoned, fun x hx => ?_, fun hrest => ⟨hreckoned.idle hrest, fun hlooked => ?_⟩, ?_⟩
  · have hbooked := (hm.reachable.wellKept_past _ (mem_departed hx)).booked x.2
    exact hbooked.allInputs.filterMap Input.file
  · refine ((hreckoned.left_by_returns hrest).map _).trans (.of_eq ?_)
    rw [List.map_flatMap]
    exact List.flatMap_congr fun r hr =>
      ((hreckoned.accounts r hr).reports (hlooked r hr)).symm
  · rintro K limit now ⟨fr, hfr, hactive⟩
    exact Sweep.run_skips limit now (hreckoned.marked hfr hactive)

/-- A sweep takes the letter out of the store and reports it; one that comes in meanwhile is
skipped. -/
theorem departures_reported_letter : ∃ returns, Sample.swept.leave.Told Sample.facilities returns ∧
    ((departed Sample.swept.leave.story.past).map fun x => (x.1.session x.2).id).Perm
      ["session-0-00000000"] ∧
    Sample.swept.leave.story.engine.sweeping = false ∧
    ∃ record, Execution .immediate (Sweep.run 0 7200, Sample.sweeping.story.enter)
      (.done .skipped, Sample.sweeping.story.enter.change (.log record)) := by
  obtain ⟨returns, hwritten, hlooked, hnone⟩ := Sample.told_written
  have hsweeping : Sample.sweeping.Told Sample.facilities returns :=
    (hwritten.entered (.sweep 0 7200)).advanced Sample.filing 0
  have hoverlapping : Sample.overlapping.Told Sample.facilities returns :=
    (hsweeping.entered (.sweep 0 7200)).advanced Sample.filing 0
  have hswept : Sample.swept.Told Sample.facilities (Sample.overlapping.returned ++ returns) :=
    hoverlapping.left.advanced Sample.filing 1
  obtain ⟨-, -, hrest, -⟩ := departures_reported hswept.left
  obtain ⟨-, -, -, hskipped⟩ := departures_reported hsweeping
  have hempty : Sample.swept.leave.stack = [] := List.isEmpty_iff.mp (by decide +kernel)
  obtain ⟨hidle, hreports⟩ := hrest hempty
  have hothers : ∀ r ∈ Sample.swept.returned ++ Sample.overlapping.returned,
      r.request.inHand = false := by decide +kernel
  have hsaid : (Sample.swept.returned ++ Sample.overlapping.returned).flatMap Return.reports =
      ["session-0-00000000"] := by decide +kernel
  refine ⟨_, hswept.left, ?_, hidle, ?_⟩
  · rw [← List.append_assoc] at hreports
    have hall := hreports (List.forall_mem_append.mpr ⟨hothers, hlooked⟩)
    rwa [List.flatMap_append, hnone, List.append_nil, hsaid] at hall
  · obtain ⟨record, hx, -⟩ := hskipped .immediate 0 7200 (by decide +kernel)
    exact ⟨record, hx⟩

end FlowEngine
