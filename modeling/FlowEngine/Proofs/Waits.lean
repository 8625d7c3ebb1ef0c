import FlowEngine.Engine.Procedure

/-! # How a wait ends

A wait sees the flag that stops it, the results of its polls and how long it has lasted, and between
the polls it pauses in slices. In which order it does so is fixed, as long as nothing ends it. It
ends with the first sight that says so, and does nothing after it: what it says depends on that
sight alone. If the clock goes on, it comes to such a sight.
-/
namespace FlowEngine

namespace Wait

/-- What a wait sees, and the slices of its pauses. -/
inductive Sight where
  | flag (raised : Bool)
  | polled (result : Except ProviderFault AppRun)
  | lasted (elapsed : Nat)
  | paused (slice : Nat)

def verdict? (w : Wait) : Sight → Option Verdict
  | .flag true => some (.error .interrupted)
  | .flag false => none
  | .polled result => w.ofPoll result
  | .lasted elapsed => w.ofElapsed elapsed
  | .paused _ => none

/-- What a wait does next: it looks at the flag before a poll or within a pause, polls, looks at the
clock or sleeps for a slice. -/
inductive Stage where
  | poised
  | asking
  | timing
  | pausing (left : List Nat)
  | sleeping (slice : Nat) (left : List Nat)

def Stage.next (w : Wait) : Stage → Stage
  | .poised => .asking
  | .asking => .timing
  | .timing => .pausing (pauseSlices w.interval)
  | .pausing [] => .poised
  | .pausing (slice :: left) => .sleeping slice left
  | .sleeping _ left => .pausing left

/-- The sights have come to an end: the last of them, and none before, says how. -/
def Settles (w : Wait) (log : List Sight) (v : Verdict) : Prop :=
  ∃ quiet last, log = quiet ++ [last] ∧ (∀ sight ∈ quiet, w.verdict? sight = none) ∧
    w.verdict? last = some v

def Sight.result? : Sight → Option (Except ProviderFault AppRun)
  | .polled result => some result
  | _ => none

def polls (log : List Sight) : List (Except ProviderFault AppRun) := log.filterMap Sight.result?

/-- The verdict of a wait tells what it has seen. -/
structure Tells (w : Wait) (log : List Sight) (v : Verdict) : Prop where
  answered : ∀ text, v = .ok text ↔
    ∃ answer, (polls log).getLast? = some (.ok ⟨.complete, answer⟩) ∧ text = answer.getD ""
  failed : ∀ step, v = .error (.appRunFailed step) ↔
    step = w.step ∧ ∃ answer, (polls log).getLast? = some (.ok ⟨.failed, answer⟩)
  notFound : ∀ run, v = .error (.appRunNotFound run) ↔
    run = w.run ∧ ∃ answer, (polls log).getLast? = some (.ok ⟨.notFound, answer⟩)
  refused : ∀ fault, v = .error (.provider fault) ↔ (polls log).getLast? = some (.error fault)
  late : ∀ step run waited, v = .error (.appRunTimeout step run waited) →
    ∃ status answer elapsed, (polls log).getLast? = some (.ok ⟨status, answer⟩) ∧
      (status = .queued ∨ status = .inProgress) ∧ log.getLast? = some (.lasted elapsed) ∧
      w.limit < elapsed ∧ step = w.step ∧ run = w.run ∧ waited = elapsed / 1000000
  stopped : v = .error .interrupted ↔ .flag true ∈ log

end Wait

namespace Surroundings

open Wait (Sight Stage Verdict)

variable {σ : Type}

def see (s : Surroundings σ) (w : Wait) (started : Nat) : Stage → Run σ Sight
  | .poised, x => some (.flag (s.engine x).stopping, x)
  | .asking, x => (s.call (.appRun w.tenant w.run) x).map fun r => (.polled r.1, r.2)
  | .timing, x => some (.lasted ((s.instant x).1 - started), (s.instant x).2)
  | .pausing _, x => some (.flag (s.engine x).stopping, x)
  | .sleeping slice _, x => some (.paused slice, s.sleep slice x)

/-- The sights that follow each other as long as the wait goes on. -/
inductive Watches (s : Surroundings σ) (w : Wait) (started : Nat) :
    Stage → σ → List Sight → Stage → σ → Prop where
  | start (stage x) : Watches s w started stage x [] stage x
  | see {stage x sight y log stage' z} : s.see w started stage x = some (sight, y) →
      Watches s w started (stage.next w) y log stage' z →
      Watches s w started stage x (sight :: log) stage' z

/-- A wait from its start, with all that it sees, up to its end. -/
def Waits (s : Surroundings σ) (w : Wait) (x : σ) (log : List Sight) (v : Verdict) (y : σ) :
    Prop :=
  ∃ stage, s.Watches w (s.instant x).1 .poised (s.instant x).2 log stage y ∧ w.Settles log v

/-- The clock shows the time, which never goes back. -/
structure Clocked (s : Surroundings σ) (time : σ → Nat) : Prop where
  shows : ∀ x, (s.instant x).1 = time (s.instant x).2
  instant : ∀ x, time x ≤ time (s.instant x).2
  sleep : ∀ n x, time x ≤ time (s.sleep n x)
  call : ∀ c x r y, s.call c x = some (r, y) → time x ≤ time y

end Surroundings

/-! ## Sights that say how a wait ends -/

namespace Wait

variable {w : Wait} {sight : Sight} {log more : List Sight} {v : Verdict}

theorem settles_last (h : w.verdict? sight = some v) : w.Settles [sight] v :=
  ⟨[], sight, rfl, nofun, h⟩

theorem Settles.cons (h : w.verdict? sight = none) (hs : w.Settles log v) :
    w.Settles (sight :: log) v := by
  obtain ⟨quiet, last, rfl, hquiet, hlast⟩ := hs
  exact ⟨sight :: quiet, last, rfl, List.forall_mem_cons.mpr ⟨h, hquiet⟩, hlast⟩

theorem Settles.cases (hs : w.Settles (sight :: log) v) :
    w.verdict? sight = some v ∧ log = [] ∨ w.verdict? sight = none ∧ w.Settles log v := by
  obtain ⟨quiet, last, heq, hquiet, hlast⟩ := hs
  cases quiet with
  | nil =>
    obtain ⟨rfl, rfl⟩ := List.cons.inj heq
    exact .inl ⟨hlast, rfl⟩
  | cons first rest =>
    obtain ⟨rfl, rfl⟩ := List.cons.inj heq
    obtain ⟨hfirst, hrest⟩ := List.forall_mem_cons.mp hquiet
    exact .inr ⟨hfirst, rest, last, rfl, hrest, hlast⟩

theorem exists_settles (h : ∃ sight ∈ log, (w.verdict? sight).isSome) :
    ∃ first rest v, log = first ++ rest ∧ w.Settles first v := by
  induction log with
  | nil => exact absurd h (by simp)
  | cons sight log ih =>
    cases hsight : w.verdict? sight with
    | some v => exact ⟨[sight], log, v, rfl, settles_last hsight⟩
    | none =>
      have hlater : ∃ later ∈ log, (w.verdict? later).isSome := by
        obtain ⟨later, hm, hlater⟩ := h
        rcases List.mem_cons.mp hm with rfl | hm
        · rw [hsight] at hlater
          cases hlater
        · exact ⟨later, hm, hlater⟩
      obtain ⟨first, rest, v, rfl, hfirst⟩ := ih hlater
      exact ⟨sight :: first, rest, v, rfl, hfirst.cons hsight⟩

section Polls

variable {r : Except ProviderFault AppRun}

theorem ofPoll_eq_none (h : w.ofPoll r = none) :
    ∃ status answer, r = .ok ⟨status, answer⟩ ∧ (status = .queued ∨ status = .inProgress) := by
  obtain fault | ⟨status, answer⟩ := r
  · cases h
  · cases status with
    | queued => exact ⟨_, answer, rfl, .inl rfl⟩
    | inProgress => exact ⟨_, answer, rfl, .inr rfl⟩
    | complete | failed | notFound => cases h

theorem ofPoll_eq_ok {text : String} : w.ofPoll r = some (.ok text) ↔
    ∃ answer, r = .ok ⟨.complete, answer⟩ ∧ text = answer.getD "" := by
  obtain fault | ⟨status, answer⟩ := r
  · simp [ofPoll]
  · cases status <;> simp [ofPoll, eq_comm]

theorem ofPoll_eq_failed {step : String} : w.ofPoll r = some (.error (.appRunFailed step)) ↔
    step = w.step ∧ ∃ answer, r = .ok ⟨.failed, answer⟩ := by
  obtain fault | ⟨status, answer⟩ := r
  · simp [ofPoll]
  · cases status <;> simp [ofPoll, eq_comm]

theorem ofPoll_eq_notFound {run : String} : w.ofPoll r = some (.error (.appRunNotFound run)) ↔
    run = w.run ∧ ∃ answer, r = .ok ⟨.notFound, answer⟩ := by
  obtain fault | ⟨status, answer⟩ := r
  · simp [ofPoll]
  · cases status <;> simp [ofPoll, eq_comm]

theorem ofPoll_eq_refused {fault : ProviderFault} :
    w.ofPoll r = some (.error (.provider fault)) ↔ r = .error fault := by
  obtain fault | ⟨status, answer⟩ := r
  · simp [ofPoll]
  · cases status <;> simp [ofPoll]

theorem ofPoll_ne_interrupted : w.ofPoll r ≠ some (.error .interrupted) := by
  obtain fault | ⟨status, answer⟩ := r
  · simp [ofPoll]
  · cases status <;> simp [ofPoll]

theorem ofPoll_ne_timeout {step run : String} {waited : Nat} :
    w.ofPoll r ≠ some (.error (.appRunTimeout step run waited)) := by
  obtain fault | ⟨status, answer⟩ := r
  · simp [ofPoll]
  · cases status <;> simp [ofPoll]

end Polls

theorem ofElapsed_eq_some {elapsed : Nat} (h : w.ofElapsed elapsed = some v) :
    w.limit < elapsed ∧ v = .error (.appRunTimeout w.step w.run (elapsed / 1000000)) := by
  rw [ofElapsed] at h
  split at h
  · next hlt => exact ⟨hlt, (Option.some.inj h).symm⟩
  · cases h

theorem Stage.next_timing {stage : Stage} (h : stage.next w = .timing) : stage = .asking := by
  cases stage with
  | asking => rfl
  | poised | timing | sleeping => cases h
  | pausing left => cases left <;> cases h

theorem polls_cons (sight : Sight) (log : List Sight) :
    polls (sight :: log) = sight.result?.toList ++ polls log := by
  rw [polls, polls, List.filterMap_cons]
  cases sight <;> rfl

theorem polls_of_quiet {quiet : List Sight} (h : ∀ sight ∈ quiet, w.verdict? sight = none) :
    ∀ r ∈ polls quiet, w.ofPoll r = none := by
  intro r hr
  obtain ⟨sight, hm, hsight⟩ := List.mem_filterMap.mp hr
  cases sight with
  | polled result =>
    obtain rfl := Option.some.inj hsight
    exact h _ hm
  | flag | lasted | paused => cases hsight

/-- The end of a wait: by the flag, by what the last poll said, or because it lasted too long. If
the last poll said nothing about the end, the run of the app was not over. -/
theorem Settles.ends (hs : w.Settles log v) :
    (.flag true ∈ log ∧ v = .error .interrupted ∧
      ∀ r ∈ (polls log).getLast?, w.ofPoll r = none) ∨
    (.flag true ∉ log ∧ ∃ r, (polls log).getLast? = some r ∧ w.ofPoll r = some v) ∨
    (.flag true ∉ log ∧ (∀ r ∈ (polls log).getLast?, w.ofPoll r = none) ∧
      ∃ elapsed, log.getLast? = some (.lasted elapsed) ∧ w.ofElapsed elapsed = some v) := by
  obtain ⟨quiet, last, rfl, hquiet, hlast⟩ := hs
  have hflag : .flag true ∉ quiet := fun hm => nomatch hquiet _ hm
  have hpending : ∀ r ∈ (polls quiet).getLast?, w.ofPoll r = none :=
    fun r hr => polls_of_quiet hquiet r (List.mem_of_getLast? hr)
  have hpolls : polls (quiet ++ [last]) = polls quiet ++ last.result?.toList := by
    rw [polls, List.filterMap_append, ← polls, ← polls, polls_cons]
    exact congrArg _ (List.append_nil _)
  cases last with
  | flag raised =>
    cases raised with
    | false => cases hlast
    | true =>
      rw [hpolls.trans (List.append_nil _)]
      exact .inl ⟨by simp, (Option.some.inj hlast).symm, hpending⟩
  | polled r =>
    refine .inr (.inl ⟨by simpa using hflag, r, ?_, hlast⟩)
    exact hpolls ▸ List.getLast?_concat
  | lasted elapsed =>
    rw [hpolls.trans (List.append_nil _)]
    exact .inr (.inr ⟨by simpa using hflag, hpending, elapsed, List.getLast?_concat, hlast⟩)
  | paused slice => cases hlast

theorem Settles.polled_iff (hs : w.Settles log v) {u : Verdict} (hstop : u ≠ .error .interrupted)
    (hlate : ∀ step run waited, u ≠ .error (.appRunTimeout step run waited)) :
    v = u ↔ ∃ r, (polls log).getLast? = some r ∧ w.ofPoll r = some u := by
  rcases hs.ends with ⟨-, rfl, hnone⟩ | ⟨-, r, hr, hv⟩ | ⟨-, hnone, elapsed, -, hv⟩
  · refine iff_of_false hstop.symm ?_
    rintro ⟨r, hr, hu⟩
    exact nomatch (hnone r hr).symm.trans hu
  · constructor
    · rintro rfl
      exact ⟨r, hr, hv⟩
    · rintro ⟨r', hr', hu⟩
      obtain rfl := Option.some.inj (hr.symm.trans hr')
      exact Option.some.inj (hv.symm.trans hu)
  · obtain ⟨-, rfl⟩ := ofElapsed_eq_some hv
    refine iff_of_false (hlate _ _ _).symm ?_
    rintro ⟨r, hr, hu⟩
    exact nomatch (hnone r hr).symm.trans hu

theorem Settles.tells (hs : w.Settles log v)
    (hpolled : ∀ elapsed, log.getLast? = some (.lasted elapsed) → polls log ≠ []) :
    w.Tells log v := by
  refine ⟨fun text => ?_, fun step => ?_, fun run => ?_, fun fault => ?_, ?_, ?_⟩
  · rw [hs.polled_iff (u := (.ok text)) nofun nofun]
    simp only [ofPoll_eq_ok]
    exact ⟨fun ⟨_, hr, answer, h, htext⟩ => ⟨answer, h ▸ hr, htext⟩,
      fun ⟨answer, hr, htext⟩ => ⟨_, hr, answer, rfl, htext⟩⟩
  · rw [hs.polled_iff (u := (.error (.appRunFailed step))) nofun nofun]
    simp only [ofPoll_eq_failed]
    exact ⟨fun ⟨_, hr, hstep, answer, h⟩ => ⟨hstep, answer, h ▸ hr⟩,
      fun ⟨hstep, answer, hr⟩ => ⟨_, hr, hstep, answer, rfl⟩⟩
  · rw [hs.polled_iff (u := (.error (.appRunNotFound run))) nofun nofun]
    simp only [ofPoll_eq_notFound]
    exact ⟨fun ⟨_, hr, hrun, answer, h⟩ => ⟨hrun, answer, h ▸ hr⟩,
      fun ⟨hrun, answer, hr⟩ => ⟨_, hr, hrun, answer, rfl⟩⟩
  · rw [hs.polled_iff (u := (.error (.provider fault))) nofun nofun]
    simp only [ofPoll_eq_refused, exists_eq_right]
  · rintro step run waited rfl
    rcases hs.ends with ⟨-, hv, -⟩ | ⟨-, r, -, hv⟩ | ⟨-, hnone, elapsed, hlast, hv⟩
    · cases hv
    · exact absurd hv ofPoll_ne_timeout
    · obtain ⟨r, hr⟩ := Option.ne_none_iff_exists'.mp
        (mt List.getLast?_eq_none_iff.mp (hpolled elapsed hlast))
      obtain ⟨status, answer, rfl, hstatus⟩ := ofPoll_eq_none (hnone r hr)
      obtain ⟨hlate, heq⟩ := ofElapsed_eq_some hv
      cases heq
      exact ⟨status, answer, elapsed, hr, hstatus, hlast, hlate, rfl, rfl, rfl⟩
  · rcases hs.ends with ⟨hflag, rfl, -⟩ | ⟨hflag, r, -, hv⟩ | ⟨hflag, -, elapsed, -, hv⟩
    · exact iff_of_true rfl hflag
    · exact iff_of_false (fun heq => ofPoll_ne_interrupted (heq ▸ hv)) hflag
    · exact iff_of_false ((ofElapsed_eq_some hv).2 ▸ nofun) hflag

end Wait

/-! ## What a wait comes to see -/

namespace Surroundings

open Wait (Sight Stage Verdict)

variable {σ : Type} {s : Surroundings σ} {w : Wait} {started n : Nat} {stage stage' : Stage}
  {x y z : σ} {log more : List Sight} {v : Verdict}

def Ends (s : Surroundings σ) (w : Wait) (started : Nat) (stage : Stage) (x : σ)
    (v : Verdict) (y : σ) : Prop :=
  ∃ log stage', s.Watches w started stage x log stage' y ∧ w.Settles log v

theorem Ends.last {sight : Sight} (h : s.see w started stage x = some (sight, y))
    (hv : w.verdict? sight = some v) : s.Ends w started stage x v y :=
  ⟨[sight], stage.next w, .see h (.start _ _), Wait.settles_last hv⟩

theorem Ends.see {sight : Sight} (h : s.see w started stage x = some (sight, y))
    (hv : w.verdict? sight = none) (he : s.Ends w started (stage.next w) y v z) :
    s.Ends w started stage x v z := by
  obtain ⟨log, stage', hwatches, hsettles⟩ := he
  exact ⟨sight :: log, stage', .see h hwatches, hsettles.cons hv⟩

theorem Ends.stopped (h : (s.engine x).stopping = true)
    (hsee : s.see w started stage x = some (.flag (s.engine x).stopping, x)) :
    s.Ends w started stage x (.error .interrupted) x :=
  .last hsee (by rw [h]; rfl)

theorem Ends.going (h : (s.engine x).stopping = false)
    (hsee : s.see w started stage x = some (.flag (s.engine x).stopping, x))
    (he : s.Ends w started (stage.next w) x v z) : s.Ends w started stage x v z :=
  .see hsee (by rw [h]; rfl) he

theorem Ends.slept {slice : Nat} {rest : List Nat} (hstop : (s.engine x).stopping = false)
    (he : s.Ends w started (.pausing rest) (s.sleep slice x) v z) :
    s.Ends w started (.pausing (slice :: rest)) x v z :=
  .going hstop rfl (.see rfl rfl he)

theorem ends_of_stopped_pause {slices : List Nat} (h : s.pause slices x = (false, y)) :
    s.Ends w started (.pausing slices) x (.error .interrupted) y := by
  induction slices generalizing x with
  | nil =>
    obtain ⟨hstop, rfl⟩ := Prod.mk.inj h
    exact .stopped (by simpa using hstop) rfl
  | cons slice rest ih =>
    rw [pause] at h
    split at h
    · next hstop =>
      cases h
      exact .stopped hstop rfl
    · next hstop => exact .slept (Bool.eq_false_iff.mpr hstop) (ih h)

theorem ends_of_pause {slices : List Nat} (h : s.pause slices x = (true, y))
    (he : s.Ends w started .poised y v z) : s.Ends w started (.pausing slices) x v z := by
  induction slices generalizing x with
  | nil =>
    obtain ⟨hstop, rfl⟩ := Prod.mk.inj h
    have hlow : (s.engine x).stopping = false := by simpa using hstop
    exact .going hlow rfl he
  | cons slice rest ih =>
    rw [pause] at h
    split at h
    · cases h
    · next hstop => exact .slept (Bool.eq_false_iff.mpr hstop) (ih h)

theorem await_ends (h : s.await w started n x = some (v, y)) :
    s.Ends w started .poised x v y := by
  induction n generalizing x with
  | zero => cases h
  | succ n ih =>
    rw [await] at h
    split at h
    · next hstop =>
      cases h
      exact .stopped hstop rfl
    · next hstop =>
      refine .going (Bool.eq_false_iff.mpr hstop) rfl ?_
      split at h
      · cases h
      · next r x₁ hcall =>
        have hsee : s.see w started .asking x = some (.polled r, x₁) := by
          rw [see, hcall]
          rfl
        cases hr : w.ofPoll r with
        | some u =>
          simp only [hr] at h
          cases h
          exact .last hsee hr
        | none =>
          simp only [hr] at h
          refine .see hsee hr ?_
          cases he : w.ofElapsed ((s.instant x₁).1 - started) with
          | some u =>
            simp only [he] at h
            cases h
            exact .last rfl he
          | none =>
            simp only [he] at h
            refine .see rfl he ?_
            split at h
            · next x₂ hpaused =>
              cases h
              exact ends_of_stopped_pause hpaused
            · next x₂ hpaused => exact ends_of_pause hpaused (ih h)

theorem Watches.split (hw : s.Watches w started stage x log stage' z) (hs : w.Settles log v) :
    ∃ sight y, s.see w started stage x = some (sight, y) ∧
      (w.verdict? sight = some v ∧ z = y ∨
        w.verdict? sight = none ∧ ∃ rest, rest.length < log.length ∧
          s.Watches w started (stage.next w) y rest stage' z ∧ w.Settles rest v) := by
  cases hw with
  | start =>
    obtain ⟨quiet, last, heq, -⟩ := hs
    exact absurd heq (by simp)
  | see hsee hrest =>
    refine ⟨_, _, hsee, ?_⟩
    rcases hs.cases with ⟨hv, rfl⟩ | ⟨hv, hs⟩
    · cases hrest
      exact .inl ⟨hv, rfl⟩
    · exact .inr ⟨hv, _, Nat.lt_succ_self _, hrest, hs⟩

theorem Watches.look (hw : s.Watches w started stage x log stage' z) (hs : w.Settles log v)
    (hlook : s.see w started stage x = some (.flag (s.engine x).stopping, x)) :
    ((s.engine x).stopping = true ∧ v = .error .interrupted ∧ z = x) ∨
    ((s.engine x).stopping = false ∧ ∃ rest, rest.length < log.length ∧
      s.Watches w started (stage.next w) x rest stage' z ∧ w.Settles rest v) := by
  obtain ⟨sight, y, hsee, hnext⟩ := hw.split hs
  obtain ⟨rfl, rfl⟩ := Prod.mk.inj (Option.some.inj (hlook.symm.trans hsee))
  cases hstop : (s.engine x).stopping <;> rw [hstop] at hnext
  · rcases hnext with ⟨hv, -⟩ | ⟨-, hnext⟩
    · cases hv
    · exact .inr ⟨rfl, hnext⟩
  · rcases hnext with ⟨hv, rfl⟩ | ⟨hv, -⟩
    · exact .inl ⟨rfl, (Option.some.inj hv).symm, rfl⟩
    · cases hv

theorem Watches.pause {slices : List Nat}
    (hw : s.Watches w started (.pausing slices) x log stage' z) (hs : w.Settles log v) :
    (s.pause slices x = (false, z) ∧ v = .error .interrupted) ∨
    ∃ y rest, s.pause slices x = (true, y) ∧ rest.length < log.length ∧
      s.Watches w started .poised y rest stage' z ∧ w.Settles rest v := by
  induction slices generalizing x log with
  | nil =>
    rw [Surroundings.pause]
    rcases hw.look hs rfl with ⟨hstop, rfl, rfl⟩ | ⟨hstop, rest, hlt, hrest, hs⟩
    · exact .inl ⟨by rw [hstop]; rfl, rfl⟩
    · exact .inr ⟨x, rest, by rw [hstop]; rfl, hlt, hrest, hs⟩
  | cons slice left ih =>
    rw [Surroundings.pause]
    rcases hw.look hs rfl with ⟨hstop, rfl, rfl⟩ | ⟨hstop, rest, hlt, hrest, hs⟩
    · exact .inl ⟨if_pos hstop, rfl⟩
    · rw [if_neg (by rw [hstop]; decide)]
      obtain ⟨_, _, hslept, hnext⟩ := hrest.split hs
      cases hslept
      rcases hnext with ⟨hv, -⟩ | ⟨-, rest', hlt', hrest', hs'⟩
      · cases hv
      · rcases ih hrest' hs' with hstopped | ⟨y, rest'', hpause, hlt'', hrest'', hs''⟩
        · exact .inl hstopped
        · exact .inr ⟨y, rest'', hpause, by omega, hrest'', hs''⟩

/-- Sights that settle a wait are those that it takes, if it may poll often enough. -/
theorem Watches.await (hw : s.Watches w started .poised x log stage' z) (hs : w.Settles log v)
    (hn : log.length ≤ n) : s.await w started n x = some (v, z) := by
  induction n generalizing x log with
  | zero =>
    obtain ⟨quiet, last, rfl, -⟩ := hs
    exact absurd hn (by simp)
  | succ n ih =>
    rw [Surroundings.await]
    rcases hw.look hs rfl with ⟨hstop, rfl, rfl⟩ | ⟨hstop, rest, hlt, hrest, hs⟩
    · exact if_pos hstop
    · rw [if_neg (by rw [hstop]; decide)]
      obtain ⟨_, x₁, hsee, hnext⟩ := hrest.split hs
      obtain ⟨⟨r, _⟩, hcall, heq⟩ := Option.map_eq_some_iff.mp hsee
      obtain ⟨rfl, rfl⟩ := Prod.mk.inj heq
      rw [hcall]
      dsimp only
      rcases hnext with ⟨hv, rfl⟩ | ⟨hv, rest, hlt, hrest, hs⟩
      · have hr : w.ofPoll r = some v := hv
        rw [hr]
      · have hr : w.ofPoll r = none := hv
        rw [hr]
        dsimp only
        obtain ⟨_, _, hsee, hnext⟩ := hrest.split hs
        cases hsee
        rcases hnext with ⟨hv, rfl⟩ | ⟨hv, rest, hlt, hrest, hs⟩
        · have he : w.ofElapsed _ = some v := hv
          rw [he]
        · have he : w.ofElapsed _ = none := hv
          rw [he]
          dsimp only
          rcases hrest.pause hs with ⟨hpause, rfl⟩ | ⟨y, rest, hpause, hlt, hrest, hs⟩
          · rw [hpause]
          · rw [hpause]
            exact ih hrest hs (by omega)

theorem see_lasted {elapsed : Nat} (h : s.see w started stage x = some (.lasted elapsed, y)) :
    stage = .timing := by
  cases stage with
  | timing => rfl
  | asking =>
    obtain ⟨r, -, heq⟩ := Option.map_eq_some_iff.mp h
    cases heq
  | poised | pausing | sleeping => cases h

theorem Watches.polled (hw : s.Watches w started stage x log stage' z) (hstage : stage ≠ .timing)
    {elapsed : Nat} (hlast : log.getLast? = some (.lasted elapsed)) : Wait.polls log ≠ [] := by
  induction hw with
  | start => cases hlast
  | @see stage x sight y log stage' z hsee hrest ih =>
    rw [Wait.polls_cons]
    cases log with
    | nil =>
      obtain rfl := Option.some.inj hlast
      exact absurd (see_lasted hsee) hstage
    | cons later log =>
      rw [List.getLast?_cons_cons] at hlast
      by_cases hnext : stage.next w = .timing
      · obtain rfl := Stage.next_timing hnext
        obtain ⟨r, -, heq⟩ := Option.map_eq_some_iff.mp hsee
        obtain ⟨rfl, -⟩ := Prod.mk.inj heq
        exact List.cons_ne_nil _ _
      · exact List.append_ne_nil_of_right_ne_nil _ (ih hnext hlast)

/-! ## The end of a wait -/

theorem Watches.trans {stage'' : Stage} (h : s.Watches w started stage x log stage' y)
    (h' : s.Watches w started stage' y more stage'' z) :
    s.Watches w started stage x (log ++ more) stage'' z := by
  induction h with
  | start => exact h'
  | see hsee _ ih => exact .see hsee (ih h')

theorem Watches.left (h : s.Watches w started stage x (log ++ more) stage' z) :
    ∃ stage'' y, s.Watches w started stage x log stage'' y := by
  induction log generalizing stage x with
  | nil => exact ⟨stage, x, .start _ _⟩
  | cons sight log ih =>
    cases h with
    | see hsee hrest =>
      obtain ⟨stage'', y, hlog⟩ := ih hrest
      exact ⟨stage'', y, .see hsee hlog⟩

variable {time : σ → Nat}

/-- From a stage on a wait that goes on looks at the clock, at the time of `x` or later. -/
def LooksAgain (s : Surroundings σ) (w : Wait) (started : Nat) (time : σ → Nat) (stage : Stage)
    (x : σ) : Prop :=
  ∃ log stage' y elapsed, s.Watches w started stage x log stage' y ∧ .lasted elapsed ∈ log ∧
    time x - started ≤ elapsed

theorem LooksAgain.see {sight : Sight} (hsee : s.see w started stage x = some (sight, y))
    (htime : time x ≤ time y) (h : s.LooksAgain w started time (stage.next w) y) :
    s.LooksAgain w started time stage x := by
  obtain ⟨log, stage', z, elapsed, hw, hm, hle⟩ := h
  exact ⟨sight :: log, stage', z, elapsed, .see hsee hw, List.mem_cons_of_mem _ hm, by omega⟩

theorem Clocked.looksAgain (hc : s.Clocked time) (started : Nat)
    (hcall : ∀ x, (s.call (.appRun w.tenant w.run) x).isSome) (stage : Stage) (x : σ) :
    s.LooksAgain w started time stage x := by
  have timing : ∀ x, s.LooksAgain w started time .timing x := by
    intro x
    have hshows := hc.shows x
    have hinstant := hc.instant x
    exact ⟨_, _, _, _, .see rfl (.start _ _), List.mem_singleton_self _, by omega⟩
  have asking : ∀ x, s.LooksAgain w started time .asking x := by
    intro x
    obtain ⟨⟨r, y⟩, hanswer⟩ := Option.isSome_iff_exists.mp (hcall x)
    have hsee : s.see w started .asking x = some (.polled r, y) := by
      rw [Surroundings.see, hanswer]
      rfl
    exact .see hsee (hc.call _ _ _ _ hanswer) (timing y)
  have poised : ∀ x, s.LooksAgain w started time .poised x :=
    fun x => .see rfl (Nat.le_refl _) (asking x)
  have pausing : ∀ left x, s.LooksAgain w started time (.pausing left) x := by
    intro left
    induction left with
    | nil => exact fun x => .see rfl (Nat.le_refl _) (poised x)
    | cons slice left ih =>
      exact fun x => .see rfl (Nat.le_refl _) (.see rfl (hc.sleep slice x) (ih _))
  cases stage with
  | poised => exact poised x
  | asking => exact asking x
  | timing => exact timing x
  | pausing left => exact pausing left x
  | sleeping slice left => exact .see rfl (hc.sleep slice x) (pausing left _)

/-- Whatever the flag, the provider and the clock do, a wait ends with the first sight that says
how, and does nothing after it. It ends with the answer of the last poll if and only if that one
said that the run is complete, and so for the other results of a poll; for lasting too long only
after a poll that found the run unfinished; and interrupted if and only if it has seen the flag
raised. With the flag raised from the start it does not poll. If the clock does not go back and in
the course of the wait comes to show a time beyond the limit, the wait ends. -/
theorem wait_ends_at_first_sight (s : Surroundings σ) (w : Wait) (x : σ) :
    (∀ {patience v y}, (Attempt.await w).run.run s patience x = some (v, y) →
      ∃ log, s.Waits w x log v y) ∧
    (∀ {log v y}, s.Waits w x log v y → w.Tells log v ∧ ∀ patience, log.length ≤ patience w →
      (Attempt.await w).run.run s patience x = some (v, y)) ∧
    ((s.engine (s.instant x).2).stopping = true → ∀ {log v y}, s.Waits w x log v y ↔
      log = [.flag true] ∧ v = .error .interrupted ∧ y = (s.instant x).2) ∧
    ∀ {time : σ → Nat}, s.Clocked time → (∀ x, (s.call (.appRun w.tenant w.run) x).isSome) →
      ∀ {log stage y}, s.Watches w (s.instant x).1 .poised (s.instant x).2 log stage y →
        w.limit < time y - (s.instant x).1 → ∃ log v y, s.Waits w x log v y := by
  have hrun : ∀ patience, (Attempt.await w).run.run s patience x =
      s.await w (s.instant x).1 (patience w) (s.instant x).2 := by
    intro patience
    change Proc.run s patience (.await w .done) x = _
    rw [Proc.run]
    dsimp only
    cases s.await w (s.instant x).1 (patience w) (s.instant x).2 <;> rfl
  refine ⟨fun {patience v y} h => ?_, fun {log v y} h => ?_, fun hstop {log v y} => ?_, ?_⟩
  · exact await_ends ((hrun patience).symm.trans h)
  · obtain ⟨stage, hw, hs⟩ := h
    exact ⟨hs.tells fun _ => hw.polled nofun,
      fun patience hlength => (hrun patience).trans (hw.await hs hlength)⟩
  · constructor
    · rintro ⟨stage, hw, hs⟩
      cases hw with
      | start =>
        obtain ⟨quiet, last, heq, -⟩ := hs
        exact absurd heq (by simp)
      | see hsee hrest =>
        cases hsee
        rw [hstop] at hs ⊢
        rcases hs.cases with ⟨hv, rfl⟩ | ⟨hv, -⟩
        · cases hrest
          exact ⟨rfl, (Option.some.inj hv).symm, rfl⟩
        · cases hv
    · rintro ⟨rfl, rfl, rfl⟩
      refine ⟨_, .see ?_ (.start _ _), Wait.settles_last rfl⟩
      rw [Surroundings.see, hstop]
  · intro time hc hcall log stage y hw hlimit
    obtain ⟨more, stage', z, elapsed, hmore, hm, hle⟩ :=
      hc.looksAgain (s.instant x).1 hcall stage y
    have hlate : (w.verdict? (.lasted elapsed)).isSome := by
      rw [Wait.verdict?, Wait.ofElapsed, if_pos (by omega)]
      rfl
    obtain ⟨first, rest, v, heq, hs⟩ :=
      Wait.exists_settles ⟨_, List.mem_append_right log hm, hlate⟩
    obtain ⟨stage'', u, hfirst⟩ := (heq ▸ hw.trans hmore).left
    exact ⟨first, v, u, stage'', hfirst, hs⟩

end Surroundings

namespace Sample

def unfinished : (c : ProviderCall) → c.Outcome
  | .appRun _ _ => .ok ⟨.inProgress, none⟩
  | _ => .error (.unavailable "down")

/-- A world where time passes by pauses and by looks at the clock, and the flag is raised at some
time. -/
def waiting (raisedAt : Nat) : Surroundings Nat where
  engine time := { Engine.empty with stopping := decide (raisedAt ≤ time) }
  setEngine _ time := time
  clock time := (0, time)
  instant time := (time + 1, time + 1)
  sample time := (0, time)
  listing time := ([], time)
  sleep n time := time + n
  call c time := some (unfinished c, time)

theorem waiting_clocked (raisedAt : Nat) : (waiting raisedAt).Clocked id :=
  ⟨fun _ => rfl, Nat.le_succ, fun n time => Nat.le_add_right time n,
    fun _ _ _ _ h => Nat.le_of_eq (congrArg Prod.snd (Option.some.inj h))⟩

/-- The flag is raised within the first pause, which goes on to the end of its slice. -/
def pausedLog : List Wait.Sight :=
  [.flag false, .polled (.ok ⟨.inProgress, none⟩), .lasted 1, .flag false, .paused 200000000,
    .flag true]

end Sample

theorem Surroundings.wait_ends_at_first_sight_paused :
    (Sample.waiting 150000000).Waits ⟨"acme", "run-1", "draft", 300000000, 1000000000⟩ 0
      Sample.pausedLog (.error .interrupted) 200000002 ∧
    (Attempt.await ⟨"acme", "run-1", "draft", 300000000, 1000000000⟩).run.run
      (Sample.waiting 150000000) (fun _ => 6) 0 = some (.error .interrupted, 200000002) ∧
    .flag true ∈ Sample.pausedLog ∧
    ∃ log v y, (Sample.waiting 1000).Waits ⟨"acme", "run-1", "draft", 120, 100⟩ 0 log v y := by
  have hwaits : (Sample.waiting 150000000).Waits
      ⟨"acme", "run-1", "draft", 300000000, 1000000000⟩ 0 Sample.pausedLog (.error .interrupted)
      200000002 := by
    refine ⟨_, .see rfl (.see rfl (.see rfl (.see rfl (.see rfl (.see rfl (.start _ _)))))), ?_⟩
    refine ⟨Sample.pausedLog.dropLast, .flag true, rfl, ?_, rfl⟩
    simp [Sample.pausedLog, Wait.verdict?, Wait.ofPoll, Wait.ofElapsed]
  obtain ⟨-, hall, -, -⟩ := wait_ends_at_first_sight (Sample.waiting 150000000)
    ⟨"acme", "run-1", "draft", 300000000, 1000000000⟩ 0
  obtain ⟨htells, hrun⟩ := hall hwaits
  obtain ⟨-, -, -, hends⟩ := wait_ends_at_first_sight (Sample.waiting 1000)
    ⟨"acme", "run-1", "draft", 120, 100⟩ 0
  refine ⟨hwaits, hrun _ (Nat.le_refl 6), htells.stopped.mp rfl, ?_⟩
  exact hends (Sample.waiting_clocked 1000) (fun _ => rfl)
    (.see rfl (.see rfl (.see rfl (.see rfl (.see rfl (.start _ _)))))) (by decide)

end FlowEngine
