import FlowEngine.Provider.Http
import Mathlib.Data.List.Basic

/-! # The tokens of a provider

Calls are made one after the other, each at some reading of the clock and with some reply to each
request. What a call sends is written down; `latestGrant` reads from the calls made so far which
token of a tenant was granted last, and when. The tokens kept are these, so that the token in a
request is always the latest of its tenant.
-/
namespace FlowEngine

structure HttpExchange where
  request : HttpRequest
  result : HttpResult
  deriving DecidableEq, Repr

/-- The circumstances of a call: the reading of the clock, and what the requests come back with, in
the order in which they are sent. -/
structure Occasion where
  call : ProviderCall
  now : Int
  replies : Nat → HttpResult

def Occasion.transport (o : Occasion) : Transport (StateM (List HttpExchange)) where
  send request := fun sent =>
    (o.replies sent.length, sent ++ [⟨request, o.replies sent.length⟩])
  clock := pure o.now

@[simp] theorem Occasion.clock_transport (o : Occasion) : o.transport.clock = pure o.now := rfl

@[simp] theorem Occasion.run_send (o : Occasion) (request : HttpRequest)
    (sent : List HttpExchange) : (o.transport.send request).run sent =
      (pure (o.replies sent.length, sent ++ [⟨request, o.replies sent.length⟩]) : Id _) := rfl

structure Visit where
  call : ProviderCall
  now : Int
  sent : List HttpExchange
  outcome : call.Outcome
  before : Tokens
  after : Tokens

namespace HttpProvider

def visit (p : HttpProvider) (tokens : Tokens) (o : Occasion) : Visit :=
  let ((outcome, after), sent) := Id.run ((p.ask o.transport o.call tokens).run [])
  ⟨o.call, o.now, sent, outcome, tokens, after⟩

/-- The calls made so far, and the tokens kept. -/
structure Record where
  past : List Visit
  tokens : Tokens

def Record.next (p : HttpProvider) (r : Record) (o : Occasion) : Record :=
  ⟨r.past ++ [p.visit r.tokens o], (p.visit r.tokens o).after⟩

def record (p : HttpProvider) (occasions : List Occasion) : Record :=
  occasions.foldl (Record.next p) ⟨[], []⟩

/-- What an exchange grants, if it is a request for a token of the tenant. -/
def granted? (p : HttpProvider) (tenant : String) (e : HttpExchange) : Option Grant :=
  if e.request = p.tokenRequest tenant then (grantOf e.result).toOption else none

/-- When a call was made and what it was granted for its tenant. -/
def grantIn? (p : HttpProvider) (v : Visit) : Option (Int × Grant) :=
  (v.sent.findSome? (p.granted? v.call.tenant)).map fun grant => (v.now, grant)

def latestGrant (p : HttpProvider) (tenant : String) (past : List Visit) : Option (Int × Grant) :=
  ((past.filter fun v => v.call.tenant = tenant).filterMap p.grantIn?).getLast?

def kept (moment : Int) (g : Grant) : Token := ⟨g.token, addTime moment g.lifetime⟩

variable {p : HttpProvider} {tokens : Tokens} {o : Occasion}

theorem request_authorization (token : String) (c : ProviderCall) :
    (p.request token c).authorization = bearer token := by
  cases c <;> rfl

theorem tokenRequest_ne_request (tenant token : String) (c : ProviderCall) :
    p.tokenRequest tenant ≠ p.request token c := by
  intro h
  have hauth := request_authorization (p := p) token c
  rw [← h] at hauth
  cases hauth

theorem granted?_request (tenant token : String) (c : ProviderCall) (result : HttpResult) :
    p.granted? tenant ⟨p.request token c, result⟩ = none :=
  if_neg (Ne.symm (tokenRequest_ne_request tenant token c))

theorem granted?_tokenRequest (tenant : String) (result : HttpResult) :
    p.granted? tenant ⟨p.tokenRequest tenant, result⟩ = (grantOf result).toOption :=
  if_pos rfl

theorem latestGrant_append (tenant : String) (past : List Visit) (v : Visit) :
    p.latestGrant tenant (past ++ [v]) =
      if v.call.tenant = tenant then (p.grantIn? v).or (p.latestGrant tenant past)
      else p.latestGrant tenant past := by
  rw [latestGrant, List.filter_append, List.filterMap_append, List.getLast?_append]
  by_cases htenant : v.call.tenant = tenant
  · rw [if_pos htenant, List.filter_cons_of_pos (by simpa using htenant)]
    cases hgrant : p.grantIn? v <;> simp [hgrant, latestGrant]
  · rw [if_neg htenant, List.filter_cons_of_neg (by simpa using htenant)]
    rfl

theorem visit_of_fresh {t : Token}
    (ht : (tokens.lookup o.call.tenant).filter (fun t => t.isFresh p.margin o.now) = some t) :
    p.visit tokens o = ⟨o.call, o.now, [⟨p.request t.text o.call, o.replies 0⟩],
      outcome (o.call.destination p.apiBase).url (o.replies 0) o.call, tokens, tokens⟩ := by
  simp [visit, ask, token, ht]

theorem visit_of_granted {g : Grant}
    (ht : (tokens.lookup o.call.tenant).filter (fun t => t.isFresh p.margin o.now) = none)
    (hg : grantOf (o.replies 0) = .ok g) :
    p.visit tokens o = ⟨o.call, o.now,
      [⟨p.tokenRequest o.call.tenant, o.replies 0⟩, ⟨p.request g.token o.call, o.replies 1⟩],
      outcome (o.call.destination p.apiBase).url (o.replies 1) o.call, tokens,
      (o.call.tenant, kept o.now g) :: tokens.filter fun e => e.1 ≠ o.call.tenant⟩ := by
  simp [visit, ask, token, ht, hg, kept]

theorem visit_of_refused {reason : String}
    (ht : (tokens.lookup o.call.tenant).filter (fun t => t.isFresh p.margin o.now) = none)
    (hr : grantOf (o.replies 0) = .error reason) :
    p.visit tokens o = ⟨o.call, o.now, [⟨p.tokenRequest o.call.tenant, o.replies 0⟩],
      .error (.authentication o.call.tenant reason), tokens, tokens⟩ := by
  simp [visit, ask, token, ht, hr]

/-- How a call is made after the calls of `past`, with tokens renewed `margin` seconds before their
end: with the token that is kept, after one request for a token, or not at all. -/
inductive Served (p : HttpProvider) (margin : Nat) (past : List Visit) : Visit → Prop
  | kept {call : ProviderCall} {now moment : Int} {tokens : Tokens} {grant : Grant}
      {result : HttpResult}
      (latest : p.latestGrant call.tenant past = some (moment, grant))
      (good : now < moment + grant.lifetime - margin) :
    Served p margin past ⟨call, now, [⟨p.request grant.token call, result⟩],
      outcome (call.destination p.apiBase).url result call, tokens, tokens⟩
  | renewed {call : ProviderCall} {now : Int} {before after : Tokens} {grant : Grant}
      {granting result : HttpResult}
      (granted : grantOf granting = .ok grant)
      (others : ∀ tenant, tenant ≠ call.tenant → after.lookup tenant = before.lookup tenant) :
    Served p margin past ⟨call, now,
      [⟨p.tokenRequest call.tenant, granting⟩, ⟨p.request grant.token call, result⟩],
      outcome (call.destination p.apiBase).url result call, before, after⟩
  | refused {call : ProviderCall} {now : Int} {tokens : Tokens} {reason : String}
      {refusing : HttpResult}
      (refusal : grantOf refusing = .error reason) :
    Served p margin past ⟨call, now, [⟨p.tokenRequest call.tenant, refusing⟩],
      .error (.authentication call.tenant reason), tokens, tokens⟩

/-- The tokens kept are the ones granted last. -/
def Record.Faithful (p : HttpProvider) (r : Record) : Prop :=
  ∀ tenant, r.tokens.lookup tenant =
    (p.latestGrant tenant r.past).map fun latest => kept latest.1 latest.2

variable {r : Record}

theorem Record.Faithful.start : Record.Faithful p ⟨[], []⟩ := by
  intro tenant
  rfl

theorem Record.Faithful.of_not_granted (h : r.Faithful p)
    (hgrant : p.grantIn? (p.visit r.tokens o) = none)
    (hafter : (p.visit r.tokens o).after = r.tokens) : (r.next p o).Faithful p := by
  intro tenant
  rw [Record.next, hafter, latestGrant_append, hgrant, Option.none_or, ite_self]
  exact h tenant

theorem Record.Faithful.next (h : r.Faithful p) (o : Occasion) : (r.next p o).Faithful p := by
  rcases ht : (r.tokens.lookup o.call.tenant).filter (fun t => t.isFresh p.margin o.now) with _ | t
  · rcases hg : grantOf (o.replies 0) with reason | grant
    · have hvisit := visit_of_refused ht hg
      apply h.of_not_granted
      · rw [hvisit]
        simp [grantIn?, granted?_tokenRequest, hg, Except.toOption]
      · rw [hvisit]
    · have hvisit := visit_of_granted ht hg
      intro tenant
      simp only [Record.next, latestGrant_append, hvisit]
      rw [Table.lookup_cons_if, Table.lookup_filter_ne]
      by_cases htenant : tenant = o.call.tenant
      · subst htenant
        simp [grantIn?, granted?_tokenRequest, hg, Except.toOption]
      · rw [if_neg htenant, if_neg htenant, if_neg (Ne.symm htenant)]
        exact h tenant
  · have hvisit := visit_of_fresh ht
    apply h.of_not_granted
    · rw [hvisit]
      simp [grantIn?, granted?_request]
    · rw [hvisit]

theorem Record.Faithful.record (p : HttpProvider) (occasions : List Occasion) :
    (p.record occasions).Faithful p := by
  suffices hrun : ∀ r : Record, r.Faithful p → (occasions.foldl (Record.next p) r).Faithful p from
    hrun _ .start
  induction occasions with
  | nil => exact fun _ h => h
  | cons o rest ih => exact fun r h => ih _ (h.next o)

theorem lt_of_isFresh {moment now : Int} {grant : Grant} {margin : Nat} (hnow : 0 ≤ now)
    (h : (kept moment grant).isFresh (min margin maxTime) now = true) :
    now < moment + grant.lifetime - margin := by
  have hlt : now < addTime moment grant.lifetime - min (margin : Int) maxTime := of_decide_eq_true h
  simp only [addTime, maxTime, minTime] at hlt
  omega

theorem Record.Faithful.served (h : r.Faithful p) {margin : Nat}
    (hmargin : p.margin = min (margin : Int) maxTime) (hnow : 0 ≤ o.now) :
    Served p margin r.past (p.visit r.tokens o) := by
  rcases ht : (r.tokens.lookup o.call.tenant).filter (fun t => t.isFresh p.margin o.now) with _ | t
  · rcases hg : grantOf (o.replies 0) with reason | grant
    · rw [visit_of_refused ht hg]
      exact .refused hg
    · rw [visit_of_granted ht hg]
      refine .renewed hg fun tenant htenant => ?_
      rw [Table.lookup_cons_if, Table.lookup_filter_ne, if_neg htenant, if_neg htenant]
  · obtain ⟨hlookup, hfresh⟩ := Option.filter_eq_some_iff.mp ht
    rw [h o.call.tenant] at hlookup
    obtain ⟨⟨moment, grant⟩, hlatest, hkept⟩ := Option.map_eq_some_iff.mp hlookup
    subst hkept
    rw [hmargin] at hfresh
    rw [visit_of_fresh ht]
    exact .kept hlatest (lt_of_isFresh hnow hfresh)

theorem Served.authorized {margin : Nat} {past : List Visit} {v : Visit}
    (h : Served p margin past v) {e : HttpExchange} (he : e ∈ v.sent)
    (hrequest : e.request ≠ p.tokenRequest v.call.tenant) :
    ∃ moment grant, p.latestGrant v.call.tenant (past ++ [v]) = some (moment, grant) ∧
      e.request.authorization = bearer grant.token := by
  cases h with
  | @kept call now moment tokens grant result latest good =>
    refine ⟨moment, grant, ?_, ?_⟩
    · rw [latestGrant_append, if_pos rfl, latest]
      simp [grantIn?, granted?_request]
    · rw [List.mem_singleton.mp he]
      exact request_authorization grant.token call
  | @renewed call now before after grant granting result granted others =>
    refine ⟨now, grant, ?_, ?_⟩
    · rw [latestGrant_append, if_pos rfl]
      simp [grantIn?, granted?_tokenRequest, granted, Except.toOption]
    · rcases List.mem_cons.mp he with rfl | he
      · exact absurd rfl hrequest
      · rw [List.mem_singleton.mp he]
        exact request_authorization grant.token call
  | refused refusal =>
    rw [List.mem_singleton.mp he] at hrequest
    exact absurd rfl hrequest

/-- Whatever calls were made earlier, a call is made with the latest token of its tenant while that
is good, and else after exactly one request for a token; where that is refused nothing else is
sent. -/
theorem served_with_latest_token (s : ProviderSettings) (earlier : List Occasion) (o : Occasion)
    (hnow : 0 ≤ o.now) :
    let p := ofSettings s
    let r := p.record earlier
    let v := p.visit r.tokens o
    Served p s.refreshMargin.toNat r.past v ∧
      ∀ e ∈ v.sent, e.request ≠ p.tokenRequest v.call.tenant →
        ∃ moment grant, p.latestGrant v.call.tenant (r.past ++ [v]) = some (moment, grant) ∧
          e.request.authorization = bearer grant.token := by
  intro p r v
  have hfaithful : r.Faithful p := Record.Faithful.record p earlier
  have hserved : Served p s.refreshMargin.toNat r.past v := hfaithful.served rfl hnow
  refine ⟨hserved, ?_⟩
  intro e he hrequest
  exact hserved.authorized he hrequest

namespace Sample

def settings : ProviderSettings := ⟨"https://api", "docflow", "secret", 60⟩

def first : Occasion where
  call := .delete "t" "f"
  now := 0
  replies
    | 0 => .ok ⟨200, Text.toBytes "\x7b\"access_token\":\"a\",\"expires_in\":100\x7d"⟩
    | _ => .error "down"

def second (now : Int) : Occasion := ⟨.delete "t" "f", now, fun _ => .error "down"⟩

end Sample

open HttpProvider.Sample in
theorem served_with_latest_token_twice :
    let p := ofSettings settings
    let r := p.record [first]
    (∀ now ∈ [39, 40], Served p 60 r.past (p.visit r.tokens (second now))) ∧
      (p.visit r.tokens (second 39)).sent.map HttpExchange.request =
        [p.request "a" (.delete "t" "f")] ∧
      (p.visit r.tokens (second 40)).sent.map HttpExchange.request = [p.tokenRequest "t"] := by
  refine ⟨fun now hnow => ?_, by decide +kernel, by decide +kernel⟩
  have hpos : 0 ≤ now := by
    simp only [List.mem_cons, List.not_mem_nil, or_false] at hnow
    omega
  exact (served_with_latest_token settings [first] (second now) hpos).1

end HttpProvider

end FlowEngine
