import FlowEngine.Proofs.Reachable
import FlowEngine.Proofs.Rearrangement

/-! # The catalogue of flows

A registry keeps its flows in a table of tables, which each call may change. What it answers is told
from the calls alone: the first well-formed flow counts for each identifier and version. An entry
without versions would show in the list of identifiers, so that there is none is kept by every call.
A registry is determined by what it finds; with this a call that is refused leaves no trace, and the
order of calls for different versions is not seen.
-/
namespace FlowEngine

namespace Flow

def Offers (f : Flow) (id : String) (version : UInt32) : Prop :=
  f.id.text = id ∧ f.version = version ∧ f.validate = .ok ()

instance (f : Flow) (id : String) (version : UInt32) : Decidable (f.Offers id version) :=
  inferInstanceAs (Decidable (_ ∧ _ ∧ _))

end Flow

namespace Registry

/-- The flow that is kept for an identifier and a version once the calls have been made. -/
def kept? (calls : List Flow) (id : String) (version : UInt32) : Option Flow :=
  calls.find? fun f => f.Offers id version

/-- What a registry answers after calls. -/
structure Follows (r : Registry) (calls : List Flow) : Prop where
  pinned : ∀ id version, r.load id (some version) =
    (kept? calls id version).elim (.error (.unknownFlow id (some version))) .ok
  latest : ∀ id f, r.load id none = .ok f ↔
    kept? calls id f.version = some f ∧ ∀ v, (kept? calls id v).isSome → v ≤ f.version
  unknown : ∀ id fault, r.load id none = .error fault ↔
    fault = .unknownFlow id none ∧ ∀ v, kept? calls id v = none
  increasing : r.flowIds.Pairwise (· < ·)
  listed : ∀ id, id ∈ r.flowIds ↔ ∃ v, (kept? calls id v).isSome
  answered : ∀ f, (r.offer f).1 = f.validate.bind fun _ =>
    if (kept? calls f.id.text f.version).isSome then
      .error (.duplicateVersion f.id.text f.version)
    else .ok f
  registered : ∀ f, r.register f = (r.offer f).1.map fun _ => ofFlows (calls ++ [f])

end Registry

namespace Registry

variable {r r' : Registry} {id : String} {version : UInt32}

/-- The tables are in order, no identifier has an entry without versions, and each flow is where its
identifier and version are. -/
structure Ordered (r : Registry) : Prop where
  ids : Table.Sorted r.flows
  versions : ∀ id vs, r.flows.lookup id = some vs → Table.Sorted vs
  filled : ∀ id vs, r.flows.lookup id = some vs → vs ≠ []
  own : ∀ id version f, r.find? id version = some f → f.id.text = id ∧ f.version = version

theorem find?_eq (r : Registry) (id : String) (version : UInt32) :
    r.find? id version = (r.versions id).lookup version := by
  rw [find?, versions]
  cases r.flows.lookup id <;> rfl

theorem find?_put (r : Registry) (key : String) (vs : Table UInt32 Flow) (id : String)
    (version : UInt32) : find? ⟨r.flows.put key vs⟩ id version =
      if id = key then vs.lookup version else r.find? id version := by
  rw [find?_eq, find?_eq, versions, versions, Table.lookup_put]
  split <;> rfl

theorem offer_cases (r : Registry) (f : Flow) :
    (∃ fault, f.validate = .error fault ∧ r.offer f = (.error fault, r)) ∨
    (f.validate = .ok () ∧ (r.find? f.id.text f.version).isSome ∧
      r.offer f = (.error (.duplicateVersion f.id.text f.version),
        ⟨r.flows.put f.id.text (r.versions f.id.text)⟩)) ∨
    (f.validate = .ok () ∧ r.find? f.id.text f.version = none ∧
      r.offer f = (.ok f, ⟨r.flows.put f.id.text ((r.versions f.id.text).put f.version f)⟩)) := by
  rw [offer, find?_eq]
  cases f.validate with
  | error fault => exact .inl ⟨fault, rfl, rfl⟩
  | ok =>
    right
    cases (r.versions f.id.text).lookup f.version with
    | some g => exact .inl ⟨rfl, rfl, rfl⟩
    | none => exact .inr ⟨rfl, rfl, rfl⟩

theorem find?_offer (r : Registry) (f : Flow) (id : String) (version : UInt32) :
    (r.offer f).2.find? id version =
      (r.find? id version).or (if f.Offers id version then some f else none) := by
  rcases offer_cases r f with ⟨fault, hinvalid, hoffer⟩ | ⟨hvalid, htaken, hoffer⟩ |
    ⟨hvalid, hfree, hoffer⟩
  · have hnot : ¬ f.Offers id version := by
      rintro ⟨-, -, hvalid⟩
      cases hinvalid.symm.trans hvalid
    rw [hoffer, if_neg hnot, Option.or_none]
  · rw [hoffer, find?_put, find?_eq]
    by_cases ho : f.Offers id version
    · obtain ⟨rfl, rfl, -⟩ := ho
      rw [find?_eq] at htaken
      rw [if_pos rfl, Option.or_of_isSome htaken]
    · rw [if_neg ho, Option.or_none]
      split
      · next h => rw [h]
      · rfl
  · rw [hoffer, find?_put]
    split
    · next h =>
      subst h
      rw [Table.lookup_put, ← find?_eq]
      split
      · next hv =>
        subst hv
        rw [hfree, if_pos ⟨rfl, rfl, hvalid⟩, Option.none_or]
      · next hv => rw [if_neg fun ho => hv ho.2.1.symm, Option.or_none]
    · next h => rw [if_neg fun ho => h ho.1.symm, Option.or_none]

theorem ordered_empty : empty.Ordered :=
  ⟨List.Pairwise.nil, nofun, nofun, nofun⟩

namespace Ordered

theorem versions_sorted (hr : r.Ordered) (id : String) : Table.Sorted (r.versions id) := by
  rw [Registry.versions]
  cases hl : r.flows.lookup id with
  | none => exact List.Pairwise.nil
  | some vs => exact hr.versions id vs hl

theorem offer_refused (hr : r.Ordered) {f : Flow} {fault : FlowFault}
    (h : (r.offer f).1 = .error fault) : (r.offer f).2 = r := by
  rcases offer_cases r f with ⟨fault', -, hoffer⟩ | ⟨-, htaken, hoffer⟩ | ⟨-, -, hoffer⟩
  · rw [hoffer]
  · obtain ⟨g, hg⟩ := Option.isSome_iff_exists.mp htaken
    obtain ⟨vs, hl, -⟩ := Option.bind_eq_some_iff.mp hg
    have hself : r.flows.put f.id.text (r.versions f.id.text) = r.flows := by
      rw [Registry.versions, hl]
      exact hr.ids.put_self hl
    rw [hoffer, hself]
  · rw [hoffer] at h
    cases h

theorem offer (hr : r.Ordered) (f : Flow) : (r.offer f).2.Ordered := by
  cases hf : (r.offer f).1 with
  | error fault => rw [hr.offer_refused hf]; exact hr
  | ok g =>
    have hown := find?_offer r f
    rcases offer_cases r f with ⟨fault, -, hoffer⟩ | ⟨-, -, hoffer⟩ | ⟨-, -, hoffer⟩ <;>
      rw [hoffer] at hf hown <;> cases hf
    let grown := (r.versions f.id.text).put f.version f
    have entries : ∀ {id vs}, (r.flows.put f.id.text grown).lookup id = some vs →
        vs = grown ∨ r.flows.lookup id = some vs := by
      intro id vs h
      rw [Table.lookup_put] at h
      split at h
      · exact .inl (Option.some.inj h).symm
      · exact .inr h
    rw [hoffer]
    refine ⟨hr.ids.put _ _, fun id vs h => ?_, fun id vs h => ?_, fun id version g h => ?_⟩
    · rcases entries h with rfl | h
      · exact (hr.versions_sorted _).put _ _
      · exact hr.versions id vs h
    · rcases entries h with rfl | h
      · intro hnil
        have hfound : grown.lookup f.version = some f := by
          rw [Table.lookup_put, if_pos rfl]
        rw [hnil] at hfound
        cases hfound
      · exact hr.filled id vs h
    · rw [hown] at h
      rcases Option.or_eq_some_iff.mp h with h | ⟨-, h⟩
      · exact hr.own id version g h
      · split at h
        · next ho =>
          cases h
          exact ⟨ho.1, ho.2.1⟩
        · cases h

theorem lookup_of_find? (hr : r.Ordered) (hr' : r'.Ordered)
    (h : ∀ id version, r.find? id version = r'.find? id version) {vs : Table UInt32 Flow}
    (hl : r.flows.lookup id = some vs) : r'.flows.lookup id = some vs := by
  have hsame : r.versions id = r'.versions id :=
    (hr.versions_sorted id).ext (hr'.versions_sorted id) fun v => by
      rw [← find?_eq, ← find?_eq, h]
  rw [Registry.versions, Registry.versions, hl, Option.getD_some] at hsame
  cases hl' : r'.flows.lookup id with
  | none => exact absurd (hsame.trans (by rw [hl', Option.getD_none])) (hr.filled id vs hl)
  | some vs' => rw [hsame, hl', Option.getD_some]

theorem ext (hr : r.Ordered) (hr' : r'.Ordered)
    (h : ∀ id version, r.find? id version = r'.find? id version) : r = r' := by
  obtain ⟨flows⟩ := r
  obtain ⟨flows'⟩ := r'
  refine congrArg Registry.mk (hr.ids.ext hr'.ids fun id => Option.ext fun vs => ?_)
  exact ⟨hr.lookup_of_find? hr' h, hr'.lookup_of_find? hr fun i v => (h i v).symm⟩

theorem exists_latest (hr : r.Ordered) {vs : Table UInt32 Flow}
    (hl : r.flows.lookup id = some vs) : ∃ version f, r.latest? id = some f ∧
      r.find? id version = some f ∧ ∀ v, (r.find? id v).isSome → v ≤ version := by
  have hsorted := hr.versions id vs hl
  have hfind : ∀ v, r.find? id v = vs.lookup v := fun v => by
    rw [find?_eq, Registry.versions, hl, Option.getD_some]
  obtain ⟨⟨version, f⟩, hlast⟩ : ∃ last, vs.getLast? = some last :=
    ⟨_, List.getLast?_eq_some_getLast (hr.filled id vs hl)⟩
  refine ⟨version, f, ?_, ?_, fun v hv => ?_⟩
  · rw [latest?, hl]
    exact Option.bind_eq_some_iff.mpr ⟨vs, rfl, Option.bind_eq_some_iff.mpr ⟨_, hlast, rfl⟩⟩
  · rw [hfind, hsorted.distinct.lookup]
    exact List.mem_of_getLast? hlast
  · obtain ⟨g, hg⟩ := Option.isSome_iff_exists.mp hv
    exact hsorted.le_getLast hlast (hsorted.distinct.lookup.mp ((hfind v).symm.trans hg))

theorem latest?_eq_some (hr : r.Ordered) {f : Flow} : r.latest? id = some f ↔
    r.find? id f.version = some f ∧ ∀ v, (r.find? id v).isSome → v ≤ f.version := by
  cases hl : r.flows.lookup id with
  | none => simp [latest?, find?, hl]
  | some vs =>
    obtain ⟨version, last, hlatest, hkept, hgreatest⟩ := hr.exists_latest hl
    obtain rfl : last.version = version := (hr.own _ _ _ hkept).2
    rw [hlatest]
    constructor
    · rintro ⟨⟩
      exact ⟨hkept, hgreatest⟩
    · rintro ⟨hf, hf'⟩
      have heq : last.version = f.version :=
        Std.le_antisymm (hf' _ (by rw [hkept]; rfl)) (hgreatest _ (by rw [hf]; rfl))
      rw [← hkept, heq, hf]

theorem latest?_eq_none (hr : r.Ordered) : r.latest? id = none ↔ ∀ v, r.find? id v = none := by
  cases hl : r.flows.lookup id with
  | none => simp [latest?, find?, hl]
  | some vs =>
    obtain ⟨version, last, hlatest, hkept, -⟩ := hr.exists_latest hl
    rw [hlatest]
    exact ⟨nofun, fun h => nomatch hkept.symm.trans (h version)⟩

theorem mem_flowIds (hr : r.Ordered) : id ∈ r.flowIds ↔ ∃ v, (r.find? id v).isSome := by
  rw [flowIds, List.mem_map]
  constructor
  · rintro ⟨⟨id, vs⟩, hm, rfl⟩
    have hl := hr.ids.distinct.lookup.mpr hm
    obtain ⟨⟨v, f⟩, hv⟩ := List.exists_mem_of_ne_nil vs (hr.filled id vs hl)
    have hf := (hr.versions id vs hl).distinct.lookup.mpr hv
    exact ⟨v, by rw [find?_eq, Registry.versions, hl, Option.getD_some, hf]; rfl⟩
  · rintro ⟨v, hv⟩
    obtain ⟨f, hf⟩ := Option.isSome_iff_exists.mp hv
    obtain ⟨vs, hl, -⟩ := Option.bind_eq_some_iff.mp hf
    exact ⟨(id, vs), Table.mem_of_lookup hl, rfl⟩

end Ordered

theorem ofFlows_append (before after : List Flow) :
    ofFlows (before ++ after) = after.foldl (fun r f => (r.offer f).2) (ofFlows before) := by
  rw [ofFlows, List.foldl_append, ofFlows]

theorem ofFlows_concat (calls : List Flow) (f : Flow) :
    ofFlows (calls ++ [f]) = ((ofFlows calls).offer f).2 :=
  ofFlows_append calls [f]

theorem ordered_ofFlows (calls : List Flow) : (ofFlows calls).Ordered :=
  List.foldlRecOn calls _ ordered_empty fun _ hr f _ => hr.offer f

theorem find?_foldl (r : Registry) (calls : List Flow) (id : String) (version : UInt32) :
    (calls.foldl (fun r f => (r.offer f).2) r).find? id version =
      (r.find? id version).or (kept? calls id version) := by
  induction calls generalizing r with
  | nil => exact Option.or_none.symm
  | cons f rest ih =>
    rw [List.foldl_cons, ih, find?_offer, Option.or_assoc, kept?, kept?, List.find?_cons]
    by_cases ho : f.Offers id version
    · rw [if_pos ho, decide_eq_true ho, Option.some_or]
    · rw [if_neg ho, decide_eq_false ho, Option.none_or]

theorem find?_ofFlows (calls : List Flow) (id : String) (version : UInt32) :
    (ofFlows calls).find? id version = kept? calls id version :=
  find?_foldl .empty calls id version

theorem kept?_of_perm {calls calls' : List Flow} (hperm : calls.Perm calls')
    (hdistinct : (calls.map fun f => (f.id, f.version)).Nodup) (id : String) (version : UInt32) :
    kept? calls id version = kept? calls' id version := by
  refine find?_of_perm hperm fun f hf g hg hfo hgo => ?_
  obtain ⟨hid, hversion, -⟩ := of_decide_eq_true hfo
  obtain ⟨hid', hversion', -⟩ := of_decide_eq_true hgo
  refine List.inj_on_of_nodup_map hdistinct hf hg (Prod.ext ?_ (hversion.trans hversion'.symm))
  exact Identifier.ext_text (hid.trans hid'.symm)

theorem follows_ofFlows (calls : List Flow) : (ofFlows calls).Follows calls := by
  have hr := ordered_ofFlows calls
  have hfind := find?_ofFlows calls
  constructor
  · intro id version
    rw [load_eq, Option.elim_some, hfind]
  · intro id f
    rw [load_eq, Option.elim_none, ← hfind]
    simp only [← hfind]
    rw [← hr.latest?_eq_some]
    cases (ofFlows calls).latest? id <;> simp
  · intro id fault
    rw [load_eq, Option.elim_none]
    simp only [← hfind]
    rw [← hr.latest?_eq_none]
    cases (ofFlows calls).latest? id <;> simp [eq_comm]
  · exact List.pairwise_map.mpr hr.ids
  · intro id
    simp only [← hfind]
    exact hr.mem_flowIds
  · intro f
    rw [← hfind]
    rcases offer_cases (ofFlows calls) f with ⟨fault, hinvalid, hoffer⟩ |
      ⟨hvalid, htaken, hoffer⟩ | ⟨hvalid, hfree, hoffer⟩
    · rw [hoffer, hinvalid]
      rfl
    · rw [hoffer, hvalid, htaken]
      rfl
    · rw [hoffer, hvalid, hfree]
      rfl
  · intro f
    rw [register, ofFlows_concat]
    split <;> next hoffer => rw [hoffer]; rfl

theorem offer_distinct {before after : List Flow} {f : Flow}
    (hdistinct : ((before ++ f :: after).map fun g => (g.id, g.version)).Nodup) :
    ((ofFlows before).offer f).1 = f.validate.map fun _ => f := by
  have hfree : kept? before f.id.text f.version = none := by
    rw [kept?, List.find?_eq_none]
    intro g hg ho
    obtain ⟨hid, hversion, -⟩ := of_decide_eq_true ho
    rw [List.map_append, List.map_cons, List.nodup_append] at hdistinct
    refine hdistinct.2.2 _ (List.mem_map_of_mem hg) _ List.mem_cons_self ?_
    rw [Identifier.ext_text hid, hversion]
  rw [(follows_ofFlows before).answered, hfree]
  cases f.validate <;> rfl

/-- After any calls a registry answers as they call for. A call that is refused leaves what a
registry is like without it, and calls for different versions lead to the same in any order and are
answered in the same way. -/
theorem answers_of_calls (calls : List Flow) : (ofFlows calls).Follows calls ∧
    (∀ before f after fault, calls = before ++ f :: after →
      ((ofFlows before).offer f).1 = .error fault → ofFlows calls = ofFlows (before ++ after)) ∧
    ∀ calls', calls.Perm calls' → (calls.map fun f => (f.id, f.version)).Nodup →
      ofFlows calls = ofFlows calls' ∧
      ∀ before f after before' after', calls = before ++ f :: after →
        calls' = before' ++ f :: after' →
        ((ofFlows before).offer f).1 = ((ofFlows before').offer f).1 := by
  refine ⟨follows_ofFlows calls, ?_, fun calls' hperm hdistinct => ⟨?_, ?_⟩⟩
  · rintro before f after fault rfl hrefused
    rw [ofFlows_append, ofFlows_append, List.foldl_cons,
      (ordered_ofFlows before).offer_refused hrefused]
  · refine (ordered_ofFlows calls).ext (ordered_ofFlows calls') fun id version => ?_
    rw [find?_ofFlows, find?_ofFlows, kept?_of_perm hperm hdistinct]
  · rintro before f after before' after' rfl rfl
    rw [offer_distinct hdistinct, offer_distinct ((hperm.map _).nodup_iff.mp hdistinct)]

end Registry

namespace Sample

def renamed : Flow := { flow with name := "Note" }

def third : Flow := { flow with version := 3 }

theorem answers_after_letters :
    (Registry.ofFlows [third, circular, flow, renamed]).load "letter" (some 1) = .ok flow ∧
    (Registry.ofFlows [third, circular, flow, renamed]).load "letter" none = .ok third ∧
    Registry.ofFlows [third, circular, flow, renamed] = Registry.ofFlows [third, circular, flow] ∧
    Registry.ofFlows [third, flow] = Registry.ofFlows [flow, third] := by
  obtain ⟨hfollows, hrefused, -⟩ := Registry.answers_of_calls [third, circular, flow, renamed]
  obtain ⟨-, -, hany⟩ := Registry.answers_of_calls [third, flow]
  have hlatest : Registry.kept? [third, circular, flow, renamed] "letter" 3 = some third := by
    decide +kernel
  have hversions : ∀ f ∈ [third, circular, flow, renamed], f.version ≤ 3 := by decide +kernel
  have hlast : ∀ v, (Registry.kept? [third, circular, flow, renamed] "letter" v).isSome →
      v ≤ 3 := by
    intro v hv
    obtain ⟨f, hf⟩ := Option.isSome_iff_exists.mp hv
    rw [Registry.kept?] at hf
    have hoffers : f.Offers "letter" v := by simpa using List.find?_some hf
    obtain ⟨-, rfl, -⟩ := hoffers
    exact hversions f (List.mem_of_find?_eq_some hf)
  refine ⟨?_, (hfollows.latest "letter" third).mpr ⟨hlatest, hlast⟩, ?_, ?_⟩
  · rw [hfollows.pinned]
    decide +kernel
  · refine hrefused [third, circular, flow] renamed [] (.duplicateVersion "letter" 1) rfl ?_
    decide +kernel
  · exact (hany [flow, third] (.swap _ _ _) (by decide +kernel)).1

end Sample

end FlowEngine
