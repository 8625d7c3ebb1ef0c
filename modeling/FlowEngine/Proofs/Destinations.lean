import FlowEngine.Provider.Http

/-! # Where calls go

What a call is sent for is told by its destination. Percent-encoding can be undone from the left,
because what stands for one byte never begins what stands for another; and it brings no slash into a
segment, so that a path falls into the segments that it was made of. Two calls have the same method
and the same segments only if they are for the same thing of the same tenant.
-/
namespace FlowEngine

/-- What a call is sent for: the operation, and the identifiers that it names. Neither the question
nor the payload is part of it. -/
inductive Errand where
  | runService (tenant target : String)
  | ask (tenant target : String)
  | followUp (tenant target conversation : String)
  | runApp (tenant target : String)
  | appRun (tenant run : String)
  | upload (tenant name : String)
  | delete (tenant file : String)
  deriving DecidableEq, Repr

def ProviderCall.errand : ProviderCall → Errand
  | .runService tenant r => .runService tenant r.target
  | .ask tenant r => .ask tenant r.target
  | .followUp tenant conversation r => .followUp tenant r.target conversation
  | .runApp tenant r => .runApp tenant r.target
  | .appRun tenant run => .appRun tenant run
  | .upload tenant name _ => .upload tenant name
  | .delete tenant file => .delete tenant file

namespace Text

theorem byteArray_toList_loop (bs : ByteArray) (i : Nat) (acc : List UInt8) :
    ByteArray.toList.loop bs i acc = acc.reverse ++ bs.data.toList.drop i := by
  fun_induction ByteArray.toList.loop bs i acc with
  | case1 i acc hi ih =>
    have hlt : i < bs.data.toList.length := by simpa using hi
    rw [ih, List.drop_eq_getElem_cons hlt]
    simp [ByteArray.get!, hi]
  | case2 i acc hi =>
    rw [List.drop_eq_nil_of_le (by simpa using Nat.le_of_not_lt hi)]
    simp

theorem toBytes_inj {s t : String} (h : toBytes s = toBytes t) : s = t := by
  rw [toBytes, toBytes, ByteArray.toList, ByteArray.toList, byteArray_toList_loop,
    byteArray_toList_loop] at h
  have hdata : s.toUTF8.data = t.toUTF8.data := Array.toList_inj.mp (by simpa using h)
  exact String.toByteArray_inj.mp (ByteArray.ext hdata)

namespace Percent

theorem unreserved_codes : ∀ n < 256, isUnreserved (UInt8.ofNat n) = true →
    (Char.ofNat n).toNat = n ∧ Char.ofNat n ≠ '%' ∧ Char.ofNat n ≠ '/' := by
  decide +kernel

theorem char_of_isUnreserved {b : UInt8} (h : isUnreserved b = true) :
    (Char.ofNat b.toNat).toNat = b.toNat ∧ Char.ofNat b.toNat ≠ '%' ∧ Char.ofNat b.toNat ≠ '/' :=
  unreserved_codes b.toNat b.toNat_lt (by rwa [UInt8.ofNat_toNat])

theorem hexDigit_inj : ∀ m < 16, ∀ n < 16, hexDigit m = hexDigit n → m = n := by
  decide

theorem hexDigit_ne_slash : ∀ n < 16, hexDigit n ≠ '/' := by
  decide

theorem encodeByte_ne_nil (b : UInt8) : encodeByte b ≠ [] := by
  unfold encodeByte
  split <;> exact List.cons_ne_nil _ _

/-- What stands for one byte never begins what stands for another. -/
theorem encodeByte_append_inj {a b : UInt8} {cs ds : List Char}
    (h : encodeByte a ++ cs = encodeByte b ++ ds) : a = b ∧ cs = ds := by
  have ha := a.toNat_lt
  have hb := b.toNat_lt
  unfold encodeByte at h
  split at h <;> split at h
  · next hua hub =>
    obtain ⟨hchar, htail⟩ := List.cons.inj h
    refine ⟨UInt8.toNat_inj.mp ?_, htail⟩
    rw [← (char_of_isUnreserved hua).1, hchar, (char_of_isUnreserved hub).1]
  · next hua _ => exact absurd (List.cons.inj h).1 (char_of_isUnreserved hua).2.1
  · next _ hub => exact absurd (List.cons.inj h).1.symm (char_of_isUnreserved hub).2.1
  · simp only [List.cons_append, List.nil_append, List.cons.injEq, true_and] at h
    obtain ⟨hhigh, hlow, htail⟩ := h
    have hhigh := hexDigit_inj _ (by omega) _ (by omega) hhigh
    have hlow := hexDigit_inj _ (by omega) _ (by omega) hlow
    exact ⟨UInt8.toNat_inj.mp (by omega), htail⟩

theorem flatMap_encodeByte_inj {as bs : Bytes}
    (h : as.flatMap encodeByte = bs.flatMap encodeByte) : as = bs := by
  induction as generalizing bs with
  | nil =>
    cases bs with
    | nil => rfl
    | cons b bs => exact absurd (List.append_eq_nil_iff.mp h.symm).1 (encodeByte_ne_nil b)
  | cons a as ih =>
    cases bs with
    | nil => exact absurd (List.append_eq_nil_iff.mp h).1 (encodeByte_ne_nil a)
    | cons b bs =>
      rw [List.flatMap_cons, List.flatMap_cons] at h
      obtain ⟨rfl, htail⟩ := encodeByte_append_inj h
      rw [ih htail]

@[simp] theorem encode_inj {s t : String} : encode s = encode t ↔ s = t := by
  refine ⟨fun h => ?_, fun h => h ▸ rfl⟩
  exact toBytes_inj (flatMap_encodeByte_inj (String.ofList_inj.mp h))

theorem slash_not_mem_encodeByte (b : UInt8) : '/' ∉ encodeByte b := by
  have hb := b.toNat_lt
  unfold encodeByte
  split
  · next h => simpa using (char_of_isUnreserved h).2.2.symm
  · have hhigh := hexDigit_ne_slash (b.toNat / 16) (by omega)
    have hlow := hexDigit_ne_slash (b.toNat % 16) (by omega)
    simp [hhigh.symm, hlow.symm]

@[simp] theorem slash_not_mem_encode (s : String) : '/' ∉ (encode s).toList := by
  rw [encode, String.toList_ofList, List.mem_flatMap]
  rintro ⟨b, -, hb⟩
  exact slash_not_mem_encodeByte b hb

end Percent

end Text

def urlBelow (base : String) (path : List String) : String :=
  "/".intercalate (base :: path)

section Path

variable {path path' : List String}

theorem splitOn_intercalate_slash (hpath : ∀ s ∈ path, '/' ∉ s.toList) (hne : path ≠ []) :
    ("/".intercalate path).toList.splitOn '/' = path.map String.toList := by
  rw [String.toList_intercalate]
  refine List.splitOn_intercalate '/' (fun cs hcs => ?_) (by simpa using hne)
  obtain ⟨s, hs, rfl⟩ := List.mem_map.mp hcs
  exact hpath s hs

theorem urlBelow_inj {base : String} (hpath : ∀ s ∈ path, '/' ∉ s.toList)
    (hpath' : ∀ s ∈ path', '/' ∉ s.toList) (hne : path ≠ []) (hne' : path' ≠ []) :
    urlBelow base path = urlBelow base path' ↔ path = path' := by
  refine ⟨fun h => ?_, fun h => h ▸ rfl⟩
  rw [urlBelow, urlBelow, String.intercalate_cons_of_ne_nil hne,
    String.intercalate_cons_of_ne_nil hne', String.append_right_inj] at h
  have hsegments : path.map String.toList = path'.map String.toList := by
    rw [← splitOn_intercalate_slash hpath hne, h, splitOn_intercalate_slash hpath' hne']
  exact (List.map_inj_right fun _ _ => String.toList_inj.mp).mp hsegments

end Path

namespace Errand

open Text (Percent.encode)

def method : Errand → HttpMethod
  | .appRun _ _ => .get
  | .delete _ _ => .delete
  | _ => .post

/-- The segments of a request below the provider's address; the last one takes the query. -/
def path : Errand → List String
  | .runService tenant target => [Percent.encode tenant, "services", Percent.encode target, "run"]
  | .ask tenant target => [Percent.encode tenant, "assistants", Percent.encode target, "ask"]
  | .followUp tenant target conversation =>
    [Percent.encode tenant, "assistants", Percent.encode target, "sessions",
      Percent.encode conversation, "ask"]
  | .runApp tenant target => [Percent.encode tenant, "apps", Percent.encode target, "runs"]
  | .appRun tenant run => [Percent.encode tenant, "apps", "runs", Percent.encode run]
  | .upload tenant name => [Percent.encode tenant, "files?name=" ++ Percent.encode name]
  | .delete tenant file => [Percent.encode tenant, "files", Percent.encode file]

theorem path_ne_nil (e : Errand) : e.path ≠ [] := by
  cases e <;> exact List.cons_ne_nil _ _

theorem slash_not_mem_path (e : Errand) : ∀ s ∈ e.path, '/' ∉ s.toList := by
  cases e <;> simp [path]

/-- Errands of one method differ in the number of their segments, in a fixed segment or in an
identifier. -/
theorem path_inj {e e' : Errand} (hmethod : e.method = e'.method) (hpath : e.path = e'.path) :
    e = e' := by
  cases e <;> cases e' <;> simp_all [path, method]

theorem path_ne_tokenPath (e : Errand) : e.path ≠ ["oauth", "token"] := by
  cases e with
  | upload tenant name =>
    intro h
    have hlast := congrArg String.toList (List.cons.inj (List.cons.inj h).2).1
    simp at hlast
  | _ => simp [path]

end Errand

theorem ProviderCall.destination_eq (base : String) (c : ProviderCall) :
    c.destination base = ⟨c.errand.method, urlBelow base c.errand.path⟩ := by
  cases c with
  | upload tenant name payload =>
    have hlast : "files?name=" ++ Text.Percent.encode name =
        "files" ++ ("?name=" ++ Text.Percent.encode name) := by
      rw [← String.append_assoc]
      rfl
    simp only [destination, ProviderCall.method, segments, query, ProviderCall.tenant, errand,
      Errand.method, Errand.path, urlBelow, hlast, String.intercalate_cons_cons,
      String.intercalate_singleton, String.append_assoc]
  | _ => simp [destination, ProviderCall.method, segments, query, tenant, errand, Errand.method,
      Errand.path, urlBelow]

namespace HttpProvider

variable (p : HttpProvider) (token token' tenant : String) (c c' : ProviderCall)

theorem request_destination :
    (p.request token c).destination = c.destination p.apiBase := by
  cases c <;> rfl

theorem tokenRequest_destination :
    (p.tokenRequest tenant).destination = ⟨.post, urlBelow p.apiBase ["oauth", "token"]⟩ := by
  simp [tokenRequest, jsonRequest, urlBelow, String.append_assoc]

/-- Requests of two calls go to the same place just if the calls are the same operation on the same
thing of the same tenant, whatever characters the identifiers have. No call goes to the place where
tokens are asked for. -/
theorem destination_tells_errand :
    ((p.request token c).destination = (p.request token' c').destination ↔
      c.errand = c'.errand) ∧
    (p.request token c).destination ≠ (p.tokenRequest tenant).destination := by
  simp only [request_destination, tokenRequest_destination, ProviderCall.destination_eq]
  constructor
  · refine ⟨fun h => ?_, fun h => by rw [h]⟩
    obtain ⟨hmethod, hurl⟩ := Destination.mk.inj h
    rw [urlBelow_inj (Errand.slash_not_mem_path _) (Errand.slash_not_mem_path _)
      (Errand.path_ne_nil _) (Errand.path_ne_nil _)] at hurl
    exact Errand.path_inj hmethod hurl
  · intro h
    have hurl := congrArg Destination.url h
    rw [urlBelow_inj (Errand.slash_not_mem_path _) (by simp) (Errand.path_ne_nil _)
      (List.cons_ne_nil _ _)] at hurl
    exact Errand.path_ne_tokenPath _ hurl

/-- A target named `runs`, a conversation without a name and an identifier with slashes. -/
example :
    (ProviderCall.appRun "acme" "runs").destination "http://provider" =
      ⟨.get, "http://provider/acme/apps/runs/runs"⟩ ∧
    (ProviderCall.followUp "acme" "" ⟨"a/sessions", "", []⟩).destination "http://provider" =
      ⟨.post, "http://provider/acme/assistants/a%2Fsessions/sessions//ask"⟩ := by
  decide +kernel

end HttpProvider

end FlowEngine
