import FlowEngine.Json.Printer
import FlowEngine.Json.Reader
import FlowEngine.Json.Shape
import FlowEngine.Provider.Destination
import FlowEngine.Settings.Basic
/-! A provider that is reached by HTTP.

Each call carries a token of its tenant. A token is asked for when there is none that is still good,
and kept for later calls; a call whose token cannot be had is not sent. A status from 400 on is a
failure, except that a run or a file that is not found is an answer.

Requests go through a `Transport` in any monad. -/

namespace FlowEngine

structure HttpRequest where
  destination : Destination
  authorization : Option String
  contentType : Option String
  body : Text.Bytes
  deriving DecidableEq, Repr

structure HttpReply where
  status : UInt16
  body : Text.Bytes
  deriving DecidableEq, Repr

/-- What a request comes back with: a reply, or the reason why there is none. -/
abbrev HttpResult := Except String HttpReply

structure Transport (m : Type → Type) where
  send : HttpRequest → m HttpResult
  /-- The time of day in seconds. -/
  clock : m Int

def Transport.unreachable (reason : String) : Transport Id where
  send _ := .error reason
  clock := 0

/-- A token, and the moment from which it is worthless. -/
structure Token where
  text : String
  expiresAt : Int
  deriving DecidableEq, Repr

/-- A token is good until some time before its end. -/
def Token.isFresh (t : Token) (margin now : Int) : Bool :=
  now < t.expiresAt - margin

abbrev Tokens := List (String × Token)

structure HttpProvider where
  apiBase : String
  clientId : String
  clientSecret : String
  /-- How many seconds before its end a token is renewed. -/
  margin : Int
  deriving DecidableEq, Repr

structure Grant where
  token : String
  lifetime : Int
  deriving DecidableEq, Repr

open Markup (Form Reader RecordReader string signed)

def Grant.read {N : Type} [Form N] : Reader N Grant :=
  RecordReader.read
    ((RecordReader.pure Grant.mk)
      |>.both (.required "access_token" string)
      |>.both (.required "expires_in" signed))
    "struct TokenResponse"

namespace HttpProvider

def textUnder {N : Type} [Form N] (name shape : String) : Reader N String :=
  RecordReader.read ((RecordReader.pure id) |>.both (.required name string)) shape

def withoutSlashes (s : String) : String :=
  String.ofList (s.toList.reverse.dropWhile fun c => c = '/').reverse

def ofSettings (s : ProviderSettings) : HttpProvider where
  apiBase := withoutSlashes s.apiBase
  clientId := s.clientId
  clientSecret := s.clientSecret
  margin := min s.refreshMargin.toNat maxTime

def jsonRequest (destination : Destination) (authorization : Option String) (body : Json) :
    HttpRequest :=
  ⟨destination, authorization, some "application/json", Text.toBytes body.compact⟩

def tokenRequest (p : HttpProvider) (tenant : String) : HttpRequest :=
  jsonRequest ⟨.post, p.apiBase ++ "/oauth/token"⟩ none (.record
    [("client_id", .str p.clientId), ("client_secret", .str p.clientSecret),
     ("grant_type", .str "client_credentials"), ("tenant", .str tenant)])

def faultReason : Markup.Fault → String
  | .malformed => "malformed reply"
  | .truncated => "reply breaks off"
  | .mismatch m => m.message

def decode {α : Type} (read : Json → Except Markup.Fault α) (reply : HttpReply) :
    Except String α :=
  match Text.ofBytes? reply.body with
  | none => .error "reply is not text"
  | some text => ((Json.Document.ofText text).read read).mapError faultReason

def grantOf (result : HttpResult) : Except String Grant := do
  let reply ← result
  if 400 ≤ reply.status then .error s!"status {reply.status}"
  decode Grant.read reply

def bearer (token : String) : Option String := some ("Bearer " ++ token)

def questionBody (r : ProviderRequest) : Json :=
  .record [("fileIds", .list (r.files.map .str)), ("question", .str r.question)]

def contentType : Payload → String
  | .text _ => "text/plain; charset=utf-8"
  | .bytes _ => "application/octet-stream"

def request (p : HttpProvider) (token : String) (c : ProviderCall) : HttpRequest :=
  let destination := c.destination p.apiBase
  match c with
  | .upload _ _ payload => ⟨destination, bearer token, some (contentType payload), payload.toBytes⟩
  | .appRun _ _ | .delete _ _ => ⟨destination, bearer token, none, []⟩
  | .runService _ r | .ask _ r | .followUp _ _ r | .runApp _ r =>
    jsonRequest destination (bearer token) (questionBody r)

/-- The reply to a request to a URL, unless it tells of a failure. -/
def accepted (url : String) : HttpResult → Except ProviderFault HttpReply
  | .error reason => .error (.http url reason)
  | .ok reply =>
    if 400 ≤ reply.status then .error (.status url reply.status (Text.ofBytesLossy reply.body))
    else .ok reply

def answerIn {α : Type} (url : String) (read : Json → Except Markup.Fault α)
    (result : HttpResult) : Except ProviderFault α := do
  let reply ← accepted url result
  (decode read reply).mapError (.decode url)

def isNotFound : HttpResult → Bool
  | .ok reply => reply.status == 404
  | .error _ => false

def outcome (url : String) (result : HttpResult) : (c : ProviderCall) → c.Outcome
  | .runService _ _ => answerIn url (textUnder "answer" "struct ServiceResponse") result
  | .ask _ _ => answerIn url AssistantAnswer.read result
  | .followUp _ _ _ => answerIn url (textUnder "answer" "struct FollowupResponse") result
  | .runApp _ _ => answerIn url (textUnder "runId" "struct AppRunStarted") result
  | .appRun _ _ =>
    if isNotFound result then .ok ⟨.notFound, none⟩ else answerIn url AppRun.read result
  | .upload _ _ _ => answerIn url (textUnder "fileId" "struct UploadedFile") result
  | .delete _ _ => if isNotFound result then .ok () else (accepted url result).map fun _ => ()

variable {m : Type → Type} [Monad m]

def token (p : HttpProvider) (t : Transport m) (tenant : String) (tokens : Tokens) :
    m (Except ProviderFault String × Tokens) := do
  let now ← t.clock
  match (tokens.lookup tenant).filter fun token => token.isFresh p.margin now with
  | some token => return (.ok token.text, tokens)
  | none =>
    match grantOf (← t.send (p.tokenRequest tenant)) with
    | .error reason => return (.error (.authentication tenant reason), tokens)
    | .ok grant =>
      let fetched : Token := ⟨grant.token, addTime now grant.lifetime⟩
      return (.ok grant.token, (tenant, fetched) :: tokens.filter fun e => e.1 ≠ tenant)

def ask (p : HttpProvider) (t : Transport m) (c : ProviderCall) (tokens : Tokens) :
    m (c.Outcome × Tokens) := do
  match ← p.token t c.tenant tokens with
  | (.error fault, tokens) => return (.error fault, tokens)
  | (.ok token, tokens) =>
    let result ← t.send (p.request token c)
    return (outcome (c.destination p.apiBase).url result c, tokens)

end HttpProvider

end FlowEngine
