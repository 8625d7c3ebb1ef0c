import FlowEngine.Json.Basic
import FlowEngine.Markup.Record
import FlowEngine.Session.Input
/-! The provider: what it is asked, what it answers, and how it fails.

A call and its answer belong together: `ProviderCall.Answer` is the type of the answer of a call. -/

namespace FlowEngine

inductive ProviderFault where
  | http (endpoint reason : String)
  | status (endpoint : String) (status : UInt16) (body : String)
  | decode (endpoint reason : String)
  | authentication (tenant reason : String)
  | unavailable (reason : String)
  deriving DecidableEq, Repr

def ProviderFault.message : ProviderFault → String
  | .http endpoint reason => s!"provider request to {endpoint} failed: {reason}"
  | .status endpoint code body =>
    s!"provider returned status {code} for {endpoint}: {body}"
  | .decode endpoint reason =>
    s!"provider response from {endpoint} could not be decoded: {reason}"
  | .authentication tenant reason =>
    s!"provider authentication failed for tenant `{tenant}`: {reason}"
  | .unavailable reason => s!"provider is unavailable: {reason}"

structure ProviderRequest where
  target : String
  question : String
  files : List String
  deriving DecidableEq, Repr

structure AssistantAnswer where
  conversation : String
  answer : String
  deriving DecidableEq, Repr

inductive RunStatus where
  | queued
  | inProgress
  | complete
  | failed
  | notFound
  deriving DecidableEq, Repr

namespace RunStatus

def label : RunStatus → String
  | .queued => "QUEUED"
  | .inProgress => "IN_PROGRESS"
  | .complete => "COMPLETE"
  | .failed => "FAILED"
  | .notFound => "NOT_FOUND"

def all : List RunStatus := [.queued, .inProgress, .complete, .failed, .notFound]

def spellings : List (String × RunStatus) := all.map fun s => (s.label, s)

def ofLabel? (s : String) : Option RunStatus := spellings.lookup s

/-- A run in a terminal state changes no more. -/
def isTerminal : RunStatus → Bool
  | .complete | .failed | .notFound => true
  | .queued | .inProgress => false

end RunStatus

structure AppRun where
  status : RunStatus
  answer : Option String
  deriving DecidableEq, Repr

inductive ProviderCall where
  | runService (tenant : String) (request : ProviderRequest)
  | ask (tenant : String) (request : ProviderRequest)
  | followUp (tenant conversation : String) (request : ProviderRequest)
  | runApp (tenant : String) (request : ProviderRequest)
  | appRun (tenant run : String)
  | upload (tenant name : String) (payload : Payload)
  | delete (tenant file : String)
  deriving DecidableEq, Repr

namespace ProviderCall

/-- A run and a file are answered by their identifiers. -/
def Answer : ProviderCall → Type
  | .runService _ _ => String
  | .ask _ _ => AssistantAnswer
  | .followUp _ _ _ => String
  | .runApp _ _ => String
  | .appRun _ _ => AppRun
  | .upload _ _ _ => String
  | .delete _ _ => Unit

abbrev Outcome (c : ProviderCall) : Type := Except ProviderFault c.Answer

def tenant : ProviderCall → String
  | .runService t _ | .ask t _ | .followUp t _ _ | .runApp t _ | .appRun t _ | .upload t _ _
  | .delete t _ => t

def request? : ProviderCall → Option ProviderRequest
  | .runService _ r | .ask _ r | .followUp _ _ r | .runApp _ r => some r
  | .appRun _ _ | .upload _ _ _ | .delete _ _ => none

def target? (c : ProviderCall) : Option String := c.request?.map ProviderRequest.target

end ProviderCall

open Markup

variable {N : Type} [Form N]

def RunStatus.read : Reader N RunStatus := oneOf RunStatus.spellings
def RunStatus.toJson (s : RunStatus) : Json := .str s.label

def AppRun.read : Reader N AppRun :=
  RecordReader.read
    ((RecordReader.pure AppRun.mk)
      |>.both (.required "status" RunStatus.read)
      |>.both (.withDefault "answer" none (optional string)))
    "struct AppRun"

def AppRun.toJson (r : AppRun) : Json :=
  .record [("status", r.status.toJson), ("answer", .option .str r.answer)]

def AssistantAnswer.read : Reader N AssistantAnswer :=
  RecordReader.read
    ((RecordReader.pure AssistantAnswer.mk)
      |>.both (.required "sessionId" string)
      |>.both (.required "answer" string))
    "struct AssistantAnswer"

def AssistantAnswer.toJson (a : AssistantAnswer) : Json :=
  .record [("sessionId", .str a.conversation), ("answer", .str a.answer)]

end FlowEngine
