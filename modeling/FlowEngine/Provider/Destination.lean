import FlowEngine.Provider.Basic
import FlowEngine.Text.Percent
/-! Where a call to the provider goes: an HTTP method and a URL.

The URL is the provider's address, then the tenant, then the segments of the call, with slashes
between them. Every identifier fills a segment of its own, or the query, in percent-encoding; so no
identifier can be taken for the end of a segment. -/

namespace FlowEngine

inductive HttpMethod where
  | get
  | post
  | delete
  deriving DecidableEq, Repr

def HttpMethod.label : HttpMethod → String
  | .get => "GET"
  | .post => "POST"
  | .delete => "DELETE"

structure Destination where
  method : HttpMethod
  url : String
  deriving DecidableEq, Repr

namespace ProviderCall

open Text (Percent.encode)

def method : ProviderCall → HttpMethod
  | .appRun _ _ => .get
  | .delete _ _ => .delete
  | _ => .post

def segments : ProviderCall → List String
  | .runService _ r => ["services", Percent.encode r.target, "run"]
  | .ask _ r => ["assistants", Percent.encode r.target, "ask"]
  | .followUp _ conversation r =>
    ["assistants", Percent.encode r.target, "sessions", Percent.encode conversation, "ask"]
  | .runApp _ r => ["apps", Percent.encode r.target, "runs"]
  | .appRun _ run => ["apps", "runs", Percent.encode run]
  | .upload _ _ _ => ["files"]
  | .delete _ file => ["files", Percent.encode file]

def query : ProviderCall → String
  | .upload _ name _ => "?name=" ++ Percent.encode name
  | _ => ""

def destination (apiBase : String) (c : ProviderCall) : Destination where
  method := c.method
  url := "/".intercalate (apiBase :: Percent.encode c.tenant :: c.segments) ++ c.query

end ProviderCall

end FlowEngine
