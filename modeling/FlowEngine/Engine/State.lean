import FlowEngine.Flow.Registry
import FlowEngine.Session.Basic
/-! The state of an engine: its flows, its sessions, which of them are in the store, and its
journal.

A session is addressed by a handle. A session that leaves the store keeps its handle, because an
operation that began before may still work on it. At most one session in the store has a given
identifier. -/

namespace FlowEngine

structure LogRecord where
  level : String
  event : String
  message : String
  deriving DecidableEq, Repr

/-- The position of a session among all sessions ever made. -/
abbrev Handle := Nat

structure Engine where
  registry : Registry
  sessions : List Session
  /-- The handles of the sessions in the store, in the order of their arrival. -/
  stored : List Handle
  sweeping : Bool
  stopping : Bool
  logging : Bool
  /-- The records of the journal, the last one first. -/
  journal : List LogRecord

def Session.vacant : Session :=
  .bare "" "" ⟨⟨"none", by decide +kernel⟩, 0, "", "", "", 0, none, [], []⟩ 0 .empty

namespace Engine

def empty : Engine where
  registry := .empty
  sessions := []
  stored := []
  sweeping := false
  stopping := false
  logging := true
  journal := []

def session (e : Engine) (h : Handle) : Session :=
  (e.sessions[h]?).getD .vacant

def modifySession (e : Engine) (h : Handle) (f : Session → Session) : Engine :=
  { e with sessions := e.sessions.modify h f }

def addSession (e : Engine) (s : Session) : Engine :=
  { e with sessions := e.sessions ++ [s] }

def nextHandle (e : Engine) : Handle := e.sessions.length

def find? (e : Engine) (id : String) : Option Handle :=
  e.stored.find? fun h => (e.session h).id == id

/-- Puts a session into the store, unless its identifier is taken. -/
def store (e : Engine) (h : Handle) : Bool × Engine :=
  match e.find? (e.session h).id with
  | some _ => (false, e)
  | none => (true, { e with stored := e.stored ++ [h] })

def removeIf (e : Engine) (id : String) (condition : Session → Bool) : Option Handle × Engine :=
  match e.find? id with
  | none => (none, e)
  | some h =>
    if condition (e.session h) then
      (some h, { e with stored := e.stored.filter fun other => other ≠ h })
    else (none, e)

def log (e : Engine) (level event message : String) : Engine :=
  if e.logging then { e with journal := ⟨level, event, message⟩ :: e.journal } else e

def note (e : Engine) (records : List LogRecord) : Engine :=
  records.foldl (fun e r => e.log r.level r.event r.message) e

end Engine

end FlowEngine
