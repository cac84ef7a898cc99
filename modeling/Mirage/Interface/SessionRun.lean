import Mirage.Model.SealedSession

/-!
# Runs of the session tables

A run is any sequence of requests to the writer on the session tables, failed ones included.
It keeps, beside the tables, the leases each session was created with.
-/

set_option autoImplicit false

namespace Mirage.Interface

open Mirage.Model Mirage.Computation

/-- INTERNAL: the states nothing leads out of. -/
def isTerminal : SessionState → Bool
  | .completed | .violated | .aborted => true
  | _ => false

/-- INTERNAL: a request. -/
inductive SessionCall where
  | create (session : NewSealedSession)
  | recordProcess (sessionId : SessionId) (processId : Nat) (startedAtNs : Int)
  | transition (sessionId : SessionId) (expected : SessionState) (event : SessionEvent)
  | markViolation (sessionId : SessionId) (summary : NameText)
  | finish (sessionId : SessionId) (supplied : List Nat) (endedAtNs : Int)
  deriving DecidableEq, Repr

/-- INTERNAL: the tables and the leases of every session created. -/
structure SessionStore where
  db : SessionDb
  created : SessionId → List LeaseSpec

/-- INTERNAL: the tables and the record behind a request that succeeds. -/
def SessionCall.run (s : SessionStore) : SessionCall → Except MirageError SessionStore
  | .create session =>
    (createWithLeases session s.db).map fun r =>
      ⟨r.2, fun id => if id = session.sessionId then r.1 else s.created id⟩
  | .recordProcess sessionId processId startedAtNs =>
    (Model.recordProcess sessionId processId startedAtNs s.db).map fun r => { s with db := r.2 }
  | .transition sessionId expected event =>
    (transitionState sessionId expected event s.db).map fun r => { s with db := r.2 }
  | .markViolation sessionId summary =>
    (Model.markViolation sessionId summary s.db).map fun r => { s with db := r.2 }
  | .finish sessionId supplied endedAtNs =>
    (finishSession sessionId supplied endedAtNs s.db).map fun r => { s with db := r.2 }

/-- INTERNAL: no session yet. -/
structure SessionStart (s : SessionStore) : Prop where
  sessions : s.db.sessions = []
  leases : s.db.leases = []

/-- INTERNAL: the states of a run in which every request is made in a state that allows it; a
request that fails changes nothing. -/
inductive SessionReaches (allowed : SessionStore → SessionCall → Prop) (s₀ : SessionStore) :
    SessionStore → Prop where
  | start : SessionReaches allowed s₀ s₀
  | call {s s' : SessionStore} {call : SessionCall} (run : SessionReaches allowed s₀ s)
      (hallowed : allowed s call) (ok : call.run s = .ok s') : SessionReaches allowed s₀ s'

/-- INTERNAL: the session has no leases, or a process of it lives. -/
def SessionDb.Endable (db : SessionDb) (sessionId : SessionId) : Prop :=
  db.leasesOf sessionId = [] ∨ db.liveProcesses sessionId ≠ []

/-- INTERNAL: a session that holds leases and has no live process is ended by `finish` only. -/
def EndsOnlyByFinish (s : SessionStore) : SessionCall → Prop
  | .transition sessionId _ event =>
    event = .processesExited ∨ event = .sealViolated ∨ event = .abortRequested →
      SessionDb.Endable s.db sessionId
  | .markViolation sessionId _ => SessionDb.Endable s.db sessionId
  | _ => True

/-- INTERNAL: `finish` brings the session to its end without leases. -/
def FinishReleases (s : SessionStore) (sessionId : SessionId) : Prop :=
  ∃ supplied endedAtNs s', SessionCall.run s (.finish sessionId supplied endedAtNs) = .ok s' ∧
    s'.db.leasesOf sessionId = [] ∧
    ∃ row ∈ s'.db.sessions, row.sessionId = sessionId ∧ isTerminal row.state = true

/-- INTERNAL: an ended session without live processes has no leases, or `finish` takes them;
an open one has those it was created with. -/
structure LeasesFollow (s : SessionStore) : Prop where
  ended : ∀ row ∈ s.db.sessions, isTerminal row.state = true →
    s.db.liveProcesses row.sessionId = [] →
    s.db.leasesOf row.sessionId = [] ∨ FinishReleases s row.sessionId
  kept : ∀ row ∈ s.db.sessions, isTerminal row.state = false →
    s.db.leasesOf row.sessionId = s.created row.sessionId

end Mirage.Interface
