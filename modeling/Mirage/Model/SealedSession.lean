import Mirage.Model.ByteFields
import Mirage.Model.Namespace

/-!
# Sealed sessions

The tables of `0004_sessions.sql` and the writer functions of `mirage-db/src/session.rs`, with
`transition_session` of `mirage-types/src/transition.rs`.  A lease keeps one page for one
session.  Every function is one transaction of the single writer.
-/

set_option autoImplicit false

namespace Mirage.Model

open Mirage.Computation

/-- INTERNAL: `[u8; 16]`. -/
abbrev SessionId := BitVec 128

/-! ## States -/

/-- INTERNAL: SRCLINE: mirage-types/src/state.rs -/
inductive SessionState where
  | planned
  | reserving
  | materializing
  | verifying
  | sealedReady
  | launching
  | active
  | drainingHelpers
  | completed
  | violated
  | aborted
  deriving DecidableEq, Repr

/-- INTERNAL: SRCLINE: mirage-types/src/transition.rs:194-207 -/
inductive SessionEvent where
  | reservationStarted
  | reservationCompleted
  | materializationCompleted
  | verificationPassed
  | launchRequested
  | launchObserved
  | helpersDraining
  | processesExited
  | sealViolated
  | abortRequested
  deriving DecidableEq, Repr

/-- INTERNAL: the next state, none where the transition is invalid.
SRCLINE: mirage-types/src/transition.rs:209-247 -/
def transitionSession : SessionState → SessionEvent → Option SessionState
  | .planned, .reservationStarted => some .reserving
  | .reserving, .reservationCompleted => some .materializing
  | .materializing, .materializationCompleted => some .verifying
  | .verifying, .verificationPassed => some .sealedReady
  | .sealedReady, .launchRequested => some .launching
  | .launching, .launchObserved => some .active
  | .active, .helpersDraining => some .drainingHelpers
  | .active, .processesExited => some .completed
  | .drainingHelpers, .processesExited => some .completed
  | .sealedReady, .sealViolated => some .violated
  | .launching, .sealViolated => some .violated
  | .active, .sealViolated => some .violated
  | .drainingHelpers, .sealViolated => some .violated
  | .planned, .abortRequested => some .aborted
  | .reserving, .abortRequested => some .aborted
  | .materializing, .abortRequested => some .aborted
  | .verifying, .abortRequested => some .aborted
  | .sealedReady, .abortRequested => some .aborted
  | .launching, .abortRequested => some .aborted
  | .active, .abortRequested => some .aborted
  | .drainingHelpers, .abortRequested => some .aborted
  | _, _ => none

/-! ## Tables -/

/-- INTERNAL: SRCLINE: mirage-db/src/lease.rs:3-7 -/
structure LeaseSpec where
  pageHash : PageHash
  reason : NameText
  deriving DecidableEq, Repr

/-- INTERNAL: SRCLINE: session.rs:15-24 -/
structure NewSealedSession where
  sessionId : SessionId
  repositoryId : RepositoryId
  generationId : Nat
  capsuleId : Option (BitVec 128)
  expectedLeaseCount : Nat
  leases : List LeaseSpec
  startedAtNs : Int
  deriving DecidableEq, Repr

/-- INTERNAL: a row of `sessions`; the mode is always `sealed`.
SRCLINE: 0004_sessions.sql:1-14 -/
structure SessionRow where
  sessionId : SessionId
  repositoryId : RepositoryId
  generation : Int
  capsuleId : Option (BitVec 128)
  state : SessionState
  expectedLeaseCount : Nat
  startedAtNs : Int
  endedAtNs : Option Int
  sealViolationCount : Nat
  firstViolationSummary : Option NameText
  deriving DecidableEq, Repr

/-- INTERNAL: a row of `session_processes`.
SRCLINE: 0004_sessions.sql:16-23 -/
structure ProcessRow where
  sessionId : SessionId
  processId : Nat
  startedAtNs : Int
  endedAtNs : Option Int
  deriving DecidableEq, Repr

/-- INTERNAL: a row of `session_leases`.
SRCLINE: 0004_sessions.sql:25-31 -/
structure LeaseRow where
  sessionId : SessionId
  lease : LeaseSpec
  deriving DecidableEq, Repr

/-- INTERNAL: the tables; of `generations` only the key and the column `verified` are read. -/
structure SessionDb where
  generations : List ((RepositoryId × Int) × Int)
  sessions : List SessionRow
  processes : List ProcessRow
  leases : List LeaseRow
  deriving DecidableEq, Repr

abbrev SessionTxn := Txn SessionDb MirageError

namespace SessionDb

variable (db : SessionDb) (sessionId : SessionId)

def session : Option SessionRow := db.sessions.find? fun row => row.sessionId = sessionId

/-- INTERNAL: the leases of a session. -/
def leasesOf : List LeaseSpec :=
  (db.leases.filter fun row => row.sessionId = sessionId).map LeaseRow.lease

/-- INTERNAL: the processes of a session that are recorded and not ended. -/
def liveProcesses : List Nat :=
  (db.processes.filter fun row => row.sessionId = sessionId ∧ row.endedAtNs = none).map
    ProcessRow.processId

/-- INTERNAL: an `UPDATE sessions` of one session. -/
def updateSession (f : SessionRow → SessionRow) : SessionDb :=
  { db with
    sessions := db.sessions.map fun row => if row.sessionId = sessionId then f row else row }

end SessionDb

/-! ## Writer functions -/

/-- INTERNAL: SRCLINE: mirage-db/src/value.rs:48-61 -/
def boundedText (value : NameText) (minimum maximum : Nat) (label : String) :
    Except MirageError Unit :=
  if minimum ≤ (utf8Bytes value).length ∧ (utf8Bytes value).length ≤ maximum ∧
      ¬ value.any isControl then .ok ()
  else .error (.invalidArgument (label ++ " is empty, oversized, or contains control characters"))

/-- INTERNAL: the leases without repetition; the map of the source has no order, and the list
keeps that of first occurrence.
SRCLINE: session.rs:135-145 -/
def uniqueLeases : List LeaseSpec → List LeaseSpec → Except MirageError (List LeaseSpec)
  | [], unique => .ok unique
  | lease :: rest, unique => do
    boundedText lease.reason 1 64 "lease reason"
    match unique.find? fun other => other.pageHash = lease.pageHash with
    | none => uniqueLeases rest (unique ++ [lease])
    | some other =>
      if other.reason = lease.reason then uniqueLeases rest unique
      else .error (.invalidArgument "duplicate page lease has conflicting reasons")

/-- INTERNAL: SRCLINE: session.rs:131-208 -/
def createWithLeases (session : NewSealedSession) : SessionTxn (List LeaseSpec) := do
  let unique ← Txn.lift (uniqueLeases session.leases [])
  Txn.demand (unique.length = session.expectedLeaseCount)
    (.invalidArgument "sealed session lease set does not match expected count")
  Txn.demand ((session.generationId : Int) ≤ i64Max)
    (.invalidArgument "session generation exceeds SQLite INTEGER")
  let db ← get
  Txn.demand
    ((db.generations.find? fun row =>
      row.1 = (session.repositoryId, (session.generationId : Int))).map Prod.snd = some 1)
    (.repositoryConflict "sealed session requires an existing verified generation")
  Txn.demand (db.sessions.all fun row => row.sessionId ≠ session.sessionId)
    (.io "failed to create sealed session")
  Txn.demand (db.leases.all fun row => row.sessionId ≠ session.sessionId)
    (.io "failed to create session lease")
  modify fun db =>
    { db with
      sessions := db.sessions ++ [⟨session.sessionId, session.repositoryId,
        session.generationId, session.capsuleId, .verifying, session.expectedLeaseCount,
        session.startedAtNs, none, 0, none⟩]
      leases := db.leases ++ unique.map fun lease => ⟨session.sessionId, lease⟩ }
  pure unique

/-- INTERNAL: SRCLINE: session.rs:210-256 -/
def recordProcess (sessionId : SessionId) (processId : Nat) (startedAtNs : Int) :
    SessionTxn Unit := do
  Txn.demand (processId ≠ 0) (.invalidArgument "session process ID must be nonzero")
  let db ← get
  let existing := db.processes.find? fun row =>
    row.sessionId = sessionId ∧ row.processId = processId
  Txn.forSome existing fun row =>
    Txn.demand (row.startedAtNs = startedAtNs)
      (.repositoryConflict "session process identity changed")
  Txn.onlyIf existing.isNone do
    Txn.demand (db.session sessionId).isSome (.io "failed to persist session process")
    modify fun db =>
      { db with processes := db.processes ++ [⟨sessionId, processId, startedAtNs, none⟩] }

/-- INTERNAL: SRCLINE: session.rs:400-409 -/
def loadState (sessionId : SessionId) : SessionTxn SessionState := do
  let db ← get
  let row ← Txn.orFail (db.session sessionId) (.invalidArgument "session does not exist")
  pure row.state

/-- INTERNAL: the error of `error::transition`. -/
def transitionRejected : MirageError := .repositoryConflict "durable state transition was rejected"

/-- INTERNAL: the trigger `sessions_sealed_ready_update_guard`.
SRCLINE: 0004_sessions.sql:33-40 -/
def sealedReadyGuard (db : SessionDb) (sessionId : SessionId) (next : SessionState) : Bool :=
  next ≠ .sealedReady || (db.session sessionId).all fun row =>
    (db.leasesOf sessionId).length = row.expectedLeaseCount

/-- INTERNAL: SRCLINE: session.rs:258-286 -/
def transitionState (sessionId : SessionId) (expected : SessionState) (event : SessionEvent) :
    SessionTxn SessionState := do
  let actual ← loadState sessionId
  Txn.demand (actual = expected) (.repositoryConflict "session state changed concurrently")
  let next ← Txn.orFail (transitionSession actual event) transitionRejected
  let db ← get
  Txn.demand (sealedReadyGuard db sessionId next) (.io "failed to persist session transition")
  modify fun db => db.updateSession sessionId fun row => { row with state := next }
  pure next

/-- INTERNAL: the state behind a violation. -/
def violatedFrom (actual : SessionState) : Option SessionState :=
  if actual = .violated then some .violated else transitionSession actual .sealViolated

/-- INTERNAL: SRCLINE: session.rs:287-329 -/
def markViolation (sessionId : SessionId) (summary : NameText) : SessionTxn Nat := do
  Txn.lift (boundedText summary 1 1024 "seal violation summary")
  let actual ← loadState sessionId
  let next ← Txn.orFail (violatedFrom actual) transitionRejected
  modify fun db => db.updateSession sessionId fun row =>
    { row with
      state := next
      sealViolationCount := row.sealViolationCount + 1
      firstViolationSummary := row.firstViolationSummary.or (some summary) }
  let db ← get
  let row ← Txn.orFail (db.session sessionId) (.io "failed to load seal violation count")
  pure row.sealViolationCount

/-- INTERNAL: the processes end, the leases go and the session takes its next state. -/
def closeSession (sessionId : SessionId) (next : SessionState) (endedAtNs : Int)
    (db : SessionDb) : SessionDb :=
  let closed := db.updateSession sessionId fun row =>
    { row with state := next, endedAtNs := some endedAtNs }
  { closed with
    processes := db.processes.map fun row =>
      if row.sessionId = sessionId ∧ row.endedAtNs = none then
        { row with endedAtNs := some endedAtNs }
      else row
    leases := db.leases.filter fun row => row.sessionId ≠ sessionId }

/-- INTERNAL: the body of `finish` for a session that is not completed.  The supplied
processes are compared as a set with the recorded ones.
SRCLINE: session.rs:343-397 -/
def finishOpen (sessionId : SessionId) (supplied : List Nat) (endedAtNs : Int)
    (actual : SessionState) : SessionTxn Unit := do
  let db ← get
  Txn.demand ((db.liveProcesses sessionId).all (supplied.contains ·) ∧
      supplied.all ((db.liveProcesses sessionId).contains ·))
    (.repositoryConflict "verified terminated process set does not match live session ownership")
  let next ← Txn.orFail (transitionSession actual .processesExited) transitionRejected
  modify (closeSession sessionId next endedAtNs)

/-- INTERNAL: SRCLINE: session.rs:331-398 -/
def finishSession (sessionId : SessionId) (supplied : List Nat) (endedAtNs : Int) :
    SessionTxn Unit := do
  let actual ← loadState sessionId
  Txn.onlyIf (actual ≠ .completed) (finishOpen sessionId supplied endedAtNs actual)

end Mirage.Model
