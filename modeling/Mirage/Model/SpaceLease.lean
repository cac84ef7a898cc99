import Mirage.Computation.Checks
import Mirage.Computation.Process
import Mirage.Model.Extents

/-!
# Space leases

The plan of `mirage-cache/src/space_lease.rs`, the table of `mirage-db/src/space_lease.rs` and
the operations of `mirage-engine/src/space_lease.rs`.  An operation is a program: each call of
the database, the clock or the `SpaceLeaseSource` is one action, and other operations run
between any two of them.  The printout under `MIRAGE_DEBUG_LEASE` is left out.
-/

set_option autoImplicit false

namespace Mirage.Model

open Mirage.Computation

/-! ## The plan -/

/-- INTERNAL: one physically resident unit.
SRCLINE: mirage-cache/src/space_lease.rs:26-39 -/
structure ReclaimCandidate where
  reclaimId : BitVec 256
  physicalBytes : Nat
  lastAccessSequence : Nat
  remoteVerified : Bool
  dirty : Bool
  pinned : Bool
  activeReadLeases : Nat
  mountedReaderExclusion : Bool
  deriving DecidableEq, Repr

/-- INTERNAL: SRCLINE: mirage-cache/src/space_lease.rs:43-50 -/
def ReclaimCandidate.reclaimable (c : ReclaimCandidate) : Bool :=
  c.physicalBytes ≠ 0 && c.remoteVerified && !c.dirty && !c.pinned &&
    c.activeReadLeases == 0 && !c.mountedReaderExclusion

/-- INTERNAL: SRCLINE: mirage-cache/src/space_lease.rs:55-64 -/
structure CapacitySnapshot where
  physicalFreeBytes : Nat
  filesystemReserveBytes : Nat
  outstandingSpaceLeaseBytes : Nat
  candidates : List ReclaimCandidate
  deriving DecidableEq, Repr

/-- INTERNAL: SRCLINE: mirage-cache/src/space_lease.rs:69-76 -/
structure BlockedCapacity where
  uniqueBytes : Nat := 0
  unverifiedBytes : Nat := 0
  dirtyBytes : Nat := 0
  pinnedBytes : Nat := 0
  activeReadBytes : Nat := 0
  mountedReaderBytes : Nat := 0
  deriving DecidableEq, Repr

/-- INTERNAL: SRCLINE: mirage-cache/src/space_lease.rs:80-90 -/
structure SpaceLeasePlan where
  requestedBytes : Nat
  immediatelyAvailableBytes : Nat
  reclaimRequiredBytes : Nat
  totalReclaimableBytes : Nat
  selectedReclaimBytes : Nat
  availableAfterSelectedReclaimBytes : Nat
  shortfallBytes : Nat
  selected : List ReclaimCandidate
  blocked : BlockedCapacity
  deriving DecidableEq, Repr

/-- INTERNAL: SRCLINE: mirage-cache/src/space_lease.rs:96-99 -/
def SpaceLeasePlan.grantable (plan : SpaceLeasePlan) : Bool :=
  plan.shortfallBytes = 0 ∧ plan.requestedBytes ≤ plan.availableAfterSelectedReclaimBytes

/-- INTERNAL: SRCLINE: mirage-cache/src/space_lease.rs:241-244 -/
def checkedCapacity (left right : Nat) (label : String) : Except MirageError Nat :=
  if left + right ≤ u64Max then .ok (left + right)
  else .error (.invalidArgument (label ++ " overflows u64"))

/-- INTERNAL: one counter of blocked bytes. -/
def countBlocked (applies : Bool) (count bytes : Nat) (label : String) : Except MirageError Nat :=
  if applies then checkedCapacity count bytes label else .ok count

/-- INTERNAL: the counters that a candidate which cannot be reclaimed adds to.
SRCLINE: mirage-cache/src/space_lease.rs:141-180 -/
def BlockedCapacity.block (blocked : BlockedCapacity) (c : ReclaimCandidate) :
    Except MirageError BlockedCapacity := do
  let uniqueBytes ← checkedCapacity blocked.uniqueBytes c.physicalBytes "blocked capacity"
  let unverifiedBytes ← countBlocked (!c.remoteVerified) blocked.unverifiedBytes c.physicalBytes
    "unverified capacity"
  let dirtyBytes ← countBlocked c.dirty blocked.dirtyBytes c.physicalBytes "dirty capacity"
  let pinnedBytes ← countBlocked c.pinned blocked.pinnedBytes c.physicalBytes "pinned capacity"
  let activeReadBytes ← countBlocked (c.activeReadLeases ≠ 0) blocked.activeReadBytes
    c.physicalBytes "active-read capacity"
  let mountedReaderBytes ← countBlocked c.mountedReaderExclusion blocked.mountedReaderBytes
    c.physicalBytes "mounted-reader capacity"
  .ok ⟨uniqueBytes, unverifiedBytes, dirtyBytes, pinnedBytes, activeReadBytes,
    mountedReaderBytes⟩

/-- INTERNAL: what the scan of the candidates has collected. -/
structure CandidateScan where
  seen : List (BitVec 256) := []
  reclaimable : List ReclaimCandidate := []
  blocked : BlockedCapacity := {}

/-- INTERNAL: one round of the scan.
SRCLINE: mirage-cache/src/space_lease.rs:127-181 -/
def CandidateScan.scan (scan : CandidateScan) (c : ReclaimCandidate) :
    Except MirageError CandidateScan :=
  if c.reclaimId ∈ scan.seen then
    .error (.invalidArgument "capacity snapshot contains a duplicate reclaim candidate")
  else
    let seen := c.reclaimId :: scan.seen
    if c.physicalBytes = 0 then .ok { scan with seen := seen }
    else if c.reclaimable then
      .ok { scan with seen := seen, reclaimable := scan.reclaimable ++ [c] }
    else do
      let blocked ← scan.blocked.block c
      .ok { scan with seen := seen, blocked := blocked }

/-- INTERNAL: least recently accessed first, then largest, then by identifier.
SRCLINE: mirage-cache/src/space_lease.rs:183-189 -/
def ReclaimCandidate.precedes (a b : ReclaimCandidate) : Prop :=
  a.lastAccessSequence < b.lastAccessSequence ∨
    (a.lastAccessSequence = b.lastAccessSequence ∧
      (b.physicalBytes < a.physicalBytes ∨
        (a.physicalBytes = b.physicalBytes ∧ a.reclaimId ≤ b.reclaimId)))

instance : DecidableRel ReclaimCandidate.precedes := fun _ _ =>
  inferInstanceAs (Decidable (_ ∨ _))

/-- INTERNAL: the loop that selects candidates until the requirement is met.
SRCLINE: mirage-cache/src/space_lease.rs:210-220 -/
def selectReclaim (required : Nat) : List ReclaimCandidate → List ReclaimCandidate → Nat →
    Except MirageError (List ReclaimCandidate × Nat)
  | [], selected, bytes => .ok (selected, bytes)
  | c :: rest, selected, bytes => do
    let bytes ← checkedCapacity bytes c.physicalBytes "selected reclaim capacity"
    if required ≤ bytes then .ok (selected ++ [c], bytes)
    else selectReclaim required rest (selected ++ [c]) bytes

/-- INTERNAL: SRCLINE: mirage-cache/src/space_lease.rs:107-239 -/
def planSpaceLease (snapshot : CapacitySnapshot) (requestedBytes : Nat) :
    Except MirageError SpaceLeasePlan := do
  ensure (requestedBytes ≠ 0)
    (.invalidArgument "Space Lease request must be greater than zero bytes")
  let available := snapshot.physicalFreeBytes - snapshot.filesystemReserveBytes -
    snapshot.outstandingSpaceLeaseBytes
  let required := requestedBytes - available
  let scan ← snapshot.candidates.foldlM CandidateScan.scan {}
  let reclaimable := scan.reclaimable.insertionSort ReclaimCandidate.precedes
  let total ← reclaimable.foldlM
    (fun total c => checkedCapacity total c.physicalBytes "total reclaimable capacity") 0
  let maximum ← checkedCapacity available total "maximum available capacity"
  let (selected, selectedBytes) ←
    if required ≠ 0 then selectReclaim required reclaimable [] 0 else .ok ([], 0)
  let after ← checkedCapacity available selectedBytes "available capacity after reclaim"
  .ok ⟨requestedBytes, available, required, total, selectedBytes, after,
    requestedBytes - maximum, selected, scan.blocked⟩

/-! ## The table -/

/-- INTERNAL: SRCLINE: mirage-db/src/space_lease.rs:9-15 -/
inductive SpaceLeaseState where
  | preparing
  | ready
  | consumed
  | released
  | failed
  deriving DecidableEq, Repr

/-- INTERNAL: SRCLINE: mirage-db/src/space_lease.rs:43-45 -/
def SpaceLeaseState.active : SpaceLeaseState → Bool
  | .preparing | .ready | .consumed => true
  | .released | .failed => false

/-- INTERNAL: SRCLINE: mirage-db/src/space_lease.rs:49-54 -/
inductive SpaceLeaseEvent where
  | reclaimFinished
  | consume
  | release
  | fail
  deriving DecidableEq, Repr

/-- INTERNAL: SRCLINE: mirage-db/src/space_lease.rs:57-65 -/
structure NewSpaceLease where
  leaseId : BitVec 128
  repositoryId : RepositoryId
  targetVolumeId : List UInt8
  requestedBytes : Nat
  plannedReclaimBytes : Nat
  createdAtNs : Int
  expiresAtNs : Int
  deriving DecidableEq, Repr

/-- INTERNAL: a row of `space_leases`; the volume id as its UTF-8 bytes.
SRCLINE: mirage-db/src/space_lease.rs:68-78, 0010_space_leases.sql:1-13 -/
structure SpaceLeaseRecord where
  leaseId : BitVec 128
  repositoryId : RepositoryId
  targetVolumeId : List UInt8
  requestedBytes : Nat
  plannedReclaimBytes : Nat
  state : SpaceLeaseState
  createdAtNs : Int
  updatedAtNs : Int
  expiresAtNs : Int
  deriving DecidableEq, Repr

/-- INTERNAL: SRCLINE: mirage-db/src/space_lease.rs:81-86 -/
structure SpaceLeaseTransition where
  leaseId : BitVec 128
  expected : SpaceLeaseState
  event : SpaceLeaseEvent
  atNs : Int
  deriving DecidableEq, Repr

/-- INTERNAL: the table and the repositories its foreign key refers to. -/
structure LeaseDb where
  repositories : List RepositoryId
  spaceLeases : List SpaceLeaseRecord
  deriving DecidableEq, Repr

namespace LeaseDb

/-- INTERNAL: SRCLINE: mirage-db/src/value.rs:5-8 -/
def sqliteInteger (value : Nat) (label : String) : Except MirageError Unit :=
  ensure ((value : Int) ≤ i64Max) (.invalidArgument (label ++ " exceeds SQLite INTEGER"))

/-- INTERNAL: a sum past `i64::MAX` makes the query fail.
SRCLINE: mirage-db/src/space_lease.rs:188-212 -/
def activeSpaceLeaseBytesForVolume (db : LeaseDb) (targetVolumeId : List UInt8) (atNs : Int) :
    Except MirageError Nat := do
  ensure (targetVolumeId ≠ [] ∧ targetVolumeId.length ≤ 256 ∧ 0 ≤ atNs)
    (.invalidArgument "Space Lease volume or accounting time is invalid")
  let bytes := ((db.spaceLeases.filter fun r =>
    r.targetVolumeId = targetVolumeId ∧ r.state.active ∧ atNs < r.expiresAtNs).map
      SpaceLeaseRecord.requestedBytes).sum
  ensure ((bytes : Int) ≤ i64Max) (.io "failed to total active volume Space Leases")
  .ok bytes

/-- INTERNAL: SRCLINE: mirage-db/src/space_lease.rs:108-168 -/
def loadSpaceLease (db : LeaseDb) (leaseId : BitVec 128) : Option SpaceLeaseRecord :=
  db.spaceLeases.find? fun r => r.leaseId = leaseId

/-- INTERNAL: SRCLINE: mirage-db/src/space_lease.rs:215-251 -/
def createSpaceLease (db : LeaseDb) (lease : NewSpaceLease) : Except MirageError LeaseDb := do
  ensure (lease.requestedBytes ≠ 0)
    (.invalidArgument "Space Lease request must be greater than zero bytes")
  ensure (lease.targetVolumeId ≠ [] ∧ lease.targetVolumeId.length ≤ 256)
    (.invalidArgument "Space Lease target volume ID is invalid")
  ensure (0 ≤ lease.createdAtNs ∧ lease.createdAtNs < lease.expiresAtNs)
    (.invalidArgument "Space Lease timestamps are invalid")
  sqliteInteger lease.requestedBytes "Space Lease requested bytes"
  sqliteInteger lease.plannedReclaimBytes "Space Lease planned reclaim bytes"
  -- the primary key and the foreign key
  ensure ((∀ r ∈ db.spaceLeases, r.leaseId ≠ lease.leaseId) ∧
    lease.repositoryId ∈ db.repositories) (.io "failed to create Space Lease")
  .ok { db with
    spaceLeases := db.spaceLeases ++ [⟨lease.leaseId, lease.repositoryId, lease.targetVolumeId,
      lease.requestedBytes, lease.plannedReclaimBytes, .preparing, lease.createdAtNs,
      lease.createdAtNs, lease.expiresAtNs⟩] }

/-- INTERNAL: SRCLINE: mirage-db/src/space_lease.rs:321-343 -/
def nextState (current : SpaceLeaseState) (event : SpaceLeaseEvent) :
    Except MirageError SpaceLeaseState :=
  match current, event with
  | .preparing, .reclaimFinished => .ok .ready
  | .ready, .consume => .ok .consumed
  | .preparing, .release | .ready, .release | .consumed, .release => .ok .released
  | .preparing, .fail | .ready, .fail | .consumed, .fail => .ok .failed
  | _, _ => .error (.repositoryConflict "Space Lease state transition is invalid")

/-- INTERNAL: SRCLINE: mirage-db/src/space_lease.rs:253-319 -/
def transitionSpaceLease (db : LeaseDb) (change : SpaceLeaseTransition) :
    Except MirageError (SpaceLeaseState × LeaseDb) := do
  ensure (0 ≤ change.atNs)
    (.invalidArgument "Space Lease transition timestamp is invalid")
  let stored ← someOr (db.loadSpaceLease change.leaseId)
    (.invalidArgument "Space Lease does not exist")
  ensure (stored.state = change.expected ∧ stored.updatedAtNs ≤ change.atNs)
    (.repositoryConflict "Space Lease transition has stale state or time")
  ensure (change.atNs < stored.expiresAtNs ∨ change.event = .release ∨ change.event = .fail)
    (.repositoryConflict "expired Space Lease can only be released or failed")
  let next ← nextState stored.state change.event
  .ok (next, { db with
    spaceLeases := db.spaceLeases.map fun r =>
      if r.leaseId = change.leaseId then { r with state := next, updatedAtNs := change.atNs }
      else r })

end LeaseDb

/-! ## The operations -/

/-- INTERNAL: the calls an operation makes. -/
inductive LeaseAct where
  | now
  | targetVolumeId
  | physicalFreeBytes
  | filesystemReserveBytes
  | reclaimCandidates
  | reclaimVerifiedClean (candidate : ReclaimCandidate)
  | activeBytes (targetVolumeId : List UInt8) (atNs : Int)
  | create (lease : NewSpaceLease)
  | transition (change : SpaceLeaseTransition)
  | load (leaseId : BitVec 128)

/-- INTERNAL: what a call returns. -/
def LeaseAct.Value : LeaseAct → Type
  | .now => Int
  | .targetVolumeId => List UInt8
  | .physicalFreeBytes | .filesystemReserveBytes | .activeBytes _ _ => Nat
  | .reclaimCandidates => List ReclaimCandidate
  | .reclaimVerifiedClean _ | .create _ => Unit
  | .transition _ => SpaceLeaseState
  | .load _ => Option SpaceLeaseRecord

/-- INTERNAL: every call may fail. -/
def LeaseAct.Out (i : LeaseAct) : Type := Except MirageError i.Value

/-- INTERNAL: a sequence of calls that may fail. -/
abbrev Leasing := ExceptT MirageError (Prog LeaseAct LeaseAct.Out)

/-- INTERNAL: SRCLINE: mirage-engine/src/space_lease.rs:20-25 -/
structure SpaceLeaseRequest where
  leaseId : BitVec 128
  repositoryId : RepositoryId
  requestedBytes : Nat
  expiresAtNs : Int
  deriving DecidableEq, Repr

/-- INTERNAL: SRCLINE: mirage-engine/src/space_lease.rs:28-33 -/
structure PreparedSpaceLease where
  record : SpaceLeaseRecord
  plan : SpaceLeasePlan
  physicalFreeAfterReclaimBytes : Nat
  activePromisedBytes : Nat
  deriving DecidableEq, Repr

namespace Leasing

/-- INTERNAL: one call. -/
def call (i : LeaseAct) : Leasing i.Value := ExceptT.mk (Prog.perform i)

/-- INTERNAL: go on only if the condition holds. -/
def require (c : Bool) (e : MirageError) : Leasing Unit := if c then pure () else throw e

/-- INTERNAL: a computation without calls. -/
def compute {α : Type} (x : Except MirageError α) : Leasing α := ExceptT.mk (pure x)

/-- INTERNAL: reclaim, measure again and publish.
SRCLINE: mirage-engine/src/space_lease.rs:89-124 -/
def finishPrepare (request : SpaceLeaseRequest) (targetVolumeId : List UInt8)
    (plan : SpaceLeasePlan) : Leasing PreparedSpaceLease := do
  plan.selected.forM fun candidate => call (.reclaimVerifiedClean candidate)
  let free : Nat ← call .physicalFreeBytes
  let reserve : Nat ← call .filesystemReserveBytes
  let atNs : Int ← call .now
  let promised : Nat ← call (.activeBytes targetVolumeId atNs)
  require (reserve + promised ≤ u64Max)
    (.invalidArgument "Space Lease envelope overflows u64")
  require (reserve + promised ≤ free)
    (.cacheFull ("physical recheck is short by " ++ toString (reserve + promised - free) ++
      " bytes"))
  let readyAtNs : Int ← call .now
  let _ ← call (.transition ⟨request.leaseId, .preparing, .reclaimFinished, readyAtNs⟩)
  let record ← call (.load request.leaseId)
  let record ← compute (someOr record
    (.internalInvariant "prepared Space Lease disappeared"))
  pure ⟨record, plan, free, promised⟩

/-- INTERNAL: the failed lease is marked, and the mark may fail too.
SRCLINE: mirage-engine/src/space_lease.rs:126-134 -/
def markFailed (request : SpaceLeaseRequest) (createdAtNs : Int) :
    Prog LeaseAct LeaseAct.Out Unit := do
  let failedAtNs : Except MirageError Int ← (call .now).run
  let _ ← (call (.transition ⟨request.leaseId, .preparing, .fail,
    failedAtNs.toOption.getD createdAtNs⟩)).run
  pure ()

/-- INTERNAL: SRCLINE: mirage-engine/src/space_lease.rs:40-136 -/
def prepareSpaceLease (request : SpaceLeaseRequest) : Leasing PreparedSpaceLease := do
  let createdAtNs : Int ← call .now
  require (createdAtNs < request.expiresAtNs)
    (.invalidArgument "Space Lease expiry must be in the future")
  let targetVolumeId : List UInt8 ← call .targetVolumeId
  let outstanding : Nat ← call (.activeBytes targetVolumeId createdAtNs)
  let free : Nat ← call .physicalFreeBytes
  let reserve : Nat ← call .filesystemReserveBytes
  let candidates : List ReclaimCandidate ← call .reclaimCandidates
  let plan ← compute (planSpaceLease ⟨free, reserve, outstanding, candidates⟩
    request.requestedBytes)
  require plan.grantable
    (.cacheFull ("Space Lease is short by " ++ toString plan.shortfallBytes ++
      " physical bytes"))
  let _ ← call (.create ⟨request.leaseId, request.repositoryId, targetVolumeId,
    request.requestedBytes, plan.selectedReclaimBytes, createdAtNs, request.expiresAtNs⟩)
  ExceptT.mk do
    match ← (finishPrepare request targetVolumeId plan).run with
    | .ok prepared => pure (.ok prepared)
    | .error e =>
      markFailed request createdAtNs
      pure (.error e)

/-- INTERNAL: SRCLINE: mirage-engine/src/space_lease.rs:138-151 -/
def releaseSpaceLease (leaseId : BitVec 128) : Leasing SpaceLeaseState := do
  let record ← call (.load leaseId)
  let record : SpaceLeaseRecord ← compute (someOr record
    (.invalidArgument "Space Lease does not exist"))
  require record.state.active (.repositoryConflict "Space Lease is already terminal")
  let atNs : Int ← call .now
  call (.transition ⟨leaseId, record.state, .release, atNs⟩)

/-- INTERNAL: SRCLINE: mirage-engine/src/space_lease.rs:153-171 -/
def consumeSpaceLease (leaseId : BitVec 128) : Leasing SpaceLeaseState := do
  let record ← call (.load leaseId)
  let record : SpaceLeaseRecord ← compute (someOr record
    (.invalidArgument "Space Lease does not exist"))
  require (record.state = .ready)
    (.repositoryConflict "only a ready Space Lease can be consumed")
  let atNs : Int ← call .now
  call (.transition ⟨leaseId, .ready, .consume, atNs⟩)

end Leasing

end Mirage.Model
