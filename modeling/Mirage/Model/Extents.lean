import Mirage.Model.Namespace

/-!
# Durable byte extents and the physical ledger

The versioned extent rows of `mirage-db/src/extent.rs` with their per-inode heads, and
the ledger of staged payload files of `mirage-db/src/physical.rs`.  A `u64` column is
stored with the cast `as i64`, so a value past `i64::MAX` violates the column's check.
-/

set_option autoImplicit false

namespace Mirage.Model

open Mirage.Computation

/-- INTERNAL: a `u64` that the cast `as i64` leaves non-negative. -/
def fitsI64 (value : Nat) : Prop := 0 ≤ wrappingI64 value

instance (value : Nat) : Decidable (fitsI64 value) := inferInstanceAs (Decidable (_ ≤ _))

/-! ## Extent rows -/

/-- INTERNAL: the references an extent of each kind carries.
SRCLINE: extent.rs:63-83 -/
def ByteExtent.coherent (extent : ByteExtent) : Bool :=
  match extent.kind with
  | .base =>
    extent.pageHash.isSome && extent.baseOffset.isSome && extent.payloadId.isNone &&
      extent.payloadOffset.isNone
  | .dirty =>
    extent.payloadId.isSome && extent.payloadOffset.isSome && extent.pageHash.isNone &&
      extent.baseOffset.isNone
  | .zero =>
    extent.pageHash.isNone && extent.baseOffset.isNone && extent.payloadId.isNone &&
      extent.payloadOffset.isNone

/-- INTERNAL: SRCLINE: extent.rs:59-89 -/
def ByteExtent.validate (extent : ByteExtent) : Except MirageError Unit :=
  if extent.length = 0 then .error (.invalidArgument "extent length is zero")
  else if extent.coherent then .ok ()
  else .error (.invalidArgument "extent references do not match its kind")

/-- INTERNAL: one extent mutation to land with its journal operation.
SRCLINE: operation.rs:690-696 -/
structure ExtentMutation where
  volumeId : RepositoryId
  inode : InodeId
  version : Int
  eof : Nat
  extents : List ByteExtent
  deriving DecidableEq, Repr

/-- INTERNAL: the checks of the commit loop from one extent on; `previousEnd` is `none`
before the first extent.
SRCLINE: operation.rs:792-806 -/
def ExtentMutation.checkExtents (mutation : ExtentMutation) :
    List ByteExtent → Option Nat → Except MirageError Unit
  | [], _ => .ok ()
  | extent :: rest, previousEnd => do
    extent.validate
    if extent.volumeId ≠ mutation.volumeId ∨ extent.inode ≠ mutation.inode then
      throw (.invalidArgument "extent does not belong to the target inode")
    if previousEnd.any fun previous => extent.start < previous then
      throw (.integrityMismatch "extents overlap within a version")
    mutation.checkExtents rest (some (saturatingAdd extent.start extent.length))

/-- INTERNAL: `INSERT INTO byte_extents` under its primary key and its checks.
SRCLINE: operation.rs:819-845 -/
def insertExtent (mutation : ExtentMutation) (nowNs : Int) (extent : ByteExtent) :
    Transaction Unit := do
  let db ← get
  constraint
    ((db.byteExtents.all fun e => e.extentId ≠ extent.extentId) ∧ 0 ≤ mutation.version ∧
      fitsI64 extent.start ∧ 0 < wrappingI64 extent.length ∧
      extent.baseOffset.all (fun offset => fitsI64 offset) ∧
      extent.payloadOffset.all (fun offset => fitsI64 offset))
    "extent insert failed"
  modify fun db =>
    { db with
      byteExtents := db.byteExtents ++
        [{ extent with
            volumeId := mutation.volumeId
            inode := mutation.inode
            version := mutation.version
            createdNs := nowNs }] }

/-- INTERNAL: the head row after an upsert that only moves to a newer version.
SRCLINE: operation.rs:846-868 -/
def upsertHead (heads : List ByteExtentHead) (head : ByteExtentHead) : List ByteExtentHead :=
  if heads.any fun h => h.volumeId = head.volumeId ∧ h.inode = head.inode then
    heads.map fun h =>
      if h.volumeId = head.volumeId ∧ h.inode = head.inode ∧ h.version < head.version then head
      else h
  else heads ++ [head]

/-- INTERNAL: replace the rows of one version and advance the head.
SRCLINE: operation.rs:790-868 -/
def applyExtentMutation (mutation : ExtentMutation) (nowNs : Int) : Transaction Unit := do
  Txn.lift (mutation.checkExtents mutation.extents none)
  modify fun db =>
    { db with
      byteExtents := db.byteExtents.filter fun e =>
        ¬ (e.volumeId = mutation.volumeId ∧ e.inode = mutation.inode ∧
          e.version = mutation.version) }
  mutation.extents.forM (insertExtent mutation nowNs)
  constraint (0 ≤ mutation.version ∧ fitsI64 mutation.eof) "extent head write failed"
  modify fun db =>
    { db with
      byteExtentHeads := upsertHead db.byteExtentHeads
        ⟨mutation.volumeId, mutation.inode, mutation.version, mutation.eof, nowNs⟩ }

/-- INTERNAL: the rows of a replacement from one extent on, each checked and then
inserted; `previousEnd` is `none` before the first extent.
SRCLINE: extent.rs:142-184 -/
def replaceRows (mutation : ExtentMutation) (nowNs : Int) :
    List ByteExtent → Option Nat → Transaction Unit
  | [], _ => pure ()
  | extent :: rest, previousEnd => do
    Txn.lift extent.validate
    Txn.demand (extent.volumeId = mutation.volumeId ∧ extent.inode = mutation.inode)
      (.invalidArgument "extent does not belong to the target inode")
    Txn.demand (saturatingAdd extent.start extent.length ≤ mutation.eof)
      (.invalidArgument "extent set extends past the declared EOF")
    Txn.demand (previousEnd.all fun previous => previous ≤ extent.start)
      (.integrityMismatch "extents overlap within a version")
    insertExtent mutation nowNs extent
    replaceRows mutation nowNs rest (some (saturatingAdd extent.start extent.length))

/-- INTERNAL: replace the rows of one version outside the journal.  The arguments of the
source are the fields of `ExtentMutation`.
SRCLINE: extent.rs:115-209 -/
def replaceExtentsWithEof (mutation : ExtentMutation) (nowNs : Int) : Transaction Unit := do
  modify fun db =>
    { db with
      byteExtents := db.byteExtents.filter fun e =>
        ¬ (e.volumeId = mutation.volumeId ∧ e.inode = mutation.inode ∧
          e.version = mutation.version) }
  replaceRows mutation nowNs mutation.extents none
  constraint (0 ≤ mutation.version ∧ fitsI64 mutation.eof) "extent head write failed"
  modify fun db =>
    { db with
      byteExtentHeads := upsertHead db.byteExtentHeads
        ⟨mutation.volumeId, mutation.inode, mutation.version, mutation.eof, nowNs⟩ }

/-- INTERNAL: SRCLINE: extent.rs:627-649 -/
def dropVersionsBefore (volumeId : RepositoryId) (inode : InodeId) (keepFrom : Int) :
    Transaction Unit :=
  modify fun db =>
    { db with
      byteExtents := db.byteExtents.filter fun e =>
        ¬ (e.volumeId = volumeId ∧ e.inode = inode ∧ e.version < keepFrom) }

/-! ## Queries -/

/-- INTERNAL: the newest committed version and its logical end.
SRCLINE: extent.rs:212-236 -/
def Db.extentHead (db : Db) (volumeId : RepositoryId) (inode : InodeId) : Option (Int × Nat) :=
  (db.byteExtentHeads.find? fun h => h.volumeId = volumeId ∧ h.inode = inode).map fun h =>
    (h.version, h.eof)

/-- INTERNAL: the extents of one inode version, ordered by start.
SRCLINE: extent.rs:239-313 -/
def Db.extentsAt (db : Db) (volumeId : RepositoryId) (inode : InodeId) (version : Int) :
    List ByteExtent :=
  (db.byteExtents.filter fun e =>
    e.volumeId = volumeId ∧ e.inode = inode ∧ e.version = version).mergeSort
      fun e f => e.start ≤ f.start

/-- INTERNAL: the newest version of an inode, of its head or of rows older than heads.
SRCLINE: extent.rs:320-341 -/
def Db.latestVersion (db : Db) (volumeId : RepositoryId) (inode : InodeId) : Option Int :=
  (((db.byteExtentHeads.filter fun h => h.volumeId = volumeId ∧ h.inode = inode).map
      ByteExtentHead.version) ++
    ((db.byteExtents.filter fun e => e.volumeId = volumeId ∧ e.inode = inode).map
      ByteExtent.version)).max?

/-! ## The physical ledger -/

/-- INTERNAL: a reserved extent to commit alive inside a larger transaction.
SRCLINE: physical.rs:75-80 -/
structure PhysicalCommit where
  extentId : BitVec 128
  pageHash : PageHash
  checksum : BitVec 256
  deriving DecidableEq, Repr

/-- INTERNAL: reserve a slot of an arena file that is free or dead.
SRCLINE: physical.rs:164-242 -/
def reserveExtentIn (extent : PhysicalExtentRecord) (reservation : PhysicalReservationRecord) :
    Transaction Unit := do
  Txn.demand (extent.state = .reserved)
    (.invalidArgument "a new physical extent must start reserved")
  let db ← get
  let occupying := db.physicalExtents.find? fun e =>
    e.fileId = extent.fileId ∧ e.slotIndex = extent.slotIndex
  let row := { extent with
    state := .reserved, pageHash := none, checksum := none, pinCount := 0 }
  Txn.onlyIf occupying.isNone do
    constraint
      ((db.physicalExtents.all fun e => e.extentId ≠ extent.extentId) ∧
        db.physicalFiles.contains extent.fileId ∧ 0 ≤ extent.slotIndex ∧
        0 < extent.lengthBytes ∧ 0 ≤ extent.generation)
      "physical extent insert failed"
    modify fun db => { db with physicalExtents := db.physicalExtents ++ [row] }
  Txn.forSome occupying fun old => do
    Txn.demand (old.state = .dead) (.repositoryConflict "physical slot is already occupied")
    constraint
      ((db.physicalExtents.all fun e =>
          (e.fileId = extent.fileId ∧ e.slotIndex = extent.slotIndex) ∨
            e.extentId ≠ extent.extentId) ∧
        (old.extentId = extent.extentId ∨
          db.physicalReservations.all fun r => r.extentId ≠ old.extentId) ∧
        0 < extent.lengthBytes ∧ 0 ≤ extent.generation)
      "physical extent reclaim failed"
    modify fun db =>
      { db with
        physicalExtents := db.physicalExtents.map fun e =>
          if e.fileId = extent.fileId ∧ e.slotIndex = extent.slotIndex ∧ e.state = .dead then row
          else e }
  constraint (extent.updatedNs < reservation.expiresNs) "physical reservation insert failed"
  modify fun db =>
    { db with
      physicalReservations :=
        (db.physicalReservations.filter fun r => r.extentId ≠ extent.extentId) ++
          [⟨extent.extentId, reservation.ownerEpoch, extent.updatedNs, reservation.expiresNs⟩] }

/-- INTERNAL: commit a reserved extent alive and drop its reservation.
SRCLINE: operation.rs:880-907 -/
def commitPhysical (physical : PhysicalCommit) (nowNs : Int) : Transaction Unit := do
  let db ← get
  let committed := db.physicalExtents.countP fun e =>
    e.extentId = physical.extentId ∧ e.state = .reserved
  modify fun db =>
    { db with
      physicalExtents := db.physicalExtents.map fun e =>
        if e.extentId = physical.extentId ∧ e.state = .reserved then
          { e with
            state := .alive
            pageHash := some physical.pageHash
            checksum := some physical.checksum
            updatedNs := nowNs }
        else e }
  Txn.demand (committed = 1)
    (.repositoryConflict "physical extent is not in a reservable state")
  modify fun db =>
    { db with
      physicalReservations :=
        db.physicalReservations.filter fun r => r.extentId ≠ physical.extentId }

/-! ## Reclaiming -/

/-- INTERNAL: mark one journal payload dead, if it is alive and unpinned and no extent row
references it; the length of the payload that died. -/
def markPayloadDead (journalFileId : Option (BitVec 128)) (nowNs : Int) (payloadId : PayloadId) :
    Transaction (Option (PayloadId × Int)) := do
  let db ← get
  let dying := db.physicalExtents.filter fun e =>
    journalFileId.all (fun file => e.fileId = file) ∧ e.extentId = payloadId ∧
      e.state = .alive ∧ e.pinCount = 0
  if db.byteExtents.any fun e => e.payloadId = some payloadId then pure none
  else
    modify fun db =>
      { db with
        physicalExtents := db.physicalExtents.map fun e =>
          if journalFileId.all (fun file => e.fileId = file) ∧ e.extentId = payloadId ∧
              e.state = .alive ∧ e.pinCount = 0 then
            { e with state := .dead, updatedNs := nowNs }
          else e }
    match dying with
    | [e] => pure (some (payloadId, e.lengthBytes))
    | _ => pure none

/-- INTERNAL: drop the extent history of an inode the namespace removed, its retained
row included, and mark the payloads nobody references dead.  The candidates of the source
are an ordered set; the order does not change which payloads die.
SRCLINE: extent.rs:527-624 -/
def releaseInodeExtents (volumeId : RepositoryId) (inode : InodeId)
    (journalFileId : BitVec 128) (nowNs : Int) : Transaction (List (PayloadId × Int)) := do
  let db ← get
  let pending := db.inodes.any fun i =>
    i.volumeId = volumeId ∧ i.inode = inode ∧ i.unlinkPending
  Txn.onlyIf pending do
    modify fun db =>
      { db with
        legacyInodeMap := db.legacyInodeMap.filter fun l =>
          ¬ (l.volumeId = volumeId ∧ l.inode = inode) }
    deleteInode volumeId inode "pending inode finalization failed"
  let db ← get
  let candidates := ((db.byteExtents.filter fun e =>
    e.volumeId = volumeId ∧ e.inode = inode).filterMap ByteExtent.payloadId).dedup
  modify fun db =>
    { db with
      byteExtents := db.byteExtents.filter fun e => ¬ (e.volumeId = volumeId ∧ e.inode = inode)
      byteExtentHeads := db.byteExtentHeads.filter fun h =>
        ¬ (h.volumeId = volumeId ∧ h.inode = inode) }
  let dead ← candidates.mapM (markPayloadDead (some journalFileId) nowNs)
  pure (dead.filterMap id)

/-- INTERNAL: drop every extent row older than its inode's head, then mark the alive
journal payloads that no row references dead.
SRCLINE: extent.rs:429-516 -/
def compactVolume (volumeId : RepositoryId) (journalFileId : BitVec 128) (nowNs : Int) :
    Transaction (List (PayloadId × Int)) := do
  modify fun db =>
    { db with
      byteExtents := db.byteExtents.filter fun e =>
        ¬ (e.volumeId = volumeId ∧ db.byteExtentHeads.any fun h =>
            h.volumeId = volumeId ∧ h.inode = e.inode ∧ e.version < h.version) }
  let db ← get
  let alive := (db.physicalExtents.filter fun e =>
    e.fileId = journalFileId ∧ e.state = .alive).map PhysicalExtentRecord.extentId
  let dead ← alive.mapM (markPayloadDead none nowNs)
  pure (dead.filterMap id)

end Mirage.Model
