import Mirage.Model.Extents

/-!
# The operation journal

`mirage-db/src/operation.rs`: operation rows with device-local sequences, the allocator
of these sequences and the transactions that write both.  `allocate_device_seq_in` is one
upsert of `journal_sequences`; its two branches are written out.
-/

set_option autoImplicit false

namespace Mirage.Model

open Mirage.Computation

/-- INTERNAL: a journal entry recorded with the change it describes.
SRCLINE: operation.rs:114-121 -/
structure JournalEntry where
  operationId : BitVec 128
  kind : OperationKind
  payload : List UInt8
  createdNs : Int
  deriving DecidableEq, Repr

/-- INTERNAL: one sequenced durable mutation.
SRCLINE: operation.rs:128-139 -/
structure SequencedMutation where
  reservation : Option (PhysicalExtentRecord × PhysicalReservationRecord)
  extents : Option ExtentMutation
  operation : OperationRecord
  payloads : List OperationPayloadRecord
  physical : Option PhysicalCommit
  modifiedNs : Option (InodeId × Int)
  nowNs : Int
  deriving DecidableEq, Repr

/-! ## Operation rows -/

/-- INTERNAL: the checks a new operation passes before its insert.
SRCLINE: operation.rs:163-179, operation.rs:730-746 -/
def checkNewOperation (operation : OperationRecord) : Transaction Unit := do
  Txn.demand (operation.status = .pending)
    (.invalidArgument "a new operation must start pending")
  let db ← get
  Txn.demand
    (operation.dependsOn.all fun parent =>
      db.localOperations.any fun o => o.operationId = parent)
    (.repositoryConflict "operation depends on a missing operation")

/-- INTERNAL: whether no operation of the volume has the sequence: the constraint
`UNIQUE(volume_id, device_seq)` for a new row. -/
def Db.sequenceFree (db : Db) (volumeId : RepositoryId) (deviceSeq : Int) : Prop :=
  ∀ o ∈ db.localOperations, ¬ (o.volumeId = volumeId ∧ o.deviceSeq = deviceSeq)

instance (db : Db) (volumeId : RepositoryId) (deviceSeq : Int) :
    Decidable (db.sequenceFree volumeId deviceSeq) :=
  inferInstanceAs (Decidable (∀ o ∈ db.localOperations, ¬ (_ ∧ _)))

/-- INTERNAL: `INSERT INTO local_operations` under its primary key, its unique key and
its foreign key.
SRCLINE: operation.rs:180-200, operation.rs:747-767 -/
def insertOperation (operation : OperationRecord) : Transaction Unit := do
  let db ← get
  constraint
    ((db.localOperations.all fun o => o.operationId ≠ operation.operationId) ∧
      db.sequenceFree operation.volumeId operation.deviceSeq ∧
      operation.flushGroup.all fun group => db.flushGroups.any fun g => g.groupId = group)
    "operation insert failed"
  modify fun db =>
    { db with localOperations := db.localOperations ++ [{ operation with status := .pending }] }

/-- INTERNAL: `INSERT INTO operation_payloads`.
SRCLINE: operation.rs:201-218, operation.rs:776-792 -/
def insertPayload (operationId : BitVec 128) (flushedNs : Option Int)
    (payload : OperationPayloadRecord) : Transaction Unit := do
  let db ← get
  constraint
    ((db.operationPayloads.all fun p => p.payloadId ≠ payload.payloadId) ∧
      (db.localOperations.any fun o => o.operationId = operationId) ∧ 0 ≤ payload.bytes)
    "operation payload insert failed"
  modify fun db =>
    { db with
      operationPayloads := db.operationPayloads ++
        [{ payload with operationId := operationId, flushedNs := flushedNs }] }

/-- INTERNAL: insert a pending operation with its payload references.
SRCLINE: operation.rs:158-220 -/
def beginOperationIn (operation : OperationRecord) (payloads : List OperationPayloadRecord) :
    Transaction Unit := do
  checkNewOperation operation
  insertOperation operation
  payloads.forM (insertPayload operation.operationId none)

/-- INTERNAL: move the operations a predicate selects to another status. -/
def updateStatus (p : OperationRecord → Bool) (status : OperationStatus) : Transaction Unit :=
  modify fun db =>
    { db with
      localOperations := db.localOperations.map fun o =>
        if p o then { o with status := status } else o }

/-- INTERNAL: pending to committed, for exactly one row. -/
def commitPending (operationId : BitVec 128) : Transaction Unit := do
  let db ← get
  let changed := db.localOperations.countP fun o =>
    o.operationId = operationId ∧ o.status = .pending
  updateStatus (fun o => o.operationId = operationId ∧ o.status = .pending) .committed
  Txn.demand (changed = 1) (.repositoryConflict "operation is not pending")

/-- INTERNAL: commit a pending operation whose payloads are all flushed.
SRCLINE: operation.rs:271-298 -/
def commitOperationIn (operationId : BitVec 128) : Transaction Unit := do
  let db ← get
  Txn.demand
    (db.operationPayloads.all fun p => ¬ (p.operationId = operationId ∧ p.flushedNs = none))
    (.repositoryConflict "operation commits before its payloads are durable")
  commitPending operationId

/-- INTERNAL: SRCLINE: operation.rs:224-253 -/
def markPayloadFlushed (payloadId : PayloadId) (checksum : BitVec 256) (nowNs : Int) :
    Transaction Unit := do
  let db ← get
  Txn.demand (db.operationPayloads.any fun p => p.payloadId = payloadId)
    (.repositoryConflict "flushed payload is not journaled")
  modify fun db =>
    { db with
      operationPayloads := db.operationPayloads.map fun p =>
        if p.payloadId = payloadId ∧ p.flushedNs = none then
          { p with flushedNs := some nowNs, checksum := some checksum }
        else p }

/-- INTERNAL: capture the committed operations of a volume in a new flush group.
SRCLINE: operation.rs:302-329 -/
def openFlushGroup (volumeId : RepositoryId) (nowNs : Int) : Transaction Int := do
  let db ← get
  let groupId := ((db.flushGroups.map FlushGroup.groupId).max?.map (· + 1)).getD 1
  constraint (groupId ≤ i64Max) "flush group insert failed"
  modify fun db =>
    { db with
      flushGroups := db.flushGroups ++ [⟨groupId, volumeId, nowNs, none⟩]
      localOperations := db.localOperations.map fun o =>
        if o.volumeId = volumeId ∧ o.status = .committed ∧ o.flushGroup = none then
          { o with flushGroup := some groupId }
        else o }
  pure groupId

/-- INTERNAL: SRCLINE: operation.rs:333-359 -/
def markGroupFlushed (groupId nowNs : Int) : Transaction Nat := do
  let db ← get
  let selected : OperationRecord → Bool := fun o =>
    o.flushGroup = some groupId ∧ o.status = .committed
  updateStatus selected .flushed
  modify fun db =>
    { db with
      flushGroups := db.flushGroups.map fun g =>
        if g.groupId = groupId ∧ g.flushedNs = none then { g with flushedNs := some nowNs }
        else g }
  pure (db.localOperations.countP selected)

/-- INTERNAL: SRCLINE: operation.rs:362-383 -/
def markPublished (operationIds : List (BitVec 128)) : Transaction Unit :=
  operationIds.forM fun id =>
    updateStatus (fun o => o.operationId = id ∧ o.status = .flushed) .published

/-- INTERNAL: SRCLINE: operation.rs:465-479 -/
def reclaimPending (volumeId : RepositoryId) : Transaction Unit :=
  updateStatus (fun o => o.volumeId = volumeId ∧ o.status = .pending) .reclaimed

/-- INTERNAL: the operations a mount replays, in device sequence order.
SRCLINE: operation.rs:388-436 -/
def Db.replayable (db : Db) (volumeId : RepositoryId) : List OperationRecord :=
  (db.localOperations.filter fun o =>
    o.volumeId = volumeId ∧ (o.status = .committed ∨ o.status = .flushed)).insertionSort
      fun o p => o.deviceSeq ≤ p.deviceSeq

/-- INTERNAL: the payloads joined with a pending or reclaimed operation.
SRCLINE: operation.rs:441-461 -/
def Db.reclaimablePayloads (db : Db) (volumeId : RepositoryId) : List PayloadId :=
  db.operationPayloads.flatMap fun p =>
    (db.localOperations.filter fun o =>
      o.operationId = p.operationId ∧ o.volumeId = volumeId ∧
        (o.status = .pending ∨ o.status = .reclaimed)).map fun _ => p.payloadId

/-! ## Sequences -/

/-- INTERNAL: `COALESCE(MAX(device_seq) + 1, 0)` over the volume's operations.
SRCLINE: operation.rs:507-513 -/
def Db.journalMax (db : Db) (volumeId : RepositoryId) : Int :=
  let sequences := (db.localOperations.filter fun o => o.volumeId = volumeId).map
    OperationRecord.deviceSeq
  (sequences.max?.map (· + 1)).getD 0

/-- INTERNAL: the counter row of a volume. -/
def Db.sequenceRow (db : Db) (volumeId : RepositoryId) : Option JournalSequence :=
  db.journalSequences.find? fun j => j.volumeId = volumeId

/-- INTERNAL: allocate the next device-local sequence.  A sum past `i64::MAX` becomes a
`REAL`, which neither the reader nor the strict column accepts.
SRCLINE: operation.rs:502-529 -/
def allocateDeviceSeqIn (volumeId : RepositoryId) : Transaction Int := do
  let db ← get
  let journalMax := db.journalMax volumeId
  constraint (journalMax ≤ i64Max) "device sequence lookup failed"
  constraint (0 ≤ journalMax) "device sequence allocation failed"
  match db.sequenceRow volumeId with
  | none =>
    modify fun db =>
      { db with journalSequences := db.journalSequences ++ [⟨volumeId, journalMax⟩] }
    pure (journalMax - 1)
  | some row =>
    let next := max row.nextSeq journalMax + 1
    constraint (next ≤ i64Max) "device sequence allocation failed"
    modify fun db =>
      { db with
        journalSequences := db.journalSequences.map fun j =>
          if j.volumeId = volumeId then { j with nextSeq := next } else j }
    pure (next - 1)

/-- INTERNAL: the operation a journal entry becomes.
SRCLINE: operation.rs:542-553 -/
def JournalEntry.operation (journal : JournalEntry) (volumeId : RepositoryId)
    (deviceSeq : Int) : OperationRecord :=
  ⟨journal.operationId, deviceSeq, volumeId, none, journal.kind, journal.payload, .pending,
    none, none, journal.createdNs⟩

/-- INTERNAL: sequence, pending row and commit of one journal entry.
SRCLINE: operation.rs:534-557 -/
def journalEntryCommitIn (volumeId : RepositoryId) (journal : JournalEntry) :
    Transaction Unit := do
  let deviceSeq ← allocateDeviceSeqIn volumeId
  beginOperationIn (journal.operation volumeId deviceSeq) []
  commitOperationIn journal.operationId

/-- INTERNAL: SRCLINE: operation.rs:561-580 -/
def namespaceCreateJournaled (ext : Externals) (volumeId : RepositoryId) (parent : InodeId)
    (name : NameText) (kind : NamespaceNodeKind) (nowNs : Int) (journal : JournalEntry) :
    Transaction DirEntry := do
  let entry ← createNodeIn ext volumeId parent name kind nowNs
  journalEntryCommitIn volumeId journal
  pure entry

/-- INTERNAL: SRCLINE: operation.rs:584-616 -/
def namespaceRenameJournaled (ext : Externals) (volumeId : RepositoryId) (fromParent : InodeId)
    (fromName : NameText) (toParent : InodeId) (toName : NameText) (nowNs : Int)
    (journal : JournalEntry) (replace retainVictim : Bool)
    (expectedVictim : Option (Option InodeId)) : Transaction Unit := do
  renameInWithPolicy ext volumeId fromParent fromName toParent toName nowNs replace retainVictim
    expectedVictim
  journalEntryCommitIn volumeId journal

/-- INTERNAL: SRCLINE: operation.rs:619-643 -/
def namespaceDeleteJournaled (ext : Externals) (volumeId : RepositoryId) (parent : InodeId)
    (name : NameText) (nowNs : Int) (journal : JournalEntry) (retainInode : Bool) :
    Transaction Unit := do
  deleteNodeWithLifetimeIn ext volumeId parent name nowNs retainInode
  journalEntryCommitIn volumeId journal

/-! ## Mutation commits -/

/-- INTERNAL: a payload record that arrives flushed.
SRCLINE: operation.rs:768-793 -/
def insertDurablePayload (operation : OperationRecord) (nowNs : Int)
    (payload : OperationPayloadRecord) : Transaction Unit := do
  Txn.demand (payload.operationId = operation.operationId)
    (.invalidArgument "payload record belongs to a different operation")
  insertPayload operation.operationId (some nowNs) payload

/-- INTERNAL: extents, operation, payload records and ledger in one unit.
SRCLINE: operation.rs:722-909 -/
def commitMutationIn (extents : Option ExtentMutation) (operation : OperationRecord)
    (payloads : List OperationPayloadRecord) (physical : Option PhysicalCommit) (nowNs : Int) :
    Transaction Unit := do
  checkNewOperation operation
  insertOperation operation
  payloads.forM (insertDurablePayload operation nowNs)
  Txn.forSome extents fun mutation => applyExtentMutation mutation nowNs
  commitPending operation.operationId
  Txn.forSome physical fun commit => commitPhysical commit nowNs

/-- INTERNAL: stamp explicit times on an inode.
SRCLINE: namespace.rs:839-866 -/
def setTimes (volumeId : RepositoryId) (inode : InodeId) (createdNs modifiedNs : Option Int) :
    Transaction Unit := do
  let db ← get
  Txn.demand
    (db.inodes.countP (fun i => i.volumeId = volumeId ∧ i.inode = inode) = 1)
    (.invalidArgument "namespace inode is missing")
  updateInode volumeId inode fun i =>
    { i with
      createdNs := createdNs.getD i.createdNs
      modifiedNs := modifiedNs.getD i.modifiedNs }

/-- INTERNAL: the trailing stamp of a mutation, which tolerates a missing inode.
SRCLINE: operation.rs:671-683 -/
def stampModified (volumeId : RepositoryId) (inode : InodeId) (modifiedNs : Int) :
    Transaction Unit :=
  tryCatch (setTimes volumeId inode none (some modifiedNs)) fun error =>
    if error.kind = .invalidArgument then pure () else throw error

/-- INTERNAL: the whole durable mutation in one transaction.
SRCLINE: operation.rs:650-687 -/
def sequencedMutationCommit (mutation : SequencedMutation) : Transaction Unit := do
  Txn.forSome mutation.reservation fun r => reserveExtentIn r.1 r.2
  let deviceSeq ← allocateDeviceSeqIn mutation.operation.volumeId
  let operation := { mutation.operation with deviceSeq := deviceSeq }
  commitMutationIn mutation.extents operation mutation.payloads mutation.physical mutation.nowNs
  Txn.forSome mutation.modifiedNs fun m => stampModified operation.volumeId m.1 m.2

end Mirage.Model
