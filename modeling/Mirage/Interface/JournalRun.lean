import Mirage.Model.Journal

/-!
# Runs of the journal and the sequences they hand out

`JournalCall` is one request to the single writer that touches the journal, and a run is
any sequence of such requests on a new or an upgraded database.  A request that allocates
a sequence is split at the allocation, so that the value handed out can be recorded.  The
record keeps the values whose transaction committed: a transaction that fails is rolled
back with the counter it moved.
-/

set_option autoImplicit false

namespace Mirage.Interface

open Mirage.Model Mirage.Computation

/-- INTERNAL: the requests that read or write the journal. -/
inductive JournalCall where
  | beginOperation (operation : OperationRecord) (payloads : List OperationPayloadRecord)
  | commitOperation (operationId : BitVec 128)
  | markPayloadFlushed (payloadId : PayloadId) (checksum : BitVec 256) (nowNs : Int)
  | openFlushGroup (volumeId : RepositoryId) (nowNs : Int)
  | markGroupFlushed (groupId nowNs : Int)
  | markPublished (operationIds : List (BitVec 128))
  | reclaimPending (volumeId : RepositoryId)
  | allocateDeviceSeq (volumeId : RepositoryId)
  | sequencedMutation (mutation : SequencedMutation)
  | createJournaled (volumeId : RepositoryId) (parent : InodeId) (name : NameText)
      (kind : NamespaceNodeKind) (nowNs : Int) (journal : JournalEntry)
  | renameJournaled (volumeId : RepositoryId) (fromParent : InodeId) (fromName : NameText)
      (toParent : InodeId) (toName : NameText) (nowNs : Int) (journal : JournalEntry)
      (replace retainVictim : Bool) (expectedVictim : Option (Option InodeId))
  | deleteJournaled (volumeId : RepositoryId) (parent : InodeId) (name : NameText)
      (nowNs : Int) (journal : JournalEntry) (retainInode : Bool)

/-- INTERNAL: the transaction of a request; what it returns besides the sequence is
dropped. -/
def JournalCall.transaction (ext : Externals) : JournalCall → Transaction Unit
  | .beginOperation operation payloads => beginOperationIn operation payloads
  | .commitOperation operationId => commitOperationIn operationId
  | .markPayloadFlushed payloadId checksum nowNs =>
    Model.markPayloadFlushed payloadId checksum nowNs
  | .openFlushGroup volumeId nowNs => do let _ ← Model.openFlushGroup volumeId nowNs
  | .markGroupFlushed groupId nowNs => do let _ ← Model.markGroupFlushed groupId nowNs
  | .markPublished operationIds => Model.markPublished operationIds
  | .reclaimPending volumeId => Model.reclaimPending volumeId
  | .allocateDeviceSeq volumeId => do let _ ← allocateDeviceSeqIn volumeId
  | .sequencedMutation mutation => sequencedMutationCommit mutation
  | .createJournaled volumeId parent name kind nowNs journal => do
    let _ ← namespaceCreateJournaled ext volumeId parent name kind nowNs journal
  | .renameJournaled volumeId fromParent fromName toParent toName nowNs journal replace
      retainVictim expectedVictim =>
    namespaceRenameJournaled ext volumeId fromParent fromName toParent toName nowNs journal
      replace retainVictim expectedVictim
  | .deleteJournaled volumeId parent name nowNs journal retainInode =>
    namespaceDeleteJournaled ext volumeId parent name nowNs journal retainInode

/-- INTERNAL: a request around its allocation: the volume, what runs before and what runs
with the sequence. -/
structure Allocation where
  volumeId : RepositoryId
  before : Transaction Unit
  after : Int → Transaction Unit

/-- INTERNAL: the allocation inside a request, if it makes one. -/
def JournalCall.allocation (ext : Externals) : JournalCall → Option Allocation
  | .allocateDeviceSeq volumeId => some ⟨volumeId, pure (), fun _ => pure ()⟩
  | .sequencedMutation mutation => some
    { volumeId := mutation.operation.volumeId
      before := Txn.forSome mutation.reservation fun r => reserveExtentIn r.1 r.2
      after := fun deviceSeq => do
        let operation := { mutation.operation with deviceSeq := deviceSeq }
        commitMutationIn mutation.extents operation mutation.payloads mutation.physical
          mutation.nowNs
        Txn.forSome mutation.modifiedNs fun m => stampModified operation.volumeId m.1 m.2 }
  | .createJournaled volumeId parent name kind nowNs journal => some
    { volumeId := volumeId
      before := do let _ ← createNodeIn ext volumeId parent name kind nowNs
      after := fun deviceSeq => do
        beginOperationIn (journal.operation volumeId deviceSeq) []
        commitOperationIn journal.operationId }
  | .renameJournaled volumeId fromParent fromName toParent toName nowNs journal replace
      retainVictim expectedVictim => some
    { volumeId := volumeId
      before := renameInWithPolicy ext volumeId fromParent fromName toParent toName nowNs
        replace retainVictim expectedVictim
      after := fun deviceSeq => do
        beginOperationIn (journal.operation volumeId deviceSeq) []
        commitOperationIn journal.operationId }
  | .deleteJournaled volumeId parent name nowNs journal retainInode => some
    { volumeId := volumeId
      before := deleteNodeWithLifetimeIn ext volumeId parent name nowNs retainInode
      after := fun deviceSeq => do
        beginOperationIn (journal.operation volumeId deviceSeq) []
        commitOperationIn journal.operationId }
  | _ => none

/-- INTERNAL: a database the migrations leave behind: the counters are created empty,
over whatever operations an older version stored.
SRCLINE: 0020_extent_heads.sql:22-25 -/
structure Migrated (db : Db) : Prop where
  counters : db.journalSequences = []
  sequences : db.localOperations.Pairwise fun o p =>
    ¬ (o.volumeId = p.volumeId ∧ o.deviceSeq = p.deviceSeq)
  operations : db.localOperations.Pairwise fun o p => o.operationId ≠ p.operationId

/-- INTERNAL: a run of requests, with the sequences handed out by committed ones. -/
inductive JournalRun (ext : Externals) : Db → List (RepositoryId × Int) → Prop where
  | start {db : Db} (h : Migrated db) : JournalRun ext db []
  | plain {db db' : Db} {handed : List (RepositoryId × Int)} (run : JournalRun ext db handed)
      (call : JournalCall) (none : call.allocation ext = none)
      (ok : call.transaction ext db = .ok ((), db')) : JournalRun ext db' handed
  | failed {db : Db} {handed : List (RepositoryId × Int)} {e : MirageError}
      (run : JournalRun ext db handed) (call : JournalCall)
      (error : call.transaction ext db = .error e) : JournalRun ext db handed
  | allocating {db db₁ db₂ db' : Db} {handed : List (RepositoryId × Int)} {deviceSeq : Int}
      (run : JournalRun ext db handed) (call : JournalCall) (a : Allocation)
      (some : call.allocation ext = some a) (before : a.before db = .ok ((), db₁))
      (allocate : allocateDeviceSeqIn a.volumeId db₁ = .ok (deviceSeq, db₂))
      (after : a.after deviceSeq db₂ = .ok ((), db')) :
      JournalRun ext db' (handed ++ [(a.volumeId, deviceSeq)])

/-!
## Runs of the journal and the life of its operations

A run is any sequence of requests on a journal that starts empty: the requests of
`JournalRun`, and `commit_mutation` with a sequence the caller chose.  A request that fails
is rolled back.  `OperationStatus.Next` is one move of an operation's life.
-/

/-- INTERNAL: the requests that touch the operation tables. -/
inductive OperationCall where
  | journal (call : JournalCall)
  | commitMutation (extents : Option ExtentMutation) (operation : OperationRecord)
      (payloads : List OperationPayloadRecord) (physical : Option PhysicalCommit) (nowNs : Int)

/-- INTERNAL: the transaction of a request.
SRCLINE: operation.rs:704-719 -/
def OperationCall.transaction (ext : Externals) : OperationCall → Transaction Unit
  | .journal call => call.transaction ext
  | .commitMutation extents operation payloads physical nowNs =>
    commitMutationIn extents operation payloads physical nowNs

/-- INTERNAL: one request, committed or rolled back. -/
def OperationStep (ext : Externals) (db db' : Db) : Prop :=
  ∃ call : OperationCall, db' = Txn.commit (call.transaction ext) db

/-- INTERNAL: a database whose journal tables are new. -/
structure NewJournal (db : Db) : Prop where
  operations : db.localOperations = []
  payloads : db.operationPayloads = []

/-- INTERNAL: the states of runs from a new journal. -/
def OperationReaches (ext : Externals) (db : Db) : Prop :=
  ∃ db₀, NewJournal db₀ ∧ Relation.ReflTransGen (OperationStep ext) db₀ db

end Mirage.Interface

namespace Mirage.Model

/-- INTERNAL: one move of an operation's life. -/
inductive OperationStatus.Next : OperationStatus → OperationStatus → Prop where
  | commit : Next .pending .committed
  | flush : Next .committed .flushed
  | publish : Next .flushed .published
  | reclaim : Next .pending .reclaimed

/-- INTERNAL: the operation was acknowledged. -/
def OperationStatus.Acknowledged (status : OperationStatus) : Prop :=
  status = .committed ∨ status = .flushed ∨ status = .published

/-- INTERNAL: the same operation, with the same status or one move later. -/
structure OperationRecord.Becomes (o o' : OperationRecord) : Prop where
  id : o'.operationId = o.operationId
  volume : o'.volumeId = o.volumeId
  sequence : o'.deviceSeq = o.deviceSeq
  status : o'.status = o.status ∨ o.status.Next o'.status

end Mirage.Model
