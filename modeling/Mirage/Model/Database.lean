import Mirage.Computation.Transaction
import Mirage.Model.Prelude

/-!
# The database

The tables of `mirage-db` that the modelled transactions read or write, as lists of rows
in insertion order, and the monad of transactions over them.  A column that holds one of
a few texts is an enumeration.  A statement that SQLite refuses (a primary key, unique,
foreign key or check constraint) fails with the `Io` error that carries the statement's
own context text, and a transaction that fails is rolled back, so the monad drops its
state.
-/

set_option autoImplicit false

namespace Mirage.Model

open Mirage.Computation

/-- INTERNAL: a name or a path as its Unicode scalar values. -/
abbrev NameText := List Char

/-! ## The operation journal -/

/-- INTERNAL: SRCLINE: operation.rs:20-30 -/
inductive OperationKind where
  | create
  | rename
  | delete
  | write
  | truncate
  | mkdir
  | replace
  deriving DecidableEq, Repr

/-- INTERNAL: SRCLINE: operation.rs:58-64 -/
inductive OperationStatus where
  | pending
  | committed
  | flushed
  | published
  | reclaimed
  deriving DecidableEq, Repr

/-- INTERNAL: a row of `local_operations`.
SRCLINE: operation.rs:91-102, 0014_local_mutations.sql:7-21 -/
structure OperationRecord where
  operationId : BitVec 128
  deviceSeq : Int
  volumeId : RepositoryId
  baseCommit : Option (BitVec 256)
  kind : OperationKind
  payload : List UInt8
  status : OperationStatus
  flushGroup : Option Int
  dependsOn : Option (BitVec 128)
  createdNs : Int
  deriving DecidableEq, Repr

/-- INTERNAL: a row of `operation_payloads`.
SRCLINE: operation.rs:105-112, 0014_local_mutations.sql:26-33 -/
structure OperationPayloadRecord where
  payloadId : PayloadId
  operationId : BitVec 128
  path : String
  bytes : Int
  checksum : Option (BitVec 256)
  flushedNs : Option Int
  deriving DecidableEq, Repr

/-- INTERNAL: a row of `flush_groups`.
SRCLINE: 0014_local_mutations.sql:35-40 -/
structure FlushGroup where
  groupId : Int
  volumeId : RepositoryId
  openedNs : Int
  flushedNs : Option Int
  deriving DecidableEq, Repr

/-- INTERNAL: a row of `journal_sequences`.
SRCLINE: 0020_extent_heads.sql:22-25 -/
structure JournalSequence where
  volumeId : RepositoryId
  nextSeq : Int
  deriving DecidableEq, Repr

/-! ## Byte extents and the physical ledger -/

/-- INTERNAL: SRCLINE: extent.rs:11-19 -/
inductive ExtentKind where
  | base
  | dirty
  | zero
  deriving DecidableEq, Repr

/-- INTERNAL: a row of `byte_extents`.
SRCLINE: extent.rs:39-56, 0015_byte_extents.sql:5-23, 0020_extent_heads.sql:10-11 -/
structure ByteExtent where
  extentId : BitVec 128
  volumeId : RepositoryId
  inode : InodeId
  version : Int
  start : Nat
  length : Nat
  kind : ExtentKind
  pageHash : Option PageHash
  baseOffset : Option Nat
  payloadId : Option PayloadId
  payloadOffset : Option Nat
  createdNs : Int
  deriving DecidableEq, Repr

/-- INTERNAL: a row of `byte_extent_heads`.
SRCLINE: 0020_extent_heads.sql:13-20 -/
structure ByteExtentHead where
  volumeId : RepositoryId
  inode : InodeId
  version : Int
  eof : Nat
  updatedNs : Int
  deriving DecidableEq, Repr

/-- INTERNAL: SRCLINE: physical.rs:11-17 -/
inductive PhysicalExtentState where
  | reserved
  | alive
  | dead
  | evicting
  deriving DecidableEq, Repr

/-- INTERNAL: a row of `physical_extents`.
SRCLINE: physical.rs:51-63, 0013_allocation.sql:13-25 -/
structure PhysicalExtentRecord where
  extentId : BitVec 128
  fileId : BitVec 128
  slotIndex : Int
  lengthBytes : Int
  state : PhysicalExtentState
  pageHash : Option PageHash
  checksum : Option (BitVec 256)
  pinCount : Int
  generation : Int
  updatedNs : Int
  deriving DecidableEq, Repr

/-- INTERNAL: a row of `physical_reservations`.
SRCLINE: physical.rs:65-70, 0013_allocation.sql:30-35 -/
structure PhysicalReservationRecord where
  extentId : BitVec 128
  ownerEpoch : BitVec 128
  createdNs : Int
  expiresNs : Int
  deriving DecidableEq, Repr

/-! ## The namespace -/

/-- INTERNAL: SRCLINE: namespace.rs:14-18 -/
inductive NamespaceNodeKind where
  | directory
  | file
  deriving DecidableEq, Repr

/-- INTERNAL: a row of `namespace_volumes`.
SRCLINE: 0011_namespace.sql:2-8 -/
structure NamespaceVolume where
  volumeId : RepositoryId
  namingVersion : Int
  rootInode : InodeId
  nextSequence : Int
  createdNs : Int
  deriving DecidableEq, Repr

/-- INTERNAL: a row of `inodes`.
SRCLINE: 0011_namespace.sql:10-21, 0031_unlink_pending.sql:1 -/
structure InodeRow where
  volumeId : RepositoryId
  inode : InodeId
  kind : NamespaceNodeKind
  size : Nat
  versionRoot : Option (BitVec 256)
  extentRoot : Option (BitVec 256)
  createdNs : Int
  modifiedNs : Int
  unlinkPending : Bool
  deriving DecidableEq, Repr

/-- INTERNAL: a row of `dirents`.
SRCLINE: 0011_namespace.sql:23-34 -/
structure Dirent where
  volumeId : RepositoryId
  parentInode : InodeId
  foldedName : NameText
  displayName : NameText
  childInode : InodeId
  deriving DecidableEq, Repr

/-- INTERNAL: a row of `legacy_inode_map`.
SRCLINE: 0011_namespace.sql:38-45 -/
structure LegacyInode where
  volumeId : RepositoryId
  legacyPath : NameText
  inode : InodeId
  deriving DecidableEq, Repr

/-- INTERNAL: a row of `namespace_pins`.
SRCLINE: 0026_namespace_pins.sql:3-7 -/
structure NamespacePin where
  volumeId : RepositoryId
  inode : InodeId
  pinnedNs : Int
  deriving DecidableEq, Repr

/-- INTERNAL: a row of `namespace_checkpoints`.  The column `parent_commit` is always null.
SRCLINE: 0012_namespace_history.sql:9-18 -/
structure CheckpointRow where
  volumeId : RepositoryId
  checkpointSeq : Int
  documentHash : BitVec 256
  document : List UInt8
  entryCount : Nat
  createdNs : Int
  deriving DecidableEq, Repr

/-- INTERNAL: a row of `namespace_deltas`.  The column `op` is the tag of the first
operation inside `payload`.
SRCLINE: 0012_namespace_history.sql:20-29 -/
structure DeltaRow where
  volumeId : RepositoryId
  checkpointSeq : Int
  deltaSeq : Int
  op : String
  payloadHash : BitVec 256
  payload : List UInt8
  createdNs : Int
  deriving DecidableEq, Repr

/-- INTERNAL: the tables. -/
structure Db where
  localOperations : List OperationRecord
  operationPayloads : List OperationPayloadRecord
  flushGroups : List FlushGroup
  journalSequences : List JournalSequence
  byteExtents : List ByteExtent
  byteExtentHeads : List ByteExtentHead
  physicalFiles : List (BitVec 128)
  physicalExtents : List PhysicalExtentRecord
  physicalReservations : List PhysicalReservationRecord
  namespaceVolumes : List NamespaceVolume
  inodes : List InodeRow
  dirents : List Dirent
  legacyInodeMap : List LegacyInode
  namespacePins : List NamespacePin
  namespaceCheckpoints : List CheckpointRow
  namespaceDeltas : List DeltaRow
  deriving DecidableEq, Repr

/-- INTERNAL: a newly created database. -/
def Db.empty : Db := ⟨[], [], [], [], [], [], [], [], [], [], [], [], [], [], [], []⟩

/-- INTERNAL: a transaction on the database. -/
abbrev Transaction := Txn Db MirageError

/-- INTERNAL: a constraint of the schema, checked by the statement whose context text is
given. -/
def constraint (ok : Bool) (context : String) : Transaction Unit :=
  Txn.demand ok (.io context)

end Mirage.Model
