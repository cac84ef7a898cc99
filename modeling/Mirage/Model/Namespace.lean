import Mirage.Computation.Table
import Mirage.Model.Database

/-!
# The namespace and its delta documents

The canonical encoding of one namespace delta, as `mirage-manifest/src/namespace.rs`
writes it.  The `Sink` of the source only appends, so a method is the bytes it appends.
-/

set_option autoImplicit false

namespace Mirage.Model

/-- INTERNAL: one mutation applied on top of a base checkpoint.
SRCLINE: mirage-manifest/src/namespace.rs:48-76 -/
inductive NamespaceOp where
  | create (parent inode : InodeId) (displayName foldedName : NameText) (directory : Bool)
      (size : Nat)
  | rename (inode fromParent : InodeId) (fromFolded : NameText) (toParent : InodeId)
      (displayName foldedName : NameText)
  | delete (parent : InodeId) (foldedName : NameText) (inode : InodeId)
  | setRoots (inode : InodeId) (size : Nat) (versionRoot extentRoot : Option (BitVec 256))
  deriving DecidableEq, Repr

/-- INTERNAL: a bounded delta against a base checkpoint.
SRCLINE: mirage-manifest/src/namespace.rs:81-87 -/
structure NamespaceDelta where
  volumeId : RepositoryId
  baseDocumentHash : BitVec 256
  deltaSeq : Nat
  ops : List NamespaceOp
  deriving DecidableEq, Repr

namespace Sink

def byte (value : UInt8) : List UInt8 := [value]

def u32 (value : Nat) : List UInt8 := leBytes 4 value

def u64 (value : Nat) : List UInt8 := leBytes 8 value

/-- INTERNAL: the bytes of a 16-byte identifier. -/
def id128 (value : BitVec 128) : List UInt8 := beBytes 16 value.toNat

/-- INTERNAL: the bytes of a 32-byte digest. -/
def id256 (value : BitVec 256) : List UInt8 := beBytes 32 value.toNat

/-- INTERNAL: the length of the UTF-8 text, then the text.
SRCLINE: mirage-manifest/src/namespace.rs:106-112 -/
def text (value : NameText) : Except MirageError (List UInt8) :=
  let bytes := value.flatMap String.utf8EncodeChar
  if bytes.length < 2 ^ 32 then .ok (u32 bytes.length ++ bytes)
  else .error (.manifestInvalid "namespace name exceeds document bound")

def opt32 : Option (BitVec 256) → List UInt8
  | some bytes => byte 1 ++ id256 bytes
  | none => byte 0

end Sink

/-- INTERNAL: `MAX_DELTA_OPS`. -/
def maxDeltaOps : Nat := 8192

/-- INTERNAL: the encoding of one operation.
SRCLINE: mirage-manifest/src/namespace.rs:445-500 -/
def encodeOp : NamespaceOp → Except MirageError (List UInt8)
  | .create parent inode displayName foldedName directory size => do
    let display ← Sink.text displayName
    let folded ← Sink.text foldedName
    pure (Sink.byte 0 ++ Sink.id128 parent ++ Sink.id128 inode ++ display ++ folded ++
      Sink.byte (if directory then 1 else 0) ++ Sink.u64 size)
  | .rename inode fromParent fromFolded toParent displayName foldedName => do
    let source ← Sink.text fromFolded
    let display ← Sink.text displayName
    let folded ← Sink.text foldedName
    pure (Sink.byte 1 ++ Sink.id128 inode ++ Sink.id128 fromParent ++ source ++
      Sink.id128 toParent ++ display ++ folded)
  | .delete parent foldedName inode => do
    let folded ← Sink.text foldedName
    pure (Sink.byte 2 ++ Sink.id128 parent ++ folded ++ Sink.id128 inode)
  | .setRoots inode size versionRoot extentRoot =>
    pure (Sink.byte 3 ++ Sink.id128 inode ++ Sink.u64 size ++ Sink.opt32 versionRoot ++
      Sink.opt32 extentRoot)

/-- INTERNAL: `MNSD`, format version 1, the base and the operations in order.
SRCLINE: mirage-manifest/src/namespace.rs:428-503 -/
def encodeDelta (delta : NamespaceDelta) : Except MirageError (List UInt8) := do
  if maxDeltaOps < delta.ops.length then
    throw (.manifestInvalid "namespace delta exceeds the operation bound")
  let ops ← delta.ops.mapM encodeOp
  pure ([0x4d, 0x4e, 0x53, 0x44] ++ Sink.u32 1 ++ Sink.id128 delta.volumeId ++
    Sink.id256 delta.baseDocumentHash ++ Sink.u64 delta.deltaSeq ++
    Sink.u32 delta.ops.length ++ ops.flatten)

/-!
## The durable namespace

Directory entries keyed by folded name over inode rows, as `mirage-db/src/namespace.rs`
changes them.  Each definition is one transaction-scoped function of the source; the
public functions without the suffix `_in` run the same body in a transaction of their
own.  The naming policy of `mirage-types/src/inode.rs` comes first.
-/

open Mirage.Computation

/-! ## Names -/

/-- INTERNAL: `char::is_control`, the general category `Cc`. -/
def isControl (c : Char) : Bool := c.toNat < 0x20 || (0x7f ≤ c.toNat && c.toNat ≤ 0x9f)

/-- INTERNAL: the length of `encode_utf16`. -/
def utf16Units (name : NameText) : Nat :=
  (name.map fun c => if c.toNat < 0x10000 then 1 else 2).sum

/-- INTERNAL: SRCLINE: mirage-types/src/inode.rs:32-33 -/
def maxNameUnits : Nat := 255

/-- INTERNAL: SRCLINE: mirage-types/src/inode.rs:35-39 -/
def reservedStems : List NameText :=
  ["CON", "PRN", "AUX", "NUL", "CLOCK$", "CONIN$", "CONOUT$", "COM1", "COM2", "COM3", "COM4",
    "COM5", "COM6", "COM7", "COM8", "COM9", "LPT1", "LPT2", "LPT3", "LPT4", "LPT5", "LPT6",
    "LPT7", "LPT8", "LPT9"].map String.toList

/-- INTERNAL: the characters no Windows name holds. -/
def invalidCharacters : List Char := "/\\:*?\"<>|".toList

/-- INTERNAL: validate a display name and return its lookup key.
SRCLINE: mirage-types/src/inode.rs:49-81 -/
def foldName (ext : Externals) (displayName : NameText) : Except MirageError NameText := do
  if displayName = [] ∨ maxNameUnits < utf16Units displayName ∨
      displayName.getLast? = some '.' ∨ displayName.getLast? = some ' ' then
    throw (.invalidArgument "name is empty, oversized, or has a trailing dot or space")
  if displayName.any fun c => isControl c || invalidCharacters.contains c then
    throw (.invalidArgument "name contains a character that is invalid on Windows")
  let stem := (displayName.takeWhile (· ≠ '.')).flatMap ext.toUppercase
  if reservedStems.contains stem then
    throw (.invalidArgument "name uses a reserved Windows device name")
  pure (displayName.flatMap ext.toUppercase)

/-- INTERNAL: `MIRAGE-ROOT-INOD`.
SRCLINE: mirage-types/src/inode.rs:14 -/
def rootInodeSeed : BitVec 128 := 0x4d49524147452d524f4f542d494e4f44#128

/-- INTERNAL: SRCLINE: mirage-types/src/inode.rs:18-26 -/
def rootInode (volume : RepositoryId) : InodeId := rootInodeSeed ^^^ volume

/-! ## Reading -/

/-- INTERNAL: SRCLINE: namespace.rs:48-57 -/
structure DirEntry where
  inode : InodeId
  displayName : NameText
  foldedName : NameText
  kind : NamespaceNodeKind
  size : Nat
  createdNs : Int
  modifiedNs : Int
  deriving DecidableEq, Repr

/-- INTERNAL: the row of an inode. -/
def Db.inodeRow (db : Db) (volumeId : RepositoryId) (inode : InodeId) : Option InodeRow :=
  db.inodes.find? fun i => i.volumeId = volumeId ∧ i.inode = inode

/-- INTERNAL: the entry under a folded name, joined with its inode row.
SRCLINE: namespace.rs:131-135 -/
def Db.entry (db : Db) (volumeId : RepositoryId) (parent : InodeId) (folded : NameText) :
    Option DirEntry :=
  db.dirents.findSome? fun d =>
    if d.volumeId = volumeId ∧ d.parentInode = parent ∧ d.foldedName = folded then
      (db.inodeRow volumeId d.childInode).map fun i =>
        ⟨d.childInode, d.displayName, d.foldedName, i.kind, i.size, i.createdNs, i.modifiedNs⟩
    else none

/-- INTERNAL: SRCLINE: namespace.rs:122-174 -/
def lookup (ext : Externals) (volumeId : RepositoryId) (parent : InodeId) (name : NameText) :
    Transaction (Option DirEntry) := do
  let folded ← Txn.lift (foldName ext name)
  let db ← get
  pure (db.entry volumeId parent folded)

/-- INTERNAL: the columns of `NamespaceStat` are those of the row.
SRCLINE: namespace.rs:177-221 -/
def stat (volumeId : RepositoryId) (inode : InodeId) : Transaction (Option InodeRow) := do
  let db ← get
  pure (db.inodeRow volumeId inode)

/-- INTERNAL: the loop of `resolve_path` over the components left.
SRCLINE: namespace.rs:298-303 -/
def resolveComponents (ext : Externals) (volumeId : RepositoryId) :
    List NameText → InodeId → Transaction (Option InodeId)
  | [], current => pure (some current)
  | component :: rest, current => do
    match ← lookup ext volumeId current component with
    | some entry => resolveComponents ext volumeId rest entry.inode
    | none => pure none

/-- INTERNAL: SRCLINE: namespace.rs:292-305 -/
def resolvePath (ext : Externals) (volumeId : RepositoryId) (path : NameText) :
    Transaction (Option InodeId) :=
  resolveComponents ext volumeId ((path.splitOn '/').filter (· ≠ [])) (rootInode volumeId)

/-! ## History -/

/-- INTERNAL: the newest checkpoint, or sequence 0 over an all-zero hash.
SRCLINE: namespace.rs:1708-1732 -/
def currentDeltaSegment (db : Db) (volumeId : RepositoryId) : Int × BitVec 256 :=
  let rows := db.namespaceCheckpoints.filter fun c => c.volumeId = volumeId
  match rows.maxOn? CheckpointRow.checkpointSeq with
  | some row => (row.checkpointSeq, row.documentHash)
  | none => (0, 0)

/-- INTERNAL: the text of the column `op`.
SRCLINE: namespace.rs:1755-1760 -/
def NamespaceOp.name : NamespaceOp → String
  | .create .. => "create"
  | .rename .. => "rename"
  | .delete .. => "delete"
  | .setRoots .. => "set_roots"

/-- INTERNAL: append one operation to the open delta segment.
SRCLINE: namespace.rs:1736-1795 -/
def recordDelta (ext : Externals) (volumeId : RepositoryId) (op : NamespaceOp) (nowNs : Int) :
    Transaction Unit := do
  let db ← get
  let (checkpointSeq, baseHash) := currentDeltaSegment db volumeId
  let segment := db.namespaceDeltas.filter fun d =>
    d.volumeId = volumeId ∧ d.checkpointSeq = checkpointSeq
  let deltaSeq := ((segment.map DeltaRow.deltaSeq).max?.map (· + 1)).getD 0
  constraint (deltaSeq ≤ i64Max) "namespace delta sequence failed"
  Txn.demand (0 ≤ deltaSeq) (.internalInvariant "namespace delta sequence is negative")
  let payload ← Txn.lift (encodeDelta ⟨volumeId, baseHash, deltaSeq.toNat, [op]⟩)
  Txn.demand (payload.length ≤ 65536)
    (.manifestInvalid "namespace delta payload exceeds the durable bound")
  constraint (0 ≤ checkpointSeq ∧ segment.all fun d => d.deltaSeq ≠ deltaSeq)
    "namespace delta record failed"
  modify fun db =>
    { db with
      namespaceDeltas := db.namespaceDeltas ++
        [⟨volumeId, checkpointSeq, deltaSeq, op.name, ext.blake3 payload, payload, nowNs⟩] }

/-! ## Mutations -/

/-- INTERNAL: `next_sequence` of the volume.
SRCLINE: namespace.rs:337-342 -/
def Db.nextSequence (db : Db) (volumeId : RepositoryId) : Option Int :=
  (db.namespaceVolumes.find? fun v => v.volumeId = volumeId).map NamespaceVolume.nextSequence

/-- INTERNAL: the first half of the digest over the volume and its allocation sequence.
SRCLINE: namespace.rs:350-358 -/
def inodeOf (ext : Externals) (volumeId : RepositoryId) (sequence : Int) : InodeId :=
  let tag := "MirageSSD inode v1".toList.flatMap String.utf8EncodeChar ++ [0]
  let digest := ext.blake3 (tag ++ Sink.id128 volumeId ++ leBytes 8 (sequence % 2 ^ 64).toNat)
  digest.extractLsb' 128 128

/-- INTERNAL: take the next inode identity of a volume.
SRCLINE: namespace.rs:333-359 -/
def allocateInode (ext : Externals) (volumeId : RepositoryId) : Transaction InodeId := do
  let db ← get
  let sequence ← Txn.orFail (db.nextSequence volumeId)
    (.invalidArgument "namespace volume does not exist")
  constraint (sequence + 1 ≤ i64Max) "namespace allocator update failed"
  modify fun db =>
    { db with
      namespaceVolumes := db.namespaceVolumes.map fun v =>
        if v.volumeId = volumeId ∧ v.nextSequence = sequence then
          { v with nextSequence := v.nextSequence + 1 }
        else v }
  pure (inodeOf ext volumeId sequence)

/-- INTERNAL: `INSERT INTO inodes` under its primary key and its foreign key. -/
def insertInode (row : InodeRow) (context : String) : Transaction Unit := do
  let db ← get
  constraint (db.inodeRow row.volumeId row.inode = none ∧
    (db.nextSequence row.volumeId).isSome) context
  modify fun db => { db with inodes := db.inodes ++ [row] }

/-- INTERNAL: `DELETE FROM inodes` for one inode; dirents and legacy bindings restrict it. -/
def deleteInode (volumeId : RepositoryId) (inode : InodeId) (context : String) :
    Transaction Unit := do
  let db ← get
  constraint
    ((db.inodeRow volumeId inode).isNone ∨
      ((db.dirents.all fun d =>
          d.volumeId ≠ volumeId ∨ (d.parentInode ≠ inode ∧ d.childInode ≠ inode)) ∧
        (db.legacyInodeMap.all fun l => l.volumeId ≠ volumeId ∨ l.inode ≠ inode)))
    context
  modify fun db =>
    { db with inodes := db.inodes.filter fun i => ¬ (i.volumeId = volumeId ∧ i.inode = inode) }

/-- INTERNAL: rewrite the row of one inode. -/
def updateInode (volumeId : RepositoryId) (inode : InodeId) (f : InodeRow → InodeRow) :
    Transaction Unit :=
  modify fun db =>
    { db with
      inodes := db.inodes.map fun i =>
        if i.volumeId = volumeId ∧ i.inode = inode then f i else i }

/-- INTERNAL: whether a dirent row has the given primary key. -/
def Dirent.hasKey (d : Dirent) (volumeId : RepositoryId) (parent : InodeId)
    (folded : NameText) : Prop :=
  d.volumeId = volumeId ∧ d.parentInode = parent ∧ d.foldedName = folded

instance (d : Dirent) (volumeId : RepositoryId) (parent : InodeId) (folded : NameText) :
    Decidable (d.hasKey volumeId parent folded) :=
  inferInstanceAs (Decidable (_ ∧ _ ∧ _))

/-- INTERNAL: `DELETE FROM dirents` for one key. -/
def deleteDirent (volumeId : RepositoryId) (parent : InodeId) (folded : NameText) :
    Transaction Unit :=
  modify fun db =>
    { db with dirents := db.dirents.filter fun d => ¬ d.hasKey volumeId parent folded }

/-- INTERNAL: drop the legacy bindings and later the pins of an inode that goes away, and
between them its row, at once or with `unlink_pending` for open handles.
SRCLINE: namespace.rs:632-662, namespace.rs:794-824 -/
def unlinkInode (volumeId : RepositoryId) (inode : InodeId) (retain : Bool) (context : String) :
    Transaction Unit := do
  modify fun db =>
    { db with
      legacyInodeMap := db.legacyInodeMap.filter fun l =>
        ¬ (l.volumeId = volumeId ∧ l.inode = inode) }
  Txn.onlyIf retain (updateInode volumeId inode fun i => { i with unlinkPending := true })
  Txn.onlyIf (!retain) (deleteInode volumeId inode context)
  modify fun db =>
    { db with
      namespacePins := db.namespacePins.filter fun p =>
        ¬ (p.volumeId = volumeId ∧ p.inode = inode) }

/-- INTERNAL: create a volume's namespace with its root directory.
SRCLINE: namespace.rs:78-118 -/
def createVolume (volumeId : RepositoryId) (nowNs : Int) : Transaction InodeId := do
  let root := rootInode volumeId
  let db ← get
  constraint (db.nextSequence volumeId).isNone "failed to create namespace volume"
  modify fun db =>
    { db with namespaceVolumes := db.namespaceVolumes ++ [⟨volumeId, 1, root, 1, nowNs⟩] }
  insertInode ⟨volumeId, root, .directory, 0, none, none, nowNs, nowNs, false⟩
    "failed to seed namespace root"
  pure root

/-- INTERNAL: insert a node and its directory entry.
SRCLINE: namespace.rs:383-457 -/
def createNodeIn (ext : Externals) (volumeId : RepositoryId) (parent : InodeId)
    (displayName : NameText) (kind : NamespaceNodeKind) (nowNs : Int) :
    Transaction DirEntry := do
  let folded ← Txn.lift (foldName ext displayName)
  let parentStat ← Txn.orFail (← stat volumeId parent)
    (.invalidArgument "namespace parent inode is missing")
  Txn.demand (parentStat.kind = .directory)
    (.invalidArgument "namespace parent is not a directory")
  let inode ← allocateInode ext volumeId
  insertInode ⟨volumeId, inode, kind, 0, none, none, nowNs, nowNs, false⟩
    "namespace inode insert failed"
  let db ← get
  constraint ((db.inodeRow volumeId parent).isSome ∧ (db.inodeRow volumeId inode).isSome)
    "namespace dirent insert failed"
  Txn.demand (db.dirents.all fun d => ¬ d.hasKey volumeId parent folded)
    (.repositoryConflict "namespace entry already exists")
  modify fun db =>
    { db with dirents := db.dirents ++ [⟨volumeId, parent, folded, displayName, inode⟩] }
  recordDelta ext volumeId
    (.create parent inode displayName folded (kind = .directory) 0) nowNs
  pure ⟨inode, displayName, folded, kind, 0, nowNs, nowNs⟩

/-- INTERNAL: `MAX_RENAME_DEPTH`. -/
def maxRenameDepth : Nat := 256

/-- INTERNAL: the directory that holds an inode's entry.
SRCLINE: namespace.rs:551-566 -/
def Db.parentOf (db : Db) (volumeId : RepositoryId) (inode : InodeId) : Option InodeId :=
  (db.dirents.find? fun d => d.volumeId = volumeId ∧ d.childInode = inode).map Dirent.parentInode

/-- INTERNAL: the walk up from the destination of a directory that moves.  The argument
counts the hops left before the depth bound.
SRCLINE: namespace.rs:543-577 -/
def ancestorWalk (db : Db) (volumeId : RepositoryId) (moved : InodeId) :
    Nat → InodeId → Except MirageError Unit
  | 0, _ => .error (.integrityMismatch "namespace ancestor chain exceeds the depth bound")
  | hops + 1, ancestor =>
    if ancestor = moved then
      .error (.repositoryConflict "namespace rename would create a directory cycle")
    else
      match db.parentOf volumeId ancestor with
      | some parent => ancestorWalk db volumeId moved hops parent
      | none => .ok ()

/-- INTERNAL: refuse to drop a directory that has entries.
SRCLINE: namespace.rs:597-616, namespace.rs:761-780 -/
def demandEmpty (volumeId : RepositoryId) (inode : InodeId) (kind : NamespaceNodeKind)
    (message : String) : Transaction Unit := do
  let db ← get
  Txn.demand
    (kind ≠ .directory ∨
      db.dirents.all fun d => ¬ (d.volumeId = volumeId ∧ d.parentInode = inode))
    (.repositoryConflict message)

/-- INTERNAL: drop the entry a rename lands on.
SRCLINE: namespace.rs:594-672 -/
def removeVictim (ext : Externals) (volumeId : RepositoryId) (toParent : InodeId)
    (victim : DirEntry) (nowNs : Int) (replace retainVictim : Bool) : Transaction Unit := do
  let victimStat ← Txn.orFail (← stat volumeId victim.inode)
    (.integrityMismatch "namespace victim inode is missing")
  demandEmpty volumeId victim.inode victimStat.kind
    "namespace rename target is a non-empty directory"
  deleteDirent volumeId toParent victim.foldedName
  Txn.demand replace (.repositoryConflict "namespace rename target already exists")
  unlinkInode volumeId victim.inode retainVictim "namespace victim inode removal failed"
  recordDelta ext volumeId (.delete toParent victim.foldedName victim.inode) nowNs

/-- INTERNAL: `UPDATE dirents` from one key to another, with the primary key and the
foreign key of the rewritten row.
SRCLINE: namespace.rs:674-694 -/
def moveDirent (volumeId : RepositoryId) (fromParent : InodeId) (fromFolded : NameText)
    (toParent : InodeId) (toFolded toName : NameText) : Transaction Unit := do
  let db ← get
  let moved := db.dirents.countP fun d => d.hasKey volumeId fromParent fromFolded
  constraint
    (moved = 0 ∨
      ((db.inodeRow volumeId toParent).isSome ∧
        db.dirents.all fun d =>
          d.hasKey volumeId fromParent fromFolded ∨ ¬ d.hasKey volumeId toParent toFolded))
    "namespace rename move failed"
  modify fun db =>
    { db with
      dirents := db.dirents.map fun d =>
        if d.hasKey volumeId fromParent fromFolded then
          { d with parentInode := toParent, foldedName := toFolded, displayName := toName }
        else d }
  Txn.demand (moved = 1)
    (.repositoryConflict "namespace rename source vanished mid-transaction")

/-- INTERNAL: rename or move an entry, over another one if allowed.
SRCLINE: namespace.rs:513-718 -/
def renameInWithPolicy (ext : Externals) (volumeId : RepositoryId) (fromParent : InodeId)
    (fromName : NameText) (toParent : InodeId) (toName : NameText) (nowNs : Int)
    (replace retainVictim : Bool) (expectedVictim : Option (Option InodeId)) :
    Transaction Unit := do
  let fromFolded ← Txn.lift (foldName ext fromName)
  let toFolded ← Txn.lift (foldName ext toName)
  let entry ← Txn.orFail (← lookup ext volumeId fromParent fromName)
    (.invalidArgument "namespace rename source is missing")
  let toStat ← Txn.orFail (← stat volumeId toParent)
    (.invalidArgument "namespace rename target parent is missing")
  Txn.demand (toStat.kind = .directory)
    (.invalidArgument "namespace rename target parent is not a directory")
  let db ← get
  Txn.onlyIf (entry.kind = .directory)
    (Txn.lift (ancestorWalk db volumeId entry.inode maxRenameDepth toParent))
  let victim := (← lookup ext volumeId toParent toName).filter fun v => v.inode ≠ entry.inode
  Txn.demand (expectedVictim.all fun expected => expected = victim.map DirEntry.inode)
    (.repositoryConflict "rename target identity changed")
  Txn.forSome victim fun victim =>
    removeVictim ext volumeId toParent victim nowNs replace retainVictim
  moveDirent volumeId fromParent fromFolded toParent toFolded toName
  updateInode volumeId entry.inode fun i => { i with modifiedNs := nowNs }
  recordDelta ext volumeId
    (.rename entry.inode fromParent fromFolded toParent toName toFolded) nowNs

/-- INTERNAL: delete an entry; the inode goes at once or is retained.
SRCLINE: namespace.rs:749-835 -/
def deleteNodeWithLifetimeIn (ext : Externals) (volumeId : RepositoryId) (parent : InodeId)
    (name : NameText) (nowNs : Int) (retainInode : Bool) : Transaction Unit := do
  let folded ← Txn.lift (foldName ext name)
  let entry ← Txn.orFail (← lookup ext volumeId parent name)
    (.invalidArgument "namespace delete target is missing")
  demandEmpty volumeId entry.inode entry.kind "namespace delete target is a non-empty directory"
  deleteDirent volumeId parent folded
  unlinkInode volumeId entry.inode retainInode "namespace inode delete failed"
  recordDelta ext volumeId (.delete parent folded entry.inode) nowNs

/-!
## Folder pins

The rows of `namespace_pins` and the walk that decides whether a pin holds an inode, in
`mirage-db/src/namespace.rs`.
-/

/-- INTERNAL: `INSERT OR REPLACE` into a table whose key is the inode alone, so that a pin of the
inode in another volume goes.
SRCLINE: namespace.rs:1586-1606 -/
def pin (volumeId : RepositoryId) (inode : InodeId) (pinnedNs : Int) : Transaction Unit :=
  modify fun db =>
    { db with
      namespacePins := (db.namespacePins.filter fun p => p.inode ≠ inode) ++
        [⟨volumeId, inode, pinnedNs⟩] }

/-- INTERNAL: SRCLINE: namespace.rs:1651-1663 -/
def Db.pinned (db : Db) (volumeId : RepositoryId) (inode : InodeId) : Bool :=
  db.namespacePins.any fun p => p.volumeId = volumeId ∧ p.inode = inode

/-- INTERNAL: the loop with the rounds it has left.
SRCLINE: namespace.rs:1650-1672 -/
def pinHeldWalk (db : Db) (volumeId : RepositoryId) : Nat → InodeId → Bool
  | 0, _ => false
  | rounds + 1, current =>
    if db.pinned volumeId current then true
    else
      match db.parentOf volumeId current with
      | some parent => pinHeldWalk db volumeId rounds parent
      | none => false

/-- INTERNAL: SRCLINE: namespace.rs:1644-1673 -/
def pinHeld (db : Db) (volumeId : RepositoryId) (inode : InodeId) : Bool :=
  pinHeldWalk db volumeId 128 inode

end Mirage.Model
