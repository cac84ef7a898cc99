import Mirage.Model.ByteFields
import Mirage.Model.Namespace

/-!
# Namespace documents

The canonical document of a whole namespace, as `mirage-manifest/src/namespace.rs` writes
and reads it, the reader of a delta document, and `create_checkpoint` of
`mirage-db/src/namespace.rs`, which takes a checkpoint from the tables.  The cursor of the
source is a reader on the bytes that are left.
-/

set_option autoImplicit false

namespace Mirage.Model

open Mirage.Computation

/-- INTERNAL: one node of a checkpoint.
SRCLINE: mirage-manifest/src/namespace.rs:24-34 -/
structure NamespaceNodeRecord where
  inode : InodeId
  parent : Option InodeId
  foldedName : NameText
  displayName : NameText
  directory : Bool
  size : Nat
  versionRoot : Option (BitVec 256)
  extentRoot : Option (BitVec 256)
  deriving DecidableEq, Repr

/-- INTERNAL: SRCLINE: mirage-manifest/src/namespace.rs:38-45 -/
structure NamespaceCheckpoint where
  volumeId : RepositoryId
  checkpointSeq : Nat
  parentCommit : Option (BitVec 256)
  nodes : List NamespaceNodeRecord
  deriving DecidableEq, Repr

/-! ## Encoding -/

/-- INTERNAL: SRCLINE: mirage-manifest/src/namespace.rs:113-121 -/
def Sink.opt16 : Option InodeId → List UInt8
  | some inode => byte 1 ++ id128 inode
  | none => byte 0

/-- INTERNAL: `MNSC`. -/
def checkpointMagic : List UInt8 := [0x4d, 0x4e, 0x53, 0x43]

/-- INTERNAL: SRCLINE: mirage-manifest/src/namespace.rs:260-269 -/
def encodeNode (node : NamespaceNodeRecord) : Except MirageError (List UInt8) := do
  let folded ← Sink.text node.foldedName
  let display ← Sink.text node.displayName
  pure (Sink.id128 node.inode ++ (Sink.opt16 node.parent ++ (folded ++ (display ++
    (Sink.byte (if node.directory then 1 else 0) ++ (Sink.u64 node.size ++
      (Sink.opt32 node.versionRoot ++ Sink.opt32 node.extentRoot)))))))

/-- INTERNAL: nodes in the order of their inodes.
SRCLINE: mirage-manifest/src/namespace.rs:235-236 -/
def sortNodes (nodes : List NamespaceNodeRecord) : List NamespaceNodeRecord :=
  nodes.insertionSort fun a b => a.inode ≤ b.inode

/-- INTERNAL: SRCLINE: mirage-manifest/src/namespace.rs:234-272 -/
def encodeCheckpoint (checkpoint : NamespaceCheckpoint) : Except MirageError (List UInt8) := do
  let nodes := sortNodes checkpoint.nodes
  if (nodes.zip nodes.tail).any fun pair => pair.1.inode = pair.2.inode then
    throw (.manifestInvalid "namespace checkpoint contains a duplicate inode")
  if 2 ^ 32 ≤ nodes.length then
    throw (.manifestInvalid "namespace node count overflows")
  let encoded ← nodes.mapM encodeNode
  pure (checkpointMagic ++ (Sink.u32 1 ++ (Sink.id128 checkpoint.volumeId ++
    (Sink.u64 checkpoint.checkpointSeq ++ (Sink.opt32 checkpoint.parentCommit ++
      (Sink.u32 nodes.length ++ encoded.flatten))))))

/-! ## The cursor -/

/-- INTERNAL: a computation on the bytes that are left.
SRCLINE: mirage-manifest/src/namespace.rs:133-137 -/
abbrev Cursor := Txn (List UInt8) MirageError

namespace Cursor

/-- INTERNAL: SRCLINE: mirage-manifest/src/namespace.rs:139-148 -/
def take (length : Nat) : Cursor (List UInt8) :=
  takeTokens length (.manifestInvalid "namespace document is truncated")

def byte : Cursor UInt8 := do
  let bytes ← take 1
  pure (bytes.headD 0)

def u32 : Cursor Nat := do
  let bytes ← take 4
  pure (fromLeBytes bytes)

def u64 : Cursor Nat := do
  let bytes ← take 8
  pure (fromLeBytes bytes)

/-- INTERNAL: the bytes of a 16-byte identifier. -/
def id128 : Cursor (BitVec 128) := do
  let bytes ← take 16
  pure (idOfBytes bytes)

/-- INTERNAL: the bytes of a 32-byte digest. -/
def id256 : Cursor (BitVec 256) := do
  let bytes ← take 32
  pure (hashOfBytes bytes)

/-- INTERNAL: SRCLINE: mirage-manifest/src/namespace.rs:167-177 -/
def text : Cursor NameText := do
  let length ← u32
  Txn.demand (length ≤ 1024) (.manifestInvalid "namespace name exceeds the component bound")
  let bytes ← take length
  Txn.orFail (fromUtf8 bytes) (.manifestInvalid "namespace name is not valid UTF-8")

/-- INTERNAL: a flag and, if it is set, a value.
SRCLINE: mirage-manifest/src/namespace.rs:178-195 -/
def opt {α : Type} (value : Cursor α) (message : String) : Cursor (Option α) := do
  let flag ← byte
  if flag = 0 then pure none
  else if flag = 1 then do
    let a ← value
    pure (some a)
  else throw (.manifestInvalid message)

def opt16 : Cursor (Option InodeId) := opt id128 "namespace optional flag is invalid"

def opt32 : Cursor (Option (BitVec 256)) := opt id256 "namespace optional flag is invalid"

/-- INTERNAL: SRCLINE: mirage-manifest/src/namespace.rs:196-204 -/
def done : Cursor Unit := do
  let bytes ← get
  Txn.demand (bytes = []) (.manifestInvalid "namespace document has trailing bytes")

end Cursor

/-! ## Decoding -/

/-- INTERNAL: `MAX_NAMESPACE_DOCUMENT_BYTES`. -/
def maxNamespaceDocumentBytes : Nat := 512 * 1024 * 1024

/-- INTERNAL: SRCLINE: mirage-manifest/src/namespace.rs:207-231 -/
def checkMagic (magic : List UInt8) (maximum : Nat) : Cursor Unit := do
  let bytes ← get
  Txn.demand (bytes.length ≤ maximum)
    (.manifestInvalid "namespace document exceeds its decode bound")
  let found ← Cursor.take 4
  Txn.demand (found = magic) (.manifestInvalid "namespace document magic is unknown")
  let version ← Cursor.u32
  Txn.demand (version = 1)
    (.unsupportedLayout "namespace document was written by an incompatible format version")

/-- INTERNAL: the flag that says whether a node is a directory.
SRCLINE: mirage-manifest/src/namespace.rs:326-334 -/
def readKind : Cursor Bool := do
  let flag ← Cursor.byte
  if flag = 0 then pure false
  else if flag = 1 then pure true
  else throw (.manifestInvalid "namespace node kind flag is invalid")

/-- INTERNAL: the fields of a node behind its inode.
SRCLINE: mirage-manifest/src/namespace.rs:323-346 -/
def readNode (inode : InodeId) : Cursor NamespaceNodeRecord := do
  let parent ← Cursor.opt16
  let foldedName ← Cursor.text
  let displayName ← Cursor.text
  let directory ← readKind
  let size ← Cursor.u64
  let versionRoot ← Cursor.opt32
  let extentRoot ← Cursor.opt32
  pure ⟨inode, parent, foldedName, displayName, directory, size, versionRoot, extentRoot⟩

/-- INTERNAL: the loop over the nodes, with the inode before.
SRCLINE: mirage-manifest/src/namespace.rs:314-347 -/
def readNodes : Nat → Option InodeId → Cursor (List NamespaceNodeRecord)
  | 0, _ => pure []
  | count + 1, previous => do
    let inode ← Cursor.id128
    Txn.demand (previous.all fun last => last < inode)
      (.manifestInvalid "namespace checkpoint inodes are not strictly ordered")
    let node ← readNode inode
    let rest ← readNodes count (some inode)
    pure (node :: rest)

/-- INTERNAL: `known`. -/
def nodeOf (nodes : List NamespaceNodeRecord) (inode : InodeId) : Option NamespaceNodeRecord :=
  nodes.find? fun node => node.inode = inode

/-- INTERNAL: the parent of one node.
SRCLINE: mirage-manifest/src/namespace.rs:355-384 -/
def checkParent (nodes : List NamespaceNodeRecord) (node : NamespaceNodeRecord) :
    Except MirageError Unit :=
  match node.parent with
  | none =>
    if node.directory then .ok ()
    else .error (.manifestInvalid "namespace checkpoint root is not a directory")
  | some parent =>
    if parent = node.inode then
      .error (.manifestInvalid "namespace checkpoint node is its own parent")
    else
      match nodeOf nodes parent with
      | none => .error (.manifestInvalid "namespace checkpoint references a missing parent")
      | some parentNode =>
        if parentNode.directory then .ok ()
        else .error (.manifestInvalid "namespace checkpoint parent is not a directory")

/-- INTERNAL: the key of a node among its siblings.
SRCLINE: mirage-manifest/src/namespace.rs:393-397 -/
def siblingKey (node : NamespaceNodeRecord) : InodeId × NameText :=
  (node.parent.getD 0, node.foldedName)

/-- INTERNAL: the walk up from a node; the argument counts the hops left.
SRCLINE: mirage-manifest/src/namespace.rs:406-418 -/
def climbs (nodes : List NamespaceNodeRecord) : Nat → NamespaceNodeRecord → Bool
  | 0, _ => false
  | left + 1, node =>
    match node.parent with
    | none => true
    | some parent =>
      match nodeOf nodes parent with
      | none => false
      | some parentNode => climbs nodes left parentNode

/-- INTERNAL: the nodes are one rooted tree.
SRCLINE: mirage-manifest/src/namespace.rs:349-418 -/
def checkTree (nodes : List NamespaceNodeRecord) : Except MirageError Unit := do
  nodes.forM (checkParent nodes)
  if nodes.countP (fun node => node.parent.isNone) ≠ 1 then
    throw (.manifestInvalid "namespace checkpoint must contain exactly one root")
  if ¬ (nodes.map siblingKey).Nodup then
    throw (.manifestInvalid "namespace checkpoint duplicates a folded sibling name")
  if ¬ nodes.all (climbs nodes nodes.length) then
    throw (.manifestInvalid "namespace checkpoint contains a parent cycle")

/-- INTERNAL: the least number of bytes a node takes.
SRCLINE: mirage-manifest/src/namespace.rs:303 -/
def minNodeBytes : Nat := 16 + 1 + 4 + 4 + 1 + 8 + 1 + 1

/-- INTERNAL: the whole document on the cursor.
SRCLINE: mirage-manifest/src/namespace.rs:280-348 -/
def readCheckpoint : Cursor NamespaceCheckpoint := do
  checkMagic checkpointMagic maxNamespaceDocumentBytes
  let volumeId ← Cursor.id128
  let checkpointSeq ← Cursor.u64
  let parentCommit ← Cursor.opt Cursor.id256 "namespace checkpoint commit flag is invalid"
  let count ← Cursor.u32
  let left ← get
  Txn.demand (count * minNodeBytes ≤ left.length)
    (.manifestInvalid "namespace node count exceeds the document bound")
  let nodes ← readNodes count none
  Cursor.done
  pure ⟨volumeId, checkpointSeq, parentCommit, nodes⟩

/-- INTERNAL: SRCLINE: mirage-manifest/src/namespace.rs:280-425 -/
def decodeCheckpoint (encoded : List UInt8) : Except MirageError NamespaceCheckpoint := do
  let (checkpoint, _) ← readCheckpoint encoded
  checkTree checkpoint.nodes
  pure checkpoint

/-! ## Reading a delta -/

/-- INTERNAL: `MNSD`. -/
def deltaMagic : List UInt8 := [0x4d, 0x4e, 0x53, 0x44]

/-- INTERNAL: `MAX_DELTA_DOCUMENT_BYTES`. -/
def maxDeltaDocumentBytes : Nat := 4 * 1024 * 1024

/-- INTERNAL: a delta takes every byte but zero for a directory, other than `readKind`.
SRCLINE: mirage-manifest/src/namespace.rs:529 -/
def anyKind : Cursor Bool := do
  let flag ← Cursor.byte
  pure (flag != 0)

/-- INTERNAL: one operation; how the kind of a new node is read is a parameter.
SRCLINE: mirage-manifest/src/namespace.rs:523-556 -/
def readOp (kind : Cursor Bool) : Cursor NamespaceOp := do
  let tag ← Cursor.byte
  if tag = 0 then do
    let parent ← Cursor.id128
    let inode ← Cursor.id128
    let displayName ← Cursor.text
    let foldedName ← Cursor.text
    let directory ← kind
    let size ← Cursor.u64
    pure (.create parent inode displayName foldedName directory size)
  else if tag = 1 then do
    let inode ← Cursor.id128
    let fromParent ← Cursor.id128
    let fromFolded ← Cursor.text
    let toParent ← Cursor.id128
    let displayName ← Cursor.text
    let foldedName ← Cursor.text
    pure (.rename inode fromParent fromFolded toParent displayName foldedName)
  else if tag = 2 then do
    let parent ← Cursor.id128
    let foldedName ← Cursor.text
    let inode ← Cursor.id128
    pure (.delete parent foldedName inode)
  else if tag = 3 then do
    let inode ← Cursor.id128
    let size ← Cursor.u64
    let versionRoot ← Cursor.opt32
    let extentRoot ← Cursor.opt32
    pure (.setRoots inode size versionRoot extentRoot)
  else throw (.manifestInvalid "namespace delta operation tag is unknown")

/-- INTERNAL: the whole document on the cursor.
SRCLINE: mirage-manifest/src/namespace.rs:507-558 -/
def readDelta (kind : Cursor Bool) : Cursor NamespaceDelta := do
  checkMagic deltaMagic maxDeltaDocumentBytes
  let volumeId ← Cursor.id128
  let baseDocumentHash ← Cursor.id256
  let deltaSeq ← Cursor.u64
  let count ← Cursor.u32
  Txn.demand (count ≤ maxDeltaOps)
    (.manifestInvalid "namespace delta exceeds the operation bound")
  let ops ← readMany (readOp kind) count
  Cursor.done
  pure ⟨volumeId, baseDocumentHash, deltaSeq, ops⟩

/-- INTERNAL: SRCLINE: mirage-manifest/src/namespace.rs:506-565 -/
def decodeDelta (encoded : List UInt8) : Except MirageError NamespaceDelta := do
  let (delta, _) ← readDelta anyKind encoded
  pure delta

/-! ## Taking a checkpoint -/

/-- INTERNAL: the node of an inode row and the entry it was joined with.
SRCLINE: mirage-db/src/namespace.rs:1858-1868 -/
def checkpointNode (i : InodeRow) (d : Option Dirent) : NamespaceNodeRecord where
  inode := i.inode
  parent := d.map Dirent.parentInode
  foldedName := (d.map Dirent.foldedName).getD []
  displayName := (d.map Dirent.displayName).getD []
  directory := i.kind = .directory
  size := i.size
  versionRoot := i.versionRoot
  extentRoot := i.extentRoot

/-- INTERNAL: the left join of the live rows with their entries.
SRCLINE: mirage-db/src/namespace.rs:1826-1835 -/
def checkpointNodes (db : Db) (volumeId : RepositoryId) : List NamespaceNodeRecord :=
  let rows := (db.inodes.filter fun i => i.volumeId = volumeId ∧ i.unlinkPending = false)
  let ordered := rows.insertionSort fun i j => i.inode ≤ j.inode
  ordered.flatMap fun i =>
    match db.dirents.filter fun d => d.volumeId = volumeId ∧ d.childInode = i.inode with
    | [] => [checkpointNode i none]
    | entries => entries.map fun d => checkpointNode i (some d)

/-- INTERNAL: snapshot the live namespace into a document and record it.
SRCLINE: mirage-db/src/namespace.rs:1817-1906 -/
def createCheckpoint (ext : Externals) (volumeId : RepositoryId) (nowNs : Int) :
    Transaction (Nat × BitVec 256) := do
  let db ← get
  let nodes := checkpointNodes db volumeId
  let (lastSeq, _) := currentDeltaSegment db volumeId
  let checkpointSeq := lastSeq.toNat + 1
  let document ← Txn.lift (encodeCheckpoint ⟨volumeId, checkpointSeq, none, nodes⟩)
  let documentHash := ext.blake3 document
  Txn.demand ((checkpointSeq : Int) ≤ i64Max)
    (.internalInvariant "namespace checkpoint sequence overflows")
  Txn.demand ((nodes.length : Int) ≤ i64Max)
    (.internalInvariant "namespace entry count overflows")
  constraint (db.namespaceCheckpoints.all fun c =>
    ¬ (c.volumeId = volumeId ∧ c.checkpointSeq = checkpointSeq))
    "namespace checkpoint insert failed"
  modify fun db =>
    { db with
      namespaceCheckpoints := db.namespaceCheckpoints ++
        [⟨volumeId, checkpointSeq, documentHash, document, nodes.length, nowNs⟩] }
  pure (checkpointSeq, documentHash)

end Mirage.Model
