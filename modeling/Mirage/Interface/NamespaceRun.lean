import Mirage.Computation.NameTree
import Mirage.Model.Extents
import Mirage.Model.Handles

/-!
# Runs of the namespace

The requests that change the namespace, the states a sequence of successful requests
reaches, and what it means that a volume's rows are one tree.  `Represents` relates the
rows of a volume to an abstract tree of named nodes: a node is an inode row without
`unlink_pending`, and its place is its directory entry.
-/

set_option autoImplicit false

namespace Mirage.Interface

open Mirage.Model Mirage.Computation

/-- INTERNAL: the requests.  Deleting with `retainInode` and renaming with `retainVictim`
keep the inode row for open handles; a release drops it. -/
inductive NamespaceCall where
  | createVolume (volumeId : RepositoryId) (nowNs : Int)
  | createNode (volumeId : RepositoryId) (parent : InodeId) (name : NameText)
      (kind : NamespaceNodeKind) (nowNs : Int)
  | rename (volumeId : RepositoryId) (fromParent : InodeId) (fromName : NameText)
      (toParent : InodeId) (toName : NameText) (nowNs : Int) (replace retainVictim : Bool)
      (expectedVictim : Option (Option InodeId))
  | deleteNode (volumeId : RepositoryId) (parent : InodeId) (name : NameText) (nowNs : Int)
      (retainInode : Bool)
  | release (volumeId : RepositoryId) (inode : InodeId) (journalFileId : BitVec 128)
      (nowNs : Int)

/-- INTERNAL: the transaction of a request, without what it returns. -/
def NamespaceCall.transaction (ext : Externals) : NamespaceCall → Transaction Unit
  | .createVolume volumeId nowNs => do let _ ← Model.createVolume volumeId nowNs
  | .createNode volumeId parent name kind nowNs => do
    let _ ← createNodeIn ext volumeId parent name kind nowNs
  | .rename volumeId fromParent fromName toParent toName nowNs replace retainVictim
      expectedVictim =>
    renameInWithPolicy ext volumeId fromParent fromName toParent toName nowNs replace
      retainVictim expectedVictim
  | .deleteNode volumeId parent name nowNs retainInode =>
    deleteNodeWithLifetimeIn ext volumeId parent name nowNs retainInode
  | .release volumeId inode journalFileId nowNs => do
    let _ ← releaseInodeExtents volumeId inode journalFileId nowNs

/-- INTERNAL: the inode is what some path resolves to in the state. -/
def Resolved (ext : Externals) (db : Db) (volumeId : RepositoryId) (inode : InodeId) : Prop :=
  ∃ path, resolvePath ext volumeId path db = .ok (some inode, db)

/-- INTERNAL: the parents a create or a rename is called with were resolved from a path in
the current state. -/
def NamespaceCall.ParentsResolved (ext : Externals) (db : Db) : NamespaceCall → Prop
  | .createNode volumeId parent _ _ _ => Resolved ext db volumeId parent
  | .rename volumeId fromParent _ toParent _ _ _ _ _ =>
    Resolved ext db volumeId fromParent ∧ Resolved ext db volumeId toParent
  | _ => True

/-- INTERNAL: the tables the tree is made of. -/
def namespaceTables (db : Db) : List NamespaceVolume × List InodeRow × List Dirent :=
  (db.namespaceVolumes, db.inodes, db.dirents)

/-- INTERNAL: the states reached from a database without a namespace.  Between two
requests any other component may change the other tables. -/
inductive NamespaceRun (ext : Externals) : Db → Prop where
  | start {db : Db} (h : namespaceTables db = ([], [], [])) : NamespaceRun ext db
  | step {db db' : Db} (run : NamespaceRun ext db) (call : NamespaceCall)
      (resolved : call.ParentsResolved ext db)
      (ok : call.transaction ext db = .ok ((), db')) : NamespaceRun ext db'
  | other {db db' : Db} (run : NamespaceRun ext db)
      (same : namespaceTables db' = namespaceTables db) : NamespaceRun ext db'

/-- INTERNAL: the columns of an inode row that the tree depends on. -/
def treeColumns (i : InodeRow) : RepositoryId × InodeId × NamespaceNodeKind × Bool :=
  (i.volumeId, i.inode, i.kind, i.unlinkPending)

/-- INTERNAL: the states reached when writers, in between, also set the sizes, roots and
times of inodes, the sizes within `i64`. -/
inductive StoredRun (ext : Externals) : Db → Prop where
  | start {db : Db} (h : namespaceTables db = ([], [], [])) : StoredRun ext db
  | step {db db' : Db} (run : StoredRun ext db) (call : NamespaceCall)
      (resolved : call.ParentsResolved ext db)
      (ok : call.transaction ext db = .ok ((), db')) : StoredRun ext db'
  | other {db db' : Db} (run : StoredRun ext db)
      (volumes : db'.namespaceVolumes = db.namespaceVolumes)
      (dirents : db'.dirents = db.dirents)
      (rows : db'.inodes.map treeColumns = db.inodes.map treeColumns)
      (sizes : ∀ i ∈ db'.inodes, (i.size : Int) ≤ i64Max) : StoredRun ext db'

/-- INTERNAL: the row is one of the volume and not retained for open handles. -/
def RowLive (i : InodeRow) (volumeId : RepositoryId) : Prop :=
  i.volumeId = volumeId ∧ i.unlinkPending = false

/-- INTERNAL: the inode `p` holds the directory entry of the inode `x`. -/
def ParentLink (db : Db) (volumeId : RepositoryId) (x p : InodeId) : Prop :=
  ∃ d ∈ db.dirents, d.volumeId = volumeId ∧ d.childInode = x ∧ d.parentInode = p

/-- INTERNAL: the rows of a volume are one tree. -/
structure OneTree (db : Db) (volumeId : RepositoryId) : Prop where
  one_dirent : ∀ i ∈ db.inodes, RowLive i volumeId → i.inode ≠ rootInode volumeId →
    db.dirents.countP (fun d => d.volumeId = volumeId ∧ d.childInode = i.inode) = 1
  parent_live : ∀ d ∈ db.dirents, d.volumeId = volumeId →
    ∃ i ∈ db.inodes, RowLive i volumeId ∧ i.inode = d.parentInode ∧ i.kind = .directory
  reaches_root : ∀ i ∈ db.inodes, RowLive i volumeId →
    Relation.ReflTransGen (ParentLink db volumeId) i.inode (rootInode volumeId)
  names_distinct : ∀ d ∈ db.dirents, d.volumeId = volumeId →
    db.dirents.countP (fun e => e.hasKey volumeId d.parentInode d.foldedName) = 1

/-! ## The tree the rows describe -/

/-- INTERNAL: the inode rows of a volume. -/
def Db.volumeInodes (db : Db) (volumeId : RepositoryId) : List InodeRow :=
  db.inodes.filter fun i => i.volumeId = volumeId

/-- INTERNAL: the directory entries of a volume. -/
def Db.volumeDirents (db : Db) (volumeId : RepositoryId) : List Dirent :=
  db.dirents.filter fun d => d.volumeId = volumeId

/-- INTERNAL: whether a row is a live directory, a live file or no node. -/
def rowKind : Option InodeRow → Option Bool
  | some i => if i.unlinkPending then none else some (i.kind = .directory)
  | none => none

/-- INTERNAL: rows and entries of one volume describe the tree `t`: a node is a live row
and its place is its entry. -/
structure RowsRepresent (rows : List InodeRow) (entries : List Dirent)
    (t : NameTree InodeId NameText) : Prop where
  kind_eq : ∀ x, t.kind x = rowKind (rows.find? fun i => i.inode = x)
  place_iff : ∀ x p n, t.place x = some (p, n) ↔
    ∃ d ∈ entries, d.childInode = x ∧ d.parentInode = p ∧ d.foldedName = n
  rows_distinct : rows.Pairwise fun i j => i.inode ≠ j.inode
  children_distinct : entries.Pairwise fun d e => d.childInode ≠ e.childInode

/-- INTERNAL: the volume's rows describe the tree `t`. -/
structure Represents (db : Db) (volumeId : RepositoryId) (t : NameTree InodeId NameText) :
    Prop where
  root_eq : t.root = rootInode volumeId
  rows : RowsRepresent (Db.volumeInodes db volumeId) (Db.volumeDirents db volumeId) t

/-!
## Histories of opens, closes and deletes

A history keeps, beside the handle table, the opens that are live.  An open that is refused
adds none, and a close names one of them with the arguments it was opened with.  `Reaches`
is over the histories whose steps meet a condition.
-/

/-- INTERNAL: an open that was granted and not closed. -/
structure LiveOpen where
  inode : InodeId
  desired : DesiredAccess
  share : ShareAccess
  deriving DecidableEq, Repr

structure HandleState where
  table : HandleTable
  live : List LiveOpen
  deriving DecidableEq, Repr

inductive HandleAct where
  | open (o : LiveOpen)
  | close (o : LiveOpen)
  | delete (inode : InodeId) (unlink : Except MirageError Unit)

/-- INTERNAL: what a call returned. -/
inductive HandleResult where
  | opened (result : Except MirageError Unit)
  | closed (final : Bool)
  | deleted (result : Except MirageError DeleteDisposition)
  deriving DecidableEq

namespace HandleState

def start : HandleState := ⟨.empty, []⟩

/-- INTERNAL: the live opens of an inode. -/
def liveOf (s : HandleState) (inode : InodeId) : List LiveOpen :=
  s.live.filter fun o => o.inode = inode

def step (s : HandleState) : HandleAct → HandleResult × HandleState
  | .open o =>
    match s.table.open o.inode o.desired o.share with
    | .ok table => (.opened (.ok ()), ⟨table, o :: s.live⟩)
    | .error e => (.opened (.error e), s)
  | .close o =>
    let closed := s.table.close o.inode o.desired o.share
    (.closed closed.1, ⟨closed.2, s.live.erase o⟩)
  | .delete inode unlink =>
    let deleted := s.table.deleteWith inode unlink
    (.deleted deleted.1, { s with table := deleted.2 })

/-- INTERNAL: a close has the arguments of a live open. -/
def Enabled (s : HandleState) : HandleAct → Prop
  | .close o => o ∈ s.live
  | _ => True

/-- INTERNAL: the states of the histories whose steps all meet the condition. -/
inductive Reaches (may : HandleState → HandleAct → Prop) : HandleState → Prop
  | start : Reaches may start
  | step {s : HandleState} (a : HandleAct) : Reaches may s → s.Enabled a → may s a →
      Reaches may (s.step a).2

end HandleState

/-- INTERNAL: every access requested is shared. -/
def Grants (share : ShareAccess) (desired : DesiredAccess) : Prop :=
  (desired.read → share.read) ∧ (desired.write → share.write) ∧ (desired.delete → share.delete)

instance (share : ShareAccess) (desired : DesiredAccess) : Decidable (Grants share desired) :=
  inferInstanceAs (Decidable (_ ∧ _ ∧ _))

/-- INTERNAL: the counters of a record are the sums over the opens. -/
structure Counts (record : OpenRecord) (live : List LiveOpen) : Prop where
  opens : record.opens = live.length
  shareRead : record.shareRead = live.countP fun o => o.share.read
  shareWrite : record.shareWrite = live.countP fun o => o.share.write
  shareDelete : record.shareDelete = live.countP fun o => o.share.delete
  desiredRead : record.desiredRead = live.countP fun o => o.desired.read
  desiredWrite : record.desiredWrite = live.countP fun o => o.desired.write
  desiredDelete : record.desiredDelete = live.countP fun o => o.desired.delete

namespace HandleState

/-- INTERNAL: an inode has a record when it has live opens, and the record counts them. -/
def Counted (s : HandleState) : Prop :=
  ∀ inode, match s.table.get inode with
    | some record => s.liveOf inode ≠ [] ∧ Counts record (s.liveOf inode)
    | none => s.liveOf inode = []

/-- INTERNAL: of two live opens of one inode each shares what the other requested. -/
def Compatible (s : HandleState) : Prop :=
  s.live.Pairwise fun a b => a.inode = b.inode → Grants a.share b.desired ∧ Grants b.share a.desired

/-- INTERNAL: an open that is granted shares what the live opens of its inode requested, and
they are fewer than a `u32` counts. -/
def SharesBack (s : HandleState) : HandleAct → Prop
  | .open o => (s.table.open o.inode o.desired o.share).isOk →
      (∀ b ∈ s.liveOf o.inode, Grants o.share b.desired) ∧ (s.liveOf o.inode).length + 1 < 2 ^ 32
  | _ => True

end HandleState

end Mirage.Interface
