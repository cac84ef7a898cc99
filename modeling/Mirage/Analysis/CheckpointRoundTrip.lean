import Mirage.Analysis.CheckpointDocument
import Mirage.Analysis.Names
import Mirage.Analysis.NamespaceInvariant

/-!
# A checkpoint brings the namespace back

The nodes a checkpoint is made of are the live rows of the volume, each joined with its
only directory entry, so they picture the tree of the volume and the reader accepts them.
What the tree does not give is the reader's bound on names: a display name of 255 UTF-16
units passes the naming policy, and its upper case can have up to three characters for
each of its own.  Such a name is stored and written to the document, and the document is
refused.
-/

set_option autoImplicit false

namespace Mirage.Analysis

open Mirage.Model Mirage.Interface Mirage.Computation Mirage.Computation.Txn

variable {ext : Externals} {db db' : Db} {v : RepositoryId} {t : NameTree InodeId NameText}

/-! ## What the rows keep -/

/-- INTERNAL: every entry is stored under the fold of its display name, and every size is
within `i64`. -/
structure RowsFit (ext : Externals) (db : Db) : Prop where
  names : ∀ d ∈ db.dirents, foldName ext d.displayName = .ok d.foldedName
  sizes : ∀ i ∈ db.inodes, (i.size : Int) ≤ i64Max

variable {x : InodeId} {retain : Bool} {i : InodeRow} {d : Dirent} {nowNs : Int}

theorem size_of_unlinkedRows {rows : List InodeRow} (hi : i ∈ unlinkedRows v x retain rows) :
    ∃ j ∈ rows, i.size = j.size := by
  unfold unlinkedRows at hi
  cases retain with
  | true =>
    obtain ⟨j, hj, rfl⟩ := List.mem_map.mp hi
    refine ⟨j, hj, ?_⟩
    split_ifs <;> rfl
  | false => exact ⟨i, (List.mem_filter.mp hi).1, rfl⟩

theorem RowsFit.unlinked (h : RowsFit ext db) (hun : Unlinked db db' v d retain) :
    RowsFit ext db' := by
  refine ⟨fun e he => ?_, fun i hi => ?_⟩
  · rw [hun.dirents] at he
    exact h.names e (List.mem_filter.mp he).1
  · rw [hun.inodes] at hi
    obtain ⟨j, hj, hsize⟩ := size_of_unlinkedRows hi
    rw [hsize]
    exact h.sizes j hj

theorem RowsFit.createNode {parent : InodeId} {name : NameText} {kind : NamespaceNodeKind}
    {e : DirEntry} (h : RowsFit ext db)
    (hok : createNodeIn ext v parent name kind nowNs db = .ok (e, db')) : RowsFit ext db' := by
  obtain ⟨inode, folded, -, hfold, -, -, -, -, -, -, hin, hdir⟩ := createNodeIn_ok hok
  refine ⟨fun d hd => ?_, fun i hi => ?_⟩
  · rw [hdir] at hd
    rcases List.mem_append.mp hd with hd | hd
    · exact h.names d hd
    · cases List.mem_singleton.mp hd
      exact hfold
  · rw [hin] at hi
    rcases List.mem_append.mp hi with hi | hi
    · exact h.sizes i hi
    · cases List.mem_singleton.mp hi
      exact (by decide : ((0 : Nat) : Int) ≤ i64Max)

theorem RowsFit.rename {fromParent toParent : InodeId} {fromName toName : NameText}
    {replace : Bool} {expected : Option (Option InodeId)} (h : RowsFit ext db)
    (hok : renameInWithPolicy ext v fromParent fromName toParent toName nowNs replace retain
      expected db = .ok ((), db')) : RowsFit ext db' := by
  obtain ⟨d, toFolded, db₁, hfold, -, hvictim, -, htables⟩ := renameInWithPolicy_ok hok
  have h₁ : RowsFit ext db₁ := by
    rcases hvictim with rfl | ⟨e, -, -, -, hun⟩
    · exact h
    · exact h.unlinked hun
  refine ⟨fun e he => ?_, fun i hi => ?_⟩
  · rw [show db'.dirents = _ from congrArg (·.2.2) htables] at he
    obtain ⟨e₁, he₁, rfl⟩ := List.mem_map.mp he
    split_ifs
    · exact hfold
    · exact h₁.names e₁ he₁
  · rw [show db'.inodes = _ from congrArg (·.2.1) htables] at hi
    obtain ⟨i₁, hi₁, rfl⟩ := List.mem_map.mp hi
    split_ifs
    · exact h₁.sizes i₁ hi₁
    · exact h₁.sizes i₁ hi₁

theorem RowsFit.release {file : BitVec 128} {dead : List (PayloadId × Int)} (h : RowsFit ext db)
    (hok : releaseInodeExtents v x file nowNs db = .ok (dead, db')) : RowsFit ext db' := by
  rcases releaseInodeExtents_ok hok with htables | ⟨-, htables⟩
  · have hin : db'.inodes = db.inodes := congrArg (·.2.1) htables
    have hdir : db'.dirents = db.dirents := congrArg (·.2.2) htables
    refine ⟨?_, ?_⟩
    · rw [hdir]
      exact h.names
    · rw [hin]
      exact h.sizes
  · have hin : db'.inodes = unlinkedRows v x false db.inodes := congrArg (·.2.1) htables
    have hdir : db'.dirents = db.dirents := congrArg (·.2.2) htables
    refine ⟨?_, fun i hi => ?_⟩
    · rw [hdir]
      exact h.names
    · rw [hin] at hi
      obtain ⟨j, hj, hsize⟩ := size_of_unlinkedRows hi
      rw [hsize]
      exact h.sizes j hj

theorem RowsFit.step {call : NamespaceCall} (h : RowsFit ext db)
    (hok : call.transaction ext db = .ok ((), db')) : RowsFit ext db' := by
  cases call with
  | createVolume volumeId nowNs =>
    obtain ⟨root, _, hcreate, hpure⟩ := bind_ok.mp hok
    cases pure_ok.mp hpure
    obtain ⟨-, -, hin, hdir⟩ := createVolume_ok hcreate
    refine ⟨?_, fun i hi => ?_⟩
    · rw [hdir]
      exact h.names
    · rw [hin] at hi
      rcases List.mem_append.mp hi with hi | hi
      · exact h.sizes i hi
      · cases List.mem_singleton.mp hi
        exact (by decide : ((0 : Nat) : Int) ≤ i64Max)
  | createNode volumeId parent name kind nowNs =>
    obtain ⟨e, _, hcreate, hpure⟩ := bind_ok.mp hok
    cases pure_ok.mp hpure
    exact h.createNode hcreate
  | rename volumeId fromParent fromName toParent toName nowNs replace retain expected =>
    exact h.rename hok
  | deleteNode volumeId parent name nowNs retain =>
    obtain ⟨d, -, hun⟩ := deleteNodeWithLifetimeIn_ok hok
    exact h.unlinked hun
  | release volumeId inode file nowNs =>
    obtain ⟨dead, _, hrelease, hpure⟩ := bind_ok.mp hok
    cases pure_ok.mp hpure
    exact h.release hrelease

/-! ## Rows with new sizes describe the same tree -/

section Columns

variable {rows rows' : List InodeRow}

theorem rowKind_find?_of_columns (h : rows'.map treeColumns = rows.map treeColumns)
    (x : InodeId) :
    rowKind (rows'.find? fun i => i.inode = x) = rowKind (rows.find? fun i => i.inode = x) := by
  induction rows generalizing rows' with
  | nil =>
    rw [List.map_nil, List.map_eq_nil_iff] at h
    rw [h]
  | cons i rows ih =>
    obtain ⟨j, rest, rfl, hij, hrest⟩ := List.map_eq_cons_iff.mp h
    have hinode : j.inode = i.inode := congrArg (·.2.1) hij
    have hkind : j.kind = i.kind := congrArg (·.2.2.1) hij
    have hpending : j.unlinkPending = i.unlinkPending := congrArg (·.2.2.2) hij
    rw [List.find?_cons, List.find?_cons, hinode]
    by_cases hx : i.inode = x
    · simp only [hx, decide_true, rowKind_some, hkind, hpending]
    · simp only [hx, decide_false]
      exact ih hrest

theorem pairwise_of_columns (h : rows'.map treeColumns = rows.map treeColumns)
    (hrows : rows.Pairwise fun i j => i.inode ≠ j.inode) :
    rows'.Pairwise fun i j => i.inode ≠ j.inode := by
  have hinodes : ∀ l : List InodeRow, (l.Pairwise fun i j => i.inode ≠ j.inode) ↔
      (l.map treeColumns).Pairwise fun c d => c.2.1 ≠ d.2.1 := fun l => by
    rw [List.pairwise_map]
    exact Iff.rfl
  rw [hinodes, h, ← hinodes]
  exact hrows

theorem map_filter_volume (rows : List InodeRow) :
    (rows.filter fun i => i.volumeId = v).map treeColumns =
      (rows.map treeColumns).filter fun c => c.1 = v := by
  rw [List.filter_map]
  rfl

end Columns

theorem VolumeInv.columns (h : VolumeInv db v)
    (hvol : db'.namespaceVolumes = db.namespaceVolumes) (hdir : db'.dirents = db.dirents)
    (hrows : db'.inodes.map treeColumns = db.inodes.map treeColumns) : VolumeInv db' v := by
  have hvols : Db.hasVolume db' v ↔ Db.hasVolume db v := by
    unfold Db.hasVolume Db.nextSequence
    rw [hvol]
  have hdirents : Db.volumeDirents db' v = Db.volumeDirents db v := by
    unfold Db.volumeDirents
    rw [hdir]
  have hcolumns : (Db.volumeInodes db' v).map treeColumns =
      (Db.volumeInodes db v).map treeColumns := by
    unfold Db.volumeInodes
    rw [map_filter_volume, map_filter_volume, hrows]
  rcases h with ⟨hv, t, ht⟩ | ⟨hv, hin, hnone⟩
  · refine .inl ⟨hvols.mpr hv, t, ht.root_eq, ?_⟩
    rw [hdirents]
    exact ht.rows.reread (rowKind_find?_of_columns hcolumns)
      (pairwise_of_columns hcolumns ht.rows.rows_distinct)
  · refine .inr ⟨fun h' => hv (hvols.mp h'), ?_, ?_⟩
    · rw [hin, List.map_nil, List.map_eq_nil_iff] at hcolumns
      exact hcolumns
    · rw [hdirents, hnone]

/-! ## Runs -/

theorem storedRun_rows (h : StoredRun ext db) : (∀ v, VolumeInv db v) ∧ RowsFit ext db := by
  induction h with
  | start hempty =>
    rename_i db
    have hin : db.inodes = [] := congrArg (·.2.1) hempty
    have hdir : db.dirents = [] := congrArg (·.2.2) hempty
    have hstart : NamespaceRun ext db := .start hempty
    refine ⟨volumeInv_of_run hstart, ⟨?_, ?_⟩⟩
    · rw [hdir]
      exact fun d hd => absurd hd List.not_mem_nil
    · rw [hin]
      exact fun i hi => absurd hi List.not_mem_nil
  | step _ call hresolved hok ih =>
    exact ⟨volumeInv_step ih.1 hresolved hok, ih.2.step hok⟩
  | other _ hvol hdir hrows hsizes ih =>
    refine ⟨fun v => (ih.1 v).columns hvol hdir hrows, ⟨?_, hsizes⟩⟩
    rw [hdir]
    exact ih.2.names

/-! ## The nodes of a checkpoint -/

/-- INTERNAL: the nodes that one row joins to. -/
def joinedNodes (db : Db) (v : RepositoryId) (i : InodeRow) : List NamespaceNodeRecord :=
  match db.dirents.filter fun d => d.volumeId = v ∧ d.childInode = i.inode with
  | [] => [checkpointNode i none]
  | entries => entries.map fun d => checkpointNode i (some d)

/-- INTERNAL: the live rows of a volume in the order of the query. -/
def liveRows (db : Db) (v : RepositoryId) : List InodeRow :=
  (db.inodes.filter fun i => i.volumeId = v ∧ i.unlinkPending = false).insertionSort
    fun i j => i.inode ≤ j.inode

theorem checkpointNodes_eq (db : Db) (v : RepositoryId) :
    checkpointNodes db v = (liveRows db v).flatMap (joinedNodes db v) := rfl

theorem mem_liveRows : i ∈ liveRows db v ↔ i ∈ db.inodes ∧ RowLive i v := by
  unfold liveRows
  rw [List.mem_insertionSort, List.mem_filter, decide_eq_true_eq]
  exact Iff.rfl

theorem joinedNodes_of_entry (h : Represents db v t) (hd : d ∈ Db.volumeDirents db v)
    (hchild : d.childInode = i.inode) : joinedNodes db v i = [checkpointNode i (some d)] := by
  have hfilter : (db.dirents.filter fun e => e.volumeId = v ∧ e.childInode = i.inode) =
      (Db.volumeDirents db v).filter fun e => e.childInode = i.inode := by
    unfold Db.volumeDirents
    rw [List.filter_filter]
    refine List.filter_congr fun e _ => ?_
    rw [Bool.decide_and, Bool.and_comm]
  have hnodup : (Db.volumeDirents db v).Nodup :=
    (nodup_map_key Dirent.childInode h.rows.children_distinct).of_map
  have hone : (Db.volumeDirents db v).filter (fun e => e.childInode = i.inode) = [d] := by
    refine eq_singleton_of_forall_eq (hnodup.filter _)
      (List.mem_filter.mpr ⟨hd, decide_eq_true hchild⟩) fun e he => ?_
    obtain ⟨hmem, hkey⟩ := List.mem_filter.mp he
    exact h.rows.eq_of_child hmem hd ((of_decide_eq_true hkey).trans hchild.symm)
  unfold joinedNodes
  rw [hfilter, hone]
  rfl

theorem joinedNodes_of_none (hnone : ∀ d ∈ Db.volumeDirents db v, d.childInode ≠ i.inode) :
    joinedNodes db v i = [checkpointNode i none] := by
  have hfilter : (db.dirents.filter fun e => e.volumeId = v ∧ e.childInode = i.inode) = [] := by
    rw [List.filter_eq_nil_iff]
    intro e he hkey
    have hkey := of_decide_eq_true hkey
    exact hnone e (List.mem_filter.mpr ⟨he, decide_eq_true hkey.1⟩) hkey.2
  unfold joinedNodes
  rw [hfilter]

/-- INTERNAL: the entry of an inode. -/
def entryOf (db : Db) (v : RepositoryId) (x : InodeId) : Option Dirent :=
  (Db.volumeDirents db v).find? fun d => d.childInode = x

theorem entryOf_eq_some (h : entryOf db v x = some d) :
    d ∈ Db.volumeDirents db v ∧ d.childInode = x := by
  have hkey := List.find?_some h
  exact ⟨List.mem_of_find?_eq_some h, of_decide_eq_true hkey⟩

theorem entryOf_eq_none (h : entryOf db v x = none) :
    ∀ d ∈ Db.volumeDirents db v, d.childInode ≠ x :=
  fun d hd hchild => List.find?_eq_none.mp h d hd (decide_eq_true hchild)

theorem checkpointNodes_eq_map (h : Represents db v t) :
    checkpointNodes db v =
      (liveRows db v).map fun i => checkpointNode i (entryOf db v i.inode) := by
  rw [checkpointNodes_eq, List.map_eq_flatMap]
  refine List.flatMap_congr fun i _ => ?_
  cases hentry : entryOf db v i.inode with
  | none => exact joinedNodes_of_none (entryOf_eq_none hentry)
  | some d =>
    obtain ⟨hd, hchild⟩ := entryOf_eq_some hentry
    exact joinedNodes_of_entry h hd hchild

theorem mem_checkpointNodes (h : Represents db v t) {node : NamespaceNodeRecord} :
    node ∈ checkpointNodes db v ↔
      ∃ i ∈ db.inodes, RowLive i v ∧ node = checkpointNode i (entryOf db v i.inode) := by
  rw [checkpointNodes_eq_map h, List.mem_map]
  constructor
  · rintro ⟨i, hi, rfl⟩
    obtain ⟨hmem, hlive⟩ := mem_liveRows.mp hi
    exact ⟨i, hmem, hlive, rfl⟩
  · rintro ⟨i, hmem, hlive, rfl⟩
    exact ⟨i, mem_liveRows.mpr ⟨hmem, hlive⟩, rfl⟩

theorem place_eq_entryOf (h : Represents db v t) (x : InodeId) :
    t.place x = (entryOf db v x).map fun d => (d.parentInode, d.foldedName) := by
  cases hentry : entryOf db v x with
  | some d =>
    obtain ⟨hd, rfl⟩ := entryOf_eq_some hentry
    exact h.rows.place_of_mem hd
  | none =>
    cases hplace : t.place x with
    | none => rfl
    | some q =>
      obtain ⟨d, hd, hchild, -⟩ := (h.rows.place_iff x q.1 q.2).mp hplace
      exact absurd hchild (entryOf_eq_none hentry d hd)

theorem liveRows_ordered (h : Represents db v t) :
    (liveRows db v).Pairwise fun i j => i.inode < j.inode := by
  unfold liveRows
  refine pairwise_lt_insertionSort InodeRow.inode ?_
  have hfilter : (db.inodes.filter fun i => i.volumeId = v ∧ i.unlinkPending = false) =
      (Db.volumeInodes db v).filter fun i => i.unlinkPending = false := by
    unfold Db.volumeInodes
    rw [List.filter_filter]
    refine List.filter_congr fun i _ => ?_
    rw [Bool.decide_and, Bool.and_comm]
  rw [hfilter]
  exact h.rows.rows_distinct.filter _

theorem foldedName_ne_nil (hupper : ∀ c, ext.toUppercase c ≠ []) {name folded : NameText}
    (h : foldName ext name = .ok folded) : folded ≠ [] := by
  obtain ⟨hne, -, rfl⟩ := foldName_ok h
  intro hnil
  cases name with
  | nil => exact hne rfl
  | cons c rest =>
    rw [List.flatMap_cons, List.append_eq_nil_iff] at hnil
    exact hupper c hnil.1

/-- INTERNAL: the nodes of a checkpoint are the tree of the volume. -/
theorem pictures_checkpointNodes (hupper : ∀ c, ext.toUppercase c ≠ []) (h : Represents db v t)
    (hrows : RowsFit ext db) : Pictures t (checkpointNodes db v) where
  ordered := by
    rw [checkpointNodes_eq_map h, List.pairwise_map]
    exact liveRows_ordered h
  complete := fun x directory hkind => by
    rw [h.rows.kind_eq x] at hkind
    cases hfind : (Db.volumeInodes db v).find? fun i => i.inode = x with
    | none =>
      rw [hfind] at hkind
      cases hkind
    | some i =>
      have hkey := List.find?_some hfind
      have hx : i.inode = x := of_decide_eq_true hkey
      obtain ⟨hmem, hvolume⟩ := List.mem_filter.mp (List.mem_of_find?_eq_some hfind)
      rw [hfind, rowKind_some] at hkind
      cases hpending : i.unlinkPending with
      | true =>
        rw [hpending] at hkind
        cases hkind
      | false =>
        rw [hpending] at hkind
        injection hkind with hdirectory
        exact ⟨_, (mem_checkpointNodes h).mpr ⟨i, hmem, ⟨of_decide_eq_true hvolume, hpending⟩, rfl⟩,
          hx, hdirectory⟩
  kind := fun node hnode => by
    obtain ⟨i, hmem, hlive, rfl⟩ := (mem_checkpointNodes h).mp hnode
    have hi : i ∈ Db.volumeInodes db v := List.mem_filter.mpr ⟨hmem, decide_eq_true hlive.1⟩
    change t.kind i.inode = _
    rw [h.rows.kind_of_mem hi, rowKind_some, hlive.2]
    rfl
  parent := fun node hnode => by
    obtain ⟨i, -, -, rfl⟩ := (mem_checkpointNodes h).mp hnode
    change (entryOf db v i.inode).map Dirent.parentInode = (t.place i.inode).map Prod.fst
    rw [place_eq_entryOf h, Option.map_map]
    rfl
  name := fun node hnode p n hplace => by
    obtain ⟨i, -, -, rfl⟩ := (mem_checkpointNodes h).mp hnode
    change t.place i.inode = _ at hplace
    rw [place_eq_entryOf h] at hplace
    obtain ⟨d, hentry, hd⟩ := Option.map_eq_some_iff.mp hplace
    cases hd
    have hmem := (List.mem_filter.mp (entryOf_eq_some hentry).1).1
    refine ⟨?_, foldedName_ne_nil hupper (hrows.names d hmem)⟩
    change ((entryOf db v i.inode).map Dirent.foldedName).getD [] = _
    rw [hentry]
    rfl
  rootName := fun node hnode hplace => by
    obtain ⟨i, -, -, rfl⟩ := (mem_checkpointNodes h).mp hnode
    change t.place i.inode = _ at hplace
    rw [place_eq_entryOf h, Option.map_eq_none_iff] at hplace
    change ((entryOf db v i.inode).map Dirent.foldedName).getD [] = _
    rw [hplace]
    rfl

/-! ## Writing and reading -/

theorem nodeFits_checkpointNodes (h : Represents db v t) (hrows : RowsFit ext db)
    (hnames : ∀ d ∈ db.dirents, d.volumeId = v → (utf8Bytes d.foldedName).length ≤ 1024) :
    ∀ node ∈ checkpointNodes db v, NodeFits node := by
  intro node hnode
  obtain ⟨i, hi, -, rfl⟩ := (mem_checkpointNodes h).mp hnode
  have hsize : i.size < 2 ^ 64 := by
    have hle := hrows.sizes i hi
    unfold i64Max at hle
    omega
  cases hentry : entryOf db v i.inode with
  | none => exact ⟨Nat.zero_le _, Nat.zero_le _, hsize⟩
  | some d =>
    obtain ⟨hmem, hvolume⟩ := List.mem_filter.mp (entryOf_eq_some hentry).1
    refine ⟨hnames d hmem (of_decide_eq_true hvolume), ?_, hsize⟩
    obtain ⟨-, hunits, -⟩ := foldName_ok (hrows.names d hmem)
    have hbytes := length_utf8Bytes_le d.displayName
    unfold maxNameUnits at hunits
    change (utf8Bytes d.displayName).length ≤ 1024
    omega

/-- INTERNAL: no checkpoint of the volume has the next sequence. -/
theorem checkpointSeq_le {c : CheckpointRow} (hc : c ∈ db.namespaceCheckpoints)
    (hvolume : c.volumeId = v) : c.checkpointSeq ≤ (currentDeltaSegment db v).1 := by
  have hmem : c ∈ db.namespaceCheckpoints.filter fun c => c.volumeId = v :=
    List.mem_filter.mpr ⟨hc, decide_eq_true hvolume⟩
  have hle := List.le_apply_get_maxOn?_of_mem (f := CheckpointRow.checkpointSeq) hmem
  obtain ⟨newest, hnewest⟩ := Option.isSome_iff_exists.mp
    (List.isSome_maxOn?_of_mem (f := CheckpointRow.checkpointSeq) hmem)
  unfold currentDeltaSegment
  simp only [hnewest, Option.get_some] at hle ⊢
  exact hle

/-- INTERNAL: the node has the columns of the row and of its entry; only the root has no
entry. -/
structure Describes (db : Db) (v : RepositoryId) (i : InodeRow) (node : NamespaceNodeRecord) :
    Prop where
  inode : node.inode = i.inode
  kind : node.directory = decide (i.kind = .directory)
  size : node.size = i.size
  versionRoot : node.versionRoot = i.versionRoot
  extentRoot : node.extentRoot = i.extentRoot
  entry : (∃ d ∈ db.dirents, d.volumeId = v ∧ d.childInode = i.inode ∧
      node.parent = some d.parentInode ∧ node.foldedName = d.foldedName ∧
      node.displayName = d.displayName) ∨
    (i.inode = rootInode v ∧ (∀ d ∈ db.dirents, d.volumeId = v → d.childInode ≠ i.inode) ∧
      node.parent = none ∧ node.foldedName = [] ∧ node.displayName = [])

theorem describes_checkpointNode (h : Represents db v t) (hi : i ∈ db.inodes)
    (hlive : RowLive i v) : Describes db v i (checkpointNode i (entryOf db v i.inode)) := by
  refine ⟨rfl, rfl, rfl, rfl, rfl, ?_⟩
  cases hentry : entryOf db v i.inode with
  | some d =>
    obtain ⟨hd, hchild⟩ := entryOf_eq_some hentry
    obtain ⟨hmem, hvolume⟩ := List.mem_filter.mp hd
    exact .inl ⟨d, hmem, of_decide_eq_true hvolume, hchild, rfl, rfl, rfl⟩
  | none =>
    refine .inr ⟨?_, fun d hd hvolume => ?_, rfl, rfl, rfl⟩
    · by_contra hne
      have hrow : i ∈ Db.volumeInodes db v := List.mem_filter.mpr ⟨hi, decide_eq_true hlive.1⟩
      have hkind : (t.kind i.inode).isSome := by
        rw [h.rows.kind_of_mem hrow, rowKind_some, hlive.2]
        rfl
      have hplaced := t.placed i.inode (by rw [h.root_eq]; exact hne) hkind
      rw [place_eq_entryOf h, hentry] at hplaced
      cases hplaced
    · exact entryOf_eq_none hentry d (List.mem_filter.mpr ⟨hd, decide_eq_true hvolume⟩)

theorem createCheckpoint_ok {r : (Nat × BitVec 256) × Db}
    (h : createCheckpoint ext v nowNs db = .ok r) :
    ∃ document,
      encodeCheckpoint ⟨v, (currentDeltaSegment db v).1.toNat + 1, none, checkpointNodes db v⟩ =
        .ok document ∧
      (((currentDeltaSegment db v).1.toNat + 1 : Nat) : Int) ≤ i64Max ∧
      r.1 = ((currentDeltaSegment db v).1.toNat + 1, ext.blake3 document) ∧
      r.2.namespaceCheckpoints = db.namespaceCheckpoints ++
        [⟨v, r.1.1, r.1.2, document, (checkpointNodes db v).length, nowNs⟩] := by
  unfold createCheckpoint at h
  rw [get_bind] at h
  obtain ⟨document, hencode, h⟩ := lift_bind_ok.mp h
  obtain ⟨hseq, h⟩ := demand_bind_ok.mp h
  obtain ⟨-, h⟩ := demand_bind_ok.mp h
  obtain ⟨-, h⟩ := demand_bind_ok.mp h
  replace h := modify_bind_ok.mp h
  cases pure_ok.mp h
  exact ⟨document, hencode, of_decide_eq_true hseq, rfl, rfl⟩

theorem createCheckpoint_succeeds {document : List UInt8}
    (hencode : encodeCheckpoint
      ⟨v, (currentDeltaSegment db v).1.toNat + 1, none, checkpointNodes db v⟩ = .ok document)
    (hseq : (currentDeltaSegment db v).1 < i64Max)
    (hcount : ((checkpointNodes db v).length : Int) ≤ i64Max) :
    Accepts (createCheckpoint ext v nowNs) db := by
  have hnext : (((currentDeltaSegment db v).1.toNat + 1 : Nat) : Int) ≤ i64Max := by
    unfold i64Max at hseq ⊢
    omega
  have hfresh : ∀ c ∈ db.namespaceCheckpoints,
      ¬ (c.volumeId = v ∧ c.checkpointSeq = ((currentDeltaSegment db v).1.toNat + 1 : Nat)) := by
    rintro c hc ⟨hvolume, hsame⟩
    have hle := checkpointSeq_le hc hvolume
    omega
  unfold createCheckpoint
  refine accepts_get_bind ?_
  refine accepts_after (lift_ok.mpr ⟨document, hencode, rfl⟩) ?_
  refine accepts_demand_bind (decide_eq_true hnext) ?_
  refine accepts_demand_bind (decide_eq_true hcount) ?_
  refine accepts_demand_bind ?_ ⟨_, rfl⟩
  exact List.all_eq_true.mpr fun c hc => decide_eq_true (hfresh c hc)

theorem decodeCheckpoint_ok {checkpoint : NamespaceCheckpoint}
    (hpictures : Pictures t checkpoint.nodes) (hfits : ∀ node ∈ checkpoint.nodes, NodeFits node)
    (hcount : checkpoint.nodes.length < 2 ^ 32) (hseq : checkpoint.checkpointSeq < 2 ^ 64)
    (hlength : (documentBytes checkpoint).length ≤ maxNamespaceDocumentBytes) :
    decodeCheckpoint (documentBytes checkpoint) = .ok checkpoint := by
  unfold decodeCheckpoint
  rw [readCheckpoint_ok hpictures.ordered hfits hcount hseq hlength]
  change (checkTree checkpoint.nodes >>= fun _ => pure checkpoint) = _
  rw [hpictures.checkTree]
  rfl

/-- INTERNAL: a volume whose folded names the reader accepts and whose document is within
the reader's bound is checkpointed, and the document gives back one node for each live
row, with its columns.
SRCLINE: mirage-db/src/namespace.rs:1817-1906, mirage-manifest/src/namespace.rs:138-425 -/
theorem checkpoint_brings_namespace_back (hupper : ∀ c, ext.toUppercase c ≠ [])
    (hrun : StoredRun ext db) (hvolume : Db.hasVolume db v)
    (hnames : ∀ d ∈ db.dirents, d.volumeId = v → (utf8Bytes d.foldedName).length ≤ 1024)
    (hlength : 37 + ((checkpointNodes db v).map nodeLength).sum ≤ maxNamespaceDocumentBytes)
    (nowNs : Int) :
    ((currentDeltaSegment db v).1 < i64Max → Accepts (createCheckpoint ext v nowNs) db) ∧
    ∀ checkpointSeq documentHash db',
      createCheckpoint ext v nowNs db = .ok ((checkpointSeq, documentHash), db') →
      ∃ document count checkpoint,
        db'.namespaceCheckpoints = db.namespaceCheckpoints ++
          [⟨v, checkpointSeq, documentHash, document, count, nowNs⟩] ∧
        decodeCheckpoint document = .ok checkpoint ∧
        checkpoint.volumeId = v ∧ checkpoint.checkpointSeq = checkpointSeq ∧
        (checkpoint.nodes.map NamespaceNodeRecord.inode).Nodup ∧
        (∀ i ∈ db.inodes, RowLive i v → ∃ node ∈ checkpoint.nodes, Describes db v i node) ∧
        ∀ node ∈ checkpoint.nodes, ∃ i ∈ db.inodes, RowLive i v ∧ Describes db v i node := by
  obtain ⟨hinv, hrows⟩ := storedRun_rows hrun
  obtain ⟨t, ht⟩ : ∃ t, Represents db v t := by
    rcases hinv v with ⟨-, ht⟩ | ⟨hnone, -⟩
    · exact ht
    · exact absurd hvolume hnone
  have hpictures := pictures_checkpointNodes hupper ht hrows
  have hfits := nodeFits_checkpointNodes ht hrows hnames
  have hcount : (checkpointNodes db v).length < 2 ^ 32 := by
    have hle := count_le_nodesBytes (checkpointNodes db v)
    rw [length_nodesBytes] at hle
    unfold minNodeBytes at hle
    unfold maxNamespaceDocumentBytes at hlength
    omega
  have hencode : encodeCheckpoint
      ⟨v, (currentDeltaSegment db v).1.toNat + 1, none, checkpointNodes db v⟩ =
        .ok (documentBytes
          ⟨v, (currentDeltaSegment db v).1.toNat + 1, none, checkpointNodes db v⟩) :=
    encodeCheckpoint_ok hpictures.ordered hfits hcount
  refine ⟨fun hseq => createCheckpoint_succeeds hencode hseq ?_, ?_⟩
  · unfold i64Max
    omega
  intro checkpointSeq documentHash db' hok
  obtain ⟨document, hdocument, hseq, hr, hstored⟩ := createCheckpoint_ok hok
  rw [hencode] at hdocument
  cases hdocument
  cases hr
  have hdecode : decodeCheckpoint (documentBytes
      ⟨v, (currentDeltaSegment db v).1.toNat + 1, none, checkpointNodes db v⟩) =
        .ok ⟨v, (currentDeltaSegment db v).1.toNat + 1, none, checkpointNodes db v⟩ := by
    refine decodeCheckpoint_ok hpictures hfits hcount ?_ ?_
    · unfold i64Max at hseq
      change (currentDeltaSegment db v).1.toNat + 1 < 2 ^ 64
      omega
    · rw [length_documentBytes]
      exact hlength
  refine ⟨_, _, _, hstored, hdecode, rfl, rfl, ?_, ?_, ?_⟩
  · exact nodup_map_key _ (hpictures.ordered.imp fun hlt heq => by
      rw [heq] at hlt
      exact BitVec.lt_irrefl _ hlt)
  · intro i hi hlive
    exact ⟨_, (mem_checkpointNodes ht).mpr ⟨i, hi, hlive, rfl⟩,
      describes_checkpointNode ht hi hlive⟩
  · intro node hnode
    obtain ⟨i, hi, hlive, rfl⟩ := (mem_checkpointNodes ht).mp hnode
    exact ⟨i, hi, hlive, describes_checkpointNode ht hi hlive⟩

theorem storedRun_commit (h : StoredRun ext db) (call : NamespaceCall)
    (hresolved : call.ParentsResolved ext db) :
    StoredRun ext (Txn.commit (call.transaction ext) db) := by
  unfold Txn.commit
  cases hok : call.transaction ext db with
  | error e => exact h
  | ok r => exact .step h call hresolved hok

/-- INTERNAL: the checkpoint of a root with the directory `a` is read back. -/
theorem directory_checkpoint_read_back :
    ∃ document checkpoint,
      (Txn.commit (createCheckpoint shortDigest 1 9) (movedFileDb 2)).namespaceCheckpoints.map
        CheckpointRow.document = [document] ∧
      decodeCheckpoint document = .ok checkpoint ∧
      ∀ i ∈ (movedFileDb 2).inodes, ∃ node ∈ checkpoint.nodes,
        Describes (movedFileDb 2) 1 i node := by
  have h₁ : StoredRun shortDigest (movedFileDb 1) :=
    storedRun_commit (.start rfl) (movedFileCall 0) trivial
  have h₂ : StoredRun shortDigest (movedFileDb 2) :=
    storedRun_commit h₁ (movedFileCall 1) (resolved_root_movedFileDb 1)
  obtain ⟨hwritten, hread⟩ := checkpoint_brings_namespace_back (v := 1)
    (fun c => List.cons_ne_nil _ _) h₂ (by unfold Db.hasVolume; decide +kernel)
    (by decide +kernel) (by decide +kernel) 9
  obtain ⟨⟨⟨checkpointSeq, documentHash⟩, db'⟩, hok⟩ := hwritten (by decide +kernel)
  obtain ⟨document, count, checkpoint, hstored, hdecode, -, -, -, hrows, -⟩ :=
    hread checkpointSeq documentHash db' hok
  have hlive : ∀ i ∈ (movedFileDb 2).inodes, i.volumeId = 1 ∧ i.unlinkPending = false := by
    decide +kernel
  refine ⟨document, checkpoint, ?_, hdecode, fun i hi => hrows i hi (hlive i hi)⟩
  have hnone : (movedFileDb 2).namespaceCheckpoints = [] := by decide +kernel
  rw [hnone] at hstored
  unfold Txn.commit
  rw [hok]
  change db'.namespaceCheckpoints.map _ = _
  rw [hstored]
  rfl

/-! ## A name whose upper case is longer -/

/-- INTERNAL: `shortDigest` with the upper case of U+0390, which has three characters. -/
def iotaUpper : Externals :=
  { shortDigest with
    toUppercase := fun c =>
      if c = Char.ofNat 0x390 then [Char.ofNat 0x399, Char.ofNat 0x308, Char.ofNat 0x301]
      else [c.toUpper] }

def longName : NameText := List.replicate 171 (Char.ofNat 0x390)

/-- INTERNAL: a volume, and a file of that name in its root. -/
def longNameCall : Nat → NamespaceCall
  | 0 => .createVolume 1 5
  | _ => .createNode 1 (rootInode 1) longName .file 6

def longNameDb : Nat → Db
  | 0 => Db.empty
  | n + 1 => Txn.commit ((longNameCall n).transaction iotaUpper) (longNameDb n)

/-- INTERNAL: the file is created and its checkpoint is written, and the reader refuses the
document. -/
theorem long_upper_case_is_not_read :
    StoredRun iotaUpper (longNameDb 2) ∧ Db.hasVolume (longNameDb 2) 1 ∧
    (longNameDb 2).dirents.map Dirent.displayName = [longName] ∧
    (Txn.commit (createCheckpoint iotaUpper 1 9) (longNameDb 2)).namespaceCheckpoints.map
        (fun c => decodeCheckpoint c.document) =
      [.error (.manifestInvalid "namespace name exceeds the component bound")] := by
  have h₁ : StoredRun iotaUpper (longNameDb 1) :=
    storedRun_commit (.start rfl) (longNameCall 0) trivial
  have h₂ : StoredRun iotaUpper (longNameDb 2) :=
    storedRun_commit h₁ (longNameCall 1) ⟨['/'], by decide +kernel⟩
  exact ⟨h₂, by unfold Db.hasVolume; decide +kernel, by decide +kernel, by decide +kernel⟩

end Mirage.Analysis
