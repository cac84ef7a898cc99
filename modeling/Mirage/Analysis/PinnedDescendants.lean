import Mirage.Analysis.NamespaceInvariant
import Mirage.Model.ByteFields

/-!
# Creating a node succeeds

The conditions under which `create_node_in` returns an entry, and the tables it leaves.
-/

set_option autoImplicit false

namespace Mirage.Analysis

open Mirage.Computation Mirage.Computation.Txn Mirage.Model Mirage.Interface

variable {ext : Externals} {db : Db} {v : RepositoryId}

/-- INTERNAL: the allocator of a volume moved on by one. -/
def advanced (v : RepositoryId) (sequence : Int) (volumes : List NamespaceVolume) :
    List NamespaceVolume :=
  volumes.map fun w =>
    if w.volumeId = v ∧ w.nextSequence = sequence then
      { w with nextSequence := w.nextSequence + 1 }
    else w

variable {sequence : Int} {y : InodeId} {k n : Nat}

theorem allocateInode_eq (hsequence : db.nextSequence v = some sequence)
    (hbound : sequence + 1 ≤ i64Max) :
    allocateInode ext v db = .ok (inodeOf ext v sequence,
      { db with namespaceVolumes := advanced v sequence db.namespaceVolumes }) := by
  unfold allocateInode
  refine get_bind_ok.mpr (orFail_bind_ok.mpr ⟨sequence, hsequence, ?_⟩)
  exact demand_bind_ok.mpr ⟨decide_eq_true hbound, rfl⟩

/-- INTERNAL: moving the allocator on keeps which volumes there are. -/
theorem nextSequence_advanced {w : RepositoryId} (h : (db.nextSequence w).isSome) :
    (Db.nextSequence { db with namespaceVolumes := advanced v sequence db.namespaceVolumes }
      w).isSome := by
  have hvolume : ∀ u : NamespaceVolume, decide ((if u.volumeId = v ∧ u.nextSequence = sequence
      then { u with nextSequence := u.nextSequence + 1 } else u).volumeId = w) =
      decide (u.volumeId = w) := by
    intro u
    split
    · rfl
    · rfl
  unfold Db.nextSequence at h ⊢
  rw [Option.isSome_map] at h ⊢
  unfold advanced
  rw [List.find?_map, Option.isSome_map]
  simpa only [Function.comp_def, hvolume] using h

theorem insertInode_eq {row : InodeRow} {context : String}
    (hfresh : db.inodeRow row.volumeId row.inode = none)
    (hvolume : (db.nextSequence row.volumeId).isSome) :
    insertInode row context db = .ok ((), { db with inodes := db.inodes ++ [row] }) := by
  unfold insertInode
  exact get_bind_ok.mpr (demand_bind_ok.mpr ⟨decide_eq_true ⟨hfresh, hvolume⟩, rfl⟩)

/-- INTERNAL: the first delta of a database without history. -/
theorem recordDelta_first {op : NamespaceOp} {nowNs : Int} {payload : List UInt8}
    (hcheckpoints : db.namespaceCheckpoints = []) (hdeltas : db.namespaceDeltas = [])
    (hencode : encodeDelta ⟨v, 0, 0, [op]⟩ = .ok payload) (hlength : payload.length ≤ 65536) :
    ∃ db', recordDelta ext v op nowNs db = .ok ((), db') ∧
      namespaceTables db' = namespaceTables db := by
  have haccepts : Accepts (recordDelta ext v op nowNs) db := by
    unfold recordDelta currentDeltaSegment
    refine accepts_get_bind ?_
    simp only [hcheckpoints, hdeltas, List.filter_nil, List.maxOn?_nil]
    refine accepts_demand_bind (by decide) (accepts_demand_bind (by decide) ?_)
    refine accepts_after (lift_ok.mpr ⟨payload, hencode, rfl⟩) ?_
    refine accepts_demand_bind (decide_eq_true hlength) (accepts_demand_bind (by decide) ?_)
    exact accepts_modify _ _
  obtain ⟨⟨_, db'⟩, hdelta⟩ := haccepts
  exact ⟨db', hdelta, recordDelta_ok hdelta⟩

/-- INTERNAL: the bytes of a delta that creates one node under a short name. -/
theorem encodeDelta_create {parent inode : InodeId} {name folded : NameText} {directory : Bool}
    {display key : List UInt8} (hname : Sink.text name = .ok display)
    (hfolded : Sink.text folded = .ok key) (hlength : display.length + key.length ≤ 65424) :
    ∃ payload, encodeDelta ⟨v, 0, 0, [.create parent inode name folded directory 0]⟩ =
      .ok payload ∧ payload.length ≤ 65536 := by
  refine ⟨_, by simp [encodeDelta, encodeOp, maxDeltaOps, hname, hfolded]; rfl, ?_⟩
  simp [Sink.byte, Sink.u32, Sink.u64, Sink.id128, Sink.id256]
  omega

/-- INTERNAL: what a request to create a node has to find. -/
structure Creatable (ext : Externals) (db : Db) (v : RepositoryId) (parent : InodeId)
    (name folded : NameText) (sequence : Int) : Prop where
  folds : foldName ext name = .ok folded
  directory : ∃ stat, db.inodeRow v parent = some stat ∧ stat.kind = .directory
  allocator : db.nextSequence v = some sequence
  bound : sequence + 1 ≤ i64Max
  fresh : db.inodeRow v (inodeOf ext v sequence) = none
  free : ∀ d ∈ db.dirents, ¬ d.hasKey v parent folded

/-- INTERNAL: a row that is there is still there behind another one. -/
theorem inodeRow_append {rows : List InodeRow} {x : InodeId}
    (h : (db.inodeRow v x).isSome) :
    (Db.inodeRow { db with inodes := db.inodes ++ rows } v x).isSome := by
  unfold Db.inodeRow at h ⊢
  rw [List.find?_append, Option.isSome_or, h, Bool.true_or]

/-- INTERNAL: the tables a creation leaves, where its delta can be recorded. -/
theorem createNodeIn_tables {parent : InodeId} {name folded : NameText} {kind : NamespaceNodeKind}
    {nowNs : Int} (h : Creatable ext db v parent name folded sequence)
    (hrecord : ∀ m : Db, m.namespaceCheckpoints = db.namespaceCheckpoints →
      m.namespaceDeltas = db.namespaceDeltas →
      ∃ m', recordDelta ext v (.create parent (inodeOf ext v sequence) name folded
        (kind = .directory) 0) nowNs m = .ok ((), m')) :
    ∃ e db', createNodeIn ext v parent name kind nowNs db = .ok (e, db') ∧
      namespaceTables db' = (advanced v sequence db.namespaceVolumes,
        db.inodes ++
          [⟨v, inodeOf ext v sequence, kind, 0, none, none, nowNs, nowNs, false⟩],
        db.dirents ++ [⟨v, parent, folded, name, inodeOf ext v sequence⟩]) := by
  obtain ⟨stat, hstat, hdirectory⟩ := h.directory
  let row : InodeRow := ⟨v, inodeOf ext v sequence, kind, 0, none, none, nowNs, nowNs, false⟩
  let allocated : Db := { db with namespaceVolumes := advanced v sequence db.namespaceVolumes }
  let inserted : Db := { allocated with inodes := db.inodes ++ [row] }
  let linked : Db := { inserted with
    dirents := db.dirents ++ [⟨v, parent, folded, name, inodeOf ext v sequence⟩] }
  have hvolume : (allocated.nextSequence v).isSome :=
    nextSequence_advanced (by rw [h.allocator]; rfl)
  have hinsert : insertInode row "namespace inode insert failed" allocated =
      .ok ((), inserted) := insertInode_eq h.fresh hvolume
  have hallocatedRow : (allocated.inodeRow v parent).isSome := by
    change (db.inodeRow v parent).isSome
    rw [hstat]
    rfl
  have hparentRow : (inserted.inodeRow v parent).isSome :=
    inodeRow_append hallocatedRow
  have hchildRow : (inserted.inodeRow v (inodeOf ext v sequence)).isSome := by
    change (List.find? _ (db.inodes ++ [row])).isSome
    rw [List.find?_append, Option.isSome_or]
    simp [row]
  obtain ⟨db', hdelta⟩ := hrecord linked rfl rfl
  refine ⟨⟨inodeOf ext v sequence, name, folded, kind, 0, nowNs, nowNs⟩, db', ?_,
    recordDelta_ok hdelta⟩
  unfold createNodeIn
  refine lift_bind_ok.mpr ⟨folded, h.folds, ?_⟩
  refine bind_ok.mpr ⟨db.inodeRow v parent, db, rfl, ?_⟩
  refine orFail_bind_ok.mpr ⟨stat, hstat, ?_⟩
  refine demand_bind_ok.mpr ⟨decide_eq_true hdirectory, ?_⟩
  refine bind_ok.mpr ⟨_, allocated, allocateInode_eq h.allocator h.bound, ?_⟩
  refine bind_ok.mpr ⟨(), inserted, hinsert, get_bind_ok.mpr ?_⟩
  refine demand_bind_ok.mpr ⟨decide_eq_true ⟨hparentRow, hchildRow⟩, ?_⟩
  refine demand_bind_ok.mpr ⟨List.all_eq_true.mpr fun d hd => decide_eq_true (h.free d hd), ?_⟩
  refine bind_ok.mpr ⟨(), linked, rfl, ?_⟩
  exact bind_ok.mpr ⟨(), db', hdelta, rfl⟩

/-!
## What a pin on a directory protects

The walk up from an inode looks at 128 nodes.  It misses exactly the pins that are 128 or more
directories above; nothing in `create_node` keeps a tree that shallow.
-/

/-- INTERNAL: `y` is `k` directory entries above `x`. -/
def Ascends (db : Db) (v : RepositoryId) : Nat → InodeId → InodeId → Prop
  | 0, x, y => x = y
  | k + 1, x, y => ∃ p, ParentLink db v x p ∧ Ascends db v k p y

theorem above_iff_ascends {x : InodeId} :
    Relation.ReflTransGen (ParentLink db v) x y ↔ ∃ k, Ascends db v k x y := by
  constructor
  · intro h
    induction h using Relation.ReflTransGen.head_induction_on with
    | refl => exact ⟨0, rfl⟩
    | head hlink _ ih =>
      obtain ⟨k, hk⟩ := ih
      exact ⟨k + 1, _, hlink, hk⟩
  · rintro ⟨k, hk⟩
    induction k generalizing x with
    | zero =>
      cases hk
      exact .refl
    | succ k ih =>
      obtain ⟨p, hlink, hp⟩ := hk
      exact .head hlink (ih hp)

/-- INTERNAL: the directory the walk goes to is the one that holds the entry. -/
theorem parentOf_iff_link (h : VolumeInv db v) {x p : InodeId} :
    db.parentOf v x = some p ↔ ParentLink db v x p := by
  constructor
  · intro hp
    unfold Db.parentOf at hp
    obtain ⟨d, hfind, rfl⟩ := Option.map_eq_some_iff.mp hp
    have hcond : d.volumeId = v ∧ d.childInode = x := by simpa using List.find?_some hfind
    exact ⟨d, List.mem_of_find?_eq_some hfind, hcond.1, hcond.2, rfl⟩
  · rintro ⟨d, hd, hv, rfl, rfl⟩
    have hmem : d ∈ Db.volumeDirents db v := List.mem_filter.mpr ⟨hd, by simpa using hv⟩
    obtain ⟨-, t, ht⟩ := h.represents_of_dirent hmem
    rw [parentOf_eq ht, ht.rows.place_of_mem hmem]
    rfl

/-- INTERNAL: a walk of `rounds` nodes finds the pins fewer than `rounds` entries above. -/
theorem pinHeldWalk_iff (h : VolumeInv db v) {rounds : Nat} {x : InodeId} :
    pinHeldWalk db v rounds x = true ↔
      ∃ k y, k < rounds ∧ Ascends db v k x y ∧ db.pinned v y = true := by
  induction rounds generalizing x with
  | zero => simp [pinHeldWalk]
  | succ rounds ih =>
    rw [pinHeldWalk]
    by_cases hpinned : db.pinned v x = true
    · rw [if_pos hpinned]
      exact ⟨fun _ => ⟨0, x, Nat.succ_pos rounds, rfl, hpinned⟩, fun _ => rfl⟩
    · rw [if_neg hpinned]
      constructor
      · intro hwalk
        cases hp : db.parentOf v x with
        | none =>
          rw [hp] at hwalk
          cases hwalk
        | some p =>
          rw [hp] at hwalk
          obtain ⟨k, y, hk, hy, hpin⟩ := ih.1 hwalk
          exact ⟨k + 1, y, Nat.succ_lt_succ hk, ⟨p, (parentOf_iff_link h).1 hp, hy⟩, hpin⟩
      · rintro ⟨k, y, hk, hy, hpin⟩
        cases k with
        | zero =>
          cases hy
          exact absurd hpin hpinned
        | succ k =>
          obtain ⟨p, hlink, hy⟩ := hy
          rw [(parentOf_iff_link h).2 hlink]
          exact ih.2 ⟨k, y, Nat.lt_of_succ_lt_succ hk, hy, hpin⟩

/-- INTERNAL: in every state of a run the answer is right exactly where a pin is at most 127
entries above the inode, or where no pin is above it at all.
SRCLINE: namespace.rs:1644-1673 -/
theorem pin_covers_descendants (hrun : NamespaceRun ext db) (x : InodeId) :
    (pinHeld db v x = true ↔
        ∃ y, Relation.ReflTransGen (ParentLink db v) x y ∧ db.pinned v y = true) ↔
      (∃ k y, k < 128 ∧ Ascends db v k x y ∧ db.pinned v y = true) ∨
        ∀ k y, Ascends db v k x y → db.pinned v y = false := by
  have habove : (∃ y, Relation.ReflTransGen (ParentLink db v) x y ∧ db.pinned v y = true) ↔
      ∃ k y, Ascends db v k x y ∧ db.pinned v y = true := by
    simp only [above_iff_ascends]
    exact ⟨fun ⟨y, ⟨k, hk⟩, hpin⟩ => ⟨k, y, hk, hpin⟩, fun ⟨k, y, hk, hpin⟩ => ⟨y, ⟨k, hk⟩, hpin⟩⟩
  unfold pinHeld
  rw [pinHeldWalk_iff (volumeInv_of_run hrun v), habove]
  constructor
  · intro hright
    by_cases hany : ∃ k y, Ascends db v k x y ∧ db.pinned v y = true
    · exact .inl (hright.mpr hany)
    · refine .inr fun k y hk => Bool.eq_false_iff.mpr fun hpin => ?_
      exact hany ⟨k, y, hk, hpin⟩
  · rintro (⟨k, y, hlt, hk, hpin⟩ | hnone)
    · exact iff_of_true ⟨k, y, hlt, hk, hpin⟩ ⟨k, y, hk, hpin⟩
    · refine iff_of_false ?_ ?_
      · rintro ⟨k, y, -, hk, hpin⟩
        exact absurd hpin (Bool.eq_false_iff.mp (hnone k y hk))
      · rintro ⟨k, y, hk, hpin⟩
        exact absurd hpin (Bool.eq_false_iff.mp (hnone k y hk))

/-! ## Directories nested 128 deep -/

/-- INTERNAL: an entry of a described volume is what its name is looked up to. -/
theorem entry_of_mem {t : NameTree InodeId NameText} (h : Represents db v t) {d : Dirent}
    (hd : d ∈ Db.volumeDirents db v) :
    ∃ e, db.entry v d.parentInode d.foldedName = some e ∧ e.inode = d.childInode := by
  obtain ⟨hmem, hv⟩ := List.mem_filter.mp hd
  have hrow : ∃ i, db.inodeRow v d.childInode = some i := by
    have hkind := t.child_kind _ _ _ (h.rows.place_of_mem hd)
    rw [h.rows.kind_eq, ← inodeRow_eq] at hkind
    cases hi : db.inodeRow v d.childInode with
    | none =>
      rw [hi] at hkind
      cases hkind
    | some i => exact ⟨i, rfl⟩
  obtain ⟨i, hi⟩ := hrow
  refine ⟨_, entry_of_unique hmem (of_decide_eq_true hv) hi fun e he hkey => ?_, rfl⟩
  have he' : e ∈ Db.volumeDirents db v := List.mem_filter.mpr ⟨he, decide_eq_true hkey.1⟩
  exact h.rows.eq_of_key he' hd hkey.2.1 hkey.2.2

/-- INTERNAL: the root of volume 1 and the inodes `shortDigest` gives after it. -/
def chainNode : Nat → InodeId
  | 0 => rootInode 1
  | k + 1 => firstNode + BitVec.ofNat 128 (2187 * k)

/-- INTERNAL: `n` directories named `a`, each in the one before. -/
def chainDb (n : Nat) : Db :=
  { Db.empty with
    namespaceVolumes := [⟨1, 1, rootInode 1, n + 1, 5⟩]
    inodes := (List.range (n + 1)).map fun k =>
      ⟨1, chainNode k, .directory, 0, none, none, 5, 5, false⟩
    dirents := (List.range n).map fun k => ⟨1, chainNode k, ['A'], ['a'], chainNode (k + 1)⟩ }

/-- INTERNAL: the request for one more directory. -/
def chainCall (n : Nat) : NamespaceCall := .createNode 1 (chainNode n) ['a'] .directory 5

theorem toNat_chainNode (hk : k < 200) :
    (chainNode (k + 1)).toNat = firstNode.toNat + 2187 * k := by
  have hfirst : firstNode.toNat < 2 ^ 127 := by decide
  unfold chainNode
  rw [BitVec.toNat_add, BitVec.toNat_ofNat]
  omega

theorem chainNode_ne_root (hk : k < 200) : chainNode (k + 1) ≠ chainNode 0 := by
  intro h
  have hnat := congrArg BitVec.toNat h
  rw [toNat_chainNode hk] at hnat
  have hfar : firstNode.toNat + 2187 * 200 < (chainNode 0).toNat := by decide
  omega

theorem chainNode_injective {j : Nat} (hj : j < 200) (hk : k < 200)
    (h : chainNode j = chainNode k) : j = k := by
  cases j with
  | zero =>
    cases k with
    | zero => rfl
    | succ k => exact absurd h.symm (chainNode_ne_root (Nat.lt_of_succ_lt hk))
  | succ j =>
    cases k with
    | zero => exact absurd h (chainNode_ne_root (Nat.lt_of_succ_lt hj))
    | succ k =>
      have hnat := congrArg BitVec.toNat h
      rw [toNat_chainNode (Nat.lt_of_succ_lt hj), toNat_chainNode (Nat.lt_of_succ_lt hk)] at hnat
      omega

theorem inodeOf_chain (n : Fin 128) :
    inodeOf shortDigest 1 ((n : Nat) + 1 : Int) = chainNode (n + 1) := by
  revert n
  decide +kernel

theorem inodeRow_chain (hn : n < 199) (hk : k ≤ n) :
    (chainDb n).inodeRow 1 (chainNode k) =
      some ⟨1, chainNode k, .directory, 0, none, none, 5, 5, false⟩ := by
  unfold Db.inodeRow chainDb
  rw [List.find?_map]
  have hfind : (List.range (n + 1)).find? (fun j => decide (chainNode j = chainNode k)) =
      some k := by
    rw [List.find?_range_eq_some]
    refine ⟨decide_eq_true rfl, List.mem_range.mpr (Nat.lt_succ_of_le hk), fun j hj => ?_⟩
    simp only [Bool.not_eq_true', decide_eq_false_iff_not]
    intro heq
    have := chainNode_injective (by omega) (by omega) heq
    omega
  simp only [Function.comp_def, true_and, hfind, Option.map_some]

theorem inodeRow_chain_none (hn : n < 199) : (chainDb n).inodeRow 1 (chainNode (n + 1)) = none := by
  unfold Db.inodeRow chainDb
  rw [List.find?_eq_none]
  intro i hi
  obtain ⟨k, hk, rfl⟩ := List.mem_map.mp hi
  have hkn := List.mem_range.mp hk
  simp only [true_and, decide_eq_true_eq]
  intro heq
  have := chainNode_injective (by omega) (by omega) heq
  omega

theorem creatable_chain (hn : n < 128) :
    Creatable shortDigest (chainDb n) 1 (chainNode n) ['a'] ['A'] ((n : Int) + 1) where
  folds := by decide
  directory := ⟨_, inodeRow_chain (by omega) le_rfl, rfl⟩
  allocator := rfl
  bound := by
    unfold i64Max
    omega
  fresh := by
    rw [inodeOf_chain ⟨n, hn⟩]
    exact inodeRow_chain_none (by omega)
  free := by
    intro d hd hkey
    obtain ⟨k, hk, rfl⟩ := List.mem_map.mp hd
    have hkn := List.mem_range.mp hk
    have := chainNode_injective (by omega) (by omega) hkey.2.1
    omega

theorem chainCall_tables (hn : n < 128) :
    ∃ db', (chainCall n).transaction shortDigest (chainDb n) = .ok ((), db') ∧
      namespaceTables db' = namespaceTables (chainDb (n + 1)) := by
  have hname : Sink.text ['a'] = .ok [1, 0, 0, 0, 97] := by decide
  have hfolded : Sink.text ['A'] = .ok [1, 0, 0, 0, 65] := by decide
  have hrecord : ∀ m : Db, m.namespaceCheckpoints = (chainDb n).namespaceCheckpoints →
      m.namespaceDeltas = (chainDb n).namespaceDeltas →
      ∃ m', recordDelta shortDigest 1 (.create (chainNode n)
        (inodeOf shortDigest 1 ((n : Int) + 1)) ['a'] ['A']
        (NamespaceNodeKind.directory = .directory) 0) 5 m = .ok ((), m') := by
    intro m hcheckpoints hdeltas
    obtain ⟨payload, hencode, hlength⟩ := encodeDelta_create hname hfolded (by decide)
    obtain ⟨m', hm, -⟩ := recordDelta_first hcheckpoints hdeltas hencode hlength
    exact ⟨m', hm⟩
  obtain ⟨e, db', hcreate, htables⟩ := createNodeIn_tables (creatable_chain hn) hrecord
  refine ⟨db', bind_ok.mpr ⟨e, db', hcreate, rfl⟩, ?_⟩
  rw [htables, inodeOf_chain ⟨n, hn⟩]
  unfold namespaceTables chainDb advanced
  simp [List.range_succ]

/-- INTERNAL: the directories of a chain are found one after another. -/
theorem resolveComponents_chain (hrun : NamespaceRun shortDigest (chainDb n)) {j : Nat}
    (h : k + j ≤ n) :
    resolveComponents shortDigest 1 (List.replicate j ['a']) (chainNode k) (chainDb n) =
      .ok (some (chainNode (k + j)), chainDb n) := by
  induction j generalizing k with
  | zero => rfl
  | succ j ih =>
    have hd : (⟨1, chainNode k, ['A'], ['a'], chainNode (k + 1)⟩ : Dirent) ∈
        Db.volumeDirents (chainDb n) 1 :=
      List.mem_filter.mpr ⟨List.mem_map.mpr ⟨k, List.mem_range.mpr (by omega), rfl⟩, rfl⟩
    obtain ⟨-, t, ht⟩ := (volumeInv_of_run hrun 1).represents_of_dirent hd
    obtain ⟨e, he, hinode⟩ := entry_of_mem ht hd
    have hlookup : lookup shortDigest 1 (chainNode k) ['a'] (chainDb n) =
        .ok (some e, chainDb n) := by
      unfold lookup
      refine lift_bind_ok.mpr ⟨['A'], by decide, get_bind_ok.mpr ?_⟩
      rw [he]
      rfl
    rw [List.replicate_succ, resolveComponents]
    refine bind_ok.mpr ⟨some e, chainDb n, hlookup, ?_⟩
    change resolveComponents shortDigest 1 (List.replicate j ['a']) e.inode (chainDb n) = _
    rw [hinode]
    have hrest := ih (k := k + 1) (by omega)
    rwa [show k + 1 + j = k + (j + 1) by omega] at hrest

/-- INTERNAL: the path of the last directory of a chain. -/
def chainPath (n : Nat) : NameText := (List.replicate n ['/', 'a']).flatten

theorem chainPath_components (n : Fin 128) :
    ((chainPath n).splitOn '/').filter (· ≠ []) = List.replicate n ['a'] := by
  revert n
  decide +kernel

theorem chain_run (hn : n ≤ 128) : NamespaceRun shortDigest (chainDb n) := by
  induction n with
  | zero =>
    have hcreate : (NamespaceCall.createVolume 1 5).transaction shortDigest Db.empty =
        .ok ((), chainDb 0) := by decide
    exact .step (.start rfl) (.createVolume 1 5) trivial hcreate
  | succ n ih =>
    have hrun := ih (by omega)
    obtain ⟨db', hcall, htables⟩ := chainCall_tables (show n < 128 by omega)
    have hresolved : Resolved shortDigest (chainDb n) 1 (chainNode n) := by
      refine ⟨chainPath n, ?_⟩
      unfold resolvePath
      rw [chainPath_components ⟨n, by omega⟩]
      have hlast := resolveComponents_chain hrun (j := n) (k := 0) (by omega)
      rwa [Nat.zero_add] at hlast
    exact .other (.step hrun (chainCall n) hresolved hcall) htables.symm

/-- INTERNAL: 128 nested directories with one pin. -/
def pinnedChain (x : InodeId) : Db := Txn.commit (pin 1 x 5) (chainDb 128)

variable {x : InodeId}

theorem ascends_chain (hk : k ≤ 128) : Ascends (pinnedChain x) 1 k (chainNode k) (chainNode 0) := by
  induction k with
  | zero => rfl
  | succ k ih =>
    refine ⟨chainNode k, ⟨⟨1, chainNode k, ['A'], ['a'], chainNode (k + 1)⟩, ?_, rfl, rfl, rfl⟩,
      ih (by omega)⟩
    exact List.mem_map.mpr ⟨k, List.mem_range.mpr (by omega), rfl⟩

/-- INTERNAL: and nothing else is above a directory of the chain. -/
theorem eq_of_ascends_chain {m : Nat} (hm : m ≤ 128)
    (h : Ascends (pinnedChain x) 1 k (chainNode m) y) : k ≤ m ∧ y = chainNode (m - k) := by
  induction k generalizing m with
  | zero => exact ⟨Nat.zero_le m, h.symm⟩
  | succ k ih =>
    obtain ⟨p, ⟨d, hd, -, hchild, rfl⟩, hrest⟩ := h
    obtain ⟨j, hj, rfl⟩ := List.mem_map.mp hd
    have hj' := List.mem_range.mp hj
    have hlast : j + 1 < 200 := by omega
    have hfirst : m < 200 := by omega
    obtain rfl := chainNode_injective hlast hfirst hchild
    obtain ⟨hk, rfl⟩ := ih (by omega) hrest
    refine ⟨Nat.succ_le_succ hk, ?_⟩
    rw [Nat.succ_sub_succ]

theorem pinned_chain_iff : (pinnedChain x).pinned 1 y = true ↔ y = x := by
  change decide (1 = 1 ∧ x = y) || false = true ↔ y = x
  simp [eq_comm]

theorem pinnedChain_run (x : InodeId) : NamespaceRun shortDigest (pinnedChain x) :=
  .other (chain_run le_rfl) rfl

/-- INTERNAL: the pin on the root holds the directory 127 levels below it, and a pin on the last
directory holds that one. -/
theorem pin_covers_level_127 :
    pinHeld (pinnedChain (chainNode 0)) 1 (chainNode 127) = true ∧
      pinHeld (pinnedChain (chainNode 128)) 1 (chainNode 128) = true := by
  constructor
  · refine ((pin_covers_descendants (pinnedChain_run _) (chainNode 127)).mpr (.inl ?_)).mpr ?_
    · exact ⟨127, chainNode 0, by decide, ascends_chain (by decide), pinned_chain_iff.mpr rfl⟩
    · exact ⟨chainNode 0, above_iff_ascends.2 ⟨127, ascends_chain (by decide)⟩,
        pinned_chain_iff.2 rfl⟩
  · refine ((pin_covers_descendants (pinnedChain_run _) (chainNode 128)).mpr (.inl ?_)).mpr ?_
    · exact ⟨0, chainNode 128, by decide, rfl, pinned_chain_iff.mpr rfl⟩
    · exact ⟨chainNode 128, .refl, pinned_chain_iff.2 rfl⟩

/-- INTERNAL: the pin on the root does not hold the directory 128 levels below it. -/
theorem pin_misses_level_128 :
    NamespaceRun shortDigest (pinnedChain (chainNode 0)) ∧
      (∃ y, Relation.ReflTransGen (ParentLink (pinnedChain (chainNode 0)) 1) (chainNode 128) y ∧
        (pinnedChain (chainNode 0)).pinned 1 y = true) ∧
      pinHeld (pinnedChain (chainNode 0)) 1 (chainNode 128) = false := by
  refine ⟨pinnedChain_run _, ⟨chainNode 0, above_iff_ascends.2 ⟨128, ascends_chain le_rfl⟩,
    pinned_chain_iff.2 rfl⟩, Bool.eq_false_iff.2 fun hheld => ?_⟩
  obtain ⟨k, y, hk, hy, hpin⟩ := (pinHeldWalk_iff (volumeInv_of_run (pinnedChain_run _) 1)).1 hheld
  obtain ⟨-, rfl⟩ := eq_of_ascends_chain le_rfl hy
  have := chainNode_injective (by omega) (by decide) (pinned_chain_iff.1 hpin)
  omega

end Mirage.Analysis
