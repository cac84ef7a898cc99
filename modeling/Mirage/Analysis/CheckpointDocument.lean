import Mathlib.Algebra.Order.BigOperators.Group.List
import Mirage.Computation.Bisect
import Mirage.Computation.NameTree
import Mirage.Model.NamespaceCheckpoint

/-!
# Checkpoint documents and the trees they picture

`Pictures t nodes` says that the records are the nodes of an abstract tree, each with its
place.  The fields of the tree then answer the checks of the reader one by one: parents
are directories of the document, one node has none, siblings have different names, and a
node is less deep than there are nodes.
-/

set_option autoImplicit false

namespace Mirage.Analysis

open Mirage.Model Mirage.Computation Mirage.Computation.Txn

/-- INTERNAL: the records are the nodes of the tree. -/
structure Pictures (t : NameTree InodeId NameText) (nodes : List NamespaceNodeRecord) : Prop where
  ordered : nodes.Pairwise fun a b => a.inode < b.inode
  complete : ∀ x directory, t.kind x = some directory →
    ∃ node ∈ nodes, node.inode = x ∧ node.directory = directory
  kind : ∀ node ∈ nodes, t.kind node.inode = some node.directory
  parent : ∀ node ∈ nodes, node.parent = (t.place node.inode).map Prod.fst
  name : ∀ node ∈ nodes, ∀ p n, t.place node.inode = some (p, n) →
    node.foldedName = n ∧ n ≠ []
  rootName : ∀ node ∈ nodes, t.place node.inode = none → node.foldedName = []

section Checks

variable {t : NameTree InodeId NameText} {nodes : List NamespaceNodeRecord}

/-- INTERNAL: one record for each inode. -/
theorem eq_of_inode (h : nodes.Pairwise fun a b => a.inode < b.inode) {a b : NamespaceNodeRecord}
    (ha : a ∈ nodes) (hb : b ∈ nodes) (hab : a.inode = b.inode) : a = b := by
  by_contra hne
  have hdistinct : nodes.Pairwise fun a b => a.inode ≠ b.inode := by
    refine h.imp fun {a b} hlt heq => ?_
    rw [heq] at hlt
    exact BitVec.lt_irrefl _ hlt
  have hsymm : Std.Symm fun a b : NamespaceNodeRecord => a.inode ≠ b.inode := ⟨fun _ _ => Ne.symm⟩
  exact hdistinct.forall ha hb hne hab

variable {node : NamespaceNodeRecord}

theorem Pictures.nodeOf (h : Pictures t nodes) (hnode : node ∈ nodes) :
    nodeOf nodes node.inode = some node := by
  unfold Model.nodeOf
  cases hfind : nodes.find? fun other => other.inode = node.inode with
  | none =>
    have := List.find?_eq_none.mp hfind node hnode
    exact absurd (decide_eq_true rfl) this
  | some other =>
    have hsame : other.inode = node.inode := by simpa using List.find?_some hfind
    rw [eq_of_inode h.ordered (List.mem_of_find?_eq_some hfind) hnode hsame]

/-- INTERNAL: the record of the directory that holds a node. -/
theorem Pictures.parentNode (h : Pictures t nodes) (hnode : node ∈ nodes) {p : InodeId}
    (hp : node.parent = some p) :
    ∃ n parentNode, t.place node.inode = some (p, n) ∧ parentNode ∈ nodes ∧
      Model.nodeOf nodes p = some parentNode ∧ parentNode.inode = p ∧
      parentNode.directory = true := by
  rw [h.parent node hnode] at hp
  obtain ⟨⟨q, n⟩, hplace, rfl⟩ := Option.map_eq_some_iff.mp hp
  obtain ⟨parentNode, hmem, rfl, hdir⟩ := h.complete _ true (t.parent_kind _ _ n hplace)
  exact ⟨n, parentNode, hplace, hmem, h.nodeOf hmem, rfl, hdir⟩

theorem Pictures.root (h : Pictures t nodes) (hnode : node ∈ nodes) :
    node.parent = none ↔ node.inode = t.root := by
  rw [h.parent node hnode, Option.map_eq_none_iff]
  constructor
  · intro hplace
    by_contra hne
    have hkind : (t.kind node.inode).isSome := by
      rw [h.kind node hnode]
      rfl
    have hplaced := t.placed _ hne hkind
    rw [hplace] at hplaced
    cases hplaced
  · intro hroot
    rw [hroot]
    exact t.root_place

theorem Pictures.checkParent (h : Pictures t nodes) (hnode : node ∈ nodes) :
    checkParent nodes node = .ok () := by
  unfold Model.checkParent
  cases hp : node.parent with
  | none =>
    have hkind := h.kind node hnode
    rw [(h.root hnode).mp hp, t.root_kind] at hkind
    injection hkind with hdir
    simp only [← hdir, if_true]
  | some p =>
    obtain ⟨n, parentNode, hplace, -, hknown, -, hdir⟩ := h.parentNode hnode hp
    have hne : p ≠ node.inode := NameTree.place_ne_self hplace
    simp only [if_neg hne, hknown, hdir, if_true]

theorem Pictures.one_root (h : Pictures t nodes) :
    nodes.countP (fun node => node.parent.isNone) = 1 := by
  obtain ⟨root, hmem, hinode, -⟩ := h.complete t.root true t.root_kind
  have hiff : ∀ node ∈ nodes, (node.parent.isNone = true ↔ (node == root) = true) := by
    intro node hnode
    rw [Option.isNone_iff_eq_none, h.root hnode, beq_iff_eq]
    constructor
    · intro hroot
      exact eq_of_inode h.ordered hnode hmem (hroot.trans hinode.symm)
    · rintro rfl
      exact hinode
  rw [List.countP_congr hiff]
  have hnodup : nodes.Nodup := by
    refine h.ordered.imp fun {a b} hlt heq => ?_
    rw [heq] at hlt
    exact BitVec.lt_irrefl _ hlt
  exact List.count_eq_one_of_mem hnodup hmem

theorem Pictures.siblings (h : Pictures t nodes) : (nodes.map siblingKey).Nodup := by
  rw [List.Nodup, List.pairwise_map]
  -- two nodes with one key are one node, so their inodes are not in strict order
  refine h.ordered.imp_of_mem fun {a b} ha hb hlt hkey => ?_
  have hparent : a.parent.getD 0 = b.parent.getD 0 := congrArg Prod.fst hkey
  have hname : a.foldedName = b.foldedName := congrArg Prod.snd hkey
  have hsame : a.inode = b.inode := by
    cases hpa : t.place a.inode with
    | none =>
      have hempty := h.rootName a ha hpa
      cases hpb : t.place b.inode with
      | none =>
        have hra := (h.root ha).mp (by rw [h.parent a ha, hpa]; rfl)
        have hrb := (h.root hb).mp (by rw [h.parent b hb, hpb]; rfl)
        rw [hra, hrb]
      | some q =>
        obtain ⟨hb', hne⟩ := h.name b hb q.1 q.2 hpb
        rw [← hb', ← hname] at hne
        exact absurd hempty hne
    | some q =>
      obtain ⟨ha', hne⟩ := h.name a ha q.1 q.2 hpa
      cases hpb : t.place b.inode with
      | none =>
        have hempty := h.rootName b hb hpb
        rw [← hname, ha'] at hempty
        exact absurd hempty hne
      | some r =>
        obtain ⟨hb', -⟩ := h.name b hb r.1 r.2 hpb
        rw [h.parent a ha, h.parent b hb, hpa, hpb] at hparent
        have hqr : q = r := Prod.ext hparent (ha'.symm.trans (hname.trans hb'))
        rw [← hqr] at hpb
        exact t.name_unique _ _ q hpa hpb
  rw [hsame] at hlt
  exact BitVec.lt_irrefl _ hlt

/-- INTERNAL: the walk from a node of depth `k` ends after `k` hops. -/
theorem Pictures.climbs (h : Pictures t nodes) {k left : Nat} (hnode : node ∈ nodes)
    (hdepth : t.Depth k node.inode) (hleft : k < left) : climbs nodes left node = true := by
  induction k generalizing node left with
  | zero =>
    obtain ⟨left, rfl⟩ : ∃ n, left = n + 1 := ⟨left - 1, by omega⟩
    have hroot : node.inode = t.root := by
      generalize node.inode = x at hdepth
      cases hdepth
      rfl
    have hparent := (h.root hnode).mpr hroot
    unfold Model.climbs
    rw [hparent]
  | succ k ih =>
    obtain ⟨left, rfl⟩ : ∃ n, left = n + 1 := ⟨left - 1, by omega⟩
    cases hdepth with
    | up hplace hp =>
      rename_i p n
      have hparent : node.parent = some p := by
        rw [h.parent node hnode, hplace]
        rfl
      obtain ⟨-, parentNode, -, hmem, hknown, hinode, -⟩ := h.parentNode hnode hparent
      unfold Model.climbs
      simp only [hparent, hknown]
      refine ih hmem ?_ (by omega)
      rw [hinode]
      exact hp

theorem Pictures.checkTree (h : Pictures t nodes) : checkTree nodes = .ok () := by
  have hparents : nodes.forM (Model.checkParent nodes) = .ok () :=
    forM_ok.mpr fun node hnode => h.checkParent hnode
  have hclimbs : nodes.all (Model.climbs nodes nodes.length) = true := by
    rw [List.all_eq_true]
    intro node hnode
    have hkind : (t.kind node.inode).isSome := by
      rw [h.kind node hnode]
      rfl
    obtain ⟨k, hk⟩ := NameTree.exists_depth hkind
    have hbound : k < (nodes.map NamespaceNodeRecord.inode).length := by
      refine hk.lt_length fun y hy => ?_
      obtain ⟨directory, hd⟩ := Option.isSome_iff_exists.mp hy
      obtain ⟨other, hother, rfl, -⟩ := h.complete y directory hd
      exact List.mem_map_of_mem hother
    rw [List.length_map] at hbound
    exact h.climbs hnode hk hbound
  unfold Model.checkTree
  rw [hparents]
  simp only [h.one_root, h.siblings, hclimbs, ne_eq, not_true, if_false]
  rfl

end Checks

/-!
## Reading a checkpoint document back

Each field that the sink writes is read back by the cursor, and so is a node and the loop
over the nodes.  Two bounds stand only on the reading side: a name of more than 1024 bytes
and a document of more than 512 MiB are written and not read.
-/

/-! ## Numbers and identifiers -/

theorem reads_byte (value : UInt8) : Decodes Cursor.byte (Sink.byte value) value :=
  reads_bind_pure (reads_takeTokens rfl) rfl

theorem reads_u32 {value : Nat} (h : value < 2 ^ 32) :
    Decodes Cursor.u32 (Sink.u32 value) value := by
  refine reads_bind_pure (reads_takeTokens (length_leBytes 4 value)) ?_
  rw [Sink.u32, fromLeBytes_leBytes (by omega)]

theorem reads_u64 {value : Nat} (h : value < 2 ^ 64) :
    Decodes Cursor.u64 (Sink.u64 value) value := by
  refine reads_bind_pure (reads_takeTokens (length_leBytes 8 value)) ?_
  rw [Sink.u64, fromLeBytes_leBytes (by omega)]

theorem reads_id128 (value : BitVec 128) : Decodes Cursor.id128 (Sink.id128 value) value := by
  refine reads_bind_pure (reads_takeTokens (length_beBytes 16 _)) ?_
  exact congrArg pure (idOfBytes_idBytes value)

theorem reads_id256 (value : BitVec 256) : Decodes Cursor.id256 (Sink.id256 value) value := by
  refine reads_bind_pure (reads_takeTokens (length_beBytes 32 _)) ?_
  exact congrArg pure (hashOfBytes_hashBytes value)

theorem reads_opt {α : Type} {value : Cursor α} {message : String} {bytes : List UInt8} {a : α}
    (h : Decodes value bytes a) :
    Decodes (Cursor.opt value message) (Sink.byte 1 ++ bytes) (some a) :=
  reads_bind (reads_byte 1) (reads_bind_pure h rfl)

theorem reads_opt_none {α : Type} (value : Cursor α) (message : String) :
    Decodes (Cursor.opt value message) (Sink.byte 0) none :=
  reads_bind_pure (reads_byte 0) rfl

theorem reads_opt16 (value : Option InodeId) : Decodes Cursor.opt16 (Sink.opt16 value) value := by
  cases value with
  | none => exact reads_opt_none _ _
  | some inode => exact reads_opt (reads_id128 inode)

theorem reads_opt32 (message : String) (value : Option (BitVec 256)) :
    Decodes (Cursor.opt Cursor.id256 message) (Sink.opt32 value) value := by
  cases value with
  | none => exact reads_opt_none _ _
  | some digest => exact reads_opt (reads_id256 digest)

/-! ## Names -/

/-- INTERNAL: the reader's bound is far below the writer's. -/
theorem text_ok {name : NameText} (h : (utf8Bytes name).length ≤ 1024) :
    Sink.text name = .ok (Sink.u32 (utf8Bytes name).length ++ utf8Bytes name) := by
  unfold Sink.text
  simp only
  rw [if_pos]
  · rfl
  · change (utf8Bytes name).length < _
    omega

theorem reads_text {name : NameText} (h : (utf8Bytes name).length ≤ 1024) :
    Decodes Cursor.text (Sink.u32 (utf8Bytes name).length ++ utf8Bytes name) name := by
  refine reads_bind (reads_u32 (by omega)) ?_
  refine reads_demand_bind (decide_eq_true h) ?_
  intro rest
  refine bind_ok.mpr ⟨utf8Bytes name, rest, reads_takeTokens rfl rest, ?_⟩
  exact orFail_ok.mpr ⟨name, fromUtf8_utf8Bytes name, rfl⟩

/-! ## Nodes -/

/-- INTERNAL: the reader accepts the fields of the node. -/
structure NodeFits (node : NamespaceNodeRecord) : Prop where
  folded : (utf8Bytes node.foldedName).length ≤ 1024
  display : (utf8Bytes node.displayName).length ≤ 1024
  size : node.size < 2 ^ 64

/-- INTERNAL: the bytes of a node behind its inode. -/
def nodeTail (node : NamespaceNodeRecord) : List UInt8 :=
  Sink.opt16 node.parent ++
    ((Sink.u32 (utf8Bytes node.foldedName).length ++ utf8Bytes node.foldedName) ++
      ((Sink.u32 (utf8Bytes node.displayName).length ++ utf8Bytes node.displayName) ++
        (Sink.byte (if node.directory then 1 else 0) ++ (Sink.u64 node.size ++
          (Sink.opt32 node.versionRoot ++ Sink.opt32 node.extentRoot)))))

theorem encodeNode_ok {node : NamespaceNodeRecord} (h : NodeFits node) :
    encodeNode node = .ok (Sink.id128 node.inode ++ nodeTail node) := by
  unfold encodeNode
  rw [text_ok h.folded, text_ok h.display]
  rfl

theorem reads_kind (directory : Bool) :
    Decodes readKind (Sink.byte (if directory then 1 else 0)) directory := by
  cases directory with
  | false => exact reads_bind_pure (reads_byte 0) rfl
  | true => exact reads_bind_pure (reads_byte 1) rfl

theorem reads_node {node : NamespaceNodeRecord} (h : NodeFits node) :
    Decodes (readNode node.inode) (nodeTail node) node := by
  refine reads_bind (reads_opt16 node.parent) ?_
  refine reads_bind (reads_text h.folded) ?_
  refine reads_bind (reads_text h.display) ?_
  refine reads_bind (reads_kind node.directory) ?_
  refine reads_bind (reads_u64 h.size) ?_
  refine reads_bind (reads_opt32 _ node.versionRoot) ?_
  exact reads_bind_pure (reads_opt32 _ node.extentRoot) rfl

/-- INTERNAL: the bytes of the nodes. -/
def nodesBytes (nodes : List NamespaceNodeRecord) : List UInt8 :=
  nodes.flatMap fun node => Sink.id128 node.inode ++ nodeTail node

variable {nodes : List NamespaceNodeRecord}

theorem encodeNodes_ok (h : ∀ node ∈ nodes, NodeFits node) :
    ∃ encoded, nodes.mapM encodeNode = .ok encoded ∧ encoded.flatten = nodesBytes nodes := by
  refine ⟨nodes.map fun node => Sink.id128 node.inode ++ nodeTail node, ?_, ?_⟩
  · induction nodes with
    | nil => rfl
    | cons node rest ih =>
      rw [List.mapM_cons, encodeNode_ok (h node List.mem_cons_self),
        ih fun n hn => h n (List.mem_cons_of_mem node hn)]
      rfl
  · unfold nodesBytes
    rw [List.flatMap_def]

/-- INTERNAL: the loop reads nodes in strict order. -/
theorem reads_nodes {previous : Option InodeId} (hfits : ∀ node ∈ nodes, NodeFits node)
    (horder : nodes.Pairwise fun a b => a.inode < b.inode)
    (hprevious : ∀ last ∈ previous, ∀ node ∈ nodes, last < node.inode) :
    Decodes (readNodes nodes.length previous) (nodesBytes nodes) nodes := by
  induction nodes generalizing previous with
  | nil => exact reads_pure []
  | cons node rest ih =>
    rw [List.pairwise_cons] at horder
    have hafter : ∀ last ∈ some node.inode, ∀ n ∈ rest, last < n.inode := by
      intro last hlast n hn
      cases hlast
      exact horder.1 n hn
    have hrest := ih (fun n hn => hfits n (List.mem_cons_of_mem node hn)) horder.2 hafter
    change Decodes _ ((Sink.id128 node.inode ++ nodeTail node) ++ nodesBytes rest) _
    rw [List.append_assoc]
    refine reads_bind (reads_id128 node.inode) ?_
    refine reads_demand_bind ?_ ?_
    · rw [Option.all_eq_true]
      exact fun last hlast =>
        decide_eq_true (hprevious last hlast node List.mem_cons_self)
    · exact reads_bind (reads_node (hfits node List.mem_cons_self)) (reads_bind_pure hrest rfl)

theorem length_opt16 (value : Option InodeId) :
    (Sink.opt16 value).length = if value.isSome then 17 else 1 := by
  cases value with
  | none => rfl
  | some inode =>
    change ([(1 : UInt8)] ++ Sink.id128 inode).length = 17
    rw [List.length_append, Sink.id128, length_beBytes]
    rfl

theorem length_opt32 (value : Option (BitVec 256)) :
    (Sink.opt32 value).length = if value.isSome then 33 else 1 := by
  cases value with
  | none => rfl
  | some digest =>
    change ([(1 : UInt8)] ++ Sink.id256 digest).length = 33
    rw [List.length_append, Sink.id256, length_beBytes]
    rfl

/-- INTERNAL: the number of bytes of a node. -/
def nodeLength (node : NamespaceNodeRecord) : Nat :=
  16 + (if node.parent.isSome then 17 else 1) + (4 + (utf8Bytes node.foldedName).length) +
    (4 + (utf8Bytes node.displayName).length) + 1 + 8 +
    (if node.versionRoot.isSome then 33 else 1) + (if node.extentRoot.isSome then 33 else 1)

theorem length_node (node : NamespaceNodeRecord) :
    (Sink.id128 node.inode ++ nodeTail node).length = nodeLength node := by
  have hinode : (Sink.id128 node.inode).length = 16 := length_beBytes 16 _
  have hkind : (Sink.byte (if node.directory then 1 else 0)).length = 1 := rfl
  unfold nodeTail nodeLength
  simp only [List.length_append, hinode, hkind, Sink.u32, Sink.u64, length_leBytes,
    length_opt16, length_opt32]
  omega

theorem length_nodesBytes (nodes : List NamespaceNodeRecord) :
    (nodesBytes nodes).length = (nodes.map nodeLength).sum := by
  unfold nodesBytes
  rw [List.length_flatMap]
  exact congrArg List.sum (List.map_congr_left fun node _ => length_node node)

/-- INTERNAL: the claimed count is covered by the bytes left. -/
theorem count_le_nodesBytes (nodes : List NamespaceNodeRecord) :
    nodes.length * minNodeBytes ≤ (nodesBytes nodes).length := by
  have hmin : ∀ n ∈ nodes.map nodeLength, minNodeBytes ≤ n := by
    intro n hn
    obtain ⟨node, -, rfl⟩ := List.mem_map.mp hn
    unfold minNodeBytes nodeLength
    split_ifs
    all_goals omega
  have hsum := List.card_nsmul_le_sum (nodes.map nodeLength) minNodeBytes hmin
  rw [List.length_map, Nat.nsmul_eq_mul] at hsum
  rw [length_nodesBytes]
  exact hsum

/-! ## Documents -/

/-- INTERNAL: the bytes of a document. -/
def documentBytes (checkpoint : NamespaceCheckpoint) : List UInt8 :=
  checkpointMagic ++ (Sink.u32 1 ++ (Sink.id128 checkpoint.volumeId ++
    (Sink.u64 checkpoint.checkpointSeq ++ (Sink.opt32 checkpoint.parentCommit ++
      (Sink.u32 checkpoint.nodes.length ++ nodesBytes checkpoint.nodes)))))

theorem length_documentBytes (volumeId : RepositoryId) (checkpointSeq : Nat)
    (nodes : List NamespaceNodeRecord) :
    (documentBytes ⟨volumeId, checkpointSeq, none, nodes⟩).length =
      37 + (nodes.map nodeLength).sum := by
  have hmagic : checkpointMagic.length = 4 := rfl
  have hvolume : (Sink.id128 volumeId).length = 16 := length_beBytes 16 _
  have hcommit : (Sink.opt32 none).length = 1 := rfl
  unfold documentBytes
  simp only [List.length_append, hmagic, hvolume, hcommit, Sink.u32, Sink.u64, length_leBytes,
    length_nodesBytes]
  omega

theorem sortNodes_of_ordered (h : nodes.Pairwise fun a b => a.inode < b.inode) :
    sortNodes nodes = nodes :=
  insertionSort_eq_of_perm _ h (.refl _)

/-- INTERNAL: a checkpoint with its nodes in order is written as it is. -/
theorem encodeCheckpoint_ok {checkpoint : NamespaceCheckpoint}
    (horder : checkpoint.nodes.Pairwise fun a b => a.inode < b.inode)
    (hfits : ∀ node ∈ checkpoint.nodes, NodeFits node)
    (hcount : checkpoint.nodes.length < 2 ^ 32) :
    encodeCheckpoint checkpoint = .ok (documentBytes checkpoint) := by
  obtain ⟨encoded, hencoded, hflat⟩ := encodeNodes_ok hfits
  have hduplicate : ((checkpoint.nodes.zip checkpoint.nodes.tail).any fun pair =>
      pair.1.inode = pair.2.inode) = false := by
    rw [List.any_eq_false]
    intro pair hpair hc
    have hlt : pair.1.inode < pair.2.inode := pairwise_zip_tail horder pair hpair
    rw [of_decide_eq_true hc] at hlt
    exact absurd hlt (BitVec.lt_irrefl _)
  unfold encodeCheckpoint
  simp only [sortNodes_of_ordered horder, hduplicate, Bool.false_eq_true, if_false,
    if_neg (Nat.not_le.mpr hcount), hencoded]
  change Except.ok _ = _
  rw [hflat]
  rfl

/-- INTERNAL: a document within the reader's bound is read back. -/
theorem readCheckpoint_ok {checkpoint : NamespaceCheckpoint}
    (horder : checkpoint.nodes.Pairwise fun a b => a.inode < b.inode)
    (hfits : ∀ node ∈ checkpoint.nodes, NodeFits node)
    (hcount : checkpoint.nodes.length < 2 ^ 32) (hseq : checkpoint.checkpointSeq < 2 ^ 64)
    (hlength : (documentBytes checkpoint).length ≤ maxNamespaceDocumentBytes) :
    readCheckpoint (documentBytes checkpoint) = .ok (checkpoint, []) := by
  have hmagic : ∀ rest, (checkpointMagic ++ (Sink.u32 1 ++ rest)).length ≤
      maxNamespaceDocumentBytes →
      checkMagic checkpointMagic maxNamespaceDocumentBytes
        (checkpointMagic ++ (Sink.u32 1 ++ rest)) = .ok ((), rest) := by
    intro rest hrest
    unfold checkMagic
    rw [get_bind]
    refine demand_bind_ok.mpr ⟨decide_eq_true hrest, ?_⟩
    refine bind_ok.mpr ⟨checkpointMagic, Sink.u32 1 ++ rest, reads_takeTokens rfl _, ?_⟩
    refine demand_bind_ok.mpr ⟨decide_eq_true rfl, ?_⟩
    refine bind_ok.mpr ⟨1, rest, reads_u32 (by decide) rest, ?_⟩
    exact demand_ok.mpr ⟨rfl, rfl⟩
  unfold readCheckpoint
  refine bind_ok.mpr ⟨(), _, hmagic _ hlength, ?_⟩
  refine bind_ok.mpr ⟨_, _, reads_id128 checkpoint.volumeId _, ?_⟩
  refine bind_ok.mpr ⟨_, _, reads_u64 hseq _, ?_⟩
  refine bind_ok.mpr ⟨_, _, reads_opt32 _ checkpoint.parentCommit _, ?_⟩
  refine bind_ok.mpr ⟨_, _, reads_u32 hcount _, ?_⟩
  rw [get_bind]
  refine demand_bind_ok.mpr ⟨decide_eq_true (count_le_nodesBytes checkpoint.nodes), ?_⟩
  have hfirst : ∀ last ∈ (none : Option InodeId), ∀ node ∈ checkpoint.nodes, last < node.inode := by
    intro last hlast
    cases hlast
  have hnodes := reads_nodes hfits horder hfirst []
  rw [List.append_nil] at hnodes
  exact bind_ok.mpr ⟨_, _, hnodes, rfl⟩

end Mirage.Analysis
