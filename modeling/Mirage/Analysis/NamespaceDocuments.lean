import Mirage.Analysis.CheckpointDocument

/-!
# Accepted namespace documents

What the cursor takes off the front of a document is what the sink writes for the value it
returns, field by field, so a document that is accepted is the encoding of what it decodes to.
Only the kind of a new node in a delta is read more freely than it is written.  The checks
behind the fields of a checkpoint make its nodes one tree.
-/

set_option autoImplicit false

namespace Mirage.Analysis

open Mirage.Model Mirage.Computation Mirage.Computation.Txn

/-! ## Fields -/

theorem undoes_byte : Undoes Cursor.byte Sink.byte := by
  refine undoes_takeTokens fun bytes hlength => ?_
  obtain ⟨byte, rfl⟩ := List.length_eq_one_iff.mp hlength
  rfl

theorem undoes_u32 : Undoes Cursor.u32 Sink.u32 :=
  undoes_takeTokens fun bytes hlength => by rw [Sink.u32, ← hlength, leBytes_fromLeBytes]

theorem undoes_u64 : Undoes Cursor.u64 Sink.u64 :=
  undoes_takeTokens fun bytes hlength => by rw [Sink.u64, ← hlength, leBytes_fromLeBytes]

theorem undoes_id128 : Undoes Cursor.id128 Sink.id128 :=
  undoes_takeTokens fun _ hlength => idBytes_idOfBytes hlength

theorem undoes_id256 : Undoes Cursor.id256 Sink.id256 :=
  undoes_takeTokens fun _ hlength => hashBytes_hashOfBytes hlength

variable {input rest : List UInt8} {delta : NamespaceDelta}

theorem u32_lt {value : Nat} (h : Cursor.u32 input = .ok (value, rest)) : value < 2 ^ 32 := by
  obtain ⟨bytes, hlength, -, rfl⟩ := takeTokens_bind_ok h
  have hlt := fromLeBytes_lt bytes
  rw [hlength] at hlt
  exact hlt

theorem u64_lt {value : Nat} (h : Cursor.u64 input = .ok (value, rest)) : value < 2 ^ 64 := by
  obtain ⟨bytes, hlength, -, rfl⟩ := takeTokens_bind_ok h
  have hlt := fromLeBytes_lt bytes
  rw [hlength] at hlt
  exact hlt

/-- INTERNAL: a flag and a value. -/
theorem undoes_opt {α : Type} {value : Cursor α} {write : α → List UInt8} {message : String}
    (h : Undoes value write) : Undoes (Cursor.opt value message)
      fun o => (o.map fun a => Sink.byte 1 ++ write a).getD (Sink.byte 0) := by
  intro input o rest hread
  obtain ⟨flag, left, hflag, hread⟩ := bind_ok.mp hread
  have hbyte := undoes_byte input flag left hflag
  by_cases hzero : flag = 0
  · rw [if_pos hzero] at hread
    obtain ⟨rfl, rfl⟩ := Prod.mk.inj (pure_ok.mp hread)
    rw [hbyte, hzero]
    rfl
  · rw [if_neg hzero] at hread
    by_cases hone : flag = 1
    · rw [if_pos hone] at hread
      obtain ⟨a, last, ha, hread⟩ := bind_ok.mp hread
      obtain ⟨rfl, rfl⟩ := Prod.mk.inj (pure_ok.mp hread)
      rw [hbyte, hone, h left a rest ha, ← List.append_assoc]
      rfl
    · rw [if_neg hone] at hread
      exact (throw_ok.mp hread).elim

theorem undoes_opt16 : Undoes Cursor.opt16 Sink.opt16 := by
  intro input o rest h
  refine (undoes_opt undoes_id128 input o rest h).trans ?_
  cases o with
  | none => rfl
  | some inode => rfl

theorem undoes_opt32 (message : String) :
    Undoes (Cursor.opt Cursor.id256 message) Sink.opt32 := by
  intro input o rest h
  refine (undoes_opt undoes_id256 input o rest h).trans ?_
  cases o with
  | none => rfl
  | some digest => rfl

/-- INTERNAL: the bytes of a text that the sink accepts. -/
def textBytes (text : NameText) : List UInt8 :=
  Sink.u32 (utf8Bytes text).length ++ utf8Bytes text

theorem undoes_text : Undoes Cursor.text textBytes := by
  intro input text rest h
  obtain ⟨length, left, hlength, h⟩ := bind_ok.mp h
  obtain ⟨-, h⟩ := demand_bind_ok.mp h
  obtain ⟨bytes, last, hbytes, h⟩ := bind_ok.mp h
  obtain ⟨decoded, hdecoded, h⟩ := orFail_ok.mp h
  obtain ⟨rfl, rfl⟩ := Prod.mk.inj h
  obtain ⟨hcount, rfl⟩ := takeTokens_ok hbytes
  rw [undoes_u32 input length _ hlength, textBytes, utf8Bytes_of_fromUtf8 hdecoded, hcount,
    List.append_assoc]

theorem readText_length {text : NameText} (h : Cursor.text input = .ok (text, rest)) :
    (utf8Bytes text).length ≤ 1024 := by
  obtain ⟨length, left, -, h⟩ := bind_ok.mp h
  obtain ⟨hbound, h⟩ := demand_bind_ok.mp h
  obtain ⟨bytes, last, hbytes, h⟩ := bind_ok.mp h
  obtain ⟨decoded, hdecoded, h⟩ := orFail_ok.mp h
  obtain ⟨rfl, rfl⟩ := Prod.mk.inj h
  rw [utf8Bytes_of_fromUtf8 hdecoded, (takeTokens_ok hbytes).1]
  exact of_decide_eq_true hbound

theorem undoes_kind : Undoes readKind fun directory => Sink.byte (if directory then 1 else 0) := by
  intro input directory rest h
  obtain ⟨flag, left, hflag, h⟩ := bind_ok.mp h
  have hbyte := undoes_byte input flag left hflag
  by_cases hzero : flag = 0
  · rw [if_pos hzero] at h
    obtain ⟨rfl, rfl⟩ := Prod.mk.inj (pure_ok.mp h)
    rw [hbyte, hzero]
    rfl
  · rw [if_neg hzero] at h
    by_cases hone : flag = 1
    · rw [if_pos hone] at h
      obtain ⟨rfl, rfl⟩ := Prod.mk.inj (pure_ok.mp h)
      rw [hbyte, hone]
      rfl
    · rw [if_neg hone] at h
      exact (throw_ok.mp h).elim

theorem done_ok (h : Cursor.done input = .ok ((), rest)) : input = [] ∧ rest = [] := by
  unfold Cursor.done at h
  rw [get_bind] at h
  obtain ⟨hempty, h⟩ := demand_ok.mp h
  obtain ⟨-, rfl⟩ := Prod.mk.inj h
  have hnil : rest = [] := of_decide_eq_true hempty
  exact ⟨hnil, hnil⟩

/-- INTERNAL: the magic, the version and the bound on the length. -/
theorem checkMagic_ok {magic : List UInt8} {maximum : Nat}
    (h : checkMagic magic maximum input = .ok ((), rest)) :
    input = magic ++ (Sink.u32 1 ++ rest) := by
  unfold checkMagic at h
  rw [get_bind] at h
  obtain ⟨-, h⟩ := demand_bind_ok.mp h
  obtain ⟨found, left, hfound, h⟩ := bind_ok.mp h
  obtain ⟨hmagic, h⟩ := demand_bind_ok.mp h
  obtain ⟨version, last, hversion, h⟩ := bind_ok.mp h
  obtain ⟨hone, h⟩ := demand_ok.mp h
  obtain ⟨-, rfl⟩ := Prod.mk.inj h
  obtain ⟨-, rfl⟩ := takeTokens_ok hfound
  rw [undoes_u32 left version rest hversion, of_decide_eq_true hmagic, of_decide_eq_true hone]

/-! ## Checkpoints -/

theorem readNode_ok {inode : InodeId} {node : NamespaceNodeRecord}
    (h : readNode inode input = .ok (node, rest)) :
    node.inode = inode ∧ NodeFits node ∧ input = nodeTail node ++ rest := by
  obtain ⟨parent, s₁, hparent, h⟩ := bind_ok.mp h
  obtain ⟨foldedName, s₂, hfolded, h⟩ := bind_ok.mp h
  obtain ⟨displayName, s₃, hdisplay, h⟩ := bind_ok.mp h
  obtain ⟨directory, s₄, hdirectory, h⟩ := bind_ok.mp h
  obtain ⟨size, s₅, hsize, h⟩ := bind_ok.mp h
  obtain ⟨versionRoot, s₆, hversion, h⟩ := bind_ok.mp h
  obtain ⟨extentRoot, s₇, hextent, h⟩ := bind_ok.mp h
  obtain ⟨rfl, rfl⟩ := Prod.mk.inj (pure_ok.mp h)
  refine ⟨rfl, ⟨readText_length hfolded, readText_length hdisplay, u64_lt hsize⟩, ?_⟩
  rw [undoes_opt16 _ _ _ hparent, undoes_text _ _ _ hfolded, undoes_text _ _ _ hdisplay,
    undoes_kind _ _ _ hdirectory, undoes_u64 _ _ _ hsize, undoes_opt32 _ _ _ _ hversion,
    undoes_opt32 _ _ _ _ hextent]
  simp only [nodeTail, textBytes, List.append_assoc]

/-- INTERNAL: the loop over the nodes, each behind the one before it. -/
theorem readNodes_ok {count : Nat} {previous : Option InodeId} {nodes : List NamespaceNodeRecord}
    (h : readNodes count previous input = .ok (nodes, rest)) :
    nodes.length = count ∧ (∀ node ∈ nodes, NodeFits node) ∧ input = nodesBytes nodes ++ rest ∧
      (previous.toList ++ nodes.map NamespaceNodeRecord.inode).IsChain (· < ·) := by
  induction count generalizing previous input nodes with
  | zero =>
    obtain ⟨rfl, rfl⟩ := Prod.mk.inj (pure_ok.mp h)
    refine ⟨rfl, fun node hnode => (by cases hnode), rfl, ?_⟩
    cases previous with
    | none => exact .nil
    | some last => exact .singleton last
  | succ count ih =>
    obtain ⟨inode, s₁, hinode, h⟩ := bind_ok.mp h
    obtain ⟨hless, h⟩ := demand_bind_ok.mp h
    obtain ⟨node, s₂, hnode, h⟩ := bind_ok.mp h
    obtain ⟨tail, s₃, htail, h⟩ := bind_ok.mp h
    obtain ⟨rfl, rfl⟩ := Prod.mk.inj (pure_ok.mp h)
    obtain ⟨rfl, hfits, hbytes⟩ := readNode_ok hnode
    obtain ⟨hlength, htailFits, htailBytes, hchain⟩ := ih htail
    refine ⟨by rw [List.length_cons, hlength], List.forall_mem_cons.mpr ⟨hfits, htailFits⟩, ?_, ?_⟩
    · rw [undoes_id128 _ _ _ hinode, hbytes, htailBytes]
      unfold nodesBytes
      rw [List.flatMap_cons, List.append_assoc, List.append_assoc]
    · cases previous with
      | none => exact hchain
      | some last =>
        rw [Option.all_some, decide_eq_true_iff] at hless
        exact List.isChain_cons_cons.mpr ⟨hless, hchain⟩

theorem readCheckpoint_undoes {checkpoint : NamespaceCheckpoint}
    (h : readCheckpoint input = .ok (checkpoint, rest)) :
    input = documentBytes checkpoint ∧ checkpoint.nodes.length < 2 ^ 32 ∧
      (∀ node ∈ checkpoint.nodes, NodeFits node) ∧
        checkpoint.nodes.Pairwise fun a b => a.inode < b.inode := by
  obtain ⟨⟨⟩, s₁, hmagic, h⟩ := bind_ok.mp h
  obtain ⟨volumeId, s₂, hvolume, h⟩ := bind_ok.mp h
  obtain ⟨checkpointSeq, s₃, hseq, h⟩ := bind_ok.mp h
  obtain ⟨parentCommit, s₄, hcommit, h⟩ := bind_ok.mp h
  obtain ⟨count, s₅, hcount, h⟩ := bind_ok.mp h
  rw [get_bind] at h
  obtain ⟨-, h⟩ := demand_bind_ok.mp h
  obtain ⟨nodes, s₆, hnodes, h⟩ := bind_ok.mp h
  obtain ⟨⟨⟩, s₇, hdone, h⟩ := bind_ok.mp h
  obtain ⟨rfl, rfl⟩ := Prod.mk.inj (pure_ok.mp h)
  obtain ⟨rfl, rfl⟩ := done_ok hdone
  obtain ⟨hlength, hfits, hbytes, hchain⟩ := readNodes_ok hnodes
  refine ⟨?_, hlength ▸ u32_lt hcount, hfits, ?_⟩
  · rw [checkMagic_ok hmagic, undoes_id128 _ _ _ hvolume, undoes_u64 _ _ _ hseq,
      undoes_opt32 _ _ _ _ hcommit, undoes_u32 _ _ _ hcount, hbytes, List.append_nil, ← hlength]
    rfl
  · have hpairwise : (nodes.map NamespaceNodeRecord.inode).Pairwise (· < ·) :=
      List.isChain_iff_pairwise.mp hchain
    exact List.pairwise_map.mp hpairwise

/-! ## The tree of a checkpoint -/

section Tree

variable {nodes : List NamespaceNodeRecord}
  (hordered : nodes.Pairwise fun a b => a.inode < b.inode)

variable {node : NamespaceNodeRecord}

theorem nodeOf_mem {inode : InodeId} (h : nodeOf nodes inode = some node) :
    node ∈ nodes ∧ node.inode = inode :=
  ⟨List.mem_of_find?_eq_some h, by simpa using List.find?_some h⟩

/-- INTERNAL: the nodes without a parent, of which there is one. -/
theorem one_root_ok (h : nodes.countP (fun node => node.parent.isNone) = 1) :
    ∃ root ∈ nodes, root.parent = none ∧
      ∀ node ∈ nodes, node.parent = none → node = root := by
  rw [List.countP_eq_length_filter] at h
  obtain ⟨root, hroot⟩ := List.length_eq_one_iff.mp h
  have hmem : ∀ node, node ∈ nodes ∧ node.parent = none ↔ node = root := by
    intro node
    have hfilter : node ∈ nodes.filter (fun node => node.parent.isNone) ↔ node ∈ [root] := by
      rw [hroot]
    rwa [List.mem_filter, Option.isNone_iff_eq_none, List.mem_singleton] at hfilter
  obtain ⟨hin, hnone⟩ := (hmem root).mpr rfl
  exact ⟨root, hin, hnone, fun node hnode hparent => (hmem node).mp ⟨hnode, hparent⟩⟩

theorem checkParent_ok (h : checkParent nodes node = .ok ()) :
    (node.parent = none → node.directory = true) ∧
      ∀ parent, node.parent = some parent → ∃ parentNode,
        nodeOf nodes parent = some parentNode ∧ parentNode.directory = true := by
  unfold checkParent at h
  cases hparent : node.parent with
  | none =>
    rw [hparent] at h
    by_cases hdirectory : node.directory = true
    · exact ⟨fun _ => hdirectory, fun parent heq => (by cases heq)⟩
    · simp only [hdirectory] at h
      cases h
  | some parent =>
    simp only [hparent] at h
    refine ⟨fun heq => (by cases heq), ?_⟩
    intro other heq
    obtain rfl := Option.some.inj heq
    by_cases hself : parent = node.inode
    · rw [if_pos hself] at h
      cases h
    · rw [if_neg hself] at h
      cases hknown : nodeOf nodes parent with
      | none =>
        rw [hknown] at h
        cases h
      | some parentNode =>
        simp only [hknown] at h
        by_cases hdirectory : parentNode.directory = true
        · exact ⟨parentNode, rfl, hdirectory⟩
        · rw [if_neg hdirectory] at h
          cases h

/-- INTERNAL: where the node of an inode stands: its parent and its name there. -/
def placeIn (nodes : List NamespaceNodeRecord) (inode : InodeId) : Option (InodeId × NameText) :=
  (nodeOf nodes inode).bind fun node => node.parent.map fun parent => (parent, node.foldedName)

theorem placeIn_some {inode : InodeId} {q : InodeId × NameText}
    (h : placeIn nodes inode = some q) : ∃ node, nodeOf nodes inode = some node ∧
      node.parent = some q.1 ∧ node.foldedName = q.2 := by
  obtain ⟨node, hnode, hplace⟩ := Option.bind_eq_some_iff.mp h
  obtain ⟨parent, hparent, rfl⟩ := Option.map_eq_some_iff.mp hplace
  exact ⟨node, hnode, hparent, rfl⟩

include hordered in
theorem nodeOf_self (h : node ∈ nodes) : nodeOf nodes node.inode = some node := by
  cases hfind : nodeOf nodes node.inode with
  | none => exact absurd (decide_eq_true rfl) (List.find?_eq_none.mp hfind node h)
  | some other =>
    obtain ⟨hother, hinode⟩ := nodeOf_mem hfind
    rw [eq_of_inode hordered hother h hinode]

include hordered in
/-- INTERNAL: a walk that ends is a chain of parents up to the root. -/
theorem reaches_of_climbs {root : NamespaceNodeRecord}
    (hroot : ∀ node ∈ nodes, node.parent = none → node = root) {left : Nat} (hnode : node ∈ nodes)
    (h : climbs nodes left node = true) :
    Relation.ReflTransGen (Up (placeIn nodes)) node.inode root.inode := by
  induction left generalizing node with
  | zero => cases h
  | succ left ih =>
    unfold climbs at h
    cases hparent : node.parent with
    | none =>
      rw [hroot node hnode hparent]
    | some parent =>
      simp only [hparent] at h
      cases hknown : nodeOf nodes parent with
      | none =>
        rw [hknown] at h
        cases h
      | some parentNode =>
        simp only [hknown] at h
        obtain ⟨hmem, rfl⟩ := nodeOf_mem hknown
        refine Relation.ReflTransGen.head ⟨node.foldedName, ?_⟩ (ih hmem h)
        unfold placeIn
        rw [nodeOf_self hordered hnode, Option.bind_some, hparent]
        rfl

theorem checkTree_ok (h : checkTree nodes = .ok ()) :
    (∀ node ∈ nodes, checkParent nodes node = .ok ()) ∧
      nodes.countP (fun node => node.parent.isNone) = 1 ∧ (nodes.map siblingKey).Nodup ∧
        ∀ node ∈ nodes, climbs nodes nodes.length node = true := by
  unfold checkTree at h
  obtain ⟨hparents, h⟩ := check_bind_ok.mp h
  by_cases hcount : nodes.countP (fun node => node.parent.isNone) ≠ 1
  · rw [if_pos hcount] at h
    cases h
  rw [if_neg hcount] at h
  by_cases hnames : ¬ (nodes.map siblingKey).Nodup
  · rw [if_pos hnames] at h
    cases h
  rw [if_neg hnames] at h
  by_cases hclimbs : ¬ nodes.all (climbs nodes nodes.length) = true
  · rw [if_pos hclimbs] at h
    cases h
  exact ⟨forM_ok.mp hparents, not_not.mp hcount, not_not.mp hnames,
    List.all_eq_true.mp (not_not.mp hclimbs)⟩

include hordered in
/-- INTERNAL: nodes that pass the checks are a tree. -/
theorem tree_of_checkTree (h : checkTree nodes = .ok ()) :
    ∃ t : NameTree InodeId NameText,
      (∀ x, t.kind x = (nodeOf nodes x).map NamespaceNodeRecord.directory) ∧
        ∀ x, t.place x = placeIn nodes x := by
  obtain ⟨hparents, hcount, hnames, hclimbs⟩ := checkTree_ok h
  have hcheck := fun node hnode => checkParent_ok (hparents node hnode)
  obtain ⟨root, hrootMem, hrootParent, hunique⟩ := one_root_ok hcount
  refine ⟨⟨root.inode, fun x => (nodeOf nodes x).map NamespaceNodeRecord.directory,
    placeIn nodes, ?_, ?_, ?_, ?_, ?_, ?_, ?_⟩, fun x => rfl, fun x => rfl⟩
  · rw [nodeOf_self hordered hrootMem, Option.map_some, (hcheck root hrootMem).1 hrootParent]
  · unfold placeIn
    rw [nodeOf_self hordered hrootMem, Option.bind_some, hrootParent]
    rfl
  · -- a node without a place has no parent, and only the root has none
    intro x hx hkind
    rw [Option.isSome_map] at hkind
    obtain ⟨node, hnode⟩ := Option.isSome_iff_exists.mp hkind
    obtain ⟨hmem, rfl⟩ := nodeOf_mem hnode
    unfold placeIn
    rw [hnode, Option.bind_some, Option.isSome_map, Option.isSome_iff_ne_none]
    intro hnone
    exact hx (by rw [hunique node hmem hnone])
  · intro x p n hplace
    obtain ⟨node, hnode, -⟩ := placeIn_some hplace
    rw [hnode]
    rfl
  · intro x p n hplace
    obtain ⟨node, hnode, hparent, -⟩ := placeIn_some hplace
    obtain ⟨hmem, rfl⟩ := nodeOf_mem hnode
    obtain ⟨parentNode, hknown, hdirectory⟩ := (hcheck node hmem).2 p hparent
    rw [hknown, Option.map_some, hdirectory]
  · intro x y q hx hy
    obtain ⟨a, ha, haParent, haName⟩ := placeIn_some hx
    obtain ⟨b, hb, hbParent, hbName⟩ := placeIn_some hy
    obtain ⟨haMem, rfl⟩ := nodeOf_mem ha
    obtain ⟨hbMem, rfl⟩ := nodeOf_mem hb
    have hkey : siblingKey a = siblingKey b := by
      unfold siblingKey
      rw [haParent, hbParent, haName, hbName]
    rw [List.inj_on_of_nodup_map hnames haMem hbMem hkey]
  · intro x hkind
    rw [Option.isSome_map] at hkind
    obtain ⟨node, hnode⟩ := Option.isSome_iff_exists.mp hkind
    obtain ⟨hmem, rfl⟩ := nodeOf_mem hnode
    exact reaches_of_climbs hordered hunique hmem (hclimbs node hmem)

end Tree

/-! ## Deltas -/

/-- INTERNAL: the bytes of an operation. -/
def opBytes : NamespaceOp → List UInt8
  | .create parent inode displayName foldedName directory size =>
    Sink.byte 0 ++ Sink.id128 parent ++ Sink.id128 inode ++ textBytes displayName ++
      textBytes foldedName ++ Sink.byte (if directory then 1 else 0) ++ Sink.u64 size
  | .rename inode fromParent fromFolded toParent displayName foldedName =>
    Sink.byte 1 ++ Sink.id128 inode ++ Sink.id128 fromParent ++ textBytes fromFolded ++
      Sink.id128 toParent ++ textBytes displayName ++ textBytes foldedName
  | .delete parent foldedName inode =>
    Sink.byte 2 ++ Sink.id128 parent ++ textBytes foldedName ++ Sink.id128 inode
  | .setRoots inode size versionRoot extentRoot =>
    Sink.byte 3 ++ Sink.id128 inode ++ Sink.u64 size ++ Sink.opt32 versionRoot ++
      Sink.opt32 extentRoot

/-- INTERNAL: an operation that is read with a strict kind is written back as it was. -/
theorem readOp_ok {op : NamespaceOp} (h : readOp readKind input = .ok (op, rest)) :
    input = opBytes op ++ rest ∧ encodeOp op = .ok (opBytes op) := by
  obtain ⟨tag, s₁, htag, h⟩ := bind_ok.mp h
  have hbyte := undoes_byte input tag s₁ htag
  by_cases hcreate : tag = 0
  · rw [if_pos hcreate] at h
    obtain ⟨parent, s₂, hparent, h⟩ := bind_ok.mp h
    obtain ⟨inode, s₃, hinode, h⟩ := bind_ok.mp h
    obtain ⟨displayName, s₄, hdisplay, h⟩ := bind_ok.mp h
    obtain ⟨foldedName, s₅, hfolded, h⟩ := bind_ok.mp h
    obtain ⟨directory, s₆, hdirectory, h⟩ := bind_ok.mp h
    obtain ⟨size, s₇, hsize, h⟩ := bind_ok.mp h
    obtain ⟨rfl, rfl⟩ := Prod.mk.inj (pure_ok.mp h)
    constructor
    · rw [hbyte, hcreate, undoes_id128 _ _ _ hparent, undoes_id128 _ _ _ hinode,
        undoes_text _ _ _ hdisplay, undoes_text _ _ _ hfolded, undoes_kind _ _ _ hdirectory,
        undoes_u64 _ _ _ hsize]
      simp only [opBytes, List.append_assoc]
    · exact except_bind_ok.mpr ⟨_, text_ok (readText_length hdisplay),
        except_bind_ok.mpr ⟨_, text_ok (readText_length hfolded), rfl⟩⟩
  rw [if_neg hcreate] at h
  by_cases hrename : tag = 1
  · rw [if_pos hrename] at h
    obtain ⟨inode, s₂, hinode, h⟩ := bind_ok.mp h
    obtain ⟨fromParent, s₃, hfrom, h⟩ := bind_ok.mp h
    obtain ⟨fromFolded, s₄, hsource, h⟩ := bind_ok.mp h
    obtain ⟨toParent, s₅, hto, h⟩ := bind_ok.mp h
    obtain ⟨displayName, s₆, hdisplay, h⟩ := bind_ok.mp h
    obtain ⟨foldedName, s₇, hfolded, h⟩ := bind_ok.mp h
    obtain ⟨rfl, rfl⟩ := Prod.mk.inj (pure_ok.mp h)
    constructor
    · rw [hbyte, hrename, undoes_id128 _ _ _ hinode, undoes_id128 _ _ _ hfrom,
        undoes_text _ _ _ hsource, undoes_id128 _ _ _ hto, undoes_text _ _ _ hdisplay,
        undoes_text _ _ _ hfolded]
      simp only [opBytes, List.append_assoc]
    · exact except_bind_ok.mpr ⟨_, text_ok (readText_length hsource),
        except_bind_ok.mpr ⟨_, text_ok (readText_length hdisplay),
          except_bind_ok.mpr ⟨_, text_ok (readText_length hfolded), rfl⟩⟩⟩
  rw [if_neg hrename] at h
  by_cases hdelete : tag = 2
  · rw [if_pos hdelete] at h
    obtain ⟨parent, s₂, hparent, h⟩ := bind_ok.mp h
    obtain ⟨foldedName, s₃, hfolded, h⟩ := bind_ok.mp h
    obtain ⟨inode, s₄, hinode, h⟩ := bind_ok.mp h
    obtain ⟨rfl, rfl⟩ := Prod.mk.inj (pure_ok.mp h)
    constructor
    · rw [hbyte, hdelete, undoes_id128 _ _ _ hparent, undoes_text _ _ _ hfolded,
        undoes_id128 _ _ _ hinode]
      simp only [opBytes, List.append_assoc]
    · exact except_bind_ok.mpr ⟨_, text_ok (readText_length hfolded), rfl⟩
  rw [if_neg hdelete] at h
  by_cases hroots : tag = 3
  · rw [if_pos hroots] at h
    obtain ⟨inode, s₂, hinode, h⟩ := bind_ok.mp h
    obtain ⟨size, s₃, hsize, h⟩ := bind_ok.mp h
    obtain ⟨versionRoot, s₄, hversion, h⟩ := bind_ok.mp h
    obtain ⟨extentRoot, s₅, hextent, h⟩ := bind_ok.mp h
    obtain ⟨rfl, rfl⟩ := Prod.mk.inj (pure_ok.mp h)
    refine ⟨?_, rfl⟩
    rw [hbyte, hroots, undoes_id128 _ _ _ hinode, undoes_u64 _ _ _ hsize,
      undoes_opt32 _ _ _ _ hversion, undoes_opt32 _ _ _ _ hextent]
    simp only [opBytes, List.append_assoc]
  · rw [if_neg hroots] at h
    exact (throw_ok.mp h).elim

/-- INTERNAL: the bytes of a delta whose operations can be written. -/
theorem encodeDelta_ok (hlength : delta.ops.length ≤ maxDeltaOps)
    (hwrites : ∀ op ∈ delta.ops, encodeOp op = .ok (opBytes op)) :
    encodeDelta delta = .ok (deltaMagic ++ (Sink.u32 1 ++ (Sink.id128 delta.volumeId ++
      (Sink.id256 delta.baseDocumentHash ++ (Sink.u64 delta.deltaSeq ++
        (Sink.u32 delta.ops.length ++ delta.ops.flatMap opBytes)))))) := by
  unfold encodeDelta
  rw [if_neg (Nat.not_lt_of_le hlength), mapM_ok hwrites]
  change Except.ok _ = Except.ok _
  simp only [List.append_assoc, List.flatMap_def]
  rfl

/-- INTERNAL: a delta that is read with strict kinds is written back as it was. -/
theorem readDelta_ok (h : readDelta readKind input = .ok (delta, rest)) :
    encodeDelta delta = .ok input := by
  obtain ⟨⟨⟩, s₁, hmagic, h⟩ := bind_ok.mp h
  obtain ⟨volumeId, s₂, hvolume, h⟩ := bind_ok.mp h
  obtain ⟨baseDocumentHash, s₃, hbase, h⟩ := bind_ok.mp h
  obtain ⟨deltaSeq, s₄, hseq, h⟩ := bind_ok.mp h
  obtain ⟨count, s₅, hcount, h⟩ := bind_ok.mp h
  obtain ⟨hbound, h⟩ := demand_bind_ok.mp h
  obtain ⟨ops, s₆, hops, h⟩ := bind_ok.mp h
  obtain ⟨⟨⟩, s₇, hdone, h⟩ := bind_ok.mp h
  obtain ⟨rfl, rfl⟩ := Prod.mk.inj (pure_ok.mp h)
  obtain ⟨rfl, rfl⟩ := done_ok hdone
  have hlength := length_readMany hops
  have hwrites : ∀ op ∈ ops, encodeOp op = .ok (opBytes op) :=
    forall_readMany (fun input op rest hop => (readOp_ok hop).2) hops
  have hbytes := undoes_readMany (fun input op rest hop => (readOp_ok hop).1) count _ _ _ hops
  rw [encodeDelta_ok (hlength.trans_le (of_decide_eq_true hbound)) hwrites, checkMagic_ok hmagic,
    undoes_id128 _ _ _ hvolume, undoes_id256 _ _ _ hbase, undoes_u64 _ _ _ hseq,
    undoes_u32 _ _ _ hcount, hbytes, List.append_nil, ← hlength]

/-- INTERNAL: the reader of a delta takes every kind that a strict one takes. -/
theorem narrows_kind : Narrows readKind anyKind := by
  intro input r h
  obtain ⟨flag, left, hflag, h⟩ := bind_ok.mp h
  refine bind_ok.mpr ⟨flag, left, hflag, ?_⟩
  by_cases hzero : flag = 0
  · rw [if_pos hzero] at h
    rw [pure_ok.mp h, hzero]
    rfl
  · rw [if_neg hzero] at h
    by_cases hone : flag = 1
    · rw [if_pos hone] at h
      rw [pure_ok.mp h, hone]
      rfl
    · rw [if_neg hone] at h
      exact (throw_ok.mp h).elim

theorem narrows_readOp : Narrows (readOp readKind) (readOp anyKind) := by
  refine (narrows_refl _).bind fun tag => ?_
  by_cases hcreate : tag = 0
  · rw [if_pos hcreate, if_pos hcreate]
    refine (narrows_refl _).bind fun parent => (narrows_refl _).bind fun inode => ?_
    refine (narrows_refl _).bind fun displayName => (narrows_refl _).bind fun foldedName => ?_
    exact narrows_kind.bind fun directory => narrows_refl _
  · rw [if_neg hcreate, if_neg hcreate]
    exact narrows_refl _

theorem narrows_readDelta : Narrows (readDelta readKind) (readDelta anyKind) := by
  refine (narrows_refl _).bind fun _ => (narrows_refl _).bind fun volumeId => ?_
  refine (narrows_refl _).bind fun base => (narrows_refl _).bind fun deltaSeq => ?_
  refine (narrows_refl _).bind fun count => (narrows_refl _).bind fun _ => ?_
  exact (narrows_readMany narrows_readOp count).bind fun ops => narrows_refl _

/-- INTERNAL: an operation can be written, and where its bytes are those that are written it is
read with strict kinds. -/
theorem readOp_any {op : NamespaceOp} (h : readOp anyKind input = .ok (op, rest)) :
    encodeOp op = .ok (opBytes op) ∧ ∃ taken, input = taken ++ rest ∧
      taken.length = (opBytes op).length ∧
        (taken = opBytes op → readOp readKind input = .ok (op, rest)) := by
  obtain ⟨tag, s₁, htag, h⟩ := bind_ok.mp h
  by_cases hcreate : tag = 0
  · rw [if_pos hcreate] at h
    obtain ⟨parent, s₂, hparent, h⟩ := bind_ok.mp h
    obtain ⟨inode, s₃, hinode, h⟩ := bind_ok.mp h
    obtain ⟨displayName, s₄, hdisplay, h⟩ := bind_ok.mp h
    obtain ⟨foldedName, s₅, hfolded, h⟩ := bind_ok.mp h
    obtain ⟨directory, s₆, hdirectory, h⟩ := bind_ok.mp h
    obtain ⟨flag, s₇, hflag, hkind⟩ := bind_ok.mp hdirectory
    obtain ⟨rfl, rfl⟩ := Prod.mk.inj (pure_ok.mp hkind)
    obtain ⟨size, s₈, hsize, hop⟩ := bind_ok.mp h
    obtain ⟨rfl, rfl⟩ := Prod.mk.inj (pure_ok.mp hop)
    refine ⟨except_bind_ok.mpr ⟨_, text_ok (readText_length hdisplay),
      except_bind_ok.mpr ⟨_, text_ok (readText_length hfolded), rfl⟩⟩,
      Sink.byte 0 ++ Sink.id128 parent ++ Sink.id128 inode ++ textBytes displayName ++
        textBytes foldedName ++ Sink.byte flag ++ Sink.u64 size, ?_, ?_, fun hwritten => ?_⟩
    · rw [undoes_byte _ _ _ htag, hcreate, undoes_id128 _ _ _ hparent, undoes_id128 _ _ _ hinode,
        undoes_text _ _ _ hdisplay, undoes_text _ _ _ hfolded, undoes_byte _ _ _ hflag,
        undoes_u64 _ _ _ hsize]
      simp only [List.append_assoc]
    · simp only [opBytes, List.length_append]
      rfl
    · have hbyte : Sink.byte flag = Sink.byte (if (flag != 0) = true then 1 else 0) :=
        List.append_cancel_left (List.append_cancel_right hwritten)
      have hstrict : readKind s₅ = .ok (flag != 0, s₆) := by
        refine bind_ok.mpr ⟨flag, s₆, hflag, ?_⟩
        rw [(List.cons.inj hbyte).1]
        cases flag != 0 with
        | true => rfl
        | false => rfl
      refine bind_ok.mpr ⟨tag, s₁, htag, ?_⟩
      rw [if_pos hcreate]
      exact bind_ok.mpr ⟨parent, s₂, hparent, bind_ok.mpr ⟨inode, s₃, hinode,
        bind_ok.mpr ⟨displayName, s₄, hdisplay, bind_ok.mpr ⟨foldedName, s₅, hfolded,
          bind_ok.mpr ⟨_, s₆, hstrict, h⟩⟩⟩⟩⟩
  · -- the kind is read for a new node only
    rw [if_neg hcreate] at h
    have hsame : readOp readKind input = .ok (op, rest) := by
      refine bind_ok.mpr ⟨tag, s₁, htag, ?_⟩
      rw [if_neg hcreate]
      exact h
    obtain ⟨hbytes, hwrites⟩ := readOp_ok hsame
    exact ⟨hwrites, opBytes op, hbytes, rfl, fun _ => hsame⟩

/-- INTERNAL: a delta that is the encoding of what it is read as is read with strict kinds. -/
theorem strict_of_encoded (h : readDelta anyKind input = .ok (delta, rest))
    (hencoded : encodeDelta delta = .ok input) : readDelta readKind input = .ok (delta, rest) := by
  obtain ⟨⟨⟩, s₁, hmagic, h⟩ := bind_ok.mp h
  obtain ⟨volumeId, s₂, hvolume, h⟩ := bind_ok.mp h
  obtain ⟨baseDocumentHash, s₃, hbase, h⟩ := bind_ok.mp h
  obtain ⟨deltaSeq, s₄, hseq, h⟩ := bind_ok.mp h
  obtain ⟨count, s₅, hcount, h⟩ := bind_ok.mp h
  obtain ⟨hbound, h⟩ := demand_bind_ok.mp h
  obtain ⟨ops, s₆, hops, hlast⟩ := bind_ok.mp h
  obtain ⟨⟨⟩, s₇, hdone, h⟩ := bind_ok.mp hlast
  obtain ⟨rfl, rfl⟩ := Prod.mk.inj (pure_ok.mp h)
  obtain ⟨rfl, rfl⟩ := done_ok hdone
  have hlength := length_readMany hops
  have hwrites : ∀ op ∈ ops, encodeOp op = .ok (opBytes op) :=
    forall_readMany (fun input op rest hop => (readOp_any hop).1) hops
  obtain ⟨taken, rfl, -, hstrict⟩ :=
    acceptsWritten_readMany (fun input op rest hop => (readOp_any hop).2) count _ _ _ hops
  have hwritten : taken = ops.flatMap opBytes := by
    rw [encodeDelta_ok (hlength.trans_le (of_decide_eq_true hbound)) hwrites, checkMagic_ok hmagic,
      undoes_id128 _ _ _ hvolume, undoes_id256 _ _ _ hbase, undoes_u64 _ _ _ hseq,
      undoes_u32 _ _ _ hcount, List.append_nil, ← hlength] at hencoded
    simpa only [Except.ok.injEq, List.append_cancel_left_eq, eq_comm] using hencoded
  exact bind_ok.mpr ⟨(), s₁, hmagic, bind_ok.mpr ⟨volumeId, s₂, hvolume, bind_ok.mpr
    ⟨baseDocumentHash, s₃, hbase, bind_ok.mpr ⟨deltaSeq, s₄, hseq, bind_ok.mpr
      ⟨count, _, hcount, demand_bind_ok.mpr ⟨hbound, bind_ok.mpr
        ⟨ops, _, hstrict hwritten, hlast⟩⟩⟩⟩⟩⟩⟩

/-! ## One encoding for each document -/

/-- INTERNAL: every kind of a new node in the document is written as zero or one: the reader that
takes no other kind accepts the document. -/
def StrictKinds (encoded : List UInt8) : Prop := ∃ r, readDelta readKind encoded = .ok r

/-- INTERNAL: an accepted checkpoint is the encoding of what it decodes to and its nodes are one
tree, and an accepted delta is the encoding of what it decodes to exactly if its kinds are zero or
one.
SRCLINE: mirage-manifest/src/namespace.rs:234-565 -/
theorem namespace_documents_canonical (encoded : List UInt8) :
    (∀ checkpoint, decodeCheckpoint encoded = .ok checkpoint →
      encodeCheckpoint checkpoint = .ok encoded ∧
        (checkpoint.nodes.Pairwise fun a b => a.inode < b.inode) ∧
          ∃ t : NameTree InodeId NameText,
            (∀ x, t.kind x = (nodeOf checkpoint.nodes x).map NamespaceNodeRecord.directory) ∧
              ∀ x, t.place x = placeIn checkpoint.nodes x) ∧
    ∀ delta, decodeDelta encoded = .ok delta →
      (encodeDelta delta = .ok encoded ↔ StrictKinds encoded) := by
  constructor
  · intro checkpoint h
    obtain ⟨⟨read, rest⟩, hread, h⟩ := except_bind_ok.mp h
    obtain ⟨htree, h⟩ := check_bind_ok.mp h
    obtain rfl := Except.ok.inj h
    obtain ⟨hbytes, hcount, hfits, hordered⟩ := readCheckpoint_undoes hread
    refine ⟨?_, hordered, tree_of_checkTree hordered htree⟩
    rw [hbytes]
    exact encodeCheckpoint_ok hordered hfits hcount
  · intro delta h
    obtain ⟨⟨read, left⟩, hread, h⟩ := except_bind_ok.mp h
    obtain rfl := Except.ok.inj h
    refine ⟨fun hencoded => ⟨_, strict_of_encoded hread hencoded⟩, ?_⟩
    rintro ⟨⟨strict, rest⟩, hstrict⟩
    rw [narrows_readDelta encoded _ hstrict] at hread
    obtain ⟨rfl, rfl⟩ := Prod.mk.inj (Except.ok.inj hread)
    exact readDelta_ok hstrict

/-- INTERNAL: a delta that creates `a`, with this byte for its kind. -/
def createDocument (kind : UInt8) : List UInt8 :=
  deltaMagic ++ Sink.u32 1 ++ Sink.id128 0 ++ Sink.id256 0 ++ Sink.u64 0 ++ Sink.u32 1 ++
    Sink.byte 0 ++ Sink.id128 1 ++ Sink.id128 2 ++ textBytes ['a'] ++ textBytes ['A'] ++
    Sink.byte kind ++ Sink.u64 0

def createDirectory : NamespaceDelta := ⟨0, 0, 0, [.create 1 2 ['a'] ['A'] true 0]⟩

/-- INTERNAL: a checkpoint of a root and a file in it. -/
def rootAndFile : NamespaceCheckpoint :=
  ⟨0, 0, none, [⟨1, none, [], [], true, 0, none, none⟩,
    ⟨2, some 1, ['A'], ['a'], false, 0, none, none⟩]⟩

/-- INTERNAL: a checkpoint of two nodes and a delta of kind one are the encodings of what they
decode to. -/
theorem root_and_file_canonical :
    decodeCheckpoint (documentBytes rootAndFile) = .ok rootAndFile ∧
      encodeCheckpoint rootAndFile = .ok (documentBytes rootAndFile) ∧
        encodeDelta createDirectory = .ok (createDocument 1) := by
  have hcheckpoint : decodeCheckpoint (documentBytes rootAndFile) = .ok rootAndFile := by
    decide +kernel
  have hdelta : decodeDelta (createDocument 1) = .ok createDirectory := by decide +kernel
  have hstrict : readDelta readKind (createDocument 1) = .ok (createDirectory, []) := by
    decide +kernel
  exact ⟨hcheckpoint, ((namespace_documents_canonical _).1 _ hcheckpoint).1,
    ((namespace_documents_canonical _).2 _ hdelta).mpr ⟨_, hstrict⟩⟩

/-- INTERNAL: a delta with the kind two is accepted, and is not the encoding of what it decodes
to. -/
theorem kind_two_is_rewritten :
    decodeDelta (createDocument 2) = .ok createDirectory ∧
      encodeDelta createDirectory = .ok (createDocument 1) ∧
        createDocument 2 ≠ createDocument 1 := by
  decide +kernel

end Mirage.Analysis
