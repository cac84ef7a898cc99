import Mirage.Computation.Tiling
import Mirage.Interface.SophonRun

/-!
# Chunks of an asset

The chunks of an accepted asset tile its bytes.  The two partition points cut out the chunks
that a window meets, and copying them one behind the other fills the window from its beginning.
-/

set_option autoImplicit false

namespace Mirage.Analysis

open Mirage.Model Mirage.Interface Mirage.Computation

variable {ext : SophonExternals} {contents : Set (List UInt8)} {asset : SophonAsset}
  {chunk : SophonChunk} {chunks todo : List SophonChunk} {place finish offset : Nat}
  {bytes output : List UInt8}

/-! ## Accepted assets -/

/-- INTERNAL: chunks that stand one behind the other from `place` to `finish`. -/
def Tiled : Nat → List SophonChunk → Nat → Prop
  | place, [], finish => place = finish
  | place, chunk :: rest, finish =>
    chunk.offset = place ∧ 0 < chunk.dsize ∧ Tiled (place + chunk.dsize) rest finish

theorem tiled_of_check (h : chunks.foldlM checkChunk place = .ok finish) :
    Tiled place chunks finish := by
  induction chunks generalizing place with
  | nil => exact Except.ok.inj h
  | cons chunk rest ih =>
    rw [List.foldlM_cons, except_bind_ok] at h
    obtain ⟨next, hnext, hrest⟩ := h
    obtain ⟨⟨-, -, -, hoffset, hsize, -⟩, hsum⟩ := ensure_bind_ok.mp hnext
    obtain ⟨rfl, -⟩ := checkedAdd_eq_some (someOr_ok hsum)
    exact ⟨hoffset, Nat.pos_of_ne_zero hsize, ih hrest⟩

theorem tiled_of_checkAsset (h : checkAsset asset = .ok ()) :
    Tiled 0 asset.chunks asset.size := by
  obtain ⟨-, hrest⟩ := ensure_bind_ok.mp h
  obtain ⟨place, hchunks, hsize⟩ := except_bind_ok.mp hrest
  obtain rfl := ensure_ok hsize
  exact tiled_of_check hchunks

/-- INTERNAL: the assets of a table of nodes tile. -/
def TreeTiled (tree : NodeTree) : Prop :=
  ∀ entry ∈ tree.entries, ∀ asset, entry.2.2 = some asset → Tiled 0 asset.chunks asset.size

theorem treeTiled_set {tree : NodeTree} (h : TreeTiled tree) {path name : String}
    {node : Option SophonAsset}
    (hnode : ∀ asset, node = some asset → Tiled 0 asset.chunks asset.size) :
    TreeTiled (tree.set path (name, node)) := by
  intro entry hentry
  rcases List.mem_cons.mp hentry with rfl | hold
  · exact hnode
  · exact h entry (List.mem_filter.mp hold).1

theorem treeTiled_addNode {tree tree' : NodeTree} {entry : String × SophonAsset}
    (h : TreeTiled tree) (hentry : Tiled 0 entry.2.chunks entry.2.size)
    (hadd : addNode ext tree entry = .ok tree') : TreeTiled tree' := by
  obtain ⟨parents, hparents, hrest⟩ := except_bind_ok.mp hadd
  obtain ⟨-, hset⟩ := ensure_bind_ok.mp hrest
  obtain rfl := Except.ok.inj hset
  refine treeTiled_set (foldlM_keeps TreeTiled hparents h ?_) ?_
  · intro tree depth tree' _ htree hparent
    unfold addParent at hparent
    dsimp only at hparent
    split at hparent
    · obtain rfl := Except.ok.inj hparent
      exact treeTiled_set htree nofun
    · obtain rfl := Except.ok.inj hparent
      exact htree
    · cases hparent
  · intro asset hasset
    obtain rfl := Option.some.inj hasset
    exact hentry

theorem tiled_addAsset {config : SophonConfig} {urlPrefix : String}
    {assets assets' : List (String × SophonAsset)}
    (h : ∀ entry ∈ assets, Tiled 0 entry.2.chunks entry.2.size)
    (hadd : addAsset ext config urlPrefix assets asset = .ok assets') :
    ∀ entry ∈ assets', Tiled 0 entry.2.chunks entry.2.size := by
  unfold addAsset at hadd
  split_ifs at hadd
  · obtain rfl := Except.ok.inj hadd
    exact h
  · obtain ⟨⟨⟩, hcheck, hrest⟩ := except_bind_ok.mp hadd
    obtain ⟨-, hlast⟩ := ensure_bind_ok.mp hrest
    obtain rfl := Except.ok.inj hlast
    intro entry hentry
    rcases List.mem_append.mp hentry with hold | hnew
    · exact h entry hold
    · rw [List.mem_singleton.mp hnew]
      exact tiled_of_checkAsset hcheck

/-- INTERNAL: the assets of an accepted configuration tile. -/
theorem tiled_of_open {config : SophonConfig} {nodes : List SophonNode}
    (h : openNodes ext config = .ok nodes) {node : SophonNode} (hnode : node ∈ nodes)
    (hasset : node.asset = some asset) : Tiled 0 asset.chunks asset.size := by
  obtain ⟨-, hrest⟩ := ensure_bind_ok.mp h
  obtain ⟨assets, hassets, hrest⟩ := except_bind_ok.mp hrest
  obtain ⟨-, hrest⟩ := ensure_bind_ok.mp hrest
  obtain ⟨tree, htree, hnodes⟩ := except_bind_ok.mp hrest
  obtain rfl := Except.ok.inj hnodes
  have htiled : ∀ entry ∈ assets, Tiled 0 entry.2.chunks entry.2.size := by
    refine foldlM_keeps (fun assets : List (String × SophonAsset) =>
      ∀ entry ∈ assets, Tiled 0 entry.2.chunks entry.2.size) hassets nofun ?_
    intro before manifest after _ hbefore hmanifest
    obtain ⟨-, hmanifest⟩ := ensure_bind_ok.mp hmanifest
    exact foldlM_keeps _ hmanifest hbefore fun _ _ _ _ hb hadd => tiled_addAsset hb hadd
  have htree' : TreeTiled tree := by
    refine foldlM_keeps TreeTiled htree
      (treeTiled_set (fun _ hentry => absurd hentry List.not_mem_nil) nofun) ?_
    intro before entry after hentry hbefore hadd
    refine treeTiled_addNode hbefore (htiled entry ?_) hadd
    exact (List.perm_insertionSort _ _).mem_iff.mp hentry
  obtain ⟨entry, hentry, rfl⟩ := List.mem_map.mp hnode
  exact htree' entry ((List.perm_insertionSort _ _).mem_iff.mp hentry) asset hasset

/-! ## Tilings -/

theorem tiled_append {before after : List SophonChunk} :
    Tiled place (before ++ after) finish ↔
      ∃ middle, Tiled place before middle ∧ Tiled middle after finish := by
  induction before generalizing place with
  | nil => exact ⟨fun h => ⟨place, rfl, h⟩, fun ⟨_, rfl, h⟩ => h⟩
  | cons chunk rest ih =>
    change _ ∧ _ ∧ Tiled (place + chunk.dsize) (rest ++ after) finish ↔ _
    rw [ih]
    constructor
    · rintro ⟨hoffset, hsize, middle, hrest, hafter⟩
      exact ⟨middle, ⟨hoffset, hsize, hrest⟩, hafter⟩
    · rintro ⟨middle, ⟨hoffset, hsize, hrest⟩, hafter⟩
      exact ⟨hoffset, hsize, middle, hrest, hafter⟩

theorem tiled_from (h : Tiled place chunks finish) : ∀ chunk ∈ chunks, place ≤ chunk.offset := by
  induction chunks generalizing place with
  | nil => nofun
  | cons chunk rest ih =>
    intro other hother
    rcases List.mem_cons.mp hother with rfl | hrest
    · exact Nat.le_of_eq h.1.symm
    · exact Nat.le_trans (Nat.le_add_right _ _) (ih h.2.2 other hrest)

theorem tiled_pairwise (h : Tiled place chunks finish) :
    chunks.Pairwise fun a b => a.offset + a.dsize ≤ b.offset := by
  induction chunks generalizing place with
  | nil => exact .nil
  | cons chunk rest ih =>
    obtain ⟨hoffset, -, hrest⟩ := h
    refine .cons (fun other hother => ?_) (ih hrest)
    rw [hoffset]
    exact tiled_from hrest other hother

/-- INTERNAL: tiles that all end at or before a place. -/
theorem tiled_end_le (h : Tiled place chunks finish) {bound : Nat} (hplace : place ≤ bound)
    (hends : ∀ chunk ∈ chunks, chunk.offset + chunk.dsize ≤ bound) : finish ≤ bound := by
  induction chunks generalizing place with
  | nil => exact Nat.le_trans (Nat.le_of_eq h.symm) hplace
  | cons chunk rest ih =>
    obtain ⟨hoffset, -, hrest⟩ := h
    refine ih hrest ?_ fun other hother => hends other (List.mem_cons_of_mem _ hother)
    rw [← hoffset]
    exact hends chunk List.mem_cons_self

/-! ## The chunks of a window -/

/-- INTERNAL: the chunks of a window with what stands before and behind them. -/
theorem selectChunks_split (h : Tiled 0 asset.chunks asset.size) (hle : finish ≤ asset.size) :
    ∃ before after place stop,
      asset.chunks = before ++ (selectChunks asset offset finish ++ after) ∧
      Tiled 0 before place ∧ Tiled place (selectChunks asset offset finish) stop ∧
      place ≤ offset ∧ finish ≤ stop ∧
      ∀ chunk ∈ selectChunks asset offset finish,
        chunk.offset < finish ∧ offset < chunk.offset + chunk.dsize := by
  have hpairs := tiled_pairwise h
  have hends : asset.chunks.Pairwise fun a b =>
      decide (b.offset + b.dsize ≤ offset) = true →
        decide (a.offset + a.dsize ≤ offset) = true := by
    refine hpairs.imp fun {a b} hab hb => decide_eq_true ?_
    have hb := of_decide_eq_true hb
    omega
  have hstarts : asset.chunks.Pairwise fun a b =>
      decide (b.offset < finish) = true → decide (a.offset < finish) = true := by
    refine hpairs.imp fun {a b} hab hb => decide_eq_true ?_
    have hb := of_decide_eq_true hb
    omega
  obtain ⟨hended, hopen⟩ := partitionPoint_spec hends
  obtain ⟨hbegun, hlater⟩ := partitionPoint_spec hstarts
  unfold selectChunks
  generalize partitionPoint (fun c => decide (c.offset + c.dsize ≤ offset)) asset.chunks =
    first at *
  generalize partitionPoint (fun c => decide (c.offset < finish)) asset.chunks = last at *
  have hsplit : asset.chunks = (asset.chunks.take last).take first ++
      ((asset.chunks.take last).drop first ++ asset.chunks.drop last) := by
    rw [← List.append_assoc, List.take_append_drop, List.take_append_drop]
  have htiled := h
  rw [hsplit] at htiled
  obtain ⟨place, hbefore, hrest⟩ := tiled_append.mp htiled
  obtain ⟨stop, hselected, hafter⟩ := tiled_append.mp hrest
  refine ⟨_, _, place, stop, hsplit, hbefore, hselected, ?_, ?_, fun chunk hchunk => ⟨?_, ?_⟩⟩
  · refine tiled_end_le hbefore (Nat.zero_le _) fun chunk hchunk => ?_
    rw [List.take_take, Nat.min_comm, ← List.take_take] at hchunk
    exact of_decide_eq_true (hended chunk (List.mem_of_mem_take hchunk))
  · cases hlist : asset.chunks.drop last with
    | nil =>
      rw [hlist] at hafter
      exact Nat.le_trans hle (Nat.le_of_eq hafter.symm)
    | cons next others =>
      rw [hlist] at hafter hlater
      rw [← hafter.1]
      exact Nat.le_of_not_lt (of_decide_eq_false (hlater next List.mem_cons_self))
  · exact of_decide_eq_true (hbegun chunk (List.mem_of_mem_drop hchunk))
  · rw [List.drop_take] at hchunk
    exact Nat.lt_of_not_le (of_decide_eq_false (hopen chunk (List.mem_of_mem_take hchunk)))

/-! ## Plaintexts -/

/-- INTERNAL: bytes that passed the verification of a chunk. -/
def Genuine (ext : SophonExternals) (contents : Set (List UInt8)) (bytes : List UInt8)
    (chunk : SophonChunk) : Prop :=
  bytes ∈ contents ∧ verified ext bytes chunk = true

theorem verified_length (h : verified ext bytes chunk = true) : bytes.length = chunk.dsize :=
  of_decide_eq_true (Bool.and_eq_true_iff.mp h).1

theorem digitChar_lower_inj {a b : Nat} (ha : a < 16) (hb : b < 16)
    (h : (Nat.digitChar a).toLower = (Nat.digitChar b).toLower) : a = b := by
  have hall : ∀ a < 16, ∀ b < 16,
      (Nat.digitChar a).toLower = (Nat.digitChar b).toLower → a = b := by
    decide
  exact hall a ha b hb h

theorem hexText_lower_inj {x y : List UInt8}
    (h : (hexText x).map Char.toLower = (hexText y).map Char.toLower) : x = y := by
  induction x generalizing y with
  | nil =>
    cases y with
    | nil => rfl
    | cons b y => cases h
  | cons a x ih =>
    cases y with
    | nil => cases h
    | cons b y =>
      change _ :: _ :: (hexText x).map Char.toLower =
        _ :: _ :: (hexText y).map Char.toLower at h
      obtain ⟨hhigh, htail⟩ := List.cons.inj h
      obtain ⟨hlow, hrest⟩ := List.cons.inj htail
      have ha := a.toNat_lt
      have hb := b.toNat_lt
      have hhigh := digitChar_lower_inj (by omega) (by omega) hhigh
      have hlow := digitChar_lower_inj (by omega) (by omega) hlow
      have hbyte : a = b := UInt8.toNat_inj.mp (by omega)
      rw [hbyte, ih hrest]

/-- INTERNAL: where MD5 has no collision, a chunk has one plaintext. -/
theorem genuine_unique (hmd5 : Set.InjOn ext.md5 contents) {other : List UInt8}
    (h : Genuine ext contents bytes chunk) (h' : Genuine ext contents other chunk) :
    bytes = other := by
  have hdigest := of_decide_eq_true (Bool.and_eq_true_iff.mp h.2).2
  have hdigest' := of_decide_eq_true (Bool.and_eq_true_iff.mp h'.2).2
  exact hmd5 h.1 h'.1 (hexText_lower_inj (hdigest.trans hdigest'.symm))

variable {plain : List (List UInt8)}

theorem plain_length (h : List.Forall₂ (Genuine ext contents) plain chunks)
    (htiled : Tiled place chunks finish) : place + plain.flatten.length = finish := by
  induction h generalizing place with
  | nil => exact htiled
  | cons hhead htail ih =>
    rw [List.flatten_cons, List.length_append, verified_length hhead.2, ← Nat.add_assoc]
    exact ih htiled.2.2

/-- INTERNAL: the plaintext of a chunk in the plaintext of its asset. -/
theorem slice_plain {before after : List SophonChunk} (hmd5 : Set.InjOn ext.md5 contents)
    (h : List.Forall₂ (Genuine ext contents) plain (before ++ chunk :: after))
    (htiled : Tiled 0 before place) (hbytes : Genuine ext contents bytes chunk) :
    slice plain.flatten place chunk.dsize = bytes := by
  have hbefore := List.forall₂_take_append _ _ _ h
  have hrest := List.forall₂_drop_append _ _ _ h
  have hsplit := (List.take_append_drop before.length plain).symm
  cases hlist : plain.drop before.length with
  | nil =>
    rw [hlist] at hrest
    cases hrest
  | cons first rest =>
    rw [hlist] at hrest hsplit
    obtain ⟨hfirst, -⟩ := List.forall₂_cons.mp hrest
    have hplace := plain_length hbefore htiled
    rw [hsplit, List.flatten_append, List.flatten_cons, genuine_unique hmd5 hbytes hfirst]
    exact slice_middle (by omega) (verified_length hfirst.2)

/-! ## Copying -/

/-- INTERNAL: how far the window is filled when the chunks before `place` are copied. -/
def filled (offset finish place : Nat) : Nat := min finish (max offset place) - offset

/-- INTERNAL: the window `[offset, finish)` with the chunks that are still to be copied. -/
structure Copying (ext : SophonExternals) (contents : Set (List UInt8)) (asset : SophonAsset)
    (offset finish : Nat) (todo : List SophonChunk) (output : List UInt8) : Prop where
  split : ∃ before after place stop, asset.chunks = before ++ (todo ++ after) ∧
    Tiled 0 before place ∧ Tiled place todo stop ∧ finish ≤ stop ∧
    ∀ plain, Plaintexts ext contents asset plain →
      output.take (filled offset finish place) =
        slice plain.flatten offset (filled offset finish place)
  meets : ∀ chunk ∈ todo, chunk.offset < finish ∧ offset < chunk.offset + chunk.dsize
  window : offset < finish
  room : finish - offset ≤ output.length

theorem copying_start (h : Tiled 0 asset.chunks asset.size) (hlt : offset < finish)
    (hle : finish ≤ asset.size) (hroom : finish - offset ≤ output.length) :
    Copying ext contents asset offset finish (selectChunks asset offset finish) output := by
  obtain ⟨before, after, place, stop, hsplit, hbefore, hselected, hplace, hstop, hmeets⟩ :=
    selectChunks_split h hle
  refine ⟨⟨before, after, place, stop, hsplit, hbefore, hselected, hstop, ?_⟩, hmeets, hlt, hroom⟩
  intro plain _
  have hzero : filled offset finish place = 0 := by
    unfold filled
    omega
  rw [hzero, slice_zero, List.take_zero]

theorem copying_end (h : Copying ext contents asset offset finish [] output)
    (hplain : Plaintexts ext contents asset plain) :
    output.take (finish - offset) = slice plain.flatten offset (finish - offset) := by
  obtain ⟨before, after, place, stop, -, -, hstop, hle, hcopied⟩ := h.split
  have hplace : place = stop := hstop
  have hall : filled offset finish place = finish - offset := by
    unfold filled
    omega
  rw [← hall]
  exact hcopied plain hplain

theorem writeAt_length {piece : List UInt8} (h : place + piece.length ≤ output.length) :
    (writeAt output place piece).length = output.length := by
  unfold writeAt
  rw [List.length_append, List.length_append, List.length_take, List.length_drop]
  omega

theorem take_writeAt {piece : List UInt8} (h : place + piece.length ≤ output.length) :
    (writeAt output place piece).take (place + piece.length) = output.take place ++ piece := by
  unfold writeAt
  have hlength : (output.take place ++ piece).length = place + piece.length := by
    rw [List.length_append, List.length_take]
    omega
  rw [← hlength, List.take_left]

/-- INTERNAL: one chunk is copied behind what is copied already. -/
theorem copying_chunk (hmd5 : Set.InjOn ext.md5 contents)
    (h : Copying ext contents asset offset finish (chunk :: todo) output)
    (hbytes : Genuine ext contents bytes chunk) :
    Copying ext contents asset offset finish todo (copyChunk offset finish output chunk bytes) ∧
      (copyChunk offset finish output chunk bytes).length = output.length := by
  obtain ⟨before, after, place, stop, hsplit, hbefore, ⟨hoffset, hsize, hrest⟩, hstop, hcopied⟩ :=
    h.split
  obtain ⟨hstarts, hends⟩ := h.meets chunk List.mem_cons_self
  have hwindow := h.window
  have hroom := h.room
  have hlength := verified_length hbytes.2
  subst hoffset
  -- the piece of the chunk inside the window
  have hpiece : (slice bytes (max offset chunk.offset - chunk.offset)
      (min finish (chunk.offset + chunk.dsize) - max offset chunk.offset)).length =
        min finish (chunk.offset + chunk.dsize) - max offset chunk.offset :=
    length_slice (by omega)
  have hfits : max offset chunk.offset - offset + (slice bytes (max offset chunk.offset -
      chunk.offset) (min finish (chunk.offset + chunk.dsize) - max offset chunk.offset)).length ≤
        output.length := by
    rw [hpiece]
    omega
  have hsame : (copyChunk offset finish output chunk bytes).length = output.length :=
    writeAt_length hfits
  refine ⟨⟨⟨before ++ [chunk], after, chunk.offset + chunk.dsize, stop, ?_, ?_, hrest, hstop, ?_⟩,
    fun other hother => h.meets other (List.mem_cons_of_mem _ hother), hwindow, ?_⟩, hsame⟩
  · rw [hsplit, List.append_assoc]
    rfl
  · exact tiled_append.mpr ⟨chunk.offset, hbefore, rfl, hsize, rfl⟩
  · intro plain hplain
    have hplain' : List.Forall₂ (Genuine ext contents) plain
        (before ++ chunk :: (todo ++ after)) := by
      rw [← List.cons_append, ← hsplit]
      exact hplain
    have hsource := slice_plain hmd5 hplain' hbefore hbytes
    have hold := hcopied plain hplain
    have hfilled : filled offset finish chunk.offset = max offset chunk.offset - offset := by
      unfold filled
      omega
    have hnew : filled offset finish (chunk.offset + chunk.dsize) =
        max offset chunk.offset - offset +
          (min finish (chunk.offset + chunk.dsize) - max offset chunk.offset) := by
      unfold filled
      omega
    have hplace : offset + (max offset chunk.offset - offset) =
        chunk.offset + (max offset chunk.offset - chunk.offset) := by
      omega
    rw [hfilled] at hold
    have hinner : slice plain.flatten (chunk.offset + (max offset chunk.offset - chunk.offset))
        (min finish (chunk.offset + chunk.dsize) - max offset chunk.offset) =
          slice bytes (max offset chunk.offset - chunk.offset)
            (min finish (chunk.offset + chunk.dsize) - max offset chunk.offset) := by
      rw [← hsource, slice_slice (by omega)]
    have htake := take_writeAt hfits
    rw [hpiece] at htake
    rw [hnew, slice_add, ← hold, hplace, hinner]
    exact htake
  · rw [hsame]
    exact hroom

end Mirage.Analysis
