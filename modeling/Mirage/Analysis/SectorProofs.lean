import Mirage.Analysis.PackRoundTrip

/-!
# Sectors agree with whole frames

The tree that is rebuilt from the values of the sectors is the tree of the plaintext: a string of
more than one sector is split between sectors.  Conversely a rebuilt root that is the digest of a
plaintext compares, level by level, with the tree of that plaintext, whatever the catalog holds;
the selected sector then has the value of a node of that tree, at its own offset, and so its bytes.
-/

set_option autoImplicit false

namespace Mirage.Analysis

open Mirage.Computation Mirage.Model Mirage.Interface

/-! ## Lengths and slices -/

theorem chunk_dvd_sector {n : Nat} (h : verifiedSectorBytes ∣ n) : 2 ^ 10 ∣ n :=
  Nat.dvd_trans (by decide) h

variable {length : Nat}

theorem split_aligned (h : verifiedSectorBytes < length) :
    verifiedSectorBytes ∣ leftLength length := dvd_leftLength (k := 16) h

theorem split_lt (h : verifiedSectorBytes < length) : leftLength length < length :=
  leftLength_lt (Nat.lt_of_le_of_lt (by decide) h)

/-- INTERNAL: a stretch of at most one sector that is a full one or the end of the plaintext. -/
theorem slice_eq_sectorAt {plaintext : List UInt8} {start : Nat}
    (hlength : length ≤ verifiedSectorBytes)
    (hend : start + length = plaintext.length ∨ length = verifiedSectorBytes) :
    slice plaintext start length = sectorAt plaintext start := by
  rcases hend with hend | rfl
  · unfold sectorAt slice
    rw [List.take_of_length_le (by rw [List.length_drop]; omega),
      List.take_of_length_le (by rw [List.length_drop]; omega)]
  · rfl

theorem eq_sector_of_dvd (hpos : 0 < length) (hlength : length ≤ verifiedSectorBytes)
    (hdvd : verifiedSectorBytes ∣ length) : length = verifiedSectorBytes :=
  Nat.le_antisymm hlength (Nat.le_of_dvd hpos hdvd)

/-! ## Rebuilt trees -/

section Rebuild

variable {tree : TreeHash (BitVec 256) UInt8} {leaves : List (BitVec 256)} {index : Nat}
  {selected : BitVec 256} {start length : Nat}

theorem rebuild_short (h : length ≤ verifiedSectorBytes) (root : Bool) :
    rebuild tree leaves start length index selected root =
      if start / verifiedSectorBytes = index then .ok selected
      else someOr leaves[start / verifiedSectorBytes]? invalidSector := by
  rw [rebuild, if_pos h]

theorem rebuild_long (h : verifiedSectorBytes < length) (root : Bool) {value : BitVec 256} :
    rebuild tree leaves start length index selected root = .ok value ↔ ∃ left right,
      rebuild tree leaves start (leftLength length) index selected false = .ok left ∧
      rebuild tree leaves (start + leftLength length) (length - leftLength length) index selected
        false = .ok right ∧
      value = if root then tree.root (.parent left right) else tree.inner (.parent left right) := by
  rw [rebuild, if_neg (Nat.not_le_of_lt h), except_bind_ok]
  refine exists_congr fun left => ?_
  rw [except_bind_ok]
  constructor
  · rintro ⟨hleft, right, hright, hvalue⟩
    exact ⟨right, hleft, hright, (Except.ok.inj hvalue).symm⟩
  · rintro ⟨right, hleft, hright, rfl⟩
    exact ⟨hleft, right, hright, rfl⟩

end Rebuild

/-! ## The tree of the plaintext -/

section Complete

variable {tree : TreeHash (BitVec 256) UInt8} {leaves : List (BitVec 256)} {index : Nat}
  {plaintext : List UInt8}

/-- INTERNAL: the leaves are the values over the sectors. -/
def LeavesOf (tree : TreeHash (BitVec 256) UInt8) (plaintext : List UInt8)
    (leaves : List (BitVec 256)) : Prop :=
  ∀ i, i * verifiedSectorBytes < plaintext.length → leaves[i]? =
    some (subtreeValue tree 10 (i * verifiedSectorBytes)
      (sectorAt plaintext (i * verifiedSectorBytes)))

theorem topNode_slice {start length : Nat} (hlong : verifiedSectorBytes < length)
    (hwithin : start + length ≤ plaintext.length) :
    topNode tree 10 start (slice plaintext start length) =
      .parent (subtreeValue tree 10 start (slice plaintext start (leftLength length)))
        (subtreeValue tree 10 (start + leftLength length)
          (slice plaintext (start + leftLength length) (length - leftLength length))) := by
  have hlength : (slice plaintext start length).length = length := length_slice hwithin
  have hchunk : 2 ^ 10 < (slice plaintext start length).length := by
    rw [hlength]
    exact Nat.lt_trans (by decide) hlong
  rw [topNode_long hchunk, hlength, take_slice (Nat.le_of_lt (split_lt hlong)), drop_slice]

/-- INTERNAL: between sectors, what is rebuilt is the value over the stretch. -/
theorem rebuild_true (hleaves : LeavesOf tree plaintext leaves) {start length : Nat}
    (hstart : verifiedSectorBytes ∣ start) (hpos : 0 < length)
    (hwithin : start + length ≤ plaintext.length)
    (hend : start + length = plaintext.length ∨ verifiedSectorBytes ∣ length) :
    rebuild tree leaves start length index
        (subtreeValue tree 10 (index * verifiedSectorBytes)
          (sectorAt plaintext (index * verifiedSectorBytes))) false =
      .ok (subtreeValue tree 10 start (slice plaintext start length)) := by
  induction hn : length using Nat.strong_induction_on generalizing start length with
  | _ n ih =>
    subst hn
    by_cases hshort : length ≤ verifiedSectorBytes
    · obtain ⟨i, rfl⟩ := hstart
      have hslice := slice_eq_sectorAt hshort
        (hend.imp_right fun hdvd => eq_sector_of_dvd hpos hshort hdvd)
      have hindex : verifiedSectorBytes * i / verifiedSectorBytes = i :=
        Nat.mul_div_cancel_left i (by decide)
      rw [rebuild_short hshort, hindex, hslice]
      by_cases hsame : i = index
      · rw [if_pos hsame, hsame, Nat.mul_comm]
      · rw [if_neg hsame, hleaves i (by rw [Nat.mul_comm]; omega), Nat.mul_comm]
        rfl
    · have hlong := Nat.lt_of_not_le hshort
      have hdvd := split_aligned hlong
      have hlt := split_lt hlong
      have hcut := leftLength_pos length
      refine (rebuild_long hlong false).mpr ⟨_, _,
        ih _ hlt hstart hcut (by omega) (Or.inr hdvd) rfl,
        ih _ (by omega) (Nat.dvd_add hstart hdvd) (by omega) (by omega) ?_ rfl, ?_⟩
      · rcases hend with hend | hlength
        · exact Or.inl (by omega)
        · exact Or.inr (Nat.dvd_sub hlength hdvd)
      · unfold subtreeValue
        rw [topNode_slice hlong hwithin]
        rfl

theorem rebuild_root (hleaves : LeavesOf tree plaintext leaves)
    (hlong : verifiedSectorBytes < plaintext.length) :
    rebuild tree leaves 0 plaintext.length index
        (subtreeValue tree 10 (index * verifiedSectorBytes)
          (sectorAt plaintext (index * verifiedSectorBytes))) true =
      .ok (treeValue tree 10 plaintext) := by
  have hdvd := split_aligned hlong
  have hlt := split_lt hlong
  refine (rebuild_long hlong true).mpr ⟨_, _,
    rebuild_true hleaves (Nat.dvd_zero _) (leftLength_pos _) (by omega) (Or.inr hdvd),
    rebuild_true hleaves (Nat.dvd_add (Nat.dvd_zero _) hdvd) (by omega) (by omega)
      (Or.inl (by omega)), ?_⟩
  have hwhole : slice plaintext 0 plaintext.length = plaintext := List.take_length
  have htop := @topNode_slice tree _ _ _ hlong (Nat.le_of_eq (Nat.zero_add plaintext.length))
  rw [hwhole] at htop
  unfold treeValue
  rw [htop]
  rfl

end Complete

/-! ## Any catalog -/

section Sound

variable {tree : TreeHash (BitVec 256) UInt8} {leaves : List (BitVec 256)} {index total : Nat}
  {plaintext bytes : List UInt8} {nodes : Set (HashNode (BitVec 256) UInt8)}
  {start length place : Nat} {region : List UInt8}

/-- INTERNAL: a stretch of the rebuilt tree around the selected sector, next to the part of the
tree of the plaintext that it is compared with.  The two lengths need not agree; only the last
stretch is compared with the end of the plaintext. -/
structure Compared (tree : TreeHash (BitVec 256) UInt8) (leaves : List (BitVec 256))
    (index total : Nat) (plaintext bytes : List UInt8)
    (nodes : Set (HashNode (BitVec 256) UInt8)) (start length place : Nat) (region : List UInt8) :
    Prop where
  aligned : verifiedSectorBytes ∣ start
  low : start ≤ index * verifiedSectorBytes
  high : index * verifiedSectorBytes < start + length
  within : start + length ≤ total
  lengths : start + length = total ∨ verifiedSectorBytes ∣ length
  chunk : 2 ^ 10 ∣ place
  part : region = slice plaintext place region.length
  ends : start + length = total → place + region.length = plaintext.length
  hashed : ∀ node, HashedIn tree 10 place region node → node ∈ nodes
  rebuilt : ∀ node, RebuiltIn tree leaves index
    (subtreeValue tree 10 (index * verifiedSectorBytes) bytes) start length node → node ∈ nodes

theorem Compared.left
    (h : Compared tree leaves index total plaintext bytes nodes start length place region)
    (hlong : verifiedSectorBytes < length) (hregion : 2 ^ 10 < region.length)
    (hside : index * verifiedSectorBytes < start + leftLength length) :
    Compared tree leaves index total plaintext bytes nodes start (leftLength length) place
      (region.take (leftLength region.length)) := by
  have hlt := split_lt hlong
  have hcut : leftLength region.length < region.length :=
    leftLength_lt (Nat.lt_of_le_of_lt (by decide) hregion)
  have hwithin := h.within
  refine ⟨h.aligned, h.low, hside, by omega, Or.inr (split_aligned hlong), h.chunk, ?_, by omega,
    fun node hnode => h.hashed node (.left hregion hnode),
    fun node hnode => h.rebuilt node (.left hlong hnode)⟩
  rw [List.length_take, Nat.min_eq_left (Nat.le_of_lt hcut)]
  exact (congrArg (List.take _) h.part).trans (take_slice (Nat.le_of_lt hcut))

theorem Compared.right
    (h : Compared tree leaves index total plaintext bytes nodes start length place region)
    (hlong : verifiedSectorBytes < length) (hregion : 2 ^ 10 < region.length)
    (hside : start + leftLength length ≤ index * verifiedSectorBytes) :
    Compared tree leaves index total plaintext bytes nodes (start + leftLength length)
      (length - leftLength length) (place + leftLength region.length)
      (region.drop (leftLength region.length)) := by
  have hlt := split_lt hlong
  have hdvd := split_aligned hlong
  have hcut : leftLength region.length < region.length :=
    leftLength_lt (Nat.lt_of_le_of_lt (by decide) hregion)
  have hwithin := h.within
  have hhigh := h.high
  have hsum : start + leftLength length + (length - leftLength length) = start + length := by omega
  refine ⟨Nat.dvd_add h.aligned hdvd, hside, by omega, by omega, ?_,
    Nat.dvd_add h.chunk (dvd_leftLength hregion), ?_, ?_,
    fun node hnode => h.hashed node (.right hregion hnode),
    fun node hnode => h.rebuilt node (.right hlong hnode)⟩
  · rw [hsum]
    exact h.lengths.imp_right fun hlength => Nat.dvd_sub hlength hdvd
  · rw [List.length_drop]
    exact (congrArg (List.drop _) h.part).trans (drop_slice _ _ _ _)
  · intro hend
    have hends := h.ends (by omega)
    rw [List.length_drop]
    omega

/-- INTERNAL: at a sector, the values are those of two strings at two offsets. -/
theorem Compared.sector (hfree : CollisionFree tree nodes)
    (hfound : ∀ node, HashedIn tree 10 (index * verifiedSectorBytes) bytes node → node ∈ nodes)
    (hbytes : bytes.length = min verifiedSectorBytes (total - index * verifiedSectorBytes))
    (h : Compared tree leaves index total plaintext bytes nodes start length place region)
    (hshort : length ≤ verifiedSectorBytes)
    (hvalue : subtreeValue tree 10 (index * verifiedSectorBytes) bytes =
      subtreeValue tree 10 place region) :
    bytes = sectorAt plaintext (index * verifiedSectorBytes) := by
  obtain ⟨hplace, hsame⟩ := subtreeValue_inj hfree hfound h.hashed
    (chunk_dvd_sector (Nat.dvd_mul_left _ _)) h.chunk hvalue
  subst hsame
  -- The selected sector is the one that starts here.
  have hstart : start = index * verifiedSectorBytes := by
    obtain ⟨i, rfl⟩ := h.aligned
    have hlow := h.low
    have hhigh := h.high
    unfold verifiedSectorBytes at hlow hhigh hshort ⊢
    omega
  have hwithin := h.within
  have hhigh := h.high
  rw [h.part, ← hplace]
  refine slice_eq_sectorAt (by omega) ?_
  rcases h.lengths with hend | hdvd
  · left
    rw [hplace]
    exact h.ends hend
  · right
    have hfull := eq_sector_of_dvd (by omega) hshort hdvd
    omega

variable (hfree : CollisionFree tree nodes)
  (hfound : ∀ node, HashedIn tree 10 (index * verifiedSectorBytes) bytes node → node ∈ nodes)
  (hbytes : bytes.length = min verifiedSectorBytes (total - index * verifiedSectorBytes))

/-- INTERNAL: the selected sector is in one of the two halves of a rebuilt node. -/
theorem Compared.halves
    (h : Compared tree leaves index total plaintext bytes nodes start length place region)
    (hlong : verifiedSectorBytes < length) {left right : BitVec 256}
    (hleft : rebuild tree leaves start (leftLength length) index
      (subtreeValue tree 10 (index * verifiedSectorBytes) bytes) false = .ok left)
    (hright : rebuild tree leaves (start + leftLength length) (length - leftLength length) index
      (subtreeValue tree 10 (index * verifiedSectorBytes) bytes) false = .ok right)
    (htop : topNode tree 10 place region = .parent left right) :
    ∃ start' length' place' region', length' < length ∧
      Compared tree leaves index total plaintext bytes nodes start' length' place' region' ∧
      rebuild tree leaves start' length' index
          (subtreeValue tree 10 (index * verifiedSectorBytes) bytes) false =
        .ok (subtreeValue tree 10 place' region') := by
  obtain ⟨hregion, rfl, rfl⟩ := topNode_eq_parent htop
  have hcut := leftLength_pos length
  by_cases hside : index * verifiedSectorBytes < start + leftLength length
  · exact ⟨_, _, _, _, split_lt hlong, h.left hlong hregion hside, hleft⟩
  · exact ⟨_, _, _, _, by omega, h.right hlong hregion (Nat.le_of_not_lt hside), hright⟩

include hfree hfound hbytes in
/-- INTERNAL: a rebuilt value that is the value of a part of the plaintext proves the sector. -/
theorem Compared.proves
    (h : Compared tree leaves index total plaintext bytes nodes start length place region)
    (hok : rebuild tree leaves start length index
      (subtreeValue tree 10 (index * verifiedSectorBytes) bytes) false =
        .ok (subtreeValue tree 10 place region)) :
    bytes = sectorAt plaintext (index * verifiedSectorBytes) := by
  induction hn : length using Nat.strong_induction_on generalizing start length place region with
  | _ n ih =>
    subst hn
    by_cases hshort : length ≤ verifiedSectorBytes
    · refine h.sector hfree hfound hbytes hshort ?_
      have hindex : start / verifiedSectorBytes = index := by
        have hlow := h.low
        have hhigh := h.high
        obtain ⟨i, rfl⟩ := h.aligned
        rw [Nat.mul_div_cancel_left i (by decide)]
        unfold verifiedSectorBytes at hlow hhigh hshort
        omega
      rw [rebuild_short hshort, if_pos hindex] at hok
      exact Except.ok.inj hok
    · have hlong := Nat.lt_of_not_le hshort
      obtain ⟨left, right, hleft, hright, hvalue⟩ := (rebuild_long hlong false).mp hok
      have htop := hfree.inner (h.hashed _ .top) (h.rebuilt _ (.top hlong hleft hright)) hvalue
      obtain ⟨_, _, _, _, hlt, hhalf, hvalue⟩ := h.halves hlong hleft hright htop
      exact ih _ hlt hhalf hvalue rfl

end Sound

/-! ## Decoding a sector -/

section Decode

variable {ext : SectorExternals} {key : RepositoryKey} {catalog : FrameProofCatalog}
  {aad : EncryptedFrameAad} {offset : Nat} {plaintext ciphertext bytes : List UInt8}

theorem decodeVerifiedSector_ok :
    decodeVerifiedSector ext key catalog aad offset ciphertext = .ok bytes ↔
      ¬ sectorRefused catalog aad offset ciphertext ∧
      bytes = decryptSector ext key catalog offset ciphertext ∧
      frameDigest ext catalog aad.plaintextLength offset bytes = .ok aad.plaintextHash := by
  unfold decodeVerifiedSector
  rw [ensure_bind_ok]
  refine and_congr_right fun _ => ?_
  constructor
  · intro h
    obtain ⟨actual, hactual, h⟩ := except_bind_ok.mp h
    obtain ⟨hsame, hbytes⟩ := ensure_bind_ok.mp h
    cases hbytes
    exact ⟨rfl, hactual.trans (congrArg _ hsame)⟩
  · rintro ⟨rfl, hactual⟩
    exact except_bind_ok.mpr ⟨_, hactual, ensure_bind_ok.mpr ⟨rfl, rfl⟩⟩

theorem length_decryptSector (ext : SectorExternals) (key : RepositoryKey)
    (catalog : FrameProofCatalog) (offset : Nat) (ciphertext : List UInt8) :
    (decryptSector ext key catalog offset ciphertext).length = ciphertext.length :=
  List.length_mapIdx

/-- INTERNAL: whatever the call is given, what it returns is the sector of the plaintext that the
metadata names. -/
theorem decodeVerifiedSector_sound (hok : SectorsOk ext)
    (hhash : ext.blake3 plaintext = aad.plaintextHash)
    (hfree : CollisionFree ext.tree (nodesOfCall ext plaintext key catalog aad offset ciphertext))
    (h : decodeVerifiedSector ext key catalog aad offset ciphertext = .ok bytes) :
    bytes = sectorAt plaintext offset := by
  obtain ⟨haccepted, rfl, hroot⟩ := decodeVerifiedSector_ok.mp h
  have hplain : ∀ node, HashedIn ext.tree 10 0 plaintext node →
      node ∈ nodesOfCall ext plaintext key catalog aad offset ciphertext := fun _ => Or.inl
  have hfound : ∀ node, HashedIn ext.tree 10 offset
      (decryptSector ext key catalog offset ciphertext) node →
      node ∈ nodesOfCall ext plaintext key catalog aad offset ciphertext :=
    fun _ hnode => Or.inr (Or.inl hnode)
  unfold sectorRefused at haccepted
  push Not at haccepted
  obtain ⟨-, -, -, -, -, -, -, haligned, hwithin, hlength, -⟩ := haccepted
  obtain ⟨index, rfl⟩ : ∃ index, offset = index * verifiedSectorBytes :=
    ⟨_, (Nat.div_mul_cancel (Nat.dvd_of_mod_eq_zero haligned)).symm⟩
  have hindex : index * verifiedSectorBytes / verifiedSectorBytes = index :=
    Nat.mul_div_cancel index (by decide)
  have hbytes := (length_decryptSector ext key catalog (index * verifiedSectorBytes)
    ciphertext).trans hlength
  unfold frameDigest finalizeNonRoot at hroot
  rw [← hhash, hok.digest plaintext, hindex] at hroot
  by_cases hshort : aad.plaintextLength ≤ verifiedSectorBytes
  · -- The one sector is the whole frame.
    have hzero : index * verifiedSectorBytes = 0 :=
      Nat.eq_zero_of_dvd_of_lt (Nat.dvd_mul_left _ _) (by omega)
    rw [hzero] at hroot hfound hplain hfree hbytes ⊢
    rw [if_pos hshort, hok.digest] at hroot
    have hsame := treeValue_inj hfree hfound hplain (Except.ok.inj hroot)
    rw [hsame] at hbytes ⊢
    exact (List.take_of_length_le (by omega)).symm
  · have hlong := Nat.lt_of_not_le hshort
    rw [if_neg hshort] at hroot
    obtain ⟨left, right, hleft, hright, hvalue⟩ := (rebuild_long hlong true).mp hroot
    have hrebuilt : ∀ node, RebuiltIn ext.tree catalog.leaves index
        (subtreeValue ext.tree 10 (index * verifiedSectorBytes)
          (decryptSector ext key catalog (index * verifiedSectorBytes) ciphertext))
        0 aad.plaintextLength node →
        node ∈ nodesOfCall ext plaintext key catalog aad (index * verifiedSectorBytes)
          ciphertext := by
      intro node hnode
      refine Or.inr (Or.inr ?_)
      rw [hindex]
      exact hnode
    have hcompared : Compared ext.tree catalog.leaves index aad.plaintextLength plaintext
        (decryptSector ext key catalog (index * verifiedSectorBytes) ciphertext)
        (nodesOfCall ext plaintext key catalog aad (index * verifiedSectorBytes) ciphertext)
        0 aad.plaintextLength 0 plaintext :=
      ⟨Nat.dvd_zero _, Nat.zero_le _, by omega, by omega, Or.inl (Nat.zero_add _),
        Nat.dvd_zero _, List.take_length.symm, fun _ => Nat.zero_add _, hplain, hrebuilt⟩
    have htop := hfree.root (hplain _ .top) (hrebuilt _ (.top hlong hleft hright)) hvalue
    obtain ⟨_, _, _, _, -, hhalf, hvalue⟩ := hcompared.halves hlong hleft hright htop
    exact hhalf.proves hfree hfound hbytes hvalue

/-- INTERNAL: the digest of a frame is rebuilt around each of its sectors. -/
theorem frameDigest_own (hok : SectorsOk ext)
    (hleaves : LeavesOf ext.tree plaintext catalog.leaves) {index : Nat}
    (hwithin : index * verifiedSectorBytes < plaintext.length) :
    frameDigest ext catalog plaintext.length (index * verifiedSectorBytes)
        (sectorAt plaintext (index * verifiedSectorBytes)) = .ok (ext.blake3 plaintext) := by
  unfold frameDigest
  by_cases hshort : plaintext.length ≤ verifiedSectorBytes
  · have hzero : index * verifiedSectorBytes = 0 :=
      Nat.eq_zero_of_dvd_of_lt (Nat.dvd_mul_left _ _) (by omega)
    rw [if_pos hshort, hzero]
    exact congrArg (fun bytes => Except.ok (ext.blake3 bytes)) (List.take_of_length_le hshort)
  · rw [if_neg hshort, Nat.mul_div_cancel index (by decide), hok.digest]
    exact rebuild_root hleaves (Nat.lt_of_not_le hshort)

end Decode

/-! ## The key stream -/

section Stream

variable {stream : Nat → UInt8} {start : Nat} {bytes : List UInt8}

theorem applyKeystream_involutive :
    applyKeystream stream start (applyKeystream stream start bytes) = bytes := by
  unfold applyKeystream
  refine List.ext_getElem (by simp) fun i h₁ h₂ => ?_
  rw [List.getElem_mapIdx, List.getElem_mapIdx, UInt8.xor_assoc, UInt8.xor_self, UInt8.xor_zero]

theorem slice_applyKeystream (offset length : Nat) :
    slice (applyKeystream stream start bytes) offset length =
      applyKeystream stream (start + offset) (slice bytes offset length) := by
  unfold applyKeystream slice
  refine List.ext_getElem (by simp) fun i h₁ h₂ => ?_
  simp only [List.getElem_take, List.getElem_drop, List.getElem_mapIdx, Nat.add_assoc]

end Stream

/-! ## Frames -/

section Frame

variable {ext : SectorExternals} {key : RepositoryKey} {nonce : Option (BitVec 192)}
  {plaintext encoded : List UInt8} {aad : EncryptedFrameAad}

theorem leavesOf_learned (tree : TreeHash (BitVec 256) UInt8) (plaintext : List UInt8) :
    LeavesOf tree plaintext ((List.range (sectorCount plaintext.length)).map fun index =>
      subtreeValue tree 10 (index * verifiedSectorBytes)
        (sectorAt plaintext (index * verifiedSectorBytes))) := by
  intro i hi
  have hcount : i < sectorCount plaintext.length := by
    unfold sectorCount verifiedSectorBytes
    unfold verifiedSectorBytes at hi
    omega
  rw [List.getElem?_map, List.getElem?_range hcount]
  rfl

/-- INTERNAL: the catalog that a frame leaves behind. -/
def catalogOf (ext : SectorExternals) (aad : EncryptedFrameAad) (plaintext encoded : List UInt8)
    (h : (encoded.take encryptedPrefixLength).length = encryptedPrefixLength) :
    FrameProofCatalog where
  header := encoded.take encryptedPrefixLength
  headerLength := h
  root := aad.plaintextHash
  total := plaintext.length
  leaves := (List.range (sectorCount plaintext.length)).map fun index =>
    finalizeNonRoot ext (index * verifiedSectorBytes)
      (sectorAt plaintext (index * verifiedSectorBytes))
  repository := aad.repository
  frameIndex := aad.frameIndex

theorem learnVerifiedFrame_frame (hok : SectorsOk ext)
    (hencoded : encodeEncryptedFrame ext.toPackExternals key nonce plaintext aad = .ok encoded)
    (hlength : plaintext.length = aad.plaintextLength)
    (hmax : plaintext.length ≤ maxVerifiedFrameBytes) : ∃ h,
      learnVerifiedFrame ext key encoded aad =
        .ok (plaintext, catalogOf ext aad plaintext encoded h) := by
  obtain ⟨hdecoded, htotal⟩ := decodeEncryptedFrame_frame hok.cipher hencoded hlength
  have hheader : (encoded.take encryptedPrefixLength).length = encryptedPrefixLength := by
    rw [List.length_take, htotal]
    unfold encryptedPrefixLength frameOverhead
    simp only [if_true]
    omega
  refine ⟨hheader, ?_⟩
  unfold learnVerifiedFrame
  rw [ensure_bind_ok]
  refine ⟨by omega, ?_⟩
  rw [hdecoded]
  exact dif_pos hheader

/-- INTERNAL: the ciphertext of a sector where the frame has it. -/
def ownCiphertext (plaintext encoded : List UInt8) (offset : Nat) : List UInt8 :=
  slice encoded (encryptedPrefixLength + offset)
    (min verifiedSectorBytes (plaintext.length - offset))

/-- INTERNAL: the fields of a frame that the catalog keeps, and its ciphertext. -/
theorem encryptedFrame_fields (packId : BitVec 128) (used : BitVec 192)
    (ciphertext : List UInt8) :
    let frame := (encryptedFrameFields packId used ciphertext).flatten
    slice frame 0 8 = encryptedFrameMagic ∧ slice frame 8 4 = leBytes 4 ciphertext.length ∧
      slice frame 12 16 = idBytes packId ∧ slice frame 28 24 = beBytes 24 used.toNat ∧
      frame.drop encryptedPrefixLength = ciphertext := by
  refine ⟨slice_field 0 rfl rfl rfl, slice_field 1 rfl rfl rfl,
    slice_field 2 rfl rfl (length_idBytes _), slice_field 3 rfl rfl rfl, ?_⟩
  rw [drop_fields 4 (by rfl)]
  simp [encryptedFrameFields]

theorem ownCiphertext_stream (hok : SectorsOk ext) {used : BitVec 192}
    {frame bytes ciphertext : List UInt8}
    (hencrypt : ext.encrypt key used plaintext bytes = some ciphertext)
    (htext : frame.drop encryptedPrefixLength = ciphertext) {offset : Nat}
    (hwithin : offset < plaintext.length) :
    ownCiphertext plaintext frame offset =
      applyKeystream (ext.keystream key used) (64 + offset) (sectorAt plaintext offset) := by
  have hslice : ownCiphertext plaintext frame offset =
      slice ciphertext offset (min verifiedSectorBytes (plaintext.length - offset)) := by
    unfold ownCiphertext slice
    rw [← htext, List.drop_drop]
  have hpart : slice plaintext offset (min verifiedSectorBytes (plaintext.length - offset)) =
      sectorAt plaintext offset := slice_eq_sectorAt (Nat.min_le_left _ _) (by omega)
  rw [hslice, ← slice_take (n := plaintext.length) (by omega), hok.stream hencrypt,
    slice_applyKeystream, hpart]

theorem decodeVerifiedSector_own (hok : SectorsOk ext)
    (hencoded : encodeEncryptedFrame ext.toPackExternals key nonce plaintext aad = .ok encoded)
    (hlength : plaintext.length = aad.plaintextLength)
    (hmax : plaintext.length ≤ maxVerifiedFrameBytes) {index : Nat}
    (hwithin : index * verifiedSectorBytes < plaintext.length)
    (hheader : (encoded.take encryptedPrefixLength).length = encryptedPrefixLength) :
    decodeVerifiedSector ext key (catalogOf ext aad plaintext encoded hheader) aad
        (index * verifiedSectorBytes)
        (ownCiphertext plaintext encoded (index * verifiedSectorBytes)) =
      .ok (sectorAt plaintext (index * verifiedSectorBytes)) := by
  obtain ⟨used, ciphertext, hhash, hencrypt, -, hbound, rfl⟩ := encodeEncryptedFrame_ok hencoded
  obtain ⟨hmagic, hsize, hid, hnonce, htext⟩ := encryptedFrame_fields aad.packId used ciphertext
  have hown := ownCiphertext_stream hok hencrypt htext hwithin
  refine decodeVerifiedSector_ok.mpr ⟨?_, ?_, ?_⟩
  · have hciphertext := hok.cipher.length hencrypt
    have hpart : (ownCiphertext plaintext (encryptedFrameFields aad.packId used ciphertext).flatten
        (index * verifiedSectorBytes)).length =
          min verifiedSectorBytes (plaintext.length - index * verifiedSectorBytes) := by
      rw [hown]
      unfold applyKeystream sectorAt slice
      rw [List.length_mapIdx, List.length_take, List.length_drop]
    have hleaves : (catalogOf ext aad plaintext _ hheader).leaves.length =
        sectorCount plaintext.length := by
      unfold catalogOf
      rw [List.length_map, List.length_range]
    unfold sectorRefused
    push Not
    refine ⟨by omega, by omega, hlength, rfl, rfl, rfl, hlength ▸ hleaves,
      Nat.mul_mod_left _ _, by omega, hlength ▸ hpart, (slice_take (by decide)).trans hmagic,
      (slice_take (by decide)).trans hid, ?_⟩
    unfold catalogOf
    rw [slice_take (by decide), hsize, fromLeBytes_leBytes hbound, hciphertext, hlength]
  · unfold decryptSector catalogOf
    have hused : BitVec.ofNat 192 (fromBeBytes (slice
        (encryptedFrameFields aad.packId used ciphertext).flatten 28 24)) = used := by
      rw [hnonce, fromBeBytes_beBytes used.isLt, BitVec.ofNat_toNat, BitVec.setWidth_eq]
    rw [hown, List.drop_take]
    change _ = applyKeystream (ext.keystream key (BitVec.ofNat 192 (fromBeBytes (slice
      (encryptedFrameFields aad.packId used ciphertext).flatten 28 24)))) _ _
    rw [hused, applyKeystream_involutive]
  · rw [← hlength, ← hhash]
    exact frameDigest_own hok (leavesOf_learned _ _) hwithin

/-- INTERNAL: a frame that is learned returns its plaintext and each of its sectors; and whatever
key, catalog, metadata and ciphertext a call is given that names the digest of the frame, what it
returns is the sector, where the compressions of the frame and of the call do not collide.
SRCLINE: mirage-pack/src/verified_sector.rs:44-213 -/
theorem sectors_agree_with_frames (hok : SectorsOk ext)
    (hmax : plaintext.length ≤ maxVerifiedFrameBytes)
    (hencoded : encodeEncryptedFrame ext.toPackExternals key nonce plaintext aad = .ok encoded) :
    let named : EncryptedFrameAad := { aad with plaintextLength := plaintext.length }
    ∃ catalog, learnVerifiedFrame ext key encoded named = .ok (plaintext, catalog) ∧
      (∀ offset < plaintext.length, verifiedSectorBytes ∣ offset →
        decodeVerifiedSector ext key catalog named offset
          (ownCiphertext plaintext encoded offset) = .ok (sectorAt plaintext offset)) ∧
      ∀ (key' : RepositoryKey) (catalog' : FrameProofCatalog) (aad' : EncryptedFrameAad)
        (offset : Nat) (ciphertext bytes : List UInt8),
        catalog'.root = aad.plaintextHash ∨ aad'.plaintextHash = aad.plaintextHash →
        CollisionFree ext.tree (nodesOfCall ext plaintext key' catalog' aad' offset ciphertext) →
        decodeVerifiedSector ext key' catalog' aad' offset ciphertext = .ok bytes →
        bytes = sectorAt plaintext offset := by
  intro named
  have hnamed : encodeEncryptedFrame ext.toPackExternals key nonce plaintext named =
      .ok encoded := hencoded
  obtain ⟨hheader, hlearned⟩ := learnVerifiedFrame_frame hok hnamed rfl hmax
  obtain ⟨-, -, hhash, -⟩ := encodeEncryptedFrame_ok hencoded
  refine ⟨_, hlearned, ?_, ?_⟩
  · rintro offset hwithin ⟨index, rfl⟩
    rw [Nat.mul_comm] at hwithin ⊢
    exact decodeVerifiedSector_own hok hnamed rfl hmax hwithin hheader
  · intro key' catalog' aad' offset ciphertext bytes hsame hfree hdecoded
    have hroot : catalog'.root = aad'.plaintextHash := by
      have haccepted := (decodeVerifiedSector_ok.mp hdecoded).1
      unfold sectorRefused at haccepted
      push Not at haccepted
      exact haccepted.2.2.2.2.2.1
    refine decodeVerifiedSector_sound hok (hhash.trans ?_) hfree hdecoded
    rcases hsame with hsame | hsame
    · exact hsame.symm.trans hroot
    · exact hsame.symm

end Frame

/-! ## A frame of two sectors -/

/-- INTERNAL: the level of a node, the chunk where it starts and the sum of its bytes. -/
def mark : HashNode (BitVec 256) UInt8 → Nat
  | .chunk number content => 2 ^ 32 * number + (content.map UInt8.toNat).sum
  | .parent left right => 2 ^ 64 + left.toNat + right.toNat % 2 ^ 32

def markTree : TreeHash (BitVec 256) UInt8 where
  inner node := BitVec.ofNat 256 (mark node)
  root node := BitVec.ofNat 256 (2 ^ 128 + mark node)

/-- INTERNAL: the key stream counts up from the key, and a tag is zero. -/
def markedSectors : SectorExternals where
  blake3 := treeValue markTree 10
  crc32 _ := 0
  encrypt key _ plaintext _ :=
    some (applyKeystream (fun i => UInt8.ofNat (key.toNat + i)) 64 plaintext ++ zeros 16)
  decrypt key _ ciphertext _ :=
    some (applyKeystream (fun i => UInt8.ofNat (key.toNat + i)) 64
      (ciphertext.take (ciphertext.length - 16)))
  tree := markTree
  keystream key _ i := UInt8.ofNat (key.toNat + i)

theorem sectorsOk_markedSectors : SectorsOk markedSectors := by
  have hlength (stream : Nat → UInt8) (plaintext : List UInt8) :
      (applyKeystream stream 64 plaintext).length = plaintext.length := List.length_mapIdx
  refine ⟨⟨?_, ?_⟩, ?_, fun _ => rfl⟩
  · intro key nonce plaintext aad ciphertext h
    cases h
    change some (applyKeystream _ 64 (List.take _ _)) = _
    rw [List.length_append, length_zeros, Nat.add_sub_cancel, List.take_left,
      applyKeystream_involutive]
  · intro key nonce plaintext aad ciphertext h
    cases h
    rw [List.length_append, length_zeros, hlength]
  · intro key nonce plaintext aad ciphertext h
    cases h
    exact List.take_left' (hlength _ plaintext)

section Marks

variable {b : UInt8} {node : HashNode (BitVec 256) UInt8}

theorem leftLength_two_pow (k : Nat) : leftLength (2 ^ (k + 1)) = 2 ^ k := by
  have hpos := Nat.two_pow_pos k
  have hlog : (2 ^ (k + 1) - 1).log2 = k := (Nat.log2_eq_iff (by omega)).mpr (by omega)
  unfold leftLength
  rw [hlog]

/-- INTERNAL: the halves of a string of equal bytes. -/
theorem halves_replicate (i : Nat) :
    2 ^ 10 < (List.replicate (2 ^ (10 + (i + 1))) b).length ∧
    leftLength (List.replicate (2 ^ (10 + (i + 1))) b).length = 2 ^ (10 + i) ∧
    (List.replicate (2 ^ (10 + (i + 1))) b).take (2 ^ (10 + i)) =
      List.replicate (2 ^ (10 + i)) b ∧
    (List.replicate (2 ^ (10 + (i + 1))) b).drop (2 ^ (10 + i)) =
      List.replicate (2 ^ (10 + i)) b := by
  rw [List.length_replicate, List.take_replicate, List.drop_replicate, ← Nat.add_assoc,
    leftLength_two_pow]
  refine ⟨?_, rfl, ?_, ?_⟩
  · exact Nat.pow_lt_pow_right (by decide) (by omega)
  · rw [Nat.pow_succ, Nat.min_eq_left (Nat.le_mul_of_pos_right _ (by decide))]
  · rw [Nat.pow_succ, Nat.mul_two, Nat.add_sub_cancel]

/-- INTERNAL: the value below the root is the mark. -/
theorem toNat_inner {value : Nat} (h : mark node = value) (hvalue : value < 2 ^ 256) :
    (markTree.inner node).toNat = value := by
  change (BitVec.ofNat 256 (mark node)).toNat = value
  rw [BitVec.toNat_ofNat, h, Nat.mod_eq_of_lt hvalue]

theorem mark_replicate (i start : Nat) (hi : i ≤ 6) (hstart : start + 2 ^ i ≤ 2 ^ 10) :
    mark (topNode markTree 10 (2 ^ 10 * start) (List.replicate (2 ^ (10 + i)) b)) =
      2 ^ 64 * i + 2 ^ 32 * start + 2 ^ (10 + i) * b.toNat := by
  induction i generalizing start with
  | zero =>
    rw [topNode_short (by rw [List.length_replicate]; exact Nat.lt_irrefl _),
      Nat.mul_div_cancel_left start (by decide)]
    rw [mark, List.map_replicate, List.sum_replicate_nat]
    omega
  | succ i ih =>
    obtain ⟨hlong, hcut, htake, hdrop⟩ := halves_replicate (b := b) i
    have hbyte := b.toNat_lt
    have hsum : 2 ^ (10 + i) * b.toNat ≤ 2 ^ 16 * 255 :=
      Nat.mul_le_mul (Nat.pow_le_pow_right (by decide) (by omega)) (by omega)
    have hnext : 2 ^ (10 + (i + 1)) * b.toNat = 2 * (2 ^ (10 + i) * b.toNat) := by
      rw [← Nat.add_assoc, Nat.pow_succ]
      ring
    have hhalf : 2 ^ 10 * start + 2 ^ (10 + i) = 2 ^ 10 * (start + 2 ^ i) := by
      rw [Nat.pow_add, Nat.mul_add]
    rw [Nat.pow_succ] at hstart
    have hleft := ih start (by omega) (by omega)
    have hright := ih (start + 2 ^ i) (by omega) (by omega)
    rw [topNode_long hlong, hcut, htake, hdrop, hhalf]
    unfold subtreeValue
    rw [mark, toNat_inner hleft (by omega), toNat_inner hright (by omega), hnext]
    omega

/-- INTERNAL: the nodes over equal bytes. -/
theorem hashedIn_replicate {i start : Nat}
    (h : HashedIn markTree 10 (2 ^ 10 * start) (List.replicate (2 ^ (10 + i)) b) node) :
    ∃ j s, j ≤ i ∧ s + 2 ^ j ≤ start + 2 ^ i ∧
      node = topNode markTree 10 (2 ^ 10 * s) (List.replicate (2 ^ (10 + j)) b) := by
  induction i generalizing start with
  | zero =>
    have hshort : ¬ 2 ^ 10 < (List.replicate (2 ^ (10 + 0)) b).length := by
      rw [List.length_replicate]
      exact Nat.lt_irrefl _
    cases h with
    | top => exact ⟨0, start, Nat.le_refl _, Nat.le_refl _, rfl⟩
    | left hlong => exact absurd hlong hshort
    | right hlong => exact absurd hlong hshort
  | succ i ih =>
    obtain ⟨-, hcut, htake, hdrop⟩ := halves_replicate (b := b) i
    have hpos := Nat.two_pow_pos i
    rw [Nat.pow_succ]
    cases h with
    | top => exact ⟨i + 1, start, Nat.le_refl _, by rw [Nat.pow_succ], rfl⟩
    | left _ h =>
      rw [hcut, htake] at h
      obtain ⟨j, s, hj, hs, hnode⟩ := ih h
      exact ⟨j, s, by omega, by omega, hnode⟩
    | right _ h =>
      have hhalf : 2 ^ 10 * start + 2 ^ (10 + i) = 2 ^ 10 * (start + 2 ^ i) := by
        rw [Nat.pow_add, Nat.mul_add]
      rw [hcut, hdrop, hhalf] at h
      obtain ⟨j, s, hj, hs, hnode⟩ := ih h
      exact ⟨j, s, by omega, by omega, hnode⟩

theorem hashedIn_byte {offset : Nat} (h : HashedIn markTree 10 offset [b] node) :
    node = .chunk (offset / 2 ^ 10) [b] := by
  have hshort : ¬ 2 ^ 10 < [b].length := by
    rw [List.length_singleton]
    decide
  cases h with
  | top => exact topNode_short hshort
  | left hlong => exact absurd hlong hshort
  | right hlong => exact absurd hlong hshort

end Marks

/-- INTERNAL: a full sector and one byte. -/
def twoSectors : List UInt8 := List.replicate (2 ^ (10 + 6)) 7 ++ [9]

def firstLeaf : BitVec 256 := subtreeValue markTree 10 0 (List.replicate (2 ^ (10 + 6)) 7)

/-- INTERNAL: the node of this mark: above both sectors, the second sector, or in the first. -/
def unmark (value : Nat) : HashNode (BitVec 256) UInt8 :=
  let byte := UInt8.ofNat (value % 2 ^ 16)
  let start := value / 2 ^ 32 % 2 ^ 32
  if value / 2 ^ 64 = 7 then .parent firstLeaf (markTree.inner (.chunk 64 [byte]))
  else if start = 64 then .chunk 64 [byte]
  else topNode markTree 10 (2 ^ 10 * start) (List.replicate (2 ^ (10 + value / 2 ^ 64)) 7)

/-- INTERNAL: a node that its mark determines. -/
def Marked (node : HashNode (BitVec 256) UInt8) : Prop :=
  unmark (mark node) = node ∧ mark node < 2 ^ 128

theorem second_leaf (c : UInt8) :
    subtreeValue markTree 10 (2 ^ 16) [c] = markTree.inner (.chunk 64 [c]) := by
  unfold subtreeValue
  rw [topNode_short (by rw [List.length_singleton]; decide)]
  rfl

theorem marked_second (c : UInt8) : Marked (.chunk 64 [c]) := by
  have hbyte := c.toNat_lt
  have hmark : mark (.chunk 64 [c]) = 2 ^ 32 * 64 + c.toNat := rfl
  unfold Marked unmark
  rw [hmark, if_neg (by omega), if_pos (by omega),
    show (2 ^ 32 * 64 + c.toNat) % 2 ^ 16 = c.toNat by omega, UInt8.ofNat_toNat]
  exact ⟨rfl, by omega⟩

theorem marked_top (c : UInt8) :
    Marked (.parent firstLeaf (markTree.inner (.chunk 64 [c]))) := by
  have hbyte := c.toNat_lt
  have hchunk : mark (.chunk 64 [c]) = 2 ^ 32 * 64 + c.toNat := rfl
  have hfirst : firstLeaf.toNat = 2 ^ 64 * 6 + 2 ^ 32 * 0 + 2 ^ (10 + 6) * 7 :=
    toNat_inner (mark_replicate 6 0 (by decide) (by decide)) (by decide)
  have hmark : mark (.parent firstLeaf (markTree.inner (.chunk 64 [c]))) =
      2 ^ 64 * 7 + 2 ^ 16 * 7 + c.toNat := by
    rw [mark, toNat_inner hchunk (by omega), hfirst]
    omega
  unfold Marked unmark
  rw [hmark, if_pos (by omega),
    show (2 ^ 64 * 7 + 2 ^ 16 * 7 + c.toNat) % 2 ^ 16 = c.toNat by omega, UInt8.ofNat_toNat]
  exact ⟨rfl, by omega⟩

theorem marked_first {i start : Nat} (hi : i ≤ 6) (hstart : start + 2 ^ i ≤ 2 ^ 6) :
    Marked (topNode markTree 10 (2 ^ 10 * start) (List.replicate (2 ^ (10 + i)) 7)) := by
  have hpos := Nat.two_pow_pos i
  have hsum : 2 ^ (10 + i) * (7 : UInt8).toNat ≤ 2 ^ 16 * 7 :=
    Nat.mul_le_mul_right 7 (Nat.pow_le_pow_right (by decide) (by omega))
  unfold Marked unmark
  rw [mark_replicate i start hi (by omega), if_neg (by omega), if_neg (by omega)]
  generalize hvalue : 2 ^ 64 * i + 2 ^ 32 * start + _ = value
  rw [show value / 2 ^ 32 % 2 ^ 32 = start by omega, show value / 2 ^ 64 = i by omega]
  exact ⟨rfl, by omega⟩

theorem collisionFree_marked {nodes : Set (HashNode (BitVec 256) UInt8)}
    (h : ∀ node ∈ nodes, Marked node) : CollisionFree markTree nodes := by
  have hmark {a b : HashNode (BitVec 256) UInt8} (ha : a ∈ nodes) (hb : b ∈ nodes) {n : Nat}
      (hn : n ≤ 2 ^ 128)
      (heq : BitVec.ofNat 256 (n + mark a) = BitVec.ofNat 256 (n + mark b)) : a = b := by
    obtain ⟨hsame, hsmall⟩ := h a ha
    obtain ⟨hsame', hsmall'⟩ := h b hb
    have hnat := congrArg BitVec.toNat heq
    rw [BitVec.toNat_ofNat, BitVec.toNat_ofNat, Nat.mod_eq_of_lt (by omega),
      Nat.mod_eq_of_lt (by omega)] at hnat
    rw [← hsame, ← hsame', Nat.add_left_cancel hnat]
  refine ⟨fun a ha b hb heq => hmark ha hb (Nat.zero_le _) ?_,
    fun a ha b hb heq => hmark ha hb (Nat.le_refl _) heq⟩
  rwa [Nat.zero_add, Nat.zero_add]

theorem length_twoSectors : twoSectors.length = verifiedSectorBytes + 1 := by
  unfold twoSectors
  rw [List.length_append, List.length_replicate]
  rfl

theorem halves_twoSectors : leftLength twoSectors.length = verifiedSectorBytes ∧
    twoSectors.take verifiedSectorBytes = List.replicate (2 ^ (10 + 6)) 7 ∧
    twoSectors.drop verifiedSectorBytes = [9] := by
  refine ⟨?_, List.take_left' List.length_replicate, List.drop_left' List.length_replicate⟩
  rw [length_twoSectors]
  decide

theorem marked_of_hashed {node : HashNode (BitVec 256) UInt8}
    (h : HashedIn markTree 10 0 twoSectors node) : Marked node := by
  obtain ⟨hcut, htake, hdrop⟩ := halves_twoSectors
  have hlong : 2 ^ 10 < twoSectors.length := by rw [length_twoSectors]; decide
  cases h with
  | top =>
    rw [topNode_long hlong, hcut, htake, hdrop]
    exact second_leaf 9 ▸ marked_top 9
  | left _ h =>
    rw [hcut, htake] at h
    obtain ⟨j, s, hj, hs, rfl⟩ := @hashedIn_replicate 7 node 6 0 h
    exact marked_first hj (by omega)
  | right _ h =>
    rw [hcut, hdrop] at h
    rw [hashedIn_byte h]
    exact marked_second 9

theorem marked_of_rebuilt {c : UInt8} {node : HashNode (BitVec 256) UInt8}
    (h : RebuiltIn markTree [firstLeaf, 0] 1 (subtreeValue markTree 10 (2 ^ 16) [c]) 0
      (verifiedSectorBytes + 1) node) : Marked node := by
  have hcut : leftLength (verifiedSectorBytes + 1) = verifiedSectorBytes := by decide
  have hlong {start length : Nat} (h : RebuiltIn markTree [firstLeaf, 0] 1
      (subtreeValue markTree 10 (2 ^ 16) [c]) start length node) :
      verifiedSectorBytes < length := by
    cases h <;> assumption
  cases h with
  | top _ hleft hright =>
    rw [hcut, rebuild_short (Nat.le_refl _)] at hleft
    rw [hcut, rebuild_short (by decide)] at hright
    obtain rfl := Except.ok.inj hleft
    obtain rfl := Except.ok.inj hright
    exact second_leaf c ▸ marked_top c
  | left _ h => exact absurd (hlong h) (by decide)
  | right _ h => exact absurd (hlong h) (by decide)

def twoSectorsAad : EncryptedFrameAad :=
  ⟨1, 3, 0, treeValue markTree 10 twoSectors, twoSectors.length⟩

theorem encode_twoSectors : ∃ encoded, encodeEncryptedFrame markedSectors.toPackExternals 5
    (some 2) twoSectors twoSectorsAad = .ok encoded := by
  unfold encodeEncryptedFrame
  refine ⟨_, ensure_bind_ok.mpr ⟨?_, ensure_bind_ok.mpr ⟨rfl, except_bind_ok.mpr ⟨⟨2, _⟩, rfl,
    ensure_bind_ok.mpr ⟨?_, rfl⟩⟩⟩⟩⟩
  · rw [length_twoSectors]
    decide
  · rw [List.length_append, length_zeros, applyKeystream, List.length_mapIdx, length_twoSectors]
    decide

/-- INTERNAL: each sector of a frame of two is read, and with another key and another value for
the second sector no byte but its own is returned for it. -/
theorem second_sector_proved :
    ∃ encoded catalog,
      learnVerifiedFrame markedSectors 5 encoded twoSectorsAad = .ok (twoSectors, catalog) ∧
      decodeVerifiedSector markedSectors 5 catalog twoSectorsAad 0
        (ownCiphertext twoSectors encoded 0) = .ok (List.replicate (2 ^ 16) 7) ∧
      decodeVerifiedSector markedSectors 5 catalog twoSectorsAad (2 ^ 16)
        (ownCiphertext twoSectors encoded (2 ^ 16)) = .ok [9] ∧
      ∀ byte bytes, decodeVerifiedSector markedSectors 6 { catalog with leaves := [firstLeaf, 0] }
        twoSectorsAad (2 ^ 16) [byte] = .ok bytes → bytes = [9] := by
  obtain ⟨-, htake, hdrop⟩ := halves_twoSectors
  have hfirst : sectorAt twoSectors 0 = List.replicate (2 ^ 16) 7 := htake
  have hsecond : sectorAt twoSectors (2 ^ 16) = [9] := congrArg (List.take _) hdrop
  have hmax : twoSectors.length ≤ maxVerifiedFrameBytes := by rw [length_twoSectors]; decide
  obtain ⟨encoded, hencoded⟩ := encode_twoSectors
  obtain ⟨catalog, hlearned, hown, hother⟩ :=
    sectors_agree_with_frames sectorsOk_markedSectors hmax hencoded
  refine ⟨encoded, catalog, hlearned, ?_, ?_, fun byte bytes hbytes => ?_⟩
  · rw [← hfirst]
    exact hown 0 (by rw [length_twoSectors]; decide) (Nat.dvd_zero _)
  · rw [← hsecond]
    exact hown (2 ^ 16) (by rw [length_twoSectors]; decide) (Nat.dvd_refl _)
  · rw [← hsecond]
    refine hother 6 { catalog with leaves := [firstLeaf, 0] } twoSectorsAad (2 ^ 16) [byte] bytes
      (Or.inr rfl) (collisionFree_marked ?_) hbytes
    rintro node (hnode | hnode | hnode)
    · exact marked_of_hashed hnode
    · rw [hashedIn_byte hnode]
      exact marked_second _
    · unfold twoSectorsAad at hnode
      rw [length_twoSectors] at hnode
      exact marked_of_rebuilt hnode

end Mirage.Analysis
