import Mirage.Computation.Bisect
import Mirage.Interface.PackRun

/-!
# The parts of a pack are read back

Every structure of a pack file is decoded to the values it was encoded from: plain and
encrypted frames, index entries, header and footer.  The fields of a structure are found
by the sum of the lengths before them.
-/

set_option autoImplicit false

namespace Mirage.Analysis

open Mirage.Model Mirage.Interface Mirage.Computation

variable {ext : PackExternals}

@[simp] theorem length_zeros (n : Nat) : (zeros n).length = n := List.length_replicate

theorem toNat_crc32_lt (bytes : List UInt8) : (ext.crc32 bytes).toNat < 256 ^ 4 :=
  (ext.crc32 bytes).isLt

/-! ## Plain frames -/

section PlainFrame

/-- INTERNAL: what the writer checked before it encoded a page. -/
structure PlainPageOk (ext : PackExternals) (page : PlainPage) : Prop where
  length : page.bytes.length = page.logicalLen
  nonzero : page.logicalLen ≠ 0
  bound : page.logicalLen ≤ maxEncodedFrameLen
  hash : ext.blake3 page.bytes = page.hash

/-- INTERNAL: the parts of a frame. -/
def frameFields (ext : PackExternals) (page : PlainPage) : List (List UInt8) :=
  frameHead page ++ [leBytes 4 (ext.crc32 (frameHead page).flatten).toNat, zeros 8, page.bytes]

theorem encodePlainFrame_ok {page : PlainPage} {frame : List UInt8}
    (h : encodePlainFrame ext page = .ok frame) :
    PlainPageOk ext page ∧ frame = (frameFields ext page).flatten := by
  unfold encodePlainFrame at h
  obtain ⟨⟨hlength, hnonzero⟩, h⟩ := ensure_bind_ok.mp h
  obtain ⟨hbound, h⟩ := ensure_bind_ok.mp h
  obtain ⟨hhash, h⟩ := ensure_bind_ok.mp h
  cases h
  exact ⟨⟨hlength, hnonzero, hbound, hhash⟩, rfl⟩

theorem length_frame (page : PlainPage) :
    (frameFields ext page).flatten.length = frameHeaderLen + page.bytes.length := by
  simp [frameFields, frameHead, frameMagic, frameHeaderLen]
  omega

theorem decodePlainFrame_frame {page : PlainPage} (hpage : PlainPageOk ext page) :
    decodePlainFrame ext (frameFields ext page).flatten = .ok page := by
  have hlen : (frameFields ext page).flatten.length = frameHeaderLen + page.bytes.length :=
    length_frame page
  have hlogical : page.logicalLen < 256 ^ 4 := by
    have := hpage.bound
    unfold maxEncodedFrameLen at this
    omega
  unfold frameHeaderLen at hlen
  have hpayload : (frameFields ext page).flatten.drop 64 = page.bytes := by
    rw [drop_fields 11 (by simp [frameFields, frameHead, frameMagic])]
    simp [frameFields, frameHead]
  have hhead : (frameFields ext page).flatten.take 52 = (frameHead page).flatten := by
    rw [take_fields 9 (by simp [frameFields, frameHead, frameMagic])]
    rfl
  unfold decodePlainFrame
  refine ensure_bind_ok.mpr ⟨⟨?_, slice_field 0 rfl rfl rfl⟩, ?_⟩
  · unfold frameHeaderLen
    omega
  refine except_bind_ok.mpr ⟨1, numberAt_ok 1 rfl rfl (by decide), ?_⟩
  refine ensure_bind_ok.mpr ⟨rfl, ?_⟩
  refine except_bind_ok.mpr ⟨0, numberAt_ok 2 rfl rfl (by decide), ?_⟩
  refine except_bind_ok.mpr ⟨0, numberAt_ok 8 rfl rfl (by decide), ?_⟩
  have htail : takeField 12 (frameFields ext page).flatten 52 =
      .ok (leBytes 4 (ext.crc32 (frameHead page).flatten).toNat ++ zeros 8) := by
    have hgroup : (frameFields ext page).flatten = (frameHead page ++
        [leBytes 4 (ext.crc32 (frameHead page).flatten).toNat ++ zeros 8, page.bytes]).flatten := by
      simp [frameFields]
    rw [hgroup]
    exact fieldAt_ok 9 rfl rfl (by simp)
  refine except_bind_ok.mpr ⟨_, htail, ?_⟩
  refine ensure_bind_ok.mpr ⟨⟨rfl, slice_field 7 rfl rfl rfl, rfl, rfl⟩, ?_⟩
  refine except_bind_ok.mpr ⟨_, numberAt_ok 9 rfl rfl (toNat_crc32_lt _), ?_⟩
  refine ensure_bind_ok.mpr ⟨by rw [hhead], ?_⟩
  refine except_bind_ok.mpr ⟨_, numberAt_ok 4 rfl rfl hlogical, ?_⟩
  refine except_bind_ok.mpr ⟨_, numberAt_ok 5 rfl rfl hlogical, ?_⟩
  refine ensure_bind_ok.mpr ⟨⟨hpage.nonzero, hpage.nonzero, hpage.bound, rfl⟩, ?_⟩
  refine ensure_bind_ok.mpr ⟨slice_field 6 rfl rfl rfl, ?_⟩
  refine ensure_bind_ok.mpr ⟨?_, ?_⟩
  · rw [length_frame, hpage.length]
  refine except_bind_ok.mpr ⟨_, fieldAt_ok 3 rfl rfl (length_hashBytes _), ?_⟩
  refine ensure_bind_ok.mpr ⟨?_, ?_⟩
  · unfold frameHeaderLen
    rw [hpayload, hpage.hash]
  · unfold frameHeaderLen
    rw [hpayload, hashOfBytes_hashBytes]
    rfl

end PlainFrame

/-! ## Encrypted frames -/

section EncryptedFrame

theorem encodeEncryptedFrame_ok {key : RepositoryKey} {nonce : Option (BitVec 192)}
    {plaintext frame : List UInt8} {aad : EncryptedFrameAad}
    (h : encodeEncryptedFrame ext key nonce plaintext aad = .ok frame) :
    ∃ used ciphertext, ext.blake3 plaintext = aad.plaintextHash ∧
      ext.encrypt key used plaintext
        ({ aad with plaintextLength := plaintext.length } : EncryptedFrameAad).encode =
          some ciphertext ∧
      plaintext.length < 2 ^ 32 ∧ ciphertext.length < 2 ^ 32 ∧
      frame = (encryptedFrameFields aad.packId used ciphertext).flatten := by
  unfold encodeEncryptedFrame at h
  obtain ⟨hplain, h⟩ := ensure_bind_ok.mp h
  obtain ⟨hhash, h⟩ := ensure_bind_ok.mp h
  obtain ⟨⟨used, ciphertext⟩, hsealed, h⟩ := except_bind_ok.mp h
  obtain ⟨hbound, h⟩ := ensure_bind_ok.mp h
  cases h
  unfold sealBytes at hsealed
  obtain ⟨_, -, hsealed⟩ := someOr_bind_ok.mp hsealed
  obtain ⟨_, hencrypt, hsealed⟩ := someOr_bind_ok.mp hsealed
  cases hsealed
  exact ⟨used, ciphertext, hhash, hencrypt, hplain, hbound, rfl⟩

theorem length_encryptedFrame (packId : BitVec 128) (nonce : BitVec 192)
    (ciphertext : List UInt8) :
    (encryptedFrameFields packId nonce ciphertext).flatten.length =
      encryptedPrefixLength + ciphertext.length := by
  simp [encryptedFrameFields, encryptedFrameMagic, encryptedPrefixLength]
  omega

theorem decodeEncryptedFrame_frame (hcipher : CipherOk ext) {key : RepositoryKey}
    {nonce : Option (BitVec 192)} {plaintext frame : List UInt8} {aad : EncryptedFrameAad}
    (h : encodeEncryptedFrame ext key nonce plaintext aad = .ok frame)
    (hlength : plaintext.length = aad.plaintextLength) :
    decodeEncryptedFrame ext key frame aad = .ok plaintext ∧
      frame.length = frameOverhead true + plaintext.length := by
  obtain ⟨used, ciphertext, hhash, hencrypt, -, hbound, rfl⟩ := encodeEncryptedFrame_ok h
  rw [hlength] at hencrypt
  have htotal := length_encryptedFrame aad.packId used ciphertext
  have htext : (encryptedFrameFields aad.packId used ciphertext).flatten.drop
      encryptedPrefixLength = ciphertext := by
    rw [drop_fields 4 (by rfl)]
    simp [encryptedFrameFields]
  have hfield : slice (encryptedFrameFields aad.packId used ciphertext).flatten 8 4 =
      leBytes 4 ciphertext.length := slice_field 1 rfl rfl rfl
  have hnonce : slice (encryptedFrameFields aad.packId used ciphertext).flatten 28 24 =
      beBytes 24 used.toNat := slice_field 3 rfl rfl rfl
  constructor
  · unfold decodeEncryptedFrame
    refine ensure_bind_ok.mpr ⟨⟨by omega, slice_field 0 rfl rfl rfl⟩, ?_⟩
    refine ensure_bind_ok.mpr ⟨?_, ?_⟩
    · rw [hfield, fromLeBytes_leBytes hbound, htotal]
      omega
    refine ensure_bind_ok.mpr ⟨slice_field 2 rfl rfl (length_idBytes _), ?_⟩
    rw [hnonce, fromBeBytes_beBytes used.isLt, htext, BitVec.ofNat_toNat, BitVec.setWidth_eq]
    refine someOr_bind_ok.mpr ⟨plaintext, hcipher.inverts hencrypt, ?_⟩
    exact ensure_bind_ok.mpr ⟨⟨hlength, hhash⟩, rfl⟩
  · rw [htotal, hcipher.length hencrypt]
    unfold encryptedPrefixLength frameOverhead
    simp only [if_true]
    omega

end EncryptedFrame

/-! ## Index entries -/

section Index

/-- INTERNAL: the reader accepts the entry. -/
structure EntryOk (entry : PackEntry) : Prop where
  offset : entry.frameOffset < 2 ^ 64
  length : entry.frameLength = frameOverhead entry.encrypted + entry.encodedLength
  logical : entry.logicalLength ≠ 0
  encoded : entry.encodedLength = entry.logicalLength
  bound : entry.logicalLength < 2 ^ 32

@[simp] theorem length_entry (entry : PackEntry) : entry.encode.length = indexEntryLen := by
  simp [PackEntry.encode, PackEntry.fields, indexEntryLen]

theorem decode_entry {entry : PackEntry} (h : EntryOk entry) :
    PackEntry.decode entry.encode = .ok entry := by
  have hoverhead : frameOverhead entry.encrypted ≤ 68 := by
    unfold frameOverhead
    split_ifs <;> omega
  have hlogical : entry.logicalLength < 256 ^ 4 := h.bound
  have hencoded : entry.encodedLength < 256 ^ 4 := by
    rw [h.encoded]
    exact hlogical
  have hlength : entry.frameLength < 256 ^ 8 := by
    rw [h.length]
    omega
  have hflag : slice entry.encode 57 1 = [if entry.encrypted then 1 else 0] :=
    slice_field 6 rfl rfl rfl
  have hencrypted : decide (slice entry.encode 57 1 ≠ [0]) = entry.encrypted := by
    rw [hflag]
    cases entry.encrypted <;> rfl
  unfold PackEntry.decode
  refine ensure_bind_ok.mpr ⟨⟨length_entry entry, ?_⟩, ?_⟩
  · rw [hflag]
    cases entry.encrypted with
    | false => exact .inl rfl
    | true => exact .inr rfl
  refine except_bind_ok.mpr ⟨_, fieldAt_ok 7 rfl rfl rfl, ?_⟩
  refine ensure_bind_ok.mpr ⟨rfl, ?_⟩
  refine ensure_bind_ok.mpr ⟨slice_field 5 rfl rfl rfl, ?_⟩
  refine except_bind_ok.mpr ⟨_, fieldAt_ok 0 rfl rfl (length_hashBytes _), ?_⟩
  refine except_bind_ok.mpr ⟨_, numberAt_ok 1 rfl rfl h.offset, ?_⟩
  refine except_bind_ok.mpr ⟨_, numberAt_ok 2 rfl rfl hlength, ?_⟩
  refine except_bind_ok.mpr ⟨_, numberAt_ok 3 rfl rfl hlogical, ?_⟩
  refine except_bind_ok.mpr ⟨_, numberAt_ok 4 rfl rfl hencoded, ?_⟩
  simp only [hencrypted, hashOfBytes_hashBytes]
  refine ensure_bind_ok.mpr ⟨⟨?_, h.logical, ?_⟩, rfl⟩
  · rw [h.length]
    unfold saturatingAdd u64Max
    omega
  · rw [h.encoded]
    exact h.logical

theorem length_encodeIndex (entries : List PackEntry) :
    (encodeIndex entries).length = entries.length * indexEntryLen := by
  induction entries with
  | nil => rfl
  | cons entry rest ih =>
    have hcons : encodeIndex (entry :: rest) = entry.encode ++ encodeIndex rest := rfl
    rw [hcons, List.length_append, length_entry, ih, List.length_cons]
    unfold indexEntryLen
    omega

theorem slice_encodeIndex {entries : List PackEntry} {i : Nat} {entry : PackEntry}
    (h : entries[i]? = some entry) :
    slice (encodeIndex entries) (i * indexEntryLen) indexEntryLen = entry.encode := by
  refine slice_field i ?_ ?_ (length_entry entry)
  · rw [List.getElem?_map, h]
    rfl
  · obtain ⟨hi, -⟩ := List.getElem?_eq_some_iff.mp h
    rw [← List.map_take, ← List.length_flatten]
    exact (length_encodeIndex (entries.take i)).trans (by
      rw [List.length_take, Nat.min_eq_left hi.le])

theorem decodeIndex_encodeIndex {entries : List PackEntry}
    (hok : ∀ entry ∈ entries, EntryOk entry)
    (hsorted : entries.Pairwise fun a b => a.pageHash < b.pageHash)
    (hcount : entries.length * indexEntryLen ≤ u64Max) :
    decodeIndex (encodeIndex entries) entries.length = .ok entries := by
  unfold decodeIndex
  refine ensure_bind_ok.mpr ⟨hcount, ?_⟩
  refine ensure_bind_ok.mpr ⟨length_encodeIndex entries, ?_⟩
  have hread : (List.range entries.length).mapM (fun i => PackEntry.decode
      (slice (encodeIndex entries) (i * indexEntryLen) indexEntryLen)) = .ok entries := by
    refine mapM_range_ok fun i entry hi => ?_
    rw [slice_encodeIndex hi]
    exact decode_entry (hok entry (List.mem_of_getElem? hi))
  refine except_bind_ok.mpr ⟨entries, hread, ?_⟩
  refine ensure_bind_ok.mpr ⟨?_, rfl⟩
  exact List.all_eq_true.mpr fun pair hpair =>
    decide_eq_true (pairwise_zip_tail hsorted pair hpair)

end Index

/-! ## Header and footer -/

section Header

/-- INTERNAL: the reader accepts the header. -/
structure HeaderOk (header : PackHeader) : Prop where
  pageSize : validPageSize header.pageSize
  indexOffset : header.indexOffset < 2 ^ 64
  indexLength : header.indexLength < 2 ^ 64
  entryCount : header.entryCount < 2 ^ 64
  identity : header.encrypted = true ↔ header.packId ≠ 0

/-- INTERNAL: the parts of a header. -/
def headerFields (ext : PackExternals) (header : PackHeader) : List (List UInt8) :=
  header.head ++ [leBytes 4 (ext.crc32 header.head.flatten).toNat, (idBytes header.packId).drop 4]

theorem length_header (header : PackHeader) : (header.encode ext).length = packHeaderLen := by
  simp [PackHeader.encode, PackHeader.head, packMagic, packHeaderLen]

theorem decode_header {header : PackHeader} (h : HeaderOk header) :
    PackHeader.decode ext (header.encode ext) = .ok header := by
  have hencode : header.encode ext = (headerFields ext header).flatten := rfl
  have hpageSize : header.pageSize < 256 ^ 4 := by
    have := h.pageSize.2.1
    omega
  have hhead : (headerFields ext header).flatten.take 48 = header.head.flatten := by
    rw [take_fields 8 (by simp [headerFields, PackHeader.head, packMagic])]
    rfl
  have hfirst : slice (headerFields ext header).flatten 20 4 = (idBytes header.packId).take 4 :=
    slice_field 4 rfl rfl rfl
  have hlast : slice (headerFields ext header).flatten 52 12 = (idBytes header.packId).drop 4 :=
    slice_field 9 rfl rfl rfl
  have hflag : readU32 (headerFields ext header).flatten 12 =
      .ok (if header.encrypted then 1 else 0) := by
    refine numberAt_ok 2 rfl rfl ?_
    split_ifs <;> decide
  unfold PackHeader.decode
  rw [hencode]
  refine ensure_bind_ok.mpr ⟨⟨length_header header, slice_field 0 rfl rfl rfl⟩, ?_⟩
  refine except_bind_ok.mpr ⟨1, numberAt_ok 1 rfl rfl (by decide), ?_⟩
  refine ensure_bind_ok.mpr ⟨rfl, ?_⟩
  refine except_bind_ok.mpr ⟨_, numberAt_ok 8 rfl rfl (toNat_crc32_lt _), ?_⟩
  refine ensure_bind_ok.mpr ⟨by rw [hhead], ?_⟩
  refine except_bind_ok.mpr ⟨_, numberAt_ok 3 rfl rfl hpageSize, ?_⟩
  refine except_bind_ok.mpr ⟨_, hflag, ?_⟩
  refine ensure_bind_ok.mpr ⟨?_, ?_⟩
  · split_ifs
    · exact .inr rfl
    · exact .inl rfl
  rw [hfirst, hlast, List.take_append_drop, idOfBytes_idBytes]
  refine ensure_bind_ok.mpr ⟨?_, ?_⟩
  · have hidentity := h.identity
    cases hencrypted : header.encrypted with
    | true =>
      have hid := hidentity.mp hencrypted
      rintro (⟨-, hzero⟩ | ⟨hflag, -⟩)
      · exact hid hzero
      · cases hflag
    | false =>
      have hid : ¬ header.packId ≠ 0 := fun hne => by
        rw [hidentity.mpr hne] at hencrypted
        cases hencrypted
      rintro (⟨hflag, -⟩ | ⟨-, hne⟩)
      · cases hflag
      · exact hid hne
  refine ensure_bind_ok.mpr ⟨h.pageSize, ?_⟩
  refine except_bind_ok.mpr ⟨_, numberAt_ok 5 rfl rfl h.indexOffset, ?_⟩
  refine except_bind_ok.mpr ⟨_, numberAt_ok 6 rfl rfl h.indexLength, ?_⟩
  refine except_bind_ok.mpr ⟨_, numberAt_ok 7 rfl rfl h.entryCount, ?_⟩
  have hencrypted : decide ((if header.encrypted then 1 else 0) = 1) = header.encrypted := by
    cases header.encrypted <;> rfl
  rw [hencrypted]
  rfl

/-- INTERNAL: the parts of a footer. -/
def footerFields (ext : PackExternals) (footer : PackFooter) : List (List UInt8) :=
  footer.head ++ [leBytes 4 (ext.crc32 footer.head.flatten).toNat, zeros 36]

theorem length_footer (footer : PackFooter) : (footer.encode ext).length = footerLen := by
  simp [PackFooter.encode, PackFooter.head, footerMagic, footerLen]

theorem decode_footer {footer : PackFooter} (h : footer.packLength < 2 ^ 64) :
    PackFooter.decode ext (footer.encode ext) = .ok footer := by
  have hencode : footer.encode ext = (footerFields ext footer).flatten := rfl
  have hhead : (footerFields ext footer).flatten.take 88 = footer.head.flatten := by
    rw [take_fields 6 (by simp [footerFields, PackFooter.head, footerMagic])]
    rfl
  unfold PackFooter.decode
  rw [hencode]
  refine ensure_bind_ok.mpr ⟨⟨length_footer footer, slice_field 0 rfl rfl rfl⟩, ?_⟩
  refine except_bind_ok.mpr ⟨1, numberAt_ok 1 rfl rfl (by decide), ?_⟩
  refine ensure_bind_ok.mpr ⟨rfl, ?_⟩
  refine except_bind_ok.mpr ⟨_, fieldAt_ok 2 rfl rfl rfl, ?_⟩
  refine except_bind_ok.mpr ⟨_, fieldAt_ok 7 rfl rfl rfl, ?_⟩
  refine except_bind_ok.mpr ⟨_, numberAt_ok 6 rfl rfl (toNat_crc32_lt _), ?_⟩
  refine ensure_bind_ok.mpr ⟨⟨rfl, rfl, by rw [hhead]⟩, ?_⟩
  refine except_bind_ok.mpr ⟨_, fieldAt_ok 3 rfl rfl (length_hashBytes _), ?_⟩
  refine except_bind_ok.mpr ⟨_, fieldAt_ok 4 rfl rfl (length_hashBytes _), ?_⟩
  refine except_bind_ok.mpr ⟨_, numberAt_ok 5 rfl rfl h, ?_⟩
  rw [hashOfBytes_hashBytes, hashOfBytes_hashBytes]
  rfl

end Header

end Mirage.Analysis
