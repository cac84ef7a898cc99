import Mirage.Analysis.PackCodec

/-!
# A finished pack returns its pages

The writer keeps its frames apart and its index complete, so the file it finishes passes
the checks of the verifying reader, and every page is read back.  The writer of encrypted
packs does not check the length a page claims: an empty page is accepted, and the file is
refused by the reader at the end.
-/

set_option autoImplicit false

namespace Mirage.Analysis

open Mirage.Model Mirage.Interface Mirage.Computation

variable {ext : PackExternals} {w w' w₀ : PackWriter} {pages : List PlainPage}

/-! ## What the writer keeps -/

/-- INTERNAL: the frame of an entry stands in the file and decodes to the page. -/
def FrameHolds (ext : PackExternals) (w : PackWriter) (entry : PackEntry) (page : PlainPage) :
    Prop :=
  page.hash = entry.pageHash ∧ page.logicalLen = entry.logicalLength ∧
    ext.blake3 page.bytes = page.hash ∧
    decodeEntryFrame ext (slice w.file entry.frameOffset entry.frameLength) entry w.encryption
      w.packId = .ok page

/-- INTERNAL: the writer after it accepted the pages. -/
structure WriterOk (ext : PackExternals) (w : PackWriter) (pages : List PlainPage) : Prop where
  options : validPageSize w.options.pageSize
  file : w.file.length = w.position
  header : packHeaderLen ≤ w.position
  position : w.position ≤ u64Max
  order : w.entries.Pairwise fun a b => a.frameOffset + a.frameLength ≤ b.frameOffset
  placed : ∀ e ∈ w.entries, packHeaderLen ≤ e.frameOffset ∧
    e.frameOffset + e.frameLength ≤ w.position
  distinct : w.entries.Pairwise fun a b => a.pageHash ≠ b.pageHash
  known : ∀ h e, w.known.get h = some e ↔ e ∈ w.entries ∧ e.pageHash = h
  entries : ∀ e ∈ w.entries, EntryOk e ∧ e.logicalLength ≤ w.options.pageSize ∧
    e.encrypted = w.encryption.isSome
  frames : ∀ e ∈ w.entries, ∃ page ∈ pages, FrameHolds ext w e page
  pages : ∀ page ∈ pages, ∃ e ∈ w.entries, e.pageHash = page.hash ∧
    e.logicalLength = page.logicalLen

theorem create_ok {options : PackWriterOptions} {encryption : Option PackEncryption}
    {writerId : Option (BitVec 128)}
    (h : PackWriter.create options encryption writerId = .ok w) :
    WriterOk ext w [] ∧ w.encryption = encryption ∧
      ∃ id, writerId = some id ∧ w.packId = if encryption.isSome then id else 0 := by
  unfold PackWriter.create validateOptions at h
  obtain ⟨⟨hsize, -⟩, h⟩ := ensure_bind_ok.mp h
  obtain ⟨id, hid, h⟩ := someOr_bind_ok.mp h
  cases h
  refine ⟨?_, rfl, id, hid, rfl⟩
  constructor
  case options => exact hsize
  case file => exact length_zeros packHeaderLen
  case header => exact le_refl _
  case position => exact (by decide : packHeaderLen ≤ u64Max)
  case order => exact .nil
  case placed => exact fun e he => absurd he List.not_mem_nil
  case distinct => exact .nil
  case known =>
    intro h e
    simp
  case entries => exact fun e he => absurd he List.not_mem_nil
  case frames => exact fun e he => absurd he List.not_mem_nil
  case pages => exact fun page hpage => absurd hpage List.not_mem_nil

variable {page : PlainPage} {nonce : Option (BitVec 192)} {entry : PackEntry}

/-- INTERNAL: a frame that was encoded for a sound page decodes to it. -/
theorem encodeFrame_ok (hcipher : CipherOk ext) {aligned : Nat} {frame : List UInt8}
    (hsound : w.encryption.isSome → page.bytes.length = page.logicalLen ∧ page.logicalLen ≠ 0)
    (h : w.encodeFrame ext page aligned nonce = .ok frame) :
    frame.length = frameOverhead w.encryption.isSome + page.logicalLen ∧ page.logicalLen ≠ 0 ∧
      ext.blake3 page.bytes = page.hash ∧
      ∀ entry : PackEntry, entry.pageHash = page.hash → entry.logicalLength = page.logicalLen →
        entry.frameOffset = aligned → entry.encrypted = w.encryption.isSome →
        decodeEntryFrame ext frame entry w.encryption w.packId = .ok page := by
  unfold PackWriter.encodeFrame at h
  cases hencryption : w.encryption with
  | none =>
    rw [hencryption] at h
    obtain ⟨hok, rfl⟩ := encodePlainFrame_ok h
    refine ⟨?_, hok.nonzero, hok.hash, fun entry _ _ _ hplain => ?_⟩
    · rw [length_frame, hok.length]
      rfl
    · unfold decodeEntryFrame
      rw [hplain]
      exact decodePlainFrame_frame hok
  | some encryption =>
    rw [hencryption] at h hsound
    obtain ⟨hlength, hnonzero⟩ := hsound rfl
    obtain ⟨hdecode, htotal⟩ := decodeEncryptedFrame_frame hcipher h hlength
    obtain ⟨-, -, hhash, -⟩ := encodeEncryptedFrame_ok h
    refine ⟨?_, hnonzero, hhash, fun entry hpage hlogical hoffset hsealed => ?_⟩
    · rw [htotal, hlength]
      rfl
    · unfold decodeEntryFrame
      rw [hsealed, hpage, hlogical, hoffset]
      simp only [Option.isSome_some, if_true]
      refine someOr_bind_ok.mpr ⟨encryption, rfl, ?_⟩
      exact except_bind_ok.mpr ⟨page.bytes, hdecode, rfl⟩

theorem alignUp_ok {value aligned : Nat} (h : alignUp value 4096 = .ok aligned) :
    value ≤ aligned := by
  unfold alignUp at h
  obtain ⟨sum, hsum, h⟩ := someOr_bind_ok.mp h
  cases h
  obtain ⟨rfl, -⟩ := checkedAdd_eq_some hsum
  omega

/-- INTERNAL: a page that was not known is placed behind what is written. -/
theorem appendFresh_ok (h : w.appendFresh ext page nonce = .ok (entry, w')) :
    ∃ aligned frame, w.position ≤ aligned ∧ w.encodeFrame ext page aligned nonce = .ok frame ∧
      aligned + frame.length ≤ u64Max ∧ page.logicalLen ≤ w.options.pageSize ∧
      entry = ⟨page.hash, aligned, frame.length, page.logicalLen, page.logicalLen,
        w.encryption.isSome⟩ ∧
      w' = { w with
        file := w.file ++ (zeros (aligned - w.position) ++ frame)
        position := aligned + frame.length
        entries := w.entries ++ [entry]
        known := w.known.set page.hash entry } := by
  unfold PackWriter.appendFresh at h
  obtain ⟨hsize, h⟩ := ensure_bind_ok.mp h
  obtain ⟨aligned, haligned, h⟩ := except_bind_ok.mp h
  obtain ⟨frame, hframe, h⟩ := except_bind_ok.mp h
  obtain ⟨frameEnd, hend, h⟩ := someOr_bind_ok.mp h
  obtain ⟨-, h⟩ := ensure_bind_ok.mp h
  obtain ⟨rfl, hbound⟩ := checkedAdd_eq_some hend
  cases h
  refine ⟨aligned, frame, ?_, hframe, hbound, hsize, rfl, rfl⟩
  unfold PackWriter.alignedPosition at haligned
  split_ifs at haligned
  · exact alignUp_ok haligned
  · cases haligned
    exact le_refl _

/-- INTERNAL: frames that were written stay where they are. -/
theorem FrameHolds.extend {more : List UInt8} (h : FrameHolds ext w entry page)
    (hplaced : entry.frameOffset + entry.frameLength ≤ w.file.length)
    (hfile : w'.file = w.file ++ more) (hencryption : w'.encryption = w.encryption)
    (hid : w'.packId = w.packId) : FrameHolds ext w' entry page := by
  unfold FrameHolds at h ⊢
  rw [hfile, hencryption, hid, slice_append_left hplaced]
  exact h

theorem WriterOk.appendFresh (hcipher : CipherOk ext) (h : WriterOk ext w pages)
    (hsound : PageSound ext w.encryption page) (hunknown : w.known.get page.hash = none)
    (hok : w.appendFresh ext page nonce = .ok (entry, w')) : WriterOk ext w' (pages ++ [page]) := by
  obtain ⟨aligned, frame, haligned, hframe, hbound, hsize, hentry, rfl⟩ := appendFresh_ok hok
  obtain ⟨hlength, hnonzero, hhash, hdecode⟩ := encodeFrame_ok hcipher hsound.encrypted hframe
  have hheader := h.header
  have hoverhead : 64 ≤ frameOverhead w.encryption.isSome := by
    unfold frameOverhead
    split_ifs <;> omega
  have hfresh : ∀ e ∈ w.entries, e.pageHash ≠ page.hash := by
    intro e he heq
    have := (h.known page.hash e).mpr ⟨he, heq⟩
    rw [hunknown] at this
    cases this
  have hfields : entry.pageHash = page.hash ∧ entry.logicalLength = page.logicalLen ∧
      entry.frameOffset = aligned ∧ entry.frameLength = frame.length ∧
      entry.encrypted = w.encryption.isSome := by
    subst hentry
    exact ⟨rfl, rfl, rfl, rfl, rfl⟩
  obtain ⟨hpage, hlogical, hoffset, hframeLength, hsealed⟩ := hfields
  constructor
  case options => exact h.options
  case file =>
    change (w.file ++ (zeros (aligned - w.position) ++ frame)).length = aligned + frame.length
    rw [List.length_append, List.length_append, length_zeros, h.file]
    omega
  case header =>
    change packHeaderLen ≤ aligned + frame.length
    omega
  case position => exact hbound
  case order =>
    refine List.pairwise_append.mpr ⟨h.order, List.pairwise_singleton _ _, fun a ha b hb => ?_⟩
    cases List.mem_singleton.mp hb
    have hplaced := (h.placed a ha).2
    omega
  case placed =>
    intro e he
    rcases List.mem_append.mp he with he | he
    · obtain ⟨hstart, hend⟩ := h.placed e he
      refine ⟨hstart, ?_⟩
      change e.frameOffset + e.frameLength ≤ aligned + frame.length
      omega
    · cases List.mem_singleton.mp he
      rw [hoffset, hframeLength]
      exact ⟨by omega, le_refl _⟩
  case distinct =>
    refine List.pairwise_append.mpr ⟨h.distinct, List.pairwise_singleton _ _, fun a ha b hb => ?_⟩
    cases List.mem_singleton.mp hb
    rw [hpage]
    exact hfresh a ha
  case known =>
    intro hash e
    change (w.known.set page.hash entry).get hash = some e ↔ _
    rw [Table.get_set, List.mem_append, List.mem_singleton]
    by_cases hsame : hash = page.hash
    · rw [if_pos hsame, hsame]
      constructor
      · intro heq
        cases heq
        exact ⟨.inr rfl, hpage⟩
      · rintro ⟨he | he, heq⟩
        · exact absurd heq (hfresh e he)
        · rw [he]
    · rw [if_neg hsame, h.known]
      constructor
      · rintro ⟨he, heq⟩
        exact ⟨.inl he, heq⟩
      · rintro ⟨he | he, heq⟩
        · exact ⟨he, heq⟩
        · rw [he, hpage] at heq
          exact absurd heq.symm hsame
  case entries =>
    intro e he
    rcases List.mem_append.mp he with he | he
    · exact h.entries e he
    · cases List.mem_singleton.mp he
      have hoptions := h.options.2.1
      refine ⟨⟨?_, ?_, ?_, ?_, ?_⟩, ?_, hsealed⟩
      · rw [hoffset]
        unfold u64Max at hbound
        omega
      · rw [hframeLength, hsealed, hlength]
        subst hentry
        rfl
      · rw [hlogical]
        exact hnonzero
      · subst hentry
        rfl
      · rw [hlogical]
        omega
      · rw [hlogical]
        exact hsize
  case frames =>
    intro e he
    rcases List.mem_append.mp he with he | he
    · obtain ⟨p, hp, hholds⟩ := h.frames e he
      refine ⟨p, List.mem_append_left _ hp, hholds.extend ?_ rfl rfl rfl⟩
      rw [h.file]
      exact (h.placed e he).2
    · cases List.mem_singleton.mp he
      refine ⟨page, List.mem_append_right _ List.mem_cons_self, hpage.symm, hlogical.symm, hhash,
        ?_⟩
      have hslice : slice (w.file ++ (zeros (aligned - w.position) ++ frame)) entry.frameOffset
          entry.frameLength = frame := by
        have hparts : w.file ++ (zeros (aligned - w.position) ++ frame) =
            (w.file ++ zeros (aligned - w.position)) ++ (frame ++ []) := by
          rw [List.append_nil, List.append_assoc]
        rw [hparts]
        refine slice_middle ?_ hframeLength.symm
        rw [List.length_append, length_zeros, h.file, hoffset]
        omega
      change decodeEntryFrame ext (slice (w.file ++ (zeros (aligned - w.position) ++ frame))
        entry.frameOffset entry.frameLength) entry w.encryption w.packId = .ok page
      rw [hslice]
      exact hdecode entry hpage hlogical hoffset hsealed
  case pages =>
    intro p hp
    rcases List.mem_append.mp hp with hp | hp
    · obtain ⟨e, he, hsame⟩ := h.pages p hp
      exact ⟨e, List.mem_append_left _ he, hsame⟩
    · cases List.mem_singleton.mp hp
      exact ⟨entry, List.mem_append_right _ List.mem_cons_self, hpage, hlogical⟩

theorem WriterOk.appendPage (hcipher : CipherOk ext) (h : WriterOk ext w pages)
    (hsound : PageSound ext w.encryption page)
    (hok : w.appendPage ext page nonce = .ok (entry, w')) :
    WriterOk ext w' (pages ++ [page]) ∧ w'.encryption = w.encryption ∧ w'.packId = w.packId := by
  unfold PackWriter.appendPage at hok
  cases hknown : w.known.get page.hash with
  | none =>
    rw [hknown] at hok
    obtain ⟨_, _, -, -, -, -, -, hw'⟩ := appendFresh_ok hok
    refine ⟨h.appendFresh hcipher hsound hknown hok, ?_, ?_⟩
    · rw [hw']
    · rw [hw']
  | some found =>
    rw [hknown] at hok
    obtain ⟨hlogical, hok⟩ := ensure_bind_ok.mp hok
    cases hok
    obtain ⟨hfound, hhash⟩ := (h.known page.hash entry).mp hknown
    refine ⟨{ h with frames := ?_, pages := ?_ }, rfl, rfl⟩
    · intro e he
      obtain ⟨p, hp, hholds⟩ := h.frames e he
      exact ⟨p, List.mem_append_left _ hp, hholds⟩
    · intro p hp
      rcases List.mem_append.mp hp with hp | hp
      · exact h.pages p hp
      · cases List.mem_singleton.mp hp
        exact ⟨entry, hfound, hhash, hlogical⟩

theorem WriterOk.appended (hcipher : CipherOk ext) (h : WriterOk ext w₀ [])
    (hrun : Appended ext w₀ pages w)
    (hsound : ∀ page ∈ pages, PageSound ext w₀.encryption page) :
    WriterOk ext w pages ∧ w.encryption = w₀.encryption ∧ w.packId = w₀.packId := by
  induction hrun with
  | start => exact ⟨h, rfl, rfl⟩
  | append _ hok ih =>
    rename_i pages w w' page nonce entry _
    obtain ⟨hw, hencryption, hid⟩ := ih fun p hp => hsound p (List.mem_append_left _ hp)
    have hpage := hsound page (List.mem_append_right _ List.mem_cons_self)
    rw [← hencryption] at hpage
    obtain ⟨hw', hencryption', hid'⟩ := hw.appendPage hcipher hpage hok
    exact ⟨hw', hencryption'.trans hencryption, hid'.trans hid⟩

/-! ## The finished file -/

theorem sortedEntries_perm (w : PackWriter) : w.sortedEntries.Perm w.entries :=
  List.perm_insertionSort _ _

theorem length_sortedEntries (w : PackWriter) : w.sortedEntries.length = w.entries.length :=
  (sortedEntries_perm w).length_eq

theorem length_index (w : PackWriter) :
    (encodeIndex w.sortedEntries).length = w.entries.length * indexEntryLen := by
  rw [length_encodeIndex, length_sortedEntries]

/-- INTERNAL: the footer of the finished file. -/
def packFooter (ext : PackExternals) (w : PackWriter) : PackFooter :=
  ⟨ext.blake3 (encodeIndex w.sortedEntries), ext.blake3 (w.content ext),
    (w.content ext).length + footerLen⟩

theorem packBytes_eq (w : PackWriter) :
    w.packBytes ext = w.content ext ++ (packFooter ext w).encode ext := rfl

theorem length_packBytes (w : PackWriter) :
    (w.packBytes ext).length = (w.content ext).length + footerLen := by
  rw [packBytes_eq, List.length_append, length_footer]

theorem WriterOk.length_content (h : WriterOk ext w pages) :
    (w.content ext).length = w.position + w.entries.length * indexEntryLen := by
  have hheader := h.header
  unfold PackWriter.content
  rw [List.length_append, List.length_append, length_header, List.length_drop, h.file, length_index]
  omega

/-- INTERNAL: behind its header the finished file starts as the written one. -/
theorem WriterOk.slice_packBytes (h : WriterOk ext w pages) {start length : Nat}
    (hstart : packHeaderLen ≤ start) (hend : start + length ≤ w.position) :
    slice (w.packBytes ext) start length = slice w.file start length := by
  have hheader := h.header
  have hsplit : w.file = w.file.take packHeaderLen ++ w.file.drop packHeaderLen :=
    (List.take_append_drop _ _).symm
  have hfirst : (w.file.take packHeaderLen).length = packHeaderLen := by
    rw [List.length_take, h.file]
    omega
  have hrest : (w.file.drop packHeaderLen).length = w.position - packHeaderLen := by
    rw [List.length_drop, h.file]
  rw [packBytes_eq]
  unfold PackWriter.content
  rw [List.append_assoc, slice_append_right (by rw [length_header]; exact hstart), length_header,
    List.append_assoc, slice_append_left (by rw [hrest]; omega)]
  conv_rhs => rw [hsplit]
  rw [slice_append_right (by rw [hfirst]; exact hstart), hfirst]

theorem WriterOk.slice_index (h : WriterOk ext w pages) :
    slice (w.packBytes ext) w.position (encodeIndex w.sortedEntries).length =
      encodeIndex w.sortedEntries := by
  have hheader := h.header
  rw [packBytes_eq]
  unfold PackWriter.content
  rw [← List.append_assoc, List.append_assoc]
  refine slice_middle ?_ rfl
  rw [List.length_append, length_header, List.length_drop, h.file]
  omega

theorem WriterOk.sorted (h : WriterOk ext w pages) :
    w.sortedEntries.Pairwise fun a b => a.pageHash < b.pageHash :=
  pairwise_lt_insertionSort PackEntry.pageHash h.distinct

/-- INTERNAL: the frames in the order of the file pass the reader's checks. -/
theorem foldlM_validateEntry {indexOffset pageSize : Nat} {entries : List PackEntry} {first : Nat}
    (hindex : indexOffset ≤ u64Max)
    (horder : entries.Pairwise fun a b => a.frameOffset + a.frameLength ≤ b.frameOffset)
    (hfirst : ∀ e ∈ entries, first ≤ e.frameOffset)
    (hplaced : ∀ e ∈ entries, e.frameOffset + e.frameLength ≤ indexOffset ∧
      e.logicalLength ≤ pageSize) :
    ∃ last, entries.foldlM (validateEntry indexOffset pageSize) first = .ok last := by
  induction entries generalizing first with
  | nil => exact ⟨first, rfl⟩
  | cons entry rest ih =>
    rw [List.pairwise_cons] at horder
    obtain ⟨hend, hsize⟩ := hplaced entry List.mem_cons_self
    have hstep : validateEntry indexOffset pageSize first entry =
        .ok (entry.frameOffset + entry.frameLength) := by
      unfold validateEntry checkedAdd
      rw [if_pos (le_trans hend hindex)]
      exact ensure_bind_ok.mpr ⟨⟨hfirst entry List.mem_cons_self, hend, hsize⟩, rfl⟩
    rw [List.foldlM_cons, hstep]
    exact ih horder.2 horder.1 fun e he => hplaced e (List.mem_cons_of_mem entry he)

theorem WriterOk.validateEntries (h : WriterOk ext w pages) :
    validateEntries w.sortedEntries w.position w.options.pageSize = .ok () := by
  have hstrict : w.entries.Pairwise fun a b => a.frameOffset < b.frameOffset := by
    refine h.order.imp_of_mem fun {a b} ha _ hab => ?_
    have hlength := (h.entries a ha).1.length
    have hoverhead : 64 ≤ frameOverhead a.encrypted := by
      unfold frameOverhead
      split_ifs <;> omega
    omega
  have hphysical : (w.sortedEntries.insertionSort fun a b => a.frameOffset ≤ b.frameOffset) =
      w.entries := insertionSort_eq_of_perm PackEntry.frameOffset hstrict (sortedEntries_perm w)
  obtain ⟨last, hlast⟩ := foldlM_validateEntry h.position h.order
    (fun e he => (h.placed e he).1)
    (fun e he => ⟨(h.placed e he).2, (h.entries e he).2.1⟩)
  unfold Model.validateEntries
  rw [hphysical]
  exact except_bind_ok.mpr ⟨last, hlast, rfl⟩

/-- INTERNAL: the reader of the finished file. -/
def packReader (ext : PackExternals) (w : PackWriter) (encryption : Option PackEncryption) :
    PackReader :=
  ⟨w.packBytes ext, some (ext.blake3 (w.packBytes ext)), w.sortedEntries, w.encryption.isSome,
    w.packId, encryption⟩

theorem WriterOk.openVerified (h : WriterOk ext w pages)
    (hid : w.encryption.isSome = true ↔ w.packId ≠ 0)
    (hfits : w.position + w.entries.length * indexEntryLen + footerLen ≤ u64Max)
    (encryption : Option PackEncryption) :
    PackReader.openVerified ext (w.packBytes ext) encryption =
      .ok (packReader ext w encryption) := by
  have hheader := h.header
  have hposition := h.position
  have hcontent := h.length_content
  have htotal : (w.packBytes ext).length = (w.content ext).length + footerLen :=
    length_packBytes w
  have hindex := length_index w
  have hcount : w.entries.length * indexEntryLen ≤ u64Max := by omega
  unfold u64Max at hfits hposition
  have hfirst : (w.packBytes ext).take packHeaderLen = w.header.encode ext := by
    rw [packBytes_eq]
    unfold PackWriter.content
    rw [List.append_assoc]
    exact List.take_left' (length_header _)
  have hlast : (w.packBytes ext).drop ((w.packBytes ext).length - footerLen) =
      (packFooter ext w).encode ext := by
    rw [htotal, Nat.add_sub_cancel, packBytes_eq]
    exact List.drop_left' rfl
  have hbody : (w.packBytes ext).take ((w.packBytes ext).length - footerLen) = w.content ext := by
    rw [htotal, Nat.add_sub_cancel, packBytes_eq]
    exact List.take_left' rfl
  have hheaderOk : HeaderOk w.header := by
    refine ⟨h.options, ?_, ?_, ?_, hid⟩
    · change w.position < 2 ^ 64
      omega
    · change (encodeIndex w.sortedEntries).length < 2 ^ 64
      omega
    · change w.entries.length < 2 ^ 64
      unfold indexEntryLen at hfits
      omega
  unfold PackReader.openVerified PackReader.openInner
  refine ensure_bind_ok.mpr ⟨?_, ?_⟩
  · omega
  rw [hfirst, hlast, hbody]
  refine except_bind_ok.mpr ⟨_, decode_header hheaderOk, ?_⟩
  refine except_bind_ok.mpr ⟨_, decode_footer ?_, ?_⟩
  · change (w.content ext).length + footerLen < 2 ^ 64
    omega
  refine ensure_bind_ok.mpr ⟨⟨htotal.symm, hheader, ?_⟩, ?_⟩
  · change checkedAdd w.position (encodeIndex w.sortedEntries).length = _
    unfold checkedAdd u64Max
    rw [if_pos (by omega), htotal, hcontent, hindex, Nat.add_sub_cancel]
  have hslice : slice (w.packBytes ext) w.header.indexOffset w.header.indexLength =
      encodeIndex w.sortedEntries := h.slice_index
  rw [hslice]
  refine ensure_bind_ok.mpr ⟨rfl, ?_⟩
  refine ensure_bind_ok.mpr ⟨fun _ => rfl, ?_⟩
  have hdecode : decodeIndex (encodeIndex w.sortedEntries) w.header.entryCount =
      .ok w.sortedEntries := by
    change decodeIndex _ w.entries.length = _
    rw [← length_sortedEntries]
    refine decodeIndex_encodeIndex (fun e he => ?_) h.sorted ?_
    · exact (h.entries e ((sortedEntries_perm w).mem_iff.mp he)).1
    · rw [length_sortedEntries]
      exact hcount
  refine except_bind_ok.mpr ⟨_, hdecode, ?_⟩
  refine except_bind_ok.mpr ⟨(), h.validateEntries, ?_⟩
  refine ensure_bind_ok.mpr ⟨?_, rfl⟩
  exact List.all_eq_true.mpr fun e he =>
    decide_eq_true (h.entries e ((sortedEntries_perm w).mem_iff.mp he)).2.2

/-! ## Reading the pages -/

theorem WriterOk.lookup (h : WriterOk ext w pages) {encryption : Option PackEncryption}
    (hentry : entry ∈ w.entries) :
    (packReader ext w encryption).lookup entry.pageHash = some entry := by
  have hmem : entry ∈ w.sortedEntries := (sortedEntries_perm w).mem_iff.mpr hentry
  have hdistinct : w.sortedEntries.Pairwise fun a b => a.pageHash ≠ b.pageHash :=
    h.distinct.perm (sortedEntries_perm w).symm Ne.symm
  unfold PackReader.lookup
  cases hfind : w.sortedEntries.find? fun e => e.pageHash = entry.pageHash with
  | none => exact absurd (decide_eq_true rfl) (List.find?_eq_none.mp hfind entry hmem)
  | some found =>
    have hkey := List.find?_some hfind
    have hsame : found = entry := eq_of_key_eq PackEntry.pageHash hdistinct
      (List.mem_of_find?_eq_some hfind) hmem (of_decide_eq_true hkey)
    rw [hsame] at hfind
    exact hfind

theorem WriterOk.readPage (h : WriterOk ext w pages) (hentry : entry ∈ w.entries)
    (hholds : FrameHolds ext w entry page) :
    (packReader ext w w.encryption).readPage ext entry.pageHash = .ok page := by
  obtain ⟨hhash, -, -, hdecode⟩ := hholds
  obtain ⟨hstart, hend⟩ := h.placed entry hentry
  unfold PackReader.readPage
  refine someOr_bind_ok.mpr ⟨entry, h.lookup hentry, ?_⟩
  refine ensure_bind_ok.mpr ⟨?_, ?_⟩
  · change entry.frameOffset + entry.frameLength ≤ (w.packBytes ext).length
    rw [length_packBytes, h.length_content]
    omega
  have hslice : slice (packReader ext w w.encryption).file entry.frameOffset entry.frameLength =
      slice w.file entry.frameOffset entry.frameLength := h.slice_packBytes hstart hend
  rw [hslice]
  refine except_bind_ok.mpr ⟨page, hdecode, ?_⟩
  exact ensure_bind_ok.mpr ⟨hhash, rfl⟩

theorem WriterOk.finish (h : WriterOk ext w pages) (hne : pages ≠ [])
    (hid : w.encryption.isSome = true ↔ w.packId ≠ 0)
    (hfits : w.position + w.entries.length * indexEntryLen + footerLen ≤ u64Max)
    {existing : BitVec 256 → Option (List UInt8)}
    (hexisting : ∀ found, existing (ext.blake3 (w.packBytes ext)) = some found →
      found = w.packBytes ext) :
    ∃ pack, w.finish ext existing = .ok pack ∧ pack.bytes = w.packBytes ext := by
  have hopen := h.openVerified hid hfits none
  have hentries : w.entries ≠ [] := by
    obtain ⟨page, hpage⟩ := List.exists_mem_of_ne_nil pages hne
    obtain ⟨e, he, -⟩ := h.pages page hpage
    exact List.ne_nil_of_mem he
  have hcontent : checkedAdd w.position (encodeIndex w.sortedEntries).length =
      some (w.position + w.entries.length * indexEntryLen) := by
    unfold checkedAdd
    rw [length_index, if_pos (by omega)]
  have hpack : checkedAdd (w.position + w.entries.length * indexEntryLen) footerLen =
      some (w.position + w.entries.length * indexEntryLen + footerLen) := by
    unfold checkedAdd
    rw [if_pos hfits]
  refine ⟨⟨w.packBytes ext, ext.blake3 (w.packBytes ext),
    w.position + w.entries.length * indexEntryLen + footerLen, w.sortedEntries⟩, ?_, rfl⟩
  unfold PackWriter.finish
  refine ensure_bind_ok.mpr ⟨hentries, ?_⟩
  refine someOr_bind_ok.mpr ⟨_, hcontent, ?_⟩
  refine someOr_bind_ok.mpr ⟨_, hpack, ?_⟩
  refine except_bind_ok.mpr ⟨_, hopen, ?_⟩
  cases hfound : existing (ext.blake3 (w.packBytes ext)) with
  | none => rfl
  | some found =>
    cases hexisting found hfound
    refine except_bind_ok.mpr ⟨_, hopen, ?_⟩
    exact ensure_bind_ok.mpr ⟨rfl, rfl⟩

/-- INTERNAL: for pages that are named by their content and, if they are encrypted, not
empty and of the length they claim, the pack is finished and opened, and each page is read
back through its one index entry.
SRCLINE: mirage-pack/src/writer.rs:128-298, mirage-pack/src/reader.rs:60-323 -/
theorem finished_pack_returns_pages (hcipher : CipherOk ext) {options : PackWriterOptions}
    {encryption : Option PackEncryption} {writerId : BitVec 128}
    (hcreate : PackWriter.create options encryption (some writerId) = .ok w₀)
    (hrun : Appended ext w₀ pages w) (hne : pages ≠ [])
    (hid : encryption.isSome → writerId ≠ 0)
    (hsound : ∀ page ∈ pages, PageSound ext encryption page)
    (hfits : w.position + w.entries.length * indexEntryLen + footerLen ≤ u64Max)
    (existing : BitVec 256 → Option (List UInt8))
    (hexisting : ∀ found, existing (ext.blake3 (w.packBytes ext)) = some found →
      ext.blake3 found = ext.blake3 (w.packBytes ext))
    (hcollision : Set.InjOn ext.blake3 (hashedBytes ext pages w existing)) :
    ∃ pack reader, w.finish ext existing = .ok pack ∧
      PackReader.openVerified ext pack.bytes encryption = .ok reader ∧
      ∀ page ∈ pages, reader.readPage ext page.hash = .ok page ∧
        reader.entries.countP (fun entry => entry.pageHash = page.hash) = 1 := by
  obtain ⟨h₀, hencryption₀, id, hid₀, hpackId₀⟩ : WriterOk ext w₀ [] ∧ _ := create_ok hcreate
  cases hid₀
  rw [← hencryption₀] at hsound
  obtain ⟨h, hencryption, hpackId⟩ := h₀.appended hcipher hrun hsound
  have hidentity : w.encryption.isSome = true ↔ w.packId ≠ 0 := by
    rw [hpackId, hpackId₀, hencryption, hencryption₀]
    cases hsome : encryption.isSome with
    | true =>
      rw [if_pos rfl]
      exact ⟨fun _ => hid hsome, fun _ => rfl⟩
    | false => simp
  obtain ⟨pack, hfinish, hbytes⟩ := h.finish hne hidentity hfits fun found hfound =>
    hcollision (.inr (.inr hfound)) (.inr (.inl rfl)) (hexisting found hfound)
  refine ⟨pack, packReader ext w w.encryption, hfinish, ?_, fun page hpage => ?_⟩
  · rw [hbytes, ← hencryption₀, ← hencryption]
    exact h.openVerified hidentity hfits w.encryption
  · obtain ⟨entry, hentry, hkey, hlogical⟩ := h.pages page hpage
    obtain ⟨first, hfirst, hholds⟩ := h.frames entry hentry
    -- the frame was written for the first page of that hash, which has the same bytes
    have hread := h.readPage hentry hholds
    obtain ⟨hhash, hlength, hcontent, -⟩ := hholds
    have hbytes : first.bytes = page.bytes := by
      refine hcollision (.inl ⟨first, hfirst, rfl⟩) (.inl ⟨page, hpage, rfl⟩) ?_
      rw [hcontent, hhash, hkey, (hsound page hpage).hash]
    have hsame : first = page := by
      have hhash' := hhash.trans hkey
      have hlength' := hlength.trans hlogical
      cases first
      cases page
      simp only at hhash' hlength' hbytes
      rw [hhash', hlength', hbytes]
    refine ⟨?_, ?_⟩
    · rw [← hkey, hread, hsame]
    · have hdistinct : w.sortedEntries.Pairwise fun a b => a.pageHash ≠ b.pageHash :=
        h.distinct.perm (sortedEntries_perm w).symm Ne.symm
      have hmem : entry ∈ w.sortedEntries := (sortedEntries_perm w).mem_iff.mpr hentry
      rw [← hkey]
      exact countP_key_eq_one PackEntry.pageHash hdistinct hmem

/-! ## Two small packs -/

/-- INTERNAL: a digest that tells short inputs apart and a cipher that appends its tag. -/
def plainCodecs : PackExternals where
  blake3 bytes := BitVec.ofNat 256 (bytes.foldl (fun a b => a * 257 + b.toNat + 1) 0)
  crc32 _ := 0
  encrypt _ _ plaintext _ := some (plaintext ++ zeros 16)
  decrypt _ _ ciphertext _ := some (ciphertext.take (ciphertext.length - 16))

theorem cipherOk_plainCodecs : CipherOk plainCodecs := by
  constructor
  · intro key nonce plaintext aad ciphertext h
    cases h
    change some (List.take _ _) = _
    rw [List.length_append, length_zeros, Nat.add_sub_cancel, List.take_left]
  · intro key nonce plaintext aad ciphertext h
    cases h
    rw [List.length_append, length_zeros]

def sampleEncryption : PackEncryption := ⟨5, 9⟩

def samplePage (bytes : List UInt8) : PlainPage :=
  ⟨plainCodecs.blake3 bytes, bytes.length, bytes⟩

/-- INTERNAL: an encrypted writer without pages. -/
def sampleWriter : PackWriter :=
  ⟨zeros 64, ⟨65536, 1048576, false⟩, [], .empty, 64, some sampleEncryption, 3⟩

/-- INTERNAL: the writer after a page, and as it was if the page is refused. -/
def written (w : PackWriter) (page : PlainPage) : PackWriter :=
  match w.appendPage plainCodecs page (some 7) with
  | .ok (_, w') => w'
  | .error _ => w

theorem appended_written (hrun : Appended plainCodecs sampleWriter pages w)
    (hok : (w.appendPage plainCodecs page (some 7)).toBool = true) :
    Appended plainCodecs sampleWriter (pages ++ [page]) (written w page) := by
  unfold written
  cases h : w.appendPage plainCodecs page (some 7) with
  | error e =>
    rw [h] at hok
    cases hok
  | ok r => exact hrun.append h

/-- INTERNAL: two pages and the first one again. -/
def threePages : PackWriter :=
  written (written (written sampleWriter (samplePage [1, 2, 3])) (samplePage [4]))
    (samplePage [1, 2, 3])

/-- INTERNAL: three encrypted pages, one of them twice. -/
theorem three_pages_returned :
    ∃ pack reader, threePages.finish plainCodecs (fun _ => none) = .ok pack ∧
      PackReader.openVerified plainCodecs pack.bytes (some sampleEncryption) = .ok reader ∧
      reader.readPage plainCodecs (samplePage [4]).hash = .ok (samplePage [4]) := by
  have hrun : Appended plainCodecs sampleWriter
      [samplePage [1, 2, 3], samplePage [4], samplePage [1, 2, 3]] threePages :=
    appended_written (appended_written (appended_written .start (by decide +kernel))
      (by decide +kernel)) (by decide +kernel)
  have hdistinct : ∀ a ∈ [[1, 2, 3], [4], threePages.packBytes plainCodecs],
      ∀ b ∈ [[1, 2, 3], [4], threePages.packBytes plainCodecs],
        plainCodecs.blake3 a = plainCodecs.blake3 b → a = b := by
    decide +kernel
  have hhashed : ∀ bytes ∈ hashedBytes plainCodecs
      [samplePage [1, 2, 3], samplePage [4], samplePage [1, 2, 3]] threePages (fun _ => none),
      bytes ∈ [[1, 2, 3], [4], threePages.packBytes plainCodecs] := by
    rintro bytes (⟨page, hpage, rfl⟩ | rfl | hnone)
    · simp only [List.mem_cons, List.not_mem_nil, or_false] at hpage
      rcases hpage with rfl | rfl | rfl
      · simp [samplePage]
      · simp [samplePage]
      · simp [samplePage]
    · simp
    · cases hnone
  obtain ⟨pack, reader, hfinish, hopen, hpages⟩ :=
    finished_pack_returns_pages cipherOk_plainCodecs
      (show PackWriter.create ⟨65536, 1048576, false⟩ (some sampleEncryption) (some 3) =
        .ok sampleWriter by decide +kernel)
      hrun (List.cons_ne_nil _ _) (by decide)
      (by
        intro page hpage
        simp only [List.mem_cons, List.not_mem_nil, or_false] at hpage
        rcases hpage with rfl | rfl | rfl
        · exact ⟨rfl, fun _ => ⟨rfl, by decide⟩⟩
        · exact ⟨rfl, fun _ => ⟨rfl, by decide⟩⟩
        · exact ⟨rfl, fun _ => ⟨rfl, by decide⟩⟩)
      (by decide +kernel) (fun _ => none) (fun found hfound => by cases hfound)
      (fun a ha b hb hab => hdistinct a (hhashed a ha) b (hhashed b hb) hab)
  exact ⟨pack, reader, hfinish, hopen, (hpages (samplePage [4]) (by simp)).1⟩

/-- INTERNAL: the writer of an encrypted pack accepts the empty page and cannot finish. -/
theorem empty_page_is_not_finished :
    PackWriter.create ⟨65536, 1048576, false⟩ (some sampleEncryption) (some 3) =
      .ok sampleWriter ∧
    sampleWriter.appendPage plainCodecs (samplePage []) (some 7) =
      .ok (⟨0, 64, 68, 0, 0, true⟩, written sampleWriter (samplePage [])) ∧
    (written sampleWriter (samplePage [])).finish plainCodecs (fun _ => none) =
      .error (.manifestInvalid "pack index lengths are inconsistent") := by
  decide +kernel

end Mirage.Analysis
