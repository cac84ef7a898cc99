import Mirage.Interface.CleanupRun

/-!
# Cleanups and their journal

A journal stands on disk before the first chunk is removed, and stays pending until every chunk
that it does not retain is gone.  The reader accepts one MiB of text, which is less than the
text of 8192 keys can take.
-/

set_option autoImplicit false

namespace Mirage.Analysis

open Mirage.Model Mirage.Interface Mirage.Computation CallSystem

variable {d d' : ChunkDir} {disk left : DiskCache} {key : ChunkKey} {journal : Cleanup}
  {retain keys : List ChunkKey} {hash : HashOrder}

/-! ## Names of chunks -/

theorem fromStrRadix_digits (b : UInt8) :
    fromStrRadix (hexByte (b / 16)) (hexByte (b % 16)) = some b := by
  have hall : ∀ n < 256, fromStrRadix (hexByte (UInt8.ofNat n / 16))
      (hexByte (UInt8.ofNat n % 16)) = some (UInt8.ofNat n) := by
    decide +kernel
  have hb := hall b.toNat b.toNat_lt
  rwa [UInt8.ofNat_toNat] at hb

theorem parsePairs_digits (bytes : List UInt8) :
    parsePairs (bytes.flatMap fun b => [hexByte (b / 16), hexByte (b % 16)]) = some bytes := by
  induction bytes with
  | nil => rfl
  | cons b rest ih =>
    change (do
      let byte ← fromStrRadix (hexByte (b / 16)) (hexByte (b % 16))
      let bytes ← parsePairs (rest.flatMap fun b => [hexByte (b / 16), hexByte (b % 16)])
      return byte :: bytes) = some (b :: rest)
    rw [fromStrRadix_digits, ih]
    rfl

theorem stripSuffix_append (stem suffix : List UInt8) :
    stripSuffix (stem ++ suffix) suffix = some stem := by
  unfold stripSuffix
  rw [if_pos (List.isSuffixOf_iff_suffix.mpr (List.suffix_append stem suffix)),
    List.length_append, Nat.add_sub_cancel, List.take_left]

theorem parseKey_filename (key : ChunkKey) : parseKey (filename key) = some key := by
  have hlength : (key.val.flatMap fun b => [hexByte (b / 16), hexByte (b % 16)]).length = 64 := by
    simp only [List.length_flatMap, List.length_cons, List.length_nil, List.map_const',
      List.sum_replicate, key.property]
    rfl
  unfold parseKey filename
  rw [stripSuffix_append]
  change (if _ ≠ 64 then none else do
    let bytes ← parsePairs _
    if h : bytes.length = 32 then some (⟨bytes, h⟩ : ChunkKey) else none) = some key
  rw [if_neg (not_not.mpr hlength), parsePairs_digits]
  exact dif_pos key.property

variable {other : ChunkKey}

theorem filename_inj (h : filename key = filename other) : key = other := by
  have hparsed := congrArg parseKey h
  rw [parseKey_filename, parseKey_filename] at hparsed
  exact Option.some.inj hparsed

/-! ## The length of a journal -/

/-- INTERNAL: a journal that the reader accepts, whatever its counters become. -/
structure JournalFits (journal : Cleanup) : Prop where
  text : KeysFit journal.retain
  keys : journal.retain.length ≤ 8192
  reclaimed : journal.reclaimedBytes ≤ u64Max
  retained : journal.retainedBytes ≤ u64Max

theorem text_length (journal : Cleanup) :
    journal.text.length = (jsonBool journal.pending).length +
      (decimal journal.reclaimedBytes).length + (decimal journal.retainedBytes).length +
        (Cleanup.keysText journal.retain).length + 59 := by
  unfold Cleanup.text
  rw [jsonObject_length]
  simp only [List.map_cons, List.map_nil, List.sum_cons, List.sum_nil, List.length_cons,
    List.length_nil, show "pending".toList.length = 7 from rfl,
    show "reclaimed_bytes".toList.length = 15 from rfl,
    show "retained_bytes".toList.length = 14 from rfl, show "retain".toList.length = 6 from rfl]
  omega

theorem decimal_u64_length {n : Nat} (h : n ≤ u64Max) : (decimal n).length ≤ 20 :=
  decimal_length_le (by decide) (Nat.lt_of_le_of_lt h (by decide))

theorem accepted_of_fits {write : Cleanup → List Char} (hwrite : NoLonger write Cleanup.text)
    (h : JournalFits journal) : journal.accepted write = .ok () := by
  have hpending : (jsonBool journal.pending).length ≤ 5 := by
    cases journal.pending <;> decide
  have hreclaimed := decimal_u64_length h.reclaimed
  have hretained := decimal_u64_length h.retained
  have htext := h.text
  unfold KeysFit at htext
  have hlength : (write journal).length ≤ 1024 * 1024 := by
    have hle := hwrite journal
    rw [text_length] at hle
    omega
  unfold Cleanup.accepted ensure
  rw [if_pos hlength, if_pos h.keys]
  rfl

/-- INTERNAL: the longest text of a key. -/
theorem keyArray_length_le (key : ChunkKey) :
    (jsonArray (key.val.map fun b => decimal b.toNat)).length ≤ 129 := by
  rw [jsonArray_length, List.length_map, key.property]
  have hle := List.sum_le_card_nsmul
    ((key.val.map fun b => decimal b.toNat).map List.length) 3 (by
      intro n hn
      obtain ⟨item, hitem, rfl⟩ := List.mem_map.mp hn
      obtain ⟨b, -, rfl⟩ := List.mem_map.mp hitem
      exact decimal_length_le (by decide) (Nat.lt_trans b.toNat_lt (by decide)))
  rw [List.length_map, List.length_map, key.property] at hle
  exact Nat.add_le_add_right hle 33

/-- INTERNAL: 8065 keys fit, however long they are in decimal. -/
theorem keysFit_of_length (h : retain.length ≤ 8065) : KeysFit retain := by
  have hkey : ∀ item ∈ retain.map (fun key => jsonArray (key.val.map fun b => decimal b.toNat)),
      item.length ≤ 129 := by
    intro item hitem
    obtain ⟨key, -, rfl⟩ := List.mem_map.mp hitem
    exact keyArray_length_le key
  have hlength := jsonArray_length_le hkey
  rw [List.length_map] at hlength
  unfold KeysFit Cleanup.keysText
  omega

/-! ## The disk cache -/

/-- INTERNAL: every chunk of the directory has an entry. -/
structure DiskOk (disk : DiskCache) (d : ChunkDir) : Prop where
  covers : ∀ file ∈ d.chunks, file.kind = .file → ∀ key, file.name = filename key →
    key ∈ disk.entries.keys
  used : disk.used ≤ u64Max

theorem mem_keys_set {t : Table ChunkKey (Nat × Nat)} {entry : Nat × Nat} :
    other ∈ (t.set key entry).keys ↔ other = key ∨ other ∈ t.keys := by
  rw [Table.mem_keys, Table.mem_keys, Table.get_set]
  split_ifs with heq
  · exact ⟨fun _ => .inl heq, fun _ => ⟨entry, rfl⟩⟩
  · exact ⟨.inr, fun h => h.resolve_left heq⟩

/-- INTERNAL: what adding files does, for any cache they are added to. -/
theorem addFiles_ok {files : List (Option Nat × ChunkKey × Nat)}
    (h : files.foldlM DiskCache.addFile disk = .ok left) (hused : disk.used ≤ u64Max) :
    left.used ≤ u64Max ∧ left.budget = disk.budget ∧
      ∀ key, key ∈ disk.entries.keys ∨ key ∈ files.map (fun file => file.2.1) →
        key ∈ left.entries.keys := by
  induction files generalizing disk with
  | nil =>
    obtain rfl := Except.ok.inj h
    exact ⟨hused, rfl, fun key hkey => hkey.resolve_right List.not_mem_nil⟩
  | cons file rest ih =>
    rw [List.foldlM_cons] at h
    obtain ⟨next, hnext, hrest⟩ := except_bind_ok.mp h
    obtain ⟨used, hsum, hnext⟩ := someOr_bind_ok.mp hnext
    obtain rfl := Except.ok.inj hnext
    obtain ⟨rfl, hle⟩ := checkedAdd_eq_some hsum
    obtain ⟨hused', hbudget, hkeys⟩ := ih hrest hle
    refine ⟨hused', hbudget, fun key hkey => hkeys key ?_⟩
    rcases hkey with hold | hnew
    · exact .inl (mem_keys_set.mpr (.inr hold))
    · rcases List.mem_cons.mp hnew with rfl | hlater
      · exact .inl (mem_keys_set.mpr (.inl rfl))
      · exact .inr hlater

theorem diskOk_ofFiles {budget : Nat} (h : DiskCache.ofFiles budget d.chunks = .ok disk) :
    DiskOk disk d ∧ disk.budget = budget := by
  obtain ⟨hused, hbudget, hkeys⟩ := addFiles_ok h (Nat.zero_le _)
  refine ⟨⟨fun file hfile hkind key hname => hkeys key (.inr ?_), hused⟩, hbudget⟩
  have hchunk : DiskCache.chunkOf file = some (file.modified, key, file.allocated) := by
    unfold DiskCache.chunkOf
    rw [if_pos hkind, hname, parseKey_filename]
    rfl
  refine List.mem_map.mpr ⟨(file.modified, key, file.allocated), ?_, rfl⟩
  exact (List.perm_insertionSort _ _).mem_iff.mpr (List.mem_filterMap.mpr ⟨file, hfile, hchunk⟩)

theorem forget_keys (hne : other ≠ key) (h : other ∈ disk.entries.keys) :
    other ∈ (disk.forget key).entries.keys := by
  unfold DiskCache.forget
  cases disk.entries.get key with
  | none => exact h
  | some entry =>
    obtain ⟨value, hvalue⟩ := Table.mem_keys.mp h
    exact Table.mem_keys.mpr ⟨value, (Table.get_erase_ne hne).trans hvalue⟩

theorem forget_used : (disk.forget key).used ≤ disk.used := by
  unfold DiskCache.forget
  cases disk.entries.get key with
  | none => exact Nat.le_refl _
  | some entry => exact Nat.sub_le _ _

/-! ## The discipline of a cleanup -/

structure CleanupInv (d : ChunkDir) : Prop where
  fits : ∀ journal, d.journal = some journal → JournalFits journal
  finished : ∀ journal, d.journal = some journal → journal.pending = false →
    OnlyRetained d journal.retain

def cleanupDiscipline : Discipline CleanupAct ChunkDir := ⟨CleanupInv, fun _ => CleanupStep⟩

/-- INTERNAL: the program follows the discipline and returns with `Q`. -/
abbrev CleanupFollows {α : Type} (y : Cleaning α) (Q : α → ChunkDir → Prop) (d : ChunkDir) : Prop :=
  cleanupSystem.Follows cleanupDiscipline y (fun a d' => CleanupInv d' ∧ Q a d') d

theorem cleanupStep_of_same (hchunks : d'.chunks = d.chunks) (hjournal : d'.journal = d.journal) :
    CleanupStep d d' where
  removes := by
    intro file hfile hgone
    rw [hchunks] at hgone
    exact absurd hfile hgone
  replaces := fun journal hold _ => ⟨journal, hjournal.trans hold, rfl, Nat.le_refl _⟩

theorem cleanupInv_of_same (h : CleanupInv d) (hchunks : d'.chunks = d.chunks)
    (hjournal : d'.journal = d.journal) : CleanupInv d' where
  fits := by
    rw [hjournal]
    exact h.fits
  finished := by
    rw [hjournal]
    intro journal hold hpending file hfile
    rw [hchunks] at hfile
    exact h.finished journal hold hpending file hfile

/-- INTERNAL: a call that only looks. -/
theorem follows_look (h : CleanupInv d) {i : CleanupAct}
    (hstate : ∀ x, (cleanupSystem.perform x d i).2 = d) :
    CleanupFollows (Cleaning.call i)
      (fun a d' => d = d' ∧ ∃ x, (cleanupSystem.perform x d i).1 = .ok a) d := by
  refine follows_call h (cleanupStep_of_same rfl rfl) (fun x _ => ?_) fun x a d' _ hok => ?_
  · rw [hstate x]
    exact ⟨cleanupStep_of_same rfl rfl, h⟩
  · have hd : d = d' := by
      rw [← hstate x, hok]
    subst hd
    exact ⟨h, rfl, x, by rw [hok]⟩

/-! ## Removals -/

/-- INTERNAL: the directory without a name. -/
def withoutName (d : ChunkDir) (name : List UInt8) : ChunkDir :=
  { d with chunks := d.chunks.filter fun file => file.name ≠ name }

theorem mem_withoutName {file : ChunkFile} {name : List UInt8} :
    file ∈ (withoutName d name).chunks ↔ file ∈ d.chunks ∧ file.name ≠ name := by
  unfold withoutName
  rw [List.mem_filter, decide_eq_true_iff]

theorem removeFile_state (d : ChunkDir) (name : List UInt8) :
    d.removeFile name = (.error .ioError, d) ∨
      d.removeFile name = (.ok (), withoutName d name) ∧
        ∀ file ∈ d.chunks, file.name = name → file.kind = .file := by
  unfold ChunkDir.removeFile
  split_ifs with hany
  · exact .inl rfl
  · refine .inr ⟨rfl, fun file hfile hname => ?_⟩
    by_contra hkind
    exact hany (List.any_eq_true.mpr ⟨file, hfile, decide_eq_true ⟨hname, hkind⟩⟩)

/-- INTERNAL: a chunk that the pending journal does not retain may go. -/
theorem cleanupStep_withoutName (hjournal : d.journal = some journal)
    (hpending : journal.pending = true) (hkey : key ∉ journal.retain)
    (hkind : ∀ file ∈ d.chunks, file.name = filename key → file.kind = .file) :
    CleanupStep d (withoutName d (filename key)) where
  removes := by
    intro file hfile hgone
    have hname : file.name = filename key := by
      by_contra hname
      exact hgone (mem_withoutName.mpr ⟨hfile, hname⟩)
    exact ⟨key, journal, hkind file hfile hname, hname, hjournal, hpending, hkey⟩
  replaces := fun other hold _ => ⟨other, hold, rfl, Nat.le_refl _⟩

theorem cleanupInv_withoutName (h : CleanupInv d) (name : List UInt8) :
    CleanupInv (withoutName d name) where
  fits := h.fits
  finished := fun journal hold hpending file hfile =>
    h.finished journal hold hpending file (mem_withoutName.mp hfile).1

/-- INTERNAL: one removal; where it fails the file may be gone as well. -/
theorem follows_remove (h : CleanupInv d) (hjournal : d.journal = some journal)
    (hpending : journal.pending = true) (hkey : key ∉ journal.retain) :
    CleanupFollows (disk.remove key)
      (fun result d' => (d' = d ∨ d' = withoutName d (filename key)) ∧
        ∀ left, result = .ok left → left = disk.forget key ∧ d' = withoutName d (filename key))
      d := by
  have hsame : CleanupStep d d := cleanupStep_of_same rfl rfl
  refine follows_bind (R := fun removed d' => CleanupInv d' ∧
    (d' = d ∨ d' = withoutName d (filename key)) ∧
      ∀ a, removed = .ok a → d' = withoutName d (filename key)) ?_ ?_
  · refine follows_attempt h hsame (fun x _ => ?_) fun x r d' _ hstate hok => ?_
    · change CleanupStep d (d.removeFile (filename key)).2 ∧
        CleanupInv (d.removeFile (filename key)).2
      rcases removeFile_state d (filename key) with hperform | ⟨hperform, hkind⟩
      · rw [hperform]
        exact ⟨hsame, h⟩
      · rw [hperform]
        exact ⟨cleanupStep_withoutName hjournal hpending hkey hkind,
          cleanupInv_withoutName h (filename key)⟩
    · change d' = d ∨ d' = (d.removeFile (filename key)).2 at hstate
      change ∀ a, r = .ok a → d.removeFile (filename key) = (.ok a, d') at hok
      rcases removeFile_state d (filename key) with hperform | ⟨hperform, -⟩
      · rw [hperform] at hstate hok
        have hd : d' = d := hstate.elim id id
        refine ⟨hd ▸ h, .inl hd, fun a ha => ?_⟩
        cases hok a ha
      · rw [hperform] at hstate hok
        refine ⟨?_, hstate, fun a ha => ?_⟩
        · rcases hstate with rfl | rfl
          · exact h
          · exact cleanupInv_withoutName h _
        · exact (congrArg Prod.snd (hok a ha)).symm
  · rintro removed d' ⟨hinv, hstate, hok⟩
    cases removed with
    | ok a =>
      refine ⟨hinv, hstate, fun left hleft => ?_⟩
      exact ⟨(Except.ok.inj hleft).symm, hok a rfl⟩
    | error e =>
      refine ⟨hinv, hstate, fun left hleft => ?_⟩
      cases hleft

theorem diskOk_withoutName (h : DiskOk disk d) (name : List UInt8) :
    DiskOk disk (withoutName d name) :=
  ⟨fun file hfile => h.covers file (mem_withoutName.mp hfile).1, h.used⟩

theorem diskOk_forget (h : DiskOk disk d) :
    DiskOk (disk.forget key) (withoutName d (filename key)) := by
  refine ⟨fun file hfile hkind other hname => ?_, Nat.le_trans forget_used h.used⟩
  obtain ⟨hold, hne⟩ := mem_withoutName.mp hfile
  refine forget_keys ?_ (h.covers file hold hkind other hname)
  rintro rfl
  exact hne hname

/-- INTERNAL: what is left of a directory after some removals under a journal. -/
structure Removed (journal : Cleanup) (disk : DiskCache) (d : ChunkDir) (left : DiskCache)
    (d' : ChunkDir) : Prop where
  journaled : d'.journal = some journal
  covered : DiskOk left d'
  less : left.used ≤ disk.used
  fewer : d'.chunks ⊆ d.chunks

theorem follows_removeAll (h : CleanupInv d) (hdisk : DiskOk disk d)
    (hjournal : d.journal = some journal) (hpending : journal.pending = true)
    (hkeys : ∀ key ∈ keys, key ∉ journal.retain) :
    CleanupFollows (disk.removeAll keys)
      (fun r d' => Removed journal disk d r.1 d' ∧
        (r.2 = .ok () → ∀ file ∈ d'.chunks, ∀ key ∈ keys, file.name ≠ filename key)) d := by
  induction keys generalizing disk d with
  | nil =>
    exact ⟨h, ⟨hjournal, hdisk, Nat.le_refl _, List.Subset.refl _⟩, fun _ _ _ _ => nofun⟩
  | cons key rest ih =>
    refine follows_bind
      (follows_remove h hjournal hpending (hkeys key List.mem_cons_self)) ?_
    rintro removed d₁ ⟨hinv, hstate, hok⟩
    cases removed with
    | ok left =>
      obtain ⟨rfl, rfl⟩ := hok left rfl
      refine follows_mono (ih hinv (diskOk_forget hdisk) hjournal
        fun other hother => hkeys other (List.mem_cons_of_mem _ hother)) ?_
      rintro ⟨last, result⟩ d' ⟨hinv', hremoved, hgone⟩
      refine ⟨hinv', ⟨hremoved.journaled, hremoved.covered,
        Nat.le_trans hremoved.less forget_used,
        fun file hfile => (mem_withoutName.mp (hremoved.fewer hfile)).1⟩, ?_⟩
      intro hresult file hfile other hother
      rcases List.mem_cons.mp hother with rfl | hlater
      · exact (mem_withoutName.mp (hremoved.fewer hfile)).2
      · exact hgone hresult file hfile other hlater
    | error e =>
      refine ⟨hinv, ?_, nofun⟩
      rcases hstate with rfl | rfl
      · exact ⟨hjournal, hdisk, Nat.le_refl _, List.Subset.refl _⟩
      · exact ⟨hjournal, diskOk_withoutName hdisk _, Nat.le_refl _,
          fun file hfile => (mem_withoutName.mp hfile).1⟩

theorem follows_clearExcept (h : CleanupInv d) (hdisk : DiskOk disk d)
    (hjournal : d.journal = some journal) (hpending : journal.pending = true) :
    CleanupFollows (disk.clearExcept hash journal.retain)
      (fun r d' => Removed journal disk d r.1 d' ∧
        (r.2 = .ok () → OnlyRetained d' journal.retain)) d := by
  refine follows_mono (follows_removeAll h hdisk hjournal hpending fun key hkey =>
    of_decide_eq_true (List.mem_filter.mp hkey).2) ?_
  rintro ⟨left, result⟩ d' ⟨hinv, hremoved, hgone⟩
  refine ⟨hinv, hremoved, fun hresult file hfile hkind key hname => ?_⟩
  by_contra hkey
  have hentry := hdisk.covers file (hremoved.fewer hfile) hkind key hname
  refine hgone hresult file hfile key (List.mem_filter.mpr ⟨?_, decide_eq_true hkey⟩) hname
  exact (hash.perm _).mem_iff.mpr hentry

/-! ## Saving a journal -/

/-- INTERNAL: a journal may be put in place: it fits, its chunks are gone if it is not pending,
and it continues a pending one. -/
structure MaySave (d : ChunkDir) (journal : Cleanup) : Prop where
  fits : JournalFits journal
  finished : journal.pending = false → OnlyRetained d journal.retain
  continues : ∀ old, d.journal = some old → old.pending = true →
    journal.retain = old.retain ∧ old.reclaimedBytes ≤ journal.reclaimedBytes

theorem cleanupInv_saved (h : MaySave d journal) :
    CleanupInv { d with temp := none, journal := some journal } where
  fits := by
    rintro _ ⟨⟩
    exact h.fits
  finished := by
    rintro _ ⟨⟩
    exact h.finished

theorem cleanupStep_saved (h : MaySave d journal) :
    CleanupStep d { d with temp := none, journal := some journal } where
  removes := fun _ hfile hgone => absurd hfile hgone
  replaces := fun old hold hpending => ⟨journal, rfl, h.continues old hold hpending⟩

theorem follows_save (h : CleanupInv d) (hsave : MaySave d journal) :
    CleanupFollows (saveCleanup journal)
      (fun _ d' => d' = { d with temp := none, journal := some journal }) d := by
  refine follows_bind (R := fun _ d' => d' = { d with temp := some journal }) ?_ ?_
  · refine follows_call h (cleanupStep_of_same rfl rfl) (fun x _ => ?_) fun x a d' _ hok => ?_
    · exact ⟨cleanupStep_of_same rfl rfl, cleanupInv_of_same h rfl rfl⟩
    · exact (congrArg Prod.snd hok).symm
  · rintro _ _ rfl
    have hsaved : MaySave { d with temp := some journal } journal :=
      ⟨hsave.fits, hsave.finished, hsave.continues⟩
    refine follows_call (cleanupInv_of_same h rfl rfl) (cleanupStep_of_same rfl rfl)
      (fun x _ => ?_) fun x a d' _ hok => ?_
    · exact ⟨cleanupStep_saved hsaved, cleanupInv_saved hsaved⟩
    · obtain rfl := (congrArg Prod.snd hok).symm
      exact ⟨cleanupInv_saved hsaved, rfl⟩

/-! ## Opening and recovering -/

theorem follows_openDisk (h : CleanupInv d) :
    CleanupFollows (DiskCache.openDisk hash u64Max) (fun disk d' => d = d' ∧ DiskOk disk d) d := by
  refine follows_bind (follows_look h fun _ => rfl) ?_
  rintro files _ ⟨-, rfl, x, hfiles⟩
  have hchunks : files = d.chunks := by
    change d.readDir = .ok files at hfiles
    unfold ChunkDir.readDir at hfiles
    split_ifs at hfiles
    exact (Except.ok.inj hfiles).symm
  subst hchunks
  refine follows_bind (R := fun disk d' => d = d' ∧ DiskOk disk d ∧ disk.budget = u64Max)
    (follows_compute fun disk hdisk => ⟨rfl, diskOk_ofFiles hdisk⟩) ?_
  rintro disk _ ⟨rfl, hdisk, hbudget⟩
  unfold DiskCache.makeRoom
  rw [if_pos (by rw [hbudget]; exact hdisk.used)]
  exact ⟨h, rfl, hdisk⟩

/-- INTERNAL: the journal that is saved behind the removals. -/
theorem maySave_cleared {result : Except MirageStatus Unit} {reclaimed : Nat}
    (hfits : JournalFits journal) (hremoved : Removed journal disk d left d')
    (hdone : result = .ok () → OnlyRetained d' journal.retain) (hreclaimed : reclaimed ≤ u64Max)
    (hmore : journal.reclaimedBytes ≤ reclaimed) :
    MaySave d' { journal with
      pending := result.toOption.isNone, reclaimedBytes := reclaimed,
      retainedBytes := left.used } where
  fits := ⟨hfits.text, hfits.keys, hreclaimed, hremoved.covered.used⟩
  finished := by
    intro hpending
    cases result with
    | ok _ => exact hdone rfl
    | error e => cases hpending
  continues := by
    intro old hold _
    rw [hremoved.journaled] at hold
    obtain rfl := Option.some.inj hold
    exact ⟨rfl, hmore⟩

variable {write : Cleanup → List Char}

/-- INTERNAL: behind a recovery no journal is pending. -/
theorem follows_recover (h : CleanupInv d) (hdisk : DiskOk disk d) :
    CleanupFollows (recoverCleanup write hash disk)
      (fun left d' => DiskOk left d' ∧
        ∀ journal, d'.journal = some journal → journal.pending = false) d := by
  refine follows_bind (follows_look h fun _ => rfl) ?_
  rintro file _ ⟨-, rfl, x, hfile⟩
  obtain rfl : d.journal = file := Except.ok.inj hfile
  cases hjournal : d.journal with
  | none =>
    refine ⟨h, hdisk, fun journal hsome => ?_⟩
    rw [hjournal] at hsome
    cases hsome
  | some journal =>
    have hfits := h.fits journal hjournal
    refine follows_bind (R := fun _ d' => d = d') (follows_compute fun _ _ => rfl) ?_
    rintro _ _ rfl
    by_cases hpending : journal.pending = false
    · rw [if_pos hpending]
      refine ⟨h, hdisk, fun other hother => ?_⟩
      rw [hjournal] at hother
      obtain rfl := Option.some.inj hother
      exact hpending
    · rw [if_neg hpending]
      refine follows_bind (follows_clearExcept h hdisk hjournal (eq_true_of_ne_false hpending)) ?_
      rintro ⟨left, result⟩ d₁ ⟨hinv, hremoved, hdone⟩
      have hmore : journal.reclaimedBytes ≤
          saturatingAdd journal.reclaimedBytes (disk.used - left.used) :=
        Nat.le_min.mpr ⟨Nat.le_add_right _ _, hfits.reclaimed⟩
      have hsave := maySave_cleared hfits hremoved hdone (Nat.min_le_right _ _) hmore
      refine follows_bind (follows_save hinv hsave) ?_
      rintro _ _ ⟨hsaved, rfl⟩
      refine follows_compute fun last hlast => ?_
      cases result with
      | error e => cases hlast
      | ok _ =>
        obtain rfl := Except.ok.inj hlast
        refine ⟨hsaved, ⟨hremoved.covered.covers, hremoved.covered.used⟩, ?_⟩
        rintro _ ⟨⟩
        rfl

theorem follows_reopen (h : CleanupInv d) :
    CleanupFollows (reopen write hash) (fun _ _ => True) d := by
  refine follows_bind (follows_look h fun _ => rfl) ?_
  rintro _ _ ⟨hinv, rfl, -⟩
  refine follows_bind (follows_openDisk hinv) ?_
  rintro disk _ ⟨hinv, rfl, hdisk⟩
  exact follows_mono (follows_recover hinv hdisk) fun _ _ hleft => ⟨hleft.1, trivial⟩

theorem follows_cleanup (h : CleanupInv d) (hkeys : KeysFit retain) :
    CleanupFollows (cleanup write hash retain) (fun _ _ => True) d := by
  refine follows_bind (R := fun _ d' => d = d' ∧ retain.length ≤ 8192)
    (follows_compute fun _ hok => ⟨rfl, ensure_ok hok⟩) ?_
  rintro _ _ ⟨rfl, hlength⟩
  refine follows_bind (follows_look h fun _ => rfl) ?_
  rintro _ _ ⟨hinv, rfl, -⟩
  refine follows_bind (follows_openDisk hinv) ?_
  rintro opened _ ⟨hinv, rfl, hopened⟩
  refine follows_bind (follows_recover hinv hopened) ?_
  rintro disk d₁ ⟨hinv, hdisk, hidle⟩
  have hfits : JournalFits ⟨true, 0, 0, retain⟩ :=
    ⟨hkeys, hlength, Nat.zero_le _, Nat.zero_le _⟩
  have hstart : MaySave d₁ ⟨true, 0, 0, retain⟩ := by
    refine ⟨hfits, nofun, fun old hold hpending => ?_⟩
    rw [hidle old hold] at hpending
    cases hpending
  refine follows_bind (follows_save hinv hstart) ?_
  rintro _ _ ⟨hinv, rfl⟩
  have hdisk' : DiskOk disk { d₁ with temp := none, journal := some ⟨true, 0, 0, retain⟩ } :=
    ⟨hdisk.covers, hdisk.used⟩
  refine follows_bind (follows_clearExcept hinv hdisk' rfl rfl) ?_
  rintro ⟨left, result⟩ d₂ ⟨hinv, hremoved, hdone⟩
  have hreclaimed : disk.used - left.used ≤ u64Max := Nat.le_trans (Nat.sub_le _ _) hdisk.used
  have hsave := maySave_cleared hfits hremoved hdone hreclaimed (Nat.zero_le _)
  refine follows_bind (follows_save hinv hsave) ?_
  rintro _ _ ⟨hsaved, -⟩
  exact ⟨hsaved, trivial⟩

/-! ## Runs -/

theorem cleanupInv_start (h : d.journal = none) : CleanupInv d where
  fits := by
    rw [h]
    nofun
  finished := by
    rw [h]
    nofun

/-- INTERNAL: `serde_json` writes no more than the compact text of a journal, and reads back what it
wrote.  Where the keys of every cleanup fit the reader, every journal on disk is accepted, a
journal that is not pending has no chunk left outside its keys, and each step removes only
chunks outside the keys of the pending journal, which it otherwise continues.
SRCLINE: mirage-ffi/src/sophon/retention.rs:120-210, sophon/cache.rs:141-171 -/
theorem cleanups_recoverable (hwrite : NoLonger write Cleanup.text) {d₀ : ChunkDir}
    (h₀ : d₀.journal = none)
    {left : Option (CallTree CleanupAct CleanupAct.Value MirageStatus Unit)}
    (run : CleanupReaches write KeysFit d₀ d left) :
    JournalSound write d ∧ ∀ i k x r d', left = some (.act i k) →
      cleanupSystem.exec i x d = some (r, d') → CleanupStep d d' := by
  have hcalls : ∀ (y : Cleaning Unit) d, CleanupInv d →
      ((∃ hash retain, KeysFit retain ∧ y = (do let _ ← cleanup write hash retain)) ∨
        ∃ hash, y = (do let _ ← reopen write hash)) →
      cleanupSystem.Follows cleanupDiscipline y (fun _ _ => True) d := by
    rintro y d hinv (⟨hash, retain, hkeys, rfl⟩ | ⟨hash, rfl⟩)
    · exact follows_bind (follows_cleanup hinv hkeys) fun _ _ _ => trivial
    · exact follows_bind (follows_reopen hinv) fun _ _ _ => trivial
  obtain ⟨hinv, hsteps⟩ := reaches_follows (D := cleanupDiscipline) (cleanupInv_start h₀) hcalls run
  exact ⟨⟨fun journal hold => accepted_of_fits hwrite (hinv.fits journal hold), hinv.finished⟩,
    hsteps⟩

/-- INTERNAL: the key of 32 equal bytes. -/
def keyOf (b : UInt8) : ChunkKey := ⟨List.replicate 32 b, List.length_replicate⟩

/-- INTERNAL: two chunks and a file with another name. -/
def twoChunks : ChunkDir :=
  ⟨[⟨filename (keyOf 1), .file, some 5, 4096⟩, ⟨filename (keyOf 171), .file, none, 8192⟩,
    ⟨[120], .file, none, 1⟩], none, none⟩

/-- INTERNAL: a cleanup is cut behind its first journal, and opening the cache finishes it. -/
theorem cut_cleanup_finished :
    ∃ d left, CleanupReaches Cleanup.text KeysFit twoChunks d left ∧
      (d.chunks.map ChunkFile.name = [filename (keyOf 1), [120]] ∧
        d.journal = some ⟨false, 8192, 4096, [keyOf 1]⟩) ∧ JournalSound Cleanup.text d := by
  have hplay : (cleanupSystem.play
      [((do let _ ← cleanup Cleanup.text plainOrder [keyOf 1]), List.replicate 5 none),
        ((do let _ ← reopen Cleanup.text plainOrder), List.replicate 6 none)] twoChunks).any
      (fun d => d.chunks.map ChunkFile.name = [filename (keyOf 1), [120]] ∧
        d.journal = some ⟨false, 8192, 4096, [keyOf 1]⟩) = true := by
    decide +kernel
  have hrun : ∃ d left, CleanupReaches Cleanup.text KeysFit twoChunks d left ∧ _ :=
    reaches_of_play (by
      intro op hop _
      rcases List.mem_cons.mp hop with rfl | hop
      · exact .inl ⟨plainOrder, [keyOf 1], keysFit_of_length (by decide), rfl⟩
      · rw [List.mem_singleton.mp hop]
        exact .inr ⟨plainOrder, rfl⟩) hplay
  obtain ⟨d, left, run, hcheck⟩ := hrun
  exact ⟨d, left, run, of_decide_eq_true hcheck,
    (cleanups_recoverable (fun _ => Nat.le_refl _) rfl run).1⟩

/-! ## A journal that its reader refuses -/

/-- INTERNAL: the first journal of a cleanup on an empty directory. -/
theorem first_journal_reached (retain : List ChunkKey) (hlength : retain.length ≤ 8192) :
    ∃ left, CleanupReaches write (fun _ => True) ⟨[], none, none⟩
      ⟨[], none, some ⟨true, 0, 0, retain⟩⟩ left := by
  have hplay : ∃ p, playOp cleanupSystem.exec (List.replicate 5 none)
      (do let _ ← (do let _ ← cleanup write plainOrder retain : Cleaning Unit).run)
      ⟨[], none, none⟩ = some (p, ⟨[], none, some ⟨true, 0, 0, retain⟩⟩) := by
    unfold cleanup ensure
    rw [if_pos hlength]
    exact ⟨_, rfl⟩
  obtain ⟨p, hplay⟩ := hplay
  refine ⟨some p, cutRun_playOp (.call .start ⟨_, ?_, rfl⟩) hplay⟩
  exact .inl ⟨plainOrder, retain, trivial, rfl⟩

theorem keysText_replicate (n : Nat) :
    (Cleanup.keysText (List.replicate n (keyOf 255))).length = n * 129 + (n - 1) + 2 := by
  have hkey : (jsonArray ((keyOf 255).val.map fun b => decimal b.toNat)).length = 129 := by
    decide +kernel
  unfold Cleanup.keysText
  rw [jsonArray_length, List.map_replicate, List.map_replicate, hkey, List.sum_replicate,
    List.length_replicate]
  rfl

theorem refused_of_text (h : 1024 * 1024 < journal.text.length) :
    journal.accepted Cleanup.text = .error .integrityFailure := by
  unfold Cleanup.accepted ensure
  rw [if_neg (Nat.not_le_of_lt h)]
  rfl

/-- INTERNAL: a cleanup that retains 8192 keys writes a journal that no opening of the cache
accepts. -/
theorem full_journal_refused :
    ∃ d left, CleanupReaches Cleanup.text (fun _ => True) ⟨[], none, none⟩ d left ∧
      ∃ journal, d.journal = some journal ∧
        journal.accepted Cleanup.text = .error .integrityFailure := by
  have hkeys : ∃ retain : List ChunkKey, retain.length ≤ 8192 ∧
      (Cleanup.keysText retain).length = 8192 * 129 + (8192 - 1) + 2 :=
    ⟨List.replicate 8192 (keyOf 255), Nat.le_of_eq List.length_replicate, keysText_replicate 8192⟩
  obtain ⟨retain, hlength, htext⟩ := hkeys
  obtain ⟨left, run⟩ := first_journal_reached retain hlength
  refine ⟨_, left, run, _, rfl, refused_of_text ?_⟩
  rw [text_length, htext]
  omega

end Mirage.Analysis
