import Mirage.Analysis.CleanupJournal
import Mirage.Interface.DiskRun

/-!
# The books of the disk cache

A chunk file and its entry come and go together where the names of the files are those that the
cache gives: then the counter is the sum of both.
-/

set_option autoImplicit false

namespace Mirage.Analysis

open Mirage.Model Mirage.Interface Mirage.Computation Mirage.Computation.Effect
open Mirage.Model.SophonDisk

/-! ## Files and entries -/

section Files

variable {files : List ChunkFile} {disk : SophonDisk} {key : ChunkKey}

/-- INTERNAL: the key and the size that a file stands for. -/
def chunkEntry (file : ChunkFile) : Option (ChunkKey × Nat) :=
  if file.kind = .file then (parseKey file.name).map fun key => (key, file.allocated) else none

def chunkEntries (files : List ChunkFile) : List (ChunkKey × Nat) := files.filterMap chunkEntry

def diskEntries (disk : SophonDisk) : List (ChunkKey × Nat) :=
  disk.entries.entries.map fun entry => (entry.1, entry.2.1)

/-- INTERNAL: a directory has a name once, and chunk files have the names of the cache. -/
structure DirOk (files : List ChunkFile) : Prop where
  names : (files.map ChunkFile.name).Nodup
  canonical : CanonicalNames files

structure Bookkept (files : List ChunkFile) (disk : SophonDisk) : Prop where
  distinct : disk.entries.Distinct
  perm : (chunkEntries files).Perm (diskEntries disk)
  used : disk.used = ((diskEntries disk).map Prod.snd).sum
  budget : disk.budget ≤ u64Max

theorem chunkEntry_some {file : ChunkFile} {entry : ChunkKey × Nat} :
    chunkEntry file = some entry ↔
      file.kind = .file ∧ parseKey file.name = some entry.1 ∧ file.allocated = entry.2 := by
  unfold chunkEntry
  split_ifs with hkind
  · rw [Option.map_eq_some_iff]
    constructor
    · rintro ⟨key, hkey, rfl⟩
      exact ⟨hkind, hkey, rfl⟩
    · rintro ⟨-, hkey, hsize⟩
      exact ⟨entry.1, hkey, Prod.ext rfl hsize⟩
  · exact iff_of_false nofun fun h => hkind h.1

/-- INTERNAL: the sizes of the chunk files are those of the entries. -/
theorem sizes_chunkFiles (files : List ChunkFile) :
    (chunkFiles files).map ChunkFile.allocated = (chunkEntries files).map Prod.snd := by
  unfold chunkFiles chunkEntries
  induction files with
  | nil => rfl
  | cons file rest ih =>
    rw [List.filter_cons, List.filterMap_cons]
    cases hentry : chunkEntry file with
    | none =>
      have hother : ¬ (file.kind = .file ∧ (parseKey file.name).isSome) := by
        rintro ⟨hkind, hsome⟩
        obtain ⟨key, hkey⟩ := Option.isSome_iff_exists.mp hsome
        have hchunk : chunkEntry file = some (key, file.allocated) :=
          chunkEntry_some.mpr ⟨hkind, hkey, rfl⟩
        rw [hentry] at hchunk
        cases hchunk
      rw [if_neg (by simpa using hother), ih]
    | some entry =>
      obtain ⟨hkind, hkey, hsize⟩ := chunkEntry_some.mp hentry
      rw [if_pos (by simp [hkind, hkey]), List.map_cons, List.map_cons, ih, hsize]

theorem Bookkept.balanced (h : Bookkept files disk) : Balanced files disk where
  entries := by
    rw [h.used, diskEntries, List.map_map]
    rfl
  files := by
    rw [h.used, sizes_chunkFiles]
    exact (h.perm.map Prod.snd).sum_nat.symm

/-! ### Removals -/

theorem DirOk.without (h : DirOk files) (name : List UInt8) : DirOk (withoutFile files name) where
  names := h.names.sublist (List.filter_sublist.map _)
  canonical file hfile := h.canonical file (List.mem_of_mem_filter hfile)

theorem chunkEntries_without (h : DirOk files) (key : ChunkKey) :
    chunkEntries (withoutFile files (filename key)) =
      (chunkEntries files).filter fun entry => entry.1 ≠ key := by
  unfold chunkEntries withoutFile
  rw [List.filterMap_filter, List.filter_filterMap]
  refine List.filterMap_congr fun file hfile => ?_
  cases hentry : chunkEntry file with
  | none => simp
  | some entry =>
    obtain ⟨hkind, hkey, -⟩ := chunkEntry_some.mp hentry
    have hname := h.canonical file hfile hkind entry.1 hkey
    have hiff : file.name = filename key ↔ entry.1 = key := by
      rw [hname]
      exact ⟨filename_inj, fun heq => heq ▸ rfl⟩
    by_cases heq : entry.1 = key
    · simp [hiff, heq, Option.filter]
    · simp [hiff, heq, Option.filter]

theorem forgetKey_none (h : disk.entries.get key = none) : disk.forgetKey key = disk := by
  unfold forgetKey DiskCache.forget
  rw [h]

theorem forgetKey_some {size tick : Nat} (h : disk.entries.get key = some (size, tick)) :
    disk.forgetKey key =
      { disk with entries := disk.entries.erase key, used := disk.used - size } := by
  unfold forgetKey DiskCache.forget
  rw [h]

theorem forgetKey_pinned (disk : SophonDisk) (key : ChunkKey) :
    (disk.forgetKey key).pinned = disk.pinned := by
  cases hget : disk.entries.get key with
  | none => rw [forgetKey_none hget]
  | some entry => rw [forgetKey_some hget]

theorem get_forgetKey (disk : SophonDisk) (key other : ChunkKey) :
    (disk.forgetKey key).entries.get other =
      if other = key then none else disk.entries.get other := by
  cases hget : disk.entries.get key with
  | none =>
    rw [forgetKey_none hget]
    split_ifs with heq
    · rw [heq, hget]
    · rfl
  | some entry =>
    rw [forgetKey_some hget]
    exact Table.get_erase _ _ _

theorem diskEntries_forget (disk : SophonDisk) (key : ChunkKey) :
    diskEntries (disk.forgetKey key) =
      (diskEntries disk).filter fun entry => entry.1 ≠ key := by
  have herase : ∀ t : Table ChunkKey (Nat × Nat),
      (t.erase key).entries = t.entries.filter fun entry => entry.1 ≠ key := fun _ => rfl
  have hfilter : (diskEntries disk).filter (fun entry => entry.1 ≠ key) =
      (disk.entries.erase key).entries.map fun entry => (entry.1, entry.2.1) := by
    rw [herase, diskEntries, List.filter_map]
    rfl
  rw [hfilter]
  cases hget : disk.entries.get key with
  | none => rw [forgetKey_none hget, Table.erase_of_get_none hget, diskEntries]
  | some entry =>
    rw [forgetKey_some hget]
    rfl

/-- INTERNAL: a chunk file goes with its entry. -/
theorem Bookkept.forget (hdir : DirOk files) (h : Bookkept files disk) (key : ChunkKey) :
    Bookkept (withoutFile files (filename key)) (disk.forgetKey key) := by
  have hentries := diskEntries_forget disk key
  have hperm : (chunkEntries (withoutFile files (filename key))).Perm
      (diskEntries (disk.forgetKey key)) := by
    rw [hentries, chunkEntries_without hdir]
    exact h.perm.filter _
  cases hget : disk.entries.get key with
  | none =>
    rw [forgetKey_none hget] at hperm ⊢
    exact ⟨h.distinct, hperm, h.used, h.budget⟩
  | some entry =>
    obtain ⟨size, tick⟩ := entry
    rw [forgetKey_some hget] at hperm ⊢
    refine ⟨h.distinct.erase key, hperm, ?_, h.budget⟩
    have hsum := ((Table.perm_erase h.distinct hget).map fun entry => entry.2.1).sum_nat
    rw [List.map_cons, List.sum_cons] at hsum
    have hused := h.used
    unfold diskEntries at hused ⊢
    rw [List.map_map] at hused ⊢
    change disk.used = (disk.entries.entries.map fun entry => entry.2.1).sum at hused
    change disk.used - size = ((disk.entries.erase key).entries.map fun entry => entry.2.1).sum
    dsimp only at hsum
    omega

end Files

/-! ## Making room -/

section Room

variable {s : DiskState} {key : ChunkKey} {hash : HashOrder} {needed : Nat}

/-- INTERNAL: the directory and the cache of a state are in order. -/
structure InOrder (s : DiskState) : Prop where
  dir : DirOk s.files
  books : Bookkept s.files s.disk

/-- INTERNAL: only unpinned entries went. -/
structure Trimmed (disk disk' : SophonDisk) : Prop where
  budget : disk'.budget = disk.budget
  pins : disk'.pinned = disk.pinned
  unit : disk'.allocationUnit = disk.allocationUnit
  pinned : ∀ key ∈ disk.pinned, disk'.entries.get key = disk.entries.get key
  absent : ∀ key, disk.entries.get key = none → disk'.entries.get key = none
  used : disk'.used ≤ disk.used

theorem Trimmed.refl (disk : SophonDisk) : Trimmed disk disk :=
  ⟨rfl, rfl, rfl, fun _ _ => rfl, fun _ h => h, Nat.le_refl _⟩

variable {disk : SophonDisk} {E : MirageStatus → DiskState → Prop}

theorem Trimmed.trans {disk' disk'' : SophonDisk} (h : Trimmed disk disk')
    (h' : Trimmed disk' disk'') : Trimmed disk disk'' where
  budget := h'.budget.trans h.budget
  pins := h'.pins.trans h.pins
  unit := h'.unit.trans h.unit
  pinned key hkey := (h'.pinned key (h.pins ▸ hkey)).trans (h.pinned key hkey)
  absent key hkey := h'.absent key (h.absent key hkey)
  used := h'.used.trans h.used

theorem trimmed_forget (h : key ∉ disk.pinned) : Trimmed disk (disk.forgetKey key) := by
  refine ⟨?_, forgetKey_pinned disk key, rfl, fun other hother => ?_, fun other hother => ?_,
    forget_used⟩
  · cases hget : disk.entries.get key with
    | none => rw [forgetKey_none hget]
    | some entry => rw [forgetKey_some hget]
  · rw [get_forgetKey, if_neg fun heq : other = key => h (heq ▸ hother)]
  · rw [get_forgetKey, hother, ite_self]

theorem ends_ioCall {Q : Unit → DiskState → Prop} (hQ : Q () { s with calls := s.calls + 1 })
    (hE : ∀ status, E status { s with calls := s.calls + 1 }) : Ends ioCall Q E s := by
  unfold ioCall
  rw [ends_bind, ends_state, ends_bind, ends_change]
  cases s.faults s.calls with
  | none => exact hQ
  | some status => exact hE status

theorem ends_removeFile {name : List UInt8} {Q : Unit → DiskState → Prop}
    (hQ : Q () { s with calls := s.calls + 1, files := withoutFile s.files name })
    (hE : ∀ status, E status { s with calls := s.calls + 1 }) :
    Ends (SophonDisk.removeFile name) Q E s := by
  unfold SophonDisk.removeFile
  rw [ends_bind]
  refine ends_ioCall ?_ hE
  rw [ends_bind, ends_state]
  split_ifs
  · exact hE .ioError
  · exact hQ

/-- INTERNAL: a removal keeps the order, and changes nothing where it fails. -/
theorem ends_remove (h : InOrder s) :
    Ends (SophonDisk.remove key) (fun _ s' => InOrder s' ∧ s'.disk = s.disk.forgetKey key)
      (fun _ s' => InOrder s' ∧ s'.disk = s.disk) s := by
  unfold SophonDisk.remove
  rw [ends_bind]
  refine ends_ioCall ?_ fun _ => ⟨⟨h.dir, h.books⟩, rfl⟩
  rw [ends_bind]
  refine ends_removeFile ?_ fun _ => ⟨⟨h.dir, h.books⟩, rfl⟩
  rw [ends_change]
  exact ⟨⟨h.dir.without _, h.books.forget h.dir key⟩, rfl⟩

/-- INTERNAL: what goes first is an entry without a pin. -/
theorem oldest_some {disk : DiskCache} (h : disk.oldest hash = some key) :
    key ∉ disk.pinned ∧ ∃ entry, disk.entries.get key = some entry := by
  obtain ⟨n, hmem, -⟩ := firstMin_mem h
  obtain ⟨other, -, hother⟩ := List.mem_filterMap.mp hmem
  split_ifs at hother with hpin
  obtain ⟨entry, hentry, heq⟩ := Option.map_eq_some_iff.mp hother
  cases heq
  exact ⟨hpin, entry, hentry⟩

theorem ends_makeRoomRounds (h : InOrder s) (rounds : Nat) :
    Ends (makeRoomRounds hash needed rounds)
      (fun _ s' => InOrder s' ∧ Trimmed s.disk s'.disk ∧ s'.disk.used ≤ s'.disk.budget - needed)
      (fun _ s' => InOrder s' ∧ Trimmed s.disk s'.disk) s := by
  induction rounds generalizing s with
  | zero => exact ends_throw.mpr ⟨h, .refl _⟩
  | succ rounds ih =>
    rw [makeRoomRounds, ends_bind, ends_state]
    split_ifs with hroom
    · exact ends_pure.mpr ⟨h, .refl _, hroom⟩
    · cases holdest : s.disk.toDiskCache.oldest hash with
      | none => exact ends_throw.mpr ⟨h, .refl _⟩
      | some key =>
        rw [ends_bind]
        refine (ends_remove h).mono ?_ ?_
        · rintro _ s' ⟨horder, hdisk⟩
          have htrim : Trimmed s.disk s'.disk := by
            rw [hdisk]
            exact trimmed_forget (oldest_some holdest).1
          exact (ih horder).mono (fun _ _ hok => ⟨hok.1, htrim.trans hok.2.1, hok.2.2⟩)
            fun _ _ herror => ⟨herror.1, htrim.trans herror.2⟩
        · rintro _ s' ⟨horder, hdisk⟩
          exact ⟨horder, hdisk ▸ .refl _⟩

theorem ends_makeRoom (h : InOrder s) :
    Ends (makeRoom hash needed)
      (fun _ s' => InOrder s' ∧ Trimmed s.disk s'.disk ∧ s'.disk.used ≤ s'.disk.budget - needed)
      (fun _ s' => InOrder s' ∧ Trimmed s.disk s'.disk) s := by
  unfold makeRoom
  rw [ends_bind, ends_state]
  exact ends_makeRoomRounds h _

theorem ends_spaceAvailable {Q : Bool → DiskState → Prop}
    (hQ : ∀ enough, Q enough { s with calls := s.calls + 1 }) :
    Ends (spaceAvailable needed) Q E s :=
  hQ _

theorem ends_reclaim (h : InOrder s) {keys : List ChunkKey}
    (hkeys : ∀ key ∈ keys, key ∉ s.disk.pinned) :
    Ends (reclaim needed keys) (fun _ s' => InOrder s' ∧ Trimmed s.disk s'.disk)
      (fun _ s' => InOrder s' ∧ Trimmed s.disk s'.disk) s := by
  induction keys generalizing s with
  | nil => exact ends_pure.mpr ⟨h, .refl _⟩
  | cons key rest ih =>
    obtain ⟨hkey, hrest⟩ := List.forall_mem_cons.mp hkeys
    rw [reclaim, ends_bind]
    refine (ends_remove h).mono ?_ ?_
    · rintro _ s' ⟨horder, hdisk⟩
      have htrim : Trimmed s.disk s'.disk := by
        rw [hdisk]
        exact trimmed_forget hkey
      rw [ends_bind]
      refine ends_spaceAvailable fun enough => ?_
      cases enough with
      | true => exact ends_pure.mpr ⟨⟨horder.dir, horder.books⟩, htrim⟩
      | false =>
        have hloop := ih ⟨horder.dir, horder.books⟩ (s := { s' with calls := s'.calls + 1 })
          fun other hother => htrim.pins ▸ hrest other hother
        exact hloop.mono (fun _ _ hok => ⟨hok.1, htrim.trans hok.2⟩)
          fun _ _ herror => ⟨herror.1, htrim.trans herror.2⟩
    · rintro _ s' ⟨horder, hdisk⟩
      exact ⟨horder, hdisk ▸ .refl _⟩

theorem reclaimable_unpinned : ∀ key ∈ disk.reclaimable, key ∉ disk.pinned := by
  intro key hkey
  obtain ⟨entry, hentry, rfl⟩ := List.mem_map.mp hkey
  have hmem := (List.mem_insertionSort _).mp hentry
  exact of_decide_eq_true (List.mem_filter.mp hmem).2

end Room

/-! ## Placements -/

section Place

variable {s : DiskState} {key : ChunkKey} {placed : PlacedFile} {files : List ChunkFile}

theorem parseKey_placementName : parseKey placementName = none := by decide +kernel

/-- INTERNAL: a file that is no chunk does not count. -/
theorem chunkEntries_other {name : List UInt8} (hname : parseKey name = none) :
    chunkEntries (withoutFile files name) = chunkEntries files := by
  unfold chunkEntries withoutFile
  rw [List.filterMap_filter]
  refine List.filterMap_congr fun file _ => ?_
  by_cases heq : file.name = name
  · have hnone : chunkEntry file = none := by
      unfold chunkEntry
      rw [heq, hname]
      split_ifs <;> rfl
    simp [heq, hnone]
  · simp [heq]

theorem dirOk_append (h : DirOk files) {file : ChunkFile}
    (hnew : ∀ other ∈ files, other.name ≠ file.name)
    (hcanonical : ∀ key, parseKey file.name = some key → file.name = filename key) :
    DirOk (files ++ [file]) where
  names := by
    rw [List.map_append, List.map_singleton]
    refine List.nodup_append.mpr ⟨h.names, List.nodup_singleton _, fun a ha b hb heq => ?_⟩
    obtain ⟨other, hother, rfl⟩ := List.mem_map.mp ha
    exact hnew other hother (heq.trans (List.mem_singleton.mp hb))
  canonical := by
    intro other hother hkind
    rcases List.mem_append.mp hother with hold | hnew
    · exact h.canonical other hold hkind
    · rw [List.mem_singleton.mp hnew]
      exact hcanonical

theorem withoutFile_ne {name : List UInt8} :
    ∀ file ∈ withoutFile files name, file.name ≠ name := fun _ hfile =>
  of_decide_eq_true (List.mem_filter.mp hfile).2

/-- INTERNAL: the temporary file is no chunk. -/
theorem ends_createTemp (h : InOrder s) :
    Ends (createTemp placed) (fun _ s' => InOrder s' ∧ s'.disk = s.disk)
      (fun _ s' => InOrder s' ∧ s'.disk = s.disk) s := by
  have hkept : InOrder { s with calls := s.calls + 1 } := ⟨h.dir, h.books⟩
  unfold createTemp
  rw [ends_bind]
  refine ends_ioCall ?_ fun _ => ⟨hkept, rfl⟩
  rw [ends_bind, ends_state]
  split_ifs
  · exact ends_throw.mpr ⟨hkept, rfl⟩
  · rw [ends_change]
    have hentries : chunkEntries (withoutFile s.files placementName ++
        [⟨placementName, .file, placed.modified, placed.allocated⟩]) = chunkEntries s.files := by
      have hnone : chunkEntry ⟨placementName, .file, placed.modified, placed.allocated⟩ = none := by
        unfold chunkEntry
        rw [parseKey_placementName]
        rfl
      unfold chunkEntries
      rw [List.filterMap_append, List.filterMap_cons, hnone, List.filterMap_nil, List.append_nil]
      exact chunkEntries_other parseKey_placementName
    refine ⟨⟨dirOk_append (h.dir.without _) withoutFile_ne ?_, ?_⟩, rfl⟩
    · intro key hkey
      rw [parseKey_placementName] at hkey
      cases hkey
    · exact ⟨h.books.distinct, hentries ▸ h.books.perm, h.books.used, h.books.budget⟩

/-- INTERNAL: the file of a key that has no entry. -/
structure PlacedChunk (placed : PlacedFile) (key : ChunkKey) (disk : SophonDisk)
    (s : DiskState) : Prop where
  dir : DirOk s.files
  perm : (chunkEntries s.files).Perm ((key, placed.allocated) :: diskEntries disk)
  file : s.files.find? (fun file => file.name = filename key ∧ placed.readable) =
    if placed.readable then some ⟨filename key, .file, placed.modified, placed.allocated⟩ else none
  disk : s.disk = disk

theorem not_mem_diskEntries {disk : SophonDisk} (h : disk.entries.get key = none) :
    ∀ entry ∈ diskEntries disk, entry.1 ≠ key := by
  intro entry hentry heq
  obtain ⟨full, hfull, rfl⟩ := List.mem_map.mp hentry
  have hkey : key ∈ disk.entries.keys := List.mem_map.mpr ⟨full, hfull, heq⟩
  obtain ⟨value, hvalue⟩ := Table.mem_keys.mp hkey
  rw [h] at hvalue
  cases hvalue

theorem ends_renameTemp (h : InOrder s) (hkey : s.disk.entries.get key = none) :
    Ends (SophonDisk.renameTemp placed (filename key))
      (fun _ s' => PlacedChunk placed key s.disk s')
      (fun _ s' => InOrder s' ∧ s'.disk = s.disk) s := by
  have hkept : InOrder { s with calls := s.calls + 1 } := ⟨h.dir, h.books⟩
  unfold SophonDisk.renameTemp
  rw [ends_bind]
  refine ends_ioCall ?_ fun _ => ⟨hkept, rfl⟩
  rw [ends_bind, ends_state]
  split_ifs
  · exact ends_throw.mpr ⟨hkept, rfl⟩
  · rw [ends_change]
    have hdir := (h.dir.without placementName).without (filename key)
    have hchunk : chunkEntry ⟨filename key, .file, placed.modified, placed.allocated⟩ =
        some (key, placed.allocated) := chunkEntry_some.mpr ⟨rfl, parseKey_filename key, rfl⟩
    refine ⟨dirOk_append hdir withoutFile_ne ?_, ?_, ?_, rfl⟩
    · intro other hother
      exact congrArg filename (Option.some.inj ((parseKey_filename key).symm.trans hother))
    · have hold : chunkEntries (withoutFile (withoutFile s.files placementName) (filename key)) =
          (chunkEntries s.files).filter fun entry => entry.1 ≠ key := by
        rw [chunkEntries_without (h.dir.without _), chunkEntries_other parseKey_placementName]
      have hsame : ((diskEntries s.disk).filter fun entry => entry.1 ≠ key) =
          diskEntries s.disk := List.filter_eq_self.mpr fun entry hentry =>
        decide_eq_true (not_mem_diskEntries hkey entry hentry)
      unfold chunkEntries at hold ⊢
      rw [List.filterMap_append, hold, List.filterMap_cons, hchunk, List.filterMap_nil]
      refine List.perm_append_comm.trans (List.Perm.cons _ ?_)
      have hfiltered := h.books.perm.filter fun entry => decide (entry.1 ≠ key)
      rw [hsame] at hfiltered
      exact hfiltered
    · rw [List.find?_append, List.find?_eq_none.mpr, Option.none_or]
      · cases placed.readable <;> simp
      · intro file hfile
        simp [withoutFile_ne file hfile]

theorem books_place {disk : SophonDisk} (h : Bookkept files disk)
    (hchunk : PlacedChunk placed key disk s) (hkey : disk.entries.get key = none)
    (hfits : disk.used + placed.allocated ≤ disk.budget) (tick : Nat) :
    Bookkept s.files { disk with
      tick := tick
      entries := disk.entries.set key (placed.allocated, tick)
      used := wrappingAdd disk.used placed.allocated } := by
  have hentries : ((disk.entries.set key (placed.allocated, tick)).entries.map fun entry =>
      (entry.1, entry.2.1)) = (key, placed.allocated) :: diskEntries disk := by
    unfold Table.set
    rw [Table.erase_of_get_none hkey]
    rfl
  refine ⟨h.distinct.set key _, ?_, ?_, h.budget⟩
  · unfold diskEntries
    rw [hentries]
    exact hchunk.perm
  · unfold diskEntries
    dsimp only
    rw [hentries, List.map_cons, List.sum_cons, wrappingAdd_eq (hfits.trans h.budget), h.used]
    exact Nat.add_comm _ _

/-- INTERNAL: a placement is booked, or changes nothing. -/
theorem ends_place (h : InOrder s) (hkey : s.disk.entries.get key = none)
    (hreadable : placed.readable = true)
    (hfits : s.disk.used + placed.allocated ≤ s.disk.budget) :
    Ends (place placed key)
      (fun _ s' => InOrder s' ∧ KeepsPinnedChunks s.disk s'.disk ∧ s'.disk.used ≤ s'.disk.budget)
      (fun _ s' => InOrder s' ∧ KeepsPinnedChunks s.disk s'.disk) s := by
  have hpinned : ∀ {disk : SophonDisk}, disk = s.disk → KeepsPinnedChunks s.disk disk := by
    rintro _ rfl
    exact fun _ _ _ hentry => hentry
  have hwithin : s.disk.used ≤ s.disk.budget := (Nat.le_add_right _ _).trans hfits
  unfold place
  rw [ends_bind]
  refine ends_ioCall ?_ fun _ => ⟨⟨h.dir, h.books⟩, hpinned rfl⟩
  have horder : InOrder { s with calls := s.calls + 1 } := ⟨h.dir, h.books⟩
  rw [ends_bind, ends_attempt]
  have hplace : Ends (placeFile placed key) (fun _ s' => PlacedChunk placed key s.disk s')
      (fun _ s' => InOrder s' ∧ s'.disk = s.disk) { s with calls := s.calls + 1 } := by
    unfold placeFile
    rw [ends_bind]
    refine (ends_createTemp horder).mono ?_ fun _ _ herror => herror
    rintro _ s' ⟨horder', hdisk⟩
    rw [ends_bind]
    refine ends_ioCall ?_ fun _ => ⟨⟨horder'.dir, horder'.books⟩, hdisk⟩
    have hrename : Ends (SophonDisk.renameTemp placed (filename key))
        (fun _ s'' => PlacedChunk placed key s'.disk s'')
        (fun _ s'' => InOrder s'' ∧ s''.disk = s'.disk) { s' with calls := s'.calls + 1 } :=
      ends_renameTemp ⟨horder'.dir, horder'.books⟩ (hdisk ▸ hkey)
    exact hrename.mono (fun _ _ hok => hdisk ▸ hok) fun _ _ herror =>
      ⟨herror.1, herror.2.trans hdisk⟩
  refine hplace.mono ?_ ?_
  · -- the file is there, so its entry and its size are added
    rintro _ s' hchunk
    have hfile := hchunk.file
    rw [if_pos hreadable] at hfile
    rw [ends_bind, ends_change, ends_bind]
    unfold allocatedBytes
    rw [ends_bind, ends_state]
    dsimp only
    rw [hfile, ends_pure, ends_change]
    dsimp only
    rw [hchunk.disk]
    refine ⟨⟨hchunk.dir, books_place h.books hchunk hkey hfits _⟩, ?_, ?_⟩
    · intro other hother entry hentry
      have hne : other ≠ key := by
        rintro rfl
        rw [hkey] at hentry
        cases hentry
      exact (Table.get_set_ne hne).trans hentry
    · rw [wrappingAdd_eq (hfits.trans h.books.budget)]
      exact hfits
  · rintro _ s' ⟨horder', hdisk⟩
    rw [ends_bind, ends_attempt]
    refine ends_removeFile (ends_pure.mpr ?_) fun _ => ends_pure.mpr ?_
    · refine ⟨⟨horder'.dir.without _, ?_⟩, hpinned hdisk, hdisk ▸ hwithin⟩
      have hentries : chunkEntries (withoutFile s'.files placementName) = chunkEntries s'.files :=
        chunkEntries_other parseKey_placementName
      exact ⟨horder'.books.distinct, hentries ▸ horder'.books.perm, horder'.books.used,
        horder'.books.budget⟩
    · exact ⟨⟨horder'.dir, horder'.books⟩, hpinned hdisk, hdisk ▸ hwithin⟩

end Place

/-! ## Operations -/

section Operations

variable {s : DiskState} {key : ChunkKey} {placed : PlacedFile} {hash : HashOrder}
  {ext : SophonExternals}

theorem Trimmed.keepsPinned {disk disk' : SophonDisk} (h : Trimmed disk disk') :
    KeepsPinnedChunks disk disk' := fun key hkey _ hentry => (h.pinned key hkey).trans hentry

theorem keepsPinned_of_trimmed {disk disk' disk'' : SophonDisk} (h : Trimmed disk disk')
    (h' : KeepsPinnedChunks disk' disk'') : KeepsPinnedChunks disk disk'' :=
  fun key hkey entry hentry =>
    h' key (h.pins ▸ hkey) entry ((h.pinned key hkey).trans hentry)

variable {budget : Nat}

/-- INTERNAL: `set_budget` keeps pinned entries, and the budget holds where it succeeds. -/
theorem ends_setBudget (h : InOrder s) (hbudget : budget ≤ u64Max) :
    Ends (setBudget hash budget)
      (fun _ s' => InOrder s' ∧ KeepsPinnedChunks s.disk s'.disk ∧ s'.disk.used ≤ s'.disk.budget)
      (fun _ s' => InOrder s' ∧ KeepsPinnedChunks s.disk s'.disk) s := by
  unfold setBudget
  rw [ends_bind, ends_change]
  have horder : InOrder { s with disk := { s.disk with budget := budget } } :=
    ⟨h.dir, h.books.distinct, h.books.perm, h.books.used, hbudget⟩
  refine (ends_makeRoom horder).mono ?_ ?_
  · rintro _ s' ⟨horder', htrim, hroom⟩
    exact ⟨horder', htrim.keepsPinned, hroom⟩
  · rintro _ s' ⟨horder', htrim⟩
    exact ⟨horder', htrim.keepsPinned⟩

theorem ends_reclaimSpace (h : InOrder s) (needed : Nat) :
    Ends (reclaimSpace needed) (fun _ s' => InOrder s' ∧ Trimmed s.disk s'.disk)
      (fun _ s' => InOrder s' ∧ Trimmed s.disk s'.disk) s := by
  unfold reclaimSpace
  rw [ends_bind]
  refine ends_spaceAvailable fun enough => ?_
  split_ifs
  · exact ends_pure.mpr ⟨⟨h.dir, h.books⟩, .refl _⟩
  · have horder : InOrder { s with calls := s.calls + 1 } := ⟨h.dir, h.books⟩
    rw [ends_bind, ends_state]
    exact ends_reclaim horder reclaimable_unpinned

theorem ends_placeWithSpace (h : InOrder s) (needed : Nat) (hkey : s.disk.entries.get key = none)
    (hreadable : placed.readable = true)
    (hfits : s.disk.used + placed.allocated ≤ s.disk.budget) :
    Ends (placeWithSpace placed key needed)
      (fun _ s' => InOrder s' ∧ KeepsPinnedChunks s.disk s'.disk ∧ s'.disk.used ≤ s'.disk.budget)
      (fun _ s' => InOrder s' ∧ KeepsPinnedChunks s.disk s'.disk) s := by
  unfold placeWithSpace
  rw [ends_bind]
  refine (ends_reclaimSpace h needed).mono ?_ fun _ _ herror => ⟨herror.1, herror.2.keepsPinned⟩
  rintro _ s' ⟨horder, htrim⟩
  rw [ends_bind]
  refine ends_spaceAvailable fun enough => ?_
  have hfits' : s'.disk.used + placed.allocated ≤ s'.disk.budget := by
    rw [htrim.budget]
    exact (Nat.add_le_add_right htrim.used _).trans hfits
  split_ifs
  · have hplace : Ends (place placed key)
        (fun _ s'' => InOrder s'' ∧ KeepsPinnedChunks s'.disk s''.disk ∧
          s''.disk.used ≤ s''.disk.budget)
        (fun _ s'' => InOrder s'' ∧ KeepsPinnedChunks s'.disk s''.disk)
        { s' with calls := s'.calls + 1 } :=
      ends_place ⟨horder.dir, horder.books⟩ (htrim.absent key hkey) hreadable hfits'
    refine hplace.mono ?_ ?_
    · rintro _ s'' ⟨horder', hpinned, hwithin⟩
      exact ⟨horder', keepsPinned_of_trimmed htrim hpinned, hwithin⟩
    · rintro _ s'' ⟨horder', hpinned⟩
      exact ⟨horder', keepsPinned_of_trimmed htrim hpinned⟩
  · refine ends_pure.mpr ⟨⟨horder.dir, horder.books⟩, htrim.keepsPinned, ?_⟩
    exact (Nat.le_add_right _ _).trans hfits'

/-- INTERNAL: `put` in a cache within its budget. -/
theorem ends_put (h : InOrder s) (hwithin : s.disk.used ≤ s.disk.budget) {bytes : List UInt8}
    (hreadable : placed.readable = true)
    (hallocated : placed.allocated = s.disk.estimatedSize bytes.length) (floor : Nat) :
    Ends (put hash placed key bytes floor)
      (fun _ s' => InOrder s' ∧ KeepsPinnedChunks s.disk s'.disk ∧ s'.disk.used ≤ s'.disk.budget)
      (fun _ s' => InOrder s' ∧ KeepsPinnedChunks s.disk s'.disk) s := by
  have hunchanged : KeepsPinnedChunks s.disk s.disk := fun _ _ _ hentry => hentry
  unfold put
  rw [ends_bind, ends_state]
  dsimp only
  rw [← hallocated]
  split_ifs with hskip
  · exact ends_pure.mpr ⟨h, hunchanged, hwithin⟩
  · obtain ⟨hfits, hkey⟩ := not_or.mp hskip
    rw [ends_bind, ends_attempt]
    refine (ends_makeRoom h).mono ?_ ?_
    · rintro _ s' ⟨horder, htrim, hroom⟩
      rw [ends_bind, ends_state]
      have hbudget := htrim.budget
      split_ifs with hfull
      · exact absurd hroom (Nat.not_le_of_lt hfull)
      · have hfits' : s'.disk.used + placed.allocated ≤ s'.disk.budget := by omega
        refine (ends_placeWithSpace horder _ (htrim.absent key (not_not.mp hkey)) hreadable
          hfits').mono ?_ ?_
        · rintro _ s'' ⟨horder', hpinned, hwithin'⟩
          exact ⟨horder', keepsPinned_of_trimmed htrim hpinned, hwithin'⟩
        · rintro _ s'' ⟨horder', hpinned⟩
          exact ⟨horder', keepsPinned_of_trimmed htrim hpinned⟩
    · rintro status s' ⟨horder, htrim⟩
      have hstill : s'.disk.used ≤ s'.disk.budget := by
        rw [htrim.budget]
        exact htrim.used.trans hwithin
      split
      · exact ends_pure.mpr ⟨horder, htrim.keepsPinned, hstill⟩
      · exact ends_throw.mpr ⟨horder, htrim.keepsPinned⟩
      · rename_i heq
        cases heq

theorem ends_clearExcept (h : InOrder s) (retain : List ChunkKey) :
    Ends (SophonDisk.clearExcept hash retain) (fun _ s' => InOrder s') (fun _ s' => InOrder s')
      s := by
  unfold SophonDisk.clearExcept
  rw [ends_bind, ends_state, ends_bind]
  refine ends_forM (fun _ s' => InOrder s') h (fun key rest s' horder => ?_) fun s' horder => ?_
  · exact (ends_remove horder).mono (fun _ _ hok => hok.1) fun _ _ herror => herror.1
  · rw [ends_bind, ends_state]
    exact ends_pure.mpr horder

theorem books_touch (h : InOrder s) (key : ChunkKey) :
    InOrder { s with disk := s.disk.touchEntry key } := by
  unfold touchEntry
  cases hget : s.disk.entries.get key with
  | none => exact ⟨h.dir, h.books.distinct, h.books.perm, h.books.used, h.books.budget⟩
  | some entry =>
    obtain ⟨size, tick⟩ := entry
    have hentries := (Table.perm_erase h.books.distinct hget).map fun entry => (entry.1, entry.2.1)
    have hperm : (diskEntries s.disk).Perm (((s.disk.entries.set key
        (size, saturatingAdd s.disk.tick 1)).entries.map fun entry => (entry.1, entry.2.1))) :=
      hentries
    refine ⟨h.dir, h.books.distinct.set key _, h.books.perm.trans hperm, ?_, h.books.budget⟩
    exact h.books.used.trans (hperm.map Prod.snd).sum_nat

theorem ends_get (h : InOrder s) (chunk : SophonChunk) (content : Option (List UInt8)) :
    Ends (SophonDisk.get ext key chunk content) (fun _ s' => InOrder s') (fun _ s' => InOrder s')
      s := by
  unfold SophonDisk.get
  rw [ends_bind, ends_state]
  split_ifs
  · exact ends_pure.mpr h
  · rw [ends_bind]
    refine ends_ioCall ?_ fun _ => ⟨h.dir, h.books⟩
    have horder : InOrder { s with calls := s.calls + 1 } := ⟨h.dir, h.books⟩
    cases content.filter fun bytes => verified ext bytes chunk with
    | some bytes =>
      dsimp only
      rw [ends_bind, ends_change]
      exact ends_pure.mpr (books_touch horder key)
    | none =>
      dsimp only
      rw [ends_bind]
      exact (ends_remove horder).mono (fun _ _ hok => ends_pure.mpr hok.1)
        fun _ _ herror => herror.1

/-! ### Opening -/

/-- INTERNAL: files with different keys are added one after the other. -/
theorem addFiles_books {files : List (Option Nat × ChunkKey × Nat)} {disk left : DiskCache}
    (h : files.foldlM DiskCache.addFile disk = .ok left) (hd : disk.entries.Distinct)
    (hkeys : (files.map fun file => file.2.1).Nodup)
    (hnew : ∀ file ∈ files, disk.entries.get file.2.1 = none) :
    left.entries.Distinct ∧ left.budget = disk.budget ∧
      left.used = disk.used + (files.map fun file => file.2.2).sum ∧
      (left.entries.entries.map fun entry => (entry.1, entry.2.1)).Perm
        (files.map Prod.snd ++ disk.entries.entries.map fun entry => (entry.1, entry.2.1)) := by
  induction files generalizing disk with
  | nil =>
    obtain rfl := Except.ok.inj h
    exact ⟨hd, rfl, rfl, .refl _⟩
  | cons file rest ih =>
    rw [List.foldlM_cons] at h
    obtain ⟨next, hnext, hrest⟩ := except_bind_ok.mp h
    obtain ⟨used, hsum, hnext⟩ := someOr_bind_ok.mp hnext
    obtain rfl := Except.ok.inj hnext
    obtain ⟨rfl, -⟩ := checkedAdd_eq_some hsum
    obtain ⟨hfirst, hkeys'⟩ := List.nodup_cons.mp hkeys
    obtain ⟨hfile, hnew'⟩ := List.forall_mem_cons.mp hnew
    obtain ⟨hd', hbudget, hused, hperm⟩ := ih hrest (hd.set _ _) hkeys' fun other hother => by
      have hne : other.2.1 ≠ file.2.1 := fun heq =>
        hfirst (List.mem_map.mpr ⟨other, hother, heq⟩)
      exact (Table.get_set_ne hne).trans (hnew' other hother)
    refine ⟨hd', hbudget, ?_, hperm.trans ?_⟩
    · rw [hused, List.map_cons, List.sum_cons]
      exact Nat.add_assoc _ _ _
    · unfold Table.set
      rw [Table.erase_of_get_none hfile]
      exact List.perm_middle

theorem chunkEntry_eq (file : ChunkFile) :
    chunkEntry file = (DiskCache.chunkOf file).map Prod.snd := by
  unfold chunkEntry DiskCache.chunkOf
  split_ifs
  · rw [Option.map_map]
    rfl
  · rfl

theorem keys_nodup {files : List ChunkFile} (h : DirOk files) :
    ((files.filterMap DiskCache.chunkOf).map fun file => file.2.1).Nodup := by
  have hnames : files.Pairwise fun a b => a.name ≠ b.name := List.pairwise_map.mp h.names
  refine List.pairwise_map.mpr (List.Pairwise.filterMap _ ?_ (hnames.imp_of_mem
    (S := fun a b => a ∈ files ∧ b ∈ files ∧ a.name ≠ b.name)
    fun ha hb hne => ⟨ha, hb, hne⟩))
  rintro a b ⟨ha, hb, hne⟩ x hx y hy heq
  have hname : ∀ file ∈ files, ∀ entry, DiskCache.chunkOf file = some entry →
      file.name = filename entry.2.1 := by
    intro file hfile entry hentry
    have hchunk : chunkEntry file = some entry.2 := by
      rw [chunkEntry_eq, hentry]
      rfl
    obtain ⟨hkind, hkey, -⟩ := chunkEntry_some.mp hchunk
    exact h.canonical file hfile hkind _ hkey
  exact hne ((hname a ha x hx).trans (heq ▸ (hname b hb y hy).symm))

theorem books_ofFiles {files : List ChunkFile} {disk : DiskCache} (hdir : DirOk files)
    (hbudget : budget ≤ u64Max) (h : DiskCache.ofFiles budget files = .ok disk) (tick unit : Nat) :
    Bookkept files ⟨disk, tick, unit⟩ := by
  have hsorted := List.perm_insertionSort (fun a b => DiskCache.notLater a b = true)
    (files.filterMap DiskCache.chunkOf)
  obtain ⟨hd, hbudget', hused, hperm⟩ := addFiles_books h Table.distinct_empty
    ((hsorted.map _).nodup_iff.mpr (keys_nodup hdir)) fun _ _ => rfl
  have hentries : chunkEntries files =
      (files.filterMap DiskCache.chunkOf).map Prod.snd := by
    unfold chunkEntries
    rw [List.map_filterMap]
    exact List.filterMap_congr fun file _ => chunkEntry_eq file
  have hbooked : (diskEntries ⟨disk, tick, unit⟩).Perm
      ((files.filterMap DiskCache.chunkOf).map Prod.snd) := by
    refine hperm.trans ?_
    rw [show (Table.empty : Table ChunkKey (Nat × Nat)).entries = [] from rfl, List.map_nil,
      List.append_nil]
    exact hsorted.map Prod.snd
  refine ⟨hd, hentries ▸ hbooked.symm, ?_, hbudget'.trans_le hbudget⟩
  rw [(hbooked.map Prod.snd).sum_nat, List.map_map, hused,
    (hsorted.map fun file => file.2.2).sum_nat]
  exact Nat.zero_add _

theorem ends_openCache (hdir : DirOk s.files) (hbudget : budget ≤ u64Max) (unit : Nat) :
    Ends (openCache hash budget unit)
      (fun _ s' => InOrder s' ∧ s'.disk.used ≤ s'.disk.budget) (fun _ s' => DirOk s'.files) s := by
  unfold openCache
  rw [ends_bind]
  refine ends_ioCall ?_ fun _ => hdir
  rw [ends_bind, ends_state]
  split_ifs
  · exact ends_throw.mpr hdir
  · dsimp only
    cases hfiles : DiskCache.ofFiles budget s.files with
    | error status => exact ends_throw.mpr hdir
    | ok disk =>
      rw [ends_bind]
      refine ends_ioCall ?_ fun _ => hdir
      rw [ends_bind, ends_change]
      have horder : InOrder ⟨s.files, ⟨disk, disk.entries.size, unit⟩, s.faults, s.space,
          s.calls + 1 + 1⟩ := ⟨hdir, books_ofFiles hdir hbudget hfiles _ _⟩
      exact (ends_makeRoom horder).mono (fun _ _ hok => ⟨hok.1, hok.2.2⟩)
        fun _ _ herror => herror.1.dir

end Operations

/-! ## Runs -/

section Runs

variable {hash : HashOrder} {ext : SophonExternals} {answers : DiskAnswers} {op : DiskOp}
  {world : DiskWorld} {files : List ChunkFile}

structure WorldOk (world : DiskWorld) : Prop where
  dir : DirOk world.files
  books : ∀ disk ∈ world.disk, Bookkept world.files disk

/-- INTERNAL: what one operation keeps. -/
structure StepOk (world : DiskWorld) (op : DiskOp)
    (ended : Except MirageStatus Unit × DiskWorld) : Prop where
  next : WorldOk ended.2
  pinned : op.MakesRoom → ∀ disk ∈ world.disk, ∀ disk' ∈ ended.2.disk, KeepsPinnedChunks disk disk'
  within : op.EndsWithin → ended.1 = .ok () → ∀ disk' ∈ ended.2.disk, disk'.used ≤ disk'.budget

theorem stepOk_openCache (h : WorldOk world) (budget : UInt64) (unit : Nat) :
    StepOk world (.openCache budget unit)
      (world.step hash ext answers (.openCache budget unit)) := by
  have hbudget : budget.toNat ≤ u64Max := Nat.le_of_lt_succ budget.toNat_lt
  have hends : Ends (openCache hash budget.toNat unit)
      (fun _ s' => InOrder s' ∧ s'.disk.used ≤ s'.disk.budget) (fun _ s' => DirOk s'.files)
      ⟨world.files, ⟨⟨.empty, 0, 0, []⟩, 0, unit⟩, answers.faults, answers.space, 0⟩ :=
    ends_openCache h.dir hbudget unit
  unfold DiskWorld.step DiskOp.program
  dsimp only
  rcases hends.cases with ⟨_, hok, horder, hwithin⟩ | ⟨status, herror, hdir⟩
  · rw [hok]
    refine ⟨⟨horder.dir, fun disk hdisk => ?_⟩, fun h => h.elim, fun _ _ disk hdisk => ?_⟩
    · rw [← Option.some.inj hdisk]
      exact horder.books
    · rw [← Option.some.inj hdisk]
      exact hwithin
  · rw [herror]
    exact ⟨⟨hdir, nofun⟩, fun h => h.elim, fun _ => nofun⟩

/-- INTERNAL: how the program of an operation on an open cache ends. -/
def OpEnds (hash : HashOrder) (ext : SophonExternals) (op : DiskOp) (s : DiskState) : Prop :=
  Ends (op.program hash ext)
    (fun _ s' => InOrder s' ∧
      (op.MakesRoom → KeepsPinnedChunks s.disk s'.disk ∧ s'.disk.used ≤ s'.disk.budget))
    (fun _ s' => InOrder s' ∧ (op.MakesRoom → KeepsPinnedChunks s.disk s'.disk)) s

theorem opEnds {s : DiskState} (h : InOrder s) (hop : ∀ budget unit, op ≠ .openCache budget unit)
    (hestimated : ∀ placed key bytes floor, op = .put placed key bytes floor →
      placed.readable = true ∧ placed.allocated = s.disk.estimatedSize bytes.length)
    (hwithin : ∀ placed key bytes floor, op = .put placed key bytes floor →
      s.disk.used ≤ s.disk.budget) : OpEnds hash ext op s := by
  unfold OpEnds DiskOp.program
  cases op with
  | openCache budget unit => exact absurd rfl (hop budget unit)
  | pin key => exact ⟨⟨h.dir, h.books.distinct, h.books.perm, h.books.used, h.books.budget⟩, nofun⟩
  | get key chunk content =>
    dsimp only
    rw [ends_bind]
    exact (ends_get h chunk content).mono (fun _ _ hok => ends_pure.mpr ⟨hok, nofun⟩)
      fun _ _ herror => ⟨herror, nofun⟩
  | put placed key bytes floor =>
    obtain ⟨hreadable, hallocated⟩ := hestimated placed key bytes floor rfl
    exact (ends_put h (hwithin placed key bytes floor rfl) hreadable hallocated floor).mono
      (fun _ _ hok => ⟨hok.1, fun _ => hok.2⟩) fun _ _ herror => ⟨herror.1, fun _ => herror.2⟩
  | setBudget budget =>
    exact (ends_setBudget h (Nat.le_of_lt_succ budget.toNat_lt)).mono
      (fun _ _ hok => ⟨hok.1, fun _ => hok.2⟩) fun _ _ herror => ⟨herror.1, fun _ => herror.2⟩
  | clearExcept retain =>
    dsimp only
    rw [ends_bind]
    exact (ends_clearExcept h retain).mono (fun _ _ hok => ends_pure.mpr ⟨hok, nofun⟩)
      fun _ _ herror => ⟨herror, nofun⟩

theorem step_some {disk : SophonDisk} (hdisk : world.disk = some disk)
    (hop : ∀ budget unit, op ≠ .openCache budget unit) :
    world.step hash ext answers op =
      ((outcome (op.program hash ext) ⟨world.files, disk, answers.faults, answers.space, 0⟩).1,
        ⟨(outcome (op.program hash ext)
          ⟨world.files, disk, answers.faults, answers.space, 0⟩).2.files,
          some (outcome (op.program hash ext)
            ⟨world.files, disk, answers.faults, answers.space, 0⟩).2.disk⟩) := by
  unfold DiskWorld.step
  rw [hdisk]
  cases op with
  | openCache budget unit => exact absurd rfl (hop budget unit)
  | _ => rfl

theorem step_none (hdisk : world.disk = none) (hop : ∀ budget unit, op ≠ .openCache budget unit) :
    world.step hash ext answers op = (.error .invalidArgument, world) := by
  unfold DiskWorld.step
  rw [hdisk]
  cases op with
  | openCache budget unit => exact absurd rfl (hop budget unit)
  | _ => rfl

theorem stepOk_other (h : WorldOk world) (hop : ∀ budget unit, op ≠ .openCache budget unit)
    (hestimated : op.Estimated world) (hwithin : op.PutsWithin world) :
    StepOk world op (world.step hash ext answers op) := by
  have hroom : op.EndsWithin → op.MakesRoom := fun hends =>
    hends.resolve_right fun ⟨budget, unit, hopen⟩ => hop budget unit hopen
  cases hdisk : world.disk with
  | none =>
    rw [step_none hdisk hop]
    refine ⟨h, fun _ disk hmem => ?_, fun _ => nofun⟩
    rw [hdisk] at hmem
    cases hmem
  | some disk =>
    have hends : OpEnds hash ext op ⟨world.files, disk, answers.faults, answers.space, 0⟩ := by
      refine opEnds ⟨h.dir, h.books disk hdisk⟩ hop ?_ ?_
      · rintro placed key bytes floor rfl
        exact ⟨hestimated.1, hestimated.2 disk hdisk⟩
      · rintro placed key bytes floor rfl
        exact hwithin disk hdisk
    rw [step_some hdisk hop]
    rcases hends.cases with ⟨_, hok, horder, hkept⟩ | ⟨status, herror, horder, hkept⟩
    · refine ⟨⟨horder.dir, fun disk' hdisk' => ?_⟩, fun hmakes disk₀ hdisk₀ disk' hdisk' => ?_,
        fun hmakes _ disk' hdisk' => ?_⟩
      · rw [← Option.some.inj hdisk']
        exact horder.books
      · rw [← Option.some.inj hdisk', ← Option.some.inj (hdisk.symm.trans hdisk₀)]
        exact (hkept hmakes).1
      · rw [← Option.some.inj hdisk']
        exact (hkept (hroom hmakes)).2
    · refine ⟨⟨horder.dir, fun disk' hdisk' => ?_⟩, fun hmakes disk₀ hdisk₀ disk' hdisk' => ?_,
        fun _ hresult => ?_⟩
      · rw [← Option.some.inj hdisk']
        exact horder.books
      · rw [← Option.some.inj hdisk', ← Option.some.inj (hdisk.symm.trans hdisk₀)]
        exact hkept hmakes
      · rw [herror] at hresult
        cases hresult

theorem stepOk (h : WorldOk world) (hestimated : op.Estimated world)
    (hwithin : op.PutsWithin world) : StepOk world op (world.step hash ext answers op) := by
  by_cases hopen : ∃ budget unit, op = .openCache budget unit
  · obtain ⟨budget, unit, rfl⟩ := hopen
    exact stepOk_openCache h budget unit
  · exact stepOk_other h (fun budget unit heq => hopen ⟨budget, unit, heq⟩) hestimated hwithin

theorem worldOk_of_reaches (hnames : (files.map ChunkFile.name).Nodup)
    (hcanonical : CanonicalNames files) (h : DiskReaches ext files world) : WorldOk world := by
  induction h with
  | start => exact ⟨⟨hnames, hcanonical⟩, nofun⟩
  | step hash answers op _ hestimated hwithin ih => exact (stepOk ih hestimated hwithin).next

/-- INTERNAL: the books of every run from a directory whose chunk files have the names of the
cache; the next operation keeps the pinned chunks where it makes room, and ends within the budget.
SRCLINE: mirage-ffi/src/sophon/cache.rs:74-262 -/
theorem disk_books_balance (ext : SophonExternals) (files : List ChunkFile)
    (hnames : (files.map ChunkFile.name).Nodup) (hcanonical : CanonicalNames files)
    (world : DiskWorld) (h : DiskReaches ext files world) :
    (∀ disk ∈ world.disk, Balanced world.files disk) ∧
      ∀ hash answers (op : DiskOp), op.Estimated world → op.PutsWithin world →
        (op.MakesRoom → ∀ disk ∈ world.disk,
          ∀ disk' ∈ (world.step hash ext answers op).2.disk, KeepsPinnedChunks disk disk') ∧
        (op.EndsWithin → (world.step hash ext answers op).1 = .ok () →
          ∀ disk' ∈ (world.step hash ext answers op).2.disk, disk'.used ≤ disk'.budget) := by
  have hworld := worldOk_of_reaches hnames hcanonical h
  refine ⟨fun disk hdisk => (hworld.books disk hdisk).balanced, ?_⟩
  intro hash answers op hestimated hwithin
  have hstep : StepOk world op (world.step hash ext answers op) :=
    stepOk hworld hestimated hwithin
  exact ⟨hstep.pinned, hstep.within⟩

/-! ### One directory -/

/-- INTERNAL: an operating system that does not fail. -/
def quietAnswers : DiskAnswers := ⟨fun _ => none, fun _ _ => true⟩

def plainExternals : SophonExternals :=
  ⟨fun _ => [], fun _ => keyOf 0, id, fun _ => true, fun _ => none⟩

def oneChunk : List ChunkFile := [⟨filename (keyOf 15), .file, some 5, 5⟩]

/-- INTERNAL: a second chunk, used later than the first. -/
def olderAndNewer : List ChunkFile := oneChunk ++ [⟨filename (keyOf 16), .file, some 6, 4⟩]

/-- INTERNAL: the cache is open over them and the first is pinned. -/
def firstPinned : DiskWorld :=
  [.openCache 10 1, .pin (keyOf 15)].foldl (fun (world : DiskWorld) op =>
    (world.step plainOrder plainExternals quietAnswers op).2) ⟨olderAndNewer, none⟩

/-- INTERNAL: three bytes, for which a chunk has to go. -/
def placeThree : DiskOp := .put ⟨some 7, 3, true⟩ (keyOf 17) [7, 8, 9] 0

/-- INTERNAL: the `put` evicts the chunk that is not pinned, though the other one is older. -/
theorem pinned_chunk_outlasts_put :
    let after := firstPinned.step plainOrder plainExternals quietAnswers placeThree
    after.1 = .ok () ∧ ∃ disk disk', firstPinned.disk = some disk ∧ after.2.disk = some disk' ∧
      disk.entries.keys = [keyOf 16, keyOf 15] ∧ disk'.entries.keys = [keyOf 17, keyOf 15] ∧
        KeepsPinnedChunks disk disk' ∧ disk'.used ≤ disk'.budget ∧
          Balanced after.2.files disk' := by
  intro after
  have hcanonical : CanonicalNames olderAndNewer := by
    intro file hfile _ key hkey
    have hname : ∃ other, file.name = filename other := by
      rcases List.mem_cons.mp hfile with rfl | hfile
      · exact ⟨_, rfl⟩
      · exact ⟨_, congrArg ChunkFile.name (List.mem_singleton.mp hfile)⟩
    obtain ⟨other, hother⟩ := hname
    rw [hother, parseKey_filename] at hkey
    rw [hother, Option.some.inj hkey]
  have hnames : (olderAndNewer.map ChunkFile.name).Nodup := by decide +kernel
  have hpinned : DiskReaches plainExternals olderAndNewer firstPinned :=
    .step plainOrder quietAnswers (.pin (keyOf 15))
      (.step plainOrder quietAnswers (.openCache 10 1) .start trivial trivial) trivial trivial
  have hestimated : placeThree.Estimated firstPinned := by
    have hsize : ∀ disk ∈ firstPinned.disk, 3 = disk.estimatedSize 3 := by decide +kernel
    exact ⟨rfl, hsize⟩
  have hwithin : ∀ disk ∈ firstPinned.disk, disk.used ≤ disk.budget := by decide +kernel
  have hok : after.1 = .ok () := by decide +kernel
  have hkeys : firstPinned.disk.map (·.entries.keys) = some [keyOf 16, keyOf 15] := by
    decide +kernel
  have hkeys' : after.2.disk.map (·.entries.keys) = some [keyOf 17, keyOf 15] := by decide +kernel
  obtain ⟨disk, hdisk, hkeys⟩ := Option.map_eq_some_iff.mp hkeys
  obtain ⟨disk', hdisk', hkeys'⟩ := Option.map_eq_some_iff.mp hkeys'
  have hstep := (disk_books_balance plainExternals olderAndNewer hnames hcanonical firstPinned
    hpinned).2 plainOrder quietAnswers placeThree hestimated hwithin
  have hafter := (disk_books_balance plainExternals olderAndNewer hnames hcanonical after.2
    (.step plainOrder quietAnswers placeThree hpinned hestimated hwithin)).1
  exact ⟨hok, disk, disk', hdisk, hdisk', hkeys, hkeys', hstep.1 trivial disk hdisk disk' hdisk',
    hstep.2 (.inl trivial) hok disk' hdisk', hafter disk' hdisk'⟩

/-- INTERNAL: two names of one key, of which the second has a plus sign for a zero. -/
def twoNames : List ChunkFile :=
  [⟨filename (keyOf 15), .file, some 5, 1⟩, ⟨43 :: (filename (keyOf 15)).tail, .file, some 6, 2⟩]

/-- INTERNAL: the pinned chunk does not fit the new budget. -/
def overBudget : DiskWorld :=
  [.openCache 10 1, .pin (keyOf 15), .setBudget 3].foldl (fun (world : DiskWorld) op =>
    (world.step plainOrder plainExternals quietAnswers op).2) ⟨oneChunk, none⟩

/-- INTERNAL: two files of one key are counted twice, and a put succeeds above the budget. -/
theorem two_names_and_over_budget :
    (((⟨twoNames, none⟩ : DiskWorld).step plainOrder plainExternals quietAnswers
        (.openCache 10 1)).2.disk.map fun disk =>
          (disk.used, (disk.entries.entries.map fun entry => entry.2.1).sum)) = some (3, 2) ∧
      (overBudget.step plainOrder plainExternals quietAnswers
        (.put ⟨none, 1, true⟩ (keyOf 1) [7] 0)).1 = .ok () ∧
      ((overBudget.step plainOrder plainExternals quietAnswers
        (.put ⟨none, 1, true⟩ (keyOf 1) [7] 0)).2.disk.map fun disk =>
          (disk.used, disk.budget)) = some (5, 3) := by
  refine ⟨?_, ?_, ?_⟩ <;> decide +kernel

end Runs

end Mirage.Analysis
