import Mirage.Computation.Effects
import Mirage.Model.SophonSource

/-!
# The disk cache of a Sophon source

`DiskCache` of `mirage-ffi/src/sophon/cache.rs` with the directory of its chunks.  A method leaves
the cache as it stands when it fails.  Calls of the operating system are counted: `faults` says
with what the call of a number fails, and `space` what `space_available` answers.  The
`ordinary_path` check of a path is a call of its own.
-/

set_option autoImplicit false

namespace Mirage.Model

open Mirage.Computation Mirage.Computation.Effect

/-- INTERNAL: SRCLINE: mirage-ffi/src/sophon/cache.rs:47-55 -/
structure SophonDisk extends DiskCache where
  tick : Nat
  allocationUnit : Nat

/-- INTERNAL: a cache, its directory and what the operating system will answer. -/
structure DiskState where
  files : List ChunkFile
  disk : SophonDisk
  faults : Nat → Option MirageStatus
  space : Nat → Nat → Bool
  calls : Nat

abbrev DiskM := Effect DiskState MirageStatus

namespace SophonDisk

/-! ## Calls -/

/-- INTERNAL: a call that may fail. -/
def ioCall : DiskM Unit := do
  let s ← state
  change fun s => { s with calls := s.calls + 1 }
  match s.faults s.calls with
  | none => pure ()
  | some status => throw status

/-- INTERNAL: SRCLINE: mirage-ffi/src/sophon/cache.rs:297-317 -/
def spaceAvailable (needed : Nat) : DiskM Bool := do
  let s ← state
  change fun s => { s with calls := s.calls + 1 }
  pure (s.space s.calls needed)

/-- INTERNAL: something that is no file has the name. -/
def blocked (files : List ChunkFile) (name : List UInt8) : Bool :=
  files.any fun file => file.name = name ∧ file.kind ≠ .file

def withoutFile (files : List ChunkFile) (name : List UInt8) : List ChunkFile :=
  files.filter fun file => file.name ≠ name

/-- INTERNAL: `remove_file`, for which a missing file is as good as removed. -/
def removeFile (name : List UInt8) : DiskM Unit := do
  ioCall
  let s ← state
  if blocked s.files name then throw .ioError
  else change fun s => { s with files := withoutFile s.files name }

/-- INTERNAL: `placement.tmp` -/
def placementName : List UInt8 := [112, 108, 97, 99, 101, 109, 101, 110, 116, 46, 116, 109, 112]

/-- INTERNAL: what the file system makes of a new file, and whether its allocation is read. -/
structure PlacedFile where
  modified : Option Nat
  allocated : Nat
  readable : Bool

/-- INTERNAL: `File::create` -/
def createTemp (placed : PlacedFile) : DiskM Unit := do
  ioCall
  let s ← state
  if blocked s.files placementName then throw .ioError
  else change fun s => { s with
    files := withoutFile s.files placementName ++
      [⟨placementName, .file, placed.modified, placed.allocated⟩] }

/-- INTERNAL: `rename` replaces a file of the name. -/
def renameTemp (placed : PlacedFile) (name : List UInt8) : DiskM Unit := do
  ioCall
  let s ← state
  if blocked s.files name then throw .ioError
  else change fun s => { s with
    files := withoutFile (withoutFile s.files placementName) name ++
      [⟨name, .file, placed.modified, placed.allocated⟩] }

/-- INTERNAL: SRCLINE: mirage-ffi/src/sophon/retention.rs:57-61 -/
def allocatedBytes (placed : PlacedFile) (name : List UInt8) : DiskM Nat := do
  let s ← state
  match s.files.find? fun file => file.name = name ∧ placed.readable with
  | none => throw .ioError
  | some file => pure file.allocated

/-! ## Removals -/

/-- INTERNAL: the entry of a removed file goes. -/
def forgetKey (disk : SophonDisk) (key : ChunkKey) : SophonDisk :=
  { disk with toDiskCache := disk.toDiskCache.forget key }

/-- INTERNAL: SRCLINE: mirage-ffi/src/sophon/cache.rs:157-171 -/
def remove (key : ChunkKey) : DiskM Unit := do
  ioCall
  removeFile (filename key)
  change fun s => { s with disk := s.disk.forgetKey key }

/-- INTERNAL: the loop, whose rounds remove an entry each.
SRCLINE: mirage-ffi/src/sophon/cache.rs:172-186 -/
def makeRoomRounds (hash : HashOrder) (needed : Nat) : Nat → DiskM Unit
  | 0 => throw .diskFull
  | rounds + 1 => do
    let s ← state
    if s.disk.used ≤ s.disk.budget - needed then pure ()
    else match s.disk.toDiskCache.oldest hash with
      | none => throw .diskFull
      | some key => do
        remove key
        makeRoomRounds hash needed rounds

def makeRoom (hash : HashOrder) (needed : Nat) : DiskM Unit := do
  let s ← state
  makeRoomRounds hash needed (s.disk.entries.size + 1)

/-! ## Methods -/

/-- INTERNAL: SRCLINE: mirage-ffi/src/sophon/cache.rs:122-126 -/
def estimatedSize (disk : SophonDisk) (bytes : Nat) : Nat :=
  min ((bytes + disk.allocationUnit - 1) / disk.allocationUnit * disk.allocationUnit) u64Max

/-- INTERNAL: SRCLINE: mirage-ffi/src/sophon/cache.rs:127-130 -/
def setBudget (hash : HashOrder) (budget : Nat) : DiskM Unit := do
  change fun s => { s with disk := { s.disk with budget := budget } }
  makeRoom hash 0

/-- INTERNAL: SRCLINE: mirage-ffi/src/sophon/cache.rs:131-133 -/
def pin (key : ChunkKey) : DiskM Unit :=
  change fun s => { s with disk := { s.disk with pinned := key :: s.disk.pinned } }

/-- INTERNAL: SRCLINE: mirage-ffi/src/sophon/cache.rs:141-156 -/
def clearExcept (hash : HashOrder) (retain : List ChunkKey) : DiskM Nat := do
  let before ← state
  ((hash.order before.disk.entries.keys).filter fun key => key ∉ retain).forM remove
  let after ← state
  pure (before.disk.used - after.disk.used)

/-- INTERNAL: the entry of a key that was read is the newest. -/
def touchEntry (disk : SophonDisk) (key : ChunkKey) : SophonDisk :=
  let tick := saturatingAdd disk.tick 1
  match disk.entries.get key with
  | none => { disk with tick := tick }
  | some (size, _) => { disk with tick := tick, entries := disk.entries.set key (size, tick) }

/-- INTERNAL: `content` is what reading the file gives.
SRCLINE: mirage-ffi/src/sophon/cache.rs:187-210 -/
def get (ext : SophonExternals) (key : ChunkKey) (chunk : SophonChunk)
    (content : Option (List UInt8)) : DiskM (Option (List UInt8)) := do
  let s ← state
  if s.disk.entries.get key = none then pure none
  else do
    ioCall
    match content.filter fun bytes => verified ext bytes chunk with
    | some bytes => do
      change fun s => { s with disk := s.disk.touchEntry key }
      pure (some bytes)
    | none => do
      remove key
      pure none

/-- INTERNAL: removals until there is space.
SRCLINE: mirage-ffi/src/sophon/cache.rs:232-237 -/
def reclaim (needed : Nat) : List ChunkKey → DiskM Unit
  | [] => pure ()
  | key :: rest => do
    remove key
    let enough ← spaceAvailable needed
    if enough then pure () else reclaim needed rest

/-- INTERNAL: the unpinned keys, those of small ticks first.
SRCLINE: mirage-ffi/src/sophon/cache.rs:225-231 -/
def reclaimable (disk : SophonDisk) : List ChunkKey :=
  ((disk.entries.entries.filter fun entry => entry.1 ∉ disk.pinned).insertionSort fun a b =>
    a.2.2 < b.2.2 ∨ a.2.2 = b.2.2 ∧ a.1.val ≤ b.1.val).map Prod.fst

/-- INTERNAL: SRCLINE: mirage-ffi/src/sophon/cache.rs:245-251 -/
def placeFile (placed : PlacedFile) (key : ChunkKey) : DiskM Unit := do
  createTemp placed
  ioCall
  renameTemp placed (filename key)

/-- INTERNAL: a placement that fails leaves no trace in the cache.
SRCLINE: mirage-ffi/src/sophon/cache.rs:243-262 -/
def place (placed : PlacedFile) (key : ChunkKey) : DiskM Unit := do
  ioCall
  let result ← attempt (placeFile placed key)
  match result with
  | .error _ => do
    let _ ← attempt (removeFile placementName)
    pure ()
  | .ok _ => do
    change fun s => { s with disk := { s.disk with tick := saturatingAdd s.disk.tick 1 } }
    let allocation ← allocatedBytes placed (filename key)
    change fun s => { s with disk := { s.disk with
      entries := s.disk.entries.set key (allocation, s.disk.tick)
      used := wrappingAdd s.disk.used allocation } }

/-- INTERNAL: entries without a pin go while there is no space.
SRCLINE: mirage-ffi/src/sophon/cache.rs:222-238 -/
def reclaimSpace (needed : Nat) : DiskM Unit := do
  let enough ← spaceAvailable needed
  if enough then pure ()
  else do
    let s ← state
    reclaim needed s.disk.reclaimable

/-- INTERNAL: the rest of `put` when the budget has room.
SRCLINE: mirage-ffi/src/sophon/cache.rs:222-262 -/
def placeWithSpace (placed : PlacedFile) (key : ChunkKey) (needed : Nat) : DiskM Unit := do
  reclaimSpace needed
  let enough ← spaceAvailable needed
  if enough then place placed key else pure ()

/-- INTERNAL: SRCLINE: mirage-ffi/src/sophon/cache.rs:210-262 -/
def put (hash : HashOrder) (placed : PlacedFile) (key : ChunkKey) (bytes : List UInt8)
    (floor : Nat) : DiskM Unit := do
  let s ← state
  let length := s.disk.estimatedSize bytes.length
  if s.disk.budget < length ∨ s.disk.entries.get key ≠ none then pure ()
  else do
    let room ← attempt (makeRoom hash length)
    match room with
    | .error .diskFull => pure ()
    | .error status => throw status
    | .ok _ => do
      let s ← state
      if s.disk.budget - length < s.disk.used then pure ()
      else placeWithSpace placed key (saturatingAdd floor length)

/-- INTERNAL: the checks of the directory and its files are calls; a link is refused.
SRCLINE: mirage-ffi/src/sophon/cache.rs:74-118 -/
def openCache (hash : HashOrder) (budget allocationUnit : Nat) : DiskM Unit := do
  ioCall
  let s ← state
  if s.files.any fun file => file.kind = .link then throw .accessDenied
  else match DiskCache.ofFiles budget s.files with
    | .error status => throw status
    | .ok disk => do
      ioCall
      change fun s => { s with disk := ⟨disk, disk.entries.size, allocationUnit⟩ }
      makeRoom hash 0

end SophonDisk

end Mirage.Model
