import Mirage.Computation.FallibleCalls
import Mirage.Computation.Texts
import Mirage.Model.RemoteCache

/-!
# Cleanup of Sophon chunks

The disk cache of a Sophon source is a directory of chunk files named after their keys.  A
cleanup removes every chunk that is not retained and keeps a journal of itself; opening the
cache finishes a journal that is pending.  File names are UTF-8 bytes, so that a name that is
no UTF-8 is a name as well.  The order in which a `HashMap` is walked and what `serde_json`
writes of a journal are parameters.
-/

set_option autoImplicit false

namespace Mirage.Model

open Mirage.Computation

/-! ## Keys and names -/

/-- INTERNAL: SRCLINE: mirage-ffi/src/sophon.rs:33 -/
abbrev ChunkKey := { bytes : List UInt8 // bytes.length = 32 }

instance chunkKeyLawful : LawfulBEq ChunkKey := Subtype.instLawfulBEq

def hexByte (n : UInt8) : UInt8 := if n < 10 then 48 + n else 87 + n

def chunkSuffix : List UInt8 := [46, 99, 104, 117, 110, 107]

/-- INTERNAL: SRCLINE: sophon/cache.rs:56-61 -/
def filename (key : ChunkKey) : List UInt8 :=
  key.val.flatMap (fun b => [hexByte (b / 16), hexByte (b % 16)]) ++ chunkSuffix

/-- INTERNAL: the value of a digit of either case. -/
def digitValue (c : UInt8) : Option UInt8 :=
  if 48 ≤ c ∧ c ≤ 57 then some (c - 48)
  else if 97 ≤ c ∧ c ≤ 102 then some (c - 87)
  else if 65 ≤ c ∧ c ≤ 70 then some (c - 55)
  else none

/-- INTERNAL: `u8::from_str_radix(_, 16)` of two characters; the first may be a plus sign. -/
def fromStrRadix (first second : UInt8) : Option UInt8 :=
  if first = 43 then digitValue second
  else do
    let high ← digitValue first
    let low ← digitValue second
    return 16 * high + low

def parsePairs : List UInt8 → Option (List UInt8)
  | [] => some []
  | [_] => none
  | first :: second :: rest => do
    let byte ← fromStrRadix first second
    let bytes ← parsePairs rest
    return byte :: bytes

def stripSuffix (name suffix : List UInt8) : Option (List UInt8) :=
  if suffix.isSuffixOf name then some (name.take (name.length - suffix.length)) else none

/-- INTERNAL: SRCLINE: sophon/cache.rs:62-72 -/
def parseKey (name : List UInt8) : Option ChunkKey := do
  let stem ← stripSuffix name chunkSuffix
  if stem.length ≠ 64 then none
  else do
    let bytes ← parsePairs stem
    if h : bytes.length = 32 then some ⟨bytes, h⟩ else none

/-! ## The journal -/

/-- INTERNAL: SRCLINE: sophon/retention.rs:120-126 -/
structure Cleanup where
  pending : Bool
  reclaimedBytes : Nat
  retainedBytes : Nat
  retain : List ChunkKey
  deriving DecidableEq

namespace Cleanup

def keysText (keys : List ChunkKey) : List Char :=
  jsonArray (keys.map fun key => jsonArray (key.val.map fun b => decimal b.toNat))

/-- INTERNAL: the compact JSON text. -/
def text (journal : Cleanup) : List Char :=
  jsonObject [
    ("pending", jsonBool journal.pending),
    ("reclaimed_bytes", decimal journal.reclaimedBytes),
    ("retained_bytes", decimal journal.retainedBytes),
    ("retain", keysText journal.retain)]

/-- INTERNAL: what the reader checks of a journal; `serde_json::from_slice` reads back what was
written.
SRCLINE: sophon/retention.rs:150-161 -/
def accepted (write : Cleanup → List Char) (journal : Cleanup) : Except MirageStatus Unit := do
  ensure ((write journal).length ≤ 1024 * 1024) .integrityFailure
  ensure (journal.retain.length ≤ 8192) .integrityFailure

end Cleanup

/-! ## Calls -/

inductive FileKind where
  | file
  | directory
  | link
  deriving DecidableEq, Repr

/-- INTERNAL: an item of the directory of chunks. -/
structure ChunkFile where
  name : List UInt8
  kind : FileKind
  modified : Option Nat
  allocated : Nat
  deriving DecidableEq, Repr

/-- INTERNAL: what a cleanup asks of the file system.  The `ordinary_path` checks of a path are
part of the call that uses it. -/
inductive CleanupAct where
  | lock
  | readDir
  | readJournal
  | removeFile (name : List UInt8)
  | writeTemp (journal : Cleanup)
  | renameTemp
  deriving DecidableEq

abbrev CleanupAct.Value : CleanupAct → Type
  | .readDir => List ChunkFile
  | .readJournal => Option Cleanup
  | _ => Unit

abbrev Cleaning := Calls CleanupAct CleanupAct.Value MirageStatus

def Cleaning.call (i : CleanupAct) : Cleaning i.Value := Calls.call i

/-- INTERNAL: the order in which the keys of a `HashMap` of chunks come. -/
abbrev HashOrder := MapOrder ChunkKey

/-- INTERNAL: the order of the table that stands for the map. -/
def plainOrder : HashOrder := ⟨id, fun _ => .refl _⟩

/-! ## The disk cache -/

/-- INTERNAL: a table from keys to the allocated size and the tick of their file.
SRCLINE: sophon/cache.rs:47-55 -/
structure DiskCache where
  entries : Table ChunkKey (Nat × Nat)
  budget : Nat
  used : Nat
  pinned : List ChunkKey

namespace DiskCache

/-- INTERNAL: the entry of a removed file goes. -/
def forget (disk : DiskCache) (key : ChunkKey) : DiskCache :=
  match disk.entries.get key with
  | none => disk
  | some (size, _) => { disk with entries := disk.entries.erase key, used := disk.used - size }

/-- INTERNAL: SRCLINE: sophon/cache.rs:157-171 -/
def remove (disk : DiskCache) (key : ChunkKey) : Cleaning (Except MirageStatus DiskCache) := do
  let removed ← Calls.attempt (.removeFile (filename key))
  match removed with
  | .ok _ => pure (.ok (disk.forget key))
  | .error e => pure (.error e)

/-- INTERNAL: the unpinned key with the smallest tick. -/
def oldest (hash : HashOrder) (disk : DiskCache) : Option ChunkKey :=
  firstMin ((hash.order disk.entries.keys).filterMap fun key =>
    if key ∈ disk.pinned then none else (disk.entries.get key).map fun entry => (key, entry.2))

/-- INTERNAL: the loop removes an entry in each round.
SRCLINE: sophon/cache.rs:172-186 -/
def makeRoom (hash : HashOrder) (needed : Nat) : Nat → DiskCache → Cleaning DiskCache
  | 0, disk => pure disk
  | rounds + 1, disk =>
    if disk.used ≤ disk.budget - needed then pure disk
    else match disk.oldest hash with
      | none => throw .diskFull
      | some key => do
        let removed ← disk.remove key
        match removed with
        | .ok disk => makeRoom hash needed rounds disk
        | .error e => throw e

/-- INTERNAL: a regular file with the name of a key is an entry. -/
def chunkOf (file : ChunkFile) : Option (Option Nat × ChunkKey × Nat) :=
  if file.kind = .file then
    (parseKey file.name).map fun key => (file.modified, key, file.allocated)
  else none

/-- INTERNAL: the stable order of `sort_by_key`; `None` comes before every time. -/
def notLater (a b : Option Nat × ChunkKey × Nat) : Bool :=
  match a.1, b.1 with
  | none, _ => true
  | some _, none => false
  | some m, some n => m ≤ n

def addFile (disk : DiskCache) (file : Option Nat × ChunkKey × Nat) :
    Except MirageStatus DiskCache := do
  let used ← someOr (checkedAdd disk.used file.2.2) .integrityFailure
  return { disk with
    entries := disk.entries.set file.2.1 (file.2.2, disk.entries.entries.length), used := used }

def ofFiles (budget : Nat) (files : List ChunkFile) : Except MirageStatus DiskCache :=
  ((files.filterMap chunkOf).insertionSort fun a b => notLater a b = true).foldlM addFile
    ⟨.empty, budget, 0, []⟩

/-- INTERNAL: SRCLINE: sophon/cache.rs:74-118 -/
def openDisk (hash : HashOrder) (budget : Nat) : Cleaning DiskCache := do
  let files ← Cleaning.call .readDir
  let disk ← Calls.compute (ofFiles budget files)
  makeRoom hash 0 (disk.entries.entries.length + 1) disk

/-- INTERNAL: keys are removed up to the first failure. -/
def removeAll : DiskCache → List ChunkKey → Cleaning (DiskCache × Except MirageStatus Unit)
  | disk, [] => pure (disk, .ok ())
  | disk, key :: rest => do
    let removed ← disk.remove key
    match removed with
    | .ok disk => removeAll disk rest
    | .error e => pure (disk, .error e)

/-- INTERNAL: SRCLINE: sophon/cache.rs:141-156 -/
def clearExcept (hash : HashOrder) (disk : DiskCache) (retain : List ChunkKey) :
    Cleaning (DiskCache × Except MirageStatus Unit) :=
  disk.removeAll ((hash.order disk.entries.keys).filter fun key => key ∉ retain)

end DiskCache

/-! ## Cleanups -/

/-- INTERNAL: SRCLINE: sophon/retention.rs:128-140 -/
def saveCleanup (journal : Cleanup) : Cleaning Unit := do
  Cleaning.call (.writeTemp journal)
  Cleaning.call .renameTemp

/-- INTERNAL: SRCLINE: sophon/retention.rs:142-173 -/
def recoverCleanup (write : Cleanup → List Char) (hash : HashOrder) (disk : DiskCache) :
    Cleaning DiskCache := do
  let file ← Cleaning.call .readJournal
  match file with
  | none => pure disk
  | some journal => do
    Calls.compute (journal.accepted write)
    if journal.pending = false then pure disk
    else do
      let (left, result) ← disk.clearExcept hash journal.retain
      saveCleanup { journal with
        pending := result.toOption.isNone
        reclaimedBytes := saturatingAdd journal.reclaimedBytes (disk.used - left.used)
        retainedBytes := left.used }
      Calls.compute (result.map fun _ => left)

/-- INTERNAL: SRCLINE: sophon/retention.rs:178-210 -/
def cleanup (write : Cleanup → List Char) (hash : HashOrder) (retain : List ChunkKey) :
    Cleaning Cleanup := do
  Calls.compute (ensure (retain.length ≤ 8192) .invalidArgument)
  Cleaning.call .lock
  let disk ← DiskCache.openDisk hash u64Max
  let disk ← recoverCleanup write hash disk
  saveCleanup ⟨true, 0, 0, retain⟩
  let (left, result) ← disk.clearExcept hash retain
  let journal := ⟨result.toOption.isNone, disk.used - left.used, left.used, retain⟩
  saveCleanup journal
  return journal

/-- INTERNAL: the part of `SophonSource::open` that opens its disk cache.
SRCLINE: mirage-ffi/src/sophon.rs:176-184, 298-299 -/
def reopen (write : Cleanup → List Char) (hash : HashOrder) : Cleaning DiskCache := do
  Cleaning.call .lock
  let disk ← DiskCache.openDisk hash u64Max
  recoverCleanup write hash disk

end Mirage.Model
