import Mirage.Model.SophonDisk

/-!
# Runs of the disk cache

A directory and the cache that is open over it.  A call may fail in any of the ways the operating
system can make it fail, and an open that fails leaves no cache.
-/

set_option autoImplicit false

namespace Mirage.Interface

open Mirage.Model Mirage.Computation

inductive DiskOp where
  | openCache (budget : UInt64) (allocationUnit : Nat)
  | pin (key : ChunkKey)
  | get (key : ChunkKey) (chunk : SophonChunk) (content : Option (List UInt8))
  | put (placed : SophonDisk.PlacedFile) (key : ChunkKey) (bytes : List UInt8) (floor : Nat)
  | setBudget (budget : UInt64)
  | clearExcept (retain : List ChunkKey)

/-- INTERNAL: the program of an operation. -/
def DiskOp.program (hash : HashOrder) (ext : SophonExternals) : DiskOp → DiskM Unit
  | .openCache budget unit => SophonDisk.openCache hash budget.toNat unit
  | .pin key => SophonDisk.pin key
  | .get key chunk content => do let _ ← SophonDisk.get ext key chunk content
  | .put placed key bytes floor => SophonDisk.put hash placed key bytes floor
  | .setBudget budget => SophonDisk.setBudget hash budget.toNat
  | .clearExcept retain => do let _ ← SophonDisk.clearExcept hash retain

/-- INTERNAL: what the operating system answers during one operation. -/
structure DiskAnswers where
  faults : Nat → Option MirageStatus
  space : Nat → Nat → Bool

structure DiskWorld where
  files : List ChunkFile
  disk : Option SophonDisk

/-- INTERNAL: one operation; only an open works without a cache. -/
def DiskWorld.step (hash : HashOrder) (ext : SophonExternals) (answers : DiskAnswers)
    (op : DiskOp) (world : DiskWorld) : Except MirageStatus Unit × DiskWorld :=
  match op, world.disk with
  | .openCache budget unit, _ =>
    let ended := Effect.outcome (DiskOp.program hash ext (.openCache budget unit))
      ⟨world.files, ⟨⟨.empty, 0, 0, []⟩, 0, unit⟩, answers.faults, answers.space, 0⟩
    (ended.1, ⟨ended.2.files, ended.1.toOption.map fun _ => ended.2.disk⟩)
  | _, none => (.error .invalidArgument, world)
  | op, some disk =>
    let ended := Effect.outcome (op.program hash ext)
      ⟨world.files, disk, answers.faults, answers.space, 0⟩
    (ended.1, ⟨ended.2.files, some ended.2.disk⟩)

/-- INTERNAL: a placed file is allocated as it was estimated. -/
def DiskOp.Estimated (world : DiskWorld) : DiskOp → Prop
  | .put placed _ bytes _ => placed.readable = true ∧ ∀ disk ∈ world.disk,
      placed.allocated = disk.estimatedSize bytes.length
  | _ => True

/-- INTERNAL: a `put` finds the cache within its budget. -/
def DiskOp.PutsWithin (world : DiskWorld) : DiskOp → Prop
  | .put _ _ _ _ => ∀ disk ∈ world.disk, disk.used ≤ disk.budget
  | _ => True

/-- INTERNAL: the worlds that runs lead to; every step walks the map in an order of its own. -/
inductive DiskReaches (ext : SophonExternals) (files : List ChunkFile) : DiskWorld → Prop where
  | start : DiskReaches ext files ⟨files, none⟩
  | step {world : DiskWorld} (hash : HashOrder) (answers : DiskAnswers) (op : DiskOp)
      (before : DiskReaches ext files world) (estimated : op.Estimated world)
      (within : op.PutsWithin world) : DiskReaches ext files (world.step hash ext answers op).2

/-- INTERNAL: the files that are chunks by their names. -/
def chunkFiles (files : List ChunkFile) : List ChunkFile :=
  files.filter fun file => file.kind = .file ∧ (parseKey file.name).isSome

/-- INTERNAL: the counter is the sum over the entries and the sum over the files. -/
structure Balanced (files : List ChunkFile) (disk : SophonDisk) : Prop where
  entries : disk.used = (disk.entries.entries.map fun entry => entry.2.1).sum
  files : disk.used = ((chunkFiles files).map ChunkFile.allocated).sum

/-- INTERNAL: the operations that make room in an open cache. -/
def DiskOp.MakesRoom : DiskOp → Prop
  | .put _ _ _ _ => True
  | .setBudget _ => True
  | _ => False

/-- INTERNAL: the operations after whose success the budget holds. -/
def DiskOp.EndsWithin (op : DiskOp) : Prop :=
  op.MakesRoom ∨ ∃ budget unit, op = .openCache budget unit

def KeepsPinnedChunks (disk disk' : SophonDisk) : Prop :=
  ∀ key ∈ disk.pinned, ∀ entry, disk.entries.get key = some entry →
    disk'.entries.get key = some entry

/-- INTERNAL: a file that is a chunk by its name has the name that the cache would give it. -/
def CanonicalNames (files : List ChunkFile) : Prop :=
  ∀ file ∈ files, file.kind = .file → ∀ key, parseKey file.name = some key →
    file.name = filename key

end Mirage.Interface
