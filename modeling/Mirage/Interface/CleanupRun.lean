import Mirage.Model.SophonDisk

/-!
# Runs of cleanups

The directory of a chunk cache.  Cleanups and openings of the cache follow one another, each cut
between any two calls; a call may fail before or behind its effect.  The rename that puts a
journal in place is atomic, and file names are compared as they are.  A temporary journal that
was not written to its end is never renamed, so what it holds is not kept.
-/

set_option autoImplicit false

namespace Mirage.Interface

open Mirage.Model Mirage.Computation

structure ChunkDir where
  chunks : List ChunkFile
  temp : Option Cleanup
  journal : Option Cleanup
  deriving DecidableEq

namespace ChunkDir

/-- INTERNAL: a link in the directory stops its reader. -/
def readDir (d : ChunkDir) : Except MirageStatus (List ChunkFile) :=
  if d.chunks.any (fun file => file.kind = .link) then .error .accessDenied else .ok d.chunks

/-- INTERNAL: a file that is not there counts as removed, and a directory is not removed. -/
def removeFile (d : ChunkDir) (name : List UInt8) : Except MirageStatus Unit × ChunkDir :=
  if d.chunks.any (fun file => file.name = name ∧ file.kind ≠ .file) then (.error .ioError, d)
  else (.ok (), { d with chunks := d.chunks.filter fun file => file.name ≠ name })

def renameTemp (d : ChunkDir) : Except MirageStatus Unit × ChunkDir :=
  match d.temp with
  | none => (.error .ioError, d)
  | some journal => (.ok (), { d with temp := none, journal := some journal })

def perform (_ : Option (CallFault MirageStatus)) (d : ChunkDir) :
    (i : CleanupAct) → Except MirageStatus i.Value × ChunkDir
  | .lock => (.ok (), d)
  | .readDir => (d.readDir, d)
  | .readJournal => (.ok d.journal, d)
  | .removeFile name => d.removeFile name
  | .writeTemp journal => (.ok (), { d with temp := some journal })
  | .renameTemp => d.renameTemp

end ChunkDir

/-- INTERNAL: the calls on a directory; each may fail with any status. -/
def cleanupSystem :
    CallSystem CleanupAct (Option (CallFault MirageStatus)) ChunkDir MirageStatus
      CleanupAct.Value :=
  ⟨ChunkDir.perform, fun x _ => x, fun _ => true⟩

/-- INTERNAL: the directories that runs lead to, where every cleanup is called with keys that
are `allowed`. -/
def CleanupReaches (write : Cleanup → List Char) (allowed : List ChunkKey → Prop)
    (d₀ d : ChunkDir) (left : Option (CallTree CleanupAct CleanupAct.Value MirageStatus Unit)) :
    Prop :=
  cleanupSystem.Reaches (fun y _ =>
    (∃ hash retain, allowed retain ∧ y = (do let _ ← cleanup write hash retain)) ∨
      ∃ hash, y = (do let _ ← reopen write hash)) d₀ d left

/-- INTERNAL: the text of the keys leaves the reader room for the rest of a journal. -/
def KeysFit (retain : List ChunkKey) : Prop :=
  (Cleanup.keysText retain).length + 104 ≤ 1024 * 1024

/-! ## What a run keeps -/

/-- INTERNAL: every chunk outside `retain` is gone. -/
def OnlyRetained (d : ChunkDir) (retain : List ChunkKey) : Prop :=
  ∀ file ∈ d.chunks, file.kind = .file → ∀ key, file.name = filename key → key ∈ retain

/-- INTERNAL: a journal on disk is accepted, and if it is not pending its chunks are gone. -/
structure JournalSound (write : Cleanup → List Char) (d : ChunkDir) : Prop where
  accepted : ∀ journal, d.journal = some journal → journal.accepted write = .ok ()
  finished : ∀ journal, d.journal = some journal → journal.pending = false →
    OnlyRetained d journal.retain

/-- INTERNAL: a step removes only chunks that the pending journal does not retain, and a pending
journal is only replaced by its continuation. -/
structure CleanupStep (d d' : ChunkDir) : Prop where
  removes : ∀ file ∈ d.chunks, file ∉ d'.chunks →
    ∃ key journal, file.kind = .file ∧ file.name = filename key ∧
      d.journal = some journal ∧ journal.pending = true ∧ key ∉ journal.retain
  replaces : ∀ journal, d.journal = some journal → journal.pending = true →
    ∃ journal', d'.journal = some journal' ∧ journal'.retain = journal.retain ∧
      journal.reclaimedBytes ≤ journal'.reclaimedBytes

end Mirage.Interface
