import Mathlib.Data.List.Sort
import Mirage.Model.Prelude

/-!
# The remote change log

`record_change` and `changes_after` of `mirage-db/src/remote_observation.rs`.  The changes of
one provider page share an opaque cursor, and the rows of `remote_change_entries` are ordered
by a sequence of the device.
-/

set_option autoImplicit false

namespace Mirage.Model

/-- INTERNAL: SRCLINE: remote_observation.rs:20-27 -/
structure RemoteChange where
  volumeId : RepositoryId
  cursor : String
  changeKind : String
  payload : List UInt8
  observedNs : Int
  deriving DecidableEq, Repr

/-- INTERNAL: a row of `remote_change_entries`.
SRCLINE: 0020_extent_heads.sql:30-39 -/
structure RemoteChangeEntry where
  entrySeq : Int
  change : RemoteChange
  deriving DecidableEq, Repr

/-- INTERNAL: the rows in the order of their insertion. -/
abbrev ChangeLog := List RemoteChangeEntry

namespace ChangeLog

variable (log : ChangeLog)

/-- INTERNAL: the rows of a volume. -/
def ofVolume (volumeId : RepositoryId) : ChangeLog :=
  log.filter fun row => row.change.volumeId = volumeId

/-- INTERNAL: `MAX(entry_seq)`. -/
def maxSeq : Option Int := (log.map RemoteChangeEntry.entrySeq).max?

/-- INTERNAL: `COALESCE(MAX(entry_seq) + 1, 1)` over the rows of a volume. -/
def nextSeq (volumeId : RepositoryId) : Int :=
  match (log.ofVolume volumeId).maxSeq with
  | some seq => seq + 1
  | none => 1

/-- INTERNAL: whether `UNIQUE (volume_id, cursor, change_kind, payload)` refuses the change. -/
def recorded (change : RemoteChange) : Bool :=
  log.any fun row => row.change.volumeId = change.volumeId ∧ row.change.cursor = change.cursor ∧
    row.change.changeKind = change.changeKind ∧ row.change.payload = change.payload

/-- INTERNAL: one `INSERT OR IGNORE`.  A sequence that no `INTEGER` column holds is refused.
SRCLINE: remote_observation.rs:96-125 -/
def recordChange (change : RemoteChange) : Except MirageError ChangeLog :=
  if i64Max < log.nextSeq change.volumeId then .error (.io "remote change record failed")
  else if log.recorded change then .ok log
  else .ok (log ++ [⟨log.nextSeq change.volumeId, change⟩])

/-- INTERNAL: the newest row under the cursor, 0 if there is none. -/
def newestUnder (volumeId : RepositoryId) (cursor : String) : Int :=
  (ChangeLog.maxSeq ((log.ofVolume volumeId).filter fun row => row.change.cursor = cursor)).getD 0

/-- INTERNAL: the changes behind the newest row under the cursor, by their sequence.
SRCLINE: remote_observation.rs:131-163 -/
def changesAfter (volumeId : RepositoryId) (cursor : String) : List RemoteChange :=
  (((log.ofVolume volumeId).filter fun row =>
      log.newestUnder volumeId cursor < row.entrySeq).insertionSort
    fun a b => a.entrySeq ≤ b.entrySeq).map RemoteChangeEntry.change

end ChangeLog

end Mirage.Model
