import Mirage.Model.Extents

/-!
# Calls on the physical ledger

The functions of `mirage-db/src/physical.rs` that move extents between their states.  A call in
a transaction is rolled back when it fails; `mark_extent_dead` and `adjust_extent_pin` are a
single statement, which stays done when the check of its row count fails.
-/

set_option autoImplicit false

namespace Mirage.Model

open Mirage.Computation

/-- INTERNAL: what a call returns, and the tables it leaves. -/
abbrev LedgerResult := Except MirageError Unit × Db

/-- INTERNAL: a transaction of its own. -/
def atomically (t : Transaction Unit) (db : Db) : LedgerResult :=
  match t db with
  | .ok (_, db') => (.ok (), db')
  | .error e => (.error e, db)

/-- INTERNAL: an `UPDATE physical_extents`. -/
def Db.updateExtents (db : Db) (selected : PhysicalExtentRecord → Bool)
    (f : PhysicalExtentRecord → PhysicalExtentRecord) : Db :=
  { db with physicalExtents := db.physicalExtents.map fun e => if selected e then f e else e }

/-- INTERNAL: `DELETE FROM physical_reservations` of one extent. -/
def Db.dropReservation (db : Db) (extentId : BitVec 128) : Db :=
  { db with
    physicalReservations := db.physicalReservations.filter fun r => r.extentId ≠ extentId }

/-- INTERNAL: SRCLINE: physical.rs:149-162 -/
def reserveExtent (extent : PhysicalExtentRecord) (reservation : PhysicalReservationRecord) :
    Db → LedgerResult :=
  atomically (reserveExtentIn extent reservation)

/-- INTERNAL: SRCLINE: physical.rs:246-283 -/
def commitExtent (extentId : BitVec 128) (pageHash : PageHash) (checksum : BitVec 256)
    (nowNs : Int) : Db → LedgerResult :=
  atomically (commitPhysical ⟨extentId, pageHash, checksum⟩ nowNs)

/-- INTERNAL: why an extent is not released, by its state. -/
def notReleased : Option PhysicalExtentState → MirageError
  | some .alive =>
    .repositoryConflict "committed extent cannot be released through the reservation path"
  | some .reserved => .repositoryConflict "reserved extent is pinned"
  | some .dead => .repositoryConflict "extent is already dead"
  | some .evicting => .repositoryConflict "extent is not releasable"
  | none => .repositoryConflict "extent is missing"

/-- INTERNAL: the state of an extent. -/
def Db.extentState (db : Db) (extentId : BitVec 128) : Option PhysicalExtentState :=
  (db.physicalExtents.find? fun e => e.extentId = extentId).map PhysicalExtentRecord.state

/-- INTERNAL: SRCLINE: physical.rs:290-331 -/
def releaseExtentIn (extentId : BitVec 128) (nowNs : Int) : Transaction Unit := do
  let db ← get
  let selected : PhysicalExtentRecord → Bool := fun e =>
    e.extentId = extentId ∧ e.state = .reserved ∧ e.pinCount = 0
  modify fun db =>
    db.updateExtents selected fun e => { e with state := .dead, updatedNs := nowNs }
  Txn.demand (db.physicalExtents.countP selected = 1) (notReleased (db.extentState extentId))
  modify fun db => db.dropReservation extentId

def releaseExtent (extentId : BitVec 128) (nowNs : Int) : Db → LedgerResult :=
  atomically (releaseExtentIn extentId nowNs)

/-- INTERNAL: SRCLINE: physical.rs:335-353 -/
def markExtentDead (extentId : BitVec 128) (nowNs : Int) (db : Db) : LedgerResult :=
  let selected : PhysicalExtentRecord → Bool := fun e =>
    e.extentId = extentId ∧ e.state = .alive ∧ e.pinCount = 0
  let after := db.updateExtents selected fun e => { e with state := .dead, updatedNs := nowNs }
  if db.physicalExtents.countP selected = 1 then (.ok (), after)
  else (.error (.repositoryConflict "physical extent is pinned or not alive"), after)

/-- INTERNAL: the insert of a row that compaction reaped. -/
def insertAlive (row : PhysicalExtentRecord) : Transaction Unit := do
  let db ← get
  constraint
    ((db.physicalExtents.all fun e => e.extentId ≠ row.extentId ∧
        ¬ (e.fileId = row.fileId ∧ e.slotIndex = row.slotIndex)) ∧
      db.physicalFiles.contains row.fileId ∧ 0 ≤ row.slotIndex ∧ 0 < row.lengthBytes)
    "physical extent reinsert failed"
  modify fun db => { db with physicalExtents := db.physicalExtents ++ [row] }

/-- INTERNAL: the branch for an extent that is not dead. -/
def reviveMissing (row : PhysicalExtentRecord) : Option PhysicalExtentState → Transaction Unit
  | some .alive => pure ()
  | none => insertAlive row
  | some _ => throw (.repositoryConflict "physical extent is not revivable")

/-- INTERNAL: SRCLINE: physical.rs:361-428 -/
def reviveExtentIn (row : PhysicalExtentRecord) : Transaction Unit := do
  let db ← get
  let selected : PhysicalExtentRecord → Bool := fun e =>
    e.extentId = row.extentId ∧ e.state = .dead
  constraint (db.physicalExtents.countP selected = 0 ∨ 0 < row.lengthBytes)
    "physical extent revive failed"
  modify fun db => db.updateExtents selected fun e =>
    { e with
      state := .alive
      pageHash := row.pageHash
      checksum := row.checksum
      lengthBytes := row.lengthBytes
      updatedNs := row.updatedNs }
  Txn.onlyIf (db.physicalExtents.countP selected = 0)
    (reviveMissing row (db.extentState row.extentId))

def reviveExtent (extentId fileId : BitVec 128) (slotIndex lengthBytes : Int)
    (pageHash : PageHash) (checksum : BitVec 256) (nowNs : Int) : Db → LedgerResult :=
  atomically (reviveExtentIn ⟨extentId, fileId, slotIndex, lengthBytes, .alive, some pageHash,
    some checksum, 0, 0, nowNs⟩)

/-- INTERNAL: a sum that no `INTEGER` column holds makes the statement fail.
SRCLINE: physical.rs:431-449 -/
def adjustExtentPin (extentId : BitVec 128) (delta : Int) (db : Db) : LedgerResult :=
  let selected : PhysicalExtentRecord → Bool := fun e =>
    e.extentId = extentId ∧ e.state = .alive ∧ 0 ≤ e.pinCount + delta
  let after := db.updateExtents selected fun e => { e with pinCount := e.pinCount + delta }
  if db.physicalExtents.any fun e => selected e && decide (i64Max < e.pinCount + delta) then
    (.error (.io "physical extent pin update failed"), db)
  else if db.physicalExtents.countP selected = 1 then (.ok (), after)
  else (.error (.repositoryConflict "physical extent pin cannot be applied"), after)

/-- INTERNAL: one expired reservation. -/
def reapOne (nowNs : Int) (extentId : BitVec 128) : Transaction Unit := do
  modify fun db => db.updateExtents (fun e => e.extentId = extentId ∧ e.state = .reserved)
    fun e => { e with state := .dead, updatedNs := nowNs }
  modify fun db => db.dropReservation extentId

/-- INTERNAL: SRCLINE: physical.rs:453-487 -/
def reapExpiredReservationsIn (nowNs : Int) : Transaction Unit := do
  let db ← get
  ((db.physicalReservations.filter fun r => r.expiresNs ≤ nowNs).map
    PhysicalReservationRecord.extentId).forM (reapOne nowNs)

def reapExpiredReservations (nowNs : Int) : Db → LedgerResult :=
  atomically (reapExpiredReservationsIn nowNs)

end Mirage.Model
