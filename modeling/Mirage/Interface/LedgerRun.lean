import Mirage.Model.PhysicalLedger

/-!
# Runs of the physical ledger

A run is any sequence of calls with any arguments on a database whose ledger is empty at
first.  `LedgerConsistent` is what holds in every state of a run, and `LedgerStep` what a call
does to the extents it finds.
-/

set_option autoImplicit false

namespace Mirage.Interface

open Mirage.Model Mirage.Computation

/-- INTERNAL: a call on the ledger. -/
inductive LedgerCall where
  | reserve (extent : PhysicalExtentRecord) (reservation : PhysicalReservationRecord)
  | commit (extentId : BitVec 128) (pageHash : PageHash) (checksum : BitVec 256) (nowNs : Int)
  | release (extentId : BitVec 128) (nowNs : Int)
  | markDead (extentId : BitVec 128) (nowNs : Int)
  | revive (extentId fileId : BitVec 128) (slotIndex lengthBytes : Int) (pageHash : PageHash)
      (checksum : BitVec 256) (nowNs : Int)
  | adjustPin (extentId : BitVec 128) (delta : Int)
  | reap (nowNs : Int)

/-- INTERNAL: what the call returns and leaves. -/
def LedgerCall.run : LedgerCall → Db → LedgerResult
  | .reserve extent reservation => reserveExtent extent reservation
  | .commit extentId pageHash checksum nowNs => commitExtent extentId pageHash checksum nowNs
  | .release extentId nowNs => releaseExtent extentId nowNs
  | .markDead extentId nowNs => markExtentDead extentId nowNs
  | .revive extentId fileId slotIndex lengthBytes pageHash checksum nowNs =>
    reviveExtent extentId fileId slotIndex lengthBytes pageHash checksum nowNs
  | .adjustPin extentId delta => adjustExtentPin extentId delta
  | .reap nowNs => reapExpiredReservations nowNs

/-- INTERNAL: the states of a run, whether its calls succeed or fail. -/
inductive LedgerReaches (db₀ : Db) : Db → Prop where
  | start : LedgerReaches db₀ db₀
  | call {db : Db} (run : LedgerReaches db₀ db) (call : LedgerCall) :
      LedgerReaches db₀ (call.run db).2

/-- INTERNAL: one row of the ledger, with the reservations there are. -/
structure ExtentConsistent (reservations : List PhysicalReservationRecord)
    (e : PhysicalExtentRecord) : Prop where
  reserved : (∃ r ∈ reservations, r.extentId = e.extentId) ↔ e.state = .reserved
  pins : 0 ≤ e.pinCount
  unpinned : e.state = .reserved ∨ e.state = .dead → e.pinCount = 0
  content : e.state = .alive → e.pageHash.isSome = true ∧ e.checksum.isSome = true

/-- INTERNAL: one row for each slot and each extent, every row consistent, and no reservation
without its extent. -/
structure LedgerConsistent (db : Db) : Prop where
  slots : (db.physicalExtents.map fun e => (e.fileId, e.slotIndex)).Nodup
  extents : (db.physicalExtents.map PhysicalExtentRecord.extentId).Nodup
  rows : ∀ e ∈ db.physicalExtents, ExtentConsistent db.physicalReservations e
  owners : ∀ r ∈ db.physicalReservations, ∃ e ∈ db.physicalExtents, e.extentId = r.extentId

/-- INTERNAL: a call that fails changes nothing, and no call makes a pinned extent dead. -/
structure LedgerStep (db : Db) (result : LedgerResult) : Prop where
  failed : ∀ e, result.1 = .error e → result.2 = db
  pinned : ∀ e ∈ db.physicalExtents, e.pinCount ≠ 0 →
    ∀ e' ∈ result.2.physicalExtents, e'.extentId = e.extentId → e'.state ≠ .dead

end Mirage.Interface
