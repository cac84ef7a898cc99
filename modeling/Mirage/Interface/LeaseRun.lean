import Mirage.Model.SpaceLease

/-!
# Interleavings of space-lease operations

Any number of operations run on one target volume.  Time passes and space is freed before
any call; the clock does not go back, the reserve does not change and the free space does not
shrink.  A call may fail, before or behind its effect.
-/

set_option autoImplicit false

namespace Mirage.Interface

open Mirage.Model Mirage.Computation

/-- INTERNAL: what the operations share. -/
structure LeaseShared where
  clock : Nat
  volume : List UInt8
  free : Nat
  reserve : Nat
  db : LeaseDb
  deriving DecidableEq, Repr

/-- INTERNAL: a failing call, without its effect or with it. -/
inductive LeaseFault where
  | before (error : MirageError)
  | behind (error : MirageError)
  deriving DecidableEq, Repr

/-- INTERNAL: what is not decided by the operation: the time that passes and the space that
is freed up to the call, whether it fails, and which candidates there are. -/
structure LeaseChoice where
  elapsed : Nat := 0
  freed : Nat := 0
  fault : Option LeaseFault := none
  candidates : List ReclaimCandidate := []

namespace LeaseShared

/-- INTERNAL: time passes and space is freed. -/
def tick (s : LeaseShared) (x : LeaseChoice) : LeaseShared :=
  { s with clock := s.clock + x.elapsed, free := s.free + x.freed }

/-- INTERNAL: a database write: the table it leaves, or the old one where it fails. -/
def write {α : Type} (s : LeaseShared) (result : Except MirageError (α × LeaseDb)) :
    Except MirageError α × LeaseShared :=
  match result with
  | .ok (a, db) => (.ok a, { s with db := db })
  | .error e => (.error e, s)

/-- INTERNAL: the effect of a call and its result.
SRCLINE: mirage-engine/src/space_lease.rs:11-17, mirage-engine/src/space_lease.rs:173-181 -/
def perform (s : LeaseShared) (candidates : List ReclaimCandidate) :
    (i : LeaseAct) → Except MirageError i.Value × LeaseShared
  | .now =>
    if (s.clock : Int) ≤ i64Max then (.ok (s.clock : Int), s)
    else (.error (.internalInvariant "system time exceeds i64 nanoseconds"), s)
  | .targetVolumeId => (.ok s.volume, s)
  | .physicalFreeBytes => (.ok s.free, s)
  | .filesystemReserveBytes => (.ok s.reserve, s)
  | .reclaimCandidates => (.ok candidates, s)
  | .reclaimVerifiedClean _ => (.ok (), s)
  | .activeBytes targetVolumeId atNs =>
    (s.db.activeSpaceLeaseBytesForVolume targetVolumeId atNs, s)
  | .create lease => s.write ((s.db.createSpaceLease lease).map fun db => ((), db))
  | .transition change => s.write (s.db.transitionSpaceLease change)
  | .load leaseId => (.ok (s.db.loadSpaceLease leaseId), s)

/-- INTERNAL: one call of a thread. -/
def exec (_ : Nat) (i : LeaseAct) (x : LeaseChoice) (s : LeaseShared) :
    Option (i.Out × LeaseShared) :=
  match x.fault with
  | none => some ((s.tick x).perform x.candidates i)
  | some (.before e) => some (.error e, s.tick x)
  | some (.behind e) => some (.error e, ((s.tick x).perform x.candidates i).2)

/-- INTERNAL: a lease of the volume that is ready and not expired. -/
def Ready (s : LeaseShared) (r : SpaceLeaseRecord) : Prop :=
  r.targetVolumeId = s.volume ∧ r.state = .ready ∧ (s.clock : Int) < r.expiresAtNs

instance (s : LeaseShared) : DecidablePred s.Ready := fun _ => inferInstanceAs (Decidable (_ ∧ _))

/-- INTERNAL: the bytes that ready leases promise. -/
def readyBytes (s : LeaseShared) : Nat :=
  ((s.db.spaceLeases.filter fun r => s.Ready r).map SpaceLeaseRecord.requestedBytes).sum

end LeaseShared

/-- INTERNAL: the operations a thread may run. -/
inductive LeaseOp where
  | prepare (request : SpaceLeaseRequest)
  | release (leaseId : BitVec 128)
  | consume (leaseId : BitVec 128)

/-- INTERNAL: the program of an operation; its result goes to the caller. -/
def LeaseOp.program : LeaseOp → Prog LeaseAct LeaseAct.Out Unit
  | .prepare request => do let _ ← (Leasing.prepareSpaceLease request).run
  | .release leaseId => do let _ ← (Leasing.releaseSpaceLease leaseId).run
  | .consume leaseId => do let _ ← (Leasing.consumeSpaceLease leaseId).run

/-- INTERNAL: no lease of the volume was prepared yet, and the key of the table holds. -/
structure LeaseStart (s : LeaseShared) : Prop where
  volume : ∀ r ∈ s.db.spaceLeases, r.targetVolumeId ≠ s.volume
  ids : s.db.spaceLeases.Pairwise fun a b => a.leaseId ≠ b.leaseId

/-- INTERNAL: the states that interleaved operations reach. -/
def LeaseReaches (s₀ : LeaseShared) (c : Pool LeaseShared LeaseAct LeaseAct.Out) : Prop :=
  Reaches LeaseShared.exec (fun _ _ _ _ => True) (fun p => ∃ op : LeaseOp, p = op.program) s₀ c

end Mirage.Interface
