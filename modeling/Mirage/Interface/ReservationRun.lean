import Mirage.Model.ReservationLedger

/-!
# Runs of the reservation ledger

A run starts at `ReservationLedger::new` and goes on with any calls in any order.  The
reservations that are active stand beside the counters: a call of `reserve` that succeeds adds
one, and `commit`, `release` and `drop` consume one.  Two reservations of the same bytes and
class cannot be told apart, so a reservation is named by its value.
-/

set_option autoImplicit false

namespace Mirage.Interface

open Mirage.Model Mirage.Computation

/-- INTERNAL: SRCLINE: reservation_ledger.rs:149-154 -/
structure BudgetReservation where
  bytes : Nat
  reservationClass : ReservationClass
  deriving DecidableEq, Repr

/-- INTERNAL: the counters with the reservations that are active. -/
structure ReservationWorld where
  state : ReservationState
  active : List BudgetReservation
  deriving DecidableEq, Repr

/-- INTERNAL: a call on the ledger or on a reservation; a drop is a `release`. -/
inductive ReservationCall where
  | reserve (bytes : Nat) (reservationClass : ReservationClass)
  | commit (reservation : BudgetReservation)
  | release (reservation : BudgetReservation)
  | setCommitted (bytes : Nat)
  deriving DecidableEq, Repr

/-- INTERNAL: only a reservation that is active can be committed or released. -/
def ReservationCall.Possible (world : ReservationWorld) : ReservationCall → Prop
  | .commit reservation | .release reservation => reservation ∈ world.active
  | .reserve _ _ | .setCommitted _ => True

namespace ReservationWorld

/-- INTERNAL: what a call that only changes the counters returns and leaves. -/
def settle (world : ReservationWorld) (active : List BudgetReservation) :
    Except MirageError ReservationState → Except MirageError Unit × ReservationWorld
  | .error e => (.error e, world)
  | .ok state => (.ok (), ⟨state, active⟩)

/-- INTERNAL: what a call returns and leaves; no result where a counter would go below zero. -/
def perform (config : BudgetConfig) (world : ReservationWorld) :
    ReservationCall → Option (Except MirageError Unit × ReservationWorld)
  | .reserve bytes reservationClass =>
    (world.state.reserve config bytes reservationClass).map
      (world.settle (⟨bytes, reservationClass⟩ :: world.active))
  | .commit reservation =>
    (world.state.commit reservation.bytes reservation.reservationClass).map fun result =>
      (result.1, ⟨result.2, world.active.erase reservation⟩)
  | .release reservation =>
    (world.state.releaseInner reservation.bytes reservation.reservationClass).map fun state =>
      (.ok (), ⟨state, world.active.erase reservation⟩)
  | .setCommitted bytes => some (world.settle world.active (world.state.setCommitted config bytes))

/-- INTERNAL: the bytes the cache may come to hold. -/
def envelope (world : ReservationWorld) : Nat := world.state.committed + world.state.reserved

end ReservationWorld

/-- INTERNAL: the worlds of a run, with the envelopes reached on the way. -/
inductive ReservationRun (config : BudgetConfig) : ReservationWorld → List Nat → Prop where
  | start {committedBytes : Nat} {state : ReservationState}
      (created : ReservationState.new config committedBytes = .ok state) :
      ReservationRun config ⟨state, []⟩ [state.committed + state.reserved]
  | call {world world' : ReservationWorld} {envelopes : List Nat} {call : ReservationCall}
      {outcome : Except MirageError Unit} (run : ReservationRun config world envelopes)
      (possible : call.Possible world)
      (performed : world.perform config call = some (outcome, world')) :
      ReservationRun config world' (world'.envelope :: envelopes)

/-- INTERNAL: the bytes of a list of reservations. -/
def reservedBytes (reservations : List BudgetReservation) : Nat :=
  (reservations.map BudgetReservation.bytes).sum

/-- INTERNAL: the bytes of those that count against the dirty reserve. -/
def dirtyBytes (reservations : List BudgetReservation) : Nat :=
  reservedBytes (reservations.filter fun r => r.reservationClass.isDirty)

/-- INTERNAL: the counters are the sums over the active reservations and within the budget, and
the peak is the largest envelope reached. -/
structure WithinBudget (config : BudgetConfig) (world : ReservationWorld)
    (envelopes : List Nat) : Prop where
  reserved : world.state.reserved = reservedBytes world.active
  dirtyReserved : world.state.dirtyReserved = dirtyBytes world.active
  dirtyFits : world.state.dirtyReserved ≤ config.dirtyUpdateBytes
  envelopeFits : world.envelope ≤ config.hardBytes
  peakReached : world.state.peak ∈ envelopes
  peakLargest : ∀ envelope ∈ envelopes, envelope ≤ world.state.peak

/-- INTERNAL: the envelope a reservation of the class may bring about. -/
def classCeiling (config : BudgetConfig) : ReservationClass → Nat
  | .prefetch => config.prefetchSoftBytes
  | .blocking | .capsule => config.hardBytes - config.updateSafetyReserve
  | .dirtyUpdate | .staging => config.hardBytes

/-- INTERNAL: the call has a result, a failure leaves the world as it was, and a reservation
that is granted keeps to the ceiling of its class. -/
def Settles (config : BudgetConfig) (world : ReservationWorld) (call : ReservationCall) : Prop :=
  ∃ outcome world', world.perform config call = some (outcome, world') ∧
    (∀ e, outcome = .error e → world' = world) ∧
    ∀ bytes reservationClass, call = .reserve bytes reservationClass → outcome = .ok () →
      world'.envelope ≤ classCeiling config reservationClass

end Mirage.Interface
