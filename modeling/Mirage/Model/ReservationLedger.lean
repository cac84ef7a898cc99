import Mirage.Computation.Checks
import Mirage.Model.Prelude

/-!
# The reservation ledger

`mirage-cache/src/reservation_ledger.rs` and the budget of `mirage-cache/src/budget.rs`.  A call
holds the lock of the ledger from its first look at the counters to its last, so it is one
function of the state.  A `-=` on a counter is `subtract`, which has no result where the counter
would go below zero.
-/

set_option autoImplicit false

namespace Mirage.Model

open Mirage.Computation

/-- INTERNAL: SRCLINE: budget.rs:3-10 -/
inductive ReservationClass where
  | blocking
  | capsule
  | prefetch
  | dirtyUpdate
  | staging
  deriving DecidableEq, Repr

/-- INTERNAL: `DirtyUpdate` and `Staging` also count against the dirty reserve. -/
def ReservationClass.isDirty : ReservationClass → Bool
  | .dirtyUpdate | .staging => true
  | .blocking | .capsule | .prefetch => false

/-- INTERNAL: SRCLINE: budget.rs:12-18 -/
structure BudgetConfig where
  hardBytes : Nat
  prefetchSoftBytes : Nat
  updateSafetyReserve : Nat
  dirtyUpdateBytes : Nat
  deriving DecidableEq, Repr

/-- INTERNAL: SRCLINE: budget.rs:21-32 -/
def BudgetConfig.validate (config : BudgetConfig) : Except MirageError Unit :=
  ensure (¬ (config.hardBytes = 0 ∨ config.hardBytes < config.prefetchSoftBytes ∨
      config.hardBytes < config.updateSafetyReserve ∨
      config.updateSafetyReserve < config.dirtyUpdateBytes))
    (.invalidArgument "cache reservation budget is inconsistent")

/-- INTERNAL: SRCLINE: reservation_ledger.rs:15-21 -/
structure ReservationState where
  committed : Nat
  reserved : Nat
  dirtyReserved : Nat
  peak : Nat
  deriving DecidableEq, Repr

/-- INTERNAL: a subtraction that must not go below zero. -/
def subtract (value amount : Nat) : Option Nat :=
  if amount ≤ value then some (value - amount) else none

namespace ReservationState

/-- INTERNAL: SRCLINE: reservation_ledger.rs:35-53 -/
def new (config : BudgetConfig) (committedBytes : Nat) : Except MirageError ReservationState := do
  config.validate
  ensure (committedBytes ≤ config.hardBytes)
    (.cacheFull "committed cache exceeds hard budget")
  pure ⟨committedBytes, 0, 0, committedBytes⟩

/-- INTERNAL: the largest envelope a class may bring about.
SRCLINE: reservation_ledger.rs:75-83 -/
def classLimit (config : BudgetConfig) : ReservationClass → Option Nat
  | .prefetch => some config.prefetchSoftBytes
  | .dirtyUpdate | .staging => some config.hardBytes
  | .blocking | .capsule => subtract config.hardBytes config.updateSafetyReserve

/-- INTERNAL: the dirty counter behind a reservation.
SRCLINE: reservation_ledger.rs:89-104 -/
def dirtyAfter (config : BudgetConfig) (state : ReservationState) (bytes : Nat)
    (reservationClass : ReservationClass) : Except MirageError Nat :=
  if reservationClass.isDirty then do
    let value ← someOr (checkedAdd state.dirtyReserved bytes)
      (.invalidArgument "dirty reservation count overflows")
    ensure (value ≤ config.dirtyUpdateBytes)
      (.cacheFull "dirty update reservation exceeds its reserve")
    pure value
  else .ok state.dirtyReserved

/-- INTERNAL: the reserved bytes and the envelope behind a reservation.
SRCLINE: reservation_ledger.rs:59-74 -/
def envelopeAfter (state : ReservationState) (bytes : Nat) : Except MirageError (Nat × Nat) := do
  ensure (bytes ≠ 0) (.invalidArgument "zero-byte cache reservation")
  let nextReserved ← someOr (checkedAdd state.reserved bytes)
    (.invalidArgument "reserved byte count overflows")
  let envelope ← someOr (checkedAdd state.committed nextReserved)
    (.invalidArgument "cache envelope overflows")
  pure (nextReserved, envelope)

/-- INTERNAL: SRCLINE: reservation_ledger.rs:54-115 -/
def reserve (config : BudgetConfig) (state : ReservationState) (bytes : Nat)
    (reservationClass : ReservationClass) : Option (Except MirageError ReservationState) :=
  match envelopeAfter state bytes with
  | .error e => some (.error e)
  | .ok (nextReserved, envelope) => (classLimit config reservationClass).map fun limit => do
    ensure (envelope ≤ limit) (.cacheFull "cache reservation exceeds class budget")
    let dirtyReserved ← dirtyAfter config state bytes reservationClass
    pure
      { state with
        reserved := nextReserved
        dirtyReserved := dirtyReserved
        peak := max state.peak envelope }

/-- INTERNAL: SRCLINE: reservation_ledger.rs:116-133 -/
def setCommitted (config : BudgetConfig) (state : ReservationState) (bytes : Nat) :
    Except MirageError ReservationState := do
  ensure ((checkedAdd bytes state.reserved).any fun total => total ≤ config.hardBytes)
    (.cacheFull "committed cache update exceeds hard envelope")
  pure { state with committed := bytes, peak := max state.peak (bytes + state.reserved) }

/-- INTERNAL: the bytes of a reservation leave the counters of reserved bytes.
SRCLINE: reservation_ledger.rs:177-183, reservation_ledger.rs:193-199 -/
def takeOut (state : ReservationState) (bytes : Nat) (reservationClass : ReservationClass) :
    Option ReservationState := do
  let reserved ← subtract state.reserved bytes
  let dirtyReserved ←
    if reservationClass.isDirty then subtract state.dirtyReserved bytes
    else some state.dirtyReserved
  pure { state with reserved := reserved, dirtyReserved := dirtyReserved }

/-- INTERNAL: the release of a reservation that is active.
SRCLINE: reservation_ledger.rs:188-202 -/
def releaseInner (state : ReservationState) (bytes : Nat) (reservationClass : ReservationClass) :
    Option ReservationState :=
  takeOut state bytes reservationClass

/-- INTERNAL: where the sum overflows the reservation is dropped, and with it released.
SRCLINE: reservation_ledger.rs:167-187, reservation_ledger.rs:204-208 -/
def commit (state : ReservationState) (bytes : Nat) (reservationClass : ReservationClass) :
    Option (Except MirageError Unit × ReservationState) :=
  match checkedAdd state.committed bytes with
  | none => (releaseInner state bytes reservationClass).map fun released =>
    (.error (.invalidArgument "committed cache bytes overflow"), released)
  | some committed => (takeOut state bytes reservationClass).map fun taken =>
    (.ok (), { taken with committed := committed })

end ReservationState

end Mirage.Model
