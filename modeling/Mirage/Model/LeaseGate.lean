import Mirage.Model.Prelude

/-!
# The lease gate of a resident page

`mirage-cache/src/resident.rs`.  The gate is one `u64`: the state of the page in its upper half
and the number of read leases in its lower half.  Each definition here is one atomic access to
the word with the tests the code makes on what it read.
-/

set_option autoImplicit false

namespace Mirage.Model.LeaseGate

/-- INTERNAL: SRCLINE: resident.rs:11 -/
def resident : BitVec 64 := 2#64 <<< 32

/-- INTERNAL: SRCLINE: resident.rs:12 -/
def evicting : BitVec 64 := 3#64 <<< 32

/-- INTERNAL: SRCLINE: resident.rs:13 -/
def leaseMask : BitVec 64 := 0xFFFFFFFF#64

/-- INTERNAL: where the loop of `acquire` goes with the word it loaded. -/
inductive AcquireCheck where
  | unavailable
  | saturated (e : MirageError)
  | exchange
  deriving DecidableEq, Repr

/-- INTERNAL: SRCLINE: resident.rs:35-43 -/
def acquireCheck (current : BitVec 64) : AcquireCheck :=
  if current >>> 32 ≠ 2#64 then .unavailable
  else if current &&& leaseMask = leaseMask then
    .saturated (.cacheFull "resident page lease count is saturated")
  else .exchange

/-- INTERNAL: whether the word was exchanged, and the word behind it. -/
def compareExchange (gate current new : BitVec 64) : Bool × BitVec 64 :=
  if gate = current then (true, new) else (false, gate)

/-- INTERNAL: a weak exchange may also fail for no reason.
SRCLINE: resident.rs:44-47 -/
def acquireExchange (spurious : Bool) (gate current : BitVec 64) : Bool × BitVec 64 :=
  if spurious then (false, gate) else compareExchange gate current (current + 1)

/-- INTERNAL: `fetch_sub` wraps around.
SRCLINE: resident.rs:55-59 -/
def release (gate : BitVec 64) : BitVec 64 := gate - 1

/-- INTERNAL: the assertions of `release` on the word it found.
SRCLINE: resident.rs:57-58 -/
def ReleaseAsserts (previous : BitVec 64) : Prop :=
  previous >>> 32 = 2#64 ∧ previous &&& leaseMask ≠ 0

/-- INTERNAL: SRCLINE: resident.rs:69-78 -/
def beginEviction (gate : BitVec 64) : Except MirageError Unit × BitVec 64 :=
  let result := compareExchange gate resident evicting
  if result.1 then (.ok (), result.2)
  else (.error (.cacheFull "resident page has active read leases or is already evicting"),
    result.2)

/-- INTERNAL: the flag is what the code asserts.
SRCLINE: resident.rs:79-84 -/
def cancelEviction (gate : BitVec 64) : Bool × BitVec 64 :=
  compareExchange gate evicting resident

end Mirage.Model.LeaseGate
