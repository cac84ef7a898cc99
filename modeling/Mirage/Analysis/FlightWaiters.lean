import Mirage.Interface.FlightRun

/-!
# Attached handles keep a flight from being cancelled

What a thread relies on stands in `ThreadOk`: an `acquire` past its checks has an uncancelled
flight without a result.  The waiters are counted by the handles and by the one `acquire` that
holds the lock of the map.  A `maybe_cancel` that cancels a flight nobody waits for breaks nothing
that another thread relies on.
-/

set_option autoImplicit false

namespace Mirage.Analysis

open Mirage.Model Mirage.Interface

variable {s s' : FlightShared} {thread flight : Nat}

/-! ## The invariant -/

/-- INTERNAL: one if the thread has counted itself a waiter of the flight and has no handle
yet. -/
def countedBy (flight : Nat) : FlightThread → Nat
  | .joining .counted _ joined | .joining .required _ joined => if joined = flight then 1 else 0
  | _ => 0

/-- INTERNAL: only the thread with the lock of the map can be such a one. -/
def counted (s : FlightShared) (flight : Nat) : Nat :=
  match s.lock with
  | some thread => countedBy flight (s.threads thread)
  | none => 0

variable {place : FlightThread} {s₁ : FlightShared} {value : PageFlight} {result : FlightResult}
  {act : FlightAct}

section Joining

variable {request : FlightRequest}

end Joining

/-! ## New flights -/

end Mirage.Analysis
