import Mirage.Model.LeaseGate

/-!
# Threads at the lease gate

Any number of threads call on one page.  Every access to the gate is one step, so that another
thread may come between the load and the exchange of `acquire`.  The live guards are counted
beside the word, from the exchange that obtains a guard to the subtraction that drops it; a
guard may be dropped by another thread than the one that obtained it.
-/

set_option autoImplicit false

namespace Mirage.Interface

open Mirage.Model Mirage.Model.LeaseGate

/-- INTERNAL: a thread outside `acquire`, before its load, or between load and exchange. -/
inductive AcquirePhase where
  | idle
  | loading
  | exchanging (current : BitVec 64)
  deriving DecidableEq, Repr

/-- INTERNAL: the gate with what every thread is at, which threads have begun an eviction they
did not cancel, and the live guards. -/
structure LeaseGateWorld where
  gate : BitVec 64
  phase : Nat → AcquirePhase
  begun : Nat → Bool
  guards : Nat

/-- INTERNAL: SRCLINE: resident.rs:22-28 -/
def LeaseGateWorld.new : LeaseGateWorld := ⟨resident, fun _ => .idle, fun _ => false, 0⟩

/-- INTERNAL: some thread has begun to evict the page and has not cancelled. -/
def LeaseGateWorld.Evicting (world : LeaseGateWorld) : Prop := ∃ t, world.begun t = true

/-- INTERNAL: what a step brings about. -/
inductive GateEvent where
  | enter
  | loaded
  | unavailable
  | saturated
  | retry
  | acquired
  | released
  | evictionBegun
  | evictionRefused
  | evictionCancelled
  deriving DecidableEq, Repr

/-- INTERNAL: one step of the thread `t`.  Only a thread that began an eviction cancels it, and
only a live guard is dropped. -/
inductive GateStep (t : Nat) (world : LeaseGateWorld) : GateEvent → LeaseGateWorld → Prop where
  | enter (idle : world.phase t = .idle) :
      GateStep t world .enter { world with phase := Function.update world.phase t .loading }
  | unavailable (loading : world.phase t = .loading)
      (check : acquireCheck world.gate = .unavailable) :
      GateStep t world .unavailable { world with phase := Function.update world.phase t .idle }
  | saturated {e : MirageError} (loading : world.phase t = .loading)
      (check : acquireCheck world.gate = .saturated e) :
      GateStep t world .saturated { world with phase := Function.update world.phase t .idle }
  | loaded (loading : world.phase t = .loading) (check : acquireCheck world.gate = .exchange) :
      GateStep t world .loaded
        { world with phase := Function.update world.phase t (.exchanging world.gate) }
  | retry {current gate : BitVec 64} {spurious : Bool}
      (exchanging : world.phase t = .exchanging current)
      (exchange : acquireExchange spurious world.gate current = (false, gate)) :
      GateStep t world .retry
        { world with gate := gate, phase := Function.update world.phase t .loading }
  | acquired {current gate : BitVec 64} {spurious : Bool}
      (exchanging : world.phase t = .exchanging current)
      (exchange : acquireExchange spurious world.gate current = (true, gate)) :
      GateStep t world .acquired
        { world with
          gate := gate
          phase := Function.update world.phase t .idle
          guards := world.guards + 1 }
  | released {guards : Nat} (idle : world.phase t = .idle) (live : world.guards = guards + 1) :
      GateStep t world .released { world with gate := release world.gate, guards := guards }
  | evictionBegun {gate : BitVec 64} (idle : world.phase t = .idle)
      (begins : beginEviction world.gate = (.ok (), gate)) :
      GateStep t world .evictionBegun
        { world with gate := gate, begun := Function.update world.begun t true }
  | evictionRefused {gate : BitVec 64} {e : MirageError} (idle : world.phase t = .idle)
      (begins : beginEviction world.gate = (.error e, gate)) :
      GateStep t world .evictionRefused { world with gate := gate }
  | evictionCancelled (idle : world.phase t = .idle) (began : world.begun t = true) :
      GateStep t world .evictionCancelled
        { world with
          gate := (cancelEviction world.gate).2
          begun := Function.update world.begun t false }

/-- INTERNAL: the worlds any interleaving leads to. -/
inductive GateReaches : LeaseGateWorld → Prop where
  | start : GateReaches .new
  | step {t : Nat} {world world' : LeaseGateWorld} {event : GateEvent}
      (run : GateReaches world) (step : GateStep t world event world') : GateReaches world'

end Mirage.Interface
