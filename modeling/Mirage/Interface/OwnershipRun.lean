import Mathlib.Data.List.Chain
import Mirage.Model.VolumeOwner

/-!
# Ownership terms of a volume

Processes acquire the volume one after the other, since a process holds the lock of the
operating system for as long as it has the coordinator.  A term is clean once a `quiesce` or
`release` of it returned `Ok`.  A process can die at any point: between calls, or inside a
call of which some reads and writes were made and whose result nobody sees.
-/

set_option autoImplicit false

namespace Mirage.Interface

open Mirage.Model

/-- INTERNAL: a term, and whether a `quiesce` or `release` of it succeeded. -/
structure Term where
  epoch : Nat
  started : VolumeState
  clean : Bool
  deriving DecidableEq, Repr

/-- INTERNAL: the record, the coordinator of the living owner, and the terms, newest first. -/
structure OwnershipState where
  stored : Option OwnerRecord
  owner : Option VolumeCoordinator
  terms : List Term
  deriving DecidableEq, Repr

/-- INTERNAL: the calls on a coordinator that keep it. -/
inductive TermCall where
  | transition (next : VolumeState) (fault : RecordFault)
  | quiesce (first : RecordFault) (drain : VolumeCoordinator.Drain) (last : RecordFault)
  deriving DecidableEq, Repr

inductive OwnershipAct where
  | acquire (fault : RecordFault)
  | call (call : TermCall)
  | release (fault dropFault : RecordFault)
  | drop (fault : RecordFault)
  | die
  | dieInCall (call : TermCall)
  | dieInRelease (fault dropFault : RecordFault)
  | dieInDrop (fault : RecordFault)
  deriving DecidableEq, Repr

namespace TermCall

def run (c : VolumeCoordinator) (stored : Option OwnerRecord) :
    TermCall → Except MirageError Unit × VolumeCoordinator × Option OwnerRecord
  | .transition next fault => c.transition next stored fault
  | .quiesce first drain last => c.quiesce stored first drain last

/-- INTERNAL: whether the call, having returned `Ok`, ends its term cleanly. -/
def ends : TermCall → Bool
  | .transition _ _ => false
  | .quiesce _ _ _ => true

end TermCall

namespace OwnershipState

def start : OwnershipState := ⟨none, none, []⟩

/-- INTERNAL: the newest term ended cleanly, if `clean` holds. -/
def note (s : OwnershipState) (clean : Bool) : OwnershipState :=
  match s.terms with
  | [] => s
  | term :: terms => { s with terms := { term with clean := term.clean || clean } :: terms }

def step (repository : RepositoryId) (s : OwnershipState) : OwnershipAct → Option OwnershipState
  | .acquire fault =>
    match s.owner with
    | some _ => none
    | none =>
      match VolumeCoordinator.acquire s.stored repository fault with
      | (.ok c, stored) => some ⟨stored, some c, ⟨c.epoch, c.state, false⟩ :: s.terms⟩
      | (.error _, stored) => some { s with stored := stored }
  | .call call => s.owner.map fun c =>
    match call.run c s.stored with
    | (result, c, stored) =>
      { s with stored := stored, owner := some c }.note (call.ends && result.toBool)
  | .release fault dropFault => s.owner.map fun c =>
    match c.release s.stored fault dropFault with
    | (result, stored) => { s with stored := stored, owner := none }.note result.toBool
  | .drop fault => s.owner.map fun c => { s with stored := c.drop s.stored fault, owner := none }
  | .die => s.owner.map fun _ => { s with owner := none }
  | .dieInCall call => s.owner.map fun c =>
    { s with stored := (call.run c s.stored).2.2, owner := none }
  | .dieInRelease fault dropFault => s.owner.map fun c =>
    { s with stored := (c.release s.stored fault dropFault).2, owner := none }
  | .dieInDrop fault => s.owner.map fun c =>
    { s with stored := c.drop s.stored fault, owner := none }

/-- INTERNAL: the states of the runs whose steps all meet the condition. -/
inductive Reaches (repository : RepositoryId) (may : OwnershipState → OwnershipAct → Prop) :
    OwnershipState → Prop
  | start : Reaches repository may start
  | step {s s' : OwnershipState} (a : OwnershipAct) : Reaches repository may s → may s a →
      s.step repository a = some s' → Reaches repository may s'

end OwnershipState

namespace OwnershipState

/-- INTERNAL: the newest term ended cleanly. -/
def Clean (s : OwnershipState) : Prop := s.terms.head?.any Term.clean = true

/-- INTERNAL: the record comes to say `Unmounted`. -/
def Unmounts (s s' : OwnershipState) : Prop :=
  s'.stored ≠ s.stored ∧ s'.stored.any (fun record => record.state = .unmounted) = true

end OwnershipState

/-- INTERNAL: a term against the one before it: a higher epoch, and a start in `Starting` only
behind a clean end. -/
structure Term.Follows (newer older : Term) : Prop where
  epoch : older.epoch < newer.epoch
  clean : newer.started = .starting → older.clean = true
  recovers : older.clean = false → newer.started = .recovering

end Mirage.Interface
