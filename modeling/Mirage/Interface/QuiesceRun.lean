import Mirage.Computation.Table
import Mirage.Model.VolumeOwner

/-!
# Readers and `quiesce` on one coordinator

Threads share the state and the reader counts of a coordinator, each behind a lock of its own,
and the owner record.  A step is a stretch of code that holds one of the locks or none:
`begin_read` is a step for its check and one for its registration, `transition` one for each
half, and `quiesce` one for the look at the state, for each half of its transitions and for
the look at the readers.  `leases` and `quiesced` record what was granted and returned, and no
step reads them.
-/

set_option autoImplicit false

namespace Mirage.Interface

open Mirage.Computation Mirage.Model

/-- INTERNAL: where a thread is.  `fromMounted` says that its `quiesce` saw a mounted volume. -/
inductive VolumeThread where
  | idle
  | admitted (page : PageHash)
  | persisting (next : VolumeState)
  | quiesceSaw (state : VolumeState)
  | quiesceSkips
  | quiesceCloses
  | draining (fromMounted : Bool)
  | drained (fromMounted : Bool)
  | quiesceEnds (fromMounted : Bool)
  deriving DecidableEq, Repr

/-- INTERNAL: the `quiesce` of a mounted volume has set `Quiescing`. -/
def VolumeThread.closed : VolumeThread → Prop
  | .quiesceCloses => True
  | .draining fromMounted => fromMounted = true
  | .drained fromMounted => fromMounted = true
  | .quiesceEnds fromMounted => fromMounted = true
  | _ => False

structure VolumeShared where
  repositoryId : RepositoryId
  epoch : Nat
  stored : Option OwnerRecord
  state : VolumeState
  readers : Table PageHash Nat
  threads : Nat → VolumeThread
  leases : List PageHash
  quiesced : Bool

inductive VolumeAct where
  | beginRead (thread : Nat) (page : PageHash)
  | register (thread : Nat)
  | dropLease (page : PageHash)
  | transition (thread : Nat) (next : VolumeState)
  | persist (thread : Nat) (fault : RecordFault)
  | quiesce (thread : Nat)
  | quiesceMove (thread : Nat)
  | quiescePersist (thread : Nat) (fault : RecordFault)
  | drain (thread : Nat)
  | timeout (thread : Nat)
  | unmount (thread : Nat)

namespace VolumeShared

/-- INTERNAL: the coordinator of a term that begins. -/
def start (c : VolumeCoordinator) (stored : Option OwnerRecord) : VolumeShared :=
  ⟨c.repositoryId, c.epoch, stored, c.state, .empty, fun _ => .idle, [], false⟩

def goto (s : VolumeShared) (thread : Nat) (at' : VolumeThread) : VolumeShared :=
  { s with threads := fun other => if other = thread then at' else s.threads other }

/-- INTERNAL: SRCLINE: mirage-engine/src/volume.rs:244-250 -/
def addReader (s : VolumeShared) (page : PageHash) : VolumeShared :=
  { s with
    readers := s.readers.set page ((s.readers.get page).getD 0 + 1)
    leases := page :: s.leases }

/-- INTERNAL: SRCLINE: mirage-engine/src/volume.rs:89-102 -/
def dropReader (s : VolumeShared) (page : PageHash) : VolumeShared :=
  let s' := { s with leases := s.leases.erase page }
  match s.readers.get page with
  | none => s'
  | some count =>
    if count - 1 = 0 then { s' with readers := s.readers.erase page }
    else { s' with readers := s.readers.set page (count - 1) }

/-- INTERNAL: the first half of a transition; a refused one ends the call. -/
def moveTo (s : VolumeShared) (thread : Nat) (next : VolumeState) (at' : VolumeThread) :
    VolumeShared :=
  match s.state.move next with
  | .ok state => { s with state := state }.goto thread at'
  | .error _ => s.goto thread .idle

/-- INTERNAL: the second half of a transition, and where a success leads. -/
def persistTo (s : VolumeShared) (thread : Nat) (next : VolumeState) (fault : RecordFault)
    (at' : VolumeThread) (quiesced : Bool) : VolumeShared :=
  match VolumeCoordinator.persist s.repositoryId s.epoch next s.stored fault with
  | (.ok (), stored) =>
    { s with stored := stored, quiesced := s.quiesced || quiesced }.goto thread at'
  | (.error _, stored) => { s with stored := stored }.goto thread .idle

def step (s : VolumeShared) : VolumeAct → Option VolumeShared
  | .beginRead thread page =>
    if s.threads thread = .idle then
      some (if s.state = .mounted then s.goto thread (.admitted page) else s)
    else none
  | .register thread =>
    match s.threads thread with
    | .admitted page => some ((s.addReader page).goto thread .idle)
    | _ => none
  | .dropLease page => if page ∈ s.leases then some (s.dropReader page) else none
  | .transition thread next =>
    if s.threads thread = .idle then some (s.moveTo thread next (.persisting next)) else none
  | .persist thread fault =>
    match s.threads thread with
    | .persisting next => some (s.persistTo thread next fault .idle false)
    | _ => none
  | .quiesce thread =>
    if s.threads thread = .idle then some (s.goto thread (.quiesceSaw s.state)) else none
  | .quiesceMove thread =>
    match s.threads thread with
    | .quiesceSaw .unmounted => some (s.goto thread .idle)
    | .quiesceSaw .starting => some (s.moveTo thread .unmounted .quiesceSkips)
    | .quiesceSaw .recovering => some (s.moveTo thread .unmounted .quiesceSkips)
    | .quiesceSaw .mounted => some (s.moveTo thread .quiescing .quiesceCloses)
    | .quiesceSaw .quiescing => some (s.goto thread (.draining false))
    | _ => none
  | .quiescePersist thread fault =>
    match s.threads thread with
    | .quiesceSkips => some (s.persistTo thread .unmounted fault .idle false)
    | .quiesceCloses => some (s.persistTo thread .quiescing fault (.draining true) false)
    | .quiesceEnds fromMounted =>
      some (s.persistTo thread .unmounted fault .idle fromMounted)
    | _ => none
  | .drain thread =>
    match s.threads thread with
    | .draining fromMounted =>
      some (if s.readers.entries = [] then s.goto thread (.drained fromMounted) else s)
    | _ => none
  | .timeout thread =>
    match s.threads thread with
    | .draining _ => if s.readers.entries = [] then none else some (s.goto thread .idle)
    | _ => none
  | .unmount thread =>
    match s.threads thread with
    | .drained fromMounted => some (s.moveTo thread .unmounted (.quiesceEnds fromMounted))
    | _ => none

/-- INTERNAL: the states of the runs from a new term whose steps all meet the condition. -/
inductive Reaches (may : VolumeShared → VolumeAct → Prop) : VolumeShared → Prop
  | start (c : VolumeCoordinator) (stored : Option OwnerRecord) : Reaches may (start c stored)
  | step {s s' : VolumeShared} (a : VolumeAct) : Reaches may s → may s a → s.step a = some s' →
      Reaches may s'

/-- INTERNAL: what a run reaches from a state by steps that meet the condition. -/
inductive Later (may : VolumeShared → VolumeAct → Prop) (s : VolumeShared) : VolumeShared → Prop
  | refl : Later may s s
  | step {s' s'' : VolumeShared} (a : VolumeAct) : Later may s s' → may s' a →
      s'.step a = some s'' → Later may s s''

/-- INTERNAL: no reader stands between its check and its registration when the `quiesce` of a
mounted volume finds no readers, and no transition leads from `Quiescing` to `Recovering` while
such a `quiesce` is under way. -/
def NoReaderBetween (s : VolumeShared) : VolumeAct → Prop
  | .drain thread => s.threads thread = .draining true → s.readers.entries = [] →
    ∀ other page, s.threads other ≠ .admitted page
  | .transition _ next => s.state = .quiescing → next = .recovering →
    ∀ thread, ¬ (s.threads thread).closed
  | _ => True

end VolumeShared

end Mirage.Interface
