import Mirage.Model.Prelude

/-!
# Ownership of a volume

The owner record and the life cycle of `mirage-engine/src/volume.rs`.  The record is what the
file holds, or `none` before the first acquisition; it is written by `write_atomic`, which can
fail before the new file is in place and, when the directory cannot be synced, behind that.
The process id and the time of a record are read by no function and left out.
-/

set_option autoImplicit false

namespace Mirage.Model

/-- INTERNAL: SRCLINE: mirage-engine/src/volume.rs:26-39 -/
inductive VolumeState where
  | unmounted
  | starting
  | mounted
  | quiescing
  | recovering
  deriving DecidableEq, Repr

namespace VolumeState

/-- INTERNAL: SRCLINE: mirage-engine/src/volume.rs:42-54 -/
def mayTransition : VolumeState → VolumeState → Bool
  | .starting, .mounted => true
  | .starting, .unmounted => true
  | .recovering, .starting => true
  | .recovering, .unmounted => true
  | .mounted, .quiescing => true
  | .mounted, .recovering => true
  | .quiescing, .unmounted => true
  | .quiescing, .recovering => true
  | _, _ => false

/-- INTERNAL: SRCLINE: mirage-engine/src/volume.rs:56-64 -/
def asStr : VolumeState → String
  | .starting => "starting"
  | .mounted => "mounted"
  | .quiescing => "quiescing"
  | .recovering => "recovering"
  | .unmounted => "unmounted"

/-- INTERNAL: the first half of `transition`, under the state lock.
SRCLINE: mirage-engine/src/volume.rs:196-210 -/
def move (state next : VolumeState) : Except MirageError VolumeState :=
  if state.mayTransition next then .ok next
  else .error (.repositoryConflict
    ("volume cannot move from " ++ state.asStr ++ " to " ++ next.asStr))

end VolumeState

/-- INTERNAL: `OWNER_FORMAT_VERSION`. -/
def ownerFormatVersion : Nat := 1

/-- INTERNAL: SRCLINE: mirage-engine/src/volume.rs:70-79 -/
structure OwnerRecord where
  formatVersion : Nat
  repositoryId : RepositoryId
  epoch : Nat
  state : VolumeState
  deriving DecidableEq, Repr

/-- INTERNAL: how a read and a write of the record end: a read can fail, and a write before
or behind the replacement of the file. -/
inductive RecordFault where
  | pass
  | load (e : MirageError)
  | before (e : MirageError)
  | behind (e : MirageError)
  deriving DecidableEq, Repr

/-- INTERNAL: SRCLINE: mirage-engine/src/volume.rs:409-432 -/
def loadOwnerRecord (stored : Option OwnerRecord) (repository : RepositoryId)
    (fault : RecordFault) : Except MirageError (Option OwnerRecord) :=
  match stored with
  | none => .ok none
  | some record =>
    match fault with
    | .load e => .error e
    | _ =>
      if record.formatVersion ≠ ownerFormatVersion ∨ record.repositoryId ≠ repository then
        .error (.integrityMismatch "volume owner record belongs to another volume or format")
      else .ok (some record)

/-- INTERNAL: SRCLINE: mirage-crypto/src/durable_file.rs:8-30 -/
def writeOwnerRecord (stored : Option OwnerRecord) (record : OwnerRecord) (fault : RecordFault) :
    Except MirageError Unit × Option OwnerRecord :=
  match fault with
  | .before e => (.error e, stored)
  | .behind e => (.error e, some record)
  | _ => (.ok (), some record)

/-- INTERNAL: SRCLINE: mirage-engine/src/volume.rs:112-118 -/
structure VolumeCoordinator where
  repositoryId : RepositoryId
  epoch : Nat
  state : VolumeState
  deriving DecidableEq, Repr

namespace VolumeCoordinator

/-- INTERNAL: the record of a new term and its state.
SRCLINE: mirage-engine/src/volume.rs:132-149 -/
def nextRecord (previous : Option OwnerRecord) (repository : RepositoryId) :
    Except MirageError OwnerRecord :=
  match checkedAdd (previous.elim 0 OwnerRecord.epoch) 1 with
  | none => .error (.internalInvariant "volume epoch overflowed")
  | some epoch =>
    .ok ⟨ownerFormatVersion, repository, epoch,
      if previous.any fun record => record.state ≠ .unmounted then .recovering else .starting⟩

/-- INTERNAL: acquisition by a process that got the lock of the operating system.
SRCLINE: mirage-engine/src/volume.rs:126-169 -/
def acquire (stored : Option OwnerRecord) (repository : RepositoryId) (fault : RecordFault) :
    Except MirageError VolumeCoordinator × Option OwnerRecord :=
  match loadOwnerRecord stored repository fault with
  | .error e => (.error e, stored)
  | .ok previous =>
    match nextRecord previous repository with
    | .error e => (.error e, stored)
    | .ok record =>
      match writeOwnerRecord stored record fault with
      | (.error e, stored) => (.error e, stored)
      | (.ok (), stored) => (.ok ⟨repository, record.epoch, record.state⟩, stored)

/-- INTERNAL: the second half of `transition`, behind the state lock.
SRCLINE: mirage-engine/src/volume.rs:211-224 -/
def persist (repository : RepositoryId) (epoch : Nat) (next : VolumeState)
    (stored : Option OwnerRecord) (fault : RecordFault) :
    Except MirageError Unit × Option OwnerRecord :=
  match loadOwnerRecord stored repository fault with
  | .error e => (.error e, stored)
  | .ok none => (.error (.integrityMismatch "volume owner record is missing"), stored)
  | .ok (some record) =>
    if record.epoch ≠ epoch then
      (.error (.integrityMismatch "volume owner record epoch changed under a live owner"), stored)
    else writeOwnerRecord stored { record with state := next } fault

/-- INTERNAL: SRCLINE: mirage-engine/src/volume.rs:195-225 -/
def transition (c : VolumeCoordinator) (next : VolumeState) (stored : Option OwnerRecord)
    (fault : RecordFault) :
    Except MirageError Unit × VolumeCoordinator × Option OwnerRecord :=
  match c.state.move next with
  | .error e => (.error e, c, stored)
  | .ok state =>
    match persist c.repositoryId c.epoch next stored fault with
    | (result, stored) => (result, { c with state := state }, stored)

/-- INTERNAL: SRCLINE: mirage-engine/src/volume.rs:363-384 -/
def markUnmounted (c : VolumeCoordinator) (stored : Option OwnerRecord) (fault : RecordFault) :
    Except MirageError Unit × VolumeCoordinator × Option OwnerRecord :=
  match loadOwnerRecord stored c.repositoryId fault with
  | .error e => (.error e, c, stored)
  | .ok none => (.ok (), c, stored)
  | .ok (some record) =>
    if record.epoch ≠ c.epoch ∨ record.state = .unmounted then (.ok (), c, stored)
    else
      match writeOwnerRecord stored { record with state := .unmounted } fault with
      | (.error e, stored) => (.error e, c, stored)
      | (.ok (), stored) => (.ok (), { c with state := .unmounted }, stored)

/-- INTERNAL: whether the readers drained before the deadline. -/
inductive Drain where
  | drained
  | timeout
  deriving DecidableEq, Repr

/-- INTERNAL: the wait for the readers and the last transition.
SRCLINE: mirage-engine/src/volume.rs:329-350 -/
def drainAndUnmount (c : VolumeCoordinator) (stored : Option OwnerRecord) (drain : Drain)
    (fault : RecordFault) :
    Except MirageError Unit × VolumeCoordinator × Option OwnerRecord :=
  match drain with
  | .timeout =>
    (.error ⟨.deadlineExceeded, "volume readers did not drain before the quiesce deadline"⟩, c,
      stored)
  | .drained => c.transition .unmounted stored fault

/-- INTERNAL: `quiesce` of a thread that runs alone.
SRCLINE: mirage-engine/src/volume.rs:320-351 -/
def quiesce (c : VolumeCoordinator) (stored : Option OwnerRecord) (first : RecordFault)
    (drain : Drain) (last : RecordFault) :
    Except MirageError Unit × VolumeCoordinator × Option OwnerRecord :=
  match c.state with
  | .unmounted => (.ok (), c, stored)
  | .starting => c.transition .unmounted stored last
  | .recovering => c.transition .unmounted stored last
  | .mounted =>
    match c.transition .quiescing stored first with
    | (.error e, c, stored) => (.error e, c, stored)
    | (.ok (), c, stored) => c.drainAndUnmount stored drain last
  | .quiescing => c.drainAndUnmount stored drain last

/-- INTERNAL: `drop` only marks the record.
SRCLINE: mirage-engine/src/volume.rs:394-400 -/
def drop (c : VolumeCoordinator) (stored : Option OwnerRecord) (fault : RecordFault) :
    Option OwnerRecord :=
  (c.markUnmounted stored fault).2.2

/-- INTERNAL: `release` drops the coordinator also when it fails.
SRCLINE: mirage-engine/src/volume.rs:355-361 -/
def release (c : VolumeCoordinator) (stored : Option OwnerRecord) (fault dropFault : RecordFault) :
    Except MirageError Unit × Option OwnerRecord :=
  match c.markUnmounted stored fault with
  | (result, c, stored) => (result, c.drop stored dropFault)

end VolumeCoordinator

end Mirage.Model
