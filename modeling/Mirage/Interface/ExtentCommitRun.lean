import Mirage.Model.Journal

/-!
# Runs of extent commits and reclamation

`ExtentCall` is one request to the single writer that changes extent rows, their heads or
the physical ledger.  A request is one transaction.  It may fail at any of its statements,
for a reason of the model or for one outside of it (a full disk, an interrupted write),
and the dropped transaction then rolls every table back.
-/

set_option autoImplicit false

namespace Mirage.Interface

open Mirage.Model Mirage.Computation

/-- INTERNAL: the requests on extents and the ledger.
SRCLINE: writer.rs:795-935 -/
inductive ExtentCall where
  | sequencedMutation (mutation : SequencedMutation)
  | commitMutation (extents : Option ExtentMutation) (operation : OperationRecord)
      (payloads : List OperationPayloadRecord) (physical : Option PhysicalCommit) (nowNs : Int)
  | replaceExtents (mutation : ExtentMutation) (nowNs : Int)
  | dropVersions (volumeId : RepositoryId) (inode : InodeId) (keepFrom : Int)
  | compactVolume (volumeId : RepositoryId) (journalFileId : BitVec 128) (nowNs : Int)
  | releaseInode (volumeId : RepositoryId) (inode : InodeId) (journalFileId : BitVec 128)
      (nowNs : Int)

namespace ExtentCall

/-- INTERNAL: the transaction of a request and the payloads it reports dead. -/
def transaction : ExtentCall → Transaction (List (PayloadId × Int))
  | sequencedMutation mutation => do
    sequencedMutationCommit mutation
    pure []
  | commitMutation extents operation payloads physical nowNs => do
    commitMutationIn extents operation payloads physical nowNs
    pure []
  | replaceExtents mutation nowNs => do
    replaceExtentsWithEof mutation nowNs
    pure []
  | dropVersions volumeId inode keepFrom => do
    dropVersionsBefore volumeId inode keepFrom
    pure []
  | compactVolume volumeId journalFileId nowNs =>
    Model.compactVolume volumeId journalFileId nowNs
  | releaseInode volumeId inode journalFileId nowNs =>
    releaseInodeExtents volumeId inode journalFileId nowNs

/-- INTERNAL: the extent version a request carries, with the time it stamps on the rows. -/
def version : ExtentCall → Option (ExtentMutation × Int)
  | sequencedMutation mutation => mutation.extents.map fun m => (m, mutation.nowNs)
  | commitMutation extents _ _ _ nowNs => extents.map fun m => (m, nowNs)
  | replaceExtents mutation nowNs => some (mutation, nowNs)
  | _ => none

/-- INTERNAL: the ledger row a request commits. -/
def physicalCommit : ExtentCall → Option PhysicalCommit
  | sequencedMutation mutation => mutation.physical
  | commitMutation _ _ _ physical _ => physical
  | _ => none

/-- INTERNAL: whether a request commits a mutation or replaces a version. -/
def commits : ExtentCall → Bool
  | sequencedMutation _ => true
  | commitMutation _ _ _ _ _ => true
  | replaceExtents _ _ => true
  | _ => false

end ExtentCall

/-- INTERNAL: a request, and an outside failure of one of its statements. -/
structure Attempt where
  call : ExtentCall
  fault : Option MirageError

namespace Attempt

/-- INTERNAL: what the caller sees and what the tables hold afterwards. -/
def outcome (attempt : Attempt) (db : Db) :
    Except MirageError (List (PayloadId × Int)) × Db :=
  match attempt.fault with
  | some error => (.error error, db)
  | none =>
    match attempt.call.transaction db with
    | .ok (dead, db') => (.ok dead, db')
    | .error error => (.error error, db)

/-- INTERNAL: the tables afterwards. -/
def after (attempt : Attempt) (db : Db) : Db := (attempt.outcome db).2

/-- INTERNAL: the version an attempt committed. -/
def committed (attempt : Attempt) (db : Db) : Option (ExtentMutation × Int) :=
  match (attempt.outcome db).1 with
  | .ok _ => attempt.call.version
  | .error _ => none

theorem outcome_ok {attempt : Attempt} {db db' : Db} {dead : List (PayloadId × Int)}
    (h : attempt.outcome db = (.ok dead, db')) :
    attempt.fault = none ∧ attempt.call.transaction db = .ok (dead, db') := by
  unfold outcome at h
  cases hf : attempt.fault with
  | some error =>
    rw [hf] at h
    cases h
  | none =>
    rw [hf] at h
    cases ht : attempt.call.transaction db with
    | error error =>
      rw [ht] at h
      cases h
    | ok r =>
      rw [ht] at h
      cases h
      exact ⟨rfl, rfl⟩

theorem outcome_error {attempt : Attempt} {db db' : Db} {error : MirageError}
    (h : attempt.outcome db = (.error error, db')) : db' = db := by
  unfold outcome at h
  cases hf : attempt.fault with
  | some error =>
    rw [hf] at h
    cases h
    rfl
  | none =>
    rw [hf] at h
    cases ht : attempt.call.transaction db with
    | error error =>
      rw [ht] at h
      cases h
      rfl
    | ok r =>
      rw [ht] at h
      cases h

/-- INTERNAL: an attempt changes nothing or is a successful transaction. -/
theorem after_cases (attempt : Attempt) (db : Db) :
    (attempt.after db = db ∧ attempt.committed db = none) ∨
    ∃ dead, attempt.call.transaction db = .ok (dead, attempt.after db) ∧
      attempt.committed db = attempt.call.version := by
  unfold after committed
  cases hout : attempt.outcome db with
  | mk result db' =>
    cases result with
    | error error =>
      cases outcome_error hout
      exact .inl ⟨rfl, rfl⟩
    | ok dead => exact .inr ⟨dead, (outcome_ok hout).2, rfl⟩

end Attempt

/-- INTERNAL: the tables after a sequence of attempts, and the versions they committed. -/
def runAttempts : List Attempt → Db → Db × List (ExtentMutation × Int)
  | [], db => (db, [])
  | attempt :: rest, db =>
    let (db', versions) := runAttempts rest (attempt.after db)
    (db', (attempt.committed db).toList ++ versions)

/-- INTERNAL: the states of a run that starts with `db₀`. -/
inductive ReclaimRun (db₀ : Db) : Db → Prop where
  | start : ReclaimRun db₀ db₀
  | call {db : Db} (run : ReclaimRun db₀ db) (attempt : Attempt) :
      ReclaimRun db₀ (attempt.after db)

/-- INTERNAL: the keys of the ledger's schema.
SRCLINE: 0013_allocation.sql:13-25 -/
structure LedgerKeyed (db : Db) : Prop where
  extents : db.physicalExtents.Pairwise fun e f => e.extentId ≠ f.extentId
  slots : db.physicalExtents.Pairwise fun e f =>
    ¬ (e.fileId = f.fileId ∧ e.slotIndex = f.slotIndex)

end Mirage.Interface
