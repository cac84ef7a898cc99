import Mirage.Computation.Checks
import Mirage.Computation.Table
import Mirage.Model.ByteFields

/-!
# Activation of a generation

The active-generation pointer of `mirage-db/src/generation.rs`, its compare-and-swap, and the
activation of `mirage-engine/src/update/activate.rs` over it.  A switch is one transaction: it
returns the new database, and on an error the old one stays.  How the calls of the engine, the
quiescence and the mounts end is given from outside.
-/

set_option autoImplicit false

namespace Mirage.Model.Generations

open Mirage.Computation

abbrev CommitHash := BitVec 256

/-- INTERNAL: the columns of `repositories` an activation reads or writes. -/
structure RepositoryRow where
  activeGeneration : Option Int
  activeCommitHash : Option (List UInt8)
  updatedAtNs : Int
  deriving DecidableEq, Repr

/-- INTERNAL: the columns of `generations` an activation reads. -/
structure GenerationRow where
  commitHash : List UInt8
  manifestHash : List UInt8
  manifestLocalPath : String
  mountIndexPath : Option String
  verified : Int
  deriving DecidableEq, Repr

structure GenerationDb where
  repositories : Table RepositoryId RepositoryRow
  generations : Table (RepositoryId × Int) GenerationRow
  deriving DecidableEq, Repr

/-- INTERNAL: a generation and the hash of its commit. -/
abbrev Pointer := Nat × CommitHash

/-! ## Column values -/

/-- INTERNAL: SRCLINE: mirage-db/src/value.rs:5-8 -/
def sqliteInteger (value : Nat) (label : String) : Except MirageError Int :=
  if (value : Int) ≤ i64Max then .ok value
  else .error (.invalidArgument (label ++ " exceeds SQLite INTEGER"))

/-- INTERNAL: SRCLINE: mirage-db/src/value.rs:10-18 -/
def nonnegative (value : Int) (label : String) : Except MirageError Nat :=
  if 0 ≤ value then .ok value.toNat
  else .error (.integrityMismatch ("database " ++ label ++ " is negative"))

/-- INTERNAL: `fixed` for the 32 bytes of a hash.
SRCLINE: mirage-db/src/value.rs:20-31 -/
def fixedHash (value : List UInt8) (label : String) : Except MirageError (BitVec 256) :=
  if value.length = 32 then .ok (hashOfBytes value)
  else .error (.integrityMismatch ("database " ++ label ++ " has invalid byte width"))

/-- INTERNAL: SRCLINE: mirage-db/src/value.rs:39-46 -/
def storedPath (value : String) : Except MirageError String :=
  if value.utf8ByteSize = 0 ∨ value.utf8ByteSize > 32767 then
    .error (.integrityMismatch "stored database path is empty or oversized")
  else .ok value

/-! ## The database -/

/-- INTERNAL: a call of the SQL engine, which can fail. -/
inductive EngineCall where
  | begin
  | loadCurrent
  | loadTarget
  | update
  | commit
  deriving DecidableEq, Repr

/-- INTERNAL: the contexts given to `sqlite`. -/
def EngineCall.error : EngineCall → MirageError
  | .begin => .io "failed to begin generation activation"
  | .loadCurrent => .io "failed to load repository activation state"
  | .loadTarget => .io "failed to load activation target"
  | .update => .io "failed to activate generation"
  | .commit => .io "failed to commit generation activation"

/-- INTERNAL: a call of the engine when the given one fails. -/
def engine (failing : Option EngineCall) (call : EngineCall) : Except MirageError Unit :=
  ensure (failing ≠ some call) call.error

/-- INTERNAL: SRCLINE: mirage-db/src/generation.rs:31-38 -/
structure Activation where
  repositoryId : RepositoryId
  targetGeneration : Nat
  targetCommitHash : CommitHash
  expectedCurrent : Option Pointer
  updatedAtNs : Int
  deriving DecidableEq, Repr

/-- INTERNAL: the pair of columns as a pointer.
SRCLINE: mirage-db/src/generation.rs:246-257 -/
def currentPointer (row : RepositoryRow) : Except MirageError (Option Pointer) :=
  match row.activeGeneration, row.activeCommitHash with
  | none, none => .ok none
  | some generation, some commit => do
    let generation ← nonnegative generation "active generation"
    let commit ← fixedHash commit "active commit hash"
    .ok (some (generation, commit))
  | _, _ => .error (.integrityMismatch "repository active generation columns disagree")

/-- INTERNAL: the compare-and-swap of the pointer.
SRCLINE: mirage-db/src/generation.rs:221-297 -/
def activate (db : GenerationDb) (activation : Activation) (failing : Option EngineCall) :
    Except MirageError GenerationDb := do
  let target ← sqliteInteger activation.targetGeneration "target generation"
  engine failing .begin
  engine failing .loadCurrent
  let row ← someOr (db.repositories.get activation.repositoryId)
    (.invalidArgument "repository does not exist")
  let current ← currentPointer row
  ensure (current = activation.expectedCurrent)
    (.repositoryConflict "active generation changed concurrently")
  engine failing .loadTarget
  let targetRow ← someOr (db.generations.get (activation.repositoryId, target))
    (.invalidArgument "target generation does not exist")
  ensure (targetRow.verified = 1 ∧ targetRow.commitHash = hashBytes activation.targetCommitHash)
    (.repositoryConflict "activation target is unverified or has a different commit hash")
  engine failing .update
  engine failing .commit
  let switched : RepositoryRow :=
    ⟨some target, some (hashBytes activation.targetCommitHash), activation.updatedAtNs⟩
  .ok { db with repositories := db.repositories.set activation.repositoryId switched }

/-- INTERNAL: SRCLINE: mirage-db/src/generation.rs:21-29 -/
structure ActiveGeneration where
  generationId : Nat
  commitHash : CommitHash
  manifestHash : BitVec 256
  manifestLocalPath : String
  mountIndexPath : Option String
  deriving DecidableEq, Repr

/-- INTERNAL: the repository joined with the generation it points to.  A `NULL` commit hash
in a row that is found is an error of the engine.
SRCLINE: mirage-db/src/generation.rs:103-148 -/
def loadActiveGeneration (db : GenerationDb) (repository : RepositoryId) (fails : Bool) :
    Except MirageError (Option ActiveGeneration) := do
  ensure (fails = false) (.io "failed to load active generation")
  match db.repositories.get repository with
  | none => .ok none
  | some row =>
    match row.activeGeneration with
    | none => .ok none
    | some generation =>
      match db.generations.get (repository, generation) with
      | none => .ok none
      | some target => do
        let commit ← someOr row.activeCommitHash (.io "failed to load active generation")
        let generation ← nonnegative generation "generation"
        let commit ← fixedHash commit "commit hash"
        let manifest ← fixedHash target.manifestHash "manifest hash"
        let manifestPath ← storedPath target.manifestLocalPath
        let indexPath ← target.mountIndexPath.mapM storedPath
        .ok (some ⟨generation, commit, manifest, manifestPath, indexPath⟩)

/-! ## The engine -/

/-- INTERNAL: SRCLINE: mirage-engine/src/update/activate.rs:62-71 -/
def active (db : GenerationDb) (repository : RepositoryId) (fails : Bool) :
    Except MirageError (Option Pointer) := do
  let found ← loadActiveGeneration db repository fails
  .ok (found.map fun generation => (generation.generationId, generation.commitHash))

/-- INTERNAL: SRCLINE: mirage-engine/src/update/activate.rs:72-80 -/
def switch (db : GenerationDb) (repository : RepositoryId) (target : Pointer)
    (expected : Option Pointer) (timestampNs : Int) (failing : Option EngineCall) :
    Except MirageError GenerationDb :=
  activate db ⟨repository, target.1, target.2, expected, timestampNs⟩ failing

/-- INTERNAL: SRCLINE: mirage-engine/src/update/activate.rs:24-30 -/
structure ActivationPlan where
  repository : RepositoryId
  generation : Nat
  commit : CommitHash
  timestampNs : Int
  deriving DecidableEq, Repr

/-- INTERNAL: SRCLINE: mirage-engine/src/update/activate.rs:32-36 -/
structure ActivationReport where
  previous : Option Pointer
  active : Pointer
  deriving DecidableEq, Repr

/-- INTERNAL: how the calls of one activation end.  The outcome of mounting the old generation
again is ignored by the source. -/
structure Outcomes where
  loadFails : Bool
  quiesce : Except MirageError Unit
  switching : Option EngineCall
  mountAndSmokeTest : Except MirageError Unit
  switchingBack : Option EngineCall
  deriving DecidableEq

/-- INTERNAL: the result of an activation and the database behind it.
SRCLINE: mirage-engine/src/update/activate.rs:38-60 -/
def activateGeneration (db : GenerationDb) (plan : ActivationPlan) (outcomes : Outcomes) :
    Except MirageError ActivationReport × GenerationDb :=
  match active db plan.repository outcomes.loadFails with
  | .error e => (.error e, db)
  | .ok previous =>
    match outcomes.quiesce with
    | .error e => (.error e, db)
    | .ok () =>
      let target := (plan.generation, plan.commit)
      match switch db plan.repository target previous plan.timestampNs outcomes.switching with
      | .error e => (.error e, db)
      | .ok switched =>
        match outcomes.mountAndSmokeTest with
        | .ok () => (.ok ⟨previous, target⟩, switched)
        | .error mountError =>
          match previous with
          | none => (.error mountError, switched)
          | some old =>
            match switch switched plan.repository old (some target) plan.timestampNs
                outcomes.switchingBack with
            | .error e => (.error e, switched)
            | .ok restored => (.error mountError, restored)

end Mirage.Model.Generations
