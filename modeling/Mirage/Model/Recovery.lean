import Mathlib.Data.Char
import Mathlib.Data.List.Destutter
import Mathlib.Data.List.Lex
import Mirage.Model.Commit
import Mirage.Model.FetchRanges

/-!
# Recovery of a repository

`mirage-engine/src/repository_reader.rs`.  A backend is what its calls answer, and the answer to
a read is what its stream collects.  The codecs of documents are given from outside; of a
manifest they say what recovery reads of it.
-/

set_option autoImplicit false

namespace Mirage.Model

open Mirage.Computation Mirage.Model.Commit

/-! ## Backends and documents -/

/-- INTERNAL: SRCLINE: mirage-backend/src/object.rs:125-132 -/
structure ObjectStat where
  byteLength : UInt64
  contentHash : BitVec 256
  deriving DecidableEq, Repr

/-- INTERNAL: SRCLINE: mirage-backend/src/traits.rs:12-48 -/
structure ObjectBackend where
  readRange : RemoteObjectRef → CheckedRange → Except MirageError (List UInt8)
  stat : RemoteObjectRef → Except MirageError ObjectStat
  enumerateCommits : RepositoryId → Except MirageError (List RemoteObjectRef)

structure DocumentCodecs (Manifest : Type) where
  decodeCommit : List UInt8 → Except MirageError RepositoryCommit
  decodeManifest : List UInt8 → Except MirageError Manifest
  manifestHash : Manifest → Except MirageError (BitVec 256)
  repositoryId : Manifest → RepositoryId
  /-- INTERNAL: the objects of the remote locations. -/
  packObjects : Manifest → List RemoteObjectRef

/-- INTERNAL: SRCLINE: mirage-engine/src/repository_writer.rs:329-350 -/
def readComplete (backend : ObjectBackend) (object : RemoteObjectRef) (maximum : Nat) :
    Except MirageError (List UInt8) := do
  ensure (object.byteLength.toNat ≤ maximum)
    (.manifestInvalid "immutable metadata object exceeds its read bound")
  let range ← CheckedRange.new 0 object.byteLength.toNat
  backend.readRange object range

/-- INTERNAL: SRCLINE: mirage-engine/src/object_plan.rs:34-44 -/
def packSetHash (ext : Externals) (hashes : List (BitVec 256)) : BitVec 256 :=
  ext.blake3 (utf8Bytes "MirageSSD pack set v1".toList ++ [0] ++
    ((hashes.insertionSort fun a b => a.toNat ≤ b.toNat).destutter (· ≠ ·)).flatMap hashBytes)

/-! ## Recovery -/

/-- INTERNAL: SRCLINE: repository_reader.rs:12-19 -/
structure RecoveredRepository (Manifest : Type) where
  chain : List RepositoryCommit
  headHash : CommitHash
  manifest : Manifest
  manifestObject : RemoteObjectRef
  verifiedPackCount : Nat
  deriving DecidableEq

/-- INTERNAL: SRCLINE: repository_reader.rs:21-25 -/
structure RecoveryHints where
  cachedCommit : Option RemoteObjectRef
  latestHint : Option RemoteObjectRef

/-- INTERNAL: the arguments of a call, with the digest and the codecs. -/
structure RecoveryCall (Manifest : Type) where
  ext : CommitExternals
  codecs : DocumentCodecs Manifest
  backend : ObjectBackend
  repositoryId : RepositoryId
  verifier : CommitVerifier
  hints : RecoveryHints

namespace RecoveryCall

variable {Manifest : Type} (call : RecoveryCall Manifest)

/-- INTERNAL: the hints stand before what the backend lists. -/
def offered (listed : List RemoteObjectRef) : List RemoteObjectRef :=
  call.hints.cachedCommit.toList ++ call.hints.latestHint.toList ++ listed

/-- INTERNAL: of the references with one object id the first stays.
SRCLINE: repository_reader.rs:41-54 -/
def references (listed : List RemoteObjectRef) : List RemoteObjectRef :=
  ((call.offered listed).insertionSort fun a b =>
      a.providerObjectId.val ≤ b.providerObjectId.val).destutter
    fun a b => a.providerObjectId.val ≠ b.providerObjectId.val

/-- INTERNAL: the valid commit of this repository that an object of these bytes is. -/
def commitOf (object : RemoteObjectRef) (bytes : Option (List UInt8)) :
    Option RepositoryCommit := do
  guard (object.kind = .commit)
  let commit ← (call.codecs.decodeCommit (← bytes)).toOption
  guard (commit.body.repositoryId = call.repositoryId ∧
    validateCommit call.ext call.verifier commit = .ok ())
  some commit

/-- INTERNAL: what cannot be read or is no valid commit is passed over.
SRCLINE: repository_reader.rs:55-70 -/
def validCommits (objects : List RemoteObjectRef) : List RepositoryCommit :=
  objects.filterMap fun object =>
    call.commitOf object (readComplete call.backend object (64 * 1024)).toOption

/-- INTERNAL: the order of the roots does not matter, as there must be one.
SRCLINE: repository_reader.rs:71-87 -/
def trustRoot (valid : List RepositoryCommit) : Except MirageError RepositoryCommit :=
  match valid.filter fun commit => commit.body.sequence = 0 ∧ commit.body.parentCommit = none with
  | [] => .error (.remoteObjectMissing "no valid trust-root commit was discovered")
  | [root] => .ok root
  | _ => .error (.repositoryConflict "multiple valid trust-root commits were discovered")

/-- INTERNAL: SRCLINE: repository_reader.rs:93-96 -/
def chainError : ChainValidationError → MirageError
  | .invalid error => error
  | .conflict error _ => error

/-- INTERNAL: SRCLINE: repository_reader.rs:87-97 -/
def recoverChain (valid : List RepositoryCommit) : Except MirageError (List RepositoryCommit) := do
  let root ← trustRoot valid
  (selectHighestValidChain call.ext call.verifier
    (valid.filter fun commit => commit.body.sequence ≠ 0) root).mapError chainError

/-- INTERNAL: SRCLINE: repository_reader.rs:101-111 -/
def recoverManifest (head : RepositoryCommit) : Except MirageError Manifest := do
  let bytes ← readComplete call.backend head.body.manifestObject (256 * 1024 * 1024)
  let manifest ← call.codecs.decodeManifest bytes
  ensure (call.codecs.repositoryId manifest = call.repositoryId)
    (.integrityMismatch "recovered manifest does not match the authoritative commit")
  let hash ← call.codecs.manifestHash manifest
  ensure (hash = head.body.manifestHash)
    (.integrityMismatch "recovered manifest does not match the authoritative commit")
  .ok manifest

/-- INTERNAL: SRCLINE: repository_reader.rs:112-118 -/
def packsOf (manifest : Manifest) : List RemoteObjectRef :=
  ((call.codecs.packObjects manifest).insertionSort fun a b =>
    a.contentHash.toNat ≤ b.contentHash.toNat).destutter fun a b => a.contentHash ≠ b.contentHash

/-- INTERNAL: SRCLINE: repository_reader.rs:119-126 -/
def verifyPack (pack : RemoteObjectRef) : Except MirageError Unit := do
  let stat ← call.backend.stat pack
  ensure (stat.contentHash = pack.contentHash ∧ stat.byteLength = pack.byteLength)
    (.integrityMismatch "manifest pack metadata failed verification")

/-- INTERNAL: SRCLINE: repository_reader.rs:119-133 -/
def verifyPacks (head : RepositoryCommit) (packs : List RemoteObjectRef) :
    Except MirageError Unit := do
  packs.forM call.verifyPack
  ensure (packSetHash call.ext.toExternals (packs.map RemoteObjectRef.contentHash) =
      head.body.referencedPackSetHash)
    (.integrityMismatch "commit pack-set hash differs from recovered manifest")

/-- INTERNAL: SRCLINE: repository_reader.rs:35-141 -/
def recoverRepositoryWithHints : Except MirageError (RecoveredRepository Manifest) := do
  let listed ← call.backend.enumerateCommits call.repositoryId
  let chain ← call.recoverChain (call.validCommits (call.references listed))
  let head ← someOr chain.getLast? (.internalInvariant "recovered chain is empty")
  let manifest ← call.recoverManifest head
  call.verifyPacks head (call.packsOf manifest)
  let headHash ← commitHash call.ext head
  .ok ⟨chain, headHash, manifest, head.body.manifestObject, (call.packsOf manifest).length⟩

end RecoveryCall

end Mirage.Model
