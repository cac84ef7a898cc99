import Mirage.Model.RemoteObjects

/-!
# Commits and their chain

`mirage-manifest/src/commit.rs`, `signature.rs` and `chain.rs`.  The verifier of signatures is
given from outside.  A chain grows by the only valid child of its last commit; the loop is
bounded by the number of candidates, which it never needs to be.
-/

set_option autoImplicit false

namespace Mirage.Model

open Mirage.Computation

namespace Commit

abbrev CommitHash := BitVec 256

/-! ## Commits -/

/-- INTERNAL: SRCLINE: mirage-manifest/src/signature.rs:4-9 -/
inductive SignatureAlgorithm where
  | ed25519
  | testOnlyBlake3Keyed
  deriving DecidableEq, Repr

/-- INTERNAL: SRCLINE: mirage-manifest/src/signature.rs:11-18 -/
def SignatureAlgorithm.code : SignatureAlgorithm → UInt16
  | .ed25519 => 1
  | .testOnlyBlake3Keyed => 65535

/-- INTERNAL: SRCLINE: mirage-manifest/src/signature.rs:31-37 -/
structure SignatureEnvelope where
  algorithm : SignatureAlgorithm
  keyId : BitVec 128
  signature : List UInt8
  deriving DecidableEq, Repr

/-- INTERNAL: SRCLINE: mirage-manifest/src/signature.rs:40-47 -/
def SignatureEnvelope.validateShape (envelope : SignatureEnvelope) : Except MirageError Unit :=
  ensure (envelope.signature ≠ [] ∧ envelope.signature.length ≤ 128)
    (.manifestInvalid "commit signature length is outside 1..=128 bytes")

/-- INTERNAL: SRCLINE: mirage-manifest/src/commit.rs:19-32 -/
structure UnsignedCommitBody where
  formatVersion : UInt32
  repositoryId : RepositoryId
  sequence : UInt64
  parentCommit : Option CommitHash
  manifestHash : BitVec 256
  manifestObject : RemoteObjectRef
  referencedPackSetHash : BitVec 256
  createdUtcNs : BitVec 128
  writerDeviceId : BitVec 128
  updateJournalId : Option (BitVec 128)
  deriving DecidableEq, Repr

/-- INTERNAL: SRCLINE: mirage-manifest/src/commit.rs:34-39 -/
structure RepositoryCommit where
  body : UnsignedCommitBody
  signature : SignatureEnvelope
  deriving DecidableEq, Repr

/-- INTERNAL: `COMMIT_FORMAT_VERSION`. -/
def commitFormatVersion : UInt32 := 1

/-- INTERNAL: SRCLINE: mirage-manifest/src/commit.rs:65-93 -/
def validateBody (body : UnsignedCommitBody) : Except MirageError Unit := do
  ensure (body.formatVersion = commitFormatVersion)
    (.unsupportedLayout "commit format version is not supported")
  ensure (¬ (body.sequence = 0 ∧ body.parentCommit.isSome))
    (.manifestInvalid "trust-root commit cannot declare a parent")
  ensure (¬ (body.sequence ≠ 0 ∧ body.parentCommit.isNone))
    (.manifestInvalid "non-root commit must declare a parent hash")
  body.manifestObject.validate
  ensure (body.manifestObject.kind = .manifest)
    (.manifestInvalid "commit manifest object has the wrong immutable object kind")
  ensure (body.manifestObject.contentHash = body.manifestHash)
    (.integrityMismatch "commit manifest hash and manifest object hash differ")

/-! ## Encoding -/

section Encoding

variable (ext : CommitExternals)

/-- INTERNAL: SRCLINE: mirage-manifest/src/commit.rs:120-154 -/
def encodeUnsignedBody (body : UnsignedCommitBody) : List UInt8 :=
  ext.record [ext.unsigned 32 body.formatVersion.toNat, ext.bytes (idBytes body.repositoryId),
    ext.unsigned 64 body.sequence.toNat,
    ext.optional (fun parent => ext.bytes (hashBytes parent)) body.parentCommit,
    ext.bytes (hashBytes body.manifestHash), ext.encodeObjectRef body.manifestObject,
    ext.bytes (hashBytes body.referencedPackSetHash), ext.i128 body.createdUtcNs,
    ext.bytes (idBytes body.writerDeviceId),
    ext.optional (fun update => ext.bytes (idBytes update)) body.updateJournalId]

/-- INTERNAL: SRCLINE: mirage-manifest/src/commit.rs:156-169 -/
def encodeSignature (envelope : SignatureEnvelope) : List UInt8 :=
  ext.record [ext.unsigned 16 envelope.algorithm.code.toNat, ext.bytes (idBytes envelope.keyId),
    ext.bytes envelope.signature]

def encodeCommitInner (commit : RepositoryCommit) : List UInt8 :=
  ext.record [encodeUnsignedBody ext commit.body, encodeSignature ext commit.signature]

/-- INTERNAL: SRCLINE: mirage-manifest/src/commit.rs:95-107 -/
def encodeCommit (commit : RepositoryCommit) : Except MirageError (List UInt8) := do
  validateBody commit.body
  commit.signature.validateShape
  .ok (encodeCommitInner ext commit)

/-- INTERNAL: SRCLINE: mirage-manifest/src/commit.rs:109-112 -/
def commitHash (commit : RepositoryCommit) : Except MirageError CommitHash := do
  let bytes ← encodeCommit ext commit
  .ok (ext.blake3 bytes)

end Encoding

/-! ## Chains -/

/-- INTERNAL: the check of a signature over the bytes of a body.
SRCLINE: mirage-manifest/src/signature.rs:56-62 -/
abbrev CommitVerifier := List UInt8 → SignatureEnvelope → Except MirageError Unit

/-- INTERNAL: SRCLINE: mirage-manifest/src/commit.rs:56-63 -/
def validateCommit (ext : CommitExternals) (verifier : CommitVerifier) (commit : RepositoryCommit) :
    Except MirageError Unit := do
  validateBody commit.body
  commit.signature.validateShape
  verifier (encodeUnsignedBody ext commit.body) commit.signature

/-- INTERNAL: SRCLINE: mirage-manifest/src/chain.rs:54-82 -/
def validateLink (ext : CommitExternals) (verifier : CommitVerifier)
    (parent child : RepositoryCommit) : Except MirageError Unit := do
  validateCommit ext verifier parent
  validateCommit ext verifier child
  ensure (parent.body.repositoryId = child.body.repositoryId)
    (.repositoryConflict "commit link crosses repository identities")
  let expectedSequence ← someOr (checkedAdd parent.body.sequence.toNat 1)
    (.repositoryConflict "commit sequence overflows")
  ensure (child.body.sequence.toNat = expectedSequence)
    (.repositoryConflict "commit sequence does not increment by exactly one")
  let hash ← commitHash ext parent
  ensure (child.body.parentCommit = some hash)
    (.repositoryConflict "commit parent hash does not match canonical parent bytes")

/-- INTERNAL: SRCLINE: mirage-manifest/src/chain.rs:10-14 -/
structure ChainConflict where
  parent : CommitHash
  children : List CommitHash
  deriving DecidableEq, Repr

/-- INTERNAL: SRCLINE: mirage-manifest/src/chain.rs:16-23 -/
inductive ChainValidationError where
  | invalid (error : MirageError)
  | conflict (error : MirageError) (metadata : ChainConflict)
  deriving DecidableEq, Repr

section Chain

variable (ext : CommitExternals) (verifier : CommitVerifier) (candidates : List RepositoryCommit)

/-- INTERNAL: the candidates that name this parent, in their order, that pass as its children.
SRCLINE: mirage-manifest/src/chain.rs:92-110 -/
def validChildren (current : RepositoryCommit) (currentHash : CommitHash) :
    List RepositoryCommit :=
  (candidates.filter fun candidate => candidate.body.parentCommit = some currentHash).filter
    fun child => validateLink ext verifier current child = .ok ()

/-- INTERNAL: the loop from the last commit of the chain on.
SRCLINE: mirage-manifest/src/chain.rs:99-129 -/
def extendChain : Nat → List RepositoryCommit → RepositoryCommit →
    Except ChainValidationError (List RepositoryCommit)
  | 0, _, _ => .error (.invalid (.internalInvariant "commit chain does not end"))
  | fuel + 1, chain, current => do
    let currentHash ← (commitHash ext current).mapError .invalid
    match validChildren ext verifier candidates current currentHash with
    | [] => .ok chain
    | [child] => extendChain fuel (chain ++ [child]) child
    | children => do
      let hashes ← (children.mapM (commitHash ext)).mapError .invalid
      .error (.conflict
        (.repositoryConflict "multiple valid commits descend from one trusted parent")
        ⟨currentHash, hashes.insertionSort fun a b => a.toNat ≤ b.toNat⟩)

/-- INTERNAL: SRCLINE: mirage-manifest/src/chain.rs:84-130 -/
def selectHighestValidChain (trustRoot : RepositoryCommit) :
    Except ChainValidationError (List RepositoryCommit) := do
  (validateCommit ext verifier trustRoot).mapError .invalid
  extendChain ext verifier candidates (candidates.length + 1) [trustRoot] trustRoot

end Chain

end Commit

end Mirage.Model
