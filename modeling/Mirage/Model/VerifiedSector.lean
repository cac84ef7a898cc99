import Mirage.Model.Pack

/-!
# Sectors of verified frames

`mirage-pack/src/verified_sector.rs`: a frame that was verified as a whole leaves behind the
values of the subtrees over its sectors, and a later read of one sector is verified with them.
The compressions of BLAKE3 and the key stream of XChaCha20 come from outside; a seek within a
frame does not reach the end of the stream.
-/

set_option autoImplicit false

namespace Mirage.Model

open Mirage.Computation

/-- INTERNAL: the tree of `blake3::hazmat` and the bytes of the key stream by their position. -/
structure SectorExternals extends PackExternals where
  tree : TreeHash (BitVec 256) UInt8
  keystream : RepositoryKey → BitVec 192 → Nat → UInt8

/-- INTERNAL: `VERIFIED_SECTOR_BYTES` and `MAX_VERIFIED_FRAME_BYTES`. -/
def verifiedSectorBytes : Nat := 64 * 1024

def maxVerifiedFrameBytes : Nat := 4 * 1024 * 1024

/-- INTERNAL: SRCLINE: mirage-pack/src/verified_sector.rs:169-171 -/
def invalidSector : MirageError :=
  .integrityMismatch "encrypted sector does not prove the published frame identity"

/-- INTERNAL: the header is an array.
SRCLINE: mirage-pack/src/verified_sector.rs:28-35 -/
structure FrameProofCatalog where
  header : List UInt8
  headerLength : header.length = encryptedPrefixLength
  root : BitVec 256
  total : Nat
  leaves : List (BitVec 256)
  repository : RepositoryId
  frameIndex : Nat
  deriving DecidableEq, Repr

/-- INTERNAL: `set_input_offset`, `update` and `finalize_non_root`; a chunk has `2 ^ 10` bytes. -/
def finalizeNonRoot (ext : SectorExternals) (offset : Nat) (bytes : List UInt8) : BitVec 256 :=
  subtreeValue ext.tree 10 offset bytes

/-- INTERNAL: `apply_keystream` behind a seek. -/
def applyKeystream (stream : Nat → UInt8) (start : Nat) (bytes : List UInt8) : List UInt8 :=
  bytes.mapIdx fun i byte => byte ^^^ stream (start + i)

/-- INTERNAL: `chunks(VERIFIED_SECTOR_BYTES)` by their indices. -/
def sectorCount (total : Nat) : Nat := (total + verifiedSectorBytes - 1) / verifiedSectorBytes

def sectorAt (plaintext : List UInt8) (offset : Nat) : List UInt8 :=
  slice plaintext offset verifiedSectorBytes

/-- INTERNAL: SRCLINE: mirage-pack/src/verified_sector.rs:44-75 -/
def learnVerifiedFrame (ext : SectorExternals) (key : RepositoryKey) (encoded : List UInt8)
    (aad : EncryptedFrameAad) : Except MirageError (List UInt8 × FrameProofCatalog) := do
  ensure (aad.plaintextLength ≤ maxVerifiedFrameBytes) invalidSector
  let plaintext ← decodeEncryptedFrame ext.toPackExternals key encoded aad
  let leaves := (List.range (sectorCount plaintext.length)).map fun index =>
    finalizeNonRoot ext (index * verifiedSectorBytes)
      (sectorAt plaintext (index * verifiedSectorBytes))
  if h : (encoded.take encryptedPrefixLength).length = encryptedPrefixLength then
    .ok (plaintext,
      { header := encoded.take encryptedPrefixLength
        headerLength := h
        root := aad.plaintextHash
        total := plaintext.length
        leaves := leaves
        repository := aad.repository
        frameIndex := aad.frameIndex })
  else .error invalidSector

/-- INTERNAL: SRCLINE: mirage-pack/src/verified_sector.rs:136-167 -/
def rebuild (tree : TreeHash (BitVec 256) UInt8) (leaves : List (BitVec 256))
    (start length selectedIndex : Nat) (selected : BitVec 256) (root : Bool) :
    Except MirageError (BitVec 256) :=
  if length ≤ verifiedSectorBytes then
    if start / verifiedSectorBytes = selectedIndex then .ok selected
    else someOr leaves[start / verifiedSectorBytes]? invalidSector
  else do
    let left ← rebuild tree leaves start (leftLength length) selectedIndex selected false
    let right ← rebuild tree leaves (start + leftLength length) (length - leftLength length)
      selectedIndex selected false
    pure (if root then tree.root (.parent left right) else tree.inner (.parent left right))
termination_by length
decreasing_by
  all_goals
    have hlong : 65536 < length := by
      unfold verifiedSectorBytes at *
      omega
    have hlt := leftLength_lt (show 1 < length by omega)
    have hpos := leftLength_pos length
    omega

/-- INTERNAL: the conditions on what the caller supplies.
SRCLINE: mirage-pack/src/verified_sector.rs:87-104 -/
def sectorRefused (catalog : FrameProofCatalog) (aad : EncryptedFrameAad) (offset : Nat)
    (ciphertext : List UInt8) : Prop :=
  aad.plaintextLength = 0 ∨ aad.plaintextLength > maxVerifiedFrameBytes ∨
    catalog.total ≠ aad.plaintextLength ∨ catalog.repository ≠ aad.repository ∨
    catalog.frameIndex ≠ aad.frameIndex ∨ catalog.root ≠ aad.plaintextHash ∨
    catalog.leaves.length ≠ sectorCount aad.plaintextLength ∨
    offset % verifiedSectorBytes ≠ 0 ∨ offset ≥ aad.plaintextLength ∨
    ciphertext.length ≠ min verifiedSectorBytes (aad.plaintextLength - offset) ∨
    slice catalog.header 0 8 ≠ encryptedFrameMagic ∨
    slice catalog.header 12 16 ≠ idBytes aad.packId ∨
    fromLeBytes (slice catalog.header 8 4) ≠ aad.plaintextLength + 16

instance (catalog : FrameProofCatalog) (aad : EncryptedFrameAad) (offset : Nat)
    (ciphertext : List UInt8) : Decidable (sectorRefused catalog aad offset ciphertext) := by
  unfold sectorRefused
  infer_instance

/-- INTERNAL: the bytes that the key stream makes of a sector; the AEAD takes the first block
of the stream for its own key.
SRCLINE: mirage-pack/src/verified_sector.rs:105-113 -/
def decryptSector (ext : SectorExternals) (key : RepositoryKey) (catalog : FrameProofCatalog)
    (offset : Nat) (ciphertext : List UInt8) : List UInt8 :=
  let nonce := BitVec.ofNat 192 (fromBeBytes (catalog.header.drop 28))
  applyKeystream (ext.keystream key nonce) (64 + offset) ciphertext

/-- INTERNAL: the digest of the frame with the sector in its place.
SRCLINE: mirage-pack/src/verified_sector.rs:114-129 -/
def frameDigest (ext : SectorExternals) (catalog : FrameProofCatalog) (total offset : Nat)
    (plaintext : List UInt8) : Except MirageError (BitVec 256) :=
  if total ≤ verifiedSectorBytes then .ok (ext.blake3 plaintext)
  else
    rebuild ext.tree catalog.leaves 0 total (offset / verifiedSectorBytes)
      (finalizeNonRoot ext offset plaintext) true

/-- INTERNAL: SRCLINE: mirage-pack/src/verified_sector.rs:80-134 -/
def decodeVerifiedSector (ext : SectorExternals) (key : RepositoryKey)
    (catalog : FrameProofCatalog) (aad : EncryptedFrameAad) (offset : Nat)
    (ciphertext : List UInt8) : Except MirageError (List UInt8) := do
  ensure (¬ sectorRefused catalog aad offset ciphertext) invalidSector
  let plaintext := decryptSector ext key catalog offset ciphertext
  let actual ← frameDigest ext catalog aad.plaintextLength offset plaintext
  ensure (actual = aad.plaintextHash) invalidSector
  pure plaintext

end Mirage.Model
