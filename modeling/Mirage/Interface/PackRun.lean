import Mirage.Model.VerifiedSector

/-!
# Runs of a pack writer

A writer takes any pages, one after the other, and finishes the file.  `Appended` is the
sequence of accepted pages; the laws of the cipher and the conditions on pages are stated
here, apart from the writer.  So are the laws behind reads of single sectors, and the nodes of
hash trees that such a read compresses.
-/

set_option autoImplicit false

namespace Mirage.Interface

open Mirage.Model Mirage.Computation

/-- INTERNAL: what was encrypted is decrypted, and the tag has 16 bytes. -/
structure CipherOk (ext : PackExternals) : Prop where
  inverts : ∀ {key nonce plaintext aad ciphertext},
    ext.encrypt key nonce plaintext aad = some ciphertext →
      ext.decrypt key nonce ciphertext aad = some plaintext
  length : ∀ {key nonce plaintext aad ciphertext},
    ext.encrypt key nonce plaintext aad = some ciphertext →
      ciphertext.length = plaintext.length + 16

/-- INTERNAL: the writer accepted these pages, in this order. -/
inductive Appended (ext : PackExternals) (w₀ : PackWriter) : List PlainPage → PackWriter → Prop
    where
  | start : Appended ext w₀ [] w₀
  | append {pages : List PlainPage} {w w' : PackWriter} {page : PlainPage}
      {nonce : Option (BitVec 192)} {entry : PackEntry} (run : Appended ext w₀ pages w)
      (ok : w.appendPage ext page nonce = .ok (entry, w')) : Appended ext w₀ (pages ++ [page]) w'

/-- INTERNAL: the page is named by its content, and a page that is to be encrypted is not
empty and says its length. -/
structure PageSound (ext : PackExternals) (encryption : Option PackEncryption)
    (page : PlainPage) : Prop where
  hash : ext.blake3 page.bytes = page.hash
  encrypted : encryption.isSome → page.bytes.length = page.logicalLen ∧ page.logicalLen ≠ 0

/-- INTERNAL: what is hashed: the pages, the finished file and the file found in its
place. -/
def hashedBytes (ext : PackExternals) (pages : List PlainPage) (w : PackWriter)
    (existing : BitVec 256 → Option (List UInt8)) : Set (List UInt8) :=
  {bytes | (∃ page ∈ pages, page.bytes = bytes) ∨ bytes = w.packBytes ext ∨
    existing (ext.blake3 (w.packBytes ext)) = some bytes}

/-! ## Sectors of frames -/

/-- INTERNAL: the digest is the value of the tree, and the cipher adds the key stream from its
second block on. -/
structure SectorsOk (ext : SectorExternals) : Prop where
  cipher : CipherOk ext.toPackExternals
  stream : ∀ {key nonce plaintext aad ciphertext},
    ext.encrypt key nonce plaintext aad = some ciphertext →
      ciphertext.take plaintext.length = applyKeystream (ext.keystream key nonce) 64 plaintext
  digest : ∀ bytes, ext.blake3 bytes = treeValue ext.tree 10 bytes

/-- INTERNAL: the nodes that a rebuilt tree compresses. -/
inductive RebuiltIn (tree : TreeHash (BitVec 256) UInt8) (leaves : List (BitVec 256))
    (selectedIndex : Nat) (selected : BitVec 256) :
    Nat → Nat → HashNode (BitVec 256) UInt8 → Prop
  | top {start length : Nat} {left right : BitVec 256} : verifiedSectorBytes < length →
      rebuild tree leaves start (leftLength length) selectedIndex selected false = .ok left →
      rebuild tree leaves (start + leftLength length) (length - leftLength length) selectedIndex
        selected false = .ok right →
      RebuiltIn tree leaves selectedIndex selected start length (.parent left right)
  | left {start length : Nat} {node : HashNode (BitVec 256) UInt8} :
      verifiedSectorBytes < length →
      RebuiltIn tree leaves selectedIndex selected start (leftLength length) node →
      RebuiltIn tree leaves selectedIndex selected start length node
  | right {start length : Nat} {node : HashNode (BitVec 256) UInt8} :
      verifiedSectorBytes < length →
      RebuiltIn tree leaves selectedIndex selected (start + leftLength length)
        (length - leftLength length) node →
      RebuiltIn tree leaves selectedIndex selected start length node

/-- INTERNAL: what is compressed for the digest of a plaintext and by one call that decodes a
sector, whatever it is given. -/
def nodesOfCall (ext : SectorExternals) (plaintext : List UInt8) (key : RepositoryKey)
    (catalog : FrameProofCatalog) (aad : EncryptedFrameAad) (offset : Nat)
    (ciphertext : List UInt8) : Set (HashNode (BitVec 256) UInt8) :=
  let found := decryptSector ext key catalog offset ciphertext
  {node | HashedIn ext.tree 10 0 plaintext node ∨ HashedIn ext.tree 10 offset found node ∨
    RebuiltIn ext.tree catalog.leaves (offset / verifiedSectorBytes)
      (finalizeNonRoot ext offset found) 0 aad.plaintextLength node}

end Mirage.Interface
