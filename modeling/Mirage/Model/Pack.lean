import Mirage.Computation.Checks
import Mirage.Computation.HashTree
import Mirage.Computation.Table
import Mirage.Model.ByteFields

/-!
# Encrypted frames and packs

`mirage-pack/src/encrypted_frame.rs`: a page is sealed under the repository key with its
place and its identity as associated data.  The digest, the checksum and the cipher come
from outside the repository; a nonce is what the operating system returned, if anything.
-/

set_option autoImplicit false

namespace Mirage.Model

open Mirage.Computation

/-- INTERNAL: `RepositoryKey`. -/
abbrev RepositoryKey := BitVec 256

/-- INTERNAL: the functions of `blake3`, `crc32fast` and `chacha20poly1305`; the cipher
takes key, nonce, text and associated data. -/
structure PackExternals where
  blake3 : List UInt8 → BitVec 256
  crc32 : List UInt8 → BitVec 32
  encrypt : RepositoryKey → BitVec 192 → List UInt8 → List UInt8 → Option (List UInt8)
  decrypt : RepositoryKey → BitVec 192 → List UInt8 → List UInt8 → Option (List UInt8)

/-- INTERNAL: SRCLINE: mirage-pack/src/encrypted_frame.rs:7-14 -/
structure EncryptedFrameAad where
  repository : RepositoryId
  packId : BitVec 128
  frameIndex : Nat
  plaintextHash : PageHash
  plaintextLength : Nat
  deriving DecidableEq, Repr

/-- INTERNAL: `MirageSSD encrypted frame v1` and a zero byte. -/
def encryptedFrameDomain : List UInt8 :=
  "MirageSSD encrypted frame v1".toList.map (fun c => UInt8.ofNat c.toNat) ++ [0]

/-- INTERNAL: SRCLINE: mirage-pack/src/encrypted_frame.rs:15-26 -/
def EncryptedFrameAad.encode (aad : EncryptedFrameAad) : List UInt8 :=
  encryptedFrameDomain ++ (idBytes aad.repository ++ (idBytes aad.packId ++
    (leBytes 8 aad.frameIndex ++ (hashBytes aad.plaintextHash ++
      leBytes 4 aad.plaintextLength))))

/-- INTERNAL: `MENCv001`. -/
def encryptedFrameMagic : List UInt8 := [0x4d, 0x45, 0x4e, 0x43, 0x76, 0x30, 0x30, 0x31]

/-- INTERNAL: `PREFIX_LENGTH`. -/
def encryptedPrefixLength : Nat := 12 + 16 + 24

/-- INTERNAL: `RepositoryKey::seal`.
SRCLINE: mirage-crypto/src/aead.rs:26-46 -/
def sealBytes (ext : PackExternals) (key : RepositoryKey) (nonce : Option (BitVec 192))
    (plaintext aad : List UInt8) : Except MirageError (BitVec 192 × List UInt8) := do
  let nonce ← someOr nonce (.internalInvariant "OS randomness unavailable")
  let ciphertext ← someOr (ext.encrypt key nonce plaintext aad)
    (.internalInvariant "page encryption failed")
  pure (nonce, ciphertext)

/-- INTERNAL: the parts of an encrypted frame. -/
def encryptedFrameFields (packId : BitVec 128) (nonce : BitVec 192) (ciphertext : List UInt8) :
    List (List UInt8) :=
  [encryptedFrameMagic, leBytes 4 ciphertext.length, idBytes packId, beBytes 24 nonce.toNat,
    ciphertext]

/-- INTERNAL: the length in the associated data is the one of the plaintext, not the one
given.
SRCLINE: mirage-pack/src/encrypted_frame.rs:28-51 -/
def encodeEncryptedFrame (ext : PackExternals) (key : RepositoryKey)
    (nonce : Option (BitVec 192)) (plaintext : List UInt8) (aad : EncryptedFrameAad) :
    Except MirageError (List UInt8) := do
  ensure (plaintext.length < 2 ^ 32)
    (.invalidArgument "encrypted frame plaintext is oversized")
  let aad := { aad with plaintextLength := plaintext.length }
  ensure (ext.blake3 plaintext = aad.plaintextHash)
    (.integrityMismatch "encrypted frame plaintext hash disagrees with metadata")
  let (nonce, ciphertext) ← sealBytes ext key nonce plaintext aad.encode
  ensure (ciphertext.length < 2 ^ 32)
    (.invalidArgument "encrypted frame ciphertext is oversized")
  pure (encryptedFrameFields aad.packId nonce ciphertext).flatten

/-- INTERNAL: SRCLINE: mirage-pack/src/encrypted_frame.rs:53-83 -/
def decodeEncryptedFrame (ext : PackExternals) (key : RepositoryKey) (frame : List UInt8)
    (aad : EncryptedFrameAad) : Except MirageError (List UInt8) := do
  ensure (encryptedPrefixLength ≤ frame.length ∧ slice frame 0 8 = encryptedFrameMagic)
    (.integrityMismatch "encrypted frame header is invalid")
  ensure (fromLeBytes (slice frame 8 4) = frame.length - encryptedPrefixLength)
    (.integrityMismatch "encrypted frame length is invalid")
  ensure (slice frame 12 16 = idBytes aad.packId)
    (.integrityMismatch "encrypted frame pack identity is invalid")
  let nonce := BitVec.ofNat 192 (fromBeBytes (slice frame 28 24))
  let plaintext ← someOr
    (ext.decrypt key nonce (frame.drop encryptedPrefixLength) aad.encode)
    (.integrityMismatch "encrypted page authentication failed")
  ensure (plaintext.length = aad.plaintextLength ∧ ext.blake3 plaintext = aad.plaintextHash)
    (.integrityMismatch "decrypted frame identity is invalid")
  pure plaintext

/-!
## Packs

The immutable pack files of `mirage-pack`: header, frames, index and footer, the writer
that appends pages and finishes the file, and the reader that verifies the file and
returns pages.  A file is the list of its bytes; writes and reads of the file succeed.
-/

/-- INTERNAL: SRCLINE: mirage-pack/src/page.rs:4-9 -/
structure PlainPage where
  hash : PageHash
  logicalLen : Nat
  bytes : List UInt8
  deriving DecidableEq, Repr

/-- INTERNAL: `PACK_HEADER_LEN`, `FRAME_HEADER_LEN` and `INDEX_ENTRY_LEN`. -/
def packHeaderLen : Nat := 64

def frameHeaderLen : Nat := 64

def indexEntryLen : Nat := 64

def footerLen : Nat := 128

def maxEncodedFrameLen : Nat := 16 * 1024 * 1024

def zeros (n : Nat) : List UInt8 := List.replicate n 0

/-- INTERNAL: `u32::is_power_of_two`. -/
def isPowerOfTwo (n : Nat) : Prop := n ≠ 0 ∧ 2 ^ n.log2 = n

instance (n : Nat) : Decidable (isPowerOfTwo n) := by
  unfold isPowerOfTwo
  infer_instance

/-- INTERNAL: the page sizes of a pack.
SRCLINE: mirage-pack/src/format.rs:72-74, writer.rs:301-302 -/
def validPageSize (pageSize : Nat) : Prop :=
  64 * 1024 ≤ pageSize ∧ pageSize ≤ 16 * 1024 * 1024 ∧ isPowerOfTwo pageSize

instance (pageSize : Nat) : Decidable (validPageSize pageSize) := by
  unfold validPageSize
  infer_instance

/-! ## Plain frames -/

/-- INTERNAL: `MPF1`. -/
def frameMagic : List UInt8 := [0x4d, 0x50, 0x46, 0x31]

/-- INTERNAL: the parts of a frame that its checksum covers.
SRCLINE: mirage-pack/src/frame.rs:36-42 -/
def frameHead (page : PlainPage) : List (List UInt8) :=
  [frameMagic, leBytes 2 1, zeros 2, hashBytes page.hash, leBytes 4 page.logicalLen,
    leBytes 4 page.logicalLen, [0], zeros 1, zeros 2]

/-- INTERNAL: SRCLINE: mirage-pack/src/frame.rs:18-47 -/
def encodePlainFrame (ext : PackExternals) (page : PlainPage) :
    Except MirageError (List UInt8) := do
  ensure (page.bytes.length = page.logicalLen ∧ page.logicalLen ≠ 0)
    (.invalidArgument "plain page length is inconsistent")
  ensure (page.logicalLen ≤ maxEncodedFrameLen)
    (.invalidArgument "plain page exceeds the frame bound")
  ensure (ext.blake3 page.bytes = page.hash)
    (.integrityMismatch "plain page hash does not match its bytes")
  let checksum := ext.crc32 (frameHead page).flatten
  pure (frameHead page ++ [leBytes 4 checksum.toNat, zeros 8, page.bytes]).flatten

/-- INTERNAL: SRCLINE: mirage-pack/src/frame.rs:48-112 -/
def decodePlainFrame (ext : PackExternals) (bytes : List UInt8) : Except MirageError PlainPage := do
  ensure (frameHeaderLen ≤ bytes.length ∧ slice bytes 0 4 = frameMagic)
    (.manifestInvalid "frame magic or length is invalid")
  let version ← readU16 bytes 4
  ensure (version = 1) (.unsupportedLayout "frame version is unsupported")
  let flags ← readU16 bytes 6
  let reserved ← readU16 bytes 50
  let tail ← takeField 12 bytes 52
  ensure (flags = 0 ∧ slice bytes 49 1 = [0] ∧ reserved = 0 ∧ tail.drop 4 = zeros 8)
    (.unsupportedLayout "frame flags, encryption metadata, or reserved bytes are unsupported")
  let checksum ← readU32 bytes 52
  ensure (checksum = (ext.crc32 (bytes.take 52)).toNat)
    (.integrityMismatch "frame header checksum is invalid")
  let logicalLen ← readU32 bytes 40
  let encodedLen ← readU32 bytes 44
  ensure (logicalLen ≠ 0 ∧ encodedLen ≠ 0 ∧ encodedLen ≤ maxEncodedFrameLen ∧
      encodedLen = logicalLen)
    (.manifestInvalid "frame lengths are invalid for codec none")
  ensure (slice bytes 48 1 = [0]) (.unsupportedLayout "frame codec is unsupported")
  ensure (frameHeaderLen + encodedLen = bytes.length)
    (.manifestInvalid "frame payload length does not match its range")
  let expected ← takeField 32 bytes 8
  let payload := bytes.drop frameHeaderLen
  ensure (hashBytes (ext.blake3 payload) = expected)
    (.integrityMismatch "frame plaintext hash is invalid")
  pure ⟨hashOfBytes expected, logicalLen, payload⟩

/-! ## Index entries -/

/-- INTERNAL: the codec of every entry is `Codec::None`.
SRCLINE: mirage-pack/src/index.rs:7-16 -/
structure PackEntry where
  pageHash : PageHash
  frameOffset : Nat
  frameLength : Nat
  logicalLength : Nat
  encodedLength : Nat
  encrypted : Bool
  deriving DecidableEq, Repr

/-- INTERNAL: SRCLINE: mirage-pack/src/index.rs:20-30 -/
def PackEntry.fields (entry : PackEntry) : List (List UInt8) :=
  [hashBytes entry.pageHash, leBytes 8 entry.frameOffset, leBytes 8 entry.frameLength,
    leBytes 4 entry.logicalLength, leBytes 4 entry.encodedLength, [0],
    [if entry.encrypted then 1 else 0], zeros 6]

def PackEntry.encode (entry : PackEntry) : List UInt8 := entry.fields.flatten

/-- INTERNAL: the bytes of a frame around its payload. -/
def frameOverhead (encrypted : Bool) : Nat := if encrypted then 68 else 64

/-- INTERNAL: SRCLINE: mirage-pack/src/index.rs:32-66 -/
def PackEntry.decode (bytes : List UInt8) : Except MirageError PackEntry := do
  ensure (bytes.length = indexEntryLen ∧ (slice bytes 57 1 = [0] ∨ slice bytes 57 1 = [1]))
    (.manifestInvalid "pack index entry is malformed")
  let reserved ← takeField 6 bytes 58
  ensure (reserved = zeros 6) (.manifestInvalid "pack index entry is malformed")
  ensure (slice bytes 56 1 = [0]) (.unsupportedLayout "pack index codec is unsupported")
  let pageHash ← takeField 32 bytes 0
  let frameOffset ← readU64 bytes 32
  let frameLength ← readU64 bytes 40
  let logicalLength ← readU32 bytes 48
  let encodedLength ← readU32 bytes 52
  let encrypted := slice bytes 57 1 ≠ [0]
  ensure (frameLength = saturatingAdd (frameOverhead encrypted) encodedLength ∧
      logicalLength ≠ 0 ∧ encodedLength ≠ 0)
    (.manifestInvalid "pack index lengths are inconsistent")
  pure ⟨hashOfBytes pageHash, frameOffset, frameLength, logicalLength, encodedLength, encrypted⟩

/-- INTERNAL: SRCLINE: mirage-pack/src/index.rs:68-74 -/
def encodeIndex (entries : List PackEntry) : List UInt8 := (entries.map PackEntry.encode).flatten

/-- INTERNAL: SRCLINE: mirage-pack/src/index.rs:76-99 -/
def decodeIndex (bytes : List UInt8) (count : Nat) : Except MirageError (List PackEntry) := do
  ensure (count * indexEntryLen ≤ u64Max) (.manifestInvalid "pack index count overflows")
  ensure (bytes.length = count * indexEntryLen)
    (.manifestInvalid "pack index length is inconsistent")
  let entries ← (List.range count).mapM fun i =>
    PackEntry.decode (slice bytes (i * indexEntryLen) indexEntryLen)
  ensure ((entries.zip entries.tail).all fun pair => pair.1.pageHash < pair.2.pageHash)
    (.manifestInvalid "pack index is not strictly hash-sorted")
  pure entries

/-! ## Header and footer -/

/-- INTERNAL: SRCLINE: mirage-pack/src/format.rs:14-22 -/
structure PackHeader where
  pageSize : Nat
  indexOffset : Nat
  indexLength : Nat
  entryCount : Nat
  encrypted : Bool
  packId : BitVec 128
  deriving DecidableEq, Repr

/-- INTERNAL: `MRGPACK1`. -/
def packMagic : List UInt8 := [0x4d, 0x52, 0x47, 0x50, 0x41, 0x43, 0x4b, 0x31]

/-- INTERNAL: the parts of a header that its checksum covers. -/
def PackHeader.head (header : PackHeader) : List (List UInt8) :=
  [packMagic, leBytes 4 1, leBytes 4 (if header.encrypted then 1 else 0),
    leBytes 4 header.pageSize, (idBytes header.packId).take 4, leBytes 8 header.indexOffset,
    leBytes 8 header.indexLength, leBytes 8 header.entryCount]

/-- INTERNAL: SRCLINE: mirage-pack/src/format.rs:26-40 -/
def PackHeader.encode (ext : PackExternals) (header : PackHeader) : List UInt8 :=
  (header.head ++ [leBytes 4 (ext.crc32 header.head.flatten).toNat,
    (idBytes header.packId).drop 4]).flatten

/-- INTERNAL: SRCLINE: mirage-pack/src/format.rs:42-84 -/
def PackHeader.decode (ext : PackExternals) (bytes : List UInt8) :
    Except MirageError PackHeader := do
  ensure (bytes.length = packHeaderLen ∧ slice bytes 0 8 = packMagic)
    (.manifestInvalid "pack header magic or length is invalid")
  let version ← readU32 bytes 8
  ensure (version = 1) (.unsupportedLayout "pack version is unsupported")
  let checksum ← readU32 bytes 48
  ensure (checksum = (ext.crc32 (bytes.take 48)).toNat)
    (.integrityMismatch "pack header checksum or reserved bytes are invalid")
  let pageSize ← readU32 bytes 16
  let flags ← readU32 bytes 12
  ensure (flags = 0 ∨ flags = 1) (.unsupportedLayout "pack encryption flags are unsupported")
  let packId := idOfBytes (slice bytes 20 4 ++ slice bytes 52 12)
  ensure (¬ ((flags = 1 ∧ packId = 0) ∨ (flags = 0 ∧ packId ≠ 0)))
    (.integrityMismatch "pack identity and encryption policy disagree")
  ensure (validPageSize pageSize) (.manifestInvalid "pack page size is invalid")
  let indexOffset ← readU64 bytes 24
  let indexLength ← readU64 bytes 32
  let entryCount ← readU64 bytes 40
  pure ⟨pageSize, indexOffset, indexLength, entryCount, flags = 1, packId⟩

/-- INTERNAL: SRCLINE: mirage-pack/src/footer.rs:8-13 -/
structure PackFooter where
  indexHash : BitVec 256
  contentHash : BitVec 256
  packLength : Nat
  deriving DecidableEq, Repr

/-- INTERNAL: `MRGPFTR1`. -/
def footerMagic : List UInt8 := [0x4d, 0x52, 0x47, 0x50, 0x46, 0x54, 0x52, 0x31]

/-- INTERNAL: the parts of a footer that its checksum covers. -/
def PackFooter.head (footer : PackFooter) : List (List UInt8) :=
  [footerMagic, leBytes 4 1, zeros 4, hashBytes footer.indexHash, hashBytes footer.contentHash,
    leBytes 8 footer.packLength]

/-- INTERNAL: SRCLINE: mirage-pack/src/footer.rs:17-27 -/
def PackFooter.encode (ext : PackExternals) (footer : PackFooter) : List UInt8 :=
  (footer.head ++ [leBytes 4 (ext.crc32 footer.head.flatten).toNat, zeros 36]).flatten

/-- INTERNAL: SRCLINE: mirage-pack/src/footer.rs:29-53 -/
def PackFooter.decode (ext : PackExternals) (bytes : List UInt8) :
    Except MirageError PackFooter := do
  ensure (bytes.length = footerLen ∧ slice bytes 0 8 = footerMagic)
    (.manifestInvalid "pack footer magic or length is invalid")
  let version ← readU32 bytes 8
  ensure (version = 1) (.unsupportedLayout "pack footer version is unsupported")
  let flags ← takeField 4 bytes 12
  let reserved ← takeField 36 bytes 92
  let checksum ← readU32 bytes 88
  ensure (flags = zeros 4 ∧ reserved = zeros 36 ∧
      checksum = (ext.crc32 (bytes.take 88)).toNat)
    (.integrityMismatch "pack footer checksum or reserved bytes are invalid")
  let indexHash ← takeField 32 bytes 16
  let contentHash ← takeField 32 bytes 48
  let packLength ← readU64 bytes 80
  pure ⟨hashOfBytes indexHash, hashOfBytes contentHash, packLength⟩

/-! ## Reading -/

/-- INTERNAL: repository and key. -/
structure PackEncryption where
  repositoryId : RepositoryId
  key : RepositoryKey
  deriving DecidableEq, Repr

/-- INTERNAL: a reader and the bytes of its file.
SRCLINE: mirage-pack/src/reader.rs:17-25 -/
structure PackReader where
  file : List UInt8
  objectHash : Option (BitVec 256)
  entries : List PackEntry
  encrypted : Bool
  packId : BitVec 128
  encryption : Option PackEncryption
  deriving DecidableEq, Repr

/-- INTERNAL: one entry, with the end of the frame before it.
SRCLINE: mirage-pack/src/reader.rs:303-318 -/
def validateEntry (indexOffset pageSize previousEnd : Nat) (entry : PackEntry) :
    Except MirageError Nat := do
  let frameEnd ← someOr (checkedAdd entry.frameOffset entry.frameLength)
    (.manifestInvalid "pack frame range overflows")
  ensure (previousEnd ≤ entry.frameOffset ∧ frameEnd ≤ indexOffset ∧
      entry.logicalLength ≤ pageSize)
    (.manifestInvalid "pack frame ranges overlap or exceed content")
  pure frameEnd

/-- INTERNAL: SRCLINE: mirage-pack/src/reader.rs:299-323 -/
def validateEntries (entries : List PackEntry) (indexOffset pageSize : Nat) :
    Except MirageError Unit := do
  let physical := entries.insertionSort fun a b => a.frameOffset ≤ b.frameOffset
  let _ ← physical.foldlM (validateEntry indexOffset pageSize) packHeaderLen
  pure ()

/-- INTERNAL: SRCLINE: mirage-pack/src/reader.rs:60-135 -/
def PackReader.openInner (ext : PackExternals) (file : List UInt8)
    (encryption : Option PackEncryption) (verifyContent : Bool) :
    Except MirageError PackReader := do
  ensure (packHeaderLen + footerLen ≤ file.length)
    (.manifestInvalid "pack is shorter than its fixed structures")
  let header ← PackHeader.decode ext (file.take packHeaderLen)
  let footer ← PackFooter.decode ext (file.drop (file.length - footerLen))
  ensure (footer.packLength = file.length ∧ packHeaderLen ≤ header.indexOffset ∧
      checkedAdd header.indexOffset header.indexLength = some (file.length - footerLen))
    (.manifestInvalid "pack header, footer, and file length disagree")
  let indexBytes := slice file header.indexOffset header.indexLength
  ensure (ext.blake3 indexBytes = footer.indexHash)
    (.integrityMismatch "pack index hash is invalid")
  ensure (verifyContent →
      ext.blake3 (file.take (file.length - footerLen)) = footer.contentHash)
    (.integrityMismatch "pack content hash is invalid")
  let entries ← decodeIndex indexBytes header.entryCount
  validateEntries entries header.indexOffset header.pageSize
  ensure (entries.all fun entry => entry.encrypted = header.encrypted)
    (.integrityMismatch "pack header and frame encryption flags disagree")
  pure ⟨file, if verifyContent then some (ext.blake3 file) else none, entries,
    header.encrypted, header.packId, encryption⟩

/-- INTERNAL: `open_verified` and `open_verified_encrypted`.
SRCLINE: mirage-pack/src/reader.rs:33-43 -/
def PackReader.openVerified (ext : PackExternals) (file : List UInt8)
    (encryption : Option PackEncryption) : Except MirageError PackReader :=
  PackReader.openInner ext file encryption true

/-- INTERNAL: the entry of a page; `binary_search_by_key` on entries that were checked to be
strictly sorted.
SRCLINE: mirage-pack/src/reader.rs:164-169 -/
def PackReader.lookup (reader : PackReader) (hash : PageHash) : Option PackEntry :=
  reader.entries.find? fun entry => entry.pageHash = hash

/-- INTERNAL: SRCLINE: mirage-pack/src/reader.rs:266-297 -/
def decodeEntryFrame (ext : PackExternals) (frame : List UInt8) (entry : PackEntry)
    (encryption : Option PackEncryption) (packId : BitVec 128) : Except MirageError PlainPage :=
  if entry.encrypted then do
    let encryption ← someOr encryption
      ⟨.backendUnauthenticated, "encrypted pack requires its repository key"⟩
    let plaintext ← decodeEncryptedFrame ext encryption.key frame
      ⟨encryption.repositoryId, packId, entry.frameOffset, entry.pageHash, entry.logicalLength⟩
    pure ⟨entry.pageHash, entry.logicalLength, plaintext⟩
  else decodePlainFrame ext frame

/-- INTERNAL: SRCLINE: mirage-pack/src/reader.rs:171-207 -/
def PackReader.readPage (ext : PackExternals) (reader : PackReader) (hash : PageHash) :
    Except MirageError PlainPage := do
  let entry ← someOr (reader.lookup hash)
    ⟨.remoteObjectMissing, "page is absent from immutable pack"⟩
  ensure (entry.frameOffset + entry.frameLength ≤ reader.file.length)
    (.io "failed to fill whole buffer")
  let page ← decodeEntryFrame ext (slice reader.file entry.frameOffset entry.frameLength) entry
    reader.encryption reader.packId
  ensure (page.hash = hash) (.integrityMismatch "decoded frame hash differs from index")
  pure page

/-! ## Writing -/

/-- INTERNAL: SRCLINE: mirage-pack/src/writer.rs:19-24 -/
structure PackWriterOptions where
  pageSize : Nat
  targetSize : Nat
  alignFrames4k : Bool
  deriving DecidableEq, Repr

/-- INTERNAL: a writer and the bytes of its temporary file.
SRCLINE: mirage-pack/src/writer.rs:60-70 -/
structure PackWriter where
  file : List UInt8
  options : PackWriterOptions
  entries : List PackEntry
  known : Table PageHash PackEntry
  position : Nat
  encryption : Option PackEncryption
  packId : BitVec 128
  deriving DecidableEq, Repr

/-- INTERNAL: SRCLINE: mirage-pack/src/writer.rs:300-311 -/
def validateOptions (options : PackWriterOptions) : Except MirageError Unit :=
  ensure (validPageSize options.pageSize ∧ options.pageSize + 4096 ≤ options.targetSize)
    (.invalidArgument "pack writer options are invalid")

/-- INTERNAL: `writerId` is the random identity, if the operating system gave one.
SRCLINE: mirage-pack/src/writer.rs:88-126 -/
def PackWriter.create (options : PackWriterOptions) (encryption : Option PackEncryption)
    (writerId : Option (BitVec 128)) : Except MirageError PackWriter := do
  validateOptions options
  let writerId ← someOr writerId (.internalInvariant "secure pack ID generation failed")
  pure ⟨zeros packHeaderLen, options, [], .empty, packHeaderLen, encryption,
    if encryption.isSome then writerId else 0⟩

/-- INTERNAL: SRCLINE: mirage-pack/src/writer.rs:313-318 -/
def alignUp (value alignment : Nat) : Except MirageError Nat := do
  let sum ← someOr (checkedAdd value (alignment - 1))
    (.invalidArgument "pack alignment overflows")
  pure (sum / alignment * alignment)

/-- INTERNAL: SRCLINE: mirage-pack/src/writer.rs:142-146 -/
def PackWriter.alignedPosition (w : PackWriter) : Except MirageError Nat :=
  if w.options.alignFrames4k then alignUp w.position 4096 else .ok w.position

/-- INTERNAL: SRCLINE: mirage-pack/src/writer.rs:147-163 -/
def PackWriter.encodeFrame (ext : PackExternals) (w : PackWriter) (page : PlainPage)
    (aligned : Nat) (nonce : Option (BitVec 192)) : Except MirageError (List UInt8) :=
  match w.encryption with
  | some encryption =>
    encodeEncryptedFrame ext encryption.key nonce page.bytes
      ⟨encryption.repositoryId, w.packId, aligned, page.hash, page.logicalLen⟩
  | none => encodePlainFrame ext page

/-- INTERNAL: a page that is not known yet.
SRCLINE: mirage-pack/src/writer.rs:137-189 -/
def PackWriter.appendFresh (ext : PackExternals) (w : PackWriter) (page : PlainPage)
    (nonce : Option (BitVec 192)) : Except MirageError (PackEntry × PackWriter) := do
  ensure (page.logicalLen ≤ w.options.pageSize)
    (.invalidArgument "page exceeds the pack page size")
  let aligned ← w.alignedPosition
  let frame ← w.encodeFrame ext page aligned nonce
  let frameEnd ← someOr (checkedAdd aligned frame.length)
    (.invalidArgument "pack length overflows")
  ensure (w.entries = [] ∨ frameEnd ≤ w.options.targetSize)
    (.cacheFull "pack target size reached; finish and roll over")
  let entry : PackEntry := ⟨page.hash, aligned, frame.length, page.logicalLen, page.logicalLen,
    w.encryption.isSome⟩
  pure (entry,
    { w with
      file := w.file ++ (zeros (aligned - w.position) ++ frame)
      position := frameEnd
      entries := w.entries ++ [entry]
      known := w.known.set page.hash entry })

/-- INTERNAL: SRCLINE: mirage-pack/src/writer.rs:128-189 -/
def PackWriter.appendPage (ext : PackExternals) (w : PackWriter) (page : PlainPage)
    (nonce : Option (BitVec 192)) : Except MirageError (PackEntry × PackWriter) :=
  match w.known.get page.hash with
  | some entry => do
    ensure (entry.logicalLength = page.logicalLen)
      (.integrityMismatch "duplicate page hash has a different logical length")
    pure (entry, w)
  | none => w.appendFresh ext page nonce

/-- INTERNAL: `sort_by_key` on the page hash. -/
def PackWriter.sortedEntries (w : PackWriter) : List PackEntry :=
  w.entries.insertionSort fun a b => a.pageHash ≤ b.pageHash

def PackWriter.header (w : PackWriter) : PackHeader :=
  ⟨w.options.pageSize, w.position, (encodeIndex w.sortedEntries).length, w.entries.length,
    w.encryption.isSome, w.packId⟩

/-- INTERNAL: the file before its footer: the header is written over the first bytes.
SRCLINE: mirage-pack/src/writer.rs:246-279 -/
def PackWriter.content (ext : PackExternals) (w : PackWriter) : List UInt8 :=
  w.header.encode ext ++ (w.file.drop packHeaderLen ++ encodeIndex w.sortedEntries)

/-- INTERNAL: the finished file.
SRCLINE: mirage-pack/src/writer.rs:280-293 -/
def PackWriter.packBytes (ext : PackExternals) (w : PackWriter) : List UInt8 :=
  let content := w.content ext
  content ++ PackFooter.encode ext
    ⟨ext.blake3 (encodeIndex w.sortedEntries), ext.blake3 content, content.length + footerLen⟩

/-- INTERNAL: a finished pack; `bytes` are those of the file at `path`, whose name is the
content hash.
SRCLINE: mirage-pack/src/writer.rs:52-58 -/
structure CompletedPack where
  bytes : List UInt8
  contentHash : BitVec 256
  byteLength : Nat
  entries : List PackEntry
  deriving DecidableEq, Repr

/-- INTERNAL: `existing` is the file at the final path, if there is one.
SRCLINE: mirage-pack/src/writer.rs:227-298 -/
def PackWriter.finish (ext : PackExternals) (w : PackWriter)
    (existing : BitVec 256 → Option (List UInt8)) : Except MirageError CompletedPack := do
  ensure (w.entries ≠ []) (.invalidArgument "cannot finish an empty pack")
  let contentLength ← someOr (checkedAdd w.position (encodeIndex w.sortedEntries).length)
    (.invalidArgument "pack content length overflows")
  let packLength ← someOr (checkedAdd contentLength footerLen)
    (.invalidArgument "pack file length overflows")
  let bytes := w.packBytes ext
  let contentHash := ext.blake3 bytes
  let _ ← PackReader.openVerified ext bytes none
  match existing contentHash with
  | some found => do
    let reader ← PackReader.openVerified ext found none
    ensure (reader.objectHash = some contentHash)
      (.integrityMismatch "existing immutable pack name has different content")
    pure ⟨found, contentHash, packLength, w.sortedEntries⟩
  | none => pure ⟨bytes, contentHash, packLength, w.sortedEntries⟩

end Mirage.Model
