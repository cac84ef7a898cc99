import Mirage.Computation.Bisect
import Mirage.Computation.Codec
import Mirage.Model.SophonCleanup

/-!
# Sophon sources

A Sophon source serves the assets of publisher manifests.  Its nodes come from the manifests,
the bytes of a chunk from the memory cache, the disk cache, a seed or the server, and a read
copies chunks into a buffer.  What comes from a file or from the server is an input of
`loadChunk`, whatever it is.  The directory links of the nodes and the statistics, which no read
looks at, are left out.
-/

set_option autoImplicit false

namespace Mirage.Model

open Mirage.Computation

/-- INTERNAL: what the source takes from outside the repository. -/
structure SophonExternals where
  md5 : List UInt8 → List UInt8
  blake3 : String → ChunkKey
  lowercase : String → String
  urlAccepted : String → Bool
  zstd : List UInt8 → Option (List UInt8)

/-- INTERNAL: SRCLINE: mirage-ffi/src/sophon.rs:70-77 -/
structure SophonChunk where
  name : String
  md5 : String
  offset : Nat
  size : Nat
  dsize : Nat
  deriving DecidableEq, Repr

/-- INTERNAL: SRCLINE: mirage-ffi/src/sophon.rs:61-69 -/
structure SophonAsset where
  name : String
  size : Nat
  md5 : String
  chunks : List SophonChunk
  urlPrefix : String
  deriving DecidableEq, Repr

structure SophonManifest where
  chunkUrlPrefix : String
  assets : List SophonAsset
  deriving DecidableEq, Repr

/-- INTERNAL: the configuration with the manifests it names.
SRCLINE: mirage-ffi/src/sophon.rs:36-52 -/
structure SophonConfig where
  manifests : List SophonManifest
  exportPrefixes : List String
  exportFiles : List String
  memoryBudgetBytes : Nat
  deriving DecidableEq, Repr

structure SophonNode where
  name : String
  asset : Option SophonAsset
  deriving DecidableEq, Repr

/-! ## Names and digests -/

def deviceStems : List String :=
  ["CON", "PRN", "AUX", "NUL", "CLOCK$", "CONIN$", "CONOUT$", "COM1", "COM2", "COM3", "COM4",
    "COM5", "COM6", "COM7", "COM8", "COM9", "LPT1", "LPT2", "LPT3", "LPT4", "LPT5", "LPT6",
    "LPT7", "LPT8", "LPT9"]

/-- INTERNAL: a value without separators that does not end in a dot is one normal component.
SRCLINE: mirage-ffi/src/lib.rs:93-141 -/
def safeObjectId (value : String) : Bool :=
  let chars := value.toList
  !chars.isEmpty && value.utf8ByteSize ≤ 512 && !chars.any (fun c => c ∈ [':', '/', '\\']) &&
    chars.getLast?.all (fun c => c ∉ ['.', ' ']) &&
    String.ofList ((chars.takeWhile (· ≠ '.')).map Char.toUpper) ∉ deviceStems

/-- INTERNAL: SRCLINE: mirage-ffi/src/sophon.rs:127-133 -/
def validPath (name : String) : Bool :=
  let chars := name.toList
  !chars.isEmpty && name.utf8ByteSize ≤ 1024 &&
    !chars.any (fun c => c ∈ ['\\', '\x00', '<', '>', '"', '|', '?', '*']) &&
    !chars.any (fun c => c.toNat < 32 || 127 ≤ c.toNat && c.toNat < 160) &&
    ((chars.splitOn '/').map String.ofList).all safeObjectId

/-- INTERNAL: SRCLINE: mirage-ffi/src/sophon.rs:134-136 -/
def validMd5 (value : String) : Bool :=
  value.utf8ByteSize = 32 && value.toList.all fun c =>
    c.isDigit || 'a' ≤ c && c ≤ 'f' || 'A' ≤ c && c ≤ 'F'

/-- INTERNAL: `to_ascii_lowercase`. -/
def asciiLower (value : String) : List Char := value.toList.map Char.toLower

def hexText (digest : List UInt8) : List Char :=
  digest.flatMap fun b => [Nat.digitChar (b.toNat / 16), Nat.digitChar (b.toNat % 16)]

/-- INTERNAL: SRCLINE: mirage-ffi/src/sophon.rs:137-140 -/
def verified (ext : SophonExternals) (bytes : List UInt8) (chunk : SophonChunk) : Bool :=
  bytes.length = chunk.dsize && (hexText (ext.md5 bytes)).map Char.toLower = asciiLower chunk.md5

/-- INTERNAL: the source representation and the expected plaintext of a chunk. -/
structure ChunkIdentity where
  urlPrefix : String
  name : String
  md5 : List Char
  size : Nat
  dsize : Nat
  deriving DecidableEq, Repr

def identityOf (asset : SophonAsset) (chunk : SophonChunk) : ChunkIdentity :=
  ⟨asset.urlPrefix, chunk.name, asciiLower chunk.md5, chunk.size, chunk.dsize⟩

/-- INTERNAL: the text that is hashed. -/
def identityText (i : ChunkIdentity) : String :=
  let md5 := String.ofList i.md5
  s!"sophon-v1\x00{i.urlPrefix}\x00{i.name}\x00{md5}\x00{i.size}\x00{i.dsize}"

/-- INTERNAL: SRCLINE: mirage-ffi/src/sophon.rs:141-155 -/
def chunkKey (ext : SophonExternals) (asset : SophonAsset) (chunk : SophonChunk) : ChunkKey :=
  ext.blake3 (identityText (identityOf asset chunk))

/-! ## Opening a source -/

def maxChunk : Nat := 4 * 1024 * 1024

def maxCompressed : Nat := 8 * 1024 * 1024

/-- INTERNAL: a chunk begins where the one before it ends; the result is where it ends.
SRCLINE: mirage-ffi/src/sophon.rs:215-233 -/
def checkChunk (place : Nat) (chunk : SophonChunk) : Except MirageStatus Nat := do
  ensure (safeObjectId chunk.name = true ∧
    chunk.name.toList.all (fun c => c.isAlphanum || c == '_') = true ∧
    validMd5 chunk.md5 = true ∧ chunk.offset = place ∧ chunk.dsize ≠ 0 ∧
    chunk.dsize ≤ maxChunk ∧ chunk.size ≠ 0 ∧ chunk.size ≤ maxCompressed) .integrityFailure
  someOr (checkedAdd place chunk.dsize) .integrityFailure

/-- INTERNAL: SRCLINE: mirage-ffi/src/sophon.rs:211-236 -/
def checkAsset (asset : SophonAsset) : Except MirageStatus Unit := do
  ensure (validPath asset.name = true ∧ validMd5 asset.md5 = true) .integrityFailure
  let place ← asset.chunks.foldlM checkChunk 0
  ensure (place = asset.size) .integrityFailure

def SophonConfig.exports (config : SophonConfig) (asset : SophonAsset) : Bool :=
  config.exportPrefixes.any (fun p => p.toList.isPrefixOf asset.name.toList) ||
    asset.name ∈ config.exportFiles

/-- INTERNAL: `trim_end_matches('/')`. -/
def trimSlashes (value : String) : String :=
  String.ofList ((value.toList.reverse.dropWhile (· = '/')).reverse)

/-- INTERNAL: SRCLINE: mirage-ffi/src/sophon.rs:202-242 -/
def addAsset (ext : SophonExternals) (config : SophonConfig) (urlPrefix : String)
    (assets : List (String × SophonAsset)) (asset : SophonAsset) :
    Except MirageStatus (List (String × SophonAsset)) :=
  if config.exports asset = false then .ok assets
  else do
    checkAsset asset
    let key := ext.lowercase asset.name
    ensure (key ∉ assets.map Prod.fst) .integrityFailure
    return assets ++ [(key, { asset with urlPrefix := urlPrefix })]

def addManifest (ext : SophonExternals) (config : SophonConfig)
    (assets : List (String × SophonAsset)) (manifest : SophonManifest) :
    Except MirageStatus (List (String × SophonAsset)) := do
  ensure (ext.urlAccepted manifest.chunkUrlPrefix = true) .integrityFailure
  manifest.assets.foldlM (addAsset ext config (trimSlashes manifest.chunkUrlPrefix)) assets

/-- INTERNAL: the tree of nodes under their lower-case paths. -/
abbrev NodeTree := Table String (String × Option SophonAsset)

def addParent (ext : SophonExternals) (parts : List String) (tree : NodeTree) (depth : Nat) :
    Except MirageStatus NodeTree :=
  let name := "/".intercalate (parts.take depth)
  match tree.get (ext.lowercase name) with
  | none => .ok (tree.set (ext.lowercase name) (name, none))
  | some (_, none) => .ok tree
  | some (_, some _) => .error .integrityFailure

/-- INTERNAL: SRCLINE: mirage-ffi/src/sophon.rs:249-262 -/
def addNode (ext : SophonExternals) (tree : NodeTree) (entry : String × SophonAsset) :
    Except MirageStatus NodeTree := do
  let parts := (entry.2.name.toList.splitOn '/').map String.ofList
  let tree ← (List.range' 1 (parts.length - 1)).foldlM (addParent ext parts) tree
  ensure (tree.get entry.1 = none) .integrityFailure
  return tree.set entry.1 (entry.2.name, some entry.2)

/-- INTERNAL: the entries of a `BTreeMap` in their order. -/
def inOrder {α : Type} (entries : List (String × α)) : List (String × α) :=
  entries.insertionSort fun a b => ¬ b.1 < a.1

def SophonConfig.valid (config : SophonConfig) : Bool :=
  !config.manifests.isEmpty && !(config.exportPrefixes.isEmpty && config.exportFiles.isEmpty) &&
    config.exportFiles.all validPath && config.memoryBudgetBytes ≤ 256 * 1024 * 1024 &&
    config.exportPrefixes.all fun p =>
      p.toList.getLast? = some '/' && validPath (trimSlashes p)

/-- INTERNAL: the nodes of a source in the order of their indices.
SRCLINE: mirage-ffi/src/sophon.rs:158-284 -/
def openNodes (ext : SophonExternals) (config : SophonConfig) :
    Except MirageStatus (List SophonNode) := do
  ensure (config.valid = true) .invalidArgument
  let assets ← config.manifests.foldlM (addManifest ext config) []
  ensure (assets ≠ []) .integrityFailure
  let tree ← (inOrder assets).foldlM (addNode ext) (Table.empty.set "" ("", none))
  return (inOrder tree.entries).map fun entry => ⟨entry.2.1, entry.2.2⟩

/-! ## Loading a chunk -/

structure HttpResponse where
  status : Nat
  contentLength : Option Nat
  contentEncoding : Option String
  body : Option (List UInt8)
  deriving DecidableEq, Repr

/-- INTERNAL: what is found in the chunk's file of the disk cache, in the asset's files below the
seed roots, and what the server answers; `none` stands for what cannot be read. -/
structure LoadInputs where
  disk : Option (List UInt8)
  seeds : List (Option (List UInt8))
  response : Option HttpResponse
  deriving DecidableEq, Repr

/-- INTERNAL: SRCLINE: sophon/cache.rs:187-209 -/
def readDisk (ext : SophonExternals) (chunk : SophonChunk) (file : Option (List UInt8)) :
    Option (List UInt8) :=
  (file.map (List.take (chunk.dsize + 1))).filter fun bytes => verified ext bytes chunk

/-- INTERNAL: `read_exact` at the offset of the chunk.
SRCLINE: mirage-ffi/src/sophon.rs:536-565 -/
def readSeed (ext : SophonExternals) (chunk : SophonChunk) (file : Option (List UInt8)) :
    Option (List UInt8) :=
  (file.map fun content => slice content chunk.offset chunk.dsize).filter fun bytes =>
    bytes.length = chunk.dsize && verified ext bytes chunk

/-- INTERNAL: SRCLINE: mirage-ffi/src/sophon.rs:568-603 -/
def fetchChunk (ext : SophonExternals) (chunk : SophonChunk) (response : Option HttpResponse) :
    Except MirageStatus (List UInt8) := do
  let response ← someOr response .backendUnavailable
  ensure (response.status = 200 ∧ (response.contentLength.all (· = chunk.size)) = true ∧
    (response.contentEncoding.all (· = "identity")) = true) .integrityFailure
  let body ← someOr response.body .backendUnavailable
  let compressed := body.take (chunk.size + 1)
  ensure (compressed.length = chunk.size) .integrityFailure
  let decoded ← someOr (ext.zstd compressed) .integrityFailure
  let bytes := decoded.take (chunk.dsize + 1)
  ensure (verified ext bytes chunk = true) .integrityFailure
  return bytes

/-- INTERNAL: SRCLINE: mirage-ffi/src/sophon.rs:522-620 -/
def loadChunk (ext : SophonExternals) (chunk : SophonChunk) (inputs : LoadInputs) :
    Except MirageStatus (List UInt8) :=
  match readDisk ext chunk inputs.disk with
  | some bytes => .ok bytes
  | none =>
    match inputs.seeds.findSome? (readSeed ext chunk) with
    | some bytes => .ok bytes
    | none => fetchChunk ext chunk inputs.response

/-! ## Copying -/

/-- INTERNAL: the chunks that `[offset, finish)` meets.
SRCLINE: mirage-ffi/src/sophon.rs:425-428 -/
def selectChunks (asset : SophonAsset) (offset finish : Nat) : List SophonChunk :=
  let first := partitionPoint (fun c => c.offset + c.dsize ≤ offset) asset.chunks
  let last := partitionPoint (fun c => c.offset < finish) asset.chunks
  (asset.chunks.take last).drop first

/-- INTERNAL: `copy_from_slice` into a part of the output. -/
def writeAt (output : List UInt8) (place : Nat) (bytes : List UInt8) : List UInt8 :=
  output.take place ++ bytes ++ output.drop (place + bytes.length)

/-- INTERNAL: SRCLINE: mirage-ffi/src/sophon.rs:446-451 -/
def copyChunk (offset finish : Nat) (output : List UInt8) (chunk : SophonChunk)
    (bytes : List UInt8) : List UInt8 :=
  let start := max offset chunk.offset
  let stop := min finish (chunk.offset + chunk.dsize)
  writeAt output (start - offset) (slice bytes (start - chunk.offset) (stop - start))

/-- INTERNAL: the chunks of a wave are copied up to the first that failed. -/
def copyWave (offset finish : Nat) :
    List UInt8 → List (SophonChunk × Except MirageStatus (List UInt8)) →
      List UInt8 × Except MirageStatus Unit
  | output, [] => (output, .ok ())
  | output, (_, .error e) :: _ => (output, .error e)
  | output, (chunk, .ok bytes) :: rest =>
    copyWave offset finish (copyChunk offset finish output chunk bytes) rest

end Mirage.Model
