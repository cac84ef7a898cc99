import Mirage.Model.Namespace
import Mirage.Model.Pack

/-!
# Immutable objects and their references

The references of `mirage-backend/src/object.rs` and the encoding that signed documents give
them.  A `u64` is a `UInt64`.
-/

set_option autoImplicit false

namespace Mirage.Model

open Mirage.Computation

/-! ## Kinds of objects -/

/-- INTERNAL: SRCLINE: mirage-backend/src/object.rs:70-78 -/
inductive ObjectKind where
  | repositoryConfig
  | pack
  | manifest
  | commit
  | profile
  | payload
  deriving DecidableEq, Repr

/-- INTERNAL: SRCLINE: mirage-index/src/record.rs:284-293 -/
def ObjectKind.code : ObjectKind → UInt8
  | .repositoryConfig => 0
  | .pack => 1
  | .manifest => 2
  | .commit => 3
  | .profile => 4
  | .payload => 5

/-! ## References to objects -/

/-- INTERNAL: SRCLINE: mirage-backend/src/object.rs:53-57 -/
def validBackendId (value : NameText) : Bool :=
  value.all fun c => c.isLower || c.isDigit || c = '-' || c = '_' || c = '.'

/-- INTERNAL: SRCLINE: mirage-backend/src/object.rs:59-61 -/
def validOpaqueId (value : NameText) : Bool := !value.any isControl

/-- INTERNAL: what an opaque identifier holds.
SRCLINE: mirage-backend/src/object.rs:12-31 -/
def opaqueIdHolds (maximum : Nat) (validator : NameText → Bool) (value : NameText) : Bool :=
  !value.isEmpty && decide ((utf8Bytes value).length ≤ maximum) && validator value

/-- INTERNAL: a text that the check of its kind of identifier accepts. -/
abbrev OpaqueId (maximum : Nat) (validator : NameText → Bool) :=
  {value : NameText // opaqueIdHolds maximum validator value = true}

abbrev BackendId := OpaqueId 64 validBackendId

abbrev ProviderObjectId := OpaqueId 1024 validOpaqueId

abbrev ImmutableRevision := OpaqueId 512 validOpaqueId

/-- INTERNAL: SRCLINE: mirage-backend/src/object.rs:95-105 -/
structure RemoteObjectRef where
  backendId : BackendId
  providerObjectId : ProviderObjectId
  immutableRevision : Option ImmutableRevision
  byteLength : UInt64
  contentHash : BitVec 256
  kind : ObjectKind
  deriving DecidableEq, Repr

/-- INTERNAL: SRCLINE: mirage-backend/src/object.rs:107-114 -/
def RemoteObjectRef.validate (object : RemoteObjectRef) : Except MirageError Unit :=
  ensure (object.byteLength ≠ 0)
    (.invalidArgument "immutable remote objects must contain at least one byte")

/-! ## The encoding of a reference -/

/-- INTERNAL: the digest, and what the CBOR library writes for an item: a number of so many bits, a
byte string, a text, an `i128`, a null and the head of a map. -/
structure CommitExternals extends Externals where
  unsigned : Nat → Nat → List UInt8
  bytes : List UInt8 → List UInt8
  str : NameText → List UInt8
  i128 : BitVec 128 → List UInt8
  null : List UInt8
  map : Nat → List UInt8

namespace CommitExternals

variable (ext : CommitExternals)

/-- INTERNAL: an item or a null. -/
def optional {α : Type} (write : α → List UInt8) : Option α → List UInt8
  | some value => write value
  | none => ext.null

/-- INTERNAL: items under the keys from `key` on. -/
def keyed : Nat → List (List UInt8) → List UInt8
  | _, [] => []
  | key, item :: items => ext.unsigned 8 key ++ item ++ keyed (key + 1) items

/-- INTERNAL: a map from 1, 2, 3 and so on to the items. -/
def record (items : List (List UInt8)) : List UInt8 := ext.map items.length ++ ext.keyed 1 items

/-- INTERNAL: SRCLINE: mirage-manifest/src/codec.rs:175-195 -/
def encodeObjectRef (object : RemoteObjectRef) : List UInt8 :=
  ext.record [ext.str object.backendId.val, ext.str object.providerObjectId.val,
    ext.optional (fun revision => ext.str revision.val) object.immutableRevision,
    ext.unsigned 64 object.byteLength.toNat, ext.bytes (hashBytes object.contentHash),
    ext.unsigned 8 object.kind.code.toNat]

end CommitExternals

end Mirage.Model
