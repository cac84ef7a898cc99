import Mathlib.Algebra.Order.Ring.Int
import Mathlib.Algebra.Order.Ring.Nat

/-!
# Identifiers, errors and fixed-width arithmetic

The types every modelled component shares.  Identifiers are the fixed-size byte
arrays of `mirage-types` read as bit vectors.  A `u64` is a `Nat` below `2 ^ 64`:
`checkedAdd` and `saturatingAdd` are the methods of that name and `wrappingAdd` is
the plain `+` of a release build.
-/

set_option autoImplicit false

namespace Mirage

/-- INTERNAL: a repository or volume identity, `[u8; 16]`.
SRCLINE: mirage-types/src/id.rs -/
abbrev RepositoryId := BitVec 128

/-- INTERNAL: a namespace node identity, `[u8; 16]`.
SRCLINE: mirage-types/src/inode.rs:7-10 -/
abbrev InodeId := BitVec 128

/-- INTERNAL: a journal payload identity, `[u8; 16]`. -/
abbrev PayloadId := BitVec 128

/-- INTERNAL: a page digest, `[u8; 32]`.
SRCLINE: mirage-types/src/hash.rs -/
abbrev PageHash := BitVec 256

/-- INTERNAL: the stable error categories.
SRCLINE: mirage-types/src/error.rs:15-52 -/
inductive MirageErrorKind where
  | invalidArgument
  | unsupportedLayout
  | manifestInvalid
  | integrityMismatch
  | cacheFull
  | backendUnauthenticated
  | backendPermissionDenied
  | backendRateLimited
  | backendUnavailable
  | remoteObjectMissing
  | repositoryConflict
  | updateActive
  | providerUnavailable
  | io
  | cancelled
  | deadlineExceeded
  | notImplemented
  | internalInvariant
  deriving DecidableEq, Repr

/-- INTERNAL: the domain error.  The machine code and the retry disposition are
functions of the kind, so only the kind and the message are kept.
SRCLINE: mirage-types/src/error.rs:142-153 -/
structure MirageError where
  kind : MirageErrorKind
  message : String
  deriving DecidableEq, Repr

namespace MirageError

def invalidArgument (message : String) : MirageError := ⟨.invalidArgument, message⟩

def unsupportedLayout (message : String) : MirageError := ⟨.unsupportedLayout, message⟩

def manifestInvalid (message : String) : MirageError := ⟨.manifestInvalid, message⟩

def integrityMismatch (message : String) : MirageError := ⟨.integrityMismatch, message⟩

def cacheFull (message : String) : MirageError := ⟨.cacheFull, message⟩

def remoteObjectMissing (message : String) : MirageError := ⟨.remoteObjectMissing, message⟩

def repositoryConflict (message : String) : MirageError := ⟨.repositoryConflict, message⟩

def internalInvariant (message : String) : MirageError := ⟨.internalInvariant, message⟩

/-- INTERNAL: an operating-system or database engine failure. -/
def io (message : String) : MirageError := ⟨.io, message⟩

end MirageError

instance decidableEqExcept {ε α : Type} [DecidableEq ε] [DecidableEq α] :
    DecidableEq (Except ε α)
  | .ok a, .ok b => decidable_of_iff (a = b) (Except.ok.injEq a b ▸ Iff.rfl)
  | .error e, .error e' => decidable_of_iff (e = e') (Except.error.injEq e e' ▸ Iff.rfl)
  | .ok _, .error _ => isFalse nofun
  | .error _, .ok _ => isFalse nofun

/-- INTERNAL: `u64::MAX`. -/
def u64Max : Nat := 2 ^ 64 - 1

/-- INTERNAL: `u32::MAX`. -/
def u32Max : Nat := 2 ^ 32 - 1

/-- INTERNAL: `u64::checked_add`. -/
def checkedAdd (a b : Nat) : Option Nat := if a + b ≤ u64Max then some (a + b) else none

/-- INTERNAL: `u64::saturating_add`. -/
def saturatingAdd (a b : Nat) : Nat := min (a + b) u64Max

/-- INTERNAL: `a + b` on `u64` in a release build. -/
def wrappingAdd (a b : Nat) : Nat := (a + b) % 2 ^ 64

/-- INTERNAL: the two's-complement reading of an `i64` sum in a release build, and of
the cast `as i64`. -/
def wrappingI64 (a : Int) : Int := a.bmod (2 ^ 64)

/-- INTERNAL: `i64::MAX`. -/
def i64Max : Int := 2 ^ 63 - 1

/-- INTERNAL: the bytes of an `n`-byte number, the last one least significant. -/
def beBytes (n value : Nat) : List UInt8 :=
  (List.range n).reverse.map fun i => UInt8.ofNat (value / 256 ^ i)

/-- INTERNAL: `to_le_bytes` of an `n`-byte number. -/
def leBytes (n value : Nat) : List UInt8 :=
  (List.range n).map fun i => UInt8.ofNat (value / 256 ^ i)

/-- INTERNAL: what the model takes from outside the repository: the BLAKE3 digest and
the `char::to_uppercase` tables of the standard library. -/
structure Externals where
  blake3 : List UInt8 → BitVec 256
  toUppercase : Char → List Char

/-- INTERNAL: a sum that fits a `u64` does not wrap. -/
theorem wrappingAdd_eq {a b : Nat} (h : a + b ≤ u64Max) : wrappingAdd a b = a + b := by
  unfold wrappingAdd
  unfold u64Max at h
  exact Nat.mod_eq_of_lt (by omega)

/-- INTERNAL: `checked_add` returns the exact sum. -/
theorem checkedAdd_eq_some {a b c : Nat} (h : checkedAdd a b = some c) :
    c = a + b ∧ a + b ≤ u64Max := by
  unfold checkedAdd at h
  split at h
  · exact ⟨(Option.some.inj h).symm, by assumption⟩
  · cases h

/-- INTERNAL: `checked_add` refuses exactly the sums that do not fit. -/
theorem checkedAdd_eq_none {a b : Nat} : checkedAdd a b = none ↔ u64Max < a + b := by
  unfold checkedAdd
  split <;> simp <;> omega

end Mirage

namespace Mirage.Model

/-- INTERNAL: SRCLINE: mirage-ffi/src/status.rs:3-18 -/
inductive MirageStatus where
  | ok
  | invalidArgument
  | notFound
  | accessDenied
  | wouldBlock
  | cancelled
  | integrityFailure
  | backendUnavailable
  | ioError
  | conflict
  | diskFull
  | internal
  deriving DecidableEq, Repr

end Mirage.Model
