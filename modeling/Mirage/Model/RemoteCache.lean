import Mirage.Computation.Recency
import Mirage.Computation.Table
import Mirage.Model.Prelude

/-!
# A cache bounded by bytes

`ByteLru` of `mirage-ffi/src/remote_cache.rs`, which holds the chunks of a Sophon source and the
frames, sectors and proofs of remote objects.  The order in which a `HashMap` is walked is a
parameter.
-/

set_option autoImplicit false

namespace Mirage.Model

open Mirage.Computation

/-- INTERNAL: the order in which the keys of a `HashMap` come. -/
structure MapOrder (K : Type) where
  order : List K → List K
  perm : ∀ keys, (order keys).Perm keys

/-- INTERNAL: a `usize` difference in a release build. -/
def wrappingSub (a b : Nat) : Nat := (a + 2 ^ 64 - b) % 2 ^ 64

/-- INTERNAL: a table from keys to values, their charge and when they were touched.
SRCLINE: mirage-ffi/src/remote_cache.rs:6-11 -/
structure ByteLru (K V : Type) where
  entries : Table K (V × Nat × Nat)
  used : Nat
  budget : Nat
  clock : Nat

namespace ByteLru

variable {K V : Type} [DecidableEq K]

/-- INTERNAL: SRCLINE: mirage-ffi/src/remote_cache.rs:13-20 -/
def new (budget : Nat) : ByteLru K V := ⟨.empty, 0, budget, 0⟩

/-- INTERNAL: SRCLINE: mirage-ffi/src/remote_cache.rs:21-26 -/
def get (cache : ByteLru K V) (key : K) : Option (V × ByteLru K V) :=
  match cache.entries.get key with
  | none => none
  | some (value, bytes, _) =>
    let clock := saturatingAdd cache.clock 1
    some (value,
      { cache with entries := cache.entries.set key (value, bytes, clock), clock := clock })

/-- INTERNAL: `entries.remove` with the charge of the entry. -/
def drop (cache : ByteLru K V) (key : K) : ByteLru K V :=
  match cache.entries.get key with
  | none => cache
  | some (_, bytes, _) =>
    { cache with entries := cache.entries.erase key, used := wrappingSub cache.used bytes }

/-- INTERNAL: the key that was touched first.
SRCLINE: mirage-ffi/src/remote_cache.rs:35-39 -/
def oldest (hash : MapOrder K) (cache : ByteLru K V) : Option K :=
  firstMin ((hash.order cache.entries.keys).filterMap fun key =>
    (cache.entries.get key).map fun entry => (key, entry.2.2))

/-- INTERNAL: each round drops an entry.
SRCLINE: mirage-ffi/src/remote_cache.rs:34-46 -/
def evict (hash : MapOrder K) (bytes : Nat) : Nat → ByteLru K V → ByteLru K V
  | 0, cache => cache
  | rounds + 1, cache =>
    if cache.used ≤ cache.budget - bytes then cache
    else match cache.oldest hash with
      | none => cache
      | some key => evict hash bytes rounds (cache.drop key)

/-- INTERNAL: SRCLINE: mirage-ffi/src/remote_cache.rs:27-50 -/
def insert (hash : MapOrder K) (cache : ByteLru K V) (key : K) (value : V) (bytes : Nat) :
    ByteLru K V :=
  if cache.budget < bytes then cache
  else
    let rest := evict hash bytes (cache.entries.size + 1) (cache.drop key)
    let clock := saturatingAdd rest.clock 1
    { rest with
      entries := rest.entries.set key (value, bytes, clock), clock := clock
      used := wrappingAdd rest.used bytes }

end ByteLru

end Mirage.Model
