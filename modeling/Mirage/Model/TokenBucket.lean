import Mirage.Model.Prelude

/-!
# Token buckets

`TokenBucket` of `mirage-ipc/src/rate_limit.rs`, which lets a principal call an expensive command
in bursts up to its capacity.  A token comes back in each refill interval.
-/

set_option autoImplicit false

namespace Mirage.Model

/-- INTERNAL: SRCLINE: mirage-ipc/src/rate_limit.rs:2-7 -/
structure TokenBucket where
  capacity : Nat
  tokens : Nat
  refillEveryMs : Nat
  lastRefillMs : Nat
  deriving DecidableEq, Repr

namespace TokenBucket

/-- INTERNAL: SRCLINE: mirage-ipc/src/rate_limit.rs:10-17 -/
def new (capacity : UInt32) (refillEveryMs nowMs : UInt64) : TokenBucket :=
  ⟨capacity.toNat, capacity.toNat, refillEveryMs.toNat, nowMs.toNat⟩

/-- INTERNAL: the tokens of the intervals that ended since the last refill.
SRCLINE: mirage-ipc/src/rate_limit.rs:22-32 -/
def refilled (bucket : TokenBucket) (nowMs : Nat) : TokenBucket :=
  let elapsed := nowMs - bucket.lastRefillMs
  let refill := elapsed / bucket.refillEveryMs
  if refill ≠ 0 then
    { bucket with
      tokens := min bucket.capacity (min (bucket.tokens + min refill u32Max) u32Max)
      lastRefillMs := saturatingAdd bucket.lastRefillMs
        (min (refill * bucket.refillEveryMs) u64Max) }
  else bucket

/-- INTERNAL: SRCLINE: mirage-ipc/src/rate_limit.rs:33-38 -/
def take (bucket : TokenBucket) : Bool × TokenBucket :=
  if bucket.tokens = 0 then (false, bucket)
  else (true, { bucket with tokens := bucket.tokens - 1 })

/-- INTERNAL: SRCLINE: mirage-ipc/src/rate_limit.rs:18-39 -/
def allowAt (bucket : TokenBucket) (nowMs : Nat) : Bool × TokenBucket :=
  if bucket.capacity = 0 ∨ bucket.refillEveryMs = 0 then (false, bucket)
  else (bucket.refilled nowMs).take

end TokenBucket

end Mirage.Model
