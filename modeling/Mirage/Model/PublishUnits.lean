import Mirage.Model.Prelude

/-!
# Units and batches of the publisher

The payload publisher of `mirage-ffi` packs small payloads into units, one remote object each, and
uploads the units in batches.  A batch is taken off the list with the budget that holds when it
starts.
-/

set_option autoImplicit false

namespace Mirage.Model

/-- INTERNAL: what the publisher groups by; the other columns are left out.
SRCLINE: mirage-db/src/payload_remote.rs:43-53 -/
structure UnpublishedPayload where
  payloadId : PayloadId
  bytes : Int64
  deriving DecidableEq

/-- INTERNAL: `u64::try_from(payload.bytes).unwrap_or(0)` -/
def UnpublishedPayload.size (payload : UnpublishedPayload) : Nat := payload.bytes.toInt.toNat

def publishParallelism : Nat := 16

def packMemberMaxBytes : Nat := 4 * 1024 * 1024

def packTargetBytes : Nat := 16 * 1024 * 1024

def packMaxMembers : Nat := 1024

/-- INTERNAL: SRCLINE: mirage-ffi/src/publisher.rs:96-98 -/
structure PublishUnit where
  members : List UnpublishedPayload
  deriving DecidableEq

/-- INTERNAL: SRCLINE: mirage-ffi/src/publisher.rs:100-105 -/
def unitBytes (unit : PublishUnit) : Nat :=
  (unit.members.map UnpublishedPayload.size).foldl saturatingAdd 0

/-- INTERNAL: the units so far and the pack that is being filled. -/
structure Packing where
  units : List PublishUnit
  pack : List UnpublishedPayload
  packBytes : Nat

namespace Packing

/-- INTERNAL: a pack with members becomes a unit. -/
def flush (p : Packing) : Packing :=
  if p.pack = [] then p else ⟨p.units ++ [⟨p.pack⟩], [], 0⟩

/-- INTERNAL: SRCLINE: mirage-ffi/src/publisher.rs:115-139 -/
def add (p : Packing) (payload : UnpublishedPayload) : Packing :=
  let bytes := payload.size
  if packMemberMaxBytes < bytes then
    let p := p.flush
    { p with units := p.units ++ [⟨[payload]⟩] }
  else
    let full := packTargetBytes < saturatingAdd p.packBytes bytes ∨ packMaxMembers ≤ p.pack.length
    let p := if p.pack ≠ [] ∧ full then p.flush else p
    { p with pack := p.pack ++ [payload], packBytes := saturatingAdd p.packBytes bytes }

end Packing

/-- INTERNAL: SRCLINE: mirage-ffi/src/publisher.rs:110-144 -/
def publishUnits (pending : List UnpublishedPayload) : List PublishUnit :=
  (pending.foldl Packing.add ⟨[], [], 0⟩).flush.units

/-- INTERNAL: the loop over the units from the start of the batch; `taken` is `end - start`.
SRCLINE: mirage-ffi/src/publisher.rs:152-159 -/
def batchLength (cap : Nat) : List PublishUnit → Nat → Nat → Nat
  | [], taken, _ => taken
  | unit :: units, taken, bytes =>
    if taken < publishParallelism then
      if 0 < taken ∧ cap < saturatingAdd bytes (unitBytes unit) then taken
      else batchLength cap units (taken + 1) (saturatingAdd bytes (unitBytes unit))
    else taken

/-- INTERNAL: SRCLINE: mirage-ffi/src/publisher.rs:149-161 -/
def nextBatch (units : List PublishUnit) (start cap : Nat) : Nat :=
  start + batchLength cap (units.drop start) 0 0

/-- INTERNAL: the cursor of the publisher after its batches, where the budget of a batch is that
which holds when it starts.
SRCLINE: mirage-ffi/src/publisher.rs:456-487 -/
def batchCursor (units : List PublishUnit) (caps : Nat → UInt64) : Nat → Nat
  | 0 => 0
  | n + 1 =>
    let cursor := batchCursor units caps n
    if cursor < units.length then nextBatch units cursor (caps n).toNat else cursor

/-- INTERNAL: `&units[cursor..end]` -/
def publishBatch (units : List PublishUnit) (caps : Nat → UInt64) (n : Nat) : List PublishUnit :=
  (units.take (batchCursor units caps (n + 1))).drop (batchCursor units caps n)

end Mirage.Model
