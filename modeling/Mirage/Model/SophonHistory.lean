import Mirage.Computation.Effects
import Mirage.Model.SophonSource

/-!
# The access history of a Sophon source

Which chunks a game read, how often and at what cost, kept in `access-profile-v1.json` below the
root of the cache.  What `serde_json` writes and how it reads it are parameters; `History.text` is
the compact text that bounds the size of a file.
-/

set_option autoImplicit false

namespace Mirage.Model

open Mirage.Computation Mirage.Computation.Effect

def maxEntries : Nat := 8192

def maxProfile : Nat := 2 * 1024 * 1024

/-- INTERNAL: SRCLINE: mirage-ffi/src/sophon/learning.rs:6-12 -/
structure Access where
  key : ChunkKey
  bytes : Nat
  count : Nat
  tick : Nat
  costUs : Nat
  deriving DecidableEq

/-- INTERNAL: SRCLINE: mirage-ffi/src/sophon/learning.rs:14-18 -/
structure History where
  generation : ChunkKey
  tick : Nat
  entries : List Access
  deriving DecidableEq

namespace History

/-- INTERNAL: SRCLINE: mirage-ffi/src/sophon/learning.rs:21-25 -/
def fresh (generation : ChunkKey) : History := ⟨generation, 0, []⟩

/-! ## Records -/

/-- INTERNAL: the first entry of the key is changed in place. -/
def modifyFirst (key : ChunkKey) (f : Access → Access) : List Access → List Access
  | [] => []
  | entry :: rest =>
    if entry.key = key then f entry :: rest else entry :: modifyFirst key f rest

/-- INTERNAL: `Vec::swap_remove`, which puts the last element in the place of the removed one. -/
def swapRemove (entries : List Access) (index : Nat) : List Access :=
  match entries.getLast? with
  | none => entries
  | some last => (entries.set index last).dropLast

/-- INTERNAL: SRCLINE: mirage-ffi/src/sophon/learning.rs:68-74 -/
def oldestIndex (entries : List Access) : Option Nat :=
  firstMin (entries.zipIdx.map fun entry => (entry.2, entry.1.tick))

/-- INTERNAL: a full list loses its oldest entry.
SRCLINE: mirage-ffi/src/sophon/learning.rs:67-76 -/
def makeRoom (entries : List Access) : List Access :=
  if entries.length = maxEntries then
    match oldestIndex entries with
    | none => entries
    | some index => swapRemove entries index
  else entries

/-- INTERNAL: another access of a known key; the cost decays.
SRCLINE: mirage-ffi/src/sophon/learning.rs:59-65 -/
def touch (tick cost : Nat) (entry : Access) : Access :=
  { entry with
    count := saturatingAdd entry.count 1
    tick := tick
    costUs := saturatingAdd (entry.costUs - entry.costUs / 8) (cost / 8) }

/-- INTERNAL: SRCLINE: mirage-ffi/src/sophon/learning.rs:55-85 -/
def record (history : History) (key : ChunkKey) (bytes elapsedUs : Nat) : History :=
  let tick := saturatingAdd history.tick 1
  let cost := min elapsedUs u64Max
  { history with
    tick := tick
    entries :=
      if key ∈ history.entries.map Access.key then
        modifyFirst key (touch tick cost) history.entries
      else makeRoom history.entries ++ [⟨key, bytes, 1, tick, cost⟩] }

/-! ## Selection -/

/-- INTERNAL: SRCLINE: mirage-ffi/src/sophon/learning.rs:92-95 -/
def score (entry : Access) : Nat :=
  min entry.count 1000000 * max entry.costUs 1 * 1024 / entry.bytes

/-- INTERNAL: the comparator does not answer `Greater`.
SRCLINE: mirage-ffi/src/sophon/learning.rs:96-99 -/
def ranksBefore (a b : Access) : Prop :=
  score b < score a ∨ score a = score b ∧
    (b.tick < a.tick ∨ a.tick = b.tick ∧ a.key.val ≤ b.key.val)

instance (a b : Access) : Decidable (ranksBefore a b) := inferInstanceAs (Decidable (_ ∨ _))

/-- INTERNAL: SRCLINE: mirage-ffi/src/sophon/learning.rs:101-112 -/
def takeFitting : Nat → List Access → List ChunkKey
  | _, [] => []
  | remaining, entry :: rest =>
    if entry.bytes ≤ remaining then entry.key :: takeFitting (remaining - entry.bytes) rest
    else takeFitting remaining rest

/-- INTERNAL: SRCLINE: mirage-ffi/src/sophon/learning.rs:89-113 -/
def select (history : History) (budget : Nat) : List ChunkKey :=
  takeFitting budget (history.entries.insertionSort ranksBefore)

/-! ## The profile on disk -/

def keyText (key : ChunkKey) : List Char := jsonArray (key.val.map fun b => decimal b.toNat)

def accessText (entry : Access) : List Char :=
  jsonObject [("key", keyText entry.key), ("bytes", decimal entry.bytes),
    ("count", decimal entry.count), ("tick", decimal entry.tick),
    ("cost_us", decimal entry.costUs)]

/-- INTERNAL: the compact JSON text. -/
def text (history : History) : List Char :=
  jsonObject [("generation", keyText history.generation), ("tick", decimal history.tick),
    ("entries", jsonArray (history.entries.map accessText))]

/-- INTERNAL: the files of the root and with what the calls on them fail, by their number. -/
structure ProfileDir where
  temp : Option (List Char)
  profile : Option (List Char)
  faults : Nat → Option MirageStatus
  calls : Nat

abbrev ProfileM := Effect ProfileDir MirageStatus

/-- INTERNAL: a call that may fail. -/
def profileCall : ProfileM Unit := do
  let dir ← state
  change fun dir => { dir with calls := dir.calls + 1 }
  match dir.faults dir.calls with
  | none => pure ()
  | some status => throw status

/-- INTERNAL: SRCLINE: mirage-ffi/src/sophon/learning.rs:114-129 -/
def save (write : History → List Char) (history : History) : ProfileM Unit := do
  profileCall
  profileCall
  if maxProfile < (write history).length then throw .integrityFailure
  else do
    profileCall
    change fun dir => { dir with temp := some [] }
    profileCall
    change fun dir => { dir with temp := some (write history) }
    profileCall
    change fun dir => { dir with temp := none, profile := dir.temp }

/-- INTERNAL: what is checked of a history that was read.
SRCLINE: mirage-ffi/src/sophon/learning.rs:42-48 -/
def acceptable (history : History) : Prop :=
  history.entries.length ≤ maxEntries ∧ ∀ entry ∈ history.entries,
    entry.bytes ≠ 0 ∧ entry.bytes ≤ maxChunk ∧ entry.tick ≤ history.tick ∧ entry.count ≠ 0

instance (history : History) : Decidable history.acceptable :=
  inferInstanceAs (Decidable (_ ∧ _))

/-- INTERNAL: a missing file is a fresh history.
SRCLINE: mirage-ffi/src/sophon/learning.rs:20-54 -/
def openProfile (read : List Char → Option History) (generation : ChunkKey) : ProfileM History := do
  profileCall
  profileCall
  let dir ← state
  match dir.profile with
  | none => pure (fresh generation)
  | some content => do
    profileCall
    if maxProfile < content.length then throw .integrityFailure
    else match read content with
      | none => throw .integrityFailure
      | some history =>
        if history.acceptable then
          if history.generation = generation then pure history else pure (fresh generation)
        else throw .integrityFailure

end History

end Mirage.Model
