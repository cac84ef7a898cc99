import Mirage.Computation.Grouping
import Mirage.Model.FetchPool
import Mirage.Model.RemoteObjects

/-!
# Planned reads of packs and of remote objects

The two greedy loops that turn frames into reads: `plan_ranges` of `mirage-pack` and `coalesce` of
`mirage-scheduler`.  Both sort, check each frame, and let it join the last read or start one.
-/

set_option autoImplicit false

namespace Mirage.Model

open Mirage.Computation

/-! ## Checked ranges -/

/-- INTERNAL: SRCLINE: mirage-types/src/range.rs:30-33 -/
structure CheckedRange where
  start : Nat
  len : Nat
  fits : start + len ≤ u64Max
  deriving DecidableEq, Repr

namespace CheckedRange

/-- INTERNAL: SRCLINE: mirage-types/src/range.rs:37-45 -/
def new (start len : Nat) : Except MirageError CheckedRange :=
  if h : start + len ≤ u64Max then .ok ⟨start, len, h⟩
  else .error (.invalidArgument ("range overflow: start (" ++ toString start ++ ") + len (" ++
    toString len ++ ") exceeds u64::MAX"))

/-- INTERNAL: SRCLINE: mirage-types/src/range.rs:60-69 -/
def fromStartAndEnd (start endExclusive : Nat) : Except MirageError CheckedRange :=
  if endExclusive < start then
    .error (.invalidArgument ("invalid range bounds: end_exclusive (" ++ toString endExclusive ++
      ") is less than start (" ++ toString start ++ ")"))
  else new start (endExclusive - start)

/-- INTERNAL: SRCLINE: mirage-types/src/range.rs:123-128 -/
def endExclusive (range : CheckedRange) : Nat :=
  match checkedAdd range.start range.len with
  | some stop => stop
  | none => u64Max

theorem endExclusive_eq (range : CheckedRange) : range.endExclusive = range.start + range.len := by
  unfold endExclusive checkedAdd
  rw [if_pos range.fits]

theorem new_ok {start len : Nat} {range : CheckedRange} (h : new start len = .ok range) :
    range.start = start ∧ range.len = len := by
  unfold new at h
  split at h
  · cases h
    exact ⟨rfl, rfl⟩
  · cases h

theorem new_returns {start len : Nat} (h : start + len ≤ u64Max) :
    new start len = .ok ⟨start, len, h⟩ :=
  dif_pos h

end CheckedRange

/-! ## Pages of a range

An operation that overflows is an error of its own here, so a result says that none did.  The
casts to `u32` cut their operand. -/

/-- INTERNAL: the cast `as u32`. -/
def asU32 (a : Nat) : Nat := a % 2 ^ 32

def mulU64 (a b : Nat) : Except MirageError Nat :=
  if a * b ≤ u64Max then .ok (a * b)
  else .error (.internalInvariant "attempt to multiply with overflow")

def subU64 (a b : Nat) : Except MirageError Nat :=
  if b ≤ a then .ok (a - b)
  else .error (.internalInvariant "attempt to subtract with overflow")

/-- INTERNAL: SRCLINE: mirage-types/src/range.rs:14-23 -/
structure PageSlice where
  page : Nat
  offsetInPage : Nat
  length : Nat
  fileOffset : Nat
  deriving DecidableEq, Repr

namespace CheckedRange

/-- INTERNAL: the slice of the range up to `stop` that begins at `offset` and lies in the page.
SRCLINE: mirage-types/src/range.rs:234-245 -/
def sliceAt (pageSize stop page offset : Nat) : Except MirageError PageSlice := do
  let pageStart ← mulU64 page pageSize
  let offsetInPage := asU32 (← subU64 offset pageStart)
  let remainingInPage ← subU64 pageSize offsetInPage
  let remainingInRange ← subU64 stop offset
  return ⟨asU32 page, offsetInPage, asU32 (min remainingInPage remainingInRange), offset⟩

/-- INTERNAL: the loop over the pages; it ends when the offset overflows.
SRCLINE: mirage-types/src/range.rs:233-251 -/
def splitPages (pageSize stop : Nat) : List Nat → Nat → Except MirageError (List PageSlice)
  | [], _ => .ok []
  | page :: pages, offset => do
    let slice ← sliceAt pageSize stop page offset
    match checkedAdd offset slice.length with
    | none => return [slice]
    | some next => do
      let slices ← splitPages pageSize stop pages next
      return slice :: slices

/-- INTERNAL: SRCLINE: mirage-types/src/range.rs:204-254 -/
def splitToPages (range : CheckedRange) (pageSize : Nat) : Except MirageError (List PageSlice) := do
  ensure (pageSize ≠ 0) (.invalidArgument "page_size must be greater than 0")
  ensure (pageSize ≤ u32Max)
    (.unsupportedLayout "page_size exceeds maximum supported 32-bit page size")
  if range.len = 0 then return []
  else do
    let last ← subU64 range.endExclusive 1
    let firstPage := range.start / pageSize
    let lastPage := last / pageSize
    ensure (lastPage ≤ u32Max) (.unsupportedLayout "page ordinal exceeds u32::MAX")
    let count ← subU64 lastPage firstPage
    splitPages pageSize range.endExclusive (List.range' firstPage (count + 1)) range.start

end CheckedRange

/-! ## Packs -/

/-- INTERNAL: SRCLINE: mirage-pack/src/range_plan.rs:5-9 -/
structure PlannedRange where
  range : CheckedRange
  pages : List PageHash
  deriving DecidableEq, Repr

/-- INTERNAL: SRCLINE: mirage-pack/src/range_plan.rs:26-34 -/
def checkFrameRange (packLength maxWindow : UInt64) (entry : PackEntry) :
    Except MirageError Unit := do
  let stop ← someOr (checkedAdd entry.frameOffset entry.frameLength)
    (.manifestInvalid "pack frame range overflows")
  ensure (¬ (entry.frameLength = 0 ∨ packLength.toNat < stop ∨
      maxWindow.toNat < entry.frameLength))
    (.manifestInvalid "pack frame range is outside its immutable object")

/-- INTERNAL: the end of the entry is that of the check.
SRCLINE: mirage-pack/src/range_plan.rs:35-47 -/
def joinRange (maxGap maxWindow : UInt64) (last : PlannedRange) (entry : PackEntry) :
    Except MirageError (Option PlannedRange) := do
  ensure (last.range.endExclusive ≤ entry.frameOffset)
    (.manifestInvalid "pack frame ranges overlap")
  let gap := entry.frameOffset - last.range.endExclusive
  let combined := entry.frameOffset + entry.frameLength - last.range.start
  if gap ≤ maxGap.toNat ∧ combined ≤ maxWindow.toNat then do
    let range ← CheckedRange.new last.range.start combined
    pure (some ⟨range, last.pages ++ [entry.pageHash]⟩)
  else pure none

/-- INTERNAL: SRCLINE: mirage-pack/src/range_plan.rs:48-51 -/
def startRange (entry : PackEntry) : Except MirageError PlannedRange := do
  let range ← CheckedRange.new entry.frameOffset entry.frameLength
  pure ⟨range, [entry.pageHash]⟩

/-- INTERNAL: SRCLINE: mirage-pack/src/range_plan.rs:11-54 -/
def planRanges (entries : List PackEntry) (packLength maxGap maxWindow : UInt64) :
    Except MirageError (List PlannedRange) := do
  ensure (maxWindow ≠ 0) (.invalidArgument "range window must be positive")
  gather (checkFrameRange packLength maxWindow) (joinRange maxGap maxWindow) startRange []
    (entries.insertionSort fun a b => a.frameOffset ≤ b.frameOffset)

/-! ## Remote objects -/

/-- INTERNAL: SRCLINE: mirage-scheduler/src/window.rs:6-12 -/
structure WindowFrame where
  pageHash : PageHash
  object : RemoteObjectRef
  range : CheckedRange
  priority : FetchPriority
  deriving DecidableEq, Repr

/-- INTERNAL: SRCLINE: mirage-scheduler/src/window.rs:13-18 -/
structure FrameMapping where
  pageHash : PageHash
  windowOffset : Nat
  encodedLength : Nat
  deriving DecidableEq, Repr

/-- INTERNAL: SRCLINE: mirage-scheduler/src/window.rs:19-26 -/
structure FetchWindow where
  object : RemoteObjectRef
  range : CheckedRange
  priority : FetchPriority
  frames : List FrameMapping
  gapBytes : Nat
  deriving DecidableEq, Repr

/-- INTERNAL: the derived `Ord::min`. -/
def FetchPriority.least (a b : FetchPriority) : FetchPriority := if b.rank < a.rank then b else a

/-- INTERNAL: SRCLINE: mirage-scheduler/src/coalesce.rs:77-79 -/
def compatible (a b : FetchPriority) : Bool :=
  decide (a.rank ≤ FetchPriority.p2Capsule.rank) == decide (b.rank ≤ FetchPriority.p2Capsule.rank)

/-- INTERNAL: the order of the sort: by object, start and page.  Object names are compared as
UTF-8 bytes, which is the order of their code points.
SRCLINE: mirage-scheduler/src/coalesce.rs:15-21 -/
def frameOrder (a b : WindowFrame) : Ordering :=
  ((compareOfLessAndEq (a.object.providerObjectId.val.map Char.toNat)
      (b.object.providerObjectId.val.map Char.toNat)).then
    (compare a.range.start b.range.start)).then
      (compare a.pageHash.toNat b.pageHash.toNat)

/-- INTERNAL: SRCLINE: mirage-scheduler/src/coalesce.rs:24-31 -/
def checkWindowFrame (maxEncodedBytes : UInt64) (frame : WindowFrame) : Except MirageError Unit :=
  ensure (¬ (frame.range.len = 0 ∨
      frame.object.byteLength.toNat < frame.range.endExclusive ∨
      maxEncodedBytes.toNat < frame.range.len))
    (.invalidArgument "frame range is outside coalescer bounds")

/-- INTERNAL: SRCLINE: mirage-scheduler/src/coalesce.rs:32-46 -/
def canJoin (maxEncodedBytes maxGapBytes : UInt64) (window : FetchWindow) (frame : WindowFrame) :
    Prop :=
  window.object = frame.object ∧ window.range.endExclusive ≤ frame.range.start ∧
    frame.range.start - window.range.endExclusive ≤ maxGapBytes.toNat ∧
    frame.range.endExclusive - window.range.start ≤ maxEncodedBytes.toNat ∧
    compatible window.priority frame.priority = true

instance (maxEncodedBytes maxGapBytes : UInt64) (window : FetchWindow) (frame : WindowFrame) :
    Decidable (canJoin maxEncodedBytes maxGapBytes window frame) :=
  inferInstanceAs (Decidable (_ ∧ _))

/-- INTERNAL: SRCLINE: mirage-scheduler/src/coalesce.rs:47-60 -/
def joinWindow (maxEncodedBytes maxGapBytes : UInt64) (window : FetchWindow)
    (frame : WindowFrame) : Except MirageError (Option FetchWindow) :=
  if canJoin maxEncodedBytes maxGapBytes window frame then do
    let range ← CheckedRange.fromStartAndEnd window.range.start frame.range.endExclusive
    pure (some
      { object := window.object
        range := range
        priority := window.priority.least frame.priority
        frames := window.frames ++ [⟨frame.pageHash, frame.range.start - window.range.start,
          frame.range.len⟩]
        gapBytes := window.gapBytes + (frame.range.start - window.range.endExclusive) })
  else pure none

/-- INTERNAL: SRCLINE: mirage-scheduler/src/coalesce.rs:61-73 -/
def startWindow (frame : WindowFrame) : Except MirageError FetchWindow :=
  pure ⟨frame.object, frame.range, frame.priority, [⟨frame.pageHash, 0, frame.range.len⟩], 0⟩

/-- INTERNAL: SRCLINE: mirage-scheduler/src/coalesce.rs:5-76 -/
def coalesce (frames : List WindowFrame) (maxEncodedBytes maxGapBytes : UInt64) :
    Except MirageError (List FetchWindow) := do
  ensure (maxEncodedBytes ≠ 0) (.invalidArgument "fetch window maximum is zero")
  gather (checkWindowFrame maxEncodedBytes) (joinWindow maxEncodedBytes maxGapBytes) startWindow []
    (frames.insertionSort fun a b => frameOrder a b ≠ .gt)

end Mirage.Model
