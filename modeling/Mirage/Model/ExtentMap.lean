import Mirage.Model.Journal

/-!
# The per-inode byte-extent map

`ExtentMap` as `mirage-engine/src/extent_map.rs` computes it: a list of intervals, a
write version and a logical end of file that is tracked beside the list.  The vectors
are lists.  `sort_by_key` is a stable sort, so it is insertion sort on the key.  The
`for` loop of `read`, with its `continue`s and `break`s, is the recursion `readLoop`
over the remaining intervals, and the restart loop of `coalesce` is `coalesceLoop`
with the list length as fuel, one unit for each merge.
-/

set_option autoImplicit false

namespace Mirage.Model

/-- INTERNAL: where the bytes of an interval come from.
SRCLINE: extent_map.rs:63-77 -/
inductive ExtentSource where
  | base (pageHash : PageHash) (baseOffset : Nat)
  | dirty (payloadId : PayloadId) (payloadOffset : Nat)
  | zero
  deriving DecidableEq, Repr

/-- INTERNAL: the source of a tail whose first `clipped` bytes were replaced.
SRCLINE: extent_map.rs:462-478 -/
def ExtentSource.advance (clipped : Nat) : ExtentSource → ExtentSource
  | .base pageHash baseOffset => .base pageHash (wrappingAdd baseOffset clipped)
  | .dirty payloadId payloadOffset => .dirty payloadId (wrappingAdd payloadOffset clipped)
  | .zero => .zero

/-- INTERNAL: one interval of the map.
SRCLINE: extent_map.rs:56-61 -/
structure Interval where
  start : Nat
  length : Nat
  source : ExtentSource
  deriving DecidableEq, Repr

/-- INTERNAL: one contiguous slice a reader must resolve.
SRCLINE: extent_map.rs:19-37 -/
inductive ExtentSlice where
  | base (start length : Nat) (pageHash : PageHash) (baseOffset : Nat)
  | dirty (start length : Nat) (payloadId : PayloadId) (payloadOffset : Nat)
  | zero (start length : Nat)
  deriving DecidableEq, Repr

namespace ExtentSlice

/-- INTERNAL: the first offset of a slice.
SRCLINE: extent_map.rs:40-46 -/
def start : ExtentSlice → Nat
  | .base start _ _ _ => start
  | .dirty start _ _ _ => start
  | .zero start _ => start

/-- INTERNAL: the number of bytes of a slice.
SRCLINE: extent_map.rs:47-53 -/
def length : ExtentSlice → Nat
  | .base _ length _ _ => length
  | .dirty _ length _ _ => length
  | .zero _ length => length

end ExtentSlice

/-- INTERNAL: the extent map of one inode.
SRCLINE: extent_map.rs:79-93 -/
structure ExtentMap where
  intervals : List Interval
  version : Int
  fileSize : Nat
  historical : Bool
  deriving DecidableEq, Repr

namespace ExtentMap

/-- INTERNAL: `ExtentMap::default()`.
SRCLINE: extent_map.rs:81 -/
def default : ExtentMap := ⟨[], 0, 0, false⟩

/-- INTERNAL: seed one base extent over `[0, length)` of an empty map.
SRCLINE: extent_map.rs:172-185 -/
def seedBase (m : ExtentMap) (length : Nat) (baseIdentity : PageHash) : ExtentMap :=
  if length = 0 ∨ m.intervals ≠ [] then m
  else
    { m with
      intervals := [⟨0, length, .base baseIdentity 0⟩]
      fileSize := max m.fileSize length }

/-- INTERNAL: what `splice` keeps of one existing interval when `[lo, hi)` is replaced.
SRCLINE: extent_map.rs:447-484 -/
def spliceOne (lo hi : Nat) (existing : Interval) : List Interval :=
  let existingEnd := wrappingAdd existing.start existing.length
  if existingEnd ≤ lo ∨ hi ≤ existing.start then [existing]
  else
    (if existing.start < lo then [⟨existing.start, lo - existing.start, existing.source⟩]
      else []) ++
    (if hi < existingEnd then
      [⟨hi, existingEnd - hi, existing.source.advance (hi - existing.start)⟩]
      else [])

/-- INTERNAL: `sort_by_key(|entry| entry.start)`. -/
def sortByStart (l : List Interval) : List Interval :=
  l.insertionSort (fun a b => a.start ≤ b.start)

/-- INTERNAL: replace `[lo, hi)` by `interval`.
SRCLINE: extent_map.rs:442-489 -/
def splice (l : List Interval) (lo hi : Nat) (interval : Interval) : List Interval :=
  sortByStart (l.flatMap (spliceOne lo hi) ++ [interval])

/-- INTERNAL: the merge of two neighbours that are one contiguous run of one payload.
SRCLINE: extent_map.rs:244-260 -/
def mergePair (left right : Interval) : Option Interval :=
  match left.source, right.source with
  | .dirty leftId leftOff, .dirty rightId rightOff =>
    if leftId = rightId ∧ wrappingAdd left.start left.length = right.start ∧
        wrappingAdd leftOff left.length = rightOff then
      some { left with length := wrappingAdd left.length right.length }
    else none
  | _, _ => none

/-- INTERNAL: one pass of the `for` loop of `coalesce`: the first pair that merges.
SRCLINE: extent_map.rs:242-265 -/
def mergeFirst : List Interval → Option (List Interval)
  | left :: right :: rest =>
    match mergePair left right with
    | some merged => some (merged :: rest)
    | none => (mergeFirst (right :: rest)).map (left :: ·)
  | _ => none

/-- INTERNAL: the outer loop of `coalesce`, which starts over after each merge.
SRCLINE: extent_map.rs:240-270 -/
def coalesceLoop : Nat → List Interval → List Interval
  | 0, l => l
  | fuel + 1, l =>
    match mergeFirst l with
    | some l' => coalesceLoop fuel l'
    | none => l

/-- INTERNAL: merge until no pair merges.
SRCLINE: extent_map.rs:238-267 -/
def coalesce (l : List Interval) : List Interval := coalesceLoop l.length l

/-- INTERNAL: a dirty write of `length` bytes at `start`, backed by the payload from
`payloadOffset` on.
SRCLINE: extent_map.rs:203-234 -/
def writeAt (m : ExtentMap) (start length : Nat) (payloadId : PayloadId)
    (payloadOffset : Nat) : Except MirageError ExtentMap :=
  if length = 0 then .ok m
  else
    match checkedAdd start length with
    | none => .error (.invalidArgument "write range overflows")
    | some hi =>
      .ok
        { m with
          intervals :=
            coalesce (splice m.intervals start hi
              ⟨start, length, .dirty payloadId payloadOffset⟩)
          fileSize := max m.fileSize hi
          version := wrappingI64 (m.version + 1) }

/-- INTERNAL: what `truncate` keeps of one interval.
SRCLINE: extent_map.rs:276-283 -/
def clip (length : Nat) (interval : Interval) : Option Interval :=
  if length ≤ interval.start then none
  else if length < wrappingAdd interval.start interval.length then
    some { interval with length := length - interval.start }
  else some interval

/-- INTERNAL: cut or grow the file to `length` bytes.
SRCLINE: extent_map.rs:271-286 -/
def truncate (m : ExtentMap) (length : Nat) : Except MirageError ExtentMap :=
  .ok
    { m with
      intervals := m.intervals.filterMap (clip length)
      fileSize := length
      version := wrappingI64 (m.version + 1) }

/-- INTERNAL: the slice `[lo, hi)` of an interval, with its source advanced by the
bytes skipped.
SRCLINE: extent_map.rs:326-350 -/
def sliceOf (interval : Interval) (lo hi : Nat) : ExtentSlice :=
  let inside := lo - interval.start
  match interval.source with
  | .base pageHash baseOffset => .base lo (hi - lo) pageHash (wrappingAdd baseOffset inside)
  | .dirty payloadId payloadOffset =>
    .dirty lo (hi - lo) payloadId (wrappingAdd payloadOffset inside)
  | .zero => .zero lo (hi - lo)

/-- INTERNAL: the loop of `read` from `cursor` on: the slices it pushes and the cursor
it leaves.
SRCLINE: extent_map.rs:306-356 -/
def readLoop (hi : Nat) : List Interval → Nat → List ExtentSlice × Nat
  | [], cursor => ([], cursor)
  | interval :: rest, cursor =>
    if wrappingAdd interval.start interval.length ≤ cursor then readLoop hi rest cursor
    else
      let gapEnd := min interval.start hi
      let gap := if cursor < interval.start then [ExtentSlice.zero cursor (gapEnd - cursor)] else []
      let cursor := if cursor < interval.start then gapEnd else cursor
      if hi ≤ interval.start ∨ hi ≤ cursor then (gap, cursor)
      else
        let overlapStart := max cursor interval.start
        let overlapEnd := min hi (wrappingAdd interval.start interval.length)
        if overlapEnd ≤ overlapStart then
          let (slices, last) := readLoop hi rest cursor
          (gap ++ slices, last)
        else
          let slice := sliceOf interval overlapStart overlapEnd
          if hi ≤ overlapEnd then (gap ++ [slice], overlapEnd)
          else
            let (slices, last) := readLoop hi rest overlapEnd
            (gap ++ slice :: slices, last)

/-- INTERNAL: resolve `[start, start + length)` below the end of file.
SRCLINE: extent_map.rs:294-363 -/
def read (m : ExtentMap) (start length : Nat) : Except MirageError (List ExtentSlice) :=
  if length = 0 ∨ m.fileSize ≤ start then .ok []
  else
    match checkedAdd start length with
    | none => .error (.invalidArgument "read range overflows")
    | some sum =>
      let hi := min sum m.fileSize
      let (slices, cursor) := readLoop hi m.intervals start
      .ok (if cursor < hi then slices ++ [.zero cursor (hi - cursor)] else slices)

end ExtentMap

/-- INTERNAL: the mutations of a map, with arguments of the source's `u64` type. -/
inductive ExtentOp where
  | seedBase (length : UInt64) (baseIdentity : PageHash)
  | writeAt (start length : UInt64) (payloadId : PayloadId) (payloadOffset : UInt64)
  | truncate (newSize : UInt64)
  deriving DecidableEq

/-- INTERNAL: run one mutation. -/
def ExtentOp.apply (m : ExtentMap) : ExtentOp → Except MirageError ExtentMap
  | .seedBase length baseIdentity => .ok (m.seedBase length.toNat baseIdentity)
  | .writeAt start length payloadId payloadOffset =>
    m.writeAt start.toNat length.toNat payloadId payloadOffset.toNat
  | .truncate newSize => m.truncate newSize.toNat

/-!
## Extent maps and their durable rows

`to_extents` writes a map as the rows of one version, with every hole as a zero row, and
`replay` with `set_head` reads a version back.
-/

namespace ExtentMap

/-- INTERNAL: the loop of `to_extents`: the intervals with a zero interval before each
gap, and the cursor after the last one.
SRCLINE: extent_map.rs:381-393 -/
def fillHoles : List Interval → Nat → List Interval × Nat
  | [], cursor => ([], cursor)
  | interval :: rest, cursor =>
    let gap := if cursor < interval.start then
      [⟨cursor, interval.start - cursor, .zero⟩] else []
    let (filled, last) :=
      fillHoles rest (max cursor (wrappingAdd interval.start interval.length))
    (gap ++ interval :: filled, last)

/-- INTERNAL: the intervals up to the end of file, holes included.
SRCLINE: extent_map.rs:379-400 -/
def filledIntervals (m : ExtentMap) : List Interval :=
  let (filled, cursor) := fillHoles m.intervals 0
  if cursor < m.fileSize then filled ++ [⟨cursor, m.fileSize - cursor, .zero⟩] else filled

/-- INTERNAL: the row of one interval.
SRCLINE: extent_map.rs:401-440 -/
def extentOf (volumeId : RepositoryId) (inode : InodeId) (version nowNs : Int)
    (extentId : BitVec 128) (interval : Interval) : ByteExtent :=
  let row kind pageHash baseOffset payloadId payloadOffset : ByteExtent :=
    ⟨extentId, volumeId, inode, version, interval.start, interval.length, kind, pageHash,
      baseOffset, payloadId, payloadOffset, nowNs⟩
  match interval.source with
  | .base pageHash baseOffset => row .base (some pageHash) (some baseOffset) none none
  | .dirty payloadId payloadOffset => row .dirty none none (some payloadId) (some payloadOffset)
  | .zero => row .zero none none none none

/-- INTERNAL: the rows of a version; `nextExtentId` draws the ids.
SRCLINE: extent_map.rs:369-440 -/
def toExtents (m : ExtentMap) (volumeId : RepositoryId) (inode : InodeId) (version nowNs : Int)
    (nextExtentId : Nat → BitVec 128) : List ByteExtent :=
  m.filledIntervals.mapIdx fun n interval =>
    extentOf volumeId inode version nowNs (nextExtentId n) interval

/-- INTERNAL: the source a row names.
SRCLINE: extent_map.rs:107-123 -/
def sourceOf (extent : ByteExtent) : ExtentSource :=
  match extent.kind with
  | .base => .base (extent.pageHash.getD 0) (extent.baseOffset.getD 0)
  | .dirty => .dirty (extent.payloadId.getD 0) (extent.payloadOffset.getD 0)
  | .zero => .zero

/-- INTERNAL: the map of a version's rows.
SRCLINE: extent_map.rs:97-129 -/
def replay (extents : List ByteExtent) : ExtentMap where
  intervals := sortByStart (extents.map fun e => ⟨e.start, e.length, sourceOf e⟩)
  version := extents.foldl (fun version e => max version e.version) 0
  fileSize := extents.foldl (fun size e => max size (saturatingAdd e.start e.length)) 0
  historical := true

/-- INTERNAL: apply the durable head.
SRCLINE: extent_map.rs:144-148 -/
def setHead (m : ExtentMap) (version : Int) (eof : Nat) : ExtentMap :=
  { m with version := max m.version version, fileSize := eof, historical := true }

end ExtentMap

end Mirage.Model
