import Mirage.Computation.Tiling
import Mirage.Model.ExtentMap

/-!
# A file as an array of symbolic bytes

What the extent map is for: a file is a length and, for each offset, the origin of the
byte there.  The operations are those of a plain array: the last write to an offset
wins, the bytes between the old end and a later write are zero, and a shrinking
truncate forgets what it cuts.  `intervalChart` and `sliceChart` read an interval of
the map and a slice of a read as pieces of such an array.
-/

set_option autoImplicit false

namespace Mirage.Interface

open Mirage.Model Mirage.Computation

/-- INTERNAL: the origin of one byte: byte `offset` of a base page, byte `offset` of a
staged payload, or a zero. -/
inductive SymByte where
  | base (pageHash : PageHash) (offset : ℕ)
  | payload (payloadId : PayloadId) (offset : ℕ)
  | zero
  deriving DecidableEq

/-- INTERNAL: a length and the byte at each offset. -/
structure ByteFile where
  size : ℕ
  byte : ℕ → SymByte

namespace ByteFile

/-- INTERNAL: the empty file. -/
def empty : ByteFile := ⟨0, fun _ => .zero⟩

/-- INTERNAL: the first `length` bytes of a base page. -/
def ofBase (length : ℕ) (pageHash : PageHash) : ByteFile :=
  ⟨length, fun o => if o < length then .base pageHash o else .zero⟩

/-- INTERNAL: put `length` bytes of a payload at `start`; nothing happens for no bytes. -/
def write (f : ByteFile) (start length : ℕ) (payloadId : PayloadId) (payloadOffset : ℕ) :
    ByteFile :=
  if length = 0 then f
  else
    { size := max f.size (start + length)
      byte := fun o =>
        if start ≤ o ∧ o < start + length then .payload payloadId (payloadOffset + (o - start))
        else if o < f.size then f.byte o
        else .zero }

/-- INTERNAL: cut or grow to `newSize`; only offsets below both sizes keep their byte. -/
def truncate (f : ByteFile) (newSize : ℕ) : ByteFile :=
  { size := newSize
    byte := fun o => if o < newSize ∧ o < f.size then f.byte o else .zero }

/-- INTERNAL: the array operation a map mutation stands for.  Seeding is only used on a
fresh map, so it is the base file itself. -/
def step (f : ByteFile) : ExtentOp → ByteFile
  | .seedBase length baseIdentity => ofBase length.toNat baseIdentity
  | .writeAt start length payloadId payloadOffset =>
    f.write start.toNat length.toNat payloadId payloadOffset.toNat
  | .truncate newSize => f.truncate newSize.toNat

end ByteFile

/-- INTERNAL: the byte a source denotes `i` bytes into its interval. -/
def sourceByte (i : ℕ) : ExtentSource → SymByte
  | .base pageHash baseOffset => .base pageHash (baseOffset + i)
  | .dirty payloadId payloadOffset => .payload payloadId (payloadOffset + i)
  | .zero => .zero

/-- INTERNAL: an interval as a piece of the array. -/
def intervalChart : Chart Interval SymByte where
  lo := Interval.start
  hi := fun iv => iv.start + iv.length
  val := fun iv o => sourceByte (o - iv.start) iv.source

/-- INTERNAL: the byte a slice denotes at the offset `o` of the file. -/
def sliceByte (o : ℕ) : ExtentSlice → SymByte
  | .base start _ pageHash baseOffset => .base pageHash (baseOffset + (o - start))
  | .dirty start _ payloadId payloadOffset => .payload payloadId (payloadOffset + (o - start))
  | .zero _ _ => .zero

/-- INTERNAL: a slice as a piece of the array. -/
def sliceChart : Chart ExtentSlice SymByte where
  lo := ExtentSlice.start
  hi := fun s => s.start + s.length
  val := fun s o => sliceByte o s

/-- INTERNAL: when a mutation may be issued: seeding only on a fresh map, and a write
whose bytes lie inside the `u64` range of its payload. -/
def ExtentOpAllowed (m : ExtentMap) : ExtentOp → Prop
  | .seedBase _ _ => m = ExtentMap.default
  | .writeAt _ length _ payloadOffset => payloadOffset.toNat + length.toNat ≤ u64Max
  | .truncate _ => True

/-- INTERNAL: the maps reached from the default map by successful mutations, each with
the array the same mutations produce. -/
inductive ExtentRun : ExtentMap → ByteFile → Prop where
  | start : ExtentRun ExtentMap.default ByteFile.empty
  | step {m m' : ExtentMap} {f : ByteFile} (op : ExtentOp) (run : ExtentRun m f)
      (allowed : ExtentOpAllowed m op) (ok : op.apply m = .ok m') :
      ExtentRun m' (f.step op)

end Mirage.Interface
