import Mirage.Model.FetchRanges

/-!
# What planned reads promise

A plan is described by the parts of its input, one for each read: together the parts are the
input, and each read covers its part within the limits.
-/

set_option autoImplicit false

namespace Mirage.Interface

open Mirage.Model

/-! ## Packs -/

/-- INTERNAL: the place behind a frame. -/
def frameEnd (entry : PackEntry) : Nat := entry.frameOffset + entry.frameLength

/-- INTERNAL: the frame is not empty, inside the pack and no longer than a window. -/
def FrameFits (packLength maxWindow : UInt64) (entry : PackEntry) : Prop :=
  0 < entry.frameLength ∧ frameEnd entry ≤ packLength.toNat ∧
    entry.frameLength ≤ maxWindow.toNat

/-- INTERNAL: the frames share no byte. -/
def FramesApart (a b : PackEntry) : Prop :=
  frameEnd a ≤ b.frameOffset ∨ frameEnd b ≤ a.frameOffset

/-- INTERNAL: the frame lies in the range. -/
def FrameIn (entry : PackEntry) (range : CheckedRange) : Prop :=
  range.start ≤ entry.frameOffset ∧ frameEnd entry ≤ range.endExclusive

/-- INTERNAL: the range covers the frames from the first to the last one, in their order. -/
structure RangeCovers (packLength maxGap maxWindow : UInt64) (planned : PlannedRange)
    (part : List PackEntry) : Prop where
  pages : planned.pages = part.map PackEntry.pageHash
  starts : part.head?.map PackEntry.frameOffset = some planned.range.start
  ends : part.getLast?.map frameEnd = some planned.range.endExclusive
  ordered : part.Pairwise fun a b => frameEnd a ≤ b.frameOffset
  gaps : part.IsChain fun a b => b.frameOffset - frameEnd a ≤ maxGap.toNat
  window : planned.range.len ≤ maxWindow.toNat
  inside : planned.range.endExclusive ≤ packLength.toNat

/-- INTERNAL: the ranges cover the frames exactly, and none could be merged with the next. -/
structure ExactCover (entries : List PackEntry) (packLength maxGap maxWindow : UInt64)
    (plan : List PlannedRange) : Prop where
  parts : ∃ parts : List (List PackEntry), parts.flatten.Perm entries ∧
    List.Forall₂ (RangeCovers packLength maxGap maxWindow) plan parts
  once : ∀ entry ∈ entries, ∃! planned, planned ∈ plan ∧ FrameIn entry planned.range
  increasing : plan.Pairwise fun a b => a.range.endExclusive ≤ b.range.start
  maximal : plan.IsChain fun a b => maxGap.toNat < b.range.start - a.range.endExclusive ∨
    maxWindow.toNat < b.range.endExclusive - a.range.start

/-! ## Remote objects -/

/-- INTERNAL: the window holds the frames of the part, each where its range starts. -/
structure WindowCovers (maxEncodedBytes maxGapBytes : UInt64) (window : FetchWindow)
    (part : List WindowFrame) : Prop where
  nonempty : part ≠ []
  frames : window.frames = part.map fun frame =>
    ⟨frame.pageHash, frame.range.start - window.range.start, frame.range.len⟩
  placed : ∀ frame ∈ part, frame.object = window.object ∧
    window.range.start ≤ frame.range.start ∧
    frame.range.endExclusive ≤ window.range.endExclusive
  inside : window.range.endExclusive ≤ window.object.byteLength.toNat
  bounded : window.range.len ≤ maxEncodedBytes.toNat
  gaps : part.IsChain fun a b => a.range.endExclusive ≤ b.range.start ∧
    b.range.start - a.range.endExclusive ≤ maxGapBytes.toNat
  gapBytes : window.gapBytes =
    window.range.len - (part.map fun frame => frame.range.len).sum
  lengths : (part.map fun frame => frame.range.len).sum ≤ window.range.len
  urgent : (∃ frame ∈ part, frame.priority = window.priority) ∧
    ∀ frame ∈ part, window.priority.rank ≤ frame.priority.rank
  uniform : ∀ a ∈ part, ∀ b ∈ part, a.priority.speculative = b.priority.speculative

end Mirage.Interface
