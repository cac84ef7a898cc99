import Mirage.Interface.PlannedReads

/-!
# Fetch windows cover their frames

Windows are made by the greedy loop of `Computation.Grouping`.  A frame joins the last window of its
object or starts one, so what a window covers is proved by the rounds that made it.
-/

set_option autoImplicit false

namespace Mirage.Analysis

open Mirage.Computation Mirage.Model Mirage.Interface

section Objects

variable {maxEncodedBytes maxGapBytes : UInt64} {frame : WindowFrame} {window window' : FetchWindow}

theorem compatible_iff (a b : FetchPriority) :
    compatible a b = true ↔ a.speculative = b.speculative := by
  cases a <;> cases b <;> decide

theorem least_eq (a b : FetchPriority) : a.least b = a ∨ a.least b = b := by
  unfold FetchPriority.least
  split_ifs
  · exact .inr rfl
  · exact .inl rfl

theorem rank_least (a b : FetchPriority) : (a.least b).rank = min a.rank b.rank := by
  unfold FetchPriority.least
  split_ifs with h <;> omega

theorem checkWindowFrame_ok (h : checkWindowFrame maxEncodedBytes frame = .ok ()) :
    0 < frame.range.len ∧ frame.range.endExclusive ≤ frame.object.byteLength.toNat ∧
      frame.range.len ≤ maxEncodedBytes.toNat := by
  have hbounds := ensure_ok h
  omega

theorem joinWindow_some
    (h : joinWindow maxEncodedBytes maxGapBytes window frame = .ok (some window')) :
    canJoin maxEncodedBytes maxGapBytes window frame ∧
      window'.range.start = window.range.start ∧
      window'.range.endExclusive = frame.range.endExclusive ∧
      window'.object = window.object ∧
      window'.priority = window.priority.least frame.priority ∧
      window'.frames = window.frames ++
        [⟨frame.pageHash, frame.range.start - window.range.start, frame.range.len⟩] ∧
      window'.gapBytes =
        window.gapBytes + (frame.range.start - window.range.endExclusive) := by
  unfold joinWindow at h
  split_ifs at h with hjoin
  · obtain ⟨range, hrange, h⟩ := except_bind_ok.mp h
    obtain rfl := Option.some.inj (Except.ok.inj h)
    have hafter := hjoin.2.1
    have hwindow := window.range.endExclusive_eq
    have hframe := frame.range.endExclusive_eq
    unfold CheckedRange.fromStartAndEnd at hrange
    rw [if_neg (by omega)] at hrange
    obtain ⟨hstart, hlen⟩ := CheckedRange.new_ok hrange
    refine ⟨hjoin, hstart, ?_, rfl, rfl, rfl, rfl⟩
    change range.endExclusive = _
    rw [range.endExclusive_eq, hstart, hlen]
    omega
  · cases Except.ok.inj h

/-- INTERNAL: the rounds that make a window. -/
abbrev WindowGathered (maxEncodedBytes maxGapBytes : UInt64) :
    FetchWindow → List WindowFrame → Prop :=
  Gathered (checkWindowFrame maxEncodedBytes) (joinWindow maxEncodedBytes maxGapBytes) startWindow

variable {part : List WindowFrame}

/-- INTERNAL: the window ends where its last frame does. -/
theorem window_end (h : WindowGathered maxEncodedBytes maxGapBytes window part) :
    part.getLast?.map (fun frame => frame.range.endExclusive) =
      some window.range.endExclusive := by
  cases h with
  | start _ hstart =>
    obtain rfl := Except.ok.inj hstart
    rfl
  | join _ _ hjoin =>
    obtain ⟨-, -, hend, -⟩ := joinWindow_some hjoin
    rw [List.getLast?_append, hend]
    rfl

theorem windowCovers_start (hcheck : checkWindowFrame maxEncodedBytes frame = .ok ())
    (hstart : startWindow frame = .ok window) :
    WindowCovers maxEncodedBytes maxGapBytes window [frame] := by
  obtain ⟨hpos, hinside, hlength⟩ := checkWindowFrame_ok hcheck
  obtain rfl := Except.ok.inj hstart
  refine ⟨List.cons_ne_nil _ _, ?_,
    List.forall_mem_singleton.mpr ⟨rfl, Nat.le_refl _, Nat.le_refl _⟩, hinside, hlength,
    .singleton _, ?_, ?_, ⟨⟨frame, List.mem_cons_self, rfl⟩,
      List.forall_mem_singleton.mpr (Nat.le_refl _)⟩, ?_⟩
  · rw [List.map_singleton, Nat.sub_self]
  · simp
  · simp
  · intro a ha b hb
    rw [List.mem_singleton.mp ha, List.mem_singleton.mp hb]

theorem windowCovers_join (h : WindowCovers maxEncodedBytes maxGapBytes window part)
    (hlast : part.getLast?.map (fun frame => frame.range.endExclusive) =
      some window.range.endExclusive) (hcheck : checkWindowFrame maxEncodedBytes frame = .ok ())
    (hjoin : joinWindow maxEncodedBytes maxGapBytes window frame = .ok (some window')) :
    WindowCovers maxEncodedBytes maxGapBytes window' (part ++ [frame]) := by
  obtain ⟨hpos, hinside, -⟩ := checkWindowFrame_ok hcheck
  obtain ⟨⟨hobject, hafter, hgap, hcombined, hcompatible⟩, hstart, hend, hobject', hpriority,
    hframes, hgaps⟩ := joinWindow_some hjoin
  have hwindow := window.range.endExclusive_eq
  have hwindow' := window'.range.endExclusive_eq
  have hframe := frame.range.endExclusive_eq
  have hsum : ((part ++ [frame]).map fun frame => frame.range.len).sum =
      (part.map fun frame => frame.range.len).sum + frame.range.len := by
    rw [List.map_append, List.sum_append, List.map_singleton, List.sum_singleton]
  have hgapBytes := h.gapBytes
  have hlengths := h.lengths
  have hclass := (compatible_iff _ _).mp hcompatible
  obtain ⟨⟨urgent, hurgent, hurgentEq⟩, hurgentLe⟩ := h.urgent
  -- all frames so far are of the class of the window, which is that of the new frame
  have hsame : ∀ a ∈ part, a.priority.speculative = frame.priority.speculative := fun a ha => by
    rw [h.uniform a ha urgent hurgent, hurgentEq, hclass]
  refine ⟨List.append_ne_nil_of_left_ne_nil h.nonempty _, ?_, ?_, ?_, by omega, ?_, ?_, ?_, ?_, ?_⟩
  · rw [hframes, h.frames, List.map_append, List.map_singleton, hstart]
  · intro a ha
    rcases List.mem_append.mp ha with ha | ha
    · obtain ⟨hobj, hfrom, hto⟩ := h.placed a ha
      exact ⟨hobj.trans hobject'.symm, by omega, by omega⟩
    · rw [List.mem_singleton.mp ha]
      exact ⟨hobject.symm.trans hobject'.symm, by omega, by omega⟩
  · rw [hend, hobject', hobject]
    exact hinside
  · refine List.isChain_append.mpr ⟨h.gaps, .singleton _, fun a ha b hb => ?_⟩
    obtain rfl := Option.some.inj hb
    rw [show part.getLast? = some a from ha] at hlast
    have haend : a.range.endExclusive = window.range.endExclusive := Option.some.inj hlast
    rw [haend]
    exact ⟨hafter, hgap⟩
  · rw [hgaps, hsum]
    omega
  · rw [hsum]
    omega
  · constructor
    · rcases least_eq window.priority frame.priority with heq | heq
      · exact ⟨urgent, List.mem_append_left _ hurgent, by rw [hurgentEq, hpriority, heq]⟩
      · exact ⟨frame, List.mem_append_right _ List.mem_cons_self, by rw [hpriority, heq]⟩
    · rw [hpriority, rank_least]
      intro a ha
      rcases List.mem_append.mp ha with ha | ha
      · exact (Nat.min_le_left _ _).trans (hurgentLe a ha)
      · rw [List.mem_singleton.mp ha]
        exact Nat.min_le_right _ _
  · have hall : ∀ a ∈ part ++ [frame], a.priority.speculative = frame.priority.speculative := by
      intro a ha
      rcases List.mem_append.mp ha with ha | ha
      · exact hsame a ha
      · rw [List.mem_singleton.mp ha]
    exact fun a ha b hb => (hall a ha).trans (hall b hb).symm

theorem windowCovers_of_gathered (h : WindowGathered maxEncodedBytes maxGapBytes window part) :
    WindowCovers maxEncodedBytes maxGapBytes window part := by
  induction h with
  | start hcheck hstart => exact windowCovers_start hcheck hstart
  | join before hcheck hjoin ih => exact windowCovers_join ih (window_end before) hcheck hjoin

/-- INTERNAL: the windows hold every frame once, each within the limits.
SRCLINE: mirage-scheduler/src/coalesce.rs:5-79 -/
theorem coalesce_loses_nothing (frames : List WindowFrame) (maxEncodedBytes maxGapBytes : UInt64)
    (windows : List FetchWindow)
    (h : coalesce frames maxEncodedBytes maxGapBytes = .ok windows) :
    ∃ parts : List (List WindowFrame), parts.flatten.Perm frames ∧
      List.Forall₂ (WindowCovers maxEncodedBytes maxGapBytes) windows parts := by
  obtain ⟨-, h⟩ := ensure_bind_ok.mp h
  obtain ⟨groups, rfl, hgroups⟩ := gather_ok h
  refine ⟨groups.map Prod.snd, ?_, ?_⟩
  · rw [← List.flatMap_def, hgroups.parts]
    exact List.perm_insertionSort _ frames
  · rw [List.forall₂_map_left_iff, List.forall₂_map_right_iff, List.forall₂_same]
    exact fun x hx => windowCovers_of_gathered (hgroups.made x hx)

/-- INTERNAL: an object of a hundred bytes. -/
def smallObject : RemoteObjectRef where
  backendId := ⟨['b'], by decide⟩
  providerObjectId := ⟨['o'], by decide⟩
  immutableRevision := none
  byteLength := 100
  contentHash := 0
  kind := .pack

/-- INTERNAL: a blocking frame joins the mandatory one ten bytes before it, and a frame that is
listed twice is fetched twice. -/
theorem coalesce_three_frames :
    let first : WindowFrame := ⟨1, smallObject, ⟨0, 10, by decide⟩, .p1Mandatory⟩
    let second : WindowFrame := ⟨2, smallObject, ⟨20, 10, by decide⟩, .p0Blocking⟩
    ∃ windows, coalesce [second, first, second] 64 16 = .ok windows ∧ windows.length = 2 ∧
      ∃ parts : List (List WindowFrame), parts.flatten.Perm [second, first, second] ∧
        List.Forall₂ (WindowCovers 64 16) windows parts := by
  intro first second
  have hrun : coalesce [second, first, second] 64 16 = .ok
      [⟨smallObject, ⟨0, 30, by decide⟩, .p0Blocking, [⟨1, 0, 10⟩, ⟨2, 20, 10⟩], 10⟩,
        ⟨smallObject, ⟨20, 10, by decide⟩, .p0Blocking, [⟨2, 0, 10⟩], 0⟩] := by
    decide +kernel
  exact ⟨_, hrun, rfl, coalesce_loses_nothing _ 64 16 _ hrun⟩

end Objects

end Mirage.Analysis
