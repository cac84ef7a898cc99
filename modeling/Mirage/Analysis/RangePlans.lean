import Mirage.Computation.Bisect
import Mirage.Computation.Tiling
import Mirage.Interface.PlannedReads

/-!
# Planned reads cover their frames

The planner is the greedy loop of `Computation.Grouping`, so what it makes is proved of one group
by the rounds that made it, and of neighbours by the round that refused to join them.
-/

set_option autoImplicit false

namespace Mirage.Analysis

open Mirage.Computation Mirage.Model Mirage.Interface

/-! ## One planned range -/

section Packs

variable {packLength maxGap maxWindow : UInt64} {entry : PackEntry}
  {planned planned' : PlannedRange}

theorem checkFrameRange_ok :
    checkFrameRange packLength maxWindow entry = .ok () ↔ FrameFits packLength maxWindow entry := by
  have hpack : packLength.toNat ≤ u64Max := Nat.le_pred_of_lt packLength.toNat_lt
  unfold checkFrameRange
  rw [someOr_bind_ok]
  unfold FrameFits frameEnd ensure
  constructor
  · rintro ⟨stop, hstop, hfits⟩
    obtain ⟨rfl, -⟩ := checkedAdd_eq_some hstop
    split_ifs at hfits with hin
    omega
  · rintro ⟨hpos, hend, hlength⟩
    refine ⟨_, if_pos (by omega), ?_⟩
    rw [if_pos (by omega)]

theorem startRange_ok (h : startRange entry = .ok planned) :
    planned.range.start = entry.frameOffset ∧ planned.range.len = entry.frameLength ∧
      planned.pages = [entry.pageHash] := by
  obtain ⟨range, hrange, h⟩ := except_bind_ok.mp h
  obtain rfl := Except.ok.inj h
  obtain ⟨hstart, hlen⟩ := CheckedRange.new_ok hrange
  exact ⟨hstart, hlen, rfl⟩

theorem joinRange_some (h : joinRange maxGap maxWindow planned entry = .ok (some planned')) :
    planned.range.endExclusive ≤ entry.frameOffset ∧
      entry.frameOffset - planned.range.endExclusive ≤ maxGap.toNat ∧
      planned'.range.start = planned.range.start ∧
      planned'.range.len = frameEnd entry - planned.range.start ∧
      planned'.range.len ≤ maxWindow.toNat ∧
      planned'.pages = planned.pages ++ [entry.pageHash] := by
  obtain ⟨hafter, h⟩ := ensure_bind_ok.mp h
  dsimp only at h
  split_ifs at h with hlimits
  · obtain ⟨range, hrange, h⟩ := except_bind_ok.mp h
    obtain rfl := Option.some.inj (Except.ok.inj h)
    obtain ⟨hstart, hlen⟩ := CheckedRange.new_ok hrange
    refine ⟨hafter, hlimits.1, hstart, hlen, ?_, rfl⟩
    change range.len ≤ _
    rw [hlen]
    exact hlimits.2
  · cases Except.ok.inj h

theorem joinRange_none (h : joinRange maxGap maxWindow planned entry = .ok none) :
    planned.range.endExclusive ≤ entry.frameOffset ∧
      (maxGap.toNat < entry.frameOffset - planned.range.endExclusive ∨
        maxWindow.toNat < frameEnd entry - planned.range.start) := by
  obtain ⟨hafter, h⟩ := ensure_bind_ok.mp h
  dsimp only at h
  split_ifs at h with hlimits
  · obtain ⟨range, -, h⟩ := except_bind_ok.mp h
    cases Except.ok.inj h
  · refine ⟨hafter, ?_⟩
    unfold frameEnd
    omega

/-- INTERNAL: the rounds that make a range. -/
abbrev RangeGathered (packLength maxGap maxWindow : UInt64) :
    PlannedRange → List PackEntry → Prop :=
  Gathered (checkFrameRange packLength maxWindow) (joinRange maxGap maxWindow) startRange

variable {part : List PackEntry}

/-- INTERNAL: every frame of the part lies in the range, because the frames are in order. -/
theorem frameIn_of_covers (h : RangeCovers packLength maxGap maxWindow planned part)
    (hcheck : ∀ a ∈ part, checkFrameRange packLength maxWindow a = .ok ()) :
    ∀ a ∈ part, FrameIn a planned.range := by
  intro a ha
  obtain ⟨hpos, -⟩ := checkFrameRange_ok.mp (hcheck a ha)
  constructor
  · obtain ⟨first, hfirst, hstart⟩ := Option.map_eq_some_iff.mp h.starts
    obtain ⟨rest, rfl⟩ := List.head?_eq_some_iff.mp hfirst
    rcases List.mem_cons.mp ha with rfl | hrest
    · exact hstart.ge
    · have hafter := (List.pairwise_cons.mp h.ordered).1 a hrest
      unfold frameEnd at hafter
      omega
  · obtain ⟨last, hlast, hend⟩ := Option.map_eq_some_iff.mp h.ends
    obtain ⟨front, rfl⟩ := List.getLast?_eq_some_iff.mp hlast
    rcases List.mem_append.mp ha with hfront | hlast
    · have hbefore := (List.pairwise_append.mp h.ordered).2.2 a hfront last List.mem_cons_self
      have hle : last.frameOffset ≤ frameEnd last := Nat.le_add_right _ _
      omega
    · rw [List.mem_singleton.mp hlast]
      exact hend.le

theorem rangeCovers_of_gathered (h : RangeGathered packLength maxGap maxWindow planned part) :
    RangeCovers packLength maxGap maxWindow planned part := by
  induction h with
  | @start entry planned hcheck hstart =>
    obtain ⟨hpos, hend, hlength⟩ := checkFrameRange_ok.mp hcheck
    obtain ⟨hfrom, hlen, hpages⟩ := startRange_ok hstart
    have hstop : planned.range.endExclusive = frameEnd entry := by
      rw [planned.range.endExclusive_eq, hfrom, hlen, frameEnd]
    refine ⟨hpages, congrArg some hfrom.symm, congrArg some hstop.symm,
      List.pairwise_singleton _ _, .singleton _, hlen ▸ hlength, hstop ▸ hend⟩
  | @join planned planned' part entry before hcheck hjoin ih =>
    obtain ⟨hpos, hend, hlength⟩ := checkFrameRange_ok.mp hcheck
    obtain ⟨hafter, hgap, hfrom, hlen, hwindow, hpages⟩ := joinRange_some hjoin
    obtain ⟨last, hlast, hlastEnd⟩ := Option.map_eq_some_iff.mp ih.ends
    have hstop : planned'.range.endExclusive = frameEnd entry := by
      have hbefore := planned.range.endExclusive_eq
      rw [planned'.range.endExclusive_eq, hfrom, hlen]
      unfold frameEnd
      omega
    have hbehind : ∀ a ∈ part, frameEnd a ≤ entry.frameOffset := fun a ha =>
      (frameIn_of_covers ih before.checked a ha).2.trans hafter
    refine ⟨?_, ?_, ?_, ?_, ?_, hwindow, hstop ▸ hend⟩
    · rw [hpages, ih.pages, List.map_append, List.map_singleton]
    · obtain ⟨first, hfirst, hfirstStart⟩ := Option.map_eq_some_iff.mp ih.starts
      rw [List.head?_append, hfirst, hfrom]
      exact congrArg some hfirstStart
    · rw [List.getLast?_append, hstop]
      rfl
    · refine List.pairwise_append.mpr ⟨ih.ordered, List.pairwise_singleton _ _, fun a ha b hb => ?_⟩
      rw [List.mem_singleton.mp hb]
      exact hbehind a ha
    · refine List.isChain_append.mpr ⟨ih.gaps, .singleton _, fun a ha b hb => ?_⟩
      obtain rfl := Option.some.inj hb
      obtain rfl : last = a := Option.some.inj (hlast.symm.trans ha)
      rw [hlastEnd]
      exact hgap

theorem frameIn_of_gathered (h : RangeGathered packLength maxGap maxWindow planned part) :
    ∀ a ∈ part, FrameIn a planned.range :=
  frameIn_of_covers (rangeCovers_of_gathered h) h.checked

/-! ## Neighbouring ranges -/

/-- INTERNAL: the second range comes after the first and is out of its reach. -/
def OutOfReach (maxGap maxWindow : UInt64) (a b : PlannedRange) : Prop :=
  a.range.endExclusive ≤ b.range.start ∧
    (maxGap.toNat < b.range.start - a.range.endExclusive ∨
      maxWindow.toNat < b.range.endExclusive - a.range.start)

theorem outOfReach_of_refused {x y : PlannedRange × List PackEntry}
    (hy : RangeGathered packLength maxGap maxWindow y.1 y.2)
    (h : Refused (joinRange maxGap maxWindow) x y) : OutOfReach maxGap maxWindow x.1 y.1 := by
  obtain ⟨first, rest, hpart, hrefused⟩ := h
  obtain ⟨hafter, hlimit⟩ := joinRange_none hrefused
  have hcovers := rangeCovers_of_gathered hy
  have hin := frameIn_of_gathered hy first (by rw [hpart]; exact List.mem_cons_self)
  have hstart := hcovers.starts
  rw [hpart] at hstart
  have hfirst : first.frameOffset = y.1.range.start := Option.some.inj hstart
  rw [hfirst] at hafter hlimit
  have hend := hin.2
  exact ⟨hafter, by omega⟩

/-- INTERNAL: the ranges of a plan with the parts they cover. -/
abbrev RangeGathering (packLength maxGap maxWindow : UInt64) :
    List (PlannedRange × List PackEntry) → List PackEntry → Prop :=
  Gathering (checkFrameRange packLength maxWindow) (joinRange maxGap maxWindow) startRange

variable {groups : List (PlannedRange × List PackEntry)} {l : List PackEntry}

theorem outOfReach_groups (h : RangeGathering packLength maxGap maxWindow groups l) :
    groups.IsChain fun x y => OutOfReach maxGap maxWindow x.1 y.1 :=
  h.refused.imp_of_mem_imp fun _ y _ hy hrefused => outOfReach_of_refused (h.made y hy) hrefused

/-- INTERNAL: ranges that follow each other increase. -/
theorem increasing_groups (h : RangeGathering packLength maxGap maxWindow groups l) :
    groups.Pairwise fun x y => x.1.range.endExclusive ≤ y.1.range.start := by
  have htrans : IsTrans (PlannedRange × List PackEntry)
      fun x y => x.1.range.endExclusive ≤ y.1.range.start := ⟨fun x y z hxy hyz => by
    have hmiddle := y.1.range.endExclusive_eq
    omega⟩
  exact List.isChain_iff_pairwise.mp ((outOfReach_groups h).imp fun _ _ hxy => hxy.1)

/-- INTERNAL: the frames in the order of the plan. -/
theorem ordered_frames (h : RangeGathering packLength maxGap maxWindow groups l) :
    l.Pairwise fun a b => frameEnd a ≤ b.frameOffset := by
  rw [← h.parts, List.pairwise_flatMap]
  constructor
  · exact fun x hx => (rangeCovers_of_gathered (h.made x hx)).ordered
  · refine (increasing_groups h).imp_of_mem fun {x y} hx hy hxy a ha b hb => ?_
    have hxin := frameIn_of_gathered (h.made x hx) a ha
    have hyin := frameIn_of_gathered (h.made y hy) b hb
    exact hxin.2.trans (hxy.trans hyin.1)

theorem fits_frames (h : RangeGathering packLength maxGap maxWindow groups l) :
    ∀ entry ∈ l, FrameFits packLength maxWindow entry := by
  rw [← h.parts]
  intro entry hentry
  obtain ⟨x, hx, hin⟩ := List.mem_flatMap.mp hentry
  exact checkFrameRange_ok.mp ((h.made x hx).checked entry hin)

/-- INTERNAL: a frame lies in one range only. -/
theorem frameIn_unique {plan : List PlannedRange}
    (hplan : plan.Pairwise fun a b => a.range.endExclusive ≤ b.range.start)
    (hpos : 0 < entry.frameLength) (ha : planned ∈ plan) (hain : FrameIn entry planned.range)
    (hb : planned' ∈ plan) (hbin : FrameIn entry planned'.range) : planned = planned' := by
  by_contra hne
  have hsymm : Std.Symm fun a b : PlannedRange => a.range.endExclusive ≤ b.range.start ∨
      b.range.endExclusive ≤ a.range.start := ⟨fun _ _ => Or.symm⟩
  have hpairs : plan.Pairwise fun a b => a.range.endExclusive ≤ b.range.start ∨
      b.range.endExclusive ≤ a.range.start := hplan.imp fun hab => Or.inl hab
  have hapart := hpairs.forall ha hb hne
  obtain ⟨hafrom, hato⟩ := hain
  obtain ⟨hbfrom, hbto⟩ := hbin
  unfold frameEnd at hato hbto
  omega

theorem exactCover_of_gathering {entries : List PackEntry}
    (h : RangeGathering packLength maxGap maxWindow groups l) (hperm : l.Perm entries) :
    ExactCover entries packLength maxGap maxWindow (groups.map Prod.fst) := by
  have hincreasing : (groups.map Prod.fst).Pairwise
      fun a b : PlannedRange => a.range.endExclusive ≤ b.range.start :=
    List.pairwise_map.mpr (increasing_groups h)
  refine ⟨⟨groups.map Prod.snd, ?_, ?_⟩, fun entry hentry => ?_, hincreasing, ?_⟩
  · rw [← List.flatMap_def, h.parts]
    exact hperm
  · rw [List.forall₂_map_left_iff, List.forall₂_map_right_iff, List.forall₂_same]
    exact fun x hx => rangeCovers_of_gathered (h.made x hx)
  · have hl := hperm.mem_iff.mpr hentry
    have hpos := (fits_frames h entry hl).1
    rw [← h.parts] at hl
    obtain ⟨x, hx, hin⟩ := List.mem_flatMap.mp hl
    have hxin := frameIn_of_gathered (h.made x hx) entry hin
    have hmem : x.1 ∈ groups.map Prod.fst := List.mem_map_of_mem hx
    exact ⟨x.1, ⟨hmem, hxin⟩, fun other hother =>
      frameIn_unique hincreasing hpos hother.1 hother.2 hmem hxin⟩
  · rw [List.isChain_map]
    exact (outOfReach_groups h).imp fun _ _ hxy => hxy.2

/-! ## Plans that succeed -/

theorem joinRange_returns (maxGap : UInt64) (hfits : FrameFits packLength maxWindow entry)
    (hafter : planned.range.endExclusive ≤ entry.frameOffset) :
    ∃ joined, joinRange maxGap maxWindow planned entry = .ok joined ∧
      ∀ planned' ∈ joined, planned'.range.endExclusive = frameEnd entry := by
  have hpack : packLength.toNat ≤ u64Max := Nat.le_pred_of_lt packLength.toNat_lt
  have hend := planned.range.endExclusive_eq
  obtain ⟨hpos, hin, -⟩ := hfits
  unfold frameEnd at hin ⊢
  unfold joinRange
  rw [ensure, if_pos hafter, ok_bind rfl]
  dsimp only
  split_ifs with hlimits
  · rw [ok_bind (CheckedRange.new_returns (by omega))]
    refine ⟨_, rfl, fun planned' hplanned' => ?_⟩
    obtain rfl := Option.some.inj hplanned'
    rw [CheckedRange.endExclusive_eq]
    change planned.range.start + (_ - planned.range.start) = _
    omega
  · exact ⟨none, rfl, nofun⟩

theorem startRange_returns (hfits : FrameFits packLength maxWindow entry) :
    ∃ planned, startRange entry = .ok planned ∧ planned.range.endExclusive = frameEnd entry := by
  have hpack : packLength.toNat ≤ u64Max := Nat.le_pred_of_lt packLength.toNat_lt
  obtain ⟨hpos, hin, -⟩ := hfits
  unfold frameEnd at hin
  unfold startRange
  rw [ok_bind (CheckedRange.new_returns (by omega))]
  exact ⟨_, rfl, CheckedRange.endExclusive_eq _⟩

/-- INTERNAL: the loop goes through frames that fit and come one after another. -/
theorem gatherRanges_returns (maxGap : UInt64)
    (hfits : ∀ entry ∈ l, FrameFits packLength maxWindow entry)
    (hordered : l.Pairwise fun a b => frameEnd a ≤ b.frameOffset) :
    ∃ plan, gather (checkFrameRange packLength maxWindow) (joinRange maxGap maxWindow) startRange
      [] l = .ok plan := by
  refine gather_returns (fun last rest => (∀ entry ∈ rest, FrameFits packLength maxWindow entry) ∧
    (rest.Pairwise fun a b => frameEnd a ≤ b.frameOffset) ∧
    ∀ planned ∈ last, ∀ entry ∈ rest, planned.range.endExclusive ≤ entry.frameOffset)
    ⟨hfits, hordered, nofun⟩ ?_
  rintro last a rest ⟨hfits, hordered, hlast⟩
  have ha := hfits a List.mem_cons_self
  have hrest : ∀ entry ∈ rest, FrameFits packLength maxWindow entry :=
    fun entry hentry => hfits entry (List.mem_cons_of_mem a hentry)
  obtain ⟨hafter, hordered⟩ := List.pairwise_cons.mp hordered
  -- a range that ends where the frame does is before everything that is left
  have hnext : ∀ planned : PlannedRange, planned.range.endExclusive = frameEnd a →
      ∀ p ∈ some planned, ∀ entry ∈ rest, p.range.endExclusive ≤ entry.frameOffset := by
    intro planned hplanned p hp entry hentry
    obtain rfl := Option.some.inj hp
    rw [hplanned]
    exact hafter entry hentry
  refine ⟨checkFrameRange_ok.mpr ha, ?_, fun planned hplanned => ?_⟩
  · obtain ⟨planned, hstart, hplanned⟩ := startRange_returns ha
    exact ⟨planned, hstart, hrest, hordered, hnext planned hplanned⟩
  · obtain ⟨joined, hjoin, hjoined⟩ := joinRange_returns maxGap ha
      (hlast planned hplanned a List.mem_cons_self)
    exact ⟨joined, hjoin, fun planned' hmem =>
      ⟨hrest, hordered, hnext planned' (hjoined planned' hmem)⟩⟩

theorem ordered_of_apart {entries : List PackEntry}
    (hfits : ∀ entry ∈ entries, FrameFits packLength maxWindow entry)
    (hapart : entries.Pairwise FramesApart) :
    (entries.insertionSort fun a b => a.frameOffset ≤ b.frameOffset).Pairwise
      fun a b => frameEnd a ≤ b.frameOffset := by
  have hperm := List.perm_insertionSort (fun a b : PackEntry => a.frameOffset ≤ b.frameOffset)
    entries
  have hsorted := pairwise_le_insertionSort PackEntry.frameOffset (l := entries)
  have hapart' := hapart.perm hperm.symm fun hab => Or.symm hab
  refine (hsorted.and hapart').imp_of_mem fun {a b} ha hb hab => ?_
  obtain ⟨hle, hab⟩ := hab
  have hpos := (hfits b (hperm.mem_iff.mp hb)).1
  unfold FramesApart frameEnd at hab
  unfold frameEnd
  omega

/-- INTERNAL: a plan covers its frames exactly, and there is one whenever the frames fit, share
no byte and the window is not empty.
SRCLINE: mirage-pack/src/range_plan.rs:11-54 -/
theorem plan_ranges_exact (entries : List PackEntry) (packLength maxGap maxWindow : UInt64) :
    (∀ plan, planRanges entries packLength maxGap maxWindow = .ok plan →
      ExactCover entries packLength maxGap maxWindow plan) ∧
    ((∃ plan, planRanges entries packLength maxGap maxWindow = .ok plan) ↔
      maxWindow ≠ 0 ∧ (∀ entry ∈ entries, FrameFits packLength maxWindow entry) ∧
        entries.Pairwise FramesApart) := by
  have hperm := List.perm_insertionSort (fun a b : PackEntry => a.frameOffset ≤ b.frameOffset)
    entries
  refine ⟨fun plan hplan => ?_, ?_, ?_⟩
  · obtain ⟨-, hplan⟩ := ensure_bind_ok.mp hplan
    obtain ⟨groups, rfl, hgroups⟩ := gather_ok hplan
    exact exactCover_of_gathering hgroups hperm
  · rintro ⟨plan, hplan⟩
    obtain ⟨hwindow, hplan⟩ := ensure_bind_ok.mp hplan
    obtain ⟨groups, -, hgroups⟩ := gather_ok hplan
    refine ⟨hwindow, fun entry hentry => fits_frames hgroups entry (hperm.mem_iff.mpr hentry), ?_⟩
    exact ((ordered_frames hgroups).imp fun hab => Or.inl hab).perm hperm fun hab => Or.symm hab
  · rintro ⟨hwindow, hfits, hapart⟩
    obtain ⟨plan, hplan⟩ := gatherRanges_returns maxGap
      (fun entry hentry => hfits entry (hperm.mem_iff.mp hentry)) (ordered_of_apart hfits hapart)
    exact ⟨plan, ensure_bind_ok.mpr ⟨hwindow, hplan⟩⟩

/-- INTERNAL: without frames, only the window decides. -/
theorem empty_plan_needs_window :
    ((∀ entry ∈ ([] : List PackEntry), FrameFits 4096 0 entry) ∧
        ([] : List PackEntry).Pairwise FramesApart) ∧
      planRanges [] 4096 0 0 = .error (.invalidArgument "range window must be positive") :=
  ⟨⟨nofun, .nil⟩, by decide⟩

end Packs

end Mirage.Analysis
