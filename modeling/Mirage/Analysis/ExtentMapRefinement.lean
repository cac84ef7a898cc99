import Mathlib.Data.List.Flatten
import Mirage.Interface.ExtentRun

/-!
# Splicing, merging and clipping interval lists

The three rewrites of an interval list inside the extent map, each with what it does to
the list's order and to the function the list describes.  `splice` overrides the
replaced range and keeps every other offset, `coalesce` changes no offset, and clipping
forgets the offsets past the new end.  The `u64` sums of the source do not wrap on lists
that satisfy `IntervalsOk`.
-/

set_option autoImplicit false

namespace Mirage.Analysis

open Mirage.Model Mirage.Model.ExtentMap Mirage.Interface Mirage.Computation

/-- INTERNAL: the offset inside the source at which an interval begins. -/
def sourceOffset : ExtentSource → ℕ
  | .base _ baseOffset => baseOffset
  | .dirty _ payloadOffset => payloadOffset
  | .zero => 0

/-- INTERNAL: a non-empty interval that ends by `bound` and whose source range fits. -/
structure IntervalOk (bound : ℕ) (iv : Interval) : Prop where
  pos : 0 < iv.length
  inside : iv.start + iv.length ≤ bound
  fits : sourceOffset iv.source + iv.length ≤ u64Max

/-- INTERNAL: the shape every interval list of a reachable map has. -/
structure IntervalsOk (bound : ℕ) (l : List Interval) : Prop where
  each : ∀ iv ∈ l, IntervalOk bound iv
  ordered : l.Pairwise intervalChart.Before

/-- INTERNAL: non-empty intervals that end by `bound`, one before the other. -/
structure Spread (bound : ℕ) (l : List Interval) : Prop where
  each : ∀ iv ∈ l, 0 < iv.length ∧ iv.start + iv.length ≤ bound
  ordered : l.Pairwise intervalChart.Before

theorem IntervalsOk.spread {bound : ℕ} {l : List Interval} (h : IntervalsOk bound l) :
    Spread bound l :=
  ⟨fun iv hiv => ⟨(h.each iv hiv).pos, (h.each iv hiv).inside⟩, h.ordered⟩

theorem Spread.tail {bound : ℕ} {iv : Interval} {l : List Interval} (h : Spread bound (iv :: l)) :
    Spread bound l :=
  ⟨fun x hx => h.each x (List.mem_cons_of_mem _ hx), (List.pairwise_cons.mp h.ordered).2⟩

/-! ## Advancing a source -/

/-- INTERNAL: advancing a source moves its offset. -/
theorem sourceOffset_advance_le {src : ExtentSource} {n : ℕ}
    (h : sourceOffset src + n ≤ u64Max) :
    sourceOffset (src.advance n) ≤ sourceOffset src + n := by
  cases src with
  | base pageHash baseOffset => exact (wrappingAdd_eq h).le
  | dirty payloadId payloadOffset => exact (wrappingAdd_eq h).le
  | zero => exact Nat.zero_le _

/-- INTERNAL: byte `i` of an advanced source is byte `n + i` of the source. -/
theorem sourceByte_advance {src : ExtentSource} {n : ℕ} (h : sourceOffset src + n ≤ u64Max)
    (i : ℕ) : sourceByte i (src.advance n) = sourceByte (n + i) src := by
  cases src with
  | base pageHash baseOffset =>
    simp only [ExtentSource.advance, sourceByte, wrappingAdd_eq (show baseOffset + n ≤ _ from h),
      Nat.add_assoc]
  | dirty payloadId payloadOffset =>
    simp only [ExtentSource.advance, sourceByte,
      wrappingAdd_eq (show payloadOffset + n ≤ _ from h), Nat.add_assoc]
  | zero => rfl

/-! ## Splicing -/

section Splice

variable {bound lo hi : ℕ}

/-- INTERNAL: `piece` is a part of `iv`: it lies inside and denotes the same bytes. -/
structure PartOf (iv piece : Interval) : Prop where
  start_le : iv.start ≤ piece.start
  end_le : piece.start + piece.length ≤ iv.start + iv.length
  val_eq : ∀ o, intervalChart.Has piece o →
    intervalChart.val piece o = intervalChart.val iv o

variable {iv new piece : Interval} {l : List Interval}

/-- INTERNAL: `spliceOne` with the sum in its conditions written out. -/
theorem spliceOne_eq (hb : iv.start + iv.length ≤ u64Max) :
    spliceOne lo hi iv =
      if iv.start + iv.length ≤ lo ∨ hi ≤ iv.start then [iv]
      else
        (if iv.start < lo then [⟨iv.start, lo - iv.start, iv.source⟩] else []) ++
        (if hi < iv.start + iv.length then
          [⟨hi, iv.start + iv.length - hi, iv.source.advance (hi - iv.start)⟩] else []) := by
  simp only [spliceOne, wrappingAdd_eq hb]

/-- INTERNAL: the pieces `spliceOne` leaves are the interval itself when it misses the
range, and otherwise its head and its tail. -/
theorem mem_spliceOne (hb : iv.start + iv.length ≤ u64Max) (h : piece ∈ spliceOne lo hi iv) :
    (piece = iv ∧ (iv.start + iv.length ≤ lo ∨ hi ≤ iv.start)) ∨
    (piece = ⟨iv.start, lo - iv.start, iv.source⟩ ∧ iv.start < lo ∧ lo < iv.start + iv.length) ∨
    (piece = ⟨hi, iv.start + iv.length - hi, iv.source.advance (hi - iv.start)⟩ ∧
      iv.start < hi ∧ hi < iv.start + iv.length) := by
  rw [spliceOne_eq hb] at h
  split_ifs at h with hmiss hhead htail htail
  · exact .inl ⟨List.mem_singleton.mp h, hmiss⟩
  · rcases List.mem_append.mp h with h | h
    · exact .inr (.inl ⟨List.mem_singleton.mp h, hhead, by omega⟩)
    · exact .inr (.inr ⟨List.mem_singleton.mp h, by omega, htail⟩)
  · exact .inr (.inl ⟨List.mem_singleton.mp (by simpa using h), hhead, by omega⟩)
  · exact .inr (.inr ⟨List.mem_singleton.mp h, by omega, htail⟩)
  · simp at h

/-- INTERNAL: a piece left by `spliceOne` is not empty, lies inside the interval and avoids the
replaced range. -/
theorem spliceOne_part (hpos : 0 < iv.length) (hb : iv.start + iv.length ≤ u64Max)
    (h : piece ∈ spliceOne lo hi iv) :
    0 < piece.length ∧ iv.start ≤ piece.start ∧
      piece.start + piece.length ≤ iv.start + iv.length ∧
      (piece.start + piece.length ≤ lo ∨ hi ≤ piece.start) := by
  rcases mem_spliceOne hb h with ⟨rfl, hmiss⟩ | ⟨rfl, h1, h2⟩ | ⟨rfl, h1, h2⟩
  · exact ⟨hpos, le_rfl, le_rfl, hmiss⟩
  · refine ⟨?_, le_rfl, ?_, .inl ?_⟩ <;> dsimp only <;> omega
  · refine ⟨?_, ?_, ?_, .inr le_rfl⟩ <;> dsimp only <;> omega

/-- INTERNAL: a piece left by `spliceOne` denotes the bytes of the interval, and its source fits
when that of the interval does. -/
theorem spliceOne_spec (hok : IntervalOk bound iv) (hb : bound ≤ u64Max)
    (h : piece ∈ spliceOne lo hi iv) :
    IntervalOk bound piece ∧ PartOf iv piece ∧
      (piece.start + piece.length ≤ lo ∨ hi ≤ piece.start) := by
  have hend := hok.inside.trans hb
  have hin := hok.inside
  have hfits := hok.fits
  obtain ⟨hpos, hstart, hinside, hout⟩ := spliceOne_part hok.pos hend h
  suffices hsource : sourceOffset piece.source + piece.length ≤ u64Max ∧
      ∀ o, intervalChart.Has piece o → intervalChart.val piece o = intervalChart.val iv o from
    ⟨⟨hpos, hinside.trans hin, hsource.1⟩, ⟨hstart, hinside, hsource.2⟩, hout⟩
  rcases mem_spliceOne hend h with ⟨rfl, -⟩ | ⟨rfl, h1, h2⟩ | ⟨rfl, h1, h2⟩
  · exact ⟨hfits, fun _ _ => rfl⟩
  · exact ⟨by dsimp only; omega, fun _ _ => rfl⟩
  · have hoff : sourceOffset iv.source + (hi - iv.start) ≤ u64Max := by omega
    have hadv := sourceOffset_advance_le hoff
    refine ⟨by dsimp only; omega, ?_⟩
    rintro o ⟨ho, -⟩
    have ho : hi ≤ o := ho
    calc sourceByte (o - hi) (iv.source.advance (hi - iv.start))
        = sourceByte (hi - iv.start + (o - hi)) iv.source := sourceByte_advance hoff _
      _ = sourceByte (o - iv.start) iv.source := by congr 1; omega

/-- INTERNAL: an offset of the interval outside the replaced range stays covered. -/
theorem spliceOne_covers (hb : iv.start + iv.length ≤ u64Max) {o : ℕ}
    (ho : intervalChart.Has iv o) (hout : ¬ (lo ≤ o ∧ o < hi)) :
    ∃ piece ∈ spliceOne lo hi iv, intervalChart.Has piece o := by
  obtain ⟨h1, h2⟩ := ho
  change iv.start ≤ o at h1
  change o < iv.start + iv.length at h2
  rw [spliceOne_eq hb]
  by_cases hmiss : iv.start + iv.length ≤ lo ∨ hi ≤ iv.start
  · rw [if_pos hmiss]
    exact ⟨iv, List.mem_singleton_self _, h1, h2⟩
  · rw [if_neg hmiss]
    rcases Nat.lt_or_ge o lo with hlo | hlo
    · refine ⟨⟨iv.start, lo - iv.start, iv.source⟩, ?_, h1, ?_⟩
      · rw [if_pos (show iv.start < lo by omega)]
        exact List.mem_append_left _ (List.mem_singleton_self _)
      · change o < iv.start + (lo - iv.start)
        omega
    · refine ⟨⟨hi, iv.start + iv.length - hi, iv.source.advance (hi - iv.start)⟩, ?_, ?_, ?_⟩
      · rw [if_pos (show hi < iv.start + iv.length by omega)]
        exact List.mem_append_right _ (List.mem_singleton_self _)
      · change hi ≤ o
        omega
      · change o < hi + (iv.start + iv.length - hi)
        omega

/-- INTERNAL: head and tail lie on either side of the replaced range. -/
theorem spliceOne_ordered (hb : iv.start + iv.length ≤ u64Max) (hlt : lo < hi) :
    (spliceOne lo hi iv).Pairwise intervalChart.Before := by
  rw [spliceOne_eq hb]
  split_ifs with hmiss hhead htail
  · exact List.pairwise_singleton _ _
  · have : intervalChart.Before ⟨iv.start, lo - iv.start, iv.source⟩
        ⟨hi, iv.start + iv.length - hi, iv.source.advance (hi - iv.start)⟩ := by
      change iv.start + (lo - iv.start) ≤ hi
      omega
    simpa using this
  all_goals simp

/-- INTERNAL: a member of a spliced list is the new interval or a piece of an old one. -/
theorem mem_splice :
    piece ∈ splice l lo hi new ↔ (∃ iv ∈ l, piece ∈ spliceOne lo hi iv) ∨ piece = new := by
  unfold splice sortByStart
  rw [List.mem_insertionSort, List.mem_append, List.mem_flatMap, List.mem_singleton]

/-- INTERNAL: splicing keeps the intervals one before the other. -/
theorem splice_spread (hl : Spread bound l) (hb : bound ≤ u64Max) (hstart : new.start = lo)
    (hend : new.start + new.length = hi) (hpos : 0 < new.length) :
    Spread (max bound hi) (splice l lo hi new) := by
  have hlt : lo < hi := by omega
  have hpiece : ∀ iv ∈ l, ∀ piece ∈ spliceOne lo hi iv, _ := fun iv hiv piece hp =>
    spliceOne_part (hl.each iv hiv).1 ((hl.each iv hiv).2.trans hb) hp
  have heach : ∀ piece ∈ splice l lo hi new,
      0 < piece.length ∧ piece.start + piece.length ≤ max bound hi := by
    intro piece hp
    rcases mem_splice.mp hp with ⟨iv, hiv, hp⟩ | rfl
    · obtain ⟨hpos, -, hinside, -⟩ := hpiece iv hiv piece hp
      exact ⟨hpos, (hinside.trans (hl.each iv hiv).2).trans (le_max_left _ _)⟩
    · exact ⟨hpos, hend.le.trans (le_max_right _ _)⟩
  refine ⟨heach, Chart.pairwise_before_of_sorted ?_ ?_ ?_⟩
  · intro piece hp
    have := (heach piece hp).1
    change piece.start < piece.start + piece.length
    omega
  · exact List.pairwise_insertionSort _ _
  · -- apartness is symmetric, so it may be proved before sorting
    have hperm := List.perm_insertionSort (fun a b : Interval => a.start ≤ b.start)
      (l.flatMap (spliceOne lo hi) ++ [new])
    refine (hperm.pairwise_iff fun h => Chart.Apart.symm h).mpr ?_
    rw [List.pairwise_append]
    refine ⟨?_, List.pairwise_singleton _ _, ?_⟩
    · rw [List.pairwise_flatMap]
      refine ⟨fun iv hiv => ?_, hl.ordered.imp_of_mem ?_⟩
      · have hbe := (hl.each iv hiv).2.trans hb
        exact (spliceOne_ordered hbe hlt).imp Or.inl
      · intro a b ha hb' hab x hx y hy
        obtain ⟨-, -, hxa, -⟩ := hpiece a ha x hx
        obtain ⟨-, hyb, -, -⟩ := hpiece b hb' y hy
        exact .inl ((hxa.trans hab).trans hyb)
    · intro piece hp q hq
      rw [List.mem_singleton] at hq
      subst hq
      obtain ⟨iv, hiv, hp⟩ := List.mem_flatMap.mp hp
      rcases (hpiece iv hiv piece hp).2.2.2 with h | h
      · exact .inl (h.trans hstart.ge)
      · exact .inr (hend.le.trans h)

/-- INTERNAL: splicing keeps the list ordered and well formed. -/
theorem splice_ok (hl : IntervalsOk bound l) (hb : bound ≤ u64Max) (hstart : new.start = lo)
    (hend : new.start + new.length = hi) (hnew : IntervalOk (max bound hi) new) :
    IntervalsOk (max bound hi) (splice l lo hi new) := by
  refine ⟨fun piece hp => ?_, (splice_spread hl.spread hb hstart hend hnew.pos).ordered⟩
  rcases mem_splice.mp hp with ⟨iv, hiv, hp⟩ | rfl
  · obtain ⟨⟨h1, h2, h3⟩, -, -⟩ := spliceOne_spec (hl.each iv hiv) hb hp
    exact ⟨h1, h2.trans (le_max_left _ _), h3⟩
  · exact hnew

/-- INTERNAL: splicing overrides the replaced range and nothing else. -/
theorem splice_describes {f : ℕ → SymByte} (hl : IntervalsOk bound l) (hb : bound ≤ u64Max)
    (hstart : new.start = lo) (hend : new.start + new.length = hi)
    (hf : intervalChart.Describes l .zero f) :
    intervalChart.Describes (splice l lo hi new) .zero
      (fun o => if lo ≤ o ∧ o < hi then intervalChart.val new o else f o) := by
  constructor
  · intro piece hp o ho
    rcases mem_splice.mp hp with ⟨iv, hiv, hp⟩ | rfl
    · obtain ⟨-, hpart, hout⟩ := spliceOne_spec (hl.each iv hiv) hb hp
      have ho1 : piece.start ≤ o := ho.1
      have ho2 : o < piece.start + piece.length := ho.2
      have hiv' : intervalChart.Has iv o :=
        ⟨hpart.start_le.trans ho1, ho2.trans_le hpart.end_le⟩
      rw [if_neg (by omega), hf.on_pieces iv hiv o hiv', hpart.val_eq o ho]
    · exact if_pos ⟨hstart ▸ ho.1, hend ▸ ho.2⟩
  · intro o ho
    have hnew := ho new (mem_splice.mpr (.inr rfl))
    have hout : ¬ (lo ≤ o ∧ o < hi) := fun h =>
      hnew ⟨hstart.le.trans h.1, h.2.trans_le hend.ge⟩
    rw [if_neg hout]
    refine hf.off_pieces o fun iv hiv hhas => ?_
    obtain ⟨piece, hp, hh⟩ := spliceOne_covers ((hl.each iv hiv).inside.trans hb) hhas hout
    exact ho piece (mem_splice.mpr (.inl ⟨iv, hiv, hp⟩)) hh

end Splice

/-! ## Coalescing -/

section Coalesce

variable {bound : ℕ}

/-- INTERNAL: two intervals merge only into one that spans both. -/
theorem mergePair_ends {a b merged : Interval} (ha : a.start + a.length ≤ u64Max)
    (hb : b.start + b.length ≤ u64Max) (h : mergePair a b = some merged) :
    a.start + a.length = b.start ∧ merged.start = a.start ∧
      merged.start + merged.length = b.start + b.length := by
  obtain ⟨sa, la, srca⟩ := a
  obtain ⟨sb, lb, srcb⟩ := b
  dsimp only at ha hb
  cases srca with
  | base _ _ => simp [mergePair] at h
  | zero => simp [mergePair] at h
  | dirty ida offa =>
    cases srcb with
    | base _ _ => simp [mergePair] at h
    | zero => simp [mergePair] at h
    | dirty idb offb =>
      simp only [mergePair, wrappingAdd_eq ha] at h
      split_ifs at h with hc
      obtain ⟨-, rfl, -⟩ := hc
      rw [wrappingAdd_eq (show la + lb ≤ u64Max by omega)] at h
      obtain rfl := Option.some.inj h
      exact ⟨rfl, rfl, by dsimp only; omega⟩

/-- INTERNAL: what two intervals merge into denotes the bytes of both. -/
theorem mergePair_spec {a b merged : Interval} (hb : bound ≤ u64Max) (ha : IntervalOk bound a)
    (hb' : IntervalOk bound b) (h : mergePair a b = some merged) :
    IntervalOk bound merged ∧ PartOf merged a ∧ PartOf merged b := by
  obtain ⟨hmid, hstart, hend⟩ := mergePair_ends (ha.inside.trans hb) (hb'.inside.trans hb) h
  have hinside : merged.start + merged.length ≤ bound := hend.le.trans hb'.inside
  have hpos := ha.pos
  have hpos' := hb'.pos
  obtain ⟨sa, la, srca⟩ := a
  obtain ⟨sb, lb, srcb⟩ := b
  have hb2 : sourceOffset srcb + lb ≤ u64Max := hb'.fits
  have ha2 : sourceOffset srca + la ≤ u64Max := ha.fits
  have hsum : la + lb ≤ u64Max := by
    have := hb'.inside
    dsimp only at hmid this
    omega
  cases srca with
  | base _ _ => simp [mergePair] at h
  | zero => simp [mergePair] at h
  | dirty ida offa =>
    cases srcb with
    | base _ _ => simp [mergePair] at h
    | zero => simp [mergePair] at h
    | dirty idb offb =>
      simp only [sourceOffset] at ha2 hb2
      dsimp only at hmid hpos hpos'
      simp only [mergePair, wrappingAdd_eq ha2, wrappingAdd_eq hsum] at h
      split_ifs at h with hc
      obtain ⟨rfl, -, rfl⟩ := hc
      obtain rfl := Option.some.inj h
      subst hmid
      refine ⟨⟨?_, hinside, ?_⟩, ⟨le_rfl, ?_, fun _ _ => rfl⟩, ⟨?_, ?_, ?_⟩⟩
      · dsimp only; omega
      · simp only [sourceOffset]; omega
      · dsimp only; omega
      · dsimp only; omega
      · dsimp only; omega
      · rintro o ⟨ho, -⟩
        have ho : sa + la ≤ o := ho
        change SymByte.payload ida (offa + la + (o - (sa + la))) =
          SymByte.payload ida (offa + (o - sa))
        congr 1
        omega

variable {l l' : List Interval}

/-- INTERNAL: one pass merges one neighbouring pair in place. -/
theorem mergeFirst_cases (h : mergeFirst l = some l') :
    ∃ pre a b merged post, l = pre ++ a :: b :: post ∧ l' = pre ++ merged :: post ∧
      mergePair a b = some merged := by
  induction l generalizing l' with
  | nil => simp [mergeFirst] at h
  | cons a rest ih =>
    cases rest with
    | nil => simp [mergeFirst] at h
    | cons b rest =>
      rw [mergeFirst] at h
      cases hm : mergePair a b with
      | some merged =>
        simp only [hm, Option.some.injEq] at h
        exact ⟨[], a, b, merged, rest, rfl, h.symm, hm⟩
      | none =>
        simp only [hm, Option.map_eq_some_iff] at h
        obtain ⟨t, ht, rfl⟩ := h
        obtain ⟨pre, x, y, merged, post, h1, rfl, h3⟩ := ih ht
        exact ⟨a :: pre, x, y, merged, post, by rw [h1]; rfl, rfl, h3⟩

/-- INTERNAL: one merge keeps the intervals one before the other. -/
theorem mergeFirst_spread (hb : bound ≤ u64Max) (hl : Spread bound l) (h : mergeFirst l = some l') :
    Spread bound l' := by
  obtain ⟨pre, a, b, merged, post, rfl, rfl, hm⟩ := mergeFirst_cases h
  obtain ⟨heach, hord⟩ := hl
  obtain ⟨hposa, hina⟩ := heach a (by simp)
  obtain ⟨hposb, hinb⟩ := heach b (by simp)
  obtain ⟨hmid, hs, he⟩ := mergePair_ends (hina.trans hb) (hinb.trans hb) hm
  rw [List.pairwise_append, List.pairwise_cons, List.pairwise_cons] at hord
  obtain ⟨hpre, ⟨-, hbp, hpost⟩, hcross⟩ := hord
  constructor
  · intro iv hiv
    rcases List.mem_append.mp hiv with h1 | h1
    · exact heach iv (List.mem_append_left _ h1)
    · rcases List.mem_cons.mp h1 with rfl | h1
      · exact ⟨by omega, he.le.trans hinb⟩
      · exact heach iv (by simp [h1])
  · rw [List.pairwise_append, List.pairwise_cons]
    refine ⟨hpre, ⟨fun q hq => ?_, hpost⟩, fun p hp q hq => ?_⟩
    · have : b.start + b.length ≤ q.start := hbp q hq
      change merged.start + merged.length ≤ q.start
      omega
    · rcases List.mem_cons.mp hq with rfl | hq
      · have : p.start + p.length ≤ a.start := hcross p hp a (by simp)
        change p.start + p.length ≤ q.start
        omega
      · exact hcross p hp q (by simp [hq])

/-- INTERNAL: one merge keeps the list well formed. -/
theorem mergeFirst_ok (hb : bound ≤ u64Max) (hl : IntervalsOk bound l)
    (h : mergeFirst l = some l') : IntervalsOk bound l' := by
  refine ⟨?_, (mergeFirst_spread hb hl.spread h).ordered⟩
  obtain ⟨pre, a, b, merged, post, rfl, rfl, hm⟩ := mergeFirst_cases h
  obtain ⟨hok, -, -⟩ := mergePair_spec hb (hl.each a (by simp)) (hl.each b (by simp)) hm
  intro iv hiv
  rcases List.mem_append.mp hiv with h1 | h1
  · exact hl.each iv (List.mem_append_left _ h1)
  · rcases List.mem_cons.mp h1 with rfl | h1
    · exact hok
    · exact hl.each iv (by simp [h1])

/-- INTERNAL: one merge describes the same function. -/
theorem mergeFirst_describes {f : ℕ → SymByte} (hb : bound ≤ u64Max) (hl : IntervalsOk bound l)
    (h : mergeFirst l = some l') (hf : intervalChart.Describes l .zero f) :
    intervalChart.Describes l' .zero f := by
  obtain ⟨pre, a, b, merged, post, rfl, rfl, hm⟩ := mergeFirst_cases h
  have ha := hl.each a (by simp)
  have hb' := hl.each b (by simp)
  obtain ⟨hmid, hs, he⟩ := mergePair_ends (ha.inside.trans hb) (hb'.inside.trans hb) hm
  obtain ⟨-, hpa, hpb⟩ := mergePair_spec hb ha hb' hm
  constructor
  · intro iv hiv o ho
    rcases List.mem_append.mp hiv with h1 | h1
    · exact hf.on_pieces iv (List.mem_append_left _ h1) o ho
    · rcases List.mem_cons.mp h1 with rfl | h1
      · obtain ⟨ho1, ho2⟩ := ho
        change iv.start ≤ o at ho1
        change o < iv.start + iv.length at ho2
        -- the merged range is the left part followed by the right part
        rcases Nat.lt_or_ge o b.start with hlt | hge
        · have hhas : intervalChart.Has a o := by
            constructor
            · change a.start ≤ o; omega
            · change o < a.start + a.length; omega
          rw [hf.on_pieces a (by simp) o hhas, hpa.val_eq o hhas]
        · have hhas : intervalChart.Has b o := by
            constructor
            · exact hge
            · change o < b.start + b.length; omega
          rw [hf.on_pieces b (by simp) o hhas, hpb.val_eq o hhas]
      · exact hf.on_pieces iv (by simp [h1]) o ho
  · intro o ho
    refine hf.off_pieces o fun iv hiv hhas => ?_
    have hm' : ∀ part, PartOf merged part → intervalChart.Has part o → False :=
      fun part hp hh => ho merged (by simp)
        ⟨hp.start_le.trans hh.1, hh.2.trans_le hp.end_le⟩
    simp only [List.mem_append, List.mem_cons] at hiv
    rcases hiv with h1 | rfl | rfl | h1
    · exact ho iv (by simp [h1]) hhas
    · exact hm' iv hpa hhas
    · exact hm' iv hpb hhas
    · exact ho iv (by simp [h1]) hhas

/-- INTERNAL: the restart loop keeps the list well formed and its meaning. -/
theorem coalesceLoop_spec {f : ℕ → SymByte} (hb : bound ≤ u64Max) (fuel : ℕ)
    (hl : IntervalsOk bound l) (hf : intervalChart.Describes l .zero f) :
    IntervalsOk bound (coalesceLoop fuel l) ∧
      intervalChart.Describes (coalesceLoop fuel l) .zero f := by
  induction fuel generalizing l with
  | zero => exact ⟨hl, hf⟩
  | succ fuel ih =>
    rw [coalesceLoop]
    cases hm : mergeFirst l with
    | none => exact ⟨hl, hf⟩
    | some l' => exact ih (mergeFirst_ok hb hl hm) (mergeFirst_describes hb hl hm hf)

theorem coalesce_spread (hb : bound ≤ u64Max) (hl : Spread bound l) :
    Spread bound (coalesce l) := by
  suffices h : ∀ fuel l, Spread bound l → Spread bound (coalesceLoop fuel l) from h _ l hl
  intro fuel
  induction fuel with
  | zero => exact fun _ hl => hl
  | succ fuel ih =>
    intro l hl
    rw [coalesceLoop]
    cases hm : mergeFirst l with
    | none => exact hl
    | some l' => exact ih l' (mergeFirst_spread hb hl hm)

end Coalesce

/-! ## Clipping -/

section Clip

variable {bound : ℕ}

/-- INTERNAL: what is left of an interval after a cut at `n`. -/
theorem clip_eq_some {iv kept : Interval} {n : ℕ} (hb : iv.start + iv.length ≤ u64Max) :
    clip n iv = some kept ↔
      iv.start < n ∧ kept = ⟨iv.start, min iv.length (n - iv.start), iv.source⟩ := by
  unfold clip
  rw [wrappingAdd_eq hb]
  split_ifs with h1 h2
  · simp only [false_iff]
    omega
  · rw [min_eq_right (by omega), Option.some.injEq, eq_comm]
    simp only [show iv.start < n by omega, true_and]
  · rw [min_eq_left (by omega), Option.some.injEq, eq_comm]
    simp only [show iv.start < n by omega, true_and]

variable {l : List Interval}

theorem mem_clip {n : ℕ} (hl : ∀ iv ∈ l, iv.start + iv.length ≤ u64Max) (kept : Interval) :
    kept ∈ l.filterMap (clip n) ↔ ∃ iv ∈ l, iv.start < n ∧
      kept = ⟨iv.start, min iv.length (n - iv.start), iv.source⟩ := by
  rw [List.mem_filterMap]
  exact exists_congr fun iv => and_congr_right fun hiv => clip_eq_some (hl iv hiv)

/-- INTERNAL: cutting keeps the intervals one before the other. -/
theorem clip_spread (n : ℕ) (hb : bound ≤ u64Max) (hl : Spread bound l) :
    Spread n (l.filterMap (clip n)) := by
  have hend (iv : Interval) (hiv : iv ∈ l) := (hl.each iv hiv).2.trans hb
  constructor
  · intro kept hk
    obtain ⟨iv, hiv, hlt, rfl⟩ := (mem_clip hend kept).mp hk
    obtain ⟨hpos, -⟩ := hl.each iv hiv
    exact ⟨by simp only; omega, by simp only; omega⟩
  · rw [List.pairwise_filterMap]
    refine hl.ordered.imp_of_mem ?_
    intro a b ha hb' hab x hx y hy
    obtain ⟨-, rfl⟩ := (clip_eq_some (hend a ha)).mp hx
    obtain ⟨-, rfl⟩ := (clip_eq_some (hend b hb')).mp hy
    have : a.start + a.length ≤ b.start := hab
    change a.start + min a.length (n - a.start) ≤ b.start
    omega

/-- INTERNAL: cutting a list at `n` keeps it well formed and drops the offsets from `n`
on. -/
theorem clip_spec {f : ℕ → SymByte} (n : ℕ) (hb : bound ≤ u64Max) (hl : IntervalsOk bound l)
    (hf : intervalChart.Describes l .zero f) :
    IntervalsOk n (l.filterMap (clip n)) ∧
      intervalChart.Describes (l.filterMap (clip n)) .zero
        (fun o => if o < n then f o else .zero) := by
  have hmem := mem_clip (n := n) fun iv hiv => (hl.each iv hiv).inside.trans hb
  refine ⟨⟨?_, (clip_spread n hb hl.spread).ordered⟩, ?_, ?_⟩
  · intro kept hk
    obtain ⟨iv, hiv, hlt, rfl⟩ := (hmem kept).mp hk
    obtain ⟨h1, h2, h3⟩ := hl.each iv hiv
    exact ⟨by simp only; omega, by simp only; omega, by simp only; omega⟩
  · intro kept hk o ho
    obtain ⟨iv, hiv, hlt, rfl⟩ := (hmem kept).mp hk
    have ho1 : iv.start ≤ o := ho.1
    have ho2 : o < iv.start + min iv.length (n - iv.start) := ho.2
    have hhas : intervalChart.Has iv o := ⟨ho1, by change o < iv.start + iv.length; omega⟩
    rw [if_pos (by omega)]
    exact hf.on_pieces iv hiv o hhas
  · intro o ho
    by_cases hlt : o < n
    · rw [if_pos hlt]
      refine hf.off_pieces o fun iv hiv hhas => ?_
      have h1 : iv.start ≤ o := hhas.1
      have h2 : o < iv.start + iv.length := hhas.2
      refine ho _ ((hmem _).mpr ⟨iv, hiv, by omega, rfl⟩) ⟨h1, ?_⟩
      change o < iv.start + min iv.length (n - iv.start)
      omega
    · exact if_neg hlt

end Clip

end Mirage.Analysis

/-!
## The extent map refines a byte array

`Simulates m f` relates a map to the array it stands for.  Every mutation keeps it, so
it holds along every run, and a map that simulates an array answers `read` with slices
that tile the requested range below the end of file and denote the array's bytes.
-/

namespace Mirage.Analysis

open Mirage.Model Mirage.Model.ExtentMap Mirage.Interface Mirage.Computation

/-- INTERNAL: the map `m` is a well-formed description of the array `f`. -/
structure Simulates (m : ExtentMap) (f : ByteFile) : Prop where
  size_eq : m.fileSize = f.size
  size_le : m.fileSize ≤ u64Max
  intervals : IntervalsOk m.fileSize m.intervals
  bytes : intervalChart.Describes m.intervals .zero f.byte

variable {m m' : ExtentMap} {f : ByteFile} {length : ℕ}

/-- INTERNAL: a described array is zero from its end on. -/
theorem Simulates.byte_eq_zero (h : Simulates m f) {o : ℕ} (ho : f.size ≤ o) :
    f.byte o = .zero := by
  refine h.bytes.off_pieces o fun iv hiv hhas => ?_
  have h1 := (h.intervals.each iv hiv).inside
  have h2 : o < iv.start + iv.length := hhas.2
  have h3 := h.size_eq
  omega

/-! ## Mutations -/

/-- INTERNAL: the default map stands for the empty file. -/
theorem simulates_default : Simulates ExtentMap.default ByteFile.empty where
  size_eq := rfl
  size_le := Nat.zero_le _
  intervals := ⟨fun _ h => (List.not_mem_nil h).elim, List.Pairwise.nil⟩
  bytes := ⟨fun _ h => (List.not_mem_nil h).elim, fun _ _ => rfl⟩

/-- INTERNAL: a fresh map seeded with a base page stands for that page. -/
theorem simulates_seedBase (hlen : length ≤ u64Max) (pageHash : PageHash) :
    Simulates (ExtentMap.default.seedBase length pageHash) (ByteFile.ofBase length pageHash) := by
  rcases Nat.eq_zero_or_pos length with rfl | hpos
  · exact ⟨rfl, Nat.zero_le _, ⟨fun _ h => (List.not_mem_nil h).elim, List.Pairwise.nil⟩,
      ⟨fun _ h => (List.not_mem_nil h).elim, fun _ _ => rfl⟩⟩
  · have heq : ExtentMap.default.seedBase length pageHash =
        ⟨[⟨0, length, .base pageHash 0⟩], 0, length, false⟩ := by
      simp [seedBase, ExtentMap.default, hpos.ne']
    rw [heq]
    refine ⟨rfl, hlen, ⟨?_, List.pairwise_singleton _ _⟩, ?_, ?_⟩
    · intro iv hiv
      obtain rfl := List.mem_singleton.mp hiv
      exact ⟨hpos, by simp, by simpa [sourceOffset] using hlen⟩
    · intro iv hiv o ho
      obtain rfl := List.mem_singleton.mp hiv
      have ho : o < 0 + length := ho.2
      simp [ByteFile.ofBase, intervalChart, sourceByte, show o < length by omega]
    · intro o ho
      have hge : ¬ o < length := fun hlt =>
        ho _ (List.mem_singleton_self _) ⟨Nat.zero_le o, by change o < 0 + length; omega⟩
      simp [ByteFile.ofBase, hge]

/-- INTERNAL: a successful `write_at` is the array write. -/
theorem simulates_writeAt {start off : ℕ} {payloadId : PayloadId} (h : Simulates m f)
    (hoff : off + length ≤ u64Max) (hok : m.writeAt start length payloadId off = .ok m') :
    Simulates m' (f.write start length payloadId off) := by
  unfold writeAt at hok
  split_ifs at hok with hzero
  · obtain rfl := Except.ok.inj hok
    rw [ByteFile.write, if_pos hzero]
    exact h
  · cases hsum : checkedAdd start length with
    | none => simp [hsum] at hok
    | some hi =>
      obtain ⟨rfl, hle⟩ := checkedAdd_eq_some hsum
      simp only [hsum, Except.ok.injEq] at hok
      subst hok
      let new : Interval := ⟨start, length, .dirty payloadId off⟩
      have hnew : IntervalOk (max m.fileSize (start + length)) new :=
        ⟨Nat.pos_of_ne_zero hzero, le_max_right _ _, hoff⟩
      have hmax : max m.fileSize (start + length) ≤ u64Max := max_le h.size_le hle
      obtain ⟨hi1, hi2⟩ := coalesceLoop_spec hmax
        (splice m.intervals start (start + length) new).length
        (splice_ok h.intervals h.size_le rfl rfl hnew)
        (splice_describes h.intervals h.size_le rfl rfl h.bytes)
      rw [ByteFile.write, if_neg hzero]
      refine ⟨by simp only [h.size_eq], hmax, hi1, hi2.congr fun o => ?_⟩
      -- past the old end the old array is zero, which is what the array write says
      dsimp only
      split_ifs with hin hlt
      · rfl
      · rfl
      · exact (h.byte_eq_zero (Nat.le_of_not_lt hlt)).symm

/-- INTERNAL: `truncate` is the array truncation. -/
theorem simulates_truncate {n : ℕ} (h : Simulates m f) (hn : n ≤ u64Max)
    (hok : m.truncate n = .ok m') : Simulates m' (f.truncate n) := by
  obtain rfl := Except.ok.inj hok
  obtain ⟨h1, h2⟩ := clip_spec n h.size_le h.intervals h.bytes
  refine ⟨rfl, hn, h1, h2.congr fun o => ?_⟩
  by_cases hlt : o < f.size
  · simp only [ByteFile.truncate, hlt, and_true]
  · simp only [ByteFile.truncate, hlt, and_false,
      h.byte_eq_zero (Nat.le_of_not_lt hlt), ite_self]

/-- INTERNAL: one allowed mutation keeps the simulation. -/
theorem simulates_step {op : ExtentOp} (h : Simulates m f) (hallowed : ExtentOpAllowed m op)
    (hok : op.apply m = .ok m') : Simulates m' (f.step op) := by
  have hu64 : ∀ x : UInt64, x.toNat ≤ u64Max := fun x => Nat.le_pred_of_lt x.toNat_lt
  cases op with
  | seedBase length baseIdentity =>
    obtain rfl := Except.ok.inj hok
    rw [show m = ExtentMap.default from hallowed]
    exact simulates_seedBase (hu64 length) baseIdentity
  | writeAt start length payloadId payloadOffset => exact simulates_writeAt h hallowed hok
  | truncate newSize => exact simulates_truncate h (hu64 newSize) hok

/-- INTERNAL: the simulation holds along every run. -/
theorem simulates_of_run (h : ExtentRun m f) : Simulates m f := by
  induction h with
  | start => exact simulates_default
  | step op _ hallowed hok ih => exact simulates_step ih hallowed hok

/-! ## Reading -/

section Read

variable {bound hi cursor : ℕ} {iv : Interval} {rest : List Interval}

/-- INTERNAL: an interval that ends by the cursor is skipped. -/
theorem readLoop_skip (hb : iv.start + iv.length ≤ u64Max) (h : iv.start + iv.length ≤ cursor) :
    readLoop hi (iv :: rest) cursor = readLoop hi rest cursor := by
  rw [readLoop, wrappingAdd_eq hb, if_pos h]

/-- INTERNAL: an interval past the end of the request leaves one gap of zeros. -/
theorem readLoop_past (hb : iv.start + iv.length ≤ u64Max) (hc : cursor < hi)
    (h : hi ≤ iv.start) :
    readLoop hi (iv :: rest) cursor = ([.zero cursor (hi - cursor)], hi) := by
  rw [readLoop, wrappingAdd_eq hb, if_neg (show ¬ iv.start + iv.length ≤ cursor by omega)]
  simp only [show cursor < iv.start by omega, if_true, h, true_or, min_eq_right h]

/-- INTERNAL: before an interval inside the request the loop emits the gap and goes on
at the interval's start. -/
theorem readLoop_gap (hb : iv.start + iv.length ≤ u64Max) (hpos : 0 < iv.length)
    (hc : cursor < iv.start) (h : iv.start < hi) :
    readLoop hi (iv :: rest) cursor =
      (.zero cursor (iv.start - cursor) :: (readLoop hi (iv :: rest) iv.start).1,
        (readLoop hi (iv :: rest) iv.start).2) := by
  rw [readLoop, readLoop, wrappingAdd_eq hb,
    if_neg (show ¬ iv.start + iv.length ≤ cursor by omega),
    if_neg (show ¬ iv.start + iv.length ≤ iv.start by omega)]
  simp only [hc, if_true, lt_irrefl, if_false, min_eq_left h.le, max_self,
    show ¬ (hi ≤ iv.start ∨ hi ≤ iv.start) by omega,
    show ¬ min hi (iv.start + iv.length) ≤ iv.start by omega, List.nil_append]
  split_ifs <;> rfl

/-- INTERNAL: inside an interval the loop emits the overlap and, unless the request is
served, goes on at the interval's end. -/
theorem readLoop_inside (hb : iv.start + iv.length ≤ u64Max) (hc : iv.start ≤ cursor)
    (hend : cursor < iv.start + iv.length) (h : cursor < hi) :
    readLoop hi (iv :: rest) cursor =
      if hi ≤ iv.start + iv.length then ([sliceOf iv cursor hi], hi)
      else
        (sliceOf iv cursor (iv.start + iv.length) ::
            (readLoop hi rest (iv.start + iv.length)).1,
          (readLoop hi rest (iv.start + iv.length)).2) := by
  rw [readLoop, wrappingAdd_eq hb, if_neg (show ¬ iv.start + iv.length ≤ cursor by omega)]
  simp only [show ¬ cursor < iv.start by omega, if_false, max_eq_left hc, List.nil_append,
    show ¬ (hi ≤ iv.start ∨ hi ≤ cursor) by omega,
    show ¬ min hi (iv.start + iv.length) ≤ cursor by omega]
  by_cases hle : hi ≤ iv.start + iv.length
  · simp only [min_eq_left hle, le_refl, if_true, hle]
  · simp only [min_eq_right (Nat.le_of_not_le hle), if_neg hle]

/-- INTERNAL: the slice of an interval covers the asked range and denotes the interval's
bytes. -/
theorem sliceOf_spec {lo top : ℕ} (hok : IntervalOk bound iv) (hlo : iv.start ≤ lo)
    (hlt : lo < top) (htop : top ≤ iv.start + iv.length) :
    sliceChart.lo (sliceOf iv lo top) = lo ∧ sliceChart.hi (sliceOf iv lo top) = top ∧
      ∀ o, lo ≤ o → sliceChart.val (sliceOf iv lo top) o = intervalChart.val iv o := by
  obtain ⟨s, n, src⟩ := iv
  have hfits : sourceOffset src + n ≤ u64Max := hok.fits
  simp only at hlo htop
  have hsum : ∀ o, lo ≤ o → ∀ a, a + (lo - s) + (o - lo) = a + (o - s) := by
    intro o ho a
    omega
  cases src with
  | base pageHash off =>
    simp only [sourceOffset] at hfits
    refine ⟨rfl, ?_, fun o ho => ?_⟩
    · change lo + (top - lo) = top
      omega
    · simp only [sliceChart, sliceOf, sliceByte, intervalChart, sourceByte,
        wrappingAdd_eq (show off + (lo - s) ≤ u64Max by omega), hsum o ho]
  | dirty payloadId off =>
    simp only [sourceOffset] at hfits
    refine ⟨rfl, ?_, fun o ho => ?_⟩
    · change lo + (top - lo) = top
      omega
    · simp only [sliceChart, sliceOf, sliceByte, intervalChart, sourceByte,
        wrappingAdd_eq (show off + (lo - s) ≤ u64Max by omega), hsum o ho]
  | zero =>
    refine ⟨rfl, ?_, fun o _ => rfl⟩
    change lo + (top - lo) = top
    omega

/-- INTERNAL: `slices` tile `[s, e)` and denote `f` there. -/
def Reads (f : ℕ → SymByte) (s e : ℕ) (slices : List ExtentSlice) : Prop :=
  sliceChart.Tiles s e slices ∧
    ∀ slice ∈ slices, ∀ o, sliceChart.Has slice o → sliceChart.val slice o = f o

variable {f : ℕ → SymByte} {e m s : ℕ} {slices : List ExtentSlice}

/-- INTERNAL: a slice in front of a read that starts where the slice ends. -/
theorem Reads.cons {slice : ExtentSlice} (h : Reads f m e slices) (hlo : sliceChart.lo slice = s)
    (hhi : sliceChart.hi slice = m) (hlt : s < m)
    (hval : ∀ o, s ≤ o → o < m → sliceChart.val slice o = f o) : Reads f s e (slice :: slices) := by
  subst hlo hhi
  refine ⟨⟨rfl, hlt, h.1⟩, fun x hx o ho => ?_⟩
  rcases List.mem_cons.mp hx with rfl | hx
  · exact hval o ho.1 ho.2
  · exact h.2 x hx o ho

/-- INTERNAL: a read of nothing. -/
theorem Reads.nil (f : ℕ → SymByte) (s : ℕ) : Reads f s s [] :=
  ⟨rfl, fun _ h => (List.not_mem_nil h).elim⟩

/-- INTERNAL: a gap of zeros is a slice where the array is zero. -/
theorem Reads.zeros (h : Reads f m e slices) (hlt : s < m) (hz : ∀ o, s ≤ o → o < m → f o = .zero) :
    Reads f s e (.zero s (m - s) :: slices) :=
  h.cons rfl (by change s + (m - s) = m; omega) hlt fun o h1 h2 => (hz o h1 h2).symm

/-- INTERNAL: a slice of an interval is a slice of the array the intervals describe. -/
theorem Reads.overlap (h : Reads f m e slices) (hok : IntervalOk bound iv) (hs : iv.start ≤ s)
    (hlt : s < m) (hm : m ≤ iv.start + iv.length)
    (hon : ∀ o, intervalChart.Has iv o → f o = intervalChart.val iv o) :
    Reads f s e (sliceOf iv s m :: slices) := by
  obtain ⟨h1, h2, h3⟩ := sliceOf_spec hok hs hlt hm
  refine h.cons h1 h2 hlt fun o ho1 ho2 => ?_
  rw [h3 o ho1, hon o ⟨hs.trans ho1, ho2.trans_le hm⟩]

/-- INTERNAL: the loop of `read` from a cursor on: it reads up to where it stops, and
what is left of the request is zeros. -/
theorem readLoop_spec {l : List Interval} (hb : bound ≤ u64Max) (hl : IntervalsOk bound l)
    (hc : cursor < hi)
    (hon : ∀ iv ∈ l, ∀ o, intervalChart.Has iv o → f o = intervalChart.val iv o)
    (hoff : ∀ o, cursor ≤ o → (∀ iv ∈ l, ¬ intervalChart.Has iv o) → f o = .zero) :
    Reads f cursor (readLoop hi l cursor).2 (readLoop hi l cursor).1 ∧
      (readLoop hi l cursor).2 ≤ hi ∧
      ∀ o, (readLoop hi l cursor).2 ≤ o → o < hi → f o = .zero := by
  -- the uncovered offsets are only known to be zero from the cursor on
  induction l generalizing cursor with
  | nil =>
    exact ⟨Reads.nil f cursor, hc.le, fun o ho _ => hoff o ho fun _ h => (List.not_mem_nil h).elim⟩
  | cons iv rest ih =>
    have hok := hl.each iv (List.mem_cons_self ..)
    have hend : iv.start + iv.length ≤ u64Max := hok.inside.trans hb
    have hpos := hok.pos
    have hord := List.pairwise_cons.mp hl.ordered
    have hrest : IntervalsOk bound rest :=
      ⟨fun x hx => hl.each x (List.mem_cons_of_mem _ hx), hord.2⟩
    have hon' : ∀ x ∈ rest, ∀ o, intervalChart.Has x o → f o = intervalChart.val x o :=
      fun x hx => hon x (List.mem_cons_of_mem _ hx)
    have hoff' : ∀ c, cursor ≤ c → iv.start + iv.length ≤ c → ∀ o, c ≤ o →
        (∀ x ∈ rest, ¬ intervalChart.Has x o) → f o = .zero := by
      intro c hcc hle o ho hnone
      refine hoff o (hcc.trans ho) fun x hx hhas => ?_
      rcases List.mem_cons.mp hx with rfl | hx
      · have : o < x.start + x.length := hhas.2
        omega
      · exact hnone x hx hhas
    -- before the interval's start no interval of the list has begun
    have hgap : ∀ o, cursor ≤ o → o < iv.start → f o = .zero := by
      intro o ho hlt
      refine hoff o ho fun x hx hhas => ?_
      have hxo : x.start ≤ o := hhas.1
      rcases List.mem_cons.mp hx with rfl | hx
      · omega
      · have : iv.start + iv.length ≤ x.start := hord.1 x hx
        omega
    have hinside : ∀ c, cursor ≤ c → iv.start ≤ c → c < iv.start + iv.length → c < hi →
        Reads f c (readLoop hi (iv :: rest) c).2 (readLoop hi (iv :: rest) c).1 ∧
        (readLoop hi (iv :: rest) c).2 ≤ hi ∧
        ∀ o, (readLoop hi (iv :: rest) c).2 ≤ o → o < hi → f o = .zero := by
      intro c hcc hsc hce hch
      rw [readLoop_inside hend hsc hce hch]
      have honiv := hon iv (List.mem_cons_self ..)
      split_ifs with hserved
      · exact ⟨(Reads.nil f hi).overlap hok hsc hch hserved honiv, le_rfl,
          fun o h1 h2 => absurd h2 (Nat.not_lt.mpr h1)⟩
      · obtain ⟨h1, h2, h3⟩ := ih hrest (Nat.lt_of_not_le hserved) hon'
          (hoff' _ (hcc.trans hce.le) le_rfl)
        exact ⟨h1.overlap hok hsc hce le_rfl honiv, h2, h3⟩
    rcases Nat.lt_or_ge cursor (iv.start + iv.length) with hce | hce
    · rcases Nat.lt_or_ge cursor iv.start with hcs | hcs
      · rcases Nat.lt_or_ge iv.start hi with hsh | hsh
        · obtain ⟨h1, h2, h3⟩ := hinside iv.start hcs.le le_rfl (by omega) hsh
          rw [readLoop_gap hend hpos hcs hsh]
          exact ⟨h1.zeros hcs hgap, h2, h3⟩
        · rw [readLoop_past hend hc hsh]
          exact ⟨(Reads.nil f hi).zeros hc fun o h1 h2 => hgap o h1 (h2.trans_le hsh), le_rfl,
            fun o h1 h2 => absurd h2 (Nat.not_lt.mpr h1)⟩
      · exact hinside cursor le_rfl hcs hce hc
    · rw [readLoop_skip hend hce]
      exact ih hrest hc hon' (hoff' cursor le_rfl hce)

end Read

/-- INTERNAL: two reads that meet. -/
theorem Reads.append {f : ℕ → SymByte} {s m e : ℕ} {l l' : List ExtentSlice}
    (h : Reads f s m l) (h' : Reads f m e l') : Reads f s e (l ++ l') := by
  refine ⟨h.1.append h'.1, fun x hx => ?_⟩
  rcases List.mem_append.mp hx with hx | hx
  · exact h.2 x hx
  · exact h'.2 x hx

/-- INTERNAL: a map that simulates an array reads it, for every range whose end fits. -/
theorem Simulates.read (h : Simulates m f) {start : ℕ}
    (hfit : length = 0 ∨ f.size ≤ start ∨ start + length ≤ u64Max) :
    ∃ slices, m.read start length = .ok slices ∧
      Reads f.byte start (max start (min (start + length) f.size)) slices := by
  have hsize := h.size_eq
  unfold ExtentMap.read
  by_cases hempty : length = 0 ∨ m.fileSize ≤ start
  · rw [if_pos hempty, show max start (min (start + length) f.size) = start by omega]
    exact ⟨[], rfl, Reads.nil _ _⟩
  · have hsum : checkedAdd start length = some (start + length) :=
      if_pos (by omega)
    rw [if_neg hempty]
    simp only [hsum]
    set hi := min (start + length) m.fileSize with hhi
    have hlt : start < hi := by omega
    obtain ⟨h1, h2, h3⟩ := readLoop_spec h.size_le h.intervals hlt h.bytes.on_pieces
      (fun o _ => h.bytes.off_pieces o)
    rw [show max start (min (start + length) f.size) = hi by omega]
    refine ⟨_, rfl, ?_⟩
    split_ifs with hlast
    · exact h1.append ((Reads.nil _ hi).zeros hlast h3)
    · have hlast : (readLoop hi m.intervals start).2 = hi := by omega
      rwa [hlast] at h1

/-! ## The refinement -/

/-- INTERNAL: along every run of mutations from the default map, a read of a range that
starts at or past the end of file, is empty or ends within `u64` returns non-empty,
contiguous, ordered slices that cover exactly the part of the range below the end of
file and denote the bytes of the array; any other range is refused.
SRCLINE: extent_map.rs:172-363 -/
theorem read_refines_byteFile {m : ExtentMap} {f : ByteFile} (hrun : ExtentRun m f)
    (start length : ℕ) :
    m.fileSize = f.size ∧
    (length = 0 ∨ f.size ≤ start ∨ start + length ≤ u64Max →
      ∃ slices, m.read start length = .ok slices ∧
        Reads f.byte start (max start (min (start + length) f.size)) slices) ∧
    (¬ (length = 0 ∨ f.size ≤ start ∨ start + length ≤ u64Max) →
      m.read start length = .error (.invalidArgument "read range overflows")) := by
  have hsim := simulates_of_run hrun
  refine ⟨hsim.size_eq, hsim.read, fun hover => ?_⟩
  have hsize := hsim.size_eq
  have hnone : checkedAdd start length = none := checkedAdd_eq_none.mpr (by omega)
  rw [ExtentMap.read, if_neg (by omega), hnone]

/-- INTERNAL: a base page of ten bytes with two bytes written over it. -/
def overwrittenMap : ExtentMap :=
  ⟨[⟨0, 2, .base 7 0⟩, ⟨2, 2, .dirty 1 0⟩, ⟨4, 6, .base 7 4⟩], 1, 10, false⟩

/-- INTERNAL: the array of `overwrittenMap`. -/
def overwrittenFile : ByteFile := (ByteFile.ofBase 10 7).write 2 2 1 0

/-- INTERNAL: the map above is reached, and a read across its three intervals follows
the array. -/
theorem read_overwrittenMap :
    ExtentRun overwrittenMap overwrittenFile ∧
      ∃ slices, overwrittenMap.read 1 20 = .ok slices ∧
        Reads overwrittenFile.byte 1 10 slices := by
  have hrun : ExtentRun overwrittenMap overwrittenFile :=
    .step (.writeAt 2 2 1 0) (.step (.seedBase 10 7) .start rfl rfl)
      (show 0 + 2 ≤ u64Max by decide) (by decide)
  exact ⟨hrun, (read_refines_byteFile hrun 1 20).2.1 (by decide)⟩

/-- INTERNAL: a range that starts below the end of file and ends past `u64::MAX` is
refused, although part of it lies below the end of file.
SRCLINE: extent_map.rs:301-303 -/
theorem read_overflowing_range_refused :
    ∃ (m : ExtentMap) (f : ByteFile) (start length : UInt64), ExtentRun m f ∧
      start.toNat < m.fileSize ∧ 0 < length.toNat ∧
      m.read start.toNat length.toNat =
        .error (.invalidArgument "read range overflows") :=
  ⟨⟨[], 1, 10, false⟩, ByteFile.empty.truncate 10, 5, 18446744073709551615,
    .step (.truncate 10) .start trivial (by decide), by decide, by decide, by decide⟩

end Mirage.Analysis
