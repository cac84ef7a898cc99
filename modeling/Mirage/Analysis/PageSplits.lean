import Mirage.Computation.Tiling
import Mirage.Interface.PlannedReads

/-!
# A range is split into the slices of its pages

The loop goes through the pages of the range in order, and each slice begins where the one before
it ends.
-/

set_option autoImplicit false

namespace Mirage.Analysis

open Mirage.Computation Mirage.Model Mirage.Interface

section Pages

open CheckedRange

/-- INTERNAL: the slice lies in the page that it names. -/
structure InPage (pageSize : Nat) (slice : PageSlice) : Prop where
  place : slice.page * pageSize + slice.offsetInPage = slice.fileOffset
  inside : slice.offsetInPage + slice.length ≤ pageSize

variable {pageSize stop page offset : Nat}

variable {a : Nat}

theorem asU32_eq (h : a ≤ u32Max) : asU32 a = a :=
  Nat.mod_eq_of_lt (Nat.lt_of_le_of_lt h (by decide))

theorem subU64_eq {b : Nat} (h : b ≤ a) : subU64 a b = .ok (a - b) := if_pos h

/-- INTERNAL: two factors below `2 ^ 32` have a product below `2 ^ 64`. -/
theorem mulU64_eq {b : Nat} (ha : a ≤ u32Max) (hb : b ≤ u32Max) : mulU64 a b = .ok (a * b) := by
  have hproduct : a * b ≤ u32Max * u32Max := Nat.mul_le_mul ha hb
  exact if_pos (Nat.le_trans hproduct (by decide))

/-- INTERNAL: the slice reaches to the end of its page or of the range. -/
theorem sliceAt_ok (hsize : pageSize ≤ u32Max) (hpage : page ≤ u32Max)
    (hlow : page * pageSize ≤ offset) (hhigh : offset < page * pageSize + pageSize)
    (hstop : offset < stop) :
    sliceAt pageSize stop page offset = .ok ⟨page, offset - page * pageSize,
      min (page * pageSize + pageSize) stop - offset, offset⟩ := by
  have hoffset : asU32 (offset - page * pageSize) = offset - page * pageSize :=
    asU32_eq (by omega)
  have hlength : min (pageSize - (offset - page * pageSize)) (stop - offset) =
      min (page * pageSize + pageSize) stop - offset := by omega
  unfold sliceAt
  rw [ok_bind (mulU64_eq hpage hsize), ok_bind (subU64_eq hlow), hoffset]
  dsimp only
  rw [ok_bind (subU64_eq (by omega)), ok_bind (subU64_eq hstop.le), hlength, asU32_eq hpage,
    asU32_eq (by omega)]
  rfl

/-- INTERNAL: the cursor moves to the start of the next page until it is at the end. -/
theorem splitPages_ok {n : Nat} (hsize : pageSize ≤ u32Max) (hpages : page + n ≤ u32Max)
    (hlow : page * pageSize ≤ offset) (hhigh : offset < page * pageSize + pageSize)
    (hlast : (page + n) * pageSize < stop) (hstop : stop ≤ (page + n) * pageSize + pageSize)
    (hoffset : offset < stop) (hfits : stop ≤ u64Max) :
    ∃ slices, splitPages pageSize stop (List.range' page (n + 1)) offset = .ok slices ∧
      Adjacent PageSlice.fileOffset PageSlice.length offset slices stop ∧
      ∀ slice ∈ slices, InPage pageSize slice := by
  have hslice := sliceAt_ok hsize (by omega) hlow hhigh hoffset
  induction n generalizing page offset with
  | zero =>
    have hmin : min (page * pageSize + pageSize) stop = stop := Nat.min_eq_right hstop
    have hnext : offset + (stop - offset) = stop := Nat.add_sub_of_le hoffset.le
    rw [hmin] at hslice
    refine ⟨[⟨page, offset - page * pageSize, stop - offset, offset⟩], ?_,
      ⟨rfl, Nat.sub_pos_of_lt hoffset, hnext⟩, ?_⟩
    · rw [List.range'_succ, splitPages, ok_bind hslice]
      simp only [checkedAdd, hnext, if_pos hfits]
      rfl
    · intro slice hmem
      obtain rfl := List.mem_singleton.mp hmem
      exact ⟨Nat.add_sub_of_le hlow, by dsimp only; simp only [Nat.add_zero] at hstop; omega⟩
  | succ n ih =>
    have hsucc : (page + 1) * pageSize = page * pageSize + pageSize := Nat.succ_mul page pageSize
    have hmono : (page + 1) * pageSize ≤ (page + (n + 1)) * pageSize :=
      Nat.mul_le_mul_right pageSize (by omega)
    have hmin : min (page * pageSize + pageSize) stop = (page + 1) * pageSize := by omega
    have hnext : offset + ((page + 1) * pageSize - offset) = (page + 1) * pageSize := by omega
    have hnextFits : (page + 1) * pageSize ≤ u64Max := by omega
    have hshift : page + 1 + n = page + (n + 1) := by omega
    obtain ⟨slices, hrest, hadjacent, hinside⟩ := @ih (page + 1) ((page + 1) * pageSize)
      (by omega) (Nat.le_refl _) (by omega) (by rwa [hshift]) (by rwa [hshift]) (by omega)
      (sliceAt_ok hsize (by omega) (Nat.le_refl _) (by omega) (by omega))
    rw [hmin] at hslice
    refine ⟨⟨page, offset - page * pageSize, (page + 1) * pageSize - offset, offset⟩ :: slices,
      ?_, ⟨rfl, ?_, ?_⟩, ?_⟩
    · rw [List.range'_succ, splitPages, ok_bind hslice]
      simp only [checkedAdd, hnext, if_pos hnextFits]
      rw [ok_bind hrest]
      rfl
    · dsimp only
      omega
    · rw [hnext]
      exact hadjacent
    · refine List.forall_mem_cons.mpr ⟨⟨Nat.add_sub_of_le hlow, ?_⟩, hinside⟩
      dsimp only
      omega

/-- INTERNAL: the slices of a range lie in one page each and follow one another from its start to
its end.
SRCLINE: mirage-types/src/range.rs:201-254 -/
theorem split_to_pages_tiles (range : CheckedRange) {pageSize : Nat} (hpos : 1 ≤ pageSize)
    (hsize : pageSize ≤ u32Max)
    (hordinals : range.len ≠ 0 → (range.start + range.len - 1) / pageSize ≤ u32Max) :
    ∃ slices, range.splitToPages pageSize = .ok slices ∧
      Adjacent PageSlice.fileOffset PageSlice.length range.start slices
        (range.start + range.len) ∧
      ∀ slice ∈ slices, InPage pageSize slice := by
  by_cases hempty : range.len = 0
  · refine ⟨[], ?_, (by rw [hempty]; rfl), fun slice hmem => absurd hmem List.not_mem_nil⟩
    refine ensure_bind_ok.mpr ⟨by omega, ensure_bind_ok.mpr ⟨hsize, ?_⟩⟩
    rw [if_pos hempty]
    rfl
  · have hlastPage := hordinals hempty
    have hfits := range.fits
    have hfirst := Nat.div_add_mod' range.start pageSize
    have hmod := Nat.mod_lt range.start hpos
    have hlast := Nat.div_add_mod' (range.start + range.len - 1) pageSize
    have hlastMod := Nat.mod_lt (range.start + range.len - 1) hpos
    have hle : range.start / pageSize ≤ (range.start + range.len - 1) / pageSize :=
      Nat.div_le_div_right (by omega)
    have hreach : range.start / pageSize +
        ((range.start + range.len - 1) / pageSize - range.start / pageSize) =
          (range.start + range.len - 1) / pageSize := Nat.add_sub_of_le hle
    obtain ⟨slices, hslices, hadjacent, hinside⟩ := @splitPages_ok pageSize
      (range.start + range.len) (range.start / pageSize) range.start _ hsize
      (by rwa [hreach]) (by omega) (by omega) (by rw [hreach]; omega) (by rw [hreach]; omega)
      (by omega) hfits
    refine ⟨slices, ?_, hadjacent, hinside⟩
    refine ensure_bind_ok.mpr ⟨by omega, ensure_bind_ok.mpr ⟨hsize, ?_⟩⟩
    rw [if_neg hempty, endExclusive_eq, ok_bind (subU64_eq (by omega))]
    refine ensure_bind_ok.mpr ⟨hlastPage, ?_⟩
    rw [ok_bind (subU64_eq hle)]
    exact hslices

/-- INTERNAL: two bytes on both sides of a boundary. -/
theorem two_slices_at_a_boundary :
    ∃ slices, (CheckedRange.mk 4095 2 (by decide)).splitToPages 4096 = .ok slices ∧
      Adjacent PageSlice.fileOffset PageSlice.length 4095 slices (4095 + 2) ∧
      ∀ slice ∈ slices, InPage 4096 slice :=
  split_to_pages_tiles ⟨4095, 2, by decide⟩ (by decide) (by decide) (by decide)

end Pages

end Mirage.Analysis
