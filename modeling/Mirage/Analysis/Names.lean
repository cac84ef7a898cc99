import Mirage.Computation.Checks
import Mirage.Model.ByteFields
import Mirage.Model.Namespace

/-!
# Names that the naming policy accepts

A name that folds is not empty, holds no separator and has at most 255 UTF-16 units, which
bounds its bytes.
-/

set_option autoImplicit false

namespace Mirage.Analysis

open Mirage.Model

variable {ext : Externals} {name folded : NameText}

theorem foldName_ok (h : foldName ext name = .ok folded) :
    name ≠ [] ∧ utf16Units name ≤ maxNameUnits ∧ folded = name.flatMap ext.toUppercase := by
  unfold foldName at h
  by_cases hbad : name = [] ∨ maxNameUnits < utf16Units name ∨
      name.getLast? = some '.' ∨ name.getLast? = some ' '
  · simp only [hbad, if_true] at h
    cases h
  · simp only [hbad, if_false] at h
    split_ifs at h
    · cases h
    · cases h
    · cases h
    · cases h
      rw [not_or, not_or, not_lt] at hbad
      exact ⟨hbad.1, hbad.2.1, rfl⟩

theorem utf8Size_le (c : Char) : c.utf8Size ≤ 3 * (if c.toNat < 0x10000 then 1 else 2) := by
  have hnat : c.toNat = c.val.toNat := rfl
  unfold Char.utf8Size
  simp only [UInt32.le_iff_toNat_le, UInt32.toNat_ofNatLT]
  rw [hnat]
  split_ifs
  all_goals omega

/-- INTERNAL: a UTF-16 unit is at most three bytes of UTF-8. -/
theorem length_utf8Bytes_le (name : NameText) :
    (utf8Bytes name).length ≤ 3 * utf16Units name := by
  induction name with
  | nil => exact le_refl 0
  | cons c rest ih =>
    have hcons : (utf8Bytes (c :: rest)).length = c.utf8Size + (utf8Bytes rest).length := by
      unfold utf8Bytes
      rw [List.flatMap_cons, List.length_append, String.length_utf8EncodeChar]
    have hunits : utf16Units (c :: rest) =
        (if c.toNat < 0x10000 then 1 else 2) + utf16Units rest := by
      unfold utf16Units
      rw [List.map_cons, List.sum_cons]
    have hsize := utf8Size_le c
    rw [hcons, hunits]
    omega

end Mirage.Analysis
