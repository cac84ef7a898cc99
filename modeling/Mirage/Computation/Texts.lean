import Mathlib.Algebra.Order.BigOperators.Group.List
import Mathlib.Data.Nat.Digits.Lemmas

/-!
# The length of JSON texts

Numbers, arrays and objects as a compact JSON writer prints them.  The length of a text is
the sum of the lengths of its parts and of what stands between them.
-/

set_option autoImplicit false

namespace Mirage.Computation

/-- INTERNAL: one writer needs no more characters than another. -/
def NoLonger {α : Type} (write text : α → List Char) : Prop :=
  ∀ a, (write a).length ≤ (text a).length

/-- INTERNAL: the decimal digits of a number. -/
def decimal (n : Nat) : List Char :=
  if n = 0 then ['0'] else (Nat.digits 10 n).reverse.map Nat.digitChar

theorem decimal_length_le {n k : Nat} (hk : 0 < k) (h : n < 10 ^ k) :
    (decimal n).length ≤ k := by
  unfold decimal
  split_ifs with hzero
  · exact hk
  · rw [List.length_map, List.length_reverse]
    exact (Nat.digits_length_le_iff (by decide) n).mpr h

/-- INTERNAL: texts with a comma between each two. -/
def commaList : List (List Char) → List Char
  | [] => []
  | [item] => item
  | item :: rest => item ++ ',' :: commaList rest

theorem commaList_length (items : List (List Char)) :
    (commaList items).length = (items.map List.length).sum + (items.length - 1) := by
  induction items with
  | nil => rfl
  | cons item rest ih =>
    cases rest with
    | nil => rfl
    | cons next rest =>
      change (item ++ ',' :: commaList (next :: rest)).length = _
      rw [List.length_append, List.length_cons, ih]
      simp only [List.map_cons, List.sum_cons, List.length_cons]
      omega

def jsonArray (items : List (List Char)) : List Char := '[' :: commaList items ++ [']']

theorem jsonArray_length (items : List (List Char)) :
    (jsonArray items).length = (items.map List.length).sum + (items.length - 1) + 2 := by
  unfold jsonArray
  rw [List.length_append, List.length_cons, commaList_length]
  rfl

/-- INTERNAL: an array of texts that are no longer than a bound. -/
theorem jsonArray_length_le {items : List (List Char)} {bound : Nat}
    (h : ∀ item ∈ items, item.length ≤ bound) :
    (jsonArray items).length ≤ items.length * (bound + 1) + 2 := by
  have hsum : (items.map List.length).sum ≤ items.length * bound := by
    have hle := List.sum_le_card_nsmul (items.map List.length) bound (by
      intro n hn
      obtain ⟨item, hitem, rfl⟩ := List.mem_map.mp hn
      exact h item hitem)
    rwa [List.length_map, nsmul_eq_mul, Nat.cast_id] at hle
  rw [jsonArray_length, Nat.mul_succ]
  omega

def jsonBool (b : Bool) : List Char := if b then "true".toList else "false".toList

/-- INTERNAL: the members of an object under their names. -/
def jsonObject (members : List (String × List Char)) : List Char :=
  '\x7b' :: commaList (members.map fun m => '"' :: m.1.toList ++ '"' :: ':' :: m.2) ++ ['\x7d']

theorem jsonObject_length (members : List (String × List Char)) :
    (jsonObject members).length =
      (members.map fun m => m.1.toList.length + m.2.length + 3).sum + (members.length - 1) + 2 := by
  unfold jsonObject
  rw [List.length_append, List.length_cons, commaList_length, List.length_map, List.map_map]
  have hmember : (List.length ∘ fun m : String × List Char =>
      '"' :: m.1.toList ++ '"' :: ':' :: m.2) = fun m => m.1.toList.length + m.2.length + 3 := by
    funext m
    simp only [Function.comp_apply, List.cons_append, List.length_cons, List.length_append]
    omega
  rw [hmember]
  rfl

end Mirage.Computation
