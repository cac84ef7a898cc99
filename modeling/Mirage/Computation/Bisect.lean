import Mathlib.Data.List.Pairwise
import Mathlib.Data.List.Sort
import Mirage.Computation.Checks

/-!
# Lists sorted by a key

Sorting by a key that tells the elements apart gives a strictly ordered list, and a list
that is in order already is what sorting any of its permutations gives.
-/

set_option autoImplicit false

namespace Mirage.Computation

variable {α κ : Type}

/-- INTERNAL: neighbours of an ordered list are in order. -/
theorem pairwise_zip_tail {R : α → α → Prop} {l : List α} (h : l.Pairwise R) :
    ∀ pair ∈ l.zip l.tail, R pair.1 pair.2 := by
  induction l with
  | nil =>
    intro pair hpair
    cases hpair
  | cons a rest ih =>
    rw [List.pairwise_cons] at h
    cases rest with
    | nil =>
      intro pair hpair
      cases hpair
    | cons b rest =>
      intro pair hpair
      rcases List.mem_cons.mp hpair with rfl | hlater
      · exact h.1 b List.mem_cons_self
      · exact ih h.2 pair hlater

/-- INTERNAL: sorting does not see the order of a list whose elements the relation tells apart. -/
theorem insertionSort_perm {r : α → α → Prop} [DecidableRel r] [Std.Total r] [IsTrans α r]
    {l l' : List α} (hanti : ∀ a ∈ l, ∀ b ∈ l, r a b → r b a → a = b) (h : l.Perm l') :
    l.insertionSort r = l'.insertionSort r := by
  have hsorted := List.perm_insertionSort r l
  have hperm := hsorted.trans (h.trans (List.perm_insertionSort r l').symm)
  refine hperm.eq_of_pairwise ?_ (List.pairwise_insertionSort r l)
    (List.pairwise_insertionSort r l')
  intro a b ha hb
  exact hanti a (hsorted.mem_iff.mp ha) b (hsorted.mem_iff.mp (hperm.mem_iff.mpr hb))

variable [LE κ] [DecidableLE κ] [Std.IsLinearOrder κ] (key : α → κ) {l l' : List α}

theorem pairwise_le_insertionSort :
    (l.insertionSort fun a b => key a ≤ key b).Pairwise fun a b => key a ≤ key b := by
  have htotal : Std.Total fun a b : α => key a ≤ key b := ⟨fun _ _ => Std.le_total⟩
  have htrans : IsTrans α fun a b => key a ≤ key b := ⟨fun _ _ _ hab hbc => Std.le_trans hab hbc⟩
  exact List.pairwise_insertionSort _ _

variable [LT κ] [Std.LawfulOrderLT κ]

theorem pairwise_lt_insertionSort (h : l.Pairwise fun a b => key a ≠ key b) :
    (l.insertionSort fun a b => key a ≤ key b).Pairwise fun a b => key a < key b := by
  have hdistinct := h.perm (List.perm_insertionSort (fun a b : α => key a ≤ key b) l).symm Ne.symm
  refine ((pairwise_le_insertionSort key).and hdistinct).imp fun {a b} hab => ?_
  exact Std.lt_of_le_of_ne hab.1 hab.2

theorem insertionSort_eq_of_perm (h : l'.Pairwise fun a b => key a < key b) (hperm : l.Perm l') :
    (l.insertionSort fun a b => key a ≤ key b) = l' := by
  have hsorted : l'.Pairwise fun a b => key a ≤ key b := h.imp fun hlt => Std.le_of_lt hlt
  have hall := (List.perm_insertionSort (fun a b : α => key a ≤ key b) l).trans hperm
  refine List.Perm.eq_of_pairwise ?_ (pairwise_le_insertionSort key) hsorted hall
  intro a b ha hb hab hba
  have hkey : key a = key b := Std.le_antisymm hab hba
  by_contra hne
  have hdistinct : l'.Pairwise fun a b => key a ≠ key b := by
    refine h.imp fun {a b} hlt heq => ?_
    rw [heq] at hlt
    exact Std.lt_irrefl hlt
  have hsymm : Std.Symm fun a b : α => key a ≠ key b := ⟨fun _ _ => Ne.symm⟩
  exact hdistinct.forall (hall.mem_iff.mp ha) hb hne hkey

end Mirage.Computation

/-!
## Bisection with a fallible probe

The loop of a binary search over positions, where looking at a position can fail.  The number
of rounds is bounded by the length of the interval, which is what the first argument starts at.
-/

namespace Mirage.Computation

variable {ε : Type}

/-- INTERNAL: the first position at which the probe is false. -/
def lowerBound (probe : Nat → Except ε Bool) : Nat → Nat → Nat → Except ε Nat
  | 0, low, _ => .ok low
  | rounds + 1, low, high =>
    if low < high then do
      let below ← probe (low + (high - low) / 2)
      if below then lowerBound probe rounds (low + (high - low) / 2 + 1) high
      else lowerBound probe rounds low (low + (high - low) / 2)
    else .ok low

/-- INTERNAL: the invariant of the loop: the predicate holds below `low` and fails from
`high` on. -/
theorem lowerBound_ok {probe : Nat → Except ε Bool} {p : Nat → Prop} [DecidablePred p] {n : Nat}
    (hprobe : ∀ i, i < n → probe i = .ok (decide (p i)))
    (hdown : ∀ i j, i ≤ j → j < n → p j → p i) {rounds low high : Nat}
    (hrounds : high - low ≤ rounds) (hle : low ≤ high) (hhigh : high ≤ n)
    (hbelow : ∀ i, i < low → p i) (habove : ∀ i, high ≤ i → i < n → ¬ p i) :
    ∃ r, lowerBound probe rounds low high = .ok r ∧ r ≤ n ∧ (∀ i, i < r → p i) ∧
      ∀ i, r ≤ i → i < n → ¬ p i := by
  induction rounds generalizing low high with
  | zero =>
    refine ⟨low, rfl, by omega, hbelow, fun i hi hin => habove i (by omega) hin⟩
  | succ rounds ih =>
    unfold lowerBound
    by_cases hlt : low < high
    · have hmid : low + (high - low) / 2 < high := by omega
      rw [if_pos hlt, ok_bind (hprobe _ (by omega))]
      by_cases hp : p (low + (high - low) / 2)
      · rw [if_pos (decide_eq_true hp)]
        exact ih (by omega) (by omega) hhigh
          (fun i hi => hdown i (low + (high - low) / 2) (by omega) (by omega) hp) habove
      · rw [if_neg (by simpa using hp)]
        exact ih (by omega) (by omega) (by omega) hbelow
          fun i hi hin hpi => hp (hdown _ i hi hin hpi)
    · rw [if_neg hlt]
      exact ⟨low, rfl, by omega, hbelow, fun i hi hin => habove i (by omega) hin⟩

/-! ## Partition points -/

section PartitionPoint

variable {α : Type} {p : α → Bool} {l : List α}

/-- INTERNAL: `partition_point` of a list. -/
def partitionPoint (p : α → Bool) (l : List α) : Nat :=
  match lowerBound (fun i => (.ok (l[i]?.any p) : Except Empty Bool)) l.length 0 l.length with
  | .ok n => n
  | .error e => nomatch e

/-- INTERNAL: where the elements with `p` come first, the partition point is behind the last of
them. -/
theorem partitionPoint_spec (hdown : l.Pairwise fun a b => p b = true → p a = true) :
    (∀ a ∈ l.take (partitionPoint p l), p a = true) ∧
      ∀ a ∈ l.drop (partitionPoint p l), p a = false := by
  have hat : ∀ i (hi : i < l.length), l[i]?.any p = p l[i] := by
    intro i hi
    rw [List.getElem?_eq_getElem hi, Option.any_some]
  have hmono : ∀ i j, i ≤ j → j < l.length → l[j]?.any p = true → l[i]?.any p = true := by
    intro i j hij hj hpj
    rcases Nat.eq_or_lt_of_le hij with rfl | hlt
    · exact hpj
    · have hi := Nat.lt_trans hlt hj
      rw [hat j hj] at hpj
      rw [hat i hi]
      exact List.pairwise_iff_getElem.mp hdown i j hi hj hlt hpj
  have hsearch : ∃ r,
      lowerBound (fun i => (.ok (l[i]?.any p) : Except Empty Bool)) l.length 0 l.length = .ok r ∧
        r ≤ l.length ∧ (∀ i, i < r → l[i]?.any p = true) ∧
          ∀ i, r ≤ i → i < l.length → ¬ l[i]?.any p = true :=
    lowerBound_ok (fun i _ => by rw [Bool.decide_eq_true]) hmono (Nat.sub_le _ _) (Nat.zero_le _)
      (Nat.le_refl _) (fun i hi => absurd hi (Nat.not_lt_zero i))
      fun i hi hlt => absurd hlt (Nat.not_lt_of_le hi)
  obtain ⟨r, hr, -, hbelow, habove⟩ := hsearch
  have hpoint : partitionPoint p l = r := by
    unfold partitionPoint
    rw [hr]
  rw [hpoint]
  constructor
  · intro a ha
    obtain ⟨i, hi, rfl⟩ := List.mem_take_iff_getElem.mp ha
    have hlt : i < l.length := Nat.lt_of_lt_of_le hi (Nat.min_le_right _ _)
    rw [← hat i hlt]
    exact hbelow i (Nat.lt_of_lt_of_le hi (Nat.min_le_left _ _))
  · intro a ha
    obtain ⟨i, hi, rfl⟩ := List.mem_drop_iff_getElem.mp ha
    have hlt : r + i < l.length := by omega
    rw [← hat (r + i) hlt]
    exact eq_false_of_ne_true (habove (r + i) (Nat.le_add_right _ _) hlt)

end PartitionPoint

end Mirage.Computation
