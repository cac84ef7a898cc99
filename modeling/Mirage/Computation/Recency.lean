import Mathlib.Data.List.Basic

/-!
# Recency

When a key was last used is said by the history of uses alone.  A table that stamps a key with a
rising clock whenever it is used has its stamps in the order of the last uses, and the key with
the least stamp is the one whose last use is longest ago.
-/

set_option autoImplicit false

namespace Mirage.Computation

/-! ## The least element -/

section FirstMin

variable {α : Type}

/-- INTERNAL: one comparison: an earlier element stays unless a later one is less. -/
def lesser (best : Option (α × Nat)) (entry : α × Nat) : Option (α × Nat) :=
  match best with
  | none => some entry
  | some b => if entry.2 < b.2 then some entry else some b

/-- INTERNAL: the first element with the least value. -/
def firstMin (entries : List (α × Nat)) : Option α := (entries.foldl lesser none).map Prod.fst

theorem foldl_lesser_some (entries : List (α × Nat)) (best : α × Nat) :
    ∃ least, entries.foldl lesser (some best) = some least ∧
      (least ∈ entries ∨ least = best) ∧ least.2 ≤ best.2 ∧
      ∀ entry ∈ entries, least.2 ≤ entry.2 := by
  induction entries generalizing best with
  | nil => exact ⟨best, rfl, .inr rfl, Nat.le_refl _, nofun⟩
  | cons entry entries ih =>
    rw [List.foldl_cons, lesser]
    split_ifs with hless
    · obtain ⟨least, hfold, hmem, hle, hall⟩ := ih entry
      refine ⟨least, hfold, .inl ?_, by omega, List.forall_mem_cons.mpr ⟨hle, hall⟩⟩
      exact List.mem_cons.mpr hmem.symm
    · obtain ⟨least, hfold, hmem, hle, hall⟩ := ih best
      refine ⟨least, hfold, ?_, hle, List.forall_mem_cons.mpr ⟨by omega, hall⟩⟩
      exact hmem.imp_left (List.mem_cons_of_mem entry)

theorem firstMin_cons (entry : α × Nat) (entries : List (α × Nat)) :
    ∃ least ∈ entry :: entries, firstMin (entry :: entries) = some least.1 ∧
      ∀ other ∈ entry :: entries, least.2 ≤ other.2 := by
  obtain ⟨least, hfold, hmem, hle, hall⟩ := foldl_lesser_some entries entry
  refine ⟨least, List.mem_cons.mpr hmem.symm, ?_, List.forall_mem_cons.mpr ⟨hle, hall⟩⟩
  unfold firstMin
  rw [List.foldl_cons]
  exact congrArg (Option.map Prod.fst) hfold

variable {entries : List (α × Nat)}

/-- INTERNAL: what is chosen is an element, and no element has a smaller value. -/
theorem firstMin_mem {a : α} (h : firstMin entries = some a) :
    ∃ n, (a, n) ∈ entries ∧ ∀ other ∈ entries, n ≤ other.2 := by
  cases entries with
  | nil => cases h
  | cons entry entries =>
    obtain ⟨least, hmem, heq, hall⟩ := firstMin_cons entry entries
    obtain rfl := Option.some.inj (heq.symm.trans h)
    exact ⟨least.2, hmem, hall⟩

/-- INTERNAL: among equal values the first is chosen. -/
theorem firstMin_head {entry : α × Nat} (h : ∀ other ∈ entries, entry.2 ≤ other.2) :
    firstMin (entry :: entries) = some entry.1 := by
  have hfold : entries.foldl lesser (some entry) = some entry := by
    induction entries with
    | nil => rfl
    | cons other entries ih =>
      obtain ⟨hother, hrest⟩ := List.forall_mem_cons.mp h
      rw [List.foldl_cons, lesser, if_neg (Nat.not_lt_of_le hother)]
      exact ih hrest
  unfold firstMin
  rw [List.foldl_cons]
  exact congrArg (Option.map Prod.fst) hfold

theorem firstMin_none (h : firstMin entries = none) : entries = [] := by
  cases entries with
  | nil => rfl
  | cons entry entries =>
    obtain ⟨least, -, heq, -⟩ := firstMin_cons entry entries
    rw [heq] at h
    cases h

end FirstMin

/-! ## Last uses -/

section LastUse

variable {α κ : Type} [DecidableEq κ]

/-- INTERNAL: the place of the last use of a key in a history, which is given newest first; `0`
for a key that was never used. -/
def lastUse (key : α → Option κ) (k : κ) : List α → Nat
  | [] => 0
  | a :: older => if key a = some k then older.length + 1 else lastUse key k older

variable {key : α → Option κ} {history : List α} {a : α} {k j : κ}

theorem lastUse_le : lastUse key k history ≤ history.length := by
  induction history with
  | nil => exact Nat.le_refl _
  | cons a older ih =>
    rw [lastUse, List.length_cons]
    split_ifs <;> omega

theorem lastUse_self (h : key a = some k) : lastUse key k (a :: history) = history.length + 1 :=
  if_pos h

theorem lastUse_other (h : key a ≠ some k) : lastUse key k (a :: history) = lastUse key k history :=
  if_neg h

/-- INTERNAL: one place of a history uses one key. -/
theorem lastUse_inj (hused : 0 < lastUse key k history)
    (h : lastUse key k history = lastUse key j history) : k = j := by
  induction history with
  | nil => exact absurd hused (Nat.lt_irrefl 0)
  | cons a older ih =>
    have hk := @lastUse_le _ _ _ key older k
    have hj := @lastUse_le _ _ _ key older j
    by_cases hak : key a = some k
    · by_cases haj : key a = some j
      · exact Option.some.inj (hak.symm.trans haj)
      · rw [lastUse_self hak, lastUse_other haj] at h
        omega
    · by_cases haj : key a = some j
      · rw [lastUse_other hak, lastUse_self haj] at h
        omega
      · rw [lastUse_other hak] at h hused
        rw [lastUse_other haj] at h
        exact ih hused h

/-- INTERNAL: the stamps of a table are in the order of the last uses of its keys. -/
structure Stamped (key : α → Option κ) (history : List α) (stamp : κ → Option Nat) (clock : Nat) :
    Prop where
  bounded : ∀ k s, stamp k = some s → s ≤ clock
  used : ∀ k s, stamp k = some s → 0 < lastUse key k history
  order : ∀ k j s t, stamp k = some s → stamp j = some t →
    lastUse key k history < lastUse key j history → s < t

variable {stamp stamp' : κ → Option Nat} {clock : Nat}

theorem stamped_nil : Stamped key [] (fun _ => none) clock := ⟨nofun, nofun, nofun⟩

/-- INTERNAL: a use of a key that is not in the table leaves the order of the others. -/
theorem Stamped.skip (h : Stamped key history stamp clock)
    (hmiss : ∀ k, key a = some k → stamp k = none) : Stamped key (a :: history) stamp clock := by
  have hother : ∀ k s, stamp k = some s →
      lastUse key k (a :: history) = lastUse key k history := by
    intro k s hk
    refine lastUse_other fun heq => ?_
    rw [hmiss k heq] at hk
    cases hk
  refine ⟨h.bounded, fun k s hk => ?_, fun k j s t hk hj hlt => ?_⟩
  · rw [hother k s hk]
    exact h.used k s hk
  · rw [hother k s hk, hother j t hj] at hlt
    exact h.order k j s t hk hj hlt

/-- INTERNAL: a used key is stamped above all others, which keep their stamps or go. -/
theorem Stamped.touch (h : Stamped key history stamp clock) (hkey : key a = some k)
    (hself : stamp' k = some (clock + 1))
    (hsub : ∀ j s, j ≠ k → stamp' j = some s → stamp j = some s) :
    Stamped key (a :: history) stamp' (clock + 1) := by
  have huse : lastUse key k (a :: history) = history.length + 1 := lastUse_self hkey
  have hother : ∀ j, j ≠ k → lastUse key j (a :: history) = lastUse key j history := by
    intro j hj
    exact lastUse_other fun heq => hj (Option.some.inj (heq.symm.trans hkey))
  refine ⟨fun j s hj => ?_, fun j s hj => ?_, fun i j s t hi hj hlt => ?_⟩
  · by_cases hjk : j = k
    · rw [hjk, hself] at hj
      exact Nat.le_of_eq (Option.some.inj hj).symm
    · exact Nat.le_succ_of_le (h.bounded j s (hsub j s hjk hj))
  · by_cases hjk : j = k
    · rw [hjk, huse]
      exact Nat.succ_pos _
    · rw [hother j hjk]
      exact h.used j s (hsub j s hjk hj)
  · by_cases hik : i = k
    · -- nothing was used later than the key of this use
      have hle := @lastUse_le _ _ _ key (a :: history) j
      rw [hik, huse] at hlt
      rw [List.length_cons] at hle
      omega
    · by_cases hjk : j = k
      · rw [hjk, hself] at hj
        have hs := h.bounded i s (hsub i s hik hi)
        have ht := Option.some.inj hj
        omega
      · rw [hother i hik, hother j hjk] at hlt
        exact h.order i j s t (hsub i s hik hi) (hsub j t hjk hj) hlt

/-- INTERNAL: stamps compare as last uses do. -/
theorem Stamped.lt_iff (h : Stamped key history stamp clock) {s t : Nat} (hk : stamp k = some s)
    (hj : stamp j = some t) : s < t ↔ lastUse key k history < lastUse key j history := by
  refine ⟨fun hlt => ?_, h.order k j s t hk hj⟩
  by_contra hge
  rcases Nat.lt_or_eq_of_le (Nat.le_of_not_lt hge) with hless | heq
  · exact absurd (h.order j k t s hj hk hless) (by omega)
  · rw [lastUse_inj (h.used j t hj) heq, hk] at hj
    exact absurd (Option.some.inj hj) (by omega)

end LastUse

end Mirage.Computation
