import Mathlib.Data.Finset.Card
import Mathlib.Data.List.Sort

/-!
# Finite tables

A table holds at most one value for each key.  It is the list of its entries, newest
first; `get` finds the entry of a key, `set` replaces it and `erase` drops it.
-/

set_option autoImplicit false

namespace Mirage.Computation

/-- INTERNAL: `retain` on a list without repetitions. -/
theorem filter_ne_eq_erase {α : Type} [DecidableEq α] {l : List α} (h : l.Nodup) (a : α) :
    l.filter (· ≠ a) = l.erase a := by
  rw [h.erase_eq_filter]
  congr 1
  funext x
  simp [bne, Bool.beq_eq_decide_eq]

/-- INTERNAL: the entries of a table. -/
structure Table (κ α : Type) where
  entries : List (κ × α)
  deriving DecidableEq, Repr

namespace Table

variable {κ α : Type} [DecidableEq κ] {t : Table κ α} {k j : κ} {a : α}

/-- INTERNAL: the table without entries. -/
def empty : Table κ α := ⟨[]⟩

/-- INTERNAL: the value of a key. -/
def get (t : Table κ α) (k : κ) : Option α := (t.entries.find? fun e => e.1 = k).map Prod.snd

/-- INTERNAL: drop the entry of a key. -/
def erase (t : Table κ α) (k : κ) : Table κ α := ⟨t.entries.filter fun e => e.1 ≠ k⟩

/-- INTERNAL: give a key a value. -/
def set (t : Table κ α) (k : κ) (a : α) : Table κ α := ⟨(k, a) :: (t.erase k).entries⟩

/-- INTERNAL: the keys that have a value. -/
def keys (t : Table κ α) : List κ := t.entries.map Prod.fst

@[simp] theorem get_empty : (empty : Table κ α).get k = none := rfl

@[simp] theorem get_set_self : (t.set k a).get k = some a := by
  unfold get set
  simp

@[simp] theorem get_erase_self : (t.erase k).get k = none := by
  unfold get erase
  rw [Option.map_eq_none_iff, List.find?_eq_none]
  intro e he
  have hne := of_decide_eq_true (List.mem_filter.mp he).2
  simpa using hne

theorem get_erase_ne (h : j ≠ k) : (t.erase k).get j = t.get j := by
  unfold get erase
  congr 1
  induction t.entries with
  | nil => rfl
  | cons e rest ih =>
    by_cases hk : e.1 = k
    · have hj : ¬ k = j := fun hj => h hj.symm
      simp only [List.filter_cons, List.find?_cons, hk, hj, ne_eq, not_true_eq_false, decide_false,
        Bool.false_eq_true, if_false]
      exact ih
    · simp only [List.filter_cons, hk, ne_eq, not_false_eq_true, decide_true, if_true,
        List.find?_cons]
      rw [ih]

theorem get_set_ne (h : j ≠ k) : (t.set k a).get j = t.get j := by
  rw [← get_erase_ne (t := t) h]
  unfold get set
  simp [h.symm]

theorem get_set (t : Table κ α) (k j : κ) (a : α) :
    (t.set k a).get j = if j = k then some a else t.get j := by
  split_ifs with h
  · rw [h, get_set_self]
  · exact get_set_ne h

theorem get_erase (t : Table κ α) (k j : κ) :
    (t.erase k).get j = if j = k then none else t.get j := by
  split_ifs with h
  · rw [h, get_erase_self]
  · exact get_erase_ne h

theorem erase_erase_self (t : Table κ α) (k : κ) : (t.erase k).erase k = t.erase k := by
  unfold erase
  simp

theorem erase_set (t : Table κ α) (k : κ) (a : α) : (t.set k a).erase k = t.erase k := by
  unfold set erase
  simp

theorem mem_of_get (h : t.get k = some a) : (k, a) ∈ t.entries := by
  obtain ⟨e, he, rfl⟩ := Option.map_eq_some_iff.mp h
  have hkey : e.1 = k := by simpa using List.find?_some he
  rw [← hkey]
  exact List.mem_of_find?_eq_some he

theorem mem_keys : k ∈ t.keys ↔ ∃ a, t.get k = some a := by
  constructor
  · intro h
    obtain ⟨e, he, rfl⟩ := List.mem_map.mp h
    cases hget : t.get e.1 with
    | some a => exact ⟨a, rfl⟩
    | none =>
      have hnone := List.find?_eq_none.mp (Option.map_eq_none_iff.mp hget) e he
      exact absurd (decide_eq_true rfl) hnone
  · rintro ⟨a, h⟩
    exact List.mem_map_of_mem (mem_of_get h)

/-- INTERNAL: a table without keys finds nothing. -/
theorem get_of_keys_nil (h : t.keys = []) : t.get k = none := by
  cases hget : t.get k with
  | none => rfl
  | some a =>
    have hmem := mem_keys.mpr ⟨a, hget⟩
    rw [h] at hmem
    cases hmem

/-! ## Sizes -/

/-- INTERNAL: the number of entries. -/
def size (t : Table κ α) : Nat := t.entries.length

/-- INTERNAL: no key has two entries. -/
def Distinct (t : Table κ α) : Prop := t.keys.Nodup

theorem keys_erase : (t.erase k).keys = t.keys.filter (· ≠ k) := by
  unfold keys erase
  rw [List.filter_map]
  rfl

theorem Distinct.erase (h : t.Distinct) (k : κ) : (t.erase k).Distinct := by
  unfold Distinct
  rw [keys_erase]
  exact h.filter _

theorem Distinct.set (h : t.Distinct) (k : κ) (a : α) : (t.set k a).Distinct := by
  change (k :: (t.erase k).keys).Nodup
  refine List.nodup_cons.mpr ⟨?_, h.erase k⟩
  rw [keys_erase]
  intro hmem
  exact of_decide_eq_true (List.mem_filter.mp hmem).2 rfl

theorem Distinct.get_of_mem (h : t.Distinct) (hmem : (k, a) ∈ t.entries) : t.get k = some a := by
  obtain ⟨b, hb⟩ := mem_keys.mp (List.mem_map_of_mem hmem)
  have hsame := List.inj_on_of_nodup_map h hmem (mem_of_get hb) rfl
  rw [hb, (Prod.mk.inj hsame).2]

/-! ### Folds of updates -/

section Updates

variable {β : Type}

/-- INTERNAL: a fold that updates the entry of each element's key, read at one key. -/
theorem get_foldl_update (key : β → κ) (f : Option α → β → α) (l : List β) (t : Table κ α)
    (k : κ) :
    (l.foldl (fun t b => t.set (key b) (f (t.get (key b)) b)) t).get k =
      (l.filter fun b => key b = k).foldl (fun o b => some (f o b)) (t.get k) := by
  induction l generalizing t with
  | nil => rfl
  | cons b rest ih =>
    rw [List.foldl_cons, ih, get_set]
    by_cases hk : key b = k
    · rw [List.filter_cons_of_pos (by simpa using hk), List.foldl_cons, if_pos hk.symm, hk]
    · rw [List.filter_cons_of_neg (by simpa using hk), if_neg (Ne.symm hk)]

/-- INTERNAL: a fold that gives each element's key its value: the last value of a key counts. -/
theorem get_foldl_set (key : β → κ) (value : β → α) (l : List β) (t : Table κ α) (k : κ) :
    (l.foldl (fun t b => t.set (key b) (value b)) t).get k =
      ((l.filter fun b => key b = k).map value).getLast?.or (t.get k) := by
  have hlast : ∀ (l : List β) (o : Option α), l.foldl (fun _ b => some (value b)) o =
      (l.map value).getLast?.or o := by
    intro l
    induction l with
    | nil => exact fun o => rfl
    | cons b rest ih =>
      intro o
      rw [List.foldl_cons, ih, List.map_cons, List.getLast?_cons]
      cases (rest.map value).getLast? with
      | none => rfl
      | some last => rfl
  rw [get_foldl_update key (fun _ b => value b), hlast]

end Updates

theorem erase_of_get_none (h : t.get k = none) : t.erase k = t := by
  unfold erase
  congr 1
  rw [List.filter_eq_self]
  intro e he
  refine decide_eq_true fun hkey => ?_
  have hmem : e.1 ∈ t.keys := List.mem_map_of_mem he
  obtain ⟨a, ha⟩ := mem_keys.mp hmem
  rw [hkey, h] at ha
  cases ha

theorem size_erase_some (hd : t.Distinct) (h : t.get k = some a) :
    (t.erase k).size + 1 = t.size := by
  have hkeys : (t.erase k).keys = t.keys.erase k := by
    rw [keys_erase, filter_ne_eq_erase hd]
  have hmem : k ∈ t.keys := mem_keys.mpr ⟨a, h⟩
  have hlength := congrArg List.length hkeys
  rw [List.length_erase_of_mem hmem] at hlength
  have hpos := List.length_pos_of_mem hmem
  unfold keys at hlength hpos
  rw [List.length_map] at hlength hpos
  rw [List.length_map] at hlength
  unfold size
  omega

/-- INTERNAL: an entry and the others are all entries. -/
theorem perm_erase (hd : t.Distinct) (h : t.get k = some a) :
    t.entries.Perm ((k, a) :: (t.erase k).entries) := by
  have hset : ((t.erase k).set k a).entries = (k, a) :: (t.erase k).entries := by
    unfold set
    rw [erase_erase_self]
  rw [← hset]
  refine (List.perm_ext_iff_of_nodup (List.Nodup.of_map _ hd)
    (List.Nodup.of_map _ ((hd.erase k).set k a))).mpr fun e => ?_
  rw [hset, List.mem_cons]
  constructor
  · intro he
    by_cases hkey : e.1 = k
    · have hget := hd.get_of_mem he
      rw [hkey, h] at hget
      exact .inl (Prod.ext hkey (Option.some.inj hget).symm)
    · exact .inr (List.mem_filter.mpr ⟨he, decide_eq_true hkey⟩)
  · rintro (rfl | he)
    · exact mem_of_get h
    · exact (List.mem_filter.mp he).1

end Table

theorem Table.distinct_empty {κ α : Type} : (Table.empty : Table κ α).Distinct :=
  List.nodup_nil

end Mirage.Computation

/-!
## Updates of the rows of one group

A table holds the rows of many groups, and a statement that names one group rewrites or
drops rows of that group only.  Seen through the filter of a group, an update of the same
group is the update without the group's condition, and an update of another group is
nothing.
-/

namespace Mirage.Computation

variable {α : Type*} (p q r : α → Prop) [DecidablePred p] [DecidablePred q] [DecidablePred r]
  (f : α → α)

variable {a : α} {κ : Type*} {l : List α}

theorem filter_append_self (hp : p a) (l : List α) :
    (l ++ [a]).filter (fun a => p a) = (l.filter fun a => p a) ++ [a] := by
  simp [hp]

theorem filter_append_other (hr : ¬ r a) (l : List α) :
    (l ++ [a]).filter (fun a => r a) = l.filter fun a => r a := by
  simp [hr]

theorem filter_update_self (hf : ∀ a, p a → p (f a)) (l : List α) :
    (l.map fun a => if p a ∧ q a then f a else a).filter (fun a => p a) =
      (l.filter fun a => p a).map fun a => if q a then f a else a := by
  induction l with
  | nil => rfl
  | cons a l ih =>
    rw [List.map_cons]
    by_cases hp : p a
    · by_cases hq : q a
      · have hpf := hf a hp
        simp only [hp, hq, and_self, if_true, List.filter_cons, hpf, decide_true, List.map_cons,
          ih]
      · simp only [hp, hq, and_false, if_false, List.filter_cons, decide_true, if_true,
          List.map_cons, ih]
    · simp only [hp, false_and, if_false, List.filter_cons, decide_false, Bool.false_eq_true,
        ih]

theorem filter_update_other (hf : ∀ a, p a → ¬ r (f a)) (hr : ∀ a, p a → ¬ r a)
    (l : List α) :
    (l.map fun a => if p a ∧ q a then f a else a).filter (fun a => r a) =
      l.filter fun a => r a := by
  induction l with
  | nil => rfl
  | cons a l ih =>
    rw [List.map_cons]
    by_cases hp : p a
    · have h1 := hr a hp
      have h2 := hf a hp
      by_cases hq : q a
      · simp only [hp, hq, and_self, if_true, List.filter_cons, h1, h2, decide_false,
          Bool.false_eq_true, if_false, ih]
      · simp only [hp, hq, and_false, if_false, List.filter_cons, h1, decide_false,
          Bool.false_eq_true, ih]
    · simp only [hp, false_and, if_false, List.filter_cons, ih]

theorem filter_drop_self (l : List α) :
    (l.filter fun a => ¬ (p a ∧ q a)).filter (fun a => p a) =
      (l.filter fun a => p a).filter fun a => ¬ q a := by
  rw [List.filter_filter, List.filter_filter]
  refine List.filter_congr fun a _ => ?_
  by_cases hp : p a
  · simp [hp]
  · simp [hp]

theorem filter_drop_other (hr : ∀ a, p a → ¬ r a) (l : List α) :
    (l.filter fun a => ¬ (p a ∧ q a)).filter (fun a => r a) = l.filter fun a => r a := by
  rw [List.filter_filter]
  refine List.filter_congr fun a _ => ?_
  by_cases hp : p a
  · simp [hr a hp]
  · simp [hp]

/-- INTERNAL: a key that tells the rows apart occurs once. -/
theorem nodup_map_key (key : α → κ) (h : l.Pairwise fun a b => key a ≠ key b) :
    (l.map key).Nodup := by
  unfold List.Nodup
  rw [List.pairwise_map]
  exact h

/-- INTERNAL: rows with one key are one row. -/
theorem eq_of_key_eq (key : α → κ) {b : α} (h : l.Pairwise fun a b => key a ≠ key b) (ha : a ∈ l)
    (hb : b ∈ l) (hkey : key a = key b) : a = b :=
  List.inj_on_of_nodup_map (nodup_map_key key h) ha hb hkey

/-- INTERNAL: a list without repetition whose elements are all one is that one. -/
theorem eq_singleton_of_forall_eq (hnodup : l.Nodup) (ha : a ∈ l) (h : ∀ b ∈ l, b = a) :
    l = [a] := by
  have hrep := List.eq_replicate_of_mem h
  rw [hrep] at hnodup ha
  have hle := List.nodup_replicate.mp hnodup
  have hpos : l.length ≠ 0 := (List.mem_replicate.mp ha).1
  rw [hrep, show l.length = 1 by omega]
  rfl

/-- INTERNAL: where a key tells the rows apart, each key that occurs has one row. -/
theorem countP_key_eq_one [DecidableEq κ] (key : α → κ) (h : l.Pairwise fun a b => key a ≠ key b)
    (ha : a ∈ l) : l.countP (fun b => key b = key a) = 1 := by
  have hnodup := nodup_map_key key h
  have hcount := List.count_eq_one_of_mem hnodup (List.mem_map_of_mem ha)
  rw [List.count, List.countP_map] at hcount
  rw [← hcount]
  rfl

end Mirage.Computation
