import Mathlib.Data.List.Perm.Subperm

/-!
# Trees of named nodes given by parent links

A `NameTree` is a finite or infinite set of nodes, each with at most one place: the
directory that holds it and its name there.  The fields of the structure say that it is
one tree: only directories hold nodes, every node but the root has a place, no directory
uses a name twice, and the parent links lead from every node to the root.

The operations take what they need as hypotheses and return a tree, so that a sequence of
them can only build trees.
-/

set_option autoImplicit false

namespace Mirage.Computation

variable {ι ν : Type*}

/-- INTERNAL: one step up in a table of places. -/
def Up (place : ι → Option (ι × ν)) (x p : ι) : Prop := ∃ n, place x = some (p, n)

/-- INTERNAL: a tree of directories and files.  `kind x` is `none` for what is not a node
and says otherwise whether the node is a directory. -/
structure NameTree (ι ν : Type*) where
  root : ι
  kind : ι → Option Bool
  place : ι → Option (ι × ν)
  root_kind : kind root = some true
  root_place : place root = none
  placed : ∀ x, x ≠ root → (kind x).isSome → (place x).isSome
  child_kind : ∀ x p n, place x = some (p, n) → (kind x).isSome
  parent_kind : ∀ x p n, place x = some (p, n) → kind p = some true
  name_unique : ∀ x y q, place x = some q → place y = some q → x = y
  reaches : ∀ x, (kind x).isSome → Relation.ReflTransGen (Up place) x root

namespace NameTree

variable (t : NameTree ι ν)

/-- INTERNAL: `y` is `x` or a directory above it. -/
def Above (x y : ι) : Prop := Relation.ReflTransGen (Up t.place) x y

/-- INTERNAL: no node has its place in `x`. -/
def Childless (x : ι) : Prop := ∀ y p n, t.place y = some (p, n) → p ≠ x

variable {t}

variable {x : ι} {k : Nat}

theorem ne_root_of_place {q : ι × ν} (h : t.place x = some q) : x ≠ t.root := by
  intro hx
  rw [hx, t.root_place] at h
  cases h

/-- INTERNAL: a file holds nothing. -/
theorem childless_of_file (h : t.kind x = some false) : t.Childless x := by
  intro y p n hy hp
  have hdir := t.parent_kind y p n hy
  rw [hp, h] at hdir
  cases hdir

/-- INTERNAL: nothing lies below a childless node but itself. -/
theorem eq_of_above_childless {y : ι} (hx : t.Childless x) (h : t.Above y x) : y = x := by
  induction h using Relation.ReflTransGen.head_induction_on with
  | refl => rfl
  | head hab _ ih =>
    obtain ⟨n, hn⟩ := hab
    exact absurd ih (hx _ _ n hn)

/-- INTERNAL: links that are kept lead to the root as before. -/
theorem reaches_of_subset {place' : ι → Option (ι × ν)}
    (h : ∀ y, t.Above x y → ∀ p n, t.place y = some (p, n) → place' y = some (p, n))
    (hx : (t.kind x).isSome) : Relation.ReflTransGen (Up place') x t.root := by
  have hchain : ∀ y, t.Above x y → Relation.ReflTransGen (Up t.place) y t.root →
      Relation.ReflTransGen (Up place') y t.root := by
    intro y hxy hy
    induction hy using Relation.ReflTransGen.head_induction_on with
    | refl => exact Relation.ReflTransGen.refl
    | head hab _ ih =>
      obtain ⟨n, hn⟩ := hab
      refine Relation.ReflTransGen.head ⟨n, h _ hxy _ n hn⟩ (ih ?_)
      exact hxy.tail ⟨n, hn⟩
  exact hchain x Relation.ReflTransGen.refl (t.reaches x hx)

theorem root_ne_of_absent (h : t.kind x = none) : t.root ≠ x := by
  intro he
  have hroot := t.root_kind
  rw [he, h] at hroot
  cases hroot

/-! ## Depth -/

variable (t) in
/-- INTERNAL: the root is `k` links up from `x`. -/
inductive Depth : Nat → ι → Prop where
  | root : Depth 0 t.root
  | up {k : Nat} {x p : ι} {n : ν} (hplace : t.place x = some (p, n)) (hp : Depth k p) :
      Depth (k + 1) x

theorem exists_depth (h : (t.kind x).isSome) : ∃ k, t.Depth k x := by
  have hchain := t.reaches x h
  clear h
  induction hchain using Relation.ReflTransGen.head_induction_on with
  | refl => exact ⟨0, .root⟩
  | head hab _ ih =>
    obtain ⟨n, hn⟩ := hab
    obtain ⟨k, hk⟩ := ih
    exact ⟨k + 1, .up hn hk⟩

theorem Depth.unique {j : Nat} (hj : t.Depth j x) (hk : t.Depth k x) : j = k := by
  induction hj generalizing k with
  | root =>
    cases hk with
    | root => rfl
    | up hplace =>
      rw [t.root_place] at hplace
      cases hplace
  | up hplace _ ih =>
    cases hk with
    | root =>
      rw [t.root_place] at hplace
      cases hplace
    | up hplace' hp' =>
      rw [hplace] at hplace'
      cases hplace'
      rw [ih hp']

theorem Depth.kind (h : t.Depth k x) : (t.kind x).isSome := by
  cases h with
  | root =>
    rw [t.root_kind]
    rfl
  | up hplace => exact t.child_kind _ _ _ hplace

/-- INTERNAL: the node and the directories above it are as many different nodes. -/
theorem Depth.chain (h : t.Depth k x) :
    ∃ l : List ι, l.length = k + 1 ∧ l.Nodup ∧ ∀ y ∈ l, ∃ j ≤ k, t.Depth j y := by
  induction h with
  | root =>
    refine ⟨[t.root], rfl, List.pairwise_singleton _ _, fun y hy => ?_⟩
    rw [List.mem_singleton.mp hy]
    exact ⟨0, Nat.le_refl 0, .root⟩
  | up hplace hp ih =>
    rename_i k x p n
    obtain ⟨l, hlength, hnodup, hdepth⟩ := ih
    have hx : t.Depth (k + 1) x := .up hplace hp
    refine ⟨x :: l, by rw [List.length_cons, hlength], ?_, ?_⟩
    · refine List.nodup_cons.mpr ⟨fun hmem => ?_, hnodup⟩
      obtain ⟨j, hj, hjx⟩ := hdepth x hmem
      have := hjx.unique hx
      omega
    · intro y hy
      rcases List.mem_cons.mp hy with rfl | hy
      · exact ⟨k + 1, Nat.le_refl _, hx⟩
      · obtain ⟨j, hj, hjy⟩ := hdepth y hy
        exact ⟨j, by omega, hjy⟩

/-- INTERNAL: no node is as deep as there are nodes. -/
theorem Depth.lt_length (h : t.Depth k x) {nodes : List ι}
    (hnodes : ∀ y, (t.kind y).isSome → y ∈ nodes) : k < nodes.length := by
  obtain ⟨l, hlength, hnodup, hdepth⟩ := h.chain
  have hsub : l ⊆ nodes := by
    intro y hy
    obtain ⟨j, -, hj⟩ := hdepth y hy
    exact hnodes y hj.kind
  have hle := (hnodup.subperm hsub).length_le
  omega

theorem place_ne_self {p : ι} {n : ν} (h : t.place x = some (p, n)) : p ≠ x := by
  rintro rfl
  obtain ⟨k, hk⟩ := exists_depth (t.child_kind p p n h)
  have := hk.unique (.up h hk)
  omega

/-! ## Paths -/

variable (t) in
/-- INTERNAL: the names on the way from the root to `x`. -/
inductive Path : List ν → ι → Prop where
  | root : Path [] t.root
  | down {names : List ν} {x p : ι} {n : ν} (hplace : t.place x = some (p, n))
      (hp : Path names p) : Path (names ++ [n]) x

theorem Path.unique {names others : List ν} (h : t.Path names x) (h' : t.Path others x) :
    names = others := by
  induction h generalizing others with
  | root =>
    cases h' with
    | root => rfl
    | down hplace =>
      rw [t.root_place] at hplace
      cases hplace
  | down hplace _ ih =>
    cases h' with
    | root =>
      rw [t.root_place] at hplace
      cases hplace
    | down hplace' hp' =>
      rw [hplace] at hplace'
      cases hplace'
      rw [ih hp']

/-! ## Operations -/

/-- INTERNAL: a lone root. -/
def single [DecidableEq ι] (root : ι) : NameTree ι ν where
  root := root
  kind := fun x => if x = root then some true else none
  place := fun _ => none
  root_kind := if_pos rfl
  root_place := rfl
  placed := by
    intro x hx hk
    rw [if_neg hx] at hk
    cases hk
  child_kind := by
    intro x p n h
    cases h
  parent_kind := by
    intro x p n h
    cases h
  name_unique := by
    intro x y q h
    cases h
  reaches := by
    intro x hk
    by_cases hx : x = root
    · rw [hx]
    · rw [if_neg hx] at hk
      cases hk

section Update

variable [DecidableEq ι]

variable (t)

/-- INTERNAL: a new node `x` under the name `n` of the directory `p`. -/
def add (x p : ι) (n : ν) (directory : Bool) (hx : t.kind x = none) (hp : t.kind p = some true)
    (hfree : ∀ y, t.place y ≠ some (p, n)) : NameTree ι ν where
  root := t.root
  kind := Function.update t.kind x (some directory)
  place := Function.update t.place x (some (p, n))
  root_kind := by
    rw [Function.update_of_ne (root_ne_of_absent hx)]
    exact t.root_kind
  root_place := by
    rw [Function.update_of_ne (root_ne_of_absent hx)]
    exact t.root_place
  placed := by
    intro y hy hk
    by_cases hyx : y = x
    · rw [hyx, Function.update_self]
      rfl
    · rw [Function.update_of_ne hyx] at hk ⊢
      exact t.placed y hy hk
  child_kind := by
    intro y q m hy
    by_cases hyx : y = x
    · rw [hyx, Function.update_self]
      rfl
    · rw [Function.update_of_ne hyx] at hy ⊢
      exact t.child_kind y q m hy
  parent_kind := by
    intro y q m hy
    have hq : t.kind q = some true := by
      by_cases hyx : y = x
      · rw [hyx, Function.update_self] at hy
        cases hy
        exact hp
      · rw [Function.update_of_ne hyx] at hy
        exact t.parent_kind y q m hy
    have hqx : q ≠ x := by
      intro he
      rw [he, hx] at hq
      cases hq
    rw [Function.update_of_ne hqx]
    exact hq
  name_unique := by
    intro y z q hy hz
    by_cases hyx : y = x
    · by_cases hzx : z = x
      · rw [hyx, hzx]
      · rw [hyx, Function.update_self] at hy
        rw [Function.update_of_ne hzx] at hz
        cases hy
        exact absurd hz (hfree z)
    · rw [Function.update_of_ne hyx] at hy
      by_cases hzx : z = x
      · rw [hzx, Function.update_self] at hz
        cases hz
        exact absurd hy (hfree y)
      · rw [Function.update_of_ne hzx] at hz
        exact t.name_unique y z q hy hz
  reaches := by
    -- the old links are untouched, since `x` had none
    have hold : ∀ y, (t.kind y).isSome →
        Relation.ReflTransGen (Up (Function.update t.place x (some (p, n)))) y t.root := by
      intro y hy
      refine reaches_of_subset (fun z _ q m hz => ?_) hy
      have hzx : z ≠ x := by
        intro he
        have := t.child_kind z q m hz
        rw [he, hx] at this
        cases this
      rw [Function.update_of_ne hzx]
      exact hz
    intro y hk
    by_cases hyx : y = x
    · have hpk : (t.kind p).isSome := by
        rw [hp]
        rfl
      refine Relation.ReflTransGen.head ⟨n, ?_⟩ (hold p hpk)
      rw [hyx, Function.update_self]
    · rw [Function.update_of_ne hyx] at hk
      exact hold y hk

/-- INTERNAL: take out a node that holds nothing. -/
def remove (x : ι) (hx : x ≠ t.root) (hempty : t.Childless x) : NameTree ι ν where
  root := t.root
  kind := Function.update t.kind x none
  place := Function.update t.place x none
  root_kind := by
    rw [Function.update_of_ne (Ne.symm hx)]
    exact t.root_kind
  root_place := by
    rw [Function.update_of_ne (Ne.symm hx)]
    exact t.root_place
  placed := by
    intro y hy hk
    by_cases hyx : y = x
    · rw [hyx, Function.update_self] at hk
      cases hk
    · rw [Function.update_of_ne hyx] at hk ⊢
      exact t.placed y hy hk
  child_kind := by
    intro y q m hy
    by_cases hyx : y = x
    · rw [hyx, Function.update_self] at hy
      cases hy
    · rw [Function.update_of_ne hyx] at hy ⊢
      exact t.child_kind y q m hy
  parent_kind := by
    intro y q m hy
    by_cases hyx : y = x
    · rw [hyx, Function.update_self] at hy
      cases hy
    · rw [Function.update_of_ne hyx] at hy
      rw [Function.update_of_ne (hempty y q m hy)]
      exact t.parent_kind y q m hy
  name_unique := by
    intro y z q hy hz
    by_cases hyx : y = x
    · rw [hyx, Function.update_self] at hy
      cases hy
    · by_cases hzx : z = x
      · rw [hzx, Function.update_self] at hz
        cases hz
      · rw [Function.update_of_ne hyx] at hy
        rw [Function.update_of_ne hzx] at hz
        exact t.name_unique y z q hy hz
  reaches := by
    intro y hk
    by_cases hyx : y = x
    · rw [hyx, Function.update_self] at hk
      cases hk
    · rw [Function.update_of_ne hyx] at hk
      refine reaches_of_subset (fun z hz q m hplace => ?_) hk
      -- the chain from `y` never meets `x`, which holds nothing
      have hzx : z ≠ x := by
        intro he
        rw [he] at hz
        exact hyx (eq_of_above_childless hempty hz)
      rw [Function.update_of_ne hzx]
      exact hplace

/-- INTERNAL: give the node `x` a new place under a directory that is not below it. -/
def move (x q : ι) (n : ν) (hx : x ≠ t.root) (hk : (t.kind x).isSome)
    (hq : t.kind q = some true) (hbelow : ¬ t.Above q x)
    (hfree : ∀ y, y ≠ x → t.place y ≠ some (q, n)) : NameTree ι ν where
  root := t.root
  kind := t.kind
  place := Function.update t.place x (some (q, n))
  root_kind := t.root_kind
  root_place := by
    rw [Function.update_of_ne (Ne.symm hx)]
    exact t.root_place
  placed := by
    intro y hy hyk
    by_cases hyx : y = x
    · rw [hyx, Function.update_self]
      rfl
    · rw [Function.update_of_ne hyx]
      exact t.placed y hy hyk
  child_kind := by
    intro y r m hy
    by_cases hyx : y = x
    · rw [hyx]
      exact hk
    · rw [Function.update_of_ne hyx] at hy
      exact t.child_kind y r m hy
  parent_kind := by
    intro y r m hy
    by_cases hyx : y = x
    · rw [hyx, Function.update_self] at hy
      cases hy
      exact hq
    · rw [Function.update_of_ne hyx] at hy
      exact t.parent_kind y r m hy
  name_unique := by
    intro y z r hy hz
    by_cases hyx : y = x
    · by_cases hzx : z = x
      · rw [hyx, hzx]
      · rw [hyx, Function.update_self] at hy
        rw [Function.update_of_ne hzx] at hz
        cases hy
        exact absurd hz (hfree z hzx)
    · rw [Function.update_of_ne hyx] at hy
      by_cases hzx : z = x
      · rw [hzx, Function.update_self] at hz
        cases hz
        exact absurd hy (hfree y hyx)
      · rw [Function.update_of_ne hzx] at hz
        exact t.name_unique y z r hy hz
  reaches := by
    have hqk : (t.kind q).isSome := by
      rw [hq]
      rfl
    -- the chain from the new parent does not run through `x`
    have hqroot : Relation.ReflTransGen (Up (Function.update t.place x (some (q, n)))) q
        t.root := by
      refine reaches_of_subset (fun z hz r m hplace => ?_) hqk
      have hzx : z ≠ x := by
        intro he
        rw [he] at hz
        exact hbelow hz
      rw [Function.update_of_ne hzx]
      exact hplace
    intro y hyk
    have hchain := t.reaches y hyk
    induction hchain using Relation.ReflTransGen.head_induction_on with
    | refl => exact Relation.ReflTransGen.refl
    | @head a b hab _ ih =>
      obtain ⟨m, hm⟩ := hab
      by_cases hax : a = x
      · refine Relation.ReflTransGen.head ⟨n, ?_⟩ hqroot
        rw [hax, Function.update_self]
      · refine Relation.ReflTransGen.head ⟨m, ?_⟩ (ih ?_)
        · rw [Function.update_of_ne hax]
          exact hm
        · rw [t.parent_kind a b m hm]
          rfl

end Update

end NameTree

end Mirage.Computation
