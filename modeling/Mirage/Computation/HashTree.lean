import Mathlib.Algebra.Order.Group.Nat
import Mathlib.Data.Nat.Log
import Mathlib.Data.Set.Function

/-!
# Hash trees over a byte string

A string of at most one chunk is compressed together with the number of the chunk; a longer one
is split behind the largest power of two below its length and its two values are compressed.  The
compressions of the root and of all other nodes are parameters, with values of any type.  Where
they do not collide on the nodes of two trees, equal values mean equal strings at equal offsets.
-/

set_option autoImplicit false

namespace Mirage.Computation

variable {δ β : Type}

/-! ## The split -/

/-- INTERNAL: the largest power of two below a length. -/
def leftLength (length : Nat) : Nat := 2 ^ (length - 1).log2

theorem leftLength_lt {length : Nat} (h : 1 < length) : leftLength length < length := by
  have hle := Nat.log2_self_le (show length - 1 ≠ 0 by omega)
  unfold leftLength
  omega

theorem leftLength_pos (length : Nat) : 0 < leftLength length := Nat.two_pow_pos _

/-- INTERNAL: a longer string is split at a multiple of a smaller power of two. -/
theorem dvd_leftLength {k length : Nat} (h : 2 ^ k < length) : 2 ^ k ∣ leftLength length := by
  have hpos := Nat.two_pow_pos k
  exact Nat.pow_dvd_pow 2 ((Nat.le_log2 (by omega)).mpr (by omega))

/-! ## Nodes -/

/-- INTERNAL: what is compressed: a chunk with its number, or the values of two subtrees. -/
inductive HashNode (δ β : Type) where
  | chunk (number : Nat) (content : List β)
  | parent (left right : δ)
  deriving DecidableEq

/-- INTERNAL: the compressions of the root and of the nodes below it. -/
structure TreeHash (δ β : Type) where
  inner : HashNode δ β → δ
  root : HashNode δ β → δ

variable (h : TreeHash δ β) (k : Nat)

/-- INTERNAL: the node over a string at an offset, with chunks of `2 ^ k`. -/
def topNode (offset : Nat) (bytes : List β) : HashNode δ β :=
  if 2 ^ k < bytes.length then
    .parent (h.inner (topNode offset (bytes.take (leftLength bytes.length))))
      (h.inner (topNode (offset + leftLength bytes.length)
        (bytes.drop (leftLength bytes.length))))
  else .chunk (offset / 2 ^ k) bytes
termination_by bytes.length
decreasing_by
  · have hpos := Nat.two_pow_pos k
    rw [List.length_take]
    exact Nat.lt_of_le_of_lt (Nat.min_le_left _ _) (leftLength_lt (by omega))
  · have hpos := leftLength_pos bytes.length
    have hchunk := Nat.two_pow_pos k
    rw [List.length_drop]
    omega

/-- INTERNAL: the value of a subtree at an offset. -/
def subtreeValue (offset : Nat) (bytes : List β) : δ := h.inner (topNode h k offset bytes)

def treeValue (bytes : List β) : δ := h.root (topNode h k 0 bytes)

variable {h k} {offset offset' : Nat} {bytes bytes' : List β}

theorem topNode_long (hlong : 2 ^ k < bytes.length) : topNode h k offset bytes =
    .parent (subtreeValue h k offset (bytes.take (leftLength bytes.length)))
      (subtreeValue h k (offset + leftLength bytes.length)
        (bytes.drop (leftLength bytes.length))) := by
  rw [topNode, if_pos hlong]
  rfl

theorem topNode_short (hshort : ¬ 2 ^ k < bytes.length) :
    topNode h k offset bytes = .chunk (offset / 2 ^ k) bytes := by
  rw [topNode, if_neg hshort]

/-- INTERNAL: two values stand for a node only over a string of more than one chunk. -/
theorem topNode_eq_parent {left right : δ} (heq : topNode h k offset bytes = .parent left right) :
    2 ^ k < bytes.length ∧
      left = subtreeValue h k offset (bytes.take (leftLength bytes.length)) ∧
      right = subtreeValue h k (offset + leftLength bytes.length)
        (bytes.drop (leftLength bytes.length)) := by
  by_cases hlong : 2 ^ k < bytes.length
  · rw [topNode_long hlong] at heq
    obtain ⟨rfl, rfl⟩ := HashNode.parent.inj heq
    exact ⟨hlong, rfl, rfl⟩
  · rw [topNode_short hlong] at heq
    cases heq

/-! ## Collisions -/

variable (h k) in
/-- INTERNAL: the nodes of the tree over a string. -/
inductive HashedIn : Nat → List β → HashNode δ β → Prop
  | top {offset : Nat} {bytes : List β} : HashedIn offset bytes (topNode h k offset bytes)
  | left {offset : Nat} {bytes : List β} {node : HashNode δ β} : 2 ^ k < bytes.length →
      HashedIn offset (bytes.take (leftLength bytes.length)) node → HashedIn offset bytes node
  | right {offset : Nat} {bytes : List β} {node : HashNode δ β} : 2 ^ k < bytes.length →
      HashedIn (offset + leftLength bytes.length) (bytes.drop (leftLength bytes.length)) node →
      HashedIn offset bytes node

/-- INTERNAL: no two of these nodes are compressed to one value. -/
structure CollisionFree (h : TreeHash δ β) (nodes : Set (HashNode δ β)) : Prop where
  inner : Set.InjOn h.inner nodes
  root : Set.InjOn h.root nodes

variable {nodes : Set (HashNode δ β)}

theorem topNode_inj (hfree : CollisionFree h nodes)
    (hnodes : ∀ node, HashedIn h k offset bytes node → node ∈ nodes)
    (hnodes' : ∀ node, HashedIn h k offset' bytes' node → node ∈ nodes)
    (hoffset : 2 ^ k ∣ offset) (hoffset' : 2 ^ k ∣ offset')
    (heq : topNode h k offset bytes = topNode h k offset' bytes') :
    offset = offset' ∧ bytes = bytes' := by
  induction hlength : bytes.length using Nat.strong_induction_on
    generalizing offset offset' bytes bytes' with
  | _ length ih =>
    subst hlength
    by_cases hlong : 2 ^ k < bytes.length
    · rw [topNode_long hlong] at heq
      obtain ⟨hlong', hleft, hright⟩ := topNode_eq_parent heq.symm
      have hpos := Nat.two_pow_pos k
      have hlt := leftLength_lt (show 1 < bytes.length by omega)
      have hcut := leftLength_pos bytes.length
      -- The values of the children agree, so their strings do, and these make up the whole.
      obtain ⟨hsame, htake⟩ := ih _ (by rw [List.length_take]; omega)
        (fun node hnode => hnodes node (.left hlong hnode))
        (fun node hnode => hnodes' node (.left hlong' hnode)) hoffset hoffset'
        (hfree.inner (hnodes _ (.left hlong .top)) (hnodes' _ (.left hlong' .top)) hleft) rfl
      obtain ⟨-, hdrop⟩ := ih _ (by rw [List.length_drop]; omega)
        (fun node hnode => hnodes node (.right hlong hnode))
        (fun node hnode => hnodes' node (.right hlong' hnode))
        (Nat.dvd_add hoffset (dvd_leftLength hlong)) (Nat.dvd_add hoffset' (dvd_leftLength hlong'))
        (hfree.inner (hnodes _ (.right hlong .top)) (hnodes' _ (.right hlong' .top)) hright) rfl
      refine ⟨hsame, ?_⟩
      rw [← List.take_append_drop (leftLength bytes.length) bytes, htake, hdrop,
        List.take_append_drop]
    · rw [topNode_short hlong] at heq
      by_cases hlong' : 2 ^ k < bytes'.length
      · rw [topNode_long hlong'] at heq
        cases heq
      · rw [topNode_short hlong'] at heq
        obtain ⟨hnumber, rfl⟩ := HashNode.chunk.inj heq
        exact ⟨(Nat.div_left_inj hoffset hoffset').mp hnumber, rfl⟩

theorem subtreeValue_inj (hfree : CollisionFree h nodes)
    (hnodes : ∀ node, HashedIn h k offset bytes node → node ∈ nodes)
    (hnodes' : ∀ node, HashedIn h k offset' bytes' node → node ∈ nodes)
    (hoffset : 2 ^ k ∣ offset) (hoffset' : 2 ^ k ∣ offset')
    (heq : subtreeValue h k offset bytes = subtreeValue h k offset' bytes') :
    offset = offset' ∧ bytes = bytes' :=
  topNode_inj hfree hnodes hnodes' hoffset hoffset'
    (hfree.inner (hnodes _ .top) (hnodes' _ .top) heq)

theorem treeValue_inj (hfree : CollisionFree h nodes)
    (hnodes : ∀ node, HashedIn h k 0 bytes node → node ∈ nodes)
    (hnodes' : ∀ node, HashedIn h k 0 bytes' node → node ∈ nodes)
    (heq : treeValue h k bytes = treeValue h k bytes') : bytes = bytes' :=
  (topNode_inj hfree hnodes hnodes' (Nat.dvd_zero _) (Nat.dvd_zero _)
    (hfree.root (hnodes _ .top) (hnodes' _ .top) heq)).2

end Mirage.Computation
