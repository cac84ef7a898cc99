import Mathlib.Data.List.Chain
import Mathlib.Data.List.Sort
import Mirage.Computation.Codec

/-!
# Lists of adjacent spans and pieces
-/

set_option autoImplicit false

namespace Mirage.Computation

variable {α : Type} {start len : α → Nat} {low high : Nat} {l : List α} {a : α}

/-- INTERNAL: each span begins where the one before it ends. -/
def Adjacent (start len : α → Nat) : Nat → List α → Nat → Prop
  | low, [], high => low = high
  | low, a :: l, high => start a = low ∧ 0 < len a ∧ Adjacent start len (low + len a) l high

variable {β : Type}

theorem slice_zero (x : List β) (start : Nat) : slice x start 0 = [] := List.take_zero

/-- INTERNAL: a slice cut in two. -/
theorem slice_add (x : List β) (start m n : Nat) :
    slice x start (m + n) = slice x start m ++ slice x (start + m) n := by
  unfold slice
  rw [List.take_add, List.drop_drop]

end Mirage.Computation

/-!
## Lists of pieces that describe a function on the naturals

A *chart* reads an element of a list as a half-open piece `[lo a, hi a)` together with
the value it gives to each offset of the piece.  A list *describes* a function when
every piece gives the function's values and the function is a default elsewhere.  `Tiles`
is the stronger fact that the pieces follow each other without gap over a given range.
-/

namespace Mirage.Computation

/-- INTERNAL: how to read an element as a piece of a function on `ℕ`. -/
structure Chart (α β : Type*) where
  lo : α → ℕ
  hi : α → ℕ
  val : α → ℕ → β

namespace Chart

variable {α β : Type*} (c : Chart α β)

/-- INTERNAL: the offset `o` lies in the piece `a`. -/
def Has (a : α) (o : ℕ) : Prop := c.lo a ≤ o ∧ o < c.hi a

/-- INTERNAL: the piece `a` ends before the piece `b` begins. -/
def Before (a b : α) : Prop := c.hi a ≤ c.lo b

/-- INTERNAL: two pieces in either order without overlap. -/
def Apart (a b : α) : Prop := c.Before a b ∨ c.Before b a

/-- INTERNAL: the list gives `f` on its pieces, and `f` is `d` off them. -/
structure Describes (l : List α) (d : β) (f : ℕ → β) : Prop where
  on_pieces : ∀ a ∈ l, ∀ o, c.Has a o → f o = c.val a o
  off_pieces : ∀ o, (∀ a ∈ l, ¬ c.Has a o) → f o = d

/-- INTERNAL: the pieces of `l` are non-empty and cover `[s, e)` one after the other. -/
def Tiles : ℕ → ℕ → List α → Prop
  | s, e, [] => s = e
  | s, e, a :: l => c.lo a = s ∧ s < c.hi a ∧ Tiles (c.hi a) e l

variable {c}

/-- INTERNAL: a description only depends on the values of the function. -/
theorem Describes.congr {l : List α} {d : β} {f g : ℕ → β} (h : c.Describes l d f)
    (hfg : ∀ o, g o = f o) : c.Describes l d g := by
  refine ⟨fun a ha o ho => ?_, fun o ho => ?_⟩
  · rw [hfg o, h.on_pieces a ha o ho]
  · rw [hfg o, h.off_pieces o ho]

/-- INTERNAL: pieces that are apart and sorted by their lower ends, with no empty piece,
lie one before the other. -/
theorem pairwise_before_of_sorted {l : List α} (hne : ∀ a ∈ l, c.lo a < c.hi a)
    (hsorted : l.Pairwise (fun a b => c.lo a ≤ c.lo b)) (hapart : l.Pairwise c.Apart) :
    l.Pairwise c.Before := by
  induction l with
  | nil => exact List.Pairwise.nil
  | cons a l ih =>
    rw [List.pairwise_cons] at hsorted hapart ⊢
    refine ⟨fun b hb => ?_, ih (fun b hb => hne b (List.mem_cons_of_mem _ hb)) hsorted.2 hapart.2⟩
    have hle := hsorted.1 b hb
    have hb' := hne b (List.mem_cons_of_mem _ hb)
    rcases hapart.1 b hb with h | h
    · exact h
    · simp only [Before] at h ⊢
      omega

/-- INTERNAL: being apart does not depend on the order. -/
theorem Apart.symm {a b : α} (h : c.Apart a b) : c.Apart b a := Or.symm h

/-- INTERNAL: two tilings that meet are a tiling of the whole range. -/
theorem Tiles.append {l l' : List α} {s m e : ℕ} (h : c.Tiles s m l) (h' : c.Tiles m e l') :
    c.Tiles s e (l ++ l') := by
  induction l generalizing s with
  | nil => cases (show s = m from h); exact h'
  | cons a l ih => exact ⟨h.1, h.2.1, ih h.2.2⟩

end Chart

end Mirage.Computation
