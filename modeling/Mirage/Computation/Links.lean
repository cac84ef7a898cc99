import Mathlib.Data.List.Chain
import Mathlib.Data.List.Nodup

/-!
# Following the only link

A walk that goes on as long as there is exactly one way to go.  Where it ends is determined by
where it begins, and where it ends because there is no way to go every other walk from its
beginning is a part of it.
-/

set_option autoImplicit false

namespace Mirage.Computation

variable {α : Type} {link : α → α → Prop} {a z z' : α} {walk walk' other : List α}

/-- INTERNAL: from here the links lead through this walk to its last member, each the only one. -/
inductive LeadsTo (link : α → α → Prop) : α → List α → α → Prop
  | here {a : α} : LeadsTo link a [] a
  | go {a b z : α} {walk : List α} :
      link a b → (∀ c, link a c → c = b) → LeadsTo link b walk z → LeadsTo link a (b :: walk) z

namespace LeadsTo

theorem isChain (h : LeadsTo link a walk z) : (a :: walk).IsChain link := by
  induction h with
  | here => exact .singleton _
  | go hlink _ _ ih => exact .cons_cons hlink ih

theorem getLast? (h : LeadsTo link a walk z) : (a :: walk).getLast? = some z := by
  induction h with
  | here => rfl
  | go _ _ _ ih => exact ih

theorem last_linked (h : LeadsTo link a walk z) : z = a ∨ ∃ b, link b z := by
  induction h with
  | here => exact Or.inl rfl
  | go hlink _ _ ih =>
    rcases ih with rfl | hlinked
    · exact Or.inr ⟨_, hlink⟩
    · exact Or.inr hlinked

/-- INTERNAL: two walks from one beginning that end where there is not one way to go. -/
theorem unique (h : LeadsTo link a walk z) (h' : LeadsTo link a walk' z')
    (hz : ¬ ∃! b, link z b) (hz' : ¬ ∃! b, link z' b) : walk = walk' ∧ z = z' := by
  induction h generalizing walk' with
  | here =>
    cases h' with
    | here => exact ⟨rfl, rfl⟩
    | go hlink honly _ => exact (hz ⟨_, hlink, honly⟩).elim
  | go hlink honly _ ih =>
    cases h' with
    | here => exact (hz' ⟨_, hlink, honly⟩).elim
    | go hlink' _ h' =>
      obtain rfl := honly _ hlink'
      obtain ⟨rfl, rfl⟩ := ih h' hz
      exact ⟨rfl, rfl⟩

/-- INTERNAL: no walk from the beginning leaves this one or goes beyond it. -/
theorem contains (h : LeadsTo link a walk z) (hz : ∀ b, ¬ link z b)
    (hother : (a :: other).IsChain link) : other <+: walk := by
  induction h generalizing other with
  | here =>
    cases other with
    | nil => exact List.nil_prefix
    | cons b other => exact (hz b (List.isChain_cons_cons.mp hother).1).elim
  | go _ honly _ ih =>
    cases other with
    | nil => exact List.nil_prefix
    | cons c other =>
      obtain ⟨hlink, hrest⟩ := List.isChain_cons_cons.mp hother
      obtain rfl := honly c hlink
      exact (List.prefix_cons_inj c).mpr (ih hz hrest)

end LeadsTo

/-- INTERNAL: behind every element of a chain but the last there is another one. -/
theorem exists_next {l : List α} (h : l.IsChain link) (ha : a ∈ l) (hlast : l.getLast? ≠ some a) :
    ∃ b ∈ l, link a b := by
  induction h with
  | nil => cases ha
  | singleton b =>
    rw [List.mem_singleton.mp ha] at hlast
    exact (hlast rfl).elim
  | cons_cons hlink _ ih =>
    rcases List.mem_cons.mp ha with rfl | hrest
    · exact ⟨_, List.mem_cons_of_mem _ List.mem_cons_self, hlink⟩
    · obtain ⟨b, hb, hab⟩ := ih hrest (by rwa [List.getLast?_cons_cons] at hlast)
      exact ⟨b, List.mem_cons_of_mem _ hb, hab⟩

end Mirage.Computation
