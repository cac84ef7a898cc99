import Mathlib.Data.List.Basic

/-!
# Checked computations

Rules for computations that end in a value or an error and change no state: a sequence of
checks succeeds exactly when each check holds and each step returns.
-/

set_option autoImplicit false

namespace Mirage.Computation

variable {ε α β : Type}

/-- INTERNAL: fail with the error unless the condition holds. -/
def ensure (c : Prop) [Decidable c] (e : ε) : Except ε Unit := if c then .ok () else .error e

/-- INTERNAL: the value of an option, or the error. -/
def someOr (o : Option α) (e : ε) : Except ε α :=
  match o with
  | some a => .ok a
  | none => .error e

variable {x : Except ε α} {f : α → Except ε β} {b : β} {e : ε} {l : List α}

theorem except_bind_ok : (x >>= f) = .ok b ↔ ∃ a, x = .ok a ∧ f a = .ok b := by
  cases x with
  | error e =>
    constructor
    · intro h
      cases h
    · rintro ⟨a, h, -⟩
      cases h
  | ok a =>
    constructor
    · intro h
      exact ⟨a, rfl, h⟩
    · rintro ⟨a', h, hf⟩
      cases h
      exact hf

theorem except_map_ok {f : α → β} : x.map f = .ok b ↔ ∃ a, x = .ok a ∧ f a = b := by
  cases x with
  | error e => simp [Except.map]
  | ok a => simp [Except.map]

theorem ensure_ok {c : Prop} [Decidable c] (h : ensure c e = .ok ()) : c := by
  unfold ensure at h
  split at h
  · assumption
  · cases h

theorem someOr_ok {o : Option α} {a : α} (h : someOr o e = .ok a) : o = some a := by
  cases o with
  | none => cases h
  | some b => rw [Except.ok.inj h]

theorem ensure_bind_ok {c : Prop} [Decidable c] {f : Unit → Except ε β} :
    (ensure c e >>= f) = .ok b ↔ c ∧ f () = .ok b := by
  unfold ensure
  by_cases hc : c
  · rw [if_pos hc]
    exact ⟨fun h => ⟨hc, h⟩, fun h => h.2⟩
  · rw [if_neg hc]
    constructor
    · intro h
      cases h
    · intro h
      exact absurd h.1 hc

/-- INTERNAL: behind a check, two programs need to agree only where it passes. -/
theorem ensure_bind_congr {p : Prop} [Decidable p] {f g : Unit → Except ε α} (h : p → f () = g ()) :
    (ensure p e >>= f) = (ensure p e >>= g) := by
  unfold ensure
  by_cases hp : p
  · rw [if_pos hp]
    exact h hp
  · rw [if_neg hp]
    rfl

theorem someOr_bind_ok {o : Option α} :
    (someOr o e >>= f) = .ok b ↔ ∃ a, o = some a ∧ f a = .ok b := by
  cases o with
  | none =>
    constructor
    · intro h
      cases h
    · rintro ⟨a, h, -⟩
      cases h
  | some a =>
    constructor
    · intro h
      exact ⟨a, rfl, h⟩
    · rintro ⟨a', h, hf⟩
      cases h
      exact hf

/-- INTERNAL: a step that returns nothing. -/
theorem check_bind_ok {x : Except ε Unit} {f : Unit → Except ε β} :
    (x >>= f) = .ok b ↔ x = .ok () ∧ f () = .ok b := by
  rw [except_bind_ok]
  constructor
  · rintro ⟨⟨⟩, hx, hf⟩
    exact ⟨hx, hf⟩
  · rintro ⟨hx, hf⟩
    exact ⟨(), hx, hf⟩

/-- INTERNAL: a step that returns is replaced by what it returns. -/
theorem ok_bind {a : α} (h : x = .ok a) (f : α → Except ε β) : (x >>= f) = f a := by
  rw [h]
  rfl

/-- INTERNAL: a loop each of whose rounds returns. -/
theorem mapM_ok {g : α → β} (h : ∀ a ∈ l, f a = .ok (g a)) : l.mapM f = .ok (l.map g) := by
  induction l with
  | nil => rfl
  | cons a l ih =>
    rw [List.mapM_cons, h a List.mem_cons_self, ih fun b hb => h b (List.mem_cons_of_mem a hb)]
    rfl

/-- INTERNAL: a loop over positions that finds the elements of a list. -/
theorem mapM_range_ok {f : Nat → Except ε β} {l : List β}
    (h : ∀ i b, l[i]? = some b → f i = .ok b) : (List.range l.length).mapM f = .ok l := by
  induction l generalizing f with
  | nil => rfl
  | cons b l ih =>
    have hrest : (List.range l.length).mapM (f ∘ Nat.succ) = .ok l :=
      ih fun i c hc => h (i + 1) c (by rw [List.getElem?_cons_succ]; exact hc)
    rw [List.length_cons, List.range_succ_eq_map, List.mapM_cons, h 0 b rfl, List.mapM_map, hrest]
    rfl

/-- INTERNAL: a loop of checks succeeds when every check does. -/
theorem forM_ok {f : α → Except ε PUnit} : l.forM f = .ok () ↔ ∀ a ∈ l, f a = .ok () := by
  induction l with
  | nil => exact ⟨fun _ a ha => (by cases ha), fun _ => rfl⟩
  | cons a l ih =>
    rw [show (a :: l).forM f = (f a >>= fun _ => l.forM f) from rfl, except_bind_ok,
      List.forall_mem_cons, ← ih]
    constructor
    · rintro ⟨⟨⟩, ha, hl⟩
      exact ⟨ha, hl⟩
    · rintro ⟨ha, hl⟩
      exact ⟨(), ha, hl⟩

/-- INTERNAL: what every round of a loop keeps. -/
theorem foldlM_keeps {f : β → α → Except ε β} {start last : β} (I : β → Prop)
    (h : l.foldlM f start = .ok last) (h₀ : I start)
    (hstep : ∀ b a b', a ∈ l → I b → f b a = .ok b' → I b') : I last := by
  induction l generalizing start with
  | nil =>
    obtain rfl := Except.ok.inj h
    exact h₀
  | cons a l ih =>
    rw [List.foldlM_cons, except_bind_ok] at h
    obtain ⟨next, hnext, hrest⟩ := h
    exact ih hrest (hstep start a next List.mem_cons_self h₀ hnext)
      fun b a' b' ha' => hstep b a' b' (List.mem_cons_of_mem a ha')

end Mirage.Computation
