import Mathlib.Data.List.Basic

/-!
# Programs that change a state and may fail

The state is kept as it is when a program fails, like the receiver of a method that returns an
error.  `Ends` says how a program ends from a state, and has one rule for each combinator.
-/

set_option autoImplicit false

namespace Mirage.Computation

variable {σ ε α β : Type}

/-- INTERNAL: a program over the state `σ`. -/
abbrev Effect (σ ε : Type) := ExceptT ε (StateM σ)

namespace Effect

/-- INTERNAL: the result of a program and the state that it leaves. -/
def outcome (x : Effect σ ε α) (s : σ) : Except ε α × σ := (ExceptT.run x).run s

/-- INTERNAL: the current state. -/
def state : Effect σ ε σ := ExceptT.mk fun s => (.ok s, s)

/-- INTERNAL: a change of the state. -/
def change (f : σ → σ) : Effect σ ε Unit := ExceptT.mk fun s => (.ok (), f s)

/-- INTERNAL: a program with its error as a value. -/
def attempt (x : Effect σ ε α) : Effect σ ε (Except ε α) :=
  ExceptT.mk fun s => (.ok (outcome x s).1, (outcome x s).2)

/-- INTERNAL: the program returns with `Q` or fails with `E`. -/
def Ends (x : Effect σ ε α) (Q : α → σ → Prop) (E : ε → σ → Prop) (s : σ) : Prop :=
  match outcome x s with
  | (.ok a, s') => Q a s'
  | (.error e, s') => E e s'

variable {x : Effect σ ε α} {Q Q' : α → σ → Prop} {E E' : ε → σ → Prop} {s s' : σ}

theorem Ends.cases (h : Ends x Q E s) :
    (∃ a, (outcome x s).1 = .ok a ∧ Q a (outcome x s).2) ∨
      ∃ e, (outcome x s).1 = .error e ∧ E e (outcome x s).2 := by
  unfold Ends at h
  cases hrun : outcome x s with
  | mk r s' =>
    rw [hrun] at h
    cases r with
    | ok a => exact .inl ⟨a, rfl, h⟩
    | error e => exact .inr ⟨e, rfl, h⟩

theorem ends_pure {a : α} : Ends (pure a : Effect σ ε α) Q E s ↔ Q a s := Iff.rfl

theorem ends_throw {e : ε} : Ends (throw e : Effect σ ε α) Q E s ↔ E e s := Iff.rfl

theorem ends_state {Q : σ → σ → Prop} : Ends (state : Effect σ ε σ) Q E s ↔ Q s s := Iff.rfl

theorem ends_change {f : σ → σ} {Q : Unit → σ → Prop} :
    Ends (change f : Effect σ ε Unit) Q E s ↔ Q () (f s) := Iff.rfl

theorem outcome_bind (y : Effect σ ε β) (f : β → Effect σ ε α) (s : σ) :
    outcome (y >>= f) s = match outcome y s with
      | (.ok b, s') => outcome (f b) s'
      | (.error e, s') => (.error e, s') := by
  change outcome (ExceptT.bind y f) s = _
  unfold outcome ExceptT.bind
  change ((ExceptT.run y) >>= ExceptT.bindCont f : StateM σ (Except ε α)).run s = _
  rw [StateT.run_bind]
  cases (ExceptT.run y).run s with
  | mk r s' => cases r <;> rfl

variable {f : β → Effect σ ε α} {y : Effect σ ε β}

theorem ends_bind : Ends (y >>= f) Q E s ↔ Ends y (fun b => Ends (f b) Q E) E s := by
  unfold Ends
  rw [outcome_bind]
  cases outcome y s with
  | mk r s' => cases r <;> rfl

theorem ends_attempt {Q : Except ε α → σ → Prop} :
    Ends (attempt x) Q E s ↔ Ends x (fun a => Q (.ok a)) (fun e => Q (.error e)) s := by
  change Q (outcome x s).1 (outcome x s).2 ↔ _
  unfold Ends
  cases outcome x s with
  | mk r s' => cases r <;> rfl

theorem Ends.mono (h : Ends x Q E s) (hQ : ∀ a s', Q a s' → Q' a s')
    (hE : ∀ e s', E e s' → E' e s') : Ends x Q' E' s := by
  unfold Ends at h ⊢
  cases hrun : outcome x s with
  | mk r s' =>
    rw [hrun] at h
    cases r with
    | ok a => exact hQ a s' h
    | error e => exact hE e s' h

/-- INTERNAL: a loop, by an invariant of the elements that are left. -/
theorem ends_forM {l : List β} {f : β → Effect σ ε PUnit} {Q : PUnit → σ → Prop}
    (I : List β → σ → Prop) (hI : I l s)
    (hstep : ∀ b rest s, I (b :: rest) s → Ends (f b) (fun _ => I rest) E s)
    (hend : ∀ s, I [] s → Q ⟨⟩ s) : Ends (l.forM f) Q E s := by
  induction l generalizing s with
  | nil => exact hend s hI
  | cons b l ih =>
    change Ends (f b >>= fun _ => l.forM f) Q E s
    rw [ends_bind]
    exact (hstep b l s hI).mono (fun _ s' hrest => ih hrest) fun _ _ hE => hE

end Effect

end Mirage.Computation
