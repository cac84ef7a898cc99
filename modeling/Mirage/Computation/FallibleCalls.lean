import Mirage.Computation.Checks
import Mirage.Computation.CrashRun

/-!
# Programs of calls that may fail

A call returns a value or an error, and a program of calls stops at the first error it does
not handle.  A `CallSystem` says what a call does and returns, how it may fail, and which
choices are allowed.
-/

set_option autoImplicit false

namespace Mirage.Computation

variable {ι χ σ α β ε : Type} {V : ι → Type}

/-- INTERNAL: a tree of calls; the call `i` returns a `V i` or fails. -/
abbrev CallTree (ι : Type) (V : ι → Type) (ε α : Type) := Prog ι (fun i => Except ε (V i)) α

/-- INTERNAL: a sequence of calls that ends with the first error. -/
abbrev Calls (ι : Type) (V : ι → Type) (ε : Type) := ExceptT ε (CallTree ι V ε)

namespace Calls

/-- INTERNAL: one call. -/
def call (i : ι) : Calls ι V ε (V i) := ExceptT.mk (Prog.perform i)

/-- INTERNAL: one call, with its error as a value. -/
def attempt (i : ι) : Calls ι V ε (Except ε (V i)) := ExceptT.lift (Prog.perform i)

/-- INTERNAL: a computation without calls. -/
def compute (x : Except ε α) : Calls ι V ε α := ExceptT.mk (pure x)

end Calls

/-- INTERNAL: what calls do. -/
structure CallSystem (ι χ σ ε : Type) (V : ι → Type) where
  perform : χ → σ → (i : ι) → Except ε (V i) × σ
  fault : χ → ι → Option (CallFault ε)
  allowed : χ → Bool

namespace CallSystem

variable (S : CallSystem ι χ σ ε V)

/-- INTERNAL: one call, where the choice is allowed. -/
def exec (i : ι) (x : χ) (s : σ) : Option (Except ε (V i) × σ) :=
  if S.allowed x = true then some (CallFault.apply (S.fault x i) s (S.perform x s i)) else none

theorem exec_some {i : ι} {x : χ} {s s' : σ} {r : Except ε (V i)}
    (h : S.exec i x s = some (r, s')) :
    S.allowed x = true ∧ CallFault.apply (S.fault x i) s (S.perform x s i) = (r, s') := by
  unfold exec at h
  split_ifs at h with hallowed
  exact ⟨hallowed, Option.some.inj h⟩

variable {S} {s : σ}

/-! ## Disciplines -/

section Disciplined

variable {D : Discipline ι σ}

/-- INTERNAL: the program keeps the discipline and returns with `Q`. -/
def Follows (S : CallSystem ι χ σ ε V) (D : Discipline ι σ) (y : Calls ι V ε α)
    (Q : α → σ → Prop) (s : σ) : Prop :=
  SafeX D S.exec y Q (fun _ _ => True) s

variable {Q : α → σ → Prop}

theorem follows_bind {y : Calls ι V ε β} {f : β → Calls ι V ε α} {R : β → σ → Prop}
    (h : S.Follows D y R s) (hrest : ∀ b s', R b s' → S.Follows D (f b) Q s') :
    S.Follows D (y >>= f) Q s :=
  safeX_bind (safeX_mono h hrest fun _ _ _ => trivial)

theorem follows_mono {y : Calls ι V ε α} {Q' : α → σ → Prop} (h : S.Follows D y Q s)
    (hQ : ∀ a s', Q a s' → Q' a s') : S.Follows D y Q' s :=
  safeX_mono h hQ fun _ _ _ => trivial

theorem follows_pure {a : α} (h : Q a s) :
    S.Follows D (pure a : Calls ι V ε α) Q s := h

theorem follows_throw {e : ε} :
    S.Follows D (throw e : Calls ι V ε α) Q s := trivial

theorem follows_compute {x : Except ε α} (h : ∀ a, x = .ok a → Q a s) :
    S.Follows D (Calls.compute x) Q s := by
  cases x with
  | ok a => exact h a rfl
  | error e => trivial

/-- INTERNAL: a call with its error as a value; it may fail before or behind its effect. -/
theorem follows_attempt {i : ι} {Q : Except ε (V i) → σ → Prop} (h : D.inv s)
    (hsame : D.step i s s)
    (hdone : ∀ x, S.allowed x = true → D.step i s (S.perform x s i).2 ∧ D.inv (S.perform x s i).2)
    (hQ : ∀ x r s', S.allowed x = true → (s' = s ∨ s' = (S.perform x s i).2) →
      (∀ a, r = .ok a → S.perform x s i = (.ok a, s')) → Q r s') :
    S.Follows D (Calls.attempt i) Q s := by
  apply safeX_lift
  intro x r s' hexec
  obtain ⟨hallowed, hresult⟩ := S.exec_some hexec
  have hstate := apply_state (S.fault x i) s (S.perform x s i)
  rw [hresult] at hstate
  have hstep : D.step i s s' ∧ D.inv s' := by
    rcases hstate with rfl | rfl
    · exact ⟨hsame, h⟩
    · exact hdone x hallowed
  refine ⟨hstep.1, hstep.2, hQ x r s' hallowed hstate ?_⟩
  rintro a rfl
  exact apply_ok hresult

theorem follows_call {i : ι} {Q : V i → σ → Prop} (h : D.inv s) (hsame : D.step i s s)
    (hdone : ∀ x, S.allowed x = true → D.step i s (S.perform x s i).2 ∧ D.inv (S.perform x s i).2)
    (hQ : ∀ x a s', S.allowed x = true → S.perform x s i = (.ok a, s') → Q a s') :
    S.Follows D (Calls.call i) Q s := by
  intro x r s' hexec
  obtain ⟨hallowed, hresult⟩ := S.exec_some hexec
  have hstate := apply_state (S.fault x i) s (S.perform x s i)
  rw [hresult] at hstate
  have hstep : D.step i s s' ∧ D.inv s' := by
    rcases hstate with rfl | rfl
    · exact ⟨hsame, h⟩
    · exact hdone x hallowed
  refine ⟨hstep.1, hstep.2, ?_⟩
  cases r with
  | error e => trivial
  | ok a => exact hQ x a s' hallowed (apply_ok hresult)

end Disciplined

/-! ## Runs -/

/-- INTERNAL: the states that runs of operations lead to, with what is left of the one that
goes on. -/
def Reaches (S : CallSystem ι χ σ ε V) (starts : Calls ι V ε Unit → σ → Prop) (s₀ s : σ)
    (left : Option (CallTree ι V ε Unit)) : Prop :=
  CutRun S.exec (fun p s => ∃ y, starts y s ∧ p = (do let _ ← y.run)) s₀ s left

/-- INTERNAL: a discipline that every operation follows holds in every run. -/
theorem reaches_follows {D : Discipline ι σ} {starts : Calls ι V ε Unit → σ → Prop} {s₀ : σ}
    (h₀ : D.inv s₀) (h : ∀ y s, D.inv s → starts y s → S.Follows D y (fun _ _ => True) s)
    {left : Option (CallTree ι V ε Unit)} (run : S.Reaches starts s₀ s left) :
    D.inv s ∧ ∀ i k x r s', left = some (.act i k) → S.exec i x s = some (r, s') →
      D.step i s s' := by
  have hcalls : ∀ p s, D.inv s → (∃ y, starts y s ∧ p = (do let _ ← y.run)) →
      Safe D S.exec p (fun _ _ => True) s := by
    rintro p s hinv ⟨y, hstart, rfl⟩
    exact safe_ignore (h y s hinv hstart)
  refine ⟨(Discipline.sound h₀ hcalls run).1, ?_⟩
  rintro i k x r s' rfl hexec
  exact Discipline.sound_step h₀ hcalls run hexec

/-- INTERNAL: operations one after another, each cut where its choices end. -/
def play (S : CallSystem ι χ σ ε V) (ops : List (Calls ι V ε Unit × List χ)) (s : σ) : Option σ :=
  playOps S.exec (ops.map fun op => ((do let _ ← op.1.run), op.2)) s

theorem reaches_of_play {starts : Calls ι V ε Unit → σ → Prop} {s₀ : σ}
    {ops : List (Calls ι V ε Unit × List χ)} {check : σ → Bool}
    (hstarts : ∀ op ∈ ops, ∀ s, starts op.1 s) (h : (S.play ops s₀).any check = true) :
    ∃ s left, S.Reaches starts s₀ s left ∧ check s = true := by
  refine exists_cutRun_of_play ?_ .start h
  intro op hop s
  obtain ⟨op', hop', rfl⟩ := List.mem_map.mp hop
  exact ⟨op'.1, hstarts op' hop' s, rfl⟩

end CallSystem

end Mirage.Computation
