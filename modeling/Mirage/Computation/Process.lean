import Mathlib.Algebra.Order.BigOperators.Group.Finset

/-!
# Threads over shared state

A program is a tree of atomic actions: `Prog.act i k` performs the action `i` and goes on
with `k` at its result.  `exec t i x s` is what the action `i` of thread `t` does in the
shared state `s`; the choice `x` stands for everything the program does not decide (whether
an I/O succeeds, which identifier is drawn), and `none` means that the action is blocked
there.

A pool is a shared state and the programs of its threads.  `Reaches` is the set of pools any
interleaving leads to: threads are started at any time, and in each step one thread performs
its next action.  `allowed` restricts which actions may be performed where.

A `Protocol` fixes an invariant of the shared state and a ghost value, for each thread what it
may rely on the others to keep, and what is known of a thread that was not started yet.  `wp`
is the weakest precondition of a program under that interference, and `Protocol.sound` turns
`wp` of every started program into the invariant of every pool reached.
-/

set_option autoImplicit false

namespace Mirage.Computation

/-- INTERNAL: a program over the actions `ι`, where the action `i` returns an `o i`. -/
inductive Prog (ι : Type) (o : ι → Type) (α : Type) : Type where
  | ret (a : α) : Prog ι o α
  | act (i : ι) (k : o i → Prog ι o α) : Prog ι o α

variable {ι χ σ γ α β ε : Type} {o : ι → Type}

namespace Prog

/-- INTERNAL: one program after another. -/
def bind : Prog ι o α → (α → Prog ι o β) → Prog ι o β
  | .ret a, f => f a
  | .act i k, f => .act i fun r => (k r).bind f

instance : Monad (Prog ι o) where
  pure := .ret
  bind := bind

/-- INTERNAL: the program of one action. -/
def perform (i : ι) : Prog ι o (o i) := .act i .ret

end Prog

/-! ## Runs -/

/-- INTERNAL: a shared state and the programs of its threads. -/
structure Pool (σ ι : Type) (o : ι → Type) where
  state : σ
  threads : List (Prog ι o Unit)

section Runs

variable (exec : Nat → (i : ι) → χ → σ → Option (o i × σ))
  (allowed : Nat → ι → χ → σ → Prop) (starts : Prog ι o Unit → Prop)

/-- INTERNAL: thread `t` performs its next action. -/
inductive Fires (t : Nat) : Pool σ ι o → Pool σ ι o → Prop where
  | intro {c : Pool σ ι o} {i : ι} {k : o i → Prog ι o Unit} (x : χ) {r : o i} {s' : σ}
      (next : c.threads[t]? = some (.act i k)) (admitted : allowed t i x c.state)
      (effect : exec t i x c.state = some (r, s')) :
      Fires t c ⟨s', c.threads.set t (k r)⟩

/-- INTERNAL: the pools that an interleaving of started programs reaches from `s₀`. -/
inductive Reaches (s₀ : σ) : Pool σ ι o → Prop where
  | start : Reaches s₀ ⟨s₀, []⟩
  | spawn {c : Pool σ ι o} (run : Reaches s₀ c) {p : Prog ι o Unit} (h : starts p) :
      Reaches s₀ ⟨c.state, c.threads ++ [p]⟩
  | fire {c c' : Pool σ ι o} (run : Reaches s₀ c) (t : Nat) (h : Fires exec allowed t c c') :
      Reaches s₀ c'

/-- INTERNAL: the pool after thread `t` performed its next action, if `ok` admits it. -/
def Pool.fire (ok : Nat → ι → χ → σ → Bool) (t : Nat) (x : χ) (c : Pool σ ι o) :
    Option (Pool σ ι o) :=
  match c.threads[t]? with
  | some (.act i k) =>
    if ok t i x c.state then
      (exec t i x c.state).map fun r => ⟨r.2, c.threads.set t (k r.1)⟩
    else none
  | _ => none

/-- INTERNAL: the pool after a schedule of actions that `ok` admits. -/
def Pool.play (ok : Nat → ι → χ → σ → Bool) :
    List (Nat × χ) → Pool σ ι o → Option (Pool σ ι o)
  | [], c => some c
  | (t, x) :: schedule, c => (c.fire exec ok t x).bind (Pool.play ok schedule)

variable {exec allowed starts} {s₀ : σ} {ok : Nat → ι → χ → σ → Bool}

theorem fires_of_fire (hok : ∀ t i x s, ok t i x s → allowed t i x s) {t : Nat} {x : χ}
    {c c' : Pool σ ι o} (h : c.fire exec ok t x = some c') : Fires exec allowed t c c' := by
  unfold Pool.fire at h
  cases hnext : c.threads[t]? with
  | none =>
    rw [hnext] at h
    cases h
  | some p =>
    rw [hnext] at h
    cases p with
    | ret a => cases h
    | act i k =>
      simp only at h
      split at h
      · rename_i hallowed
        obtain ⟨r, hexec, rfl⟩ := Option.map_eq_some_iff.mp h
        exact .intro x hnext (hok t i x c.state hallowed) hexec
      · cases h

theorem reaches_play (hok : ∀ t i x s, ok t i x s → allowed t i x s)
    {schedule : List (Nat × χ)} {c c' : Pool σ ι o} (hc : Reaches exec allowed starts s₀ c)
    (h : c.play exec ok schedule = some c') : Reaches exec allowed starts s₀ c' := by
  induction schedule generalizing c with
  | nil =>
    cases h
    exact hc
  | cons step schedule ih =>
    obtain ⟨c₁, hfire, hrest⟩ := Option.bind_eq_some_iff.mp h
    exact ih (.fire hc step.1 (fires_of_fire hok hfire)) hrest

theorem reaches_spawns {programs : List (Prog ι o Unit)} (h : ∀ p ∈ programs, starts p) :
    Reaches exec allowed starts s₀ ⟨s₀, programs⟩ := by
  induction programs using List.reverseRecOn with
  | nil => exact .start
  | append_singleton ps p ih =>
    apply Reaches.spawn (ih fun q hq => h q (List.mem_append_left _ hq))
    exact h p (List.mem_append_right _ (List.mem_singleton_self p))

/-- INTERNAL: a schedule whose last pool passes a check shows that such a pool is reached. -/
theorem exists_reaches_of_play (hok : ∀ t i x s, ok t i x s → allowed t i x s)
    {programs : List (Prog ι o Unit)} (hstarts : ∀ p ∈ programs, starts p)
    {schedule : List (Nat × χ)} {check : Pool σ ι o → Bool}
    (h : ((⟨s₀, programs⟩ : Pool σ ι o).play exec ok schedule).any check = true) :
    ∃ c, Reaches exec allowed starts s₀ c ∧ check c = true := by
  obtain ⟨c, hplay, hcheck⟩ := (Option.any_eq_true _ _).mp h
  exact ⟨c, reaches_play hok (reaches_spawns hstarts) hplay, hcheck⟩

end Runs

/-! ## One thread under interference -/

/-- INTERNAL: what holds of the shared state and a ghost value at any time, what thread `t`
relies on the steps of the others to do, what every step of a thread does, and what holds
until a thread starts. -/
structure Protocol (σ γ : Type) where
  inv : σ → γ → Prop
  rely : Nat → σ → γ → σ → γ → Prop
  effect : Nat → σ → σ → Prop
  idle : Nat → σ → γ → Prop
  rely_refl : ∀ t s g, rely t s g s g
  rely_trans : ∀ t s g s' g' s'' g'', rely t s g s' g' → rely t s' g' s'' g'' →
    rely t s g s'' g''
  idle_rely : ∀ t s g s' g', idle t s g → rely t s g s' g' → idle t s' g'

section Logic

variable (P : Protocol σ γ) (exec : Nat → (i : ι) → χ → σ → Option (o i × σ))
  (allowed : Nat → ι → χ → σ → Prop)

/-- INTERNAL: the step keeps the invariant and what every other thread relies on. -/
structure Protocol.Step (t : Nat) (s : σ) (g : γ) (s' : σ) (g' : γ) : Prop where
  inv : P.inv s' g'
  rely : ∀ u, u ≠ t → P.rely u s g s' g'
  effect : P.effect t s s'

/-- INTERNAL: the program of thread `t` follows the protocol from here on, whatever the
others do between its actions, and ends in `Q`. -/
def wp (t : Nat) : Prog ι o α → (α → σ → γ → Prop) → σ → γ → Prop
  | .ret a, Q, s, g => Q a s g
  | .act i k, Q, s, g => ∀ s₁ g₁, P.rely t s g s₁ g₁ → P.inv s₁ g₁ →
    ∀ x, allowed t i x s₁ → ∀ r s₂, exec t i x s₁ = some (r, s₂) →
      ∃ g₂, P.Step t s₁ g₁ s₂ g₂ ∧ wp t (k r) Q s₂ g₂

variable {P exec allowed} {t : Nat} {s : σ} {g : γ}

theorem wp_mono {p : Prog ι o α} {Q Q' : α → σ → γ → Prop}
    (h : wp P exec allowed t p Q s g) (hQ : ∀ a s g, Q a s g → Q' a s g) :
    wp P exec allowed t p Q' s g := by
  induction p generalizing s g with
  | ret a => exact hQ a s g h
  | act i k ih =>
    intro s₁ g₁ hrely hinv x hx r s₂ hexec
    obtain ⟨g₂, hstep, hk⟩ := h s₁ g₁ hrely hinv x hx r s₂ hexec
    exact ⟨g₂, hstep, ih r hk⟩

theorem wp_bind {p : Prog ι o α} {f : α → Prog ι o β} {Q : β → σ → γ → Prop}
    (h : wp P exec allowed t p (fun a => wp P exec allowed t (f a) Q) s g) :
    wp P exec allowed t (p >>= f) Q s g := by
  induction p generalizing s g with
  | ret a => exact h
  | act i k ih =>
    intro s₁ g₁ hrely hinv x hx r s₂ hexec
    obtain ⟨g₂, hstep, hk⟩ := h s₁ g₁ hrely hinv x hx r s₂ hexec
    exact ⟨g₂, hstep, ih r hk⟩

/-- INTERNAL: one action under an assertion that the others keep. -/
theorem wp_perform {i : ι} {A : σ → γ → Prop} {Q : o i → σ → γ → Prop} (hA : A s g)
    (stable : ∀ s g s' g', A s g → P.rely t s g s' g' → A s' g')
    (h : ∀ s g, A s g → P.inv s g → ∀ x, allowed t i x s → ∀ r s', exec t i x s = some (r, s') →
      ∃ g', P.Step t s g s' g' ∧ Q r s' g') :
    wp P exec allowed t (Prog.perform i) Q s g := by
  intro s₁ g₁ hrely hinv x hx r s₂ hexec
  exact h s₁ g₁ (stable s g s₁ g₁ hA hrely) hinv x hx r s₂ hexec

/-- INTERNAL: what a thread will do stays right while others move, since its next action
may come at any time. -/
theorem wp_stable {p : Prog ι o Unit} {s' : σ} {g' : γ}
    (h : wp P exec allowed t p (fun _ _ _ => True) s g) (hrely : P.rely t s g s' g') :
    wp P exec allowed t p (fun _ _ _ => True) s' g' := by
  cases p with
  | ret a => trivial
  | act i k =>
    intro s₁ g₁ hrely' hinv
    exact h s₁ g₁ (P.rely_trans t s g s' g' s₁ g₁ hrely hrely') hinv

end Logic

/-! ## Whole runs -/

section Soundness

variable {P : Protocol σ γ} {exec : Nat → (i : ι) → χ → σ → Option (o i × σ)}
  {allowed : Nat → ι → χ → σ → Prop} {starts : Prog ι o Unit → Prop} {s₀ : σ} {g₀ : γ}

/-- INTERNAL: the invariant holds and every thread will go on by the protocol. -/
def Protocol.Holds (P : Protocol σ γ) (exec : Nat → (i : ι) → χ → σ → Option (o i × σ))
    (allowed : Nat → ι → χ → σ → Prop) (c : Pool σ ι o) (g : γ) : Prop :=
  P.inv c.state g ∧ (∀ t, c.threads.length ≤ t → P.idle t c.state g) ∧
    ∀ t p, c.threads[t]? = some p → wp P exec allowed t p (fun _ _ _ => True) c.state g

theorem Protocol.holds_fire {c c' : Pool σ ι o} {g : γ} {t : Nat}
    (h : P.Holds exec allowed c g) (hfire : Fires exec allowed t c c') :
    ∃ g', P.Holds exec allowed c' g' ∧ P.Step t c.state g c'.state g' := by
  obtain ⟨hinv, hidle, hthreads⟩ := h
  cases hfire with | @intro i k x r s' hnext hx hexec =>
  have hlt : t < c.threads.length := (List.getElem?_eq_some_iff.mp hnext).1
  obtain ⟨g', hstep, hk⟩ :=
    hthreads t _ hnext c.state g (P.rely_refl t c.state g) hinv x hx r s' hexec
  refine ⟨g', ⟨hstep.inv, fun u hu => ?_, fun u p hu => ?_⟩, hstep⟩
  · rw [List.length_set] at hu
    exact P.idle_rely u _ _ _ _ (hidle u hu) (hstep.rely u (by omega))
  by_cases hut : u = t
  · subst hut
    rw [List.getElem?_set_self hlt] at hu
    cases hu
    exact hk
  · rw [List.getElem?_set_ne (Ne.symm hut)] at hu
    exact wp_stable (hthreads u p hu) (hstep.rely u hut)

theorem Protocol.sound (h₀ : P.inv s₀ g₀) (hidle : ∀ t, P.idle t s₀ g₀)
    (hstarts : ∀ p, starts p → ∀ t s g, P.idle t s g →
      wp P exec allowed t p (fun _ _ _ => True) s g)
    {c : Pool σ ι o} (hc : Reaches exec allowed starts s₀ c) :
    ∃ g, P.Holds exec allowed c g := by
  induction hc with
  | start => exact ⟨g₀, h₀, fun t _ => hidle t, fun t p h => by cases h⟩
  | @spawn c _ p hp ih =>
    obtain ⟨g, hinv, hidle, hthreads⟩ := ih
    refine ⟨g, hinv, fun t ht => ?_, fun t q hq => ?_⟩
    · rw [List.length_append] at ht
      exact hidle t (by omega)
    rw [List.getElem?_append] at hq
    split at hq
    · exact hthreads t q hq
    · rename_i hge
      have hqp := List.mem_singleton.mp (List.mem_of_getElem? hq)
      rw [hqp]
      exact hstarts p hp t c.state g (hidle t (Nat.not_lt.mp hge))
  | fire _ t hfire ih =>
    obtain ⟨g, hg⟩ := ih
    obtain ⟨g', hg', -⟩ := Protocol.holds_fire hg hfire
    exact ⟨g', hg'⟩

end Soundness

/-! ## Programs that may fail -/

section Failing

variable {P : Protocol σ γ} {exec : Nat → (i : ι) → χ → σ → Option (o i × σ)}
  {allowed : Nat → ι → χ → σ → Prop} {t : Nat} {s : σ} {g : γ}

/-- INTERNAL: the condition on a result: `Q` of the value, or `E` where there is none. -/
def Outcome (Q : α → σ → γ → Prop) (E : σ → γ → Prop) : Except ε α → σ → γ → Prop
  | .ok a => Q a
  | .error _ => E

/-- INTERNAL: `wp` of a program that returns with `Q` or fails with `E`. -/
def wpx (P : Protocol σ γ) (exec : Nat → (i : ι) → χ → σ → Option (o i × σ))
    (allowed : Nat → ι → χ → σ → Prop) (t : Nat) (x : ExceptT ε (Prog ι o) α)
    (Q : α → σ → γ → Prop) (E : σ → γ → Prop) (s : σ) (g : γ) : Prop :=
  wp P exec allowed t x.run (Outcome Q E) s g

variable {E : σ → γ → Prop} {x : ExceptT ε (Prog ι o) α}

theorem wpx_throw {e : ε} {Q : α → σ → γ → Prop} (h : E s g) :
    wpx P exec allowed t (throw e : ExceptT ε (Prog ι o) α) Q E s g := h

theorem wpx_bind {f : α → ExceptT ε (Prog ι o) β} {Q : β → σ → γ → Prop}
    (h : wpx P exec allowed t x (fun a => wpx P exec allowed t (f a) Q E) E s g) :
    wpx P exec allowed t (x >>= f) Q E s g := by
  refine wp_bind (wp_mono h fun r s g hr => ?_)
  cases r with
  | ok a => exact hr
  | error e => exact hr

theorem wpx_mono {Q Q' : α → σ → γ → Prop} {E' : σ → γ → Prop}
    (h : wpx P exec allowed t x Q E s g) (hQ : ∀ a s g, Q a s g → Q' a s g)
    (hE : ∀ s g, E s g → E' s g) : wpx P exec allowed t x Q' E' s g := by
  refine wp_mono h fun r s g hr => ?_
  cases r with
  | ok a => exact hQ a s g hr
  | error e => exact hE s g hr

/-- INTERNAL: a program that ends in the same condition whether it fails or not. -/
theorem wp_run {Q : Except ε α → σ → γ → Prop} {R : σ → γ → Prop}
    (h : wpx P exec allowed t x (fun _ => R) R s g) (hQ : ∀ r s g, R s g → Q r s g) :
    wp P exec allowed t x.run Q s g := by
  refine wp_mono h fun r s g hr => hQ r s g ?_
  cases r with
  | ok a => exact hr
  | error e => exact hr

/-- INTERNAL: a loop, by an invariant of the elements that are left. -/
theorem wpx_forM {l : List α} {f : α → ExceptT ε (Prog ι o) Unit} {Q : Unit → σ → γ → Prop}
    (I : List α → σ → γ → Prop) (hI : I l s g)
    (hstep : ∀ a rest s g, I (a :: rest) s g →
      wpx P exec allowed t (f a) (fun _ => I rest) E s g) (hend : ∀ s g, I [] s g → Q () s g) :
    wpx P exec allowed t (l.forM f) Q E s g := by
  induction l generalizing s g with
  | nil => exact hend s g hI
  | cons a l ih =>
    apply wpx_bind
    apply wpx_mono (hstep a l s g hI)
    · intro _ s g hrest
      exact ih hrest
    · exact fun _ _ hE => hE

end Failing

end Mirage.Computation

/-!
## Weights of the threads of a table

A counter shared by threads counts, with a weight for each place a thread can be at, where the
threads are.  The total changes by what the place of one thread changes.
-/

namespace Mirage.Computation

variable {α : Type}

/-- INTERNAL: the total weight of the first `n` threads. -/
def totalWeight (n : Nat) (w : α → Nat) (threads : Nat → α) : Nat :=
  ∑ i ∈ Finset.range n, w (threads i)

variable {n i : Nat} {w : α → Nat} {threads : Nat → α}

theorem totalWeight_update (hi : i < n) (w : α → Nat) (threads : Nat → α) (a : α) :
    totalWeight n w (Function.update threads i a) + w (threads i) =
      totalWeight n w threads + w a := by
  have hmem : i ∈ Finset.range n := Finset.mem_range.mpr hi
  unfold totalWeight
  rw [← Finset.add_sum_erase _ _ hmem, ← Finset.add_sum_erase _ (fun j => w (threads j)) hmem,
    Function.update_self]
  have hrest : ∑ j ∈ (Finset.range n).erase i, w (Function.update threads i a j) =
      ∑ j ∈ (Finset.range n).erase i, w (threads j) := by
    refine Finset.sum_congr rfl fun j hj => ?_
    rw [Function.update_of_ne (Finset.ne_of_mem_erase hj)]
  rw [hrest]
  omega

theorem totalWeight_le (h : ∀ a, w a ≤ 1) : totalWeight n w threads ≤ n := by
  refine le_trans (Finset.sum_le_sum fun j _ => h (threads j)) ?_
  simp

theorem totalWeight_eq_zero (h : ∀ i, i < n → w (threads i) = 0) : totalWeight n w threads = 0 :=
  Finset.sum_eq_zero fun i hi => h i (Finset.mem_range.mp hi)

theorem exists_weight (h : totalWeight n w threads ≠ 0) : ∃ i, i < n ∧ w (threads i) ≠ 0 := by
  obtain ⟨i, hi, hne⟩ := Finset.exists_ne_zero_of_sum_ne_zero h
  exact ⟨i, Finset.mem_range.mp hi, hne⟩

theorem weight_le_total (hi : i < n) : w (threads i) ≤ totalWeight n w threads :=
  Finset.single_le_sum (f := fun j => w (threads j)) (fun _ _ => Nat.zero_le _)
    (Finset.mem_range.mpr hi)

end Mirage.Computation
