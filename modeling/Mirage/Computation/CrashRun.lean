import Mirage.Computation.Process

/-!
# Operations that are cut

A run is a sequence of operations on one state, one after another.  Each is a program of
atomic actions and may be cut between any two of them; the next operation then starts from
the state that is left.  `CutRun` keeps the operation that is going on, so that a run has a
state after every action, and `starts` says which operations may start in which states.

A `Discipline` is an invariant of the states and a condition on the single actions.
`Safe` is what a program has to meet from a given state on; its rules follow the structure
of the program.
-/

set_option autoImplicit false

namespace Mirage.Computation

variable {ι χ σ α β ε : Type} {o : ι → Type}

/-! ## Calls that may fail -/

/-- INTERNAL: a call that fails without its effect, or behind it. -/
inductive CallFault (ε : Type) where
  | before (error : ε)
  | behind (error : ε)
  deriving DecidableEq, Repr

/-- INTERNAL: what a caller sees of a call, and the state that is left. -/
def CallFault.apply (fault : Option (CallFault ε)) (s : σ) (result : Except ε α × σ) :
    Except ε α × σ :=
  match fault with
  | none => result
  | some (.before e) => (.error e, s)
  | some (.behind e) => (.error e, result.2)

theorem apply_ok {fault : Option (CallFault ε)} {s s' : σ} {result : Except ε α × σ} {a : α}
    (h : CallFault.apply fault s result = (.ok a, s')) : result = (.ok a, s') := by
  cases fault with
  | none => exact h
  | some f => cases f <;> cases h

theorem apply_state (fault : Option (CallFault ε)) (s : σ) (result : Except ε α × σ) :
    (CallFault.apply fault s result).2 = s ∨
      (CallFault.apply fault s result).2 = result.2 := by
  cases fault with
  | none => exact .inr rfl
  | some f =>
    cases f with
    | before e => exact .inl rfl
    | behind e => exact .inr rfl

/-! ## Runs -/

/-- INTERNAL: a run of operations, with what is left of the one that is going on. -/
inductive CutRun (exec : (i : ι) → χ → σ → Option (o i × σ)) (starts : Prog ι o Unit → σ → Prop)
    (s₀ : σ) : σ → Option (Prog ι o Unit) → Prop where
  | start : CutRun exec starts s₀ s₀ none
  | call {s : σ} {left : Option (Prog ι o Unit)} (run : CutRun exec starts s₀ s left)
      {p : Prog ι o Unit} (h : starts p s) : CutRun exec starts s₀ s (some p)
  | act {s s' : σ} {i : ι} {k : o i → Prog ι o Unit}
      (run : CutRun exec starts s₀ s (some (.act i k))) (x : χ) {r : o i}
      (h : exec i x s = some (r, s')) : CutRun exec starts s₀ s' (some (k r))

/-- INTERNAL: what holds between actions, and what every action does. -/
structure Discipline (ι σ : Type) where
  inv : σ → Prop
  step : ι → σ → σ → Prop

/-- INTERNAL: the program keeps the discipline from this state on and ends in `Q`. -/
def Safe (D : Discipline ι σ) (exec : (i : ι) → χ → σ → Option (o i × σ)) :
    Prog ι o α → (α → σ → Prop) → σ → Prop
  | .ret a, Q, s => Q a s
  | .act i k, Q, s => ∀ x r s', exec i x s = some (r, s') →
    D.step i s s' ∧ D.inv s' ∧ Safe D exec (k r) Q s'

section Rules

variable {D : Discipline ι σ} {exec : (i : ι) → χ → σ → Option (o i × σ)} {s : σ}

variable {p : Prog ι o α}

theorem safe_mono {Q Q' : α → σ → Prop} (h : Safe D exec p Q s) (hQ : ∀ a s, Q a s → Q' a s) :
    Safe D exec p Q' s := by
  induction p generalizing s with
  | ret a => exact hQ a s h
  | act i k ih =>
    intro x r s' hexec
    obtain ⟨hstep, hinv, hrest⟩ := h x r s' hexec
    exact ⟨hstep, hinv, ih r hrest⟩

theorem safe_bind {f : α → Prog ι o β} {Q : β → σ → Prop}
    (h : Safe D exec p (fun a => Safe D exec (f a) Q) s) : Safe D exec (p >>= f) Q s := by
  induction p generalizing s with
  | ret a => exact h
  | act i k ih =>
    intro x r s' hexec
    obtain ⟨hstep, hinv, hrest⟩ := h x r s' hexec
    exact ⟨hstep, hinv, ih r hrest⟩

/-- INTERNAL: `Safe` for a program that returns with `Q` or fails with `E`. -/
def SafeX (D : Discipline ι σ) (exec : (i : ι) → χ → σ → Option (o i × σ))
    (x : ExceptT ε (Prog ι o) α) (Q : α → σ → Prop) (E : ε → σ → Prop) (s : σ) : Prop :=
  Safe D exec x.run (fun r s => match r with
    | .ok a => Q a s
    | .error e => E e s) s

variable {Q : α → σ → Prop} {E : ε → σ → Prop}

theorem safeX_bind {x : ExceptT ε (Prog ι o) β} {f : β → ExceptT ε (Prog ι o) α}
    (h : SafeX D exec x (fun b => SafeX D exec (f b) Q E) E s) :
    SafeX D exec (x >>= f) Q E s := by
  refine safe_bind (safe_mono h fun r s hr => ?_)
  cases r with
  | ok a => exact hr
  | error e => exact hr

theorem safeX_mono {x : ExceptT ε (Prog ι o) α} {Q' : α → σ → Prop} {E' : ε → σ → Prop}
    (h : SafeX D exec x Q E s) (hQ : ∀ a s, Q a s → Q' a s) (hE : ∀ e s, E e s → E' e s) :
    SafeX D exec x Q' E' s := by
  refine safe_mono h fun r s hr => ?_
  cases r with
  | ok a => exact hQ a s hr
  | error e => exact hE e s hr

theorem safeX_lift (h : Safe D exec p Q s) :
    SafeX D exec (ExceptT.lift p : ExceptT ε (Prog ι o) α) Q E s :=
  safe_bind (safe_mono h fun _ _ hQ => hQ)

/-- INTERNAL: a program whose result nobody looks at. -/
theorem safe_ignore {x : ExceptT ε (Prog ι o) α}
    (h : SafeX D exec x (fun _ _ => True) (fun _ _ => True) s) :
    Safe D exec (do let _ ← x.run : Prog ι o Unit) (fun _ _ => True) s :=
  safe_bind (safe_mono h fun _ _ _ => trivial)

end Rules

/-! ## Soundness -/

section Soundness

variable {D : Discipline ι σ} {exec : (i : ι) → χ → σ → Option (o i × σ)}
  {starts : Prog ι o Unit → σ → Prop} {s₀ s : σ}

theorem Discipline.sound (h₀ : D.inv s₀)
    (hcalls : ∀ p s, D.inv s → starts p s → Safe D exec p (fun _ _ => True) s)
    {left : Option (Prog ι o Unit)} (run : CutRun exec starts s₀ s left) :
    D.inv s ∧ ∀ p, left = some p → Safe D exec p (fun _ _ => True) s := by
  induction run with
  | start =>
    refine ⟨h₀, ?_⟩
    intro p hp
    cases hp
  | call _ hstart ih =>
    refine ⟨ih.1, ?_⟩
    intro p hp
    cases hp
    exact hcalls _ _ ih.1 hstart
  | act _ x hexec ih =>
    obtain ⟨-, hinv, hrest⟩ := ih.2 _ rfl x _ _ hexec
    refine ⟨hinv, ?_⟩
    intro p hp
    cases hp
    exact hrest

/-- INTERNAL: every action of a run does what the discipline says. -/
theorem Discipline.sound_step (h₀ : D.inv s₀)
    (hcalls : ∀ p s, D.inv s → starts p s → Safe D exec p (fun _ _ => True) s)
    {i : ι} {k : o i → Prog ι o Unit} (run : CutRun exec starts s₀ s (some (.act i k))) {x : χ}
    {r : o i} {s' : σ} (h : exec i x s = some (r, s')) : D.step i s s' :=
  ((Discipline.sound h₀ hcalls run).2 _ rfl x r s' h).1

/-- INTERNAL: the run of one operation with given choices, as far as they go. -/
def playOp (exec : (i : ι) → χ → σ → Option (o i × σ)) :
    List χ → Prog ι o Unit → σ → Option (Prog ι o Unit × σ)
  | [], p, s => some (p, s)
  | _ :: _, .ret _, _ => none
  | x :: xs, .act i k, s => (exec i x s).bind fun r => playOp exec xs (k r.1) r.2

theorem cutRun_playOp {xs : List χ} {p p' : Prog ι o Unit} {s' : σ}
    (run : CutRun exec starts s₀ s (some p)) (h : playOp exec xs p s = some (p', s')) :
    CutRun exec starts s₀ s' (some p') := by
  induction xs generalizing p s with
  | nil =>
    cases h
    exact run
  | cons x xs ih =>
    cases p with
    | ret a => cases h
    | act i k =>
      obtain ⟨r, hexec, hrest⟩ := Option.bind_eq_some_iff.mp h
      exact ih (.act run x hexec) hrest

/-- INTERNAL: the whole run of a program against a system that leaves nothing to choose. -/
def answered (perform : σ → (i : ι) → o i × σ) : Prog ι o α → σ → α × σ
  | .ret a, s => (a, s)
  | .act i k, s => answered perform (k (perform s i).1) (perform s i).2

theorem answered_bind_ok {perform : σ → (i : ι) → o i × σ} {x : ExceptT ε (Prog ι o) β}
    {f : β → ExceptT ε (Prog ι o) α} {b : β} {s' : σ}
    (h : answered perform x.run s = (.ok b, s')) :
    answered perform (x >>= f).run s = answered perform (f b).run s' := by
  have hbind : ∀ (p : Prog ι o (Except ε β)) s, answered perform p s = (.ok b, s') →
      answered perform (p.bind (ExceptT.bindCont f)) s = answered perform (f b).run s' := by
    intro p
    induction p with
    | ret r =>
      rintro s hr
      obtain ⟨rfl, rfl⟩ := Prod.mk.inj hr
      rfl
    | act i k ih => exact fun s hr => ih _ _ hr
  exact hbind x s h

/-- INTERNAL: such a run is one of those that a safe program is about. -/
theorem safe_answered {perform : σ → (i : ι) → o i × σ} {p : Prog ι o α} {Q : α → σ → Prop}
    (x : χ) (hexec : ∀ i s, exec i x s = some (perform s i)) (h : Safe D exec p Q s) :
    Q (answered perform p s).1 (answered perform p s).2 := by
  induction p generalizing s with
  | ret a => exact h
  | act i k ih => exact ih _ (h x _ _ (hexec i s)).2.2

/-- INTERNAL: the run of operations with given choices, each cut where they end. -/
def playOps (exec : (i : ι) → χ → σ → Option (o i × σ)) :
    List (Prog ι o Unit × List χ) → σ → Option σ
  | [], s => some s
  | (p, xs) :: rest, s => (playOp exec xs p s).bind fun r => playOps exec rest r.2

/-- INTERNAL: a run of operations that may start anywhere, and a check of its last state. -/
theorem exists_cutRun_of_play {ops : List (Prog ι o Unit × List χ)} {check : σ → Bool}
    (hstarts : ∀ op ∈ ops, ∀ s, starts op.1 s) {left : Option (Prog ι o Unit)}
    (run : CutRun exec starts s₀ s left) (h : (playOps exec ops s).any check = true) :
    ∃ s' left', CutRun exec starts s₀ s' left' ∧ check s' = true := by
  induction ops generalizing s left with
  | nil => exact ⟨s, left, run, h⟩
  | cons op ops ih =>
    obtain ⟨p, xs⟩ := op
    obtain ⟨last, hlast, hcheck⟩ := (Option.any_eq_true _ _).mp h
    obtain ⟨⟨p', s₁⟩, hplay, hrest⟩ := Option.bind_eq_some_iff.mp hlast
    have hrun := cutRun_playOp (.call run (hstarts _ List.mem_cons_self s)) hplay
    refine ih (fun op hop => hstarts op (List.mem_cons_of_mem _ hop)) hrun ?_
    rw [hrest]
    exact hcheck

end Soundness

end Mirage.Computation
