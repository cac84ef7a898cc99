import Mathlib.Tactic.Common

/-!
# Transactions

A transaction reads and rewrites a state and may fail; a failed transaction has no
effect: `Txn.commit` is the state a caller sees after the transaction was run.

The `_ok` lemmas say when a transaction succeeds and with which result.  `Txn.Keeps R t`
says that every successful run of `t` relates the states before and after by `R`, and its
rules follow the structure of `t`.
-/

set_option autoImplicit false

namespace Mirage.Computation

/-- INTERNAL: a computation that rewrites a state of type `σ` or fails with an error. -/
abbrev Txn (σ ε : Type) := StateT σ (Except ε)

namespace Txn

variable {σ ε α β : Type}

/-- INTERNAL: go on only if the condition holds. -/
def demand (c : Bool) (e : ε) : Txn σ ε Unit := if c then pure () else throw e

/-- INTERNAL: the value of an option, or an error where there is none. -/
def orFail (o : Option α) (e : ε) : Txn σ ε α :=
  match o with
  | some a => pure a
  | none => throw e

/-- INTERNAL: an `if` without an `else`. -/
def onlyIf (c : Bool) (t : Txn σ ε Unit) : Txn σ ε Unit := if c then t else pure ()

/-- INTERNAL: an `if let Some(a)` without an `else`. -/
def forSome (o : Option α) (f : α → Txn σ ε Unit) : Txn σ ε Unit :=
  match o with
  | some a => f a
  | none => pure ()

/-- INTERNAL: run a computation that does not look at the state. -/
def lift (x : Except ε α) : Txn σ ε α := fun s => x.map (fun a => (a, s))

/-- INTERNAL: the state after the transaction: its result, or what was there before. -/
def commit (t : Txn σ ε α) (s : σ) : σ :=
  match t s with
  | .ok (_, s') => s'
  | .error _ => s

/-! ## When a transaction succeeds -/

variable {f : σ → Txn σ ε α} {s : σ} {r : α × σ} {e : ε} {c : Bool}

theorem bind_ok {x : Txn σ ε α} {f : α → Txn σ ε β} {r : β × σ} :
    (x >>= f) s = .ok r ↔ ∃ a s', x s = .ok (a, s') ∧ f a s' = .ok r := by
  change (x s >>= fun p => f p.1 p.2) = .ok r ↔ _
  cases hx : x s with
  | error e =>
    constructor
    · intro h
      cases h
    · rintro ⟨a, s', h, -⟩
      cases h
  | ok p =>
    constructor
    · intro h
      exact ⟨p.1, p.2, rfl, h⟩
    · rintro ⟨a, s', h, hf⟩
      cases h
      exact hf

theorem pure_ok {a : α} : (pure a : Txn σ ε α) s = .ok r ↔ r = (a, s) := by
  change Except.ok (a, s) = .ok r ↔ _
  rw [Except.ok.injEq]
  exact eq_comm

theorem throw_ok : (throw e : Txn σ ε α) s = .ok r ↔ False := by
  change Except.error e = .ok r ↔ _
  simp

theorem get_ok {r : σ × σ} : (get : Txn σ ε σ) s = .ok r ↔ r = (s, s) := pure_ok (a := s)

theorem modify_ok {f : σ → σ} {r : Unit × σ} :
    (modify f : Txn σ ε Unit) s = .ok r ↔ r = ((), f s) := by
  change Except.ok ((), f s) = .ok r ↔ _
  rw [Except.ok.injEq]
  exact eq_comm

theorem demand_ok {r : Unit × σ} : demand c e s = .ok r ↔ c = true ∧ r = ((), s) := by
  unfold demand
  cases c with
  | true => simpa using pure_ok
  | false => simpa using throw_ok

theorem orFail_ok {o : Option α} : orFail o e s = .ok r ↔ ∃ a, o = some a ∧ r = (a, s) := by
  unfold orFail
  cases o with
  | none => simpa using throw_ok
  | some a => simpa using pure_ok

theorem onlyIf_ok {t : Txn σ ε Unit} {r : Unit × σ} :
    onlyIf c t s = .ok r ↔ (c = true ∧ t s = .ok r) ∨ (c = false ∧ r = ((), s)) := by
  unfold onlyIf
  cases c with
  | true => simp
  | false => simpa using pure_ok

theorem forSome_ok {o : Option α} {f : α → Txn σ ε Unit} {r : Unit × σ} :
    forSome o f s = .ok r ↔
      (∃ a, o = some a ∧ f a s = .ok r) ∨ (o = none ∧ r = ((), s)) := by
  unfold forSome
  cases o with
  | none => simpa using pure_ok
  | some a => simp

theorem lift_ok {x : Except ε α} : lift x s = .ok r ↔ ∃ a, x = .ok a ∧ r = (a, s) := by
  unfold lift
  cases x with
  | error e => simp [Except.map]
  | ok a => simp [Except.map, eq_comm]

theorem demand_bind_ok {f : Unit → Txn σ ε α} :
    (demand c e >>= f) s = .ok r ↔ c = true ∧ f () s = .ok r := by
  rw [bind_ok]
  constructor
  · rintro ⟨_, _, hc, hf⟩
    obtain ⟨hcond, hr⟩ := demand_ok.mp hc
    cases hr
    exact ⟨hcond, hf⟩
  · rintro ⟨hc, hf⟩
    exact ⟨(), s, demand_ok.mpr ⟨hc, rfl⟩, hf⟩

theorem lift_bind_ok {x : Except ε β} {f : β → Txn σ ε α} :
    (lift x >>= f) s = .ok r ↔ ∃ a, x = .ok a ∧ f a s = .ok r := by
  rw [bind_ok]
  constructor
  · rintro ⟨_, _, hx, hf⟩
    obtain ⟨_, hvalue, hr⟩ := lift_ok.mp hx
    cases hr
    exact ⟨_, hvalue, hf⟩
  · rintro ⟨a, hx, hf⟩
    exact ⟨a, s, lift_ok.mpr ⟨a, hx, rfl⟩, hf⟩

theorem orFail_bind_ok {x : Option β} {f : β → Txn σ ε α} :
    (orFail x e >>= f) s = .ok r ↔ ∃ a, x = some a ∧ f a s = .ok r := by
  rw [bind_ok]
  constructor
  · rintro ⟨_, _, hx, hf⟩
    obtain ⟨_, hvalue, hr⟩ := orFail_ok.mp hx
    cases hr
    exact ⟨_, hvalue, hf⟩
  · rintro ⟨a, hx, hf⟩
    exact ⟨a, s, orFail_ok.mpr ⟨a, hx, rfl⟩, hf⟩

theorem get_bind : ((get : Txn σ ε σ) >>= f) s = f s s := rfl

theorem get_bind_ok :
    ((get : Txn σ ε σ) >>= f) s = .ok r ↔ f s s = .ok r := Iff.rfl

theorem modify_bind_ok {g : σ → σ} {f : Unit → Txn σ ε α} :
    ((modify g : Txn σ ε Unit) >>= f) s = .ok r ↔ f () (g s) = .ok r := Iff.rfl

/-! ## Transactions that succeed -/

/-- INTERNAL: the transaction commits from the state. -/
def Accepts (t : Txn σ ε α) (s : σ) : Prop := ∃ r, t s = .ok r

theorem accepts_after {x : Txn σ ε α} {f : α → Txn σ ε β} {m : σ} {a : α} (hx : x s = .ok (a, m))
    (hf : Accepts (f a) m) : Accepts (x >>= f) s := by
  obtain ⟨r, hr⟩ := hf
  exact ⟨r, bind_ok.mpr ⟨a, m, hx, hr⟩⟩

theorem accepts_demand_bind {f : Unit → Txn σ ε α} (hc : c = true) (hf : Accepts (f ()) s) :
    Accepts (demand c e >>= f) s := by
  obtain ⟨r, hr⟩ := hf
  exact ⟨r, demand_bind_ok.mpr ⟨hc, hr⟩⟩

theorem accepts_get_bind (hf : Accepts (f s) s) :
    Accepts ((get : Txn σ ε σ) >>= f) s := hf

theorem accepts_modify (f : σ → σ) (s : σ) : Accepts (modify f : Txn σ ε Unit) s :=
  ⟨((), f s), rfl⟩

/-! ## Relations kept by a transaction -/

/-- INTERNAL: every successful run of `t` is a step of `R`. -/
def Keeps (R : σ → σ → Prop) (t : Txn σ ε α) : Prop :=
  ∀ s a s', t s = .ok (a, s') → R s s'

/-- INTERNAL: the part `π` of the state is the same before and after. -/
def SameOn {γ : Type} (π : σ → γ) (s s' : σ) : Prop := π s' = π s

instance {γ : Type} (π : σ → γ) : Std.Refl (SameOn π) := ⟨fun _ => rfl⟩

instance {γ : Type} (π : σ → γ) : IsTrans σ (SameOn π) := ⟨fun _ _ _ h h' => h'.trans h⟩

/-- INTERNAL: an assertion that held before holds after. -/
def Preserves (P : σ → Prop) (s s' : σ) : Prop := P s → P s'

instance (P : σ → Prop) : Std.Refl (Preserves P) := ⟨fun _ h => h⟩

instance (P : σ → Prop) : IsTrans σ (Preserves P) := ⟨fun _ _ _ h h' hs => h' (h hs)⟩

section Rules

variable {R : σ → σ → Prop}

theorem keeps_throw (e : ε) : Keeps R (throw e : Txn σ ε α) := by
  intro s a s' h
  exact (throw_ok.mp h).elim

theorem keeps_modify {f : σ → σ} (h : ∀ s, R s (f s)) :
    Keeps R (modify f : Txn σ ε Unit) := by
  intro s a s' hrun
  have hs : s' = f s := congrArg Prod.snd (modify_ok.mp hrun)
  rw [hs]
  exact h s

theorem keeps_bind [IsTrans σ R] {x : Txn σ ε α} {f : α → Txn σ ε β} (hx : Keeps R x)
    (hf : ∀ a, Keeps R (f a)) : Keeps R (x >>= f) := by
  intro s b s' hrun
  obtain ⟨a, m, h1, h2⟩ := bind_ok.mp hrun
  exact IsTrans.trans s m s' (hx s a m h1) (hf a m b s' h2)

theorem keeps_tryCatch {t : Txn σ ε α} {f : ε → Txn σ ε α} (ht : Keeps R t)
    (hf : ∀ e, Keeps R (f e)) : Keeps R (tryCatch t f) := by
  intro s a s' hrun
  change (tryCatch (t s) fun e => f e s) = .ok (a, s') at hrun
  cases h : t s with
  | ok r =>
    rw [h] at hrun
    have hr : r = (a, s') := Except.ok.inj hrun
    rw [hr] at h
    exact ht s a s' h
  | error e =>
    rw [h] at hrun
    exact hf e s a s' hrun

variable [Std.Refl R]

/-- INTERNAL: a transaction that writes nothing keeps every reflexive relation. -/
theorem keeps_of_reads {t : Txn σ ε α}
    (h : ∀ s a s', t s = .ok (a, s') → s' = s) : Keeps R t := by
  intro s a s' hrun
  rw [h s a s' hrun]
  exact Std.Refl.refl s

theorem keeps_pure (a : α) : Keeps R (pure a : Txn σ ε α) := by
  apply keeps_of_reads
  intro s b s' h
  exact congrArg Prod.snd (pure_ok.mp h)

theorem keeps_get : Keeps R (get : Txn σ ε σ) := by
  apply keeps_of_reads
  intro s b s' h
  exact congrArg Prod.snd (get_ok.mp h)

theorem keeps_demand (c : Bool) (e : ε) : Keeps R (demand c e : Txn σ ε Unit) := by
  apply keeps_of_reads
  intro s b s' h
  exact congrArg Prod.snd (demand_ok.mp h).2

theorem keeps_orFail (o : Option α) (e : ε) : Keeps R (orFail o e : Txn σ ε α) := by
  apply keeps_of_reads
  intro s b s' h
  obtain ⟨a, -, hr⟩ := orFail_ok.mp h
  exact congrArg Prod.snd hr

theorem keeps_lift (x : Except ε α) : Keeps R (lift x : Txn σ ε α) := by
  apply keeps_of_reads
  intro s b s' h
  obtain ⟨a, -, hr⟩ := lift_ok.mp h
  exact congrArg Prod.snd hr

theorem keeps_onlyIf {c : Bool} {t : Txn σ ε Unit} (h : Keeps R t) :
    Keeps R (onlyIf c t) := by
  intro s a s' hrun
  rcases onlyIf_ok.mp hrun with ⟨-, ht⟩ | ⟨-, hr⟩
  · exact h s a s' ht
  · cases hr
    exact Std.Refl.refl s

theorem keeps_forSome {o : Option α} {f : α → Txn σ ε Unit} (h : ∀ a, Keeps R (f a)) :
    Keeps R (forSome o f) := by
  intro s u s' hrun
  rcases forSome_ok.mp hrun with ⟨a, -, hf⟩ | ⟨-, hr⟩
  · exact h a s u s' hf
  · cases hr
    exact Std.Refl.refl s

theorem keeps_forM [IsTrans σ R] {l : List α} {f : α → Txn σ ε Unit}
    (h : ∀ a, Keeps R (f a)) : Keeps R (l.forM f) := by
  induction l with
  | nil => exact keeps_pure ()
  | cons a l ih => exact keeps_bind (h a) fun _ => ih

theorem keeps_mapM [IsTrans σ R] {l : List α} {f : α → Txn σ ε β}
    (h : ∀ a, Keeps R (f a)) : Keeps R (l.mapM f) := by
  induction l with
  | nil => exact keeps_pure _
  | cons a l ih =>
    rw [List.mapM_cons]
    exact keeps_bind (h a) fun _ => keeps_bind ih fun _ => keeps_pure _

end Rules

end Txn

end Mirage.Computation
