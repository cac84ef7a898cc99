import Mirage.Interface.GateRun

/-!
# The lease gate excludes readers and eviction

The word is either the resident state with the live guards in its lower half, or the evicting
state with no guard and one thread that began the eviction.  What a thread loaded earlier plays
no part in this: an exchange succeeds only where the word is that value now.
-/

set_option autoImplicit false

namespace Mirage.Analysis

open Mirage.Model.LeaseGate Mirage.Interface

/-! ## The two halves of the word -/

/-- INTERNAL: the word of a resident page with `n` leases. -/
def leasedWord (n : Nat) : BitVec 64 := resident + BitVec.ofNat 64 n

variable {n t : Nat} {current gate gate' : BitVec 64} {spurious : Bool} {world : LeaseGateWorld}

theorem toNat_leasedWord (hn : n < 2 ^ 32) : (leasedWord n).toNat = 2 ^ 33 + n := by
  have hword : (resident + BitVec.ofNat 64 n).toNat = (2 ^ 33 + n % 2 ^ 64) % 2 ^ 64 := by
    rw [BitVec.toNat_add, BitVec.toNat_ofNat]
    rfl
  unfold leasedWord
  omega

theorem toNat_state (word : BitVec 64) : (word >>> 32).toNat = word.toNat / 2 ^ 32 := by
  rw [BitVec.toNat_ushiftRight, Nat.shiftRight_eq_div_pow]

theorem toNat_leases (word : BitVec 64) : (word &&& leaseMask).toNat = word.toNat % 2 ^ 32 := by
  rw [BitVec.toNat_and]
  exact Nat.and_two_pow_sub_one_eq_mod word.toNat 32

theorem state_leasedWord (hn : n < 2 ^ 32) : leasedWord n >>> 32 = 2#64 := by
  apply BitVec.eq_of_toNat_eq
  rw [toNat_state, toNat_leasedWord hn]
  change _ = 2
  omega

theorem leases_leasedWord (hn : n < 2 ^ 32) : (leasedWord n &&& leaseMask).toNat = n := by
  rw [toNat_leases, toNat_leasedWord hn]
  omega

theorem leasedWord_zero : leasedWord 0 = resident := by decide

theorem leasedWord_eq_resident (hn : n < 2 ^ 32) (h : leasedWord n = resident) : n = 0 := by
  rw [← leases_leasedWord hn, h]
  decide

theorem leasedWord_add_one (n : Nat) : leasedWord n + 1 = leasedWord (n + 1) := by
  unfold leasedWord
  rw [BitVec.ofNat_add, BitVec.add_assoc]
  rfl

theorem release_leasedWord (n : Nat) : release (leasedWord (n + 1)) = leasedWord n := by
  rw [← leasedWord_add_one]
  exact BitVec.add_sub_cancel _ _

/-- INTERNAL: a word that passes the checks of `acquire` has room for one more lease. -/
theorem acquireCheck_exchange {word : BitVec 64} (h : acquireCheck word = .exchange) :
    word >>> 32 = 2#64 ∧ word &&& leaseMask ≠ leaseMask := by
  unfold acquireCheck at h
  split at h
  · cases h
  · rename_i hstate
    split at h
    · cases h
    · rename_i hroom
      exact ⟨not_not.1 hstate, hroom⟩

theorem compareExchange_true {new : BitVec 64}
    (h : compareExchange gate current new = (true, gate')) : gate = current ∧ gate' = new := by
  unfold compareExchange at h
  split at h
  · cases h
    exact ⟨‹_›, rfl⟩
  · cases h

theorem compareExchange_false {new : BitVec 64}
    (h : compareExchange gate current new = (false, gate')) : gate' = gate := by
  unfold compareExchange at h
  split at h
  · cases h
  · cases h
    rfl

theorem acquireExchange_true (h : acquireExchange spurious gate current = (true, gate')) :
    gate = current ∧ gate' = current + 1 := by
  unfold acquireExchange at h
  split at h
  · cases h
  · exact compareExchange_true h

theorem acquireExchange_false (h : acquireExchange spurious gate current = (false, gate')) :
    gate' = gate := by
  unfold acquireExchange at h
  split at h
  · cases h
    rfl
  · exact compareExchange_false h

theorem beginGate_ok (h : beginEviction gate = (.ok (), gate')) :
    gate = resident ∧ gate' = evicting := by
  unfold beginEviction compareExchange at h
  split at h
  · cases h
    exact ⟨‹_›, rfl⟩
  · cases h

theorem beginGate_error {e : MirageError} (h : beginEviction gate = (.error e, gate')) :
    gate' = gate := by
  unfold beginEviction compareExchange at h
  split at h
  · cases h
  · cases h
    rfl

/-! ## The invariant -/

/-- INTERNAL: readers hold the page, or one thread evicts it. -/
inductive GateHolds (world : LeaseGateWorld) : Prop where
  | readers (word : world.gate = leasedWord world.guards) (fits : world.guards < 2 ^ 32)
      (nobody : ∀ t, world.begun t = false)
  | evictor (t : Nat) (word : world.gate = evicting) (none : world.guards = 0)
      (began : world.begun t = true) (alone : ∀ u, world.begun u = true → u = t)

/-- INTERNAL: what the phases know: a word to be exchanged passed the checks. -/
structure GateInvariant (world : LeaseGateWorld) : Prop where
  holds : GateHolds world
  checked : ∀ t current, world.phase t = .exchanging current → acquireCheck current = .exchange

theorem acquireCheck_evicting : acquireCheck evicting = .unavailable := by decide

/-- INTERNAL: the phases of a step that leaves every thread but one as it was. -/
theorem checked_update {phase : Nat → AcquirePhase} {next : AcquirePhase}
    (h : ∀ u current, phase u = .exchanging current → acquireCheck current = .exchange)
    (hnext : ∀ current, next = .exchanging current → acquireCheck current = .exchange) :
    ∀ u current, Function.update phase t next u = .exchanging current →
      acquireCheck current = .exchange := by
  intro u current hu
  by_cases htu : u = t
  · subst htu
    rw [Function.update_self] at hu
    exact hnext current hu
  · rw [Function.update_of_ne htu] at hu
    exact h u current hu

/-- INTERNAL: an exchange that succeeds finds the readers' word with room for a lease. -/
theorem acquired_readers (h : GateInvariant world) (hphase : world.phase t = .exchanging current)
    (hexchange : acquireExchange spurious world.gate current = (true, gate)) :
    gate = leasedWord (world.guards + 1) ∧ world.guards + 1 < 2 ^ 32 ∧
      ∀ u, world.begun u = false := by
  obtain ⟨hgate, rfl⟩ := acquireExchange_true hexchange
  have hcheck := h.checked t current hphase
  rw [← hgate] at hcheck ⊢
  rcases h.holds with ⟨hword, hfits, hnobody⟩ | ⟨_, hword, -, -, -⟩
  · have hroom := (acquireCheck_exchange hcheck).2
    have hne : world.guards ≠ 2 ^ 32 - 1 := by
      intro hfull
      apply hroom
      apply BitVec.eq_of_toNat_eq
      rw [hword, leases_leasedWord hfits, hfull]
      rfl
    refine ⟨?_, by omega, hnobody⟩
    rw [hword, leasedWord_add_one]
  · rw [hword, acquireCheck_evicting] at hcheck
    cases hcheck

theorem gateInvariant_start : GateInvariant .new :=
  ⟨.readers leasedWord_zero.symm (by decide) fun _ => rfl, nofun⟩

/-- INTERNAL: a step that touches neither the word, the guards nor the evictions. -/
theorem GateHolds.of_same {world' : LeaseGateWorld} (h : GateHolds world)
    (hgate : world'.gate = world.gate) (hguards : world'.guards = world.guards)
    (hbegun : world'.begun = world.begun) : GateHolds world' := by
  rcases h with ⟨hword, hfits, hnobody⟩ | ⟨t, hword, hnone, hbegan, halone⟩
  · exact .readers (by rw [hgate, hguards, hword]) (by rw [hguards]; exact hfits)
      (by rw [hbegun]; exact hnobody)
  · exact .evictor t (by rw [hgate, hword]) (by rw [hguards, hnone]) (by rw [hbegun, hbegan])
      (by rw [hbegun]; exact halone)

theorem gateInvariant_step {world' : LeaseGateWorld} {event : GateEvent} (h : GateInvariant world)
    (hstep : GateStep t world event world') : GateInvariant world' := by
  cases hstep with
  | enter idle => exact ⟨h.holds.of_same rfl rfl rfl, checked_update h.checked nofun⟩
  | unavailable loading check =>
    exact ⟨h.holds.of_same rfl rfl rfl, checked_update h.checked nofun⟩
  | saturated loading check =>
    exact ⟨h.holds.of_same rfl rfl rfl, checked_update h.checked nofun⟩
  | loaded loading check =>
    refine ⟨h.holds.of_same rfl rfl rfl, checked_update h.checked ?_⟩
    intro current hcurrent
    cases hcurrent
    exact check
  | retry exchanging exchange =>
    exact ⟨h.holds.of_same (acquireExchange_false exchange) rfl rfl,
      checked_update h.checked nofun⟩
  | acquired exchanging exchange =>
    obtain ⟨hword, hfits, hnobody⟩ := acquired_readers h exchanging exchange
    exact ⟨.readers hword hfits hnobody, checked_update h.checked nofun⟩
  | released idle live =>
    refine ⟨?_, h.checked⟩
    rcases h.holds with ⟨hword, hfits, hnobody⟩ | ⟨_, -, hnone, -, -⟩
    · refine .readers ?_ (by rw [live] at hfits; exact Nat.lt_of_succ_lt hfits) hnobody
      change release world.gate = _
      rw [hword, live, release_leasedWord]
    · -- nobody holds a guard of a page that is evicted
      rw [live] at hnone
      cases hnone
  | evictionBegun idle begins =>
    refine ⟨?_, h.checked⟩
    obtain ⟨hgate, rfl⟩ := beginGate_ok begins
    rcases h.holds with ⟨hword, hfits, hnobody⟩ | ⟨_, hword, -, -, -⟩
    · refine .evictor t rfl (leasedWord_eq_resident hfits (hword.symm.trans hgate))
        (Function.update_self _ _ _) ?_
      intro u hu
      by_contra hne
      change Function.update world.begun t true u = true at hu
      rw [Function.update_of_ne hne, hnobody u] at hu
      cases hu
    · rw [hgate] at hword
      exact absurd hword (by decide)
  | evictionRefused idle begins =>
    exact ⟨h.holds.of_same (beginGate_error begins) rfl rfl, h.checked⟩
  | evictionCancelled idle began =>
    refine ⟨?_, h.checked⟩
    rcases h.holds with ⟨-, -, hnobody⟩ | ⟨u, hword, hnone, -, halone⟩
    · rw [hnobody t] at began
      cases began
    · have hcancel : (cancelEviction world.gate).2 = resident := by
        rw [hword]
        decide
      refine .readers ?_ ?_ ?_
      · change (cancelEviction world.gate).2 = leasedWord world.guards
        rw [hcancel, hnone, leasedWord_zero]
      · change world.guards < 2 ^ 32
        rw [hnone]
        decide
      · intro v
        change Function.update world.begun t false v = false
        by_cases hvt : v = t
        · rw [hvt, Function.update_self]
        · rw [Function.update_of_ne hvt]
          by_contra hv
          have hvu := halone v (Bool.not_eq_false _ ▸ hv)
          exact hvt (hvu.trans (halone t began).symm)

theorem gateInvariant_of_reaches (h : GateReaches world) : GateInvariant world := by
  induction h with
  | start => exact gateInvariant_start
  | step run step ih => exact gateInvariant_step ih step

/-! ## What the gate promises -/

/-- INTERNAL: the lower half counts the live guards and the upper half is one of the two
states. -/
theorem leases_of_holds (h : GateHolds world) :
    (world.gate &&& leaseMask).toNat = world.guards ∧
      (world.gate >>> 32 = 2#64 ∨ world.gate >>> 32 = 3#64) := by
  rcases h with ⟨hword, hfits, -⟩ | ⟨_, hword, hnone, -, -⟩
  · rw [hword]
    exact ⟨leases_leasedWord hfits, .inl (state_leasedWord hfits)⟩
  · rw [hword, hnone]
    exact ⟨by decide, .inr (by decide)⟩

/-- INTERNAL: in every world of every interleaving the lower half of the gate is the number of
live guards and the upper half one of the two states; an eviction begins only where no guard is
live, while it lasts none is live or obtained, and the assertions of `release` and
`cancel_eviction` hold.
SRCLINE: mirage-cache/src/resident.rs:11-84 -/
theorem lease_gate_excludes {world : LeaseGateWorld} (h : GateReaches world) :
    (world.gate &&& leaseMask).toNat = world.guards ∧
      (world.gate >>> 32 = 2#64 ∨ world.gate >>> 32 = 3#64) ∧
      (world.Evicting → world.guards = 0) ∧
      ∀ t event world', GateStep t world event world' →
        (event = .evictionBegun → world.guards = 0) ∧
        (world.Evicting → event ≠ .acquired) ∧
        (event = .released → ReleaseAsserts world.gate) ∧
        (event = .evictionCancelled → (cancelEviction world.gate).1 = true) := by
  have hinv := gateInvariant_of_reaches h
  obtain ⟨hleases, hstates⟩ := leases_of_holds hinv.holds
  refine ⟨hleases, hstates, ?_, ?_⟩
  · rintro ⟨t, ht⟩
    rcases hinv.holds with ⟨-, -, hnobody⟩ | ⟨_, -, hnone, -, -⟩
    · rw [hnobody t] at ht
      cases ht
    · exact hnone
  · intro t event world' hstep
    refine ⟨?_, ?_, ?_, ?_⟩
    · rintro rfl
      cases hstep with
      | evictionBegun idle begins =>
        rw [← hleases, (beginGate_ok begins).1]
        decide
    · rintro ⟨u, hu⟩ rfl
      cases hstep with
      | acquired exchanging exchange =>
        have hnobody := (acquired_readers hinv exchanging exchange).2.2
        rw [hnobody u] at hu
        cases hu
    · rintro rfl
      cases hstep with
      | released idle live =>
        rcases hinv.holds with ⟨hword, hfits, -⟩ | ⟨_, -, hnone, -, -⟩
        · refine ⟨by rw [hword]; exact state_leasedWord hfits, fun hzero => ?_⟩
          rw [hzero, live] at hleases
          cases hleases
        · rw [live] at hnone
          cases hnone
    · rintro rfl
      cases hstep with
      | evictionCancelled idle began =>
        rcases hinv.holds with ⟨-, -, hnobody⟩ | ⟨_, hword, -, -, -⟩
        · rw [hnobody t] at began
          cases began
        · rw [hword]
          decide

/-- INTERNAL: thread 0 holds a guard while thread 1 has loaded the word it is about to
exchange. -/
def guardedWorld : LeaseGateWorld where
  gate := leasedWord 1
  phase := Function.update (Function.update (Function.update (Function.update
    (Function.update (fun _ => .idle) 0 .loading) 0 (.exchanging resident)) 0 .idle) 1 .loading) 1
    (.exchanging (leasedWord 1))
  begun := fun _ => false
  guards := 1

/-- INTERNAL: one guard is held and another thread is in the middle of its exchange. -/
theorem guardedWorld_excludes :
    (guardedWorld.gate &&& leaseMask).toNat = 1 ∧
      ∀ t event world', GateStep t guardedWorld event world' → event ≠ .evictionBegun := by
  have hloaded : GateReaches { LeaseGateWorld.new with
      phase := Function.update (Function.update (fun _ => .idle) 0 .loading) 0
        (.exchanging resident) } :=
    .step (.step .start (.enter (t := 0) rfl)) (.loaded (t := 0) rfl (by decide))
  have hacquired := GateReaches.step hloaded
    (.acquired (t := 0) rfl (show acquireExchange false resident resident = _ from rfl))
  have hreached : GateReaches guardedWorld :=
    .step (.step hacquired (.enter (t := 1) rfl)) (.loaded (t := 1) rfl (by decide))
  obtain ⟨hleases, -, -, hsteps⟩ := lease_gate_excludes hreached
  refine ⟨hleases, fun t event world' hstep hevent => ?_⟩
  exact absurd ((hsteps t event world' hstep).1 hevent) (by decide)

end Mirage.Analysis
