import Mathlib.Algebra.BigOperators.Group.List.Basic
import Mirage.Interface.ReservationRun

/-!
# The reservation ledger keeps to its envelope

One lemma for each call says what it leaves; the invariant `WithinBudget` and the absence of an
underflow both follow from these.
-/

set_option autoImplicit false

namespace Mirage.Analysis

open Mirage.Computation Mirage.Model Mirage.Interface

/-! ## The sums over the active reservations -/

theorem reservedBytes_cons (r : BudgetReservation) (l : List BudgetReservation) :
    reservedBytes (r :: l) = r.bytes + reservedBytes l := by
  simp [reservedBytes]

theorem dirtyBytes_cons (r : BudgetReservation) (l : List BudgetReservation) :
    dirtyBytes (r :: l) = (if r.reservationClass.isDirty then r.bytes else 0) + dirtyBytes l := by
  unfold dirtyBytes
  rw [List.filter_cons]
  split
  · exact reservedBytes_cons r _
  · rw [Nat.zero_add]

variable {l : List BudgetReservation} {config : BudgetConfig} {state : ReservationState}
  {bytes : Nat} {reservationClass : ReservationClass} {world : ReservationWorld}
  {envelopes : List Nat} {reservation : BudgetReservation}

theorem reservedBytes_perm {l' : List BudgetReservation} (h : l.Perm l') :
    reservedBytes l = reservedBytes l' :=
  (h.map _).sum_eq

theorem reservedBytes_erase {r : BudgetReservation} (h : r ∈ l) :
    reservedBytes l = r.bytes + reservedBytes (l.erase r) := by
  rw [← reservedBytes_cons]
  exact reservedBytes_perm (List.perm_cons_erase h)

theorem dirtyBytes_erase {r : BudgetReservation} (h : r ∈ l) :
    dirtyBytes l =
      (if r.reservationClass.isDirty then r.bytes else 0) + dirtyBytes (l.erase r) := by
  rw [← dirtyBytes_cons]
  exact reservedBytes_perm ((List.perm_cons_erase h).filter _)

/-! ## What each call leaves -/

theorem validateBudget_ok (h : config.validate = .ok ()) :
    config.updateSafetyReserve ≤ config.hardBytes ∧
      config.prefetchSoftBytes ≤ config.hardBytes := by
  have hconfig := ensure_ok h
  simp only [not_or, not_lt] at hconfig
  exact ⟨hconfig.2.2.1, hconfig.2.1⟩

theorem new_ok {committedBytes : Nat} (h : ReservationState.new config committedBytes = .ok state) :
    config.validate = .ok () ∧ committedBytes ≤ config.hardBytes ∧
      state = ⟨committedBytes, 0, 0, committedBytes⟩ := by
  obtain ⟨_, hvalid, h⟩ := except_bind_ok.1 h
  obtain ⟨hfits, h⟩ := ensure_bind_ok.1 h
  cases h
  exact ⟨hvalid, hfits, rfl⟩

/-- INTERNAL: the limit of a class exists under a budget that is valid. -/
theorem classLimit_eq (hsafety : config.updateSafetyReserve ≤ config.hardBytes)
    (reservationClass : ReservationClass) :
    ReservationState.classLimit config reservationClass =
      some (classCeiling config reservationClass) := by
  cases reservationClass <;>
    simp [ReservationState.classLimit, classCeiling, subtract, hsafety]

theorem dirtyAfter_ok {value : Nat}
    (h : state.dirtyAfter config bytes reservationClass = .ok value) :
    value = (if reservationClass.isDirty then bytes else 0) + state.dirtyReserved ∧
      (value ≤ config.dirtyUpdateBytes ∨ value = state.dirtyReserved) := by
  unfold ReservationState.dirtyAfter at h
  by_cases hclass : reservationClass.isDirty = true
  · rw [if_pos hclass] at h
    obtain ⟨sum, hsum, h⟩ := someOr_bind_ok.1 h
    obtain ⟨hfits, h⟩ := ensure_bind_ok.1 h
    cases h
    exact ⟨by rw [if_pos hclass, (checkedAdd_eq_some hsum).1, Nat.add_comm], .inl hfits⟩
  · rw [if_neg hclass] at h
    cases h
    exact ⟨by rw [if_neg hclass, Nat.zero_add], .inr rfl⟩

theorem reserveBudget_ok {state' : ReservationState}
    (hsafety : config.updateSafetyReserve ≤ config.hardBytes)
    (h : state.reserve config bytes reservationClass = some (.ok state')) :
    state'.committed = state.committed ∧ state'.reserved = bytes + state.reserved ∧
      state.dirtyAfter config bytes reservationClass = .ok state'.dirtyReserved ∧
      state'.peak = max state.peak (state'.committed + state'.reserved) ∧
      state'.committed + state'.reserved ≤ classCeiling config reservationClass := by
  unfold ReservationState.reserve at h
  split at h
  · cases h
  · rename_i nextReserved envelope hafter
    rw [classLimit_eq hsafety, Option.map_some] at h
    obtain ⟨-, hafter⟩ := ensure_bind_ok.1 hafter
    obtain ⟨next, hnext, hafter⟩ := someOr_bind_ok.1 hafter
    obtain ⟨total, htotal, hafter⟩ := someOr_bind_ok.1 hafter
    cases hafter
    obtain ⟨rfl, -⟩ := checkedAdd_eq_some hnext
    obtain ⟨rfl, -⟩ := checkedAdd_eq_some htotal
    obtain ⟨hfits, h⟩ := ensure_bind_ok.1 (Option.some.inj h)
    obtain ⟨dirty, hdirty, h⟩ := except_bind_ok.1 h
    cases h
    exact ⟨rfl, Nat.add_comm _ _, hdirty, rfl, hfits⟩

theorem setCommitted_ok {state' : ReservationState}
    (h : state.setCommitted config bytes = .ok state') :
    bytes + state.reserved ≤ config.hardBytes ∧
      state' = { state with
        committed := bytes, peak := max state.peak (bytes + state.reserved) } := by
  obtain ⟨hfits, h⟩ := ensure_bind_ok.1 h
  cases h
  refine ⟨?_, rfl⟩
  obtain ⟨total, htotal, hle⟩ := (Option.any_eq_true _ _).1 hfits
  rw [← (checkedAdd_eq_some htotal).1]
  exact of_decide_eq_true hle

/-- INTERNAL: a reservation that is counted can be taken out. -/
theorem takeOut_eq {reserved dirty : Nat} (hreserved : state.reserved = bytes + reserved)
    (hdirty : state.dirtyReserved = (if reservationClass.isDirty then bytes else 0) + dirty) :
    state.takeOut bytes reservationClass =
      some { state with reserved := reserved, dirtyReserved := dirty } := by
  unfold ReservationState.takeOut subtract
  cases hclass : reservationClass.isDirty <;> simp [hclass] at hdirty <;>
    simp [hreserved, hdirty]

/-- INTERNAL: an active reservation is counted, so it can be taken out. -/
theorem takeOut_active (h : WithinBudget config world envelopes)
    (hactive : reservation ∈ world.active) :
    world.state.takeOut reservation.bytes reservation.reservationClass =
      some { world.state with
        reserved := reservedBytes (world.active.erase reservation)
        dirtyReserved := dirtyBytes (world.active.erase reservation) } := by
  apply takeOut_eq
  · rw [h.reserved, reservedBytes_erase hactive]
  · rw [h.dirtyReserved, dirtyBytes_erase hactive]

/-- INTERNAL: the committed bytes cannot overflow while the envelope is within a `u64`, so the
path on which `commit` fails is never taken. -/
theorem commit_active (hu64 : config.hardBytes ≤ u64Max) (h : WithinBudget config world envelopes)
    (hactive : reservation ∈ world.active) :
    world.state.commit reservation.bytes reservation.reservationClass =
      some (.ok (), { world.state with
        committed := world.state.committed + reservation.bytes
        reserved := reservedBytes (world.active.erase reservation)
        dirtyReserved := dirtyBytes (world.active.erase reservation) }) := by
  have hsum : checkedAdd world.state.committed reservation.bytes =
      some (world.state.committed + reservation.bytes) := by
    have hfits := h.envelopeFits
    unfold ReservationWorld.envelope at hfits
    rw [h.reserved, reservedBytes_erase hactive] at hfits
    exact if_pos (by omega)
  unfold ReservationState.commit
  rw [hsum, takeOut_active h hactive]
  rfl

/-! ## The invariant -/

theorem withinBudget_start {committedBytes : Nat}
    (h : ReservationState.new config committedBytes = .ok state) :
    WithinBudget config ⟨state, []⟩ [state.committed + state.reserved] := by
  obtain ⟨-, hfits, rfl⟩ := new_ok h
  exact ⟨rfl, rfl, Nat.zero_le _, hfits, by simp, by simp⟩

/-- INTERNAL: a call that sets the peak to the larger of the old one and the new envelope, or
leaves it where the envelope did not grow, keeps the peak the largest one reached. -/
theorem withinBudget_step {world' : ReservationWorld} (h : WithinBudget config world envelopes)
    (hreserved : world'.state.reserved = reservedBytes world'.active)
    (hdirty : world'.state.dirtyReserved = dirtyBytes world'.active)
    (hdirtyFits : world'.state.dirtyReserved ≤ config.dirtyUpdateBytes)
    (hfits : world'.envelope ≤ config.hardBytes)
    (hpeak : world'.state.peak = max world.state.peak world'.envelope) :
    WithinBudget config world' (world'.envelope :: envelopes) := by
  refine ⟨hreserved, hdirty, hdirtyFits, hfits, ?_, ?_⟩
  · rw [hpeak]
    rcases max_choice world.state.peak world'.envelope with hmax | hmax
    · rw [hmax]
      exact List.mem_cons_of_mem _ h.peakReached
    · rw [hmax]
      exact List.mem_cons_self
  · intro envelope henvelope
    rw [hpeak]
    rcases List.mem_cons.1 henvelope with rfl | hearlier
    · exact le_max_right _ _
    · exact (h.peakLargest envelope hearlier).trans (le_max_left _ _)

/-- INTERNAL: the envelope of a world is one that was reached. -/
theorem envelope_le_peak (hrun : ReservationRun config world envelopes)
    (h : WithinBudget config world envelopes) : world.envelope ≤ world.state.peak := by
  cases hrun with
  | start created => exact h.peakLargest _ List.mem_cons_self
  | call run possible performed => exact h.peakLargest _ List.mem_cons_self

/-- INTERNAL: a call that fails without a change. -/
theorem withinBudget_unchanged (h : WithinBudget config world envelopes)
    (hpeak : world.envelope ≤ world.state.peak) :
    WithinBudget config world (world.envelope :: envelopes) :=
  withinBudget_step h h.reserved h.dirtyReserved h.dirtyFits h.envelopeFits
    (max_eq_left hpeak).symm

/-- INTERNAL: every ceiling is within the hard budget. -/
theorem classCeiling_le (hvalid : config.validate = .ok ()) (reservationClass : ReservationClass) :
    classCeiling config reservationClass ≤ config.hardBytes := by
  obtain ⟨-, hprefetch⟩ := validateBudget_ok hvalid
  cases reservationClass with
  | prefetch => exact hprefetch
  | blocking | capsule => exact Nat.sub_le _ _
  | dirtyUpdate | staging => exact le_rfl

theorem withinBudget_reserve (hvalid : config.validate = .ok ())
    (h : WithinBudget config world envelopes)
    (hreserve : world.state.reserve config bytes reservationClass = some (.ok state)) :
    WithinBudget config ⟨state, ⟨bytes, reservationClass⟩ :: world.active⟩
      ((state.committed + state.reserved) :: envelopes) := by
  obtain ⟨-, hreserved, hdirty, hpeak, hceiling⟩ :=
    reserveBudget_ok (validateBudget_ok hvalid).1 hreserve
  obtain ⟨hvalue, hfits⟩ := dirtyAfter_ok hdirty
  refine withinBudget_step h ?_ ?_ ?_ (hceiling.trans (classCeiling_le hvalid _)) hpeak
  · rw [reservedBytes_cons, ← h.reserved]
    exact hreserved
  · rw [dirtyBytes_cons, ← h.dirtyReserved]
    exact hvalue
  · rcases hfits with hfits | hsame
    · exact hfits
    · exact hsame.trans_le h.dirtyFits

/-- INTERNAL: consuming a reservation neither grows the envelope nor the dirty bytes. -/
theorem withinBudget_consume {committed : Nat} (h : WithinBudget config world envelopes)
    (hpeak : world.envelope ≤ world.state.peak) (hactive : reservation ∈ world.active)
    (hcommitted : committed ≤ world.state.committed + reservation.bytes) :
    WithinBudget config
      ⟨{ world.state with
          committed := committed
          reserved := reservedBytes (world.active.erase reservation)
          dirtyReserved := dirtyBytes (world.active.erase reservation) },
        world.active.erase reservation⟩
      ((committed + reservedBytes (world.active.erase reservation)) :: envelopes) := by
  have hshrinks : committed + reservedBytes (world.active.erase reservation) ≤ world.envelope := by
    unfold ReservationWorld.envelope
    rw [h.reserved, reservedBytes_erase hactive]
    omega
  refine withinBudget_step h rfl rfl ?_ (hshrinks.trans h.envelopeFits)
    (max_eq_left (hshrinks.trans hpeak)).symm
  have hdirty := h.dirtyFits
  rw [h.dirtyReserved, dirtyBytes_erase hactive] at hdirty
  exact (Nat.le_add_left _ _).trans hdirty

/-- INTERNAL: what any possible call does to a world within its budget. -/
theorem perform_withinBudget (hu64 : config.hardBytes ≤ u64Max)
    (hvalid : config.validate = .ok ()) (h : WithinBudget config world envelopes)
    (hpeak : world.envelope ≤ world.state.peak) {call : ReservationCall}
    (hpossible : call.Possible world) :
    ∃ outcome world', world.perform config call = some (outcome, world') ∧
      WithinBudget config world' (world'.envelope :: envelopes) ∧
      (∀ e, outcome = .error e → world' = world) ∧
      ∀ bytes reservationClass, call = .reserve bytes reservationClass → outcome = .ok () →
        world'.envelope ≤ classCeiling config reservationClass := by
  cases call with
  | reserve bytes reservationClass =>
    have hsome : ∃ result, world.state.reserve config bytes reservationClass = some result := by
      unfold ReservationState.reserve
      rw [classLimit_eq (validateBudget_ok hvalid).1]
      split
      · exact ⟨_, rfl⟩
      · exact ⟨_, rfl⟩
    obtain ⟨result, hresult⟩ := hsome
    refine ⟨_, _, congrArg (Option.map _) hresult, ?_⟩
    cases result with
    | error e =>
      exact ⟨withinBudget_unchanged h hpeak, fun _ _ => rfl, nofun⟩
    | ok state =>
      refine ⟨withinBudget_reserve hvalid h hresult, nofun, ?_⟩
      intro bytes' class' hcall _
      cases hcall
      exact (reserveBudget_ok (validateBudget_ok hvalid).1 hresult).2.2.2.2
  | commit reservation =>
    refine ⟨_, _, congrArg (Option.map _) (commit_active hu64 h hpossible), ?_⟩
    exact ⟨withinBudget_consume h hpeak hpossible le_rfl, nofun,
      nofun⟩
  | release reservation =>
    refine ⟨_, _, congrArg (Option.map _) (takeOut_active h hpossible), ?_⟩
    exact ⟨withinBudget_consume h hpeak hpossible (Nat.le_add_right _ _),
      nofun, nofun⟩
  | setCommitted bytes =>
    refine ⟨_, _, rfl, ?_⟩
    cases hresult : world.state.setCommitted config bytes with
    | error e =>
      exact ⟨withinBudget_unchanged h hpeak, fun _ _ => rfl, nofun⟩
    | ok state =>
      obtain ⟨hfits, rfl⟩ := setCommitted_ok hresult
      exact ⟨withinBudget_step h h.reserved h.dirtyReserved h.dirtyFits hfits rfl,
        nofun, nofun⟩

/-! ## Whole runs -/

theorem validate_of_run (hrun : ReservationRun config world envelopes) :
    config.validate = .ok () := by
  induction hrun with
  | start created => exact (new_ok created).1
  | call run possible performed ih => exact ih

theorem withinBudget_of_run (hu64 : config.hardBytes ≤ u64Max)
    (hrun : ReservationRun config world envelopes) : WithinBudget config world envelopes := by
  induction hrun with
  | start created => exact withinBudget_start created
  | call run possible performed ih =>
    obtain ⟨outcome, world', hperformed, hwithin, -, -⟩ :=
      perform_withinBudget hu64 (validate_of_run run) ih (envelope_le_peak run ih) possible
    rw [performed] at hperformed
    cases hperformed
    exact hwithin

/-- INTERNAL: in every world of every run the counters are the sums over the active
reservations and within the budget, the peak is the largest envelope reached, and every call
that can be made next has a result, keeps its class limit and changes nothing where it fails.
SRCLINE: mirage-cache/src/reservation_ledger.rs:34-208 -/
theorem reservations_within_budget {config : BudgetConfig} {world : ReservationWorld}
    {envelopes : List Nat} (hu64 : config.hardBytes ≤ u64Max)
    (hrun : ReservationRun config world envelopes) :
    WithinBudget config world envelopes ∧
      ∀ call : ReservationCall, call.Possible world → Settles config world call := by
  have hwithin := withinBudget_of_run hu64 hrun
  refine ⟨hwithin, fun call hpossible => ?_⟩
  obtain ⟨outcome, world', hperformed, -, hfailed, hceiling⟩ :=
    perform_withinBudget hu64 (validate_of_run hrun) hwithin (envelope_le_peak hrun hwithin)
      hpossible
  exact ⟨outcome, world', hperformed, hfailed, hceiling⟩

/-- INTERNAL: a budget of ten bytes of which four are committed: three are reserved for
staging and then committed. -/
theorem staged_bytes_within_budget :
    WithinBudget ⟨10, 6, 5, 4⟩ ⟨⟨7, 0, 0, 7⟩, []⟩ [7, 7, 4] ∧
      ∀ call : ReservationCall, call.Possible ⟨⟨7, 0, 0, 7⟩, []⟩ →
        Settles ⟨10, 6, 5, 4⟩ ⟨⟨7, 0, 0, 7⟩, []⟩ call := by
  have hnew : ReservationState.new ⟨10, 6, 5, 4⟩ 4 = .ok ⟨4, 0, 0, 4⟩ := by decide
  have hreserve : ReservationWorld.perform ⟨10, 6, 5, 4⟩ ⟨⟨4, 0, 0, 4⟩, []⟩
      (.reserve 3 .staging) = some (.ok (), ⟨⟨4, 3, 3, 7⟩, [⟨3, .staging⟩]⟩) := by decide
  have hcommit : ReservationWorld.perform ⟨10, 6, 5, 4⟩ ⟨⟨4, 3, 3, 7⟩, [⟨3, .staging⟩]⟩
      (.commit ⟨3, .staging⟩) = some (.ok (), ⟨⟨7, 0, 0, 7⟩, []⟩) := by decide
  have hpossible : (ReservationCall.reserve 3 .staging).Possible ⟨⟨4, 0, 0, 4⟩, []⟩ := trivial
  have hcommitted : ReservationRun ⟨10, 6, 5, 4⟩ ⟨⟨7, 0, 0, 7⟩, []⟩ [7, 7, 4] :=
    .call (.call (.start hnew) hpossible hreserve) List.mem_cons_self hcommit
  exact reservations_within_budget (by decide) hcommitted

end Mirage.Analysis
