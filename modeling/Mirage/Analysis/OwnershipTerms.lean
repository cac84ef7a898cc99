import Mirage.Interface.OwnershipRun

/-!
# Successive ownership terms

A call changes at most the state in the record, so a term that did not end cleanly leaves a
state other than `Unmounted`, and the next acquisition takes a higher epoch and starts in
`Recovering`.  The calls that record `Unmounted` without a clean end are the exceptions, and
`dropped_term_starts_again` is a run with one of them.
-/

set_option autoImplicit false

namespace Mirage.Analysis

open Mirage.Model Mirage.Interface

/-- INTERNAL: the record is as before, or only its state changed. -/
def Rewrites (stored stored' : Option OwnerRecord) : Prop :=
  stored' = stored ∨
    ∃ record state, stored = some record ∧ stored' = some { record with state := state }

section Effects

variable {stored stored' stored'' : Option OwnerRecord}

theorem Rewrites.refl : Rewrites stored stored := .inl rfl

theorem Rewrites.trans (h : Rewrites stored stored') (h' : Rewrites stored' stored'') :
    Rewrites stored stored'' := by
  rcases h' with rfl | ⟨record', state', hstored', rfl⟩
  · exact h
  · rcases h with rfl | ⟨record, state, hstored, hwritten⟩
    · exact .inr ⟨record', state', hstored', rfl⟩
    · obtain rfl : { record with state := state } = record' :=
        Option.some.inj (hwritten.symm.trans hstored')
      exact .inr ⟨record, state', hstored, rfl⟩

variable {repository : RepositoryId} {record : OwnerRecord}

theorem loadOwnerRecord_ok {fault : RecordFault} {loaded : Option OwnerRecord}
    (h : loadOwnerRecord stored repository fault = .ok loaded) : stored = loaded := by
  unfold loadOwnerRecord at h
  cases stored with
  | none => exact Except.ok.inj h
  | some r =>
    cases fault with
    | load e => cases h
    | pass | before | behind =>
      simp only at h
      split_ifs at h
      exact Except.ok.inj h

variable {c : VolumeCoordinator} {next : VolumeState} {fault : RecordFault}

variable {drain : VolumeCoordinator.Drain} {first last : RecordFault}

/-- INTERNAL: an acquisition leaves the record or writes the record of the next term. -/
theorem acquire_cases (stored : Option OwnerRecord) (repository : RepositoryId)
    (fault : RecordFault) :
    ((∃ e, (VolumeCoordinator.acquire stored repository fault).1 = .error e) ∧
        (VolumeCoordinator.acquire stored repository fault).2 = stored) ∨
      ∃ record, VolumeCoordinator.nextRecord stored repository = .ok record ∧
        (VolumeCoordinator.acquire stored repository fault).2 = some record ∧
        ∀ c, (VolumeCoordinator.acquire stored repository fault).1 = .ok c →
          c.epoch = record.epoch ∧ c.state = record.state := by
  unfold VolumeCoordinator.acquire
  cases hload : loadOwnerRecord stored repository fault with
  | error e => exact .inl ⟨⟨e, rfl⟩, rfl⟩
  | ok previous =>
    obtain rfl := loadOwnerRecord_ok hload
    simp only
    cases hnext : VolumeCoordinator.nextRecord stored repository with
    | error e => exact .inl ⟨⟨e, rfl⟩, rfl⟩
    | ok record =>
      cases fault with
      | before e => exact .inl ⟨⟨e, rfl⟩, rfl⟩
      | behind e => exact .inr ⟨record, rfl, rfl, fun c hc => (by cases hc)⟩
      | pass | load =>
        refine .inr ⟨record, rfl, rfl, fun c hc => ?_⟩
        obtain rfl := Except.ok.inj hc
        exact ⟨rfl, rfl⟩

theorem nextRecord_ok (h : VolumeCoordinator.nextRecord stored repository = .ok record) :
    record.epoch = stored.elim 0 OwnerRecord.epoch + 1 ∧
      record.state =
        if stored.any fun r => r.state ≠ .unmounted then .recovering else .starting := by
  unfold VolumeCoordinator.nextRecord at h
  cases hadd : checkedAdd (stored.elim 0 OwnerRecord.epoch) 1 with
  | none =>
    rw [hadd] at h
    cases h
  | some epoch =>
    rw [hadd] at h
    obtain rfl := Except.ok.inj h
    exact ⟨(checkedAdd_eq_some hadd).1, rfl⟩

end Effects

/-! ## Terms -/

/-- INTERNAL: the terms follow each other, and the record is not behind the newest one and
does not say `Unmounted` unless it ended cleanly. -/
structure OwnershipInv (s : OwnershipState) : Prop where
  chain : s.terms.IsChain Term.Follows
  recorded : ∀ term terms, s.terms = term :: terms →
    ∃ record, s.stored = some record ∧ term.epoch ≤ record.epoch ∧
      (term.clean = false → record.state ≠ .unmounted)

section Inv

variable {s : OwnershipState}

variable {stored : Option OwnerRecord} {repository : RepositoryId}

/-- INTERNAL: a change of the recorded state that keeps an unclean term visible. -/
theorem OwnershipInv.rewrite (h : OwnershipInv s) (owner : Option VolumeCoordinator)
    (hrewrites : Rewrites s.stored stored)
    (hclean : s.Unmounts { s with stored := stored, owner := owner } → s.Clean) :
    OwnershipInv { s with stored := stored, owner := owner } := by
  refine ⟨h.chain, fun term terms hterms => ?_⟩
  obtain ⟨record, hstored, hepoch, hstate⟩ := h.recorded term terms hterms
  by_cases hsame : stored = s.stored
  · exact ⟨record, hsame.trans hstored, hepoch, hstate⟩
  · obtain ⟨record', state, hstored', hwritten⟩ := hrewrites.resolve_left hsame
    obtain rfl : record' = record := Option.some.inj (hstored'.symm.trans hstored)
    refine ⟨_, hwritten, hepoch, fun hunclean hunmounted => ?_⟩
    have hunmounts : stored.any (fun record => record.state = .unmounted) = true := by
      rw [hwritten]
      exact decide_eq_true hunmounted
    have hnewest := hclean ⟨hsame, hunmounts⟩
    unfold OwnershipState.Clean at hnewest
    rw [show s.terms = term :: terms from hterms] at hnewest
    exact Bool.false_ne_true (hunclean.symm.trans hnewest)

/-- INTERNAL: a record that says `Unmounted` gives a start in `Starting`, every other one a
start in `Recovering`. -/
theorem nextRecord_follows {record : OwnerRecord} (h : OwnershipInv s)
    (hnext : VolumeCoordinator.nextRecord s.stored repository = .ok record) :
    record.state ≠ .unmounted ∧ ∀ term terms, s.terms = term :: terms →
      term.epoch < record.epoch ∧ (record.state = .starting → term.clean = true) ∧
        (term.clean = false → record.state = .recovering) := by
  obtain ⟨hepoch, hstate⟩ := nextRecord_ok hnext
  refine ⟨?_, fun term terms hterms => ?_⟩
  · rw [hstate]
    split_ifs <;> decide
  · obtain ⟨previous, hstored, hle, hunclean⟩ := h.recorded term terms hterms
    rw [hstored] at hepoch hstate
    have hrecovers : term.clean = false → record.state = .recovering := by
      intro hclean
      rw [hstate]
      exact if_pos (decide_eq_true (hunclean hclean))
    refine ⟨by rw [hepoch]; exact Nat.lt_succ_of_le hle, fun hstarting => ?_, hrecovers⟩
    by_contra hno
    rw [hrecovers (Bool.eq_false_iff.mpr hno)] at hstarting
    cases hstarting

theorem OwnershipInv.acquire {fault : RecordFault} {s' : OwnershipState} (h : OwnershipInv s)
    (hstep : s.step repository (.acquire fault) = some s') : OwnershipInv s' := by
  simp only [OwnershipState.step] at hstep
  cases howner : s.owner with
  | some c =>
    rw [howner] at hstep
    cases hstep
  | none =>
    rw [howner] at hstep
    simp only at hstep
    have hcases := acquire_cases s.stored repository fault
    cases hcall : VolumeCoordinator.acquire s.stored repository fault with
    | mk result stored =>
      rw [hcall] at hstep hcases
      rcases hcases with ⟨⟨e, he⟩, hsame⟩ | ⟨record, hnext, hstored, hok⟩
      · obtain rfl : result = .error e := he
        obtain rfl := Option.some.inj hstep
        exact h.rewrite none (.inl hsame) fun hunmounts => absurd hsame hunmounts.1
      · obtain ⟨hrecord, hfollows⟩ := nextRecord_follows h hnext
        cases result with
        | error e =>
          obtain rfl := Option.some.inj hstep
          refine ⟨h.chain, fun term terms hterms => ?_⟩
          exact ⟨record, hstored, (hfollows term terms hterms).1.le, fun _ => hrecord⟩
        | ok c =>
          obtain rfl := Option.some.inj hstep
          obtain ⟨hepoch, hstate⟩ := hok c rfl
          refine ⟨List.isChain_cons.mpr ⟨fun older holder => ?_, h.chain⟩, ?_⟩
          · obtain ⟨terms, hterms⟩ := List.head?_eq_some_iff.mp holder
            obtain ⟨hlt, hstarting, hrecovers⟩ := hfollows older terms hterms
            rw [← hepoch] at hlt
            rw [← hstate] at hstarting hrecovers
            exact ⟨hlt, hstarting, hrecovers⟩
          · intro term terms hterms
            obtain ⟨rfl, -⟩ := List.cons.inj hterms
            exact ⟨record, hstored, hepoch.le, fun _ => hrecord⟩

end Inv

end Mirage.Analysis
