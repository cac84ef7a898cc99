import Mirage.Interface.QuiesceRun

/-!
# A quiesced volume has no readers

A coordinator that is `Quiescing` or `Unmounted` stays so, as long as no transition leads back
through `Recovering` under a `quiesce`, and admits no reader.  So the readers that are left when
a `quiesce` looks at them are the registered ones and those between the check and the
registration of their `begin_read`.  The second kind is not waited for.
-/

set_option autoImplicit false

namespace Mirage.Analysis

open Mirage.Computation Mirage.Model Mirage.Interface

/-- INTERNAL: no reader is admitted any more. -/
def Closing (state : VolumeState) : Prop := state = .quiescing ∨ state = .unmounted

/-- INTERNAL: the `quiesce` of a mounted volume has found no readers. -/
def VolumeThread.empty : VolumeThread → Prop
  | .drained fromMounted => fromMounted = true
  | .quiesceEnds fromMounted => fromMounted = true
  | _ => False

/-- INTERNAL: nobody reads, and nobody is about to. -/
structure Silent (s : VolumeShared) : Prop where
  leases : s.leases = []
  admitted : ∀ thread page, s.threads thread ≠ .admitted page

/-- INTERNAL: the counts are those of the live leases, and a `quiesce` is followed through. -/
structure QuiesceInv (s : VolumeShared) : Prop where
  counted : ∀ page, (s.readers.get page).getD 0 = s.leases.count page
  closed : ∀ thread, (s.threads thread).closed → Closing s.state
  empty : ∀ thread, VolumeThread.empty (s.threads thread) → Silent s
  ends : ∀ thread, s.threads thread = .quiesceEnds true → s.state = .unmounted
  quiesced : s.quiesced = true → s.state = .unmounted ∧ Silent s

section Steps

variable {s : VolumeShared} {thread : Nat}

theorem threads_goto (at' : VolumeThread) (other : Nat) :
    (s.goto thread at').threads other = if other = thread then at' else s.threads other := rfl

variable {next : VolumeState} {at' : VolumeThread}

theorem closed_of_empty (h : VolumeThread.empty at') : at'.closed := by
  cases at' <;> first | exact h | exact h.elim

theorem move_ok {state : VolumeState} (h : s.state.move next = .ok state) :
    s.state.mayTransition next = true ∧ state = next := by
  unfold VolumeState.move at h
  split_ifs at h with hmay
  exact ⟨hmay, (Except.ok.inj h).symm⟩

/-- INTERNAL: a closing coordinator moves only to `Unmounted`. -/
theorem closing_move (h : Closing s.state) (hnext : s.state = .quiescing → next ≠ .recovering)
    (hmay : s.state.mayTransition next = true) : Closing next := by
  rcases h with hstate | hstate
  · have hother := hnext hstate
    rw [hstate] at hmay
    cases next with
    | unmounted => exact .inr rfl
    | recovering => exact absurd rfl hother
    | starting | mounted | quiescing => cases hmay
  · rw [hstate] at hmay
    cases next <;> cases hmay

theorem Silent.goto (h : Silent s) (hat : ∀ page, at' ≠ .admitted page) :
    Silent (s.goto thread at') := by
  refine ⟨h.leases, fun other page => ?_⟩
  rw [threads_goto]
  split_ifs
  · exact hat page
  · exact h.admitted other page

/-- INTERNAL: a thread goes on, and what the invariant asks of its new place holds. -/
theorem QuiesceInv.goto (h : QuiesceInv s)
    (hat : ∀ page, at' = .admitted page → s.state = .mounted)
    (hclosed : at'.closed → Closing s.state) (hempty : VolumeThread.empty at' → Silent s)
    (hends : at' = .quiesceEnds true → s.state = .unmounted) :
    QuiesceInv (s.goto thread at') := by
  -- nobody is admitted while the volume closes
  have hsilent (hclosing : Closing s.state) (hs : Silent s) : Silent (s.goto thread at') := by
    refine hs.goto fun page hpage => ?_
    have hmounted := hat page hpage
    rcases hclosing with hstate | hstate <;> rw [hmounted] at hstate <;> cases hstate
  refine ⟨h.counted, fun other hother => ?_, fun other hother => ?_, fun other hother => ?_,
    fun hq => ⟨(h.quiesced hq).1, hsilent (.inr (h.quiesced hq).1) (h.quiesced hq).2⟩⟩
  all_goals
    rw [threads_goto] at hother
    split_ifs at hother
  · exact hclosed hother
  · exact h.closed other hother
  · exact hsilent (hclosed (closed_of_empty hother)) (hempty hother)
  · exact hsilent (h.closed other (closed_of_empty hother)) (h.empty other hother)
  · exact hends hother
  · exact h.ends other hother

theorem QuiesceInv.idle (h : QuiesceInv s) : QuiesceInv (s.goto thread .idle) :=
  h.goto nofun False.elim False.elim nofun

/-- INTERNAL: the invariant does not read the record. -/
theorem QuiesceInv.store (h : QuiesceInv s) (stored : Option OwnerRecord) :
    QuiesceInv { s with stored := stored } :=
  ⟨h.counted, h.closed, fun t ht => { h.empty t ht with }, h.ends,
    fun hq => ⟨(h.quiesced hq).1, { (h.quiesced hq).2 with }⟩⟩

/-- INTERNAL: the first half of a transition. -/
theorem QuiesceInv.moveTo (h : QuiesceInv s)
    (hnext : s.state = .quiescing → next = .recovering → ∀ t, ¬ (s.threads t).closed)
    (hat : ∀ page, at' ≠ .admitted page) (hclosed : at'.closed → Closing next)
    (hempty : VolumeThread.empty at' → Silent s)
    (hends : at' = .quiesceEnds true → next = .unmounted) :
    QuiesceInv (s.moveTo thread next at') := by
  unfold VolumeShared.moveTo
  cases hmove : s.state.move next with
  | error e => exact h.idle
  | ok state =>
    obtain ⟨hmay, rfl⟩ := move_ok hmove
    -- an unmounted coordinator does not move
    have hstays : s.state ≠ .unmounted := by
      intro hstate
      rw [hstate] at hmay
      cases state <;> cases hmay
    have hset : QuiesceInv { s with state := state } :=
      ⟨h.counted, fun t ht => closing_move (h.closed t ht) (fun hq hr => hnext hq hr t ht) hmay,
        fun t ht => { h.empty t ht with }, fun t ht => absurd (h.ends t ht) hstays,
        fun hq => absurd (h.quiesced hq).1 hstays⟩
    exact hset.goto (fun page hpage => absurd hpage (hat page)) hclosed
      (fun ht => { hempty ht with }) hends

/-- INTERNAL: the second half of a transition. -/
theorem QuiesceInv.persistTo {fault : RecordFault} {quiesced : Bool} (h : QuiesceInv s)
    (hat : ∀ page, at' ≠ .admitted page) (hclosed : at'.closed → Closing s.state)
    (hempty : VolumeThread.empty at' → Silent s)
    (hends : at' = .quiesceEnds true → s.state = .unmounted)
    (hquiesced : quiesced = true → s.state = .unmounted ∧ Silent s) :
    QuiesceInv (s.persistTo thread next fault at' quiesced) := by
  unfold VolumeShared.persistTo
  cases VolumeCoordinator.persist s.repositoryId s.epoch next s.stored fault with
  | mk result stored =>
    cases result with
    | error e => exact (h.store stored).idle
    | ok u =>
      have hnoted : QuiesceInv
          { s with stored := stored, quiesced := s.quiesced || quiesced } := by
        refine ⟨h.counted, h.closed, fun t ht => { h.empty t ht with }, h.ends, fun hq => ?_⟩
        obtain ⟨hstate, hs⟩ := (Bool.or_eq_true_iff.mp hq).elim h.quiesced hquiesced
        exact ⟨hstate, { hs with }⟩
      exact hnoted.goto (fun page hpage => absurd hpage (hat page)) hclosed
        (fun ht => { hempty ht with }) hends

/-! ## Readers -/

/-- INTERNAL: a registered reader is counted; no silent volume has one. -/
theorem QuiesceInv.register {page : PageHash} (h : QuiesceInv s)
    (hthread : s.threads thread = .admitted page) :
    QuiesceInv ((s.addReader page).goto thread .idle) := by
  have hloud : ¬ Silent s := fun hs => hs.admitted thread page hthread
  refine QuiesceInv.idle ⟨fun other => ?_, h.closed, fun t ht => absurd (h.empty t ht) hloud,
    h.ends, fun hq => absurd (h.quiesced hq).2 hloud⟩
  change ((s.readers.set page _).get other).getD 0 = (page :: s.leases).count other
  rw [Table.get_set, List.count_cons]
  by_cases hother : other = page
  · subst hother
    rw [if_pos rfl, if_pos (beq_self_eq_true other), Option.getD_some, h.counted]
  · rw [if_neg hother, if_neg (by simpa using Ne.symm hother), h.counted, Nat.add_zero]

theorem QuiesceInv.dropLease {page : PageHash} (h : QuiesceInv s) (hpage : page ∈ s.leases) :
    QuiesceInv (s.dropReader page) := by
  have hloud : ¬ Silent s := by
    intro hs
    rw [hs.leases] at hpage
    cases hpage
  have hpos : 0 < s.leases.count page := List.count_pos_iff.mpr hpage
  have hcount := h.counted page
  -- whatever the table does, only the count of this page changes, by one
  have hkeep : ∀ readers : Table PageHash Nat,
      (∀ other, (readers.get other).getD 0 =
        if other = page then s.leases.count page - 1 else (s.readers.get other).getD 0) →
      QuiesceInv { s with leases := s.leases.erase page, readers := readers } := by
    intro readers hreaders
    refine ⟨fun other => ?_, h.closed, fun t ht => absurd (h.empty t ht) hloud, h.ends,
      fun hq => absurd (h.quiesced hq).2 hloud⟩
    change (readers.get other).getD 0 = (s.leases.erase page).count other
    rw [hreaders other]
    by_cases hother : other = page
    · subst hother
      rw [if_pos rfl, List.count_erase_self]
    · rw [if_neg hother, List.count_erase_of_ne hother, h.counted]
  unfold VolumeShared.dropReader
  cases hget : s.readers.get page with
  | none =>
    rw [hget, Option.getD_none] at hcount
    omega
  | some count =>
    rw [hget, Option.getD_some] at hcount
    subst hcount
    simp only
    split_ifs with hlast
    · refine hkeep _ fun other => ?_
      rw [Table.get_erase]
      split_ifs
      · rw [hlast]
        rfl
      · rfl
    · refine hkeep _ fun other => ?_
      rw [Table.get_set]
      split_ifs <;> rfl

/-- INTERNAL: no counts, no leases. -/
theorem leases_of_entries (h : QuiesceInv s) (hempty : s.readers.entries = []) :
    s.leases = [] := by
  refine List.eq_nil_iff_forall_not_mem.mpr fun page hpage => ?_
  have hpos : 0 < s.leases.count page := List.count_pos_iff.mpr hpage
  have hnone : s.readers.get page = none := by
    refine Table.get_of_keys_nil ?_
    unfold Table.keys
    rw [hempty]
    rfl
  rw [← h.counted page, hnone] at hpos
  exact Nat.lt_irrefl 0 hpos

/-! ## The whole step -/

theorem step_keeps_quiesce {s' : VolumeShared} {a : VolumeAct} (h : QuiesceInv s)
    (hmay : s.NoReaderBetween a) (hstep : s.step a = some s') : QuiesceInv s' := by
  cases a with
  | beginRead thread page =>
    simp only [VolumeShared.step] at hstep
    split_ifs at hstep with hidle hmounted
    · obtain rfl := Option.some.inj hstep
      exact h.goto (fun _ _ => hmounted) False.elim False.elim nofun
    · obtain rfl := Option.some.inj hstep
      exact h
  | register thread =>
    simp only [VolumeShared.step] at hstep
    split at hstep
    · rename_i page hthread
      obtain rfl := Option.some.inj hstep
      exact h.register hthread
    · cases hstep
  | dropLease page =>
    simp only [VolumeShared.step] at hstep
    split_ifs at hstep with hpage
    obtain rfl := Option.some.inj hstep
    exact h.dropLease hpage
  | transition thread next =>
    simp only [VolumeShared.step] at hstep
    split_ifs at hstep
    obtain rfl := Option.some.inj hstep
    exact h.moveTo hmay nofun False.elim False.elim nofun
  | persist thread fault =>
    simp only [VolumeShared.step] at hstep
    split at hstep
    · obtain rfl := Option.some.inj hstep
      exact h.persistTo nofun False.elim False.elim nofun nofun
    · cases hstep
  | quiesce thread =>
    simp only [VolumeShared.step] at hstep
    split_ifs at hstep
    obtain rfl := Option.some.inj hstep
    exact h.goto nofun False.elim False.elim nofun
  | quiesceMove thread =>
    simp only [VolumeShared.step] at hstep
    split at hstep
    · obtain rfl := Option.some.inj hstep
      exact h.idle
    · obtain rfl := Option.some.inj hstep
      exact h.moveTo nofun nofun False.elim False.elim nofun
    · obtain rfl := Option.some.inj hstep
      exact h.moveTo nofun nofun False.elim False.elim nofun
    · obtain rfl := Option.some.inj hstep
      exact h.moveTo nofun nofun (fun _ => .inl rfl) False.elim nofun
    · obtain rfl := Option.some.inj hstep
      exact h.goto nofun nofun False.elim nofun
    · cases hstep
  | quiescePersist thread fault =>
    simp only [VolumeShared.step] at hstep
    split at hstep
    · obtain rfl := Option.some.inj hstep
      exact h.persistTo nofun False.elim False.elim nofun nofun
    · rename_i hthread
      obtain rfl := Option.some.inj hstep
      refine h.persistTo nofun (fun _ => h.closed thread ?_) False.elim nofun nofun
      rw [hthread]
      trivial
    · rename_i fromMounted hthread
      obtain rfl := Option.some.inj hstep
      refine h.persistTo nofun False.elim False.elim nofun fun hfrom => ?_
      subst hfrom
      refine ⟨h.ends thread hthread, h.empty thread ?_⟩
      rw [hthread]
      rfl
    · cases hstep
  | drain thread =>
    simp only [VolumeShared.step] at hstep
    split at hstep
    · rename_i fromMounted hthread
      obtain rfl := Option.some.inj hstep
      split_ifs with hentries
      · have hclosed : fromMounted = true → Closing s.state := by
          intro hfrom
          refine h.closed thread ?_
          rw [hthread]
          exact hfrom
        refine h.goto nofun hclosed (fun hfrom => ?_) nofun
        subst hfrom
        exact ⟨leases_of_entries h hentries, hmay hthread hentries⟩
      · exact h
    · cases hstep
  | timeout thread =>
    simp only [VolumeShared.step] at hstep
    split at hstep
    · split_ifs at hstep
      obtain rfl := Option.some.inj hstep
      exact h.idle
    · cases hstep
  | unmount thread =>
    simp only [VolumeShared.step] at hstep
    split at hstep
    · rename_i fromMounted hthread
      obtain rfl := Option.some.inj hstep
      refine h.moveTo nofun nofun (fun _ => .inr rfl) (fun hfrom => h.empty thread ?_) fun _ => rfl
      rw [hthread]
      exact hfrom
    · cases hstep

end Steps

variable {s : VolumeShared}

theorem reaches_quiesceInv (h : VolumeShared.Reaches VolumeShared.NoReaderBetween s) :
    QuiesceInv s := by
  induction h with
  | start c stored =>
    exact ⟨fun page => rfl, fun t ht => ht.elim, fun t ht => ht.elim, nofun, nofun⟩
  | step a _ hmay hstep ih => exact step_keeps_quiesce ih hmay hstep

/-- INTERNAL: that a `quiesce` returned is not forgotten. -/
theorem step_quiesced {s' : VolumeShared} {a : VolumeAct} (hstep : s.step a = some s')
    (h : s.quiesced = true) : s'.quiesced = true := by
  have hmove : ∀ t next at', (s.moveTo t next at').quiesced = true := by
    intro t next at'
    unfold VolumeShared.moveTo
    cases s.state.move next <;> exact h
  have hpersist : ∀ t next fault at' q, (s.persistTo t next fault at' q).quiesced = true := by
    intro t next fault at' q
    unfold VolumeShared.persistTo
    cases VolumeCoordinator.persist s.repositoryId s.epoch next s.stored fault with
    | mk result stored =>
      cases result with
      | error e => exact h
      | ok u =>
        change (s.quiesced || q) = true
        rw [h]
        rfl
  cases a with
  | dropLease page =>
    simp only [VolumeShared.step] at hstep
    split_ifs at hstep
    obtain rfl := Option.some.inj hstep
    unfold VolumeShared.dropReader
    cases s.readers.get page with
    | none => exact h
    | some count =>
      simp only
      split_ifs <;> exact h
  | beginRead | transition | quiesce =>
    simp only [VolumeShared.step] at hstep
    split_ifs at hstep <;> obtain rfl := Option.some.inj hstep <;>
      first | exact h | exact hmove _ _ _
  | timeout thread =>
    simp only [VolumeShared.step] at hstep
    split at hstep
    · split_ifs at hstep
      obtain rfl := Option.some.inj hstep
      exact h
    · cases hstep
  | drain thread =>
    simp only [VolumeShared.step] at hstep
    split at hstep
    · obtain rfl := Option.some.inj hstep
      split_ifs <;> exact h
    · cases hstep
  | register | persist | quiesceMove | quiescePersist | unmount =>
    simp only [VolumeShared.step] at hstep
    split at hstep <;> first
      | (cases hstep; done)
      | (obtain rfl := Option.some.inj hstep
         first | exact h | exact hmove _ _ _ | exact hpersist _ _ _ _ _)

/-- INTERNAL: in every run in which no reader stands between its check and its registration
when a `quiesce` finds no readers, and none leaves `Quiescing` for `Recovering` under it: once a
`quiesce` returned `Ok` from a mounted volume, there is no lease then or later.
SRCLINE: mirage-engine/src/volume.rs:194-255, 314-351 -/
theorem quiesce_excludes_readers {s : VolumeShared}
    (h : VolumeShared.Reaches VolumeShared.NoReaderBetween s) (hquiesced : s.quiesced = true)
    {s' : VolumeShared} (hlater : VolumeShared.Later VolumeShared.NoReaderBetween s s') :
    s'.leases = [] := by
  have hreached : VolumeShared.Reaches VolumeShared.NoReaderBetween s' ∧ s'.quiesced = true := by
    induction hlater with
    | refl => exact ⟨h, hquiesced⟩
    | step a _ hmay hstep ih => exact ⟨.step a ih.1 hmay hstep, step_quiesced hstep ih.2⟩
  exact ((reaches_quiesceInv hreached.1).quiesced hreached.2).2.leases

/-! ## Runs -/

/-- INTERNAL: a volume in its first term. -/
def firstTerm : VolumeShared :=
  .start ⟨0, 1, .starting⟩ (some ⟨ownerFormatVersion, 0, 1, .starting⟩)

/-- INTERNAL: what acts lead to. -/
def volumeRun (acts : List VolumeAct) (s : VolumeShared) : Option VolumeShared :=
  acts.foldlM VolumeShared.step s

/-- INTERNAL: the volume is mounted by thread `0`. -/
def mounting : List VolumeAct := [.transition 0 .mounted, .persist 0 .pass]

/-- INTERNAL: a `quiesce` of thread `0`, up to its look at the readers and behind it. -/
def closing : List VolumeAct := [.quiesce 0, .quiesceMove 0, .quiescePersist 0 .pass]

def unmounting : List VolumeAct := [.unmount 0, .quiescePersist 0 .pass]

/-- INTERNAL: acts that the condition says nothing about. -/
def freeAct : VolumeAct → Bool
  | .drain _ => false
  | .transition _ next => next ≠ .recovering
  | _ => true

theorem noReaderBetween_of_free {a : VolumeAct} (h : freeAct a = true) : s.NoReaderBetween a := by
  cases a with
  | drain thread => cases h
  | transition thread next => exact fun _ hnext => absurd hnext (of_decide_eq_true h)
  | _ => trivial

theorem reaches_of_run {may : VolumeShared → VolumeAct → Prop} {acts : List VolumeAct}
    {s' : VolumeShared} (h : VolumeShared.Reaches may s) (hrun : volumeRun acts s = some s')
    (hmay : ∀ s, ∀ a ∈ acts, may s a) : VolumeShared.Reaches may s' := by
  induction acts generalizing s with
  | nil =>
    obtain rfl := Option.some.inj hrun
    exact h
  | cons a acts ih =>
    obtain ⟨s₁, hstep, hrest⟩ := Option.bind_eq_some_iff.mp hrun
    exact ih (.step a h (hmay s a List.mem_cons_self) hstep) hrest
      fun s b hb => hmay s b (List.mem_cons_of_mem a hb)

theorem reaches_of_free {acts : List VolumeAct} {s' : VolumeShared}
    (h : VolumeShared.Reaches VolumeShared.NoReaderBetween s)
    (hrun : volumeRun acts s = some s') (hfree : ∀ a ∈ acts, freeAct a = true) :
    VolumeShared.Reaches VolumeShared.NoReaderBetween s' :=
  reaches_of_run h hrun fun _ a ha => noReaderBetween_of_free (hfree a ha)

/-- INTERNAL: a `quiesce` waits for the reader of page `7`, and a `begin_read` behind it is
refused. -/
theorem drained_volume_is_silent : ∃ waiting s s',
    volumeRun (mounting ++ [.beginRead 1 7, .register 1] ++ closing ++ [.drain 0]) firstTerm =
        some waiting ∧ waiting.leases = [7] ∧
      volumeRun ([.dropLease 7, .drain 0] ++ unmounting) waiting = some s ∧ s.quiesced = true ∧
      s.step (.beginRead 1 8) = some s' ∧ s'.threads 1 = .idle ∧ s'.leases = [] := by
  refine ⟨_, _, _, rfl, rfl, rfl, rfl, rfl, rfl, ?_⟩
  have hclosing : VolumeShared.Reaches VolumeShared.NoReaderBetween _ :=
    reaches_of_free (.start _ _) (rfl : volumeRun (mounting ++ [.beginRead 1 7, .register 1] ++
      closing) firstTerm = some _) (by decide)
  have hwaiting := VolumeShared.Reaches.step (.drain 0) hclosing (fun _ hno => by cases hno) rfl
  have hdropped := VolumeShared.Reaches.step (.dropLease 7) hwaiting trivial rfl
  have hdrained := VolumeShared.Reaches.step (.drain 0) hdropped (by
    rintro _ _ (_ | _ | other) page hno <;> cases hno) rfl
  have hended := reaches_of_free hdrained (rfl : volumeRun unmounting _ = some _) (by decide)
  exact quiesce_excludes_readers hended rfl (.step (.beginRead 1 8) .refl trivial rfl)

/-- INTERNAL: a reader passed its check before the `quiesce` and registers behind it. -/
theorem reader_registers_behind_quiesce : ∃ s,
    volumeRun (mounting ++ [.beginRead 1 7] ++ closing ++ [.drain 0] ++ unmounting ++
        [.register 1]) firstTerm = some s ∧
      VolumeShared.Reaches (fun _ _ => True) s ∧ s.quiesced = true ∧ s.leases = [7] := by
  refine ⟨_, rfl, ?_, rfl, rfl⟩
  exact reaches_of_run (.start _ _) (rfl : volumeRun (mounting ++ [.beginRead 1 7] ++ closing ++
    [.drain 0] ++ unmounting ++ [.register 1]) firstTerm = some _) fun _ _ _ => trivial

end Mirage.Analysis
