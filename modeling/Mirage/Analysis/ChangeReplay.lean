import Mirage.Computation.Bisect
import Mirage.Computation.Table
import Mirage.Interface.ReplayRun

/-!
# Replaying the remote change log

`changes_after` resumes behind the newest row under a cursor, whatever part of the rows under
that cursor the consumer has seen.  As long as no new row appears under the cursor of the last
change the consumer received, the newest row under it is that change, and each request brings
exactly the rows behind it.
-/

set_option autoImplicit false

namespace Mirage.Analysis

open Mirage.Model Mirage.Computation Mirage.Interface

variable {volumeId : RepositoryId} {s s₀ : ReplayState}

/-! ## One request -/

theorem maxSeq_eq_last {rows : ChangeLog} {row : RemoteChangeEntry}
    (h : (rows ++ [row]).Pairwise fun a b => a.entrySeq < b.entrySeq) :
    ChangeLog.maxSeq (rows ++ [row]) = some row.entrySeq := by
  unfold ChangeLog.maxSeq
  rw [List.max?_eq_some_iff]
  refine ⟨List.mem_map_of_mem (List.mem_append_right _ List.mem_cons_self), ?_⟩
  intro seq hseq
  obtain ⟨other, hother, rfl⟩ := List.mem_map.mp hseq
  rcases List.mem_append.mp hother with hbefore | hlast
  · exact le_of_lt ((List.pairwise_append.mp h).2.2 other hbefore row List.mem_cons_self)
  · rw [List.mem_singleton.mp hlast]

variable {done log rest : ChangeLog}

/-- INTERNAL: where the rows that were seen end and none of the others is under the cursor, the
rows behind its newest row are the others. -/
theorem changesAfter_eq {cursor : String} (hrows : log.ofVolume volumeId = done ++ rest)
    (hincreasing : (done ++ rest).Pairwise fun a b => a.entrySeq < b.entrySeq)
    (hpositive : ∀ row ∈ done ++ rest, 0 < row.entrySeq)
    (hlast : done = [] ∨ ∃ before row, done = before ++ [row] ∧ row.change.cursor = cursor)
    (hrest : ∀ row ∈ rest, row.change.cursor ≠ cursor) :
    log.changesAfter volumeId cursor = rest.map RemoteChangeEntry.change := by
  obtain ⟨hdone, hbehind, hacross⟩ := List.pairwise_append.mp hincreasing
  have hunder : rest.filter (fun row => row.change.cursor = cursor) = [] := by
    rw [List.filter_eq_nil_iff]
    intro row hrow
    simpa using hrest row hrow
  have hnewest : (∀ row ∈ done, row.entrySeq ≤ log.newestUnder volumeId cursor) ∧
      ∀ row ∈ rest, log.newestUnder volumeId cursor < row.entrySeq := by
    unfold ChangeLog.newestUnder
    rw [hrows, List.filter_append, hunder, List.append_nil]
    rcases hlast with rfl | ⟨before, row, rfl, hcursor⟩
    · exact ⟨fun _ hrow => absurd hrow List.not_mem_nil, fun row hrow => hpositive row hrow⟩
    · have hfilter : (before ++ [row]).filter (fun row => row.change.cursor = cursor) =
          before.filter (fun row => row.change.cursor = cursor) ++ [row] :=
        filter_append_self (fun row : RemoteChangeEntry => row.change.cursor = cursor) hcursor
          before
      have hsorted := List.Pairwise.sublist
        (List.Sublist.append (List.filter_sublist (p := fun row : RemoteChangeEntry =>
          decide (row.change.cursor = cursor))) (List.Sublist.refl [row])) hdone
      rw [hfilter, maxSeq_eq_last hsorted, Option.getD_some]
      refine ⟨?_, fun other hother => hacross row (List.mem_append_right _ List.mem_cons_self)
        other hother⟩
      intro other hother
      rcases List.mem_append.mp hother with hother | hother
      · exact le_of_lt ((List.pairwise_append.mp hdone).2.2 other hother row List.mem_cons_self)
      · rw [List.mem_singleton.mp hother]
  have hfilter : (log.ofVolume volumeId).filter
      (fun row => log.newestUnder volumeId cursor < row.entrySeq) = rest := by
    rw [hrows, List.filter_append, List.filter_eq_nil_iff.mpr, List.nil_append,
      List.filter_eq_self.mpr]
    · intro row hrow
      exact decide_eq_true (hnewest.2 row hrow)
    · intro row hrow
      simpa using hnewest.1 row hrow
  unfold ChangeLog.changesAfter
  rw [hfilter, insertionSort_eq_of_perm RemoteChangeEntry.entrySeq hbehind (List.Perm.refl rest)]

/-! ## Records -/

theorem entrySeq_lt_nextSeq {row : RemoteChangeEntry} (h : row ∈ log.ofVolume volumeId) :
    row.entrySeq < log.nextSeq volumeId := by
  unfold ChangeLog.nextSeq
  cases hmax : (log.ofVolume volumeId).maxSeq with
  | none =>
    have hempty := List.max?_eq_none_iff.mp hmax
    rw [List.map_eq_nil_iff] at hempty
    rw [hempty] at h
    cases h
  | some seq =>
    have hle := (List.max?_eq_some_iff.mp hmax).2 row.entrySeq (List.mem_map_of_mem h)
    exact Int.lt_add_one_iff.mpr hle

theorem nextSeq_positive (h : ∀ row ∈ log.ofVolume volumeId, 0 < row.entrySeq) :
    0 < log.nextSeq volumeId := by
  unfold ChangeLog.nextSeq
  cases hmax : (log.ofVolume volumeId).maxSeq with
  | none => exact Int.one_pos
  | some seq =>
    obtain ⟨row, hrow, rfl⟩ := List.mem_map.mp (List.max?_eq_some_iff.mp hmax).1
    exact Int.add_pos (h row hrow) Int.one_pos

/-- INTERNAL: a record adds at most one row, behind the rows of its volume. -/
theorem recordChange_cases {log' : ChangeLog} {change : RemoteChange}
    (h : log.recordChange change = .ok log') :
    log' = log ∨ log.recorded change = false ∧
      log' = log ++ [⟨log.nextSeq change.volumeId, change⟩] := by
  unfold ChangeLog.recordChange at h
  split_ifs at h with hwide hrecorded
  · exact .inl (Except.ok.inj h).symm
  · exact .inr ⟨Bool.not_eq_true _ ▸ hrecorded, (Except.ok.inj h).symm⟩

/-! ## Runs -/

/-- INTERNAL: the consumer has seen the first rows of the volume, and none of the others is
under its cursor. -/
structure Keeping (volumeId : RepositoryId) (s : ReplayState) (done rest : ChangeLog) : Prop where
  rows : s.log.ofVolume volumeId = done ++ rest
  increasing : (done ++ rest).Pairwise fun a b => a.entrySeq < b.entrySeq
  positive : ∀ row ∈ done ++ rest, 0 < row.entrySeq
  received : s.received = done.map RemoteChangeEntry.change
  apart : ∀ row ∈ rest, row.change.cursor ≠ s.cursor

theorem Keeping.last (h : Keeping volumeId s done rest) :
    done = [] ∨ ∃ before row, done = before ++ [row] ∧ row.change.cursor = s.cursor := by
  rcases List.eq_nil_or_concat done with hnil | ⟨before, row, hconcat⟩
  · exact .inl hnil
  · have hdone : done = before ++ [row] := hconcat.trans List.concat_eq_append
    refine .inr ⟨before, row, hdone, ?_⟩
    unfold ReplayState.cursor
    rw [h.received, hdone]
    simp

theorem Keeping.changesAfter (h : Keeping volumeId s done rest) :
    s.log.changesAfter volumeId s.cursor = rest.map RemoteChangeEntry.change :=
  changesAfter_eq h.rows h.increasing h.positive h.last h.apart

theorem Keeping.replayed (h : Keeping volumeId s done rest) : ReplayedOnce volumeId s := by
  have hrecorded : s.recorded volumeId =
      done.map RemoteChangeEntry.change ++ rest.map RemoteChangeEntry.change := by
    unfold ReplayState.recorded
    rw [h.rows, List.map_append]
  refine ⟨?_, ?_⟩
  · rw [h.received, hrecorded]
    exact List.prefix_append _ _
  · unfold ReplayState.poll
    rw [h.changesAfter, h.received, hrecorded]

theorem Keeping.poll (h : Keeping volumeId s done rest) :
    Keeping volumeId (s.poll volumeId) (done ++ rest) [] := by
  refine ⟨?_, ?_, ?_, ?_, fun _ hrow => absurd hrow List.not_mem_nil⟩
  · rw [List.append_nil]
    exact h.rows
  · rw [List.append_nil]
    exact h.increasing
  · rw [List.append_nil]
    exact h.positive
  · unfold ReplayState.poll
    rw [h.changesAfter, h.received, List.map_append]

theorem Keeping.record {change : RemoteChange} (h : Keeping volumeId s done rest)
    (happart : ApartFrom volumeId s change) (hok : s.log.recordChange change = .ok log) :
    ∃ rest', Keeping volumeId { s with log := log } done rest' := by
  rcases recordChange_cases hok with rfl | ⟨hnew, rfl⟩
  · exact ⟨rest, h⟩
  by_cases hvolume : change.volumeId = volumeId
  · refine ⟨rest ++ [⟨s.log.nextSeq change.volumeId, change⟩], ?_, ?_, ?_, h.received, ?_⟩
    · rw [← List.append_assoc, ← h.rows]
      exact filter_append_self (fun row : RemoteChangeEntry => row.change.volumeId = volumeId)
        hvolume s.log
    · rw [← List.append_assoc, List.pairwise_append]
      refine ⟨h.increasing, List.pairwise_singleton _ _, ?_⟩
      intro row hrow new hnew
      rw [← h.rows] at hrow
      rw [List.mem_singleton.mp hnew, hvolume]
      exact entrySeq_lt_nextSeq hrow
    · intro row hrow
      rw [← List.append_assoc] at hrow
      rcases List.mem_append.mp hrow with hold | hnew
      · exact h.positive row hold
      · rw [List.mem_singleton.mp hnew, hvolume]
        refine nextSeq_positive fun row hrow => ?_
        rw [h.rows] at hrow
        exact h.positive row hrow
    · intro row hrow
      rcases List.mem_append.mp hrow with hold | hlast
      · exact h.apart row hold
      · rw [List.mem_singleton.mp hlast]
        intro hcursor
        have hrecorded := happart hvolume hcursor
        rw [hnew] at hrecorded
        cases hrecorded
  · refine ⟨rest, ?_, h.increasing, h.positive, h.received, h.apart⟩
    rw [← h.rows]
    exact filter_append_other (fun row : RemoteChangeEntry => row.change.volumeId = volumeId)
      hvolume s.log

theorem replay_keeping (hstart : ReplayStart volumeId s₀)
    (run : ReplayReaches volumeId (ApartFrom volumeId) s₀ s) :
    ∃ done rest, Keeping volumeId s done rest := by
  induction run with
  | start =>
    refine ⟨[], _, rfl, hstart.increasing, hstart.positive, hstart.received, ?_⟩
    intro row hrow
    unfold ReplayState.cursor
    rw [hstart.received]
    exact hstart.unused row hrow
  | record _ _ happart hok ih =>
    obtain ⟨done, rest, hkeeping⟩ := ih
    obtain ⟨rest', hkeeping'⟩ := hkeeping.record happart hok
    exact ⟨done, rest', hkeeping'⟩
  | poll _ ih =>
    obtain ⟨done, rest, hkeeping⟩ := ih
    exact ⟨done ++ rest, [], hkeeping.poll⟩

/-- INTERNAL: where no new change is recorded under the cursor the consumer stands at, the
consumer receives every recorded change exactly once, in the order of recording.
SRCLINE: mirage-db/src/remote_observation.rs:92-163 -/
theorem changes_replayed_once (hstart : ReplayStart volumeId s₀)
    (run : ReplayReaches volumeId (ApartFrom volumeId) s₀ s) : ReplayedOnce volumeId s := by
  obtain ⟨done, rest, hkeeping⟩ := replay_keeping hstart run
  exact hkeeping.replayed

/-- INTERNAL: a change of a page with the cursor `p`. -/
def pageChange (payload : UInt8) : RemoteChange := ⟨0, "p", "modified", [payload], 0⟩

/-- INTERNAL: nothing recorded, nothing received. -/
def emptyReplay : ReplayState := ⟨[], []⟩

theorem emptyReplay_start : ReplayStart 0 emptyReplay where
  increasing := List.Pairwise.nil
  positive := nofun
  unused := nofun
  received := rfl

/-- INTERNAL: two changes are recorded and then read in one poll. -/
theorem whole_page_replayed :
    ReplayStart 0 emptyReplay ∧
      ReplayedOnce 0 ⟨[⟨1, pageChange 1⟩, ⟨2, pageChange 2⟩], [pageChange 1, pageChange 2]⟩ := by
  refine ⟨emptyReplay_start, changes_replayed_once emptyReplay_start ?_⟩
  have hfirst : ReplayReaches 0 (ApartFrom 0) emptyReplay ⟨[⟨1, pageChange 1⟩], []⟩ := by
    refine .record .start (pageChange 1) ?_ rfl
    intro _ hcursor
    exact absurd hcursor (by decide)
  have hsecond : ReplayReaches 0 (ApartFrom 0) emptyReplay
      ⟨[⟨1, pageChange 1⟩, ⟨2, pageChange 2⟩], []⟩ := by
    refine .record hfirst (pageChange 2) ?_ rfl
    intro _ hcursor
    exact absurd hcursor (by decide)
  exact .poll hsecond

/-- INTERNAL: the consumer reads after the first change of a page; the second one, recorded
afterwards under the same cursor, never reaches it. -/
theorem half_page_skipped :
    ReplayStart 0 emptyReplay ∧
      ∃ s, ReplayReaches 0 (fun _ _ => True) emptyReplay s ∧ ¬ ReplayedOnce 0 s ∧
        s.recorded 0 = [pageChange 1, pageChange 2] ∧ s.received = [pageChange 1] ∧
        s.poll 0 = s := by
  refine ⟨emptyReplay_start, ⟨[⟨1, pageChange 1⟩, ⟨2, pageChange 2⟩], [pageChange 1]⟩, ?_,
    by decide, by decide, rfl, by decide⟩
  have hfirst : ReplayReaches 0 (fun _ _ => True) emptyReplay ⟨[⟨1, pageChange 1⟩], []⟩ :=
    .record .start (pageChange 1) trivial rfl
  have hread : ReplayReaches 0 (fun _ _ => True) emptyReplay
      ⟨[⟨1, pageChange 1⟩], [pageChange 1]⟩ := .poll hfirst
  exact .record hread (pageChange 2) trivial rfl

end Mirage.Analysis
