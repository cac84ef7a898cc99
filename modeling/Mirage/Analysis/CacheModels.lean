import Mirage.Analysis.DiskBooks

/-!
# Two models of the disk cache

The runs of cleanups and the runs of the cache each have a model of `cache.rs`: a program of calls
that may be cut between any two, and a program over the cache and its directory.  Where no call
fails and nothing is cut, they leave the same files and the same cache.
-/

set_option autoImplicit false

namespace Mirage.Analysis

open Mirage.Model Mirage.Interface Mirage.Computation Mirage.Computation.Effect
open Mirage.Model.SophonDisk

variable {d : ChunkDir} {disk : DiskCache} {s : DiskState} {key : ChunkKey} {hash : HashOrder}

/-- INTERNAL: a whole run of a program of calls, none of which fails. -/
def uncut {α : Type} (x : Cleaning α) (d : ChunkDir) : Except MirageStatus α × ChunkDir :=
  answered (ChunkDir.perform none) x.run d

/-- INTERNAL: the two models are at the same files and the same cache, and no call fails. -/
structure Agrees (d : ChunkDir) (disk : DiskCache) (s : DiskState) : Prop where
  files : d.chunks = s.files
  cache : disk = s.disk.toDiskCache
  quiet : ∀ n, s.faults n = none

theorem uncut_bind {α β : Type} {x : Cleaning α} {f : α → Cleaning β} {a : α} {d' : ChunkDir}
    (h : uncut x d = (.ok a, d')) : uncut (x >>= f) d = uncut (f a) d' :=
  answered_bind_ok h

theorem uncut_remove (d : ChunkDir) (disk : DiskCache) (key : ChunkKey) :
    uncut (disk.remove key) d = (.ok ((d.removeFile (filename key)).1.map fun _ => disk.forget key),
      (d.removeFile (filename key)).2) := by
  have hcall : uncut (Calls.attempt (.removeFile (filename key)) : Cleaning _) d =
      (.ok (d.removeFile (filename key)).1, (d.removeFile (filename key)).2) := rfl
  rw [DiskCache.remove, uncut_bind hcall]
  cases (d.removeFile (filename key)).1 <;> rfl

theorem outcome_quiet (h : ∀ n, s.faults n = none) :
    outcome ioCall s = (.ok (), { s with calls := s.calls + 1 }) := by
  unfold ioCall
  rw [outcome_bind]
  change outcome (_ >>= _) s = _
  rw [outcome_bind]
  dsimp only [outcome, change]
  rw [h]
  rfl

theorem ends_quiet {Q : Unit → DiskState → Prop} {E : MirageStatus → DiskState → Prop}
    (h : ∀ n, s.faults n = none) (hQ : Q () { s with calls := s.calls + 1 }) :
    Ends ioCall Q E s := by
  unfold Ends
  rw [outcome_quiet h]
  exact hQ

theorem removal_agrees (h : Agrees d disk s) (key : ChunkKey) :
    Ends (SophonDisk.remove key)
      (fun _ s' => (d.removeFile (filename key)).1 = .ok () ∧
        Agrees (d.removeFile (filename key)).2 (disk.forget key) s')
      (fun status s' => (d.removeFile (filename key)).1 = .error status ∧
        Agrees (d.removeFile (filename key)).2 disk s') s := by
  unfold SophonDisk.remove SophonDisk.removeFile ChunkDir.removeFile
  rw [ends_bind]
  refine ends_quiet h.quiet ?_
  rw [ends_bind, ends_bind]
  refine ends_quiet h.quiet ?_
  rw [ends_bind, ends_state, h.files]
  unfold blocked
  split_ifs with hblocked
  · exact ends_throw.mpr ⟨rfl, h.files, h.cache, h.quiet⟩
  · rw [ends_change, ends_change]
    exact ⟨rfl, rfl, congrArg (DiskCache.forget · key) h.cache, h.quiet⟩

/-- INTERNAL: removals up to the first failure.
SRCLINE: mirage-ffi/src/sophon/cache.rs:141-171 -/
theorem removals_agree (h : Agrees d disk s) (keys : List ChunkKey) :
    ∃ left result d', uncut (disk.removeAll keys) d = (.ok (left, result), d') ∧
      (outcome (keys.forM SophonDisk.remove) s).1 = result ∧
        Agrees d' left (outcome (keys.forM SophonDisk.remove) s).2 := by
  induction keys generalizing d disk s with
  | nil => exact ⟨disk, .ok (), d, rfl, rfl, h⟩
  | cons key rest ih =>
    rw [DiskCache.removeAll, List.forM]
    rw [uncut_bind (uncut_remove d disk key), outcome_bind]
    have hremoved := removal_agrees h key
    unfold Ends at hremoved
    generalize outcome (SophonDisk.remove key) s = ended at hremoved
    obtain ⟨result, s'⟩ := ended
    cases result with
    | ok _ =>
      rw [hremoved.1]
      exact ih hremoved.2
    | error status =>
      rw [hremoved.1]
      exact ⟨disk, .error status, _, rfl, rfl, hremoved.2⟩

/-- INTERNAL: `clear_except` of both models.
SRCLINE: mirage-ffi/src/sophon/cache.rs:141-156 -/
theorem clearExcept_agrees (h : Agrees d disk s) (hash : HashOrder) (retain : List ChunkKey) :
    ∃ left result d', uncut (disk.clearExcept hash retain) d = (.ok (left, result), d') ∧
      (outcome (SophonDisk.clearExcept hash retain) s).1 =
        result.map (fun _ => disk.used - left.used) ∧
        Agrees d' left (outcome (SophonDisk.clearExcept hash retain) s).2 := by
  obtain ⟨left, result, d', huncut, hresult, hagrees⟩ := removals_agree h
    ((hash.order disk.entries.keys).filter fun key => key ∉ retain)
  refine ⟨left, result, d', huncut, ?_⟩
  have hcache := h.cache
  subst hcache
  unfold SophonDisk.clearExcept
  rw [outcome_bind]
  change (outcome (_ >>= _) s).1 = _ ∧ Agrees d' left (outcome (_ >>= _) s).2
  rw [outcome_bind]
  generalize outcome (List.forM _ SophonDisk.remove) s = ended at hresult hagrees
  obtain ⟨ended, s'⟩ := ended
  dsimp only at hresult hagrees
  subst hresult
  cases ended with
  | ok _ =>
    have hleft := hagrees.cache
    subst hleft
    exact ⟨rfl, hagrees⟩
  | error status => exact ⟨rfl, hagrees⟩

/-- INTERNAL: a call of each model ends with the same status, files and cache. -/
structure EndsAlike (ended : Except MirageStatus DiskCache × ChunkDir)
    (ended' : Except MirageStatus Unit × DiskState) : Prop where
  result : ended'.1 = ended.1.map fun _ => ()
  files : ended.2.chunks = ended'.2.files
  cache : ∀ disk, ended.1 = .ok disk → disk = ended'.2.disk.toDiskCache

theorem forget_fewer (h : disk.oldest hash = some key) :
    (disk.forget key).entries.size < disk.entries.size := by
  obtain ⟨-, entry, hentry⟩ := oldest_some h
  unfold DiskCache.forget
  rw [hentry]
  exact List.length_filter_lt_length_iff_exists.mpr
    ⟨(key, entry), Table.mem_of_get hentry, by simp⟩

/-- INTERNAL: the rounds of `make_room`, of which there are more than entries.
SRCLINE: mirage-ffi/src/sophon/cache.rs:172-186 -/
theorem rounds_agree (needed : Nat) {rounds : Nat} (h : Agrees d disk s)
    (hrounds : disk.entries.size < rounds) :
    EndsAlike (uncut (disk.makeRoom hash needed rounds) d)
      (outcome (makeRoomRounds hash needed rounds) s) := by
  induction rounds generalizing d disk s with
  | zero => exact absurd hrounds (Nat.not_lt_zero _)
  | succ rounds ih =>
    have hcache := h.cache
    subst hcache
    unfold DiskCache.makeRoom makeRoomRounds
    rw [outcome_bind]
    dsimp only [outcome, state]
    change EndsAlike _ (outcome _ s)
    split_ifs with hroom
    · exact ⟨rfl, h.files, fun _ hdisk => (Except.ok.inj hdisk).symm⟩
    · cases holdest : s.disk.toDiskCache.oldest hash with
      | none => exact ⟨rfl, h.files, fun _ hdisk => by cases hdisk⟩
      | some key =>
        dsimp only
        rw [uncut_bind (uncut_remove d _ key), outcome_bind]
        have hremoved := removal_agrees h key
        unfold Ends at hremoved
        generalize outcome (SophonDisk.remove key) s = ended at hremoved
        obtain ⟨result, s'⟩ := ended
        cases result with
        | ok _ =>
          rw [hremoved.1]
          exact ih hremoved.2
            (Nat.lt_of_lt_of_le (forget_fewer holdest) (Nat.le_of_lt_succ hrounds))
        | error status =>
          rw [hremoved.1]
          exact ⟨rfl, hremoved.2.files, fun _ hdisk => by cases hdisk⟩

/-- INTERNAL: opening the cache.
SRCLINE: mirage-ffi/src/sophon/cache.rs:74-118 -/
theorem open_agrees (hash : HashOrder) (budget unit : Nat) (hfiles : d.chunks = s.files)
    (hquiet : ∀ n, s.faults n = none) :
    EndsAlike (uncut (DiskCache.openDisk hash budget) d)
      (outcome (SophonDisk.openCache hash budget unit) s) := by
  have hcall : ∀ f : List ChunkFile → Cleaning DiskCache, uncut (Cleaning.call .readDir >>= f) d =
      answered (ChunkDir.perform none) (ExceptT.bindCont f d.readDir) d := fun _ => rfl
  unfold DiskCache.openDisk SophonDisk.openCache
  rw [hcall, outcome_bind, outcome_quiet hquiet]
  dsimp only
  rw [outcome_bind]
  unfold ChunkDir.readDir
  rw [hfiles]
  change EndsAlike _ (outcome (if _ then _ else _) _)
  split_ifs with hlink
  · exact ⟨rfl, hfiles, fun _ hdisk => by cases hdisk⟩
  · change EndsAlike (uncut (Calls.compute (DiskCache.ofFiles budget s.files) >>= _) d) _
    cases hdisk : DiskCache.ofFiles budget s.files with
    | error status => exact ⟨rfl, hfiles, fun _ hdisk => by cases hdisk⟩
    | ok disk =>
      dsimp only
      rw [outcome_bind, outcome_quiet (s := { s with calls := s.calls + 1 }) hquiet]
      exact rounds_agree 0 ⟨hfiles, rfl, hquiet⟩ (Nat.lt_succ_self _)

end Mirage.Analysis
