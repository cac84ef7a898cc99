import Mirage.Computation.Checks
import Mirage.Interface.SessionRun

/-!
# Leases of ended sessions

Only `finish` takes leases away, and it does so in the step that completes the session.  A
session that another request ends keeps its leases and its live processes, and `finish` refuses it
or changes nothing afterwards; where that does not happen to a session without live processes,
ended sessions without them hold no lease and open ones hold those they were created with.
-/

set_option autoImplicit false

namespace Mirage.Analysis

open Mirage.Model Mirage.Computation Mirage.Interface

/-! ## The state machine -/

variable {actual next : SessionState} {sessionId : SessionId}

theorem transitionSession_open {event : SessionEvent}
    (h : transitionSession actual event = some next) : isTerminal actual = false := by
  revert h
  cases actual <;> cases event <;> decide +revert

theorem transitionSession_ends {event : SessionEvent}
    (h : transitionSession actual event = some next) (hends : isTerminal next = true) :
    event = .processesExited ∨ event = .sealViolated ∨ event = .abortRequested := by
  revert h hends
  cases actual <;> cases event <;> decide +revert

theorem processesExited_completes (h : transitionSession actual .processesExited = some next) :
    next = .completed := by
  revert h
  cases actual <;> decide +revert

theorem violatedFrom_violates (h : violatedFrom actual = some next) : next = .violated := by
  revert h
  cases actual <;> decide +revert

/-! ## Rows -/

section Rows

variable {db : SessionDb} {sessionId other : SessionId}

theorem session_some {row : SessionRow} (h : db.session sessionId = some row) :
    row ∈ db.sessions ∧ row.sessionId = sessionId :=
  ⟨List.mem_of_find?_eq_some h, by simpa using List.find?_some h⟩

/-- INTERNAL: a row behind an update is an old row, changed if it is of the session. -/
theorem mem_updateSession {f : SessionRow → SessionRow} {row : SessionRow}
    (h : row ∈ (db.updateSession sessionId f).sessions) :
    ∃ old ∈ db.sessions, (old.sessionId = sessionId ∧ row = f old) ∨
      (old.sessionId ≠ sessionId ∧ row = old) := by
  obtain ⟨old, hold, rfl⟩ := List.mem_map.mp h
  refine ⟨old, hold, ?_⟩
  by_cases hid : old.sessionId = sessionId
  · exact .inl ⟨hid, if_pos hid⟩
  · exact .inr ⟨hid, if_neg hid⟩

theorem map_sessionId_updateSession (sessionId : SessionId) {f : SessionRow → SessionRow}
    (hf : ∀ row, (f row).sessionId = row.sessionId) :
    (db.updateSession sessionId f).sessions.map SessionRow.sessionId =
      db.sessions.map SessionRow.sessionId := by
  unfold SessionDb.updateSession
  rw [List.map_map]
  refine List.map_congr_left fun row _ => ?_
  rw [Function.comp_apply]
  split_ifs with hid
  · exact hf row
  · rfl

theorem leasesOf_append_self (leases : List LeaseSpec) (h : db.leasesOf sessionId = []) :
    SessionDb.leasesOf
        { db with leases := db.leases ++ leases.map fun lease => ⟨sessionId, lease⟩ } sessionId =
      leases := by
  unfold SessionDb.leasesOf at h ⊢
  rw [List.filter_append, List.map_append, h, List.nil_append, List.filter_eq_self.mpr]
  · rw [List.map_map]
    exact List.map_id' leases
  · intro row hrow
    obtain ⟨lease, -, rfl⟩ := List.mem_map.mp hrow
    exact decide_eq_true rfl

theorem leasesOf_append_other (leases : List LeaseSpec) (h : other ≠ sessionId) :
    SessionDb.leasesOf
        { db with leases := db.leases ++ leases.map fun lease => ⟨sessionId, lease⟩ } other =
      db.leasesOf other := by
  unfold SessionDb.leasesOf
  rw [List.filter_append, (List.filter_eq_nil_iff (l := leases.map _)).mpr, List.append_nil]
  intro row hrow
  obtain ⟨lease, -, rfl⟩ := List.mem_map.mp hrow
  simpa using h.symm

end Rows

/-! ## What a request does -/

section Requests

variable {db db' : SessionDb} {sessionId : SessionId}

theorem createWithLeases_ok {session : NewSealedSession} {leases : List LeaseSpec}
    (h : createWithLeases session db = .ok (leases, db')) :
    (∀ row ∈ db.sessions, row.sessionId ≠ session.sessionId) ∧
      db.leasesOf session.sessionId = [] ∧
      ∃ row, row.sessionId = session.sessionId ∧ row.state = .verifying ∧
        db' = { db with
          sessions := db.sessions ++ [row]
          leases := db.leases ++ leases.map fun lease => ⟨session.sessionId, lease⟩ } := by
  unfold createWithLeases at h
  obtain ⟨unique, -, h⟩ := Txn.lift_bind_ok.mp h
  obtain ⟨-, h⟩ := Txn.demand_bind_ok.mp h
  obtain ⟨-, h⟩ := Txn.demand_bind_ok.mp h
  rw [Txn.get_bind] at h
  obtain ⟨-, h⟩ := Txn.demand_bind_ok.mp h
  obtain ⟨hsessions, h⟩ := Txn.demand_bind_ok.mp h
  obtain ⟨hleases, h⟩ := Txn.demand_bind_ok.mp h
  obtain ⟨_, _, hmodify, hpure⟩ := Txn.bind_ok.mp h
  cases Txn.modify_ok.mp hmodify
  cases Txn.pure_ok.mp hpure
  refine ⟨by simpa using hsessions, ?_, _, rfl, rfl, rfl⟩
  unfold SessionDb.leasesOf
  rw [List.map_eq_nil_iff, List.filter_eq_nil_iff]
  simpa using hleases

theorem loadState_ok {r : SessionState × SessionDb} (h : loadState sessionId db = .ok r) :
    ∃ row, db.session sessionId = some row ∧ r = (row.state, db) := by
  unfold loadState at h
  rw [Txn.get_bind] at h
  obtain ⟨row, hrow, hpure⟩ := Txn.orFail_bind_ok.mp h
  exact ⟨row, hrow, Txn.pure_ok.mp hpure⟩

theorem recordProcess_ok {processId : Nat} {startedAtNs : Int} {r : Unit × SessionDb}
    (h : recordProcess sessionId processId startedAtNs db = .ok r) :
    ∃ added, r.2 = { db with processes := db.processes ++ added } := by
  unfold recordProcess at h
  obtain ⟨-, h⟩ := Txn.demand_bind_ok.mp h
  rw [Txn.get_bind] at h
  obtain ⟨_, m, hsame, honly⟩ := Txn.bind_ok.mp h
  have hm : m = db := by
    rcases Txn.forSome_ok.mp hsame with ⟨row, -, hdemand⟩ | ⟨-, hr⟩
    · exact congrArg Prod.snd (Txn.demand_ok.mp hdemand).2
    · exact congrArg Prod.snd hr
  subst hm
  rcases Txn.onlyIf_ok.mp honly with ⟨-, hinsert⟩ | ⟨-, rfl⟩
  · obtain ⟨-, hmodify⟩ := Txn.demand_bind_ok.mp hinsert
    rw [Txn.modify_ok.mp hmodify]
    exact ⟨_, rfl⟩
  · exact ⟨[], by rw [List.append_nil]⟩

theorem transitionState_ok {expected next : SessionState} {event : SessionEvent}
    (h : transitionState sessionId expected event db = .ok (next, db')) :
    ∃ row, db.session sessionId = some row ∧ transitionSession row.state event = some next ∧
      db' = db.updateSession sessionId fun row => { row with state := next } := by
  unfold transitionState at h
  obtain ⟨_, _, hload, h⟩ := Txn.bind_ok.mp h
  obtain ⟨row, hrow, hr⟩ := loadState_ok hload
  cases hr
  obtain ⟨-, h⟩ := Txn.demand_bind_ok.mp h
  obtain ⟨state, hnext, h⟩ := Txn.orFail_bind_ok.mp h
  rw [Txn.get_bind] at h
  obtain ⟨-, h⟩ := Txn.demand_bind_ok.mp h
  obtain ⟨_, _, hmodify, hpure⟩ := Txn.bind_ok.mp h
  cases Txn.modify_ok.mp hmodify
  cases Txn.pure_ok.mp hpure
  exact ⟨row, hrow, hnext, rfl⟩

theorem markViolation_ok {summary : NameText} {count : Nat}
    (h : markViolation sessionId summary db = .ok (count, db')) :
    ∃ f : SessionRow → SessionRow, db' = db.updateSession sessionId f ∧
      ∀ row, (f row).sessionId = row.sessionId ∧ (f row).state = .violated := by
  unfold markViolation at h
  obtain ⟨_, -, h⟩ := Txn.lift_bind_ok.mp h
  obtain ⟨_, _, hload, h⟩ := Txn.bind_ok.mp h
  obtain ⟨row, -, hr⟩ := loadState_ok hload
  cases hr
  obtain ⟨next, hnext, h⟩ := Txn.orFail_bind_ok.mp h
  replace h := Txn.modify_bind_ok.mp h
  rw [Txn.get_bind] at h
  obtain ⟨_, -, hpure⟩ := Txn.orFail_bind_ok.mp h
  cases Txn.pure_ok.mp hpure
  exact ⟨_, rfl, fun _ => ⟨rfl, violatedFrom_violates hnext⟩⟩

theorem finishSession_ok {supplied : List Nat} {endedAtNs : Int} {r : Unit × SessionDb}
    (h : finishSession sessionId supplied endedAtNs db = .ok r) :
    r.2 = db ∨ r.2 = closeSession sessionId .completed endedAtNs db := by
  unfold finishSession at h
  obtain ⟨_, _, hload, h⟩ := Txn.bind_ok.mp h
  obtain ⟨row, -, hr⟩ := loadState_ok hload
  cases hr
  rcases Txn.onlyIf_ok.mp h with ⟨-, hopen⟩ | ⟨-, rfl⟩
  · unfold finishOpen at hopen
    rw [Txn.get_bind] at hopen
    obtain ⟨-, hopen⟩ := Txn.demand_bind_ok.mp hopen
    obtain ⟨next, hnext, hmodify⟩ := Txn.orFail_bind_ok.mp hopen
    rw [Txn.modify_ok.mp hmodify, processesExited_completes hnext]
    exact .inr rfl
  · exact .inl rfl

/-- INTERNAL: `finish` refuses a session that was violated or aborted. -/
theorem finishSession_refuses {row : SessionRow} (hrow : db.session sessionId = some row)
    (hstate : row.state = .violated ∨ row.state = .aborted) (supplied : List Nat)
    (endedAtNs : Int) (r : Unit × SessionDb) :
    finishSession sessionId supplied endedAtNs db ≠ .ok r := by
  intro h
  unfold finishSession at h
  obtain ⟨_, _, hload, h⟩ := Txn.bind_ok.mp h
  obtain ⟨row', hrow', hr⟩ := loadState_ok hload
  rw [hrow] at hrow'
  cases hrow'
  cases hr
  rcases Txn.onlyIf_ok.mp h with ⟨-, hopen⟩ | ⟨hcompleted, -⟩
  · unfold finishOpen at hopen
    rw [Txn.get_bind] at hopen
    obtain ⟨-, hopen⟩ := Txn.demand_bind_ok.mp hopen
    obtain ⟨next, hnext, -⟩ := Txn.orFail_bind_ok.mp hopen
    rcases hstate with hstate | hstate <;> rw [hstate] at hnext <;> cases hnext
  · rcases hstate with hstate | hstate <;> rw [hstate] at hcompleted <;> cases hcompleted

end Requests

/-! ## Runs -/

/-- INTERNAL: the key of the sessions, and where their leases are. -/
structure LeaseState (s : SessionStore) : Prop where
  keys : (s.db.sessions.map SessionRow.sessionId).Nodup
  ended : ∀ row ∈ s.db.sessions, isTerminal row.state = true →
    SessionDb.Endable s.db row.sessionId
  kept : ∀ row ∈ s.db.sessions, isTerminal row.state = false →
    s.db.leasesOf row.sessionId = s.created row.sessionId

variable {s s' : SessionStore}

theorem LeaseState.row_eq (h : LeaseState s) {row other : SessionRow}
    (hrow : s.db.session sessionId = some row) (hother : other ∈ s.db.sessions)
    (hid : other.sessionId = sessionId) : other = row := by
  obtain ⟨hmem, hrowid⟩ := session_some hrow
  exact List.inj_on_of_nodup_map h.keys hother hmem (hid.trans hrowid.symm)

/-- INTERNAL: an update of one session's row that never opens it again. -/
theorem LeaseState.update {f : SessionRow → SessionRow} (h : LeaseState s)
    (hid : ∀ row, (f row).sessionId = row.sessionId)
    (hended : ∀ row ∈ s.db.sessions, row.sessionId = sessionId → isTerminal (f row).state = true →
      SessionDb.Endable s.db sessionId)
    (hkept : ∀ row ∈ s.db.sessions, row.sessionId = sessionId → isTerminal (f row).state = false →
      isTerminal row.state = false) :
    LeaseState { s with db := s.db.updateSession sessionId f } := by
  refine ⟨?_, ?_, ?_⟩
  · rw [map_sessionId_updateSession _ hid]
    exact h.keys
  · intro row hrow hterminal
    obtain ⟨old, hold, ⟨hold_id, rfl⟩ | ⟨-, rfl⟩⟩ := mem_updateSession hrow
    · rw [hid, hold_id]
      exact hended old hold hold_id hterminal
    · exact h.ended row hold hterminal
  · intro row hrow hopen
    obtain ⟨old, hold, ⟨hold_id, rfl⟩ | ⟨-, rfl⟩⟩ := mem_updateSession hrow
    · rw [hid]
      exact h.kept old hold (hkept old hold hold_id hopen)
    · exact h.kept row hold hopen

theorem LeaseState.create {session : NewSealedSession} {leases : List LeaseSpec} {db' : SessionDb}
    (h : LeaseState s) (hok : createWithLeases session s.db = .ok (leases, db')) :
    LeaseState ⟨db', fun id => if id = session.sessionId then leases else s.created id⟩ := by
  obtain ⟨hfresh, hempty, new, hnew, hstate, rfl⟩ := createWithLeases_ok hok
  have hother : ∀ row ∈ s.db.sessions, row.sessionId ≠ session.sessionId := hfresh
  have hself := leasesOf_append_self leases hempty
  refine ⟨?_, ?_, ?_⟩
  · change ((s.db.sessions ++ [new]).map SessionRow.sessionId).Nodup
    rw [List.map_append, List.nodup_append]
    refine ⟨h.keys, List.nodup_cons.mpr ⟨List.not_mem_nil, List.nodup_nil⟩, ?_⟩
    intro a ha b hb heq
    obtain ⟨row, hrow, rfl⟩ := List.mem_map.mp ha
    rw [List.mem_singleton.mp hb, hnew] at heq
    exact hfresh row hrow heq
  · intro row hrow hterminal
    rcases List.mem_append.mp hrow with hold | hlast
    · exact (h.ended row hold hterminal).imp_left
        (leasesOf_append_other leases (hother row hold)).trans
    · rw [List.mem_singleton.mp hlast, hstate] at hterminal
      cases hterminal
  · intro row hrow hopen
    rcases List.mem_append.mp hrow with hold | hlast
    · refine (leasesOf_append_other leases (hother row hold)).trans ?_
      exact (h.kept row hold hopen).trans (if_neg (hother row hold)).symm
    · rw [List.mem_singleton.mp hlast, hnew]
      exact hself.trans (if_pos rfl).symm

theorem LeaseState.close {endedAtNs : Int} (h : LeaseState s) :
    LeaseState { s with db := closeSession sessionId .completed endedAtNs s.db } := by
  have hself : (closeSession sessionId .completed endedAtNs s.db).leasesOf sessionId = [] := by
    unfold SessionDb.leasesOf closeSession
    rw [List.map_eq_nil_iff, List.filter_eq_nil_iff]
    intro row hrow
    simpa using (List.mem_filter.mp hrow).2
  have hother : ∀ other, other ≠ sessionId →
      (closeSession sessionId .completed endedAtNs s.db).leasesOf other =
        s.db.leasesOf other := by
    intro other hne
    unfold SessionDb.leasesOf closeSession
    rw [List.filter_filter]
    refine congrArg _ (List.filter_congr fun row _ => ?_)
    by_cases hrow : row.sessionId = other
    · simp [hrow, hne]
    · simp [hrow]
  have hlive : ∀ other, other ≠ sessionId →
      (closeSession sessionId .completed endedAtNs s.db).liveProcesses other =
        s.db.liveProcesses other := by
    intro other hne
    have hrow : ∀ row : ProcessRow, row.sessionId = other →
        (if row.sessionId = sessionId ∧ row.endedAtNs = none then
          { row with endedAtNs := some endedAtNs } else row) = row :=
      fun row hid => if_neg fun h => hne (hid.symm.trans h.1)
    unfold SessionDb.liveProcesses closeSession
    dsimp only
    rw [List.filter_map, List.map_map, List.filter_congr (q := fun row =>
      decide (row.sessionId = other ∧ row.endedAtNs = none))]
    · refine List.map_congr_left fun row hmem => ?_
      rw [Function.comp_apply, hrow row (of_decide_eq_true (List.mem_filter.mp hmem).2).1]
    · intro row _
      by_cases hid : row.sessionId = other
      · rw [Function.comp_apply, hrow row hid]
      · rw [Function.comp_apply]
        split_ifs <;> simp [hid]
  refine ⟨?_, ?_, ?_⟩
  · have hkeys := h.keys
    rw [← map_sessionId_updateSession sessionId
      (f := fun row => { row with state := .completed, endedAtNs := some endedAtNs })
      (fun _ => rfl)] at hkeys
    exact hkeys
  · intro row hrow hterminal
    obtain ⟨old, hold, ⟨hid, rfl⟩ | ⟨hid, rfl⟩⟩ := mem_updateSession hrow
    · exact .inl (hid ▸ hself)
    · have hended := h.ended row hold hterminal
      unfold SessionDb.Endable at hended ⊢
      dsimp only
      rw [hother _ hid, hlive _ hid]
      exact hended
  · intro row hrow hopen
    obtain ⟨old, hold, ⟨hid, rfl⟩ | ⟨hid, rfl⟩⟩ := mem_updateSession hrow
    · cases hopen
    · exact (hother _ hid).trans (h.kept row hold hopen)

theorem LeaseState.step {call : SessionCall} (h : LeaseState s) (hallowed : EndsOnlyByFinish s call)
    (hok : call.run s = .ok s') : LeaseState s' := by
  cases call with
  | create session =>
    obtain ⟨r, hr, rfl⟩ := except_map_ok.mp hok
    exact h.create hr
  | recordProcess sessionId processId startedAtNs =>
    obtain ⟨r, hr, rfl⟩ := except_map_ok.mp hok
    obtain ⟨added, hdb⟩ := recordProcess_ok hr
    rw [hdb]
    refine ⟨h.keys, fun row hrow hterminal => (h.ended row hrow hterminal).imp_right ?_, h.kept⟩
    unfold SessionDb.liveProcesses
    rw [List.filter_append, List.map_append]
    exact fun hlive => List.append_ne_nil_of_left_ne_nil hlive _
  | transition sessionId expected event =>
    obtain ⟨⟨next, db'⟩, hr, rfl⟩ := except_map_ok.mp hok
    obtain ⟨row, hrow, hnext, rfl⟩ := transitionState_ok hr
    refine h.update (fun _ => rfl) ?_ ?_
    · intro _ _ _ hterminal
      exact hallowed (transitionSession_ends hnext hterminal)
    · intro other hother hid _
      rw [h.row_eq hrow hother hid]
      exact transitionSession_open hnext
  | markViolation sessionId summary =>
    obtain ⟨⟨count, db'⟩, hr, rfl⟩ := except_map_ok.mp hok
    obtain ⟨f, rfl, hf⟩ := markViolation_ok hr
    refine h.update (fun row => (hf row).1) ?_ ?_
    · intro _ _ _ _
      exact hallowed
    · intro other _ _ hopen
      rw [(hf other).2] at hopen
      cases hopen
  | finish sessionId supplied endedAtNs =>
    obtain ⟨r, hr, rfl⟩ := except_map_ok.mp hok
    rcases finishSession_ok hr with hsame | hclosed
    · rw [hsame]
      exact h
    · rw [hclosed]
      exact h.close

theorem session_leaseState {s₀ : SessionStore} (hstart : SessionStart s₀)
    (run : SessionReaches EndsOnlyByFinish s₀ s) : LeaseState s := by
  induction run with
  | start =>
    refine ⟨?_, ?_, ?_⟩ <;> rw [hstart.sessions]
    · exact List.nodup_nil
    · nofun
    · nofun
  | call _ hallowed hok ih => exact ih.step hallowed hok

/-- INTERNAL: where only `finish` ends sessions that hold leases without a live process, an ended
session without one holds none and an open session holds those it was created with.
SRCLINE: mirage-db/src/session.rs:131-398, mirage-types/src/transition.rs:209-247 -/
theorem ended_sessions_release {s₀ : SessionStore} (hstart : SessionStart s₀)
    (run : SessionReaches EndsOnlyByFinish s₀ s) : LeasesFollow s := by
  have h := session_leaseState hstart run
  exact ⟨fun row hrow hterminal hidle =>
    .inl ((h.ended row hrow hterminal).resolve_right (absurd hidle)), h.kept⟩

/-! ## Sessions that end -/

theorem reaches_of_calls {allowed : SessionStore → SessionCall → Prop} {s₀ : SessionStore} :
    ∀ (calls : List SessionCall) {s s' : SessionStore}, SessionReaches allowed s₀ s →
      (∀ call ∈ calls, ∀ s, allowed s call) →
      calls.foldlM (fun s call => SessionCall.run s call) s = .ok s' →
      SessionReaches allowed s₀ s'
  | [], _, _, run, _, h => by
    cases h
    exact run
  | call :: calls, s, s', run, hallowed, h => by
    rw [List.foldlM_cons] at h
    obtain ⟨m, hm, h⟩ := except_bind_ok.mp h
    exact reaches_of_calls calls (.call run (hallowed call List.mem_cons_self s) hm)
      (fun call' hcall' => hallowed call' (List.mem_cons_of_mem _ hcall')) h

/-- INTERNAL: a store with one verified generation. -/
def verifiedStore : SessionStore := ⟨⟨[((0, 0), 1)], [], [], []⟩, fun _ => []⟩

/-- INTERNAL: a session with one lease. -/
def onePage : NewSealedSession := ⟨7, 0, 0, none, 1, [⟨9, ['m']⟩], 0⟩

/-- INTERNAL: a session that runs to its end. -/
def finishedCalls : List SessionCall :=
  [.create onePage, .transition 7 .verifying .verificationPassed,
    .transition 7 .sealedReady .launchRequested, .recordProcess 7 4 0,
    .transition 7 .launching .launchObserved, .finish 7 [4] 1]

theorem verifiedStore_start : SessionStart verifiedStore := ⟨rfl, rfl⟩

/-- INTERNAL: a session from its start to its end. -/
theorem finished_session_releases :
    ∃ s, SessionReaches EndsOnlyByFinish verifiedStore s ∧ LeasesFollow s ∧
      s.db.leases = [] ∧ s.db.sessions.map SessionRow.state = [.completed] := by
  have hallowed : ∀ call ∈ finishedCalls, ∀ s, EndsOnlyByFinish s call := by
    intro call hcall s
    simp only [finishedCalls, List.mem_cons, List.not_mem_nil, or_false] at hcall
    rcases hcall with rfl | rfl | rfl | rfl | rfl | rfl <;> simp [EndsOnlyByFinish]
  obtain ⟨s, hs, hleases, hstates⟩ : ∃ s,
      finishedCalls.foldlM (fun s call => SessionCall.run s call) verifiedStore = .ok s ∧
        s.db.leases = [] ∧ s.db.sessions.map SessionRow.state = [.completed] :=
    ⟨_, rfl, rfl, rfl⟩
  have run := reaches_of_calls finishedCalls .start hallowed hs
  exact ⟨s, run, ended_sessions_release verifiedStore_start run, hleases, hstates⟩

/-- INTERNAL: a session that is aborted before its launch keeps its lease, and `finish` refuses
it. -/
theorem aborted_session_keeps_lease :
    SessionStart verifiedStore ∧
      ∃ s, SessionReaches (fun _ _ => True) verifiedStore s ∧ ¬ LeasesFollow s ∧
        s.db.leases = [⟨7, ⟨9, ['m']⟩⟩] ∧ s.db.sessions.map SessionRow.state = [.aborted] ∧
        s.db.processes = [] := by
  obtain ⟨s, row, hs, hrow, hstate, hleases, hstates, hprocesses⟩ :
      ∃ (s : SessionStore) (row : SessionRow),
        [SessionCall.create onePage, .transition 7 .verifying .abortRequested].foldlM
          (fun s call => SessionCall.run s call) verifiedStore = .ok s ∧
        s.db.session 7 = some row ∧ row.state = .aborted ∧
        s.db.leases = [⟨7, ⟨9, ['m']⟩⟩] ∧ s.db.sessions.map SessionRow.state = [.aborted] ∧
        s.db.processes = [] :=
    ⟨_, _, rfl, rfl, rfl, rfl, rfl, rfl⟩
  have run : SessionReaches (fun _ _ => True) verifiedStore s :=
    reaches_of_calls _ .start (fun _ _ _ => trivial) hs
  refine ⟨verifiedStore_start, s, run, ?_, hleases, hstates, hprocesses⟩
  intro hfollow
  obtain ⟨hmem, hid⟩ := session_some hrow
  have hheld : s.db.leasesOf row.sessionId ≠ [] := by
    unfold SessionDb.leasesOf
    rw [hleases, hid]
    decide
  have hidle : s.db.liveProcesses row.sessionId = [] := by
    unfold SessionDb.liveProcesses
    rw [hprocesses]
    rfl
  rcases hfollow.ended row hmem (by rw [hstate]; rfl) hidle with
    hnone | ⟨supplied, at', s', hrun, -⟩
  · exact hheld hnone
  · obtain ⟨r, hr, -⟩ := except_map_ok.mp hrun
    rw [hid] at hr
    exact finishSession_refuses hrow (.inr hstate) supplied at' r hr

end Mirage.Analysis
