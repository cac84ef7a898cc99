import Mirage.Interface.LeaseRun

/-!
# Space leases never over-promise

The rows of `space_leases` stand in the order of their insertion.  A lease is covered if the
reserve and all live leases up to its own row fit the free space.  Once true this stays true:
later rows do not count, earlier ones only leave, and the free space grows.  `prepare` checks
the sum over all live rows behind its own insertion, so a lease is covered before it becomes
ready, and the ready lease inserted last answers for all of them.
-/

set_option autoImplicit false

namespace Mirage.Analysis

open Mirage.Model Mirage.Interface Mirage.Computation

/-! ## Rows up to a lease -/

/-- INTERNAL: the rows up to the one of the lease. -/
def rowsUpTo (leaseId : BitVec 128) : List SpaceLeaseRecord → List SpaceLeaseRecord
  | [] => []
  | r :: rows => if r.leaseId = leaseId then [r] else r :: rowsUpTo leaseId rows

/-- INTERNAL: the table holds the lease. -/
def HasRow (leaseId : BitVec 128) (rows : List SpaceLeaseRecord) : Prop :=
  ∃ r ∈ rows, r.leaseId = leaseId

/-- INTERNAL: a lease that counts against the free space. -/
def LiveLease (s : LeaseShared) (r : SpaceLeaseRecord) : Prop :=
  r.targetVolumeId = s.volume ∧ r.state.active = true ∧ (s.clock : Int) < r.expiresAtNs

instance (s : LeaseShared) : DecidablePred (LiveLease s) := fun _ =>
  inferInstanceAs (Decidable (_ ∧ _))

/-- INTERNAL: the bytes of the live leases among the rows. -/
def liveBytes (s : LeaseShared) (rows : List SpaceLeaseRecord) : Nat :=
  ((rows.filter fun r => LiveLease s r).map SpaceLeaseRecord.requestedBytes).sum

/-- INTERNAL: the reserve and the live leases up to this one fit the free space. -/
def Covered (s : LeaseShared) (leaseId : BitVec 128) : Prop :=
  s.reserve + liveBytes s (rowsUpTo leaseId s.db.spaceLeases) ≤ s.free

theorem liveBytes_cons (s : LeaseShared) (r : SpaceLeaseRecord) (rows : List SpaceLeaseRecord) :
    liveBytes s (r :: rows) = (if LiveLease s r then r.requestedBytes else 0) +
      liveBytes s rows := by
  unfold liveBytes
  by_cases h : LiveLease s r
  · simp [h]
  · simp [h]

theorem liveBytes_upTo_le (s : LeaseShared) (leaseId : BitVec 128)
    (rows : List SpaceLeaseRecord) : liveBytes s (rowsUpTo leaseId rows) ≤ liveBytes s rows := by
  induction rows with
  | nil => exact Nat.le_refl _
  | cons r rows ih =>
    rw [rowsUpTo]
    by_cases hid : r.leaseId = leaseId
    · rw [if_pos hid, liveBytes_cons, liveBytes_cons]
      exact Nat.add_le_add_left (Nat.zero_le _) _
    · rw [if_neg hid, liveBytes_cons, liveBytes_cons]
      exact Nat.add_le_add_left ih _

variable {leaseId : BitVec 128} {rows : List SpaceLeaseRecord} {s s' : LeaseShared} {db : LeaseDb}
  {next : SpaceLeaseState}

theorem mem_of_mem_rowsUpTo {r : SpaceLeaseRecord} (h : r ∈ rowsUpTo leaseId rows) : r ∈ rows := by
  induction rows with
  | nil => exact h
  | cons first rows ih =>
    rw [rowsUpTo] at h
    split_ifs at h with hid
    · rw [List.mem_singleton.mp h]
      exact List.mem_cons_self
    · rcases List.mem_cons.mp h with rfl | hlater
      · exact List.mem_cons_self
      · exact List.mem_cons_of_mem _ (ih hlater)

theorem rowsUpTo_append (h : HasRow leaseId rows) (born : List SpaceLeaseRecord) :
    rowsUpTo leaseId (rows ++ born) = rowsUpTo leaseId rows := by
  induction rows with
  | nil =>
    obtain ⟨r, hr, -⟩ := h
    cases hr
  | cons r rows ih =>
    rw [List.cons_append, rowsUpTo, rowsUpTo]
    by_cases hid : r.leaseId = leaseId
    · rw [if_pos hid, if_pos hid]
    · rw [if_neg hid, if_neg hid, ih]
      obtain ⟨other, hother, hsame⟩ := h
      rcases List.mem_cons.mp hother with rfl | hlater
      · exact absurd hsame hid
      · exact ⟨other, hlater, hsame⟩

theorem rowsUpTo_map {f : SpaceLeaseRecord → SpaceLeaseRecord}
    (hf : ∀ r ∈ rows, (f r).leaseId = r.leaseId) :
    rowsUpTo leaseId (rows.map f) = (rowsUpTo leaseId rows).map f := by
  induction rows with
  | nil => rfl
  | cons r rows ih =>
    rw [List.map_cons, rowsUpTo, rowsUpTo, hf r List.mem_cons_self]
    by_cases hid : r.leaseId = leaseId
    · rw [if_pos hid, if_pos hid, List.map_singleton]
    · rw [if_neg hid, if_neg hid, ih fun r hr => hf r (List.mem_cons_of_mem _ hr), List.map_cons]

/-- INTERNAL: the row of a new lease is the last one. -/
theorem rowsUpTo_new (h : ¬ HasRow leaseId rows) {row : SpaceLeaseRecord}
    (hrow : row.leaseId = leaseId) : rowsUpTo leaseId (rows ++ [row]) = rows ++ [row] := by
  induction rows with
  | nil => rw [List.nil_append, rowsUpTo, if_pos hrow]
  | cons r rows ih =>
    have hr : ¬ r.leaseId = leaseId := fun hid => h ⟨r, List.mem_cons_self, hid⟩
    have hrest : ¬ HasRow leaseId rows := by
      rintro ⟨other, hother, hsame⟩
      exact h ⟨other, List.mem_cons_of_mem _ hother, hsame⟩
    rw [List.cons_append, rowsUpTo, if_neg hr, ih hrest]

/-! ## What every step does -/

/-- INTERNAL: the same lease later: it does not become live again. -/
structure LaterRow (r r' : SpaceLeaseRecord) : Prop where
  id : r'.leaseId = r.leaseId
  volume : r'.targetVolumeId = r.targetVolumeId
  bytes : r'.requestedBytes = r.requestedBytes
  expires : r'.expiresAtNs = r.expiresAtNs
  active : r'.state.active = true → r.state.active = true

theorem laterRow_refl (r : SpaceLeaseRecord) : LaterRow r r := ⟨rfl, rfl, rfl, rfl, id⟩

/-- INTERNAL: later in a run: time went on, space was freed, rows moved on and new rows stand
behind the old ones. -/
structure LaterLeases (s s' : LeaseShared) : Prop where
  volume : s'.volume = s.volume
  reserve : s'.reserve = s.reserve
  clock : s.clock ≤ s'.clock
  free : s.free ≤ s'.free
  rows : ∃ (f : SpaceLeaseRecord → SpaceLeaseRecord) (born : List SpaceLeaseRecord),
    s'.db.spaceLeases = s.db.spaceLeases.map f ++ born ∧
      ∀ r ∈ s.db.spaceLeases, LaterRow r (f r)

theorem laterLeases_refl (s : LeaseShared) : LaterLeases s s :=
  ⟨rfl, rfl, Nat.le_refl _, Nat.le_refl _, id, [], by simp, fun r _ => laterRow_refl r⟩

theorem LaterLeases.trans {s'' : LeaseShared} (h : LaterLeases s s') (h' : LaterLeases s' s'') :
    LaterLeases s s'' := by
  obtain ⟨f, born, hrows, hf⟩ := h.rows
  obtain ⟨f', born', hrows', hf'⟩ := h'.rows
  refine ⟨h'.volume.trans h.volume, h'.reserve.trans h.reserve, h.clock.trans h'.clock,
    h.free.trans h'.free, f' ∘ f, born.map f' ++ born', ?_, fun r hr => ?_⟩
  · rw [hrows', hrows, List.map_append, List.map_map, List.append_assoc]
  · have hf := hf r hr
    have hf' := hf' (f r) (hrows ▸ List.mem_append_left _ (List.mem_map_of_mem hr))
    exact ⟨hf'.id.trans hf.id, hf'.volume.trans hf.volume, hf'.bytes.trans hf.bytes,
      hf'.expires.trans hf.expires, fun hactive => hf.active (hf'.active hactive)⟩

theorem LaterLeases.hasRow (h : LaterLeases s s') (hrow : HasRow leaseId s.db.spaceLeases) :
    HasRow leaseId s'.db.spaceLeases := by
  obtain ⟨f, born, hrows, hf⟩ := h.rows
  obtain ⟨r, hr, hid⟩ := hrow
  rw [hrows]
  exact ⟨f r, List.mem_append_left _ (List.mem_map_of_mem hr), (hf r hr).id.trans hid⟩

theorem liveBytes_map_le (h : LaterLeases s s') {f : SpaceLeaseRecord → SpaceLeaseRecord}
    (hf : ∀ r ∈ rows, LaterRow r (f r)) : liveBytes s' (rows.map f) ≤ liveBytes s rows := by
  induction rows with
  | nil => exact Nat.le_refl _
  | cons r rows ih =>
    rw [List.map_cons, liveBytes_cons, liveBytes_cons]
    refine Nat.add_le_add ?_ (ih fun r hr => hf r (List.mem_cons_of_mem _ hr))
    have hf := hf r List.mem_cons_self
    by_cases hlive : LiveLease s' (f r)
    · have hclock := h.clock
      have hold : LiveLease s r := by
        obtain ⟨hvolume, hactive, hexpires⟩ := hlive
        rw [hf.volume, h.volume] at hvolume
        rw [hf.expires] at hexpires
        exact ⟨hvolume, hf.active hactive, by omega⟩
      rw [if_pos hlive, if_pos hold, hf.bytes]
    · rw [if_neg hlive]
      exact Nat.zero_le _

/-- INTERNAL: the live bytes up to a lease never grow. -/
theorem LaterLeases.liveBytes_le (h : LaterLeases s s') (hrow : HasRow leaseId s.db.spaceLeases) :
    liveBytes s' (rowsUpTo leaseId s'.db.spaceLeases) ≤
      liveBytes s (rowsUpTo leaseId s.db.spaceLeases) := by
  obtain ⟨f, born, hrows, hf⟩ := h.rows
  have hmapped : HasRow leaseId (s.db.spaceLeases.map f) := by
    obtain ⟨r, hr, hid⟩ := hrow
    exact ⟨f r, List.mem_map_of_mem hr, (hf r hr).id.trans hid⟩
  rw [hrows, rowsUpTo_append hmapped, rowsUpTo_map fun r hr => (hf r hr).id]
  exact liveBytes_map_le h fun r hr => hf r (mem_of_mem_rowsUpTo hr)

theorem LaterLeases.covered (h : LaterLeases s s') (hrow : HasRow leaseId s.db.spaceLeases)
    (hcovered : Covered s leaseId) : Covered s' leaseId := by
  have hbytes := h.liveBytes_le hrow
  have hfree := h.free
  have hreserve := h.reserve
  unfold Covered at hcovered ⊢
  omega

/-! ## One call -/

theorem laterLeases_tick (s : LeaseShared) (x : LeaseChoice) : LaterLeases s (s.tick x) :=
  ⟨rfl, rfl, Nat.le_add_right _ _, Nat.le_add_right _ _, id, [], by simp [LeaseShared.tick],
    fun r _ => laterRow_refl r⟩

theorem createSpaceLease_ok {db' : LeaseDb} {lease : NewSpaceLease}
    (h : db.createSpaceLease lease = .ok db') :
    ∃ row : SpaceLeaseRecord, row.leaseId = lease.leaseId ∧ row.state = .preparing ∧
      ¬ HasRow lease.leaseId db.spaceLeases ∧ db'.spaceLeases = db.spaceLeases ++ [row] := by
  unfold LeaseDb.createSpaceLease at h
  rw [ensure_bind_ok, ensure_bind_ok, ensure_bind_ok] at h
  obtain ⟨-, -, -, h⟩ := h
  obtain ⟨_, -, h⟩ := except_bind_ok.mp h
  obtain ⟨_, -, h⟩ := except_bind_ok.mp h
  rw [ensure_bind_ok] at h
  obtain ⟨⟨hfresh, -⟩, h⟩ := h
  cases h
  refine ⟨_, rfl, rfl, ?_, rfl⟩
  rintro ⟨r, hr, hid⟩
  exact hfresh r hr hid

/-- INTERNAL: what a transition does to a row. -/
def movedRow (change : SpaceLeaseTransition) (next : SpaceLeaseState) (r : SpaceLeaseRecord) :
    SpaceLeaseRecord :=
  if r.leaseId = change.leaseId then { r with state := next, updatedAtNs := change.atNs } else r

theorem transitionSpaceLease_ok {db' : LeaseDb} {change : SpaceLeaseTransition}
    (h : db.transitionSpaceLease change = .ok (next, db')) :
    ∃ stored, db.loadSpaceLease change.leaseId = some stored ∧
      LeaseDb.nextState stored.state change.event = .ok next ∧
      db'.spaceLeases = db.spaceLeases.map (movedRow change next) := by
  unfold LeaseDb.transitionSpaceLease at h
  rw [ensure_bind_ok, someOr_bind_ok] at h
  obtain ⟨-, stored, hstored, h⟩ := h
  rw [ensure_bind_ok, ensure_bind_ok, except_bind_ok] at h
  obtain ⟨-, -, _, hnext, h⟩ := h
  cases h
  exact ⟨stored, hstored, hnext, rfl⟩

/-- INTERNAL: no event leads out of a terminal state, and only a finished reclaim leads to
`ready`. -/
theorem nextState_ok {current : SpaceLeaseState} {event : SpaceLeaseEvent}
    (h : LeaseDb.nextState current event = .ok next) :
    current.active = true ∧ (next = .ready → event = .reclaimFinished) := by
  cases current <;> cases event <;> cases h <;> exact ⟨rfl, by decide⟩

/-! ## The invariant -/

/-- INTERNAL: the key of the table, and the coverage of every ready lease of the volume. -/
structure LeaseInv (s : LeaseShared) : Prop where
  ids : s.db.spaceLeases.Pairwise fun a b => a.leaseId ≠ b.leaseId
  covered : ∀ r ∈ s.db.spaceLeases, r.targetVolumeId = s.volume → r.state = .ready →
    Covered s r.leaseId

theorem leaseInv_start (h : LeaseStart s) : LeaseInv s := by
  refine ⟨h.ids, ?_⟩
  intro r hr hvolume
  exact absurd hvolume (h.volume r hr)

theorem leaseInv_tick (h : LeaseInv s) (x : LeaseChoice) : LeaseInv (s.tick x) := by
  refine ⟨h.ids, ?_⟩
  intro r hr hvolume hready
  exact (laterLeases_tick s x).covered ⟨r, hr, rfl⟩ (h.covered r hr hvolume hready)

/-- INTERNAL: a new row stands behind the others and is not ready. -/
theorem create_step {lease : NewSpaceLease} (h : LeaseInv s)
    (hcreate : s.db.createSpaceLease lease = .ok db) :
    LaterLeases s { s with db := db } ∧ LeaseInv { s with db := db } ∧
      HasRow lease.leaseId db.spaceLeases := by
  obtain ⟨row, hid, hstate, hfresh, hrows⟩ := createSpaceLease_ok hcreate
  have hlater : LaterLeases s { s with db := db } :=
    ⟨rfl, rfl, Nat.le_refl _, Nat.le_refl _, id, [row], by rw [List.map_id]; exact hrows,
      fun r _ => laterRow_refl r⟩
  refine ⟨hlater, ⟨?_, ?_⟩, ?_⟩
  · rw [hrows]
    refine List.pairwise_append.mpr ⟨h.ids, List.pairwise_singleton _ _, ?_⟩
    intro r hr r' hr' hsame
    rw [List.mem_singleton.mp hr', hid] at hsame
    exact hfresh ⟨r, hr, hsame⟩
  · intro r hr hvolume hready
    rcases List.mem_append.mp (hrows ▸ hr) with hold | hnew
    · exact hlater.covered ⟨r, hold, rfl⟩ (h.covered r hold hvolume hready)
    · rw [List.mem_singleton.mp hnew, hstate] at hready
      cases hready
  · rw [hrows]
    exact ⟨row, List.mem_append_right _ (List.mem_singleton_self row), hid⟩

/-- INTERNAL: a row moves on; it becomes ready only if it is covered. -/
theorem transition_step {change : SpaceLeaseTransition} (h : LeaseInv s)
    (hevent : change.event = .reclaimFinished → Covered s change.leaseId)
    (hmove : s.db.transitionSpaceLease change = .ok (next, db)) :
    LaterLeases s { s with db := db } ∧ LeaseInv { s with db := db } := by
  obtain ⟨stored, hstored, hnext, hrows⟩ := transitionSpaceLease_ok hmove
  obtain ⟨hactive, hready⟩ := nextState_ok hnext
  have hmem := List.mem_of_find?_eq_some hstored
  have hstoredId : stored.leaseId = change.leaseId := by simpa using List.find?_some hstored
  have hrow : ∀ r ∈ s.db.spaceLeases, r.leaseId = change.leaseId → r = stored := by
    intro r hr hid
    exact eq_of_key_eq SpaceLeaseRecord.leaseId h.ids hr hmem (hid.trans hstoredId.symm)
  have hmoved : ∀ r ∈ s.db.spaceLeases, LaterRow r (movedRow change next r) := by
    intro r hr
    unfold movedRow
    by_cases hid : r.leaseId = change.leaseId
    · rw [if_pos hid]
      refine ⟨rfl, rfl, rfl, rfl, fun _ => ?_⟩
      rw [hrow r hr hid]
      exact hactive
    · rw [if_neg hid]
      exact laterRow_refl r
  have hlater : LaterLeases s { s with db := db } :=
    ⟨rfl, rfl, Nat.le_refl _, Nat.le_refl _, movedRow change next, [],
      by rw [List.append_nil]; exact hrows, hmoved⟩
  refine ⟨hlater, ?_, ?_⟩
  · change db.spaceLeases.Pairwise _
    rw [hrows, List.pairwise_map]
    refine h.ids.imp_of_mem fun ha hb hne => ?_
    rw [(hmoved _ ha).id, (hmoved _ hb).id]
    exact hne
  · intro r' hr' hvolume hstate
    obtain ⟨r, hr, rfl⟩ := List.mem_map.mp (hrows ▸ hr')
    rw [(hmoved r hr).id]
    refine hlater.covered ⟨r, hr, rfl⟩ ?_
    by_cases hid : r.leaseId = change.leaseId
    · rw [movedRow, if_pos hid] at hstate
      rw [hid]
      exact hevent (hready hstate)
    · rw [movedRow, if_neg hid] at hstate hvolume
      exact h.covered r hr hvolume hstate

/-- INTERNAL: a database write keeps what it keeps where it succeeds. -/
theorem write_step {α : Type} {result : Except MirageError (α × LeaseDb)} (h : LeaseInv s)
    (hok : ∀ a db, result = .ok (a, db) →
      LaterLeases s { s with db := db } ∧ LeaseInv { s with db := db }) :
    LaterLeases s (s.write result).2 ∧ LeaseInv (s.write result).2 := by
  cases result with
  | error e => exact ⟨laterLeases_refl s, h⟩
  | ok r => exact hok r.1 r.2 rfl

/-- INTERNAL: what a call has to be sure of: only a finished reclaim needs its coverage. -/
def CallOk (s : LeaseShared) : LeaseAct → Prop
  | .transition change => change.event = .reclaimFinished → Covered s change.leaseId
  | _ => True

theorem perform_step (h : LeaseInv s) (candidates : List ReclaimCandidate) (i : LeaseAct)
    (hcall : CallOk s i) :
    LaterLeases s (s.perform candidates i).2 ∧ LeaseInv (s.perform candidates i).2 := by
  have hsame : LaterLeases s s ∧ LeaseInv s := ⟨laterLeases_refl s, h⟩
  cases i with
  | now =>
    unfold LeaseShared.perform
    split_ifs
    · exact hsame
    · exact hsame
  | targetVolumeId | physicalFreeBytes | filesystemReserveBytes | reclaimCandidates
  | reclaimVerifiedClean | activeBytes | load => exact hsame
  | create lease =>
    refine write_step h fun a db hwrite => ?_
    obtain ⟨db', hcreate, hpair⟩ := except_map_ok.mp hwrite
    cases hpair
    obtain ⟨hlater, hinv, -⟩ := create_step h hcreate
    exact ⟨hlater, hinv⟩
  | transition change => exact write_step h fun next db hmove => transition_step h hcall hmove

/-! ## The operations under interference -/

/-- INTERNAL: the invariant, and that the others only let time pass, free space and move rows
on. -/
def leaseProtocol (s₀ : LeaseShared) : Protocol LeaseShared Unit where
  inv s _ := LeaseInv s ∧ LaterLeases s₀ s
  rely _ s _ s' _ := LaterLeases s s'
  effect _ _ _ := True
  idle _ _ _ := True
  rely_refl _ s _ := laterLeases_refl s
  rely_trans _ _ _ _ _ _ _ h h' := h.trans h'
  idle_rely _ _ _ _ _ _ _ := trivial

section Operations

variable {s₀ s : LeaseShared} {t : Nat}

/-- INTERNAL: a program that keeps the protocol and returns with `Q`; where it fails nothing
is known. -/
def LeaseWp {α : Type} (s₀ : LeaseShared) (t : Nat) (x : Leasing α)
    (Q : α → LeaseShared → Prop) (s : LeaseShared) : Prop :=
  wpx (leaseProtocol s₀) LeaseShared.exec (fun _ _ _ _ => True) t x (fun a s _ => Q a s)
    (fun _ _ => True) s ()

variable {α : Type}

theorem leaseWp_bind {β : Type} {x : Leasing α} {f : α → Leasing β} {Q : β → LeaseShared → Prop}
    (h : LeaseWp s₀ t x (fun a => LeaseWp s₀ t (f a) Q) s) :
    LeaseWp s₀ t (x >>= f) Q s := wpx_bind h

theorem leaseWp_pure {a : α} {Q : α → LeaseShared → Prop} (h : Q a s) :
    LeaseWp s₀ t (pure a) Q s := h

theorem leaseWp_require {c : Bool} {e : MirageError} {Q : Unit → LeaseShared → Prop}
    (h : c = true → Q () s) : LeaseWp s₀ t (Leasing.require c e) Q s := by
  unfold Leasing.require
  cases c with
  | true => exact h rfl
  | false => exact wpx_throw trivial

theorem leaseWp_compute {x : Except MirageError α} {Q : α → LeaseShared → Prop}
    (h : ∀ a, x = .ok a → Q a s) : LeaseWp s₀ t (Leasing.compute x) Q s := by
  cases x with
  | ok a => exact h a rfl
  | error e => exact trivial

theorem perform_now_ok {candidates : List ReclaimCandidate} {s' : LeaseShared} {atNs : Int}
    (h : s.perform candidates .now = (.ok atNs, s')) : atNs = (s.clock : Int) ∧ s = s' := by
  have hnow : s.perform candidates .now = if (s.clock : Int) ≤ i64Max then (.ok (s.clock : Int), s)
      else (.error (.internalInvariant "system time exceeds i64 nanoseconds"), s) := rfl
  rw [hnow] at h
  split_ifs at h
  · cases h
    exact ⟨rfl, rfl⟩
  · cases h

/-- INTERNAL: one call under an assertion that the others keep. -/
theorem leaseWp_call {i : LeaseAct} (A : LeaseShared → Prop) {Q : i.Value → LeaseShared → Prop}
    (hA : A s) (stable : ∀ s s', A s → LaterLeases s s' → A s') (hcall : ∀ s, A s → CallOk s i)
    (h : ∀ s candidates v s', A s → LeaseInv s → s.perform candidates i = (.ok v, s') → Q v s') :
    LeaseWp s₀ t (Leasing.call i) Q s := by
  change wp (leaseProtocol s₀) LeaseShared.exec (fun _ _ _ _ => True) t (Prog.perform i) _ s ()
  refine wp_perform (A := fun s _ => A s) hA (fun s _ s' _ => stable s s') ?_
  intro s _ hA hinv x _ r s' hexec
  have hticked := laterLeases_tick s x
  have hA₁ := stable _ _ hA hticked
  have hinv₁ := leaseInv_tick hinv.1 x
  obtain ⟨hlater, hinv₂⟩ := perform_step hinv₁ x.candidates i (hcall _ hA₁)
  have hstep : ∀ {s'}, LaterLeases s s' → LeaseInv s' →
      (leaseProtocol s₀).Step t s () s' () := fun hl hi =>
    ⟨⟨hi, hinv.2.trans hl⟩, fun _ _ => hl, trivial⟩
  refine ⟨(), ?_⟩
  unfold LeaseShared.exec at hexec
  cases hfault : x.fault with
  | none =>
    rw [hfault] at hexec
    have hperform := Option.some.inj hexec
    have hs' : s' = ((s.tick x).perform x.candidates i).2 := (congrArg Prod.snd hperform).symm
    refine ⟨hs' ▸ hstep (hticked.trans hlater) hinv₂, ?_⟩
    cases r with
    | error e => exact trivial
    | ok v => exact h _ _ v s' hA₁ hinv₁ hperform
  | some fault =>
    rw [hfault] at hexec
    cases fault with
    | before e =>
      cases hexec
      exact ⟨hstep hticked hinv₁, trivial⟩
    | behind e =>
      cases hexec
      exact ⟨hstep (hticked.trans hlater) hinv₂, trivial⟩

/-- INTERNAL: a call whose result does not matter. -/
theorem leaseWp_call_true {i : LeaseAct} {Q : i.Value → LeaseShared → Prop}
    (hcall : ∀ s, CallOk s i) (h : ∀ v s, Q v s) : LeaseWp s₀ t (Leasing.call i) Q s :=
  leaseWp_call (fun _ => True) trivial (fun _ _ _ _ => trivial) (fun s _ => hcall s)
    fun _ _ v s' _ _ _ => h v s'

/-- INTERNAL: what the recheck of a lease has established, step by step: its row stands in
the table of the volume, and the values read bound the ones there are. -/
structure Rechecked (leaseId : BitVec 128) (volume : List UInt8) (s : LeaseShared) : Prop where
  row : HasRow leaseId s.db.spaceLeases
  volume : volume = s.volume

theorem Rechecked.later {leaseId : BitVec 128} {volume : List UInt8} {s' : LeaseShared}
    (h : Rechecked leaseId volume s) (hlater : LaterLeases s s') : Rechecked leaseId volume s' :=
  ⟨hlater.hasRow h.row, h.volume.trans hlater.volume.symm⟩

/-- INTERNAL: the total of the database bounds the live bytes from the time it was read. -/
theorem liveBytes_le_active {atNs : Int} {bytes : Nat} (hat : atNs ≤ (s.clock : Int))
    (h : s.db.activeSpaceLeaseBytesForVolume s.volume atNs = .ok bytes) (leaseId : BitVec 128) :
    liveBytes s (rowsUpTo leaseId s.db.spaceLeases) ≤ bytes := by
  unfold LeaseDb.activeSpaceLeaseBytesForVolume at h
  rw [ensure_bind_ok] at h
  obtain ⟨-, h⟩ := h
  rw [ensure_bind_ok] at h
  cases h.2
  refine (liveBytes_upTo_le s leaseId _).trans ?_
  unfold liveBytes
  refine List.Sublist.sum_le_sum (List.Sublist.map _ (List.monotone_filter_right _ ?_)) ?_
  · intro r hlive
    obtain ⟨hvolume, hactive, hexpires⟩ := of_decide_eq_true hlive
    exact decide_eq_true ⟨hvolume, hactive, by omega⟩
  · intro n _
    exact Nat.zero_le n

theorem leaseWp_finishPrepare {request : SpaceLeaseRequest} {volume : List UInt8}
    {plan : SpaceLeasePlan} (h : Rechecked request.leaseId volume s) :
    LeaseWp s₀ t (Leasing.finishPrepare request volume plan) (fun _ _ => True) s := by
  unfold Leasing.finishPrepare
  -- the reclaims
  apply leaseWp_bind
  refine wpx_forM (I := fun _ s _ => Rechecked request.leaseId volume s) h ?_ ?_
  · intro candidate rest s _ hrow
    refine leaseWp_call (Rechecked request.leaseId volume) hrow (fun _ _ h hl => h.later hl)
      (fun _ _ => trivial) ?_
    intro s _ v s' hrow _ hperform
    cases hperform
    exact hrow
  intro s _ hrow
  -- the free space that is read stays available
  apply leaseWp_bind
  refine leaseWp_call (Rechecked request.leaseId volume) hrow (fun _ _ h hl => h.later hl)
    (fun _ _ => trivial) ?_
  intro s _ free s' hrow _ hperform
  cases hperform
  apply leaseWp_bind
  refine leaseWp_call (fun s' => Rechecked request.leaseId volume s' ∧ s.free ≤ s'.free)
    ⟨hrow, Nat.le_refl _⟩ (fun _ _ h hl => ⟨h.1.later hl, h.2.trans hl.free⟩)
    (fun _ _ => trivial) ?_
  intro s₁ _ reserve s' hrow₁ _ hperform
  cases hperform
  apply leaseWp_bind
  refine leaseWp_call (fun s' => (Rechecked request.leaseId volume s' ∧ s.free ≤ s'.free) ∧
    s'.reserve = s₁.reserve) ⟨hrow₁, rfl⟩ (fun _ _ h hl =>
      ⟨⟨h.1.1.later hl, h.1.2.trans hl.free⟩, hl.reserve.trans h.2⟩) (fun _ _ => trivial) ?_
  intro s₂ _ atNs s' hrow₂ _ hperform
  obtain ⟨rfl, rfl⟩ := perform_now_ok hperform
  -- the total that is read bounds the live bytes up to this lease
  apply leaseWp_bind
  refine leaseWp_call (fun s' => ((Rechecked request.leaseId volume s' ∧ s.free ≤ s'.free) ∧
    s'.reserve = s₁.reserve) ∧ s₂.clock ≤ s'.clock) ⟨hrow₂, Nat.le_refl _⟩ (fun _ _ h hl =>
      ⟨⟨⟨h.1.1.1.later hl, h.1.1.2.trans hl.free⟩, hl.reserve.trans h.1.2⟩, h.2.trans hl.clock⟩)
    (fun _ _ => trivial) ?_
  intro s₃ _ promised s' hrow₃ _ hperform
  obtain ⟨⟨⟨hrow, hfree⟩, hreserve⟩, hclock⟩ := hrow₃
  have hread := congrArg Prod.fst hperform
  cases (congrArg Prod.snd hperform : s₃ = s')
  have hbytes := liveBytes_le_active (by omega) (hrow.volume ▸ hread) request.leaseId
  apply leaseWp_bind
  refine leaseWp_require fun _ => ?_
  apply leaseWp_bind
  refine leaseWp_require fun hfits => ?_
  have hcovered : Covered s₃ request.leaseId := by
    have hfits := of_decide_eq_true hfits
    unfold Covered
    omega
  let Published (s : LeaseShared) : Prop :=
    HasRow request.leaseId s.db.spaceLeases ∧ Covered s request.leaseId
  have hstable : ∀ s s', Published s → LaterLeases s s' → Published s' := fun _ _ h hl =>
    ⟨hl.hasRow h.1, hl.covered h.1 h.2⟩
  apply leaseWp_bind
  refine leaseWp_call Published ⟨hrow.row, hcovered⟩ hstable (fun _ _ => trivial) ?_
  intro s _ readyAtNs s' hpublished _ hperform
  obtain ⟨-, rfl⟩ := perform_now_ok hperform
  apply leaseWp_bind
  refine leaseWp_call Published hpublished hstable (fun _ h _ => h.2) ?_
  intro _ _ _ s _ _ _
  apply leaseWp_bind
  refine leaseWp_call_true (fun _ => trivial) fun record s => ?_
  apply leaseWp_bind
  exact leaseWp_compute fun _ _ => leaseWp_pure trivial

/-- INTERNAL: marking a lease as failed makes nothing ready. -/
theorem wp_markFailed (request : SpaceLeaseRequest) (createdAtNs : Int) :
    wp (leaseProtocol s₀) LeaseShared.exec (fun _ _ _ _ => True) t
      (Leasing.markFailed request createdAtNs) (fun _ _ _ => True) s () := by
  unfold Leasing.markFailed
  have hnow : LeaseWp s₀ t (Leasing.call .now) (fun _ _ => True) s :=
    leaseWp_call_true (fun _ => trivial) fun _ _ => trivial
  apply wp_bind
  refine wp_run hnow fun failedAtNs s _ _ => ?_
  have hfail : LeaseWp s₀ t (Leasing.call (.transition ⟨request.leaseId, .preparing, .fail,
      failedAtNs.toOption.getD createdAtNs⟩)) (fun _ _ => True) s :=
    leaseWp_call_true (fun _ hevent => by cases hevent) fun _ _ => trivial
  apply wp_bind
  exact wp_run hfail fun _ _ _ _ => trivial

theorem leaseWp_prepare (request : SpaceLeaseRequest) :
    LeaseWp s₀ t (Leasing.prepareSpaceLease request) (fun _ _ => True) s := by
  unfold Leasing.prepareSpaceLease
  apply leaseWp_bind
  refine leaseWp_call_true (fun _ => trivial) fun createdAtNs s => ?_
  apply leaseWp_bind
  refine leaseWp_require fun _ => ?_
  apply leaseWp_bind
  refine leaseWp_call (fun _ => True) trivial (fun _ _ _ _ => trivial) (fun _ _ => trivial) ?_
  intro s _ volume s' _ _ hperform
  cases hperform
  let OnVolume (s' : LeaseShared) : Prop := s.volume = s'.volume
  have hstable : ∀ s₁ s₂, OnVolume s₁ → LaterLeases s₁ s₂ → OnVolume s₂ := fun _ _ h hl =>
    h.trans hl.volume.symm
  apply leaseWp_bind
  refine leaseWp_call OnVolume rfl hstable (fun _ _ => trivial) ?_
  intro s₁ _ outstanding s' hvolume _ hperform
  cases (congrArg Prod.snd hperform : s₁ = s')
  apply leaseWp_bind
  refine leaseWp_call OnVolume hvolume hstable (fun _ _ => trivial) ?_
  intro s₁ _ free s' hvolume _ hperform
  cases hperform
  apply leaseWp_bind
  refine leaseWp_call OnVolume hvolume hstable (fun _ _ => trivial) ?_
  intro s₁ _ reserve s' hvolume _ hperform
  cases hperform
  apply leaseWp_bind
  refine leaseWp_call OnVolume hvolume hstable (fun _ _ => trivial) ?_
  intro s₁ _ candidates s' hvolume _ hperform
  cases hperform
  apply leaseWp_bind
  refine leaseWp_compute fun plan _ => ?_
  apply leaseWp_bind
  refine leaseWp_require fun _ => ?_
  apply leaseWp_bind
  refine leaseWp_call OnVolume hvolume hstable (fun _ _ => trivial) ?_
  intro s₁ _ _ s' hvolume hinv hperform
  have hcreated : Rechecked request.leaseId s.volume s' := by
    change s₁.write _ = _ at hperform
    unfold LeaseShared.write at hperform
    split at hperform
    · rename_i a db hmap
      obtain ⟨db', hcreate, hpair⟩ := except_map_ok.mp hmap
      cases hpair
      cases hperform
      obtain ⟨-, -, hrow⟩ := create_step hinv hcreate
      exact ⟨hrow, hvolume⟩
    · cases hperform
  refine wp_bind (wp_mono (leaseWp_finishPrepare hcreated) fun r s _ _ => ?_)
  cases r with
  | ok prepared => exact trivial
  | error e =>
    refine wp_bind (wp_mono (wp_markFailed request createdAtNs) fun _ _ _ _ => ?_)
    exact trivial

theorem leaseWp_release (leaseId : BitVec 128) :
    LeaseWp s₀ t (Leasing.releaseSpaceLease leaseId) (fun _ _ => True) s := by
  unfold Leasing.releaseSpaceLease
  apply leaseWp_bind
  refine leaseWp_call_true (fun _ => trivial) fun record s => ?_
  apply leaseWp_bind
  refine leaseWp_compute fun record _ => ?_
  apply leaseWp_bind
  refine leaseWp_require fun _ => ?_
  apply leaseWp_bind
  refine leaseWp_call_true (fun _ => trivial) fun atNs s => ?_
  exact leaseWp_call_true (fun _ hevent => by cases hevent) fun _ _ => trivial

theorem leaseWp_consume (leaseId : BitVec 128) :
    LeaseWp s₀ t (Leasing.consumeSpaceLease leaseId) (fun _ _ => True) s := by
  unfold Leasing.consumeSpaceLease
  apply leaseWp_bind
  refine leaseWp_call_true (fun _ => trivial) fun record s => ?_
  apply leaseWp_bind
  refine leaseWp_compute fun record _ => ?_
  apply leaseWp_bind
  refine leaseWp_require fun _ => ?_
  apply leaseWp_bind
  refine leaseWp_call_true (fun _ => trivial) fun atNs s => ?_
  exact leaseWp_call_true (fun _ hevent => by cases hevent) fun _ _ => trivial

end Operations

/-! ## Every interleaving -/

theorem lease_holds {s₀ : LeaseShared} (h : LeaseStart s₀)
    {c : Pool LeaseShared LeaseAct LeaseAct.Out} (hc : LeaseReaches s₀ c) :
    LeaseInv c.state ∧ LaterLeases s₀ c.state := by
  have hresult : ∀ {α : Type} {x : Leasing α} {t : Nat} {s : LeaseShared},
      LeaseWp s₀ t x (fun _ _ => True) s →
      wp (leaseProtocol s₀) LeaseShared.exec (fun _ _ _ _ => True) t
        (do let _ ← x.run : Prog LeaseAct LeaseAct.Out Unit) (fun _ _ _ => True) s () := by
    intro α x t s hx
    exact wp_bind (wp_run hx fun _ _ _ _ => trivial)
  have hinit : (leaseProtocol s₀).inv s₀ () := ⟨leaseInv_start h, laterLeases_refl s₀⟩
  have hidle : ∀ t, (leaseProtocol s₀).idle t s₀ () := fun _ => trivial
  obtain ⟨_, hholds⟩ := Protocol.sound hinit hidle (by
      rintro p ⟨op, rfl⟩ t s _ -
      cases op with
      | prepare request => exact hresult (leaseWp_prepare request)
      | release leaseId => exact hresult (leaseWp_release leaseId)
      | consume leaseId => exact hresult (leaseWp_consume leaseId)) hc
  exact hholds.1

/-- INTERNAL: the last ready row answers for all of them. -/
theorem exists_last_ready (hids : rows.Pairwise fun a b => a.leaseId ≠ b.leaseId)
    (h : ∃ r ∈ rows, s.Ready r) :
    ∃ r ∈ rows, s.Ready r ∧
      ((rows.filter fun r => s.Ready r).map SpaceLeaseRecord.requestedBytes).sum ≤
        liveBytes s (rowsUpTo r.leaseId rows) := by
  induction rows using List.reverseRecOn with
  | nil =>
    obtain ⟨r, hr, -⟩ := h
    cases hr
  | append_singleton rows last ih =>
    obtain ⟨hrows, -, hlast⟩ := List.pairwise_append.mp hids
    by_cases hready : s.Ready last
    · refine ⟨last, List.mem_append_right _ (List.mem_singleton_self last), hready, ?_⟩
      have hnew : ¬ HasRow last.leaseId rows := by
        rintro ⟨r, hr, hid⟩
        exact hlast r hr last (List.mem_singleton_self last) hid
      rw [rowsUpTo_new hnew rfl]
      unfold liveBytes
      refine List.Sublist.sum_le_sum (List.Sublist.map _ (List.monotone_filter_right _ ?_)) ?_
      · intro r hr
        obtain ⟨hvolume, hstate, hexpires⟩ := of_decide_eq_true hr
        refine decide_eq_true ⟨hvolume, ?_, hexpires⟩
        rw [hstate]
        rfl
      · intro n _
        exact Nat.zero_le n
    · have hex : ∃ r ∈ rows, s.Ready r := by
        obtain ⟨r, hr, hrready⟩ := h
        rcases List.mem_append.mp hr with hold | hnew
        · exact ⟨r, hold, hrready⟩
        · rw [List.mem_singleton.mp hnew] at hrready
          exact absurd hrready hready
      obtain ⟨r, hr, hrready, hle⟩ := ih hrows hex
      refine ⟨r, List.mem_append_left _ hr, hrready, ?_⟩
      rw [rowsUpTo_append ⟨r, hr, rfl⟩, List.filter_append]
      simpa [hready] using hle

/-- INTERNAL: along every interleaving of prepares, releases and consumes the unexpired ready
leases and the reserve fit the free space, from the first ready lease on; and before it, if
the free space covered the reserve to begin with.
SRCLINE: mirage-engine/src/space_lease.rs:40-171, mirage-db/src/space_lease.rs:188-343 -/
theorem leases_never_overpromise {s₀ : LeaseShared} (hstart : LeaseStart s₀)
    {c : Pool LeaseShared LeaseAct LeaseAct.Out} (hc : LeaseReaches s₀ c)
    (h : (∃ r ∈ c.state.db.spaceLeases, c.state.Ready r) ∨ s₀.reserve ≤ s₀.free) :
    c.state.readyBytes + c.state.reserve ≤ c.state.free := by
  obtain ⟨hinv, hlater⟩ := lease_holds hstart hc
  by_cases hready : ∃ r ∈ c.state.db.spaceLeases, c.state.Ready r
  · obtain ⟨r, hr, hrready, hle⟩ := exists_last_ready hinv.ids hready
    have hcovered := hinv.covered r hr hrready.1 hrready.2.1
    unfold Covered at hcovered
    unfold LeaseShared.readyBytes
    omega
  · have hnone : c.state.readyBytes = 0 := by
      unfold LeaseShared.readyBytes
      rw [List.filter_eq_nil_iff.mpr fun r hr hrready =>
        hready ⟨r, hr, of_decide_eq_true hrready⟩]
      rfl
    have hcover := h.resolve_left hready
    have hreserve := hlater.reserve
    have hfree := hlater.free
    omega

/-! ## A lease beside its reserve -/

/-- INTERNAL: a volume with ten free bytes and a reserve of four. -/
def leaseVolume : LeaseShared := ⟨100, [118], 10, 4, ⟨[1], []⟩⟩

/-- INTERNAL: a lease of five bytes. -/
def fiveBytes : SpaceLeaseRequest := ⟨7, 1, 5, 200⟩

/-- INTERNAL: five bytes are promised beside the reserve of four. -/
theorem five_bytes_promised :
    ∃ c, LeaseReaches leaseVolume c ∧ c.state.readyBytes = 5 ∧
      c.state.readyBytes + c.state.reserve ≤ c.state.free := by
  have hplay : ((⟨leaseVolume, [(LeaseOp.prepare fiveBytes).program]⟩ : Pool _ _ _).play
      LeaseShared.exec (fun _ _ _ _ => true) (List.replicate 13 (0, {}))).any
        (fun c => c.state.readyBytes = 5) = true := rfl
  have hprograms : ∀ p ∈ [(LeaseOp.prepare fiveBytes).program],
      ∃ op : LeaseOp, p = op.program := fun p hp => ⟨.prepare fiveBytes, List.mem_singleton.mp hp⟩
  obtain ⟨c, hc, hcheck⟩ := exists_reaches_of_play (fun _ _ _ _ _ => trivial) hprograms hplay
  have hready : c.state.readyBytes = 5 := of_decide_eq_true hcheck
  exact ⟨c, hc, hready, leases_never_overpromise ⟨by decide, by decide⟩ hc (.inr (by decide))⟩

/-- INTERNAL: a volume whose free space is below the reserve before any lease. -/
theorem reserve_not_free :
    LeaseReaches ⟨0, [118], 0, 1, ⟨[], []⟩⟩ ⟨⟨0, [118], 0, 1, ⟨[], []⟩⟩, []⟩ ∧
    ¬ (LeaseShared.readyBytes ⟨0, [118], 0, 1, ⟨[], []⟩⟩ + 1 ≤ 0) :=
  ⟨.start, by decide⟩

end Mirage.Analysis
