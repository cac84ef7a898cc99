import Mirage.Interface.LedgerRun

/-!
# Consistency of the physical ledger

Every call selects at most one row, by its extent or by its slot, and either rewrites that row
or adds one.  A row is consistent with the reservations on its own, so each call is checked on
the row it touches; for the other rows only the reservation of their own extent matters, and
no call changes that.
-/

set_option autoImplicit false

namespace Mirage.Analysis

open Mirage.Model Mirage.Computation Mirage.Interface

variable {db : Db} {reservations : List PhysicalReservationRecord} {e : PhysicalExtentRecord}

/-! ## Reservations of other extents -/

variable {extentId : BitVec 128} {extent : PhysicalExtentRecord}
  {reservation : PhysicalReservationRecord} {db' : Db}

theorem mem_dropped (hne : e.extentId ≠ extentId) :
    (∃ r ∈ reservations.filter fun r => r.extentId ≠ extentId, r.extentId = e.extentId) ↔
      ∃ r ∈ reservations, r.extentId = e.extentId := by
  constructor
  · rintro ⟨r, hr, hid⟩
    exact ⟨r, (List.mem_filter.mp hr).1, hid⟩
  · rintro ⟨r, hr, hid⟩
    refine ⟨r, List.mem_filter.mpr ⟨hr, decide_eq_true ?_⟩, hid⟩
    rw [hid]
    exact hne

theorem not_mem_dropped (hid : e.extentId = extentId) :
    ¬ ∃ r ∈ reservations.filter fun r => r.extentId ≠ extentId, r.extentId = e.extentId := by
  rintro ⟨r, hr, hr_id⟩
  exact of_decide_eq_true (List.mem_filter.mp hr).2 (hr_id.trans hid)

/-- INTERNAL: a row that is not reserved stays consistent when reservations are dropped. -/
theorem extent_drop (h : ExtentConsistent reservations e)
    (hstate : e.extentId = extentId → e.state ≠ .reserved) :
    ExtentConsistent (reservations.filter fun r => r.extentId ≠ extentId) e := by
  refine ⟨?_, h.pins, h.unpinned, h.content⟩
  by_cases hid : e.extentId = extentId
  · exact iff_of_false (not_mem_dropped hid) (hstate hid)
  · exact (mem_dropped hid).trans h.reserved

/-- INTERNAL: a row of another extent stays consistent when a reservation is replaced. -/
theorem extent_replace (reservation : PhysicalReservationRecord)
    (h : ExtentConsistent reservations e) (hne : e.extentId ≠ reservation.extentId) :
    ExtentConsistent
      ((reservations.filter fun r => r.extentId ≠ reservation.extentId) ++ [reservation]) e := by
  have hdrop := extent_drop h fun hid : e.extentId = reservation.extentId => absurd hid hne
  refine ⟨?_, h.pins, h.unpinned, h.content⟩
  rw [← hdrop.reserved]
  constructor
  · rintro ⟨r, hr, hid⟩
    rcases List.mem_append.mp hr with hold | hlast
    · exact ⟨r, hold, hid⟩
    · rw [List.mem_singleton.mp hlast] at hid
      exact absurd hid.symm hne
  · rintro ⟨r, hr, hid⟩
    exact ⟨r, List.mem_append_left _ hr, hid⟩

/-! ## Rows selected by their extent -/

section Update

variable {selected : PhysicalExtentRecord → Bool}
  {f : PhysicalExtentRecord → PhysicalExtentRecord}

theorem mem_updateExtents (h : e ∈ (db.updateExtents selected f).physicalExtents) :
    ∃ old ∈ db.physicalExtents, (selected old = true ∧ e = f old) ∨
      (selected old = false ∧ e = old) := by
  obtain ⟨old, hold, rfl⟩ := List.mem_map.mp h
  refine ⟨old, hold, ?_⟩
  cases hselected : selected old with
  | true => exact .inl ⟨rfl, if_pos rfl⟩
  | false => exact .inr ⟨rfl, if_neg Bool.false_ne_true⟩

theorem map_updateExtents {β : Type} (key : PhysicalExtentRecord → β)
    (hf : ∀ e, key (f e) = key e) :
    (db.updateExtents selected f).physicalExtents.map key = db.physicalExtents.map key := by
  unfold Db.updateExtents
  rw [List.map_map]
  refine List.map_congr_left fun e _ => ?_
  rw [Function.comp_apply]
  split_ifs with hselected
  · exact hf e
  · rfl

theorem updateExtents_eq_self (h : ∀ e ∈ db.physicalExtents, selected e = false) :
    db.updateExtents selected f = db := by
  unfold Db.updateExtents
  have hmap : (db.physicalExtents.map fun e => if selected e then f e else e) =
      db.physicalExtents := by
    refine (List.map_congr_left fun e he => ?_).trans (List.map_id _)
    rw [h e he]
    rfl
  rw [hmap]

/-- INTERNAL: a selection by extent that does not count one row counts none. -/
theorem none_selected {extentId : BitVec 128} (h : LedgerConsistent db)
    (hselected : ∀ e, selected e = true → e.extentId = extentId)
    (hcount : db.physicalExtents.countP selected ≠ 1) :
    ∀ e ∈ db.physicalExtents, selected e = false := by
  intro e he
  by_contra hnot
  have htrue : selected e = true := eq_true_of_ne_false hnot
  apply hcount
  rw [List.countP_eq_length_filter, eq_singleton_of_forall_eq
    ((List.Nodup.of_map _ h.extents).filter _) (List.mem_filter.mpr ⟨he, htrue⟩)]
  · rfl
  · intro other hother
    obtain ⟨hmem, hother⟩ := List.mem_filter.mp hother
    exact List.inj_on_of_nodup_map h.extents hmem he
      ((hselected other hother).trans (hselected e htrue).symm)

/-- INTERNAL: the ledger after an update that keeps the keys of the rows. -/
theorem ledger_update (h : LedgerConsistent db)
    (hkeys : ∀ e, (f e).extentId = e.extentId ∧ (f e).fileId = e.fileId ∧
      (f e).slotIndex = e.slotIndex)
    (hselected : ∀ e ∈ db.physicalExtents, selected e = true →
      ExtentConsistent reservations (f e))
    (hothers : ∀ e ∈ db.physicalExtents, selected e = false → ExtentConsistent reservations e)
    (hsub : ∀ r ∈ reservations, r ∈ db.physicalReservations) :
    LedgerConsistent
      { db.updateExtents selected f with physicalReservations := reservations } := by
  refine ⟨?_, ?_, ?_, ?_⟩
  · refine (map_updateExtents (fun e => (e.fileId, e.slotIndex)) fun e => ?_).symm ▸ h.slots
    rw [(hkeys e).2.1, (hkeys e).2.2]
  · exact (map_updateExtents PhysicalExtentRecord.extentId fun e => (hkeys e).1).symm ▸ h.extents
  · intro e he
    obtain ⟨old, hold, ⟨htrue, rfl⟩ | ⟨hfalse, rfl⟩⟩ := mem_updateExtents he
    · exact hselected old hold htrue
    · exact hothers e hold hfalse
  · intro r hr
    obtain ⟨old, hold, hid⟩ := h.owners r (hsub r hr)
    refine ⟨if selected old then f old else old, List.mem_map_of_mem hold, ?_⟩
    split_ifs
    · exact (hkeys old).1.trans hid
    · exact hid

end Update

/-- INTERNAL: an update that keeps the extents it selects keeps every pinned one from dying, if
the rows it makes dead were not pinned. -/
theorem pinned_update (selected : PhysicalExtentRecord → Bool)
    (f : PhysicalExtentRecord → PhysicalExtentRecord) (h : LedgerConsistent db)
    (hid : ∀ e, (f e).extentId = e.extentId)
    (hdead : ∀ e ∈ db.physicalExtents, selected e = true → (f e).state = .dead → e.pinCount = 0)
    (he : e ∈ db.physicalExtents) (hpinned : e.pinCount ≠ 0) {e' : PhysicalExtentRecord}
    (he' : e' ∈ (db.updateExtents selected f).physicalExtents)
    (hsame : e'.extentId = e.extentId) : e'.state ≠ .dead := by
  intro hstate
  obtain ⟨old, hold, ⟨htrue, rfl⟩ | ⟨-, rfl⟩⟩ := mem_updateExtents he'
  · have heq : old = e := List.inj_on_of_nodup_map h.extents hold he ((hid old).symm.trans hsame)
    subst heq
    exact hpinned (hdead old hold htrue hstate)
  · have heq : e' = e := List.inj_on_of_nodup_map h.extents hold he hsame
    subst heq
    exact hpinned ((h.rows e' hold).unpinned (.inr hstate))

/-! ## Transactions -/

/-- INTERNAL: a call in a transaction keeps the ledger if its transaction does. -/
theorem atomically_step {t : Transaction Unit} (h : LedgerConsistent db)
    (hok : ∀ db', t db = .ok ((), db') → LedgerConsistent db' ∧
      ∀ e ∈ db.physicalExtents, e.pinCount ≠ 0 →
        ∀ e' ∈ db'.physicalExtents, e'.extentId = e.extentId → e'.state ≠ .dead) :
    LedgerConsistent (atomically t db).2 ∧ LedgerStep db (atomically t db) := by
  unfold atomically
  cases ht : t db with
  | ok r =>
    obtain ⟨hconsistent, hpinned⟩ := hok r.2 ht
    exact ⟨hconsistent, nofun, hpinned⟩
  | error err =>
    refine ⟨h, fun _ _ => rfl, ?_⟩
    intro e he hpinned e' he' hid hstate
    rw [List.inj_on_of_nodup_map h.extents he' he hid] at hstate
    exact hpinned ((h.rows e he).unpinned (.inr hstate))

/-! ## Reserving -/

/-- INTERNAL: the row of a new reservation. -/
def reservedRow (extent : PhysicalExtentRecord) : PhysicalExtentRecord :=
  { extent with state := .reserved, pageHash := none, checksum := none, pinCount := 0 }

/-- INTERNAL: the reservation written for an extent. -/
def reservationOf (extent : PhysicalExtentRecord) (reservation : PhysicalReservationRecord) :
    PhysicalReservationRecord :=
  ⟨extent.extentId, reservation.ownerEpoch, extent.updatedNs, reservation.expiresNs⟩

/-- INTERNAL: the reservations there are then. -/
def reservedWith (db : Db) (extent : PhysicalExtentRecord)
    (reservation : PhysicalReservationRecord) : List PhysicalReservationRecord :=
  (db.physicalReservations.filter fun r => r.extentId ≠ extent.extentId) ++
    [reservationOf extent reservation]

/-- INTERNAL: whether a row stands in the slot of an extent. -/
def sameSlot (extent e : PhysicalExtentRecord) : Prop :=
  e.fileId = extent.fileId ∧ e.slotIndex = extent.slotIndex

theorem reserveExtentIn_ok (h : reserveExtentIn extent reservation db = .ok ((), db')) :
    ((∀ e ∈ db.physicalExtents, ¬ sameSlot extent e ∧ e.extentId ≠ extent.extentId) ∧
        db' = { db with
          physicalExtents := db.physicalExtents ++ [reservedRow extent]
          physicalReservations := reservedWith db extent reservation }) ∨
      ((∃ old ∈ db.physicalExtents, sameSlot extent old ∧ old.state = .dead) ∧
        (∀ e ∈ db.physicalExtents, sameSlot extent e ∨ e.extentId ≠ extent.extentId) ∧
        db' = { db.updateExtents
            (fun e => e.fileId = extent.fileId ∧ e.slotIndex = extent.slotIndex ∧ e.state = .dead)
            (fun _ => reservedRow extent) with
          physicalReservations := reservedWith db extent reservation }) := by
  unfold reserveExtentIn at h
  obtain ⟨-, h⟩ := Txn.demand_bind_ok.mp h
  rw [Txn.get_bind] at h
  obtain ⟨_, m, hinsert, h⟩ := Txn.bind_ok.mp h
  obtain ⟨_, m', hreuse, h⟩ := Txn.bind_ok.mp h
  obtain ⟨-, h⟩ := Txn.demand_bind_ok.mp h
  cases Txn.modify_ok.mp h
  cases hfind : db.physicalExtents.find? fun e =>
      decide (e.fileId = extent.fileId ∧ e.slotIndex = extent.slotIndex) with
  | none =>
    rw [hfind] at hinsert hreuse
    rcases Txn.onlyIf_ok.mp hinsert with ⟨-, hinsert⟩ | ⟨hfalse, -⟩
    · obtain ⟨hconstraint, hmodify⟩ := Txn.demand_bind_ok.mp hinsert
      cases Txn.modify_ok.mp hmodify
      rcases Txn.forSome_ok.mp hreuse with ⟨_, hsome, -⟩ | ⟨-, hr⟩
      · cases hsome
      cases hr
      refine .inl ⟨fun e he => ⟨?_, ?_⟩, rfl⟩
      · have := List.find?_eq_none.mp hfind e he
        simpa [sameSlot] using this
      · have hall := (of_decide_eq_true hconstraint).1
        simpa using List.all_eq_true.mp hall e he
    · cases hfalse
  | some old =>
    rw [hfind] at hinsert hreuse
    rcases Txn.onlyIf_ok.mp hinsert with ⟨hfalse, -⟩ | ⟨-, hr⟩
    · cases hfalse
    cases hr
    rcases Txn.forSome_ok.mp hreuse with ⟨old', hold, hreuse⟩ | ⟨hnone, -⟩
    · cases hold
      obtain ⟨hdead, hreuse⟩ := Txn.demand_bind_ok.mp hreuse
      obtain ⟨hconstraint, hmodify⟩ := Txn.demand_bind_ok.mp hreuse
      cases Txn.modify_ok.mp hmodify
      refine .inr ⟨⟨old, List.mem_of_find?_eq_some hfind, ?_, of_decide_eq_true hdead⟩, ?_, ?_⟩
      · have hsame := List.find?_some hfind
        simpa [sameSlot] using hsame
      · intro e he
        have hall := (of_decide_eq_true hconstraint).1
        simpa [sameSlot] using List.all_eq_true.mp hall e he
      · simp [Db.updateExtents, reservedRow, reservedWith, reservationOf]
    · cases hnone

theorem reservedRow_consistent (extent : PhysicalExtentRecord)
    (reservation : PhysicalReservationRecord) :
    ExtentConsistent (reservedWith db extent reservation) (reservedRow extent) := by
  refine ⟨?_, Int.le_refl 0, fun _ => rfl, nofun⟩
  exact iff_of_true ⟨_, List.mem_append_right _ List.mem_cons_self, rfl⟩ rfl

theorem ledger_reserve_free (h : LedgerConsistent db)
    (hfree : ∀ e ∈ db.physicalExtents, ¬ sameSlot extent e ∧ e.extentId ≠ extent.extentId) :
    LedgerConsistent { db with
      physicalExtents := db.physicalExtents ++ [reservedRow extent]
      physicalReservations := reservedWith db extent reservation } := by
  refine ⟨?_, ?_, ?_, ?_⟩
  · change ((db.physicalExtents ++ [reservedRow extent]).map _).Nodup
    rw [List.map_append]
    refine h.slots.append (List.nodup_singleton _) ?_
    intro key hkey hnew
    obtain ⟨e, he, rfl⟩ := List.mem_map.mp hkey
    have heq := List.mem_singleton.mp hnew
    exact (hfree e he).1 ⟨congrArg Prod.fst heq, congrArg Prod.snd heq⟩
  · change ((db.physicalExtents ++ [reservedRow extent]).map _).Nodup
    rw [List.map_append]
    refine h.extents.append (List.nodup_singleton _) ?_
    intro key hkey hnew
    obtain ⟨e, he, rfl⟩ := List.mem_map.mp hkey
    exact (hfree e he).2 (List.mem_singleton.mp hnew)
  · intro e he
    rcases List.mem_append.mp he with hold | hlast
    · exact extent_replace (reservationOf extent reservation) (h.rows e hold) (hfree e hold).2
    · rw [List.mem_singleton.mp hlast]
      exact reservedRow_consistent extent reservation
  · intro r hr
    rcases List.mem_append.mp hr with hold | hlast
    · obtain ⟨e, he, hid⟩ := h.owners r (List.mem_filter.mp hold).1
      exact ⟨e, List.mem_append_left _ he, hid⟩
    · rw [List.mem_singleton.mp hlast]
      exact ⟨_, List.mem_append_right _ List.mem_cons_self, rfl⟩

theorem ledger_reserve_dead {old : PhysicalExtentRecord} (h : LedgerConsistent db)
    (hold : old ∈ db.physicalExtents) (hslot : sameSlot extent old) (hdead : old.state = .dead)
    (hids : ∀ e ∈ db.physicalExtents, sameSlot extent e ∨ e.extentId ≠ extent.extentId) :
    LedgerConsistent { db.updateExtents
        (fun e => e.fileId = extent.fileId ∧ e.slotIndex = extent.slotIndex ∧ e.state = .dead)
        (fun _ => reservedRow extent) with
      physicalReservations := reservedWith db extent reservation } := by
  -- the slot is the key by which the row is found, so the row in it is `old`
  have hunique : ∀ e ∈ db.physicalExtents, sameSlot extent e → e = old := by
    intro e he hsame
    refine List.inj_on_of_nodup_map h.slots he hold ?_
    exact Prod.ext (hsame.1.trans hslot.1.symm) (hsame.2.trans hslot.2.symm)
  have hother : ∀ e ∈ db.physicalExtents,
      (decide (e.fileId = extent.fileId ∧ e.slotIndex = extent.slotIndex ∧ e.state = .dead) =
        false) → ¬ sameSlot extent e := by
    intro e he hfalse hsame
    refine of_decide_eq_false hfalse ⟨hsame.1, hsame.2, ?_⟩
    rw [hunique e he hsame]
    exact hdead
  refine ⟨?_, ?_, ?_, ?_⟩
  · have hslots : ((db.updateExtents
        (fun e => e.fileId = extent.fileId ∧ e.slotIndex = extent.slotIndex ∧ e.state = .dead)
        (fun _ => reservedRow extent)).physicalExtents.map fun e => (e.fileId, e.slotIndex)) =
        db.physicalExtents.map fun e => (e.fileId, e.slotIndex) := by
      unfold Db.updateExtents
      rw [List.map_map]
      refine List.map_congr_left fun e _ => ?_
      rw [Function.comp_apply]
      split_ifs with hselected
      · have hselected := of_decide_eq_true hselected
        exact Prod.ext hselected.1.symm hselected.2.1.symm
      · rfl
    exact hslots.symm ▸ h.slots
  · unfold List.Nodup Db.updateExtents
    rw [List.map_map, List.pairwise_map]
    have hslots := List.pairwise_map.mp h.slots
    refine (hslots.and (List.pairwise_map.mp h.extents)).imp_of_mem ?_
    rintro a b ha hb ⟨hslot_ne, hid_ne⟩
    rw [Function.comp_apply, Function.comp_apply]
    split_ifs with hleft hright hright
    · have hleft := of_decide_eq_true hleft
      have hright := of_decide_eq_true hright
      exact absurd (Prod.ext (hleft.1.trans hright.1.symm) (hleft.2.1.trans hright.2.1.symm))
        hslot_ne
    · rcases hids b hb with hsame | hne
      · exact absurd hsame (hother b hb (eq_false_of_ne_true hright))
      · exact hne.symm
    · rcases hids a ha with hsame | hne
      · exact absurd hsame (hother a ha (eq_false_of_ne_true hleft))
      · exact hne
    · exact hid_ne
  · intro e he
    obtain ⟨e, hmem, ⟨-, rfl⟩ | ⟨hfalse, rfl⟩⟩ := mem_updateExtents he
    · exact reservedRow_consistent extent reservation
    · rcases hids e hmem with hsame | hne
      · exact absurd hsame (hother e hmem hfalse)
      · exact extent_replace (reservationOf extent reservation) (h.rows e hmem) hne
  · intro r hr
    rcases List.mem_append.mp hr with hkept | hlast
    · obtain ⟨hkept, -⟩ := List.mem_filter.mp hkept
      obtain ⟨e, he, hid⟩ := h.owners r hkept
      have hreserved : e.state = .reserved := (h.rows e he).reserved.mp ⟨r, hkept, hid.symm⟩
      refine ⟨e, List.mem_map.mpr ⟨e, he, if_neg ?_⟩, hid⟩
      intro hselected
      rw [(of_decide_eq_true hselected).2.2] at hreserved
      cases hreserved
    · refine ⟨reservedRow extent, List.mem_map.mpr ⟨old, hold, if_pos ?_⟩, ?_⟩
      · exact decide_eq_true ⟨hslot.1, hslot.2, hdead⟩
      · rw [List.mem_singleton.mp hlast]
        rfl

/-- INTERNAL: in a consistent ledger the row of a pinned extent is not dead. -/
theorem not_dead_of_pinned (h : LedgerConsistent db) {e e' : PhysicalExtentRecord}
    (he : e ∈ db.physicalExtents) (hpinned : e.pinCount ≠ 0) (he' : e' ∈ db.physicalExtents)
    (hid : e'.extentId = e.extentId) : e'.state ≠ .dead := by
  intro hdead
  rw [List.inj_on_of_nodup_map h.extents he' he hid] at hdead
  exact hpinned ((h.rows e he).unpinned (.inr hdead))

theorem reserve_step (h : LedgerConsistent db) (extent : PhysicalExtentRecord)
    (reservation : PhysicalReservationRecord) :
    LedgerConsistent (reserveExtent extent reservation db).2 ∧
      LedgerStep db (reserveExtent extent reservation db) := by
  refine atomically_step h ?_
  intro db' hok
  rcases reserveExtentIn_ok hok with ⟨hfree, rfl⟩ | ⟨⟨old, hold, hslot, hdead⟩, hids, rfl⟩
  · refine ⟨ledger_reserve_free h hfree, ?_⟩
    intro e he hpinned e' he' hid hstate
    rcases List.mem_append.mp he' with hold | hlast
    · exact not_dead_of_pinned h he hpinned hold hid hstate
    · rw [List.mem_singleton.mp hlast] at hstate
      cases hstate
  · refine ⟨ledger_reserve_dead h hold hslot hdead hids, ?_⟩
    intro e he hpinned e' he' hid hstate
    obtain ⟨e₁, he₁, ⟨-, rfl⟩ | ⟨-, rfl⟩⟩ := mem_updateExtents he'
    · cases hstate
    · exact not_dead_of_pinned h he hpinned he₁ hid hstate

/-! ## Ending a reservation -/

/-- INTERNAL: the ledger after the reserved row of an extent moved to another state and its
reservation was dropped. -/
theorem ledger_end_reservation {selected : PhysicalExtentRecord → Bool}
    {f : PhysicalExtentRecord → PhysicalExtentRecord} (h : LedgerConsistent db)
    (hkeys : ∀ e, (f e).extentId = e.extentId ∧ (f e).fileId = e.fileId ∧
      (f e).slotIndex = e.slotIndex ∧ (f e).pinCount = e.pinCount)
    (hselected : ∀ e, selected e = true ↔ e.extentId = extentId ∧ e.state = .reserved)
    (hstate : ∀ e, (f e).state ≠ .reserved)
    (hcontent : ∀ e, (f e).state = .alive →
      (f e).pageHash.isSome = true ∧ (f e).checksum.isSome = true) :
    LedgerConsistent ((db.updateExtents selected f).dropReservation extentId) := by
  refine ledger_update h (fun e => ⟨(hkeys e).1, (hkeys e).2.1, (hkeys e).2.2.1⟩) ?_ ?_ ?_
  · intro e he htrue
    obtain ⟨hid, hreserved⟩ := (hselected e).mp htrue
    have hpin : (f e).pinCount = 0 :=
      (hkeys e).2.2.2.trans ((h.rows e he).unpinned (.inl hreserved))
    refine ⟨?_, Int.le_of_eq hpin.symm, fun _ => hpin, hcontent e⟩
    exact iff_of_false (not_mem_dropped ((hkeys e).1.trans hid)) (hstate e)
  · intro e he hfalse
    refine extent_drop (h.rows e he) fun hid hreserved => ?_
    rw [(hselected e).mpr ⟨hid, hreserved⟩] at hfalse
    cases hfalse
  · intro r hr
    exact (List.mem_filter.mp hr).1

theorem commit_step (h : LedgerConsistent db) (extentId : BitVec 128) (pageHash : PageHash)
    (checksum : BitVec 256) (nowNs : Int) :
    LedgerConsistent (commitExtent extentId pageHash checksum nowNs db).2 ∧
      LedgerStep db (commitExtent extentId pageHash checksum nowNs db) := by
  refine atomically_step h ?_
  intro db' hok
  unfold commitPhysical at hok
  rw [Txn.get_bind] at hok
  obtain ⟨_, m, hmodify, hok⟩ := Txn.bind_ok.mp hok
  obtain ⟨-, hok⟩ := Txn.demand_bind_ok.mp hok
  cases Txn.modify_ok.mp hmodify
  cases Txn.modify_ok.mp hok
  let selected : PhysicalExtentRecord → Bool := fun e =>
    e.extentId = extentId ∧ e.state = .reserved
  let f : PhysicalExtentRecord → PhysicalExtentRecord := fun e =>
    { e with
      state := .alive
      pageHash := some pageHash
      checksum := some checksum
      updatedNs := nowNs }
  have hdb : ({ db with
      physicalExtents := db.physicalExtents.map fun e =>
        if e.extentId = extentId ∧ e.state = .reserved then f e else e
      physicalReservations := db.physicalReservations.filter fun r => r.extentId ≠ extentId } :
        Db) = (db.updateExtents selected f).dropReservation extentId := by
    simp [Db.updateExtents, Db.dropReservation, selected]
  refine ⟨hdb ▸ ledger_end_reservation h (fun _ => ⟨rfl, rfl, rfl, rfl⟩)
    (fun _ => decide_eq_true_iff) (fun _ => nofun) (fun _ _ => ⟨rfl, rfl⟩), ?_⟩
  intro e he hpinned e' he' hid
  rw [hdb] at he'
  exact pinned_update selected f h (fun _ => rfl) (fun _ _ _ => nofun) he
    hpinned he' hid

theorem release_step (h : LedgerConsistent db) (extentId : BitVec 128) (nowNs : Int) :
    LedgerConsistent (releaseExtent extentId nowNs db).2 ∧
      LedgerStep db (releaseExtent extentId nowNs db) := by
  refine atomically_step h ?_
  intro db' hok
  unfold releaseExtentIn at hok
  rw [Txn.get_bind] at hok
  obtain ⟨_, m, hmodify, hok⟩ := Txn.bind_ok.mp hok
  obtain ⟨hcount, hok⟩ := Txn.demand_bind_ok.mp hok
  cases Txn.modify_ok.mp hmodify
  cases Txn.modify_ok.mp hok
  -- a reserved row is not pinned, so the row counted is the one with the reservation
  have hselected : ∀ e ∈ db.physicalExtents,
      (decide (e.extentId = extentId ∧ e.state = .reserved ∧ e.pinCount = 0) =
        decide (e.extentId = extentId ∧ e.state = .reserved)) := by
    intro e he
    by_cases hreserved : e.state = .reserved
    · simp [hreserved, (h.rows e he).unpinned (.inl hreserved)]
    · simp [hreserved]
  have hdb : db.updateExtents
        (fun e => e.extentId = extentId ∧ e.state = .reserved ∧ e.pinCount = 0)
        (fun e => { e with state := .dead, updatedNs := nowNs }) =
      db.updateExtents (fun e => e.extentId = extentId ∧ e.state = .reserved)
        (fun e => { e with state := .dead, updatedNs := nowNs }) := by
    unfold Db.updateExtents
    have hmap := List.map_congr_left (l := db.physicalExtents)
      (f := fun e => if decide (e.extentId = extentId ∧ e.state = .reserved ∧ e.pinCount = 0) then
        { e with state := .dead, updatedNs := nowNs } else e)
      (g := fun e => if decide (e.extentId = extentId ∧ e.state = .reserved) then
        { e with state := .dead, updatedNs := nowNs } else e)
      (fun e he => by rw [hselected e he])
    rw [hmap]
  rw [hdb]
  refine ⟨ledger_end_reservation h (fun _ => ⟨rfl, rfl, rfl, rfl⟩) (fun _ => decide_eq_true_iff)
    (fun _ => nofun) (fun _ => nofun), ?_⟩
  intro e he hpinned e' he' hid
  refine pinned_update (fun e => e.extentId = extentId ∧ e.state = .reserved)
    (fun e => { e with state := .dead, updatedNs := nowNs }) h (fun _ => rfl) ?_ he hpinned he'
    hid
  intro old hold htrue _
  exact (h.rows old hold).unpinned (.inl (of_decide_eq_true htrue).2)

/-- INTERNAL: what one round of the reaping loop keeps. -/
structure Reaped (before after : Db) : Prop where
  consistent : LedgerConsistent before → LedgerConsistent after
  pinned : LedgerConsistent before → ∀ e ∈ after.physicalExtents,
    e.state = .dead → ∃ old ∈ before.physicalExtents, old.extentId = e.extentId ∧ old.pinCount = 0

theorem reapOne_reaped {nowNs : Int} (hok : reapOne nowNs extentId db = .ok ((), db')) :
    Reaped db db' := by
  unfold reapOne at hok
  replace hok := Txn.modify_bind_ok.mp hok
  cases Txn.modify_ok.mp hok
  refine ⟨fun h => ledger_end_reservation h (fun _ => ⟨rfl, rfl, rfl, rfl⟩)
    (fun _ => decide_eq_true_iff) (fun _ => nofun) (fun _ => nofun), ?_⟩
  intro h e he hdead
  obtain ⟨old, hold, ⟨htrue, rfl⟩ | ⟨-, rfl⟩⟩ := mem_updateExtents he
  · exact ⟨old, hold, rfl, (h.rows old hold).unpinned (.inl (of_decide_eq_true htrue).2)⟩
  · exact ⟨e, hold, rfl, (h.rows e hold).unpinned (.inr hdead)⟩

theorem reapAll_reaped {nowNs : Int} :
    ∀ (expired : List (BitVec 128)) {db db' : Db},
      expired.forM (reapOne nowNs) db = .ok ((), db') → LedgerConsistent db → Reaped db db'
  | [], _, _, hok, _ => by
    cases hok
    exact ⟨id, fun h e he hdead => ⟨e, he, rfl, (h.rows e he).unpinned (.inr hdead)⟩⟩
  | extentId :: rest, db, db', hok, h => by
    rw [List.forM_eq_forM, List.forM_cons] at hok
    obtain ⟨_, m, hone, hrest⟩ := Txn.bind_ok.mp hok
    have hfirst := reapOne_reaped hone
    have hlater := reapAll_reaped rest hrest (hfirst.consistent h)
    refine ⟨fun _ => hlater.consistent (hfirst.consistent h), ?_⟩
    intro _ e he hdead
    obtain ⟨middle, hmiddle, hid, hpin⟩ := hlater.pinned (hfirst.consistent h) e he hdead
    by_cases hmiddle_dead : middle.state = .dead
    · obtain ⟨old, hold, hold_id, hold_pin⟩ := hfirst.pinned h middle hmiddle hmiddle_dead
      exact ⟨old, hold, hold_id.trans hid, hold_pin⟩
    · unfold reapOne at hone
      replace hone := Txn.modify_bind_ok.mp hone
      cases Txn.modify_ok.mp hone
      obtain ⟨old, hold, ⟨-, rfl⟩ | ⟨-, rfl⟩⟩ := mem_updateExtents hmiddle
      · exact absurd rfl hmiddle_dead
      · exact ⟨middle, hold, hid, hpin⟩

theorem reap_step (h : LedgerConsistent db) (nowNs : Int) :
    LedgerConsistent (reapExpiredReservations nowNs db).2 ∧
      LedgerStep db (reapExpiredReservations nowNs db) := by
  refine atomically_step h ?_
  intro db' hok
  unfold reapExpiredReservationsIn at hok
  rw [Txn.get_bind] at hok
  have hreaped := reapAll_reaped _ hok h
  refine ⟨hreaped.consistent h, ?_⟩
  intro e he hpinned e' he' hid hdead
  obtain ⟨old, hold, hold_id, hold_pin⟩ := hreaped.pinned h e' he' hdead
  rw [List.inj_on_of_nodup_map h.extents hold he (hold_id.trans hid)] at hold_pin
  exact hpinned hold_pin

/-! ## Living and dead extents -/

theorem markDead_step (h : LedgerConsistent db) (extentId : BitVec 128) (nowNs : Int) :
    LedgerConsistent (markExtentDead extentId nowNs db).2 ∧
      LedgerStep db (markExtentDead extentId nowNs db) := by
  let selected : PhysicalExtentRecord → Bool := fun e =>
    e.extentId = extentId ∧ e.state = .alive ∧ e.pinCount = 0
  let f : PhysicalExtentRecord → PhysicalExtentRecord := fun e =>
    { e with state := .dead, updatedNs := nowNs }
  have hafter : LedgerConsistent (db.updateExtents selected f) := by
    refine ledger_update h (fun _ => ⟨rfl, rfl, rfl⟩) ?_
      (fun e he _ => h.rows e he) (fun _ hr => hr)
    intro e he htrue
    obtain ⟨-, halive, hpin⟩ := of_decide_eq_true htrue
    refine ⟨?_, Int.le_of_eq hpin.symm, fun _ => hpin, nofun⟩
    refine (h.rows e he).reserved.trans (iff_of_false ?_ nofun)
    rw [halive]
    nofun
  have hpinned : ∀ e ∈ db.physicalExtents, e.pinCount ≠ 0 →
      ∀ e' ∈ (db.updateExtents selected f).physicalExtents, e'.extentId = e.extentId →
        e'.state ≠ .dead :=
    fun e he hne e' he' hid => pinned_update selected f h (fun _ => rfl)
      (fun _ _ htrue _ => (of_decide_eq_true htrue).2.2) he hne he' hid
  unfold markExtentDead
  change LedgerConsistent
      (if db.physicalExtents.countP selected = 1 then _ else _ : LedgerResult).2 ∧
    LedgerStep db (if db.physicalExtents.countP selected = 1 then _ else _)
  by_cases hcount : db.physicalExtents.countP selected = 1
  · rw [if_pos hcount]
    exact ⟨hafter, nofun, hpinned⟩
  · rw [if_neg hcount]
    have hsame : db.updateExtents selected f = db := updateExtents_eq_self
      (none_selected h (fun _ htrue => (of_decide_eq_true htrue).1) hcount)
    exact ⟨hafter, fun _ _ => hsame, hpinned⟩

theorem adjustPin_step (h : LedgerConsistent db) (extentId : BitVec 128) (delta : Int) :
    LedgerConsistent (adjustExtentPin extentId delta db).2 ∧
      LedgerStep db (adjustExtentPin extentId delta db) := by
  let selected : PhysicalExtentRecord → Bool := fun e =>
    e.extentId = extentId ∧ e.state = .alive ∧ 0 ≤ e.pinCount + delta
  let f : PhysicalExtentRecord → PhysicalExtentRecord := fun e =>
    { e with pinCount := e.pinCount + delta }
  have hafter : LedgerConsistent (db.updateExtents selected f) := by
    refine ledger_update h (fun _ => ⟨rfl, rfl, rfl⟩) ?_
      (fun e he _ => h.rows e he) (fun _ hr => hr)
    intro e he htrue
    obtain ⟨-, halive, hpin⟩ := of_decide_eq_true htrue
    refine ⟨(h.rows e he).reserved, hpin, ?_, (h.rows e he).content⟩
    intro hstate
    change e.state = .reserved ∨ e.state = .dead at hstate
    rw [halive] at hstate
    rcases hstate with hstate | hstate <;> cases hstate
  have hpinned : ∀ e ∈ db.physicalExtents, e.pinCount ≠ 0 →
      ∀ e' ∈ (db.updateExtents selected f).physicalExtents, e'.extentId = e.extentId →
        e'.state ≠ .dead := by
    refine fun e he hne e' he' hid => pinned_update selected f h
      (fun _ => rfl) ?_ he hne he' hid
    intro old _ htrue hdead
    have halive := (of_decide_eq_true htrue).2.1
    change old.state = .dead at hdead
    rw [halive] at hdead
    cases hdead
  unfold adjustExtentPin
  change LedgerConsistent
      (if _ then _ else if db.physicalExtents.countP selected = 1 then _ else _ : LedgerResult).2 ∧
    LedgerStep db (if _ then _ else if db.physicalExtents.countP selected = 1 then _ else _)
  split_ifs with hwide hcount
  · exact ⟨h, fun _ _ => rfl, fun _ he hne _ he' hid => not_dead_of_pinned h he hne he' hid⟩
  · exact ⟨hafter, nofun, hpinned⟩
  · have hsame : db.updateExtents selected f = db := updateExtents_eq_self
      (none_selected h (fun _ htrue => (of_decide_eq_true htrue).1) hcount)
    exact ⟨hafter, fun _ _ => hsame, hpinned⟩

/-- INTERNAL: what `revive_extent` does: a dead row comes alive, or a missing one is added. -/
theorem reviveExtentIn_ok {row : PhysicalExtentRecord} (h : reviveExtentIn row db = .ok ((), db')) :
    (db' = db.updateExtents (fun e => e.extentId = row.extentId ∧ e.state = .dead) fun e =>
        { e with
          state := .alive
          pageHash := row.pageHash
          checksum := row.checksum
          lengthBytes := row.lengthBytes
          updatedNs := row.updatedNs }) ∨
      ((∀ e ∈ db.physicalExtents, e.extentId ≠ row.extentId ∧ ¬ sameSlot row e) ∧
        db' = { db with physicalExtents := db.physicalExtents ++ [row] }) := by
  unfold reviveExtentIn at h
  rw [Txn.get_bind] at h
  obtain ⟨-, h⟩ := Txn.demand_bind_ok.mp h
  replace h := Txn.modify_bind_ok.mp h
  rcases Txn.onlyIf_ok.mp h with ⟨hcount, hmissing⟩ | ⟨-, hr⟩
  · -- no row was selected, so the update before changed nothing
    have hnone : ∀ e ∈ db.physicalExtents,
        decide (e.extentId = row.extentId ∧ e.state = .dead) = false := by
      intro e he
      have hzero := List.countP_eq_zero.mp (of_decide_eq_true hcount) e he
      exact eq_false_of_ne_true hzero
    rw [updateExtents_eq_self hnone] at hmissing
    cases hstate : db.extentState row.extentId with
    | none =>
      rw [hstate] at hmissing
      change insertAlive row db = _ at hmissing
      unfold insertAlive at hmissing
      rw [Txn.get_bind] at hmissing
      obtain ⟨hconstraint, hinsert⟩ := Txn.demand_bind_ok.mp hmissing
      cases Txn.modify_ok.mp hinsert
      refine .inr ⟨fun e he => ?_, rfl⟩
      have hall := (of_decide_eq_true hconstraint).1
      have hrow := List.all_eq_true.mp hall e he
      exact (of_decide_eq_true hrow :
        e.extentId ≠ row.extentId ∧ ¬ (e.fileId = row.fileId ∧ e.slotIndex = row.slotIndex))
    | some state =>
      rw [hstate] at hmissing
      cases state with
      | alive =>
        cases Txn.pure_ok.mp hmissing
        exact .inl (updateExtents_eq_self hnone).symm
      | reserved => exact (Txn.throw_ok.mp hmissing).elim
      | evicting => exact (Txn.throw_ok.mp hmissing).elim
      | dead => exact (Txn.throw_ok.mp hmissing).elim
  · cases hr
    exact .inl rfl

theorem ledger_add_alive {row : PhysicalExtentRecord} (h : LedgerConsistent db)
    (hfree : ∀ e ∈ db.physicalExtents, e.extentId ≠ row.extentId ∧ ¬ sameSlot row e)
    (halive : row.state = .alive) (hpin : row.pinCount = 0)
    (hcontent : row.pageHash.isSome = true ∧ row.checksum.isSome = true) :
    LedgerConsistent { db with physicalExtents := db.physicalExtents ++ [row] } := by
  refine ⟨?_, ?_, ?_, ?_⟩
  · change ((db.physicalExtents ++ [row]).map _).Nodup
    rw [List.map_append]
    refine h.slots.append (List.nodup_singleton _) ?_
    intro key hkey hnew
    obtain ⟨e, he, rfl⟩ := List.mem_map.mp hkey
    have heq := List.mem_singleton.mp hnew
    exact (hfree e he).2 ⟨congrArg Prod.fst heq, congrArg Prod.snd heq⟩
  · change ((db.physicalExtents ++ [row]).map _).Nodup
    rw [List.map_append]
    refine h.extents.append (List.nodup_singleton _) ?_
    intro key hkey hnew
    obtain ⟨e, he, rfl⟩ := List.mem_map.mp hkey
    exact (hfree e he).1 (List.mem_singleton.mp hnew)
  · intro e he
    rcases List.mem_append.mp he with hold | hlast
    · exact h.rows e hold
    · rw [List.mem_singleton.mp hlast]
      refine ⟨?_, Int.le_of_eq hpin.symm, fun _ => hpin, fun _ => hcontent⟩
      refine iff_of_false ?_ (by rw [halive]; nofun)
      rintro ⟨r, hr, hid⟩
      obtain ⟨e, he, howner⟩ := h.owners r hr
      exact (hfree e he).1 (howner.trans hid)
  · intro r hr
    obtain ⟨e, he, hid⟩ := h.owners r hr
    exact ⟨e, List.mem_append_left _ he, hid⟩

theorem revive_step (h : LedgerConsistent db) (extentId fileId : BitVec 128)
    (slotIndex lengthBytes : Int) (pageHash : PageHash) (checksum : BitVec 256) (nowNs : Int) :
    LedgerConsistent
        (reviveExtent extentId fileId slotIndex lengthBytes pageHash checksum nowNs db).2 ∧
      LedgerStep db
        (reviveExtent extentId fileId slotIndex lengthBytes pageHash checksum nowNs db) := by
  refine atomically_step h ?_
  intro db' hok
  rcases reviveExtentIn_ok hok with rfl | ⟨hfree, rfl⟩
  · refine ⟨?_, ?_⟩
    · refine ledger_update h (fun _ => ⟨rfl, rfl, rfl⟩) ?_
        (fun e he _ => h.rows e he) (fun _ hr => hr)
      intro e he htrue
      obtain ⟨-, hdead⟩ := of_decide_eq_true htrue
      have hpin := (h.rows e he).unpinned (.inr hdead)
      refine ⟨?_, Int.le_of_eq hpin.symm, fun _ => hpin, fun _ => ⟨rfl, rfl⟩⟩
      refine (h.rows e he).reserved.trans (iff_of_false ?_ nofun)
      rw [hdead]
      nofun
    · intro e he hne e' he' hid hdead
      obtain ⟨old, hold, ⟨-, rfl⟩ | ⟨-, rfl⟩⟩ := mem_updateExtents he'
      · cases hdead
      · exact not_dead_of_pinned h he hne hold hid hdead
  · refine ⟨ledger_add_alive h hfree rfl rfl ⟨rfl, rfl⟩, ?_⟩
    intro e he hpinned e' he' hid hdead
    rcases List.mem_append.mp he' with hold | hlast
    · exact not_dead_of_pinned h he hpinned hold hid hdead
    · rw [List.mem_singleton.mp hlast] at hdead
      cases hdead

/-! ## Runs -/

theorem ledger_step (h : LedgerConsistent db) (call : LedgerCall) :
    LedgerConsistent (call.run db).2 ∧ LedgerStep db (call.run db) := by
  cases call with
  | reserve extent reservation => exact reserve_step h extent reservation
  | commit extentId pageHash checksum nowNs => exact commit_step h extentId pageHash checksum nowNs
  | release extentId nowNs => exact release_step h extentId nowNs
  | markDead extentId nowNs => exact markDead_step h extentId nowNs
  | revive extentId fileId slotIndex lengthBytes pageHash checksum nowNs =>
    exact revive_step h extentId fileId slotIndex lengthBytes pageHash checksum nowNs
  | adjustPin extentId delta => exact adjustPin_step h extentId delta
  | reap nowNs => exact reap_step h nowNs

theorem ledger_run {db₀ : Db} (h₀ : LedgerConsistent db₀) (run : LedgerReaches db₀ db) :
    LedgerConsistent db := by
  induction run with
  | start => exact h₀
  | call _ call ih => exact (ledger_step ih call).1

/-- INTERNAL: in every state that calls lead to from an empty ledger the tables are consistent,
the next call that fails changes nothing, and none makes a pinned extent dead.
SRCLINE: mirage-db/src/physical.rs:149-487 -/
theorem physical_ledger_consistent {db₀ : Db} (hextents : db₀.physicalExtents = [])
    (hreservations : db₀.physicalReservations = []) (run : LedgerReaches db₀ db) :
    LedgerConsistent db ∧ ∀ call : LedgerCall, LedgerStep db (call.run db) := by
  have hempty : LedgerConsistent db₀ := by
    refine ⟨?_, ?_, ?_, ?_⟩
    · rw [hextents]
      exact List.nodup_nil
    · rw [hextents]
      exact List.nodup_nil
    · rw [hextents]
      nofun
    · rw [hreservations]
      nofun
  have h := ledger_run hempty run
  exact ⟨h, fun call => (ledger_step h call).2⟩

/-- INTERNAL: a database with one physical file and an empty ledger. -/
def emptyLedger : Db := { Db.empty with physicalFiles := [1] }

/-- INTERNAL: an extent that was reserved, committed and pinned. -/
def pinnedLedger : Db :=
  let reserved := ((LedgerCall.reserve ⟨7, 1, 0, 4096, .reserved, none, none, 0, 0, 5⟩
    ⟨7, 3, 5, 90⟩).run emptyLedger).2
  let committed := ((LedgerCall.commit 7 11 13 6).run reserved).2
  ((LedgerCall.adjustPin 7 1).run committed).2

/-- INTERNAL: an extent is reserved, committed and pinned. -/
theorem pinned_extent_stays :
    (pinnedLedger.physicalExtents.map fun e => (e.state, e.pinCount)) = [(.alive, 1)] ∧
      LedgerConsistent pinnedLedger ∧
      LedgerStep pinnedLedger ((LedgerCall.markDead 7 8).run pinnedLedger) := by
  have run : LedgerReaches emptyLedger pinnedLedger := ((LedgerReaches.start.call _).call _).call _
  obtain ⟨hconsistent, hstep⟩ := physical_ledger_consistent rfl rfl run
  exact ⟨by decide +kernel, hconsistent, hstep _⟩

end Mirage.Analysis
