import Mirage.Analysis.JournalSequences
import Mirage.Interface.ExtentCommitRun

/-!
# What a commit writes

Two code paths store a version of an inode's extents: the mutation of a journal operation
and the direct replacement.  Both end with the same tables, `replaced`.  A mutation also
moves one ledger row from reserved to alive.  Nothing after this module unfolds the
transactions again.
-/

set_option autoImplicit false

namespace Mirage.Analysis

open Mirage.Model Mirage.Interface Mirage.Computation Mirage.Computation.Txn

/-! ## Versions -/

/-- INTERNAL: the row a mutation stores for one of its extents. -/
def stored (mutation : ExtentMutation) (nowNs : Int) (extent : ByteExtent) : ByteExtent :=
  { extent with
    volumeId := mutation.volumeId
    inode := mutation.inode
    version := mutation.version
    createdNs := nowNs }

/-- INTERNAL: the tables with the rows of one version replaced and the head advanced. -/
def replaced (mutation : ExtentMutation) (nowNs : Int) (db : Db) : Db :=
  { db with
    byteExtents :=
      (db.byteExtents.filter fun e =>
        ¬ (e.volumeId = mutation.volumeId ∧ e.inode = mutation.inode ∧
          e.version = mutation.version)) ++ mutation.extents.map (stored mutation nowNs)
    byteExtentHeads := upsertHead db.byteExtentHeads
      ⟨mutation.volumeId, mutation.inode, mutation.version, mutation.eof, nowNs⟩ }

/-- INTERNAL: the tables after a request that carries a version, as far as versions go. -/
def versionsAfter (version : Option (ExtentMutation × Int)) (db : Db) : Db :=
  match version with
  | some (mutation, nowNs) => replaced mutation nowNs db
  | none => db

/-- INTERNAL: the tables of versions. -/
def versions (db : Db) : List ByteExtent × List ByteExtentHead :=
  (db.byteExtents, db.byteExtentHeads)

variable {mutation : ExtentMutation} {nowNs : Int} {db db' : Db} {r : Unit × Db}
  {extents : Option ExtentMutation} {physical : Option PhysicalCommit}

theorem insertExtent_ok {extent : ByteExtent} (h : insertExtent mutation nowNs extent db = .ok r) :
    r.2 = { db with byteExtents := db.byteExtents ++ [stored mutation nowNs extent] } := by
  unfold insertExtent at h
  rw [get_bind_ok] at h
  obtain ⟨-, h⟩ := demand_bind_ok.mp h
  rw [modify_ok.mp h]
  rfl

theorem forM_insertExtent_ok {extents : List ByteExtent}
    (h : extents.forM (insertExtent mutation nowNs) db = .ok r) :
    r.2 =
      { db with byteExtents := db.byteExtents ++ extents.map (stored mutation nowNs) } := by
  induction extents generalizing db with
  | nil =>
    have hr : r = ((), db) := pure_ok.mp h
    rw [hr, List.map_nil, List.append_nil]
  | cons extent rest ih =>
    change (insertExtent mutation nowNs extent >>= fun _ =>
      rest.forM (insertExtent mutation nowNs)) db = .ok r at h
    obtain ⟨_, db₁, hfirst, hrest⟩ := bind_ok.mp h
    have h₁ := insertExtent_ok hfirst
    have h₂ := ih hrest
    change db₁ = _ at h₁
    rw [h₂, h₁, List.append_assoc]
    rfl

theorem applyExtentMutation_ok (h : applyExtentMutation mutation nowNs db = .ok r) :
    r.2 = replaced mutation nowNs db := by
  unfold applyExtentMutation at h
  obtain ⟨_, -, h⟩ := lift_bind_ok.mp h
  replace h := modify_bind_ok.mp h
  obtain ⟨_, db₂, hrows, h⟩ := bind_ok.mp h
  have h₂ := forM_insertExtent_ok hrows
  change db₂ = _ at h₂
  obtain ⟨-, h⟩ := demand_bind_ok.mp h
  rw [modify_ok.mp h, h₂]
  rfl

theorem replaceRows_ok {extents : List ByteExtent} {previousEnd : Option Nat}
    (h : replaceRows mutation nowNs extents previousEnd db = .ok r) :
    r.2 =
      { db with byteExtents := db.byteExtents ++ extents.map (stored mutation nowNs) } := by
  induction extents generalizing db previousEnd with
  | nil =>
    have hr : r = ((), db) := pure_ok.mp h
    rw [hr, List.map_nil, List.append_nil]
  | cons extent rest ih =>
    rw [replaceRows] at h
    obtain ⟨_, -, h⟩ := lift_bind_ok.mp h
    obtain ⟨-, h⟩ := demand_bind_ok.mp h
    obtain ⟨-, h⟩ := demand_bind_ok.mp h
    obtain ⟨-, h⟩ := demand_bind_ok.mp h
    obtain ⟨_, db₁, hfirst, hrest⟩ := bind_ok.mp h
    have h₁ := insertExtent_ok hfirst
    have h₂ := ih hrest
    change db₁ = _ at h₁
    rw [h₂, h₁, List.append_assoc]
    rfl

theorem replaceExtentsWithEof_ok (h : replaceExtentsWithEof mutation nowNs db = .ok r) :
    r.2 = replaced mutation nowNs db := by
  unfold replaceExtentsWithEof at h
  replace h := modify_bind_ok.mp h
  obtain ⟨_, db₂, hrows, h⟩ := bind_ok.mp h
  have h₂ := replaceRows_ok hrows
  change db₂ = _ at h₂
  obtain ⟨-, h⟩ := demand_bind_ok.mp h
  rw [modify_ok.mp h, h₂]
  rfl

/-! ## The ledger -/

theorem commitPhysical_ok {physical : PhysicalCommit}
    (h : commitPhysical physical nowNs db = .ok r) :
    db.physicalExtents.countP
        (fun e => e.extentId = physical.extentId ∧ e.state = .reserved) = 1 ∧
    r.2 = { db with
      physicalExtents := db.physicalExtents.map fun e =>
        if e.extentId = physical.extentId ∧ e.state = .reserved then
          { e with
            state := .alive
            pageHash := some physical.pageHash
            checksum := some physical.checksum
            updatedNs := nowNs }
        else e
      physicalReservations :=
        db.physicalReservations.filter fun r => r.extentId ≠ physical.extentId } := by
  unfold commitPhysical at h
  rw [get_bind_ok] at h
  replace h := modify_bind_ok.mp h
  obtain ⟨hcount, h⟩ := demand_bind_ok.mp h
  refine ⟨by simpa using hcount, ?_⟩
  rw [modify_ok.mp h]

/-- INTERNAL: every row that is dead afterwards was there, dead, before. -/
def DeadBefore (db db' : Db) : Prop :=
  ∀ e ∈ db'.physicalExtents, e.state = .dead → e ∈ db.physicalExtents

instance : Std.Refl DeadBefore := ⟨fun _ _ he _ => he⟩

instance : IsTrans Db DeadBefore :=
  ⟨fun _ _ _ h h' e he hdead => h e (h' e he hdead) hdead⟩

theorem deadBefore_of_same (h : db'.physicalExtents = db.physicalExtents) : DeadBefore db db' := by
  intro e he _
  rwa [h] at he

theorem keeps_deadBefore_reserveExtentIn (extent : PhysicalExtentRecord)
    (reservation : PhysicalReservationRecord) :
    Keeps DeadBefore (reserveExtentIn extent reservation) := by
  unfold reserveExtentIn
  refine keeps_bind (keeps_demand _ _) fun _ => ?_
  refine keeps_bind keeps_get fun db => ?_
  refine keeps_bind (keeps_onlyIf ?_) fun _ => ?_
  · refine keeps_bind (keeps_demand _ _) fun _ => keeps_modify fun db e he hdead => ?_
    rcases List.mem_append.mp he with h | h
    · exact h
    · rw [List.mem_singleton.mp h] at hdead
      cases hdead
  refine keeps_bind (keeps_forSome fun old => ?_) fun _ => ?_
  · refine keeps_bind (keeps_demand _ _) fun _ => ?_
    refine keeps_bind (keeps_demand _ _) fun _ => keeps_modify fun db e he hdead => ?_
    obtain ⟨f, hf, rfl⟩ := List.mem_map.mp he
    split_ifs at hdead ⊢
    exact hf
  refine keeps_bind (keeps_demand _ _) fun _ => keeps_modify fun db => ?_
  exact deadBefore_of_same rfl

theorem keeps_deadBefore_commitPhysical (physical : PhysicalCommit) (nowNs : Int) :
    Keeps DeadBefore (commitPhysical physical nowNs) := by
  intro db _ db' h e he hdead
  have h' : db' = _ := (commitPhysical_ok h).2
  rw [h'] at he
  obtain ⟨f, hf, rfl⟩ := List.mem_map.mp he
  split_ifs at hdead ⊢
  exact hf

/-- INTERNAL: rewriting rows without their keys keeps the keys apart. -/
theorem ledgerKeyed_map (h : LedgerKeyed db) {f : PhysicalExtentRecord → PhysicalExtentRecord}
    (hf : ∀ e, (f e).extentId = e.extentId ∧ (f e).fileId = e.fileId ∧
      (f e).slotIndex = e.slotIndex) (hdb : db'.physicalExtents = db.physicalExtents.map f) :
    LedgerKeyed db' := by
  constructor
  · rw [hdb, List.pairwise_map]
    refine h.extents.imp fun {a b} hab => ?_
    rw [(hf a).1, (hf b).1]
    exact hab
  · rw [hdb, List.pairwise_map]
    refine h.slots.imp fun {a b} hab => ?_
    rw [(hf a).2.1, (hf b).2.1, (hf a).2.2, (hf b).2.2]
    exact hab

theorem ledgerKeyed_of_same (hdb : db'.physicalExtents = db.physicalExtents) (h : LedgerKeyed db) :
    LedgerKeyed db' := by
  apply ledgerKeyed_map h (f := id) (fun _ => ⟨rfl, rfl, rfl⟩)
  rw [hdb, List.map_id]

theorem keeps_ledgerKeyed_commitPhysical (physical : PhysicalCommit) (nowNs : Int) :
    Keeps (Preserves LedgerKeyed) (commitPhysical physical nowNs) := by
  intro db _ db' h hkeys
  have h' : db' = _ := (commitPhysical_ok h).2
  rw [h']
  refine ledgerKeyed_map hkeys (fun e => ?_) rfl
  split_ifs
  · exact ⟨rfl, rfl, rfl⟩
  · exact ⟨rfl, rfl, rfl⟩

/-- INTERNAL: a new row keeps the keys apart where no row has its id and no row its
slot. -/
theorem ledgerKeyed_append (h : LedgerKeyed db) {row : PhysicalExtentRecord}
    (hid : ∀ e ∈ db.physicalExtents, e.extentId ≠ row.extentId)
    (hslot : ∀ e ∈ db.physicalExtents, ¬ (e.fileId = row.fileId ∧ e.slotIndex = row.slotIndex))
    (hdb : db'.physicalExtents = db.physicalExtents ++ [row]) : LedgerKeyed db' := by
  constructor
  · rw [hdb, List.pairwise_append]
    refine ⟨h.extents, List.pairwise_singleton _ _, fun a ha b hb => ?_⟩
    rw [List.mem_singleton.mp hb]
    exact hid a ha
  · rw [hdb, List.pairwise_append]
    refine ⟨h.slots, List.pairwise_singleton _ _, fun a ha b hb => ?_⟩
    rw [List.mem_singleton.mp hb]
    exact hslot a ha

/-- INTERNAL: giving the row of a slot another id keeps the keys apart where no other row
has that id. -/
theorem ledgerKeyed_reclaim (h : LedgerKeyed db) (row : PhysicalExtentRecord)
    (hid : ∀ e ∈ db.physicalExtents,
      (e.fileId = row.fileId ∧ e.slotIndex = row.slotIndex) ∨ e.extentId ≠ row.extentId)
    (hdb : db'.physicalExtents = db.physicalExtents.map fun e =>
      if e.fileId = row.fileId ∧ e.slotIndex = row.slotIndex ∧ e.state = .dead then row else e) :
    LedgerKeyed db' := by
  have hboth := h.extents.and h.slots
  constructor
  · rw [hdb, List.pairwise_map]
    refine hboth.imp_of_mem fun {a b} ha hb hab => ?_
    -- two rows of one slot would contradict the slot key
    split_ifs with h1 h2 h2
    · exact absurd ⟨h1.1.trans h2.1.symm, h1.2.1.trans h2.2.1.symm⟩ hab.2
    · rcases hid b hb with hslot | hne
      · exact absurd ⟨h1.1.trans hslot.1.symm, h1.2.1.trans hslot.2.symm⟩ hab.2
      · exact hne.symm
    · rcases hid a ha with hslot | hne
      · exact absurd ⟨hslot.1.trans h2.1.symm, hslot.2.trans h2.2.1.symm⟩ hab.2
      · exact hne
    · exact hab.1
  · rw [hdb, List.pairwise_map]
    refine h.slots.imp fun {a b} hab => ?_
    split_ifs with h1 h2 h2
    · exact absurd ⟨h1.1.trans h2.1.symm, h1.2.1.trans h2.2.1.symm⟩ hab
    · exact fun hc => hab ⟨h1.1.trans hc.1, h1.2.1.trans hc.2⟩
    · exact fun hc => hab ⟨hc.1.trans h2.1.symm, hc.2.trans h2.2.1.symm⟩
    · exact hab

theorem keeps_ledgerKeyed_reserveExtentIn (extent : PhysicalExtentRecord)
    (reservation : PhysicalReservationRecord) :
    Keeps (Preserves LedgerKeyed) (reserveExtentIn extent reservation) := by
  intro db _ db' h hkeys
  unfold reserveExtentIn at h
  obtain ⟨-, h⟩ := demand_bind_ok.mp h
  rw [get_bind_ok] at h
  obtain ⟨_, db₁, hinsert, h⟩ := bind_ok.mp h
  obtain ⟨_, db₂, hreclaim, h⟩ := bind_ok.mp h
  have hkeys₂ : LedgerKeyed db₂ := by
    cases hocc : db.physicalExtents.find? fun e =>
        e.fileId = extent.fileId ∧ e.slotIndex = extent.slotIndex with
    | none =>
      rw [hocc] at hinsert hreclaim
      cases (forSome_ok.mp hreclaim).resolve_left (by rintro ⟨a, ha, -⟩; cases ha) |>.2
      obtain ⟨-, hinsert⟩ := (onlyIf_ok.mp hinsert).resolve_right (by rintro ⟨hc, -⟩; cases hc)
      obtain ⟨hfree, hinsert⟩ := demand_bind_ok.mp hinsert
      cases modify_ok.mp hinsert
      have hfree := (of_decide_eq_true hfree).1
      refine ledgerKeyed_append hkeys (fun e he => ?_) (fun e he => ?_) rfl
      · simpa using List.all_eq_true.mp hfree e he
      · simpa using List.find?_eq_none.mp hocc e he
    | some old =>
      rw [hocc] at hinsert hreclaim
      cases (onlyIf_ok.mp hinsert).resolve_left (by rintro ⟨hc, -⟩; cases hc) |>.2
      obtain ⟨_, ha, hreclaim⟩ :=
        (forSome_ok.mp hreclaim).resolve_right (by rintro ⟨hc, -⟩; cases hc)
      cases ha
      obtain ⟨-, hreclaim⟩ := demand_bind_ok.mp hreclaim
      obtain ⟨hfree, hreclaim⟩ := demand_bind_ok.mp hreclaim
      cases modify_ok.mp hreclaim
      have hfree := (of_decide_eq_true hfree).1
      let row := { extent with
        state := .reserved, pageHash := none, checksum := none, pinCount := 0 }
      refine ledgerKeyed_reclaim hkeys row (fun e he => ?_) rfl
      simpa using List.all_eq_true.mp hfree e he
  obtain ⟨-, h⟩ := demand_bind_ok.mp h
  cases modify_ok.mp h
  exact ⟨hkeys₂.extents, hkeys₂.slots⟩

/-- INTERNAL: a committed ledger row is alive and has no reservation left. -/
structure Settled (db : Db) (extentId : BitVec 128) : Prop where
  present : ∃ e ∈ db.physicalExtents, e.extentId = extentId
  alive : ∀ e ∈ db.physicalExtents, e.extentId = extentId → e.state = .alive
  unreserved : ∀ r ∈ db.physicalReservations, r.extentId ≠ extentId

theorem settled_commitPhysical {physical : PhysicalCommit} (hkeys : LedgerKeyed db)
    (h : commitPhysical physical nowNs db = .ok r) : Settled r.2 physical.extentId := by
  obtain ⟨hcount, hr⟩ := commitPhysical_ok h
  obtain ⟨e₀, he₀, hsel⟩ := List.countP_pos_iff.mp (by rw [hcount]; exact Nat.one_pos)
  have hsel : e₀.extentId = physical.extentId ∧ e₀.state = .reserved := by simpa using hsel
  rw [hr]
  constructor
  · refine ⟨_, List.mem_map_of_mem he₀, ?_⟩
    rw [if_pos hsel]
    exact hsel.1
  · intro e he hid
    obtain ⟨f, hf, rfl⟩ := List.mem_map.mp he
    split_ifs at hid ⊢ with hif
    · rfl
    · -- the row with this id is the reserved one
      have hfe : f = e₀ := eq_of_key_eq _ hkeys.extents hf he₀ (hid.trans hsel.1.symm)
      exact absurd (hfe ▸ hsel) hif
  · intro r hr
    simpa using (List.mem_filter.mp hr).2

/-! ## One commit request -/

/-- INTERNAL: the tables of versions and of the ledger. -/
def extentTables (db : Db) :
    (List ByteExtent × List ByteExtentHead) × List PhysicalExtentRecord ×
      List PhysicalReservationRecord :=
  (versions db, db.physicalExtents, db.physicalReservations)

theorem operationBlind_extentTables : OperationBlind extentTables := fun _ _ _ _ => rfl

theorem namespaceBlind_extentTables : NamespaceBlind extentTables := fun _ _ _ _ _ _ _ => rfl

/-- INTERNAL: storing a version reads nothing but the tables of versions. -/
theorem extentTables_versionsAfter (h : extentTables db' = extentTables db)
    (version : Option (ExtentMutation × Int)) :
    extentTables (versionsAfter version db') = extentTables (versionsAfter version db) := by
  cases version with
  | none => exact h
  | some v =>
    simp only [extentTables, versions, Prod.mk.injEq] at h
    simp only [extentTables, versions, versionsAfter, replaced, h.1.1, h.1.2, h.2.1, h.2.2]

theorem forSome_applyExtentMutation_ok
    (h : Txn.forSome extents (fun mutation => applyExtentMutation mutation nowNs) db = .ok r) :
    r.2 = versionsAfter (extents.map fun m => (m, nowNs)) db := by
  rcases forSome_ok.mp h with ⟨m, rfl, hm⟩ | ⟨rfl, hr⟩
  · exact applyExtentMutation_ok hm
  · rw [hr]
    rfl

/-- INTERNAL: a mutation stores its version and then settles its ledger row. -/
theorem commitMutationIn_ok {operation : OperationRecord} {payloads : List OperationPayloadRecord}
    (h : commitMutationIn extents operation payloads physical nowNs db = .ok r) :
    ∃ db₁, extentTables db₁ =
        extentTables (versionsAfter (extents.map fun m => (m, nowNs)) db) ∧
      Txn.forSome physical (fun commit => commitPhysical commit nowNs) db₁ = .ok r := by
  unfold commitMutationIn at h
  obtain ⟨_, db₁, hcheck, h⟩ := bind_ok.mp h
  obtain ⟨_, db₂, hoperation, h⟩ := bind_ok.mp h
  obtain ⟨_, db₃, hpayloads, h⟩ := bind_ok.mp h
  obtain ⟨_, db₄, hversion, h⟩ := bind_ok.mp h
  obtain ⟨_, db₅, hpending, h⟩ := bind_ok.mp h
  refine ⟨db₅, ?_, h⟩
  have hpayload : ∀ payload,
      Keeps (SameOn extentTables) (insertDurablePayload operation nowNs payload) := by
    intro payload
    unfold insertDurablePayload
    exact keeps_bind (keeps_demand _ _) fun _ =>
      keeps_insertPayload operationBlind_extentTables _ _ payload
  have h₁ : extentTables db₁ = extentTables db :=
    keeps_checkNewOperation operation db () db₁ hcheck
  have h₂ : extentTables db₂ = extentTables db₁ :=
    keeps_insertOperation operationBlind_extentTables operation db₁ () db₂ hoperation
  have h₃ : extentTables db₃ = extentTables db₂ :=
    keeps_forM hpayload db₂ () db₃ hpayloads
  have h₄ : db₄ = versionsAfter (extents.map fun m => (m, nowNs)) db₃ :=
    forSome_applyExtentMutation_ok hversion
  have h₅ : extentTables db₅ = extentTables db₄ :=
    keeps_commitPending operationBlind_extentTables _ db₄ () db₅ hpending
  rw [h₅, h₄]
  exact extentTables_versionsAfter (h₃.trans (h₂.trans h₁)) _

/-- INTERNAL: what a commit request leaves in the tables of versions and in the ledger. -/
structure CommitEffect (version : Option (ExtentMutation × Int))
    (physical : Option PhysicalCommit) (db db' : Db) : Prop where
  versions : versions db' = versions (versionsAfter version db)
  dead : DeadBefore db db'
  keyed : LedgerKeyed db → LedgerKeyed db'
  settled : LedgerKeyed db → ∀ p ∈ physical, Settled db' p.extentId

theorem commitEffect_commitMutationIn {operation : OperationRecord}
    {payloads : List OperationPayloadRecord}
    (h : commitMutationIn extents operation payloads physical nowNs db = .ok r) :
    CommitEffect (extents.map fun m => (m, nowNs)) physical db r.2 := by
  obtain ⟨db₁, htables, hcommit⟩ := commitMutationIn_ok h
  have hphysical : db₁.physicalExtents = db.physicalExtents := by
    have := congrArg (fun t => t.2.1) htables
    cases extents with
    | none => exact this
    | some m => exact this
  have hversions : versions db₁ = versions (versionsAfter (extents.map fun m => (m, nowNs)) db) :=
    congrArg Prod.fst htables
  rcases forSome_ok.mp hcommit with ⟨p, rfl, hp⟩ | ⟨rfl, hr⟩
  · constructor
    · rw [← hversions, (commitPhysical_ok hp).2]
      rfl
    · have h₂ := keeps_deadBefore_commitPhysical p nowNs db₁ () r.2 hp
      exact IsTrans.trans _ _ _ (deadBefore_of_same hphysical) h₂
    · intro hkeys
      exact keeps_ledgerKeyed_commitPhysical p nowNs db₁ () r.2 hp
        (ledgerKeyed_of_same hphysical hkeys)
    · intro hkeys q hq
      cases hq
      exact settled_commitPhysical (ledgerKeyed_of_same hphysical hkeys) hp
  · rw [hr]
    constructor
    · exact hversions
    · exact deadBefore_of_same hphysical
    · exact ledgerKeyed_of_same hphysical
    · intro _ q hq
      cases hq

/-- INTERNAL: an effect carries over to tables that agree before and after. -/
theorem CommitEffect.congr {version : Option (ExtentMutation × Int)} {db₀ db₁ : Db}
    (h : CommitEffect version physical db db')
    (hversions : Analysis.versions db = Analysis.versions db₀) (hdead : DeadBefore db₀ db)
    (hkeyed : LedgerKeyed db₀ → LedgerKeyed db) (hafter : extentTables db₁ = extentTables db') :
    CommitEffect version physical db₀ db₁ := by
  have hphysical : db₁.physicalExtents = db'.physicalExtents :=
    congrArg (fun t => t.2.1) hafter
  have hreservations : db₁.physicalReservations = db'.physicalReservations :=
    congrArg (fun t => t.2.2) hafter
  constructor
  · rw [show Analysis.versions db₁ = Analysis.versions db' from congrArg Prod.fst hafter,
      h.versions]
    cases version with
    | none => exact hversions
    | some v =>
      simp only [Analysis.versions, Prod.mk.injEq] at hversions
      simp only [Analysis.versions, versionsAfter, replaced, hversions.1, hversions.2]
  · exact IsTrans.trans _ _ _ (IsTrans.trans _ _ _ hdead h.dead) (deadBefore_of_same hphysical)
  · intro hkeys
    exact ledgerKeyed_of_same hphysical (h.keyed (hkeyed hkeys))
  · intro hkeys p hp
    have hsettled := h.settled (hkeyed hkeys) p hp
    exact ⟨hphysical ▸ hsettled.present, hphysical ▸ hsettled.alive,
      hreservations ▸ hsettled.unreserved⟩

theorem allocateDeviceSeqIn_extentTables {v : RepositoryId} {x : Int}
    (h : allocateDeviceSeqIn v db = .ok (x, db')) : extentTables db' = extentTables db := by
  rcases allocateDeviceSeqIn_ok h with ⟨-, -, rfl⟩ | ⟨row, -, -, rfl⟩
  · rfl
  · rfl

theorem commitEffect_sequencedMutationCommit {mutation : SequencedMutation}
    (h : sequencedMutationCommit mutation db = .ok r) :
    CommitEffect (mutation.extents.map fun m => (m, mutation.nowNs)) mutation.physical db r.2 := by
  unfold sequencedMutationCommit at h
  obtain ⟨_, db₁, hreserve, h⟩ := bind_ok.mp h
  obtain ⟨seq, db₂, hallocate, h⟩ := bind_ok.mp h
  obtain ⟨_, db₃, hcommit, hstamp⟩ := bind_ok.mp h
  have hreserved : Analysis.versions db₁ = Analysis.versions db :=
    keeps_forSome (fun _ => keeps_reserveExtentIn (fun _ _ _ => rfl) _ _) db () db₁ hreserve
  have hdead : DeadBefore db db₁ :=
    keeps_forSome (fun _ => keeps_deadBefore_reserveExtentIn _ _) db () db₁ hreserve
  have hkeyed : LedgerKeyed db → LedgerKeyed db₁ :=
    keeps_forSome (fun _ => keeps_ledgerKeyed_reserveExtentIn _ _) db () db₁ hreserve
  have hallocated := allocateDeviceSeqIn_extentTables hallocate
  have hphysical : db₂.physicalExtents = db₁.physicalExtents :=
    congrArg (fun t => t.2.1) hallocated
  have hstamped : extentTables r.2 = extentTables db₃ :=
    keeps_forSome (fun _ => keeps_stampModified namespaceBlind_extentTables _ _ _)
      db₃ () r.2 hstamp
  refine (commitEffect_commitMutationIn hcommit).congr ?_ ?_ ?_ hstamped
  · exact (congrArg Prod.fst hallocated).trans hreserved
  · exact IsTrans.trans _ _ _ hdead (deadBefore_of_same hphysical)
  · intro hkeys
    exact ledgerKeyed_of_same hphysical (hkeyed hkeys)

/-- INTERNAL: every request that stores a version has the effect of a commit. -/
theorem commitEffect_transaction {call : ExtentCall} {dead : List (PayloadId × Int)}
    (hcommits : call.commits) (h : call.transaction db = .ok (dead, db')) :
    CommitEffect call.version call.physicalCommit db db' := by
  cases call with
  | sequencedMutation mutation =>
    obtain ⟨_, _, hrun, h⟩ := bind_ok.mp h
    cases pure_ok.mp h
    exact commitEffect_sequencedMutationCommit hrun
  | commitMutation extents operation payloads physical nowNs =>
    obtain ⟨_, _, hrun, h⟩ := bind_ok.mp h
    cases pure_ok.mp h
    exact commitEffect_commitMutationIn hrun
  | replaceExtents mutation nowNs =>
    obtain ⟨_, _, hrun, h⟩ := bind_ok.mp h
    cases pure_ok.mp h
    have hdb := replaceExtentsWithEof_ok hrun
    change db' = _ at hdb
    rw [hdb]
    exact ⟨rfl, deadBefore_of_same rfl, ledgerKeyed_of_same rfl, fun _ _ hp => by cases hp⟩
  | dropVersions volumeId inode keepFrom => cases hcommits
  | compactVolume volumeId journalFileId nowNs => cases hcommits
  | releaseInode volumeId inode journalFileId nowNs => cases hcommits

end Mirage.Analysis
