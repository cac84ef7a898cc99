import Mirage.Analysis.JournalSequences
import Mirage.Computation.Bisect

/-!
# The life of a journal operation

What a request does to the operation rows is one of two things: it moves some of them one
step on (`Becomes`), or it adds one row, which the request itself may commit.  `JournalInv`
ties the two tables together: every payload has its operation, and an operation leaves
`pending` for `committed` only with all its payloads flushed.  A payload that arrives later
would break this, but payloads are inserted only together with their operation.
-/

set_option autoImplicit false

namespace Mirage.Analysis

open Mirage.Model Mirage.Interface Mirage.Computation Mirage.Computation.Txn

/-! ## What a request does to the operations -/

/-- INTERNAL: the rows before, each the same or one move later, and the rows of new
operations. -/
def Advanced (ops ops' : List OperationRecord) : Prop :=
  ∃ (f : OperationRecord → OperationRecord) (born : List OperationRecord),
    ops' = ops.map f ++ born ∧ (∀ o : OperationRecord, o.Becomes (f o)) ∧
      ∀ o ∈ born, o.status = .pending ∨ o.status = .committed

theorem becomes_refl (o : OperationRecord) : o.Becomes o := ⟨rfl, rfl, rfl, .inl rfl⟩

variable {ops : List OperationRecord} {p : OperationRecord → Bool} {status : OperationStatus}
  {db db' : Db} {id : BitVec 128} {operation : OperationRecord} {volumeId : RepositoryId}
  {ext : Externals}

theorem advanced_same {ops' : List OperationRecord} (h : ops' = ops) : Advanced ops ops' := by
  refine ⟨id, [], by simpa using h, becomes_refl, ?_⟩
  intro o ho
  cases ho

theorem advanced_map {f : OperationRecord → OperationRecord}
    (h : ∀ o : OperationRecord, o.Becomes (f o)) : Advanced ops (ops.map f) := by
  refine ⟨f, [], (List.append_nil _).symm, h, ?_⟩
  intro o ho
  cases ho

/-- INTERNAL: a status update that follows the life of the rows it selects. -/
theorem becomes_update (h : ∀ o, p o = true → o.status.Next status) (o : OperationRecord) :
    o.Becomes (if p o then { o with status := status } else o) := by
  by_cases hp : p o = true
  · rw [if_pos hp]
    exact ⟨rfl, rfl, rfl, .inr (h o hp)⟩
  · rw [if_neg hp]
    exact becomes_refl o

/-- INTERNAL: what `commitPending` does to a row. -/
def committedAt (id : BitVec 128) (o : OperationRecord) : OperationRecord :=
  if o.operationId = id ∧ o.status = .pending then { o with status := .committed } else o

theorem becomes_committedAt (id : BitVec 128) (o : OperationRecord) :
    o.Becomes (committedAt id o) := by
  unfold committedAt
  by_cases h : o.operationId = id ∧ o.status = .pending
  · rw [if_pos h]
    refine ⟨rfl, rfl, rfl, .inr ?_⟩
    rw [h.2]
    exact .commit
  · rw [if_neg h]
    exact becomes_refl o

/-- INTERNAL: a new row and its commit in one request. -/
theorem advanced_insert_commit {ops' : List OperationRecord} (row : OperationRecord)
    (hrow : row.status = .pending) (h : ops' = (ops ++ [row]).map (committedAt row.operationId)) :
    Advanced ops ops' := by
  refine ⟨committedAt row.operationId, [committedAt row.operationId row], ?_,
    becomes_committedAt _, ?_⟩
  · rw [h, List.map_append, List.map_singleton]
  · intro o ho
    rw [List.mem_singleton.mp ho, committedAt, if_pos ⟨rfl, hrow⟩]
    exact .inr rfl

/-! ## The functions of the journal -/

theorem updateStatus_ok (h : updateStatus p status db = .ok ((), db')) :
    db' = { db with
      localOperations := db.localOperations.map fun o =>
        if p o then { o with status := status } else o } :=
  congrArg Prod.snd (modify_ok.mp h)

theorem commitPending_ok (h : commitPending id db = .ok ((), db')) :
    db' = { db with localOperations := db.localOperations.map (committedAt id) } := by
  unfold commitPending at h
  rw [get_bind_ok] at h
  obtain ⟨_, _, hupdate, h⟩ := bind_ok.mp h
  cases (demand_ok.mp h).2
  rw [updateStatus_ok hupdate]
  simp only [decide_eq_true_eq]
  rfl

theorem commitOperationIn_ok (h : commitOperationIn id db = .ok ((), db')) :
    (∀ p ∈ db.operationPayloads, p.operationId = id → p.flushedNs.isSome) ∧
      db' = { db with localOperations := db.localOperations.map (committedAt id) } := by
  unfold commitOperationIn at h
  rw [get_bind_ok, demand_bind_ok] at h
  refine ⟨?_, commitPending_ok h.2⟩
  intro p hp hid
  have hflushed := List.all_eq_true.mp h.1 p hp
  rw [Option.isSome_iff_ne_none]
  simpa [hid] using hflushed

theorem insertOperation_ok (h : insertOperation operation db = .ok ((), db')) :
    (∀ o ∈ db.localOperations, o.operationId ≠ operation.operationId) ∧
      db.sequenceFree operation.volumeId operation.deviceSeq ∧
      db' = { db with
        localOperations := db.localOperations ++ [{ operation with status := .pending }] } := by
  unfold insertOperation constraint at h
  rw [get_bind_ok, demand_bind_ok] at h
  obtain ⟨hc, h⟩ := h
  obtain ⟨hid, hseq, -⟩ := of_decide_eq_true hc
  refine ⟨fun o ho => ?_, hseq, congrArg Prod.snd (modify_ok.mp h)⟩
  simpa using List.all_eq_true.mp hid o ho

theorem checkNewOperation_ok (h : checkNewOperation operation db = .ok ((), db')) : db' = db := by
  unfold checkNewOperation at h
  rw [demand_bind_ok, get_bind_ok] at h
  exact congrArg Prod.snd (demand_ok.mp h.2).2

theorem insertPayload_ok {flushedNs : Option Int} {payload : OperationPayloadRecord}
    (h : insertPayload id flushedNs payload db = .ok ((), db')) :
    (∀ p ∈ db.operationPayloads, p.payloadId ≠ payload.payloadId) ∧
      (∃ o ∈ db.localOperations, o.operationId = id) ∧
      db' = { db with
        operationPayloads := db.operationPayloads ++
          [{ payload with operationId := id, flushedNs := flushedNs }] } := by
  unfold insertPayload constraint at h
  rw [get_bind_ok, demand_bind_ok] at h
  obtain ⟨hc, h⟩ := h
  obtain ⟨hid, howner, -⟩ := of_decide_eq_true hc
  refine ⟨fun p hp => ?_, ?_, congrArg Prod.snd (modify_ok.mp h)⟩
  · simpa using List.all_eq_true.mp hid p hp
  · simpa using howner

/-! ## The invariant -/

/-- INTERNAL: the keys of both tables, and what ties them together. -/
structure JournalInv (db : Db) : Prop where
  ids : db.localOperations.Pairwise fun o p => o.operationId ≠ p.operationId
  sequences : db.localOperations.Pairwise fun o p =>
    ¬ (o.volumeId = p.volumeId ∧ o.deviceSeq = p.deviceSeq)
  payloadIds : db.operationPayloads.Pairwise fun p q => p.payloadId ≠ q.payloadId
  owned : ∀ p ∈ db.operationPayloads, ∃ o ∈ db.localOperations, o.operationId = p.operationId
  durable : ∀ o ∈ db.localOperations, o.status.Acknowledged →
    ∀ p ∈ db.operationPayloads, p.operationId = o.operationId → p.flushedNs.isSome

theorem journalInv_of_new (h : NewJournal db) : JournalInv db := by
  obtain ⟨hops, hpayloads⟩ := h
  refine ⟨?_, ?_, ?_, ?_, ?_⟩
  · rw [hops]; exact List.Pairwise.nil
  · rw [hops]; exact List.Pairwise.nil
  · rw [hpayloads]; exact List.Pairwise.nil
  · rw [hpayloads]; simp
  · rw [hops]; simp

/-- INTERNAL: the part of the database that the invariant reads. -/
def operationTables (db : Db) : List OperationRecord × List OperationPayloadRecord :=
  (db.localOperations, db.operationPayloads)

theorem JournalInv.of_same (h : JournalInv db) (hsame : SameOn operationTables db db') :
    JournalInv db' := by
  have hops : db'.localOperations = db.localOperations := congrArg Prod.fst hsame
  have hpayloads : db'.operationPayloads = db.operationPayloads := congrArg Prod.snd hsame
  constructor
  · rw [hops]; exact h.ids
  · rw [hops]; exact h.sequences
  · rw [hpayloads]; exact h.payloadIds
  · rw [hops, hpayloads]; exact h.owned
  · rw [hops, hpayloads]; exact h.durable

/-- INTERNAL: moving operations on keeps the invariant, if those that become acknowledged
have all their payloads flushed. -/
theorem JournalInv.revise (h : JournalInv db) {f : OperationRecord → OperationRecord}
    (hf : ∀ o : OperationRecord, o.Becomes (f o))
    (hdurable : ∀ o ∈ db.localOperations, (f o).status.Acknowledged →
      o.status.Acknowledged ∨
        ∀ p ∈ db.operationPayloads, p.operationId = o.operationId → p.flushedNs.isSome) :
    JournalInv { db with localOperations := db.localOperations.map f } where
  ids := by
    rw [List.pairwise_map]
    exact h.ids.imp fun hne => by rw [(hf _).id, (hf _).id]; exact hne
  sequences := by
    rw [List.pairwise_map]
    refine h.sequences.imp fun hne => ?_
    rw [(hf _).volume, (hf _).volume, (hf _).sequence, (hf _).sequence]
    exact hne
  payloadIds := h.payloadIds
  owned := by
    intro p hp
    obtain ⟨o, ho, hid⟩ := h.owned p hp
    exact ⟨f o, List.mem_map_of_mem ho, (hf o).id.trans hid⟩
  durable := by
    intro o' ho' hack p hp hid
    obtain ⟨o, ho, rfl⟩ := List.mem_map.mp ho'
    rw [(hf o).id] at hid
    rcases hdurable o ho hack with hold | hall
    · exact h.durable o ho hold p hp hid
    · exact hall p hp hid

/-- INTERNAL: a status that only acknowledged rows or nobody gets. -/
theorem keeps_inv_updateStatus (hnext : ∀ o, p o = true → o.status.Next status)
    (hack : ∀ o, p o = true → status.Acknowledged → o.status.Acknowledged) :
    Keeps (Preserves JournalInv) (updateStatus p status) := by
  intro db _ db' hrun hinv
  rw [updateStatus_ok hrun]
  refine hinv.revise (becomes_update hnext) fun o _ hafter => .inl ?_
  by_cases hp : p o = true
  · rw [if_pos hp] at hafter
    exact hack o hp hafter
  · rw [if_neg hp] at hafter
    exact hafter

/-- INTERNAL: the commit of an operation whose payloads are flushed. -/
theorem JournalInv.commit (h : JournalInv db)
    (hflushed : ∀ p ∈ db.operationPayloads, p.operationId = id → p.flushedNs.isSome) :
    JournalInv { db with localOperations := db.localOperations.map (committedAt id) } := by
  refine h.revise (becomes_committedAt id) fun o _ hack => ?_
  by_cases hid : o.operationId = id ∧ o.status = .pending
  · exact .inr fun p hp howner => hflushed p hp (howner.trans hid.1)
  · rw [committedAt, if_neg hid] at hack
    exact .inl hack

theorem JournalInv.insert (h : JournalInv db) {row : OperationRecord}
    (hid : ∀ o ∈ db.localOperations, o.operationId ≠ row.operationId)
    (hseq : db.sequenceFree row.volumeId row.deviceSeq) (hrow : row.status = .pending) :
    JournalInv { db with localOperations := db.localOperations ++ [row] } where
  ids := by
    refine List.pairwise_append.mpr ⟨h.ids, List.pairwise_singleton _ _, ?_⟩
    intro o ho o' ho'
    rw [List.mem_singleton.mp ho']
    exact hid o ho
  sequences := by
    refine List.pairwise_append.mpr ⟨h.sequences, List.pairwise_singleton _ _, ?_⟩
    intro o ho o' ho'
    rw [List.mem_singleton.mp ho']
    exact hseq o ho
  payloadIds := h.payloadIds
  owned := by
    intro p hp
    obtain ⟨o, ho, howner⟩ := h.owned p hp
    exact ⟨o, List.mem_append_left _ ho, howner⟩
  durable := by
    intro o ho hack p hp howner
    rcases List.mem_append.mp ho with hold | hnew
    · exact h.durable o hold hack p hp howner
    · rw [List.mem_singleton.mp hnew, hrow] at hack
      rcases hack with hno | hno | hno <;> cases hno

/-- INTERNAL: a payload for an operation that is not acknowledged, or one that is flushed. -/
theorem JournalInv.insertPayload (h : JournalInv db) {payload : OperationPayloadRecord}
    (hid : ∀ p ∈ db.operationPayloads, p.payloadId ≠ payload.payloadId)
    (howner : ∃ o ∈ db.localOperations, o.operationId = payload.operationId)
    (hdurable : payload.flushedNs.isSome ∨
      ∀ o ∈ db.localOperations, o.operationId = payload.operationId → o.status = .pending) :
    JournalInv { db with operationPayloads := db.operationPayloads ++ [payload] } where
  ids := h.ids
  sequences := h.sequences
  payloadIds := by
    refine List.pairwise_append.mpr ⟨h.payloadIds, List.pairwise_singleton _ _, ?_⟩
    intro p hp q hq
    rw [List.mem_singleton.mp hq]
    exact hid p hp
  owned := by
    intro p hp
    rcases List.mem_append.mp hp with hold | hnew
    · exact h.owned p hold
    · rw [List.mem_singleton.mp hnew]
      exact howner
  durable := by
    intro o ho hack p hp hpo
    rcases List.mem_append.mp hp with hold | hnew
    · exact h.durable o ho hack p hold hpo
    · rw [List.mem_singleton.mp hnew] at hpo ⊢
      rcases hdurable with hflushed | hpending
      · exact hflushed
      · rw [hpending o ho hpo.symm] at hack
        rcases hack with hno | hno | hno <;> cases hno

theorem keeps_inv_markPayloadFlushed (payloadId : PayloadId) (checksum : BitVec 256)
    (nowNs : Int) : Keeps (Preserves JournalInv) (markPayloadFlushed payloadId checksum nowNs) := by
  intro db _ db' hrun hinv
  unfold markPayloadFlushed at hrun
  rw [get_bind_ok, demand_bind_ok] at hrun
  cases modify_ok.mp hrun.2
  let mark (p : OperationPayloadRecord) : OperationPayloadRecord :=
    if p.payloadId = payloadId ∧ p.flushedNs = none then
      { p with flushedNs := some nowNs, checksum := some checksum }
    else p
  have hmark : ∀ p, (mark p).payloadId = p.payloadId ∧ (mark p).operationId = p.operationId ∧
      (p.flushedNs.isSome → (mark p).flushedNs.isSome) := by
    intro p
    by_cases hp : p.payloadId = payloadId ∧ p.flushedNs = none
    · simp [mark, hp]
    · simp [mark, hp]
  exact {
    ids := hinv.ids
    sequences := hinv.sequences
    payloadIds := by
      change (db.operationPayloads.map mark).Pairwise _
      rw [List.pairwise_map]
      refine hinv.payloadIds.imp fun hne => ?_
      rw [(hmark _).1, (hmark _).1]
      exact hne
    owned := by
      intro p' hp'
      obtain ⟨p, hp, rfl⟩ := List.mem_map.mp (show p' ∈ db.operationPayloads.map mark from hp')
      obtain ⟨o, ho, howner⟩ := hinv.owned p hp
      exact ⟨o, ho, howner.trans (hmark p).2.1.symm⟩
    durable := by
      intro o ho hack p' hp' hid
      obtain ⟨p, hp, rfl⟩ := List.mem_map.mp (show p' ∈ db.operationPayloads.map mark from hp')
      exact (hmark p).2.2 (hinv.durable o ho hack p hp ((hmark p).2.1.symm.trans hid)) }

/-! ## Every request -/

theorem ops_beginOperationIn {payloads : List OperationPayloadRecord}
    (h : beginOperationIn operation payloads db = .ok ((), db')) :
    db'.localOperations = db.localOperations ++ [{ operation with status := .pending }] := by
  unfold beginOperationIn at h
  obtain ⟨_, _, hcheck, h⟩ := bind_ok.mp h
  cases checkNewOperation_ok hcheck
  obtain ⟨_, _, hinsert, h⟩ := bind_ok.mp h
  cases (insertOperation_ok hinsert).2.2
  have hpayloads : Keeps (SameOn Db.localOperations)
      (payloads.forM (insertPayload operation.operationId none)) := by
    refine keeps_forM fun payload db _ db' hrun => ?_
    rw [(insertPayload_ok hrun).2.2]
    rfl
  exact hpayloads _ _ _ h

theorem keeps_inv_beginOperationIn (operation : OperationRecord)
    (payloads : List OperationPayloadRecord) :
    Keeps (Preserves JournalInv) (beginOperationIn operation payloads) := by
  intro db _ db' h hinv
  unfold beginOperationIn at h
  obtain ⟨_, _, hcheck, h⟩ := bind_ok.mp h
  cases checkNewOperation_ok hcheck
  obtain ⟨_, _, hinsert, h⟩ := bind_ok.mp h
  obtain ⟨hid, hseq, rfl⟩ := insertOperation_ok hinsert
  -- the payloads are inserted while their operation is pending
  let Pending (db : Db) : Prop := JournalInv db ∧
    ∀ o ∈ db.localOperations, o.operationId = operation.operationId → o.status = .pending
  have hpayloads : Keeps (Preserves Pending)
      (payloads.forM (insertPayload operation.operationId none)) := by
    refine keeps_forM fun payload db _ db' hrun hpending => ?_
    obtain ⟨hfresh, howner, rfl⟩ := insertPayload_ok hrun
    exact ⟨hpending.1.insertPayload hfresh howner (.inr hpending.2), hpending.2⟩
  refine (hpayloads _ _ _ h ⟨hinv.insert hid hseq rfl, ?_⟩).1
  intro o ho hsame
  rcases List.mem_append.mp ho with hold | hnew
  · exact absurd hsame (hid o hold)
  · rw [List.mem_singleton.mp hnew]

theorem keeps_inv_commitOperationIn (id : BitVec 128) :
    Keeps (Preserves JournalInv) (commitOperationIn id) := by
  intro db _ db' h hinv
  obtain ⟨hflushed, rfl⟩ := commitOperationIn_ok h
  exact hinv.commit hflushed

theorem keeps_same_applyExtents (extents : Option ExtentMutation) (nowNs : Int) :
    Keeps (SameOn operationTables)
      (Txn.forSome extents fun mutation => applyExtentMutation mutation nowNs) :=
  keeps_forSome fun mutation =>
    keeps_applyExtentMutation (fun _ _ _ _ _ => rfl) mutation nowNs

theorem keeps_same_commitPhysical (physical : Option PhysicalCommit) (nowNs : Int) :
    Keeps (SameOn operationTables)
      (Txn.forSome physical fun commit => commitPhysical commit nowNs) :=
  keeps_forSome fun commit => keeps_commitPhysical (fun _ _ _ => rfl) commit nowNs

theorem operations_commitMutationIn {extents : Option ExtentMutation}
    {payloads : List OperationPayloadRecord} {physical : Option PhysicalCommit} {nowNs : Int}
    (h : commitMutationIn extents operation payloads physical nowNs db = .ok ((), db')) :
    (JournalInv db → JournalInv db') ∧
      db'.localOperations =
        (db.localOperations ++ [{ operation with status := .pending }]).map
          (committedAt operation.operationId) := by
  unfold commitMutationIn at h
  obtain ⟨_, _, hcheck, h⟩ := bind_ok.mp h
  cases checkNewOperation_ok hcheck
  obtain ⟨_, _, hinsert, h⟩ := bind_ok.mp h
  obtain ⟨hid, hseq, rfl⟩ := insertOperation_ok hinsert
  obtain ⟨_, db₁, hpayloads, h⟩ := bind_ok.mp h
  obtain ⟨_, db₂, hextents, h⟩ := bind_ok.mp h
  obtain ⟨_, db₃, hcommit, h⟩ := bind_ok.mp h
  have hsame₂ := keeps_same_applyExtents extents nowNs _ _ _ hextents
  have hsame₃ := keeps_same_commitPhysical physical nowNs _ _ _ h
  -- the payloads of the new operation arrive flushed
  let Flushed (db : Db) : Prop := JournalInv db ∧
    ∀ p ∈ db.operationPayloads, p.operationId = operation.operationId → p.flushedNs.isSome
  have hinserts : Keeps (Preserves Flushed)
      (payloads.forM (insertDurablePayload operation nowNs)) := by
    refine keeps_forM fun payload db _ db' hrun hflushed => ?_
    unfold insertDurablePayload at hrun
    obtain ⟨hfresh, howner, rfl⟩ := insertPayload_ok (demand_bind_ok.mp hrun).2
    refine ⟨hflushed.1.insertPayload hfresh howner (.inl rfl), ?_⟩
    intro p hp hp'
    rcases List.mem_append.mp hp with hold | hnew
    · exact hflushed.2 p hold hp'
    · rw [List.mem_singleton.mp hnew]
      rfl
  have hops₁ : Keeps (SameOn Db.localOperations)
      (payloads.forM (insertDurablePayload operation nowNs)) := by
    refine keeps_forM fun payload db _ db' hrun => ?_
    unfold insertDurablePayload at hrun
    rw [(insertPayload_ok (demand_bind_ok.mp hrun).2).2.2]
    rfl
  have hcommitted := commitPending_ok hcommit
  constructor
  · intro hinv
    have hflushed : Flushed db₁ := by
      refine hinserts _ _ _ hpayloads ⟨hinv.insert hid hseq rfl, ?_⟩
      intro p hp hsame
      obtain ⟨o, ho, howner⟩ := hinv.owned p hp
      exact absurd (howner.trans hsame) (hid o ho)
    have hpayloads₂ : db₂.operationPayloads = db₁.operationPayloads := congrArg Prod.snd hsame₂
    have hinv₃ : JournalInv db₃ := by
      rw [hcommitted]
      exact (hflushed.1.of_same hsame₂).commit (hpayloads₂ ▸ hflushed.2)
    exact hinv₃.of_same hsame₃
  · have hops₂ : db₂.localOperations = db₁.localOperations := congrArg Prod.fst hsame₂
    have hops₃ : db'.localOperations = db₃.localOperations := congrArg Prod.fst hsame₃
    have hops₁ : db₁.localOperations = _ := hops₁ _ _ _ hpayloads
    rw [hops₃, hcommitted, hops₂, hops₁]

theorem keeps_same_allocate (volumeId : RepositoryId) :
    Keeps (SameOn operationTables) (allocateDeviceSeqIn volumeId) := by
  intro db x db' h
  rcases allocateDeviceSeqIn_ok h with ⟨-, -, rfl⟩ | ⟨row, -, -, rfl⟩
  · rfl
  · rfl

/-- INTERNAL: a request as far as it concerns the operations: the invariant is kept, and the
rows are followed. -/
def Follows (t : Transaction Unit) : Prop :=
  ∀ db db', t db = .ok ((), db') →
    (JournalInv db → JournalInv db') ∧ Advanced db.localOperations db'.localOperations

theorem follows_of_same {t : Transaction Unit} (h : Keeps (SameOn operationTables) t) :
    Follows t := by
  intro db db' hrun
  have hsame := h _ _ _ hrun
  exact ⟨fun hinv => hinv.of_same hsame, advanced_same (congrArg Prod.fst hsame)⟩

/-- INTERNAL: a request between changes to other tables. -/
theorem follows_between {α : Type} {before : Transaction α} {t : α → Transaction Unit}
    (hbefore : Keeps (SameOn operationTables) before) (h : ∀ a, Follows (t a)) :
    Follows (before >>= t) := by
  intro db db' hrun
  obtain ⟨a, db₁, hfirst, hrun⟩ := bind_ok.mp hrun
  have hsame := hbefore _ _ _ hfirst
  obtain ⟨hinv, hadvanced⟩ := h a _ _ hrun
  have hops : db₁.localOperations = db.localOperations := congrArg Prod.fst hsame
  rw [hops] at hadvanced
  exact ⟨fun hold => hinv (hold.of_same hsame), hadvanced⟩

theorem follows_then {t after : Transaction Unit} (h : Follows t)
    (hafter : Keeps (SameOn operationTables) after) : Follows (t >>= fun _ => after) := by
  intro db db' hrun
  obtain ⟨_, db₁, hfirst, hrun⟩ := bind_ok.mp hrun
  have hsame := hafter _ _ _ hrun
  obtain ⟨hinv, hadvanced⟩ := h _ _ hfirst
  have hops : db'.localOperations = db₁.localOperations := congrArg Prod.fst hsame
  rw [← hops] at hadvanced
  exact ⟨fun hold => (hinv hold).of_same hsame, hadvanced⟩

theorem follows_updateStatus (hnext : ∀ o, p o = true → o.status.Next status)
    (hack : ∀ o, p o = true → status.Acknowledged → o.status.Acknowledged) :
    Follows (updateStatus p status) := by
  intro db db' hrun
  refine ⟨keeps_inv_updateStatus hnext hack db () db' hrun, ?_⟩
  rw [updateStatus_ok hrun]
  exact advanced_map (becomes_update hnext)

theorem follows_commitOperationIn (id : BitVec 128) : Follows (commitOperationIn id) := by
  intro db db' hrun
  refine ⟨keeps_inv_commitOperationIn id db () db' hrun, ?_⟩
  rw [(commitOperationIn_ok hrun).2]
  exact advanced_map (becomes_committedAt id)

theorem follows_beginOperationIn (operation : OperationRecord)
    (payloads : List OperationPayloadRecord) : Follows (beginOperationIn operation payloads) := by
  intro db db' hrun
  refine ⟨keeps_inv_beginOperationIn operation payloads db () db' hrun, ?_⟩
  refine ⟨id, _, by rw [List.map_id]; exact ops_beginOperationIn hrun, becomes_refl, ?_⟩
  intro o ho
  rw [List.mem_singleton.mp ho]
  exact .inl rfl

theorem follows_commitMutationIn (extents : Option ExtentMutation) (operation : OperationRecord)
    (payloads : List OperationPayloadRecord) (physical : Option PhysicalCommit) (nowNs : Int) :
    Follows (commitMutationIn extents operation payloads physical nowNs) := by
  intro db db' hrun
  obtain ⟨hinv, hops⟩ := operations_commitMutationIn hrun
  exact ⟨hinv, advanced_insert_commit { operation with status := .pending } rfl hops⟩

theorem follows_entry (operation : OperationRecord) :
    Follows (beginOperationIn operation [] >>= fun _ =>
      commitOperationIn operation.operationId) := by
  intro db db' hrun
  obtain ⟨_, db₁, hbegin, hcommit⟩ := bind_ok.mp hrun
  constructor
  · intro hinv
    exact keeps_inv_commitOperationIn _ _ _ _ hcommit
      (keeps_inv_beginOperationIn _ _ _ _ _ hbegin hinv)
  · refine advanced_insert_commit { operation with status := .pending } rfl ?_
    rw [(commitOperationIn_ok hcommit).2, ops_beginOperationIn hbegin]

theorem follows_journalEntryCommitIn (volumeId : RepositoryId) (journal : JournalEntry) :
    Follows (journalEntryCommitIn volumeId journal) :=
  follows_between (keeps_same_allocate volumeId) fun deviceSeq =>
    follows_entry (journal.operation volumeId deviceSeq)

/-- INTERNAL: what the loop of `mark_published` does to a row. -/
def publishedIn (ids : List (BitVec 128)) (o : OperationRecord) : OperationRecord :=
  if o.operationId ∈ ids ∧ o.status = .flushed then { o with status := .published } else o

theorem becomes_publishedIn (ids : List (BitVec 128)) (o : OperationRecord) :
    o.Becomes (publishedIn ids o) := by
  unfold publishedIn
  by_cases h : o.operationId ∈ ids ∧ o.status = .flushed
  · rw [if_pos h]
    refine ⟨rfl, rfl, rfl, .inr ?_⟩
    rw [h.2]
    exact .publish
  · rw [if_neg h]
    exact becomes_refl o

/-- INTERNAL: a row that was published once is not flushed any more, so the loop moves each
row at most once. -/
theorem markPublished_ok {ids : List (BitVec 128)} (h : markPublished ids db = .ok ((), db')) :
    db' = { db with localOperations := db.localOperations.map (publishedIn ids) } := by
  induction ids generalizing db with
  | nil =>
    cases pure_ok.mp (show (pure () : Transaction Unit) db = .ok ((), db') from h)
    have hid : publishedIn [] = id := by
      funext o
      simp [publishedIn]
    rw [hid, List.map_id]
  | cons first ids ih =>
    obtain ⟨_, db₁, hfirst, hrest⟩ := bind_ok.mp
      (show (updateStatus _ _ >>= fun _ => markPublished ids) db = .ok ((), db') from h)
    rw [ih hrest, updateStatus_ok hfirst]
    simp only [List.map_map]
    congr 1
    refine List.map_congr_left fun o _ => ?_
    by_cases hsel : o.operationId = first ∧ o.status = .flushed
    · simp [publishedIn, hsel]
    · by_cases hin : o.operationId ∈ ids ∧ o.status = .flushed
      · have hfirst : ¬ o.operationId = first := fun hid => hsel ⟨hid, hin.2⟩
        simp [publishedIn, hin, hfirst]
      · have hboth : ¬ ((o.operationId = first ∨ o.operationId ∈ ids) ∧ o.status = .flushed) := by
          rintro ⟨hid | hid, hflushed⟩
          · exact hsel ⟨hid, hflushed⟩
          · exact hin ⟨hid, hflushed⟩
        simp [publishedIn, hsel, hin, hboth]

theorem follows_markPublished (ids : List (BitVec 128)) : Follows (markPublished ids) := by
  intro db db' hrun
  rw [markPublished_ok hrun]
  refine ⟨fun hinv => hinv.revise (becomes_publishedIn ids) fun o _ hack => .inl ?_,
    advanced_map (becomes_publishedIn ids)⟩
  by_cases h : o.operationId ∈ ids ∧ o.status = .flushed
  · exact .inr (.inl h.2)
  · rw [publishedIn, if_neg h] at hack
    exact hack

/-- INTERNAL: what `open_flush_group` does to a row: the group is set, the status stays. -/
def groupedInto (volumeId : RepositoryId) (groupId : Int) (o : OperationRecord) :
    OperationRecord :=
  if o.volumeId = volumeId ∧ o.status = .committed ∧ o.flushGroup = none then
    { o with flushGroup := some groupId }
  else o

theorem status_groupedInto (volumeId : RepositoryId) (groupId : Int) (o : OperationRecord) :
    (groupedInto volumeId groupId o).status = o.status := by
  unfold groupedInto
  split_ifs
  · rfl
  · rfl

theorem becomes_groupedInto (volumeId : RepositoryId) (groupId : Int) (o : OperationRecord) :
    o.Becomes (groupedInto volumeId groupId o) := by
  refine ⟨?_, ?_, ?_, .inl (status_groupedInto volumeId groupId o)⟩
  all_goals
    unfold groupedInto
    split_ifs
    · rfl
    · rfl

theorem openFlushGroup_ok {nowNs groupId : Int}
    (h : openFlushGroup volumeId nowNs db = .ok (groupId, db')) :
    ∃ groups, db' = { db with
      flushGroups := groups
      localOperations := db.localOperations.map (groupedInto volumeId groupId) } := by
  unfold openFlushGroup at h
  rw [get_bind_ok] at h
  obtain ⟨-, h⟩ := demand_bind_ok.mp h
  replace h := modify_bind_ok.mp h
  cases pure_ok.mp h
  exact ⟨_, rfl⟩

theorem follows_openFlushGroup (volumeId : RepositoryId) (nowNs : Int) :
    Follows (do let _ ← openFlushGroup volumeId nowNs) := by
  intro db db' hrun
  obtain ⟨groupId, _, hrun, hend⟩ := bind_ok.mp hrun
  cases pure_ok.mp hend
  obtain ⟨groups, rfl⟩ := openFlushGroup_ok hrun
  refine ⟨fun hinv => ?_, advanced_map (becomes_groupedInto volumeId groupId)⟩
  have hrevised := hinv.revise (becomes_groupedInto volumeId groupId) fun o _ hack =>
    .inl (status_groupedInto volumeId groupId o ▸ hack)
  exact hrevised.of_same rfl

theorem follows_markGroupFlushed (groupId nowNs : Int) :
    Follows (do let _ ← markGroupFlushed groupId nowNs) := by
  intro db db' hrun
  obtain ⟨_, _, hrun, hend⟩ := bind_ok.mp hrun
  cases pure_ok.mp hend
  unfold markGroupFlushed at hrun
  rw [get_bind_ok] at hrun
  obtain ⟨_, db₁, hupdate, hrun⟩ := bind_ok.mp hrun
  replace hrun := modify_bind_ok.mp hrun
  cases pure_ok.mp hrun
  have hselected : ∀ o : OperationRecord,
      decide (o.flushGroup = some groupId ∧ o.status = .committed) = true →
        o.status = .committed := fun o h => (of_decide_eq_true h).2
  obtain ⟨hinv, hadvanced⟩ := follows_updateStatus
    (fun o h => by rw [hselected o h]; exact .flush)
    (fun o h _ => .inl (hselected o h)) db db₁ hupdate
  exact ⟨fun hold => (hinv hold).of_same rfl, hadvanced⟩

theorem follows_transaction (ext : Externals) (call : OperationCall) :
    Follows (call.transaction ext) := by
  have hns : NamespaceBlind operationTables := fun _ _ _ _ _ _ _ => rfl
  cases call with
  | commitMutation extents operation payloads physical nowNs =>
    exact follows_commitMutationIn extents operation payloads physical nowNs
  | journal call =>
    cases call with
    | beginOperation operation payloads => exact follows_beginOperationIn operation payloads
    | commitOperation operationId => exact follows_commitOperationIn operationId
    | markPayloadFlushed payloadId checksum nowNs =>
      intro db db' hrun
      refine ⟨keeps_inv_markPayloadFlushed payloadId checksum nowNs db () db' hrun,
        advanced_same ?_⟩
      change markPayloadFlushed payloadId checksum nowNs db = _ at hrun
      unfold markPayloadFlushed at hrun
      rw [get_bind_ok, demand_bind_ok] at hrun
      cases modify_ok.mp hrun.2
      rfl
    | openFlushGroup volumeId nowNs => exact follows_openFlushGroup volumeId nowNs
    | markGroupFlushed groupId nowNs => exact follows_markGroupFlushed groupId nowNs
    | markPublished operationIds => exact follows_markPublished operationIds
    | reclaimPending volumeId =>
      refine follows_updateStatus (fun o h => ?_) fun o h hack => ?_
      · rw [(of_decide_eq_true h).2]
        exact .reclaim
      · rcases hack with hno | hno | hno <;> cases hno
    | allocateDeviceSeq volumeId =>
      exact follows_of_same (keeps_bind (keeps_same_allocate volumeId) fun _ => keeps_pure ())
    | sequencedMutation mutation =>
      refine follows_between (keeps_forSome fun r =>
        keeps_reserveExtentIn (fun _ _ _ => rfl) r.1 r.2) fun _ => ?_
      refine follows_between (keeps_same_allocate _) fun deviceSeq => ?_
      refine follows_then (follows_commitMutationIn _ _ _ _ _) ?_
      exact keeps_forSome fun m => keeps_stampModified hns _ m.1 m.2
    | createJournaled volumeId parent name kind nowNs journal =>
      have h := follows_between (keeps_createNodeIn hns ext volumeId parent name kind nowNs)
        fun _ => follows_journalEntryCommitIn volumeId journal
      simpa only [OperationCall.transaction, JournalCall.transaction, namespaceCreateJournaled,
        bind_assoc, pure_bind, bind_pure_unit] using h
    | renameJournaled volumeId fromParent fromName toParent toName nowNs journal replace
        retainVictim expectedVictim =>
      exact follows_between (keeps_renameInWithPolicy hns ext volumeId _ _ _ _ _ _ _ _)
        fun _ => follows_journalEntryCommitIn volumeId journal
    | deleteJournaled volumeId parent name nowNs journal retainInode =>
      exact follows_between (keeps_deleteNodeWithLifetimeIn hns ext volumeId _ _ _ _)
        fun _ => follows_journalEntryCommitIn volumeId journal

/-! ## Every run -/

theorem step_followed (h : OperationStep ext db db') :
    (JournalInv db → JournalInv db') ∧ Advanced db.localOperations db'.localOperations := by
  obtain ⟨call, rfl⟩ := h
  unfold Txn.commit
  cases hrun : call.transaction ext db with
  | error e => exact ⟨id, advanced_same rfl⟩
  | ok r => exact follows_transaction ext call db r.2 hrun

theorem journalInv_of_reaches (h : OperationReaches ext db) : JournalInv db := by
  obtain ⟨db₀, hnew, hrun⟩ := h
  induction hrun with
  | refl => exact journalInv_of_new hnew
  | tail _ hstep ih => exact (step_followed hstep).1 ih

/-! ## Replay and reclamation -/

theorem mem_replayable {o : OperationRecord} :
    o ∈ db.replayable volumeId ↔
      o ∈ db.localOperations ∧ o.volumeId = volumeId ∧
        (o.status = .committed ∨ o.status = .flushed) := by
  unfold Db.replayable
  rw [List.mem_insertionSort, List.mem_filter, decide_eq_true_eq]

theorem mem_reclaimablePayloads {id : PayloadId} :
    id ∈ db.reclaimablePayloads volumeId ↔
      ∃ p ∈ db.operationPayloads, p.payloadId = id ∧
        ∃ o ∈ db.localOperations, o.operationId = p.operationId ∧ o.volumeId = volumeId ∧
          (o.status = .pending ∨ o.status = .reclaimed) := by
  simp only [Db.reclaimablePayloads, List.mem_flatMap, List.mem_map, List.mem_filter,
    decide_eq_true_eq]
  constructor
  · rintro ⟨p, hp, o, ⟨ho, hsel⟩, rfl⟩
    exact ⟨p, hp, rfl, o, ho, hsel⟩
  · rintro ⟨p, hp, rfl, o, ho, hsel⟩
    exact ⟨p, hp, o, ⟨ho, hsel⟩, rfl⟩

theorem replayable_sorted (h : JournalInv db) (volumeId : RepositoryId) :
    (db.replayable volumeId).Pairwise fun o p => o.deviceSeq < p.deviceSeq := by
  refine pairwise_lt_insertionSort OperationRecord.deviceSeq ?_
  refine List.pairwise_filter.mpr (h.sequences.imp fun hne ho hp hseq => ?_)
  exact hne ⟨(of_decide_eq_true ho).1.trans (of_decide_eq_true hp).1.symm, hseq⟩

/-- INTERNAL: in every state that a run of journal requests reaches, the next request moves
each operation at most one step along its life and adds only pending or committed ones, an
acknowledged operation has all its payloads flushed, nothing replayable owns a reclaimable
payload, and the replay lists the committed and flushed operations of the volume in order of
their sequences.
SRCLINE: operation.rs:158-479, operation.rs:722-909 -/
theorem operations_follow_life {ext : Externals} {db : Db} (h : OperationReaches ext db) :
    (∀ db', OperationStep ext db db' →
      (∀ o ∈ db.localOperations, ∃ o' ∈ db'.localOperations, o.Becomes o') ∧
      ∀ o' ∈ db'.localOperations, (∃ o ∈ db.localOperations, o.Becomes o') ∨
        o'.status = .pending ∨ o'.status = .committed) ∧
    (db.localOperations.Pairwise fun o p => o.operationId ≠ p.operationId) ∧
    (∀ o ∈ db.localOperations, o.status.Acknowledged →
      ∀ p ∈ db.operationPayloads, p.operationId = o.operationId → p.flushedNs.isSome) ∧
    (∀ volumeId replayed, ∀ id ∈ db.reclaimablePayloads volumeId,
      ∀ p ∈ db.operationPayloads, p.payloadId = id →
        ∀ o ∈ db.replayable replayed, p.operationId ≠ o.operationId) ∧
    ∀ volumeId, (db.replayable volumeId).Pairwise (fun o p => o.deviceSeq < p.deviceSeq) ∧
      (db.replayable volumeId).Nodup ∧
      ∀ o, o ∈ db.replayable volumeId ↔ o ∈ db.localOperations ∧ o.volumeId = volumeId ∧
        (o.status = .committed ∨ o.status = .flushed) := by
  have hinv := journalInv_of_reaches h
  refine ⟨?_, hinv.ids, hinv.durable, ?_, ?_⟩
  · intro db' hstep
    obtain ⟨f, born, hops, hf, hborn⟩ := (step_followed hstep).2
    rw [hops]
    constructor
    · intro o ho
      exact ⟨f o, List.mem_append_left _ (List.mem_map_of_mem ho), hf o⟩
    · intro o' ho'
      rcases List.mem_append.mp ho' with hold | hnew
      · obtain ⟨o, ho, rfl⟩ := List.mem_map.mp hold
        exact .inl ⟨o, ho, hf o⟩
      · exact .inr (hborn o' hnew)
  · intro volumeId replayed id hid p hp hpid o ho hsame
    obtain ⟨p', hp', hpid', o', ho', howner, -, hstatus⟩ := mem_reclaimablePayloads.mp hid
    -- one payload row and one operation row: the operation would have two statuses
    cases eq_of_key_eq OperationPayloadRecord.payloadId hinv.payloadIds hp hp'
      (hpid.trans hpid'.symm)
    obtain ⟨hmem, -, hreplayed⟩ := mem_replayable.mp ho
    cases eq_of_key_eq OperationRecord.operationId hinv.ids hmem ho'
      (hsame.symm.trans howner.symm)
    rcases hstatus with hs | hs <;> rcases hreplayed with hr | hr <;>
      exact absurd (hs.symm.trans hr) (by decide)
  · intro volumeId
    have hsorted := replayable_sorted hinv volumeId
    refine ⟨hsorted, hsorted.imp fun {o p} hlt heq => ?_, fun o => mem_replayable⟩
    rw [heq] at hlt
    exact Int.lt_irrefl _ hlt

/-- INTERNAL: a run of given requests. -/
def runCalls (ext : Externals) (calls : List OperationCall) (db : Db) : Db :=
  calls.foldl (fun db call => Txn.commit (call.transaction ext) db) db

theorem reaches_runCalls (calls : List OperationCall) (h : OperationReaches ext db) :
    OperationReaches ext (runCalls ext calls db) := by
  induction calls generalizing db with
  | nil => exact h
  | cons call calls ih =>
    obtain ⟨db₀, hnew, hrun⟩ := h
    exact ih ⟨db₀, hnew, hrun.tail ⟨call, rfl⟩⟩

/-- INTERNAL: a write with one payload. -/
def beginWrite (id : BitVec 128) (deviceSeq : Int) (payload : PayloadId) : OperationCall :=
  .journal (.beginOperation ⟨id, deviceSeq, 1, none, .write, [], .pending, none, none, 0⟩
    [⟨payload, id, "payload", 1, none, none⟩])

/-- INTERNAL: two operations of one volume, of which one gets its payload flushed before both
are committed. -/
def writtenJournal : Db :=
  runCalls asciiExternals
    [beginWrite 2 9 20, beginWrite 1 7 10, .journal (.markPayloadFlushed 10 0 1),
      .journal (.commitOperation 1), .journal (.commitOperation 2)] Db.empty

/-- INTERNAL: only the operation whose payload was flushed is committed; the other one keeps
its payload reclaimable. -/
theorem written_journal_replays :
    (writtenJournal.replayable 1).map OperationRecord.operationId = [1] ∧
    writtenJournal.reclaimablePayloads 1 = [20] ∧
    (writtenJournal.replayable 1).Pairwise (fun o p => o.deviceSeq < p.deviceSeq) := by
  have hreaches : OperationReaches asciiExternals writtenJournal :=
    reaches_runCalls _ ⟨Db.empty, ⟨rfl, rfl⟩, .refl⟩
  exact ⟨by decide, by decide, ((operations_follow_life hreaches).2.2.2.2 1).1⟩

end Mirage.Analysis
