import Mirage.Model.Journal

/-!
# Which tables a transaction leaves alone

A projection of the database that ignores the tables of one component is unchanged by
every transaction of that component.  `NamespaceBlind`, `ExtentBlind`, `OperationBlind`
and `CounterBlind` name these projections, and each function of the model has one lemma
for the components it may write.
-/

set_option autoImplicit false

namespace Mirage.Analysis

open Mirage.Model Mirage.Computation.Txn

variable {γ : Type} {π : Db → γ}

/-- INTERNAL: `π` does not read the namespace tables. -/
def NamespaceBlind (π : Db → γ) : Prop :=
  ∀ db volumes inodes dirents legacy pins deltas,
    π { db with
      namespaceVolumes := volumes
      inodes := inodes
      dirents := dirents
      legacyInodeMap := legacy
      namespacePins := pins
      namespaceDeltas := deltas } = π db

/-- INTERNAL: `π` does not read the namespace history. -/
def DeltaBlind (π : Db → γ) : Prop :=
  ∀ db deltas, π { db with namespaceDeltas := deltas } = π db

theorem NamespaceBlind.delta (h : NamespaceBlind π) : DeltaBlind π := by
  intro db deltas
  exact h db db.namespaceVolumes db.inodes db.dirents db.legacyInodeMap db.namespacePins deltas

/-- INTERNAL: `π` does not read the extent rows, their heads and the ledger. -/
def ExtentBlind (π : Db → γ) : Prop :=
  ∀ db extents heads physical reservations,
    π { db with
      byteExtents := extents
      byteExtentHeads := heads
      physicalExtents := physical
      physicalReservations := reservations } = π db

/-- INTERNAL: `π` does not read the ledger. -/
def LedgerBlind (π : Db → γ) : Prop :=
  ∀ db physical reservations,
    π { db with physicalExtents := physical, physicalReservations := reservations } = π db

theorem ExtentBlind.ledger (h : ExtentBlind π) : LedgerBlind π := by
  intro db physical reservations
  exact h db db.byteExtents db.byteExtentHeads physical reservations

/-- INTERNAL: `π` does not read the operations, their payloads and the flush groups. -/
def OperationBlind (π : Db → γ) : Prop :=
  ∀ db operations payloads groups,
    π { db with
      localOperations := operations
      operationPayloads := payloads
      flushGroups := groups } = π db

theorem keeps_constraint (ok : Bool) (context : String) :
    Keeps (SameOn π) (constraint ok context) :=
  keeps_demand ok _

/-! ## The namespace -/

section Namespace

variable (hπ : NamespaceBlind π) (ext : Externals) (volumeId : RepositoryId)

include hπ

theorem keeps_setInodes (rows : Db → List InodeRow) :
    Keeps (SameOn π) (modify fun db => { db with inodes := rows db } : Transaction Unit) :=
  keeps_modify fun db => hπ db db.namespaceVolumes _ db.dirents db.legacyInodeMap
    db.namespacePins db.namespaceDeltas

theorem keeps_updateInode (inode : InodeId) (f : InodeRow → InodeRow) :
    Keeps (SameOn π) (updateInode volumeId inode f) := keeps_setInodes hπ _

theorem keeps_insertInode (row : InodeRow) (context : String) :
    Keeps (SameOn π) (insertInode row context) := by
  unfold insertInode
  refine keeps_bind keeps_get fun _ => ?_
  exact keeps_bind (keeps_constraint _ _) fun _ => keeps_setInodes hπ _

theorem keeps_deleteInode (inode : InodeId) (context : String) :
    Keeps (SameOn π) (deleteInode volumeId inode context) := by
  unfold deleteInode
  refine keeps_bind keeps_get fun _ => ?_
  exact keeps_bind (keeps_constraint _ _) fun _ => keeps_setInodes hπ _

theorem keeps_deleteDirent (parent : InodeId) (folded : NameText) :
    Keeps (SameOn π) (deleteDirent volumeId parent folded) := by
  apply keeps_modify
  intro db
  exact hπ db db.namespaceVolumes db.inodes _ db.legacyInodeMap db.namespacePins
    db.namespaceDeltas

theorem keeps_unlinkInode (inode : InodeId) (retain : Bool) (context : String) :
    Keeps (SameOn π) (unlinkInode volumeId inode retain context) := by
  unfold unlinkInode
  refine keeps_bind (keeps_modify fun db => ?_) fun _ => ?_
  · exact hπ db db.namespaceVolumes db.inodes db.dirents _ db.namespacePins db.namespaceDeltas
  refine keeps_bind (keeps_onlyIf (keeps_updateInode hπ volumeId inode _)) fun _ => ?_
  refine keeps_bind (keeps_onlyIf (keeps_deleteInode hπ volumeId inode context)) fun _ => ?_
  apply keeps_modify
  intro db
  exact hπ db db.namespaceVolumes db.inodes db.dirents db.legacyInodeMap _ db.namespaceDeltas

omit hπ in
/-- INTERNAL: recording a delta only writes the history. -/
theorem keeps_recordDelta (hdelta : DeltaBlind π) (op : NamespaceOp) (nowNs : Int) :
    Keeps (SameOn π) (recordDelta ext volumeId op nowNs) := by
  unfold recordDelta
  refine keeps_bind keeps_get fun db => ?_
  refine keeps_bind (keeps_constraint _ _) fun _ => ?_
  refine keeps_bind (keeps_demand _ _) fun _ => ?_
  refine keeps_bind (keeps_lift _) fun payload => ?_
  refine keeps_bind (keeps_demand _ _) fun _ => ?_
  refine keeps_bind (keeps_constraint _ _) fun _ => ?_
  apply keeps_modify
  intro db
  exact hdelta db _

theorem keeps_allocateInode : Keeps (SameOn π) (allocateInode ext volumeId) := by
  unfold allocateInode
  refine keeps_bind keeps_get fun db => ?_
  refine keeps_bind (keeps_orFail _ _) fun sequence => ?_
  refine keeps_bind (keeps_constraint _ _) fun _ => ?_
  refine keeps_bind (keeps_modify fun db => ?_) fun _ => keeps_pure _
  exact hπ db _ db.inodes db.dirents db.legacyInodeMap db.namespacePins db.namespaceDeltas

omit hπ in
theorem keeps_stat (inode : InodeId) : Keeps (SameOn π) (stat volumeId inode) := by
  unfold stat
  exact keeps_bind keeps_get fun _ => keeps_pure _

omit hπ in
theorem keeps_lookup (parent : InodeId) (name : NameText) :
    Keeps (SameOn π) (lookup ext volumeId parent name) := by
  unfold lookup
  refine keeps_bind (keeps_lift _) fun _ => ?_
  exact keeps_bind keeps_get fun _ => keeps_pure _

omit hπ in
theorem keeps_demandEmpty (inode : InodeId) (kind : NamespaceNodeKind) (message : String) :
    Keeps (SameOn π) (demandEmpty volumeId inode kind message) := by
  unfold demandEmpty
  exact keeps_bind keeps_get fun _ => keeps_demand _ _

theorem keeps_createNodeIn (parent : InodeId) (displayName : NameText)
    (kind : NamespaceNodeKind) (nowNs : Int) :
    Keeps (SameOn π) (createNodeIn ext volumeId parent displayName kind nowNs) := by
  unfold createNodeIn
  refine keeps_bind (keeps_lift _) fun folded => ?_
  refine keeps_bind (keeps_stat volumeId parent) fun _ => ?_
  refine keeps_bind (keeps_orFail _ _) fun parentStat => ?_
  refine keeps_bind (keeps_demand _ _) fun _ => ?_
  refine keeps_bind (keeps_allocateInode hπ ext volumeId) fun inode => ?_
  refine keeps_bind (keeps_insertInode hπ _ _) fun _ => ?_
  refine keeps_bind keeps_get fun db => ?_
  refine keeps_bind (keeps_constraint _ _) fun _ => ?_
  refine keeps_bind (keeps_demand _ _) fun _ => ?_
  refine keeps_bind (keeps_modify fun db => ?_) fun _ => ?_
  · exact hπ db db.namespaceVolumes db.inodes _ db.legacyInodeMap db.namespacePins
      db.namespaceDeltas
  exact keeps_bind (keeps_recordDelta ext volumeId hπ.delta _ nowNs) fun _ => keeps_pure _

theorem keeps_removeVictim (toParent : InodeId) (victim : DirEntry) (nowNs : Int)
    (replace retainVictim : Bool) :
    Keeps (SameOn π)
      (removeVictim ext volumeId toParent victim nowNs replace retainVictim) := by
  unfold removeVictim
  refine keeps_bind (keeps_stat volumeId _) fun _ => ?_
  refine keeps_bind (keeps_orFail _ _) fun victimStat => ?_
  refine keeps_bind (keeps_demandEmpty volumeId _ _ _) fun _ => ?_
  refine keeps_bind (keeps_deleteDirent hπ volumeId _ _) fun _ => ?_
  refine keeps_bind (keeps_demand _ _) fun _ => ?_
  refine keeps_bind (keeps_unlinkInode hπ volumeId _ _ _) fun _ => ?_
  exact keeps_recordDelta ext volumeId hπ.delta _ nowNs

theorem keeps_moveDirent (fromParent : InodeId) (fromFolded : NameText) (toParent : InodeId)
    (toFolded toName : NameText) :
    Keeps (SameOn π)
      (moveDirent volumeId fromParent fromFolded toParent toFolded toName) := by
  unfold moveDirent
  refine keeps_bind keeps_get fun db => ?_
  refine keeps_bind (keeps_constraint _ _) fun _ => ?_
  refine keeps_bind (keeps_modify fun db => ?_) fun _ => keeps_demand _ _
  exact hπ db db.namespaceVolumes db.inodes _ db.legacyInodeMap db.namespacePins
    db.namespaceDeltas

theorem keeps_renameInWithPolicy (fromParent : InodeId) (fromName : NameText)
    (toParent : InodeId) (toName : NameText) (nowNs : Int) (replace retainVictim : Bool)
    (expectedVictim : Option (Option InodeId)) :
    Keeps (SameOn π)
      (renameInWithPolicy ext volumeId fromParent fromName toParent toName nowNs replace
        retainVictim expectedVictim) := by
  unfold renameInWithPolicy
  refine keeps_bind (keeps_lift _) fun fromFolded => ?_
  refine keeps_bind (keeps_lift _) fun toFolded => ?_
  refine keeps_bind (keeps_lookup ext volumeId _ _) fun _ => ?_
  refine keeps_bind (keeps_orFail _ _) fun entry => ?_
  refine keeps_bind (keeps_stat volumeId _) fun _ => ?_
  refine keeps_bind (keeps_orFail _ _) fun toStat => ?_
  refine keeps_bind (keeps_demand _ _) fun _ => ?_
  refine keeps_bind keeps_get fun db => ?_
  refine keeps_bind (keeps_onlyIf (keeps_lift _)) fun _ => ?_
  refine keeps_bind (keeps_lookup ext volumeId _ _) fun found => ?_
  refine keeps_bind (keeps_demand _ _) fun _ => ?_
  refine keeps_bind (keeps_forSome fun victim => ?_) fun _ => ?_
  · exact keeps_removeVictim hπ ext volumeId toParent victim nowNs replace retainVictim
  refine keeps_bind (keeps_moveDirent hπ volumeId _ _ _ _ _) fun _ => ?_
  refine keeps_bind (keeps_updateInode hπ volumeId _ _) fun _ => ?_
  exact keeps_recordDelta ext volumeId hπ.delta _ nowNs

theorem keeps_deleteNodeWithLifetimeIn (parent : InodeId) (name : NameText) (nowNs : Int)
    (retainInode : Bool) :
    Keeps (SameOn π)
      (deleteNodeWithLifetimeIn ext volumeId parent name nowNs retainInode) := by
  unfold deleteNodeWithLifetimeIn
  refine keeps_bind (keeps_lift _) fun folded => ?_
  refine keeps_bind (keeps_lookup ext volumeId _ _) fun _ => ?_
  refine keeps_bind (keeps_orFail _ _) fun entry => ?_
  refine keeps_bind (keeps_demandEmpty volumeId _ _ _) fun _ => ?_
  refine keeps_bind (keeps_deleteDirent hπ volumeId _ _) fun _ => ?_
  refine keeps_bind (keeps_unlinkInode hπ volumeId _ _ _) fun _ => ?_
  exact keeps_recordDelta ext volumeId hπ.delta _ nowNs

theorem keeps_stampModified (inode : InodeId) (modifiedNs : Int) :
    Keeps (SameOn π) (stampModified volumeId inode modifiedNs) := by
  have hset : Keeps (SameOn π) (setTimes volumeId inode none (some modifiedNs)) := by
    unfold setTimes
    refine keeps_bind keeps_get fun _ => ?_
    refine keeps_bind (keeps_demand _ _) fun _ => ?_
    exact keeps_updateInode hπ volumeId inode _
  unfold stampModified
  refine keeps_tryCatch hset fun error => ?_
  by_cases hkind : error.kind = .invalidArgument
  · rw [if_pos hkind]
    exact keeps_pure ()
  · rw [if_neg hkind]
    exact keeps_throw error

end Namespace

/-! ## Extents and the ledger -/

section Extents

variable (hπ : ExtentBlind π)

include hπ

theorem keeps_applyExtentMutation (mutation : ExtentMutation) (nowNs : Int) :
    Keeps (SameOn π) (applyExtentMutation mutation nowNs) := by
  have hinsert : ∀ extent, Keeps (SameOn π) (insertExtent mutation nowNs extent) := by
    intro extent
    unfold insertExtent
    refine keeps_bind keeps_get fun _ => ?_
    refine keeps_bind (keeps_constraint _ _) fun _ => ?_
    apply keeps_modify
    intro db
    exact hπ db _ db.byteExtentHeads db.physicalExtents db.physicalReservations
  unfold applyExtentMutation
  refine keeps_bind (keeps_lift _) fun _ => ?_
  refine keeps_bind (keeps_modify fun db => ?_) fun _ => ?_
  · exact hπ db _ db.byteExtentHeads db.physicalExtents db.physicalReservations
  refine keeps_bind (keeps_forM hinsert) fun _ => ?_
  refine keeps_bind (keeps_constraint _ _) fun _ => ?_
  apply keeps_modify
  intro db
  exact hπ db db.byteExtents _ db.physicalExtents db.physicalReservations

end Extents

section Ledger

variable (hπ : LedgerBlind π)

include hπ

theorem keeps_reserveExtentIn (extent : PhysicalExtentRecord)
    (reservation : PhysicalReservationRecord) :
    Keeps (SameOn π) (reserveExtentIn extent reservation) := by
  unfold reserveExtentIn
  refine keeps_bind (keeps_demand _ _) fun _ => ?_
  refine keeps_bind keeps_get fun db => ?_
  refine keeps_bind (keeps_onlyIf ?_) fun _ => ?_
  · refine keeps_bind (keeps_constraint _ _) fun _ => keeps_modify fun db => ?_
    exact hπ db _ db.physicalReservations
  refine keeps_bind (keeps_forSome fun old => ?_) fun _ => ?_
  · refine keeps_bind (keeps_demand _ _) fun _ => ?_
    refine keeps_bind (keeps_constraint _ _) fun _ => keeps_modify fun db => ?_
    exact hπ db _ db.physicalReservations
  refine keeps_bind (keeps_constraint _ _) fun _ => keeps_modify fun db => ?_
  exact hπ db db.physicalExtents _

theorem keeps_commitPhysical (physical : PhysicalCommit) (nowNs : Int) :
    Keeps (SameOn π) (commitPhysical physical nowNs) := by
  unfold commitPhysical
  refine keeps_bind keeps_get fun db => ?_
  refine keeps_bind (keeps_modify fun db => ?_) fun _ => ?_
  · exact hπ db _ db.physicalReservations
  refine keeps_bind (keeps_demand _ _) fun _ => keeps_modify fun db => ?_
  exact hπ db db.physicalExtents _

theorem keeps_markPayloadDead (file : Option (BitVec 128)) (nowNs : Int)
    (payloadId : PayloadId) : Keeps (SameOn π) (markPayloadDead file nowNs payloadId) := by
  unfold markPayloadDead
  refine keeps_bind keeps_get fun db => ?_
  split_ifs
  · exact keeps_pure _
  · refine keeps_bind (keeps_modify fun db => ?_) fun _ => ?_
    · exact hπ db _ db.physicalReservations
    split
    · exact keeps_pure _
    · exact keeps_pure _

end Ledger

/-! ## Operations -/

section Operations

variable (hπ : OperationBlind π)

omit hπ in
theorem keeps_checkNewOperation (operation : OperationRecord) :
    Keeps (SameOn π) (checkNewOperation operation) := by
  unfold checkNewOperation
  refine keeps_bind (keeps_demand _ _) fun _ => ?_
  exact keeps_bind keeps_get fun _ => keeps_demand _ _

include hπ

theorem keeps_insertOperation (operation : OperationRecord) :
    Keeps (SameOn π) (insertOperation operation) := by
  unfold insertOperation
  refine keeps_bind keeps_get fun _ => ?_
  refine keeps_bind (keeps_constraint _ _) fun _ => keeps_modify fun db => ?_
  exact hπ db _ db.operationPayloads db.flushGroups

theorem keeps_insertPayload (operationId : BitVec 128) (flushedNs : Option Int)
    (payload : OperationPayloadRecord) :
    Keeps (SameOn π) (insertPayload operationId flushedNs payload) := by
  unfold insertPayload
  refine keeps_bind keeps_get fun _ => ?_
  refine keeps_bind (keeps_constraint _ _) fun _ => keeps_modify fun db => ?_
  exact hπ db db.localOperations _ db.flushGroups

theorem keeps_updateStatus (p : OperationRecord → Bool) (status : OperationStatus) :
    Keeps (SameOn π) (updateStatus p status) := by
  apply keeps_modify
  intro db
  exact hπ db _ db.operationPayloads db.flushGroups

theorem keeps_commitPending (operationId : BitVec 128) :
    Keeps (SameOn π) (commitPending operationId) := by
  unfold commitPending
  refine keeps_bind keeps_get fun _ => ?_
  exact keeps_bind (keeps_updateStatus hπ _ _) fun _ => keeps_demand _ _

theorem keeps_beginOperationIn (operation : OperationRecord)
    (payloads : List OperationPayloadRecord) :
    Keeps (SameOn π) (beginOperationIn operation payloads) := by
  unfold beginOperationIn
  refine keeps_bind (keeps_checkNewOperation operation) fun _ => ?_
  refine keeps_bind (keeps_insertOperation hπ operation) fun _ => ?_
  exact keeps_forM fun payload => keeps_insertPayload hπ _ _ payload

theorem keeps_commitOperationIn (operationId : BitVec 128) :
    Keeps (SameOn π) (commitOperationIn operationId) := by
  unfold commitOperationIn
  refine keeps_bind keeps_get fun _ => ?_
  exact keeps_bind (keeps_demand _ _) fun _ => keeps_commitPending hπ operationId

theorem keeps_markPayloadFlushed (payloadId : PayloadId) (checksum : BitVec 256)
    (nowNs : Int) : Keeps (SameOn π) (markPayloadFlushed payloadId checksum nowNs) := by
  unfold markPayloadFlushed
  refine keeps_bind keeps_get fun _ => ?_
  refine keeps_bind (keeps_demand _ _) fun _ => keeps_modify fun db => ?_
  exact hπ db db.localOperations _ db.flushGroups

theorem keeps_openFlushGroup (volumeId : RepositoryId) (nowNs : Int) :
    Keeps (SameOn π) (openFlushGroup volumeId nowNs) := by
  unfold openFlushGroup
  refine keeps_bind keeps_get fun _ => ?_
  refine keeps_bind (keeps_constraint _ _) fun _ => ?_
  refine keeps_bind (keeps_modify fun db => ?_) fun _ => keeps_pure _
  exact hπ db _ db.operationPayloads _

theorem keeps_markGroupFlushed (groupId nowNs : Int) :
    Keeps (SameOn π) (markGroupFlushed groupId nowNs) := by
  unfold markGroupFlushed
  refine keeps_bind keeps_get fun _ => ?_
  refine keeps_bind (keeps_updateStatus hπ _ _) fun _ => ?_
  refine keeps_bind (keeps_modify fun db => ?_) fun _ => keeps_pure _
  exact hπ db db.localOperations db.operationPayloads _

theorem keeps_markPublished (operationIds : List (BitVec 128)) :
    Keeps (SameOn π) (markPublished operationIds) :=
  keeps_forM fun _ => keeps_updateStatus hπ _ _

theorem keeps_commitMutationIn (hext : ExtentBlind π) (extents : Option ExtentMutation)
    (operation : OperationRecord) (payloads : List OperationPayloadRecord)
    (physical : Option PhysicalCommit) (nowNs : Int) :
    Keeps (SameOn π) (commitMutationIn extents operation payloads physical nowNs) := by
  unfold commitMutationIn
  refine keeps_bind (keeps_checkNewOperation operation) fun _ => ?_
  refine keeps_bind (keeps_insertOperation hπ operation) fun _ => ?_
  refine keeps_bind (keeps_forM fun payload => ?_) fun _ => ?_
  · unfold insertDurablePayload
    exact keeps_bind (keeps_demand _ _) fun _ => keeps_insertPayload hπ _ _ payload
  refine keeps_bind (keeps_forSome fun m => keeps_applyExtentMutation hext m nowNs) fun _ => ?_
  refine keeps_bind (keeps_commitPending hπ _) fun _ => ?_
  exact keeps_forSome fun commit => keeps_commitPhysical hext.ledger commit nowNs

end Operations

end Mirage.Analysis
