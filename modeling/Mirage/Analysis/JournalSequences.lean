import Mirage.Analysis.Frames
import Mirage.Interface.JournalRun

/-!
# When a journal sequence is new

`allocate_device_seq_in` returns one less than the counter it leaves.  Its update branch
moves the counter past both the old counter and the journal, so the value it returns is
new.  Its insert branch stores the journal's next sequence without the increment and so
returns the last sequence of the journal itself.  The two branches agree only on a volume
without operations.

`HandedBelow` is the invariant of runs from a migrated database: every sequence handed out for
a volume lies below the volume's counter row.
-/

set_option autoImplicit false

namespace Mirage.Analysis

open Mirage.Model Mirage.Interface Mirage.Computation.Txn

/-! ## The journal's next sequence -/

/-- INTERNAL: the next sequence is zero on a volume without operations, and otherwise
follows the greatest sequence stored. -/
theorem journalMax_cases (db : Db) (v : RepositoryId) :
    ((∀ o ∈ db.localOperations, o.volumeId ≠ v) ∧ db.journalMax v = 0) ∨
    ∃ p ∈ db.localOperations, p.volumeId = v ∧ db.journalMax v = p.deviceSeq + 1 ∧
      ∀ o ∈ db.localOperations, o.volumeId = v → o.deviceSeq ≤ p.deviceSeq := by
  let sequences := (db.localOperations.filter fun o => o.volumeId = v).map
    OperationRecord.deviceSeq
  have hmem : ∀ o ∈ db.localOperations, o.volumeId = v → o.deviceSeq ∈ sequences := by
    intro o ho hv
    exact List.mem_map_of_mem (List.mem_filter.mpr ⟨ho, by simpa using hv⟩)
  have hdef : db.journalMax v = (sequences.max?.map (· + 1)).getD 0 := rfl
  cases hmax : sequences.max? with
  | none =>
    refine .inl ⟨fun o ho hv => ?_, by rw [hdef, hmax]; rfl⟩
    have hin := hmem o ho hv
    rw [List.max?_eq_none_iff.mp hmax] at hin
    exact absurd hin List.not_mem_nil
  | some top =>
    obtain ⟨htop, hbound⟩ := List.max?_eq_some_iff.mp hmax
    obtain ⟨p, hp, hseq⟩ := List.mem_map.mp htop
    obtain ⟨hpmem, hpv⟩ := List.mem_filter.mp hp
    refine .inr ⟨p, hpmem, by simpa using hpv, by rw [hdef, hmax, hseq]; rfl, ?_⟩
    intro o ho hv
    rw [hseq]
    exact hbound _ (hmem o ho hv)

variable {db db' : Db} {v : RepositoryId} {x : Int} {ext : Externals} {call : JournalCall}
  {handed : List (RepositoryId × Int)}

theorem journalMax_gt {o : OperationRecord} (ho : o ∈ db.localOperations) (hv : o.volumeId = v) :
    o.deviceSeq < db.journalMax v := by
  rcases journalMax_cases db v with ⟨hnone, -⟩ | ⟨p, -, -, hmax, hbound⟩
  · exact absurd hv (hnone o ho)
  · have := hbound o ho hv
    omega

/-! ## One allocation -/

/-- INTERNAL: what a successful allocation returns and writes, in its two branches. -/
theorem allocateDeviceSeqIn_ok (h : allocateDeviceSeqIn v db = .ok (x, db')) :
    (db.sequenceRow v = none ∧ x = db.journalMax v - 1 ∧
      db' = { db with
        journalSequences := db.journalSequences ++ [⟨v, db.journalMax v⟩] }) ∨
    (∃ row, db.sequenceRow v = some row ∧ x = max row.nextSeq (db.journalMax v) ∧
      db' = { db with
        journalSequences := db.journalSequences.map fun j =>
          if j.volumeId = v then { j with nextSeq := x + 1 } else j }) := by
  unfold allocateDeviceSeqIn at h
  replace h := get_bind_ok.mp h
  obtain ⟨-, h⟩ := demand_bind_ok.mp h
  obtain ⟨-, h⟩ := demand_bind_ok.mp h
  cases hrow : db.sequenceRow v with
  | none =>
    simp only [hrow] at h
    replace h := modify_bind_ok.mp h
    cases pure_ok.mp h
    exact .inl ⟨rfl, rfl, rfl⟩
  | some row =>
    simp only [hrow] at h
    obtain ⟨-, h⟩ := demand_bind_ok.mp h
    replace h := modify_bind_ok.mp h
    cases pure_ok.mp h
    refine .inr ⟨row, rfl, by omega, ?_⟩
    rw [show max row.nextSeq (db.journalMax v) + 1 - 1 + 1 =
      max row.nextSeq (db.journalMax v) + 1 by omega]

/-- INTERNAL: an allocation leaves the operations alone. -/
theorem allocateDeviceSeqIn_localOperations (h : allocateDeviceSeqIn v db = .ok (x, db')) :
    db'.localOperations = db.localOperations := by
  rcases allocateDeviceSeqIn_ok h with ⟨-, -, rfl⟩ | ⟨row, -, -, rfl⟩
  · rfl
  · rfl

/-- INTERNAL: after an allocation the counter stands one past the value returned, and no
other volume's counter moved. -/
theorem sequenceRow_allocate {w : RepositoryId} (h : allocateDeviceSeqIn v db = .ok (x, db')) :
    db'.sequenceRow w =
      if w = v then some ⟨v, x + 1⟩ else db.sequenceRow w := by
  rcases allocateDeviceSeqIn_ok h with ⟨hnone, rfl, rfl⟩ | ⟨row, hsome, -, rfl⟩
  · unfold Db.sequenceRow at hnone ⊢
    rw [List.find?_append]
    by_cases hw : w = v
    · subst hw
      simp [hnone]
    · have hvw : ¬ v = w := fun e => hw e.symm
      simp [hw, hvw]
  · unfold Db.sequenceRow at hsome ⊢
    rw [List.find?_map]
    have hfun : ((fun j : JournalSequence => decide (j.volumeId = w)) ∘ fun j =>
        if j.volumeId = v then { j with nextSeq := x + 1 } else j) =
        fun j : JournalSequence => decide (j.volumeId = w) := by
      funext j
      by_cases hj : j.volumeId = v
      · simp [hj]
      · simp [hj]
    rw [hfun]
    by_cases hw : w = v
    · subst hw
      have hvol : row.volumeId = w := by simpa using List.find?_some hsome
      simp [hsome, hvol]
    · rw [if_neg hw]
      cases hfind : db.journalSequences.find? fun j => decide (j.volumeId = w) with
      | none => rfl
      | some j =>
        have hvol : j.volumeId = w := by simpa using List.find?_some hfind
        simp [hvol, hw]

/-! ## Every request -/

/-- INTERNAL: the two tables the allocator works on. -/
def journalTables (db : Db) : List OperationRecord × List JournalSequence :=
  (db.localOperations, db.journalSequences)

/-- INTERNAL: what runs before an allocation touches neither table. -/
theorem keeps_before {a : Allocation} (h : call.allocation ext = some a) :
    Keeps (SameOn journalTables) a.before := by
  have hns : NamespaceBlind journalTables := fun _ _ _ _ _ _ _ => rfl
  have hex : ExtentBlind journalTables := fun _ _ _ _ _ => rfl
  cases call with
  | beginOperation | commitOperation | markPayloadFlushed | openFlushGroup | markGroupFlushed
  | markPublished | reclaimPending => cases h
  | allocateDeviceSeq volumeId =>
    cases h
    exact keeps_pure ()
  | sequencedMutation mutation =>
    cases h
    exact keeps_forSome fun r => keeps_reserveExtentIn hex.ledger r.1 r.2
  | createJournaled volumeId parent name kind nowNs journal =>
    cases h
    exact keeps_bind (keeps_createNodeIn hns ext volumeId parent name kind nowNs)
      fun _ => keeps_pure ()
  | renameJournaled volumeId fromParent fromName toParent toName nowNs journal replace
      retainVictim expectedVictim =>
    cases h
    exact keeps_renameInWithPolicy hns ext volumeId _ _ _ _ _ _ _ _
  | deleteJournaled volumeId parent name nowNs journal retainInode =>
    cases h
    exact keeps_deleteNodeWithLifetimeIn hns ext volumeId _ _ _ _

/-- INTERNAL: what runs after an allocation does not move a counter. -/
theorem keeps_after {a : Allocation} (h : call.allocation ext = some a) (x : Int) :
    Keeps (SameOn Db.journalSequences) (a.after x) := by
  have hns : NamespaceBlind Db.journalSequences := fun _ _ _ _ _ _ _ => rfl
  have hex : ExtentBlind Db.journalSequences := fun _ _ _ _ _ => rfl
  have hop : OperationBlind Db.journalSequences := fun _ _ _ _ => rfl
  have hentry : ∀ (operation : OperationRecord) (id : BitVec 128),
      Keeps (SameOn Db.journalSequences)
        (beginOperationIn operation [] >>= fun _ => commitOperationIn id) := by
    intro operation id
    exact keeps_bind (keeps_beginOperationIn hop operation []) fun _ =>
      keeps_commitOperationIn hop id
  cases call with
  | beginOperation | commitOperation | markPayloadFlushed | openFlushGroup | markGroupFlushed
  | markPublished | reclaimPending => cases h
  | allocateDeviceSeq volumeId =>
    cases h
    exact keeps_pure ()
  | sequencedMutation mutation =>
    cases h
    refine keeps_bind (keeps_commitMutationIn hop hex _ _ _ _ _) fun _ => ?_
    exact keeps_forSome fun m => keeps_stampModified hns _ m.1 m.2
  | createJournaled volumeId parent name kind nowNs journal =>
    cases h
    exact hentry _ _
  | renameJournaled volumeId fromParent fromName toParent toName nowNs journal replace
      retainVictim expectedVictim =>
    cases h
    exact hentry _ _
  | deleteJournaled volumeId parent name nowNs journal retainInode =>
    cases h
    exact hentry _ _

/-- INTERNAL: a request without an allocation does not move a counter. -/
theorem keeps_plain (h : call.allocation ext = none) :
    Keeps (SameOn Db.journalSequences) (call.transaction ext) := by
  have hop : OperationBlind Db.journalSequences := fun _ _ _ _ => rfl
  cases call with
  | beginOperation operation payloads => exact keeps_beginOperationIn hop operation payloads
  | commitOperation operationId => exact keeps_commitOperationIn hop operationId
  | markPayloadFlushed payloadId checksum nowNs =>
    exact keeps_markPayloadFlushed hop payloadId checksum nowNs
  | openFlushGroup volumeId nowNs =>
    exact keeps_bind (keeps_openFlushGroup hop volumeId nowNs) fun _ => keeps_pure ()
  | markGroupFlushed groupId nowNs =>
    exact keeps_bind (keeps_markGroupFlushed hop groupId nowNs) fun _ => keeps_pure ()
  | markPublished operationIds => exact keeps_markPublished hop operationIds
  | reclaimPending volumeId => exact keeps_updateStatus hop _ _
  | allocateDeviceSeq | sequencedMutation | createJournaled | renameJournaled
  | deleteJournaled => cases h

/-! ## Every run -/

/-- INTERNAL: every sequence handed out for a volume is below the volume's counter. -/
def HandedBelow (db : Db) (handed : List (RepositoryId × Int)) : Prop :=
  ∀ v y, (v, y) ∈ handed → ∃ row, db.sequenceRow v = some row ∧ y < row.nextSeq

theorem HandedBelow.of_same (h : HandedBelow db handed) (hs : SameOn Db.journalSequences db db') :
    HandedBelow db' handed := by
  have hseq : db'.journalSequences = db.journalSequences := hs
  intro v y hy
  unfold Db.sequenceRow
  rw [hseq]
  exact h v y hy

/-- INTERNAL: an allocation keeps the invariant and extends it to its own value. -/
theorem HandedBelow.allocate (h : HandedBelow db handed)
    (halloc : allocateDeviceSeqIn v db = .ok (x, db')) : HandedBelow db' (handed ++ [(v, x)]) := by
  intro w y hy
  rw [sequenceRow_allocate halloc]
  by_cases hw : w = v
  · subst hw
    rw [if_pos rfl]
    refine ⟨_, rfl, ?_⟩
    rcases List.mem_append.mp hy with hold | hnew
    · -- an old value forces the update branch, which does not fall behind the counter
      obtain ⟨row, hrow, hlt⟩ := h w y hold
      rcases allocateDeviceSeqIn_ok halloc with ⟨hnone, -, -⟩ | ⟨row', hsome, hx, -⟩
      · rw [hrow] at hnone
        cases hnone
      · rw [hrow] at hsome
        cases hsome
        simp only
        omega
    · have hxy : y = x := by simpa using hnew
      simp only
      omega
  · rw [if_neg hw]
    rcases List.mem_append.mp hy with hold | hnew
    · exact h w y hold
    · exact absurd (congrArg Prod.fst (List.mem_singleton.mp hnew)) hw

theorem handedBelow_of_run (h : JournalRun ext db handed) : HandedBelow db handed := by
  induction h with
  | start _ =>
    intro v y hy
    cases hy
  | plain _ call hnone hok ih => exact ih.of_same (keeps_plain hnone _ _ _ hok)
  | failed _ _ _ ih => exact ih
  | allocating _ call a hsome hbefore halloc hafter ih =>
    have hb := keeps_before hsome _ _ _ hbefore
    have hseq := congrArg Prod.snd (show journalTables _ = journalTables _ from hb)
    have h1 : HandedBelow _ _ := ih.of_same hseq
    exact (h1.allocate halloc).of_same (keeps_after hsome _ _ _ _ hafter)

/-- INTERNAL: the sequence `x` is past everything the volume has stored or was handed, and
the insert that follows meets `UNIQUE(volume_id, device_seq)`. -/
def NewSequence (db : Db) (handed : List (RepositoryId × Int)) (v : RepositoryId) (x : Int) :
    Prop :=
  (∀ o ∈ db.localOperations, o.volumeId = v → o.deviceSeq < x) ∧
    (∀ y, (v, y) ∈ handed → y < x) ∧ db.sequenceFree v x

/-- INTERNAL: in every state a run reaches, the sequence a request allocates is new if and
only if its volume has a counter row already or has no operations.
SRCLINE: operation.rs:502-529 -/
theorem allocated_sequence_new_iff {ext : Externals} {db db₁ db₂ : Db}
    {handed : List (RepositoryId × Int)} {call : JournalCall} {a : Allocation} {x : Int}
    (hrun : JournalRun ext db handed) (ha : call.allocation ext = some a)
    (hbefore : a.before db = .ok ((), db₁))
    (halloc : allocateDeviceSeqIn a.volumeId db₁ = .ok (x, db₂)) :
    NewSequence db₂ handed a.volumeId x ↔
      (db.sequenceRow a.volumeId).isSome ∨
        ∀ o ∈ db.localOperations, o.volumeId ≠ a.volumeId := by
  have htables : journalTables db₁ = journalTables db := keeps_before ha _ _ _ hbefore
  have hops : db₁.localOperations = db.localOperations := congrArg Prod.fst htables
  have hrow : db.sequenceRow a.volumeId = db₁.sequenceRow a.volumeId := by
    unfold Db.sequenceRow
    rw [show db₁.journalSequences = db.journalSequences from congrArg Prod.snd htables]
  have hhanded : HandedBelow db handed := handedBelow_of_run hrun
  have hops₂ : db₂.localOperations = db₁.localOperations :=
    allocateDeviceSeqIn_localOperations halloc
  rw [hrow, ← hops]
  have hfree : ∀ {db : Db}, (∀ o ∈ db.localOperations, o.volumeId = a.volumeId →
      o.deviceSeq < x) → db.sequenceFree a.volumeId x := by
    rintro db hall o ho ⟨hv, hx⟩
    have := hall o ho hv
    omega
  rcases allocateDeviceSeqIn_ok halloc with ⟨hnone, hx, -⟩ | ⟨row, hsome, hx, -⟩
  · rw [hnone]
    constructor
    · -- with operations in the journal the value returned is the last stored one
      intro hnew
      refine .inr fun o ho hv => ?_
      rcases journalMax_cases db₁ a.volumeId with ⟨hnoops, -⟩ | ⟨p, hp, hpv, hmax, -⟩
      · exact hnoops o ho hv
      · have hlt := hnew.1 p (hops₂ ▸ hp) hpv
        omega
    · intro hcond
      have hnoops : ∀ o ∈ db₁.localOperations, o.volumeId ≠ a.volumeId := by
        simpa using hcond
      have hstored : ∀ o ∈ db₂.localOperations, o.volumeId = a.volumeId → o.deviceSeq < x := by
        intro o ho hv
        exact absurd hv (hnoops o (hops₂ ▸ ho))
      refine ⟨hstored, fun y hy => ?_, hfree hstored⟩
      obtain ⟨row, hr, -⟩ := hhanded _ y hy
      rw [hrow, hnone] at hr
      cases hr
  · rw [hsome]
    refine ⟨fun _ => .inl rfl, fun _ => ?_⟩
    have hstored : ∀ o ∈ db₂.localOperations, o.volumeId = a.volumeId → o.deviceSeq < x := by
      intro o ho hv
      have := journalMax_gt (hops₂ ▸ ho) hv
      omega
    refine ⟨hstored, fun y hy => ?_, hfree hstored⟩
    obtain ⟨row', hr, hlt⟩ := hhanded _ y hy
    rw [hrow, hsome] at hr
    cases hr
    omega

/-! ## An upgraded volume -/

/-- INTERNAL: the volume of the examples below. -/
def upgradedVolume : RepositoryId := 1

/-- INTERNAL: an operation stored by the version before the counter table. -/
def storedOperation : OperationRecord :=
  ⟨9, 7, upgradedVolume, none, .write, [], .committed, none, none, 0⟩

/-- INTERNAL: a database upgraded with that operation in its journal. -/
def upgradedDb : Db := { Db.empty with localOperations := [storedOperation] }

/-- INTERNAL: the same database once its counter row exists. -/
def countedDb : Db := { upgradedDb with journalSequences := [⟨upgradedVolume, 8⟩] }

/-- INTERNAL: ASCII upper case and a constant digest. -/
def asciiExternals : Externals := ⟨fun _ => 0, fun c => [c.toUpper]⟩

theorem migrated_upgradedDb : Migrated upgradedDb :=
  ⟨rfl, List.pairwise_singleton _ _, List.pairwise_singleton _ _⟩

/-- INTERNAL: after the counter row of the upgraded volume exists, the next allocation is
new. -/
theorem counted_volume_allocates_new :
    ∃ db₂, allocateDeviceSeqIn upgradedVolume countedDb = .ok (8, db₂) ∧
      NewSequence db₂ [(upgradedVolume, 7)] upgradedVolume 8 := by
  have hrun : JournalRun asciiExternals countedDb [(upgradedVolume, 7)] :=
    .allocating (.start migrated_upgradedDb) (.allocateDeviceSeq upgradedVolume) _ rfl rfl rfl rfl
  refine ⟨_, rfl, ?_⟩
  apply (allocated_sequence_new_iff hrun
    (show (JournalCall.allocateDeviceSeq upgradedVolume).allocation asciiExternals = _ from rfl)
    rfl rfl).mpr
  exact .inl rfl

/-- INTERNAL: the first allocation on the upgraded volume returns the sequence of the
stored operation, so a journal entry can never be recorded there: its insert violates
`UNIQUE(volume_id, device_seq)` and the rollback takes the counter row back. -/
theorem upgraded_volume_repeats_sequence :
    JournalRun asciiExternals upgradedDb [] ∧
    (∃ db₂, allocateDeviceSeqIn upgradedVolume upgradedDb =
      .ok (storedOperation.deviceSeq, db₂)) ∧
    storedOperation ∈ upgradedDb.localOperations ∧
    journalEntryCommitIn upgradedVolume ⟨10, .create, [], 1⟩ upgradedDb =
      .error (.io "operation insert failed") := by
  refine ⟨.start migrated_upgradedDb, ⟨_, rfl⟩, List.mem_singleton_self _, ?_⟩
  decide

end Mirage.Analysis
