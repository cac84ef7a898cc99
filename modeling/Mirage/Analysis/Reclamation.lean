import Mirage.Analysis.ExtentCommits

/-!
# Reclaiming dead payloads

Compaction and the release of a deleted inode drop extent rows and then mark payloads
dead in the same transaction.  A payload dies only if it is alive, unpinned and named by no
row that is left: `Condemned` is that condition over the rows after the drop, and
`markPayloads_ok` says that the marking loop rewrites exactly the condemned ledger rows and
reports exactly them.
-/

set_option autoImplicit false

namespace Mirage.Analysis

open Mirage.Model Mirage.Interface Mirage.Computation Mirage.Computation.Txn

/-! ## The marking loop -/

/-- INTERNAL: a ledger row the loop over `ids` marks dead, where `rows` are the extent
rows left. -/
def Condemned (rows : List ByteExtent) (file : Option (BitVec 128)) (ids : List PayloadId)
    (e : PhysicalExtentRecord) : Prop :=
  e.extentId ∈ ids ∧ (file.all fun f => e.fileId = f) = true ∧ e.state = .alive ∧
    e.pinCount = 0 ∧ (rows.any fun x => x.payloadId = some e.extentId) = false

instance (rows : List ByteExtent) (file : Option (BitVec 128)) (ids : List PayloadId)
    (e : PhysicalExtentRecord) : Decidable (Condemned rows file ids e) :=
  inferInstanceAs (Decidable (_ ∧ _ ∧ _ ∧ _ ∧ _))

/-- INTERNAL: what the loop does to one ledger row. -/
def condemn (rows : List ByteExtent) (file : Option (BitVec 128)) (ids : List PayloadId)
    (nowNs : Int) (e : PhysicalExtentRecord) : PhysicalExtentRecord :=
  if Condemned rows file ids e then { e with state := .dead, updatedNs := nowNs } else e

section Marking

variable {rows : List ByteExtent} {file : Option (BitVec 128)} {ids : List PayloadId}
  {nowNs : Int} {e : PhysicalExtentRecord}

theorem condemn_keys :
    (condemn rows file ids nowNs e).extentId = e.extentId ∧
      (condemn rows file ids nowNs e).fileId = e.fileId ∧
      (condemn rows file ids nowNs e).slotIndex = e.slotIndex := by
  unfold condemn
  split_ifs
  · exact ⟨rfl, rfl, rfl⟩
  · exact ⟨rfl, rfl, rfl⟩

theorem condemn_of_not_mem (h : e.extentId ∉ ids) : condemn rows file ids nowNs e = e :=
  if_neg fun hc => h hc.1

/-- INTERNAL: the payloads a loop reports, for the ledger rows it condemns. -/
def Reports (db : Db) (file : Option (BitVec 128)) (ids : List PayloadId)
    (dead : List (PayloadId × Int)) : Prop :=
  ∀ p, p ∈ dead ↔
    ∃ e ∈ db.physicalExtents, Condemned db.byteExtents file ids e ∧
      p = (e.extentId, e.lengthBytes)

/-- INTERNAL: the ledger after the loop. -/
def condemned (db : Db) (file : Option (BitVec 128)) (ids : List PayloadId) (nowNs : Int) : Db :=
  { db with
    physicalExtents := db.physicalExtents.map (condemn db.byteExtents file ids nowNs) }

variable {db : Db} {payloadId : PayloadId}

theorem ledgerKeyed_condemned (h : LedgerKeyed db) : LedgerKeyed (condemned db file ids nowNs) :=
  ledgerKeyed_map h (fun _ => condemn_keys) rfl

/-- INTERNAL: the condition of the update, for a payload no row names. -/
theorem condemned_singleton_iff (href : (rows.any fun x => x.payloadId = some payloadId) = false) :
    Condemned rows file [payloadId] e ↔
      (file.all fun f => e.fileId = f) ∧ e.extentId = payloadId ∧ e.state = .alive ∧
        e.pinCount = 0 := by
  constructor
  · rintro ⟨hid, hfile, halive, hpin, -⟩
    exact ⟨hfile, List.mem_singleton.mp hid, halive, hpin⟩
  · rintro ⟨hfile, rfl, halive, hpin⟩
    exact ⟨List.mem_singleton_self _, hfile, halive, hpin, href⟩

/-- INTERNAL: nothing is condemned while a row names the payload. -/
theorem not_condemned_of_referenced
    (href : (rows.any fun x => x.payloadId = some payloadId) = true) :
    ¬ Condemned rows file [payloadId] e := by
  intro hc
  have hrows := hc.2.2.2.2
  rw [List.mem_singleton.mp hc.1, href] at hrows
  cases hrows

/-- INTERNAL: the report of one mark, from the rows that were to die. -/
theorem report_ok {dying : List PhysicalExtentRecord} {r : Option (PayloadId × Int) × Db}
    (h : (match dying with
      | [e] => pure (some (payloadId, e.lengthBytes))
      | _ => pure none : Transaction (Option (PayloadId × Int))) db = .ok r) :
    (∃ e, dying = [e] ∧ r = (some (payloadId, e.lengthBytes), db)) ∨
      ((∀ e, dying ≠ [e]) ∧ r = (none, db)) := by
  match dying, h with
  | [], h => exact .inr ⟨fun e he => (by cases he), pure_ok.mp h⟩
  | [e], h => exact .inl ⟨e, rfl, pure_ok.mp h⟩
  | e :: f :: rest, h => exact .inr ⟨fun e he => (by cases he), pure_ok.mp h⟩

/-- INTERNAL: one mark rewrites the row of its payload and reports it. -/
theorem markPayloadDead_ok {r : Option (PayloadId × Int) × Db} (hkeys : LedgerKeyed db)
    (h : markPayloadDead file nowNs payloadId db = .ok r) :
    r.2 = condemned db file [payloadId] nowNs ∧ Reports db file [payloadId] r.1.toList := by
  unfold markPayloadDead at h
  rw [get_bind_ok] at h
  cases href : db.byteExtents.any fun x => x.payloadId = some payloadId with
  | true =>
    rw [if_pos href] at h
    cases pure_ok.mp h
    constructor
    · have hmap : db.physicalExtents.map (condemn db.byteExtents file [payloadId] nowNs) =
          db.physicalExtents.map id :=
        List.map_congr_left fun e _ => if_neg (not_condemned_of_referenced href)
      unfold condemned
      rw [hmap, List.map_id]
    · intro p
      constructor
      · intro hp
        cases hp
      · rintro ⟨e, -, hc, -⟩
        exact absurd hc (not_condemned_of_referenced href)
  | false =>
    rw [if_neg (by rw [href]; exact Bool.false_ne_true)] at h
    replace h := modify_bind_ok.mp h
    have hiff : ∀ e, Condemned db.byteExtents file [payloadId] e ↔ _ :=
      fun _ => condemned_singleton_iff href
    have hledger : db.physicalExtents.map (fun e =>
        if (file.all fun f => e.fileId = f) ∧ e.extentId = payloadId ∧ e.state = .alive ∧
            e.pinCount = 0 then
          { e with state := .dead, updatedNs := nowNs }
        else e) = db.physicalExtents.map (condemn db.byteExtents file [payloadId] nowNs) := by
      refine List.map_congr_left fun e _ => ?_
      unfold condemn
      simp only [hiff e]
    have hmem : ∀ e, e ∈ (db.physicalExtents.filter fun e =>
        (file.all fun f => e.fileId = f) ∧ e.extentId = payloadId ∧ e.state = .alive ∧
          e.pinCount = 0) ↔
        e ∈ db.physicalExtents ∧ Condemned db.byteExtents file [payloadId] e := by
      intro e
      rw [List.mem_filter, hiff e, decide_eq_true_iff]
    rcases report_ok h with ⟨e, hdying, rfl⟩ | ⟨hnot, rfl⟩
    · rw [hdying] at hmem
      obtain ⟨he, hc⟩ := (hmem e).mp (List.mem_singleton_self e)
      refine ⟨by unfold condemned; rw [hledger], fun p => ⟨fun hp => ?_, ?_⟩⟩
      · rw [Option.toList_some, List.mem_singleton] at hp
        exact ⟨e, he, hc, by rw [hp, List.mem_singleton.mp hc.1]⟩
      · rintro ⟨f, hf, hfc, rfl⟩
        have hfe : f = e := List.mem_singleton.mp ((hmem f).mpr ⟨hf, hfc⟩)
        rw [hfe, List.mem_singleton.mp hc.1]
        exact List.mem_singleton_self _
    · refine ⟨by unfold condemned; rw [hledger], fun p => ⟨fun hp => (by cases hp), ?_⟩⟩
      rintro ⟨e, he, hc, -⟩
      -- by the key of the ledger the filter holds this row only
      have hin := (hmem e).mpr ⟨he, hc⟩
      have hnodup : (db.physicalExtents.filter fun e =>
          (file.all fun f => e.fileId = f) ∧ e.extentId = payloadId ∧ e.state = .alive ∧
            e.pinCount = 0).Nodup := by
        refine List.Pairwise.filter _ (hkeys.extents.imp fun {a b} hab => ?_)
        exact fun hc => hab (congrArg _ hc)
      have honly : ∀ f ∈ (db.physicalExtents.filter fun e =>
          (file.all fun f => e.fileId = f) ∧ e.extentId = payloadId ∧ e.state = .alive ∧
            e.pinCount = 0), f = e := by
        intro f hf
        obtain ⟨hf, hfc⟩ := (hmem f).mp hf
        exact eq_of_key_eq _ hkeys.extents hf he
          ((List.mem_singleton.mp hfc.1).trans (List.mem_singleton.mp hc.1).symm)
      exact absurd (eq_singleton_of_forall_eq hnodup hin honly) (hnot e)

/-- INTERNAL: a second mark of other payloads does what one loop over both does. -/
theorem condemn_cons (hnew : payloadId ∉ ids) :
    condemn rows file ids nowNs (condemn rows file [payloadId] nowNs e) =
      condemn rows file (payloadId :: ids) nowNs e := by
  by_cases hid : e.extentId = payloadId
  · have hout : (condemn rows file [payloadId] nowNs e).extentId ∉ ids := by
      rw [condemn_keys.1, hid]
      exact hnew
    have hiff : Condemned rows file (payloadId :: ids) e ↔ Condemned rows file [payloadId] e := by
      unfold Condemned
      simp only [hid, List.mem_cons, true_or]
    rw [condemn_of_not_mem hout]
    unfold condemn
    simp only [hiff]
  · have hout : e.extentId ∉ [payloadId] := fun hc => hid (List.mem_singleton.mp hc)
    have hiff : Condemned rows file (payloadId :: ids) e ↔ Condemned rows file ids e := by
      unfold Condemned
      simp only [List.mem_cons, hid, false_or]
    rw [condemn_of_not_mem hout]
    unfold condemn
    simp only [hiff]

theorem condemned_cons (hnew : payloadId ∉ ids) (db : Db) :
    condemned (condemned db file [payloadId] nowNs) file ids nowNs =
      condemned db file (payloadId :: ids) nowNs := by
  unfold condemned
  simp only [List.map_map, Db.mk.injEq, true_and, and_true]
  exact List.map_congr_left fun e _ => condemn_cons hnew

/-- INTERNAL: the payloads condemned by a later mark are those the ledger had before. -/
theorem reports_rest (hnew : payloadId ∉ ids) {dead : List (PayloadId × Int)}
    (h : Reports (condemned db file [payloadId] nowNs) file ids dead) :
    Reports db file ids dead := by
  intro p
  rw [h p]
  constructor
  · rintro ⟨f, hf, hc, rfl⟩
    obtain ⟨e, he, rfl⟩ := List.mem_map.mp hf
    have hout : e.extentId ∉ [payloadId] := by
      intro hid
      rw [List.mem_singleton] at hid
      exact hnew (by rw [← hid, ← (condemn_keys (e := e)).1]; exact hc.1)
    rw [condemn_of_not_mem hout] at hc ⊢
    exact ⟨e, he, hc, rfl⟩
  · rintro ⟨e, he, hc, rfl⟩
    have hout : e.extentId ∉ [payloadId] := by
      intro hid
      rw [List.mem_singleton] at hid
      exact hnew (hid ▸ hc.1)
    refine ⟨_, List.mem_map_of_mem he, ?_, ?_⟩
    · rw [condemn_of_not_mem hout]
      exact hc
    · rw [condemn_of_not_mem hout]

/-- INTERNAL: the loop rewrites exactly the condemned rows and reports exactly them. -/
theorem markPayloads_ok {r : List (Option (PayloadId × Int)) × Db} (hkeys : LedgerKeyed db)
    (hnodup : ids.Nodup) (h : ids.mapM (markPayloadDead file nowNs) db = .ok r) :
    r.2 = condemned db file ids nowNs ∧ Reports db file ids (r.1.filterMap id) := by
  induction ids generalizing db r with
  | nil =>
    rw [List.mapM_nil] at h
    cases pure_ok.mp h
    constructor
    · have hmap : db.physicalExtents.map (condemn db.byteExtents file [] nowNs) =
          db.physicalExtents.map id :=
        List.map_congr_left fun e _ => condemn_of_not_mem List.not_mem_nil
      unfold condemned
      rw [hmap, List.map_id]
    · intro p
      constructor
      · intro hp
        cases hp
      · rintro ⟨e, -, hc, -⟩
        exact absurd hc.1 List.not_mem_nil
  | cons payloadId rest ih =>
    rw [List.mapM_cons] at h
    obtain ⟨first, db₁, hfirst, h⟩ := bind_ok.mp h
    obtain ⟨others, db₂, hothers, h⟩ := bind_ok.mp h
    cases pure_ok.mp h
    obtain ⟨hdb₁, hreport₁⟩ := markPayloadDead_ok hkeys hfirst
    change db₁ = _ at hdb₁
    subst hdb₁
    obtain ⟨hnew, hrest⟩ := List.nodup_cons.mp hnodup
    obtain ⟨hdb₂, hreport₂⟩ := ih (ledgerKeyed_condemned hkeys) hrest hothers
    refine ⟨hdb₂.trans (condemned_cons hnew db), fun p => ?_⟩
    have hsplit : ∀ q, q ∈ (first :: others).filterMap id ↔
        q ∈ first.toList ∨ q ∈ others.filterMap id := by
      intro q
      cases first with
      | none => simp
      | some v => simp
    rw [hsplit, hreport₁ p, reports_rest hnew hreport₂ p]
    constructor
    · rintro (⟨e, he, hc, hp⟩ | ⟨e, he, hc, hp⟩)
      · exact ⟨e, he, ⟨List.mem_cons.mpr (.inl (List.mem_singleton.mp hc.1)), hc.2⟩, hp⟩
      · exact ⟨e, he, ⟨List.mem_cons_of_mem _ hc.1, hc.2⟩, hp⟩
    · rintro ⟨e, he, ⟨hid, hc⟩, hp⟩
      rcases List.mem_cons.mp hid with hid | hid
      · exact .inl ⟨e, he, ⟨List.mem_singleton.mpr hid, hc⟩, hp⟩
      · exact .inr ⟨e, he, ⟨hid, hc⟩, hp⟩

end Marking

/-! ## The two reclaiming requests -/

/-- INTERNAL: a request that dropped rows and marked payloads dead: what died had no row
left and no pin, and the report names exactly what died. -/
structure Reclaims (db db' : Db) (dead : List (PayloadId × Int)) : Prop where
  spares : ∀ e ∈ db.physicalExtents, ∀ e' ∈ db'.physicalExtents, e'.extentId = e.extentId →
    e.state ≠ .dead → e'.state = .dead →
      e.pinCount = 0 ∧ ∀ x ∈ db'.byteExtents, x.payloadId ≠ some e.extentId
  reports : ∀ p, p ∈ dead ↔
    ∃ e ∈ db.physicalExtents, ∃ e' ∈ db'.physicalExtents, e'.extentId = e.extentId ∧
      e.state = .alive ∧ e'.state = .dead ∧ p = (e.extentId, e.lengthBytes)
  keyed : LedgerKeyed db'

variable {db : Db} {nowNs : Int} {journalFileId : BitVec 128}

/-- INTERNAL: the marking loop after any drop of rows reclaims. -/
theorem reclaims_of_condemned {db₁ : Db} {file : Option (BitVec 128)} {ids : List PayloadId}
    {dead : List (PayloadId × Int)} (hkeys : LedgerKeyed db)
    (hledger : db₁.physicalExtents = db.physicalExtents) (hreport : Reports db₁ file ids dead) :
    Reclaims db (condemned db₁ file ids nowNs) dead := by
  have hkeys₁ : LedgerKeyed db₁ := ledgerKeyed_of_same hledger hkeys
  have hdies : ∀ e ∈ db.physicalExtents, ∀ e' ∈ (condemned db₁ file ids nowNs).physicalExtents,
      e'.extentId = e.extentId → e' = condemn db₁.byteExtents file ids nowNs e := by
    intro e he e' he' hid
    obtain ⟨f, hf, rfl⟩ := List.mem_map.mp he'
    rw [hledger] at hf
    have hfe : f = e := eq_of_key_eq _ hkeys.extents hf he (condemn_keys.1.symm.trans hid)
    rw [hfe]
  have hcondemned : ∀ e : PhysicalExtentRecord, e.state ≠ .dead →
      (condemn db₁.byteExtents file ids nowNs e).state = .dead →
        Condemned db₁.byteExtents file ids e := by
    intro e hlive hdead
    by_contra hnot
    unfold condemn at hdead
    rw [if_neg hnot] at hdead
    exact hlive hdead
  constructor
  · intro e he e' he' hid hlive hdead
    rw [hdies e he e' he' hid] at hdead
    obtain ⟨-, -, -, hpin, hrows⟩ := hcondemned e hlive hdead
    refine ⟨hpin, fun x hx hname => ?_⟩
    have := List.any_eq_false.mp hrows x hx
    exact this (decide_eq_true hname)
  · intro p
    rw [hreport p]
    constructor
    · rintro ⟨e, he, hc, hp⟩
      rw [hledger] at he
      refine ⟨e, he, condemn db₁.byteExtents file ids nowNs e, ?_, condemn_keys.1, hc.2.2.1, ?_,
        hp⟩
      · exact List.mem_map_of_mem (hledger ▸ he)
      · unfold condemn
        rw [if_pos hc]
    · rintro ⟨e, he, e', he', hid, halive, hdead, hp⟩
      rw [hdies e he e' he' hid] at hdead
      refine ⟨e, hledger ▸ he, hcondemned e ?_ hdead, hp⟩
      rw [halive]
      exact PhysicalExtentState.noConfusion
  · exact ledgerKeyed_condemned hkeys₁

/-- INTERNAL: the rows compaction keeps. -/
def compacted (volumeId : RepositoryId) (db : Db) : Db :=
  { db with
    byteExtents := db.byteExtents.filter fun e =>
      ¬ (e.volumeId = volumeId ∧ db.byteExtentHeads.any fun h =>
          h.volumeId = volumeId ∧ h.inode = e.inode ∧ e.version < h.version) }

theorem compactVolume_reclaims {volumeId : RepositoryId} {r : List (PayloadId × Int) × Db}
    (hkeys : LedgerKeyed db) (h : compactVolume volumeId journalFileId nowNs db = .ok r) :
    Reclaims db r.2 r.1 ∧ versions r.2 = versions (compacted volumeId db) := by
  unfold compactVolume at h
  replace h := modify_bind_ok.mp h
  rw [get_bind_ok] at h
  obtain ⟨dead, db₂, hmark, h⟩ := bind_ok.mp h
  cases pure_ok.mp h
  have hkeys₁ : LedgerKeyed (compacted volumeId db) := ⟨hkeys.extents, hkeys.slots⟩
  have hnodup : ((db.physicalExtents.filter fun e =>
      e.fileId = journalFileId ∧ e.state = .alive).map
        PhysicalExtentRecord.extentId).Nodup :=
    nodup_map_key _ (hkeys.extents.filter _)
  obtain ⟨hdb, hreport⟩ := markPayloads_ok hkeys₁ hnodup hmark
  change db₂ = _ at hdb
  rw [hdb]
  exact ⟨reclaims_of_condemned hkeys rfl hreport, rfl⟩

/-- INTERNAL: the tables without the rows and the head of one inode. -/
def released (volumeId : RepositoryId) (inode : InodeId) (db : Db) : Db :=
  { db with
    byteExtents := db.byteExtents.filter fun e => ¬ (e.volumeId = volumeId ∧ e.inode = inode)
    byteExtentHeads := db.byteExtentHeads.filter fun h =>
      ¬ (h.volumeId = volumeId ∧ h.inode = inode) }

theorem releaseInodeExtents_reclaims {volumeId : RepositoryId} {inode : InodeId}
    {r : List (PayloadId × Int) × Db} (hkeys : LedgerKeyed db)
    (h : releaseInodeExtents volumeId inode journalFileId nowNs db = .ok r) :
    Reclaims db r.2 r.1 := by
  unfold releaseInodeExtents at h
  rw [get_bind_ok] at h
  obtain ⟨_, db₁, hpending, h⟩ := bind_ok.mp h
  have htables : extentTables db₁ = extentTables db := by
    have hkeeps : Keeps (SameOn extentTables) (Txn.onlyIf
        (db.inodes.any fun i => i.volumeId = volumeId ∧ i.inode = inode ∧ i.unlinkPending) do
          modify fun db =>
            { db with
              legacyInodeMap := db.legacyInodeMap.filter fun l =>
                ¬ (l.volumeId = volumeId ∧ l.inode = inode) }
          deleteInode volumeId inode "pending inode finalization failed") := by
      refine keeps_onlyIf (keeps_bind (keeps_modify fun _ => rfl) fun _ => ?_)
      exact keeps_deleteInode namespaceBlind_extentTables volumeId inode _
    exact hkeeps db () db₁ hpending
  have hledger : db₁.physicalExtents = db.physicalExtents := congrArg (fun t => t.2.1) htables
  rw [get_bind_ok] at h
  replace h := modify_bind_ok.mp h
  obtain ⟨dead, db₃, hmark, h⟩ := bind_ok.mp h
  cases pure_ok.mp h
  have hkeys₂ : LedgerKeyed (released volumeId inode db₁) := ledgerKeyed_of_same hledger hkeys
  obtain ⟨hdb, hreport⟩ := markPayloads_ok hkeys₂ (List.nodup_dedup _) hmark
  change db₃ = _ at hdb
  rw [hdb]
  exact reclaims_of_condemned hkeys hledger hreport

/-- INTERNAL: a request after which every dead row was dead before reclaims nothing. -/
theorem reclaims_nothing {db' : Db} (hkeys : LedgerKeyed db) (hkeys' : LedgerKeyed db')
    (hdead : DeadBefore db db') : Reclaims db db' [] := by
  have hnone : ∀ e ∈ db.physicalExtents, ∀ e' ∈ db'.physicalExtents, e'.extentId = e.extentId →
      e'.state = .dead → e.state = .dead := by
    intro e he e' he' hid hd
    have hee : e' = e := eq_of_key_eq _ hkeys.extents (hdead e' he' hd) he hid
    rw [← hee]
    exact hd
  refine ⟨?_, ?_, hkeys'⟩
  · intro e he e' he' hid hlive hd
    exact absurd (hnone e he e' he' hid hd) hlive
  · intro p
    constructor
    · intro hp
      cases hp
    · rintro ⟨e, he, e', he', hid, halive, hd, -⟩
      have := hnone e he e' he' hid hd
      rw [halive] at this
      cases this

theorem reclaims_transaction {call : ExtentCall} {db' : Db} {dead : List (PayloadId × Int)}
    (hkeys : LedgerKeyed db) (h : call.transaction db = .ok (dead, db')) :
    Reclaims db db' dead := by
  have hcommit : call.commits → dead = [] → Reclaims db db' dead := by
    intro hcommits hnil
    have heffect := commitEffect_transaction hcommits h
    rw [hnil]
    exact reclaims_nothing hkeys (heffect.keyed hkeys) heffect.dead
  cases call with
  | sequencedMutation mutation =>
    obtain ⟨_, _, -, hpure⟩ := bind_ok.mp h
    exact hcommit rfl (congrArg Prod.fst (pure_ok.mp hpure))
  | commitMutation extents operation payloads physical nowNs =>
    obtain ⟨_, _, -, hpure⟩ := bind_ok.mp h
    exact hcommit rfl (congrArg Prod.fst (pure_ok.mp hpure))
  | replaceExtents mutation nowNs =>
    obtain ⟨_, _, -, hpure⟩ := bind_ok.mp h
    exact hcommit rfl (congrArg Prod.fst (pure_ok.mp hpure))
  | dropVersions volumeId inode keepFrom =>
    obtain ⟨_, _, hdrop, hpure⟩ := bind_ok.mp h
    cases pure_ok.mp hpure
    cases modify_ok.mp hdrop
    exact reclaims_nothing hkeys ⟨hkeys.extents, hkeys.slots⟩ (deadBefore_of_same rfl)
  | compactVolume volumeId journalFileId nowNs => exact (compactVolume_reclaims hkeys h).1
  | releaseInode volumeId inode journalFileId nowNs => exact releaseInodeExtents_reclaims hkeys h

theorem keyed_attempt (hkeys : LedgerKeyed db) (attempt : Attempt) :
    LedgerKeyed (attempt.after db) := by
  rcases attempt.after_cases db with ⟨hsame, -⟩ | ⟨dead, hrun, -⟩
  · rw [hsame]
    exact hkeys
  · exact (reclaims_transaction hkeys hrun).keyed

theorem keyed_run {db₀ : Db} (hkeys : LedgerKeyed db₀) (hrun : ReclaimRun db₀ db) :
    LedgerKeyed db := by
  induction hrun with
  | start => exact hkeys
  | call run attempt ih => exact keyed_attempt ih attempt

/-! ## What compaction leaves of the latest version -/

section Latest

variable {volumeId target : RepositoryId} {inode : InodeId} {db : Db} {version : Int}

/-- INTERNAL: the versions an inode is known by. -/
def knownVersions (db : Db) (volumeId : RepositoryId) (inode : InodeId) : List Int :=
  ((db.byteExtentHeads.filter fun h => h.volumeId = volumeId ∧ h.inode = inode).map
      ByteExtentHead.version) ++
    ((db.byteExtents.filter fun e => e.volumeId = volumeId ∧ e.inode = inode).map
      ByteExtent.version)

/-- INTERNAL: compaction keeps a row unless its inode's head is newer. -/
theorem mem_compacted {e : ByteExtent} :
    e ∈ (compacted target db).byteExtents ↔
      e ∈ db.byteExtents ∧ ¬ (e.volumeId = target ∧
        ∃ h ∈ db.byteExtentHeads, h.volumeId = target ∧ h.inode = e.inode ∧
          e.version < h.version) := by
  change e ∈ db.byteExtents.filter _ ↔ _
  rw [List.mem_filter, decide_eq_true_iff, List.any_eq_true]
  simp only [decide_eq_true_iff]

/-- INTERNAL: no head is newer than the latest version. -/
theorem kept_of_latest (hlatest : db.latestVersion volumeId inode = some version)
    {e : ByteExtent} (he : e ∈ db.byteExtents) (hv : e.volumeId = volumeId)
    (hi : e.inode = inode) (hversion : e.version = version) :
    e ∈ (compacted target db).byteExtents := by
  refine mem_compacted.mpr ⟨he, ?_⟩
  rintro ⟨rfl, h, hh, hhv, hhi, hlt⟩
  have hmem : h.version ∈ knownVersions db volumeId inode := by
    refine List.mem_append_left _ (List.mem_map_of_mem (List.mem_filter.mpr ⟨hh, ?_⟩))
    exact decide_eq_true ⟨hhv.trans hv, hhi.trans hi⟩
  have hle := (List.max?_eq_some_iff.mp hlatest).2 h.version hmem
  omega

theorem latestVersion_compacted :
    (compacted target db).latestVersion volumeId inode = db.latestVersion volumeId inode := by
  have hsub : ∀ v ∈ knownVersions (compacted target db) volumeId inode,
      v ∈ knownVersions db volumeId inode := by
    intro v hv
    rcases List.mem_append.mp hv with hv | hv
    · exact List.mem_append_left _ hv
    · obtain ⟨e, he, rfl⟩ := List.mem_map.mp hv
      obtain ⟨he, hkey⟩ := List.mem_filter.mp he
      exact List.mem_append_right _
        (List.mem_map_of_mem (List.mem_filter.mpr ⟨(mem_compacted.mp he).1, hkey⟩))
  cases hlatest : db.latestVersion volumeId inode with
  | none =>
    have hnil : knownVersions db volumeId inode = [] := List.max?_eq_none_iff.mp hlatest
    refine List.max?_eq_none_iff.mpr (List.eq_nil_iff_forall_not_mem.mpr fun v hv => ?_)
    have := hsub v hv
    rw [hnil] at this
    cases this
  | some version =>
    obtain ⟨hmem, hbound⟩ := List.max?_eq_some_iff.mp hlatest
    refine List.max?_eq_some_iff.mpr ⟨?_, fun v hv => hbound v (hsub v hv)⟩
    rcases List.mem_append.mp hmem with hmem | hmem
    · exact List.mem_append_left _ hmem
    · obtain ⟨e, he, rfl⟩ := List.mem_map.mp hmem
      obtain ⟨he, hkey⟩ := List.mem_filter.mp he
      have hkey' := of_decide_eq_true hkey
      exact List.mem_append_right _ (List.mem_map_of_mem (List.mem_filter.mpr
        ⟨kept_of_latest hlatest he hkey'.1 hkey'.2 rfl, hkey⟩))

theorem extentsAt_compacted (hlatest : db.latestVersion volumeId inode = some version) :
    (compacted target db).extentsAt volumeId inode version =
      db.extentsAt volumeId inode version := by
  unfold Db.extentsAt
  congr 1
  change (db.byteExtents.filter _).filter _ = _
  rw [List.filter_filter]
  refine List.filter_congr fun e he => ?_
  by_cases hkey : e.volumeId = volumeId ∧ e.inode = inode ∧ e.version = version
  · have hin : e ∈ (compacted target db).byteExtents :=
      kept_of_latest hlatest he hkey.1 hkey.2.1 hkey.2.2
    have hkept := (mem_compacted.mp hin).2
    simp only [hkey, and_self, decide_true, Bool.true_and, decide_eq_true_iff]
    intro hc
    apply hkept
    obtain ⟨hv, hany⟩ := hc
    refine ⟨hkey.1.trans hv, ?_⟩
    obtain ⟨h, hh, hcond⟩ := List.any_eq_true.mp hany
    have hcond := of_decide_eq_true hcond
    exact ⟨h, hh, hcond.1, hcond.2.1.trans hkey.2.1.symm, by rw [hkey.2.2]; exact hcond.2.2⟩
  · simp [hkey]

end Latest

/-- INTERNAL: the latest version of an inode reads the same: the same version, the same
rows and the same end. -/
def SameLatest (db db' : Db) (volumeId : RepositoryId) (inode : InodeId) : Prop :=
  db'.latestVersion volumeId inode = db.latestVersion volumeId inode ∧
    (∀ version, db.latestVersion volumeId inode = some version →
      db'.extentsAt volumeId inode version = db.extentsAt volumeId inode version) ∧
    db'.extentHead volumeId inode = db.extentHead volumeId inode

theorem sameLatest_compact {attempt : Attempt} {target : RepositoryId}
    (hcall : attempt.call = .compactVolume target journalFileId nowNs) (hkeys : LedgerKeyed db)
    (volumeId : RepositoryId) (inode : InodeId) :
    SameLatest db (attempt.after db) volumeId inode := by
  rcases attempt.after_cases db with ⟨hsame, -⟩ | ⟨dead, hrun, -⟩
  · rw [hsame]
    exact ⟨rfl, fun _ _ => rfl, rfl⟩
  · rw [hcall] at hrun
    have hversions := (compactVolume_reclaims hkeys hrun).2
    simp only [versions, Prod.mk.injEq] at hversions
    obtain ⟨hrows, hheads⟩ := hversions
    refine ⟨?_, fun version hlatest => ?_, ?_⟩
    · have h : (compacted target db).latestVersion volumeId inode = _ := latestVersion_compacted
      rw [← h]
      unfold Db.latestVersion
      rw [hrows, hheads]
    · have h : (compacted target db).extentsAt volumeId inode version = _ :=
        extentsAt_compacted hlatest
      rw [← h]
      unfold Db.extentsAt
      rw [hrows]
    · unfold Db.extentHead
      rw [hheads]
      rfl

/-- INTERNAL: reclamation never kills live bytes, in every state of every run of commits,
compactions and releases: a ledger row dies only unpinned and with no row left that names
its payload, compaction leaves the latest version of every inode as it is, and a request
reports exactly the rows it moved from alive to dead.
SRCLINE: mirage-db/src/extent.rs:115-209, 429-624 -/
theorem reclamation_spares_live_bytes {db₀ db : Db} (hkeys : LedgerKeyed db₀)
    (hrun : ReclaimRun db₀ db) (attempt : Attempt) :
    (∀ e ∈ db.physicalExtents, ∀ e' ∈ (attempt.after db).physicalExtents,
      e'.extentId = e.extentId → e.state ≠ .dead → e'.state = .dead →
        e.pinCount = 0 ∧
          ∀ x ∈ (attempt.after db).byteExtents, x.payloadId ≠ some e.extentId) ∧
    (∀ target journalFileId nowNs,
      attempt.call = .compactVolume target journalFileId nowNs →
        ∀ volumeId inode, SameLatest db (attempt.after db) volumeId inode) ∧
    (∀ dead, (attempt.outcome db).1 = .ok dead → ∀ p, p ∈ dead ↔
      ∃ e ∈ db.physicalExtents, ∃ e' ∈ (attempt.after db).physicalExtents,
        e'.extentId = e.extentId ∧ e.state = .alive ∧ e'.state = .dead ∧
          p = (e.extentId, e.lengthBytes)) := by
  have hkeyed := keyed_run hkeys hrun
  refine ⟨?_, ?_, ?_⟩
  · rcases attempt.after_cases db with ⟨hsame, -⟩ | ⟨dead, htransaction, -⟩
    · rw [hsame]
      exact (reclaims_nothing hkeyed hkeyed (Std.Refl.refl db)).spares
    · exact (reclaims_transaction hkeyed htransaction).spares
  · intro target journalFileId nowNs hcall volumeId inode
    exact sameLatest_compact hcall hkeyed volumeId inode
  · intro dead hok
    exact (reclaims_transaction hkeyed (Attempt.outcome_ok (Prod.ext hok rfl)).2).reports

/-- INTERNAL: one file with a superseded payload, a payload of the head version and a
pinned payload no row names. -/
def supersededDb : Db :=
  { Db.empty with
    byteExtents :=
      [⟨20, 1, 2, 1, 0, 4, .dirty, none, none, some 5, some 0, 10⟩,
        ⟨21, 1, 2, 2, 0, 4, .dirty, none, none, some 6, some 0, 11⟩]
    byteExtentHeads := [⟨1, 2, 2, 4, 11⟩]
    physicalFiles := [7]
    physicalExtents :=
      [⟨5, 7, 0, 4, .alive, some 9, some 9, 0, 0, 10⟩,
        ⟨6, 7, 1, 4, .alive, some 9, some 9, 0, 0, 11⟩,
        ⟨8, 7, 2, 4, .alive, some 9, some 9, 1, 0, 11⟩] }

/-- INTERNAL: of three payloads the one that no version uses goes. -/
theorem compaction_reports_superseded_payload :
    (Attempt.outcome ⟨.compactVolume 1 7 12, none⟩ supersededDb).1 = .ok [(5, 4)] ∧
    SameLatest supersededDb (Attempt.after ⟨.compactVolume 1 7 12, none⟩ supersededDb) 1 2 := by
  have hok : (Attempt.outcome ⟨.compactVolume 1 7 12, none⟩ supersededDb).1 = .ok [(5, 4)] := by
    decide +kernel
  have hkeys : LedgerKeyed supersededDb := ⟨by decide, by decide⟩
  have h := reclamation_spares_live_bytes hkeys .start ⟨.compactVolume 1 7 12, none⟩
  exact ⟨hok, h.2.1 1 7 12 rfl 1 2⟩

end Mirage.Analysis
