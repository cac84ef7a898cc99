import Mirage.Analysis.ExtentCommits

/-!
# Heads and the versions they name

Rows are replaced for any version while the head row of an inode moves only to a strictly
greater one.  `HeadsFollow` relates the two tables to the versions committed so far: the
head names the greatest of them, and the rows of that version with the head's end come
from one call.  A second call with the head's version replaces its rows and leaves the
head alone, so the end stored there is the end of the first call; that the two agree is
the assumption `Agree`.
-/

set_option autoImplicit false

namespace Mirage.Analysis

open Mirage.Model Mirage.Interface Mirage.Computation

/-- INTERNAL: two calls for one version of an inode carry the same rows and the same end. -/
def Agree (log : List (ExtentMutation × Int)) : Prop :=
  ∀ c ∈ log, ∀ d ∈ log, c.1.volumeId = d.1.volumeId → c.1.inode = d.1.inode →
    c.1.version = d.1.version → c.1.extents = d.1.extents ∧ c.1.eof = d.1.eof

/-- INTERNAL: the rows of one version. -/
def rowsOf (db : Db) (volumeId : RepositoryId) (inode : InodeId) (version : Int) :
    List ByteExtent :=
  db.byteExtents.filter fun e =>
    e.volumeId = volumeId ∧ e.inode = inode ∧ e.version = version

/-- INTERNAL: the head rows of one inode. -/
def headsOf (db : Db) (volumeId : RepositoryId) (inode : InodeId) : List ByteExtentHead :=
  db.byteExtentHeads.filter fun h => h.volumeId = volumeId ∧ h.inode = inode

/-- INTERNAL: the inode has one head row; its version is the greatest committed one, and
its end and the rows of that version come from a call with that version. -/
structure HeadFrom (log : List (ExtentMutation × Int)) (db : Db) (volumeId : RepositoryId)
    (inode : InodeId) (head : ByteExtentHead) (call : ExtentMutation × Int) : Prop where
  heads : headsOf db volumeId inode = [head]
  mem : call ∈ log
  target : call.1.volumeId = volumeId ∧ call.1.inode = inode
  version : head.version = call.1.version
  eof : head.eof = call.1.eof
  greatest : ∀ d ∈ log, d.1.volumeId = volumeId → d.1.inode = inode →
    d.1.version ≤ call.1.version
  rows : rowsOf db volumeId inode call.1.version = call.1.extents.map (stored call.1 call.2)

/-- INTERNAL: an inode without committed versions has neither head nor rows, and every
other inode has a head that follows from its calls. -/
def HeadsFollow (log : List (ExtentMutation × Int)) (db : Db) : Prop :=
  ∀ volumeId inode,
    ((∀ c ∈ log, ¬ (c.1.volumeId = volumeId ∧ c.1.inode = inode)) ∧
      headsOf db volumeId inode = [] ∧
      ∀ e ∈ db.byteExtents, ¬ (e.volumeId = volumeId ∧ e.inode = inode)) ∨
    ∃ head call, HeadFrom log db volumeId inode head call

/-- INTERNAL: no head row goes back. -/
def HeadsAdvance (db db' : Db) : Prop :=
  ∀ h ∈ db.byteExtentHeads, ∃ h' ∈ db'.byteExtentHeads,
    h'.volumeId = h.volumeId ∧ h'.inode = h.inode ∧ h.version ≤ h'.version

/-! ## Storing one version -/

/-- INTERNAL: the head row a mutation writes. -/
def newHead (mutation : ExtentMutation) (nowNs : Int) : ByteExtentHead :=
  ⟨mutation.volumeId, mutation.inode, mutation.version, mutation.eof, nowNs⟩

section Replace

variable {mutation : ExtentMutation} {nowNs : Int} {db : Db} {volumeId : RepositoryId}
  {inode : InodeId}

theorem rowsOf_replaced_self :
    rowsOf (replaced mutation nowNs db) mutation.volumeId mutation.inode mutation.version =
      mutation.extents.map (stored mutation nowNs) := by
  have hold : (db.byteExtents.filter fun e =>
      ¬ (e.volumeId = mutation.volumeId ∧ e.inode = mutation.inode ∧
        e.version = mutation.version)).filter (fun e =>
      e.volumeId = mutation.volumeId ∧ e.inode = mutation.inode ∧
        e.version = mutation.version) = [] := by
    refine List.filter_eq_nil_iff.mpr fun e he => ?_
    have hne := of_decide_eq_true (List.mem_filter.mp he).2
    exact fun hc => hne (of_decide_eq_true hc)
  have hnew : (mutation.extents.map (stored mutation nowNs)).filter (fun e =>
      e.volumeId = mutation.volumeId ∧ e.inode = mutation.inode ∧
        e.version = mutation.version) = mutation.extents.map (stored mutation nowNs) := by
    refine List.filter_eq_self.mpr fun e he => ?_
    obtain ⟨x, -, rfl⟩ := List.mem_map.mp he
    simp [stored]
  change (_ ++ _ : List ByteExtent).filter _ = _
  rw [List.filter_append, hold, hnew, List.nil_append]

theorem rowsOf_replaced_other {version : Int}
    (h : ¬ (mutation.volumeId = volumeId ∧ mutation.inode = inode ∧
      mutation.version = version)) :
    rowsOf (replaced mutation nowNs db) volumeId inode version =
      rowsOf db volumeId inode version := by
  have hnew : (mutation.extents.map (stored mutation nowNs)).filter (fun e =>
      e.volumeId = volumeId ∧ e.inode = inode ∧ e.version = version) = [] := by
    refine List.filter_eq_nil_iff.mpr fun e he => ?_
    obtain ⟨x, -, rfl⟩ := List.mem_map.mp he
    exact fun hc => h (of_decide_eq_true hc)
  have hold : (db.byteExtents.filter fun e =>
      ¬ (e.volumeId = mutation.volumeId ∧ e.inode = mutation.inode ∧
        e.version = mutation.version)).filter (fun e =>
      e.volumeId = volumeId ∧ e.inode = inode ∧ e.version = version) =
      rowsOf db volumeId inode version := by
    unfold rowsOf
    rw [List.filter_filter]
    refine List.filter_congr fun e _ => ?_
    by_cases hkey : e.volumeId = volumeId ∧ e.inode = inode ∧ e.version = version
    · obtain ⟨rfl, rfl, rfl⟩ := hkey
      have hne : ¬ (e.volumeId = mutation.volumeId ∧ e.inode = mutation.inode ∧
          e.version = mutation.version) :=
        fun hc => h ⟨hc.1.symm, hc.2.1.symm, hc.2.2.symm⟩
      simp [hne]
    · simp [hkey]
  change (_ ++ _ : List ByteExtent).filter _ = _
  rw [List.filter_append, hold, hnew, List.append_nil]

omit mutation nowNs db volumeId inode in
/-- INTERNAL: an upsert over an existing row, with the key split from the version test. -/
theorem upsertHead_present {heads : List ByteExtentHead} {head : ByteExtentHead}
    (h : heads.any fun k => k.volumeId = head.volumeId ∧ k.inode = head.inode) :
    upsertHead heads head = heads.map fun k =>
      if (k.volumeId = head.volumeId ∧ k.inode = head.inode) ∧ k.version < head.version then head
      else k := by
  unfold upsertHead
  rw [if_pos h]
  refine List.map_congr_left fun k _ => ?_
  simp only [and_assoc]

theorem headsOf_replaced_other
    (h : ¬ (mutation.volumeId = volumeId ∧ mutation.inode = inode)) :
    headsOf (replaced mutation nowNs db) volumeId inode = headsOf db volumeId inode := by
  change (upsertHead db.byteExtentHeads (newHead mutation nowNs)).filter _ = _
  by_cases hany : db.byteExtentHeads.any fun k =>
      k.volumeId = (newHead mutation nowNs).volumeId ∧
        k.inode = (newHead mutation nowNs).inode
  · rw [upsertHead_present hany]
    exact filter_update_other
      (fun k : ByteExtentHead =>
        k.volumeId = mutation.volumeId ∧ k.inode = mutation.inode)
      (fun k : ByteExtentHead => k.version < mutation.version)
      (fun k : ByteExtentHead => k.volumeId = volumeId ∧ k.inode = inode)
      (fun _ => newHead mutation nowNs) (fun _ _ => h)
      (fun k hk hc => h ⟨hk.1.symm.trans hc.1, hk.2.symm.trans hc.2⟩) db.byteExtentHeads
  · unfold upsertHead
    rw [if_neg hany]
    exact filter_append_other (fun k : ByteExtentHead => k.volumeId = volumeId ∧ k.inode = inode)
      h _

theorem headsOf_replaced_new (h : headsOf db mutation.volumeId mutation.inode = []) :
    headsOf (replaced mutation nowNs db) mutation.volumeId mutation.inode =
      [newHead mutation nowNs] := by
  have hany : ¬ db.byteExtentHeads.any fun k =>
      k.volumeId = (newHead mutation nowNs).volumeId ∧
        k.inode = (newHead mutation nowNs).inode := by
    intro hc
    obtain ⟨k, hk, hkey⟩ := List.any_eq_true.mp hc
    exact List.filter_eq_nil_iff.mp h k hk hkey
  change (upsertHead db.byteExtentHeads (newHead mutation nowNs)).filter _ = _
  unfold upsertHead
  rw [if_neg hany, List.filter_append]
  have hold : db.byteExtentHeads.filter (fun k =>
      k.volumeId = mutation.volumeId ∧ k.inode = mutation.inode) = [] := h
  rw [hold, List.nil_append]
  simp [newHead]

theorem headsOf_replaced_self {head : ByteExtentHead}
    (h : headsOf db mutation.volumeId mutation.inode = [head]) :
    headsOf (replaced mutation nowNs db) mutation.volumeId mutation.inode =
      [if head.version < mutation.version then newHead mutation nowNs else head] := by
  have hhead : head ∈ headsOf db mutation.volumeId mutation.inode := by
    rw [h]
    exact List.mem_singleton_self head
  have hany : db.byteExtentHeads.any fun k =>
      k.volumeId = (newHead mutation nowNs).volumeId ∧
        k.inode = (newHead mutation nowNs).inode :=
    List.any_eq_true.mpr ⟨head, (List.mem_filter.mp hhead).1, (List.mem_filter.mp hhead).2⟩
  have hupdate := filter_update_self
    (fun k : ByteExtentHead => k.volumeId = mutation.volumeId ∧ k.inode = mutation.inode)
    (fun k : ByteExtentHead => k.version < mutation.version)
    (fun _ => newHead mutation nowNs) (fun _ _ => ⟨rfl, rfl⟩) db.byteExtentHeads
  change (upsertHead db.byteExtentHeads (newHead mutation nowNs)).filter _ = _
  rw [upsertHead_present hany]
  have hmap : (db.byteExtentHeads.filter fun k =>
      k.volumeId = mutation.volumeId ∧ k.inode = mutation.inode) = [head] := h
  rw [hmap] at hupdate
  exact hupdate

theorem headsAdvance_replaced : HeadsAdvance db (replaced mutation nowNs db) := by
  intro h hh
  change ∃ h' ∈ upsertHead db.byteExtentHeads (newHead mutation nowNs), _
  unfold upsertHead
  split_ifs with hany
  · refine ⟨_, List.mem_map_of_mem hh, ?_⟩
    split_ifs with hnewer
    · exact ⟨hnewer.1.symm, hnewer.2.1.symm, Int.le_of_lt hnewer.2.2⟩
    · exact ⟨rfl, rfl, Int.le_refl _⟩
  · exact ⟨h, List.mem_append_left _ hh, rfl, rfl, Int.le_refl _⟩

end Replace

/-! ## One more committed version -/

variable {log : List (ExtentMutation × Int)} {db : Db} {mutation : ExtentMutation} {nowNs : Int}

/-- INTERNAL: the versions of other inodes do not matter. -/
theorem HeadFrom.of_other {volumeId : RepositoryId} {inode : InodeId} {head : ByteExtentHead}
    {call : ExtentMutation × Int} (h : HeadFrom log db volumeId inode head call)
    (hne : ¬ (mutation.volumeId = volumeId ∧ mutation.inode = inode)) :
    HeadFrom (log ++ [(mutation, nowNs)]) (replaced mutation nowNs db) volumeId inode head
      call := by
  refine ⟨?_, List.mem_append_left _ h.mem, h.target, h.version, h.eof, ?_, ?_⟩
  · rw [headsOf_replaced_other hne]
    exact h.heads
  · intro d hd hv hi
    rcases List.mem_append.mp hd with hd | hd
    · exact h.greatest d hd hv hi
    · rw [List.mem_singleton.mp hd] at hv hi
      exact absurd ⟨hv, hi⟩ hne
  · rw [rowsOf_replaced_other fun hc => hne ⟨hc.1, hc.2.1⟩]
    exact h.rows

/-- INTERNAL: a version of the same inode moves the head if it is greater, replaces the
head's rows if it is equal, and leaves both alone if it is smaller. -/
theorem HeadFrom.of_same {head : ByteExtentHead} {call : ExtentMutation × Int}
    (h : HeadFrom log db mutation.volumeId mutation.inode head call)
    (hagree : Agree (log ++ [(mutation, nowNs)])) :
    ∃ head' call', HeadFrom (log ++ [(mutation, nowNs)]) (replaced mutation nowNs db)
      mutation.volumeId mutation.inode head' call' := by
  have hheads : headsOf (replaced mutation nowNs db) mutation.volumeId mutation.inode = _ :=
    headsOf_replaced_self h.heads
  have hlast : (mutation, nowNs) ∈ log ++ [(mutation, nowNs)] :=
    List.mem_append_right _ (List.mem_singleton_self _)
  have hgreatest : ∀ bound, call.1.version ≤ bound → mutation.version ≤ bound →
      ∀ d ∈ log ++ [(mutation, nowNs)], d.1.volumeId = mutation.volumeId →
        d.1.inode = mutation.inode → d.1.version ≤ bound := by
    intro bound hcall hnew d hd hv hi
    rcases List.mem_append.mp hd with hd | hd
    · exact Int.le_trans (h.greatest d hd hv hi) hcall
    · rw [List.mem_singleton.mp hd]
      exact hnew
  rcases Int.lt_trichotomy call.1.version mutation.version with hlt | heq | hgt
  · rw [if_pos (h.version ▸ hlt)] at hheads
    exact ⟨_, (mutation, nowNs), hheads, hlast, ⟨rfl, rfl⟩, rfl, rfl,
      hgreatest _ (Int.le_of_lt hlt) (Int.le_refl _), rowsOf_replaced_self⟩
  · rw [if_neg (by rw [h.version, heq]; exact Int.lt_irrefl _)] at hheads
    -- the head keeps the end of the earlier call, which carried the same one
    have hsame := hagree call (List.mem_append_left _ h.mem) (mutation, nowNs) hlast
      h.target.1 h.target.2 heq
    exact ⟨head, (mutation, nowNs), hheads, hlast, ⟨rfl, rfl⟩, h.version.trans heq,
      h.eof.trans hsame.2, hgreatest _ (Int.le_of_eq heq) (Int.le_refl _), rowsOf_replaced_self⟩
  · rw [if_neg (by rw [h.version]; exact Int.lt_asymm hgt)] at hheads
    refine ⟨head, call, hheads, List.mem_append_left _ h.mem, h.target, h.version, h.eof,
      hgreatest _ (Int.le_refl _) (Int.le_of_lt hgt), ?_⟩
    rw [rowsOf_replaced_other fun hc => Int.ne_of_lt hgt hc.2.2]
    exact h.rows

theorem headsFollow_replaced (h : HeadsFollow log db)
    (hagree : Agree (log ++ [(mutation, nowNs)])) :
    HeadsFollow (log ++ [(mutation, nowNs)]) (replaced mutation nowNs db) := by
  intro volumeId inode
  by_cases hkey : mutation.volumeId = volumeId ∧ mutation.inode = inode
  · obtain ⟨rfl, rfl⟩ := hkey
    right
    rcases h mutation.volumeId mutation.inode with ⟨hnone, hheads, -⟩ | ⟨head, call, hfrom⟩
    · refine ⟨_, (mutation, nowNs), headsOf_replaced_new hheads,
        List.mem_append_right _ (List.mem_singleton_self _), ⟨rfl, rfl⟩, rfl, rfl, ?_,
        rowsOf_replaced_self⟩
      intro d hd hv hi
      rcases List.mem_append.mp hd with hd | hd
      · exact absurd ⟨hv, hi⟩ (hnone d hd)
      · exact Int.le_of_eq (congrArg (fun c => c.1.version) (List.mem_singleton.mp hd))
    · exact hfrom.of_same hagree
  · rcases h volumeId inode with ⟨hnone, hheads, hrows⟩ | ⟨head, call, hfrom⟩
    · left
      refine ⟨?_, ?_, ?_⟩
      · intro c hc
        rcases List.mem_append.mp hc with hc | hc
        · exact hnone c hc
        · rw [List.mem_singleton.mp hc]
          exact hkey
      · rw [headsOf_replaced_other hkey]
        exact hheads
      · intro e he
        rcases List.mem_append.mp he with he | he
        · exact hrows e (List.mem_filter.mp he).1
        · obtain ⟨x, -, rfl⟩ := List.mem_map.mp he
          exact hkey
    · exact .inr ⟨head, call, hfrom.of_other hkey⟩

/-- INTERNAL: the relation only reads the tables of versions. -/
theorem headsFollow_congr {db' : Db} (hdb : versions db' = versions db) (h : HeadsFollow log db) :
    HeadsFollow log db' := by
  simp only [versions, Prod.mk.injEq] at hdb
  intro volumeId inode
  have hheads : headsOf db' volumeId inode = headsOf db volumeId inode := by
    unfold headsOf
    rw [hdb.2]
  have hrows : ∀ version, rowsOf db' volumeId inode version = rowsOf db volumeId inode version := by
    intro version
    unfold rowsOf
    rw [hdb.1]
  rcases h volumeId inode with ⟨hnone, h1, h2⟩ | ⟨head, call, hfrom⟩
  · exact .inl ⟨hnone, hheads.trans h1, hdb.1 ▸ h2⟩
  · exact .inr ⟨head, call, hheads.trans hfrom.heads, hfrom.mem, hfrom.target, hfrom.version,
      hfrom.eof, hfrom.greatest, (hrows _).trans hfrom.rows⟩

/-! ## Runs of commits -/

theorem headsAdvance_refl (db : Db) : HeadsAdvance db db :=
  fun h hh => ⟨h, hh, rfl, rfl, Int.le_refl _⟩

theorem headsAdvance_attempt {attempt : Attempt} (hcommits : attempt.call.commits) (db : Db) :
    HeadsAdvance db (attempt.after db) := by
  rcases attempt.after_cases db with ⟨hsame, -⟩ | ⟨dead, hrun, -⟩
  · rw [hsame]
    exact headsAdvance_refl db
  · have hversions := (commitEffect_transaction hcommits hrun).versions
    have hheads := congrArg Prod.snd hversions
    unfold HeadsAdvance
    rw [show (attempt.after db).byteExtentHeads = _ from hheads]
    cases attempt.call.version with
    | none => exact headsAdvance_refl db
    | some v => exact headsAdvance_replaced

/-- INTERNAL: the versions an attempt adds to the log. -/
theorem headsFollow_attempt (h : HeadsFollow log db) {attempt : Attempt}
    (hcommits : attempt.call.commits) (hagree : Agree (log ++ attempt.call.version.toList)) :
    HeadsFollow (log ++ (attempt.committed db).toList) (attempt.after db) := by
  rcases attempt.after_cases db with ⟨hsame, hnone⟩ | ⟨dead, hrun, hversion⟩
  · rw [hsame, hnone, Option.toList_none, List.append_nil]
    exact h
  · refine headsFollow_congr (commitEffect_transaction hcommits hrun).versions ?_
    rw [hversion]
    cases hv : attempt.call.version with
    | none =>
      rw [Option.toList_none, List.append_nil]
      exact h
    | some v =>
      rw [hv] at hagree
      exact headsFollow_replaced h hagree

theorem Agree.mono {log' : List (ExtentMutation × Int)} (h : Agree log')
    (hsub : ∀ c ∈ log, c ∈ log') : Agree log :=
  fun c hc d hd => h c (hsub c hc) d (hsub d hd)

/-- INTERNAL: the versions a sequence of attempts may commit. -/
def versionsOf (attempts : List Attempt) : List (ExtentMutation × Int) :=
  attempts.flatMap fun a => a.call.version.toList

theorem committed_subset (attempt : Attempt) (db : Db) :
    ∀ c ∈ (attempt.committed db).toList, c ∈ attempt.call.version.toList := by
  intro c hc
  rcases attempt.after_cases db with ⟨-, hnone⟩ | ⟨dead, -, hversion⟩
  · rw [hnone] at hc
    cases hc
  · rwa [hversion] at hc

/-- INTERNAL: the heads follow from the committed versions along every run. -/
theorem headsFollow_run {attempts : List Attempt} (hcommits : ∀ a ∈ attempts, a.call.commits)
    (h : HeadsFollow log db) (hagree : Agree (log ++ versionsOf attempts)) :
    HeadsFollow (log ++ (runAttempts attempts db).2) (runAttempts attempts db).1 := by
  induction attempts generalizing log db with
  | nil =>
    rw [runAttempts, List.append_nil]
    exact h
  | cons attempt rest ih =>
    have hfirst := headsFollow_attempt h (hcommits attempt List.mem_cons_self)
      (hagree.mono fun c hc => by
        rcases List.mem_append.mp hc with hc | hc
        · exact List.mem_append_left _ hc
        · exact List.mem_append_right _ (List.mem_append_left _ hc))
    have hrest := ih (fun a ha => hcommits a (List.mem_cons_of_mem _ ha)) hfirst
      (hagree.mono fun c hc => by
        rcases List.mem_append.mp hc with hc | hc
        · rcases List.mem_append.mp hc with hc | hc
          · exact List.mem_append_left _ hc
          · exact List.mem_append_right _
              (List.mem_append_left _ (committed_subset attempt db c hc))
        · exact List.mem_append_right _ (List.mem_append_right _ hc))
    rw [List.append_assoc] at hrest
    exact hrest

theorem ledgerKeyed_run {attempts : List Attempt} (hcommits : ∀ a ∈ attempts, a.call.commits)
    (h : LedgerKeyed db) : LedgerKeyed (runAttempts attempts db).1 := by
  induction attempts generalizing db with
  | nil => exact h
  | cons attempt rest ih =>
    have hfirst : LedgerKeyed (attempt.after db) := by
      rcases attempt.after_cases db with ⟨hsame, -⟩ | ⟨dead, hrun, -⟩
      · rw [hsame]
        exact h
      · exact (commitEffect_transaction (hcommits attempt List.mem_cons_self) hrun).keyed h
    exact ih (fun a ha => hcommits a (List.mem_cons_of_mem _ ha)) hfirst

/-- INTERNAL: the rows of the version a request carries are the ones stored. -/
def RowsStored (version : Option (ExtentMutation × Int)) (db : Db) : Prop :=
  ∀ c ∈ version, rowsOf db c.1.volumeId c.1.inode c.1.version =
    c.1.extents.map (stored c.1 c.2)

theorem rowsStored_commit {version : Option (ExtentMutation × Int)}
    {physical : Option PhysicalCommit} {db' : Db} (h : CommitEffect version physical db db') :
    RowsStored version db' := by
  intro c hc
  cases hc
  unfold rowsOf
  rw [show db'.byteExtents = _ from congrArg Prod.fst h.versions]
  exact rowsOf_replaced_self

/-- INTERNAL: a mutation commit is all or nothing, and the heads stay consistent with the
versions committed.

The run starts on tables without extents and with any other contents.  Before the last
attempt any sequence of attempts was made, each of which may have failed at any statement.
SRCLINE: mirage-db/src/operation.rs:650-909, mirage-db/src/extent.rs:115-209 -/
theorem mutation_commits_atomic_and_heads_consistent {db₀ : Db} (hrows : db₀.byteExtents = [])
    (hheads : db₀.byteExtentHeads = []) (hkeys : LedgerKeyed db₀) (earlier : List Attempt)
    (attempt : Attempt) (hcommits : ∀ a ∈ earlier ++ [attempt], a.call.commits)
    (hagree : Agree (versionsOf (earlier ++ [attempt]))) :
    (∀ error, (attempt.outcome (runAttempts earlier db₀).1).1 = .error error →
      attempt.after (runAttempts earlier db₀).1 = (runAttempts earlier db₀).1) ∧
    (∀ dead, (attempt.outcome (runAttempts earlier db₀).1).1 = .ok dead →
      ∀ p ∈ attempt.call.physicalCommit,
        Settled (attempt.after (runAttempts earlier db₀).1) p.extentId ∧
          RowsStored attempt.call.version (attempt.after (runAttempts earlier db₀).1)) ∧
    HeadsAdvance (runAttempts earlier db₀).1 (attempt.after (runAttempts earlier db₀).1) ∧
    HeadsFollow (runAttempts (earlier ++ [attempt]) db₀).2
      (runAttempts (earlier ++ [attempt]) db₀).1 := by
  have hearlier : ∀ a ∈ earlier, a.call.commits :=
    fun a ha => hcommits a (List.mem_append_left _ ha)
  have hlast : attempt.call.commits :=
    hcommits attempt (List.mem_append_right _ (List.mem_singleton_self _))
  refine ⟨?_, ?_, headsAdvance_attempt hlast _, ?_⟩
  · intro error herror
    exact Attempt.outcome_error (Prod.ext herror rfl)
  · intro dead hok p hp
    have hrun := (Attempt.outcome_ok (Prod.ext hok rfl)).2
    have heffect := commitEffect_transaction hlast hrun
    exact ⟨heffect.settled (ledgerKeyed_run hearlier hkeys) p hp, rowsStored_commit heffect⟩
  · have hstart : HeadsFollow [] db₀ := by
      intro volumeId inode
      refine .inl ⟨fun c hc => absurd hc List.not_mem_nil, ?_, ?_⟩
      · unfold headsOf
        rw [hheads]
        rfl
      · rw [hrows]
        exact fun e he => absurd he List.not_mem_nil
    exact headsFollow_run hcommits hstart hagree

/-- INTERNAL: a database with one journal file. -/
def journalDb : Db := { Db.empty with physicalFiles := [7] }

/-- INTERNAL: the commit of a sealed four-byte payload as the first version of a file. -/
def firstCommit : Attempt where
  fault := none
  call := .sequencedMutation
    { reservation := some
        (⟨5, 7, 0, 4, .reserved, none, none, 0, 0, 10⟩, ⟨5, 0, 10, 70⟩)
      extents := some ⟨1, 2, 1, 4, [⟨20, 1, 2, 1, 0, 4, .dirty, none, none, some 5, some 0, 10⟩]⟩
      operation := ⟨30, 0, 1, none, .write, [], .pending, none, none, 10⟩
      payloads := [⟨5, 30, "05.payload", 4, some 9, none⟩]
      physical := some ⟨5, 9, 9⟩
      modifiedNs := some (2, 10)
      nowNs := 10 }

/-- INTERNAL: the second version of the file, which is committed before the first. -/
def newerVersion : Attempt where
  fault := none
  call := .replaceExtents ⟨1, 2, 2, 3, [⟨21, 1, 2, 2, 0, 3, .zero, none, none, none, none, 9⟩]⟩ 9

/-- INTERNAL: the payload of the first version is settled and its rows are stored, but the head
stays at the second version with its EOF. -/
theorem late_commit_settles :
    let db := newerVersion.after journalDb
    (firstCommit.outcome db).1 = .ok [] ∧ Settled (firstCommit.after db) 5 ∧
      RowsStored firstCommit.call.version (firstCommit.after db) ∧
      (firstCommit.after db).byteExtentHeads = [⟨1, 2, 2, 3, 9⟩] ∧
      HeadsFollow (runAttempts [newerVersion, firstCommit] journalDb).2 (firstCommit.after db) := by
  intro db
  have hok : (firstCommit.outcome db).1 = .ok [] := by decide +kernel
  have hkeys : LedgerKeyed journalDb := ⟨.nil, .nil⟩
  have hagree : Agree (versionsOf ([newerVersion] ++ [firstCommit])) := by
    intro c hc d hd _ _ hversion
    rcases List.mem_pair.mp hc with rfl | rfl <;> rcases List.mem_pair.mp hd with rfl | rfl
    · exact ⟨rfl, rfl⟩
    · cases hversion
    · cases hversion
    · exact ⟨rfl, rfl⟩
  obtain ⟨-, hsettles, -, hfollow⟩ := mutation_commits_atomic_and_heads_consistent rfl rfl hkeys
    [newerVersion] firstCommit (by simp [newerVersion, firstCommit, ExtentCall.commits]) hagree
  obtain ⟨hsettled, hstored⟩ := hsettles [] hok _ rfl
  exact ⟨hok, hsettled, hstored, by decide +kernel, hfollow⟩

end Mirage.Analysis
