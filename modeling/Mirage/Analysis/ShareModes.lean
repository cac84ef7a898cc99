import Mirage.Interface.NamespaceRun

/-!
# Share modes of live opens

The counters are sums over the live opens in every history, so the check of `open` against
them is a check against each live open: what a newcomer requests is shared by all of them.
The check of what the newcomer itself shares is not made, and the opens are compatible only
in the histories in which every newcomer shares what the others requested.
-/

set_option autoImplicit false

namespace Mirage.Analysis

open Mirage.Computation Mirage.Model Mirage.Interface

/-! ## Counters -/

variable {l : List LiveOpen} {o : LiveOpen} {record : OpenRecord} {s : HandleState}

theorem bump_countP {f : LiveOpen → Bool} {n : Nat} (o : LiveOpen) (h : n = l.countP f)
    (hlength : l.length + 1 < 2 ^ 32) : bump n (f o) = (o :: l).countP f := by
  have hle : l.countP f ≤ l.length := List.countP_le_length
  unfold bump
  rw [List.countP_cons, h]
  cases f o with
  | true => exact Nat.mod_eq_of_lt (by omega)
  | false => rfl

theorem lower_countP {f : LiveOpen → Bool} {n : Nat} (h : n = l.countP f) (ho : o ∈ l) :
    lower n (f o) = (l.erase o).countP f := by
  have hperm : l.countP f = (o :: l.erase o).countP f := (List.perm_cons_erase ho).countP_eq f
  unfold lower
  rw [h, hperm, List.countP_cons]
  cases f o with
  | true => exact Nat.add_sub_cancel _ 1
  | false => rfl

theorem counts_admitOpen (h : Counts record l) (o : LiveOpen) (hlength : l.length + 1 < 2 ^ 32) :
    Counts (record.admitOpen o.desired o.share) (o :: l) where
  opens := by
    change bump record.opens true = l.length + 1
    rw [h.opens]
    exact Nat.mod_eq_of_lt hlength
  shareRead := bump_countP o h.shareRead hlength
  shareWrite := bump_countP o h.shareWrite hlength
  shareDelete := bump_countP o h.shareDelete hlength
  desiredRead := bump_countP o h.desiredRead hlength
  desiredWrite := bump_countP o h.desiredWrite hlength
  desiredDelete := bump_countP o h.desiredDelete hlength

theorem counts_leave (h : Counts record l) (ho : o ∈ l) :
    Counts (record.leave o.desired o.share) (l.erase o) where
  opens := by
    change record.opens - 1 = (l.erase o).length
    rw [h.opens, List.length_erase_of_mem ho]
  shareRead := lower_countP h.shareRead ho
  shareWrite := lower_countP h.shareWrite ho
  shareDelete := lower_countP h.shareDelete ho
  desiredRead := lower_countP h.desiredRead ho
  desiredWrite := lower_countP h.desiredWrite ho
  desiredDelete := lower_countP h.desiredDelete ho

theorem counts_first (o : LiveOpen) : Counts (.first o.desired o.share) [o] where
  opens := rfl
  shareRead := by cases h : o.share.read <;> simp [OpenRecord.first, h]
  shareWrite := by cases h : o.share.write <;> simp [OpenRecord.first, h]
  shareDelete := by cases h : o.share.delete <;> simp [OpenRecord.first, h]
  desiredRead := by cases h : o.desired.read <;> simp [OpenRecord.first, h]
  desiredWrite := by cases h : o.desired.write <;> simp [OpenRecord.first, h]
  desiredDelete := by cases h : o.desired.delete <;> simp [OpenRecord.first, h]

/-- INTERNAL: the check against the counters is a check against every open. -/
theorem grants_of_not_conflicts {desired : DesiredAccess} (h : Counts record l)
    (hno : record.conflicts desired = false) : ∀ b ∈ l, Grants b.share desired := by
  unfold OpenRecord.conflicts at hno
  simp only [Bool.or_eq_false_iff, Bool.and_eq_false_imp, decide_eq_false_iff_not, Nat.not_lt,
    h.opens, h.shareRead, h.shareWrite, h.shareDelete] at hno
  obtain ⟨⟨hread, hwrite⟩, hdelete⟩ := hno
  -- a count that reaches the length counts every open
  have hall : ∀ f : LiveOpen → Bool, l.length ≤ l.countP f → ∀ b ∈ l, f b = true :=
    fun f hf => List.countP_eq_length.mp (Nat.le_antisymm List.countP_le_length hf)
  intro b hb
  exact ⟨fun hd => hall _ (hread hd) b hb, fun hd => hall _ (hwrite hd) b hb,
    fun hd => hall _ (hdelete hd) b hb⟩

/-! ## Live opens of an inode -/

section Live

variable {s : HandleState} {o : LiveOpen} {inode : InodeId}

theorem liveOf_cons (table : HandleTable) :
    HandleState.liveOf ⟨table, o :: s.live⟩ inode =
      if o.inode = inode then o :: s.liveOf inode else s.liveOf inode := by
  unfold HandleState.liveOf
  rw [List.filter_cons]
  simp only [decide_eq_true_eq]

theorem liveOf_erase (table : HandleTable) :
    HandleState.liveOf ⟨table, s.live.erase o⟩ inode =
      if o.inode = inode then (s.liveOf inode).erase o else s.liveOf inode := by
  unfold HandleState.liveOf
  rw [← List.erase_filter]
  split_ifs with h
  · rfl
  · refine List.erase_of_not_mem fun hmem => h ?_
    exact of_decide_eq_true (List.mem_filter.mp hmem).2

theorem mem_liveOf : o ∈ s.liveOf inode ↔ o ∈ s.live ∧ o.inode = inode := by
  unfold HandleState.liveOf
  rw [List.mem_filter, decide_eq_true_eq]

end Live

/-! ## Steps -/

section Steps

variable {s : HandleState}

variable {inode : InodeId} {o : LiveOpen} {table : HandleTable}

/-- INTERNAL: what `Counted` says of one inode. -/
theorem counted_of_get (h : s.Counted) {record : OpenRecord}
    (hget : s.table.get inode = some record) :
    s.liveOf inode ≠ [] ∧ Counts record (s.liveOf inode) := by
  have hinode := h inode
  rw [hget] at hinode
  exact hinode

theorem liveOf_of_none (h : s.Counted) (hget : s.table.get inode = none) : s.liveOf inode = [] := by
  have hinode := h inode
  rw [hget] at hinode
  exact hinode

/-- INTERNAL: an open that is granted: what it requests is shared by the live opens. -/
theorem open_ok (h : s.Counted) (hopen : s.table.open o.inode o.desired o.share = .ok table) :
    s.table.isDeletePending o.inode = false ∧
      (∀ b ∈ s.liveOf o.inode, Grants b.share o.desired) ∧
      ∃ record, table = s.table.set o.inode record ∧
        ((s.liveOf o.inode).length + 1 < 2 ^ 32 → Counts record (o :: s.liveOf o.inode)) := by
  unfold HandleTable.open at hopen
  unfold HandleTable.isDeletePending
  cases hget : s.table.get o.inode with
  | none =>
    rw [hget] at hopen
    have hnone := liveOf_of_none h hget
    refine ⟨rfl, fun b hb => ?_, _, (Except.ok.inj hopen).symm, fun _ => ?_⟩
    · rw [hnone] at hb
      cases hb
    · rw [hnone]
      exact counts_first o
  | some record =>
    rw [hget] at hopen
    obtain ⟨-, hcounts⟩ := counted_of_get h hget
    simp only at hopen
    split_ifs at hopen with hpending hconflicts
    refine ⟨Bool.eq_false_iff.mpr hpending, ?_, _, (Except.ok.inj hopen).symm, fun hlength => ?_⟩
    · exact grants_of_not_conflicts hcounts (Bool.eq_false_iff.mpr hconflicts)
    · exact counts_admitOpen hcounts o hlength

theorem step_open_ok (hopen : s.table.open o.inode o.desired o.share = .ok table) :
    s.step (.open o) = (.opened (.ok ()), ⟨table, o :: s.live⟩) := by
  simp only [HandleState.step, hopen]

theorem step_open_error {e : MirageError}
    (hopen : s.table.open o.inode o.desired o.share = .error e) :
    s.step (.open o) = (.opened (.error e), s) := by
  simp only [HandleState.step, hopen]

theorem counted_open (h : s.Counted) (hlength : (s.liveOf o.inode).length + 1 < 2 ^ 32)
    (hopen : s.table.open o.inode o.desired o.share = .ok table) :
    HandleState.Counted ⟨table, o :: s.live⟩ := by
  obtain ⟨-, -, record, rfl, hcounts⟩ := open_ok h hopen
  intro inode
  rw [liveOf_cons, Table.get_set]
  by_cases hinode : inode = o.inode
  · subst hinode
    rw [if_pos rfl, if_pos rfl]
    exact ⟨List.cons_ne_nil _ _, hcounts hlength⟩
  · rw [if_neg hinode, if_neg (Ne.symm hinode)]
    exact h inode

theorem compatible_open (h : s.Counted) (hcompatible : s.Compatible)
    (hback : ∀ b ∈ s.liveOf o.inode, Grants o.share b.desired)
    (hopen : s.table.open o.inode o.desired o.share = .ok table) :
    HandleState.Compatible ⟨table, o :: s.live⟩ := by
  obtain ⟨-, hgrants, -⟩ := open_ok h hopen
  refine List.pairwise_cons.mpr ⟨fun b hb hinode => ?_, hcompatible⟩
  have hmem : b ∈ s.liveOf o.inode := mem_liveOf.mpr ⟨hb, hinode.symm⟩
  exact ⟨hback b hmem, hgrants b hmem⟩

/-- INTERNAL: the close of a live open: it reports the tombstone final when it is the last
one of a delete-pending inode, and then the record is gone. -/
theorem close_live (h : s.Counted) (ho : o ∈ s.live) :
    ∃ record, s.table.get o.inode = some record ∧ Counts record (s.liveOf o.inode) ∧
      s.table.close o.inode o.desired o.share =
        if (s.liveOf o.inode).erase o = [] then (record.deletePending, s.table.erase o.inode)
        else (false, s.table.set o.inode (record.leave o.desired o.share)) := by
  have hmem : o ∈ s.liveOf o.inode := mem_liveOf.mpr ⟨ho, rfl⟩
  cases hget : s.table.get o.inode with
  | none =>
    rw [liveOf_of_none h hget] at hmem
    cases hmem
  | some record =>
    obtain ⟨-, hcounts⟩ := counted_of_get h hget
    refine ⟨record, rfl, hcounts, ?_⟩
    have hopens := (counts_leave hcounts hmem).opens
    unfold HandleTable.close
    rw [hget]
    simp only [hopens, List.length_eq_zero_iff]
    rfl

theorem step_close (o : LiveOpen) :
    (s.step (.close o)).2 = ⟨(s.table.close o.inode o.desired o.share).2, s.live.erase o⟩ := rfl

theorem counted_close (h : s.Counted) (ho : o ∈ s.live) : (s.step (.close o)).2.Counted := by
  have hmem : o ∈ s.liveOf o.inode := mem_liveOf.mpr ⟨ho, rfl⟩
  obtain ⟨record, -, hcounts, hclose⟩ := close_live h ho
  rw [step_close]
  intro inode
  rw [liveOf_erase, hclose]
  by_cases hinode : o.inode = inode
  · subst hinode
    rw [if_pos rfl]
    by_cases hlast : (s.liveOf o.inode).erase o = []
    · rw [if_pos hlast]
      simp only [Table.get_erase_self]
      exact hlast
    · rw [if_neg hlast]
      simp only [Table.get_set_self]
      exact ⟨hlast, counts_leave hcounts hmem⟩
  · rw [if_neg hinode]
    have hother : (if (s.liveOf o.inode).erase o = [] then
        (record.deletePending, s.table.erase o.inode)
        else (false, s.table.set o.inode (record.leave o.desired o.share))).2.get inode =
        s.table.get inode := by
      split_ifs
      · exact Table.get_erase_ne (Ne.symm hinode)
      · exact Table.get_set_ne (Ne.symm hinode)
    rw [hother]
    exact h inode

/-- INTERNAL: a delete changes at most the mark of a record. -/
theorem deleteWith_get (inode other : InodeId) (unlink : Except MirageError Unit) :
    (s.table.deleteWith inode unlink).2.get other = s.table.get other ∨
      ∃ record, s.table.get other = some record ∧
        (s.table.deleteWith inode unlink).2.get other =
          some { record with deletePending := true } := by
  unfold HandleTable.deleteWith
  cases hget : s.table.get inode with
  | none => cases unlink <;> exact .inl rfl
  | some record =>
    simp only
    split_ifs
    · exact .inl rfl
    · cases unlink with
      | error e => exact .inl rfl
      | ok u =>
        simp only [Table.get_set]
        split_ifs with hother
        · subst hother
          exact .inr ⟨record, hget, rfl⟩
        · exact .inl rfl

theorem step_delete (inode : InodeId) (unlink : Except MirageError Unit) :
    (s.step (.delete inode unlink)).2 = ⟨(s.table.deleteWith inode unlink).2, s.live⟩ := rfl

theorem counted_delete (h : s.Counted) (inode : InodeId) (unlink : Except MirageError Unit) :
    (s.step (.delete inode unlink)).2.Counted := by
  rw [step_delete]
  intro other
  have hother := h other
  rcases deleteWith_get inode other unlink with hsame | ⟨record, hget, hmarked⟩
  · rw [hsame]
    exact hother
  · rw [hget] at hother
    rw [hmarked]
    exact ⟨hother.1, { hother.2 with }⟩

/-- INTERNAL: one step keeps the counters and the compatibility of the live opens. -/
theorem step_keeps {a : HandleAct} (h : s.Counted ∧ s.Compatible) (henabled : s.Enabled a)
    (hback : s.SharesBack a) : (s.step a).2.Counted ∧ (s.step a).2.Compatible := by
  cases a with
  | «open» o =>
    cases hopen : s.table.open o.inode o.desired o.share with
    | error e =>
      rw [step_open_error hopen]
      exact h
    | ok table =>
      rw [step_open_ok hopen]
      obtain ⟨hshares, hlength⟩ := hback (by rw [hopen]; rfl)
      exact ⟨counted_open h.1 hlength hopen, compatible_open h.1 h.2 hshares hopen⟩
  | close o => exact ⟨counted_close h.1 henabled, h.2.sublist List.erase_sublist⟩
  | delete inode unlink => exact ⟨counted_delete h.1 inode unlink, h.2⟩

/-- INTERNAL: the counters and the compatibility hold in every history. -/
theorem reaches_keeps (h : HandleState.Reaches HandleState.SharesBack s) :
    s.Counted ∧ s.Compatible := by
  induction h with
  | start => exact ⟨fun inode => rfl, .nil⟩
  | step a _ henabled hback ih => exact step_keeps ih henabled hback

/-! ## Deletes -/

/-- INTERNAL: a delete of an open inode that succeeds had an open that requested it. -/
theorem desired_of_pending (h : s.Counted) {unlink : Except MirageError Unit}
    (hdelete : (s.table.deleteWith inode unlink).1 = .ok .pending) :
    ∃ o ∈ s.liveOf inode, o.desired.delete = true := by
  unfold HandleTable.deleteWith at hdelete
  cases hget : s.table.get inode with
  | none =>
    rw [hget] at hdelete
    cases unlink <;> cases hdelete
  | some record =>
    rw [hget] at hdelete
    obtain ⟨-, hcounts⟩ := counted_of_get h hget
    simp only at hdelete
    split_ifs at hdelete with hzero
    rw [hcounts.desiredDelete] at hzero
    exact List.countP_pos_iff.mp (Nat.pos_of_ne_zero hzero)

/-- INTERNAL: of compatible opens the others share what one of them requested. -/
theorem others_share (h : s.Compatible) (ho : o ∈ s.liveOf inode) :
    ∀ b ∈ (s.liveOf inode).erase o, Grants b.share o.desired := by
  have hpairs : (s.liveOf inode).Pairwise fun a b =>
      Grants a.share b.desired ∧ Grants b.share a.desired := by
    refine (List.Pairwise.filter _ h).imp_of_mem fun {a b} ha hb hab => hab ?_
    rw [of_decide_eq_true (List.mem_filter.mp ha).2, of_decide_eq_true (List.mem_filter.mp hb).2]
  have hfront : (o :: (s.liveOf inode).erase o).Pairwise fun a b =>
      Grants a.share b.desired ∧ Grants b.share a.desired :=
    (List.Perm.pairwise_iff (fun hab => ⟨hab.2, hab.1⟩) (List.perm_cons_erase ho)).mp hpairs
  exact fun b hb => ((List.pairwise_cons.mp hfront).1 b hb).2

end Steps

/-- INTERNAL: how a step treats the tombstone of an inode: it stays without a final report,
or it ends with the close of the last live open, which reports it. -/
def TombstoneStep (s : HandleState) (a : HandleAct) (inode : InodeId) : Prop :=
  ((s.step a).2.table.isDeletePending inode = true ∧
      ∀ o, a = .close o → o.inode = inode → (s.step a).1 = .closed false) ∨
    ∃ o, a = .close o ∧ o.inode = inode ∧ (s.liveOf inode) = [o] ∧
      (s.step a).1 = .closed true ∧ (s.step a).2.liveOf inode = []

/-- INTERNAL: the close of a live open of a tombstone. -/
theorem tombstone_close (h : s.Counted) (ho : o ∈ s.live)
    (hpending : s.table.isDeletePending o.inode = true) : TombstoneStep s (.close o) o.inode := by
  have hmem : o ∈ s.liveOf o.inode := mem_liveOf.mpr ⟨ho, rfl⟩
  obtain ⟨record, hget, -, hclose⟩ := close_live h ho
  have hrecord : record.deletePending = true := by
    unfold HandleTable.isDeletePending at hpending
    rw [hget] at hpending
    exact hpending
  by_cases hlast : (s.liveOf o.inode).erase o = []
  · refine .inr ⟨o, rfl, rfl, ?_, ?_, ?_⟩
    · have hperm := List.perm_cons_erase hmem
      rw [hlast] at hperm
      exact List.perm_singleton.mp hperm
    · change HandleResult.closed (s.table.close o.inode o.desired o.share).1 = _
      rw [hclose, if_pos hlast, hrecord]
    · change HandleState.liveOf ⟨_, s.live.erase o⟩ o.inode = []
      rw [liveOf_erase, if_pos rfl, hlast]
  · refine .inl ⟨?_, fun o' ho' _ => ?_⟩
    · change HandleTable.isDeletePending (s.table.close o.inode o.desired o.share).2 o.inode = true
      rw [hclose, if_neg hlast]
      unfold HandleTable.isDeletePending
      rw [Table.get_set_self]
      exact hrecord
    · change HandleResult.closed (s.table.close o.inode o.desired o.share).1 = _
      rw [hclose, if_neg hlast]

/-- INTERNAL: a step on another inode leaves the record alone. -/
theorem tombstone_step (h : s.Counted) {a : HandleAct} (henabled : s.Enabled a) {inode : InodeId}
    (hpending : s.table.isDeletePending inode = true) : TombstoneStep s a inode := by
  cases a with
  | «open» o =>
    refine .inl ⟨?_, fun o' ho' => (by cases ho')⟩
    cases hopen : s.table.open o.inode o.desired o.share with
    | error e =>
      rw [step_open_error hopen]
      exact hpending
    | ok table =>
      rw [step_open_ok hopen]
      obtain ⟨hclear, -, record, rfl, -⟩ := open_ok h hopen
      have hne : inode ≠ o.inode := by
        rintro rfl
        rw [hclear] at hpending
        cases hpending
      unfold HandleTable.isDeletePending at hpending ⊢
      change Option.any _ ((s.table.set o.inode record).get inode) = true
      rw [Table.get_set_ne hne]
      exact hpending
  | close o =>
    by_cases hinode : o.inode = inode
    · subst hinode
      exact tombstone_close h henabled hpending
    · obtain ⟨record, -, -, hclose⟩ := close_live h henabled
      refine .inl ⟨?_, fun o' ho' hsame => ?_⟩
      · unfold HandleTable.isDeletePending at hpending ⊢
        change Option.any _ ((s.table.close o.inode o.desired o.share).2.get inode) = true
        rw [hclose]
        split_ifs
        · rw [Table.get_erase_ne (Ne.symm hinode)]
          exact hpending
        · rw [Table.get_set_ne (Ne.symm hinode)]
          exact hpending
      · cases ho'
        exact absurd hsame hinode
  | delete other unlink =>
    refine .inl ⟨?_, fun o' ho' => (by cases ho')⟩
    unfold HandleTable.isDeletePending at hpending ⊢
    change Option.any _ ((s.table.deleteWith other unlink).2.get inode) = true
    rcases deleteWith_get other inode unlink with hsame | ⟨record, -, hmarked⟩
    · rw [hsame]
      exact hpending
    · rw [hmarked]
      rfl

/-- INTERNAL: a close that reports a tombstone final was of a delete-pending inode. -/
theorem pending_of_final (h : s.Counted) (ho : o ∈ s.live)
    (hfinal : (s.step (.close o)).1 = .closed true) : s.table.isDeletePending o.inode = true := by
  obtain ⟨record, hget, -, hclose⟩ := close_live h ho
  have hresult : (s.table.close o.inode o.desired o.share).1 = true :=
    HandleResult.closed.inj hfinal
  rw [hclose] at hresult
  unfold HandleTable.isDeletePending
  rw [hget]
  split_ifs at hresult
  exact hresult

/-- INTERNAL: in every history whose granted opens share back what the live opens requested: the
counters are the sums over the live opens, which are pairwise compatible; a delete of an open
inode succeeds only with an open that requested it and is shared by the others; no open of a
tombstone succeeds; and a tombstone ends with one close, the last, which reports it.
SRCLINE: mirage-engine/src/handles.rs:114-244 -/
theorem share_modes_hold {s : HandleState} (h : HandleState.Reaches HandleState.SharesBack s) :
    s.Counted ∧ s.Compatible ∧
      (∀ inode unlink, (s.table.deleteWith inode unlink).1 = .ok .pending →
        ∃ o ∈ s.liveOf inode, o.desired.delete = true ∧
          ∀ b ∈ (s.liveOf inode).erase o, b.share.delete = true) ∧
      (∀ (o : LiveOpen) (table : HandleTable), s.table.open o.inode o.desired o.share = .ok table →
        s.table.isDeletePending o.inode = false) ∧
      (∀ a inode, s.Enabled a → s.table.isDeletePending inode = true → TombstoneStep s a inode) ∧
      ∀ o ∈ s.live, (s.step (.close o)).1 = .closed true →
        s.table.isDeletePending o.inode = true := by
  obtain ⟨hcounted, hcompatible⟩ := reaches_keeps h
  refine ⟨hcounted, hcompatible, ?_, ?_, ?_, ?_⟩
  · intro inode unlink hdelete
    obtain ⟨o, ho, hdesired⟩ := desired_of_pending hcounted hdelete
    exact ⟨o, ho, hdesired, fun b hb => (others_share hcompatible ho b hb).2.2 hdesired⟩
  · exact fun o table hopen => (open_ok hcounted hopen).1
  · exact fun a inode henabled hpending => tombstone_step hcounted henabled hpending
  · exact fun o ho hfinal => pending_of_final hcounted ho hfinal

/-! ## Histories -/

/-- INTERNAL: an open that writes and deletes and shares everything. -/
def writer : LiveOpen := ⟨1, ⟨true, true, true⟩, .all⟩

/-- INTERNAL: a reader that shares what it is given. -/
def reader (share : ShareAccess) : LiveOpen := ⟨1, ⟨true, false, false⟩, share⟩

/-- INTERNAL: the reader opens behind the writer. -/
def writerThenReader (share : ShareAccess) : HandleState :=
  ((HandleState.start.step (.open writer)).2.step (.open (reader share))).2

/-- INTERNAL: a reader that shares everything joins the writer. -/
theorem sharing_reader_joins_writer :
    (writerThenReader .all).live = [reader .all, writer] ∧ (writerThenReader .all).Compatible :=
  ⟨by decide, (share_modes_hold (.step (.open (reader .all)) (.step (.open writer) .start trivial
    fun _ => ⟨by decide, by decide⟩) trivial fun _ => ⟨by decide, by decide⟩)).2.1⟩

/-- INTERNAL: a reader that shares only reading joins a writer, and the writer's delete goes
through although the reader does not share it. -/
theorem unsharing_reader_joins_writer :
    HandleState.Reaches (fun _ _ => True) (writerThenReader .onlyRead) ∧
      (writerThenReader .onlyRead).live = [reader .onlyRead, writer] ∧
      ¬ (writerThenReader .onlyRead).Compatible ∧
      ((writerThenReader .onlyRead).table.deleteWith 1 (.ok ())).1 = .ok .pending ∧
      (reader .onlyRead).share.delete = false := by
  refine ⟨.step (.open (reader .onlyRead)) (.step (.open writer) .start trivial trivial) trivial
    trivial, by decide, ?_, by decide, rfl⟩
  unfold HandleState.Compatible
  decide

end Mirage.Analysis
