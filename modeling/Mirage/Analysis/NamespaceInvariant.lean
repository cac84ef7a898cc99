import Mirage.Computation.Checks
import Mirage.Analysis.NamespaceSteps

/-!
# The namespace is always one tree

Every successful request turns rows that describe a tree into rows that describe a tree,
and leaves the rows of the other volumes alone.  By induction over the run every volume
that exists is described by a tree, and the tree's own fields give the four facts about
its rows.
-/

set_option autoImplicit false

namespace Mirage.Analysis

open Mirage.Model Mirage.Interface Mirage.Computation Mirage.Computation.Txn

variable {ext : Externals} {db db' : Db} {v w : RepositoryId} {t : NameTree InodeId NameText}

/-! ## The rows an unlink leaves -/

/-- INTERNAL: `unlinkedRows` on the rows of one volume. -/
def goneRows (x : InodeId) (retain : Bool) (rows : List InodeRow) : List InodeRow :=
  if retain then
    rows.map fun i => if i.inode = x then { i with unlinkPending := true } else i
  else rows.filter fun i => ¬ i.inode = x

theorem filter_unlinkedRows_self (x : InodeId) (retain : Bool) (rows : List InodeRow) :
    (unlinkedRows v x retain rows).filter (fun i => i.volumeId = v) =
      goneRows x retain (rows.filter fun i => i.volumeId = v) := by
  unfold unlinkedRows goneRows
  cases retain with
  | true =>
    exact filter_update_self (·.volumeId = v) (·.inode = x)
      (fun i => { i with unlinkPending := true }) (fun _ h => h) rows
  | false => exact filter_drop_self (·.volumeId = v) (·.inode = x) rows

theorem filter_unlinkedRows_other (hw : w ≠ v) (x : InodeId) (retain : Bool)
    (rows : List InodeRow) :
    (unlinkedRows v x retain rows).filter (fun i => i.volumeId = w) =
      rows.filter fun i => i.volumeId = w := by
  have hdisjoint : ∀ i : InodeRow, i.volumeId = v → ¬ i.volumeId = w := by
    intro i hv hi
    exact hw (hi.symm.trans hv)
  unfold unlinkedRows
  cases retain with
  | true =>
    exact filter_update_other (·.volumeId = v) (·.inode = x) (·.volumeId = w)
      (fun i => { i with unlinkPending := true }) (fun i h => hdisjoint i h) hdisjoint rows
  | false =>
    exact filter_drop_other (·.volumeId = v) (·.inode = x) (·.volumeId = w) hdisjoint rows

variable {rows : List InodeRow} {parent toParent x : InodeId} {d : Dirent} {retain : Bool}
  {name : NameText} {nowNs : Int}

theorem rowKind_goneRows (x : InodeId) (retain : Bool) :
    rowKind ((goneRows x retain rows).find? fun i => i.inode = x) = none := by
  cases h : (goneRows x retain rows).find? fun i => i.inode = x with
  | none => rfl
  | some i =>
    have hi : i.inode = x := by simpa using List.find?_some h
    have hmem := List.mem_of_find?_eq_some h
    unfold goneRows at hmem
    cases retain with
    | true =>
      simp only [if_true] at hmem
      obtain ⟨j, -, rfl⟩ := List.mem_map.mp hmem
      split_ifs at hi ⊢ with hj
      · simp [rowKind]
      · exact absurd hi hj
    | false =>
      simp only [Bool.false_eq_true, if_false] at hmem
      exact absurd hi (by simpa using (List.mem_filter.mp hmem).2)

theorem find?_goneRows {y : InodeId} (retain : Bool) (hy : y ≠ x) :
    ((goneRows x retain rows).find? fun i => i.inode = y) = rows.find? fun i => i.inode = y := by
  unfold goneRows
  induction rows with
  | nil => cases retain <;> rfl
  | cons i rest ih =>
    cases retain with
    | true =>
      simp only [if_true] at ih ⊢
      by_cases hx : i.inode = x
      · have hxy : ¬ x = y := fun e => hy e.symm
        simp [hx, hxy, ih]
      · simp only [List.map_cons, hx, if_false, List.find?_cons, ih]
    | false =>
      simp only [Bool.false_eq_true, if_false] at ih ⊢
      by_cases hx : i.inode = x
      · have hxy : ¬ x = y := fun e => hy e.symm
        simp only [hx, List.filter_cons, not_true, decide_false, Bool.false_eq_true, if_false,
          ih, List.find?_cons, hxy]
      · simp only [hx, List.filter_cons, not_false_iff, decide_true, if_true, List.find?_cons, ih]

theorem pairwise_goneRows (x : InodeId) (retain : Bool)
    (h : rows.Pairwise fun i j => i.inode ≠ j.inode) :
    (goneRows x retain rows).Pairwise fun i j => i.inode ≠ j.inode := by
  unfold goneRows
  cases retain with
  | true =>
    simp only [if_true]
    rw [List.pairwise_map]
    refine h.imp fun {i j} hij => ?_
    split_ifs
    all_goals exact hij
  | false => exact h.filter _

/-! ## Entries, walks and paths -/

theorem rowKind_some (i : InodeRow) :
    rowKind (some i) = if i.unlinkPending then none else some (decide (i.kind = .directory)) :=
  rfl

theorem kind_of_row (h : Represents db v t) {i : InodeRow} (hrow : db.inodeRow v x = some i) :
    t.kind x = rowKind (some i) := by
  rw [h.rows.kind_eq, ← inodeRow_eq, hrow]

theorem hasKey_iff (hd : d ∈ Db.volumeDirents db v) {p : InodeId} {n : NameText} :
    d.hasKey v p n ↔ d.parentInode = p ∧ d.foldedName = n := by
  have hv : d.volumeId = v := by simpa using (List.mem_filter.mp hd).2
  unfold Dirent.hasKey
  simp only [hv, true_and]

/-- INTERNAL: the directory a walk goes up to is the tree's. -/
theorem parentOf_eq (h : Represents db v t) (x : InodeId) :
    db.parentOf v x = (t.place x).map Prod.fst := by
  have hmem : ∀ d, d ∈ db.dirents → d.volumeId = v → d ∈ Db.volumeDirents db v :=
    fun d hd hv => List.mem_filter.mpr ⟨hd, by simpa using hv⟩
  unfold Db.parentOf
  cases hfind : db.dirents.find? fun d => d.volumeId = v ∧ d.childInode = x with
  | none =>
    cases hplace : t.place x with
    | none => rfl
    | some q =>
      obtain ⟨d, hd, hchild, -, -⟩ := (h.rows.place_iff x q.1 q.2).mp hplace
      obtain ⟨hd, hv⟩ := List.mem_filter.mp hd
      have hno := List.find?_eq_none.mp hfind d hd
      exact absurd (decide_eq_true ⟨of_decide_eq_true hv, hchild⟩) hno
  | some d =>
    have hd := List.mem_of_find?_eq_some hfind
    have hcond : d.volumeId = v ∧ d.childInode = x := by simpa using List.find?_some hfind
    have hplace := h.rows.place_of_mem (hmem d hd hcond.1)
    rw [hcond.2] at hplace
    rw [hplace]
    rfl

/-- INTERNAL: a walk that ends well met every directory above its start, and none of them
is the one that moves. -/
theorem ancestorWalk_ok (h : Represents db v t) {moved : InodeId} {hops : ℕ} {y : InodeId}
    (hwalk : ancestorWalk db v moved hops x = .ok ()) (hy : t.Above x y) : y ≠ moved := by
  induction hops generalizing x with
  | zero => cases hwalk
  | succ hops ih =>
    rw [ancestorWalk] at hwalk
    split_ifs at hwalk with hx
    rw [parentOf_eq h] at hwalk
    rcases Relation.ReflTransGen.cases_head hy with rfl | ⟨p, ⟨n, hp⟩, hrest⟩
    · exact hx
    · rw [hp] at hwalk
      exact ih hwalk hrest

theorem kind_of_resolved (h : Represents db v t) (hx : Resolved ext db v x) :
    (t.kind x).isSome := by
  obtain ⟨path, hpath⟩ := hx
  have hroot : (t.kind (rootInode v)).isSome := by
    rw [← h.root_eq, t.root_kind]
    rfl
  unfold resolvePath at hpath
  generalize (path.splitOn '/').filter (· ≠ []) = components at hpath
  generalize rootInode v = current at hpath hroot
  induction components generalizing current with
  | nil =>
    cases pure_ok.mp hpath
    exact hroot
  | cons component rest ih =>
    rw [resolveComponents] at hpath
    obtain ⟨_, _, hl, hpath⟩ := bind_ok.mp hpath
    obtain ⟨folded, -, hr⟩ := lookup_ok hl
    cases hr
    cases hentry : db.entry v current folded with
    | none =>
      simp only [hentry] at hpath
      cases pure_ok.mp hpath
    | some e =>
      simp only [hentry] at hpath
      obtain ⟨d, hd, i, -, -, hinode, -⟩ := entry_eq_some hentry
      refine ih _ hpath ?_
      rw [hinode]
      exact t.child_kind _ _ _ (h.rows.place_of_mem hd)

/-- INTERNAL: a resolved inode whose row is a directory is a directory of the tree. -/
theorem directory_of_resolved (h : Represents db v t) (hx : Resolved ext db v x) {i : InodeRow}
    (hrow : db.inodeRow v x = some i) (hkind : i.kind = .directory) : t.kind x = some true := by
  have hsome := kind_of_resolved h hx
  rw [kind_of_row h hrow, rowKind_some] at hsome ⊢
  cases hp : i.unlinkPending with
  | true =>
    rw [hp] at hsome
    cases hsome
  | false => simp [hkind]

/-! ## Requests on a described volume -/

theorem represents_congr (h : Represents db v t)
    (hin : Db.volumeInodes db' v = Db.volumeInodes db v)
    (hdir : Db.volumeDirents db' v = Db.volumeDirents db v) : Represents db' v t := by
  refine ⟨h.root_eq, ?_⟩
  rw [hin, hdir]
  exact h.rows

/-- INTERNAL: a node that is empty where it is a directory holds no entries. -/
theorem childless_of_empty (h : Represents db v t) (hd : d ∈ Db.volumeDirents db v)
    (hempty : ∀ i, db.inodeRow v d.childInode = some i → i.kind = .directory →
      ∀ e ∈ Db.volumeDirents db v, e.parentInode ≠ d.childInode) : t.Childless d.childInode := by
  have hkind := t.child_kind _ _ _ (h.rows.place_of_mem hd)
  cases hrow : db.inodeRow v d.childInode with
  | none =>
    rw [h.rows.kind_eq, ← inodeRow_eq, hrow] at hkind
    cases hkind
  | some i =>
    cases hk : i.kind with
    | directory => exact h.rows.childless_of_entries (hempty i hrow hk)
    | file =>
      apply NameTree.childless_of_file
      rw [kind_of_row h hrow, rowKind_some] at hkind ⊢
      cases hp : i.unlinkPending with
      | true =>
        rw [hp] at hkind
        cases hkind
      | false => simp [hk]

/-- INTERNAL: an inode whose entry goes holds no entries itself. -/
theorem childless_of_unlinked (h : Represents db v t) (hd : d ∈ Db.volumeDirents db v)
    (hun : Unlinked db db' v d retain) : t.Childless d.childInode :=
  childless_of_empty h hd hun.empty

/-- INTERNAL: the destination of a rename is not below the node that moves. -/
theorem not_above_moved (h : Represents db v t) (hfound : RenameFound db v d toParent) :
    ¬ t.Above toParent d.childInode := by
  intro habove
  obtain ⟨i, hi⟩ := hfound.row
  cases hk : i.kind with
  | directory => exact ancestorWalk_ok h (hfound.walked i hi hk) habove rfl
  | file =>
    -- a file has nothing below it, and the destination is a directory
    have hchildless : t.Childless d.childInode := by
      refine childless_of_empty h hfound.entry_mem fun j hj hjk => ?_
      rw [hi] at hj
      cases hj
      rw [hk] at hjk
      cases hjk
    have heq := NameTree.eq_of_above_childless hchildless habove
    obtain ⟨target, htarget, hdirectory⟩ := hfound.target
    rw [heq, hi] at htarget
    cases htarget
    rw [hk] at hdirectory
    cases hdirectory

/-- INTERNAL: taking out an entry with its inode takes the node out of the tree. -/
theorem represents_unlinked (h : Represents db v t) (hd : d ∈ Db.volumeDirents db v)
    (hun : Unlinked db db' v d retain) :
    ∃ t' : NameTree InodeId NameText, Represents db' v t' ∧
      t'.kind = Function.update t.kind d.childInode none ∧
      t'.place = Function.update t.place d.childInode none := by
  obtain ⟨t', hroot, hkind, hplace, hrows⟩ := h.rows.unlink hd (childless_of_unlinked h hd hun)
    (rowKind_goneRows d.childInode retain) (fun y hy => find?_goneRows retain hy)
    (pairwise_goneRows d.childInode retain h.rows.rows_distinct)
  refine ⟨t', ⟨hroot.trans h.root_eq, ?_⟩, hkind, hplace⟩
  have hin : Db.volumeInodes db' v =
      goneRows d.childInode retain (Db.volumeInodes db v) := by
    unfold Db.volumeInodes
    rw [hun.inodes, filter_unlinkedRows_self]
  have hdir : Db.volumeDirents db' v = (Db.volumeDirents db v).filter fun e =>
      ¬ (e.parentInode = d.parentInode ∧ e.foldedName = d.foldedName) := by
    unfold Db.volumeDirents
    rw [hun.dirents]
    exact filter_drop_self (·.volumeId = v)
      (fun e => e.parentInode = d.parentInode ∧ e.foldedName = d.foldedName) db.dirents
  rw [hin, hdir]
  exact hrows

theorem represents_createNode {kind : NamespaceNodeKind} {e : DirEntry} (h : Represents db v t)
    (hparent : Resolved ext db v parent)
    (hok : createNodeIn ext v parent name kind nowNs db = .ok (e, db')) :
    ∃ t' : NameTree InodeId NameText, Represents db' v t' := by
  obtain ⟨inode, folded, i, -, hrow, hdir, hnew, hfree, -, -, hin', hdir'⟩ := createNodeIn_ok hok
  obtain ⟨t', hroot, hrows⟩ := h.rows.add
    ⟨v, inode, kind, 0, none, none, nowNs, nowNs, false⟩ ⟨v, parent, folded, name, inode⟩
    (by rw [← inodeRow_eq]; exact hnew) rfl rfl
    (directory_of_resolved h hparent hrow hdir)
    (fun d hd hkey => hfree d (List.mem_filter.mp hd).1 ((hasKey_iff hd).mpr hkey))
  refine ⟨t', hroot.trans h.root_eq, ?_⟩
  have hinodes := filter_append_self (·.volumeId = v) (a :=
    ⟨v, inode, kind, 0, none, none, nowNs, nowNs, false⟩) rfl db.inodes
  have hdirents := filter_append_self (·.volumeId = v) (a :=
    ⟨v, parent, folded, name, inode⟩) rfl db.dirents
  unfold Db.volumeInodes Db.volumeDirents
  rw [hin', hdir', hinodes, hdirents]
  exact hrows

/-- INTERNAL: a rename moves its node in the tree left after the entry it lands on. -/
theorem represents_rename {fromParent : InodeId} {fromName toName : NameText} {replace : Bool}
    {expected : Option (Option InodeId)} (h : Represents db v t)
    (hto : Resolved ext db v toParent)
    (hok : renameInWithPolicy ext v fromParent fromName toParent toName nowNs replace retain
      expected db = .ok ((), db')) : ∃ t' : NameTree InodeId NameText, Represents db' v t' := by
  obtain ⟨d, toFolded, db₁, -, hfound, hvictim, hfree, htables⟩ := renameInWithPolicy_ok hok
  obtain ⟨target, htarget, htargetKind⟩ := hfound.target
  have htoKind : t.kind toParent = some true :=
    directory_of_resolved h hto htarget htargetKind
  have hbelow : ¬ t.Above toParent d.childInode := not_above_moved h hfound
  -- the tree without the entry the rename lands on
  obtain ⟨t₁, h₁, hd₁, hto₁, hbelow₁⟩ : ∃ t₁ : NameTree InodeId NameText,
      Represents db₁ v t₁ ∧ d ∈ Db.volumeDirents db₁ v ∧ t₁.kind toParent = some true ∧
        ¬ t₁.Above toParent d.childInode := by
    rcases hvictim with rfl | ⟨e, he, hep, hed, hun⟩
    · exact ⟨t, h, hfound.entry_mem, htoKind, hbelow⟩
    · obtain ⟨t₁, h₁, hkind₁, hplace₁⟩ := represents_unlinked h he hun
      have hne : toParent ≠ e.childInode := by
        have hplace_e := h.rows.place_of_mem he
        rw [hep] at hplace_e
        exact childless_of_unlinked h he hun _ _ _ hplace_e
      refine ⟨t₁, h₁, ?_, ?_, fun habove => hbelow ?_⟩
      · have hmem : d ∈ db.dirents := (List.mem_filter.mp hfound.entry_mem).1
        have hkeep : ¬ d.hasKey v e.parentInode e.foldedName := by
          intro hkey
          obtain ⟨hp, hn⟩ := (hasKey_iff hfound.entry_mem).mp hkey
          exact hed (congrArg Dirent.childInode (h.rows.eq_of_key he hfound.entry_mem
            hp.symm hn.symm))
        refine List.mem_filter.mpr ⟨?_, (List.mem_filter.mp hfound.entry_mem).2⟩
        rw [hun.dirents]
        exact List.mem_filter.mpr ⟨hmem, by simpa using hkeep⟩
      · rw [hkind₁, Function.update_of_ne hne]
        exact htoKind
      · -- every link of the smaller tree is a link of the old one
        refine Relation.ReflTransGen.mono (p := Up t.place) ?_ _ _ habove
        rintro a b ⟨n, hn⟩
        refine ⟨n, ?_⟩
        rw [hplace₁] at hn
        by_cases ha : a = e.childInode
        · rw [ha, Function.update_self] at hn
          cases hn
        · rwa [Function.update_of_ne ha] at hn
  have hfree₁ : ∀ e ∈ Db.volumeDirents db₁ v, e ≠ d →
      ¬ (e.parentInode = toParent ∧ e.foldedName = toFolded) := by
    rintro e he hne hkey
    have hmem : e ∈ db₁.dirents := (List.mem_filter.mp he).1
    rcases hfree e hmem with hsame | hno
    · obtain ⟨hp, hn⟩ := (hasKey_iff he).mp hsame
      exact hne (h₁.rows.eq_of_key he hd₁ hp hn)
    · exact hno ((hasKey_iff he).mpr hkey)
  obtain ⟨t', hroot, hrows⟩ := h₁.rows.move toName hd₁ hto₁ hbelow₁ hfree₁
  have hin' : db'.inodes = _ := congrArg (·.2.1) htables
  have hdir' : db'.dirents = _ := congrArg (·.2.2) htables
  have hdirents : Db.volumeDirents db' v = (Db.volumeDirents db₁ v).map fun e =>
      if e.parentInode = d.parentInode ∧ e.foldedName = d.foldedName then
        { e with parentInode := toParent, foldedName := toFolded, displayName := toName }
      else e := by
    unfold Db.volumeDirents
    rw [hdir']
    exact filter_update_self (·.volumeId = v)
      (fun e => e.parentInode = d.parentInode ∧ e.foldedName = d.foldedName)
      (fun e =>
        { e with parentInode := toParent, foldedName := toFolded, displayName := toName })
      (fun _ h => h) db₁.dirents
  have hinodes : Db.volumeInodes db' v = (Db.volumeInodes db₁ v).map fun i =>
      if i.inode = d.childInode then { i with modifiedNs := nowNs } else i := by
    unfold Db.volumeInodes
    rw [hin']
    exact filter_update_self (·.volumeId = v) (·.inode = d.childInode)
      (fun i => { i with modifiedNs := nowNs }) (fun _ h => h) db₁.inodes
  refine ⟨t', hroot.trans h₁.root_eq, ?_⟩
  rw [hdirents, hinodes]
  refine hrows.reread (fun x => ?_) ?_
  · rw [List.find?_map]
    have hfun : ((fun i : InodeRow => decide (i.inode = x)) ∘ fun i =>
        if i.inode = d.childInode then { i with modifiedNs := nowNs } else i) =
        fun i : InodeRow => decide (i.inode = x) := by
      funext i
      simp only [Function.comp]
      split_ifs
      · rfl
      · rfl
    rw [hfun]
    cases (Db.volumeInodes db₁ v).find? fun i => decide (i.inode = x) with
    | none => rfl
    | some i =>
      simp only [Option.map_some, rowKind_some]
      split_ifs <;> rfl
  · rw [List.pairwise_map]
    refine hrows.rows_distinct.imp fun {i j} hij => ?_
    split_ifs
    all_goals exact hij

/-!
## The tree along a run

`VolumeInv` is the invariant of whole runs: every volume that was created is described by a
tree.  The fields of the abstract tree then read back as the facts about rows that `OneTree`
states.
-/

/-- INTERNAL: the volume's rows are a tree if it exists, and are not there otherwise. -/
def VolumeInv (db : Db) (v : RepositoryId) : Prop :=
  (Db.hasVolume db v ∧ ∃ t, Represents db v t) ∨
    (¬ Db.hasVolume db v ∧ Db.volumeInodes db v = [] ∧ Db.volumeDirents db v = [])

/-- INTERNAL: the volume's rows and its existence are the same in both states. -/
structure VolumeSame (db db' : Db) (v : RepositoryId) : Prop where
  volume : Db.hasVolume db' v ↔ Db.hasVolume db v
  inodes : Db.volumeInodes db' v = Db.volumeInodes db v
  dirents : Db.volumeDirents db' v = Db.volumeDirents db v

theorem VolumeInv.congr (h : VolumeInv db v) (hs : VolumeSame db db' v) : VolumeInv db' v := by
  rcases h with ⟨hv, t, ht⟩ | ⟨hv, hin, hdir⟩
  · exact .inl ⟨hs.volume.mpr hv, t, represents_congr ht hs.inodes hs.dirents⟩
  · refine .inr ⟨fun h' => hv (hs.volume.mp h'), ?_, ?_⟩
    · rw [hs.inodes, hin]
    · rw [hs.dirents, hdir]

theorem volumeSame_of_tables (h : namespaceTables db' = namespaceTables db) :
    VolumeSame db db' v := by
  have hvol : db'.namespaceVolumes = db.namespaceVolumes := congrArg (·.1) h
  have hin : db'.inodes = db.inodes := congrArg (·.2.1) h
  have hdir : db'.dirents = db.dirents := congrArg (·.2.2) h
  refine ⟨?_, ?_, ?_⟩
  · unfold Db.hasVolume Db.nextSequence
    rw [hvol]
  · unfold Db.volumeInodes
    rw [hin]
  · unfold Db.volumeDirents
    rw [hdir]

theorem volumeSame_of_unlinked (hw : w ≠ v) (h : Unlinked db db' v d retain) :
    VolumeSame db db' w := by
  refine ⟨?_, ?_, ?_⟩
  · unfold Db.hasVolume Db.nextSequence
    rw [h.volumes]
  · unfold Db.volumeInodes
    rw [h.inodes, filter_unlinkedRows_other hw]
  · unfold Db.volumeDirents
    rw [h.dirents]
    refine filter_drop_other (·.volumeId = v)
      (fun e => e.parentInode = d.parentInode ∧ e.foldedName = d.foldedName)
      (·.volumeId = w) ?_ db.dirents
    intro e hv he
    exact hw (he.symm.trans hv)

/-- INTERNAL: a volume that has a directory entry exists and is described by a tree. -/
theorem VolumeInv.represents_of_dirent (h : VolumeInv db v) (hd : d ∈ Db.volumeDirents db v) :
    Db.hasVolume db v ∧ ∃ t, Represents db v t := by
  rcases h with h | ⟨-, -, hnone⟩
  · exact h
  · rw [hnone] at hd
    cases hd

/-! ## One request -/

theorem volumeInv_createVolume {root : InodeId} (h : ∀ w, VolumeInv db w)
    (hok : createVolume v nowNs db = .ok (root, db')) (w : RepositoryId) : VolumeInv db' w := by
  obtain ⟨hnew, hvol, hin, hdir⟩ := createVolume_ok hok
  by_cases hw : w = v
  · subst hw
    refine .inl ⟨(hvol w).mpr (.inl rfl), NameTree.single (rootInode w), rfl, ?_⟩
    obtain ⟨-, hin₀, hdir₀⟩ : _ ∧ Db.volumeInodes db w = [] ∧ Db.volumeDirents db w = [] := by
      rcases h w with ⟨hv, -⟩ | hempty
      · exact absurd hv hnew
      · exact hempty
    have hinodes : Db.volumeInodes db' w =
        [⟨w, rootInode w, .directory, 0, none, none, nowNs, nowNs, false⟩] := by
      unfold Db.volumeInodes at hin₀ ⊢
      rw [hin, filter_append_self (fun i : InodeRow => i.volumeId = w) rfl, hin₀]
      rfl
    have hdirents : Db.volumeDirents db' w = [] := by
      unfold Db.volumeDirents at hdir₀ ⊢
      rw [hdir, hdir₀]
    rw [hinodes, hdirents]
    refine ⟨fun x => ?_, fun x p n => ?_, List.pairwise_singleton _ _, List.Pairwise.nil⟩
    · change (if x = rootInode w then some true else none) = _
      by_cases hx : x = rootInode w
      · simp [hx, rowKind]
      · have hx' : ¬ rootInode w = x := fun e => hx e.symm
        simp [hx, hx', rowKind]
    · simp [NameTree.single]
  · refine (h w).congr ⟨?_, ?_, ?_⟩
    · rw [hvol w]
      simp [hw]
    · unfold Db.volumeInodes
      rw [hin, filter_append_other (fun i : InodeRow => i.volumeId = w)]
      exact fun e => hw e.symm
    · unfold Db.volumeDirents
      rw [hdir]

theorem volumeInv_createNode {kind : NamespaceNodeKind} {e : DirEntry} (h : ∀ w, VolumeInv db w)
    (hp : Resolved ext db v parent)
    (hok : createNodeIn ext v parent name kind nowNs db = .ok (e, db')) (w : RepositoryId) :
    VolumeInv db' w := by
  obtain ⟨inode, folded, i, -, -, -, -, -, hvol, hvols, hin, hdir⟩ := createNodeIn_ok hok
  by_cases hw : w = v
  · subst hw
    rcases h w with ⟨hv, t, ht⟩ | ⟨hv, -⟩
    · exact .inl ⟨(hvols w).mpr hv, represents_createNode ht hp hok⟩
    · exact absurd hvol hv
  · refine (h w).congr ⟨hvols w, ?_, ?_⟩
    · unfold Db.volumeInodes
      rw [hin, filter_append_other (fun i : InodeRow => i.volumeId = w)]
      exact fun e => hw e.symm
    · unfold Db.volumeDirents
      rw [hdir, filter_append_other (fun d : Dirent => d.volumeId = w)]
      exact fun e => hw e.symm

theorem volumeInv_rename {fromParent : InodeId} {fromName toName : NameText} {replace : Bool}
    {expected : Option (Option InodeId)} (h : ∀ w, VolumeInv db w)
    (hto : Resolved ext db v toParent)
    (hok : renameInWithPolicy ext v fromParent fromName toParent toName nowNs replace retain
      expected db = .ok ((), db')) (w : RepositoryId) : VolumeInv db' w := by
  obtain ⟨d, toFolded, db₁, -, hfound, hvictim, -, htables⟩ := renameInWithPolicy_ok hok
  have hvol₁ : db₁.namespaceVolumes = db.namespaceVolumes := by
    rcases hvictim with rfl | ⟨e, -, -, -, hun⟩
    · rfl
    · exact hun.volumes
  have hvols : Db.hasVolume db' w ↔ Db.hasVolume db w := by
    unfold Db.hasVolume Db.nextSequence
    rw [show db'.namespaceVolumes = db₁.namespaceVolumes from congrArg (·.1) htables, hvol₁]
  by_cases hw : w = v
  · subst hw
    obtain ⟨hv, t, ht⟩ := (h w).represents_of_dirent hfound.entry_mem
    exact .inl ⟨hvols.mpr hv, represents_rename ht hto hok⟩
  · have hsame₁ : VolumeSame db db₁ w := by
      rcases hvictim with rfl | ⟨e, -, -, -, hun⟩
      · exact ⟨Iff.rfl, rfl, rfl⟩
      · exact volumeSame_of_unlinked hw hun
    have hother : ∀ u, u = v → ¬ u = w := fun u hu hu' => hw (hu'.symm.trans hu)
    refine (h w).congr ⟨hvols, ?_, ?_⟩
    · rw [← hsame₁.inodes]
      unfold Db.volumeInodes
      rw [show db'.inodes = _ from congrArg (·.2.1) htables]
      exact filter_update_other (·.volumeId = v) (·.inode = d.childInode) (·.volumeId = w)
        (fun i => { i with modifiedNs := nowNs }) (fun i => hother i.volumeId)
        (fun i => hother i.volumeId) db₁.inodes
    · rw [← hsame₁.dirents]
      unfold Db.volumeDirents
      rw [show db'.dirents = _ from congrArg (·.2.2) htables]
      exact filter_update_other (·.volumeId = v)
        (fun e => e.parentInode = d.parentInode ∧ e.foldedName = d.foldedName) (·.volumeId = w)
        (fun e =>
          { e with parentInode := toParent, foldedName := toFolded, displayName := toName })
        (fun e => hother e.volumeId) (fun e => hother e.volumeId) db₁.dirents

theorem volumeInv_delete (h : ∀ w, VolumeInv db w)
    (hok : deleteNodeWithLifetimeIn ext v parent name nowNs retain db = .ok ((), db'))
    (w : RepositoryId) : VolumeInv db' w := by
  obtain ⟨d, hd, hun⟩ := deleteNodeWithLifetimeIn_ok hok
  by_cases hw : w = v
  · subst hw
    obtain ⟨hv, t, ht⟩ := (h w).represents_of_dirent hd
    obtain ⟨t', ht', -, -⟩ := represents_unlinked ht hd hun
    refine .inl ⟨?_, t', ht'⟩
    unfold Db.hasVolume Db.nextSequence
    rw [hun.volumes]
    exact hv
  · exact (h w).congr (volumeSame_of_unlinked hw hun)

/-- INTERNAL: dropping a row that is retained for open handles changes no tree. -/
theorem volumeInv_release {file : BitVec 128} {dead : List (PayloadId × Int)}
    (h : ∀ w, VolumeInv db w) (hok : releaseInodeExtents v x file nowNs db = .ok (dead, db'))
    (w : RepositoryId) : VolumeInv db' w := by
  rcases releaseInodeExtents_ok hok with hsame | ⟨⟨i, hi, hiv, hix, hpending⟩, htables⟩
  · exact (h w).congr (volumeSame_of_tables hsame)
  · have hvol : db'.namespaceVolumes = db.namespaceVolumes := congrArg (·.1) htables
    have hin : db'.inodes = unlinkedRows v x false db.inodes := congrArg (·.2.1) htables
    have hdir : db'.dirents = db.dirents := congrArg (·.2.2) htables
    have hvols : Db.hasVolume db' w ↔ Db.hasVolume db w := by
      unfold Db.hasVolume Db.nextSequence
      rw [hvol]
    have hdirents : Db.volumeDirents db' w = Db.volumeDirents db w := by
      unfold Db.volumeDirents
      rw [hdir]
    by_cases hw : w = v
    · subst hw
      have hmem : i ∈ Db.volumeInodes db w := List.mem_filter.mpr ⟨hi, by simpa using hiv⟩
      have hrows : Db.volumeInodes db' w = goneRows x false (Db.volumeInodes db w) := by
        unfold Db.volumeInodes
        rw [hin, filter_unlinkedRows_self]
      rcases h w with ⟨hv, t, ht⟩ | ⟨-, hnone, -⟩
      · refine .inl ⟨hvols.mpr hv, t, ht.root_eq, ?_⟩
        rw [hrows, hdirents]
        refine ht.rows.reread (fun y => ?_) (pairwise_goneRows x false ht.rows.rows_distinct)
        by_cases hy : y = x
        · have hfind := find?_of_mem ht.rows.rows_distinct hmem
          rw [hix] at hfind
          rw [hy, rowKind_goneRows, hfind, rowKind_some, hpending]
          rfl
        · rw [find?_goneRows false hy]
      · rw [hnone] at hmem
        cases hmem
    · refine (h w).congr ⟨hvols, ?_, hdirents⟩
      unfold Db.volumeInodes
      rw [hin, filter_unlinkedRows_other hw]

/-! ## Runs -/

theorem volumeInv_step {call : NamespaceCall} (h : ∀ w, VolumeInv db w)
    (hresolved : call.ParentsResolved ext db)
    (hok : call.transaction ext db = .ok ((), db')) (w : RepositoryId) : VolumeInv db' w := by
  cases call with
  | createVolume volumeId nowNs =>
    obtain ⟨root, _, hcreate, hpure⟩ := bind_ok.mp hok
    cases pure_ok.mp hpure
    exact volumeInv_createVolume h hcreate w
  | createNode volumeId parent name kind nowNs =>
    obtain ⟨e, _, hcreate, hpure⟩ := bind_ok.mp hok
    cases pure_ok.mp hpure
    exact volumeInv_createNode h hresolved hcreate w
  | rename volumeId fromParent fromName toParent toName nowNs replace retain expected =>
    exact volumeInv_rename h hresolved.2 hok w
  | deleteNode volumeId parent name nowNs retain => exact volumeInv_delete h hok w
  | release volumeId inode file nowNs =>
    obtain ⟨dead, _, hrelease, hpure⟩ := bind_ok.mp hok
    cases pure_ok.mp hpure
    exact volumeInv_release h hrelease w

theorem volumeInv_of_run (h : NamespaceRun ext db) : ∀ v, VolumeInv db v := by
  induction h with
  | start hempty =>
    intro v
    rename_i db
    have hvol : db.namespaceVolumes = [] := congrArg (·.1) hempty
    have hin : db.inodes = [] := congrArg (·.2.1) hempty
    have hdir : db.dirents = [] := congrArg (·.2.2) hempty
    refine .inr ⟨?_, ?_, ?_⟩
    · unfold Db.hasVolume Db.nextSequence
      rw [hvol]
      exact Bool.false_ne_true
    · unfold Db.volumeInodes
      rw [hin]
      rfl
    · unfold Db.volumeDirents
      rw [hdir]
      rfl
  | step _ call hresolved hok ih => exact volumeInv_step ih hresolved hok
  | other _ hsame ih => exact fun v => (ih v).congr (volumeSame_of_tables hsame)

/-! ## Reading the tree back -/

theorem oneTree_of_represents (h : Represents db v t) : OneTree db v := by
  have hmemInode : ∀ i ∈ db.inodes, RowLive i v → i ∈ Db.volumeInodes db v := fun i hi hl =>
    List.mem_filter.mpr ⟨hi, by simpa using hl.1⟩
  have hmemDirent : ∀ d ∈ db.dirents, d.volumeId = v → d ∈ Db.volumeDirents db v :=
    fun d hd hv => List.mem_filter.mpr ⟨hd, by simpa using hv⟩
  have hkind : ∀ i ∈ db.inodes, RowLive i v → (t.kind i.inode).isSome := by
    intro i hi hl
    rw [h.rows.kind_of_mem (hmemInode i hi hl), rowKind_some, hl.2]
    rfl
  refine ⟨?_, ?_, ?_, ?_⟩
  · intro i hi hl hroot
    have hplaced := t.placed i.inode (by rw [h.root_eq]; exact hroot) (hkind i hi hl)
    obtain ⟨q, hq⟩ := Option.isSome_iff_exists.mp hplaced
    obtain ⟨d, hd, hchild, -, -⟩ := (h.rows.place_iff i.inode q.1 q.2).mp hq
    have hcount := countP_key_eq_one Dirent.childInode h.rows.children_distinct hd
    rw [hchild] at hcount
    unfold Db.volumeDirents at hcount
    rw [List.countP_filter] at hcount
    rw [← hcount]
    congr 1
    funext e
    simp only [Bool.decide_and, Bool.and_comm]
  · intro d hd hv
    have hd' := hmemDirent d hd hv
    have hparent := t.parent_kind _ _ _ (h.rows.place_of_mem hd')
    rw [h.rows.kind_eq] at hparent
    cases hfind : (Db.volumeInodes db v).find? fun i => decide (i.inode = d.parentInode) with
    | none =>
      rw [hfind] at hparent
      cases hparent
    | some i =>
      rw [hfind, rowKind_some] at hparent
      obtain ⟨hi, hiv⟩ := List.mem_filter.mp (List.mem_of_find?_eq_some hfind)
      have hinode : i.inode = d.parentInode := by simpa using List.find?_some hfind
      cases hp : i.unlinkPending with
      | true =>
        rw [hp] at hparent
        cases hparent
      | false =>
        refine ⟨i, hi, ⟨by simpa using hiv, hp⟩, hinode, ?_⟩
        simpa [hp] using hparent
  · intro i hi hl
    have hchain := t.reaches i.inode (hkind i hi hl)
    rw [h.root_eq] at hchain
    refine Relation.ReflTransGen.mono (p := ParentLink db v) ?_ _ _ hchain
    rintro a b ⟨n, hn⟩
    obtain ⟨d, hd, hchild, hparent, -⟩ := (h.rows.place_iff a b n).mp hn
    obtain ⟨hd, hv⟩ := List.mem_filter.mp hd
    exact ⟨d, hd, by simpa using hv, hchild, hparent⟩
  · intro d hd hv
    have hd' := hmemDirent d hd hv
    have hdistinct : (Db.volumeDirents db v).Pairwise fun d e =>
        (d.parentInode, d.foldedName) ≠ (e.parentInode, e.foldedName) := by
      refine h.rows.children_distinct.imp_of_mem fun {d e} hd he hne hkey => ?_
      rw [Prod.mk.injEq] at hkey
      exact hne (congrArg Dirent.childInode (h.rows.eq_of_key hd he hkey.1 hkey.2))
    have hcount := countP_key_eq_one (fun d : Dirent => (d.parentInode, d.foldedName))
      hdistinct hd'
    unfold Db.volumeDirents at hcount
    rw [List.countP_filter] at hcount
    rw [← hcount]
    congr 1
    funext e
    rw [Bool.eq_iff_iff, decide_eq_true_iff]
    simp only [Bool.and_eq_true, decide_eq_true_eq, Prod.mk.injEq]
    exact ⟨fun ⟨hv, hp, hn⟩ => ⟨⟨hp, hn⟩, hv⟩, fun ⟨⟨hp, hn⟩, hv⟩ => ⟨hv, hp, hn⟩⟩

/-- INTERNAL: in every state a run of namespace requests reaches, the rows of every
created volume are one tree.
SRCLINE: mirage-db/src/namespace.rs:383-457, 513-835 -/
theorem namespace_is_one_tree (hrun : NamespaceRun ext db) (v : RepositoryId)
    (hv : (db.nextSequence v).isSome) : OneTree db v := by
  rcases volumeInv_of_run hrun v with ⟨-, t, ht⟩ | ⟨hno, -⟩
  · exact oneTree_of_represents ht
  · exact absurd hv hno

/-- INTERNAL: a failed request is rolled back, so a run goes on from the state it found. -/
theorem namespaceRun_commit (h : NamespaceRun ext db) (call : NamespaceCall)
    (hresolved : call.ParentsResolved ext db) :
    NamespaceRun ext (Txn.commit (call.transaction ext) db) := by
  unfold Txn.commit
  cases hok : call.transaction ext db with
  | error e => exact h
  | ok r => exact .step h call hresolved hok

/-- INTERNAL: a digest that tells short inputs apart, and ASCII upper case. -/
def shortDigest : Externals :=
  ⟨fun bytes => BitVec.ofNat 256 (bytes.foldl (fun a b => a * 3 + b.toNat) 0 * 2 ^ 128),
    fun c => [c.toUpper]⟩

/-- INTERNAL: the inode `shortDigest` gives the first node of volume 1. -/
def firstNode : InodeId := 0x303c7bd52b8564b2443

/-- INTERNAL: a directory, a file in the root, and the file moved into the directory. -/
def movedFileCall : Nat → NamespaceCall
  | 0 => .createVolume 1 5
  | 1 => .createNode 1 (rootInode 1) ['a'] .directory 6
  | 2 => .createNode 1 (rootInode 1) ['b'] .file 7
  | _ => .rename 1 (rootInode 1) ['b'] firstNode ['c'] 8 false false none

/-- INTERNAL: the state after the first `n` requests. -/
def movedFileDb : Nat → Db
  | 0 => Db.empty
  | n + 1 => Txn.commit ((movedFileCall n).transaction shortDigest) (movedFileDb n)

theorem resolved_root_movedFileDb (n : Fin 4) :
    Resolved shortDigest (movedFileDb n) 1 (rootInode 1) := by
  refine ⟨['/'], ?_⟩
  revert n
  decide +kernel

/-- INTERNAL: the state in which the file is moved. -/
theorem movedFileDb_run : NamespaceRun shortDigest (movedFileDb 3) := by
  have h₁ : NamespaceRun shortDigest (movedFileDb 1) :=
    namespaceRun_commit (.start rfl) (movedFileCall 0) trivial
  have h₂ : NamespaceRun shortDigest (movedFileDb 2) :=
    namespaceRun_commit h₁ (movedFileCall 1) (resolved_root_movedFileDb 1)
  exact namespaceRun_commit h₂ (movedFileCall 2) (resolved_root_movedFileDb 2)

/-- INTERNAL: after the file `b` of the root was moved to `c` in the directory `a`, the
three rows are one tree. -/
theorem movedFile_is_one_tree :
    (movedFileDb 4).dirents.map (fun d => (d.parentInode, d.displayName)) =
      [(rootInode 1, ['a']), (firstNode, ['c'])] ∧
    OneTree (movedFileDb 4) 1 := by
  have htarget : Resolved shortDigest (movedFileDb 3) 1 firstNode :=
    ⟨['/', 'a'], by decide +kernel⟩
  have h₄ : NamespaceRun shortDigest (movedFileDb 4) :=
    namespaceRun_commit movedFileDb_run (movedFileCall 3) ⟨resolved_root_movedFileDb 3, htarget⟩
  exact ⟨by decide +kernel, namespace_is_one_tree h₄ 1 (by decide +kernel)⟩

/-! ## Paths to a node -/

/-- INTERNAL: the folded components of a path. -/
def foldedPath (ext : Externals) (path : NameText) : Except MirageError (List NameText) :=
  ((path.splitOn '/').filter (· ≠ [])).mapM (foldName ext)

/-- INTERNAL: the inode that folded names lead to. -/
def descend (db : Db) (v : RepositoryId) : InodeId → List NameText → Option InodeId
  | current, [] => some current
  | current, folded :: rest => do
    let entry ← db.entry v current folded
    descend db v entry.inode rest

theorem resolveComponents_iff {components : List NameText} {current : InodeId} :
    resolveComponents ext v components current db = .ok (some x, db) ↔
      ∃ names, components.mapM (foldName ext) = .ok names ∧
        descend db v current names = some x := by
  induction components generalizing current with
  | nil =>
    rw [resolveComponents, pure_ok]
    simp [descend, pure, Except.pure, eq_comm]
  | cons component rest ih =>
    rw [resolveComponents, List.mapM_cons]
    constructor
    · intro h
      obtain ⟨_, _, hl, h⟩ := bind_ok.mp h
      obtain ⟨folded, hfold, hr⟩ := lookup_ok hl
      cases hr
      cases hentry : db.entry v current folded with
      | none =>
        simp only [hentry] at h
        cases pure_ok.mp h
      | some e =>
        simp only [hentry] at h
        obtain ⟨names, hnames, hx⟩ := ih.mp h
        refine ⟨folded :: names, ?_, ?_⟩
        · rw [hfold, hnames]
          rfl
        · simp [descend, hentry, hx]
    · rintro ⟨_, hnames, hx⟩
      obtain ⟨folded, hfold, hnames⟩ := except_bind_ok.mp hnames
      obtain ⟨names, hrest, hnames⟩ := except_bind_ok.mp hnames
      cases hnames
      obtain ⟨e, hentry, hx⟩ := Option.bind_eq_some_iff.mp hx
      refine bind_ok.mpr ⟨some e, db, ?_, ih.mpr ⟨names, hrest, hx⟩⟩
      exact lift_bind_ok.mpr ⟨folded, hfold, get_bind_ok.mpr (by rw [hentry]; rfl)⟩

theorem path_of_descend (h : Represents db v t) {names before : List NameText} {current : InodeId}
    (hcurrent : t.Path before current) (hx : descend db v current names = some x) :
    t.Path (before ++ names) x := by
  induction names generalizing before current with
  | nil =>
    cases hx
    rwa [List.append_nil]
  | cons folded rest ih =>
    obtain ⟨e, hentry, hx⟩ := Option.bind_eq_some_iff.mp hx
    obtain ⟨d, hd, i, hparent, hfolded, hinode, -⟩ := entry_eq_some hentry
    have hplace := h.rows.place_of_mem hd
    rw [hparent, hfolded, ← hinode] at hplace
    simpa using ih (.down hplace hcurrent) hx

/-- INTERNAL: in every state a run reaches, the paths to a node are those with the same
folded components.
SRCLINE: mirage-db/src/namespace.rs:292-305 -/
theorem same_node_iff (hrun : NamespaceRun ext db) (hv : (db.nextSequence v).isSome)
    {path other : NameText} {x : InodeId}
    (hpath : resolvePath ext v path db = .ok (some x, db)) :
    resolvePath ext v other db = .ok (some x, db) ↔
      foldedPath ext other = foldedPath ext path := by
  rcases volumeInv_of_run hrun v with ⟨-, t, ht⟩ | ⟨hno, -⟩
  · obtain ⟨names, hnames, hx⟩ := resolveComponents_iff.mp hpath
    have hroot : t.Path [] (rootInode v) := ht.root_eq ▸ .root
    unfold foldedPath
    rw [hnames]
    constructor
    · intro hother
      obtain ⟨others, hothers, hx'⟩ := resolveComponents_iff.mp hother
      have hsame := (path_of_descend ht hroot hx').unique (path_of_descend ht hroot hx)
      rw [hothers, show others = names from hsame]
    · exact fun hother => resolveComponents_iff.mpr ⟨names, hother, hx⟩
  · exact absurd hv hno

/-- INTERNAL: two spellings of the path of a directory. -/
theorem directory_path_folds :
    resolvePath shortDigest 1 ['a'] (movedFileDb 3) = .ok (some firstNode, movedFileDb 3) ∧
      foldedPath shortDigest ['/', 'A', '/'] = foldedPath shortDigest ['a'] := by
  have hpath : resolvePath shortDigest 1 ['a'] (movedFileDb 3) =
      .ok (some firstNode, movedFileDb 3) := by
    decide +kernel
  exact ⟨hpath, (same_node_iff movedFileDb_run (by decide +kernel) hpath).mp
    (by decide +kernel)⟩

end Mirage.Analysis
