import Mathlib.Data.List.Pairwise
import Mirage.Analysis.Frames
import Mirage.Interface.NamespaceRun

/-!
# Edits of the rows and the requests that make them

Four edits cover every namespace request: a row and its entry are added, an entry goes
with its row (dropped or marked), an entry gets a new key, and a row is rewritten without
touching what the tree reads of it.  Each lemma takes rows that describe a tree and gives
the tree described afterwards, built by the operation of the abstract tree.
-/

set_option autoImplicit false

namespace Mirage.Analysis

open Mirage.Model Mirage.Computation

variable {rows : List InodeRow} {entries : List Dirent} {t : NameTree InodeId NameText}

/-! ## Reading rows -/

theorem find?_of_mem (hrows : rows.Pairwise fun i j => i.inode ≠ j.inode) {i : InodeRow}
    (hi : i ∈ rows) : (rows.find? fun j => j.inode = i.inode) = some i := by
  induction rows with
  | nil => cases hi
  | cons j rest ih =>
    rw [List.pairwise_cons] at hrows
    rcases List.mem_cons.mp hi with rfl | hrest
    · simp
    · have hne : j.inode ≠ i.inode := hrows.1 i hrest
      rw [List.find?_cons_of_neg (by simpa using hne)]
      exact ih hrows.2 hrest

end Mirage.Analysis

namespace Mirage.Interface.RowsRepresent

open Mirage.Model Mirage.Computation Mirage.Analysis

variable {rows : List InodeRow} {entries : List Dirent} {t : NameTree InodeId NameText}

theorem kind_of_mem (h : RowsRepresent rows entries t) {i : InodeRow} (hi : i ∈ rows) :
    t.kind i.inode = rowKind (some i) := by
  rw [h.kind_eq, find?_of_mem h.rows_distinct hi]

variable {d : Dirent}

theorem place_of_mem (h : RowsRepresent rows entries t) (hd : d ∈ entries) :
    t.place d.childInode = some (d.parentInode, d.foldedName) :=
  (h.place_iff _ _ _).mpr ⟨d, hd, rfl, rfl, rfl⟩

/-- INTERNAL: an inode has at most one entry. -/
theorem eq_of_child (h : RowsRepresent rows entries t) {e : Dirent} (hd : d ∈ entries)
    (he : e ∈ entries) (hchild : d.childInode = e.childInode) : d = e := by
  by_contra hne
  have hsymm : Std.Symm fun d e : Dirent => d.childInode ≠ e.childInode := ⟨fun _ _ => Ne.symm⟩
  exact h.children_distinct.forall hd he hne hchild

/-- INTERNAL: a key has at most one entry. -/
theorem eq_of_key (h : RowsRepresent rows entries t) {e : Dirent} (hd : d ∈ entries)
    (he : e ∈ entries) (hparent : d.parentInode = e.parentInode)
    (hname : d.foldedName = e.foldedName) : d = e := by
  have hd' := h.place_of_mem hd
  have he' := h.place_of_mem he
  rw [hparent, hname] at hd'
  exact h.eq_of_child hd he (t.name_unique _ _ _ hd' he')

/-- INTERNAL: no entry lies in `x` exactly when the tree has no child there. -/
theorem childless_of_entries (h : RowsRepresent rows entries t) {x : InodeId}
    (hnone : ∀ d ∈ entries, d.parentInode ≠ x) : t.Childless x := by
  intro y p n hy
  obtain ⟨d, hd, -, hp, -⟩ := (h.place_iff y p n).mp hy
  rw [← hp]
  exact hnone d hd

/-! ## Edits -/

/-- INTERNAL: a new row with its entry. -/
theorem add (h : RowsRepresent rows entries t) (row : InodeRow) (entry : Dirent)
    (hrow : (rows.find? fun i => i.inode = row.inode) = none) (hlive : row.unlinkPending = false)
    (hchild : entry.childInode = row.inode) (hp : t.kind entry.parentInode = some true)
    (hfree : ∀ d ∈ entries,
      ¬ (d.parentInode = entry.parentInode ∧ d.foldedName = entry.foldedName)) :
    ∃ t' : NameTree InodeId NameText, t'.root = t.root ∧
      RowsRepresent (rows ++ [row]) (entries ++ [entry]) t' := by
  have hx : t.kind row.inode = none := by
    rw [h.kind_eq, hrow]
    rfl
  have hkey : ∀ y, t.place y ≠ some (entry.parentInode, entry.foldedName) := by
    intro y hy
    obtain ⟨d, hd, -, hdp, hdn⟩ := (h.place_iff _ _ _).mp hy
    exact hfree d hd ⟨hdp, hdn⟩
  have hnochild : ∀ d ∈ entries, d.childInode ≠ row.inode := by
    intro d hd he
    have hk := t.child_kind _ _ _ (h.place_of_mem hd)
    rw [he, hx] at hk
    cases hk
  refine ⟨t.add row.inode entry.parentInode entry.foldedName (row.kind = .directory) hx hp hkey,
    rfl, ?_, ?_, ?_, ?_⟩
  · intro y
    change Function.update t.kind row.inode _ y = _
    rw [List.find?_append]
    by_cases hy : y = row.inode
    · subst hy
      rw [Function.update_self, hrow]
      simp [rowKind, hlive]
    · have hne : ¬ row.inode = y := fun e => hy e.symm
      rw [Function.update_of_ne hy, h.kind_eq]
      simp [hne]
  · intro y p n
    change Function.update t.place row.inode _ y = _ ↔ _
    by_cases hy : y = row.inode
    · rw [hy, Function.update_self]
      constructor
      · intro he
        cases he
        exact ⟨entry, by simp, hchild, rfl, rfl⟩
      · rintro ⟨d, hd, hdc, hdp, hdn⟩
        rcases List.mem_append.mp hd with hold | hnew
        · exact absurd hdc (hnochild d hold)
        · rw [List.mem_singleton.mp hnew] at hdp hdn
          rw [hdp, hdn]
    · rw [Function.update_of_ne hy, h.place_iff]
      constructor
      · rintro ⟨d, hd, hrest⟩
        exact ⟨d, List.mem_append_left _ hd, hrest⟩
      · rintro ⟨d, hd, hdc, hrest⟩
        rcases List.mem_append.mp hd with hold | hnew
        · exact ⟨d, hold, hdc, hrest⟩
        · rw [List.mem_singleton.mp hnew, hchild] at hdc
          exact absurd hdc.symm hy
  · rw [List.pairwise_append]
    refine ⟨h.rows_distinct, List.pairwise_singleton _ _, fun i hi j hj => ?_⟩
    rw [List.mem_singleton.mp hj]
    simpa using List.find?_eq_none.mp hrow i hi
  · rw [List.pairwise_append]
    refine ⟨h.children_distinct, List.pairwise_singleton _ _, fun d hd e he => ?_⟩
    rw [List.mem_singleton.mp he, hchild]
    exact hnochild d hd

/-- INTERNAL: an entry goes together with its row, which is dropped or no longer live. -/
theorem unlink (h : RowsRepresent rows entries t) {entry : Dirent} (hentry : entry ∈ entries)
    (hempty : t.Childless entry.childInode) {rows' : List InodeRow}
    (hgone : rowKind (rows'.find? fun i => i.inode = entry.childInode) = none)
    (hrest : ∀ y, y ≠ entry.childInode →
      (rows'.find? fun i => i.inode = y) = rows.find? fun i => i.inode = y)
    (hdistinct : rows'.Pairwise fun i j => i.inode ≠ j.inode) :
    ∃ t' : NameTree InodeId NameText, t'.root = t.root ∧
      t'.kind = Function.update t.kind entry.childInode none ∧
      t'.place = Function.update t.place entry.childInode none ∧
      RowsRepresent rows'
        (entries.filter fun d =>
          ¬ (d.parentInode = entry.parentInode ∧ d.foldedName = entry.foldedName)) t' := by
  have hplace := h.place_of_mem hentry
  have hmem : ∀ d, d ∈ (entries.filter fun d =>
      ¬ (d.parentInode = entry.parentInode ∧ d.foldedName = entry.foldedName)) ↔
      d ∈ entries ∧ d ≠ entry := by
    intro d
    rw [List.mem_filter, decide_eq_true_eq]
    refine and_congr_right fun hd => not_congr ⟨fun hkey => ?_, fun he => ?_⟩
    · exact h.eq_of_key hd hentry hkey.1 hkey.2
    · rw [he]
      exact ⟨rfl, rfl⟩
  refine ⟨t.remove entry.childInode (NameTree.ne_root_of_place hplace) hempty, rfl, rfl, rfl,
    ?_, ?_, hdistinct, h.children_distinct.filter _⟩
  · intro y
    change Function.update t.kind entry.childInode none y = _
    by_cases hy : y = entry.childInode
    · rw [hy, Function.update_self, hgone]
    · rw [Function.update_of_ne hy, h.kind_eq, hrest y hy]
  · intro y p n
    change Function.update t.place entry.childInode none y = _ ↔ _
    by_cases hy : y = entry.childInode
    · rw [hy, Function.update_self]
      constructor
      · intro he
        cases he
      · rintro ⟨d, hd, hdc, -⟩
        obtain ⟨hdmem, hne⟩ := (hmem d).mp hd
        exact absurd (h.eq_of_child hdmem hentry hdc) hne
    · rw [Function.update_of_ne hy, h.place_iff]
      refine exists_congr fun d => ?_
      rw [hmem]
      constructor
      · rintro ⟨hd, hdc, hkey⟩
        refine ⟨⟨hd, fun he => hy ?_⟩, hdc, hkey⟩
        rw [← hdc, he]
      · rintro ⟨⟨hd, -⟩, hrest'⟩
        exact ⟨hd, hrest'⟩

/-- INTERNAL: an entry gets a new key under a directory that is not below its inode. -/
theorem move (h : RowsRepresent rows entries t) {entry : Dirent} {q : InodeId} {n : NameText}
    (shown : NameText) (hentry : entry ∈ entries) (hq : t.kind q = some true)
    (hbelow : ¬ t.Above q entry.childInode)
    (hfree : ∀ d ∈ entries, d ≠ entry → ¬ (d.parentInode = q ∧ d.foldedName = n)) :
    ∃ t' : NameTree InodeId NameText, t'.root = t.root ∧
      RowsRepresent rows
        (entries.map fun d =>
          if d.parentInode = entry.parentInode ∧ d.foldedName = entry.foldedName then
            { d with parentInode := q, foldedName := n, displayName := shown }
          else d) t' := by
  have hplace := h.place_of_mem hentry
  have hkeep : ∀ d ∈ entries, d ≠ entry →
      ¬ (d.parentInode = entry.parentInode ∧ d.foldedName = entry.foldedName) := by
    rintro d hd hne ⟨hp, hn⟩
    exact hne (h.eq_of_key hd hentry hp hn)
  have hname : ∀ y, y ≠ entry.childInode → t.place y ≠ some (q, n) := by
    intro y hy hpl
    obtain ⟨d, hd, hdc, hdp, hdn⟩ := (h.place_iff _ _ _).mp hpl
    refine hfree d hd (fun he => hy ?_) ⟨hdp, hdn⟩
    rw [← hdc, he]
  refine ⟨t.move entry.childInode q n (NameTree.ne_root_of_place hplace)
    (t.child_kind _ _ _ hplace) hq hbelow hname, rfl, h.kind_eq, ?_, h.rows_distinct, ?_⟩
  · intro y p m
    change Function.update t.place entry.childInode (some (q, n)) y = _ ↔ _
    by_cases hy : y = entry.childInode
    · rw [hy, Function.update_self]
      constructor
      · intro he
        cases he
        refine ⟨_, List.mem_map_of_mem hentry, ?_⟩
        simp
      · rintro ⟨d', hd', hdc, hdp, hdn⟩
        obtain ⟨d, hd, rfl⟩ := List.mem_map.mp hd'
        have hde : d = entry := by
          refine h.eq_of_child hd hentry ?_
          split_ifs at hdc
          · exact hdc
          · exact hdc
        subst hde
        simp only [and_self, if_true] at hdp hdn
        rw [hdp, hdn]
    · rw [Function.update_of_ne hy, h.place_iff]
      constructor
      · rintro ⟨d, hd, hdc, hdp, hdn⟩
        have hde : d ≠ entry := by
          intro he
          rw [he] at hdc
          exact hy hdc.symm
        refine ⟨_, List.mem_map_of_mem hd, ?_⟩
        rw [if_neg (hkeep d hd hde)]
        exact ⟨hdc, hdp, hdn⟩
      · rintro ⟨d', hd', hdc, hdp, hdn⟩
        obtain ⟨d, hd, rfl⟩ := List.mem_map.mp hd'
        have hde : d ≠ entry := by
          intro he
          subst he
          simp only [and_self, if_true] at hdc
          exact hy hdc.symm
        rw [if_neg (hkeep d hd hde)] at hdc hdp hdn
        exact ⟨d, hd, hdc, hdp, hdn⟩
  · rw [List.pairwise_map]
    refine h.children_distinct.imp fun {d e} hde => ?_
    split_ifs
    all_goals exact hde

/-- INTERNAL: rows may be rewritten as long as the tree reads the same. -/
theorem reread (h : RowsRepresent rows entries t) {rows' : List InodeRow}
    (hkind : ∀ x, rowKind (rows'.find? fun i => i.inode = x) =
      rowKind (rows.find? fun i => i.inode = x))
    (hdistinct : rows'.Pairwise fun i j => i.inode ≠ j.inode) :
    RowsRepresent rows' entries t := by
  refine ⟨fun x => ?_, h.place_iff, hdistinct, h.children_distinct⟩
  rw [h.kind_eq, hkind]

end Mirage.Interface.RowsRepresent

/-!
## What a successful namespace request wrote

One lemma for each transaction: when it succeeds, which rows it found and which it left.
-/

namespace Mirage.Analysis

open Mirage.Model Mirage.Interface Mirage.Computation Mirage.Computation.Txn

/-- INTERNAL: whether the volume has been created. -/
def Db.hasVolume (db : Db) (v : RepositoryId) : Prop := (db.nextSequence v).isSome

theorem inodeRow_eq (db : Db) (v : RepositoryId) (x : InodeId) :
    db.inodeRow v x = (Db.volumeInodes db v).find? fun i => i.inode = x := by
  unfold Db.inodeRow Db.volumeInodes
  rw [List.find?_filter]
  congr 1
  funext i
  simp only [Bool.decide_and, Bool.decide_eq_true]

/-! ## Statements -/

variable {ext : Externals} {v : RepositoryId} {nowNs : Int} {db db' : Db} {context : String}
  {fromParent parent toParent x : InodeId} {replace retain : Bool} {name toName : NameText}

theorem recordDelta_ok {op : NamespaceOp} (h : recordDelta ext v op nowNs db = .ok ((), db')) :
    namespaceTables db' = namespaceTables db :=
  keeps_recordDelta ext v (fun _ _ => rfl) op nowNs db () db' h

/-- INTERNAL: every table but the history. -/
def withoutDeltas (db : Db) : Db := { db with namespaceDeltas := [] }

/-- INTERNAL: a delta changes nothing but the history. -/
theorem recordDelta_frame {op : NamespaceOp} (h : recordDelta ext v op nowNs db = .ok ((), db')) :
    db' = { db with namespaceDeltas := db'.namespaceDeltas } := by
  have hsame : withoutDeltas db' = withoutDeltas db :=
    keeps_recordDelta ext v (fun _ _ => rfl) op nowNs db () db' h
  exact congrArg (fun m : Db => { m with namespaceDeltas := db'.namespaceDeltas }) hsame

theorem insertInode_ok {row : InodeRow} (h : insertInode row context db = .ok ((), db')) :
    db.inodeRow row.volumeId row.inode = none ∧ Db.hasVolume db row.volumeId ∧
      db' = { db with inodes := db.inodes ++ [row] } := by
  unfold insertInode at h
  replace h := get_bind_ok.mp h
  obtain ⟨hcond, h⟩ := demand_bind_ok.mp h
  cases modify_ok.mp h
  have hcond := of_decide_eq_true hcond
  exact ⟨hcond.1, hcond.2, rfl⟩

theorem allocateInode_ok {inode : InodeId} (h : allocateInode ext v db = .ok (inode, db')) :
    db'.inodes = db.inodes ∧ db'.dirents = db.dirents ∧
      ∀ w, Db.hasVolume db' w ↔ Db.hasVolume db w := by
  unfold allocateInode at h
  replace h := get_bind_ok.mp h
  obtain ⟨sequence, -, h⟩ := orFail_bind_ok.mp h
  obtain ⟨-, h⟩ := demand_bind_ok.mp h
  replace h := modify_bind_ok.mp h
  cases pure_ok.mp h
  refine ⟨rfl, rfl, fun w => ?_⟩
  unfold Db.hasVolume Db.nextSequence
  simp only [Option.isSome_map, List.find?_map]
  rw [show ((fun v => decide (v.volumeId = w)) ∘ fun u : NamespaceVolume =>
      if u.volumeId = v ∧ u.nextSequence = sequence then
        { u with nextSequence := u.nextSequence + 1 } else u) =
      fun u : NamespaceVolume => decide (u.volumeId = w) from ?_]
  funext u
  simp only [Function.comp]
  split_ifs
  · rfl
  · rfl

/-- INTERNAL: the rows left when an inode goes: marked for open handles, or dropped. -/
def unlinkedRows (v : RepositoryId) (x : InodeId) (retain : Bool) (rows : List InodeRow) :
    List InodeRow :=
  if retain then
    rows.map fun i =>
      if i.volumeId = v ∧ i.inode = x then { i with unlinkPending := true } else i
  else rows.filter fun i => ¬ (i.volumeId = v ∧ i.inode = x)

theorem deleteInode_ok (h : deleteInode v x context db = .ok ((), db')) :
    db' = { db with inodes := unlinkedRows v x false db.inodes } := by
  unfold deleteInode at h
  replace h := get_bind_ok.mp h
  obtain ⟨-, h⟩ := demand_bind_ok.mp h
  cases modify_ok.mp h
  rfl

/-- INTERNAL: the tables left when an inode goes with its bindings and pins. -/
theorem unlinkInode_eq (h : unlinkInode v x retain context db = .ok ((), db')) :
    db' = { db with
      inodes := unlinkedRows v x retain db.inodes
      legacyInodeMap := db.legacyInodeMap.filter fun l => ¬ (l.volumeId = v ∧ l.inode = x)
      namespacePins := db.namespacePins.filter fun p =>
        ¬ (p.volumeId = v ∧ p.inode = x) } := by
  unfold unlinkInode at h
  replace h := modify_bind_ok.mp h
  obtain ⟨_, db₁, h₁, h⟩ := bind_ok.mp h
  obtain ⟨_, db₂, h₂, h⟩ := bind_ok.mp h
  cases modify_ok.mp h
  cases retain with
  | true =>
    rcases onlyIf_ok.mp h₁ with ⟨-, hu⟩ | ⟨hf, -⟩
    · cases modify_ok.mp hu
      rcases onlyIf_ok.mp h₂ with ⟨hf, -⟩ | ⟨-, hr⟩
      · cases hf
      · cases hr
        rfl
    · cases hf
  | false =>
    rcases onlyIf_ok.mp h₁ with ⟨hf, -⟩ | ⟨-, hr⟩
    · cases hf
    · cases hr
      rcases onlyIf_ok.mp h₂ with ⟨-, hd⟩ | ⟨hf, -⟩
      · rw [deleteInode_ok hd]
      · cases hf

theorem unlinkInode_ok (h : unlinkInode v x retain context db = .ok ((), db')) :
    namespaceTables db' =
      (db.namespaceVolumes, unlinkedRows v x retain db.inodes, db.dirents) := by
  rw [unlinkInode_eq h]
  rfl

theorem demandEmpty_ok {kind : NamespaceNodeKind} {message : String} {r : Unit × Db}
    (h : demandEmpty v x kind message db = .ok r) :
    r = ((), db) ∧ (kind = .directory → ∀ d ∈ Db.volumeDirents db v, d.parentInode ≠ x) := by
  unfold demandEmpty at h
  replace h := get_bind_ok.mp h
  obtain ⟨hcond, hr⟩ := demand_ok.mp h
  cases hr
  refine ⟨rfl, fun hkind d hd hp => ?_⟩
  have hcond := of_decide_eq_true hcond
  rcases hcond with hne | hall
  · exact hne hkind
  · obtain ⟨hmem, hv⟩ := List.mem_filter.mp hd
    have := List.all_eq_true.mp hall d hmem
    simp only [decide_eq_true_eq] at this hv
    exact this ⟨hv, hp⟩

theorem moveDirent_ok {fromFolded toFolded : NameText}
    (h : moveDirent v fromParent fromFolded toParent toFolded toName db = .ok ((), db')) :
    (∀ d ∈ db.dirents, d.hasKey v fromParent fromFolded ∨ ¬ d.hasKey v toParent toFolded) ∧
    db' = { db with
      dirents := db.dirents.map fun d =>
        if d.hasKey v fromParent fromFolded then
          { d with parentInode := toParent, foldedName := toFolded, displayName := toName }
        else d } := by
  unfold moveDirent at h
  replace h := get_bind_ok.mp h
  obtain ⟨hcond, h⟩ := demand_bind_ok.mp h
  replace h := modify_bind_ok.mp h
  obtain ⟨hcount, hr⟩ := demand_ok.mp h
  cases hr
  have hcount := of_decide_eq_true hcount
  refine ⟨fun d hd => ?_, rfl⟩
  rcases of_decide_eq_true hcond with hzero | ⟨-, hall⟩
  · omega
  · exact of_decide_eq_true (List.all_eq_true.mp hall d hd)

/-! ## Reading -/

theorem lookup_ok {r : Option DirEntry × Db} (h : lookup ext v parent name db = .ok r) :
    ∃ folded, foldName ext name = .ok folded ∧ r = (db.entry v parent folded, db) := by
  unfold lookup at h
  obtain ⟨folded, hfold, h⟩ := lift_bind_ok.mp h
  replace h := get_bind_ok.mp h
  exact ⟨folded, hfold, pure_ok.mp h⟩

theorem stat_ok {r : Option InodeRow × Db} (h : stat v x db = .ok r) :
    r = (db.inodeRow v x, db) := by
  unfold stat at h
  replace h := get_bind_ok.mp h
  exact pure_ok.mp h

/-- INTERNAL: an entry comes from a directory entry and the row of its child. -/
theorem entry_eq_some {folded : NameText} {e : DirEntry} (h : db.entry v parent folded = some e) :
    ∃ d ∈ Db.volumeDirents db v, ∃ i, d.parentInode = parent ∧ d.foldedName = folded ∧
      e.inode = d.childInode ∧ e.foldedName = folded ∧
      db.inodeRow v d.childInode = some i ∧ e.kind = i.kind := by
  unfold Db.entry at h
  obtain ⟨d, hd, hsome⟩ := List.exists_of_findSome?_eq_some h
  split_ifs at hsome with hkey
  obtain ⟨i, hi, he⟩ := Option.map_eq_some_iff.mp hsome
  refine ⟨d, List.mem_filter.mpr ⟨hd, by simpa using hkey.1⟩, i, hkey.2.1, hkey.2.2, ?_⟩
  rw [← he]
  exact ⟨rfl, hkey.2.2, hi, rfl⟩

/-- INTERNAL: a directory entry that is the only one of its key is what its name is looked up
to. -/
theorem entry_of_unique {d : Dirent} {i : InodeRow} (hd : d ∈ db.dirents) (hv : d.volumeId = v)
    (hi : db.inodeRow v d.childInode = some i)
    (hunique : ∀ e ∈ db.dirents, e.hasKey v d.parentInode d.foldedName → e = d) :
    db.entry v d.parentInode d.foldedName = some ⟨d.childInode, d.displayName, d.foldedName,
      i.kind, i.size, i.createdNs, i.modifiedNs⟩ := by
  have hsome : (db.entry v d.parentInode d.foldedName).isSome := by
    unfold Db.entry
    rw [List.findSome?_isSome_iff]
    refine ⟨d, hd, ?_⟩
    rw [if_pos ⟨hv, rfl, rfl⟩, hi]
    rfl
  obtain ⟨entry, hentry⟩ := Option.isSome_iff_exists.mp hsome
  rw [hentry]
  unfold Db.entry at hentry
  obtain ⟨e, he, hfound⟩ := List.exists_of_findSome?_eq_some hentry
  split_ifs at hfound with hkey
  cases hunique e he hkey
  rw [hi] at hfound
  exact hfound.symm

/-! ## Requests -/

theorem createVolume_ok {root : InodeId} (h : createVolume v nowNs db = .ok (root, db')) :
    ¬ Db.hasVolume db v ∧ (∀ w, Db.hasVolume db' w ↔ w = v ∨ Db.hasVolume db w) ∧
      db'.inodes = db.inodes ++
        [⟨v, rootInode v, .directory, 0, none, none, nowNs, nowNs, false⟩] ∧
      db'.dirents = db.dirents := by
  unfold createVolume at h
  replace h := get_bind_ok.mp h
  obtain ⟨hcond, h⟩ := demand_bind_ok.mp h
  replace h := modify_bind_ok.mp h
  obtain ⟨_, _, hi, h⟩ := bind_ok.mp h
  obtain ⟨-, -, hdb⟩ := insertInode_ok hi
  cases pure_ok.mp h
  subst hdb
  refine ⟨?_, fun w => ?_, rfl, rfl⟩
  · unfold Db.hasVolume
    rw [Option.isNone_iff_eq_none.mp hcond]
    exact Bool.false_ne_true
  · unfold Db.hasVolume Db.nextSequence
    simp only [Option.isSome_map, List.find?_append, Option.isSome_or, Bool.or_eq_true]
    rw [or_comm]
    refine or_congr ?_ Iff.rfl
    by_cases hw : w = v
    · simp [hw]
    · have hvw : ¬ v = w := fun e => hw e.symm
      simp [hw, hvw]

theorem createNodeIn_ok {kind : NamespaceNodeKind} {e : DirEntry}
    (h : createNodeIn ext v parent name kind nowNs db = .ok (e, db')) :
    ∃ inode folded stat, foldName ext name = .ok folded ∧
      db.inodeRow v parent = some stat ∧ stat.kind = .directory ∧
      db.inodeRow v inode = none ∧ (∀ d ∈ db.dirents, ¬ d.hasKey v parent folded) ∧
      Db.hasVolume db v ∧ (∀ w, Db.hasVolume db' w ↔ Db.hasVolume db w) ∧
      db'.inodes = db.inodes ++ [⟨v, inode, kind, 0, none, none, nowNs, nowNs, false⟩] ∧
      db'.dirents = db.dirents ++ [⟨v, parent, folded, name, inode⟩] := by
  unfold createNodeIn at h
  obtain ⟨folded, hfold, h⟩ := lift_bind_ok.mp h
  obtain ⟨_, _, hs, h⟩ := bind_ok.mp h
  cases stat_ok hs
  obtain ⟨stat, hstat, h⟩ := orFail_bind_ok.mp h
  obtain ⟨hdir, h⟩ := demand_bind_ok.mp h
  obtain ⟨inode, db₁, ha, h⟩ := bind_ok.mp h
  obtain ⟨hin₁, hdir₁, hvol₁⟩ := allocateInode_ok ha
  obtain ⟨_, _, hi, h⟩ := bind_ok.mp h
  obtain ⟨hnone, hvol, rfl⟩ := insertInode_ok hi
  replace h := get_bind_ok.mp h
  obtain ⟨-, h⟩ := demand_bind_ok.mp h
  obtain ⟨hfree, h⟩ := demand_bind_ok.mp h
  replace h := modify_bind_ok.mp h
  obtain ⟨_, _, hrec, h⟩ := bind_ok.mp h
  have htables := recordDelta_ok hrec
  cases pure_ok.mp h
  have hrow : db.inodeRow v inode = none := by
    unfold Db.inodeRow at hnone ⊢
    rw [← hin₁]
    exact hnone
  refine ⟨inode, folded, stat, hfold, hstat, of_decide_eq_true hdir, hrow, fun d hd => ?_,
    (hvol₁ v).mp hvol, fun w => ?_, ?_, ?_⟩
  · rw [← hdir₁] at hd
    exact of_decide_eq_true (List.all_eq_true.mp hfree d hd)
  · rw [← hvol₁ w]
    unfold Db.hasVolume Db.nextSequence
    rw [show db'.namespaceVolumes = db₁.namespaceVolumes from congrArg (·.1) htables]
  · have hin : db'.inodes = db₁.inodes ++ [_] := congrArg (·.2.1) htables
    rw [hin, hin₁]
  · have hdir' : db'.dirents = db₁.dirents ++ [_] := congrArg (·.2.2) htables
    rw [hdir', hdir₁]

/-- INTERNAL: an entry is taken out and its inode goes. -/
structure Unlinked (db db' : Db) (v : RepositoryId) (d : Dirent) (retain : Bool) : Prop where
  volumes : db'.namespaceVolumes = db.namespaceVolumes
  inodes : db'.inodes = unlinkedRows v d.childInode retain db.inodes
  dirents : db'.dirents =
    db.dirents.filter fun e => ¬ e.hasKey v d.parentInode d.foldedName
  empty : ∀ i, db.inodeRow v d.childInode = some i → i.kind = .directory →
    ∀ e ∈ Db.volumeDirents db v, e.parentInode ≠ d.childInode

theorem deleteNodeWithLifetimeIn_ok
    (h : deleteNodeWithLifetimeIn ext v parent name nowNs retain db = .ok ((), db')) :
    ∃ d ∈ Db.volumeDirents db v, Unlinked db db' v d retain := by
  unfold deleteNodeWithLifetimeIn at h
  obtain ⟨folded, hfold, h⟩ := lift_bind_ok.mp h
  obtain ⟨_, _, hl, h⟩ := bind_ok.mp h
  obtain ⟨folded', hfold', hr⟩ := lookup_ok hl
  rw [hfold] at hfold'
  cases hfold'
  cases hr
  obtain ⟨entry, hentry, h⟩ := orFail_bind_ok.mp h
  obtain ⟨d, hd, i, hparent, hname, hinode, -, hrow, hkind⟩ := entry_eq_some hentry
  obtain ⟨_, _, hc, h⟩ := bind_ok.mp h
  obtain ⟨hr, hempty⟩ := demandEmpty_ok hc
  cases hr
  replace h := modify_bind_ok.mp h
  obtain ⟨_, db₁, hu, h⟩ := bind_ok.mp h
  have htables := (recordDelta_ok h).trans (unlinkInode_ok hu)
  refine ⟨d, hd, congrArg (·.1) htables, ?_, ?_, ?_⟩
  · rw [← hinode]
    exact congrArg (·.2.1) htables
  · rw [hparent, hname]
    exact congrArg (·.2.2) htables
  · intro j hj hjk
    rw [hrow] at hj
    cases hj
    rw [← hinode]
    exact hempty (hkind.trans hjk)

/-- INTERNAL: what a rename found before it wrote: the entry to move, the directory it
goes to, and that a directory does not move below itself. -/
structure RenameFound (db : Db) (v : RepositoryId) (d : Dirent) (toParent : InodeId) : Prop where
  entry_mem : d ∈ Db.volumeDirents db v
  target : ∃ i, db.inodeRow v toParent = some i ∧ i.kind = .directory
  walked : ∀ i, db.inodeRow v d.childInode = some i → i.kind = .directory →
    ancestorWalk db v d.childInode maxRenameDepth toParent = .ok ()
  row : ∃ i, db.inodeRow v d.childInode = some i

/-- INTERNAL: the entry under its new key. -/
def movedEntry (d : Dirent) (toParent : InodeId) (toFolded toName : NameText) : Dirent :=
  { d with parentInode := toParent, foldedName := toFolded, displayName := toName }

/-- INTERNAL: the database with an entry and its inode taken out. -/
def unlinkedDb (db : Db) (v : RepositoryId) (e : Dirent) (retain : Bool) : Db :=
  { db with
    dirents := db.dirents.filter fun f => ¬ f.hasKey v e.parentInode e.foldedName
    inodes := unlinkedRows v e.childInode retain db.inodes
    legacyInodeMap := db.legacyInodeMap.filter fun l =>
      ¬ (l.volumeId = v ∧ l.inode = e.childInode)
    namespacePins := db.namespacePins.filter fun p =>
      ¬ (p.volumeId = v ∧ p.inode = e.childInode) }

/-- INTERNAL: the database with an entry under another key and its inode touched. -/
def movedDb (db : Db) (v : RepositoryId) (d : Dirent) (toParent : InodeId)
    (toFolded toName : NameText) (nowNs : Int) : Db :=
  { db with
    dirents := db.dirents.map fun f =>
      if f.hasKey v d.parentInode d.foldedName then movedEntry f toParent toFolded toName else f
    inodes := db.inodes.map fun i =>
      if i.volumeId = v ∧ i.inode = d.childInode then { i with modifiedNs := nowNs } else i }

/-- INTERNAL: what a rename found of the entry it takes out. -/
structure VictimFound (db : Db) (v : RepositoryId) (e : Dirent) (toParent : InodeId)
    (toFolded : NameText) : Prop where
  entry : e ∈ Db.volumeDirents db v
  parent : e.parentInode = toParent
  name : e.foldedName = toFolded
  empty : ∀ i, db.inodeRow v e.childInode = some i → i.kind = .directory →
    ∀ f ∈ Db.volumeDirents db v, f.parentInode ≠ e.childInode

theorem removeVictim_eq {victim : DirEntry} {folded : NameText}
    (hvictim : db.entry v toParent folded = some victim)
    (h : removeVictim ext v toParent victim nowNs replace retain db = .ok ((), db')) :
    ∃ e, VictimFound db v e toParent folded ∧ e.childInode = victim.inode ∧ replace = true ∧
      db' = { unlinkedDb db v e retain with namespaceDeltas := db'.namespaceDeltas } := by
  obtain ⟨e, he, i, hparent, hname, hinode, hfold, hrow, hkind⟩ := entry_eq_some hvictim
  unfold removeVictim at h
  obtain ⟨_, _, hs, h⟩ := bind_ok.mp h
  cases stat_ok hs
  obtain ⟨victimStat, hstat, h⟩ := orFail_bind_ok.mp h
  obtain ⟨_, _, hc, h⟩ := bind_ok.mp h
  obtain ⟨hr, hempty⟩ := demandEmpty_ok hc
  cases hr
  replace h := modify_bind_ok.mp h
  obtain ⟨hreplace, h⟩ := demand_bind_ok.mp h
  obtain ⟨_, db₁, hu, h⟩ := bind_ok.mp h
  refine ⟨e, ⟨he, hparent, hname, ?_⟩, hinode.symm, hreplace, ?_⟩
  · intro j hj hjk
    rw [hinode, hj] at hstat
    cases hstat
    rw [← hinode]
    exact hempty hjk
  · have hdelta := recordDelta_frame h
    rw [unlinkInode_eq hu] at hdelta
    unfold unlinkedDb
    rw [← hinode, hparent, hname, ← hfold]
    exact hdelta

/-- INTERNAL: a rename first takes out the entry it lands on, unless that is the entry it
moves, and then gives its own entry the new key. -/
theorem renameInWithPolicy_eq {fromName : NameText} {expected : Option (Option InodeId)}
    (h : renameInWithPolicy ext v fromParent fromName toParent toName nowNs replace retain
      expected db = .ok ((), db')) :
    ∃ (d : Dirent) (toFolded : NameText) (victim : Option Dirent) (db₁ : Db),
      foldName ext fromName = .ok d.foldedName ∧ d.parentInode = fromParent ∧
      foldName ext toName = .ok toFolded ∧ RenameFound db v d toParent ∧
      (expected.all fun inode => inode = victim.map Dirent.childInode) = true ∧
      (victim = none ∧ db₁ = db ∨
        ∃ e, victim = some e ∧ VictimFound db v e toParent toFolded ∧
          e.childInode ≠ d.childInode ∧ replace = true ∧
          db₁ = { unlinkedDb db v e retain with namespaceDeltas := db₁.namespaceDeltas }) ∧
      (∀ e ∈ db₁.dirents, e.hasKey v d.parentInode d.foldedName ∨
        ¬ e.hasKey v toParent toFolded) ∧
      db' = { movedDb db₁ v d toParent toFolded toName nowNs with
        namespaceDeltas := db'.namespaceDeltas } := by
  unfold renameInWithPolicy at h
  obtain ⟨fromFolded, hfold, h⟩ := lift_bind_ok.mp h
  obtain ⟨toFolded, htofold, h⟩ := lift_bind_ok.mp h
  obtain ⟨_, _, hl, h⟩ := bind_ok.mp h
  obtain ⟨folded', hfold', hr⟩ := lookup_ok hl
  rw [hfold] at hfold'
  cases hfold'
  cases hr
  obtain ⟨entry, hentry, h⟩ := orFail_bind_ok.mp h
  obtain ⟨d, hd, i, hparent, hname, hinode, -, hrow, hkind⟩ := entry_eq_some hentry
  obtain ⟨_, _, hs, h⟩ := bind_ok.mp h
  cases stat_ok hs
  obtain ⟨toStat, hstat, h⟩ := orFail_bind_ok.mp h
  obtain ⟨hdir, h⟩ := demand_bind_ok.mp h
  replace h := get_bind_ok.mp h
  obtain ⟨_, db₀, hw, h⟩ := bind_ok.mp h
  have hwalk : db₀ = db ∧ (entry.kind = .directory →
      ancestorWalk db v entry.inode maxRenameDepth toParent = .ok ()) := by
    rcases onlyIf_ok.mp hw with ⟨-, hlift⟩ | ⟨hfile, hr⟩
    · obtain ⟨_, hok, hr⟩ := lift_ok.mp hlift
      cases hr
      exact ⟨rfl, fun _ => hok⟩
    · cases hr
      exact ⟨rfl, fun hk => absurd hk (of_decide_eq_false hfile)⟩
  obtain ⟨hdb₀, hwalk⟩ := hwalk
  rw [hdb₀] at h
  obtain ⟨_, _, hl, h⟩ := bind_ok.mp h
  obtain ⟨folded', hfold', hr⟩ := lookup_ok hl
  rw [htofold] at hfold'
  cases hfold'
  cases hr
  obtain ⟨hexpected, h⟩ := demand_bind_ok.mp h
  obtain ⟨_, db₁, hv, h⟩ := bind_ok.mp h
  obtain ⟨_, _, hm, h⟩ := bind_ok.mp h
  obtain ⟨hfree, hdb₂⟩ := moveDirent_ok hm
  replace h := modify_bind_ok.mp h
  have hfound : RenameFound db v d toParent := by
    refine ⟨hd, ⟨toStat, hstat, of_decide_eq_true hdir⟩, fun j hj hjk => ?_, i, hrow⟩
    rw [hrow] at hj
    cases hj
    rw [← hinode]
    exact hwalk (hkind.trans hjk)
  have hmoved := recordDelta_frame h
  subst hdb₂
  rw [← hparent, ← hname] at hfree
  rcases forSome_ok.mp hv with ⟨victim, hvictim, hrem⟩ | ⟨hnone, hr⟩
  · obtain ⟨hentry', hne⟩ := Option.filter_eq_some_iff.mp hvictim
    obtain ⟨e, he, hec, hreplace, hdb₁⟩ := removeVictim_eq hentry' hrem
    rw [hvictim, Option.map_some, ← hec] at hexpected
    refine ⟨d, toFolded, some e, db₁, by rw [hname, hfold], hparent, htofold, hfound, hexpected,
      .inr ⟨e, rfl, he, ?_, hreplace, hdb₁⟩, hfree, ?_⟩
    · rw [hec, ← hinode]
      exact of_decide_eq_true hne
    · unfold movedDb
      rw [hparent, hname, ← hinode]
      exact hmoved
  · cases hr
    rw [hnone] at hexpected
    refine ⟨d, toFolded, none, db, by rw [hname, hfold], hparent, htofold, hfound, hexpected,
      .inl ⟨rfl, rfl⟩, hfree, ?_⟩
    unfold movedDb
    rw [hparent, hname, ← hinode]
    exact hmoved

/-- INTERNAL: the part of it that the tree depends on. -/
theorem renameInWithPolicy_ok {fromName : NameText} {expected : Option (Option InodeId)}
    (h : renameInWithPolicy ext v fromParent fromName toParent toName nowNs replace retain
      expected db = .ok ((), db')) :
    ∃ (d : Dirent) (toFolded : NameText) (db₁ : Db),
      foldName ext toName = .ok toFolded ∧ RenameFound db v d toParent ∧
      (db₁ = db ∨
        ∃ e ∈ Db.volumeDirents db v, e.parentInode = toParent ∧
          e.childInode ≠ d.childInode ∧ Unlinked db db₁ v e retain) ∧
      (∀ e ∈ db₁.dirents, e.hasKey v d.parentInode d.foldedName ∨
        ¬ e.hasKey v toParent toFolded) ∧
      namespaceTables db' =
        (db₁.namespaceVolumes,
          db₁.inodes.map (fun i =>
            if i.volumeId = v ∧ i.inode = d.childInode then { i with modifiedNs := nowNs }
            else i),
          db₁.dirents.map fun e =>
            if e.hasKey v d.parentInode d.foldedName then
              { e with parentInode := toParent, foldedName := toFolded, displayName := toName }
            else e) := by
  obtain ⟨d, toFolded, victim, db₁, -, -, htofold, hfound, -, hvictim, hfree, hdb'⟩ :=
    renameInWithPolicy_eq h
  refine ⟨d, toFolded, db₁, htofold, hfound, ?_, hfree, by rw [hdb']; rfl⟩
  rcases hvictim with ⟨-, rfl⟩ | ⟨e, -, he, hne, -, hdb₁⟩
  · exact .inl rfl
  · refine .inr ⟨e, he.entry, he.parent, hne, ?_, ?_, ?_, he.empty⟩
    · rw [hdb₁]
      rfl
    · rw [hdb₁]
      rfl
    · rw [hdb₁]
      rfl

theorem releaseInodeExtents_ok {file : BitVec 128} {dead : List (PayloadId × Int)}
    (h : releaseInodeExtents v x file nowNs db = .ok (dead, db')) :
    namespaceTables db' = namespaceTables db ∨
    ((∃ i ∈ db.inodes, i.volumeId = v ∧ i.inode = x ∧ i.unlinkPending = true) ∧
      namespaceTables db' = (db.namespaceVolumes, unlinkedRows v x false db.inodes, db.dirents))
    := by
  unfold releaseInodeExtents at h
  replace h := get_bind_ok.mp h
  obtain ⟨_, db₁, hif, h⟩ := bind_ok.mp h
  replace h := get_bind_ok.mp h
  replace h := modify_bind_ok.mp h
  obtain ⟨deaths, db₂, hmap, h⟩ := bind_ok.mp h
  cases pure_ok.mp h
  have hkeeps : ∀ payloads : List PayloadId, Keeps (SameOn namespaceTables)
      (payloads.mapM (markPayloadDead (some file) nowNs)) := fun _ =>
    keeps_mapM fun payload => keeps_markPayloadDead (fun _ _ _ => rfl) _ _ payload
  have hmarks := hkeeps _ _ _ _ hmap
  have hrest : namespaceTables db' = namespaceTables db₁ := hmarks
  rcases onlyIf_ok.mp hif with ⟨hpending, hdel⟩ | ⟨-, hr⟩
  · replace hdel := modify_bind_ok.mp hdel
    obtain ⟨i, hi, hcond⟩ := List.any_eq_true.mp hpending
    rw [deleteInode_ok hdel] at hrest
    exact .inr ⟨⟨i, hi, of_decide_eq_true hcond⟩, hrest⟩
  · cases hr
    exact .inl hrest

end Mirage.Analysis
