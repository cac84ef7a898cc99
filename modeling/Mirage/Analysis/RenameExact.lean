import Mirage.Analysis.NamespaceInvariant

/-!
# A rename changes what it says and nothing else

`RenamedExactly` has one field for each table a rename writes.  The entry that moves and the
entry it lands on are found by their keys, which are unique in a tree, so every other entry and
row is as it was.
-/

set_option autoImplicit false

namespace Mirage.Analysis

open Mirage.Computation Mirage.Model Mirage.Interface

variable {ext : Externals} {db db' : Db} {v : RepositoryId} {t : NameTree InodeId NameText}

/-! ## What a rename is -/

/-- INTERNAL: the tables a rename does not write. -/
def otherTables (db : Db) : Db :=
  { db with
    inodes := []
    dirents := []
    legacyInodeMap := []
    namespacePins := []
    namespaceDeltas := [] }

/-- INTERNAL: the inode is the one of the entry that was replaced. -/
def IsVictim (victim : Option Dirent) (v w : RepositoryId) (x : InodeId) : Prop :=
  ∃ e, victim = some e ∧ w = v ∧ x = e.childInode

/-- INTERNAL: what may be replaced: the other entry under the target, with nothing in it. -/
structure MayReplace (db : Db) (v : RepositoryId) (d e : Dirent) (toParent : InodeId)
    (toFolded : NameText) : Prop where
  entry : e ∈ Db.volumeDirents db v
  parent : e.parentInode = toParent
  name : e.foldedName = toFolded
  other : e.childInode ≠ d.childInode
  empty : ∀ f ∈ Db.volumeDirents db v, f.parentInode ≠ e.childInode

/-- INTERNAL: `d` has moved, `victim` is gone and everything else is as it was. -/
structure RenamedExactly (db db' : Db) (v : RepositoryId) (d : Dirent) (victim : Option Dirent)
    (toParent : InodeId) (toFolded toName : NameText) (nowNs : Int) (retain : Bool) : Prop where
  entries : ∀ e, e ∈ db'.dirents ↔
    e = movedEntry d toParent toFolded toName ∨ e ∈ db.dirents ∧ e ≠ d ∧ victim ≠ some e
  found : ∃ i, db.inodeRow v d.childInode = some i ∧
    db'.inodeRow v d.childInode = some { i with modifiedNs := nowNs } ∧
    db'.entry v toParent toFolded =
      some ⟨d.childInode, toName, toFolded, i.kind, i.size, i.createdNs, nowNs⟩
  left : ¬ (d.parentInode = toParent ∧ d.foldedName = toFolded) →
    db'.entry v d.parentInode d.foldedName = none
  subtree : ∀ x, Relation.ReflTransGen (ParentLink db v) x d.childInode ↔
    Relation.ReflTransGen (ParentLink db' v) x d.childInode
  victimRow : ∀ e, victim = some e → db'.inodeRow v e.childInode =
    if retain then (db.inodeRow v e.childInode).map fun i => { i with unlinkPending := true }
    else none
  rows : ∀ w x, ¬ (w = v ∧ x = d.childInode) → ¬ IsVictim victim v w x →
    db'.inodeRow w x = db.inodeRow w x
  legacy : ∀ l, l ∈ db'.legacyInodeMap ↔
    l ∈ db.legacyInodeMap ∧ ¬ IsVictim victim v l.volumeId l.inode
  pins : ∀ p, p ∈ db'.namespacePins ↔
    p ∈ db.namespacePins ∧ ¬ IsVictim victim v p.volumeId p.inode
  others : otherTables db' = otherTables db

/-! ## Rows -/

theorem inodeRow_updated {rows : List InodeRow} {y : InodeId} (f : InodeRow → InodeRow)
    (hf : ∀ i, (f i).volumeId = i.volumeId ∧ (f i).inode = i.inode) (w : RepositoryId)
    (x : InodeId) :
    ((rows.map fun i => if i.volumeId = v ∧ i.inode = y then f i else i).find? fun i =>
        i.volumeId = w ∧ i.inode = x) =
      (rows.find? fun i => i.volumeId = w ∧ i.inode = x).map fun i =>
        if w = v ∧ x = y then f i else i := by
  induction rows with
  | nil => rfl
  | cons i rows ih =>
    have hkeys : (if i.volumeId = v ∧ i.inode = y then f i else i).volumeId = i.volumeId ∧
        (if i.volumeId = v ∧ i.inode = y then f i else i).inode = i.inode := by
      split
      · exact hf i
      · exact ⟨rfl, rfl⟩
    rw [List.map_cons, List.find?_cons, List.find?_cons, hkeys.1, hkeys.2]
    by_cases hi : i.volumeId = w ∧ i.inode = x
    · simp only [hi, decide_true, and_self, Option.map_some]
    · simp only [hi, decide_false]
      exact ih

theorem inodeRow_dropped {rows : List InodeRow} {y : InodeId} (w : RepositoryId) (x : InodeId) :
    ((rows.filter fun i => ¬ (i.volumeId = v ∧ i.inode = y)).find? fun i =>
        i.volumeId = w ∧ i.inode = x) =
      if w = v ∧ x = y then none else rows.find? fun i => i.volumeId = w ∧ i.inode = x := by
  split
  · rename_i hwx
    rw [List.find?_eq_none]
    intro i hi hkey
    have hnot := of_decide_eq_true (List.mem_filter.mp hi).2
    have heq := of_decide_eq_true hkey
    exact hnot ⟨heq.1.trans hwx.1, heq.2.trans hwx.2⟩
  · rename_i hwx
    rw [List.find?_filter]
    congr 1
    funext i
    by_cases hi : i.volumeId = w ∧ i.inode = x
    · have hno : ¬ (i.volumeId = v ∧ i.inode = y) := by
        rw [hi.1, hi.2]
        exact hwx
      simp only [decide_eq_true hno, true_and, Bool.decide_eq_true]
    · simp [hi]

/-- INTERNAL: the row of any inode once an entry and its inode are taken out. -/
theorem inodeRow_unlinked (e : Dirent) (retain : Bool) (w : RepositoryId) (x : InodeId) :
    (unlinkedDb db v e retain).inodeRow w x =
      if w = v ∧ x = e.childInode then
        if retain then (db.inodeRow w x).map fun i => { i with unlinkPending := true } else none
      else db.inodeRow w x := by
  change (unlinkedRows v e.childInode retain db.inodes).find? _ = _
  cases retain with
  | true =>
    refine (inodeRow_updated (fun i => { i with unlinkPending := true }) (fun _ => ⟨rfl, rfl⟩) w
      x).trans ?_
    change (db.inodeRow w x).map _ = _
    split
    · rfl
    · exact Option.map_id'
  | false => exact inodeRow_dropped w x

/-- INTERNAL: the row of any inode once an entry has moved. -/
theorem inodeRow_moved (d : Dirent) (toParent : InodeId) (toFolded toName : NameText)
    (nowNs : Int) (w : RepositoryId) (x : InodeId) :
    (movedDb db v d toParent toFolded toName nowNs).inodeRow w x =
      (db.inodeRow w x).map fun i =>
        if w = v ∧ x = d.childInode then { i with modifiedNs := nowNs } else i :=
  inodeRow_updated (fun i => { i with modifiedNs := nowNs }) (fun _ => ⟨rfl, rfl⟩) w x

/-! ## The entry that is replaced -/

/-- INTERNAL: the tables once the entry a rename lands on is out. -/
structure VictimOut (db db₁ : Db) (v : RepositoryId) (victim : Option Dirent) (retain : Bool) :
    Prop where
  entries : ∀ e, e ∈ db₁.dirents ↔ e ∈ db.dirents ∧ victim ≠ some e
  victimRow : ∀ e, victim = some e → db₁.inodeRow v e.childInode =
    if retain then (db.inodeRow v e.childInode).map fun i => { i with unlinkPending := true }
    else none
  rows : ∀ w x, ¬ IsVictim victim v w x → db₁.inodeRow w x = db.inodeRow w x
  legacy : ∀ l, l ∈ db₁.legacyInodeMap ↔
    l ∈ db.legacyInodeMap ∧ ¬ IsVictim victim v l.volumeId l.inode
  pins : ∀ p, p ∈ db₁.namespacePins ↔
    p ∈ db.namespacePins ∧ ¬ IsVictim victim v p.volumeId p.inode
  others : otherTables db₁ = otherTables db

theorem not_isVictim_none {w : RepositoryId} {x : InodeId} : ¬ IsVictim none v w x := by
  rintro ⟨e, he, -⟩
  cases he

theorem isVictim_some {e : Dirent} {w : RepositoryId} {x : InodeId} :
    IsVictim (some e) v w x ↔ w = v ∧ x = e.childInode := by
  constructor
  · rintro ⟨e', he, hkey⟩
    cases he
    exact hkey
  · intro hkey
    exact ⟨e, rfl, hkey⟩

theorem victimOut_none (retain : Bool) : VictimOut db db v none retain where
  entries := fun _ => ⟨fun he => ⟨he, nofun⟩, And.left⟩
  victimRow := nofun
  rows := fun _ _ _ => rfl
  legacy := fun _ => ⟨fun hl => ⟨hl, not_isVictim_none⟩, And.left⟩
  pins := fun _ => ⟨fun hp => ⟨hp, not_isVictim_none⟩, And.left⟩
  others := rfl

/-- INTERNAL: in a tree a key names one entry. -/
theorem hasKey_iff_eq (h : Represents db v t) {d e : Dirent} (hd : d ∈ Db.volumeDirents db v)
    (he : e ∈ db.dirents) : e.hasKey v d.parentInode d.foldedName ↔ e = d := by
  constructor
  · rintro ⟨hv, hparent, hname⟩
    exact h.rows.eq_of_key (List.mem_filter.mpr ⟨he, decide_eq_true hv⟩) hd hparent hname
  · rintro rfl
    exact (hasKey_iff hd).mpr ⟨rfl, rfl⟩

theorem victimOut_some (h : Represents db v t) {e : Dirent} {retain : Bool} {deltas : List DeltaRow}
    (he : e ∈ Db.volumeDirents db v) :
    VictimOut db { unlinkedDb db v e retain with namespaceDeltas := deltas } v (some e)
      retain where
  entries := by
    intro f
    refine List.mem_filter.trans (and_congr_right fun hf => ?_)
    rw [decide_eq_true_iff, hasKey_iff_eq h he hf, ne_eq, Option.some.injEq, eq_comm]
  victimRow := by
    rintro f hf
    cases hf
    exact (inodeRow_unlinked e retain v e.childInode).trans (if_pos ⟨rfl, rfl⟩)
  rows := by
    intro w x hnot
    rw [isVictim_some] at hnot
    exact (inodeRow_unlinked e retain w x).trans (if_neg hnot)
  legacy := by
    intro l
    rw [isVictim_some]
    exact List.mem_filter.trans (and_congr_right fun _ => decide_eq_true_iff)
  pins := by
    intro p
    rw [isVictim_some]
    exact List.mem_filter.trans (and_congr_right fun _ => decide_eq_true_iff)
  others := rfl

/-! ## The entry that moves -/

section Moved

variable {db₁ : Db} {d : Dirent} {victim : Option Dirent} {toParent : InodeId}
  {toFolded toName : NameText} {nowNs : Int} {retain : Bool} {deltas : List DeltaRow}

/-- INTERNAL: what is known of the rename up to the entry that is replaced. -/
structure RenameSetting (db db₁ : Db) (v : RepositoryId) (t : NameTree InodeId NameText)
    (d : Dirent) (victim : Option Dirent) (toParent : InodeId) (toFolded : NameText)
    (retain : Bool) : Prop where
  tree : Represents db v t
  found : RenameFound db v d toParent
  out : VictimOut db db₁ v victim retain
  victim : ∀ e, victim = some e → MayReplace db v d e toParent toFolded
  free : ∀ e ∈ db₁.dirents, e.hasKey v d.parentInode d.foldedName ∨
    ¬ e.hasKey v toParent toFolded

/-- INTERNAL: the database a rename leaves. -/
def renamedDb (db₁ : Db) (v : RepositoryId) (d : Dirent) (toParent : InodeId)
    (toFolded toName : NameText) (nowNs : Int) (deltas : List DeltaRow) : Db :=
  { movedDb db₁ v d toParent toFolded toName nowNs with namespaceDeltas := deltas }

theorem mem_dirents_renamed (s : RenameSetting db db₁ v t d victim toParent toFolded retain)
    (e : Dirent) :
    e ∈ (renamedDb db₁ v d toParent toFolded toName nowNs deltas).dirents ↔
      e = movedEntry d toParent toFolded toName ∨ e ∈ db.dirents ∧ e ≠ d ∧ victim ≠ some e := by
  have hd : d ∈ db.dirents := (List.mem_filter.mp s.found.entry_mem).1
  have hd₁ : d ∈ db₁.dirents := by
    refine (s.out.entries d).2 ⟨hd, fun hvictim => ?_⟩
    exact (s.victim d hvictim).other rfl
  have hkey : ∀ f ∈ db₁.dirents, f.hasKey v d.parentInode d.foldedName ↔ f = d := fun f hf =>
    hasKey_iff_eq s.tree s.found.entry_mem ((s.out.entries f).1 hf).1
  refine List.mem_map.trans ⟨?_, ?_⟩
  · rintro ⟨f, hf, rfl⟩
    by_cases hfd : f = d
    · rw [if_pos ((hkey f hf).2 hfd), hfd]
      exact .inl rfl
    · rw [if_neg (fun hk => hfd ((hkey f hf).1 hk))]
      obtain ⟨hmem, hvictim⟩ := (s.out.entries f).1 hf
      exact .inr ⟨hmem, hfd, hvictim⟩
  · rintro (rfl | ⟨he, hne, hvictim⟩)
    · exact ⟨d, hd₁, if_pos ((hkey d hd₁).2 rfl)⟩
    · have he₁ : e ∈ db₁.dirents := (s.out.entries e).2 ⟨he, hvictim⟩
      exact ⟨e, he₁, if_neg fun hk => hne ((hkey e he₁).1 hk)⟩

/-- INTERNAL: the moved inode is not the replaced one. -/
theorem not_isVictim_moved (s : RenameSetting db db₁ v t d victim toParent toFolded retain) :
    ¬ IsVictim victim v v d.childInode := by
  rintro ⟨e, he, -, hchild⟩
  exact (s.victim e he).other hchild.symm

theorem row_renamed (s : RenameSetting db db₁ v t d victim toParent toFolded retain)
    {i : InodeRow} (hi : db.inodeRow v d.childInode = some i) :
    (renamedDb db₁ v d toParent toFolded toName nowNs deltas).inodeRow v d.childInode =
      some { i with modifiedNs := nowNs } := by
  refine (inodeRow_moved d toParent toFolded toName nowNs v d.childInode).trans ?_
  rw [s.out.rows v d.childInode (not_isVictim_moved s), hi, Option.map_some,
    if_pos ⟨rfl, rfl⟩]

/-- INTERNAL: any other inode has the row it has once the replaced entry is out. -/
theorem rows_renamed {w : RepositoryId} {x : InodeId} (hne : ¬ (w = v ∧ x = d.childInode)) :
    (renamedDb db₁ v d toParent toFolded toName nowNs deltas).inodeRow w x =
      db₁.inodeRow w x := by
  refine (inodeRow_moved d toParent toFolded toName nowNs w x).trans ?_
  simp only [if_neg hne]
  exact Option.map_id'

theorem entry_renamed (s : RenameSetting db db₁ v t d victim toParent toFolded retain)
    {i : InodeRow} (hi : db.inodeRow v d.childInode = some i) :
    (renamedDb db₁ v d toParent toFolded toName nowNs deltas).entry v toParent toFolded =
      some ⟨d.childInode, toName, toFolded, i.kind, i.size, i.createdNs, nowNs⟩ := by
  have hv : d.volumeId = v := of_decide_eq_true (List.mem_filter.mp s.found.entry_mem).2
  have hmoved : movedEntry d toParent toFolded toName ∈
      (renamedDb db₁ v d toParent toFolded toName nowNs deltas).dirents :=
    (mem_dirents_renamed s _).2 (.inl rfl)
  refine entry_of_unique hmoved hv (row_renamed s hi) fun e he hkey => ?_
  rcases (mem_dirents_renamed s e).1 he with heq | ⟨hmem, hne, hvictim⟩
  · exact heq
  · rcases s.free e ((s.out.entries e).2 ⟨hmem, hvictim⟩) with hfrom | hno
    · exact absurd ((hasKey_iff_eq s.tree s.found.entry_mem hmem).1 hfrom) hne
    · exact absurd hkey hno

theorem left_renamed (s : RenameSetting db db₁ v t d victim toParent toFolded retain)
    (hother : ¬ (d.parentInode = toParent ∧ d.foldedName = toFolded)) :
    (renamedDb db₁ v d toParent toFolded toName nowNs deltas).entry v d.parentInode
      d.foldedName = none := by
  rw [Option.eq_none_iff_forall_ne_some]
  intro entry hentry
  obtain ⟨e, he, -, hparent, hname, -⟩ := entry_eq_some hentry
  obtain ⟨hmem, hv⟩ := List.mem_filter.mp he
  rcases (mem_dirents_renamed s e).1 hmem with rfl | ⟨hold, hne, -⟩
  · exact hother ⟨hparent.symm, hname.symm⟩
  · exact hne ((hasKey_iff_eq s.tree s.found.entry_mem hold).1
      ⟨of_decide_eq_true hv, hparent, hname⟩)

/-- INTERNAL: the links of a described volume are those of its tree. -/
theorem parentLink_iff (h : Represents db v t) {x p : InodeId} :
    ParentLink db v x p ↔ Up t.place x p := by
  constructor
  · rintro ⟨e, he, hv, rfl, rfl⟩
    exact ⟨e.foldedName, h.rows.place_of_mem (List.mem_filter.mpr ⟨he, decide_eq_true hv⟩)⟩
  · rintro ⟨n, hn⟩
    obtain ⟨e, he, hchild, hparent, -⟩ := (h.rows.place_iff x p n).mp hn
    obtain ⟨hmem, hv⟩ := List.mem_filter.mp he
    exact ⟨e, hmem, of_decide_eq_true hv, hchild, hparent⟩

/-- INTERNAL: the nodes below the one that moves are the same: a way up to it uses neither its
own entry nor the replaced one. -/
theorem subtree_renamed (s : RenameSetting db db₁ v t d victim toParent toFolded retain)
    (x : InodeId) :
    Relation.ReflTransGen (ParentLink db v) x d.childInode ↔
      Relation.ReflTransGen
        (ParentLink (renamedDb db₁ v d toParent toFolded toName nowNs deltas) v) x
        d.childInode := by
  constructor
  · intro hup
    induction hup using Relation.ReflTransGen.head_induction_on with
    | refl => exact .refl
    | @head y p hlink hrest ih =>
      by_cases hy : y = d.childInode
      · rw [hy]
      · refine .head ?_ ih
        obtain ⟨e, he, hv, hchild, hparent⟩ := hlink
        refine ⟨e, (mem_dirents_renamed s e).2 (.inr ⟨he, ?_, fun hvictim => ?_⟩), hv, hchild,
          hparent⟩
        · rintro rfl
          exact hy hchild.symm
        · -- the replaced entry is in the destination, which is not below the moved node
          apply not_above_moved s.tree s.found
          rw [← (s.victim e hvictim).parent, hparent]
          exact Relation.ReflTransGen.mono (fun _ _ => (parentLink_iff s.tree).1) _ _ hrest
  · intro hup
    induction hup using Relation.ReflTransGen.head_induction_on with
    | refl => exact .refl
    | @head y p hlink hrest ih =>
      by_cases hy : y = d.childInode
      · rw [hy]
      · refine .head ?_ ih
        obtain ⟨e, he, hv, hchild, hparent⟩ := hlink
        rcases (mem_dirents_renamed s e).1 he with rfl | ⟨hmem, -, -⟩
        · exact absurd hchild.symm hy
        · exact ⟨e, hmem, hv, hchild, hparent⟩

theorem renamedExactly_of_setting
    (s : RenameSetting db db₁ v t d victim toParent toFolded retain) :
    RenamedExactly db (renamedDb db₁ v d toParent toFolded toName nowNs deltas) v d victim
      toParent toFolded toName nowNs retain where
  entries := mem_dirents_renamed s
  found := by
    obtain ⟨i, hi⟩ := s.found.row
    exact ⟨i, hi, row_renamed s hi, entry_renamed s hi⟩
  left := left_renamed s
  subtree := subtree_renamed s
  victimRow := by
    intro e he
    rw [rows_renamed fun hkey => (s.victim e he).other hkey.2]
    exact s.out.victimRow e he
  rows := by
    intro w x hmoved hvictim
    rw [rows_renamed hmoved]
    exact s.out.rows w x hvictim
  legacy := s.out.legacy
  pins := s.out.pins
  others := s.out.others

end Moved

/-! ## The request -/

theorem mayReplace_of_found (h : Represents db v t) {d e : Dirent} {toParent : InodeId}
    {toFolded : NameText} (he : VictimFound db v e toParent toFolded)
    (hne : e.childInode ≠ d.childInode) : MayReplace db v d e toParent toFolded := by
  refine ⟨he.entry, he.parent, he.name, hne, fun f hf => ?_⟩
  exact childless_of_empty h he.entry he.empty _ _ _ (h.rows.place_of_mem hf)

/-- INTERNAL: in a tree a rename that fails is rolled back, a rename that succeeds moves its
entry, takes out at most the empty node it was allowed to replace and leaves everything else,
and a directory does not move into itself or below itself.
SRCLINE: mirage-db/src/namespace.rs:513-718 -/
theorem rename_is_exact (h : Represents db v t) (ext : Externals)
    (fromParent toParent : InodeId) (fromName toName : NameText) (nowNs : Int)
    (replace retain : Bool) (expected : Option (Option InodeId)) :
    (∀ e, renameInWithPolicy ext v fromParent fromName toParent toName nowNs replace retain
        expected db = .error e →
      Txn.commit (renameInWithPolicy ext v fromParent fromName toParent toName nowNs replace
        retain expected) db = db) ∧
      (∀ db', renameInWithPolicy ext v fromParent fromName toParent toName nowNs replace retain
          expected db = .ok ((), db') →
        ∃ d ∈ Db.volumeDirents db v, ∃ toFolded victim,
          d.parentInode = fromParent ∧ foldName ext fromName = .ok d.foldedName ∧
          foldName ext toName = .ok toFolded ∧
          (∀ e, victim = some e →
            replace = true ∧ MayReplace db v d e toParent toFolded) ∧
          (∀ inode, expected = some inode → inode = victim.map Dirent.childInode) ∧
          RenamedExactly db db' v d victim toParent toFolded toName nowNs retain) ∧
      ∀ d ∈ Db.volumeDirents db v, d.parentInode = fromParent →
        foldName ext fromName = .ok d.foldedName →
        Relation.ReflTransGen (ParentLink db v) toParent d.childInode →
        ∃ e, renameInWithPolicy ext v fromParent fromName toParent toName nowNs replace retain
          expected db = .error e := by
  refine ⟨fun e herror => ?_, fun db' hok => ?_, fun d hd hparent hname hbelow => ?_⟩
  · unfold Txn.commit
    rw [herror]
  · obtain ⟨d, toFolded, victim, db₁, hfold, hparent, htofold, hfound, hexpected, hvictim, hfree,
      hdb'⟩ := renameInWithPolicy_eq hok
    have hsetting : (∀ e, victim = some e →
        replace = true ∧ MayReplace db v d e toParent toFolded) ∧
        VictimOut db db₁ v victim retain := by
      rcases hvictim with ⟨rfl, rfl⟩ | ⟨e, rfl, he, hne, hreplace, hdb₁⟩
      · exact ⟨nofun, victimOut_none retain⟩
      · refine ⟨fun f hf => ?_, ?_⟩
        · cases hf
          exact ⟨hreplace, mayReplace_of_found h he hne⟩
        · rw [hdb₁]
          exact victimOut_some h he.entry
    refine ⟨d, hfound.entry_mem, toFolded, victim, hparent, hfold, htofold, hsetting.1, ?_, ?_⟩
    · intro inode hinode
      rw [hinode, Option.all_some] at hexpected
      exact of_decide_eq_true hexpected
    · rw [hdb']
      exact renamedExactly_of_setting
        ⟨h, hfound, hsetting.2, fun e he => (hsetting.1 e he).2, hfree⟩
  · cases hresult : renameInWithPolicy ext v fromParent fromName toParent toName nowNs replace
      retain expected db with
    | error e => exact ⟨e, rfl⟩
    | ok result =>
      obtain ⟨d', -, -, -, hfold', hparent', -, hfound, -⟩ := renameInWithPolicy_eq hresult
      rw [hname] at hfold'
      have hsame : d' = d := h.rows.eq_of_key hfound.entry_mem hd (hparent'.trans hparent.symm)
        (Except.ok.inj hfold').symm
      subst hsame
      exact absurd (Relation.ReflTransGen.mono (fun _ _ => (parentLink_iff h).1) _ _ hbelow)
        (not_above_moved h hfound)

/-- INTERNAL: the file `b` of the root is moved to `c` in the directory `a`, and nothing is
replaced. -/
theorem moved_file_is_exact :
    ∃ d ∈ Db.volumeDirents (movedFileDb 3) 1, ∃ victim,
      (∀ e, victim = some e → (false = true ∧
        MayReplace (movedFileDb 3) 1 d e firstNode ['C'])) ∧
      RenamedExactly (movedFileDb 3) (movedFileDb 4) 1 d victim firstNode ['C'] ['c'] 8
        false := by
  have hrename : renameInWithPolicy shortDigest 1 (rootInode 1) ['b'] firstNode ['c'] 8 false
      false none (movedFileDb 3) = .ok ((), movedFileDb 4) := by decide +kernel
  have hvolume : Db.hasVolume (movedFileDb 3) 1 := by
    unfold Db.hasVolume
    decide +kernel
  rcases volumeInv_of_run movedFileDb_run 1 with ⟨-, t, ht⟩ | ⟨hno, -⟩
  · obtain ⟨-, hexact, -⟩ := rename_is_exact ht shortDigest (rootInode 1) firstNode ['b'] ['c'] 8
      false false none
    obtain ⟨d, hd, toFolded, victim, -, -, hfold, hvictim, -, hrenamed⟩ := hexact _ hrename
    obtain rfl : ['C'] = toFolded := Except.ok.inj hfold
    exact ⟨d, hd, victim, hvictim, hrenamed⟩
  · exact absurd hvolume hno

end Mirage.Analysis
