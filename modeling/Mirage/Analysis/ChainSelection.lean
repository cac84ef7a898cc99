import Mathlib.Data.Fintype.Card
import Mathlib.Data.List.DropRight
import Mathlib.Data.List.NodupEquivFin
import Mirage.Computation.Bisect
import Mirage.Computation.Links
import Mirage.Model.Commit

/-!
# The highest valid chain

The loop goes from a commit to its only valid child.  The sequence rises with each step, so there
are ever fewer candidates behind it and the loop ends.  It ends at a commit without a valid
child, or at one with several entries among its valid children.  A commit that is listed twice
is two entries, so what counts is whether one is listed twice where the loop comes to it.
-/

set_option autoImplicit false

namespace Mirage.Analysis

open Mirage.Computation Mirage.Model Mirage.Model.Commit

/-- INTERNAL: a trust root. -/
def rootCommit : RepositoryCommit where
  body := ⟨1, 5, 0, none, 9, ⟨⟨['l'], by decide⟩, ⟨['m'], by decide⟩, none, 10, 9, .manifest⟩,
    0, 3, 2, none⟩
  signature := ⟨.ed25519, 4, [7]⟩

variable {ext : CommitExternals} {verifier : CommitVerifier}
  {candidates others : List RepositoryCommit} {parent child current root : RepositoryCommit}

/-! ## Links -/

/-- INTERNAL: the candidate passes as a child of this commit. -/
def Links (ext : CommitExternals) (verifier : CommitVerifier) (candidates : List RepositoryCommit)
    (parent child : RepositoryCommit) : Prop :=
  child ∈ candidates ∧ validateLink ext verifier parent child = .ok ()

def linkChildren (ext : CommitExternals) (verifier : CommitVerifier)
    (candidates : List RepositoryCommit) (parent : RepositoryCommit) : List RepositoryCommit :=
  candidates.filter fun child => validateLink ext verifier parent child = .ok ()

theorem mem_linkChildren : child ∈ linkChildren ext verifier candidates parent ↔
    Links ext verifier candidates parent child := by
  unfold linkChildren Links
  rw [List.mem_filter, decide_eq_true_eq]

/-- INTERNAL: the loop goes on to this child. -/
def Only (ext : CommitExternals) (verifier : CommitVerifier) (candidates : List RepositoryCommit)
    (parent child : RepositoryCommit) : Prop :=
  linkChildren ext verifier candidates parent = [child]

theorem Only.links (h : Only ext verifier candidates parent child)
    (other : RepositoryCommit) : Links ext verifier candidates parent other ↔ other = child := by
  rw [← mem_linkChildren, h, List.mem_singleton]

/-- INTERNAL: a walk of the loop is one of only links. -/
theorem leadsTo_links {walk : List RepositoryCommit} {last : RepositoryCommit}
    (h : LeadsTo (Only ext verifier candidates) current walk last) :
    LeadsTo (Links ext verifier candidates) current walk last := by
  induction h with
  | here => exact .here
  | go honly _ _ ih => exact .go ((honly.links _).mpr rfl) (fun other => (honly.links other).mp) ih

/-- INTERNAL: the hash of the bytes of a commit. -/
def hashOf (ext : CommitExternals) (commit : RepositoryCommit) : CommitHash :=
  ext.blake3 (encodeCommitInner ext commit)

theorem commitHash_valid (h : validateCommit ext verifier current = .ok ()) :
    commitHash ext current = .ok (hashOf ext current) := by
  unfold validateCommit at h
  obtain ⟨hbody, h⟩ := check_bind_ok.mp h
  obtain ⟨hshape, -⟩ := check_bind_ok.mp h
  unfold commitHash encodeCommit
  rw [ok_bind hbody, ok_bind hshape]
  rfl

/-- INTERNAL: what a link says of its two commits. -/
theorem validateLink_ok (h : validateLink ext verifier parent child = .ok ()) :
    validateCommit ext verifier child = .ok () ∧
      child.body.sequence.toNat = parent.body.sequence.toNat + 1 ∧
      child.body.parentCommit = some (hashOf ext parent) := by
  unfold validateLink at h
  obtain ⟨hparent, h⟩ := check_bind_ok.mp h
  obtain ⟨hchild, h⟩ := check_bind_ok.mp h
  obtain ⟨-, h⟩ := ensure_bind_ok.mp h
  obtain ⟨expected, hexpected, h⟩ := someOr_bind_ok.mp h
  obtain ⟨rfl, -⟩ := checkedAdd_eq_some hexpected
  obtain ⟨hsequence, h⟩ := ensure_bind_ok.mp h
  rw [ok_bind (commitHash_valid hparent)] at h
  exact ⟨hchild, hsequence, ensure_ok h⟩

/-- INTERNAL: the table of children by parent hash loses no child. -/
theorem validChildren_eq : validChildren ext verifier candidates current (hashOf ext current) =
    linkChildren ext verifier candidates current := by
  unfold validChildren linkChildren
  rw [List.filter_filter]
  refine List.filter_congr fun child _ => ?_
  by_cases hlink : validateLink ext verifier current child = .ok ()
  · have hparent := (validateLink_ok hlink).2.2
    rw [decide_eq_true hlink, decide_eq_true hparent]
    rfl
  · rw [decide_eq_false hlink]
    rfl

/-! ## One step -/

/-- INTERNAL: what is reported of a commit with these valid children. -/
def conflictAt (ext : CommitExternals) (current : RepositoryCommit)
    (children : List RepositoryCommit) : ChainValidationError :=
  .conflict (.repositoryConflict "multiple valid commits descend from one trusted parent")
    ⟨hashOf ext current, (children.map (hashOf ext)).insertionSort fun a b => a.toNat ≤ b.toNat⟩

/-- INTERNAL: the loop stops at a commit without a child, goes on to an only child, and reports
several. -/
theorem extendChain_step (fuel : Nat) (chain : List RepositoryCommit)
    (hvalid : validateCommit ext verifier current = .ok ()) :
    extendChain ext verifier candidates (fuel + 1) chain current =
      match linkChildren ext verifier candidates current with
      | [] => .ok chain
      | [child] => extendChain ext verifier candidates fuel (chain ++ [child]) child
      | children => .error (conflictAt ext current children) := by
  have hhash (child : RepositoryCommit)
      (hchild : child ∈ linkChildren ext verifier candidates current) :
      commitHash ext child = .ok (hashOf ext child) :=
    commitHash_valid (validateLink_ok (mem_linkChildren.mp hchild).2).1
  have hcurrent : (commitHash ext current).mapError ChainValidationError.invalid =
      .ok (hashOf ext current) := by
    rw [commitHash_valid hvalid]
    rfl
  have hchildren : ((linkChildren ext verifier candidates current).mapM
      (commitHash ext)).mapError ChainValidationError.invalid =
      .ok ((linkChildren ext verifier candidates current).map (hashOf ext)) := by
    rw [mapM_ok hhash]
    rfl
  rw [extendChain, ok_bind hcurrent, validChildren_eq]
  generalize linkChildren ext verifier candidates current = children at hchildren ⊢
  match children, hchildren with
  | [], _ => rfl
  | [_], _ => rfl
  | _ :: _ :: _, hchildren => exact ok_bind hchildren _

/-- INTERNAL: the candidates that come later than this commit. -/
def laterThan (candidates : List RepositoryCommit) (current : RepositoryCommit) :
    List RepositoryCommit :=
  candidates.filter fun candidate => current.body.sequence.toNat < candidate.body.sequence.toNat

theorem laterThan_link (h : Links ext verifier candidates current child) :
    (laterThan candidates child).length < (laterThan candidates current).length := by
  obtain ⟨hmem, hlink⟩ := h
  have hsequence := (validateLink_ok hlink).2.1
  have hlater : laterThan candidates child = (laterThan candidates current).filter
      fun candidate => child.body.sequence.toNat < candidate.body.sequence.toNat := by
    unfold laterThan
    rw [List.filter_filter]
    refine List.filter_congr fun candidate _ => ?_
    rw [Bool.eq_iff_iff, Bool.and_eq_true, decide_eq_true_eq, decide_eq_true_eq]
    omega
  rw [hlater]
  refine List.length_filter_lt_length_iff_exists.mpr ⟨child, ?_, ?_⟩
  · exact List.mem_filter.mpr ⟨hmem, decide_eq_true (by omega)⟩
  · rw [decide_eq_true_eq]
    omega

/-! ## Whole runs -/

/-- INTERNAL: the loop follows only children to a commit that has none or several. -/
theorem extendChain_run {fuel : Nat} (chain : List RepositoryCommit)
    (hvalid : validateCommit ext verifier current = .ok ())
    (hfuel : (laterThan candidates current).length < fuel) :
    ∃ walk last, LeadsTo (Only ext verifier candidates) current walk last ∧
      (linkChildren ext verifier candidates last = [] ∧
          extendChain ext verifier candidates fuel chain current = .ok (chain ++ walk) ∨
        2 ≤ (linkChildren ext verifier candidates last).length ∧
          extendChain ext verifier candidates fuel chain current =
            .error (conflictAt ext last (linkChildren ext verifier candidates last))) := by
  induction fuel generalizing chain current with
  | zero => exact (Nat.not_lt_zero _ hfuel).elim
  | succ fuel ih =>
    rw [extendChain_step fuel chain hvalid]
    match hchildren : linkChildren ext verifier candidates current with
    | [] =>
      exact ⟨[], current, .here, Or.inl ⟨hchildren, by rw [List.append_nil]⟩⟩
    | [child] =>
      have honly : Only ext verifier candidates current child := hchildren
      have hlink := (honly.links child).mpr rfl
      have hless := laterThan_link hlink
      obtain ⟨walk, last, hleads, hend⟩ := ih (chain ++ [child])
        (validateLink_ok hlink.2).1 (by omega)
      refine ⟨child :: walk, last, .go honly (fun other hother => ?_) hleads, ?_⟩
      · exact (List.cons.inj (hother.symm.trans honly)).1
      rwa [List.append_assoc] at hend
    | child :: other :: rest =>
      exact ⟨[], current, .here, Or.inr ⟨by rw [hchildren]; simp, by rw [hchildren]⟩⟩

/-- INTERNAL: no commit that the loop comes to has a valid child that is listed twice. -/
def ListedOnce (ext : CommitExternals) (verifier : CommitVerifier) (root : RepositoryCommit)
    (candidates : List RepositoryCommit) : Prop :=
  ∀ walk last, LeadsTo (Only ext verifier candidates) root walk last →
    (linkChildren ext verifier candidates last).Nodup

/-- INTERNAL: the outcome of the selection. -/
theorem selectHighestValidChain_run (ext : CommitExternals) (candidates : List RepositoryCommit)
    (hvalid : validateCommit ext verifier root = .ok ()) :
    ∃ walk last, LeadsTo (Only ext verifier candidates) root walk last ∧
      (linkChildren ext verifier candidates last = [] ∧
          selectHighestValidChain ext verifier candidates root = .ok (root :: walk) ∨
        2 ≤ (linkChildren ext verifier candidates last).length ∧
          selectHighestValidChain ext verifier candidates root =
            .error (conflictAt ext last (linkChildren ext verifier candidates last))) := by
  have hselect : selectHighestValidChain ext verifier candidates root =
      extendChain ext verifier candidates (candidates.length + 1) [root] root := by
    unfold selectHighestValidChain
    rw [hvalid]
    rfl
  rw [hselect]
  exact extendChain_run [root] hvalid (Nat.lt_succ_of_le (List.length_filter_le _ _))

theorem select_invalid {e : MirageError} (h : validateCommit ext verifier root = .error e) :
    selectHighestValidChain ext verifier candidates root = .error (.invalid e) := by
  unfold selectHighestValidChain
  rw [h]
  rfl

/-- INTERNAL: two entries that are not the same commit. -/
theorem differ_of_nodup {children : List RepositoryCommit} (hnodup : children.Nodup)
    (hlength : 2 ≤ children.length) :
    ∃ child ∈ children, ∃ other ∈ children, child ≠ other := by
  match children, hnodup, hlength with
  | child :: other :: rest, hnodup, _ =>
    have hne : child ≠ other := (List.nodup_cons.mp hnodup).1 ∘ fun h => by
      rw [h]; exact List.mem_cons_self
    exact ⟨child, List.mem_cons_self, other, List.mem_cons_of_mem _ List.mem_cons_self, hne⟩

/-- INTERNAL: where the loop ends there is not exactly one link. -/
theorem not_existsUnique_link (honce : ListedOnce ext verifier root candidates)
    {walk : List RepositoryCommit} {last : RepositoryCommit}
    (h : LeadsTo (Only ext verifier candidates) root walk last)
    (hend : linkChildren ext verifier candidates last = [] ∨
      2 ≤ (linkChildren ext verifier candidates last).length) :
    ¬ ∃! child, Links ext verifier candidates last child := by
  rintro ⟨only, hlink, honly⟩
  rcases hend with hnone | hseveral
  · exact List.not_mem_nil (hnone ▸ mem_linkChildren.mpr hlink)
  · obtain ⟨child, hchild, other, hother, hne⟩ := differ_of_nodup (honce walk last h) hseveral
    exact hne ((honly child (mem_linkChildren.mp hchild)).trans
      (honly other (mem_linkChildren.mp hother)).symm)

theorem conflictAt_perm {children children' : List RepositoryCommit}
    (h : children.Perm children') :
    conflictAt ext current children = conflictAt ext current children' := by
  let le : CommitHash → CommitHash → Prop := fun a b => a.toNat ≤ b.toNat
  have : Std.Total le := ⟨fun _ _ => Nat.le_total _ _⟩
  have : IsTrans CommitHash le := ⟨fun _ _ _ => Nat.le_trans⟩
  have hsame : (children.map (hashOf ext)).insertionSort le =
      (children'.map (hashOf ext)).insertionSort le :=
    insertionSort_perm (fun _ _ _ _ hab hba => BitVec.eq_of_toNat_eq (Nat.le_antisymm hab hba))
      (h.map (hashOf ext))
  exact congrArg (fun hashes => ChainValidationError.conflict _ ⟨hashOf ext current, hashes⟩) hsame

theorem links_congr (hsame : ∀ c, c ∈ others ↔ c ∈ candidates) :
    Links ext verifier others = Links ext verifier candidates := by
  funext parent child
  exact propext (and_congr_left' (hsame child))

/-- INTERNAL: lists of the same commits, with no valid child listed twice where the loop comes,
give the same result. -/
theorem selectHighestValidChain_congr (honce : ListedOnce ext verifier root candidates)
    (honce' : ListedOnce ext verifier root others) (hsame : ∀ c, c ∈ others ↔ c ∈ candidates) :
    selectHighestValidChain ext verifier others root =
      selectHighestValidChain ext verifier candidates root := by
  have hlinks : Links ext verifier others = Links ext verifier candidates := links_congr hsame
  cases hvalid : validateCommit ext verifier root with
  | error e => rw [select_invalid hvalid, select_invalid hvalid]
  | ok _ =>
    obtain ⟨walk, last, hleads, hend⟩ :=
      selectHighestValidChain_run ext candidates hvalid
    obtain ⟨walk', last', hleads', hend'⟩ :=
      selectHighestValidChain_run ext others hvalid
    have hsingle := not_existsUnique_link honce hleads (hend.imp And.left And.left)
    have hsingle' := not_existsUnique_link honce' hleads' (hend'.imp And.left And.left)
    have hnodup := honce walk last hleads
    have hnodup' := honce' walk' last' hleads'
    have hwalk' := leadsTo_links hleads'
    rw [hlinks] at hwalk' hsingle'
    obtain ⟨rfl, rfl⟩ := (leadsTo_links hleads).unique hwalk' hsingle hsingle'
    have hperm : (linkChildren ext verifier others last).Perm
        (linkChildren ext verifier candidates last) := by
      refine (List.perm_ext_iff_of_nodup hnodup' hnodup).mpr fun child => ?_
      rw [mem_linkChildren, mem_linkChildren, hlinks]
    have hlength := hperm.length_eq
    rcases hend with ⟨hnone, hresult⟩ | ⟨hseveral, hresult⟩ <;>
      rcases hend' with ⟨hnone', hresult'⟩ | ⟨hseveral', hresult'⟩
    · rw [hresult, hresult']
    · rw [hnone, List.length_nil] at hlength
      omega
    · rw [hnone', List.length_nil] at hlength
      omega
    · rw [hresult, hresult', conflictAt_perm hperm]

/-! ## The converse -/

/-- INTERNAL: a loop that comes to several entries has begun at a valid root. -/
theorem root_valid {walk : List RepositoryCommit} {last : RepositoryCommit}
    (h : LeadsTo (Only ext verifier candidates) root walk last)
    (hchildren : linkChildren ext verifier candidates last ≠ []) :
    validateCommit ext verifier root = .ok () := by
  have hparent (child : RepositoryCommit) (hlink : Links ext verifier candidates root child) :
      validateCommit ext verifier root = .ok () := (check_bind_ok.mp hlink.2).1
  cases h with
  | here =>
    obtain ⟨child, hchild⟩ := List.exists_mem_of_ne_nil _ hchildren
    exact hparent child (mem_linkChildren.mp hchild)
  | go honly _ _ => exact hparent _ ((honly.links _).mpr rfl)

theorem last_mem {walk : List RepositoryCommit} {last : RepositoryCommit}
    (h : LeadsTo (Only ext verifier candidates) root walk last) : last ∈ root :: candidates := by
  rcases (leadsTo_links h).last_linked with rfl | ⟨parent, hlinked⟩
  · exact List.mem_cons_self
  · exact List.mem_cons_of_mem _ hlinked.1

theorem not_existsUnique_only {last : RepositoryCommit}
    (hend : linkChildren ext verifier candidates last = [] ∨
      2 ≤ (linkChildren ext verifier candidates last).length) :
    ¬ ∃! child, Only ext verifier candidates last child := by
  rintro ⟨child, honly, -⟩
  rw [show linkChildren ext verifier candidates last = [child] from honly] at hend
  rcases hend with hnone | hseveral
  · cases hnone
  · exact absurd hseveral (by simp)

/-- INTERNAL: no two commits have one hash. -/
def HashesApart (ext : CommitExternals) (commits : List RepositoryCommit) : Prop :=
  ∀ a ∈ commits, ∀ b ∈ commits, hashOf ext a = hashOf ext b → a = b

/-- INTERNAL: a list with the result of one without repetitions has none where the loop comes. -/
theorem listedOnce_of_same (hnodup : others.Nodup) (hsame : ∀ c, c ∈ others ↔ c ∈ candidates)
    (hapart : HashesApart ext (root :: candidates))
    (heq : selectHighestValidChain ext verifier others root =
      selectHighestValidChain ext verifier candidates root) :
    ListedOnce ext verifier root candidates := by
  intro walk last hleads
  by_contra hrepeated
  -- the loop ends here, as a list with a repetition has two entries
  have hseveral : 2 ≤ (linkChildren ext verifier candidates last).length := by
    match hchildren : linkChildren ext verifier candidates last with
    | [] => exact absurd (hchildren ▸ List.nodup_nil) hrepeated
    | [child] => exact absurd (hchildren ▸ List.nodup_singleton child) hrepeated
    | _ :: _ :: _ => exact Nat.le_add_left _ _
  have hvalid := root_valid hleads (fun hnone => by rw [hnone] at hseveral; cases hseveral)
  obtain ⟨walk₁, last₁, hleads₁, hend₁⟩ := selectHighestValidChain_run ext candidates hvalid
  obtain ⟨-, rfl⟩ := hleads.unique hleads₁ (not_existsUnique_only (.inr hseveral))
    (not_existsUnique_only (hend₁.imp And.left And.left))
  obtain ⟨walk', last', hleads', hend'⟩ := selectHighestValidChain_run ext others hvalid
  rcases hend₁ with ⟨hnone, -⟩ | ⟨-, hresult⟩
  · rw [hnone] at hseveral
    cases hseveral
  rcases hend' with ⟨-, hresult'⟩ | ⟨-, hresult'⟩
  · rw [hresult, hresult'] at heq
    cases heq
  -- both report a conflict, of one commit and of as many children
  rw [hresult, hresult'] at heq
  obtain ⟨-, hmetadata⟩ := ChainValidationError.conflict.inj (Except.error.inj heq)
  obtain ⟨hparent, hhashes⟩ := ChainConflict.mk.inj hmetadata
  have hmem' : last' ∈ root :: candidates := by
    rcases List.mem_cons.mp (last_mem hleads') with rfl | hother
    · exact List.mem_cons_self
    · exact List.mem_cons_of_mem _ ((hsame last').mp hother)
  obtain rfl := hapart last' hmem' last (last_mem hleads) hparent
  have hlength := congrArg List.length hhashes
  rw [List.length_insertionSort, List.length_insertionSort, List.length_map, List.length_map]
    at hlength
  have hnodup' : (linkChildren ext verifier others last').Nodup := hnodup.filter _
  have hsubset : linkChildren ext verifier others last' ⊆
      linkChildren ext verifier candidates last' := by
    intro child hchild
    rw [mem_linkChildren, ← links_congr hsame, ← mem_linkChildren]
    exact hchild
  have hperm := (List.subperm_of_subset hnodup' hsubset).perm_of_length_le hlength.ge
  exact hrepeated (hperm.nodup_iff.mp hnodup')

/-- INTERNAL: the selection ends for every list of candidates; a chain that it returns goes from
the root over links to a commit that no candidate extends, and every chain of links from the root
is a part of it.  When no commit that the loop comes to has a valid child listed twice, a conflict
is two different valid children of a commit on a chain from the root, and the result depends on
the set of the candidates only.  Exactly then the result is that of the candidates listed once.
SRCLINE: mirage-manifest/src/chain.rs:54-130 -/
theorem chain_selection (ext : CommitExternals) (verifier : CommitVerifier)
    (root : RepositoryCommit) (candidates : List RepositoryCommit) :
    (∀ e, selectHighestValidChain ext verifier candidates root = .error (.invalid e) ↔
      validateCommit ext verifier root = .error e) ∧
    (∀ chain, selectHighestValidChain ext verifier candidates root = .ok chain →
      ∃ walk, chain = root :: walk ∧ chain.IsChain (Links ext verifier candidates) ∧
        (∀ last, chain.getLast? = some last → ∀ c, ¬ Links ext verifier candidates last c) ∧
        ∀ other, (root :: other).IsChain (Links ext verifier candidates) → other <+: walk) ∧
    (ListedOnce ext verifier root candidates →
      (∀ error metadata, selectHighestValidChain ext verifier candidates root =
          .error (.conflict error metadata) →
        ∃ walk parent child other, (root :: walk).IsChain (Links ext verifier candidates) ∧
          (root :: walk).getLast? = some parent ∧ child ≠ other ∧
          Links ext verifier candidates parent child ∧
          Links ext verifier candidates parent other) ∧
      ∀ others, ListedOnce ext verifier root others → (∀ c, c ∈ others ↔ c ∈ candidates) →
        selectHighestValidChain ext verifier others root =
          selectHighestValidChain ext verifier candidates root) ∧
    ∀ others, others.Nodup → (∀ c, c ∈ others ↔ c ∈ candidates) →
      HashesApart ext (root :: candidates) →
        (selectHighestValidChain ext verifier others root =
          selectHighestValidChain ext verifier candidates root ↔
            ListedOnce ext verifier root candidates) := by
  have hsets (others : List RepositoryCommit) (hnodup : others.Nodup)
      (hsame : ∀ c, c ∈ others ↔ c ∈ candidates)
      (hapart : HashesApart ext (root :: candidates)) :
      selectHighestValidChain ext verifier others root =
        selectHighestValidChain ext verifier candidates root ↔
          ListedOnce ext verifier root candidates :=
    ⟨listedOnce_of_same hnodup hsame hapart, fun honce =>
      selectHighestValidChain_congr honce (fun _ _ _ => hnodup.filter _) hsame⟩
  cases hvalid : validateCommit ext verifier root with
  | error found =>
    refine ⟨fun e => ?_, fun chain h => ?_, fun honce => ⟨fun error metadata h => ?_,
      fun others honce' hsame => selectHighestValidChain_congr honce honce' hsame⟩, hsets⟩
    · rw [select_invalid hvalid]
      exact ⟨fun h => by injection h with h; injection h with h; rw [h],
        fun h => by injection h with h; rw [h]⟩
    · rw [select_invalid hvalid] at h
      cases h
    · rw [select_invalid hvalid] at h
      cases h
  | ok _ =>
    obtain ⟨walk, last, hleads, hend⟩ :=
      selectHighestValidChain_run ext candidates hvalid
    have hwalk := leadsTo_links hleads
    refine ⟨fun e => ⟨fun h => ?_, nofun⟩, fun chain h => ?_, fun honce =>
      ⟨fun error metadata h => ?_,
        fun others honce' hsame => selectHighestValidChain_congr honce honce' hsame⟩, hsets⟩
    · rcases hend with ⟨-, hresult⟩ | ⟨-, hresult⟩
      · rw [hresult] at h
        cases h
      · rw [hresult] at h
        cases h
    · rcases hend with ⟨hnone, hresult⟩ | ⟨-, hresult⟩
      · obtain rfl := Except.ok.inj (hresult.symm.trans h)
        have hlast (c : RepositoryCommit) : ¬ Links ext verifier candidates last c := by
          rw [← mem_linkChildren, hnone]
          exact List.not_mem_nil
        refine ⟨walk, rfl, hwalk.isChain, fun found hfound => ?_, fun other =>
          hwalk.contains hlast⟩
        obtain rfl := Option.some.inj (hwalk.getLast?.symm.trans hfound)
        exact hlast
      · rw [hresult] at h
        cases h
    · rcases hend with ⟨-, hresult⟩ | ⟨hseveral, -⟩
      · rw [hresult] at h
        cases h
      · obtain ⟨child, hchild, other, hother, hne⟩ :=
          differ_of_nodup (honce walk last hleads) hseveral
        exact ⟨walk, last, child, other, hwalk.isChain, hwalk.getLast?, hne,
          mem_linkChildren.mp hchild, mem_linkChildren.mp hother⟩

/-- INTERNAL: a digest that depends on every byte, and items without their lengths. -/
def plainItems : CommitExternals where
  blake3 := fun bytes => bytes.foldl (fun digest b => 31 * digest + b.toNat) 0
  toUppercase := fun c => [c]
  unsigned := fun _ value => [UInt8.ofNat value]
  bytes := id
  str := utf8Bytes
  i128 := fun value => [UInt8.ofNat value.toNat]
  null := []
  map := fun _ => []

def acceptAll : CommitVerifier := fun _ _ => .ok ()

/-- INTERNAL: a child of the root by this writer. -/
def childCommit (writer : BitVec 128) : RepositoryCommit where
  body := { rootCommit.body with
    sequence := 1
    parentCommit := some (hashOf plainItems rootCommit)
    writerDeviceId := writer }
  signature := rootCommit.signature

/-- INTERNAL: a valid child that is listed twice is a conflict with itself. -/
theorem repeated_child_conflicts :
    selectHighestValidChain plainItems acceptAll [childCommit 1] rootCommit =
        .ok [rootCommit, childCommit 1] ∧
      selectHighestValidChain plainItems acceptAll [childCommit 1, childCommit 1] rootCommit =
        .error (conflictAt plainItems rootCommit [childCommit 1, childCommit 1]) := by
  decide +kernel

/-- INTERNAL: the loop goes to one child and ends there. -/
theorem listedOnce_of_leaf (honly : Only ext verifier candidates root child)
    (hleaf : linkChildren ext verifier candidates child = []) :
    ListedOnce ext verifier root candidates := by
  intro walk last hleads
  cases hleads with
  | here =>
    rw [show linkChildren ext verifier candidates root = [child] from honly]
    exact List.nodup_singleton child
  | go honly' _ hrest =>
    obtain rfl := (List.cons.inj (honly.symm.trans honly')).1
    cases hrest with
    | here =>
      rw [hleaf]
      exact List.nodup_nil
    | go hmore _ _ => exact absurd (hleaf.symm.trans hmore) (List.cons_ne_nil _ _).symm

/-- INTERNAL: a commit at this sequence above another. -/
def strayAbove (sequence : UInt64) (parent : CommitHash) : RepositoryCommit where
  body := { rootCommit.body with sequence := sequence, parentCommit := some parent }
  signature := rootCommit.signature

/-- INTERNAL: a repeated child of a commit that the loop does not come to changes nothing. -/
theorem repeated_stray_passed_over :
    let stray := strayAbove 5 77
    let above := strayAbove 6 (hashOf plainItems stray)
    linkChildren plainItems acceptAll [stray, above, above, childCommit 1] stray = [above, above] ∧
      selectHighestValidChain plainItems acceptAll [stray, above, above, childCommit 1] rootCommit =
        .ok [rootCommit, childCommit 1] := by
  have hmem (a b d c : RepositoryCommit) : c ∈ [d, b, a] ↔ c ∈ [a, b, b, d] := by
    simp only [List.mem_cons, List.not_mem_nil, or_false]
    tauto
  intro stray above
  have honce : ListedOnce plainItems acceptAll rootCommit [stray, above, above, childCommit 1] :=
    listedOnce_of_leaf (by unfold Only; decide +kernel : Only _ _ _ _ (childCommit 1))
      (by decide +kernel)
  have hnodup : [childCommit 1, above, stray].Nodup := by decide +kernel
  refine ⟨by decide +kernel, ?_⟩
  have hsame := ((chain_selection plainItems acceptAll rootCommit
    [stray, above, above, childCommit 1]).2.2.1 honce).2 [childCommit 1, above, stray]
      (fun _ _ _ => hnodup.filter _) (hmem stray above (childCommit 1))
  rw [← hsame]
  decide +kernel

end Mirage.Analysis
