import Mirage.Analysis.ChainSelection
import Mirage.Model.Recovery

/-!
# Recovery does not go back in time

Where every stored commit is read, no two references share an object id and no commit is stored
twice, the commits that recovery works with are the stored ones, each once.  The head of the
chain then has no stored child, and a single chain is followed to its end.
-/

set_option autoImplicit false

namespace Mirage.Analysis

open Mirage.Computation Mirage.Model Mirage.Model.Commit Mirage.Model.RecoveryCall

section Recovery

variable {Manifest : Type} (call : RecoveryCall Manifest)
  (contents : RemoteObjectRef → Option (List UInt8)) (objects : List RemoteObjectRef)

/-- INTERNAL: one of the objects holds this valid commit of the repository. -/
def Stored (commit : RepositoryCommit) : Prop :=
  ∃ object ∈ objects, call.commitOf object (contents object) = some commit

/-- INTERNAL: what makes recovery see the stored commits as they are. -/
structure Orderly : Prop where
  /-- INTERNAL: a read returns what is stored or fails. -/
  returned : ∀ object ∈ objects, ∀ bytes, readComplete call.backend object (64 * 1024) = .ok bytes →
    contents object = some bytes
  /-- INTERNAL: the read of a stored commit does not fail. -/
  readable : ∀ object ∈ objects, call.commitOf object (contents object) ≠ none →
    (readComplete call.backend object (64 * 1024)).toOption ≠ none
  /-- INTERNAL: a hint with the id of a listed object is the reference that is listed. -/
  references : ∀ a ∈ objects, ∀ b ∈ objects,
    a.providerObjectId.val = b.providerObjectId.val → a = b
  /-- INTERNAL: no commit is stored under two ids. -/
  copies : ∀ a ∈ objects, ∀ b ∈ objects, ∀ commit ∈ call.commitOf a (contents a),
    commit ∈ call.commitOf b (contents b) → a = b
  /-- INTERNAL: a commit counts one more than the stored parent it names. -/
  sequences : ∀ parent child, Stored call contents objects parent →
    Stored call contents objects child → child.body.parentCommit = some (hashOf call.ext parent) →
      child.body.sequence.toNat = parent.body.sequence.toNat + 1

/-- INTERNAL: the commits are one chain from a root. -/
structure Linear (stored : RepositoryCommit → Prop) (chain : List RepositoryCommit) : Prop where
  members : ∀ commit, commit ∈ chain ↔ stored commit
  root : ∀ commit ∈ chain.head?, commit.body.parentCommit = none
  links : chain.IsChain fun parent child => child.body.parentCommit = some (hashOf call.ext parent)

/-- INTERNAL: the manifest and the packs that a commit signs are at the backend. -/
structure ManifestHeld (head : RepositoryCommit) (manifest : Manifest) : Prop where
  read : ∃ bytes, readComplete call.backend head.body.manifestObject (256 * 1024 * 1024) =
    .ok bytes ∧ call.codecs.decodeManifest bytes = .ok manifest
  repository : call.codecs.repositoryId manifest = call.repositoryId
  hash : call.codecs.manifestHash manifest = .ok head.body.manifestHash
  packs : ∀ pack ∈ call.packsOf manifest, call.verifyPack pack = .ok ()
  packSet : packSetHash call.ext.toExternals
    ((call.packsOf manifest).map RemoteObjectRef.contentHash) = head.body.referencedPackSetHash

variable {call contents objects} {verifier : CommitVerifier} {listed : List RemoteObjectRef}
  {parent child head last root : RepositoryCommit} {valid chain : List RepositoryCommit}

/-! ## The commits that are seen -/

theorem references_eq_dedup (h : ∀ a ∈ call.offered listed, ∀ b ∈ call.offered listed,
      a.providerObjectId.val = b.providerObjectId.val → a = b) :
    call.references listed = ((call.offered listed).insertionSort fun a b =>
      a.providerObjectId.val ≤ b.providerObjectId.val).dedup := by
  let before : RemoteObjectRef → RemoteObjectRef → Prop := fun a b =>
    a.providerObjectId.val ≤ b.providerObjectId.val ∧
      (a.providerObjectId.val = b.providerObjectId.val → a = b)
  have hanti : Std.Antisymm before := ⟨fun a b hab hba => hab.2 (Std.le_antisymm hab.1 hba.1)⟩
  have hmem (a : RemoteObjectRef) := (List.perm_insertionSort (fun a b : RemoteObjectRef =>
    a.providerObjectId.val ≤ b.providerObjectId.val) (call.offered listed)).mem_iff (a := a)
  have hsorted := pairwise_le_insertionSort (l := call.offered listed)
    fun object : RemoteObjectRef => object.providerObjectId.val
  unfold RecoveryCall.references
  generalize (call.offered listed).insertionSort (fun a b : RemoteObjectRef =>
    a.providerObjectId.val ≤ b.providerObjectId.val) = sorted at hmem hsorted ⊢
  have hsame (a : RemoteObjectRef) (ha : a ∈ sorted) (b : RemoteObjectRef) (hb : b ∈ sorted) :
      a.providerObjectId.val = b.providerObjectId.val → a = b :=
    h a ((hmem a).mp ha) b ((hmem b).mp hb)
  have hpairwise : sorted.Pairwise before :=
    hsorted.imp_of_mem fun {a b} ha hb hab => ⟨hab, hsame a ha b hb⟩
  rw [← hpairwise.destutter_eq_dedup, ← List.map_id (sorted.destutter _)]
  refine (List.map_destutter fun a ha b hb => not_congr ⟨hsame a ha b hb, fun heq => ?_⟩).trans
    (by rw [List.map_id])
  exact congrArg (fun object : RemoteObjectRef => object.providerObjectId.val) heq

theorem commitOf_none (object : RemoteObjectRef) : call.commitOf object none = none := by
  unfold commitOf
  by_cases hkind : object.kind = .commit <;> simp [guard, hkind]

theorem stored_valid (h : Stored call contents objects head) :
    head.body.repositoryId = call.repositoryId ∧
      validateCommit call.ext call.verifier head = .ok () := by
  obtain ⟨object, -, hcommit⟩ := h
  unfold commitOf at hcommit
  obtain ⟨-, -, hcommit⟩ := Option.bind_eq_some_iff.mp hcommit
  obtain ⟨bytes, -, hcommit⟩ := Option.bind_eq_some_iff.mp hcommit
  obtain ⟨commit, -, hcommit⟩ := Option.bind_eq_some_iff.mp hcommit
  obtain ⟨⟨⟩, hguard, hcommit⟩ := Option.bind_eq_some_iff.mp hcommit
  obtain rfl := Option.some.inj hcommit
  by_contra hinvalid
  rw [guard, if_neg hinvalid] at hguard
  cases hguard

/-- INTERNAL: what is read of an object is the commit it holds. -/
theorem commitOf_read (h : Orderly call contents objects) {object : RemoteObjectRef}
    (hobject : object ∈ objects) :
    call.commitOf object (readComplete call.backend object (64 * 1024)).toOption =
      call.commitOf object (contents object) := by
  cases hread : readComplete call.backend object (64 * 1024) with
  | ok bytes => rw [h.returned object hobject bytes hread, Except.toOption]
  | error e =>
    have hnone : call.commitOf object (contents object) = none := by
      by_contra hsome
      exact h.readable object hobject hsome (by rw [hread]; rfl)
    rw [hnone]
    exact commitOf_none object

theorem validCommits_orderly (h : Orderly call contents (call.offered listed)) :
    (call.validCommits (call.references listed)).Nodup ∧
      ∀ commit, commit ∈ call.validCommits (call.references listed) ↔
        Stored call contents (call.offered listed) commit := by
  have hmem (object : RemoteObjectRef) :
      object ∈ call.references listed ↔ object ∈ call.offered listed := by
    rw [references_eq_dedup h.references, List.mem_dedup]
    exact (List.perm_insertionSort _ _).mem_iff
  have hseen : call.validCommits (call.references listed) =
      (call.references listed).filterMap fun object => call.commitOf object (contents object) :=
    List.filterMap_congr fun object hobject => commitOf_read h ((hmem object).mp hobject)
  rw [hseen]
  constructor
  · have hnodup : (call.references listed).Nodup := by
      rw [references_eq_dedup h.references]
      exact List.nodup_dedup _
    refine List.pairwise_filterMap.mpr (hnodup.imp_of_mem fun {a b} ha hb hne => ?_)
    rintro commit hcommit other hother rfl
    exact hne (h.copies a ((hmem a).mp ha) b ((hmem b).mp hb) commit hcommit hother)
  · intro commit
    rw [List.mem_filterMap]
    exact exists_congr fun object => and_congr_left' (hmem object)

/-! ## The chain -/

theorem validateLink_intro {ext : CommitExternals}
    (hparent : validateCommit ext verifier parent = .ok ())
    (hchild : validateCommit ext verifier child = .ok ())
    (hrepository : parent.body.repositoryId = child.body.repositoryId)
    (hsequence : child.body.sequence.toNat = parent.body.sequence.toNat + 1)
    (hhash : child.body.parentCommit = some (hashOf ext parent)) :
    validateLink ext verifier parent child = .ok () := by
  have hadd : checkedAdd parent.body.sequence.toNat 1 =
      some (parent.body.sequence.toNat + 1) := by
    have hlt := child.body.sequence.toNat_lt
    unfold checkedAdd u64Max
    rw [if_pos (by omega)]
  unfold validateLink
  rw [ok_bind hparent, ok_bind hchild]
  refine ensure_bind_ok.mpr ⟨hrepository, someOr_bind_ok.mpr ⟨_, hadd, ?_⟩⟩
  refine ensure_bind_ok.mpr ⟨hsequence, ?_⟩
  rw [ok_bind (commitHash_valid hparent)]
  exact if_pos hhash

theorem sequence_of_no_parent {ext : CommitExternals}
    (h : validateCommit ext verifier root = .ok ())
    (hparent : root.body.parentCommit = none) : root.body.sequence = 0 := by
  obtain ⟨hbody, -⟩ := check_bind_ok.mp h
  obtain ⟨-, hbody⟩ := ensure_bind_ok.mp hbody
  obtain ⟨-, hbody⟩ := ensure_bind_ok.mp hbody
  obtain ⟨hnamed, -⟩ := ensure_bind_ok.mp hbody
  by_contra hne
  exact hnamed ⟨hne, by rw [hparent]; rfl⟩

theorem trustRoot_mem (h : trustRoot valid = .ok root) : root ∈ valid := by
  unfold trustRoot at h
  split at h
  · cases h
  · rename_i found hfilter
    obtain rfl := Except.ok.inj h
    have hmem : found ∈ [found] := List.mem_singleton_self found
    rw [← hfilter] at hmem
    exact List.mem_of_mem_filter hmem
  · cases h

theorem trustRoot_eq (hnodup : valid.Nodup) (hmem : root ∈ valid)
    (hsequence : root.body.sequence = 0) (hparent : root.body.parentCommit = none)
    (honly : ∀ commit ∈ valid, commit.body.parentCommit = none → commit = root) :
    trustRoot valid = .ok root := by
  have hroots : valid.filter (fun commit =>
      commit.body.sequence = 0 ∧ commit.body.parentCommit = none) = [root] := by
    refine eq_singleton_of_forall_eq (hnodup.filter _) ?_ fun commit hcommit => ?_
    · exact List.mem_filter.mpr ⟨hmem, decide_eq_true ⟨hsequence, hparent⟩⟩
    · obtain ⟨hcommit, hroot⟩ := List.mem_filter.mp hcommit
      exact honly commit hcommit (of_decide_eq_true hroot).2
  unfold trustRoot
  rw [hroots]

/-- INTERNAL: the commits below the root among which the chain is selected. -/
def candidatesOf (valid : List RepositoryCommit) : List RepositoryCommit :=
  valid.filter fun commit => commit.body.sequence ≠ 0

/-- INTERNAL: the chain follows only children to a commit that has none or several. -/
theorem recoverChain_run (hroot : trustRoot valid = .ok root)
    (hvalid : validateCommit call.ext call.verifier root = .ok ()) :
    ∃ walk last, (root :: walk).getLast? = some last ∧ last ∈ valid ∧
      (linkChildren call.ext call.verifier (candidatesOf valid) last = [] ∧
          call.recoverChain valid = .ok (root :: walk) ∨
        2 ≤ (linkChildren call.ext call.verifier (candidatesOf valid) last).length ∧
          ∃ e, call.recoverChain valid = .error e) := by
  obtain ⟨walk, last, hleads, hend⟩ :=
    selectHighestValidChain_run call.ext (candidatesOf valid) hvalid
  have hlast : last ∈ valid := by
    rcases (leadsTo_links hleads).last_linked with rfl | ⟨parent, hlinked⟩
    · exact trustRoot_mem hroot
    · exact List.mem_of_mem_filter hlinked.1
  have hrecover : call.recoverChain valid =
      (selectHighestValidChain call.ext call.verifier (candidatesOf valid) root).mapError
        chainError :=
    ok_bind hroot _
  refine ⟨walk, last, hleads.getLast?, hlast, ?_⟩
  rcases hend with ⟨hnone, hresult⟩ | ⟨hseveral, hresult⟩
  · exact Or.inl ⟨hnone, by simp [hrecover, hresult, Except.mapError]⟩
  · exact Or.inr ⟨hseveral, chainError _, by rw [hrecover, hresult]; rfl⟩

section Orderly

variable (h : Orderly call contents objects)
  (hmembers : ∀ commit, commit ∈ valid ↔ Stored call contents objects commit)
include h hmembers

/-- INTERNAL: a stored commit that names another as its parent is one of its children. -/
theorem mem_linkChildren_of_parent (hparent : parent ∈ valid) (hchild : child ∈ valid)
    (hhash : child.body.parentCommit = some (hashOf call.ext parent)) :
    child ∈ linkChildren call.ext call.verifier (candidatesOf valid) parent := by
  obtain ⟨hrepository, hvalid⟩ := stored_valid ((hmembers parent).mp hparent)
  obtain ⟨hrepository', hvalid'⟩ := stored_valid ((hmembers child).mp hchild)
  have hsequence := h.sequences parent child ((hmembers parent).mp hparent)
    ((hmembers child).mp hchild) hhash
  have hne : child.body.sequence ≠ 0 := by
    intro hzero
    rw [hzero] at hsequence
    exact Nat.succ_ne_zero _ hsequence.symm
  refine mem_linkChildren.mpr ⟨List.mem_filter.mpr ⟨hchild, decide_eq_true hne⟩, ?_⟩
  exact validateLink_intro hvalid hvalid' (hrepository.trans hrepository'.symm) hsequence hhash

/-- INTERNAL: the head of a recovered chain is no stored commit's parent. -/
theorem recoverChain_last (hchain : call.recoverChain valid = .ok chain) :
    ∃ head, chain.getLast? = some head ∧ validateCommit call.ext call.verifier head = .ok () ∧
      ∀ child ∈ valid, child.body.parentCommit ≠ some (hashOf call.ext head) := by
  obtain ⟨root, hroot, -⟩ := except_bind_ok.mp hchain
  have hvalid := (stored_valid ((hmembers root).mp (trustRoot_mem hroot))).2
  obtain ⟨walk, last, hlast, hmem, ⟨hnone, hresult⟩ | ⟨-, e, hresult⟩⟩ :=
    recoverChain_run hroot hvalid
  · obtain rfl := Except.ok.inj (hresult.symm.trans hchain)
    refine ⟨last, hlast, (stored_valid ((hmembers last).mp hmem)).2, fun child hchild hhash => ?_⟩
    have hlinked := mem_linkChildren_of_parent h hmembers hmem hchild hhash
    rw [hnone] at hlinked
    cases hlinked
  · rw [hresult] at hchain
    cases hchain

/-- INTERNAL: the sequences of a chain rise. -/
theorem linear_sequences (hlinear : Linear call (· ∈ valid) chain) :
    chain.Pairwise fun a b => a.body.sequence.toNat < b.body.sequence.toNat := by
  let before : RepositoryCommit → RepositoryCommit → Prop := fun a b =>
    a.body.sequence.toNat < b.body.sequence.toNat
  have : Trans before before before := ⟨Nat.lt_trans⟩
  have hrises : chain.IsChain before := by
    refine hlinear.links.imp_of_mem_imp fun parent child hparent hchild hhash => ?_
    have hsequence := h.sequences parent child
      ((hmembers parent).mp ((hlinear.members parent).mp hparent))
      ((hmembers child).mp ((hlinear.members child).mp hchild)) hhash
    exact Nat.lt_of_lt_of_eq (Nat.lt_succ_self _) hsequence.symm
  exact hrises.pairwise

/-- INTERNAL: the first commit of a single chain is the only root. -/
theorem trustRoot_linear (hnodup : valid.Nodup)
    (hlinear : Linear call (· ∈ valid) (root :: chain)) : trustRoot valid = .ok root := by
  have hzero (commit : RepositoryCommit) (hcommit : commit ∈ valid)
      (hparent : commit.body.parentCommit = none) : commit.body.sequence = 0 :=
    sequence_of_no_parent (stored_valid ((hmembers commit).mp hcommit)).2 hparent
  have hmem := (hlinear.members root).mp List.mem_cons_self
  have hparent := hlinear.root root rfl
  refine trustRoot_eq hnodup hmem (hzero root hmem hparent) hparent fun commit hcommit hnone => ?_
  rcases List.mem_cons.mp ((hlinear.members commit).mpr hcommit) with rfl | hlater
  · rfl
  · have hless := (List.pairwise_cons.mp (linear_sequences h hmembers hlinear)).1 commit hlater
    rw [hzero commit hcommit hnone] at hless
    exact (Nat.not_lt_zero _ hless).elim

/-- INTERNAL: a single chain is followed to its last commit. -/
theorem recoverChain_linear (hnodup : valid.Nodup) (hlinear : Linear call (· ∈ valid) chain)
    (hlast : chain.getLast? = some last) :
    ∃ found, call.recoverChain valid = .ok found ∧ found.getLast? = some last := by
  obtain ⟨root, rest, rfl⟩ := List.ne_nil_iff_exists_cons.mp
    (List.getLast?_isSome.mp (Option.isSome_of_eq_some hlast))
  have hroot := trustRoot_linear h hmembers hnodup hlinear
  have hvalid := (stored_valid ((hmembers root).mp (trustRoot_mem hroot))).2
  obtain ⟨walk, found, hfound, hmem, ⟨hnone, hresult⟩ | ⟨hseveral, -⟩⟩ :=
    recoverChain_run hroot hvalid
  · refine ⟨_, hresult, hfound.trans ?_⟩
    -- every commit of the chain but the last has a child
    by_contra hne
    obtain ⟨next, hnext, hhash⟩ := exists_next hlinear.links ((hlinear.members found).mpr hmem)
      (by rw [hlast]; exact Ne.symm hne)
    have hlinked := mem_linkChildren_of_parent h hmembers hmem
      ((hlinear.members next).mp hnext) hhash
    rw [hnone] at hlinked
    cases hlinked
  · -- two children would have one sequence
    obtain ⟨child, hchild, other, hother, hne⟩ :=
      differ_of_nodup ((hnodup.filter _).filter _) hseveral
    obtain ⟨hchild, hlink⟩ := mem_linkChildren.mp hchild
    obtain ⟨hother, hlink'⟩ := mem_linkChildren.mp hother
    have hdistinct := (linear_sequences h hmembers hlinear).imp Nat.ne_of_lt
    refine (hne (eq_of_key_eq (fun commit => commit.body.sequence.toNat) hdistinct
      ((hlinear.members child).mpr (List.mem_of_mem_filter hchild))
      ((hlinear.members other).mpr (List.mem_of_mem_filter hother)) ?_)).elim
    exact (validateLink_ok hlink).2.1.trans (validateLink_ok hlink').2.1.symm

end Orderly

/-! ## The whole call -/

theorem manifestHeld_iff {manifest : Manifest} :
    call.recoverManifest head = .ok manifest ∧
        call.verifyPacks head (call.packsOf manifest) = .ok () ↔
      ManifestHeld call head manifest := by
  unfold recoverManifest verifyPacks
  rw [check_bind_ok, forM_ok]
  constructor
  · rintro ⟨hmanifest, hpacks, hset⟩
    obtain ⟨bytes, hbytes, hmanifest⟩ := except_bind_ok.mp hmanifest
    obtain ⟨found, hfound, hmanifest⟩ := except_bind_ok.mp hmanifest
    obtain ⟨hrepository, hmanifest⟩ := ensure_bind_ok.mp hmanifest
    obtain ⟨hash, hhash, hmanifest⟩ := except_bind_ok.mp hmanifest
    obtain ⟨hsigned, hmanifest⟩ := ensure_bind_ok.mp hmanifest
    obtain rfl := Except.ok.inj hmanifest
    rw [hsigned] at hhash
    exact ⟨⟨bytes, hbytes, hfound⟩, hrepository, hhash, hpacks, ensure_ok hset⟩
  · intro hheld
    obtain ⟨bytes, hbytes, hfound⟩ := hheld.read
    refine ⟨?_, hheld.packs, if_pos hheld.packSet⟩
    rw [ok_bind hbytes, ok_bind hfound]
    refine ensure_bind_ok.mpr ⟨hheld.repository, ?_⟩
    rw [ok_bind hheld.hash]
    exact ensure_bind_ok.mpr ⟨rfl, rfl⟩

/-- INTERNAL: when the stored commits are read, listed under one reference and stored once, the
head that is returned is no stored commit's parent and its manifest and packs are those it signs;
and where the stored commits are one chain whose last commit has its manifest at the backend, the
call returns that commit.
SRCLINE: mirage-engine/src/repository_reader.rs:35-141 -/
theorem recovery_not_behind (call : RecoveryCall Manifest)
    (contents : RemoteObjectRef → Option (List UInt8)) (listed : List RemoteObjectRef)
    (hlisted : call.backend.enumerateCommits call.repositoryId = .ok listed)
    (h : Orderly call contents (call.offered listed)) :
    (∀ result, call.recoverRepositoryWithHints = .ok result →
      ∃ head, result.chain.getLast? = some head ∧ result.headHash = hashOf call.ext head ∧
        (∀ child, Stored call contents (call.offered listed) child →
          child.body.parentCommit ≠ some result.headHash) ∧
        ManifestHeld call head result.manifest) ∧
    ∀ chain last manifest, Linear call (Stored call contents (call.offered listed)) chain →
      chain.getLast? = some last → ManifestHeld call last manifest →
      ∃ result, call.recoverRepositoryWithHints = .ok result ∧
        result.chain.getLast? = some last ∧ result.manifest = manifest := by
  obtain ⟨hnodup, hmembers⟩ := validCommits_orderly h
  unfold recoverRepositoryWithHints
  rw [ok_bind hlisted]
  refine ⟨fun result hresult => ?_, fun chain last manifest hlinear hlast hheld => ?_⟩
  · obtain ⟨chain, hchain, hresult⟩ := except_bind_ok.mp hresult
    obtain ⟨head, hhead, hresult⟩ := someOr_bind_ok.mp hresult
    obtain ⟨manifest, hmanifest, hresult⟩ := except_bind_ok.mp hresult
    obtain ⟨hpacks, hresult⟩ := check_bind_ok.mp hresult
    obtain ⟨found, hfound, hvalid, hparents⟩ := recoverChain_last h hmembers hchain
    obtain rfl := Option.some.inj (hfound.symm.trans hhead)
    rw [ok_bind (commitHash_valid hvalid)] at hresult
    obtain rfl := Except.ok.inj hresult
    exact ⟨found, hfound, rfl, fun child hchild => hparents child ((hmembers child).mpr hchild),
      manifestHeld_iff.mp ⟨hmanifest, hpacks⟩⟩
  · have hlinear' : Linear call (· ∈ call.validCommits (call.references listed)) chain :=
      ⟨fun commit => (hlinear.members commit).trans (hmembers commit).symm, hlinear.root,
        hlinear.links⟩
    obtain ⟨found, hfound, hlast'⟩ := recoverChain_linear h hmembers hnodup hlinear' hlast
    obtain ⟨hmanifest, hpacks⟩ := manifestHeld_iff.mpr hheld
    have hvalid := (stored_valid ((hlinear.members last).mp (List.mem_of_getLast? hlast))).2
    refine ⟨⟨found, hashOf call.ext last, manifest, last.body.manifestObject,
      (call.packsOf manifest).length⟩, ?_, hlast', rfl⟩
    rw [ok_bind hfound, hlast', someOr, ok_bind rfl, ok_bind hmanifest, ok_bind hpacks,
      ok_bind (commitHash_valid hvalid)]

end Recovery

/-- INTERNAL: an object of ten bytes with this digest. -/
def tenBytes (id : ProviderObjectId) (kind : ObjectKind) (digest : BitVec 256) : RemoteObjectRef :=
  { rootCommit.body.manifestObject with
    providerObjectId := id, kind := kind, contentHash := digest }

def tenBytesOf (object : RemoteObjectRef) : List UInt8 :=
  List.replicate 9 0 ++ [UInt8.ofNat object.contentHash.toNat]

def rootObject : RemoteObjectRef := tenBytes ⟨['r', '0'], by decide⟩ .commit 1

def headObject : RemoteObjectRef := tenBytes ⟨['h', '1'], by decide⟩ .commit 2

/-- INTERNAL: listed as a commit, with bytes that are none. -/
def strayObject : RemoteObjectRef := tenBytes ⟨['s', '2'], by decide⟩ .commit 3

def onePack : RemoteObjectRef := tenBytes ⟨['p', '3'], by decide⟩ .pack 4

/-- INTERNAL: a child of the root whose manifest has one pack. -/
def headCommit : RepositoryCommit where
  body := { (childCommit 1).body with
    referencedPackSetHash := packSetHash plainItems.toExternals [onePack.contentHash] }
  signature := rootCommit.signature

/-- INTERNAL: the backend holds a root, its child and a stray object; the root is also the cached
commit.  A manifest is its bytes. -/
def historyCall : RecoveryCall (List UInt8) where
  ext := plainItems
  codecs :=
    { decodeCommit := fun bytes =>
        if bytes = tenBytesOf rootObject then .ok rootCommit
        else if bytes = tenBytesOf headObject then .ok headCommit
        else .error (.manifestInvalid "")
      decodeManifest := .ok
      manifestHash := fun bytes => .ok (plainItems.blake3 bytes)
      repositoryId := fun _ => rootCommit.body.repositoryId
      packObjects := fun _ => [onePack, onePack] }
  backend :=
    { readRange := fun object _ => .ok (tenBytesOf object)
      stat := fun object => if object = onePack then .ok ⟨10, 4⟩ else .error (.io "")
      enumerateCommits := fun _ => .ok [headObject, strayObject, rootObject] }
  repositoryId := rootCommit.body.repositoryId
  verifier := acceptAll
  hints := ⟨some rootObject, none⟩

/-- INTERNAL: the child of the root is recovered, with its manifest. -/
theorem child_recovered : ∃ result, historyCall.recoverRepositoryWithHints = .ok result ∧
    result.chain.getLast? = some headCommit ∧
    result.manifest = tenBytesOf headCommit.body.manifestObject := by
  let listed := [headObject, strayObject, rootObject]
  have hcommits : (historyCall.offered listed).filterMap
      (fun object => historyCall.commitOf object (some (tenBytesOf object))) =
        [rootCommit, headCommit, rootCommit] := by decide +kernel
  have hstored (commit : RepositoryCommit) :
      Stored historyCall (some ∘ tenBytesOf) (historyCall.offered listed) commit ↔
        commit = rootCommit ∨ commit = headCommit := by
    refine (List.mem_filterMap (f := fun object => historyCall.commitOf object
      (some (tenBytesOf object)))).symm.trans ?_
    rw [hcommits]
    simp only [List.mem_cons, List.not_mem_nil, or_false]
    tauto
  have hread : ∀ object ∈ historyCall.offered listed,
      readComplete historyCall.backend object (64 * 1024) =
        .ok (tenBytesOf object) := by decide +kernel
  have horderly : Orderly historyCall (some ∘ tenBytesOf) (historyCall.offered listed) := by
    refine ⟨fun object hobject bytes h => ?_, fun object hobject _ => ?_, by decide +kernel,
      by decide +kernel, fun parent child hparent hchild => ?_⟩
    · exact congrArg some (Except.ok.inj ((hread object hobject).symm.trans h))
    · rw [hread object hobject]
      exact Option.some_ne_none _
    · rcases (hstored parent).mp hparent with rfl | rfl <;>
        rcases (hstored child).mp hchild with rfl | rfl <;> decide +kernel
  refine (recovery_not_behind historyCall (some ∘ tenBytesOf) listed rfl horderly).2
    [rootCommit, headCommit] headCommit _ ⟨fun commit => ?_, fun commit hmem => ?_, ?_⟩ rfl
    ⟨⟨_, rfl, rfl⟩, rfl, ?_, ?_, ?_⟩
  · rw [hstored, List.mem_pair]
  · rw [← Option.some.inj hmem]
    rfl
  · exact List.isChain_pair.mpr rfl
  · decide +kernel
  · decide +kernel
  · decide +kernel

end Mirage.Analysis
