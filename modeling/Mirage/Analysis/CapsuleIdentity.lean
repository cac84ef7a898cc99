import Mirage.Model.Capsule

/-!
# The identity of a capsule

The identity is the digest of fields without lengths between them.  The bytes do not say where the
profile key ends, so a key that ends in the bytes of a page size and a page is taken for a shorter
one.  With keys of one length the rest is decoded in one way only: if the pages ended earlier, a
mandatory page would have to stand among the pages before it.
-/

set_option autoImplicit false

namespace Mirage.Analysis

open Mirage.Computation Mirage.Model

/-! ## Pages and mandatory pages -/

section Sets

/-- INTERNAL: a page as it is hashed. -/
def wordBytes (page : Fin (2 ^ 32)) : List UInt8 := leBytes 4 page.val

/-- INTERNAL: a mandatory page as it is hashed. -/
def markedBytes (page : Fin (2 ^ 32)) : List UInt8 := 0x6d :: leBytes 4 page.val

theorem length_wordBytes (page : Fin (2 ^ 32)) : (wordBytes page).length = 4 :=
  length_leBytes 4 page.val

theorem length_markedBytes (page : Fin (2 ^ 32)) : (markedBytes page).length = 5 :=
  congrArg Nat.succ (length_leBytes 4 page.val)

theorem wordBytes_injective : Function.Injective wordBytes := by
  intro a b h
  refine Fin.ext ?_
  have hread := congrArg fromLeBytes h
  unfold wordBytes at hread
  rwa [fromLeBytes_leBytes a.isLt, fromLeBytes_leBytes b.isLt] at hread

theorem markedBytes_injective : Function.Injective markedBytes := fun _ _ h =>
  wordBytes_injective (List.cons.inj h).2

variable {marked marked' pages : List (Fin (2 ^ 32))}

/-- INTERNAL: the fifth page stands where the fourth mandatory page stands. -/
theorem fifth_word {words rest rest' : List (Fin (2 ^ 32))} {w m : Fin (2 ^ 32)}
    {tail : List UInt8} (hwords : words.length = 4) (hmarked : marked.length = 3)
    (h : (words ++ w :: rest).flatMap wordBytes ++ tail =
      (marked ++ m :: rest').flatMap markedBytes) : w = m := by
  have hlead : (words.flatMap wordBytes).length =
      (marked.flatMap markedBytes ++ [0x6d]).length := by
    rw [List.length_append, length_flatMap_parts length_wordBytes,
      length_flatMap_parts length_markedBytes, hwords, hmarked]
    rfl
  have hsplit : words.flatMap wordBytes ++ (wordBytes w ++ (rest.flatMap wordBytes ++ tail)) =
      (marked.flatMap markedBytes ++ [0x6d]) ++ (wordBytes m ++ rest'.flatMap markedBytes) := by
    simpa only [List.flatMap_append, List.flatMap_cons, List.append_assoc, markedBytes, wordBytes,
      List.cons_append, List.nil_append] using h
  have hbehind := (List.append_inj hsplit hlead).2
  refine wordBytes_injective (List.append_inj hbehind ?_).1
  rw [length_wordBytes, length_wordBytes]

theorem exists_at {l : List (Fin (2 ^ 32))} {n : Nat} (h : n < l.length) :
    ∃ before a after, l = before ++ a :: after ∧ before.length = n := by
  refine ⟨l.take n, l[n], l.drop (n + 1), ?_, List.length_take_of_le (Nat.le_of_lt h)⟩
  rw [List.getElem_cons_drop, List.take_append_drop]

/-- INTERNAL: pages that are read as mandatory pages are none, or one of them is one. -/
theorem pages_end
    (h : pages.flatMap wordBytes ++ marked.flatMap markedBytes = marked'.flatMap markedBytes) :
    pages = [] ∨ ∃ page ∈ pages, page ∈ marked' := by
  have hlength := congrArg List.length h
  rw [List.length_append, length_flatMap_parts length_wordBytes,
    length_flatMap_parts length_markedBytes, length_flatMap_parts length_markedBytes] at hlength
  rcases Nat.eq_zero_or_pos pages.length with hzero | hpos
  · exact .inl (List.length_eq_zero_iff.mp hzero)
  · -- the number of pages is a multiple of five
    obtain ⟨words, w, rest, rfl, hwords⟩ := exists_at (l := pages) (n := 4) (by omega)
    obtain ⟨marks, m, rest', rfl, hmarks⟩ := exists_at (l := marked') (n := 3) (by omega)
    have hsame := fifth_word hwords hmarks h
    exact .inr ⟨w, List.mem_append_right _ List.mem_cons_self,
      hsame ▸ List.mem_append_right _ List.mem_cons_self⟩

/-- INTERNAL: the bytes of the two sets are decoded in one way, as no page is listed twice and the
mandatory pages are pages. -/
theorem sets_inj_of_le {pages' : List (Fin (2 ^ 32))} (hnodup : pages.Nodup)
    (hsubset : ∀ page ∈ marked', page ∈ pages') (hle : pages'.length ≤ pages.length)
    (h : pages.flatMap wordBytes ++ marked.flatMap markedBytes =
      pages'.flatMap wordBytes ++ marked'.flatMap markedBytes) :
    pages = pages' ∧ marked = marked' := by
  have hsplit : pages.flatMap wordBytes = (pages.take pages'.length).flatMap wordBytes ++
      (pages.drop pages'.length).flatMap wordBytes := by
    rw [← List.flatMap_append, List.take_append_drop]
  have htake : (pages.take pages'.length).length = pages'.length :=
    List.length_take_of_le hle
  rw [hsplit, List.append_assoc] at h
  obtain ⟨hfirst, hrest⟩ := List.append_inj h (by
    rw [length_flatMap_parts length_wordBytes, length_flatMap_parts length_wordBytes, htake])
  have hpages := flatMap_parts_inj length_wordBytes wordBytes_injective htake hfirst
  rcases pages_end hrest with hnone | ⟨page, hpage, hmarked⟩
  · have hall : pages = pages' := by
      rw [← hpages, ← List.append_nil (pages.take _), ← hnone, List.take_append_drop]
    rw [hnone, List.flatMap_nil, List.nil_append] at hrest
    refine ⟨hall, flatMap_parts_inj length_markedBytes markedBytes_injective ?_ hrest⟩
    have hlength := congrArg List.length hrest
    rw [length_flatMap_parts length_markedBytes, length_flatMap_parts length_markedBytes]
      at hlength
    omega
  · -- the page would be listed before and behind the end of the shorter list
    have hbefore : page ∈ pages.take pages'.length := by
      rw [hpages]
      exact hsubset page hmarked
    rw [← List.take_append_drop pages'.length pages] at hnodup
    exact absurd rfl ((List.nodup_append.mp hnodup).2.2 page hbefore page hpage)

theorem sets_inj {pages' : List (Fin (2 ^ 32))} (hnodup : pages.Nodup) (hnodup' : pages'.Nodup)
    (hsubset : ∀ page ∈ marked, page ∈ pages) (hsubset' : ∀ page ∈ marked', page ∈ pages')
    (h : pages.flatMap wordBytes ++ marked.flatMap markedBytes =
      pages'.flatMap wordBytes ++ marked'.flatMap markedBytes) :
    pages = pages' ∧ marked = marked' := by
  rcases Nat.le_total pages'.length pages.length with hle | hle
  · exact sets_inj_of_le hnodup hsubset' hle h
  · obtain ⟨hpages, hmarked⟩ := sets_inj_of_le hnodup' hsubset hle h.symm
    exact ⟨hpages.symm, hmarked.symm⟩

end Sets

/-! ## The fields -/

section Fields

/-- INTERNAL: the fields that an identity stands for. -/
structure SameIdentity (a b : CapsuleDraft) : Prop where
  repository : a.repositoryId = b.repositoryId
  generation : a.generation = b.generation
  key : a.profileKey = b.profileKey
  size : a.pageSize = b.pageSize
  pages : a.pageSet = b.pageSet
  mandatory : a.mandatorySet = b.mandatorySet

variable {ext : Externals} {a b : CapsuleDraft} {plan plan' : CapsulePlan}

theorem pageBytes_words (pages : RoaringBitmap) :
    pageBytes [] pages = (pages.sort (· ≤ ·)).flatMap wordBytes := rfl

theorem pageBytes_marked (pages : RoaringBitmap) :
    pageBytes [0x6d] pages = (pages.sort (· ≤ ·)).flatMap markedBytes := rfl

theorem sort_injective {s t : RoaringBitmap} (h : s.sort (· ≤ ·) = t.sort (· ≤ ·)) : s = t := by
  rw [← Finset.sort_toFinset s (· ≤ ·), h, Finset.sort_toFinset]

theorem leBytes_inj {n x y : Nat} (hx : x < 256 ^ n) (hy : y < 256 ^ n)
    (h : leBytes n x = leBytes n y) : x = y := by
  rw [← fromLeBytes_leBytes hx, h, fromLeBytes_leBytes hy]

theorem identityBytes_inj (ha : a.mandatorySet ⊆ a.pageSet) (hb : b.mandatorySet ⊆ b.pageSet)
    (hkeys : (utf8Bytes a.profileKey).length = (utf8Bytes b.profileKey).length)
    (h : a.identityBytes = b.identityBytes) : SameIdentity a b := by
  unfold CapsuleDraft.identityBytes at h
  obtain ⟨hrepository, h⟩ := List.append_inj h (by rw [length_idBytes, length_idBytes])
  obtain ⟨hgeneration, h⟩ := List.append_inj h (by rw [length_leBytes, length_leBytes])
  obtain ⟨hkey, h⟩ := List.append_inj h hkeys
  obtain ⟨hsize, h⟩ := List.append_inj h (by rw [length_leBytes, length_leBytes])
  rw [pageBytes_words, pageBytes_words, pageBytes_marked, pageBytes_marked] at h
  have hsubset : ∀ {pages mandatory : RoaringBitmap}, mandatory ⊆ pages →
      ∀ page ∈ mandatory.sort (· ≤ ·), page ∈ pages.sort (· ≤ ·) := by
    intro pages mandatory hle page hpage
    exact (Finset.mem_sort _).mpr (hle ((Finset.mem_sort _).mp hpage))
  obtain ⟨hpages, hmandatory⟩ := sets_inj (Finset.sort_nodup _ _) (Finset.sort_nodup _ _)
    (hsubset ha) (hsubset hb) h
  exact
    { repository := by
        rw [← idOfBytes_idBytes a.repositoryId, hrepository, idOfBytes_idBytes]
      generation := Fin.ext (leBytes_inj a.generation.isLt b.generation.isLt hgeneration)
      key := utf8Bytes_injective hkey
      size := Fin.ext (leBytes_inj a.pageSize.isLt b.pageSize.isLt hsize)
      pages := sort_injective hpages
      mandatory := sort_injective hmandatory }

theorem capsuleNew_ok (h : CapsulePlan.new ext a = .ok plan) :
    a.mandatorySet ⊆ a.pageSet ∧ plan.capsuleId = capsuleIdOf ext a.identityBytes := by
  unfold CapsulePlan.new at h
  obtain ⟨hsets, h⟩ := ensure_bind_ok.mp h
  obtain ⟨-, -, h⟩ := except_bind_ok.mp h
  obtain ⟨-, h⟩ := ensure_bind_ok.mp h
  obtain ⟨-, h⟩ := ensure_bind_ok.mp h
  rw [← Except.ok.inj h]
  exact ⟨hsets.2.2.2.1, rfl⟩

/-- INTERNAL: a plan that is loaded is that of its own draft and has the id. -/
theorem loadPlan_ok {stored : Except MirageError CapsulePlan} {repositoryId : RepositoryId}
    {capsuleId : BitVec 128} (h : loadPlan ext stored repositoryId capsuleId = .ok plan) :
    CapsulePlan.new ext plan.toCapsuleDraft = .ok plan ∧ plan.capsuleId = capsuleId := by
  unfold loadPlan at h
  obtain ⟨read, -, h⟩ := except_bind_ok.mp h
  obtain ⟨validated, hnew, h⟩ := except_bind_ok.mp h
  obtain ⟨hsame, h⟩ := ensure_bind_ok.mp h
  obtain rfl := Except.ok.inj h
  rw [hsame.1] at hnew
  exact ⟨hnew, hsame.2.2⟩

/-- INTERNAL: the hashed bytes say where the profile keys end: they have one length, or the bytes
differ anyway. -/
def Separated (a b : CapsuleDraft) : Prop :=
  (utf8Bytes a.profileKey).length = (utf8Bytes b.profileKey).length ∨
    a.identityBytes ≠ b.identityBytes

/-- INTERNAL: accepted drafts with one id have the same fields exactly if they are separated. -/
theorem sameIdentity_iff (ha : CapsulePlan.new ext a = .ok plan)
    (hb : CapsulePlan.new ext b = .ok plan')
    (hinj : Set.InjOn (capsuleIdOf ext) {a.identityBytes, b.identityBytes}) :
    (plan.capsuleId = plan'.capsuleId → SameIdentity a b) ↔ Separated a b := by
  obtain ⟨hasets, haid⟩ := capsuleNew_ok ha
  obtain ⟨hbsets, hbid⟩ := capsuleNew_ok hb
  have hids : plan.capsuleId = plan'.capsuleId ↔ a.identityBytes = b.identityBytes := by
    rw [haid, hbid]
    exact ⟨hinj (by simp) (by simp), congrArg _⟩
  rw [hids]
  constructor
  · intro hsame
    by_cases hbytes : a.identityBytes = b.identityBytes
    · exact .inl (by rw [(hsame hbytes).key])
    · exact .inr hbytes
  · rintro (hkeys | hbytes) heq
    · exact identityBytes_inj hasets hbsets hkeys heq
    · exact absurd heq hbytes

end Fields

/-- INTERNAL: accepted drafts with one capsule id have the same fields exactly if the ends of their
profile keys are separated, and so have the plans of two loads of one id.
SRCLINE: mirage-predictor/src/capsule.rs:77-142, mirage-service/src/runtime/planning.rs:326-355 -/
theorem capsule_identity (ext : Externals) (a b : CapsuleDraft)
    (hinj : Set.InjOn (capsuleIdOf ext) {a.identityBytes, b.identityBytes}) :
    (∀ plan plan' : CapsulePlan, CapsulePlan.new ext a = .ok plan →
      CapsulePlan.new ext b = .ok plan' →
        ((plan.capsuleId = plan'.capsuleId → SameIdentity a b) ↔ Separated a b)) ∧
    ∀ (stored stored' : Except MirageError CapsulePlan) (repository repository' : RepositoryId)
      (id : BitVec 128) (plan plan' : CapsulePlan),
      plan.toCapsuleDraft = a → plan'.toCapsuleDraft = b →
      loadPlan ext stored repository id = .ok plan →
      loadPlan ext stored' repository' id = .ok plan' → (SameIdentity a b ↔ Separated a b) := by
  refine ⟨fun plan plan' ha hb => sameIdentity_iff ha hb hinj, ?_⟩
  rintro stored stored' repository repository' id plan plan' rfl rfl hload hload'
  obtain ⟨hnew, hid⟩ := loadPlan_ok hload
  obtain ⟨hnew', hid'⟩ := loadPlan_ok hload'
  rw [← sameIdentity_iff hnew hnew' hinj]
  exact ⟨fun h _ => h, fun h => h (hid.trans hid'.symm)⟩

/-! ## Keys of different lengths -/

section Confused

/-- INTERNAL: a draft of pages of one byte without mandatory pages. -/
def plainDraft (key : List Char) (pages : RoaringBitmap) (risk : RiskEstimate) : CapsuleDraft where
  repositoryId := 0
  generation := 0
  profileKey := key
  pageSet := pages
  mandatorySet := ∅
  frontierSet := ∅
  pageSize := 1
  risk := risk
  reasons := []

theorem plainDraft_new (ext : Externals) {key : List Char} {pages : RoaringBitmap}
    {risk : RiskEstimate} (hkey : key ≠ []) (hlength : (utf8Bytes key).length ≤ 1024)
    (hrisk : risk.validate = .ok ()) :
    ∃ plan, CapsulePlan.new ext (plainDraft key pages risk) = .ok plan ∧
      plan.toCapsuleDraft = plainDraft key pages risk := by
  have hcard : pages.card * 1 ≤ u64Max := by
    have hle := Finset.card_le_univ pages
    rw [Fintype.card_fin] at hle
    unfold u64Max
    omega
  have hsize : isPowerOfTwo 1 := by decide
  refine ⟨_, ensure_bind_ok.mpr ⟨⟨hkey, hlength, hsize, Finset.empty_subset _,
    Finset.empty_subset _⟩, except_bind_ok.mpr ⟨(), hrisk, ensure_bind_ok.mpr ⟨?_,
    ensure_bind_ok.mpr ⟨hcard, rfl⟩⟩⟩⟩, rfl⟩
  exact fun reason hreason => absurd hreason List.not_mem_nil

/-- INTERNAL: a digest that tells short strings apart. -/
def numberDigest : Externals := ⟨fun bytes => BitVec.ofNat 256 (fromLeBytes bytes), fun c => [c]⟩

/-- INTERNAL: two drafts that differ in their risk have one id and the same fields. -/
theorem risk_not_in_identity :
    ∃ plan plan' : CapsulePlan,
      CapsulePlan.new numberDigest (plainDraft ['p'] {1} ⟨0, 0, 0, 0⟩) = .ok plan ∧
      CapsulePlan.new numberDigest (plainDraft ['p'] {1} ⟨1, 2, 3, 4⟩) = .ok plan' ∧
      plan ≠ plan' ∧ plan.capsuleId = plan'.capsuleId ∧
      SameIdentity (plainDraft ['p'] {1} ⟨0, 0, 0, 0⟩) (plainDraft ['p'] {1} ⟨1, 2, 3, 4⟩) := by
  obtain ⟨plan, hplan, hdraft⟩ := @plainDraft_new numberDigest ['p'] {1} ⟨0, 0, 0, 0⟩ (by decide)
    (by decide +kernel) (by decide)
  obtain ⟨plan', hplan', hdraft'⟩ := @plainDraft_new numberDigest ['p'] {1} ⟨1, 2, 3, 4⟩
    (by decide) (by decide +kernel) (by decide)
  have hid : plan.capsuleId = plan'.capsuleId := by
    rw [(capsuleNew_ok hplan).2, (capsuleNew_ok hplan').2]
    rfl
  refine ⟨plan, plan', hplan, hplan', ?_, hid, ?_⟩
  · rintro rfl
    exact absurd (congrArg CapsuleDraft.risk (hdraft.symm.trans hdraft')) (by decide)
  · refine ((capsule_identity numberDigest _ _ ?_).1 plan plan' hplan hplan').mpr (.inl rfl) hid
    change Set.InjOn _ {_, (plainDraft ['p'] {1} ⟨0, 0, 0, 0⟩).identityBytes}
    rw [Set.pair_eq_singleton]
    exact Set.injOn_singleton _ _

/-- INTERNAL: the hashed bytes of a page are also those of a longer profile key. -/
theorem plainDraft_confused :
    (plainDraft ['p'] {1} ⟨0, 0, 0, 0⟩).identityBytes = (plainDraft
      ['p', Char.ofNat 1, Char.ofNat 0, Char.ofNat 0, Char.ofNat 0] ∅
        ⟨0, 0, 0, 0⟩).identityBytes := by
  unfold CapsuleDraft.identityBytes pageBytes plainDraft
  dsimp only
  rw [Finset.sort_singleton, Finset.sort_empty]
  decide +kernel

end Confused

/-- INTERNAL: whatever the digest is, a page is taken for the end of the profile key: two accepted
drafts have one id. -/
theorem drafts_confused (ext : Externals) : ∃ plan plan' : CapsulePlan,
    CapsulePlan.new ext (plainDraft ['p'] {1} ⟨0, 0, 0, 0⟩) = .ok plan ∧
      CapsulePlan.new ext (plainDraft
        ['p', Char.ofNat 1, Char.ofNat 0, Char.ofNat 0, Char.ofNat 0] ∅ ⟨0, 0, 0, 0⟩) =
          .ok plan' ∧
      plan.capsuleId = plan'.capsuleId ∧ plan.pageSet ≠ plan'.pageSet ∧
      plan.profileKey ≠ plan'.profileKey := by
  obtain ⟨plan, hplan, hdraft⟩ := @plainDraft_new ext ['p'] {1} ⟨0, 0, 0, 0⟩
    (by decide) (by decide +kernel) (by decide)
  obtain ⟨plan', hplan', hdraft'⟩ := @plainDraft_new ext
    ['p', Char.ofNat 1, Char.ofNat 0, Char.ofNat 0, Char.ofNat 0] ∅ ⟨0, 0, 0, 0⟩ (by decide)
    (by decide +kernel) (by decide)
  refine ⟨plan, plan', hplan, hplan', ?_, ?_, ?_⟩
  · rw [(capsuleNew_ok hplan).2, (capsuleNew_ok hplan').2, plainDraft_confused]
  · rw [hdraft, hdraft']
    exact Finset.singleton_ne_empty _
  · rw [hdraft, hdraft']
    decide

/-- INTERNAL: two accepted drafts of different keys and pages that have one id.
SRCLINE: mirage-predictor/src/capsule.rs:114-125 -/
theorem page_in_profile_key : ∃ plan plan' : CapsulePlan,
    CapsulePlan.new numberDigest (plainDraft ['p'] {1} ⟨0, 0, 0, 0⟩) = .ok plan ∧
      CapsulePlan.new numberDigest (plainDraft
        ['p', Char.ofNat 1, Char.ofNat 0, Char.ofNat 0, Char.ofNat 0] ∅ ⟨0, 0, 0, 0⟩) =
          .ok plan' ∧
      plan.capsuleId = plan'.capsuleId ∧ plan.pageSet ≠ plan'.pageSet ∧
      plan.profileKey ≠ plan'.profileKey :=
  drafts_confused numberDigest

end Mirage.Analysis
