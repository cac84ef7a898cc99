import Mirage.Model.VersionTransfer

/-!
# Transfer between versions

Every old page is counted once, as retained, remapped or invalidated, so the counters add up
exactly if none of the three saturates.  The page that an old one is transferred to is found by its
content alone, and the map from contents to pages keeps the last page of the new version: an
unchanged page moves exactly if its content is repeated behind it.
-/

set_option autoImplicit false

namespace Mirage.Analysis

open Mirage.Computation Mirage.Model

/-! ## The two maps -/

section Maps

variable {κ : Type} [DecidableEq κ] {key : VersionPage → κ} {new : List VersionPage}

/-- INTERNAL: a map holds the last page of a key. -/
theorem get_collectPages (k : κ) :
    (collectPages key new).get k = (new.filter fun page => key page = k).getLast? := by
  unfold collectPages
  rw [Table.get_foldl_set key fun page => page, Table.get_empty, Option.or_none, List.map_id']

theorem collectPages_mem {k : κ} {page : VersionPage}
    (h : (collectPages key new).get k = some page) : page ∈ new ∧ key page = k := by
  rw [get_collectPages] at h
  have hmem := List.mem_filter.mp (List.mem_of_getLast? h)
  exact ⟨hmem.1, by simpa using hmem.2⟩

theorem collectPages_none {k : κ} (h : (collectPages key new).get k = none) :
    ∀ page ∈ new, key page ≠ k := by
  rw [get_collectPages, List.getLast?_eq_none_iff, List.filter_eq_nil_iff] at h
  intro page hpage
  simpa using h page hpage

/-- INTERNAL: no page behind this one has its content. -/
def LastOfContent (new : List VersionPage) (page : VersionPage) : Prop :=
  ∀ before after, new = before ++ page :: after → ∀ other ∈ after, other.hash ≠ page.hash

/-- INTERNAL: in a version that has no page twice, a page is what its content is looked up to
exactly if no page behind it has the content. -/
theorem collectPages_last {page : VersionPage} (hnodup : new.Nodup) (hmem : page ∈ new) :
    (collectPages VersionPage.hash new).get page.hash = some page ↔ LastOfContent new page := by
  obtain ⟨before, after, rfl⟩ := List.append_of_mem hmem
  have hfilter : (before ++ page :: after).filter (fun other => other.hash = page.hash) =
      before.filter (fun other => other.hash = page.hash) ++
        page :: after.filter (fun other => other.hash = page.hash) := by
    rw [List.filter_append, List.filter_cons_of_pos (by simp)]
  obtain ⟨-, hrest, hapart⟩ := List.nodup_append.mp hnodup
  have hafter : page ∉ after := (List.nodup_cons.mp hrest).1
  have hbefore : page ∉ before := fun h => hapart page h page List.mem_cons_self rfl
  rw [get_collectPages, hfilter, List.getLast?_append_cons]
  constructor
  · intro hget before' after' hsplit other hother heq
    obtain ⟨-, -, rfl⟩ := (List.append_cons_inj_of_notMem hbefore hafter).mp hsplit
    have hfound : other ∈ after.filter fun other => other.hash = page.hash :=
      List.mem_filter.mpr ⟨hother, decide_eq_true heq⟩
    rw [List.getLast?_cons_of_ne_nil (List.ne_nil_of_mem hfound)] at hget
    exact hafter (List.mem_of_mem_filter (List.mem_of_getLast? hget))
  · intro hlast
    have hnone : after.filter (fun other => other.hash = page.hash) = [] := by
      refine List.filter_eq_nil_iff.mpr fun other hother => ?_
      simpa using hlast before after rfl other hother
    rw [hnone]
    rfl

end Maps

/-! ## The report -/

section Report

variable {new : List VersionPage} {allow : Bool} {confidence : Nat}

/-- INTERNAL: where one old page goes. -/
def transferred (new : List VersionPage) (allow : Bool) (confidence : Nat)
    (prior : VersionPage) : Option TransferredPage :=
  match (collectPages VersionPage.hash new).get prior.hash with
  | some current => some ⟨prior, current, .exactHash, 1000000⟩
  | none =>
    if allow then
      ((collectPages VersionPage.logical new).get prior.logical).map fun current =>
        ⟨prior, current, .logicalRemap, confidence⟩
    else none

/-- INTERNAL: how one old page is counted. -/
def countedAs (new : List VersionPage) (allow : Bool) (prior : VersionPage) :
    Option TransferKind :=
  (transferred new allow 0 prior).map TransferredPage.kind

/-- INTERNAL: the bytes of the old pages that are counted in one way. -/
def bytesOf (new : List VersionPage) (allow : Bool) (kind : Option TransferKind)
    (old : List VersionPage) : Nat :=
  (old.map fun page =>
    if countedAs new allow page = kind then page.logical.length else 0).sum

/-- INTERNAL: the counters of a report stop at the largest number. -/
structure Counts (report : TransferReport) (retained remapped invalidated : Nat) : Prop where
  retained : report.retainedBytes = min retained u64Max
  remapped : report.remappedBytes = min remapped u64Max
  invalidated : report.invalidatedBytes = min invalidated u64Max

/-- INTERNAL: one old page goes to its place in the report and is counted once. -/
theorem transferPage_step {report : TransferReport} {retained remapped invalidated : Nat}
    (h : Counts report retained remapped invalidated) (prior : VersionPage) :
    let next := transferPage (collectPages VersionPage.hash new)
      (collectPages VersionPage.logical new) allow confidence report prior
    next.pages = report.pages ++ (transferred new allow confidence prior).toList ∧
      Counts next (retained + bytesOf new allow (some .exactHash) [prior])
        (remapped + bytesOf new allow (some .logicalRemap) [prior])
        (invalidated + bytesOf new allow none [prior]) := by
  have hadd : ∀ a b : Nat, saturatingAdd (min a u64Max) b = min (a + b) u64Max := by
    intro a b
    unfold saturatingAdd
    omega
  obtain ⟨hretained, hremapped, hinvalidated⟩ := h
  dsimp only [bytesOf, countedAs, List.map_cons, List.map_nil]
  unfold transferPage transferred
  cases hhash : (collectPages VersionPage.hash new).get prior.hash with
  | some current =>
    exact ⟨rfl, by simp [hhash, hretained, hadd], by simp [hhash, hremapped],
      by simp [hhash, hinvalidated]⟩
  | none =>
    cases allow with
    | false =>
      exact ⟨by simp, by simp [hhash, hretained], by simp [hhash, hremapped],
        by simp [hhash, hinvalidated, hadd]⟩
    | true =>
      cases hlogical : (collectPages VersionPage.logical new).get prior.logical with
      | some current =>
        exact ⟨rfl, by simp [hhash, hlogical, hretained],
          by simp [hhash, hlogical, hremapped, hadd], by simp [hhash, hlogical, hinvalidated]⟩
      | none =>
        exact ⟨by simp, by simp [hhash, hlogical, hretained], by simp [hhash, hlogical, hremapped],
          by simp [hhash, hlogical, hinvalidated, hadd]⟩

/-- INTERNAL: the loop over the old pages, by induction on them. -/
theorem transferPages_report (old : List VersionPage) {report : TransferReport}
    {retained remapped invalidated : Nat} (h : Counts report retained remapped invalidated) :
    let next := old.foldl (transferPage (collectPages VersionPage.hash new)
      (collectPages VersionPage.logical new) allow confidence) report
    next.pages = report.pages ++ old.filterMap (transferred new allow confidence) ∧
      Counts next (retained + bytesOf new allow (some .exactHash) old)
        (remapped + bytesOf new allow (some .logicalRemap) old)
        (invalidated + bytesOf new allow none old) := by
  induction old generalizing report retained remapped invalidated with
  | nil => exact ⟨(List.append_nil _).symm, h⟩
  | cons prior rest ih =>
    have hcons : ∀ kind, bytesOf new allow kind (prior :: rest) =
        bytesOf new allow kind [prior] + bytesOf new allow kind rest := fun kind => by
      simp [bytesOf]
    obtain ⟨hpages, hcounts⟩ := @transferPage_step new allow confidence report _ _ _ h prior
    obtain ⟨hpages', hcounts'⟩ := ih hcounts
    refine ⟨?_, ?_⟩
    · rw [List.foldl_cons, hpages', hpages, List.append_assoc, List.filterMap_cons]
      cases transferred new allow confidence prior with
      | none => rfl
      | some found => rfl
    · simpa only [List.foldl_cons, hcons, Nat.add_assoc] using hcounts'

/-- INTERNAL: every old page is counted in one of the three ways. -/
theorem bytesOf_total (old : List VersionPage) :
    bytesOf new allow (some .exactHash) old + bytesOf new allow (some .logicalRemap) old +
      bytesOf new allow none old = (old.map fun page => page.logical.length).sum := by
  induction old with
  | nil => rfl
  | cons prior rest ih =>
    unfold bytesOf at ih ⊢
    rw [List.map_cons, List.map_cons, List.map_cons, List.map_cons, List.sum_cons, List.sum_cons,
      List.sum_cons, List.sum_cons, ← ih]
    rcases countedAs new allow prior with _ | (_ | _) <;> simp <;> omega

variable {found : TransferredPage}

theorem transferred_old {prior : VersionPage}
    (h : transferred new allow confidence prior = some found) : found.old = prior := by
  unfold transferred at h
  split at h
  · cases h
    rfl
  · split at h
    · obtain ⟨current, -, rfl⟩ := Option.map_eq_some_iff.mp h
      rfl
    · cases h

/-- INTERNAL: a transferred page has the same content, or stands where a page of a content that is
gone stood. -/
theorem transferred_new {prior : VersionPage}
    (h : transferred new allow confidence prior = some found) :
    found.new ∈ new ∧ (found.new.hash = prior.hash ∨
      (∀ page ∈ new, page.hash ≠ prior.hash) ∧ allow = true ∧
        found.new.logical = prior.logical) := by
  unfold transferred at h
  split at h
  · rename_i hget
    cases h
    obtain ⟨hmem, hhash⟩ := collectPages_mem hget
    exact ⟨hmem, Or.inl hhash⟩
  · rename_i hnone
    split at h
    · rename_i hallow
      obtain ⟨current, hget, rfl⟩ := Option.map_eq_some_iff.mp h
      obtain ⟨hmem, hlogical⟩ := collectPages_mem hget
      exact ⟨hmem, Or.inr ⟨collectPages_none hnone, hallow, hlogical⟩⟩
    · cases h

/-- INTERNAL: an unchanged page that goes to itself was found by its content. -/
theorem transferred_self (h : transferred new allow confidence found.old = some found)
    (hsame : found.new = found.old) (hkept : found.old ∈ new) :
    (collectPages VersionPage.hash new).get found.old.hash = some found.old := by
  unfold transferred at h
  split at h
  · rename_i current hget
    rw [hget, ← hsame, ← Option.some.inj h]
  · rename_i hnone
    exact absurd rfl (collectPages_none hnone _ hkept)

end Report

/-- INTERNAL: the old pages of a report are different pages of the old version, each goes to a page
that it may go to, the counters add up exactly if none of them saturates, and every unchanged page
stays exactly if no content of one is repeated behind it.
SRCLINE: mirage-predictor/src/version_transfer.rs:35-84 -/
theorem transfer_conserves_bytes {old new : List VersionPage} {allow : Bool} {confidence : Nat}
    {report : TransferReport} (hold : (old.map VersionPage.logical).Nodup)
    (hnew : (new.map VersionPage.logical).Nodup)
    (h : transfer old new allow confidence = .ok report) :
    (report.pages.map TransferredPage.old).Nodup ∧
      (∀ found ∈ report.pages, found.old ∈ old ∧ found.new ∈ new ∧
        (found.new.hash = found.old.hash ∨
          (∀ page ∈ new, page.hash ≠ found.old.hash) ∧ allow = true ∧
            found.new.logical = found.old.logical)) ∧
      (report.retainedBytes + report.remappedBytes + report.invalidatedBytes =
          (old.map fun page => page.logical.length).sum ↔
        ∀ kind, bytesOf new allow kind old ≤ u64Max) ∧
      ((∀ page ∈ old, page ∈ new → ∃ found ∈ report.pages, found.old = page ∧ found.new = page) ↔
        ∀ page ∈ old, page ∈ new → LastOfContent new page) := by
  unfold transfer at h
  obtain ⟨-, h⟩ := ensure_bind_ok.mp h
  cases h
  have hstart : Counts ⟨[], 0, 0, 0⟩ 0 0 0 := ⟨rfl, rfl, rfl⟩
  obtain ⟨hpages, hcounts⟩ := @transferPages_report new allow confidence old _ _ _ _ hstart
  rw [List.nil_append] at hpages
  rw [Nat.zero_add, Nat.zero_add, Nat.zero_add] at hcounts
  dsimp only
  rw [hpages]
  have hsorted := List.perm_insertionSort
    (fun a b : TransferredPage => a.old.logical.NotAfter b.old.logical)
    (old.filterMap (transferred new allow confidence))
  refine ⟨?_, ?_, ?_, ?_⟩
  · refine (hsorted.map TransferredPage.old).nodup_iff.mpr (List.pairwise_map.mpr ?_)
    refine (List.pairwise_map.mp hold).filterMap _ fun a a' hne b hb b' hb' heq => hne ?_
    rw [← transferred_old hb, ← transferred_old hb', heq]
  · intro found hfound
    obtain ⟨prior, hprior, hgoes⟩ := List.mem_filterMap.mp (hsorted.mem_iff.mp hfound)
    obtain rfl := transferred_old hgoes
    exact ⟨hprior, transferred_new hgoes⟩
  · have htotal := @bytesOf_total new allow old
    obtain ⟨hretained, hremapped, hinvalidated⟩ := hcounts
    rw [hretained, hremapped, hinvalidated]
    constructor
    · rintro hsum (_ | _ | _) <;> omega
    · intro hfits
      have h₁ := hfits (some .exactHash)
      have h₂ := hfits (some .logicalRemap)
      have h₃ := hfits none
      omega
  · refine forall_congr' fun page => forall_congr' fun hpage => forall_congr' fun hkept => ?_
    rw [← collectPages_last (List.Nodup.of_map _ hnew) hkept]
    constructor
    · rintro ⟨found, hfound, rfl, hsame⟩
      obtain ⟨prior, hprior, hgoes⟩ := List.mem_filterMap.mp (hsorted.mem_iff.mp hfound)
      obtain rfl := transferred_old hgoes
      exact transferred_self hgoes hsame hkept
    · intro hget
      refine ⟨⟨page, page, .exactHash, 1000000⟩, hsorted.mem_iff.mpr ?_, rfl, rfl⟩
      refine List.mem_filterMap.mpr ⟨page, hpage, ?_⟩
      unfold transferred
      rw [hget]

/-- INTERNAL: of three pages one is unchanged, one is remapped and one is gone; the counters add up
and the unchanged page stays. -/
theorem three_pages_transferred :
    ∃ report, transfer [⟨⟨1, 0, 10⟩, 5⟩, ⟨⟨1, 10, 10⟩, 6⟩, ⟨⟨2, 0, 7⟩, 9⟩]
        [⟨⟨1, 0, 10⟩, 5⟩, ⟨⟨1, 10, 10⟩, 7⟩] true 500000 = .ok report ∧
      report.retainedBytes + report.remappedBytes + report.invalidatedBytes = 27 ∧
      ∃ found ∈ report.pages, found.old = ⟨⟨1, 0, 10⟩, 5⟩ ∧ found.new = ⟨⟨1, 0, 10⟩, 5⟩ := by
  obtain ⟨report, hreport⟩ : ∃ report, transfer [⟨⟨1, 0, 10⟩, 5⟩, ⟨⟨1, 10, 10⟩, 6⟩, ⟨⟨2, 0, 7⟩, 9⟩]
      [⟨⟨1, 0, 10⟩, 5⟩, ⟨⟨1, 10, 10⟩, 7⟩] true 500000 = .ok report := ⟨_, rfl⟩
  obtain ⟨-, -, hsum, hself⟩ := transfer_conserves_bytes (by decide) (by decide) hreport
  refine ⟨report, hreport, hsum.mpr ?_, hself.mpr (fun page hpage hkept => ?_) _ (by decide)
    (by decide)⟩
  · rintro (_ | _ | _) <;> decide +kernel
  · rw [← collectPages_last (by decide) hkept]
    revert page
    decide +kernel

/-- INTERNAL: the page at offset 0 is unchanged, and its content is repeated behind it. -/
theorem repeated_content_moves :
    transfer [⟨⟨1, 0, 10⟩, 5⟩] [⟨⟨1, 0, 10⟩, 5⟩, ⟨⟨1, 10, 10⟩, 5⟩] true 500000 =
      .ok ⟨[⟨⟨⟨1, 0, 10⟩, 5⟩, ⟨⟨1, 10, 10⟩, 5⟩, .exactHash, 1000000⟩], 10, 0, 0⟩ := by
  decide +kernel

end Mirage.Analysis
