import Mirage.Model.Capsule

/-!
# Capsules stay in their budget

Where the byte counts fit a `u64`, every round of the optimizer adds a cluster that fits what is
left, and it ends when no remaining cluster with new pages fits.  The products of page counts and
page sizes are not checked: with pages of `2 ^ 63` bytes two pages cost nothing.  The run and the
run in exact arithmetic are the same up to the first sum that does not fit, so whether one wraps
around can be read off the exact run.
-/

set_option autoImplicit false

namespace Mirage.Analysis

open Mirage.Computation Mirage.Model

/-! ## One pass -/

section Pass

variable {input : OptimizerInput} {pages : RoaringBitmap}

/-- INTERNAL: what a pass can choose: a cluster that costs nothing or that fits. -/
def CanChoose (input : OptimizerInput) (pages : RoaringBitmap) (cluster : CandidateCluster) :
    Prop :=
  input.cost pages cluster = 0 ∨ input.extended pages cluster ≤ input.usable

variable {best : Option BestCandidate} {remaining : List (CandidateCluster × Nat)}

theorem bestCandidate_canChoose {b : BestCandidate}
    (hbest : ∀ b ∈ best, CanChoose input pages b.cluster)
    (h : bestCandidate input pages best remaining = some b) : CanChoose input pages b.cluster := by
  induction remaining generalizing best with
  | nil => exact hbest b h
  | cons entry rest ih =>
    obtain ⟨cluster, index⟩ := entry
    rw [bestCandidate] at h
    split at h
    · rename_i hcost
      split at h
      · cases h
        exact Or.inl hcost
      · exact ih hbest h
    · split at h
      · exact ih hbest h
      · rename_i hfits
        dsimp only at h
        split at h
        · refine ih ?_ h
          intro found hfound
          cases hfound
          exact Or.inr (Nat.le_of_not_lt hfits)
        · exact ih hbest h

/-- INTERNAL: a pass that returns nothing found no cluster with new pages that fits. -/
theorem bestCandidate_none (h : bestCandidate input pages best remaining = none) :
    best = none ∧ ∀ entry ∈ remaining, input.cost pages entry.1 = 0 ∨
      input.usable < input.extended pages entry.1 := by
  induction remaining generalizing best with
  | nil => exact ⟨h, fun entry hentry => absurd hentry List.not_mem_nil⟩
  | cons entry rest ih =>
    obtain ⟨cluster, index⟩ := entry
    rw [bestCandidate] at h
    split at h
    · rename_i hcost
      split at h
      · cases h
      · obtain ⟨hbest, hrest⟩ := ih h
        exact ⟨hbest, List.forall_mem_cons.mpr ⟨Or.inl hcost, hrest⟩⟩
    · split at h
      · rename_i hfull
        obtain ⟨hbest, hrest⟩ := ih h
        exact ⟨hbest, List.forall_mem_cons.mpr ⟨Or.inr hfull, hrest⟩⟩
      · dsimp only at h
        split at h
        · cases (ih h).1
        · rename_i hbelow
          obtain ⟨rfl, -⟩ := ih h
          exact absurd (fun b hb => by cases hb) hbelow

/-- INTERNAL: the entries that a pass looks at: it stops at one of value without new pages. -/
def examined (pages : RoaringBitmap) : List (CandidateCluster × Nat) → List (CandidateCluster × Nat)
  | [] => []
  | entry :: rest =>
    if entry.1.pages ⊆ pages ∧ entry.1.valueMillionths > 0 then [entry]
    else entry :: examined pages rest

theorem examined_subset (pages : RoaringBitmap) (remaining : List (CandidateCluster × Nat)) :
    examined pages remaining ⊆ remaining := by
  induction remaining with
  | nil => exact List.Subset.refl _
  | cons entry rest ih =>
    rw [examined]
    split_ifs
    · exact List.cons_subset_cons entry (List.nil_subset rest)
    · exact List.cons_subset_cons entry ih

/-- INTERNAL: a pass depends on the costs and sums of the entries it looks at. -/
theorem bestCandidate_congr {input' : OptimizerInput} (husable : input.usable = input'.usable)
    (hfree : ∀ cluster : CandidateCluster, cluster.pages ⊆ pages → input'.cost pages cluster = 0)
    (h : ∀ entry ∈ examined pages remaining, input.cost pages entry.1 = input'.cost pages entry.1 ∧
      input.extended pages entry.1 = input'.extended pages entry.1) :
    bestCandidate input pages best remaining = bestCandidate input' pages best remaining := by
  induction remaining generalizing best with
  | nil => rfl
  | cons entry rest ih =>
    rw [examined] at h
    split_ifs at h with hstop
    · obtain ⟨hcost, -⟩ := h entry List.mem_cons_self
      rw [hfree entry.1 hstop.1] at hcost
      simp only [bestCandidate, hcost, hfree entry.1 hstop.1, hstop.2, if_true]
    · obtain ⟨⟨hcost, hextended⟩, hrest⟩ := List.forall_mem_cons.mp h
      simp only [bestCandidate, hcost, hextended, husable, ih hrest]

/-- INTERNAL: the rounds that a run comes to. -/
inductive Reached (input : OptimizerInput) (pages : RoaringBitmap)
    (remaining : List (CandidateCluster × Nat)) :
    RoaringBitmap → List (CandidateCluster × Nat) → Prop
  | start : Reached input pages remaining pages remaining
  | next {pages' : RoaringBitmap} {remaining' : List (CandidateCluster × Nat)}
      {best : BestCandidate} : Reached input pages remaining pages' remaining' →
      bestCandidate input pages' none remaining' = some best →
      Reached input pages remaining (pages' ∪ best.cluster.pages)
        (dropIndex best.index remaining')

variable {pages' : RoaringBitmap} {remaining' : List (CandidateCluster × Nat)}

theorem Reached.head {best : BestCandidate}
    (hbest : bestCandidate input pages none remaining = some best)
    (h : Reached input (pages ∪ best.cluster.pages) (dropIndex best.index remaining) pages'
      remaining') : Reached input pages remaining pages' remaining' := by
  induction h with
  | start => exact .next .start hbest
  | next _ hnext ih => exact .next ih hnext

/-- INTERNAL: two runs come to the same rounds where their passes agree in those of one. -/
theorem Reached.congr {input' : OptimizerInput}
    (hagree : ∀ pages' remaining', Reached input pages remaining pages' remaining' →
      bestCandidate input' pages' none remaining' = bestCandidate input pages' none remaining')
    (h : Reached input' pages remaining pages' remaining') :
    Reached input pages remaining pages' remaining' := by
  induction h with
  | start => exact .start
  | next _ hnext ih => exact .next ih ((hagree _ _ ih).symm.trans hnext)

theorem selectClusters_none {selected : List Nat}
    (h : bestCandidate input pages none remaining = none) :
    selectClusters input pages selected remaining = (pages, selected) := by
  rw [selectClusters]
  split
  · rfl
  · rename_i hbest
    rw [h] at hbest
    cases hbest

theorem selectClusters_some {selected : List Nat} {best : BestCandidate}
    (h : bestCandidate input pages none remaining = some best) :
    selectClusters input pages selected remaining =
      selectClusters input (pages ∪ best.cluster.pages) (selected ++ [best.cluster.id])
        (dropIndex best.index remaining) := by
  rw [selectClusters]
  split
  · rename_i hnone
    rw [h] at hnone
    cases hnone
  · rename_i hbest
    rw [h] at hbest
    cases hbest
    rfl

theorem selectClusters_congr {input' : OptimizerInput} {selected : List Nat}
    (hagree : ∀ pages' remaining', Reached input pages remaining pages' remaining' →
      bestCandidate input' pages' none remaining' = bestCandidate input pages' none remaining') :
    selectClusters input' pages selected remaining =
      selectClusters input pages selected remaining := by
  induction hn : remaining.length using Nat.strong_induction_on
    generalizing pages selected remaining with
  | _ n ih =>
    subst hn
    have hpass := hagree pages remaining .start
    cases hbest : bestCandidate input pages none remaining with
    | none => rw [selectClusters_none (hpass.trans hbest), selectClusters_none hbest]
    | some best =>
      have hmem := (bestCandidate_mem hbest).resolve_left (by simp)
      rw [selectClusters_some (hpass.trans hbest), selectClusters_some hbest]
      exact ih _ (length_dropIndex hmem) (fun _ _ h => hagree _ _ (h.head hbest)) rfl

end Pass

/-! ## The rounds -/

section Rounds

variable {mandatory pages : RoaringBitmap} {pageSize usable : Nat} {selected : List Nat}
  {remaining : List (CandidateCluster × Nat)}

/-- INTERNAL: the input of a run over an arithmetic. -/
def inputOf (wrap : Nat → Nat) (mandatory : RoaringBitmap) (pageSize usable : Nat) :
    OptimizerInput :=
  ⟨wrap, mandatory, pageSize, mandatory.card * pageSize, usable⟩

/-- INTERNAL: the pages of a round: the mandatory ones are among them and they fit. -/
structure InBudget (mandatory : RoaringBitmap) (pageSize usable : Nat) (pages : RoaringBitmap) :
    Prop where
  mandatory : mandatory ⊆ pages
  fits : pages.card * pageSize ≤ usable

theorem cost_exact (cluster : CandidateCluster) :
    (inputOf id mandatory pageSize usable).cost pages cluster =
      (cluster.pages \ pages).card * pageSize := rfl

theorem extended_exact (hpages : mandatory ⊆ pages) (cluster : CandidateCluster) :
    (inputOf id mandatory pageSize usable).extended pages cluster =
      (pages ∪ cluster.pages).card * pageSize := by
  have hle := Finset.card_le_card hpages
  calc (inputOf id mandatory pageSize usable).extended pages cluster
      = mandatory.card * pageSize + (pages.card - mandatory.card) * pageSize +
          (cluster.pages \ pages).card * pageSize := rfl
    _ = (pages.card + (cluster.pages \ pages).card) * pageSize := by
        rw [← Nat.add_mul, ← Nat.add_mul, Nat.add_sub_cancel' hle]
    _ = (pages ∪ cluster.pages).card * pageSize := by
        rw [Nat.add_comm, Finset.card_sdiff_add_card, Finset.union_comm]

/-- INTERNAL: the product and the sums that a pass computes of a cluster do not wrap around. -/
def ExactAt (mandatory : RoaringBitmap) (pageSize usable : Nat) (pages : RoaringBitmap)
    (cluster : CandidateCluster) : Prop :=
  (inputOf (· % 2 ^ 64) mandatory pageSize usable).cost pages cluster =
      (inputOf id mandatory pageSize usable).cost pages cluster ∧
    (inputOf (· % 2 ^ 64) mandatory pageSize usable).extended pages cluster =
      (inputOf id mandatory pageSize usable).extended pages cluster

/-- INTERNAL: within the budget that is said by the bytes of the pages with the cluster. -/
theorem exactAt_iff (h : InBudget mandatory pageSize usable pages) (husable : usable ≤ u64Max)
    (cluster : CandidateCluster) : ExactAt mandatory pageSize usable pages cluster ↔
      (pages ∪ cluster.pages).card * pageSize < 2 ^ 64 := by
  constructor
  · intro hexact
    rw [← extended_exact h.mandatory, ← hexact.2]
    exact Nat.mod_lt _ (Nat.two_pow_pos 64)
  · intro hfit
    have hmandatory := Finset.card_le_card h.mandatory
    have hpages : mandatory.card * pageSize + (pages.card - mandatory.card) * pageSize =
        pages.card * pageSize := by
      rw [← Nat.add_mul, Nat.add_sub_cancel' hmandatory]
    have hnew : (pages ∪ cluster.pages).card * pageSize =
        pages.card * pageSize + (cluster.pages \ pages).card * pageSize := by
      rw [← Nat.add_mul, Nat.add_comm pages.card, Finset.card_sdiff_add_card, Finset.union_comm]
    have hfits := h.fits
    unfold u64Max at husable
    have hcost : (inputOf (· % 2 ^ 64) mandatory pageSize usable).cost pages cluster =
        (cluster.pages \ pages).card * pageSize :=
      Nat.mod_eq_of_lt (show (cluster.pages \ pages).card * pageSize < 2 ^ 64 by omega)
    refine ⟨hcost, ?_⟩
    unfold OptimizerInput.extended
    rw [hcost, cost_exact]
    dsimp only [inputOf, id]
    rw [Nat.mod_eq_of_lt (by omega : (pages.card - mandatory.card) * pageSize < 2 ^ 64),
      Nat.mod_eq_of_lt (by omega), Nat.mod_eq_of_lt (by omega)]

/-- INTERNAL: in a round where nothing wraps around the pass is that of exact arithmetic. -/
theorem bestCandidate_exact
    (h : ∀ entry ∈ examined pages remaining, ExactAt mandatory pageSize usable pages entry.1) :
    bestCandidate (inputOf (· % 2 ^ 64) mandatory pageSize usable) pages none remaining =
      bestCandidate (inputOf id mandatory pageSize usable) pages none remaining := by
  refine bestCandidate_congr rfl (fun cluster hsubset => ?_) h
  rw [cost_exact, Finset.sdiff_eq_empty_iff_subset.mpr hsubset, Finset.card_empty, Nat.zero_mul]

/-- INTERNAL: a cluster that a pass chooses leaves the pages in the budget. -/
theorem InBudget.extend (h : InBudget mandatory pageSize usable pages) (hsize : 0 < pageSize)
    {cluster : CandidateCluster}
    (hfits : CanChoose (inputOf id mandatory pageSize usable) pages cluster) :
    InBudget mandatory pageSize usable (pages ∪ cluster.pages) := by
  refine ⟨h.mandatory.trans Finset.subset_union_left, ?_⟩
  rcases hfits with hfree | hfits
  · have hnone : cluster.pages \ pages = ∅ := by
      rw [cost_exact] at hfree
      exact Finset.card_eq_zero.mp ((Nat.mul_eq_zero.mp hfree).resolve_right hsize.ne')
    rw [Finset.union_eq_left.mpr (Finset.sdiff_eq_empty_iff_subset.mp hnone)]
    exact h.fits
  · rw [extended_exact h.mandatory] at hfits
    exact hfits

variable {entry : CandidateCluster × Nat} {candidates : List CandidateCluster}
  {chosen : List (CandidateCluster × Nat)}

theorem reached_inBudget (hsize : 0 < pageSize) (h : InBudget mandatory pageSize usable mandatory)
    (hreached : Reached (inputOf id mandatory pageSize usable) mandatory remaining pages chosen) :
    InBudget mandatory pageSize usable pages := by
  induction hreached with
  | start => exact h
  | next _ hbest ih =>
    exact ih.extend hsize (bestCandidate_canChoose (fun _ hnone => by cases hnone) hbest)

/-- INTERNAL: every page of a round is mandatory or of a candidate. -/
theorem reached_subset {input : OptimizerInput} {all : RoaringBitmap} (hmandatory : mandatory ⊆ all)
    (hall : ∀ entry ∈ remaining, entry.1.pages ⊆ all)
    (h : Reached input mandatory remaining pages chosen) : pages ⊆ all ∧ chosen ⊆ remaining := by
  induction h with
  | start => exact ⟨hmandatory, List.Subset.refl _⟩
  | next _ hbest ih =>
    have hmem := (bestCandidate_mem hbest).resolve_left (by simp)
    exact ⟨Finset.union_subset ih.1 (hall _ (ih.2 hmem)),
      List.Subset.trans (List.filter_subset_self _) ih.2⟩

/-- INTERNAL: the clusters that were chosen, next to the remaining ones. -/
structure Chosen (candidates : List CandidateCluster) (mandatory pages : RoaringBitmap)
    (selected : List Nat) (chosen remaining : List (CandidateCluster × Nat)) : Prop where
  parts : (chosen ++ remaining).Perm candidates.zipIdx
  pages : ∀ page, page ∈ pages ↔ page ∈ mandatory ∨ ∃ entry ∈ chosen, page ∈ entry.1.pages
  selected : selected = chosen.map fun entry => entry.1.id

theorem perm_dropIndex (hdistinct : (remaining.map Prod.snd).Nodup) (h : entry ∈ remaining) :
    remaining.Perm (entry :: dropIndex entry.2 remaining) := by
  induction remaining with
  | nil => cases h
  | cons first rest ih =>
    rw [List.map_cons, List.nodup_cons] at hdistinct
    unfold dropIndex at ih ⊢
    rcases List.mem_cons.mp h with rfl | hrest
    · rw [List.filter_cons_of_neg (by simp), List.filter_eq_self.mpr]
      intro other hother
      have hne : other.2 ≠ entry.2 := fun heq =>
        hdistinct.1 (heq ▸ List.mem_map_of_mem hother)
      simpa using hne
    · have hne : first.2 ≠ entry.2 := fun heq =>
        hdistinct.1 (heq ▸ List.mem_map_of_mem hrest)
      rw [List.filter_cons_of_pos (by simpa using hne)]
      exact ((ih hdistinct.2 hrest).cons first).trans (List.Perm.swap _ _ _)

theorem Chosen.distinct (h : Chosen candidates mandatory pages selected chosen remaining) :
    (remaining.map Prod.snd).Nodup := by
  have hall : ((chosen ++ remaining).map Prod.snd).Nodup :=
    (h.parts.map Prod.snd).nodup_iff.mpr (by rw [List.zipIdx_map_snd]; exact List.nodup_range')
  rw [List.map_append] at hall
  exact (List.nodup_append.mp hall).2.1

theorem Chosen.choose (h : Chosen candidates mandatory pages selected chosen remaining)
    (hentry : entry ∈ remaining) :
    Chosen candidates mandatory (pages ∪ entry.1.pages) (selected ++ [entry.1.id])
      (chosen ++ [entry]) (dropIndex entry.2 remaining) := by
  refine ⟨?_, ?_, by rw [h.selected, List.map_append]; rfl⟩
  · rw [List.append_assoc]
    exact ((perm_dropIndex h.distinct hentry).symm.append_left chosen).trans h.parts
  · intro page
    rw [Finset.mem_union, h.pages page, or_assoc]
    refine or_congr_right ?_
    simp only [List.mem_append, List.mem_singleton, or_and_right, exists_or, exists_eq_left]

/-- INTERNAL: at the end the pages are in the budget and nothing that remains fits. -/
theorem selectClusters_ends (hsize : 0 < pageSize) (h : InBudget mandatory pageSize usable pages)
    (hchosen : Chosen candidates mandatory pages selected chosen remaining) :
    let found := selectClusters (inputOf id mandatory pageSize usable) pages selected remaining
    InBudget mandatory pageSize usable found.1 ∧ ∃ chosen' remaining',
      Chosen candidates mandatory found.1 found.2 chosen' remaining' ∧
      ∀ entry ∈ remaining', entry.1.pages ⊆ found.1 ∨
        usable < (found.1 ∪ entry.1.pages).card * pageSize := by
  induction hn : remaining.length using Nat.strong_induction_on
    generalizing pages selected chosen remaining with
  | _ n ih =>
    subst hn
    intro found
    cases hbest : bestCandidate (inputOf id mandatory pageSize usable) pages none remaining with
    | none =>
      have hfound : found = (pages, selected) := selectClusters_none hbest
      rw [hfound]
      refine ⟨h, chosen, remaining, hchosen, fun entry hentry => ?_⟩
      rcases (bestCandidate_none hbest).2 entry hentry with hfree | hfull
      · left
        rw [cost_exact] at hfree
        have hnone := Finset.card_eq_zero.mp ((Nat.mul_eq_zero.mp hfree).resolve_right hsize.ne')
        exact Finset.sdiff_eq_empty_iff_subset.mp hnone
      · right
        rw [extended_exact h.mandatory] at hfull
        exact hfull
    | some best =>
      have hmem := (bestCandidate_mem hbest).resolve_left (by simp)
      have hfits := bestCandidate_canChoose (fun _ hnone => by cases hnone) hbest
      have hfound : found = _ := selectClusters_some hbest
      rw [hfound]
      exact ih _ (length_dropIndex hmem) (h.extend hsize hfits) (hchosen.choose hmem) rfl

end Rounds

/-! ## The optimizer -/

section Optimize

variable {mandatory : RoaringBitmap} {candidates : List CandidateCluster}
  {pageSize budget reserve : Nat}

theorem optimizeWith_ok {wrap : Nat → Nat} {found : Optimization}
    (h : optimizeWith wrap mandatory candidates pageSize budget reserve = .ok found) :
    isPowerOfTwo pageSize ∧ InBudget mandatory pageSize (budget - reserve) mandatory ∧
      ∃ pages selected, selectClusters (inputOf wrap mandatory pageSize (budget - reserve))
          mandatory [] candidates.zipIdx = (pages, selected) ∧
        found = ⟨pages, selected.insertionSort (· ≤ ·), wrap (pages.card * pageSize), budget⟩ := by
  unfold optimizeWith at h
  obtain ⟨hpower, h⟩ := ensure_bind_ok.mp h
  obtain ⟨-, h⟩ := ensure_bind_ok.mp h
  obtain ⟨-, h⟩ := ensure_bind_ok.mp h
  obtain ⟨hmandatory, h⟩ := ensure_bind_ok.mp h
  cases h
  exact ⟨hpower, ⟨Finset.Subset.refl _, hmandatory⟩, _, _, rfl, rfl⟩

/-- INTERNAL: the checks in front of the rounds pass. -/
structure Enters (mandatory : RoaringBitmap) (pageSize budget reserve : Nat) : Prop where
  power : isPowerOfTwo pageSize
  reserved : reserve ≤ budget
  fits : mandatory.card * pageSize ≤ budget - reserve

/-- INTERNAL: nothing that the rounds compute wraps around. -/
def NoWrap (mandatory : RoaringBitmap) (candidates : List CandidateCluster)
    (pageSize budget reserve : Nat) : Prop :=
  Enters mandatory pageSize budget reserve → ∀ pages remaining,
    Reached (inputOf (· % 2 ^ 64) mandatory pageSize (budget - reserve)) mandatory
        candidates.zipIdx pages remaining →
      ∀ entry ∈ examined pages remaining,
        ExactAt mandatory pageSize (budget - reserve) pages entry.1

/-- INTERNAL: in exact arithmetic the bytes of the pages with any cluster that a round looks at
fit a `u64`. -/
def RoundsFit (mandatory : RoaringBitmap) (candidates : List CandidateCluster)
    (pageSize budget reserve : Nat) : Prop :=
  Enters mandatory pageSize budget reserve → ∀ pages remaining,
    Reached (inputOf id mandatory pageSize (budget - reserve)) mandatory candidates.zipIdx pages
        remaining →
      ∀ entry ∈ examined pages remaining, (pages ∪ entry.1.pages).card * pageSize < 2 ^ 64

theorem roundsFit_of_union {all : RoaringBitmap} (hmandatory : mandatory ⊆ all)
    (hall : ∀ cluster ∈ candidates, cluster.pages ⊆ all) (hfit : all.card * pageSize < 2 ^ 64) :
    RoundsFit mandatory candidates pageSize budget reserve := by
  intro _ pages remaining hreached entry hentry
  have hentries (entry : CandidateCluster × Nat) (h : entry ∈ candidates.zipIdx) :
      entry.1.pages ⊆ all := hall entry.1 (List.fst_mem_of_mem_zipIdx h)
  obtain ⟨hpages, hremaining⟩ := reached_subset hmandatory hentries hreached
  have hunion := Finset.union_subset hpages
    (hentries entry (hremaining (examined_subset pages remaining hentry)))
  exact (Nat.mul_le_mul_right pageSize (Finset.card_le_card hunion)).trans_lt hfit

theorem Enters.inBudget (h : Enters mandatory pageSize budget reserve) :
    InBudget mandatory pageSize (budget - reserve) mandatory :=
  ⟨Finset.Subset.refl _, h.fits⟩

/-- INTERNAL: the two runs come to the same rounds up to the first sum that wraps around. -/
theorem noWrap_iff (hbudget : budget ≤ u64Max) :
    NoWrap mandatory candidates pageSize budget reserve ↔
      RoundsFit mandatory candidates pageSize budget reserve := by
  have husable : budget - reserve ≤ u64Max := (Nat.sub_le _ _).trans hbudget
  constructor
  · intro hwrap henters pages remaining hreached entry hentry
    have hsame := hreached.congr fun _ _ h => (bestCandidate_exact (hwrap henters _ _ h)).symm
    have hin := reached_inBudget (Nat.pos_of_ne_zero henters.power.1) henters.inBudget hreached
    exact (exactAt_iff hin husable entry.1).mp (hwrap henters pages remaining hsame entry hentry)
  · intro hfit henters pages remaining hreached entry hentry
    have hexact (pages : RoaringBitmap) (remaining : List (CandidateCluster × Nat))
        (h : Reached (inputOf id mandatory pageSize (budget - reserve)) mandatory
          candidates.zipIdx pages remaining) (entry : CandidateCluster × Nat)
        (hentry : entry ∈ examined pages remaining) :
        ExactAt mandatory pageSize (budget - reserve) pages entry.1 :=
      (exactAt_iff (reached_inBudget (Nat.pos_of_ne_zero henters.power.1) henters.inBudget h)
        husable entry.1).mpr (hfit henters pages remaining h entry hentry)
    have hsame := hreached.congr fun _ _ h => bestCandidate_exact (hexact _ _ h)
    exact hexact pages remaining hsame entry hentry

/-- INTERNAL: nothing wraps around exactly where the sums of the exact run fit a `u64`.  Then the
optimizer is the one in exact arithmetic, its result is made of the mandatory pages and the chosen
clusters, stays in the budget, and no other cluster with new pages fits.
SRCLINE: mirage-predictor/src/optimizer.rs:19-82 -/
theorem capsule_in_budget (hbudget : budget ≤ u64Max) :
    (NoWrap mandatory candidates pageSize budget reserve ↔
      RoundsFit mandatory candidates pageSize budget reserve) ∧
    (RoundsFit mandatory candidates pageSize budget reserve →
      optimize mandatory candidates pageSize budget reserve =
          optimizeWith id mandatory candidates pageSize budget reserve ∧
        ∀ found, optimize mandatory candidates pageSize budget reserve = .ok found →
          ∃ chosen remaining : List (CandidateCluster × Nat),
            (chosen ++ remaining).Perm candidates.zipIdx ∧
            found.selectedClusters.Perm (chosen.map fun entry => entry.1.id) ∧
            (∀ page, page ∈ found.pages ↔
              page ∈ mandatory ∨ ∃ entry ∈ chosen, page ∈ entry.1.pages) ∧
            found.usedBytes = found.pages.card * pageSize ∧
            found.usedBytes ≤ budget - reserve ∧
            ∀ entry ∈ remaining, entry.1.pages ⊆ found.pages ∨
              budget - reserve < (found.pages ∪ entry.1.pages).card * pageSize) := by
  refine ⟨noWrap_iff hbudget, fun hfit => ?_⟩
  have hstart : Chosen candidates mandatory mandatory [] [] candidates.zipIdx :=
    ⟨List.Perm.refl _, by simp, rfl⟩
  have hexact : optimize mandatory candidates pageSize budget reserve =
      optimizeWith id mandatory candidates pageSize budget reserve := by
    refine ensure_bind_congr fun hpower => ensure_bind_congr fun hreserve =>
      ensure_bind_congr fun _ => ensure_bind_congr fun hmandatory => ?_
    have henters : Enters mandatory pageSize budget reserve := ⟨hpower, hreserve, hmandatory⟩
    have hsize := Nat.pos_of_ne_zero hpower.1
    have hwrap := @selectClusters_congr _ _ _ _ [] fun _ _ h => (bestCandidate_exact
      ((noWrap_iff hbudget).mpr hfit henters _ _ h)).symm
    have hends := (selectClusters_ends hsize henters.inBudget hstart).1.fits
    unfold inputOf at hwrap hends
    unfold u64Max at hbudget
    dsimp only
    rw [← hwrap, Nat.mod_eq_of_lt (by omega)]
    rfl
  refine ⟨hexact, fun found hfound => ?_⟩
  rw [hexact] at hfound
  obtain ⟨hpower, hbegin, pages, selected, hselect, rfl⟩ := optimizeWith_ok hfound
  have hends := selectClusters_ends (Nat.pos_of_ne_zero hpower.1) hbegin hstart
  rw [hselect] at hends
  obtain ⟨hin, chosen, remaining, hchosen, hrest⟩ := hends
  refine ⟨chosen, remaining, hchosen.parts, ?_, hchosen.pages, rfl, hin.fits, hrest⟩
  rw [← hchosen.selected]
  exact List.perm_insertionSort _ _

/-- INTERNAL: two clusters that overlap, in the largest budget there is. -/
theorem two_clusters_in_budget :
    ∃ found, optimize {0} [⟨7, {0, 1}, 5⟩, ⟨8, {1, 2, 3}, 9⟩] 4096 u64Max 0 = .ok found ∧
      found.selectedClusters = [7, 8] ∧ found.usedBytes = found.pages.card * 4096 ∧
      found.usedBytes ≤ u64Max := by
  have hfound : optimize {0} [⟨7, {0, 1}, 5⟩, ⟨8, {1, 2, 3}, 9⟩] 4096 u64Max 0 =
      .ok ⟨{0, 1, 2, 3}, [7, 8], 16384, u64Max⟩ := by decide +kernel
  have hfit : RoundsFit {0} [⟨7, {0, 1}, 5⟩, ⟨8, {1, 2, 3}, 9⟩] 4096 u64Max 0 :=
    roundsFit_of_union (by decide : _ ⊆ ({0, 1, 2, 3} : RoaringBitmap)) (by decide) (by decide)
  obtain ⟨-, hall⟩ := (capsule_in_budget (Nat.le_refl _)).2 hfit
  obtain ⟨-, -, -, -, -, hused, hle, -⟩ := hall _ hfound
  exact ⟨_, hfound, rfl, hused, hle⟩

/-- INTERNAL: the cost of two pages of `2 ^ 63` bytes wraps around to nothing. -/
theorem two_large_pages_cost_nothing :
    optimize ∅ [⟨7, {0, 1}, 1⟩] (2 ^ 63) (2 ^ 63) 0 = .ok ⟨{0, 1}, [7], 0, 2 ^ 63⟩ := by
  decide +kernel

end Optimize

end Mirage.Analysis
