import Mathlib.Data.Finset.Sort
import Mirage.Model.Pack

/-!
# Capsules

The greedy choice of clusters in `mirage-predictor/src/optimizer.rs`, the plans of
`mirage-predictor/src/capsule.rs` and their reading back in
`mirage-service/src/runtime/planning.rs`.  A `RoaringBitmap` is the set of its page numbers, and
is iterated in ascending order.
-/

set_option autoImplicit false

namespace Mirage.Model

open Mirage.Computation

/-- INTERNAL: a set of `u32`. -/
abbrev RoaringBitmap := Finset (Fin (2 ^ 32))

/-! ## The optimizer -/

/-- INTERNAL: SRCLINE: mirage-predictor/src/optimizer.rs:6-10 -/
structure CandidateCluster where
  id : Nat
  pages : RoaringBitmap
  valueMillionths : Nat
  deriving DecidableEq

/-- INTERNAL: SRCLINE: mirage-predictor/src/optimizer.rs:12-17 -/
structure Optimization where
  pages : RoaringBitmap
  selectedClusters : List Nat
  usedBytes : Nat
  budgetBytes : Nat
  deriving DecidableEq

/-- INTERNAL: the best candidate of a pass so far, with its key. -/
structure BestCandidate where
  cluster : CandidateCluster
  index : Nat
  score : Nat
  value : Nat
  tie : Nat
  deriving DecidableEq

/-- INTERNAL: the order of the keys as tuples. -/
def BestCandidate.Below (best : BestCandidate) (score value tie : Nat) : Prop :=
  best.score < score ∨ best.score = score ∧
    (best.value < value ∨ best.value = value ∧ best.tie < tie)

instance (best : BestCandidate) (score value tie : Nat) :
    Decidable (best.Below score value tie) := by
  unfold BestCandidate.Below
  infer_instance

/-- INTERNAL: what a run of the optimizer keeps fixed.  `wrap` is what a `u64` makes of a sum or
a product. -/
structure OptimizerInput where
  wrap : Nat → Nat
  mandatory : RoaringBitmap
  pageSize : Nat
  mandatoryBytes : Nat
  usable : Nat

/-- INTERNAL: the bytes of the pages that a cluster adds. -/
def OptimizerInput.cost (input : OptimizerInput) (pages : RoaringBitmap)
    (cluster : CandidateCluster) : Nat :=
  input.wrap ((cluster.pages \ pages).card * input.pageSize)

/-- INTERNAL: the bytes of the pages together with those of a cluster. -/
def OptimizerInput.extended (input : OptimizerInput) (pages : RoaringBitmap)
    (cluster : CandidateCluster) : Nat :=
  input.wrap (input.wrap (input.mandatoryBytes +
    input.wrap ((pages.card - input.mandatory.card) * input.pageSize)) + input.cost pages cluster)

/-- INTERNAL: one pass over the remaining candidates, which stand here with their indices.
SRCLINE: mirage-predictor/src/optimizer.rs:45-68 -/
def bestCandidate (input : OptimizerInput) (pages : RoaringBitmap) :
    Option BestCandidate → List (CandidateCluster × Nat) → Option BestCandidate
  | best, [] => best
  | best, (cluster, index) :: rest =>
    if input.cost pages cluster = 0 then
      if cluster.valueMillionths > 0 then
        some ⟨cluster, index, u64Max, cluster.valueMillionths, 0⟩
      else bestCandidate input pages best rest
    else if input.extended pages cluster > input.usable then bestCandidate input pages best rest
    else
      let score := min (cluster.valueMillionths * 1000000) u64Max / input.cost pages cluster
      let tie := u64Max - cluster.id
      if ∀ b ∈ best, b.Below score cluster.valueMillionths tie then
        bestCandidate input pages
          (some ⟨cluster, index, score, cluster.valueMillionths, tie⟩) rest
      else bestCandidate input pages best rest

theorem bestCandidate_mem {input : OptimizerInput} {pages : RoaringBitmap}
    {best : Option BestCandidate} {remaining : List (CandidateCluster × Nat)} {b : BestCandidate}
    (h : bestCandidate input pages best remaining = some b) :
    best = some b ∨ (b.cluster, b.index) ∈ remaining := by
  induction remaining generalizing best with
  | nil => exact Or.inl h
  | cons entry rest ih =>
    obtain ⟨cluster, index⟩ := entry
    have hrest : ∀ {best : Option BestCandidate}, bestCandidate input pages best rest = some b →
        best = some b ∨ (b.cluster, b.index) ∈ (cluster, index) :: rest :=
      fun h => (ih h).imp_right (List.mem_cons_of_mem _)
    rw [bestCandidate] at h
    split at h
    · split at h
      · cases h
        exact Or.inr List.mem_cons_self
      · exact hrest h
    · split at h
      · exact hrest h
      · dsimp only at h
        split at h
        · rcases hrest h with heq | hmem
          · cases heq
            exact Or.inr List.mem_cons_self
          · exact Or.inr hmem
        · exact hrest h

/-- INTERNAL: `remaining.remove(&index)`. -/
def dropIndex (index : Nat) (remaining : List (CandidateCluster × Nat)) :
    List (CandidateCluster × Nat) :=
  remaining.filter fun entry => entry.2 ≠ index

theorem length_dropIndex {entry : CandidateCluster × Nat}
    {remaining : List (CandidateCluster × Nat)} (h : entry ∈ remaining) :
    (dropIndex entry.2 remaining).length < remaining.length := by
  unfold dropIndex
  rw [List.length_filter_lt_length_iff_exists]
  exact ⟨entry, h, by simp⟩

/-- INTERNAL: the rounds of the choice: the pages, and the ids in the order of their choice.
SRCLINE: mirage-predictor/src/optimizer.rs:44-73 -/
def selectClusters (input : OptimizerInput) (pages : RoaringBitmap) (selected : List Nat)
    (remaining : List (CandidateCluster × Nat)) : RoaringBitmap × List Nat :=
  match _h : bestCandidate input pages none remaining with
  | none => (pages, selected)
  | some best =>
    selectClusters input (pages ∪ best.cluster.pages) (selected ++ [best.cluster.id])
      (dropIndex best.index remaining)
termination_by remaining.length
decreasing_by
  rcases bestCandidate_mem _h with heq | hmem
  · cases heq
  · exact length_dropIndex hmem

/-- INTERNAL: the optimizer over an arithmetic; the products that are not checked go through
`wrap`.
SRCLINE: mirage-predictor/src/optimizer.rs:19-82 -/
def optimizeWith (wrap : Nat → Nat) (mandatory : RoaringBitmap)
    (candidates : List CandidateCluster) (pageSize budgetBytes reserveBytes : Nat) :
    Except MirageError Optimization := do
  ensure (isPowerOfTwo pageSize) (.invalidArgument "invalid capsule page size")
  ensure (reserveBytes ≤ budgetBytes)
    (.cacheFull "cache budget is smaller than required reserve")
  let usable := budgetBytes - reserveBytes
  let mandatoryBytes := mandatory.card * pageSize
  ensure (mandatoryBytes ≤ u64Max) (.invalidArgument "mandatory byte count overflows")
  ensure (mandatoryBytes ≤ usable)
    (.cacheFull ("mandatory capsule requires " ++ toString mandatoryBytes ++ " bytes"))
  let (pages, selected) :=
    selectClusters ⟨wrap, mandatory, pageSize, mandatoryBytes, usable⟩ mandatory []
      candidates.zipIdx
  pure
    { pages := pages
      selectedClusters := selected.insertionSort (· ≤ ·)
      usedBytes := wrap (pages.card * pageSize)
      budgetBytes := budgetBytes }

/-- INTERNAL: `u64` arithmetic of a release build. -/
def optimize : RoaringBitmap → List CandidateCluster → Nat → Nat → Nat →
    Except MirageError Optimization :=
  optimizeWith (· % 2 ^ 64)

/-! ## Plans -/

/-- INTERNAL: SRCLINE: mirage-predictor/src/capsule.rs:8-13 -/
structure RiskEstimate where
  heldOutViolationMillionths : Nat
  unseenBranchMassMillionths : Nat
  dataQualityMillionths : Nat
  versionTransferConfidenceMillionths : Nat
  deriving DecidableEq, Repr

/-- INTERNAL: SRCLINE: mirage-predictor/src/capsule.rs:15-31 -/
def RiskEstimate.validate (risk : RiskEstimate) : Except MirageError Unit :=
  ensure (∀ value ∈ [risk.heldOutViolationMillionths, risk.unseenBranchMassMillionths,
      risk.dataQualityMillionths, risk.versionTransferConfidenceMillionths], value ≤ 1000000)
    (.invalidArgument "capsule risk value exceeds one")

/-- INTERNAL: SRCLINE: mirage-predictor/src/capsule.rs:35-42 -/
inductive ReasonKind where
  | hardSet
  | recentUnion
  | transition
  | scanMap
  | manual
  | safety
  deriving DecidableEq, Repr

/-- INTERNAL: SRCLINE: mirage-predictor/src/capsule.rs:44-49 -/
structure ClusterReason where
  clusterId : Nat
  kind : ReasonKind
  pages : RoaringBitmap
  evidenceMillionths : Nat
  deriving DecidableEq

/-- INTERNAL: the key of the sort, in which the kinds come in their order of declaration. -/
def ClusterReason.NotAfter (a b : ClusterReason) : Prop :=
  a.clusterId < b.clusterId ∨
    a.clusterId = b.clusterId ∧ a.kind.ctorIdx ≤ b.kind.ctorIdx

instance ClusterReason.decidableNotAfter (a b : ClusterReason) : Decidable (a.NotAfter b) := by
  unfold ClusterReason.NotAfter
  infer_instance

/-- INTERNAL: the sizes of pages and the numbers of generations are machine integers.
SRCLINE: mirage-predictor/src/capsule.rs:64-74 -/
structure CapsuleDraft where
  repositoryId : RepositoryId
  generation : Fin (2 ^ 64)
  profileKey : List Char
  pageSet : RoaringBitmap
  mandatorySet : RoaringBitmap
  frontierSet : RoaringBitmap
  pageSize : Fin (2 ^ 32)
  risk : RiskEstimate
  reasons : List ClusterReason
  deriving DecidableEq

/-- INTERNAL: SRCLINE: mirage-predictor/src/capsule.rs:51-63 -/
structure CapsulePlan extends CapsuleDraft where
  capsuleId : BitVec 128
  totalBytes : Nat
  deriving DecidableEq

/-- INTERNAL: a set as it is given to the hasher. -/
def pageBytes (lead : List UInt8) (pages : RoaringBitmap) : List UInt8 :=
  (pages.sort (· ≤ ·)).flatMap fun page => lead ++ leBytes 4 page.val

/-- INTERNAL: what the identity of a capsule is the digest of; `m` stands before each page of
the mandatory set.
SRCLINE: mirage-predictor/src/capsule.rs:114-125 -/
def CapsuleDraft.identityBytes (draft : CapsuleDraft) : List UInt8 :=
  idBytes draft.repositoryId ++ (leBytes 8 draft.generation.val ++
    (utf8Bytes draft.profileKey ++ (leBytes 4 draft.pageSize.val ++
      (pageBytes [] draft.pageSet ++ pageBytes [0x6d] draft.mandatorySet))))

/-- INTERNAL: the first half of the digest.
SRCLINE: mirage-predictor/src/capsule.rs:126-128 -/
def capsuleIdOf (ext : Externals) (bytes : List UInt8) : BitVec 128 :=
  idOfBytes ((hashBytes (ext.blake3 bytes)).take 16)

/-- INTERNAL: `CapsulePlan::new`.
SRCLINE: mirage-predictor/src/capsule.rs:77-142 -/
def CapsulePlan.new (ext : Externals) (draft : CapsuleDraft) :
    Except MirageError CapsulePlan := do
  ensure (draft.profileKey ≠ [] ∧ (utf8Bytes draft.profileKey).length ≤ 1024 ∧
      isPowerOfTwo draft.pageSize.val ∧ draft.mandatorySet ⊆ draft.pageSet ∧
      draft.frontierSet ⊆ draft.pageSet)
    (.invalidArgument "invalid capsule sets, profile, or page size")
  draft.risk.validate
  let reasons := draft.reasons.insertionSort ClusterReason.NotAfter
  ensure (∀ reason ∈ reasons, reason.evidenceMillionths ≤ 1000000 ∧
      reason.pages ⊆ draft.pageSet)
    (.invalidArgument "capsule provenance is invalid")
  ensure (draft.pageSet.card * draft.pageSize.val ≤ u64Max)
    (.invalidArgument "capsule byte count overflows")
  pure
    { draft with
      reasons := reasons
      capsuleId := capsuleIdOf ext draft.identityBytes
      totalBytes := draft.pageSet.card * draft.pageSize.val }

/-- INTERNAL: `load_plan`; `stored` is the file of the capsule, read and parsed.
SRCLINE: mirage-service/src/runtime/planning.rs:326-355 -/
def loadPlan (ext : Externals) (stored : Except MirageError CapsulePlan)
    (repositoryId : RepositoryId) (capsuleId : BitVec 128) : Except MirageError CapsulePlan := do
  let plan ← stored
  let validated ← CapsulePlan.new ext plan.toCapsuleDraft
  ensure (validated = plan ∧ plan.repositoryId = repositoryId ∧ plan.capsuleId = capsuleId)
    (.integrityMismatch "capsule plan identity is invalid")
  pure plan

end Mirage.Model
