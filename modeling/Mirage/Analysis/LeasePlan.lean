import Mirage.Model.SpaceLease

/-!
# What a plan of a space lease covers

The scan sorts the candidates into those that can be reclaimed and those that are blocked, and
the selection takes the first of the former until the bytes that are missing are reached.  The
bytes that are missing are counted from the space left above the reserve and the leases there
are.  That space is cut off at zero, so where the free space does not cover the reserve and the
leases to begin with, the selection can stop too early: at a prefix that reaches the request
above zero and not above the deficit.
-/

set_option autoImplicit false

namespace Mirage.Analysis

open Mirage.Computation Mirage.Model

/-- INTERNAL: the bytes of a list of candidates. -/
def candidateBytes (candidates : List ReclaimCandidate) : Nat :=
  (candidates.map ReclaimCandidate.physicalBytes).sum

/-- INTERNAL: the candidates that can be reclaimed. -/
def reclaimables (snapshot : CapacitySnapshot) : List ReclaimCandidate :=
  snapshot.candidates.filter ReclaimCandidate.reclaimable

/-- INTERNAL: the others; one without bytes adds nothing to their sum. -/
def blockeds (snapshot : CapacitySnapshot) : List ReclaimCandidate :=
  snapshot.candidates.filter fun c => !c.reclaimable

/-- INTERNAL: the bytes that must be free for a lease to be granted. -/
def neededBytes (snapshot : CapacitySnapshot) (requestedBytes : Nat) : Nat :=
  snapshot.filesystemReserveBytes + snapshot.outstandingSpaceLeaseBytes + requestedBytes

/-- INTERNAL: no sum of the plan goes past a `u64`. -/
def SumsFit (snapshot : CapacitySnapshot) : Prop :=
  snapshot.physicalFreeBytes - snapshot.filesystemReserveBytes -
      snapshot.outstandingSpaceLeaseBytes + candidateBytes (reclaimables snapshot) ≤ u64Max ∧
    candidateBytes (blockeds snapshot) ≤ u64Max

/-- INTERNAL: the shortest prefix of the candidates that can be reclaimed, in their order, with
which the needed bytes are free. -/
def ShortestPrefix (snapshot : CapacitySnapshot) (requestedBytes : Nat)
    (selected : List ReclaimCandidate) : Prop :=
  ∃ ordered, ordered.Perm (reclaimables snapshot) ∧
    ordered.Pairwise ReclaimCandidate.precedes ∧ selected <+: ordered ∧
    neededBytes snapshot requestedBytes ≤
      snapshot.physicalFreeBytes + candidateBytes selected ∧
    ∀ k, k < selected.length →
      snapshot.physicalFreeBytes + candidateBytes (ordered.take k) <
        neededBytes snapshot requestedBytes

/-- INTERNAL: what a plan counts and selects, and where it must be granted. -/
structure PlanCounts (snapshot : CapacitySnapshot) (requestedBytes : Nat)
    (plan : SpaceLeasePlan) : Prop where
  selectedBytes : plan.selectedReclaimBytes = candidateBytes plan.selected
  reclaimable : ∀ c ∈ plan.selected, c ∈ snapshot.candidates ∧ c.reclaimable = true
  counted : plan.totalReclaimableBytes = candidateBytes (reclaimables snapshot) ∧
    plan.blocked.uniqueBytes = candidateBytes (blockeds snapshot)
  complete : ∀ subset : List ReclaimCandidate, subset.Sublist snapshot.candidates →
    (∀ c ∈ subset, c.reclaimable = true) →
    neededBytes snapshot requestedBytes ≤
      snapshot.physicalFreeBytes + candidateBytes subset → plan.grantable = true

/-- INTERNAL: a plan that is granted covers the needed bytes, with the shortest selection that
does. -/
structure PlanCovers (snapshot : CapacitySnapshot) (requestedBytes : Nat)
    (plan : SpaceLeasePlan) : Prop where
  covers : plan.grantable = true →
    neededBytes snapshot requestedBytes ≤ snapshot.physicalFreeBytes + plan.selectedReclaimBytes
  shortest : plan.grantable = true → ShortestPrefix snapshot requestedBytes plan.selected

/-- INTERNAL: the candidates that can be reclaimed in the order of the selection. -/
def orderedReclaimables (snapshot : CapacitySnapshot) : List ReclaimCandidate :=
  (reclaimables snapshot).insertionSort ReclaimCandidate.precedes

/-- INTERNAL: the space left above the reserve and the leases. -/
def immediatelyAvailable (snapshot : CapacitySnapshot) : Nat :=
  snapshot.physicalFreeBytes - snapshot.filesystemReserveBytes -
    snapshot.outstandingSpaceLeaseBytes

/-- INTERNAL: no prefix of the ordered candidates reaches the request above the available space
and misses the needed bytes.  Where the free space covers the reserve and the leases, none can. -/
def NoPrefixBetween (snapshot : CapacitySnapshot) (requestedBytes : Nat) : Prop :=
  ∀ taken, taken <+: orderedReclaimables snapshot →
    requestedBytes ≤ immediatelyAvailable snapshot + candidateBytes taken →
      neededBytes snapshot requestedBytes ≤ snapshot.physicalFreeBytes + candidateBytes taken

/-! ## Sums of candidates -/

theorem candidateBytes_cons (c : ReclaimCandidate) (l : List ReclaimCandidate) :
    candidateBytes (c :: l) = c.physicalBytes + candidateBytes l := by
  simp [candidateBytes]

variable {l : List ReclaimCandidate} {bytes requestedBytes : Nat} {c : ReclaimCandidate}
  {snapshot : CapacitySnapshot} {plan : SpaceLeasePlan}

theorem candidateBytes_perm {l' : List ReclaimCandidate} (h : l.Perm l') :
    candidateBytes l = candidateBytes l' :=
  (h.map _).sum_eq

theorem candidateBytes_sublist {l' : List ReclaimCandidate} (h : l.Sublist l') :
    candidateBytes l ≤ candidateBytes l' := by
  induction h with
  | slnil => exact le_rfl
  | cons c _ ih =>
    rw [candidateBytes_cons]
    exact ih.trans (Nat.le_add_left _ _)
  | cons_cons c _ ih =>
    rw [candidateBytes_cons, candidateBytes_cons]
    exact Nat.add_le_add_left ih _

theorem checkedCapacity_ok {left right sum : Nat} {label : String}
    (h : checkedCapacity left right label = .ok sum) : sum = left + right := by
  unfold checkedCapacity at h
  split at h
  · exact (Except.ok.inj h).symm
  · cases h

theorem checkedCapacity_fits {left right : Nat} (h : left + right ≤ u64Max) (label : String) :
    checkedCapacity left right label = .ok (left + right) := if_pos h

/-! ## The scan -/

theorem countBlocked_fits {count bound : Nat} (applies : Bool) (label : String)
    (hcount : count ≤ bound) (hbound : bound + bytes ≤ u64Max) :
    ∃ next, countBlocked applies count bytes label = .ok next ∧ next ≤ bound + bytes := by
  cases applies with
  | false => exact ⟨count, rfl, hcount.trans (Nat.le_add_right _ _)⟩
  | true => exact ⟨count + bytes, checkedCapacity_fits (by omega) label, by omega⟩

/-- INTERNAL: no reason blocks more than is blocked. -/
structure CountsBelow (blocked : BlockedCapacity) : Prop where
  unverified : blocked.unverifiedBytes ≤ blocked.uniqueBytes
  dirty : blocked.dirtyBytes ≤ blocked.uniqueBytes
  pinned : blocked.pinnedBytes ≤ blocked.uniqueBytes
  activeRead : blocked.activeReadBytes ≤ blocked.uniqueBytes
  mountedReader : blocked.mountedReaderBytes ≤ blocked.uniqueBytes

theorem block_ok {blocked blocked' : BlockedCapacity} (h : blocked.block c = .ok blocked') :
    blocked'.uniqueBytes = blocked.uniqueBytes + c.physicalBytes := by
  obtain ⟨unique, hunique, h⟩ := except_bind_ok.1 h
  obtain ⟨unverified, -, h⟩ := except_bind_ok.1 h
  obtain ⟨dirty, -, h⟩ := except_bind_ok.1 h
  obtain ⟨pinned, -, h⟩ := except_bind_ok.1 h
  obtain ⟨activeRead, -, h⟩ := except_bind_ok.1 h
  obtain ⟨mountedReader, -, h⟩ := except_bind_ok.1 h
  cases h
  exact checkedCapacity_ok hunique

theorem block_fits {blocked : BlockedCapacity} (h : CountsBelow blocked)
    (hfits : blocked.uniqueBytes + c.physicalBytes ≤ u64Max) :
    ∃ blocked', blocked.block c = .ok blocked' ∧ CountsBelow blocked' := by
  obtain ⟨unverified, hunverified, hunverifiedLe⟩ := countBlocked_fits (!c.remoteVerified)
    "unverified capacity" h.unverified hfits
  obtain ⟨dirty, hdirty, hdirtyLe⟩ := countBlocked_fits c.dirty "dirty capacity" h.dirty hfits
  obtain ⟨pinned, hpinned, hpinnedLe⟩ := countBlocked_fits c.pinned "pinned capacity" h.pinned
    hfits
  obtain ⟨activeRead, hactiveRead, hactiveReadLe⟩ := countBlocked_fits (c.activeReadLeases ≠ 0)
    "active-read capacity" h.activeRead hfits
  obtain ⟨mountedReader, hmountedReader, hmountedReaderLe⟩ := countBlocked_fits
    c.mountedReaderExclusion "mounted-reader capacity" h.mountedReader hfits
  refine ⟨⟨blocked.uniqueBytes + c.physicalBytes, unverified, dirty, pinned, activeRead,
    mountedReader⟩, ?_, hunverifiedLe, hdirtyLe, hpinnedLe, hactiveReadLe, hmountedReaderLe⟩
  unfold BlockedCapacity.block
  rw [ok_bind (checkedCapacity_fits hfits _), ok_bind hunverified, ok_bind hdirty,
    ok_bind hpinned, ok_bind hactiveRead, ok_bind hmountedReader]

/-- INTERNAL: a candidate that can be reclaimed has bytes. -/
theorem reclaimable_positive (h : c.reclaimable = true) : c.physicalBytes ≠ 0 := by
  intro hzero
  simp [ReclaimCandidate.reclaimable, hzero] at h

theorem scan_ok {scan scan' : CandidateScan} (h : l.foldlM CandidateScan.scan scan = .ok scan') :
    scan'.reclaimable = scan.reclaimable ++ l.filter ReclaimCandidate.reclaimable ∧
      scan'.blocked.uniqueBytes =
        scan.blocked.uniqueBytes + candidateBytes (l.filter fun c => !c.reclaimable) := by
  induction l generalizing scan with
  | nil =>
    cases h
    exact ⟨(List.append_nil _).symm, rfl⟩
  | cons c l ih =>
    rw [List.foldlM_cons, except_bind_ok] at h
    obtain ⟨next, hnext, hrest⟩ := h
    obtain ⟨hreclaimable, hblocked⟩ := ih hrest
    rw [hreclaimable, hblocked]
    unfold CandidateScan.scan at hnext
    split at hnext
    · cases hnext
    · split at hnext
      · rename_i hzero
        have hnot : c.reclaimable = false :=
          Bool.eq_false_iff.2 fun h => reclaimable_positive h hzero
        cases hnext
        simp [hnot, candidateBytes_cons, hzero]
      · split at hnext
        · rename_i hreclaim
          cases hnext
          simp [hreclaim]
        · rename_i hreclaim
          obtain ⟨blocked, hblock, hnext⟩ := except_bind_ok.1 hnext
          cases hnext
          simp only [List.filter_cons, hreclaim, Bool.not_false, if_true, if_false,
            Bool.false_eq_true, candidateBytes_cons, block_ok hblock]
          exact ⟨trivial, Nat.add_assoc _ _ _⟩

theorem scan_fits {scan : CandidateScan} (hids : (l.map ReclaimCandidate.reclaimId).Nodup)
    (hseen : ∀ c ∈ l, c.reclaimId ∉ scan.seen) (hbelow : CountsBelow scan.blocked)
    (hfits : scan.blocked.uniqueBytes + candidateBytes (l.filter fun c => !c.reclaimable) ≤
      u64Max) : ∃ scan', l.foldlM CandidateScan.scan scan = .ok scan' := by
  induction l generalizing scan with
  | nil => exact ⟨scan, rfl⟩
  | cons c l ih =>
    rw [List.map_cons, List.nodup_cons] at hids
    -- the rest is scanned from whatever the first round leaves with `c` seen
    have hrest : ∀ next : CandidateScan, next.seen = c.reclaimId :: scan.seen →
        CountsBelow next.blocked →
        next.blocked.uniqueBytes + candidateBytes (l.filter fun c => !c.reclaimable) ≤ u64Max →
        scan.scan c = .ok next →
        ∃ scan', (c :: l).foldlM CandidateScan.scan scan = .ok scan' := by
      intro next hnextSeen hnextBelow hnextFits hnext
      have hunseen : ∀ d ∈ l, d.reclaimId ∉ next.seen := by
        intro d hd
        rw [hnextSeen, List.mem_cons, not_or]
        refine ⟨fun heq => hids.1 ?_, hseen d (List.mem_cons_of_mem c hd)⟩
        rw [← heq]
        exact List.mem_map_of_mem hd
      obtain ⟨scan', hscan'⟩ := ih hids.2 hunseen hnextBelow hnextFits
      refine ⟨scan', ?_⟩
      rw [List.foldlM_cons, ok_bind hnext]
      exact hscan'
    have hnew := hseen c List.mem_cons_self
    by_cases hreclaim : c.reclaimable = true
    · rw [List.filter_cons_of_neg (by simp [hreclaim])] at hfits
      refine hrest { scan with
        seen := c.reclaimId :: scan.seen, reclaimable := scan.reclaimable ++ [c] }
        rfl hbelow hfits ?_
      simp [CandidateScan.scan, hnew, hreclaim, reclaimable_positive hreclaim]
    · rw [List.filter_cons_of_pos (by simp [hreclaim]), candidateBytes_cons] at hfits
      by_cases hzero : c.physicalBytes = 0
      · refine hrest { scan with seen := c.reclaimId :: scan.seen } rfl hbelow ?_ ?_
        · change scan.blocked.uniqueBytes + _ ≤ u64Max
          omega
        · simp [CandidateScan.scan, hnew, hzero]
      · obtain ⟨blocked, hblock, hblockedBelow⟩ := block_fits (c := c) hbelow (by omega)
        refine hrest { scan with seen := c.reclaimId :: scan.seen, blocked := blocked } rfl
          hblockedBelow ?_ ?_
        · change blocked.uniqueBytes + _ ≤ u64Max
          rw [block_ok hblock]
          omega
        · simp only [CandidateScan.scan, if_neg hnew, if_neg hzero, if_neg hreclaim]
          exact ok_bind hblock _

/-! ## The order of the candidates -/

theorem precedes_total (a b : ReclaimCandidate) : a.precedes b ∨ b.precedes a := by
  unfold ReclaimCandidate.precedes
  rw [BitVec.le_def, BitVec.le_def]
  omega

theorem precedes_trans {a b : ReclaimCandidate} (hab : a.precedes b) (hbc : b.precedes c) :
    a.precedes c := by
  unfold ReclaimCandidate.precedes at hab hbc ⊢
  rw [BitVec.le_def] at hab hbc ⊢
  omega

instance : Std.Total ReclaimCandidate.precedes := ⟨precedes_total⟩

instance : IsTrans ReclaimCandidate ReclaimCandidate.precedes := ⟨fun _ _ _ => precedes_trans⟩

/-! ## The total and the selection -/

theorem totalReclaimable_ok {start total : Nat} {label : String}
    (h : l.foldlM (fun total c => checkedCapacity total c.physicalBytes label) start =
      .ok total) : total = start + candidateBytes l := by
  induction l generalizing start with
  | nil =>
    cases h
    rfl
  | cons c l ih =>
    rw [List.foldlM_cons, except_bind_ok] at h
    obtain ⟨next, hnext, hrest⟩ := h
    rw [ih hrest, checkedCapacity_ok hnext, candidateBytes_cons, Nat.add_assoc]

theorem totalReclaimable_fits {start : Nat} (label : String)
    (h : start + candidateBytes l ≤ u64Max) :
    l.foldlM (fun total c => checkedCapacity total c.physicalBytes label) start =
      .ok (start + candidateBytes l) := by
  induction l generalizing start with
  | nil => rfl
  | cons c l ih =>
    rw [candidateBytes_cons] at h ⊢
    rw [List.foldlM_cons, ok_bind (checkedCapacity_fits (by omega) label), ih (by omega),
      Nat.add_assoc]

/-- INTERNAL: the selection stops at the first prefix that reaches the requirement, and takes
everything where none does. -/
theorem selectReclaim_ok {required : Nat} {selected : List ReclaimCandidate}
    {result : List ReclaimCandidate × Nat} (hbytes : bytes < required)
    (h : selectReclaim required l selected bytes = .ok result) :
    ∃ taken, taken <+: l ∧ result = (selected ++ taken, bytes + candidateBytes taken) ∧
      (required ≤ bytes + candidateBytes taken ∨ taken = l) ∧
      ∀ k, k < taken.length → bytes + candidateBytes (l.take k) < required := by
  induction l generalizing selected bytes with
  | nil =>
    cases h
    exact ⟨[], List.prefix_rfl, by simp [candidateBytes], .inr rfl, nofun⟩
  | cons c l ih =>
    obtain ⟨next, hnext, h⟩ := except_bind_ok.1 h
    obtain rfl := checkedCapacity_ok hnext
    split at h
    · rename_i hreached
      cases h
      refine ⟨[c], ⟨l, rfl⟩, by simp [candidateBytes], .inl (by simpa [candidateBytes]), ?_⟩
      intro k hk
      obtain rfl : k = 0 := Nat.lt_one_iff.1 hk
      simpa [candidateBytes] using hbytes
    · rename_i hshort
      obtain ⟨taken, hprefix, rfl, hstop, hbelow⟩ := ih (Nat.lt_of_not_le hshort) h
      refine ⟨c :: taken, (List.prefix_cons_inj c).2 hprefix, ?_, ?_, ?_⟩
      · rw [candidateBytes_cons, List.append_assoc, Nat.add_assoc]
        rfl
      · rw [candidateBytes_cons, ← Nat.add_assoc]
        exact hstop.imp_right (congrArg (c :: ·))
      · intro k hk
        cases k with
        | zero => simpa [candidateBytes] using hbytes
        | succ k =>
          rw [List.take_succ_cons, candidateBytes_cons, ← Nat.add_assoc]
          exact hbelow k (Nat.lt_of_succ_lt_succ hk)

theorem selectReclaim_fits {required : Nat} {selected : List ReclaimCandidate}
    (h : bytes + candidateBytes l ≤ u64Max) :
    ∃ result, selectReclaim required l selected bytes = .ok result := by
  induction l generalizing selected bytes with
  | nil => exact ⟨_, rfl⟩
  | cons c l ih =>
    rw [candidateBytes_cons] at h
    unfold selectReclaim
    rw [ok_bind (checkedCapacity_fits (by omega) _)]
    split
    · exact ⟨_, rfl⟩
    · exact ih (by omega)

/-! ## The plan -/

theorem orderedReclaimables_perm (snapshot : CapacitySnapshot) :
    (orderedReclaimables snapshot).Perm (reclaimables snapshot) :=
  List.perm_insertionSort _ _

theorem candidateBytes_ordered (snapshot : CapacitySnapshot) :
    candidateBytes (orderedReclaimables snapshot) = candidateBytes (reclaimables snapshot) :=
  candidateBytes_perm (orderedReclaimables_perm snapshot)

/-- INTERNAL: the fields of a plan, whatever the free space is. -/
structure PlanOf (snapshot : CapacitySnapshot) (requestedBytes : Nat)
    (plan : SpaceLeasePlan) : Prop where
  requested : plan.requestedBytes = requestedBytes
  total : plan.totalReclaimableBytes = candidateBytes (reclaimables snapshot)
  unique : plan.blocked.uniqueBytes = candidateBytes (blockeds snapshot)
  shortfall : plan.shortfallBytes =
    requestedBytes - (immediatelyAvailable snapshot + candidateBytes (reclaimables snapshot))
  after : plan.availableAfterSelectedReclaimBytes =
    immediatelyAvailable snapshot + candidateBytes plan.selected
  selectedBytes : plan.selectedReclaimBytes = candidateBytes plan.selected
  taken : plan.selected <+: orderedReclaimables snapshot
  stops : requestedBytes ≤ immediatelyAvailable snapshot + candidateBytes plan.selected ∨
    plan.selected = orderedReclaimables snapshot
  shortest : ∀ k, k < plan.selected.length →
    immediatelyAvailable snapshot + candidateBytes ((orderedReclaimables snapshot).take k) <
      requestedBytes

/-- INTERNAL: the selection for a request, with what is available counted in. -/
def selection (available requestedBytes : Nat) (l : List ReclaimCandidate) :
    Except MirageError (List ReclaimCandidate × Nat) :=
  if requestedBytes - available ≠ 0 then selectReclaim (requestedBytes - available) l [] 0
  else .ok ([], 0)

/-- INTERNAL: the steps of the plan one after another. -/
theorem planSpaceLease_eq (snapshot : CapacitySnapshot) (requestedBytes : Nat) :
    planSpaceLease snapshot requestedBytes =
      (ensure (requestedBytes ≠ 0)
          (.invalidArgument "Space Lease request must be greater than zero bytes") >>= fun _ =>
        snapshot.candidates.foldlM CandidateScan.scan {} >>= fun scan =>
        (scan.reclaimable.insertionSort ReclaimCandidate.precedes).foldlM
          (fun total c => checkedCapacity total c.physicalBytes "total reclaimable capacity") 0
          >>= fun total =>
        checkedCapacity (immediatelyAvailable snapshot) total "maximum available capacity"
          >>= fun maximum =>
        selection (immediatelyAvailable snapshot) requestedBytes
          (scan.reclaimable.insertionSort ReclaimCandidate.precedes) >>= fun result =>
        checkedCapacity (immediatelyAvailable snapshot) result.2
          "available capacity after reclaim" >>= fun after =>
        .ok ⟨requestedBytes, immediatelyAvailable snapshot,
          requestedBytes - immediatelyAvailable snapshot, total, result.2, after,
          requestedBytes - maximum, result.1, scan.blocked⟩) := by
  unfold planSpaceLease selection immediatelyAvailable
  congr! 8 with _ scan total maximum
  split
  · rfl
  · rfl

theorem selection_ok {available : Nat} {result : List ReclaimCandidate × Nat}
    (h : selection available requestedBytes l = .ok result) :
    result.2 = candidateBytes result.1 ∧ result.1 <+: l ∧
      (requestedBytes ≤ available + candidateBytes result.1 ∨ result.1 = l) ∧
      ∀ k, k < result.1.length → available + candidateBytes (l.take k) < requestedBytes := by
  unfold selection at h
  split at h
  · rename_i hrequired
    obtain ⟨taken, hprefix, rfl, hstop, hbelow⟩ :=
      selectReclaim_ok (Nat.pos_of_ne_zero hrequired) h
    simp only [Nat.zero_add, List.nil_append] at hstop hbelow ⊢
    refine ⟨trivial, hprefix, hstop.imp_left (by omega), fun k hk => ?_⟩
    have := hbelow k hk
    omega
  · cases h
    exact ⟨rfl, List.nil_prefix, .inl (by omega), nofun⟩

theorem planSpaceLease_ok (h : planSpaceLease snapshot requestedBytes = .ok plan) :
    PlanOf snapshot requestedBytes plan := by
  rw [planSpaceLease_eq] at h
  obtain ⟨-, h⟩ := ensure_bind_ok.1 h
  obtain ⟨scan, hscan, h⟩ := except_bind_ok.1 h
  obtain ⟨total, htotal, h⟩ := except_bind_ok.1 h
  obtain ⟨maximum, hmaximum, h⟩ := except_bind_ok.1 h
  obtain ⟨⟨selected, selectedBytes⟩, hselected, h⟩ := except_bind_ok.1 h
  obtain ⟨after, hafter, h⟩ := except_bind_ok.1 h
  cases h
  obtain ⟨hreclaimable, hunique⟩ := scan_ok hscan
  have hordered : scan.reclaimable.insertionSort ReclaimCandidate.precedes =
      orderedReclaimables snapshot := by
    rw [hreclaimable]
    rfl
  rw [hordered] at htotal hselected
  obtain ⟨hbytes, hprefix, hstop, hbelow⟩ := selection_ok hselected
  have htotal' : total = candidateBytes (reclaimables snapshot) := by
    rw [totalReclaimable_ok htotal, Nat.zero_add, candidateBytes_ordered]
  have hmaximum' : maximum =
      immediatelyAvailable snapshot + candidateBytes (reclaimables snapshot) := by
    rw [checkedCapacity_ok hmaximum, htotal']
  have hafter' : after = immediatelyAvailable snapshot + candidateBytes selected := by
    rw [checkedCapacity_ok hafter, hbytes]
  exact ⟨rfl, htotal', by rw [hunique]; exact Nat.zero_add _, by rw [hmaximum'], hafter',
    hbytes, hprefix, hstop, hbelow⟩

theorem planSpaceLease_fits (hrequested : requestedBytes ≠ 0)
    (hids : (snapshot.candidates.map ReclaimCandidate.reclaimId).Nodup) (hfits : SumsFit snapshot) :
    ∃ plan, planSpaceLease snapshot requestedBytes = .ok plan := by
  obtain ⟨hreclaim, hblocked⟩ := hfits
  have hbelow : CountsBelow {} := ⟨le_rfl, le_rfl, le_rfl, le_rfl, le_rfl⟩
  have hscanned : ∃ scan, snapshot.candidates.foldlM CandidateScan.scan {} = .ok scan :=
    scan_fits hids (fun _ _ => List.not_mem_nil) hbelow ((Nat.zero_add _).trans_le hblocked)
  obtain ⟨scan, hscan⟩ := hscanned
  have hordered : scan.reclaimable.insertionSort ReclaimCandidate.precedes =
      orderedReclaimables snapshot := by
    rw [(scan_ok hscan).1]
    rfl
  have htotal : 0 + candidateBytes (orderedReclaimables snapshot) ≤ u64Max := by
    rw [candidateBytes_ordered]
    omega
  have hselection : ∃ result, selection (immediatelyAvailable snapshot) requestedBytes
      (orderedReclaimables snapshot) = .ok result := by
    unfold selection
    split
    · exact selectReclaim_fits htotal
    · exact ⟨_, rfl⟩
  obtain ⟨result, hresult⟩ := hselection
  have hselected : candidateBytes result.1 ≤ candidateBytes (reclaimables snapshot) := by
    rw [← candidateBytes_ordered]
    exact candidateBytes_sublist (selection_ok hresult).2.1.sublist
  have hmaximum : immediatelyAvailable snapshot +
      (0 + candidateBytes (orderedReclaimables snapshot)) ≤ u64Max := by
    rw [Nat.zero_add, candidateBytes_ordered]
    exact hreclaim
  have hafter : immediatelyAvailable snapshot + result.2 ≤ u64Max := by
    rw [(selection_ok hresult).1]
    exact (Nat.add_le_add_left hselected _).trans hreclaim
  refine ⟨⟨requestedBytes, immediatelyAvailable snapshot,
    requestedBytes - immediatelyAvailable snapshot,
    0 + candidateBytes (orderedReclaimables snapshot), result.2,
    immediatelyAvailable snapshot + result.2,
    requestedBytes - (immediatelyAvailable snapshot +
      (0 + candidateBytes (orderedReclaimables snapshot))), result.1, scan.blocked⟩, ?_⟩
  rw [planSpaceLease_eq, ensure_bind_ok]
  refine ⟨hrequested, ?_⟩
  rw [ok_bind hscan, hordered, ok_bind (totalReclaimable_fits _ htotal),
    ok_bind (checkedCapacity_fits hmaximum _), ok_bind hresult,
    ok_bind (checkedCapacity_fits hafter _)]

/-- INTERNAL: a plan is granted exactly where everything that can be reclaimed would reach the
request. -/
theorem grantable_iff (h : PlanOf snapshot requestedBytes plan) :
    plan.grantable = true ↔ requestedBytes ≤
      immediatelyAvailable snapshot + candidateBytes (reclaimables snapshot) := by
  have hselected : candidateBytes plan.selected ≤ candidateBytes (reclaimables snapshot) := by
    rw [← candidateBytes_ordered]
    exact candidateBytes_sublist h.taken.sublist
  rw [SpaceLeasePlan.grantable, decide_eq_true_iff, h.shortfall, h.requested, h.after]
  constructor
  · rintro ⟨-, hreached⟩
    omega
  · intro hreach
    refine ⟨by omega, ?_⟩
    rcases h.stops with hreached | hall
    · exact hreached
    · rw [hall, candidateBytes_ordered]
      exact hreach

/-- INTERNAL: a plan that is granted reaches the request with what it selects. -/
theorem reached_of_grantable (h : PlanOf snapshot requestedBytes plan)
    (hgrantable : plan.grantable = true) :
    requestedBytes ≤ immediatelyAvailable snapshot + candidateBytes plan.selected := by
  rw [SpaceLeasePlan.grantable, decide_eq_true_iff, h.requested, h.after] at hgrantable
  exact hgrantable.2

theorem mem_reclaimables :
    c ∈ reclaimables snapshot ↔ c ∈ snapshot.candidates ∧ c.reclaimable = true :=
  List.mem_filter

/-- INTERNAL: what is missing above the available space is missing of the needed bytes. -/
theorem reaches_of_needed (h : neededBytes snapshot requestedBytes ≤
    snapshot.physicalFreeBytes + bytes) :
    requestedBytes ≤ immediatelyAvailable snapshot + bytes := by
  unfold neededBytes at h
  unfold immediatelyAvailable
  omega

theorem planCounts_of_planOf (h : PlanOf snapshot requestedBytes plan) :
    PlanCounts snapshot requestedBytes plan := by
  refine ⟨h.selectedBytes, fun c hc => ?_, ⟨h.total, h.unique⟩,
    fun subset hsubset hreclaimable hreaches => ?_⟩
  · rw [← mem_reclaimables]
    exact (orderedReclaimables_perm snapshot).subset (h.taken.subset hc)
  · have hsublist : subset.Sublist (reclaimables snapshot) := by
      have hfilter := hsubset.filter ReclaimCandidate.reclaimable
      rwa [List.filter_eq_self.2 hreclaimable] at hfilter
    rw [grantable_iff h]
    have hbytes := candidateBytes_sublist hsublist
    have hreached := reaches_of_needed hreaches
    omega

/-- INTERNAL: the prefixes that reach the request are those that the selection is a prefix of. -/
theorem planCovers_iff (h : PlanOf snapshot requestedBytes plan) :
    PlanCovers snapshot requestedBytes plan ↔ NoPrefixBetween snapshot requestedBytes := by
  constructor
  · intro hcovers taken htaken hreaches
    have hordered := candidateBytes_sublist htaken.sublist
    rw [candidateBytes_ordered] at hordered
    have hneeded := hcovers.covers ((grantable_iff h).mpr (hreaches.trans (by omega)))
    -- the selection stops at the first prefix that reaches the request
    have hlength : plan.selected.length ≤ taken.length := by
      by_contra hshorter
      have hshort := h.shortest taken.length (by omega)
      rw [← List.prefix_iff_eq_take.mp htaken] at hshort
      omega
    have hselected := candidateBytes_sublist
      (List.prefix_of_prefix_length_le h.taken htaken hlength).sublist
    rw [h.selectedBytes] at hneeded
    omega
  · intro hbetween
    have hneeded (hgrantable : plan.grantable = true) := hbetween plan.selected h.taken
      (reached_of_grantable h hgrantable)
    refine ⟨fun hgrantable => ?_, fun hgrantable => ?_⟩
    · rw [h.selectedBytes]
      exact hneeded hgrantable
    · refine ⟨orderedReclaimables snapshot, orderedReclaimables_perm snapshot,
        List.pairwise_insertionSort _ _, h.taken, hneeded hgrantable, fun k hk => ?_⟩
      by_contra hreaches
      have hreached := reaches_of_needed (Nat.le_of_not_lt hreaches)
      have hshort := h.shortest k hk
      omega

/-- INTERNAL: every snapshot without a duplicate or an overflow has a plan, and every plan counts
every candidate once, selects candidates that can be reclaimed and is granted where any selection
would suffice.  It covers what it grants, with the shortest prefix that does, exactly where no
prefix reaches the request and misses the needed bytes.
SRCLINE: mirage-cache/src/space_lease.rs:92-239 -/
theorem lease_plan_covers {snapshot : CapacitySnapshot} {requestedBytes : Nat}
    (hrequested : requestedBytes ≠ 0) :
    ((snapshot.candidates.map ReclaimCandidate.reclaimId).Nodup → SumsFit snapshot →
        ∃ plan, planSpaceLease snapshot requestedBytes = .ok plan) ∧
      ∀ plan, planSpaceLease snapshot requestedBytes = .ok plan →
        PlanCounts snapshot requestedBytes plan ∧
        (PlanCovers snapshot requestedBytes plan ↔ NoPrefixBetween snapshot requestedBytes) :=
  ⟨planSpaceLease_fits hrequested, fun _ hplan =>
    ⟨planCounts_of_planOf (planSpaceLease_ok hplan), planCovers_iff (planSpaceLease_ok hplan)⟩⟩

/-- INTERNAL: a clean page of some bytes, last used at a time. -/
def cleanPage (id : BitVec 256) (bytes used : Nat) : ReclaimCandidate :=
  ⟨id, bytes, used, true, false, false, 0, false⟩

/-- INTERNAL: ten bytes of the reserve are missing; the page used first makes up for them, and
the second one is left alone. -/
theorem old_page_covers_deficit :
    let snapshot : CapacitySnapshot := ⟨0, 10, 0, [cleanPage 2 50 7, cleanPage 1 100 3]⟩
    ∃ plan, planSpaceLease snapshot 1 = .ok plan ∧ plan.selected = [cleanPage 1 100 3] ∧
      plan.grantable = true ∧ PlanCovers snapshot 1 plan := by
  intro snapshot
  have hplan : planSpaceLease snapshot 1 = .ok ⟨1, 0, 1, 150, 100, 100, 0, [cleanPage 1 100 3],
    {}⟩ := by decide
  have hordered : orderedReclaimables snapshot = [cleanPage 1 100 3, cleanPage 2 50 7] := by decide
  refine ⟨_, hplan, rfl, rfl, ((lease_plan_covers Nat.one_ne_zero).2 _ hplan).2.mpr ?_⟩
  intro taken htaken hreaches
  rw [hordered] at htaken
  rcases List.prefix_cons_iff.mp htaken with rfl | ⟨rest, rfl, -⟩
  · exact absurd hreaches (by decide)
  · have hneeded : neededBytes snapshot 1 = 11 := by decide
    rw [candidateBytes_cons, hneeded]
    change 11 ≤ 0 + (100 + _)
    omega

/-- INTERNAL: nothing is free of a reserve of ten bytes, and a lease of one byte is granted for
the one byte that can be reclaimed: ten bytes of the reserve are missing. -/
theorem deficit_is_granted :
    ∃ plan, planSpaceLease ⟨0, 10, 0, [cleanPage 1 1 0]⟩ 1 = .ok plan ∧ plan.grantable = true ∧
      0 + plan.selectedReclaimBytes < neededBytes ⟨0, 10, 0, [cleanPage 1 1 0]⟩ 1 := by
  refine ⟨_, rfl, ?_, ?_⟩
  · decide
  · decide

end Mirage.Analysis
