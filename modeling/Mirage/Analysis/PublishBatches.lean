import Mathlib.Algebra.Order.BigOperators.Group.List
import Mathlib.Data.Nat.Find
import Mirage.Model.PublishUnits

/-!
# Publish batching partitions the pending list

Every payload ends up in one unit, in the order of the list, and every unit in one batch.  The
units are described by what one payload adds to them, the batches by the cursor, which rises with
each of them until all units are covered.
-/

set_option autoImplicit false

namespace Mirage.Analysis

open Mirage.Model

/-! ## Units -/

/-- INTERNAL: the exact number of plaintext bytes of a unit. -/
def memberBytes (members : List UnpublishedPayload) : Nat :=
  (members.map UnpublishedPayload.size).sum

/-- INTERNAL: small payloads within the bounds of a pack. -/
structure PackFits (members : List UnpublishedPayload) : Prop where
  small : ∀ payload ∈ members, payload.size ≤ packMemberMaxBytes
  count : members.length ≤ packMaxMembers
  bytes : memberBytes members ≤ packTargetBytes

/-- INTERNAL: a large payload alone or a pack. -/
def UnitFits (unit : PublishUnit) : Prop :=
  (∃ payload, unit.members = [payload] ∧ packMemberMaxBytes < payload.size) ∨
    unit.members ≠ [] ∧ PackFits unit.members

/-- INTERNAL: the state of the loop behind the payloads of `before`. -/
structure Packs (before : List UnpublishedPayload) (p : Packing) : Prop where
  members : p.units.flatMap PublishUnit.members ++ p.pack = before
  units : ∀ unit ∈ p.units, UnitFits unit
  pack : PackFits p.pack
  bytes : p.packBytes = memberBytes p.pack

variable {before : List UnpublishedPayload} {p : Packing} {payload : UnpublishedPayload}

theorem packFits_nil : PackFits [] := ⟨nofun, Nat.zero_le _, Nat.zero_le _⟩

theorem packs_flush (h : Packs before p) : Packs before p.flush ∧ p.flush.pack = [] := by
  unfold Packing.flush
  split_ifs with hempty
  · exact ⟨h, hempty⟩
  · refine ⟨⟨?_, ?_, packFits_nil, rfl⟩, rfl⟩
    · rw [List.flatMap_append, List.append_nil]
      simpa using h.members
    · intro unit hunit
      rcases List.mem_append.mp hunit with hold | hnew
      · exact h.units unit hold
      · obtain rfl := List.mem_singleton.mp hnew
        exact .inr ⟨hempty, h.pack⟩

/-- INTERNAL: a payload that fits joins the pack. -/
theorem packs_join (h : Packs before p) (hsmall : payload.size ≤ packMemberMaxBytes)
    (hcount : p.pack.length < packMaxMembers)
    (hbytes : memberBytes p.pack + payload.size ≤ packTargetBytes) :
    Packs (before ++ [payload]) { p with
      pack := p.pack ++ [payload]
      packBytes := saturatingAdd p.packBytes payload.size } := by
  have hsum : memberBytes (p.pack ++ [payload]) = memberBytes p.pack + payload.size := by
    unfold memberBytes
    rw [List.map_append, List.sum_append, List.map_singleton, List.sum_singleton]
  have htarget : packTargetBytes ≤ u64Max := by decide
  refine ⟨?_, h.units, ⟨?_, ?_, ?_⟩, ?_⟩
  · rw [← List.append_assoc, h.members]
  · intro other hother
    rcases List.mem_append.mp hother with hold | hnew
    · exact h.pack.small other hold
    · rw [List.mem_singleton.mp hnew]
      exact hsmall
  · rw [List.length_append, List.length_singleton]
    exact hcount
  · rw [hsum]
    exact hbytes
  · change saturatingAdd p.packBytes payload.size = memberBytes (p.pack ++ [payload])
    rw [hsum, h.bytes]
    exact Nat.min_eq_left (Nat.le_trans hbytes htarget)

theorem packs_add (h : Packs before p) (payload : UnpublishedPayload) :
    Packs (before ++ [payload]) (p.add payload) := by
  obtain ⟨hflush, hempty⟩ := packs_flush h
  unfold Packing.add
  dsimp only
  by_cases hlarge : packMemberMaxBytes < payload.size
  · rw [if_pos hlarge]
    refine ⟨?_, ?_, hflush.pack, hflush.bytes⟩
    · have hmembers := hflush.members
      rw [hempty, List.append_nil] at hmembers
      rw [List.flatMap_append, hmembers, hempty]
      simp
    · intro unit hunit
      rcases List.mem_append.mp hunit with hold | hnew
      · exact hflush.units unit hold
      · obtain rfl := List.mem_singleton.mp hnew
        exact .inl ⟨payload, rfl, hlarge⟩
  · rw [if_neg hlarge]
    have hsmall := Nat.le_of_not_lt hlarge
    have hmember : packMemberMaxBytes ≤ packTargetBytes := by decide
    -- an empty pack has room for every small payload, and another one was found not to be full
    have hroom : ∀ {q : Packing}, Packs before q → q.pack = [] →
        Packs (before ++ [payload]) { q with
          pack := q.pack ++ [payload]
          packBytes := saturatingAdd q.packBytes payload.size } := by
      intro q hq hnil
      refine packs_join hq hsmall (by rw [hnil]; decide) ?_
      rw [hnil]
      exact Nat.le_trans (Nat.le_of_eq (Nat.zero_add _)) (Nat.le_trans hsmall hmember)
    split_ifs with hfull
    · exact hroom hflush hempty
    · by_cases hnil : p.pack = []
      · exact hroom h hnil
      · have hspace : ¬ (packTargetBytes < saturatingAdd p.packBytes payload.size ∨
            packMaxMembers ≤ p.pack.length) := fun hor => hfull ⟨hnil, hor⟩
        have htarget : packTargetBytes < u64Max := by decide
        rw [h.bytes] at hspace
        unfold saturatingAdd at hspace
        exact packs_join h hsmall (by omega) (by omega)

theorem packs_foldl (h : Packs before p) (pending : List UnpublishedPayload) :
    Packs (before ++ pending) (pending.foldl Packing.add p) := by
  induction pending generalizing before p with
  | nil => rwa [List.append_nil]
  | cons payload pending ih =>
    have hrest := ih (packs_add h payload)
    rwa [List.append_assoc] at hrest

/-- INTERNAL: the members of the units are the list, and every unit is within its bounds. -/
theorem publishUnits_fit (pending : List UnpublishedPayload) :
    (publishUnits pending).flatMap PublishUnit.members = pending ∧
      ∀ unit ∈ publishUnits pending, UnitFits unit := by
  have hstart : Packs [] ⟨[], [], 0⟩ := ⟨rfl, nofun, packFits_nil, rfl⟩
  obtain ⟨hend, hempty⟩ := packs_flush (packs_foldl hstart pending)
  have hmembers := hend.members
  rw [hempty, List.append_nil, List.nil_append] at hmembers
  exact ⟨hmembers, hend.units⟩

/-! ## Bytes of a unit -/

theorem size_le (payload : UnpublishedPayload) : payload.size ≤ u64Max := by
  have hlt := Int64.toInt_lt payload.bytes
  unfold UnpublishedPayload.size u64Max
  omega

theorem UnitFits.bytes_le {unit : PublishUnit} (h : UnitFits unit) :
    memberBytes unit.members ≤ u64Max := by
  rcases h with ⟨payload, hmembers, -⟩ | ⟨-, hpack⟩
  · rw [hmembers]
    unfold memberBytes
    rw [List.map_singleton, List.sum_singleton]
    exact size_le payload
  · exact Nat.le_trans hpack.bytes (by decide)

/-- INTERNAL: a saturating sum below the limit is exact. -/
theorem foldl_saturatingAdd (sizes : List Nat) {first : Nat} (h : first + sizes.sum ≤ u64Max) :
    sizes.foldl saturatingAdd first = first + sizes.sum := by
  induction sizes generalizing first with
  | nil => rfl
  | cons size sizes ih =>
    rw [List.sum_cons] at h ⊢
    have hfirst : saturatingAdd first size = first + size := Nat.min_eq_left (by omega)
    rw [List.foldl_cons, hfirst, ih (by omega), Nat.add_assoc]

theorem UnitFits.unitBytes_eq {unit : PublishUnit} (h : UnitFits unit) :
    unitBytes unit = memberBytes unit.members := by
  have hle := h.bytes_le
  unfold unitBytes
  rw [foldl_saturatingAdd _ (by rwa [Nat.zero_add])]
  exact Nat.zero_add _

/-! ## Batches -/

/-- INTERNAL: the exact number of plaintext bytes of a batch. -/
def batchBytes (batch : List PublishUnit) : Nat :=
  (batch.map fun unit => memberBytes unit.members).sum

/-- INTERNAL: units that are uploaded together, which are a single one or within a cap that is not
the largest number. -/
structure BatchFits (cap : Nat) (batch : List PublishUnit) : Prop where
  nonempty : batch ≠ []
  count : batch.length ≤ publishParallelism
  bytes : cap < u64Max → batch.length = 1 ∨ batchBytes batch ≤ cap

variable {cap taken bytes : Nat} {units : List PublishUnit}

/-- INTERNAL: what the loop takes behind the first unit stays within the cap. -/
theorem batchLength_fits (htaken : 0 < taken) (hlimit : taken ≤ publishParallelism) :
    taken ≤ batchLength cap units taken bytes ∧
      batchLength cap units taken bytes ≤ publishParallelism ∧
      batchLength cap units taken bytes ≤ taken + units.length ∧
      (cap < u64Max → batchLength cap units taken bytes = taken ∨
        bytes + ((units.take (batchLength cap units taken bytes - taken)).map unitBytes).sum ≤
          cap) := by
  induction units generalizing taken bytes with
  | nil => exact ⟨Nat.le_refl _, hlimit, Nat.le_refl _, fun _ => .inl rfl⟩
  | cons unit units ih =>
    rw [batchLength]
    split_ifs with hroom hover
    · exact ⟨Nat.le_refl _, hlimit, by omega, fun _ => .inl rfl⟩
    · obtain ⟨hfrom, hto, hlength, hbytes⟩ := @ih (taken + 1)
        (saturatingAdd bytes (unitBytes unit)) (Nat.succ_pos _) hroom
      rw [List.length_cons]
      refine ⟨by omega, hto, by omega, fun hcap => .inr ?_⟩
      have hexact : saturatingAdd bytes (unitBytes unit) = bytes + unitBytes unit ∧
          bytes + unitBytes unit ≤ cap := by
        unfold saturatingAdd at hover ⊢
        omega
      generalize hresult : batchLength cap units (taken + 1)
        (saturatingAdd bytes (unitBytes unit)) = result at *
      have hsplit : result - taken = result - (taken + 1) + 1 := by omega
      rw [hsplit, List.take_succ_cons, List.map_cons, List.sum_cons]
      rcases hbytes hcap with heq | hbytes
      · rw [heq, Nat.sub_self, List.take_zero, List.map_nil, List.sum_nil]
        omega
      · rw [hexact.1] at hbytes
        omega
    · exact ⟨Nat.le_refl _, hlimit, by omega, fun _ => .inl rfl⟩

/-- INTERNAL: a batch takes the first unit whatever its size. -/
theorem batchLength_cons (unit : PublishUnit) (hunit : unitBytes unit ≤ u64Max) :
    batchLength cap (unit :: units) 0 0 = batchLength cap units 1 (unitBytes unit) := by
  have hfirst : saturatingAdd 0 (unitBytes unit) = unitBytes unit := by
    unfold saturatingAdd
    omega
  rw [batchLength, if_pos (by decide), if_neg (fun h => Nat.lt_irrefl 0 h.1), hfirst]

/-- INTERNAL: a batch that starts before the end of the units is one of them at least. -/
theorem nextBatch_fits (hunits : ∀ unit ∈ units, UnitFits unit) {start : Nat}
    (hstart : start < units.length) :
    start < nextBatch units start cap ∧ nextBatch units start cap ≤ units.length ∧
      BatchFits cap ((units.take (nextBatch units start cap)).drop start) := by
  obtain ⟨unit, rest, hdrop⟩ : ∃ unit rest, units.drop start = unit :: rest :=
    List.exists_cons_of_ne_nil fun hnil => absurd (List.drop_eq_nil_iff.mp hnil) (by omega)
  have hlength : rest.length + 1 = units.length - start := by
    rw [← List.length_drop, hdrop, List.length_cons]
  have hmem : ∀ other ∈ unit :: rest, UnitFits other := fun other hother =>
    hunits other (List.mem_of_mem_drop (hdrop ▸ hother))
  have hunit := hmem unit List.mem_cons_self
  have hfirst : unitBytes unit ≤ u64Max := by
    rw [hunit.unitBytes_eq]
    exact hunit.bytes_le
  have hloop : batchLength cap (units.drop start) 0 0 =
      batchLength cap rest 1 (unitBytes unit) := by
    rw [hdrop, batchLength_cons unit hfirst]
  obtain ⟨hfrom, hto, hrest, hbytes⟩ := @batchLength_fits cap 1 (unitBytes unit) rest
    Nat.one_pos (by decide)
  have hnext : nextBatch units start cap = start + batchLength cap rest 1 (unitBytes unit) := by
    rw [← hloop]
    rfl
  have hbatch : (units.take (nextBatch units start cap)).drop start =
      unit :: rest.take (batchLength cap rest 1 (unitBytes unit) - 1) := by
    rw [List.drop_take, hdrop, hnext, Nat.add_sub_cancel_left]
    exact List.take_cons hfrom
  refine ⟨by omega, by omega, ?_⟩
  rw [hbatch]
  refine ⟨List.cons_ne_nil _ _, ?_, fun hcap => ?_⟩
  · rw [List.length_cons, List.length_take]
    omega
  · rcases hbytes hcap with hone | hbytes
    · left
      rw [hone, Nat.sub_self, List.take_zero]
      rfl
    · right
      have hexact : (unit :: rest.take (batchLength cap rest 1 (unitBytes unit) - 1)).map
          (fun other => memberBytes other.members) =
            (unit :: rest.take (batchLength cap rest 1 (unitBytes unit) - 1)).map unitBytes := by
        refine List.map_congr_left fun other hother => ?_
        have htaken : other ∈ unit :: rest :=
          (List.cons_subset_cons unit (List.take_subset _ rest)) hother
        exact ((hmem other htaken).unitBytes_eq).symm
      unfold batchBytes
      rw [hexact, List.map_cons, List.sum_cons]
      exact hbytes

/-! ## The cursor -/

variable {caps : Nat → UInt64}

/-- INTERNAL: one round of the publisher before it is done. -/
theorem cursor_step (hunits : ∀ unit ∈ units, UnitFits unit) {n : Nat}
    (h : batchCursor units caps n < units.length) :
    batchCursor units caps n < batchCursor units caps (n + 1) ∧
      batchCursor units caps (n + 1) ≤ units.length ∧
      BatchFits (caps n).toNat (publishBatch units caps n) := by
  have hround : batchCursor units caps (n + 1) =
      nextBatch units (batchCursor units caps n) (caps n).toNat := if_pos h
  unfold publishBatch
  rw [hround]
  exact nextBatch_fits hunits h

theorem cursor_le (hunits : ∀ unit ∈ units, UnitFits unit) (n : Nat) :
    batchCursor units caps n ≤ units.length ∧ min n units.length ≤ batchCursor units caps n := by
  induction n with
  | zero => exact ⟨Nat.zero_le _, Nat.min_le_left _ _⟩
  | succ n ih =>
    by_cases h : batchCursor units caps n < units.length
    · obtain ⟨hrise, hle, -⟩ := cursor_step hunits h
      omega
    · have hstay : batchCursor units caps (n + 1) = batchCursor units caps n := if_neg h
      rw [hstay]
      omega

/-- INTERNAL: the batches so far are the units before the cursor. -/
theorem batches_flatten (hunits : ∀ unit ∈ units, UnitFits unit) (n : Nat) :
    ((List.range n).map (publishBatch units caps)).flatten =
      units.take (batchCursor units caps n) := by
  induction n with
  | zero => rfl
  | succ n ih =>
    have hle : batchCursor units caps n ≤ batchCursor units caps (n + 1) := by
      by_cases h : batchCursor units caps n < units.length
      · exact (cursor_step hunits h).1.le
      · exact (if_neg h : batchCursor units caps (n + 1) = _).ge
    have hcut : units.take (batchCursor units caps n) =
        (units.take (batchCursor units caps (n + 1))).take (batchCursor units caps n) := by
      rw [List.take_take, Nat.min_eq_left hle]
    rw [List.range_succ, List.map_append, List.flatten_append, ih, hcut]
    unfold publishBatch
    rw [List.map_singleton, List.flatten_singleton, List.take_append_drop]

/-- INTERNAL: publish batching is an ordered partition, whatever the caps, and batches of several
units keep every cap that is not the largest number.
SRCLINE: mirage-ffi/src/publisher.rs:100-161 -/
theorem batching_partitions (pending : List UnpublishedPayload) (caps : Nat → UInt64) :
    (publishUnits pending).flatMap PublishUnit.members = pending ∧
    (∀ unit ∈ publishUnits pending, UnitFits unit) ∧
    ∃ steps ≤ (publishUnits pending).length,
      batchCursor (publishUnits pending) caps steps = (publishUnits pending).length ∧
      ((List.range steps).map (publishBatch (publishUnits pending) caps)).flatten =
        publishUnits pending ∧
      ∀ n < steps, BatchFits (caps n).toNat (publishBatch (publishUnits pending) caps n) := by
  obtain ⟨hmembers, hunits⟩ := publishUnits_fit pending
  refine ⟨hmembers, hunits, ?_⟩
  generalize publishUnits pending = units at hunits
  have hends : ∃ n, batchCursor units caps n = units.length := by
    have hlast := @cursor_le units caps hunits units.length
    exact ⟨units.length, by omega⟩
  have hdone := Nat.find_spec hends
  refine ⟨Nat.find hends, ?_, hdone, ?_, ?_⟩
  · have hlast := @cursor_le units caps hunits units.length
    exact Nat.find_min' hends (by omega)
  · rw [batches_flatten hunits, hdone, List.take_length]
  · intro n hn
    have hbefore := @cursor_le units caps hunits n
    have hnot := Nat.find_min hends hn
    exact (cursor_step hunits (by omega)).2.2

/-- INTERNAL: a large payload and seventeen small ones with a cap that two of the units exceed. -/
theorem two_units_batched :
    ((publishUnits (⟨7, 5000000⟩ :: List.replicate 17 ⟨8, 1000000⟩)).map fun unit =>
        unit.members.length) = [1, 16, 1] ∧
      ∃ steps ≤ 3, batchCursor (publishUnits (⟨7, 5000000⟩ :: List.replicate 17 ⟨8, 1000000⟩))
          (fun _ => 17000000) steps = 3 ∧
        ∀ n < steps, BatchFits 17000000 (publishBatch
          (publishUnits (⟨7, 5000000⟩ :: List.replicate 17 ⟨8, 1000000⟩))
          (fun _ => 17000000) n) := by
  have hunits : (publishUnits (⟨7, 5000000⟩ :: List.replicate 17 ⟨8, 1000000⟩)).map (fun unit =>
      unit.members.length) = [1, 16, 1] := by decide +kernel
  have hlength : (publishUnits (⟨7, 5000000⟩ :: List.replicate 17 ⟨8, 1000000⟩)).length = 3 := by
    rw [← List.length_map, hunits]
    rfl
  obtain ⟨-, -, steps, hsteps, hcursor, -, hfits⟩ :=
    batching_partitions (⟨7, 5000000⟩ :: List.replicate 17 ⟨8, 1000000⟩) fun _ => 17000000
  exact ⟨hunits, steps, hlength ▸ hsteps, hcursor.trans hlength, hfits⟩

/-- INTERNAL: with the cap `u64::MAX` the saturated sum of three large units is not above it. -/
theorem three_units_above_the_cap :
    ∃ pending, ∃ caps : Nat → UInt64, 1 < (publishBatch (publishUnits pending) caps 0).length ∧
      (caps 0).toNat < batchBytes (publishBatch (publishUnits pending) caps 0) := by
  refine ⟨[⟨1, Int64.maxValue⟩, ⟨2, Int64.maxValue⟩, ⟨3, Int64.maxValue⟩], fun _ => -1, ?_⟩
  decide +kernel

end Mirage.Analysis
