import Mirage.Analysis.ExtentMapRefinement
import Mirage.Computation.Checks

/-!
# The rows of a map

The intervals of a map with its holes filled tile the file from zero to its end.  So the
rows of a version are ordered and none is empty, and they fit the signed columns as soon as
the map stays below `i64::MAX`.
-/

set_option autoImplicit false

namespace Mirage.Analysis

open Mirage.Model Mirage.Model.ExtentMap Mirage.Interface Mirage.Computation

/-! ## Filling the holes -/

theorem fillHoles_tiles {l : List Interval} {cursor bound : Nat} (hb : bound ≤ u64Max)
    (hl : Spread bound l) (hfirst : ∀ iv ∈ l, cursor ≤ iv.start) :
    intervalChart.Tiles cursor (fillHoles l cursor).2 (fillHoles l cursor).1 ∧
      (fillHoles l cursor).2 ≤ max cursor bound := by
  induction l generalizing cursor with
  | nil => exact ⟨rfl, Nat.le_max_left _ _⟩
  | cons iv rest ih =>
    obtain ⟨hpos, hinside⟩ := hl.each iv List.mem_cons_self
    have hstart := hfirst iv List.mem_cons_self
    have hend : wrappingAdd iv.start iv.length = iv.start + iv.length :=
      wrappingAdd_eq (hinside.trans hb)
    have hnext : max cursor (iv.start + iv.length) = iv.start + iv.length :=
      Nat.max_eq_right (hstart.trans (Nat.le_add_right _ _))
    have hafter : ∀ x ∈ rest, iv.start + iv.length ≤ x.start :=
      (List.pairwise_cons.mp hl.ordered).1
    obtain ⟨htiles, hlast⟩ := ih hl.tail hafter
    have hbody : intervalChart.Tiles iv.start (fillHoles rest (iv.start + iv.length)).2
        (iv :: (fillHoles rest (iv.start + iv.length)).1) :=
      ⟨rfl, by change iv.start < iv.start + iv.length; omega, htiles⟩
    unfold fillHoles
    simp only [hend, hnext]
    constructor
    · split_ifs with hgap
      · refine ⟨rfl, ?_, ?_⟩
        · change cursor < cursor + (iv.start - cursor)
          omega
        · change intervalChart.Tiles (cursor + (iv.start - cursor)) _ _
          rw [Nat.add_sub_cancel' hstart]
          exact hbody
      · rw [show cursor = iv.start by omega]
        exact hbody
    · omega

variable {m m' : ExtentMap}

theorem filledIntervals_tile (hsize : m.fileSize ≤ u64Max) (h : Spread m.fileSize m.intervals) :
    intervalChart.Tiles 0 m.fileSize m.filledIntervals := by
  obtain ⟨htiles, hlast⟩ := fillHoles_tiles hsize h fun _ _ => Nat.zero_le _
  unfold filledIntervals
  simp only
  split_ifs with hgap
  · refine htiles.append ⟨rfl, ?_, ?_⟩
    · change (fillHoles m.intervals 0).2 <
        (fillHoles m.intervals 0).2 + (m.fileSize - (fillHoles m.intervals 0).2)
      omega
    · change (fillHoles m.intervals 0).2 + (m.fileSize - (fillHoles m.intervals 0).2) = m.fileSize
      omega
  · have heq : (fillHoles m.intervals 0).2 = m.fileSize := by omega
    rw [← heq]
    exact htiles

/-! ## Maps that fit the signed columns -/

theorem wrappingI64_eq {a : Int} (h0 : -(2 ^ 63) ≤ a) (h1 : a < 2 ^ 63) : wrappingI64 a = a := by
  unfold wrappingI64
  rw [Int.bmod_eq_of_le]
  · omega
  · omega

/-! ## The checks -/

theorem tiles_mem {l : List Interval} {s e : Nat} (h : intervalChart.Tiles s e l) :
    s ≤ e ∧ ∀ iv ∈ l, 0 < iv.length ∧ iv.start + iv.length ≤ e := by
  induction l generalizing s with
  | nil =>
    have hse : s = e := h
    exact ⟨hse.le, fun iv hiv => (List.not_mem_nil hiv).elim⟩
  | cons a rest ih =>
    obtain ⟨hlo, hlt, htail⟩ := h
    obtain ⟨hle, hrest⟩ := ih htail
    change a.start = s at hlo
    change s < a.start + a.length at hlt
    change a.start + a.length ≤ e at hle
    refine ⟨by omega, fun iv hiv => ?_⟩
    rcases List.mem_cons.mp hiv with rfl | hiv
    · exact ⟨by omega, hle⟩
    · exact hrest iv hiv

theorem validate_extentOf {v : RepositoryId} {i : InodeId} {version nowNs : Int}
    {id : BitVec 128} {iv : Interval} (h : 0 < iv.length) :
    (extentOf v i version nowNs id iv).validate = .ok () := by
  obtain ⟨start, length, source⟩ := iv
  have hlen : (extentOf v i version nowNs id ⟨start, length, source⟩).length = length := by
    cases source with
    | base | dirty | zero => rfl
  have hcoherent : (extentOf v i version nowNs id ⟨start, length, source⟩).coherent = true := by
    cases source with
    | base | dirty | zero => rfl
  unfold ByteExtent.validate
  rw [hlen, hcoherent, if_neg (Nat.ne_of_gt h), if_pos rfl]

theorem extentOf_key (v : RepositoryId) (i : InodeId) (version nowNs : Int) (id : BitVec 128)
    (iv : Interval) :
    (extentOf v i version nowNs id iv).start = iv.start ∧
    (extentOf v i version nowNs id iv).length = iv.length ∧
    (extentOf v i version nowNs id iv).volumeId = v ∧
    (extentOf v i version nowNs id iv).inode = i ∧
    (extentOf v i version nowNs id iv).extentId = id := by
  obtain ⟨start, length, source⟩ := iv
  cases source with
  | base | dirty | zero => exact ⟨rfl, rfl, rfl, rfl, rfl⟩

/-!
## A map and its rows

The rows of a map are its intervals with a zero row for every hole.  A read emits zeros for a
hole where it emits the slice of the zero row after a replay, so the two maps answer every read
with the same slices.  Nothing is asked of the offsets into payloads here: where they wrap they
wrap alike.
-/

/-! ## The shape of a map -/

/-- INTERNAL: the intervals of a map stand one before the other below its end. -/
structure Shaped (m : ExtentMap) : Prop where
  size : m.fileSize ≤ u64Max
  intervals : Spread m.fileSize m.intervals

theorem shaped_seedBase {length : Nat} {identity : PageHash} (h : Shaped m)
    (hlength : length ≤ u64Max) : Shaped (m.seedBase length identity) := by
  unfold seedBase
  split_ifs with hnothing
  · exact h
  · rw [not_or] at hnothing
    refine ⟨max_le h.size hlength, fun iv hiv => ?_, List.pairwise_singleton _ _⟩
    obtain rfl := List.mem_singleton.mp hiv
    exact ⟨Nat.pos_of_ne_zero hnothing.1, by dsimp only; omega⟩

theorem shaped_writeAt {start length offset : Nat} {payloadId : PayloadId} (h : Shaped m)
    (hok : m.writeAt start length payloadId offset = .ok m') : Shaped m' := by
  unfold writeAt at hok
  split_ifs at hok with hzero
  · obtain rfl := Except.ok.inj hok
    exact h
  · cases hsum : checkedAdd start length with
    | none => simp [hsum] at hok
    | some hi =>
      obtain ⟨rfl, hle⟩ := checkedAdd_eq_some hsum
      simp only [hsum, Except.ok.injEq] at hok
      subst hok
      have hsize : max m.fileSize (start + length) ≤ u64Max := max_le h.size hle
      exact ⟨hsize, coalesce_spread hsize
        (splice_spread h.intervals h.size rfl rfl (Nat.pos_of_ne_zero hzero))⟩

theorem shaped_step {op : ExtentOp} (h : Shaped m) (hok : op.apply m = .ok m') : Shaped m' := by
  have hu64 (x : UInt64) : x.toNat ≤ u64Max := Nat.le_pred_of_lt x.toNat_lt
  cases op with
  | seedBase length identity =>
    obtain rfl := Except.ok.inj hok
    exact shaped_seedBase h (hu64 length)
  | writeAt start length payloadId offset => exact shaped_writeAt h hok
  | truncate newSize =>
    obtain rfl := Except.ok.inj hok
    exact ⟨hu64 newSize, clip_spread _ h.size h.intervals⟩

/-! ## Whole runs -/

theorem version_step {op : ExtentOp} (hok : op.apply m = .ok m') :
    m'.version = m.version ∨ m'.version = wrappingI64 (m.version + 1) := by
  cases op with
  | seedBase length identity =>
    obtain rfl := Except.ok.inj hok
    unfold seedBase
    split_ifs
    · exact Or.inl rfl
    · exact Or.inl rfl
  | writeAt start length payloadId offset =>
    change m.writeAt _ _ _ _ = _ at hok
    unfold writeAt at hok
    split_ifs at hok
    · obtain rfl := Except.ok.inj hok
      exact Or.inl rfl
    · cases hsum : checkedAdd start.toNat length.toNat with
      | none => simp [hsum] at hok
      | some hi =>
        simp only [hsum, Except.ok.injEq] at hok
        subst hok
        exact Or.inr rfl
  | truncate newSize =>
    obtain rfl := Except.ok.inj hok
    exact Or.inr rfl

/-- INTERNAL: the map after these mutations of a new one. -/
def runOps (ops : List ExtentOp) : Except MirageError ExtentMap :=
  ops.foldlM (fun m op => op.apply m) ExtentMap.default

theorem shaped_runOps {ops : List ExtentOp} (h : runOps ops = .ok m) : Shaped m :=
  foldlM_keeps Shaped h ⟨Nat.zero_le _, fun _ hiv => (List.not_mem_nil hiv).elim, .nil⟩
    fun _ _ _ _ hb hstep => shaped_step hb hstep

/-- INTERNAL: versions count the mutations until they wrap. -/
theorem version_foldlM {ops : List ExtentOp} {n : Nat}
    (hrun : ops.foldlM (fun m op => op.apply m) m = .ok m') (hversion : 0 ≤ m.version)
    (hn : m.version ≤ n) (hless : n + ops.length < 2 ^ 63) : 0 ≤ m'.version := by
  induction ops generalizing m n with
  | nil =>
    obtain rfl := Except.ok.inj hrun
    exact hversion
  | cons op ops ih =>
    rw [List.foldlM_cons, except_bind_ok] at hrun
    obtain ⟨next, hnext, hrest⟩ := hrun
    rw [List.length_cons] at hless
    have hbound : 0 ≤ next.version ∧ next.version ≤ (n + 1 : Nat) := by
      rcases version_step hnext with h | h
      · omega
      · rw [h, wrappingI64_eq (by omega) (by omega)]
        omega
    exact ih hrest hbound.1 hbound.2 (by omega)

/-! ## Reads -/

section Reads

variable {hi cursor start size : Nat} {iv : Interval} {l : List Interval}

/-- INTERNAL: what a read of everything up to `hi` emits from the cursor on. -/
def readUpTo (hi : Nat) (l : List Interval) (cursor : Nat) : List ExtentSlice :=
  let (slices, last) := readLoop hi l cursor
  if last < hi then slices ++ [.zero last (hi - last)] else slices

/-- INTERNAL: the intervals from an offset to the end of file, holes included. -/
def filledFrom (size : Nat) (l : List Interval) (start : Nat) : List Interval :=
  let (filled, cursor) := fillHoles l start
  if cursor < size then filled ++ [⟨cursor, size - cursor, .zero⟩] else filled

theorem filledFrom_cons (hstart : start ≤ iv.start) (hb : iv.start + iv.length ≤ u64Max) :
    filledFrom size (iv :: l) start =
      (if start < iv.start then [⟨start, iv.start - start, .zero⟩] else []) ++
        iv :: filledFrom size l (iv.start + iv.length) := by
  have hnext : max start (wrappingAdd iv.start iv.length) = iv.start + iv.length := by
    rw [wrappingAdd_eq hb]
    exact Nat.max_eq_right (hstart.trans (Nat.le_add_right _ _))
  unfold filledFrom
  rw [fillHoles, hnext]
  dsimp only
  split_ifs
  all_goals simp only [List.append_assoc, List.cons_append]

theorem readUpTo_skip (hb : iv.start + iv.length ≤ u64Max) (h : iv.start + iv.length ≤ cursor) :
    readUpTo hi (iv :: l) cursor = readUpTo hi l cursor := by
  unfold readUpTo
  rw [readLoop_skip hb h]

theorem readUpTo_past (hb : iv.start + iv.length ≤ u64Max) (hc : cursor < hi)
    (h : hi ≤ iv.start) : readUpTo hi (iv :: l) cursor = [.zero cursor (hi - cursor)] := by
  unfold readUpTo
  rw [readLoop_past hb hc h]
  exact if_neg (Nat.lt_irrefl hi)

theorem readUpTo_gap (hb : iv.start + iv.length ≤ u64Max) (hpos : 0 < iv.length)
    (hc : cursor < iv.start) (h : iv.start < hi) :
    readUpTo hi (iv :: l) cursor =
      .zero cursor (iv.start - cursor) :: readUpTo hi (iv :: l) iv.start := by
  unfold readUpTo
  rw [readLoop_gap hb hpos hc h]
  dsimp only
  split_ifs
  · rfl
  · rfl

theorem readUpTo_inside (hb : iv.start + iv.length ≤ u64Max) (hc : iv.start ≤ cursor)
    (hend : cursor < iv.start + iv.length) (h : cursor < hi) :
    readUpTo hi (iv :: l) cursor =
      if hi ≤ iv.start + iv.length then [sliceOf iv cursor hi]
      else sliceOf iv cursor (iv.start + iv.length) :: readUpTo hi l (iv.start + iv.length) := by
  unfold readUpTo
  rw [readLoop_inside hb hc hend h]
  split_ifs with hlast
  · exact if_neg (Nat.lt_irrefl hi)
  · dsimp only
    split_ifs
    · rfl
    · rfl

/-- INTERNAL: filling the holes changes no read. -/
theorem readUpTo_filledFrom (hsize : size ≤ u64Max) (hl : Spread size l)
    (hfirst : ∀ iv ∈ l, start ≤ iv.start) (hc : start ≤ cursor) (hlast : cursor < hi)
    (hhi : hi ≤ size) : readUpTo hi (filledFrom size l start) cursor = readUpTo hi l cursor := by
  induction l generalizing start cursor with
  | nil =>
    have hfilled : filledFrom size [] start = [⟨start, size - start, .zero⟩] :=
      if_pos (by omega)
    rw [hfilled, readUpTo_inside (by dsimp only; omega) hc (by dsimp only; omega) hlast,
      if_pos (by dsimp only; omega)]
    exact (if_pos hlast).symm
  | cons iv l ih =>
    obtain ⟨hpos, hinside⟩ := hl.each iv List.mem_cons_self
    have hb := hinside.trans hsize
    have hafter : ∀ x ∈ l, iv.start + iv.length ≤ x.start := (List.pairwise_cons.mp hl.ordered).1
    -- From the start of the interval on both lists begin with it.
    have hfrom (cursor : Nat) (hcursor : iv.start ≤ cursor) (hless : cursor < hi) :
        readUpTo hi (iv :: filledFrom size l (iv.start + iv.length)) cursor =
          readUpTo hi (iv :: l) cursor := by
      by_cases hskip : iv.start + iv.length ≤ cursor
      · rw [readUpTo_skip hb hskip, readUpTo_skip hb hskip]
        exact ih hl.tail hafter hskip hless
      · have hin := Nat.lt_of_not_le hskip
        rw [readUpTo_inside hb hcursor hin hless, readUpTo_inside hb hcursor hin hless]
        split_ifs with hserved
        · rfl
        · rw [ih hl.tail hafter le_rfl (Nat.lt_of_not_le hserved)]
    rw [filledFrom_cons (hfirst iv List.mem_cons_self) hb]
    split_ifs with hgap
    · have hzero : start + (iv.start - start) = iv.start := Nat.add_sub_cancel' hgap.le
      have hbz : start + (iv.start - start) ≤ u64Max := by omega
      by_cases hbefore : cursor < iv.start
      · -- The cursor is in the hole.
        rw [List.singleton_append, readUpTo_inside hbz hc (by rw [hzero]; exact hbefore) hlast]
        dsimp only
        rw [hzero]
        split_ifs with hpast
        · rw [readUpTo_past hb hlast hpast]
          rfl
        · have hless := Nat.lt_of_not_le hpast
          rw [readUpTo_gap hb hpos hbefore hless, hfrom iv.start le_rfl hless]
          rfl
      · have hcursor := Nat.le_of_not_lt hbefore
        rw [List.singleton_append, readUpTo_skip hbz (by rw [hzero]; exact hcursor)]
        exact hfrom cursor hcursor hlast
    · have hat := hfirst iv List.mem_cons_self
      exact hfrom cursor (by omega) hlast

end Reads

/-! ## Rows -/

section Rows

variable {m : ExtentMap} (volumeId : RepositoryId) (inode : InodeId) (version nowNs : Int)
  (ids : Nat → BitVec 128)

/-- INTERNAL: a row is read back as the interval it was written for. -/
theorem interval_extentOf (id : BitVec 128) (iv : Interval) :
    (⟨(extentOf volumeId inode version nowNs id iv).start,
      (extentOf volumeId inode version nowNs id iv).length,
      sourceOf (extentOf volumeId inode version nowNs id iv)⟩ : Interval) = iv := by
  obtain ⟨start, length, source⟩ := iv
  cases source with
  | base | dirty | zero => rfl

theorem intervals_toExtents :
    ((m.toExtents volumeId inode version nowNs ids).map fun e =>
      (⟨e.start, e.length, sourceOf e⟩ : Interval)) = m.filledIntervals := by
  unfold toExtents
  refine List.ext_getElem? fun i => ?_
  rw [List.getElem?_map, List.getElem?_mapIdx, Option.map_map]
  cases m.filledIntervals[i]? with
  | none => rfl
  | some iv => exact congrArg some (interval_extentOf volumeId inode version nowNs (ids i) iv)

theorem mem_toExtents {row : ByteExtent}
    (h : row ∈ m.toExtents volumeId inode version nowNs ids) :
    ∃ id, ∃ iv ∈ m.filledIntervals, row = extentOf volumeId inode version nowNs id iv := by
  unfold toExtents at h
  obtain ⟨i, hi, rfl⟩ := List.mem_mapIdx.mp h
  exact ⟨ids i, m.filledIntervals[i], List.getElem_mem hi, rfl⟩

theorem ordered_of_tiles {l : List Interval} {s e : Nat} (h : intervalChart.Tiles s e l) :
    (∀ iv ∈ l, s ≤ iv.start) ∧ l.Pairwise fun a b => a.start + a.length ≤ b.start := by
  induction l generalizing s with
  | nil => exact ⟨nofun, .nil⟩
  | cons a rest ih =>
    obtain ⟨hlo, hlt, htail⟩ := h
    obtain ⟨hfirst, hordered⟩ := ih htail
    change a.start = s at hlo
    change s < a.start + a.length at hlt
    refine ⟨List.forall_mem_cons.mpr ⟨hlo.ge, fun iv hiv => ?_⟩,
      List.pairwise_cons.mpr ⟨hfirst, hordered⟩⟩
    exact hlt.le.trans (hfirst iv hiv)

/-- INTERNAL: the rows are sorted already, so a replay has the filled intervals. -/
theorem replay_toExtents (h : Shaped m) :
    (replay (m.toExtents volumeId inode version nowNs ids)).intervals = m.filledIntervals := by
  obtain ⟨-, hordered⟩ := ordered_of_tiles (filledIntervals_tile h.size h.intervals)
  change sortByStart _ = _
  rw [intervals_toExtents]
  exact (hordered.imp fun hab => (Nat.le_add_right _ _).trans hab).insertionSort_eq

theorem version_replay (hversion : 0 ≤ version) :
    max (replay (m.toExtents volumeId inode version nowNs ids)).version version = version := by
  have hrows : ∀ row ∈ m.toExtents volumeId inode version nowNs ids, row.version = version := by
    intro row hrow
    obtain ⟨id, iv, -, rfl⟩ := mem_toExtents volumeId inode version nowNs ids hrow
    obtain ⟨start, length, source⟩ := iv
    cases source with
    | base | dirty | zero => rfl
  have hmax (rows : List ByteExtent) (hrows : ∀ row ∈ rows, row.version = version) (first : Int)
      (hfirst : first ≤ version) :
      rows.foldl (fun version e => max version e.version) first ≤ version := by
    induction rows generalizing first with
    | nil => exact hfirst
    | cons row rows ih =>
      obtain ⟨hrow, hrows⟩ := List.forall_mem_cons.mp hrows
      exact ih hrows _ (max_le hfirst hrow.le)
  exact max_eq_right (hmax _ hrows 0 hversion)

end Rows

/-- INTERNAL: two maps of one size whose reads up to any offset agree. -/
theorem read_congr (hsize : m'.fileSize = m.fileSize)
    (hreads : ∀ hi cursor, cursor < hi → hi ≤ m.fileSize →
      readUpTo hi m'.intervals cursor = readUpTo hi m.intervals cursor) (start length : Nat) :
    m'.read start length = m.read start length := by
  unfold ExtentMap.read
  rw [hsize]
  by_cases hnothing : length = 0 ∨ m.fileSize ≤ start
  · rw [if_pos hnothing, if_pos hnothing]
  · rw [if_neg hnothing, if_neg hnothing]
    rw [not_or] at hnothing
    cases hsum : checkedAdd start length with
    | none => rfl
    | some sum =>
      obtain ⟨rfl, -⟩ := checkedAdd_eq_some hsum
      exact congrArg Except.ok (hreads _ _ (by omega) (Nat.min_le_right _ _))

/-- INTERNAL: for every map that mutations of a new map lead to, the rows pass their checks, stand
one before the other and end by the end of file; and the map that they are read back as, with the
head, has the same size and answers every read with the same slices, and it has the same version
unless the version has wrapped.
SRCLINE: mirage-engine/src/extent_map.rs:98-148, 369-440, 620-697 -/
theorem extents_round_trip (ops : List ExtentOp) {m : ExtentMap} (hrun : runOps ops = .ok m)
    (volumeId : RepositoryId) (inode : InodeId) (nowNs : Int) (ids : Nat → BitVec 128) :
    let rows := m.toExtents volumeId inode m.version nowNs ids
    let restored := (ExtentMap.replay rows).setHead m.version m.fileSize
    (∀ row ∈ rows, row.validate = .ok () ∧ 0 < row.length ∧
      row.start + row.length ≤ m.fileSize) ∧
    rows.Pairwise (fun a b => a.start + a.length ≤ b.start) ∧
    restored.fileSize = m.fileSize ∧
    (ops.length < 2 ^ 63 → restored.version = m.version) ∧
    ∀ start length, restored.read start length = m.read start length := by
  have hshaped := shaped_runOps hrun
  have htiles := filledIntervals_tile hshaped.size hshaped.intervals
  refine ⟨fun row hrow => ?_, ?_, rfl, fun hless => ?_, ?_⟩
  · obtain ⟨id, iv, hiv, rfl⟩ := mem_toExtents volumeId inode m.version nowNs ids hrow
    obtain ⟨hpos, hend⟩ := (tiles_mem htiles).2 iv hiv
    obtain ⟨hstart, hlength, -⟩ := extentOf_key volumeId inode m.version nowNs id iv
    rw [hstart, hlength]
    exact ⟨validate_extentOf hpos, hpos, hend⟩
  · have hordered := (ordered_of_tiles htiles).2
    rw [← intervals_toExtents volumeId inode m.version nowNs ids, List.pairwise_map] at hordered
    exact hordered
  · exact version_replay volumeId inode m.version nowNs ids
      (version_foldlM (n := 0) hrun le_rfl le_rfl (by omega))
  · refine read_congr rfl fun hi cursor hcursor hhi => ?_
    change readUpTo hi (replay _).intervals cursor = _
    rw [replay_toExtents volumeId inode m.version nowNs ids hshaped]
    exact readUpTo_filledFrom hshaped.size hshaped.intervals (fun _ _ => Nat.zero_le _)
      (Nat.zero_le _) hcursor hhi

/-- INTERNAL: a new file, grown over a hole. -/
theorem rows_of_grown_file :
    let ops : List ExtentOp := [.writeAt 2 3 7 0, .truncate 9]
    ∃ m, runOps ops = .ok m ∧
      ((ExtentMap.replay (m.toExtents 1 2 m.version 0 fun n => BitVec.ofNat 128 n)).setHead
          m.version m.fileSize).version = m.version ∧
      m.read 0 9 = .ok [.zero 0 2, .dirty 2 3 7 0, .zero 5 4] := by
  refine ⟨⟨[⟨2, 3, .dirty 7 0⟩], 2, 9, false⟩, by decide, ?_, by decide⟩
  exact (extents_round_trip [.writeAt 2 3 7 0, .truncate 9] (by decide) 1 2 0
    fun n => BitVec.ofNat 128 n).2.2.2.1 (by decide)

/-- INTERNAL: a file that was cut to nothing this often. -/
theorem runOps_truncates (n : Nat) : runOps (List.replicate n (.truncate 0)) =
    .ok ⟨[], wrappingI64 n, 0, false⟩ := by
  induction n with
  | zero => rfl
  | succ n ih =>
    have hnext : wrappingI64 (wrappingI64 n + 1) = wrappingI64 (n + 1 : Nat) := by
      unfold wrappingI64
      push_cast
      exact Int.bmod_add_bmod
    have hstep (version : Int) : (ExtentOp.truncate 0).apply ⟨[], version, 0, false⟩ =
        .ok ⟨[], wrappingI64 (version + 1), 0, false⟩ := rfl
    unfold runOps at ih ⊢
    rw [List.replicate_succ', List.foldlM_append, ok_bind ih, List.foldlM_cons, ok_bind (hstep _),
      hnext]
    rfl

/-- INTERNAL: a version that has wrapped is negative, and a replay starts at zero. -/
theorem wrapped_version_lost : ∃ ops m, runOps ops = .ok m ∧ ∀ volumeId inode nowNs ids,
    ((ExtentMap.replay (m.toExtents volumeId inode m.version nowNs ids)).setHead m.version
      m.fileSize).version ≠ m.version := by
  have hlost (version : Int) (hversion : version < 0) : max 0 version ≠ version := by omega
  exact ⟨_, _, runOps_truncates (2 ^ 63), fun _ _ _ _ => hlost _ (by decide)⟩

end Mirage.Analysis
