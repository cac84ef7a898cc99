import Mirage.Analysis.CleanupJournal
import Mirage.Model.SophonHistory

/-!
# The access history is bounded and durable

A history is described by the calls that recorded it: it holds the keys that were recorded last.
What it holds is small enough for its profile, so it is written and read back as it is.
-/

set_option autoImplicit false

namespace Mirage.Analysis

open Mirage.Computation Mirage.Computation.Effect Mirage.Model Mirage.Model.History

/-! ## Histories of calls -/

structure RecordCall where
  key : ChunkKey
  bytes : Nat
  elapsedUs : Nat

/-- INTERNAL: the history after calls, the newest of which is first. -/
def historyAfter (generation : ChunkKey) : List RecordCall → History
  | [] => fresh generation
  | call :: older => (historyAfter generation older).record call.key call.bytes call.elapsedUs

/-- INTERNAL: the sizes of chunks. -/
def Sized (calls : List RecordCall) : Prop := ∀ call ∈ calls, 1 ≤ call.bytes ∧ call.bytes ≤ maxChunk

/-- INTERNAL: the place of the last record of a key. -/
def recordedAt (calls : List RecordCall) (key : ChunkKey) : Nat :=
  lastUse (fun call => some call.key) key calls

/-- INTERNAL: what is held was recorded, and later than all that is not held, which there is only
when the history is full. -/
structure MostRecent (calls : List RecordCall) (entries : List Access) : Prop where
  recorded : ∀ entry ∈ entries, 0 < recordedAt calls entry.key
  latest : ∀ key, 0 < recordedAt calls key → key ∉ entries.map Access.key →
    entries.length = maxEntries ∧
      ∀ entry ∈ entries, recordedAt calls key < recordedAt calls entry.key

/-! ## Changes of the entries -/

section Changes

variable {entries : List Access} {key : ChunkKey}

theorem modifyFirst_eq_map {f : Access → Access} (h : (entries.map Access.key).Nodup) :
    modifyFirst key f entries = entries.map fun e => if e.key = key then f e else e := by
  induction entries with
  | nil => rfl
  | cons entry rest ih =>
    obtain ⟨hfirst, hrest⟩ := List.nodup_cons.mp h
    rw [modifyFirst, List.map_cons]
    split_ifs with hkey
    · have hsame : rest.map (fun e => if e.key = key then f e else e) = rest := by
        refine (List.map_congr_left fun e he => ?_).trans (List.map_id rest)
        refine if_neg fun heq => hfirst ?_
        rw [hkey, ← heq]
        exact List.mem_map_of_mem he
      rw [hsame]
    · rw [ih hrest]

theorem keys_modifyFirst {f : Access → Access} (hf : ∀ e, (f e).key = e.key) :
    (modifyFirst key f entries).map Access.key = entries.map Access.key := by
  induction entries with
  | nil => rfl
  | cons entry rest ih =>
    rw [modifyFirst]
    split_ifs
    · rw [List.map_cons, List.map_cons, hf]
    · rw [List.map_cons, List.map_cons, ih]

/-- INTERNAL: the removed element and what is left are all elements. -/
theorem perm_swapRemove {index : Nat} {old : Access} (h : entries[index]? = some old) :
    entries.Perm (old :: swapRemove entries index) := by
  obtain ⟨hlt, hold⟩ := List.getElem?_eq_some_iff.mp h
  have hne : entries ≠ [] := List.ne_nil_of_length_pos (by omega)
  obtain ⟨rest, last, rfl⟩ : ∃ rest last, entries = rest ++ [last] :=
    ⟨entries.dropLast, entries.getLast hne, (List.dropLast_append_getLast hne).symm⟩
  unfold swapRemove
  rw [List.getLast?_concat]
  dsimp only
  rw [List.length_append, List.length_singleton] at hlt
  by_cases hlast : index = rest.length
  · subst hlast
    rw [List.getElem_concat_length rfl] at hold
    rw [List.set_append_right _ _ (Nat.le_refl _), Nat.sub_self, List.set_cons_zero,
      List.dropLast_concat, hold]
    exact List.perm_append_singleton old rest
  · have hin : index < rest.length := by omega
    rw [List.getElem_append_left hin] at hold
    rw [List.set_append_left _ _ hin, List.dropLast_concat]
    have hsplit : rest = rest.take index ++ old :: rest.drop (index + 1) := by
      rw [← hold, List.getElem_cons_drop, List.take_append_drop]
    rw [List.set_eq_take_append_cons_drop, if_pos hin]
    nth_rewrite 1 [hsplit]
    rw [List.append_assoc, List.cons_append]
    refine List.perm_middle.trans ((List.Perm.cons old ?_))
    rw [← List.append_assoc]
    exact (List.perm_append_singleton last _).trans List.perm_middle.symm

/-- INTERNAL: a full list loses an entry with the least tick. -/
theorem makeRoom_cases (entries : List Access) :
    entries.length ≠ maxEntries ∧ makeRoom entries = entries ∨
      entries.length = maxEntries ∧ ∃ old, entries.Perm (old :: makeRoom entries) ∧
        ∀ e ∈ entries, old.tick ≤ e.tick := by
  unfold makeRoom
  split_ifs with hfull
  · refine .inr ⟨hfull, ?_⟩
    cases hindex : oldestIndex entries with
    | none =>
      have hnil := firstMin_none hindex
      rw [List.map_eq_nil_iff] at hnil
      have hlength := congrArg List.length hnil
      rw [List.length_zipIdx, hfull] at hlength
      cases hlength
    | some index =>
      obtain ⟨tick, hmem, hleast⟩ := firstMin_mem hindex
      obtain ⟨⟨old, place⟩, hold, heq⟩ := List.mem_map.mp hmem
      obtain ⟨rfl, rfl⟩ := Prod.mk.inj heq
      refine ⟨old, perm_swapRemove (List.mem_zipIdx_iff_getElem?.mp hold), fun e he => ?_⟩
      obtain ⟨i, hi⟩ := List.mem_iff_getElem?.mp he
      exact hleast _ (List.mem_map_of_mem (List.mem_zipIdx_iff_getElem?.mpr hi : (e, i) ∈ _))
  · exact .inl ⟨hfull, rfl⟩

end Changes

/-! ## Bounds -/

section Bounds

variable {entries : List Access} {history : History} {generation key : ChunkKey}

theorem makeRoom_sub {e : Access} (h : e ∈ makeRoom entries) : e ∈ entries := by
  rcases makeRoom_cases entries with ⟨-, hsame⟩ | ⟨-, old, hperm, -⟩
  · rwa [hsame] at h
  · exact hperm.mem_iff.mpr (List.mem_cons_of_mem old h)

theorem makeRoom_nodup (h : (entries.map Access.key).Nodup) :
    ((makeRoom entries).map Access.key).Nodup := by
  rcases makeRoom_cases entries with ⟨-, hsame⟩ | ⟨-, old, hperm, -⟩
  · rwa [hsame]
  · exact (List.nodup_cons.mp ((hperm.map Access.key).nodup_iff.mp h)).2

theorem makeRoom_length (h : entries.length ≤ maxEntries) :
    (makeRoom entries).length + 1 ≤ maxEntries := by
  rcases makeRoom_cases entries with ⟨hroom, hsame⟩ | ⟨hfull, old, hperm, -⟩
  · rw [hsame]
    omega
  · rw [← List.length_cons (a := old), ← hperm.length_eq]
    exact h

/-- INTERNAL: the fields of an entry are numbers of `u64`, and pass the checks of a reader. -/
structure AccessOk (tick : Nat) (entry : Access) : Prop where
  nonempty : 1 ≤ entry.bytes
  bytes : entry.bytes ≤ maxChunk
  tick : entry.tick ≤ tick
  counted : 1 ≤ entry.count
  count : entry.count ≤ u64Max
  cost : entry.costUs ≤ u64Max

structure HistoryOk (generation : ChunkKey) (history : History) : Prop where
  generation : history.generation = generation
  count : history.entries.length ≤ maxEntries
  distinct : (history.entries.map Access.key).Nodup
  tick : history.tick ≤ u64Max
  entries : ∀ entry ∈ history.entries, AccessOk history.tick entry

theorem saturatingAdd_le (a b : Nat) : saturatingAdd a b ≤ u64Max := Nat.min_le_right _ _

theorem le_saturatingAdd {a : Nat} (h : a ≤ u64Max) (b : Nat) : a ≤ saturatingAdd a b :=
  Nat.le_min.mpr ⟨Nat.le_add_right a b, h⟩

theorem AccessOk.later {tick tick' : Nat} {entry : Access} (h : AccessOk tick entry)
    (hle : tick ≤ tick') : AccessOk tick' entry :=
  { h with tick := Nat.le_trans h.tick hle }

theorem AccessOk.touch {tick tick' cost : Nat} {entry : Access} (h : AccessOk tick entry) :
    AccessOk tick' (touch tick' cost entry) where
  nonempty := h.nonempty
  bytes := h.bytes
  tick := Nat.le_refl _
  counted := Nat.le_trans h.counted (le_saturatingAdd h.count 1)
  count := saturatingAdd_le _ _
  cost := saturatingAdd_le _ _

theorem record_known (h : key ∈ history.entries.map Access.key) (bytes elapsedUs : Nat) :
    (history.record key bytes elapsedUs).entries =
      modifyFirst key (touch (saturatingAdd history.tick 1) (min elapsedUs u64Max))
        history.entries :=
  if_pos h

theorem record_new (h : key ∉ history.entries.map Access.key) (bytes elapsedUs : Nat) :
    (history.record key bytes elapsedUs).entries = makeRoom history.entries ++
      [⟨key, bytes, 1, saturatingAdd history.tick 1, min elapsedUs u64Max⟩] :=
  if_neg h

theorem historyOk_record (h : HistoryOk generation history) (key : ChunkKey) {bytes : Nat}
    (elapsedUs : Nat) (hsize : 1 ≤ bytes ∧ bytes ≤ maxChunk) :
    HistoryOk generation (history.record key bytes elapsedUs) := by
  have hlater := le_saturatingAdd h.tick 1
  by_cases hkey : key ∈ history.entries.map Access.key
  · have hentries := record_known hkey bytes elapsedUs
    have hkeys : ((history.record key bytes elapsedUs).entries).map Access.key =
        history.entries.map Access.key := by
      rw [hentries]
      exact keys_modifyFirst fun e => rfl
    refine ⟨h.generation, ?_, hkeys ▸ h.distinct, saturatingAdd_le _ _, fun entry hentry => ?_⟩
    · rw [← List.length_map (f := Access.key), hkeys, List.length_map]
      exact h.count
    · rw [hentries, modifyFirst_eq_map h.distinct] at hentry
      obtain ⟨e, he, rfl⟩ := List.mem_map.mp hentry
      split_ifs
      · exact (h.entries e he).touch
      · exact (h.entries e he).later hlater
  · have hentries := record_new hkey bytes elapsedUs
    refine ⟨h.generation, ?_, ?_, saturatingAdd_le _ _, fun entry hentry => ?_⟩
    · rw [hentries, List.length_append]
      exact makeRoom_length h.count
    · rw [hentries, List.map_append]
      refine List.Nodup.append (makeRoom_nodup h.distinct) (List.nodup_singleton _) ?_
      intro other hother hnew
      rw [List.mem_singleton.mp hnew] at hother
      obtain ⟨e, he, heq⟩ := List.mem_map.mp hother
      exact hkey (List.mem_map.mpr ⟨e, makeRoom_sub he, heq⟩)
    · rw [hentries] at hentry
      rcases List.mem_append.mp hentry with hold | hnew
      · exact (h.entries entry (makeRoom_sub hold)).later hlater
      · obtain rfl := List.mem_singleton.mp hnew
        exact ⟨hsize.1, hsize.2, Nat.le_refl _, Nat.le_refl _, by dsimp only; decide,
          Nat.min_le_right _ _⟩

theorem historyOk_after {calls : List RecordCall} (hsizes : Sized calls) :
    HistoryOk generation (historyAfter generation calls) := by
  induction calls with
  | nil => exact ⟨rfl, Nat.zero_le _, List.nodup_nil, Nat.zero_le _, nofun⟩
  | cons call older ih =>
    obtain ⟨hfirst, hrest⟩ := List.forall_mem_cons.mp hsizes
    exact historyOk_record (ih hrest) call.key call.elapsedUs hfirst

end Bounds

/-! ## Recency -/

section Recency

variable {entries : List Access} {history : History} {generation key : ChunkKey}
  {calls : List RecordCall}

/-- INTERNAL: when an entry was recorded last. -/
def tickOf (entries : List Access) (key : ChunkKey) : Option Nat :=
  (entries.find? fun e => e.key = key).map Access.tick

theorem tickOf_eq_some (h : (entries.map Access.key).Nodup) {tick : Nat} :
    tickOf entries key = some tick ↔ ∃ e ∈ entries, e.key = key ∧ e.tick = tick := by
  unfold tickOf
  rw [Option.map_eq_some_iff]
  constructor
  · rintro ⟨e, hfind, htick⟩
    have hkey := List.find?_some hfind
    exact ⟨e, List.mem_of_find?_eq_some hfind, of_decide_eq_true hkey, htick⟩
  · rintro ⟨e, he, hkey, htick⟩
    obtain ⟨found, hfound⟩ : ∃ found, entries.find? (fun e => e.key = key) = some found :=
      Option.isSome_iff_exists.mp (List.find?_isSome.mpr ⟨e, he, decide_eq_true hkey⟩)
    have hsame : found = e := by
      have hfoundKey := List.find?_some hfound
      refine List.inj_on_of_nodup_map h (List.mem_of_find?_eq_some hfound) he ?_
      exact (of_decide_eq_true hfoundKey).trans hkey.symm
    exact ⟨found, hfound, hsame ▸ htick⟩

structure RecencyOk (calls : List RecordCall) (history : History) : Prop where
  clock : history.tick = calls.length
  stamped : Stamped (fun call : RecordCall => some call.key) calls (tickOf history.entries)
    history.tick
  recent : MostRecent calls history.entries

/-- INTERNAL: an entry with the least tick was recorded before every other. -/
theorem recorded_before (hdistinct : (history.entries.map Access.key).Nodup)
    (h : RecencyOk calls history) {old e : Access} (hold : old ∈ history.entries)
    (he : e ∈ history.entries) (hne : old.key ≠ e.key) (hle : old.tick ≤ e.tick) :
    recordedAt calls old.key < recordedAt calls e.key := by
  have hiff := h.stamped.lt_iff ((tickOf_eq_some hdistinct).mpr ⟨e, he, rfl, rfl⟩)
    ((tickOf_eq_some hdistinct).mpr ⟨old, hold, rfl, rfl⟩)
  refine Nat.lt_of_le_of_ne ?_ fun heq => hne ?_
  · unfold recordedAt
    omega
  · exact lastUse_inj (h.recent.recorded old hold) heq

variable {call : RecordCall}

theorem recordedAt_other (h : key ≠ call.key) :
    recordedAt (call :: calls) key = recordedAt calls key :=
  lastUse_other fun heq => h (Option.some.inj heq).symm

theorem recordedAt_self (call : RecordCall) (calls : List RecordCall) :
    recordedAt (call :: calls) call.key = calls.length + 1 := lastUse_self rfl

theorem recordedAt_le (key : ChunkKey) : recordedAt calls key ≤ calls.length := lastUse_le

/-- INTERNAL: what a record does to the entries: its key has the newest tick, the others are as
they were, and if one of them goes it has the least tick of a full list. -/
structure Records (entries entries' : List Access) (key : ChunkKey) (tick : Nat) : Prop where
  present : key ∈ entries'.map Access.key
  members : ∀ e ∈ entries', e.key = key ∧ e.tick = tick ∨ e.key ≠ key ∧ e ∈ entries
  dropped : ∀ old ∈ entries, old.key ∉ entries'.map Access.key →
    entries.length = maxEntries ∧ ∀ e ∈ entries, old.tick ≤ e.tick
  full : entries.length = maxEntries → entries'.length = maxEntries

theorem records_known (hok : HistoryOk generation history)
    (hkey : key ∈ history.entries.map Access.key) (bytes elapsedUs : Nat) :
    Records history.entries (history.record key bytes elapsedUs).entries key
      (saturatingAdd history.tick 1) := by
  have hentries := record_known hkey bytes elapsedUs
  have hkeys : ((history.record key bytes elapsedUs).entries).map Access.key =
      history.entries.map Access.key := by
    rw [hentries]
    exact keys_modifyFirst fun e => rfl
  refine ⟨by rwa [hkeys], fun e he => ?_, fun old hold hnot => ?_, fun hfull => ?_⟩
  · rw [hentries, modifyFirst_eq_map hok.distinct] at he
    obtain ⟨e', he', rfl⟩ := List.mem_map.mp he
    split_ifs with hsame
    · exact .inl ⟨hsame, rfl⟩
    · exact .inr ⟨hsame, he'⟩
  · rw [hkeys] at hnot
    exact absurd (List.mem_map_of_mem hold) hnot
  · rw [← List.length_map (f := Access.key), hkeys, List.length_map]
    exact hfull

theorem records_new (hkey : key ∉ history.entries.map Access.key) (bytes elapsedUs : Nat) :
    Records history.entries (history.record key bytes elapsedUs).entries key
      (saturatingAdd history.tick 1) := by
  rw [record_new hkey]
  have hmembers : ∀ e ∈ makeRoom history.entries ++
      [⟨key, bytes, 1, saturatingAdd history.tick 1, min elapsedUs u64Max⟩],
      e.key = key ∧ e.tick = saturatingAdd history.tick 1 ∨ e.key ≠ key ∧ e ∈ history.entries := by
    intro e he
    rcases List.mem_append.mp he with hold | hnew
    · refine .inr ⟨fun heq => hkey ?_, makeRoom_sub hold⟩
      exact List.mem_map.mpr ⟨e, makeRoom_sub hold, heq⟩
    · rw [List.mem_singleton.mp hnew]
      exact .inl ⟨rfl, rfl⟩
  refine ⟨?_, hmembers, fun old hold hnot => ?_, fun hfull => ?_⟩
  · rw [List.map_append]
    exact List.mem_append_right _ List.mem_cons_self
  · rcases makeRoom_cases history.entries with ⟨-, hsame⟩ | ⟨hfull, gone, hperm, hleast⟩
    · rw [hsame, List.map_append] at hnot
      exact absurd (List.mem_append_left _ (List.mem_map_of_mem hold)) hnot
    · rcases List.mem_cons.mp (hperm.mem_iff.mp hold) with rfl | hkept
      · exact ⟨hfull, hleast⟩
      · rw [List.map_append] at hnot
        exact absurd (List.mem_append_left _ (List.mem_map_of_mem hkept)) hnot
  · rcases makeRoom_cases history.entries with ⟨hroom, -⟩ | ⟨-, gone, hperm, -⟩
    · exact absurd hfull hroom
    · rw [List.length_append, ← hfull, hperm.length_eq]
      rfl

theorem record_records (hok : HistoryOk generation history) (key : ChunkKey)
    (bytes elapsedUs : Nat) :
    Records history.entries (history.record key bytes elapsedUs).entries key
      (saturatingAdd history.tick 1) := by
  by_cases hkey : key ∈ history.entries.map Access.key
  · exact records_known hok hkey bytes elapsedUs
  · exact records_new hkey bytes elapsedUs

theorem mostRecent_records {tick : Nat} (hdistinct : (history.entries.map Access.key).Nodup)
    (h : RecencyOk calls history) (hrecords : Records history.entries entries call.key tick) :
    MostRecent (call :: calls) entries := by
  have hself := recordedAt_self call calls
  refine ⟨fun e he => ?_, fun key hrecorded hnot => ?_⟩
  · rcases hrecords.members e he with ⟨hkey, -⟩ | ⟨hne, hin⟩
    · rw [hkey, hself]
      exact Nat.succ_pos _
    · rw [recordedAt_other hne]
      exact h.recent.recorded e hin
  · have hne : key ≠ call.key := fun heq => hnot (heq ▸ hrecords.present)
    have hle : recordedAt calls key ≤ calls.length := recordedAt_le key
    rw [recordedAt_other hne] at hrecorded ⊢
    -- the key went now or was missing before
    have hbefore : history.entries.length = maxEntries ∧ ∀ e ∈ entries, e.key ≠ call.key →
        e ∈ history.entries → recordedAt calls key < recordedAt calls e.key := by
      by_cases hheld : key ∈ history.entries.map Access.key
      · obtain ⟨old, hold, rfl⟩ := List.mem_map.mp hheld
        obtain ⟨hfull, hleast⟩ := hrecords.dropped old hold hnot
        refine ⟨hfull, fun e he _ hin => ?_⟩
        refine recorded_before hdistinct h hold hin (fun heq => hnot ?_) (hleast e hin)
        exact heq ▸ List.mem_map_of_mem he
      · obtain ⟨hfull, hlatest⟩ := h.recent.latest key hrecorded hheld
        exact ⟨hfull, fun e _ _ hin => hlatest e hin⟩
    refine ⟨hrecords.full hbefore.1, fun e he => ?_⟩
    rcases hrecords.members e he with ⟨hkey, -⟩ | ⟨hother, hin⟩
    · rw [hkey, hself]
      omega
    · rw [recordedAt_other hother]
      exact hbefore.2 e he hother hin

theorem recencyOk_record (hok : HistoryOk generation history) (h : RecencyOk calls history)
    (hclock : calls.length < u64Max) (hsize : 1 ≤ call.bytes ∧ call.bytes ≤ maxChunk) :
    RecencyOk (call :: calls) (history.record call.key call.bytes call.elapsedUs) := by
  have htick : saturatingAdd history.tick 1 = history.tick + 1 := by
    rw [h.clock]
    exact Nat.min_eq_left (by omega)
  have hrecords := record_records hok call.key call.bytes call.elapsedUs
  have hok' := historyOk_record hok call.key call.elapsedUs hsize
  refine ⟨?_, ?_, mostRecent_records hok.distinct h hrecords⟩
  · change saturatingAdd history.tick 1 = _
    rw [htick, h.clock, List.length_cons]
  · change Stamped _ _ _ (saturatingAdd history.tick 1)
    rw [htick] at hrecords ⊢
    refine h.stamped.touch rfl ?_ fun other tick hne hother => ?_
    · obtain ⟨e, he, hkey⟩ := List.mem_map.mp hrecords.present
      refine (tickOf_eq_some hok'.distinct).mpr ⟨e, he, hkey, ?_⟩
      rcases hrecords.members e he with ⟨-, hnew⟩ | ⟨hold, -⟩
      · exact hnew
      · exact absurd hkey hold
    · obtain ⟨e, he, hkey, rfl⟩ := (tickOf_eq_some hok'.distinct).mp hother
      rcases hrecords.members e he with ⟨hsame, -⟩ | ⟨-, hin⟩
      · exact absurd (hkey.symm.trans hsame) hne
      · exact (tickOf_eq_some hok.distinct).mpr ⟨e, hin, hkey, rfl⟩

theorem recencyOk_after (hsizes : Sized calls) (hclock : calls.length ≤ u64Max) :
    RecencyOk calls (historyAfter generation calls) := by
  induction calls with
  | nil => exact ⟨rfl, stamped_nil, nofun, fun key hrecorded => absurd hrecorded (Nat.lt_irrefl 0)⟩
  | cons call older ih =>
    obtain ⟨hfirst, hrest⟩ := List.forall_mem_cons.mp hsizes
    rw [List.length_cons] at hclock
    exact recencyOk_record (historyOk_after hrest) (ih hrest (by omega)) (by omega) hfirst

end Recency

/-! ## The profile -/

section Profile

variable {history : History} {generation : ChunkKey} {dir : ProfileDir}

theorem accessText_length {tick : Nat} {entry : Access} (h : AccessOk tick entry)
    (htick : tick ≤ u64Max) : (accessText entry).length ≤ 241 := by
  have hkey : (keyText entry.key).length ≤ 129 := keyArray_length_le entry.key
  have hbytes : (decimal entry.bytes).length ≤ 7 :=
    decimal_length_le (by decide) (Nat.lt_of_le_of_lt h.bytes (by decide))
  have hcount := decimal_u64_length h.count
  have hentryTick := decimal_u64_length (Nat.le_trans h.tick htick)
  have hcost := decimal_u64_length h.cost
  unfold accessText
  rw [jsonObject_length]
  simp only [List.map_cons, List.map_nil, List.sum_cons, List.sum_nil, List.length_cons,
    List.length_nil, show "key".toList.length = 3 from rfl,
    show "bytes".toList.length = 5 from rfl, show "count".toList.length = 5 from rfl,
    show "tick".toList.length = 4 from rfl, show "cost_us".toList.length = 7 from rfl]
  omega

/-- INTERNAL: 8192 entries of 242 characters and what stands around them. -/
theorem history_text_length (h : HistoryOk generation history) :
    history.text.length ≤ maxProfile := by
  have hkey : (keyText history.generation).length ≤ 129 := keyArray_length_le history.generation
  have htick := decimal_u64_length h.tick
  have hcount := h.count
  have hentries : (jsonArray (history.entries.map accessText)).length ≤
      history.entries.length * 242 + 2 := by
    have hle := @jsonArray_length_le (history.entries.map accessText) 241 (by
      intro item hitem
      obtain ⟨entry, hentry, rfl⟩ := List.mem_map.mp hitem
      exact accessText_length (h.entries entry hentry) h.tick)
    rwa [List.length_map] at hle
  unfold History.text
  rw [jsonObject_length]
  simp only [List.map_cons, List.map_nil, List.sum_cons, List.sum_nil, List.length_cons,
    List.length_nil, show "generation".toList.length = 10 from rfl,
    show "tick".toList.length = 4 from rfl, show "entries".toList.length = 7 from rfl]
  unfold maxEntries at hcount
  unfold maxProfile
  omega

theorem acceptable_of_ok (h : HistoryOk generation history) : history.acceptable := by
  refine ⟨h.count, fun entry hentry => ?_⟩
  have hentryOk := h.entries entry hentry
  have hnonempty := hentryOk.nonempty
  have hcounted := hentryOk.counted
  exact ⟨by omega, hentryOk.bytes, hentryOk.tick, by omega⟩

/-- INTERNAL: a call of the file system failed with the status. -/
def CallFailed (dir : ProfileDir) (status : MirageStatus) : Prop :=
  ∃ n, dir.faults n = some status

theorem ends_profileCall {Q : Unit → ProfileDir → Prop} {E : MirageStatus → ProfileDir → Prop}
    (hQ : Q () { dir with calls := dir.calls + 1 })
    (hE : ∀ status, dir.faults dir.calls = some status →
      E status { dir with calls := dir.calls + 1 }) : Ends profileCall Q E dir := by
  unfold profileCall
  rw [ends_bind, ends_state, ends_bind, ends_change]
  cases hfault : dir.faults dir.calls with
  | none => exact hQ
  | some status => exact hE status hfault

variable {write : History → List Char}

/-- INTERNAL: a save fails only if a call does, and puts the text in the place of the profile. -/
theorem ends_save (h : (write history).length ≤ maxProfile) :
    Ends (history.save write) (fun _ saved => saved.profile = some (write history))
      (fun status _ => CallFailed dir status) dir := by
  unfold save
  rw [ends_bind]
  refine ends_profileCall ?_ fun status hfault => ⟨_, hfault⟩
  rw [ends_bind]
  refine ends_profileCall ?_ fun status hfault => ⟨_, hfault⟩
  rw [if_neg (Nat.not_lt_of_le h), ends_bind]
  refine ends_profileCall ?_ fun status hfault => ⟨_, hfault⟩
  rw [ends_bind, ends_change, ends_bind]
  refine ends_profileCall ?_ fun status hfault => ⟨_, hfault⟩
  rw [ends_bind, ends_change, ends_bind]
  refine ends_profileCall ?_ fun status hfault => ⟨_, hfault⟩
  rw [ends_change]

theorem ends_openProfile {read : List Char → Option History} (h : HistoryOk generation history)
    (hlength : (write history).length ≤ maxProfile)
    (hprofile : dir.profile = some (write history)) (hread : read (write history) = some history) :
    Ends (openProfile read generation) (fun opened _ => opened = history)
      (fun status _ => CallFailed dir status) dir := by
  unfold openProfile
  rw [ends_bind]
  refine ends_profileCall ?_ fun status hfault => ⟨_, hfault⟩
  rw [ends_bind]
  refine ends_profileCall ?_ fun status hfault => ⟨_, hfault⟩
  rw [ends_bind, ends_state]
  dsimp only
  rw [hprofile]
  dsimp only
  rw [ends_bind]
  refine ends_profileCall ?_ fun status hfault => ⟨_, hfault⟩
  rw [if_neg (Nat.not_lt_of_le hlength), hread]
  dsimp only
  rw [if_pos (acceptable_of_ok h), if_pos h.generation, ends_pure]

end Profile

/-! ## Selection -/

section Selection

/-- INTERNAL: the sizes of the entries whose keys are among `keys`. -/
def chosenBytes (keys : List ChunkKey) (entries : List Access) : Nat :=
  ((entries.filter fun e => e.key ∈ keys).map Access.bytes).sum

/-- INTERNAL: keys of entries in their order, within the budget; an entry is left out only where
it does not fit what those before it leave. -/
structure Chooses (budget : Nat) (order : List Access) (keys : List ChunkKey) : Prop where
  listed : keys = (order.filter fun e => e.key ∈ keys).map Access.key
  within : chosenBytes keys order ≤ budget
  skipped : ∀ before e behind, order = before ++ e :: behind → e.key ∉ keys →
    budget < chosenBytes keys before + e.bytes

variable {order : List Access}

theorem takeFitting_sub {remaining : Nat} {key : ChunkKey} (h : key ∈ takeFitting remaining order) :
    key ∈ order.map Access.key := by
  induction order generalizing remaining with
  | nil => cases h
  | cons entry rest ih =>
    rw [takeFitting] at h
    split_ifs at h
    · rcases List.mem_cons.mp h with rfl | hrest
      · exact List.mem_cons_self
      · exact List.mem_cons_of_mem _ (ih hrest)
    · exact List.mem_cons_of_mem _ (ih h)

variable {entry : Access} {keys : List ChunkKey}

/-- INTERNAL: a chosen entry comes before those chosen behind it. -/
theorem filter_chosen {part : List Access} (keys : List ChunkKey)
    (h : entry.key ∉ part.map Access.key) :
    (entry :: part).filter (fun e => e.key ∈ entry.key :: keys) =
      entry :: part.filter fun e => e.key ∈ keys := by
  rw [List.filter_cons, if_pos (decide_eq_true List.mem_cons_self)]
  refine congrArg (entry :: ·) (List.filter_congr fun e he => ?_)
  have hne : e.key ≠ entry.key := fun heq => h (heq ▸ List.mem_map_of_mem he)
  refine decide_eq_decide.mpr ⟨fun hmem => ?_, List.mem_cons_of_mem _⟩
  exact (List.mem_cons.mp hmem).resolve_left hne

theorem filter_left_out (h : entry.key ∉ keys) (part : List Access) :
    (entry :: part).filter (fun e => e.key ∈ keys) = part.filter fun e => e.key ∈ keys := by
  rw [List.filter_cons, if_neg fun hin => h (of_decide_eq_true hin)]

theorem chooses_fitting {budget : Nat} {rest : List Access}
    (hfirst : entry.key ∉ rest.map Access.key) (hfits : entry.bytes ≤ budget)
    (h : Chooses (budget - entry.bytes) rest keys) :
    Chooses budget (entry :: rest) (entry.key :: keys) := by
  have hbytes : ∀ part, entry.key ∉ part.map Access.key →
      chosenBytes (entry.key :: keys) (entry :: part) = entry.bytes + chosenBytes keys part := by
    intro part hpart
    unfold chosenBytes
    rw [filter_chosen keys hpart, List.map_cons, List.sum_cons]
  have hwithin := h.within
  refine ⟨?_, ?_, fun before e behind heq hnot => ?_⟩
  · rw [filter_chosen keys hfirst, List.map_cons, ← h.listed]
  · rw [hbytes rest hfirst]
    omega
  · cases before with
    | nil =>
      obtain ⟨rfl, -⟩ := List.cons.inj heq
      exact absurd List.mem_cons_self hnot
    | cons head before =>
      obtain ⟨rfl, (hsplit : rest = before ++ e :: behind)⟩ := List.cons.inj heq
      have hpart : entry.key ∉ before.map Access.key := by
        intro hmem
        refine hfirst ?_
        rw [hsplit, List.map_append]
        exact List.mem_append_left _ hmem
      have hless := h.skipped before e behind hsplit fun hmem =>
        hnot (List.mem_cons_of_mem _ hmem)
      rw [hbytes before hpart]
      omega

theorem chooses_larger {budget : Nat} {rest : List Access} (hout : entry.key ∉ keys)
    (hlarge : budget < entry.bytes) (h : Chooses budget rest keys) :
    Chooses budget (entry :: rest) keys := by
  have hbytes : ∀ part, chosenBytes keys (entry :: part) = chosenBytes keys part := by
    intro part
    unfold chosenBytes
    rw [filter_left_out hout]
  refine ⟨?_, ?_, fun before e behind heq hnot => ?_⟩
  · rw [filter_left_out hout]
    exact h.listed
  · rw [hbytes]
    exact h.within
  · cases before with
    | nil =>
      obtain ⟨rfl, -⟩ := List.cons.inj heq
      exact Nat.lt_of_lt_of_le hlarge (Nat.le_add_left _ _)
    | cons head before =>
      obtain ⟨rfl, hsplit⟩ := List.cons.inj heq
      rw [hbytes]
      exact h.skipped before e behind hsplit hnot

theorem takeFitting_chooses (h : (order.map Access.key).Nodup) (budget : Nat) :
    Chooses budget order (takeFitting budget order) := by
  induction order generalizing budget with
  | nil => exact ⟨rfl, Nat.zero_le _, fun before e behind heq => by cases before <;> cases heq⟩
  | cons entry rest ih =>
    obtain ⟨hfirst, hrest⟩ := List.nodup_cons.mp h
    rw [takeFitting]
    split_ifs with hfits
    · exact chooses_fitting hfirst hfits (ih hrest _)
    · exact chooses_larger (fun hin => hfirst (takeFitting_sub hin)) (Nat.lt_of_not_le hfits)
        (ih hrest budget)

end Selection

/-- INTERNAL: `serde_json` writes no more than the compact text of a history, and reads back what it
wrote.  The history holds the keys recorded last as long as there are fewer than `2 ^ 64` records.
SRCLINE: mirage-ffi/src/sophon/learning.rs:19-130 -/
theorem history_bounded_durable (generation : ChunkKey) {calls : List RecordCall}
    {write : History → List Char} {read : List Char → Option History} (hsizes : Sized calls)
    (hwrite : NoLonger write History.text)
    (hread : read (write (historyAfter generation calls)) = some (historyAfter generation calls)) :
    (historyAfter generation calls).entries.length ≤ maxEntries ∧
    ((historyAfter generation calls).entries.map Access.key).Nodup ∧
    (calls.length < 2 ^ 64 → MostRecent calls (historyAfter generation calls).entries) ∧
    (∀ dir, Ends ((historyAfter generation calls).save write)
      (fun _ saved => ∀ faults calls', Ends (openProfile read generation)
        (fun opened _ => opened = historyAfter generation calls)
        (fun status _ => ∃ n, faults n = some status)
        { saved with faults := faults, calls := calls' })
      (fun status _ => CallFailed dir status) dir) ∧
    ∀ budget, ((historyAfter generation calls).select budget).Nodup ∧
      Chooses budget ((historyAfter generation calls).entries.insertionSort ranksBefore)
        ((historyAfter generation calls).select budget) := by
  have hok : HistoryOk generation (historyAfter generation calls) := historyOk_after hsizes
  refine ⟨hok.count, hok.distinct, fun hcalls => ?_, fun dir => ?_, fun budget => ?_⟩
  · exact (recencyOk_after hsizes (Nat.le_pred_of_lt hcalls)).recent
  · have hlength := Nat.le_trans (hwrite _) (history_text_length hok)
    refine (ends_save hlength).mono (fun _ saved hsaved faults calls' => ?_)
      fun _ _ hfailed => hfailed
    have hprofile : ({ saved with faults := faults, calls := calls' } : ProfileDir).profile =
        some (write (historyAfter generation calls)) := hsaved
    exact ends_openProfile hok hlength hprofile hread
  · have hsorted : (((historyAfter generation calls).entries.insertionSort ranksBefore).map
        Access.key).Nodup :=
      ((List.perm_insertionSort ranksBefore _).map Access.key).nodup_iff.mpr hok.distinct
    have hchooses := takeFitting_chooses hsorted budget
    refine ⟨?_, hchooses⟩
    change (takeFitting budget _).Nodup
    rw [hchooses.listed]
    exact hsorted.sublist (List.filter_sublist.map Access.key)

/-- INTERNAL: two chunks are read, and the first of them again. -/
def threeReads : List RecordCall := [⟨keyOf 1, 5, 40⟩, ⟨keyOf 2, 30, 8⟩, ⟨keyOf 1, 5, 400⟩]

/-- INTERNAL: a reader of one text only. -/
def readsOnly (history : History) (content : List Char) : Option History :=
  if content = history.text then some history else none

theorem readsOnly_text (history : History) : readsOnly history history.text = some history :=
  if_pos rfl

/-- INTERNAL: a history with a repeated key is saved and opened again, and one byte less of budget
leaves out the second chunk. -/
theorem saved_history_opened :
    ∃ history saved, historyAfter (keyOf 0) threeReads = history ∧
      history.entries = [⟨keyOf 1, 5, 2, 3, 355⟩, ⟨keyOf 2, 30, 1, 2, 8⟩] ∧
      MostRecent threeReads history.entries ∧
      outcome (history.save History.text) ⟨none, none, fun _ => none, 0⟩ = (.ok (), saved) ∧
      (outcome (openProfile (readsOnly history) (keyOf 0))
        { saved with faults := fun _ => none, calls := 0 }).1 = .ok history ∧
      history.select 35 = [keyOf 1, keyOf 2] ∧ history.select 34 = [keyOf 1] ∧
      Chooses 34 (history.entries.insertionSort ranksBefore) [keyOf 1] := by
  have hsizes : Sized threeReads := by unfold Sized; decide
  have hwrite : NoLonger History.text History.text := fun _ => Nat.le_refl _
  have hvalue : (historyAfter (keyOf 0) threeReads).entries =
        [⟨keyOf 1, 5, 2, 3, 355⟩, ⟨keyOf 2, 30, 1, 2, 8⟩] ∧
      (historyAfter (keyOf 0) threeReads).select 35 = [keyOf 1, keyOf 2] ∧
      (historyAfter (keyOf 0) threeReads).select 34 = [keyOf 1] := by decide +kernel
  obtain ⟨-, -, hrecent, hsave, hchooses⟩ := history_bounded_durable (keyOf 0) hsizes hwrite
    (readsOnly_text _)
  generalize historyAfter (keyOf 0) threeReads = history at hvalue hrecent hsave hchooses
  obtain ⟨hentries, hboth, hfirst⟩ := hvalue
  have hleft := (hchooses 34).2
  rw [hfirst] at hleft
  rcases (hsave ⟨none, none, fun _ => none, 0⟩).cases with ⟨_, hok, hsaved⟩ | ⟨_, -, n, hfault⟩
  · refine ⟨_, _, rfl, hentries, hrecent (by decide), Prod.ext hok rfl, ?_, hboth, hfirst, hleft⟩
    rcases (hsaved (fun _ => none) 0).cases with ⟨opened, hopened, rfl⟩ | ⟨_, -, n, hfault⟩
    · exact hopened
    · cases hfault
  · cases hfault

/-! ## A saturated tick -/

section Saturated

variable {generation key : ChunkKey} {calls : List RecordCall} {entries : List Access}

/-- INTERNAL: a record of one byte that took no time. -/
def quickCall (key : ChunkKey) : RecordCall := ⟨key, 1, 0⟩

def quickEntry (key : ChunkKey) : Access := ⟨key, 1, 1, u64Max, 0⟩

theorem record_eq (history : History) (key : ChunkKey) (bytes elapsedUs : Nat) :
    history.record key bytes elapsedUs = ⟨history.generation, saturatingAdd history.tick 1,
      (history.record key bytes elapsedUs).entries⟩ := rfl

theorem historyAfter_again (n : Nat) :
    historyAfter generation (List.replicate (n + 1) (quickCall key)) =
      ⟨generation, min (n + 1) u64Max,
        [⟨key, 1, min (n + 1) u64Max, min (n + 1) u64Max, 0⟩]⟩ := by
  induction n with
  | zero => rfl
  | succ n ih =>
    have hnext : saturatingAdd (min (n + 1) u64Max) 1 = min (n + 1 + 1) u64Max := by
      unfold saturatingAdd
      omega
    have hentries := @record_known ⟨generation, min (n + 1) u64Max,
      [⟨key, 1, min (n + 1) u64Max, min (n + 1) u64Max, 0⟩]⟩ key List.mem_cons_self 1 0
    have hcost : saturatingAdd (0 - 0 / 8) (min 0 u64Max / 8) = 0 := by decide
    rw [modifyFirst, if_pos rfl, touch, hnext] at hentries
    rw [List.replicate_succ, historyAfter, ih, record_eq]
    dsimp only [quickCall]
    rw [hentries, hnext, hcost]

/-- INTERNAL: new keys are appended while there is room. -/
theorem historyAfter_fresh {keys : List ChunkKey}
    (h : historyAfter generation calls = ⟨generation, u64Max, entries⟩)
    (hkeys : (keys ++ entries.map Access.key).Nodup)
    (hroom : keys.length + entries.length ≤ maxEntries) :
    historyAfter generation (keys.map quickCall ++ calls) =
      ⟨generation, u64Max, entries ++ keys.reverse.map quickEntry⟩ := by
  induction keys with
  | nil => simpa using h
  | cons key keys ih =>
    obtain ⟨hnew, hrest⟩ := List.nodup_cons.mp hkeys
    rw [List.length_cons] at hroom
    have hnot : key ∉ (entries ++ keys.reverse.map quickEntry).map Access.key := by
      intro hmem
      rw [List.map_append, List.map_map, List.mem_append] at hmem
      rcases hmem with hold | hlater
      · exact hnew (List.mem_append_right _ hold)
      · obtain ⟨other, hother, rfl⟩ := List.mem_map.mp hlater
        exact hnew (List.mem_append_left _ (List.mem_reverse.mp hother))
    have hlength : (entries ++ keys.reverse.map quickEntry).length ≠ maxEntries := by
      rw [List.length_append, List.length_map, List.length_reverse]
      omega
    have hentries := @record_new ⟨generation, u64Max, entries ++ keys.reverse.map quickEntry⟩ key
      hnot 1 0
    rw [makeRoom, if_neg hlength] at hentries
    rw [List.map_cons, List.cons_append, historyAfter, ih hrest (by omega), record_eq]
    dsimp only [quickCall]
    rw [hentries, List.reverse_cons, List.map_append, ← List.append_assoc]
    rfl

/-- INTERNAL: of equal ticks the first entry goes. -/
theorem makeRoom_tied {first : Access} {rest : List Access}
    (hfull : (first :: rest).length = maxEntries)
    (hticks : ∀ e ∈ rest, first.tick ≤ e.tick) :
    (first :: rest).Perm (first :: makeRoom (first :: rest)) := by
  have hindex : oldestIndex (first :: rest) = some 0 := by
    unfold oldestIndex
    rw [List.zipIdx_cons, List.map_cons]
    refine firstMin_head fun other hother => ?_
    obtain ⟨entry, hentry, rfl⟩ := List.mem_map.mp hother
    exact hticks entry.1 (List.fst_mem_of_mem_zipIdx hentry)
  unfold makeRoom
  rw [if_pos hfull, hindex]
  exact perm_swapRemove rfl

/-- INTERNAL: a key is recorded until the tick is at its end, then as many others as there is
room for, then the key once more and a new one. -/
def tiedCalls (key new : ChunkKey) (others : List ChunkKey) (n : Nat) : List RecordCall :=
  quickCall new :: quickCall key ::
    (others.map quickCall ++ List.replicate (n + 1) (quickCall key))

variable {new : ChunkKey} {others : List ChunkKey} {n : Nat}

/-- INTERNAL: the key goes with the last record, and the others stay. -/
theorem entries_tied (hn : u64Max ≤ n) (hnodup : (new :: others ++ [key]).Nodup)
    (hlength : others.length + 1 = maxEntries) :
    key ∉ (historyAfter generation (tiedCalls key new others n)).entries.map Access.key ∧
      ∀ other ∈ others,
        quickEntry other ∈ (historyAfter generation (tiedCalls key new others n)).entries := by
  obtain ⟨hnew, hrest⟩ := List.nodup_cons.mp hnodup
  have hagain := @historyAfter_again generation key n
  rw [Nat.min_eq_right (by omega : u64Max ≤ n + 1)] at hagain
  have hfilled := historyAfter_fresh hagain hrest (Nat.le_of_eq hlength)
  have hknown := @record_known ⟨generation, u64Max, ⟨key, 1, u64Max, u64Max, 0⟩ ::
    others.reverse.map quickEntry⟩ key List.mem_cons_self 1 0
  rw [modifyFirst, if_pos rfl] at hknown
  have hticks : ∀ e ∈ others.reverse.map quickEntry,
      (touch (saturatingAdd u64Max 1) (min 0 u64Max) ⟨key, 1, u64Max, u64Max, 0⟩).tick ≤
        e.tick := by
    intro e he
    obtain ⟨other, -, rfl⟩ := List.mem_map.mp he
    exact saturatingAdd_le u64Max 1
  generalize hfirst : touch (saturatingAdd u64Max 1) (min 0 u64Max)
    ⟨key, 1, u64Max, u64Max, 0⟩ = first at hknown hticks
  have hkey : first.key = key := by rw [← hfirst]; rfl
  have hkeys : (others.reverse.map quickEntry).map Access.key = others.reverse := by
    rw [List.map_map]
    exact List.map_id _
  have hperm := @makeRoom_tied first (others.reverse.map quickEntry)
    (by rw [List.length_cons, List.length_map, List.length_reverse]; exact hlength) hticks
  have hin : key ∉ others.reverse := by
    intro hmem
    exact (List.nodup_append.mp hrest).2.2 key (List.mem_reverse.mp hmem) key List.mem_cons_self rfl
  have hnewNot : new ∉ (first :: others.reverse.map quickEntry).map Access.key := by
    rw [List.map_cons, hkeys, hkey]
    intro hmem
    rcases List.mem_cons.mp hmem with rfl | hother
    · exact hnew (List.mem_append_right _ List.mem_cons_self)
    · exact hnew (List.mem_append_left _ (List.mem_reverse.mp hother))
  have hentries : (historyAfter generation (tiedCalls key new others n)).entries =
      makeRoom (first :: others.reverse.map quickEntry) ++
        [⟨new, 1, 1, saturatingAdd (saturatingAdd u64Max 1) 1, min 0 u64Max⟩] := by
    rw [tiedCalls, historyAfter, historyAfter, hfilled]
    have hlast := @record_new (record ⟨generation, u64Max, ⟨key, 1, u64Max, u64Max, 0⟩ ::
      others.reverse.map quickEntry⟩ key 1 0) new (by rw [hknown]; exact hnewNot) 1 0
    rw [hknown] at hlast
    exact hlast
  rw [hentries]
  constructor
  · intro hmem
    rw [List.map_append] at hmem
    rcases List.mem_append.mp hmem with hold | hlast
    · have hkept := (hperm.map Access.key).nodup_iff.mp (by
        rw [List.map_cons, hkeys, hkey]
        exact List.nodup_cons.mpr ⟨hin, List.nodup_reverse.mpr (List.nodup_append.mp hrest).1⟩)
      exact (List.nodup_cons.mp hkept).1 (hkey ▸ hold)
    · exact hnew (List.mem_append_right _ (List.mem_singleton.mp hlast ▸ List.mem_cons_self))
  · intro other hother
    refine List.mem_append_left _ ?_
    have hmem : quickEntry other ∈ first :: makeRoom (first :: others.reverse.map quickEntry) :=
      hperm.mem_iff.mp (List.mem_cons_of_mem _
        (List.mem_map_of_mem (List.mem_reverse.mpr hother)))
    rcases List.mem_cons.mp hmem with heq | hkept
    · refine absurd (List.mem_reverse.mpr hother) ?_
      rw [show other = key from (congrArg Access.key heq).trans hkey]
      exact hin
    · exact hkept

theorem tied_not_recent {other : ChunkKey} (hn : u64Max ≤ n)
    (hnodup : (new :: (other :: others) ++ [key]).Nodup)
    (hlength : (other :: others).length + 1 = maxEntries) :
    ¬ MostRecent (tiedCalls key new (other :: others) n)
      (historyAfter generation (tiedCalls key new (other :: others) n)).entries := by
  intro hrecent
  obtain ⟨hgone, hkept⟩ := @entries_tied generation key new (other :: others) n hn hnodup hlength
  obtain ⟨hnew, hrest⟩ := List.nodup_cons.mp hnodup
  have hkeyNew : key ≠ new := by
    rintro rfl
    exact hnew (List.mem_append_right _ List.mem_cons_self)
  have hotherNew : other ≠ new := by
    rintro rfl
    exact hnew (List.mem_append_left _ List.mem_cons_self)
  have hotherKey : other ≠ key := by
    rintro rfl
    exact (List.nodup_append.mp hrest).2.2 other List.mem_cons_self other List.mem_cons_self rfl
  unfold tiedCalls at *
  generalize (other :: others).map quickCall ++ List.replicate (n + 1) (quickCall key) = older at *
  have hlast : recordedAt (quickCall new :: quickCall key :: older) key = older.length + 1 :=
    (recordedAt_other hkeyNew).trans (recordedAt_self (quickCall key) older)
  have hfirst : recordedAt (quickCall new :: quickCall key :: older) other =
      recordedAt older other :=
    (recordedAt_other hotherNew).trans (recordedAt_other hotherKey)
  have hless := (hrecent.latest key (by omega) hgone).2 _ (hkept other List.mem_cons_self)
  have hle : recordedAt older other ≤ older.length := recordedAt_le other
  change recordedAt _ key < recordedAt _ other at hless
  omega

theorem sized_tied : Sized (tiedCalls key new others n) := by
  have hquick : ∀ k, 1 ≤ (quickCall k).bytes ∧ (quickCall k).bytes ≤ maxChunk :=
    fun k => ⟨Nat.le_refl 1, (by decide : 1 ≤ maxChunk)⟩
  refine List.forall_mem_cons.mpr ⟨hquick new, List.forall_mem_cons.mpr ⟨hquick key, ?_⟩⟩
  intro call hcall
  rcases List.mem_append.mp hcall with hother | hagain
  · obtain ⟨k, -, rfl⟩ := List.mem_map.mp hother
    exact hquick k
  · rw [List.eq_of_mem_replicate hagain]
    exact hquick key

/-- INTERNAL: a key with a number in its first two bytes. -/
def numbered (i : Nat) : ChunkKey :=
  ⟨UInt8.ofNat i :: UInt8.ofNat (i / 256) :: List.replicate 30 0, rfl⟩

theorem numbered_inj {i j : Nat} (hi : i < 65536) (hj : j < 65536) (h : numbered i = numbered j) :
    i = j := by
  obtain ⟨hlow, hrest⟩ := List.cons.inj (congrArg Subtype.val h)
  obtain ⟨hhigh, -⟩ := List.cons.inj hrest
  have hlowNat := congrArg UInt8.toNat hlow
  have hhighNat := congrArg UInt8.toNat hhigh
  rw [UInt8.toNat_ofNat', UInt8.toNat_ofNat'] at hlowNat hhighNat
  omega

theorem numbered_nodup :
    (numbered 8192 :: (numbered 1 :: (List.range' 2 8190).map numbered) ++ [numbered 0]).Nodup := by
  have hlist : numbered 8192 :: (numbered 1 :: (List.range' 2 8190).map numbered) ++ [numbered 0] =
      (8192 :: 1 :: List.range' 2 8190 ++ [0]).map numbered := by
    rw [List.map_append]
    rfl
  have hmem : ∀ i ∈ List.range' 2 8190, 2 ≤ i ∧ i < 8192 := by
    intro i hi
    have hbounds := List.mem_range'_1.mp hi
    omega
  have hbound : ∀ i ∈ 8192 :: 1 :: List.range' 2 8190 ++ [0], i < 65536 := by
    intro i hi
    simp only [List.cons_append, List.mem_cons, List.mem_append, List.not_mem_nil,
      or_false] at hi
    rcases hi with rfl | rfl | hi | rfl
    · decide
    · decide
    · have := hmem i hi
      omega
    · decide
  rw [hlist]
  refine List.Nodup.map_on (fun i hi j hj heq => numbered_inj (hbound i hi) (hbound j hj) heq) ?_
  have hrange : ∀ i, i = 8192 ∨ i < 2 → i ∉ List.range' 2 8190 := by
    intro i hi hin
    have := hmem i hin
    omega
  simp only [List.cons_append, List.nodup_cons, List.mem_cons, List.mem_append, List.not_mem_nil,
    or_false, List.nodup_append, List.nodup_nil, not_or]
  refine ⟨⟨by decide, hrange 8192 (.inl rfl), by decide⟩, ⟨hrange 1 (by decide), by decide⟩,
    List.nodup_range', ⟨not_false, trivial⟩, ?_⟩
  intro i hi j hj heq
  exact hrange i (by omega) hi

/-- INTERNAL: behind `2 ^ 64` records all ticks are equal, and the key recorded last but one is
the first to go. -/
theorem saturated_tick_drops_newest :
    ∃ generation calls, Sized calls ∧ ¬ MostRecent calls (historyAfter generation calls).entries :=
  ⟨numbered 0, tiedCalls (numbered 0) (numbered 8192)
      (numbered 1 :: (List.range' 2 8190).map numbered) u64Max, sized_tied,
    tied_not_recent (Nat.le_refl _) numbered_nodup (by
      rw [List.length_cons, List.length_map, List.length_range']
      rfl)⟩

end Saturated

end Mirage.Analysis
