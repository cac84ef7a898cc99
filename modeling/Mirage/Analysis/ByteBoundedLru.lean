import Mathlib.Algebra.Order.BigOperators.Group.List
import Mirage.Model.RemoteCache

/-!
# The byte-bounded cache is exact

What a cache holds is described by the calls made on it: the value of a key is the one inserted
last, and an insertion that needs room drops keys until there is room.  It drops them in the order
of their last uses as long as the clock of the program does not reach the end of `u64`.
-/

set_option autoImplicit false

namespace Mirage.Analysis

open Mirage.Computation Mirage.Model

/-! ## Histories -/

section Histories

variable {K V : Type} [DecidableEq K]

inductive LruCall (K V : Type) where
  | get (key : K)
  | insert (hash : MapOrder K) (key : K) (value : V) (bytes : Nat)

/-- INTERNAL: the cache that a call leaves. -/
def LruCall.run (cache : ByteLru K V) : LruCall K V → ByteLru K V
  | .get key => ((cache.get key).map Prod.snd).getD cache
  | .insert hash key value bytes => cache.insert hash key value bytes

/-- INTERNAL: the cache after calls, the newest of which is first. -/
def lruAfter (budget : Nat) : List (LruCall K V) → ByteLru K V
  | [] => .new budget
  | call :: older => call.run (lruAfter budget older)

/-- INTERNAL: the key that a call uses; an insertion above the budget uses none. -/
def LruCall.uses (budget : Nat) : LruCall K V → Option K
  | .get key => some key
  | .insert _ key _ bytes => if bytes ≤ budget then some key else none

/-- INTERNAL: the value that was inserted last, insertions above the budget apart. -/
def lastInserted (budget : Nat) (key : K) : List (LruCall K V) → Option V
  | [] => none
  | .get _ :: older => lastInserted budget key older
  | .insert _ other value bytes :: older =>
    if other = key ∧ bytes ≤ budget then some value else lastInserted budget key older

/-- INTERNAL: the sum of the charges of entries. -/
def charges (entries : List (K × V × Nat × Nat)) : Nat := (entries.map fun e => e.2.2.1).sum

/-- INTERNAL: the place of the last use of a key in the history. -/
def usedAt (budget : Nat) (history : List (LruCall K V)) (key : K) : Nat :=
  lastUse (LruCall.uses budget) key history

/-- INTERNAL: what an insertion within the budget makes of a cache.  Where keys go, there is no
room without the one that went last. -/
structure Inserts (budget : Nat) (cache cache' : ByteLru K V) (key : K) (value : V)
    (bytes : Nat) : Prop where
  present : ∃ stamp, cache'.entries.get key = some (value, bytes, stamp)
  others : ∀ other entry, other ≠ key → cache'.entries.get other = some entry →
    cache.entries.get other = some entry
  needed : (∀ other, other ≠ key → cache'.entries.get other = cache.entries.get other) ∨
    ∃ last entry, last ≠ key ∧ cache.entries.get last = some entry ∧
      cache'.entries.get last = none ∧ budget < bytes + (entry.2.1 + charges
        (cache'.entries.erase key).entries)

/-- INTERNAL: keys that go were all used before those that stay, and each of them, with what was
used since, leaves no room. -/
structure EvictsOldest (budget : Nat) (history : List (LruCall K V)) (cache cache' : ByteLru K V)
    (key : K) (bytes : Nat) : Prop where
  oldest : ∀ gone kept, gone ≠ key → kept ≠ key → cache.entries.get gone ≠ none →
    cache'.entries.get gone = none → cache'.entries.get kept ≠ none →
      usedAt budget history gone < usedAt budget history kept
  needed : ∀ gone, gone ≠ key → cache.entries.get gone ≠ none → cache'.entries.get gone = none →
    budget < bytes + charges (cache.entries.entries.filter fun e =>
      e.1 ≠ key ∧ usedAt budget history gone ≤ usedAt budget history e.1)

end Histories

/-! ## Dropping an entry -/

section Drops

variable {K V : Type} [DecidableEq K] {cache : ByteLru K V} {key : K}

/-- INTERNAL: the counter is the sum of the charges. -/
structure Charged (cache : ByteLru K V) : Prop where
  distinct : cache.entries.Distinct
  used : cache.used = charges cache.entries.entries
  fits : cache.used ≤ u64Max

theorem wrappingSub_eq {a b : Nat} (hle : b ≤ a) (hfits : a ≤ u64Max) :
    wrappingSub a b = a - b := by
  unfold wrappingSub
  have hlt : a - b < 2 ^ 64 := by
    unfold u64Max at hfits
    omega
  rw [Nat.sub_add_comm hle, Nat.add_mod_right, Nat.mod_eq_of_lt hlt]

theorem charges_erase {t : Table K (V × Nat × Nat)} (h : t.Distinct) {entry : V × Nat × Nat}
    (hget : t.get key = some entry) :
    charges t.entries = entry.2.1 + charges (t.erase key).entries := by
  unfold charges
  rw [((Table.perm_erase h hget).map _).sum_eq]
  rfl

theorem drop_entries (cache : ByteLru K V) (key : K) :
    (cache.drop key).entries = cache.entries.erase key ∧ (cache.drop key).budget = cache.budget ∧
      (cache.drop key).clock = cache.clock := by
  unfold ByteLru.drop
  cases hget : cache.entries.get key with
  | none => exact ⟨(Table.erase_of_get_none hget).symm, rfl, rfl⟩
  | some entry => exact ⟨rfl, rfl, rfl⟩

theorem Charged.drop (h : Charged cache) (key : K) : Charged (cache.drop key) := by
  unfold ByteLru.drop
  cases hget : cache.entries.get key with
  | none => exact h
  | some entry =>
    have hsum := charges_erase h.distinct hget
    have hused := h.used
    have hfits := h.fits
    have heq : wrappingSub cache.used entry.2.1 = charges (cache.entries.erase key).entries := by
      rw [wrappingSub_eq (by omega) hfits]
      omega
    exact ⟨h.distinct.erase key, heq, Nat.le_trans (Nat.le_of_eq heq) (by omega)⟩

end Drops

/-! ## Evictions -/

section Evictions

variable {K V : Type} [DecidableEq K] {cache : ByteLru K V} {hash : MapOrder K} {bytes : Nat}

/-- INTERNAL: no two entries have the same stamp. -/
def StampsApart (cache : ByteLru K V) : Prop :=
  ∀ a b x y, cache.entries.get a = some x → cache.entries.get b = some y → x.2.2 = y.2.2 → a = b

variable {key : K} {rounds : Nat}

/-- INTERNAL: the key that goes is in the cache and has the least stamp. -/
theorem oldest_least (h : cache.oldest hash = some key) :
    ∃ entry, cache.entries.get key = some entry ∧
      ∀ other x, cache.entries.get other = some x → entry.2.2 ≤ x.2.2 := by
  obtain ⟨n, hmem, hleast⟩ := firstMin_mem h
  obtain ⟨other, -, hother⟩ := List.mem_filterMap.mp hmem
  obtain ⟨entry, hentry, heq⟩ := Option.map_eq_some_iff.mp hother
  cases heq
  refine ⟨entry, hentry, fun other x hx => ?_⟩
  refine hleast (other, x.2.2) (List.mem_filterMap.mpr ⟨other, ?_, ?_⟩)
  · exact (hash.perm _).mem_iff.mpr (Table.mem_keys.mpr ⟨x, hx⟩)
  · rw [hx]
    rfl

theorem oldest_none (h : cache.oldest hash = none) : cache.entries.entries = [] := by
  have hnil := firstMin_none h
  cases hkeys : cache.entries.keys with
  | nil => exact List.map_eq_nil_iff.mp hkeys
  | cons key keys =>
    obtain ⟨x, hx⟩ := Table.mem_keys.mp (hkeys ▸ List.mem_cons_self : key ∈ cache.entries.keys)
    have hmem : (key, x.2.2) ∈ (hash.order cache.entries.keys).filterMap fun key =>
        (cache.entries.get key).map fun entry => (key, entry.2.2) := by
      refine List.mem_filterMap.mpr ⟨key, ?_, ?_⟩
      · exact (hash.perm _).mem_iff.mpr (Table.mem_keys.mpr ⟨x, hx⟩)
      · rw [hx]
        rfl
    rw [hnil] at hmem
    cases hmem

/-- INTERNAL: what the loop of an insertion leaves of a cache. -/
structure Drops (bytes : Nat) (cache rest : ByteLru K V) : Prop where
  charged : Charged rest
  budget : rest.budget = cache.budget
  clock : rest.clock = cache.clock
  sub : ∀ key entry, rest.entries.get key = some entry → cache.entries.get key = some entry
  last : rest = cache ∨ ∃ key entry, cache.entries.get key = some entry ∧
    rest.entries.get key = none ∧ cache.budget - bytes < entry.2.1 + charges rest.entries.entries

/-- INTERNAL: the loop with different stamps. -/
structure DropsOldest (bytes : Nat) (cache rest : ByteLru K V) : Prop extends
    Drops bytes cache rest where
  order : ∀ gone kept x y, cache.entries.get gone = some x → rest.entries.get gone = none →
    rest.entries.get kept = some y → x.2.2 < y.2.2
  needed : ∀ gone x, cache.entries.get gone = some x → rest.entries.get gone = none →
    cache.budget - bytes < charges (cache.entries.entries.filter fun e => x.2.2 ≤ e.2.2.2)

theorem drops_self (h : Charged cache) : Drops bytes cache cache :=
  ⟨h, rfl, rfl, fun _ _ hget => hget, .inl rfl⟩

theorem evicts_self (h : Charged cache) : DropsOldest bytes cache cache := by
  have hstays : ∀ {key : K} {x : V × Nat × Nat}, cache.entries.get key = some x →
      cache.entries.get key ≠ none := by
    intro key x hx hnone
    rw [hx] at hnone
    cases hnone
  exact ⟨drops_self h, fun _ _ _ _ hx hnone => absurd hnone (hstays hx),
    fun _ _ hx hnone => absurd hnone (hstays hx)⟩

theorem get_drop {other : K} {x : V × Nat × Nat} (h : (cache.drop key).entries.get other = some x) :
    other ≠ key ∧ cache.entries.get other = some x := by
  rw [(drop_entries cache key).1, Table.get_erase] at h
  split_ifs at h with hsame
  exact ⟨hsame, h⟩

/-- INTERNAL: dropping an entry and going on. -/
theorem drops_drop {rest : ByteLru K V} (h : Charged cache)
    (hover : cache.budget - bytes < cache.used) (hold : cache.oldest hash = some key)
    (hrest : Drops bytes (cache.drop key) rest) : Drops bytes cache rest := by
  obtain ⟨hentries, hbudget, hclock⟩ := drop_entries cache key
  obtain ⟨entry, hentry, -⟩ := oldest_least hold
  refine ⟨hrest.charged, hrest.budget.trans hbudget, hrest.clock.trans hclock,
    fun other x hx => (get_drop (hrest.sub other x hx)).2, .inr ?_⟩
  rcases hrest.last with rfl | ⟨last, x, hx, hnone, hlast⟩
  · refine ⟨key, entry, hentry, ?_, ?_⟩
    · rw [hentries, Table.get_erase_self]
    · rw [hentries, ← charges_erase h.distinct hentry, ← h.used]
      exact hover
  · exact ⟨last, x, (get_drop hx).2, hnone, hbudget ▸ hlast⟩

theorem StampsApart.drop (h : StampsApart cache) (key : K) : StampsApart (cache.drop key) := by
  intro a b x y ha hb
  exact h a b x y (get_drop ha).2 (get_drop hb).2

/-- INTERNAL: dropping the oldest entry and going on. -/
theorem evicts_drop {rest : ByteLru K V} (h : Charged cache) (hapart : StampsApart cache)
    (hover : cache.budget - bytes < cache.used) (hold : cache.oldest hash = some key)
    (hrest : DropsOldest bytes (cache.drop key) rest) : DropsOldest bytes cache rest := by
  obtain ⟨hentries, hbudget, -⟩ := drop_entries cache key
  obtain ⟨entry, hentry, hleast⟩ := oldest_least hold
  have hlater : ∀ other x, other ≠ key → cache.entries.get other = some x →
      entry.2.2 < x.2.2 := by
    intro other x hne hx
    refine Nat.lt_of_le_of_ne (hleast other x hx) fun heq => hne ?_
    exact (hapart key other entry x hentry hx heq).symm
  refine ⟨drops_drop h hover hold hrest.toDrops, fun gone kept x y hx hnone hy => ?_,
    fun gone x hx hnone => ?_⟩
  · obtain ⟨hkept, hy'⟩ := get_drop (hrest.sub kept y hy)
    by_cases hgone : gone = key
    · rw [hgone, hentry] at hx
      obtain rfl := Option.some.inj hx
      exact hlater kept y hkept hy'
    · refine hrest.order gone kept x y ?_ hnone hy
      rw [hentries, Table.get_erase_ne hgone]
      exact hx
  · by_cases hgone : gone = key
    · -- every entry is at least as new as the oldest
      rw [hgone, hentry] at hx
      obtain rfl := Option.some.inj hx
      have hall : cache.entries.entries.filter (fun e => decide (entry.2.2 ≤ e.2.2.2)) =
          cache.entries.entries := by
        refine List.filter_eq_self.mpr fun e he => decide_eq_true ?_
        exact hleast e.1 e.2 (h.distinct.get_of_mem he)
      rw [hall, ← h.used]
      exact hover
    · have hin : (cache.drop key).entries.get gone = some x := by
        rw [hentries, Table.get_erase_ne hgone]
        exact hx
      have hneeded := hrest.needed gone x hin hnone
      rw [hbudget, hentries] at hneeded
      -- the oldest is not among the entries that are as new as this one
      have hsame : (cache.entries.erase key).entries.filter (fun e => decide (x.2.2 ≤ e.2.2.2)) =
          cache.entries.entries.filter fun e => decide (x.2.2 ≤ e.2.2.2) := by
        change List.filter _ (List.filter _ _) = _
        rw [List.filter_filter]
        refine List.filter_congr fun e he => ?_
        by_cases hnew : x.2.2 ≤ e.2.2.2
        · have hother : e.1 ≠ key := by
            intro heq
            have hget := h.distinct.get_of_mem he
            rw [heq, hentry] at hget
            have hless := hlater gone x hgone hx
            rw [Option.some.inj hget] at hless
            omega
          rw [decide_eq_true hother, Bool.and_true]
        · rw [decide_eq_false hnew, Bool.false_and]
      rw [hsame] at hneeded
      exact hneeded

theorem evict_drops (h : Charged cache) : Drops bytes cache (cache.evict hash bytes rounds) := by
  induction rounds generalizing cache with
  | zero => exact drops_self h
  | succ rounds ih =>
    unfold ByteLru.evict
    split_ifs with hroom
    · exact drops_self h
    · split
      · exact drops_self h
      · next key hold => exact drops_drop h (Nat.lt_of_not_le hroom) hold (ih (h.drop key))

theorem evict_evicts (h : Charged cache) (hapart : StampsApart cache) :
    DropsOldest bytes cache (cache.evict hash bytes rounds) := by
  induction rounds generalizing cache with
  | zero => exact evicts_self h
  | succ rounds ih =>
    unfold ByteLru.evict
    split_ifs with hroom
    · exact evicts_self h
    · split
      · exact evicts_self h
      · next key hold =>
        exact evicts_drop h hapart (Nat.lt_of_not_le hroom) hold (ih (h.drop key) (hapart.drop key))

/-- INTERNAL: there are rounds for all entries, so the loop ends with room. -/
theorem evict_room (hash : MapOrder K) (bytes : Nat) (h : Charged cache)
    (hrounds : cache.entries.size < rounds) :
    (cache.evict hash bytes rounds).used ≤ cache.budget - bytes := by
  induction rounds generalizing cache with
  | zero => exact absurd hrounds (Nat.not_lt_zero _)
  | succ rounds ih =>
    unfold ByteLru.evict
    split_ifs with hroom
    · exact hroom
    · split
      · next hnone =>
        rw [h.used, oldest_none hnone]
        exact Nat.zero_le _
      · next key hold =>
        obtain ⟨hentries, hbudget, -⟩ := drop_entries cache key
        obtain ⟨entry, hentry, -⟩ := oldest_least hold
        have hsize := Table.size_erase_some h.distinct hentry
        have hless := ih (h.drop key) (by rw [hentries]; omega)
        rwa [hbudget] at hless

end Evictions

/-! ## Runs -/

section Runs

variable {K V : Type} [DecidableEq K] {cache : ByteLru K V} {budget : Nat}
  {history : List (LruCall K V)}

/-- INTERNAL: when an entry was touched. -/
def stampOf (cache : ByteLru K V) (key : K) : Option Nat :=
  (cache.entries.get key).map fun entry => entry.2.2

/-- INTERNAL: the cache that a history leaves. -/
structure LruInv (budget : Nat) (history : List (LruCall K V)) (cache : ByteLru K V) : Prop where
  charged : Charged cache
  limit : cache.budget = budget
  fits : budget ≤ u64Max
  within : cache.used ≤ budget
  clock : cache.clock ≤ history.length
  stamped : history.length ≤ u64Max →
    Stamped (LruCall.uses budget) history (stampOf cache) cache.clock
  values : ∀ key entry, cache.entries.get key = some entry →
    lastInserted budget key history = some entry.1

variable {entry : V × Nat × Nat}

theorem stampOf_some {key : K} (h : cache.entries.get key = some entry) :
    stampOf cache key = some entry.2.2 := by
  unfold stampOf
  rw [h]
  rfl

theorem stampOf_eq_some {key : K} {s : Nat} (h : stampOf cache key = some s) :
    ∃ entry, cache.entries.get key = some entry ∧ entry.2.2 = s :=
  Option.map_eq_some_iff.mp h

/-- INTERNAL: stamps that follow the last uses are apart. -/
theorem stampsApart_of_stamped
    (h : Stamped (LruCall.uses budget) history (stampOf cache) cache.clock) :
    StampsApart cache := by
  intro a b x y ha hb heq
  have hab := h.lt_iff (stampOf_some ha) (stampOf_some hb)
  have hba := h.lt_iff (stampOf_some hb) (stampOf_some ha)
  exact lastUse_inj (h.used a _ (stampOf_some ha)) (by omega)

theorem lruInv_new (hbudget : budget ≤ u64Max) :
    LruInv budget ([] : List (LruCall K V)) (.new budget) where
  charged := ⟨Table.distinct_empty, rfl, Nat.zero_le _⟩
  limit := rfl
  fits := hbudget
  within := Nat.zero_le _
  clock := Nat.le_refl _
  stamped _ := stamped_nil
  values := nofun

theorem clock_succ (h : LruInv budget history cache) (hlength : history.length < u64Max) :
    saturatingAdd cache.clock 1 = cache.clock + 1 := by
  have hclock := h.clock
  exact Nat.min_eq_left (by omega)

/-! ### Gets -/

theorem get_absent {key : K} (h : cache.entries.get key = none) : cache.get key = none := by
  unfold ByteLru.get
  rw [h]

theorem get_present {key : K} (h : cache.entries.get key = some entry) :
    cache.get key = some (entry.1, { cache with
      entries := cache.entries.set key (entry.1, entry.2.1, saturatingAdd cache.clock 1)
      clock := saturatingAdd cache.clock 1 }) := by
  unfold ByteLru.get
  rw [h]

theorem saturatingAdd_one_le (h : LruInv budget history cache) (call : LruCall K V) :
    saturatingAdd cache.clock 1 ≤ (call :: history).length :=
  (Nat.min_le_left _ _).trans (Nat.succ_le_succ h.clock)

theorem lruInv_get (h : LruInv budget history cache) (key : K) :
    LruInv budget (.get key :: history) (LruCall.run cache (.get key)) := by
  cases hget : cache.entries.get key with
  | none =>
    have hrun : LruCall.run cache (.get key) = cache := by
      rw [LruCall.run, get_absent hget]
      rfl
    rw [hrun]
    refine ⟨h.charged, h.limit, h.fits, h.within, Nat.le_succ_of_le h.clock, fun hlength => ?_,
      h.values⟩
    refine (h.stamped (Nat.le_of_succ_le hlength)).skip fun k hk => ?_
    obtain rfl := Option.some.inj hk
    unfold stampOf
    rw [hget]
    rfl
  | some entry =>
    have hrun : LruCall.run cache (.get key) = { cache with
        entries := cache.entries.set key (entry.1, entry.2.1, saturatingAdd cache.clock 1)
        clock := saturatingAdd cache.clock 1 } := by
      rw [LruCall.run, get_present hget]
      rfl
    have hcharges : charges (cache.entries.set key
        (entry.1, entry.2.1, saturatingAdd cache.clock 1)).entries =
          charges cache.entries.entries := by
      rw [charges_erase h.charged.distinct hget]
      rfl
    rw [hrun]
    refine ⟨⟨h.charged.distinct.set key _, h.charged.used.trans hcharges.symm, h.charged.fits⟩,
      h.limit, h.fits, h.within, saturatingAdd_one_le h _, fun hlength => ?_, fun other x hx => ?_⟩
    · rw [clock_succ h hlength]
      refine (h.stamped (Nat.le_of_succ_le hlength)).touch rfl ?_ fun other s hne hs => ?_
      · unfold stampOf
        rw [Table.get_set_self]
        rfl
      · obtain ⟨x, hx, rfl⟩ := stampOf_eq_some hs
        exact stampOf_some ((Table.get_set_ne hne).symm.trans hx)
    · rw [Table.get_set] at hx
      split_ifs at hx with heq
      · obtain rfl := Option.some.inj hx
        rw [heq]
        exact h.values key entry hget
      · exact h.values other x hx

/-! ### Insertions -/

variable {hash : MapOrder K} {key : K} {value : V} {bytes : Nat}

/-- INTERNAL: what is left of the other keys when an insertion has made room. -/
def roomFor (hash : MapOrder K) (cache : ByteLru K V) (key : K) (bytes : Nat) : ByteLru K V :=
  (cache.drop key).evict hash bytes (cache.entries.size + 1)

theorem roomFor_drops (h : LruInv budget history cache) (hash : MapOrder K) (key : K)
    (bytes : Nat) : Drops bytes (cache.drop key) (roomFor hash cache key bytes) :=
  evict_drops (h.charged.drop key)

theorem roomFor_evicts (h : LruInv budget history cache) (hlength : history.length ≤ u64Max)
    (hash : MapOrder K) (key : K) (bytes : Nat) :
    DropsOldest bytes (cache.drop key) (roomFor hash cache key bytes) :=
  evict_evicts (h.charged.drop key) ((stampsApart_of_stamped (h.stamped hlength)).drop key)

theorem roomFor_used (h : LruInv budget history cache) (hash : MapOrder K) (key : K)
    (bytes : Nat) :
    (roomFor hash cache key bytes).used ≤ budget - bytes := by
  obtain ⟨hentries, hbudget, -⟩ := drop_entries cache key
  have hsize : (cache.drop key).entries.size < cache.entries.size + 1 := by
    rw [hentries]
    exact Nat.lt_succ_of_le (List.length_filter_le _ _)
  have hroom := evict_room hash bytes (h.charged.drop key) hsize
  rwa [hbudget, h.limit] at hroom

theorem roomFor_sub (h : LruInv budget history cache) {other : K}
    (hget : (roomFor hash cache key bytes).entries.get other = some entry) :
    other ≠ key ∧ cache.entries.get other = some entry :=
  get_drop ((roomFor_drops h hash key bytes).sub other entry hget)

theorem roomFor_key (h : LruInv budget history cache) (hash : MapOrder K) (key : K) (bytes : Nat) :
    (roomFor hash cache key bytes).entries.get key = none := by
  cases hget : (roomFor hash cache key bytes).entries.get key with
  | none => rfl
  | some entry => exact absurd rfl (roomFor_sub h hget).1

theorem insert_over (hover : cache.budget < bytes) : cache.insert hash key value bytes = cache :=
  if_pos hover

theorem insert_within (h : LruInv budget history cache) (hwithin : bytes ≤ budget) :
    cache.insert hash key value bytes = { roomFor hash cache key bytes with
      entries := (roomFor hash cache key bytes).entries.set key
        (value, bytes, saturatingAdd cache.clock 1)
      clock := saturatingAdd cache.clock 1
      used := (roomFor hash cache key bytes).used + bytes } := by
  have hroom := roomFor_used h hash key bytes
  have hfits := h.fits
  have hused : wrappingAdd (roomFor hash cache key bytes).used bytes =
      (roomFor hash cache key bytes).used + bytes := wrappingAdd_eq (by omega)
  have hclock : (roomFor hash cache key bytes).clock = cache.clock :=
    (roomFor_drops h hash key bytes).clock.trans (drop_entries cache key).2.2
  rw [← hused, ← hclock]
  exact if_neg (by rw [h.limit]; omega)

theorem lruInv_insert (h : LruInv budget history cache) :
    LruInv budget (.insert hash key value bytes :: history)
      (cache.insert hash key value bytes) := by
  by_cases hwithin : bytes ≤ budget
  · have hroom := roomFor_used h hash key bytes
    have hdrops := roomFor_drops h hash key bytes
    have hkey := roomFor_key h hash key bytes
    have hcharges : (roomFor hash cache key bytes).used + bytes =
        charges ((roomFor hash cache key bytes).entries.set key
          (value, bytes, saturatingAdd cache.clock 1)).entries := by
      rw [hdrops.charged.used, Table.set, Table.erase_of_get_none hkey, Nat.add_comm]
      rfl
    have hfits := h.fits
    rw [insert_within h hwithin]
    refine ⟨⟨hdrops.charged.distinct.set key _, hcharges, by dsimp only; omega⟩, ?_, h.fits,
      by dsimp only; omega, saturatingAdd_one_le h _, fun hlength => ?_, fun other x hx => ?_⟩
    · exact (hdrops.budget.trans (drop_entries cache key).2.1).trans h.limit
    · rw [clock_succ h hlength]
      refine (h.stamped (Nat.le_of_succ_le hlength)).touch (if_pos hwithin) ?_
        fun other s hne hs => ?_
      · unfold stampOf
        rw [Table.get_set_self]
        rfl
      · obtain ⟨x, hx, rfl⟩ := stampOf_eq_some hs
        exact stampOf_some (roomFor_sub h ((Table.get_set_ne hne).symm.trans hx)).2
    · rw [Table.get_set] at hx
      split_ifs at hx with heq
      · obtain rfl := Option.some.inj hx
        exact if_pos ⟨heq.symm, hwithin⟩
      · refine (if_neg fun hsame => heq hsame.1.symm).trans ?_
        exact h.values other x (roomFor_sub h hx).2
  · rw [insert_over (by rw [h.limit]; omega)]
    refine ⟨h.charged, h.limit, h.fits, h.within, Nat.le_succ_of_le h.clock, fun hlength => ?_,
      fun other x hx => (if_neg fun hsame => hwithin hsame.2).trans (h.values other x hx)⟩
    refine (h.stamped (Nat.le_of_succ_le hlength)).skip fun k hk => ?_
    rw [LruCall.uses, if_neg hwithin] at hk
    cases hk

/-- INTERNAL: the order of the stamps is the order of the last uses. -/
theorem stamp_le_iff (h : LruInv budget history cache) (hlength : history.length ≤ u64Max)
    {a b : K} {x y : V × Nat × Nat} (ha : cache.entries.get a = some x)
    (hb : cache.entries.get b = some y) :
    x.2.2 ≤ y.2.2 ↔ usedAt budget history a ≤ usedAt budget history b := by
  have hlt := (h.stamped hlength).lt_iff (stampOf_some hb) (stampOf_some ha)
  unfold usedAt
  omega

theorem inserts_within (h : LruInv budget history cache) (hwithin : bytes ≤ budget) :
    Inserts budget cache (cache.insert hash key value bytes) key value bytes := by
  obtain ⟨hentries, hbudget, -⟩ := drop_entries cache key
  rw [insert_within h hwithin]
  refine ⟨⟨saturatingAdd cache.clock 1, Table.get_set_self⟩, fun other x hne hx => ?_, ?_⟩
  · exact (roomFor_sub h ((Table.get_set_ne hne).symm.trans hx)).2
  · rcases (roomFor_drops h hash key bytes).last with hsame | ⟨last, entry, hentry, hnone, hlast⟩
    · refine .inl fun other hne => ?_
      rw [Table.get_set_ne hne, hsame, hentries, Table.get_erase_ne hne]
    · obtain ⟨hne, hin⟩ := get_drop hentry
      refine .inr ⟨last, entry, hne, hin, (Table.get_set_ne hne).trans hnone, ?_⟩
      rw [hbudget, h.limit] at hlast
      dsimp only
      rw [Table.erase_set, Table.erase_of_get_none (roomFor_key h hash key bytes)]
      omega

theorem evicts_within (h : LruInv budget history cache) (hlength : history.length ≤ u64Max)
    (hwithin : bytes ≤ budget) :
    EvictsOldest budget history cache (cache.insert hash key value bytes) key bytes := by
  have hevicts := roomFor_evicts h hlength hash key bytes
  obtain ⟨hentries, hbudget, -⟩ := drop_entries cache key
  have hdropped : ∀ {other : K} {x : V × Nat × Nat}, other ≠ key →
      cache.entries.get other = some x → (cache.drop key).entries.get other = some x := by
    intro other x hne hx
    rw [hentries, Table.get_erase_ne hne]
    exact hx
  rw [insert_within h hwithin]
  refine ⟨fun gone kept hgone hkept hin hnone hstays => ?_, fun gone hgone hin hnone => ?_⟩
  · obtain ⟨x, hx⟩ := Option.ne_none_iff_exists'.mp hin
    obtain ⟨y, hy⟩ := Option.ne_none_iff_exists'.mp hstays
    rw [Table.get_set_ne hgone] at hnone
    rw [Table.get_set_ne hkept] at hy
    have hless := hevicts.order gone kept x y (hdropped hgone hx) hnone hy
    have hiff := stamp_le_iff h hlength (roomFor_sub h hy).2 hx
    omega
  · obtain ⟨x, hx⟩ := Option.ne_none_iff_exists'.mp hin
    rw [Table.get_set_ne hgone] at hnone
    have hneeded := hevicts.needed gone x (hdropped hgone hx) hnone
    have hsame : (cache.drop key).entries.entries.filter (fun e => decide (x.2.2 ≤ e.2.2.2)) =
        cache.entries.entries.filter fun e =>
          decide (e.1 ≠ key ∧ usedAt budget history gone ≤ usedAt budget history e.1) := by
      rw [hentries]
      change List.filter _ (List.filter _ _) = _
      rw [List.filter_filter]
      refine List.filter_congr fun e he => ?_
      have hiff := stamp_le_iff h hlength hx (h.charged.distinct.get_of_mem he)
      rw [← Bool.decide_and]
      exact decide_eq_decide.mpr (and_comm.trans (and_congr_right fun _ => hiff))
    rw [hsame, hbudget, h.limit] at hneeded
    omega

theorem inv_lruAfter (hbudget : budget ≤ u64Max) (history : List (LruCall K V)) :
    LruInv budget history (lruAfter budget history) := by
  induction history with
  | nil => exact lruInv_new hbudget
  | cons call older ih =>
    cases call with
    | get key => exact lruInv_get ih key
    | insert hash key value bytes => exact lruInv_insert ih

end Runs

/-- INTERNAL: after any calls the counter is the sum of the charges and within the budget, a `get`
returns the value inserted last, and an insertion is exact; it evicts the keys used first as long
as it is one of the first `2 ^ 64` calls.
SRCLINE: mirage-ffi/src/remote_cache.rs:12-54 -/
theorem byte_lru_exact {K V : Type} [DecidableEq K] (budget : UInt64)
    (history : List (LruCall K V)) :
    (lruAfter budget.toNat history).used =
      charges (lruAfter budget.toNat history).entries.entries ∧
    (lruAfter budget.toNat history).used ≤ budget.toNat ∧
    (∀ key, (lruAfter budget.toNat history).entries.get key ≠ none → ∃ value cache,
      (lruAfter budget.toNat history).get key = some (value, cache) ∧
        lastInserted budget.toNat key history = some value) ∧
    (∀ hash key value bytes, budget.toNat < bytes →
      (lruAfter budget.toNat history).insert hash key value bytes =
        lruAfter budget.toNat history) ∧
    ∀ hash key value bytes, bytes ≤ budget.toNat →
      Inserts budget.toNat (lruAfter budget.toNat history)
        ((lruAfter budget.toNat history).insert hash key value bytes) key value bytes ∧
      (history.length ≤ u64Max → EvictsOldest budget.toNat history (lruAfter budget.toNat history)
        ((lruAfter budget.toNat history).insert hash key value bytes) key bytes) := by
  have hinv := inv_lruAfter (Nat.le_pred_of_lt budget.toNat_lt) history
  refine ⟨hinv.charged.used, hinv.within, fun key hpresent => ?_, ?_, ?_⟩
  · obtain ⟨entry, hentry⟩ := Option.ne_none_iff_exists'.mp hpresent
    exact ⟨entry.1, _, get_present hentry, hinv.values key entry hentry⟩
  · intro hash key value bytes hover
    exact insert_over (by rw [hinv.limit]; exact hover)
  · intro hash key value bytes hwithin
    exact ⟨inserts_within hinv hwithin, fun hcalls => evicts_within hinv hcalls hwithin⟩

/-! ## A saturated clock -/

def listedOrder : MapOrder Nat := ⟨id, fun _ => .refl _⟩

/-- INTERNAL: of two keys the one read again stays, and the other goes for a third. -/
theorem unread_entry_evicted :
    let history := [LruCall.get 1, .insert listedOrder 2 'b' 4, .insert listedOrder 1 'a' 4]
    let cache := (lruAfter 8 history).insert listedOrder 3 'c' 3
    (cache.entries.get 1 ≠ none ∧ cache.entries.get 2 = none) ∧
      Inserts 8 (lruAfter 8 history) cache 3 'c' 3 ∧
      EvictsOldest 8 history (lruAfter 8 history) cache 3 3 := by
  intro history cache
  obtain ⟨-, -, -, -, hinserts⟩ := @byte_lru_exact Nat Char _ 8 history
  obtain ⟨hexact, holdest⟩ := hinserts listedOrder 3 'c' 3 (by decide)
  exact ⟨by decide, hexact, holdest (by decide)⟩

/-- INTERNAL: a key that is inserted and read again and again. -/
def readAgain (n : Nat) : List (LruCall Nat Unit) :=
  List.replicate n (.get 0) ++ [.insert listedOrder 0 () 1]

theorem lruAfter_readAgain (n : Nat) :
    lruAfter 2 (readAgain n) =
      ⟨⟨[(0, (), 1, min (n + 1) u64Max)]⟩, 1, 2, min (n + 1) u64Max⟩ := by
  induction n with
  | zero => rfl
  | succ n ih =>
    change LruCall.run (lruAfter 2 (readAgain n)) (.get 0) = _
    have hclock : saturatingAdd (min (n + 1) u64Max) 1 = min (n + 1 + 1) u64Max := by
      unfold saturatingAdd
      omega
    rw [ih, LruCall.run, get_present rfl, hclock]
    rfl

/-- INTERNAL: another key is inserted, and the first is read once more. -/
def tiedHistory (n : Nat) : List (LruCall Nat Unit) :=
  .get 0 :: .insert listedOrder 1 () 1 :: readAgain n

theorem length_tied (n : Nat) : (tiedHistory n).length = n + 3 := by
  simp [tiedHistory, readAgain]

theorem lruAfter_tied {n : Nat} (h : u64Max ≤ n + 2) :
    lruAfter 2 (tiedHistory n) =
      ⟨⟨[(0, (), 1, u64Max), (1, (), 1, u64Max)]⟩, 2, 2, u64Max⟩ := by
  have hclock : saturatingAdd (min (n + 1) u64Max) 1 = u64Max := by
    unfold saturatingAdd
    omega
  have hstays : saturatingAdd u64Max 1 = u64Max := by decide
  have hruns : ∀ clock, LruCall.run (LruCall.run ⟨⟨[(0, (), 1, clock)]⟩, 1, 2, clock⟩
      (.insert listedOrder 1 () 1)) (.get 0) =
        ⟨⟨[(0, (), 1, saturatingAdd (saturatingAdd clock 1) 1), (1, (), 1, saturatingAdd clock 1)]⟩,
          2, 2, saturatingAdd (saturatingAdd clock 1) 1⟩ := fun _ => rfl
  rw [tiedHistory, lruAfter, lruAfter, lruAfter_readAgain, hruns, hclock, hstays]

theorem usedAt_tied (n : Nat) : usedAt 2 (tiedHistory n) 1 < usedAt 2 (tiedHistory n) 0 := by
  unfold tiedHistory
  generalize readAgain n = older
  have hone := @lastUse_le _ _ _ (LruCall.uses 2) (LruCall.insert listedOrder 1 () 1 :: older) 1
  have hzero : usedAt 2 (.get 0 :: .insert listedOrder 1 () 1 :: older) 0 =
      (LruCall.insert listedOrder 1 () 1 :: older).length + 1 := lastUse_self rfl
  have hskip : usedAt 2 (.get 0 :: .insert listedOrder 1 () 1 :: older) 1 =
      lastUse (LruCall.uses 2) 1 (.insert listedOrder 1 () 1 :: older) := lastUse_other nofun
  omega

theorem tied_drops_newest {n : Nat} (h : u64Max ≤ n + 2) :
    ¬ EvictsOldest 2 (tiedHistory n) (lruAfter 2 (tiedHistory n))
      ((lruAfter 2 (tiedHistory n)).insert listedOrder 2 () 1) 2 1 := by
  intro hinserts
  rw [lruAfter_tied h] at hinserts
  have hless := hinserts.oldest 0 1 (by decide) (by decide) (by decide) (by decide) (by decide)
  exact Nat.lt_asymm hless (usedAt_tied n)

/-- INTERNAL: behind `2 ^ 64` calls two keys have the last stamp, and the one read last goes. -/
theorem saturated_clock_drops_newest :
    ∃ history : List (LruCall Nat Unit), history.length = u64Max + 1 ∧
      ¬ EvictsOldest 2 history (lruAfter 2 history)
        ((lruAfter 2 history).insert listedOrder 2 () 1) 2 1 := by
  have hlast : u64Max - 2 + 2 = u64Max := by decide
  refine ⟨tiedHistory (u64Max - 2), ?_, tied_drops_newest hlast.ge⟩
  rw [length_tied]
  omega

end Mirage.Analysis
