import Mirage.Model.TokenBucket

/-!
# Granted calls in a window

A granted call is paid with a token.  In a window the tokens are those that are left at its first
call and those that come back until its end, so one potential, the tokens and the refills that are
still due, pays for every granted call.
-/

set_option autoImplicit false

namespace Mirage.Analysis

open Mirage.Model

namespace TokenWindows

variable {bucket : TokenBucket} {now finish : Nat}

/-! ## Runs -/

/-- INTERNAL: the bucket after calls at these times. -/
def after (bucket : TokenBucket) (times : List UInt64) : TokenBucket :=
  times.foldl (fun b now => (b.allowAt now.toNat).2) bucket

/-- INTERNAL: the times of calls with their answers. -/
def answers : TokenBucket → List UInt64 → List (Nat × Bool)
  | _, [] => []
  | bucket, now :: times =>
    (now.toNat, (bucket.allowAt now.toNat).1) :: answers (bucket.allowAt now.toNat).2 times

/-- INTERNAL: the granted calls from `begin` to `finish`, both included. -/
def granted (bucket : TokenBucket) (times : List UInt64) (begin finish : Nat) : Nat :=
  (answers bucket times).countP fun call => call.2 && begin ≤ call.1 && call.1 ≤ finish

/-! ## One call -/

/-- INTERNAL: the tokens, and the refills that are due until `finish`. -/
def potential (bucket : TokenBucket) (finish : Nat) : Nat :=
  bucket.tokens + (finish - bucket.lastRefillMs) / bucket.refillEveryMs

/-- INTERNAL: a bucket that can grant calls never holds more than its capacity. -/
structure Sound (capacity interval : Nat) (bucket : TokenBucket) : Prop where
  usable : 0 < capacity
  positive : 0 < interval
  tokens : bucket.tokens ≤ capacity
  holds : bucket.capacity = capacity
  refills : bucket.refillEveryMs = interval

variable {capacity interval : Nat}

/-- INTERNAL: where a refill leaves the start of the running interval. -/
theorem refilled_last (h : Sound capacity interval bucket) (hnow : now ≤ u64Max) :
    (bucket.refilled now).lastRefillMs =
      bucket.lastRefillMs + (now - bucket.lastRefillMs) / interval * interval := by
  unfold TokenBucket.refilled
  dsimp only
  rw [h.refills]
  split_ifs with hzero
  · have hle := Nat.div_mul_le_self (now - bucket.lastRefillMs) interval
    have hpos : now - bucket.lastRefillMs ≠ 0 := by
      intro heq
      rw [heq, Nat.zero_div] at hzero
      exact hzero rfl
    unfold saturatingAdd
    dsimp only
    omega
  · rw [not_not.mp hzero]
    omega

theorem refilled_tokens (h : Sound capacity interval bucket) (now : Nat) :
    (bucket.refilled now).tokens ≤
      bucket.tokens + (now - bucket.lastRefillMs) / interval := by
  unfold TokenBucket.refilled
  dsimp only
  rw [h.refills]
  split_ifs
  · dsimp only
    omega
  · omega

theorem sound_refilled (h : Sound capacity interval bucket) (now : Nat) :
    Sound capacity interval (bucket.refilled now) := by
  have hcapacity := h.holds
  have htokens := h.tokens
  unfold TokenBucket.refilled
  dsimp only
  split_ifs
  · exact ⟨h.usable, h.positive, by dsimp only; omega, h.holds, h.refills⟩
  · exact h

/-- INTERNAL: a refill pays for its tokens with refills that were due. -/
theorem potential_refilled (h : Sound capacity interval bucket) (hnow : now ≤ u64Max)
    (hfinish : now ≤ finish) :
    potential (bucket.refilled now) finish ≤ potential bucket finish := by
  have hinterval := (sound_refilled h now).refills
  have hlast := refilled_last h hnow
  have htokens := refilled_tokens h now
  unfold potential
  rw [hinterval, h.refills, hlast, Nat.sub_add_eq]
  have hdue : (finish - bucket.lastRefillMs -
      (now - bucket.lastRefillMs) / interval * interval) / interval =
        (finish - bucket.lastRefillMs) / interval - (now - bucket.lastRefillMs) / interval := by
    rw [Nat.mul_comm]
    exact Nat.sub_mul_div _ _ _
  have hmono : (now - bucket.lastRefillMs) / interval ≤
      (finish - bucket.lastRefillMs) / interval := Nat.div_le_div_right (by omega)
  omega

/-- INTERNAL: behind a call less than an interval is running, so a window has few refills. -/
theorem potential_window (h : Sound capacity interval bucket) (hnow : now ≤ u64Max)
    (hfinish : now ≤ finish) :
    potential (bucket.refilled now) finish ≤ capacity + ((finish - now) / interval + 1) := by
  have hsound := sound_refilled h now
  have htokens := hsound.tokens
  have hlast := refilled_last h hnow
  have hmod := Nat.div_add_mod' (now - bucket.lastRefillMs) interval
  have hrest := Nat.mod_lt (now - bucket.lastRefillMs) h.positive
  have hdue : (finish - (bucket.refilled now).lastRefillMs) / interval ≤
      (finish - now + interval) / interval := Nat.div_le_div_right (by omega)
  rw [Nat.add_div_right _ h.positive] at hdue
  unfold potential
  rw [hsound.refills]
  omega

/-- INTERNAL: a granted call takes a token. -/
theorem take_tokens (bucket : TokenBucket) :
    bucket.take.1.toNat + bucket.take.2.tokens = bucket.tokens ∧
      bucket.take.2 = { bucket with tokens := bucket.take.2.tokens } := by
  unfold TokenBucket.take
  split_ifs with hzero
  · exact ⟨Nat.zero_add _, rfl⟩
  · refine ⟨?_, rfl⟩
    dsimp only [Bool.toNat_true]
    omega

theorem allowAt_eq (h : Sound capacity interval bucket) :
    bucket.allowAt now = (bucket.refilled now).take := by
  have husable := h.usable
  have hpositive := h.positive
  rw [← h.holds] at husable
  rw [← h.refills] at hpositive
  exact if_neg (by omega)

theorem sound_allowAt (h : Sound capacity interval bucket) (now : Nat) :
    Sound capacity interval (bucket.allowAt now).2 := by
  have hsound := sound_refilled h now
  obtain ⟨htokens, hrest⟩ := take_tokens (bucket.refilled now)
  have hle := hsound.tokens
  rw [allowAt_eq h, hrest]
  exact ⟨h.usable, h.positive, by dsimp only; omega, hsound.holds, hsound.refills⟩

theorem allowAt_pays (h : Sound capacity interval bucket) (now finish : Nat) :
    (bucket.allowAt now).1.toNat + potential (bucket.allowAt now).2 finish =
      potential (bucket.refilled now) finish := by
  obtain ⟨htokens, hrest⟩ := take_tokens (bucket.refilled now)
  rw [allowAt_eq h, hrest]
  unfold potential
  dsimp only
  omega

/-! ## Windows -/

variable {begin : Nat} {times : List UInt64}

theorem granted_cons (time : UInt64) :
    granted bucket (time :: times) begin finish =
      granted (bucket.allowAt time.toNat).2 times begin finish +
        if ((bucket.allowAt time.toNat).1 && begin ≤ time.toNat && time.toNat ≤ finish) = true
        then 1 else 0 :=
  List.countP_cons

theorem answers_times {call : Nat × Bool} (h : call ∈ answers bucket times) :
    ∃ time ∈ times, call.1 = time.toNat := by
  induction times generalizing bucket with
  | nil => cases h
  | cons time times ih =>
    rcases List.mem_cons.mp h with rfl | hrest
    · exact ⟨time, List.mem_cons_self, rfl⟩
    · obtain ⟨other, hmem, heq⟩ := ih hrest
      exact ⟨other, List.mem_cons_of_mem time hmem, heq⟩

/-- INTERNAL: when a call is behind the window, so are the later ones, and none counts. -/
theorem granted_behind {time : UInt64} (hsorted : (time :: times).Pairwise (· ≤ ·))
    (hlate : finish < time.toNat) : granted bucket (time :: times) begin finish = 0 := by
  refine List.countP_eq_zero.mpr fun call hcall hcounted => ?_
  obtain ⟨other, hmem, heq⟩ := answers_times hcall
  have hbehind : time.toNat ≤ other.toNat := by
    rcases List.mem_cons.mp hmem with rfl | hrest
    · exact Nat.le_refl _
    · exact UInt64.le_iff_toNat_le.mp ((List.pairwise_cons.mp hsorted).1 other hrest)
  rw [Bool.and_eq_true, decide_eq_true_eq, heq] at hcounted
  omega

/-- INTERNAL: when the bucket behind a call pays for the later calls, the refilled one pays for
this call as well. -/
theorem granted_cons_le {time : UInt64} (h : Sound capacity interval bucket)
    (hlater : granted (bucket.allowAt time.toNat).2 times begin finish ≤
      potential (bucket.allowAt time.toNat).2 finish) :
    granted bucket (time :: times) begin finish ≤
      potential (bucket.refilled time.toNat) finish := by
  have hpays := allowAt_pays h time.toNat finish
  rw [granted_cons]
  cases hgrant : (bucket.allowAt time.toNat).1 with
  | false =>
    rw [hgrant, Bool.toNat_false] at hpays
    rw [if_neg (by simp)]
    omega
  | true =>
    rw [hgrant, Bool.toNat_true] at hpays
    split_ifs <;> omega

/-- INTERNAL: the potential pays for all calls up to the end of the window. -/
theorem granted_le_potential (h : Sound capacity interval bucket)
    (hsorted : times.Pairwise (· ≤ ·)) (begin finish : Nat) :
    granted bucket times begin finish ≤ potential bucket finish := by
  induction times generalizing bucket with
  | nil => exact Nat.zero_le _
  | cons time times ih =>
    by_cases hlate : finish < time.toNat
    · rw [granted_behind hsorted hlate]
      exact Nat.zero_le _
    · have hlater := ih (sound_allowAt h time.toNat) (List.pairwise_cons.mp hsorted).2
      exact Nat.le_trans (granted_cons_le h hlater)
        (potential_refilled h (Nat.le_pred_of_lt time.toNat_lt) (Nat.le_of_not_lt hlate))

/-- INTERNAL: calls before the window leave a sound bucket for its first call. -/
theorem granted_window (h : Sound capacity interval bucket) (hsorted : times.Pairwise (· ≤ ·))
    (begin length : Nat) :
    granted bucket times begin (begin + length) ≤ capacity + (length / interval + 1) := by
  induction times generalizing bucket with
  | nil => exact Nat.zero_le _
  | cons time times ih =>
    have hrest := (List.pairwise_cons.mp hsorted).2
    by_cases hbefore : time.toNat < begin
    · rw [granted_cons, if_neg (by simp only [Bool.and_eq_true, decide_eq_true_eq]; omega)]
      exact ih (sound_allowAt h time.toNat) hrest
    · by_cases hlate : begin + length < time.toNat
      · rw [granted_behind hsorted hlate]
        exact Nat.zero_le _
      · have hlater := granted_le_potential (sound_allowAt h time.toNat) hrest begin
          (begin + length)
        have hwindow := potential_window h (Nat.le_pred_of_lt time.toNat_lt)
          (Nat.le_of_not_lt hlate)
        have hshort : (begin + length - time.toNat) / interval ≤ length / interval :=
          Nat.div_le_div_right (by omega)
        have hpaid := granted_cons_le h hlater
        omega

/-- INTERNAL: a bucket without capacity grants nothing and stays as it is. -/
theorem after_unusable (h : bucket.capacity = 0) (times : List UInt64) :
    after bucket times = bucket ∧ ∀ begin finish, granted bucket times begin finish = 0 := by
  induction times with
  | nil => exact ⟨rfl, fun _ _ => rfl⟩
  | cons time times ih =>
    have hrefused : bucket.allowAt time.toNat = (false, bucket) := if_pos (.inl h)
    constructor
    · change after (bucket.allowAt time.toNat).2 times = bucket
      rw [hrefused]
      exact ih.1
    · intro begin finish
      rw [granted_cons, hrefused]
      exact ih.2 begin finish

theorem sound_after (h : Sound capacity interval bucket) (times : List UInt64) :
    Sound capacity interval (after bucket times) := by
  induction times generalizing bucket with
  | nil => exact h
  | cons time times ih => exact ih (sound_allowAt h time.toNat)

end TokenWindows

open TokenWindows in
/-- INTERNAL: the tokens never exceed the capacity, and a window of time grants at most the
capacity, a token for each interval in it and one more.
SRCLINE: mirage-ipc/src/rate_limit.rs:8-40 -/
theorem bucket_limits_windows (capacity : UInt32) {refillEveryMs : UInt64} (startMs : UInt64)
    {times : List UInt64} (hinterval : 0 < refillEveryMs) (hsorted : times.Pairwise (· ≤ ·)) :
    (∀ before, before <+: times →
      (after (.new capacity refillEveryMs startMs) before).tokens ≤ capacity.toNat) ∧
    ∀ begin length, granted (.new capacity refillEveryMs startMs) times begin (begin + length) ≤
      capacity.toNat + length / refillEveryMs.toNat + 1 := by
  by_cases hzero : capacity.toNat = 0
  · have hunusable := @after_unusable (.new capacity refillEveryMs startMs) hzero
    constructor
    · intro before _
      rw [(hunusable before).1]
      exact Nat.le_refl _
    · intro begin length
      rw [(hunusable times).2]
      exact Nat.zero_le _
  · have hsound : Sound capacity.toNat refillEveryMs.toNat (.new capacity refillEveryMs startMs) :=
      ⟨Nat.pos_of_ne_zero hzero, UInt64.lt_iff_toNat_lt.mp hinterval, Nat.le_refl _, rfl, rfl⟩
    exact ⟨fun before _ => (sound_after hsound before).tokens, granted_window hsound hsorted⟩

open TokenWindows in
/-- INTERNAL: two tokens, the second refilled at its time. -/
theorem two_tokens_limit_a_window :
    (∀ before, before <+: [0, 0, 99, 100] → (after (.new 2 100 0) before).tokens ≤ 2) ∧
    ∀ begin length, granted (.new 2 100 0) [0, 0, 99, 100] begin (begin + length) ≤
      2 + length / 100 + 1 :=
  bucket_limits_windows 2 0 (by decide) (by decide)

end Mirage.Analysis
