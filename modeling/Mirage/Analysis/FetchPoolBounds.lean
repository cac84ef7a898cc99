import Mirage.Interface.FetchPoolRun

/-!
# The fetch pool keeps its bounds and calls every job once

Every counter is the total of a weight over the queue and over the places of the workers, and
each step moves one job from one place to another.  So a step lemma is a balance of weights:
what the queue loses the worker gains, and what the worker gives up a record gains.
-/

set_option autoImplicit false

namespace Mirage.Analysis

open Mirage.Computation Mirage.Model Mirage.Interface

variable {config : FetchPoolConfig} {s s' : PoolRun}

/-! ## Weights of the queue -/

variable {w : QueuedJob → Nat} {job : QueuedJob} {bytes deadlineNs i now : Nat}
  {priority : FetchPriority} {onExpire : Bool} {peeked : Option QueuedJob}

theorem sum_erase {queue : List QueuedJob} (h : job ∈ queue) :
    w job + ((queue.erase job).map w).sum = (queue.map w).sum :=
  List.sum_map_erase w h

theorem sum_append_one {queue : List QueuedJob} (job : QueuedJob) :
    ((queue ++ [job]).map w).sum = (queue.map w).sum + w job := by
  rw [List.map_append, List.sum_append, List.map_singleton, List.sum_singleton]

theorem sum_only (queue : List QueuedJob) (job : QueuedJob) :
    (queue.map (only job)).sum = queue.count job := by
  induction queue with
  | nil => rfl
  | cons head queue ih =>
    rw [List.map_cons, List.sum_cons, ih, List.count_cons]
    unfold only
    by_cases hhead : head = job
    · rw [if_pos hhead, if_pos (beq_iff_eq.mpr hhead), Nat.add_comm]
    · rw [if_neg hhead, if_neg (by rw [beq_iff_eq]; exact hhead), Nat.zero_add, Nat.add_zero]

theorem sum_speculativeUnit (queue : List QueuedJob) :
    (queue.map fun job => PoolState.speculativeUnit job.priority).sum =
      queue.countP fun job => job.priority.speculative := by
  induction queue with
  | nil => rfl
  | cons head queue ih =>
    rw [List.map_cons, List.sum_cons, ih, List.countP_cons, Nat.add_comm]
    rfl

/-- INTERNAL: a job without a hook weighs nothing. -/
def HookWeight (w : QueuedJob → Nat) : Prop := ∀ job, job.onExpire = false → w job = 0

theorem sum_filter_onExpire (hw : HookWeight w) (queue : List QueuedJob) :
    ((queue.filter QueuedJob.onExpire).map w).sum = (queue.map w).sum := by
  induction queue with
  | nil => rfl
  | cons head queue ih =>
    rw [List.filter_cons, List.map_cons, List.sum_cons]
    cases hhook : head.onExpire with
    | true =>
      rw [if_pos rfl, List.map_cons, List.sum_cons, ih]
    | false =>
      rw [if_neg Bool.false_ne_true, ih, hw head hhook, Nat.zero_add]

/-! ## The invariant -/

/-- INTERNAL: where the closures of jobs with hooks are. -/
def placed (config : FetchPoolConfig) (s : PoolRun) (w : QueuedJob → Nat) : Nat :=
  (s.state.queue.map w).sum + (totalWeight config.workers (jobHeld w) s.workers +
    (s.jobsRun.map w).sum) + (totalWeight config.workers (hookHeld w) s.workers +
      (s.dropping.map w).sum + (s.hooksRun.map w).sum)

structure PoolInv (config : FetchPoolConfig) (s : PoolRun) : Prop where
  outside : ∀ i, config.workers ≤ i → s.workers i = .seeking
  running : s.state.running = totalWeight config.workers (takenWeight fun _ => 1) s.workers
  speculative : s.state.runningSpeculative = totalWeight config.workers
    (takenWeight fun job => PoolState.speculativeUnit job.priority) s.workers
  speculative_le : s.state.runningSpeculative ≤ max (config.workers - 1) 1
  bytes : s.state.bytesInFlight = runningBytes config s
  fits : queuedBytes s + runningBytes config s ≤ u64Max
  queued : s.state.closed = false → s.state.queue.length ≤ config.queueDepth ∧
    s.state.queuedSpeculative =
      (s.state.queue.map fun job => PoolState.speculativeUnit job.priority).sum ∧
    s.state.queuedSpeculative ≤ config.speculativeQueueDepth
  dropping : s.state.closed = false → s.dropping = []
  tickets : s.accepted.map QueuedJob.ticket = List.range s.accepted.length
  placed : ∀ w, HookWeight w → placed config s w = (s.accepted.map w).sum

theorem inside_of_place (h : PoolInv config s) {place : WorkerAt} (hplace : s.workers i = place)
    (hne : place ≠ .seeking) : i < config.workers := by
  by_contra hout
  exact hne (hplace.symm.trans (h.outside i (Nat.le_of_not_lt hout)))

theorem outside_update (h : PoolInv config s) (hi : i < config.workers) (place : WorkerAt) :
    ∀ j, config.workers ≤ j → Function.update s.workers i place j = .seeking := by
  intro j hj
  rw [Function.update_of_ne (by omega)]
  exact h.outside j hj

/-- INTERNAL: the balance of a worker that moves to another place. -/
theorem weights_goto {place : WorkerAt} (hi : i < config.workers) (hplace : s.workers i = place)
    (w : WorkerAt → Nat) (next : WorkerAt) :
    totalWeight config.workers w (Function.update s.workers i next) + w place =
      totalWeight config.workers w s.workers + w next := by
  rw [← hplace]
  exact totalWeight_update hi w s.workers next

theorem poolInv_start : PoolInv config .start := by
  have hzero : ∀ w : WorkerAt → Nat, w .seeking = 0 →
      totalWeight config.workers w PoolRun.start.workers = 0 :=
    fun w hw => totalWeight_eq_zero fun _ _ => hw
  refine ⟨fun _ _ => rfl, ?_, ?_, Nat.zero_le _, ?_, ?_, ?_, fun _ => rfl, rfl, ?_⟩
  · exact (hzero _ rfl).symm
  · exact (hzero _ rfl).symm
  · exact (hzero _ rfl).symm
  · unfold queuedBytes runningBytes
    rw [hzero _ rfl]
    exact Nat.zero_le _
  · intro _
    exact ⟨Nat.zero_le _, rfl, Nat.zero_le _⟩
  · intro w _
    unfold placed
    rw [hzero _ rfl, hzero _ rfl]
    rfl

/-! ## Spawns -/

theorem spawnMeteredInner_ok {state state' : PoolState} {ticket : Nat}
    (h : state.spawnMeteredInner config ticket priority deadlineNs bytes onExpire = .ok state') :
    state.closed = false ∧ state.queue.length < config.queueDepth ∧
      (priority.speculative = true → state.queuedSpeculative < config.speculativeQueueDepth) ∧
      (priority.speculative = true → 0 < config.maxInFlightBytes →
        saturatingAdd (saturatingAdd state.bytesInFlight state.queuedBytes) bytes ≤
          config.maxInFlightBytes) ∧
      state' = { state with
        nextSequence := (state.nextSequence + 1) % 2 ^ 64
        queuedSpeculative := state.queuedSpeculative + PoolState.speculativeUnit priority
        queue := state.queue ++ [state.newJob ticket priority deadlineNs bytes onExpire] } := by
  unfold PoolState.spawnMeteredInner at h
  obtain ⟨hopen, h⟩ := ensure_bind_ok.mp h
  obtain ⟨hdepth, h⟩ := ensure_bind_ok.mp h
  obtain ⟨hcredit, h⟩ := ensure_bind_ok.mp h
  obtain ⟨hbytes, h⟩ := ensure_bind_ok.mp h
  exact ⟨hopen, hdepth, hcredit, hbytes, (Except.ok.inj h).symm⟩

theorem speculativeUnit_le (priority : FetchPriority) {n most : Nat}
    (hspeculative : priority.speculative = true → n < most) (hle : n ≤ most) :
    n + PoolState.speculativeUnit priority ≤ most := by
  unfold PoolState.speculativeUnit
  split_ifs with h
  · exact hspeculative h
  · exact hle

theorem inv_spawn (h : PoolInv config s) {state : PoolState}
    (hfits : queuedBytes s + runningBytes config s + bytes ≤ u64Max)
    (hok : s.state.spawnMeteredInner config s.accepted.length priority deadlineNs bytes onExpire =
      .ok state) :
    PoolInv config { s with
      state := state
      accepted := s.accepted ++
        [s.state.newJob s.accepted.length priority deadlineNs bytes onExpire] } := by
  obtain ⟨hopen, hdepth, hcredit, -, rfl⟩ := spawnMeteredInner_ok hok
  obtain ⟨-, hqueued, hqueued_le⟩ := h.queued hopen
  refine ⟨h.outside, h.running, h.speculative, h.speculative_le, h.bytes, ?_, fun _ => ?_, ?_, ?_,
    fun w hw => ?_⟩
  · unfold queuedBytes
    rw [sum_append_one]
    unfold queuedBytes at hfits
    change _ + bytes + runningBytes config s ≤ u64Max
    omega
  · refine ⟨?_, ?_, speculativeUnit_le priority hcredit hqueued_le⟩
    · rw [List.length_append]
      exact hdepth
    · dsimp only
      rw [sum_append_one, ← hqueued]
      rfl
  · exact fun _ => h.dropping hopen
  · dsimp only
    rw [List.map_append, h.tickets, List.length_append, List.length_singleton, List.range_succ]
    rfl
  · have hplaced := h.placed w hw
    unfold placed at hplaced ⊢
    dsimp only
    rw [sum_append_one, sum_append_one]
    omega

/-! ## Rounds of a worker -/

/-- INTERNAL: a worker goes to a place where it has taken what it had; only the queue and the
places of the closures may change with it. -/
theorem inv_moved (h : PoolInv config s) (hi : i < config.workers) (next : WorkerAt)
    {place : WorkerAt}
    (hplace : s.workers i = place) (htaken : ∀ w, takenWeight w next = takenWeight w place)
    (hworkers : s'.workers = Function.update s.workers i next)
    (hcounters : s'.state.running = s.state.running ∧
      s'.state.runningSpeculative = s.state.runningSpeculative ∧
      s'.state.bytesInFlight = s.state.bytesInFlight)
    (hbytes : queuedBytes s' ≤ queuedBytes s) (haccepted : s'.accepted = s.accepted)
    (hqueued : s'.state.closed = false → s'.state.queue.length ≤ config.queueDepth ∧
      s'.state.queuedSpeculative =
        (s'.state.queue.map fun job => PoolState.speculativeUnit job.priority).sum ∧
      s'.state.queuedSpeculative ≤ config.speculativeQueueDepth)
    (hdropping : s'.state.closed = false → s'.dropping = [])
    (hplaced : ∀ w, HookWeight w → placed config s' w = placed config s w) :
    PoolInv config s' := by
  have hsame : ∀ w, totalWeight config.workers (takenWeight w) s'.workers =
      totalWeight config.workers (takenWeight w) s.workers := by
    intro w
    have hbalance := weights_goto hi hplace (takenWeight w) next
    rw [htaken] at hbalance
    rw [hworkers]
    omega
  obtain ⟨hrunning, hspeculative, hinFlight⟩ := hcounters
  refine ⟨?_, ?_, ?_, ?_, ?_, ?_, hqueued, hdropping, ?_, fun w hw => ?_⟩
  · rw [hworkers]
    exact outside_update h hi next
  · rw [hrunning, hsame, h.running]
  · rw [hspeculative, hsame, h.speculative]
  · rw [hspeculative]
    exact h.speculative_le
  · rw [hinFlight, h.bytes]
    exact (hsame _).symm
  · have hfits := h.fits
    unfold runningBytes at hfits ⊢
    rw [hsame]
    omega
  · rw [haccepted]
    exact h.tickets
  · rw [hplaced w hw, haccepted]
    exact h.placed w hw

theorem inv_idle (h : PoolInv config s) (hi : i < config.workers)
    (hplace : s.workers i = .seeking) {next : WorkerAt} (hnext : next = .seeking ∨ next = .gone) :
    PoolInv config (s.goto i next) := by
  refine inv_moved h hi next hplace ?_ rfl ⟨rfl, rfl, rfl⟩ (Nat.le_refl _) rfl h.queued
    h.dropping fun w _ => ?_
  · rcases hnext with rfl | rfl <;> exact fun _ => rfl
  · have hjobs := weights_goto hi hplace (jobHeld w) next
    have hhooks := weights_goto hi hplace (hookHeld w) next
    unfold placed
    dsimp only [PoolRun.goto]
    rcases hnext with rfl | rfl <;> simp only [jobHeld, hookHeld] at hjobs hhooks <;> omega

theorem queued_pop (h : PoolInv config s) (hopen : s.state.closed = false)
    (hjob : job ∈ s.state.queue) :
    (s.state.pop job).queue.length ≤ config.queueDepth ∧
      (s.state.pop job).queuedSpeculative =
        ((s.state.pop job).queue.map fun job => PoolState.speculativeUnit job.priority).sum ∧
      (s.state.pop job).queuedSpeculative ≤ config.speculativeQueueDepth := by
  obtain ⟨hlength, hqueued, hle⟩ := h.queued hopen
  have hsum := sum_erase (w := fun job => PoolState.speculativeUnit job.priority) hjob
  refine ⟨?_, ?_, ?_⟩
  · exact le_trans (List.Sublist.length_le List.erase_sublist) hlength
  · change s.state.queuedSpeculative - _ = ((s.state.queue.erase job).map _).sum
    omega
  · exact le_trans (Nat.sub_le _ _) hle

theorem inv_expire (h : PoolInv config s) (hi : i < config.workers)
    (hplace : s.workers i = .seeking) (hopen : s.state.closed = false)
    (hjob : job ∈ s.state.queue) :
    PoolInv config
      ({ s with state := s.state.pop job }.goto i (PoolRun.turnPlace (.expire job))) := by
  let next := PoolRun.turnPlace (.expire job)
  have htaken : ∀ w, takenWeight w next = 0 := by
    intro w
    change takenWeight w (if job.onExpire then _ else _) = 0
    split_ifs <;> rfl
  have hheld : ∀ w, HookWeight w → jobHeld w next = 0 ∧ hookHeld w next = w job := by
    intro w hw
    change jobHeld w (if job.onExpire then _ else _) = 0 ∧
      hookHeld w (if job.onExpire then _ else _) = w job
    split_ifs with hhook
    · exact ⟨rfl, rfl⟩
    · exact ⟨rfl, (hw job (Bool.eq_false_of_not_eq_true hhook)).symm⟩
  refine inv_moved h hi next hplace htaken rfl ⟨rfl, rfl, rfl⟩ ?_ rfl
    (fun _ => queued_pop h hopen hjob) (fun _ => h.dropping hopen) fun w hw => ?_
  · have hsum := sum_erase (w := QueuedJob.bytes) hjob
    unfold queuedBytes
    change ((s.state.queue.erase job).map _).sum ≤ _
    omega
  · have hsum := sum_erase (w := w) hjob
    have hjobs := weights_goto hi hplace (jobHeld w) next
    have hhooks := weights_goto hi hplace (hookHeld w) next
    obtain ⟨hnext_job, hnext_hook⟩ := hheld w hw
    change totalWeight _ _ _ + 0 = _ at hjobs
    change totalWeight _ _ _ + 0 = _ at hhooks
    change ((s.state.queue.erase job).map w).sum +
      (totalWeight _ _ (Function.update s.workers i next) + (s.jobsRun.map w).sum) +
      (totalWeight _ _ (Function.update s.workers i next) + (s.dropping.map w).sum +
        (s.hooksRun.map w).sum) = placed config s w
    unfold placed
    omega

theorem inv_take (h : PoolInv config s) (hi : i < config.workers)
    (hplace : s.workers i = .seeking) (hopen : s.state.closed = false)
    (hjob : job ∈ s.state.queue)
    (hslot : job.priority.speculative = true →
      s.state.runningSpeculative < max (config.workers - 1) 1) :
    PoolInv config ({ s with state := s.state.startRun job }.goto i (.starting job)) := by
  have hadds : ∀ w, totalWeight config.workers (takenWeight w)
      (Function.update s.workers i (.starting job)) =
        totalWeight config.workers (takenWeight w) s.workers + w job :=
    fun w => weights_goto hi hplace (takenWeight w) (.starting job)
  have hsum := sum_erase (w := QueuedJob.bytes) hjob
  have hfits := h.fits
  unfold queuedBytes runningBytes at hfits
  refine ⟨outside_update h hi _, ?_, ?_, speculativeUnit_le _ hslot h.speculative_le, ?_, ?_,
    fun _ => queued_pop h hopen hjob, ?_, h.tickets, fun w hw => ?_⟩
  · change s.state.running + 1 = _
    rw [h.running]
    exact (hadds _).symm
  · change s.state.runningSpeculative + _ = _
    rw [h.speculative]
    exact (hadds _).symm
  · change wrappingAdd s.state.bytesInFlight job.bytes = _
    have hbytes := h.bytes
    unfold runningBytes at hbytes ⊢
    rw [wrappingAdd_eq (by omega), hbytes]
    exact (hadds _).symm
  · have hbytes := hadds QueuedJob.bytes
    unfold queuedBytes runningBytes
    change ((s.state.queue.erase job).map _).sum +
      totalWeight _ _ (Function.update s.workers i (.starting job)) ≤ _
    omega
  · exact fun _ => h.dropping hopen
  · refine Eq.trans ?_ (h.placed w hw)
    have hweight := sum_erase (w := w) hjob
    have hjobs := weights_goto hi hplace (jobHeld w) (.starting job)
    have hhooks := weights_goto hi hplace (hookHeld w) (.starting job)
    change totalWeight _ _ _ + 0 = _ + w job at hjobs
    change totalWeight _ _ _ + 0 = _ + 0 at hhooks
    change ((s.state.queue.erase job).map w).sum +
      (totalWeight _ _ (Function.update s.workers i (.starting job)) + (s.jobsRun.map w).sum) +
      (totalWeight _ _ (Function.update s.workers i (.starting job)) + (s.dropping.map w).sum +
        (s.hooksRun.map w).sum) = placed config s w
    unfold placed
    omega

/-- INTERNAL: the rounds of a worker. -/
theorem look_cases (h : s.step config (.look i now peeked) = some s') :
    i < config.workers ∧ s.workers i = .seeking ∧ IsPeek s.state.queue peeked ∧
      ((s' = s.goto i .seeking ∨ s' = s.goto i .gone) ∨
        ∃ job, peeked = some job ∧ s.state.closed = false ∧
          ((job.deadlineNs < now ∧
              s' = { s with state := s.state.pop job }.goto i
                (PoolRun.turnPlace (.expire job))) ∨
            (now ≤ job.deadlineNs ∧
              (job.priority.speculative = true →
                s.state.runningSpeculative < max (config.workers - 1) 1) ∧
              s' = { s with state := s.state.startRun job }.goto i (.starting job)))) := by
  unfold PoolRun.step at h
  dsimp only at h
  split_ifs at h with hguard
  obtain ⟨hi, hplace, hpeek⟩ := hguard
  refine ⟨hi, hplace, hpeek, ?_⟩
  cases h
  unfold workerTurn
  cases hclosed : s.state.closed with
  | true => exact .inl (.inr rfl)
  | false =>
    cases peeked with
    | none => exact .inl (.inl rfl)
    | some job =>
      rw [if_neg Bool.false_ne_true]
      dsimp only
      split_ifs with hlate hfull
      · exact .inr ⟨job, rfl, rfl, .inl ⟨hlate, rfl⟩⟩
      · exact .inl (.inl rfl)
      · refine .inr ⟨job, rfl, rfl, .inr ⟨Nat.le_of_not_lt hlate, fun hspeculative => ?_, rfl⟩⟩
        exact Nat.lt_of_not_le fun hle => hfull ⟨hspeculative, hle⟩

theorem inv_look (h : PoolInv config s) (hstep : s.step config (.look i now peeked) = some s') :
    PoolInv config s' := by
  obtain ⟨hi, hplace, hpeek, (rfl | rfl) | ⟨job, rfl, hopen, ⟨-, rfl⟩ | ⟨-, hslot, rfl⟩⟩⟩ :=
    look_cases hstep
  · exact inv_idle h hi hplace (.inl rfl)
  · exact inv_idle h hi hplace (.inr rfl)
  · exact inv_expire h hi hplace hopen hpeek.1
  · exact inv_take h hi hplace hopen hpeek.1 hslot

/-! ## Calls -/

theorem runHook_cases (h : s.step config (.runHook i) = some s') :
    ∃ job, s.workers i = .expiring job ∧
      s' = { s with hooksRun := s.hooksRun ++ [job] }.goto i .seeking := by
  unfold PoolRun.step at h
  cases hplace : s.workers i with
  | expiring job =>
    simp only [hplace] at h
    exact ⟨job, rfl, (Option.some.inj h).symm⟩
  | _ => simp [hplace] at h

theorem runJob_cases (h : s.step config (.runJob i) = some s') :
    ∃ job, s.workers i = .starting job ∧
      s' = { s with jobsRun := s.jobsRun ++ [job] }.goto i (.running job) := by
  unfold PoolRun.step at h
  cases hplace : s.workers i with
  | starting job =>
    simp only [hplace] at h
    exact ⟨job, rfl, (Option.some.inj h).symm⟩
  | _ => simp [hplace] at h

theorem endJob_cases (h : s.step config (.endJob i) = some s') :
    ∃ job, s.workers i = .running job ∧
      s' = { s with state := s.state.endRun job }.goto i .seeking := by
  unfold PoolRun.step at h
  cases hplace : s.workers i with
  | running job =>
    simp only [hplace] at h
    exact ⟨job, rfl, (Option.some.inj h).symm⟩
  | _ => simp [hplace] at h

theorem inv_runHook (h : PoolInv config s) (hplace : s.workers i = .expiring job) :
    PoolInv config ({ s with hooksRun := s.hooksRun ++ [job] }.goto i .seeking) := by
  have hi := inside_of_place h hplace nofun
  refine inv_moved h hi .seeking hplace (fun _ => rfl) rfl ⟨rfl, rfl, rfl⟩ (Nat.le_refl _)
    rfl h.queued h.dropping fun w _ => ?_
  have hjobs : totalWeight config.workers (jobHeld w) (Function.update s.workers i .seeking) + 0 =
      totalWeight config.workers (jobHeld w) s.workers + 0 := weights_goto hi hplace _ _
  have hhooks : totalWeight config.workers (hookHeld w) (Function.update s.workers i .seeking) +
      w job = totalWeight config.workers (hookHeld w) s.workers + 0 := weights_goto hi hplace _ _
  unfold placed
  dsimp only [PoolRun.goto]
  rw [sum_append_one]
  omega

theorem inv_runJob (h : PoolInv config s) (hplace : s.workers i = .starting job) :
    PoolInv config ({ s with jobsRun := s.jobsRun ++ [job] }.goto i (.running job)) := by
  have hi := inside_of_place h hplace nofun
  refine inv_moved h hi (.running job) hplace (fun _ => rfl) rfl ⟨rfl, rfl, rfl⟩
    (Nat.le_refl _) rfl h.queued h.dropping fun w _ => ?_
  have hjobs : totalWeight config.workers (jobHeld w)
      (Function.update s.workers i (.running job)) + w job =
        totalWeight config.workers (jobHeld w) s.workers + 0 := weights_goto hi hplace _ _
  have hhooks : totalWeight config.workers (hookHeld w)
      (Function.update s.workers i (.running job)) + 0 =
        totalWeight config.workers (hookHeld w) s.workers + 0 := weights_goto hi hplace _ _
  unfold placed
  dsimp only [PoolRun.goto]
  rw [sum_append_one]
  omega

theorem inv_endJob (h : PoolInv config s) (hplace : s.workers i = .running job) :
    PoolInv config ({ s with state := s.state.endRun job }.goto i .seeking) := by
  have hi := inside_of_place h hplace nofun
  have hloses : ∀ w, totalWeight config.workers (takenWeight w)
      (Function.update s.workers i .seeking) + w job =
        totalWeight config.workers (takenWeight w) s.workers :=
    fun w => weights_goto hi hplace (takenWeight w) .seeking
  have hrunning := h.running
  have hspeculative := h.speculative
  have hbytes := h.bytes
  have hfits := h.fits
  unfold runningBytes at hbytes hfits
  refine ⟨outside_update h hi _, ?_, ?_, le_trans (Nat.sub_le _ _) h.speculative_le, ?_, ?_,
    h.queued, h.dropping, h.tickets, fun w hw => ?_⟩
  · have hone := hloses fun _ => 1
    change s.state.running - 1 = totalWeight _ _ (Function.update s.workers i .seeking)
    omega
  · have hunit := hloses fun job => PoolState.speculativeUnit job.priority
    change s.state.runningSpeculative - _ = totalWeight _ _ (Function.update s.workers i .seeking)
    omega
  · have hjob := hloses QueuedJob.bytes
    change s.state.bytesInFlight - _ = totalWeight _ _ (Function.update s.workers i .seeking)
    omega
  · have hjob := hloses QueuedJob.bytes
    unfold runningBytes
    change queuedBytes s + totalWeight _ _ (Function.update s.workers i .seeking) ≤ _
    omega
  · refine Eq.trans ?_ (h.placed w hw)
    have hjobs : totalWeight config.workers (jobHeld w) (Function.update s.workers i .seeking) + 0 =
        totalWeight config.workers (jobHeld w) s.workers + 0 := weights_goto hi hplace _ _
    have hhooks : totalWeight config.workers (hookHeld w) (Function.update s.workers i .seeking) +
        0 = totalWeight config.workers (hookHeld w) s.workers + 0 := weights_goto hi hplace _ _
    unfold placed
    dsimp only [PoolRun.goto, PoolState.endRun]
    omega

/-! ## The destructor -/

theorem inv_drop (h : PoolInv config s) (hopen : s.state.closed = false) {order : List QueuedJob}
    (horder : order.Perm s.state.queue) :
    PoolInv config { s with
      state := s.state.close
      dropping := order.filter QueuedJob.onExpire } := by
  refine ⟨h.outside, h.running, h.speculative, h.speculative_le, h.bytes, ?_, nofun,
    nofun, h.tickets, fun w hw => ?_⟩
  · exact le_trans (Nat.add_le_add_right (Nat.zero_le _) _) h.fits
  · refine Eq.trans ?_ (h.placed w hw)
    unfold placed
    dsimp only [PoolState.close]
    rw [sum_filter_onExpire hw, (horder.map w).sum_eq, h.dropping hopen]
    simp only [List.map_nil, List.sum_nil]
    omega

theorem inv_dropHook (h : PoolInv config s) {rest : List QueuedJob}
    (hdropping : s.dropping = job :: rest) :
    PoolInv config { s with dropping := rest, hooksRun := s.hooksRun ++ [job] } := by
  refine ⟨h.outside, h.running, h.speculative, h.speculative_le, h.bytes, h.fits, h.queued, ?_,
    h.tickets, fun w hw => ?_⟩
  · intro hopen
    rw [h.dropping hopen] at hdropping
    cases hdropping
  refine Eq.trans ?_ (h.placed w hw)
  unfold placed
  dsimp only
  rw [hdropping, sum_append_one, List.map_cons, List.sum_cons]
  omega

/-! ## Runs -/

theorem drop_cases {order : List QueuedJob} (h : s.step config (.drop order) = some s') :
    s.state.closed = false ∧ order.Perm s.state.queue ∧
      s' = { s with state := s.state.close, dropping := order.filter QueuedJob.onExpire } := by
  unfold PoolRun.step at h
  dsimp only at h
  split_ifs at h with hguard
  exact ⟨hguard.1, hguard.2.1, (Option.some.inj h).symm⟩

theorem dropHook_cases (h : s.step config .dropHook = some s') :
    ∃ job rest, s.dropping = job :: rest ∧
      s' = { s with dropping := rest, hooksRun := s.hooksRun ++ [job] } := by
  unfold PoolRun.step at h
  cases hdropping : s.dropping with
  | nil => simp [hdropping] at h
  | cons job rest =>
    simp only [hdropping] at h
    exact ⟨job, rest, rfl, (Option.some.inj h).symm⟩

theorem spawn_cases (h : s.step config (.spawn priority deadlineNs bytes onExpire) = some s') :
    s' = s ∨ ∃ state,
      s.state.spawnMeteredInner config s.accepted.length priority deadlineNs bytes onExpire =
        .ok state ∧
      s' = { s with
        state := state
        accepted := s.accepted ++
          [s.state.newJob s.accepted.length priority deadlineNs bytes onExpire] } := by
  unfold PoolRun.step at h
  dsimp only at h
  cases hspawn : s.state.spawnMeteredInner config s.accepted.length priority deadlineNs bytes
      onExpire with
  | error e =>
    rw [hspawn] at h
    exact .inl (Option.some.inj h).symm
  | ok state =>
    rw [hspawn] at h
    exact .inr ⟨state, rfl, (Option.some.inj h).symm⟩

theorem inv_step (h : PoolInv config s) {act : PoolAct} (hfits : FitsBytes config s act)
    (hstep : s.step config act = some s') : PoolInv config s' := by
  cases act with
  | spawn priority deadlineNs bytes onExpire =>
    obtain rfl | ⟨state, hok, rfl⟩ := spawn_cases hstep
    · exact h
    · exact inv_spawn h hfits hok
  | look worker now peeked => exact inv_look h hstep
  | runHook worker =>
    obtain ⟨job, hplace, rfl⟩ := runHook_cases hstep
    exact inv_runHook h hplace
  | runJob worker =>
    obtain ⟨job, hplace, rfl⟩ := runJob_cases hstep
    exact inv_runJob h hplace
  | endJob worker =>
    obtain ⟨job, hplace, rfl⟩ := endJob_cases hstep
    exact inv_endJob h hplace
  | drop order =>
    obtain ⟨hopen, horder, rfl⟩ := drop_cases hstep
    exact inv_drop h hopen horder
  | dropHook =>
    obtain ⟨job, rest, hdropping, rfl⟩ := dropHook_cases hstep
    exact inv_dropHook h hdropping

theorem pool_run (run : PoolReaches config s) : PoolInv config s := by
  induction run with
  | start => exact poolInv_start
  | step _ act hfits hnext ih => exact inv_step ih hfits hnext

/-! ## Bounds -/

theorem bounds_of_inv (h : PoolInv config s) (hopen : s.state.closed = false) :
    PoolBounds config s := by
  obtain ⟨hlength, hqueued, hqueued_le⟩ := h.queued hopen
  refine ⟨⟨h.running, ?_⟩, hlength, ⟨?_, hqueued_le⟩, h.bytes, fun htwo => ?_⟩
  · rw [h.running]
    refine totalWeight_le fun place => ?_
    cases place with
    | starting job => exact le_refl 1
    | running job => exact le_refl 1
    | _ => exact Nat.zero_le 1
  · rw [hqueued, sum_speculativeUnit]
  · rw [← h.speculative]
    have hle := h.speculative_le
    omega

theorem compare_then_ne_gt {a b : Nat} {o : Ordering} :
    (compare a b).then o ≠ .gt ↔ a < b ∨ a = b ∧ o ≠ .gt := by
  rcases Nat.lt_trichotomy a b with hlt | heq | hgt
  · rw [Nat.compare_eq_lt.mpr hlt]
    exact iff_of_true nofun (.inl hlt)
  · rw [Nat.compare_eq_eq.mpr heq]
    constructor
    · exact fun h => .inr ⟨heq, h⟩
    · rintro (hlt | ⟨-, h⟩)
      · omega
      · exact h
  · rw [Nat.compare_eq_gt.mpr hgt]
    refine iff_of_false (fun h => h rfl) ?_
    omega

/-- INTERNAL: the heap shows a job that no other comes before. -/
theorem key_le_of_cmp {other : QueuedJob} (h : other.cmp job ≠ .gt) :
    QueuedJob.key job ≤ QueuedJob.key other := by
  unfold QueuedJob.cmp at h
  unfold QueuedJob.key
  rw [Prod.Lex.toLex_le_toLex]
  rcases compare_then_ne_gt.mp h with hlt | ⟨heq, h⟩
  · exact .inl hlt
  refine .inr ⟨heq, Prod.Lex.toLex_le_toLex.mpr ?_⟩
  rcases compare_then_ne_gt.mp h with hlt | ⟨heq, h⟩
  · exact .inl hlt
  · exact .inr ⟨heq, Nat.compare_ne_gt.mp h⟩

theorem goto_self (s : PoolRun) (worker : Nat) (place : WorkerAt) :
    (s.goto worker place).workers worker = place := Function.update_self ..

theorem look_taken {worker : Nat} (h : s.step config (.look worker now peeked) = some s')
    (hplace : s'.workers worker = .starting job) :
    job ∈ s.state.queue ∧ (∀ other ∈ s.state.queue, QueuedJob.key job ≤ QueuedJob.key other) ∧
      now ≤ job.deadlineNs := by
  obtain ⟨-, -, hpeek, (rfl | rfl) | ⟨top, rfl, -, ⟨-, rfl⟩ | ⟨hnow, -, rfl⟩⟩⟩ := look_cases h
  · rw [goto_self] at hplace
    cases hplace
  · rw [goto_self] at hplace
    cases hplace
  · rw [goto_self] at hplace
    unfold PoolRun.turnPlace at hplace
    dsimp only at hplace
    split_ifs at hplace
  · rw [goto_self] at hplace
    cases hplace
    exact ⟨hpeek.1, fun other hother => key_le_of_cmp (hpeek.2 other hother), hnow⟩

theorem spawn_admitted (h : PoolInv config s)
    (hfits : queuedBytes s + runningBytes config s + bytes ≤ u64Max)
    (hstep : s.step config (.spawn priority deadlineNs bytes onExpire) = some s')
    (haccepted : s'.accepted ≠ s.accepted) (hspeculative : priority.speculative = true)
    (hmax : config.maxInFlightBytes ≠ 0) :
    queuedBytes s' + runningBytes config s' ≤ config.maxInFlightBytes := by
  obtain rfl | ⟨state, hok, rfl⟩ := spawn_cases hstep
  · exact absurd rfl haccepted
  obtain ⟨-, -, -, hbudget, rfl⟩ := spawnMeteredInner_ok hok
  have hle := hbudget hspeculative (Nat.pos_of_ne_zero hmax)
  have hqueued : s.state.queuedBytes = queuedBytes s := by
    unfold PoolState.queuedBytes
    refine Nat.mod_eq_of_lt ?_
    unfold u64Max at hfits
    change queuedBytes s < _
    omega
  rw [hqueued, h.bytes] at hle
  unfold saturatingAdd at hle
  change ((s.state.queue ++ [_]).map _).sum + runningBytes config s ≤ _
  rw [sum_append_one]
  change queuedBytes s + bytes + runningBytes config s ≤ _
  omega

/-! ## Every job is called once -/

theorem hookWeight_only (hhook : job.onExpire = true) : HookWeight (only job) := by
  intro other hother
  refine if_neg fun heq => ?_
  rw [heq, hhook] at hother
  cases hother

theorem calledOnce_of_inv (h : PoolInv config s) (hjob : job ∈ s.accepted)
    (hhook : job.onExpire = true) : CalledOnce config s job := by
  have hnodup : s.accepted.Nodup := by
    refine List.Nodup.of_map QueuedJob.ticket ?_
    rw [h.tickets]
    exact List.nodup_range
  have hplaced := h.placed (only job) (hookWeight_only hhook)
  unfold placed at hplaced
  rw [sum_only, sum_only, sum_only, sum_only, sum_only, List.count_eq_one_of_mem hnodup hjob]
    at hplaced
  exact hplaced

/-- INTERNAL: the calls that threads are about to make. -/
def pendingCalls (config : FetchPoolConfig) (s : PoolRun) : Nat :=
  s.dropping.length + totalWeight config.workers (jobHeld fun _ => 1) s.workers +
    totalWeight config.workers (hookHeld fun _ => 1) s.workers

theorem noCallPending_of_zero (h : pendingCalls config s = 0) : NoCallPending config s := by
  unfold pendingCalls at h
  refine ⟨List.length_eq_zero_iff.mp (by omega), fun worker hworker => ⟨fun job hplace => ?_,
    fun job hplace => ?_⟩⟩
  · have hle := @weight_le_total _ _ _ (jobHeld fun _ => 1) s.workers hworker
    rw [hplace] at hle
    change 1 ≤ _ at hle
    omega
  · have hle := @weight_le_total _ _ _ (hookHeld fun _ => 1) s.workers hworker
    rw [hplace] at hle
    change 1 ≤ _ at hle
    omega

/-- INTERNAL: one of the calls that threads are about to make is made. -/
theorem call_one (run : PoolReaches config s) (hpending : pendingCalls config s ≠ 0) :
    ∃ s', PoolReaches config s' ∧ s'.state = s.state ∧ s'.accepted = s.accepted ∧
      pendingCalls config s' + 1 = pendingCalls config s := by
  by_cases hjobs : totalWeight config.workers (jobHeld fun _ => 1) s.workers = 0
  · by_cases hhooks : totalWeight config.workers (hookHeld fun _ => 1) s.workers = 0
    · cases hdropping : s.dropping with
      | nil =>
        unfold pendingCalls at hpending
        rw [hdropping, hjobs, hhooks] at hpending
        exact absurd rfl hpending
      | cons job rest =>
        have hnext : s.step config .dropHook =
            some { s with dropping := rest, hooksRun := s.hooksRun ++ [job] } := by
          unfold PoolRun.step
          simp only [hdropping]
        refine ⟨_, run.step .dropHook trivial hnext, rfl, rfl, ?_⟩
        unfold pendingCalls
        rw [hdropping, List.length_cons]
        dsimp only
        omega
    · obtain ⟨worker, hworker, hweight⟩ := exists_weight hhooks
      cases hplace : s.workers worker with
      | expiring job =>
        have hnext : s.step config (.runHook worker) =
            some ({ s with hooksRun := s.hooksRun ++ [job] }.goto worker .seeking) := by
          unfold PoolRun.step
          simp only [hplace]
        refine ⟨_, run.step (.runHook worker) trivial hnext, rfl, rfl, ?_⟩
        have hfirst : totalWeight config.workers (jobHeld fun _ => 1)
            (Function.update s.workers worker .seeking) + 0 = _ + 0 :=
          weights_goto hworker hplace _ _
        have hsecond : totalWeight config.workers (hookHeld fun _ => 1)
            (Function.update s.workers worker .seeking) + 1 = _ + 0 :=
          weights_goto hworker hplace _ _
        unfold pendingCalls
        dsimp only [PoolRun.goto]
        omega
      | seeking => exact absurd (by rw [hplace]; rfl) hweight
      | starting job => exact absurd (by rw [hplace]; rfl) hweight
      | running job => exact absurd (by rw [hplace]; rfl) hweight
      | gone => exact absurd (by rw [hplace]; rfl) hweight
  · obtain ⟨worker, hworker, hweight⟩ := exists_weight hjobs
    cases hplace : s.workers worker with
    | starting job =>
      have hnext : s.step config (.runJob worker) =
          some ({ s with jobsRun := s.jobsRun ++ [job] }.goto worker (.running job)) := by
        unfold PoolRun.step
        simp only [hplace]
      refine ⟨_, run.step (.runJob worker) trivial hnext, rfl, rfl, ?_⟩
      have hfirst : totalWeight config.workers (jobHeld fun _ => 1)
          (Function.update s.workers worker (.running job)) + 1 = _ + 0 :=
        weights_goto hworker hplace _ _
      have hsecond : totalWeight config.workers (hookHeld fun _ => 1)
          (Function.update s.workers worker (.running job)) + 0 = _ + 0 :=
        weights_goto hworker hplace _ _
      unfold pendingCalls
      dsimp only [PoolRun.goto]
      omega
    | seeking => exact absurd (by rw [hplace]; rfl) hweight
    | expiring job => exact absurd (by rw [hplace]; rfl) hweight
    | running job => exact absurd (by rw [hplace]; rfl) hweight
    | gone => exact absurd (by rw [hplace]; rfl) hweight

theorem calls_resolve : ∀ (n : Nat) {s : PoolRun}, PoolReaches config s →
    pendingCalls config s = n →
      ∃ s', PoolReaches config s' ∧ s'.state = s.state ∧ s'.accepted = s.accepted ∧
        NoCallPending config s'
  | 0, s, run, hpending => ⟨s, run, rfl, rfl, noCallPending_of_zero hpending⟩
  | n + 1, s, run, hpending => by
    obtain ⟨middle, hmiddle, hstate, haccepted, hless⟩ := call_one run (by omega)
    obtain ⟨s', run', hstate', haccepted', hsettled⟩ := calls_resolve n hmiddle (by omega)
    exact ⟨s', run', hstate'.trans hstate, haccepted'.trans haccepted, hsettled⟩

theorem resolves_of_run (run : PoolReaches config s) : Resolves config s := by
  obtain ⟨s', run', hstate, haccepted, hsettled⟩ := calls_resolve _ run rfl
  refine ⟨s', run', hstate, haccepted, hsettled, fun job hjob hhook hqueue => ?_⟩
  have honce := calledOnce_of_inv (pool_run run') (haccepted ▸ hjob) hhook
  have hheld : totalWeight config.workers (jobHeld (only job)) s'.workers = 0 := by
    refine totalWeight_eq_zero fun worker hworker => ?_
    cases hplace : s'.workers worker with
    | starting job => exact absurd hplace ((hsettled.2 worker hworker).1 job)
    | _ => rfl
  have hhooks : totalWeight config.workers (hookHeld (only job)) s'.workers = 0 := by
    refine totalWeight_eq_zero fun worker hworker => ?_
    cases hplace : s'.workers worker with
    | expiring job => exact absurd hplace ((hsettled.2 worker hworker).2 job)
    | _ => rfl
  unfold CalledOnce at honce
  rw [hstate, List.count_eq_zero_of_not_mem hqueue, hheld, hhooks, hsettled.1, List.count_nil]
    at honce
  omega

/-- INTERNAL: in every state of a run the bounds hold while the pool is open, every accepted
job with a hook is in one place, the calls still to be made can be made, and the next step
takes and admits by the rules.
SRCLINE: mirage-scheduler/src/fetch_pool.rs:80-388 -/
theorem fetch_pool_sound (run : PoolReaches config s) :
    (s.state.closed = false → PoolBounds config s) ∧
      (∀ job ∈ s.accepted, job.onExpire = true → CalledOnce config s job) ∧
      Resolves config s ∧
      ∀ act s', FitsBytes config s act → s.step config act = some s' →
        PoolStepSound config s act s' := by
  have h := pool_run run
  refine ⟨bounds_of_inv h, fun job hjob hhook => calledOnce_of_inv h hjob hhook,
    resolves_of_run run, fun act s' hfits hstep => ⟨?_, ?_⟩⟩
  · rintro worker now peeked job rfl hplace
    exact look_taken hstep hplace
  · rintro priority deadlineNs bytes onExpire rfl haccepted hspeculative hmax
    exact spawn_admitted h hfits hstep haccepted hspeculative hmax

/-- INTERNAL: two workers, and a queue of two with one place for a speculative job. -/
def twoWorkers : FetchPoolConfig := ⟨2, 2, 1, 100⟩

def urgentJob : QueuedJob := ⟨0, .p0Blocking, 20, 0, 7, true⟩

def warmingJob : QueuedJob := ⟨1, .p5IdleWarm, 10, 1, 3, true⟩

/-- INTERNAL: one worker runs the urgent job; the other found the second one expired and is about
to call its hook. -/
def expiringRun : PoolRun :=
  { PoolRun.start with
    state := { PoolState.new with
      nextSequence := 2
      running := 1
      bytesInFlight := 7 }
    workers := Function.update (Function.update (Function.update PoolRun.start.workers 0
      (.starting urgentJob)) 1 (.expiring warmingJob)) 0 (.running urgentJob)
    accepted := [urgentJob, warmingJob]
    jobsRun := [urgentJob] }

/-- INTERNAL: both jobs are called once: one has run, and the hook of the other can be called. -/
theorem expired_hook_called :
    PoolReaches twoWorkers expiringRun ∧ PoolBounds twoWorkers expiringRun ∧
      CalledOnce twoWorkers expiringRun urgentJob ∧ CalledOnce twoWorkers expiringRun warmingJob ∧
      Resolves twoWorkers expiringRun := by
  have hstart : PoolReaches twoWorkers .start := .start rfl
  have hfirst := hstart.step (.spawn .p0Blocking 20 7 true)
    (by unfold FitsBytes; decide +kernel) rfl
  have hsecond := hfirst.step (.spawn .p5IdleWarm 10 3 true)
    (by unfold FitsBytes; decide +kernel) rfl
  have htaken := hsecond.step (.look 0 5 (some urgentJob)) trivial rfl
  have hexpired := htaken.step (.look 1 11 (some warmingJob)) trivial rfl
  have run : PoolReaches twoWorkers expiringRun := hexpired.step (.runJob 0) trivial rfl
  obtain ⟨hbounds, honce, hsettles, -⟩ := fetch_pool_sound run
  exact ⟨run, hbounds rfl, honce urgentJob List.mem_cons_self rfl,
    honce warmingJob (List.mem_cons_of_mem _ List.mem_cons_self) rfl, hsettles⟩

end Mirage.Analysis
