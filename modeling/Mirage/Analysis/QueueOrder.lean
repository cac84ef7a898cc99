import Mathlib.Data.Finset.Max
import Mirage.Interface.QueueRun

/-!
# The scheduler queue serves the most urgent request

A pop is specified by the entries it finds and leaves.  The loop of `pop` takes entries by urgency
and stops at the first that is not cancelled, so everything it takes before is cancelled and
everything it leaves is less urgent.
-/

set_option autoImplicit false

namespace Mirage.Analysis

open Mirage.Model Mirage.Interface

variable {tie : HeapTie} {heap rest : List FetchRequest} {request : FetchRequest}

/-! ## Pops -/

theorem queuedCmp_ne_gt (a b : FetchRequest) :
    queuedCmp a b ≠ .gt ↔ urgency b ≤ urgency a := by
  unfold queuedCmp urgency
  rw [Prod.Lex.le_iff]
  simp only [ofLex_toLex, Prod.Lex.le_iff, Nat.compare_eq_ite_lt]
  split_ifs <;> simp <;> omega

/-- INTERNAL: the entries a heap may pop. -/
theorem mem_greatest : (request ∈ heap.filter fun a => heap.all fun b => queuedCmp b a ≠ .gt) ↔
    request ∈ heap ∧ ∀ other ∈ heap, urgency request ≤ urgency other := by
  rw [List.mem_filter, List.all_eq_true]
  simp only [decide_eq_true_eq, queuedCmp_ne_gt]

theorem popGreatest_some (h : popGreatest tie heap = some (request, rest)) :
    heap.Perm (request :: rest) ∧ ∀ other ∈ heap, urgency request ≤ urgency other := by
  obtain ⟨popped, hget, hpopped⟩ := Option.map_eq_some_iff.mp h
  obtain ⟨rfl, rfl⟩ := Prod.mk.inj hpopped
  obtain ⟨hmem, hleast⟩ := mem_greatest.mp (List.mem_of_getElem? hget)
  exact ⟨List.perm_cons_erase hmem, hleast⟩

theorem popGreatest_none (h : popGreatest tie heap = none) : heap = [] := by
  by_contra hne
  obtain ⟨first, hfirst⟩ := List.exists_mem_of_ne_nil heap hne
  obtain ⟨least, hmem, hleast⟩ := Finset.exists_min_image heap.toFinset urgency
    ⟨first, List.mem_toFinset.mpr hfirst⟩
  have hgreatest := mem_greatest.mpr ⟨List.mem_toFinset.mp hmem,
    fun other hother => hleast other (List.mem_toFinset.mpr hother)⟩
  have hget := List.getElem?_eq_none_iff.mp (Option.map_eq_none_iff.mp h)
  have hlt := Nat.mod_lt (tie heap) (List.length_pos_of_mem hgreatest)
  omega

/-- INTERNAL: what the loop takes, what it throws away and what it leaves. -/
structure Popped (cancelled : List Nat) (heap : List FetchRequest)
    (result : Option FetchRequest × List FetchRequest) (discarded : List FetchRequest) :
    Prop where
  entries : heap.Perm (result.1.toList ++ discarded ++ result.2)
  dead : ∀ request ∈ discarded, request.cancellation ∈ cancelled
  live : ∀ request, result.1 = some request → request.cancellation ∉ cancelled ∧
    ∀ other ∈ result.2, urgency request ≤ urgency other
  emptied : result.1 = none → result.2 = []

theorem popLoop_popped (tie : HeapTie) (cancelled : List Nat) {rounds : Nat}
    (hrounds : heap.length ≤ rounds) :
    ∃ discarded, Popped cancelled heap (popLoop tie cancelled rounds heap) discarded := by
  induction rounds generalizing heap with
  | zero =>
    obtain rfl : heap = [] := List.length_eq_zero_iff.mp (Nat.le_zero.mp hrounds)
    exact ⟨[], .refl _, nofun, nofun, fun _ => rfl⟩
  | succ rounds ih =>
    rw [popLoop]
    cases hpop : popGreatest tie heap with
    | none =>
      obtain rfl := popGreatest_none hpop
      exact ⟨[], .refl _, nofun, nofun, fun _ => rfl⟩
    | some popped =>
      obtain ⟨hperm, hleast⟩ := popGreatest_some hpop
      dsimp only
      split_ifs with hcancelled
      · have hlength := hperm.length_eq
        rw [List.length_cons] at hlength
        have hshorter : popped.2.length ≤ rounds := by omega
        obtain ⟨discarded, h⟩ := ih hshorter
        refine ⟨popped.1 :: discarded, ?_, List.forall_mem_cons.mpr ⟨hcancelled, h.dead⟩, h.live,
          h.emptied⟩
        refine hperm.trans ((h.entries.cons popped.1).trans ?_)
        rw [List.append_assoc, List.append_assoc]
        exact List.perm_middle.symm
      · refine ⟨[], hperm, nofun, fun request hrequest => ?_, nofun⟩
        obtain rfl := Option.some.inj hrequest
        exact ⟨hcancelled, fun other hother =>
          hleast other (hperm.mem_iff.mpr (List.mem_cons_of_mem _ hother))⟩

theorem length_toList (item : Option FetchRequest) :
    item.toList.length = if item.isSome then 1 else 0 := by
  cases item <;> rfl

/-! ## One call -/

variable {world : QueueWorld}

theorem dequeues (world : QueueWorld) (tie : HeapTie) :
    Dequeues world (world.queue.dequeue tie world.cancelled).1
      ⟨(world.queue.dequeue tie world.cancelled).2, world.cancelled⟩ := by
  obtain ⟨discarded, h⟩ := popLoop_popped tie world.cancelled (le_refl world.queue.heap.length)
  have hmem : ∀ other ∈ world.queue.heap, ¬ world.Cancelled other →
      (popLive tie world.cancelled world.queue.heap).1 = some other ∨
        other ∈ (popLive tie world.cancelled world.queue.heap).2 := by
    intro other hother hlive
    rcases List.mem_append.mp (h.entries.mem_iff.mp hother) with hfront | hleft
    · rcases List.mem_append.mp hfront with hitem | hdead
      · exact .inl (Option.mem_toList.mp hitem)
      · exact absurd (h.dead other hdead) hlive
    · exact .inr hleft
  have hin : ∀ request, (popLive tie world.cancelled world.queue.heap).1 = some request →
      request ∈ world.queue.heap := fun request hrequest =>
    h.entries.mem_iff.mpr (List.mem_append_left _ (List.mem_append_left _
      (Option.mem_toList.mpr hrequest)))
  refine ⟨fun request hrequest => ?_, ⟨fun hnone request hrequest => ?_, fun hall => ?_⟩,
    discarded, h.entries, h.dead, ?_⟩
  · obtain ⟨hlive, hleast⟩ := h.live request hrequest
    refine ⟨hin request hrequest, hlive, fun other hother hother' => ?_⟩
    rcases hmem other hother hother' with hitem | hleft
    · have hsame := hrequest.symm.trans hitem
      rw [Option.some.inj hsame]
    · exact hleast other hleft
  · by_contra hlive
    rcases hmem request hrequest hlive with hitem | hleft
    · exact absurd (hnone.symm.trans hitem) nofun
    · have hempty := h.emptied hnone
      rw [show (popLive tie world.cancelled world.queue.heap).2 = [] from hempty] at hleft
      cases hleft
  · cases hitem : (world.queue.dequeue tie world.cancelled).1 with
    | none => rfl
    | some request =>
      exact absurd (hall request (hin request hitem)) (h.live request hitem).1
  · have hlength := h.entries.length_eq
    rw [List.length_append, List.length_append, length_toList] at hlength
    have hcount : world.queue.heap.length -
        ((popLive tie world.cancelled world.queue.heap).2.length +
        if (popLive tie world.cancelled world.queue.heap).1.isSome then 1 else 0) =
          discarded.length := by
      unfold popLive
      omega
    unfold SchedulerQueue.dequeue
    dsimp only
    rw [hcount]

theorem holds_iff {hash : PageHash} :
    (request.pages.any fun page => page.hash = hash) = true ↔ Holds hash request := by
  unfold Holds
  simp only [List.any_eq_true, decide_eq_true_eq]

theorem raises_iff {hash : PageHash} :
    raises hash .p0Blocking request = true ↔
      Holds hash request ∧ request.priority ≠ .p0Blocking := by
  unfold raises
  rw [Bool.and_eq_true, holds_iff]
  cases request.priority <;> simp [FetchPriority.rank]

theorem urgency_le_of {request' : FetchRequest}
    (hpriority : request'.priority.rank ≤ request.priority.rank)
    (hdeadline : request'.deadlineNs ≤ request.deadlineNs)
    (hsequence : request'.sequence = request.sequence) : urgency request' ≤ urgency request := by
  unfold urgency
  simp only [Prod.Lex.le_iff, ofLex_toLex]
  omega

/-- INTERNAL: what the loop of a promotion does to one request. -/
theorem raised_request (hash : PageHash) (deadlineNs : Nat) (request : FetchRequest) :
    Raised hash deadlineNs request
      (if raises hash .p0Blocking request then
        { request with
          priority := .p0Blocking
          deadlineNs := min request.deadlineNs deadlineNs }
      else request) := by
  by_cases hraise : raises hash .p0Blocking request = true
  · rw [if_pos hraise]
    obtain ⟨hholds, -⟩ := raises_iff.mp hraise
    have hrank : FetchPriority.p0Blocking.rank ≤ request.priority.rank := Nat.zero_le _
    have hdeadline : min request.deadlineNs deadlineNs ≤ request.deadlineNs := Nat.min_le_left _ _
    exact ⟨rfl, fun hnot => absurd hholds hnot, fun _ => rfl, fun _ _ => rfl, hrank, hdeadline,
      urgency_le_of hrank hdeadline rfl⟩
  · rw [if_neg hraise]
    have hblocking : Holds hash request → request.priority = .p0Blocking := fun hholds =>
      by_contra fun hne => hraise (raises_iff.mpr ⟨hholds, hne⟩)
    exact ⟨rfl, fun _ => rfl, hblocking, fun hholds hne => absurd (hblocking hholds) hne,
      Nat.le_refl _, Nat.le_refl _, le_refl _⟩

theorem served_promote (world : QueueWorld) (hash : PageHash) (deadlineNs : Nat) :
    Served world (.promote hash deadlineNs) := by
  refine ⟨_, _, rfl, ?_, ?_, rfl⟩
  · change List.Forall₂ _ world.queue.heap (world.queue.heap.map _)
    rw [List.forall₂_map_right_iff, List.forall₂_same]
    exact fun request _ => raised_request hash deadlineNs request
  · change world.queue.heap.any _ = true ↔ _
    rw [List.any_eq_true]
    simp only [raises_iff]

theorem perform_refused (hfull : world.queue.capacity ≤ world.queue.heap.length ∧
    request.priority.speculative = true) :
    world.perform (.enqueue request) = (.enqueued false,
      ⟨⟨world.queue.heap, world.queue.capacity,
        ⟨wrappingAdd world.queue.metrics.droppedSpeculative 1,
          world.queue.metrics.cancelledBeforeDequeue⟩⟩,
            request.cancellation :: world.cancelled⟩) := by
  change (QueueOutcome.enqueued (world.queue.enqueue _ _).1, _) = _
  rw [SchedulerQueue.enqueue, if_pos hfull]

theorem perform_accepted (hroom : ¬ (world.queue.capacity ≤ world.queue.heap.length ∧
    request.priority.speculative = true)) :
    world.perform (.enqueue request) = (.enqueued true,
      ⟨⟨request :: world.queue.heap, world.queue.capacity, world.queue.metrics⟩,
        world.cancelled⟩) := by
  change (QueueOutcome.enqueued (world.queue.enqueue _ _).1, _) = _
  rw [SchedulerQueue.enqueue, if_neg hroom]

theorem served_enqueue (world : QueueWorld) (request : FetchRequest) :
    Served world (.enqueue request) := by
  by_cases hfull : world.queue.capacity ≤ world.queue.heap.length ∧
      request.priority.speculative = true
  · exact ⟨false, _, perform_refused hfull, iff_of_true rfl hfull, nofun, fun _ => rfl, rfl⟩
  · exact ⟨true, _, perform_accepted hfull, iff_of_false nofun hfull, fun _ => rfl, nofun, rfl⟩

theorem served (world : QueueWorld) (call : QueueCall) : Served world call := by
  cases call with
  | enqueue request => exact served_enqueue world request
  | dequeue tie => exact ⟨_, _, rfl, dequeues world tie⟩
  | promote hash deadlineNs => exact served_promote world hash deadlineNs
  | cancel token => rfl

/-! ## Runs -/

/-- INTERNAL: every request that was accepted is queued, was returned, or was discarded and
counted; the count wraps around. -/
def RequestsAccounted (capacity : Nat) (world : QueueWorld) (outcomes : List QueueOutcome) : Prop :=
  world.queue.capacity = capacity ∧ ∃ discarded,
    acceptedCount outcomes = world.queue.heap.length + returnedCount outcomes + discarded ∧
      world.queue.metrics.cancelledBeforeDequeue = discarded % 2 ^ 64

theorem acceptedCount_enqueued (accepted : Bool) (outcomes : List QueueOutcome) :
    acceptedCount (.enqueued accepted :: outcomes) =
      acceptedCount outcomes + if accepted then 1 else 0 := by
  unfold acceptedCount
  cases accepted <;> simp

theorem returnedCount_dequeued (item : Option FetchRequest) (outcomes : List QueueOutcome) :
    returnedCount (.dequeued item :: outcomes) =
      returnedCount outcomes + if item.isSome then 1 else 0 := by
  unfold returnedCount
  cases item <;> simp

theorem acceptedCount_skip {outcome : QueueOutcome} (outcomes : List QueueOutcome)
    (h : outcome ≠ .enqueued true) : acceptedCount (outcome :: outcomes) = acceptedCount outcomes :=
  List.count_cons_of_ne h

theorem returnedCount_skip {outcome : QueueOutcome} (outcomes : List QueueOutcome)
    (h : ∀ item, outcome ≠ .dequeued item) :
    returnedCount (outcome :: outcomes) = returnedCount outcomes := by
  unfold returnedCount
  cases outcome with
  | dequeued item => exact absurd rfl (h item)
  | enqueued | promoted | done => exact List.countP_cons_of_neg nofun

theorem accounted_step {capacity : Nat} {outcomes : List QueueOutcome}
    (h : RequestsAccounted capacity world outcomes) (call : QueueCall) :
    RequestsAccounted capacity (world.perform call).2 ((world.perform call).1 :: outcomes) := by
  obtain ⟨hcapacity, earlier, hcount, hearlier⟩ := h
  unfold RequestsAccounted
  cases call with
  | enqueue request =>
    by_cases hfull : world.queue.capacity ≤ world.queue.heap.length ∧
        request.priority.speculative = true
    · rw [perform_refused hfull, acceptedCount_enqueued, returnedCount_skip _ (by nofun)]
      exact ⟨hcapacity, earlier, hcount, hearlier⟩
    · rw [perform_accepted hfull, acceptedCount_enqueued, returnedCount_skip _ (by nofun), hcount]
      refine ⟨hcapacity, earlier, ?_, hearlier⟩
      rw [List.length_cons, if_pos rfl]
      omega
  | dequeue tie =>
    obtain ⟨discarded, hperm, -, hcounter⟩ := (dequeues world tie).discarded
    have hlength := hperm.length_eq
    rw [List.length_append, List.length_append, length_toList] at hlength
    dsimp only at hlength hcounter
    refine ⟨hcapacity, earlier + discarded.length, ?_, ?_⟩
    · change acceptedCount (.dequeued _ :: outcomes) = (world.queue.dequeue tie _).2.heap.length +
        returnedCount (.dequeued _ :: outcomes) + _
      rw [acceptedCount_skip _ (by nofun), returnedCount_dequeued, hcount]
      omega
    · refine hcounter.trans ?_
      unfold wrappingAdd
      omega
  | promote hash deadlineNs =>
    refine ⟨hcapacity, earlier, ?_, hearlier⟩
    change acceptedCount (.promoted _ :: outcomes) = (world.queue.heap.map _).length +
      returnedCount (.promoted _ :: outcomes) + _
    rw [acceptedCount_skip _ (by nofun), returnedCount_skip _ (by nofun), List.length_map]
    exact hcount
  | cancel token =>
    refine ⟨hcapacity, earlier, ?_, hearlier⟩
    change acceptedCount (.done :: outcomes) = _ + returnedCount (.done :: outcomes) + _
    rw [acceptedCount_skip _ (by nofun), returnedCount_skip _ (by nofun)]
    exact hcount

theorem accounted_run {capacity : Nat} {outcomes : List QueueOutcome}
    (run : QueueReaches capacity world outcomes) : RequestsAccounted capacity world outcomes := by
  induction run with
  | start cancelled => exact ⟨rfl, 0, rfl, rfl⟩
  | call _ call ih => exact accounted_step ih call

/-- INTERNAL: in every run the next call serves the requests that are queued, and no accepted
request is lost or counted twice; the count of the discarded ones is one modulo `2 ^ 64`.
SRCLINE: mirage-scheduler/src/priority.rs:6-73, mirage-scheduler/src/queue.rs:14-47 -/
theorem scheduler_queue_serves (capacity : Nat) (world : QueueWorld)
    (outcomes : List QueueOutcome) (run : QueueReaches capacity world outcomes) :
    (∀ call, Served world call) ∧ world.queue.capacity = capacity ∧ ∃ discarded,
      acceptedCount outcomes = world.queue.heap.length + returnedCount outcomes + discarded ∧
        world.queue.metrics.cancelledBeforeDequeue = discarded % 2 ^ 64 :=
  ⟨served world, accounted_run run⟩

/-- INTERNAL: a request for one page of an object. -/
def onePageRequest (object : RemoteObjectRef) (priority : FetchPriority) (sequence : Nat) :
    FetchRequest :=
  ⟨[⟨sequence, ⟨0, 10, by decide⟩, 10⟩], object, priority, 100, sequence, sequence⟩

def packObject : RemoteObjectRef :=
  ⟨⟨['p'], by decide⟩, ⟨['q'], by decide⟩, none, 10, 0, .pack⟩

/-- INTERNAL: two requests are queued and the more urgent one is cancelled: a dequeue serves the
other and counts it. -/
theorem dequeue_behind_cancelled :
    let world : QueueWorld := ⟨⟨[onePageRequest packObject .p5IdleWarm 2,
      onePageRequest packObject .p4ReadAhead 1], 3, ⟨0, 0⟩⟩, [1]⟩
    Served world (.dequeue fun _ => 0) ∧
      (world.perform (.dequeue fun _ => 0)).1 =
        .dequeued (some (onePageRequest packObject .p5IdleWarm 2)) ∧
      (world.perform (.dequeue fun _ => 0)).2.queue.metrics.cancelledBeforeDequeue = 1 := by
  intro world
  have empty : QueueReaches 3 ⟨.new 3, []⟩ [] := .start []
  have run := ((empty.call (.enqueue (onePageRequest packObject .p4ReadAhead 1))).call
    (.enqueue (onePageRequest packObject .p5IdleWarm 2))).call (.cancel 1)
  exact ⟨(scheduler_queue_serves 3 world _ run).1 _, by decide +kernel, by decide +kernel⟩

/-! ## A full counter -/

/-- INTERNAL: a cancelled request is queued and discarded `n` times. -/
theorem discarded_again (n : Nat) : ∃ outcomes,
    QueueReaches 1 ⟨⟨[], 1, ⟨0, n % 2 ^ 64⟩⟩, [1]⟩ outcomes ∧ acceptedCount outcomes = n ∧
      returnedCount outcomes = 0 := by
  induction n with
  | zero => exact ⟨[], .start [1], rfl, rfl⟩
  | succ n ih =>
    obtain ⟨outcomes, run, haccepted, hreturned⟩ := ih
    have hdequeued : SchedulerQueue.dequeue ⟨[onePageRequest packObject .p0Blocking 1], 1,
        ⟨0, n % 2 ^ 64⟩⟩ (fun _ => 0) [1] = (none, ⟨[], 1, ⟨0, wrappingAdd (n % 2 ^ 64) 1⟩⟩) := by
      have hpopped : popLive (fun _ => 0) [1] [onePageRequest packObject .p0Blocking 1] =
          (none, []) := by decide +kernel
      rw [SchedulerQueue.dequeue, hpopped]
      rfl
    have hcounter : wrappingAdd (n % 2 ^ 64) 1 = (n + 1) % 2 ^ 64 := by
      unfold wrappingAdd
      omega
    have run' := (run.call (.enqueue (onePageRequest packObject .p0Blocking 1))).call
      (.dequeue fun _ => 0)
    rw [perform_accepted (by simp [onePageRequest, FetchPriority.speculative])] at run'
    change QueueReaches 1 ⟨(SchedulerQueue.dequeue _ _ _).2, _⟩ (.dequeued _ :: _) at run'
    rw [hdequeued, hcounter] at run'
    refine ⟨_, run', ?_, ?_⟩
    · rw [acceptedCount_skip _ (by simp), acceptedCount_enqueued, haccepted]
      rfl
    · rw [returnedCount_dequeued, returnedCount_skip _ (by simp), hreturned]
      rfl

/-- INTERNAL: behind `2 ^ 64` discarded requests the counter is at its start. -/
theorem full_counter_wraps : ∃ world outcomes, QueueReaches 1 world outcomes ∧
    acceptedCount outcomes = 2 ^ 64 ∧ world.queue.heap = [] ∧ returnedCount outcomes = 0 ∧
      world.queue.metrics.cancelledBeforeDequeue = 0 := by
  obtain ⟨outcomes, run, haccepted, hreturned⟩ := discarded_again (2 ^ 64)
  exact ⟨_, outcomes, run, haccepted, rfl, hreturned, Nat.mod_self _⟩

end Mirage.Analysis
