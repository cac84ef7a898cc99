import Mirage.Model.FetchRanges

/-!
# The scheduler queue

The queue of `mirage-scheduler/src/priority.rs` and `queue.rs`.  A binary heap is known by its
entries; which of several greatest entries it pops is not, so `tie` chooses.  Cancellation tokens
are numbers, and the tokens cancelled so far stand beside the queue because anyone may cancel one.
-/

set_option autoImplicit false

namespace Mirage.Model

/-- INTERNAL: SRCLINE: mirage-scheduler/src/request.rs:28-33 -/
structure PageRequest where
  hash : PageHash
  encodedRange : CheckedRange
  logicalLength : Nat
  deriving DecidableEq, Repr

/-- INTERNAL: SRCLINE: mirage-scheduler/src/request.rs:34-42 -/
structure FetchRequest where
  pages : List PageRequest
  object : RemoteObjectRef
  priority : FetchPriority
  deadlineNs : Nat
  sequence : Nat
  cancellation : Nat
  deriving DecidableEq, Repr

/-- INTERNAL: the greater entry is the more urgent one.
SRCLINE: mirage-scheduler/src/priority.rs:20-29 -/
def queuedCmp (a b : FetchRequest) : Ordering :=
  ((compare b.priority.rank a.priority.rank).then (compare b.deadlineNs a.deadlineNs)).then
    (compare b.sequence a.sequence)

/-- INTERNAL: how a heap chooses among its greatest entries. -/
abbrev HeapTie := List FetchRequest → Nat

/-- INTERNAL: `BinaryHeap::pop`. -/
def popGreatest (tie : HeapTie) (heap : List FetchRequest) :
    Option (FetchRequest × List FetchRequest) :=
  let greatest := heap.filter fun a => heap.all fun b => queuedCmp b a ≠ .gt
  (greatest[tie heap % greatest.length]?).map fun request => (request, heap.erase request)

/-- INTERNAL: the loop of `pop`; every round takes an entry out.
SRCLINE: mirage-scheduler/src/priority.rs:40-45 -/
def popLoop (tie : HeapTie) (cancelled : List Nat) :
    Nat → List FetchRequest → Option FetchRequest × List FetchRequest
  | 0, heap => (none, heap)
  | rounds + 1, heap =>
    match popGreatest tie heap with
    | none => (none, heap)
    | some (request, rest) =>
      if request.cancellation ∈ cancelled then popLoop tie cancelled rounds rest
      else (some request, rest)

/-- INTERNAL: SRCLINE: mirage-scheduler/src/priority.rs:39-46 -/
def popLive (tie : HeapTie) (cancelled : List Nat) (heap : List FetchRequest) :
    Option FetchRequest × List FetchRequest :=
  popLoop tie cancelled heap.length heap

/-- INTERNAL: whether the request is to be raised.
SRCLINE: mirage-scheduler/src/priority.rs:64 -/
def raises (hash : PageHash) (priority : FetchPriority) (request : FetchRequest) : Bool :=
  (request.pages.any fun page => page.hash = hash) &&
    decide (priority.rank < request.priority.rank)

/-- INTERNAL: SRCLINE: mirage-scheduler/src/priority.rs:55-72 -/
def promotePage (heap : List FetchRequest) (hash : PageHash) (priority : FetchPriority)
    (deadlineNs : Nat) : Bool × List FetchRequest :=
  (heap.any (raises hash priority), heap.map fun request =>
    if raises hash priority request then
      { request with
        priority := priority
        deadlineNs := min request.deadlineNs deadlineNs }
    else request)

/-- INTERNAL: the counters are `u64` and wrap around.
SRCLINE: mirage-scheduler/src/queue.rs:3-7 -/
structure QueueMetrics where
  droppedSpeculative : Nat
  cancelledBeforeDequeue : Nat
  deriving DecidableEq, Repr

/-- INTERNAL: SRCLINE: mirage-scheduler/src/queue.rs:9-13 -/
structure SchedulerQueue where
  heap : List FetchRequest
  capacity : Nat
  metrics : QueueMetrics
  deriving DecidableEq, Repr

namespace SchedulerQueue

/-- INTERNAL: SRCLINE: mirage-scheduler/src/queue.rs:16-22 -/
def new (capacity : Nat) : SchedulerQueue := ⟨[], capacity, ⟨0, 0⟩⟩

/-- INTERNAL: a request that is refused is cancelled.
SRCLINE: mirage-scheduler/src/queue.rs:23-31 -/
def enqueue (queue : SchedulerQueue) (cancelled : List Nat) (request : FetchRequest) :
    Bool × SchedulerQueue × List Nat :=
  if queue.capacity ≤ queue.heap.length ∧ request.priority.speculative = true then
    (false,
      { queue with
        metrics := { queue.metrics with
          droppedSpeculative := wrappingAdd queue.metrics.droppedSpeculative 1 } },
      request.cancellation :: cancelled)
  else (true, { queue with heap := request :: queue.heap }, cancelled)

/-- INTERNAL: SRCLINE: mirage-scheduler/src/queue.rs:32-38 -/
def dequeue (queue : SchedulerQueue) (tie : HeapTie) (cancelled : List Nat) :
    Option FetchRequest × SchedulerQueue :=
  let before := queue.heap.length
  let popped := popLive tie cancelled queue.heap
  (popped.1,
    { queue with
      heap := popped.2
      metrics := { queue.metrics with
        cancelledBeforeDequeue := wrappingAdd queue.metrics.cancelledBeforeDequeue
          (before - (popped.2.length + if popped.1.isSome then 1 else 0)) } })

/-- INTERNAL: SRCLINE: mirage-scheduler/src/queue.rs:39-42 -/
def promote (queue : SchedulerQueue) (hash : PageHash) (deadlineNs : Nat) :
    Bool × SchedulerQueue :=
  let promoted := promotePage queue.heap hash .p0Blocking deadlineNs
  (promoted.1, { queue with heap := promoted.2 })

end SchedulerQueue

end Mirage.Model
