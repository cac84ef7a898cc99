import Mathlib.Data.Prod.Lex
import Mirage.Model.SchedulerQueue

/-!
# Runs of the scheduler queue

A run is any sequence of calls on a new queue, with any token cancelled at any time between them.
`Served` says what a call owes to the requests that are queued.
-/

set_option autoImplicit false

namespace Mirage.Interface

open Mirage.Model

/-- INTERNAL: the queue and the tokens cancelled so far. -/
structure QueueWorld where
  queue : SchedulerQueue
  cancelled : List Nat

/-- INTERNAL: a call on the queue, or a cancellation from outside. -/
inductive QueueCall where
  | enqueue (request : FetchRequest)
  | dequeue (tie : HeapTie)
  | promote (hash : PageHash) (deadlineNs : Nat)
  | cancel (token : Nat)

/-- INTERNAL: what a call returns. -/
inductive QueueOutcome where
  | enqueued (accepted : Bool)
  | dequeued (item : Option FetchRequest)
  | promoted (changed : Bool)
  | done
  deriving DecidableEq, Repr

namespace QueueWorld

/-- INTERNAL: what a call returns and leaves. -/
def perform (world : QueueWorld) : QueueCall → QueueOutcome × QueueWorld
  | .enqueue request =>
    let result := world.queue.enqueue world.cancelled request
    (.enqueued result.1, ⟨result.2.1, result.2.2⟩)
  | .dequeue tie =>
    let result := world.queue.dequeue tie world.cancelled
    (.dequeued result.1, ⟨result.2, world.cancelled⟩)
  | .promote hash deadlineNs =>
    let result := world.queue.promote hash deadlineNs
    (.promoted result.1, ⟨result.2, world.cancelled⟩)
  | .cancel token => (.done, ⟨world.queue, token :: world.cancelled⟩)

/-- INTERNAL: the token of the request is cancelled. -/
def Cancelled (world : QueueWorld) (request : FetchRequest) : Prop :=
  request.cancellation ∈ world.cancelled

end QueueWorld

/-- INTERNAL: the worlds of a run with the outcomes of its calls, newest first. -/
inductive QueueReaches (capacity : Nat) : QueueWorld → List QueueOutcome → Prop where
  | start (cancelled : List Nat) : QueueReaches capacity ⟨.new capacity, cancelled⟩ []
  | call {world : QueueWorld} {outcomes : List QueueOutcome}
      (run : QueueReaches capacity world outcomes) (call : QueueCall) :
      QueueReaches capacity (world.perform call).2 ((world.perform call).1 :: outcomes)

/-- INTERNAL: by priority, deadline and sequence; the least is the most urgent. -/
def urgency (request : FetchRequest) : Nat ×ₗ Nat ×ₗ Nat :=
  toLex (request.priority.rank, toLex (request.deadlineNs, request.sequence))

/-- INTERNAL: the request holds the page. -/
def Holds (hash : PageHash) (request : FetchRequest) : Prop :=
  ∃ page ∈ request.pages, page.hash = hash

/-- INTERNAL: what a promotion makes of a request: one that holds the page is blocking from then
on, with the earlier deadline if it was not blocking before; any other stays. -/
structure Raised (hash : PageHash) (deadlineNs : Nat) (request request' : FetchRequest) :
    Prop where
  same : request' = { request with
    priority := request'.priority, deadlineNs := request'.deadlineNs }
  other : ¬ Holds hash request → request' = request
  blocking : Holds hash request → request'.priority = .p0Blocking
  deadline : Holds hash request → request.priority ≠ .p0Blocking →
    request'.deadlineNs = min request.deadlineNs deadlineNs
  sooner : request'.priority.rank ≤ request.priority.rank ∧
    request'.deadlineNs ≤ request.deadlineNs ∧ urgency request' ≤ urgency request

/-- INTERNAL: a dequeue takes the most urgent request that is not cancelled and discards
cancelled ones only, which it counts modulo `2 ^ 64`. -/
structure Dequeues (world : QueueWorld) (item : Option FetchRequest) (world' : QueueWorld) :
    Prop where
  urgent : ∀ request, item = some request → request ∈ world.queue.heap ∧
    ¬ world.Cancelled request ∧
    ∀ other ∈ world.queue.heap, ¬ world.Cancelled other → urgency request ≤ urgency other
  none_left : item = none ↔ ∀ request ∈ world.queue.heap, world.Cancelled request
  discarded : ∃ discarded, world.queue.heap.Perm (item.toList ++ discarded ++ world'.queue.heap) ∧
    (∀ request ∈ discarded, world.Cancelled request) ∧
    world'.queue.metrics.cancelledBeforeDequeue =
      wrappingAdd world.queue.metrics.cancelledBeforeDequeue discarded.length

/-- INTERNAL: what a call owes to the requests that are queued. -/
def Served (world : QueueWorld) : QueueCall → Prop
  | .enqueue request =>
    (∃ accepted world', world.perform (.enqueue request) = (.enqueued accepted, world') ∧
      (accepted = false ↔ world.queue.capacity ≤ world.queue.heap.length ∧
        request.priority.speculative = true) ∧
      (accepted = true → world'.queue.heap = request :: world.queue.heap) ∧
      (accepted = false → world'.queue.heap = world.queue.heap) ∧
      world'.queue.metrics.cancelledBeforeDequeue =
        world.queue.metrics.cancelledBeforeDequeue)
  | .dequeue tie =>
    ∃ item world', world.perform (.dequeue tie) = (.dequeued item, world') ∧
      Dequeues world item world'
  | .promote hash deadlineNs =>
    ∃ changed world', world.perform (.promote hash deadlineNs) = (.promoted changed, world') ∧
      List.Forall₂ (Raised hash deadlineNs) world.queue.heap world'.queue.heap ∧
      (changed = true ↔ ∃ request ∈ world.queue.heap, Holds hash request ∧
        request.priority ≠ .p0Blocking) ∧
      world'.queue.metrics = world.queue.metrics
  | .cancel token => (world.perform (.cancel token)).2.queue = world.queue

/-- INTERNAL: the requests that were accepted, and those that were returned. -/
def acceptedCount (outcomes : List QueueOutcome) : Nat := outcomes.count (.enqueued true)

def returnedCount (outcomes : List QueueOutcome) : Nat :=
  outcomes.countP fun outcome => match outcome with
    | .dequeued (some _) => true
    | _ => false

end Mirage.Interface
