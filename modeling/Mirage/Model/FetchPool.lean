import Mirage.Computation.Checks
import Mirage.Model.Prelude

/-!
# The fetch pool

The state behind the lock of the pool and what each stretch of code that holds the lock does
to it: a spawn, one round of a worker's loop, the end of a run and the destructor.  The
closures of a job are named by a ticket: `ticket` stands for the job, and for its expiry hook
where `onExpire` says that it has one.  The heap is a list; which of its greatest elements
`peek` shows is left open.
-/

set_option autoImplicit false

namespace Mirage.Model

open Mirage.Computation

/-- INTERNAL: SRCLINE: mirage-scheduler/src/request.rs:8-16 -/
inductive FetchPriority where
  | p0Blocking
  | p1Mandatory
  | p2Capsule
  | p3Frontier
  | p4ReadAhead
  | p5IdleWarm
  | p6Maintenance
  deriving DecidableEq, Repr

namespace FetchPriority

/-- INTERNAL: the discriminant, by which priorities are compared. -/
def rank : FetchPriority → Nat
  | .p0Blocking => 0
  | .p1Mandatory => 1
  | .p2Capsule => 2
  | .p3Frontier => 3
  | .p4ReadAhead => 4
  | .p5IdleWarm => 5
  | .p6Maintenance => 6

def speculative : FetchPriority → Bool
  | .p3Frontier | .p4ReadAhead | .p5IdleWarm | .p6Maintenance => true
  | _ => false

end FetchPriority

/-- INTERNAL: SRCLINE: fetch_pool.rs:17-26 -/
structure FetchPoolConfig where
  workers : Nat
  queueDepth : Nat
  speculativeQueueDepth : Nat
  maxInFlightBytes : Nat
  deriving DecidableEq, Repr

/-- INTERNAL: SRCLINE: fetch_pool.rs:29-42 -/
def FetchPoolConfig.validate (config : FetchPoolConfig) : Except MirageError Unit := do
  ensure (config.workers ≠ 0 ∧ config.queueDepth ≠ 0)
    (.invalidArgument "fetch pool requires at least one worker and one queue slot")
  ensure (config.speculativeQueueDepth ≤ config.queueDepth)
    (.invalidArgument "speculative fetch queue cannot exceed the fetch queue depth")

/-- INTERNAL: SRCLINE: fetch_pool.rs:47-57 -/
structure QueuedJob where
  ticket : Nat
  priority : FetchPriority
  deadlineNs : Nat
  sequence : Nat
  bytes : Nat
  onExpire : Bool
  deriving DecidableEq, Repr

/-- INTERNAL: the reversed order, under which the job to run next is the greatest.
SRCLINE: fetch_pool.rs:70-78 -/
def QueuedJob.cmp (self other : QueuedJob) : Ordering :=
  (compare other.priority.rank self.priority.rank).then
    ((compare other.deadlineNs self.deadlineNs).then (compare other.sequence self.sequence))

/-- INTERNAL: what `peek` shows of a heap with these elements. -/
def IsPeek (queue : List QueuedJob) : Option QueuedJob → Prop
  | none => queue = []
  | some job => job ∈ queue ∧ ∀ other ∈ queue, other.cmp job ≠ .gt

instance (queue : List QueuedJob) (peeked : Option QueuedJob) : Decidable (IsPeek queue peeked) :=
  match peeked with
  | none => inferInstanceAs (Decidable (queue = []))
  | some job => inferInstanceAs (Decidable (job ∈ queue ∧ ∀ other ∈ queue, other.cmp job ≠ .gt))

/-- INTERNAL: SRCLINE: fetch_pool.rs:80-91 -/
structure PoolState where
  queue : List QueuedJob
  queuedSpeculative : Nat
  running : Nat
  runningSpeculative : Nat
  bytesInFlight : Nat
  closed : Bool
  nextSequence : Nat
  deriving DecidableEq, Repr

namespace PoolState

def new : PoolState := ⟨[], 0, 0, 0, 0, false, 0⟩

/-- INTERNAL: the sum of the queued bytes, which wraps like the plain `+`. -/
def queuedBytes (state : PoolState) : Nat := (state.queue.map QueuedJob.bytes).sum % 2 ^ 64

/-- INTERNAL: one more or less of a counter for a speculative job. -/
def speculativeUnit (priority : FetchPriority) : Nat := if priority.speculative then 1 else 0

/-- INTERNAL: the entry a spawn would push. -/
def newJob (state : PoolState) (ticket : Nat) (priority : FetchPriority) (deadlineNs bytes : Nat)
    (onExpire : Bool) : QueuedJob :=
  ⟨ticket, priority, deadlineNs, state.nextSequence, bytes, onExpire⟩

/-- INTERNAL: SRCLINE: fetch_pool.rs:274-330 -/
def spawnMeteredInner (config : FetchPoolConfig) (state : PoolState) (ticket : Nat)
    (priority : FetchPriority) (deadlineNs bytes : Nat) (onExpire : Bool) :
    Except MirageError PoolState := do
  ensure (state.closed = false) (.internalInvariant "fetch worker pool is shut down")
  ensure (state.queue.length < config.queueDepth) (.cacheFull "fetch worker pool is saturated")
  ensure (priority.speculative = true →
      state.queuedSpeculative < config.speculativeQueueDepth)
    (.cacheFull "speculative fetch credits are exhausted")
  ensure (priority.speculative = true → 0 < config.maxInFlightBytes →
      saturatingAdd (saturatingAdd state.bytesInFlight state.queuedBytes) bytes ≤
        config.maxInFlightBytes)
    (.cacheFull "in-flight fetch byte budget is exhausted")
  return { state with
    nextSequence := (state.nextSequence + 1) % 2 ^ 64
    queuedSpeculative := state.queuedSpeculative + speculativeUnit priority
    queue := state.queue ++ [state.newJob ticket priority deadlineNs bytes onExpire] }

/-- INTERNAL: the queue without a job that was popped. -/
def pop (state : PoolState) (job : QueuedJob) : PoolState :=
  { state with
    queue := state.queue.erase job
    queuedSpeculative := state.queuedSpeculative - speculativeUnit job.priority }

/-- INTERNAL: the counters of a job that was popped to run. -/
def startRun (state : PoolState) (job : QueuedJob) : PoolState :=
  { state.pop job with
    runningSpeculative := state.runningSpeculative + speculativeUnit job.priority
    running := state.running + 1
    bytesInFlight := wrappingAdd state.bytesInFlight job.bytes }

/-- INTERNAL: `RunGuard::drop`.
SRCLINE: fetch_pool.rs:108-120 -/
def endRun (state : PoolState) (job : QueuedJob) : PoolState :=
  { state with
    running := state.running - 1
    bytesInFlight := state.bytesInFlight - job.bytes
    runningSpeculative := state.runningSpeculative - speculativeUnit job.priority }

/-- INTERNAL: the destructor's hold of the lock.
SRCLINE: fetch_pool.rs:373-384 -/
def close (state : PoolState) : PoolState := { state with closed := true, queue := [] }

end PoolState

/-- INTERNAL: what a worker does after a round of its loop. -/
inductive WorkerTurn where
  | exit
  | wait
  | expire (job : QueuedJob)
  | take (job : QueuedJob)
  deriving DecidableEq, Repr

/-- INTERNAL: one round of a worker's loop, with the clock and the top of the heap it reads.
SRCLINE: fetch_pool.rs:156-219 -/
def workerTurn (workers now : Nat) (state : PoolState) (peeked : Option QueuedJob) :
    WorkerTurn × PoolState :=
  if state.closed then (.exit, state)
  else
    match peeked with
    | none => (.wait, state)
    | some job =>
      if job.deadlineNs < now then (.expire job, state.pop job)
      else if job.priority.speculative = true ∧
          max (workers - 1) 1 ≤ state.runningSpeculative then (.wait, state)
      else (.take job, state.startRun job)

/-!
## Page flights

A flight is shared by everyone who waits for one page.  Its counters are atomics of their own
and its result stands behind a lock of its own, so each definition here is one access; the
order in which a thread makes them is in `Interface.FetchPoolRun`.  The wakers of a flight, which
no access reads, are left out.
-/

/-- INTERNAL: SRCLINE: mirage-types/src/readiness.rs:59-72 -/
inductive FetchFailureCause where
  | checksumMismatch
  | authorizationDenied
  | sourceMissing
  | timeout
  | deadlineExceeded
  | budgetExceeded
  | callerCancelled
  | malformedResponse
  | internal
  deriving DecidableEq, Repr

structure FlightFailure where
  cause : FetchFailureCause
  code : String
  deriving DecidableEq, Repr

abbrev FlightResult := Except FlightFailure Unit

/-- INTERNAL: SRCLINE: flight.rs:77-86 -/
structure PageFlight where
  priority : Nat
  earliestDeadlineNs : Nat
  waiterCount : Nat
  requiredWaiters : Nat
  maxWaiters : Nat
  admissionReason : Bool
  cancelled : Bool
  result : Option FlightResult
  deriving DecidableEq

namespace PageFlight

/-- INTERNAL: SRCLINE: flight.rs:88-107 -/
def new (priority : FetchPriority) (deadlineNs : Nat) (required : Bool) (maxWaiters : Nat) :
    PageFlight where
  priority := priority.rank
  earliestDeadlineNs := deadlineNs
  waiterCount := 1
  requiredWaiters := if required then 1 else 0
  maxWaiters := maxWaiters
  admissionReason := false
  cancelled := false
  result := none

/-! ## The accesses of `attach` -/

def hasRoom (f : PageFlight) : Bool := f.waiterCount < f.maxWaiters

def addWaiter (f : PageFlight) : PageFlight := { f with waiterCount := f.waiterCount + 1 }

def addRequired (f : PageFlight) (required : Bool) : PageFlight :=
  if required then { f with requiredWaiters := f.requiredWaiters + 1 } else f

/-- INTERNAL: the two `fetch_min`, whose values no access reads. -/
def promote (f : PageFlight) (priority : FetchPriority) (deadlineNs : Nat) : PageFlight :=
  { f with
    priority := min f.priority priority.rank
    earliestDeadlineNs := min f.earliestDeadlineNs deadlineNs }

/-! ## The accesses of `detach`, `set_admission_reason`, `maybe_cancel` and `complete` -/

def dropWaiter (f : PageFlight) : PageFlight := { f with waiterCount := f.waiterCount - 1 }

def dropRequired (f : PageFlight) (required : Bool) : PageFlight :=
  if required then { f with requiredWaiters := f.requiredWaiters - 1 } else f

def storeAdmission (f : PageFlight) (present : Bool) : PageFlight :=
  { f with admissionReason := present }

def cancel (f : PageFlight) : PageFlight := { f with cancelled := true }

/-- INTERNAL: SRCLINE: flight.rs:127-140 -/
def complete (f : PageFlight) (result : FlightResult) : PageFlight :=
  match f.result with
  | some _ => f
  | none => { f with result := some result }

end PageFlight

end Mirage.Model
