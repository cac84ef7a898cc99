import Mathlib.Data.Prod.Lex
import Mirage.Computation.Process
import Mirage.Model.FetchPool

/-!
# Runs of the fetch pool

The threads are the workers of the pool, its callers and the destructor.  A step is a stretch
of code that holds the lock, or the call of a hook or a job outside it.  A worker that waits
may wake up at any time, so waiting is no place of its own; nor does a worker keep the lock
from one round of its loop to the next, which only adds runs.  `accepted`, `jobsRun` and
`hooksRun` record what was admitted and called, and no step reads them.
-/

set_option autoImplicit false

namespace Mirage.Interface

open Mirage.Computation Mirage.Model

/-- INTERNAL: where a worker is: at the top of its loop, about to call the hook of an expired
job, about to call a job, in a job, or at its end. -/
inductive WorkerAt where
  | seeking
  | expiring (job : QueuedJob)
  | starting (job : QueuedJob)
  | running (job : QueuedJob)
  | gone
  deriving DecidableEq, Repr

/-- INTERNAL: `dropping` are the jobs whose hooks the destructor has still to call. -/
structure PoolRun where
  state : PoolState
  workers : Nat → WorkerAt
  dropping : List QueuedJob
  accepted : List QueuedJob
  jobsRun : List QueuedJob
  hooksRun : List QueuedJob

inductive PoolAct where
  | spawn (priority : FetchPriority) (deadlineNs bytes : Nat) (onExpire : Bool)
  | look (worker now : Nat) (peeked : Option QueuedJob)
  | runHook (worker : Nat)
  | runJob (worker : Nat)
  | endJob (worker : Nat)
  | drop (order : List QueuedJob)
  | dropHook

namespace PoolRun

def start : PoolRun := ⟨.new, fun _ => .seeking, [], [], [], []⟩

def goto (s : PoolRun) (worker : Nat) (place : WorkerAt) : PoolRun :=
  { s with workers := Function.update s.workers worker place }

/-- INTERNAL: where a round of the loop leaves its worker. -/
def turnPlace : WorkerTurn → WorkerAt
  | .exit => .gone
  | .wait => .seeking
  | .expire job => if job.onExpire then .expiring job else .seeking
  | .take job => .starting job

def step (config : FetchPoolConfig) (s : PoolRun) : PoolAct → Option PoolRun
  | .spawn priority deadlineNs bytes onExpire =>
    match s.state.spawnMeteredInner config s.accepted.length priority deadlineNs bytes onExpire with
    | .ok state =>
      some { s with
        state := state
        accepted := s.accepted ++
          [s.state.newJob s.accepted.length priority deadlineNs bytes onExpire] }
    | .error _ => some s
  | .look worker now peeked =>
    if worker < config.workers ∧ s.workers worker = .seeking ∧ IsPeek s.state.queue peeked then
      let turn := workerTurn config.workers now s.state peeked
      some ({ s with state := turn.2 }.goto worker (turnPlace turn.1))
    else none
  | .runHook worker =>
    match s.workers worker with
    | .expiring job =>
      some ({ s with hooksRun := s.hooksRun ++ [job] }.goto worker .seeking)
    | _ => none
  | .runJob worker =>
    match s.workers worker with
    | .starting job => some ({ s with jobsRun := s.jobsRun ++ [job] }.goto worker (.running job))
    | _ => none
  | .endJob worker =>
    -- `catch_unwind` returns whether the job returned or panicked
    match s.workers worker with
    | .running job => some ({ s with state := s.state.endRun job }.goto worker .seeking)
    | _ => none
  | .drop order =>
    if s.state.closed = false ∧ order.Perm s.state.queue ∧
        order.Pairwise (fun earlier later => later.cmp earlier ≠ .gt) then
      some { s with state := s.state.close, dropping := order.filter QueuedJob.onExpire }
    else none
  | .dropHook =>
    match s.dropping with
    | job :: rest => some { s with dropping := rest, hooksRun := s.hooksRun ++ [job] }
    | [] => none

end PoolRun

/-! ## What a run keeps -/

section Weights

/-- INTERNAL: a weight of the job a worker has taken and not finished. -/
def takenWeight (w : QueuedJob → Nat) : WorkerAt → Nat
  | .starting job | .running job => w job
  | _ => 0

/-- INTERNAL: a weight of the job whose call the worker makes next. -/
def jobHeld (w : QueuedJob → Nat) : WorkerAt → Nat
  | .starting job => w job
  | _ => 0

/-- INTERNAL: a weight of the job whose hook the worker calls next. -/
def hookHeld (w : QueuedJob → Nat) : WorkerAt → Nat
  | .expiring job => w job
  | _ => 0

/-- INTERNAL: one job counted. -/
def only (job other : QueuedJob) : Nat := if other = job then 1 else 0

end Weights

variable (config : FetchPoolConfig) (s : PoolRun)

def runningBytes : Nat := totalWeight config.workers (takenWeight QueuedJob.bytes) s.workers

def queuedBytes : Nat := (s.state.queue.map QueuedJob.bytes).sum

/-- INTERNAL: the bytes of all jobs queued or running fit a `u64`, with those of a new job. -/
def FitsBytes : PoolAct → Prop
  | .spawn _ _ bytes _ => queuedBytes s + runningBytes config s + bytes ≤ u64Max
  | _ => True

/-- INTERNAL: the states of a run of a valid pool in which the byte sums fit. -/
inductive PoolReaches : PoolRun → Prop where
  | start (valid : config.validate = .ok ()) : PoolReaches .start
  | step {s s' : PoolRun} (run : PoolReaches s) (act : PoolAct) (fits : FitsBytes config s act)
      (next : s.step config act = some s') : PoolReaches s'

/-- INTERNAL: the bounds of an open pool. -/
structure PoolBounds : Prop where
  running : s.state.running = totalWeight config.workers (takenWeight fun _ => 1) s.workers ∧
    s.state.running ≤ config.workers
  queue : s.state.queue.length ≤ config.queueDepth
  queuedSpeculative :
    s.state.queuedSpeculative = s.state.queue.countP (fun job => job.priority.speculative) ∧
      s.state.queuedSpeculative ≤ config.speculativeQueueDepth
  bytesInFlight : s.state.bytesInFlight = runningBytes config s
  speculative : 2 ≤ config.workers →
    totalWeight config.workers
      (takenWeight fun job => PoolState.speculativeUnit job.priority) s.workers < config.workers

/-- INTERNAL: the order in which jobs run. -/
def QueuedJob.key (job : QueuedJob) : Nat ×ₗ Nat ×ₗ Nat :=
  toLex (job.priority.rank, toLex (job.deadlineNs, job.sequence))

/-- INTERNAL: what a step takes from the queue and admits to it. -/
structure PoolStepSound (act : PoolAct) (s' : PoolRun) : Prop where
  taken : ∀ worker now peeked job, act = .look worker now peeked →
    s'.workers worker = .starting job →
      job ∈ s.state.queue ∧ (∀ other ∈ s.state.queue, QueuedJob.key job ≤ QueuedJob.key other) ∧
        now ≤ job.deadlineNs
  admitted : ∀ priority deadlineNs bytes onExpire, act = .spawn priority deadlineNs bytes onExpire →
    s'.accepted ≠ s.accepted → priority.speculative = true → config.maxInFlightBytes ≠ 0 →
      queuedBytes s' + runningBytes config s' ≤ config.maxInFlightBytes

/-- INTERNAL: where the closures of an accepted job with a hook are: queued, about to be called,
or called. -/
def CalledOnce (job : QueuedJob) : Prop :=
  s.state.queue.count job +
      (totalWeight config.workers (jobHeld (only job)) s.workers + s.jobsRun.count job) +
      (totalWeight config.workers (hookHeld (only job)) s.workers + s.dropping.count job +
        s.hooksRun.count job) = 1

/-- INTERNAL: no thread is about to call a job or a hook. -/
def NoCallPending : Prop :=
  s.dropping = [] ∧ ∀ worker, worker < config.workers →
    (∀ job, s.workers worker ≠ .starting job) ∧ ∀ job, s.workers worker ≠ .expiring job

/-- INTERNAL: the threads that are about to call something can all do so, after which every job
that left the queue has had exactly one of its closures called. -/
def Resolves : Prop :=
  ∃ s', PoolReaches config s' ∧ s'.state = s.state ∧ s'.accepted = s.accepted ∧
    NoCallPending config s' ∧
    ∀ job ∈ s.accepted, job.onExpire = true → job ∉ s.state.queue →
      s'.jobsRun.count job + s'.hooksRun.count job = 1

end Mirage.Interface
