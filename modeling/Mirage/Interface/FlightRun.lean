import Mirage.Computation.Process
import Mirage.Model.FetchPool

/-!
# Threads on a flight map

Any number of threads call `acquire`, `detach`, `set_admission_reason`, `complete` and
`complete_owned`.  A step is one access of an atomic or one stretch of code under a lock, and
`acquire` keeps the lock of the map from its lookup to its return.  Flights are numbered as
they are created.
-/

set_option autoImplicit false

namespace Mirage.Interface

open Mirage.Computation Mirage.Model

/-- INTERNAL: the arguments of `acquire`. -/
structure FlightRequest where
  hash : PageHash
  priority : FetchPriority
  deadlineNs : Nat
  required : Bool
  deriving DecidableEq

/-- INTERNAL: how far `acquire` is with the flight it found: it was found, it was not cancelled,
it had no result, it had room, its waiters count this one, and its required waiters do. -/
inductive JoinStage where
  | found
  | uncancelled
  | unfinished
  | room
  | counted
  | required
  deriving DecidableEq, Repr

/-- INTERNAL: what `maybe_cancel` looks at next, or that it cancels. -/
inductive CancelStage where
  | required
  | waiters
  | admission
  | cancel
  deriving DecidableEq, Repr

/-- INTERNAL: where a thread is. -/
inductive FlightThread where
  | idle
  | joining (stage : JoinStage) (request : FlightRequest) (flight : Nat)
  | replacing (request : FlightRequest)
  | detaching (flight : Nat) (required : Bool)
  | cancelling (stage : CancelStage) (flight : Nat)
  | completing (flight : Nat) (result : FlightResult)
  deriving DecidableEq

/-- INTERNAL: a handle that is attached. -/
structure FlightHandle where
  flight : Nat
  required : Bool
  deriving DecidableEq, Repr

structure FlightShared where
  maxWaiters : Nat
  flights : Nat → PageFlight
  count : Nat
  map : PageHash → Option Nat
  lock : Option Nat
  threads : Nat → FlightThread
  handles : List FlightHandle

inductive FlightAct where
  | acquire (thread : Nat) (request : FlightRequest)
  | detach (thread : Nat) (handle : FlightHandle)
  | setAdmissionReason (thread flight : Nat) (present : Bool)
  | complete (thread : Nat) (hash : PageHash) (result : FlightResult)
  | completeOwned (thread : Nat) (hash : PageHash) (flight : Nat) (result : FlightResult)
  | advance (thread : Nat)

namespace FlightShared

/-- INTERNAL: `FlightMap::with_limits`. -/
def start (maxWaiters : Nat) : FlightShared where
  maxWaiters := maxWaiters
  flights := fun _ => .new .p0Blocking 0 false maxWaiters
  count := 0
  map := fun _ => none
  lock := none
  threads := fun _ => .idle
  handles := []

def goto (s : FlightShared) (thread : Nat) (place : FlightThread) : FlightShared :=
  { s with threads := Function.update s.threads thread place }

def withFlight (s : FlightShared) (flight : Nat) (value : PageFlight) : FlightShared :=
  { s with flights := Function.update s.flights flight value }

/-- INTERNAL: the new flight of an `acquire`, which returns its handle.
SRCLINE: flight_map.rs:54-64 -/
def insert (s : FlightShared) (request : FlightRequest) : FlightShared :=
  { s with
    flights := Function.update s.flights s.count
      (.new request.priority request.deadlineNs request.required s.maxWaiters)
    count := s.count + 1
    map := Function.update s.map request.hash (some s.count)
    lock := none
    handles := s.handles ++ [⟨s.count, request.required⟩] }

/-- INTERNAL: the return of an `acquire` with a handle. -/
def attached (s : FlightShared) (flight : Nat) (required : Bool) : FlightShared :=
  { s with lock := none, handles := s.handles ++ [⟨flight, required⟩] }

/-- INTERNAL: the next access of an `acquire` that found a flight.
SRCLINE: flight_map.rs:44-53, flight.rs:108-125 -/
def join (s : FlightShared) (thread : Nat) (stage : JoinStage) (request : FlightRequest)
    (flight : Nat) : FlightShared :=
  let f := s.flights flight
  match stage with
  | .found =>
    if f.cancelled then s.goto thread (.replacing request)
    else s.goto thread (.joining .uncancelled request flight)
  | .uncancelled =>
    if f.result.isSome then s.goto thread (.replacing request)
    else s.goto thread (.joining .unfinished request flight)
  | .unfinished =>
    if f.hasRoom then s.goto thread (.joining .room request flight)
    else { s with lock := none }.goto thread .idle
  | .room => (s.withFlight flight f.addWaiter).goto thread (.joining .counted request flight)
  | .counted =>
    (s.withFlight flight (f.addRequired request.required)).goto thread
      (.joining .required request flight)
  | .required =>
    ((s.withFlight flight (f.promote request.priority request.deadlineNs)).attached flight
      request.required).goto thread .idle

/-- INTERNAL: the next access of `maybe_cancel`.
SRCLINE: flight.rs:190-197 -/
def tryCancel (s : FlightShared) (thread : Nat) (stage : CancelStage) (flight : Nat) :
    FlightShared :=
  let f := s.flights flight
  match stage with
  | .required =>
    s.goto thread (if f.requiredWaiters = 0 then .cancelling .waiters flight else .idle)
  | .waiters =>
    s.goto thread (if f.waiterCount = 0 then .cancelling .admission flight else .idle)
  | .admission =>
    s.goto thread (if f.admissionReason then .idle else .cancelling .cancel flight)
  | .cancel => (s.withFlight flight f.cancel).goto thread .idle

/-- INTERNAL: the next access of a thread inside a call. -/
def advance (s : FlightShared) (thread : Nat) : Option FlightShared :=
  match s.threads thread with
  | .idle => none
  | .joining stage request flight => some (s.join thread stage request flight)
  | .replacing request => some ((s.insert request).goto thread .idle)
  | .detaching flight required =>
    some ((s.withFlight flight ((s.flights flight).dropRequired required)).goto thread
      (.cancelling .required flight))
  | .cancelling stage flight => some (s.tryCancel thread stage flight)
  | .completing flight result =>
    some ((s.withFlight flight ((s.flights flight).complete result)).goto thread .idle)

def step (s : FlightShared) : FlightAct → Option FlightShared
  | .acquire thread request =>
    if s.threads thread = .idle ∧ s.lock = none then
      match s.map request.hash with
      | none => some (s.insert request)
      | some flight => some ({ s with lock := some thread }.goto thread
          (.joining .found request flight))
    else none
  | .detach thread handle =>
    if s.threads thread = .idle ∧ handle ∈ s.handles then
      some (({ s with handles := s.handles.erase handle }.withFlight handle.flight
        (s.flights handle.flight).dropWaiter).goto thread
          (.detaching handle.flight handle.required))
    else none
  | .setAdmissionReason thread flight present =>
    if s.threads thread = .idle ∧ flight < s.count then
      some ((s.withFlight flight ((s.flights flight).storeAdmission present)).goto thread
        (if present then .idle else .cancelling .required flight))
    else none
  | .complete thread hash result =>
    if s.threads thread = .idle ∧ s.lock = none then
      match s.map hash with
      | none => some s
      | some flight =>
        some ({ s with map := Function.update s.map hash none }.goto thread
          (.completing flight result))
    else none
  | .completeOwned thread hash flight result =>
    if s.threads thread = .idle ∧ s.lock = none ∧ flight < s.count then
      some ({ s with
        map := if s.map hash = some flight then Function.update s.map hash none else s.map }.goto
          thread (.completing flight result))
    else none
  | .advance thread => s.advance thread

end FlightShared

end Mirage.Interface
