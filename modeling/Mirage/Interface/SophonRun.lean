import Mirage.Model.SophonDisk

/-!
# Readers of a Sophon source

Any number of readers read at the same time.  A reader works through the chunks of its window in
waves of at most four; each chunk of a wave is a job of its own, and the reader copies when all
jobs of the wave have returned.  Jobs share flights: the first one that misses the memory cache
for a key loads the chunk, and the others wait for its result.  A flight is named by the job
that loads it.  A step is one stretch of code under the lock of the flights, or a whole load,
whose inputs may be anything.
-/

set_option autoImplicit false

namespace Mirage.Interface

open Mirage.Model Mirage.Computation

abbrev ChunkResult := Except MirageStatus (List UInt8)

inductive JobPlace where
  | start
  | waiting (owner : Nat)
  | loading
  | publishing (result : ChunkResult)
  | finished (result : ChunkResult)
  deriving DecidableEq

structure ChunkJob where
  asset : SophonAsset
  chunk : SophonChunk
  place : JobPlace
  deriving DecidableEq

/-- INTERNAL: the arguments of `read`, with what the output holds before. -/
structure ReadRequest where
  index : Nat
  offset : Nat
  output : List UInt8
  deriving DecidableEq

/-- INTERNAL: `wave` are the chunks whose jobs are running and `rest` the ones behind them. -/
structure ReadProgress where
  request : ReadRequest
  asset : SophonAsset
  count : Nat
  wave : List (SophonChunk × Nat)
  rest : List SophonChunk
  output : List UInt8
  deriving DecidableEq

inductive SophonReader where
  | idle
  | reading (progress : ReadProgress)
  | done (request : ReadRequest) (result : Except MirageStatus Nat) (output : List UInt8)
  deriving DecidableEq

structure SophonShared where
  memory : ByteLru ChunkKey (List UInt8)
  flights : Table ChunkKey Nat
  results : Nat → Option ChunkResult
  jobs : List ChunkJob
  readers : Nat → SophonReader

inductive SophonAct where
  | read (reader : Nat) (request : ReadRequest)
  | wave (reader : Nat)
  | gather (reader : Nat)
  | look (job : Nat)
  | wake (job : Nat)
  | load (job : Nat) (inputs : Option LoadInputs)
  | publish (job : Nat) (hash : HashOrder)
  | fail (job : Nat) (status : MirageStatus)

namespace SophonShared

def start (budget : Nat) : SophonShared where
  memory := .new budget
  flights := .empty
  results := fun _ => none
  jobs := []
  readers := fun _ => .idle

def setReader (s : SophonShared) (reader : Nat) (state : SophonReader) : SophonShared :=
  { s with readers := Function.update s.readers reader state }

def setPlace (s : SophonShared) (id : Nat) (job : ChunkJob) (place : JobPlace) : SophonShared :=
  { s with jobs := s.jobs.set id { job with place := place } }

/-- INTERNAL: SRCLINE: mirage-ffi/src/sophon.rs:415-428 -/
def read (nodes : List SophonNode) (request : ReadRequest) : SophonReader :=
  match nodes[request.index]?.bind SophonNode.asset with
  | none => .done request (.error .invalidArgument) request.output
  | some asset =>
    if asset.size ≤ request.offset ∨ request.output = [] then .done request (.ok 0) request.output
    else
      let count := min (asset.size - request.offset) request.output.length
      .reading ⟨request, asset, count, [],
        selectChunks asset request.offset (request.offset + count), request.output⟩

/-- INTERNAL: the next wave, or the end of the read.
SRCLINE: mirage-ffi/src/sophon.rs:431-444, 454-456 -/
def wave (s : SophonShared) (reader : Nat) (progress : ReadProgress) : SophonShared :=
  match progress.rest with
  | [] => s.setReader reader (.done progress.request (.ok progress.count) progress.output)
  | rest =>
    let chunks := rest.take 4
    { s with jobs := s.jobs ++ chunks.map (ChunkJob.mk progress.asset · .start) }.setReader
      reader (.reading { progress with
        wave := chunks.zipIdx s.jobs.length
        rest := rest.drop 4 })

/-- INTERNAL: the result of a job that has returned. -/
def resultOf (s : SophonShared) (id : Nat) : Option ChunkResult :=
  match s.jobs[id]? with
  | some ⟨_, _, .finished result⟩ => some result
  | _ => none

/-- INTERNAL: SRCLINE: mirage-ffi/src/sophon.rs:445-452 -/
def gather (s : SophonShared) (reader : Nat) (progress : ReadProgress) : Option SophonShared :=
  (progress.wave.mapM fun entry => (s.resultOf entry.2).map fun result => (entry.1, result)).map
    fun results =>
      match copyWave progress.request.offset (progress.request.offset + progress.count)
        progress.output results with
      | (output, .error e) => s.setReader reader (.done progress.request (.error e) output)
      | (output, .ok _) =>
        s.setReader reader (.reading { progress with wave := [], output := output })

/-- INTERNAL: the look at the memory cache and the flights.
SRCLINE: mirage-ffi/src/sophon.rs:469-492 -/
def look (ext : SophonExternals) (s : SophonShared) (id : Nat) (job : ChunkJob) : SophonShared :=
  let key := chunkKey ext job.asset job.chunk
  match s.memory.get key with
  | some (bytes, memory) => { s with memory := memory }.setPlace id job (.finished (.ok bytes))
  | none =>
    match s.flights.get key with
    | some owner => s.setPlace id job (.waiting owner)
    | none => { s with flights := s.flights.set key id }.setPlace id job .loading

/-- INTERNAL: a load whose panic is caught.
SRCLINE: mirage-ffi/src/sophon.rs:503-507 -/
def loaded (ext : SophonExternals) (chunk : SophonChunk) (inputs : Option LoadInputs) :
    ChunkResult :=
  match inputs with
  | none => .error .internal
  | some inputs => loadChunk ext chunk inputs

/-- INTERNAL: SRCLINE: mirage-ffi/src/sophon.rs:508-520 -/
def publish (ext : SophonExternals) (hash : HashOrder) (s : SophonShared) (id : Nat)
    (job : ChunkJob) (result : ChunkResult) : SophonShared :=
  let key := chunkKey ext job.asset job.chunk
  let memory := match result with
    | .ok bytes => s.memory.insert hash key bytes bytes.length
    | .error _ => s.memory
  { s with
    memory := memory
    flights := s.flights.erase key
    results := Function.update s.results id (some result) }.setPlace id job (.finished result)

/-- INTERNAL: a job may return an error wherever it is: a lock is poisoned, the record of the
access fails, or the thread panics. -/
def step (ext : SophonExternals) (nodes : List SophonNode) (s : SophonShared) :
    SophonAct → Option SophonShared
  | .read reader request =>
    match s.readers reader with
    | .idle => some (s.setReader reader (read nodes request))
    | _ => none
  | .wave reader =>
    match s.readers reader with
    | .reading progress => if progress.wave = [] then some (s.wave reader progress) else none
    | _ => none
  | .gather reader =>
    match s.readers reader with
    | .reading progress => s.gather reader progress
    | _ => none
  | .look id =>
    match s.jobs[id]? with
    | some ⟨asset, chunk, .start⟩ => some (s.look ext id ⟨asset, chunk, .start⟩)
    | _ => none
  | .wake id =>
    match s.jobs[id]? with
    | some ⟨asset, chunk, .waiting owner⟩ =>
      (s.results owner).map fun result =>
        s.setPlace id ⟨asset, chunk, .waiting owner⟩ (.finished result)
    | _ => none
  | .load id inputs =>
    match s.jobs[id]? with
    | some ⟨asset, chunk, .loading⟩ =>
      some (s.setPlace id ⟨asset, chunk, .loading⟩ (.publishing (loaded ext chunk inputs)))
    | _ => none
  | .publish id hash =>
    match s.jobs[id]? with
    | some ⟨asset, chunk, .publishing result⟩ =>
      some (s.publish ext hash id ⟨asset, chunk, .publishing result⟩ result)
    | _ => none
  | .fail id status => (s.jobs[id]?).map fun job => s.setPlace id job (.finished (.error status))

end SophonShared

/-- INTERNAL: a load finds bytes of `contents` only. -/
def LoadsFrom (ext : SophonExternals) (contents : Set (List UInt8)) (s : SophonShared) :
    SophonAct → Prop
  | .load id inputs => ∀ job bytes, s.jobs[id]? = some job →
      SophonShared.loaded ext job.chunk inputs = .ok bytes → bytes ∈ contents
  | _ => True

inductive SophonReaches (ext : SophonExternals) (nodes : List SophonNode) (budget : Nat)
    (contents : Set (List UInt8)) : SophonShared → Prop where
  | start : SophonReaches ext nodes budget contents (.start budget)
  | step {s s' : SophonShared} (run : SophonReaches ext nodes budget contents s) (act : SophonAct)
      (loads : LoadsFrom ext contents s act) (next : s.step ext nodes act = some s') :
      SophonReaches ext nodes budget contents s'

/-! ## What a read returns -/

/-- INTERNAL: a chunk of the source under its asset. -/
def Serves (nodes : List SophonNode) (asset : SophonAsset) (chunk : SophonChunk) : Prop :=
  (∃ node ∈ nodes, node.asset = some asset) ∧ chunk ∈ asset.chunks

/-- INTERNAL: `chunk_key` tells chunks of the source apart. -/
def KeysDistinct (ext : SophonExternals) (nodes : List SophonNode) : Prop :=
  ∀ asset chunk asset' chunk', Serves nodes asset chunk → Serves nodes asset' chunk' →
    chunkKey ext asset chunk = chunkKey ext asset' chunk' →
      identityOf asset chunk = identityOf asset' chunk'

/-- INTERNAL: the plaintexts of the chunks of an asset. -/
def Plaintexts (ext : SophonExternals) (contents : Set (List UInt8)) (asset : SophonAsset)
    (plain : List (List UInt8)) : Prop :=
  List.Forall₂ (fun bytes chunk => bytes ∈ contents ∧ verified ext bytes chunk = true) plain
    asset.chunks

/-- INTERNAL: every read that returned a count returned the bytes of its window. -/
def ReadsExact (ext : SophonExternals) (nodes : List SophonNode) (contents : Set (List UInt8))
    (s : SophonShared) : Prop :=
  ∀ reader request count output, s.readers reader = .done request (.ok count) output →
    ∃ asset, nodes[request.index]?.bind SophonNode.asset = some asset ∧
      count = min request.output.length (asset.size - request.offset) ∧
      output.length = request.output.length ∧
      ∀ plain, Plaintexts ext contents asset plain →
        output.take count = slice plain.flatten request.offset count

end Mirage.Interface
