import Mirage.Analysis.SophonChunks

/-!
# Reads of a Sophon source

Every place a chunk can come from verifies it, and the memory cache and the flights hand on
verified bytes only.  They do so under a key, and chunks of one key have one digest and one
length, so the bytes are genuine for every chunk of the key.  What a reader copies is therefore
the plaintext of its window.
-/

set_option autoImplicit false

namespace Mirage.Analysis

open Mirage.Model Mirage.Interface Mirage.Computation

variable {ext : SophonExternals} {nodes : List SophonNode} {contents : Set (List UInt8)}
  {s s' : SophonShared} {id : Nat} {job : ChunkJob} {chunk : SophonChunk} {bytes : List UInt8}

/-! ## Loads -/

theorem readDisk_verified {file : Option (List UInt8)}
    (h : readDisk ext chunk file = some bytes) : verified ext bytes chunk = true := by
  unfold readDisk at h
  exact (Option.filter_eq_some_iff.mp h).2

theorem readSeed_verified {file : Option (List UInt8)}
    (h : readSeed ext chunk file = some bytes) : verified ext bytes chunk = true := by
  unfold readSeed at h
  exact (Bool.and_eq_true_iff.mp (Option.filter_eq_some_iff.mp h).2).2

theorem fetchChunk_verified {response : Option HttpResponse}
    (h : fetchChunk ext chunk response = .ok bytes) : verified ext bytes chunk = true := by
  obtain ⟨answer, -, h⟩ := someOr_bind_ok.mp h
  obtain ⟨-, h⟩ := ensure_bind_ok.mp h
  obtain ⟨body, -, h⟩ := someOr_bind_ok.mp h
  obtain ⟨-, h⟩ := ensure_bind_ok.mp h
  obtain ⟨decoded, -, h⟩ := someOr_bind_ok.mp h
  obtain ⟨hverified, h⟩ := ensure_bind_ok.mp h
  obtain rfl := Except.ok.inj h
  exact hverified

theorem loadChunk_verified {inputs : LoadInputs} (h : loadChunk ext chunk inputs = .ok bytes) :
    verified ext bytes chunk = true := by
  unfold loadChunk at h
  cases hdisk : readDisk ext chunk inputs.disk with
  | some found =>
    rw [hdisk] at h
    obtain rfl := Except.ok.inj h
    exact readDisk_verified hdisk
  | none =>
    rw [hdisk] at h
    dsimp only at h
    cases hseed : inputs.seeds.findSome? (readSeed ext chunk) with
    | some found =>
      rw [hseed] at h
      obtain rfl := Except.ok.inj h
      obtain ⟨file, -, hfile⟩ := List.exists_of_findSome?_eq_some hseed
      exact readSeed_verified hfile
    | none =>
      rw [hseed] at h
      exact fetchChunk_verified h

variable {asset : SophonAsset} {key : ChunkKey} {P : ChunkKey → List UInt8 → Prop}
  {cache : ByteLru ChunkKey (List UInt8)} {result : ChunkResult}

/-- INTERNAL: bytes that are genuine for a chunk are so for every chunk of its key. -/
theorem genuine_of_key (hkeys : KeysDistinct ext nodes) {asset' : SophonAsset}
    {chunk' : SophonChunk} (hserves : Serves nodes asset chunk)
    (hserves' : Serves nodes asset' chunk')
    (hkey : chunkKey ext asset chunk = chunkKey ext asset' chunk')
    (h : Genuine ext contents bytes chunk) : Genuine ext contents bytes chunk' := by
  have hidentity := hkeys asset chunk asset' chunk' hserves hserves' hkey
  have hmd5 : asciiLower chunk.md5 = asciiLower chunk'.md5 :=
    congrArg ChunkIdentity.md5 hidentity
  have hsize : chunk.dsize = chunk'.dsize := congrArg ChunkIdentity.dsize hidentity
  have hverified := h.2
  unfold verified at hverified
  rw [hmd5, hsize] at hverified
  exact ⟨h.1, hverified⟩

/-! ## The invariant -/

def jobKey (ext : SophonExternals) (job : ChunkJob) : ChunkKey := chunkKey ext job.asset job.chunk

/-- INTERNAL: a job of this key has this number. -/
def HasKey (ext : SophonExternals) (s : SophonShared) (id : Nat) (key : ChunkKey) : Prop :=
  ∃ job, s.jobs[id]? = some job ∧ jobKey ext job = key

/-- INTERNAL: bytes that are genuine for a chunk of the source with this key. -/
def GenuineFor (ext : SophonExternals) (nodes : List SophonNode) (contents : Set (List UInt8))
    (key : ChunkKey) (bytes : List UInt8) : Prop :=
  ∃ asset chunk, Serves nodes asset chunk ∧ chunkKey ext asset chunk = key ∧
    Genuine ext contents bytes chunk

def PlaceOk (ext : SophonExternals) (contents : Set (List UInt8)) (s : SophonShared)
    (job : ChunkJob) : JobPlace → Prop
  | .start | .loading => True
  | .waiting owner => HasKey ext s owner (jobKey ext job)
  | .publishing result | .finished result =>
    ∀ bytes, result = .ok bytes → Genuine ext contents bytes job.chunk

/-- INTERNAL: a reader between two waves, or with jobs for the chunks of its wave. -/
structure ProgressOk (ext : SophonExternals) (nodes : List SophonNode)
    (contents : Set (List UInt8)) (s : SophonShared) (p : ReadProgress) : Prop where
  asset : nodes[p.request.index]?.bind SophonNode.asset = some p.asset
  count : p.count = min p.request.output.length (p.asset.size - p.request.offset)
  length : p.output.length = p.request.output.length
  copying : Copying ext contents p.asset p.request.offset (p.request.offset + p.count)
    (p.wave.map Prod.fst ++ p.rest) p.output
  jobs : ∀ entry ∈ p.wave, ∃ job, s.jobs[entry.2]? = some job ∧ job.chunk = entry.1

def ReaderOk (ext : SophonExternals) (nodes : List SophonNode) (contents : Set (List UInt8))
    (s : SophonShared) : SophonReader → Prop
  | .idle => True
  | .reading progress => ProgressOk ext nodes contents s progress
  | .done request result output => ∀ count, result = .ok count →
    ∃ asset, nodes[request.index]?.bind SophonNode.asset = some asset ∧
      count = min request.output.length (asset.size - request.offset) ∧
      output.length = request.output.length ∧
      ∀ plain, Plaintexts ext contents asset plain →
        output.take count = slice plain.flatten request.offset count

structure SophonInv (ext : SophonExternals) (nodes : List SophonNode)
    (contents : Set (List UInt8)) (s : SophonShared) : Prop where
  jobs : ∀ (id : Nat) job, s.jobs[id]? = some job →
    Serves nodes job.asset job.chunk ∧ PlaceOk ext contents s job job.place
  flights : ∀ key owner, s.flights.get key = some owner → HasKey ext s owner key
  results : ∀ owner bytes, s.results owner = some (.ok bytes) →
    ∃ job, s.jobs[owner]? = some job ∧ Genuine ext contents bytes job.chunk
  memory : ∀ key entry, s.memory.entries.get key = some entry →
    GenuineFor ext nodes contents key entry.1
  readers : ∀ reader, ReaderOk ext nodes contents s (s.readers reader)

theorem sophonInv_start (budget : Nat) : SophonInv ext nodes contents (.start budget) where
  jobs := nofun
  flights := nofun
  results := nofun
  memory := nofun
  readers := fun _ => trivial

/-! ## Jobs that stay -/

/-- INTERNAL: every job is still there, for the same chunk. -/
def JobsStay (s s' : SophonShared) : Prop :=
  ∀ (id : Nat) job, s.jobs[id]? = some job →
    ∃ job', s'.jobs[id]? = some job' ∧ job'.asset = job.asset ∧ job'.chunk = job.chunk

theorem hasKey_stay (h : JobsStay s s') (hkey : HasKey ext s id key) : HasKey ext s' id key := by
  obtain ⟨job, hjob, rfl⟩ := hkey
  obtain ⟨job', hjob', hasset, hchunk⟩ := h id job hjob
  refine ⟨job', hjob', ?_⟩
  unfold jobKey
  rw [hasset, hchunk]

theorem placeOk_stay (h : JobsStay s s') {place : JobPlace}
    (hplace : PlaceOk ext contents s job place) : PlaceOk ext contents s' job place := by
  cases place with
  | start => trivial
  | loading => trivial
  | waiting owner => exact hasKey_stay h hplace
  | publishing result => exact hplace
  | finished result => exact hplace

theorem readerOk_stay (h : JobsStay s s') {reader : SophonReader}
    (hreader : ReaderOk ext nodes contents s reader) : ReaderOk ext nodes contents s' reader := by
  cases reader with
  | idle => trivial
  | done request result output => exact hreader
  | reading progress =>
    refine ⟨hreader.asset, hreader.count, hreader.length, hreader.copying, fun entry hentry => ?_⟩
    obtain ⟨job, hjob, hchunk⟩ := hreader.jobs entry hentry
    obtain ⟨job', hjob', -, hsame⟩ := h entry.2 job hjob
    exact ⟨job', hjob', hsame.trans hchunk⟩

/-- INTERNAL: the jobs when one of them has moved. -/
theorem setPlace_jobs (hjob : s.jobs[id]? = some job) (place : JobPlace) (other : Nat) :
    (s.setPlace id job place).jobs[other]? =
      if other = id then some { job with place := place } else s.jobs[other]? := by
  obtain ⟨hlt, -⟩ := List.getElem?_eq_some_iff.mp hjob
  unfold SophonShared.setPlace
  dsimp only
  by_cases heq : other = id
  · rw [if_pos heq, heq, List.getElem?_set_self hlt]
  · rw [if_neg heq, List.getElem?_set_ne (fun h => heq h.symm)]

theorem jobsStay_setPlace (hjob : s.jobs[id]? = some job) (place : JobPlace) :
    JobsStay s (s.setPlace id job place) := by
  intro other old hold
  rw [setPlace_jobs hjob place]
  split_ifs with heq
  · subst heq
    rw [hjob] at hold
    obtain rfl := Option.some.inj hold
    exact ⟨_, rfl, rfl, rfl⟩
  · exact ⟨old, hold, rfl, rfl⟩

/-- INTERNAL: a job moves, and the memory cache, the flights and the results change to ones that
are in order. -/
theorem inv_job (h : SophonInv ext nodes contents s) (hjob : s.jobs[id]? = some job)
    {memory : ByteLru ChunkKey (List UInt8)} {flights : Table ChunkKey Nat}
    {results : Nat → Option ChunkResult} {place : JobPlace}
    (hplace : PlaceOk ext contents s job place)
    (hmemory : ∀ key entry, memory.entries.get key = some entry →
      GenuineFor ext nodes contents key entry.1)
    (hflights : ∀ key owner, flights.get key = some owner → HasKey ext s owner key)
    (hresults : ∀ owner bytes, results owner = some (.ok bytes) →
      ∃ job, s.jobs[owner]? = some job ∧ Genuine ext contents bytes job.chunk) :
    SophonInv ext nodes contents (SophonShared.setPlace
      { s with memory := memory, flights := flights, results := results } id job place) := by
  have hstay : JobsStay s
      ({ s with memory := memory, flights := flights, results := results }.setPlace id job place) :=
    jobsStay_setPlace hjob place
  refine ⟨fun other moved hmoved => ?_, fun key owner howner => hasKey_stay hstay
    (hflights key owner howner), fun owner bytes hbytes => ?_, hmemory,
    fun reader => readerOk_stay hstay (h.readers reader)⟩
  · have hget := setPlace_jobs hjob place other
    change (s.setPlace id job place).jobs[other]? = some moved at hmoved
    rw [hget] at hmoved
    split_ifs at hmoved with heq
    · obtain rfl := Option.some.inj hmoved
      refine ⟨(h.jobs id job hjob).1, ?_⟩
      exact (placeOk_stay hstay hplace : PlaceOk ext contents _ job place)
    · obtain ⟨hserves, hold⟩ := h.jobs other moved hmoved
      exact ⟨hserves, placeOk_stay hstay hold⟩
  · obtain ⟨owned, howned, hgenuine⟩ := hresults owner bytes hbytes
    obtain ⟨job', hjob', -, hchunk⟩ := hstay owner owned howned
    refine ⟨job', hjob', ?_⟩
    rw [hchunk]
    exact hgenuine

/-! ## The memory cache -/

/-- INTERNAL: all entries of a cache have `P`. -/
def EntriesHave (P : ChunkKey → List UInt8 → Prop) (cache : ByteLru ChunkKey (List UInt8)) :
    Prop :=
  ∀ key entry, cache.entries.get key = some entry → P key entry.1

theorem entriesHave_drop (h : EntriesHave P cache) (key : ChunkKey) :
    EntriesHave P (cache.drop key) := by
  unfold ByteLru.drop
  cases cache.entries.get key with
  | none => exact h
  | some entry =>
    intro other found hfound
    change (cache.entries.erase key).get other = some found at hfound
    rw [Table.get_erase] at hfound
    split_ifs at hfound
    exact h other found hfound

theorem entriesHave_evict (hash : HashOrder) (needed : Nat) (rounds : Nat)
    (h : EntriesHave P cache) : EntriesHave P (cache.evict hash needed rounds) := by
  induction rounds generalizing cache with
  | zero => exact h
  | succ rounds ih =>
    unfold ByteLru.evict
    split_ifs
    · exact h
    · split
      · exact h
      · exact ih (entriesHave_drop h _)

theorem entriesHave_insert {hash : HashOrder} (h : EntriesHave P cache) (hbytes : P key bytes) :
    EntriesHave P (cache.insert hash key bytes bytes.length) := by
  unfold ByteLru.insert
  dsimp only
  split_ifs
  · exact h
  · intro other found hfound
    have hrest := entriesHave_evict hash bytes.length
      (cache.entries.size + 1) (entriesHave_drop h key)
    change (Table.set _ key _).get other = some found at hfound
    rw [Table.get_set] at hfound
    split_ifs at hfound with heq
    · subst heq
      obtain rfl := Option.some.inj hfound
      exact hbytes
    · exact hrest other found hfound

theorem get_entries {cache' : ByteLru ChunkKey (List UInt8)}
    (h : cache.get key = some (bytes, cache')) (hP : EntriesHave P cache) :
    P key bytes ∧ EntriesHave P cache' := by
  unfold ByteLru.get at h
  cases hget : cache.entries.get key with
  | none =>
    rw [hget] at h
    cases h
  | some entry =>
    rw [hget] at h
    obtain ⟨rfl, rfl⟩ := Prod.mk.inj (Option.some.inj h)
    refine ⟨hP key entry hget, fun other found hfound => ?_⟩
    change (cache.entries.set key _).get other = some found at hfound
    rw [Table.get_set] at hfound
    split_ifs at hfound with heq
    · subst heq
      obtain rfl := Option.some.inj hfound
      exact hP other entry hget
    · exact hP other found hfound

/-! ## Steps of jobs -/

/-- INTERNAL: bytes of the key of a job are genuine for its chunk. -/
theorem genuine_of_genuineFor (hkeys : KeysDistinct ext nodes)
    (hserves : Serves nodes job.asset job.chunk)
    (h : GenuineFor ext nodes contents (jobKey ext job) bytes) :
    Genuine ext contents bytes job.chunk := by
  obtain ⟨asset, chunk, hother, hkey, hgenuine⟩ := h
  exact genuine_of_key hkeys hother hserves hkey hgenuine

theorem inv_lookChunk (hkeys : KeysDistinct ext nodes) (h : SophonInv ext nodes contents s)
    (hjob : s.jobs[id]? = some job) : SophonInv ext nodes contents (s.look ext id job) := by
  obtain ⟨hserves, -⟩ := h.jobs id job hjob
  unfold SophonShared.look
  dsimp only
  cases hmemory : s.memory.get (chunkKey ext job.asset job.chunk) with
  | some hit =>
    obtain ⟨hbytes, hentries⟩ := get_entries hmemory h.memory
    refine inv_job h hjob ?_ hentries h.flights h.results
    rintro bytes ⟨⟩
    exact genuine_of_genuineFor hkeys hserves hbytes
  | none =>
    dsimp only
    cases hflight : s.flights.get (chunkKey ext job.asset job.chunk) with
    | some owner => exact inv_job h hjob (h.flights _ owner hflight) h.memory h.flights h.results
    | none =>
      refine inv_job h hjob trivial h.memory (fun key owner howner => ?_) h.results
      rw [Table.get_set] at howner
      split_ifs at howner with heq
      · obtain rfl := Option.some.inj howner
        exact ⟨job, hjob, heq.symm⟩
      · exact h.flights key owner howner

theorem inv_wake (hkeys : KeysDistinct ext nodes) (h : SophonInv ext nodes contents s)
    {owner : Nat} (hjob : s.jobs[id]? = some job) (hplace : job.place = .waiting owner)
    (hresult : s.results owner = some result) :
    SophonInv ext nodes contents (s.setPlace id job (.finished result)) := by
  obtain ⟨hserves, hok⟩ := h.jobs id job hjob
  rw [hplace] at hok
  obtain ⟨owned, howned, hkey⟩ := hok
  refine inv_job h hjob ?_ h.memory h.flights h.results
  rintro bytes rfl
  obtain ⟨other, hother, hgenuine⟩ := h.results owner bytes hresult
  rw [howned] at hother
  obtain rfl := Option.some.inj hother
  exact genuine_of_key hkeys (h.jobs owner owned howned).1 hserves hkey hgenuine

theorem inv_load (h : SophonInv ext nodes contents s) {inputs : Option LoadInputs}
    (hjob : s.jobs[id]? = some job)
    (hloads : ∀ bytes, SophonShared.loaded ext job.chunk inputs = .ok bytes → bytes ∈ contents) :
    SophonInv ext nodes contents
      (s.setPlace id job (.publishing (SophonShared.loaded ext job.chunk inputs))) := by
  refine inv_job h hjob (fun bytes hbytes => ⟨hloads bytes hbytes, ?_⟩) h.memory h.flights h.results
  unfold SophonShared.loaded at hbytes
  cases inputs with
  | none => cases hbytes
  | some inputs => exact loadChunk_verified hbytes

theorem inv_publish (h : SophonInv ext nodes contents s) {hash : HashOrder}
    (hjob : s.jobs[id]? = some job) (hplace : job.place = .publishing result) :
    SophonInv ext nodes contents (s.publish ext hash id job result) := by
  obtain ⟨hserves, hok⟩ := h.jobs id job hjob
  rw [hplace] at hok
  refine inv_job h hjob hok ?_ (fun key owner howner => ?_) fun owner bytes hbytes => ?_
  · cases result with
    | error e => exact h.memory
    | ok bytes =>
      exact entriesHave_insert h.memory ⟨job.asset, job.chunk, hserves, rfl, hok bytes rfl⟩
  · rw [Table.get_erase] at howner
    split_ifs at howner
    exact h.flights key owner howner
  · rw [Function.update_apply] at hbytes
    split_ifs at hbytes with heq
    · obtain rfl := Option.some.inj hbytes
      subst heq
      exact ⟨job, hjob, hok bytes rfl⟩
    · exact h.results owner bytes hbytes

theorem inv_fail (h : SophonInv ext nodes contents s) (hjob : s.jobs[id]? = some job)
    (status : MirageStatus) :
    SophonInv ext nodes contents (s.setPlace id job (.finished (.error status))) :=
  inv_job h hjob nofun h.memory h.flights h.results

/-! ## Steps of readers -/

theorem inv_setReader (h : SophonInv ext nodes contents s) (reader : Nat) {state : SophonReader}
    (hstate : ReaderOk ext nodes contents s state) :
    SophonInv ext nodes contents (s.setReader reader state) := by
  have hstay : JobsStay s (s.setReader reader state) := fun _ job hjob => ⟨job, hjob, rfl, rfl⟩
  refine ⟨h.jobs, h.flights, h.results, h.memory, fun other => readerOk_stay hstay ?_⟩
  change ReaderOk ext nodes contents s (Function.update s.readers reader state other)
  rw [Function.update_apply]
  split_ifs
  · exact hstate
  · exact h.readers other

theorem readerOk_read (htiled : ∀ node ∈ nodes, ∀ asset, node.asset = some asset →
      Tiled 0 asset.chunks asset.size) (request : ReadRequest) :
    ReaderOk ext nodes contents s (SophonShared.read nodes request) := by
  unfold SophonShared.read
  cases hasset : nodes[request.index]?.bind SophonNode.asset with
  | none => nofun
  | some asset =>
    dsimp only
    split_ifs with hempty
    · rintro _ ⟨⟩
      refine ⟨asset, hasset, ?_, rfl, fun plain _ => ?_⟩
      · rcases hempty with hpast | hnone
        · omega
        · rw [hnone]
          rfl
      · rw [slice_zero, List.take_zero]
    · obtain ⟨hinside, hroom⟩ := not_or.mp hempty
      have hlength : 0 < request.output.length := List.length_pos_iff.mpr hroom
      obtain ⟨node, hnode, hsome⟩ := Option.bind_eq_some_iff.mp hasset
      have hcopying : Copying ext contents asset request.offset
          (request.offset + min (asset.size - request.offset) request.output.length) _
          request.output :=
        copying_start (htiled node (List.mem_of_getElem? hnode) asset hsome) (by omega) (by omega)
          (by omega)
      exact ⟨hasset, Nat.min_comm _ _, rfl, hcopying, nofun⟩

/-- INTERNAL: new jobs are put behind the others. -/
theorem inv_spawnJobs (h : SophonInv ext nodes contents s) {chunks : List SophonChunk}
    (hserves : ∀ chunk ∈ chunks, Serves nodes asset chunk) :
    SophonInv ext nodes contents
        { s with jobs := s.jobs ++ chunks.map (ChunkJob.mk asset · .start) } ∧
      JobsStay s { s with jobs := s.jobs ++ chunks.map (ChunkJob.mk asset · .start) } := by
  have hstay : JobsStay s
      { s with jobs := s.jobs ++ chunks.map (ChunkJob.mk asset · .start) } := by
    intro id job hjob
    obtain ⟨hlt, -⟩ := List.getElem?_eq_some_iff.mp hjob
    exact ⟨job, (List.getElem?_append_left hlt).trans hjob, rfl, rfl⟩
  refine ⟨⟨fun id job hjob => ?_, fun key owner howner => hasKey_stay hstay
      (h.flights key owner howner), fun owner bytes hbytes => ?_, h.memory,
    fun reader => readerOk_stay hstay (h.readers reader)⟩, hstay⟩
  · change (s.jobs ++ chunks.map (ChunkJob.mk asset · .start))[id]? = some job at hjob
    by_cases hlt : id < s.jobs.length
    · rw [List.getElem?_append_left hlt] at hjob
      obtain ⟨hold, hplace⟩ := h.jobs id job hjob
      exact ⟨hold, placeOk_stay hstay hplace⟩
    · rw [List.getElem?_append_right (Nat.le_of_not_lt hlt)] at hjob
      obtain ⟨chunk, hchunk, rfl⟩ := List.mem_map.mp (List.mem_of_getElem? hjob)
      exact ⟨hserves chunk hchunk, trivial⟩
  · obtain ⟨owned, howned, hgenuine⟩ := h.results owner bytes hbytes
    obtain ⟨job', hjob', -, hchunk⟩ := hstay owner owned howned
    refine ⟨job', hjob', ?_⟩
    rw [hchunk]
    exact hgenuine

theorem inv_wave (h : SophonInv ext nodes contents s) {reader : Nat} {progress : ReadProgress}
    (hprogress : ProgressOk ext nodes contents s progress) (hnone : progress.wave = []) :
    SophonInv ext nodes contents (s.wave reader progress) := by
  have hcopying := hprogress.copying
  rw [hnone, List.map_nil, List.nil_append] at hcopying
  unfold SophonShared.wave
  cases hrest : progress.rest with
  | nil =>
    rw [hrest] at hcopying
    refine inv_setReader h reader ?_
    rintro _ ⟨⟩
    refine ⟨progress.asset, hprogress.asset, hprogress.count, hprogress.length, ?_⟩
    intro plain hplain
    have hend := copying_end hcopying hplain
    rwa [Nat.add_sub_cancel_left] at hend
  | cons first others =>
    dsimp only
    rw [← hrest]
    have hserves : ∀ chunk ∈ progress.rest.take 4, Serves nodes progress.asset chunk := by
      intro chunk hchunk
      obtain ⟨node, hnode, hasset⟩ := Option.bind_eq_some_iff.mp hprogress.asset
      obtain ⟨before, after, -, -, hsplit, -⟩ := hcopying.split
      refine ⟨⟨node, List.mem_of_getElem? hnode, hasset⟩, ?_⟩
      rw [hsplit]
      exact List.mem_append_right _ (List.mem_append_left _ (List.mem_of_mem_take hchunk))
    obtain ⟨hinv, -⟩ := inv_spawnJobs h hserves
    refine inv_setReader hinv reader ⟨hprogress.asset, hprogress.count, hprogress.length, ?_, ?_⟩
    · change Copying ext contents progress.asset _ _
        (((progress.rest.take 4).zipIdx s.jobs.length).map Prod.fst ++ progress.rest.drop 4) _
      rw [List.zipIdx_map_fst, List.take_append_drop]
      exact hcopying
    · rintro ⟨chunk, id⟩ hentry
      obtain ⟨hge, hlt, hchunk⟩ := List.mem_zipIdx hentry
      refine ⟨⟨progress.asset, chunk, .start⟩, ?_, rfl⟩
      change (s.jobs ++ (progress.rest.take 4).map (ChunkJob.mk progress.asset · .start))[id]? = _
      rw [List.getElem?_append_right hge, List.getElem?_map, List.getElem?_eq_getElem (by omega),
        ← hchunk]
      rfl

/-- INTERNAL: the chunks of a wave are copied one behind the other. -/
theorem copying_wave (hmd5 : Set.InjOn ext.md5 contents) {offset finish : Nat}
    {results : List (SophonChunk × ChunkResult)} {rest : List SophonChunk}
    {output output' : List UInt8}
    (h : Copying ext contents asset offset finish (results.map Prod.fst ++ rest) output)
    (hresults : ∀ entry ∈ results, ∀ bytes, entry.2 = .ok bytes →
      Genuine ext contents bytes entry.1)
    (hcopy : copyWave offset finish output results = (output', .ok ())) :
    Copying ext contents asset offset finish rest output' ∧ output'.length = output.length := by
  induction results generalizing output with
  | nil =>
    obtain rfl := congrArg Prod.fst hcopy
    exact ⟨h, rfl⟩
  | cons entry results ih =>
    obtain ⟨chunk, result⟩ := entry
    cases result with
    | error e => cases congrArg Prod.snd hcopy
    | ok bytes =>
      obtain ⟨hnext, hlength⟩ := copying_chunk hmd5 h
        (hresults (chunk, .ok bytes) List.mem_cons_self bytes rfl)
      obtain ⟨hlast, hsame⟩ := ih hnext
        (fun other hother => hresults other (List.mem_cons_of_mem _ hother)) hcopy
      exact ⟨hlast, hsame.trans hlength⟩

theorem resultOf_some (h : s.resultOf id = some result) :
    ∃ job, s.jobs[id]? = some job ∧ job.place = .finished result := by
  unfold SophonShared.resultOf at h
  split at h
  · rename_i hjob
    obtain rfl := Option.some.inj h
    exact ⟨_, hjob, rfl⟩
  · cases h

theorem wave_results {wave : List (SophonChunk × Nat)} {results : List (SophonChunk × ChunkResult)}
    (h : wave.mapM (fun entry => (s.resultOf entry.2).map fun result => (entry.1, result)) =
      some results) :
    results.map Prod.fst = wave.map Prod.fst ∧
      ∀ entry ∈ results, ∃ id, (entry.1, id) ∈ wave ∧ s.resultOf id = some entry.2 := by
  induction wave generalizing results with
  | nil =>
    obtain rfl := Option.some.inj h
    exact ⟨rfl, nofun⟩
  | cons entry rest ih =>
    rw [List.mapM_cons] at h
    obtain ⟨first, hfirst, h⟩ := Option.bind_eq_some_iff.mp h
    obtain ⟨others, hothers, h⟩ := Option.bind_eq_some_iff.mp h
    obtain rfl := Option.some.inj h
    obtain ⟨result, hresult, rfl⟩ := Option.map_eq_some_iff.mp hfirst
    obtain ⟨hmap, hall⟩ := ih hothers
    refine ⟨by rw [List.map_cons, List.map_cons, hmap], fun other hother => ?_⟩
    rcases List.mem_cons.mp hother with rfl | hlater
    · exact ⟨entry.2, List.mem_cons_self, hresult⟩
    · obtain ⟨id, hid, hsome⟩ := hall other hlater
      exact ⟨id, List.mem_cons_of_mem _ hid, hsome⟩

theorem inv_gather (hmd5 : Set.InjOn ext.md5 contents) (h : SophonInv ext nodes contents s)
    {reader : Nat} {progress : ReadProgress}
    (hprogress : ProgressOk ext nodes contents s progress)
    (hgather : s.gather reader progress = some s') : SophonInv ext nodes contents s' := by
  obtain ⟨results, hresults, rfl⟩ := Option.map_eq_some_iff.mp hgather
  obtain ⟨hchunks, hall⟩ := wave_results hresults
  have hgenuine : ∀ entry ∈ results, ∀ bytes, entry.2 = .ok bytes →
      Genuine ext contents bytes entry.1 := by
    intro entry hentry bytes hbytes
    obtain ⟨id, hwave, hresult⟩ := hall entry hentry
    obtain ⟨job, hjob, hplace⟩ := resultOf_some hresult
    obtain ⟨other, hother, hchunk⟩ := hprogress.jobs (entry.1, id) hwave
    rw [hjob] at hother
    obtain rfl := Option.some.inj hother
    have hok := (h.jobs id job hjob).2
    rw [hplace] at hok
    rw [← hchunk]
    exact hok bytes hbytes
  have hcopying := hprogress.copying
  rw [← hchunks] at hcopying
  split
  · exact inv_setReader h reader nofun
  · rename_i output _ hcopy
    obtain ⟨hcopied, hlength⟩ := copying_wave hmd5 hcopying hgenuine hcopy
    exact inv_setReader h reader ⟨hprogress.asset, hprogress.count, hlength.trans hprogress.length,
      hcopied, nofun⟩

/-! ## Runs -/

theorem inv_sophon_step (hmd5 : Set.InjOn ext.md5 contents) (hkeys : KeysDistinct ext nodes)
    (htiled : ∀ node ∈ nodes, ∀ asset, node.asset = some asset →
      Tiled 0 asset.chunks asset.size)
    (h : SophonInv ext nodes contents s) {act : SophonAct} (hloads : LoadsFrom ext contents s act)
    (hstep : s.step ext nodes act = some s') : SophonInv ext nodes contents s' := by
  cases act with
  | read reader request =>
    simp only [SophonShared.step] at hstep
    split at hstep
    · obtain rfl := Option.some.inj hstep
      exact inv_setReader h reader (readerOk_read htiled request)
    · cases hstep
  | wave reader =>
    simp only [SophonShared.step] at hstep
    split at hstep
    · rename_i progress hreader
      split_ifs at hstep with hnone
      obtain rfl := Option.some.inj hstep
      have hok := h.readers reader
      rw [hreader] at hok
      exact inv_wave h hok hnone
    · cases hstep
  | gather reader =>
    simp only [SophonShared.step] at hstep
    split at hstep
    · rename_i progress hreader
      have hok := h.readers reader
      rw [hreader] at hok
      exact inv_gather hmd5 h hok hstep
    · cases hstep
  | look id =>
    simp only [SophonShared.step] at hstep
    split at hstep
    · rename_i hjob
      obtain rfl := Option.some.inj hstep
      exact inv_lookChunk hkeys h hjob
    · cases hstep
  | wake id =>
    simp only [SophonShared.step] at hstep
    split at hstep
    · rename_i hjob
      obtain ⟨result, hresult, rfl⟩ := Option.map_eq_some_iff.mp hstep
      exact inv_wake hkeys h hjob rfl hresult
    · cases hstep
  | load id inputs =>
    simp only [SophonShared.step] at hstep
    split at hstep
    · rename_i hjob
      obtain rfl := Option.some.inj hstep
      exact inv_load h hjob fun bytes hbytes => hloads _ bytes hjob hbytes
    · cases hstep
  | publish id hash =>
    simp only [SophonShared.step] at hstep
    split at hstep
    · rename_i hjob
      obtain rfl := Option.some.inj hstep
      exact inv_publish h hjob rfl
    · cases hstep
  | fail id status =>
    obtain ⟨job, hjob, rfl⟩ := Option.map_eq_some_iff.mp hstep
    exact inv_fail h hjob status

/-- INTERNAL: the reads of an accepted source, with any number of readers at any stage and
whatever the caches, the seeds and the server hold.
SRCLINE: mirage-ffi/src/sophon.rs:158-620 -/
theorem sophon_reads_exact {config : SophonConfig} (hopen : openNodes ext config = .ok nodes)
    (hmd5 : Set.InjOn ext.md5 contents) (hkeys : KeysDistinct ext nodes)
    (run : SophonReaches ext nodes config.memoryBudgetBytes contents s) :
    ReadsExact ext nodes contents s := by
  have hinv : SophonInv ext nodes contents s := by
    induction run with
    | start => exact sophonInv_start _
    | step _ act loads next ih =>
      exact inv_sophon_step hmd5 hkeys (fun node hnode asset => tiled_of_open hopen hnode) ih loads
        next
  intro reader request count output hdone
  have hreader := hinv.readers reader
  rw [hdone] at hreader
  exact hreader count rfl

/-! ## A read across two chunks -/

/-- INTERNAL: acts one after another, whose loads find known bytes only. -/
def playReads (ext : SophonExternals) (nodes : List SophonNode) (known : List (List UInt8)) :
    List SophonAct → SophonShared → Option SophonShared
  | [], s => some s
  | .load id inputs :: rest, s =>
    if ((s.jobs[id]?).all fun job =>
        (SophonShared.loaded ext job.chunk inputs).toOption.all (· ∈ known)) = true then
      (s.step ext nodes (.load id inputs)).bind (playReads ext nodes known rest)
    else none
  | act :: rest, s => (s.step ext nodes act).bind (playReads ext nodes known rest)

theorem reaches_of_playReads {budget : Nat} {known : List (List UInt8)} {acts : List SophonAct}
    (run : SophonReaches ext nodes budget { bytes | bytes ∈ known } s)
    (hplay : playReads ext nodes known acts s = some s') :
    SophonReaches ext nodes budget { bytes | bytes ∈ known } s' := by
  induction acts generalizing s with
  | nil =>
    obtain rfl := Option.some.inj hplay
    exact run
  | cons act rest ih =>
    by_cases hload : ∃ id inputs, act = .load id inputs
    · obtain ⟨id, inputs, rfl⟩ := hload
      obtain ⟨hknown, hplay⟩ := Option.ite_none_right_eq_some.mp hplay
      obtain ⟨next, hnext, hrest⟩ := Option.bind_eq_some_iff.mp hplay
      refine ih (run.step (.load id inputs) (fun job bytes hjob hbytes => ?_) hnext) hrest
      rw [hjob, Option.all_some, hbytes] at hknown
      exact of_decide_eq_true hknown
    · have hplay' : (s.step ext nodes act).bind (playReads ext nodes known rest) = some s' := by
        cases act with
        | load id inputs => exact absurd ⟨id, inputs, rfl⟩ hload
        | _ => exact hplay
      obtain ⟨next, hnext, hrest⟩ := Option.bind_eq_some_iff.mp hplay'
      refine ih (run.step act ?_ hnext) hrest
      cases act with
      | load id inputs => exact absurd ⟨id, inputs, rfl⟩ hload
      | _ => trivial

/-- INTERNAL: digests and keys that tell short byte strings and texts apart by their ends. -/
def shortExternals : SophonExternals where
  md5 bytes := (bytes ++ List.replicate 16 0).take 16
  blake3 text :=
    ⟨List.replicate 32 (UInt8.ofNat (text.toList.getLastD 'a').toNat), List.length_replicate⟩
  lowercase text := text
  urlAccepted := fun _ => true
  zstd := some

def twoChunkAsset : SophonAsset :=
  ⟨"a", 3, "00000000000000000000000000000000",
    [⟨"a1", "01000000000000000000000000000000", 0, 5, 1⟩,
      ⟨"a2", "02030000000000000000000000000000", 1, 5, 2⟩], ""⟩

def oneAssetConfig : SophonConfig := ⟨[⟨"https://host/", [twoChunkAsset]⟩], [], ["a"], 16⟩

def oneAssetNodes : List SophonNode :=
  [⟨"", none⟩, ⟨"a", some { twoChunkAsset with urlPrefix := "https://host" }⟩]

/-- INTERNAL: two bytes are read from the disk cache and a seed. -/
def readTwoBytes : List SophonAct :=
  [.read 0 ⟨1, 0, [9, 9]⟩, .wave 0, .look 0, .look 1, .load 0 (some ⟨some [1], [], none⟩),
    .load 1 (some ⟨none, [some [7, 2, 3]], none⟩), .publish 1 plainOrder,
    .publish 0 plainOrder, .gather 0, .wave 0]

theorem keysDistinct_oneAsset : KeysDistinct shortExternals oneAssetNodes := by
  have hchunks : ∀ asset chunk, Serves oneAssetNodes asset chunk →
      asset = { twoChunkAsset with urlPrefix := "https://host" } ∧
        chunk ∈ twoChunkAsset.chunks := by
    rintro asset chunk ⟨⟨node, hnode, hasset⟩, hchunk⟩
    rcases List.mem_cons.mp hnode with rfl | hnode
    · cases hasset
    · rw [List.mem_singleton.mp hnode] at hasset
      obtain rfl := Option.some.inj hasset
      exact ⟨rfl, hchunk⟩
  have hall : ∀ chunk ∈ twoChunkAsset.chunks, ∀ chunk' ∈ twoChunkAsset.chunks,
      chunkKey shortExternals { twoChunkAsset with urlPrefix := "https://host" } chunk =
        chunkKey shortExternals { twoChunkAsset with urlPrefix := "https://host" } chunk' →
      chunk = chunk' := by
    decide +kernel
  intro asset chunk asset' chunk' hserves hserves' hkey
  obtain ⟨rfl, hchunk⟩ := hchunks asset chunk hserves
  obtain ⟨rfl, hchunk'⟩ := hchunks asset' chunk' hserves'
  rw [hall chunk hchunk chunk' hchunk' hkey]

/-- INTERNAL: a read across two chunks. -/
theorem two_bytes_read :
    ∃ s, SophonReaches shortExternals oneAssetNodes 16 { bytes | bytes ∈ [[1], [2, 3]] } s ∧
      s.readers 0 = .done ⟨1, 0, [9, 9]⟩ (.ok 2) [1, 2] ∧
      ReadsExact shortExternals oneAssetNodes { bytes | bytes ∈ [[1], [2, 3]] } s := by
  have hplay : (playReads shortExternals oneAssetNodes [[1], [2, 3]] readTwoBytes
      (.start 16)).any (fun s => s.readers 0 = .done ⟨1, 0, [9, 9]⟩ (.ok 2) [1, 2]) = true := by
    decide +kernel
  obtain ⟨s, hs, hcheck⟩ := (Option.any_eq_true _ _).mp hplay
  have run := reaches_of_playReads .start hs
  have hmd5 : Set.InjOn shortExternals.md5 { bytes | bytes ∈ [[1], [2, 3]] } := by
    have hall : ∀ a ∈ [[1], [2, 3]], ∀ b ∈ [[1], [2, 3]],
        shortExternals.md5 a = shortExternals.md5 b → a = b := by
      decide +kernel
    exact fun a ha b hb => hall a ha b hb
  have hopen : openNodes shortExternals oneAssetConfig = .ok oneAssetNodes := by
    decide +kernel
  exact ⟨s, run, of_decide_eq_true hcheck, sophon_reads_exact hopen hmd5 keysDistinct_oneAsset run⟩

end Mirage.Analysis
