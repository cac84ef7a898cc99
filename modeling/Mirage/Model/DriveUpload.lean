import Mathlib.Data.List.DropRight
import Mirage.Computation.FallibleCalls
import Mirage.Model.Namespace

/-!
# Uploads to the drive

`upload_stream` of `mirage-backend-drive/src/upload.rs` over the resumable sessions of
`resumable.rs` and the byte streams of `mirage-backend/src/object.rs`.  The upload is a program of
requests, and the transport decides what a request returns.  The JSON of the requests and the
responses is read and written by a `DriveCodec`.
-/

set_option autoImplicit false

namespace Mirage.Model.Drive

open Mirage.Computation

/-! ## Errors -/

/-- INTERNAL: SRCLINE: mirage-backend/src/error.rs:11-20 -/
inductive BackendErrorClass where
  | authentication
  | permission
  | rateLimit
  | missing
  | transientTransport
  | integrity
  | unsupported
  | permanent
  deriving DecidableEq, Repr

/-- INTERNAL: the delay is in seconds.
SRCLINE: mirage-backend/src/error.rs:24-29 -/
structure BackendError where
  errorClass : BackendErrorClass
  safeMessage : String
  retryAfter : Option Nat
  deriving DecidableEq, Repr

def BackendError.new (errorClass : BackendErrorClass) (safeMessage : String) : BackendError :=
  ⟨errorClass, safeMessage, none⟩

def BackendError.integrity (safeMessage : String) : BackendError := .new .integrity safeMessage

def BackendError.permanent (safeMessage : String) : BackendError := .new .permanent safeMessage

/-! ## Texts -/

def isDecimalDigit (c : Char) : Bool := '0' ≤ c && c ≤ '9'

/-- INTERNAL: `parse::<u64>` takes a plus sign and digits, and refuses what does not fit. -/
def parseU64 (text : List Char) : Option Nat :=
  let digits := match text with
    | '+' :: rest => rest
    | _ => text
  if digits = [] ∨ ¬ digits.all isDecimalDigit then none
  else
    let value := digits.foldl (fun value c => 10 * value + (c.toNat - '0'.toNat)) 0
    if value ≤ u64Max then some value else none

/-- INTERNAL: the characters with the property `White_Space`. -/
def isRustWhitespace (c : Char) : Bool :=
  (9 ≤ c.toNat && c.toNat ≤ 13) || (0x2000 ≤ c.toNat && c.toNat ≤ 0x200a) ||
    c.toNat ∈ [0x20, 0x85, 0xa0, 0x1680, 0x2028, 0x2029, 0x202f, 0x205f, 0x3000]

def trimText (text : List Char) : List Char :=
  (text.dropWhile isRustWhitespace).rdropWhile isRustWhitespace

/-! ## Requests and responses -/

/-- INTERNAL: SRCLINE: mirage-backend-drive/src/http.rs:8-13 -/
inductive Method where
  | get
  | post
  | put
  | delete
  deriving DecidableEq, Repr

/-- INTERNAL: SRCLINE: mirage-backend-drive/src/http.rs:16-21 -/
structure HttpRequest where
  method : Method
  url : String
  headers : List (String × String)
  body : List UInt8
  deriving DecidableEq, Repr

/-- INTERNAL: SRCLINE: mirage-backend-drive/src/http.rs:48-52 -/
structure HttpResponse where
  status : Nat
  headers : List (String × String)
  body : List UInt8
  deriving DecidableEq, Repr

/-- INTERNAL: SRCLINE: mirage-backend-drive/src/http.rs:55-60 -/
def HttpResponse.header (response : HttpResponse) (name : String) : Option String :=
  (response.headers.find? fun header =>
    header.1.toList.map Char.toLower = name.toList.map Char.toLower).map Prod.snd

/-- INTERNAL: the body read in lower case holds an ASCII text. -/
def bodyContains (body : List UInt8) (text : String) : Bool :=
  let lower := body.map fun byte => if 65 ≤ byte ∧ byte ≤ 90 then byte + 32 else byte
  lower.tails.any fun rest => (text.toList.map fun c => UInt8.ofNat c.toNat).isPrefixOf rest

/-- INTERNAL: SRCLINE: mirage-backend-drive/src/error.rs:7-25 -/
def responseClass (response : HttpResponse) : BackendErrorClass :=
  if response.status = 401 then .authentication
  else if response.status = 403 then
    if bodyContains response.body "ratelimit" || bodyContains response.body "quota" ||
        bodyContains response.body "userratelimitexceeded" then .rateLimit
    else .permission
  else if response.status = 404 then .missing
  else if response.status = 429 then .rateLimit
  else if response.status = 408 ∨ 500 ≤ response.status ∧ response.status ≤ 599 then
    .transientTransport
  else .permanent

/-- INTERNAL: SRCLINE: mirage-backend-drive/src/error.rs:5-42 -/
def classifyResponse (response : HttpResponse) : BackendError where
  errorClass := responseClass response
  safeMessage := "Drive request failed with HTTP " ++ toString response.status
  retryAfter :=
    if responseClass response = .rateLimit ∨ responseClass response = .transientTransport then
      ((response.header "retry-after").bind fun value => parseU64 (trimText value.toList)).filter
        fun seconds => seconds ≤ 86400
    else none

/-! ## Byte streams -/

/-- INTERNAL: `inner` is what the wrapped stream still produces.
SRCLINE: mirage-backend/src/object.rs:156-160 -/
structure BackendByteStream where
  inner : List (Except BackendError (List UInt8))
  remaining : Nat
  finished : Bool

/-- INTERNAL: SRCLINE: mirage-backend/src/object.rs:214-254 -/
def BackendByteStream.pollNext (stream : BackendByteStream) :
    Option (Except BackendError (List UInt8)) × BackendByteStream :=
  if stream.finished then (none, stream)
  else match stream.inner with
    | .ok chunk :: rest =>
      if chunk.length = 0 then
        (some (.error (.integrity "backend produced an empty stream chunk")),
          { stream with inner := rest, finished := true })
      else if stream.remaining < chunk.length then
        (some (.error (.integrity "backend produced more bytes than declared")),
          { stream with inner := rest, finished := true })
      else
        (some (.ok chunk), { stream with
          inner := rest
          remaining := stream.remaining - chunk.length })
    | .error error :: rest => (some (.error error), { stream with inner := rest, finished := true })
    | [] =>
      if stream.remaining = 0 then (none, { stream with finished := true })
      else
        (some (.error (.integrity "backend stream ended before its declared length")),
          { stream with finished := true })

/-- INTERNAL: how often the stream is still polled at most. -/
def BackendByteStream.measure (stream : BackendByteStream) : Nat :=
  if stream.finished then 0 else stream.inner.length + 1

theorem BackendByteStream.pollNext_measure {stream next : BackendByteStream}
    {item : Except BackendError (List UInt8)} (h : stream.pollNext = (some item, next)) :
    next.measure < stream.measure := by
  unfold pollNext at h
  by_cases hfinished : stream.finished = true
  · rw [if_pos hfinished] at h
    cases h
  rw [if_neg hfinished] at h
  have hopen : stream.measure = stream.inner.length + 1 := by
    rw [measure, if_neg hfinished]
  split at h
  · rename_i hinner
    split_ifs at h
    all_goals
      cases h
      rw [hopen, hinner]
      simp [measure, hfinished]
  · rename_i hinner
    cases h
    rw [hopen]
    simp [measure]
  · split at h
    · cases h
    · cases h
      rw [hopen]
      simp [measure]

/-- INTERNAL: what a reader of the stream gets, one item after another. -/
def BackendByteStream.items (stream : BackendByteStream) :
    List (Except BackendError (List UInt8)) :=
  match _h : stream.pollNext with
  | (none, _) => []
  | (some item, next) => item :: next.items
termination_by stream.measure
decreasing_by exact pollNext_measure _h

/-- INTERNAL: SRCLINE: mirage-backend/src/object.rs:298-326 -/
structure UploadSource where
  length : Nat
  stream : BackendByteStream
  length_eq : length = stream.remaining
  fits : length ≤ u64Max

/-! ## Resumable sessions -/

/-- INTERNAL: SRCLINE: mirage-backend-drive/src/resumable.rs:7 -/
def chunkAlignment : Nat := 256 * 1024

/-- INTERNAL: SRCLINE: mirage-backend-drive/src/resumable.rs:10-14 -/
structure ResumableSession where
  uri : String
  committed : Nat
  total : Nat
  deriving DecidableEq, Repr

/-- INTERNAL: SRCLINE: mirage-backend-drive/src/metadata.rs:13-18 -/
structure DriveFile where
  id : String
  size : Option String
  md5Checksum : Option String
  headRevisionId : Option String
  deriving DecidableEq, Repr

/-- INTERNAL: SRCLINE: mirage-backend-drive/src/metadata.rs:21-26 -/
structure CompletedUpload where
  fileId : String
  revision : Option String
  size : Nat
  md5Checksum : Option String
  deriving DecidableEq, Repr

/-- INTERNAL: the JSON of the requests and of the responses. -/
structure DriveCodec where
  writeMetadata : String → List (String × String) → Option (List UInt8)
  readFile : List UInt8 → Option DriveFile

/-- INTERNAL: `opaque_string_id!` with its bound on the bytes.
SRCLINE: mirage-backend/src/object.rs:19-28 -/
def opaqueText (maximum : Nat) (value : String) : Option String :=
  if value.toList = [] ∨ maximum < value.utf8ByteSize ∨ value.toList.any isControl then none
  else some value

/-- INTERNAL: SRCLINE: mirage-backend-drive/src/metadata.rs:30-50 -/
def CompletedUpload.tryFrom (value : DriveFile) : Except BackendError CompletedUpload := do
  let size ← someOr value.size (.integrity "Drive upload response omitted size")
  let size ← someOr (parseU64 size.toList)
    (.integrity "Drive upload response contained invalid size")
  let fileId ← someOr (opaqueText 1024 value.id)
    (.integrity "Drive upload response contained invalid file ID")
  let revision ← match value.headRevisionId with
    | none => .ok none
    | some revision =>
      (someOr (opaqueText 512 revision)
        (.integrity "Drive upload response contained invalid revision")).map some
  pure ⟨fileId, revision, size, value.md5Checksum⟩

/-- INTERNAL: a program of requests. -/
abbrev Upload := Calls HttpRequest (fun _ => HttpResponse) BackendError

/-- INTERNAL: SRCLINE: mirage-backend-drive/src/resumable.rs:31-43 -/
def startRequest (accessToken : String) (body : List UInt8) (total : Nat) : HttpRequest where
  method := .post
  url := "https://www.googleapis.com/upload/drive/v3/files?uploadType=resumable" ++
    "&fields=id,size,md5Checksum,headRevisionId"
  headers := [("authorization", "Bearer " ++ accessToken),
    ("content-type", "application/json; charset=UTF-8"),
    ("x-upload-content-length", toString total),
    ("x-upload-content-type", "application/octet-stream")]
  body := body

/-- INTERNAL: SRCLINE: mirage-backend-drive/src/resumable.rs:16-57 -/
def Resumable.start (codec : DriveCodec) (accessToken name : String)
    (properties : List (String × String)) (total : Nat) : Upload ResumableSession := do
  Calls.compute (ensure (total ≠ 0) (.permanent "empty Drive objects are forbidden"))
  let body ← Calls.compute (someOr (codec.writeMetadata name properties)
    (.permanent "Drive metadata serialization failed"))
  let response ← Calls.call (startRequest accessToken body total)
  Calls.compute (ensure (response.status = 200) (classifyResponse response))
  let uri ← Calls.compute (someOr
    ((response.header "location").filter fun value => "https://".toList.isPrefixOf value.toList)
    (.integrity "Drive omitted a secure resumable session URI"))
  pure ⟨uri, 0, total⟩

/-- INTERNAL: SRCLINE: mirage-backend-drive/src/resumable.rs:153-171 -/
def parseCommitted (range : Option String) (total : Nat) : Except BackendError Nat :=
  match range with
  | none => .ok 0
  | some value => do
    ensure ("bytes=0-".toList.isPrefixOf value.toList)
      (.integrity "Drive returned invalid resumable Range")
    let stop ← someOr (parseU64 (value.toList.drop "bytes=0-".toList.length))
      (.integrity "Drive returned invalid resumable Range")
    let committed ← someOr (checkedAdd stop 1) (.integrity "Drive resumable offset overflow")
    ensure (committed ≤ total) (.integrity "Drive resumable offset exceeds object")
    pure committed

/-- INTERNAL: SRCLINE: mirage-backend-drive/src/resumable.rs:108-124 -/
def putRequest (session : ResumableSession) (bytes : List UInt8) : HttpRequest where
  method := .put
  url := session.uri
  headers := [("content-length", toString bytes.length),
    ("content-range", "bytes " ++ toString session.committed ++ "-" ++
      toString (session.committed + bytes.length - 1) ++ "/" ++ toString session.total)]
  body := bytes

/-- INTERNAL: what is made of the response to a piece.
SRCLINE: mirage-backend-drive/src/resumable.rs:125-150 -/
def readConfirmation (codec : DriveCodec) (session : ResumableSession) (endExclusive : Nat)
    (response : HttpResponse) :
    Except BackendError (Option CompletedUpload × ResumableSession) :=
  if response.status = 308 then do
    let confirmed ← parseCommitted (response.header "range") session.total
    ensure (confirmed = endExclusive) (.integrity "Drive confirmed an unexpected upload offset")
    pure (none, { session with committed := confirmed })
  else if response.status = 200 ∨ response.status = 201 then do
    ensure (endExclusive = session.total)
      (.integrity "Drive completed upload before all bytes were sent")
    let file ← someOr (codec.readFile response.body)
      (.integrity "Drive upload completion metadata was invalid")
    let completed ← CompletedUpload.tryFrom file
    ensure (completed.size = session.total) (.integrity "Drive completed upload with wrong size")
    pure (some completed, { session with committed := session.total })
  else .error (classifyResponse response)

/-- INTERNAL: the session is returned as it stands afterwards.
SRCLINE: mirage-backend-drive/src/resumable.rs:87-153 -/
def Resumable.uploadChunk (codec : DriveCodec) (session : ResumableSession) (bytes : List UInt8) :
    Upload (Option CompletedUpload × ResumableSession) := do
  Calls.compute (ensure (bytes ≠ [] ∧ session.committed < session.total)
    (.permanent "invalid resumable upload chunk"))
  let endExclusive ← Calls.compute (someOr (checkedAdd session.committed bytes.length)
    (.permanent "upload offset overflow"))
  Calls.compute (ensure
    (endExclusive ≤ session.total ∧ (endExclusive < session.total → chunkAlignment ∣ bytes.length))
    (.permanent "Drive upload chunk is misaligned or oversized"))
  let response ← Calls.call (putRequest session bytes)
  Calls.compute (readConfirmation codec session endExclusive response)

/-! ## Streaming uploads -/

/-- INTERNAL: SRCLINE: mirage-backend-drive/src/upload.rs:13 -/
def uploadChunkBytes : Nat := chunkAlignment * 128

/-- INTERNAL: the variables of the loop; the hasher is the bytes that it was given. -/
structure UploadState where
  session : ResumableSession
  hashed : List UInt8
  buffered : List UInt8
  completed : Option CompletedUpload

/-- INTERNAL: a piece was taken from the buffer and sent. -/
def UploadState.sent (state : UploadState) (length : Nat)
    (result : Option CompletedUpload × ResumableSession) : UploadState :=
  { state with
    session := result.2
    buffered := state.buffered.drop length
    completed := result.1.or state.completed }

/-- INTERNAL: SRCLINE: mirage-backend-drive/src/upload.rs:39-46 -/
def flushChunks (codec : DriveCodec) (state : UploadState) : Upload UploadState :=
  if uploadChunkBytes ≤ state.buffered.length ∧
      wrappingAdd state.session.committed uploadChunkBytes < state.session.total then do
    let result ← Resumable.uploadChunk codec state.session (state.buffered.take uploadChunkBytes)
    flushChunks codec (state.sent uploadChunkBytes result)
  else pure state
termination_by state.buffered.length
decreasing_by
  rename_i h
  simp only [UploadState.sent, List.length_drop]
  unfold uploadChunkBytes chunkAlignment at h ⊢
  omega

/-- INTERNAL: SRCLINE: mirage-backend-drive/src/upload.rs:33-47 -/
def receiveItem (codec : DriveCodec) (state : UploadState)
    (item : Except BackendError (List UInt8)) : Upload UploadState := do
  let chunk ← Calls.compute item
  flushChunks codec { state with
    hashed := state.hashed ++ chunk
    buffered := state.buffered ++ chunk }

/-- INTERNAL: SRCLINE: mirage-backend-drive/src/upload.rs:59-61 -/
def finishLength (state : UploadState) : Nat :=
  min (min state.buffered.length (state.session.total - state.session.committed)) uploadChunkBytes

/-- INTERNAL: SRCLINE: mirage-backend-drive/src/upload.rs:52-66 -/
def finishUpload (codec : DriveCodec) (state : UploadState) : Upload UploadState :=
  if state.session.committed < state.session.total then
    if _hempty : state.buffered = [] then
      throw (.integrity "Drive upload stream ended before its declared length")
    else do
      let result ← Resumable.uploadChunk codec state.session
        (state.buffered.take (finishLength state))
      finishUpload codec (state.sent (finishLength state) result)
  else pure state
termination_by state.buffered.length
decreasing_by
  have hpos := List.length_pos_iff.mpr _hempty
  simp only [UploadState.sent, List.length_drop, finishLength]
  unfold uploadChunkBytes chunkAlignment
  omega

/-- INTERNAL: SRCLINE: mirage-backend-drive/src/upload.rs:19-75 -/
def uploadStream (ext : Externals) (codec : DriveCodec) (accessToken name : String)
    (properties : List (String × String)) (source : UploadSource) (expectedHash : BitVec 256) :
    Upload CompletedUpload := do
  let session ← Resumable.start codec accessToken name properties source.length
  let state ← source.stream.items.foldlM (receiveItem codec) ⟨session, [], [], none⟩
  Calls.compute (ensure (ext.blake3 state.hashed = expectedHash)
    (.integrity "Drive upload source hash mismatch; resumable session abandoned incomplete"))
  let state ← finishUpload codec state
  Calls.compute (ensure (state.buffered = [])
    (.integrity "Drive upload stream produced more bytes than declared"))
  Calls.compute (someOr state.completed
    (.integrity "Drive upload ended without completion metadata"))

/-! ## Servers that store what they confirm -/

/-- INTERNAL: what a server holds for a session. -/
structure ServerView (σ : Type) where
  declared : σ → String → Option Nat
  stored : σ → String → List UInt8
  object : σ → String → Option (List UInt8)

section Server

variable {χ σ : Type} (S : CallSystem HttpRequest χ σ BackendError (fun _ => HttpResponse))
  (view : ServerView σ)

/-- INTERNAL: a new session holds no bytes, and starting one makes no object. -/
structure StartsEmpty (total : Nat) (s : σ)
    (result : Except BackendError HttpResponse × σ) : Prop where
  objects : ∀ uri, view.object result.2 uri = view.object s uri
  session : ∀ response uri, result.1 = .ok response → response.status = 200 →
    response.header "location" = some uri →
    view.declared result.2 uri = some total ∧ view.stored result.2 uri = [] ∧
      view.object result.2 uri = none

/-- INTERNAL: a part of the piece is stored, what is confirmed is stored, and the object of the
session appears with its last byte. -/
structure StoresPiece (uri : String) (total : Nat) (body : List UInt8) (s : σ)
    (result : Except BackendError HttpResponse × σ) : Prop where
  declared : view.declared result.2 uri = some total
  stored : ∃ n, view.stored result.2 uri = view.stored s uri ++ body.take n
  others : ∀ other, other ≠ uri → view.object result.2 other = view.object s other
  object : view.object result.2 uri = view.object s uri ∨
    (view.stored result.2 uri).length = total ∧
      view.object result.2 uri = some (view.stored result.2 uri)
  confirmed : ∀ response n, result.1 = .ok response → response.status = 308 →
    parseCommitted (response.header "range") total = .ok n →
    n ≤ (view.stored result.2 uri).length
  completed : ∀ response, result.1 = .ok response →
    (response.status = 200 ∨ response.status = 201) →
    (view.stored result.2 uri).length = total ∧
      view.object result.2 uri = some (view.stored result.2 uri)

/-- INTERNAL: the server answers the requests of the upload like that, whatever it chooses. -/
structure StoresConfirmed : Prop where
  start : ∀ x s token body total,
    StartsEmpty view total s (S.perform x s (startRequest token body total))
  put : ∀ x s uri total body, view.declared s uri = some total →
    StoresPiece view uri total body s
      (S.perform x s (putRequest ⟨uri, (view.stored s uri).length, total⟩ body))

end Server

end Mirage.Model.Drive
