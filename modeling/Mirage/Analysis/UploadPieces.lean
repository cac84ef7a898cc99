import Mirage.Model.DriveUpload

/-!
# Pieces of an upload

A piece continues where the stored bytes end, and the piece with the last byte is sent after the
hash was checked.  So an object appears with the bytes of a verified stream or not at all.
-/

set_option autoImplicit false

namespace Mirage.Analysis

open Mirage.Computation Mirage.Model.Drive Mirage.Computation.CallSystem

/-! ## Streams -/

section Streams

/-- INTERNAL: the bytes of the chunks. -/
def chunkBytes (items : List (Except BackendError (List UInt8))) : List UInt8 :=
  (items.filterMap Except.toOption).flatten

@[simp] theorem chunkBytes_nil : chunkBytes [] = [] := rfl

@[simp] theorem chunkBytes_ok (chunk : List UInt8)
    (rest : List (Except BackendError (List UInt8))) :
    chunkBytes (.ok chunk :: rest) = chunk ++ chunkBytes rest := rfl

/-- INTERNAL: a stream hands out no more than was declared, and all of it unless it fails. -/
structure Declared (stream : BackendByteStream) : Prop where
  length_le : (chunkBytes stream.items).length ≤ stream.remaining
  complete : stream.finished = false → (∀ item ∈ stream.items, ∃ chunk, item = .ok chunk) →
    (chunkBytes stream.items).length = stream.remaining
  finished : stream.finished = true → stream.items = []

variable {next stream : BackendByteStream}

theorem items_of_none (h : stream.pollNext = (none, next)) : stream.items = [] := by
  rw [BackendByteStream.items]
  split
  · rfl
  · rename_i heq
    rw [h] at heq
    cases heq

theorem items_of_some {item : Except BackendError (List UInt8)}
    (h : stream.pollNext = (some item, next)) : stream.items = item :: next.items := by
  rw [BackendByteStream.items]
  split
  · rename_i heq
    rw [h] at heq
    cases heq
  · rename_i heq
    rw [h] at heq
    cases heq
    rfl

theorem items_finished (h : stream.finished = true) : stream.items = [] := by
  have hpoll : stream.pollNext = (none, stream) := if_pos h
  exact items_of_none hpoll

/-- INTERNAL: an error is the last item. -/
theorem declared_of_error {error : BackendError} (hopen : stream.finished = false)
    (hnext : next.finished = true) (h : stream.pollNext = (some (.error error), next)) :
    Declared stream := by
  have hitems := items_of_some h
  rw [items_finished hnext] at hitems
  refine ⟨?_, fun _ hall => ?_, fun hfinished => ?_⟩
  · rw [hitems]
    exact Nat.zero_le _
  · obtain ⟨chunk, hchunk⟩ := hall (.error error) (hitems ▸ List.mem_cons_self)
    cases hchunk
  · rw [hopen] at hfinished
    cases hfinished

theorem declared_finished (h : stream.finished = true) : Declared stream := by
  refine ⟨?_, fun hopen => ?_, fun _ => items_finished h⟩
  · rw [items_finished h]
    exact Nat.zero_le _
  · rw [h] at hopen
    cases hopen

theorem declared_open (inner : List (Except BackendError (List UInt8))) (remaining : Nat) :
    Declared ⟨inner, remaining, false⟩ := by
  induction inner generalizing remaining with
  | nil =>
    by_cases hzero : remaining = 0
    · have hpoll : (⟨[], remaining, false⟩ : BackendByteStream).pollNext =
          (none, ⟨[], remaining, true⟩) := if_pos hzero
      have hitems := items_of_none hpoll
      refine ⟨?_, fun _ _ => ?_, fun _ => hitems⟩
      · rw [hitems]
        exact Nat.zero_le _
      · rw [hitems, hzero]
        rfl
    · exact declared_of_error rfl rfl (if_neg hzero)
  | cons item rest ih =>
    cases item with
    | error error => exact declared_of_error rfl rfl rfl
    | ok chunk =>
      by_cases hempty : chunk.length = 0
      · exact declared_of_error rfl rfl (if_pos hempty)
      · by_cases hlong : remaining < chunk.length
        · exact declared_of_error rfl rfl ((if_neg hempty).trans (if_pos hlong))
        · have hpoll : (⟨.ok chunk :: rest, remaining, false⟩ : BackendByteStream).pollNext =
              (some (.ok chunk), ⟨rest, remaining - chunk.length, false⟩) :=
            (if_neg hempty).trans (if_neg hlong)
          have hitems := items_of_some hpoll
          have hrest := ih (remaining - chunk.length)
          refine ⟨?_, fun _ hall => ?_, nofun⟩
          · rw [hitems, chunkBytes_ok, List.length_append]
            have hle := hrest.length_le
            dsimp only at hle ⊢
            omega
          · rw [hitems] at hall ⊢
            have heq := hrest.complete rfl fun item hitem =>
              hall item (List.mem_cons_of_mem _ hitem)
            rw [chunkBytes_ok, List.length_append]
            dsimp only at heq ⊢
            omega

theorem declared_items (stream : BackendByteStream) : Declared stream := by
  obtain ⟨inner, remaining, finished⟩ := stream
  cases finished with
  | true => exact declared_finished rfl
  | false => exact declared_open inner remaining

end Streams

/-! ## The rule of the pieces -/

section Rule

variable {σ : Type} (ext : Externals) (view : ServerView σ) (source : UploadSource)
  (expectedHash : BitVec 256)

/-- INTERNAL: the bytes that the stream hands out. -/
def streamBytes : List UInt8 := chunkBytes source.stream.items

/-- INTERNAL: the stream ends without an error, with the declared length and the expected hash. -/
structure VerifiedStream : Prop where
  chunks : ∀ item ∈ source.stream.items, ∃ chunk, item = .ok chunk
  length_eq : (streamBytes source).length = source.length
  hash : ext.blake3 (streamBytes source) = expectedHash

/-- INTERNAL: a piece goes on where the stored bytes end; it is aligned if it is not the last, and
the last is sent for a verified stream only. -/
structure PieceRule (session : ResumableSession) (piece : List UInt8) (s : σ) : Prop where
  total : session.total = source.length
  continues : session.committed = (view.stored s session.uri).length
  bytes : piece <+: (streamBytes source).drop session.committed
  within : session.committed + piece.length ≤ session.total
  aligned : session.committed + piece.length < session.total → chunkAlignment ∣ piece.length
  last : session.committed + piece.length = session.total →
    VerifiedStream ext source expectedHash

/-- INTERNAL: every `PUT` follows the rule, and in every state each object is as before or has the
bytes of a verified stream. -/
def uploadDiscipline (s₀ : σ) : Discipline HttpRequest σ where
  inv s := ∀ uri, view.object s uri = view.object s₀ uri ∨
    VerifiedStream ext source expectedHash ∧ view.object s uri = some (streamBytes source)
  step request s _ := request.method = .put → ∃ session piece,
    request = putRequest session piece ∧ PieceRule ext view source expectedHash session piece s

end Rule

/-! ## One piece -/

section Piece

variable {χ σ : Type} {S : CallSystem HttpRequest χ σ BackendError (fun _ => HttpResponse)}
  {view : ServerView σ} {ext : Externals} {codec : DriveCodec} {source : UploadSource}
  {expectedHash : BitVec 256} {s₀ s : σ} {session : ResumableSession} {piece : List UInt8}

/-- INTERNAL: what is known of the server when a session is open. -/
structure Open (view : ServerView σ) (session : ResumableSession) (s : σ) : Prop where
  declared : view.declared s session.uri = some session.total
  committed : session.committed = (view.stored s session.uri).length

/-- INTERNAL: an honest server makes the object of a verified stream only. -/
theorem inv_storesPiece {result : Except BackendError HttpResponse × σ}
    (hinv : (uploadDiscipline ext view source expectedHash s₀).inv s)
    (hrule : PieceRule ext view source expectedHash session piece s)
    (hbytes : session.committed + piece.length = session.total →
      view.stored s session.uri ++ piece = streamBytes source)
    (hstores : StoresPiece view session.uri session.total piece s result) :
    (uploadDiscipline ext view source expectedHash s₀).inv result.2 := by
  intro uri
  by_cases huri : uri = session.uri
  · subst huri
    rcases hstores.object with hsame | ⟨hlength, hobject⟩
    · rw [hsame]
      exact hinv session.uri
    · obtain ⟨n, hstored⟩ := hstores.stored
      have hwithin := hrule.within
      have hcontinues := hrule.continues
      have hle : (piece.take n).length ≤ piece.length := List.length_take_le' n piece
      rw [hstored, List.length_append] at hlength
      have hlast : session.committed + piece.length = session.total := by omega
      have hwhole : piece.take n = piece :=
        (List.take_sublist n piece).eq_of_length (by omega)
      right
      refine ⟨hrule.last hlast, ?_⟩
      rw [hobject, hstored, hwhole, hbytes hlast]
  · rw [hstores.others uri huri]
    exact hinv uri

variable {result : Option CompletedUpload × ResumableSession} {s' : σ}

theorem readConfirmation_ok {stop : Nat} {response : HttpResponse}
    (h : readConfirmation codec session stop response = .ok result) :
    response.status = 308 ∧ parseCommitted (response.header "range") session.total = .ok stop ∧
        result = (none, { session with committed := stop }) ∨
      (response.status = 200 ∨ response.status = 201) ∧ stop = session.total ∧
        ∃ completed, completed.size = session.total ∧
          result = (some completed, { session with committed := session.total }) := by
  unfold readConfirmation at h
  split_ifs at h with hpart hwhole
  · left
    obtain ⟨confirmed, hconfirmed, h⟩ := except_bind_ok.mp h
    obtain ⟨hsame, hresult⟩ := ensure_bind_ok.mp h
    subst hsame
    exact ⟨hpart, hconfirmed, (Except.ok.inj hresult).symm⟩
  · right
    obtain ⟨hstop, h⟩ := ensure_bind_ok.mp h
    obtain ⟨file, -, h⟩ := someOr_bind_ok.mp h
    obtain ⟨completed, -, h⟩ := except_bind_ok.mp h
    obtain ⟨hsize, h⟩ := ensure_bind_ok.mp h
    exact ⟨hwhole, hstop, completed, hsize, (Except.ok.inj h).symm⟩

/-- INTERNAL: the piece is stored, and an upload that is complete made the object. -/
structure PieceSent (view : ServerView σ) (session : ResumableSession) (piece : List UInt8) (s : σ)
    (result : Option CompletedUpload × ResumableSession) (s' : σ) : Prop where
  next : result.2 = { session with committed := session.committed + piece.length }
  declared : view.declared s' session.uri = some session.total
  stored : view.stored s' session.uri = view.stored s session.uri ++ piece
  completed : ∀ completed, result.1 = some completed →
    session.committed + piece.length = session.total ∧ completed.size = session.total ∧
      view.object s' session.uri = some (view.stored s' session.uri)

theorem PieceSent.uri (h : PieceSent view session piece s result s') :
    result.2.uri = session.uri := by
  rw [h.next]

theorem PieceSent.total (h : PieceSent view session piece s result s') :
    result.2.total = session.total := by
  rw [h.next]

theorem Open.sent (h : Open view session s) (hsent : PieceSent view session piece s result s') :
    Open view result.2 s' := by
  rw [hsent.next]
  refine ⟨hsent.declared, ?_⟩
  dsimp only
  rw [hsent.stored, List.length_append, h.committed]

/-- INTERNAL: what is read as a confirmation of the whole piece is one. -/
theorem sent_of_confirmation {response : HttpResponse} (hopen : Open view session s)
    (hstores : StoresPiece view session.uri session.total piece s (.ok response, s'))
    (h : readConfirmation codec session (session.committed + piece.length) response =
      .ok result) : PieceSent view session piece s result s' := by
  obtain ⟨n, hstored⟩ := hstores.stored
  dsimp only at hstored
  -- all bytes of the piece are stored, as its end is confirmed
  have hwhole : session.committed + piece.length ≤ (view.stored s' session.uri).length →
      view.stored s' session.uri = view.stored s session.uri ++ piece := by
    intro hlength
    rw [hstored, List.length_append, ← hopen.committed] at hlength
    have hle : (piece.take n).length ≤ piece.length := List.length_take_le' n piece
    rw [hstored, (List.take_sublist n piece).eq_of_length (by omega)]
  rcases readConfirmation_ok h with ⟨hpart, hconfirmed, rfl⟩ | ⟨hdone, hstop, completed, hsize, rfl⟩
  · exact ⟨rfl, hstores.declared, hwhole (hstores.confirmed response _ rfl hpart hconfirmed), nofun⟩
  · obtain ⟨hlength, hobject⟩ := hstores.completed response rfl hdone
    dsimp only at hlength hobject
    refine ⟨by rw [hstop], hstores.declared, hwhole (by rw [hlength, hstop]), ?_⟩
    intro completed' hcompleted
    cases hcompleted
    exact ⟨hstop, hsize, hobject⟩

theorem uploadChunk_follows (honest : StoresConfirmed S view)
    (hinv : (uploadDiscipline ext view source expectedHash s₀).inv s)
    (hopen : Open view session s)
    (hrule : PieceRule ext view source expectedHash session piece s)
    (hbytes : session.committed + piece.length = session.total →
      view.stored s session.uri ++ piece = streamBytes source) :
    S.Follows (uploadDiscipline ext view source expectedHash s₀)
      (Resumable.uploadChunk codec session piece)
      (fun result s' => (uploadDiscipline ext view source expectedHash s₀).inv s' ∧
        PieceSent view session piece s result s') s := by
  have hstores : ∀ x, StoresPiece view session.uri session.total piece s
      (S.perform x s (putRequest session piece)) := by
    intro x
    have hput := honest.put x s session.uri session.total piece hopen.declared
    rwa [← hopen.committed] at hput
  have hstep : ∀ s', (uploadDiscipline ext view source expectedHash s₀).step
      (putRequest session piece) s s' := fun _ _ => ⟨session, piece, rfl, hrule⟩
  unfold Resumable.uploadChunk
  refine follows_bind (R := fun _ s' => s = s') (follows_compute fun _ _ => rfl) ?_
  rintro _ _ rfl
  refine follows_bind (R := fun stop s' => s = s' ∧ stop = session.committed + piece.length)
    (follows_compute fun stop hstop => ⟨rfl, ?_⟩) ?_
  · exact (checkedAdd_eq_some (someOr_ok hstop)).1
  rintro _ _ ⟨rfl, rfl⟩
  refine follows_bind (R := fun _ s' => s = s') (follows_compute fun _ _ => rfl) ?_
  rintro _ _ rfl
  refine follows_bind (R := fun response s' =>
    (uploadDiscipline ext view source expectedHash s₀).inv s' ∧
      StoresPiece view session.uri session.total piece s (.ok response, s')) ?_ ?_
  · refine follows_call hinv (hstep s) (fun x _ => ⟨hstep _, ?_⟩) fun x response s' _ hok => ?_
    · exact inv_storesPiece hinv hrule hbytes (hstores x)
    · have hpiece := hstores x
      have hkept := inv_storesPiece hinv hrule hbytes hpiece
      rw [hok] at hpiece hkept
      exact ⟨hkept, hpiece⟩
  · rintro response s' ⟨hkept, hpiece⟩
    exact follows_compute fun result hresult =>
      ⟨hkept, sent_of_confirmation hopen hpiece hresult⟩

end Piece

/-! ## The loops -/

section Loops

variable {χ σ : Type} {S : CallSystem HttpRequest χ σ BackendError (fun _ => HttpResponse)}
  {view : ServerView σ} {ext : Externals} {codec : DriveCodec} {source : UploadSource}
  {expectedHash : BitVec 256} {s₀ s : σ} {state : UploadState}

/-- INTERNAL: what was received is stored or buffered. -/
structure UploadTracks (view : ServerView σ) (source : UploadSource) (state : UploadState) (s : σ) :
    Prop where
  opened : Open view state.session s
  total : state.session.total = source.length
  split : view.stored s state.session.uri ++ state.buffered = state.hashed
  received : state.hashed <+: streamBytes source

theorem streamBytes_length_le (source : UploadSource) :
    (streamBytes source).length ≤ source.length :=
  (declared_items source.stream).length_le.trans_eq source.length_eq.symm

theorem UploadTracks.within (h : UploadTracks view source state s) :
    state.session.committed + state.buffered.length ≤ state.session.total := by
  have hsplit := congrArg List.length h.split
  rw [List.length_append, ← h.opened.committed] at hsplit
  rw [hsplit, h.total]
  exact h.received.length_le.trans (streamBytes_length_le source)

theorem UploadTracks.pieceRule (h : UploadTracks view source state s) {length : Nat}
    (hlength : length ≤ state.buffered.length)
    (haligned : state.session.committed + length < state.session.total → chunkAlignment ∣ length)
    (hlast : state.session.committed + length = state.session.total →
      VerifiedStream ext source expectedHash) :
    PieceRule ext view source expectedHash state.session (state.buffered.take length) s := by
  have htake : (state.buffered.take length).length = length := List.length_take_of_le hlength
  have hwithin := h.within
  refine ⟨h.total, h.opened.committed, ?_, ?_, ?_, ?_⟩
  · obtain ⟨rest, hrest⟩ := h.received
    rw [← hrest, ← h.split, List.append_assoc, h.opened.committed, List.drop_left]
    exact (List.take_prefix length state.buffered).trans (List.prefix_append _ _)
  · omega
  · rw [htake]
    exact haligned
  · rw [htake]
    exact hlast

theorem UploadTracks.sent {length : Nat} {s' : σ}
    {result : Option CompletedUpload × ResumableSession} (h : UploadTracks view source state s)
    (hsent : PieceSent view state.session (state.buffered.take length) s result s') :
    UploadTracks view source (state.sent length result) s' := by
  refine ⟨h.opened.sent hsent, hsent.total.trans h.total, ?_, h.received⟩
  have hsplit : view.stored s' result.2.uri ++ state.buffered.drop length = state.hashed := by
    rw [hsent.uri, hsent.stored, List.append_assoc, List.take_append_drop, h.split]
  exact hsplit

/-- INTERNAL: a chunk that is not the last byte's is sent eagerly. -/
theorem flushChunks_follows (honest : StoresConfirmed S view)
    (hinv : (uploadDiscipline ext view source expectedHash s₀).inv s)
    (htracks : UploadTracks view source state s) (hnone : state.completed = none) :
    S.Follows (uploadDiscipline ext view source expectedHash s₀) (flushChunks codec state)
      (fun state' s' => (uploadDiscipline ext view source expectedHash s₀).inv s' ∧
        UploadTracks view source state' s' ∧ state'.completed = none ∧
        state'.hashed = state.hashed ∧ state'.session.uri = state.session.uri) s := by
  induction state using flushChunks.induct generalizing s with
  | case1 state hcond ih =>
    have hwithin := htracks.within
    have hfits := source.fits
    have htotal := htracks.total
    have hexact : wrappingAdd state.session.committed uploadChunkBytes =
        state.session.committed + uploadChunkBytes := wrappingAdd_eq (by omega)
    have hbefore := hcond.2
    rw [hexact] at hbefore
    have hrule : PieceRule ext view source expectedHash state.session
        (state.buffered.take uploadChunkBytes) s :=
      htracks.pieceRule hcond.1 (fun _ => ⟨128, rfl⟩) fun hlast => absurd hlast hbefore.ne
    have htake : (state.buffered.take uploadChunkBytes).length = uploadChunkBytes :=
      List.length_take_of_le hcond.1
    rw [flushChunks, if_pos hcond]
    refine follows_bind (uploadChunk_follows honest hinv htracks.opened hrule ?_) ?_
    · intro hlast
      rw [htake] at hlast
      exact absurd hlast hbefore.ne
    · rintro result s' ⟨hkept, hsent⟩
      have hopen : result.1 = none := by
        cases hresult : result.1 with
        | none => rfl
        | some completed =>
          have hlast := (hsent.completed completed hresult).1
          rw [htake] at hlast
          exact absurd hlast hbefore.ne
      have hnone' : (state.sent uploadChunkBytes result).completed = none := by
        rw [UploadState.sent, hopen, hnone]
        rfl
      refine follows_mono (ih result hkept (htracks.sent hsent) hnone') ?_
      rintro state' s'' ⟨hkept', htracks', hcompleted, hhashed, huri⟩
      exact ⟨hkept', htracks', hcompleted, hhashed, huri.trans hsent.uri⟩
  | case2 state hcond =>
    rw [flushChunks, if_neg hcond]
    exact follows_pure ⟨hinv, htracks, hnone, rfl, rfl⟩

theorem receiveItem_follows (honest : StoresConfirmed S view)
    {item : Except BackendError (List UInt8)} {rest : List (Except BackendError (List UInt8))}
    (hinv : (uploadDiscipline ext view source expectedHash s₀).inv s)
    (htracks : UploadTracks view source state s) (hnone : state.completed = none)
    (hrest : state.hashed ++ chunkBytes (item :: rest) = streamBytes source) :
    S.Follows (uploadDiscipline ext view source expectedHash s₀) (receiveItem codec state item)
      (fun state' s' => (uploadDiscipline ext view source expectedHash s₀).inv s' ∧
        UploadTracks view source state' s' ∧ state'.completed = none ∧
        (∃ chunk, item = .ok chunk) ∧ state'.hashed ++ chunkBytes rest = streamBytes source ∧
        state'.session.uri = state.session.uri) s := by
  unfold receiveItem
  refine follows_bind (R := fun chunk s' => s = s' ∧ item = .ok chunk)
    (follows_compute fun chunk hchunk => ⟨rfl, hchunk⟩) ?_
  rintro chunk _ ⟨rfl, rfl⟩
  rw [chunkBytes_ok, ← List.append_assoc] at hrest
  have hreceived : UploadTracks view source
      { state with hashed := state.hashed ++ chunk, buffered := state.buffered ++ chunk } s := by
    refine ⟨htracks.opened, htracks.total, ?_, ⟨chunkBytes rest, hrest⟩⟩
    dsimp only
    rw [← List.append_assoc, htracks.split]
  refine follows_mono (flushChunks_follows honest hinv hreceived hnone) ?_
  rintro state' s' ⟨hkept, htracks', hcompleted, hhashed, huri⟩
  refine ⟨hkept, htracks', hcompleted, ⟨chunk, rfl⟩, ?_, huri⟩
  rw [hhashed]
  exact hrest

theorem receive_follows (honest : StoresConfirmed S view)
    (items : List (Except BackendError (List UInt8)))
    (hinv : (uploadDiscipline ext view source expectedHash s₀).inv s)
    (htracks : UploadTracks view source state s) (hnone : state.completed = none)
    (hrest : state.hashed ++ chunkBytes items = streamBytes source) :
    S.Follows (uploadDiscipline ext view source expectedHash s₀)
      (items.foldlM (receiveItem codec) state)
      (fun state' s' => (uploadDiscipline ext view source expectedHash s₀).inv s' ∧
        UploadTracks view source state' s' ∧ state'.completed = none ∧
        (∀ item ∈ items, ∃ chunk, item = .ok chunk) ∧ state'.hashed = streamBytes source ∧
        state'.session.uri = state.session.uri) s := by
  induction items generalizing state s with
  | nil =>
    rw [chunkBytes_nil, List.append_nil] at hrest
    exact follows_pure ⟨hinv, htracks, hnone, nofun, hrest, rfl⟩
  | cons item rest ih =>
    rw [List.foldlM_cons]
    refine follows_bind (receiveItem_follows honest hinv htracks hnone hrest) ?_
    rintro state' s' ⟨hkept, htracks', hcompleted, hitem, hrest', huri⟩
    refine follows_mono (ih hkept htracks' hcompleted hrest') ?_
    rintro state'' s'' ⟨hkept', htracks'', hcompleted', hitems, hhashed, huri'⟩
    exact ⟨hkept', htracks'', hcompleted', List.forall_mem_cons.mpr ⟨hitem, hitems⟩, hhashed,
      huri'.trans huri⟩

/-- INTERNAL: the last piece is what is left of a verified stream. -/
theorem finishUpload_follows (honest : StoresConfirmed S view)
    (hverified : VerifiedStream ext source expectedHash)
    (hinv : (uploadDiscipline ext view source expectedHash s₀).inv s)
    (htracks : UploadTracks view source state s) (hhashed : state.hashed = streamBytes source)
    (hdone : ∀ completed, state.completed = some completed →
      state.session.committed = state.session.total ∧ completed.size = source.length ∧
        view.object s state.session.uri = some (streamBytes source)) :
    S.Follows (uploadDiscipline ext view source expectedHash s₀) (finishUpload codec state)
      (fun state' s' => ∀ completed, state'.completed = some completed →
        completed.size = source.length ∧
          view.object s' state.session.uri = some (streamBytes source)) s := by
  induction state using finishUpload.induct generalizing s with
  | case1 state hopen hempty =>
    rw [finishUpload, if_pos hopen, dif_pos hempty]
    exact follows_throw
  | case2 state hopen hempty ih =>
    have hpos := List.length_pos_iff.mpr hempty
    have hsum : state.session.committed + state.buffered.length = state.session.total := by
      have hsplit := congrArg List.length htracks.split
      rw [List.length_append, ← htracks.opened.committed, hhashed, hverified.length_eq] at hsplit
      rw [hsplit, htracks.total]
    have hlength : finishLength state = min state.buffered.length uploadChunkBytes := by
      unfold finishLength
      omega
    have htake : (state.buffered.take (finishLength state)).length = finishLength state :=
      List.length_take_of_le (hlength ▸ Nat.min_le_left _ _)
    have haligned : state.session.committed + finishLength state < state.session.total →
        chunkAlignment ∣ finishLength state := by
      intro hbefore
      have hchunk : finishLength state = uploadChunkBytes := by omega
      rw [hchunk]
      exact ⟨128, rfl⟩
    have hrule := htracks.pieceRule (hlength ▸ Nat.min_le_left _ _) haligned
      fun _ => hverified
    have hbytes : state.session.committed + (state.buffered.take (finishLength state)).length =
        state.session.total → view.stored s state.session.uri ++
          state.buffered.take (finishLength state) = streamBytes source := by
      intro hlast
      rw [List.take_of_length_le (by omega), htracks.split, hhashed]
    have hnone : state.completed = none := by
      cases hcompleted : state.completed with
      | none => rfl
      | some completed => exact absurd (hdone completed hcompleted).1 hopen.ne
    rw [finishUpload, if_pos hopen, dif_neg hempty]
    refine follows_bind (uploadChunk_follows honest hinv htracks.opened hrule hbytes) ?_
    rintro result s' ⟨hkept, hsent⟩
    have hdone' : ∀ completed, (state.sent (finishLength state) result).completed =
        some completed → result.2.committed = result.2.total ∧
          completed.size = source.length ∧
          view.object s' result.2.uri = some (streamBytes source) := by
      intro completed hcompleted
      rw [UploadState.sent, hnone, Option.or_none] at hcompleted
      obtain ⟨hlast, hsize, hobject⟩ := hsent.completed completed hcompleted
      refine ⟨?_, hsize.trans htracks.total, ?_⟩
      · rw [hsent.next]
        exact hlast
      · rw [hsent.uri, hobject, hsent.stored, hbytes hlast]
    have hrest := ih result hkept (htracks.sent hsent) hhashed hdone'
    have huri : (state.sent (finishLength state) result).session.uri = state.session.uri :=
      hsent.uri
    rwa [huri] at hrest
  | case3 state hclosed =>
    rw [finishUpload, if_neg hclosed]
    exact follows_pure fun completed hcompleted => (hdone completed hcompleted).2

end Loops

/-! ## The upload -/

section Stream

variable {χ σ : Type} {S : CallSystem HttpRequest χ σ BackendError (fun _ => HttpResponse)}
  {view : ServerView σ} {ext : Externals} {codec : DriveCodec} {source : UploadSource}
  {expectedHash : BitVec 256} {s₀ : σ} {accessToken name : String}
  {properties : List (String × String)}

theorem start_follows (honest : StoresConfirmed S view) :
    S.Follows (uploadDiscipline ext view source expectedHash s₀)
      (Resumable.start codec accessToken name properties source.length)
      (fun session s => (uploadDiscipline ext view source expectedHash s₀).inv s ∧
        UploadTracks view source ⟨session, [], [], none⟩ s ∧ source.length ≠ 0 ∧
        view.object s₀ session.uri = none) s₀ := by
  have hinv : (uploadDiscipline ext view source expectedHash s₀).inv s₀ := fun _ => .inl rfl
  have hkept : ∀ {s}, (∀ uri, view.object s uri = view.object s₀ uri) →
      (uploadDiscipline ext view source expectedHash s₀).inv s := fun h uri => .inl (h uri)
  unfold Resumable.start
  refine follows_bind (R := fun _ s => s₀ = s ∧ source.length ≠ 0)
    (follows_compute fun _ hensure => ⟨rfl, ensure_ok hensure⟩) ?_
  rintro _ _ ⟨rfl, htotal⟩
  refine follows_bind (R := fun _ s => s₀ = s) (follows_compute fun _ _ => rfl) ?_
  rintro body _ rfl
  refine follows_bind (R := fun response s =>
    StartsEmpty view source.length s₀ (.ok response, s)) ?_ ?_
  · refine follows_call hinv nofun (fun x _ => ⟨nofun, hkept ?_⟩) fun x response s _ hok => ?_
    · exact (honest.start x s₀ accessToken body source.length).objects
    · rw [← hok]
      exact honest.start x s₀ accessToken body source.length
  intro response s hstarts
  refine follows_bind (R := fun _ s' => s = s' ∧ response.status = 200)
    (follows_compute fun _ hensure => ⟨rfl, ensure_ok hensure⟩) ?_
  rintro _ _ ⟨rfl, hstatus⟩
  refine follows_bind (R := fun uri s' => s = s' ∧ response.header "location" = some uri)
    (follows_compute fun uri huri => ⟨rfl, (Option.filter_eq_some_iff.mp (someOr_ok huri)).1⟩) ?_
  rintro uri _ ⟨rfl, huri⟩
  obtain ⟨hdeclared, hstored, hobject⟩ := hstarts.session response uri rfl hstatus huri
  refine follows_pure ⟨hkept hstarts.objects, ⟨⟨hdeclared, ?_⟩, rfl, ?_, List.nil_prefix⟩, htotal,
    (hstarts.objects uri).symm.trans hobject⟩
  · exact (congrArg List.length hstored).symm
  · exact congrArg (· ++ []) hstored

/-- INTERNAL: a stream that was read to its end before gives nothing to send. -/
theorem finishUpload_empty {state : UploadState} {s : σ}
    (htracks : UploadTracks view source state s) (hnothing : state.hashed = [])
    (htotal : source.length ≠ 0)
    {Q : UploadState → σ → Prop} :
    S.Follows (uploadDiscipline ext view source expectedHash s₀) (finishUpload codec state) Q
      s := by
  have hsplit := htracks.split
  rw [hnothing, List.append_eq_nil_iff] at hsplit
  have hopen : state.session.committed < state.session.total := by
    rw [htracks.opened.committed, htracks.total, hsplit.1]
    exact Nat.pos_of_ne_zero htotal
  rw [finishUpload, if_pos hopen, dif_pos hsplit.2]
  exact follows_throw

/-- INTERNAL: whatever the server answers, an upload that succeeds created an object with the bytes
of the source, whose length and digest are those expected, and changed no other.
SRCLINE: mirage-backend-drive/src/upload.rs:19-75, mirage-backend-drive/src/resumable.rs:87-171 -/
theorem upload_creates_verified_objects (S : CallSystem HttpRequest χ σ BackendError
      (fun _ => HttpResponse)) (view : ServerView σ) (honest : StoresConfirmed S view)
    (ext : Externals) (codec : DriveCodec) (accessToken name : String)
    (properties : List (String × String)) (source : UploadSource) (expectedHash : BitVec 256)
    (s₀ : σ) :
    S.Follows (uploadDiscipline ext view source expectedHash s₀)
      (uploadStream ext codec accessToken name properties source expectedHash)
      (fun completed s => VerifiedStream ext source expectedHash ∧
        completed.size = source.length ∧
        ∃ uri, view.object s₀ uri = none ∧ view.object s uri = some (streamBytes source)) s₀ := by
  unfold uploadStream
  refine follows_bind (start_follows honest) ?_
  rintro session s ⟨hinv, htracks, htotal, hobject⟩
  refine follows_bind (receive_follows honest source.stream.items hinv htracks rfl rfl) ?_
  rintro state s' ⟨hinv', htracks', hnone, hitems, hhashed, huri⟩
  refine follows_bind (R := fun _ s => s' = s ∧ ext.blake3 state.hashed = expectedHash)
    (follows_compute fun _ hensure => ⟨rfl, ensure_ok hensure⟩) ?_
  rintro _ _ ⟨rfl, hhash⟩
  cases hfinished : source.stream.finished with
  | true =>
    have hnothing : state.hashed = [] := by
      rw [hhashed, streamBytes, (declared_items source.stream).finished hfinished]
      rfl
    refine follows_bind (R := fun _ _ => False)
      (finishUpload_empty htracks' hnothing htotal) ?_
    exact fun _ _ => False.elim
  | false =>
    have hlength := (declared_items source.stream).complete hfinished hitems
    have hverified : VerifiedStream ext source expectedHash :=
      ⟨hitems, hlength.trans source.length_eq.symm, hhashed ▸ hhash⟩
    refine follows_bind (finishUpload_follows honest hverified hinv' htracks' hhashed ?_) ?_
    · intro completed hcompleted
      rw [hnone] at hcompleted
      cases hcompleted
    intro state' s'' hdone
    refine follows_bind (R := fun _ s => s'' = s) (follows_compute fun _ _ => rfl) ?_
    rintro _ _ rfl
    refine follows_compute fun completed hcompleted => ?_
    obtain ⟨hsize, hcreated⟩ := hdone completed (someOr_ok hcompleted)
    exact ⟨hverified, hsize, session.uri, hobject, huri ▸ hcreated⟩

end Stream

/-! ## A server for three bytes -/

section Example

/-- INTERNAL: a server with one session of three bytes, which it takes at once. -/
structure OneSession where
  started : Bool
  stored : List UInt8
  deriving DecidableEq

def OneSession.view : ServerView OneSession where
  declared s uri := if s.started ∧ uri = "https://u" then some 3 else none
  stored s uri := if uri = "https://u" then s.stored else []
  object s uri := if uri = "https://u" ∧ s.stored.length = 3 then some s.stored else none

def OneSession.perform (s : OneSession) (request : HttpRequest) :
    Except BackendError HttpResponse × OneSession :=
  if request = startRequest "t" [] 3 ∧ s = ⟨false, []⟩ then
    (.ok ⟨200, [("location", "https://u")], []⟩, ⟨true, []⟩)
  else if request.method = .put ∧ s = ⟨true, []⟩ ∧ request.body.length = 3 then
    (.ok ⟨200, [], [51]⟩, ⟨true, request.body⟩)
  else (.error (.permanent "refused"), s)

def OneSession.system :
    CallSystem HttpRequest Unit OneSession BackendError (fun _ => HttpResponse) where
  perform _ s request := s.perform request
  fault _ _ := none
  allowed _ := true

theorem eq_three_of_text {n : Nat} (h : toString n = toString 3) : n = 3 := by
  have hrepr : n.repr = Nat.repr 3 := h
  have hlength : n.repr.length ≤ 1 := by
    rw [hrepr]
    decide +kernel
  have hlt : n < 10 := (Nat.length_repr_le_iff (by decide)).mp hlength
  have hall : ∀ n < 10, Nat.repr n = Nat.repr 3 → n = 3 := by decide +kernel
  exact hall n hlt hrepr

theorem startsEmpty_oneSession (s : OneSession) (token : String) (body : List UInt8) (total : Nat) :
    StartsEmpty OneSession.view total s (s.perform (startRequest token body total)) := by
  unfold OneSession.perform
  by_cases hstart : startRequest token body total = startRequest "t" [] 3 ∧ s = ⟨false, []⟩
  · obtain ⟨hrequest, rfl⟩ := hstart
    have htotal : total = 3 := by
      have hheaders := congrArg HttpRequest.headers hrequest
      simp only [startRequest, List.cons.injEq, Prod.mk.injEq, true_and, and_true] at hheaders
      exact eq_three_of_text hheaders.2
    rw [if_pos ⟨hrequest, rfl⟩, htotal]
    refine ⟨fun uri => rfl, fun response uri hresponse _ huri => ?_⟩
    cases hresponse
    have hlocation : uri = "https://u" := (Option.some.inj huri).symm
    rw [hlocation]
    exact ⟨rfl, rfl, rfl⟩
  · rw [if_neg hstart, if_neg fun h => absurd h.1 nofun]
    exact ⟨fun _ => rfl, nofun⟩

theorem storesPiece_oneSession {s : OneSession} {uri : String} {total : Nat}
    (hdeclared : OneSession.view.declared s uri = some total) (body : List UInt8) :
    StoresPiece OneSession.view uri total body s
      (s.perform (putRequest ⟨uri, (OneSession.view.stored s uri).length, total⟩ body)) := by
  obtain ⟨⟨-, rfl⟩, htotal⟩ : (s.started ∧ uri = "https://u") ∧ total = 3 := by
    unfold OneSession.view at hdeclared
    dsimp only at hdeclared
    split_ifs at hdeclared with hopen
    exact ⟨hopen, (Option.some.inj hdeclared).symm⟩
  unfold OneSession.perform
  have hmethod : ∀ session, putRequest session body ≠ startRequest "t" [] 3 := fun _ h =>
    Method.noConfusion (congrArg HttpRequest.method h)
  rw [if_neg fun h => hmethod _ h.1]
  by_cases hput : s = ⟨true, []⟩ ∧ body.length = 3
  · obtain ⟨rfl, hlength⟩ := hput
    rw [if_pos ⟨rfl, rfl, hlength⟩]
    have hobject : OneSession.view.object ⟨true, body⟩ "https://u" = some body :=
      if_pos ⟨rfl, hlength⟩
    refine ⟨hdeclared, ⟨3, ?_⟩, fun other hother => ?_, .inr ⟨hlength.trans htotal.symm, hobject⟩,
      nofun, fun _ _ _ => ⟨hlength.trans htotal.symm, hobject⟩⟩
    · exact (List.take_of_length_le hlength.le).symm
    · exact (if_neg fun h => hother h.1).trans (if_neg fun h => hother h.1).symm
  · rw [if_neg fun h => hput h.2]
    exact ⟨hdeclared, ⟨0, (List.append_nil _).symm⟩, fun _ _ => rfl, .inl rfl, nofun, nofun⟩

def threeBytes : UploadSource := ⟨3, ⟨[.ok [1, 2], .ok [3]], 3, false⟩, rfl, by decide⟩

/-- INTERNAL: a stream is told by its number, and the reply holds the digit of the size. -/
def streamNumber : Externals :=
  ⟨fun bytes => BitVec.ofNat 256 (bytes.foldl (fun n byte => n * 256 + byte.toNat) 0), fun c => [c]⟩

def sizeCodec : DriveCodec where
  writeMetadata _ _ := some []
  readFile
    | [digit] => some ⟨"f", some (String.singleton (Char.ofNat digit.toNat)), none, none⟩
    | _ => none

theorem threeBytes_items : threeBytes.stream.items = [.ok [1, 2], .ok [3]] := by
  have hfirst : threeBytes.stream.pollNext = (some (.ok [1, 2]), ⟨[.ok [3]], 1, false⟩) := rfl
  have hsecond : BackendByteStream.pollNext ⟨[.ok [3]], 1, false⟩ =
      (some (.ok [3]), ⟨[], 0, false⟩) := rfl
  rw [items_of_some hfirst, items_of_some hsecond, items_of_none rfl]

theorem flushChunks_short {codec : DriveCodec} {state : UploadState}
    (h : state.buffered.length < uploadChunkBytes) : flushChunks codec state = pure state := by
  rw [flushChunks, if_neg fun hfull => absurd hfull.1 (Nat.not_le_of_lt h)]

/-- INTERNAL: the upload up to the check of the hash, in a session with nothing stored. -/
theorem threeBytes_received {expectedHash : BitVec 256} :
    answered OneSession.perform (uploadStream streamNumber sizeCodec "t" "n" [] threeBytes
        expectedHash).run ⟨false, []⟩ =
      answered OneSession.perform (do
        Calls.compute (ensure (streamNumber.blake3 [1, 2, 3] = expectedHash)
          (.integrity "Drive upload source hash mismatch; resumable session abandoned incomplete"))
        let state ← finishUpload sizeCodec ⟨⟨"https://u", 0, 3⟩, [1, 2, 3], [1, 2, 3], none⟩
        Calls.compute (ensure (state.buffered = [])
          (.integrity "Drive upload stream produced more bytes than declared"))
        Calls.compute (someOr state.completed
          (.integrity "Drive upload ended without completion metadata")) :
            Upload CompletedUpload).run ⟨true, []⟩ := by
  have hstart : answered OneSession.perform (Resumable.start sizeCodec "t" "n" [] 3).run
      ⟨false, []⟩ = (.ok ⟨"https://u", 0, 3⟩, ⟨true, []⟩) := by decide +kernel
  have hreceive : threeBytes.stream.items.foldlM (receiveItem sizeCodec)
      ⟨⟨"https://u", 0, 3⟩, [], [], none⟩ =
        pure ⟨⟨"https://u", 0, 3⟩, [1, 2, 3], [1, 2, 3], none⟩ := by
    rw [threeBytes_items]
    change (flushChunks _ _ >>= fun state => flushChunks _ _ >>= pure) = _
    rw [flushChunks_short (by decide)]
    change (flushChunks _ _ >>= pure) = _
    rw [flushChunks_short (by decide)]
    rfl
  refine (answered_bind_ok hstart).trans ?_
  rw [hreceive]
  rfl

/-- INTERNAL: with the hash of its bytes the stream is uploaded and its object is there; with
another hash the upload ends before a byte is sent. -/
theorem three_bytes_uploaded :
    StoresConfirmed OneSession.system OneSession.view ∧
      (∃ s, answered OneSession.perform (uploadStream streamNumber sizeCodec "t" "n" [] threeBytes
          0x010203).run ⟨false, []⟩ = (.ok ⟨"f", none, 3, none⟩, s) ∧
        VerifiedStream streamNumber threeBytes 0x010203 ∧
        ∃ uri, OneSession.view.object s uri = some [1, 2, 3]) ∧
      (answered OneSession.perform (uploadStream streamNumber sizeCodec "t" "n" [] threeBytes
        0x010204).run ⟨false, []⟩).2 = ⟨true, []⟩ := by
  have honest : StoresConfirmed OneSession.system OneSession.view :=
    ⟨fun _ s token body total => startsEmpty_oneSession s token body total,
      fun _ s uri total body hdeclared => storesPiece_oneSession hdeclared body⟩
  have hsent : answered OneSession.perform (Resumable.uploadChunk sizeCodec ⟨"https://u", 0, 3⟩
      [1, 2, 3]).run ⟨true, []⟩ = (.ok (some ⟨"f", none, 3, none⟩, ⟨"https://u", 3, 3⟩),
        ⟨true, [1, 2, 3]⟩) := by decide +kernel
  have hfinish : answered OneSession.perform (finishUpload sizeCodec
      ⟨⟨"https://u", 0, 3⟩, [1, 2, 3], [1, 2, 3], none⟩).run ⟨true, []⟩ =
        (.ok ⟨⟨"https://u", 3, 3⟩, [1, 2, 3], [], some ⟨"f", none, 3, none⟩⟩,
          ⟨true, [1, 2, 3]⟩) := by
    rw [finishUpload, if_pos (by decide), dif_neg nofun]
    refine (answered_bind_ok hsent).trans ?_
    rw [finishUpload, if_neg (by decide)]
    rfl
  have hrun : answered OneSession.perform (uploadStream streamNumber sizeCodec "t" "n" [] threeBytes
      0x010203).run ⟨false, []⟩ = (.ok ⟨"f", none, 3, none⟩, ⟨true, [1, 2, 3]⟩) := by
    have hhash : ensure (streamNumber.blake3 [1, 2, 3] = 0x010203) (BackendError.integrity
        "Drive upload source hash mismatch; resumable session abandoned incomplete") = .ok () := by
      decide +kernel
    rw [threeBytes_received, hhash]
    exact answered_bind_ok hfinish
  have hexec (request : HttpRequest) (s : OneSession) :
      OneSession.system.exec request () s = some (OneSession.perform s request) := rfl
  have hfollows := safe_answered () hexec (upload_creates_verified_objects OneSession.system
    OneSession.view honest streamNumber sizeCodec "t" "n" [] threeBytes 0x010203 ⟨false, []⟩)
  rw [hrun] at hfollows
  obtain ⟨hverified, -, uri, -, hobject⟩ := hfollows
  rw [streamBytes, threeBytes_items] at hobject
  refine ⟨honest, ⟨_, hrun, hverified, uri, hobject⟩, ?_⟩
  have hhash : ensure (streamNumber.blake3 [1, 2, 3] = 0x010204) (BackendError.integrity
      "Drive upload source hash mismatch; resumable session abandoned incomplete") =
        .error (.integrity
          "Drive upload source hash mismatch; resumable session abandoned incomplete") := by
    decide +kernel
  rw [threeBytes_received, hhash]
  rfl

end Example

end Mirage.Analysis
