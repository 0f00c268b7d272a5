import Stratamoto.Library.Chunks
import Stratamoto.Library.Slices
import Stratamoto.Harness.Assembly

/-!
# Stratamoto — receiving over a Noise connection

`noise.rs`: `recv` reads the chunk the decoder asks for, feeds it, and goes on
until the decoder has a frame. Reading may stop anywhere, most often on a
timeout; what has been read of the chunk is kept in `pending` and `filled` for
the next `recv`.

The codec is a parameter (`Codec`), and so is how bytes arrive: every read of
the socket meets an `Arrival`, which brings some bytes or an error. The loop of
`read_frame` runs on a fuel, since a decoder that forever asks for nothing keeps
it going.

* `recv_reads` — a `recv` reads on where the one before it stopped;
* `recvs_reads` — and so do any number of them;
* `recv_whole_chunks` — what they return is what the decoder yields on chunks
  that arrive whole.
-/

namespace Stratamoto

open Chunks Slices

/-! ## The socket -/

/-- What a read of the socket meets: more than `more` bytes to be had, or an
error. -/
inductive Arrival where
  | bytes (more : Nat)
  | error (kind : ErrorKind) (e : String)
  deriving DecidableEq, Repr

/-- A connected socket. No timeout is kept as a zero duration. -/
structure Socket where
  /-- What the peer sends and has not been read yet. -/
  unread : List UInt8
  readTimeout : Option { d : Nat // 0 < d }

namespace Socket

def setReadTimeout (s : Socket) (timeout : Option { d : Nat // 0 < d }) : Socket :=
  { s with readTimeout := timeout }

/-- Read at most `len` bytes: some of those that are there, and none only at the
end of the stream. -/
def read (s : Socket) (len : Nat) : Arrival → Socket × Except (ErrorKind × String) (List UInt8)
  | .bytes more =>
    ({ s with unread := s.unread.drop (min len (more + 1)) },
      .ok (s.unread.take (min len (more + 1))))
  | .error kind e => (s, .error (kind, e))

end Socket

/-! ## The codec -/

inductive Decrypted (σ : Type) where
  | frame (bytes : List UInt8) (state : σ)
  | incomplete (missing : Nat) (state : σ)

/-- What the codec crates provide of the receiving side. -/
structure Codec where
  NoiseDecoder : Type
  TransportDecryptState : Type
  /-- The length of the chunk that is asked for. -/
  writableLen : NoiseDecoder → Nat
  /-- `writable().copy_from_slice`, for a slice of that length. -/
  copyFromSlice : NoiseDecoder → List UInt8 → NoiseDecoder
  nextTransportFrame : NoiseDecoder → TransportDecryptState →
    NoiseDecoder × Except String (Decrypted TransportDecryptState)

/-- The decoder together with the state it decrypts with, as a decoder of
chunks. A failed decryption consumes the state. -/
def Codec.chunks (C : Codec) :
    Decoder UInt8 (C.NoiseDecoder × Option C.TransportDecryptState) (Except Error Frame) where
  want s := C.writableLen s.1
  feed s chunk :=
    let decoder := C.copyFromSlice s.1 chunk
    match s.2 with
    | none =>
      ((decoder, none), some (.error (.noise "a decryption failed earlier on this connection")))
    | some state =>
      match C.nextTransportFrame decoder state with
      | (decoder, .error e) => ((decoder, none), some (.error (.codec e)))
      | (decoder, .ok (.frame bytes state)) =>
        ((decoder, some state), some (Frame.fromBytes bytes))
      | (decoder, .ok (.incomplete _ state)) => ((decoder, some state), none)

/-! ## The transport -/

/-- How far a call has come. -/
inductive Progress where
  | returned (result : Except Error Frame)
  | panicked (p : Panic)
  /-- It waits for the socket, or is out of fuel. -/
  | running

/-- A result that is of the decoder, and not of the socket. -/
def answered : Except Error Frame → Bool
  | .error (.io _ _) => false
  | .error .timeout => false
  | _ => true

/-- What a call that has come so far has answered. -/
def Progress.answers : Progress → List (Except Error Frame)
  | .returned result => [result].filter answered
  | _ => []

/-- The receiving side of a connection. -/
structure NoiseTransport (C : Codec) where
  socket : Socket
  decoder : C.NoiseDecoder
  /-- Taken for the duration of a decode. -/
  decrypt : Option C.TransportDecryptState
  /-- The chunk being read. -/
  pending : List UInt8
  filled : Nat

namespace NoiseTransport

variable {C : Codec}

def fromTransport (socket : Socket) (decoder : C.NoiseDecoder)
    (decrypt : C.TransportDecryptState) : NoiseTransport C where
  socket
  decoder
  decrypt := some decrypt
  pending := []
  filled := 0

/-- Read until the chunk is full, as far as there are arrivals. -/
def fill (expected : Nat) (t : NoiseTransport C) :
    List Arrival → NoiseTransport C × List Arrival × Option (Except Error Unit)
  -- no arrival is left: the read is pending unless the buffer is full
  | [] => (t, [], if t.filled < expected then none else some (.ok ()))
  | arrival :: arrivals =>
    if t.filled < expected then
      match t.socket.read (t.pending.length - t.filled) arrival with
      -- a read of no bytes is the end of the stream
      | (socket, .ok []) =>
        ({ t with socket }, arrivals,
          some (.error (.io .unexpectedEof "unexpected end of file")))
      | (socket, .ok (b :: read)) =>
        fill expected
          { t with
            socket
            pending := overwrite t.pending t.filled (b :: read)
            filled := t.filled + (b :: read).length }
          arrivals
      | (socket, .error (kind, e)) => ({ t with socket }, arrivals, some (.error (.io kind e)))
    else (t, arrival :: arrivals, some (.ok ()))

/-- Feed the chunk to the decoder. -/
def decode (t : NoiseTransport C) : NoiseTransport C × Option (Except Error Frame) :=
  let t := { t with decoder := C.copyFromSlice t.decoder t.pending, filled := 0 }
  match t.decrypt with
  | none => (t, some (.error (.noise "a decryption failed earlier on this connection")))
  | some state =>
    -- `take`: a frame that fails to decrypt leaves no state behind
    let t := { t with decrypt := none }
    match C.nextTransportFrame t.decoder state with
    | (decoder, .error e) => ({ t with decoder }, some (.error (.codec e)))
    | (decoder, .ok (.frame bytes state)) =>
      ({ t with decoder, decrypt := some state }, some (Frame.fromBytes bytes))
    | (decoder, .ok (.incomplete _ state)) => ({ t with decoder, decrypt := some state }, none)

def readFrame : Nat → NoiseTransport C → List Arrival → NoiseTransport C × List Arrival × Progress
  | 0, t, arrivals => (t, arrivals, .running)
  | fuel + 1, t, arrivals =>
    let expected := C.writableLen t.decoder
    let t :=
      if t.pending.length ≠ expected then
        { t with pending := resize 0 t.pending expected, filled := 0 }
      else t
    match t.fill expected arrivals with
    | (t, arrivals, none) => (t, arrivals, .running)
    | (t, arrivals, some (.error e)) => (t, arrivals, .returned (.error e))
    | (t, arrivals, some (.ok ())) =>
      -- a slice of another length is not copied
      if t.pending.length ≠ C.writableLen t.decoder then
        (t, arrivals, .panicked (.expect "copy_from_slice: source slice length"))
      else
        match t.decode with
        | (t, some result) => (t, arrivals, .returned result)
        | (t, none) => readFrame fuel t arrivals

/-- What `recv` makes of the result of `read_frame`. -/
def timedOut : Except Error Frame → Except Error Frame
  | .error (.io .wouldBlock _) => .error .timeout
  | .error (.io .timedOut _) => .error .timeout
  | other => other

/-- Set the socket up to wait for that long, and at least a millisecond. -/
def waitFor (t : NoiseTransport C) (timeout : Nat) : NoiseTransport C :=
  { t with socket := t.socket.setReadTimeout (some ⟨max timeout 1_000_000, by omega⟩) }

def recv (fuel timeout : Nat) (t : NoiseTransport C) (arrivals : List Arrival) :
    NoiseTransport C × List Arrival × Progress :=
  let previous := t.socket.readTimeout
  match (t.waitFor timeout).readFrame fuel arrivals with
  | (t, arrivals, .returned result) =>
    ({ t with socket := t.socket.setReadTimeout previous }, arrivals, .returned (timedOut result))
  | (t, arrivals, progress) => (t, arrivals, progress)

/-- One `recv` after another, each with a fuel and a timeout, as long as they
return. -/
def recvs : List (Nat × Nat) → NoiseTransport C → List Arrival →
    NoiseTransport C × List (Except Error Frame)
  | [], t, _ => (t, [])
  | (fuel, timeout) :: calls, t, arrivals =>
    match t.recv fuel timeout arrivals with
    | (t, arrivals, .returned result) =>
      let (t, results) := recvs calls t arrivals
      (t, result :: results)
    | (t, _, _) => (t, [])

/-! ## What is kept between calls -/

/-- The state of the decoder. -/
def state (t : NoiseTransport C) : C.NoiseDecoder × Option C.TransportDecryptState :=
  (t.decoder, t.decrypt)

/-- The part of a chunk that has been read. -/
def held (t : NoiseTransport C) : List UInt8 := t.pending.take t.filled

/-- What is kept of a chunk is of the chunk the decoder asks for. -/
def Kept (t : NoiseTransport C) : Prop :=
  t.filled = 0 ∨ t.pending.length = C.writableLen t.decoder ∧ t.filled ≤ t.pending.length

/-- The transport has read the stream up to `unread`, answering with `answers`. -/
def ReadsOn (start : C.NoiseDecoder × Option C.TransportDecryptState) (stream : List UInt8)
    (answers : List (Except Error Frame)) (t : NoiseTransport C) : Prop :=
  Reads C.chunks start stream answers t.state t.held t.socket.unread

section Steps

variable {start : C.NoiseDecoder × Option C.TransportDecryptState} {stream : List UInt8}
  {answers : List (Except Error Frame)} {t : NoiseTransport C} {expected : Nat}

/-- What filling a chunk leaves. -/
structure Filled (start : C.NoiseDecoder × Option C.TransportDecryptState) (stream : List UInt8)
    (answers : List (Except Error Frame)) (t : NoiseTransport C)
    (ended : Option (Except Error Unit)) : Prop where
  reads : ReadsOn start stream answers t
  length : t.pending.length = C.writableLen t.decoder
  le : t.filled ≤ t.pending.length
  full : ended = some (.ok ()) → t.filled = C.writableLen t.decoder
  /-- An error is one of the socket, and the chunk is not full yet. -/
  short : ∀ e, ended = some (.error e) →
    (∃ kind text, e = .io kind text) ∧ t.filled < C.writableLen t.decoder

/-- Bytes of the stream are taken in behind those that are held. -/
theorem ReadsOn.takes {got unread : List UInt8} (hReads : ReadsOn start stream answers t)
    (hUnread : t.socket.unread = got ++ unread)
    (hLength : t.pending.length = C.writableLen t.decoder)
    (hFits : t.filled + got.length ≤ t.pending.length) :
    ReadsOn start stream answers { t with
      socket := { t.socket with unread }
      pending := overwrite t.pending t.filled got
      filled := t.filled + got.length } := by
  -- what is held grows by the bytes that have been read
  have hHeld : (overwrite t.pending t.filled got).take (t.filled + got.length) = t.held ++ got :=
    take_overwrite (by omega)
  have hHeldLength : t.held.length = t.filled := by
    rw [held, List.length_take]
    omega
  show Reads C.chunks start stream answers t.state
    ((overwrite t.pending t.filled got).take (t.filled + got.length)) unread
  rw [hHeld]
  refine Reads.read (hUnread ▸ hReads) ?_
  show (t.held ++ got).length ≤ C.writableLen t.decoder
  rw [List.length_append, hHeldLength]
  omega

theorem fill_reads (hReads : ReadsOn start stream answers t)
    (hLength : t.pending.length = C.writableLen t.decoder) (hLe : t.filled ≤ t.pending.length)
    (arrivals : List Arrival) :
    Filled start stream answers (t.fill (C.writableLen t.decoder) arrivals).1
      (t.fill (C.writableLen t.decoder) arrivals).2.2 := by
  induction arrivals generalizing t with
  | nil =>
    unfold fill
    by_cases hShort : t.filled < C.writableLen t.decoder
    · rw [if_pos hShort]
      refine ⟨hReads, hLength, hLe, fun hFull => ?_, fun e hError => ?_⟩
      · cases hFull
      · cases hError
    · rw [if_neg hShort]
      refine ⟨hReads, hLength, hLe, fun _ => ?_, fun e hError => ?_⟩
      · exact Nat.le_antisymm (hLength ▸ hLe) (Nat.not_lt.mp hShort)
      · cases hError
  | cons arrival arrivals ih =>
    unfold fill
    by_cases hShort : t.filled < C.writableLen t.decoder
    · rw [if_pos hShort]
      -- nothing is taken in: an error, or the end of the stream
      have hStops : ∀ (socket : Socket) (kind : ErrorKind) (e : String),
          socket.unread = t.socket.unread →
          Filled start stream answers { t with socket } (some (.error (.io kind e))) := by
        intro socket kind e hSocket
        refine ⟨?_, hLength, hLe, fun hFull => ?_, fun e' hError => ⟨⟨kind, e, ?_⟩, hShort⟩⟩
        · show Reads C.chunks start stream answers t.state t.held socket.unread
          rw [hSocket]
          exact hReads
        · cases hFull
        · exact (Except.error.inj (Option.some.inj hError)).symm
      cases arrival with
      | error kind e => exact hStops t.socket kind e rfl
      | bytes more =>
        set k := min (t.pending.length - t.filled) (more + 1) with hk
        have hSplit : t.socket.unread = t.socket.unread.take k ++ t.socket.unread.drop k :=
          (List.take_append_drop _ _).symm
        simp only [Socket.read, ← hk]
        cases hGot : t.socket.unread.take k with
        | nil =>
          refine hStops _ _ _ ?_
          rw [hGot, List.nil_append] at hSplit
          exact hSplit.symm
        | cons b read =>
          have hRoom : t.filled + (b :: read).length ≤ t.pending.length := by
            rw [← hGot, List.length_take]
            omega
          rw [hGot] at hSplit
          have hTaken := hReads.takes hSplit hLength hRoom
          refine ih hTaken ?_ ?_
          · rw [← hLength]
            exact length_overwrite hRoom
          · exact hRoom.trans_eq (length_overwrite hRoom).symm
    · rw [if_neg hShort]
      refine ⟨hReads, hLength, hLe, fun _ => ?_, fun e hError => ?_⟩
      · exact Nat.le_antisymm (hLength ▸ hLe) (Nat.not_lt.mp hShort)
      · cases hError

/-- A chunk that is decoded is fed to the decoder. -/
theorem decode_eq (t : NoiseTransport C) :
    t.decode =
      ({ t with
        decoder := (C.chunks.feed t.state t.pending).1.1
        decrypt := (C.chunks.feed t.state t.pending).1.2
        filled := 0 }, (C.chunks.feed t.state t.pending).2) := by
  unfold decode Codec.chunks state
  cases t.decrypt with
  | none => rfl
  | some decrypt =>
    simp only
    split <;> rfl

/-- What the decoder yields is not of the socket. -/
theorem answered_feed {s : C.NoiseDecoder × Option C.TransportDecryptState} {chunk : List UInt8}
    {result : Except Error Frame} (h : (C.chunks.feed s chunk).2 = some result) :
    answered result = true := by
  unfold Codec.chunks at h
  simp only at h
  split at h
  · obtain rfl := Option.some.inj h
    rfl
  · split at h
    · obtain rfl := Option.some.inj h
      rfl
    · rename_i bytes _ _
      obtain rfl := Option.some.inj h
      -- a frame, or the error of one that is too short
      unfold Frame.fromBytes
      split
      · split <;> rfl
      · rfl
    · cases h

/-- Resize the buffer to the chunk that is asked for. -/
def resized (t : NoiseTransport C) : NoiseTransport C :=
  if t.pending.length ≠ C.writableLen t.decoder then
    { t with pending := resize 0 t.pending (C.writableLen t.decoder), filled := 0 }
  else t

/-- Resizing drops nothing that was kept. -/
theorem resized_held (hKept : t.Kept) :
    t.resized.held = t.held ∧ t.resized.socket = t.socket ∧ t.resized.state = t.state := by
  unfold resized
  by_cases hLength : t.pending.length = C.writableLen t.decoder
  · rw [if_neg (not_not_intro hLength)]
    exact ⟨rfl, rfl, rfl⟩
  · rw [if_pos hLength]
    refine ⟨?_, rfl, rfl⟩
    rcases hKept with hFilled | ⟨hEq, -⟩
    · rw [held, held, hFilled, List.take_zero, List.take_zero]
    · exact absurd hEq hLength

theorem resized_length (hKept : t.Kept) :
    t.resized.pending.length = C.writableLen t.resized.decoder ∧
      t.resized.filled ≤ t.resized.pending.length := by
  unfold resized
  by_cases hLength : t.pending.length = C.writableLen t.decoder
  · rw [if_neg (not_not_intro hLength)]
    refine ⟨hLength, ?_⟩
    rcases hKept with hFilled | ⟨-, hLe⟩
    · rw [hFilled]
      exact Nat.zero_le _
    · exact hLe
  · rw [if_pos hLength]
    exact ⟨length_resize _ _ _, Nat.zero_le _⟩

/-- A turn of the loop of `read_frame`. -/
theorem readFrame_succ (t : NoiseTransport C) (fuel : Nat) (arrivals : List Arrival) :
    t.readFrame (fuel + 1) arrivals =
      match t.resized.fill (C.writableLen t.resized.decoder) arrivals with
      | (t, arrivals, none) => (t, arrivals, .running)
      | (t, arrivals, some (.error e)) => (t, arrivals, .returned (.error e))
      | (t, arrivals, some (.ok ())) =>
        if t.pending.length ≠ C.writableLen t.decoder then
          (t, arrivals, .panicked (.expect "copy_from_slice: source slice length"))
        else
          match t.decode with
          | (t, some result) => (t, arrivals, .returned result)
          | (t, none) => readFrame fuel t arrivals := by
  have hDecoder : t.resized.decoder = t.decoder := by
    unfold resized
    split <;> rfl
  rw [readFrame, hDecoder]
  rfl

/-- What a call leaves, however far it comes. -/
structure Called (start : C.NoiseDecoder × Option C.TransportDecryptState) (stream : List UInt8)
    (answers : List (Except Error Frame)) (t : NoiseTransport C) (progress : Progress) :
    Prop where
  reads : ReadsOn start stream (answers ++ progress.answers) t
  kept : t.Kept
  noPanic : ∀ p, progress ≠ .panicked p
  /-- The socket is to blame while the chunk is not full. -/
  short : ∀ result, progress = .returned result → answered result = false →
    t.held.length < C.writableLen t.decoder

theorem readFrame_called (hReads : ReadsOn start stream answers t) (hKept : t.Kept) (fuel : Nat)
    (arrivals : List Arrival) :
    Called start stream answers (t.readFrame fuel arrivals).1
      (t.readFrame fuel arrivals).2.2 := by
  induction fuel generalizing t arrivals with
  | zero =>
    refine ⟨?_, hKept, fun p h => ?_, fun result h => ?_⟩
    · show ReadsOn start stream (answers ++ []) t
      rwa [List.append_nil]
    · cases h
    · cases h
  | succ fuel ih =>
    obtain ⟨hHeld, hSocket, hState⟩ := resized_held hKept
    obtain ⟨hLength, hLe⟩ := resized_length hKept
    have hResized : ReadsOn start stream answers t.resized := by
      unfold ReadsOn
      rw [hHeld, hSocket, hState]
      exact hReads
    rw [readFrame_succ]
    have hFilled := fill_reads hResized hLength hLe arrivals
    rcases hFill : t.resized.fill (C.writableLen t.resized.decoder) arrivals with ⟨t₁, later, ended⟩
    rw [hFill] at hFilled
    have hKept₁ : t₁.Kept := Or.inr ⟨hFilled.length, hFilled.le⟩
    cases ended with
    | none =>
      refine ⟨?_, hKept₁, fun p h => ?_, fun result h => ?_⟩
      · show ReadsOn start stream (answers ++ []) t₁
        rw [List.append_nil]
        exact hFilled.reads
      · cases h
      · cases h
    | some ended =>
      cases ended with
      | error e =>
        obtain ⟨⟨kind, text, rfl⟩, hShort⟩ := hFilled.short e rfl
        refine ⟨?_, hKept₁, fun p h => ?_, fun result h _ => ?_⟩
        · show ReadsOn start stream (answers ++ []) t₁
          rw [List.append_nil]
          exact hFilled.reads
        · cases h
        · show (t₁.pending.take t₁.filled).length < _
          rw [List.length_take]
          exact Nat.lt_of_le_of_lt (Nat.min_le_left _ _) hShort
      | ok _ =>
        have hFull : t₁.filled = C.writableLen t₁.decoder := hFilled.full rfl
        have hHeld : t₁.held = t₁.pending := by
          rw [held, hFull, ← hFilled.length, List.take_length]
        -- the full chunk is fed to the decoder
        have hFed := hFilled.reads.feed (hHeld ▸ hFilled.length)
        rw [hHeld] at hFed
        simp only [if_neg (not_not_intro hFilled.length), decode_eq]
        cases hAnswer : (C.chunks.feed t₁.state t₁.pending).2 with
        | none =>
          rw [hAnswer, Option.toList_none, List.append_nil] at hFed
          refine ih ?_ (Or.inl rfl) later
          show Reads C.chunks start stream answers (C.chunks.feed t₁.state t₁.pending).1
            (t₁.pending.take 0) t₁.socket.unread
          exact hFed
        | some result =>
          have hAnswered := answered_feed hAnswer
          rw [hAnswer, Option.toList_some] at hFed
          refine ⟨?_, Or.inl rfl, fun p h => ?_, fun result' h hNot => ?_⟩
          · show Reads C.chunks start stream (answers ++ [result].filter answered)
              (C.chunks.feed t₁.state t₁.pending).1 (t₁.pending.take 0) t₁.socket.unread
            rw [List.filter_singleton, hAnswered]
            exact hFed
          · cases h
          · obtain rfl := Progress.returned.inj h
            rw [hAnswered] at hNot
            cases hNot

/-- A timeout takes the place of an error of the socket. -/
theorem answered_timedOut (result : Except Error Frame) :
    answered (timedOut result) = answered result ∧
      (answered result = true → timedOut result = result) := by
  unfold timedOut
  split <;> simp [answered]

/-- **One `recv`** reads on where the one before it stopped, whether or not it
returns. -/
theorem recv_reads (hReads : ReadsOn start stream answers t) (hKept : t.Kept)
    (fuel timeout : Nat) (arrivals : List Arrival) :
    Called start stream answers (t.recv fuel timeout arrivals).1
      (t.recv fuel timeout arrivals).2.2 := by
  unfold recv
  -- what the socket waits for is not what is read from it
  have hWaits : ReadsOn start stream answers (t.waitFor timeout) := hReads
  have hWaitsKept : (t.waitFor timeout).Kept := hKept
  have h := readFrame_called hWaits hWaitsKept fuel arrivals
  split
  · rename_i t₁ later result hRead
    rw [hRead] at h
    obtain ⟨hSame, hTimedOut⟩ := answered_timedOut result
    have hAnswers : (Progress.returned (timedOut result)).answers =
        (Progress.returned result).answers := by
      cases hAnswered : answered result with
      | false => simp [Progress.answers, hSame, hAnswered]
      | true => rw [hTimedOut hAnswered]
    refine ⟨?_, h.kept, fun p hPanic => ?_, fun r hReturned hNot => ?_⟩
    · show ReadsOn start stream (answers ++ (Progress.returned (timedOut result)).answers) t₁
      rw [hAnswers]
      exact h.reads
    · cases hPanic
    · obtain rfl := Progress.returned.inj hReturned
      exact h.short result rfl (hSame ▸ hNot)
  · rename_i t₁ later progress hNot hRead
    rw [hRead] at h
    exact h

/-- **Any number of them** read the stream on, and at its end nothing is left
out. -/
theorem recvs_reads (hReads : ReadsOn start stream answers t) (hKept : t.Kept)
    (calls : List (Nat × Nat)) (arrivals : List Arrival) :
    ReadsOn start stream (answers ++ (t.recvs calls arrivals).2.filter answered)
        (t.recvs calls arrivals).1 ∧
      (t.recvs calls arrivals).1.Kept ∧
      ((t.recvs calls arrivals).2.length = calls.length →
        ∀ result, (t.recvs calls arrivals).2.getLast? = some result → answered result = false →
          (t.recvs calls arrivals).1.held.length <
            C.writableLen (t.recvs calls arrivals).1.decoder) := by
  induction calls generalizing t answers arrivals with
  | nil =>
    refine ⟨?_, hKept, fun _ result hLast => ?_⟩
    · show ReadsOn start stream (answers ++ []) t
      rwa [List.append_nil]
    · cases hLast
  | cons call calls ih =>
    obtain ⟨fuel, timeout⟩ := call
    have hCalled := recv_reads hReads hKept fuel timeout arrivals
    unfold recvs
    split
    · rename_i t₁ later result hRecv
      rw [hRecv] at hCalled
      -- the invariant is that of one call, with the calls after it
      obtain ⟨hRest, hRestKept, hLast⟩ := ih hCalled.reads hCalled.kept later
      refine ⟨?_, hRestKept, fun hLength r hGetLast hNot => ?_⟩
      · show ReadsOn start stream
          (answers ++ (result :: (t₁.recvs calls later).2).filter answered) (t₁.recvs calls later).1
        rw [← List.singleton_append, List.filter_append, ← List.append_assoc]
        exact hRest
      · -- the last result is that of the last call
        have hAll : (t₁.recvs calls later).2.length = calls.length := Nat.succ.inj hLength
        cases calls with
        | nil =>
          obtain rfl : result = r := Option.some.inj hGetLast
          exact hCalled.short result rfl hNot
        | cons call calls =>
          refine hLast hAll r ?_ hNot
          obtain ⟨r', results, hResults⟩ := List.exists_cons_of_length_eq_add_one hAll
          rw [← hGetLast]
          show _ = (result :: (t₁.recvs (call :: calls) later).2).getLast?
          rw [hResults, List.getLast?_cons_cons]
    · rename_i t₁ later progress hNot hRecv
      rw [hRecv] at hCalled
      -- a call that does not return answers nothing
      have hNone : progress.answers = [] := by
        cases progress with
        | returned result => exact (hNot result rfl).elim
        | panicked p => rfl
        | running => rfl
      refine ⟨?_, hCalled.kept, fun _ r hGetLast => ?_⟩
      · show ReadsOn start stream (answers ++ []) t₁
        exact hNone ▸ hCalled.reads
      · cases hGetLast

/-! ## A call that returns -/

theorem length_held (hLe : t.filled ≤ t.pending.length) : t.held.length = t.filled := by
  rw [held, List.length_take]
  exact Nat.min_eq_left hLe

/-- Without errors, and with as many arrivals as bytes are missing, a chunk is
filled with what comes next. -/
theorem fill_full (hLength : t.pending.length = C.writableLen t.decoder)
    (hLe : t.filled ≤ t.pending.length) {mores : List Nat}
    (hBytes : C.writableLen t.decoder ≤ t.filled + t.socket.unread.length)
    (hMores : C.writableLen t.decoder ≤ t.filled + mores.length) :
    ∃ (t' : NoiseTransport C) (mores' : List Nat),
      t.fill (C.writableLen t.decoder) (mores.map .bytes) =
        (t', mores'.map .bytes, some (.ok ())) ∧
      t'.state = t.state ∧ t'.pending.length = C.writableLen t'.decoder ∧
      t'.pending ++ t'.socket.unread = t.held ++ t.socket.unread ∧
      t.filled + mores.length ≤ C.writableLen t.decoder + mores'.length := by
  induction mores generalizing t with
  | nil =>
    have hFull : ¬ t.filled < C.writableLen t.decoder := by simpa using hMores
    refine ⟨t, [], ?_, rfl, hLength, ?_, by simpa [← hLength] using hLe⟩
    · simp only [List.map_nil, fill, if_neg hFull]
    · rw [held, Nat.le_antisymm hLe (hLength ▸ Nat.not_lt.mp hFull), List.take_length]
  | cons more mores ih =>
    rw [List.map_cons, fill]
    by_cases hShort : t.filled < C.writableLen t.decoder
    · rw [if_pos hShort]
      set k := min (t.pending.length - t.filled) (more + 1) with hk
      simp only [Socket.read, ← hk]
      have hSplit : t.socket.unread.take k ++ t.socket.unread.drop k = t.socket.unread :=
        List.take_append_drop _ _
      cases hGot : t.socket.unread.take k with
      | nil =>
        -- bytes are missing, so there are some to be read
        have hNone := congrArg List.length hGot
        rw [List.length_take, List.length_nil] at hNone
        omega
      | cons b read =>
        have hRead : (b :: read).length = min k t.socket.unread.length := by
          rw [← hGot, List.length_take]
        have hRoom : t.filled + (b :: read).length ≤ t.pending.length := by omega
        rw [hGot] at hSplit
        have hUnread := congrArg List.length hSplit
        rw [List.length_append] at hUnread
        rw [List.length_cons] at hMores
        obtain ⟨t', mores', hFill, hState, hLength', hBytes', hMores'⟩ := ih
          (t := { t with
            socket := { t.socket with unread := t.socket.unread.drop k }
            pending := overwrite t.pending t.filled (b :: read)
            filled := t.filled + (b :: read).length })
          ((length_overwrite hRoom).trans hLength)
          (hRoom.trans_eq (length_overwrite hRoom).symm)
          (by show C.writableLen t.decoder ≤ _; simp only; omega)
          (by show C.writableLen t.decoder ≤ _; simp only [List.length_cons] at hRead ⊢; omega)
        refine ⟨t', mores', hFill, hState, hLength', ?_, ?_⟩
        · rw [hBytes']
          show (overwrite t.pending t.filled (b :: read)).take (t.filled + (b :: read).length) ++
            t.socket.unread.drop k = t.held ++ t.socket.unread
          rw [take_overwrite hLe, List.append_assoc, hSplit]
          rfl
        · simp only [List.length_cons] at hMores' ⊢
          omega
    · rw [if_neg hShort]
      refine ⟨t, more :: mores, rfl, rfl, hLength, ?_, by omega⟩
      rw [held, Nat.le_antisymm hLe (hLength ▸ Nat.not_lt.mp hShort), List.take_length]

/-- What the decoder yields next on whole chunks is returned. -/
theorem readFrame_returns {s s' : C.NoiseDecoder × Option C.TransportDecryptState}
    {bytes : List UInt8} {results : List (Except Error Frame)} {result : Except Error Frame}
    (hWhole : Whole C.chunks s bytes results s') (hResults : results = [result])
    (hState : t.state = s) (hKept : t.Kept) (hBytes : bytes <+: t.held ++ t.socket.unread)
    {mores : List Nat} (hMores : bytes.length ≤ mores.length) :
    ∃ n, ∀ fuel, n ≤ fuel → (t.readFrame fuel (mores.map .bytes)).2.2 = .returned result := by
  induction hWhole generalizing t mores with
  | nil => cases hResults
  | @chunk s s' chunk bytes answers hChunk rest ih =>
    obtain ⟨hHeld, hSocket, hResized⟩ := resized_held hKept
    obtain ⟨hLength, hLe⟩ := resized_length hKept
    rw [hState] at hResized
    have hWant : chunk.length = C.writableLen t.resized.decoder := by
      rw [show t.resized.decoder = s.1 from congrArg Prod.fst hResized]
      exact hChunk
    have hHeldLength : t.held.length = t.resized.filled := hHeld ▸ length_held hLe
    have hLeft := hBytes.length_le
    simp only [List.length_append] at hLeft hMores
    obtain ⟨t₁, mores₁, hFill, hState₁, hLength₁, hBytes₁, hMores₁⟩ :=
      fill_full hLength hLe (by rw [hSocket]; omega)
        (show _ ≤ t.resized.filled + mores.length by omega)
    rw [hHeld, hSocket] at hBytes₁
    rw [hResized] at hState₁
    -- the chunk that is filled is the next of the stream
    obtain ⟨tail, hTail⟩ := hBytes
    rw [← hBytes₁, List.append_assoc] at hTail
    have hDecoder : t₁.decoder = s.1 := congrArg Prod.fst hState₁
    have hSame : chunk.length = t₁.pending.length := by
      rw [hLength₁, hDecoder]
      exact hChunk
    obtain ⟨rfl, hRest⟩ := List.append_inj hTail hSame
    have hTurn : ∀ fuel, t.readFrame (fuel + 1) (mores.map .bytes) =
        match t₁.decode with
        | (t, some result) => (t, mores₁.map .bytes, .returned result)
        | (t, none) => readFrame fuel t (mores₁.map .bytes) := by
      intro fuel
      rw [readFrame_succ, hFill]
      simp only [if_neg (not_not_intro hLength₁)]
    rw [decode_eq, hState₁] at hTurn
    cases hAnswer : (C.chunks.feed s t₁.pending).2 with
    | some r =>
      rw [hAnswer] at hResults hTurn
      obtain rfl : r = result := List.head_eq_of_cons_eq hResults
      refine ⟨1, fun fuel hFuel => ?_⟩
      obtain ⟨k, rfl⟩ := Nat.exists_eq_add_of_le' hFuel
      rw [hTurn]
    | none =>
      rw [hAnswer] at hResults hTurn
      obtain ⟨n, hReturns⟩ := ih hResults rfl (Or.inl rfl)
        (t := { t₁ with
          decoder := (C.chunks.feed s t₁.pending).1.1
          decrypt := (C.chunks.feed s t₁.pending).1.2
          filled := 0 }) ⟨tail, hRest⟩ (show _ ≤ mores₁.length by omega)
      refine ⟨n + 1, fun fuel hFuel => ?_⟩
      obtain ⟨k, rfl⟩ := Nat.exists_eq_add_of_le' hFuel
      rw [← Nat.add_assoc, hTurn]
      exact hReturns (k + n) (by omega)

/-- Whatever the decoder yields is not of the socket. -/
theorem answered_of_whole {s s' : C.NoiseDecoder × Option C.TransportDecryptState}
    {bytes : List UInt8} {results : List (Except Error Frame)}
    (h : Whole C.chunks s bytes results s') : ∀ result ∈ results, answered result = true := by
  induction h with
  | nil =>
    intro result hMem
    cases hMem
  | chunk _ _ ih =>
    intro result hMem
    rcases List.mem_append.mp hMem with hFed | hRest
    · exact answered_feed (Option.mem_toList.mp hFed)
    · exact ih result hRest

/-- **A `recv` returns** what whole chunks yield next, if no read fails before
the bytes are there. -/
theorem recv_returns (hReads : ReadsOn start stream answers t) (hKept : t.Kept)
    {result : Except Error Frame} (hNext : Answers C.chunks start stream (answers ++ [result]))
    (timeout : Nat) {mores : List Nat} (hMores : stream.length ≤ mores.length) :
    ∃ n, ∀ fuel, n ≤ fuel →
      (t.recv fuel timeout (mores.map .bytes)).2.2 = .returned result := by
  obtain ⟨bytes, s'', hBytes, hWhole⟩ := Reads.next hReads hNext
  -- the bytes that are missing are not more than the stream
  have hLeft : bytes.length ≤ mores.length := by
    obtain ⟨fed, hStream, -⟩ := hReads.fed
    have hLength := congrArg List.length hStream
    have hLe := hBytes.length_le
    simp only [List.length_append] at hLength hLe
    omega
  -- the timeout is not part of what is kept
  have hWaitsKept : (t.waitFor timeout).Kept := hKept
  obtain ⟨n, hReturns⟩ := readFrame_returns (t := t.waitFor timeout) hWhole rfl rfl hWaitsKept
    hBytes hLeft
  refine ⟨n, fun fuel hFuel => ?_⟩
  have hRead := hReturns fuel hFuel
  unfold recv
  rcases hResult : (t.waitFor timeout).readFrame fuel (mores.map .bytes) with ⟨t₁, later, progress⟩
  rw [hResult] at hRead
  obtain rfl : progress = .returned result := hRead
  exact congrArg Progress.returned
    ((answered_timedOut result).2 (answered_of_whole hWhole result List.mem_cons_self))

end Steps

/-- **Reception does not depend on how bytes arrive.** What any number of `recv`s
answer is what the decoder yields on chunks that arrive whole, and what they have
read of the stream beyond those chunks they hold. A further `recv` returns what
whole chunks yield next once the bytes are there; and at the end of the stream,
when there is nothing more to wait for, everything has been returned. -/
theorem recv_whole_chunks (socket : Socket) (decoder : C.NoiseDecoder)
    (decrypt : C.TransportDecryptState) (calls : List (Nat × Nat)) (arrivals : List Arrival) :
    let start := (decoder, some decrypt)
    let (t, results) := (fromTransport socket decoder decrypt).recvs calls arrivals
    ReadsOn start socket.unread (results.filter answered) t ∧
      (∀ answers, Answers C.chunks start socket.unread answers →
        results.filter answered <+: answers ∨ answers <+: results.filter answered) ∧
      (∀ result, Answers C.chunks start socket.unread (results.filter answered ++ [result]) →
        ∀ timeout (mores : List Nat), socket.unread.length ≤ mores.length →
          ∃ n, ∀ fuel, n ≤ fuel →
            (t.recv fuel timeout (mores.map .bytes)).2.2 = .returned result) ∧
      (results.length = calls.length →
        ∀ result, results.getLast? = some result → answered result = false →
          t.socket.unread = [] →
            ∀ answers, Answers C.chunks start socket.unread answers →
              answers <+: results.filter answered) := by
  have hStart : ReadsOn (decoder, some decrypt) socket.unread []
      (fromTransport socket decoder decrypt : NoiseTransport C) := .start _ _ _
  obtain ⟨hReads, hKept, hLast⟩ := recvs_reads hStart (Or.inl rfl) calls arrivals
  rw [List.nil_append] at hReads
  refine ⟨hReads, fun answers h => Reads.comparable hReads h,
    fun result h timeout mores hMores => recv_returns hReads hKept h timeout hMores,
    fun hLength result hGetLast hNot hEnd answers h => ?_⟩
  unfold ReadsOn at hReads
  rw [hEnd] at hReads
  exact hReads.exhausted (hLast hLength result hGetLast hNot) h

end NoiseTransport

end Stratamoto
