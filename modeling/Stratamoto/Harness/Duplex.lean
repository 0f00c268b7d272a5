import Stratamoto.Harness.Noise

/-!
# Stratamoto — both ends of a Noise connection

`noise.rs`: what `send` puts on the socket of one end, `recv` takes from that of the
other. The two ends are joined by what the codec promises of them (`Codecs.Lawful`):
a frame that is encoded at one end is decoded at the other, chunk by chunk, and they
agree again then.

* `NoiseSender.send` — the sending side;
* `accepted` — the sends that put a whole frame on the wire;
* `sends_whole` — the wire is read in whole chunks as their frames;
* `sent_is_received` — and so in whatever pieces it arrives.
-/

namespace Stratamoto

open Chunks

/-! ## The sending side -/

/-- What the codec crates provide of both sides. -/
structure Codecs extends Codec where
  NoiseEncoder : Type
  TransportEncryptState : Type
  SerializedFrame : Type
  serializedFrame : List UInt8 → Option SerializedFrame
  encodeTransport : NoiseEncoder → SerializedFrame → TransportEncryptState →
    NoiseEncoder × TransportEncryptState × Except String (List UInt8)

/-- How `write_all` ends: with all that is to be written, or short of that. -/
inductive Write where
  | all
  | error (written : Nat) (kind : ErrorKind) (e : String)
  deriving DecidableEq, Repr

/-- The sending side of a connection. -/
structure NoiseSender (C : Codecs) where
  encoder : C.NoiseEncoder
  encrypt : C.TransportEncryptState
  /-- What has been put on the socket. -/
  wire : List UInt8

/-- What is to be sent. -/
structure Send where
  extensionType : UInt16
  messageType : UInt8
  channelMsg : Bool
  payload : List UInt8
  deriving DecidableEq, Repr

namespace NoiseSender

variable {C : Codecs}

def send (t : NoiseSender C) (s : Send) (write : Write) : NoiseSender C × Except Error Unit :=
  match assemble s.extensionType s.messageType s.channelMsg s.payload with
  | .error e => (t, .error e)
  | .ok bytes =>
    match C.serializedFrame bytes with
    | none => (t, .error (.framing "could not frame the payload"))
    | some frame =>
      match C.encodeTransport t.encoder frame t.encrypt with
      | (encoder, encrypt, .error e) => ({ t with encoder, encrypt }, .error (.codec e))
      | (encoder, encrypt, .ok encoded) =>
        match write with
        | .all => ({ encoder, encrypt, wire := t.wire ++ encoded }, .ok ())
        | .error written kind e =>
          ({ encoder, encrypt, wire := t.wire ++ encoded.take written }, .error (.io kind e))

/-- One `send` after another. -/
def sends : List (Send × Write) → NoiseSender C → NoiseSender C × List (Except Error Unit)
  | [], t => (t, [])
  | (s, write) :: rest, t =>
    let (t, result) := t.send s write
    let (t, results) := sends rest t
    (t, result :: results)

end NoiseSender

/-- The error leaves the connection as it was: the frame was not laid out. After any other
the send counts as torn, also where the codec refused to encode the frame: it has moved
on by then, and what it promises of the other end no longer holds. -/
def Error.isFraming : Error → Bool
  | .framing _ => true
  | _ => false

/-- The sends that put a whole frame on the wire, up to the first that is torn. -/
def accepted : List Send → List (Except Error Unit) → List Send
  | s :: sends, .ok () :: results => s :: accepted sends results
  | _ :: sends, .error e :: results => if e.isFraming then accepted sends results else []
  | _, _ => []

/-- No send was torn: none failed in writing, and none in the codec. -/
def untorn (results : List (Except Error Unit)) : Bool :=
  results.all fun
    | .ok () => true
    | .error e => e.isFraming

/-- The frame says what was to be sent. -/
structure Send.CarriedBy (s : Send) (frame : Frame) : Prop where
  extensionType : frame.extTypeWithoutChannelMsg = s.extensionType &&& ~~~channelMsgMask
  channelMsg : frame.channelMsg = s.channelMsg
  messageType : frame.messageType = s.messageType
  payload : frame.payload = s.payload

/-- The channel bit is the highest of the word. -/
theorem channelMsg_iff {frame : Frame} :
    frame.channelMsg = true ↔ 2 ^ 15 ≤ frame.extensionType.toNat := by
  have hMask : channelMsgMask.toNat = 2 ^ 15 := by decide
  have hLt := frame.extensionType.toNat_lt
  have hBit : (frame.extensionType &&& channelMsgMask).toNat =
      (frame.extensionType.toNat.testBit 15).toNat * 2 ^ 15 := by
    rw [UInt16.toNat_and, hMask, Nat.and_two_pow]
  have hTop : frame.extensionType.toNat / 2 ^ 15 % 2 = 1 ↔ 2 ^ 15 ≤ frame.extensionType.toNat := by
    omega
  rw [Frame.channelMsg, decide_eq_true_iff, ne_eq, ← UInt16.toNat_inj, hBit,
    Nat.testBit_eq_decide_div_mod_eq, ← hTop]
  simp

/-- What is assembled for a send is read as a frame that says it. -/
theorem Send.carriedBy_of_assemble {s : Send} {bytes : List UInt8}
    (h : assemble s.extensionType s.messageType s.channelMsg s.payload = .ok bytes) :
    ∃ frame, Frame.fromBytes bytes = .ok frame ∧ s.CarriedBy frame := by
  obtain ⟨frame, hFrame, hWord, hType, hPayload⟩ := Frame.fromBytes_assemble h
  obtain ⟨hLow, hHigh⟩ := headerWord_read s.extensionType s.channelMsg
  refine ⟨frame, hFrame, ?_, ?_, hType, hPayload⟩
  · rw [← UInt16.toNat_inj, Frame.extTypeWithoutChannelMsg, toNat_clearChannel, toNat_clearChannel,
      hWord, hLow]
  · rw [← hHigh, ← hWord, Bool.eq_iff_iff, channelMsg_iff, decide_eq_true_iff]

/-! ## What the codec promises -/

/-- The two ends agree, and a frame that is encoded at one is decoded at the other,
where they agree again. -/
structure Codecs.Lawful (C : Codecs)
    (Paired : C.NoiseEncoder → C.TransportEncryptState → C.NoiseDecoder →
      C.TransportDecryptState → Prop) : Prop where
  decodes : ∀ encoder encrypt decoder decrypt bytes frame encoder' encrypt' encoded,
    Paired encoder encrypt decoder decrypt → C.serializedFrame bytes = some frame →
    C.encodeTransport encoder frame encrypt = (encoder', encrypt', .ok encoded) →
    ∃ decoder' decrypt', Whole C.chunks (decoder, some decrypt) encoded [Frame.fromBytes bytes]
      (decoder', some decrypt') ∧ Paired encoder' encrypt' decoder' decrypt'
  /-- The decoder waits for bytes before a frame. -/
  asks : ∀ encoder encrypt decoder decrypt, Paired encoder encrypt decoder decrypt →
    0 < C.writableLen decoder

section Pair

variable {C : Codecs} {Paired : C.NoiseEncoder → C.TransportEncryptState → C.NoiseDecoder →
  C.TransportDecryptState → Prop}

namespace NoiseSender

/-- What a send does: it leaves the connection as it was, or puts the whole of a frame
on the wire, or is torn. -/
theorem send_cases (hC : C.Lawful Paired) {t : NoiseSender C} {decoder : C.NoiseDecoder}
    {decrypt : C.TransportDecryptState} (hPaired : Paired t.encoder t.encrypt decoder decrypt)
    (s : Send) (write : Write) :
    (∃ e, t.send s write = (t, .error e) ∧ e.isFraming = true) ∨
    (∃ t' encoded frame decoder' decrypt', t.send s write = (t', .ok ()) ∧
      t'.wire = t.wire ++ encoded ∧ s.CarriedBy frame ∧
      Whole C.chunks (decoder, some decrypt) encoded [.ok frame] (decoder', some decrypt') ∧
      Paired t'.encoder t'.encrypt decoder' decrypt') ∨
    ∃ t' rest e, t.send s write = (t', .error e) ∧ t'.wire = t.wire ++ rest ∧
      e.isFraming = false := by
  unfold send
  cases hBytes : assemble s.extensionType s.messageType s.channelMsg s.payload with
  | error e =>
    have hFraming : e.isFraming = true := by
      unfold assemble at hBytes
      split at hBytes
      · cases hBytes
        rfl
      · cases hBytes
    exact Or.inl ⟨e, rfl, hFraming⟩
  | ok bytes =>
    obtain ⟨frame, hFrame, hCarried⟩ := Send.carriedBy_of_assemble hBytes
    dsimp only
    cases hSerialized : C.serializedFrame bytes with
    | none => exact Or.inl ⟨_, rfl, rfl⟩
    | some serialized =>
      dsimp only
      rcases hEncode : C.encodeTransport t.encoder serialized t.encrypt with
        ⟨encoder, encrypt, e | encoded⟩
      · -- the encoder has moved on, and no bytes are written
        exact Or.inr (Or.inr ⟨_, [], _, rfl, (List.append_nil _).symm, rfl⟩)
      · cases write with
        | all =>
          obtain ⟨decoder', decrypt', hWhole, hPaired'⟩ :=
            hC.decodes _ _ _ _ _ _ _ _ _ hPaired hSerialized hEncode
          rw [hFrame] at hWhole
          exact Or.inr (Or.inl ⟨_, encoded, frame, decoder', decrypt', rfl, rfl, hCarried, hWhole,
            hPaired'⟩)
        | error written kind e => exact Or.inr (Or.inr ⟨_, encoded.take written, _, rfl, rfl, rfl⟩)

/-- What is sent takes nothing back from the wire. -/
theorem wire_send (t : NoiseSender C) (s : Send) (write : Write) :
    t.wire <+: (t.send s write).1.wire := by
  unfold send
  split
  · exact List.prefix_refl _
  · split
    · exact List.prefix_refl _
    · split
      · exact List.prefix_refl _
      · split
        · exact List.prefix_append _ _
        · exact List.prefix_append _ _

theorem wire_sends (t : NoiseSender C) (sends : List (Send × Write)) :
    t.wire <+: (t.sends sends).1.wire := by
  induction sends generalizing t with
  | nil => exact List.prefix_refl _
  | cons call sends ih => exact (t.wire_send call.1 call.2).trans (ih _)

/-- **The wire is read in whole chunks** as the frames of the sends that put one there,
and if none was torn nothing else is on it. -/
theorem sends_whole (hC : C.Lawful Paired) {t : NoiseSender C} {decoder : C.NoiseDecoder}
    {decrypt : C.TransportDecryptState} (hPaired : Paired t.encoder t.encrypt decoder decrypt)
    (sends : List (Send × Write)) : ∃ frames bytes rest decoder' decrypt',
      (t.sends sends).1.wire = t.wire ++ (bytes ++ rest) ∧
      List.Forall₂ Send.CarriedBy (accepted (sends.map Prod.fst) (t.sends sends).2) frames ∧
      Whole C.chunks (decoder, some decrypt) bytes (frames.map .ok) (decoder', some decrypt') ∧
      (untorn (t.sends sends).2 = true → rest = [] ∧ 0 < C.writableLen decoder') := by
  induction sends generalizing t decoder decrypt with
  | nil =>
    exact ⟨[], [], [], decoder, decrypt, by simp [NoiseSender.sends], .nil, .nil _,
      fun _ => ⟨rfl, hC.asks _ _ _ _ hPaired⟩⟩
  | cons call sends ih =>
    obtain ⟨s, write⟩ := call
    simp only [NoiseSender.sends, List.map_cons]
    rcases send_cases hC hPaired s write with ⟨e, hSend, hFraming⟩ |
      ⟨t', encoded, frame, decoder', decrypt', hSend, hWire, hCarried, hWhole, hPaired'⟩ |
      ⟨t', torn, e, hSend, hWire, hTorn⟩
    · -- nothing was written, and the ends agree as before
      obtain ⟨frames, bytes, rest, decoder', decrypt', hWire, hFrames, hWhole, hLast⟩ := ih hPaired
      rw [hSend]
      refine ⟨frames, bytes, rest, decoder', decrypt', hWire, ?_, hWhole, fun hUntorn => ?_⟩
      · rw [accepted, if_pos hFraming]
        exact hFrames
      · exact hLast (Bool.and_eq_true_iff.mp hUntorn).2
    · obtain ⟨frames, bytes, rest, decoder'', decrypt'', hWire', hFrames, hRest, hLast⟩ :=
        ih hPaired'
      rw [hSend]
      refine ⟨frame :: frames, encoded ++ bytes, rest, decoder'', decrypt'', ?_,
        .cons hCarried hFrames, hWhole.trans hRest, fun hUntorn => ?_⟩
      · rw [hWire', hWire, List.append_assoc, List.append_assoc]
      · exact hLast hUntorn
    · -- from here on nothing is promised
      rw [hSend]
      obtain ⟨more, hMore⟩ := t'.wire_sends sends
      refine ⟨[], [], torn ++ more, decoder, decrypt, ?_, ?_, .nil _, fun hUntorn => ?_⟩
      · rw [← hMore, hWire, List.append_assoc, List.nil_append]
      · rw [accepted, if_neg (Bool.eq_false_iff.mp hTorn)]
        exact .nil
      · have hWell : e.isFraming = true := (Bool.and_eq_true_iff.mp hUntorn).1
        rw [hTorn] at hWell
        cases hWell

end NoiseSender

/-- **What is sent is received.** Between two ends that agree, the frames that whole
sends put on the wire are received in order, each once and saying what was sent, and
nothing else is, in whatever pieces the bytes arrive and however often the reading is
given up and taken up again. Only of a send that was torn, in writing or because the
codec refused to encode it, and of what is sent after it, nothing is promised. The next
frame is returned by a further `recv` once the bytes are there. -/
theorem sent_is_received (hC : C.Lawful Paired) {encoder : C.NoiseEncoder}
    {encrypt : C.TransportEncryptState} {decoder : C.NoiseDecoder}
    {decrypt : C.TransportDecryptState} (hPaired : Paired encoder encrypt decoder decrypt)
    (sends : List (Send × Write)) :
    ∃ frames : List Frame,
      List.Forall₂ Send.CarriedBy (accepted (sends.map Prod.fst)
        (NoiseSender.sends sends ⟨encoder, encrypt, []⟩).2) frames ∧
      ∀ (socket : Socket) calls arrivals,
        socket.unread = (NoiseSender.sends sends ⟨encoder, encrypt, []⟩).1.wire →
        let received := (NoiseTransport.fromTransport socket decoder decrypt).recvs calls arrivals
        (received.2.filter answered <+: frames.map .ok ∨
          untorn (NoiseSender.sends sends ⟨encoder, encrypt, []⟩).2 = false ∧
            frames.map .ok <+: received.2.filter answered) ∧
        ∀ k frame, frames[k]? = some frame →
          received.2.filter answered = (frames.take k).map .ok →
          ∀ timeout (mores : List Nat), socket.unread.length ≤ mores.length →
            ∃ n, ∀ fuel, n ≤ fuel →
              (received.1.recv fuel timeout (mores.map .bytes)).2.2 = .returned (.ok frame) := by
  obtain ⟨frames, bytes, rest, decoder', decrypt', hWire, hFrames, hWhole, hLast⟩ :=
    NoiseSender.sends_whole (t := ⟨encoder, encrypt, []⟩) hC hPaired sends
  have hWire : (NoiseSender.sends sends ⟨encoder, encrypt, []⟩).1.wire = bytes ++ rest := hWire
  refine ⟨frames, hFrames, fun socket calls arrivals hSocket => ?_⟩
  have hStream : socket.unread = bytes ++ rest := hSocket.trans hWire
  have hStart : NoiseTransport.ReadsOn (decoder, some decrypt) socket.unread []
      (.fromTransport socket decoder decrypt : NoiseTransport C.toCodec) := .start _ _ _
  obtain ⟨hReads, hKept, -⟩ := NoiseTransport.recvs_reads hStart (Or.inl rfl) calls arrivals
  rw [List.nil_append] at hReads
  refine ⟨?_, fun k frame hFrame hReceived timeout mores hMores => ?_⟩
  · cases hUntorn : untorn (NoiseSender.sends sends ⟨encoder, encrypt, []⟩).2 with
    | true =>
      -- there is nothing else on the wire
      obtain ⟨rfl, hWaits⟩ := hLast hUntorn
      rw [List.append_nil] at hStream
      have hAll : Whole C.chunks (decoder, some decrypt) socket.unread (frames.map .ok)
          (decoder', some decrypt') := by
        rw [hStream]
        exact hWhole
      exact Or.inl (Reads.covered hReads hAll hWaits)
    | false =>
      have hAnswers : Answers C.chunks (decoder, some decrypt) socket.unread (frames.map .ok) :=
        ⟨bytes, _, ⟨rest, hStream.symm⟩, hWhole⟩
      exact (Reads.comparable hReads hAnswers).imp_right fun h => ⟨rfl, h⟩
  · -- the frame is the next that whole chunks yield
    have hNext : (frames.take (k + 1)).map (.ok : Frame → Except Error Frame) =
        (frames.take k).map .ok ++ [.ok frame] := by
      rw [List.take_add_one, hFrame, Option.toList_some, List.map_append, List.map_singleton]
    have hFront : (frames.take k).map .ok ++ [.ok frame] <+:
        frames.map (.ok : Frame → Except Error Frame) := by
      rw [← hNext]
      exact (List.take_prefix _ _).map _
    obtain ⟨fed, s', hFed, hYields⟩ := hWhole.answers_front hFront
    refine NoiseTransport.recv_returns hReads hKept ⟨fed, s', ?_, ?_⟩ timeout hMores
    · exact hFed.trans ⟨rest, hStream.symm⟩
    · rw [hReceived]
      exact hYields

end Pair

/-! ## A codec that changes nothing -/

/-- The payload length that a header announces. -/
def announced (header : List UInt8) : Nat := readLittleEndian ((header.drop 3).take 3)

/-- The header is asked for, then the payload it announces. -/
def Codecs.plain : Codecs where
  NoiseDecoder := List UInt8
  TransportDecryptState := Unit
  writableLen read := if read.length < headerSize then headerSize - read.length else announced read
  copyFromSlice read chunk := read ++ chunk
  nextTransportFrame read state :=
    if read.length < headerSize then (read, .ok (.incomplete (headerSize - read.length) state))
    else if read.length < headerSize + announced read then
      (read, .ok (.incomplete (announced read) state))
    else ([], .ok (.frame read state))
  NoiseEncoder := Unit
  TransportEncryptState := Unit
  SerializedFrame := { bytes : List UInt8 // ∃ frame, Frame.fromBytes bytes = .ok frame }
  serializedFrame bytes :=
    match h : Frame.fromBytes bytes with
    | .ok frame => some ⟨bytes, frame, h⟩
    | .error _ => none
  encodeTransport encoder frame encrypt := (encoder, encrypt, .ok frame.1)

/-- The ends agree where no frame has been begun. -/
def Codecs.plainPaired (_ : Codecs.plain.NoiseEncoder) (_ : Codecs.plain.TransportEncryptState)
    (decoder : Codecs.plain.NoiseDecoder) (_ : Codecs.plain.TransportDecryptState) : Prop :=
  decoder = ([] : List UInt8)

/-- What the decoder makes of what it has read with one more chunk. -/
theorem Codecs.plain_feed (read chunk : List UInt8) :
    Codecs.plain.chunks.feed (read, some ()) chunk =
      if (read ++ chunk).length < headerSize ∨
          (read ++ chunk).length < headerSize + announced (read ++ chunk) then
        ((read ++ chunk, some ()), none)
      else (([], some ()), some (Frame.fromBytes (read ++ chunk))) := by
  by_cases hHeader : (read ++ chunk).length < headerSize
  · simp only [Codec.chunks, plain, if_pos hHeader, if_pos (Or.inl hHeader)]
  · by_cases hPayload : (read ++ chunk).length < headerSize + announced (read ++ chunk)
    · simp only [Codec.chunks, plain, if_neg hHeader, if_pos hPayload, if_pos (Or.inr hPayload)]
    · simp only [Codec.chunks, plain, if_neg hHeader, if_neg hPayload,
        if_neg (not_or.mpr ⟨hHeader, hPayload⟩)]

theorem Codecs.plain_whole {bytes : List UInt8} {frame : Frame}
    (h : Frame.fromBytes bytes = .ok frame) :
    Whole Codecs.plain.chunks (([] : List UInt8), some ()) bytes [Frame.fromBytes bytes]
      (([] : List UInt8), some ()) := by
  unfold Frame.fromBytes at h
  split at h
  · rename_i e₀ e₁ messageType l₀ l₁ l₂ payload
    split at h
    · rename_i hLength
      have hAnnounced (rest : List UInt8) :
          announced ([e₀, e₁, messageType, l₀, l₁, l₂] ++ rest) = payload.length := hLength.2
      have hHeader : [e₀, e₁, messageType, l₀, l₁, l₂].length =
          Codecs.plain.chunks.want (([] : List UInt8), some ()) := rfl
      have hFeed := Codecs.plain_feed [] [e₀, e₁, messageType, l₀, l₁, l₂]
      have hRead := hAnnounced []
      rw [List.append_nil] at hRead
      rw [List.nil_append, hRead] at hFeed
      cases payload with
      | nil =>
        -- the header is the whole frame
        rw [if_neg (by simp [headerSize])] at hFeed
        have hOne := Whole.one hHeader
        rw [hFeed] at hOne
        exact hOne
      | cons b payload =>
        rw [if_pos (by simp [headerSize])] at hFeed
        have hPayload : (b :: payload).length =
            Codecs.plain.chunks.want ([e₀, e₁, messageType, l₀, l₁, l₂], some ()) := hRead.symm
        have hRest := Whole.one hPayload
        have hFeed' := Codecs.plain_feed [e₀, e₁, messageType, l₀, l₁, l₂] (b :: payload)
        rw [hAnnounced, if_neg (by simp [headerSize]; omega)] at hFeed'
        rw [hFeed'] at hRest
        have hFed : (Codecs.plain.chunks.feed (([] : List UInt8), some ())
            [e₀, e₁, messageType, l₀, l₁, l₂]).1 = ([e₀, e₁, messageType, l₀, l₁, l₂], some ()) :=
          congrArg Prod.fst hFeed
        have hWhole := Whole.chunk hHeader (hFed.symm ▸ hRest)
        rw [hFeed] at hWhole
        exact hWhole
    · cases h
  · cases h

theorem Codecs.plain_lawful : Codecs.plain.Lawful Codecs.plainPaired where
  decodes := by
    rintro _ _ decoder _ bytes frame _ _ encoded (rfl : decoder = []) hFrame hEncode
    obtain ⟨bytes', frame', hBytes'⟩ := frame
    cases hEncode
    have hSame : bytes' = bytes := by
      simp only [Codecs.plain] at hFrame
      split at hFrame
      · exact (congrArg Subtype.val (Option.some.inj hFrame)).symm
      · cases hFrame
    subst hSame
    exact ⟨[], (), Codecs.plain_whole hBytes', rfl⟩
  asks := by
    rintro _ _ decoder _ (rfl : decoder = [])
    exact Nat.succ_pos 5

/-- A message of a channel is sent after one that is not. -/
def twoFrames : List (Send × Write) :=
  [(⟨0, 0x01, false, [1, 2]⟩, .all), (⟨1, 0x02, true, []⟩, .all)]

theorem sent_is_received_twoFrames : ∃ first second : Frame,
    first.payload = [1, 2] ∧ second.channelMsg = true ∧
    ∀ (socket : Socket) calls arrivals,
      socket.unread = (NoiseSender.sends (C := Codecs.plain) twoFrames ⟨(), (), []⟩).1.wire →
      ((NoiseTransport.fromTransport (C := Codecs.plain.toCodec) socket [] ()).recvs calls
        arrivals).2.filter answered <+: [.ok first, .ok second] := by
  have hPaired : Codecs.plainPaired () () ([] : List UInt8) () := rfl
  have hResults : (NoiseSender.sends (C := Codecs.plain) twoFrames ⟨(), (), []⟩).2 =
      [.ok (), .ok ()] := rfl
  obtain ⟨frames, hFrames, hReceived⟩ := sent_is_received Codecs.plain_lawful hPaired twoFrames
  rw [hResults] at hFrames
  -- each of the two sends has its frame
  obtain ⟨first, rest, hFirst, hRest, rfl⟩ := List.forall₂_cons_left_iff.mp hFrames
  obtain ⟨second, rest, hSecond, hNone, rfl⟩ := List.forall₂_cons_left_iff.mp hRest
  obtain rfl := List.forall₂_nil_left_iff.mp hNone
  refine ⟨first, second, hFirst.payload, hSecond.channelMsg, ?_⟩
  intro socket calls arrivals hSocket
  obtain ⟨hInOrder | ⟨hTorn, -⟩, -⟩ := hReceived socket calls arrivals hSocket
  · exact hInOrder
  · rw [hResults] at hTorn
    cases hTorn

end Stratamoto
