import Mathlib.Algebra.Group.Nat.Defs
import Mathlib.Data.List.Basic

/-!
# Stratamoto — what a connection receives

`events.rs`: every frame a connection receives goes through one dispatcher,
which classifies it and updates where the connection's setup stands. The parser
of the protocol crates is a parameter (`ParsersSv2`); a frame is its header and
a payload of the length the header names.

The setup of a connection is decided by one frame only. `afterFrames` runs the
dispatcher over a sequence, `answerOf` is what a frame says of a pending setup,
and `answered_by_first_iff` says for which frames the dispatcher listens.
-/

namespace Stratamoto

/-! ## Text the server chose -/

def isContinuation (b : UInt8) : Bool := 0x80 ≤ b && b ≤ 0xBF

def replacementCharacter : Char := Char.ofNat 0xFFFD

/-- The character that starts with the byte `a`, and how many of the bytes
`rest` after it belong to it. An invalid sequence is one replacement character
as long as it could still have become a character. -/
def utf8Head (a : UInt8) (rest : List UInt8) : Char × Nat :=
  let next (k : Nat) : UInt8 := rest.getD k 0
  let bits (b mask : UInt8) : Nat := (b &&& mask).toNat
  if a < 0x80 then (Char.ofNat a.toNat, 0)
  else if 0xC2 ≤ a ∧ a ≤ 0xDF then
    if isContinuation (next 0) then
      (Char.ofNat (bits a 0x1F * 64 + bits (next 0) 0x3F), 1)
    else (replacementCharacter, 0)
  else if 0xE0 ≤ a ∧ a ≤ 0xEF then
    -- no overlong encoding and no surrogate
    let low : UInt8 := if a = 0xE0 then 0xA0 else 0x80
    let high : UInt8 := if a = 0xED then 0x9F else 0xBF
    if ¬ (low ≤ next 0 ∧ next 0 ≤ high) then (replacementCharacter, 0)
    else if ¬ isContinuation (next 1) then (replacementCharacter, 1)
    else
      (Char.ofNat ((bits a 0x0F * 64 + bits (next 0) 0x3F) * 64 + bits (next 1) 0x3F), 2)
  else if 0xF0 ≤ a ∧ a ≤ 0xF4 then
    -- no overlong encoding and nothing above the last code point
    let low : UInt8 := if a = 0xF0 then 0x90 else 0x80
    let high : UInt8 := if a = 0xF4 then 0x8F else 0xBF
    if ¬ (low ≤ next 0 ∧ next 0 ≤ high) then (replacementCharacter, 0)
    else if ¬ isContinuation (next 1) then (replacementCharacter, 1)
    else if ¬ isContinuation (next 2) then (replacementCharacter, 2)
    else
      (Char.ofNat (((bits a 0x07 * 64 + bits (next 0) 0x3F) * 64 + bits (next 1) 0x3F) * 64 +
        bits (next 2) 0x3F), 3)
  else (replacementCharacter, 0)

/-- Decode at most `n` characters. -/
def utf8Lossy : Nat → List UInt8 → List Char
  | 0, _ | _, [] => []
  | n + 1, a :: rest =>
    let (c, used) := utf8Head a rest
    c :: utf8Lossy n (rest.drop used)

def fromUtf8Lossy (bytes : List UInt8) : String := String.ofList (utf8Lossy bytes.length bytes)

/-! ## Frames -/

def channelMsgMask : UInt16 := 0x8000

/-- A received frame. The length its header names is that of the payload. -/
structure Frame where
  extensionType : UInt16
  messageType : UInt8
  payload : List UInt8
  length_lt : payload.length < 2 ^ 24
  deriving DecidableEq, Repr

namespace Frame

def payloadLength (frame : Frame) : Nat := frame.payload.length

def extTypeWithoutChannelMsg (frame : Frame) : UInt16 := frame.extensionType &&& ~~~channelMsgMask

def channelMsg (frame : Frame) : Bool := frame.extensionType &&& channelMsgMask ≠ 0

end Frame

/-- A decoded message, as far as the dispatcher looks into it. -/
inductive AnyMessage where
  | setupConnectionSuccess (usedVersion : UInt16) (flags : UInt32)
  | setupConnectionError (flags : UInt32) (errorCode : List UInt8)
  | reconnect (newHost : List UInt8) (newPort : UInt16)
  /-- Any other message of the protocol and its subprotocols. -/
  | other (name : String)
  deriving DecidableEq, Repr

/-- The parser of the protocol crates. -/
structure ParsersSv2 where
  /-- Decode a payload by its header, or the text of the parser's error. -/
  parse : Frame → Except String AnyMessage
  channelBit : AnyMessage → Bool

/-- Decode a frame; the error is the text of the harness's own error. -/
def Frame.message (P : ParsersSv2) (frame : Frame) : Except String AnyMessage :=
  match P.parse frame with
  | .ok message => .ok message
  | .error e => .error ("parser: " ++ e)

/-! ## Events -/

/-- One frame a connection received, as the dispatcher classified it. -/
inductive Event where
  | setupSuccess (usedVersion : UInt16) (flags : UInt32)
  | setupError (flags : UInt32) (errorCode : String)
  | reconnect (host : String) (port : UInt16)
  | other (messageType : UInt8)
  | unknown (extensionType : UInt16) (messageType : UInt8) (length : Nat)
  | malformed (messageType : UInt8) (length : Nat) (reason : String)
  deriving DecidableEq, Repr

/-- A frame whose header disagreed with its message. -/
structure HeaderIssue where
  messageType : UInt8
  reason : String
  deriving DecidableEq, Repr

/-- Where the connection's setup stands. -/
inductive SetupState where
  | unsent
  | pending
  | established (usedVersion : UInt16) (flags : UInt32)
  | rejected (flags : UInt32) (errorCode : String)
  | unexpected (messageType : UInt8)
  deriving DecidableEq, Repr

/-- What the program asked on a connection and what the server said. -/
structure ConnectionState where
  setup : SetupState := .unsent
  /-- Every frame, in order of arrival. -/
  events : List Event := []
  headerIssues : List HeaderIssue := []
  deriving DecidableEq, Repr

/-- Whether a message type is one the specification defines on extension zero. -/
def knownMessageType (messageType : UInt8) : Bool :=
  messageType ≤ 0x04 || (0x10 ≤ messageType && messageType ≤ 0x25) ||
    (0x50 ≤ messageType && messageType ≤ 0x60) || (0x70 ≤ messageType && messageType ≤ 0x76)

/-- What an event makes of a pending setup. -/
def SetupState.ofEvent (messageType : UInt8) : Event → SetupState
  | .setupSuccess usedVersion flags => .established usedVersion flags
  | .setupError flags errorCode => .rejected flags errorCode
  | _ => .unexpected messageType

/-- The event of a decoded message. -/
def Event.ofMessage (messageType : UInt8) : AnyMessage → Event
  | .setupConnectionSuccess usedVersion flags => .setupSuccess usedVersion flags
  | .setupConnectionError flags errorCode => .setupError flags (fromUtf8Lossy errorCode)
  | .reconnect newHost newPort => .reconnect (fromUtf8Lossy newHost) newPort
  | .other _ => .other messageType

namespace ConnectionState

/-- Update the state for an event. -/
def apply (state : ConnectionState) (event : Event) (messageType : UInt8) : ConnectionState :=
  if state.setup ≠ .pending then state
  else { state with setup := SetupState.ofEvent messageType event }

/-- Classify a decoded message and update the state accordingly. -/
def observe (state : ConnectionState) (message : AnyMessage) (messageType : UInt8) :
    Event × ConnectionState :=
  let event := Event.ofMessage messageType message
  (event, state.apply event messageType)

/-- Note a header whose channel bit is not the one of its message. -/
def checkHeader (P : ParsersSv2) (state : ConnectionState) (frame : Frame)
    (message : AnyMessage) : ConnectionState :=
  if P.channelBit message = frame.channelMsg then state
  else { state with headerIssues := state.headerIssues ++
    [{ messageType := frame.messageType
       reason := if frame.channelMsg then
           "channel bit set on a message that is not a channel message"
         else "channel bit missing on a channel message" }] }

/-- Take in one frame. -/
def dispatch (P : ParsersSv2) (state : ConnectionState) (frame : Frame) :
    Event × ConnectionState :=
  let messageType := frame.messageType
  let length := frame.payloadLength
  let extensionType := frame.extTypeWithoutChannelMsg
  let (event, state) :=
    if extensionType ≠ 0 then (Event.unknown extensionType messageType length, state)
    else
      match frame.message P with
      | .ok message => (state.checkHeader P frame message).observe message messageType
      | .error e =>
        -- a type this stack does not know is no malformed message
        if knownMessageType messageType then (.malformed messageType length e, state)
        else (.unknown extensionType messageType length, state)
  (event, { state with events := state.events ++ [event] })

/-- The state after a sequence of frames. -/
def afterFrames (P : ParsersSv2) (state : ConnectionState) (frames : List Frame) :
    ConnectionState :=
  frames.foldl (fun state frame => (state.dispatch P frame).2) state

end ConnectionState

/-! ## What decides a setup -/

/-- A frame of the extension the harness speaks whose message decodes. -/
def Frame.Decodes (P : ParsersSv2) (frame : Frame) : Prop :=
  frame.extTypeWithoutChannelMsg = 0 ∧ ∃ message, frame.message P = .ok message

/-- What a frame says of a pending setup: its answer, if it is one, and
something unexpected otherwise. -/
def answerOf (P : ParsersSv2) (frame : Frame) : SetupState :=
  if frame.extTypeWithoutChannelMsg = 0 then
    match frame.message P with
    | .ok (.setupConnectionSuccess usedVersion flags) => .established usedVersion flags
    | .ok (.setupConnectionError flags errorCode) => .rejected flags (fromUtf8Lossy errorCode)
    | _ => .unexpected frame.messageType
  else .unexpected frame.messageType

section Setup

variable (P : ParsersSv2) (state : ConnectionState)

theorem answerOf_ne_pending (frame : Frame) : answerOf P frame ≠ .pending := by
  unfold answerOf
  split
  · split <;> simp
  · simp

@[simp] theorem checkHeader_setup (frame : Frame) (message : AnyMessage) :
    (state.checkHeader P frame message).setup = state.setup := by
  unfold ConnectionState.checkHeader
  split <;> rfl

/-- A frame that decodes decides a pending setup. -/
theorem dispatch_setup_of_decodes {frame : Frame} (h : frame.Decodes P) :
    (state.dispatch P frame).2.setup =
      if state.setup = .pending then answerOf P frame else state.setup := by
  obtain ⟨hExt, message, hMessage⟩ := h
  simp only [ConnectionState.dispatch, answerOf, hExt, hMessage, ne_eq, not_true_eq_false,
    if_false, if_true, ConnectionState.observe, ConnectionState.apply, checkHeader_setup]
  by_cases hPending : state.setup = .pending
  · rw [if_neg (by simpa using hPending), if_pos hPending]
    cases message <;> rfl
  · rw [if_pos hPending, if_neg hPending, checkHeader_setup]

/-- Any other frame leaves the setup as it was. -/
theorem dispatch_setup_of_not_decodes {frame : Frame} (h : ¬ frame.Decodes P) :
    (state.dispatch P frame).2.setup = state.setup := by
  unfold ConnectionState.dispatch
  by_cases hExt : frame.extTypeWithoutChannelMsg = 0
  · cases hMessage : frame.message P with
    | ok message => exact absurd ⟨hExt, message, hMessage⟩ h
    | error e =>
      simp only [hExt, ne_eq, not_true_eq_false, if_false]
      split <;> rfl
  · simp only [ne_eq, hExt, not_false_eq_true, if_true]

theorem dispatch_setup_of_ne_pending (h : state.setup ≠ .pending) (frame : Frame) :
    (state.dispatch P frame).2.setup = state.setup := by
  by_cases hDecodes : frame.Decodes P
  · rw [dispatch_setup_of_decodes P state hDecodes, if_neg h]
  · exact dispatch_setup_of_not_decodes P state hDecodes

/-- A setup that is decided stays as it is. -/
theorem afterFrames_setup_of_ne_pending (h : state.setup ≠ .pending) (frames : List Frame) :
    (state.afterFrames P frames).setup = state.setup := by
  induction frames generalizing state with
  | nil => rfl
  | cons frame frames ih =>
    have hStep := dispatch_setup_of_ne_pending P state h frame
    exact (ih _ (by rwa [hStep])).trans hStep

/-- The setup after the frames so far is what it was, or what the first of them
says of it if it was pending. -/
def AnsweredByFirst (frames : List Frame) : Prop :=
  (state.afterFrames P frames).setup =
    match frames with
    | [] => state.setup
    | first :: _ => if state.setup = .pending then answerOf P first else state.setup

/-- One frame answers a pending setup exactly when it can be decoded. -/
theorem answeredByFirst_singleton_iff (frame : Frame) :
    AnsweredByFirst P state [frame] ↔ (state.setup = .pending → frame.Decodes P) := by
  show (state.dispatch P frame).2.setup =
    (if state.setup = .pending then answerOf P frame else state.setup) ↔ _
  by_cases hPending : state.setup = .pending
  · by_cases hDecodes : frame.Decodes P
    · exact iff_of_true (dispatch_setup_of_decodes P state hDecodes) fun _ => hDecodes
    · -- the setup is still pending, which no frame says
      refine iff_of_false ?_ fun h => hDecodes (h hPending)
      rw [dispatch_setup_of_not_decodes P state hDecodes, if_pos hPending, hPending]
      exact (answerOf_ne_pending P frame).symm
  · rw [if_neg hPending]
    exact iff_of_true (dispatch_setup_of_ne_pending P state hPending frame)
      fun h => absurd h hPending

/-- What the first frame decides, the later ones leave alone. -/
theorem AnsweredByFirst.cons {first : Frame} (h : AnsweredByFirst P state [first])
    (frames : List Frame) : AnsweredByFirst P state (first :: frames) := by
  have hFirst : (state.dispatch P first).2.setup =
      if state.setup = .pending then answerOf P first else state.setup := h
  have hNe : (state.dispatch P first).2.setup ≠ .pending := by
    rw [hFirst]
    split
    · exact answerOf_ne_pending P first
    · assumption
  show ((state.dispatch P first).2.afterFrames P frames).setup = _
  rw [afterFrames_setup_of_ne_pending P _ hNe, hFirst]

/-- **The first frame decides**, for one frame and at every point of every
sequence of them, exactly when it can be decoded. -/
theorem answered_by_first_iff :
    (∀ frame, AnsweredByFirst P state [frame] ↔ (state.setup = .pending → frame.Decodes P)) ∧
    ∀ frames : List Frame, (∀ n, AnsweredByFirst P state (frames.take n)) ↔
      (state.setup = .pending → ∀ first ∈ frames.head?, first.Decodes P) := by
  refine ⟨answeredByFirst_singleton_iff P state, fun frames => ?_⟩
  -- the first frame decides, and no later one changes the answer
  cases frames with
  | nil => simp [AnsweredByFirst, ConnectionState.afterFrames]
  | cons first frames =>
    simp only [List.head?_cons, Option.mem_some_iff, forall_eq']
    rw [← answeredByFirst_singleton_iff]
    constructor
    · intro h
      exact h 1
    · intro h n
      cases n with
      | zero => rfl
      | succ n => exact h.cons P state (frames.take n)

end Setup

/-- A parser of the frames that answer a setup, in the layout of the protocol. -/
def ParsersSv2.common : ParsersSv2 where
  parse frame :=
    match frame.messageType, frame.payload with
    | 0x01, [v₀, v₁, f₀, f₁, f₂, f₃] =>
      .ok (.setupConnectionSuccess (UInt16.ofNat (v₀.toNat + 256 * v₁.toNat))
        (UInt32.ofNat (f₀.toNat + 256 * (f₁.toNat + 256 * (f₂.toNat + 256 * f₃.toNat)))))
    | 0x02, f₀ :: f₁ :: f₂ :: f₃ :: length :: errorCode =>
      if errorCode.length = length.toNat then
        .ok (.setupConnectionError
          (UInt32.ofNat (f₀.toNat + 256 * (f₁.toNat + 256 * (f₂.toNat + 256 * f₃.toNat))))
          errorCode)
      else .error "BadPayloadSize"
    | messageType, _ =>
      if knownMessageType messageType then .error "BadPayloadSize"
      else .error "UnexpectedMessage"
  channelBit _ := false

/-- A pending setup, a frame of an extension, and then a success: the success
is taken for the answer. -/
theorem late_success_answers :
    ¬ ∀ (P : ParsersSv2) (state : ConnectionState) (frames : List Frame) (n : Nat),
      AnsweredByFirst P state (frames.take n) := by
  intro h
  have hLate := h ParsersSv2.common { setup := .pending }
    [⟨1, 0x90, [], by decide⟩, ⟨0, 0x01, [2, 0, 0, 0, 0, 0], by decide⟩] 2
  unfold AnsweredByFirst at hLate
  exact absurd hLate (by decide)

end Stratamoto
