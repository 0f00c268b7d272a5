import Mathlib.Data.Nat.Bitwise
import Stratamoto.Harness.Runner
import Stratamoto.IR.Setups

/-!
# Stratamoto — frames on the wire

`frame.rs`: a frame is laid out as a header of six bytes and its payload. The
reader (`readLayout`) is that of the protocol: an extension type of sixteen bits
whose top bit says whether the message is one of a channel, a message type of
eight, and a length of twenty four, all in little endian. `Frame.fromBytes` is
what the harness makes of bytes that hold exactly one frame.

* `assemble_round_trip` — what is assembled is read back, what is read assembles
  to the same bytes, and only a payload of `2 ^ 24` bytes or more is refused;
* `Frame.fromBytes_assemble` — the harness reads a frame it laid out;
* `raw_frames_faithful_iff` — a raw frame reaches the wire as the program wrote
  it exactly if its extension type leaves the channel bit alone.
-/

namespace Stratamoto

/-! ## Little endian -/

/-- The number that bytes stand for in little endian. -/
def readLittleEndian : List UInt8 → Nat
  | [] => 0
  | b :: rest => b.toNat + 256 * readLittleEndian rest

@[simp] theorem length_littleEndian (k n : Nat) : (littleEndian k n).length = k := by
  induction k generalizing n with
  | zero => rfl
  | succ k ih => rw [littleEndian, List.length_cons, ih]

theorem take_littleEndian (j k n : Nat) : (littleEndian (j + k) n).take j = littleEndian j n := by
  induction j generalizing n with
  | zero => rfl
  | succ j ih => rw [Nat.succ_add, littleEndian, List.take_succ_cons, ih, littleEndian]

theorem readLittleEndian_littleEndian {k n : Nat} (h : n < 256 ^ k) :
    readLittleEndian (littleEndian k n) = n := by
  induction k generalizing n with
  | zero => exact (Nat.lt_one_iff.mp h).symm
  | succ k ih =>
    have hRest : n / 256 < 256 ^ k := by
      rw [Nat.div_lt_iff_lt_mul (by omega), ← Nat.pow_succ]
      exact h
    rw [littleEndian, readLittleEndian, ih hRest, UInt8.toNat_ofNat']
    omega

theorem littleEndian_readLittleEndian (bytes : List UInt8) :
    littleEndian bytes.length (readLittleEndian bytes) = bytes := by
  induction bytes with
  | nil => rfl
  | cons b rest ih =>
    have hLt := b.toNat_lt
    rw [readLittleEndian, List.length_cons, littleEndian, Nat.add_mul_mod_self_left,
      Nat.mod_eq_of_lt hLt, UInt8.ofNat_toNat, Nat.add_mul_div_left _ _ (by omega),
      Nat.div_eq_of_lt hLt, Nat.zero_add, ih]

theorem readLittleEndian_lt (bytes : List UInt8) :
    readLittleEndian bytes < 256 ^ bytes.length := by
  induction bytes with
  | nil => exact Nat.one_pos
  | cons b rest ih =>
    have hLt := b.toNat_lt
    rw [readLittleEndian, List.length_cons, Nat.pow_succ]
    omega

/-! ## `frame.rs` -/

/-- The size of a header. -/
def headerSize : Nat := 6

/-- `u32::try_from`. -/
def u32TryFrom (n : Nat) : Option UInt32 := if n < 2 ^ 32 then some (UInt32.ofNat n) else none

/-- Lay out a frame: the header, then the payload. -/
def assemble (extensionType : UInt16) (messageType : UInt8) (channelMsg : Bool)
    (payload : List UInt8) : Except Error (List UInt8) :=
  match (u32TryFrom payload.length).filter fun len : UInt32 => len < (1 : UInt32) <<< 24 with
  | none => .error (.framing "payload exceeds the 24 bit length field")
  | some length =>
    let extensionType :=
      if channelMsg then extensionType ||| channelMsgMask
      else extensionType &&& ~~~channelMsgMask
    .ok (littleEndian 2 extensionType.toNat ++ [messageType] ++
      (littleEndian 4 length.toNat).take 3 ++ payload)

/-! ## The layout of the protocol -/

/-- What a reader makes of the bytes of a frame. -/
structure Layout where
  /-- The fifteen bits beside the channel bit. -/
  extensionType : Nat
  channelMsg : Bool
  messageType : UInt8
  length : Nat
  payload : List UInt8
  deriving DecidableEq, Repr

def readLayout : List UInt8 → Option Layout
  | e₀ :: e₁ :: messageType :: l₀ :: l₁ :: l₂ :: payload =>
    -- the channel bit is the highest of the little-endian word
    let word := readLittleEndian [e₀, e₁]
    some {
      extensionType := word % 2 ^ 15
      channelMsg := decide (2 ^ 15 ≤ word)
      messageType
      length := readLittleEndian [l₀, l₁, l₂]
      payload }
  | _ => none

/-- Bytes that hold exactly one frame. -/
def Frame.fromBytes (bytes : List UInt8) : Except Error Frame :=
  match bytes with
  | e₀ :: e₁ :: messageType :: l₀ :: l₁ :: l₂ :: payload =>
    -- the length field counts the payload only, and nothing may follow it
    if h : payload.length < 2 ^ 24 ∧ readLittleEndian [l₀, l₁, l₂] = payload.length then
      .ok {
        extensionType := UInt16.ofNat (readLittleEndian [e₀, e₁])
        messageType
        payload
        length_lt := h.1 }
    else .error (.framing "bytes do not hold exactly one frame")
  | _ => .error (.framing "bytes do not hold exactly one frame")

/-! ## The channel bit -/

theorem toNat_clearChannel (e : UInt16) : (e &&& ~~~channelMsgMask).toNat = e.toNat % 2 ^ 15 := by
  have hMask : (~~~channelMsgMask).toNat = 2 ^ 15 - 1 := by decide
  rw [UInt16.toNat_and, hMask, Nat.and_two_pow_sub_one_eq_mod]

theorem toNat_setChannel (e : UInt16) :
    (e ||| channelMsgMask).toNat = 2 ^ 15 + e.toNat % 2 ^ 15 := by
  have hMask : channelMsgMask.toNat = 2 ^ 15 := by decide
  have hSmall : e.toNat % 2 ^ 15 < 2 ^ 15 := Nat.mod_lt _ (by decide)
  have hAdd : 2 ^ 15 + e.toNat % 2 ^ 15 = 2 ^ 15 ||| e.toNat % 2 ^ 15 := by
    have := Nat.two_pow_add_eq_or_of_lt hSmall 1
    rwa [Nat.mul_one] at this
  rw [UInt16.toNat_or, hMask, hAdd, Nat.lor_comm]
  rcases Nat.lt_or_ge e.toNat (2 ^ 15) with hLt | hGe
  · rw [Nat.mod_eq_of_lt hLt]
  · -- the bit is set already
    have hLt := e.toNat_lt
    have hWord : e.toNat = 2 ^ 15 ||| e.toNat % 2 ^ 15 := by
      rw [← hAdd]
      omega
    conv_lhs => rw [hWord]
    rw [← Nat.lor_assoc, Nat.or_self]

/-- The first word of the header. -/
def headerWord (extensionType : UInt16) (channelMsg : Bool) : Nat :=
  (if channelMsg then 2 ^ 15 else 0) + extensionType.toNat % 2 ^ 15

theorem headerWord_lt (e : UInt16) (c : Bool) : headerWord e c < 2 ^ 16 := by
  have := Nat.mod_lt e.toNat (show 0 < 2 ^ 15 by decide)
  unfold headerWord
  cases c <;> simp <;> omega

/-! ## Assembly -/

section Assembly

variable (e : UInt16) (t : UInt8) (c : Bool) (payload : List UInt8)

/-- A payload that is too long is refused. -/
theorem assemble_of_ge (h : 2 ^ 24 ≤ payload.length) : assemble e t c payload =
    .error (.framing "payload exceeds the 24 bit length field") := by
  have hNone : ((u32TryFrom payload.length).filter fun len : UInt32 =>
      len < (1 : UInt32) <<< 24) = none := by
    unfold u32TryFrom
    split
    · rename_i hFits
      rw [Option.filter_some, if_neg]
      rw [decide_eq_true_eq, UInt32.lt_iff_toNat_lt, UInt32.toNat_ofNat', Nat.mod_eq_of_lt hFits]
      exact Nat.not_lt.mpr h
    · rfl
  rw [assemble, hNone]

/-- Any other is laid out. -/
theorem assemble_of_lt (h : payload.length < 2 ^ 24) : assemble e t c payload =
    .ok (littleEndian 2 (headerWord e c) ++ [t] ++ littleEndian 3 payload.length ++ payload) := by
  have hFits : payload.length < 2 ^ 32 := by omega
  have hLength : (UInt32.ofNat payload.length).toNat = payload.length := by
    rw [UInt32.toNat_ofNat', Nat.mod_eq_of_lt hFits]
  -- below the limit neither the conversion nor the filter refuses
  have hSome : ((u32TryFrom payload.length).filter fun len : UInt32 => len < (1 : UInt32) <<< 24) =
      some (UInt32.ofNat payload.length) := by
    rw [u32TryFrom, if_pos hFits, Option.filter_some, if_pos]
    rw [decide_eq_true_eq, UInt32.lt_iff_toNat_lt, hLength]
    exact h
  have hWord : (if c = true then e ||| channelMsgMask else e &&& ~~~channelMsgMask).toNat =
      headerWord e c := by
    unfold headerWord
    cases c with
    | true => exact toNat_setChannel e
    | false => exact (toNat_clearChannel e).trans (Nat.zero_add _).symm
  rw [assemble, hSome]
  simp only [hWord, hLength, take_littleEndian 3 1]

/-- Exactly the payloads of `2 ^ 24` bytes or more are refused. -/
theorem assemble_error_iff :
    (∃ error, assemble e t c payload = .error error) ↔ 2 ^ 24 ≤ payload.length := by
  constructor
  · intro hError
    obtain ⟨error, hError⟩ := hError
    by_contra hSmall
    rw [assemble_of_lt e t c payload (Nat.lt_of_not_le hSmall)] at hError
    cases hError
  · exact fun h => ⟨_, assemble_of_ge e t c payload h⟩

theorem assemble_ok_iff {bytes : List UInt8} : assemble e t c payload = .ok bytes ↔
    payload.length < 2 ^ 24 ∧ bytes =
      littleEndian 2 (headerWord e c) ++ [t] ++ littleEndian 3 payload.length ++ payload := by
  rcases Nat.lt_or_ge payload.length (2 ^ 24) with hLt | hGe
  · rw [assemble_of_lt e t c payload hLt, Except.ok.injEq]
    exact ⟨fun h => ⟨hLt, h.symm⟩, fun h => h.2.symm⟩
  · rw [assemble_of_ge e t c payload hGe]
    constructor
    · intro h
      cases h
    · intro h
      exact absurd h.1 (Nat.not_lt.mpr hGe)

end Assembly

/-! ## Reading what was assembled -/

theorem readLayout_layOut {word length : Nat} (hWord : word < 2 ^ 16) (hLength : length < 2 ^ 24)
    (t : UInt8) (payload : List UInt8) :
    readLayout (littleEndian 2 word ++ [t] ++ littleEndian 3 length ++ payload) =
      some ⟨word % 2 ^ 15, decide (2 ^ 15 ≤ word), t, length, payload⟩ := by
  have hRead : readLayout (littleEndian 2 word ++ [t] ++ littleEndian 3 length ++ payload) =
      some ⟨readLittleEndian (littleEndian 2 word) % 2 ^ 15,
        decide (2 ^ 15 ≤ readLittleEndian (littleEndian 2 word)), t,
        readLittleEndian (littleEndian 3 length), payload⟩ := rfl
  rw [hRead, readLittleEndian_littleEndian hWord, readLittleEndian_littleEndian hLength]

/-- The word of a header, read. -/
theorem headerWord_read (e : UInt16) (c : Bool) :
    headerWord e c % 2 ^ 15 = e.toNat % 2 ^ 15 ∧ decide (2 ^ 15 ≤ headerWord e c) = c := by
  have hSmall := Nat.mod_lt e.toNat (show 0 < 2 ^ 15 by decide)
  unfold headerWord
  cases c with
  | true => simp
  | false =>
    rw [if_neg Bool.false_ne_true, Nat.zero_add]
    exact ⟨Nat.mod_mod _ _, decide_eq_false (Nat.not_le.mpr hSmall)⟩

/-- A word, written again after it was read. -/
theorem headerWord_write {word : Nat} (hWord : word < 2 ^ 16) :
    headerWord (UInt16.ofNat (word % 2 ^ 15)) (decide (2 ^ 15 ≤ word)) = word := by
  have hSmall := Nat.mod_lt word (show 0 < 2 ^ 15 by decide)
  have hToNat : (UInt16.ofNat (word % 2 ^ 15)).toNat = word % 2 ^ 15 := by
    rw [UInt16.toNat_ofNat', Nat.mod_eq_of_lt (by omega)]
  rw [headerWord, hToNat, Nat.mod_mod]
  simp only [decide_eq_true_eq]
  split <;> omega

/-- **The round trip of a frame.** `assemble` refuses exactly the payloads of
`2 ^ 24` bytes or more. From what it lays out a reader recovers the extension type
but for its top bit, the channel flag, the message type, the length and the
payload; and what a reader recovers, where the length is that of the bytes that
remain, assembles to the bytes it was read from. -/
theorem assemble_round_trip (e : UInt16) (t : UInt8) (c : Bool) (payload : List UInt8) :
    ((∃ error, assemble e t c payload = .error error) ↔ 2 ^ 24 ≤ payload.length) ∧
    (∀ bytes, assemble e t c payload = .ok bytes →
      bytes.length = headerSize + payload.length ∧
      readLayout bytes = some ⟨e.toNat % 2 ^ 15, c, t, payload.length, payload⟩) ∧
    (∀ bytes layout, readLayout bytes = some layout → layout.length = layout.payload.length →
      assemble (UInt16.ofNat layout.extensionType) layout.messageType layout.channelMsg
        layout.payload = .ok bytes) := by
  refine ⟨assemble_error_iff e t c payload, fun bytes hBytes => ?_,
    fun bytes layout hRead hLength => ?_⟩
  · obtain ⟨hLt, rfl⟩ := (assemble_ok_iff e t c payload).mp hBytes
    -- forth: the word has the flag above the fifteen bits
    obtain ⟨hWord, hFlag⟩ := headerWord_read e c
    refine ⟨?_, ?_⟩
    · simp [headerSize]
      omega
    · rw [readLayout_layOut (headerWord_lt e c) hLt, hWord, hFlag]
  · unfold readLayout at hRead
    split at hRead
    · rename_i e₀ e₁ messageType l₀ l₁ l₂ payload
      obtain rfl := Option.some.inj hRead
      -- back: every header of six bytes is one that is written
      have hWord : readLittleEndian [e₀, e₁] < 2 ^ 16 := by
        simpa using readLittleEndian_lt [e₀, e₁]
      have hSmall : readLittleEndian [l₀, l₁, l₂] < 2 ^ 24 := by
        simpa using readLittleEndian_lt [l₀, l₁, l₂]
      simp only at hLength
      rw [hLength] at hSmall
      refine (assemble_ok_iff _ _ _ _).mpr ⟨hSmall, ?_⟩
      simp only [headerWord_write hWord, ← hLength]
      rw [show littleEndian 2 (readLittleEndian [e₀, e₁]) = [e₀, e₁] from
          littleEndian_readLittleEndian [e₀, e₁],
        show littleEndian 3 (readLittleEndian [l₀, l₁, l₂]) = [l₀, l₁, l₂] from
          littleEndian_readLittleEndian [l₀, l₁, l₂]]
      rfl
    · cases hRead

/-- The harness reads the frames it lays out. -/
theorem Frame.fromBytes_assemble {e : UInt16} {t : UInt8} {c : Bool} {payload bytes : List UInt8}
    (h : assemble e t c payload = .ok bytes) : ∃ frame, Frame.fromBytes bytes = .ok frame ∧
      frame.extensionType.toNat = headerWord e c ∧ frame.messageType = t ∧
      frame.payload = payload := by
  obtain ⟨hLt, rfl⟩ := (assemble_ok_iff e t c payload).mp h
  have hLength : readLittleEndian (littleEndian 3 payload.length) = payload.length :=
    readLittleEndian_littleEndian hLt
  have hWord : readLittleEndian (littleEndian 2 (headerWord e c)) = headerWord e c :=
    readLittleEndian_littleEndian (headerWord_lt e c)
  obtain ⟨e₀, e₁, hHead⟩ : ∃ e₀ e₁, littleEndian 2 (headerWord e c) = [e₀, e₁] := ⟨_, _, rfl⟩
  obtain ⟨l₀, l₁, l₂, hTail⟩ : ∃ l₀ l₁ l₂, littleEndian 3 payload.length = [l₀, l₁, l₂] :=
    ⟨_, _, _, rfl⟩
  rw [hHead] at hWord
  rw [hTail] at hLength
  rw [hHead, hTail]
  -- six bytes of header, each of them named
  have hWhole : [e₀, e₁] ++ [t] ++ [l₀, l₁, l₂] ++ payload =
      e₀ :: e₁ :: t :: l₀ :: l₁ :: l₂ :: payload := rfl
  refine ⟨⟨UInt16.ofNat (readLittleEndian [e₀, e₁]), t, payload, hLt⟩, ?_, ?_, rfl, rfl⟩
  · rw [hWhole, Frame.fromBytes]
    exact dif_pos ⟨hLt, hLength⟩
  · simp only [hWord, UInt16.toNat_ofNat', Nat.mod_eq_of_lt (headerWord_lt e c)]

/-! ## From a program to the wire -/

/-- The frame an action puts on its connection. -/
def Action.frame : Action → Option (Except Error (List UInt8))
  | .send _ extensionType messageType channelMsg payload =>
    some (assemble extensionType messageType channelMsg payload)
  | _ => none

/-- The instruction at `n` puts the bytes on the wire. -/
def CompiledProgram.PutsOnWire (compiled : CompiledProgram) (n : Nat) (bytes : List UInt8) : Prop :=
  ∃ (a : Nat) (action : Action), compiled.metadata.actionInstructions[a]? = some n ∧
    compiled.actions[a]? = some action ∧ action.frame = some (.ok bytes)

/-- The instruction at `n` is a raw frame with these fields and this payload. -/
def WritesRaw (is : List Instruction) (n : Nat) (extensionType : UInt16) (messageType : UInt8)
    (payload : List UInt8) : Prop :=
  ∃ i, is[n]? = some i ∧ i.operation = .sendRawFrame messageType extensionType ∧
    DefinedBy is (i.input 1) (.loadBytes payload)

/-- What the program writes in its raw frames reaches the wire. -/
structure RawFaithful (p : Program) (compiled : CompiledProgram) : Prop where
  /-- A raw frame puts one frame on the wire, which starts with its extension type
  and its message type, and carries its payload behind the header. -/
  carries : ∀ n e t payload, WritesRaw p.instructions n e t payload → ∃ bytes,
    compiled.PutsOnWire n bytes ∧ (∀ bytes', compiled.PutsOnWire n bytes' → bytes' = bytes) ∧
    bytes.take 3 = littleEndian 2 e.toNat ++ [t] ∧ bytes.drop headerSize = payload
  /-- Different raw frames put different bytes on the wire. -/
  differ : ∀ n n' e e' t t' payload payload' bytes bytes',
    WritesRaw p.instructions n e t payload → WritesRaw p.instructions n' e' t' payload' →
    (e, t, payload) ≠ (e', t', payload') →
    compiled.PutsOnWire n bytes → compiled.PutsOnWire n' bytes' → bytes ≠ bytes'

theorem DefinedBy.unique {is : List Instruction} {v : Nat} {op op' : Operation}
    (h : DefinedBy is v op) (h' : DefinedBy is v op') : op = op' := by
  obtain ⟨d, i, hd, hi, rfl⟩ := h
  obtain ⟨d', i', hd', hi', rfl⟩ := h'
  obtain rfl := Option.some.inj (hd.symm.trans hd')
  obtain rfl := Option.some.inj (hi.symm.trans hi')
  rfl

section Raw

variable {S : Sv2} {p : Program} {compiled : CompiledProgram} {n : Nat} {e : UInt16} {t : UInt8}
  {payload : List UInt8}

/-- A raw frame carries the bytes its input was loaded with. -/
theorem WritesRaw.lowers (hTyped : WellTyped p.context p.instructions)
    (h : WritesRaw p.instructions n e t payload) (exit : Nat) :
    ∃ i c, p.instructions[n]? = some i ∧
      lower S p.context (p.instructions.take n) exit i = [.send c e t false payload] := by
  obtain ⟨i, hi, hOp, hLoaded⟩ := h
  have hNames : Names (p.instructions.take n) (i.input 1) .bytes :=
    ((hTyped.instructions n i hi).input (by rw [hOp]; rfl)).2
  have hBytes : DefinedBy (p.instructions.take n) (i.input 1)
      (.loadBytes (bytesOf p.context (p.instructions.take n) (i.input 1))) :=
    definedBy_load _ hNames (fun _ hMakes => hMakes) fun _ _ => rfl
  have hSame := hBytes.of_take.unique hLoaded
  rw [Operation.loadBytes.injEq] at hSame
  refine ⟨i, connectionOf p.context (p.instructions.take n) (i.input 0), hi, ?_⟩
  simp only [lower, hOp, hSame]

/-- **What a raw frame puts on the wire** is its assembly without the channel bit. -/
theorem WritesRaw.putsOnWire_iff (hS : S.Lawful) (hValid : p.isStaticallyValid = .ok true)
    (hCompile : Compiler.compile S p = .ok compiled)
    (h : WritesRaw p.instructions n e t payload) {bytes : List UInt8} :
    compiled.PutsOnWire n bytes ↔ assemble e t false payload = .ok bytes := by
  obtain ⟨hTyped, hActions, hDescribes⟩ := compiled_of_valid hS hValid hCompile
  obtain ⟨i, c, hi, hLower⟩ := h.lowers (S := S) hTyped (exitOf p.instructions n)
  have hOne : i.operation.numActions = 1 := by
    rw [← length_lower S p.context (p.instructions.take n) (exitOf p.instructions n), hLower]
    rfl
  constructor
  · intro hPuts
    obtain ⟨a, action, hIndex, hAction, hFrame⟩ := hPuts
    rw [hActions] at hAction
    -- the action comes from the instruction the metadata names, its only one
    obtain ⟨n', k, j, hFrom, hAt⟩ := exists_of_action hAction
    rw [hDescribes.actionInstructions, hFrom.instruction] at hIndex
    obtain rfl := Option.some.inj hIndex
    obtain rfl := Option.some.inj (hi.symm.trans hFrom.at_index)
    have hk := hFrom.lt
    obtain rfl : k = 0 := by omega
    rw [hLower] at hAt
    obtain rfl := Option.some.inj hAt
    exact Option.some.inj hFrame
  · intro hAssemble
    -- the send is the first action of the instruction
    have hFrom : ComesFrom p.instructions (actionCount (p.instructions.take n)) n 0 i :=
      ⟨hi, by omega, rfl⟩
    refine ⟨actionCount (p.instructions.take n), .send c e t false payload, ?_, ?_,
      congrArg some hAssemble⟩
    · rw [hDescribes.actionInstructions, hFrom.instruction]
    · rw [hActions, hFrom.action, hLower]
      exact List.getElem?_cons_zero

end Raw

/-- What a raw frame starts with. -/
theorem assemble_raw {e : UInt16} {t : UInt8} {payload bytes : List UInt8}
    (h : assemble e t false payload = .ok bytes) :
    bytes.take 3 = littleEndian 2 (e.toNat % 2 ^ 15) ++ [t] ∧ bytes.drop headerSize = payload := by
  obtain ⟨-, rfl⟩ := (assemble_ok_iff e t false payload).mp h
  have hWord : headerWord e false = e.toNat % 2 ^ 15 := Nat.zero_add _
  rw [hWord]
  exact ⟨rfl, rfl⟩

theorem littleEndian_inj {k n m : Nat} (hn : n < 256 ^ k) (hm : m < 256 ^ k)
    (h : littleEndian k n = littleEndian k m) : n = m := by
  rw [← readLittleEndian_littleEndian hn, h, readLittleEndian_littleEndian hm]

/-- **Raw frames on the wire.** In a statically valid program that compiles, whose
raw payloads are shorter than `2 ^ 24` bytes, what the raw frames say reaches the
wire exactly if none of their extension types has the top bit set: assembly
clears it. -/
theorem raw_frames_faithful_iff {S : Sv2} (hS : S.Lawful) {p : Program} {compiled : CompiledProgram}
    (hValid : p.isStaticallyValid = .ok true) (hCompile : Compiler.compile S p = .ok compiled)
    (hShort : ∀ n e t payload, WritesRaw p.instructions n e t payload → payload.length < 2 ^ 24) :
    RawFaithful p compiled ↔
      ∀ n e t payload, WritesRaw p.instructions n e t payload → e.toNat < 2 ^ 15 := by
  constructor
  · intro hFaithful n e t payload hWrites
    obtain ⟨bytes, hPuts, -, hHead, -⟩ := hFaithful.carries n e t payload hWrites
    obtain ⟨hHead', -⟩ := assemble_raw ((hWrites.putsOnWire_iff hS hValid hCompile).mp hPuts)
    -- the two bytes that arrive are those of the lower fifteen bits
    have hWords := (List.append_inj (hHead.symm.trans hHead') (by simp)).1
    have hSmall := Nat.mod_lt e.toNat (show 0 < 2 ^ 15 by decide)
    have hWord : e.toNat = e.toNat % 2 ^ 15 :=
      littleEndian_inj e.toNat_lt (Nat.lt_trans hSmall (by decide)) hWords
    omega
  · intro hClear
    refine ⟨fun n e t payload hWrites => ?_, ?_⟩
    · have hLong := hShort n e t payload hWrites
      have hPuts : ∀ bytes, compiled.PutsOnWire n bytes ↔ assemble e t false payload = .ok bytes :=
        fun _ => hWrites.putsOnWire_iff hS hValid hCompile
      have hAssemble := assemble_of_lt e t false payload hLong
      obtain ⟨hHead, hTail⟩ := assemble_raw hAssemble
      rw [Nat.mod_eq_of_lt (hClear n e t payload hWrites)] at hHead
      refine ⟨_, (hPuts _).mpr hAssemble, fun bytes' hPuts' => ?_, hHead, hTail⟩
      exact Except.ok.inj (((hPuts _).mp hPuts').symm.trans hAssemble)
    · intro n n' e e' t t' payload payload' bytes bytes' hWrites hWrites' hDiffer hPuts hPuts' hSame
      subst hSame
      obtain ⟨hHead, hTail⟩ := assemble_raw ((hWrites.putsOnWire_iff hS hValid hCompile).mp hPuts)
      obtain ⟨hHead', hTail'⟩ :=
        assemble_raw ((hWrites'.putsOnWire_iff hS hValid hCompile).mp hPuts')
      rw [Nat.mod_eq_of_lt (hClear _ _ _ _ hWrites)] at hHead
      rw [Nat.mod_eq_of_lt (hClear _ _ _ _ hWrites')] at hHead'
      -- the same bytes have the same header and the same payload
      obtain ⟨hWords, hTypes⟩ := List.append_inj (hHead.symm.trans hHead') (by simp)
      refine hDiffer ?_
      rw [UInt16.toNat_inj.mp (littleEndian_inj e.toNat_lt e'.toNat_lt hWords),
        List.singleton_inj.mp hTypes, ← hTail, ← hTail']

/-- Two raw frames that differ in the top bit of their extension types. -/
def channelBit (extensionType : UInt16) : Program where
  context := ⟨1, 0, 0⟩
  instructions :=
    [⟨[], .loadRole 0⟩, ⟨[0], .connect⟩, ⟨[], .loadBytes [7]⟩,
      ⟨[1, 2], .sendRawFrame 1 extensionType⟩, ⟨[1, 2], .sendRawFrame 1 0⟩]

/-- The largest extension type that reaches the wire. -/
theorem raw_frames_faithful_iff_channelBit : ∃ compiled,
    Compiler.compile Sv2.wire (channelBit 0x7fff) = .ok compiled ∧
      RawFaithful (channelBit 0x7fff) compiled := by
  have hRaw : ∀ n e t payload, WritesRaw (channelBit 0x7fff).instructions n e t payload →
      e.toNat < 2 ^ 15 ∧ payload.length < 2 ^ 24 := by
    intro n e t payload hWrites
    obtain ⟨i, hi, hOp, d, j, hd, hj, hLoad⟩ := hWrites
    rcases n with _ | _ | _ | _ | _ | n
    all_goals first | cases hi; cases hOp | cases hi
    all_goals
      obtain rfl := Option.some.inj hd
      obtain rfl := Option.some.inj hj
      cases hLoad
      decide
  obtain ⟨compiled, hCompile⟩ : ∃ compiled,
      Compiler.compile Sv2.wire (channelBit 0x7fff) = .ok compiled := ⟨_, rfl⟩
  refine ⟨compiled, hCompile,
    (raw_frames_faithful_iff Sv2.wire_lawful (by decide) hCompile ?_).mpr ?_⟩
  · exact fun n e t payload h => (hRaw n e t payload h).2
  · exact fun n e t payload h => (hRaw n e t payload h).1

/-- One bit more, and the frame is that of another extension type. -/
theorem raw_frames_channelBit_lost : ∃ compiled,
    (channelBit 0x8000).isStaticallyValid = .ok true ∧
      Compiler.compile Sv2.wire (channelBit 0x8000) = .ok compiled ∧
      WritesRaw (channelBit 0x8000).instructions 3 0x8000 1 [7] ∧
      WritesRaw (channelBit 0x8000).instructions 4 0 1 [7] ∧
      (∃ bytes, compiled.PutsOnWire 3 bytes ∧ compiled.PutsOnWire 4 bytes) ∧
      ¬ RawFaithful (channelBit 0x8000) compiled := by
  obtain ⟨compiled, hCompile⟩ : ∃ compiled,
      Compiler.compile Sv2.wire (channelBit 0x8000) = .ok compiled := ⟨_, rfl⟩
  have hRaw : WritesRaw (channelBit 0x8000).instructions 3 0x8000 1 [7] :=
    ⟨_, rfl, rfl, _, _, rfl, rfl, rfl⟩
  have hPlain : WritesRaw (channelBit 0x8000).instructions 4 0 1 [7] :=
    ⟨_, rfl, rfl, _, _, rfl, rfl, rfl⟩
  have hValid : (channelBit 0x8000).isStaticallyValid = .ok true := by decide
  -- with the channel bit cleared, both assemble to the same bytes
  have hRawPuts := (hRaw.putsOnWire_iff Sv2.wire_lawful hValid hCompile).mpr
    (assemble_of_lt 0x8000 1 false [7] (by decide))
  have hPlainPuts := (hPlain.putsOnWire_iff Sv2.wire_lawful hValid hCompile).mpr
    (assemble_of_lt 0 1 false [7] (by decide))
  refine ⟨compiled, hValid, hCompile, hRaw, hPlain, ⟨_, hRawPuts, hPlainPuts⟩, fun hFaithful => ?_⟩
  exact hFaithful.differ 3 4 _ _ _ _ _ _ _ _ hRaw hPlain (by decide) hRawPuts hPlainPuts rfl

end Stratamoto
