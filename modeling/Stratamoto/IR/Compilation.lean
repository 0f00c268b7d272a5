import Stratamoto.IR.CompilerState
import Stratamoto.IR.Validation

/-!
# Stratamoto — compilation of valid programs

Well typed programs do not go wrong in the compiler. One more well typed
instruction either keeps the description of the compiler's state
(`compileInstruction_lowered`), or sends a setup with a field that is too long
and is refused for it (`compileInstruction_tooLong`); a whole program compiles
to what its instructions lower to, or is refused at the first such send.
-/

namespace Stratamoto

open Brackets Operation

/-! ## Encoding -/

section Encoding

variable {S : Sv2}

theorem protocol_ok (hS : S.Lawful) (p : Protocol) : ∃ w, S.protocol p.id = some w := by
  obtain ⟨hMining, hJob, hTemplate⟩ := hS.protocol
  cases p
  · exact ⟨_, hMining⟩
  · exact ⟨_, hJob⟩
  · exact ⟨_, hTemplate⟩

theorem str0255_ok (hS : S.Lawful) {value : String} (h : value.utf8ByteSize ≤ 255) :
    ∃ w, ∀ i, str0255 S value i = .ok w := by
  obtain ⟨w, hw⟩ := (hS.str0255 value).mpr h
  exact ⟨w, fun i => by rw [str0255, hw]⟩

theorem str0255_error (hS : S.Lawful) {value : String} (h : 255 < value.utf8ByteSize) (i : Nat) :
    str0255 S value i = .error (.error (.stringTooLong i)) := by
  have hNone : S.str0255 value = none := by
    by_contra hSome
    have := (hS.str0255 value).mp (Option.ne_none_iff_exists'.mp hSome)
    omega
  rw [str0255, hNone]

theorem encode_ok (hS : S.Lawful) (m : SetupConnection S.Str0255) :
    ∃ payload, encode S m = .ok payload := by
  obtain ⟨bytes, hBytes⟩ := hS.toWriter m (List.replicate (S.getSize m) 0) List.length_replicate
  exact ⟨bytes, by rw [encode, hBytes]⟩

/-- The wire message says what the setup does, its strings apart. -/
structure SetupConnection.Represents (m : SetupConnection S.Str0255)
    (spec : SetupConnectionSpec) : Prop where
  protocol : S.protocol spec.protocol.id = some m.protocol
  minVersion : m.minVersion = spec.minVersion
  maxVersion : m.maxVersion = spec.maxVersion
  flags : m.flags = spec.flags

/-- A setup whose fields fit is encoded as a wire message, whatever variable
holds it. -/
theorem encodeSetupConnection_eq (hS : S.Lawful) {spec : SetupConnectionSpec}
    (h : ¬ spec.TooLong) : ∃ m : SetupConnection S.Str0255, m.Represents spec ∧
      ∀ i, encodeSetupConnection S spec i = encode S m := by
  simp only [SetupConnectionSpec.TooLong, not_or, Nat.not_lt] at h
  obtain ⟨hHost, hVendor, hHardware, hFirmware, hDevice⟩ := h
  obtain ⟨protocol, hProtocol⟩ := protocol_ok hS spec.protocol
  obtain ⟨host, hHost⟩ := str0255_ok hS hHost
  obtain ⟨vendor, hVendor⟩ := str0255_ok hS hVendor
  obtain ⟨hardware, hHardware⟩ := str0255_ok hS hHardware
  obtain ⟨firmware, hFirmware⟩ := str0255_ok hS hFirmware
  obtain ⟨device, hDevice⟩ := str0255_ok hS hDevice
  refine ⟨{ protocol, minVersion := spec.minVersion, maxVersion := spec.maxVersion,
            flags := spec.flags, endpointHost := host, endpointPort := spec.endpointPort, vendor,
            hardwareVersion := hardware, firmware, deviceId := device },
    ⟨hProtocol, rfl, rfl, rfl⟩, fun i => ?_⟩
  simp only [encodeSetupConnection, hProtocol, hHost, hVendor, hHardware, hFirmware, hDevice,
    bind, Except.bind]

/-- The frame of a setup whose fields fit is its wire message. -/
theorem encode_payloadOf (hS : S.Lawful) {spec : SetupConnectionSpec} (h : ¬ spec.TooLong) :
    ∃ m : SetupConnection S.Str0255, m.Represents spec ∧ encode S m = .ok (payloadOf S spec) := by
  obtain ⟨m, hRepresents, hEncode⟩ := encodeSetupConnection_eq hS h
  obtain ⟨payload, hPayload⟩ := encode_ok hS m
  exact ⟨m, hRepresents, by rw [payloadOf, hEncode, hPayload]⟩

theorem encodeSetupConnection_ok (hS : S.Lawful) {spec : SetupConnectionSpec}
    (h : ¬ spec.TooLong) (i : Nat) :
    encodeSetupConnection S spec i = .ok (payloadOf S spec) := by
  obtain ⟨m, -, hEncode⟩ := encodeSetupConnection_eq hS h
  obtain ⟨payload, hPayload⟩ := encode_ok hS m
  rw [payloadOf, hEncode, hEncode, hPayload]

theorem encodeSetupConnection_tooLong (hS : S.Lawful) {spec : SetupConnectionSpec}
    (h : spec.TooLong) (i : Nat) :
    encodeSetupConnection S spec i = .error (.error (.stringTooLong i)) := by
  obtain ⟨protocol, hProtocol⟩ := protocol_ok hS spec.protocol
  -- the first field that is too long ends the encoding, and all give one error
  have hField : ∀ value : String, (∃ w, str0255 S value i = .ok w) ∨
      str0255 S value i = .error (.error (.stringTooLong i)) := fun value => by
    rcases Nat.lt_or_ge 255 value.utf8ByteSize with hLong | hShort
    · exact Or.inr (str0255_error hS hLong i)
    · obtain ⟨w, hw⟩ := str0255_ok hS hShort
      exact Or.inl ⟨w, hw i⟩
  simp only [encodeSetupConnection, hProtocol]
  rcases hField spec.endpointHost with ⟨w₁, h₁⟩ | h₁ <;> simp only [h₁, bind, Except.bind]
  rcases hField spec.vendor with ⟨w₂, h₂⟩ | h₂ <;> simp only [h₂]
  rcases hField spec.hardwareVersion with ⟨w₃, h₃⟩ | h₃ <;> simp only [h₃]
  rcases hField spec.firmware with ⟨w₄, h₄⟩ | h₄ <;> simp only [h₄]
  rcases hField spec.deviceId with ⟨w₅, h₅⟩ | h₅ <;> simp only [h₅]
  -- no field can be too long any more
  rcases h with h | h | h | h | h
  · simp [str0255_error hS h] at h₁
  · simp [str0255_error hS h] at h₂
  · simp [str0255_error hS h] at h₃
  · simp [str0255_error hS h] at h₄
  · simp [str0255_error hS h] at h₅

end Encoding

/-! ## One instruction -/

section Step

variable {S : Sv2} {ctx : ProgramContext} {is : List Instruction} {i : Instruction}
  {s s' : List (Nat × BlockKind)} {c : Compiler}

theorem compileConnect_lowered (hTyped : WellTypedPrefix ctx is) (h : Lowered S ctx is s c)
    (hs : openStack (brackets is) = some s) (hs' : openStack (brackets (is ++ [i])) = some s')
    (hAfter : WellTypedAfter ctx is i) (hOp : i.operation = .connect) :
    ∃ c', c.compileConnect is.length i.inputs = .ok c' ∧ Lowered S ctx (is ++ [i]) s' c' := by
  have hInput : i.operation.getInputVariables[0]? = some .role := by rw [hOp]; rfl
  have hRole := read_role h.values (hAfter.input hInput).2
  simp only [Compiler.compileConnect, input_ok hAfter hInput, hRole, bind, Except.bind, pure,
    Except.pure]
  refine ⟨_, rfl, h.snoc hs hs' (by simp [hOp]) ?_ ?_ ?_ ?_ ?_ ?_ ?_ ?_⟩
  · rw [valuesOf_snoc hTyped (by rw [hOp]; rfl)]
    simp [h.values, hOp, numDefined, numOutputs, numInnerOutputs, getOutputVariables,
      getInnerOutputVariables, Instruction.result, loaded, h.connections]
  · simp [lower, hOp, h.connections]
  · -- the one entry of the metadata is under a connection that is new
    have hEntry : connectionEntry ctx is i = some (c.connections, c.values.length) := by
      rw [connectionEntry, if_pos hOp, h.connections, h.values, length_valuesOf]
    have hSend : ¬ i.operation.isSendSetup = true := by simp [hOp, isSendSetup]
    exact {
      actionInstructions := by
        simp [actionInstructionsOf_snoc, h.metadata.actionInstructions, hOp, numActions]
      connectionVariables := h.metadata.connectionVariables.insert hEntry
        fun n j v hj => h.connections ▸ connectionEntry_fresh hj
      sessionVariables := h.metadata.sessionVariables.snoc (if_neg hSend)
      sessionSetups := h.metadata.sessionSetups.snoc (if_neg hSend)
      violations := h.metadata.violations.snoc (if_neg fun hNote => hSend hNote.1) }
  · simp [hOp]
  · simp [hOp, isSendSetup]
  · simp [Instruction.sendsOn, hOp]
  · simp [Instruction.rawSendsOn, hOp]
  · exact h.blocks.trans (openEnters_snoc hs hs' (by simp [hOp, bracket])
      (by simp [hOp, bracket])).symm

theorem compileSendSetupConnection_lowered (hS : S.Lawful) (hTyped : WellTypedPrefix ctx is)
    (h : Lowered S ctx is s c) (hs : openStack (brackets is) = some s)
    (hs' : openStack (brackets (is ++ [i])) = some s') (hAfter : WellTypedAfter ctx is i)
    {protocol : Protocol} (hOp : i.operation = .sendSetupConnection protocol)
    (hShort : ¬ (setupSpec ctx is (i.input 1)).TooLong) :
    ∃ c', c.compileSendSetupConnection S is.length i.inputs protocol = .ok c' ∧
      Lowered S ctx (is ++ [i]) s' c' := by
  have hIn₀ : i.operation.getInputVariables[0]? = some .connection := by rw [hOp]; rfl
  have hIn₁ : i.operation.getInputVariables[1]? = some (.constSetupConnection protocol) := by
    rw [hOp]; rfl
  set k := connectionOf ctx is (i.input 0) with hk
  -- the set of connections with sends says whether this is the first
  have hFirst : decide (k ∉ c.sent) = firstOn ctx is k := by
    rw [firstOn, Bool.eq_iff_iff, decide_eq_true_eq, h.sent, Bool.and_eq_true, decide_eq_true_eq]
    simp
  have hConnection := read_connection h.values (hAfter.input hIn₀).2
  have hSetup : ({ c with sent := insert k c.sent } : Compiler).setup (i.input 1) =
      .ok (setupSpec ctx is (i.input 1)) := read_constSetup h.values (hAfter.input hIn₁).2
  simp only [Compiler.compileSendSetupConnection, input_ok hAfter hIn₀, input_ok hAfter hIn₁,
    hConnection, ← hk, hSetup, encodeSetupConnection_ok hS hShort, hFirst, bind, Except.bind, pure,
    Except.pure, Compiler.note_eq]
  refine ⟨_, rfl, h.snoc hs hs' (by simp [hOp]) ?_ ?_ ?_ ?_ ?_ ?_ ?_ ?_⟩
  · rw [valuesOf_snoc hTyped (by rw [hOp]; rfl)]
    simp [h.values, hOp, numDefined, numOutputs, numInnerOutputs, getOutputVariables,
      getInnerOutputVariables, Instruction.result, h.sessions, hk]
  · simp [lower, hOp, h.sessions, hk]
  · have hSend : i.operation.isSendSetup = true := by simp [hOp, isSendSetup]
    -- the note is keyed by the await, the second of the two actions
    have hActions : c.actions.length = actionCount is := by
      rw [h.actions, actionsOf_eq, length_lowerAll]
    have hViolations : (if firstOn ctx is k then [] else [ClientViolation.setupNotFirst]) ++
        (if k ∈ c.rawFramed then [ClientViolation.rawFrameBefore] else []) =
          violationsOf ctx is k := by
      simp only [violationsOf, h.rawFramed]
    exact {
      actionInstructions := by
        simp [actionInstructionsOf_snoc, h.metadata.actionInstructions, hOp, numActions,
          List.replicate_succ]
      connectionVariables := h.metadata.connectionVariables.snoc (if_neg (by simp [hOp]))
      sessionVariables := h.metadata.sessionVariables.insert
        (by rw [sessionEntry, if_pos hSend, h.sessions, h.values, length_valuesOf])
        fun n j v hj => h.sessions ▸ sessionEntry_fresh hj
      sessionSetups := h.metadata.sessionSetups.insert
        (by rw [sessionEntry, if_pos hSend, h.sessions])
        fun n j v hj => h.sessions ▸ sessionEntry_fresh hj
      violations := h.metadata.violations.note hSend (by simp [hActions]) hViolations }
  · simp [hOp]
  · simp [hOp, isSendSetup]
  · intro k'
    show k' ∈ insert k c.sent ↔ _
    simp only [Finset.mem_insert, Instruction.sendsOn, hOp, ← hk, beq_iff_eq]
    rw [or_comm, @eq_comm _ k' k]
  · simp [Instruction.rawSendsOn, hOp]
  · exact h.blocks.trans (openEnters_snoc hs hs' (by simp [hOp, bracket])
      (by simp [hOp, bracket])).symm

theorem compileSendSetupConnection_tooLong (hS : S.Lawful) (h : Lowered S ctx is s c)
    (hAfter : WellTypedAfter ctx is i) {protocol : Protocol}
    (hOp : i.operation = .sendSetupConnection protocol)
    (hLong : (setupSpec ctx is (i.input 1)).TooLong) :
    c.compileSendSetupConnection S is.length i.inputs protocol =
      .error (.error (.stringTooLong (i.input 1))) := by
  have hIn₀ : i.operation.getInputVariables[0]? = some .connection := by rw [hOp]; rfl
  have hIn₁ : i.operation.getInputVariables[1]? = some (.constSetupConnection protocol) := by
    rw [hOp]; rfl
  have hConnection := read_connection h.values (hAfter.input hIn₀).2
  have hSetup : ({ c with sent := insert (connectionOf ctx is (i.input 0)) c.sent } :
      Compiler).setup (i.input 1) = .ok (setupSpec ctx is (i.input 1)) :=
    read_constSetup h.values (hAfter.input hIn₁).2
  simp only [Compiler.compileSendSetupConnection, input_ok hAfter hIn₀, input_ok hAfter hIn₁,
    hConnection, hSetup, encodeSetupConnection_tooLong hS hLong, bind, Except.bind]

theorem compileSendRawFrame_lowered (hTyped : WellTypedPrefix ctx is) (h : Lowered S ctx is s c)
    (hs : openStack (brackets is) = some s) (hs' : openStack (brackets (is ++ [i])) = some s')
    (hAfter : WellTypedAfter ctx is i) {messageType : UInt8} {extensionType : UInt16}
    (hOp : i.operation = .sendRawFrame messageType extensionType) :
    ∃ c', c.compileSendRawFrame is.length i.inputs messageType extensionType = .ok c' ∧
      Lowered S ctx (is ++ [i]) s' c' := by
  have hIn₀ : i.operation.getInputVariables[0]? = some .connection := by rw [hOp]; rfl
  have hIn₁ : i.operation.getInputVariables[1]? = some .bytes := by rw [hOp]; rfl
  have hConnection := read_connection h.values (hAfter.input hIn₀).2
  have hBytes := read_bytes h.values (hAfter.input hIn₁).2
  simp only [Compiler.compileSendRawFrame, input_ok hAfter hIn₀, input_ok hAfter hIn₁,
    hConnection, hBytes, bind, Except.bind, pure, Except.pure]
  refine ⟨_, rfl, h.snoc hs hs' (by simp [hOp]) ?_ ?_ ?_ ?_ ?_ ?_ ?_ ?_⟩
  · rw [valuesOf_snoc hTyped (by rw [hOp]; rfl)]
    simp [h.values, hOp, numDefined, numOutputs, numInnerOutputs, getOutputVariables,
      getInnerOutputVariables]
  · simp [lower, hOp]
  · have := h.metadata.snoc (i := i) (by simp [hOp]) (by simp [hOp, isSendSetup])
    simpa [hOp, numActions] using this
  · simp [hOp]
  · simp [hOp, isSendSetup]
  · -- both sets grow by the connection the frame is sent on
    intro k
    show k ∈ insert (connectionOf ctx is (i.input 0)) c.sent ↔ _
    simp only [Finset.mem_insert, Instruction.sendsOn, hOp, beq_iff_eq]
    rw [or_comm, @eq_comm _ k]
  · intro k
    show k ∈ insert (connectionOf ctx is (i.input 0)) c.rawFramed ↔ _
    simp only [Finset.mem_insert, Instruction.rawSendsOn, hOp, beq_iff_eq]
    rw [or_comm, @eq_comm _ k]
  · exact h.blocks.trans (openEnters_snoc hs hs' (by simp [hOp, bracket])
      (by simp [hOp, bracket])).symm

theorem compileBeginOnSetupSuccess_lowered (hTyped : WellTypedPrefix ctx is)
    (h : Lowered S ctx is s c) (hs : openStack (brackets is) = some s)
    (hs' : openStack (brackets (is ++ [i])) = some s') (hAfter : WellTypedAfter ctx is i)
    {protocol : Protocol} (hOp : i.operation = .beginOnSetupSuccess protocol) :
    ∃ c', c.compileBeginOnSetupSuccess is.length i.inputs = .ok c' ∧
      Lowered S ctx (is ++ [i]) s' c' := by
  have hIn₀ : i.operation.getInputVariables[0]? = some (.setupAttempt protocol) := by
    rw [hOp]; rfl
  obtain ⟨connection, hAttempt⟩ := read_attempt h.values (hAfter.input hIn₀).2
  simp only [Compiler.compileBeginOnSetupSuccess, input_ok hAfter hIn₀, hAttempt, bind,
    Except.bind, pure, Except.pure]
  refine ⟨_, rfl, h.snoc hs hs' (by simp [hOp]) ?_ ?_ ?_ ?_ ?_ ?_ ?_ ?_⟩
  · rw [valuesOf_snoc hTyped (by rw [hOp]; rfl)]
    simp [h.values, hOp, numDefined, numOutputs, numInnerOutputs, getOutputVariables,
      getInnerOutputVariables, Instruction.result]
  · simp [lower, hOp]
  · have := h.metadata.snoc (i := i) (by simp [hOp]) (by simp [hOp, isSendSetup])
    simpa [hOp, numActions] using this
  · simp [hOp]
  · simp [hOp, isSendSetup]
  · simp [Instruction.sendsOn, hOp]
  · simp [Instruction.rawSendsOn, hOp]
  · -- the new block is on top of the stack
    have hStack : s' = (is.length, .success) :: s := by
      rw [openStack_brackets_snoc hs, hOp, bracket, step, Option.some.injEq] at hs'
      exact hs'.symm
    have hEnters : openEnters (is ++ [i]) s' = actionCount is :: openEnters is s := by
      rw [← openEnters_append hs [i], hStack]
      simp [openEnters]
    have hActions : c.actions.length = actionCount is := by
      rw [h.actions, actionsOf_eq, length_lowerAll]
    simp [hEnters, h.blocks, hActions]

theorem compileEndOnSetupSuccess_lowered (hTyped : WellTypedPrefix ctx is)
    (h : Lowered S ctx is s c) (hs : openStack (brackets is) = some s)
    (hs' : openStack (brackets (is ++ [i])) = some s') (hOp : i.operation = .endOnSetupSuccess) :
    ∃ c', c.compileEndOnSetupSuccess is.length = .ok c' ∧ Lowered S ctx (is ++ [i]) s' c' := by
  -- the block it ends is on top of the stack
  obtain ⟨b, rfl⟩ : ∃ b, s = (b, .success) :: s' := by
    have hStep := openStack_brackets_snoc hs i
    rw [hs', hOp, bracket] at hStep
    rcases s with _ | ⟨⟨b, k⟩, s⟩
    · simp [step] at hStep
    · cases k <;> simp [step] at hStep
      exact ⟨b, by rw [hStep]⟩
  obtain ⟨begin_, hBegin, -⟩ := getElem?_of_opening ((openStack_sorted hs).2 b _ (List.mem_cons_self ..))
  obtain ⟨hEnter, hActions⟩ := actionsOf_end S ctx hs hBegin hOp
  have hBlocks : c.blocks = actionCount (is.take b) :: openEnters is s' := by
    rw [h.blocks]
    simp [openEnters]
  have hLen : (actionsOf S ctx is).length = actionCount is := by
    rw [actionsOf_eq, length_lowerAll]
  have hAt : (actionsOf S ctx is ++ [Action.exitBlock])[actionCount (is.take b)]? =
      some (.enterOnSetupSuccess (sessionOf ctx (is.take b) (begin_.input 0)) (exitOf is b)) := by
    rw [List.getElem?_append_left (List.getElem?_eq_some_iff.mp hEnter).1, hEnter]
  simp only [Compiler.compileEndOnSetupSuccess, hBlocks, Compiler.pushAction_actions, h.actions,
    hAt, List.length_append, List.length_singleton, hLen, Nat.add_sub_cancel]
  refine ⟨_, rfl, ?_⟩
  have hSend : i.operation.isSendSetup = false := by rw [hOp]; rfl
  have hMetadata := h.metadata.snoc (i := i) (by simp [hOp]) hSend
  exact {
    values := by
      rw [valuesOf_snoc hTyped (by rw [hOp]; rfl)]
      simp [h.values, hOp, numDefined, numOutputs, numInnerOutputs, getOutputVariables,
        getInnerOutputVariables]
    actions := hActions.symm
    metadata := by simpa [hOp, numActions] using hMetadata
    connections := by simp [h.connections, connects_snoc, hOp]
    sessions := by simp [h.sessions, sends_snoc, hSend]
    sent := fun k => by
      simp [h.sent, sentOn, occurs_snoc, Instruction.sendsOn, hOp]
    rawFramed := fun k => by
      simp [h.rawFramed, rawSentOn, occurs_snoc, Instruction.rawSendsOn, hOp]
    blocks := by
      -- the blocks still open were open before
      have hTail : openEnters (is ++ [i]) s' = openEnters is s' := by
        have hAll := openEnters_append hs [i]
        simp only [openEnters, List.filter_cons, decide_true, if_true, List.map_cons,
          List.cons.injEq] at hAll
        exact hAll.2
      rw [hTail]
      rfl }

/-- Time and probes act on the deployment and on nothing the compiler tracks. -/
theorem pushAction_lowered (hTyped : WellTypedPrefix ctx is) (h : Lowered S ctx is s c)
    (hs : openStack (brackets is) = some s) (hs' : openStack (brackets (is ++ [i])) = some s')
    (hOp : i.operation = .advanceTime ∨ i.operation = .probe) {action : Action}
    (hAction : lower S ctx is ActionId.max i = [action]) :
    Lowered S ctx (is ++ [i]) s' (c.pushAction is.length action) := by
  -- neither of the two defines a value, opens a block or touches a connection
  have hConnect : i.operation ≠ .connect := by rcases hOp with hOp | hOp <;> simp [hOp]
  have hSend : i.operation.isSendSetup = false := by rcases hOp with hOp | hOp <;> rw [hOp] <;> rfl
  have hBracket : i.operation.bracket = .plain := by rcases hOp with hOp | hOp <;> rw [hOp] <;> rfl
  have hDefined : i.operation.numDefined = 0 := by rcases hOp with hOp | hOp <;> rw [hOp] <;> rfl
  have hActions : i.operation.numActions = 1 := by rcases hOp with hOp | hOp <;> rw [hOp] <;> rfl
  refine h.snoc hs hs' (by rcases hOp with hOp | hOp <;> simp [hOp]) ?_ (by simp [hAction]) ?_
    (by simp [hConnect]) (by simp [hSend]) ?_ ?_ ?_
  · rw [valuesOf_snoc hTyped (by rcases hOp with hOp | hOp <;> rw [hOp] <;> rfl), hDefined]
    simp [h.values]
  · have := h.metadata.snoc hConnect hSend
    simpa [hActions] using this
  · intro k
    rcases hOp with hOp | hOp <;> simp [Instruction.sendsOn, hOp]
  · intro k
    rcases hOp with hOp | hOp <;> simp [Instruction.rawSendsOn, hOp]
  · exact h.blocks.trans (openEnters_snoc hs hs' (by simp [hBracket]) (by simp [hBracket])).symm

/-- **One more instruction.** A well typed instruction that sends no setup it
cannot encode keeps the description of the compiler's state. -/
theorem compileInstruction_lowered (hS : S.Lawful) (hTyped : WellTypedPrefix ctx is)
    (h : Lowered S ctx is s c) (hs : openStack (brackets is) = some s)
    (hs' : openStack (brackets (is ++ [i])) = some s') (hAfter : WellTypedAfter ctx is i)
    (hShort : ∀ v, ¬ i.SendsTooLong ctx is v) :
    ∃ c', c.compileInstruction S is.length i = .ok c' ∧ Lowered S ctx (is ++ [i]) s' c' := by
  -- operations that only push the value they load
  have hPush : ∀ {values : List Value}, i.operation.numActions = 0 → i.operation.isEdit = false →
      values = List.replicate i.operation.numDefined (i.result ctx is) →
      Lowered S ctx (is ++ [i]) s' { c with values := c.values ++ values } := by
    intro values hActions hEdit hValues
    exact h.values_only hs hs' hActions (by rw [h.values, hValues, valuesOf_snoc hTyped hEdit])
  -- operations that edit a message
  have hEdits : i.operation.isEdit = true → ∀ change, change = i.edit ctx is →
      ∃ c', c.setupMut (i.input 0) change = .ok c' ∧ Lowered S ctx (is ++ [i]) s' c' := by
    intro hEdit change hChange
    have hNames := (hAfter.input (isEdit_input hEdit)).2
    refine ⟨_, setupMut_ok h.values hNames hEdit hChange, h.values_only hs hs' ?_ rfl⟩
    cases hOp : i.operation <;> simp_all [isEdit, numActions]
  have hIn : ∀ {k : Nat} {var : Variable}, i.operation.getInputVariables[k]? = some var →
      Compiler.input i.inputs k = .ok (i.input k) := fun hk => input_ok hAfter hk
  have hNames : ∀ {k : Nat} {var : Variable}, i.operation.getInputVariables[k]? = some var →
      Names is (i.input k) var := fun hk => (hAfter.input hk).2
  unfold Compiler.compileInstruction
  cases hOp : i.operation <;> rw [hOp] at hPush hEdits hIn hNames <;> simp only []
  case connect => exact compileConnect_lowered hTyped h hs hs' hAfter hOp
  case sendSetupConnection protocol =>
    refine compileSendSetupConnection_lowered hS hTyped h hs hs' hAfter hOp fun hLong => ?_
    have hInput := (hAfter.input (k := 1) (by rw [hOp]; rfl)).1
    exact hShort (i.input 1) ⟨by rw [hOp]; rfl, hInput, hLong⟩
  case beginOnSetupSuccess => exact compileBeginOnSetupSuccess_lowered hTyped h hs hs' hAfter hOp
  case endOnSetupSuccess => exact compileEndOnSetupSuccess_lowered hTyped h hs hs' hOp
  case sendRawFrame => exact compileSendRawFrame_lowered hTyped h hs hs' hAfter hOp
  case setVersions =>
    rw [hIn (k := 0) rfl, hIn (k := 1) rfl, hIn (k := 2) rfl]
    simp only [bind, Except.bind, read_version h.values (hNames (k := 1) rfl),
      read_version h.values (hNames (k := 2) rfl)]
    exact hEdits rfl _ (by funext spec; simp [Instruction.edit, hOp])
  case setFlags =>
    rw [hIn (k := 0) rfl, hIn (k := 1) rfl]
    simp only [bind, Except.bind, read_flags h.values (hNames (k := 1) rfl)]
    exact hEdits rfl _ (by funext spec; simp [Instruction.edit, hOp])
  case setEndpoint =>
    rw [hIn (k := 0) rfl, hIn (k := 1) rfl, hIn (k := 2) rfl]
    simp only [bind, Except.bind, read_string h.values (hNames (k := 1) rfl),
      read_port h.values (hNames (k := 2) rfl)]
    exact hEdits rfl _ (by funext spec; simp [Instruction.edit, hOp])
  case setDeviceInfo =>
    rw [hIn (k := 0) rfl, hIn (k := 1) rfl, hIn (k := 2) rfl, hIn (k := 3) rfl, hIn (k := 4) rfl]
    simp only [bind, Except.bind, read_string h.values (hNames (k := 1) rfl),
      read_string h.values (hNames (k := 2) rfl), read_string h.values (hNames (k := 3) rfl),
      read_string h.values (hNames (k := 4) rfl)]
    exact hEdits rfl _ (by funext spec; simp [Instruction.edit, hOp])
  case endBuildSetupConnection protocol =>
    rw [hIn (k := 0) rfl]
    simp only [bind, Except.bind, pure, Except.pure,
      read_mutSetup h.values (hNames (k := 0) rfl)]
    exact ⟨_, rfl, hPush rfl rfl (by simp [Instruction.result, hOp, numDefined, numOutputs,
      numInnerOutputs, getOutputVariables, getInnerOutputVariables])⟩
  case advanceTime =>
    rw [hIn (k := 0) rfl]
    simp only [bind, Except.bind, pure, Except.pure,
      read_duration h.values (hNames (k := 0) rfl)]
    exact ⟨_, rfl, pushAction_lowered hTyped h hs hs' (Or.inl hOp) (by simp [lower, hOp])⟩
  case probe =>
    exact ⟨_, rfl, pushAction_lowered hTyped h hs hs' (Or.inr hOp) (by simp [lower, hOp])⟩
  -- nops and loads
  all_goals
    exact ⟨_, rfl, hPush rfl rfl (by simp [Instruction.result, hOp, numDefined, numOutputs,
      numInnerOutputs, getOutputVariables, getInnerOutputVariables, loaded])⟩

theorem compileInstruction_tooLong (hS : S.Lawful) (h : Lowered S ctx is s c)
    (hAfter : WellTypedAfter ctx is i) {v : Nat} (hLong : i.SendsTooLong ctx is v) :
    c.compileInstruction S is.length i = .error (.error (.stringTooLong v)) := by
  obtain ⟨hSend, hInput, hLong⟩ := hLong
  obtain ⟨protocol, hOp⟩ : ∃ protocol, i.operation = .sendSetupConnection protocol := by
    cases hOp : i.operation <;> simp_all [isSendSetup]
  obtain rfl : i.input 1 = v := by
    have hAt := (hAfter.input (k := 1) (by rw [hOp]; rfl)).1
    exact Option.some.inj (hAt.symm.trans hInput)
  unfold Compiler.compileInstruction
  rw [hOp]
  exact compileSendSetupConnection_tooLong hS h hAfter hOp hLong

end Step

/-! ## Whole programs -/

section Run

variable {S : Sv2} {ctx : ProgramContext}

/-- No instruction sends a setup with a field that is too long. -/
def NoneTooLong (ctx : ProgramContext) (is : List Instruction) : Prop :=
  ∀ (n : Nat) (i : Instruction) (v : Nat), is[n]? = some i → ¬ i.SendsTooLong ctx (is.take n) v

theorem noneTooLong_snoc {is : List Instruction} {i : Instruction} :
    NoneTooLong ctx (is ++ [i]) ↔ NoneTooLong ctx is ∧ ∀ v, ¬ i.SendsTooLong ctx is v := by
  have hSnoc := @exists_snoc_iff is i fun before j => ∃ v, j.SendsTooLong ctx before v
  have hNone : ∀ l, NoneTooLong ctx l ↔
      ¬ ∃ (n : Nat) (j : Instruction), l[n]? = some j ∧ ∃ v, j.SendsTooLong ctx (l.take n) v := by
    intro l
    exact ⟨fun h ⟨n, j, hj, v, hv⟩ => h n j v hj hv, fun h n j v hj hv => h ⟨n, j, hj, v, hv⟩⟩
  rw [hNone, hNone, hSnoc, not_or, not_exists (p := fun v => i.SendsTooLong ctx is v)]

/-- Compiling the rest of a well typed program from a described state. -/
theorem compileInstructions_cases (hS : S.Lawful) (rest : List Instruction)
    {is : List Instruction} {s t : List (Nat × BlockKind)} {c : Compiler}
    (h : Lowered S ctx is s c) (hs : openStack (brackets is) = some s)
    (ht : openStack (brackets (is ++ rest)) = some t) (hTyped : WellTypedPrefix ctx (is ++ rest))
    (hShort : NoneTooLong ctx is) :
    (NoneTooLong ctx (is ++ rest) ∧ ∃ c', c.compileInstructions S is.length rest = .ok c' ∧
      Lowered S ctx (is ++ rest) t c') ∨
    ∃ v, FirstTooLong ctx (is ++ rest) v ∧
      c.compileInstructions S is.length rest = .error (.error (.stringTooLong v)) := by
  induction rest generalizing is s c with
  | nil =>
    rw [List.append_nil] at ht ⊢
    obtain rfl : s = t := Option.some.inj (hs.symm.trans ht)
    exact Or.inl ⟨hShort, c, rfl, h⟩
  | cons i rest ih =>
    rw [List.append_cons] at ht hTyped
    obtain ⟨s', hs'⟩ := openStack_of_append (by rwa [brackets_append] at ht)
    have hPrefix : WellTypedPrefix ctx (is ++ [i]) := by
      have := hTyped.take (is ++ [i]).length
      rwa [List.take_left] at this
    obtain ⟨hBefore, hAfter⟩ := wellTypedPrefix_snoc.mp hPrefix
    by_cases hLong : ∃ v, i.SendsTooLong ctx is v
    · -- this is the first send that cannot be encoded
      obtain ⟨v, hLong⟩ := hLong
      refine Or.inr ⟨v, ⟨is.length, i, by simp, by rwa [List.take_left], ?_⟩, ?_⟩
      · intro n' i' v' hLt hi'
        rw [List.getElem?_append_left hLt] at hi'
        rw [List.take_append_of_le_length (Nat.le_of_lt hLt)]
        exact hShort n' i' v' hi'
      · rw [Compiler.compileInstructions, compileInstruction_tooLong hS h hAfter hLong]
        rfl
    · -- the instruction compiles, and the invariant carries over to the rest
      have hLong := not_exists.mp hLong
      obtain ⟨c', hStep, hLowered⟩ :=
        compileInstruction_lowered hS hBefore h hs hs' hAfter hLong
      have hRest := ih hLowered hs' ht hTyped (noneTooLong_snoc.mpr ⟨hShort, hLong⟩)
      rw [List.length_append, List.length_singleton] at hRest
      rw [List.append_cons, Compiler.compileInstructions, hStep]
      exact hRest

/-- A well typed program compiles to what its instructions lower to, or is
refused at the first setup that cannot be encoded. -/
theorem compile_cases (hS : S.Lawful) {is : List Instruction} (hTyped : WellTyped ctx is) :
    (NoneTooLong ctx is ∧ ∃ metadata, Describes ctx is metadata ∧
      Compiler.compile S ⟨ctx, is⟩ = .ok ⟨ctx, actionsOf S ctx is, metadata⟩) ∨
    ∃ v, FirstTooLong ctx is v ∧
      Compiler.compile S ⟨ctx, is⟩ = .error (.error (.stringTooLong v)) := by
  have hs := balanced_iff_openStack.mp hTyped.balanced
  rcases compileInstructions_cases hS is (lowered_start S ctx) rfl hs hTyped.instructions
    (fun n i v hi => by simp at hi) with ⟨hShort, c, hc, hLowered⟩ | ⟨v, hFirst, hc⟩
  · have hLowered : Lowered S ctx is [] c := hLowered
    refine Or.inl ⟨hShort, c.metadata, hLowered.metadata, ?_⟩
    simp only [Compiler.compile, List.length_nil] at hc ⊢
    rw [hc, ← hLowered.actions]
    rfl
  · refine Or.inr ⟨v, hFirst, ?_⟩
    simp only [Compiler.compile, List.length_nil] at hc ⊢
    rw [hc]
    rfl

theorem noneTooLong_of_compile (hS : S.Lawful) {is : List Instruction} (hTyped : WellTyped ctx is)
    {compiled : CompiledProgram} (hCompile : Compiler.compile S ⟨ctx, is⟩ = .ok compiled) :
    NoneTooLong ctx is := by
  rcases compile_cases hS hTyped with ⟨hShort, -⟩ | ⟨v, -, hError⟩
  · exact hShort
  · cases hError.symm.trans hCompile

theorem FirstTooLong.unique {is : List Instruction} {v v' : Nat} (h : FirstTooLong ctx is v)
    (h' : FirstTooLong ctx is v') : v = v' := by
  obtain ⟨n, i, hi, hLong, hFirst⟩ := h
  obtain ⟨n', i', hi', hLong', hFirst'⟩ := h'
  obtain rfl : n = n' := by
    rcases Nat.lt_trichotomy n n' with hLt | hEq | hGt
    · exact absurd hLong (hFirst' n i v hLt hi)
    · exact hEq
    · exact absurd hLong' (hFirst n' i' v' hGt hi')
  obtain rfl : i = i' := Option.some.inj (hi.symm.trans hi')
  exact Option.some.inj (hLong.2.1.symm.trans hLong'.2.1)

/-- A statically valid program is refused exactly for the first setup it sends
that has a field too long for the wire, and compiles otherwise. -/
theorem compile_of_valid (S : Sv2) (hS : S.Lawful) (p : Program)
    (hValid : p.isStaticallyValid = .ok true) :
    (∀ v, Compiler.compile S p = .error (.error (.stringTooLong v)) ↔
      FirstTooLong p.context p.instructions v) ∧
    ((∃ compiled, Compiler.compile S p = .ok compiled) ↔
      ∀ v, ¬ FirstTooLong p.context p.instructions v) ∧
    ((∃ compiled, Compiler.compile S p = .ok compiled) ∨
      ∃ v, Compiler.compile S p = .error (.error (.stringTooLong v))) := by
  -- two cases only: no string is too long, or there is a first one that is
  rcases compile_cases hS (isStaticallyValid_iff.mp hValid) with
    ⟨hShort, metadata, -, hCompile⟩ | ⟨v, hFirst, hCompile⟩
  · have hNone : ∀ v, ¬ FirstTooLong p.context p.instructions v := by
      rintro v ⟨n, i, hi, hLong, -⟩
      exact hShort n i v hi hLong
    refine ⟨fun v => ?_, ?_, Or.inl ⟨_, hCompile⟩⟩
    · rw [hCompile]
      exact iff_of_false (by simp) (hNone v)
    · exact iff_of_true ⟨_, hCompile⟩ hNone
  · refine ⟨fun v' => ?_, ?_, Or.inr ⟨v, hCompile⟩⟩
    · rw [hCompile]
      constructor
      · intro h
        rw [Except.error.injEq, Abort.error.injEq, CompilerError.stringTooLong.injEq] at h
        exact h ▸ hFirst
      · intro h
        rw [hFirst.unique h]
    · rw [hCompile]
      exact iff_of_false (by simp) (fun h => h v hFirst)

end Run

/-! ## Programs that were not validated -/

theorem bind_ok {ε α β : Type} {x : Except ε α} {f : α → Except ε β} {b : β}
    (h : x >>= f = .ok b) : ∃ a, x = .ok a ∧ f a = .ok b := by
  cases x with
  | error e => cases h
  | ok a => exact ⟨a, rfl, h⟩

/-- An arm that reads an input goes on with its value. -/
theorem read_ok {α β : Type} {get : Value → Option α} {c : Compiler} {inputs : List Nat} {k : Nat}
    {f : Nat → α → Except Abort β} {b : β}
    (h : (Compiler.input inputs k >>= fun v => c.read get v >>= f v) = .ok b) :
    ∃ v a, f v a = .ok b := by
  obtain ⟨v, -, h⟩ := bind_ok h
  obtain ⟨a, -, h⟩ := bind_ok h
  exact ⟨v, a, h⟩

theorem setupMut_frame {c c' : Compiler} {inputs : List Nat}
    {change : SetupConnectionSpec → SetupConnectionSpec}
    (h : (Compiler.input inputs 0 >>= fun m => c.setupMut m change) = .ok c') :
    c'.actions = c.actions ∧ c'.connections = c.connections ∧ c'.blocks = c.blocks := by
  obtain ⟨m, -, h⟩ := bind_ok h
  unfold Compiler.setupMut at h
  split at h <;> cases h
  exact ⟨rfl, rfl, rfl⟩

/-- The connection an action opens. -/
def Action.opens : Action → Option Nat
  | .connect connection _ => some connection
  | _ => none

/-- The compiler pushes actions: an enter has no end yet, and what is opened are
the next connections. -/
structure Compiler.Pushes (c c' : Compiler) (l : List Action) : Prop where
  actions : c'.actions = c.actions ++ l
  enters : ∀ session e, Action.enterOnSetupSuccess session e ∈ l → e = ActionId.max
  opens : ∃ k, l.filterMap Action.opens = List.range' c.connections k ∧
    c'.connections = c.connections + k

/-- What an instruction does to the actions and to the open blocks, valid or not. -/
inductive Compiler.Steps (c c' : Compiler) (op : Operation) : Prop
  | pushes (l : List Action) (hPushes : c.Pushes c' l) (hBlocks : c'.blocks = c.blocks)
    (hOpening : op.bracket ≠ .opening .success) (hClosing : op.bracket ≠ .closing .success)
  | begins (session : Nat) (hOpening : op.bracket = .opening .success)
    (hPushes : c.Pushes c' [.enterOnSetupSuccess session ActionId.max])
    (hBlocks : c'.blocks = c.actions.length :: c.blocks)
  | ends (enter session e : Nat) (hClosing : op.bracket = .closing .success)
    (hBlocks : c.blocks = enter :: c'.blocks)
    (hEnter : (c.actions ++ [Action.exitBlock])[enter]? = some (.enterOnSetupSuccess session e))
    (hActions : c'.actions = (c.actions ++ [Action.exitBlock]).set enter
      (.enterOnSetupSuccess session c.actions.length))
    (hConnections : c'.connections = c.connections)

/-- An instruction that appends nothing. -/
theorem Compiler.Steps.none {c c' : Compiler} {op : Operation}
    (h : c'.actions = c.actions ∧ c'.connections = c.connections ∧ c'.blocks = c.blocks)
    (hOpening : op.bracket ≠ .opening .success) (hClosing : op.bracket ≠ .closing .success) :
    c.Steps c' op := by
  obtain ⟨hActions, hConnections, hBlocks⟩ := h
  refine .pushes [] ⟨?_, fun _ _ hMem => ?_, 0, rfl, hConnections⟩ hBlocks hOpening hClosing
  · rw [hActions, List.append_nil]
  · cases hMem

theorem compileEndOnSetupSuccess_steps {c c' : Compiler} {index : Nat}
    (h : c.compileEndOnSetupSuccess index = .ok c') : c.Steps c' .endOnSetupSuccess := by
  unfold Compiler.compileEndOnSetupSuccess at h
  split at h
  · cases h
  · rename_i enter blocks hBlocks
    simp only [Compiler.pushAction_actions, List.length_append, List.length_singleton,
      Nat.add_sub_cancel] at h
    split at h
    · cases h
    · rename_i session e hEnter
      cases h
      exact .ends enter session e rfl hBlocks hEnter rfl rfl
    · cases h

/-- **What an instruction does** when it compiles, valid or not: it pushes actions,
it begins a block or it ends one. -/
theorem compileInstruction_steps {S : Sv2} {c c' : Compiler} {index : Nat} {i : Instruction}
    (h : c.compileInstruction S index i = .ok c') : c.Steps c' i.operation := by
  unfold Compiler.compileInstruction at h
  cases hOp : i.operation <;> simp only [hOp] at h
  case connect =>
    obtain ⟨_, role, h⟩ := read_ok h
    cases h
    refine .pushes [.connect c.connections role] ?_ rfl (by simp [bracket]) (by simp [bracket])
    exact ⟨by simp, by simp, 1, rfl, rfl⟩
  -- the setters read their values first, and change the message last
  case setVersions =>
    obtain ⟨_, _, h⟩ := read_ok h
    obtain ⟨_, _, h⟩ := read_ok h
    exact .none (setupMut_frame h) (by simp [bracket]) (by simp [bracket])
  case setFlags =>
    obtain ⟨_, _, h⟩ := read_ok h
    exact .none (setupMut_frame h) (by simp [bracket]) (by simp [bracket])
  case setEndpoint =>
    obtain ⟨_, _, h⟩ := read_ok h
    obtain ⟨_, _, h⟩ := read_ok h
    exact .none (setupMut_frame h) (by simp [bracket]) (by simp [bracket])
  case setDeviceInfo =>
    obtain ⟨_, _, h⟩ := read_ok h
    obtain ⟨_, _, h⟩ := read_ok h
    obtain ⟨_, _, h⟩ := read_ok h
    obtain ⟨_, _, h⟩ := read_ok h
    exact .none (setupMut_frame h) (by simp [bracket]) (by simp [bracket])
  case endBuildSetupConnection =>
    obtain ⟨_, _, h⟩ := read_ok h
    cases h
    exact .none ⟨rfl, rfl, rfl⟩ (by simp [bracket]) (by simp [bracket])
  case sendSetupConnection protocol =>
    obtain ⟨_, connection, h⟩ := read_ok h
    obtain ⟨_, _, h⟩ := read_ok h
    obtain ⟨payload, -, h⟩ := bind_ok h
    cases h
    refine .pushes [.send connection 0 S.messageTypeSetupConnection false payload,
      .awaitSetupResponse connection c.sessions protocol (decide (connection ∉ c.sent))]
      ?_ ?_ (by simp [bracket]) (by simp [bracket])
    · exact ⟨by simp [Compiler.note_eq], by simp, 0, rfl, by simp [Compiler.note_eq]⟩
    · simp [Compiler.note_eq]
  case beginOnSetupSuccess =>
    obtain ⟨_, ⟨session, _⟩, h⟩ := read_ok h
    cases h
    exact .begins session rfl ⟨by simp, by simp, 0, rfl, rfl⟩ (by simp)
  case endOnSetupSuccess =>
    exact compileEndOnSetupSuccess_steps h
  case sendRawFrame messageType extensionType =>
    obtain ⟨_, connection, h⟩ := read_ok h
    obtain ⟨_, payload, h⟩ := read_ok h
    cases h
    refine .pushes [.send connection extensionType messageType false payload] ?_ rfl
      (by simp [bracket]) (by simp [bracket])
    exact ⟨by simp, by simp, 0, rfl, rfl⟩
  case advanceTime =>
    obtain ⟨_, duration, h⟩ := read_ok h
    cases h
    refine .pushes [.advanceTime duration] ?_ rfl (by simp [bracket]) (by simp [bracket])
    exact ⟨by simp, by simp, 0, rfl, rfl⟩
  case probe =>
    cases h
    refine .pushes [.probe] ?_ rfl (by simp [bracket]) (by simp [bracket])
    exact ⟨by simp, by simp, 0, rfl, rfl⟩
  -- nops, loads, and the begin of a message
  all_goals
    cases h
    exact .none ⟨rfl, rfl, rfl⟩ (by simp [bracket]) (by simp [bracket])

/-- Every enter action that has an end has a later one. -/
def EndsLater (actions : List Action) : Prop :=
  ∀ a session e, actions[a]? = some (.enterOnSetupSuccess session e) → e = ActionId.max ∨ a < e

theorem EndsLater.pushes {c c' : Compiler} {l : List Action} (hEnds : EndsLater c.actions)
    (h : c.Pushes c' l) : EndsLater c'.actions := by
  intro a session e ha
  rw [h.actions] at ha
  rcases Nat.lt_or_ge a c.actions.length with hLt | hGe
  · rw [List.getElem?_append_left hLt] at ha
    exact hEnds a session e ha
  · rw [List.getElem?_append_right hGe] at ha
    exact Or.inl (h.enters session e (List.mem_of_getElem? ha))

theorem EndsLater.step {S : Sv2} {c c' : Compiler} {index : Nat} {i : Instruction}
    (hEnds : EndsLater c.actions) (h : c.compileInstruction S index i = .ok c') :
    EndsLater c'.actions := by
  cases compileInstruction_steps h with
  | pushes l hPushes => exact hEnds.pushes hPushes
  | begins session hOpening hPushes => exact hEnds.pushes hPushes
  | ends enter session' e' hClosing hBlocks hEnter hActions =>
    intro a session e ha
    -- the end that is patched in is past every earlier action
    have hLt : enter < c.actions.length := by
      have hLen := (List.getElem?_eq_some_iff.mp hEnter).1
      rw [List.length_append, List.length_singleton] at hLen
      by_contra hGe
      obtain rfl : enter = c.actions.length := by omega
      rw [List.getElem?_concat_length] at hEnter
      cases hEnter
    rw [hActions] at ha
    by_cases hEq : enter = a
    · subst hEq
      rw [List.getElem?_set_self (by rw [List.length_append]; omega)] at ha
      cases ha
      exact Or.inr hLt
    · rw [List.getElem?_set_ne hEq] at ha
      rcases Nat.lt_or_ge a c.actions.length with hLt' | hGe
      · rw [List.getElem?_append_left hLt'] at ha
        exact hEnds a session e ha
      · have hMem := List.mem_of_getElem? (List.getElem?_append_right hGe ▸ ha)
        simp at hMem

theorem endsLater_of_compileInstructions {S : Sv2} {is : List Instruction} {c c' : Compiler}
    {index : Nat} (hEnds : EndsLater c.actions)
    (h : c.compileInstructions S index is = .ok c') : EndsLater c'.actions := by
  induction is generalizing c index with
  | nil =>
    cases h
    exact hEnds
  | cons i is ih =>
    obtain ⟨c₁, hStep, hRest⟩ := bind_ok h
    exact ih (hEnds.step hStep) hRest

theorem endsLater_of_compile {S : Sv2} {p : Program} {compiled : CompiledProgram}
    (h : Compiler.compile S p = .ok compiled) : EndsLater compiled.actions := by
  obtain ⟨c, hCompile, hProgram⟩ := bind_ok h
  cases hProgram
  exact endsLater_of_compileInstructions (fun a session e ha => by simp [Compiler.start] at ha)
    hCompile

/-- The connections the actions open are numbered from those of the context on. -/
def OpensInOrder (ctx : ProgramContext) (actions : List Action) (connections : Nat) : Prop :=
  ∃ k, actions.filterMap Action.opens = List.range' ctx.numConnections k ∧
    connections = ctx.numConnections + k

/-- Patching the end of an enter opens nothing. -/
theorem opens_set {actions : List Action} {enter session e exit : Nat}
    (h : actions[enter]? = some (.enterOnSetupSuccess session e)) :
    (actions.set enter (.enterOnSetupSuccess session exit)).filterMap Action.opens =
      actions.filterMap Action.opens := by
  obtain ⟨hLt, hGet⟩ := List.getElem?_eq_some_iff.mp h
  have hSplit : actions = actions.take enter ++
      .enterOnSetupSuccess session e :: actions.drop (enter + 1) := by
    rw [← hGet, List.getElem_cons_drop, List.take_append_drop]
  rw [List.set_eq_take_append_cons_drop, if_pos hLt, List.filterMap_append]
  conv_rhs => rw [hSplit, List.filterMap_append]
  rfl

theorem OpensInOrder.pushes {ctx : ProgramContext} {c c' : Compiler} {l : List Action}
    (hOpens : OpensInOrder ctx c.actions c.connections) (h : c.Pushes c' l) :
    OpensInOrder ctx c'.actions c'.connections := by
  obtain ⟨k, hList, hCount⟩ := hOpens
  obtain ⟨k', hNew, hConnections⟩ := h.opens
  refine ⟨k + k', ?_, by omega⟩
  rw [h.actions, List.filterMap_append, hList, hNew, hCount, List.range'_append_1]

theorem OpensInOrder.step {S : Sv2} {ctx : ProgramContext} {c c' : Compiler} {index : Nat}
    {i : Instruction} (hOpens : OpensInOrder ctx c.actions c.connections)
    (h : c.compileInstruction S index i = .ok c') :
    OpensInOrder ctx c'.actions c'.connections := by
  cases compileInstruction_steps h with
  | pushes l hPushes => exact hOpens.pushes hPushes
  | begins session hOpening hPushes => exact hOpens.pushes hPushes
  | ends enter session e hClosing hBlocks hEnter hActions hConnections =>
    obtain ⟨k, hList, hCount⟩ := hOpens
    refine ⟨k, ?_, by omega⟩
    rw [hActions, opens_set hEnter, List.filterMap_append, hList]
    exact List.append_nil _

theorem opensInOrder_of_compileInstructions {S : Sv2} {ctx : ProgramContext}
    {is : List Instruction} {c c' : Compiler} {index : Nat}
    (hOpens : OpensInOrder ctx c.actions c.connections)
    (h : c.compileInstructions S index is = .ok c') :
    OpensInOrder ctx c'.actions c'.connections := by
  induction is generalizing c index with
  | nil =>
    cases h
    exact hOpens
  | cons i is ih =>
    obtain ⟨c₁, hStep, hRest⟩ := bind_ok h
    exact ih (hOpens.step hStep) hRest

/-- No two actions of a compiled program open one connection. -/
theorem opens_nodup_of_compile {S : Sv2} {p : Program} {compiled : CompiledProgram}
    (h : Compiler.compile S p = .ok compiled) : (compiled.actions.filterMap Action.opens).Nodup := by
  obtain ⟨c, hCompile, hProgram⟩ := bind_ok h
  cases hProgram
  obtain ⟨k, hList, -⟩ := opensInOrder_of_compileInstructions
    (c := Compiler.start p.context) ⟨0, rfl, rfl⟩ hCompile
  show (c.actions.filterMap Action.opens).Nodup
  rw [hList]
  exact List.nodup_range'

/-- A setup that is sent can be encoded. -/
theorem setupSpec_not_tooLong {ctx : ProgramContext} {is : List Instruction}
    (hTyped : WellTyped ctx is) (hShort : NoneTooLong ctx is) {n : Nat} {i : Instruction}
    (hi : is[n]? = some i) {protocol : Protocol}
    (hOp : i.operation = .sendSetupConnection protocol) :
    ¬ (setupSpec ctx (is.take n) (i.input 1)).TooLong := by
  have hVar : i.operation.getInputVariables[1]? = some (.constSetupConnection protocol) := by
    rw [hOp]
    rfl
  have hInput := (hTyped.instructions n i hi).input hVar
  exact fun hLong => hShort n i _ hi ⟨by rw [hOp]; rfl, hInput.1, hLong⟩

/-- The compiled program of a well typed one. -/
theorem compiled_of_typed {S : Sv2} (hS : S.Lawful) {ctx : ProgramContext}
    {is : List Instruction} (hTyped : WellTyped ctx is) {compiled : CompiledProgram}
    (hCompile : Compiler.compile S ⟨ctx, is⟩ = .ok compiled) :
    compiled.actions = actionsOf S ctx is ∧ Describes ctx is compiled.metadata := by
  rcases compile_cases hS hTyped with ⟨-, metadata, hDescribes, hOk⟩ | ⟨v, -, hError⟩
  · obtain rfl := Except.ok.inj (hOk.symm.trans hCompile)
    exact ⟨rfl, hDescribes⟩
  · cases hError.symm.trans hCompile

/-- The compiled program of a valid one. -/
theorem compiled_of_valid {S : Sv2} (hS : S.Lawful) {p : Program} {compiled : CompiledProgram}
    (hValid : p.isStaticallyValid = .ok true) (hCompile : Compiler.compile S p = .ok compiled) :
    WellTyped p.context p.instructions ∧
      compiled.actions = actionsOf S p.context p.instructions ∧
      Describes p.context p.instructions compiled.metadata := by
  have hTyped := isStaticallyValid_iff.mp hValid
  exact ⟨hTyped, compiled_of_typed hS hTyped hCompile⟩

/-- A client that connects, sends one setup of its own, and probes if the server
agrees to it. -/
def singleSetup : Program where
  context := ⟨1, 0, 0⟩
  instructions :=
    [⟨[], .loadRole 0⟩, ⟨[0], .connect⟩, ⟨[], .beginBuildSetupConnection⟩,
      ⟨[2], .endBuildSetupConnection .mining⟩, ⟨[1, 3], .sendSetupConnection .mining⟩,
      ⟨[4], .beginOnSetupSuccess .mining⟩, ⟨[], .probe⟩, ⟨[], .endOnSetupSuccess⟩]

end Stratamoto
