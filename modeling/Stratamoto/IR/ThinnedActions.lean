import Stratamoto.IR.Actions
import Stratamoto.IR.ThinnedValues

/-!
# Stratamoto — the actions of a program and of what is kept of it

Where kept and dropped instructions have nothing to do with one another, the
kept ones lower to the same actions in both programs, up to the numbers of
connections, sessions and actions:

* `violationsOf_keptOf` — what a send is classified as;
* `exitOf_keptOf` — where a block ends;
* `lower_keptOf`, `actionsOf_keptOf` — the actions of an instruction, and of the program;
* `noneTooLong_keptOf` — the setups that can be encoded;
* `compiled_keptOf` — the compiled programs, metadata included.
-/

namespace Stratamoto

open Brackets Operation Marks

variable {S : Sv2} {ctx : ProgramContext} {ms : Marking} {n v : Nat}

/-! ## Connections -/

/-- An instruction of the mark `b` loads or opens the connection. -/
def Provides (ctx : ProgramContext) (ms : Marking) (b : Bool) (c : Nat) : Prop :=
  ∃ (n : Nat) (i : Instruction), ms[n]? = some (i, b) ∧
    ((i.operation = .loadConnection c ∧ c < ctx.numConnections) ∨
      (i.operation = .connect ∧ c = ctx.numConnections + connects ((wholeOf ms).take n)))

/-- The connection a variable holds is provided by the instruction it belongs to. -/
theorem provides_of_names (hTyped : WellTypedPrefix ctx (wholeOf ms))
    (h : Names ((wholeOf ms).take n) v .connection) :
    ∃ b, (KeptVar ms v ↔ b = true) ∧
      Provides ctx ms b (connectionOf ctx ((wholeOf ms).take n) v) := by
  obtain ⟨d, j, hd, hj, -, hVar⟩ := h.definition
  obtain ⟨hAt, hjWhole, hTake⟩ := getElem?_of_take hj
  obtain ⟨b, hMark⟩ := exists_mark hjWhole
  -- a variable is kept with its instruction
  have hKept : KeptVar ms v ↔ b = true := by
    rw [← wholeOf_take] at hd
    have hLt := (List.getElem?_eq_some_iff.mp hd).1
    rw [wholeOf_take] at hLt
    rw [← keptVar_take_iff hLt, (definition_keptOf hd).1, keptAt_iff,
      List.getElem?_take_of_lt hAt, hMark]
    simp
  refine ⟨b, hKept, d.instruction, j, hMark, ?_⟩
  have hContext := (hTyped _ j hjWhole).connection
  -- it is opened, or one of the context
  obtain hOp | ⟨c, hOp⟩ : j.operation = .connect ∨ ∃ c, j.operation = .loadConnection c :=
    makes_of_output hVar
  · refine Or.inr ⟨hOp, ?_⟩
    simp only [connectionOf, constants, hd, hj, hOp, loaded, Value.asConnection,
      Option.getD_some, hTake]
  · have hValue : connectionOf ctx ((wholeOf ms).take n) v = c := by
      simp only [connectionOf, constants, hd, hj, hOp, loaded, Value.asConnection,
        Option.getD_some]
    rw [hValue]
    exact Or.inl ⟨hOp, hContext c hOp⟩

/-- No connection is provided by kept and dropped instructions. -/
theorem Provides.apart (h : Separated ms) {c : Nat} (hKept : Provides ctx ms true c) :
    ¬ Provides ctx ms false c := by
  intro hDropped
  obtain ⟨n, i, hi, hOp⟩ := hKept
  obtain ⟨n', i', hi', hOp'⟩ := hDropped
  rcases hOp with ⟨hLoad, hLt⟩ | ⟨hConnect, hEq⟩ <;>
    rcases hOp' with ⟨hLoad', hLt'⟩ | ⟨hConnect', hEq'⟩
  · exact h.loads n n' c i i' hi hi' hLoad hLoad'
  · omega
  · omega
  · -- opened twice, by one instruction
    have hSame : connects ((wholeOf ms).take n) = connects ((wholeOf ms).take n') := by omega
    obtain rfl := total_injective (getElem?_wholeOf hi) (getElem?_wholeOf hi')
      (by simp [hConnect]) (by simp [hConnect']) hSame
    cases Option.some.inj (hi.symm.trans hi')

/-- A connection of the context, or one that a kept instruction opens. -/
def KeptConnection (ctx : ProgramContext) (ms : Marking) (c : Nat) : Prop :=
  c < ctx.numConnections ∨ ctx.numConnections ≤ c ∧
    Kept (fun i : Instruction => if i.operation = .connect then 1 else 0) ms
      (c - ctx.numConnections)

theorem keptConnection_iff {i : Instruction} {b : Bool} (hn : ms[n]? = some (i, b))
    (hOp : i.operation = .connect) :
    KeptConnection ctx ms (ctx.numConnections + connects ((wholeOf ms).take n)) ↔ b = true := by
  rw [← kept_total_iff (fun op => if op = .connect then 1 else 0) (k := 0) hn (by simp [hOp])]
  constructor
  · intro hC
    rcases hC with hLt | ⟨-, hUnit⟩
    · omega
    · rwa [Nat.add_sub_cancel_left] at hUnit
  · intro hUnit
    refine Or.inr ⟨Nat.le_add_right .., ?_⟩
    rwa [Nat.add_sub_cancel_left]

theorem Provides.kept {c : Nat} (h : Provides ctx ms true c) : KeptConnection ctx ms c := by
  obtain ⟨n, i, hi, ⟨-, hLt⟩ | ⟨hOp, rfl⟩⟩ := h
  · exact Or.inl hLt
  · exact (keptConnection_iff hi hOp).mpr rfl

theorem le_connectionAt_iff (ctx : ProgramContext) (ms : Marking) (c : Nat) :
    ctx.numConnections ≤ connectionAt ctx ms c ↔ ctx.numConnections ≤ c := by
  unfold connectionAt
  split <;> omega

/-- Kept connections are not confused. -/
theorem connectionAt_inj {c c' : Nat} (h : KeptConnection ctx ms c)
    (h' : KeptConnection ctx ms c') : connectionAt ctx ms c = connectionAt ctx ms c' ↔ c = c' := by
  refine ⟨fun hEq => ?_, fun hEq => by rw [hEq]⟩
  have hIff := le_connectionAt_iff ctx ms c
  have hIff' := le_connectionAt_iff ctx ms c'
  rcases h with hLt | ⟨hGe, hUnit⟩ <;> rcases h' with hLt' | ⟨hGe', hUnit'⟩
  · rwa [connectionAt_of_lt ms hLt, connectionAt_of_lt ms hLt'] at hEq
  · omega
  · omega
  · obtain ⟨k, rfl⟩ := Nat.exists_eq_add_of_le hGe
    obtain ⟨k', rfl⟩ := Nat.exists_eq_add_of_le hGe'
    rw [Nat.add_sub_cancel_left] at hUnit hUnit'
    rw [connectionAt_add, connectionAt_add] at hEq
    have hSame := (renumber_inj hUnit hUnit').mp (Nat.add_left_cancel hEq)
    rw [hSame]

/-- What uses a connection, read off the operation. -/
def Operation.isRawFrame : Operation → Bool
  | .sendRawFrame _ _ => true
  | .nop _ _ | .loadRole _ | .loadConnection _ | .loadVersion _ | .loadFlags _ | .loadPort _
  | .loadStr _ | .loadBytes _ | .loadDuration _ | .connect | .beginBuildSetupConnection
  | .setVersions | .setFlags | .setEndpoint | .setDeviceInfo | .endBuildSetupConnection _
  | .sendSetupConnection _ | .beginOnSetupSuccess _ | .endOnSetupSuccess | .advanceTime
  | .probe => false

theorem sendsOn_eq (c : Nat) (before : List Instruction) (i : Instruction) :
    i.sendsOn ctx c before =
      (i.operation.usesConnection && (connectionOf ctx before (i.input 0) == c)) := by
  obtain ⟨inputs, op⟩ := i
  cases op <;> rfl

theorem rawSendsOn_eq (c : Nat) (before : List Instruction) (i : Instruction) :
    i.rawSendsOn ctx c before =
      (i.operation.isRawFrame && (connectionOf ctx before (i.input 0) == c)) := by
  obtain ⟨inputs, op⟩ := i
  cases op <;> rfl

/-- **A kept connection is used in what is kept** where it is used in the whole. -/
theorem occurs_keptOf (hTyped : WellTypedPrefix ctx (wholeOf ms)) (h : Separated ms) {c : Nat}
    (hc : Provides ctx ms true c) (n : Nat) {uses : Operation → Bool}
    (hUses : ∀ op, uses op = true → op.getInputVariables[0]? = some .connection) :
    (occurs (keptOf (ms.take n)) fun before i =>
        uses i.operation && (connectionOf ctx before (i.input 0) == connectionAt ctx ms c)) =
      occurs ((wholeOf ms).take n) fun before i =>
        uses i.operation && (connectionOf ctx before (i.input 0) == c) := by
  -- a use on a kept connection, by an instruction that is kept
  have hUse : ∀ {m : Nat} {i : Instruction}, ms[m]? = some (i, true) → uses i.operation = true →
      (connectionOf ctx (keptOf (ms.take m)) ((i.renumber (ms.take m)).input 0) =
          connectionAt ctx ms c ↔ connectionOf ctx ((wholeOf ms).take m) (i.input 0) = c) := by
    intro m i hm hOp
    obtain ⟨hKept, hInput⟩ := input_keptOf hTyped h.keeps hm (hUses _ hOp)
    obtain ⟨-, hNames⟩ := (hTyped m i (getElem?_wholeOf hm)).input (hUses _ hOp)
    obtain ⟨b, hMark, hProvides⟩ := provides_of_names hTyped hNames
    obtain rfl := hMark.mp hKept.of_take
    rw [hInput, connectionOf_keptOf hTyped hKept]
    exact connectionAt_inj hProvides.kept hc.kept
  rw [Bool.eq_iff_iff, occurs_iff, occurs_take_iff]
  simp only [Bool.and_eq_true, beq_iff_eq]
  constructor
  · intro h
    obtain ⟨m', i', hm', hOp, hEq⟩ := h
    obtain ⟨m, i, hm, rfl, rfl⟩ := exists_of_getElem?_keptOf hm'
    rw [(getElem?_keptOf hm).2] at hEq
    obtain ⟨hLt, hm, hBefore⟩ := getElem?_of_take hm
    rw [hBefore] at hEq
    exact ⟨m, i, hLt, getElem?_wholeOf hm, hOp, (hUse hm hOp).mp hEq⟩
  · rintro ⟨m, i, hLt, hm, hOp, hEq⟩
    obtain ⟨b, hMark⟩ := exists_mark hm
    cases b with
    | false =>
      -- a dropped use is on a dropped connection
      obtain ⟨hInput, hNames⟩ := (hTyped m i hm).input (hUses _ hOp)
      obtain ⟨b, hKept, hProvides⟩ := provides_of_names hTyped hNames
      have hDropped := h.drops m i hMark _ (List.mem_of_getElem? hInput)
      rw [keptVar_take_iff hNames.lt, hKept, Bool.not_eq_true] at hDropped
      subst hDropped
      rw [hEq] at hProvides
      exact absurd hProvides (hc.apart h)
    | true =>
      have hTake : (ms.take n)[m]? = some (i, true) := by
        rw [List.getElem?_take_of_lt hLt, hMark]
      obtain ⟨hAt, hBefore⟩ := getElem?_keptOf hTake
      rw [(getElem?_of_take hTake).2.2] at hAt hBefore
      refine ⟨_, _, hAt, hOp, ?_⟩
      rw [hBefore]
      exact (hUse hMark hOp).mpr hEq

section Classified

variable (hTyped : WellTypedPrefix ctx (wholeOf ms)) (h : Separated ms) {c : Nat}
  (hc : Provides ctx ms true c) (n : Nat)

include hTyped h hc

theorem sentOn_keptOf : sentOn ctx (keptOf (ms.take n)) (connectionAt ctx ms c) =
    sentOn ctx ((wholeOf ms).take n) c := by
  have hOccurs := occurs_keptOf hTyped h hc n fun op hUses => usesConnection_input hUses
  simp only [← sendsOn_eq] at hOccurs
  exact hOccurs

theorem rawSentOn_keptOf : rawSentOn ctx (keptOf (ms.take n)) (connectionAt ctx ms c) =
    rawSentOn ctx ((wholeOf ms).take n) c := by
  have hUses : ∀ op : Operation, op.isRawFrame = true →
      op.getInputVariables[0]? = some .connection := by
    intro op hOp
    cases op <;> first | rfl | cases hOp
  have hOccurs := occurs_keptOf hTyped h hc n hUses
  simp only [← rawSendsOn_eq] at hOccurs
  exact hOccurs

theorem firstOn_keptOf : firstOn ctx (keptOf (ms.take n)) (connectionAt ctx ms c) =
    firstOn ctx ((wholeOf ms).take n) c := by
  simp only [firstOn, sentOn_keptOf hTyped h hc, le_connectionAt_iff]

/-- **A kept send is classified as in the whole program.** -/
theorem violationsOf_keptOf : violationsOf ctx (keptOf (ms.take n)) (connectionAt ctx ms c) =
    violationsOf ctx ((wholeOf ms).take n) c := by
  simp only [violationsOf, firstOn_keptOf hTyped h hc, rawSentOn_keptOf hTyped h hc]

end Classified

/-! ## Sessions, actions and exits -/

/-- A session that a kept send makes. -/
def KeptSession (ms : Marking) : Nat → Prop :=
  Kept (fun i => if i.operation.isSendSetup then 1 else 0) ms

/-- An action of a kept instruction. -/
def KeptAction (ms : Marking) : Nat → Prop := Kept (fun i => i.operation.numActions) ms

theorem keptSession_iff {i : Instruction} {b : Bool} (hn : ms[n]? = some (i, b))
    (hSend : i.operation.isSendSetup = true) :
    KeptSession ms (sends ((wholeOf ms).take n)) ↔ b = true :=
  kept_total_iff (fun op => if op.isSendSetup then 1 else 0) (k := 0) hn (by simp [hSend])

theorem keptAction_iff {i : Instruction} {b : Bool} (hn : ms[n]? = some (i, b)) {k : Nat}
    (hk : k < i.operation.numActions) :
    KeptAction ms (actionCount ((wholeOf ms).take n) + k) ↔ b = true :=
  kept_total_iff Operation.numActions hn hk

/-- The session of a kept attempt is that of a kept send. -/
theorem keptSession_of_names (ctx : ProgramContext) (hv : KeptVar (ms.take n) v)
    {protocol : Protocol} (h : Names ((wholeOf ms).take n) v (.setupAttempt protocol)) :
    KeptSession ms (sessionOf ctx ((wholeOf ms).take n) v) := by
  obtain ⟨d, j, hDef⟩ := exists_keptDefinition hv
  obtain ⟨d', j', hd', hj', -, hVar⟩ := h.definition
  obtain rfl := Option.some.inj (hDef.definition.symm.trans hd')
  obtain rfl := Option.some.inj (hDef.at_whole.symm.trans hj')
  have hOp : j.operation = .sendSetupConnection protocol := makes_of_output hVar
  have hSession : sessionOf ctx ((wholeOf ms).take n) v =
      sends ((wholeOf ms).take d.instruction) := by
    rw [sessionOf, (valueOf_eq ctx hd').2, Definition.value, hj', hDef.before_whole]
    simp [hOp, Instruction.result, Value.asAttempt]
  rw [hSession]
  exact (keptSession_iff hDef.marked (by rw [hOp]; rfl)).mpr rfl

/-- A block that is kept ends where a kept instruction does. -/
theorem Respects.keptAt_end (h : Respects ms) {s : List (Nat × BlockKind)}
    (hs : openStack (brackets (wholeOf ms)) = some s) {b e : Nat}
    (hMatch : Matches (brackets (wholeOf ms)) b e) (hb : KeptAt ms b) : KeptAt ms e := by
  induction h generalizing s with
  | nil => exact absurd hb.lt (Nat.not_lt_zero b)
  | @keep ms i _ ih =>
    rw [wholeOf_append, wholeOf_singleton, brackets_append] at hs hMatch
    obtain ⟨t, ht⟩ := openStack_of_append hs
    have heLt := hMatch.lt_length
    have hbe := hMatch.lt
    rw [← brackets_append, brackets_length, List.length_append, length_wholeOf,
      List.length_singleton] at heLt
    rcases Nat.lt_or_ge e ms.length with hLt | hGe
    · have hOld := hMatch.of_append (by rw [brackets_length, length_wholeOf]; exact hLt)
      exact (keptAt_append _ hLt).mpr (ih ht hOld ((keptAt_append _ (by omega)).mp hb))
    · obtain rfl : e = ms.length := by omega
      exact (keptAt_last ms i true).mpr rfl
  | @drop ms l _ hl ih =>
    rw [wholeOf_append, wholeOf_markAll, brackets_append] at hs hMatch
    obtain ⟨t, ht⟩ := openStack_of_append hs
    have hbLt : b < ms.length := by
      by_contra hGe
      obtain ⟨k, rfl⟩ := Nat.exists_eq_add_of_le (Nat.le_of_not_lt hGe)
      rw [KeptAt, ← length_units_one, kept_append_right] at hb
      exact not_kept_dropped l k hb
    rcases Nat.lt_or_ge e ms.length with hLt | hGe
    · have hOld := hMatch.of_append (by rw [brackets_length, length_wholeOf]; exact hLt)
      exact (keptAt_append _ hLt).mpr (ih ht hOld ((keptAt_append _ hbLt).mp hb))
    · -- a dropped part ends what it begins
      obtain ⟨k, rfl⟩ := Nat.exists_eq_add_of_le hGe
      have hLength : (brackets (wholeOf ms)).length = ms.length := by
        rw [brackets_length, length_wholeOf]
      rw [← hLength] at hMatch hbLt
      exact absurd hMatch (hl.not_matches hs hbLt)

/-- **The blocks of what is kept** are the kept blocks of the whole. -/
theorem matches_keptOf (h : Respects ms) {s : List (Nat × BlockKind)}
    (hs : openStack (brackets (wholeOf ms)) = some s) {b e : Nat}
    (hMatch : Matches (brackets (wholeOf ms)) b e) (hb : KeptAt ms b) :
    Matches (brackets (keptOf ms)) (positionAt ms b) (positionAt ms e) := by
  have he := h.keptAt_end hs hMatch hb
  obtain ⟨i, hi⟩ := keptAt_iff.mp he
  obtain ⟨hAt, hBefore⟩ := getElem?_keptOf hi
  obtain ⟨t, ht⟩ := openStack_take hs e
  obtain ⟨k, t', rfl, -, hClosing⟩ := hMatch.head ht
  rw [brackets, List.getElem?_map, getElem?_wholeOf hi] at hClosing
  rw [← brackets_take, ← wholeOf_take] at ht
  -- the begin is before the end, so the rest does not matter
  have hPosition : positionAt (ms.take e) b = positionAt ms b := by
    have hLt := hMatch.lt
    have heLt := he.lt
    exact positionAt_take (by rw [List.length_take]; omega)
  refine matches_of_head (k := k) (s := stackAt (ms.take e) t') ?_ ?_
  · rw [← brackets_take, hBefore, openStack_keptOf (h.take he), ht, ← hPosition]
    rfl
  · rw [brackets, List.getElem?_map, hAt]
    exact hClosing

/-- **A kept block ends in what is kept** at the action it ends at in the whole. -/
theorem exitOf_keptOf (h : Respects ms) (hBalanced : Balanced (brackets (wholeOf ms)))
    {i : Instruction} (hn : ms[n]? = some (i, true))
    (hBegin : i.operation.bracket = .opening .success) :
    exitOf (keptOf ms) (positionAt ms n) = actionAt ms (exitOf (wholeOf ms) n) ∧
      KeptAction ms (exitOf (wholeOf ms) n) := by
  have hs := balanced_iff_openStack.mp hBalanced
  have hOpening : (brackets (wholeOf ms))[n]? = some (.opening .success) := by
    rw [brackets, List.getElem?_map, getElem?_wholeOf hn, Option.map_some, hBegin]
  -- the block is kept with its end
  obtain ⟨e, hMatch⟩ := hBalanced.exists_matches hOpening
  have hb := keptAt_iff.mpr ⟨i, hn⟩
  have hs' : openStack (brackets (keptOf ms)) = some [] := by
    rw [openStack_keptOf h, hs]
    rfl
  obtain ⟨j, hj⟩ := keptAt_iff.mp (h.keptAt_end hs hMatch hb)
  obtain ⟨j', hExit, -⟩ := (blockActions hs (getElem?_wholeOf hn) hBegin hMatch).exit
  obtain rfl := Option.some.inj ((getElem?_wholeOf hj).symm.trans hExit.at_index)
  rw [exitOf, exitOf, (matching_eq_some_iff hs').mpr (matches_keptOf h hs hMatch hb),
    (matching_eq_some_iff hs).mpr hMatch]
  refine ⟨?_, (keptAction_iff hj hExit.lt).mpr rfl⟩
  show actionCount ((keptOf ms).take (positionAt ms e)) = _
  rw [(getElem?_keptOf hj).2, actionCount_keptOf_take]

/-! ## Actions -/

/-- An action with its connections, sessions and exits renumbered. -/
def Action.renumber (ctx : ProgramContext) (ms : Marking) : Action → Action
  | .connect c role => .connect (connectionAt ctx ms c) role
  | .send c extensionType messageType channelMsg payload =>
    .send (connectionAt ctx ms c) extensionType messageType channelMsg payload
  | .awaitSetupResponse c k protocol first =>
    .awaitSetupResponse (connectionAt ctx ms c) (sessionAt ms k) protocol first
  | .enterOnSetupSuccess k exit => .enterOnSetupSuccess (sessionAt ms k) (actionAt ms exit)
  | .exitBlock => .exitBlock
  | .advanceTime duration => .advanceTime duration
  | .probe => .probe

/-- The action names connections, sessions and exits of kept instructions only. -/
def Action.KeptIds (ctx : ProgramContext) (ms : Marking) : Action → Prop
  | .connect c _ | .send c _ _ _ _ => Provides ctx ms true c
  | .awaitSetupResponse c k _ _ => Provides ctx ms true c ∧ KeptSession ms k
  | .enterOnSetupSuccess k exit => KeptSession ms k ∧ KeptAction ms exit
  | .exitBlock | .advanceTime _ | .probe => True

/-- The connection a kept instruction uses is a kept one, renumbered. -/
theorem connection_keptOf (hTyped : WellTypedPrefix ctx (wholeOf ms)) (h : Separated ms)
    {i : Instruction} (hn : ms[n]? = some (i, true))
    (hVar : i.operation.getInputVariables[0]? = some .connection) :
    connectionOf ctx (keptOf (ms.take n)) ((i.renumber (ms.take n)).input 0) =
        connectionAt ctx ms (connectionOf ctx ((wholeOf ms).take n) (i.input 0)) ∧
      Provides ctx ms true (connectionOf ctx ((wholeOf ms).take n) (i.input 0)) := by
  obtain ⟨hKept, hInput⟩ := input_keptOf hTyped h.keeps hn hVar
  obtain ⟨-, hNames⟩ := (hTyped n i (getElem?_wholeOf hn)).input hVar
  obtain ⟨b, hMark, hProvides⟩ := provides_of_names hTyped hNames
  obtain rfl := hMark.mp hKept.of_take
  exact ⟨by rw [hInput, connectionOf_keptOf hTyped hKept], hProvides⟩

/-- **A kept instruction lowers to the same actions**, renumbered, and names
nothing that is dropped. -/
theorem lower_keptOf (hTyped : WellTypedPrefix ctx (wholeOf ms)) (h : Separated ms)
    {i : Instruction} (hn : ms[n]? = some (i, true)) {exit exit' : Nat}
    (hExit : i.operation.bracket = .opening .success → exit' = actionAt ms exit ∧
      KeptAction ms exit) :
    lower S ctx (keptOf (ms.take n)) exit' (i.renumber (ms.take n)) =
        (lower S ctx ((wholeOf ms).take n) exit i).map (Action.renumber ctx ms) ∧
      ∀ a ∈ lower S ctx ((wholeOf ms).take n) exit i, a.KeptIds ctx ms := by
  have hLe := Nat.le_of_lt (List.getElem?_eq_some_iff.mp hn).1
  -- what a kept instruction reads is kept, and renumbered the same way
  have hInput : ∀ {k : Nat} {var : Variable}, i.operation.getInputVariables[k]? = some var →
      KeptVar (ms.take n) (i.input k) ∧
        (i.renumber (ms.take n)).input k = varAt ms (i.input k) ∧
        Names ((wholeOf ms).take n) (i.input k) var := fun hk =>
    ⟨(input_keptOf hTyped h.keeps hn hk).1, (input_keptOf hTyped h.keeps hn hk).2,
      ((hTyped n i (getElem?_wholeOf hn)).input hk).2⟩
  have hConnection := connection_keptOf hTyped h hn
  unfold lower
  rw [renumber_operation]
  cases hOp : i.operation with
  | connect =>
    rw [hOp] at hInput
    obtain ⟨hKept, hEq, -⟩ := hInput (k := 0) rfl
    refine ⟨?_, ?_⟩
    · simp only [roleOf, hEq, constants_keptOf hTyped hKept, asRole_renumber,
        connects_keptOf_take, List.map_cons, List.map_nil, Action.renumber]
    · exact List.forall_mem_singleton.mpr ⟨n, i, hn, Or.inr ⟨hOp, rfl⟩⟩
  | sendSetupConnection protocol =>
    rw [hOp] at hInput hConnection
    obtain ⟨hSame, hProvides⟩ := hConnection rfl
    obtain ⟨hKept, hEq, -⟩ := hInput (k := 1) rfl
    refine ⟨?_, ?_⟩
    · simp only [hSame, hEq, setupSpec_keptOf hTyped h hKept hLe, sends_keptOf_take,
        firstOn_keptOf hTyped h hProvides, List.map_cons, List.map_nil, Action.renumber]
    · simp only [List.forall_mem_cons, List.not_mem_nil, false_implies, implies_true, and_true,
        Action.KeptIds]
      exact ⟨hProvides, hProvides, (keptSession_iff hn (by rw [hOp]; rfl)).mpr rfl⟩
  | beginOnSetupSuccess protocol =>
    rw [hOp] at hInput hExit
    obtain ⟨hKept, hEq, hNames⟩ := hInput (k := 0) rfl
    obtain ⟨rfl, hKeptExit⟩ := hExit rfl
    refine ⟨?_, ?_⟩
    · simp only [hEq, sessionOf_keptOf hTyped h hKept hLe, List.map_cons, List.map_nil,
        Action.renumber]
    · exact List.forall_mem_singleton.mpr ⟨keptSession_of_names ctx hKept hNames, hKeptExit⟩
  | sendRawFrame messageType extensionType =>
    rw [hOp] at hInput hConnection
    obtain ⟨hSame, hProvides⟩ := hConnection rfl
    obtain ⟨hKept, hEq, -⟩ := hInput (k := 1) rfl
    refine ⟨?_, ?_⟩
    · simp only [bytesOf, hSame, hEq, constants_keptOf hTyped hKept, asBytes_renumber,
        List.map_cons, List.map_nil, Action.renumber]
    · exact List.forall_mem_singleton.mpr hProvides
  | advanceTime =>
    rw [hOp] at hInput
    obtain ⟨hKept, hEq, -⟩ := hInput (k := 0) rfl
    refine ⟨?_, ?_⟩
    · simp only [durationOf, hEq, constants_keptOf hTyped hKept, asDuration_renumber,
        List.map_cons, List.map_nil, Action.renumber]
    · simp [Action.KeptIds]
  -- the rest names no connection, session or block
  | endOnSetupSuccess => exact ⟨rfl, by simp [Action.KeptIds]⟩
  | probe => exact ⟨rfl, by simp [Action.KeptIds]⟩
  | _ => exact ⟨rfl, by simp⟩

end Stratamoto
