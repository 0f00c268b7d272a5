import Stratamoto.IR.Thinning

/-!
# Stratamoto — the values of a program and of what is kept of it

Dropping instructions renumbers what a program counts by its instructions: its
variables, connections, sessions and actions. Where kept and dropped
instructions have nothing to do with one another (`Separated`), that is all it
does to the values of the kept variables:

* `constants_keptOf`, `connectionOf_keptOf` — what is loaded, and connections;
* `messageSpec_keptOf` — messages, at any point of their construction;
* `valueOf_keptOf`, `setupSpec_keptOf`, `sessionOf_keptOf` — values as a whole.

A point of the program is a number of entries of the marking: what stands before
it is `(wholeOf ms).take n` in the whole, and `keptOf (ms.take n)` in what is kept.
-/

namespace Stratamoto

open Brackets Operation Marks

/-! ## Counting -/

/-- The number of something counted by the instructions, among what kept ones count. -/
def totalAt (weight : Operation → Nat) (ms : Marking) : Nat → Nat :=
  Marks.renumber (fun i => weight i.operation) ms

/-- A connection of the context stays, and those the program opens are renumbered. -/
def connectionAt (ctx : ProgramContext) (ms : Marking) (c : Nat) : Nat :=
  if c < ctx.numConnections then c
  else ctx.numConnections +
    totalAt (fun op => if op = .connect then 1 else 0) ms (c - ctx.numConnections)

def sessionAt (ms : Marking) : Nat → Nat :=
  totalAt (fun op => if op.isSendSetup then 1 else 0) ms

def actionAt (ms : Marking) : Nat → Nat := totalAt Operation.numActions ms

def Value.renumber (ctx : ProgramContext) (ms : Marking) : Value → Value
  | .connection c => .connection (connectionAt ctx ms c)
  | .setupAttempt k c => .setupAttempt (sessionAt ms k) (connectionAt ctx ms c)
  | x => x

theorem total_keptOf (weight : Operation → Nat) (ms : Marking) :
    total weight (keptOf ms) = keptCount (fun i => weight i.operation) ms := by
  induction ms using List.reverseRecOn with
  | nil => rfl
  | append_singleton ms p ih =>
    obtain ⟨i, b⟩ := p
    rw [keptCount_append, keptCount_singleton]
    cases b with
    | true => rw [keptOf_snoc, total_snoc, ih]; rfl
    | false => rw [keptOf_snoc_dropped, ih]; rfl

theorem length_units_total (weight : Operation → Nat) (ms : Marking) :
    (units (fun i : Instruction => weight i.operation) ms).length = total weight (wholeOf ms) := by
  rw [length_units, total, wholeOf, List.map_map]
  rfl

/-- What is counted before a point is renumbered. -/
theorem total_keptOf_take (weight : Operation → Nat) (ms : Marking) (n : Nat) :
    total weight (keptOf (ms.take n)) = totalAt weight ms (total weight ((wholeOf ms).take n)) := by
  rw [total_keptOf, ← renumber_take, length_units_total, wholeOf_take]
  rfl

/-- What an instruction counts for is kept with it. -/
theorem kept_total_iff (weight : Operation → Nat) {ms : Marking} {n k : Nat} {i : Instruction}
    {b : Bool} (hn : ms[n]? = some (i, b)) (hk : k < weight i.operation) :
    Kept (fun i => weight i.operation) ms (total weight ((wholeOf ms).take n) + k) ↔ b = true := by
  rw [← wholeOf_take, ← length_units_total]
  exact kept_take_iff hn hk

theorem totalAt_add (weight : Operation → Nat) {ms : Marking} {n k : Nat} {i : Instruction}
    (hn : ms[n]? = some (i, true)) (hk : k ≤ weight i.operation) :
    totalAt weight ms (total weight ((wholeOf ms).take n) + k) =
      total weight (keptOf (ms.take n)) + k := by
  rw [← wholeOf_take, ← length_units_total, total_keptOf]
  exact renumber_take_add hn hk

theorem connectionAt_of_lt {ctx : ProgramContext} (ms : Marking) {c : Nat}
    (h : c < ctx.numConnections) : connectionAt ctx ms c = c := if_pos h

theorem connectionAt_add (ctx : ProgramContext) (ms : Marking) (k : Nat) :
    connectionAt ctx ms (ctx.numConnections + k) = ctx.numConnections +
      totalAt (fun op => if op = .connect then 1 else 0) ms k := by
  rw [connectionAt, if_neg (by omega), Nat.add_sub_cancel_left]

theorem sessionAt_zero (ms : Marking) : sessionAt ms 0 = 0 := by
  rw [sessionAt, totalAt, renumber_zero]

theorem connectionAt_zero (ctx : ProgramContext) (ms : Marking) : connectionAt ctx ms 0 = 0 := by
  unfold connectionAt
  split
  · rfl
  · rw [Nat.zero_sub, totalAt, renumber_zero]
    omega

/-- The connections opened before a point. -/
theorem connects_keptOf_take (ctx : ProgramContext) (ms : Marking) (n : Nat) :
    ctx.numConnections + connects (keptOf (ms.take n)) =
      connectionAt ctx ms (ctx.numConnections + connects ((wholeOf ms).take n)) := by
  rw [connectionAt_add, connects, total_keptOf_take]

theorem sends_keptOf_take (ms : Marking) (n : Nat) :
    sends (keptOf (ms.take n)) = sessionAt ms (sends ((wholeOf ms).take n)) :=
  total_keptOf_take _ ms n

theorem actionCount_keptOf_take (ms : Marking) (n : Nat) :
    actionCount (keptOf (ms.take n)) = actionAt ms (actionCount ((wholeOf ms).take n)) :=
  total_keptOf_take _ ms n

/-! ## Renumbered values -/

section Renumber

variable (ctx : ProgramContext) (ms : Marking) (x : Value)

@[simp] theorem asRole_renumber : (x.renumber ctx ms).asRole = x.asRole := by cases x <;> rfl

@[simp] theorem asVersion_renumber : (x.renumber ctx ms).asVersion = x.asVersion := by
  cases x <;> rfl

@[simp] theorem asFlags_renumber : (x.renumber ctx ms).asFlags = x.asFlags := by cases x <;> rfl

@[simp] theorem asPort_renumber : (x.renumber ctx ms).asPort = x.asPort := by cases x <;> rfl

@[simp] theorem asStr_renumber : (x.renumber ctx ms).asStr = x.asStr := by cases x <;> rfl

@[simp] theorem asBytes_renumber : (x.renumber ctx ms).asBytes = x.asBytes := by cases x <;> rfl

@[simp] theorem asDuration_renumber : (x.renumber ctx ms).asDuration = x.asDuration := by
  cases x <;> rfl

@[simp] theorem asSetup_renumber : (x.renumber ctx ms).asSetup = x.asSetup := by cases x <;> rfl

@[simp] theorem asConnection_renumber :
    (x.renumber ctx ms).asConnection = x.asConnection.map (connectionAt ctx ms) := by
  cases x <;> rfl

@[simp] theorem asAttempt_renumber : (x.renumber ctx ms).asAttempt =
    x.asAttempt.map fun p => (sessionAt ms p.1, connectionAt ctx ms p.2) := by
  cases x <;> rfl

end Renumber

/-! ## Separated parts -/

/-- Kept and dropped instructions have nothing to do with one another: the
dropped parts are balanced, neither reads the other's variables, and no
connection is loaded by both. -/
structure Separated (ms : Marking) : Prop where
  respects : Respects ms
  keeps : KeepsInputs ms
  drops : ∀ (n : Nat) (i : Instruction), ms[n]? = some (i, false) →
    ∀ v ∈ i.inputs, ¬ KeptVar (ms.take n) v
  loads : ∀ (n n' c : Nat) (i i' : Instruction), ms[n]? = some (i, true) →
    ms[n']? = some (i', false) → i.operation = .loadConnection c →
    i'.operation ≠ .loadConnection c

/-- The definition of a variable that is kept before a point, and the
instruction it belongs to, in the whole and in what is kept. -/
structure KeptDefinition (ms : Marking) (n v : Nat) (d : Definition) (j : Instruction) : Prop where
  definition : (definitions ((wholeOf ms).take n))[v]? = some d
  lt : d.instruction < n
  marked : ms[d.instruction]? = some (j, true)
  definition_kept : (definitions (keptOf (ms.take n)))[varAt ms v]? = some (d.renumber ms)
  at_whole : ((wholeOf ms).take n)[d.instruction]? = some j
  before_whole : ((wholeOf ms).take n).take d.instruction = (wholeOf ms).take d.instruction
  at_kept : (keptOf (ms.take n))[positionAt ms d.instruction]? =
    some (j.renumber (ms.take d.instruction))
  before_kept : (keptOf (ms.take n)).take (positionAt ms d.instruction) =
    keptOf (ms.take d.instruction)

section Values

variable {ctx : ProgramContext} {ms : Marking} {n v : Nat}

theorem exists_keptDefinition (hv : KeptVar (ms.take n) v) :
    ∃ d j, KeptDefinition ms n v d j := by
  have hLt := hv.lt
  obtain ⟨d, hd⟩ : ∃ d, (definitions (wholeOf (ms.take n)))[v]? = some d :=
    ⟨_, List.getElem?_eq_getElem hLt⟩
  obtain ⟨hIff, hKept⟩ := definition_keptOf hd
  obtain ⟨j, hj⟩ := keptAt_iff.mp (hIff.mp hv)
  have hPosition := positionAt_take (Nat.le_of_lt (List.getElem?_eq_some_iff.mp hj).1)
  obtain ⟨hn, hMark, hTake⟩ := getElem?_of_take hj
  obtain ⟨hAt, hBefore⟩ := getElem?_keptOf hj
  rw [hPosition, hTake] at hAt hBefore
  -- the definition before and after, in what stands before it
  refine ⟨d, j, by rw [← wholeOf_take, hd], hn, hMark, ?_, ?_, ?_, hAt, hBefore⟩
  · rw [← varAt_take (Nat.le_of_lt hLt), hKept hv, Definition.renumber, hPosition]
    rfl
  · rw [← wholeOf_take]
    exact getElem?_wholeOf hj
  · rw [List.take_take, Nat.min_eq_left (Nat.le_of_lt hn)]

/-! ## Loads and connections -/

theorem loaded_keptOf {op : Operation} (hContext : ∀ c, op = .loadConnection c →
    c < ctx.numConnections) (n : Nat) :
    loaded ctx (keptOf (ms.take n)) op =
      (loaded ctx ((wholeOf ms).take n) op).renumber ctx ms := by
  cases hOp : op with
  | loadConnection c => simp only [loaded, Value.renumber, connectionAt_of_lt ms (hContext c hOp)]
  | connect => simp only [loaded, Value.renumber, connects_keptOf_take]
  | _ => rfl

/-- **A kept variable is given what it is given in the whole program.** -/
theorem constants_keptOf (hTyped : WellTypedPrefix ctx (wholeOf ms)) (hv : KeptVar (ms.take n) v) :
    constants ctx (keptOf (ms.take n)) (varAt ms v) =
      (constants ctx ((wholeOf ms).take n) v).renumber ctx ms := by
  obtain ⟨d, j, h⟩ := exists_keptDefinition hv
  have hContext := (hTyped _ j (getElem?_wholeOf h.marked)).connection
  have hAt : (d.renumber ms).instruction = positionAt ms d.instruction := rfl
  simp only [constants, h.definition, h.definition_kept, hAt, h.at_kept, h.at_whole,
    h.before_kept, h.before_whole]
  exact loaded_keptOf hContext _

theorem connectionOf_keptOf (hTyped : WellTypedPrefix ctx (wholeOf ms))
    (hv : KeptVar (ms.take n) v) :
    connectionOf ctx (keptOf (ms.take n)) (varAt ms v) =
      connectionAt ctx ms (connectionOf ctx ((wholeOf ms).take n) v) := by
  rw [connectionOf, connectionOf, constants_keptOf hTyped hv, asConnection_renumber]
  cases (constants ctx ((wholeOf ms).take n) v).asConnection with
  | none => exact (connectionAt_zero ctx ms).symm
  | some c => rfl

/-! ## Messages -/

/-- A kept instruction reads kept variables, renumbered. -/
theorem input_keptOf (hTyped : WellTypedPrefix ctx (wholeOf ms)) (hKeeps : KeepsInputs ms)
    {i : Instruction} (hn : ms[n]? = some (i, true)) {k : Nat} {var : Variable}
    (hk : i.operation.getInputVariables[k]? = some var) :
    KeptVar (ms.take n) (i.input k) ∧
      (i.renumber (ms.take n)).input k = varAt ms (i.input k) := by
  obtain ⟨hInput, -⟩ := (hTyped n i (getElem?_wholeOf hn)).input hk
  have hKept := hKeeps n i hn _ (List.mem_of_getElem? hInput)
  refine ⟨hKept, ?_⟩
  rw [renumber_input (List.getElem?_eq_some_iff.mp hInput).1, varAt_take (Nat.le_of_lt hKept.lt)]

/-- The variables kept before a point are those of the whole that are kept. -/
theorem KeptVar.of_take (h : KeptVar (ms.take n) v) : KeptVar ms v := by
  rw [← List.take_append_drop n ms]
  exact Kept.append h _

theorem keptVar_take_iff (hv : v < (definitions ((wholeOf ms).take n)).length) :
    KeptVar (ms.take n) v ↔ KeptVar ms v := by
  have hAppend : KeptVar (ms.take n ++ ms.drop n) v ↔ KeptVar (ms.take n) v :=
    keptVar_append _ (by rwa [wholeOf_take])
  rw [List.take_append_drop] at hAppend
  exact hAppend.symm

theorem edit_keptOf (hTyped : WellTypedPrefix ctx (wholeOf ms)) (hKeeps : KeepsInputs ms)
    {i : Instruction} (hn : ms[n]? = some (i, true)) (spec : SetupConnectionSpec) :
    (i.renumber (ms.take n)).edit ctx (keptOf (ms.take n)) spec =
      i.edit ctx ((wholeOf ms).take n) spec := by
  -- a field is set to what the whole program sets it to
  have hRead : ∀ {k : Nat} {var : Variable}, i.operation.getInputVariables[k]? = some var →
      constants ctx (keptOf (ms.take n)) ((i.renumber (ms.take n)).input k) =
        (constants ctx ((wholeOf ms).take n) (i.input k)).renumber ctx ms := by
    intro k var hk
    obtain ⟨hKept, hInput⟩ := input_keptOf hTyped hKeeps hn hk
    rw [hInput, constants_keptOf hTyped hKept]
  unfold Instruction.edit
  rw [renumber_operation]
  cases hOp : i.operation with
  | setVersions =>
    rw [hOp] at hRead
    simp only [versionOf, hRead (k := 1) rfl, hRead (k := 2) rfl, asVersion_renumber]
  | setFlags =>
    rw [hOp] at hRead
    simp only [flagsOf, hRead (k := 1) rfl, asFlags_renumber]
  | setEndpoint =>
    rw [hOp] at hRead
    simp only [strOf, portOf, hRead (k := 1) rfl, hRead (k := 2) rfl, asStr_renumber,
      asPort_renumber]
  | setDeviceInfo =>
    rw [hOp] at hRead
    simp only [strOf, hRead (k := 1) rfl, hRead (k := 2) rfl, hRead (k := 3) rfl,
      hRead (k := 4) rfl, asStr_renumber]
  | _ => rfl

/-- A message is edited by the instructions that edit it in the whole. -/
theorem edits_keptOf (hTyped : WellTypedPrefix ctx (wholeOf ms)) (hKeeps : KeepsInputs ms)
    {i : Instruction} (hn : ms[n]? = some (i, true)) (hv : KeptVar ms v) :
    (i.renumber (ms.take n)).edits (varAt ms v) = i.edits v := by
  unfold Instruction.edits
  rw [renumber_operation]
  cases hEdit : i.operation.isEdit with
  | false => rfl
  | true =>
    obtain ⟨hKept, hInput⟩ := input_keptOf hTyped hKeeps hn (isEdit_input hEdit)
    rw [hInput, Bool.true_and, Bool.true_and, Bool.eq_iff_iff, beq_iff_eq, beq_iff_eq]
    exact renumber_inj hKept.of_take hv

theorem take_succ_marked {i : Instruction} {b : Bool} (hn : ms[n]? = some (i, b)) :
    ms.take (n + 1) = ms.take n ++ [(i, b)] ∧
      (wholeOf ms).take (n + 1) = (wholeOf ms).take n ++ [i] := by
  rw [List.take_add_one, List.take_add_one, hn, getElem?_wholeOf hn]
  exact ⟨rfl, rfl⟩

/-- **A kept message is built as in the whole program**, at every point. -/
theorem messageSpec_keptOf (hTyped : WellTypedPrefix ctx (wholeOf ms)) (h : Separated ms)
    (hv : KeptVar ms v) (hn : n ≤ ms.length) :
    messageSpec ctx (keptOf (ms.take n)) (varAt ms v) =
      messageSpec ctx ((wholeOf ms).take n) v := by
  induction n with
  | zero => rfl
  | succ n ih =>
    have hOld := ih (by omega)
    obtain ⟨⟨i, b⟩, hi⟩ : ∃ p, ms[n]? = some p := ⟨_, List.getElem?_eq_getElem (by omega)⟩
    obtain ⟨hTake, hWhole⟩ := take_succ_marked hi
    rw [hTake, hWhole, messageSpec_snoc]
    cases b with
    | true =>
      rw [keptOf_snoc, messageSpec_snoc, edits_keptOf hTyped h.keeps hi hv, hOld,
        edit_keptOf hTyped h.keeps hi]
    | false =>
      -- a dropped instruction edits no kept message
      have hNot : i.edits v = false := by
        rw [Instruction.edits, Bool.and_eq_false_iff, beq_eq_false_iff_ne]
        by_contra hEdits
        obtain ⟨hEdit, hSame⟩ := not_or.mp hEdits
        have hAfter := hTyped n i (getElem?_wholeOf hi)
        obtain ⟨hInput, hNames⟩ := hAfter.input (isEdit_input (by simpa using hEdit))
        have hDropped := h.drops n i hi _ (List.mem_of_getElem? hInput)
        rw [keptVar_take_iff hNames.lt, not_not.mp hSame] at hDropped
        exact hDropped hv
      rw [keptOf_snoc_dropped, hOld, hNot]
      rfl

/-! ## Values -/

theorem result_keptOf (hTyped : WellTypedPrefix ctx (wholeOf ms)) (h : Separated ms)
    {i : Instruction} (hn : ms[n]? = some (i, true)) :
    (i.renumber (ms.take n)).result ctx (keptOf (ms.take n)) =
      (i.result ctx ((wholeOf ms).take n)).renumber ctx ms := by
  have hLt := (List.getElem?_eq_some_iff.mp hn).1
  have hInput : ∀ {k : Nat} {var : Variable}, i.operation.getInputVariables[k]? = some var →
      KeptVar (ms.take n) (i.input k) ∧
        (i.renumber (ms.take n)).input k = varAt ms (i.input k) :=
    fun hk => input_keptOf hTyped h.keeps hn hk
  have hLoaded : loaded ctx (keptOf (ms.take n)) i.operation =
      (loaded ctx ((wholeOf ms).take n) i.operation).renumber ctx ms :=
    loaded_keptOf (hTyped n i (getElem?_wholeOf hn)).connection n
  unfold Instruction.result
  rw [renumber_operation]
  -- only the end of a message and a send have a result that is not loaded
  cases hOp : i.operation with
  | beginBuildSetupConnection => rfl
  | endBuildSetupConnection protocol =>
    rw [hOp] at hInput
    obtain ⟨hKept, hEq⟩ := hInput (k := 0) rfl
    simp only [hEq, messageSpec_keptOf hTyped h hKept.of_take (Nat.le_of_lt hLt), Value.renumber]
  | sendSetupConnection protocol =>
    rw [hOp] at hInput
    obtain ⟨hKept, hEq⟩ := hInput (k := 0) rfl
    simp only [hEq, connectionOf_keptOf hTyped hKept, sends_keptOf_take, Value.renumber]
  | beginOnSetupSuccess protocol => rfl
  | _ =>
    rw [hOp] at hLoaded
    exact hLoaded

/-- **The value of a kept variable** is the one it has in the whole program. -/
theorem valueOf_keptOf (hTyped : WellTypedPrefix ctx (wholeOf ms)) (h : Separated ms)
    (hv : KeptVar (ms.take n) v) (hn : n ≤ ms.length) :
    valueOf ctx (keptOf (ms.take n)) (varAt ms v) =
      (valueOf ctx ((wholeOf ms).take n) v).renumber ctx ms := by
  obtain ⟨d, j, hDef⟩ := exists_keptDefinition hv
  rw [(valueOf_eq ctx hDef.definition_kept).2, (valueOf_eq ctx hDef.definition).2]
  have hAt : (d.renumber ms).instruction = positionAt ms d.instruction := rfl
  simp only [Definition.value, hAt, hDef.at_kept, hDef.at_whole, renumber_operation,
    hDef.before_kept, hDef.before_whole]
  split
  · rw [messageSpec_keptOf hTyped h hv.of_take hn]
    rfl
  · exact result_keptOf hTyped h hDef.marked

theorem setupSpec_keptOf (hTyped : WellTypedPrefix ctx (wholeOf ms)) (h : Separated ms)
    (hv : KeptVar (ms.take n) v) (hn : n ≤ ms.length) :
    setupSpec ctx (keptOf (ms.take n)) (varAt ms v) = setupSpec ctx ((wholeOf ms).take n) v := by
  rw [setupSpec, setupSpec, valueOf_keptOf hTyped h hv hn, asSetup_renumber]

theorem sessionOf_keptOf (hTyped : WellTypedPrefix ctx (wholeOf ms)) (h : Separated ms)
    (hv : KeptVar (ms.take n) v) (hn : n ≤ ms.length) :
    sessionOf ctx (keptOf (ms.take n)) (varAt ms v) =
      sessionAt ms (sessionOf ctx ((wholeOf ms).take n) v) := by
  rw [sessionOf, sessionOf, valueOf_keptOf hTyped h hv hn, asAttempt_renumber]
  cases (valueOf ctx ((wholeOf ms).take n) v).asAttempt with
  | none => exact (sessionAt_zero ms).symm
  | some p => rfl

end Values

end Stratamoto
