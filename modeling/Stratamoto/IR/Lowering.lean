import Mathlib.Algebra.GroupWithZero.Nat
import Stratamoto.IR.Compiler
import Stratamoto.IR.Typing

/-!
# Stratamoto — what a program lowers to

The compiled program, read off the instructions without running the compiler.
Everything an instruction contributes depends on the instructions before it
only, with one exception each: a message under construction has the value its
later edits give it, and an enter action names the exit its block gets later.

* `constants ctx is v` — the value a load or a connect gives variable `v`;
* `messageSpec ctx is m` — the message `m` as the edits in `is` leave it;
* `valueOf ctx is v` — the value of variable `v` after the instructions `is`;
* `lower S ctx before exit i` — the actions of the instruction `i` after `before`;
* `actionsOf S ctx is` — the actions of a program;
* `sentOn`, `rawSentOn` — the connections a program puts frames on.
-/

namespace Stratamoto

open Brackets Operation

/-- Some instruction satisfies `Q`, with those before it. -/
def occurs (is : List Instruction) (Q : List Instruction → Instruction → Bool) : Bool :=
  is.zipIdx.any fun p => Q (is.take p.2) p.1

/-! ## Counting -/

def Operation.isSendSetup : Operation → Bool
  | .sendSetupConnection _ => true
  | _ => false

theorem isSendSetup_iff {op : Operation} :
    op.isSendSetup = true ↔ ∃ protocol, op = .sendSetupConnection protocol := by
  cases op <;> simp [isSendSetup]

/-- The operations that edit a message under construction. -/
def Operation.isEdit : Operation → Bool
  | .setVersions | .setFlags | .setEndpoint | .setDeviceInfo => true
  | _ => false

/-- Actions an operation lowers to. -/
def Operation.numActions : Operation → Nat
  | .connect | .beginOnSetupSuccess _ | .endOnSetupSuccess | .sendRawFrame _ _ | .advanceTime
  | .probe => 1
  | .sendSetupConnection _ => 2
  | .nop _ _ | .loadRole _ | .loadConnection _ | .loadVersion _ | .loadFlags _ | .loadPort _
  | .loadStr _ | .loadBytes _ | .loadDuration _ | .beginBuildSetupConnection | .setVersions
  | .setFlags | .setEndpoint | .setDeviceInfo | .endBuildSetupConnection _ => 0

def total (weight : Operation → Nat) (is : List Instruction) : Nat :=
  (is.map fun i => weight i.operation).sum

def connects : List Instruction → Nat := total fun op => if op = .connect then 1 else 0

def sends : List Instruction → Nat := total fun op => if op.isSendSetup then 1 else 0

def actionCount : List Instruction → Nat := total Operation.numActions

/-- The `k`-th input. -/
def Instruction.input (i : Instruction) (k : Nat) : Nat := i.inputs.getD k 0

/-! ## Values -/

section Values

variable (ctx : ProgramContext)

/-- The value of a variable that no message and no attempt is. -/
def loaded (before : List Instruction) : Operation → Value
  | .loadRole i => .role i
  | .loadConnection i => .connection i
  | .loadVersion v => .version v
  | .loadFlags v => .flags v
  | .loadPort v => .port v
  | .loadStr v => .str v
  | .loadBytes v => .bytes v
  | .loadDuration v => .duration v
  | .connect => .connection (ctx.numConnections + connects before)
  | .nop _ _ | .beginBuildSetupConnection | .setVersions | .setFlags | .setEndpoint
  | .setDeviceInfo | .endBuildSetupConnection _ | .sendSetupConnection _ | .beginOnSetupSuccess _
  | .endOnSetupSuccess | .sendRawFrame _ _ | .advanceTime | .probe => .nop

def constants (is : List Instruction) (v : Nat) : Value :=
  match (definitions is)[v]? with
  | none => .nop
  | some d =>
    match is[d.instruction]? with
    | none => .nop
    | some i => loaded ctx (is.take d.instruction) i.operation

def roleOf (is : List Instruction) (v : Nat) : Nat :=
  (constants ctx is v).asRole.getD 0

def connectionOf (is : List Instruction) (v : Nat) : Nat :=
  (constants ctx is v).asConnection.getD 0

def versionOf (is : List Instruction) (v : Nat) : UInt16 :=
  (constants ctx is v).asVersion.getD 0

def flagsOf (is : List Instruction) (v : Nat) : UInt32 :=
  (constants ctx is v).asFlags.getD 0

def portOf (is : List Instruction) (v : Nat) : UInt16 :=
  (constants ctx is v).asPort.getD 0

def strOf (is : List Instruction) (v : Nat) : String :=
  (constants ctx is v).asStr.getD ""

def bytesOf (is : List Instruction) (v : Nat) : List UInt8 :=
  (constants ctx is v).asBytes.getD []

def durationOf (is : List Instruction) (v : Nat) : Nat :=
  (constants ctx is v).asDuration.getD 0

/-- What an edit does to the message it edits. -/
def Instruction.edit (before : List Instruction) (i : Instruction) (spec : SetupConnectionSpec) :
    SetupConnectionSpec :=
  match i.operation with
  | .setVersions =>
    { spec with
      minVersion := versionOf ctx before (i.input 1)
      maxVersion := versionOf ctx before (i.input 2) }
  | .setFlags => { spec with flags := flagsOf ctx before (i.input 1) }
  | .setEndpoint =>
    { spec with
      endpointHost := strOf ctx before (i.input 1)
      endpointPort := portOf ctx before (i.input 2) }
  | .setDeviceInfo =>
    { spec with
      vendor := strOf ctx before (i.input 1)
      hardwareVersion := strOf ctx before (i.input 2)
      firmware := strOf ctx before (i.input 3)
      deviceId := strOf ctx before (i.input 4) }
  | _ => spec

/-- The instruction edits the message `m`. -/
def Instruction.edits (i : Instruction) (m : Nat) : Bool :=
  i.operation.isEdit && i.input 0 == m

/-- The message `m` as the edits among `is` leave it. -/
def messageSpec (is : List Instruction) (m : Nat) : SetupConnectionSpec :=
  is.zipIdx.foldl (fun spec p =>
    if p.1.edits m then p.1.edit ctx (is.take p.2) spec else spec) {}

/-- The value the instruction gives the variables it defines. -/
def Instruction.result (before : List Instruction) (i : Instruction) : Value :=
  match i.operation with
  | .beginBuildSetupConnection => .setupConnection {}
  | .endBuildSetupConnection protocol =>
    .setupConnection { messageSpec ctx before (i.input 0) with protocol }
  | .sendSetupConnection _ =>
    .setupAttempt (sends before) (connectionOf ctx before (i.input 0))
  | .beginOnSetupSuccess _ => .session
  | op => loaded ctx before op

/-- The value of the variable `v` defined by `d`, after the instructions `is`. -/
def Definition.value (is : List Instruction) (v : Nat) (d : Definition) : Value :=
  match is[d.instruction]? with
  | none => .nop
  | some i =>
    if i.operation = .beginBuildSetupConnection then .setupConnection (messageSpec ctx is v)
    else i.result ctx (is.take d.instruction)

/-- The values of a program's variables, in index order. -/
def valuesOf (is : List Instruction) : List Value :=
  (definitions is).mapIdx (Definition.value ctx is)

def valueOf (is : List Instruction) (v : Nat) : Value := (valuesOf ctx is).getD v .nop

/-- The setup the variable `v` holds. -/
def setupSpec (is : List Instruction) (v : Nat) : SetupConnectionSpec :=
  (valueOf ctx is v).asSetup.getD {}

/-- The session of the attempt the variable `v` holds. -/
def sessionOf (is : List Instruction) (v : Nat) : Nat :=
  ((valueOf ctx is v).asAttempt.map Prod.fst).getD 0

end Values

/-! ## Actions -/

section Actions

variable (S : Sv2) (ctx : ProgramContext)

/-- The instruction puts a frame on the connection. -/
def Instruction.sendsOn (connection : Nat) (before : List Instruction)
    (i : Instruction) : Bool :=
  match i.operation with
  | .sendSetupConnection _ | .sendRawFrame _ _ =>
    connectionOf ctx before (i.input 0) == connection
  | _ => false

/-- The instruction puts a frame of the program's own choosing on the connection. -/
def Instruction.rawSendsOn (connection : Nat) (before : List Instruction)
    (i : Instruction) : Bool :=
  match i.operation with
  | .sendRawFrame _ _ => connectionOf ctx before (i.input 0) == connection
  | _ => false

def sentOn (is : List Instruction) (connection : Nat) : Bool :=
  occurs is (Instruction.sendsOn ctx connection)

def rawSentOn (is : List Instruction) (connection : Nat) : Bool :=
  occurs is (Instruction.rawSendsOn ctx connection)

/-- A message sent after `before` is the first on its connection. -/
def firstOn (before : List Instruction) (connection : Nat) : Bool :=
  decide (ctx.numConnections ≤ connection) && !sentOn ctx before connection

def violationsOf (before : List Instruction) (connection : Nat) :
    List ClientViolation :=
  (if firstOn ctx before connection then [] else [.setupNotFirst]) ++
    (if rawSentOn ctx before connection then [.rawFrameBefore] else [])

/-- The frame a setup is encoded to, where it can be encoded. -/
def payloadOf (spec : SetupConnectionSpec) : List UInt8 :=
  match encodeSetupConnection S spec 0 with
  | .ok payload => payload
  | .error _ => []

/-- The actions of an instruction; `exit` is where the block it begins ends. -/
def lower (before : List Instruction) (exit : Nat) (i : Instruction) : List Action :=
  match i.operation with
  | .connect =>
    [.connect (ctx.numConnections + connects before) (roleOf ctx before (i.input 0))]
  | .sendSetupConnection protocol =>
    let connection := connectionOf ctx before (i.input 0)
    [.send connection 0 S.messageTypeSetupConnection false
        (payloadOf S (setupSpec ctx before (i.input 1))),
      .awaitSetupResponse connection (sends before) protocol (firstOn ctx before connection)]
  -- the exit is known only when the block has ended
  | .beginOnSetupSuccess _ => [.enterOnSetupSuccess (sessionOf ctx before (i.input 0)) exit]
  | .endOnSetupSuccess => [.exitBlock]
  | .sendRawFrame messageType extensionType =>
    [.send (connectionOf ctx before (i.input 0)) extensionType messageType false
      (bytesOf ctx before (i.input 1))]
  | .advanceTime => [.advanceTime (durationOf ctx before (i.input 0))]
  | .probe => [.probe]
  | _ => []

/-- The action that ends the block begun at `n`, or the placeholder. -/
def exitOf (is : List Instruction) (n : Nat) : Nat :=
  match matching (brackets is) n with
  | some e => actionCount (is.take e)
  | none => ActionId.max

def actionsOf (is : List Instruction) : List Action :=
  is.zipIdx.flatMap fun p => lower S ctx (is.take p.2) (exitOf is p.2) p.1

/-- The instruction each action comes from. -/
def actionInstructionsOf (is : List Instruction) : List Nat :=
  is.zipIdx.flatMap fun p => List.replicate p.1.operation.numActions p.2

end Actions

/-! ## Setups that cannot be encoded -/

/-- One of the string fields is longer than a `Str0255` can be. -/
def SetupConnectionSpec.TooLong (spec : SetupConnectionSpec) : Prop :=
  255 < spec.endpointHost.utf8ByteSize ∨ 255 < spec.vendor.utf8ByteSize ∨
    255 < spec.hardwareVersion.utf8ByteSize ∨ 255 < spec.firmware.utf8ByteSize ∨
    255 < spec.deviceId.utf8ByteSize

instance (spec : SetupConnectionSpec) : Decidable spec.TooLong := by
  unfold SetupConnectionSpec.TooLong
  infer_instance

/-- The instruction sends the setup `v`, which has a field that is too long. -/
def Instruction.SendsTooLong (ctx : ProgramContext) (before : List Instruction)
    (i : Instruction) (v : Nat) : Prop :=
  i.operation.isSendSetup = true ∧ i.inputs[1]? = some v ∧ (setupSpec ctx before v).TooLong

/-- The first send of a setup with a field that is too long sends the setup `v`. -/
def FirstTooLong (ctx : ProgramContext) (is : List Instruction) (v : Nat) : Prop :=
  ∃ (n : Nat) (i : Instruction), is[n]? = some i ∧ i.SendsTooLong ctx (is.take n) v ∧
    ∀ (n' : Nat) (i' : Instruction) (v' : Nat), n' < n → is[n']? = some i' →
      ¬ i'.SendsTooLong ctx (is.take n') v'

/-! ## One more instruction -/

theorem occurs_iff {is : List Instruction} {Q : List Instruction → Instruction → Bool} :
    occurs is Q = true ↔ ∃ (n : Nat) (i : Instruction), is[n]? = some i ∧ Q (is.take n) i = true := by
  rw [occurs, List.any_eq_true]
  constructor
  · rintro ⟨⟨i, n⟩, hMem, hQ⟩
    exact ⟨n, i, List.mem_zipIdx_iff_getElem?.mp hMem, hQ⟩
  · rintro ⟨n, i, hi, hQ⟩
    exact ⟨(i, n), List.mem_zipIdx_iff_getElem?.mpr hi, hQ⟩

theorem occurs_take_iff {is : List Instruction} {n : Nat}
    {Q : List Instruction → Instruction → Bool} : occurs (is.take n) Q = true ↔
      ∃ (m : Nat) (j : Instruction), m < n ∧ is[m]? = some j ∧ Q (is.take m) j = true := by
  rw [occurs_iff]
  constructor
  · intro h
    obtain ⟨m, j, hj, hQ⟩ := h
    obtain ⟨hm, hj, hBefore⟩ := getElem?_of_take hj
    exact ⟨m, j, hm, hj, hBefore ▸ hQ⟩
  · intro h
    obtain ⟨m, j, hm, hj, hQ⟩ := h
    refine ⟨m, j, by rwa [List.getElem?_take_of_lt hm], ?_⟩
    rwa [List.take_take, Nat.min_eq_left (Nat.le_of_lt hm)]

/-- A sum over the instructions, each with those before it, splits at the last. -/
theorem exists_snoc_iff {is : List Instruction} {i : Instruction}
    {Q : List Instruction → Instruction → Prop} :
    (∃ (n : Nat) (j : Instruction), (is ++ [i])[n]? = some j ∧ Q ((is ++ [i]).take n) j) ↔
      (∃ (n : Nat) (j : Instruction), is[n]? = some j ∧ Q (is.take n) j) ∨ Q is i := by
  constructor
  · rintro ⟨n, j, hj, hQ⟩
    -- an old position, or the new one
    rcases Nat.lt_or_ge n is.length with hLt | hGe
    · rw [List.getElem?_append_left hLt] at hj
      rw [List.take_append_of_le_length (Nat.le_of_lt hLt)] at hQ
      exact Or.inl ⟨n, j, hj, hQ⟩
    · have hLen := (List.getElem?_eq_some_iff.mp hj).1
      rw [List.length_append, List.length_singleton] at hLen
      obtain rfl : n = is.length := by omega
      rw [List.getElem?_concat_length, Option.some.injEq] at hj
      rw [List.take_left] at hQ
      exact Or.inr (hj ▸ hQ)
  · rintro (⟨n, j, hj, hQ⟩ | hQ)
    · have hLt := (List.getElem?_eq_some_iff.mp hj).1
      refine ⟨n, j, by rwa [List.getElem?_append_left hLt], ?_⟩
      rwa [List.take_append_of_le_length (Nat.le_of_lt hLt)]
    · exact ⟨is.length, i, List.getElem?_concat_length, by rwa [List.take_left]⟩

theorem occurs_snoc {is : List Instruction} {i : Instruction}
    {Q : List Instruction → Instruction → Bool} :
    occurs (is ++ [i]) Q = (occurs is Q || Q is i) := by
  rw [Bool.eq_iff_iff, Bool.or_eq_true, occurs_iff, occurs_iff]
  exact exists_snoc_iff (Q := fun before j => Q before j = true)

theorem total_append (weight : Operation → Nat) (is l : List Instruction) :
    total weight (is ++ l) = total weight is + total weight l := by
  simp [total]

theorem total_snoc (weight : Operation → Nat) (is : List Instruction) (i : Instruction) :
    total weight (is ++ [i]) = total weight is + weight i.operation := by
  simp [total]

theorem connects_snoc (is : List Instruction) (i : Instruction) :
    connects (is ++ [i]) = connects is + if i.operation = .connect then 1 else 0 :=
  total_snoc _ _ _

theorem sends_snoc (is : List Instruction) (i : Instruction) :
    sends (is ++ [i]) = sends is + if i.operation.isSendSetup then 1 else 0 :=
  total_snoc _ _ _

theorem actionCount_snoc (is : List Instruction) (i : Instruction) :
    actionCount (is ++ [i]) = actionCount is + i.operation.numActions :=
  total_snoc _ _ _

/-- A total counts the instruction at `n` above what stands before it. -/
theorem total_take_add_le (weight : Operation → Nat) {is : List Instruction} {n m : Nat}
    {i : Instruction} (hi : is[n]? = some i) (hm : n < m) :
    total weight (is.take n) + weight i.operation ≤ total weight (is.take m) := by
  have hPrefix : is.take (n + 1) <+: is.take m := List.take_prefix_take_left (by omega)
  obtain ⟨l, hl⟩ := hPrefix
  rw [← hl, total_append, List.take_add_one, hi, Option.toList_some, total_snoc]
  omega

theorem total_take_lt (weight : Operation → Nat) {is : List Instruction} {n : Nat}
    {i : Instruction} (hi : is[n]? = some i) (hw : 0 < weight i.operation) :
    total weight (is.take n) < total weight is := by
  have hLt := (List.getElem?_eq_some_iff.mp hi).1
  have := total_take_add_le weight hi hLt
  rw [List.take_length] at this
  omega

/-- The part of a program before one of its variables is defined. -/
theorem take_definition {is : List Instruction} (l : List Instruction) {d : Definition}
    (hd : d.instruction < is.length) :
    (is ++ l)[d.instruction]? = is[d.instruction]? ∧
      (is ++ l).take d.instruction = is.take d.instruction :=
  ⟨List.getElem?_append_left hd, List.take_append_of_le_length (Nat.le_of_lt hd)⟩

theorem constants_append {ctx : ProgramContext} {is : List Instruction} (l : List Instruction)
    {v : Nat} (hv : v < (definitions is).length) :
    constants ctx (is ++ l) v = constants ctx is v := by
  obtain ⟨d, hd⟩ : ∃ d, (definitions is)[v]? = some d := ⟨_, List.getElem?_eq_getElem hv⟩
  obtain ⟨hAt, hBefore⟩ := take_definition l (definition_lt hd)
  simp only [constants, definitions_append_left l hv, hd, hAt, hBefore]

theorem messageSpec_snoc (ctx : ProgramContext) (is : List Instruction) (i : Instruction)
    (m : Nat) :
    messageSpec ctx (is ++ [i]) m =
      if i.edits m then i.edit ctx is (messageSpec ctx is m) else messageSpec ctx is m := by
  have hEarlier : ∀ (l : List (Instruction × Nat)) (spec : SetupConnectionSpec),
      (∀ p ∈ l, p.2 < is.length) →
      l.foldl (fun spec p =>
        if p.1.edits m then p.1.edit ctx ((is ++ [i]).take p.2) spec else spec) spec =
      l.foldl (fun spec p =>
        if p.1.edits m then p.1.edit ctx (is.take p.2) spec else spec) spec := by
    intro l spec hl
    refine List.foldl_ext _ _ _ fun spec' p hp => ?_
    rw [List.take_append_of_le_length (Nat.le_of_lt (hl p hp))]
  have hMem : ∀ p ∈ is.zipIdx, p.2 < is.length := fun p hp =>
    (List.getElem?_eq_some_iff.mp (List.mem_zipIdx_iff_getElem?.mp hp)).1
  unfold messageSpec
  rw [List.zipIdx_append, List.foldl_append, hEarlier _ _ hMem]
  simp

theorem getElem?_valuesOf (ctx : ProgramContext) (is : List Instruction) (v : Nat) :
    (valuesOf ctx is)[v]? = (definitions is)[v]?.map (Definition.value ctx is v) := by
  rw [valuesOf, List.getElem?_mapIdx]

theorem length_valuesOf (ctx : ProgramContext) (is : List Instruction) :
    (valuesOf ctx is).length = (definitions is).length := List.length_mapIdx

theorem valueOf_definition (ctx : ProgramContext) (is : List Instruction) (v : Nat) :
    valueOf ctx is v = ((definitions is)[v]?.map (Definition.value ctx is v)).getD .nop := by
  rw [valueOf, List.getD_eq_getElem?_getD, getElem?_valuesOf]

theorem valueOf_eq (ctx : ProgramContext) {is : List Instruction} {v : Nat}
    {d : Definition} (hd : (definitions is)[v]? = some d) :
    (valuesOf ctx is)[v]? = some (valueOf ctx is v) ∧ valueOf ctx is v = d.value ctx is v := by
  have h := getElem?_valuesOf ctx is v
  rw [hd, Option.map_some] at h
  have hValue : valueOf ctx is v = d.value ctx is v := by
    rw [valueOf_definition, hd, Option.map_some, Option.getD_some]
  exact ⟨by rw [hValue, h], hValue⟩

end Stratamoto
