import Stratamoto.IR.Compilation

/-!
# Stratamoto — compiling what was not validated

`stratamoto compile` compiles whatever decodes. An arm of the compiler reads its
inputs one after the other (`Operation.reads`): an input list that ends too early
is an index out of bounds, an input without a value, or with one of another
shape, is an error. Which of the two comes first decides between a panic and an
answer.

The counters of the source are `usize`s and its set of sent connections has a
capacity, which the compiler of valid programs never comes near;
`Compiler.compileUsize` is the compiler with both, for any capacity.

* `guards_compileInstruction` — the reads of an arm guard everything in it;
* `compileInstructionUsize_panics_iff` — when one instruction panics;
* `AnswersFaults S capacity p` — a compilation that answers every fault with an error;
* `compile_answers_iff` — which compilations do.
-/

namespace Stratamoto

open Brackets Operation

/-! ## What the arms read -/

/-- The inputs the arm of an operation reads, in its order, with the shape each
value must have. -/
def Operation.reads : Operation → List (Nat × (Value → Bool))
  | .connect => [(0, fun v => v.asRole.isSome)]
  | .setVersions =>
    [(1, fun v => v.asVersion.isSome), (2, fun v => v.asVersion.isSome),
      (0, fun v => v.asSetup.isSome)]
  | .setFlags => [(1, fun v => v.asFlags.isSome), (0, fun v => v.asSetup.isSome)]
  | .setEndpoint =>
    [(1, fun v => v.asStr.isSome), (2, fun v => v.asPort.isSome), (0, fun v => v.asSetup.isSome)]
  | .setDeviceInfo =>
    [(1, fun v => v.asStr.isSome), (2, fun v => v.asStr.isSome), (3, fun v => v.asStr.isSome),
      (4, fun v => v.asStr.isSome), (0, fun v => v.asSetup.isSome)]
  | .endBuildSetupConnection _ => [(0, fun v => v.asSetup.isSome)]
  | .sendSetupConnection _ =>
    [(0, fun v => v.asConnection.isSome), (1, fun v => v.asSetup.isSome)]
  | .beginOnSetupSuccess _ => [(0, fun v => v.asAttempt.isSome)]
  | .sendRawFrame _ _ => [(0, fun v => v.asConnection.isSome), (1, fun v => v.asBytes.isSome)]
  | .advanceTime => [(0, fun v => v.asDuration.isSome)]
  | .nop _ _ | .loadRole _ | .loadConnection _ | .loadVersion _ | .loadFlags _ | .loadPort _
  | .loadStr _ | .loadBytes _ | .loadDuration _ | .beginBuildSetupConnection
  | .endOnSetupSuccess | .probe => []

/-- The input names a value of the shape. -/
def finds (values : List Value) (inputs : List Nat) (k : Nat) (fits : Value → Bool) : Bool :=
  (inputs[k]?.bind fun v => values[v]?).any fits

/-- All reads find what they expect. -/
def readsAll (values : List Value) (inputs : List Nat) (reads : List (Nat × (Value → Bool))) :
    Bool :=
  reads.all fun read => finds values inputs read.1 read.2

/-- A read is past the end of the inputs, and those before it find what they
expect. -/
def missesInput (values : List Value) (inputs : List Nat) :
    List (Nat × (Value → Bool)) → Bool
  | [] => false
  | (k, fits) :: rest =>
    inputs[k]?.isNone || finds values inputs k fits && missesInput values inputs rest

/-! ## The compiler with machine integers -/

namespace Compiler

/-- A sum in the arm is past the largest `usize`. Sessions are not counted here:
there is at most one for each instruction of a vector. -/
def overflows (c : Compiler) (i : Instruction) : Bool :=
  match i.operation with
  | .nop outputs innerOutputs => usizeMax < outputs + innerOutputs
  | .connect => usizeMax < c.connections + 1
  | _ => false

def compileInstructionUsize (S : Sv2) (c : Compiler) (index : Nat) (i : Instruction) :
    Except Abort Compiler := do
  let c' ← c.compileInstruction S index i
  if c.overflows i then .error (.panic (.expect "attempt to add with overflow")) else pure c'

def compileInstructionsUsize (S : Sv2) (c : Compiler) (index : Nat) :
    List Instruction → Except Abort Compiler
  | [] => .ok c
  | i :: rest => do
    let c ← c.compileInstructionUsize S index i
    c.compileInstructionsUsize S (index + 1) rest

/-- The compiler as the machine runs it, where a set has room for `capacity`
connections. -/
def compileUsize (S : Sv2) (capacity : Nat) (program : Program) :
    Except Abort CompiledProgram :=
  if capacity < program.context.numConnections then
    .error (.panic (.expect "Hash table capacity overflow"))
  else do
    let c ← (start program.context).compileInstructionsUsize S 0 program.instructions
    return { context := program.context, actions := c.actions, metadata := c.metadata }

/-- The instruction panics: it misses an input, or it overflows. -/
def panicsOn (c : Compiler) (i : Instruction) : Bool :=
  missesInput c.values i.inputs i.operation.reads ||
    readsAll c.values i.inputs i.operation.reads && c.overflows i

end Compiler

/-! ## Reads guard what follows them -/

theorem finds_eq_false_of_missing {values : List Value} {inputs : List Nat} {k : Nat}
    (h : inputs[k]? = none) (fits : Value → Bool) : finds values inputs k fits = false := by
  rw [finds, h]
  rfl

/-- What reads decide of an arm: it panics if one is missing, it does not if none
is, and it does not succeed unless all find what they expect. -/
structure Guards {β : Type} (values : List Value) (inputs : List Nat)
    (reads : List (Nat × (Value → Bool))) (x : Except Abort β) : Prop where
  misses : missesInput values inputs reads = true → ∃ panic, x = .error (.panic panic)
  safe : missesInput values inputs reads = false → ∀ panic, x ≠ .error (.panic panic)
  fails : readsAll values inputs reads = false → ∀ b, x ≠ .ok b

section Guards

variable {β : Type} {values : List Value} {inputs : List Nat} {reads : List (Nat × (Value → Bool))}

theorem Guards.nil {x : Except Abort β} (h : ∀ panic, x ≠ .error (.panic panic)) :
    Guards values inputs [] x where
  misses hMisses := by cases hMisses
  safe _ := h
  fails hFails := by cases hFails

/-- A read that finds what it expects goes on with it. -/
theorem read_of_finds {α : Type} {get : Value → Option α} {k : Nat} {c : Compiler}
    (hc : c.values = values) (h : finds values inputs k (fun v => (get v).isSome) = true)
    (f : Nat → α → Except Abort β) :
    ∃ v a, (Compiler.input inputs k >>= fun v => c.read get v >>= f v) = f v a := by
  rw [finds, Option.any_eq_true] at h
  obtain ⟨value, hFound, hSome⟩ := h
  obtain ⟨v, hInput, hValue⟩ := Option.bind_eq_some_iff.mp hFound
  obtain ⟨a, ha⟩ := Option.isSome_iff_exists.mp hSome
  refine ⟨v, a, ?_⟩
  simp only [Compiler.input, hInput, Compiler.read, Compiler.value, hc, hValue, bind, Except.bind,
    ha]

theorem ok_of_finds {α : Type} {get : Value → Option α} {k : Nat} {c : Compiler}
    (hc : c.values = values) (h : finds values inputs k (fun v => (get v).isSome) = true)
    {f : Nat → α → Except Abort β} (hf : ∀ v a, ∃ b, f v a = .ok b) :
    ∃ b, (Compiler.input inputs k >>= fun v => c.read get v >>= f v) = .ok b := by
  obtain ⟨v, a, hRead⟩ := read_of_finds hc h f
  rw [hRead]
  exact hf v a

/-- One read in front of an arm. -/
theorem Guards.cons {α : Type} {get : Value → Option α} {k : Nat} {c : Compiler}
    (hc : c.values = values) {f : Nat → α → Except Abort β}
    (h : ∀ v a, Guards values inputs reads (f v a)) :
    Guards values inputs ((k, fun v => (get v).isSome) :: reads)
      (Compiler.input inputs k >>= fun v => c.read get v >>= f v) := by
  cases hInput : inputs[k]? with
  | none =>
    have hPanics : (Compiler.input inputs k >>= fun v => c.read get v >>= f v) =
        .error (.panic .indexOutOfBounds) := by
      rw [Compiler.input, hInput]
      rfl
    rw [hPanics]
    refine ⟨fun _ => ⟨_, rfl⟩, fun hSafe => ?_, fun _ b => by simp⟩
    simp [missesInput, hInput] at hSafe
  | some v =>
    cases hFinds : finds values inputs k (fun v => (get v).isSome) with
    | false =>
      -- a value that is not there, or not of the shape, is answered with an error
      have hAnswered : ∃ e, (Compiler.input inputs k >>= fun v => c.read get v >>= f v) =
          .error (.error e) := by
        rw [finds, hInput, Option.bind_some] at hFinds
        simp only [Compiler.input, hInput, Compiler.read, Compiler.value, hc, bind, Except.bind]
        cases hValue : values[v]? with
        | none => exact ⟨_, rfl⟩
        | some value =>
          rw [hValue, Option.any_some, Option.isSome_eq_false_iff,
            Option.isNone_iff_eq_none] at hFinds
          exact ⟨.unexpectedValue v, by simp only [hFinds]⟩
      obtain ⟨e, hError⟩ := hAnswered
      rw [hError]
      refine ⟨fun hMisses => ?_, fun _ panic hPanic => ?_, fun _ b => by simp⟩
      · simp [missesInput, hInput, hFinds] at hMisses
      · cases hPanic
    | true =>
      obtain ⟨v', a, hRead⟩ := read_of_finds hc hFinds f
      rw [hRead]
      have hMisses : missesInput values inputs ((k, fun v => (get v).isSome) :: reads) =
          missesInput values inputs reads := by
        simp [missesInput, hInput, hFinds]
      have hReads : readsAll values inputs ((k, fun v => (get v).isSome) :: reads) =
          readsAll values inputs reads := by
        simp [readsAll, hFinds]
      exact ⟨fun hMiss => (h v' a).misses (hMisses ▸ hMiss),
        fun hSafe => (h v' a).safe (hMisses ▸ hSafe),
        fun hFail => (h v' a).fails (hReads ▸ hFail)⟩

/-- A change of the message under construction reads it first. -/
theorem setupMut_eq_read (c : Compiler) (m : Nat)
    (change : SetupConnectionSpec → SetupConnectionSpec) :
    c.setupMut m change = c.read Value.asSetup m >>= fun spec =>
      .ok { c with values := c.values.set m (.setupConnection (change spec)) } := by
  unfold Compiler.setupMut Compiler.read Compiler.value
  cases hValue : c.values[m]? with
  | none => rfl
  | some value => cases value <;> rfl

theorem Guards.setupMut (c : Compiler) (inputs : List Nat)
    (change : SetupConnectionSpec → SetupConnectionSpec) :
    Guards c.values inputs [(0, fun v => v.asSetup.isSome)]
      (Compiler.input inputs 0 >>= fun m => c.setupMut m change) := by
  simp only [setupMut_eq_read]
  refine Guards.cons rfl fun m spec => ?_
  exact Guards.nil fun panic h => by cases h

end Guards

/-! ## The arms -/

theorem ok_ne_panic {β : Type} (b : β) (panic : Panic) :
    (.ok b : Except Abort β) ≠ .error (.panic panic) := by
  simp

theorem bind_ne_panic {α β : Type} {x : Except Abort α} {f : α → Except Abort β} {panic : Panic}
    (hx : x ≠ .error (.panic panic)) (hf : ∀ a, f a ≠ .error (.panic panic)) :
    x >>= f ≠ .error (.panic panic) := by
  cases x with
  | error e =>
    intro h
    exact hx (congrArg Except.error (Except.error.inj h))
  | ok a => exact hf a

theorem encodeSetupConnection_ne_panic {S : Sv2} (hS : S.Lawful) (spec : SetupConnectionSpec)
    (v : Nat) (panic : Panic) : encodeSetupConnection S spec v ≠ .error (.panic panic) := by
  obtain ⟨protocol, hProtocol⟩ := protocol_ok hS spec.protocol
  have hStr : ∀ value : String, str0255 S value v ≠ .error (.panic panic) := by
    intro value
    unfold str0255
    split <;> simp
  unfold encodeSetupConnection
  rw [hProtocol]
  refine bind_ne_panic (hStr _) fun endpointHost => ?_
  refine bind_ne_panic (hStr _) fun vendor => ?_
  refine bind_ne_panic (hStr _) fun hardwareVersion => ?_
  refine bind_ne_panic (hStr _) fun firmware => ?_
  refine bind_ne_panic (hStr _) fun deviceId => ?_
  unfold encode
  split <;> simp

/-- The enter actions of open blocks have been pushed. -/
def Compiler.BlocksPushed (c : Compiler) : Prop := ∀ enter ∈ c.blocks, enter < c.actions.length

theorem compileEndOnSetupSuccess_ne_panic {c : Compiler} (h : c.BlocksPushed) (index : Nat)
    (panic : Panic) : c.compileEndOnSetupSuccess index ≠ .error (.panic panic) := by
  unfold Compiler.compileEndOnSetupSuccess
  cases hBlocks : c.blocks with
  | nil => simp
  | cons enter blocks =>
    have hEnter : enter < (c.actions ++ [Action.exitBlock]).length := by
      have := h enter (by rw [hBlocks]; exact List.mem_cons_self)
      rw [List.length_append]
      omega
    simp only [Compiler.pushAction_actions, List.getElem?_eq_getElem hEnter]
    split
    · rename_i hNone
      cases hNone
    · simp
    · simp

/-- **The reads of an arm guard it**: nothing else in it panics. -/
theorem guards_compileInstruction {S : Sv2} (hS : S.Lawful) {c : Compiler} (h : c.BlocksPushed)
    (index : Nat) (i : Instruction) :
    Guards c.values i.inputs i.operation.reads (c.compileInstruction S index i) := by
  unfold Compiler.compileInstruction
  cases i.operation
  case connect =>
    exact Guards.cons rfl fun _ role => Guards.nil (ok_ne_panic _)
  case setVersions =>
    refine Guards.cons rfl fun _ minVersion => ?_
    refine Guards.cons rfl fun _ maxVersion => ?_
    exact Guards.setupMut c i.inputs _
  case setFlags =>
    refine Guards.cons rfl fun _ flags => ?_
    exact Guards.setupMut c i.inputs _
  case setEndpoint =>
    refine Guards.cons rfl fun _ host => ?_
    refine Guards.cons rfl fun _ port => ?_
    exact Guards.setupMut c i.inputs _
  case setDeviceInfo =>
    refine Guards.cons rfl fun _ vendor => ?_
    refine Guards.cons rfl fun _ hardwareVersion => ?_
    refine Guards.cons rfl fun _ firmware => ?_
    refine Guards.cons rfl fun _ deviceId => ?_
    exact Guards.setupMut c i.inputs _
  case endBuildSetupConnection protocol =>
    exact Guards.cons rfl fun _ spec => Guards.nil (ok_ne_panic _)
  case sendSetupConnection protocol =>
    refine Guards.cons rfl fun _ connection => ?_
    -- the second read does not depend on what was noted of the connection
    refine Guards.cons rfl fun v spec => Guards.nil fun panic => ?_
    refine bind_ne_panic (encodeSetupConnection_ne_panic hS spec v panic) fun payload => ?_
    exact ok_ne_panic _ panic
  case beginOnSetupSuccess protocol =>
    exact Guards.cons rfl fun _ attempt => Guards.nil (ok_ne_panic _)
  case endOnSetupSuccess =>
    exact Guards.nil (compileEndOnSetupSuccess_ne_panic h index)
  case sendRawFrame messageType extensionType =>
    refine Guards.cons rfl fun _ connection => ?_
    exact Guards.cons rfl fun _ payload => Guards.nil (ok_ne_panic _)
  case advanceTime =>
    exact Guards.cons rfl fun _ duration => Guards.nil (ok_ne_panic _)
  all_goals exact Guards.nil (ok_ne_panic _)

/-- What overflows would be compiled. -/
theorem compileInstruction_of_overflows {c : Compiler} {i : Instruction}
    (h : c.overflows i = true) (hReads : readsAll c.values i.inputs i.operation.reads = true)
    (S : Sv2) (index : Nat) : ∃ c', c.compileInstruction S index i = .ok c' := by
  unfold Compiler.overflows at h
  unfold Compiler.compileInstruction
  split at h
  · rename_i hOp
    rw [hOp]
    exact ⟨_, rfl⟩
  · rename_i hOp
    rw [hOp] at hReads ⊢
    exact ok_of_finds rfl (by simpa [reads, readsAll] using hReads) fun v role => ⟨_, rfl⟩
  · cases h

/-- A message that is there can be ended, whether or not it was begun. -/
theorem compileInstruction_of_endBuild {c : Compiler} {i : Instruction}
    (h : i.operation.bracket = .closing .build)
    (hReads : readsAll c.values i.inputs i.operation.reads = true) (S : Sv2) (index : Nat) :
    ∃ c', c.compileInstructionUsize S index i = .ok c' := by
  obtain ⟨protocol, hOp⟩ : ∃ protocol, i.operation = .endBuildSetupConnection protocol := by
    cases hOp : i.operation <;> rw [hOp] at h <;> cases h
    exact ⟨_, rfl⟩
  have hStep : ∃ c', c.compileInstruction S index i = .ok c' := by
    unfold Compiler.compileInstruction
    rw [hOp] at hReads ⊢
    exact ok_of_finds rfl (by simpa [reads, readsAll] using hReads) fun v spec => ⟨_, rfl⟩
  obtain ⟨c', hStep⟩ := hStep
  refine ⟨c', ?_⟩
  unfold Compiler.compileInstructionUsize Compiler.overflows
  rw [hStep, hOp]
  rfl

/-- **When an instruction panics**: it misses an input that it goes on to read,
or it overflows. -/
theorem compileInstructionUsize_panics_iff {S : Sv2} (hS : S.Lawful) {c : Compiler}
    (h : c.BlocksPushed) (index : Nat) (i : Instruction) :
    (∃ panic, c.compileInstructionUsize S index i = .error (.panic panic)) ↔
      c.panicsOn i = true := by
  have hGuards := guards_compileInstruction hS h index i
  unfold Compiler.compileInstructionUsize Compiler.panicsOn
  rw [Bool.or_eq_true, Bool.and_eq_true]
  constructor
  · intro hPanics
    obtain ⟨panic, hPanics⟩ := hPanics
    by_contra hNot
    obtain ⟨hMisses, hOver⟩ := not_or.mp hNot
    cases hStep : c.compileInstruction S index i with
    | error e =>
      rw [hStep] at hPanics
      obtain rfl : e = .panic panic := Except.error.inj hPanics
      exact hGuards.safe (Bool.eq_false_iff.mpr hMisses) panic hStep
    | ok c' =>
      -- a step that succeeds read all its inputs, so what is left is the overflow
      have hReads : readsAll c.values i.inputs i.operation.reads = true := by
        by_contra hFails
        exact hGuards.fails (Bool.eq_false_iff.mpr hFails) c' hStep
      rw [hStep] at hPanics
      have hNone : ¬ c.overflows i = true := fun hOverflows => hOver ⟨hReads, hOverflows⟩
      simp only [bind, Except.bind, if_neg hNone] at hPanics
      cases hPanics
  · intro hPanics
    rcases hPanics with hMisses | ⟨hReads, hOverflows⟩
    · obtain ⟨panic, hPanic⟩ := hGuards.misses hMisses
      refine ⟨panic, ?_⟩
      rw [hPanic]
      rfl
    · obtain ⟨c', hStep⟩ := compileInstruction_of_overflows hOverflows hReads S index
      refine ⟨.expect "attempt to add with overflow", ?_⟩
      rw [hStep]
      exact if_pos hOverflows

/-! ## Open blocks -/

/-- How many blocks of the kind have begun and not ended. -/
def openBlocks (kind : BlockKind) (is : List Instruction) : Nat :=
  is.foldl (fun n i =>
    if i.operation.bracket = .opening kind then n + 1
    else if i.operation.bracket = .closing kind then n - 1
    else n) 0

/-- What an instruction that is compiled does to the stack of open blocks. -/
structure Compiler.StepsBlocks (c c' : Compiler) (op : Operation) : Prop where
  actions : c.actions.length ≤ c'.actions.length
  begins : op.bracket = .opening .success →
    c'.blocks = c.actions.length :: c.blocks ∧ c.actions.length < c'.actions.length
  ends : op.bracket = .closing .success → ∃ enter, c.blocks = enter :: c'.blocks
  other : op.bracket ≠ .opening .success → op.bracket ≠ .closing .success →
    c'.blocks = c.blocks

theorem compileInstruction_stepsBlocks {S : Sv2} {c c' : Compiler} {index : Nat}
    {i : Instruction} (h : c.compileInstruction S index i = .ok c') :
    c.StepsBlocks c' i.operation := by
  cases compileInstruction_steps h with
  | pushes l hPushes hBlocks hOpening hClosing =>
    refine ⟨?_, fun h => absurd h hOpening, fun h => absurd h hClosing, fun _ _ => hBlocks⟩
    rw [hPushes.actions, List.length_append]
    exact Nat.le_add_right _ _
  | begins session hOpening hPushes hBlocks =>
    have hLength : c'.actions.length = c.actions.length + 1 := by
      rw [hPushes.actions, List.length_append, List.length_singleton]
    refine ⟨by omega, fun _ => ⟨hBlocks, by omega⟩, fun hClosing => ?_, fun hNot => ?_⟩
    · rw [hOpening] at hClosing
      cases hClosing
    · exact absurd hOpening hNot
  | ends enter session e hClosing hBlocks hEnter hActions =>
    refine ⟨?_, fun hOpening => ?_, fun _ => ⟨enter, hBlocks⟩, fun _ hNot => ?_⟩
    · -- the enter is patched in place
      rw [hActions, List.length_set, List.length_append]
      exact Nat.le_add_right _ _
    · rw [hClosing] at hOpening
      cases hOpening
    · exact absurd hClosing hNot

theorem openBlocks_snoc (kind : BlockKind) (is : List Instruction) (i : Instruction) :
    openBlocks kind (is ++ [i]) =
      if i.operation.bracket = .opening kind then openBlocks kind is + 1
      else if i.operation.bracket = .closing kind then openBlocks kind is - 1
      else openBlocks kind is := by
  rw [openBlocks, List.foldl_append]
  rfl

/-- What holds of the compiler after some instructions, valid or not: the stack
has the blocks that are open. -/
structure Compiler.Tracks (c : Compiler) (before : List Instruction) : Prop where
  pushed : c.BlocksPushed
  depth : c.blocks.length = openBlocks .success before

theorem Compiler.StepsBlocks.blocksPushed {c c' : Compiler} {op : Operation}
    (h : c.StepsBlocks c' op) (hPushed : c.BlocksPushed) : c'.BlocksPushed := by
  intro enter hEnter
  by_cases hOpening : op.bracket = .opening .success
  · obtain ⟨hBlocks, hLt⟩ := h.begins hOpening
    rw [hBlocks] at hEnter
    rcases List.mem_cons.mp hEnter with rfl | hOld
    · exact hLt
    · exact Nat.lt_of_lt_of_le (hPushed enter hOld) h.actions
  · by_cases hClosing : op.bracket = .closing .success
    · obtain ⟨top, hBlocks⟩ := h.ends hClosing
      have hOld : enter ∈ c.blocks := by
        rw [hBlocks]
        exact List.mem_cons_of_mem top hEnter
      exact Nat.lt_of_lt_of_le (hPushed enter hOld) h.actions
    · rw [h.other hOpening hClosing] at hEnter
      exact Nat.lt_of_lt_of_le (hPushed enter hEnter) h.actions

theorem Compiler.Tracks.step {c c' : Compiler} {before : List Instruction} {i : Instruction}
    (hTracks : c.Tracks before) (h : c.StepsBlocks c' i.operation) :
    c'.Tracks (before ++ [i]) where
  pushed := h.blocksPushed hTracks.pushed
  depth := by
    rw [openBlocks_snoc, ← hTracks.depth]
    by_cases hOpening : i.operation.bracket = .opening .success
    · rw [if_pos hOpening, (h.begins hOpening).1, List.length_cons]
    · rw [if_neg hOpening]
      by_cases hClosing : i.operation.bracket = .closing .success
      · obtain ⟨enter, hBlocks⟩ := h.ends hClosing
        rw [if_pos hClosing, hBlocks, List.length_cons, Nat.add_sub_cancel]
      · rw [if_neg hClosing, h.other hOpening hClosing]

/-! ## Runs -/

theorem compileInstruction_of_usize {S : Sv2} {c c' : Compiler} {index : Nat} {i : Instruction}
    (h : c.compileInstructionUsize S index i = .ok c') :
    c.compileInstruction S index i = .ok c' := by
  obtain ⟨c₁, hStep, hSum⟩ := bind_ok h
  split at hSum
  · cases hSum
  · cases hSum
    exact hStep

theorem compileInstructionsUsize_snoc (S : Sv2) (c : Compiler) (index : Nat)
    (is : List Instruction) (i : Instruction) :
    c.compileInstructionsUsize S index (is ++ [i]) =
      c.compileInstructionsUsize S index is >>= fun c =>
        c.compileInstructionUsize S (index + is.length) i := by
  induction is generalizing c index with
  | nil =>
    simp only [List.nil_append, Compiler.compileInstructionsUsize, bind, Except.bind]
    cases c.compileInstructionUsize S index i <;> rfl
  | cons j is ih =>
    simp only [List.cons_append, Compiler.compileInstructionsUsize, bind, Except.bind]
    cases c.compileInstructionUsize S index j with
    | error e => rfl
    | ok c₁ =>
      simp only [ih c₁ (index + 1), List.length_cons, Nat.add_comm is.length 1, ← Nat.add_assoc]
      rfl

/-- Instructions that are compiled leave the compiler on track. -/
theorem tracks_of_compileInstructionsUsize {S : Sv2} {ctx : ProgramContext}
    {is : List Instruction} {c : Compiler}
    (h : (Compiler.start ctx).compileInstructionsUsize S 0 is = .ok c) : c.Tracks is := by
  induction is using List.reverseRecOn generalizing c with
  | nil =>
    cases h
    exact ⟨fun enter hEnter => absurd hEnter List.not_mem_nil, rfl⟩
  | append_singleton is i ih =>
    rw [compileInstructionsUsize_snoc] at h
    obtain ⟨c₁, hBefore, hStep⟩ := bind_ok h
    exact (ih hBefore).step (compileInstruction_stepsBlocks (compileInstruction_of_usize hStep))

/-- The compilation gets to the `n`-th instruction, with the compiler `c`. -/
structure GetsTo (S : Sv2) (p : Program) (n : Nat) (i : Instruction) (c : Compiler) : Prop where
  at_ : p.instructions[n]? = some i
  before : (Compiler.start p.context).compileInstructionsUsize S 0 (p.instructions.take n) = .ok c

theorem GetsTo.tracks {S : Sv2} {p : Program} {n : Nat} {i : Instruction} {c : Compiler}
    (h : GetsTo S p n i c) : c.Tracks (p.instructions.take n) :=
  tracks_of_compileInstructionsUsize h.before

/-- A run from `c` ends early exactly where one of its instructions does. -/
theorem compileInstructionsUsize_error_iff {S : Sv2} {is : List Instruction} {c : Compiler}
    {index : Nat} {e : Abort} :
    c.compileInstructionsUsize S index is = .error e ↔
      ∃ n i c', is[n]? = some i ∧ c.compileInstructionsUsize S index (is.take n) = .ok c' ∧
        c'.compileInstructionUsize S (index + n) i = .error e := by
  induction is generalizing c index with
  | nil => simp [Compiler.compileInstructionsUsize]
  | cons j is ih =>
    simp only [Compiler.compileInstructionsUsize, bind, Except.bind]
    -- the first instruction fails itself, or what fails comes after it
    cases hStep : c.compileInstructionUsize S index j with
    | error e' =>
      constructor
      · intro hError
        obtain rfl := Except.error.inj hError
        exact ⟨0, j, c, rfl, rfl, hStep⟩
      · intro hError
        obtain ⟨n, i, c', hAt, hBefore, hFails⟩ := hError
        cases n with
        | zero =>
          obtain rfl : j = i := Option.some.inj hAt
          obtain rfl : c = c' := Except.ok.inj hBefore
          rw [Nat.add_zero, hStep] at hFails
          exact hFails
        | succ n =>
          simp [Compiler.compileInstructionsUsize, hStep, bind, Except.bind] at hBefore
    | ok c₁ =>
      show c₁.compileInstructionsUsize S (index + 1) is = .error e ↔ _
      rw [ih]
      constructor
      · intro hError
        obtain ⟨n, i, c', hAt, hBefore, hFails⟩ := hError
        refine ⟨n + 1, i, c', hAt, ?_, ?_⟩
        · simpa [Compiler.compileInstructionsUsize, hStep, bind, Except.bind] using hBefore
        · rwa [Nat.add_right_comm, Nat.add_assoc] at hFails
      · intro hError
        obtain ⟨n, i, c', hAt, hBefore, hFails⟩ := hError
        cases n with
        | zero =>
          obtain rfl : j = i := Option.some.inj hAt
          obtain rfl : c = c' := Except.ok.inj hBefore
          rw [Nat.add_zero, hStep] at hFails
          cases hFails
        | succ n =>
          refine ⟨n, i, c', hAt, ?_, ?_⟩
          · simpa [Compiler.compileInstructionsUsize, hStep, bind, Except.bind] using hBefore
          · rwa [Nat.add_right_comm, Nat.add_assoc]

/-- Where a compilation that has room for its connections ends early. -/
theorem compileUsize_error_iff {S : Sv2} {capacity : Nat} {p : Program}
    (hCapacity : p.context.numConnections ≤ capacity) {e : Abort} :
    Compiler.compileUsize S capacity p = .error e ↔
      ∃ n i c, GetsTo S p n i c ∧ c.compileInstructionUsize S n i = .error e := by
  -- the connections fit, so an error is one of the instructions
  have hRun : Compiler.compileUsize S capacity p = .error e ↔
      (Compiler.start p.context).compileInstructionsUsize S 0 p.instructions = .error e := by
    rw [Compiler.compileUsize, if_neg (Nat.not_lt.mpr hCapacity)]
    cases (Compiler.start p.context).compileInstructionsUsize S 0 p.instructions with
    | error e' => simp [bind, Except.bind]
    | ok c => simp [bind, Except.bind, pure, Except.pure]
  rw [hRun, compileInstructionsUsize_error_iff]
  simp only [Nat.zero_add]
  constructor
  · intro hError
    obtain ⟨n, i, c, hAt, hBefore, hFails⟩ := hError
    exact ⟨n, i, c, ⟨hAt, hBefore⟩, hFails⟩
  · intro hError
    obtain ⟨n, i, c, hGets, hFails⟩ := hError
    exact ⟨n, i, c, hGets.at_, hGets.before, hFails⟩

/-- What does not panic is the compiler of valid programs. -/
theorem compileInstructionsUsize_eq {S : Sv2} {is : List Instruction} {c : Compiler} {index : Nat}
    (h : ∀ panic, c.compileInstructionsUsize S index is ≠ .error (.panic panic)) :
    c.compileInstructionsUsize S index is = c.compileInstructions S index is := by
  induction is generalizing c index with
  | nil => rfl
  | cons i is ih =>
    unfold Compiler.compileInstructionsUsize Compiler.compileInstructionUsize at h ⊢
    unfold Compiler.compileInstructions
    cases hStep : c.compileInstruction S index i with
    | error e => rfl
    | ok c₁ =>
      rw [hStep] at h
      by_cases hOverflows : c.overflows i = true
      · -- the sum would have panicked
        simp only [bind, Except.bind, if_pos hOverflows] at h
        exact absurd rfl (h _)
      · simp only [bind, Except.bind, if_neg hOverflows, pure, Except.pure] at h ⊢
        exact ih h

theorem compileUsize_eq {S : Sv2} {capacity : Nat} {p : Program}
    (h : ∀ panic, Compiler.compileUsize S capacity p ≠ .error (.panic panic)) :
    Compiler.compileUsize S capacity p = Compiler.compile S p := by
  unfold Compiler.compileUsize at h ⊢
  by_cases hCapacity : capacity < p.context.numConnections
  · rw [if_pos hCapacity] at h
    exact absurd rfl (h _)
  · rw [if_neg hCapacity] at h ⊢
    unfold Compiler.compile
    rw [compileInstructionsUsize_eq]
    intro panic hPanic
    apply h panic
    rw [hPanic]
    rfl

/-! ## Faults -/

/-- What the errors of the compiler are for: too few inputs, an input that names
no value or one of another shape, and the end of a block that never began. -/
inductive Faulty (c : Compiler) (before : List Instruction) (i : Instruction) : Prop
  | arity (h : i.inputs.length < i.operation.numInputs)
  | input (h : readsAll c.values i.inputs i.operation.reads = false)
  | unbegun (kind : BlockKind) (hClosing : i.operation.bracket = .closing kind)
      (hNone : openBlocks kind before = 0)

/-- The compilation does not panic, and answers every fault it gets to with an
error. -/
structure AnswersFaults (S : Sv2) (capacity : Nat) (p : Program) : Prop where
  noPanic : ∀ panic, Compiler.compileUsize S capacity p ≠ .error (.panic panic)
  faults : ∀ n i c, GetsTo S p n i c → Faulty c (p.instructions.take n) i →
    ∃ e, c.compileInstructionUsize S n i = .error (.error e) ∧
      Compiler.compileUsize S capacity p = .error (.error e)

/-- An arm reads every input its operation takes. -/
theorem numInputs_le_of_readsAll {values : List Value} {i : Instruction}
    (h : readsAll values i.inputs i.operation.reads = true) :
    i.operation.numInputs ≤ i.inputs.length := by
  have hRead : ∀ read ∈ i.operation.reads, read.1 < i.inputs.length := by
    intro read hRead
    have hFinds : finds values i.inputs read.1 read.2 = true := List.all_eq_true.mp h read hRead
    by_contra hNone
    rw [finds_eq_false_of_missing (List.getElem?_eq_none (Nat.not_lt.mp hNone))] at hFinds
    cases hFinds
  cases hOp : i.operation <;> rw [hOp] at hRead <;>
    simp [reads, numInputs, getInputVariables] at hRead ⊢ <;> omega

/-- A message can be ended without having been begun; every other fault stops
the instruction. -/
theorem not_ok_of_faulty {S : Sv2} (hS : S.Lawful) {c : Compiler} {before : List Instruction}
    {i : Instruction} (hTracks : c.Tracks before)
    (hBuild : i.operation.bracket = .closing .build → openBlocks .build before = 0 →
      readsAll c.values i.inputs i.operation.reads = false)
    (h : Faulty c before i) (index : Nat) (c' : Compiler) :
    c.compileInstructionUsize S index i ≠ .ok c' := by
  intro hOk
  have hStep := compileInstruction_of_usize hOk
  have hFails := (guards_compileInstruction hS hTracks.pushed index i).fails
  cases h with
  | arity hArity =>
    refine hFails ?_ c' hStep
    by_contra hReads
    have := numInputs_le_of_readsAll (Bool.not_eq_false _ ▸ hReads)
    omega
  | input hInput => exact hFails hInput c' hStep
  | unbegun kind hClosing hNone =>
    cases kind with
    | build => exact hFails (hBuild hClosing hNone) c' hStep
    | success =>
      -- the stack would have had a block to end
      obtain ⟨enter, hBlocks⟩ := (compileInstruction_stepsBlocks hStep).ends hClosing
      have hDepth := hTracks.depth
      rw [hBlocks, hNone] at hDepth
      cases hDepth

/-- **Which compilations answer their faults.** A compilation panics where an
instruction misses an input that it goes on to read, where a sum is past the
largest `usize`, and where its context has more connections than a set can hold;
and it accepts the end of a message that was never begun, if there is a message
to end. On every other program it answers with a program or an error, and with
an error whatever is at fault. -/
theorem compile_answers_iff {S : Sv2} (hS : S.Lawful) (capacity : Nat) (p : Program) :
    AnswersFaults S capacity p ↔
      p.context.numConnections ≤ capacity ∧
        ∀ n i c, GetsTo S p n i c →
          c.panicsOn i = false ∧
            (i.operation.bracket = .closing .build →
              openBlocks .build (p.instructions.take n) = 0 →
                readsAll c.values i.inputs i.operation.reads = false) := by
  constructor
  · intro hAnswers
    have hCapacity : p.context.numConnections ≤ capacity := by
      by_contra hNot
      exact hAnswers.noPanic _ (if_pos (Nat.not_le.mp hNot))
    refine ⟨hCapacity, fun n i c hGets => ⟨?_, fun hClosing hNone => ?_⟩⟩
    · by_contra hPanics
      rw [Bool.not_eq_false,
        ← compileInstructionUsize_panics_iff hS hGets.tracks.pushed n] at hPanics
      obtain ⟨panic, hPanic⟩ := hPanics
      exact hAnswers.noPanic panic
        ((compileUsize_error_iff hCapacity).mpr ⟨n, i, c, hGets, hPanic⟩)
    · by_contra hReads
      obtain ⟨e, hError, -⟩ := hAnswers.faults n i c hGets (.unbegun .build hClosing hNone)
      obtain ⟨c', hOk⟩ := compileInstruction_of_endBuild hClosing (Bool.not_eq_false _ ▸ hReads) S n
      rw [hOk] at hError
      cases hError
  · intro hCondition
    obtain ⟨hCapacity, hSteps⟩ := hCondition
    -- an instruction that is reached does not panic
    have hSafe : ∀ n i c, GetsTo S p n i c →
        ∀ panic, c.compileInstructionUsize S n i ≠ .error (.panic panic) := by
      intro n i c hGets panic hPanic
      have hPanics := (compileInstructionUsize_panics_iff hS hGets.tracks.pushed n i).mp
        ⟨panic, hPanic⟩
      rw [(hSteps n i c hGets).1] at hPanics
      cases hPanics
    refine ⟨fun panic hPanic => ?_, fun n i c hGets hFaulty => ?_⟩
    · obtain ⟨n, i, c, hGets, hStep⟩ := (compileUsize_error_iff hCapacity).mp hPanic
      exact hSafe n i c hGets panic hStep
    · have hNotOk := not_ok_of_faulty hS hGets.tracks (hSteps n i c hGets).2 hFaulty n
      cases hStep : c.compileInstructionUsize S n i with
      | ok c' => exact absurd hStep (hNotOk c')
      | error abort =>
        cases abort with
        | panic panic => exact absurd hStep (hSafe n i c hGets panic)
        | error e =>
          exact ⟨e, rfl, (compileUsize_error_iff hCapacity).mpr ⟨n, i, c, hGets, hStep⟩⟩

/-- A program of one connect to the role its inputs name. -/
def connectTo (inputs : List Nat) : Program where
  context := { numRoles := 1, numConnections := 0, seed := 0 }
  instructions := [{ inputs, operation := .connect }]

/-- A connect to a role that no instruction before it defines is answered. -/
theorem compile_answers_iff_connectTo : AnswersFaults Sv2.wire (2 ^ 56) (connectTo [5]) := by
  refine (compile_answers_iff Sv2.wire_lawful _ _).mpr ⟨by decide, fun n i c hGets => ?_⟩
  obtain rfl : n = 0 := by
    have hLt := (List.getElem?_eq_some_iff.mp hGets.at_).1
    simpa [connectTo] using hLt
  obtain rfl : { inputs := [5], operation := .connect } = i := Option.some.inj hGets.at_
  obtain rfl := Except.ok.inj hGets.before
  exact ⟨by decide, fun hClosing => by cases hClosing⟩

/-- A connect without inputs is indexed out of bounds. -/
theorem connect_without_role_panics :
    Compiler.compileUsize Sv2.wire (2 ^ 56) (connectTo []) = .error (.panic .indexOutOfBounds) ∧
      ¬ AnswersFaults Sv2.wire (2 ^ 56) (connectTo []) :=
  ⟨rfl, fun hAnswers => hAnswers.noPanic .indexOutOfBounds rfl⟩

end Stratamoto
