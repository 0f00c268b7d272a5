import Stratamoto.IR.Panics

/-!
# Stratamoto — validating and compiling in bounded memory

A nop is a few bytes of a program however many variables it defines, and so is the
number of connections of a context. What is made of them has to be allocated: the
builder extends its vector by the variables of each instruction, the compiler puts
the connections into a set. Neither returns where the capacity overflows. What the
compiler makes of a program that was validated (a value for each variable, an action or
two for an instruction) is taken to have room.

* `Memory` — what there is memory for;
* `Program.validateIn` — validation with it;
* `validateIn_ok_iff_wellTyped` — what is validated is well typed and is held;
* `compileUsize_eq_compile` — the compiler of what is validated, and whose
  connections fit, is the one without bounds;
* `compileUsize_of_valid` — valid programs in the compiler.
-/

namespace Stratamoto

open Brackets Operation

/-- What a program is validated and compiled with. How far a vector grows depends on
all it was extended by, so this is asked of the instructions that were appended. -/
structure Memory where
  /-- The variables of the instructions are allocated, one instruction after the other. -/
  holds : List Instruction → Bool
  /-- The most connections of a context that a set has room for. -/
  connections : Nat
  /-- What is held can be counted. -/
  countable : ∀ is, holds is = true → connections + (definitions is).length ≤ usizeMax

/-- The memory that no machine exceeds: a variable with its scope takes sixteen bytes
of a vector, and a set fills seven eighths of its `2 ^ 59` buckets. -/
def Memory.largest : Memory where
  holds is := decide (16 * (definitions is).length ≤ isizeMax)
  connections := 7 * 2 ^ 56
  countable is h := by
    have := of_decide_eq_true h
    unfold isizeMax at this
    unfold usizeMax
    omega

/-- There is memory for the variables of every instruction in turn. -/
def Memory.Holds (memory : Memory) (is : List Instruction) : Prop :=
  ∀ n < is.length, memory.holds (is.take (n + 1)) = true

/-! ## Validation -/

namespace ProgramBuilder

variable (memory : Memory)

def appendIn (b : ProgramBuilder) (i : Instruction) :
    Except Panic (Except ProgramValidationError (List IndexedVariable) × ProgramBuilder) := do
  let (verdict, b) ← b.append i
  match verdict with
  | .error e => .ok (.error e, b)
  | .ok vars =>
    if memory.holds b.instructions then .ok (.ok vars, b)
    else .error (.expect "capacity overflow")

def replayIn (b : ProgramBuilder) :
    List Instruction → Except Panic (Except ProgramValidationError ProgramBuilder)
  | [] => .ok (.ok b)
  | i :: rest => do
    let (verdict, b) ← b.appendIn memory i
    match verdict with
    | .error e => .ok (.error e)
    | .ok _ => b.replayIn rest

def fromProgramIn (program : Program) :
    Except Panic (Except ProgramValidationError ProgramBuilder) :=
  (new program.context).replayIn memory program.instructions

end ProgramBuilder

def Program.validateIn (memory : Memory) (p : Program) :
    Except Panic (Except ProgramValidationError Program) := do
  match ← ProgramBuilder.fromProgramIn memory p with
  | .error e => .ok (.error e)
  | .ok b => b.finalize

def Program.isStaticallyValidIn (memory : Memory) (p : Program) : Except Panic Bool := do
  match ← p.validateIn memory with
  | .error _ => .ok false
  | .ok _ => .ok true

def TestCase.admitIn (memory : Memory) (p : Program) : Except Panic (Except String Unit) := do
  match ← p.isStaticallyValidIn memory with
  | false => .ok (.error "program is not statically valid")
  | true => .ok (.ok ())

section Validation

variable {memory : Memory}

theorem Memory.holds_cons_iff {is : List Instruction} {i : Instruction} {l : List Instruction} :
    (∀ n < (i :: l).length, memory.holds (is ++ (i :: l).take (n + 1)) = true) ↔
      memory.holds (is ++ [i]) = true ∧
        ∀ n < l.length, memory.holds (is ++ [i] ++ l.take (n + 1)) = true := by
  constructor
  · intro h
    refine ⟨by simpa using h 0 (by simp), fun n hn => ?_⟩
    simpa using h (n + 1) (by simpa using hn)
  · rintro ⟨hFirst, hRest⟩ n hn
    cases n with
    | zero => simpa using hFirst
    | succ n => simpa using hRest n (by simpa using hn)

/-- A replay in memory goes where the one without bounds goes, as far as it is held. -/
theorem replayIn_ok_iff {ctx : ProgramContext} {is : List Instruction} {s : List (Nat × BlockKind)}
    (hs : openStack (brackets is) = some s) {l : List Instruction} {b : ProgramBuilder} :
    (builderAt ctx is s).replayIn memory l = .ok (.ok b) ↔
      (builderAt ctx is s).replay l = .ok (.ok b) ∧
        ∀ n < l.length, memory.holds (is ++ l.take (n + 1)) = true := by
  -- on what is left to append, behind any prefix that was appended
  induction l generalizing is s with
  | nil => simp [ProgramBuilder.replayIn, ProgramBuilder.replay]
  | cons i l ih =>
    rw [ProgramBuilder.replayIn, ProgramBuilder.replay, ProgramBuilder.appendIn,
      Memory.holds_cons_iff]
    rcases append_cases ctx hs i with ⟨-, s', vars, hStep, hAppend⟩ |
      ⟨-, e, hAppend⟩ | ⟨-, n, k, k', s', e, -, -, -, hAppend⟩ | ⟨-, -, hAppend⟩
    · simp only [hAppend, bind, Except.bind]
      by_cases hHolds : memory.holds (is ++ [i]) = true
      · simp only [builderAt, hHolds, if_true, true_and]
        exact ih ((openStack_brackets_snoc hs i).trans hStep)
      · simp [builderAt, hHolds]
    -- what is not appended is not allocated
    all_goals simp [hAppend, bind, Except.bind]

/-- Validation in memory. -/
theorem validateIn_ok_iff {p q : Program} :
    p.validateIn memory = .ok (.ok q) ↔
      p.validate = .ok (.ok q) ∧ memory.Holds p.instructions := by
  have hReplay : ∀ b, ProgramBuilder.fromProgramIn memory p = .ok (.ok b) ↔
      ProgramBuilder.fromProgram p = .ok (.ok b) ∧ memory.Holds p.instructions := by
    intro b
    rw [ProgramBuilder.fromProgramIn, ProgramBuilder.fromProgram, ProgramBuilder.fromPrefix,
      ← builderAt_nil, replayIn_ok_iff rfl]
    rfl
  unfold Program.validateIn Program.validate
  -- the two replay differently and finalize in the same way
  constructor
  · intro h
    cases hIn : ProgramBuilder.fromProgramIn memory p with
    | error panic =>
      rw [hIn] at h
      cases h
    | ok verdict =>
      cases verdict with
      | error e =>
        rw [hIn] at h
        cases h
      | ok b =>
        obtain ⟨hProgram, hHolds⟩ := (hReplay b).mp hIn
        rw [hIn] at h
        rw [hProgram]
        exact ⟨h, hHolds⟩
  · rintro ⟨h, hHolds⟩
    cases hProgram : ProgramBuilder.fromProgram p with
    | error panic =>
      rw [hProgram] at h
      cases h
    | ok verdict =>
      cases verdict with
      | error e =>
        rw [hProgram] at h
        cases h
      | ok b =>
        rw [hProgram] at h
        rw [(hReplay b).mpr ⟨hProgram, hHolds⟩]
        exact h

/-- **Validity is the typing discipline, as far as there is memory**: a program
replays through a builder and finalizes exactly when it is well typed and the
variables of all its instructions are allocated. -/
theorem validateIn_ok_iff_wellTyped (memory : Memory) (p : Program) :
    (∃ q, p.validateIn memory = .ok (.ok q)) ↔
      WellTyped p.context p.instructions ∧ memory.Holds p.instructions := by
  simp only [validateIn_ok_iff, exists_and_right, validate_ok_iff_wellTyped]

theorem isStaticallyValidIn_iff {p : Program} :
    p.isStaticallyValidIn memory = .ok true ↔
      p.isStaticallyValid = .ok true ∧ memory.Holds p.instructions := by
  have hValid : p.isStaticallyValidIn memory = .ok true ↔
      ∃ q, p.validateIn memory = .ok (.ok q) := by
    rw [Program.isStaticallyValidIn]
    cases p.validateIn memory with
    | error panic => simp [bind, Except.bind]
    | ok verdict => cases verdict <;> simp [bind, Except.bind]
  rw [hValid, isStaticallyValid_iff]
  simp only [validateIn_ok_iff, exists_and_right, validate_ok_iff_wellTyped]

/-- A nop by itself, which is well typed however many variables it defines. -/
def singleNop (outputs : Nat) : Program where
  context := { numRoles := 0, numConnections := 0, seed := 0 }
  instructions := [{ inputs := [], operation := .nop outputs 0 }]

theorem wellTyped_singleNop (outputs : Nat) :
    WellTyped (singleNop outputs).context (singleNop outputs).instructions :=
  (validate_ok_iff_wellTyped (singleNop outputs)).mp ⟨_, rfl⟩

theorem holds_of_singleNop {outputs : Nat} {q : Program}
    (h : (singleNop outputs).validateIn memory = .ok (.ok q)) :
    memory.holds [⟨[], .nop outputs 0⟩] = true :=
  (validateIn_ok_iff.mp h).2 0 Nat.zero_lt_one

theorem largest_holds_nop (outputs : Nat) :
    Memory.largest.holds [⟨[], .nop outputs 0⟩] = decide (16 * outputs ≤ isizeMax) := by
  have hLength : (definitions [⟨[], .nop outputs 0⟩]).length = outputs := by
    rw [← List.nil_append [_], definitions_snoc, List.length_append, length_definitions_of]
    simp [numDefined, numOutputs, numInnerOutputs, getOutputVariables, getInnerOutputVariables]
  show decide (16 * (definitions [⟨[], .nop outputs 0⟩]).length ≤ isizeMax) = _
  rw [hLength]

/-- There is no memory for as many variables as a nop can say that it defines. -/
theorem largest_nop_is_not_validated :
    ¬ ∀ p : Program, (∃ q, p.validateIn .largest = .ok (.ok q)) ↔
      WellTyped p.context p.instructions := by
  intro h
  -- the nop meets the typing discipline, so it would be validated
  obtain ⟨q, hq⟩ := (h (singleNop usizeMax)).mpr (wellTyped_singleNop usizeMax)
  have hHolds := holds_of_singleNop hq
  rw [largest_holds_nop, decide_eq_true_eq] at hHolds
  unfold usizeMax isizeMax at hHolds
  omega

end Validation

/-! ## Compilation -/

/-- Each connection defines a variable. -/
theorem connects_le (is : List Instruction) : connects is ≤ (definitions is).length := by
  induction is using List.reverseRecOn with
  | nil => exact Nat.le_refl _
  | append_singleton is i ih =>
    have hOne : (if i.operation = .connect then 1 else 0) ≤ i.operation.numDefined := by
      split
      · rename_i hOp
        rw [hOp]
        exact Nat.le_refl _
      · exact Nat.zero_le _
    rw [connects_snoc, definitions_snoc, List.length_append, length_definitions_of]
    omega

section Compilation

variable {S : Sv2} {ctx : ProgramContext}

/-- What is held is counted without an overflow. -/
theorem Lowered.overflows_eq {is : List Instruction} {s : List (Nat × BlockKind)} {c : Compiler}
    (h : Lowered S ctx is s c) {i : Instruction}
    (hSum : ctx.numConnections + (definitions (is ++ [i])).length ≤ usizeMax) :
    c.overflows i = false := by
  have hConnects := connects_le (is ++ [i])
  have hConnections := h.connections
  rw [connects_snoc] at hConnects
  unfold Compiler.overflows
  -- a nop counts its variables, a connect its connection, and nothing else is counted
  split
  · rename_i outputs innerOutputs hOp
    rw [definitions_snoc, List.length_append, length_definitions_of, hOp] at hSum
    simp only [numDefined, numOutputs, numInnerOutputs, getOutputVariables,
      getInnerOutputVariables, List.length_replicate] at hSum
    rw [decide_eq_false_iff_not]
    omega
  · rename_i hOp
    rw [if_pos hOp] at hConnects
    rw [decide_eq_false_iff_not]
    omega
  · rfl

/-- The compiler with machine integers on the rest of a well typed program. -/
theorem compileInstructionsUsize_of_lowered (hS : S.Lawful) (rest : List Instruction)
    {is : List Instruction} {s t : List (Nat × BlockKind)} {c : Compiler}
    (h : Lowered S ctx is s c) (hs : openStack (brackets is) = some s)
    (ht : openStack (brackets (is ++ rest)) = some t) (hTyped : WellTypedPrefix ctx (is ++ rest))
    (hSum : ∀ n < rest.length,
      ctx.numConnections + (definitions (is ++ rest.take (n + 1))).length ≤ usizeMax) :
    c.compileInstructionsUsize S is.length rest = c.compileInstructions S is.length rest := by
  induction rest generalizing is s c with
  | nil => rfl
  | cons i rest ih =>
    have hFirst := hSum 0 (by simp)
    rw [List.take_succ_cons, List.take_zero] at hFirst
    rw [Compiler.compileInstructionsUsize, Compiler.compileInstructions,
      Compiler.compileInstructionUsize, h.overflows_eq hFirst]
    rw [List.append_cons] at ht hTyped
    obtain ⟨s', hs'⟩ := openStack_of_append (by rwa [brackets_append] at ht)
    have hPrefix : WellTypedPrefix ctx (is ++ [i]) := by
      have := hTyped.take (is ++ [i]).length
      rwa [List.take_left] at this
    obtain ⟨hBefore, hAfter⟩ := wellTypedPrefix_snoc.mp hPrefix
    by_cases hLong : ∃ v, i.SendsTooLong ctx is v
    · -- both stop at a setup that cannot be encoded
      obtain ⟨v, hLong⟩ := hLong
      rw [compileInstruction_tooLong hS h hAfter hLong]
      rfl
    · obtain ⟨c', hStep, hLowered⟩ :=
        compileInstruction_lowered hS hBefore h hs hs' hAfter (not_exists.mp hLong)
      have hRest := ih hLowered hs' ht hTyped fun n hn => by
        have := hSum (n + 1) (by simpa using hn)
        rwa [List.take_succ_cons, List.append_cons] at this
      rw [List.length_append, List.length_singleton] at hRest
      rw [hStep]
      exact hRest

variable {memory : Memory}

/-- A valid program whose connections fit is compiled as without bounds. -/
theorem compileUsize_eq_compile (hS : S.Lawful) {p : Program}
    (hValid : p.isStaticallyValidIn memory = .ok true)
    (hFits : p.context.numConnections ≤ memory.connections) :
    Compiler.compileUsize S memory.connections p = Compiler.compile S p := by
  obtain ⟨hStatic, hHolds⟩ := isStaticallyValidIn_iff.mp hValid
  have hTyped := isStaticallyValid_iff.mp hStatic
  have hRun := compileInstructionsUsize_of_lowered hS p.instructions (lowered_start S p.context)
    rfl (balanced_iff_openStack.mp hTyped.balanced) hTyped.instructions fun n hn => by
      -- each front of the program is held, and what is held can be counted
      have := memory.countable _ (hHolds n hn)
      rw [List.nil_append]
      omega
  rw [List.length_nil] at hRun
  rw [Compiler.compileUsize, if_neg (Nat.not_lt.mpr hFits), hRun]
  rfl

/-- Such a program compiles, or sends a string that is too long. -/
theorem compileUsize_cases (hS : S.Lawful) {p : Program}
    (hValid : p.isStaticallyValidIn memory = .ok true)
    (hFits : p.context.numConnections ≤ memory.connections) :
    (∃ compiled, Compiler.compileUsize S memory.connections p = .ok compiled) ∨
      ∃ v, Compiler.compileUsize S memory.connections p = .error (.error (.stringTooLong v)) := by
  rw [compileUsize_eq_compile hS hValid hFits]
  exact (compile_of_valid S hS p (isStaticallyValidIn_iff.mp hValid).1).2.2

theorem compileUsize_of_overfull {capacity : Nat} {p : Program}
    (h : capacity < p.context.numConnections) :
    Compiler.compileUsize S capacity p = .error (.panic (.expect "Hash table capacity overflow")) :=
  if_pos h

/-- What the compiler with machine integers compiles is compiled as without bounds. -/
theorem compile_of_compileUsize {capacity : Nat} {p : Program} {compiled : CompiledProgram}
    (h : Compiler.compileUsize S capacity p = .ok compiled) :
    Compiler.compile S p = .ok compiled := by
  rw [← compileUsize_eq fun panic hPanic => by cases h.symm.trans hPanic]
  exact h

theorem connections_of_compileUsize {capacity : Nat} {p : Program} {compiled : CompiledProgram}
    (h : Compiler.compileUsize S capacity p = .ok compiled) :
    p.context.numConnections ≤ capacity := by
  by_contra hNot
  rw [compileUsize_of_overfull (Nat.not_le.mp hNot)] at h
  cases h

/-- **Valid programs do not go wrong in the compiler**, unless their context has more
connections than a set can hold: then it panics. Else a statically valid program is
refused exactly for the first setup it sends that has a field too long for the wire,
and compiles otherwise. -/
theorem compileUsize_of_valid (S : Sv2) (hS : S.Lawful) (memory : Memory) (p : Program)
    (hValid : p.isStaticallyValidIn memory = .ok true) :
    (memory.connections < p.context.numConnections →
      Compiler.compileUsize S memory.connections p =
        .error (.panic (.expect "Hash table capacity overflow"))) ∧
    (p.context.numConnections ≤ memory.connections →
      (∀ v, Compiler.compileUsize S memory.connections p = .error (.error (.stringTooLong v)) ↔
        FirstTooLong p.context p.instructions v) ∧
      ((∃ compiled, Compiler.compileUsize S memory.connections p = .ok compiled) ↔
        ∀ v, ¬ FirstTooLong p.context p.instructions v) ∧
      ((∃ compiled, Compiler.compileUsize S memory.connections p = .ok compiled) ∨
        ∃ v, Compiler.compileUsize S memory.connections p =
          .error (.error (.stringTooLong v)))) := by
  refine ⟨fun hAbove => compileUsize_of_overfull hAbove, fun hFits => ?_⟩
  obtain ⟨hLong, hOk, -⟩ := compile_of_valid S hS p (isStaticallyValidIn_iff.mp hValid).1
  have hEq := compileUsize_eq_compile hS hValid hFits
  exact ⟨hEq ▸ hLong, hEq ▸ hOk, compileUsize_cases hS hValid hFits⟩

theorem compileUsize_of_valid_singleSetup :
    (∃ compiled, Compiler.compileUsize Sv2.wire Memory.largest.connections singleSetup =
        .ok compiled) ∨
      ∃ v, Compiler.compileUsize Sv2.wire Memory.largest.connections singleSetup =
        .error (.error (.stringTooLong v)) :=
  ((compileUsize_of_valid Sv2.wire Sv2.wire_lawful .largest singleSetup (by decide)).2
    (by decide)).2.2

/-- A program without instructions, and with more connections than a set holds. -/
def crowded : Program where
  context := { numRoles := 1, numConnections := 2 ^ 62, seed := 0 }
  instructions := []

theorem crowded_is_not_compiled :
    ¬ ∀ p : Program, p.isStaticallyValidIn .largest = .ok true →
      ((∃ compiled, Compiler.compileUsize Sv2.wire Memory.largest.connections p = .ok compiled) ↔
        ∀ v, ¬ FirstTooLong p.context p.instructions v) := by
  intro h
  obtain ⟨compiled, hCompiled⟩ := (h crowded rfl).mpr fun v hFirst => by
    obtain ⟨n, i, hi, -⟩ := hFirst
    cases hi
  rw [compileUsize_of_overfull (by decide)] at hCompiled
  cases hCompiled

end Compilation

end Stratamoto
