import Stratamoto.Library.Brackets

/-!
# Stratamoto — programs

The data model of the intermediate language: protocols, the types of a
program's values (`Variable`), the operations with their typing tables, and
programs. Machine words keep their widths; `usize` indices and lengths are
`Nat`, vectors are lists, and a `Duration` is its number of nanoseconds.

The tables are the ones of `operation.rs`, one equation per row. Beside them
stand the two views of an operation the verification is stated in: its bracket
token (`Operation.bracket`) and the number of variables it defines.
-/

namespace Stratamoto

open Brackets

/-! ## Protocols and variables -/

/-- The subprotocol a connection is set up for. -/
inductive Protocol where
  | mining
  | jobDeclaration
  | templateDistribution
  deriving DecidableEq, Repr

def Protocol.id : Protocol → UInt8
  | .mining => 0
  | .jobDeclaration => 1
  | .templateDistribution => 2

def Protocol.toString : Protocol → String
  | .mining => "mining"
  | .jobDeclaration => "job-declaration"
  | .templateDistribution => "template-distribution"

/-- The type of a value produced by an operation. -/
inductive Variable where
  | nop
  | role
  | connection
  | setupAttempt (protocol : Protocol)
  | session (protocol : Protocol)
  | version
  | flags
  | port
  | str
  | bytes
  | duration
  | mutSetupConnection
  | constSetupConnection (protocol : Protocol)
  deriving DecidableEq, Repr

/-! ## Operations -/

/-- A single action a program can perform on a deployment. -/
inductive Operation where
  | nop (outputs innerOutputs : Nat)
  | loadRole (i : Nat)
  | loadConnection (i : Nat)
  | loadVersion (v : UInt16)
  | loadFlags (v : UInt32)
  | loadPort (v : UInt16)
  | loadStr (v : String)
  | loadBytes (v : List UInt8)
  | loadDuration (v : Nat)
  | connect
  | beginBuildSetupConnection
  | setVersions
  | setFlags
  | setEndpoint
  | setDeviceInfo
  | endBuildSetupConnection (protocol : Protocol)
  | sendSetupConnection (protocol : Protocol)
  | beginOnSetupSuccess (protocol : Protocol)
  | endOnSetupSuccess
  | sendRawFrame (messageType : UInt8) (extensionType : UInt16)
  | advanceTime
  | probe
  deriving DecidableEq, Repr

/-- Why the builder rejects an instruction or a program. -/
inductive ProgramValidationError where
  | invalidNumberOfInputs (is expected : Nat)
  | invalidVariableType (is expected : Variable)
  | variableNotDefined (i : Nat)
  | roleNotFound (i : Nat)
  | connectionNotFound (i : Nat)
  | invalidBlockEnd (begin_ end_ : Operation)
  | unfinishedBlock (op : Operation)
  deriving DecidableEq, Repr

namespace Operation

def isBlockBegin : Operation → Bool
  | .beginBuildSetupConnection | .beginOnSetupSuccess _ => true
  | _ => false

def isBlockEnd : Operation → Bool
  | .endBuildSetupConnection _ | .endOnSetupSuccess => true
  | _ => false

def isMatchingBlockBegin : Operation → Operation → Bool
  | .endBuildSetupConnection _, .beginBuildSetupConnection => true
  | .endOnSetupSuccess, .beginOnSetupSuccess _ => true
  | _, _ => false

def isNop : Operation → Bool
  | .nop _ _ => true
  | _ => false

/-- Variables produced in the scope the operation is written in. A nop has as many
as it says; where there is no memory for them, `Memory` (in `IR/Memory`) says so. -/
def getOutputVariables : Operation → List Variable
  | .nop outputs _ => List.replicate outputs .nop
  | .loadRole _ => [.role]
  | .loadConnection _ => [.connection]
  | .loadVersion _ => [.version]
  | .loadFlags _ => [.flags]
  | .loadPort _ => [.port]
  | .loadStr _ => [.str]
  | .loadBytes _ => [.bytes]
  | .loadDuration _ => [.duration]
  | .connect => [.connection]
  | .endBuildSetupConnection protocol => [.constSetupConnection protocol]
  | .sendSetupConnection protocol => [.setupAttempt protocol]
  | .beginBuildSetupConnection | .beginOnSetupSuccess _ | .endOnSetupSuccess | .setVersions
  | .setFlags | .setEndpoint | .setDeviceInfo | .sendRawFrame _ _ | .advanceTime | .probe => []

/-- Variables produced inside the scope a block beginning opens. -/
def getInnerOutputVariables : Operation → List Variable
  | .nop _ innerOutputs => List.replicate innerOutputs .nop
  | .beginBuildSetupConnection => [.mutSetupConnection]
  | .beginOnSetupSuccess protocol => [.session protocol]
  | _ => []

def getInputVariables : Operation → List Variable
  | .connect => [.role]
  | .setVersions => [.mutSetupConnection, .version, .version]
  | .setFlags => [.mutSetupConnection, .flags]
  | .setEndpoint => [.mutSetupConnection, .str, .port]
  | .setDeviceInfo => [.mutSetupConnection, .str, .str, .str, .str]
  | .endBuildSetupConnection _ => [.mutSetupConnection]
  | .sendSetupConnection protocol => [.connection, .constSetupConnection protocol]
  | .beginOnSetupSuccess protocol => [.setupAttempt protocol]
  | .endOnSetupSuccess => []
  | .sendRawFrame _ _ => [.connection, .bytes]
  | .advanceTime => [.duration]
  | .nop _ _ | .loadRole _ | .loadConnection _ | .loadVersion _ | .loadFlags _ | .loadPort _
  | .loadStr _ | .loadBytes _ | .loadDuration _ | .beginBuildSetupConnection | .probe => []

def numOutputs (op : Operation) : Nat := op.getOutputVariables.length

def numInnerOutputs (op : Operation) : Nat := op.getInnerOutputVariables.length

def numInputs (op : Operation) : Nat := op.getInputVariables.length

def checkInputTypes (op : Operation) (got : List Variable) :
    Except ProgramValidationError Unit :=
  let expected := op.getInputVariables
  if got.length ≠ expected.length then
    .error (.invalidNumberOfInputs got.length expected.length)
  else
    match (got.zip expected).find? fun p => p.1 ≠ p.2 with
    | some (got, expected) => .error (.invalidVariableType got expected)
    | none => .ok ()

/-! ## Brackets -/

/-- The two kinds of block: a message under construction, and what runs only
once a setup was agreed. -/
inductive BlockKind where
  | build
  | success
  deriving DecidableEq, Repr

/-- The bracket token of an operation. -/
def bracket : Operation → Token BlockKind
  | .beginBuildSetupConnection => .opening .build
  | .endBuildSetupConnection _ => .closing .build
  | .beginOnSetupSuccess _ => .opening .success
  | .endOnSetupSuccess => .closing .success
  | _ => .plain

/-- Variables an operation defines, inner ones included. -/
def numDefined (op : Operation) : Nat := op.numOutputs + op.numInnerOutputs

theorem isBlockBegin_iff {op : Operation} :
    op.isBlockBegin = true ↔ ∃ k, op.bracket = .opening k := by
  cases op <;> simp [isBlockBegin, bracket]

theorem isBlockEnd_iff {op : Operation} :
    op.isBlockEnd = true ↔ ∃ k, op.bracket = .closing k := by
  cases op <;> simp [isBlockEnd, bracket]

theorem bracket_plain {op : Operation} (h : op.bracket = .plain) :
    op.isBlockBegin = false ∧ op.isBlockEnd = false := by
  cases op <;> first | exact ⟨rfl, rfl⟩ | cases h

theorem bracket_opening {op : Operation} {k : BlockKind} (h : op.bracket = .opening k) :
    op.isBlockBegin = true ∧ op.isBlockEnd = false := by
  cases op <;> first | exact ⟨rfl, rfl⟩ | cases h

theorem bracket_closing {op : Operation} {k : BlockKind} (h : op.bracket = .closing k) :
    op.isBlockBegin = false ∧ op.isBlockEnd = true := by
  cases op <;> first | exact ⟨rfl, rfl⟩ | cases h

theorem isMatchingBlockBegin_iff {op begin_ : Operation} :
    op.isMatchingBlockBegin begin_ = true ↔
      ∃ k, op.bracket = .closing k ∧ begin_.bracket = .opening k := by
  cases op <;> cases begin_ <;> simp [isMatchingBlockBegin, bracket]

theorem checkInputTypes_ok_iff {op : Operation} {got : List Variable} :
    op.checkInputTypes got = .ok () ↔ got = op.getInputVariables := by
  rw [checkInputTypes]
  by_cases hLen : got.length = op.getInputVariables.length
  · -- of equal lengths, the lists are the same when no pair of the zip differs
    have hFind : ((got.zip op.getInputVariables).find? fun p => p.1 ≠ p.2) = none ↔
        got = op.getInputVariables := by
      rw [List.find?_eq_none]
      constructor
      · intro h
        refine List.ext_getElem hLen fun i h₁ h₂ => ?_
        have hMem : (got[i], op.getInputVariables[i]) ∈ got.zip op.getInputVariables := by
          rw [List.mem_iff_getElem]
          exact ⟨i, by rw [List.length_zip]; omega, by simp⟩
        simpa using h _ hMem
      · rintro h ⟨a, b⟩ hMem
        rw [h] at hMem
        obtain ⟨i, hi, hEq⟩ := List.mem_iff_getElem.mp hMem
        simp only [List.getElem_zip, Prod.mk.injEq] at hEq
        simp [← hEq.1, ← hEq.2]
    rw [if_neg (by simpa using hLen)]
    split
    · rename_i hSome
      have hNe : got ≠ op.getInputVariables := fun h => by
        rw [hFind.mpr h] at hSome
        cases hSome
      simp [hNe]
    · rename_i hNone
      simp [hFind.mp hNone]
  · rw [if_pos hLen]
    have : got ≠ op.getInputVariables := fun h => hLen (by rw [h])
    simp [this]

end Operation

/-! ## Instructions and programs -/

/-- An operation with the variables it consumes, as indices into the list of
variables defined by the instructions before it. -/
structure Instruction where
  inputs : List Nat
  operation : Operation
  deriving DecidableEq, Repr

/-- The scope an instruction is written in. -/
inductive InstructionContext where
  | global
  | buildSetupConnection
  | onSetupSuccess
  deriving DecidableEq, Repr

/-- The context a block beginning opens. -/
def Instruction.enteredContextAfterExecution (i : Instruction) : Option InstructionContext :=
  match i.operation with
  | .beginBuildSetupConnection => some .buildSetupConnection
  | .beginOnSetupSuccess _ => some .onSetupSuccess
  | _ => none

/-- The state a program is executed against. -/
structure ProgramContext where
  numRoles : Nat
  numConnections : Nat
  seed : UInt64
  deriving DecidableEq, Repr

/-- A sequence of operations to perform on a deployment. -/
structure Program where
  context : ProgramContext
  instructions : List Instruction
  deriving DecidableEq, Repr

end Stratamoto
