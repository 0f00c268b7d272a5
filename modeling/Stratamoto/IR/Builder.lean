import Mathlib.Data.Finset.Basic
import Stratamoto.IR.Operation

/-!
# Stratamoto — the program builder

`builder.rs` as a state machine: a `ProgramBuilder` value, and `append` as a
function from a state and an instruction to a verdict and the next state. The
state survives a rejected instruction, so a rejection returns the state it
leaves behind, and a violated `expect` or index is a value of its own
(`Panic`) rather than a missing result.

`append` is cut at its comments: the checks that only read the state
(`checkInstruction`), the end of a block (`closeBlock`), and the definitions
(`define`). The stack of active scopes is kept innermost first. The vectors grow as
long as anything is appended to them; `Memory` (in `IR/Memory`) is where they do not.
-/

namespace Stratamoto

/-- How a call can fail to return. -/
inductive Panic where
  | expect (message : String)
  | indexOutOfBounds
  deriving DecidableEq, Repr

/-- The largest `usize`. -/
def usizeMax : Nat := 0xffffffffffffffff

/-- The largest `isize`, and the most bytes that a vector may take. -/
def isizeMax : Nat := 0x7fffffffffffffff

/-- A sum of `usize`s. -/
def checkedAdd (a b : Nat) : Except Panic Nat :=
  if a + b ≤ usizeMax then pure (a + b) else .error (.expect "attempt to add with overflow")

/-- A difference of `usize`s. -/
def checkedSub (a b : Nat) : Except Panic Nat :=
  if b ≤ a then pure (a - b) else .error (.expect "attempt to subtract with overflow")

theorem checkedAdd_ok {a b : Nat} (h : a + b ≤ usizeMax) : checkedAdd a b = .ok (a + b) := if_pos h

theorem checkedSub_ok {a b : Nat} (h : b ≤ a) : checkedSub a b = .ok (a - b) := if_pos h

theorem eq_of_checkedAdd {a b c : Nat} (h : checkedAdd a b = .ok c) : c = a + b := by
  unfold checkedAdd at h
  split at h
  · exact (Except.ok.inj h).symm
  · cases h

structure Scope where
  /-- Index of the instruction that opened the scope. -/
  begin_ : Option Nat
  id : Nat
  context : InstructionContext
  deriving DecidableEq, Repr

structure ScopedVariable where
  var : Variable
  scopeId : Nat
  deriving DecidableEq, Repr

structure IndexedVariable where
  var : Variable
  index : Nat
  deriving DecidableEq, Repr

/-- Builds a program, rejecting instructions whose inputs are of the wrong
type or out of scope. -/
structure ProgramBuilder where
  context : ProgramContext
  activeScopes : List Scope
  activeScopesSet : Finset Nat
  scopeCounter : Nat
  vars : List ScopedVariable
  instructions : List Instruction
  deriving DecidableEq

namespace ProgramBuilder

/-! ## Scopes -/

def enterScope (b : ProgramBuilder) (begin_ : Option Nat) (context : InstructionContext) :
    ProgramBuilder :=
  { b with
    scopeCounter := b.scopeCounter + 1
    activeScopes := ⟨begin_, b.scopeCounter + 1, context⟩ :: b.activeScopes
    activeScopesSet := insert (b.scopeCounter + 1) b.activeScopesSet }

def exitScope (b : ProgramBuilder) : Except Panic (Scope × ProgramBuilder) :=
  match b.activeScopes with
  | [] => .error (.expect "the global scope is never exited")
  | exited :: rest =>
    .ok (exited, { b with
      activeScopes := rest
      activeScopesSet := b.activeScopesSet.erase exited.id })

def currentScope (b : ProgramBuilder) : Except Panic Scope :=
  match b.activeScopes with
  | [] => .error (.expect "the global scope is never exited")
  | scope :: _ => .ok scope

def new (context : ProgramContext) : ProgramBuilder :=
  enterScope
    { context, activeScopes := [], activeScopesSet := ∅, scopeCounter := 0,
      vars := [], instructions := [] }
    none .global

/-! ## What can be asked of a builder -/

def variableCount (b : ProgramBuilder) : Nat := b.vars.length

def currentContext (b : ProgramBuilder) : Except Panic InstructionContext :=
  b.currentScope.map Scope.context

def getVariable (b : ProgramBuilder) (index : Nat) : Option IndexedVariable :=
  match b.vars[index]? with
  | none => none
  | some v =>
    if v.scopeId ∈ b.activeScopesSet then some ⟨v.var, index⟩ else none

/-! ## Appending -/

/-- The types of the inputs, all of which have to be in scope. -/
def inputVars (b : ProgramBuilder) : List Nat → Except ProgramValidationError (List Variable)
  | [] => .ok []
  | index :: rest =>
    match b.vars[index]? with
    | none => .error (.variableNotDefined index)
    | some v =>
      if v.scopeId ∈ b.activeScopesSet then
        (b.inputVars rest).map (v.var :: ·)
      else
        .error (.variableNotDefined index)

/-- A role or a connection has to be one the context has. -/
def checkContext (b : ProgramBuilder) : Operation → Except ProgramValidationError Unit
  | .loadRole i => if i ≥ b.context.numRoles then .error (.roleNotFound i) else .ok ()
  | .loadConnection i =>
    if i ≥ b.context.numConnections then .error (.connectionNotFound i) else .ok ()
  | _ => .ok ()

/-- The checks `append` makes before it changes anything. -/
def checkInstruction (b : ProgramBuilder) (i : Instruction) :
    Except ProgramValidationError Unit := do
  if i.operation.numInputs ≠ i.inputs.length then
    .error (.invalidNumberOfInputs i.inputs.length i.operation.numInputs)
  let inputVars ← b.inputVars i.inputs
  i.operation.checkInputTypes inputVars
  b.checkContext i.operation

/-- A block end leaves the innermost scope, then checks what it ended. -/
def closeBlock (b : ProgramBuilder) (op : Operation) :
    Except Panic (Except ProgramValidationError Unit × ProgramBuilder) :=
  if op.isBlockEnd then do
    -- the scope is left before the kinds are compared, and stays left where they differ
    let (exited, b) ← b.exitScope
    match exited.begin_ with
    | none => .error (.expect "a non global scope has a begin")
    | some n =>
      match b.instructions[n]? with
      | none => .error .indexOutOfBounds
      | some begin_ =>
        if op.isMatchingBlockBegin begin_.operation then
          .ok (.ok (), b)
        else
          .ok (.error (.invalidBlockEnd begin_.operation op), b)
  else
    .ok (.ok (), b)

/-- The scope of an instruction's outputs. Nop variables are placed in scope 0,
which is never active, so they can never be used as an input. -/
def outputScopeId (b : ProgramBuilder) (op : Operation) : Except Panic Nat :=
  if op.isNop then .ok 0 else b.currentScope.map Scope.id

def addVariables (b : ProgramBuilder) (scopeId : Nat) (vars : List Variable) : ProgramBuilder :=
  { b with vars := b.vars ++ vars.map (ScopedVariable.mk · scopeId) }

/-- A block begin enters the scope of its block. -/
def openBlock (b : ProgramBuilder) (i : Instruction) : Except Panic ProgramBuilder :=
  if i.operation.isBlockBegin then
    match i.enteredContextAfterExecution with
    | none => .error (.expect "a block beginning enters a context")
    | some context => .ok (b.enterScope (some b.instructions.length) context)
  else
    .ok b

/-- Record the variables an accepted instruction defines, outputs in the
current scope and inner outputs in the one it opens. -/
def define (b : ProgramBuilder) (i : Instruction) :
    Except Panic (List IndexedVariable × ProgramBuilder) := do
  let firstNew := b.vars.length
  let scopeId ← b.outputScopeId i.operation
  let b ← (b.addVariables scopeId i.operation.getOutputVariables).openBlock i
  -- a nop's inner variables go to scope 0 like its outputs, a begin's to the one it opened
  let innerScopeId := if i.operation.isNop then 0 else b.scopeCounter
  let b := b.addVariables innerScopeId i.operation.getInnerOutputVariables
  let b := { b with instructions := b.instructions ++ [i] }
  .ok ((b.vars.drop firstNew).mapIdx fun n v => ⟨v.var, firstNew + n⟩, b)

/-- Append an instruction, checking single assignment form and input types. -/
def append (b : ProgramBuilder) (i : Instruction) :
    Except Panic (Except ProgramValidationError (List IndexedVariable) × ProgramBuilder) :=
  match b.checkInstruction i with
  | .error e => .ok (.error e, b)
  | .ok () => do
    let (closed, b) ← b.closeBlock i.operation
    match closed with
    -- the builder is the one without the block, not the one before the call
    | .error e => .ok (.error e, b)
    | .ok () =>
      let (vars, b) ← b.define i
      .ok (.ok vars, b)

/-- Append an operation, resolving its inputs from the given variables. -/
def appendOp (b : ProgramBuilder) (op : Operation) (inputs : List IndexedVariable) :
    Except Panic (Except ProgramValidationError (List IndexedVariable) × ProgramBuilder) :=
  b.append ⟨inputs.map IndexedVariable.index, op⟩

/-! ## Whole programs -/

/-- Append the instructions in order, stopping at the first rejection. -/
def replay (b : ProgramBuilder) :
    List Instruction → Except Panic (Except ProgramValidationError ProgramBuilder)
  | [] => .ok (.ok b)
  | i :: rest => do
    let (verdict, b) ← b.append i
    match verdict with
    | .error e => .ok (.error e)
    | .ok _ => b.replay rest

/-- Rebuild the state a program is in after the given instructions. -/
def fromPrefix (context : ProgramContext) (instructions : List Instruction) :
    Except Panic (Except ProgramValidationError ProgramBuilder) :=
  (new context).replay instructions

def fromProgram (program : Program) :
    Except Panic (Except ProgramValidationError ProgramBuilder) :=
  fromPrefix program.context program.instructions

def finalize (b : ProgramBuilder) : Except Panic (Except ProgramValidationError Program) :=
  match b.activeScopes.head?.bind Scope.begin_ with
  | some n =>
    match b.instructions[n]? with
    | none => .error .indexOutOfBounds
    | some begin_ => .ok (.error (.unfinishedBlock begin_.operation))
  | none => .ok (.ok ⟨b.context, b.instructions⟩)

end ProgramBuilder

/-- `from_program` followed by `finalize`. -/
def Program.validate (p : Program) : Except Panic (Except ProgramValidationError Program) := do
  match ← ProgramBuilder.fromProgram p with
  | .error e => .ok (.error e)
  | .ok b => b.finalize

def Program.isStaticallyValid (p : Program) : Except Panic Bool := do
  match ← p.validate with
  | .error _ => .ok false
  | .ok _ => .ok true

/-- What a test case asks of a program before it is compiled. -/
def TestCase.admit (p : Program) : Except Panic (Except String Unit) := do
  match ← p.isStaticallyValid with
  | false => .ok (.error "program is not statically valid")
  | true => .ok (.ok ())

end Stratamoto
