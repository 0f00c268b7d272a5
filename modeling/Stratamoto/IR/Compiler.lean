import Mathlib.Algebra.Group.Nat.Defs
import Mathlib.Data.Finset.Basic
import Mathlib.Data.List.AList
import Stratamoto.IR.Builder

/-!
# Stratamoto — the compiler

`compiler.rs` as a state machine: a `Compiler` value, and `compileInstruction`
as a function from a state and an instruction to the next state. A compilation
ends early in one of two ways (`Abort`): with a `CompilerError`, or with a
violated `expect` or index, which is kept apart from it.

The protocol crates are a parameter (`Sv2`): the wire types a setup is encoded
with, and the writer. `Sv2.Lawful` is what the compiler relies on, and
`Sv2.wire` the layout of the protocol itself, which has it.

The stack of open conditional blocks is kept innermost first, a `HashMap` is an
association list without duplicate keys, and a `HashSet` a finite set. Ids of
roles, connections, sessions, actions and variables are all `usize` in the
source, and `Nat` here: a set has room for whatever a context says, and no sum
overflows. `compileUsize` (in `IR/Panics`) has both bounds, and
`compileUsize_eq_compile` (in `IR/Memory`) says where they make no difference.
-/

namespace Stratamoto

/-! ## The protocol crates -/

/-- The subprotocols as the wire type spells them. -/
inductive WireProtocol where
  | miningProtocol
  | jobDeclarationProtocol
  | templateDistributionProtocol
  deriving DecidableEq, Repr

/-- The wire message, over the type of its string fields. -/
structure SetupConnection (Str0255 : Type) where
  protocol : WireProtocol
  minVersion : UInt16
  maxVersion : UInt16
  flags : UInt32
  endpointHost : Str0255
  endpointPort : UInt16
  vendor : Str0255
  hardwareVersion : Str0255
  firmware : Str0255
  deviceId : Str0255
  deriving DecidableEq, Repr

/-- What the protocol crates provide. -/
structure Sv2 where
  Str0255 : Type
  protocol : UInt8 → Option WireProtocol
  str0255 : String → Option Str0255
  messageTypeSetupConnection : UInt8
  getSize : SetupConnection Str0255 → Nat
  /-- Write a message over a buffer. -/
  toWriter : SetupConnection Str0255 → List UInt8 → Except String (List UInt8)

/-- What the compiler relies on: the ids of the three protocols convert, a
`Str0255` holds exactly the strings of at most 255 bytes, and a message can be
written over a buffer of its size. -/
structure Sv2.Lawful (S : Sv2) : Prop where
  protocol : S.protocol 0 = some .miningProtocol ∧ S.protocol 1 = some .jobDeclarationProtocol ∧
    S.protocol 2 = some .templateDistributionProtocol
  str0255 : ∀ s : String, (∃ w, S.str0255 s = some w) ↔ s.utf8ByteSize ≤ 255
  toWriter : ∀ m buffer, buffer.length = S.getSize m → ∃ bytes, S.toWriter m buffer = .ok bytes

def WireProtocol.id : WireProtocol → UInt8
  | .miningProtocol => 0
  | .jobDeclarationProtocol => 1
  | .templateDistributionProtocol => 2

/-- A number of `n` bytes in little endian. -/
def littleEndian : Nat → Nat → List UInt8
  | 0, _ => []
  | n + 1, v => UInt8.ofNat (v % 256) :: littleEndian n (v / 256)

/-- A string with its length in front. -/
def str0255Bytes (s : { s : String // s.utf8ByteSize ≤ 255 }) : List UInt8 :=
  UInt8.ofNat s.val.utf8ByteSize :: s.val.toUTF8.data.toList

/-- The fields of a setup in the order and the widths of the protocol. -/
def SetupConnection.bytes
    (m : SetupConnection { s : String // s.utf8ByteSize ≤ 255 }) : List UInt8 :=
  [m.protocol.id] ++ littleEndian 2 m.minVersion.toNat ++ littleEndian 2 m.maxVersion.toNat ++
    littleEndian 4 m.flags.toNat ++ str0255Bytes m.endpointHost ++
    littleEndian 2 m.endpointPort.toNat ++ str0255Bytes m.vendor ++
    str0255Bytes m.hardwareVersion ++ str0255Bytes m.firmware ++ str0255Bytes m.deviceId

/-- The layout of the protocol. -/
def Sv2.wire : Sv2 where
  Str0255 := { s : String // s.utf8ByteSize ≤ 255 }
  protocol
    | 0 => some .miningProtocol
    | 1 => some .jobDeclarationProtocol
    | 2 => some .templateDistributionProtocol
    | _ => none
  str0255 s := if h : s.utf8ByteSize ≤ 255 then some ⟨s, h⟩ else none
  messageTypeSetupConnection := 0x00
  getSize m := m.bytes.length
  toWriter m buffer :=
    if m.bytes.length ≤ buffer.length then .ok (m.bytes ++ buffer.drop m.bytes.length)
    else .error "WriteError"

theorem Sv2.wire_lawful : Sv2.wire.Lawful where
  protocol := ⟨rfl, rfl, rfl⟩
  str0255 s := by
    by_cases h : s.utf8ByteSize ≤ 255 <;> simp [Sv2.wire, h]
  toWriter m buffer h :=
    ⟨m.bytes ++ buffer.drop m.bytes.length, if_pos (Nat.le_of_eq h.symm)⟩

/-! ## Compiled programs -/

/-- `ActionId::MAX`, the end of a block that is not closed yet. -/
def ActionId.max : Nat := 2 ^ 64 - 1

abbrev HashMap (β : Type) := AList fun _ : Nat => β

/-- A setup as the program describes it, before it is encoded. -/
structure SetupConnectionSpec where
  protocol : Protocol := .mining
  minVersion : UInt16 := 2
  maxVersion : UInt16 := 2
  flags : UInt32 := 0
  endpointHost : String := "0.0.0.0"
  endpointPort : UInt16 := 0
  vendor : String := "stratamoto"
  hardwareVersion : String := ""
  firmware : String := ""
  deviceId : String := ""
  deriving DecidableEq, Repr

/-- A way the program departed from what the protocol requires of a client. -/
inductive ClientViolation where
  | setupNotFirst
  | rawFrameBefore
  deriving DecidableEq, Repr

/-- A single step of a compiled program. -/
inductive Action where
  | connect (connection : Nat) (role : Nat)
  | send (connection : Nat) (extensionType : UInt16) (messageType : UInt8)
      (channelMsg : Bool) (payload : List UInt8)
  | awaitSetupResponse (connection : Nat) (session : Nat) (protocol : Protocol)
      (firstOnConnection : Bool)
  | enterOnSetupSuccess (session : Nat) (end_ : Nat)
  | exitBlock
  | advanceTime (duration : Nat)
  | probe
  deriving DecidableEq, Repr

/-- Links compiled actions back to the instructions and variables they came
from. -/
structure CompiledMetadata where
  /-- Instruction index each action was compiled from. -/
  actionInstructions : List Nat
  /-- Variable index of the attempt that defines each session. -/
  sessionVariables : HashMap Nat
  /-- Variable index that defines each connection. -/
  connectionVariables : HashMap Nat
  /-- The setup sent on each session. -/
  sessionSetups : HashMap SetupConnectionSpec
  /-- How each action departed from what a client is required to do. -/
  violations : HashMap (List ClientViolation)
  deriving DecidableEq

structure CompiledProgram where
  context : ProgramContext
  actions : List Action
  metadata : CompiledMetadata
  deriving DecidableEq

inductive CompilerError where
  | missingValue (i : Nat)
  | unexpectedValue (i : Nat)
  | stringTooLong (i : Nat)
  | unbalancedBlock
  | encoding (e : String)
  deriving DecidableEq, Repr

/-- How a compilation ends without a program. -/
inductive Abort where
  | panic (p : Panic)
  | error (e : CompilerError)
  deriving DecidableEq, Repr

inductive Value where
  | nop
  | role (v : Nat)
  | connection (v : Nat)
  | setupAttempt (session : Nat) (connection : Nat)
  | session
  | version (v : UInt16)
  | flags (v : UInt32)
  | port (v : UInt16)
  | str (v : String)
  | bytes (v : List UInt8)
  | duration (v : Nat)
  | setupConnection (v : SetupConnectionSpec)
  deriving DecidableEq, Repr

/-! What an accessor expects a value to be. -/

namespace Value

def asRole : Value → Option Nat
  | .role v => some v
  | _ => none

def asConnection : Value → Option Nat
  | .connection v => some v
  | _ => none

def asVersion : Value → Option UInt16
  | .version v => some v
  | _ => none

def asFlags : Value → Option UInt32
  | .flags v => some v
  | _ => none

def asPort : Value → Option UInt16
  | .port v => some v
  | _ => none

def asStr : Value → Option String
  | .str v => some v
  | _ => none

def asBytes : Value → Option (List UInt8)
  | .bytes v => some v
  | _ => none

def asDuration : Value → Option Nat
  | .duration v => some v
  | _ => none

def asAttempt : Value → Option (Nat × Nat)
  | .setupAttempt s c => some (s, c)
  | _ => none

def asSetup : Value → Option SetupConnectionSpec
  | .setupConnection v => some v
  | _ => none

end Value

/-- Lowers a program to the actions that carry it out. -/
structure Compiler where
  values : List Value
  actions : List Action
  metadata : CompiledMetadata
  connections : Nat
  sessions : Nat
  /-- Connections something has already been sent on. -/
  sent : Finset Nat
  /-- Connections the program has put a frame of its own choosing on. -/
  rawFramed : Finset Nat
  /-- The enter actions of the conditional blocks still open, innermost first. -/
  blocks : List Nat
  deriving DecidableEq

/-! ## Encoding -/

section Encoding

variable (S : Sv2)

/-- A string field as the wire has it; `i` is the setup it belongs to. -/
def str0255 (value : String) (i : Nat) : Except Abort S.Str0255 :=
  match S.str0255 value with
  | some w => .ok w
  | none => .error (.error (.stringTooLong i))

def encode (message : SetupConnection S.Str0255) :
    Except Abort (List UInt8) :=
  match S.toWriter message (List.replicate (S.getSize message) 0) with
  | .ok payload => .ok payload
  | .error e => .error (.error (.encoding e))

def encodeSetupConnection (spec : SetupConnectionSpec) (i : Nat) : Except Abort (List UInt8) :=
  match S.protocol spec.protocol.id with
  | none => .error (.panic (.expect "Protocol only holds ids the wire type accepts"))
  | some protocol => do
    let endpointHost ← str0255 S spec.endpointHost i
    let vendor ← str0255 S spec.vendor i
    let hardwareVersion ← str0255 S spec.hardwareVersion i
    let firmware ← str0255 S spec.firmware i
    let deviceId ← str0255 S spec.deviceId i
    encode S
      { protocol, minVersion := spec.minVersion, maxVersion := spec.maxVersion,
        flags := spec.flags, endpointHost, endpointPort := spec.endpointPort, vendor,
        hardwareVersion, firmware, deviceId }

end Encoding

namespace Compiler

/-! ## Reading values -/

/-- `inputs[k]`. -/
def input (inputs : List Nat) (k : Nat) : Except Abort Nat :=
  match inputs[k]? with
  | some i => .ok i
  | none => .error (.panic .indexOutOfBounds)

def value (c : Compiler) (i : Nat) : Except Abort Value :=
  match c.values[i]? with
  | some v => .ok v
  | none => .error (.error (.missingValue i))

/-- Read a value of the shape `get` accepts; the accessors differ in it only. -/
def read {α : Type} (get : Value → Option α) (c : Compiler) (i : Nat) : Except Abort α := do
  let v ← c.value i
  match get v with
  | some a => .ok a
  | none => .error (.error (.unexpectedValue i))

def role : Compiler → Nat → Except Abort Nat := read Value.asRole

def connection : Compiler → Nat → Except Abort Nat := read Value.asConnection

def version : Compiler → Nat → Except Abort UInt16 := read Value.asVersion

def flags : Compiler → Nat → Except Abort UInt32 := read Value.asFlags

def port : Compiler → Nat → Except Abort UInt16 := read Value.asPort

def string : Compiler → Nat → Except Abort String := read Value.asStr

def bytes : Compiler → Nat → Except Abort (List UInt8) := read Value.asBytes

def duration : Compiler → Nat → Except Abort Nat := read Value.asDuration

def attempt : Compiler → Nat → Except Abort (Nat × Nat) := read Value.asAttempt

def setup : Compiler → Nat → Except Abort SetupConnectionSpec := read Value.asSetup

/-- Change the setup under construction at `i`. -/
def setupMut (c : Compiler) (i : Nat) (change : SetupConnectionSpec → SetupConnectionSpec) :
    Except Abort Compiler :=
  match c.values[i]? with
  | some (.setupConnection v) =>
    .ok { c with values := c.values.set i (.setupConnection (change v)) }
  | some _ => .error (.error (.unexpectedValue i))
  | none => .error (.error (.missingValue i))

/-! ## Lowering -/

def pushValue (c : Compiler) (v : Value) : Compiler := { c with values := c.values ++ [v] }

def pushAction (c : Compiler) (instruction : Nat) (action : Action) : Compiler :=
  { c with
    actions := c.actions ++ [action]
    metadata := { c.metadata with
      actionInstructions := c.metadata.actionInstructions ++ [instruction] } }

/-- Attach the violations of an action to it, if there are any. -/
def note (c : Compiler) (action : Nat) (violations : List ClientViolation) : Compiler :=
  if violations.isEmpty then c
  else { c with metadata := { c.metadata with
    violations := c.metadata.violations.insert action violations } }

section Fields

variable (c : Compiler) (v : Value) (index action : Nat) (a : Action)
  (violations : List ClientViolation)

@[simp] theorem pushValue_values : (c.pushValue v).values = c.values ++ [v] := rfl
@[simp] theorem pushValue_actions : (c.pushValue v).actions = c.actions := rfl
@[simp] theorem pushValue_metadata : (c.pushValue v).metadata = c.metadata := rfl
@[simp] theorem pushValue_connections : (c.pushValue v).connections = c.connections := rfl
@[simp] theorem pushValue_sessions : (c.pushValue v).sessions = c.sessions := rfl
@[simp] theorem pushValue_sent : (c.pushValue v).sent = c.sent := rfl
@[simp] theorem pushValue_rawFramed : (c.pushValue v).rawFramed = c.rawFramed := rfl
@[simp] theorem pushValue_blocks : (c.pushValue v).blocks = c.blocks := rfl

@[simp] theorem pushAction_values : (c.pushAction index a).values = c.values := rfl
@[simp] theorem pushAction_actions : (c.pushAction index a).actions = c.actions ++ [a] := rfl
@[simp] theorem pushAction_metadata : (c.pushAction index a).metadata =
    { c.metadata with actionInstructions := c.metadata.actionInstructions ++ [index] } := rfl
@[simp] theorem pushAction_connections :
    (c.pushAction index a).connections = c.connections := rfl
@[simp] theorem pushAction_sessions : (c.pushAction index a).sessions = c.sessions := rfl
@[simp] theorem pushAction_sent : (c.pushAction index a).sent = c.sent := rfl
@[simp] theorem pushAction_rawFramed : (c.pushAction index a).rawFramed = c.rawFramed := rfl
@[simp] theorem pushAction_blocks : (c.pushAction index a).blocks = c.blocks := rfl

/-- A note changes the violations only. -/
theorem note_eq : c.note action violations = { c with metadata := { c.metadata with
    violations :=
      if violations.isEmpty then c.metadata.violations
      else c.metadata.violations.insert action violations } } := by
  unfold note
  cases violations.isEmpty <;> rfl

end Fields

def compileConnect (c : Compiler) (index : Nat) (inputs : List Nat) : Except Abort Compiler := do
  let role ← c.role (← input inputs 0)
  let connection := c.connections
  let c := { c with
    connections := c.connections + 1
    metadata := { c.metadata with
      connectionVariables := c.metadata.connectionVariables.insert connection c.values.length } }
  return (c.pushValue (.connection connection)).pushAction index (.connect connection role)

def compileSendSetupConnection (S : Sv2) (c : Compiler) (index : Nat) (inputs : List Nat)
    (protocol : Protocol) : Except Abort Compiler := do
  let connection ← c.connection (← input inputs 0)
  let firstOnConnection := decide (connection ∉ c.sent)
  -- the connection counts as used before the setup is looked up
  let c := { c with sent := insert connection c.sent }
  let i ← input inputs 1
  let spec ← c.setup i
  let payload ← encodeSetupConnection S spec i
  let session := c.sessions
  let c := { c with
    sessions := c.sessions + 1
    metadata := { c.metadata with
      sessionVariables := c.metadata.sessionVariables.insert session c.values.length
      sessionSetups := c.metadata.sessionSetups.insert session spec } }
  let c := c.pushValue (.setupAttempt session connection)
  let c := c.pushAction index (.send connection 0 S.messageTypeSetupConnection false payload)
  let c := c.pushAction index (.awaitSetupResponse connection session protocol firstOnConnection)
  -- the violations are noted at the await, the last of the two actions
  let action := c.actions.length - 1
  return c.note action
    ((if firstOnConnection then [] else [.setupNotFirst]) ++
      (if connection ∈ c.rawFramed then [.rawFrameBefore] else []))

def compileBeginOnSetupSuccess (c : Compiler) (index : Nat) (inputs : List Nat) :
    Except Abort Compiler := do
  let (session, _) ← c.attempt (← input inputs 0)
  -- the exit is not compiled yet, so the block's end is patched in when it is
  let c := c.pushAction index (.enterOnSetupSuccess session ActionId.max)
  let c := { c with blocks := (c.actions.length - 1) :: c.blocks }
  return c.pushValue .session

def compileEndOnSetupSuccess (c : Compiler) (index : Nat) : Except Abort Compiler :=
  match c.blocks with
  | [] => .error (.error .unbalancedBlock)
  | enter :: blocks =>
    let c := ({ c with blocks } : Compiler).pushAction index .exitBlock
    let exit := c.actions.length - 1
    match c.actions[enter]? with
    | none => .error (.panic .indexOutOfBounds)
    -- the enter was pushed with no exit, and gets this one
    | some (.enterOnSetupSuccess session _) =>
      .ok { c with actions := c.actions.set enter (.enterOnSetupSuccess session exit) }
    | some _ => .error (.error .unbalancedBlock)

def compileSendRawFrame (c : Compiler) (index : Nat) (inputs : List Nat) (messageType : UInt8)
    (extensionType : UInt16) : Except Abort Compiler := do
  let connection ← c.connection (← input inputs 0)
  let payload ← c.bytes (← input inputs 1)
  let c := { c with
    sent := insert connection c.sent
    rawFramed := insert connection c.rawFramed }
  return c.pushAction index (.send connection extensionType messageType false payload)

def compileInstruction (S : Sv2) (c : Compiler) (index : Nat) (instruction : Instruction) :
    Except Abort Compiler :=
  let inputs := instruction.inputs
  match instruction.operation with
  | .nop outputs innerOutputs =>
    .ok { c with values := c.values ++ List.replicate (outputs + innerOutputs) .nop }
  | .loadRole i => .ok (c.pushValue (.role i))
  | .loadConnection i => .ok (c.pushValue (.connection i))
  | .loadVersion v => .ok (c.pushValue (.version v))
  | .loadFlags v => .ok (c.pushValue (.flags v))
  | .loadPort v => .ok (c.pushValue (.port v))
  | .loadStr v => .ok (c.pushValue (.str v))
  | .loadBytes v => .ok (c.pushValue (.bytes v))
  | .loadDuration v => .ok (c.pushValue (.duration v))
  | .connect => c.compileConnect index inputs
  | .beginBuildSetupConnection => .ok (c.pushValue (.setupConnection {}))
  | .setVersions => do
    let minVersion ← c.version (← input inputs 1)
    let maxVersion ← c.version (← input inputs 2)
    c.setupMut (← input inputs 0) fun spec => { spec with minVersion, maxVersion }
  | .setFlags => do
    let flags ← c.flags (← input inputs 1)
    c.setupMut (← input inputs 0) fun spec => { spec with flags }
  | .setEndpoint => do
    let host ← c.string (← input inputs 1)
    let port ← c.port (← input inputs 2)
    c.setupMut (← input inputs 0) fun spec =>
      { spec with endpointHost := host, endpointPort := port }
  | .setDeviceInfo => do
    let vendor ← c.string (← input inputs 1)
    let hardwareVersion ← c.string (← input inputs 2)
    let firmware ← c.string (← input inputs 3)
    let deviceId ← c.string (← input inputs 4)
    c.setupMut (← input inputs 0) fun spec =>
      { spec with vendor, hardwareVersion, firmware, deviceId }
  -- a copy: what is set on the message later does not reach it
  | .endBuildSetupConnection protocol => do
    let spec ← c.setup (← input inputs 0)
    return c.pushValue (.setupConnection { spec with protocol })
  | .sendSetupConnection protocol => c.compileSendSetupConnection S index inputs protocol
  | .beginOnSetupSuccess _ => c.compileBeginOnSetupSuccess index inputs
  | .endOnSetupSuccess => c.compileEndOnSetupSuccess index
  | .sendRawFrame messageType extensionType =>
    c.compileSendRawFrame index inputs messageType extensionType
  | .advanceTime => do
    let duration ← c.duration (← input inputs 0)
    return c.pushAction index (.advanceTime duration)
  | .probe => .ok (c.pushAction index .probe)

/-- Compile the instructions from position `index` on. -/
def compileInstructions (S : Sv2) (c : Compiler) (index : Nat) :
    List Instruction → Except Abort Compiler
  | [] => .ok c
  | i :: rest => do
    let c ← c.compileInstruction S index i
    c.compileInstructions S (index + 1) rest

/-- The compiler before the first instruction. The connections that exist
before the program runs are set up already, so nothing sent on them is a first
message. -/
def start (context : ProgramContext) : Compiler where
  values := []
  actions := []
  metadata := ⟨[], ∅, ∅, ∅, ∅⟩
  connections := context.numConnections
  sessions := 0
  sent := Finset.range context.numConnections
  rawFramed := ∅
  blocks := []

def compile (S : Sv2) (program : Program) : Except Abort CompiledProgram := do
  let c ← (start program.context).compileInstructions S 0 program.instructions
  return { context := program.context, actions := c.actions, metadata := c.metadata }

end Compiler

end Stratamoto
