import Stratamoto.IR.Validation
import Stratamoto.Library.Draws

/-!
# Stratamoto — generators

The generators of `generators/`, which append a fragment to a program under
construction. One of them is a computation over the builder and a source of
randomness (`Gen`): it draws, appends, and stops at the first instruction the
builder rejects, as the source's `?` does. A coin's chances are hundredths.

What a generator appends is spelled out as a list of instructions, numbered
from the variables the builder has; `Builds` is the judgement the proofs are
made in.
-/

namespace Stratamoto

open Brackets Operation Draws

/-! ## Building at random -/

/-- A computation that draws, and appends to a builder until it is rejected. -/
def Gen (ρ α : Type) : Type :=
  ProgramBuilder → Draw Panic ρ (Except ProgramValidationError α × ProgramBuilder)

namespace Gen

variable {ρ α : Type}

instance : Monad (Gen ρ) where
  pure a := fun b => pure (.ok a, b)
  bind g f := fun b => do
    let (result, b) ← g b
    match result with
    | .error e => pure (.error e, b)
    | .ok a => f a b

def draw (m : Draw Panic ρ α) : Gen ρ α := fun b => do
  let a ← m
  pure (.ok a, b)

def appendOp (op : Operation) (inputs : List IndexedVariable) : Gen ρ (List IndexedVariable) :=
  fun b => Draw.lift (b.appendOp op inputs)

/-- The only variable an operation produces. -/
def one (vars : List IndexedVariable) : Gen ρ IndexedVariable :=
  draw (match vars with
    | [v] => pure v
    | _ => Draw.lift (.error (.expect "operation produces exactly one variable")))

end Gen

open Gen

/-- A random in-scope variable of the given type. -/
def ProgramBuilder.getRandomVariable {ε ρ : Type} (rng : RngExt ρ) (b : ProgramBuilder)
    (var : Variable) : Draw ε ρ (Option IndexedVariable) :=
  rng.chooseItem (((List.range b.vars.length).filterMap b.getVariable).filter (·.var = var))

def Gen.getRandomVariable {ρ : Type} (rng : RngExt ρ) (var : Variable) :
    Gen ρ (Option IndexedVariable) := fun b => do
  let v ← b.getRandomVariable rng var
  pure (.ok v, b)

/-! ## `setup_connection.rs` -/

def Protocol.all : List Protocol := [.mining, .jobDeclaration, .templateDistribution]

/-- The one version the specification defines. -/
def currentVersion : UInt16 := 2

/-- The flag bits a subprotocol defines; everything else is a bit no server has
a meaning for. -/
def definedFlags : Protocol → UInt32
  | .mining => 0b111
  | .jobDeclaration => 0b1
  | .templateDistribution => 0

/-- Which connection a fragment goes on. -/
inductive ConnectionChoice where
  | fresh
  | reuse
  | any
  deriving DecidableEq, Repr

/-- One thing a conforming client does not do, done on purpose. -/
inductive SetupViolation where
  | emptyVersionRange
  | unknownVersion
  | undefinedFlags
  | afterRawFrame
  | secondSetup
  deriving DecidableEq, Repr

def SetupViolation.all : List SetupViolation :=
  [.emptyVersionRange, .unknownVersion, .undefinedFlags, .afterRawFrame, .secondSetup]

section Draws

variable {ρ : Type} (rng : RngExt ρ)

/-- An element of a list that has one. -/
def chooseFrom {α : Type} (xs : List α) (message : String) : Draw Panic ρ α := do
  match ← rng.chooseSlice xs with
  | some a => pure a
  | none => Draw.lift (.error (.expect message))

def SetupViolation.any : Draw Panic ρ SetupViolation :=
  chooseFrom rng SetupViolation.all "ALL is not empty"

/-- The given protocol, or any of them. -/
def chooseProtocol : Option Protocol → Draw Panic ρ Protocol
  | some protocol => pure protocol
  | none => chooseFrom rng Protocol.all "PROTOCOLS is not empty"

/-- Any subset of the flags the protocol defines. -/
def chooseFlags (protocol : Protocol) : Draw Panic ρ UInt32 := do
  let bits ← rng.random 32
  pure (UInt32.ofBitVec bits &&& definedFlags protocol)

/-- The lowest bit that is set, alone. -/
def isolateLowestOne (v : UInt32) : UInt32 := v &&& (0 - v)

/-- Some bits outside the definition, and at least one whatever the draw. -/
def chooseUndefinedFlags (protocol : Protocol) (flags : UInt32) : Draw Panic ρ UInt32 := do
  let undefined := ~~~ definedFlags protocol
  let bits ← rng.random 32
  let flags := flags ||| (UInt32.ofBitVec bits &&& undefined)
  pure (if flags &&& undefined = 0 then flags ||| isolateLowestOne undefined else flags)

def chooseUnknownVersion : Draw Panic ρ UInt16 :=
  chooseFrom rng [0, 1, currentVersion + 1, 0xffff] "not empty"

end Draws

section Generators

variable {ρ : Type} (rng : RngExt ρ)

/-- A new connection to the role. -/
def openConnection (role : Nat) : Gen ρ IndexedVariable := do
  let role ← one (← appendOp (.loadRole role) [])
  one (← appendOp .connect [role])

/-- A connection to reuse, where the choice allows it. -/
def chooseReuse : ConnectionChoice → Gen ρ (Option IndexedVariable)
  | .fresh => pure none
  | .reuse => getRandomVariable rng .connection
  | .any => do
    if ← draw (rng.randomBool 50) then getRandomVariable rng .connection else pure none

/-- The connection a fragment goes on, opened if the choice or the program's
state requires. -/
def connection (role : Nat) (choice : ConnectionChoice) : Gen ρ IndexedVariable := do
  match ← chooseReuse rng choice with
  | some connection => pure connection
  | none => openConnection role

/-- Begin a message and give it its versions and flags. -/
def beginMessage (minVersion maxVersion : UInt16) (flags : UInt32) : Gen ρ IndexedVariable := do
  let minVersion ← one (← appendOp (.loadVersion minVersion) [])
  let maxVersion ← one (← appendOp (.loadVersion maxVersion) [])
  let flags ← one (← appendOp (.loadFlags flags) [])
  let setup ← one (← appendOp .beginBuildSetupConnection [])
  let _ ← appendOp .setVersions [setup, minVersion, maxVersion]
  let _ ← appendOp .setFlags [setup, flags]
  pure setup

def fillEndpoint (setup : IndexedVariable) : Gen ρ Unit := do
  let host ← one (← appendOp (.loadStr "0.0.0.0") [])
  let port ← one (← appendOp (.loadPort 0) [])
  let _ ← appendOp .setEndpoint [setup, host, port]

def fillDeviceInfo (setup : IndexedVariable) : Gen ρ Unit := do
  let vendor ← one (← appendOp (.loadStr "stratamoto") [])
  let hardware ← one (← appendOp (.loadStr "") [])
  let firmware ← one (← appendOp (.loadStr "") [])
  let device ← one (← appendOp (.loadStr "") [])
  let _ ← appendOp .setDeviceInfo [setup, vendor, hardware, firmware, device]

/-- End the message and send it. -/
def sendMessage (connection : IndexedVariable) (protocol : Protocol) (setup : IndexedVariable) :
    Gen ρ IndexedVariable := do
  let setup ← one (← appendOp (.endBuildSetupConnection protocol) [setup])
  one (← appendOp (.sendSetupConnection protocol) [connection, setup])

/-- On one side of a coin. -/
def sometimes (g : Gen ρ Unit) : Gen ρ Unit := do
  if ← draw (rng.randomBool 50) then g else pure ()

/-- Build and send a setup with the given versions and flags, sometimes with
the endpoint and device fields set as well. -/
def setup (connection : IndexedVariable) (protocol : Protocol) (minVersion maxVersion : UInt16)
    (flags : UInt32) : Gen ρ IndexedVariable := do
  let setup ← beginMessage minVersion maxVersion flags
  sometimes rng (fillEndpoint setup)
  sometimes rng (fillDeviceInfo setup)
  sendMessage connection protocol setup

/-- A setup as a conforming client would make it: the current version, and only
flags the subprotocol defines. -/
structure SetupConnectionGenerator where
  role : Nat
  protocol : Option Protocol
  connection : ConnectionChoice
  deriving DecidableEq, Repr

/-- A valid setup for any protocol on a fresh connection to `role`. -/
def SetupConnectionGenerator.new (role : Nat) : SetupConnectionGenerator :=
  ⟨role, none, .fresh⟩

def SetupConnectionGenerator.generate (g : SetupConnectionGenerator) : Gen ρ Unit := do
  let protocol ← draw (chooseProtocol rng g.protocol)
  let connection ← Stratamoto.connection rng g.role g.connection
  let flags ← draw (chooseFlags rng protocol)
  let _ ← setup rng connection protocol currentVersion currentVersion flags

/-- A setup that violates exactly one named constraint, and is otherwise what a
conforming client would send. -/
structure AdversarialSetupGenerator where
  role : Nat
  protocol : Option Protocol
  violation : SetupViolation
  deriving DecidableEq, Repr

def AdversarialSetupGenerator.generate (g : AdversarialSetupGenerator) : Gen ρ Unit := do
  let protocol ← draw (chooseProtocol rng g.protocol)
  let flags ← draw (chooseFlags rng protocol)
  match g.violation with
  | .emptyVersionRange =>
    let connection ← Stratamoto.connection rng g.role .fresh
    let _ ← setup rng connection protocol (currentVersion + 1) currentVersion flags
  | .unknownVersion =>
    let connection ← Stratamoto.connection rng g.role .fresh
    let version ← draw (chooseUnknownVersion rng)
    let _ ← setup rng connection protocol version version flags
  | .undefinedFlags =>
    let connection ← Stratamoto.connection rng g.role .fresh
    let flags ← draw (chooseUndefinedFlags rng protocol flags)
    let _ ← setup rng connection protocol currentVersion currentVersion flags
  | .afterRawFrame =>
    let connection ← Stratamoto.connection rng g.role .fresh
    let bytes ← one (← appendOp (.loadBytes (List.replicate 6 0)) [])
    let messageType ← draw (rng.random 8)
    let _ ← appendOp (.sendRawFrame (UInt8.ofBitVec messageType) 0) [connection, bytes]
    let _ ← setup rng connection protocol currentVersion currentVersion flags
  | .secondSetup =>
    let connection ← Stratamoto.connection rng g.role .fresh
    -- both setups are well formed, and the second is the violation
    let _ ← setup rng connection protocol currentVersion currentVersion flags
    let _ ← setup rng connection protocol currentVersion currentVersion flags

/-! ## `raw_frame.rs` -/

/-- Arbitrary bytes under an arbitrary message type on a connection. -/
structure RawFrameGenerator where
  /-- The role a connection is opened to, if the program has none to reuse. -/
  role : Nat
  deriving DecidableEq, Repr

/-- Bytes drawn one by one. -/
def randomBytes : Nat → Draw Panic ρ (List UInt8)
  | 0 => pure []
  | n + 1 => do
    let byte ← rng.random 8
    let rest ← randomBytes n
    pure (UInt8.ofBitVec byte :: rest)

def emptyRange : Panic := .expect "cannot sample empty range"

/-- Mostly the extension every role speaks, sometimes one nothing has defined. -/
def chooseExtension : Draw Panic ρ UInt16 := do
  if ← rng.randomBool 25 then
    let extension ← rng.randomRange emptyRange 16 1 0x8000
    pure (UInt16.ofNat extension)
  else
    pure 0

def RawFrameGenerator.generate (g : RawFrameGenerator) : Gen ρ Unit := do
  -- the source spells out what `connection` does for the choice to reuse
  let connection ← connection rng g.role .reuse
  let length ← draw (rng.randomRange emptyRange 64 0 64)
  let payload ← draw (randomBytes rng length)
  let bytes ← one (← appendOp (.loadBytes payload) [])
  let extensionType ← draw (chooseExtension rng)
  let messageType ← draw (rng.random 8)
  let _ ← appendOp (.sendRawFrame (UInt8.ofBitVec messageType) extensionType) [connection, bytes]

end Generators

end Stratamoto
