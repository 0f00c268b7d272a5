import Mathlib.Data.List.Sort
import Stratamoto.Harness.Events
import Stratamoto.IR.Compiler

/-!
# Stratamoto — the runner

`runner.rs`: a compiled program executed against a deployment. The deployment
is an adversary that answers every connect, send and receive, and reads the
clock, as a function of everything exchanged so far (`Deployment`), so that it
may succeed, fail, time out and keep state as it likes. What the runner keeps
is explicit (`Runner`), with the history of exchanges beside it.

The loops of the source that only end when the deployment stops sending frames
take fuel, and give `none` when it runs out. Beside the execution a run returns
its trace: for each action whether it was attempted, its outcome, and what was
exchanged for it. Durations are in nanoseconds.
-/

namespace Stratamoto

/-! ## Errors of the transport -/

inductive ErrorKind where
  | unexpectedEof
  | connectionReset
  | connectionAborted
  | brokenPipe
  | notConnected
  | wouldBlock
  | timedOut
  | other
  deriving DecidableEq, Repr

/-- An error of the harness; foreign errors are kept as their texts. -/
inductive Error where
  | io (kind : ErrorKind) (e : String)
  | framing (e : String)
  | framing2 (e : String)
  | codec (e : String)
  | parser (e : String)
  | binary (e : String)
  | unexpectedMessage (t : UInt8)
  | input (e : String)
  | noise (e : String)
  | target (e : String)
  | timeout
  deriving DecidableEq, Repr

def hexDigit (n : Nat) : Char := "0123456789abcdef".toList.getD n '0'

/-- Two hexadecimal digits. -/
def hexByte (b : UInt8) : String := String.ofList [hexDigit (b.toNat / 16), hexDigit (b.toNat % 16)]

def Error.toString : Error → String
  | .io _ e => "io: " ++ e
  | .framing e => "framing: " ++ e
  | .framing2 e => "framing: " ++ e
  | .codec e => "codec: " ++ e
  | .parser e => "parser: " ++ e
  | .binary e => "binary: " ++ e
  | .unexpectedMessage t => "unexpected message type 0x" ++ hexByte t
  | .input e => "input: " ++ e
  | .noise e => "noise: " ++ e
  | .target e => "target: " ++ e
  | .timeout => "timed out"

/-! ## Deployments -/

/-- Something the runner did with the deployment, and what came of it. -/
inductive Exchange where
  | connect (connection role : Nat) (opened : Bool)
  | send (connection : Nat) (extensionType : UInt16) (messageType : UInt8) (channelMsg : Bool)
      (payload : List UInt8) (result : Except Error Unit)
  | recv (connection timeout : Nat) (result : Except Error Frame)
  | advanceTime (duration : Nat)
  | now (instant : Nat)

/-- Everything exchanged so far, in order. -/
abbrev History := List Exchange

/-- What a role accepts on a connection. -/
structure RoleConfig where
  protocol : WireProtocol
  minVersion : UInt16
  maxVersion : UInt16
  supportedFlags : UInt32
  deriving DecidableEq, Repr

/-- The roles a program can be run against, and the clock. -/
structure Deployment where
  connect : History → (connection role : Nat) → Bool
  send : History → (connection : Nat) → (extensionType : UInt16) → (messageType : UInt8) →
    (channelMsg : Bool) → (payload : List UInt8) → Except Error Unit
  recv : History → (connection timeout : Nat) → Except Error Frame
  now : History → Nat
  roleConfig : Nat → Option RoleConfig
  numRoles : Nat
  isAlive : History → Bool

/-- The order a hash map is iterated in. -/
structure IterationOrder where
  keys : History → Finset Nat → List Nat
  nodup : ∀ history s, (keys history s).Nodup
  mem_iff : ∀ history s c, c ∈ keys history s ↔ c ∈ s

/-- What a run depends on beside the program. -/
structure World where
  deployment : Deployment
  parsers : ParsersSv2
  order : IterationOrder

/-! ## Executions -/

/-- How long the harness waits for an answer before calling a request unanswered. -/
def responseTimeout : Nat := 10_000_000_000

/-- How long the harness waits for an answer that is not owed. -/
def unowedResponseWait : Nat := 100_000_000

/-- What a role answered a setup with. -/
inductive SetupResponse where
  | success (usedVersion : UInt16) (flags : UInt32)
  | error (flags : UInt32) (errorCode : String)
  | unexpected (messageType : UInt8)
  | silence
  deriving DecidableEq, Repr

structure Session where
  connection : Nat
  protocol : Protocol
  firstOnConnection : Bool
  response : SetupResponse
  deriving DecidableEq, Repr

/-- Why an action was not attempted. -/
inductive Prerequisite where
  | connectionOpen (connection : Nat)
  | setupSuccess (session : Nat)
  deriving DecidableEq, Repr

inductive Response where
  | none
  | setup (response : SetupResponse)
  | probed (frames : List (Nat × UInt8))
  deriving DecidableEq, Repr

/-- What became of one compiled action. -/
inductive ActionOutcome where
  | completed (response : Response)
  | timedOut
  | transportClosed
  | transportError (e : String)
  | skipped (unmet : Prerequisite)
  | harnessError (e : String)
  deriving DecidableEq, Repr

/-- The observable result of running a program. -/
structure Execution where
  /-- One outcome per action of the program, in the program's order. -/
  outcomes : List ActionOutcome := []
  sessions : HashMap Session := ∅
  /-- Which role each connection was opened to. -/
  connectionRoles : HashMap Nat := ∅
  /-- Frames that arrived outside a request, collected at each probe. -/
  unsolicited : List (Nat × UInt8) := []
  connections : HashMap ConnectionState := ∅
  deriving DecidableEq

def Execution.outcome (execution : Execution) (action : Nat) : Option ActionOutcome :=
  execution.outcomes[action]?

def Execution.isTotal (execution : Execution) (program : CompiledProgram) : Bool :=
  execution.outcomes.length = program.actions.length

/-- The outcome a transport error amounts to. -/
def transportFailure : Error → ActionOutcome
  | .timeout => .timedOut
  | .io .unexpectedEof _ | .io .connectionReset _ | .io .connectionAborted _
  | .io .brokenPipe _ | .io .notConnected _ => .transportClosed
  -- a write that times out is an `io` error of another kind
  | other => .transportError other.toString

/-! ## The runner -/

structure Runner where
  history : History
  /-- The connections a link is held for. -/
  connections : Finset Nat
  states : HashMap ConnectionState
  execution : Execution

namespace Runner

def start : Runner := ⟨[], ∅, ∅, {}⟩

/-- Append to the history. -/
def exchange (r : Runner) (x : Exchange) : Runner := { r with history := r.history ++ [x] }

/-- Append outcomes to the execution. -/
def record (r : Runner) (outcomes : List ActionOutcome) : Runner :=
  { r with execution := { r.execution with outcomes := r.execution.outcomes ++ outcomes } }

/-- Whether the server agreed to the session's setup. -/
def established (r : Runner) (session : Nat) : Bool :=
  match r.execution.sessions.lookup session with
  | some s =>
    match s.response with
    | .success _ _ => true
    | _ => false
  | none => false

/-- For an action that opens a conditional block whose prerequisite the run has
not met: what is unmet, and the last action to skip because of it. -/
def unmetPrerequisite (r : Runner) : Action → Option (Prerequisite × Nat)
  | .enterOnSetupSuccess session end_ =>
    if r.established session then none else some (.setupSuccess session, end_)
  | _ => none

variable (W : World)

/-- The loop of `pump`, over the state of the connection it reads. -/
def pumpLoop (connection deadline : Nat) (done : ConnectionState → Bool) :
    Nat → History → ConnectionState →
      Option (Except ActionOutcome Unit × History × ConnectionState)
  | 0, _, _ => none
  | fuel + 1, history, state =>
    if done state then some (.ok (), history, state)
    else
      let now := W.deployment.now history
      let history := history ++ [.now now]
      -- `saturating_duration_since`: a deadline that has passed leaves nothing to wait for
      let remaining := deadline - now
      if remaining = 0 then some (.error .timedOut, history, state)
      else
        let result := W.deployment.recv history connection remaining
        let history := history ++ [.recv connection remaining result]
        match result with
        | .ok frame =>
          pumpLoop connection deadline done fuel history (state.dispatch W.parsers frame).2
        -- the source asks `done` once more here
        | .error .timeout =>
          some (if done state then .ok () else .error .timedOut, history, state)
        | .error e => some (.error (transportFailure e), history, state)

/-- Receive and dispatch frames on a connection until `done` holds of its
state, or `timeout` passes with it not holding. -/
def pump (fuel : Nat) (r : Runner) (connection timeout : Nat) (done : ConnectionState → Bool) :
    Option (Except ActionOutcome Unit × Runner) :=
  match r.states.lookup connection with
  | none => some (.error (.skipped (.connectionOpen connection)), r)
  | some state =>
    if connection ∉ r.connections then some (.error (.skipped (.connectionOpen connection)), r)
    else do
      let now := W.deployment.now r.history
      let (verdict, history, state) ←
        pumpLoop W connection (now + timeout) done fuel (r.history ++ [.now now]) state
      return (verdict, { r with history, states := r.states.insert connection state })

def performConnect (r : Runner) (connection role : Nat) : ActionOutcome × Runner :=
  let opened := W.deployment.connect r.history connection role
  let r := r.exchange (.connect connection role opened)
  if opened then
    (.completed .none, { r with
      -- the connection, its state and its role are recorded together
      connections := insert connection r.connections
      states := r.states.insert connection {}
      execution := { r.execution with
        connectionRoles := r.execution.connectionRoles.insert connection role } })
  else
    (.transportError ("could not open connection " ++ toString connection ++ " to role " ++
      toString role), r)

def performSend (r : Runner) (connection : Nat) (extensionType : UInt16) (messageType : UInt8)
    (channelMsg : Bool) (payload : List UInt8) : ActionOutcome × Runner :=
  if connection ∉ r.connections then (.skipped (.connectionOpen connection), r)
  else
    let result :=
      W.deployment.send r.history connection extensionType messageType channelMsg payload
    let r := r.exchange (.send connection extensionType messageType channelMsg payload result)
    match result with
    | .ok () => (.completed .none, r)
    | .error e => (transportFailure e, r)

/-- The response a setup's state amounts to once it is no longer pending. -/
def responseOf : SetupState → SetupResponse
  | .established usedVersion flags => .success usedVersion flags
  | .rejected flags errorCode => .error flags errorCode
  | .unexpected messageType => .unexpected messageType
  | .unsent | .pending => .silence

/-- What is recorded of a session, by the outcome of its await. -/
def sessionResponse : ActionOutcome → SetupResponse
  | .completed (.setup response) => response
  | _ => .silence

def performAwaitSetupResponse (fuel : Nat) (r : Runner) (connection session : Nat)
    (protocol : Protocol) (firstOnConnection : Bool) : Option (ActionOutcome × Runner) :=
  let wait := if firstOnConnection then responseTimeout else unowedResponseWait
  match r.states.lookup connection with
  | none => some (.skipped (.connectionOpen connection), r)
  | some state => do
    let r := { r with states := r.states.insert connection { state with setup := .pending } }
    let (verdict, r) ← r.pump W fuel connection wait fun state => state.setup ≠ .pending
    let outcome : ActionOutcome :=
      match verdict with
      | .ok () =>
        -- the pump found the connection's state, so it is there to index
        .completed (.setup (responseOf ((r.states.lookup connection).getD {}).setup))
      | .error failure => failure
    return (outcome, { r with execution := { r.execution with
      sessions := r.execution.sessions.insert session
        { connection, protocol, firstOnConnection, response := sessionResponse outcome } } })

/-- Receive what a connection has, without waiting. -/
def drain (connection : Nat) : Nat → History → ConnectionState →
    Option (List (Nat × UInt8) × History × ConnectionState)
  | 0, _, _ => none
  | fuel + 1, history, state =>
    let result := W.deployment.recv history connection 0
    let history := history ++ [.recv connection 0 result]
    match result with
    | .ok frame => do
      let (probed, history, state) ←
        drain connection fuel history (state.dispatch W.parsers frame).2
      return ((connection, frame.messageType) :: probed, history, state)
    -- any failure ends it, a timeout like a closed connection
    | .error _ => some ([], history, state)

/-- Drain the connections one after the other. -/
def drainAll (fuel : Nat) (r : Runner) : List Nat → Option (List (Nat × UInt8) × Runner)
  | [] => some ([], r)
  | id :: ids =>
    match r.states.lookup id with
    -- a connection without a state is passed over
    | none => r.drainAll fuel ids
    | some state => do
      let (probed, history, state) ← drain W id fuel r.history state
      let r := { r with history, states := r.states.insert id state }
      let (rest, r) ← r.drainAll fuel ids
      return (probed ++ rest, r)

/-- The order of pairs that a probe's frames are sorted in. -/
def frameLe (a b : Nat × UInt8) : Bool := a.1 < b.1 || (a.1 = b.1 && a.2 ≤ b.2)

def performProbe (fuel : Nat) (r : Runner) : Option (ActionOutcome × Runner) := do
  let (probed, r) ← r.drainAll W fuel (W.order.keys r.history r.connections)
  let probed := probed.insertionSort fun a b => frameLe a b
  return (.completed (.probed probed), { r with execution := { r.execution with
    unsolicited := r.execution.unsolicited ++ probed } })

/-- Carry out one action and say what became of it. -/
def perform (fuel : Nat) (r : Runner) : Action → Option (ActionOutcome × Runner)
  | .enterOnSetupSuccess _ _ | .exitBlock => some (.completed .none, r)
  | .connect connection role => some (r.performConnect W connection role)
  | .send connection extensionType messageType channelMsg payload =>
    some (r.performSend W connection extensionType messageType channelMsg payload)
  | .awaitSetupResponse connection session protocol firstOnConnection =>
    r.performAwaitSetupResponse W fuel connection session protocol firstOnConnection
  | .advanceTime duration => some (.completed .none, r.exchange (.advanceTime duration))
  | .probe => r.performProbe W fuel

/-! ## Runs -/

/-- What a run did about one action. -/
structure TraceEntry where
  action : Nat
  attempted : Bool
  outcome : ActionOutcome
  exchanges : List Exchange

/-- Entries for the actions of a block that is skipped whole. -/
def skippedEntries (unmet : Prerequisite) (next count : Nat) : List TraceEntry :=
  (List.range' next count).map fun action => ⟨action, false, .skipped unmet, []⟩

/-- The main loop, from the action `next` on. -/
def loop (actions : List Action) : Nat → Nat → Runner → Option (List TraceEntry × Runner)
  | 0, _, _ => none
  | fuel + 1, next, r =>
    match actions[next]? with
    | none => some ([], r)
    | some action =>
      match r.unmetPrerequisite action with
      | some (unmet, end_) => do
        -- every action of the block, the exit included, records that it was skipped
        let end_ := min end_ (actions.length - 1)
        let count := end_ + 1 - next
        let (trace, r) ←
          loop actions fuel (end_ + 1) (r.record (List.replicate count (.skipped unmet)))
        return (skippedEntries unmet next count ++ trace, r)
      | none => do
        let (outcome, r') ← r.perform W fuel action
        let (trace, r'') ← loop actions fuel (next + 1) (r'.record [outcome])
        return (⟨next, true, outcome, r'.history.drop r.history.length⟩ :: trace, r'')

end Runner

/-- Execute a compiled program against a deployment. -/
def run (W : World) (fuel : Nat) (program : CompiledProgram) :
    Option (Execution × List Runner.TraceEntry) := do
  let (trace, r) ← Runner.loop W program.actions fuel 0 Runner.start
  return ({ r.execution with connections := r.states }, trace)

end Stratamoto
