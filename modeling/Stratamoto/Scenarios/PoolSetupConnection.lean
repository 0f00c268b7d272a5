import Stratamoto.Fuzzer.Causes
import Stratamoto.Harness.Exactness
import Stratamoto.IR.Memory
import Stratamoto.IR.Splicing

/-!
# Stratamoto — the setup connection scenario against the pool

`setup_connection.rs`, `pool_setup_connection.rs` and the entry point of a scenario
binary (`scenario.rs`): bytes come in, and an exit code and a report go out. The pool
is a process outside: how it is brought up and what it does on a connection are
parameters, and so are `postcard`, which reads a program from the bytes, and the
memory for what a program says there is to allocate.

* `TestCase.decode` — the bytes as a compiled program;
* `PoolDeployment` — the pool as a deployment;
* `PoolSetupConnectionScenario.execute` — one test case against it;
* `stratamotoMain` — the scenario's process;
* `Runnable` — the bytes are a test case for the scenario;
* `Ends` — what a process that was initialized may come to;
* `main_settles` — it comes to one of these;
* `process_verdict` — and says so where it was not.
-/

namespace Stratamoto

open Runner

/-! ## Test cases -/

def CompilerError.toString : CompilerError → String
  | .missingValue i => "v" ++ ToString.toString i ++ " has no value"
  | .unexpectedValue i => "v" ++ ToString.toString i ++ " has the wrong type"
  | .stringTooLong i => "v" ++ ToString.toString i ++ " is longer than 255 bytes"
  | .unbalancedBlock => "a block ends that never began"
  | .encoding e => "encoding failed: " ++ e

structure TestCase where
  program : CompiledProgram

namespace TestCase

def fromProgram (S : Sv2) (memory : Memory) (program : Program) :
    Except Panic (Except Error TestCase) := do
  match ← TestCase.admitIn memory program with
  | .error e => .ok (.error (.input e))
  | .ok () =>
    match Compiler.compileUsize S memory.connections program with
    | .ok program => .ok (.ok ⟨program⟩)
    | .error (.error e) => .ok (.error (.input e.toString))
    | .error (.panic p) => .error p

/-- A program as the command line writes one and the fuzzer keeps them. -/
def decode (S : Sv2) (memory : Memory) (postcard : List UInt8 → Except String Program)
    (bytes : List UInt8) : Except Panic (Except Error TestCase) :=
  match postcard bytes with
  | .error e => .ok (.error (.input e))
  | .ok program => fromProgram S memory program

end TestCase

/-! ## The pool -/

/-- The pool's process: whether a fresh handshake completes within the budget, and
what happens on the connections. -/
structure Pool where
  dial : History → (budget : Nat) → Bool
  send : History → (connection : Nat) → (extensionType : UInt16) → (messageType : UInt8) →
    (channelMsg : Bool) → (payload : List UInt8) → Except Error Unit
  recv : History → (connection timeout : Nat) → Except Error Frame
  now : History → Nat

def connectRetryBudget : Nat := 3_000_000_000

def livenessTimeout : Nat := 2_000_000_000

structure PoolDeployment where
  pool : Pool
  roles : List RoleConfig

/-- The pool as the harness sees it. -/
def PoolDeployment.toDeployment (D : PoolDeployment) : Deployment where
  connect history _ role :=
    if D.roles.length ≤ role then false else D.pool.dial history connectRetryBudget
  send := D.pool.send
  recv := D.pool.recv
  now := D.pool.now
  roleConfig role := D.roles[role]?
  numRoles := D.roles.length
  isAlive history := D.pool.dial history livenessTimeout

/-- Why the pool could not be brought up; foreign errors are kept as their texts. -/
inductive TargetError where
  | io (e : String)
  | transport (e : Error)
  | startup (e : String)
  deriving DecidableEq, Repr

def TargetError.toString : TargetError → String
  | .io e => "io: " ++ e
  | .transport e => "transport: " ++ e.toString
  | .startup e => "startup: " ++ e

/-- Where the process runs: its environment, and what becomes of the node and the
pool's binary when they are started. -/
structure Host where
  env : String → Option String
  startPool : (binary : String) → Except TargetError Pool

def poolBinaryEnv : String := "STRATAMOTO_POOL"

def PoolDeployment.startWith (host : Host) (binary : String) :
    Except TargetError PoolDeployment := do
  let pool ← host.startPool binary
  return { pool, roles := [RoleConfig.new .miningProtocol] }

def PoolDeployment.start (host : Host) : Except TargetError PoolDeployment :=
  match host.env poolBinaryEnv with
  | none => .error (.startup (poolBinaryEnv ++ " does not name the pool binary to run"))
  | some binary => startWith host binary

/-! ## The scenario -/

/-- What running a test case produced: the record and the verdict. -/
structure Run where
  execution : Execution
  result : ScenarioResult

/-- What a test case is judged by, beside the deployment. -/
structure Judging where
  parsers : ParsersSv2
  order : IterationOrder
  debug : DebugTexts

structure PoolSetupConnectionScenario where
  deployment : PoolDeployment

namespace PoolSetupConnectionScenario

/-- The binary is the first argument, or what the environment names. -/
def new (host : Host) (args : List String) : Except Error PoolSetupConnectionScenario :=
  let started := match args[1]? with
    | some pool => PoolDeployment.startWith host pool
    | none => PoolDeployment.start host
  match started with
  | .ok deployment => .ok ⟨deployment⟩
  | .error e => .error (.target e.toString)

variable (scenario : PoolSetupConnectionScenario)

/-- The context programs for this deployment are written in. -/
def context : ProgramContext := ⟨scenario.deployment.toDeployment.numRoles, 0, 0⟩

/-- What the runner runs a test case in. -/
def world (J : Judging) : World := ⟨scenario.deployment.toDeployment, J.parsers, J.order⟩

def execute (J : Judging) (fuel : Nat) (testcase : TestCase) : Option Run :=
  -- a program for more roles than there are is not a finding about the pool
  if scenario.deployment.toDeployment.numRoles < testcase.program.context.numRoles then
    some ⟨{}, .skip⟩
  else do
    let (execution, entries) ← Stratamoto.run (scenario.world J) fuel testcase.program
    return ⟨execution, evaluate J.debug scenario.deployment.toDeployment testcase.program execution
      (entries.flatMap TraceEntry.exchanges)⟩

end PoolSetupConnectionScenario

/-! ## The process -/

/-- How a process ends: its exit code, and what its runner was told. -/
structure Exit where
  code : Nat
  failed : Option String := none
  skipped : Bool := false
  deriving DecidableEq, Repr

/-- The exit code of a result, and the report of it. -/
def ScenarioResult.exit : ScenarioResult → Exit
  | .ok => { code := 0 }
  | .skip => { code := 0, skipped := true }
  | .fail e => { code := 1, failed := (ScenarioResult.fail e).report }
  | .infrastructure e => { code := 2, failed := (ScenarioResult.infrastructure e).report }

/-- What the runner is told if the scenario could not be set up. -/
def notInitialized (e : Error) : String :=
  "INFRASTRUCTURE: could not initialize the scenario: " ++ e.toString

/-- The report that a scenario could not be set up goes on with a letter. -/
theorem notInitialized_bytes (e : Error) : asBytes (notInitialized e) =
    asBytes "INFRASTRUCTURE: " ++
      0x63 :: (asBytes "ould not initialize the scenario: " ++ asBytes e.toString) := by
  have hText : "INFRASTRUCTURE: could not initialize the scenario: " =
      "INFRASTRUCTURE: " ++ ("c" ++ "ould not initialize the scenario: ") := by
    simp only [String.reduceAppend]
  have hLetter : asBytes "c" = [0x63] := by decide
  show asBytes ("INFRASTRUCTURE: could not initialize the scenario: " ++ e.toString) = _
  simp only [hText, asBytes_append, hLetter, List.append_assoc,
    List.cons_append, List.nil_append]

/-- The entry point of the scenario's binary. -/
def stratamotoMain (S : Sv2) (memory : Memory) (postcard : List UInt8 → Except String Program)
    (J : Judging) (host : Host) (args : List String) (fuel : Nat) (bytes : List UInt8) :
    Option (Except Panic Exit) :=
  match PoolSetupConnectionScenario.new host args with
  | .error e => some (.ok { code := 2, failed := some (notInitialized e) })
  | .ok scenario =>
    match TestCase.decode S memory postcard bytes with
    | .error p => some (.error p)
    -- input that is not a test case is skipped rather than failed
    | .ok (.error _) => some (.ok { code := 0, skipped := true })
    | .ok (.ok testcase) => do
      let r ← scenario.execute J fuel testcase
      return .ok r.result.exit

/-! ## What a process may come to -/

section Verdict

variable (S : Sv2) (memory : Memory) (postcard : List UInt8 → Except String Program)

/-- The bytes are a test case for a deployment of so many roles. -/
def Runnable (numRoles : Nat) (bytes : List UInt8) (program : CompiledProgram) : Prop :=
  ∃ p, postcard bytes = .ok p ∧ p.isStaticallyValidIn memory = .ok true ∧
    Compiler.compileUsize S memory.connections p = .ok program ∧ p.context.numRoles ≤ numRoles

/-- The report is filed by the cause, wherever in the output it is. -/
def Filed (report cause : String) : Prop :=
  ∀ E : Regex.Engine UInt8, E.LeftmostFirst → ∀ lines : List (List UInt8),
    (∀ line ∈ lines, ¬ reportPattern.Matches line) → ∀ rest : List UInt8,
      causeOf E (Regex.unlines newline lines ++ (asBytes report ++ rest)) = some cause

variable (W : World) (bytes : List UInt8)

/-- What a process that was initialized may come to. -/
inductive Ends : Except Panic Exit → Prop
  /-- Validating the program ends a block where none is open, or there is no memory for
  its variables. -/
  | panicked {p : Program} {panic : Panic} : postcard bytes = .ok p →
      p.isStaticallyValidIn memory = .error panic → Ends (.error panic)
  /-- The connections of a valid program do not fit a set. -/
  | overfull {p : Program} : postcard bytes = .ok p → p.isStaticallyValidIn memory = .ok true →
      memory.connections < p.context.numConnections →
      Ends (.error (.expect "Hash table capacity overflow"))
  | skipped : (∀ program, ¬ Runnable S memory postcard W.deployment.numRoles bytes program) →
      (∀ p, postcard bytes = .ok p → ∃ valid, p.isStaticallyValidIn memory = .ok valid ∧
        (valid = true → p.context.numConnections ≤ memory.connections)) →
      Ends (.ok { code := 0, skipped := true })
  | passed {program : CompiledProgram} {fuel : Nat} {execution : Execution}
      {entries : List TraceEntry} : Runnable S memory postcard W.deployment.numRoles bytes program →
      run W fuel program = some (execution, entries) →
      (∀ a, AnsweredAt W.deployment W.parsers program entries a) →
      W.deployment.isAlive (entries.flatMap TraceEntry.exchanges) = true →
      Ends (.ok { code := 0 })
  | unanswered {program : CompiledProgram} {fuel : Nat} {execution : Execution}
      {entries : List TraceEntry} {report : String} :
      Runnable S memory postcard W.deployment.numRoles bytes program →
      run W fuel program = some (execution, entries) →
      (¬ ∀ a, AnsweredAt W.deployment W.parsers program entries a) →
      Filed report "setupconnection" → Ends (.ok { code := 1, failed := some report })
  | down {program : CompiledProgram} {fuel : Nat} {execution : Execution}
      {entries : List TraceEntry} {report : String} :
      Runnable S memory postcard W.deployment.numRoles bytes program →
      run W fuel program = some (execution, entries) →
      (∀ a, AnsweredAt W.deployment W.parsers program entries a) →
      W.deployment.isAlive (entries.flatMap TraceEntry.exchanges) = false →
      Filed report "crash" → Ends (.ok { code := 1, failed := some report })

/-- A process that was initialized had what it needs to run. -/
theorem Ends.code_ne {S : Sv2} {memory : Memory} {postcard : List UInt8 → Except String Program}
    {W : World} {bytes : List UInt8} {exit : Exit} (h : Ends S memory postcard W bytes (.ok exit)) :
    exit.code ≠ 2 := by
  cases h <;> simp

end Verdict

namespace TestCase

/-- What the bytes decode to. -/
inductive Decodes (S : Sv2) (memory : Memory) (postcard : List UInt8 → Except String Program)
    (bytes : List UInt8) : Except Panic (Except Error TestCase) → Prop
  | panicked {p : Program} {panic : Panic} : postcard bytes = .ok p →
      p.isStaticallyValidIn memory = .error panic → Decodes S memory postcard bytes (.error panic)
  | overfull {p : Program} : postcard bytes = .ok p → p.isStaticallyValidIn memory = .ok true →
      memory.connections < p.context.numConnections →
      Decodes S memory postcard bytes (.error (.expect "Hash table capacity overflow"))
  | refused {e : Error} :
      (∀ p, postcard bytes = .ok p → ∃ valid, p.isStaticallyValidIn memory = .ok valid ∧
        (valid = true → p.context.numConnections ≤ memory.connections)) →
      (∀ numRoles program, ¬ Runnable S memory postcard numRoles bytes program) →
      Decodes S memory postcard bytes (.ok (.error e))
  | testcase {p : Program} {program : CompiledProgram} : postcard bytes = .ok p →
      p.isStaticallyValidIn memory = .ok true →
      Compiler.compileUsize S memory.connections p = .ok program →
      Decodes S memory postcard bytes (.ok (.ok ⟨program⟩))

theorem decodes {S : Sv2} (hS : S.Lawful) (memory : Memory)
    (postcard : List UInt8 → Except String Program) (bytes : List UInt8) :
    Decodes S memory postcard bytes (decode S memory postcard bytes) := by
  unfold decode
  cases hBytes : postcard bytes with
  | error e =>
    refine .refused (fun p hp => ?_) ?_
    · rw [hBytes] at hp
      cases hp
    · rintro numRoles program ⟨p, hp, -⟩
      rw [hBytes] at hp
      cases hp
  | ok p =>
    -- what the bytes are read as, they are read as only
    have hOnly {p' : Program} (hp' : postcard bytes = .ok p') : p = p' :=
      Except.ok.inj (hBytes.symm.trans hp')
    show Decodes S memory postcard bytes (fromProgram S memory p)
    cases hValid : p.isStaticallyValidIn memory with
    | error panic =>
      simp only [fromProgram, TestCase.admitIn, hValid, bind, Except.bind]
      exact .panicked hBytes hValid
    | ok valid =>
      cases valid with
      | false =>
        simp only [fromProgram, TestCase.admitIn, hValid, bind, Except.bind]
        refine .refused (fun p' hp' => ⟨false, hOnly hp' ▸ hValid, nofun⟩) ?_
        rintro numRoles program ⟨p', hp', hValid', -⟩
        obtain rfl := hOnly hp'
        rw [hValid] at hValid'
        cases hValid'
      | true =>
        by_cases hFits : p.context.numConnections ≤ memory.connections
        · rcases compileUsize_cases hS hValid hFits with ⟨program, hCompile⟩ | ⟨v, hCompile⟩
          · simp only [fromProgram, TestCase.admitIn, hValid, bind, Except.bind, hCompile]
            exact .testcase hBytes hValid hCompile
          · simp only [fromProgram, TestCase.admitIn, hValid, bind, Except.bind, hCompile]
            refine .refused (fun p' hp' => ?_) ?_
            · obtain rfl := hOnly hp'
              exact ⟨true, hValid, fun _ => hFits⟩
            · rintro numRoles program ⟨p', hp', -, hCompile', -⟩
              obtain rfl := hOnly hp'
              rw [hCompile] at hCompile'
              cases hCompile'
        · -- the set is filled before any instruction is compiled
          have hAbove := Nat.not_le.mp hFits
          simp only [fromProgram, TestCase.admitIn, hValid, bind, Except.bind,
            compileUsize_of_overfull hAbove]
          exact .overfull hBytes hValid hAbove

end TestCase

/-! ## The verdict -/

namespace PoolSetupConnectionScenario

variable {S : Sv2} {memory : Memory} {postcard : List UInt8 → Except String Program} {J : Judging}
variable {scenario : PoolSetupConnectionScenario} {bytes : List UInt8}

/-- A connection of the pool is to a role that it has. -/
theorem configured (D : PoolDeployment) {history : History} {connection role : Nat}
    (h : D.toDeployment.connect history connection role = true) :
    ∃ config, D.toDeployment.roleConfig role = some config := by
  have hConnect : (if D.roles.length ≤ role then false
      else D.pool.dial history connectRetryBudget) = true := h
  split at hConnect
  · cases hConnect
  · rename_i hKnown
    exact ⟨_, List.getElem?_eq_getElem (Nat.not_le.mp hKnown)⟩

/-- What the oracles say of a run that is over. -/
theorem evaluated (hS : S.Lawful) {p : Program} {program : CompiledProgram}
    (hBytes : postcard bytes = .ok p) (hValid : p.isStaticallyValidIn memory = .ok true)
    (hCompile : Compiler.compileUsize S memory.connections p = .ok program)
    (hFits : p.context.numRoles ≤ (scenario.world J).deployment.numRoles) {fuel : Nat}
    {execution : Execution} {entries : List TraceEntry}
    (hRun : run (scenario.world J) fuel program = some (execution, entries)) :
    Ends S memory postcard (scenario.world J) bytes
      (.ok (evaluate J.debug scenario.deployment.toDeployment program execution
        (entries.flatMap TraceEntry.exchanges)).exit) := by
  have hRunnable : Runnable S memory postcard (scenario.world J).deployment.numRoles bytes program :=
    ⟨p, hBytes, hValid, hCompile, hFits⟩
  have hFinished := Finished.of_run hS (isStaticallyValidIn_iff.mp hValid).1
    (compile_of_compileUsize hCompile)
    (fun _ _ _ _ hConnect => configured scenario.deployment hConnect) hRun
  have hIntegrity := hFinished.integrity
  have hSetup := hFinished.evaluate_eq_pass_iff_answered
  have hFiled {report : String} (hReport : (evaluate J.debug scenario.deployment.toDeployment
      program execution (entries.flatMap TraceEntry.exchanges)).report = some report) :
      Filed report (
        if SetupConnectionOracle.evaluate scenario.deployment.toDeployment program execution ≠
          .pass then "setupconnection" else "crash") := by
    intro E hE lines hLines rest
    have hCause := filed_by_evaluate hE hLines J.debug _ program execution _ hReport rest
    rwa [if_neg (not_not.mpr hIntegrity)] at hCause
  unfold evaluate at hFiled ⊢
  rw [hIntegrity] at hFiled ⊢
  -- the first oracle that fails decides
  cases hOracle : SetupConnectionOracle.evaluate scenario.deployment.toDeployment program
      execution with
  | fail e =>
    simp only [hOracle] at hFiled
    refine .unanswered hRunnable hRun (fun hAnswered => ?_) (hFiled rfl)
    cases (hSetup.mpr hAnswered).symm.trans hOracle
  | pass =>
    simp only [hOracle] at hFiled
    have hAnswered := hSetup.mp hOracle
    simp only [CrashOracle.evaluate] at hFiled ⊢
    cases hAlive : scenario.deployment.toDeployment.isAlive
        (entries.flatMap TraceEntry.exchanges) with
    | true => exact .passed hRunnable hRun hAnswered hAlive
    | false =>
      simp only [hAlive] at hFiled
      exact .down hRunnable hRun hAnswered hAlive (hFiled rfl)

/-- A test case that fits has its run, and one that does not is skipped. -/
theorem execute_settles (hS : S.Lawful) (hFinite : scenario.deployment.toDeployment.FiniteFrames)
    {p : Program} {program : CompiledProgram} (hBytes : postcard bytes = .ok p)
    (hValid : p.isStaticallyValidIn memory = .ok true)
    (hCompile : Compiler.compileUsize S memory.connections p = .ok program) :
    ∃ r, Fuel.Settles (fun fuel => scenario.execute J fuel ⟨program⟩) r ∧
      Ends S memory postcard (scenario.world J) bytes (.ok r.result.exit) := by
  have hCompiled := compile_of_compileUsize hCompile
  have hContext : program.context = p.context := context_of_compile hCompiled
  have hOnly {p' : Program} (hp' : postcard bytes = .ok p') : p = p' :=
    Except.ok.inj (hBytes.symm.trans hp')
  by_cases hFits : p.context.numRoles ≤ (scenario.world J).deployment.numRoles
  · obtain ⟨hTyped, hActions, -⟩ :=
      compiled_of_valid hS (isStaticallyValidIn_iff.mp hValid).1 hCompiled
    have hAdvances : Advances program.actions :=
      hActions ▸ advances_of_blocks (blocks_actionsOf hTyped)
    obtain ⟨⟨execution, entries⟩, n, hRun⟩ := run_settles (W := scenario.world J) hFinite hAdvances
    have hHere : ¬ scenario.deployment.toDeployment.numRoles < program.context.numRoles := by
      rw [hContext]
      exact Nat.not_lt.mpr hFits
    refine ⟨⟨execution, _⟩, ⟨n, fun fuel hFuel => ?_⟩,
      evaluated hS hBytes hValid hCompile hFits (hRun n (Nat.le_refl n))⟩
    simp only [execute, if_neg hHere, hRun fuel hFuel]
    rfl
  · -- no run is begun of a program for more roles than there are
    have hAbove : scenario.deployment.toDeployment.numRoles < program.context.numRoles := by
      rw [hContext]
      exact Nat.not_le.mp hFits
    refine ⟨⟨{}, .skip⟩, ⟨0, fun fuel _ => if_pos hAbove⟩, .skipped ?_ fun p' hp' => ?_⟩
    · rintro program' ⟨p', hp', -, -, hFits'⟩
      obtain rfl := hOnly hp'
      exact hFits hFits'
    · obtain rfl := hOnly hp'
      exact ⟨true, hValid, fun _ => connections_of_compileUsize hCompile⟩

end PoolSetupConnectionScenario

/-- A process that was initialized ends. -/
theorem main_settles {S : Sv2} (hS : S.Lawful) (memory : Memory)
    (postcard : List UInt8 → Except String Program) (J : Judging) {host : Host}
    {args : List String} {scenario : PoolSetupConnectionScenario}
    (hNew : PoolSetupConnectionScenario.new host args = .ok scenario)
    (hFinite : scenario.deployment.toDeployment.FiniteFrames) (bytes : List UInt8) :
    ∃ ending n, (∀ fuel, n ≤ fuel →
        stratamotoMain S memory postcard J host args fuel bytes = some ending) ∧
      Ends S memory postcard (scenario.world J) bytes ending := by
  have hDecodes := TestCase.decodes hS memory postcard bytes
  simp only [stratamotoMain, hNew]
  generalize TestCase.decode S memory postcard bytes = decoded at hDecodes
  cases hDecodes with
  | panicked hBytes hPanic => exact ⟨_, 0, fun _ _ => rfl, .panicked hBytes hPanic⟩
  | overfull hBytes hValid hAbove => exact ⟨_, 0, fun _ _ => rfl, .overfull hBytes hValid hAbove⟩
  | refused hReturns hNever => exact ⟨_, 0, fun _ _ => rfl, .skipped (hNever _) hReturns⟩
  | testcase hBytes hValid hCompile =>
    obtain ⟨r, ⟨n, hExecute⟩, hEnds⟩ :=
      PoolSetupConnectionScenario.execute_settles (J := J) hS hFinite hBytes hValid hCompile
    refine ⟨_, n, fun fuel hFuel => ?_, hEnds⟩
    simp only [hExecute fuel hFuel]
    rfl

theorem filed_notInitialized (e : Error) : Filed (notInitialized e) "infrastructure" := by
  intro E hE lines hLines rest
  rw [notInitialized_bytes, List.append_assoc, List.cons_append]
  exact causeOf_infrastructure hE hLines (by decide) _

theorem Deployment.finiteFrames_of_mute {D : Deployment}
    (h : ∀ history connection timeout frame, D.recv history connection timeout ≠ .ok frame) :
    D.FiniteFrames := by
  refine finiteFrames_of_bounded (fun _ => 0) fun history hPlays c => ?_
  rw [Nat.le_zero, History.framesOn, List.countP_eq_zero]
  intro x hMem hFrame
  obtain ⟨before, after, rfl⟩ := List.append_of_mem hMem
  have hAnswers := hPlays before x after rfl
  unfold Exchange.isFrameOn at hFrame
  split at hFrame
  · exact h _ _ _ _ hAnswers
  · cases hFrame

/-- Handshakes complete and sends succeed, but nothing is ever received. -/
def Pool.mute : Pool where
  dial := fun _ _ => true
  send := fun _ _ _ _ _ _ => .ok ()
  recv := fun _ _ _ => .error .timeout
  now := fun _ => 0

def Host.mute : Host where
  env := fun _ => none
  startPool := fun _ => .ok .mute

def Judging.common : Judging := ⟨.common, .ascending, ⟨fun _ => "", fun _ => ""⟩⟩

/-- The process that is given a program with one setup reports that it went
unanswered. -/
example : (stratamotoMain Sv2.wire .largest (fun _ => .ok singleSetup) .common .mute
    ["scenario", "pool"] 20 []).map (·.map Exit.code) = some (.ok 1) := rfl

end Stratamoto
