import Stratamoto.Harness.Runner

/-!
# Stratamoto — the oracles

`oracle.rs`: an execution checked against what the protocol requires of any
implementation. An oracle walks the compiled actions and looks each one up in
the outcomes, and stops at the first finding.

A finding is kept by its parts (`Finding`); its text (`Finding.message`) shows
an outcome and a setup as Rust prints them for debugging, which are parameters.
-/

namespace Stratamoto

/-! ## Roles -/

def RoleConfig.new (protocol : WireProtocol) : RoleConfig where
  protocol
  minVersion := 2
  maxVersion := 2
  supportedFlags := 0

/-- The subprotocol a role serves, as the wire type spells it. -/
def protocolOf : Protocol → WireProtocol
  | .mining => .miningProtocol
  | .jobDeclaration => .jobDeclarationProtocol
  | .templateDistribution => .templateDistributionProtocol

/-- The wire type reads an id as the subprotocol it is the id of. -/
theorem protocolOf_eq {S : Sv2} (hS : S.Lawful) {protocol : Protocol} {w : WireProtocol}
    (h : S.protocol protocol.id = some w) : protocolOf protocol = w := by
  obtain ⟨hMining, hJob, hTemplate⟩ := hS.protocol
  cases protocol
  · exact Option.some.inj (hMining.symm.trans h)
  · exact Option.some.inj (hJob.symm.trans h)
  · exact Option.some.inj (hTemplate.symm.trans h)

/-! ## Findings -/

def WireProtocol.debug : WireProtocol → String
  | .miningProtocol => "MiningProtocol"
  | .jobDeclarationProtocol => "JobDeclarationProtocol"
  | .templateDistributionProtocol => "TemplateDistributionProtocol"

/-- What an oracle reports. -/
inductive Finding where
  | notTotal (actions outcomes : Nat)
  | harnessError (action : Nat) (instruction : String) (e : String)
  | noOutcome (action : Nat) (instruction : String)
  | noSetup (session : Nat)
  | unknownRole (session role : Nat)
  | answered (role : Nat) (outcome : ActionOutcome) (spec : SetupConnectionSpec)
      (violation : String)
  | notServing
  deriving DecidableEq, Repr

/-- How outcomes and setups are printed for debugging. -/
structure DebugTexts where
  outcome : ActionOutcome → String
  spec : SetupConnectionSpec → String

def Finding.message (debug : DebugTexts) : Finding → String
  | .notTotal actions outcomes =>
    "the program has " ++ toString actions ++ " actions and the execution " ++
      toString outcomes ++ " outcomes"
  | .harnessError action instruction e =>
    "the harness could not carry out action " ++ toString action ++ " (" ++ instruction ++
      "): " ++ e
  | .noOutcome action instruction =>
    "action " ++ toString action ++ " (" ++ instruction ++ ") has no outcome"
  | .noSetup session => "session " ++ toString session ++ " has no recorded SetupConnection"
  | .unknownRole session role =>
    "session " ++ toString session ++ " is on unknown role " ++ toString role
  | .answered role outcome spec violation =>
    "role " ++ toString role ++ " answered " ++ debug.outcome outcome ++ " to " ++
      debug.spec spec ++ ": " ++ violation
  | .notServing => "the deployment stopped serving"

inductive OracleResult where
  | pass
  | fail (finding : Finding)
  deriving DecidableEq, Repr

/-- The instruction an action came from, for a message about it. -/
def CompiledProgram.describe (program : CompiledProgram) (action : Nat) : String :=
  match program.metadata.actionInstructions[action]? with
  | some instruction => "instruction " ++ toString instruction
  | none => "no instruction"

/-! ## What a role may answer -/

/-- `REQUIRES_VERSION_ROLLING`, a flag of a mining setup. -/
def miningRequiresVersionRolling : UInt32 := (1 : UInt32) <<< 2

/-- `REQUIRES_FIXED_VERSION`, a flag of the answer that accepts one. -/
def miningSuccessRequiresFixedVersion : UInt32 := (1 : UInt32) <<< 0

def mustRespond : String :=
  "the server MUST respond with SetupConnection.Success or SetupConnection.Error"

/-- The frames of a probe, printed for debugging. -/
def debugProbed (frames : List (Nat × UInt8)) : String :=
  "Probed([" ++ ", ".intercalate (frames.map fun frame =>
    "(" ++ toString frame.1 ++ ", " ++ toString frame.2 ++ ")") ++ "])"

/-- Why the outcome is not an answer to the setup that a role so configured may
give. An answer is owed only to a setup that was the first message on its
connection. -/
def check (config : RoleConfig) (spec : SetupConnectionSpec) (owed : Bool)
    (outcome : ActionOutcome) : Except String Unit :=
  if !owed then .ok ()
  else
    match outcome with
    | .timedOut => .error mustRespond
    | .transportClosed => .error "the server closed the connection instead of answering"
    | .transportError e => .error ("the transport failed before an answer arrived: " ++ e)
    -- nothing was sent, so nothing is owed; the integrity oracle reports the harness
    | .skipped _ | .harnessError _ => .ok ()
    | .completed .none => .error "the outcome is of the wrong kind: None"
    | .completed (.probed frames) =>
      .error ("the outcome is of the wrong kind: " ++ debugProbed frames)
    | .completed (.setup .silence) => .error mustRespond
    | .completed (.setup (.unexpected messageType)) =>
      .error ("the answer has message type 0x" ++ hexByte messageType ++
        ", which is neither SetupConnection.Success nor SetupConnection.Error")
    | .completed (.setup (.error _ _)) => .ok ()
    | .completed (.setup (.success usedVersion flags)) =>
      if ¬ (spec.minVersion ≤ usedVersion ∧ usedVersion ≤ spec.maxVersion) then
        .error ("used_version " ++ toString usedVersion ++
          " is not a version the client proposed (" ++ toString spec.minVersion ++ "..=" ++
          toString spec.maxVersion ++ ")")
      else if spec.protocol = .mining ∧ flags &&& miningSuccessRequiresFixedVersion ≠ 0 ∧
          spec.flags &&& miningRequiresVersionRolling ≠ 0 then
        .error
          "REQUIRES_FIXED_VERSION MUST NOT be set when the client set REQUIRES_VERSION_ROLLING"
      -- from here on it is what the deployment says of the role
      else if protocolOf spec.protocol ≠ config.protocol then
        .error ("accepted a " ++ spec.protocol.toString ++ " connection on a role that serves " ++
          config.protocol.debug)
      else if ¬ (config.minVersion ≤ usedVersion ∧ usedVersion ≤ config.maxVersion) then
        .error ("used_version " ++ toString usedVersion ++
          " is not a version the role supports (" ++ toString config.minVersion ++ "..=" ++
          toString config.maxVersion ++ ")")
      else .ok ()

/-- What a role so configured may accept the setup with. -/
structure MayAccept (config : RoleConfig) (protocol : WireProtocol) (minVersion maxVersion : UInt16)
    (setupFlags : UInt32) (usedVersion : UInt16) (flags : UInt32) : Prop where
  serves : protocol = config.protocol
  proposed : minVersion ≤ usedVersion ∧ usedVersion ≤ maxVersion
  supported : config.minVersion ≤ usedVersion ∧ usedVersion ≤ config.maxVersion
  rolling : protocol = .miningProtocol → setupFlags &&& miningRequiresVersionRolling ≠ 0 →
    flags &&& miningSuccessRequiresFixedVersion = 0

theorem check_not_owed (config : RoleConfig) (spec : SetupConnectionSpec)
    (outcome : ActionOutcome) : check config spec false outcome = .ok () := rfl

theorem check_skipped (config : RoleConfig) (spec : SetupConnectionSpec) (owed : Bool)
    (unmet : Prerequisite) : check config spec owed (.skipped unmet) = .ok () := by
  cases owed <;> rfl

theorem check_error (config : RoleConfig) (spec : SetupConnectionSpec) (owed : Bool)
    (flags : UInt32) (errorCode : String) :
    check config spec owed (.completed (.setup (.error flags errorCode))) = .ok () := by
  cases owed <;> rfl

/-- A success that is owed passes exactly if the role may give it. -/
theorem check_success_iff {config : RoleConfig} {spec : SetupConnectionSpec}
    {usedVersion : UInt16} {flags : UInt32} :
    check config spec true (.completed (.setup (.success usedVersion flags))) = .ok () ↔
      MayAccept config (protocolOf spec.protocol) spec.minVersion spec.maxVersion spec.flags
        usedVersion flags := by
  -- the wire protocol of a setup is mining if its own is
  have hMining : protocolOf spec.protocol = .miningProtocol ↔ spec.protocol = .mining := by
    cases spec.protocol <;> simp [protocolOf]
  simp only [check, Bool.not_true, Bool.false_eq_true, if_false]
  constructor
  · -- the checks in the order of the source, each answered by a field
    intro h
    split at h
    · cases h
    · rename_i hProposed
      split at h
      · cases h
      · rename_i hRolling
        split at h
        · cases h
        · rename_i hServes
          split at h
          · cases h
          · rename_i hSupported
            refine ⟨not_not.mp hServes, not_not.mp hProposed, not_not.mp hSupported,
              fun hProtocol hSet => ?_⟩
            by_contra hFixed
            exact hRolling ⟨hMining.mp hProtocol, hFixed, hSet⟩
  · intro h
    have hRolling : ¬ (spec.protocol = .mining ∧ flags &&& miningSuccessRequiresFixedVersion ≠ 0 ∧
        spec.flags &&& miningRequiresVersionRolling ≠ 0) := fun ⟨hProtocol, hFixed, hSet⟩ =>
      hFixed (h.rolling (hMining.mpr hProtocol) hSet)
    rw [if_neg (not_not.mpr h.proposed), if_neg hRolling, if_neg (not_not.mpr h.serves),
      if_neg (not_not.mpr h.supported)]

/-! ## The oracles -/

/-- The run recorded what it was supposed to, and nothing in it failed on the
harness's side. -/
def HarnessIntegrityOracle.evaluate (program : CompiledProgram) (execution : Execution) :
    OracleResult :=
  if !execution.isTotal program then
    .fail (.notTotal program.actions.length execution.outcomes.length)
  else
    match execution.outcomes.zipIdx.findSome? fun p =>
      match p.1 with
      | .harnessError e => some (.harnessError p.2 (program.describe p.2) e)
      | _ => none with
    | some finding => .fail finding
    | none => .pass

/-- What the setup oracle makes of one action. -/
def SetupConnectionOracle.judge (D : Deployment) (program : CompiledProgram)
    (execution : Execution) (id : Nat) : Action → Option Finding
  | .awaitSetupResponse connection session _ firstOnConnection =>
    match execution.outcome id with
    | none => some (.noOutcome id (program.describe id))
    | some outcome =>
      match program.metadata.sessionSetups.lookup session with
      | none => some (.noSetup session)
      | some spec =>
        match execution.connectionRoles.lookup connection with
        -- the connection was never opened, so nothing was asked of any role
        | none => none
        | some role =>
          match D.roleConfig role with
          | none => some (.unknownRole session role)
          | some config =>
            let owed := firstOnConnection && (program.metadata.violations.lookup id).isNone
            match check config spec owed outcome with
            | .ok () => none
            | .error violation => some (.answered role outcome spec violation)
  | _ => none

/-- Every setup is answered, and answered in a way the specification allows. -/
def SetupConnectionOracle.evaluate (D : Deployment) (program : CompiledProgram)
    (execution : Execution) : OracleResult :=
  match program.actions.zipIdx.findSome? fun p =>
    SetupConnectionOracle.judge D program execution p.2 p.1 with
  | some finding => .fail finding
  | none => .pass

/-- The deployment is still serving after all that was exchanged with it. -/
def CrashOracle.evaluate (D : Deployment) (history : History) : OracleResult :=
  if D.isAlive history then .pass else .fail .notServing

/-- The setup oracle passes if it has no fault to find with any action. -/
theorem SetupConnectionOracle.evaluate_eq_pass_iff {D : Deployment} {program : CompiledProgram}
    {execution : Execution} : evaluate D program execution = .pass ↔
      ∀ id action, program.actions[id]? = some action →
        judge D program execution id action = none := by
  have hNone : evaluate D program execution = .pass ↔
      (program.actions.zipIdx.findSome? fun p => judge D program execution p.2 p.1) = none := by
    unfold evaluate
    split <;> simp_all
  rw [hNone, List.findSome?_eq_none_iff]
  constructor
  · intro h id action hAction
    exact h (action, id) (List.mem_zipIdx_iff_getElem?.mpr hAction)
  · rintro h ⟨action, id⟩ hMem
    exact h id action (List.mem_zipIdx_iff_getElem?.mp hMem)

/-- An await passes if its outcome and its setup are there, and the role its
connection was opened to is known and may give the outcome. -/
theorem SetupConnectionOracle.judge_eq_none {D : Deployment} {program : CompiledProgram}
    {execution : Execution} {id c session : Nat} {protocol : Protocol} {first : Bool}
    {outcome : ActionOutcome} {spec : SetupConnectionSpec}
    (hOutcome : execution.outcome id = some outcome)
    (hSpec : program.metadata.sessionSetups.lookup session = some spec)
    (hRole : ∀ role, execution.connectionRoles.lookup c = some role →
      ∃ config, D.roleConfig role = some config ∧
        check config spec (first && (program.metadata.violations.lookup id).isNone) outcome =
          .ok ()) :
    judge D program execution id (.awaitSetupResponse c session protocol first) = none := by
  simp only [judge, hOutcome, hSpec]
  -- a connection that was never opened is not judged
  cases hOpened : execution.connectionRoles.lookup c with
  | none => rfl
  | some role =>
    obtain ⟨config, hConfig, hCheck⟩ := hRole role hOpened
    simp only [hConfig, hCheck]

end Stratamoto
