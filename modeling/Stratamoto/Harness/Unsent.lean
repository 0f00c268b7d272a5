import Stratamoto.Harness.Verdicts

/-!
# Stratamoto — setups that were not sent

What comes of a setup whose send did not complete. The runner awaits its answer
all the same, unless the connection was never opened or the block around both is
skipped, so frames still queued on the connection are taken for the answer, and a
transport that fails is held against the role.

* `Neutral D compiled execution a session` — the await `a` neither agrees nor offends;
* `NothingHeard D compiled entries a c session` — when that is so, by the frames the
  deployment delivers;
* `unsent_neutral_iff` — the one exactly if the other;
* `unsent_setup_agrees` — a send that fails, and a session that is established.
-/

namespace Stratamoto

open Runner Operation

/-- The session of the await is not established and the oracle has no fault to
find with the await. -/
structure Neutral (D : Deployment) (compiled : CompiledProgram) (execution : Execution)
    (a session : Nat) : Prop where
  not_agreed : ∀ s, execution.sessions.lookup session = some s → ∀ usedVersion flags,
    s.response ≠ .success usedVersion flags
  not_faulted : ∀ action, compiled.actions[a]? = some action →
    SetupConnectionOracle.judge D compiled execution a action = none

/-- Whether the oracle asks for an answer to the await. -/
def owed (compiled : CompiledProgram) (a : Nat) (first : Bool) : Bool :=
  first && (compiled.metadata.violations.lookup a).isNone

/-- The frames do not say that a setup was agreed to, and say that it was refused
if an answer to it is owed. -/
def Refuses (P : ParsersSv2) (owed : Bool) (frames : List Frame) : Prop :=
  match decidedBy P frames with
  | some (.established _ _) => False
  | some (.rejected _ _) => True
  | _ => owed = false

/-- The await and the send before it, of one instruction. -/
structure Paired (compiled : CompiledProgram) (entries : List TraceEntry) (a c session : Nat)
    (first : Bool) (sent entry : TraceEntry) : Prop where
  await : ∃ protocol, compiled.actions[a]? = some (.awaitSetupResponse c session protocol first)
  pos : 0 < a
  send : ∃ extensionType messageType channelMsg payload, compiled.actions[a - 1]? =
    some (.send c extensionType messageType channelMsg payload)
  instruction : compiled.metadata.actionInstructions[a - 1]? =
    compiled.metadata.actionInstructions[a]?
  sent_at : entries[a - 1]? = some sent
  entry_at : entries[a]? = some entry

/-! ## What an await leaves -/

/-- An outcome that was waited for neither agrees nor is held against the role
exactly if the frames refuse. -/
theorem Runner.AwaitedOn.refuses_iff {P : ParsersSv2} {frames : List Frame} {outcome : ActionOutcome}
    (h : AwaitedOn P frames outcome) (config : RoleConfig) (spec : SetupConnectionSpec)
    (owed : Bool) : ((∀ usedVersion flags,
      outcome ≠ .completed (.setup (.success usedVersion flags))) ∧
        check config spec owed outcome = .ok ()) ↔ Refuses P owed frames := by
  -- an answer decides, and otherwise how the wait failed
  cases h with
  | decided hAnswer =>
    rename_i answer
    rw [Refuses, hAnswer]
    cases answer <;> cases owed <;> simp [responseOf, check]
  | failed hNone hFailed =>
    rw [Refuses, hNone]
    cases outcome with
    | completed _ => exact hFailed.elim
    | skipped _ => exact hFailed.elim
    | harnessError _ => exact hFailed.elim
    | timedOut => cases owed <;> simp [check]
    | transportClosed => cases owed <;> simp [check]
    | transportError e => cases owed <;> simp [check]

section Run

variable {W : World} {S : Sv2} {ctx : ProgramContext} {is : List Instruction}
variable {entries : List TraceEntry} {next : Nat} {r : Runner}

/-- A session is agreed to by its own await. -/
theorem agreed_iff_entry (hTyped : WellTyped ctx is)
    (h : Reaches W (actionsOf S ctx is) entries next r) {a c session : Nat} {protocol : Protocol}
    {first : Bool} {entry : TraceEntry}
    (hAwait : (actionsOf S ctx is)[a]? = some (.awaitSetupResponse c session protocol first))
    (hEntry : entries[a]? = some entry) : Agreed (actionsOf S ctx is) entries session ↔
      entry.attempted = true ∧ ∃ usedVersion flags,
        entry.outcome = .completed (.setup (.success usedVersion flags)) := by
  have hBlocks : Blocks (actionsOf S ctx is) := blocks_actionsOf hTyped
  have hAdvances := advances_of_blocks hBlocks
  constructor
  · rintro ⟨entry', hMem, hAttempted, ⟨c', protocol', first', hAwait'⟩, hAgrees⟩
    obtain ⟨a', hEntry'⟩ := List.getElem?_of_mem hMem
    rw [h.action_eq hAdvances hEntry'] at hAwait'
    -- a session is awaited once, so it is this entry
    obtain rfl := hBlocks.once _ _ _ _ _ _ _ _ _ hAwait hAwait'
    obtain rfl := Option.some.inj (hEntry.symm.trans hEntry')
    exact ⟨hAttempted, hAgrees⟩
  · rintro ⟨hAttempted, hAgrees⟩
    refine ⟨entry, List.mem_of_getElem? hEntry, hAttempted, ⟨c, protocol, first, ?_⟩, hAgrees⟩
    rw [h.action_eq hAdvances hEntry]
    exact hAwait

/-- The send before an await is in the same blocks, so the two are attempted
together. -/
theorem exists_sent (hTyped : WellTyped ctx is)
    (h : Reaches W (actionsOf S ctx is) entries next r) {a n : Nat} {i : Instruction}
    {protocol : Protocol} {entry : TraceEntry} (hFrom : ComesFrom is a n 1 i)
    (hOp : i.operation = .sendSetupConnection protocol) (hEntry : entries[a]? = some entry) :
    ∃ sent, ComesFrom is (a - 1) n 0 i ∧ entries[a - 1]? = some sent ∧
      (sent.attempted = true ↔ entry.attempted = true) := by
  have hIndex := hFrom.index
  have hFrom' : ComesFrom is (a - 1) n 0 i :=
    ⟨hFrom.at_index, by rw [hOp]; exact Nat.two_pos, by omega⟩
  have hLen := (List.getElem?_eq_some_iff.mp hEntry).1
  obtain ⟨sent, hSent⟩ : ∃ sent, entries[a - 1]? = some sent :=
    ⟨_, List.getElem?_eq_getElem (by omega)⟩
  have hRuns : RunsWith ctx is n n := fun b e session hBlock hb he => .around hBlock hb he
  refine ⟨sent, hFrom', hSent, fun hTried => ?_, fun hTried => ?_⟩
  · exact attempted_of_runsWith hTyped h hSent hTried hFrom' hEntry hFrom hRuns
  · exact attempted_of_runsWith hTyped h hEntry hTried hFrom hSent hFrom' hRuns

end Run

/-- What a run leaves of an await, by its entry of the trace. -/
theorem neutral_iff {S : Sv2} (hS : S.Lawful) {W : World} {p : Program}
    {compiled : CompiledProgram} (hValid : p.isStaticallyValid = .ok true)
    (hCompile : Compiler.compile S p = .ok compiled) {fuel : Nat} {execution : Execution}
    {entries : List TraceEntry} (hRun : run W fuel compiled = some (execution, entries))
    {a c session : Nat} {protocol : Protocol} {first : Bool}
    (hAwait : compiled.actions[a]? = some (.awaitSetupResponse c session protocol first))
    {entry : TraceEntry} (hEntry : entries[a]? = some entry) :
    ∃ spec, Neutral W.deployment compiled execution a session ↔
      (entry.attempted = true → ∀ usedVersion flags,
        entry.outcome ≠ .completed (.setup (.success usedVersion flags))) ∧
      ∀ role, OpenedTo compiled.actions entries c role → ∃ config,
        W.deployment.roleConfig role = some config ∧
          check config spec (owed compiled a first) entry.outcome = .ok () := by
  obtain ⟨hTyped, hActions, hDescribes⟩ := compiled_of_valid hS hValid hCompile
  obtain ⟨next, r, hReaches, hEnd, hExecution⟩ := run_reaches hRun
  rw [hActions] at hReaches hEnd
  have hAwait' := hAwait
  rw [hActions] at hAwait'
  obtain ⟨n, i, entry', -, -, -, -, hEntry', hOutcome, hSpec⟩ :=
    hReaches.await_recorded hTyped hDescribes hEnd hAwait'
  set spec := setupSpec p.context (p.instructions.take n) (i.input 1)
  obtain rfl := Option.some.inj (hEntry.symm.trans hEntry')
  have hRoles : ∀ role, execution.connectionRoles.lookup c = some role ↔
      OpenedTo compiled.actions entries c role := by
    rw [hExecution, hActions]
    exact (linked_actionsOf hTyped hReaches).roles c
  have hRecorded : execution.outcome a = some entry.outcome := by
    rw [hExecution]
    exact hOutcome
  have hSessions : execution.sessions = r.execution.sessions := by rw [hExecution]
  -- what the execution records of the session is what its entry says
  have hAgreed := (Reaches.established_iff (blocks_actionsOf hTyped) hReaches session).trans
    (agreed_iff_entry hTyped hReaches hAwait' hEntry)
  -- and what the oracle finds of the await is decided by the same entry
  have hJudge : ∀ finding, SetupConnectionOracle.judge W.deployment compiled execution a
      (.awaitSetupResponse c session protocol first) = some finding ↔
        FoundWith W.deployment compiled.actions entries c session spec (owed compiled a first)
          entry.outcome finding := SetupConnectionOracle.judge_await hRecorded hSpec hRoles
  refine ⟨spec, fun h => ⟨fun hTried v f hSuccess => ?_, fun role hOpened => ?_⟩, fun h => ⟨?_, ?_⟩⟩
  · obtain ⟨s, v', f', hLookup, hResponse⟩ :=
      Runner.established_iff.mp (hAgreed.mpr ⟨hTried, v, f, hSuccess⟩)
    exact h.not_agreed s (by rw [hSessions, hLookup]) v' f' hResponse
  · -- a finding there would be one against the await
    have hNone := h.not_faulted _ hAwait
    cases hConfig : W.deployment.roleConfig role with
    | none =>
      rw [(hJudge _).mpr (.unknownRole hOpened hConfig)] at hNone
      cases hNone
    | some config =>
      refine ⟨config, rfl, ?_⟩
      cases hCheck : check config spec (owed compiled a first) entry.outcome with
      | ok _ => rfl
      | error violation =>
        rw [(hJudge _).mpr (.answered hOpened hConfig hCheck)] at hNone
        cases hNone
  · intro s hLookup v f hResponse
    rw [hSessions] at hLookup
    obtain ⟨hTried, v', f', hSuccess⟩ :=
      hAgreed.mp (Runner.established_iff.mpr ⟨s, v, f, hLookup, hResponse⟩)
    exact h.1 hTried v' f' hSuccess
  · intro action hAction
    obtain rfl := Option.some.inj (hAwait.symm.trans hAction)
    rw [Option.eq_none_iff_forall_ne_some]
    intro finding hFinding
    cases (hJudge finding).mp hFinding with
    | unknownRole hOpened hUnknown =>
      obtain ⟨config, hConfig, -⟩ := h.2 _ hOpened
      rw [hUnknown] at hConfig
      cases hConfig
    | answered hOpened hConfig hCheck =>
      obtain ⟨config', hConfig', hOk⟩ := h.2 _ hOpened
      obtain rfl := Option.some.inj (hConfig.symm.trans hConfig')
      cases hOk.symm.trans hCheck

/-- **A setup that was not sent.** Of a statically valid program that compiles, the
send before an await is of the same instruction; and if it did not complete, the
session is not established and the oracle has no fault to find with the await
exactly if, should the connection have been opened, its role is known and, should
the send have been attempted, the frames that arrive while the answer is awaited
refuse the setup. -/
theorem unsent_neutral_iff {S : Sv2} (hS : S.Lawful) {W : World} {p : Program}
    {compiled : CompiledProgram} (hValid : p.isStaticallyValid = .ok true)
    (hCompile : Compiler.compile S p = .ok compiled) {fuel : Nat} {execution : Execution}
    {entries : List TraceEntry} (hRun : run W fuel compiled = some (execution, entries))
    {a c session : Nat} {protocol : Protocol} {first : Bool}
    (hAwait : compiled.actions[a]? = some (.awaitSetupResponse c session protocol first)) :
    ∃ sent entry, Paired compiled entries a c session first sent entry ∧
      ((∀ response, sent.outcome ≠ .completed response) →
        (Neutral W.deployment compiled execution a session ↔
          ∀ role, OpenedTo compiled.actions entries c role →
            (∃ config, W.deployment.roleConfig role = some config) ∧
            (sent.attempted = true → Refuses W.parsers (owed compiled a first)
              (History.receivedOn entry.exchanges c)))) := by
  obtain ⟨hTyped, hActions, hDescribes⟩ := compiled_of_valid hS hValid hCompile
  obtain ⟨next, r, hReaches, hEnd, -⟩ := run_reaches hRun
  rw [hActions] at hReaches hEnd
  have hAwait' := hAwait
  rw [hActions] at hAwait'
  obtain ⟨n, i, entry, hFrom, hOp, hc, -, hEntry, -, -⟩ :=
    hReaches.await_recorded hTyped hDescribes hEnd hAwait'
  obtain ⟨sent, hFromSend, hSent, hTogether⟩ := exists_sent hTyped hReaches hFrom hOp hEntry
  have hIndex := hFrom.index
  refine ⟨sent, entry, ⟨⟨protocol, hAwait⟩, by omega, ?_, ?_, hSent, hEntry⟩, fun hUnsent => ?_⟩
  · refine ⟨0, S.messageTypeSetupConnection, false,
      payloadOf S (setupSpec p.context (p.instructions.take n) (i.input 1)), ?_⟩
    rw [hActions, hFromSend.action, lower, hOp, hc]
    rfl
  · rw [hDescribes.actionInstructions, hFromSend.instruction, hFrom.instruction]
  · obtain ⟨spec, hNeutral⟩ := neutral_iff hS hValid hCompile hRun hAwait hEntry
    rw [hNeutral]
    cases hReaches.await_entry hTyped hAwait' hEntry with
    | inSkipped session' hNot hSkipped =>
      -- neither was attempted, which leaves the role
      have hNotSent : ¬ sent.attempted = true := fun hTried => by
        rw [hTogether.mp hTried] at hNot
        cases hNot
      rw [hSkipped]
      constructor
      · rintro ⟨-, hChecks⟩ role hOpened
        obtain ⟨config, hConfig, -⟩ := hChecks role hOpened
        exact ⟨⟨config, hConfig⟩, fun hTried => absurd hTried hNotSent⟩
      · intro hRoles
        refine ⟨fun _ _ _ => ActionOutcome.noConfusion, fun role hOpened => ?_⟩
        obtain ⟨⟨config, hConfig⟩, -⟩ := hRoles role hOpened
        exact ⟨config, hConfig, check_skipped _ _ _ _⟩
    | unopened hTried hNever hSkipped =>
      rw [← hActions] at hNever
      rw [hSkipped]
      refine iff_of_true ⟨fun _ _ _ => ActionOutcome.noConfusion, fun role hOpened => ?_⟩
        fun role hOpened => absurd hOpened (hNever role)
      exact absurd hOpened (hNever role)
    | heard role hTried hOpened hHeard =>
      rw [← hActions] at hOpened
      constructor
      · rintro ⟨hNotAgreed, hChecks⟩ role' hOpened'
        obtain ⟨config, hConfig, hCheck⟩ := hChecks role' hOpened'
        exact ⟨⟨config, hConfig⟩, fun _ =>
          (hHeard.refuses_iff config spec _).mp ⟨hNotAgreed hTried, hCheck⟩⟩
      · intro hRoles
        obtain ⟨⟨config, -⟩, hRefuses⟩ := hRoles role hOpened
        have hRefuses := hRefuses (hTogether.mpr hTried)
        refine ⟨fun _ => ((hHeard.refuses_iff config spec _).mpr hRefuses).1,
          fun role' hOpened' => ?_⟩
        obtain ⟨⟨config', hConfig'⟩, -⟩ := hRoles role' hOpened'
        exact ⟨config', hConfig', ((hHeard.refuses_iff config' spec _).mpr hRefuses).2⟩

/-! ## A send that fails -/

/-- Connections open, every send finds the connection reset, and a success is
queued on every connection. -/
def Deployment.eager : Deployment where
  connect := fun _ _ _ => true
  send := fun _ _ _ _ _ _ => .error (.io .connectionReset "connection reset")
  recv := fun history connection _ =>
    if history.framesOn connection = 0 then .ok .success else .error .timeout
  now := fun _ => 0
  roleConfig := fun _ => some (.new .miningProtocol)
  numRoles := 1
  isAlive := fun _ => true

def World.eager : World := ⟨.eager, .common, .ascending⟩

/-- The equivalence, for the one await of such a run. -/
theorem unsent_neutral_iff_eager : ∃ compiled execution entries sent entry,
    Compiler.compile Sv2.wire singleSetup = .ok compiled ∧
    run .eager 20 compiled = some (execution, entries) ∧
    Paired compiled entries 2 0 0 true sent entry ∧
    ((∀ response, sent.outcome ≠ .completed response) →
      (Neutral World.eager.deployment compiled execution 2 0 ↔
        ∀ role, OpenedTo compiled.actions entries 0 role →
          (∃ config, World.eager.deployment.roleConfig role = some config) ∧
          (sent.attempted = true → Refuses World.eager.parsers (owed compiled 2 true)
            (History.receivedOn entry.exchanges 0)))) := by
  obtain ⟨compiled, execution, entries, hCompile, hRun, hAwait⟩ :
      ∃ compiled execution entries, Compiler.compile Sv2.wire singleSetup = .ok compiled ∧
        run .eager 20 compiled = some (execution, entries) ∧
        compiled.actions[2]? = some (.awaitSetupResponse 0 0 .mining true) :=
    ⟨_, _, _, rfl, rfl, rfl⟩
  obtain ⟨sent, entry, hPaired, hIff⟩ := unsent_neutral_iff (W := .eager) Sv2.wire_lawful (by decide)
    hCompile hRun hAwait
  exact ⟨compiled, execution, entries, sent, entry, hCompile, hRun, hPaired, hIff⟩

/-- The setup is not sent, and its session is established: the success that was
queued is taken for its answer. -/
theorem unsent_setup_agrees : ∃ compiled execution entries sent,
    singleSetup.isStaticallyValid = .ok true ∧
    Compiler.compile Sv2.wire singleSetup = .ok compiled ∧
    run .eager 20 compiled = some (execution, entries) ∧
    compiled.actions[2]? = some (.awaitSetupResponse 0 0 .mining true) ∧
    entries[1]? = some sent ∧ sent.outcome = .transportClosed ∧
    ¬ Neutral World.eager.deployment compiled execution 2 0 := by
  refine ⟨_, _, _, _, by decide, rfl, rfl, rfl, rfl, rfl, fun hNeutral => ?_⟩
  exact hNeutral.not_agreed _ rfl 2 0 rfl

end Stratamoto
