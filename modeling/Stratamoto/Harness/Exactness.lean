import Stratamoto.Harness.Verdicts

/-!
# Stratamoto — what the setup oracle finds, exactly

No false positives is half of what an oracle is for. The other half is that nothing
escapes it: whatever a deployment does, a setup that is owed an answer and does not
get a lawful one is reported.

* `Frame.MayAnswer P config spec` — the frame is a lawful answer to the setup;
* `AnsweredAmong P config spec frames` — the first of the frames that decodes is one;
* `Owed` — the await is of a setup that is owed an answer;
* `judge_eq_none_iff` — what the oracle makes of one await;
* `evaluate_eq_pass_iff_answered` — the oracle passes exactly if all that is owed is
  answered;
* `reports_first_unanswered` — and else reports the first that is not.
-/

namespace Stratamoto

open Runner

/-! ## Lawful answers -/

/-- The frame is what a role so configured may answer the setup with. -/
def Frame.MayAnswer (P : ParsersSv2) (config : RoleConfig) (spec : SetupConnectionSpec)
    (frame : Frame) : Prop :=
  frame.extTypeWithoutChannelMsg = 0 ∧
    ((∃ flags errorCode, frame.message P = .ok (.setupConnectionError flags errorCode)) ∨
      ∃ usedVersion flags, frame.message P = .ok (.setupConnectionSuccess usedVersion flags) ∧
        MayAccept config (protocolOf spec.protocol) spec.minVersion spec.maxVersion spec.flags
          usedVersion flags)

/-- The first of the frames that decodes is a lawful answer. -/
def AnsweredAmong (P : ParsersSv2) (config : RoleConfig) (spec : SetupConnectionSpec)
    (frames : List Frame) : Prop :=
  ∃ before frame after, frames = before ++ frame :: after ∧
    (∀ earlier ∈ before, ¬ earlier.Decodes P) ∧ frame.MayAnswer P config spec

section Answers

variable {P : ParsersSv2} {config : RoleConfig} {spec : SetupConnectionSpec}

theorem Frame.MayAnswer.decodes {frame : Frame} (h : frame.MayAnswer P config spec) :
    frame.Decodes P := by
  obtain ⟨hExt, ⟨_, _, hMessage⟩ | ⟨_, _, hMessage, -⟩⟩ := h
  · exact ⟨hExt, _, hMessage⟩
  · exact ⟨hExt, _, hMessage⟩

/-- Of a frame that decodes, what the dispatcher makes of it passes the check if
and only if it is a lawful answer. -/
theorem check_answerOf_iff {frame : Frame} (hDecodes : frame.Decodes P) :
    check config spec true (.completed (.setup (responseOf (answerOf P frame)))) = .ok () ↔
      frame.MayAnswer P config spec := by
  obtain ⟨hExt, message, hMessage⟩ := hDecodes
  rw [Frame.MayAnswer, answerOf, if_pos hExt, hMessage]
  cases message with
  | setupConnectionSuccess usedVersion flags =>
    rw [responseOf, check_success_iff]
    constructor
    · intro hMay
      exact ⟨hExt, Or.inr ⟨usedVersion, flags, rfl, hMay⟩⟩
    · rintro ⟨-, ⟨_, _, hError⟩ | ⟨_, _, hSuccess, hMay⟩⟩
      · cases hError
      · cases hSuccess
        exact hMay
  | setupConnectionError flags errorCode =>
    exact iff_of_true (check_error ..) ⟨hExt, Or.inl ⟨flags, errorCode, rfl⟩⟩
  | _ =>
    -- any other message is no answer
    refine iff_of_false (fun hCheck => ?_) ?_
    · cases hCheck
    · rintro ⟨-, ⟨_, _, hError⟩ | ⟨_, _, hSuccess, -⟩⟩
      · cases hError
      · cases hSuccess

/-- A lawful answer is what decides the setup. -/
theorem answeredAmong_iff {frames : List Frame} : AnsweredAmong P config spec frames ↔
    ∃ answer, decidedBy P frames = some answer ∧
      check config spec true (.completed (.setup (responseOf answer))) = .ok () := by
  induction frames with
  | nil =>
    refine iff_of_false ?_ ?_
    · rintro ⟨before, frame, after, hFrames, -⟩
      exact List.append_ne_nil_of_right_ne_nil before (List.cons_ne_nil frame after) hFrames.symm
    · rintro ⟨_, hNone, -⟩
      cases hNone
  | cons first frames ih =>
    rw [decidedBy]
    by_cases hDecodes : first.Decodes P
    · -- the first frame decides
      rw [if_pos hDecodes]
      constructor
      · rintro ⟨before, frame, after, hFrames, hEarlier, hMay⟩
        cases before with
        | nil =>
          obtain ⟨rfl, -⟩ := List.cons.inj hFrames
          exact ⟨_, rfl, (check_answerOf_iff hDecodes).mpr hMay⟩
        | cons earlier before =>
          obtain ⟨rfl, -⟩ := List.cons.inj hFrames
          exact absurd hDecodes (hEarlier _ List.mem_cons_self)
      · rintro ⟨answer, hAnswer, hCheck⟩
        obtain rfl := Option.some.inj hAnswer
        exact ⟨[], first, frames, rfl, fun _ hMem => absurd hMem List.not_mem_nil,
          (check_answerOf_iff hDecodes).mp hCheck⟩
    · -- it is passed over
      rw [if_neg hDecodes, ← ih]
      constructor
      · rintro ⟨before, frame, after, hFrames, hEarlier, hMay⟩
        cases before with
        | nil =>
          obtain ⟨rfl, -⟩ := List.cons.inj hFrames
          exact absurd hMay.decodes hDecodes
        | cons earlier before =>
          obtain ⟨-, hRest⟩ := List.cons.inj hFrames
          exact ⟨before, frame, after, hRest,
            fun frame' hMem => hEarlier frame' (List.mem_cons_of_mem _ hMem), hMay⟩
      · rintro ⟨before, frame, after, rfl, hEarlier, hMay⟩
        refine ⟨first :: before, frame, after, rfl, fun frame' hMem => ?_, hMay⟩
        rcases List.mem_cons.mp hMem with rfl | hMem
        · exact hDecodes
        · exact hEarlier frame' hMem

/-- The outcome of an await passes the check if and only if it was answered lawfully. -/
theorem Runner.AwaitedOn.check_iff {frames : List Frame} {outcome : ActionOutcome}
    (h : AwaitedOn P frames outcome) :
    check config spec true outcome = .ok () ↔ AnsweredAmong P config spec frames := by
  rw [answeredAmong_iff]
  cases h with
  | decided hAnswer =>
    rw [hAnswer]
    constructor
    · intro hCheck
      exact ⟨_, rfl, hCheck⟩
    · rintro ⟨answer, hEq, hCheck⟩
      obtain rfl := Option.some.inj hEq
      exact hCheck
  | failed hNone hFailed =>
    rw [hNone]
    refine iff_of_false (fun hCheck => ?_) ?_
    · -- every failure of the transport is an offence
      cases outcome with
      | timedOut => cases hCheck
      | transportClosed => cases hCheck
      | transportError e => cases hCheck
      | completed _ => exact hFailed
      | skipped _ => exact hFailed
      | harnessError _ => exact hFailed
    · rintro ⟨_, hAnswer, -⟩
      cases hAnswer

end Answers

/-! ## What is owed -/

/-- The await is of a setup that is owed an answer: it is the first message on its
connection and written as the protocol requires, the connection was opened to a
role of the deployment, and the await was not skipped with a block it is in. -/
structure Owed (D : Deployment) (program : CompiledProgram) (entries : List TraceEntry)
    (a c role : Nat) (config : RoleConfig) (spec : SetupConnectionSpec) (entry : TraceEntry) :
    Prop where
  await : ∃ session protocol,
    program.actions[a]? = some (.awaitSetupResponse c session protocol true) ∧
    program.metadata.sessionSetups.lookup session = some spec
  unviolated : program.metadata.violations.lookup a = none
  opened : OpenedTo program.actions entries c role
  configured : D.roleConfig role = some config
  recorded : entries[a]? = some entry
  attempted : entry.attempted = true

/-- What is owed by the await, if anything, was given. -/
def AnsweredAt (D : Deployment) (P : ParsersSv2) (program : CompiledProgram)
    (entries : List TraceEntry) (a : Nat) : Prop :=
  ∀ c role config spec entry, Owed D program entries a c role config spec entry →
    AnsweredAmong P config spec (History.receivedOn entry.exchanges c)

/-- A run of a compiled program that is over, against a deployment whose connections
open only to roles that it has. -/
structure Finished (S : Sv2) (W : World) (ctx : ProgramContext) (is : List Instruction)
    (compiled : CompiledProgram) (entries : List TraceEntry) (execution : Execution) : Prop where
  typed : WellTyped ctx is
  actions : compiled.actions = actionsOf S ctx is
  describes : Describes ctx is compiled.metadata
  reached : ∃ next r, Reaches W (actionsOf S ctx is) entries next r ∧
    (actionsOf S ctx is).length ≤ next ∧
    execution = { r.execution with connections := r.states }
  configured : ∀ history connection role, W.deployment.Plays history →
    W.deployment.connect history connection role = true →
    ∃ config, W.deployment.roleConfig role = some config

theorem Finished.of_run {S : Sv2} (hS : S.Lawful) {W : World} {p : Program}
    {compiled : CompiledProgram} (hValid : p.isStaticallyValid = .ok true)
    (hCompile : Compiler.compile S p = .ok compiled)
    (hConfigured : ∀ history connection role, W.deployment.Plays history →
      W.deployment.connect history connection role = true →
      ∃ config, W.deployment.roleConfig role = some config)
    {fuel : Nat} {execution : Execution} {entries : List TraceEntry}
    (hRun : run W fuel compiled = some (execution, entries)) :
    Finished S W p.context p.instructions compiled entries execution := by
  obtain ⟨hTyped, hActions, hDescribes⟩ := compiled_of_valid hS hValid hCompile
  obtain ⟨next, r, hReaches, hEnd, hExecution⟩ := run_reaches hRun
  rw [hActions] at hReaches hEnd
  exact ⟨hTyped, hActions, hDescribes, ⟨next, r, hReaches, hEnd, hExecution⟩, hConfigured⟩

namespace Finished

variable {S : Sv2} {W : World} {ctx : ProgramContext} {is : List Instruction}
variable {compiled : CompiledProgram} {entries : List TraceEntry} {execution : Execution}

/-- What an await leaves behind, and what its connection was opened to. -/
theorem await (h : Finished S W ctx is compiled entries execution) {a c session : Nat}
    {protocol : Protocol} {first : Bool}
    (hAwait : compiled.actions[a]? = some (.awaitSetupResponse c session protocol first)) :
    ∃ entry spec, entries[a]? = some entry ∧ execution.outcome a = some entry.outcome ∧
      compiled.metadata.sessionSetups.lookup session = some spec ∧
      AwaitEntry W.parsers compiled.actions entries c entry ∧
      (∀ role, execution.connectionRoles.lookup c = some role ↔
        OpenedTo compiled.actions entries c role) ∧
      ∀ role, OpenedTo compiled.actions entries c role →
        ∃ config, W.deployment.roleConfig role = some config := by
  obtain ⟨next, r, hReaches, hEnd, hExecution⟩ := h.reached
  rw [h.actions] at hAwait ⊢
  obtain ⟨n, i, entry, -, -, -, -, hEntry, hOutcome, hSpec⟩ :=
    hReaches.await_recorded h.typed h.describes hEnd hAwait
  refine ⟨entry, _, hEntry, by rw [hExecution]; exact hOutcome, hSpec,
    hReaches.await_entry h.typed hAwait hEntry,
    by rw [hExecution]; exact (linked_actionsOf h.typed hReaches).roles c, fun role hOpened => ?_⟩
  -- a connection that was opened is one to a known role
  obtain ⟨before, after, hHistory⟩ := List.append_of_mem (hReaches.opened hOpened)
  have hPlays := hReaches.plays
  rw [hHistory] at hPlays
  exact h.configured _ _ _ hPlays.of_append (hPlays _ _ _ rfl)

/-- The harness did its part. -/
theorem integrity (h : Finished S W ctx is compiled entries execution) :
    HarnessIntegrityOracle.evaluate compiled execution = .pass := by
  obtain ⟨next, r, hReaches, hEnd, hExecution⟩ := h.reached
  have hOutcomes : execution.outcomes = entries.map TraceEntry.outcome := by
    rw [hExecution]
    exact hReaches.outcomes
  refine HarnessIntegrityOracle.evaluate_eq_pass ?_ fun outcome hMem e => ?_
  · -- the entries are those of the actions, in order
    obtain ⟨hActions, hNext⟩ := hReaches.covers (advances_of_blocks (blocks_actionsOf h.typed))
    have hLength := congrArg List.length hActions
    rw [List.length_map, List.length_range] at hLength
    rw [hOutcomes, List.length_map, hLength, h.actions]
    exact Nat.le_antisymm hNext hEnd
  · rw [hOutcomes] at hMem
    obtain ⟨entry, hEntry, rfl⟩ := List.mem_map.mp hMem
    exact hReaches.ne_harnessError h.typed hEntry e

/-- What is owed by an await is owed with what the run recorded of it. -/
theorem answeredAt_iff {a c session : Nat} {protocol : Protocol} {first : Bool}
    {spec : SetupConnectionSpec} {entry : TraceEntry}
    (hAwait : compiled.actions[a]? = some (.awaitSetupResponse c session protocol first))
    (hSpec : compiled.metadata.sessionSetups.lookup session = some spec)
    (hEntry : entries[a]? = some entry) :
    AnsweredAt W.deployment W.parsers compiled entries a ↔
      ∀ role config, Owed W.deployment compiled entries a c role config spec entry →
        AnsweredAmong W.parsers config spec (History.receivedOn entry.exchanges c) := by
  constructor
  · intro hAnswered role config hOwed
    exact hAnswered c role config spec entry hOwed
  · intro hAnswered c' role config spec' entry' hOwed
    obtain ⟨session', protocol', hAwait', hSpec'⟩ := hOwed.await
    -- the await, its setup and its entry are the ones there are
    rw [hAwait] at hAwait'
    obtain ⟨rfl, rfl, rfl, rfl⟩ := Action.awaitSetupResponse.inj (Option.some.inj hAwait')
    obtain rfl := Option.some.inj (hSpec.symm.trans hSpec')
    obtain rfl := Option.some.inj (hEntry.symm.trans hOwed.recorded)
    exact hAnswered role config hOwed

/-- What the oracle makes of an action: nothing if what it owes, if anything, was
given; else it reports an await that was owed an answer and got no lawful one. -/
theorem judge_cases (h : Finished S W ctx is compiled entries execution) {a : Nat}
    {action : Action} (hAction : compiled.actions[a]? = some action) :
    (SetupConnectionOracle.judge W.deployment compiled execution a action = none ∧
      AnsweredAt W.deployment W.parsers compiled entries a) ∨
    ∃ c role config spec entry violation,
      SetupConnectionOracle.judge W.deployment compiled execution a action =
        some (.answered role entry.outcome spec violation) ∧
      Owed W.deployment compiled entries a c role config spec entry ∧
      ¬ AnsweredAmong W.parsers config spec (History.receivedOn entry.exchanges c) ∧
      check config spec true entry.outcome = .error violation := by
  cases action with
  | awaitSetupResponse c session protocol first =>
    obtain ⟨entry, spec, hEntry, hOutcome, hSpec, hAwaited, hRoles, hKnown⟩ := h.await hAction
    rw [answeredAt_iff hAction hSpec hEntry]
    -- an outcome that passes whatever is owed is not judged
    have hPasses (hOk : ∀ config,
        check config spec (first && (compiled.metadata.violations.lookup a).isNone)
          entry.outcome = .ok ()) :
        SetupConnectionOracle.judge W.deployment compiled execution a
          (.awaitSetupResponse c session protocol first) = none :=
      SetupConnectionOracle.judge_eq_none hOutcome hSpec fun role hRole => by
        obtain ⟨config, hConfig⟩ := hKnown role ((hRoles role).mp hRole)
        exact ⟨config, hConfig, hOk config⟩
    cases hAwaited with
    | inSkipped session' hSkipped hUnmet =>
      refine Or.inl ⟨hPasses fun config => by rw [hUnmet, check_skipped], fun role config hOwed => ?_⟩
      rw [hOwed.attempted] at hSkipped
      cases hSkipped
    | unopened _ hNever hUnmet =>
      refine Or.inl ⟨hPasses fun config => by rw [hUnmet, check_skipped], fun role config hOwed => ?_⟩
      exact absurd hOwed.opened (hNever role)
    | heard role hAttempted hOpened hHeard =>
      obtain ⟨config, hConfig⟩ := hKnown role hOpened
      -- the connection was opened to this role only
      have hOnly {role' : Nat} (hOpened' : OpenedTo compiled.actions entries c role') :
          role' = role :=
        Option.some.inj (((hRoles role').mpr hOpened').symm.trans ((hRoles role).mpr hOpened))
      by_cases hOwes : (first && (compiled.metadata.violations.lookup a).isNone) = true
      · obtain ⟨rfl, hClean⟩ := Bool.and_eq_true_iff.mp hOwes
        cases hCheck : check config spec true entry.outcome with
        | ok _ =>
          refine Or.inl ⟨SetupConnectionOracle.judge_eq_none hOutcome hSpec fun role' hRole => ?_,
            fun role' config' hOwed => ?_⟩
          · obtain rfl := hOnly ((hRoles role').mp hRole)
            exact ⟨config, hConfig, by rw [hOwes]; exact hCheck⟩
          · obtain rfl := hOnly hOwed.opened
            obtain rfl := Option.some.inj (hConfig.symm.trans hOwed.configured)
            exact hHeard.check_iff.mp hCheck
        | error violation =>
          refine Or.inr ⟨c, role, config, spec, entry, violation, ?_,
            ⟨⟨session, protocol, hAction, hSpec⟩, Option.isNone_iff_eq_none.mp hClean, hOpened,
              hConfig, hEntry, hAttempted⟩, fun hAnswered => ?_, hCheck⟩
          · exact (SetupConnectionOracle.judge_await hOutcome hSpec hRoles _).mpr
              (.answered hOpened hConfig (by rw [hOwes]; exact hCheck))
          · rw [hHeard.check_iff.mpr hAnswered] at hCheck
            cases hCheck
      · -- nothing is owed, so nothing is constrained
        rw [Bool.not_eq_true] at hOwes
        refine Or.inl ⟨hPasses fun config' => by rw [hOwes, check_not_owed],
          fun role' config' hOwed => ?_⟩
        obtain ⟨_, _, hAwait', -⟩ := hOwed.await
        rw [hAction] at hAwait'
        obtain ⟨-, -, -, rfl⟩ := Action.awaitSetupResponse.inj (Option.some.inj hAwait')
        rw [hOwed.unviolated] at hOwes
        cases hOwes
  | _ =>
    -- only awaits are judged, and only they are owed anything
    refine Or.inl ⟨rfl, fun c role config spec entry hOwed => ?_⟩
    obtain ⟨_, _, hAwait, -⟩ := hOwed.await
    rw [hAction] at hAwait
    cases hAwait

/-- The oracle has no fault to find with an action if and only if what it owes was given. -/
theorem judge_eq_none_iff (h : Finished S W ctx is compiled entries execution) {a : Nat}
    {action : Action} (hAction : compiled.actions[a]? = some action) :
    SetupConnectionOracle.judge W.deployment compiled execution a action = none ↔
      AnsweredAt W.deployment W.parsers compiled entries a := by
  rcases h.judge_cases hAction with ⟨hNone, hAnswered⟩ | ⟨c, role, config, spec, entry, violation,
    hSome, hOwed, hNot, -⟩
  · exact iff_of_true hNone hAnswered
  · refine iff_of_false (fun hNone => ?_) fun hAnswered => hNot (hAnswered _ _ _ _ _ hOwed)
    rw [hNone] at hSome
    cases hSome

/-- Nothing is owed where there is no action. -/
theorem answeredAt_of_none {a : Nat} (hNone : compiled.actions[a]? = none) :
    AnsweredAt W.deployment W.parsers compiled entries a := by
  intro c role config spec entry hOwed
  obtain ⟨_, _, hAwait, -⟩ := hOwed.await
  rw [hNone] at hAwait
  cases hAwait

theorem evaluate_eq_pass_iff_answered (h : Finished S W ctx is compiled entries execution) :
    SetupConnectionOracle.evaluate W.deployment compiled execution = .pass ↔
      ∀ a, AnsweredAt W.deployment W.parsers compiled entries a := by
  rw [SetupConnectionOracle.evaluate_eq_pass_iff]
  constructor
  · intro hNone a
    cases hAction : compiled.actions[a]? with
    | none => exact answeredAt_of_none hAction
    | some action => exact (h.judge_eq_none_iff hAction).mp (hNone a action hAction)
  · intro hAnswered a action hAction
    exact (h.judge_eq_none_iff hAction).mpr (hAnswered a)

/-- The finding is of the first await that has one. -/
theorem reports_first (h : Finished S W ctx is compiled entries execution) {finding : Finding}
    (hFail : SetupConnectionOracle.evaluate W.deployment compiled execution = .fail finding) :
    ∃ a c role config spec entry violation,
      finding = .answered role entry.outcome spec violation ∧
      Owed W.deployment compiled entries a c role config spec entry ∧
      ¬ AnsweredAmong W.parsers config spec (History.receivedOn entry.exchanges c) ∧
      check config spec true entry.outcome = .error violation ∧
      ∀ a' < a, AnsweredAt W.deployment W.parsers compiled entries a' := by
  unfold SetupConnectionOracle.evaluate at hFail
  split at hFail
  · rename_i hFound
    cases hFail
    obtain ⟨before, ⟨action, a⟩, after, hSplit, hJudge, hBefore⟩ :=
      List.findSome?_eq_some_iff.mp hFound
    -- the actions before it are those before it in the list
    have hIndex : a = before.length := by
      have hAt : compiled.actions.zipIdx[before.length]? = some (action, a) := by
        rw [hSplit, List.getElem?_append_right (Nat.le_refl _), Nat.sub_self]
        rfl
      rw [List.getElem?_zipIdx] at hAt
      obtain ⟨_, -, hPair⟩ := Option.map_eq_some_iff.mp hAt
      exact (Prod.mk.inj hPair).2.symm.trans (Nat.zero_add _)
    have hMem : (action, a) ∈ compiled.actions.zipIdx := by
      rw [hSplit]
      exact List.mem_append_right _ List.mem_cons_self
    have hAction : compiled.actions[a]? = some action := List.mem_zipIdx_iff_getElem?.mp hMem
    rcases h.judge_cases hAction with ⟨hNone, -⟩ | ⟨c, role, config, spec, entry, violation, hSome,
      hOwed, hNot, hCheck⟩
    · rw [hNone] at hJudge
      cases hJudge
    · obtain rfl := Option.some.inj (hSome.symm.trans hJudge)
      refine ⟨a, c, role, config, spec, entry, violation, rfl, hOwed, hNot, hCheck,
        fun a' hLt => ?_⟩
      cases hAction' : compiled.actions[a']? with
      | none => exact answeredAt_of_none hAction'
      | some action' =>
        refine (h.judge_eq_none_iff hAction').mp (hBefore (action', a') ?_)
        have hAt : compiled.actions.zipIdx[a']? = some (action', a') := by
          rw [List.getElem?_zipIdx, hAction', Option.map_some, Nat.zero_add]
        rw [hSplit, List.getElem?_append_left (hIndex ▸ hLt)] at hAt
        exact List.mem_of_getElem? hAt
  · cases hFail

end Finished

/-- **Nothing owed escapes the oracle.** Of a statically valid program that
compiles, run against a deployment that opens connections only to roles it has a
configuration of, the setup oracle passes if and only if every setup that was owed
an answer got a lawful one: among the frames its connection received while it was
awaited, the first that decodes is an error, or a success that the role may give.
What it reports is the first setup, in the program's order, that did not. -/
theorem reports_first_unanswered {S : Sv2} (hS : S.Lawful) {W : World} {p : Program}
    {compiled : CompiledProgram} (hValid : p.isStaticallyValid = .ok true)
    (hCompile : Compiler.compile S p = .ok compiled)
    (hConfigured : ∀ history connection role, W.deployment.Plays history →
      W.deployment.connect history connection role = true →
      ∃ config, W.deployment.roleConfig role = some config)
    {fuel : Nat} {execution : Execution} {entries : List TraceEntry}
    (hRun : run W fuel compiled = some (execution, entries)) :
    (SetupConnectionOracle.evaluate W.deployment compiled execution = .pass ↔
      ∀ a c role config spec entry, Owed W.deployment compiled entries a c role config spec entry →
        AnsweredAmong W.parsers config spec (History.receivedOn entry.exchanges c)) ∧
    ∀ finding, SetupConnectionOracle.evaluate W.deployment compiled execution = .fail finding →
      ∃ a c role config spec entry violation,
        finding = .answered role entry.outcome spec violation ∧
        Owed W.deployment compiled entries a c role config spec entry ∧
        ¬ AnsweredAmong W.parsers config spec (History.receivedOn entry.exchanges c) ∧
        check config spec true entry.outcome = .error violation ∧
        ∀ a' < a, AnsweredAt W.deployment W.parsers compiled entries a' := by
  have hFinished := Finished.of_run hS hValid hCompile hConfigured hRun
  exact ⟨hFinished.evaluate_eq_pass_iff_answered, fun finding hFail => hFinished.reports_first hFail⟩

/-- The role is silent: its setup was owed an answer, and nothing was received. -/
theorem reports_first_unanswered_silent : ∃ compiled execution entries finding,
    Compiler.compile Sv2.wire singleSetup = .ok compiled ∧
    run .silent 20 compiled = some (execution, entries) ∧
    SetupConnectionOracle.evaluate World.silent.deployment compiled execution = .fail finding ∧
    ∃ (a c role : Nat) (config : RoleConfig) (spec : SetupConnectionSpec) (entry : TraceEntry),
      Owed World.silent.deployment compiled entries a c role config spec entry ∧
      ¬ AnsweredAmong World.silent.parsers config spec
        (History.receivedOn entry.exchanges c) := by
  obtain ⟨compiled, execution, entries, finding, hCompile, hRun, hFail⟩ :
      ∃ compiled execution entries finding,
        Compiler.compile Sv2.wire singleSetup = .ok compiled ∧
        run .silent 20 compiled = some (execution, entries) ∧
        SetupConnectionOracle.evaluate World.silent.deployment compiled execution =
          .fail finding := ⟨_, _, _, _, rfl, rfl, rfl⟩
  obtain ⟨-, hFindings⟩ := reports_first_unanswered (W := .silent) Sv2.wire_lawful (by decide)
    hCompile (fun _ _ _ _ _ => ⟨_, rfl⟩) hRun
  obtain ⟨a, c, role, config, spec, entry, _, -, hOwed, hNot, -⟩ := hFindings finding hFail
  exact ⟨compiled, execution, entries, finding, hCompile, hRun, hFail, a, c, role, config, spec,
    entry, hOwed, hNot⟩

end Stratamoto
