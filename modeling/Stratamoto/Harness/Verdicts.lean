import Stratamoto.Harness.Conformance

/-!
# Stratamoto — what the oracles can find

The bookkeeping of the harness, from the compiler's maps to the oracles, against
whatever a deployment does.

* `decidedBy P frames` — what the frames a connection received make of its setup;
* `perform_await_decided` — the outcome of an await, by the frames it received;
* `judge_await` — what the setup oracle finds with an await of a compiled program;
* `Offends config spec outcome` — the clauses an answer may offend against;
* `bookkeeping_not_reported` — the findings are of these clauses only.
-/

namespace Stratamoto

open Runner

/-! ## The frames that decide a setup -/

instance (P : ParsersSv2) (frame : Frame) : Decidable (frame.Decodes P) :=
  decidable_of_iff (frame.extTypeWithoutChannelMsg = 0 ∧ (frame.message P).isOk = true) <| by
    unfold Frame.Decodes
    cases frame.message P <;> simp [Except.isOk, Except.toBool]

/-- The frame the exchange received on the connection, if it did. -/
def Exchange.receivedOn (connection : Nat) : Exchange → Option Frame
  | .recv connection' _ (.ok frame) => if connection' = connection then some frame else none
  | _ => none

/-- The frames received on the connection, in order. -/
def History.receivedOn (history : History) (connection : Nat) : List Frame :=
  history.filterMap (Exchange.receivedOn connection)

/-- What the frames make of a pending setup: the first that decodes decides it. -/
def decidedBy (P : ParsersSv2) : List Frame → Option SetupState
  | [] => none
  | frame :: frames => if frame.Decodes P then some (answerOf P frame) else decidedBy P frames

/-- The transport failed, or was silent for too long. -/
def ActionOutcome.Failed : ActionOutcome → Prop
  | .timedOut | .transportClosed | .transportError _ => True
  | .completed _ | .skipped _ | .harnessError _ => False

theorem transportFailure_failed (e : Error) : (transportFailure e).Failed := by
  unfold transportFailure
  split <;> trivial

/-- How a wait for an answer ends, and the setup it leaves, by the frames received. -/
inductive Waited (P : ParsersSv2) (frames : List Frame) :
    Except ActionOutcome Unit → SetupState → Prop
  | decided {answer : SetupState} : decidedBy P frames = some answer →
      Waited P frames (.ok ()) answer
  | failed {failure : ActionOutcome} {setup : SetupState} : decidedBy P frames = none →
      failure.Failed → Waited P frames (.error failure) setup

theorem Waited.congr {P : ParsersSv2} {frames frames' : List Frame}
    {verdict : Except ActionOutcome Unit} {setup : SetupState} (h : Waited P frames verdict setup)
    (hEq : decidedBy P frames' = decidedBy P frames) : Waited P frames' verdict setup := by
  cases h with
  | decided hAnswer => exact .decided (hEq.trans hAnswer)
  | failed hNone hFailed => exact .failed (hEq.trans hNone) hFailed

namespace Runner

variable {W : World}

/-- A turn of the wait that receives a frame. -/
theorem receivedOn_turn (c now remaining : Nat) (frame : Frame) (later : History) :
    History.receivedOn ([.now now] ++ [.recv c remaining (.ok frame)] ++ later) c =
      frame :: later.receivedOn c := by
  have hFrame : Exchange.receivedOn c (.recv c remaining (.ok frame)) = some frame := if_pos rfl
  exact List.filterMap_cons_some hFrame

theorem pumpLoop_waited {c deadline fuel : Nat} {history : History} {state : ConnectionState}
    {out : Except ActionOutcome Unit × History × ConnectionState}
    (h : pumpLoop W c deadline (fun state => state.setup ≠ .pending) fuel history state = some out)
    (hPending : state.setup = .pending) : ∃ l, out.2.1 = history ++ l ∧
      Waited W.parsers (History.receivedOn l c) out.1 out.2.2.setup := by
  induction fuel generalizing history state with
  | zero => cases h
  | succ fuel ih =>
    have hNotYet : ¬ decide (state.setup ≠ .pending) = true := by simp [hPending]
    set now := W.deployment.now history with hNow
    by_cases hTime : deadline - now = 0
    · rw [pumpLoop_of_late hNotYet hNow.symm hTime] at h
      cases h
      exact ⟨[.now now], rfl, .failed rfl trivial⟩
    · cases hRecv : W.deployment.recv (history ++ [.now now]) c (deadline - now) with
      | error e =>
        rw [pumpLoop_of_error hNotYet hNow.symm rfl hTime hRecv] at h
        cases h
        exact ⟨_, List.append_assoc _ _ _, .failed rfl (transportFailure_failed e)⟩
      | ok frame =>
        rw [pumpLoop_of_frame hNotYet hNow.symm rfl hTime hRecv, List.append_assoc] at h
        by_cases hDecodes : frame.Decodes W.parsers
        · -- the next turn finds the setup decided
          have hSetup := dispatch_setup_of_decodes W.parsers state hDecodes
          rw [if_pos hPending] at hSetup
          refine ⟨[.now now] ++ [.recv c (deadline - now) (.ok frame)], ?_⟩
          have hHeard := receivedOn_turn c now (deadline - now) frame []
          rw [List.append_nil] at hHeard
          cases fuel with
          | zero => cases h
          | succ fuel =>
            have hDone : decide ((state.dispatch W.parsers frame).2.setup ≠ .pending) = true := by
              rw [hSetup]
              exact decide_eq_true (answerOf_ne_pending _ _)
            rw [pumpLoop, if_pos hDone] at h
            cases h
            rw [hHeard]
            exact ⟨rfl, .decided (by rw [decidedBy, if_pos hDecodes, hSetup])⟩
        · -- a frame that does not decode leaves the setup pending
          have hSetup := dispatch_setup_of_not_decodes W.parsers state hDecodes
          obtain ⟨l, hl, hWaited⟩ := ih h (hSetup.trans hPending)
          refine ⟨_, hl.trans (List.append_assoc _ _ _), ?_⟩
          rw [receivedOn_turn]
          exact hWaited.congr (by rw [decidedBy, if_neg hDecodes])

/-- The outcome of an await on an open connection: what the frames received for
it decide, or a failure of the transport. -/
inductive AwaitedOn (P : ParsersSv2) (frames : List Frame) : ActionOutcome → Prop
  | decided {answer : SetupState} : decidedBy P frames = some answer →
      AwaitedOn P frames (.completed (.setup (responseOf answer)))
  | failed {failure : ActionOutcome} : decidedBy P frames = none → failure.Failed →
      AwaitedOn P frames failure

theorem perform_await_decided {fuel c session : Nat} {protocol : Protocol} {first : Bool}
    {r r' : Runner} {outcome : ActionOutcome} {l : History}
    (h : r.perform W fuel (.awaitSetupResponse c session protocol first) = some (outcome, r'))
    (hState : r.states.lookup c ≠ none) (hOpen : c ∈ r.connections)
    (hl : r'.history = r.history ++ l) : AwaitedOn W.parsers (l.receivedOn c) outcome := by
  rcases awaitSetupResponse_cases h with ⟨hNone, -⟩ | ⟨state, verdict, r₁, -, hPump, hOutcome, -, rfl⟩
  · exact absurd hNone hState
  · simp only [pump, AList.lookup_insert, if_neg (not_not.mpr hOpen)] at hPump
    obtain ⟨⟨verdict', history, state'⟩, hLoop, hOut⟩ := Option.bind_eq_some_iff.mp hPump
    cases hOut
    obtain ⟨l', hl', hWaited⟩ := pumpLoop_waited hLoop rfl
    -- the first reading of the clock receives nothing
    have hSame : l = [.now (W.deployment.now r.history)] ++ l' := by
      refine List.append_cancel_left (hl.symm.trans ?_)
      rw [← List.append_assoc]
      exact hl'
    have hFrames : l.receivedOn c = History.receivedOn l' c := by
      rw [hSame]
      rfl
    rw [hFrames]
    simp only [AList.lookup_insert, Option.getD_some] at hOutcome
    generalize state'.setup = setup at hWaited hOutcome
    cases hWaited with
    | decided hAnswer =>
      rw [hOutcome]
      exact .decided hAnswer
    | failed hNone hFailed =>
      rw [hOutcome]
      exact .failed hNone hFailed

/-- No action fails on the harness's side. -/
theorem perform_ne_harnessError {fuel : Nat} {r r' : Runner} {action : Action}
    {outcome : ActionOutcome} (h : r.perform W fuel action = some (outcome, r'))
    (hLinked : ∀ c, r.states.lookup c = none ↔ c ∉ r.connections) (e : String) :
    outcome ≠ .harnessError e := by
  have hFailed : ∀ failure : ActionOutcome, failure.Failed → failure ≠ .harnessError e := by
    rintro _ hFailed rfl
    exact hFailed
  cases action with
  | connect connection role =>
    simp only [perform, performConnect, Option.some.injEq] at h
    split at h <;> cases h <;> exact ActionOutcome.noConfusion
  | send connection extensionType messageType channelMsg payload =>
    simp only [perform, performSend, Option.some.injEq] at h
    split at h
    · cases h
      exact ActionOutcome.noConfusion
    · split at h <;> cases h
      · exact ActionOutcome.noConfusion
      · exact hFailed _ (transportFailure_failed _)
  | awaitSetupResponse c session protocol first =>
    -- an open connection has a state, so the await is decided or fails
    by_cases hOpen : c ∈ r.connections
    · obtain ⟨l, hl⟩ := (perform_continues h).history
      have hState : r.states.lookup c ≠ none := fun hNone => (hLinked c).mp hNone hOpen
      cases perform_await_decided h hState hOpen hl.symm with
      | decided _ => exact ActionOutcome.noConfusion
      | failed _ hFail => exact hFailed _ hFail
    · rw [perform_await_skipped ((hLinked c).mpr hOpen) h]
      exact ActionOutcome.noConfusion
  | probe =>
    obtain ⟨⟨probed, r₁⟩, -, hOut⟩ := Option.bind_eq_some_iff.mp h
    cases hOut
    exact ActionOutcome.noConfusion
  | enterOnSetupSuccess session end_ =>
    cases h
    exact ActionOutcome.noConfusion
  | exitBlock =>
    cases h
    exact ActionOutcome.noConfusion
  | advanceTime duration =>
    cases h
    exact ActionOutcome.noConfusion

section Run

variable {S : Sv2} {ctx : ProgramContext} {is : List Instruction}
variable {entries : List TraceEntry} {next : Nat} {r : Runner}

theorem Reaches.ne_harnessError (hTyped : WellTyped ctx is)
    (h : Reaches W (actionsOf S ctx is) entries next r) {entry : TraceEntry}
    (hMem : entry ∈ entries) (e : String) : entry.outcome ≠ .harnessError e := by
  obtain ⟨j, hj⟩ := List.getElem?_of_mem hMem
  by_cases hAttempted : entry.attempted = true
  · obtain ⟨action, r₁, r₂, hAt⟩ := h.attempted hj hAttempted
    obtain ⟨fuel, hPerform⟩ := hAt.performed
    exact perform_ne_harnessError hPerform (linked_actionsOf hTyped hAt.reaches).states e
  · obtain ⟨_, _, _, _, _, -, hAt⟩ := h.skipped hj (Bool.not_eq_true _ ▸ hAttempted)
    rw [hAt.outcome]
    exact ActionOutcome.noConfusion

/-- The entry of an await: in a block that was skipped, skipped for want of a
connection, or answered with what was received on the connection. -/
inductive AwaitEntry (P : ParsersSv2) (actions : List Action) (entries : List TraceEntry) (c : Nat)
    (entry : TraceEntry) : Prop
  | inSkipped (session : Nat) : entry.attempted = false →
      entry.outcome = .skipped (.setupSuccess session) → AwaitEntry P actions entries c entry
  | unopened : entry.attempted = true → (∀ role, ¬ OpenedTo actions entries c role) →
      entry.outcome = .skipped (.connectionOpen c) → AwaitEntry P actions entries c entry
  | heard (role : Nat) : entry.attempted = true → OpenedTo actions entries c role →
      AwaitedOn P (History.receivedOn entry.exchanges c) entry.outcome →
      AwaitEntry P actions entries c entry

theorem Reaches.await_entry (hTyped : WellTyped ctx is)
    (h : Reaches W (actionsOf S ctx is) entries next r) {a c session : Nat} {protocol : Protocol}
    {first : Bool} {entry : TraceEntry}
    (hAwait : (actionsOf S ctx is)[a]? = some (.awaitSetupResponse c session protocol first))
    (hEntry : entries[a]? = some entry) :
    AwaitEntry W.parsers (actionsOf S ctx is) entries c entry := by
  by_cases hAttempted : entry.attempted = true
  · obtain ⟨action, r₁, r₂, hAt⟩ := h.attempted hEntry hAttempted
    have hAction := hAt.action_eq
    rw [h.action_eq (advances_of_blocks (blocks_actionsOf hTyped)) hEntry, hAwait] at hAction
    obtain rfl := Option.some.inj hAction
    obtain ⟨fuel, hPerform⟩ := hAt.performed
    have hLinked := linked_actionsOf hTyped hAt.reaches
    by_cases hOpen : c ∈ r₁.connections
    · obtain ⟨role, hOpened⟩ := (hLinked.connections c).mp hOpen
      have hState : r₁.states.lookup c ≠ none := fun hNone => (hLinked.states c).mp hNone hOpen
      exact .heard role hAttempted (hOpened.mono fun _ => List.mem_of_mem_take)
        (perform_await_decided hPerform hState hOpen hAt.exchanges)
    · refine .unopened hAttempted (fun role hOpened => hOpen ?_)
        (perform_await_skipped ((hLinked.states c).mpr hOpen) hPerform)
      -- a connection opened at any time was open by then
      obtain ⟨n, i, hFrom, hOp, hc, -⟩ := await_session hAwait
      exact (hLinked.connections c).mpr
        ⟨role, hOpened.before_use hTyped h hFrom (by rw [hOp]; rfl) hc⟩
  · obtain ⟨_, _, session', _, _, -, hAt⟩ := h.skipped hEntry (Bool.not_eq_true _ ▸ hAttempted)
    exact .inSkipped session' (Bool.not_eq_true _ ▸ hAttempted) hAt.outcome

end Run

end Runner

/-! ## Findings -/

/-- What the setup oracle reports of an await on an open connection. -/
inductive FoundWith (D : Deployment) (actions : List Action) (entries : List TraceEntry)
    (c session : Nat) (spec : SetupConnectionSpec) (owed : Bool) (outcome : ActionOutcome) :
    Finding → Prop
  | unknownRole {role : Nat} : OpenedTo actions entries c role → D.roleConfig role = none →
      FoundWith D actions entries c session spec owed outcome (.unknownRole session role)
  | answered {role : Nat} {config : RoleConfig} {violation : String} :
      OpenedTo actions entries c role → D.roleConfig role = some config →
      check config spec owed outcome = .error violation →
      FoundWith D actions entries c session spec owed outcome
        (.answered role outcome spec violation)

theorem SetupConnectionOracle.judge_await {D : Deployment} {program : CompiledProgram}
    {execution : Execution} {entries : List TraceEntry} {a c session : Nat} {protocol : Protocol}
    {first : Bool} {outcome : ActionOutcome} {spec : SetupConnectionSpec}
    (hOutcome : execution.outcome a = some outcome)
    (hSpec : program.metadata.sessionSetups.lookup session = some spec)
    (hRoles : ∀ role, execution.connectionRoles.lookup c = some role ↔
      OpenedTo program.actions entries c role) (finding : Finding) :
    judge D program execution a (.awaitSetupResponse c session protocol first) = some finding ↔
      FoundWith D program.actions entries c session spec
        (first && (program.metadata.violations.lookup a).isNone) outcome finding := by
  simp only [judge, hOutcome, hSpec]
  constructor
  · intro h
    split at h
    · cases h
    · -- a connection without a role is not judged
      rename_i role hRole
      have hOpened := (hRoles role).mp hRole
      split at h
      · rename_i hUnknown
        cases h
        exact .unknownRole hOpened hUnknown
      · rename_i config hConfig
        split at h
        · cases h
        · rename_i violation hCheck
          cases h
          exact .answered hOpened hConfig hCheck
  · intro h
    cases h with
    | unknownRole hOpened hUnknown => simp only [(hRoles _).mpr hOpened, hUnknown]
    | answered hOpened hConfig hCheck => simp only [(hRoles _).mpr hOpened, hConfig, hCheck]

/-- The clauses of the specification and of the role's own description that the
answer to a setup may offend against. -/
inductive Offends (config : RoleConfig) (spec : SetupConnectionSpec) : ActionOutcome → Prop
  | unanswered : Offends config spec .timedOut
  | closed : Offends config spec .transportClosed
  | transport (e : String) : Offends config spec (.transportError e)
  | notAnAnswer (messageType : UInt8) :
      Offends config spec (.completed (.setup (.unexpected messageType)))
  | mayNotAccept {usedVersion : UInt16} {flags : UInt32} :
      ¬ MayAccept config (protocolOf spec.protocol) spec.minVersion spec.maxVersion spec.flags
        usedVersion flags →
      Offends config spec (.completed (.setup (.success usedVersion flags)))

theorem answerOf_cases (P : ParsersSv2) (frame : Frame) :
    (∃ v f, responseOf (answerOf P frame) = .success v f) ∨
    (∃ f e, responseOf (answerOf P frame) = .error f e) ∨
    ∃ t, responseOf (answerOf P frame) = .unexpected t := by
  unfold answerOf
  split
  · split
    · exact Or.inl ⟨_, _, rfl⟩
    · exact Or.inr (Or.inl ⟨_, _, rfl⟩)
    · exact Or.inr (Or.inr ⟨_, rfl⟩)
  · exact Or.inr (Or.inr ⟨_, rfl⟩)

theorem decidedBy_eq_some {P : ParsersSv2} {frames : List Frame} {answer : SetupState}
    (h : decidedBy P frames = some answer) : ∃ frame ∈ frames, answer = answerOf P frame := by
  induction frames with
  | nil => cases h
  | cons frame frames ih =>
    rw [decidedBy] at h
    split at h
    · cases h
      exact ⟨frame, List.mem_cons_self .., rfl⟩
    · obtain ⟨frame', hMem, hAnswer⟩ := ih h
      exact ⟨frame', List.mem_cons_of_mem _ hMem, hAnswer⟩

/-- The faults that are found with the outcome of an await are of the clauses. -/
theorem Runner.AwaitedOn.offends {P : ParsersSv2} {frames : List Frame} {outcome : ActionOutcome}
    (h : AwaitedOn P frames outcome) {config : RoleConfig} {spec : SetupConnectionSpec}
    {owed : Bool} {violation : String}
    (hCheck : check config spec owed outcome = .error violation) :
    owed = true ∧ Offends config spec outcome := by
  cases owed with
  | false => cases hCheck
  | true =>
    refine ⟨rfl, ?_⟩
    cases h with
    | failed hNone hFailed =>
      -- a failure of any kind offends by itself
      cases outcome with
      | timedOut => exact .unanswered
      | transportClosed => exact .closed
      | transportError e => exact .transport e
      | completed _ => exact hFailed.elim
      | skipped _ => exact hFailed.elim
      | harnessError _ => exact hFailed.elim
    | decided hAnswer =>
      -- an answer offends if it accepts what it may not, or is none
      obtain ⟨frame, -, rfl⟩ := decidedBy_eq_some hAnswer
      rcases answerOf_cases P frame with ⟨v, f, hResponse⟩ | ⟨f, e, hResponse⟩ | ⟨t, hResponse⟩
      · rw [hResponse] at hCheck ⊢
        refine .mayNotAccept fun hMay => ?_
        rw [check_success_iff.mpr hMay] at hCheck
        cases hCheck
      · rw [hResponse, check_error] at hCheck
        cases hCheck
      · rw [hResponse]
        exact .notAnAnswer t

theorem SetupConnectionOracle.judge_of_fail {D : Deployment} {program : CompiledProgram}
    {execution : Execution} {finding : Finding} (h : evaluate D program execution = .fail finding) :
    ∃ id action, program.actions[id]? = some action ∧
      judge D program execution id action = some finding := by
  unfold evaluate at h
  split at h
  · rename_i hFound
    cases h
    obtain ⟨⟨action, id⟩, hMem, hJudge⟩ := List.exists_of_findSome?_eq_some hFound
    exact ⟨id, action, List.mem_zipIdx_iff_getElem?.mp hMem, hJudge⟩
  · cases h

/-- A run that is total and has no failure of the harness passes. -/
theorem HarnessIntegrityOracle.evaluate_eq_pass {program : CompiledProgram} {execution : Execution}
    (hTotal : execution.outcomes.length = program.actions.length)
    (hHarness : ∀ outcome ∈ execution.outcomes, ∀ e, outcome ≠ .harnessError e) :
    evaluate program execution = .pass := by
  have hIsTotal : execution.isTotal program = true := decide_eq_true hTotal
  unfold evaluate
  rw [hIsTotal]
  split
  · contradiction
  · split
    · rename_i hFound
      -- an outcome that is found is an error of the harness
      obtain ⟨⟨outcome, id⟩, hMem, hSome⟩ := List.exists_of_findSome?_eq_some hFound
      have hOutcome := List.mem_of_getElem? (List.mem_zipIdx_iff_getElem?.mp hMem)
      split at hSome
      · rename_i e hError
        exact absurd hError (hHarness _ hOutcome e)
      · cases hSome
    · rfl

/-- **The harness's bookkeeping is never a finding.** Of a statically valid program
that compiles, run against a deployment that opens connections only to roles it
has a configuration of, the harness passes, and whatever the setup oracle reports
is an await that was attempted and owed an answer, whose outcome offends against
one of the clauses. -/
theorem bookkeeping_not_reported {S : Sv2} (hS : S.Lawful) {W : World} {p : Program}
    {compiled : CompiledProgram} (hValid : p.isStaticallyValid = .ok true)
    (hCompile : Compiler.compile S p = .ok compiled)
    (hConfigured : ∀ history connection role, W.deployment.Plays history →
      W.deployment.connect history connection role = true →
      ∃ config, W.deployment.roleConfig role = some config)
    {fuel : Nat} {execution : Execution} {entries : List TraceEntry}
    (hRun : run W fuel compiled = some (execution, entries)) :
    HarnessIntegrityOracle.evaluate compiled execution = .pass ∧
    ∀ finding, SetupConnectionOracle.evaluate W.deployment compiled execution = .fail finding →
      ∃ a c session protocol entry role config spec violation,
        compiled.actions[a]? = some (.awaitSetupResponse c session protocol true) ∧
        compiled.metadata.violations.lookup a = none ∧
        compiled.metadata.sessionSetups.lookup session = some spec ∧
        execution.connectionRoles.lookup c = some role ∧
        W.deployment.roleConfig role = some config ∧
        entries[a]? = some entry ∧ entry.attempted = true ∧
        execution.outcome a = some entry.outcome ∧
        finding = .answered role entry.outcome spec violation ∧
        check config spec true entry.outcome = .error violation ∧
        Offends config spec entry.outcome := by
  obtain ⟨hTyped, hActions, hDescribes⟩ := compiled_of_valid hS hValid hCompile
  obtain ⟨next, r, hReaches, hEnd, hExecution⟩ := run_reaches hRun
  rw [hActions] at hReaches hEnd
  have hOutcomes : execution.outcomes = entries.map TraceEntry.outcome := by
    rw [hExecution]
    exact hReaches.outcomes
  refine ⟨HarnessIntegrityOracle.evaluate_eq_pass ?_ fun outcome hMem e => ?_, fun finding hFail => ?_⟩
  · have hCovers := hReaches.covers (advances_of_blocks (blocks_actionsOf hTyped))
    have hLength := congrArg List.length hCovers.1
    rw [List.length_map, List.length_range] at hLength
    rw [hOutcomes, List.length_map, hLength, hActions]
    exact Nat.le_antisymm hCovers.2 hEnd
  · rw [hOutcomes] at hMem
    obtain ⟨entry, hEntry, rfl⟩ := List.mem_map.mp hMem
    exact hReaches.ne_harnessError hTyped hEntry e
  · obtain ⟨a, action, hAction, hJudge⟩ := SetupConnectionOracle.judge_of_fail hFail
    cases action with
    | awaitSetupResponse c session protocol first =>
      have hAwait := hAction
      rw [hActions] at hAwait
      obtain ⟨n, i, entry, -, -, -, -, hEntry, hOutcome, hSpec⟩ :=
        hReaches.await_recorded hTyped hDescribes hEnd hAwait
      have hRoles : ∀ role, execution.connectionRoles.lookup c = some role ↔
          OpenedTo compiled.actions entries c role := by
        rw [hExecution, hActions]
        exact (linked_actionsOf hTyped hReaches).roles c
      have hOutcome' : execution.outcome a = some entry.outcome := by
        rw [hExecution]
        exact hOutcome
      cases (SetupConnectionOracle.judge_await hOutcome' hSpec hRoles finding).mp hJudge with
      | unknownRole hOpened hUnknown =>
        -- a connection that was opened is one to a known role
        rw [hActions] at hOpened
        obtain ⟨before, after, hHistory⟩ := List.append_of_mem (hReaches.opened hOpened)
        have hPlays := hReaches.plays
        rw [hHistory] at hPlays
        obtain ⟨config, hConfig⟩ := hConfigured _ _ _ hPlays.of_append (hPlays _ _ _ rfl)
        rw [hUnknown] at hConfig
        cases hConfig
      | answered hOpened hConfig hCheck =>
        cases hReaches.await_entry hTyped hAwait hEntry with
        | inSkipped session' _ hSkipped =>
          rw [hSkipped, check_skipped] at hCheck
          cases hCheck
        | unopened _ hNever _ => exact absurd (hActions ▸ hOpened) (hNever _)
        | heard role' hAttempted _ hHeard =>
          obtain ⟨hOwed, hOffends⟩ := hHeard.offends hCheck
          rw [hOwed] at hCheck
          obtain ⟨rfl, hNone⟩ := Bool.and_eq_true_iff.mp hOwed
          exact ⟨a, c, session, protocol, entry, _, _, _, _, hAction,
            Option.isNone_iff_eq_none.mp hNone, hSpec, (hRoles _).mpr hOpened, hConfig, hEntry,
            hAttempted, hOutcome', rfl, hCheck, hOffends⟩
    | _ => cases hJudge

/-- The role is silent, which is reported, and of the setup only. -/
theorem bookkeeping_not_reported_silent : ∃ compiled execution entries finding,
    Compiler.compile Sv2.wire singleSetup = .ok compiled ∧
    run .silent 20 compiled = some (execution, entries) ∧
    HarnessIntegrityOracle.evaluate compiled execution = .pass ∧
    SetupConnectionOracle.evaluate World.silent.deployment compiled execution = .fail finding ∧
    ∃ (a c session : Nat) (protocol : Protocol) (entry : TraceEntry) (config : RoleConfig)
      (spec : SetupConnectionSpec),
      compiled.actions[a]? = some (.awaitSetupResponse c session protocol true) ∧
      entries[a]? = some entry ∧ Offends config spec entry.outcome := by
  obtain ⟨compiled, execution, entries, finding, hCompile, hRun, hFail⟩ :
      ∃ compiled execution entries finding,
        Compiler.compile Sv2.wire singleSetup = .ok compiled ∧
        run .silent 20 compiled = some (execution, entries) ∧
        SetupConnectionOracle.evaluate World.silent.deployment compiled execution =
          .fail finding := ⟨_, _, _, _, rfl, rfl, rfl⟩
  obtain ⟨hPass, hFindings⟩ := bookkeeping_not_reported (W := .silent) Sv2.wire_lawful (by decide)
    hCompile (fun _ _ _ _ _ => ⟨_, rfl⟩) hRun
  obtain ⟨a, c, session, protocol, entry, role, config, spec, violation, hAwait, -, -, -, -, hEntry,
    -, -, -, -, hOffends⟩ := hFindings finding hFail
  exact ⟨compiled, execution, entries, finding, hCompile, hRun, hPass, hFail, a, c, session,
    protocol, entry, config, spec, hAwait, hEntry, hOffends⟩

end Stratamoto
