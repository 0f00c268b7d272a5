import Stratamoto.Harness.Verdicts

/-!
# Stratamoto — the two records of an answer

What came of an await is kept twice: as the outcome of the action, which the
oracles judge, and as the response of its session, which decides the success
blocks.

* `AwaitedOn.settled` — an await that is not skipped is answered or fails;
* `perform_records` — one action records an outcome and a session together;
* `Reaches.session_iff` — the sessions of a reachable state, by the trace;
* `RecordsAgree` — the two records of one await agree;
* `records_agree` — they do after every run.
-/

namespace Stratamoto

open Brackets Operation Runner

/-- What became of the await `a` of the session is recorded alike by the outcome
of the action and by the session. -/
structure RecordsAgree (execution : Execution) (a c session : Nat) (protocol : Protocol)
    (first : Bool) : Prop where
  answered : ∀ response : SetupResponse, response ≠ .silence →
    (execution.outcome a = some (.completed (.setup response)) ↔
      ∃ s, execution.sessions.lookup session = some s ∧ s.response = response)
  notSilence : execution.outcome a ≠ some (.completed (.setup .silence))
  failed : (∃ failure : ActionOutcome, execution.outcome a = some failure ∧ failure.Failed) ↔
    ∃ s, execution.sessions.lookup session = some s ∧ s.response = .silence
  skipped : (∃ unmet, execution.outcome a = some (.skipped unmet)) ↔
    execution.sessions.lookup session = none
  /-- No other outcome occurs. -/
  only : ∃ outcome, execution.outcome a = some outcome ∧ ((∃ unmet, outcome = .skipped unmet) ∨
    outcome.Failed ∨ ∃ response, outcome = .completed (.setup response))
  fields : ∀ s, execution.sessions.lookup session = some s →
    s.connection = c ∧ s.protocol = protocol ∧ s.firstOnConnection = first

namespace Runner

/-- What an await ends with once it has listened: an answer, or a failure. -/
def Settled (outcome : ActionOutcome) : Prop :=
  outcome.Failed ∨ ∃ response : SetupResponse, response ≠ .silence ∧
    outcome = .completed (.setup response)

theorem AwaitedOn.settled {P : ParsersSv2} {frames : List Frame} {outcome : ActionOutcome}
    (h : AwaitedOn P frames outcome) : Settled outcome := by
  cases h with
  | failed _ hFailed => exact Or.inl hFailed
  | decided hAnswer =>
    refine Or.inr ⟨_, ?_, rfl⟩
    -- a frame decided the setup, so it is not silence
    obtain ⟨frame, -, rfl⟩ := decidedBy_eq_some hAnswer
    rcases answerOf_cases P frame with ⟨v, f, hResponse⟩ | ⟨f, e, hResponse⟩ | ⟨t, hResponse⟩
    · rw [hResponse]
      exact SetupResponse.noConfusion
    · rw [hResponse]
      exact SetupResponse.noConfusion
    · rw [hResponse]
      exact SetupResponse.noConfusion

theorem Settled.ne_skipped {outcome : ActionOutcome} (h : Settled outcome) (unmet : Prerequisite) :
    outcome ≠ .skipped unmet := by
  rintro rfl
  rcases h with hFailed | ⟨_, -, hEq⟩
  · exact hFailed
  · cases hEq

/-- Of a failure the session keeps that nothing was answered. -/
theorem sessionResponse_of_failed {outcome : ActionOutcome} (h : outcome.Failed) :
    sessionResponse outcome = .silence := by
  cases outcome with
  | completed response => exact h.elim
  | _ => rfl

variable {W : World} {actions : List Action} {entries : List TraceEntry} {next : Nat} {r : Runner}

/-- An action either leaves the sessions alone, and was skipped if it was an
await, or it is an await that settled and recorded its session. -/
theorem perform_records {fuel : Nat} {r' : Runner} {action : Action} {outcome : ActionOutcome}
    (h : r.perform W fuel action = some (outcome, r'))
    (hLinked : ∀ c, r.states.lookup c = none ↔ c ∉ r.connections) :
    (r'.execution.sessions = r.execution.sessions ∧
      ∀ c session protocol first, action = .awaitSetupResponse c session protocol first →
        ∃ unmet, outcome = .skipped unmet) ∨
    ∃ c session protocol first, action = .awaitSetupResponse c session protocol first ∧
      Settled outcome ∧ r'.execution.sessions = r.execution.sessions.insert session
        ⟨c, protocol, first, sessionResponse outcome⟩ := by
  rcases perform_sessions h with ⟨hSame, hSkipped⟩ | ⟨c, session, protocol, first, rfl, hInsert⟩
  · exact Or.inl ⟨hSame, fun c session protocol first hEq =>
      ⟨_, hSkipped c session protocol first hEq⟩⟩
  · by_cases hOpen : c ∈ r.connections
    · -- the two maps have the same connections, so the pump listens
      have hState : r.states.lookup c ≠ none := fun hNone => (hLinked c).mp hNone hOpen
      obtain ⟨l, hl⟩ := (perform_continues h).history
      have hSettled := (perform_await_decided h hState hOpen hl.symm).settled
      exact Or.inr ⟨c, session, protocol, first, rfl, hSettled, hInsert⟩
    · rcases awaitSetupResponse_cases h with ⟨-, hOutcome, rfl⟩ | ⟨state, _, _, hState, -⟩
      · refine Or.inl ⟨rfl, fun c' session' protocol' first' hEq => ?_⟩
        exact ⟨_, hOutcome⟩
      · rw [(hLinked c).mpr hOpen] at hState
        cases hState

/-- The trace says what was recorded of the session. -/
def SessionOf (actions : List Action) (entries : List TraceEntry) (session : Nat) (s : Session) :
    Prop :=
  ∃ entry ∈ entries, actions[entry.action]? =
    some (.awaitSetupResponse s.connection session s.protocol s.firstOnConnection) ∧
    Settled entry.outcome ∧ s.response = sessionResponse entry.outcome

theorem sessionOf_snoc {entry : TraceEntry} {session : Nat} {s : Session} :
    SessionOf actions (entries ++ [entry]) session s ↔ SessionOf actions entries session s ∨
      (actions[entry.action]? =
          some (.awaitSetupResponse s.connection session s.protocol s.firstOnConnection) ∧
        Settled entry.outcome ∧ s.response = sessionResponse entry.outcome) := by
  simp only [SessionOf, List.mem_append, List.mem_singleton]
  constructor
  · intro h
    obtain ⟨e, hMem | rfl, hRecorded⟩ := h
    · exact Or.inl ⟨e, hMem, hRecorded⟩
    · exact Or.inr hRecorded
  · intro h
    rcases h with ⟨e, hMem, hRecorded⟩ | hRecorded
    · exact ⟨e, Or.inl hMem, hRecorded⟩
    · exact ⟨entry, Or.inr rfl, hRecorded⟩

theorem sessionOf_skipped {unmet : Prerequisite} {count session : Nat} {s : Session} :
    SessionOf actions (entries ++ skippedEntries unmet next count) session s ↔
      SessionOf actions entries session s := by
  constructor
  · intro h
    obtain ⟨e, hMem, hAwait, hSettled, hResponse⟩ := h
    rcases List.mem_append.mp hMem with hMem | hMem
    · exact ⟨e, hMem, hAwait, hSettled, hResponse⟩
    · exact absurd (mem_skippedEntries hMem).2.2.2.1 (hSettled.ne_skipped unmet)
  · intro h
    obtain ⟨e, hMem, hRecorded⟩ := h
    exact ⟨e, List.mem_append_left _ hMem, hRecorded⟩

/-- The sessions of a reachable state are those of the awaits that settled. -/
theorem Reaches.session_iff (hBlocks : Blocks actions) (hOnce : ConnectOnce actions)
    (h : Reaches W actions entries next r) (session : Nat) (s : Session) :
    r.execution.sessions.lookup session = some s ↔ SessionOf actions entries session s := by
  induction h with
  | start => simp [Runner.start, SessionOf]
  | skip _ _ _ ih =>
    rw [sessionOf_skipped]
    exact ih
  | @attempt entries next fuel r r' action outcome hReaches hAction hMet hPerform ih =>
    show r'.execution.sessions.lookup session = some s ↔ _
    rw [sessionOf_snoc, hAction]
    rcases perform_records hPerform (hReaches.linked (advances_of_blocks hBlocks) hOnce).states with
      ⟨hSame, hSkipped⟩ | ⟨c, session', protocol, first, rfl, hSettled, hInsert⟩
    · rw [hSame, ih]
      refine (or_iff_left fun hRecorded => ?_).symm
      -- an await that leaves the sessions alone was skipped
      obtain ⟨hAwait, hSettled, -⟩ := hRecorded
      obtain ⟨unmet, hOutcome⟩ := hSkipped _ _ _ _ (Option.some.inj hAwait)
      exact hSettled.ne_skipped unmet hOutcome
    · rw [hInsert]
      by_cases hSession : session = session'
      · subst hSession
        rw [AList.lookup_insert]
        -- the session had no record before its one await
        have hFresh : ¬ SessionOf actions entries session s := by
          intro hBefore
          obtain ⟨e, hMem, hAwait, -⟩ := hBefore
          have hEq := hBlocks.once _ _ _ _ _ _ _ _ _ hAwait hAction
          have := hReaches.lt_next (advances_of_blocks hBlocks) hMem
          omega
        rw [or_iff_right hFresh]
        constructor
        · intro hEq
          obtain rfl := Option.some.inj hEq
          exact ⟨rfl, hSettled, rfl⟩
        · intro hRecorded
          obtain ⟨hAwait, -, hResponse⟩ := hRecorded
          obtain ⟨connection, protocol', first', response⟩ := s
          cases hAwait
          exact congrArg (fun response => some (Session.mk _ _ _ response)) hResponse.symm
      · rw [AList.lookup_insert_ne hSession, ih]
        refine (or_iff_left fun hRecorded => ?_).symm
        obtain ⟨hAwait, -⟩ := hRecorded
        cases hAwait
        exact hSession rfl

section Run

variable {S : Sv2} {ctx : ProgramContext} {is : List Instruction}

/-- The session of an await, by the entry of the await. -/
theorem Reaches.session_of_entry (hTyped : WellTyped ctx is)
    (h : Reaches W (actionsOf S ctx is) entries next r) {a c session : Nat} {protocol : Protocol}
    {first : Bool} {entry : TraceEntry}
    (hAwait : (actionsOf S ctx is)[a]? = some (.awaitSetupResponse c session protocol first))
    (hEntry : entries[a]? = some entry) (s : Session) :
    r.execution.sessions.lookup session = some s ↔
      Settled entry.outcome ∧ s = ⟨c, protocol, first, sessionResponse entry.outcome⟩ := by
  have hBlocks : Blocks (actionsOf S ctx is) := blocks_actionsOf hTyped
  have hAdvances := advances_of_blocks hBlocks
  rw [h.session_iff hBlocks (fun _ _ _ _ _ => connect_once)]
  constructor
  · intro hRecorded
    obtain ⟨entry', hMem, hAwait', hSettled, hResponse⟩ := hRecorded
    obtain ⟨a', hEntry'⟩ := List.getElem?_of_mem hMem
    rw [h.action_eq hAdvances hEntry'] at hAwait'
    -- the session is awaited once, so the entry is the await's
    obtain rfl := hBlocks.once _ _ _ _ _ _ _ _ _ hAwait hAwait'
    obtain rfl := Option.some.inj (hEntry.symm.trans hEntry')
    obtain ⟨connection, protocol', first', response⟩ := s
    cases hAwait.symm.trans hAwait'
    refine ⟨hSettled, ?_⟩
    rw [← hResponse]
  · intro hRecorded
    obtain ⟨hSettled, rfl⟩ := hRecorded
    refine ⟨entry, List.mem_of_getElem? hEntry, ?_, hSettled, rfl⟩
    rw [h.action_eq hAdvances hEntry]
    exact hAwait

/-- The entry of an await that did not settle was skipped. -/
theorem Reaches.await_skipped_or_settled (hTyped : WellTyped ctx is)
    (h : Reaches W (actionsOf S ctx is) entries next r) {a c session : Nat} {protocol : Protocol}
    {first : Bool} {entry : TraceEntry}
    (hAwait : (actionsOf S ctx is)[a]? = some (.awaitSetupResponse c session protocol first))
    (hEntry : entries[a]? = some entry) :
    (∃ unmet, entry.outcome = .skipped unmet) ∨ Settled entry.outcome := by
  cases h.await_entry hTyped hAwait hEntry with
  | inSkipped session' _ hOutcome => exact Or.inl ⟨_, hOutcome⟩
  | unopened _ _ hOutcome => exact Or.inl ⟨_, hOutcome⟩
  | heard role _ _ hHeard => exact Or.inr hHeard.settled

end Run

end Runner

/-- A session that is made of the outcome of its await agrees with it. -/
theorem recordsAgree_of_outcome {execution : Execution} {a c session : Nat} {protocol : Protocol}
    {first : Bool} {outcome : ActionOutcome} (hOutcome : execution.outcome a = some outcome)
    (hSkipped : (∃ unmet, outcome = .skipped unmet) ∨ Settled outcome)
    (hSession : ∀ s, execution.sessions.lookup session = some s ↔
      Settled outcome ∧ s = ⟨c, protocol, first, sessionResponse outcome⟩) :
    RecordsAgree execution a c session protocol first := by
  rcases hSkipped with ⟨unmet, rfl⟩ | hSettled
  · -- there is no session, so the action was skipped
    have hNone : execution.sessions.lookup session = none :=
      Option.eq_none_iff_forall_ne_some.mpr fun s hs =>
        ((hSession s).mp hs).1.ne_skipped unmet rfl
    constructor <;> simp [hOutcome, hNone, ActionOutcome.Failed]
  · have hSome := (hSession _).mpr ⟨hSettled, rfl⟩
    rcases hSettled with hFailed | ⟨response, hNe, rfl⟩
    · rw [sessionResponse_of_failed hFailed] at hSome
      have hNotAnswered : ∀ response, outcome ≠ .completed response := by
        rintro response rfl
        exact hFailed
      have hNotSkipped : ∀ unmet, outcome ≠ .skipped unmet := by
        rintro unmet rfl
        exact hFailed
      constructor <;> simp [hOutcome, hSome, hFailed, hNotAnswered, hNotSkipped, eq_comm]
    · constructor <;> simp [hOutcome, hSome, hNe, sessionResponse, ActionOutcome.Failed]

/-- **The two records of an answer agree.** After every run of a statically valid
program, the outcome of an await is an answer, and never silence, exactly if its
session holds that answer; it is a timeout or an error of the transport exactly
if its session holds silence; and it is skipped exactly if its session has no
entry. The session names the connection, the protocol and the position of the
action. -/
theorem records_agree {S : Sv2} (hS : S.Lawful) {W : World} {p : Program}
    {compiled : CompiledProgram} (hValid : p.isStaticallyValid = .ok true)
    (hCompile : Compiler.compile S p = .ok compiled) {fuel : Nat} {execution : Execution}
    {entries : List TraceEntry} (hRun : run W fuel compiled = some (execution, entries))
    {a c session : Nat} {protocol : Protocol} {first : Bool}
    (hAwait : compiled.actions[a]? = some (.awaitSetupResponse c session protocol first)) :
    RecordsAgree execution a c session protocol first := by
  obtain ⟨hTyped, hActions, -⟩ := compiled_of_valid hS hValid hCompile
  obtain ⟨next, r, hReaches, hEnd, rfl⟩ := run_reaches hRun
  rw [hActions] at hReaches hEnd hAwait
  have hLt := (List.getElem?_eq_some_iff.mp hAwait).1
  obtain ⟨entry, hEntry⟩ := exists_entry hTyped hReaches (Nat.lt_of_lt_of_le hLt hEnd)
  refine recordsAgree_of_outcome ?_ (hReaches.await_skipped_or_settled hTyped hAwait hEntry)
    (hReaches.session_of_entry hTyped hAwait hEntry)
  show r.execution.outcomes[a]? = some entry.outcome
  rw [hReaches.outcomes, List.getElem?_map, hEntry, Option.map_some]

/-- The role agrees to the one setup, and both records say so. -/
theorem records_agree_pool : ∃ compiled execution entries,
    Compiler.compile Sv2.wire singleSetup = .ok compiled ∧
    run .pool 20 compiled = some (execution, entries) ∧
    execution.outcome 2 = some (.completed (.setup (.success 2 0))) ∧
    RecordsAgree execution 2 0 0 .mining true := by
  obtain ⟨compiled, execution, entries, hCompile, hRun, hAnswered, hAwait⟩ :
      ∃ compiled execution entries, Compiler.compile Sv2.wire singleSetup = .ok compiled ∧
        run .pool 20 compiled = some (execution, entries) ∧
        execution.outcome 2 = some (.completed (.setup (.success 2 0))) ∧
        compiled.actions[2]? = some (.awaitSetupResponse 0 0 .mining true) :=
    ⟨_, _, _, rfl, rfl, rfl, rfl⟩
  exact ⟨compiled, execution, entries, hCompile, hRun, hAnswered,
    records_agree Sv2.wire_lawful (by decide) hCompile hRun hAwait⟩

end Stratamoto
