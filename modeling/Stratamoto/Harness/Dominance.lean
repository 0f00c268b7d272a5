import Stratamoto.Harness.Records

/-!
# Stratamoto — connects dominate their uses

The scope of the variable that names a connection is open where the connection
is used, so every block around its connect is around the use as well, and a run
that gets to the use has attempted the connect.

* `Action.connection` — the connection an action sends or waits on;
* `runsWith_connect` — where a connection is used, its connect has run;
* `skipped_iff_closed` — a use is skipped exactly if the connection is not open;
* `connect_attempted` — the outcome of a connect, by what the deployment answered;
* `connect_dominates_use` — attempted uses come after an attempted connect, and
  are skipped exactly if that was refused.
-/

namespace Stratamoto

open Brackets Operation Runner

/-- The connection the action sends or waits on. -/
def Action.connection : Action → Option Nat
  | .send c _ _ _ _ | .awaitSetupResponse c _ _ _ => some c
  | _ => none

/-- Everything exchanged before the action `a`. -/
def exchangedBefore (entries : List TraceEntry) (a : Nat) : History :=
  (entries.take a).flatMap TraceEntry.exchanges

section Use

variable {S : Sv2} {ctx : ProgramContext} {is : List Instruction}

/-- An action that uses a connection comes from an instruction that does. -/
theorem instruction_of_use {a c : Nat} {action : Action}
    (hAction : (actionsOf S ctx is)[a]? = some action) (hUse : action.connection = some c) :
    ∃ n k i, ComesFrom is a n k i ∧ i.operation.usesConnection = true ∧
      c = connectionOf ctx (is.take n) (i.input 0) := by
  -- a send or an await; the others name no connection
  cases action with
  | send c' extensionType messageType channelMsg payload =>
    obtain rfl := Option.some.inj hUse
    obtain ⟨n, k, i, hFrom, hLower⟩ := exists_of_action hAction
    obtain ⟨-, hc, -, hOp⟩ := lower_send hLower
    refine ⟨n, k, i, hFrom, ?_, hc⟩
    rcases hOp with ⟨protocol, hOp, -⟩ | ⟨hOp, -⟩
    · rw [hOp]
      rfl
    · rw [hOp]
      rfl
  | awaitSetupResponse c' session protocol first =>
    obtain rfl := Option.some.inj hUse
    obtain ⟨n, i, hFrom, hOp, hc, -⟩ := await_session hAction
    exact ⟨n, 1, i, hFrom, by rw [hOp]; rfl, hc⟩
  | enterOnSetupSuccess session end_ => cases hUse
  | exitBlock => cases hUse
  | connect c' role => cases hUse
  | advanceTime duration => cases hUse
  | probe => cases hUse

/-- Where a connection is used, its connect has run: no block stands around the
connect that is not around the use. -/
theorem runsWith_connect (hTyped : WellTyped ctx is) {a n k : Nat} {i : Instruction}
    (hFrom : ComesFrom is a n k i) (hUses : i.operation.usesConnection = true)
    (hc : ctx.numConnections ≤ connectionOf ctx (is.take n) (i.input 0)) :
    ∃ a₀ m j role, a₀ < a ∧ ComesFrom is a₀ m 0 j ∧ RunsWith ctx is m n ∧
      (actionsOf S ctx is)[a₀]? =
        some (.connect (connectionOf ctx (is.take n) (i.input 0)) role) := by
  obtain ⟨m, j, hLt, hj, hOp, hEq, hScope⟩ := connect_in_scope hTyped hFrom.at_index hUses hc
  have hConnect : ComesFrom is (actionCount (is.take m)) m 0 j :=
    ⟨hj, by rw [hOp]; exact Nat.one_pos, rfl⟩
  refine ⟨_, m, j, _, hConnect.lt_of_lt hFrom hLt, hConnect, fun b e session hBlock hb he => ?_,
    connect_iff.mpr ⟨m, j, hConnect, hOp, hEq, rfl⟩⟩
  exact .around hBlock (by omega) (hScope b e hBlock.ends hb he)

end Use

namespace Runner

variable {W : World} {actions : List Action} {entries : List TraceEntry} {next : Nat} {r : Runner}

/-- A use of a connection is skipped for want of it exactly if it is not open. -/
theorem skipped_iff_closed {fuel c : Nat} {r' : Runner} {action : Action} {outcome : ActionOutcome}
    (h : r.perform W fuel action = some (outcome, r')) (hUse : action.connection = some c)
    (hLinked : ∀ c, r.states.lookup c = none ↔ c ∉ r.connections) :
    outcome = .skipped (.connectionOpen c) ↔ c ∉ r.connections := by
  cases action with
  | send c' extensionType messageType channelMsg payload =>
    obtain rfl := Option.some.inj hUse
    have hSend : r.performSend W c' extensionType messageType channelMsg payload = (outcome, r') :=
      Option.some.inj h
    constructor
    · intro hSkipped
      exact performSend_skipped_iff.mp ⟨_, (congrArg Prod.fst hSend).trans hSkipped⟩
    · intro hClosed
      rw [performSend, if_pos hClosed] at hSend
      exact (congrArg Prod.fst hSend).symm
  | awaitSetupResponse c' session protocol first =>
    obtain rfl := Option.some.inj hUse
    constructor
    · -- an open connection has a state, and an await on it is not skipped
      intro hSkipped hOpen
      have hState : r.states.lookup c' ≠ none := fun hNone => (hLinked c').mp hNone hOpen
      obtain ⟨l, hl⟩ := (perform_continues h).history
      exact (perform_await_decided h hState hOpen hl.symm).settled.ne_skipped _ hSkipped
    · intro hClosed
      exact perform_await_skipped ((hLinked c').mpr hClosed) h
  | enterOnSetupSuccess session end_ => cases hUse
  | exitBlock => cases hUse
  | connect c' role => cases hUse
  | advanceTime duration => cases hUse
  | probe => cases hUse

/-- A connect that was attempted opened the connection unless the deployment
refused it. -/
theorem connect_attempted {before : List TraceEntry} {entry : TraceEntry} {c role : Nat}
    {r₁ r₂ : Runner} (h : Attempted W actions before entry (.connect c role) r₁ r₂) :
    entry.outcome = .completed .none ↔ W.deployment.connect r₁.history c role = true := by
  obtain ⟨fuel, hPerform⟩ := h.performed
  simp only [perform, performConnect, Option.some.injEq] at hPerform
  split at hPerform
  · rename_i hOpens
    obtain ⟨hOutcome, -⟩ := Prod.mk.inj hPerform
    exact iff_of_true hOutcome.symm hOpens
  · rename_i hRefuses
    obtain ⟨hOutcome, -⟩ := Prod.mk.inj hPerform
    refine iff_of_false (fun hEq => ?_) hRefuses
    cases hOutcome.trans hEq

end Runner

section Run

variable {W : World} {S : Sv2} {ctx : ProgramContext} {is : List Instruction}
variable {entries : List TraceEntry} {next : Nat} {r : Runner}

/-- The connection is open after its connect exactly if that opened it. -/
theorem openedTo_iff_entry (hTyped : WellTyped ctx is)
    (h : Reaches W (actionsOf S ctx is) entries next r) {a k c role : Nat} {opening : TraceEntry}
    (hConnect : (actionsOf S ctx is)[k]? = some (.connect c role))
    (hOpening : entries[k]? = some opening) (hAttempted : opening.attempted = true) (hk : k < a) :
    (∃ role', OpenedTo (actionsOf S ctx is) (entries.take a) c role') ↔
      opening.outcome = .completed .none := by
  have hAdvances := advances_of_blocks (blocks_actionsOf (S := S) hTyped)
  constructor
  · intro hOpened
    obtain ⟨role', e, hMem, -, hOpens, hOutcome⟩ := hOpened
    obtain ⟨j, -, hj⟩ := getElem?_of_mem_take hMem
    rw [h.action_eq hAdvances hj] at hOpens
    -- the connection is opened by one action
    obtain rfl := connect_once hConnect hOpens
    obtain rfl := Option.some.inj (hOpening.symm.trans hj)
    exact hOutcome
  · intro hOutcome
    refine ⟨role, opening, mem_take_of_getElem? hOpening hk, hAttempted, ?_, hOutcome⟩
    rw [h.action_eq hAdvances hOpening]
    exact hConnect

/-- Frames are put on a connection that an attempted connect has opened. -/
theorem attempted_of_sent (hTyped : WellTyped ctx is)
    (h : Reaches W (actionsOf S ctx is) entries next r) {k c role : Nat}
    {opening entry : TraceEntry} (hConnect : (actionsOf S ctx is)[k]? = some (.connect c role))
    (hOpening : entries[k]? = some opening) (hMem : entry ∈ entries) {extensionType : UInt16}
    {messageType : UInt8} {channelMsg : Bool} {payload : List UInt8} {result : Except Error Unit}
    (hSent : Exchange.send c extensionType messageType channelMsg payload result ∈
      entry.exchanges) : opening.attempted = true := by
  have hAdvances := advances_of_blocks (blocks_actionsOf (S := S) hTyped)
  obtain ⟨j, hj⟩ := List.getElem?_of_mem hMem
  -- a skipped action has no exchange
  have hAttempted : entry.attempted = true := by
    by_contra hNot
    rw [Bool.not_eq_true] at hNot
    obtain ⟨_, _, _, _, _, -, hAt⟩ := h.skipped hj hNot
    rw [hAt.exchanges] at hSent
    cases hSent
  obtain ⟨action, r₁, r₂, hAt⟩ := h.attempted hj hAttempted
  obtain ⟨fuel, hPerform⟩ := hAt.performed
  obtain ⟨-, hOpen⟩ := perform_send_of_exchange hPerform hAt.exchanges hSent
  -- an open connection was opened by an action tried before, and only one opens it
  obtain ⟨role', e, hMem', hTried, hOpens, -⟩ :=
    ((linked_actionsOf hTyped hAt.reaches).connections c).mp hOpen
  obtain ⟨j', -, hj'⟩ := getElem?_of_mem_take hMem'
  rw [h.action_eq hAdvances hj'] at hOpens
  obtain rfl := connect_once hConnect hOpens
  obtain rfl := Option.some.inj (hOpening.symm.trans hj')
  exact hTried

end Run

/-- **A connect dominates the uses of its connection.** In a run of a statically
valid program that starts without connections, whenever a send or an await on a
connection is attempted, so was the connect before it. The use is recorded as
skipped for want of the connection exactly if the deployment refused that
connect. Nothing is put on a connection whose connect was skipped. -/
theorem connect_dominates_use {S : Sv2} (hS : S.Lawful) {W : World} {p : Program}
    {compiled : CompiledProgram} (hValid : p.isStaticallyValid = .ok true)
    (hNum : p.context.numConnections = 0) (hCompile : Compiler.compile S p = .ok compiled)
    {fuel : Nat} {execution : Execution} {entries : List TraceEntry}
    (hRun : run W fuel compiled = some (execution, entries)) :
    (∀ (a c : Nat) (action : Action) (entry : TraceEntry), compiled.actions[a]? = some action →
      action.connection = some c → entries[a]? = some entry → entry.attempted = true →
      ∃ k role opening, k < a ∧ compiled.actions[k]? = some (.connect c role) ∧
        entries[k]? = some opening ∧ opening.attempted = true ∧
        (execution.outcome a = some (.skipped (.connectionOpen c)) ↔
          W.deployment.connect (exchangedBefore entries k) c role = false)) ∧
    ∀ (k c role : Nat) (opening : TraceEntry), compiled.actions[k]? = some (.connect c role) →
      entries[k]? = some opening → opening.attempted = false →
      ∀ entry ∈ entries, ∀ extensionType messageType channelMsg payload result,
        Exchange.send c extensionType messageType channelMsg payload result ∉ entry.exchanges := by
  obtain ⟨hTyped, hActions, -⟩ := compiled_of_valid hS hValid hCompile
  obtain ⟨next, r, hReaches, hEnd, rfl⟩ := run_reaches hRun
  rw [hActions] at hReaches hEnd ⊢
  have hAdvances := advances_of_blocks (blocks_actionsOf (S := S) hTyped)
  refine ⟨fun a c action entry hAction hUse hEntry hAttempted => ?_, fun k c role opening hConnect
    hOpening hSkipped entry hMem extensionType messageType channelMsg payload result hSent => ?_⟩
  · -- the connect stands in scope of the instruction, so it ran whenever that did
    obtain ⟨n, _, i, hFrom, hUses, rfl⟩ := instruction_of_use hAction hUse
    obtain ⟨k, m, j, role, hLt, hFrom₀, hRuns, hConnect⟩ :=
      runsWith_connect (S := S) hTyped hFrom hUses (by omega)
    have ha := (List.getElem?_eq_some_iff.mp hAction).1
    obtain ⟨opening, hOpening⟩ := exists_entry hTyped hReaches (Nat.lt_trans hLt (by omega))
    have hTried := attempted_of_runsWith hTyped hReaches hEntry hAttempted hFrom hOpening hFrom₀ hRuns
    refine ⟨k, role, opening, hLt, hConnect, hOpening, hTried, ?_⟩
    -- what the two entries say of the actions they were made for
    obtain ⟨action', r₁, r₂, hAt⟩ := hReaches.attempted hEntry hAttempted
    obtain rfl : action' = action := by
      have hAction' := hAt.action_eq
      rw [hReaches.action_eq hAdvances hEntry, hAction] at hAction'
      exact (Option.some.inj hAction').symm
    obtain ⟨fuel', hPerform⟩ := hAt.performed
    have hLinked := linked_actionsOf hTyped hAt.reaches
    obtain ⟨connect, r₃, r₄, hOpenAt⟩ := hReaches.attempted hOpening hTried
    obtain rfl : connect = .connect _ role := by
      have hConnect' := hOpenAt.action_eq
      rw [hReaches.action_eq hAdvances hOpening, hConnect] at hConnect'
      exact (Option.some.inj hConnect').symm
    have hOutcome : ({ r.execution with connections := r.states } : Execution).outcome a =
        some entry.outcome := by
      show r.execution.outcomes[a]? = some entry.outcome
      rw [hReaches.outcomes, List.getElem?_map, hEntry, Option.map_some]
    -- a use is skipped if the connection is closed, which the connect decided
    rw [hOutcome, Option.some.injEq, skipped_iff_closed hPerform hUse hLinked.states,
      hLinked.connections, openedTo_iff_entry hTyped hReaches hConnect hOpening hTried hLt,
      connect_attempted hOpenAt, hOpenAt.reaches.history, Bool.not_eq_true]
    rfl
  · have hTried := attempted_of_sent hTyped hReaches hConnect hOpening hMem hSent
    rw [hSkipped] at hTried
    cases hTried

/-- The setup goes out on the connection opened before it. -/
theorem connect_dominates_use_silent : ∃ compiled execution entries,
    Compiler.compile Sv2.wire singleSetup = .ok compiled ∧
    run .silent 20 compiled = some (execution, entries) ∧
    ∃ k role opening, k < 1 ∧ compiled.actions[k]? = some (.connect 0 role) ∧
      entries[k]? = some opening ∧ opening.attempted = true ∧
      (execution.outcome 1 = some (.skipped (.connectionOpen 0)) ↔
        World.silent.deployment.connect (exchangedBefore entries k) 0 role = false) := by
  obtain ⟨compiled, execution, entries, action, entry, hCompile, hRun, hAction, hUse, hEntry,
      hAttempted⟩ : ∃ compiled execution entries action entry,
        Compiler.compile Sv2.wire singleSetup = .ok compiled ∧
        run .silent 20 compiled = some (execution, entries) ∧
        compiled.actions[1]? = some action ∧ action.connection = some 0 ∧
        entries[1]? = some entry ∧ entry.attempted = true :=
    ⟨_, _, _, _, _, rfl, rfl, rfl, rfl, rfl, rfl⟩
  exact ⟨compiled, execution, entries, hCompile, hRun,
    (connect_dominates_use (W := .silent) Sv2.wire_lawful (by decide) rfl hCompile hRun).1 1 0
      action entry hAction hUse hEntry hAttempted⟩

end Stratamoto
