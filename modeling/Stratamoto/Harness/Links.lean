import Stratamoto.Harness.Blocks

/-!
# Stratamoto — the connections of a run

A connection has a link, a state and a role from the moment it is opened, and no
other does.

* `OpenedTo actions entries c role` — the trace says `c` was opened to the role;
* `Linked` — the maps of the runner against the trace;
* `Reaches.linked` — so it is of every reachable state;
* `attempted_send_skipped_iff`, `attempted_await_skipped_iff` — what is skipped for
  want of a link.
-/

namespace Stratamoto

namespace Runner

variable {W : World} {actions : List Action} {entries : List TraceEntry} {next : Nat} {r : Runner}

/-- The trace says the connection was opened to the role. -/
def OpenedTo (actions : List Action) (entries : List TraceEntry) (c role : Nat) : Prop :=
  ∃ entry ∈ entries, entry.attempted = true ∧
    actions[entry.action]? = some (.connect c role) ∧ entry.outcome = .completed .none

theorem OpenedTo.mono {later : List TraceEntry} {c role : Nat} (h : OpenedTo actions entries c role)
    (hSub : ∀ entry ∈ entries, entry ∈ later) : OpenedTo actions later c role := by
  obtain ⟨entry, hMem, hOpens⟩ := h
  exact ⟨entry, hSub entry hMem, hOpens⟩

theorem openedTo_snoc {entry : TraceEntry} {c role : Nat} :
    OpenedTo actions (entries ++ [entry]) c role ↔ OpenedTo actions entries c role ∨
      (entry.attempted = true ∧ actions[entry.action]? = some (.connect c role) ∧
        entry.outcome = .completed .none) := by
  simp only [OpenedTo, List.mem_append, List.mem_singleton]
  constructor
  · rintro ⟨e, hMem | rfl, h⟩
    · exact Or.inl ⟨e, hMem, h⟩
    · exact Or.inr h
  · rintro (⟨e, hMem, h⟩ | h)
    · exact ⟨e, Or.inl hMem, h⟩
    · exact ⟨entry, Or.inr rfl, h⟩

theorem openedTo_skipped {unmet : Prerequisite} {count c role : Nat} :
    OpenedTo actions (entries ++ skippedEntries unmet next count) c role ↔
      OpenedTo actions entries c role := by
  constructor
  · rintro ⟨e, hMem, hAttempted, h⟩
    rcases List.mem_append.mp hMem with hMem | hMem
    · exact ⟨e, hMem, hAttempted, h⟩
    · rw [(mem_skippedEntries hMem).2.2.1] at hAttempted
      cases hAttempted
  · rintro ⟨e, hMem, h⟩
    exact ⟨e, List.mem_append_left _ hMem, h⟩

/-- Connects that succeed open connections, and nothing else opens or closes one. -/
theorem perform_links {fuel : Nat} {r' : Runner} {action : Action} {outcome : ActionOutcome}
    (h : r.perform W fuel action = some (outcome, r')) :
    (∃ c role, action = .connect c role ∧ outcome = .completed .none ∧
      r'.connections = insert c r.connections ∧ r'.states = r.states.insert c {} ∧
      r'.execution.connectionRoles = r.execution.connectionRoles.insert c role) ∨
    ((∀ c role, action = .connect c role → outcome ≠ .completed .none) ∧
      r'.connections = r.connections ∧
      (∀ c, r'.states.lookup c = none ↔ r.states.lookup c = none) ∧
      r'.execution.connectionRoles = r.execution.connectionRoles) := by
  -- only a connect that succeeds links a role
  cases action with
  | connect connection role =>
    simp only [perform, performConnect, Option.some.injEq] at h
    split at h <;> cases h
    · exact Or.inl ⟨connection, role, rfl, rfl, rfl, rfl, rfl⟩
    · exact Or.inr ⟨fun _ _ _ => ActionOutcome.noConfusion, rfl, fun _ => Iff.rfl, rfl⟩
  | enterOnSetupSuccess session end_ =>
    cases h
    exact Or.inr ⟨by rintro _ _ ⟨⟩, rfl, fun _ => Iff.rfl, rfl⟩
  | exitBlock =>
    cases h
    exact Or.inr ⟨by rintro _ _ ⟨⟩, rfl, fun _ => Iff.rfl, rfl⟩
  | send connection extensionType messageType channelMsg payload =>
    refine Or.inr ⟨by rintro _ _ ⟨⟩, ?_⟩
    simp only [perform, performSend, Option.some.injEq] at h
    split at h
    · cases h
      exact ⟨rfl, fun _ => Iff.rfl, rfl⟩
    · split at h <;> cases h <;> exact ⟨rfl, fun _ => Iff.rfl, rfl⟩
  | awaitSetupResponse connection session protocol first =>
    refine Or.inr ⟨by rintro _ _ ⟨⟩, ?_⟩
    rcases awaitSetupResponse_cases h with ⟨-, -, rfl⟩ | ⟨_, _, r₁, -, -, -, hListens, rfl⟩
    · exact ⟨rfl, fun _ => Iff.rfl, rfl⟩
    · -- listening changes the state of a connection, not whether it has one
      refine ⟨hListens.connections, hListens.states, ?_⟩
      show r₁.execution.connectionRoles = _
      rw [hListens.execution]
  | advanceTime duration =>
    cases h
    exact Or.inr ⟨by rintro _ _ ⟨⟩, rfl, fun _ => Iff.rfl, rfl⟩
  | probe =>
    obtain ⟨⟨probed, r₁⟩, hDrain, hOut⟩ := Option.bind_eq_some_iff.mp h
    cases hOut
    have hListens := drainAll_listens hDrain
    refine Or.inr ⟨by rintro _ _ ⟨⟩, hListens.connections, hListens.states, ?_⟩
    show r₁.execution.connectionRoles = _
    rw [hListens.execution]

/-- What the runner holds for each connection, by the trace. -/
structure Linked (actions : List Action) (entries : List TraceEntry) (r : Runner) : Prop where
  connections : ∀ c, c ∈ r.connections ↔ ∃ role, OpenedTo actions entries c role
  states : ∀ c, r.states.lookup c = none ↔ c ∉ r.connections
  roles : ∀ c role, r.execution.connectionRoles.lookup c = some role ↔
    OpenedTo actions entries c role

/-- Every connection is opened by one action at most. -/
def ConnectOnce (actions : List Action) : Prop :=
  ∀ a a' c role role' : Nat, actions[a]? = some (Action.connect c role) →
    actions[a']? = some (Action.connect c role') → a = a'

/-- A connection was not open before its one connect. -/
theorem Reaches.not_opened (hAdvances : Advances actions) (hOnce : ConnectOnce actions)
    (h : Reaches W actions entries next r) {c role : Nat}
    (hAction : actions[next]? = some (.connect c role)) (role' : Nat) :
    ¬ OpenedTo actions entries c role' := by
  intro hOpened
  obtain ⟨e, hMem, -, hConnect, -⟩ := hOpened
  have hEq := hOnce _ _ _ _ _ hConnect hAction
  have := h.lt_next hAdvances hMem
  omega

theorem Reaches.linked (hAdvances : Advances actions) (hOnce : ConnectOnce actions)
    (h : Reaches W actions entries next r) : Linked actions entries r := by
  induction h with
  | start =>
    refine ⟨fun c => ?_, fun c => ?_, fun c role => ?_⟩ <;> simp [Runner.start, OpenedTo]
  | skip hReaches hAction hUnmet ih =>
    refine ⟨fun c => ?_, ih.states, fun c role => ?_⟩
    · simp only [openedTo_skipped]
      exact ih.connections c
    · rw [openedTo_skipped]
      exact ih.roles c role
  | @attempt entries next fuel r r' action outcome hReaches hAction hMet hPerform ih =>
    rcases perform_links hPerform with
      ⟨c, role, rfl, rfl, hConnections, hStates, hRoles⟩ | ⟨hNot, hConnections, hStates, hRoles⟩
    · -- a connection was opened: its entry is the one that is new
      have hNew : ∀ c' role', OpenedTo actions (entries ++ [⟨next, true, .completed .none,
          r'.history.drop r.history.length⟩]) c' role' ↔
            OpenedTo actions entries c' role' ∨ (c' = c ∧ role' = role) := fun c' role' => by
        rw [openedTo_snoc, hAction]
        simp [eq_comm]
      refine ⟨fun c' => ?_, fun c' => ?_, fun c' role' => ?_⟩
      · show c' ∈ r'.connections ↔ _
        rw [hConnections, Finset.mem_insert, ih.connections c']
        simp only [hNew]
        constructor
        · rintro (rfl | ⟨role', h⟩)
          · exact ⟨role, Or.inr ⟨rfl, rfl⟩⟩
          · exact ⟨role', Or.inl h⟩
        · rintro ⟨role', h | ⟨rfl, rfl⟩⟩
          · exact Or.inr ⟨role', h⟩
          · exact Or.inl rfl
      · show r'.states.lookup c' = none ↔ c' ∉ r'.connections
        rw [hStates, hConnections, Finset.mem_insert]
        by_cases hc : c' = c
        · subst hc
          simp
        · rw [AList.lookup_insert_ne hc, ih.states c']
          simp [hc]
      · show r'.execution.connectionRoles.lookup c' = _ ↔ _
        rw [hRoles, hNew]
        by_cases hc : c' = c
        · subst hc
          -- no role was recorded of it before, as it is opened once
          have hFresh := hReaches.not_opened hAdvances hOnce hAction
          rw [AList.lookup_insert]
          simp [hFresh, eq_comm]
        · rw [AList.lookup_insert_ne hc, ih.roles c' role']
          simp [hc]
    · -- none was
      have hSame : ∀ c' role', OpenedTo actions (entries ++ [⟨next, true, outcome,
          r'.history.drop r.history.length⟩]) c' role' ↔ OpenedTo actions entries c' role' :=
        fun c' role' => by
          rw [openedTo_snoc, hAction]
          exact or_iff_left fun hOpens =>
            hNot c' role' (Option.some.inj hOpens.2.1) hOpens.2.2
      refine ⟨fun c' => ?_, fun c' => ?_, fun c' role' => ?_⟩
      · show c' ∈ r'.connections ↔ _
        simp only [hSame]
        rw [hConnections, ih.connections c']
      · show r'.states.lookup c' = none ↔ c' ∉ r'.connections
        rw [hStates, hConnections, ih.states c']
      · show r'.execution.connectionRoles.lookup c' = _ ↔ _
        rw [hRoles, hSame, ih.roles c' role']

/-! ## What is skipped for want of a link -/

theorem transportFailure_ne_skipped (e : Error) (unmet : Prerequisite) :
    transportFailure e ≠ .skipped unmet := by
  unfold transportFailure
  split <;> simp

theorem performSend_skipped_iff {c : Nat} {extensionType : UInt16} {messageType : UInt8}
    {channelMsg : Bool} {payload : List UInt8} :
    (∃ unmet, (r.performSend W c extensionType messageType channelMsg payload).1 =
      .skipped unmet) ↔ c ∉ r.connections := by
  by_cases hc : c ∈ r.connections
  · refine iff_of_false ?_ (not_not.mpr hc)
    rintro ⟨unmet, h⟩
    simp only [performSend, if_neg (not_not.mpr hc)] at h
    split at h
    · cases h
    · exact transportFailure_ne_skipped _ _ h
  · refine iff_of_true ⟨.connectionOpen c, ?_⟩ hc
    rw [performSend, if_pos hc]

theorem perform_await_skipped {fuel c session : Nat} {protocol : Protocol} {first : Bool}
    {r' : Runner} {outcome : ActionOutcome} (hNone : r.states.lookup c = none)
    (h : r.perform W fuel (.awaitSetupResponse c session protocol first) = some (outcome, r')) :
    outcome = .skipped (.connectionOpen c) := by
  rcases awaitSetupResponse_cases h with ⟨-, hOutcome, -⟩ | ⟨state, _, _, hSome, -⟩
  · exact hOutcome
  · rw [hNone] at hSome
    cases hSome

/-- A frame is put on a link by a send of just that frame. -/
theorem perform_send_of_exchange {fuel : Nat} {r' : Runner} {action : Action}
    {outcome : ActionOutcome} {l : List Exchange}
    (h : r.perform W fuel action = some (outcome, r')) (hl : r'.history = r.history ++ l) {c : Nat}
    {extensionType : UInt16} {messageType : UInt8} {channelMsg : Bool} {payload : List UInt8}
    {result : Except Error Unit}
    (hMem : Exchange.send c extensionType messageType channelMsg payload result ∈ l) :
    action = .send c extensionType messageType channelMsg payload ∧ c ∈ r.connections := by
  -- nothing was added, or one exchange of another kind, or receives
  have hNone : r'.history = r.history → False := fun hSame => by
    rw [hSame] at hl
    rw [List.self_eq_append_right.mp hl] at hMem
    cases hMem
  have hOne : ∀ x, r'.history = r.history ++ [x] →
      x = Exchange.send c extensionType messageType channelMsg payload result := fun x hx => by
    rw [hx] at hl
    have hEq := List.append_cancel_left hl
    rw [← hEq, List.mem_singleton] at hMem
    exact hMem.symm
  have hReceives : Receives W.deployment r.history r'.history → False := fun hReceives => by
    obtain ⟨l', hl', hAll⟩ := hReceives.continues
    rw [hl'] at hl
    have hEq := List.append_cancel_left hl
    have := hAll _ (hEq ▸ hMem)
    cases this
  cases action with
  | connect connection role =>
    simp only [perform, performConnect, Option.some.injEq] at h
    split at h <;> cases h <;> cases hOne _ rfl
  | enterOnSetupSuccess session end_ =>
    cases h
    exact (hNone rfl).elim
  | exitBlock =>
    cases h
    exact (hNone rfl).elim
  | send connection extensionType' messageType' channelMsg' payload' =>
    simp only [perform, performSend, Option.some.injEq] at h
    split at h
    · cases h
      exact (hNone rfl).elim
    · rename_i hOpen
      rw [not_not] at hOpen
      split at h <;> cases h <;> cases hOne _ rfl <;> exact ⟨rfl, hOpen⟩
  | awaitSetupResponse connection session protocol first =>
    rcases awaitSetupResponse_cases h with ⟨-, -, rfl⟩ | ⟨_, _, r₁, -, -, -, hListens, rfl⟩
    · exact (hNone rfl).elim
    · exact (hReceives hListens.history).elim
  | advanceTime duration =>
    cases h
    cases hOne _ rfl
  | probe =>
    obtain ⟨⟨probed, r₁⟩, hDrain, hOut⟩ := Option.bind_eq_some_iff.mp h
    cases hOut
    exact (hReceives (drainAll_listens hDrain).history).elim

section Open

variable {S : Sv2} {ctx : ProgramContext} {is : List Instruction}

theorem linked_actionsOf (hTyped : WellTyped ctx is)
    (h : Reaches W (actionsOf S ctx is) entries next r) :
    Linked (actionsOf S ctx is) entries r :=
  h.linked (advances_of_blocks (blocks_actionsOf hTyped)) fun _ _ _ _ _ => connect_once

/-- An await that is not skipped found its connection open. -/
theorem opened_of_await (hTyped : WellTyped ctx is)
    (h : Reaches W (actionsOf S ctx is) entries next r) {a c session : Nat} {entry : TraceEntry}
    {protocol : Protocol} {first : Bool} (hEntry : entries[a]? = some entry)
    (hAttempted : entry.attempted = true) (hNot : ∀ unmet, entry.outcome ≠ .skipped unmet)
    (hAwait : (actionsOf S ctx is)[a]? = some (.awaitSetupResponse c session protocol first)) :
    ∃ role, OpenedTo (actionsOf S ctx is) (entries.take a) c role := by
  obtain ⟨action, r₁, r₂, hAt⟩ := h.attempted hEntry hAttempted
  have hLinked := linked_actionsOf hTyped hAt.reaches
  rw [← hLinked.connections]
  by_contra hClosed
  have hAction := hAt.action_eq
  rw [h.action_eq (advances_of_blocks (blocks_actionsOf hTyped)) hEntry, hAwait] at hAction
  obtain rfl := Option.some.inj hAction
  obtain ⟨fuel, hPerform⟩ := hAt.performed
  exact hNot _ (perform_await_skipped ((hLinked.states c).mpr hClosed) hPerform)

/-- A connection that is open at some time was open before it was used. -/
theorem OpenedTo.before_use (hTyped : WellTyped ctx is)
    (h : Reaches W (actionsOf S ctx is) entries next r) {a n k c role : Nat} {i : Instruction}
    (hOpened : OpenedTo (actionsOf S ctx is) entries c role) (hFrom : ComesFrom is a n k i)
    (hUses : i.operation.usesConnection = true)
    (hc : c = connectionOf ctx (is.take n) (i.input 0)) :
    OpenedTo (actionsOf S ctx is) (entries.take a) c role := by
  obtain ⟨e, hMem, hTried, hOpens, hOutcome⟩ := hOpened
  -- its one connect is the action of an earlier instruction
  obtain ⟨n₀, i₀, -, -, hId, -⟩ := connect_iff.mp hOpens
  obtain ⟨a₀, role', hLt, hConnect⟩ := connect_before (S := S) hTyped hFrom hUses (by omega)
  rw [← hc] at hConnect
  obtain ⟨j, hj⟩ := List.getElem?_of_mem hMem
  have hIndex := h.action_eq (advances_of_blocks (blocks_actionsOf hTyped)) hj
  have hSame := connect_once hOpens hConnect
  exact ⟨e, mem_take_of_getElem? hj (by omega), hTried, hOpens, hOutcome⟩

/-- A connection that is open at some time was when a frame was put on it. -/
theorem send_not_skipped (hTyped : WellTyped ctx is)
    (h : Reaches W (actionsOf S ctx is) entries next r) {k c role : Nat} {sent : TraceEntry}
    (hOpened : OpenedTo (actionsOf S ctx is) entries c role)
    (hSent : entries[k]? = some sent)
    (hAttempted : sent.attempted = true) {extensionType : UInt16} {messageType : UInt8}
    {channelMsg : Bool} {payload : List UInt8} (hSend : (actionsOf S ctx is)[k]? =
      some (.send c extensionType messageType channelMsg payload)) (unmet : Prerequisite) :
    sent.outcome ≠ .skipped unmet := by
  intro hSkipped
  obtain ⟨action, r₁, r₂, hAt⟩ := h.attempted hSent hAttempted
  have hAction := hAt.action_eq
  rw [h.action_eq (advances_of_blocks (blocks_actionsOf hTyped)) hSent, hSend] at hAction
  obtain rfl := Option.some.inj hAction
  obtain ⟨fuel, hPerform⟩ := hAt.performed
  simp only [perform, Option.some.injEq] at hPerform
  -- only a connection that is closed makes a send be skipped
  have hClosed : c ∉ r₁.connections :=
    performSend_skipped_iff.mp ⟨unmet, by rw [hPerform, hSkipped]⟩
  obtain ⟨n, k', i, hFrom, hLower⟩ := exists_of_action hSend
  obtain ⟨-, hc, -, hOp⟩ := lower_send hLower
  have hUses : i.operation.usesConnection = true := by
    rcases hOp with ⟨protocol, hOp, -⟩ | ⟨hOp, -⟩ <;> rw [hOp] <;> rfl
  -- and this one was opened before it is used
  refine hClosed (((linked_actionsOf hTyped hAt.reaches).connections c).mpr ⟨role, ?_⟩)
  exact hOpened.before_use hTyped h hFrom hUses hc

end Open

end Runner

end Stratamoto
