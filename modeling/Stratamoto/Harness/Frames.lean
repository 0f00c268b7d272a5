import Stratamoto.Harness.Dominance

/-!
# Stratamoto — every frame is recorded once

Frames are received in two loops, the pump of an await and the drain of a probe.
Both hand each frame to the dispatcher of its connection, which keeps one event
of it; a probe also lists it.

* `eventOf P frame` — what the dispatcher makes of a frame, whatever the state;
* `Logs P r r' l` — the exchanges `l` were added, and an event for each frame;
* `perform_logs` — so it is of every action, unless it opens a connection again;
* `Reaches.events` — the events of a reachable state are those of its frames;
* `Reaches.unsolicited` — what is unsolicited is what the probes list;
* `FramesRecorded` — the frames of a run against its record.
-/

namespace Stratamoto

open Runner

/-! ## One event of a frame -/

/-- What the dispatcher makes of a frame. -/
def eventOf (P : ParsersSv2) (frame : Frame) : Event := (({} : ConnectionState).dispatch P frame).1

section Dispatch

variable (P : ParsersSv2) (state : ConnectionState) (frame : Frame)

@[simp] theorem checkHeader_events (message : AnyMessage) :
    (state.checkHeader P frame message).events = state.events := by
  unfold ConnectionState.checkHeader
  split <;> rfl

@[simp] theorem apply_events (event : Event) (messageType : UInt8) :
    (state.apply event messageType).events = state.events := by
  unfold ConnectionState.apply
  split <;> rfl

/-- The event does not depend on the state, and is kept after the earlier ones. -/
theorem dispatch_events :
    (state.dispatch P frame).2.events = state.events ++ [eventOf P frame] := by
  unfold eventOf ConnectionState.dispatch
  by_cases hExt : frame.extTypeWithoutChannelMsg = 0
  · simp only [hExt, ne_eq, not_true_eq_false, if_false]
    cases frame.message P with
    | ok message => simp only [ConnectionState.observe, apply_events, checkHeader_events]
    | error e =>
      by_cases hKnown : knownMessageType frame.messageType = true
      · simp only [if_pos hKnown]
      · simp only [if_neg hKnown]
  · simp only [ne_eq, hExt, not_false_eq_true, if_true]

end Dispatch

/-- The connection and the message type of the frame the exchange received. -/
def Exchange.heard : Exchange → Option (Nat × UInt8)
  | .recv connection _ (.ok frame) => some (connection, frame.messageType)
  | _ => none

/-- The frames received, on any connection, in order. -/
def History.heard (history : History) : List (Nat × UInt8) := history.filterMap Exchange.heard

/-- The frames a probe lists. -/
def ActionOutcome.probed : ActionOutcome → List (Nat × UInt8)
  | .completed (.probed frames) => frames
  | _ => []

theorem History.receivedOn_append (history later : History) (c : Nat) :
    History.receivedOn (history ++ later) c = history.receivedOn c ++ History.receivedOn later c :=
  List.filterMap_append

/-! ## The two loops -/

namespace Runner

variable {W : World}

/-- While the connection is listened to, its frames become its events, and no
other connection has any. -/
structure Hears (P : ParsersSv2) (c : Nat) (l : History) (state state' : ConnectionState) : Prop where
  events : state'.events = state.events ++ (l.receivedOn c).map (eventOf P)
  only : ∀ c' ≠ c, l.receivedOn c' = []

theorem Hears.of_none {P : ParsersSv2} {c : Nat} {l : History} {state : ConnectionState}
    (h : ∀ c', l.receivedOn c' = []) : Hears P c l state state :=
  ⟨by rw [h c, List.map_nil, List.append_nil], fun c' _ => h c'⟩

/-- A frame is dispatched, and more is heard. -/
theorem Hears.frame {P : ParsersSv2} {c timeout : Nat} {before l : History}
    {state state' : ConnectionState} {frame : Frame} (hBefore : ∀ c', before.receivedOn c' = [])
    (h : Hears P c l (state.dispatch P frame).2 state') :
    Hears P c (before ++ [.recv c timeout (.ok frame)] ++ l) state state' := by
  -- the frame is heard on its connection, and on no other
  have hFrame : ∀ c', History.receivedOn (before ++ [.recv c timeout (.ok frame)] ++ l) c' =
      (if c = c' then [frame] else []) ++ l.receivedOn c' := fun c' => by
    rw [History.receivedOn_append, History.receivedOn_append, hBefore c']
    by_cases hc : c = c'
    · simp [History.receivedOn, Exchange.receivedOn, hc]
    · simp [History.receivedOn, Exchange.receivedOn, hc]
  constructor
  · rw [h.events, dispatch_events, hFrame, if_pos rfl]
    simp
  · intro c' hc
    rw [hFrame, if_neg (Ne.symm hc), h.only c' hc]
    rfl

theorem pumpLoop_hears {c deadline fuel : Nat} {done : ConnectionState → Bool} {history : History}
    {state : ConnectionState} {out : Except ActionOutcome Unit × History × ConnectionState}
    (h : pumpLoop W c deadline done fuel history state = some out) :
    ∃ l, out.2.1 = history ++ l ∧ Hears W.parsers c l state out.2.2 := by
  induction fuel generalizing history state with
  | zero => cases h
  | succ fuel ih =>
    by_cases hDone : done state = true
    · rw [pumpLoop, if_pos hDone] at h
      cases h
      exact ⟨[], (List.append_nil _).symm, .of_none fun _ => rfl⟩
    · set now := W.deployment.now history with hNow
      by_cases hTime : deadline - now = 0
      · rw [pumpLoop_of_late hDone hNow.symm hTime] at h
        cases h
        exact ⟨[.now now], rfl, .of_none fun _ => rfl⟩
      · cases hRecv : W.deployment.recv (history ++ [.now now]) c (deadline - now) with
        | error e =>
          rw [pumpLoop_of_error hDone hNow.symm rfl hTime hRecv] at h
          cases h
          exact ⟨_, List.append_assoc _ _ _, .of_none fun _ => rfl⟩
        | ok frame =>
          rw [pumpLoop_of_frame hDone hNow.symm rfl hTime hRecv] at h
          -- the clock is read and a frame received, and the rest is heard after them
          obtain ⟨l, hl, hHears⟩ := ih h
          refine ⟨[.now now] ++ [.recv c (deadline - now) (.ok frame)] ++ l, ?_,
            hHears.frame fun _ => rfl⟩
          rw [hl]
          simp only [List.append_assoc]

/-- A drain also lists what it hears. -/
theorem drain_hears {c fuel : Nat} {history : History} {state : ConnectionState}
    {out : List (Nat × UInt8) × History × ConnectionState}
    (h : drain W c fuel history state = some out) :
    ∃ l, out.2.1 = history ++ l ∧ Hears W.parsers c l state out.2.2 ∧ out.1 = l.heard := by
  induction fuel generalizing history state out with
  | zero => cases h
  | succ fuel ih =>
    cases hRecv : W.deployment.recv history c 0 with
    | error e =>
      rw [drain_of_error hRecv] at h
      cases h
      exact ⟨[.recv c 0 (.error e)], rfl, .of_none fun _ => rfl, rfl⟩
    | ok frame =>
      rw [drain_of_frame hRecv] at h
      obtain ⟨out', hRest, hOut⟩ := Option.bind_eq_some_iff.mp h
      obtain rfl := Option.some.inj hOut
      -- the frame is dispatched first, then those after it
      obtain ⟨l, hl, hHears, hProbed⟩ := ih hRest
      refine ⟨[] ++ [.recv c 0 (.ok frame)] ++ l, ?_, hHears.frame fun _ => rfl, ?_⟩
      · rw [hl]
        simp only [List.append_assoc, List.nil_append]
      · show _ :: out'.1 = _
        rw [hProbed]
        rfl

/-! ## The events of a runner -/

/-- The events kept of a connection, none if it has no state. -/
def eventsOn (r : Runner) (c : Nat) : List Event := ((r.states.lookup c).getD {}).events

/-- The exchanges were added, and for each frame among them its event. -/
structure Logs (P : ParsersSv2) (r r' : Runner) (l : History) : Prop where
  history : r'.history = r.history ++ l
  events : ∀ c, r'.eventsOn c = r.eventsOn c ++ (l.receivedOn c).map (eventOf P)

theorem Logs.trans {P : ParsersSv2} {r₁ r₂ r₃ : Runner} {l l' : History} (h : Logs P r₁ r₂ l)
    (h' : Logs P r₂ r₃ l') : Logs P r₁ r₃ (l ++ l') := by
  refine ⟨by rw [h'.history, h.history, List.append_assoc], fun c => ?_⟩
  rw [h'.events, h.events, History.receivedOn_append, List.map_append, List.append_assoc]

/-- Without frames the events stay as they are. -/
theorem Logs.of_same {P : ParsersSv2} {r r' : Runner} {l : History}
    (hHistory : r'.history = r.history ++ l) (hEvents : ∀ c, r'.eventsOn c = r.eventsOn c)
    (hNone : ∀ c, l.receivedOn c = []) : Logs P r r' l :=
  ⟨hHistory, fun c => by rw [hEvents, hNone c, List.map_nil, List.append_nil]⟩

theorem eventsOn_insert {r : Runner} {c : Nat} {state : ConnectionState} (c' : Nat)
    {r' : Runner} (hStates : r'.states = r.states.insert c state) :
    r'.eventsOn c' = if c' = c then state.events else r.eventsOn c' := by
  unfold eventsOn
  rw [hStates]
  by_cases hc : c' = c
  · subst hc
    rw [AList.lookup_insert, if_pos rfl]
    rfl
  · rw [AList.lookup_insert_ne hc, if_neg hc]

/-- The state of the connection that was listened to is written back. -/
theorem Hears.logs {P : ParsersSv2} {c : Nat} {l : History} {r r' : Runner}
    {state state' : ConnectionState} (h : Hears P c l state state')
    (hState : r.states.lookup c = some state) (hHistory : r'.history = r.history ++ l)
    (hStates : r'.states = r.states.insert c state') : Logs P r r' l := by
  refine ⟨hHistory, fun c' => ?_⟩
  rw [eventsOn_insert c' hStates]
  by_cases hc : c' = c
  · subst hc
    rw [if_pos rfl, h.events, eventsOn, hState]
    rfl
  · rw [if_neg hc, h.only c' hc, List.map_nil, List.append_nil]

theorem pump_logs {fuel c timeout : Nat} {r r' : Runner} {done : ConnectionState → Bool}
    {verdict : Except ActionOutcome Unit}
    (h : r.pump W fuel c timeout done = some (verdict, r')) : ∃ l, Logs W.parsers r r' l := by
  have hSame : Logs W.parsers r r [] :=
    .of_same (List.append_nil _).symm (fun _ => rfl) fun _ => rfl
  unfold pump at h
  split at h
  · cases h
    exact ⟨[], hSame⟩
  · rename_i state hState
    split at h
    · cases h
      exact ⟨[], hSame⟩
    · obtain ⟨⟨verdict', history, state'⟩, hLoop, hOut⟩ := Option.bind_eq_some_iff.mp h
      cases hOut
      obtain ⟨l, hl, hHears⟩ := pumpLoop_hears hLoop
      -- the clock that starts the wait is no frame
      have hClock : Hears W.parsers c ([.now (W.deployment.now r.history)] ++ l) state state' := by
        refine ⟨hHears.events, hHears.only⟩
      refine ⟨_, hClock.logs hState ?_ rfl⟩
      show history = _
      rw [← List.append_assoc]
      exact hl

theorem drainAll_logs {fuel : Nat} {ids : List Nat} {r r' : Runner} {probed : List (Nat × UInt8)}
    (h : r.drainAll W fuel ids = some (probed, r')) :
    ∃ l, Logs W.parsers r r' l ∧ probed = l.heard := by
  induction ids generalizing r probed with
  | nil =>
    cases h
    exact ⟨[], .of_same (List.append_nil _).symm (fun _ => rfl) fun _ => rfl, rfl⟩
  | cons id ids ih =>
    rcases drainAll_cons_cases h with
      ⟨-, hRest⟩ | ⟨state, frames, history, state', rest, hState, hDrain, hRest, rfl⟩
    · exact ih hRest
    · obtain ⟨l, hl, hHears, rfl⟩ := drain_hears hDrain
      obtain ⟨l', hLogs, rfl⟩ := ih hRest
      exact ⟨l ++ l', (hHears.logs hState hl rfl).trans hLogs, List.filterMap_append.symm⟩

/-- Every action keeps an event of each frame it receives, unless it opens a
connection that was opened before. -/
theorem perform_logs {fuel : Nat} {r r' : Runner} {action : Action} {outcome : ActionOutcome}
    (h : r.perform W fuel action = some (outcome, r'))
    (hFresh : ∀ c role, action = .connect c role → r.states.lookup c = none) :
    ∃ l, Logs W.parsers r r' l := by
  -- an exchange that receives nothing changes no events
  have hSame : ∀ x : Exchange, (∀ c, x.receivedOn c = none) → Logs W.parsers r (r.exchange x) [x] :=
    fun x hx => .of_same rfl (fun _ => rfl) fun c => List.filterMap_eq_nil_iff.mpr fun y hy => by
      rw [List.mem_singleton.mp hy]
      exact hx c
  have hNone : Logs W.parsers r r [] :=
    .of_same (List.append_nil _).symm (fun _ => rfl) fun _ => rfl
  cases action with
  | enterOnSetupSuccess session end_ =>
    cases h
    exact ⟨[], hNone⟩
  | exitBlock =>
    cases h
    exact ⟨[], hNone⟩
  | connect c role =>
    simp only [perform, performConnect, Option.some.injEq] at h
    split at h <;> cases h
    · -- the state that is new has no events, and neither had the connection
      refine ⟨_, .of_same rfl (fun c' => ?_) fun _ => rfl⟩
      rw [eventsOn_insert c' rfl]
      split
      · rename_i hc
        rw [hc, eventsOn, hFresh c role rfl]
        rfl
      · rfl
    · exact ⟨_, hSame _ fun _ => rfl⟩
  | send connection extensionType messageType channelMsg payload =>
    simp only [perform, performSend, Option.some.injEq] at h
    split at h
    · cases h
      exact ⟨[], hNone⟩
    · split at h <;> cases h <;> exact ⟨_, hSame _ fun _ => rfl⟩
  | awaitSetupResponse c session protocol first =>
    rcases awaitSetupResponse_cases h with
      ⟨-, -, rfl⟩ | ⟨state, verdict, r₁, hState, hPump, -, -, rfl⟩
    · exact ⟨[], hNone⟩
    · -- that the setup is pending changes no events
      have hPending : Logs W.parsers r
          { r with states := r.states.insert c { state with setup := .pending } } [] := by
        refine .of_same (List.append_nil _).symm (fun c' => ?_) fun _ => rfl
        rw [eventsOn_insert c' rfl]
        split
        · rename_i hc
          rw [hc, eventsOn, hState]
          rfl
        · rfl
      obtain ⟨l, hLogs⟩ := pump_logs hPump
      have hBoth := hPending.trans hLogs
      exact ⟨_, hBoth.history, hBoth.events⟩
  | advanceTime duration =>
    cases h
    exact ⟨_, hSame _ fun _ => rfl⟩
  | probe =>
    obtain ⟨⟨probed, r₁⟩, hDrain, hOut⟩ := Option.bind_eq_some_iff.mp h
    cases hOut
    obtain ⟨l, hLogs, -⟩ := drainAll_logs hDrain
    exact ⟨l, hLogs.history, hLogs.events⟩

/-! ## What is unsolicited -/

/-- A probe lists each frame it receives once. -/
theorem perform_probe {fuel : Nat} {r r' : Runner} {outcome : ActionOutcome} {l : History}
    (h : r.perform W fuel .probe = some (outcome, r')) (hl : r'.history = r.history ++ l) :
    ∃ frames, outcome = .completed (.probed frames) ∧ frames.Perm l.heard ∧
      r'.execution.unsolicited = r.execution.unsolicited ++ frames := by
  obtain ⟨⟨probed, r₁⟩, hDrain, hOut⟩ := Option.bind_eq_some_iff.mp h
  cases hOut
  obtain ⟨l', hLogs, rfl⟩ := drainAll_logs hDrain
  obtain rfl : l = l' := List.append_cancel_left (hl.symm.trans hLogs.history)
  refine ⟨_, rfl, List.perm_insertionSort _ _, ?_⟩
  show r₁.execution.unsolicited ++ _ = _
  rw [(drainAll_listens hDrain).execution]

/-- No other action lists frames. -/
theorem perform_ne_probe {fuel : Nat} {r r' : Runner} {action : Action} {outcome : ActionOutcome}
    (h : r.perform W fuel action = some (outcome, r'))
    (hLinked : ∀ c, r.states.lookup c = none ↔ c ∉ r.connections) (hNe : action ≠ .probe) :
    (∀ frames, outcome ≠ .completed (.probed frames)) ∧
      r'.execution.unsolicited = r.execution.unsolicited := by
  cases action with
  | enterOnSetupSuccess session end_ =>
    cases h
    exact ⟨by simp, rfl⟩
  | exitBlock =>
    cases h
    exact ⟨by simp, rfl⟩
  | connect c role =>
    simp only [perform, performConnect, Option.some.injEq] at h
    split at h <;> cases h <;> exact ⟨by simp, rfl⟩
  | send connection extensionType messageType channelMsg payload =>
    simp only [perform, performSend, Option.some.injEq] at h
    split at h
    · cases h
      exact ⟨by simp, rfl⟩
    · split at h <;> cases h
      · exact ⟨by simp, rfl⟩
      · rename_i e _
        refine ⟨fun frames hEq => ?_, rfl⟩
        -- a failure of the transport is not a completion
        have hFailed := transportFailure_failed e
        rw [hEq] at hFailed
        exact hFailed
  | awaitSetupResponse c session protocol first =>
    constructor
    · intro frames hEq
      -- an await settles on a response, if it is not skipped
      rcases perform_records h hLinked with ⟨-, hSkipped⟩ | ⟨_, _, _, _, -, hSettled, -⟩
      · obtain ⟨unmet, hOutcome⟩ := hSkipped _ _ _ _ rfl
        cases hEq.symm.trans hOutcome
      · rw [hEq] at hSettled
        rcases hSettled with hFailed | ⟨_, -, hResponse⟩
        · exact hFailed
        · cases hResponse
    · rcases awaitSetupResponse_cases h with ⟨-, -, rfl⟩ | ⟨_, _, r₁, -, -, -, hListens, rfl⟩
      · rfl
      · show r₁.execution.unsolicited = _
        rw [hListens.execution]
  | advanceTime duration =>
    cases h
    exact ⟨by simp, rfl⟩
  | probe => exact absurd rfl hNe

theorem probed_of_ne {outcome : ActionOutcome} (h : ∀ frames, outcome ≠ .completed (.probed frames)) :
    outcome.probed = [] := by
  unfold ActionOutcome.probed
  split
  · exact absurd rfl (h _)
  · rfl

/-! ## Along a run -/

section Run

variable {actions : List Action} {entries : List TraceEntry} {next : Nat} {r : Runner}

/-- The events of a connection are those of the frames received on it. -/
theorem Reaches.events (hAdvances : Advances actions) (hOnce : ConnectOnce actions)
    (h : Reaches W actions entries next r) (c : Nat) :
    r.eventsOn c = (r.history.receivedOn c).map (eventOf W.parsers) := by
  induction h with
  | start => rfl
  | skip _ _ _ ih => exact ih
  | @attempt entries next fuel r r' action outcome hReaches hAction hMet hPerform ih =>
    have hFresh : ∀ c role, action = .connect c role → r.states.lookup c = none := by
      rintro c role rfl
      have hLinked := hReaches.linked hAdvances hOnce
      rw [hLinked.states, hLinked.connections]
      exact not_exists.mpr (hReaches.not_opened hAdvances hOnce hAction)
    obtain ⟨l, hLogs⟩ := perform_logs hPerform hFresh
    show r'.eventsOn c = (r'.history.receivedOn c).map _
    rw [hLogs.events, hLogs.history, History.receivedOn_append, List.map_append, ih]

/-- What is unsolicited is what was listed, probe after probe. -/
theorem Reaches.unsolicited (hAdvances : Advances actions) (hOnce : ConnectOnce actions)
    (h : Reaches W actions entries next r) :
    r.execution.unsolicited = entries.flatMap fun entry => entry.outcome.probed := by
  induction h with
  | start => rfl
  | @skip entries next exit r action unmet _ _ _ ih =>
    -- skipped actions probe nothing
    have hNone : ∀ count, (skippedEntries unmet next count).flatMap
        (fun entry => entry.outcome.probed) = [] := fun count => by
      refine List.flatMap_eq_nil_iff.mpr fun entry hMem => ?_
      rw [(mem_skippedEntries hMem).2.2.2.1]
      rfl
    rw [List.flatMap_append, hNone, List.append_nil]
    exact ih
  | @attempt entries next fuel r r' action outcome hReaches hAction hMet hPerform ih =>
    show r'.execution.unsolicited = _
    rw [List.flatMap_append, ← ih, List.flatMap_singleton]
    by_cases hProbe : action = .probe
    · subst hProbe
      obtain ⟨l, hl⟩ := (perform_continues hPerform).history
      obtain ⟨frames, rfl, -, hUnsolicited⟩ := perform_probe hPerform hl.symm
      exact hUnsolicited
    · obtain ⟨hNe, hSame⟩ :=
        perform_ne_probe hPerform (hReaches.linked hAdvances hOnce).states hProbe
      rw [probed_of_ne hNe, List.append_nil, hSame]

/-- An action lists frames if it is a probe that was attempted, and no other does. -/
theorem Reaches.probed (hAdvances : Advances actions) (hOnce : ConnectOnce actions)
    (h : Reaches W actions entries next r) {entry : TraceEntry} (hMem : entry ∈ entries) :
    (entry.attempted = true ∧ actions[entry.action]? = some .probe ∧
      ∃ frames, entry.outcome = .completed (.probed frames) ∧
        frames.Perm (History.heard entry.exchanges)) ∨
    ((entry.attempted = true → actions[entry.action]? ≠ some .probe) ∧
      ∀ frames, entry.outcome ≠ .completed (.probed frames)) := by
  obtain ⟨j, hj⟩ := List.getElem?_of_mem hMem
  by_cases hAttempted : entry.attempted = true
  · obtain ⟨action, r₁, r₂, hAt⟩ := h.attempted hj hAttempted
    obtain ⟨fuel, hPerform⟩ := hAt.performed
    -- only a probe that was attempted hands frames over
    by_cases hProbe : action = .probe
    · subst hProbe
      obtain ⟨frames, hOutcome, hPerm, -⟩ := perform_probe hPerform hAt.exchanges
      exact Or.inl ⟨hAttempted, hAt.action_eq, frames, hOutcome, hPerm⟩
    · refine Or.inr ⟨fun _ hEq => hProbe (Option.some.inj (hAt.action_eq.symm.trans hEq)), ?_⟩
      exact (perform_ne_probe hPerform (hAt.reaches.linked hAdvances hOnce).states hProbe).1
  · obtain ⟨_, _, _, _, _, -, hAt⟩ := h.skipped hj (Bool.not_eq_true _ ▸ hAttempted)
    refine Or.inr ⟨fun hTried => absurd hTried hAttempted, fun frames hEq => ?_⟩
    rw [hAt.outcome] at hEq
    cases hEq

end Run

end Runner

/-! ## The record of a run -/

/-- The frames of a run are in its record, each once and in the order it came. -/
structure FramesRecorded (W : World) (actions : List Action) (execution : Execution)
    (entries : List TraceEntry) : Prop where
  /-- The deployment answered as the trace says. -/
  plays : W.deployment.Plays (entries.flatMap TraceEntry.exchanges)
  outcomes : execution.outcomes = entries.map TraceEntry.outcome
  opened : ∀ c, execution.connections.lookup c ≠ none ↔ ∃ role, OpenedTo actions entries c role
  /-- One event for each frame received on the connection, in order of arrival. -/
  events : ∀ c state, execution.connections.lookup c = some state → state.events =
    (History.receivedOn (entries.flatMap TraceEntry.exchanges) c).map (eventOf W.parsers)
  unsolicited : execution.unsolicited = entries.flatMap fun entry => entry.outcome.probed
  /-- A probe lists each frame it received once. -/
  probed : ∀ entry ∈ entries, entry.attempted = true → actions[entry.action]? = some .probe →
    ∃ frames, entry.outcome = .completed (.probed frames) ∧
      frames.Perm (History.heard entry.exchanges)
  onlyProbes : ∀ entry ∈ entries, ∀ frames, entry.outcome = .completed (.probed frames) →
    entry.attempted = true ∧ actions[entry.action]? = some .probe

/-- No two actions open one connection, in a program that compiles. -/
theorem connectOnce_of_compile {S : Sv2} {p : Program} {compiled : CompiledProgram}
    (h : Compiler.compile S p = .ok compiled) : ConnectOnce compiled.actions := by
  have hPairwise := List.pairwise_filterMap.mp (opens_nodup_of_compile h)
  rw [List.pairwise_iff_getElem] at hPairwise
  have hLt : ∀ (a a' c role role' : Nat), compiled.actions[a]? = some (Action.connect c role) →
      compiled.actions[a']? = some (Action.connect c role') → ¬ a < a' := by
    intro a a' c role role' ha ha' hLt
    obtain ⟨hLen, hGet⟩ := List.getElem?_eq_some_iff.mp ha
    obtain ⟨hLen', hGet'⟩ := List.getElem?_eq_some_iff.mp ha'
    exact hPairwise a a' hLen hLen' hLt c (by rw [hGet]; rfl) c (by rw [hGet']; rfl) rfl
  intro a a' c role role' ha ha'
  exact Nat.le_antisymm (Nat.not_lt.mp (hLt a' a c role' role ha' ha))
    (Nat.not_lt.mp (hLt a a' c role role' ha ha'))

theorem framesRecorded {S : Sv2} {W : World} {p : Program} {compiled : CompiledProgram}
    (hCompile : Compiler.compile S p = .ok compiled)
    (hLen : compiled.actions.length ≤ ActionId.max) {fuel : Nat} {execution : Execution}
    {entries : List TraceEntry} (hRun : run W fuel compiled = some (execution, entries)) :
    FramesRecorded W compiled.actions execution entries := by
  have hAdvances := advances_of_endsLater (endsLater_of_compile hCompile) hLen
  have hOnce := connectOnce_of_compile hCompile
  obtain ⟨next, r, hReaches, -, rfl⟩ := run_reaches hRun
  -- the history of the run is that of its entries
  have hHistory := hReaches.history
  refine ⟨hHistory ▸ hReaches.plays, hReaches.outcomes, fun c => ?_, fun c state hState => ?_,
    hReaches.unsolicited hAdvances hOnce, fun entry hMem hAttempted hProbe => ?_,
    fun entry hMem frames hFrames => ?_⟩
  · have hLinked := hReaches.linked hAdvances hOnce
    show r.states.lookup c ≠ none ↔ _
    rw [ne_eq, hLinked.states, not_not, hLinked.connections]
  · have hEvents := hReaches.events hAdvances hOnce c
    have hState' : r.states.lookup c = some state := hState
    rw [eventsOn, hState', Option.getD_some] at hEvents
    rw [hEvents, hHistory]
  · rcases hReaches.probed hAdvances hOnce hMem with ⟨-, -, hFrames⟩ | ⟨hNot, -⟩
    · exact hFrames
    · exact absurd hProbe (hNot hAttempted)
  · rcases hReaches.probed hAdvances hOnce hMem with ⟨hAttempted, hProbe, -⟩ | ⟨-, hNot⟩
    · exact ⟨hAttempted, hProbe⟩
    · exact absurd hFrames (hNot frames)

end Stratamoto
