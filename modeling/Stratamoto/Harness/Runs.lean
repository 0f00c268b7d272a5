import Stratamoto.Harness.Runner

/-!
# Stratamoto — runs, step by step

What one action can do to the runner, and how far a run has got.

* `Deployment.Plays D history` — the deployment `D` answers as the history says;
* `Listens W r r'` — all that waiting for frames changes;
* `Continues W r r'` — what every action leaves alone;
* `Reaches W actions trace next r` — the main loop has dealt with the actions
  before `next`, as the trace says, and stands at the runner `r`;
* `run_reaches` — where a run that returns has got to.

The loops give `none` when their fuel runs out; everything here is about those
that return.
-/

namespace Stratamoto

/-! ## Plays -/

/-- The deployment answers the exchange as recorded. -/
def Deployment.Answers (D : Deployment) (history : History) : Exchange → Prop
  | .connect connection role opened => D.connect history connection role = opened
  | .send connection extensionType messageType channelMsg payload result =>
    D.send history connection extensionType messageType channelMsg payload = result
  | .recv connection timeout result => D.recv history connection timeout = result
  | .advanceTime _ => True
  | .now instant => D.now history = instant

/-- Every exchange of the history is answered as recorded. -/
def Deployment.Plays (D : Deployment) (history : History) : Prop :=
  ∀ (before : History) (x : Exchange) (after : History), history = before ++ x :: after →
    D.Answers before x

theorem Deployment.plays_nil (D : Deployment) : D.Plays [] := by
  intro before x after h
  simp at h

theorem Deployment.plays_snoc {D : Deployment} {history : History} {x : Exchange} :
    D.Plays (history ++ [x]) ↔ D.Plays history ∧ D.Answers history x := by
  constructor
  · intro h
    refine ⟨fun before y after hEq => h before y (after ++ [x]) (by simp [hEq]), ?_⟩
    exact h history x [] rfl
  · rintro ⟨hPlays, hLast⟩ before y after hEq
    rcases List.eq_nil_or_concat after with rfl | ⟨after, z, rfl⟩
    · obtain ⟨rfl, hx⟩ := List.append_inj' hEq rfl
      rw [List.cons.injEq] at hx
      exact hx.1 ▸ hLast
    · rw [List.concat_eq_append,
        show before ++ y :: (after ++ [z]) = (before ++ y :: after) ++ [z] by simp] at hEq
      exact hPlays before y after (List.append_inj' hEq rfl).1

/-- A frame received on the connection. -/
def Exchange.isFrameOn (connection : Nat) : Exchange → Bool
  | .recv connection' _ (.ok _) => connection' = connection
  | _ => false

def History.framesOn (history : History) (connection : Nat) : Nat :=
  history.countP (Exchange.isFrameOn connection)

/-! ## What the loops of an action add to the history -/

/-- A frame awaited or a reading of the clock, nothing that reaches the
deployment as a message. -/
def Exchange.isReceive : Exchange → Bool
  | .recv _ _ _ | .now _ => true
  | _ => false

/-- The later history continues the earlier one with receives only. -/
structure Receives (D : Deployment) (earlier later : History) : Prop where
  continues : ∃ l, later = earlier ++ l ∧ ∀ x ∈ l, x.isReceive = true
  plays : D.Plays earlier → D.Plays later

theorem Receives.refl (D : Deployment) (history : History) : Receives D history history :=
  ⟨⟨[], by simp, by simp⟩, id⟩

theorem Receives.trans {D : Deployment} {h₁ h₂ h₃ : History} (h : Receives D h₁ h₂)
    (h' : Receives D h₂ h₃) : Receives D h₁ h₃ := by
  obtain ⟨l, rfl, hl⟩ := h.continues
  obtain ⟨l', rfl, hl'⟩ := h'.continues
  refine ⟨⟨l ++ l', by simp, fun x hx => ?_⟩, fun hPlays => h'.plays (h.plays hPlays)⟩
  rcases List.mem_append.mp hx with hx | hx
  · exact hl x hx
  · exact hl' x hx

theorem Receives.snoc {D : Deployment} {history : History} {x : Exchange}
    (hx : x.isReceive = true) (hAnswers : D.Answers history x) :
    Receives D history (history ++ [x]) :=
  ⟨⟨[x], rfl, by simpa using hx⟩, fun hPlays => Deployment.plays_snoc.mpr ⟨hPlays, hAnswers⟩⟩

namespace Runner

variable {W : World}

section Turn

variable {connection deadline now remaining fuel : Nat} {done : ConnectionState → Bool}
  {history : History} {state : ConnectionState}

/-- One turn of a pump that waits: its time is up. -/
theorem pumpLoop_of_late (hDone : ¬ done state = true) (hNow : W.deployment.now history = now)
    (hLate : deadline - now = 0) : pumpLoop W connection deadline done (fuel + 1) history state =
      some (.error .timedOut, history ++ [.now now], state) := by
  subst hNow
  rw [pumpLoop, if_neg hDone]
  exact if_pos hLate

/-- It receives a frame. -/
theorem pumpLoop_of_frame (hDone : ¬ done state = true) (hNow : W.deployment.now history = now)
    (hTime : deadline - now = remaining) (hNe : remaining ≠ 0) {frame : Frame}
    (hFrame : W.deployment.recv (history ++ [.now now]) connection remaining = .ok frame) :
    pumpLoop W connection deadline done (fuel + 1) history state =
      pumpLoop W connection deadline done fuel
        (history ++ [.now now] ++ [.recv connection remaining (.ok frame)])
        (state.dispatch W.parsers frame).2 := by
  subst hNow hTime
  rw [pumpLoop, if_neg hDone]
  simp only [if_neg hNe, hFrame]

/-- It receives an error. -/
theorem pumpLoop_of_error (hDone : ¬ done state = true) (hNow : W.deployment.now history = now)
    (hTime : deadline - now = remaining) (hNe : remaining ≠ 0) {e : Error}
    (hError : W.deployment.recv (history ++ [.now now]) connection remaining = .error e) :
    pumpLoop W connection deadline done (fuel + 1) history state =
      some (.error (transportFailure e),
        history ++ [.now now] ++ [.recv connection remaining (.error e)], state) := by
  subst hNow hTime
  rw [pumpLoop, if_neg hDone]
  simp only [if_neg hNe, hError]
  by_cases hTimeout : e = .timeout
  · subst hTimeout
    simp only [if_neg hDone, transportFailure]
  · cases e <;> first | exact absurd rfl hTimeout | simp only

/-- One turn of a drain. -/
theorem drain_of_frame {frame : Frame}
    (hFrame : W.deployment.recv history connection 0 = .ok frame) :
    drain W connection (fuel + 1) history state =
      (drain W connection fuel (history ++ [.recv connection 0 (.ok frame)])
        (state.dispatch W.parsers frame).2).bind
          fun x => some ((connection, frame.messageType) :: x.1, x.2.1, x.2.2) := by
  simp only [drain, hFrame]
  exact Option.bind_congr fun _ _ => rfl

theorem drain_of_error {e : Error} (hError : W.deployment.recv history connection 0 = .error e) :
    drain W connection (fuel + 1) history state =
      some ([], history ++ [.recv connection 0 (.error e)], state) := by
  simp only [drain, hError]

end Turn

theorem pumpLoop_receives {connection deadline : Nat} {done : ConnectionState → Bool}
    {fuel : Nat} {history : History} {state : ConnectionState}
    {out : Except ActionOutcome Unit × History × ConnectionState}
    (h : pumpLoop W connection deadline done fuel history state = some out) :
    Receives W.deployment history out.2.1 := by
  induction fuel generalizing history state with
  | zero => cases h
  | succ fuel ih =>
    set asked := history ++ [Exchange.now (W.deployment.now history)] with hAsked
    -- a turn asks the clock and then for a frame, and nothing else
    have hClock : Receives W.deployment history asked := .snoc rfl rfl
    have hRecv : ∀ timeout, Receives W.deployment asked
        (asked ++ [.recv connection timeout (W.deployment.recv asked connection timeout)]) :=
      fun timeout => .snoc rfl rfl
    rw [pumpLoop] at h
    split at h
    · cases h
      exact Receives.refl _ _
    · simp only [← hAsked] at h
      split at h
      · cases h
        exact hClock
      · split at h
        · exact (hClock.trans (hRecv _)).trans (ih h)
        · cases h
          exact hClock.trans (hRecv _)
        · cases h
          exact hClock.trans (hRecv _)

theorem drain_receives {connection fuel : Nat} {history : History} {state : ConnectionState}
    {out : List (Nat × UInt8) × History × ConnectionState}
    (h : drain W connection fuel history state = some out) :
    Receives W.deployment history out.2.1 := by
  induction fuel generalizing history state out with
  | zero => cases h
  | succ fuel ih =>
    -- every turn receives once, until an error
    have hRecv : Receives W.deployment history
        (history ++ [.recv connection 0 (W.deployment.recv history connection 0)]) := .snoc rfl rfl
    simp only [drain] at h
    split at h
    · obtain ⟨out', hRest, hOut⟩ := Option.bind_eq_some_iff.mp h
      cases hOut
      have := ih hRest
      exact hRecv.trans this
    · cases h
      exact hRecv

/-- What waiting for frames leaves alone. -/
structure Listens (W : World) (r r' : Runner) : Prop where
  history : Receives W.deployment r.history r'.history
  connections : r'.connections = r.connections
  execution : r'.execution = r.execution
  /-- A connection has a state after it exactly when it had one before. -/
  states : ∀ c, r'.states.lookup c = none ↔ r.states.lookup c = none

theorem Listens.refl (W : World) (r : Runner) : Listens W r r :=
  ⟨Receives.refl _ _, rfl, rfl, fun _ => Iff.rfl⟩

theorem Listens.trans {r₁ r₂ r₃ : Runner} (h : Listens W r₁ r₂) (h' : Listens W r₂ r₃) :
    Listens W r₁ r₃ :=
  ⟨h.history.trans h'.history, h'.connections.trans h.connections,
    h'.execution.trans h.execution, fun c => (h'.states c).trans (h.states c)⟩

theorem lookup_insert_eq_none_iff {β : Type} {m : HashMap β} {k : Nat} {v w : β}
    (hv : m.lookup k = some v) (c : Nat) : (m.insert k w).lookup c = none ↔ m.lookup c = none := by
  by_cases hc : c = k
  · subst hc
    simp [hv]
  · rw [AList.lookup_insert_ne hc]

/-- Writing back the state of a connection that has one. -/
theorem listens_of_receives {r : Runner} {c : Nat} {state state' : ConnectionState}
    {history : History} (hState : r.states.lookup c = some state)
    (hHistory : Receives W.deployment r.history history) :
    Listens W r { r with history, states := r.states.insert c state' } :=
  ⟨hHistory, rfl, rfl, lookup_insert_eq_none_iff hState⟩

theorem pump_listens {fuel connection timeout : Nat} {r r' : Runner}
    {done : ConnectionState → Bool} {verdict : Except ActionOutcome Unit}
    (h : r.pump W fuel connection timeout done = some (verdict, r')) : Listens W r r' := by
  unfold pump at h
  split at h
  · cases h
    exact Listens.refl W r
  · rename_i state hState
    split at h
    · cases h
      exact Listens.refl W r
    · obtain ⟨⟨verdict', history, state'⟩, hLoop, hOut⟩ := Option.bind_eq_some_iff.mp h
      cases hOut
      -- the clock is read before the loop
      have hClock : Receives W.deployment r.history
          (r.history ++ [.now (W.deployment.now r.history)]) := .snoc rfl rfl
      exact listens_of_receives hState (hClock.trans (pumpLoop_receives hLoop))

/-- A connection that is open is drained, and then the others. -/
theorem drainAll_cons_cases {fuel id : Nat} {ids : List Nat} {r r' : Runner}
    {probed : List (Nat × UInt8)} (h : r.drainAll W fuel (id :: ids) = some (probed, r')) :
    (r.states.lookup id = none ∧ r.drainAll W fuel ids = some (probed, r')) ∨
    ∃ state frames history state' rest, r.states.lookup id = some state ∧
      drain W id fuel r.history state = some (frames, history, state') ∧
      drainAll W fuel { r with history, states := r.states.insert id state' } ids =
        some (rest, r') ∧
      probed = frames ++ rest := by
  unfold drainAll at h
  split at h
  · rename_i hNone
    exact Or.inl ⟨hNone, h⟩
  · rename_i state hState
    -- the first connection is drained, and then the others
    obtain ⟨⟨frames, history, state'⟩, hDrain, h⟩ := Option.bind_eq_some_iff.mp h
    obtain ⟨⟨rest, r₁⟩, hRest, hOut⟩ := Option.bind_eq_some_iff.mp h
    cases hOut
    exact Or.inr ⟨state, frames, history, state', rest, hState, hDrain, hRest, rfl⟩

theorem drainAll_listens {fuel : Nat} {ids : List Nat} {r r' : Runner}
    {probed : List (Nat × UInt8)} (h : r.drainAll W fuel ids = some (probed, r')) :
    Listens W r r' := by
  induction ids generalizing r probed with
  | nil =>
    cases h
    exact Listens.refl W _
  | cons id ids ih =>
    rcases drainAll_cons_cases h with
      ⟨-, hRest⟩ | ⟨state, frames, history, state', rest, hState, hDrain, hRest, -⟩
    · exact ih hRest
    · exact (listens_of_receives hState (drain_receives hDrain)).trans (ih hRest)

/-- An await either finds no connection, or listens on it and records a session. -/
theorem awaitSetupResponse_cases {fuel connection session : Nat} {protocol : Protocol}
    {firstOnConnection : Bool} {r r' : Runner} {outcome : ActionOutcome}
    (h : r.performAwaitSetupResponse W fuel connection session protocol firstOnConnection =
      some (outcome, r')) :
    (r.states.lookup connection = none ∧ outcome = .skipped (.connectionOpen connection) ∧
      r' = r) ∨
    ∃ state verdict r₁, r.states.lookup connection = some state ∧
      pump W fuel
        { r with states := r.states.insert connection { state with setup := .pending } }
        connection (if firstOnConnection then responseTimeout else unowedResponseWait)
        (fun state => state.setup ≠ .pending) = some (verdict, r₁) ∧
      outcome = (match verdict with
        | .ok () => .completed (.setup (responseOf ((r₁.states.lookup connection).getD {}).setup))
        | .error failure => failure) ∧
      Listens W r r₁ ∧
      r' = { r₁ with execution := { r₁.execution with
        sessions := r₁.execution.sessions.insert session
          { connection, protocol, firstOnConnection, response := sessionResponse outcome } } } := by
  unfold performAwaitSetupResponse at h
  simp only at h
  -- without a state the await is skipped
  split at h
  · rename_i hNone
    cases h
    exact Or.inl ⟨hNone, rfl, rfl⟩
  · rename_i state hState
    obtain ⟨⟨verdict, r₁⟩, hPump, hOut⟩ := Option.bind_eq_some_iff.mp h
    cases hOut
    -- the setup is marked as pending first, which receives nothing
    have hPending : Listens W r { r with
        states := r.states.insert connection { state with setup := .pending } } :=
      listens_of_receives hState (Receives.refl _ r.history)
    exact Or.inr ⟨state, verdict, r₁, hState, hPump, rfl, hPending.trans (pump_listens hPump), rfl⟩

/-! ## What an action does -/

/-- The parts of the runner every action treats alike: outcomes are recorded by
the main loop only, and the history goes on as the deployment answers. -/
structure Continues (W : World) (r r' : Runner) : Prop where
  outcomes : r'.execution.outcomes = r.execution.outcomes
  history : r.history <+: r'.history
  plays : W.deployment.Plays r.history → W.deployment.Plays r'.history

theorem Listens.continues {r r' : Runner} (h : Listens W r r') : Continues W r r' := by
  obtain ⟨l, hl, -⟩ := h.history.continues
  exact ⟨by rw [h.execution], ⟨l, hl.symm⟩, h.history.plays⟩

theorem exchange_continues {r : Runner} {x : Exchange}
    (hAnswers : W.deployment.Answers r.history x) : Continues W r (r.exchange x) :=
  ⟨rfl, ⟨[x], rfl⟩, fun hPlays => Deployment.plays_snoc.mpr ⟨hPlays, hAnswers⟩⟩

theorem perform_continues {fuel : Nat} {r r' : Runner} {action : Action} {outcome : ActionOutcome}
    (h : r.perform W fuel action = some (outcome, r')) : Continues W r r' := by
  cases action with
  | enterOnSetupSuccess session end_ =>
    cases h
    exact (Listens.refl W r).continues
  | exitBlock =>
    cases h
    exact (Listens.refl W r).continues
  | connect connection role =>
    simp only [perform, performConnect, Option.some.injEq] at h
    -- the exchange is made whether or not the connect succeeds
    have hConnect := exchange_continues (W := W) (r := r)
      (x := .connect connection role (W.deployment.connect r.history connection role)) rfl
    split at h <;> cases h
    · exact ⟨hConnect.outcomes, hConnect.history, hConnect.plays⟩
    · exact hConnect
  | send connection extensionType messageType channelMsg payload =>
    simp only [perform, performSend, Option.some.injEq] at h
    split at h
    · cases h
      exact (Listens.refl W r).continues
    · have hSend := exchange_continues (W := W) (r := r) (x := .send connection extensionType
        messageType channelMsg payload (W.deployment.send r.history connection extensionType
          messageType channelMsg payload)) rfl
      split at h <;> cases h <;> exact hSend
  | awaitSetupResponse connection session protocol firstOnConnection =>
    rcases awaitSetupResponse_cases h with ⟨-, -, rfl⟩ | ⟨_, _, r₁, -, -, -, hListens, rfl⟩
    · exact (Listens.refl W _).continues
    · -- recording the session touches neither the outcomes nor the history
      have := hListens.continues
      exact ⟨this.outcomes, this.history, this.plays⟩
  | advanceTime duration =>
    cases h
    exact exchange_continues trivial
  | probe =>
    obtain ⟨⟨probed, r₁⟩, hDrain, hOut⟩ := Option.bind_eq_some_iff.mp h
    cases hOut
    have := (drainAll_listens hDrain).continues
    exact ⟨this.outcomes, this.history, this.plays⟩

/-- An await that finds the connection records its session; nothing else touches
the sessions. -/
theorem perform_sessions {fuel : Nat} {r r' : Runner} {action : Action} {outcome : ActionOutcome}
    (h : r.perform W fuel action = some (outcome, r')) :
    (r'.execution.sessions = r.execution.sessions ∧
      ∀ c session protocol first, action = .awaitSetupResponse c session protocol first →
        outcome = .skipped (.connectionOpen c)) ∨
    ∃ c session protocol first, action = .awaitSetupResponse c session protocol first ∧
      r'.execution.sessions = r.execution.sessions.insert session
        ⟨c, protocol, first, sessionResponse outcome⟩ := by
  cases action with
  | awaitSetupResponse c session protocol first =>
    rcases awaitSetupResponse_cases h with ⟨-, hOutcome, rfl⟩ | ⟨_, _, r₁, -, -, -, hListens, rfl⟩
    · refine Or.inl ⟨rfl, fun c' session' protocol' first' hEq => ?_⟩
      cases hEq
      exact hOutcome
    · -- the session is recorded beside those there were before listening
      refine Or.inr ⟨c, session, protocol, first, rfl, ?_⟩
      show r₁.execution.sessions.insert _ _ = _
      rw [hListens.execution]
  | enterOnSetupSuccess session end_ => cases h; exact Or.inl ⟨rfl, fun _ _ _ _ hEq => by cases hEq⟩
  | exitBlock => cases h; exact Or.inl ⟨rfl, fun _ _ _ _ hEq => by cases hEq⟩
  | connect connection role =>
    simp only [perform, performConnect, Option.some.injEq] at h
    split at h <;> cases h <;> exact Or.inl ⟨rfl, fun _ _ _ _ hEq => by cases hEq⟩
  | send connection extensionType messageType channelMsg payload =>
    simp only [perform, performSend, Option.some.injEq] at h
    split at h
    · cases h
      exact Or.inl ⟨rfl, fun _ _ _ _ hEq => by cases hEq⟩
    · split at h <;> cases h <;> exact Or.inl ⟨rfl, fun _ _ _ _ hEq => by cases hEq⟩
  | advanceTime duration => cases h; exact Or.inl ⟨rfl, fun _ _ _ _ hEq => by cases hEq⟩
  | probe =>
    obtain ⟨⟨probed, r₁⟩, hDrain, hOut⟩ := Option.bind_eq_some_iff.mp h
    cases hOut
    refine Or.inl ⟨?_, fun _ _ _ _ hEq => by cases hEq⟩
    show r₁.execution.sessions = _
    rw [(drainAll_listens hDrain).execution]

/-! ## How far a run has got -/

/-- The last action that is skipped for a block that names `exit` as its end. -/
def lastSkipped (actions : List Action) (exit : Nat) : Nat := min exit (actions.length - 1)

/-- Skipping a block moves forward. -/
def Advances (actions : List Action) : Prop :=
  ∀ a session exit, actions[a]? = some (.enterOnSetupSuccess session exit) →
    a ≤ lastSkipped actions exit

/-- The main loop, turn by turn: the trace so far, the next action, the runner. -/
inductive Reaches (W : World) (actions : List Action) : List TraceEntry → Nat → Runner → Prop
  | start : Reaches W actions [] 0 Runner.start
  | skip {entries : List TraceEntry} {next exit : Nat} {r : Runner} {action : Action}
      {unmet : Prerequisite} :
      Reaches W actions entries next r → actions[next]? = some action →
      r.unmetPrerequisite action = some (unmet, exit) →
      Reaches W actions
        (entries ++ skippedEntries unmet next (lastSkipped actions exit + 1 - next))
        (lastSkipped actions exit + 1)
        (r.record (List.replicate (lastSkipped actions exit + 1 - next) (.skipped unmet)))
  | attempt {entries : List TraceEntry} {next fuel : Nat} {r r' : Runner} {action : Action}
      {outcome : ActionOutcome} :
      Reaches W actions entries next r → actions[next]? = some action →
      r.unmetPrerequisite action = none → r.perform W fuel action = some (outcome, r') →
      Reaches W actions
        (entries ++ [⟨next, true, outcome, r'.history.drop r.history.length⟩])
        (next + 1) (r'.record [outcome])

theorem Reaches.of_loop {actions : List Action} {fuel next : Nat} {r r' : Runner}
    {entries rest : List TraceEntry} (h : Reaches W actions entries next r)
    (hLoop : loop W actions fuel next r = some (rest, r')) :
    ∃ next', Reaches W actions (entries ++ rest) next' r' ∧ actions.length ≤ next' := by
  -- one turn of the loop is one step: the end, a skip or an attempt
  induction fuel generalizing next r entries rest with
  | zero => cases hLoop
  | succ fuel ih =>
    rw [loop] at hLoop
    split at hLoop
    · rename_i hEnd
      cases hLoop
      rw [List.append_nil]
      exact ⟨next, h, List.getElem?_eq_none_iff.mp hEnd⟩
    · rename_i action hAction
      split at hLoop
      · rename_i unmet exit hUnmet
        obtain ⟨⟨rest', r₁⟩, hRest, hOut⟩ := Option.bind_eq_some_iff.mp hLoop
        cases hOut
        have hLater := ih (h.skip hAction hUnmet) hRest
        rwa [List.append_assoc] at hLater
      · rename_i hMet
        obtain ⟨⟨outcome, r₁⟩, hPerform, hLoop⟩ := Option.bind_eq_some_iff.mp hLoop
        obtain ⟨⟨rest', r₂⟩, hRest, hOut⟩ := Option.bind_eq_some_iff.mp hLoop
        cases hOut
        have hLater := ih (h.attempt hAction hMet hPerform) hRest
        rwa [List.append_assoc] at hLater

theorem unmetPrerequisite_eq_some_iff {r : Runner} {action : Action} {unmet : Prerequisite}
    {exit : Nat} : r.unmetPrerequisite action = some (unmet, exit) ↔
      ∃ session, action = .enterOnSetupSuccess session exit ∧ r.established session = false ∧
        unmet = .setupSuccess session := by
  cases action with
  | enterOnSetupSuccess session end_ =>
    by_cases hMet : r.established session = true
    · simp [unmetPrerequisite, hMet]
    · simp [unmetPrerequisite, hMet]
      constructor <;> rintro ⟨rfl, rfl⟩ <;> exact ⟨rfl, rfl⟩
  | _ => simp [unmetPrerequisite]

theorem mem_skippedEntries {unmet : Prerequisite} {next count : Nat} {entry : TraceEntry}
    (h : entry ∈ skippedEntries unmet next count) :
    next ≤ entry.action ∧ entry.action < next + count ∧ entry.attempted = false ∧
      entry.outcome = .skipped unmet ∧ entry.exchanges = [] := by
  obtain ⟨action, hAction, rfl⟩ := List.mem_map.mp h
  rw [List.mem_range'_1] at hAction
  exact ⟨hAction.1, hAction.2, rfl, rfl, rfl⟩

/-- The outcomes recorded are those of the trace. -/
theorem Reaches.outcomes {actions : List Action} {entries : List TraceEntry} {next : Nat}
    {r : Runner} (h : Reaches W actions entries next r) :
    r.execution.outcomes = entries.map TraceEntry.outcome := by
  induction h with
  | start => rfl
  | skip _ _ _ ih =>
    -- every entry that is skipped has the same outcome
    have hMap : ∀ (unmet : Prerequisite) (next count : Nat),
        (skippedEntries unmet next count).map TraceEntry.outcome =
          List.replicate count (.skipped unmet) := fun unmet next count => by
      rw [skippedEntries, List.map_map]
      exact List.eq_replicate_iff.mpr ⟨by simp, fun outcome hMem => by
        obtain ⟨_, -, rfl⟩ := List.mem_map.mp hMem
        rfl⟩
    rw [List.map_append, ← ih, hMap]
    rfl
  | attempt _ _ _ hPerform ih =>
    rw [List.map_append, ← ih, ← (perform_continues hPerform).outcomes]
    rfl

/-- Everything exchanged was exchanged for an entry of the trace. -/
theorem Reaches.history {actions : List Action} {entries : List TraceEntry} {next : Nat}
    {r : Runner} (h : Reaches W actions entries next r) :
    r.history = entries.flatMap TraceEntry.exchanges := by
  induction h with
  | start => rfl
  | skip _ _ _ ih =>
    rw [List.flatMap_append, ← ih]
    simp [record, skippedEntries, List.flatMap_map]
  | attempt _ _ _ hPerform ih =>
    obtain ⟨l, hl⟩ := (perform_continues hPerform).history
    rw [List.flatMap_append, ← ih]
    simp [record, ← hl]

theorem Reaches.plays {actions : List Action} {entries : List TraceEntry} {next : Nat}
    {r : Runner} (h : Reaches W actions entries next r) : W.deployment.Plays r.history := by
  induction h with
  | start => exact Deployment.plays_nil _
  | skip _ _ _ ih => exact ih
  | attempt _ _ _ hPerform ih => exact (perform_continues hPerform).plays ih

/-! ## One entry of the trace -/

theorem mem_take_of_getElem? {α : Type} {l : List α} {j k : Nat} {x : α} (h : l[j]? = some x)
    (hj : j < k) : x ∈ l.take k := by
  obtain ⟨hLen, hGet⟩ := List.getElem?_eq_some_iff.mp h
  exact List.mem_take_iff_getElem.mpr ⟨j, by omega, hGet⟩

theorem getElem?_of_mem_take {α : Type} {l : List α} {k : Nat} {x : α} (h : x ∈ l.take k) :
    ∃ j, j < k ∧ l[j]? = some x := by
  obtain ⟨j, hj⟩ := List.getElem?_of_mem h
  have hLt : j < k := by
    have := (List.getElem?_eq_some_iff.mp hj).1
    rw [List.length_take] at this
    omega
  exact ⟨j, hLt, by rwa [List.getElem?_take_of_lt hLt] at hj⟩

/-- An entry of an action that was attempted, by the runners before and after. -/
structure Attempted (W : World) (actions : List Action) (before : List TraceEntry)
    (entry : TraceEntry) (action : Action) (r r' : Runner) : Prop where
  reaches : Reaches W actions before entry.action r
  action_eq : actions[entry.action]? = some action
  met : r.unmetPrerequisite action = none
  performed : ∃ fuel, r.perform W fuel action = some (entry.outcome, r')
  exchanges : r'.history = r.history ++ entry.exchanges
  next : Reaches W actions (before ++ [entry]) (entry.action + 1) (r'.record [entry.outcome])

/-- An entry that was skipped, by the enter action whose block was. -/
structure SkippedAt (W : World) (actions : List Action) (before : List TraceEntry) (enter : Nat)
    (entry : TraceEntry) (session exit : Nat) (r : Runner) : Prop where
  reaches : Reaches W actions before enter r
  action_eq : actions[enter]? = some (.enterOnSetupSuccess session exit)
  unmet : r.established session = false
  enter_le : enter ≤ entry.action
  le_exit : entry.action ≤ lastSkipped actions exit
  outcome : entry.outcome = .skipped (.setupSuccess session)
  exchanges : entry.exchanges = []
  skipped : entry.attempted = false

theorem Reaches.attempted {actions : List Action} {entries : List TraceEntry} {next i : Nat}
    {r : Runner} {entry : TraceEntry} (h : Reaches W actions entries next r)
    (hEntry : entries[i]? = some entry) (hAttempted : entry.attempted = true) :
    ∃ action r₁ r₂, Attempted W actions (entries.take i) entry action r₁ r₂ := by
  induction h with
  | start => simp at hEntry
  | @skip entries next exit r action unmet hReaches _ _ ih =>
    rcases Nat.lt_or_ge i entries.length with hLt | hGe
    · rw [List.getElem?_append_left hLt] at hEntry
      rw [List.take_append_of_le_length (Nat.le_of_lt hLt)]
      exact ih hEntry
    · rw [List.getElem?_append_right hGe] at hEntry
      -- the entries of a skipped block are not attempted
      have := (mem_skippedEntries (List.mem_of_getElem? hEntry)).2.2.1
      rw [hAttempted] at this
      cases this
  | @attempt entries next fuel r r' action outcome hReaches hAction hMet hPerform ih =>
    rcases Nat.lt_or_ge i entries.length with hLt | hGe
    · rw [List.getElem?_append_left hLt] at hEntry
      rw [List.take_append_of_le_length (Nat.le_of_lt hLt)]
      exact ih hEntry
    · have hLen := (List.getElem?_eq_some_iff.mp hEntry).1
      rw [List.length_append, List.length_singleton] at hLen
      -- the entry is the one that is added
      obtain rfl : i = entries.length := by omega
      rw [List.getElem?_concat_length, Option.some.injEq] at hEntry
      subst hEntry
      rw [List.take_left]
      obtain ⟨l, hl⟩ := (perform_continues hPerform).history
      -- its exchanges are what the history has grown by
      have hDrop : r.history ++ r'.history.drop r.history.length = r'.history := by
        rw [← hl, List.drop_left]
      exact ⟨action, r, r', hReaches, hAction, hMet, ⟨fuel, hPerform⟩, hDrop.symm,
        hReaches.attempt hAction hMet hPerform⟩

theorem Reaches.skipped {actions : List Action} {entries : List TraceEntry} {next i : Nat}
    {r : Runner} {entry : TraceEntry} (h : Reaches W actions entries next r)
    (hEntry : entries[i]? = some entry) (hSkipped : entry.attempted = false) :
    ∃ j enter session exit r₁, j ≤ i ∧
      SkippedAt W actions (entries.take j) enter entry session exit r₁ := by
  induction h with
  | start => simp at hEntry
  | @skip entries next exit r action unmet hReaches hAction hUnmet ih =>
    rcases Nat.lt_or_ge i entries.length with hLt | hGe
    · rw [List.getElem?_append_left hLt] at hEntry
      obtain ⟨j, enter, session, exit', r₁, hj, hAt⟩ := ih hEntry
      refine ⟨j, enter, session, exit', r₁, hj, ?_⟩
      rwa [List.take_append_of_le_length (by omega)]
    · rw [List.getElem?_append_right hGe] at hEntry
      -- the entry is one of the block that is skipped now
      obtain ⟨hGeNext, hLtNext, hNot, hOutcome, hExchanges⟩ :=
        mem_skippedEntries (List.mem_of_getElem? hEntry)
      obtain ⟨session, rfl, hNotYet, rfl⟩ := unmetPrerequisite_eq_some_iff.mp hUnmet
      refine ⟨entries.length, next, session, exit, r, hGe, ?_⟩
      rw [List.take_left]
      exact ⟨hReaches, hAction, hNotYet, hGeNext, by omega, hOutcome, hExchanges, hNot⟩
  | @attempt entries next fuel r r' action outcome hReaches hAction hMet hPerform ih =>
    rcases Nat.lt_or_ge i entries.length with hLt | hGe
    · rw [List.getElem?_append_left hLt] at hEntry
      obtain ⟨j, enter, session, exit, r₁, hj, hAt⟩ := ih hEntry
      refine ⟨j, enter, session, exit, r₁, hj, ?_⟩
      rwa [List.take_append_of_le_length (by omega)]
    · -- an entry that is added after an attempt is attempted
      have hMem := List.mem_of_getElem? (List.getElem?_append_right hGe ▸ hEntry)
      rw [List.mem_singleton] at hMem
      subst hMem
      cases hSkipped

/-! ## Every action once -/

/-- One entry for each action dealt with, in the program's order. -/
theorem Reaches.covers {actions : List Action} (hAdvances : Advances actions)
    {entries : List TraceEntry} {next : Nat} {r : Runner} (h : Reaches W actions entries next r) :
    entries.map TraceEntry.action = List.range next ∧ next ≤ actions.length := by
  induction h with
  | start => exact ⟨rfl, Nat.zero_le _⟩
  | @skip entries next exit r action unmet _ hAction hUnmet ih =>
    obtain ⟨session, rfl, -, -⟩ := unmetPrerequisite_eq_some_iff.mp hUnmet
    -- a skip moves on to behind the end of its block
    have hForward := hAdvances next session exit hAction
    have hNext := (List.getElem?_eq_some_iff.mp hAction).1
    have hCount : next + (lastSkipped actions exit + 1 - next) = lastSkipped actions exit + 1 := by
      omega
    refine ⟨?_, by rw [lastSkipped]; omega⟩
    rw [List.map_append, ih.1, ← hCount, List.range_eq_range', List.range_eq_range',
      ← List.range'_append_1, Nat.zero_add, hCount]
    simp [skippedEntries, Function.comp_def]
  | @attempt entries next _ _ _ _ _ _ hAction _ _ ih =>
    refine ⟨?_, (List.getElem?_eq_some_iff.mp hAction).1⟩
    rw [List.map_append, ih.1, List.range_succ]
    rfl

theorem Reaches.lt_next {actions : List Action} (hAdvances : Advances actions)
    {entries : List TraceEntry} {next : Nat} {r : Runner} (h : Reaches W actions entries next r)
    {entry : TraceEntry} (hMem : entry ∈ entries) : entry.action < next := by
  have := List.mem_map_of_mem (f := TraceEntry.action) hMem
  rwa [(h.covers hAdvances).1, List.mem_range] at this

theorem Reaches.action_eq {actions : List Action} (hAdvances : Advances actions)
    {entries : List TraceEntry} {next i : Nat} {r : Runner} (h : Reaches W actions entries next r)
    {entry : TraceEntry} (hEntry : entries[i]? = some entry) :
    entry.action = i := by
  have hCovers := (h.covers hAdvances).1
  have hMap := congrArg (fun l => l[i]?) hCovers
  have hLt : i < next := by
    have := (List.getElem?_eq_some_iff.mp hEntry).1
    rw [← List.length_map TraceEntry.action, hCovers, List.length_range] at this
    exact this
  simpa [hEntry, List.getElem?_range hLt] using hMap

end Runner

/-- A run that returns has got to the end of the program. -/
theorem run_reaches {W : World} {fuel : Nat} {program : CompiledProgram}
    {execution : Execution} {entries : List Runner.TraceEntry}
    (h : run W fuel program = some (execution, entries)) :
    ∃ next r, Runner.Reaches W program.actions entries next r ∧ program.actions.length ≤ next ∧
      execution = { r.execution with connections := r.states } := by
  obtain ⟨⟨entries', r⟩, hLoop, hOut⟩ := Option.bind_eq_some_iff.mp h
  cases hOut
  obtain ⟨next, hReaches, hEnd⟩ := Runner.Reaches.start.of_loop hLoop
  exact ⟨next, r, hReaches, hEnd, rfl⟩

end Stratamoto
