import Mathlib.Data.Finset.Lattice.Fold
import Mathlib.Order.Lattice.Nat
import Stratamoto.Harness.Runs
import Stratamoto.IR.Compilation
import Stratamoto.Library.Fuel

/-!
# Stratamoto — every action has an outcome

A run ends and says of every action what became of it, provided that no
connection yields frames forever.

* `Deployment.FiniteFrames D` — no endless play has a connection yield frames
  again and again;
* `loop_settles` — the main loop returns;
* `run_accounts_for_every_action` — with one outcome for each action, in order.

The main loop jumps to the end an enter action names, so that it moves forward
rests on the compiler: every end it patches in is past the action that names it
(`EndsLater`), and an end that is not patched in is clamped.
-/

namespace Stratamoto

open Fuel

/-- No connection yields frames forever: no endless play of the deployment
receives frame after frame on one connection. -/
def Deployment.FiniteFrames (D : Deployment) : Prop :=
  ∀ connection, WellFounded fun later earlier : History =>
    earlier <+: later ∧ D.Plays later ∧ earlier.framesOn connection < later.framesOn connection

namespace Runner

variable {W : World}

/-! ## Moving forward -/

/-- An end that the compiler patched in is past the enter that names it, and one
that it did not is clamped to the last action. -/
theorem advances_of_endsLater {actions : List Action} (hEnds : EndsLater actions)
    (hLen : actions.length ≤ ActionId.max) : Advances actions := by
  intro next session exit h
  have hNext := (List.getElem?_eq_some_iff.mp h).1
  rw [lastSkipped]
  rcases hEnds next session exit h with rfl | hLater <;> omega

/-! ## The loops end -/

section Ends

variable (hFinite : W.deployment.FiniteFrames)

include hFinite

theorem pumpLoop_settles (connection deadline : Nat) (done : ConnectionState → Bool)
    {history : History} (hPlays : W.deployment.Plays history) (state : ConnectionState) :
    ∃ out, Settles (fun fuel => pumpLoop W connection deadline done fuel history state) out := by
  induction history using (hFinite connection).induction generalizing state with
  | _ history ih =>
    by_cases hDone : done state = true
    · refine ⟨_, Settles.turn ((Settles.const (.ok (), history, state)).congr fun fuel => ?_)⟩
      rw [pumpLoop, if_pos hDone]
    · set asked := history ++ [Exchange.now (W.deployment.now history)] with hAsked
      set remaining := deadline - W.deployment.now history with hRemaining
      by_cases hZero : remaining = 0
      · exact ⟨_, Settles.turn ((Settles.const _).congr
          fun _ => pumpLoop_of_late hDone rfl hZero)⟩
      · cases hFrame : W.deployment.recv asked connection remaining with
        | ok frame =>
          set received := asked ++ [Exchange.recv connection remaining (.ok frame)] with hReceived
          -- one more frame on this connection, which cannot go on forever
          have hClock : Receives W.deployment history asked := .snoc rfl rfl
          have hRecv : Receives W.deployment asked received := .snoc rfl hFrame
          have hReceives := hClock.trans hRecv
          obtain ⟨l, hl, -⟩ := hReceives.continues
          have hMore : history.framesOn connection < received.framesOn connection := by
            rw [hReceived, hAsked]
            simp [History.framesOn, List.countP_append, Exchange.isFrameOn]
          obtain ⟨out, hOut⟩ := ih received ⟨⟨l, hl.symm⟩, hReceives.plays hPlays, hMore⟩
            (hReceives.plays hPlays) (state.dispatch W.parsers frame).2
          exact ⟨out, Settles.turn (hOut.congr
            fun _ => pumpLoop_of_frame hDone rfl rfl hZero hFrame)⟩
        | error e =>
          exact ⟨_, Settles.turn ((Settles.const _).congr
            fun _ => pumpLoop_of_error hDone rfl rfl hZero hFrame)⟩

theorem drain_settles (connection : Nat) {history : History}
    (hPlays : W.deployment.Plays history) (state : ConnectionState) :
    ∃ out, Settles (fun fuel => drain W connection fuel history state) out := by
  induction history using (hFinite connection).induction generalizing state with
  | _ history ih =>
    cases hFrame : W.deployment.recv history connection 0 with
    | ok frame =>
      -- with the frame the history is further on in the order the induction is on
      set received := history ++ [Exchange.recv connection 0 (.ok frame)] with hReceived
      have hRecv : Receives W.deployment history received := .snoc rfl hFrame
      obtain ⟨l, hl, -⟩ := hRecv.continues
      have hMore : history.framesOn connection < received.framesOn connection := by
        rw [hReceived]
        simp [History.framesOn, List.countP_append, Exchange.isFrameOn]
      obtain ⟨⟨probed, history', state'⟩, hOut⟩ := ih received
        ⟨⟨l, hl.symm⟩, hRecv.plays hPlays, hMore⟩ (hRecv.plays hPlays)
        (state.dispatch W.parsers frame).2
      have hRest := hOut.map fun x => ((connection, frame.messageType) :: x.1, x.2.1, x.2.2)
      exact ⟨_, Settles.turn (hRest.congr fun _ => drain_of_frame hFrame)⟩
    | error e =>
      exact ⟨_, Settles.turn ((Settles.const _).congr fun _ => drain_of_error hFrame)⟩

theorem drainAll_settles (ids : List Nat) {r : Runner}
    (hPlays : W.deployment.Plays r.history) :
    ∃ out, Settles (fun fuel => r.drainAll W fuel ids) out := by
  induction ids generalizing r with
  | nil => exact ⟨_, Settles.const ([], r)⟩
  | cons id ids ih =>
    -- a connection without a state is passed over
    cases hState : r.states.lookup id with
    | none =>
      obtain ⟨out, hOut⟩ := ih hPlays
      refine ⟨out, hOut.congr fun fuel => ?_⟩
      rw [drainAll, hState]
    | some state =>
      obtain ⟨⟨probed, history, state'⟩, hDrain⟩ := drain_settles hFinite id hPlays state
      have hHistory : W.deployment.Plays history := by
        obtain ⟨n, hn⟩ := hDrain
        exact (drain_receives (hn n (Nat.le_refl n))).plays hPlays
      obtain ⟨⟨rest, r'⟩, hRest⟩ :=
        ih (r := { r with history, states := r.states.insert id state' }) hHistory
      refine ⟨_, (hDrain.bind (g := fun x fuel => (drainAll W fuel
        { r with history := x.2.1, states := r.states.insert id x.2.2 } ids).bind
          fun y => some (x.1 ++ y.1, y.2)) (hRest.map fun y => (probed ++ y.1, y.2))).congr
            fun fuel => ?_⟩
      rw [drainAll, hState]
      rfl

theorem pump_settles {r : Runner} (hPlays : W.deployment.Plays r.history)
    (connection timeout : Nat) (done : ConnectionState → Bool) :
    ∃ out, Settles (fun fuel => r.pump W fuel connection timeout done) out := by
  cases hState : r.states.lookup connection with
  | none =>
    refine ⟨_, (Settles.const (.error (.skipped (.connectionOpen connection)), r)).congr
      fun fuel => ?_⟩
    rw [pump, hState]
  | some state =>
    -- only a connection that is open is pumped
    by_cases hLink : connection ∈ r.connections
    · have hClock : W.deployment.Plays (r.history ++ [.now (W.deployment.now r.history)]) :=
        Deployment.plays_snoc.mpr ⟨hPlays, rfl⟩
      obtain ⟨⟨verdict, history, state'⟩, hLoop⟩ := pumpLoop_settles hFinite connection
        (W.deployment.now r.history + timeout) done hClock state
      refine ⟨_, (hLoop.map fun x => (x.1, { r with
        history := x.2.1, states := r.states.insert connection x.2.2 })).congr fun fuel => ?_⟩
      rw [pump, hState]
      simp only [hLink, not_true_eq_false, if_false]
      rfl
    · refine ⟨_, (Settles.const (.error (.skipped (.connectionOpen connection)), r)).congr
        fun fuel => ?_⟩
      rw [pump, hState]
      simp only [hLink, not_false_eq_true, if_true]

theorem perform_settles {r : Runner} (hPlays : W.deployment.Plays r.history) (action : Action) :
    ∃ out, Settles (fun fuel => r.perform W fuel action) out := by
  cases action with
  | awaitSetupResponse connection session protocol firstOnConnection =>
    cases hState : r.states.lookup connection with
    | none =>
      refine ⟨_, (Settles.const (.skipped (.connectionOpen connection), r)).congr fun fuel => ?_⟩
      simp only [perform, performAwaitSetupResponse, hState]
    | some state =>
      -- only the two loops run on fuel: the pump of an await and the drain of a probe
      obtain ⟨⟨verdict, r₁⟩, hPump⟩ := pump_settles hFinite
        (r := { r with states := r.states.insert connection { state with setup := .pending } })
        hPlays connection (if firstOnConnection then responseTimeout else unowedResponseWait)
        (fun state => state.setup ≠ .pending)
      obtain ⟨n, hn⟩ := hPump
      beta_reduce at hn
      exact ⟨_, n, fun fuel hFuel => by
        simp only [perform, performAwaitSetupResponse, hState]
        rw [hn fuel hFuel]
        rfl⟩
  | probe =>
    obtain ⟨⟨probed, r₁⟩, hDrain⟩ :=
      drainAll_settles hFinite (W.order.keys r.history r.connections) hPlays
    obtain ⟨n, hn⟩ := hDrain
    beta_reduce at hn
    exact ⟨_, n, fun fuel hFuel => by
      show (r.drainAll W fuel _).bind _ = _
      rw [hn fuel hFuel]
      rfl⟩
  | _ => exact ⟨_, Settles.const _⟩

/-- Every turn of the main loop moves forward, so it gets to the end. -/
theorem loop_settles {actions : List Action} (hAdvances : Advances actions) (next : Nat) {r : Runner}
    (hPlays : W.deployment.Plays r.history) :
    ∃ out, Settles (fun fuel => loop W actions fuel next r) out := by
  induction hn : actions.length - next using Nat.strongRecOn generalizing next r with
  | _ n ih =>
    cases hAction : actions[next]? with
    | none =>
      refine ⟨_, Settles.turn ((Settles.const ([], r)).congr fun fuel => ?_)⟩
      rw [loop, hAction]
    | some action =>
      have hNext := (List.getElem?_eq_some_iff.mp hAction).1
      cases hUnmet : r.unmetPrerequisite action with
      | some skip =>
        obtain ⟨unmet, exit⟩ := skip
        obtain ⟨session, rfl, -, -⟩ := unmetPrerequisite_eq_some_iff.mp hUnmet
        -- the exit of a block lies ahead of its enter, so less is left
        have hForward := hAdvances next session exit hAction
        obtain ⟨out, hRest⟩ := ih (actions.length - (lastSkipped actions exit + 1)) (by omega)
          (lastSkipped actions exit + 1) (r := r.record
            (List.replicate (lastSkipped actions exit + 1 - next) (.skipped unmet))) hPlays rfl
        refine ⟨_, Settles.turn ((hRest.map fun x =>
          (skippedEntries unmet next (lastSkipped actions exit + 1 - next) ++ x.1, x.2)).congr
            fun fuel => ?_)⟩
        rw [loop, hAction]
        simp only [hUnmet]
        rfl
      | none =>
        obtain ⟨⟨outcome, r'⟩, hPerform⟩ := perform_settles hFinite hPlays action
        -- the deployment has answered everything that is in the new history
        have hPlays' : W.deployment.Plays r'.history := by
          obtain ⟨m, hm⟩ := hPerform
          exact (perform_continues (hm m (Nat.le_refl m))).plays hPlays
        obtain ⟨out, hRest⟩ := ih (actions.length - (next + 1)) (by omega) (next + 1)
          (r := r'.record [outcome]) hPlays' rfl
        refine ⟨_, Settles.turn ((hPerform.bind (g := fun x fuel =>
          (loop W actions fuel (next + 1) (x.2.record [x.1])).bind fun y =>
            some (⟨next, true, x.1, x.2.history.drop r.history.length⟩ :: y.1, y.2))
          (hRest.map fun y =>
            (⟨next, true, outcome, r'.history.drop r.history.length⟩ :: y.1, y.2))).congr
              fun fuel => ?_)⟩
        rw [loop, hAction]
        simp only [hUnmet]
        rfl

end Ends

end Runner

/-- A run against a deployment that does not yield frames forever returns. -/
theorem run_settles {W : World} {compiled : CompiledProgram} (hFinite : W.deployment.FiniteFrames)
    (hAdvances : Runner.Advances compiled.actions) :
    ∃ out, Settles (fun fuel => run W fuel compiled) out := by
  obtain ⟨⟨trace, r⟩, hLoop⟩ := Runner.loop_settles (r := Runner.start) hFinite hAdvances 0
    (Deployment.plays_nil _)
  exact ⟨_, hLoop.map fun x : List Runner.TraceEntry × Runner =>
    (({ x.2.execution with connections := x.2.states } : Execution), x.1)⟩

/-- **Every action has an outcome.** Of a program that compiles, valid or not, a
run against a deployment that does not yield frames forever returns. It records
one outcome for each action, in the actions' order: an action was attempted,
once, or it was skipped and nothing was exchanged for it. That a list of actions
is no longer than an index can count is what a vector promises. -/
theorem run_accounts_for_every_action {S : Sv2} {W : World} {p : Program}
    {compiled : CompiledProgram} (hFinite : W.deployment.FiniteFrames)
    (hCompile : Compiler.compile S p = .ok compiled)
    (hLen : compiled.actions.length ≤ ActionId.max) :
    ∃ (n : Nat) (execution : Execution) (trace : List Runner.TraceEntry),
      (∀ fuel, n ≤ fuel → run W fuel compiled = some (execution, trace)) ∧
      execution.isTotal compiled = true ∧
      trace.map Runner.TraceEntry.action = List.range compiled.actions.length ∧
      execution.outcomes = trace.map Runner.TraceEntry.outcome ∧
      ∀ (i : Nat) (entry : Runner.TraceEntry), (trace)[i]? = some entry →
        (entry.attempted = true ∧ ∃ action r r' fuel, compiled.actions[i]? = some action ∧
          r.history = (trace.take i).flatMap Runner.TraceEntry.exchanges ∧
          Runner.perform W fuel r action = some (entry.outcome, r') ∧
          r'.history = r.history ++ entry.exchanges) ∨
        (entry.attempted = false ∧ entry.exchanges = [] ∧
          ∃ unmet, entry.outcome = .skipped unmet) := by
  have hAdvances := Runner.advances_of_endsLater (endsLater_of_compile hCompile) hLen
  obtain ⟨⟨execution, trace⟩, n, hRun⟩ := run_settles hFinite hAdvances
  obtain ⟨next, r, hReaches, hEnd, rfl⟩ := run_reaches (hRun n (Nat.le_refl n))
  -- the entries cover the actions up to the end
  obtain ⟨hCovers, hNext⟩ := hReaches.covers hAdvances
  obtain rfl : next = compiled.actions.length := Nat.le_antisymm hNext hEnd
  have hOutcomes := hReaches.outcomes
  refine ⟨n, _, trace, hRun, ?_, hCovers, hOutcomes, fun i entry hEntry => ?_⟩
  · have := congrArg List.length hCovers
    rw [List.length_map, List.length_range] at this
    show decide (r.execution.outcomes.length = _) = true
    rw [hOutcomes, List.length_map, this]
    exact decide_eq_true rfl
  · have hIndex := hReaches.action_eq hAdvances hEntry
    -- an attempt has the runner it was made by, and a skip the session it waited for
    by_cases hAttempted : entry.attempted = true
    · obtain ⟨action, r₁, r₂, hAt⟩ := hReaches.attempted hEntry hAttempted
      obtain ⟨fuel, hPerformed⟩ := hAt.performed
      exact Or.inl ⟨hAttempted, action, r₁, r₂, fuel, hIndex ▸ hAt.action_eq, hAt.reaches.history,
        hPerformed, hAt.exchanges⟩
    · rw [Bool.not_eq_true] at hAttempted
      obtain ⟨_, _, session, _, _, -, hAt⟩ := hReaches.skipped hEntry hAttempted
      exact Or.inr ⟨hAttempted, hAt.exchanges, .setupSuccess session, hAt.outcome⟩

/-! ## A deployment that never answers -/

theorem Deployment.finiteFrames_of_bounded {D : Deployment} (bound : Nat → Nat)
    (h : ∀ history, D.Plays history → ∀ c, history.framesOn c ≤ bound c) : D.FiniteFrames := by
  intro connection
  refine Subrelation.wf ?_ (measure fun history => bound connection - history.framesOn connection).wf
  intro later earlier hMore
  obtain ⟨-, hPlays, hLt⟩ := hMore
  have := h later hPlays connection
  show bound connection - later.framesOn connection < bound connection - earlier.framesOn connection
  omega

/-- Connections open and sends succeed, but nothing is ever received. -/
def Deployment.silent : Deployment where
  connect := fun _ _ _ => true
  send := fun _ _ _ _ _ _ => .ok ()
  recv := fun _ _ _ => .error .timeout
  now := fun _ => 0
  roleConfig := fun _ => some ⟨.miningProtocol, 2, 2, 0⟩
  numRoles := 1
  isAlive := fun _ => true

theorem Deployment.silent_finiteFrames : Deployment.silent.FiniteFrames := by
  refine finiteFrames_of_bounded (fun _ => 0) fun history hPlays c => ?_
  rw [Nat.le_zero, History.framesOn, List.countP_eq_zero]
  intro x hx
  obtain ⟨before, after, rfl⟩ := List.append_of_mem hx
  have hAnswers := hPlays before x after rfl
  cases x with
  | recv connection timeout result =>
    cases hAnswers
    simp [Exchange.isFrameOn, silent]
  | _ => simp [Exchange.isFrameOn]

/-- Connections are probed in the order of their ids. -/
def IterationOrder.ascending : IterationOrder where
  keys := fun _ s => (List.range (s.sup id + 1)).filter (· ∈ s)
  nodup := fun _ _ => List.nodup_range.filter _
  mem_iff := fun _ s c => by
    rw [List.mem_filter, List.mem_range, decide_eq_true_iff]
    exact ⟨And.right, fun h => ⟨Nat.lt_succ_of_le (Finset.le_sup (f := id) h), h⟩⟩

def World.silent : World := ⟨.silent, .common, .ascending⟩

theorem singleSetup_compiles :
    ∃ compiled, Compiler.compile Sv2.wire singleSetup = .ok compiled ∧
      compiled.actions.length = 6 := ⟨_, rfl, rfl⟩

theorem singleSetup_runs : ∃ compiled execution entries,
    Compiler.compile Sv2.wire singleSetup = .ok compiled ∧
    run .silent 20 compiled = some (execution, entries) ∧ 4 < compiled.actions.length :=
  ⟨_, _, _, rfl, rfl, by decide⟩

theorem run_silent_accounts : ∃ compiled, Compiler.compile Sv2.wire singleSetup = .ok compiled ∧
    ∃ (n : Nat) (execution : Execution) (trace : List Runner.TraceEntry),
      (∀ fuel, n ≤ fuel → run .silent fuel compiled = some (execution, trace)) ∧
      execution.isTotal compiled = true ∧
      trace.map Runner.TraceEntry.action = List.range compiled.actions.length := by
  obtain ⟨compiled, hCompile, hLen⟩ := singleSetup_compiles
  obtain ⟨n, execution, trace, hRun, hTotal, hCovers, -⟩ := run_accounts_for_every_action
    (W := .silent) Deployment.silent_finiteFrames hCompile (by rw [hLen]; decide)
  exact ⟨compiled, hCompile, n, execution, trace, hRun, hTotal, hCovers⟩

end Stratamoto
