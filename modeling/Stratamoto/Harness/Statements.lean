import Stratamoto.Harness.Blocks

/-!
# Stratamoto — programs as statements

The runner goes through a flat list of actions and jumps over the blocks whose setup
was not agreed to. What it does is what the nesting of the blocks says:
`Statements.exec` carries out one statement after the other, and a block's body only
where the session's setup was agreed to.

* `loop_persists` — more fuel gives the same run;
* `Statements.loop_iff` — the loop does what the statements say;
* `exists_statements` — the actions of a valid program are those of statements;
* `run_is_structured` — a run is what the statements come to;
* `extended_run_begins` — what is put behind a program changes nothing before it.
-/

namespace Stratamoto

open Brackets Fuel Operation

namespace Runner

/-! ## More fuel -/

section Persisting

variable (W : World)

theorem pumpLoop_persists (connection deadline : Nat) (done : ConnectionState → Bool)
    (history : History) (state : ConnectionState) :
    Persists fun fuel => pumpLoop W connection deadline done fuel history state := by
  refine Persists.of_succ fun n => ?_
  induction n generalizing history state with
  | zero =>
    intro a h
    cases h
  | succ n ih =>
    intro a h
    rw [pumpLoop] at h ⊢
    -- the turn is the same, and so is what is left of the loop
    by_cases hDone : done state = true
    · rw [if_pos hDone] at h ⊢
      exact h
    · rw [if_neg hDone] at h ⊢
      dsimp only at h ⊢
      by_cases hLate : deadline - W.deployment.now history = 0
      · rw [if_pos hLate] at h ⊢
        exact h
      · rw [if_neg hLate] at h ⊢
        split at h
        · exact ih _ _ a h
        · exact h
        · exact h

theorem drain_persists (connection : Nat) (history : History) (state : ConnectionState) :
    Persists fun fuel => drain W connection fuel history state := by
  refine Persists.of_succ fun n => ?_
  induction n generalizing history state with
  | zero =>
    intro a h
    cases h
  | succ n ih =>
    intro a h
    rw [drain] at h ⊢
    dsimp only at h ⊢
    split at h
    · obtain ⟨x, hx, hRest⟩ := Option.bind_eq_some_iff.mp h
      exact Option.bind_eq_some_iff.mpr ⟨x, ih _ _ x hx, hRest⟩
    · exact h

theorem drainAll_persists (ids : List Nat) (r : Runner) :
    Persists fun fuel => r.drainAll W fuel ids := by
  induction ids generalizing r with
  | nil => exact Persists.const _
  | cons id ids ih =>
    cases hState : r.states.lookup id with
    | none =>
      refine (ih r).congr fun fuel => ?_
      rw [drainAll, hState]
    | some state =>
      intro n m a hn hm
      dsimp only at hn ⊢
      rw [drainAll, hState] at hn ⊢
      obtain ⟨x, hx, hBind⟩ := Option.bind_eq_some_iff.mp hn
      obtain ⟨y, hy, hOut⟩ := Option.bind_eq_some_iff.mp hBind
      have hFirst := drain_persists W id r.history state n m x hx hm
      have hRest := ih _ n m y hy hm
      exact Option.bind_eq_some_iff.mpr ⟨x, hFirst, Option.bind_eq_some_iff.mpr ⟨y, hRest, hOut⟩⟩

theorem pump_persists (r : Runner) (connection timeout : Nat) (done : ConnectionState → Bool) :
    Persists fun fuel => r.pump W fuel connection timeout done := by
  intro n m a hn hm
  dsimp only at hn ⊢
  cases hState : r.states.lookup connection with
  | none =>
    rw [pump, hState] at hn ⊢
    exact hn
  | some state =>
    rw [pump, hState] at hn ⊢
    dsimp only at hn ⊢
    by_cases hLink : connection ∉ r.connections
    · rw [if_pos hLink] at hn ⊢
      exact hn
    · rw [if_neg hLink] at hn ⊢
      obtain ⟨x, hx, hRest⟩ := Option.bind_eq_some_iff.mp hn
      exact Option.bind_eq_some_iff.mpr ⟨x, pumpLoop_persists W _ _ _ _ _ n m x hx hm, hRest⟩

theorem perform_persists (r : Runner) (action : Action) :
    Persists fun fuel => r.perform W fuel action := by
  intro n m a hn hm
  cases action with
  | awaitSetupResponse connection session protocol firstOnConnection =>
    cases hState : r.states.lookup connection with
    | none =>
      simp only [perform, performAwaitSetupResponse, hState] at hn ⊢
      exact hn
    | some state =>
      simp only [perform, performAwaitSetupResponse, hState] at hn ⊢
      obtain ⟨x, hx, hRest⟩ := Option.bind_eq_some_iff.mp hn
      exact Option.bind_eq_some_iff.mpr ⟨x, pump_persists W _ _ _ _ n m x hx hm, hRest⟩
  | probe =>
    obtain ⟨x, hx, hRest⟩ := Option.bind_eq_some_iff.mp hn
    exact Option.bind_eq_some_iff.mpr ⟨x, drainAll_persists W _ r n m x hx hm, hRest⟩
  | enterOnSetupSuccess | exitBlock | connect | send | advanceTime => exact hn

theorem loop_persists (actions : List Action) (next : Nat) (r : Runner) :
    Persists fun fuel => loop W actions fuel next r := by
  refine Persists.of_succ fun n => ?_
  induction n generalizing next r with
  | zero =>
    intro a h
    cases h
  | succ n ih =>
    intro a h
    rw [loop] at h ⊢
    split at h
    · exact h
    · split at h
      · obtain ⟨x, hx, hRest⟩ := Option.bind_eq_some_iff.mp h
        exact Option.bind_eq_some_iff.mpr ⟨x, ih _ _ x hx, hRest⟩
      · obtain ⟨x, hx, hBind⟩ := Option.bind_eq_some_iff.mp h
        obtain ⟨y, hy, hRest⟩ := Option.bind_eq_some_iff.mp hBind
        refine Option.bind_eq_some_iff.mpr ⟨x, ?_, Option.bind_eq_some_iff.mpr ⟨y, ih _ _ y hy, hRest⟩⟩
        exact perform_persists W r _ n _ x hx (Nat.le_succ n)

end Persisting

/-! ## One turn -/

section Turns

variable {W : World} {actions : List Action} {next : Nat} {r r'' : Runner} {trace : List TraceEntry}

theorem loop_end_iff (h : actions[next]? = none) :
    Returns (fun fuel => loop W actions fuel next r) (trace, r'') ↔ trace = [] ∧ r'' = r := by
  rw [returns_turn_iff rfl]
  simp only [loop, h]
  rw [returns_const_iff, Prod.mk.injEq]
  exact and_congr eq_comm eq_comm

theorem loop_attempt_iff {action : Action} (h : actions[next]? = some action)
    (hMet : r.unmetPrerequisite action = none) :
    Returns (fun fuel => loop W actions fuel next r) (trace, r'') ↔
      ∃ outcome r' rest, Returns (fun fuel => r.perform W fuel action) (outcome, r') ∧
        Returns (fun fuel => loop W actions fuel (next + 1) (r'.record [outcome])) (rest, r'') ∧
          trace = ⟨next, true, outcome, r'.history.drop r.history.length⟩ :: rest := by
  have hTurn : ∀ fuel, loop W actions (fuel + 1) next r = (r.perform W fuel action).bind fun x =>
      (loop W actions fuel (next + 1) (x.2.record [x.1])).bind fun y =>
        some (⟨next, true, x.1, x.2.history.drop r.history.length⟩ :: y.1, y.2) := by
    intro fuel
    rw [loop, h]
    simp only [hMet]
    rfl
  have hRest : ∀ x : ActionOutcome × Runner, Persists fun fuel =>
      (loop W actions fuel (next + 1) (x.2.record [x.1])).bind fun y => some
        ((⟨next, true, x.1, x.2.history.drop r.history.length⟩ :: y.1 : List TraceEntry), y.2) :=
    fun x => (loop_persists W actions (next + 1) _).map _
  rw [returns_turn_iff rfl, returns_congr hTurn, (perform_persists W r action).returns_bind_iff hRest]
  constructor
  · rintro ⟨⟨outcome, r'⟩, hPerform, hLater⟩
    obtain ⟨⟨rest, r₁⟩, hLoop, hOut⟩ := ((loop_persists W actions (next + 1) _).returns_map_iff _).mp hLater
    obtain ⟨rfl, rfl⟩ := Prod.mk.inj hOut
    exact ⟨outcome, r', rest, hPerform, hLoop, rfl⟩
  · rintro ⟨outcome, r', rest, hPerform, hLoop, rfl⟩
    exact ⟨(outcome, r'), hPerform,
      ((loop_persists W actions (next + 1) _).returns_map_iff _).mpr ⟨(rest, r''), hLoop, rfl⟩⟩

theorem loop_skip_iff {action : Action} {unmet : Prerequisite} {exit : Nat}
    (h : actions[next]? = some action) (hUnmet : r.unmetPrerequisite action = some (unmet, exit)) :
    Returns (fun fuel => loop W actions fuel next r) (trace, r'') ↔
      ∃ rest, Returns (fun fuel => loop W actions fuel (lastSkipped actions exit + 1)
          (r.record (List.replicate (lastSkipped actions exit + 1 - next) (.skipped unmet)))) (rest, r'') ∧
        trace = skippedEntries unmet next (lastSkipped actions exit + 1 - next) ++ rest := by
  have hTurn : ∀ fuel, loop W actions (fuel + 1) next r =
      (loop W actions fuel (lastSkipped actions exit + 1) (r.record (List.replicate
        (lastSkipped actions exit + 1 - next) (.skipped unmet)))).bind fun y => some
          (skippedEntries unmet next (lastSkipped actions exit + 1 - next) ++ y.1, y.2) := by
    intro fuel
    rw [loop, h]
    simp only [hUnmet]
    rfl
  rw [returns_turn_iff rfl, returns_congr hTurn, (loop_persists W actions _ _).returns_map_iff]
  constructor
  · rintro ⟨⟨rest, r₁⟩, hLoop, hOut⟩
    obtain ⟨rfl, rfl⟩ := Prod.mk.inj hOut
    exact ⟨rest, hLoop, rfl⟩
  · rintro ⟨rest, hLoop, rfl⟩
    exact ⟨(rest, r''), hLoop, rfl⟩

end Turns

end Runner

/-! ## Statements -/

/-- The action is where a block begins or ends. -/
def Action.isBound : Action → Bool
  | .enterOnSetupSuccess _ _ | .exitBlock => true
  | .connect _ _ | .send _ _ _ _ _ | .awaitSetupResponse _ _ _ _ | .advanceTime _ | .probe => false

/-- Actions one after the other, and blocks that depend on a session's setup. -/
inductive Statements where
  | done
  | act (action : { action : Action // action.isBound = false }) (rest : Statements)
  | onSetupSuccess (session : Nat) (body rest : Statements)

namespace Statements

/-- How many actions the statements take. -/
def size : Statements → Nat
  | done => 0
  | act _ rest => rest.size + 1
  | onSetupSuccess _ body rest => body.size + 2 + rest.size

/-- The actions, of which the first has the index `next`. -/
def flatten (next : Nat) : Statements → List Action
  | done => []
  | act action rest => action.val :: rest.flatten (next + 1)
  | onSetupSuccess session body rest =>
    .enterOnSetupSuccess session (next + 1 + body.size) :: (body.flatten (next + 1) ++
      .exitBlock :: rest.flatten (next + (body.size + 2)))

/-- One statement after the other. -/
def append : Statements → Statements → Statements
  | done, t => t
  | act action rest, t => act action (rest.append t)
  | onSetupSuccess session body rest, t => onSetupSuccess session body (rest.append t)

/-- Carry the statements out: what was done about each action, and the runner then. -/
def exec (W : World) (fuel : Nat) : Statements → Nat → Runner →
    Option (List Runner.TraceEntry × Runner)
  | done, _, r => some ([], r)
  | act action rest, next, r =>
    (r.perform W fuel action.val).bind fun x =>
      (rest.exec W fuel (next + 1) (x.2.record [x.1])).bind fun y =>
        some (⟨next, true, x.1, x.2.history.drop r.history.length⟩ :: y.1, y.2)
  | onSetupSuccess session body rest, next, r =>
    if r.established session then
      (body.exec W fuel (next + 1) (r.record [.completed .none])).bind fun x =>
        (rest.exec W fuel (next + (body.size + 2)) (x.2.record [.completed .none])).bind fun y =>
          some (⟨next, true, .completed .none, []⟩ :: (x.1 ++
            ⟨next + 1 + body.size, true, .completed .none, []⟩ :: y.1), y.2)
    else
      -- the whole block is skipped, its bounds included
      (rest.exec W fuel (next + (body.size + 2))
        (r.record (List.replicate (body.size + 2) (.skipped (.setupSuccess session))))).bind fun y =>
          some (Runner.skippedEntries (.setupSuccess session) next (body.size + 2) ++ y.1, y.2)

@[simp] theorem length_flatten (s : Statements) (next : Nat) : (s.flatten next).length = s.size := by
  induction s generalizing next with
  | done => rfl
  | act action rest ih => simp [flatten, size, ih]
  | onSetupSuccess session body rest ihBody ihRest =>
    simp only [flatten, size, List.length_cons, List.length_append, ihBody, ihRest]
    omega

theorem flatten_append (s t : Statements) (next : Nat) :
    (s.append t).flatten next = s.flatten next ++ t.flatten (next + s.size) := by
  induction s generalizing next with
  | done => simp [append, flatten, size]
  | act action rest ih =>
    simp only [append, flatten, size, ih, List.cons_append]
    congr 3
    omega
  | onSetupSuccess session body rest _ ih =>
    simp only [append, flatten, size, ih, List.cons_append, List.append_assoc]
    congr 5
    omega

/-- The actions tell the statements. -/
theorem flatten_inj {s t : Statements} {next : Nat} (h : s.flatten next = t.flatten next) : s = t := by
  induction s generalizing t next with
  | done =>
    cases t with
    | done => rfl
    | act | onSetupSuccess => cases h
  | act action rest ih =>
    obtain ⟨action, hAction⟩ := action
    cases t with
    | done => cases h
    | act action' rest' =>
      obtain ⟨hHead, hTail⟩ := List.cons.inj h
      rw [ih hTail, Subtype.ext hHead]
    | onSetupSuccess session' body' rest' =>
      obtain ⟨rfl, -⟩ := List.cons.inj h
      cases hAction
  | onSetupSuccess session body rest ihBody ihRest =>
    cases t with
    | done => cases h
    | act action' rest' =>
      obtain ⟨action', hAction'⟩ := action'
      obtain ⟨rfl, -⟩ := List.cons.inj h
      cases hAction'
    | onSetupSuccess session' body' rest' =>
      obtain ⟨hHead, hTail⟩ := List.cons.inj h
      obtain ⟨rfl, hExit⟩ := Action.enterOnSetupSuccess.inj hHead
      -- the exits agree, so the bodies are of one length
      have hSize : body.size = body'.size := by omega
      obtain ⟨hBody, hRest⟩ := List.append_inj hTail (by simp [hSize])
      rw [ihBody hBody, ihRest (hSize ▸ (List.cons.inj hRest).2)]

theorem exec_persists (W : World) (s : Statements) (next : Nat) (r : Runner) :
    Persists fun fuel => s.exec W fuel next r := by
  induction s generalizing next r with
  | done => exact Persists.const _
  | act action rest ih =>
    exact (Runner.perform_persists W r action.val).bind fun x => (ih _ _).map _
  | onSetupSuccess session body rest ihBody ihRest =>
    cases hMet : r.established session with
    | true =>
      refine ((ihBody (next + 1) (r.record [.completed .none])).bind fun x =>
        (ihRest (next + (body.size + 2)) (x.2.record [.completed .none])).map fun y =>
          ((⟨next, true, .completed .none, []⟩ :: (x.1 ++
            ⟨next + 1 + body.size, true, .completed .none, []⟩ :: y.1) : List Runner.TraceEntry),
              y.2)).congr fun fuel => ?_
      rw [exec, hMet, if_pos rfl]
    | false =>
      refine ((ihRest (next + (body.size + 2)) (r.record (List.replicate (body.size + 2)
        (.skipped (.setupSuccess session))))).map fun y =>
          (Runner.skippedEntries (.setupSuccess session) next (body.size + 2) ++ y.1, y.2)).congr
            fun fuel => ?_
      rw [exec, hMet, if_neg Bool.false_ne_true]

section Executing

variable {W : World} {next : Nat} {r r'' : Runner} {trace : List Runner.TraceEntry}
  {action : { action : Action // action.isBound = false }} {session : Nat}
  {body rest : Statements}

theorem exec_act_iff : Returns (fun fuel => (act action rest).exec W fuel next r) (trace, r'') ↔
    ∃ outcome r' later, Returns (fun fuel => r.perform W fuel action.val) (outcome, r') ∧
      Returns (fun fuel => rest.exec W fuel (next + 1) (r'.record [outcome])) (later, r'') ∧
        trace = ⟨next, true, outcome, r'.history.drop r.history.length⟩ :: later := by
  have hRest : ∀ x : ActionOutcome × Runner, Persists fun fuel =>
      (rest.exec W fuel (next + 1) (x.2.record [x.1])).bind fun y => some
        ((⟨next, true, x.1, x.2.history.drop r.history.length⟩ :: y.1 : List Runner.TraceEntry), y.2) :=
    fun x => (exec_persists W rest (next + 1) _).map _
  refine ((Runner.perform_persists W r action.val).returns_bind_iff hRest).trans ?_
  constructor
  · rintro ⟨⟨outcome, r'⟩, hPerform, hLater⟩
    obtain ⟨⟨later, r₁⟩, hExec, hOut⟩ := ((exec_persists W rest (next + 1) _).returns_map_iff _).mp hLater
    obtain ⟨rfl, rfl⟩ := Prod.mk.inj hOut
    exact ⟨outcome, r', later, hPerform, hExec, rfl⟩
  · rintro ⟨outcome, r', later, hPerform, hExec, rfl⟩
    exact ⟨(outcome, r'), hPerform,
      ((exec_persists W rest (next + 1) _).returns_map_iff _).mpr ⟨(later, r''), hExec, rfl⟩⟩

theorem exec_met_iff (hMet : r.established session = true) :
    Returns (fun fuel => (onSetupSuccess session body rest).exec W fuel next r) (trace, r'') ↔
      ∃ inner r' later, Returns (fun fuel => body.exec W fuel (next + 1) (r.record [.completed .none]))
          (inner, r') ∧
        Returns (fun fuel => rest.exec W fuel (next + (body.size + 2)) (r'.record [.completed .none]))
          (later, r'') ∧
        trace = ⟨next, true, .completed .none, []⟩ :: (inner ++
          ⟨next + 1 + body.size, true, .completed .none, []⟩ :: later) := by
  have hTurn : ∀ fuel, (onSetupSuccess session body rest).exec W fuel next r =
      (body.exec W fuel (next + 1) (r.record [.completed .none])).bind fun x =>
        (rest.exec W fuel (next + (body.size + 2)) (x.2.record [.completed .none])).bind fun y =>
          some (⟨next, true, .completed .none, []⟩ :: (x.1 ++
            ⟨next + 1 + body.size, true, .completed .none, []⟩ :: y.1), y.2) := by
    intro fuel
    rw [exec, hMet, if_pos rfl]
  have hRest : ∀ x : List Runner.TraceEntry × Runner, Persists fun fuel =>
      (rest.exec W fuel (next + (body.size + 2)) (x.2.record [.completed .none])).bind fun y => some
        ((⟨next, true, .completed .none, []⟩ :: (x.1 ++
          ⟨next + 1 + body.size, true, .completed .none, []⟩ :: y.1) : List Runner.TraceEntry), y.2) :=
    fun x => (exec_persists W rest _ _).map _
  rw [returns_congr hTurn, (exec_persists W body (next + 1) _).returns_bind_iff hRest]
  constructor
  · rintro ⟨⟨inner, r'⟩, hBody, hLater⟩
    obtain ⟨⟨later, r₁⟩, hExec, hOut⟩ := ((exec_persists W rest _ _).returns_map_iff _).mp hLater
    obtain ⟨rfl, rfl⟩ := Prod.mk.inj hOut
    exact ⟨inner, r', later, hBody, hExec, rfl⟩
  · rintro ⟨inner, r', later, hBody, hExec, rfl⟩
    exact ⟨(inner, r'), hBody,
      ((exec_persists W rest _ _).returns_map_iff _).mpr ⟨(later, r''), hExec, rfl⟩⟩

theorem exec_skip_iff (hUnmet : r.established session = false) :
    Returns (fun fuel => (onSetupSuccess session body rest).exec W fuel next r) (trace, r'') ↔
      ∃ later, Returns (fun fuel => rest.exec W fuel (next + (body.size + 2))
          (r.record (List.replicate (body.size + 2) (.skipped (.setupSuccess session))))) (later, r'') ∧
        trace = Runner.skippedEntries (.setupSuccess session) next (body.size + 2) ++ later := by
  have hTurn : ∀ fuel, (onSetupSuccess session body rest).exec W fuel next r =
      (rest.exec W fuel (next + (body.size + 2))
        (r.record (List.replicate (body.size + 2) (.skipped (.setupSuccess session))))).bind fun y =>
          some (Runner.skippedEntries (.setupSuccess session) next (body.size + 2) ++ y.1, y.2) := by
    intro fuel
    rw [exec, hUnmet, if_neg Bool.false_ne_true]
  rw [returns_congr hTurn, (exec_persists W rest _ _).returns_map_iff]
  constructor
  · rintro ⟨⟨later, r₁⟩, hExec, hOut⟩
    obtain ⟨rfl, rfl⟩ := Prod.mk.inj hOut
    exact ⟨later, hExec, rfl⟩
  · rintro ⟨later, hExec, rfl⟩
    exact ⟨(later, r''), hExec, rfl⟩

end Executing

/-! ## The loop -/

section Loop

variable {W : World} {actions : List Action}

/-- The actions from an index on begin with these. -/
theorem at_of_prefix {action : Action} {l : List Action} {next : Nat}
    (h : action :: l <+: actions.drop next) :
    actions[next]? = some action ∧ l <+: actions.drop (next + 1) := by
  obtain ⟨back, hBack⟩ := h
  rw [List.cons_append] at hBack
  have hAt : actions[next]? = some action := by
    rw [← List.head?_drop, ← hBack]
    rfl
  refine ⟨hAt, back, ?_⟩
  rw [← List.tail_drop, ← hBack]
  rfl

theorem prefix_append {l m : List Action} {next : Nat} (h : l ++ m <+: actions.drop next) :
    l <+: actions.drop next ∧ m <+: actions.drop (next + l.length) := by
  obtain ⟨back, hBack⟩ := h
  refine ⟨⟨m ++ back, by rw [← hBack, List.append_assoc]⟩, back, ?_⟩
  rw [← List.drop_drop, ← hBack, List.append_assoc, List.drop_left]

theorem unmetPrerequisite_of_not_bound {r : Runner} {action : Action} (h : action.isBound = false) :
    r.unmetPrerequisite action = none := by
  cases action with
  | enterOnSetupSuccess | exitBlock => cases h
  | connect | send | awaitSetupResponse | advanceTime | probe => rfl

/-- **The loop does what the statements say**, and then goes on behind them. -/
theorem loop_iff (s : Statements) {next : Nat} {r r'' : Runner} {trace : List Runner.TraceEntry}
    (h : s.flatten next <+: actions.drop next) :
    Returns (fun fuel => Runner.loop W actions fuel next r) (trace, r'') ↔
      ∃ first r' second, Returns (fun fuel => s.exec W fuel next r) (first, r') ∧
        Returns (fun fuel => Runner.loop W actions fuel (next + s.size) r') (second, r'') ∧
          trace = first ++ second := by
  induction s generalizing next r trace r'' with
  | done =>
    constructor
    · intro hLoop
      exact ⟨[], r, trace, ⟨0, rfl⟩, hLoop, rfl⟩
    · rintro ⟨first, r', second, hFirst, hSecond, rfl⟩
      obtain ⟨rfl, rfl⟩ := Prod.mk.inj (returns_const_iff.mp hFirst)
      exact hSecond
  | act action rest ih =>
    obtain ⟨hAction, hRest⟩ := at_of_prefix h
    have hNext : next + (act action rest).size = next + 1 + rest.size := by
      simp only [size]
      omega
    rw [hNext, Runner.loop_attempt_iff hAction (unmetPrerequisite_of_not_bound action.property)]
    constructor
    · rintro ⟨outcome, r₁, later, hPerform, hLater, rfl⟩
      obtain ⟨first, r', second, hFirst, hSecond, rfl⟩ := (ih hRest).mp hLater
      exact ⟨_, r', second, exec_act_iff.mpr ⟨outcome, r₁, first, hPerform, hFirst, rfl⟩, hSecond, rfl⟩
    · rintro ⟨front, r', second, hFront, hSecond, rfl⟩
      obtain ⟨outcome, r₁, first, hPerform, hFirst, rfl⟩ := exec_act_iff.mp hFront
      exact ⟨outcome, r₁, _, hPerform, (ih hRest).mpr ⟨first, r', second, hFirst, hSecond, rfl⟩, rfl⟩
  | onSetupSuccess session body rest ihBody ihRest =>
    obtain ⟨hEnter, hInner⟩ := at_of_prefix h
    obtain ⟨hBody, hBehind⟩ := prefix_append hInner
    rw [length_flatten] at hBehind
    obtain ⟨hExit, hRest⟩ := at_of_prefix hBehind
    have hExitAt : next + 1 + body.size + 1 = next + (body.size + 2) := by omega
    have hNext : next + (onSetupSuccess session body rest).size = next + (body.size + 2) + rest.size := by
      simp only [size]
      omega
    rw [hExitAt] at hRest
    rw [hNext]
    -- an action that only marks a bound
    have hMark : ∀ {r r' : Runner} {outcome : ActionOutcome},
        Returns (fun _ => some ((.completed .none, r) : ActionOutcome × Runner)) (outcome, r') →
          outcome = .completed .none ∧ r' = r := by
      intro r r' outcome hReturns
      obtain ⟨hOutcome, hSame⟩ := Prod.mk.inj (returns_const_iff.mp hReturns)
      exact ⟨hOutcome.symm, hSame.symm⟩
    cases hMet : r.established session with
    | true =>
      have hNone : r.unmetPrerequisite (.enterOnSetupSuccess session (next + 1 + body.size)) = none := by
        simp [Runner.unmetPrerequisite, hMet]
      rw [Runner.loop_attempt_iff hEnter hNone]
      constructor
      · rintro ⟨outcome, r₁, later, hPerform, hLater, rfl⟩
        obtain ⟨rfl, rfl⟩ := hMark hPerform
        obtain ⟨inner, r₂, later', hInner, hLater', rfl⟩ := (ihBody hBody).mp hLater
        obtain ⟨outcome, r₃, later'', hPerform', hLater'', rfl⟩ :=
          (Runner.loop_attempt_iff hExit rfl).mp hLater'
        obtain ⟨rfl, rfl⟩ := hMark hPerform'
        rw [hExitAt] at hLater''
        obtain ⟨first, r', second, hFirst, hSecond, rfl⟩ := (ihRest hRest).mp hLater''
        refine ⟨_, r', second, (exec_met_iff hMet).mpr ⟨inner, _, first, hInner, hFirst, rfl⟩, hSecond, ?_⟩
        simp
      · rintro ⟨front, r', second, hFront, hSecond, rfl⟩
        obtain ⟨inner, r₂, first, hInner, hFirst, rfl⟩ := (exec_met_iff hMet).mp hFront
        have hBack := (ihRest hRest).mpr ⟨first, r', second, hFirst, hSecond, rfl⟩
        rw [← hExitAt] at hBack
        have hExited := (Runner.loop_attempt_iff hExit (Eq.refl _)).mpr
          ⟨.completed .none, r₂, _, ⟨0, rfl⟩, hBack, rfl⟩
        have hEntered := (ihBody hBody).mpr ⟨inner, r₂, _, hInner, hExited, rfl⟩
        refine ⟨.completed .none, r, _, ⟨0, rfl⟩, hEntered, ?_⟩
        simp
    | false =>
      -- the exit of the block is there, so nothing cuts the skip short
      have hLast : Runner.lastSkipped actions (next + 1 + body.size) = next + 1 + body.size := by
        have := (List.getElem?_eq_some_iff.mp hExit).1
        rw [Runner.lastSkipped]
        omega
      have hCount : next + (body.size + 2) - next = body.size + 2 := Nat.add_sub_cancel_left ..
      have hSome : r.unmetPrerequisite (.enterOnSetupSuccess session (next + 1 + body.size)) =
          some (.setupSuccess session, next + 1 + body.size) := by
        simp [Runner.unmetPrerequisite, hMet]
      rw [Runner.loop_skip_iff hEnter hSome, hLast, hExitAt, hCount]
      constructor
      · rintro ⟨later, hLater, rfl⟩
        obtain ⟨first, r', second, hFirst, hSecond, rfl⟩ := (ihRest hRest).mp hLater
        exact ⟨_, r', second, (exec_skip_iff hMet).mpr ⟨first, hFirst, rfl⟩, hSecond, by simp⟩
      · rintro ⟨front, r', second, hFront, hSecond, rfl⟩
        obtain ⟨first, hFirst, rfl⟩ := (exec_skip_iff hMet).mp hFront
        exact ⟨_, (ihRest hRest).mpr ⟨first, r', second, hFirst, hSecond, rfl⟩, by simp⟩

end Loop

end Statements

/-! ## The statements of a program -/

namespace Statements

/-- Actions that bound no block, before other statements. -/
theorem exists_acts {l : List Action} (h : ∀ action ∈ l, action.isBound = false) (t : Statements)
    {next : Nat} {back : List Action} (ht : t.flatten (next + l.length) = back) :
    ∃ s : Statements, s.flatten next = l ++ back := by
  induction l generalizing next with
  | nil => exact ⟨t, ht⟩
  | cons action l ih =>
    have hBack : t.flatten (next + 1 + l.length) = back := by
      rw [← ht, List.length_cons, Nat.add_right_comm, Nat.add_assoc]
    obtain ⟨s, hs⟩ := ih (fun a ha => h a (List.mem_cons_of_mem _ ha)) hBack
    refine ⟨act ⟨action, h action List.mem_cons_self⟩ s, ?_⟩
    rw [flatten, hs]
    rfl

variable {S : Sv2} {ctx : ProgramContext}

theorem lower_not_bound {before : List Instruction} {exit : Nat} {i : Instruction}
    (h : i.operation.bracket = .plain) : ∀ action ∈ lower S ctx before exit i, action.isBound = false := by
  obtain ⟨inputs, op⟩ := i
  cases op <;> simp_all [lower, bracket, Action.isBound]

/-- Neither the begin nor the end of a message has an action. -/
theorem numActions_of_build {op : Operation}
    (h : op.bracket = .opening .build ∨ op.bracket = .closing .build) : op.numActions = 0 := by
  cases op <;> simp_all [bracket, numActions]

theorem begin_of_opening {op : Operation} (h : op.bracket = .opening .success) :
    ∃ protocol, op = .beginOnSetupSuccess protocol := by
  cases op <;> simp_all [bracket]

theorem end_of_closing {op : Operation} (h : op.bracket = .closing .success) :
    op = .endOnSetupSuccess := by
  cases op <;> simp_all [bracket]

/-- The actions of instructions that stand in a program. -/
def actionsIn (S : Sv2) (ctx : ProgramContext) (is : List Instruction) (mid : List Instruction)
    (n : Nat) : List Action :=
  (mid.zipIdx n).flatMap fun p => lower S ctx (is.take p.2) (exitOf is p.2) p.1

theorem actionsIn_cons (is : List Instruction) (i : Instruction) (mid : List Instruction) (n : Nat) :
    actionsIn S ctx is (i :: mid) n =
      lower S ctx (is.take n) (exitOf is n) i ++ actionsIn S ctx is mid (n + 1) := rfl

theorem actionsIn_append (is mid mid' : List Instruction) (n : Nat) :
    actionsIn S ctx is (mid ++ mid') n =
      actionsIn S ctx is mid n ++ actionsIn S ctx is mid' (n + mid.length) := by
  unfold actionsIn
  rw [List.zipIdx_append, List.flatMap_append]

theorem length_actionsIn (is mid : List Instruction) (n : Nat) :
    (actionsIn S ctx is mid n).length = actionCount mid := by
  induction mid generalizing n with
  | nil => rfl
  | cons i mid ih =>
    have hCount : actionCount (i :: mid) = i.operation.numActions + actionCount mid := by
      simp [actionCount, total]
    rw [actionsIn_cons, List.length_append, length_lower, ih, hCount]

/-- **Balanced instructions are statements**: the blocks of the actions are those of the
instructions, without the blocks that build a message. -/
theorem exists_of_balanced {is : List Instruction}
    (hs : openStack (brackets is) = some []) {w : Word BlockKind} (hw : Balanced w) :
    ∀ {pre mid post : List Instruction}, is = pre ++ (mid ++ post) → brackets mid = w →
      ∃ s : Statements, s.flatten (actionCount pre) = actionsIn S ctx is mid pre.length := by
  induction hw with
  | nil =>
    intro pre mid post hSplit hMid
    obtain rfl := List.map_eq_nil_iff.mp hMid
    exact ⟨done, rfl⟩
  | @plain w _ ih =>
    intro pre mid post hSplit hMid
    obtain ⟨i, mid, rfl, hi, hMid⟩ := List.map_eq_cons_iff.mp hMid
    obtain ⟨t, ht⟩ := @ih (pre ++ [i]) mid post (by simp [hSplit]) hMid
    rw [actionsIn_cons]
    refine exists_acts (lower_not_bound hi) t ?_
    rw [length_lower, ← actionCount_snoc, ht, List.length_append, List.length_singleton]
  | @block v w k hv _ ihInner ihRest =>
    intro pre mid post hSplit hMid
    obtain ⟨i, mid, rfl, hi, hMid⟩ := List.map_eq_cons_iff.mp hMid
    obtain ⟨inner, mid, rfl, hInner, hMid⟩ := List.map_eq_append_iff.mp hMid
    obtain ⟨j, mid, rfl, hj, hMid⟩ := List.map_eq_cons_iff.mp hMid
    obtain ⟨body, hBody⟩ := @ihInner (pre ++ [i]) inner (j :: mid ++ post) (by simp [hSplit]) hInner
    obtain ⟨rest, hRest⟩ := @ihRest (pre ++ (i :: inner ++ [j])) mid post (by simp [hSplit]) hMid
    have hFirst : actionCount (pre ++ [i]) = actionCount pre + i.operation.numActions :=
      actionCount_snoc pre i
    have hSecond : actionCount (pre ++ (i :: inner ++ [j])) = actionCount pre +
        (i.operation.numActions + actionCount inner + j.operation.numActions) := by
      simp [actionCount, total]
      omega
    have hSize : body.size = actionCount inner := by
      rw [← length_flatten body, hBody, length_actionsIn]
    have hPlace : pre.length + 1 + inner.length + 1 = (pre ++ (i :: inner ++ [j])).length := by
      simp
      omega
    rw [actionsIn_cons, actionsIn_append, actionsIn_cons, hPlace, ← hRest, hSecond]
    rw [List.length_append, List.length_singleton] at hBody
    rw [← hBody, hFirst]
    obtain ⟨inputs, op⟩ := i
    obtain ⟨inputs', op'⟩ := j
    cases k with
    | build =>
      have hNone : op.numActions = 0 := numActions_of_build (Or.inl hi)
      have hNone' : op'.numActions = 0 := numActions_of_build (Or.inr hj)
      have hLower : ∀ before exit, lower S ctx before exit ⟨inputs, op⟩ = [] := fun before exit =>
        List.length_eq_zero_iff.mp ((length_lower ..).trans hNone)
      have hLower' : ∀ before exit, lower S ctx before exit ⟨inputs', op'⟩ = [] := fun before exit =>
        List.length_eq_zero_iff.mp ((length_lower ..).trans hNone')
      refine ⟨body.append rest, ?_⟩
      rw [flatten_append, hLower, hLower', hSize, hNone, hNone', Nat.zero_add, Nat.add_zero,
        Nat.add_zero]
      rfl
    | success =>
      obtain ⟨protocol, rfl⟩ := begin_of_opening hi
      obtain rfl := end_of_closing hj
      -- the block that is begun here ends there
      have hMatches : Matches (brackets is) pre.length (pre.length + 1 + inner.length) := by
        refine ⟨brackets pre, v, brackets (mid ++ post), .success, ?_, hv, by simp [brackets],
          by simp [brackets, ← hInner]⟩
        rw [hSplit, ← hInner]
        simp [brackets, bracket]
      have hExit : exitOf is pre.length = actionCount pre + 1 + body.size := by
        have hTake : is.take (pre.length + 1 + inner.length) =
            pre ++ (⟨inputs, .beginOnSetupSuccess protocol⟩ :: inner) := by
          rw [hSplit, Nat.add_assoc, List.take_length_add_append]
          simp [Nat.add_comm 1]
        rw [exitOf, (matching_eq_some_iff hs).mpr hMatches]
        simp only [hTake, hSize]
        simp [actionCount, total, numActions]
        omega
      refine ⟨onSetupSuccess (sessionOf ctx (is.take pre.length)
        ((⟨inputs, .beginOnSetupSuccess protocol⟩ : Instruction).input 0)) body rest, ?_⟩
      have hBehind : actionCount pre + (1 + body.size + 1) = actionCount pre + (body.size + 2) := by
        omega
      simp only [flatten, lower, hExit, numActions, ← hSize, hBehind]
      rfl

/-- A run of the statements. -/
def run (W : World) (fuel : Nat) (s : Statements) : Option (Execution × List Runner.TraceEntry) :=
  (s.exec W fuel 0 Runner.start).bind fun x =>
    some ({ x.2.execution with connections := x.2.states }, x.1)

end Statements

/-- A run of a program, by the loop. -/
theorem returns_run_iff {W : World} {compiled : CompiledProgram}
    {out : Execution × List Runner.TraceEntry} :
    Returns (fun fuel => run W fuel compiled) out ↔
      ∃ trace r, Returns (fun fuel => Runner.loop W compiled.actions fuel 0 Runner.start) (trace, r) ∧
        out = ({ r.execution with connections := r.states }, trace) := by
  refine ((Runner.loop_persists W compiled.actions 0 Runner.start).returns_map_iff
    fun x => (({ x.2.execution with connections := x.2.states } : Execution), x.1)).trans ?_
  constructor
  · rintro ⟨⟨trace, r⟩, hLoop, rfl⟩
    exact ⟨trace, r, hLoop, rfl⟩
  · rintro ⟨trace, r, hLoop, rfl⟩
    exact ⟨(trace, r), hLoop, rfl⟩

theorem run_persists (W : World) (compiled : CompiledProgram) :
    Persists fun fuel => run W fuel compiled :=
  (Runner.loop_persists W compiled.actions 0 Runner.start).map
    fun x => (({ x.2.execution with connections := x.2.states } : Execution), x.1)

theorem Statements.run_persists (W : World) (s : Statements) : Persists fun fuel => s.run W fuel :=
  (s.exec_persists W 0 Runner.start).map
    fun x => (({ x.2.execution with connections := x.2.states } : Execution), x.1)

theorem Statements.returns_run_iff {W : World} {s : Statements}
    {out : Execution × List Runner.TraceEntry} :
    Returns (fun fuel => s.run W fuel) out ↔
      ∃ trace r, Returns (fun fuel => s.exec W fuel 0 Runner.start) (trace, r) ∧
        out = ({ r.execution with connections := r.states }, trace) := by
  refine ((s.exec_persists W 0 Runner.start).returns_map_iff
    fun x => (({ x.2.execution with connections := x.2.states } : Execution), x.1)).trans ?_
  constructor
  · rintro ⟨⟨trace, r⟩, hExec, rfl⟩
    exact ⟨trace, r, hExec, rfl⟩
  · rintro ⟨trace, r, hExec, rfl⟩
    exact ⟨(trace, r), hExec, rfl⟩

/-- The first actions of a list are statements, and a run goes through them first. -/
theorem returns_run_prefix_iff {W : World} {compiled : CompiledProgram} {s : Statements}
    (h : s.flatten 0 <+: compiled.actions) {out : Execution × List Runner.TraceEntry} :
    Returns (fun fuel => run W fuel compiled) out ↔
      ∃ first r' second r, Returns (fun fuel => s.exec W fuel 0 Runner.start) (first, r') ∧
        Returns (fun fuel => Runner.loop W compiled.actions fuel s.size r') (second, r) ∧
        out = ({ r.execution with connections := r.states }, first ++ second) := by
  rw [Stratamoto.returns_run_iff]
  have hFront : s.flatten 0 <+: compiled.actions.drop 0 := h
  constructor
  · rintro ⟨trace, r, hLoop, rfl⟩
    obtain ⟨first, r', second, hExec, hRest, rfl⟩ := (s.loop_iff hFront).mp hLoop
    rw [Nat.zero_add] at hRest
    exact ⟨first, r', second, r, hExec, hRest, rfl⟩
  · rintro ⟨first, r', second, r, hExec, hRest, rfl⟩
    refine ⟨_, r, (s.loop_iff hFront).mpr ⟨first, r', second, hExec, ?_, rfl⟩, rfl⟩
    rw [Nat.zero_add]
    exact hRest

theorem returns_run_statements_iff {W : World} {compiled : CompiledProgram} {s : Statements}
    (h : s.flatten 0 = compiled.actions) {out : Execution × List Runner.TraceEntry} :
    Returns (fun fuel => run W fuel compiled) out ↔ Returns (fun fuel => s.run W fuel) out := by
  -- behind the statements there is nothing
  have hEnd : compiled.actions[s.size]? = none := by
    rw [← h, List.getElem?_eq_none_iff, Statements.length_flatten]
  have hFront : s.flatten 0 <+: compiled.actions := ⟨[], by rw [List.append_nil, h]⟩
  rw [returns_run_prefix_iff hFront, Statements.returns_run_iff]
  constructor
  · rintro ⟨first, r', second, r, hExec, hRest, rfl⟩
    obtain ⟨rfl, rfl⟩ := (Runner.loop_end_iff hEnd).mp hRest
    exact ⟨first, r, hExec, by rw [List.append_nil]⟩
  · rintro ⟨trace, r, hExec, rfl⟩
    exact ⟨trace, r, [], r, hExec, (Runner.loop_end_iff hEnd).mpr ⟨rfl, rfl⟩, by rw [List.append_nil]⟩

/-- The actions of a valid program are those of statements. -/
theorem exists_statements {S : Sv2} {ctx : ProgramContext} {is : List Instruction}
    (hTyped : WellTyped ctx is) : ∃ s : Statements, s.flatten 0 = actionsOf S ctx is := by
  have hs := balanced_iff_openStack.mp hTyped.balanced
  have hSplit : is = [] ++ (is ++ []) := (List.append_nil is).symm
  exact Statements.exists_of_balanced hs hTyped.balanced hSplit rfl

/-- **A run is what the statements of the program come to.** The actions of a valid program
are those of statements, of no others, and with enough fuel the loop with its jumps and the
statements with their nesting come to the same execution and the same trace. -/
theorem run_is_structured {S : Sv2} (hS : S.Lawful) {p : Program}
    (hValid : p.isStaticallyValid = .ok true) {compiled : CompiledProgram}
    (hCompile : Compiler.compile S p = .ok compiled) :
    ∃ s : Statements, (∀ t : Statements, t.flatten 0 = compiled.actions ↔ t = s) ∧
      ∀ W out, Settles (fun fuel => run W fuel compiled) out ↔ Settles (fun fuel => s.run W fuel) out := by
  have hTyped := isStaticallyValid_iff.mp hValid
  obtain ⟨hActions, -⟩ := compiled_of_typed hS hTyped hCompile
  obtain ⟨s, hs⟩ := exists_statements (S := S) hTyped
  rw [← hActions] at hs
  refine ⟨s, fun t => ⟨fun ht => Statements.flatten_inj (ht.trans hs.symm), fun ht => ht ▸ hs⟩,
    fun W out => ?_⟩
  rw [(run_persists W compiled).settles_iff, (s.run_persists W).settles_iff]
  exact returns_run_statements_iff hs

theorem run_is_structured_singleSetup : ∃ compiled,
    Compiler.compile Sv2.wire singleSetup = .ok compiled ∧
      ∃ s : Statements, (∀ t : Statements, t.flatten 0 = compiled.actions ↔ t = s) ∧ ∀ W out,
        Settles (fun fuel => run W fuel compiled) out ↔ Settles (fun fuel => s.run W fuel) out := by
  obtain ⟨compiled, hCompile, -⟩ := singleSetup_compiles
  exact ⟨compiled, hCompile, run_is_structured Sv2.wire_lawful (by decide) hCompile⟩

/-! ## What is put behind a program -/

/-- The blocks of a program end where they end in a longer one. -/
theorem actionsIn_front {S : Sv2} {ctx : ProgramContext} {is more : List Instruction}
    (hTyped : WellTyped ctx is) (hMore : WellTyped ctx (is ++ more)) :
    Statements.actionsIn S ctx (is ++ more) is 0 = actionsOf S ctx is := by
  have hs := balanced_iff_openStack.mp hTyped.balanced
  have hs' := balanced_iff_openStack.mp hMore.balanced
  refine List.flatMap_congr fun p hp => ?_
  have hAt := List.mem_zipIdx_iff_getElem?.mp hp
  have hLt := (List.getElem?_eq_some_iff.mp hAt).1
  rw [List.take_append_of_le_length (Nat.le_of_lt hLt)]
  by_cases hBegin : p.1.operation.bracket = .opening .success
  · have hOpening : (brackets is)[p.2]? = some (.opening .success) := by
      rw [brackets, List.getElem?_map, hAt, Option.map_some, hBegin]
    obtain ⟨e, hMatches⟩ := hTyped.balanced.exists_matches hOpening
    have hMatches' : Matches (brackets (is ++ more)) p.2 e := by
      rw [brackets_append]
      exact hMatches.append _
    have he := hMatches.lt_length
    rw [brackets_length] at he
    rw [exitOf, exitOf, (matching_eq_some_iff hs).mpr hMatches, (matching_eq_some_iff hs').mpr hMatches']
    simp only [List.take_append_of_le_length (Nat.le_of_lt he)]
  · exact lower_exit S ctx _ hBegin _ _

theorem noneTooLong_front {ctx : ProgramContext} {is more : List Instruction}
    (h : NoneTooLong ctx (is ++ more)) : NoneTooLong ctx is := by
  intro n i v hn hLong
  have hLt := (List.getElem?_eq_some_iff.mp hn).1
  refine h n i v (by rw [List.getElem?_append_left hLt, hn]) ?_
  rwa [List.take_append_of_le_length (Nat.le_of_lt hLt)]

/-- **What is put behind a program changes nothing before it**: where the longer program runs,
the shorter one does, and the run of the longer one begins with all that was done, sent,
received and recorded in the run of the shorter one. -/
theorem extended_run_begins {S : Sv2} (hS : S.Lawful) {p q : Program}
    (hp : p.isStaticallyValid = .ok true) (hq : q.isStaticallyValid = .ok true)
    (hContext : q.context = p.context) (hMore : p.instructions <+: q.instructions)
    {compiled' : CompiledProgram} (hCompile : Compiler.compile S q = .ok compiled') :
    ∃ compiled, Compiler.compile S p = .ok compiled ∧ compiled.actions <+: compiled'.actions ∧
      ∀ W fuel' execution' entries', run W fuel' compiled' = some (execution', entries') →
        ∃ fuel execution entries, run W fuel compiled = some (execution, entries) ∧
          entries <+: entries' ∧ execution.outcomes <+: execution'.outcomes := by
  obtain ⟨more, hSplit⟩ := hMore
  have hTyped := isStaticallyValid_iff.mp hp
  have hTyped' := isStaticallyValid_iff.mp hq
  rw [hContext, ← hSplit] at hTyped'
  have hCompile' : Compiler.compile S ⟨p.context, p.instructions ++ more⟩ = .ok compiled' := by
    rw [hSplit, ← hContext]
    exact hCompile
  -- a setup that is too long for the shorter program is too long for the longer one
  obtain ⟨compiled, hOk⟩ : ∃ compiled, Compiler.compile S p = .ok compiled := by
    rcases compile_cases hS hTyped with ⟨-, m, -, hOk⟩ | ⟨v, hFirst, -⟩
    · exact ⟨_, hOk⟩
    · obtain ⟨n, i, hi, hLong, -⟩ := hFirst
      exact absurd hLong (noneTooLong_front (noneTooLong_of_compile hS hTyped' hCompile') n i v hi)
  obtain ⟨hActions, -⟩ := compiled_of_typed hS hTyped hOk
  obtain ⟨hActions', -⟩ := compiled_of_typed hS hTyped' hCompile'
  have hFront : compiled.actions <+: compiled'.actions := by
    refine ⟨Statements.actionsIn S p.context (p.instructions ++ more) more p.instructions.length, ?_⟩
    rw [hActions, hActions', ← actionsIn_front hTyped hTyped']
    have hWhole := @Statements.actionsIn_append S p.context (p.instructions ++ more) p.instructions
      more 0
    rw [Nat.zero_add] at hWhole
    exact hWhole.symm
  refine ⟨compiled, hOk, hFront, fun W fuel' execution' entries' hRun => ?_⟩
  obtain ⟨s, hs⟩ := exists_statements (S := S) hTyped
  rw [← hActions] at hs
  obtain ⟨first, r', second, r, hExec, hRest, hOut⟩ :=
    (returns_run_prefix_iff (hs ▸ hFront)).mp ⟨fuel', hRun⟩
  obtain ⟨rfl, rfl⟩ := Prod.mk.inj hOut
  obtain ⟨fuel, hHere⟩ := (returns_run_statements_iff hs).mpr
    (Statements.returns_run_iff.mpr ⟨first, r', hExec, rfl⟩)
  refine ⟨fuel, _, first, hHere, ⟨second, rfl⟩, ?_⟩
  -- the outcomes are those of the entries
  obtain ⟨_, _, hReaches, -, hExecution⟩ := run_reaches hHere
  obtain ⟨_, _, hReaches', -, hExecution'⟩ := run_reaches hRun
  have hOutcomes := hReaches.outcomes
  have hOutcomes' := hReaches'.outcomes
  rw [hExecution, hExecution']
  show _ <+: _
  rw [hOutcomes, hOutcomes', List.map_append]
  exact List.prefix_append _ _

/-- What the client does before it asks whether the server agreed. -/
theorem extended_run_begins_singleSetup : ∃ compiled compiled',
    Compiler.compile Sv2.wire ⟨singleSetup.context, singleSetup.instructions.take 5⟩ = .ok compiled ∧
      Compiler.compile Sv2.wire singleSetup = .ok compiled' ∧ compiled.actions <+: compiled'.actions := by
  obtain ⟨compiled', hCompile, -⟩ := singleSetup_compiles
  obtain ⟨compiled, hOk, hFront, -⟩ := extended_run_begins Sv2.wire_lawful
    (p := ⟨singleSetup.context, singleSetup.instructions.take 5⟩) (q := singleSetup) (by decide)
      (by decide) rfl (List.take_prefix 5 _) hCompile
  exact ⟨compiled, compiled', hOk, hCompile, hFront⟩

end Stratamoto
