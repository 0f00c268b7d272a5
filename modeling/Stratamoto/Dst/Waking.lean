import Stratamoto.Dst.Executor

/-!
# Stratamoto — the executor and the clock

`block_on` advances the clock when its queue is empty, which is when no task is
ready. So what a task does takes no simulated time, and a task that waits for a
deadline has its turn while the clock is at the deadline.

* `step_sim` — what one turn does to the network and the time;
* `time_stands_still` — when the clock is advanced, and what comes of it;
* `wakes_on_time` — a task that waits for a deadline.
-/

namespace Stratamoto.Dst

open PriorityQueue Machines

namespace Executor

variable {A : AsyncTask} {R : Rand} {Q : TimerQueue Callback} {x x' : Executor A R Q}

/-! ## One turn -/

@[simp] theorem unwind_sim (x : Executor A R Q) (panic : Panic) : (x.unwind panic).sim = x.sim := by
  unfold unwind
  split <;> rfl

theorem step_pollMain {main : Nat} (hControl : x.control = .blocking main) (hQueue : x.queue = []) :
    x.step .pollMain = some (x.pollMain main) := by
  simp only [step]
  split
  · rename_i hControl' _
    obtain rfl := Control.blocking.inj (hControl.symm.trans hControl')
    rfl
  · rename_i hNot
    exact absurd hQueue (hNot main hControl)

/-- Where `block_on` can poll its task. -/
theorem pollMain_of_step (h : x.step .pollMain = some x') :
    ∃ main, x.control = .blocking main ∧ x.queue = [] ∧ x' = x.pollMain main := by
  simp only [step] at h
  split at h
  · rename_i main hControl hQueue
    exact ⟨main, hControl, hQueue, (Option.some.inj h).symm⟩
  · cases h

/-- **What a turn does to the network and the time**: nothing, a call on them, or it
advances. -/
theorem step_sim {turn : Turn R} (h : x.Ready) (hStep : x.step turn = some x') :
    x'.sim = x.sim ∨
      (∃ s, s ≠ .advance ∧ turn = .call (.sim s) ∧ x.sim.step s = .ok x'.sim) ∨
      (turn = .pollMain ∧ x.queue = [] ∧ x.sim.time.pending ≠ 0 ∧ x' = x.advance) := by
  cases turn with
  | call c =>
    rcases (step_call hStep).2 with hCall | ⟨panic, -, rfl⟩
    · cases c with
      | localHandle addr | kill addr =>
        obtain rfl := Except.ok.inj (Option.some.inj hCall)
        exact Or.inl rfl
      | spawnOn info =>
        simp only [call] at hCall
        split at hCall
        · obtain rfl := Except.ok.inj (Option.some.inj hCall)
          exact Or.inl rfl
        · cases hCall
      | spawn =>
        simp only [call] at hCall
        split at hCall
        · cases hCall
        · obtain rfl := Except.ok.inj (Option.some.inj hCall)
          exact Or.inl rfl
      | wake task =>
        obtain rfl := Except.ok.inj (Option.some.inj hCall)
        exact Or.inl (act_sim ..)
      | cancel task =>
        simp only [call] at hCall
        split at hCall
        · cases hCall
        · obtain rfl := Except.ok.inj (Option.some.inj hCall)
          exact Or.inl (act_sim ..)
      | sim s =>
        obtain ⟨hNot, sim, hSim, rfl⟩ := call_sim hCall
        exact Or.inr (Or.inl ⟨s, hNot, rfl, hSim⟩)
    · exact Or.inl (unwind_sim x panic)
  | blockOn =>
    simp only [step] at hStep
    split at hStep
    · obtain rfl := Option.some.inj hStep
      exact Or.inl rfl
    · cases hStep
  | runNext =>
    simp only [step] at hStep
    split at hStep
    · rename_i main task info queue hControl hQueue
      obtain rfl := Option.some.inj hStep
      obtain ⟨i, p, -, -, -, -, hCases⟩ := runNext_cases h main hQueue
      rcases hCases with ⟨-, hEq⟩ | ⟨-, hEq⟩
      all_goals
        rw [hEq]
        exact Or.inl (act_sim ..)
    · cases hStep
  | finish ready =>
    simp only [step] at hStep
    split at hStep
    · obtain rfl := Option.some.inj hStep
      exact Or.inl (act_sim ..)
    · cases hStep
  | pollMain =>
    obtain ⟨main, hControl, hQueue, rfl⟩ := pollMain_of_step hStep
    rcases pollMain_cases h hControl hQueue with ⟨-, hEq⟩ | ⟨-, hPending, hEq⟩ | ⟨-, -, hEq⟩
    · rw [hEq]
      exact Or.inl rfl
    · exact Or.inr (Or.inr ⟨rfl, hQueue, hPending, hEq⟩)
    · rw [hEq]
      exact Or.inl (unwind_sim ..)

/-- Waking tasks one after the other wakes each of them. -/
theorem phaseOf_foldl (events : List (Event Callback)) (t : Nat) :
    (events.foldl wakeFor x).phaseOf t =
      if ∃ e ∈ events, e.callback = .wake t then (x.phaseOf t).map fun p => p.wake.1
      else x.phaseOf t := by
  induction events generalizing x with
  | nil => rw [if_neg (by simp)]; rfl
  | cons e events ih =>
    rw [List.foldl_cons, ih]
    have hOnce : ∀ p : Phase, p.wake.1.wake.1 = p.wake.1 := fun p => by cases p <;> rfl
    cases hCallback : e.callback with
    | deliver dst message =>
      have hSame : x.wakeFor e = x := by
        unfold wakeFor
        rw [hCallback]
      rw [hSame]
      simp [hCallback]
    | wake task =>
      have hWake : x.wakeFor e = x.act task A.wake := by
        unfold wakeFor wake
        rw [hCallback]
      rw [hWake, phaseOf_act x task follows_wake]
      by_cases hTask : t = task
      · subst hTask
        simp [hCallback, Function.comp_def, hOnce]
      · simp [hCallback, hTask, Ne.symm hTask]

/-! ## The clock -/

/-- The clock and the tasks, at some moment of a run. -/
structure StandsStill (x : Executor A R Q) : Prop where
  /-- Only where `block_on` polls its task may the clock move. -/
  clock : ∀ turn x', x.step turn = some x' → turn ≠ .pollMain → x'.sim.time.clock = x.sim.time.clock
  /-- It gets there when no task is ready. -/
  ready : ∀ main, x.control = .blocking main → ((∃ x', x.step .pollMain = some x') ↔
    ∀ t p, x.phaseOf t = some p → p = .idle ∨ p = .completed ∨ p = .closed)
  /-- It returns once its task is completed. -/
  returns : ∀ main x', x.control = .blocking main → x.step .pollMain = some x' →
    (x'.control = .outside ↔ x.phaseOf main = some .completed)
  /-- It panics when its task waits and no timer is pending, and for no other reason. -/
  blocked : ∀ main x', x.control = .blocking main → x.step .pollMain = some x' →
    ∀ panic, (x'.control = .panicked panic ↔
      panic = noEvents ∧ x.phaseOf main = some .idle ∧ x.sim.time.pending = 0)
  /-- Otherwise the clock is set to what is due first, and who waits for that is
  scheduled. -/
  advances : ∀ main x', x.control = .blocking main → x.step .pollMain = some x' →
    x'.control = .blocking main → x.sim.time.FiresDue ∧ x'.sim = x.sim.advance ∧
      ∀ t, (∃ e ∈ x.sim.time.advance.2.1, e.callback = .wake t) → x.phaseOf t = some .idle →
        x'.phaseOf t = some .scheduled

/-- A task is in the queue while there is a runnable of it; else it is run, waits or is
over. -/
theorem unready_iff (h : x.Ready) {main : Nat} (hControl : x.control = .blocking main) :
    x.queue = [] ↔ ∀ t p, x.phaseOf t = some p → p = .idle ∨ p = .completed ∨ p = .closed := by
  constructor
  · intro hQueue t p hp
    have hNotQueued : p.queued ≠ true := fun hYes => by
      have hMem := (h.queued.iff t p hp).mp hYes
      rw [hQueue] at hMem
      cases hMem
    have hNotRun : p.runs ≠ true := fun hYes => by
      rcases h.placed.runs t p hp hYes with ⟨_, _, hElse⟩ | ⟨_, hElse⟩
      · cases hControl.symm.trans hElse
      · cases hControl.symm.trans hElse
    cases p with
    | idle => exact Or.inl rfl
    | completed => exact Or.inr (Or.inl rfl)
    | closed => exact Or.inr (Or.inr rfl)
    | scheduled | cancelled => exact absurd rfl hNotQueued
    | running | woken | aborting | dropping => exact absurd rfl hNotRun
  · intro hAll
    refine List.eq_nil_iff_forall_not_mem.mpr fun ⟨t, n⟩ hMem => ?_
    obtain ⟨p, hp⟩ := exists_phase (h.queued.info t n hMem)
    have hYes := (h.queued.iff t p hp).mpr (List.mem_map_of_mem hMem)
    rcases hAll t p hp with rfl | rfl | rfl <;> cases hYes

/-- No timer is added for an instant that is over. -/
def AddsAhead (x₀ : Executor A R Q) (turns : List (Turn R)) : Prop :=
  ∀ front deadline callback back y, turns = front ++ .call (.sim (.addTimer deadline callback)) :: back →
    exec step x₀ front = some y → y.sim.time.now ≤ deadline

theorem AddsAhead.front {x₀ : Executor A R Q} {front back : List (Turn R)}
    (h : AddsAhead x₀ (front ++ back)) : AddsAhead x₀ front := by
  intro begin deadline callback rest y hSplit hBegin
  exact h begin deadline callback (rest ++ back) y (by rw [hSplit]; simp) hBegin

theorem AddsAhead.at {x₀ : Executor A R Q} {front back : List (Turn R)} {turn : Turn R}
    (h : AddsAhead x₀ (front ++ turn :: back)) (hFront : exec step x₀ front = some x) :
    ∀ deadline callback, turn = .call (.sim (.addTimer deadline callback)) →
      x.sim.time.now ≤ deadline := by
  intro deadline callback hTurn
  exact h front deadline callback back x (by rw [hTurn]) hFront

theorem ahead_step {turn : Turn R} (h : x.Ready) (hStep : x.step turn = some x')
    (hAhead : x.sim.time.Ahead) (hAdds : ∀ deadline callback,
      turn = .call (.sim (.addTimer deadline callback)) → x.sim.time.now ≤ deadline) :
    x'.sim.time.Ahead ∧ x.sim.time.now ≤ x'.sim.time.now := by
  rcases step_sim h hStep with hSame | ⟨s, hNot, rfl, hSim⟩ | ⟨-, -, -, rfl⟩
  · rw [hSame]
    exact ⟨hAhead, le_rfl⟩
  · refine ⟨Simulation.ahead_of_step hAhead hSim fun deadline callback hEq =>
      hAdds deadline callback (by rw [hEq]), ?_⟩
    rcases Simulation.step_time hSim with ⟨hAdvance, -⟩ | ⟨-, hWaits, -⟩
    · exact absurd hAdvance hNot
    · unfold TimeRuntime.now
      rw [hWaits.clock]
  · rw [advance_sim]
    exact ⟨hAhead.advance.1, hAhead.advance.2.1⟩

theorem ahead_exec {rng : R.Rng} {base : Nat} {turns : List (Turn R)}
    (h : exec step (new A (Simulation.new Q rng base)) turns = some x)
    (hAdds : AddsAhead (new A (Simulation.new Q rng base)) turns) : x.sim.time.Ahead := by
  refine exec_trace (P := fun turns x =>
    AddsAhead (new A (Simulation.new Q rng base)) turns → x.sim.time.Ahead) ?_ ?_ h hAdds
  · intro _ e he
    rw [show (new A (Simulation.new Q rng base)).sim.time.pending = 0 from
      TimeRuntime.pending_new base] at he
    exact absurd he (Multiset.notMem_zero e)
  · intro turns y turn z hExec hBefore hStep hAdds
    exact (ahead_step (ready_exec hExec) hStep (hBefore hAdds.front) (hAdds.at hExec)).1

/-- The clock does not go back. -/
theorem now_mono {rng : R.Rng} {base : Nat} {front back : List (Turn R)}
    (h : exec step (new A (Simulation.new Q rng base)) front = some x)
    (hBack : exec step x back = some x')
    (hAdds : AddsAhead (new A (Simulation.new Q rng base)) (front ++ back)) :
    x.sim.time.now ≤ x'.sim.time.now := by
  induction back generalizing front x with
  | nil => exact Option.some.inj hBack ▸ le_rfl
  | cons turn back ih =>
    obtain ⟨y, hStep, hRest⟩ := exec_cons_iff.mp hBack
    have hNext := (ahead_step (ready_exec h) hStep (ahead_exec h hAdds.front) (hAdds.at h)).2
    have hToY := exec_snoc_iff.mpr ⟨x, h, hStep⟩
    refine hNext.trans (ih hToY hRest ?_)
    rw [List.append_assoc]
    exact hAdds

/-- What is done to a task may put it behind the queue. -/
theorem queue_act_append (x : Executor A R Q) (t : Nat) {f : A.Task → A.Task × Bool}
    {g : Phase → Phase × Bool} (hf : Follows f g) : ∃ more, (x.act t f).queue = x.queue ++ more := by
  rcases queue_act x t hf with ⟨hSame, -⟩ | ⟨p, n, -, -, -, hMore⟩
  · exact ⟨[], by rw [hSame, List.append_nil]⟩
  · exact ⟨_, hMore⟩

/-- What never schedules leaves the queue. -/
theorem queue_act_same (x : Executor A R Q) (t : Nat) {f : A.Task → A.Task × Bool}
    {g : Phase → Phase × Bool} (hf : Follows f g) (hg : ∀ p, (g p).2 = false) :
    (x.act t f).queue = x.queue := by
  rcases queue_act x t hf with ⟨hSame, -⟩ | ⟨p, n, -, -, hYes, -⟩
  · exact hSame
  · cases (hg p).symm.trans hYes

theorem queue_foldl (events : List (Event Callback)) :
    ∃ more, (events.foldl wakeFor x).queue = x.queue ++ more := by
  induction events generalizing x with
  | nil => exact ⟨[], (List.append_nil _).symm⟩
  | cons e events ih =>
    obtain ⟨later, hLater⟩ := ih (x := x.wakeFor e)
    obtain ⟨first, hFirst⟩ : ∃ first, (x.wakeFor e).queue = x.queue ++ first := by
      unfold wakeFor
      split
      · exact queue_act_append x _ follows_wake
      · exact ⟨[], (List.append_nil _).symm⟩
    exact ⟨first ++ later, by rw [List.foldl_cons, hLater, hFirst, List.append_assoc]⟩

theorem unwind_queue (x : Executor A R Q) (panic : Panic) : (x.unwind panic).queue = x.queue := by
  unfold unwind
  split <;> rfl

/-- **What a turn does to the queue**: it puts runnables behind it, or takes the first. -/
theorem step_queue {turn : Turn R} (h : x.Ready) (hStep : x.step turn = some x') :
    (∃ more, x'.queue = x.queue ++ more) ∨
      ∃ first, turn = .runNext ∧ x.queue = first :: x'.queue := by
  have hSame : ∀ {y : Executor A R Q}, y.queue = x.queue → ∃ more, y.queue = x.queue ++ more :=
    fun hQueue => ⟨[], by rw [hQueue, List.append_nil]⟩
  cases turn with
  | call c =>
    refine Or.inl ?_
    rcases (step_call hStep).2 with hCall | ⟨panic, -, rfl⟩
    · cases c with
      | localHandle addr | kill addr =>
        obtain rfl := Except.ok.inj (Option.some.inj hCall)
        exact hSame rfl
      | spawnOn info =>
        simp only [call] at hCall
        split at hCall
        · obtain rfl := Except.ok.inj (Option.some.inj hCall)
          exact ⟨_, rfl⟩
        · cases hCall
      | spawn =>
        simp only [call] at hCall
        split at hCall
        · cases hCall
        · obtain rfl := Except.ok.inj (Option.some.inj hCall)
          exact ⟨_, rfl⟩
      | wake task =>
        obtain rfl := Except.ok.inj (Option.some.inj hCall)
        exact queue_act_append x task follows_wake
      | cancel task =>
        simp only [call] at hCall
        split at hCall
        · cases hCall
        · obtain rfl := Except.ok.inj (Option.some.inj hCall)
          exact queue_act_append x task follows_cancel
      | sim s =>
        obtain ⟨-, sim, -, rfl⟩ := call_sim hCall
        exact hSame rfl
    · exact hSame (unwind_queue x panic)
  | blockOn =>
    simp only [step] at hStep
    split at hStep
    · obtain rfl := Option.some.inj hStep
      exact Or.inl ⟨_, rfl⟩
    · cases hStep
  | runNext =>
    simp only [step] at hStep
    split at hStep
    · rename_i main task info queue hControl hQueue
      obtain rfl := Option.some.inj hStep
      refine Or.inr ⟨(task, info), rfl, ?_⟩
      obtain ⟨i, p, -, -, -, -, hCases⟩ := runNext_cases h main hQueue
      rw [hQueue]
      rcases hCases with ⟨-, hEq⟩ | ⟨-, hEq⟩
      · rw [hEq, queue_act_same _ _ follows_drop fun _ => rfl]
      · rw [hEq]
        exact congrArg (List.cons (task, info))
          (queue_act_same ({ x with queue } : Executor A R Q) task follows_run fun _ => rfl).symm
    · cases hStep
  | finish ready =>
    simp only [step] at hStep
    split at hStep
    · obtain rfl := Option.some.inj hStep
      exact Or.inl (queue_act_append x _ (follows_finish ready))
    · cases hStep
  | pollMain =>
    obtain ⟨main, hControl, hQueue, rfl⟩ := pollMain_of_step hStep
    refine Or.inl ?_
    rcases pollMain_cases h hControl hQueue with ⟨-, hEq⟩ | ⟨-, -, hEq⟩ | ⟨-, -, hEq⟩
    · rw [hEq]
      exact hSame rfl
    · rw [hEq]
      exact queue_foldl (x := { x with sim := x.sim.advance }) _
    · rw [hEq]
      exact hSame (unwind_queue x noEvents)

/-- A pending timer goes away when the clock is advanced to it, and its task is
scheduled then if it waits. -/
theorem fires_of_step {turn : Turn R} (h : x.Ready) (hStep : x.step turn = some x')
    (hAhead : x.sim.time.Ahead) {e : Event Callback} (he : e ∈ x.sim.time.pending)
    (hGone : e ∉ x'.sim.time.pending) :
    turn = .pollMain ∧ x.queue = [] ∧ x' = x.advance ∧ e ∈ x.sim.time.advance.2.1 ∧
      x'.sim.time.now = e.deadline := by
  have hSplits := x.sim.time.firesDue.splits
  rcases step_sim h hStep with hSame | ⟨s, hNot, rfl, hSim⟩ | ⟨hTurn, hQueue, -, rfl⟩
  · exact absurd (hSame ▸ he) hGone
  · rcases Simulation.step_time hSim with ⟨hAdvance, -⟩ | ⟨-, hWaits, -⟩
    · exact absurd hAdvance hNot
    · exact absurd (Multiset.mem_of_le hWaits.pending he) hGone
  · rw [advance_sim] at hGone ⊢
    rw [hSplits, Multiset.mem_add, Multiset.mem_coe] at he
    have hFired := he.resolve_right hGone
    exact ⟨hTurn, hQueue, rfl, hFired, (hAhead.advance.2.2 e hFired).2⟩

/-- The clock moves where `block_on` advances, with nothing in the queue. -/
theorem queue_of_clock {turn : Turn R} (h : x.Ready) (hStep : x.step turn = some x')
    (hMoves : x.sim.time.now ≠ x'.sim.time.now) : x.queue = [] := by
  rcases step_sim h hStep with hSame | ⟨s, hNot, rfl, hSim⟩ | ⟨-, hQueue, -⟩
  · exact absurd (by rw [hSame]) hMoves
  · rcases Simulation.step_time hSim with ⟨hAdvance, -⟩ | ⟨-, hWaits, -⟩
    · exact absurd hAdvance hNot
    · exact absurd (by unfold TimeRuntime.now; rw [hWaits.clock]) hMoves
  · exact hQueue

/-! ## Turns for who waits -/

/-- While the clock is at the deadline, the task has its turn, or is over. -/
def HasTurn (x : Executor A R Q) (more : List (Turn R)) (deadline t n : Nat) : Prop :=
  ∃ front back y, more = front ++ back ∧ exec step x front = some y ∧
    y.sim.time.now = deadline ∧
      (y.phaseOf t = some .completed ∨ y.phaseOf t = some .closed ∨
        (∃ rest, back = .runNext :: rest) ∧ ∃ queue, y.queue = (t, n) :: queue)

end Executor

end Stratamoto.Dst
