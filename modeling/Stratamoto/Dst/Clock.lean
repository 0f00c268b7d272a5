import Stratamoto.Dst.Network

/-!
# Stratamoto — the simulated clock

What the steps of a simulation do to its time. A send and a poll register
deadlines that are not before now; only `add_timer` takes any deadline, and
`advance` sets the clock to whatever comes next.

* `step_time` — what one step does;
* `NeverBack` — the clock does not go back in a run;
* `never_back_iff` — in which runs it does not.
-/

namespace Stratamoto.Dst

open PriorityQueue

namespace Simulation

variable {R : Rand} {Q : TimerQueue Callback}

/-! ## One step -/

/-- What a step that is not an advance does to the time. -/
structure Waits (t t' : TimeRuntime Q) : Prop where
  clock : t'.clock = t.clock
  pending : t.pending ≤ t'.pending

theorem Waits.refl (t : TimeRuntime Q) : Waits t t := ⟨rfl, le_rfl⟩

theorem Waits.addTimer (t : TimeRuntime Q) (deadline : Nat) (callback : Callback) :
    Waits t (t.addTimer deadline callback) where
  clock := rfl
  pending := by
    rw [TimeRuntime.pending_addTimer]
    exact Multiset.le_cons_self _ _

theorem send_time {w w' : Simulation R Q} {src dst : SocketAddr} {tag : UInt64}
    {data : List UInt8} (h : w.send src dst tag data = .ok w') :
    w'.time = w.time ∨
      ∃ latency callback, w'.time = w.time.addTimer (w.time.now + latency) callback := by
  -- no endpoint, dropped, lost, or on its way
  unfold send at h
  split at h
  · cases h
  · split at h
    · cases h
      exact Or.inl rfl
    · simp only at h
      split at h
      · cases h
        exact Or.inl rfl
      · cases h
        exact Or.inr ⟨_, _, rfl⟩

/-- **What one step does**: it advances the clock, or leaves it; and only a timer
that is added can have a deadline that has been passed. -/
theorem step_time {w w' : Simulation R Q} {step : Step R} (h : w.step step = .ok w') :
    (step = .advance ∧ w'.time = w.time.advance.1) ∨
      (step ≠ .advance ∧ Waits w.time w'.time ∧
        (w.time.InTime → (∀ deadline callback, step = .addTimer deadline callback →
          ¬ w.time.Passed deadline) → w'.time.InTime)) := by
  cases step with
  | sendTo src dst tag data =>
    refine Or.inr ⟨by simp, ?_⟩
    rcases send_time h with hTime | ⟨latency, callback, hTime⟩
    · rw [hTime]
      exact ⟨.refl _, fun hInTime _ => hInTime⟩
    · rw [hTime]
      -- a latency reaches into the future
      refine ⟨.addTimer _ _ _, fun hInTime _ => hInTime.addTimer ?_ callback⟩
      exact TimeRuntime.not_passed_of_now_le (Nat.le_add_right _ _)
  | addTimer deadline callback =>
    obtain rfl := Except.ok.inj h
    refine Or.inr ⟨by simp, .addTimer _ _ _, fun hInTime hNot => ?_⟩
    -- the only deadline that nothing bounds from below
    exact hInTime.addTimer (hNot deadline callback rfl) callback
  | pollSleepUntil deadline waker =>
    obtain rfl := Except.ok.inj h
    refine Or.inr ⟨by simp, ?_, fun hInTime _ => hInTime.pollSleepUntil deadline (.wake waker)⟩
    rcases w.time.pollSleepUntil_cases deadline (.wake waker) with ⟨-, hPoll⟩ | ⟨-, hPoll⟩
    · simp only [hPoll]
      exact .refl _
    · simp only [hPoll]
      exact .addTimer _ _ _
  | advance =>
    obtain rfl := Except.ok.inj h
    exact Or.inl ⟨rfl, rfl⟩
  | localHandle addr =>
    obtain rfl := Except.ok.inj h
    exact Or.inr ⟨by simp, .refl _, fun hInTime _ => hInTime⟩
  | connect addr =>
    obtain rfl := Except.ok.inj h
    exact Or.inr ⟨by simp, .refl _, fun hInTime _ => hInTime⟩
  | disconnect addr =>
    obtain rfl := Except.ok.inj h
    exact Or.inr ⟨by simp, .refl _, fun hInTime _ => hInTime⟩
  | setPacketLossRate rate =>
    obtain rfl := Except.ok.inj h
    exact Or.inr ⟨by simp, .refl _, fun hInTime _ => hInTime⟩

/-! ## Runs -/

/-- The clock does not go back at any step. -/
def NeverBack (w : Simulation R Q) : List (Step R) → Prop
  | [] => True
  | step :: steps => ∀ w', w.step step = .ok w' →
    w.time.elapsed ≤ w'.time.elapsed ∧ w.time.now ≤ w'.time.now ∧ w'.NeverBack steps

/-- A timer that is added with a deadline that the clock has passed is not
followed by an advance. -/
def AddsInTime (w : Simulation R Q) : List (Step R) → Prop
  | [] => True
  | step :: steps =>
    (∀ deadline callback, step = .addTimer deadline callback → w.time.Passed deadline →
      Step.advance ∉ steps) ∧ ∀ w', w.step step = .ok w' → w'.AddsInTime steps

/-- Without an advance the clock stands still. -/
theorem neverBack_of_no_advance {w : Simulation R Q} {steps : List (Step R)}
    (h : Step.advance ∉ steps) : w.NeverBack steps := by
  induction steps generalizing w with
  | nil => trivial
  | cons step steps ih =>
    intro w' hStep
    obtain ⟨hFirst, hRest⟩ := not_or.mp (mt List.mem_cons.mpr h)
    rcases step_time hStep with ⟨hAdvance, -⟩ | ⟨-, hWaits, -⟩
    · exact absurd hAdvance.symm hFirst
    · unfold TimeRuntime.elapsed TimeRuntime.now
      rw [hWaits.clock]
      exact ⟨le_rfl, le_rfl, ih hRest⟩

/-- A deadline that has been passed takes the clock back at the next advance. -/
theorem not_neverBack_of_passed {w w' : Simulation R Q} {steps : List (Step R)}
    {e : Event Callback} (he : e ∈ w.time.pending) (hPassed : w.time.Passed e.deadline)
    (hRun : w.run steps = .ok w') (hAdvance : Step.advance ∈ steps) : ¬ w.NeverBack steps := by
  induction steps generalizing w with
  | nil => cases hAdvance
  | cons step steps ih =>
    intro hNever
    obtain ⟨w₁, hStep, hRest⟩ := run_cons hRun
    obtain ⟨hElapsed, -, hNeverRest⟩ := hNever w₁ hStep
    -- the first advance takes the clock back, and until then the timer stays
    rcases step_time hStep with ⟨-, hTime⟩ | ⟨hOther, hWaits, -⟩
    · have hBack := TimeRuntime.advance_of_passed he hPassed
      rw [← hTime] at hBack
      exact absurd hElapsed (Nat.not_le.mpr hBack)
    · have hLater : Step.advance ∈ steps :=
        (List.mem_cons.mp hAdvance).resolve_left (Ne.symm hOther)
      refine ih (Multiset.mem_of_le hWaits.pending he) ?_ hRest hLater hNeverRest
      unfold TimeRuntime.Passed TimeRuntime.elapsed
      rw [hWaits.clock]
      exact hPassed

theorem addsInTime_of_no_advance {w : Simulation R Q} {steps : List (Step R)}
    (h : Step.advance ∉ steps) : w.AddsInTime steps := by
  induction steps generalizing w with
  | nil => trivial
  | cons step steps ih =>
    have hRest := (not_or.mp (mt List.mem_cons.mpr h)).2
    exact ⟨fun _ _ _ _ => hRest, fun _ _ => ih hRest⟩

/-- A step does not take the clock back, and what is pending stays in time unless
the step adds a deadline that has been passed. -/
theorem step_inTime {w w' : Simulation R Q} {step : Step R} (hInTime : w.time.InTime)
    (h : w.step step = .ok w') :
    w.time.elapsed ≤ w'.time.elapsed ∧ w.time.now ≤ w'.time.now ∧
      (w'.time.InTime ∨
        ∃ deadline callback, step = .addTimer deadline callback ∧ w.time.Passed deadline) := by
  rcases step_time h with ⟨-, hTime⟩ | ⟨-, hWaits, hKeeps⟩
  · obtain ⟨hInTime', hElapsed⟩ := hInTime.advance
    rw [hTime]
    refine ⟨hElapsed, ?_, Or.inl hInTime'⟩
    show w.time.clock.base + w.time.elapsed ≤
      w.time.advance.1.clock.base + w.time.advance.1.elapsed
    -- now is the elapsed time from a base that stays
    rw [w.time.base_advance]
    omega
  · unfold TimeRuntime.elapsed TimeRuntime.now
    rw [hWaits.clock]
    refine ⟨le_rfl, le_rfl, ?_⟩
    by_cases hAdds : ∃ deadline callback, step = .addTimer deadline callback ∧
        w.time.Passed deadline
    · exact Or.inr hAdds
    · exact Or.inl (hKeeps hInTime fun deadline callback hStep hPassed =>
        hAdds ⟨deadline, callback, hStep, hPassed⟩)

/-- A run from a time at which no deadline has been passed. -/
theorem neverBack_iff_of_inTime {w w' : Simulation R Q} {steps : List (Step R)}
    (hInTime : w.time.InTime) (hRun : w.run steps = .ok w') :
    w.NeverBack steps ↔ w.AddsInTime steps := by
  induction steps generalizing w with
  | nil => exact ⟨fun _ => trivial, fun _ => trivial⟩
  | cons step steps ih =>
    obtain ⟨w₁, hStep, hRest⟩ := run_cons hRun
    obtain ⟨hElapsed, hNow, hNext⟩ := step_inTime hInTime hStep
    have hSame : ∀ w₂, w.step step = .ok w₂ → w₂ = w₁ := fun w₂ hStep₂ =>
      Except.ok.inj (hStep₂.symm.trans hStep)
    constructor
    · intro hNever
      -- what is added late is pending until the clock is advanced to it
      have hNeverRest := (hNever w₁ hStep).2.2
      have hPast : ∀ deadline callback, step = .addTimer deadline callback →
          w.time.Passed deadline → Step.advance ∉ steps := by
        intro deadline callback hAdds hPassed hAdvance
        subst hAdds
        obtain rfl := Except.ok.inj hStep
        have hMem : ⟨deadline, callback⟩ ∈ (w.time.addTimer deadline callback).pending := by
          rw [TimeRuntime.pending_addTimer]
          exact Multiset.mem_cons_self _ _
        exact not_neverBack_of_passed
          (w := { w with time := w.time.addTimer deadline callback }) hMem hPassed hRest
          hAdvance hNeverRest
      refine ⟨hPast, fun w₂ hStep₂ => ?_⟩
      rw [hSame w₂ hStep₂]
      rcases hNext with hInTime₁ | ⟨deadline, callback, hAdds, hPassed⟩
      · exact (ih hInTime₁ hRest).mp hNeverRest
      · exact addsInTime_of_no_advance (hPast deadline callback hAdds hPassed)
    · intro hAddsInTime w₂ hStep₂
      rw [hSame w₂ hStep₂]
      refine ⟨hElapsed, hNow, ?_⟩
      -- either the invariant goes on, or no advance is to come
      rcases hNext with hInTime₁ | ⟨deadline, callback, hAdds, hPassed⟩
      · exact (ih hInTime₁ hRest).mpr (hAddsInTime.2 w₁ hStep)
      · exact neverBack_of_no_advance (hAddsInTime.1 deadline callback hAdds hPassed)

/-- **When the clock never goes back**: no timer is added with a deadline that the
clock has passed, unless the clock is not advanced any more. -/
theorem never_back_iff (Q : TimerQueue Callback) (rng : R.Rng) (base : Nat)
    (steps : List (Step R)) (hRun : ∃ w, (new Q rng base).run steps = .ok w) :
    (new Q rng base).NeverBack steps ↔ (new Q rng base).AddsInTime steps := by
  obtain ⟨w, hRun⟩ := hRun
  refine neverBack_iff_of_inTime (fun e he => ?_) hRun
  rw [show (new Q rng base).time.pending = 0 from TimeRuntime.pending_new base] at he
  exact absurd he (Multiset.notMem_zero e)

/-- A timer that is waited for. -/
theorem never_back_iff_oneTimer :
    (new (Queue.scanning Event.deadline) () 0 : Simulation steady _).NeverBack
      [.addTimer 5 (.wake 0), .advance] := by
  refine (never_back_iff (R := steady) (Queue.scanning Event.deadline) () 0
    [.addTimer 5 (.wake 0), .advance] ⟨_, rfl⟩).mpr ?_
  refine ⟨fun deadline callback hStep hPassed => ?_, fun w hStep => ?_⟩
  · obtain ⟨rfl, -⟩ := Step.addTimer.inj hStep
    exact absurd hPassed (by decide)
  · refine ⟨fun deadline callback hAdds => ?_, fun w' _ => trivial⟩
    cases hAdds

/-- A timer that is added for an instant that is over takes the clock back to it. -/
theorem past_timer_takes_clock_back :
    ¬ (new (Queue.scanning Event.deadline) () 0 : Simulation steady _).NeverBack
      [.addTimer 5 (.wake 0), .advance, .addTimer 3 (.wake 1), .advance] := by
  intro hNever
  have hLast := (((hNever _ rfl).2.2 _ rfl).2.2 _ rfl).2.2 _ rfl
  exact absurd hLast.1 (by decide)

end Simulation

end Stratamoto.Dst
