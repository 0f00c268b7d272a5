import Mathlib.Order.Defs.LinearOrder
import Mathlib.Order.Nat
import Stratamoto.Library.PriorityQueue

/-!
# Stratamoto — simulated time

`time/mod.rs` and `time/timer.rs`: a timer is a queue of callbacks with their
deadlines, and a runtime advances its clock from one deadline to the next. The
queue of the source is a `BinaryHeap`, of which only is known that it hands out
an earliest event; here it is any queue that does (`TimerQueue`). A callback is
what it stands for: firing it is left to who advances the clock.

Instants and durations are in nanoseconds, and do not run out. The clock begins
at some instant, and there are instants before it.

* `advance_cases` — what `advance` does, in full;
* `InTime.addTimer`, `InTime.advance` — deadlines that have not been passed, and
  the clock then;
* `advance_of_passed` — one that has been takes the clock back.
-/

namespace Stratamoto.Dst

open PriorityQueue

/-! ## `time/timer.rs` -/

/-- A callback to be called at its deadline. -/
structure Event (κ : Type) where
  deadline : Nat
  callback : κ
  deriving DecidableEq, Repr

/-- Events are ordered by their deadlines alone. -/
abbrev TimerQueue (κ : Type) := Queue (Event.deadline : Event κ → Nat)

namespace Timer

variable {κ : Type} (Q : TimerQueue κ)

def push (queue : Q.Carrier) (deadline : Nat) (callback : κ) : Q.Carrier :=
  Q.push queue { deadline, callback }

def nextTime (queue : Q.Carrier) : Option Nat := (Q.peek queue).map Event.deadline

/-- Call what is due at `time`, one after another; a turn for each event is
enough. -/
def fire (queue : Q.Carrier) (time : Nat) : List (Event κ) × Q.Carrier :=
  Q.drain time (Q.items queue).card queue

end Timer

/-! ## `time/mod.rs` -/

structure Clock where
  base : Nat
  advance : Nat
  deriving DecidableEq, Repr

namespace Clock

/-- `duration_since` saturates at zero. -/
def set (c : Clock) (time : Nat) : Clock := { c with advance := time - c.base }

def now (c : Clock) : Nat := c.base + c.advance

def elapsed (c : Clock) : Nat := c.advance

end Clock

structure TimeRuntime {κ : Type} (Q : TimerQueue κ) where
  timer : Q.Carrier
  clock : Clock

namespace TimeRuntime

variable {κ : Type} {Q : TimerQueue κ}

/-- The runtime that starts at the instant `base`. -/
def new (Q : TimerQueue κ) (base : Nat) : TimeRuntime Q where
  timer := Q.empty
  clock := { base, advance := 0 }

def elapsed (t : TimeRuntime Q) : Nat := t.clock.elapsed

def now (t : TimeRuntime Q) : Nat := t.clock.now

def addTimer (t : TimeRuntime Q) (deadline : Nat) (callback : κ) : TimeRuntime Q :=
  { t with timer := Timer.push Q t.timer deadline callback }

/-- Poll a sleep: it is over, or the waker is called at its deadline. -/
def pollSleepUntil (t : TimeRuntime Q) (deadline : Nat) (waker : κ) : TimeRuntime Q × Bool :=
  if deadline ≤ t.now then (t, true) else (t.addTimer deadline waker, false)

/-- Advance the clock to the next deadline, with the events that fire then. -/
def advance (t : TimeRuntime Q) : TimeRuntime Q × List (Event κ) × Bool :=
  match Timer.nextTime Q t.timer with
  | none => (t, [], false)
  | some time =>
    let (fired, timer) := Timer.fire Q t.timer time
    ({ timer, clock := t.clock.set time }, fired, true)

/-- The events that are pending. -/
def pending (t : TimeRuntime Q) : Multiset (Event κ) := Q.items t.timer

section Steps

variable (t : TimeRuntime Q) (deadline : Nat) (callback : κ)

@[simp] theorem pending_new (base : Nat) : (new Q base).pending = 0 := Q.items_empty

@[simp] theorem pending_addTimer :
    (t.addTimer deadline callback).pending = ⟨deadline, callback⟩ ::ₘ t.pending :=
  Q.items_push _ _

@[simp] theorem clock_addTimer : (t.addTimer deadline callback).clock = t.clock := rfl

/-- **What `advance` does**: nothing, if nothing is pending; otherwise it sets the
clock to the earliest deadline and fires what has that deadline, and nothing
else. -/
theorem advance_cases :
    (t.pending = 0 ∧ t.advance = (t, [], false)) ∨
      ∃ time fired t', t.advance = (t', fired, true) ∧ fired ≠ [] ∧
        t.pending = (fired : Multiset (Event κ)) + t'.pending ∧
        (∀ e ∈ fired, e.deadline = time) ∧ (∀ e ∈ t'.pending, time < e.deadline) ∧
        t'.clock = t.clock.set time := by
  unfold advance Timer.nextTime Queue.peek
  -- `next_time` and the first turn of `fire` look at the same event
  cases hPop : Q.pop t.timer with
  | none => exact Or.inl ⟨Q.pop_none _ hPop, rfl⟩
  | some p =>
    obtain ⟨first, rest⟩ := p
    have hDrained := Q.drain_drained first.deadline (Nat.le_refl (Q.items t.timer).card)
    have hLe : ∀ e ∈ t.pending, first.deadline ≤ e.deadline := fun e he =>
      Queue.le_of_pop hPop he
    refine Or.inr ⟨first.deadline, _, _, rfl, ?_, hDrained.items, ?_, hDrained.lt, rfl⟩
    · -- the first event is not past its own deadline
      intro hNone
      have hMem : first ∈ Q.items t.timer := by
        rw [(Q.pop_some _ _ _ hPop).1]
        exact Multiset.mem_cons_self _ _
      have hItems := hDrained.items
      rw [hNone, Multiset.coe_nil, Multiset.zero_add] at hItems
      exact Nat.lt_irrefl _ (hDrained.lt first (hItems ▸ hMem))
    · intro e he
      refine Nat.le_antisymm (hDrained.le e he) (hLe e ?_)
      show e ∈ Q.items t.timer
      rw [hDrained.items]
      exact Multiset.mem_add.mpr (Or.inl (Multiset.mem_coe.mpr he))

theorem base_advance : t.advance.1.clock.base = t.clock.base := by
  rcases t.advance_cases with ⟨-, hNone⟩ | ⟨time, fired, t', hAdvance, -, -, -, -, hClock⟩
  · rw [hNone]
  · rw [hAdvance]
    show t'.clock.base = t.clock.base
    rw [hClock]
    rfl

/-- An advance takes something, as long as there is something. -/
theorem card_pending_advance : t.advance.1.pending.card ≤ t.pending.card - 1 := by
  rcases t.advance_cases with ⟨hNone, hAdvance⟩ | ⟨_, fired, t', hAdvance, hFired, hPending, -⟩
  · rw [hAdvance, hNone]
    exact Nat.zero_le _
  · have hPos := List.length_pos_iff.mpr hFired
    rw [hAdvance, hPending, Multiset.card_add, Multiset.coe_card]
    dsimp only
    omega

theorem pollSleepUntil_cases (waker : κ) :
    (deadline ≤ t.now ∧ t.pollSleepUntil deadline waker = (t, true)) ∨
      (t.now < deadline ∧
        t.pollSleepUntil deadline waker = (t.addTimer deadline waker, false)) := by
  unfold pollSleepUntil
  by_cases hOver : deadline ≤ t.now
  · exact Or.inl ⟨hOver, if_pos hOver⟩
  · exact Or.inr ⟨Nat.not_le.mp hOver, if_neg hOver⟩

end Steps

/-! ## Deadlines in the past -/

/-- The clock has passed the deadline. The instants before the clock began all
count as the one at which it began. -/
def Passed (t : TimeRuntime Q) (deadline : Nat) : Prop := deadline - t.clock.base < t.elapsed

instance (t : TimeRuntime Q) (deadline : Nat) : Decidable (t.Passed deadline) :=
  inferInstanceAs (Decidable (_ < _))

/-- No deadline that is pending has been passed. -/
def InTime (t : TimeRuntime Q) : Prop := ∀ e ∈ t.pending, ¬ t.Passed e.deadline

variable {t : TimeRuntime Q} {deadline : Nat}

/-- What is not before now has not been passed. -/
theorem not_passed_of_now_le (h : t.now ≤ deadline) : ¬ t.Passed deadline := by
  unfold Passed elapsed Clock.elapsed
  unfold now Clock.now at h
  omega

theorem InTime.addTimer (hTime : t.InTime) (h : ¬ t.Passed deadline) (callback : κ) :
    (t.addTimer deadline callback).InTime := by
  intro e he
  rw [pending_addTimer, Multiset.mem_cons] at he
  rcases he with rfl | he
  · exact h
  · exact hTime e he

theorem InTime.pollSleepUntil (hTime : t.InTime) (deadline : Nat) (waker : κ) :
    (t.pollSleepUntil deadline waker).1.InTime := by
  rcases t.pollSleepUntil_cases deadline waker with ⟨-, hPoll⟩ | ⟨hLater, hPoll⟩
  · rw [hPoll]
    exact hTime
  · rw [hPoll]
    exact hTime.addTimer (not_passed_of_now_le (Nat.le_of_lt hLater)) waker

/-- Advancing to a deadline that has not been passed keeps the others so, and
does not take the clock back. -/
theorem InTime.advance (hTime : t.InTime) :
    t.advance.1.InTime ∧ t.elapsed ≤ t.advance.1.elapsed := by
  rcases t.advance_cases with ⟨-, hNone⟩ |
    ⟨time, fired, t', hAdvance, hFired, hPending, hDue, hRest, hClock⟩
  · rw [hNone]
    exact ⟨hTime, Nat.le_refl _⟩
  · rw [hAdvance]
    obtain ⟨e, he⟩ := List.exists_mem_of_ne_nil fired hFired
    have hMem : e ∈ t.pending := by
      rw [hPending]
      exact Multiset.mem_add.mpr (Or.inl (Multiset.mem_coe.mpr he))
    -- what fires was not late, so its deadline is where the clock moves on to
    have hNot := hTime e hMem
    rw [hDue e he] at hNot
    refine ⟨fun e' he' hPassed => ?_, ?_⟩
    · have hLater := hRest e' he'
      unfold Passed elapsed at hPassed
      rw [hClock] at hPassed
      simp only [Clock.set, Clock.elapsed] at hPassed
      omega
    · show t.clock.advance ≤ t'.clock.advance
      rw [hClock]
      exact Nat.not_lt.mp hNot

/-- **A deadline in the past takes the clock back.** -/
theorem advance_of_passed {e : Event κ} (he : e ∈ t.pending) (h : t.Passed e.deadline) :
    t.advance.1.elapsed < t.elapsed := by
  rcases t.advance_cases with ⟨hNone, -⟩ |
    ⟨time, fired, t', hAdvance, -, hPending, hDue, hRest, hClock⟩
  · rw [hNone] at he
    exact absurd he (Multiset.notMem_zero e)
  · -- the clock is set to the earliest deadline, which is no later
    have hLe : time ≤ e.deadline := by
      rw [hPending, Multiset.mem_add, Multiset.mem_coe] at he
      rcases he with he | he
      · exact Nat.le_of_eq (hDue e he).symm
      · exact Nat.le_of_lt (hRest e he)
    rw [hAdvance]
    show t'.clock.advance < t.clock.advance
    unfold Passed elapsed Clock.elapsed at h
    rw [hClock]
    simp only [Clock.set]
    omega

end TimeRuntime

end Stratamoto.Dst
