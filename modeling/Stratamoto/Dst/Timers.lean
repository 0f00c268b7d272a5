import Mathlib.Data.Multiset.Count
import Stratamoto.Dst.Clock

/-!
# Stratamoto — timers that fire

The order of the events in `time/timer.rs`, and runs of `add_timer` and
`advance` in any order. A callback is known by the call that registered it.

* `timers` — a heap of events, in the order of the source, is a queue of timers;
* `Timely` — what holds after every call of a run whose deadlines are not past;
* `fires_once` — every callback fires once, when the clock gets to its deadline;
* `advance_on_time` — so a sleep and a message of a simulation are on time.
-/

namespace Stratamoto.Dst

open PriorityQueue

/-! ## The order of the events -/

/-- `Ord for Event`: the deadlines alone, the other way round. -/
def Event.cmp {κ : Type} (e other : Event κ) : Ordering := compare other.deadline e.deadline

theorem Event.isLE_cmp_iff {κ : Type} {e other : Event κ} :
    (e.cmp other).isLE = true ↔ other.deadline ≤ e.deadline := by
  rw [Event.cmp, Nat.isLE_compare]

/-- The greatest event is one of the earliest, so a `BinaryHeap` of events hands
out those that are due first. -/
def timers {κ : Type} (H : Heap (Event.cmp : Event κ → Event κ → Ordering)) : TimerQueue κ :=
  H.queue fun _ _ => Event.isLE_cmp_iff.mp

/-! ## Calls -/

inductive TimerCall where
  | addTimer (deadline : Nat)
  | advance
  deriving DecidableEq, Repr

namespace TimeRuntime

section Calls

variable {Q : TimerQueue Nat}

/-- The `n`th call, and what it fires. -/
def call (t : TimeRuntime Q) (n : Nat) : TimerCall → TimeRuntime Q × List (Event Nat)
  | .addTimer deadline => (t.addTimer deadline n, [])
  | .advance =>
    let (t, fired, _) := t.advance
    (t, fired)

/-- The runtime after the first `n` calls. -/
def after (t : TimeRuntime Q) (calls : List TimerCall) : Nat → TimeRuntime Q
  | 0 => t
  | n + 1 =>
    match calls[n]? with
    | none => t.after calls n
    | some call => ((t.after calls n).call n call).1

/-- What the `n`th call fires. -/
def firedBy (t : TimeRuntime Q) (calls : List TimerCall) (n : Nat) : List (Event Nat) :=
  match calls[n]? with
  | none => []
  | some call => ((t.after calls n).call n call).2

/-- What the first `n` calls fire, in order. -/
def firedIn (t : TimeRuntime Q) (calls : List TimerCall) (n : Nat) : List (Event Nat) :=
  (List.range n).flatMap (t.firedBy calls)

end Calls

/-! ## One advance -/

section Advance

variable {κ : Type} {Q : TimerQueue κ}

/-- What an advance does: it answers whether anything is pending, fires what is
pending with the least deadline, and leaves the rest. -/
structure FiresDue (t : TimeRuntime Q) : Prop where
  idle : t.advance.2.2 = false ↔ t.pending = 0
  unchanged : t.pending = 0 → t.advance = (t, [], false)
  splits : t.pending = (t.advance.2.1 : Multiset (Event κ)) + t.advance.1.pending
  due : ∀ e, e ∈ t.advance.2.1 ↔ e ∈ t.pending ∧ ∀ e' ∈ t.pending, e.deadline ≤ e'.deadline

theorem firesDue (t : TimeRuntime Q) : t.FiresDue := by
  rcases t.advance_cases with ⟨hPending, hAdvance⟩ |
    ⟨time, fired, t', hAdvance, hFired, hPending, hDue, hRest, -⟩
  · refine ⟨?_, fun _ => hAdvance, ?_, fun e => ?_⟩
    · rw [hAdvance]
      exact iff_of_true rfl hPending
    · rw [hAdvance]
      exact (Multiset.zero_add _).symm
    · rw [hAdvance, hPending]
      exact iff_of_false List.not_mem_nil fun h => Multiset.notMem_zero e h.1
  · obtain ⟨first, hFirst⟩ := List.exists_mem_of_ne_nil fired hFired
    have hMem : ∀ e ∈ fired, e ∈ t.pending := fun e he => by
      rw [hPending]
      exact Multiset.mem_add.mpr (Or.inl (Multiset.mem_coe.mpr he))
    have hNotIdle : t.pending ≠ 0 := fun hNone => by
      have hNo := hMem first hFirst
      rw [hNone] at hNo
      exact Multiset.notMem_zero first hNo
    refine ⟨?_, fun hNone => absurd hNone hNotIdle, ?_, fun e => ?_⟩
    · rw [hAdvance]
      exact iff_of_false Bool.noConfusion hNotIdle
    · rw [hAdvance]
      exact hPending
    · rw [hAdvance]
      constructor
      · intro he
        refine ⟨hMem e he, fun e' he' => ?_⟩
        rw [hDue e he]
        rw [hPending, Multiset.mem_add, Multiset.mem_coe] at he'
        rcases he' with he' | he'
        · exact Nat.le_of_eq (hDue e' he').symm
        · exact Nat.le_of_lt (hRest e' he')
      · rintro ⟨he, hLeast⟩
        rw [hPending, Multiset.mem_add, Multiset.mem_coe] at he
        rcases he with he | he
        · exact he
        · -- what is left is later than what fires
          have hLater := hRest e he
          have hNoLater := hLeast first (hMem first hFirst)
          rw [hDue first hFirst] at hNoLater
          omega

/-- No pending deadline is before now. -/
def Ahead (t : TimeRuntime Q) : Prop := ∀ e ∈ t.pending, t.now ≤ e.deadline

/-- Where nothing pending is late, an advance sets the clock to the deadline of
what it fires. -/
theorem Ahead.advance {t : TimeRuntime Q} (h : t.Ahead) :
    t.advance.1.Ahead ∧ t.now ≤ t.advance.1.now ∧
      ∀ e ∈ t.advance.2.1, t.now ≤ e.deadline ∧ t.advance.1.now = e.deadline := by
  rcases t.advance_cases with ⟨-, hAdvance⟩ |
    ⟨time, fired, t', hAdvance, hFired, hPending, hDue, hRest, hClock⟩
  · rw [hAdvance]
    exact ⟨h, Nat.le_refl _, fun e he => absurd he List.not_mem_nil⟩
  · obtain ⟨first, hFirst⟩ := List.exists_mem_of_ne_nil fired hFired
    have hAhead : ∀ e ∈ fired, t.now ≤ e.deadline := fun e he => h e (by
      rw [hPending]
      exact Multiset.mem_add.mpr (Or.inl (Multiset.mem_coe.mpr he)))
    have hFrom : t.now ≤ time := hDue first hFirst ▸ hAhead first hFirst
    -- the time is not before the base, so the clock shows it
    have hNow : t'.now = time := by
      unfold now Clock.now at hFrom ⊢
      rw [hClock, Clock.set]
      dsimp only
      omega
    rw [hAdvance]
    dsimp only
    rw [hNow]
    refine ⟨fun e he => ?_, hFrom, fun e he => ⟨hAhead e he, (hDue e he).symm⟩⟩
    rw [hNow]
    exact Nat.le_of_lt (hRest e he)

theorem Ahead.addTimer {t : TimeRuntime Q} (h : t.Ahead) {deadline : Nat}
    (hDeadline : t.now ≤ deadline) (callback : κ) : (t.addTimer deadline callback).Ahead := by
  intro e he
  rw [pending_addTimer, Multiset.mem_cons] at he
  rcases he with rfl | he
  · exact hDeadline
  · exact h e he

theorem Ahead.pollSleepUntil {t : TimeRuntime Q} (h : t.Ahead) (deadline : Nat) (waker : κ) :
    (t.pollSleepUntil deadline waker).1.Ahead := by
  rcases t.pollSleepUntil_cases deadline waker with ⟨-, hPoll⟩ | ⟨hLater, hPoll⟩
  · rw [hPoll]
    exact h
  · rw [hPoll]
    exact h.addTimer (Nat.le_of_lt hLater) waker

end Advance

/-! ## Runs -/

section Runs

variable {Q : TimerQueue Nat} (t : TimeRuntime Q) (calls : List TimerCall)

theorem after_succ {n : Nat} {call : TimerCall} (h : calls[n]? = some call) :
    t.after calls (n + 1) = ((t.after calls n).call n call).1 := by
  rw [after, h]

theorem firedBy_of_call {n : Nat} {call : TimerCall} (h : calls[n]? = some call) :
    t.firedBy calls n = ((t.after calls n).call n call).2 := by
  rw [firedBy, h]

theorem firedIn_succ (n : Nat) :
    t.firedIn calls (n + 1) = t.firedIn calls n ++ t.firedBy calls n := by
  rw [firedIn, List.range_succ, List.flatMap_append, List.flatMap_singleton]
  rfl

/-- Every deadline is not before the clock of the call that adds it. -/
def AddsAhead : Prop :=
  ∀ (n deadline : Nat), calls[n]? = some (.addTimer deadline) → (t.after calls n).now ≤ deadline

/-- The event was added by a call before the `n`th. -/
def Added (n : Nat) (e : Event Nat) : Prop :=
  e.callback < n ∧ calls[e.callback]? = some (.addTimer e.deadline)

instance (n : Nat) (e : Event Nat) : Decidable (Added calls n e) :=
  inferInstanceAs (Decidable (_ ∧ _))

/-- What holds after `n` calls: every event added so far has fired once or is
pending once, in the order of the deadlines, with the clock in between. -/
structure Timely (n : Nat) : Prop where
  accounted : ∀ e, (t.firedIn calls n).count e + ((t.after calls n).pending).count e =
    if Added calls n e then 1 else 0
  past : ∀ e ∈ t.firedIn calls n, e.deadline ≤ (t.after calls n).now
  ahead : (t.after calls n).Ahead
  ordered : (t.firedIn calls n).Pairwise fun e e' => e.deadline ≤ e'.deadline

variable {t calls}

theorem added_succ_iff {n : Nat} {e : Event Nat} :
    Added calls (n + 1) e ↔
      Added calls n e ∨ e.callback = n ∧ calls[n]? = some (.addTimer e.deadline) := by
  unfold Added
  constructor
  · rintro ⟨hLt, hCall⟩
    rcases Nat.lt_succ_iff_lt_or_eq.mp hLt with hLt | rfl
    · exact Or.inl ⟨hLt, hCall⟩
    · exact Or.inr ⟨rfl, hCall⟩
  · rintro (⟨hLt, hCall⟩ | ⟨rfl, hCall⟩)
    · exact ⟨Nat.lt_succ_of_lt hLt, hCall⟩
    · exact ⟨Nat.lt_succ_self _, hCall⟩

theorem Timely.addTimer {n deadline : Nat} (h : Timely t calls n)
    (hCall : calls[n]? = some (.addTimer deadline)) (hAhead : (t.after calls n).now ≤ deadline) :
    Timely t calls (n + 1) := by
  have hAfter : t.after calls (n + 1) = (t.after calls n).addTimer deadline n :=
    after_succ t calls hCall
  have hFired : t.firedIn calls (n + 1) = t.firedIn calls n := by
    rw [firedIn_succ, firedBy_of_call t calls hCall]
    exact List.append_nil _
  refine ⟨fun e => ?_, fun e he => ?_, fun e he => ?_, hFired ▸ h.ordered⟩
  · have hOld := h.accounted e
    rw [hFired, hAfter, pending_addTimer, Multiset.count_cons]
    by_cases hNew : e = ⟨deadline, n⟩
    · -- the new event was not there before
      subst hNew
      have hNot : ¬ Added calls n ⟨deadline, n⟩ := fun hAdded => Nat.lt_irrefl n hAdded.1
      have hHere : Added calls (n + 1) ⟨deadline, n⟩ := added_succ_iff.mpr (Or.inr ⟨rfl, hCall⟩)
      rw [if_neg hNot] at hOld
      rw [if_pos rfl, if_pos hHere]
      omega
    · have hSame : Added calls (n + 1) e ↔ Added calls n e := by
        rw [added_succ_iff]
        refine or_iff_left fun hHere => hNew ?_
        obtain ⟨deadline', callback⟩ := e
        obtain ⟨rfl, hHere⟩ := hHere
        cases hCall.symm.trans hHere
        rfl
      rw [if_neg hNew, Nat.add_zero, hOld]
      simp only [hSame]
  · rw [hFired] at he
    rw [hAfter]
    exact h.past e he
  · rw [hAfter] at he ⊢
    exact h.ahead.addTimer hAhead n e he

theorem Timely.advance {n : Nat} (h : Timely t calls n) (hCall : calls[n]? = some .advance) :
    Timely t calls (n + 1) := by
  have hAfter : t.after calls (n + 1) = (t.after calls n).advance.1 := after_succ t calls hCall
  have hFiredBy : t.firedBy calls n = (t.after calls n).advance.2.1 :=
    firedBy_of_call t calls hCall
  obtain ⟨hAhead, hNow, hDue⟩ := h.ahead.advance
  refine ⟨fun e => ?_, fun e he => ?_, hAfter ▸ hAhead, ?_⟩
  · -- what fires moves from the pending events to the fired ones
    have hSame : Added calls (n + 1) e ↔ Added calls n e := by
      rw [added_succ_iff]
      refine or_iff_left fun hHere => ?_
      cases hCall.symm.trans hHere.2
    have hOld := h.accounted e
    rw [((t.after calls n).firesDue).splits, Multiset.count_add, Multiset.coe_count] at hOld
    rw [firedIn_succ, List.count_append, hFiredBy, hAfter]
    simp only [hSame]
    omega
  · rw [firedIn_succ, List.mem_append, hFiredBy] at he
    rw [hAfter]
    rcases he with he | he
    · exact (h.past e he).trans hNow
    · exact Nat.le_of_eq (hDue e he).2.symm
  · rw [firedIn_succ, hFiredBy]
    refine List.pairwise_append.mpr ⟨h.ordered, ?_, fun e he e' he' => ?_⟩
    · refine List.Pairwise.imp_of_mem (fun he he' _ => ?_) (List.pairwise_of_forall fun _ _ => trivial)
      exact Nat.le_of_eq ((hDue _ he).2.symm.trans (hDue _ he').2)
    · exact (h.past e he).trans (hDue e' he').1

theorem Timely.idle {n : Nat} (h : Timely t calls n) (hCall : calls[n]? = none) :
    Timely t calls (n + 1) := by
  have hAfter : t.after calls (n + 1) = t.after calls n := by rw [after, hCall]
  have hFired : t.firedIn calls (n + 1) = t.firedIn calls n := by
    rw [firedIn_succ, firedBy, hCall]
    exact List.append_nil _
  have hSame : ∀ e, Added calls (n + 1) e ↔ Added calls n e := fun e => by
    rw [added_succ_iff]
    refine or_iff_left fun hHere => ?_
    cases hCall.symm.trans hHere.2
  refine ⟨fun e => ?_, hFired ▸ hAfter ▸ h.past, hAfter ▸ h.ahead, hFired ▸ h.ordered⟩
  rw [hFired, hAfter, h.accounted e]
  simp only [hSame]

theorem timely (hNone : t.pending = 0) (hAdds : t.AddsAhead calls) (n : Nat) :
    Timely t calls n := by
  -- before the first call nothing is pending, and then one call after another
  induction n with
  | zero =>
    refine ⟨fun e => ?_, fun e he => absurd he List.not_mem_nil, fun e he => ?_,
      List.Pairwise.nil⟩
    · rw [after, hNone, Multiset.count_zero, if_neg fun hAdded => Nat.not_lt_zero _ hAdded.1]
      rfl
    · rw [after, hNone] at he
      exact absurd he (Multiset.notMem_zero e)
  | succ n ih =>
    cases hCall : calls[n]? with
    | none => exact ih.idle hCall
    | some call =>
      cases call with
      | addTimer deadline => exact ih.addTimer hCall (hAdds n deadline hCall)
      | advance => exact ih.advance hCall

theorem mem_firedIn_iff {n : Nat} {e : Event Nat} :
    e ∈ t.firedIn calls n ↔ ∃ m < n, e ∈ t.firedBy calls m := by
  simp only [firedIn, List.mem_flatMap, List.mem_range]

/-- Only an advance fires. -/
theorem call_of_mem_firedBy {m : Nat} {e : Event Nat} (he : e ∈ t.firedBy calls m) :
    calls[m]? = some .advance := by
  unfold firedBy at he
  cases hCall : calls[m]? with
  | none =>
    rw [hCall] at he
    cases he
  | some call =>
    cases call with
    | advance => rfl
    | addTimer deadline =>
      rw [hCall] at he
      cases he

end Runs

/-! ## Every callback fires once -/

/-- The event fires in the `m`th call and in no other, at its deadline. -/
structure FiresAt {Q : TimerQueue Nat} (t : TimeRuntime Q) (calls : List TimerCall) (m : Nat) (e : Event Nat) :
    Prop where
  call : calls[m]? = some .advance
  added : Added calls m e
  once : (t.firedBy calls m).count e = 1
  notEarly : (t.after calls m).now ≤ e.deadline
  onTime : (t.after calls (m + 1)).now = e.deadline
  only : ∀ m', e ∈ t.firedBy calls m' → m' = m

section Once

variable {Q : TimerQueue Nat} {t : TimeRuntime Q} {calls : List TimerCall}

theorem firesAt_of_mem (h : ∀ n, Timely t calls n) {m : Nat} {e : Event Nat}
    (he : e ∈ t.firedBy calls m) : FiresAt t calls m e := by
  have hCall := call_of_mem_firedBy he
  have hAtMost : ∀ n, (t.firedIn calls n).count e ≤ 1 := fun n => by
    have hCount := (h n).accounted e
    split at hCount <;> omega
  have hBefore : ∀ m, e ∈ t.firedBy calls m → (t.firedIn calls m).count e = 0 ∧
      (t.firedBy calls m).count e = 1 := fun m he => by
    have hPos := List.count_pos_iff.mpr he
    have hBoth := hAtMost (m + 1)
    rw [firedIn_succ, List.count_append] at hBoth
    omega
  have hFired : t.firedBy calls m = (t.after calls m).advance.2.1 := firedBy_of_call t calls hCall
  have hPending : e ∈ (t.after calls m).pending :=
    (((t.after calls m).firesDue.due e).mp (hFired ▸ he)).1
  obtain ⟨-, -, hDue⟩ := (h m).ahead.advance
  obtain ⟨hNotEarly, hOnTime⟩ := hDue e (hFired ▸ he)
  refine ⟨hCall, ?_, (hBefore m he).2, hNotEarly, ?_, fun m' he' => ?_⟩
  · by_contra hNot
    have hCount := (h m).accounted e
    rw [if_neg hNot] at hCount
    have hPos := Multiset.count_pos.mpr hPending
    omega
  · rw [after_succ t calls hCall]
    exact hOnTime
  · -- what has fired before is not fired again
    rcases Nat.lt_trichotomy m' m with hLt | hEq | hLt
    · exact absurd (mem_firedIn_iff.mpr ⟨m', hLt, he'⟩) (List.count_eq_zero.mp (hBefore m he).1)
    · exact hEq
    · exact absurd (mem_firedIn_iff.mpr ⟨m, hLt, he⟩) (List.count_eq_zero.mp (hBefore m' he').1)

theorem firesAt_or_pending (h : ∀ n, Timely t calls n) {n deadline : Nat}
    (hCall : calls[n]? = some (.addTimer deadline)) :
    (∃ m, FiresAt t calls m ⟨deadline, n⟩ ∧
        (⟨deadline, n⟩ : Event Nat) ∉ (t.after calls calls.length).pending) ∨
      ((t.after calls calls.length).pending.count ⟨deadline, n⟩ = 1 ∧
        ∀ m, (⟨deadline, n⟩ : Event Nat) ∉ t.firedBy calls m) := by
  have hLt := (List.getElem?_eq_some_iff.mp hCall).1
  have hAdded : Added calls calls.length ⟨deadline, n⟩ := ⟨hLt, hCall⟩
  have hCount := (h calls.length).accounted ⟨deadline, n⟩
  rw [if_pos hAdded] at hCount
  -- what was added once has fired once or is pending once
  by_cases hFired : (⟨deadline, n⟩ : Event Nat) ∈ t.firedIn calls calls.length
  · obtain ⟨m, -, hm⟩ := mem_firedIn_iff.mp hFired
    refine Or.inl ⟨m, firesAt_of_mem h hm, fun hPending => ?_⟩
    have hPos := List.count_pos_iff.mpr hFired
    have hPos' := Multiset.count_pos.mpr hPending
    omega
  · rw [List.count_eq_zero.mpr hFired] at hCount
    refine Or.inr ⟨by omega, fun m hm => hFired (mem_firedIn_iff.mpr ⟨m, ?_, hm⟩)⟩
    exact (List.getElem?_eq_some_iff.mp (call_of_mem_firedBy hm)).1

end Once

/-! ## Nothing stays pending -/

section Append

variable {Q : TimerQueue Nat} (t : TimeRuntime Q) (calls l : List TimerCall)

theorem after_append {n : Nat} (hn : n ≤ calls.length) :
    t.after (calls ++ l) n = t.after calls n := by
  induction n with
  | zero => rfl
  | succ n ih => rw [after, after, List.getElem?_append_left hn, ih (Nat.le_of_succ_le hn)]

/-- The calls, and then `k` advances. -/
def advancing (calls : List TimerCall) (k : Nat) : List TimerCall :=
  calls ++ List.replicate k .advance

theorem getElem?_advancing {k j : Nat} (hj : j < k) :
    (advancing calls k)[calls.length + j]? = some .advance := by
  rw [advancing, List.getElem?_append_right (Nat.le_add_right ..), Nat.add_sub_cancel_left,
    List.getElem?_replicate, if_pos hj]

theorem card_pending_advancing {k j : Nat} (hj : j ≤ k) :
    (t.after (advancing calls k) (calls.length + j)).pending.card ≤
      (t.after calls calls.length).pending.card - j := by
  induction j with
  | zero => exact Nat.le_of_eq (by rw [Nat.add_zero, advancing, after_append _ _ _ le_rfl]; rfl)
  | succ j ih =>
    have hOne := card_pending_advance (t.after (advancing calls k) (calls.length + j))
    have hBefore := ih (Nat.le_of_succ_le hj)
    rw [← Nat.add_assoc, after_succ t _ (getElem?_advancing calls hj)]
    show (t.after (advancing calls k) (calls.length + j)).advance.1.pending.card ≤ _
    omega

variable {t calls}

theorem AddsAhead.advancing (h : t.AddsAhead calls) (k : Nat) :
    t.AddsAhead (advancing calls k) := by
  intro n deadline hCall
  rcases Nat.lt_or_ge n calls.length with hLt | hGe
  · rw [TimeRuntime.advancing, List.getElem?_append_left hLt] at hCall
    rw [TimeRuntime.advancing, after_append t calls _ (Nat.le_of_lt hLt)]
    exact h n deadline hCall
  · -- behind the calls there are advances only
    rw [TimeRuntime.advancing, List.getElem?_append_right hGe, List.getElem?_replicate] at hCall
    split at hCall <;> cases hCall

theorem fired_of_advancing (hNone : t.pending = 0) (hAdds : t.AddsAhead calls) {k : Nat}
    (hk : (t.after calls calls.length).pending.card ≤ k) {n deadline : Nat}
    (hCall : calls[n]? = some (.addTimer deadline)) :
    ∃ m, FiresAt t (advancing calls k) m ⟨deadline, n⟩ := by
  have hLt := (List.getElem?_eq_some_iff.mp hCall).1
  have hTimely := timely hNone (hAdds.advancing k)
  have hCall' : (advancing calls k)[n]? = some (.addTimer deadline) := by
    rw [advancing, List.getElem?_append_left hLt, hCall]
  rcases firesAt_or_pending hTimely hCall' with ⟨m, hFires, -⟩ | ⟨hCount, -⟩
  · exact ⟨m, hFires⟩
  · -- after so many advances nothing is pending
    have hLength : (advancing calls k).length = calls.length + k := by simp [advancing]
    have hCard := card_pending_advancing t calls (le_refl k)
    have hEmpty : (t.after (advancing calls k) (calls.length + k)).pending.card = 0 := by omega
    rw [hLength, Multiset.card_eq_zero.mp hEmpty, Multiset.count_zero] at hCount
    cases hCount

end Append

/-! ## The result -/

/-- What becomes of the callbacks in a run. -/
structure FiresOnce {Q : TimerQueue Nat} (t : TimeRuntime Q) (calls : List TimerCall) : Prop where
  /-- A callback has fired once and for all, in the advance that set the clock to
  its deadline, or it is pending once and has not fired. -/
  once : ∀ n deadline : Nat, calls[n]? = some (.addTimer deadline) →
    (∃ m, FiresAt t calls m ⟨deadline, n⟩ ∧
        (⟨deadline, n⟩ : Event Nat) ∉ (t.after calls calls.length).pending) ∨
      ((t.after calls calls.length).pending.count ⟨deadline, n⟩ = 1 ∧
        ∀ m, (⟨deadline, n⟩ : Event Nat) ∉ t.firedBy calls m)
  /-- What fires was added before. -/
  added : ∀ (m : Nat) (e : Event Nat), e ∈ t.firedBy calls m → Added calls m e
  ordered : (t.firedIn calls calls.length).Pairwise fun e e' => e.deadline ≤ e'.deadline
  advances : ∀ m : Nat, calls[m]? = some .advance → (t.after calls m).FiresDue
  /-- Advancing on as often as something is pending, every callback fires. -/
  lost : ∀ k : Nat, (t.after calls calls.length).pending.card ≤ k →
    ∀ n deadline : Nat, calls[n]? = some (.addTimer deadline) →
      ∃ m, FiresAt t (advancing calls k) m ⟨deadline, n⟩

/-- **Every callback fires once, at its deadline**: in any order of `add_timer`
with deadlines that are not past and `advance`. -/
theorem fires_once (H : Heap (Event.cmp : Event Nat → Event Nat → Ordering)) (base : Nat)
    (calls : List TimerCall) (hAdds : (new (timers H) base).AddsAhead calls) :
    FiresOnce (new (timers H) base) calls := by
  have hNone : (new (timers H) base).pending = 0 := pending_new base
  have hTimely := timely hNone hAdds
  exact {
    once := fun n deadline hCall => firesAt_or_pending hTimely hCall
    added := fun m e he => (firesAt_of_mem hTimely he).added
    ordered := (hTimely calls.length).ordered
    advances := fun m _ => firesDue _
    lost := fun k hk n deadline hCall => fired_of_advancing hNone hAdds hk hCall }

/-- A heap that scans a list. -/
def scanningHeap : Heap (Event.cmp : Event Nat → Event Nat → Ordering) :=
  (Queue.scanning Event.deadline).heap fun _ _ => Event.isLE_cmp_iff.mpr

/-- Two timers for one instant, and one that is added when the clock is there. -/
theorem fires_once_tie :
    FiresOnce (new (timers scanningHeap) 0)
      [.addTimer 5, .addTimer 3, .addTimer 5, .advance, .addTimer 3, .advance, .advance] := by
  refine fires_once scanningHeap 0 _ fun n deadline hCall => ?_
  rcases n with _ | _ | _ | _ | _ | _ | _ | n
  all_goals first | cases hCall; decide | cases hCall

end TimeRuntime

/-! ## Sleeps and messages -/

namespace Simulation

variable {R : Rand} {Q : TimerQueue Callback}

/-- The timers that are added have deadlines that are not before now. A sleep and a
message have such deadlines on their own. -/
def AddsAhead (w : Simulation R Q) : List (Step R) → Prop
  | [] => True
  | step :: steps =>
    (∀ deadline callback, step = .addTimer deadline callback → w.time.now ≤ deadline) ∧
      ∀ w', w.step step = .ok w' → w'.AddsAhead steps

theorem ahead_of_step {w w' : Simulation R Q} {step : Step R} (hAhead : w.time.Ahead)
    (h : w.step step = .ok w')
    (hAdds : ∀ deadline callback, step = .addTimer deadline callback → w.time.now ≤ deadline) :
    w'.time.Ahead := by
  cases step with
  | sendTo src dst tag data =>
    rcases send_time h with hTime | ⟨latency, callback, hTime⟩
    · rw [hTime]
      exact hAhead
    · -- a latency reaches into the future
      rw [hTime]
      exact hAhead.addTimer (Nat.le_add_right _ _) callback
  | addTimer deadline callback =>
    obtain rfl := Except.ok.inj h
    exact hAhead.addTimer (hAdds deadline callback rfl) callback
  | pollSleepUntil deadline waker =>
    obtain rfl := Except.ok.inj h
    exact hAhead.pollSleepUntil deadline _
  | advance =>
    obtain rfl := Except.ok.inj h
    exact hAhead.advance.1
  | localHandle addr =>
    obtain rfl := Except.ok.inj h
    exact hAhead
  | connect addr =>
    obtain rfl := Except.ok.inj h
    exact hAhead
  | disconnect addr =>
    obtain rfl := Except.ok.inj h
    exact hAhead
  | setPacketLossRate rate =>
    obtain rfl := Except.ok.inj h
    exact hAhead

theorem ahead_of_run {w w' : Simulation R Q} {steps : List (Step R)} (hAhead : w.time.Ahead)
    (hAdds : w.AddsAhead steps) (hRun : w.run steps = .ok w') : w'.time.Ahead := by
  induction steps generalizing w with
  | nil =>
    obtain rfl := Except.ok.inj hRun
    exact hAhead
  | cons step steps ih =>
    obtain ⟨w₁, hStep, hRest⟩ := run_cons hRun
    exact ih (ahead_of_step hAhead hStep hAdds.1) (hAdds.2 w₁ hStep) hRest

/-- **A sleep and a message are on time**: after any run, an advance wakes and
delivers what is due first, at its deadline, and the rest stays pending. -/
theorem advance_on_time (Q : TimerQueue Callback) (rng : R.Rng) (base : Nat)
    {steps : List (Step R)} {w : Simulation R Q} (hRun : (new Q rng base).run steps = .ok w)
    (hAdds : (new Q rng base).AddsAhead steps) :
    w.time.FiresDue ∧ ∀ e ∈ w.time.advance.2.1,
      w.time.now ≤ e.deadline ∧ w.advance.time.now = e.deadline := by
  have hAhead : (new Q rng base : Simulation R Q).time.Ahead := fun e he => by
    rw [show (new Q rng base).time.pending = 0 from TimeRuntime.pending_new base] at he
    exact absurd he (Multiset.notMem_zero e)
  exact ⟨w.time.firesDue, (ahead_of_run hAhead hAdds hRun).advance.2.2⟩

end Simulation

end Stratamoto.Dst
