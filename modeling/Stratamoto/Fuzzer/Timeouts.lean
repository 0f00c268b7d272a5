import Stratamoto.Fuzzer.Stages

/-!
# Stratamoto — verifying timeouts

`stages/verify_timeouts.rs` and the feedback of `feedbacks.rs` it works with. An
input that times out is queued (`isInteresting`), and the stage runs the queued
inputs again with a longer timeout, during which it turns the capturing off. What
an evaluation comes to is decided outside: how the input ran, if it did, and
whether the evaluator fails.

* `evaluateAll_spec` — what the loop of `perform` does;
* `Verifies` — the executor, the flag and the queue are left as they should be;
* `verifies_iff` — when they are.
-/

namespace Stratamoto

/-! ## What the stage shares -/

/-- An evaluation of an input, as the executor and the flag were then. -/
structure Evaluated where
  input : Program
  timeout : Nat
  capturing : Bool
  deriving DecidableEq

/-- What the executor, the feedbacks and the stages share; no metadata is an empty
queue. -/
structure Campaign where
  /-- The timeout of the executor. -/
  timeout : Nat
  captureTimeouts : Bool
  timeoutsToVerify : List Program
  /-- Whether the last timeout was reported. -/
  triggered : Bool
  evaluated : List Evaluated
  deriving DecidableEq

/-- What an evaluation comes to: how the input ran, if it did, and what the
evaluator returns. -/
structure Evaluation where
  exitKind : Option ExitKind
  result : Except String Unit

/-- What `evaluate_input` comes to, one call after another. -/
abbrev Evaluations := Nat → Evaluation

/-- The calls after the first. -/
def Evaluations.later (evaluations : Evaluations) : Evaluations := fun n => evaluations (n + 1)

namespace Campaign

/-- `is_interesting` of the feedback that captures timeouts. -/
def isInteresting (w : Campaign) (input : Program) (exitKind : ExitKind) : Campaign × Bool :=
  let w := { w with triggered := false }
  if w.captureTimeouts && exitKind == .timeout then
    ({ w with timeoutsToVerify := w.timeoutsToVerify ++ [input] }, false)
  else ({ w with triggered := exitKind == .timeout }, exitKind == .timeout)

/-- Evaluate an input; an input that ran is put to the feedback. -/
def evaluateInput (w : Campaign) (input : Program) (e : Evaluation) :
    Campaign × Except String Unit :=
  let w := { w with evaluated := w.evaluated ++ [⟨input, w.timeout, w.captureTimeouts⟩] }
  match e.exitKind with
  | none => (w, e.result)
  | some exitKind => ((w.isInteresting input exitKind).1, e.result)

/-- The loop of `perform`, which the first error leaves. -/
def evaluateAll : Evaluations → List Program → Campaign → Campaign × Except String Unit
  | _, [], w => (w, .ok ())
  | evaluations, input :: timeouts, w =>
    match w.evaluateInput input (evaluations 0) with
    | (w, .error e) => (w, .error e)
    | (w, .ok ()) => evaluateAll evaluations.later timeouts w

end Campaign

/-! ## The stage -/

structure VerifyTimeoutsStage where
  multipleOfTimeout : Nat
  originalTimeout : Nat
  deriving DecidableEq, Repr

namespace VerifyTimeoutsStage

def new (configuredTimeout : Nat) (multiple : UInt32) : VerifyTimeoutsStage where
  multipleOfTimeout := configuredTimeout * multiple.toNat
  originalTimeout := configuredTimeout

def perform (stage : VerifyTimeoutsStage) (evaluations : Evaluations) (w : Campaign) :
    Campaign × Except String Unit :=
  let timeouts := w.timeoutsToVerify
  if timeouts.length = 0 then (w, .ok ())
  else
    let w := { w with timeout := stage.multipleOfTimeout, captureTimeouts := false }
    match w.evaluateAll evaluations timeouts with
    -- `?` returns before the settings are put back
    | (w, .error e) => (w, .error e)
    | (w, .ok ()) =>
      ({ w with
        timeout := stage.originalTimeout
        captureTimeouts := true
        timeoutsToVerify := [] }, .ok ())

/-- The executor has its timeout, timeouts are captured, and the inputs that were
queued have been evaluated once, in their order and without capturing, or are
queued still. -/
structure Verifies (stage : VerifyTimeoutsStage) (w w' : Campaign) : Prop where
  timeout : w'.timeout = stage.originalTimeout
  captureTimeouts : w'.captureTimeouts = true
  inputs : ∃ n evaluated, w'.evaluated = w.evaluated ++ evaluated ∧
    evaluated.map Evaluated.input = w.timeoutsToVerify.take n ∧
    (∀ e ∈ evaluated, e.capturing = false) ∧
    w'.timeoutsToVerify = w.timeoutsToVerify.drop n

end VerifyTimeoutsStage

/-! ## The loop -/

/-- Nothing is queued while timeouts are not captured. -/
theorem evaluateInput_of_not_capturing {w : Campaign} (h : w.captureTimeouts = false)
    (input : Program) (e : Evaluation) :
    ∃ triggered, w.evaluateInput input e =
      ({ w with
        evaluated := w.evaluated ++ [⟨input, w.timeout, false⟩]
        triggered }, e.result) := by
  unfold Campaign.evaluateInput Campaign.isInteresting
  cases e.exitKind with
  | none => exact ⟨w.triggered, by simp only [h]⟩
  | some exitKind => exact ⟨exitKind == .timeout, by simp [h]⟩

/-- What the loop does: it evaluates the inputs up to the first error, and all of
them if there is none. -/
theorem evaluateAll_spec {w : Campaign} (h : w.captureTimeouts = false)
    (evaluations : Evaluations) (timeouts : List Program) :
    ∃ n triggered,
      (w.evaluateAll evaluations timeouts).1 =
        { w with
          evaluated := w.evaluated ++ (timeouts.take n).map fun input => ⟨input, w.timeout, false⟩
          triggered } ∧
      ((w.evaluateAll evaluations timeouts).2 = .ok () → n = timeouts.length) ∧
      ((w.evaluateAll evaluations timeouts).2 = .ok () ↔
        ∀ k < timeouts.length, (evaluations k).result = .ok ()) := by
  induction timeouts generalizing w evaluations with
  | nil =>
    refine ⟨0, w.triggered, ?_, fun _ => rfl, fun _ k hk => ?_, fun _ => rfl⟩
    · show w = { w with evaluated := w.evaluated ++ [] }
      rw [List.append_nil]
    · exact absurd hk (Nat.not_lt_zero k)
  | cons input timeouts ih =>
    unfold Campaign.evaluateAll
    obtain ⟨triggered, hEvaluated⟩ := evaluateInput_of_not_capturing h input (evaluations 0)
    -- the feedback only notes whether it triggered
    rw [hEvaluated]
    cases hResult : (evaluations 0).result with
    | error e =>
      -- the loop is left, with this input the last that was evaluated
      refine ⟨1, triggered, rfl, fun hOk => ?_, fun hOk => ?_, fun hAll => ?_⟩
      · cases hOk
      · cases hOk
      · rw [hAll 0 (Nat.zero_lt_succ _)] at hResult
        cases hResult
    | ok _ =>
      obtain ⟨n, triggered', hRest, hAll, hOk⟩ := ih (w := { w with
        evaluated := w.evaluated ++ [⟨input, w.timeout, false⟩], triggered }) h evaluations.later
      refine ⟨n + 1, triggered', ?_, fun hEnd => ?_, ?_⟩
      · rw [hRest]
        simp only [List.take_succ_cons, List.map_cons, List.append_assoc, List.singleton_append]
      · rw [hAll hEnd, List.length_cons]
      · rw [hOk]
        constructor
        · intro hLater k hk
          cases k with
          | zero => exact hResult
          | succ k => exact hLater k (Nat.lt_of_succ_lt_succ hk)
        · intro hEvery k hk
          exact hEvery (k + 1) (Nat.succ_lt_succ hk)

/-! ## When the stage leaves things as they should be -/

namespace VerifyTimeoutsStage

variable {stage : VerifyTimeoutsStage} {evaluations : Evaluations} {w : Campaign}

theorem perform_of_nil (h : w.timeoutsToVerify = []) :
    stage.perform evaluations w = (w, .ok ()) := by
  unfold perform
  rw [h]
  rfl

/-- **When the stage leaves things as they should be**: an error of an evaluation
leaves the loop with the longer timeout and the capturing off, and everything
queued. -/
theorem verifies_iff (stage : VerifyTimeoutsStage) (evaluations : Evaluations) (w : Campaign) :
    stage.Verifies w (stage.perform evaluations w).1 ↔
      (w.timeoutsToVerify = [] →
        w.timeout = stage.originalTimeout ∧ w.captureTimeouts = true) ∧
      ∀ k < w.timeoutsToVerify.length, (evaluations k).result = .ok () := by
  by_cases hNil : w.timeoutsToVerify = []
  · rw [perform_of_nil hNil]
    constructor
    · intro hVerifies
      refine ⟨fun _ => ⟨hVerifies.timeout, hVerifies.captureTimeouts⟩, fun k hk => ?_⟩
      rw [hNil] at hk
      exact absurd hk (Nat.not_lt_zero k)
    · intro hCondition
      obtain ⟨hTimeout, hCapture⟩ := hCondition.1 hNil
      exact ⟨hTimeout, hCapture, 0, [], by simp⟩
  · have hLength : w.timeoutsToVerify.length ≠ 0 := fun h => hNil (List.length_eq_zero_iff.mp h)
    obtain ⟨n, triggered, hLoop, hAll, hOk⟩ := evaluateAll_spec (w := { w with
      timeout := stage.multipleOfTimeout, captureTimeouts := false }) rfl evaluations
      w.timeoutsToVerify
    rw [← hOk]
    unfold perform
    simp only [if_neg hLength]
    split
    · -- the loop was left
      rename_i w' e hError
      rw [hError] at hLoop hAll hOk ⊢
      obtain rfl := hLoop
      constructor
      · intro hVerifies
        have hCapture := hVerifies.captureTimeouts
        cases hCapture
      · intro hCondition
        cases hCondition.2
    · rename_i w' hDone
      rw [hDone] at hLoop hAll hOk ⊢
      obtain rfl := hLoop
      obtain rfl := hAll rfl
      refine ⟨fun _ => ⟨fun h => absurd h hNil, rfl⟩, fun _ => ?_⟩
      -- everything was evaluated, and the queue is made anew
      refine ⟨rfl, rfl, w.timeoutsToVerify.length, _, rfl, ?_, fun e he => ?_, ?_⟩
      · simp [Function.comp_def]
      · obtain ⟨input, -, rfl⟩ := List.mem_map.mp he
        rfl
      · exact List.drop_length.symm

/-- A timeout that is queued, and an evaluator that fails on it. -/
def failsOnce : Campaign where
  timeout := 1
  captureTimeouts := true
  timeoutsToVerify := [singleSetup]
  triggered := false
  evaluated := []

/-- After the error, timeouts are not captured any more. -/
theorem perform_of_failing_evaluation :
    ¬ (new 1 5).Verifies failsOnce
        ((new 1 5).perform (fun _ => ⟨none, .error "input target"⟩) failsOnce).1 ∧
      ((new 1 5).perform (fun _ => ⟨none, .error "input target"⟩) failsOnce).1 =
        { failsOnce with
          timeout := 5
          captureTimeouts := false
          evaluated := [⟨singleSetup, 5, false⟩] } := by
  refine ⟨fun hVerifies => ?_, rfl⟩
  have hCapture := hVerifies.captureTimeouts
  cases hCapture

end VerifyTimeoutsStage

end Stratamoto
