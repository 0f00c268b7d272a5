import Stratamoto.Fuzzer.Stages

/-!
# Stratamoto — when the minimizer stage ends

Every verdict makes the measure of a minimizer smaller, or gives up. An execution
that is an error gives no verdict: the same candidate is proposed again.

* `Answered` — no candidate has executions that fail for ever;
* `Steady` — asked again, a minimizer proposes the same candidate;
* `reduce_settles`, `reduce_not_answered` — the loop ends, and it does not;
* `perform_terminates_iff` — for each of the minimizers.
-/

namespace Stratamoto

open Proposals Fuel

/-! ## Termination -/

/-- Before, between and after these verdicts the loop does not give up. -/
def GoesOn (maxFailures : Nat) : Nat → List Verdict → Prop
  | failures, [] => failures ≤ maxFailures
  | failures, v :: verdicts =>
    failures ≤ maxFailures ∧ GoesOn maxFailures (failuresAfter failures v) verdicts

/-- Every candidate that is handed to the executor has, then or later, an execution
that is not an error. -/
def Answered {σ : Type} [Minimizer σ] (minimizingCrash : Bool) (novelties : List Nat)
    (maxFailures failures : Nat) (m : σ) (results : Results) : Prop :=
  ∀ verdicts n m' prog m'', Tries minimizingCrash novelties m results verdicts n m' →
    GoesOn maxFailures failures verdicts → Proposer.next m' = .ok (some prog, m'') →
    ∃ k, n ≤ k ∧ results k ≠ none

section Termination

open IrMinimizerStage

variable {σ : Type} [Minimizer σ] {novelties : List Nat} {results rest : Results}
  {stage stage' : IrMinimizerStage} {r r' : Reduction σ} {prog : Program} {m m' : σ}
  {verdict : Option Verdict} {minimizingCrash : Bool} {ending : Ending} {fuel : Nat}
  {inv : σ → Prop} {size : σ → Nat}

/-- Asked again without an answer, the minimizer proposes the same candidate. -/
def Steady (inv : σ → Prop) : Prop :=
  ∀ m prog m', inv m → Proposer.next m = .ok (some prog, m') →
    Proposer.next m' = .ok (some prog, m')

theorem GoesOn.failures_le {maxFailures failures : Nat} {verdicts : List Verdict}
    (h : GoesOn maxFailures failures verdicts) : failures ≤ maxFailures := by
  cases verdicts with
  | nil => exact h
  | cons v verdicts => exact h.1

/-- What is answered stays answered, a turn later. -/
theorem Answered.tried
    (hTried : Tried stage.minimizingCrash novelties m results verdict prog m' rest)
    (hGo : stage.consecutiveFailures ≤ stage.maxConsecutiveFailures)
    (h : Answered stage.minimizingCrash novelties stage.maxConsecutiveFailures
      stage.consecutiveFailures m results) :
    Answered stage.minimizingCrash novelties stage.maxConsecutiveFailures
      (stage.count verdict).consecutiveFailures m' rest := by
  intro verdicts n m₁ prog₁ m₂ hTries hGoesOn hNext
  -- the first try goes on too
  have hAll : GoesOn stage.maxConsecutiveFailures stage.consecutiveFailures
      (verdict.toList ++ verdicts) := by
    cases verdict with
    | none => exact hGoesOn
    | some v => exact ⟨hGo, hGoesOn⟩
  obtain ⟨k, hk, hResult⟩ := h _ _ m₁ prog₁ m₂ (.turn hTried hTries) hAll hNext
  obtain ⟨j, rfl⟩ := Nat.exists_eq_add_of_le (Nat.le_trans (Nat.le_add_right _ n) hk)
  refine ⟨j, by omega, ?_⟩
  rwa [hTried.rest_eq]

/-- A turn of the loop, with fuel to spare. -/
theorem settles_tried {out : Ending × IrMinimizerStage × Reduction σ}
    (hTried : Tried stage.minimizingCrash novelties r.minimizer results verdict prog m' rest)
    (hGo : stage.consecutiveFailures ≤ stage.maxConsecutiveFailures)
    (h : Settles (fun fuel => (reduce novelties fuel rest (stage.count verdict)
      (r.note prog m' verdict)).run) (.ok out)) :
    Settles (fun fuel => (reduce novelties fuel results stage r).run) (.ok out) :=
  Settles.turn (h.congr fun fuel => reduce_tried stage hTried hGo fuel)

/-- **The loop ends** where every candidate is answered: an answer makes the
minimizer's measure smaller, and an error leaves it where it was. -/
theorem reduce_settles (stage : IrMinimizerStage) (r : Reduction σ)
    (hDescends : Descends inv size Reduces) (hSteady : Steady inv) (s : σ) (hInv : inv s)
    (hSame : Proposer.next r.minimizer = Proposer.next s)
    (hAnswered : Answered stage.minimizingCrash novelties stage.maxConsecutiveFailures
      stage.consecutiveFailures r.minimizer results) :
    ∃ out, Settles (fun fuel => (reduce novelties fuel results stage r).run) (.ok out) := by
  induction hSize : size s using Nat.strongRecOn generalizing s results stage r with
  | _ bound ih =>
    obtain ⟨proposed, m₁, hNext, -, hTurn⟩ := hDescends.next s hInv
    rw [hNext] at hSame
    cases proposed with
    | none => exact ⟨_, Settles.turn ⟨0, fun fuel _ => reduce_exhausted hSame fuel⟩⟩
    | some prog =>
      rcases Nat.lt_or_ge stage.maxConsecutiveFailures stage.consecutiveFailures with hGive | hGo
      · exact ⟨_, Settles.turn ⟨0, fun fuel _ => reduce_gaveUp hSame hGive fuel⟩⟩
      · obtain ⟨hReduces, hTurn⟩ := hTurn prog rfl
        obtain ⟨k, -, hk⟩ := hAnswered [] 0 r.minimizer prog m₁ (.done _ _) hGo hSame
        -- the execution that answers the candidate, if it is the first one
        have hAnswer : ∀ (results : Results) (r : Reduction σ),
            Proposer.next r.minimizer = .ok (some prog, m₁) →
            Answered stage.minimizingCrash novelties stage.maxConsecutiveFailures
              stage.consecutiveFailures r.minimizer results → results 0 ≠ none →
            ∃ out, Settles (fun fuel => (reduce novelties fuel results stage r).run) (.ok out) := by
          intro results r hNext hAnswered hResult
          obtain ⟨e, hResult⟩ := Option.ne_none_iff_exists'.mp hResult
          cases hKeeps : keeps stage.minimizingCrash novelties e with
          | true =>
            obtain ⟨hInv', -, hLess⟩ := hTurn.accepted
            have hTried := Tried.success hNext hReduces.valid hResult hKeeps
            have hLater := @ih _ (hSize ▸ hLess) results.later (stage.count (some .success))
              (r.note prog (Proposer.success m₁) (some .success)) (Proposer.success m₁) hInv' rfl
            obtain ⟨out, hOut⟩ := hLater (hAnswered.tried hTried hGo) rfl
            exact ⟨out, settles_tried hTried hGo hOut⟩
          | false =>
            obtain ⟨m₂, hFailure, hInv', -, hLess⟩ := hTurn.rejected
            have hTried := Tried.failure hNext hReduces.valid hResult hKeeps hFailure
            have hLater := @ih _ (hSize ▸ hLess) results.later (stage.count (some .failure))
              (r.note prog m₂ (some .failure)) m₂ hInv' rfl
            obtain ⟨out, hOut⟩ := hLater (hAnswered.tried hTried hGo) rfl
            exact ⟨out, settles_tried hTried hGo hOut⟩
        -- and on past the errors before it
        have hSteady' := hSteady s prog m₁ hInv hNext
        clear hNext
        induction k generalizing results r with
        | zero => exact hAnswer results r hSame hAnswered hk
        | succ k ihErrors =>
          by_cases hResult : results 0 = none
          · have hTried : Tried stage.minimizingCrash novelties r.minimizer results none prog m₁
                results.later := .errored hSame hReduces.valid hResult
            have hLater := @ihErrors results.later (r.note prog m₁ none)
            obtain ⟨out, hOut⟩ := hLater (hAnswered.tried hTried hGo) hSteady' hk
            exact ⟨out, settles_tried hTried hGo hOut⟩
          · exact hAnswer results r hSame hAnswered hResult

/-- Where an execution of a candidate fails and all that follow do, the loop does
not end. -/
theorem reduce_stuck (hSteady : Proposer.next m = .ok (some prog, m))
    (hValid : prog.isStaticallyValid = .ok true)
    (hGo : stage.consecutiveFailures ≤ stage.maxConsecutiveFailures)
    (hNext : Proposer.next r.minimizer = .ok (some prog, m)) (hErrors : ∀ k, results k = none)
    (fuel : Nat) : (reduce novelties fuel results stage r).run = none := by
  induction fuel generalizing results r with
  | zero => rfl
  | succ fuel ih =>
    have hTried : Tried stage.minimizingCrash novelties r.minimizer results none prog m
        results.later := .errored hNext hValid (hErrors 0)
    have hLater := @ih results.later (r.note prog m none) hSteady fun k => hErrors (k + 1)
    rw [reduce_tried stage hTried hGo]
    exact hLater

/-- The loop comes to a candidate that is not answered, and stays there. -/
theorem reduce_not_answered (hDescends : Descends inv size Reduces) (hSteady : Steady inv)
    {verdicts : List Verdict} {n : Nat} {m'' : σ}
    (hTries : Tries stage.minimizingCrash novelties r.minimizer results verdicts n m')
    (hGoesOn : GoesOn stage.maxConsecutiveFailures stage.consecutiveFailures verdicts)
    (hNext : Proposer.next m' = .ok (some prog, m'')) (hErrors : ∀ k, n ≤ k → results k = none)
    {s : σ} (hInv : inv s) (hSame : Proposer.next r.minimizer = Proposer.next s) (fuel : Nat) :
    (reduce novelties fuel results stage r).run = none := by
  generalize hm : r.minimizer = m at hTries hSame
  generalize hCrash : stage.minimizingCrash = crash at hTries
  induction hTries generalizing stage r s fuel with
  | done m results =>
    subst hm
    rw [hNext] at hSame
    obtain ⟨-, hTurn⟩ := hDescends.turn hInv hSame.symm
    obtain ⟨hReduces, -⟩ := hDescends.turn hInv hSame.symm
    exact reduce_stuck (hSteady s prog m'' hInv hSame.symm) hReduces.valid hGoesOn hNext
      (fun k => hErrors k (Nat.zero_le k)) fuel
  | @turn m m₁ m' results rest verdict candidate verdicts n hTried hTries ih =>
    subst hm hCrash
    cases fuel with
    | zero => rfl
    | succ fuel =>
      -- the errors of the rest are those of the whole, later
      have hErrors' : ∀ k, n ≤ k → rest k = none := by
        intro k hk
        rw [hTried.rest_eq]
        exact hErrors _ (Nat.add_le_add_left hk _)
      have hGo : stage.consecutiveFailures ≤ stage.maxConsecutiveFailures := by
        cases verdict with
        | none => exact hGoesOn.failures_le
        | some v => exact hGoesOn.1
      have hGoesOn' : GoesOn stage.maxConsecutiveFailures
          (stage.count verdict).consecutiveFailures verdicts := by
        cases verdict with
        | none => exact hGoesOn
        | some v => exact hGoesOn.2
      -- the minimizer goes on like one that the invariant holds of
      obtain ⟨s', hInv', hSame'⟩ : ∃ s', inv s' ∧ Proposer.next m₁ = Proposer.next s' := by
        cases hTried with
        | invalid hNext hValid hFailure =>
          obtain ⟨-, hTurn⟩ := hDescends.turn hInv (hSame.symm.trans hNext)
          obtain ⟨m₂, hFailure', hInv', -⟩ := hTurn.rejected
          obtain rfl := Except.ok.inj (hFailure.symm.trans hFailure')
          exact ⟨_, hInv', rfl⟩
        | errored hNext hValid hResult =>
          -- an error moves nothing, and the same candidate comes again
          have hSteady' := hSteady s _ _ hInv (hSame.symm.trans hNext)
          exact ⟨s, hInv, hSteady'.trans (hNext.symm.trans hSame)⟩
        | failure hNext hValid hResult hKeeps hFailure =>
          obtain ⟨-, hTurn⟩ := hDescends.turn hInv (hSame.symm.trans hNext)
          obtain ⟨m₂, hFailure', hInv', -⟩ := hTurn.rejected
          obtain rfl := Except.ok.inj (hFailure.symm.trans hFailure')
          exact ⟨_, hInv', rfl⟩
        | success hNext hValid hResult hKeeps =>
          obtain ⟨-, hTurn⟩ := hDescends.turn hInv (hSame.symm.trans hNext)
          exact ⟨_, hTurn.accepted.1, rfl⟩
      rw [reduce_tried stage hTried hGo]
      have hLater := @ih (stage.count verdict) (r.note candidate m₁ verdict)
      exact hLater hGoesOn' hNext hErrors' hInv' fuel (Reduction.note_minimizer ..) hSame' rfl

/-- What the loop has is the entry or a candidate that was executed. -/
theorem reduce_valid
    (hRun : (reduce novelties fuel results stage r).run = some (.ok (ending, stage', r')))
    (hValid : r.currentIr.isStaticallyValid = .ok true) :
    r'.currentIr.isStaticallyValid = .ok true := by
  -- only a candidate that is valid becomes the current program
  induction fuel generalizing results stage r with
  | zero => cases hRun
  | succ fuel ih =>
    rcases reduce_cases hRun with ⟨m, -, hOut⟩ | ⟨prog, m, -, -, hOut⟩ |
      ⟨-, verdict, prog, m', rest, hTried, hRest⟩
    · cases hOut
      exact hValid
    · cases hOut
      exact hValid
    · refine ih hRest ?_
      cases hTried with
      | invalid => exact hValid
      | errored => exact hValid
      | failure => exact hValid
      | success _ hCandidate => exact hCandidate

/-- The call ends. -/
def Terminates (σ : Type) [Minimizer σ] (results : Results) (stage : IrMinimizerStage)
    (keepMinimizing : Nat) (testcase : Testcase) : Prop :=
  ∃ performed, Settles
    (fun fuel => (stage.perform σ fuel results keepMinimizing testcase).run) (.ok performed)

theorem perform_none {testcase : Testcase} {keepMinimizing : Nat}
    (hEntry : testcase.scheduledCount = 0)
    (h : ∀ fuel, (reducing σ fuel results stage testcase).run = none) :
    ¬ Terminates σ results stage keepMinimizing testcase := by
  rintro ⟨performed, n, hn⟩
  have hReturns : (stage.perform σ n results keepMinimizing testcase).run = some (.ok performed) :=
    hn n (Nat.le_refl n)
  rcases perform_returns hReturns with ⟨hScheduled, -⟩ | ⟨ending, r, hReducing, -⟩
  · omega
  · cases (h n).symm.trans hReducing

theorem terminates_iff_of_descends (hDescends : Descends inv size Reduces) (hSteady : Steady inv)
    {testcase : Testcase} (hValid : testcase.input.isStaticallyValid = .ok true)
    (hNew : inv (Proposer.new testcase.input)) (results : Results) (stage : IrMinimizerStage)
    (keepMinimizing : Nat) :
    Terminates σ results stage keepMinimizing testcase ↔
      0 < testcase.scheduledCount ∨
        Answered stage.minimizingCrash (testcase.novelties.getD []) stage.maxConsecutiveFailures
          stage.consecutiveFailures (Proposer.new testcase.input : σ) results := by
  rcases Nat.eq_zero_or_pos testcase.scheduledCount with hEntry | hScheduled
  · constructor
    · intro hTerminates
      right
      intro verdicts n m' prog m'' hTries hGoesOn hNext
      by_contra hNone
      have hErrors : ∀ k, n ≤ k → results k = none := by
        intro k hk
        by_contra hResult
        exact hNone ⟨k, hk, hResult⟩
      refine perform_none hEntry (fun fuel => ?_) hTerminates
      exact reduce_not_answered hDescends hSteady hTries hGoesOn hNext hErrors hNew rfl fuel
    · intro hCondition
      have hAnswered := hCondition.resolve_left (by omega)
      obtain ⟨⟨ending, stage', r⟩, hSettles⟩ := reduce_settles stage
        ⟨Proposer.new testcase.input, false, testcase.input, []⟩ hDescends hSteady _ hNew rfl
        hAnswered
      obtain ⟨n, hn⟩ := hSettles
      have hReducing : ∀ fuel, n ≤ fuel →
          (reducing σ fuel results stage testcase).run = some (.ok (ending, stage', r)) := hn
      have hCurrent := reduce_valid (hReducing n (Nat.le_refl n)) hValid
      -- the nops of a valid program can be dropped
      obtain ⟨input, hInput⟩ : ∃ input, r.currentIr.removeNops = .ok input :=
        ⟨_, (removeNops_typed (isStaticallyValid_iff.mp hCurrent)).1⟩
      cases hSuccess : r.success with
      | true =>
        refine ⟨⟨stage', keepMinimizing + 1, { testcase with input }, r.log⟩, n, fun fuel hFuel => ?_⟩
        show (stage.perform σ fuel results keepMinimizing testcase).run = _
        unfold perform
        rw [if_neg (by omega), ExceptT.run_bind, hReducing fuel hFuel]
        show (if r.success = true then _ else _ : ExceptT Panic Option _).run = _
        rw [hSuccess, if_pos rfl, ExceptT.run_bind, hInput]
        rfl
      | false =>
        refine ⟨⟨stage', keepMinimizing, testcase, r.log⟩, n, fun fuel hFuel => ?_⟩
        show (stage.perform σ fuel results keepMinimizing testcase).run = _
        unfold perform
        rw [if_neg (by omega), ExceptT.run_bind, hReducing fuel hFuel]
        show (if r.success = true then _ else _ : ExceptT Panic Option _).run = _
        rw [hSuccess]
        rfl
  · refine iff_of_true ⟨⟨stage, keepMinimizing, testcase, []⟩, 0, fun fuel _ => ?_⟩ (Or.inl hScheduled)
    show (stage.perform σ fuel results keepMinimizing testcase).run = _
    unfold perform
    rw [if_pos hScheduled]
    rfl

end Termination

/-! ## Asked again -/

theorem scanFrom_at {propose : Nat → Except Panic (Option Program)} {total next : Nat}
    {candidate : Program} (hLt : next < total) (h : propose next = .ok (some candidate)) :
    scanFrom propose total next = .ok (some candidate, next) := by
  rw [scanFrom, if_pos hLt, h]

theorem CuttingMinimizer.steady : Steady CuttingMinimizer.Inv := by
  intro m prog m' hInv hNext
  clear hInv
  replace hNext : m.next = .ok (some prog, m') := hNext
  show m'.next = .ok (some prog, m')
  induction hn : m.length using Nat.strongRecOn generalizing m with
  | _ n ih =>
    rw [CuttingMinimizer.next] at hNext
    by_cases hPos : 0 < m.length
    · rw [if_pos hPos] at hNext
      cases hCut : m.cut with
      | error panic =>
        rw [hCut] at hNext
        cases hNext
      | ok candidate =>
        rw [hCut] at hNext
        cases candidate with
        | none => exact ih (m.length / 2) (by omega) { m with length := m.length / 2 } hNext rfl
        | some candidate =>
          obtain ⟨hSome, rfl⟩ := Prod.mk.inj (Except.ok.inj hNext)
          obtain rfl := Option.some.inj hSome
          -- what is cut does not depend on the candidate before
          have hAgain : ({ m with candidate := some candidate } : CuttingMinimizer).cut =
            .ok (some candidate) := hCut
          rw [CuttingMinimizer.next, if_pos hPos, hAgain]
    · rw [if_neg hPos] at hNext
      cases hNext

theorem BlockMinimizer.steady : Steady BlockMinimizer.Inv := by
  intro m prog m' hInv hNext
  obtain ⟨out, m₁, hNext', hProgram, hHas, hStops⟩ := BlockMinimizer.next_spec hInv
  obtain ⟨rfl, rfl⟩ := Prod.mk.inj (Except.ok.inj (hNext'.symm.trans hNext))
  obtain ⟨hLt, hPropose, -⟩ := hStops.of_some
  have hCandidate := hHas prog rfl
  rw [← hProgram] at hLt hPropose
  show m₁.nextCandidate = _
  rw [BlockMinimizer.nextCandidate, scanFrom_at hLt hPropose]
  obtain ⟨program, candidate, next⟩ := m₁
  obtain rfl : candidate = some prog := hCandidate
  rfl

theorem NoppingMinimizer.steady : Steady NoppingMinimizer.Inv := by
  intro m prog m' hInv hNext
  obtain ⟨out, m₁, hNext', hProgram, hHas, hStops⟩ := NoppingMinimizer.next_spec hInv
  obtain ⟨rfl, rfl⟩ := Prod.mk.inj (Except.ok.inj (hNext'.symm.trans hNext))
  obtain ⟨hLt, hPropose, -⟩ := hStops.of_some
  have hCandidate := hHas prog rfl
  rw [← hProgram] at hLt hPropose
  show m₁.nextCandidate = _
  rw [NoppingMinimizer.nextCandidate, scanFrom_at hLt hPropose]
  obtain ⟨program, candidate, next⟩ := m₁
  obtain rfl : candidate = some prog := hCandidate
  rfl

/-- **When a call ends.** With each of the minimizers a call on a valid entry ends if
and only if the entry was minimized before or every candidate handed to the
executor has, then or later, an execution that is not an error. -/
theorem perform_terminates_iff {testcase : Testcase}
    (hValid : testcase.input.isStaticallyValid = .ok true)
    (hLength : testcase.input.instructions.length ≤ usizeMax) (results : Results)
    (stage : IrMinimizerStage) (keepMinimizing : Nat) :
    (Terminates CuttingMinimizer results stage keepMinimizing testcase ↔
      0 < testcase.scheduledCount ∨
        Answered stage.minimizingCrash (testcase.novelties.getD []) stage.maxConsecutiveFailures
          stage.consecutiveFailures (Proposer.new testcase.input : CuttingMinimizer) results) ∧
    (Terminates BlockMinimizer results stage keepMinimizing testcase ↔
      0 < testcase.scheduledCount ∨
        Answered stage.minimizingCrash (testcase.novelties.getD []) stage.maxConsecutiveFailures
          stage.consecutiveFailures (Proposer.new testcase.input : BlockMinimizer) results) ∧
    (Terminates NoppingMinimizer results stage keepMinimizing testcase ↔
      0 < testcase.scheduledCount ∨
        Answered stage.minimizingCrash (testcase.novelties.getD []) stage.maxConsecutiveFailures
          stage.consecutiveFailures (Proposer.new testcase.input : NoppingMinimizer) results) := by
  have hTyped := isStaticallyValid_iff.mp hValid
  have hCursor : Cursor testcase.input 0 := ⟨hTyped, hLength, Nat.zero_le _⟩
  -- each of the three minimizers descends
  refine ⟨?_, ?_, ?_⟩
  · exact terminates_iff_of_descends CuttingMinimizer.descends CuttingMinimizer.steady hValid
      ⟨hTyped, Nat.le_refl _⟩ results stage keepMinimizing
  · exact terminates_iff_of_descends BlockMinimizer.descends BlockMinimizer.steady hValid hCursor
      results stage keepMinimizing
  · exact terminates_iff_of_descends NoppingMinimizer.descends NoppingMinimizer.steady hValid
      hCursor results stage keepMinimizing

theorem perform_terminates_iff_probeEntry :
    Terminates NoppingMinimizer nothingCovered (.new 200 false) 0 probeEntry := by
  refine (perform_terminates_iff (by decide) (by decide) nothingCovered (.new 200 false) 0).2.2.mpr
    (Or.inr ?_)
  intro verdicts n m' prog m'' hTries hGoesOn hNext
  exact ⟨n, Nat.le_refl n, fun hError => by cases hError⟩

/-- An executor that only returns errors is asked for the same candidate for ever. -/
theorem errors_do_not_terminate :
    ¬ Terminates NoppingMinimizer (fun _ => none) (.new 200 false) 0 probeEntry := by
  obtain ⟨prog, hNext, hValid, -⟩ := probeEntry_candidate
  have hInv : NoppingMinimizer.Inv (Proposer.new probeEntry.input : NoppingMinimizer) :=
    ⟨isStaticallyValid_iff.mp (by decide), by decide, Nat.zero_le _⟩
  have hSteady := NoppingMinimizer.steady _ _ _ hInv hNext
  exact perform_none rfl (reduce_stuck hSteady hValid (Nat.zero_le 200) hNext fun _ => rfl)

end Stratamoto
