import Stratamoto.Fuzzer.Terminating
import Stratamoto.IR.Minimization

/-!
# Stratamoto — what the minimizer stage stores

A call that had a success stores what is left of its last success without the
nops, and a call that had none leaves the entry alone.

* `Kept` — a candidate that was executed, and kept for what its execution gave;
* `reduce_keeps` — what the loop ends with;
* `Stores`, `perform_stores` — what a call makes of its entry.
-/

namespace Stratamoto

open Proposals Fuel Relation

/-! ## The loop -/

/-- The candidate is proposed after some verdicts, and its execution is one that it is
kept for. -/
def Kept {σ : Type} [Minimizer σ] (minimizingCrash : Bool) (novelties : List Nat) (m : σ)
    (results : Results) (prog : Program) : Prop :=
  ∃ verdicts n m' m'' rest, Tries minimizingCrash novelties m results verdicts n m' ∧
    Tried minimizingCrash novelties m' (fun k => results (n + k)) (some .success) prog m'' rest

section Reducing

open IrMinimizerStage

variable {σ : Type} [Minimizer σ] {novelties : List Nat} {results rest : Results}
  {stage : IrMinimizerStage} {r : Reduction σ} {prog : Program} {m m' : σ}
  {verdict : Option Verdict} {minimizingCrash : Bool} {fuel : Nat}
  {inv : σ → Prop} {size : σ → Nat}

theorem Kept.now (h : Tried minimizingCrash novelties m results (some .success) prog m' rest) :
    Kept minimizingCrash novelties m results prog := by
  refine ⟨[], 0, m, m', rest, .done m results, ?_⟩
  simpa only [Nat.zero_add] using h

theorem Kept.later {candidate : Program}
    (hTried : Tried minimizingCrash novelties m results verdict candidate m' rest)
    (h : Kept minimizingCrash novelties m' rest prog) : Kept minimizingCrash novelties m results prog := by
  obtain ⟨verdicts, n, m₁, m₂, rest', hTries, hLast⟩ := h
  refine ⟨_, _, m₁, m₂, rest', .turn hTried hTries, ?_⟩
  have hSame : (fun k => results (taken verdict + n + k)) = fun k => rest (n + k) := by
    funext k
    rw [hTried.rest_eq, Nat.add_assoc]
  rw [hSame]
  exact hLast

/-- What was kept has an execution that says so. -/
theorem Kept.execution (h : Kept minimizingCrash novelties m results prog) :
    prog.isStaticallyValid = .ok true ∧
      ∃ k e, results k = some e ∧ keeps minimizingCrash novelties e = true := by
  obtain ⟨verdicts, n, m₁, m₂, rest', -, hLast⟩ := h
  cases hLast with
  | success hNext hValid hResult hKeeps => exact ⟨hValid, _, _, hResult, hKeeps⟩

/-- **What the loop ends with**: it does not fail, and has what it started with or a
smaller program that it has kept. -/
theorem reduce_keeps (hDescends : Descends inv size Reduces) (hSteady : Steady inv) {s : σ}
    (hInv : inv s) (hSame : Proposer.next r.minimizer = Proposer.next s)
    (hCurrent : Proposer.current s = r.currentIr)
    {out : Except Panic (Ending × IrMinimizerStage × Reduction σ)}
    (hRun : (reduce novelties fuel results stage r).run = some out) :
    ∃ ending stage' r', out = .ok (ending, stage', r') ∧
      stage'.minimizingCrash = stage.minimizingCrash ∧ ((r'.success = r.success ∧ r'.currentIr = r.currentIr) ∨
        (r'.success = true ∧ TransGen Reduces r'.currentIr r.currentIr ∧
          Kept stage.minimizingCrash novelties r.minimizer results r'.currentIr)) := by
  induction fuel generalizing results stage r s with
  | zero => cases hRun
  | succ fuel ih =>
    obtain ⟨proposed, m₁, hNext, -, hTurn⟩ := hDescends.next s hInv
    rw [hNext] at hSame
    cases proposed with
    | none =>
      rw [reduce_exhausted hSame] at hRun
      exact ⟨_, _, _, (Option.some.inj hRun).symm, rfl, Or.inl ⟨rfl, rfl⟩⟩
    | some prog =>
      rcases Nat.lt_or_ge stage.maxConsecutiveFailures stage.consecutiveFailures with hGive | hGo
      · rw [reduce_gaveUp hSame hGive] at hRun
        exact ⟨_, _, _, (Option.some.inj hRun).symm, rfl, Or.inl ⟨rfl, rfl⟩⟩
      · obtain ⟨hReduces, hTurn⟩ := hTurn prog rfl
        rw [hCurrent] at hReduces
        -- the rest of the loop goes on from one of three minimizers
        cases hResult : results 0 with
        | none =>
          have hTried : Tried stage.minimizingCrash novelties r.minimizer results none prog m₁
              results.later := .errored hSame hReduces.valid hResult
          rw [reduce_tried stage hTried hGo] at hRun
          have hAgain : Proposer.next (r.note prog m₁ none).minimizer = Proposer.next s :=
            (hSteady s prog m₁ hInv hNext).trans hNext.symm
          have hLater := ih hInv hAgain hCurrent hRun
          obtain ⟨ending, stage', r', rfl, hCrash, hEnd⟩ := hLater
          refine ⟨ending, stage', r', rfl, hCrash, hEnd.imp_right fun ⟨hSuccess, hLess, hKept⟩ => ?_⟩
          exact ⟨hSuccess, hLess, hKept.later hTried⟩
        | some e =>
          cases hKeeps : keeps stage.minimizingCrash novelties e with
          | true =>
            obtain ⟨hInv', hCurrent', -⟩ := hTurn.accepted
            have hTried := Tried.success hSame hReduces.valid hResult hKeeps
            rw [reduce_tried stage hTried hGo] at hRun
            obtain ⟨ending, stage', r', rfl, hCrash, hEnd⟩ := ih hInv' rfl hCurrent' hRun
            refine ⟨ending, stage', r', rfl, hCrash, Or.inr ?_⟩
            rcases hEnd with ⟨hSuccess, hHere⟩ | ⟨hSuccess, hLess, hKept⟩
            · rw [hSuccess, hHere]
              exact ⟨rfl, .single hReduces, .now hTried⟩
            · exact ⟨hSuccess, hLess.tail hReduces, hKept.later hTried⟩
          | false =>
            obtain ⟨m₂, hFailure, hInv', hCurrent', -⟩ := hTurn.rejected
            have hTried := Tried.failure hSame hReduces.valid hResult hKeeps hFailure
            rw [reduce_tried stage hTried hGo] at hRun
            obtain ⟨ending, stage', r', rfl, hCrash, hEnd⟩ := ih
              (r := r.note prog m₂ (some .failure)) hInv' rfl (hCurrent'.trans hCurrent) hRun
            refine ⟨ending, stage', r', rfl, hCrash, hEnd.imp_right fun ⟨hSuccess, hLess, hKept⟩ => ?_⟩
            exact ⟨hSuccess, hLess, hKept.later hTried⟩

/-! ## A call -/

/-- What a call makes of its entry: nothing, or what it has kept without its nops, and
then it says that minimizing goes on. -/
structure Stores (stage : IrMinimizerStage) (keepMinimizing : Nat) (testcase : Testcase)
    (results : Results) (new : Program → σ) (performed : Performed) : Prop where
  scheduledCount : performed.testcase.scheduledCount = testcase.scheduledCount
  novelties : performed.testcase.novelties = testcase.novelties
  minimizingCrash : performed.stage.minimizingCrash = stage.minimizingCrash
  input : (performed.testcase.input = testcase.input ∧ performed.keepMinimizing = keepMinimizing) ∨
    (testcase.scheduledCount = 0 ∧ performed.keepMinimizing = keepMinimizing + 1 ∧
      ∃ prog, TransGen Reduces prog testcase.input ∧
        Kept stage.minimizingCrash (testcase.novelties.getD []) (new testcase.input) results prog ∧
        prog.removeNops = .ok performed.testcase.input)

theorem perform_stores (hDescends : Descends inv size Reduces) (hSteady : Steady inv)
    {testcase : Testcase} (hNew : inv (Proposer.new testcase.input))
    (hCurrent : Proposer.current (Proposer.new testcase.input : σ) = testcase.input)
    {keepMinimizing : Nat} {out : Except Panic Performed}
    (hRun : (stage.perform σ fuel results keepMinimizing testcase).run = some out) :
    ∃ performed, out = .ok performed ∧
      Stores stage keepMinimizing testcase results (Proposer.new : Program → σ) performed := by
  unfold perform at hRun
  split at hRun
  · obtain rfl := Option.some.inj hRun
    exact ⟨_, rfl, rfl, rfl, rfl, Or.inl ⟨rfl, rfl⟩⟩
  · rename_i hFirst
    rw [ExceptT.run_bind] at hRun
    obtain ⟨reduced, hReducing, hRest⟩ := Option.bind_eq_some_iff.mp hRun
    have hLoop := reduce_keeps (s := (Proposer.new testcase.input : σ)) hDescends hSteady hNew rfl
      hCurrent hReducing
    obtain ⟨ending, stage', r, rfl, hCrash, hEnd⟩ := hLoop
    replace hRest : (if r.success = true then _ else _ : ExceptT Panic Option _).run = _ := hRest
    rcases hEnd with ⟨hFailed, -⟩ | ⟨hSuccess, hLess, hKept⟩
    · rw [show r.success = false from hFailed, if_neg Bool.false_ne_true] at hRest
      obtain rfl := Option.some.inj hRest
      exact ⟨_, rfl, rfl, rfl, hCrash, Or.inl ⟨rfl, rfl⟩⟩
    · -- what was kept is valid, so its nops can be dropped
      rw [hSuccess, if_pos rfl, ExceptT.run_bind] at hRest
      obtain ⟨input, hInput⟩ : ∃ input, r.currentIr.removeNops = .ok input :=
        ⟨_, (removeNops_typed (isStaticallyValid_iff.mp hKept.execution.1)).1⟩
      rw [hInput] at hRest
      obtain rfl := Option.some.inj hRest
      exact ⟨_, rfl, rfl, rfl, hCrash,
        Or.inr ⟨Nat.eq_zero_of_not_pos hFirst, rfl, r.currentIr, hLess, hKept, hInput⟩⟩

end Reducing

/-! ## What is stored -/

/-- What is stored is valid, has the context of the entry, and is shorter. -/
theorem shrinks_of_stored {p prog q : Program} (hLess : TransGen Reduces prog p)
    (hStored : prog.removeNops = .ok q) :
    q.isStaticallyValid = .ok true ∧ q.context = p.context ∧
      q.instructions.length < p.instructions.length := by
  have hContext := context_of_reaches hLess.to_reflTransGen
  obtain ⟨q₁, hFirst, -⟩ := TransGen.head'_iff.mp hLess
  obtain ⟨hRemove, hTyped, -⟩ := removeNops_typed hFirst.typed
  obtain rfl := Except.ok.inj (hStored.symm.trans hRemove)
  refine ⟨isStaticallyValid_iff.mpr hTyped, hContext, ?_⟩
  -- it has no more instructions than what was kept, and none of its nops
  have hCount := nops_add_length prog.instructions
  have hBelow := below_of_reduces hLess
  unfold Below at hBelow
  show (keptOf (nopMarks prog.instructions)).length < _
  omega

end Stratamoto
