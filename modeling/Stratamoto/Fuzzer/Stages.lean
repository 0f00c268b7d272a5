import Stratamoto.IR.Minimizers

/-!
# Stratamoto — the minimizer stage

`stages/mod.rs`: a stage drives one of the minimizers over corpus entries, one
entry a call, and is reused for every entry of a campaign. What an execution of a
candidate gives comes from outside: how it ended and what it covered, or an error.

* `IrMinimizerStage.reduce` — the loop of `perform`, with what it logs of each candidate;
* `Tries` — what a minimizer proposes under a sequence of results;
* `gives_up_per_pass_iff` — when a call gives up for what earlier calls rejected.
-/

namespace Stratamoto

open Proposals Fuel

/-! ## Executions and corpus entries -/

/-- How the execution of an input ended. -/
inductive ExitKind where
  | ok
  | crash
  | oom
  | timeout
  | diff
  deriving DecidableEq, Repr

/-- An execution: how it ended, and which indices of the coverage map it set. -/
structure ExecutedInput where
  exitKind : ExitKind
  covered : Nat → Bool

/-- How many of the indices are set. -/
def ExecutedInput.howManySet (e : ExecutedInput) (indexes : List Nat) : Nat := indexes.countP e.covered

/-- What `execute_input` returns, one call after another; `none` is an error. -/
abbrev Results := Nat → Option ExecutedInput

/-- The results after the first. -/
def Results.later (results : Results) : Results := fun n => results (n + 1)

/-- A corpus entry, with the coverage indices it was kept for. -/
structure Testcase where
  input : Program
  scheduledCount : Nat
  novelties : Option (List Nat)

/-! ## The stage -/

/-- The counter is at most one more than its maximum, so that it does not
overflow below the largest `usize`. -/
structure IrMinimizerStage where
  consecutiveFailures : Nat
  maxConsecutiveFailures : Nat
  minimizingCrash : Bool
  deriving DecidableEq, Repr

/-- What is logged of a candidate. -/
inductive Verdict where
  | notStaticallyValid
  | failure
  | success
  deriving DecidableEq, Repr

def Verdict.isRejection : Verdict → Bool
  | .success => false
  | .notStaticallyValid | .failure => true

/-- The variables of the loop, and the verdicts it has logged, the last one first. -/
structure Reduction (σ : Type) where
  minimizer : σ
  success : Bool
  currentIr : Program
  log : List Verdict

/-- How the loop is left: no candidate is left, or it breaks. -/
inductive Ending where
  | exhausted
  | gaveUp
  deriving DecidableEq, Repr

/-- Whether a candidate is kept: it still covers what the entry was kept for, or,
when minimizing a crash, still fails. -/
def keeps (minimizingCrash : Bool) (novelties : List Nat) (e : ExecutedInput) : Bool :=
  (minimizingCrash && e.exitKind != .ok) ||
    (!minimizingCrash && e.howManySet novelties == novelties.length)

namespace IrMinimizerStage

def new (maxConsecutiveFailures : Nat) (minimizingCrash : Bool) : IrMinimizerStage :=
  ⟨0, maxConsecutiveFailures, minimizingCrash⟩

section

variable {σ : Type} [Minimizer σ]

/-- The loop of `perform`. -/
def reduce (novelties : List Nat) : Nat → Results → IrMinimizerStage → Reduction σ →
    ExceptT Panic Option (Ending × IrMinimizerStage × Reduction σ)
  | 0, _, _, _ => ExceptT.mk none
  | fuel + 1, results, stage, r => do
    match ← ExceptT.mk (some (Proposer.next r.minimizer)) with
    | (none, minimizer) => pure (.exhausted, stage, { r with minimizer })
    | (some prog, minimizer) =>
      if stage.consecutiveFailures > stage.maxConsecutiveFailures then
        pure (.gaveUp, stage, { r with minimizer })
      else if !(← ExceptT.mk (some prog.isStaticallyValid)) then
        let minimizer ← ExceptT.mk (some (Proposer.failure minimizer))
        reduce novelties fuel results
          { stage with consecutiveFailures := stage.consecutiveFailures + 1 }
          { r with minimizer, log := .notStaticallyValid :: r.log }
      else
        match results 0 with
        -- the error is passed over: no verdict, and nothing is counted
        | none => reduce novelties fuel results.later stage { r with minimizer }
        | some e =>
          if keeps stage.minimizingCrash novelties e then
            reduce novelties fuel results.later { stage with consecutiveFailures := 0 }
              { minimizer := Proposer.success minimizer
                success := true
                currentIr := prog
                log := .success :: r.log }
          else
            let minimizer ← ExceptT.mk (some (Proposer.failure minimizer))
            reduce novelties fuel results.later
              { stage with consecutiveFailures := stage.consecutiveFailures + 1 }
              { r with minimizer, log := .failure :: r.log }

/-- The loop from its start, on a corpus entry. -/
def reducing (σ : Type) [Minimizer σ] (fuel : Nat) (results : Results) (stage : IrMinimizerStage)
    (testcase : Testcase) : ExceptT Panic Option (Ending × IrMinimizerStage × Reduction σ) :=
  reduce (testcase.novelties.getD []) fuel results stage
    { minimizer := Proposer.new testcase.input
      success := false
      currentIr := testcase.input
      log := [] }

end

/-- What a call leaves: the stage, the counter of successful minimizations, the
entry, and the log. -/
structure Performed where
  stage : IrMinimizerStage
  keepMinimizing : Nat
  testcase : Testcase
  log : List Verdict

def perform (σ : Type) [Minimizer σ] (fuel : Nat) (results : Results) (stage : IrMinimizerStage)
    (keepMinimizing : Nat) (testcase : Testcase) : ExceptT Panic Option Performed := do
  if testcase.scheduledCount > 0 then
    pure ⟨stage, keepMinimizing, testcase, []⟩
  else
    let (_, stage, r) ← reducing σ fuel results stage testcase
    -- only a run with a success rewrites the testcase, without its nops
    if r.success then
      let input ← ExceptT.mk (some r.currentIr.removeNops)
      pure ⟨stage, keepMinimizing + 1, { testcase with input }, r.log⟩
    else pure ⟨stage, keepMinimizing, testcase, r.log⟩

end IrMinimizerStage

/-! ## What a minimizer proposes under a sequence of results -/

/-- The counter after a verdict. -/
def failuresAfter (failures : Nat) : Verdict → Nat
  | .success => 0
  | .notStaticallyValid | .failure => failures + 1

/-- How many results a turn takes. -/
def taken : Option Verdict → Nat
  | some .notStaticallyValid => 0
  | some .failure | some .success | none => 1

section Tries

variable {σ : Type} [Minimizer σ] (minimizingCrash : Bool) (novelties : List Nat)

/-- One candidate: what is logged of it, the minimizer after it, and the results
that are left. -/
inductive Tried : σ → Results → Option Verdict → Program → σ → Results → Prop
  | invalid {m m₁ m₂ : σ} {results : Results} {prog : Program} :
      Proposer.next m = .ok (some prog, m₁) → prog.isStaticallyValid = .ok false →
      Proposer.failure m₁ = .ok m₂ →
      Tried m results (some .notStaticallyValid) prog m₂ results
  | errored {m m₁ : σ} {results : Results} {prog : Program} :
      Proposer.next m = .ok (some prog, m₁) → prog.isStaticallyValid = .ok true →
      results 0 = none → Tried m results none prog m₁ results.later
  | failure {m m₁ m₂ : σ} {results : Results} {prog : Program} {e : ExecutedInput} :
      Proposer.next m = .ok (some prog, m₁) → prog.isStaticallyValid = .ok true →
      results 0 = some e → keeps minimizingCrash novelties e = false →
      Proposer.failure m₁ = .ok m₂ →
      Tried m results (some .failure) prog m₂ results.later
  | success {m m₁ : σ} {results : Results} {prog : Program} {e : ExecutedInput} :
      Proposer.next m = .ok (some prog, m₁) → prog.isStaticallyValid = .ok true →
      results 0 = some e → keeps minimizingCrash novelties e = true →
      Tried m results (some .success) prog (Proposer.success m₁) results.later

/-- The minimizer goes on with these verdicts, on that many of the results. -/
inductive Tries : σ → Results → List Verdict → Nat → σ → Prop
  | done (m : σ) (results : Results) : Tries m results [] 0 m
  | turn {m m₁ m' : σ} {results rest : Results} {verdict : Option Verdict} {prog : Program}
      {verdicts : List Verdict} {n : Nat} :
      Tried minimizingCrash novelties m results verdict prog m₁ rest →
      Tries m₁ rest verdicts n m' →
      Tries m results (verdict.toList ++ verdicts) (taken verdict + n) m'

end Tries

/-! ## One turn of the loop -/

/-- The stage after a turn. -/
def IrMinimizerStage.count (stage : IrMinimizerStage) (verdict : Option Verdict) :
    IrMinimizerStage :=
  { stage with
    consecutiveFailures := verdict.elim stage.consecutiveFailures
      (failuresAfter stage.consecutiveFailures) }

/-- The loop's variables after a turn. -/
def Reduction.note {σ : Type} (r : Reduction σ) (prog : Program) (m : σ) :
    Option Verdict → Reduction σ
  | none => { r with minimizer := m }
  | some .success => ⟨m, true, prog, .success :: r.log⟩
  | some verdict => { r with minimizer := m, log := verdict :: r.log }

@[simp] theorem Reduction.note_minimizer {σ : Type} (r : Reduction σ) (prog : Program) (m : σ)
    (verdict : Option Verdict) : (r.note prog m verdict).minimizer = m := by
  cases verdict with
  | none => rfl
  | some v => cases v <;> rfl

section Turns

open IrMinimizerStage

variable {σ : Type} [Minimizer σ] {novelties : List Nat} {results rest : Results}
  {stage : IrMinimizerStage} {r : Reduction σ} {prog : Program} {m m' : σ}
  {verdict : Option Verdict} {minimizingCrash : Bool}

theorem Tried.next (h : Tried minimizingCrash novelties m results verdict prog m' rest) :
    ∃ m₁, Proposer.next m = .ok (some prog, m₁) := by
  cases h <;> exact ⟨_, by assumption⟩

theorem Tried.rest_eq (h : Tried minimizingCrash novelties m results verdict prog m' rest) (k : Nat) :
    rest k = results (taken verdict + k) := by
  cases h with
  | invalid => rw [taken, Nat.zero_add]
  | errored => rw [taken, Nat.add_comm]; rfl
  | failure => rw [taken, Nat.add_comm]; rfl
  | success => rw [taken, Nat.add_comm]; rfl

theorem reduce_exhausted (hNext : Proposer.next r.minimizer = .ok (none, m)) (fuel : Nat) :
    (reduce novelties (fuel + 1) results stage r).run =
      some (.ok (.exhausted, stage, { r with minimizer := m })) := by
  rw [reduce, hNext]
  rfl

theorem reduce_gaveUp (hNext : Proposer.next r.minimizer = .ok (some prog, m))
    (h : stage.maxConsecutiveFailures < stage.consecutiveFailures) (fuel : Nat) :
    (reduce novelties (fuel + 1) results stage r).run =
      some (.ok (.gaveUp, stage, { r with minimizer := m })) := by
  rw [reduce, hNext]
  show (if _ then _ else _ : ExceptT Panic Option _).run = _
  rw [if_pos h]
  rfl

/-- A turn that does not give up tries its candidate, and the loop goes on. -/
theorem reduce_tried (stage : IrMinimizerStage)
    (hTried : Tried stage.minimizingCrash novelties r.minimizer results verdict prog m' rest)
    (h : stage.consecutiveFailures ≤ stage.maxConsecutiveFailures) (fuel : Nat) :
    (reduce novelties (fuel + 1) results stage r).run =
      (reduce novelties fuel rest (stage.count verdict) (r.note prog m' verdict)).run := by
  have hGo := Nat.not_lt.mpr h
  -- one turn of the loop for each way a candidate can go
  cases hTried with
  | invalid hNext hValid hFailure =>
    rw [reduce, hNext]
    show (if _ then _ else _ : ExceptT Panic Option _).run = _
    rw [if_neg hGo, hValid]
    -- the cursor is moved on as after a failure, and nothing is counted
    show (ExceptT.mk (some (Proposer.failure _)) >>= _ : ExceptT Panic Option _).run = _
    rw [hFailure]
    rfl
  | errored hNext hValid hResult =>
    rw [reduce, hNext]
    show (if _ then _ else _ : ExceptT Panic Option _).run = _
    rw [if_neg hGo, hValid, hResult]
    rfl
  | failure hNext hValid hResult hKeeps hFailure =>
    rw [reduce, hNext]
    show (if _ then _ else _ : ExceptT Panic Option _).run = _
    rw [if_neg hGo, hValid, hResult]
    show (if _ then _ else _ : ExceptT Panic Option _).run = _
    rw [hKeeps]
    show (ExceptT.mk (some (Proposer.failure _)) >>= _ : ExceptT Panic Option _).run = _
    rw [hFailure]
    rfl
  | success hNext hValid hResult hKeeps =>
    rw [reduce, hNext]
    show (if _ then _ else _ : ExceptT Panic Option _).run = _
    rw [if_neg hGo, hValid, hResult]
    show (if _ then _ else _ : ExceptT Panic Option _).run = _
    rw [hKeeps]
    rfl

/-- A turn that returns ends the loop, or tries a candidate. -/
theorem reduce_cases {fuel : Nat} {out : Ending × IrMinimizerStage × Reduction σ}
    (h : (reduce novelties (fuel + 1) results stage r).run = some (.ok out)) :
    (∃ m, Proposer.next r.minimizer = .ok (none, m) ∧
      out = (.exhausted, stage, { r with minimizer := m })) ∨
    (∃ prog m, Proposer.next r.minimizer = .ok (some prog, m) ∧
      stage.maxConsecutiveFailures < stage.consecutiveFailures ∧
      out = (.gaveUp, stage, { r with minimizer := m })) ∨
    stage.consecutiveFailures ≤ stage.maxConsecutiveFailures ∧ ∃ verdict prog m' rest,
      Tried stage.minimizingCrash novelties r.minimizer results verdict prog m' rest ∧
      (reduce novelties fuel rest (stage.count verdict) (r.note prog m' verdict)).run =
        some (.ok out) := by
  cases hNext : Proposer.next r.minimizer with
  | error panic =>
    rw [reduce, hNext] at h
    cases h
  | ok proposed =>
    obtain ⟨candidate, m⟩ := proposed
    cases candidate with
    | none =>
      rw [reduce_exhausted hNext] at h
      exact Or.inl ⟨m, rfl, (Except.ok.inj (Option.some.inj h)).symm⟩
    | some prog =>
      right
      rcases Nat.lt_or_ge stage.maxConsecutiveFailures stage.consecutiveFailures with hGive | hGo
      · rw [reduce_gaveUp hNext hGive] at h
        exact Or.inl ⟨prog, m, rfl, hGive, (Except.ok.inj (Option.some.inj h)).symm⟩
      · refine Or.inr ⟨hGo, ?_⟩
        suffices hTried : ∃ verdict m' rest,
            Tried stage.minimizingCrash novelties r.minimizer results verdict prog m' rest by
          obtain ⟨verdict, m', rest, hTried⟩ := hTried
          exact ⟨verdict, prog, m', rest, hTried, (reduce_tried stage hTried hGo fuel).symm.trans h⟩
        -- what the turn computes does not fail, as the loop returns
        rw [reduce, hNext] at h
        replace h : (if _ then _ else _ : ExceptT Panic Option _).run = _ := h
        rw [if_neg (Nat.not_lt.mpr hGo)] at h
        cases hValid : prog.isStaticallyValid with
        | error panic =>
          rw [hValid] at h
          cases h
        | ok valid =>
          rw [hValid] at h
          have hFailure : ∀ {m : σ} {k : σ → ExceptT Panic Option
              (Ending × IrMinimizerStage × Reduction σ)},
              (ExceptT.mk (some (Proposer.failure m)) >>= k).run = some (.ok out) →
                ∃ m', Proposer.failure m = .ok m' := by
            intro m k hk
            cases hf : Proposer.failure m with
            | error panic =>
              rw [hf] at hk
              cases hk
            | ok m' => exact ⟨m', rfl⟩
          cases valid with
          | false =>
            obtain ⟨m', hm'⟩ := hFailure h
            exact ⟨_, _, _, .invalid hNext hValid hm'⟩
          | true =>
            cases hResult : results 0 with
            | none => exact ⟨_, _, _, .errored hNext hValid hResult⟩
            | some e =>
              rw [hResult] at h
              cases hKeeps : keeps stage.minimizingCrash novelties e with
              | true => exact ⟨_, _, _, .success hNext hValid hResult hKeeps⟩
              | false =>
                replace h : (if _ then _ else _ : ExceptT Panic Option _).run = _ := h
                rw [hKeeps] at h
                obtain ⟨m', hm'⟩ := hFailure h
                exact ⟨_, _, _, .failure hNext hValid hResult hKeeps hm'⟩

end Turns

/-! ## Giving up -/

/-- How many candidates were rejected since the last success, in a log whose last
verdict is first. -/
def rejectedInARow (log : List Verdict) : Nat := (log.takeWhile Verdict.isRejection).length

section GivingUp

open IrMinimizerStage

variable {σ : Type} [Minimizer σ] {novelties : List Nat} {results rest : Results}
  {stage stage' : IrMinimizerStage} {r r' : Reduction σ} {prog : Program} {m m' : σ}
  {verdict : Option Verdict} {minimizingCrash : Bool} {ending : Ending} {fuel : Nat}

/-- From here that many candidates in a row are rejected, and there is another one. -/
def RejectedFirst (minimizingCrash : Bool) (novelties : List Nat) (m : σ) (results : Results)
    (count : Nat) : Prop :=
  ∃ verdicts n m' prog m'', Tries minimizingCrash novelties m results verdicts n m' ∧
    (∀ v ∈ verdicts, v.isRejection = true) ∧ verdicts.length = count ∧
    Proposer.next m' = .ok (some prog, m'')

theorem RejectedFirst.tried {count : Nat}
    (hTried : Tried minimizingCrash novelties m results verdict prog m' rest)
    (hVerdict : ∀ v ∈ verdict, v.isRejection = true)
    (h : RejectedFirst minimizingCrash novelties m' rest count) :
    RejectedFirst minimizingCrash novelties m results (verdict.toList.length + count) := by
  obtain ⟨verdicts, n, m₁, prog₁, m₂, hTries, hAll, rfl, hNext⟩ := h
  refine ⟨_, _, m₁, prog₁, m₂, .turn hTried hTries, ?_, List.length_append, hNext⟩
  intro v hv
  rcases List.mem_append.mp hv with hv | hv
  · exact hVerdict v (Option.mem_toList.mp hv)
  · exact hAll v hv

/-- The counter is what the log says, that of earlier calls included. -/
theorem reduce_log (history : List Verdict)
    (hRun : (reduce novelties fuel results stage r).run = some (.ok (ending, stage', r')))
    (hLog : stage.consecutiveFailures = rejectedInARow (r.log ++ history)) :
    stage'.consecutiveFailures = rejectedInARow (r'.log ++ history) ∧
      stage'.maxConsecutiveFailures = stage.maxConsecutiveFailures ∧
      stage'.minimizingCrash = stage.minimizingCrash ∧
      (ending = .gaveUp → stage.maxConsecutiveFailures < stage'.consecutiveFailures) := by
  induction fuel generalizing results stage r with
  | zero => cases hRun
  | succ fuel ih =>
    rcases reduce_cases hRun with ⟨m, -, hOut⟩ | ⟨prog, m, -, hGive, hOut⟩ |
      ⟨-, verdict, prog, m', rest, -, hRest⟩
    · cases hOut
      exact ⟨hLog, rfl, rfl, fun hNo => by cases hNo⟩
    · cases hOut
      exact ⟨hLog, rfl, rfl, fun _ => hGive⟩
    · have hLater := @ih _ _ _ hRest
      refine hLater ?_
      -- a verdict counts up, a success starts again; a program not tried leaves the count
      cases verdict with
      | none => exact hLog
      | some v =>
        cases v with
        | success => rfl
        | notStaticallyValid => exact congrArg (· + 1) hLog
        | failure => exact congrArg (· + 1) hLog

/-- **A lower counter makes no difference**, unless the higher one is used up by
rejections at the start. -/
theorem reduce_lower {lower : Nat}
    (hRun : (reduce novelties fuel results stage r).run = some (.ok (ending, stage', r')))
    (hLower : lower ≤ stage.consecutiveFailures)
    (hSame : lower = stage.consecutiveFailures ∨
      ¬ RejectedFirst stage.minimizingCrash novelties r.minimizer results
        (stage.maxConsecutiveFailures + 1 - stage.consecutiveFailures)) :
    ∃ stage'', (reduce novelties fuel results { stage with consecutiveFailures := lower } r).run =
      some (.ok (ending, stage'', r')) := by
  induction fuel generalizing results stage r lower with
  | zero => cases hRun
  | succ fuel ih =>
    rcases hSame with rfl | hNot
    · exact ⟨stage', hRun⟩
    rcases reduce_cases hRun with ⟨m, hNext, hOut⟩ | ⟨prog, m, hNext, hGive, -⟩ |
      ⟨hGo, verdict, prog, m', rest, hTried, hRest⟩
    · cases hOut
      exact ⟨_, reduce_exhausted hNext fuel⟩
    · -- giving up with nothing rejected is what is excluded
      have hZero : stage.maxConsecutiveFailures + 1 - stage.consecutiveFailures = 0 := by omega
      rw [hZero] at hNot
      exact absurd ⟨[], 0, r.minimizer, prog, m, .done _ _, by simp, rfl, hNext⟩ hNot
    · rw [reduce_tried { stage with consecutiveFailures := lower } hTried
        (Nat.le_trans hLower hGo) fuel]
      -- what is left of the budget shrinks with the verdict
      have hLater : ∀ count, (∀ v ∈ verdict, v.isRejection = true) →
          verdict.toList.length + count =
            stage.maxConsecutiveFailures + 1 - stage.consecutiveFailures →
          ¬ RejectedFirst stage.minimizingCrash novelties m' rest count := by
        intro count hAll hCount hFirst
        exact hNot (hCount ▸ hFirst.tried hTried hAll)
      cases verdict with
      | none =>
        have hGoOn := @ih _ _ _ lower hRest hLower
        exact hGoOn (Or.inr (hLater _ (by simp) (Nat.zero_add _)))
      | some v =>
        have hRejected : v.isRejection = true → failuresAfter stage.consecutiveFailures v =
            stage.consecutiveFailures + 1 ∧ failuresAfter lower v = lower + 1 := by
          cases v <;> simp [Verdict.isRejection, failuresAfter]
        by_cases hv : v.isRejection = true
        · obtain ⟨hUp, hUpLower⟩ := hRejected hv
          have hGoOn := @ih _ _ _ (failuresAfter lower v) hRest
          rw [Reduction.note_minimizer] at hGoOn
          refine hGoOn ?_ (Or.inr (hLater _ (by simpa using hv) ?_))
          · show failuresAfter lower v ≤ failuresAfter stage.consecutiveFailures v
            omega
          · show 1 + (stage.maxConsecutiveFailures + 1 - failuresAfter stage.consecutiveFailures v) = _
            omega
        · -- after a success the counters are the same
          obtain rfl : v = .success := by
            cases v <;> first | rfl | exact absurd rfl hv
          have hGoOn := @ih _ _ _ 0 hRest (Nat.le_refl 0)
          exact hGoOn (Or.inl rfl)

/-- Where the counter is used up by rejections at the start the loop gives up, and
with a counter that is not it goes on. -/
theorem reduce_usedUp (stage : IrMinimizerStage) (r : Reduction σ) (lower : Nat)
    {verdicts : List Verdict} {n : Nat} {m'' : σ}
    (hTries : Tries stage.minimizingCrash novelties r.minimizer results verdicts n m')
    (hAll : ∀ v ∈ verdicts, v.isRejection = true)
    (hCount : verdicts.length = stage.maxConsecutiveFailures + 1 - stage.consecutiveFailures)
    (hNext : Proposer.next m' = .ok (some prog, m''))
    (hLower : lower + verdicts.length ≤ stage.maxConsecutiveFailures) :
    ∃ fuel stage' r', (reduce novelties fuel results stage r).run =
        some (.ok (.gaveUp, stage', r')) ∧
      ∀ out, (reduce novelties fuel results { stage with consecutiveFailures := lower } r).run ≠
        some (.ok out) := by
  -- a turn of one that gives up, and of one that does not
  have hNow : ∀ {stage : IrMinimizerStage} {r : Reduction σ} {results : Results} {prog : Program}
      {m : σ} {lower : Nat}, Proposer.next r.minimizer = .ok (some prog, m) →
      stage.maxConsecutiveFailures < stage.consecutiveFailures →
      lower ≤ stage.maxConsecutiveFailures →
      ∃ fuel stage' r', (reduce novelties fuel results stage r).run =
          some (.ok (.gaveUp, stage', r')) ∧
        ∀ out, (reduce novelties fuel results { stage with consecutiveFailures := lower } r).run ≠
          some (.ok out) := by
    intro stage r results prog m lower hNext hGive hLower
    refine ⟨1, _, _, reduce_gaveUp hNext hGive 0, fun out hOut => ?_⟩
    rcases reduce_cases hOut with ⟨m', hNone, -⟩ | ⟨-, -, -, hMore, -⟩ | ⟨-, _, _, _, _, -, hRest⟩
    · cases hNone.symm.trans hNext
    · exact absurd hLower (Nat.not_le.mpr hMore)
    · cases hRest
  generalize hm : r.minimizer = m at hTries
  generalize hCrash : stage.minimizingCrash = crash at hTries
  induction hTries generalizing stage r lower with
  | done m results =>
    subst hm hCrash
    rw [List.length_nil] at hCount
    have hGive : stage.maxConsecutiveFailures < stage.consecutiveFailures := by omega
    exact @hNow stage r results _ _ lower hNext hGive hLower
  | @turn m m₁ m' results rest verdict candidate verdicts n hTried hTries ih =>
    subst hm hCrash
    rcases Nat.lt_or_ge stage.maxConsecutiveFailures stage.consecutiveFailures with hGive | hGo
    · obtain ⟨m₂, hNext'⟩ := hTried.next
      exact @hNow stage r results _ _ lower hNext' hGive (by omega)
    · rw [List.length_append] at hCount hLower
      have hGoLower : lower ≤ stage.maxConsecutiveFailures := by omega
      -- the verdict is a rejection or none, and counts for both
      have hCounts : ∀ failures, verdict.elim failures (failuresAfter failures) =
          failures + verdict.toList.length := by
        intro failures
        cases verdict with
        | none => rfl
        | some v =>
          have hv := hAll v (List.mem_append_left _ (List.mem_singleton_self v))
          cases v with
          | success => cases hv
          | notStaticallyValid => rfl
          | failure => rfl
      have hLater := @ih (stage.count verdict) (r.note candidate m₁ verdict)
        (lower + verdict.toList.length)
      obtain ⟨fuel, stage', r', hGave, hOther⟩ := hLater
        (fun v hv => hAll v (List.mem_append_right _ hv))
        (by
          show _ = stage.maxConsecutiveFailures + 1 - verdict.elim _ _
          rw [hCounts]
          omega)
        hNext
        (by
          show _ ≤ stage.maxConsecutiveFailures
          omega)
        (Reduction.note_minimizer ..) rfl
      refine ⟨fuel + 1, stage', r', (reduce_tried stage hTried hGo fuel).trans hGave, fun out => ?_⟩
      rw [reduce_tried { stage with consecutiveFailures := lower } hTried hGoLower fuel]
      have hSame : ({ stage with consecutiveFailures := lower } : IrMinimizerStage).count verdict =
          { stage.count verdict with consecutiveFailures := lower + verdict.toList.length } := by
        rw [← hCounts]
        rfl
      rw [hSame]
      exact hOther out

end GivingUp

/-! ## Calls of one stage -/

/-- Giving up is a matter of one call: it gives up only when as many candidates as
allowed were rejected in a row in the call itself, and does with its entry what a
stage that was never used does with it. -/
structure PerPass (σ : Type) [Minimizer σ] (stage : IrMinimizerStage) (results : Results)
    (testcase : Testcase) : Prop where
  gaveUp : ∀ fuel stage' r,
    (IrMinimizerStage.reducing σ fuel results stage testcase).run =
      some (.ok (.gaveUp, stage', r)) → stage.maxConsecutiveFailures ≤ rejectedInARow r.log
  unused : ∀ fuel ending stage' r,
    (IrMinimizerStage.reducing σ fuel results stage testcase).run =
      some (.ok (ending, stage', r)) →
    ∃ stage'', (IrMinimizerStage.reducing σ fuel results
      (.new stage.maxConsecutiveFailures stage.minimizingCrash) testcase).run =
        some (.ok (ending, stage'', r))

/-- What was rejected in a row before a call leaves it less than it is allowed, and
that is used up by rejections before its first success, with another candidate
to come. -/
def CutShort (σ : Type) [Minimizer σ] (earlier maxFailures : Nat) (minimizingCrash : Bool)
    (results : Results) (testcase : Testcase) : Prop :=
  0 < earlier ∧ RejectedFirst minimizingCrash (testcase.novelties.getD [])
    (Proposer.new testcase.input : σ) results (maxFailures + 1 - earlier)

/-- The calls of one stage, one corpus entry after another, and all that they logged,
the last verdict first. -/
inductive Calls (σ : Type) [Minimizer σ] (maxFailures : Nat) (minimizingCrash : Bool) :
    List Verdict → IrMinimizerStage → Prop
  | new : Calls σ maxFailures minimizingCrash [] (.new maxFailures minimizingCrash)
  | call {history : List Verdict} {stage : IrMinimizerStage} {fuel keepMinimizing : Nat}
      {results : Results} {testcase : Testcase} {performed : IrMinimizerStage.Performed} :
      Calls σ maxFailures minimizingCrash history stage →
      (stage.perform σ fuel results keepMinimizing testcase).run = some (.ok performed) →
      Calls σ maxFailures minimizingCrash (performed.log ++ history) performed.stage

theorem bind_run_ok {α β : Type} {x : ExceptT Panic Option α} {f : α → ExceptT Panic Option β} {b : β}
    (h : (x >>= f).run = some (.ok b)) : ∃ a, x.run = some (.ok a) ∧ (f a).run = some (.ok b) := by
  rw [ExceptT.run_bind] at h
  obtain ⟨out, hx, h⟩ := Option.bind_eq_some_iff.mp h
  cases out with
  | error panic => cases h
  | ok a => exact ⟨a, hx, h⟩

theorem perform_returns {σ : Type} [Minimizer σ] {stage : IrMinimizerStage}
    {fuel keepMinimizing : Nat} {results : Results} {testcase : Testcase}
    {performed : IrMinimizerStage.Performed}
    (h : (stage.perform σ fuel results keepMinimizing testcase).run = some (.ok performed)) :
    (0 < testcase.scheduledCount ∧ performed = ⟨stage, keepMinimizing, testcase, []⟩) ∨
      ∃ ending r, (IrMinimizerStage.reducing σ fuel results stage testcase).run =
        some (.ok (ending, performed.stage, r)) ∧ performed.log = r.log := by
  unfold IrMinimizerStage.perform at h
  -- an entry that has been scheduled before is left alone
  split at h
  · rename_i hScheduled
    exact Or.inl ⟨hScheduled, (Except.ok.inj (Option.some.inj h)).symm⟩
  · right
    obtain ⟨⟨ending, stage', r⟩, hReducing, h⟩ := bind_run_ok h
    dsimp only at h
    refine ⟨ending, r, ?_⟩
    split at h
    · obtain ⟨input, -, h⟩ := bind_run_ok h
      obtain rfl := Except.ok.inj (Option.some.inj h)
      exact ⟨hReducing, rfl⟩
    · obtain rfl := Except.ok.inj (Option.some.inj h)
      exact ⟨hReducing, rfl⟩

/-- **The counter goes from call to call**: it is what was rejected in a row, over
all calls. -/
theorem Calls.counter {σ : Type} [Minimizer σ] {maxFailures : Nat} {minimizingCrash : Bool}
    {history : List Verdict} {stage : IrMinimizerStage}
    (h : Calls σ maxFailures minimizingCrash history stage) :
    stage = ⟨rejectedInARow history, maxFailures, minimizingCrash⟩ := by
  induction h with
  | new => rfl
  | @call history stage fuel keepMinimizing results testcase performed _ hPerform ih =>
    rcases perform_returns hPerform with ⟨-, rfl⟩ | ⟨ending, r, hReducing, hLog⟩
    · exact ih
    · obtain ⟨hCounter, hMax, hCrash, -⟩ := reduce_log history hReducing (by rw [ih]; rfl)
      rw [ih] at hMax hCrash
      rw [hLog, ← hCounter]
      show performed.stage = IrMinimizerStage.mk performed.stage.consecutiveFailures _ _
      exact (IrMinimizerStage.mk.injEq ..).mpr ⟨rfl, hMax, hCrash⟩

/-- **When giving up is per pass.** After any calls of a stage, a call gives up only for
what it rejects itself, and does what a new stage does, if and only if what the
earlier calls rejected does not cut it short. -/
theorem gives_up_per_pass_iff {σ : Type} [Minimizer σ] {maxFailures : Nat} {minimizingCrash : Bool}
    {history : List Verdict} {stage : IrMinimizerStage}
    (h : Calls σ maxFailures minimizingCrash history stage) (results : Results)
    (testcase : Testcase) :
    PerPass σ stage results testcase ↔
      ¬ CutShort σ (rejectedInARow history) maxFailures minimizingCrash results testcase := by
  obtain rfl := h.counter
  constructor
  · intro hPerPass ⟨hEarlier, verdicts, n, m, prog, m', hTries, hAll, hCount, hNext⟩
    obtain ⟨fuel, stage', r, hGaveUp, hOther⟩ := reduce_usedUp
      ⟨rejectedInARow history, maxFailures, minimizingCrash⟩
      ⟨Proposer.new testcase.input, false, testcase.input, []⟩ 0 hTries hAll hCount hNext
      (by show 0 + _ ≤ maxFailures; omega)
    obtain ⟨stage'', hUnused⟩ := hPerPass.unused fuel _ _ _ hGaveUp
    exact hOther _ hUnused
  · intro hNot
    have hUnused : ∀ fuel ending stage' r,
        (IrMinimizerStage.reducing σ fuel results
          ⟨rejectedInARow history, maxFailures, minimizingCrash⟩ testcase).run =
            some (.ok (ending, stage', r)) →
        ∃ stage'', (IrMinimizerStage.reducing σ fuel results
          (.new maxFailures minimizingCrash) testcase).run = some (.ok (ending, stage'', r)) := by
      intro fuel ending stage' r hRun
      refine reduce_lower hRun (Nat.zero_le _) ?_
      rcases Nat.eq_zero_or_pos (rejectedInARow history) with hZero | hPos
      · exact Or.inl hZero.symm
      · exact Or.inr fun hFirst => hNot ⟨hPos, hFirst⟩
    refine ⟨fun fuel stage' r hRun => ?_, hUnused⟩
    -- the counter of an unused stage counts what this call rejects
    obtain ⟨stage'', hRun'⟩ := hUnused fuel _ _ _ hRun
    obtain ⟨hCounter, -, -, hGave⟩ := reduce_log [] hRun' rfl
    rw [List.append_nil] at hCounter
    have hMore := hGave rfl
    rw [hCounter] at hMore
    exact Nat.le_of_lt hMore

/-- An entry of one probe, kept for an index that its nop does not cover. -/
def probeEntry : Testcase where
  input := ⟨⟨0, 0, 0⟩, [⟨[], .probe⟩]⟩
  scheduledCount := 0
  novelties := some [0]

def nothingCovered : Results := fun _ => some ⟨.ok, fun _ => false⟩

theorem gives_up_per_pass_iff_probeEntry :
    PerPass NoppingMinimizer (.new 200 false) nothingCovered probeEntry :=
  (gives_up_per_pass_iff .new nothingCovered probeEntry).mpr fun hCut => Nat.lt_irrefl 0 hCut.1

/-- The only candidate of the entry, before it is judged and after it is rejected. -/
theorem probeEntry_candidate : ∃ prog,
    Proposer.next (Proposer.new probeEntry.input : NoppingMinimizer) =
        .ok (some prog, (⟨probeEntry.input, some prog, 0⟩ : NoppingMinimizer)) ∧
      prog.isStaticallyValid = .ok true ∧
      Proposer.next (⟨probeEntry.input, none, 1⟩ : NoppingMinimizer) =
        .ok (none, (⟨probeEntry.input, none, 1⟩ : NoppingMinimizer)) := by
  refine ⟨⟨⟨0, 0, 0⟩, [⟨[], .nop 0 0⟩]⟩, ?_, by decide, ?_⟩
  · have hPropose : NoppingMinimizer.propose probeEntry.input 0 =
        .ok (some ⟨⟨0, 0, 0⟩, [⟨[], .nop 0 0⟩]⟩) := by decide
    show NoppingMinimizer.nextCandidate ⟨probeEntry.input, none, 0⟩ = _
    rw [NoppingMinimizer.nextCandidate, scanFrom, if_pos (by decide), hPropose]
    rfl
  · show NoppingMinimizer.nextCandidate ⟨probeEntry.input, none, 1⟩ = _
    rw [NoppingMinimizer.nextCandidate, scanFrom, if_neg (by decide)]
    rfl

theorem reducing_probeEntry {n : Nat} (hn : n ≤ 200) : ∃ r,
    (IrMinimizerStage.reducing NoppingMinimizer 2 nothingCovered ⟨n, 200, false⟩ probeEntry).run =
      some (.ok (.exhausted, ⟨n + 1, 200, false⟩, r)) ∧ r.success = false ∧ r.log = [.failure] := by
  obtain ⟨prog, hNext, hValid, hEnd⟩ := probeEntry_candidate
  have hTried : Tried false [0] (Proposer.new probeEntry.input : NoppingMinimizer) nothingCovered
      (some .failure) prog ⟨probeEntry.input, none, 1⟩ nothingCovered.later :=
    .failure hNext hValid rfl rfl rfl
  exact ⟨_, (reduce_tried ⟨n, 200, false⟩ hTried hn 1).trans (reduce_exhausted hEnd 0), rfl, rfl⟩

/-- Of two hundred and two such entries, none is tried on the last call. -/
theorem last_entry_is_not_tried : ∃ history stage r,
    Calls NoppingMinimizer 200 false history stage ∧
      (IrMinimizerStage.reducing NoppingMinimizer 1 nothingCovered stage probeEntry).run =
        some (.ok (.gaveUp, stage, r)) ∧ r.log = [] ∧
      ¬ PerPass NoppingMinimizer stage nothingCovered probeEntry := by
  have hCalls : ∀ n ≤ 201, ∃ history,
      Calls NoppingMinimizer 200 false history ⟨n, 200, false⟩ := by
    intro n hn
    -- each call before adds one failure to the counter of the stage
    induction n with
    | zero => exact ⟨[], .new⟩
    | succ n ih =>
      obtain ⟨history, hCalls⟩ := ih (by omega)
      obtain ⟨r, hReducing, hSuccess, -⟩ := reducing_probeEntry (n := n) (by omega)
      have hPerform : (IrMinimizerStage.perform NoppingMinimizer 2 nothingCovered ⟨n, 200, false⟩ 0
          probeEntry).run = some (.ok ⟨⟨n + 1, 200, false⟩, 0, probeEntry, r.log⟩) := by
        unfold IrMinimizerStage.perform
        rw [if_neg (by decide), ExceptT.run_bind, hReducing]
        show (if r.success = true then _ else _ : ExceptT Panic Option _).run = _
        rw [hSuccess]
        rfl
      exact ⟨_, hCalls.call hPerform⟩
  -- one more than the maximum, so the next call gives up at once
  obtain ⟨history, hCalls⟩ := hCalls 201 (Nat.le_refl _)
  obtain ⟨prog, hNext, -, -⟩ := probeEntry_candidate
  have hGaveUp : (IrMinimizerStage.reducing NoppingMinimizer 1 nothingCovered ⟨201, 200, false⟩
      probeEntry).run = some (.ok (.gaveUp, ⟨201, 200, false⟩,
        ⟨⟨probeEntry.input, some prog, 0⟩, false, probeEntry.input, []⟩)) :=
    reduce_gaveUp hNext (by decide) 0
  refine ⟨history, _, _, hCalls, hGaveUp, rfl, fun hPerPass => ?_⟩
  have hEnough : 200 ≤ 0 := hPerPass.gaveUp 1 _ _ hGaveUp
  omega

end Stratamoto
