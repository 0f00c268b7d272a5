import Stratamoto.Fuzzer.Mutating
import Stratamoto.Fuzzer.Reducing
import Stratamoto.Library.Machines

/-!
# Stratamoto — a fuzzing client

The stages that `instance.rs` puts together, over the corpus of a client. An entry is
scheduled; while one of the three minimizers has a success they all have a turn; then
the entry is mutated, time and again, and what a mutation makes is executed.

What LibAFL decides comes from outside: the entry that is next, the mutator, what the
executions give and what the feedbacks make of that. So a client is a machine, and its
turns are what happens next. A testcase is known by when it was added.

* `ClientState.step` — one turn;
* `Rounded`, `ClientState.round_spec` — what a turn of the minimizers makes of an entry.
-/

namespace Stratamoto

open Draws Machines Proposals Fuel Relation

/-! ## The machine -/

/-- The options that the stages read. -/
structure FuzzerOptions where
  staticCorpus : Bool
  /-- There is an input to minimize. -/
  minimizeInput : Bool
  deriving DecidableEq, Repr

/-- What the feedbacks make of an execution. -/
structure FeedbackResult where
  /-- The input is added to the corpus, with the indices it is kept for. -/
  interesting : Option (Option (List Nat))
  solution : Bool
  /-- The input is captured, to be verified. -/
  timedOut : Bool

inductive Activity where
  /-- Between two entries. -/
  | idle
  | minimizing (id keepMinimizing : Nat)
  | fuzzing (id : Nat)
  /-- With the input as the mutators have left it, and whether one of them has mutated it. -/
  | mutating (id : Nat) (input : Program) (mutated : Bool)
  | panicked (panic : Panic)

/-- What is drawn to splice with is in the corpus. -/
def Mutation.inCorpus (corpus : List Testcase) : Mutation → Bool
  | .concat id => id < corpus.length
  | .input | .operation | .setupConnection | .adversarialSetup | .rawFrame => true

/-- The entry that is being fuzzed. -/
def Activity.current : Activity → Option Nat
  | .minimizing id _ | .fuzzing id | .mutating id _ _ => some id
  | .idle | .panicked _ => none

structure ClientState where
  corpus : List Testcase
  solutions : List Program
  timeoutsToVerify : List Program
  cutting : IrMinimizerStage
  block : IrMinimizerStage
  nopping : IrMinimizerStage
  activity : Activity

/-- What happens next; the draws of a mutator begin with a state of its source. -/
inductive ClientTurn (ρ : Type) where
  /-- An input is imported from disk, or comes from another client. -/
  | load (input : Program) (result : FeedbackResult)
  | schedule (id : Nat)
  /-- The minimizers have a turn each. -/
  | round (cut block nop : Results) (fuel : Nat)
  | minimized
  /-- The mutational stage begins with a copy of the entry. -/
  | next
  | mutate (m : Mutation) (fuel : Nat) (r : ρ)
  | evaluate (result : FeedbackResult)
  | mutated
  /-- An input that timed out is evaluated again. -/
  | verify (i : Nat) (result : FeedbackResult)
  | verified
  | finish

namespace ClientState

variable {ρ : Type} (rng : RngExt ρ) (options : FuzzerOptions) (numRoles : Nat)

def new : ClientState where
  corpus := []
  solutions := []
  timeoutsToVerify := []
  cutting := .new 200 options.minimizeInput
  block := .new 200 options.minimizeInput
  nopping := .new 200 options.minimizeInput
  activity := .idle

/-- Put an input where the feedbacks want it. -/
def found (x : ClientState) (input : Program) (result : FeedbackResult) : ClientState :=
  { x with
    corpus := match result.interesting with
      | none => x.corpus
      | some novelties => x.corpus ++ [⟨input, 0, novelties⟩]
    solutions := if result.solution then x.solutions ++ [input] else x.solutions
    timeoutsToVerify :=
      if result.timedOut then x.timeoutsToVerify ++ [input] else x.timeoutsToVerify }

/-- The body of the `WhileStage`, on the entry. -/
def round (x : ClientState) (id : Nat) (testcase : Testcase) (cut block nop : Results) (fuel : Nat) :
    ExceptT Panic Option ClientState := do
  let a ← x.cutting.perform CuttingMinimizer fuel cut 0 testcase
  let b ← x.block.perform BlockMinimizer fuel block a.keepMinimizing a.testcase
  let c ← x.nopping.perform NoppingMinimizer fuel nop b.keepMinimizing b.testcase
  pure { x with
    corpus := x.corpus.set id c.testcase
    cutting := a.stage
    block := b.stage
    nopping := c.stage
    activity := .minimizing id c.keepMinimizing }

/-- The condition of the `WhileStage`. -/
def goesOn (keepMinimizing : Nat) : Bool :=
  (!options.staticCorpus || options.minimizeInput) && keepMinimizing > 0

/-- One turn, if it can be taken. -/
def step (x : ClientState) : ClientTurn ρ → Option ClientState
  | .load input result =>
    match x.activity with
    | .idle => some (x.found input result)
    | _ => none
  | .schedule id =>
    match x.activity with
    | .idle =>
      -- the entry is minimized once at least
      if id < x.corpus.length then some { x with activity := .minimizing id 1 } else none
    | _ => none
  | .round cut block nop fuel =>
    match x.activity with
    | .minimizing id keepMinimizing =>
      if goesOn options keepMinimizing then
        match x.corpus[id]? with
        | none => none
        | some testcase =>
          match (x.round id testcase cut block nop fuel).run with
          | none => none
          | some (.error panic) => some { x with activity := .panicked panic }
          | some (.ok x) => some x
      else none
    | _ => none
  | .minimized =>
    match x.activity with
    | .minimizing id keepMinimizing =>
      if goesOn options keepMinimizing then none else some { x with activity := .fuzzing id }
    | _ => none
  | .next =>
    match x.activity with
    | .fuzzing id =>
      -- a crash is only minimized
      if options.minimizeInput then none
      else x.corpus[id]?.map fun testcase =>
        { x with activity := .mutating id testcase.input false }
    | _ => none
  | .mutate m fuel r =>
    match x.activity with
    | .mutating id input mutated =>
      if m.inCorpus x.corpus then
        match m.mutate rng numRoles x.corpus (some id) fuel input r with
        | none => none
        | some (.error panic) => some { x with activity := .panicked panic }
        | some (.ok ((result, input), _)) =>
          some { x with activity := .mutating id input (mutated || result == .mutated) }
      else none
    | _ => none
  | .evaluate result =>
    match x.activity with
    | .mutating _ input true => some (x.found input result)
    | _ => none
  | .mutated =>
    match x.activity with
    | .mutating id _ _ => some { x with activity := .fuzzing id }
    | _ => none
  | .verify i result =>
    match x.activity with
    | .fuzzing _ =>
      -- nothing is captured meanwhile
      x.timeoutsToVerify[i]?.map fun input => x.found input { result with timedOut := false }
    | _ => none
  | .verified =>
    match x.activity with
    | .fuzzing _ => some { x with timeoutsToVerify := [] }
    | _ => none
  | .finish =>
    match x.activity with
    | .fuzzing id =>
      some { x with
        corpus := x.corpus.modify id fun t => { t with scheduledCount := t.scheduledCount + 1 }
        activity := .idle }
    | _ => none

end ClientState

/-! ## A round -/

/-- A candidate of one of the minimizers that was executed and kept. -/
inductive KeptIn (minimizingCrash : Bool) (novelties : List Nat) (cut block nop : Results)
    (prog : Program) : Prop where
  | cutting (p : Program) :
    Kept minimizingCrash novelties (Proposer.new p : CuttingMinimizer) cut prog →
      KeptIn minimizingCrash novelties cut block nop prog
  | block (p : Program) :
    Kept minimizingCrash novelties (Proposer.new p : BlockMinimizer) block prog →
      KeptIn minimizingCrash novelties cut block nop prog
  | nopping (p : Program) :
    Kept minimizingCrash novelties (Proposer.new p : NoppingMinimizer) nop prog →
      KeptIn minimizingCrash novelties cut block nop prog

/-- What is valid, and short enough to be counted. -/
structure Countable (p : Program) : Prop where
  valid : p.isStaticallyValid = .ok true
  length : p.instructions.length ≤ usizeMax

/-- All three minimizers can begin with it. -/
theorem Countable.cutting {p : Program} (h : Countable p) :
    CuttingMinimizer.Inv (Proposer.new p) := ⟨isStaticallyValid_iff.mp h.valid, Nat.le_refl _⟩

theorem Countable.block {p : Program} (h : Countable p) : BlockMinimizer.Inv (Proposer.new p) :=
  ⟨isStaticallyValid_iff.mp h.valid, h.length, Nat.zero_le _⟩

theorem Countable.nopping {p : Program} (h : Countable p) : NoppingMinimizer.Inv (Proposer.new p) :=
  ⟨isStaticallyValid_iff.mp h.valid, h.length, Nat.zero_le _⟩

/-- What some turns of the minimizers make of an entry: nothing, or what was kept in one of
them without its nops. -/
structure Rounded (kept : Program → Prop) (t t' : Testcase) (successes : Nat) : Prop where
  scheduledCount : t'.scheduledCount = t.scheduledCount
  novelties : t'.novelties = t.novelties
  input : (t'.input = t.input ∧ successes = 0) ∨ (t.scheduledCount = 0 ∧ 0 < successes ∧
    t'.input.isStaticallyValid = .ok true ∧ t'.input.context = t.input.context ∧
    t'.input.instructions.length < t.input.instructions.length ∧
    ∃ prog, kept prog ∧ prog.removeNops = .ok t'.input)

theorem Rounded.refl (kept : Program → Prop) (t : Testcase) : Rounded kept t t 0 :=
  ⟨rfl, rfl, Or.inl ⟨rfl, rfl⟩⟩

theorem Rounded.countable {kept : Program → Prop} {t t' : Testcase} {k : Nat}
    (h : Rounded kept t t' k) (ht : Countable t.input) : Countable t'.input := by
  rcases h.input with ⟨hSame, -⟩ | ⟨-, -, hValid, -, hShorter, -⟩
  · exact hSame ▸ ht
  · exact ⟨hValid, Nat.le_trans (Nat.le_of_lt hShorter) ht.length⟩

/-- One more call, of any of the minimizers. -/
theorem Rounded.stores {σ : Type} [Minimizer σ] {kept : Program → Prop} {t t' : Testcase} {k : Nat}
    (h : Rounded kept t t' k) {stage : IrMinimizerStage} {results : Results} {new : Program → σ}
    {performed : IrMinimizerStage.Performed} (hStores : Stores stage k t' results new performed)
    (hKept : ∀ prog, Kept stage.minimizingCrash (t'.novelties.getD []) (new t'.input) results prog →
      kept prog) :
    Rounded kept t performed.testcase performed.keepMinimizing := by
  refine ⟨hStores.scheduledCount.trans h.scheduledCount, hStores.novelties.trans h.novelties, ?_⟩
  rcases hStores.input with ⟨hSame, hCount⟩ | ⟨hFirst, hCount, prog, hLess, hWas, hStored⟩
  · rw [hSame, hCount]
    exact h.input
  · -- what this call stores is smaller than what was there before it
    obtain ⟨hValid, hContext, hShorter⟩ := shrinks_of_stored hLess hStored
    refine Or.inr ⟨h.scheduledCount ▸ hFirst, by omega, hValid, ?_, ?_, prog, hKept prog hWas, hStored⟩
    · rcases h.input with ⟨hBefore, -⟩ | ⟨-, -, -, hBefore, -⟩
      · rw [hContext, hBefore]
      · exact hContext.trans hBefore
    · rcases h.input with ⟨hBefore, -⟩ | ⟨-, -, -, -, hBefore, -⟩
      · rw [← hBefore]
        exact hShorter
      · exact hShorter.trans hBefore

namespace ClientState

section Rounds

variable {x x' : ClientState} {id : Nat} {t : Testcase} {cut block nop : Results} {fuel : Nat}

/-- The state after a round, but for the stages of the minimizers. -/
structure AfterRound (x : ClientState) (id : Nat) (t' : Testcase) (successes : Nat)
    (x' : ClientState) : Prop where
  corpus : x'.corpus = x.corpus.set id t'
  solutions : x'.solutions = x.solutions
  timeoutsToVerify : x'.timeoutsToVerify = x.timeoutsToVerify
  activity : x'.activity = .minimizing id successes
  cutting : x'.cutting.minimizingCrash = x.cutting.minimizingCrash
  block : x'.block.minimizingCrash = x.block.minimizingCrash
  nopping : x'.nopping.minimizingCrash = x.nopping.minimizingCrash

/-- **A round does not fail**, and does with the entry what the minimizers do. -/
theorem round_spec {crash : Bool} (hCut : x.cutting.minimizingCrash = crash)
    (hBlock : x.block.minimizingCrash = crash) (hNop : x.nopping.minimizingCrash = crash)
    (ht : Countable t.input) {out : Except Panic ClientState}
    (hRun : (x.round id t cut block nop fuel).run = some out) :
    ∃ x' t' successes, out = .ok x' ∧ AfterRound x id t' successes x' ∧
      Rounded (KeptIn crash (t.novelties.getD []) cut block nop) t t' successes := by
  unfold round at hRun
  rw [ExceptT.run_bind] at hRun
  obtain ⟨a, hA, hRest⟩ := Option.bind_eq_some_iff.mp hRun
  obtain ⟨a, rfl, hFirst⟩ := perform_stores CuttingMinimizer.descends CuttingMinimizer.steady
    ht.cutting rfl hA
  have hOne := (Rounded.refl (KeptIn crash (t.novelties.getD []) cut block nop) t).stores hFirst
    fun prog hKept => .cutting t.input (hCut ▸ hKept)
  have ha := hOne.countable ht
  replace hRest : (_ >>= _ : ExceptT Panic Option ClientState).run = some out := hRest
  rw [ExceptT.run_bind] at hRest
  obtain ⟨b, hB, hRest⟩ := Option.bind_eq_some_iff.mp hRest
  obtain ⟨b, rfl, hSecond⟩ := perform_stores BlockMinimizer.descends BlockMinimizer.steady
    ha.block rfl hB
  have hTwo := hOne.stores hSecond fun prog hKept =>
    .block a.testcase.input (hBlock ▸ hOne.novelties ▸ hKept)
  have hb := hTwo.countable ht
  replace hRest : (_ >>= _ : ExceptT Panic Option ClientState).run = some out := hRest
  rw [ExceptT.run_bind] at hRest
  obtain ⟨c, hC, hRest⟩ := Option.bind_eq_some_iff.mp hRest
  obtain ⟨c, rfl, hThird⟩ := perform_stores NoppingMinimizer.descends NoppingMinimizer.steady
    hb.nopping rfl hC
  have hThree := hTwo.stores hThird fun prog hKept =>
    .nopping b.testcase.input (hNop ▸ hTwo.novelties ▸ hKept)
  obtain rfl := Option.some.inj hRest
  exact ⟨_, c.testcase, c.keepMinimizing, rfl, ⟨rfl, rfl, rfl, rfl, hFirst.minimizingCrash,
    hSecond.minimizingCrash, hThird.minimizingCrash⟩, hThree⟩

end Rounds

end ClientState

end Stratamoto
