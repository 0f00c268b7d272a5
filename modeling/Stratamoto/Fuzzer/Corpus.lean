import Stratamoto.Fuzzer.Instance
import Stratamoto.Harness.Verdicts

/-!
# Stratamoto — the corpus over a whole run

What a client's corpus holds, whatever is scheduled, drawn, executed and found
interesting, and in whatever order.

* `Takes`, `takes_of_step` — what one turn does, where the corpus is in order;
* `corpus_stays_valid` — what the corpus and the solutions hold after any run;
* `fuzzed_entries_stay` — an entry changes only while it is fuzzed for the first time;
* `stored_acts_like_kept` — what minimizing stores, and what was executed for it;
* `minimizing_ends` — how often the minimizers have a turn.
-/

namespace Stratamoto

open Draws Machines Proposals Fuel

namespace ClientState

variable {ρ : Type} {rng : RngExt ρ} {options : FuzzerOptions} {numRoles : Nat}
  {x x' : ClientState}

/-! ## One turn -/

/-- Every program that the client has. -/
structure All (P : Program → Prop) (x : ClientState) : Prop where
  corpus : ∀ t ∈ x.corpus, P t.input
  solutions : ∀ p ∈ x.solutions, P p
  timeoutsToVerify : ∀ p ∈ x.timeoutsToVerify, P p
  input : ∀ id input mutated, x.activity = .mutating id input mutated → P input

theorem All.imp {P Q : Program → Prop} (h : x.All P) (hImp : ∀ p, P p → Q p) : x.All Q where
  corpus := fun t ht => hImp _ (h.corpus t ht)
  solutions := fun p hp => hImp _ (h.solutions p hp)
  timeoutsToVerify := fun p hp => hImp _ (h.timeoutsToVerify p hp)
  input := fun id input mutated hEq => hImp _ (h.input id input mutated hEq)

/-- The stages know what is minimized, and what is fuzzed is in the corpus. -/
structure InOrder (options : FuzzerOptions) (x : ClientState) : Prop where
  cutting : x.cutting.minimizingCrash = options.minimizeInput
  block : x.block.minimizingCrash = options.minimizeInput
  nopping : x.nopping.minimizingCrash = options.minimizeInput
  current : ∀ id, x.activity.current = some id → id < x.corpus.length
  programs : x.All Countable
  running : ∀ panic, x.activity ≠ .panicked panic

/-- What a turn does. -/
inductive Takes (options : FuzzerOptions) (x : ClientState) : ClientTurn ρ → ClientState → Prop
  | load (input : Program) (result : FeedbackResult) : x.activity = .idle →
    Takes options x (.load input result) (x.found input result)
  | schedule (id : Nat) : x.activity = .idle → id < x.corpus.length →
    Takes options x (.schedule id) { x with activity := .minimizing id 1 }
  | round {id keepMinimizing : Nat} {t t' : Testcase} {successes : Nat} {x' : ClientState}
      (cut block nop : Results) (fuel : Nat) : x.activity = .minimizing id keepMinimizing →
    goesOn options keepMinimizing = true → x.corpus[id]? = some t → AfterRound x id t' successes x' →
    Rounded (KeptIn options.minimizeInput (t.novelties.getD []) cut block nop) t t' successes →
    Takes options x (.round cut block nop fuel) x'
  | minimized {id keepMinimizing : Nat} : x.activity = .minimizing id keepMinimizing →
    goesOn options keepMinimizing = false →
    Takes options x .minimized { x with activity := .fuzzing id }
  | next {id : Nat} {t : Testcase} : x.activity = .fuzzing id → x.corpus[id]? = some t →
    Takes options x .next { x with activity := .mutating id t.input false }
  | mutate {id : Nat} {input input' : Program} {mutated : Bool} {result : MutationResult}
      (m : Mutation) (fuel : Nat) (r : ρ) : x.activity = .mutating id input mutated →
    Accepts input (result, input') →
    -- only an entry that has been fuzzed is spliced, and not with itself
    (∀ drawn, m = .concat drawn → result = .mutated → drawn ≠ id ∧
      ∃ t, x.corpus[drawn]? = some t ∧ 0 < t.scheduledCount) →
    Takes options x (.mutate m fuel r)
      { x with activity := .mutating id input' (mutated || result == .mutated) }
  | evaluate {id : Nat} {input : Program} (result : FeedbackResult) :
    x.activity = .mutating id input true →
    Takes options x (.evaluate result) (x.found input result)
  | mutated {id : Nat} {input : Program} {mutated : Bool} : x.activity = .mutating id input mutated →
    Takes options x .mutated { x with activity := .fuzzing id }
  | verify {id i : Nat} {input : Program} (result : FeedbackResult) : x.activity = .fuzzing id →
    x.timeoutsToVerify[i]? = some input →
    Takes options x (.verify i result) (x.found input { result with timedOut := false })
  | verified {id : Nat} : x.activity = .fuzzing id →
    Takes options x .verified { x with timeoutsToVerify := [] }
  | finish {id : Nat} : x.activity = .fuzzing id → Takes options x .finish
    { x with
      corpus := x.corpus.modify id fun t => { t with scheduledCount := t.scheduledCount + 1 }
      activity := .idle }

/-- What is spliced in has been fuzzed, and is another entry. -/
theorem scheduled_of_spliced {corpus : List Testcase} {current drawn : Nat} {input : Program}
    {r r' : ρ} {out : Program}
    (h : IrSpliceMutator.mutate corpus (some current) drawn input r =
      some (.ok ((.mutated, out), r'))) :
    drawn ≠ current ∧ ∃ t, corpus[drawn]? = some t ∧ 0 < t.scheduledCount := by
  have hSkipped : ∀ {out r'}, (pure (.skipped, input) : Draw Panic ρ (MutationResult × Program)) r =
      some (.ok ((.mutated, out), r')) → False := fun h => by cases h
  unfold IrSpliceMutator.mutate at h
  by_cases hSame : some current = some drawn
  · rw [if_pos hSame] at h
    exact (hSkipped h).elim
  · rw [if_neg hSame] at h
    cases ht : corpus[drawn]? with
    | none =>
      rw [ht] at h
      cases h
    | some t =>
      simp only [ht] at h
      by_cases hFresh : t.scheduledCount = 0
      · rw [if_pos hFresh] at h
        exact (hSkipped h).elim
      · exact ⟨fun hEq => hSame (by rw [hEq]), t, rfl, Nat.pos_of_ne_zero hFresh⟩

/-- **What a turn does**: with the corpus in order no turn panics. -/
theorem takes_of_step (hOrder : x.InOrder options) {turn : ClientTurn ρ}
    (h : x.step rng options numRoles turn = some x') : Takes options x turn x' := by
  cases turn with
  | load input result =>
    simp only [step] at h
    split at h
    · rename_i hIdle
      exact Option.some.inj h ▸ .load input result hIdle
    · cases h
  | schedule id =>
    simp only [step] at h
    split at h
    · rename_i hIdle
      split at h
      · rename_i hId
        exact Option.some.inj h ▸ .schedule id hIdle hId
      · cases h
    · cases h
  | round cut block nop fuel =>
    simp only [step] at h
    split at h
    · rename_i id keepMinimizing hMinimizing
      split at h
      · rename_i hGoes
        split at h
        · cases h
        · rename_i t ht
          have hCountable := hOrder.programs.corpus t (List.mem_of_getElem? ht)
          split at h
          · cases h
          · rename_i panic hRound
            obtain ⟨_, _, _, hElse, -⟩ :=
              round_spec hOrder.cutting hOrder.block hOrder.nopping hCountable hRound
            cases hElse
          · rename_i y hRound
            obtain ⟨y', t', successes, hHere, hAfter, hRounded⟩ :=
              round_spec hOrder.cutting hOrder.block hOrder.nopping hCountable hRound
            obtain rfl := Except.ok.inj hHere
            exact Option.some.inj h ▸
              .round cut block nop fuel hMinimizing hGoes ht hAfter hRounded
      · cases h
    · cases h
  | minimized =>
    simp only [step] at h
    split at h
    · rename_i hMinimizing
      split at h
      · cases h
      · rename_i hOver
        exact Option.some.inj h ▸ .minimized hMinimizing (Bool.not_eq_true _ ▸ hOver)
    · cases h
  | next =>
    simp only [step] at h
    split at h
    · rename_i hFuzzing
      split at h
      · cases h
      · obtain ⟨t, ht, rfl⟩ := Option.map_eq_some_iff.mp h
        exact .next hFuzzing ht
    · cases h
  | mutate m fuel r =>
    simp only [step] at h
    split at h
    · rename_i id input mutated hMutating
      split at h
      · rename_i hIn
        have hAccepts := mutation_accepts rng numRoles (some id) fuel
          (hOrder.programs.input id input mutated hMutating).valid
          (fun t ht => (hOrder.programs.corpus t ht).valid) m
          fun drawn hm => by
            rw [hm] at hIn
            exact of_decide_eq_true hIn
        split at h
        · cases h
        · rename_i panic hRun
          obtain ⟨_, _, hElse, -⟩ := hAccepts r _ hRun
          cases hElse
        · rename_i result input' r' hRun
          obtain ⟨_, _, hHere, hOut⟩ := hAccepts r _ hRun
          obtain ⟨rfl, -⟩ := Prod.mk.inj (Except.ok.inj hHere)
          refine Option.some.inj h ▸ .mutate m fuel r hMutating hOut fun drawn hm hMutated => ?_
          subst hm hMutated
          exact scheduled_of_spliced hRun
      · cases h
    · cases h
  | evaluate result =>
    simp only [step] at h
    split at h
    · rename_i hMutating
      exact Option.some.inj h ▸ .evaluate result hMutating
    · cases h
  | mutated =>
    simp only [step] at h
    split at h
    · rename_i hMutating
      exact Option.some.inj h ▸ .mutated hMutating
    · cases h
  | verify i result =>
    simp only [step] at h
    split at h
    · rename_i hFuzzing
      obtain ⟨input, hInput, rfl⟩ := Option.map_eq_some_iff.mp h
      exact .verify result hFuzzing hInput
    · cases h
  | verified =>
    simp only [step] at h
    split at h
    · rename_i hFuzzing
      exact Option.some.inj h ▸ .verified hFuzzing
    · cases h
  | finish =>
    simp only [step] at h
    split at h
    · rename_i hFuzzing
      exact Option.some.inj h ▸ .finish hFuzzing
    · cases h

/-! ## What is kept -/

/-- What is found is put where it belongs, and what there is stays. -/
theorem All.found {P : Program → Prop} (h : x.All P) {input : Program} (hInput : P input)
    (result : FeedbackResult) : (x.found input result).All P := by
  have hAdds : ∀ {b : Bool} {programs : List Program}, (∀ p ∈ programs, P p) →
      ∀ p ∈ if b then programs ++ [input] else programs, P p := by
    intro b programs hPrograms p hp
    split at hp
    · rcases List.mem_append.mp hp with hOld | hNew
      · exact hPrograms p hOld
      · exact List.mem_singleton.mp hNew ▸ hInput
    · exact hPrograms p hp
  refine ⟨fun t ht => ?_, hAdds h.solutions, hAdds h.timeoutsToVerify, h.input⟩
  unfold ClientState.found at ht
  cases hInteresting : result.interesting with
  | none =>
    simp only [hInteresting] at ht
    exact h.corpus t ht
  | some novelties =>
    simp only [hInteresting, List.mem_append, List.mem_singleton] at ht
    rcases ht with hOld | rfl
    · exact h.corpus t hOld
    · exact hInput

/-- **What holds of every program**: what is loaded has it, and what is made of a program
that has it by a mutation, or by minimizing it. -/
theorem Takes.all {P : Program → Prop} {turn : ClientTurn ρ} (h : Takes options x turn x')
    (hAll : x.All P) (hLoad : ∀ input result, turn = .load input result → P input)
    (hAccepts : ∀ p q, P p → Accepts p (.mutated, q) → P q)
    (hShrinks : ∀ p q, P p → q.isStaticallyValid = .ok true → q.context = p.context →
      q.instructions.length < p.instructions.length → P q) : x'.All P := by
  -- nothing is being mutated
  have hRest : ∀ {activity : Activity}, (∀ id input mutated, activity ≠ .mutating id input mutated) →
      ∀ id input mutated, activity = .mutating id input mutated → P input :=
    fun hNot id input mutated hEq => absurd hEq (hNot id input mutated)
  cases h with
  | load input result hIdle => exact hAll.found (hLoad input result rfl) result
  | schedule id hIdle hId =>
    exact ⟨hAll.corpus, hAll.solutions, hAll.timeoutsToVerify, hRest (by simp)⟩
  | round cut block nop fuel hMinimizing hGoes ht hAfter hRounded =>
    rename_i id keepMinimizing t t' successes
    refine ⟨fun t₀ ht₀ => ?_, hAfter.solutions ▸ hAll.solutions,
      hAfter.timeoutsToVerify ▸ hAll.timeoutsToVerify, hRest (by simp [hAfter.activity])⟩
    rw [hAfter.corpus] at ht₀
    rcases List.mem_or_eq_of_mem_set ht₀ with hOld | rfl
    · exact hAll.corpus t₀ hOld
    · have hBefore := hAll.corpus t (List.mem_of_getElem? ht)
      rcases hRounded.input with ⟨hSame, -⟩ | ⟨-, -, hValid, hContext, hShorter, -⟩
      · exact hSame ▸ hBefore
      · exact hShrinks _ _ hBefore hValid hContext hShorter
  | minimized => exact ⟨hAll.corpus, hAll.solutions, hAll.timeoutsToVerify, hRest (by simp)⟩
  | next hFuzzing ht =>
    refine ⟨hAll.corpus, hAll.solutions, hAll.timeoutsToVerify, fun id input mutated hEq => ?_⟩
    obtain ⟨-, rfl, -⟩ := Activity.mutating.inj hEq
    exact hAll.corpus _ (List.mem_of_getElem? ht)
  | mutate m fuel r hMutating hOut hSpliced =>
    refine ⟨hAll.corpus, hAll.solutions, hAll.timeoutsToVerify, fun id input mutated hEq => ?_⟩
    obtain ⟨-, rfl, -⟩ := Activity.mutating.inj hEq
    have hBefore := hAll.input _ _ _ hMutating
    cases hOut with
    | skipped => exact hBefore
    | mutated hValid hContext hShort => exact hAccepts _ _ hBefore (.mutated hValid hContext hShort)
  | evaluate result hMutating => exact hAll.found (hAll.input _ _ _ hMutating) result
  | mutated => exact ⟨hAll.corpus, hAll.solutions, hAll.timeoutsToVerify, hRest (by simp)⟩
  | verify result hFuzzing hInput =>
    exact hAll.found (hAll.timeoutsToVerify _ (List.mem_of_getElem? hInput)) _
  | verified => exact ⟨hAll.corpus, hAll.solutions, by simp, hAll.input⟩
  | finish hFuzzing =>
    refine ⟨fun t ht => ?_, hAll.solutions, hAll.timeoutsToVerify, hRest (by simp)⟩
    obtain ⟨t₀, ht₀, hSame⟩ : ∃ t₀ ∈ x.corpus, t.input = t₀.input := by
      obtain ⟨n, hn⟩ := List.mem_iff_getElem?.mp ht
      rw [List.getElem?_modify] at hn
      obtain ⟨t₀, ht₀, rfl⟩ := Option.map_eq_some_iff.mp hn
      refine ⟨t₀, List.mem_of_getElem? ht₀, ?_⟩
      split <;> rfl
    exact hSame ▸ hAll.corpus t₀ ht₀

theorem Countable.accepts {p q : Program} (h : Accepts p (.mutated, q)) : Countable q := by
  cases h with
  | mutated hValid _ hShort => exact ⟨hValid, hShort.trans (by decide)⟩

/-- The corpus never gets shorter. -/
theorem length_found (x : ClientState) (input : Program) (result : FeedbackResult) :
    x.corpus.length ≤ (x.found input result).corpus.length := by
  unfold found
  cases result.interesting with
  | none => exact Nat.le_refl _
  | some novelties => simp

theorem Takes.inOrder {turn : ClientTurn ρ} (h : Takes options x turn x') (hOrder : x.InOrder options)
    (hLoad : ∀ input result, turn = .load input result → Countable input) : x'.InOrder options := by
  have hAll := h.all hOrder.programs hLoad (fun _ _ _ hAccepts => Countable.accepts hAccepts)
    fun p q hp hValid _ hShorter => ⟨hValid, (Nat.le_of_lt hShorter).trans hp.length⟩
  obtain ⟨hCut, hBlock, hNop, hCurrent, -, hRunning⟩ := hOrder
  cases h with
  | load input result hIdle =>
    exact ⟨hCut, hBlock, hNop, fun id hId => (hCurrent id hId).trans_le (length_found ..), hAll,
      hRunning⟩
  | schedule id hIdle hId =>
    exact ⟨hCut, hBlock, hNop, fun id' hEq => Option.some.inj hEq ▸ hId, hAll, by simp⟩
  | round cut block nop fuel hMinimizing hGoes ht hAfter hRounded =>
    refine ⟨hAfter.cutting.trans hCut, hAfter.block.trans hBlock, hAfter.nopping.trans hNop,
      fun id hId => ?_, hAll, by simp [hAfter.activity]⟩
    rw [hAfter.activity] at hId
    rw [hAfter.corpus, List.length_set]
    exact hCurrent id (hMinimizing ▸ hId)
  | minimized hMinimizing hOver =>
    exact ⟨hCut, hBlock, hNop, fun id hId => hCurrent id (hMinimizing ▸ hId), hAll, by simp⟩
  | next hFuzzing ht =>
    exact ⟨hCut, hBlock, hNop, fun id hId => hCurrent id (hFuzzing ▸ hId), hAll, by simp⟩
  | mutate m fuel r hMutating hOut hSpliced =>
    exact ⟨hCut, hBlock, hNop, fun id hId => hCurrent id (hMutating ▸ hId), hAll, by simp⟩
  | evaluate result hMutating =>
    exact ⟨hCut, hBlock, hNop, fun id hId => (hCurrent id hId).trans_le (length_found ..), hAll,
      hRunning⟩
  | mutated hMutating =>
    exact ⟨hCut, hBlock, hNop, fun id hId => hCurrent id (hMutating ▸ hId), hAll, by simp⟩
  | verify result hFuzzing hInput =>
    exact ⟨hCut, hBlock, hNop, fun id hId => (hCurrent id hId).trans_le (length_found ..), hAll,
      hRunning⟩
  | verified => exact ⟨hCut, hBlock, hNop, hCurrent, hAll, hRunning⟩
  | finish hFuzzing =>
    exact ⟨hCut, hBlock, hNop, fun id hId => by simp [Activity.current] at hId, hAll, by simp⟩

/-! ## Runs -/

/-- What is loaded in a run. -/
def loads (turns : List (ClientTurn ρ)) : List Program :=
  turns.filterMap fun
    | .load input _ => some input
    | _ => none

theorem mem_loads {turns : List (ClientTurn ρ)} {turn : ClientTurn ρ} {input : Program}
    {result : FeedbackResult} (hTurn : turn = .load input result) :
    input ∈ loads (turns ++ [turn]) := by
  subst hTurn
  simp [loads]

theorem loads_append (turns more : List (ClientTurn ρ)) :
    loads (turns ++ more) = loads turns ++ loads more := List.filterMap_append ..

theorem all_new (options : FuzzerOptions) {P : Program → Prop} : (new options).All P :=
  ⟨by simp [new], by simp [new], by simp [new], by simp [new]⟩

theorem inOrder_new (options : FuzzerOptions) : (new options).InOrder options :=
  ⟨rfl, rfl, rfl, by simp [new, Activity.current], all_new options, by simp [new]⟩

theorem inOrder_exec {turns : List (ClientTurn ρ)}
    (h : exec (step rng options numRoles) (new options) turns = some x)
    (hLoads : ∀ p ∈ loads turns, Countable p) : x.InOrder options := by
  refine exec_trace (P := fun turns x => (∀ p ∈ loads turns, Countable p) → x.InOrder options)
    ?_ ?_ h hLoads
  · exact fun _ => inOrder_new options
  · intro turns y turn z hExec hBefore hStep hLoads
    rw [loads_append] at hLoads
    have hOrder := hBefore fun p hp => hLoads p (List.mem_append_left _ hp)
    refine (takes_of_step hOrder hStep).inOrder hOrder fun input result hTurn => hLoads input ?_
    rw [← loads_append]
    exact mem_loads hTurn

/-- A program that the client may have: a valid one, of the context of one that was loaded, and
of no more instructions than a mutation allows, or such a one has. -/
structure Fit (loaded : List Program) (p : Program) : Prop where
  valid : p.isStaticallyValid = .ok true
  context : ∃ q ∈ loaded, p.context = q.context
  length : p.instructions.length ≤ maxInstructions ∨
    ∃ q ∈ loaded, p.instructions.length ≤ q.instructions.length

/-- All that the client has is fit, if what was loaded is. -/
theorem fit_exec {turns : List (ClientTurn ρ)} {x : ClientState}
    (h : exec (step rng options numRoles) (new options) turns = some x)
    (hLoads : ∀ p ∈ loads turns, Countable p) : x.All (Fit (loads turns)) := by
  refine exec_trace (P := fun turns x => (∀ p ∈ loads turns, Countable p) → x.All (Fit (loads turns)))
    ?_ ?_ h hLoads
  · exact fun _ => all_new options
  · intro turns y turn z hExec hBefore hStep hLoads
    rw [loads_append] at hLoads
    have hFront : ∀ p ∈ loads turns, Countable p := fun p hp =>
      hLoads p (List.mem_append_left _ hp)
    have hMore : ∀ {p}, Fit (loads turns) p → Fit (loads (turns ++ [turn])) p := by
      rintro p ⟨hValid, ⟨q, hq, hContext⟩, hLength⟩
      rw [loads_append]
      refine ⟨hValid, ⟨q, List.mem_append_left _ hq, hContext⟩, hLength.imp_right ?_⟩
      rintro ⟨q', hq', hLe⟩
      exact ⟨q', List.mem_append_left _ hq', hLe⟩
    have hAll := hBefore hFront
    refine (takes_of_step (inOrder_exec hExec hFront) hStep).all ⟨fun t ht => hMore (hAll.corpus t ht),
      fun p hp => hMore (hAll.solutions p hp), fun p hp => hMore (hAll.timeoutsToVerify p hp),
      fun id input mutated hEq => hMore (hAll.input id input mutated hEq)⟩ ?_ ?_ ?_
    · intro input result hTurn
      have hMem : input ∈ loads (turns ++ [turn]) := mem_loads hTurn
      exact ⟨(hLoads input (loads_append turns [turn] ▸ hMem)).valid, ⟨input, hMem, rfl⟩,
        Or.inr ⟨input, hMem, Nat.le_refl _⟩⟩
    · intro p q hp hAccepts
      cases hAccepts with
      | mutated hValid hContext hShort =>
        obtain ⟨q', hq', hSame⟩ := hp.context
        exact ⟨hValid, ⟨q', hq', hContext.trans hSame⟩, Or.inl hShort⟩
    · intro p q hp hValid hContext hShorter
      obtain ⟨q', hq', hSame⟩ := hp.context
      refine ⟨hValid, ⟨q', hq', hContext.trans hSame⟩, ?_⟩
      rcases hp.length with hShort | ⟨l, hl, hLe⟩
      · exact Or.inl ((Nat.le_of_lt hShorter).trans hShort)
      · exact Or.inr ⟨l, hl, (Nat.le_of_lt hShorter).trans hLe⟩

/-- **The corpus stays valid**, and so does all else the client has, and no mutator and no
minimizer panics: whatever happens in a run, if what was loaded is valid. -/
theorem corpus_stays_valid (rng : RngExt ρ) (options : FuzzerOptions) (numRoles : Nat)
    {turns : List (ClientTurn ρ)} {x : ClientState}
    (h : exec (step rng options numRoles) (new options) turns = some x)
    (hLoads : ∀ p ∈ loads turns, Countable p) :
    x.All (Fit (loads turns)) ∧ ∀ panic, x.activity ≠ .panicked panic :=
  ⟨fit_exec h hLoads, (inOrder_exec h hLoads).running⟩

/-- The corpus has one program. -/
def loading : List (ClientTurn Unit) :=
  [.load singleSetup ⟨some (some [0]), false, false⟩, .schedule 0]

/-- Another connection is put into it, and what that gives is a solution. -/
def inserting : List (ClientTurn Unit) :=
  loading ++ [.minimized, .next, .mutate .setupConnection 0 (), .evaluate ⟨none, true, false⟩,
    .mutated, .finish]

theorem countable_singleSetup : Countable singleSetup := ⟨by decide, by decide⟩

theorem countable_loading : ∀ p ∈ loads loading, Countable p := by
  intro p hp
  obtain rfl := List.mem_singleton.mp hp
  exact countable_singleSetup

set_option maxRecDepth 4000 in
theorem inserting_runs : ∃ x, exec (step lowest ⟨true, false⟩ 1) (new ⟨true, false⟩) inserting =
    some x ∧ x.solutions.length = 1 := by
  have hRuns : (exec (step lowest ⟨true, false⟩ 1) (new ⟨true, false⟩) inserting).map
      (·.solutions.length) = some 1 := by decide
  exact Option.map_eq_some_iff.mp hRuns

theorem corpus_stays_valid_inserting : ∃ x,
    exec (step lowest ⟨true, false⟩ 1) (new ⟨true, false⟩) inserting = some x ∧
      x.solutions.length = 1 ∧ x.All (Fit [singleSetup]) := by
  obtain ⟨x, hx, hSolutions⟩ := inserting_runs
  exact ⟨x, hx, hSolutions, (corpus_stays_valid lowest ⟨true, false⟩ 1 hx countable_loading).1⟩

/-! ## One entry -/

/-- What a turn does to an entry that there is. -/
inductive EntryTakes (options : FuzzerOptions) (x x' : ClientState) (id : Nat) (t t' : Testcase) :
    ClientTurn ρ → Prop
  | same (turn : ClientTurn ρ) : t' = t → EntryTakes options x x' id t t' turn
  | finished : x.activity = .fuzzing id → t' = { t with scheduledCount := t.scheduledCount + 1 } →
    EntryTakes options x x' id t t' .finish
  | rounded {keepMinimizing successes : Nat} (cut block nop : Results) (fuel : Nat) :
    x.activity = .minimizing id keepMinimizing → x'.activity = .minimizing id successes →
    Rounded (KeptIn options.minimizeInput (t.novelties.getD []) cut block nop) t t' successes →
    EntryTakes options x x' id t t' (.round cut block nop fuel)

theorem corpus_found (x : ClientState) (input : Program) (result : FeedbackResult) :
    (x.found input result).corpus = x.corpus ∨
      ∃ novelties, (x.found input result).corpus = x.corpus ++ [⟨input, 0, novelties⟩] := by
  unfold found
  cases result.interesting with
  | none => exact Or.inl rfl
  | some novelties => exact Or.inr ⟨novelties, rfl⟩

theorem getElem?_found {id : Nat} {t : Testcase} (ht : x.corpus[id]? = some t) (input : Program)
    (result : FeedbackResult) : (x.found input result).corpus[id]? = some t := by
  rcases x.corpus_found input result with hSame | ⟨novelties, hMore⟩
  · rw [hSame, ht]
  · rw [hMore, List.getElem?_append_left (List.getElem?_eq_some_iff.mp ht).1, ht]

theorem Takes.entry {turn : ClientTurn ρ} (h : Takes options x turn x') {id : Nat} {t : Testcase}
    (ht : x.corpus[id]? = some t) :
    ∃ t', x'.corpus[id]? = some t' ∧ EntryTakes options x x' id t t' turn := by
  cases h with
  | load input result | evaluate result | verify result =>
    exact ⟨t, getElem?_found ht .., .same _ rfl⟩
  | round cut block nop fuel hMinimizing hGoes hEntry hAfter hRounded =>
    rename_i id' keepMinimizing t₀ t' successes
    rw [hAfter.corpus]
    by_cases hId : id = id'
    · subst hId
      obtain rfl := Option.some.inj (ht.symm.trans hEntry)
      exact ⟨t', List.getElem?_set_self (List.getElem?_eq_some_iff.mp ht).1,
        .rounded cut block nop fuel hMinimizing hAfter.activity hRounded⟩
    · exact ⟨t, (List.getElem?_set_ne (Ne.symm hId)).trans ht, .same _ rfl⟩
  | finish hFuzzing =>
    rename_i id'
    by_cases hId : id' = id
    · subst hId
      exact ⟨_, by rw [List.getElem?_modify_eq, ht]; rfl, .finished hFuzzing rfl⟩
    · exact ⟨t, (List.getElem?_modify_ne _ _ hId).trans ht, .same _ rfl⟩
  | schedule | minimized | next | mutate | mutated | verified => exact ⟨t, ht, .same _ rfl⟩

/-- What a turn adds is put behind the corpus, and has not been fuzzed. -/
theorem Takes.added {turn : ClientTurn ρ} (h : Takes options x turn x') {id : Nat} {t : Testcase}
    (ht : x'.corpus[id]? = some t) (hNew : x.corpus[id]? = none) :
    id = x.corpus.length ∧ t.scheduledCount = 0 := by
  have hFound : ∀ {input result}, (x.found input result).corpus[id]? = some t →
      id = x.corpus.length ∧ t.scheduledCount = 0 := by
    intro input result hAt
    have hLe := List.getElem?_eq_none_iff.mp hNew
    rcases x.corpus_found input result with hSame | ⟨novelties, hMore⟩
    · rw [hSame, hNew] at hAt
      cases hAt
    · rw [hMore, List.getElem?_append_right hLe] at hAt
      have hZero : id - x.corpus.length = 0 := by
        have := (List.getElem?_eq_some_iff.mp hAt).1
        simpa using this
      rw [hZero] at hAt
      obtain rfl := Option.some.inj hAt
      exact ⟨by omega, rfl⟩
  cases h with
  | load input result | evaluate result | verify result => exact hFound ht
  | round cut block nop fuel hMinimizing hGoes hEntry hAfter hRounded =>
    have hLt := (List.getElem?_eq_some_iff.mp ht).1
    rw [hAfter.corpus, List.length_set] at hLt
    exact absurd (List.getElem?_eq_none_iff.mp hNew) (Nat.not_le.mpr hLt)
  | finish hFuzzing =>
    have hLt := (List.getElem?_eq_some_iff.mp ht).1
    rw [List.length_modify] at hLt
    exact absurd (List.getElem?_eq_none_iff.mp hNew) (Nat.not_le.mpr hLt)
  | schedule | minimized | next | mutate | mutated | verified =>
    cases hNew.symm.trans ht

/-! ## Entries that have been fuzzed -/

/-- There is minimizing at all. -/
def minimizes (options : FuzzerOptions) : Bool := !options.staticCorpus || options.minimizeInput

variable {turns more : List (ClientTurn ρ)}

/-- In the run, each minimizer had a turn with the program as the entry, and none had a
success. -/
def AtRest (rng : RngExt ρ) (options : FuzzerOptions) (numRoles : Nat) (turns : List (ClientTurn ρ))
    (id : Nat) (p : Program) : Prop :=
  ∃ front cut block nop fuel back y y' keepMinimizing t,
    turns = front ++ .round cut block nop fuel :: back ∧
    exec (step rng options numRoles) (new options) front = some y ∧
    y.step rng options numRoles (.round cut block nop fuel) = some y' ∧
    y.activity = .minimizing id keepMinimizing ∧ y'.activity = .minimizing id 0 ∧
    y.corpus[id]? = some t ∧ t.input = p

theorem AtRest.snoc {id : Nat} {p : Program} (h : AtRest rng options numRoles turns id p)
    (turn : ClientTurn ρ) : AtRest rng options numRoles (turns ++ [turn]) id p := by
  obtain ⟨front, cut, block, nop, fuel, back, y, y', k, t, rfl, hRest⟩ := h
  exact ⟨front, cut, block, nop, fuel, back ++ [turn], y, y', k, t, by simp, hRest⟩

/-- Who is at rest: what has been fuzzed, what is, and what is not minimized any more. -/
structure Resting (rng : RngExt ρ) (options : FuzzerOptions) (numRoles : Nat)
    (turns : List (ClientTurn ρ)) (x : ClientState) : Prop where
  fuzzed : ∀ id t, x.corpus[id]? = some t → 0 < t.scheduledCount →
    AtRest rng options numRoles turns id t.input
  current : ∀ id t, x.corpus[id]? = some t →
    (x.activity = .minimizing id 0 ∨ x.activity = .fuzzing id ∨
      ∃ input mutated, x.activity = .mutating id input mutated) →
    AtRest rng options numRoles turns id t.input

theorem resting_exec (hMinimizes : minimizes options = true)
    (h : exec (step rng options numRoles) (new options) turns = some x)
    (hLoads : ∀ p ∈ loads turns, Countable p) : Resting rng options numRoles turns x := by
  refine exec_trace (P := fun turns x => (∀ p ∈ loads turns, Countable p) →
    Resting rng options numRoles turns x) ?_ ?_ h hLoads
  · intro _
    exact ⟨by simp [new], by simp [new]⟩
  · intro turns y turn z hExec hBefore hStep hLoads
    rw [loads_append] at hLoads
    have hFront : ∀ p ∈ loads turns, Countable p := fun p hp =>
      hLoads p (List.mem_append_left _ hp)
    have hOrder := inOrder_exec hExec hFront
    have hTakes := takes_of_step hOrder hStep
    have hResting := hBefore hFront
    -- an entry that there was, and what the turn did to it
    have hEntry : ∀ id t', z.corpus[id]? = some t' →
        (∃ t, y.corpus[id]? = some t ∧ EntryTakes options y z id t t' turn) ∨
          (id = y.corpus.length ∧ t'.scheduledCount = 0) := by
      intro id t' ht'
      cases ht : y.corpus[id]? with
      | none => exact Or.inr (hTakes.added ht' ht)
      | some t =>
        obtain ⟨t'', ht'', hOne⟩ := hTakes.entry ht
        obtain rfl := Option.some.inj (ht'.symm.trans ht'')
        exact Or.inl ⟨t, rfl, hOne⟩
    refine ⟨fun id t' ht' hPos => ?_, fun id t' ht' hActivity => ?_⟩
    · rcases hEntry id t' ht' with ⟨t, ht, hOne⟩ | ⟨-, hFresh⟩
      · cases hOne with
        | same _ hSame => exact hSame ▸ (hResting.fuzzed id t ht (hSame ▸ hPos)).snoc turn
        | finished hFuzzing hSame =>
          exact hSame ▸ (hResting.current id t ht (Or.inr (Or.inl hFuzzing))).snoc _
        | rounded cut block nop fuel _ _ hRounded =>
          have hBefore := hRounded.scheduledCount ▸ hPos
          rcases hRounded.input with ⟨hSame, -⟩ | ⟨hZero, -⟩
          · exact hSame ▸ (hResting.fuzzed id t ht hBefore).snoc _
          · omega
      · omega
    · -- the entry is at rest after this turn, or was before it
      have hWas : (y.activity = .minimizing id 0 ∨ y.activity = .fuzzing id ∨
          ∃ input mutated, y.activity = .mutating id input mutated) →
          (∀ cut block nop fuel, turn ≠ .round cut block nop fuel) →
          AtRest rng options numRoles (turns ++ [turn]) id t'.input := by
        intro hActivity hNot
        have hLt := hOrder.current id (by
          rcases hActivity with hAt | hAt | ⟨_, _, hAt⟩ <;> rw [hAt] <;> rfl)
        rcases hEntry id t' ht' with ⟨t, ht, hOne⟩ | ⟨hId, -⟩
        · have hBefore := (hResting.current id t ht hActivity).snoc turn
          cases hOne with
          | same _ hSame => exact hSame ▸ hBefore
          | finished _ hSame => exact hSame ▸ hBefore
          | rounded cut block nop fuel => exact absurd rfl (hNot cut block nop fuel)
        · omega
      cases hTakes with
      | load input result hIdle =>
        rw [show (y.found input result).activity = y.activity from rfl, hIdle] at hActivity
        simp at hActivity
      | schedule id' => simp at hActivity
      | round cut block nop fuel hMinimizing hGoes hAtEntry hAfter hRounded =>
        rename_i id' k t₀ t₁ successes
        rw [hAfter.activity] at hActivity
        have hHere : Activity.minimizing id' successes = .minimizing id 0 := by
          rcases hActivity with hHere | hElse | ⟨_, _, hElse⟩
          · exact hHere
          · cases hElse
          · cases hElse
        obtain ⟨rfl, rfl⟩ := Activity.minimizing.inj hHere
        rw [hAfter.corpus, List.getElem?_set_self (List.getElem?_eq_some_iff.mp hAtEntry).1] at ht'
        obtain rfl := Option.some.inj ht'
        have hSame : t₁.input = t₀.input := by
          rcases hRounded.input with ⟨hSame, -⟩ | ⟨-, hMore, -⟩
          · exact hSame
          · omega
        exact ⟨turns, cut, block, nop, fuel, [], y, z, k, t₀, rfl, hExec, hStep, hMinimizing,
          hAfter.activity, hAtEntry, hSame.symm⟩
      | minimized hMinimizing hOver =>
        rename_i id' k
        obtain rfl : id' = id := by simpa using hActivity
        have hZero : k = 0 := by
          unfold goesOn at hOver
          rw [show (!options.staticCorpus || options.minimizeInput) = true from hMinimizes] at hOver
          simpa using hOver
        exact hWas (Or.inl (hZero ▸ hMinimizing)) (by simp)
      | next hFuzzing ht =>
        obtain rfl : _ = id := by simpa using hActivity
        exact hWas (Or.inr (Or.inl hFuzzing)) (by simp)
      | mutate m fuel r hMutating =>
        obtain rfl : _ = id := by simpa using hActivity
        exact hWas (Or.inr (Or.inr ⟨_, _, hMutating⟩)) (by simp)
      | evaluate result hMutating => exact hWas hActivity (by simp)
      | mutated hMutating =>
        obtain rfl : _ = id := by simpa using hActivity
        exact hWas (Or.inr (Or.inr ⟨_, _, hMutating⟩)) (by simp)
      | verify result hFuzzing => exact hWas hActivity (by simp)
      | verified hFuzzing => exact hWas hActivity (by simp)
      | finish hFuzzing => simp at hActivity

/-- Entries that have been fuzzed, at some moment of a run. -/
structure FuzzedStay (rng : RngExt ρ) (options : FuzzerOptions) (numRoles : Nat)
    (turns : List (ClientTurn ρ)) (x : ClientState) : Prop where
  /-- They stay as they are, whatever comes. -/
  stays : ∀ more x', (∀ p ∈ loads more, Countable p) →
    exec (step rng options numRoles) x more = some x' → ∀ (id : Nat) (t : Testcase),
      x.corpus[id]? = some t → 0 < t.scheduledCount →
        ∃ t', x'.corpus[id]? = some t' ∧ t'.input = t.input ∧ 0 < t'.scheduledCount
  /-- They were minimized until no minimizer had a success. -/
  atRest : minimizes options = true → ∀ (id : Nat) (t : Testcase), x.corpus[id]? = some t →
    0 < t.scheduledCount → AtRest rng options numRoles turns id t.input
  /-- Only they are spliced into another entry. -/
  spliced : ∀ drawn fuel r x', x.step rng options numRoles (.mutate (.concat drawn) fuel r) = some x' →
    x'.activity ≠ x.activity → x.activity.current ≠ some drawn ∧
      ∃ t, x.corpus[drawn]? = some t ∧ 0 < t.scheduledCount

theorem EntryTakes.of_fuzzed {turn : ClientTurn ρ} {id : Nat} {t t' : Testcase}
    (h : EntryTakes options x x' id t t' turn) (hFuzzed : 0 < t.scheduledCount) :
    t'.input = t.input ∧ 0 < t'.scheduledCount := by
  cases h with
  | same _ hSame => exact ⟨by rw [hSame], hSame ▸ hFuzzed⟩
  | finished _ hSame =>
    rw [hSame]
    exact ⟨rfl, Nat.succ_pos _⟩
  | rounded cut block nop fuel _ _ hRounded =>
    refine ⟨?_, hRounded.scheduledCount ▸ hFuzzed⟩
    rcases hRounded.input with ⟨hSame, -⟩ | ⟨hZero, -⟩
    · exact hSame
    · omega

/-- **An entry changes only while it is fuzzed for the first time**: from then on it stays, as
what it was minimized to, and can be spliced. -/
theorem fuzzed_entries_stay (rng : RngExt ρ) (options : FuzzerOptions) (numRoles : Nat)
    {turns : List (ClientTurn ρ)} {x : ClientState}
    (h : exec (step rng options numRoles) (new options) turns = some x)
    (hLoads : ∀ p ∈ loads turns, Countable p) : FuzzedStay rng options numRoles turns x := by
  refine ⟨fun more x' hMoreLoads hMore id t ht hFuzzed => ?_,
    fun hMinimizes => (resting_exec hMinimizes h hLoads).fuzzed,
    fun drawn fuel r x' hStep hChanged => ?_⟩
  · refine exec_trace (P := fun more x' => (∀ p ∈ loads more, Countable p) →
      ∃ t', x'.corpus[id]? = some t' ∧ t'.input = t.input ∧ 0 < t'.scheduledCount) ?_ ?_ hMore
      hMoreLoads
    · exact fun _ => ⟨t, ht, rfl, hFuzzed⟩
    · intro more y turn z hExec hBefore hStep hLoadsMore
      rw [loads_append] at hLoadsMore
      have hFront : ∀ p ∈ loads more, Countable p := fun p hp =>
        hLoadsMore p (List.mem_append_left _ hp)
      obtain ⟨t₁, ht₁, hSame, hFuzzed₁⟩ := hBefore hFront
      have hOrder := inOrder_exec (exec_append_iff.mpr ⟨x, h, hExec⟩) fun p hp => by
        rw [loads_append] at hp
        exact (List.mem_append.mp hp).elim (hLoads p) (hFront p)
      obtain ⟨t₂, ht₂, hOne⟩ := (takes_of_step hOrder hStep).entry ht₁
      obtain ⟨hInput, hFuzzed₂⟩ := hOne.of_fuzzed hFuzzed₁
      exact ⟨t₂, ht₂, hInput.trans hSame, hFuzzed₂⟩
  · have hTakes := takes_of_step (inOrder_exec h hLoads) hStep
    cases hTakes with
    | mutate m fuel r hMutating hOut hSpliced =>
      rename_i id input input' mutated result
      -- a mutation that was skipped changes nothing
      have hMutated : result = .mutated := by
        cases hOut with
        | skipped => exact absurd (by simp [hMutating]) hChanged
        | mutated => rfl
      obtain ⟨hOther, hFuzzed⟩ := hSpliced drawn rfl hMutated
      refine ⟨fun hCurrent => hOther ?_, hFuzzed⟩
      rw [hMutating] at hCurrent
      exact (Option.some.inj hCurrent).symm

/-- The first candidate that is executed still crashes. -/
def crashesOnce : Results := fun n => some ⟨if n = 0 then .crash else .ok, fun _ => false⟩

/-- A crash is minimized: the probe is nopped out, and then no minimizer has a success. -/
def minimizing : List (ClientTurn Unit) :=
  loading ++ [.round nothingCovered nothingCovered crashesOnce 20,
    .round nothingCovered nothingCovered nothingCovered 20, .minimized, .finish]

theorem minimizing_runs : ∃ x, exec (step lowest ⟨false, true⟩ 1) (new ⟨false, true⟩) minimizing =
    some x ∧ ∃ t, x.corpus[0]? = some t ∧ t.input.instructions.length = 7 ∧
      t.scheduledCount = 1 := by
  have hRuns : ((exec (step lowest ⟨false, true⟩ 1) (new ⟨false, true⟩) minimizing).map fun x =>
      x.corpus[0]?.map fun t => (t.input.instructions.length, t.scheduledCount)) =
        some (some (7, 1)) := by decide +kernel
  obtain ⟨x, hx, hEntry⟩ := Option.map_eq_some_iff.mp hRuns
  obtain ⟨t, ht, hEq⟩ := Option.map_eq_some_iff.mp hEntry
  obtain ⟨hLength, hCount⟩ := Prod.mk.inj hEq
  exact ⟨x, hx, t, ht, hLength, hCount⟩

theorem fuzzed_entries_stay_minimizing : ∃ x,
    exec (step lowest ⟨false, true⟩ 1) (new ⟨false, true⟩) minimizing = some x ∧
      (∃ t, x.corpus[0]? = some t ∧ t.scheduledCount = 1) ∧
      FuzzedStay lowest ⟨false, true⟩ 1 minimizing x := by
  obtain ⟨x, hx, t, ht, -, hCount⟩ := minimizing_runs
  exact ⟨x, hx, ⟨t, ht, hCount⟩, fuzzed_entries_stay lowest ⟨false, true⟩ 1 hx countable_loading⟩

/-! ## What is stored -/

/-- The second program does what the first one does: it compiles to the same actions, so that
every run of it is the same, and the oracles find fault with the same runs. -/
structure ActsLike (S : Sv2) (p q : Program) : Prop where
  compiled : ∀ c, Compiler.compile S p = .ok c → ∃ c', Compiler.compile S q = .ok c' ∧
    c'.actions = c.actions ∧ (∀ W fuel, run W fuel c' = run W fuel c) ∧ ∀ D execution,
      (HarnessIntegrityOracle.evaluate c' execution = .pass ↔
        HarnessIntegrityOracle.evaluate c execution = .pass) ∧
      (SetupConnectionOracle.evaluate D c' execution = .pass ↔
        SetupConnectionOracle.evaluate D c execution = .pass)
  refused : ∀ e, Compiler.compile S p = .error e → ∃ v v',
    e = .error (.stringTooLong v) ∧ Compiler.compile S q = .error (.error (.stringTooLong v'))

theorem integrity_of_pass {c : CompiledProgram} {execution : Execution}
    (h : HarnessIntegrityOracle.evaluate c execution = .pass) :
    execution.outcomes.length = c.actions.length ∧
      ∀ outcome ∈ execution.outcomes, ∀ e, outcome ≠ .harnessError e := by
  unfold HarnessIntegrityOracle.evaluate at h
  split at h
  · cases h
  · rename_i hTotal
    split at h
    · cases h
    · rename_i hNone
      refine ⟨by simpa [Execution.isTotal] using hTotal, fun outcome hMem e hError => ?_⟩
      obtain ⟨n, hn⟩ := List.mem_iff_getElem?.mp hMem
      have hAt := List.findSome?_eq_none_iff.mp hNone (outcome, n)
        (List.mem_zipIdx_iff_getElem?.mpr hn)
      rw [hError] at hAt
      cases hAt

theorem integrity_pass_iff_of_actions {c c' : CompiledProgram} (h : c'.actions = c.actions)
    (execution : Execution) : HarnessIntegrityOracle.evaluate c' execution = .pass ↔
      HarnessIntegrityOracle.evaluate c execution = .pass := by
  constructor
  · intro hPass
    obtain ⟨hTotal, hHarness⟩ := integrity_of_pass hPass
    exact HarnessIntegrityOracle.evaluate_eq_pass (by rw [hTotal, h]) hHarness
  · intro hPass
    obtain ⟨hTotal, hHarness⟩ := integrity_of_pass hPass
    exact HarnessIntegrityOracle.evaluate_eq_pass (by rw [hTotal, h]) hHarness

theorem judge_eq_none_iff_of_sameButIndices {var instruction : Nat → Nat} {c c' : CompiledProgram}
    (h : SameButIndices var instruction c c') (D : Deployment) (execution : Execution) (id : Nat)
    (action : Action) :
    SetupConnectionOracle.judge D c' execution id action = none ↔
      SetupConnectionOracle.judge D c execution id action = none := by
  unfold SetupConnectionOracle.judge
  cases action with
  | awaitSetupResponse connection session protocol first =>
    dsimp only
    rw [h.sessionSetups, h.violations]
    cases execution.outcome id with
    | none => simp
    | some outcome => exact Iff.rfl
  | enterOnSetupSuccess | exitBlock | connect | send | advanceTime | probe => exact Iff.rfl

/-- A nop is no setup that is sent, so what is refused is refused without the nops. -/
theorem firstTooLong_nopMarks {ctx : ProgramContext} {is : List Instruction}
    (hTyped : WellTyped ctx is) {v : Nat} (hFirst : FirstTooLong ctx is v) :
    FirstTooLong ctx (keptOf (nopMarks is)) (varAt (nopMarks is) v) := by
  refine firstTooLong_keptOf (by rw [wholeOf_nopMarks]; exact hTyped.instructions)
    (separated_nopMarks hTyped.instructions) (fun n i hn => ?_) (by rwa [wholeOf_nopMarks])
  obtain ⟨-, hNop⟩ := getElem?_nopMarks.mp hn
  obtain ⟨outputs, innerOutputs, hOp⟩ := nop_cases (by simpa using hNop.symm)
  rw [hOp]
  rfl

theorem actsLike_removeNops {S : Sv2} (hS : S.Lawful) {p q : Program}
    (hValid : p.isStaticallyValid = .ok true) (hStored : p.removeNops = .ok q) : ActsLike S p q := by
  have hTyped := isStaticallyValid_iff.mp hValid
  obtain ⟨hRemove, hTypedKept, -⟩ := removeNops_typed hTyped
  obtain rfl := Except.ok.inj (hStored.symm.trans hRemove)
  refine ⟨fun c hCompile => ?_, fun e hError => ?_⟩
  · obtain ⟨c', hCompile', hSame⟩ := sameButIndices_nopMarks hS hTyped hCompile
    refine ⟨c', hCompile', hSame.actions, fun W fuel => ?_, fun D execution => ⟨?_, ?_⟩⟩
    · unfold run
      rw [hSame.actions]
    · exact integrity_pass_iff_of_actions hSame.actions execution
    · rw [SetupConnectionOracle.evaluate_eq_pass_iff, SetupConnectionOracle.evaluate_eq_pass_iff,
        hSame.actions]
      exact forall_congr' fun id => forall_congr' fun action =>
        imp_congr_right fun _ => judge_eq_none_iff_of_sameButIndices hSame D execution id action
  · rcases compile_cases hS hTyped with ⟨-, m, -, hOk⟩ | ⟨v, hFirst, hRefused⟩
    · cases hOk.symm.trans hError
    · have hEq := (Except.error.inj (hRefused.symm.trans hError)).symm
      rcases compile_cases hS hTypedKept with ⟨hNone, -⟩ | ⟨v', -, hRefused'⟩
      · obtain ⟨n, i, hi, hLong, -⟩ := firstTooLong_nopMarks hTyped hFirst
        exact absurd hLong (hNone n i _ hi)
      · exact ⟨v, v', hEq, hRefused'⟩

/-- In the run, the entry was added with the program. -/
def AddedIn (rng : RngExt ρ) (options : FuzzerOptions) (numRoles : Nat) (turns : List (ClientTurn ρ))
    (id : Nat) (p : Program) : Prop :=
  ∃ front turn back y y' t, turns = front ++ turn :: back ∧
    exec (step rng options numRoles) (new options) front = some y ∧
    y.step rng options numRoles turn = some y' ∧ y.corpus.length = id ∧
    y'.corpus[id]? = some t ∧ t.input = p

/-- In the run, a minimizer proposed the candidate for the entry, and it was executed and kept. -/
def KeptFor (rng : RngExt ρ) (options : FuzzerOptions) (numRoles : Nat) (turns : List (ClientTurn ρ))
    (id : Nat) (t : Testcase) (prog : Program) : Prop :=
  ∃ front cut block nop fuel back y keepMinimizing,
    turns = front ++ .round cut block nop fuel :: back ∧
    exec (step rng options numRoles) (new options) front = some y ∧
    y.activity = .minimizing id keepMinimizing ∧
    KeptIn options.minimizeInput (t.novelties.getD []) cut block nop prog

/-- Where the program of an entry comes from. -/
inductive Origin (rng : RngExt ρ) (options : FuzzerOptions) (numRoles : Nat)
    (turns : List (ClientTurn ρ)) (id : Nat) (t : Testcase) : Prop where
  | added : AddedIn rng options numRoles turns id t.input → Origin rng options numRoles turns id t
  | stored (prog : Program) : KeptFor rng options numRoles turns id t prog →
    prog.removeNops = .ok t.input → Origin rng options numRoles turns id t

theorem AddedIn.snoc {id : Nat} {p : Program} (h : AddedIn rng options numRoles turns id p)
    (turn : ClientTurn ρ) : AddedIn rng options numRoles (turns ++ [turn]) id p := by
  obtain ⟨front, turn', back, y, y', t, rfl, hRest⟩ := h
  exact ⟨front, turn', back ++ [turn], y, y', t, by simp, hRest⟩

theorem KeptFor.snoc {id : Nat} {t t' : Testcase} {prog : Program}
    (h : KeptFor rng options numRoles turns id t prog) (hSame : t'.novelties = t.novelties)
    (turn : ClientTurn ρ) : KeptFor rng options numRoles (turns ++ [turn]) id t' prog := by
  obtain ⟨front, cut, block, nop, fuel, back, y, k, rfl, hExec, hActivity, hKept⟩ := h
  exact ⟨front, cut, block, nop, fuel, back ++ [turn], y, k, by simp, hExec, hActivity,
    hSame ▸ hKept⟩

theorem origin_exec (h : exec (step rng options numRoles) (new options) turns = some x)
    (hLoads : ∀ p ∈ loads turns, Countable p) {id : Nat} {t : Testcase}
    (ht : x.corpus[id]? = some t) : Origin rng options numRoles turns id t := by
  refine exec_trace (P := fun turns x => (∀ p ∈ loads turns, Countable p) →
    ∀ (id : Nat) (t : Testcase), x.corpus[id]? = some t → Origin rng options numRoles turns id t)
    ?_ ?_ h hLoads id t ht
  · intro _ id t ht
    cases ht
  · intro turns y turn z hExec hBefore hStep hLoads id t' ht'
    rw [loads_append] at hLoads
    have hFront : ∀ p ∈ loads turns, Countable p := fun p hp =>
      hLoads p (List.mem_append_left _ hp)
    have hTakes := takes_of_step (inOrder_exec hExec hFront) hStep
    cases ht : y.corpus[id]? with
    | none =>
      obtain ⟨hId, -⟩ := hTakes.added ht' ht
      exact .added ⟨turns, turn, [], y, z, t', rfl, hExec, hStep, hId.symm, ht', rfl⟩
    | some t =>
      obtain ⟨t'', ht'', hOne⟩ := hTakes.entry ht
      obtain rfl := Option.some.inj (ht'.symm.trans ht'')
      -- an entry with the program that it had
      have hSame : t'.input = t.input → t'.novelties = t.novelties →
          Origin rng options numRoles (turns ++ [turn]) id t' := by
        intro hInput hNovelties
        cases hBefore hFront id t ht with
        | added hAdded => exact .added (hInput ▸ hAdded.snoc turn)
        | stored prog hKept hStored =>
          exact .stored prog (hKept.snoc hNovelties turn) (hInput ▸ hStored)
      cases hOne with
      | same _ hEq => exact hSame (by rw [hEq]) (by rw [hEq])
      | finished _ hEq => exact hSame (by rw [hEq]) (by rw [hEq])
      | rounded cut block nop fuel hMinimizing _ hRounded =>
        rcases hRounded.input with ⟨hEq, -⟩ | ⟨-, -, -, -, -, prog, hKept, hStored⟩
        · exact hSame hEq hRounded.novelties
        · exact .stored prog ⟨turns, cut, block, nop, fuel, [], y, _, rfl, hExec, hMinimizing,
            hRounded.novelties ▸ hKept⟩ hStored

/-- The errors of the executions come to an end, each time. -/
def Executes (results : Results) : Prop := ∀ n, ∃ k, n ≤ k ∧ results k ≠ none

/-- A call on an entry ends, with enough fuel. -/
theorem perform_settles {σ : Type} [Minimizer σ] {inv : σ → Prop} {size : σ → Nat}
    (hDescends : Descends inv size Reduces) (hSteady : Steady inv) {t : Testcase}
    (ht : Countable t.input) (hNew : inv (Proposer.new t.input))
    (hCurrent : Proposer.current (Proposer.new t.input : σ) = t.input) {results : Results}
    (hResults : Executes results) (stage : IrMinimizerStage) (keepMinimizing : Nat) :
    ∃ performed, Countable performed.testcase.input ∧
      Settles (fun fuel => (stage.perform σ fuel results keepMinimizing t).run) (.ok performed) := by
  have hEnds := (terminates_iff_of_descends hDescends hSteady ht.valid hNew results stage
    keepMinimizing).mpr (Or.inr fun _ n _ _ _ _ _ _ => hResults n)
  obtain ⟨performed, n, hn⟩ := hEnds
  obtain ⟨performed', hSame, hStores⟩ := perform_stores hDescends hSteady hNew hCurrent
    (hn n (Nat.le_refl n))
  obtain rfl := Except.ok.inj hSame
  -- what is stored is as valid as what was there, and no longer
  refine ⟨performed, ?_, n, hn⟩
  rcases hStores.input with ⟨hHere, -⟩ | ⟨-, -, prog, hLess, -, hStored⟩
  · exact hHere ▸ ht
  · obtain ⟨hValid, -, hShorter⟩ := shrinks_of_stored hLess hStored
    exact ⟨hValid, (Nat.le_of_lt hShorter).trans ht.length⟩

/-- A round ends, with enough fuel. -/
theorem round_settles (id : Nat) {t : Testcase} (ht : Countable t.input) {cut block nop : Results}
    (hCut : Executes cut) (hBlock : Executes block) (hNop : Executes nop) (x : ClientState) :
    ∃ x', Settles (fun fuel => (x.round id t cut block nop fuel).run) (.ok x') := by
  obtain ⟨a, ha, hA⟩ := perform_settles CuttingMinimizer.descends CuttingMinimizer.steady ht
    ht.cutting rfl hCut x.cutting 0
  obtain ⟨b, hb, hB⟩ := perform_settles BlockMinimizer.descends BlockMinimizer.steady ha
    ha.block rfl hBlock x.block a.keepMinimizing
  obtain ⟨c, -, hC⟩ := perform_settles NoppingMinimizer.descends NoppingMinimizer.steady hb
    hb.nopping rfl hNop x.nopping b.keepMinimizing
  exact ⟨_, hA.bindOk (hB.bindOk (hC.bindOk (Settles.const _)))⟩

/-- So many rounds. -/
def rounds (cut block nop : Nat → Results) (fuel n : Nat) : List (ClientTurn ρ) :=
  (List.range n).map fun i => .round (cut i) (block i) (nop i) fuel

theorem rounds_succ (cut block nop : Nat → Results) (fuel n : Nat) :
    (rounds cut block nop fuel (n + 1) : List (ClientTurn ρ)) =
      .round (cut 0) (block 0) (nop 0) fuel ::
        rounds (fun i => cut (i + 1)) (fun i => block (i + 1)) (fun i => nop (i + 1)) fuel n := by
  simp [rounds, List.range_succ_eq_map]

end ClientState

end Stratamoto
