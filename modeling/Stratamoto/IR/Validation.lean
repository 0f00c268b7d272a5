import Stratamoto.IR.BuilderState

/-!
# Stratamoto — validity

What the builder accepts, for whole programs and for whole sequences of calls:

* `validate_ok_iff_wellTyped` — replaying a program through a builder that has the
  memory for it succeeds exactly on the well typed ones;
* `validation_returns_iff` — it returns a verdict exactly when no well typed
  program is followed by a block end with nothing to end;
* `rebuilt_iff_proper` — the builder is the one its own instructions rebuild
  as long as no call is a block end that meets a block of the other kind.
-/

namespace Stratamoto

open Brackets Operation

/-! ## Replaying -/

/-- A replay is accepted when every instruction is, and then the builder is
the one those instructions determine. -/
theorem replay_ok_iff {ctx : ProgramContext} {is : List Instruction} {s : List (Nat × BlockKind)}
    (hs : openStack (brackets is) = some s) {l : List Instruction} {b : ProgramBuilder} :
    (builderAt ctx is s).replay l = .ok (.ok b) ↔
      (∀ (j : Nat) (i : Instruction), l[j]? = some i → WellTypedAfter ctx (is ++ l.take j) i) ∧
      ∃ s', openStack (brackets (is ++ l)) = some s' ∧ b = builderAt ctx (is ++ l) s' := by
  induction l generalizing is s with
  | nil => simp [ProgramBuilder.replay, hs, eq_comm]
  | cons i l ih =>
    have hTail : ∀ s', step is.length s i.operation.bracket = some s' → WellTypedAfter ctx is i →
        ((builderAt ctx (is ++ [i]) s').replay l = .ok (.ok b) ↔
          (∀ (j : Nat) (i' : Instruction), (i :: l)[j]? = some i' →
            WellTypedAfter ctx (is ++ (i :: l).take j) i') ∧
          ∃ s', openStack (brackets (is ++ i :: l)) = some s' ∧
            b = builderAt ctx (is ++ i :: l) s') := by
      intro s' hStep hTyped
      rw [ih (by rw [openStack_brackets_snoc hs, hStep])]
      simp only [List.append_assoc, List.singleton_append]
      refine and_congr_left fun _ => ⟨fun h j i' hj => ?_, fun h j i' hj => ?_⟩
      · cases j with
        | zero =>
          obtain rfl : i = i' := by simpa using hj
          simpa using hTyped
        | succ j => simpa using h j i' (by simpa using hj)
      · simpa using h (j + 1) i' (by simpa using hj)
    rw [ProgramBuilder.replay]
    -- appended, refused, in the wrong block, or without a block
    rcases append_cases ctx hs i with ⟨hTyped, s', vars, hStep, hAppend⟩ |
      ⟨hTyped, e, hAppend⟩ | ⟨hTyped, n, k, k', s', e, hb, hNe, rfl, hAppend⟩ | ⟨rfl, rfl, hAppend⟩
    · simp only [hAppend, bind, Except.bind]
      exact hTail s' hStep hTyped
    · simp only [hAppend, bind, Except.bind, reduceCtorEq, false_iff, Except.ok.injEq]
      rintro ⟨hAll, -⟩
      exact hTyped (by simpa using hAll 0 i rfl)
    · simp only [hAppend, bind, Except.bind, reduceCtorEq, false_iff, Except.ok.injEq]
      rintro ⟨-, s₂, hs₂, -⟩
      rw [show is ++ i :: l = (is ++ [i]) ++ l by simp, brackets_append] at hs₂
      obtain ⟨s₃, hs₃⟩ := openStack_of_append hs₂
      rw [openStack_brackets_snoc hs, hb] at hs₃
      simp [step, hNe] at hs₃
    · simp only [hAppend, bind, Except.bind, reduceCtorEq, false_iff]
      rintro ⟨-, s₂, hs₂, -⟩
      rw [show is ++ ⟨[], .endOnSetupSuccess⟩ :: l = (is ++ [⟨[], .endOnSetupSuccess⟩]) ++ l by simp,
        brackets_append] at hs₂
      obtain ⟨s₃, hs₃⟩ := openStack_of_append hs₂
      rw [openStack_brackets_snoc hs] at hs₃
      simp [step, bracket] at hs₃

theorem fromPrefix_ok_iff {ctx : ProgramContext} {is : List Instruction} {b : ProgramBuilder} :
    ProgramBuilder.fromPrefix ctx is = .ok (.ok b) ↔
      WellTypedPrefix ctx is ∧
        ∃ s, openStack (brackets is) = some s ∧ b = builderAt ctx is s := by
  rw [ProgramBuilder.fromPrefix, ← builderAt_nil, replay_ok_iff rfl]
  rfl

/-- A builder is finalized when it has no block open. -/
theorem finalize_builderAt (ctx : ProgramContext) {is : List Instruction}
    {s : List (Nat × BlockKind)} (hs : openStack (brackets is) = some s) :
    (s = [] ∧ (builderAt ctx is s).finalize = .ok (.ok ⟨ctx, is⟩)) ∨
    (s ≠ [] ∧ ∃ e, (builderAt ctx is s).finalize = .ok (.error e)) := by
  cases s with
  | nil => exact Or.inl ⟨rfl, rfl⟩
  | cons p s =>
    right
    obtain ⟨begin_, hBegin, -⟩ :=
      getElem?_of_opening ((openStack_sorted hs).2 p.1 p.2 (List.mem_cons_self ..))
    refine ⟨List.cons_ne_nil _ _, .unfinishedBlock begin_.operation, ?_⟩
    simp [ProgramBuilder.finalize, builderAt, scopeAt, hBegin]

/-! ## The typing discipline -/

theorem validate_ok_iff {p q : Program} :
    p.validate = .ok (.ok q) ↔ WellTyped p.context p.instructions ∧ q = p := by
  unfold Program.validate ProgramBuilder.fromProgram
  constructor
  · intro h
    -- the replay panics, refuses, or leaves a builder to finalize
    cases hPrefix : ProgramBuilder.fromPrefix p.context p.instructions with
    | error panic =>
      rw [hPrefix] at h
      cases h
    | ok verdict =>
      cases verdict with
      | error e =>
        rw [hPrefix] at h
        cases h
      | ok b =>
        obtain ⟨hTyped, s, hs, rfl⟩ := fromPrefix_ok_iff.mp hPrefix
        rw [hPrefix] at h
        simp only [bind, Except.bind] at h
        rcases finalize_builderAt p.context hs with ⟨rfl, hFin⟩ | ⟨-, e, hFin⟩
        · rw [hFin, Except.ok.injEq, Except.ok.injEq] at h
          exact ⟨⟨balanced_iff_openStack.mpr hs, hTyped⟩, h.symm⟩
        · rw [hFin] at h
          cases h
  · rintro ⟨⟨hBalanced, hTyped⟩, rfl⟩
    have hs := balanced_iff_openStack.mp hBalanced
    rw [fromPrefix_ok_iff.mpr ⟨hTyped, [], hs, rfl⟩]
    rfl

/-- A program replays through a builder and finalizes exactly when it is well
typed. -/
theorem validate_ok_iff_wellTyped (p : Program) :
    (∃ q, p.validate = .ok (.ok q)) ↔ WellTyped p.context p.instructions :=
  ⟨fun ⟨_, h⟩ => (validate_ok_iff.mp h).1, fun h => ⟨p, validate_ok_iff.mpr ⟨h, rfl⟩⟩⟩

theorem isStaticallyValid_iff {p : Program} :
    p.isStaticallyValid = .ok true ↔ WellTyped p.context p.instructions := by
  rw [← validate_ok_iff_wellTyped, Program.isStaticallyValid]
  cases hValidate : p.validate with
  | error panic => simp [bind, Except.bind]
  | ok verdict => cases verdict <;> simp [bind, Except.bind]

/-! ## When validation returns -/

/-- A block end with nothing to end: the instructions before it are a well
typed program, so no block is open. -/
def UnopenedEnd (ctx : ProgramContext) (is : List Instruction) : Prop :=
  ∃ j, is[j]? = some ⟨[], .endOnSetupSuccess⟩ ∧ WellTyped ctx (is.take j)

/-- A replay violates an `expect` exactly at a block end that it reaches with
no block open. -/
theorem replay_panics_iff {ctx : ProgramContext} {is : List Instruction}
    {s : List (Nat × BlockKind)} (hs : openStack (brackets is) = some s) {l : List Instruction} :
    (∃ panic, (builderAt ctx is s).replay l = .error panic) ↔
      ∃ j, l[j]? = some ⟨[], .endOnSetupSuccess⟩ ∧
        openStack (brackets (is ++ l.take j)) = some [] ∧
        ∀ (j' : Nat) (i : Instruction), (l.take j)[j']? = some i →
          WellTypedAfter ctx (is ++ l.take j') i := by
  induction l generalizing is s with
  | nil => simp [ProgramBuilder.replay]
  | cons i l ih =>
    -- a panic further on is a panic of the rest of the replay
    have hLater : ∀ s', openStack (brackets (is ++ [i])) = some s' →
        ((∃ panic, (builderAt ctx (is ++ [i]) s').replay l = .error panic) ↔
          ∃ j, l[j]? = some ⟨[], .endOnSetupSuccess⟩ ∧
            openStack (brackets (is ++ (i :: l).take (j + 1))) = some [] ∧
            ∀ (j' : Nat) (i' : Instruction), (l.take j)[j']? = some i' →
              WellTypedAfter ctx (is ++ (i :: l).take (j' + 1)) i') := by
      intro s' hs'
      rw [ih hs']
      simp
    rw [ProgramBuilder.replay]
    rcases append_cases ctx hs i with ⟨hTyped, s', vars, hStep, hAppend⟩ |
      ⟨hTyped, e, hAppend⟩ | ⟨hTyped, n, k, k', s', e, hb, hNe, rfl, hAppend⟩ | ⟨rfl, rfl, hAppend⟩
    · have hSnoc := (openStack_brackets_snoc hs i).trans hStep
      simp only [hAppend, bind, Except.bind]
      rw [hLater s' hSnoc]
      constructor
      · rintro ⟨j, hj, hOpen, hAll⟩
        refine ⟨j + 1, by simpa using hj, hOpen, fun j' i' hj' => ?_⟩
        cases j' with
        | zero =>
          obtain rfl : i = i' := by simpa using hj'
          simpa using hTyped
        | succ j' => exact hAll j' i' (by simpa using hj')
      · rintro ⟨j, hj, hOpen, hAll⟩
        cases j with
        | zero =>
          -- the instruction itself was accepted, so it ended an open block
          obtain rfl : i = ⟨[], .endOnSetupSuccess⟩ := by simpa using hj
          rw [show is ++ (⟨[], .endOnSetupSuccess⟩ :: l).take 0 = is by simp, hs] at hOpen
          obtain rfl := Option.some.inj hOpen
          simp [step, bracket] at hStep
        | succ j =>
          exact ⟨j, by simpa using hj, hOpen, fun j' i' hj' => hAll (j' + 1) i' (by simpa using hj')⟩
    · simp only [hAppend, bind, Except.bind, reduceCtorEq, exists_false, false_iff]
      rintro ⟨j, hj, hOpen, hAll⟩
      cases j with
      | zero =>
        obtain rfl : i = ⟨[], .endOnSetupSuccess⟩ := by simpa using hj
        exact hTyped ⟨rfl, by simp, by simp, by simp⟩
      | succ j => exact hTyped (by simpa using hAll 0 i (by simp))
    · simp only [hAppend, bind, Except.bind, reduceCtorEq, exists_false, false_iff]
      rintro ⟨j, hj, hOpen, -⟩
      cases j with
      | zero =>
        rw [List.take_zero, List.append_nil, hs] at hOpen
        cases hOpen
      | succ j =>
        rw [show is ++ (i :: l).take (j + 1) = (is ++ [i]) ++ l.take j by simp,
          brackets_append] at hOpen
        obtain ⟨s₃, hs₃⟩ := openStack_of_append hOpen
        rw [openStack_brackets_snoc hs, hb] at hs₃
        simp [step, hNe] at hs₃
    · simp only [hAppend, bind, Except.bind]
      exact ⟨fun _ => ⟨0, rfl, by simpa using hs, by simp⟩, fun _ => ⟨_, rfl⟩⟩

theorem wellTyped_take_iff {ctx : ProgramContext} {is : List Instruction} {j : Nat} :
    WellTyped ctx (is.take j) ↔ openStack (brackets (is.take j)) = some [] ∧
      ∀ (j' : Nat) (i : Instruction), (is.take j)[j']? = some i →
        WellTypedAfter ctx (is.take j') i := by
  have hTake : ∀ (j' : Nat) (i : Instruction), (is.take j)[j']? = some i →
      (is.take j).take j' = is.take j' := fun _ _ hj' => (getElem?_of_take hj').2.2
  constructor
  · rintro ⟨hBalanced, hTyped⟩
    exact ⟨balanced_iff_openStack.mp hBalanced, fun j' i hj' => hTake j' i hj' ▸ hTyped j' i hj'⟩
  · rintro ⟨hOpen, hTyped⟩
    exact ⟨balanced_iff_openStack.mpr hOpen, fun j' i hj' =>
      (hTake j' i hj').symm ▸ hTyped j' i hj'⟩

theorem fromProgram_panics_iff {p : Program} :
    (∃ panic, ProgramBuilder.fromProgram p = .error panic) ↔
      UnopenedEnd p.context p.instructions := by
  rw [ProgramBuilder.fromProgram, ProgramBuilder.fromPrefix, ← builderAt_nil,
    replay_panics_iff rfl, UnopenedEnd]
  simp only [wellTyped_take_iff, List.nil_append]

/-- Finalizing a rebuilt builder always returns. -/
theorem validate_panics_iff {p : Program} {panic : Panic} :
    p.validate = .error panic ↔ ProgramBuilder.fromProgram p = .error panic := by
  unfold Program.validate
  cases hProgram : ProgramBuilder.fromProgram p with
  | error panic' => simp [bind, Except.bind]
  | ok verdict =>
    cases verdict with
    | error e => simp [bind, Except.bind]
    | ok b =>
      obtain ⟨-, s, hs, rfl⟩ := fromPrefix_ok_iff.mp hProgram
      rcases finalize_builderAt p.context hs with ⟨-, hFin⟩ | ⟨-, e, hFin⟩ <;>
        simp [bind, Except.bind, hFin]

/-- **Validation returns a verdict** in all three of its forms exactly when no
well typed program is followed by a block end with nothing to end. -/
theorem validation_returns_iff (p : Program) :
    ((∃ verdict, p.validate = .ok verdict) ∧ (∃ valid, p.isStaticallyValid = .ok valid) ∧
      ∃ verdict, TestCase.admit p = .ok verdict) ↔
      ¬ UnopenedEnd p.context p.instructions := by
  rw [← fromProgram_panics_iff]
  simp only [← validate_panics_iff]
  unfold TestCase.admit Program.isStaticallyValid
  cases p.validate with
  | error panic => simp [bind, Except.bind]
  | ok verdict => cases verdict <;> simp [bind, Except.bind]

/-- Where every block end has a block to end, none is unopened. -/
theorem not_unopenedEnd {ctx : ProgramContext} {is : List Instruction} {s : List (Nat × BlockKind)}
    (hs : openStack (brackets is) = some s) : ¬ UnopenedEnd ctx is := by
  rintro ⟨j, hEnd, hBefore⟩
  obtain ⟨s', hs'⟩ := openStack_take hs (j + 1)
  rw [← brackets_take, List.take_add_one, hEnd, Option.toList_some, brackets_append,
    brackets_singleton, openStack_snoc, balanced_iff_openStack.mp hBefore.balanced] at hs'
  cases hs'

/-- A program that is a single block end: replaying it exits the global scope. -/
theorem validation_panics_on_unopened_end :
    ¬ ∀ p : Program, (∃ verdict, p.validate = .ok verdict) ∧
      (∃ valid, p.isStaticallyValid = .ok valid) ∧ ∃ verdict, TestCase.admit p = .ok verdict := by
  intro h
  obtain ⟨⟨verdict, hv⟩, -, -⟩ := h ⟨⟨1, 0, 0⟩, [⟨[], .endOnSetupSuccess⟩]⟩
  cases hv

/-! ## Sequences of calls -/

/-- A call of one of the two methods that append. -/
inductive BuilderCall where
  | append (i : Instruction)
  | appendOp (op : Operation) (inputs : List IndexedVariable)

/-- The instruction a call appends. -/
def BuilderCall.instruction : BuilderCall → Instruction
  | .append i => i
  | .appendOp op inputs => ⟨inputs.map IndexedVariable.index, op⟩

namespace ProgramBuilder

def call (b : ProgramBuilder) :
    BuilderCall →
      Except Panic (Except ProgramValidationError (List IndexedVariable) × ProgramBuilder)
  | .append i => b.append i
  | .appendOp op inputs => b.appendOp op inputs

theorem call_eq (b : ProgramBuilder) (c : BuilderCall) : b.call c = b.append c.instruction := by
  cases c <;> rfl

/-- The builder after each call, as far as the calls return. -/
def afterCalls (b : ProgramBuilder) : List BuilderCall → List ProgramBuilder
  | [] => []
  | c :: cs =>
    match b.call c with
    | .error _ => []
    | .ok (_, b') => b' :: b'.afterCalls cs

/-- Two builders no caller can tell apart. -/
structure ObservablyEq (b b' : ProgramBuilder) : Prop where
  variableCount : b.variableCount = b'.variableCount
  getVariable : ∀ index, b.getVariable index = b'.getVariable index
  currentContext : b.currentContext = b'.currentContext
  append : ∀ i, (b.append i).map Prod.fst = (b'.append i).map Prod.fst

/-- The builder is the one its own instructions rebuild, and what it finalizes
to is valid. -/
def Rebuilt (b : ProgramBuilder) : Prop :=
  (∃ b', fromPrefix b.context b.instructions = .ok (.ok b') ∧ ObservablyEq b b') ∧
    ∀ p, b.finalize = .ok (.ok p) → p.isStaticallyValid = .ok true

/-- The instruction passes the checks and ends a block, and the innermost open
block is of the other kind. -/
def EndsOtherBlock (b : ProgramBuilder) (i : Instruction) : Prop :=
  b.checkInstruction i = .ok () ∧ i.operation.isBlockEnd = true ∧
    ∃ scope rest n begin_, b.activeScopes = scope :: rest ∧ scope.begin_ = some n ∧
      b.instructions[n]? = some begin_ ∧ i.operation.isMatchingBlockBegin begin_.operation = false

/-- No call that is reached ends a block of the other kind. -/
def ProperCalls (b : ProgramBuilder) : List BuilderCall → Prop
  | [] => True
  | c :: cs => ¬ b.EndsOtherBlock c.instruction ∧
      ∀ verdict b', b.call c = .ok (verdict, b') → b'.ProperCalls cs

end ProgramBuilder

open ProgramBuilder

theorem rebuilt_builderAt {ctx : ProgramContext} {is : List Instruction}
    {s : List (Nat × BlockKind)} (hs : openStack (brackets is) = some s)
    (hTyped : WellTypedPrefix ctx is) : Rebuilt (builderAt ctx is s) := by
  refine ⟨⟨_, fromPrefix_ok_iff.mpr ⟨hTyped, s, hs, rfl⟩, ⟨rfl, fun _ => rfl, rfl, fun _ => rfl⟩⟩,
    fun p hp => ?_⟩
  rcases finalize_builderAt ctx hs with ⟨rfl, hFin⟩ | ⟨-, e, hFin⟩
  · rw [hFin, Except.ok.injEq, Except.ok.injEq] at hp
    subst hp
    exact isStaticallyValid_iff.mpr ⟨balanced_iff_openStack.mpr hs, hTyped⟩
  · rw [hFin] at hp
    cases hp

/-- The state a block end of the other kind leaves: the block's inner output
is out of scope, though its own instructions put it in scope. -/
theorem not_rebuilt_of_popped {ctx : ProgramContext} {is : List Instruction} {n : Nat}
    {k : BlockKind} {s : List (Nat × BlockKind)}
    (hs : openStack (brackets is) = some ((n, k) :: s)) : ¬ Rebuilt (builderAt ctx is s) := by
  rintro ⟨⟨b', hPrefix, hEq⟩, -⟩
  obtain ⟨-, s', hs', rfl⟩ := fromPrefix_ok_iff.mp hPrefix
  obtain rfl : (n, k) :: s = s' := Option.some.inj (hs.symm.trans hs')
  obtain ⟨begin_, hBegin, hOpening⟩ :=
    getElem?_of_opening ((openStack_sorted hs).2 n k (List.mem_cons_self ..))
  -- the begin defines a variable that tells the two apart
  obtain ⟨var, hVar, hNe⟩ : ∃ var ∈ begin_.operation.getInnerOutputVariables, var ≠ .nop := by
    cases hOp : begin_.operation <;> simp_all [bracket, getInnerOutputVariables]
  obtain ⟨v, hv⟩ := List.mem_iff_getElem?.mp (mem_definitions_of_getElem? hBegin
    (d := ⟨n, true, var⟩) (mem_definitions_of.mpr ⟨rfl, by simpa using hVar⟩))
  have hScoped : scopedVariable is ⟨n, true, var⟩ = ⟨var, scopeId is (some n)⟩ := by
    simp [scopedVariable, hNe, homeOf]
  have hGet : ∀ t, (builderAt ctx is t).vars[v]? = some ⟨var, scopeId is (some n)⟩ := fun t => by
    simp only [builderAt, List.getElem?_map, hv, Option.map_some, hScoped]
  have hOut : (builderAt ctx is s).getVariable v = none := by
    simp only [getVariable, hGet, scopeId_notMem_below ctx hs, if_false]
  have hIn : (builderAt ctx is ((n, k) :: s)).getVariable v = some ⟨var, v⟩ := by
    have hMem : scopeId is (some n) ∈ (builderAt ctx is ((n, k) :: s)).activeScopesSet := by
      simp [builderAt]
    simp only [getVariable, hGet, hMem, if_true]
  exact absurd (hOut.symm.trans ((hEq.getVariable v).trans hIn)) (by simp)

/-- At an accepted state, the calls that pop a block they do not end are those
`append_cases` names. -/
theorem endsOtherBlock_iff {ctx : ProgramContext} {is : List Instruction}
    {s : List (Nat × BlockKind)} (hs : openStack (brackets is) = some s) {i : Instruction} :
    EndsOtherBlock (builderAt ctx is s) i ↔ WellTypedAfter ctx is i ∧
      ∃ n k k' s', i.operation.bracket = .closing k ∧ k ≠ k' ∧ s = (n, k') :: s' := by
  unfold EndsOtherBlock
  rw [checkInstruction_ok_iff hs, isBlockEnd_iff]
  refine and_congr_right fun _ => ⟨?_, ?_⟩
  · rintro ⟨⟨k, hk⟩, scope, rest, n, begin_, hScopes, hBegin, hAt, hMatch⟩
    cases s with
    | nil =>
      obtain ⟨rfl, -⟩ := List.cons.inj hScopes
      cases hBegin
    | cons p s' =>
      obtain ⟨rfl, -⟩ := List.cons.inj hScopes
      obtain rfl : p.1 = n := Option.some.inj hBegin
      refine ⟨p.1, k, p.2, s', hk, ?_, rfl⟩
      rintro rfl
      obtain ⟨begin_', hBegin', hOpening⟩ :=
        getElem?_of_opening ((openStack_sorted hs).2 p.1 p.2 (List.mem_cons_self ..))
      obtain rfl : begin_' = begin_ := Option.some.inj (hBegin'.symm.trans hAt)
      rw [isMatchingBlockBegin_iff.mpr ⟨p.2, hk, hOpening⟩] at hMatch
      cases hMatch
  · rintro ⟨n, k, k', s', hk, hNe, rfl⟩
    obtain ⟨begin_, hBegin, hOpening⟩ :=
      getElem?_of_opening ((openStack_sorted hs).2 n k' (List.mem_cons_self ..))
    refine ⟨⟨k, hk⟩, scopeAt is (n, k'), _, n, begin_, rfl, rfl, hBegin, ?_⟩
    rw [← Bool.not_eq_true, isMatchingBlockBegin_iff]
    rintro ⟨k₂, hk₂, hOpening₂⟩
    rw [hk] at hk₂
    rw [hOpening] at hOpening₂
    cases hk₂
    cases hOpening₂
    exact hNe rfl

theorem rebuilt_afterCalls_iff {ctx : ProgramContext} {is : List Instruction}
    {s : List (Nat × BlockKind)} (hs : openStack (brackets is) = some s)
    (hTyped : WellTypedPrefix ctx is) (cs : List BuilderCall) :
    (∀ b ∈ (builderAt ctx is s).afterCalls cs, Rebuilt b) ↔
      ProperCalls (builderAt ctx is s) cs := by
  induction cs generalizing is s with
  | nil => simp [afterCalls, ProperCalls]
  | cons c cs ih =>
    rw [afterCalls, ProperCalls, endsOtherBlock_iff hs, call_eq]
    rcases append_cases ctx hs c.instruction with ⟨hAfter, s', vars, hStep, hAppend⟩ |
      ⟨hAfter, e, hAppend⟩ | ⟨hAfter, n, k, k', s', e, hb, hNe, rfl, hAppend⟩ |
      ⟨rfl, hEnd, hAppend⟩
    · have hSnoc := (openStack_brackets_snoc hs c.instruction).trans hStep
      have hTyped' := wellTypedPrefix_snoc.mpr ⟨hTyped, hAfter⟩
      -- a call that succeeds ends no other block
      have hNot : ¬ (WellTypedAfter ctx is c.instruction ∧ ∃ n k k' s',
          c.instruction.operation.bracket = .closing k ∧ k ≠ k' ∧ s = (n, k') :: s') := by
        rintro ⟨-, n, k, k', s₂, hb, hNe, rfl⟩
        rw [hb] at hStep
        simp [step, hNe] at hStep
      rw [hAppend, List.forall_mem_cons, ih hSnoc hTyped']
      simp only [rebuilt_builderAt hSnoc hTyped', hNot, not_false_eq_true, true_and,
        Except.ok.injEq, Prod.mk.injEq, and_imp]
      exact ⟨fun h _ _ _ hb => hb ▸ h, fun h => h _ _ rfl rfl⟩
    · rw [hAppend, List.forall_mem_cons, ih hs hTyped]
      simp only [rebuilt_builderAt hs hTyped, hAfter, false_and, not_false_eq_true, true_and,
        Except.ok.injEq, Prod.mk.injEq, and_imp]
      exact ⟨fun h _ _ _ hb => hb ▸ h, fun h => h _ _ rfl rfl⟩
    · have hOther : WellTypedAfter ctx is c.instruction ∧ ∃ n₂ k₂ k₂' s₂,
          c.instruction.operation.bracket = .closing k₂ ∧ k₂ ≠ k₂' ∧
            (n, k') :: s' = (n₂, k₂') :: s₂ := ⟨hAfter, n, k, k', s', hb, hNe, rfl⟩
      rw [hAppend, List.forall_mem_cons]
      exact iff_of_false (fun h => not_rebuilt_of_popped hs h.1) (fun h => h.1 hOther)
    · rw [hAppend]
      simp [hEnd, bracket]

/-- **The builder is what its instructions rebuild**, after every call that
returns, exactly in the runs without a block end that meets a block of the
other kind. -/
theorem rebuilt_iff_proper (ctx : ProgramContext) (cs : List BuilderCall) :
    (∀ b ∈ (ProgramBuilder.new ctx).afterCalls cs, Rebuilt b) ↔
      ProperCalls (ProgramBuilder.new ctx) cs := by
  rw [← builderAt_nil]
  exact rebuilt_afterCalls_iff rfl (fun j i h => by simp at h) cs

/-- The end of a success block in a message under construction is rejected
after it has left the block, and the builder then finalizes a program with the
block left open. -/
theorem rejected_end_leaves_its_block :
    ¬ ∀ (ctx : ProgramContext) (cs : List BuilderCall),
      ∀ b ∈ (ProgramBuilder.new ctx).afterCalls cs, Rebuilt b := by
  intro h
  have hAfter := h ⟨1, 0, 0⟩
    [.append ⟨[], .beginBuildSetupConnection⟩, .append ⟨[], .endOnSetupSuccess⟩]
    ⟨⟨1, 0, 0⟩, [⟨none, 1, .global⟩], {1}, 2, [⟨.mutSetupConnection, 2⟩],
      [⟨[], .beginBuildSetupConnection⟩]⟩ (by decide)
  have hValid := hAfter.2 ⟨⟨1, 0, 0⟩, [⟨[], .beginBuildSetupConnection⟩]⟩ rfl
  cases hValid

end Stratamoto
