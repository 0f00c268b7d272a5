import Mathlib.Data.Finset.Dedup
import Stratamoto.IR.Builder
import Stratamoto.IR.Typing

/-!
# Stratamoto — the builder's states

The builder decides the typing discipline of `IR/Typing.lean`. After accepted
instructions `is` that leave the stack `s` of blocks open, it is in the one
state `builderAt ctx is s`, all of whose components are read off the
instructions; `append_cases` says what the next call does there:

* an instruction that is well typed after `is`, and closes what it may close,
  moves the builder to `builderAt ctx (is ++ [i]) s'`;
* any other is rejected, and leaves the state as it was, unless it is a block
  end that meets a block of the other kind: that one has popped the block;
* an `endOnSetupSuccess` with no block open violates an `expect`.
-/

namespace Stratamoto

open Brackets Operation

/-! ## The builder after accepted instructions -/

/-- The id of a scope: the global one is the first, and a block's counts the
blocks begun before it. -/
def scopeId (is : List Instruction) : Option Nat → Nat
  | none => 1
  | some n => 2 + (is.take n).countP (·.operation.isBlockBegin)

def contextOf : BlockKind → InstructionContext
  | .build => .buildSetupConnection
  | .success => .onSetupSuccess

def scopeAt (is : List Instruction) (p : Nat × BlockKind) : Scope :=
  ⟨some p.1, scopeId is (some p.1), contextOf p.2⟩

def scopedVariable (is : List Instruction) (d : Definition) : ScopedVariable :=
  ⟨d.var, if d.var = .nop then 0 else scopeId is (homeOf is d)⟩

/-- The builder after the accepted instructions `is`, with the blocks `s` open. -/
def builderAt (ctx : ProgramContext) (is : List Instruction) (s : List (Nat × BlockKind)) :
    ProgramBuilder where
  context := ctx
  activeScopes := s.map (scopeAt is) ++ [⟨none, 1, .global⟩]
  activeScopesSet := insert 1 (s.map fun p => scopeId is (some p.1)).toFinset
  scopeCounter := 1 + is.countP (·.operation.isBlockBegin)
  vars := (definitions is).map (scopedVariable is)
  instructions := is

theorem builderAt_nil (ctx : ProgramContext) : builderAt ctx [] [] = ProgramBuilder.new ctx := rfl

/-! ## Scope ids -/

theorem isBlockBegin_of_open {is : List Instruction} {b : Nat} {k : BlockKind}
    (h : (brackets is)[b]? = some (.opening k)) :
    ∃ i, is[b]? = some i ∧ i.operation.isBlockBegin = true := by
  rw [brackets, List.getElem?_map, Option.map_eq_some_iff] at h
  obtain ⟨i, hi, hk⟩ := h
  exact ⟨i, hi, isBlockBegin_iff.mpr ⟨k, hk⟩⟩

/-- The count of blocks begun grows past every block begin. -/
theorem countP_take_lt {is : List Instruction} {b b' : Nat} {i : Instruction}
    (hi : is[b]? = some i) (hBegin : i.operation.isBlockBegin = true) (hlt : b < b') :
    (is.take b).countP (·.operation.isBlockBegin) <
      (is.take b').countP (·.operation.isBlockBegin) := by
  have hSucc : (is.take (b + 1)).countP (·.operation.isBlockBegin) =
      (is.take b).countP (·.operation.isBlockBegin) + 1 := by
    rw [List.take_add_one, hi, List.countP_append]
    simp [hBegin]
  have hMono : (is.take (b + 1)).countP (·.operation.isBlockBegin) ≤
      (is.take b').countP (·.operation.isBlockBegin) :=
    (List.take_sublist_take_left (by omega)).countP_le
  omega

theorem scopeId_injective {is : List Instruction} {b b' : Nat} {k k' : BlockKind}
    (hb : (brackets is)[b]? = some (.opening k)) (hb' : (brackets is)[b']? = some (.opening k'))
    (h : scopeId is (some b) = scopeId is (some b')) : b = b' := by
  obtain ⟨i, hi, hBegin⟩ := isBlockBegin_of_open hb
  obtain ⟨i', hi', hBegin'⟩ := isBlockBegin_of_open hb'
  simp only [scopeId] at h
  rcases Nat.lt_trichotomy b b' with hlt | heq | hgt
  · have := countP_take_lt hi hBegin hlt
    omega
  · exact heq
  · have := countP_take_lt hi' hBegin' hgt
    omega

theorem scopeId_append {is : List Instruction} (l : List Instruction) {b : Nat}
    (hb : b ≤ is.length) : scopeId (is ++ l) (some b) = scopeId is (some b) := by
  simp only [scopeId]
  rw [List.take_append_of_le_length hb]

theorem scopedVariable_append {is : List Instruction} (l : List Instruction) {d : Definition}
    (hd : d.instruction < is.length) : scopedVariable (is ++ l) d = scopedVariable is d := by
  unfold scopedVariable
  rw [homeOf_append l hd]
  cases hHome : homeOf is d with
  | none => rfl
  | some b =>
    have := homeOf_le hHome
    rw [scopeId_append l (by omega)]

/-- The block a variable lives in is a block of the program. -/
theorem homeOf_opening {is : List Instruction} {s : List (Nat × BlockKind)}
    (hs : openStack (brackets is) = some s) {d : Definition} (hd : d ∈ definitions is)
    (hNop : d.var ≠ .nop) {b : Nat} (hb : homeOf is d = some b) :
    ∃ k, (brackets is)[b]? = some (.opening k) := by
  obtain ⟨i, hi, hMem⟩ := mem_definitions hd
  unfold homeOf at hb
  split at hb
  · rename_i hInner
    obtain rfl := Option.some.inj hb
    -- inner outputs that are no nops are those of block begins
    have hVar := (mem_definitions_of.mp hMem).2
    rw [if_pos hInner] at hVar
    rw [brackets, List.getElem?_map, hi]
    obtain ⟨inputs, op⟩ := i
    cases op <;> simp_all [getInnerOutputVariables, bracket]
  · obtain ⟨s', hs'⟩ := openStack_take hs (d.instruction + 1)
    rw [hs', Option.getD_some, Option.map_eq_some_iff] at hb
    obtain ⟨⟨b', k⟩, hHead, rfl⟩ := hb
    have hOpen := (openStack_sorted hs').2 b' k (List.mem_of_head? hHead)
    exact ⟨k, (getElem?_of_take hOpen).2.1⟩

/-- Active scopes are open scopes: the builder's set decides visibility. -/
theorem mem_activeScopesSet_iff (ctx : ProgramContext) {is : List Instruction}
    {s : List (Nat × BlockKind)} (hs : openStack (brackets is) = some s) {v : Nat}
    {d : Definition} (hd : (definitions is)[v]? = some d) :
    (scopedVariable is d).scopeId ∈ (builderAt ctx is s).activeScopesSet ↔ Visible is d := by
  rw [visible_iff hs hd]
  simp only [scopedVariable, builderAt]
  -- the scope of a phantom is never active
  by_cases hNop : d.var = .nop
  · simp [hNop, scopeId]
  · simp only [hNop, if_false, ne_eq, not_false_eq_true, true_and]
    -- the outermost scope is always active, a block while it is open
    cases hHome : homeOf is d with
    | none => simp [scopeId]
    | some b =>
      obtain ⟨k, hk⟩ := homeOf_opening hs (List.mem_of_getElem? hd) hNop hHome
      have hNe : scopeId is (some b) ≠ 1 := by
        simp only [scopeId]
        omega
      simp only [Finset.mem_insert, hNe, false_or, List.mem_toFinset, List.mem_map,
        Option.some.injEq]
      constructor
      · rintro ⟨⟨b', k'⟩, hMem, hEq⟩ _ rfl
        have := scopeId_injective ((openStack_sorted hs).2 b' k' hMem) hk hEq
        exact ⟨(b', k'), hMem, this⟩
      · intro h
        obtain ⟨p, hMem, rfl⟩ := h b rfl
        exact ⟨p, hMem, rfl⟩

/-! ## The checks -/

theorem inputVars_ok_iff {ctx : ProgramContext} {is : List Instruction}
    {s : List (Nat × BlockKind)} (hs : openStack (brackets is) = some s) {l : List Nat}
    {vars : List Variable} :
    (builderAt ctx is s).inputVars l = .ok vars ↔ List.Forall₂ (Names is) l vars := by
  induction l generalizing vars with
  | nil => simp [ProgramBuilder.inputVars, eq_comm]
  | cons v l ih =>
    rw [List.forall₂_cons_left_iff, ProgramBuilder.inputVars]
    -- the variables of the builder are the definitions, in their scopes
    have hVars : (builderAt ctx is s).vars[v]? =
        ((definitions is)[v]?).map (scopedVariable is) := List.getElem?_map
    rw [hVars]
    cases hd : (definitions is)[v]? with
    | none => simp [Names, hd]
    | some d =>
      -- a scope is active exactly if what is defined in it is visible
      have hActive := mem_activeScopesSet_iff ctx hs hd
      simp only [Option.map_some]
      by_cases hVis : Visible is d
      · rw [if_pos (hActive.mpr hVis)]
        cases hRest : (builderAt ctx is s).inputVars l with
        | error e =>
          have hNone : ∀ vars, ¬ List.Forall₂ (Names is) l vars := fun vars h => by
            rw [← ih, hRest] at h
            cases h
          simp [Except.map, hNone]
        | ok rest =>
          simp only [Except.map, Except.ok.injEq, ← ih, hRest]
          simp [Names, hd, hVis, scopedVariable, eq_comm]
      · rw [if_neg (mt hActive.mp hVis)]
        simp [Names, hd, hVis]

theorem checkContext_ok_iff {b : ProgramBuilder} {op : Operation} :
    b.checkContext op = .ok () ↔
      (∀ r, op = .loadRole r → r < b.context.numRoles) ∧
        ∀ c, op = .loadConnection c → c < b.context.numConnections := by
  cases op <;> simp [ProgramBuilder.checkContext]

/-- The checks `append` makes decide whether an instruction is well typed. -/
theorem checkInstruction_ok_iff {ctx : ProgramContext} {is : List Instruction}
    {s : List (Nat × BlockKind)} (hs : openStack (brackets is) = some s) {i : Instruction} :
    (builderAt ctx is s).checkInstruction i = .ok () ↔ WellTypedAfter ctx is i := by
  -- the checks in the order of the source: arity, inputs, types, context
  have hUnfold : (builderAt ctx is s).checkInstruction i = .ok () ↔
      i.inputs.length = i.operation.numInputs ∧
      (builderAt ctx is s).inputVars i.inputs = .ok i.operation.getInputVariables ∧
      (builderAt ctx is s).checkContext i.operation = .ok () := by
    unfold ProgramBuilder.checkInstruction
    by_cases hArity : i.operation.numInputs = i.inputs.length
    · cases hVars : (builderAt ctx is s).inputVars i.inputs with
      | error e => simp [hArity, bind, Except.bind]
      | ok vars =>
        by_cases hTypes : vars = i.operation.getInputVariables
        · have hCheck := checkInputTypes_ok_iff.mpr hTypes
          subst hTypes
          simp [hArity, bind, Except.bind, hCheck]
        · cases hCheck : i.operation.checkInputTypes vars with
          | error e => simp [hArity, bind, Except.bind, hCheck, hTypes]
          | ok _ => exact absurd (checkInputTypes_ok_iff.mp hCheck) hTypes
    · have hArity' : i.inputs.length ≠ i.operation.numInputs := fun h => hArity h.symm
      simp [hArity, hArity', bind, Except.bind]
  rw [hUnfold, inputVars_ok_iff hs, checkContext_ok_iff]
  constructor
  · rintro ⟨hArity, hInputs, hRole, hConnection⟩
    refine ⟨hArity, fun k v var hv hVar => ?_, hRole, hConnection⟩
    obtain ⟨hk, rfl⟩ := List.getElem?_eq_some_iff.mp hv
    obtain ⟨hk', rfl⟩ := List.getElem?_eq_some_iff.mp hVar
    exact (List.forall₂_iff_get.mp hInputs).2 k hk hk'
  · intro h
    exact ⟨h.arity, h.forall₂, h.role, h.connection⟩

/-! ## Definitions -/

theorem getOutputVariables_of_begin {op : Operation} (h : op.isBlockBegin = true) :
    op.getOutputVariables = [] := by
  cases op <;> simp_all [isBlockBegin, getOutputVariables]

theorem getInnerOutputVariables_of_not_begin {op : Operation} (h : op.isBlockBegin = false)
    (hNop : op.isNop = false) : op.getInnerOutputVariables = [] := by
  cases op <;> simp_all [isBlockBegin, isNop, getInnerOutputVariables]

theorem var_ne_nop {i : Instruction} {n : Nat} {d : Definition} (h : d ∈ i.definitions n)
    (hNop : i.operation.isNop = false) : d.var ≠ .nop := by
  rw [Ne, ← isNop_iff_of_mem h, hNop]
  exact Bool.false_ne_true

theorem brackets_countP (is : List Instruction) (i : Instruction) :
    (is ++ [i]).countP (·.operation.isBlockBegin) =
      is.countP (·.operation.isBlockBegin) + if i.operation.isBlockBegin then 1 else 0 := by
  rw [List.countP_append]
  simp [List.countP_cons]

/-- The stack after the last instruction is what its outputs live in. -/
theorem homeOf_last {is : List Instruction} {i : Instruction} {s : List (Nat × BlockKind)}
    (hs : openStack (brackets (is ++ [i])) = some s) (var : Variable) :
    homeOf (is ++ [i]) ⟨is.length, false, var⟩ = s.head?.map Prod.fst := by
  have hTake : (brackets (is ++ [i])).take (is.length + 1) = brackets (is ++ [i]) :=
    List.take_of_length_le (by simp)
  simp only [homeOf, Bool.false_eq_true, if_false, hTake, hs, Option.getD_some]

/-- The variables an accepted instruction adds: in the scope `t` leaves on top
for outputs, in the block it begins for inner outputs. -/
theorem scopedVariables_snoc {is : List Instruction} {i : Instruction}
    {s : List (Nat × BlockKind)} (hs : openStack (brackets (is ++ [i])) = some s)
    (t : List (Nat × BlockKind)) (ht : i.operation.isBlockBegin = false → s = t) :
    (definitions (is ++ [i])).map (scopedVariable (is ++ [i])) =
      (definitions is).map (scopedVariable is) ++
        (i.operation.getOutputVariables.map fun var =>
          ScopedVariable.mk var (if i.operation.isNop then 0
            else scopeId (is ++ [i]) (t.head?.map Prod.fst))) ++
        i.operation.getInnerOutputVariables.map fun var =>
          ScopedVariable.mk var (if i.operation.isNop then 0
            else 1 + is.countP (·.operation.isBlockBegin) + 1) := by
  -- what was defined keeps its scope
  have hOld : (definitions is).map (scopedVariable (is ++ [i])) =
      (definitions is).map (scopedVariable is) := by
    refine List.map_congr_left fun d hd => scopedVariable_append [i] ?_
    obtain ⟨i', hi', -⟩ := mem_definitions hd
    exact (List.getElem?_eq_some_iff.mp hi').1
  -- outputs go to the scope the instruction is written in
  have hOut : ∀ var ∈ i.operation.getOutputVariables,
      scopedVariable (is ++ [i]) ⟨is.length, false, var⟩ =
        ⟨var, if i.operation.isNop then 0 else scopeId (is ++ [i]) (t.head?.map Prod.fst)⟩ := by
    intro var hVar
    have hMem : (⟨is.length, false, var⟩ : Definition) ∈ i.definitions is.length :=
      mem_definitions_of.mpr ⟨rfl, by simpa using hVar⟩
    cases hNop : i.operation.isNop with
    | true =>
      have hVarNop : var = .nop := (isNop_iff_of_mem hMem).mp hNop
      simp [scopedVariable, hVarNop]
    | false =>
      have hBegin : i.operation.isBlockBegin = false := by
        by_contra h
        rw [getOutputVariables_of_begin (by simpa using h)] at hVar
        cases hVar
      have hNe : var ≠ .nop := var_ne_nop hMem hNop
      simp [scopedVariable, hNe, homeOf_last hs, ht hBegin]
  -- inner outputs go to the scope it opens
  have hIn : ∀ var ∈ i.operation.getInnerOutputVariables,
      scopedVariable (is ++ [i]) ⟨is.length, true, var⟩ =
        ⟨var, if i.operation.isNop then 0
          else 1 + is.countP (·.operation.isBlockBegin) + 1⟩ := by
    intro var hVar
    have hMem : (⟨is.length, true, var⟩ : Definition) ∈ i.definitions is.length :=
      mem_definitions_of.mpr ⟨rfl, by simpa using hVar⟩
    cases hNop : i.operation.isNop with
    | true =>
      have hVarNop : var = .nop := (isNop_iff_of_mem hMem).mp hNop
      simp [scopedVariable, hVarNop]
    | false =>
      have hNe : var ≠ .nop := var_ne_nop hMem hNop
      simp only [scopedVariable, hNe, homeOf, scopeId, if_true, if_false, Bool.false_eq_true,
        List.take_left, ScopedVariable.mk.injEq, true_and]
      omega
  rw [definitions_snoc, List.map_append, hOld, Instruction.definitions, List.map_append,
    List.map_map, List.map_map, ← List.append_assoc]
  congr 1
  · congr 1
    exact List.map_congr_left hOut
  · exact List.map_congr_left hIn

theorem scopeAt_append {is : List Instruction} (l : List Instruction) {s : List (Nat × BlockKind)}
    (hs : ∀ p ∈ s, p.1 ≤ is.length) : s.map (scopeAt (is ++ l)) = s.map (scopeAt is) := by
  refine List.map_congr_left fun p hp => ?_
  simp only [scopeAt]
  rw [scopeId_append l (hs p hp)]

/-- Defining the variables of an instruction, once the blocks `t` it is written
in are the active ones. -/
theorem define_builderAt (ctx : ProgramContext) {is : List Instruction} {i : Instruction}
    {s t : List (Nat × BlockKind)} (hs : openStack (brackets (is ++ [i])) = some s)
    (hLt : ∀ p ∈ t, p.1 ≤ is.length)
    (ht : s = match i.operation.bracket with
      | .opening k => (is.length, k) :: t
      | _ => t) :
    ∃ vars, (builderAt ctx is t).define i = .ok (vars, builderAt ctx (is ++ [i]) s) := by
  have hVars := scopedVariables_snoc hs t fun hBegin => by
    rw [ht]
    cases hb : i.operation.bracket with
    | opening k => simp [isBlockBegin_iff.mpr ⟨k, hb⟩] at hBegin
    | closing k => rfl
    | plain => rfl
  -- the innermost open block gives the scope of the outputs
  have hCurrent : (builderAt ctx is t).currentScope.map Scope.id =
      .ok (scopeId (is ++ [i]) (t.head?.map Prod.fst)) := by
    cases t with
    | nil => rfl
    | cons p t =>
      simp only [ProgramBuilder.currentScope, builderAt, List.map_cons, List.cons_append,
        Except.map, scopeAt, List.head?_cons, Option.map_some]
      rw [scopeId_append [i] (hLt p (List.mem_cons_self ..))]
  have hScopeId : (builderAt ctx is t).outputScopeId i.operation =
      .ok (if i.operation.isNop then 0 else scopeId (is ++ [i]) (t.head?.map Prod.fst)) := by
    rw [ProgramBuilder.outputScopeId, hCurrent]
    split <;> rfl
  have hCount := brackets_countP is i
  unfold ProgramBuilder.define
  simp only [hScopeId, bind, Except.bind]
  cases hBegin : i.operation.isBlockBegin with
  | false =>
    -- nothing is opened, so only the variables are added
    have hEq : s = t := by
      rw [ht]
      cases hb : i.operation.bracket with
      | opening k => simp [isBlockBegin_iff.mpr ⟨k, hb⟩] at hBegin
      | closing k => rfl
      | plain => rfl
    subst hEq
    have hInner : i.operation.isNop = false → i.operation.getInnerOutputVariables = [] :=
      getInnerOutputVariables_of_not_begin hBegin
    simp only [hBegin, Bool.false_eq_true, if_false, Nat.add_zero] at hCount
    simp only [ProgramBuilder.openBlock, hBegin, Bool.false_eq_true, if_false, Except.ok.injEq,
      Prod.mk.injEq, exists_eq_left']
    unfold builderAt ProgramBuilder.addVariables
    rw [hVars, hCount, scopeAt_append [i] hLt]
    simp only [ProgramBuilder.mk.injEq, true_and, and_true]
    refine ⟨?_, ?_⟩
    · rw [List.map_congr_left fun p hp => scopeId_append [i] (hLt p hp)]
    · congr 1
      cases hNop : i.operation.isNop with
      | true => simp
      | false => simp [hInner hNop]
  | true =>
    -- the block gets the next scope id, and becomes the innermost
    obtain ⟨k, hb⟩ := isBlockBegin_iff.mp hBegin
    have hContext : i.enteredContextAfterExecution = some (contextOf k) := by
      obtain ⟨inputs, op⟩ := i
      cases op <;> simp_all [bracket, Instruction.enteredContextAfterExecution] <;>
        subst hb <;> rfl
    rw [hb] at ht
    subst ht
    have hId : scopeId (is ++ [i]) (some is.length) =
        1 + is.countP (·.operation.isBlockBegin) + 1 := by
      rw [scopeId_append [i] (Nat.le_refl _)]
      simp only [scopeId, List.take_length]
      omega
    simp only [hBegin, if_true] at hCount
    simp only [ProgramBuilder.openBlock, hBegin, if_true, hContext, Except.ok.injEq,
      Prod.mk.injEq, exists_eq_left']
    unfold builderAt ProgramBuilder.addVariables ProgramBuilder.enterScope
    rw [hVars, hCount]
    simp only [List.map_cons, List.toFinset_cons, scopeAt, hId, List.cons_append,
      ProgramBuilder.mk.injEq, true_and, and_true, List.cons.injEq]
    refine ⟨by rw [scopeAt_append [i] hLt], ?_, by omega⟩
    rw [List.map_congr_left fun p hp => scopeId_append [i] (hLt p hp), Finset.insert_comm]

/-! ## Block ends -/

/-- The scope on top of the stack is not one of those below it. -/
theorem scopeId_notMem_below (ctx : ProgramContext) {is : List Instruction} {n : Nat}
    {k : BlockKind} {s : List (Nat × BlockKind)}
    (hs : openStack (brackets is) = some ((n, k) :: s)) :
    scopeId is (some n) ∉ (builderAt ctx is s).activeScopesSet := by
  obtain ⟨hSorted, hOpen⟩ := openStack_sorted hs
  intro hMem
  rcases Finset.mem_insert.mp hMem with hGlobal | hMem
  · simp only [scopeId] at hGlobal
    omega
  · obtain ⟨p, hp, hEq⟩ := List.mem_map.mp (List.mem_toFinset.mp hMem)
    have hpn := scopeId_injective (hOpen p.1 p.2 (List.mem_cons_of_mem _ hp))
      (hOpen n k (List.mem_cons_self ..)) hEq
    have : n > p.1 := (List.pairwise_cons.mp hSorted).1 p.1 (List.mem_map_of_mem hp)
    omega

/-- Leaving the innermost block pops its scope and nothing else. -/
theorem exitScope_builderAt {ctx : ProgramContext} {is : List Instruction} {n : Nat}
    {k : BlockKind} {s : List (Nat × BlockKind)}
    (hs : openStack (brackets is) = some ((n, k) :: s)) :
    (builderAt ctx is ((n, k) :: s)).exitScope =
      .ok (scopeAt is (n, k), builderAt ctx is s) := by
  have hBelow := scopeId_notMem_below ctx hs
  simp only [builderAt] at hBelow
  simp only [ProgramBuilder.exitScope, builderAt, List.map_cons, List.cons_append, scopeAt,
    Except.ok.injEq, Prod.mk.injEq, true_and, ProgramBuilder.mk.injEq, and_true]
  rw [List.toFinset_cons, Finset.insert_comm, Finset.erase_insert hBelow]

theorem getElem?_of_opening {is : List Instruction} {n : Nat} {k : BlockKind}
    (h : (brackets is)[n]? = some (.opening k)) :
    ∃ begin_, is[n]? = some begin_ ∧ begin_.operation.bracket = .opening k := by
  rw [brackets, List.getElem?_map, Option.map_eq_some_iff] at h
  exact h

/-- A block end is accepted when it closes a block of its kind. -/
theorem closeBlock_builderAt {ctx : ProgramContext} {is : List Instruction}
    {s s' : List (Nat × BlockKind)} (hs : openStack (brackets is) = some s) {op : Operation}
    (hStep : step is.length s op.bracket = some s') :
    (builderAt ctx is s).closeBlock op =
      .ok (.ok (), builderAt ctx is (if op.isBlockEnd then s' else s)) := by
  unfold ProgramBuilder.closeBlock
  cases hEnd : op.isBlockEnd with
  | false => rfl
  | true =>
    obtain ⟨k, hk⟩ := isBlockEnd_iff.mp hEnd
    rw [hk] at hStep
    match s, hs, hStep with
    | (n, k') :: s, hs, hStep =>
      simp only [step] at hStep
      split at hStep
      · rename_i hKind
        subst hKind
        obtain rfl := Option.some.inj hStep
        obtain ⟨begin_, hBegin, hOpening⟩ :=
          getElem?_of_opening ((openStack_sorted hs).2 n k (List.mem_cons_self ..))
        have hMatch : op.isMatchingBlockBegin begin_.operation = true :=
          isMatchingBlockBegin_iff.mpr ⟨k, hk, hOpening⟩
        simp only [if_true, exitScope_builderAt hs, bind, Except.bind, scopeAt]
        simp only [builderAt, hBegin, hMatch, if_true]
      · cases hStep

/-- A block end that meets a block of the other kind is rejected, and has left
that block. -/
theorem closeBlock_other (ctx : ProgramContext) {is : List Instruction} {n : Nat}
    {k k' : BlockKind} {s : List (Nat × BlockKind)}
    (hs : openStack (brackets is) = some ((n, k') :: s)) {op : Operation}
    (hk : op.bracket = .closing k) (hNe : k ≠ k') :
    ∃ begin_, is[n]? = some begin_ ∧ begin_.operation.bracket = .opening k' ∧
      (builderAt ctx is ((n, k') :: s)).closeBlock op =
        .ok (.error (.invalidBlockEnd begin_.operation op), builderAt ctx is s) := by
  obtain ⟨begin_, hBegin, hOpening⟩ :=
    getElem?_of_opening ((openStack_sorted hs).2 n k' (List.mem_cons_self ..))
  refine ⟨begin_, hBegin, hOpening, ?_⟩
  -- the begin on top is of another kind
  have hMatch : op.isMatchingBlockBegin begin_.operation = false := by
    rw [← Bool.not_eq_true, isMatchingBlockBegin_iff]
    rintro ⟨k'', hk'', hOpening'⟩
    rw [hk] at hk''
    rw [hOpening] at hOpening'
    cases hk''
    cases hOpening'
    exact hNe rfl
  unfold ProgramBuilder.closeBlock
  simp only [isBlockEnd_iff.mpr ⟨k, hk⟩, if_true, exitScope_builderAt hs, bind, Except.bind,
    scopeAt]
  simp only [builderAt, hBegin, hMatch, Bool.false_eq_true, if_false]

/-- With no block open, a block end violates an `expect`. -/
theorem closeBlock_global {ctx : ProgramContext} {is : List Instruction} {k : BlockKind}
    {op : Operation} (hk : op.bracket = .closing k) :
    (builderAt ctx is []).closeBlock op = .error (.expect "a non global scope has a begin") := by
  unfold ProgramBuilder.closeBlock
  rw [if_pos (isBlockEnd_iff.mpr ⟨k, hk⟩)]
  rfl

/-- With no block open, no message under construction is in scope. -/
theorem not_names_mutSetupConnection {is : List Instruction}
    (hs : openStack (brackets is) = some []) (v : Nat) : ¬ Names is v .mutSetupConnection := by
  rintro ⟨d, hd, hVar, hVis⟩
  obtain ⟨i, hi, hMem⟩ := mem_definitions (List.mem_of_getElem? hd)
  obtain ⟨-, hHome⟩ := (visible_iff hs hd).mp hVis
  have hVar' := (mem_definitions_of.mp hMem).2
  cases hInner : d.inner with
  | true => simpa using hHome d.instruction (by simp [homeOf, hInner])
  | false =>
    rw [hInner, hVar] at hVar'
    obtain ⟨inputs, op⟩ := i
    cases op <;> simp_all [getOutputVariables, List.mem_replicate]

/-! ## One call -/

/-- Everything a call can do after accepted instructions. -/
theorem append_cases (ctx : ProgramContext) {is : List Instruction} {s : List (Nat × BlockKind)}
    (hs : openStack (brackets is) = some s) (i : Instruction) :
    (WellTypedAfter ctx is i ∧ ∃ s' vars, step is.length s i.operation.bracket = some s' ∧
      (builderAt ctx is s).append i = .ok (.ok vars, builderAt ctx (is ++ [i]) s')) ∨
    (¬ WellTypedAfter ctx is i ∧ ∃ e,
      (builderAt ctx is s).append i = .ok (.error e, builderAt ctx is s)) ∨
    (WellTypedAfter ctx is i ∧ ∃ n k k' s' e, i.operation.bracket = .closing k ∧ k ≠ k' ∧
      s = (n, k') :: s' ∧
      (builderAt ctx is s).append i = .ok (.error e, builderAt ctx is s')) ∨
    (s = [] ∧ i = ⟨[], .endOnSetupSuccess⟩ ∧ (builderAt ctx is s).append i =
      .error (.expect "a non global scope has a begin")) := by
  unfold ProgramBuilder.append
  cases hCheck : (builderAt ctx is s).checkInstruction i with
  | error e =>
    right; left
    refine ⟨fun h => ?_, e, rfl⟩
    rw [(checkInstruction_ok_iff hs).mpr h] at hCheck
    cases hCheck
  | ok _ =>
    have hTyped : WellTypedAfter ctx is i := (checkInstruction_ok_iff hs).mp hCheck
    cases hStep : step is.length s i.operation.bracket with
    | some s' =>
      left
      have hSnoc : openStack (brackets (is ++ [i])) = some s' := by
        rw [brackets_append, brackets_singleton, openStack_snoc, hs, Option.bind_some,
          brackets_length, hStep]
      obtain ⟨vars, hDefine⟩ := define_builderAt ctx (t := if i.operation.isBlockEnd then s' else s)
        hSnoc (by
          intro p hp
          split at hp
          · have := lt_of_mem_openStack hSnoc (List.mem_map_of_mem hp)
            simp only [brackets_length, List.length_append, List.length_singleton] at this
            omega
          · have := lt_of_mem_openStack hs (List.mem_map_of_mem hp)
            rw [brackets_length] at this
            omega)
        (by
          cases hb : i.operation.bracket with
          | opening k =>
            have hEnd := (bracket_opening hb).2
            rw [hb] at hStep
            simpa [hEnd, step, eq_comm] using hStep
          | closing k => rw [if_pos (isBlockEnd_iff.mpr ⟨k, hb⟩)]
          | plain =>
            have hEnd := (bracket_plain hb).2
            rw [hb] at hStep
            simpa [hEnd, step, eq_comm] using hStep)
      refine ⟨hTyped, s', vars, rfl, ?_⟩
      simp only [closeBlock_builderAt hs hStep, bind, Except.bind, hDefine]
    | none =>
      right; right
      cases hb : i.operation.bracket with
      | opening k => simp [hb, step] at hStep
      | plain => simp [hb, step] at hStep
      | closing k =>
        cases s with
        | nil =>
          right
          simp only [closeBlock_global hb, bind, Except.bind, and_true, true_and]
          -- an end of a message needs one under construction, and none is in scope
          obtain ⟨inputs, op⟩ := i
          cases op <;> simp only [bracket, reduceCtorEq] at hb
          · have := hTyped.forall₂
            simp only [getInputVariables, List.forall₂_cons_right_iff] at this
            obtain ⟨v, -, hNames, -⟩ := this
            exact absurd hNames (not_names_mutSetupConnection hs v)
          · have hArity : inputs.length = 0 := hTyped.arity
            simp [List.length_eq_zero_iff.mp hArity]
        | cons p s' =>
          left
          obtain ⟨n, k'⟩ := p
          have hNe : k ≠ k' := fun h => by simp [hb, step, h] at hStep
          obtain ⟨begin_, -, -, hClose⟩ := closeBlock_other ctx hs hb hNe
          refine ⟨hTyped, n, k, k', s', .invalidBlockEnd begin_.operation i.operation, rfl, hNe, rfl, ?_⟩
          simp only [hClose, bind, Except.bind]

end Stratamoto
