import Mathlib.Data.Finset.Dedup
import Stratamoto.IR.Lowering

/-!
# Stratamoto — the compiler's states

After well typed instructions `is` that leave the blocks `s` open, the
compiler's state is described by the instructions alone (`Lowered`): its values
are `valuesOf`, its actions `actionsOf`, its sets and its metadata what the
instructions say they are. `compileInstruction_lowered` is the step: one more
well typed instruction keeps the description, unless it sends a setup that
cannot be encoded.

The builder decides which variables an instruction may use; `names_value` turns
that into what the compiler finds at the index, which is why no accessor fails.
-/

namespace Stratamoto

open Brackets Operation

/-! ## Values of a type -/

/-- A value has the shape its variable's type promises. -/
def Value.fits : Value → Variable → Bool
  | .role _, .role => true
  | .connection _, .connection => true
  | .setupAttempt _ _, .setupAttempt _ => true
  | .session, .session _ => true
  | .version _, .version => true
  | .flags _, .flags => true
  | .port _, .port => true
  | .str _, .str => true
  | .bytes _, .bytes => true
  | .duration _, .duration => true
  | .setupConnection _, .mutSetupConnection => true
  | .setupConnection spec, .constSetupConnection protocol => spec.protocol = protocol
  | _, _ => false

/-- The types whose values never change after they are made. -/
def Variable.isLoaded : Variable → Bool
  | .role | .connection | .version | .flags | .port | .str | .bytes | .duration => true
  | _ => false

theorem Names.definition {is : List Instruction} {v : Nat} {var : Variable}
    (h : Names is v var) : ∃ (d : Definition) (i : Instruction), (definitions is)[v]? = some d ∧
      is[d.instruction]? = some i ∧ i.operation.isNop = false ∧
      (if d.inner then var ∈ i.operation.getInnerOutputVariables
        else var ∈ i.operation.getOutputVariables) := by
  obtain ⟨d, hd, rfl, hNop, -⟩ := h
  obtain ⟨i, hi, hMem⟩ := mem_definitions (List.mem_of_getElem? hd)
  exact ⟨d, i, hd, hi, hNop i hi, (mem_definitions_of.mp hMem).2⟩

theorem Names.lt {is : List Instruction} {v : Nat} {var : Variable}
    (h : Names is v var) : v < (definitions is).length := by
  obtain ⟨d, hd, -⟩ := h
  exact (List.getElem?_eq_some_iff.mp hd).1

/-- The inputs of a well typed instruction, one at a time. -/
theorem WellTypedAfter.input {ctx : ProgramContext} {is : List Instruction} {i : Instruction}
    (h : WellTypedAfter ctx is i) {k : Nat} {var : Variable}
    (hk : i.operation.getInputVariables[k]? = some var) :
    i.inputs[k]? = some (i.input k) ∧ Names is (i.input k) var := by
  have hLt : k < i.inputs.length := by
    rw [h.arity]
    exact (List.getElem?_eq_some_iff.mp hk).1
  have hAt : i.inputs[k]? = some (i.input k) := by
    rw [Instruction.input, List.getD_eq_getElem?_getD, List.getElem?_eq_getElem hLt,
      Option.getD_some]
  exact ⟨hAt, h.inputs k _ _ hAt hk⟩

theorem edits_iff {i : Instruction} {m : Nat} :
    i.edits m = true ↔ i.operation.isEdit = true ∧ i.input 0 = m := by
  rw [Instruction.edits, Bool.and_eq_true, beq_iff_eq]

theorem isEdit_input {op : Operation} (h : op.isEdit = true) :
    op.getInputVariables[0]? = some .mutSetupConnection := by
  cases op <;> simp_all [isEdit, getInputVariables]

/-- What a usable variable holds: a value of its type, which the instructions
so far determine. -/
theorem names_value (ctx : ProgramContext) {is : List Instruction} {v : Nat}
    {var : Variable} (h : Names is v var) :
    (valuesOf ctx is)[v]? = some (valueOf ctx is v) ∧ (valueOf ctx is v).fits var = true ∧
      (var.isLoaded = true → constants ctx is v = valueOf ctx is v) := by
  obtain ⟨d, i, hd, hi, hNop, hVar⟩ := h.definition
  obtain ⟨hAt, hValue⟩ := valueOf_eq ctx hd
  refine ⟨hAt, ?_⟩
  simp only [hValue, Definition.value, constants, hd, hi]
  obtain ⟨inputs, op⟩ := i
  cases op <;> cases d.inner <;>
    simp_all [getInnerOutputVariables, getOutputVariables, isNop, Instruction.result, loaded,
      Value.fits, Variable.isLoaded]

/-- The message a variable under construction holds. -/
theorem names_mutSetupConnection (ctx : ProgramContext) {is : List Instruction}
    {m : Nat} (h : Names is m .mutSetupConnection) :
    ∃ (d : Definition) (i : Instruction), (definitions is)[m]? = some d ∧
      is[d.instruction]? = some i ∧ i.operation = .beginBuildSetupConnection ∧
      valueOf ctx is m = .setupConnection (messageSpec ctx is m) := by
  obtain ⟨d, i, hd, hi, -, hVar⟩ := h.definition
  have hOp : i.operation = .beginBuildSetupConnection := makes_of_output hVar
  refine ⟨d, i, hd, hi, hOp, ?_⟩
  rw [(valueOf_eq ctx hd).2, Definition.value, hi]
  exact if_pos hOp

theorem names_constSetupConnection {ctx : ProgramContext} {is : List Instruction}
    {v : Nat} {protocol : Protocol} (h : Names is v (.constSetupConnection protocol)) :
    valueOf ctx is v = .setupConnection (setupSpec ctx is v) := by
  have hFits := (names_value ctx h).2.1
  unfold setupSpec
  cases hValue : valueOf ctx is v <;> simp_all [Value.fits, Value.asSetup]

/-- No instruction edits a message that is not begun yet. -/
theorem messageSpec_fresh {ctx : ProgramContext} {is : List Instruction}
    (hTyped : WellTypedPrefix ctx is) {m : Nat} (hm : (definitions is).length ≤ m) :
    messageSpec ctx is m = {} := by
  induction is using List.reverseRecOn with
  | nil => rfl
  | append_singleton is i ih =>
    obtain ⟨hTyped, hAfter⟩ := wellTypedPrefix_snoc.mp hTyped
    rw [definitions_snoc, List.length_append] at hm
    rw [messageSpec_snoc, ih hTyped (by omega)]
    have hEdits : i.edits m = false := by
      by_contra hEdits
      obtain ⟨hEdit, rfl⟩ := edits_iff.mp (by simpa using hEdits)
      have := (hAfter.input (isEdit_input hEdit)).2.lt
      omega
    rw [hEdits, if_neg Bool.false_ne_true]

/-! ## Values after one more instruction -/

/-- An instruction that edits no message pushes its result for each variable it
defines, and changes no other value. -/
theorem valuesOf_snoc {ctx : ProgramContext} {is : List Instruction} {i : Instruction}
    (hTyped : WellTypedPrefix ctx is) (hEdit : i.operation.isEdit = false) :
    valuesOf ctx (is ++ [i]) =
      valuesOf ctx is ++ List.replicate i.operation.numDefined (i.result ctx is) := by
  -- only a setter changes a message that was begun before
  have hSpec : ∀ m, messageSpec ctx (is ++ [i]) m = messageSpec ctx is m := fun m => by
    rw [messageSpec_snoc, Instruction.edits, hEdit, Bool.false_and, if_neg Bool.false_ne_true]
  refine List.ext_getElem? fun v => ?_
  rw [getElem?_valuesOf, definitions_snoc]
  rcases Nat.lt_or_ge v (definitions is).length with hLt | hGe
  · rw [List.getElem?_append_left hLt, List.getElem?_append_left (by rwa [length_valuesOf]),
      getElem?_valuesOf]
    cases hd : (definitions is)[v]? with
    | none => rfl
    | some d =>
      -- an earlier variable is read off the same instructions
      obtain ⟨hAt, hBefore⟩ := take_definition [i] (definition_lt hd)
      simp only [Option.map_some, Definition.value, hAt, hBefore, hSpec]
  · rw [List.getElem?_append_right hGe, List.getElem?_append_right (by rwa [length_valuesOf]),
      length_valuesOf, List.getElem?_replicate]
    cases hd : (i.definitions is.length)[v - (definitions is).length]? with
    | none =>
      have := List.getElem?_eq_none_iff.mp hd
      rw [length_definitions_of] at this
      rw [Option.map_none, if_neg (by omega)]
    | some d =>
      have hLen := (List.getElem?_eq_some_iff.mp hd).1
      rw [length_definitions_of] at hLen
      -- the variable is of the new instruction, and no message is edited yet
      have hAt := instruction_of_mem_definitions (List.mem_of_getElem? hd)
      rw [Option.map_some, if_pos hLen, Definition.value, hAt, List.getElem?_concat_length]
      simp only [List.take_left, hSpec, messageSpec_fresh hTyped hGe]
      split
      · rename_i hBegin
        rw [Instruction.result, hBegin]
      · rfl

/-- An edit changes the message it edits, and no other value. -/
theorem valuesOf_edit {ctx : ProgramContext} {is : List Instruction} {i : Instruction}
    (hEdit : i.operation.isEdit = true) (hNames : Names is (i.input 0) .mutSetupConnection) :
    valuesOf ctx (is ++ [i]) = (valuesOf ctx is).set (i.input 0)
      (.setupConnection (i.edit ctx is (messageSpec ctx is (i.input 0)))) := by
  -- an edit defines nothing
  have hDefs : i.definitions is.length = [] := by
    obtain ⟨inputs, op⟩ := i
    cases op <;> simp_all [isEdit, Instruction.definitions, getOutputVariables,
      getInnerOutputVariables]
  refine List.ext_getElem? fun v => ?_
  rw [getElem?_valuesOf, definitions_snoc, hDefs, List.append_nil]
  -- the message that is edited, and the values that stay
  by_cases hv : i.input 0 = v
  · subst hv
    obtain ⟨d, begin_, hd, hBegin, hOp, -⟩ := names_mutSetupConnection ctx hNames
    rw [List.getElem?_set_self (by rw [length_valuesOf]; exact hNames.lt), hd, Option.map_some,
      Definition.value, (take_definition [i] (definition_lt hd)).1, hBegin]
    simp only [hOp, if_true, messageSpec_snoc, edits_iff.mpr ⟨hEdit, rfl⟩]
  · rw [List.getElem?_set_ne hv, getElem?_valuesOf]
    cases hd : (definitions is)[v]? with
    | none => rfl
    | some d =>
      obtain ⟨hAt, hBefore⟩ := take_definition [i] (definition_lt hd)
      have hNot : i.edits v = false := by
        rw [Instruction.edits, hEdit, Bool.true_and, beq_eq_false_iff_ne]
        exact hv
      simp only [Option.map_some, Definition.value, hAt, hBefore, messageSpec_snoc, hNot,
        Bool.false_eq_true, if_false]

/-! ## Actions after one more instruction -/

theorem length_lower (S : Sv2) (ctx : ProgramContext) (before : List Instruction) (exit : Nat)
    (i : Instruction) : (lower S ctx before exit i).length = i.operation.numActions := by
  unfold lower
  cases i.operation <;> rfl

/-- Only the begin of a success block names its exit. -/
theorem lower_exit (S : Sv2) (ctx : ProgramContext) (before : List Instruction)
    {i : Instruction} (h : i.operation.bracket ≠ .opening .success) (exit exit' : Nat) :
    lower S ctx before exit i = lower S ctx before exit' i := by
  unfold lower
  cases hOp : i.operation <;> simp_all [bracket]

/-- Lower every instruction, with the exits given. -/
def lowerAll (S : Sv2) (ctx : ProgramContext) (is : List Instruction) (exit : Nat → Nat) :
    List Action :=
  is.zipIdx.flatMap fun p => lower S ctx (is.take p.2) (exit p.2) p.1

theorem actionsOf_eq (S : Sv2) (ctx : ProgramContext) (is : List Instruction) :
    actionsOf S ctx is = lowerAll S ctx is (exitOf is) := rfl

theorem lowerAll_append (S : Sv2) (ctx : ProgramContext) (is : List Instruction)
    (i : Instruction) (exit : Nat → Nat) :
    lowerAll S ctx (is ++ [i]) exit =
      lowerAll S ctx is exit ++ lower S ctx is (exit is.length) i := by
  unfold lowerAll
  rw [List.zipIdx_append, List.flatMap_append]
  congr 1
  · refine List.flatMap_congr fun p hp => ?_
    have hLt := (List.getElem?_eq_some_iff.mp (List.mem_zipIdx_iff_getElem?.mp hp)).1
    rw [List.take_append_of_le_length (Nat.le_of_lt hLt)]
  · simp

theorem length_lowerAll (S : Sv2) (ctx : ProgramContext) (is : List Instruction)
    (exit : Nat → Nat) : (lowerAll S ctx is exit).length = actionCount is := by
  induction is using List.reverseRecOn with
  | nil => rfl
  | append_singleton is i ih =>
    rw [lowerAll_append, List.length_append, ih, length_lower, actionCount_snoc]

/-- The exits matter at the begins of success blocks only. -/
theorem lowerAll_congr (S : Sv2) (ctx : ProgramContext) {is : List Instruction}
    {exit exit' : Nat → Nat}
    (h : ∀ n, (brackets is)[n]? = some (.opening .success) → exit n = exit' n) :
    lowerAll S ctx is exit = lowerAll S ctx is exit' := by
  refine List.flatMap_congr fun p hp => ?_
  have hAt := List.mem_zipIdx_iff_getElem?.mp hp
  by_cases hb : p.1.operation.bracket = .opening .success
  · rw [h p.2 (by rw [brackets, List.getElem?_map, hAt, Option.map_some, hb])]
  · exact lower_exit S ctx _ hb _ _

/-- Changing the exit of one block changes its enter action. -/
theorem lowerAll_update (S : Sv2) (ctx : ProgramContext) {is : List Instruction} {b : Nat}
    {i : Instruction} (hb : is[b]? = some i) (hOpening : i.operation.bracket = .opening .success)
    (exit : Nat → Nat) (e : Nat) :
    (lowerAll S ctx is exit)[actionCount (is.take b)]? =
      some (.enterOnSetupSuccess (sessionOf ctx (is.take b) (i.input 0)) (exit b)) ∧
    lowerAll S ctx is (Function.update exit b e) =
      (lowerAll S ctx is exit).set (actionCount (is.take b))
        (.enterOnSetupSuccess (sessionOf ctx (is.take b) (i.input 0)) e) := by
  induction is using List.reverseRecOn with
  | nil => simp at hb
  | append_singleton is j ih =>
    rw [lowerAll_append, lowerAll_append]
    rcases Nat.lt_or_ge b is.length with hLt | hGe
    · -- the block begins among the earlier instructions
      rw [List.getElem?_append_left hLt] at hb
      obtain ⟨ihAt, ihSet⟩ := ih hb
      have hAction := (List.getElem?_eq_some_iff.mp ihAt).1
      rw [List.take_append_of_le_length (Nat.le_of_lt hLt), List.getElem?_append_left hAction,
        List.set_append_left _ _ hAction, ihSet, Function.update_of_ne (by omega)]
      exact ⟨ihAt, rfl⟩
    · have hLen := (List.getElem?_eq_some_iff.mp hb).1
      rw [List.length_append, List.length_singleton] at hLen
      obtain rfl : b = is.length := by omega
      rw [List.getElem?_concat_length, Option.some.injEq] at hb
      subst hb
      -- it is the new instruction, and the earlier ones do not ask for its exit
      have hEarlier : lowerAll S ctx is (Function.update exit is.length e) =
          lowerAll S ctx is exit := by
        refine lowerAll_congr S ctx fun n hn => Function.update_of_ne ?_ _ _
        have := (List.getElem?_eq_some_iff.mp hn).1
        rw [brackets_length] at this
        omega
      have hLower : ∀ x, lower S ctx is x j =
          [.enterOnSetupSuccess (sessionOf ctx is (j.input 0)) x] := fun x => by
        unfold lower
        cases hOp : j.operation <;> simp_all [bracket]
      rw [List.take_left, hEarlier, Function.update_self, hLower, hLower,
        List.getElem?_append_right (by rw [length_lowerAll]),
        List.set_append_right _ _ (by rw [length_lowerAll])]
      simp [length_lowerAll]

theorem exitOf_snoc {is : List Instruction} {i : Instruction} {s : List (Nat × BlockKind)}
    (hs : openStack (brackets is) = some s) {n : Nat}
    (hn : (brackets is)[n]? = some (.opening .success)) :
    exitOf (is ++ [i]) n =
      if i.operation = .endOnSetupSuccess ∧ s.head? = some (n, .success) then actionCount is
      else exitOf is n := by
  -- a block that is closed already ends among the earlier instructions
  have hTake : ∀ {e : Nat}, matching (brackets is) n = some e →
      (is ++ [i]).take e = is.take e := fun {e} he => by
    have := ((matching_eq_some_iff hs).mp he).lt_length
    rw [brackets_length] at this
    exact List.take_append_of_le_length (by omega)
  -- only an end closes a block, and only the innermost
  have hCloses : closes (brackets (is ++ [i])) n (brackets is).length = true ↔
      i.operation = .endOnSetupSuccess ∧ s.head? = some (n, .success) := by
    rw [closes, brackets_append, brackets_singleton, List.take_left, hs,
      List.getElem?_concat_length]
    cases s with
    | nil => simp
    | cons p s =>
      obtain ⟨b, k⟩ := p
      have hOpen := (openStack_sorted hs).2 b k (List.mem_cons_self ..)
      rcases i with ⟨inputs, op⟩
      cases op <;> simp [bracket]
      · rintro rfl rfl
        simp [hn] at hOpen
  simp only [exitOf, brackets_append, brackets_singleton] at hCloses ⊢
  rw [matching_snoc]
  by_cases hEnd : i.operation = .endOnSetupSuccess ∧ s.head? = some (n, .success)
  · -- the block was open, so it had no exit yet
    have hNone : matching (brackets is) n = none := by
      by_contra hSome
      obtain ⟨e, he⟩ := Option.ne_none_iff_exists'.mp hSome
      have hMatch := (matching_eq_some_iff hs).mp he
      have hMem : n ∈ s.map Prod.fst := List.mem_map_of_mem (List.mem_of_head? hEnd.2)
      exact ((mem_openStack_iff hs).mp hMem).2.2 e hMatch.lt_length hMatch
    rw [if_pos hEnd, if_pos (hCloses.mpr hEnd), hNone, Option.none_or, brackets_length]
    simp
  · rw [if_neg hEnd, if_neg (fun h => hEnd (hCloses.mp h)), Option.or_none]
    cases hMatch : matching (brackets is) n with
    | none => rfl
    | some e => simp only [hTake hMatch]

/-- A block that has just begun has no exit. -/
theorem exitOf_last {is : List Instruction} {i : Instruction} {s : List (Nat × BlockKind)}
    (hs : openStack (brackets (is ++ [i])) = some s) :
    exitOf (is ++ [i]) is.length = ActionId.max := by
  have hNone : matching (brackets (is ++ [i])) is.length = none := by
    by_contra hSome
    obtain ⟨e, he⟩ := Option.ne_none_iff_exists'.mp hSome
    have hMatch := (matching_eq_some_iff hs).mp he
    have := hMatch.lt
    have := hMatch.lt_length
    rw [brackets_length, List.length_append, List.length_singleton] at this
    omega
  rw [exitOf, hNone]

theorem actionsOf_snoc {S : Sv2} {ctx : ProgramContext} {is : List Instruction}
    {i : Instruction} {s s' : List (Nat × BlockKind)} (hs : openStack (brackets is) = some s)
    (hs' : openStack (brackets (is ++ [i])) = some s')
    (hEnd : i.operation ≠ .endOnSetupSuccess) :
    actionsOf S ctx (is ++ [i]) = actionsOf S ctx is ++ lower S ctx is ActionId.max i := by
  rw [actionsOf_eq, lowerAll_append, exitOf_last hs', actionsOf_eq]
  congr 1
  refine lowerAll_congr S ctx fun n hn => ?_
  rw [exitOf_snoc hs hn, if_neg (fun h => hEnd h.1)]

/-- Ending a block appends its exit and patches its enter action. -/
theorem actionsOf_end (S : Sv2) (ctx : ProgramContext) {is : List Instruction}
    {i begin_ : Instruction} {b : Nat} {s : List (Nat × BlockKind)}
    (hs : openStack (brackets is) = some ((b, .success) :: s))
    (hBegin : is[b]? = some begin_) (hEnd : i.operation = .endOnSetupSuccess) :
    (actionsOf S ctx is)[actionCount (is.take b)]? =
      some (.enterOnSetupSuccess (sessionOf ctx (is.take b) (begin_.input 0)) (exitOf is b)) ∧
    actionsOf S ctx (is ++ [i]) =
      (actionsOf S ctx is ++ [Action.exitBlock]).set (actionCount (is.take b))
        (.enterOnSetupSuccess (sessionOf ctx (is.take b) (begin_.input 0)) (actionCount is)) := by
  have hOpen := (openStack_sorted hs).2 b .success (List.mem_cons_self ..)
  have hOpening : begin_.operation.bracket = .opening .success := by
    rw [brackets, List.getElem?_map, hBegin, Option.map_some, Option.some.injEq] at hOpen
    exact hOpen
  obtain ⟨hAt, hSet⟩ := lowerAll_update S ctx hBegin hOpening (exitOf is) (actionCount is)
  -- the exit of the innermost block is all that changes
  have hExits : lowerAll S ctx is (exitOf (is ++ [i])) =
      lowerAll S ctx is (Function.update (exitOf is) b (actionCount is)) := by
    refine lowerAll_congr S ctx fun n hn => ?_
    rw [exitOf_snoc hs hn]
    by_cases hnb : n = b
    · subst hnb
      rw [Function.update_self, if_pos ⟨hEnd, rfl⟩]
    · rw [Function.update_of_ne hnb, if_neg]
      rintro ⟨-, hHead⟩
      simp only [List.head?_cons, Option.some.injEq, Prod.mk.injEq, and_true] at hHead
      exact hnb hHead.symm
  have hLast : lower S ctx is (exitOf (is ++ [i]) is.length) i = [Action.exitBlock] := by
    unfold lower
    rw [hEnd]
  refine ⟨hAt, ?_⟩
  rw [actionsOf_eq, lowerAll_append, hExits, hSet, hLast, actionsOf_eq, List.set_append_left]
  exact (List.getElem?_eq_some_iff.mp hAt).1

theorem actionInstructionsOf_snoc (is : List Instruction) (i : Instruction) :
    actionInstructionsOf (is ++ [i]) =
      actionInstructionsOf is ++ List.replicate i.operation.numActions is.length := by
  simp [actionInstructionsOf, List.zipIdx_append]

/-! ## Metadata -/

/-- A map whose entries are the ones the instructions make, each instruction at
most one. -/
def MadeBy {β : Type} (is : List Instruction)
    (entry : List Instruction → Instruction → Option (Nat × β)) (m : HashMap β) : Prop :=
  ∀ k v, m.lookup k = some v ↔
    ∃ (n : Nat) (i : Instruction), is[n]? = some i ∧ entry (is.take n) i = some (k, v)

theorem MadeBy.snoc {β : Type} {is : List Instruction} {i : Instruction} {m : HashMap β}
    {entry : List Instruction → Instruction → Option (Nat × β)} (h : MadeBy is entry m)
    (hNone : entry is i = none) : MadeBy (is ++ [i]) entry m := fun k v => by
  rw [h k v, exists_snoc_iff (Q := fun before j => entry before j = some (k, v)), hNone]
  simp

theorem MadeBy.insert {β : Type} {is : List Instruction} {i : Instruction} {m : HashMap β}
    {entry : List Instruction → Instruction → Option (Nat × β)} (h : MadeBy is entry m)
    {k : Nat} {v : β} (hSome : entry is i = some (k, v))
    (hFresh : ∀ (n : Nat) (j : Instruction) (v' : β), is[n]? = some j →
      entry (is.take n) j ≠ some (k, v')) : MadeBy (is ++ [i]) entry (m.insert k v) := by
  intro k' v'
  rw [exists_snoc_iff (Q := fun before j => entry before j = some (k', v')), hSome]
  -- the key is new, so nothing is overwritten
  by_cases hk : k' = k
  · subst hk
    rw [AList.lookup_insert]
    constructor
    · rintro ⟨⟩
      exact Or.inr rfl
    · rintro (⟨n, j, hj, hEntry⟩ | hEq)
      · exact absurd hEntry (hFresh n j v' hj)
      · rw [Option.some.injEq, Prod.mk.injEq] at hEq
        rw [hEq.2]
  · rw [AList.lookup_insert_ne hk, h k' v']
    constructor
    · exact Or.inl
    · rintro (hOld | hEq)
      · exact hOld
      · rw [Option.some.injEq, Prod.mk.injEq] at hEq
        exact absurd hEq.1.symm hk

/-- The connection a connect makes, with the variable that holds it. -/
def connectionEntry (ctx : ProgramContext) (before : List Instruction) (i : Instruction) :
    Option (Nat × Nat) :=
  if i.operation = .connect then
    some (ctx.numConnections + connects before, (definitions before).length)
  else none

/-- The session a send makes, with what is recorded of it. -/
def sessionEntry {β : Type} (get : List Instruction → Instruction → β)
    (before : List Instruction) (i : Instruction) : Option (Nat × β) :=
  if i.operation.isSendSetup then some (sends before, get before i) else none

/-- The await action of a send, with its violations if it has any. -/
def violationEntry (ctx : ProgramContext) (before : List Instruction) (i : Instruction) :
    Option (Nat × List ClientViolation) :=
  if i.operation.isSendSetup ∧ violationsOf ctx before (connectionOf ctx before (i.input 0)) ≠ [] then
    some (actionCount before + 1, violationsOf ctx before (connectionOf ctx before (i.input 0)))
  else none

section Entries

variable {ctx : ProgramContext} {before : List Instruction} {i : Instruction}

theorem connectionEntry_eq_some {c v : Nat} : connectionEntry ctx before i = some (c, v) ↔
    i.operation = .connect ∧ c = ctx.numConnections + connects before ∧
      v = (definitions before).length := by
  unfold connectionEntry
  rw [Option.ite_none_right_eq_some, Option.some.injEq, Prod.mk.injEq]
  exact and_congr_right fun _ => and_congr eq_comm eq_comm

theorem sessionEntry_eq_some {β : Type} {get : List Instruction → Instruction → β} {k : Nat}
    {v : β} : sessionEntry get before i = some (k, v) ↔
    i.operation.isSendSetup = true ∧ k = sends before ∧ v = get before i := by
  unfold sessionEntry
  rw [Option.ite_none_right_eq_some, Option.some.injEq, Prod.mk.injEq]
  exact and_congr_right fun _ => and_congr eq_comm eq_comm

theorem violationEntry_eq_some {a : Nat} {l : List ClientViolation} :
    violationEntry ctx before i = some (a, l) ↔
    i.operation.isSendSetup = true ∧ a = actionCount before + 1 ∧
      l = violationsOf ctx before (connectionOf ctx before (i.input 0)) ∧ l ≠ [] := by
  unfold violationEntry
  rw [Option.ite_none_right_eq_some, Option.some.injEq, Prod.mk.injEq]
  constructor
  · intro h
    obtain ⟨⟨hSend, hNoted⟩, rfl, rfl⟩ := h
    exact ⟨hSend, rfl, rfl, hNoted⟩
  · intro h
    obtain ⟨hSend, rfl, rfl, hNoted⟩ := h
    exact ⟨⟨hSend, hNoted⟩, rfl, rfl⟩

end Entries

/-- The metadata of a program. -/
structure Describes (ctx : ProgramContext) (is : List Instruction) (m : CompiledMetadata) :
    Prop where
  actionInstructions : m.actionInstructions = actionInstructionsOf is
  connectionVariables : MadeBy is (connectionEntry ctx) m.connectionVariables
  sessionVariables :
    MadeBy is (sessionEntry fun before _ => (definitions before).length) m.sessionVariables
  sessionSetups :
    MadeBy is (sessionEntry fun before i => setupSpec ctx before (i.input 1)) m.sessionSetups
  violations : MadeBy is (violationEntry ctx) m.violations

/-- Actions that make no connection and no session add their instructions. -/
theorem Describes.snoc {ctx : ProgramContext} {is : List Instruction} {i : Instruction}
    {m : CompiledMetadata} (h : Describes ctx is m) (hConnect : i.operation ≠ .connect)
    (hSend : i.operation.isSendSetup = false) :
    Describes ctx (is ++ [i]) { m with
      actionInstructions :=
        m.actionInstructions ++ List.replicate i.operation.numActions is.length } where
  actionInstructions := by rw [actionInstructionsOf_snoc, h.actionInstructions]
  connectionVariables := h.connectionVariables.snoc (if_neg hConnect)
  sessionVariables := h.sessionVariables.snoc (if_neg (by simp [hSend]))
  sessionSetups := h.sessionSetups.snoc (if_neg (by simp [hSend]))
  violations := h.violations.snoc (if_neg (by simp [hSend]))

theorem sessionEntry_fresh {β : Type} {get : List Instruction → Instruction → β}
    {is : List Instruction} {n : Nat} {j : Instruction} {v : β} (hj : is[n]? = some j) :
    sessionEntry get (is.take n) j ≠ some (sends is, v) := by
  intro hEntry
  obtain ⟨hSend, hKey, -⟩ := sessionEntry_eq_some.mp hEntry
  have : sends (is.take n) < sends is := total_take_lt _ hj (by simp [hSend])
  omega

theorem connectionEntry_fresh {ctx : ProgramContext} {is : List Instruction} {n : Nat}
    {j : Instruction} {v : Nat} (hj : is[n]? = some j) :
    connectionEntry ctx (is.take n) j ≠ some (ctx.numConnections + connects is, v) := by
  intro hEntry
  obtain ⟨hConnect, hKey, -⟩ := connectionEntry_eq_some.mp hEntry
  have : connects (is.take n) < connects is := total_take_lt _ hj (by simp [hConnect])
  omega

theorem violationEntry_fresh {ctx : ProgramContext} {is : List Instruction} {n : Nat}
    {j : Instruction} {v : List ClientViolation} (hj : is[n]? = some j) :
    violationEntry ctx (is.take n) j ≠ some (actionCount is + 1, v) := by
  intro hEntry
  obtain ⟨hSend, hKey, -⟩ := violationEntry_eq_some.mp hEntry
  have hActions : 0 < j.operation.numActions := by
    obtain ⟨protocol, hOp⟩ := isSendSetup_iff.mp hSend
    rw [hOp]
    exact Nat.two_pos
  have : actionCount (is.take n) < actionCount is := total_take_lt _ hj hActions
  omega

/-- The note of a send's await action. -/
theorem MadeBy.note {ctx : ProgramContext} {is : List Instruction} {i : Instruction}
    {m : HashMap (List ClientViolation)} (h : MadeBy is (violationEntry ctx) m)
    (hSend : i.operation.isSendSetup = true) {action : Nat} {violations : List ClientViolation}
    (hAction : action = actionCount is + 1)
    (hViolations : violations = violationsOf ctx is (connectionOf ctx is (i.input 0))) :
    MadeBy (is ++ [i]) (violationEntry ctx)
      (if violations.isEmpty then m else m.insert action violations) := by
  rw [hAction, hViolations]
  by_cases hNone : violationsOf ctx is (connectionOf ctx is (i.input 0)) = []
  · rw [if_pos (by rw [hNone]; rfl)]
    exact h.snoc (if_neg fun hNote => hNote.2 hNone)
  · rw [if_neg (by simpa using hNone)]
    exact h.insert (if_pos ⟨hSend, hNone⟩) fun n j v hj => violationEntry_fresh hj

/-! ## The invariant -/

/-- The enter actions of the success blocks open, innermost first. -/
def openEnters (is : List Instruction) (s : List (Nat × BlockKind)) : List Nat :=
  (s.filter fun p => p.2 = .success).map fun p => actionCount (is.take p.1)

theorem openEnters_append {is : List Instruction} {s : List (Nat × BlockKind)}
    (hs : openStack (brackets is) = some s) (l : List Instruction) :
    openEnters (is ++ l) s = openEnters is s := by
  refine List.map_congr_left fun p hp => ?_
  have hLt := lt_of_mem_openStack hs (List.mem_map_of_mem (List.mem_filter.mp hp).1)
  rw [brackets_length] at hLt
  rw [List.take_append_of_le_length (Nat.le_of_lt hLt)]

/-- The compiler's state after the instructions `is`, with the blocks `s` open. -/
structure Lowered (S : Sv2) (ctx : ProgramContext) (is : List Instruction)
    (s : List (Nat × BlockKind)) (c : Compiler) : Prop where
  values : c.values = valuesOf ctx is
  actions : c.actions = actionsOf S ctx is
  metadata : Describes ctx is c.metadata
  connections : c.connections = ctx.numConnections + connects is
  sessions : c.sessions = sends is
  sent : ∀ k, k ∈ c.sent ↔ k < ctx.numConnections ∨ sentOn ctx is k = true
  rawFramed : ∀ k, k ∈ c.rawFramed ↔ rawSentOn ctx is k = true
  blocks : c.blocks = openEnters is s

theorem lowered_start (S : Sv2) (ctx : ProgramContext) :
    Lowered S ctx [] [] (Compiler.start ctx) where
  values := rfl
  actions := rfl
  metadata := ⟨rfl, by simp [MadeBy, Compiler.start], by simp [MadeBy, Compiler.start],
    by simp [MadeBy, Compiler.start], by simp [MadeBy, Compiler.start]⟩
  connections := rfl
  sessions := rfl
  sent k := by simp [Compiler.start, sentOn, occurs]
  rawFramed k := by simp [Compiler.start, rawSentOn, occurs]
  blocks := rfl

/-- A success block begun or ended changes the enters that are open; nothing
else does. -/
theorem openEnters_snoc {is : List Instruction} {i : Instruction} {s s' : List (Nat × BlockKind)}
    (hs : openStack (brackets is) = some s) (hs' : openStack (brackets (is ++ [i])) = some s')
    (hOpening : i.operation.bracket ≠ .opening .success)
    (hClosing : i.operation.bracket ≠ .closing .success) :
    openEnters (is ++ [i]) s' = openEnters is s := by
  have hStep := openStack_brackets_snoc hs i
  rw [hs'] at hStep
  rw [← openEnters_append hs [i]]
  unfold openEnters
  rcases hb : i.operation.bracket with (_ | _) | (_ | _) | _
  · rw [hb, step, Option.some.injEq] at hStep
    rw [hStep]
    rfl
  · exact absurd hb hOpening
  · -- a closed message block was on top of the stack
    rw [hb] at hStep
    rcases s with _ | ⟨⟨b, k⟩, s⟩
    · simp [step] at hStep
    · cases k <;> simp [step] at hStep
      rw [hStep]
      rfl
  · exact absurd hb hClosing
  · rw [hb, step, Option.some.injEq] at hStep
    rw [hStep]

theorem numActions_zero {op : Operation} (h : op.numActions = 0) :
    op ≠ .connect ∧ op.isSendSetup = false ∧ op.bracket ≠ .opening .success ∧
      op.bracket ≠ .closing .success := by
  cases op <;> simp_all [numActions, isSendSetup, bracket]

/-- What has to be said of the next state for the description to be kept. -/
theorem Lowered.snoc {S : Sv2} {ctx : ProgramContext} {is : List Instruction} {i : Instruction}
    {s s' : List (Nat × BlockKind)} {c c' : Compiler} (h : Lowered S ctx is s c)
    (hs : openStack (brackets is) = some s) (hs' : openStack (brackets (is ++ [i])) = some s')
    (hEnd : i.operation ≠ .endOnSetupSuccess)
    (values : c'.values = valuesOf ctx (is ++ [i]))
    (actions : c'.actions = c.actions ++ lower S ctx is ActionId.max i)
    (metadata : Describes ctx (is ++ [i]) c'.metadata)
    (connections : c'.connections = c.connections + if i.operation = .connect then 1 else 0)
    (sessions : c'.sessions = c.sessions + if i.operation.isSendSetup then 1 else 0)
    (sent : ∀ k, k ∈ c'.sent ↔ k ∈ c.sent ∨ i.sendsOn ctx k is = true)
    (rawFramed : ∀ k, k ∈ c'.rawFramed ↔ k ∈ c.rawFramed ∨ i.rawSendsOn ctx k is = true)
    (blocks : c'.blocks = openEnters (is ++ [i]) s') : Lowered S ctx (is ++ [i]) s' c' where
  values := values
  actions := by rw [actions, h.actions, actionsOf_snoc hs hs' hEnd]
  metadata := metadata
  connections := by rw [connections, h.connections, connects_snoc, Nat.add_assoc]
  sessions := by rw [sessions, h.sessions, sends_snoc]
  sent k := by rw [sent, h.sent, sentOn, sentOn, occurs_snoc, Bool.or_eq_true, or_assoc]
  rawFramed k := by rw [rawFramed, h.rawFramed, rawSentOn, rawSentOn, occurs_snoc, Bool.or_eq_true]
  blocks := blocks

/-- Instructions without actions change the values only. -/
theorem Lowered.values_only {S : Sv2} {ctx : ProgramContext} {is : List Instruction}
    {i : Instruction} {s s' : List (Nat × BlockKind)} {c : Compiler}
    (h : Lowered S ctx is s c) (hs : openStack (brackets is) = some s)
    (hs' : openStack (brackets (is ++ [i])) = some s') (hActions : i.operation.numActions = 0)
    {values : List Value} (hValues : values = valuesOf ctx (is ++ [i])) :
    Lowered S ctx (is ++ [i]) s' { c with values } := by
  obtain ⟨hConnect, hSend, hOpening, hClosing⟩ := numActions_zero hActions
  have hLower : lower S ctx is ActionId.max i = [] :=
    List.length_eq_zero_iff.mp (by rw [length_lower, hActions])
  have hMetadata : Describes ctx (is ++ [i]) c.metadata := by
    have := h.metadata.snoc hConnect hSend
    rwa [hActions, List.replicate_zero, List.append_nil] at this
  -- without an action no frame is sent
  have hNoFrame : ∀ k, i.sendsOn ctx k is = false ∧ i.rawSendsOn ctx k is = false := fun k => by
    unfold Instruction.sendsOn Instruction.rawSendsOn
    cases hOp : i.operation <;> simp_all [numActions]
  refine h.snoc hs hs' ?_ hValues ?_ hMetadata ?_ ?_ ?_ ?_ ?_
  · rintro hEnd
    exact hClosing (by rw [hEnd, bracket])
  · rw [hLower, List.append_nil]
  · rw [if_neg hConnect, Nat.add_zero]
  · rw [hSend, if_neg Bool.false_ne_true, Nat.add_zero]
  · intro k
    rw [(hNoFrame k).1, or_iff_left Bool.false_ne_true]
  · intro k
    rw [(hNoFrame k).2, or_iff_left Bool.false_ne_true]
  · exact h.blocks.trans (openEnters_snoc hs hs' hOpening hClosing).symm

/-! ## Reading values -/

section Reading

variable {ctx : ProgramContext} {is : List Instruction} {c : Compiler}

theorem input_ok {i : Instruction} {k : Nat} {var : Variable} (hAfter : WellTypedAfter ctx is i)
    (hk : i.operation.getInputVariables[k]? = some var) :
    Compiler.input i.inputs k = .ok (i.input k) := by
  rw [Compiler.input, (hAfter.input hk).1]

theorem read_value {α : Type} {get : Value → Option α} {v : Nat} {var : Variable} {a : α}
    (hc : c.values = valuesOf ctx is) (h : Names is v var)
    (hGet : get (valueOf ctx is v) = some a) : c.read get v = .ok a := by
  simp only [Compiler.read, Compiler.value, hc, (names_value ctx h).1, bind,
    Except.bind, hGet]

/-- A variable of a loaded type holds its constant. -/
theorem read_loaded {α : Type} {get : Value → Option α} {v : Nat} {var : Variable}
    (hc : c.values = valuesOf ctx is) (h : Names is v var) (hLoaded : var.isLoaded = true)
    (hGet : ∀ x : Value, x.fits var = true → ∃ a, get x = some a) (default : α) :
    c.read get v = .ok ((get (constants ctx is v)).getD default) := by
  obtain ⟨-, hFits, hConstant⟩ := names_value ctx h
  obtain ⟨a, ha⟩ := hGet _ hFits
  rw [hConstant hLoaded, ha, Option.getD_some]
  exact read_value hc h ha

theorem read_role (hc : c.values = valuesOf ctx is) {v : Nat} (h : Names is v .role) :
    c.role v = .ok (roleOf ctx is v) :=
  read_loaded hc h rfl (fun x hx => by cases x <;> simp_all [Value.fits, Value.asRole]) 0

theorem read_connection (hc : c.values = valuesOf ctx is) {v : Nat} (h : Names is v .connection) :
    c.connection v = .ok (connectionOf ctx is v) :=
  read_loaded hc h rfl (fun x hx => by cases x <;> simp_all [Value.fits, Value.asConnection]) 0

theorem read_version (hc : c.values = valuesOf ctx is) {v : Nat} (h : Names is v .version) :
    c.version v = .ok (versionOf ctx is v) :=
  read_loaded hc h rfl (fun x hx => by cases x <;> simp_all [Value.fits, Value.asVersion]) 0

theorem read_flags (hc : c.values = valuesOf ctx is) {v : Nat} (h : Names is v .flags) :
    c.flags v = .ok (flagsOf ctx is v) :=
  read_loaded hc h rfl (fun x hx => by cases x <;> simp_all [Value.fits, Value.asFlags]) 0

theorem read_port (hc : c.values = valuesOf ctx is) {v : Nat} (h : Names is v .port) :
    c.port v = .ok (portOf ctx is v) :=
  read_loaded hc h rfl (fun x hx => by cases x <;> simp_all [Value.fits, Value.asPort]) 0

theorem read_string (hc : c.values = valuesOf ctx is) {v : Nat} (h : Names is v .str) :
    c.string v = .ok (strOf ctx is v) :=
  read_loaded hc h rfl (fun x hx => by cases x <;> simp_all [Value.fits, Value.asStr]) ""

theorem read_bytes (hc : c.values = valuesOf ctx is) {v : Nat} (h : Names is v .bytes) :
    c.bytes v = .ok (bytesOf ctx is v) :=
  read_loaded hc h rfl (fun x hx => by cases x <;> simp_all [Value.fits, Value.asBytes]) []

theorem read_duration (hc : c.values = valuesOf ctx is) {v : Nat} (h : Names is v .duration) :
    c.duration v = .ok (durationOf ctx is v) :=
  read_loaded hc h rfl (fun x hx => by cases x <;> simp_all [Value.fits, Value.asDuration]) 0

theorem read_attempt (hc : c.values = valuesOf ctx is) {v : Nat} {protocol : Protocol}
    (h : Names is v (.setupAttempt protocol)) :
    ∃ connection, c.attempt v = .ok (sessionOf ctx is v, connection) := by
  have hFits := (names_value ctx h).2.1
  cases hValue : valueOf ctx is v <;> simp_all [Value.fits]
  rename_i session connection
  refine ⟨connection, read_value hc h ?_⟩
  simp [hValue, Value.asAttempt, sessionOf]

theorem read_mutSetup (hc : c.values = valuesOf ctx is) {v : Nat}
    (h : Names is v .mutSetupConnection) : c.setup v = .ok (messageSpec ctx is v) := by
  obtain ⟨-, -, -, -, -, hValue⟩ := names_mutSetupConnection ctx h
  exact read_value hc h (by rw [hValue, Value.asSetup])

theorem read_constSetup (hc : c.values = valuesOf ctx is) {v : Nat} {protocol : Protocol}
    (h : Names is v (.constSetupConnection protocol)) : c.setup v = .ok (setupSpec ctx is v) :=
  read_value hc h (by rw [names_constSetupConnection h, Value.asSetup])

/-- An edit of a message under construction finds it. -/
theorem setupMut_ok (hc : c.values = valuesOf ctx is) {i : Instruction}
    (h : Names is (i.input 0) .mutSetupConnection) (hEdit : i.operation.isEdit = true)
    {change : SetupConnectionSpec → SetupConnectionSpec} (hChange : change = i.edit ctx is) :
    c.setupMut (i.input 0) change = .ok { c with values := valuesOf ctx (is ++ [i]) } := by
  obtain ⟨-, -, -, -, -, hValue⟩ := names_mutSetupConnection ctx h
  have hAt := (names_value ctx h).1
  rw [hValue] at hAt
  simp only [Compiler.setupMut, hc, hAt, valuesOf_edit hEdit h, hChange]

end Reading

end Stratamoto
