import Stratamoto.IR.Actions

/-!
# Stratamoto — a program without one of its success blocks

Taking a block out renumbers the instructions, the variables and the connections
after it: each closes the gap that the block leaves.

* `Program.cut p b e` — `p` without its instructions from `b` to `e`;
* `ClosedBlock A B` — no variable of `B` can be seen after `A ++ B`;
* `names_cut`, `WellTyped.cut` — what is left is well typed;
* `constants_cut`, `messageSpec_cut`, `setupSpec_cut` — its values are the same, up to
  the numbers of connections, where the block edits no message begun before it.
-/

namespace Stratamoto

open Brackets Operation

/-! ## Taking a block out -/

/-- The instruction with the gap in its inputs closed. -/
def Instruction.closeGap (m k : Nat) (i : Instruction) : Instruction :=
  { i with inputs := i.inputs.map (Brackets.closeGap m k) }

@[simp] theorem closeGap_operation (m k : Nat) (i : Instruction) :
    (i.closeGap m k).operation = i.operation := rfl

theorem closeGap_input {m k j : Nat} {i : Instruction} (hj : j < i.inputs.length) :
    (i.closeGap m k).input j = Brackets.closeGap m k (i.input j) := by
  simp [Instruction.input, Instruction.closeGap, List.getD_eq_getElem?_getD, hj]

/-- How many variables `B` defines after `A`. -/
def gap (A B : List Instruction) : Nat := (definitions (A ++ B)).length - (definitions A).length

/-- The instructions `A`, `B` and `C` without `B`. -/
def cut (A B C : List Instruction) : List Instruction :=
  A ++ C.map (Instruction.closeGap (definitions A).length (gap A B))

/-- The program without its instructions from `b` to `e`. -/
def Program.cut (p : Program) (b e : Nat) : Program where
  context := p.context
  instructions := Stratamoto.cut (p.instructions.take b) ((p.instructions.drop b).take (e + 1 - b))
    (p.instructions.drop (e + 1))

/-- A definition, seen after `B` is taken out from between `A` and the rest. -/
def Definition.close (A B : List Instruction) (d : Definition) : Definition :=
  { d with instruction := closeGap A.length B.length d.instruction }

section Cut

variable {ctx : ProgramContext} {A B C : List Instruction}

theorem cut_snoc (C : List Instruction) (i : Instruction) :
    cut A B (C ++ [i]) = cut A B C ++ [i.closeGap (definitions A).length (gap A B)] := by
  simp [cut]

theorem cut_take (n : Nat) : (cut A B C).take (A.length + n) = cut A B (C.take n) := by
  rw [cut, List.take_length_add_append, ← List.map_take]
  rfl

theorem length_cut : (cut A B C).length = A.length + C.length := by
  simp [cut]

theorem brackets_cut : brackets (cut A B C) = brackets A ++ brackets C := by
  rw [cut, brackets_append]
  simp [brackets]

theorem definitions_closeGap (A B : List Instruction) {n : Nat} (hn : A.length + B.length ≤ n)
    (i : Instruction) (m k : Nat) :
    (i.closeGap m k).definitions (n - B.length) = (i.definitions n).map (Definition.close A B) := by
  simp [Instruction.definitions, Definition.close, Function.comp_def, closeGap_of_le hn]

/-- The definitions after the block are those of the program without it. -/
theorem definitions_cut (A B C : List Instruction) : ∃ D,
    definitions (A ++ B ++ C) = definitions (A ++ B) ++ D ∧
      definitions (cut A B C) = definitions A ++ D.map (Definition.close A B) ∧
      ∀ d ∈ D, A.length + B.length ≤ d.instruction := by
  induction C using List.reverseRecOn with
  | nil => exact ⟨[], by simp, by simp [cut], by simp⟩
  | append_singleton C i ih =>
    obtain ⟨D, hFull, hCut, hD⟩ := ih
    have hLen : (cut A B C).length = (A ++ B ++ C).length - B.length := by
      rw [length_cut]
      simp
      omega
    -- what is behind the gap keeps its definitions, at smaller positions
    have hGe : A.length + B.length ≤ (A ++ B ++ C).length := by simp
    refine ⟨D ++ i.definitions (A ++ B ++ C).length, ?_, ?_, fun d hd => ?_⟩
    · rw [← List.append_assoc, definitions_snoc, hFull, List.append_assoc]
    · rw [cut_snoc, definitions_snoc, hCut, hLen, definitions_closeGap A B hGe, List.map_append,
        List.append_assoc]
    · rcases List.mem_append.mp hd with hd | hd
      · exact hD d hd
      · rw [instruction_of_mem_definitions hd]
        exact hGe

/-- The variables outside the block, before and after it is taken out. -/
theorem getElem?_definitions_cut {v : Nat} {d : Definition}
    (hd : (definitions (A ++ B ++ C))[v]? = some d)
    (hOut : d.instruction < A.length ∨ A.length + B.length ≤ d.instruction) :
    (v < (definitions A).length ∨ (definitions A).length + gap A B ≤ v) ∧
      (definitions (cut A B C))[closeGap (definitions A).length (gap A B) v]? =
        some (d.close A B) := by
  -- three parts: the variables before the block, its own and the ones after it
  obtain ⟨D, hFull, hCut, hD⟩ := definitions_cut A B C
  obtain ⟨E, hBlock, hE⟩ := definitions_append A B
  have hGap : (definitions A).length + gap A B = (definitions (A ++ B)).length := by
    rw [gap, hBlock, List.length_append]
    omega
  rcases Nat.lt_or_ge v (definitions (A ++ B)).length with hLt | hGe
  · rw [hFull, List.getElem?_append_left hLt] at hd
    rcases Nat.lt_or_ge v (definitions A).length with hBefore | hAfter
    · rw [hBlock, List.getElem?_append_left hBefore] at hd
      refine ⟨Or.inl hBefore, ?_⟩
      have hSame : d.close A B = d := by
        rw [Definition.close, closeGap_of_lt (definition_lt hd)]
      rw [closeGap_of_lt hBefore, hCut, List.getElem?_append_left hBefore, hd, hSame]
    · -- the variables of the block itself
      have hIn := definition_lt hd
      rw [List.length_append] at hIn
      rw [hBlock, List.getElem?_append_right hAfter] at hd
      have := hE d (List.mem_of_getElem? hd)
      omega
  · refine ⟨Or.inr (by omega), ?_⟩
    rw [hFull, List.getElem?_append_right hGe] at hd
    rw [closeGap_of_le (by omega), hCut, List.getElem?_append_right (by omega),
      show v - gap A B - (definitions A).length = v - (definitions (A ++ B)).length by omega,
      List.getElem?_map, hd]
    rfl

/-- A block that the instructions before and after it do not overlap, and whose
variables all live in scopes of its own. -/
structure ClosedBlock (A B : List Instruction) : Prop where
  balanced : Balanced (brackets B)
  hidden : ∀ d ∈ definitions (A ++ B), A.length ≤ d.instruction →
    ∃ home, homeOf (A ++ B) d = some home ∧ A.length ≤ home

theorem openStack_cut (hB : ClosedBlock A B) {s : List (Nat × BlockKind)}
    (hs : openStack (brackets (A ++ B ++ C)) = some s) :
    openStack (brackets (cut A B C)) = some (closeStack A.length B.length s) ∧
      ∀ p ∈ s, p.1 < A.length ∨ A.length + B.length ≤ p.1 := by
  rw [brackets_append, brackets_append] at hs
  rw [brackets_cut, ← brackets_length A, ← brackets_length B]
  exact openStack_remove hB.balanced hs

theorem homeOf_cut (hB : ClosedBlock A B) {s : List (Nat × BlockKind)}
    (hs : openStack (brackets (A ++ B ++ C)) = some s) {d : Definition}
    (hd : d.instruction < A.length ∨ A.length + B.length ≤ d.instruction) :
    homeOf (cut A B C) (d.close A B) =
      (homeOf (A ++ B ++ C) d).map (closeGap A.length B.length) := by
  rcases hd with hBefore | hAfter
  · have hSame : d.close A B = d := by rw [Definition.close, closeGap_of_lt hBefore]
    rw [hSame, cut, homeOf_append _ hBefore, List.append_assoc, homeOf_append _ hBefore]
    cases hHome : homeOf A d with
    | none => rfl
    | some home =>
      rw [Option.map_some, closeGap_of_lt (Nat.lt_of_le_of_lt (homeOf_le hHome) hBefore)]
  · obtain ⟨n, hn⟩ := Nat.exists_eq_add_of_le hAfter
    have hClose : (d.close A B).instruction = A.length + n := by
      show closeGap _ _ d.instruction = _
      rw [closeGap_of_le hAfter]
      omega
    -- behind the block both prefixes end at the same instruction of `C`
    have hFull : (brackets (A ++ B ++ C)).take (d.instruction + 1) =
        brackets (A ++ B ++ C.take (n + 1)) := by
      rw [← brackets_take, hn, show A.length + B.length + n + 1 = (A ++ B).length + (n + 1) by
        simp; omega, List.take_length_add_append]
    have hCut : (brackets (cut A B C)).take (A.length + n + 1) =
        brackets (cut A B (C.take (n + 1))) := by
      rw [← brackets_take, show A.length + n + 1 = A.length + (n + 1) by omega, cut_take]
    unfold homeOf
    rw [hClose, hFull, hCut]
    show (if d.inner = true then _ else _) = _
    by_cases hInner : d.inner = true
    · rw [if_pos hInner, if_pos hInner, Option.map_some, closeGap_of_le hAfter]
      congr 1
      omega
    · rw [if_neg hInner, if_neg hInner]
      -- the innermost open block there is the same one, renumbered
      obtain ⟨s', hs'⟩ := openStack_take hs (d.instruction + 1)
      rw [hFull] at hs'
      rw [hs', (openStack_cut hB hs').1, Option.getD_some, Option.getD_some]
      cases s' with
      | nil => rfl
      | cons p s' => rfl

/-! ## What is left is well typed -/

/-- A variable that can be used after the block is not one of the block's, and
can be used without it. -/
theorem names_cut (hB : ClosedBlock A B) {s : List (Nat × BlockKind)}
    (hs : openStack (brackets (A ++ B ++ C)) = some s) {v : Nat} {var : Variable}
    (h : Names (A ++ B ++ C) v var) :
    (∃ d, (definitions (A ++ B ++ C))[v]? = some d ∧
      (d.instruction < A.length ∨ A.length + B.length ≤ d.instruction)) ∧
      Names (cut A B C) (closeGap (definitions A).length (gap A B) v) var := by
  obtain ⟨d, hd, rfl, hVisible⟩ := h
  obtain ⟨hNop, hHome⟩ := (visible_iff hs hd).mp hVisible
  obtain ⟨hCut, hPositions⟩ := openStack_cut hB hs
  -- a variable of the block would be at home in a scope that the block has closed
  have hOut : d.instruction < A.length ∨ A.length + B.length ≤ d.instruction := by
    by_contra hIn
    have hLt : d.instruction < (A ++ B).length := by
      rw [List.length_append]
      omega
    obtain ⟨D, hFull, -, hD⟩ := definitions_cut A B C
    have hMem : d ∈ definitions (A ++ B) := by
      have hMem := List.mem_of_getElem? hd
      rw [hFull] at hMem
      rcases List.mem_append.mp hMem with hMem | hMem
      · exact hMem
      · have := hD d hMem
        omega
    obtain ⟨home, hHomeEq, hGe⟩ := hB.hidden d hMem (by omega)
    have hLe := homeOf_le hHomeEq
    rw [← homeOf_append C hLt] at hHomeEq
    obtain ⟨p, hp, rfl⟩ := List.mem_map.mp (hHome home hHomeEq)
    have := hPositions p hp
    omega
  obtain ⟨-, hdCut⟩ := getElem?_definitions_cut hd hOut
  refine ⟨⟨d, hd, hOut⟩, d.close A B, hdCut, rfl, (visible_iff hCut hdCut).mpr ⟨hNop, ?_⟩⟩
  intro home hHomeEq
  rw [homeOf_cut hB hs hOut] at hHomeEq
  obtain ⟨home', hHomeEq', rfl⟩ := Option.map_eq_some_iff.mp hHomeEq
  obtain ⟨p, hp, rfl⟩ := List.mem_map.mp (hHome home' hHomeEq')
  exact List.mem_map.mpr ⟨_, List.mem_map_of_mem hp, rfl⟩

theorem wellTypedAfter_cut (hB : ClosedBlock A B) {s : List (Nat × BlockKind)}
    (hs : openStack (brackets (A ++ B ++ C)) = some s) {i : Instruction}
    (h : WellTypedAfter ctx (A ++ B ++ C) i) :
    WellTypedAfter ctx (cut A B C) (i.closeGap (definitions A).length (gap A B)) where
  arity := by
    show (i.inputs.map _).length = _
    rw [List.length_map, h.arity]
    rfl
  inputs k v var hk hVar := by
    obtain ⟨v', hv', rfl⟩ := Option.map_eq_some_iff.mp (List.getElem?_map .. ▸ hk)
    exact (names_cut hB hs (h.inputs k v' var hv' hVar)).2
  role := h.role
  connection := h.connection

/-- The instructions on either side of the block. -/
theorem getElem?_cut {n : Nat} {i : Instruction}
    (hi : (A ++ B ++ C)[n]? = some i) (hOut : n < A.length ∨ A.length + B.length ≤ n) :
    (n < A.length ∧ A[n]? = some i ∧ (cut A B C)[n]? = some i ∧
      (cut A B C).take n = A.take n ∧ (A ++ B ++ C).take n = A.take n) ∨
    ∃ k, n = A.length + B.length + k ∧ C[k]? = some i ∧
      (cut A B C)[A.length + k]? = some (i.closeGap (definitions A).length (gap A B)) ∧
      (cut A B C).take (A.length + k) = cut A B (C.take k) ∧
      (A ++ B ++ C).take n = A ++ B ++ C.take k := by
  rcases hOut with hBefore | hAfter
  · left
    have hA : A[n]? = some i := by
      rwa [List.append_assoc, List.getElem?_append_left hBefore] at hi
    refine ⟨hBefore, hA, ?_, ?_, ?_⟩
    · rw [cut, List.getElem?_append_left hBefore, hA]
    · rw [cut, List.take_append_of_le_length (Nat.le_of_lt hBefore)]
    · rw [List.append_assoc, List.take_append_of_le_length (Nat.le_of_lt hBefore)]
  · right
    obtain ⟨k, rfl⟩ := Nat.exists_eq_add_of_le hAfter
    have hLen : (A ++ B).length + k = A.length + B.length + k := by rw [List.length_append]
    have hC : C[k]? = some i := by
      rwa [← hLen, List.getElem?_append_right (by omega), Nat.add_sub_cancel_left] at hi
    refine ⟨k, rfl, hC, ?_, cut_take k, ?_⟩
    · rw [cut, List.getElem?_append_right (by omega), Nat.add_sub_cancel_left, List.getElem?_map, hC]
      rfl
    · rw [← hLen, List.take_length_add_append]

theorem getElem?_of_cut {n : Nat} {i : Instruction} (hi : (cut A B C)[n]? = some i) :
    (n < A.length ∧ (A ++ B ++ C)[n]? = some i ∧ (cut A B C).take n = (A ++ B ++ C).take n) ∨
    ∃ k j, n = A.length + k ∧ i = j.closeGap (definitions A).length (gap A B) ∧
      (A ++ B ++ C)[A.length + B.length + k]? = some j ∧
      (cut A B C).take n = cut A B (C.take k) ∧
      (A ++ B ++ C).take (A.length + B.length + k) = A ++ B ++ C.take k := by
  rcases Nat.lt_or_ge n A.length with hBefore | hGe
  · left
    have hFull : (A ++ B ++ C)[n]? = some i := by
      rw [cut, List.getElem?_append_left hBefore] at hi
      rw [List.append_assoc, List.getElem?_append_left hBefore, hi]
    rcases getElem?_cut hFull (Or.inl hBefore) with ⟨-, -, -, hCut, hTake⟩ | ⟨k, rfl, -⟩
    · exact ⟨hBefore, hFull, hCut.trans hTake.symm⟩
    · omega
  · right
    obtain ⟨k, rfl⟩ := Nat.exists_eq_add_of_le hGe
    rw [cut, List.getElem?_append_right hGe, Nat.add_sub_cancel_left, List.getElem?_map] at hi
    obtain ⟨j, hj, rfl⟩ := Option.map_eq_some_iff.mp hi
    refine ⟨k, j, rfl, rfl, ?_, cut_take k, ?_⟩
    · rw [List.getElem?_append_right (by rw [List.length_append]; omega), List.length_append,
        Nat.add_sub_cancel_left, hj]
    · rw [← List.length_append, List.take_length_add_append]

/-- **Without the block the program is well typed.** -/
theorem WellTyped.cut (hB : ClosedBlock A B) (h : WellTyped ctx (A ++ B ++ C)) :
    WellTyped ctx (Stratamoto.cut A B C) where
  balanced := by
    have hs := (openStack_cut hB (balanced_iff_openStack.mp h.balanced)).1
    exact balanced_iff_openStack.mpr hs
  instructions n i hi := by
    have hs := balanced_iff_openStack.mp h.balanced
    rcases getElem?_of_cut hi with ⟨-, hFull, hTake⟩ | ⟨k, j, rfl, rfl, hFull, hTakeCut, hTake⟩
    · rw [hTake]
      exact h.instructions n i hFull
    · have hTyped := h.instructions _ j hFull
      obtain ⟨s', hs'⟩ := openStack_take hs (A.length + B.length + k)
      rw [← brackets_take, hTake] at hs'
      rw [hTake] at hTyped
      rw [hTakeCut]
      exact wellTypedAfter_cut hB hs' hTyped

/-! ## The values are the same -/

/-- A value, with its connection renumbered. -/
def Value.close (ctx : ProgramContext) (A B : List Instruction) : Value → Value
  | .connection c => .connection (closeGap (ctx.numConnections + connects A) (connects B) c)
  | value => value

theorem total_cut (weight : Operation → Nat) (A B C : List Instruction) :
    total weight (cut A B C) + total weight B = total weight (A ++ B ++ C) := by
  have hMap : ∀ m k : Nat, total weight (C.map (Instruction.closeGap m k)) = total weight C := by
    intro m k
    simp [total, Function.comp_def]
  rw [cut, total_append, total_append, total_append, hMap]
  omega

theorem constants_cut (hTyped : WellTypedPrefix ctx (A ++ B ++ C)) {v : Nat} {d : Definition}
    (hd : (definitions (A ++ B ++ C))[v]? = some d)
    (hOut : d.instruction < A.length ∨ A.length + B.length ≤ d.instruction) :
    constants ctx (cut A B C) (closeGap (definitions A).length (gap A B) v) =
      (constants ctx (A ++ B ++ C) v).close ctx A B := by
  obtain ⟨-, hdCut⟩ := getElem?_definitions_cut hd hOut
  obtain ⟨i, hi⟩ : ∃ i, (A ++ B ++ C)[d.instruction]? = some i :=
    ⟨_, List.getElem?_eq_getElem (definition_lt hd)⟩
  -- a connection that was there from the start keeps its number
  have hContext : ∀ c, i.operation = .loadConnection c →
      closeGap (ctx.numConnections + connects A) (connects B) c = c := fun c hOp =>
    closeGap_of_lt (Nat.lt_add_right _ ((hTyped _ i hi).connection c hOp))
  rcases getElem?_cut hi hOut with ⟨hLt, hA, hCut, hTakeCut, hTake⟩ | ⟨k, hk, hC, hCut, hTakeCut, hTake⟩
  · have hSame : (d.close A B).instruction = d.instruction := closeGap_of_lt hLt
    simp only [constants, hd, hdCut, hSame, hi, hCut, hTakeCut, hTake]
    cases hOp : i.operation <;> try rfl
    case loadConnection c => simp only [loaded, Value.close, hContext c hOp]
    case connect =>
      have : connects (A.take d.instruction) < connects A := total_take_lt _ hA (by simp [hOp])
      simp only [loaded, Value.close]
      rw [closeGap_of_lt (by omega)]
  · have hClose : (d.close A B).instruction = A.length + k := by
      show closeGap _ _ d.instruction = _
      rw [hk, closeGap_of_le (by omega)]
      omega
    simp only [constants, hd, hdCut, hClose, hi, hCut, hTakeCut, hTake, closeGap_operation]
    cases hOp : i.operation <;> try rfl
    case loadConnection c => simp only [loaded, Value.close, hContext c hOp]
    case connect =>
      have hTotal := total_cut (fun op => if op = .connect then 1 else 0) A B (C.take k)
      have hAppend := total_append (fun op => if op = .connect then 1 else 0) (A ++ B) (C.take k)
      have hAppend' := total_append (fun op => if op = .connect then 1 else 0) A B
      simp only [loaded, Value.close, connects] at *
      rw [closeGap_of_le (by omega)]
      congr 1
      omega

@[simp] theorem asConnection_close (A B : List Instruction) (x : Value) :
    (x.close ctx A B).asConnection =
      x.asConnection.map (closeGap (ctx.numConnections + connects A) (connects B)) := by
  cases x <;> rfl

@[simp] theorem asVersion_close (A B : List Instruction) (x : Value) :
    (x.close ctx A B).asVersion = x.asVersion := by cases x <;> rfl

@[simp] theorem asFlags_close (A B : List Instruction) (x : Value) :
    (x.close ctx A B).asFlags = x.asFlags := by cases x <;> rfl

@[simp] theorem asPort_close (A B : List Instruction) (x : Value) :
    (x.close ctx A B).asPort = x.asPort := by cases x <;> rfl

@[simp] theorem asStr_close (A B : List Instruction) (x : Value) :
    (x.close ctx A B).asStr = x.asStr := by cases x <;> rfl

@[simp] theorem asBytes_close (A B : List Instruction) (x : Value) :
    (x.close ctx A B).asBytes = x.asBytes := by cases x <;> rfl

/-- The block edits no message that was begun before it. -/
def EditsOwn (A B : List Instruction) : Prop :=
  ∀ i ∈ B, i.operation.isEdit = true → (definitions A).length ≤ i.input 0

theorem messageSpec_block (hOwn : EditsOwn A B) {m : Nat} (hm : m < (definitions A).length) :
    messageSpec ctx (A ++ B) m = messageSpec ctx A m := by
  induction B using List.reverseRecOn with
  | nil => rw [List.append_nil]
  | append_singleton B i ih =>
    have hNot : i.edits m = false := by
      by_contra hEdits
      rw [Bool.not_eq_false, edits_iff] at hEdits
      have := hOwn i (List.mem_append_right _ (List.mem_singleton_self i)) hEdits.1
      omega
    rw [← List.append_assoc, messageSpec_snoc, hNot, if_neg Bool.false_ne_true]
    exact ih fun j hj => hOwn j (List.mem_append_left _ hj)

section Typed

variable (hB : ClosedBlock A B)

include hB

/-- An input of a well typed instruction after the block. -/
theorem input_cut {s : List (Nat × BlockKind)}
    (hs : openStack (brackets (A ++ B ++ C)) = some s) {i : Instruction}
    (hTyped : WellTypedPrefix ctx (A ++ B ++ C)) (hAfter : WellTypedAfter ctx (A ++ B ++ C) i)
    {k : Nat} {var : Variable} (hk : i.operation.getInputVariables[k]? = some var) :
    (i.closeGap (definitions A).length (gap A B)).input k =
        closeGap (definitions A).length (gap A B) (i.input k) ∧
      (i.input k < (definitions A).length ∨ (definitions A).length + gap A B ≤ i.input k) ∧
      constants ctx (cut A B C) (closeGap (definitions A).length (gap A B) (i.input k)) =
        (constants ctx (A ++ B ++ C) (i.input k)).close ctx A B := by
  obtain ⟨hAt, hNames⟩ := hAfter.input hk
  obtain ⟨⟨d, hd, hOut⟩, -⟩ := names_cut hB hs hNames
  exact ⟨closeGap_input (List.getElem?_eq_some_iff.mp hAt).1, (getElem?_definitions_cut hd hOut).1,
    constants_cut hTyped hd hOut⟩

theorem edit_cut {s : List (Nat × BlockKind)}
    (hs : openStack (brackets (A ++ B ++ C)) = some s) {i : Instruction}
    (hTyped : WellTypedPrefix ctx (A ++ B ++ C)) (hAfter : WellTypedAfter ctx (A ++ B ++ C) i)
    (hEdit : i.operation.isEdit = true) (spec : SetupConnectionSpec) :
    (i.closeGap (definitions A).length (gap A B)).edit ctx (cut A B C) spec =
      i.edit ctx (A ++ B ++ C) spec := by
  have hInput := fun k var (hk : i.operation.getInputVariables[k]? = some var) =>
    input_cut hB hs hTyped hAfter hk
  unfold Instruction.edit
  rw [closeGap_operation]
  cases hOp : i.operation <;> rw [hOp] at hInput hEdit <;> try cases hEdit
  -- each setter reads its own inputs, and none of them is in the block
  case setVersions =>
    obtain ⟨h₁, -, hc₁⟩ := hInput 1 .version rfl
    obtain ⟨h₂, -, hc₂⟩ := hInput 2 .version rfl
    simp only [versionOf, h₁, h₂, hc₁, hc₂, asVersion_close]
  case setFlags =>
    obtain ⟨h₁, -, hc₁⟩ := hInput 1 .flags rfl
    simp only [flagsOf, h₁, hc₁, asFlags_close]
  case setEndpoint =>
    obtain ⟨h₁, -, hc₁⟩ := hInput 1 .str rfl
    obtain ⟨h₂, -, hc₂⟩ := hInput 2 .port rfl
    simp only [strOf, portOf, h₁, h₂, hc₁, hc₂, asStr_close, asPort_close]
  case setDeviceInfo =>
    obtain ⟨h₁, -, hc₁⟩ := hInput 1 .str rfl
    obtain ⟨h₂, -, hc₂⟩ := hInput 2 .str rfl
    obtain ⟨h₃, -, hc₃⟩ := hInput 3 .str rfl
    obtain ⟨h₄, -, hc₄⟩ := hInput 4 .str rfl
    simp only [strOf, h₁, h₂, h₃, h₄, hc₁, hc₂, hc₃, hc₄, asStr_close]

/-- Without the block, a message of the rest is edited as with it. -/
theorem messageSpec_cut (hOwn : EditsOwn A B) {s : List (Nat × BlockKind)}
    (hs : openStack (brackets (A ++ B ++ C)) = some s)
    (hTyped : WellTypedPrefix ctx (A ++ B ++ C)) {m : Nat}
    (hm : m < (definitions A).length ∨ (definitions A).length + gap A B ≤ m) :
    messageSpec ctx (cut A B C) (closeGap (definitions A).length (gap A B) m) =
      messageSpec ctx (A ++ B ++ C) m := by
  induction C using List.reverseRecOn generalizing s with
  | nil =>
    have hNil : cut A B [] = A := by simp [cut]
    rw [hNil, List.append_nil]
    rw [List.append_nil] at hTyped
    obtain ⟨D, hD, -⟩ := definitions_append A B
    rcases hm with hLt | hGe
    · rw [closeGap_of_lt hLt, messageSpec_block hOwn hLt]
    · -- the message is not begun yet, with the block or without it
      have hLen : (definitions (A ++ B)).length = (definitions A).length + gap A B := by
        rw [gap, hD, List.length_append]
        omega
      have hA : WellTypedPrefix ctx A := by
        have := hTyped.take A.length
        rwa [List.take_left] at this
      rw [messageSpec_fresh hTyped (by omega), closeGap_of_le hGe, messageSpec_fresh hA (by omega)]
  | append_singleton C i ih =>
    rw [← List.append_assoc] at hs hTyped ⊢
    obtain ⟨hTyped, hAfter⟩ := wellTypedPrefix_snoc.mp hTyped
    obtain ⟨s', hs'⟩ := openStack_of_append (brackets_append _ [i] ▸ hs)
    have ih := ih hs' hTyped
    -- the renumbering confuses no two messages, so the same setters write this one
    have hEdits : (i.closeGap (definitions A).length (gap A B)).edits
        (closeGap (definitions A).length (gap A B) m) = i.edits m := by
      rw [Bool.eq_iff_iff, edits_iff, edits_iff, closeGap_operation]
      refine and_congr_right fun hEdit => ?_
      obtain ⟨hInput, hOut, -⟩ := input_cut hB hs' hTyped hAfter (isEdit_input hEdit)
      rw [hInput, closeGap_inj hOut hm]
    rw [cut_snoc, messageSpec_snoc, messageSpec_snoc, hEdits, ih]
    by_cases h : i.edits m = true
    · rw [if_pos h, if_pos h, edit_cut hB hs' hTyped hAfter (edits_iff.mp h).1]
    · rw [if_neg h, if_neg h]

/-- The setups that the rest sends are those it sends without the block. -/
theorem setupSpec_cut (hOwn : EditsOwn A B) {s : List (Nat × BlockKind)}
    (hs : openStack (brackets (A ++ B ++ C)) = some s)
    (hTyped : WellTypedPrefix ctx (A ++ B ++ C)) {v : Nat} {protocol : Protocol}
    (h : Names (A ++ B ++ C) v (.constSetupConnection protocol)) :
    setupSpec ctx (cut A B C) (closeGap (definitions A).length (gap A B) v) =
      setupSpec ctx (A ++ B ++ C) v := by
  obtain ⟨d', i, hd', hi, -, hVar⟩ := h.definition
  obtain ⟨⟨d, hd, hOut⟩, -⟩ := names_cut hB hs h
  obtain rfl := Option.some.inj (hd'.symm.trans hd)
  have hOp : i.operation = .endBuildSetupConnection protocol := makes_of_output hVar
  obtain ⟨-, hdCut⟩ := getElem?_definitions_cut hd hOut
  -- the value is the message as it was when its block ended
  have hNotBegin : i.operation ≠ .beginBuildSetupConnection := by
    rw [hOp]
    exact Operation.noConfusion
  rw [setupSpec, setupSpec, (valueOf_eq ctx hd).2, (valueOf_eq ctx hdCut).2]
  rcases getElem?_cut hi hOut with ⟨hLt, -, hCut, hTakeCut, hTake⟩ | ⟨k, hk, -, hCut, hTakeCut, hTake⟩
  · have hSame : (d'.close A B).instruction = d'.instruction := closeGap_of_lt hLt
    simp only [Definition.value, hSame, hCut, hi, if_neg hNotBegin, hTakeCut, hTake]
  · have hClose : (d'.close A B).instruction = A.length + k := by
      show closeGap _ _ d'.instruction = _
      rw [hk, closeGap_of_le (by omega)]
      omega
    obtain ⟨s', hs'⟩ := openStack_take hs d'.instruction
    rw [← brackets_take, hTake] at hs'
    have hBefore := hTyped.take d'.instruction
    have hAfter := hTyped d'.instruction i hi
    rw [hTake] at hBefore hAfter
    have hVar : i.operation.getInputVariables[0]? = some .mutSetupConnection := by
      rw [hOp]
      rfl
    obtain ⟨hInput, hmOut, -⟩ := input_cut hB hs' hBefore hAfter hVar
    simp only [Definition.value, hClose, hCut, hi, closeGap_operation, hTakeCut, hTake,
      Instruction.result, hOp, reduceCtorEq, if_false, hInput,
      messageSpec_cut hB hOwn hs' hBefore hmOut]

/-- The connections the rest uses are not opened in the block. -/
theorem connectionOf_outside {s : List (Nat × BlockKind)}
    (hs : openStack (brackets (A ++ B ++ C)) = some s)
    (hTyped : WellTypedPrefix ctx (A ++ B ++ C)) {v : Nat}
    (h : Names (A ++ B ++ C) v .connection) :
    connectionOf ctx (A ++ B ++ C) v < ctx.numConnections + connects A ∨
      ctx.numConnections + connects A + connects B ≤ connectionOf ctx (A ++ B ++ C) v := by
  obtain ⟨d', i, hd', hi, -, hVar⟩ := h.definition
  obtain ⟨⟨d, hd, hOut⟩, -⟩ := names_cut hB hs h
  obtain rfl := Option.some.inj (hd'.symm.trans hd)
  have hOp : i.operation = .connect ∨ ∃ c, i.operation = .loadConnection c := makes_of_output hVar
  simp only [connectionOf, constants, hd', hi]
  -- a connection that is opened is counted, one of the context is below the count
  rcases hOp with hOp | ⟨c, hOp⟩
  · simp only [hOp, loaded, Value.asConnection, Option.getD_some]
    rcases getElem?_cut hi hOut with ⟨hLt, hA, -, -, hTake⟩ | ⟨k, -, -, -, -, hTake⟩
    · have : connects (A.take d'.instruction) < connects A := total_take_lt _ hA (by simp [hOp])
      rw [hTake]
      omega
    · -- behind the gap all connections of the gap are counted
      have hAppend := total_append (fun op => if op = .connect then 1 else 0) (A ++ B) (C.take k)
      have hAppend' := total_append (fun op => if op = .connect then 1 else 0) A B
      rw [hTake]
      simp only [connects] at *
      omega
  · have := (hTyped d'.instruction i hi).connection c hOp
    simp only [hOp, loaded, Value.asConnection, Option.getD_some]
    omega

/-- **A send of the rest is the same frame without the block**, on the renumbered
connection. -/
theorem send_cut (hOwn : EditsOwn A B) (hTyped : WellTyped ctx (A ++ B ++ C)) {S : Sv2}
    {n c exit : Nat} (exit' : Nat) {i : Instruction} {extensionType : UInt16}
    {messageType : UInt8} {channelMsg : Bool} {payload : List UInt8}
    (hi : (A ++ B ++ C)[n]? = some i) (hOut : n < A.length ∨ A.length + B.length ≤ n)
    (hSend : (lower S ctx ((A ++ B ++ C).take n) exit i)[0]? =
      some (.send c extensionType messageType channelMsg payload)) :
    ∃ i', (cut A B C)[closeGap A.length B.length n]? = some i' ∧
      i'.operation = i.operation ∧
      i'.input 0 = closeGap (definitions A).length (gap A B) (i.input 0) ∧
      (c < ctx.numConnections + connects A ∨
        ctx.numConnections + connects A + connects B ≤ c) ∧
      (lower S ctx ((cut A B C).take (closeGap A.length B.length n)) exit' i')[0]? =
        some (.send (closeGap (ctx.numConnections + connects A) (connects B) c) extensionType
          messageType channelMsg payload) := by
  have hs := balanced_iff_openStack.mp hTyped.balanced
  obtain ⟨-, hc, -, hOp⟩ := lower_send hSend
  have hAfter := hTyped.instructions n i hi
  have hVar : i.operation.getInputVariables[0]? = some .connection := by
    rcases hOp with ⟨protocol, hOp, -⟩ | ⟨hOp, -⟩ <;> rw [hOp] <;> rfl
  have hNames := (hAfter.input hVar).2
  rcases getElem?_cut hi hOut with ⟨hLt, hA, hCut, hTakeCut, hTake⟩ |
    ⟨k, rfl, hC, hCut, hTakeCut, hTake⟩
  · -- before the block nothing is renumbered
    rw [closeGap_of_lt hLt]
    rw [hTake] at hNames hc hSend hAfter
    -- a connection opened by the block, or after it, is not visible yet
    have hSmall : c < ctx.numConnections + connects A := by
      have hTypedA : WellTypedPrefix ctx (A.take n) := by
        have := hTyped.instructions.take n
        rwa [hTake] at this
      rcases names_connection hTypedA hNames with hSmall | ⟨m, j, hj, hConnect, hEq, -⟩
      · omega
      · obtain ⟨-, hj, hBefore⟩ := getElem?_of_take hj
        have : connects (A.take m) < connects A := total_take_lt _ hj (by simp [hConnect])
        rw [hBefore] at hEq
        omega
    have hInput : i.input 0 < (definitions A).length := by
      refine Nat.lt_of_lt_of_le hNames.lt ?_
      obtain ⟨D, hD, -⟩ := definitions_append (A.take n) (A.drop n)
      rw [List.take_append_drop] at hD
      rw [hD, List.length_append]
      omega
    refine ⟨i, hCut, rfl, (closeGap_of_lt hInput).symm, Or.inl hSmall, ?_⟩
    rw [hTakeCut, closeGap_of_lt hSmall, ← hSend]
    rcases hOp with ⟨protocol, hOp, -⟩ | ⟨hOp, -⟩ <;> simp only [lower, hOp]
  · rw [closeGap_of_le (by omega), show A.length + B.length + k - B.length = A.length + k by omega]
    have hBefore := hTyped.instructions.take (A.length + B.length + k)
    obtain ⟨s', hs'⟩ := openStack_take hs (A.length + B.length + k)
    rw [← brackets_take, hTake] at hs'
    rw [hTake] at hNames hc hSend hAfter hOp hBefore
    obtain ⟨hInput, -, hConstant⟩ := input_cut hB hs' hBefore hAfter hVar
    -- behind it the connection keeps its handle up to the renumbering
    have hConnection : connectionOf ctx (cut A B (C.take k))
        ((i.closeGap (definitions A).length (gap A B)).input 0) =
          closeGap (ctx.numConnections + connects A) (connects B) c := by
      obtain ⟨-, hFits, hLoaded⟩ := names_value ctx hNames
      rw [← hLoaded rfl] at hFits
      rw [hc, connectionOf, connectionOf, hInput, hConstant, asConnection_close]
      cases hValue : constants ctx (A ++ B ++ C.take k) (i.input 0) <;> rw [hValue] at hFits <;>
        first | rfl | cases hFits
    refine ⟨_, hCut, rfl, hInput, hc ▸ connectionOf_outside hB hs' hBefore hNames, ?_⟩
    rw [hTakeCut]
    rcases hOp with ⟨protocol, hOp, rfl, rfl, rfl⟩ | ⟨hOp, rfl⟩
    · have hVar₁ : i.operation.getInputVariables[1]? = some (.constSetupConnection protocol) := by
        rw [hOp]
        rfl
      obtain ⟨hInput₁, -, -⟩ := input_cut hB hs' hBefore hAfter hVar₁
      have hSpec := setupSpec_cut hB hOwn hs' hBefore (hAfter.input hVar₁).2
      simp only [lower, hOp] at hSend
      simp only [lower, closeGap_operation, hOp, hConnection, hInput₁, hSpec]
      cases hSend
      rfl
    · have hVar₁ : i.operation.getInputVariables[1]? = some .bytes := by
        rw [hOp]
        rfl
      obtain ⟨hInput₁, -, hBytes⟩ := input_cut hB hs' hBefore hAfter hVar₁
      simp only [lower, hOp] at hSend
      simp only [lower, closeGap_operation, hOp, hConnection, bytesOf, hInput₁, hBytes,
        asBytes_close]
      cases hSend
      rfl

/-- Without the block no setup becomes too long. -/
theorem noneTooLong_cut (hOwn : EditsOwn A B) (hTyped : WellTyped ctx (A ++ B ++ C))
    (h : NoneTooLong ctx (A ++ B ++ C)) : NoneTooLong ctx (cut A B C) := by
  intro n i v hi hLong
  have hs := balanced_iff_openStack.mp hTyped.balanced
  -- before the gap nothing changes
  rcases getElem?_of_cut hi with ⟨-, hFull, hTake⟩ | ⟨k, j, rfl, rfl, hFull, hTakeCut, hTake⟩
  · exact h n i v hFull (hTake ▸ hLong)
  · obtain ⟨s', hs'⟩ := openStack_take hs (A.length + B.length + k)
    have hBefore := hTyped.instructions.take (A.length + B.length + k)
    have hAfter := hTyped.instructions _ j hFull
    rw [← brackets_take, hTake] at hs'
    rw [hTake] at hBefore hAfter
    rw [hTakeCut] at hLong
    obtain ⟨hSend, hInput, hTooLong⟩ := hLong
    obtain ⟨v', hv', rfl⟩ := Option.map_eq_some_iff.mp (List.getElem?_map .. ▸ hInput)
    rw [closeGap_operation] at hSend
    obtain ⟨protocol, hOp⟩ : ∃ protocol, j.operation = .sendSetupConnection protocol := by
      cases hOp : j.operation <;> rw [hOp] at hSend <;> first | exact ⟨_, rfl⟩ | cases hSend
    -- the message that is sent reads as it did
    have hNames := hAfter.inputs 1 v' (.constSetupConnection protocol) hv' (by rw [hOp]; rfl)
    rw [setupSpec_cut hB hOwn hs' hBefore hNames] at hTooLong
    exact h _ j v' hFull ⟨hSend, hv', by rwa [hTake]⟩

end Typed

end Cut

/-! ## Success blocks -/

section Blocks

variable {ctx : ProgramContext} {is : List Instruction}

/-- A program is what stands before a block, the block, and what stands after. -/
theorem split_block {b e : Nat} (hbe : b ≤ e + 1) :
    is = is.take b ++ (is.drop b).take (e + 1 - b) ++ is.drop (e + 1) := by
  have hDrop : is.drop (e + 1) = (is.drop b).drop (e + 1 - b) := by
    rw [List.drop_drop, show b + (e + 1 - b) = e + 1 by omega]
  rw [List.append_assoc, hDrop, List.take_append_drop, List.take_append_drop]

theorem take_block {b e : Nat} (hbe : b ≤ e + 1) :
    is.take b ++ (is.drop b).take (e + 1 - b) = is.take (e + 1) := by
  rw [← List.take_add, show b + (e + 1 - b) = e + 1 by omega]

theorem SuccessBlock.closedBlock (hTyped : WellTyped ctx is) {b e session : Nat}
    (h : SuccessBlock ctx is b e session) :
    ClosedBlock (is.take b) ((is.drop b).take (e + 1 - b)) where
  balanced := by
    have hPart := h.ends.balanced
    rwa [brackets, List.map_take, List.map_drop]
  hidden d hd hGe := by
    have hs := balanced_iff_openStack.mp hTyped.balanced
    have hLt := h.ends.lt
    have heLen := h.ends.lt_length
    rw [brackets_length] at heLen
    have hLength : (is.take b).length = b := by
      rw [List.length_take]
      omega
    rw [take_block (by omega)] at hd ⊢
    rw [hLength] at hGe ⊢
    obtain ⟨i, hi, hMem⟩ := mem_definitions hd
    obtain ⟨hLe, hi, -⟩ := getElem?_of_take hi
    -- the end of a block defines nothing
    have hBefore : d.instruction < e := by
      refine Nat.lt_of_le_of_ne (by omega) fun hEq => ?_
      obtain ⟨i₀, protocol, hb, hOp, -⟩ := h.begins
      obtain ⟨k, hOpening, hClosing⟩ := h.ends.tokens
      rw [brackets, List.getElem?_map, hb, Option.map_some, isBegin_bracket hOp] at hOpening
      cases hOpening
      rw [hEq] at hi hMem
      rw [brackets, List.getElem?_map, hi, Option.map_some] at hClosing
      obtain ⟨inputs, op⟩ := i
      cases op <;> simp_all [bracket, Instruction.definitions, getOutputVariables,
        getInnerOutputVariables]
    obtain ⟨home, hHome, hHomeGe, -⟩ := home_in_block hTyped h.ends hGe hBefore
    refine ⟨home, ?_, hHomeGe⟩
    rw [← hHome]
    conv_rhs => rw [← List.take_append_drop (e + 1) is]
    refine (homeOf_append _ ?_).symm
    rw [List.length_take]
    omega

/-- The metadata names the variable a frame is sent by. -/
theorem connectionVariable {m : CompiledMetadata} (hTyped : WellTyped ctx is)
    (h : MadeBy is (connectionEntry ctx) m.connectionVariables) {n : Nat} {i : Instruction}
    (hi : is[n]? = some i) (hUses : i.operation.usesConnection = true)
    (hc : ctx.numConnections ≤ connectionOf ctx (is.take n) (i.input 0)) :
    m.connectionVariables.lookup (connectionOf ctx (is.take n) (i.input 0)) = some (i.input 0) := by
  obtain ⟨d, j, hd, hj, -, hMade⟩ :=
    ((hTyped.instructions n i hi).input (usesConnection_input hUses)).2.definition
  obtain ⟨-, hFull, hBefore⟩ := getElem?_of_take hj
  have hOp : j.operation = .connect ∨ ∃ c, j.operation = .loadConnection c :=
    makes_of_output hMade
  have hValue : connectionOf ctx (is.take n) (i.input 0) =
      ((loaded ctx (is.take d.instruction) j.operation).asConnection).getD 0 := by
    rw [connectionOf, constants, hd]
    simp only [hj, hBefore]
  -- only a connection that was opened has a number this high
  rcases hOp with hOp | ⟨c, hOp⟩
  · have hIndex := index_of_definition hd hj (by rw [hOp]; rfl)
    rw [hBefore] at hIndex
    refine (h _ _).mpr ⟨d.instruction, j, hFull, ?_⟩
    rw [connectionEntry, if_pos hOp, hValue, hOp, ← hIndex]
    rfl
  · have := (hTyped.instructions _ j hFull).connection c hOp
    rw [hValue, hOp] at hc
    simp only [loaded, Value.asConnection, Option.getD_some] at hc
    omega

end Blocks

end Stratamoto
