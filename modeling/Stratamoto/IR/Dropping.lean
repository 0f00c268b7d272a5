import Stratamoto.Library.Pairs
import Stratamoto.IR.Numbering

/-!
# Stratamoto — dropping blocks and keeping what is in them

`without` where the two ends of a block are marked alike: a block may lose its
delimiters and keep what is in it, which widens the scopes of the variables that
are defined there. No kept instruction reads a variable of a dropped one.

* `openStack_keptOf_pairs` — the blocks open in what is left;
* `names_keptOf_pairs`     — a kept variable still names what it named;
* `without_keeps`          — what is left is a valid program that says the same.
-/

namespace Stratamoto

open Brackets Operation Marks

variable {ms : Marking}

/-! ## Blocks -/

/-- The brackets of a marked program. -/
def tokens (ms : Marking) : List (Token BlockKind × Bool) :=
  ms.map fun p => (p.1.operation.bracket, p.2)

theorem wholeWord_tokens (ms : Marking) : wholeWord (tokens ms) = brackets (wholeOf ms) := by
  simp only [wholeWord, tokens, brackets, wholeOf, List.map_map, Function.comp_def]

theorem keptWord_tokens (ms : Marking) : keptWord (tokens ms) = brackets (keptOf ms) := by
  induction ms using List.reverseRecOn with
  | nil => rfl
  | append_singleton ms p ih =>
    obtain ⟨i, b⟩ := p
    cases b with
    | false =>
      rw [keptOf_snoc_dropped, ← ih]
      simp [keptWord, tokens]
    | true =>
      rw [keptOf_snoc, brackets_append, brackets_renumber, ← ih]
      simp [keptWord, tokens]

theorem position_tokens (ms : Marking) : position (tokens ms) = positionAt ms := by
  funext n
  simp only [position, positionAt, Marks.renumber, units_one, tokens, List.map_map, Function.comp_def]

theorem isKept_tokens (ms : Marking) (n : Nat) : isKept (tokens ms) n = true ↔ KeptAt ms n := by
  rw [KeptAt, Kept, units_one, isKept, tokens, List.map_map, List.getD_eq_getElem?_getD]
  show ((ms.map Prod.snd)[n]?).getD false = true ↔ _
  cases (ms.map Prod.snd)[n]? with
  | none => simp
  | some b => simp

/-- The blocks that are kept. -/
theorem mem_keptStack_iff {s : List (Nat × BlockKind)} {b : Nat} :
    b ∈ (keptStack (tokens ms) s).map Prod.fst ↔
      ∃ p ∈ s, KeptAt ms p.1 ∧ positionAt ms p.1 = b := by
  simp only [keptStack, List.map_map, List.mem_map, List.mem_filter, isKept_tokens,
    position_tokens, Function.comp_apply, and_assoc]

theorem openStack_keptOf_pairs (h : PairsKept (tokens ms)) {s : List (Nat × BlockKind)}
    (hs : openStack (brackets (wholeOf ms)) = some s) :
    openStack (brackets (keptOf ms)) = some (keptStack (tokens ms) s) := by
  rw [← keptWord_tokens]
  rw [← wholeWord_tokens] at hs
  exact openStack_keptWord h hs

theorem pairsKept_take (h : PairsKept (tokens ms)) (n : Nat) : PairsKept (tokens (ms.take n)) := by
  rw [← List.take_append_drop n ms, tokens, List.map_append] at h
  exact h.of_append

theorem keptAt_of_take {n m : Nat} (h : KeptAt (ms.take n) m) : KeptAt ms m := by
  rw [← List.take_append_drop n ms]
  exact (keptAt_append _ h.lt).mpr h

/-! ## Scopes -/

/-- The scope a kept variable lives in, in what is left: the innermost kept block
among those open behind its instruction. -/
theorem homeOf_keptOf_pairs (h : PairsKept (tokens ms)) {d : Definition}
    (hd : KeptAt ms d.instruction) {s : List (Nat × BlockKind)}
    (hs : openStack (brackets (wholeOf (ms.take (d.instruction + 1)))) = some s) {b : Nat}
    (hHome : homeOf (keptOf ms) (d.renumber ms) = some b) :
    (d.inner = true ∧ b = positionAt ms d.instruction) ∨
    (d.inner = false ∧ ∃ p ∈ s, KeptAt ms p.1 ∧ positionAt ms p.1 = b) := by
  obtain ⟨i, hi⟩ := keptAt_iff.mp hd
  obtain ⟨-, hKeptTake⟩ := brackets_keptOf_take hi
  unfold homeOf at hHome
  -- an inner output lives in the block its instruction begins
  cases hInner : d.inner with
  | true =>
    have hInner' : (d.renumber ms).inner = true := hInner
    rw [if_pos hInner'] at hHome
    exact Or.inl ⟨rfl, (Option.some.inj hHome).symm⟩
  | false =>
    have hInner' : ¬ (d.renumber ms).inner = true := by
      show ¬ d.inner = true
      rw [hInner]
      exact Bool.false_ne_true
    have hPosition : (d.renumber ms).instruction = positionAt ms d.instruction := rfl
    rw [if_neg hInner', hPosition, hKeptTake, openStack_keptOf_pairs (pairsKept_take h _) hs,
      Option.getD_some] at hHome
    -- the innermost block of those that are left
    obtain ⟨q, hq, rfl⟩ := Option.map_eq_some_iff.mp hHome
    have hMem := mem_keptStack_iff.mp (List.mem_map_of_mem (List.mem_of_head? hq))
    obtain ⟨p, hp, hKept, hAt⟩ := hMem
    refine Or.inr ⟨rfl, p, hp, keptAt_of_take hKept, ?_⟩
    rw [← hAt, positionAt_take]
    exact Nat.le_of_lt hKept.lt

/-- **A kept variable still names what it named**: the blocks around its scope are
open as long as the scope is, and the innermost of them that is kept is its scope
in what is left. -/
theorem names_keptOf_pairs (h : PairsKept (tokens ms)) (hBalanced : Balanced (brackets (wholeOf ms)))
    {n v : Nat} (hn : n ≤ ms.length) (hv : KeptVar (ms.take n) v) {var : Variable}
    (hNames : Names (wholeOf (ms.take n)) v var) :
    Names (keptOf (ms.take n)) (varAt (ms.take n) v) var := by
  obtain ⟨d, hd, rfl, hVisible⟩ := hNames
  have hWhole := balanced_iff_openStack.mp hBalanced
  have hTake (j : Nat) : brackets (wholeOf (ms.take j)) = (brackets (wholeOf ms)).take j := by
    rw [wholeOf_take, brackets_take]
  have hLength : (brackets (wholeOf ms)).length = ms.length := by
    rw [brackets_length, length_wholeOf]
  obtain ⟨s, hs⟩ := openStack_take hWhole n
  have hs' := openStack_keptOf_pairs (pairsKept_take h n) (hTake n ▸ hs)
  obtain ⟨hIff, hKept⟩ := definition_keptOf hd
  have hAt := hIff.mp hv
  have hLt : d.instruction < n := by
    have := hAt.lt
    rw [List.length_take] at this
    omega
  obtain ⟨hNop, hHome⟩ := (visible_iff (hTake n ▸ hs) hd).mp hVisible
  refine ⟨_, hKept hv, rfl, (visible_iff hs' (hKept hv)).mpr ⟨hNop, fun b hb => ?_⟩⟩
  rw [mem_keptStack_iff]
  -- the stack behind the definition, in the whole program
  obtain ⟨t, ht⟩ := openStack_take hWhole (d.instruction + 1)
  have hSame : (ms.take n).take (d.instruction + 1) = ms.take (d.instruction + 1) := by
    rw [List.take_take, Nat.min_eq_left hLt]
  have ht' : openStack (brackets (wholeOf ((ms.take n).take (d.instruction + 1)))) = some t := by
    rw [hSame, hTake, ht]
  rcases homeOf_keptOf_pairs (pairsKept_take h n) hAt ht' hb with
    ⟨hInner, rfl⟩ | ⟨hInner, p, hp, hKeptAt, rfl⟩
  · -- an inner output lives in the block its instruction begins
    obtain ⟨p, hp, hEq⟩ := List.mem_map.mp (hHome d.instruction (if_pos hInner))
    exact ⟨p, hp, hEq ▸ hAt, by rw [hEq]⟩
  · -- the innermost block around the definition is open at the use, and so is this one
    cases t with
    | nil => cases hp
    | cons q t =>
      have hHomeWhole : homeOf (wholeOf (ms.take n)) d = some q.1 := by
        rw [homeOf, if_neg (by simp [hInner]), ← brackets_take, ← wholeOf_take, ht',
          Option.getD_some]
        rfl
      have hqOpen := hHome q.1 hHomeWhole
      rw [mem_openStack_take_iff (by omega) hs] at hqOpen
      have hpOpen : OpenAt (brackets (wholeOf ms)) p.1 (d.instruction + 1) :=
        (mem_openStack_take_iff (by omega) ht).mp (List.mem_map_of_mem hp)
      have hpq : p.1 ≤ q.1 := by
        rcases List.mem_cons.mp hp with rfl | hBelow
        · exact Nat.le_refl _
        · have hSorted := (openStack_sorted ht).1
          rw [List.map_cons, List.pairwise_cons] at hSorted
          exact Nat.le_of_lt (hSorted.1 p.1 (List.mem_map_of_mem hBelow))
      have hqLt : q.1 < d.instruction + 1 := by
        have := lt_of_mem_openStack ht (List.mem_map_of_mem List.mem_cons_self)
        rw [List.length_take] at this
        omega
      have hOpen := hpOpen.around hBalanced hqOpen hpq hqLt hLt
      obtain ⟨r, hr, hEq⟩ := List.mem_map.mp ((mem_openStack_take_iff (by omega) hs).mpr hOpen)
      exact ⟨r, hr, hEq ▸ hKeptAt, by rw [hEq]⟩

/-- What is left of a well typed program is well typed. -/
theorem wellTyped_keptOf_pairs {ctx : ProgramContext} (h : PairsKept (tokens ms))
    (hInputs : KeepsInputs ms) (hTyped : WellTyped ctx (wholeOf ms)) :
    WellTyped ctx (keptOf ms) := by
  constructor
  · rw [← keptWord_tokens]
    exact balanced_keptWord h (wholeWord_tokens ms ▸ hTyped.balanced)
  · refine wellTypedPrefix_of_names hTyped.instructions fun n i hn v hv var hNames => ?_
    have hLt := (List.getElem?_eq_some_iff.mp hn).1
    exact names_keptOf_pairs h hTyped.balanced (Nat.le_of_lt hLt) (hInputs n i hn v hv) hNames

/-! ## `without` -/

/-- How many of the instructions before `n` are kept. -/
def keptBefore (remove : List Bool) (n : Nat) : Nat :=
  (List.range n).countP fun m => !remove.getD m false

/-- A variable of an instruction that is not removed. -/
def Program.KeptVariable (p : Program) (remove : List Bool) (v : Nat) : Prop :=
  ∃ d, (definitions p.instructions)[v]? = some d ∧ remove.getD d.instruction false = false

/-- The program `q` is what is left of `p`: the kept instructions in order, each
input renamed by `f`, which names the same variable of the same instruction. -/
structure Leaves (remove : List Bool) (p q : Program) (f : Nat → Nat) : Prop where
  context : q.context = p.context
  instructions : q.instructions =
    (p.instructions.zipIdx.filter fun x => !remove.getD x.2 false).map fun x =>
      { x.1 with inputs := x.1.inputs.map f }
  renames : StrictMonoOn f {v | p.KeptVariable remove v}
  names : ∀ v d, (definitions p.instructions)[v]? = some d →
    remove.getD d.instruction false = false →
    (definitions q.instructions)[f v]? =
      some { d with instruction := keptBefore remove d.instruction }
  /-- Where a kept instruction stands in what is left. -/
  position : ∀ m j, p.instructions[m]? = some j → remove.getD m false = false →
    q.instructions[keptBefore remove m]? = some { j with inputs := j.inputs.map f }
  inputs : ∀ n i, p.instructions[n]? = some i → remove.getD n false = false → ∀ v ∈ i.inputs,
    ∃ m j k, m < n ∧ p.instructions[m]? = some j ∧ remove.getD m false = false ∧
      k < j.operation.defined.length ∧ v = p.countBefore m + k ∧
      f v = q.countBefore (keptBefore remove m) + k

section Marked

variable {remove : List Bool} {is : List Instruction}

theorem getElem?_markedBy (remove : List Bool) (is : List Instruction) (n : Nat) :
    (markedBy remove is)[n]? = is[n]?.map fun i => (i, !remove.getD n false) := by
  rw [markedBy, List.getElem?_map, List.getElem?_zipIdx, Option.map_map, Nat.zero_add]
  rfl

theorem keptAt_markedBy {n : Nat} :
    KeptAt (markedBy remove is) n ↔ n < is.length ∧ remove.getD n false = false := by
  rw [keptAt_iff, getElem?_markedBy]
  constructor
  · rintro ⟨i, hi⟩
    obtain ⟨j, hj, hEq⟩ := Option.map_eq_some_iff.mp hi
    refine ⟨(List.getElem?_eq_some_iff.mp hj).1, ?_⟩
    simpa using (Prod.mk.inj hEq).2
  · rintro ⟨hLt, hKept⟩
    exact ⟨is[n], by rw [List.getElem?_eq_getElem hLt, Option.map_some, hKept]; rfl⟩

theorem isKept_markedBy {n : Nat} (hn : n < is.length) :
    isKept (tokens (markedBy remove is)) n = !remove.getD n false := by
  rw [Bool.eq_iff_iff, isKept_tokens, keptAt_markedBy]
  simp [hn]

theorem positionAt_markedBy {n : Nat} (hn : n ≤ is.length) :
    positionAt (markedBy remove is) n = keptBefore remove n := by
  have hMarks : (markedBy remove is).map Prod.snd =
      (List.range is.length).map fun m => !remove.getD m false := by
    rw [markedBy, List.map_map, List.range_eq_range', ← List.zipIdx_map_snd 0 is, List.map_map]
    rfl
  rw [positionAt, Marks.renumber, units_one, hMarks, ← List.map_take, List.take_range,
    Nat.min_eq_left hn, List.count_eq_countP, List.countP_map, keptBefore]
  exact List.countP_congr fun m _ => by simp

theorem pairsKept_markedBy
    (hPairs : ∀ b e, Matches (brackets is) b e → remove.getD b false = remove.getD e false) :
    PairsKept (tokens (markedBy remove is)) := by
  intro b e hMatch
  rw [wholeWord_tokens, wholeOf_markedBy] at hMatch
  have hLt := hMatch.lt_length
  rw [brackets_length] at hLt
  rw [isKept_markedBy (Nat.lt_trans hMatch.lt hLt), isKept_markedBy hLt, hPairs b e hMatch]

/-- A variable is kept with its instruction. -/
theorem keptVar_markedBy {v : Nat} {d : Definition} (hd : (definitions is)[v]? = some d) :
    KeptVar (markedBy remove is) v ↔ remove.getD d.instruction false = false := by
  have hd' : (definitions (wholeOf (markedBy remove is)))[v]? = some d := by
    rwa [wholeOf_markedBy]
  rw [(definition_keptOf hd').1, keptAt_markedBy]
  exact and_iff_right (definition_lt hd)

theorem keepsInputs_markedBy (hScoped : Scoped is)
    (hUses : ∀ n i, is[n]? = some i → remove.getD n false = false → ∀ v ∈ i.inputs, ∀ d,
      (definitions is)[v]? = some d → remove.getD d.instruction false = false) :
    KeepsInputs (markedBy remove is) := by
  intro n i hn v hv
  obtain ⟨j, hj, hEq⟩ := Option.map_eq_some_iff.mp (getElem?_markedBy remove is n ▸ hn)
  obtain ⟨rfl, hKept⟩ := Prod.mk.inj hEq
  obtain ⟨d, hd⟩ : ∃ d, (definitions (is.take n))[v]? = some d :=
    ⟨_, List.getElem?_eq_getElem (hScoped n j hj v hv)⟩
  rw [take_markedBy, keptVar_markedBy hd]
  exact hUses n j hj (by simpa using hKept) v hv d (definitions_take hd)

/-- The variables of a kept instruction keep their order, behind those of the kept
instructions before it. -/
theorem varAt_markedBy {m k : Nat} {j : Instruction} (hj : is[m]? = some j)
    (hKept : remove.getD m false = false) (hk : k ≤ j.operation.numDefined) :
    varAt (markedBy remove is) ((definitions (is.take m)).length + k) =
      (definitions ((keptOf (markedBy remove is)).take (keptBefore remove m))).length + k := by
  set ms := markedBy remove is with hms
  have hMark : ms[m]? = some (j, true) := by
    rw [hms, getElem?_markedBy, hj, Option.map_some, hKept]
    rfl
  have hUnits : (units (fun i : Instruction => i.operation.numDefined) (ms.take m)).length =
      (definitions (is.take m)).length := by
    rw [length_units_wholeOf, wholeOf_take, hms, wholeOf_markedBy]
  have hLt := (List.getElem?_eq_some_iff.mp hj).1
  rw [← positionAt_markedBy (Nat.le_of_lt hLt), ← hms, (getElem?_keptOf hMark).2,
    length_definitions_keptOf, ← hUnits]
  exact renumber_take_add hMark hk

end Marked

/-- Where a program is valid, what `without` leaves of it is described by the marking. -/
theorem leaves_keptOf {p : Program} (hScoped : Scoped p.instructions) {remove : List Bool}
    (hUses : ∀ n i, p.instructions[n]? = some i → remove.getD n false = false → ∀ v ∈ i.inputs,
      ∀ d, (definitions p.instructions)[v]? = some d → remove.getD d.instruction false = false) :
    Leaves remove p ⟨p.context, keptOf (markedBy remove p.instructions)⟩
      (varAt (markedBy remove p.instructions)) where
  context := rfl
  instructions := (keptOf_markedBy remove fun n i hi v hv =>
    (varAt_of_scoped hScoped remove hi hv).2).symm
  renames := by
    -- a kept variable takes a number, so what comes after it has a greater one
    rintro v ⟨d, hd, hKept⟩ v' - hLt
    exact renumber_lt ((keptVar_markedBy hd).mpr hKept) hLt
  names := by
    intro v d hd hKept
    have hd' : (definitions (wholeOf (markedBy remove p.instructions)))[v]? = some d := by
      rwa [wholeOf_markedBy]
    rw [(definition_keptOf hd').2 ((keptVar_markedBy hd).mpr hKept), Definition.renumber,
      positionAt_markedBy (Nat.le_of_lt (definition_lt hd))]
  position := by
    intro m j hj hKept
    have hMark : (markedBy remove p.instructions)[m]? = some (j, true) := by
      rw [getElem?_markedBy, hj, Option.map_some, hKept]
      rfl
    have hLt := (List.getElem?_eq_some_iff.mp hj).1
    have hInputs : j.inputs.map (varAt (markedBy remove (p.instructions.take m))) =
        j.inputs.map (varAt (markedBy remove p.instructions)) :=
      List.map_congr_left fun v hv => (varAt_of_scoped hScoped remove hj hv).2.symm
    rw [← positionAt_markedBy (Nat.le_of_lt hLt), (getElem?_keptOf hMark).1, take_markedBy,
      Instruction.renumber, hInputs]
  inputs := by
    intro n i hi hKept v hv
    obtain ⟨d, hd⟩ : ∃ d, (definitions (p.instructions.take n))[v]? = some d :=
      ⟨_, List.getElem?_eq_getElem (hScoped n i hi v hv)⟩
    have hAll := definitions_take hd
    obtain ⟨j, k, hj, hk, hAt⟩ := exists_of_definition hAll
    have hDefined := (List.getElem?_eq_some_iff.mp hk).1
    have hKeptAt := hUses n i hi hKept v hv d hAll
    refine ⟨d.instruction, j, k, definition_take_lt hd, hj, hKeptAt, hDefined, ?_, ?_⟩
    · rw [countBefore_eq, hAt]
    · rw [countBefore_eq, hAt]
      exact varAt_markedBy hj hKeptAt (length_defined j.operation ▸ Nat.le_of_lt hDefined)

/-- A removal vector keeps what is behind its end. -/
theorem without_extend (p : Program) (remove : List Bool) (k : Nat) :
    p.without (remove ++ List.replicate k false) = p.without remove := by
  have hSame (n : Nat) : (remove ++ List.replicate k false).getD n false = remove.getD n false := by
    rw [List.getD_eq_getElem?_getD, List.getD_eq_getElem?_getD]
    rcases Nat.lt_or_ge n remove.length with hLt | hGe
    · rw [List.getElem?_append_left hLt]
    · rw [List.getElem?_append_right hGe, List.getElem?_eq_none hGe, List.getElem?_replicate]
      split
      · rfl
      · rfl
  simp only [Program.without, Program.mapping, hSame]

/-- **`without` keeps a program valid** where no kept instruction reads a variable of
a removed one and a block loses both of its ends or neither. Each kept instruction
reads the same variables of the same instructions as before. -/
theorem without_keeps {p : Program} (hValid : p.isStaticallyValid = .ok true) {remove : List Bool}
    (hUses : ∀ n i, p.instructions[n]? = some i → remove.getD n false = false → ∀ v ∈ i.inputs,
      ∀ d, (definitions p.instructions)[v]? = some d → remove.getD d.instruction false = false)
    (hPairs : ∀ b e, Matches (brackets p.instructions) b e →
      remove.getD b false = remove.getD e false) :
    ∃ q f, p.without remove = .ok q ∧ q.isStaticallyValid = .ok true ∧
      Leaves remove p q f ∧
      ∀ k, p.without (remove ++ List.replicate k false) = .ok q := by
  have hTyped := isStaticallyValid_iff.mp hValid
  have hScoped := hTyped.instructions.scoped
  have hWithout := without_eq hScoped remove
  refine ⟨_, _, hWithout, ?_, leaves_keptOf hScoped hUses, fun k => ?_⟩
  · -- validity is typing, and typing is kept by the marking
    refine isStaticallyValid_iff.mpr (wellTyped_keptOf_pairs (pairsKept_markedBy hPairs)
      (keepsInputs_markedBy hScoped hUses) ?_)
    rw [wholeOf_markedBy]
    exact hTyped
  · rw [without_extend, hWithout]

/-- A connection that is opened and written to while a message is under construction. -/
def nestedSend : Program where
  context := ⟨1, 0, 0⟩
  instructions :=
    [⟨[], .loadRole 0⟩, ⟨[], .beginBuildSetupConnection⟩, ⟨[0], .connect⟩, ⟨[], .loadBytes [7]⟩,
      ⟨[2, 3], .sendRawFrame 1 0⟩, ⟨[1], .endBuildSetupConnection .mining⟩]

/-- The message is dropped, and what was done inside it is kept. -/
theorem without_keeps_nestedSend : ∃ q f,
    nestedSend.without [false, true, false, false, false, true] = .ok q ∧
    q.isStaticallyValid = .ok true ∧
    Leaves [false, true, false, false, false, true] nestedSend q f ∧
    q.instructions.map Instruction.inputs = [[], [0], [], [1, 2]] := by
  have hUses : ∀ x ∈ nestedSend.instructions.zipIdx,
      [false, true, false, false, false, true].getD x.2 false = false → ∀ v ∈ x.1.inputs,
        ∀ d ∈ (definitions nestedSend.instructions)[v]?,
          [false, true, false, false, false, true].getD d.instruction false = false := by
    decide
  have hPairs : ∀ e < 6, ∀ b < 6, closes (brackets nestedSend.instructions) b e = true →
      [false, true, false, false, false, true].getD b false =
        [false, true, false, false, false, true].getD e false := by
    decide
  obtain ⟨q, f, hWithout, hValid, hLeaves, -⟩ :=
    without_keeps (p := nestedSend) (by decide)
      (fun n i hi hKept v hv d hd =>
        hUses (i, n) (List.mem_zipIdx_iff_getElem?.mpr hi) hKept v hv d hd)
      fun b e h => by
        have hLt : e < 6 := h.lt_length
        have hLt' : b < 6 := Nat.lt_trans h.lt hLt
        exact hPairs e hLt b hLt' ((closes_iff (s := []) (by decide)).mpr h)
  refine ⟨q, f, hWithout, hValid, hLeaves, ?_⟩
  cases hWithout
  decide

end Stratamoto
