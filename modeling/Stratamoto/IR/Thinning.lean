import Stratamoto.IR.CompilerState
import Stratamoto.Library.Marks

/-!
# Stratamoto — a program and what is left when instructions are dropped

A program whose instructions are marked as kept or dropped, seen as two
programs at once: the one it is (`wholeOf`), and the one that keeps the kept
instructions, with their inputs renumbered (`keptOf`). Where the dropped parts
are balanced (`Respects`) and no kept instruction reads a dropped variable, the
two agree on what is kept:

* `openStack_keptOf`, `homeOf_keptOf` — the blocks and the scopes;
* `names_keptOf_iff` — what a variable names;
* `wellTypedAfter_keptOf_iff` — what may follow;
* `wellTyped_keptOf`, `wellTyped_wholeOf` — typing, in both directions.
-/

namespace Stratamoto

open Brackets Operation Marks

/-- A program with its instructions marked: `true` for those that are kept. -/
abbrev Marking := List (Instruction × Bool)

/-- The number of a variable among those of kept instructions. -/
def varAt (ms : Marking) : Nat → Nat := renumber (fun i => i.operation.numDefined) ms

/-- The position of an instruction among those that are kept. -/
def positionAt (ms : Marking) : Nat → Nat := renumber (fun _ => 1) ms

/-- A variable of a kept instruction. -/
def KeptVar (ms : Marking) : Nat → Prop := Kept (fun i => i.operation.numDefined) ms

/-- The position of a kept instruction. -/
def KeptAt (ms : Marking) : Nat → Prop := Kept (fun _ => 1) ms

/-- The instruction with its inputs renumbered. -/
def Instruction.renumber (ms : Marking) (i : Instruction) : Instruction :=
  { i with inputs := i.inputs.map (varAt ms) }

/-- All instructions, dropped ones included. -/
def wholeOf (ms : Marking) : List Instruction := ms.map Prod.fst

/-- The kept instructions, their inputs renumbered. -/
def keptOf (ms : Marking) : List Instruction :=
  ms.zipIdx.flatMap fun p => if p.1.2 then [p.1.1.renumber (ms.take p.2)] else []

def Definition.renumber (ms : Marking) (d : Definition) : Definition :=
  { d with instruction := positionAt ms d.instruction }

/-- The dropped parts are balanced, between kept instructions. -/
inductive Respects : Marking → Prop
  | nil : Respects []
  | keep {ms : Marking} (i : Instruction) : Respects ms → Respects (ms ++ [(i, true)])
  | drop {ms : Marking} {l : List Instruction} : Respects ms → Balanced (brackets l) →
      Respects (ms ++ markAll false l)

/-! ## The two programs -/

@[simp] theorem renumber_operation (ms : Marking) (i : Instruction) :
    (i.renumber ms).operation = i.operation := rfl

theorem renumber_input {ms : Marking} {i : Instruction} {k : Nat} (hk : k < i.inputs.length) :
    (i.renumber ms).input k = varAt ms (i.input k) := by
  simp [Instruction.input, Instruction.renumber, List.getD_eq_getElem?_getD, hk]

@[simp] theorem wholeOf_append (ms l : Marking) : wholeOf (ms ++ l) = wholeOf ms ++ wholeOf l :=
  List.map_append

@[simp] theorem wholeOf_singleton (i : Instruction) (b : Bool) : wholeOf [(i, b)] = [i] := rfl

@[simp] theorem wholeOf_markAll (b : Bool) (l : List Instruction) : wholeOf (markAll b l) = l := by
  simp [wholeOf, markAll, Function.comp_def]

@[simp] theorem length_wholeOf (ms : Marking) : (wholeOf ms).length = ms.length := List.length_map _

theorem wholeOf_take (ms : Marking) (n : Nat) : wholeOf (ms.take n) = (wholeOf ms).take n :=
  List.map_take

theorem keptOf_append (ms l : Marking) :
    keptOf (ms ++ l) = keptOf ms ++ (l.zipIdx ms.length).flatMap fun p =>
      if p.1.2 then [p.1.1.renumber ((ms ++ l).take p.2)] else [] := by
  unfold keptOf
  rw [List.zipIdx_append, List.flatMap_append, Nat.zero_add]
  congr 1
  refine List.flatMap_congr fun p hp => ?_
  have hLt : p.2 < ms.length :=
    (List.getElem?_eq_some_iff.mp (List.mem_zipIdx_iff_getElem?.mp hp)).1
  rw [List.take_append_of_le_length (Nat.le_of_lt hLt)]

theorem keptOf_snoc (ms : Marking) (i : Instruction) :
    keptOf (ms ++ [(i, true)]) = keptOf ms ++ [i.renumber ms] := by
  rw [keptOf_append]
  simp

theorem keptOf_snoc_dropped (ms : Marking) (i : Instruction) :
    keptOf (ms ++ [(i, false)]) = keptOf ms := by
  rw [keptOf_append]
  simp

theorem keptOf_dropped (ms : Marking) (l : List Instruction) :
    keptOf (ms ++ markAll false l) = keptOf ms := by
  induction l using List.reverseRecOn with
  | nil => simp [markAll]
  | append_singleton l i ih =>
    have hSnoc : ms ++ markAll false (l ++ [i]) = ms ++ markAll false l ++ [(i, false)] := by
      simp [markAll]
    rw [hSnoc, keptOf_snoc_dropped, ih]

theorem length_keptOf (ms : Marking) : (keptOf ms).length = keptCount (fun _ => 1) ms := by
  induction ms using List.reverseRecOn with
  | nil => rfl
  | append_singleton ms p ih =>
    obtain ⟨i, b⟩ := p
    rw [keptCount_append, keptCount_singleton]
    cases b with
    | true => rw [keptOf_snoc, List.length_append, ih]; rfl
    | false => rw [keptOf_snoc_dropped, ih]; rfl

theorem length_definitions (is : List Instruction) :
    (definitions is).length = (is.map fun i => i.operation.numDefined).sum := by
  induction is using List.reverseRecOn with
  | nil => rfl
  | append_singleton is i ih =>
    rw [definitions_snoc, List.length_append, length_definitions_of, ih]
    simp

@[simp] theorem length_definitions_snoc (is : List Instruction) (i : Instruction) :
    (definitions (is ++ [i])).length = (definitions is).length + i.operation.numDefined := by
  rw [definitions_snoc, List.length_append, length_definitions_of]

theorem length_definitions_append (is l : List Instruction) :
    (definitions (is ++ l)).length =
      (definitions is).length + (l.map fun i => i.operation.numDefined).sum := by
  rw [length_definitions, length_definitions, List.map_append, List.sum_append]

/-- The units that variables are counted by are the variables. -/
theorem length_units_wholeOf (ms : Marking) :
    (units (fun i : Instruction => i.operation.numDefined) ms).length =
      (definitions (wholeOf ms)).length := by
  rw [length_units, length_definitions, wholeOf, List.map_map]
  rfl

theorem length_units_one (ms : Marking) :
    (units (fun _ : Instruction => 1) ms).length = ms.length := by
  rw [units_one, List.length_map]

theorem KeptVar.lt {ms : Marking} {v : Nat} (h : KeptVar ms v) :
    v < (definitions (wholeOf ms)).length := by
  rw [← length_units_wholeOf]
  exact Kept.lt h

theorem KeptAt.lt {ms : Marking} {n : Nat} (h : KeptAt ms n) : n < ms.length := by
  rw [← length_units_one]
  exact Kept.lt h

/-! Later entries leave the numbers of earlier ones alone. -/

theorem varAt_append {ms : Marking} (l : Marking) {v : Nat}
    (hv : v ≤ (definitions (wholeOf ms)).length) : varAt (ms ++ l) v = varAt ms v :=
  renumber_append_left l (by rwa [length_units_wholeOf])

theorem keptVar_append {ms : Marking} (l : Marking) {v : Nat}
    (hv : v < (definitions (wholeOf ms)).length) : KeptVar (ms ++ l) v ↔ KeptVar ms v :=
  kept_append_left l (by rwa [length_units_wholeOf])

theorem positionAt_append {ms : Marking} (l : Marking) {n : Nat} (hn : n ≤ ms.length) :
    positionAt (ms ++ l) n = positionAt ms n :=
  renumber_append_left l (by rwa [length_units_one])

theorem keptAt_append {ms : Marking} (l : Marking) {n : Nat} (hn : n < ms.length) :
    KeptAt (ms ++ l) n ↔ KeptAt ms n :=
  kept_append_left l (by rwa [length_units_one])

theorem positionAt_length (ms : Marking) : positionAt ms ms.length = (keptOf ms).length := by
  rw [length_keptOf, ← renumber_length, length_units_one]
  rfl

theorem keptAt_last (ms : Marking) (i : Instruction) (b : Bool) :
    KeptAt (ms ++ [(i, b)]) ms.length ↔ b = true := by
  rw [KeptAt, kept_one_iff, List.getElem?_concat_length]
  simp

theorem renumber_append {ms : Marking} (l : Marking) {d : Definition}
    (hd : d.instruction < ms.length) : d.renumber (ms ++ l) = d.renumber ms := by
  rw [Definition.renumber, Definition.renumber, positionAt_append l (Nat.le_of_lt hd)]

/-! ## Definitions -/

theorem length_definitions_keptOf (ms : Marking) :
    (definitions (keptOf ms)).length = keptCount (fun i => i.operation.numDefined) ms := by
  induction ms using List.reverseRecOn with
  | nil => rfl
  | append_singleton ms p ih =>
    obtain ⟨i, b⟩ := p
    rw [keptCount_append, keptCount_singleton]
    cases b with
    | true =>
      rw [keptOf_snoc, definitions_snoc, List.length_append, ih, length_definitions_of]
      rfl
    | false => rw [keptOf_snoc_dropped, ih]; rfl

theorem definitions_renumber (ms : Marking) (i : Instruction) (n : Nat) :
    (i.renumber ms).definitions (positionAt ms n) = (i.definitions n).map (Definition.renumber ms) := by
  simp [Instruction.definitions, Definition.renumber, Function.comp_def]

/-- A variable is kept with its instruction, and keeps its definition. -/
theorem definition_keptOf {ms : Marking} {v : Nat} {d : Definition}
    (hd : (definitions (wholeOf ms))[v]? = some d) :
    (KeptVar ms v ↔ KeptAt ms d.instruction) ∧
      (KeptVar ms v → (definitions (keptOf ms))[varAt ms v]? = some (d.renumber ms)) := by
  induction ms using List.reverseRecOn with
  | nil => simp [wholeOf] at hd
  | append_singleton ms p ih =>
    obtain ⟨i, b⟩ := p
    rw [wholeOf_append, wholeOf_singleton] at hd
    rcases Nat.lt_or_ge v (definitions (wholeOf ms)).length with hLt | hGe
    · -- a variable of an earlier instruction
      rw [definitions_append_left _ hLt] at hd
      obtain ⟨hIff, hKept⟩ := ih hd
      have hAt := definition_lt hd
      rw [length_wholeOf] at hAt
      rw [keptVar_append _ hLt, keptAt_append _ hAt, varAt_append _ (Nat.le_of_lt hLt),
        renumber_append _ hAt]
      refine ⟨hIff, fun h => ?_⟩
      have hOld := hKept h
      cases b with
      | true => rw [keptOf_snoc, definitions_append_left _ (List.getElem?_eq_some_iff.mp hOld).1, hOld]
      | false => rw [keptOf_snoc_dropped, hOld]
    · -- a variable of the last one
      obtain ⟨k, rfl⟩ := Nat.exists_eq_add_of_le hGe
      rw [definitions_snoc, List.getElem?_append_right hGe, Nat.add_sub_cancel_left,
        length_wholeOf] at hd
      have hk := (List.getElem?_eq_some_iff.mp hd).1
      rw [length_definitions_of] at hk
      have hLast := instruction_of_mem_definitions (List.mem_of_getElem? hd)
      have hVar : KeptVar (ms ++ [(i, b)]) ((definitions (wholeOf ms)).length + k) ↔ b = true := by
        rw [KeptVar, ← length_units_wholeOf, kept_append_right]
        exact kept_singleton hk
      rw [hVar, hLast, keptAt_last]
      refine ⟨Iff.rfl, fun hb => ?_⟩
      subst hb
      have hAt : varAt (ms ++ [(i, true)]) ((definitions (wholeOf ms)).length + k) =
          (definitions (keptOf ms)).length + k := by
        rw [varAt, ← length_units_wholeOf, renumber_append_right, length_definitions_keptOf]
        congr 1
        exact renumber_markAll (l := [i]) (by simpa using Nat.le_of_lt hk)
      rw [hAt, keptOf_snoc, definitions_snoc, List.getElem?_append_right (Nat.le_add_right ..),
        Nat.add_sub_cancel_left, ← positionAt_length, definitions_renumber, List.getElem?_map, hd,
        Option.map_some, Definition.renumber, Definition.renumber,
        positionAt_append _ (Nat.le_of_eq hLast)]

/-- Every definition of the kept program is that of a kept variable. -/
theorem exists_of_definition_keptOf {ms : Marking} {u : Nat} {d' : Definition}
    (hd' : (definitions (keptOf ms))[u]? = some d') :
    ∃ v d, KeptVar ms v ∧ varAt ms v = u ∧ (definitions (wholeOf ms))[v]? = some d ∧
      d' = d.renumber ms := by
  have hu := (List.getElem?_eq_some_iff.mp hd').1
  rw [length_definitions_keptOf] at hu
  obtain ⟨v, hv, rfl⟩ := exists_kept hu
  obtain ⟨d, hd⟩ : ∃ d, (definitions (wholeOf ms))[v]? = some d :=
    ⟨_, List.getElem?_eq_getElem (KeptVar.lt hv)⟩
  have hKept := (definition_keptOf hd).2 hv
  exact ⟨v, d, hv, rfl, hd, Option.some.inj (hd'.symm.trans hKept)⟩

/-! ## Blocks and scopes -/

theorem brackets_renumber (ms : Marking) (i : Instruction) :
    brackets [i.renumber ms] = brackets [i] := rfl

/-- The open blocks, at their positions in the kept program. -/
def stackAt (ms : Marking) (s : List (Nat × BlockKind)) : List (Nat × BlockKind) :=
  s.map fun p => (positionAt ms p.1, p.2)

theorem stackAt_append {ms : Marking} (l : Marking) {s : List (Nat × BlockKind)}
    (hs : ∀ p ∈ s, p.1 < ms.length) : stackAt (ms ++ l) s = stackAt ms s := by
  refine List.map_congr_left fun p hp => ?_
  rw [positionAt_append l (Nat.le_of_lt (hs p hp))]

theorem lt_of_mem_stack {ms : Marking} {s : List (Nat × BlockKind)}
    (hs : openStack (brackets (wholeOf ms)) = some s) {p : Nat × BlockKind} (hp : p ∈ s) :
    p.1 < ms.length := by
  have := lt_of_mem_openStack hs (List.mem_map_of_mem hp)
  rwa [brackets_length, length_wholeOf] at this

/-- The scan of a dropped part leaves the stack as it was. -/
theorem openStack_dropped (is : List Instruction) {l : List Instruction}
    (hl : Balanced (brackets l)) :
    openStack (brackets (is ++ l)) = openStack (brackets is) := by
  rw [brackets_append, openStack_append]
  cases openStack (brackets is) with
  | none => rfl
  | some s => rw [Option.bind_some, hl.scan]

/-- **The blocks open in the kept program** are those open in the whole one. -/
theorem openStack_keptOf {ms : Marking} (h : Respects ms) :
    openStack (brackets (keptOf ms)) =
      (openStack (brackets (wholeOf ms))).map (stackAt ms) := by
  induction h with
  | nil => rfl
  | @keep ms i _ ih =>
    rw [keptOf_snoc, wholeOf_append, wholeOf_singleton, brackets_append, brackets_renumber,
      brackets_append, brackets_singleton, openStack_snoc, openStack_snoc, ih]
    cases hs : openStack (brackets (wholeOf ms)) with
    | none => rfl
    | some s =>
      -- what is open already keeps its positions
      have hStack : stackAt (ms ++ [(i, true)]) s = stackAt ms s :=
        stackAt_append _ fun p hp => lt_of_mem_stack hs hp
      have hHere : positionAt (ms ++ [(i, true)]) ms.length = (keptOf ms).length := by
        rw [positionAt_append _ (Nat.le_refl _), positionAt_length]
      simp only [Option.map_some, Option.bind_some, brackets_length, length_wholeOf]
      cases i.operation.bracket with
      | plain => simp only [step, Option.map_some, hStack]
      | opening k =>
        simp only [step, Option.map_some]
        rw [← hStack, ← hHere]
        rfl
      | closing k =>
        cases s with
        | nil => rfl
        | cons p s =>
          rw [← hStack]
          simp only [stackAt, List.map_cons, step]
          by_cases hk : k = p.2
          · simp only [if_pos hk, Option.map_some, stackAt]
          · simp only [if_neg hk, Option.map_none]
  | @drop ms l _ hl ih =>
    rw [keptOf_dropped, wholeOf_append, wholeOf_markAll, openStack_dropped _ hl, ih]
    cases hs : openStack (brackets (wholeOf ms)) with
    | none => rfl
    | some s =>
      rw [Option.map_some, Option.map_some,
        stackAt_append _ fun p hp => lt_of_mem_stack hs hp]

/-- The blocks open are blocks that are kept. -/
theorem Respects.keptAt {ms : Marking} (h : Respects ms) {s : List (Nat × BlockKind)}
    (hs : openStack (brackets (wholeOf ms)) = some s) {p : Nat × BlockKind} (hp : p ∈ s) :
    KeptAt ms p.1 := by
  induction h generalizing s p with
  | nil =>
    obtain rfl := Option.some.inj hs
    cases hp
  | @keep ms i _ ih =>
    rw [wholeOf_append, wholeOf_singleton, brackets_append, brackets_singleton, openStack_snoc] at hs
    obtain ⟨t, ht, hStep⟩ := Option.bind_eq_some_iff.mp hs
    -- what was open before is kept by induction
    have hOld : ∀ q ∈ t, KeptAt (ms ++ [(i, true)]) q.1 := fun q hq =>
      (keptAt_append _ (lt_of_mem_stack ht hq)).mpr (ih ht hq)
    rw [brackets_length, length_wholeOf] at hStep
    cases hb : i.operation.bracket with
    | plain =>
      rw [hb] at hStep
      obtain rfl := Option.some.inj hStep
      exact hOld p hp
    | opening k =>
      rw [hb] at hStep
      obtain rfl := Option.some.inj hStep
      rcases List.mem_cons.mp hp with rfl | hp
      · exact (keptAt_last ms i true).mpr rfl
      · exact hOld p hp
    | closing k =>
      rw [hb] at hStep
      cases t with
      | nil => cases hStep
      | cons q t =>
        simp only [step] at hStep
        split at hStep
        · obtain rfl := Option.some.inj hStep
          exact hOld p (List.mem_cons_of_mem _ hp)
        · cases hStep
  | @drop ms l _ hl ih =>
    rw [wholeOf_append, wholeOf_markAll, openStack_dropped _ hl] at hs
    exact (keptAt_append _ (lt_of_mem_stack hs hp)).mpr (ih hs hp)

/-- The entries of a marking before one that is kept. -/
theorem Respects.take {ms : Marking} (h : Respects ms) {n : Nat} (hn : KeptAt ms n) :
    Respects (ms.take n) := by
  induction h with
  | nil => exact absurd hn.lt (Nat.not_lt_zero n)
  | @keep ms i h ih =>
    rcases Nat.lt_or_ge n ms.length with hLt | hGe
    · rw [List.take_append_of_le_length (Nat.le_of_lt hLt)]
      exact ih ((keptAt_append _ hLt).mp hn)
    · have := hn.lt
      rw [List.length_append, List.length_singleton] at this
      obtain rfl : n = ms.length := by omega
      rwa [List.take_left]
  | @drop ms l h hl ih =>
    -- a kept position is not one of those dropped
    have hLt : n < ms.length := by
      by_contra hGe
      obtain ⟨k, rfl⟩ := Nat.exists_eq_add_of_le (Nat.le_of_not_lt hGe)
      rw [KeptAt, ← length_units_one, kept_append_right] at hn
      exact not_kept_dropped l k hn
    rw [List.take_append_of_le_length (Nat.le_of_lt hLt)]
    exact ih ((keptAt_append _ hLt).mp hn)

theorem keptAt_iff {ms : Marking} {n : Nat} :
    KeptAt ms n ↔ ∃ i, ms[n]? = some (i, true) := kept_one_iff

theorem length_take_of_getElem? {ms : Marking} {n : Nat} {p : Instruction × Bool}
    (hn : ms[n]? = some p) : (ms.take n).length = n := by
  have := (List.getElem?_eq_some_iff.mp hn).1
  rw [List.length_take]
  omega

/-- What stands before a position has the positions it has in the whole. -/
theorem positionAt_take {ms : Marking} {n m : Nat} (hm : m ≤ (ms.take n).length) :
    positionAt (ms.take n) m = positionAt ms m := by
  conv_rhs => rw [← List.take_append_drop n ms]
  exact (positionAt_append _ hm).symm

theorem varAt_take {ms : Marking} {n v : Nat}
    (hv : v ≤ (definitions (wholeOf (ms.take n))).length) : varAt (ms.take n) v = varAt ms v := by
  conv_rhs => rw [← List.take_append_drop n ms]
  exact (varAt_append _ hv).symm

/-- A kept instruction stands in the kept program behind what is kept before it. -/
theorem keptOf_split {ms : Marking} {n : Nat} {i : Instruction} (hn : ms[n]? = some (i, true)) :
    positionAt ms n = (keptOf (ms.take n)).length ∧
      ∃ tail, keptOf ms = keptOf (ms.take n) ++ i.renumber (ms.take n) :: tail := by
  have hLen := length_take_of_getElem? hn
  have hLt := (List.getElem?_eq_some_iff.mp hn).1
  refine ⟨?_, ?_⟩
  · rw [← positionAt_length, hLen, positionAt_take (Nat.le_of_eq hLen.symm)]
  · have hSplit : ms = ms.take n ++ [(i, true)] ++ ms.drop (n + 1) := by
      conv_lhs => rw [← List.take_append_drop n ms, List.drop_eq_getElem_cons hLt]
      rw [(List.getElem?_eq_some_iff.mp hn).2]
      simp
    have hAppend := keptOf_append (ms.take n ++ [(i, true)]) (ms.drop (n + 1))
    rw [← hSplit, keptOf_snoc, List.append_assoc] at hAppend
    exact ⟨_, hAppend⟩

/-- A kept instruction in the kept program, and what stands before it. -/
theorem getElem?_keptOf {ms : Marking} {n : Nat} {i : Instruction}
    (hn : ms[n]? = some (i, true)) :
    (keptOf ms)[positionAt ms n]? = some (i.renumber (ms.take n)) ∧
      (keptOf ms).take (positionAt ms n) = keptOf (ms.take n) := by
  obtain ⟨hPosition, tail, hTail⟩ := keptOf_split hn
  rw [hTail, hPosition]
  exact ⟨by simp, by simp⟩

theorem getElem?_wholeOf {ms : Marking} {n : Nat} {i : Instruction} {b : Bool}
    (hn : ms[n]? = some (i, b)) : (wholeOf ms)[n]? = some i := by
  rw [wholeOf, List.getElem?_map, hn]
  rfl

/-- Every instruction of the whole program has a mark. -/
theorem exists_mark {ms : Marking} {n : Nat} {i : Instruction} (hn : (wholeOf ms)[n]? = some i) :
    ∃ b, ms[n]? = some (i, b) := by
  rw [wholeOf, List.getElem?_map, Option.map_eq_some_iff] at hn
  obtain ⟨⟨i, b⟩, hMark, rfl⟩ := hn
  exact ⟨b, hMark⟩

/-- Every instruction of the kept program is a kept instruction. -/
theorem exists_of_getElem?_keptOf {ms : Marking} {m : Nat} {i' : Instruction}
    (hm : (keptOf ms)[m]? = some i') :
    ∃ n i, ms[n]? = some (i, true) ∧ positionAt ms n = m ∧ i' = i.renumber (ms.take n) := by
  have hLt := (List.getElem?_eq_some_iff.mp hm).1
  rw [length_keptOf] at hLt
  obtain ⟨n, hKept, rfl⟩ := exists_kept hLt
  obtain ⟨i, hn⟩ := kept_one_iff.mp hKept
  exact ⟨n, i, hn, rfl, Option.some.inj (hm.symm.trans (getElem?_keptOf hn).1)⟩

/-- What is kept up to and with a kept instruction. -/
theorem brackets_keptOf_take {ms : Marking} {n : Nat} {i : Instruction}
    (hn : ms[n]? = some (i, true)) :
    ms.take (n + 1) = ms.take n ++ [(i, true)] ∧
      (brackets (keptOf ms)).take (positionAt ms n + 1) = brackets (keptOf (ms.take (n + 1))) := by
  have hTake : ms.take (n + 1) = ms.take n ++ [(i, true)] := by
    rw [List.take_add_one, hn]
    rfl
  obtain ⟨hKept, hBefore⟩ := getElem?_keptOf hn
  refine ⟨hTake, ?_⟩
  rw [← brackets_take, List.take_add_one, hBefore, hKept, hTake, keptOf_snoc]
  rfl

/-- The scope of a kept variable is that of its definition in the kept program. -/
theorem homeOf_keptOf {ms : Marking} (h : Respects ms) {d : Definition}
    (hd : KeptAt ms d.instruction) :
    homeOf (keptOf ms) (d.renumber ms) = (homeOf (wholeOf ms) d).map (positionAt ms) := by
  obtain ⟨i, hi⟩ := keptAt_iff.mp hd
  obtain ⟨hTake, hKeptTake⟩ := brackets_keptOf_take hi
  unfold homeOf
  show (if d.inner = true then _ else _) = _
  by_cases hInner : d.inner = true
  · rw [if_pos hInner, if_pos hInner]
    rfl
  · rw [if_neg hInner, if_neg hInner]
    -- the innermost block around the definition is at the top of the stack
    have hRespects : Respects (ms.take (d.instruction + 1)) := by
      rw [hTake]
      exact (h.take hd).keep i
    replace hKeptTake : (brackets (keptOf ms)).take ((d.renumber ms).instruction + 1) =
        brackets (keptOf (ms.take (d.instruction + 1))) := hKeptTake
    have hWholeTake : (brackets (wholeOf ms)).take (d.instruction + 1) =
        brackets (wholeOf (ms.take (d.instruction + 1))) := by
      rw [wholeOf_take, brackets_take]
    rw [hKeptTake, hWholeTake, openStack_keptOf hRespects]
    cases hs : openStack (brackets (wholeOf (ms.take (d.instruction + 1)))) with
    | none => rfl
    | some s =>
      cases s with
      | nil => rfl
      | cons p s =>
        have hp := lt_of_mem_stack hs (List.mem_cons_self ..)
        simp [stackAt, positionAt_take (Nat.le_of_lt hp)]

/-- The block a kept variable lives in is kept. -/
theorem Respects.home_kept {ms : Marking} (h : Respects ms) {d : Definition}
    (hd : KeptAt ms d.instruction) {b : Nat} (hb : homeOf (wholeOf ms) d = some b) :
    KeptAt ms b := by
  obtain ⟨i, hi⟩ := keptAt_iff.mp hd
  unfold homeOf at hb
  split at hb
  · rwa [← Option.some.inj hb]
  · have hTake := (brackets_keptOf_take hi).1
    rw [← brackets_take, ← wholeOf_take] at hb
    cases hs : openStack (brackets (wholeOf (ms.take (d.instruction + 1)))) with
    | none => simp [hs] at hb
    | some s =>
      rw [hs, Option.getD_some, Option.map_eq_some_iff] at hb
      obtain ⟨p, hp, rfl⟩ := hb
      have hRespects : Respects (ms.take (d.instruction + 1)) := by
        rw [hTake]
        exact (h.take hd).keep i
      -- every block that is open is kept
      have hKept := hRespects.keptAt hs (List.mem_of_head? hp)
      rw [← List.take_append_drop (d.instruction + 1) ms]
      exact Kept.append hKept _

/-! ## Names -/

/-- **A kept variable names in the kept program what it names in the whole.** -/
theorem names_keptOf_iff {ms : Marking} (h : Respects ms) {s : List (Nat × BlockKind)}
    (hs : openStack (brackets (wholeOf ms)) = some s) {v : Nat} (hv : KeptVar ms v)
    {var : Variable} : Names (keptOf ms) (varAt ms v) var ↔ Names (wholeOf ms) v var := by
  obtain ⟨d, hd⟩ : ∃ d, (definitions (wholeOf ms))[v]? = some d :=
    ⟨_, List.getElem?_eq_getElem hv.lt⟩
  obtain ⟨hIff, hKept⟩ := definition_keptOf hd
  have hAt := hIff.mp hv
  have hs' : openStack (brackets (keptOf ms)) = some (stackAt ms s) := by
    rw [openStack_keptOf h, hs]
    rfl
  have hVisible : Visible (keptOf ms) (d.renumber ms) ↔ Visible (wholeOf ms) d := by
    rw [visible_iff hs' (hKept hv), visible_iff hs hd, homeOf_keptOf h hAt]
    refine and_congr_right fun _ => ⟨fun hOpen b hb => ?_, fun hOpen b' hb' => ?_⟩
    · -- open in the kept program: the block is one whose position is kept
      have hMem := hOpen (positionAt ms b) (by rw [hb]; rfl)
      obtain ⟨q, hq, hEq⟩ := List.mem_map.mp hMem
      obtain ⟨p, hp, rfl⟩ := List.mem_map.mp hq
      have hSame := (renumber_inj (h.keptAt hs hp) (h.home_kept hAt hb)).mp hEq
      exact List.mem_map.mpr ⟨p, hp, hSame⟩
    · obtain ⟨b, hb, rfl⟩ := Option.map_eq_some_iff.mp hb'
      obtain ⟨p, hp, rfl⟩ := List.mem_map.mp (hOpen b hb)
      exact List.mem_map.mpr ⟨_, List.mem_map_of_mem hp, rfl⟩
  constructor
  · rintro ⟨d', hd', hVar, hVis⟩
    obtain rfl := Option.some.inj ((hKept hv).symm.trans hd')
    exact ⟨d, hd, hVar, hVisible.mp hVis⟩
  · rintro ⟨d', hd', hVar, hVis⟩
    obtain rfl := Option.some.inj (hd.symm.trans hd')
    exact ⟨d.renumber ms, hKept hv, hVar, hVisible.mpr hVis⟩

/-! ## Typing -/

/-- **A kept instruction that reads kept variables** may follow what is kept
exactly when it may follow the whole. -/
theorem wellTypedAfter_keptOf_iff {ctx : ProgramContext} {ms : Marking} (h : Respects ms)
    {s : List (Nat × BlockKind)} (hs : openStack (brackets (wholeOf ms)) = some s)
    {i : Instruction} (hi : ∀ v ∈ i.inputs, KeptVar ms v) :
    WellTypedAfter ctx (keptOf ms) (i.renumber ms) ↔ WellTypedAfter ctx (wholeOf ms) i := by
  have hLength : (i.renumber ms).inputs.length = i.inputs.length := List.length_map _
  have hInput : ∀ k, (i.renumber ms).inputs[k]? = i.inputs[k]?.map (varAt ms) := fun k =>
    List.getElem?_map
  constructor
  · intro hTyped
    refine ⟨by rw [← hLength]; exact hTyped.arity, fun k v var hv hVar => ?_, hTyped.role,
      hTyped.connection⟩
    have hNames := hTyped.inputs k (varAt ms v) var (by rw [hInput, hv]; rfl) hVar
    exact (names_keptOf_iff h hs (hi v (List.mem_of_getElem? hv))).mp hNames
  · intro hTyped
    exact hTyped.renamed fun v hv var => (names_keptOf_iff h hs (hi v hv)).mpr

/-- Kept instructions read kept variables. -/
def KeepsInputs (ms : Marking) : Prop :=
  ∀ (n : Nat) (i : Instruction), ms[n]? = some (i, true) → ∀ v ∈ i.inputs, KeptVar (ms.take n) v

theorem stack_take {ms : Marking} {s : List (Nat × BlockKind)}
    (hs : openStack (brackets (wholeOf ms)) = some s) (n : Nat) :
    ∃ t, openStack (brackets (wholeOf (ms.take n))) = some t := by
  rw [wholeOf_take, brackets_take]
  exact openStack_take hs n

/-- What is kept of a well typed program is well typed, where the inputs of each
kept instruction name what they named. -/
theorem wellTypedPrefix_of_names {ctx : ProgramContext} {ms : Marking}
    (hTyped : WellTypedPrefix ctx (wholeOf ms))
    (hNames : ∀ (n : Nat) (i : Instruction), ms[n]? = some (i, true) → ∀ v ∈ i.inputs, ∀ var,
      Names (wholeOf (ms.take n)) v var → Names (keptOf (ms.take n)) (varAt (ms.take n) v) var) :
    WellTypedPrefix ctx (keptOf ms) := by
  intro m i' hm
  obtain ⟨n, i, hn, rfl, rfl⟩ := exists_of_getElem?_keptOf hm
  have hAfter := hTyped n i (getElem?_wholeOf hn)
  rw [← wholeOf_take] at hAfter
  rw [(getElem?_keptOf hn).2]
  exact hAfter.renamed (hNames n i hn)

/-- What is kept of a well typed program is well typed. -/
theorem wellTypedPrefix_keptOf {ctx : ProgramContext} {ms : Marking} (h : Respects ms)
    (hInputs : KeepsInputs ms) {s : List (Nat × BlockKind)}
    (hs : openStack (brackets (wholeOf ms)) = some s) (hTyped : WellTypedPrefix ctx (wholeOf ms)) :
    WellTypedPrefix ctx (keptOf ms) := by
  refine wellTypedPrefix_of_names hTyped fun n i hn v hv var => ?_
  obtain ⟨t, ht⟩ := stack_take hs n
  exact (names_keptOf_iff (h.take (keptAt_iff.mpr ⟨i, hn⟩)) ht (hInputs n i hn v hv)).mpr

/-- A program is well typed where what is kept of it is, and its dropped
instructions are. -/
theorem wellTypedPrefix_wholeOf {ctx : ProgramContext} {ms : Marking} (h : Respects ms)
    (hInputs : KeepsInputs ms) {s : List (Nat × BlockKind)}
    (hs : openStack (brackets (wholeOf ms)) = some s)
    (hKept : WellTypedPrefix ctx (keptOf ms))
    (hDropped : ∀ (n : Nat) (i : Instruction), ms[n]? = some (i, false) →
      WellTypedAfter ctx ((wholeOf ms).take n) i) :
    WellTypedPrefix ctx (wholeOf ms) := by
  intro n i hn
  obtain ⟨b, hMark⟩ := exists_mark hn
  -- a dropped instruction is typed as assumed, a kept one as in what is left
  cases b with
  | false => exact hDropped n i hMark
  | true =>
    obtain ⟨t, ht⟩ := stack_take hs n
    obtain ⟨hAt, hBefore⟩ := getElem?_keptOf hMark
    have hAfter := hKept _ _ hAt
    rw [hBefore, wellTypedAfter_keptOf_iff (h.take (keptAt_iff.mpr ⟨i, hMark⟩)) ht
      (hInputs n i hMark), wholeOf_take] at hAfter
    exact hAfter

theorem wellTyped_keptOf {ctx : ProgramContext} {ms : Marking} (h : Respects ms)
    (hInputs : KeepsInputs ms) (hTyped : WellTyped ctx (wholeOf ms)) :
    WellTyped ctx (keptOf ms) := by
  have hs := balanced_iff_openStack.mp hTyped.balanced
  refine ⟨balanced_iff_openStack.mpr ?_, wellTypedPrefix_keptOf h hInputs hs hTyped.instructions⟩
  rw [openStack_keptOf h, hs]
  rfl

theorem wellTyped_wholeOf {ctx : ProgramContext} {ms : Marking} (h : Respects ms)
    (hInputs : KeepsInputs ms) (hKept : WellTyped ctx (keptOf ms))
    (hDropped : ∀ (n : Nat) (i : Instruction), ms[n]? = some (i, false) →
      WellTypedAfter ctx ((wholeOf ms).take n) i) :
    WellTyped ctx (wholeOf ms) := by
  have hs : openStack (brackets (wholeOf ms)) = some [] := by
    have hEmpty := balanced_iff_openStack.mp hKept.balanced
    rw [openStack_keptOf h, Option.map_eq_some_iff] at hEmpty
    obtain ⟨s, hs, hNil⟩ := hEmpty
    rwa [List.map_eq_nil_iff.mp hNil] at hs
  exact ⟨balanced_iff_openStack.mpr hs,
    wellTypedPrefix_wholeOf h hInputs hs hKept.instructions hDropped⟩

end Stratamoto
