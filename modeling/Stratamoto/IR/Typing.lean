import Mathlib.Data.List.Forall2
import Stratamoto.IR.Operation

/-!
# Stratamoto — the typing discipline

What it is for a program to be well typed, stated without the builder: block
begins and ends balance, and every input names a variable of the right type
whose scope is still open.

* `definitions is` — the variables the instructions define, in index order;
* `LivesIn is d home` — the scope a variable lives in: an inner output in the
  block it opens, any other in the innermost block open after its instruction;
* `Visible is d` — the variable can be used by the instruction after `is`;
* `WellTypedAfter ctx is i` — `i` may follow the instructions `is`;
* `WellTyped ctx is` — the discipline for a whole program;
* `names_behind_block` — behind a block only what its end defines can be named.

The stack of open blocks (`Brackets.openStack`) computes the first three
(`homeOf`, `visible_iff`), which is how the builder's scopes are related to
them.
-/

namespace Stratamoto

open Brackets Operation

/-- A variable: the instruction that defines it, whether it is an inner
output, and its type. -/
structure Definition where
  instruction : Nat
  inner : Bool
  var : Variable
  deriving DecidableEq, Repr

/-- The variables the instruction at position `n` defines. -/
def Instruction.definitions (i : Instruction) (n : Nat) : List Definition :=
  i.operation.getOutputVariables.map (Definition.mk n false) ++
    i.operation.getInnerOutputVariables.map (Definition.mk n true)

/-- The variables of a program, in index order. -/
def definitions (is : List Instruction) : List Definition :=
  is.zipIdx.flatMap fun p => p.1.definitions p.2

def brackets (is : List Instruction) : Word BlockKind := is.map (·.operation.bracket)

/-! ## The discipline -/

/-- The block at `b` is the innermost of those open just before position `j`. -/
def Innermost (w : Word BlockKind) (b j : Nat) : Prop :=
  OpenAt w b j ∧ ∀ b', OpenAt w b' j → b' ≤ b

/-- The scope a variable lives in: `none` is the global one, `some b` that of
the block begun at `b`. -/
def LivesIn (is : List Instruction) (d : Definition) : Option Nat → Prop
  | none => d.inner = false ∧ ∀ b, ¬ OpenAt (brackets is) b (d.instruction + 1)
  | some b =>
    if d.inner then b = d.instruction else Innermost (brackets is) b (d.instruction + 1)

/-- A variable the instruction after `is` may use: no nop defined it, and its
scope is still open. -/
def Visible (is : List Instruction) (d : Definition) : Prop :=
  (∀ i, is[d.instruction]? = some i → i.operation.isNop = false) ∧
    (LivesIn is d none ∨ ∃ b, LivesIn is d (some b) ∧ OpenAt (brackets is) b is.length)

/-- Index `v` names a usable variable of type `var`. -/
def Names (is : List Instruction) (v : Nat) (var : Variable) : Prop :=
  ∃ d, (definitions is)[v]? = some d ∧ d.var = var ∧ Visible is d

/-- The instruction `i` may follow the instructions `is`, brackets apart. -/
structure WellTypedAfter (ctx : ProgramContext) (is : List Instruction) (i : Instruction) :
    Prop where
  arity : i.inputs.length = i.operation.numInputs
  inputs : ∀ (k v : Nat) (var : Variable), i.inputs[k]? = some v →
    i.operation.getInputVariables[k]? = some var → Names is v var
  role : ∀ r, i.operation = .loadRole r → r < ctx.numRoles
  connection : ∀ c, i.operation = .loadConnection c → c < ctx.numConnections

/-- Every instruction may follow those before it, brackets apart. -/
def WellTypedPrefix (ctx : ProgramContext) (is : List Instruction) : Prop :=
  ∀ (j : Nat) (i : Instruction), is[j]? = some i → WellTypedAfter ctx (is.take j) i

/-- The typing discipline: balanced blocks, and inputs that name variables in
scope, of the declared types. -/
structure WellTyped (ctx : ProgramContext) (is : List Instruction) : Prop where
  balanced : Balanced (brackets is)
  instructions : WellTypedPrefix ctx is

/-! ## Instruction lists -/

/-- What stands in the front of a list stands in the list, behind the same entries. -/
theorem getElem?_of_take {α : Type*} {xs : List α} {n m : Nat} {x : α}
    (h : (xs.take n)[m]? = some x) :
    m < n ∧ xs[m]? = some x ∧ (xs.take n).take m = xs.take m := by
  have hLt := (List.getElem?_eq_some_iff.mp h).1
  rw [List.length_take] at hLt
  have hm : m < n := by omega
  rw [List.getElem?_take_of_lt hm] at h
  exact ⟨hm, h, by rw [List.take_take, Nat.min_eq_left (Nat.le_of_lt hm)]⟩

@[simp] theorem brackets_nil : brackets [] = [] := rfl

@[simp] theorem brackets_append (is l : List Instruction) :
    brackets (is ++ l) = brackets is ++ brackets l := List.map_append

@[simp] theorem brackets_singleton (i : Instruction) : brackets [i] = [i.operation.bracket] := rfl

@[simp] theorem brackets_length (is : List Instruction) : (brackets is).length = is.length :=
  List.length_map _

theorem brackets_take (is : List Instruction) (n : Nat) :
    brackets (is.take n) = (brackets is).take n := List.map_take

theorem openStack_brackets_snoc {is : List Instruction} {s : List (Nat × BlockKind)}
    (hs : openStack (brackets is) = some s) (i : Instruction) :
    openStack (brackets (is ++ [i])) = step is.length s i.operation.bracket := by
  rw [brackets_append, brackets_singleton, openStack_snoc, hs, Option.bind_some, brackets_length]

@[simp] theorem definitions_nil : definitions [] = [] := rfl

theorem definitions_snoc (is : List Instruction) (i : Instruction) :
    definitions (is ++ [i]) = definitions is ++ i.definitions is.length := by
  simp [definitions, List.zipIdx_append]

theorem length_definitions_of (i : Instruction) (n : Nat) :
    (i.definitions n).length = i.operation.numDefined := by
  simp [Instruction.definitions, numDefined, numOutputs, numInnerOutputs]

theorem instruction_of_mem_definitions {i : Instruction} {n : Nat} {d : Definition}
    (h : d ∈ i.definitions n) : d.instruction = n := by
  rcases List.mem_append.mp h with h | h <;>
  · obtain ⟨var, -, rfl⟩ := List.mem_map.mp h
    rfl

/-- What a definition says of the instruction it belongs to. -/
theorem mem_definitions_of {i : Instruction} {n : Nat} {d : Definition} :
    d ∈ i.definitions n ↔ d.instruction = n ∧
      (if d.inner then d.var ∈ i.operation.getInnerOutputVariables
        else d.var ∈ i.operation.getOutputVariables) := by
  obtain ⟨m, inner, var⟩ := d
  cases inner <;> simp [Instruction.definitions, and_comm, eq_comm]

/-- What an operation must be to define a variable of a type. -/
def Operation.Makes (op : Operation) : Variable → Prop
  | .nop => op.isNop = true
  | .role => ∃ r, op = .loadRole r
  | .connection => op = .connect ∨ ∃ c, op = .loadConnection c
  | .setupAttempt protocol => op = .sendSetupConnection protocol
  | .session protocol => op = .beginOnSetupSuccess protocol
  | .version => ∃ version, op = .loadVersion version
  | .flags => ∃ flags, op = .loadFlags flags
  | .port => ∃ port, op = .loadPort port
  | .str => ∃ str, op = .loadStr str
  | .bytes => ∃ bytes, op = .loadBytes bytes
  | .duration => ∃ duration, op = .loadDuration duration
  | .mutSetupConnection => op = .beginBuildSetupConnection
  | .constSetupConnection protocol => op = .endBuildSetupConnection protocol

theorem makes_of_output {op : Operation} {inner : Bool} {var : Variable}
    (h : if inner then var ∈ op.getInnerOutputVariables else var ∈ op.getOutputVariables) :
    op.Makes var := by
  cases op <;> cases inner <;>
    simp_all [Makes, isNop, getInnerOutputVariables, getOutputVariables, List.mem_replicate]

/-- The variables of a program are those of its instructions. -/
theorem mem_definitions {is : List Instruction} {d : Definition} (h : d ∈ definitions is) :
    ∃ i, is[d.instruction]? = some i ∧ d ∈ i.definitions d.instruction := by
  obtain ⟨⟨i, n⟩, hMem, hd⟩ := List.mem_flatMap.mp h
  have hn := instruction_of_mem_definitions hd
  refine ⟨i, ?_, hn ▸ hd⟩
  rw [hn]
  simpa using List.mem_zipIdx_iff_getElem?.mp hMem

theorem mem_definitions_of_getElem? {is : List Instruction} {n : Nat} {i : Instruction}
    {d : Definition} (hi : is[n]? = some i) (hd : d ∈ i.definitions n) : d ∈ definitions is :=
  List.mem_flatMap.mpr ⟨(i, n), List.mem_zipIdx_iff_getElem?.mpr hi, hd⟩

theorem definition_lt {is : List Instruction} {v : Nat} {d : Definition}
    (h : (definitions is)[v]? = some d) : d.instruction < is.length := by
  obtain ⟨i, hi, -⟩ := mem_definitions (List.mem_of_getElem? h)
  exact (List.getElem?_eq_some_iff.mp hi).1

/-- Later instructions leave the earlier variables alone. -/
theorem definitions_append_left {is : List Instruction} (l : List Instruction) {v : Nat}
    (h : v < (definitions is).length) : (definitions (is ++ l))[v]? = (definitions is)[v]? := by
  induction l using List.reverseRecOn with
  | nil => simp
  | append_singleton l i ih =>
    rw [← List.append_assoc, definitions_snoc, List.getElem?_append_left, ih]
    rw [definitions, List.zipIdx_append, List.flatMap_append, List.length_append]
    exact Nat.lt_add_right _ h

theorem definitions_take {is : List Instruction} {j v : Nat} {d : Definition}
    (h : (definitions (is.take j))[v]? = some d) : (definitions is)[v]? = some d := by
  have hv := (List.getElem?_eq_some_iff.mp h).1
  rw [← List.take_append_drop j is, definitions_append_left _ hv, h]

theorem definition_take_lt {is : List Instruction} {n v : Nat} {d : Definition}
    (h : (definitions (is.take n))[v]? = some d) : d.instruction < n := by
  have := definition_lt h
  rw [List.length_take] at this
  omega

theorem definitions_append (is l : List Instruction) : ∃ D,
    definitions (is ++ l) = definitions is ++ D ∧ ∀ d ∈ D, is.length ≤ d.instruction := by
  refine ⟨_, by rw [definitions, List.zipIdx_append, List.flatMap_append]; rfl, fun d hd => ?_⟩
  obtain ⟨⟨i, n⟩, hMem, hd⟩ := List.mem_flatMap.mp hd
  have := List.le_snd_of_mem_zipIdx hMem
  rw [instruction_of_mem_definitions hd]
  omega

/-- The one variable an instruction defines. -/
theorem index_of_definition {is : List Instruction} {v : Nat} {d : Definition} {j : Instruction}
    (hd : (definitions is)[v]? = some d) (hj : is[d.instruction]? = some j)
    (hOne : j.operation.numDefined = 1) : v = (definitions (is.take d.instruction)).length := by
  have hLt := (List.getElem?_eq_some_iff.mp hj).1
  obtain ⟨D, hD, -⟩ := definitions_append (is.take d.instruction) (is.drop d.instruction)
  obtain ⟨E, hE, hELe⟩ := definitions_append (is.take (d.instruction + 1)) (is.drop (d.instruction + 1))
  rw [List.take_append_drop] at hD hE
  have hNext : (definitions (is.take (d.instruction + 1))).length =
      (definitions (is.take d.instruction)).length + 1 := by
    rw [List.take_add_one, hj, Option.toList_some, definitions_snoc, List.length_append,
      length_definitions_of, hOne]
  -- between the variables before the instruction and those after it there is one
  have hLow : (definitions (is.take d.instruction)).length ≤ v := by
    by_contra hSmall
    rw [hD, List.getElem?_append_left (by omega)] at hd
    exact Nat.lt_irrefl _ (definition_take_lt hd)
  have hHigh : v < (definitions (is.take (d.instruction + 1))).length := by
    by_contra hLarge
    rw [hE, List.getElem?_append_right (by omega)] at hd
    have := hELe d (List.mem_of_getElem? hd)
    rw [List.length_take] at this
    omega
  omega

theorem isNop_iff_of_mem {i : Instruction} {n : Nat} {d : Definition}
    (h : d ∈ i.definitions n) : i.operation.isNop = true ↔ d.var = .nop := by
  obtain ⟨-, h⟩ := mem_definitions_of.mp h
  obtain ⟨m, inner, var⟩ := d
  obtain ⟨inputs, op⟩ := i
  cases inner <;> cases op <;>
    simp_all [getInnerOutputVariables, getOutputVariables, isNop, List.mem_replicate]

/-! ## Scopes computed with the stack -/

/-- The scope a variable lives in, read off the stack of open blocks. -/
def homeOf (is : List Instruction) (d : Definition) : Option Nat :=
  if d.inner then some d.instruction
  else ((openStack ((brackets is).take (d.instruction + 1))).getD []).head?.map Prod.fst

theorem innermost_iff {w : Word BlockKind} {j : Nat} {s : List (Nat × BlockKind)}
    (hj : j ≤ w.length) (hs : openStack (w.take j) = some s) {b : Nat} :
    Innermost w b j ↔ s.head?.map Prod.fst = some b := by
  have hOpen : ∀ b, OpenAt w b j ↔ b ∈ s.map Prod.fst := fun b =>
    (mem_openStack_take_iff hj hs).symm
  have hSorted := (openStack_sorted hs).1
  simp only [Innermost, hOpen]
  cases s with
  | nil => simp
  | cons p s =>
    simp only [List.map_cons, List.mem_cons, List.head?_cons, Option.map_some, Option.some.injEq]
    -- the stack is sorted, so the innermost open block is its top
    have hBelow := (List.pairwise_cons.mp hSorted).1
    constructor
    · rintro ⟨rfl | hMem, hMax⟩
      · rfl
      · have := hBelow b hMem
        have := hMax p.1 (Or.inl rfl)
        omega
    · rintro rfl
      refine ⟨Or.inl rfl, ?_⟩
      rintro b' (rfl | hMem)
      · exact Nat.le_refl _
      · exact Nat.le_of_lt (hBelow b' hMem)

theorem livesIn_iff {is : List Instruction} {s : List (Nat × BlockKind)}
    (hs : openStack (brackets is) = some s) {d : Definition} (hd : d.instruction < is.length)
    {home : Option Nat} : LivesIn is d home ↔ homeOf is d = home := by
  obtain ⟨s', hs'⟩ := openStack_take hs (d.instruction + 1)
  have hj : d.instruction + 1 ≤ (brackets is).length := by
    rw [brackets_length]
    omega
  rw [homeOf, hs', Option.getD_some]
  cases home with
  | none =>
    cases hInner : d.inner with
    | true => simp [LivesIn, hInner]
    | false =>
      simp only [LivesIn, hInner, true_and, Bool.false_eq_true, if_false, Option.map_eq_none_iff,
        List.head?_eq_none_iff]
      simp only [← mem_openStack_take_iff hj hs']
      cases s' with
      | nil => simp
      | cons p s' => simpa using ⟨p.1, fun h => absurd rfl h⟩
  | some b =>
    -- an inner output lives in the block its instruction begins, whatever is open
    cases hInner : d.inner with
    | true => simp [LivesIn, hInner, eq_comm]
    | false =>
      simp only [LivesIn, hInner, Bool.false_eq_true, if_false]
      exact innermost_iff hj hs'

/-- Visibility by the stack: a variable that no nop defined lives globally or
in one of the blocks still open. -/
theorem visible_iff {is : List Instruction} {s : List (Nat × BlockKind)}
    (hs : openStack (brackets is) = some s) {v : Nat} {d : Definition}
    (hd : (definitions is)[v]? = some d) :
    Visible is d ↔ d.var ≠ .nop ∧ ∀ b, homeOf is d = some b → b ∈ s.map Prod.fst := by
  have hLt := definition_lt hd
  have hNop : (∀ i, is[d.instruction]? = some i → i.operation.isNop = false) ↔ d.var ≠ .nop := by
    obtain ⟨i, hi, hMem⟩ := mem_definitions (List.mem_of_getElem? hd)
    rw [hi, Ne, ← isNop_iff_of_mem hMem]
    simp
  have hOpen : ∀ b, OpenAt (brackets is) b is.length ↔ b ∈ s.map Prod.fst := fun b => by
    rw [mem_openStack_iff hs, brackets_length]
  simp only [Visible, hNop, livesIn_iff hs hLt, hOpen]
  cases homeOf is d <;> simp

/-! ## Prefixes -/

theorem homeOf_append {is : List Instruction} (l : List Instruction) {d : Definition}
    (hd : d.instruction < is.length) : homeOf (is ++ l) d = homeOf is d := by
  unfold homeOf
  rw [brackets_append, List.take_append_of_le_length (by rw [brackets_length]; omega)]

theorem homeOf_le {is : List Instruction} {d : Definition} {b : Nat}
    (h : homeOf is d = some b) : b ≤ d.instruction := by
  unfold homeOf at h
  split at h
  · exact Nat.le_of_eq (Option.some.inj h).symm
  · cases hs : openStack ((brackets is).take (d.instruction + 1)) with
    | none => simp [hs] at h
    | some s =>
      rw [hs, Option.getD_some, Option.map_eq_some_iff] at h
      obtain ⟨p, hp, rfl⟩ := h
      have hMem : p.1 ∈ s.map Prod.fst := List.mem_map_of_mem (List.mem_of_head? hp)
      have := lt_of_mem_openStack hs hMem
      rw [List.length_take] at this
      omega

theorem wellTypedPrefix_snoc {ctx : ProgramContext} {is : List Instruction} {i : Instruction} :
    WellTypedPrefix ctx (is ++ [i]) ↔ WellTypedPrefix ctx is ∧ WellTypedAfter ctx is i := by
  constructor
  · intro h
    refine ⟨fun j i' hj => ?_, ?_⟩
    · have hLt := (List.getElem?_eq_some_iff.mp hj).1
      have := h j i' (by rw [List.getElem?_append_left hLt]; exact hj)
      rwa [List.take_append_of_le_length (Nat.le_of_lt hLt)] at this
    · simpa using h is.length i (by simp)
  · rintro ⟨hPrefix, hLast⟩ j i' hj
    -- an old position, or the new one
    rcases Nat.lt_or_ge j is.length with hLt | hGe
    · rw [List.getElem?_append_left hLt] at hj
      rw [List.take_append_of_le_length (Nat.le_of_lt hLt)]
      exact hPrefix j i' hj
    · have hLen := (List.getElem?_eq_some_iff.mp hj).1
      simp only [List.length_append, List.length_singleton] at hLen
      obtain rfl : j = is.length := by omega
      simp only [List.getElem?_concat_length, Option.some.injEq] at hj
      simpa [hj] using hLast

theorem WellTypedPrefix.take {ctx : ProgramContext} {is : List Instruction}
    (h : WellTypedPrefix ctx is) (n : Nat) : WellTypedPrefix ctx (is.take n) := by
  intro j i hj
  obtain ⟨-, hj, hBefore⟩ := getElem?_of_take hj
  rw [hBefore]
  exact h j i hj

/-- Inputs as a whole: each names a variable of the type in its place. -/
theorem WellTypedAfter.forall₂ {ctx : ProgramContext} {is : List Instruction} {i : Instruction}
    (h : WellTypedAfter ctx is i) :
    List.Forall₂ (Names is) i.inputs i.operation.getInputVariables := by
  rw [List.forall₂_iff_get]
  refine ⟨h.arity, fun k h₁ h₂ => ?_⟩
  exact h.inputs k _ _ (List.getElem?_eq_getElem h₁) (List.getElem?_eq_getElem h₂)

/-- An instruction may follow wherever its inputs, renamed, name what they named. -/
theorem WellTypedAfter.renamed {ctx : ProgramContext} {is is' : List Instruction} {i : Instruction}
    (h : WellTypedAfter ctx is i) {f : Nat → Nat}
    (hNames : ∀ v ∈ i.inputs, ∀ var, Names is v var → Names is' (f v) var) :
    WellTypedAfter ctx is' { i with inputs := i.inputs.map f } := by
  refine ⟨(List.length_map _).trans h.arity, fun k u var hu hVar => ?_, h.role, h.connection⟩
  obtain ⟨v, hv, rfl⟩ := Option.map_eq_some_iff.mp (List.getElem?_map .. ▸ hu)
  exact hNames v (List.mem_of_getElem? hv) var (h.inputs k v var hv hVar)

/-! ## What can be named behind a block -/

/-- A variable defined in a block, before its end, lives in the block or in one
inside it. -/
theorem home_in_block {ctx : ProgramContext} {is : List Instruction} (hTyped : WellTyped ctx is)
    {b e : Nat} (h : Matches (brackets is) b e) {d : Definition} (hb : b ≤ d.instruction)
    (he : d.instruction < e) :
    ∃ home, homeOf is d = some home ∧ b ≤ home ∧ home ≤ d.instruction := by
  have hs := balanced_iff_openStack.mp hTyped.balanced
  have hLt := h.lt_length
  suffices hHome : ∃ home, homeOf is d = some home ∧ b ≤ home by
    obtain ⟨home, hEq, hGe⟩ := hHome
    exact ⟨home, hEq, hGe, homeOf_le hEq⟩
  unfold homeOf
  by_cases hInner : d.inner = true
  · rw [if_pos hInner]
    exact ⟨d.instruction, rfl, hb⟩
  · rw [if_neg hInner]
    obtain ⟨s, hStack⟩ := openStack_take hs (d.instruction + 1)
    -- the block itself is open there
    have hOpen : b ∈ s.map Prod.fst := by
      rw [mem_openStack_take_iff (by omega) hStack]
      exact h.openAt hs (by omega) (by omega)
    rw [hStack, Option.getD_some]
    cases s with
    | nil => cases hOpen
    | cons p s =>
      refine ⟨p.1, rfl, ?_⟩
      rcases List.mem_cons.mp hOpen with rfl | hOpen
      · exact Nat.le_refl _
      · have hSorted := (openStack_sorted hStack).1
        rw [List.map_cons, List.pairwise_cons] at hSorted
        exact Nat.le_of_lt (hSorted.1 b hOpen)

/-- **Behind a block only what its end defines can be named.** -/
theorem names_behind_block {ctx : ProgramContext} {is : List Instruction}
    (hTyped : WellTyped ctx is) {b e : Nat} (h : Matches (brackets is) b e) {n v : Nat}
    {var : Variable} {d : Definition} (hn : n ≤ is.length)
    (hNames : Names (is.take n) v var) (hd : (definitions (is.take n))[v]? = some d)
    (hb : b ≤ d.instruction) (he : d.instruction ≤ e) (hBehind : e < n) : d.instruction = e := by
  by_contra hNe
  have hBefore : d.instruction < e := Nat.lt_of_le_of_ne he hNe
  obtain ⟨home, hHome, hGe, hLe⟩ := home_in_block hTyped h hb hBefore
  obtain ⟨s, hs⟩ := openStack_take (balanced_iff_openStack.mp hTyped.balanced) n
  -- the scope the variable lives in would be open at the use
  obtain ⟨d', hd', -, hVisible⟩ := hNames
  obtain rfl := Option.some.inj (hd.symm.trans hd')
  rw [← brackets_take] at hs
  have hHome' : homeOf (is.take n) d = some home := by
    rw [← hHome]
    conv_rhs => rw [← List.take_append_drop n is]
    exact (homeOf_append _ (definition_lt hd)).symm
  have hMem := ((visible_iff hs hd).mp hVisible).2 home hHome'
  rw [brackets_take] at hs
  have hOpen : OpenAt (brackets is) home n :=
    (mem_openStack_take_iff (by rwa [brackets_length]) hs).mp hMem
  exact h.not_openAt hTyped.balanced hGe (Nat.lt_of_le_of_lt hLe hBefore) hBehind hOpen

end Stratamoto
