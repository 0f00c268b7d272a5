import Stratamoto.IR.Minimizers

/-!
# Stratamoto — nopping one instruction

A nop defines as many variables as the instruction it stands in for, so that
every variable keeps its index, and none of them can be named. What can be
named elsewhere is what could be named before, less the variables of that
instruction (`names_nopAt`), and so the program stays valid exactly as long as
nothing behind it uses them.

* `DefinedAt is n v` — the instruction at `n` defines variable `v`;
* `UsedLater is n` — an instruction behind it has such a variable as an input;
* `SameNames is is' n` — every other instruction stands, and names what it named;
* `nopped_valid_iff` — the program with a nop is valid exactly if nothing uses
  what the instruction defined, and then the other inputs name what they named.
-/

namespace Stratamoto

open Brackets Operation

variable {ctx : ProgramContext} {is : List Instruction}

/-- The variable is an output, or an inner output, of the instruction. -/
def DefinedAt (is : List Instruction) (n v : Nat) : Prop :=
  ∃ d, (definitions is)[v]? = some d ∧ d.instruction = n

def UsedLater (is : List Instruction) (n : Nat) : Prop :=
  ∃ m j v, n < m ∧ is[m]? = some j ∧ v ∈ j.inputs ∧ DefinedAt is n v

/-- All instructions but the one at `n` are the same, and each of their inputs
is in scope in both programs, as the same output of the same instruction. -/
structure SameNames (is is' : List Instruction) (n : Nat) : Prop where
  instructions : ∀ m, m ≠ n → is'[m]? = is[m]?
  inputs : ∀ (m k v : Nat) (j : Instruction) (var : Variable), m ≠ n → is[m]? = some j →
    j.inputs[k]? = some v → j.operation.getInputVariables[k]? = some var →
    ∃ d, d.instruction ≠ n ∧ d.instruction < m ∧ d.var = var ∧
      (definitions (is.take m))[v]? = some d ∧ Visible (is.take m) d ∧
      (definitions (is'.take m))[v]? = some d ∧ Visible (is'.take m) d

/-! ## Variables of a nop -/

/-- A variable of the instruction at `n` is a phantom once it is nopped. -/
def Definition.nopped (n : Nat) (d : Definition) : Definition :=
  if d.instruction = n then { d with var := .nop } else d

@[simp] theorem nopped_instruction (n : Nat) (d : Definition) :
    (d.nopped n).instruction = d.instruction := by
  unfold Definition.nopped
  split <;> rfl

@[simp] theorem nopped_inner (n : Nat) (d : Definition) : (d.nopped n).inner = d.inner := by
  unfold Definition.nopped
  split <;> rfl

theorem nopped_of_ne {n : Nat} {d : Definition} (h : d.instruction ≠ n) : d.nopped n = d :=
  if_neg h

/-- A nop defines as many variables, inner ones where there were inner ones. -/
theorem definitions_nop (i : Instruction) (n : Nat) :
    i.nop.definitions n = (i.definitions n).map (Definition.nopped n) := by
  have hNopped : ∀ d ∈ i.definitions n, d.nopped n = { d with var := .nop } := fun d hd =>
    if_pos (instruction_of_mem_definitions hd)
  rw [List.map_congr_left hNopped]
  simp [Instruction.definitions, Instruction.nop, getOutputVariables, getInnerOutputVariables,
    numOutputs, numInnerOutputs, List.map_const', Function.comp_def]

theorem definitions_nopAt (is : List Instruction) (n : Nat) :
    definitions (is.modify n Instruction.nop) = (definitions is).map (Definition.nopped n) := by
  have hZip : (is.modify n Instruction.nop).zipIdx =
      is.zipIdx.map fun p => (if n = p.2 then p.1.nop else p.1, p.2) := by
    refine List.ext_getElem? fun k => ?_
    rw [List.getElem?_zipIdx, List.getElem?_modify, List.getElem?_map, List.getElem?_zipIdx]
    cases is[k]? <;> simp
  rw [definitions, hZip, List.flatMap_map, definitions, List.map_flatMap]
  refine List.flatMap_congr fun p hp => ?_
  by_cases hn : n = p.2
  · subst hn
    rw [if_pos rfl]
    exact definitions_nop p.1 p.2
  · rw [if_neg hn]
    refine (List.map_id _).symm.trans (List.map_congr_left fun d hd => ?_)
    exact (nopped_of_ne (instruction_of_mem_definitions hd ▸ Ne.symm hn)).symm

/-- Variables of other instructions are what they were. -/
theorem getElem?_definitions_nopAt {n v : Nat} {d : Definition}
    (hd : (definitions is)[v]? = some d) :
    (definitions (is.modify n Instruction.nop))[v]? = some (d.nopped n) := by
  rw [definitions_nopAt, List.getElem?_map, hd, Option.map_some]

/-! ## What can be named -/

section Names

variable {n : Nat} {i : Instruction} (hi : is[n]? = some i) (hNoppable : i.isNoppable = true)

include hi hNoppable

/-- A nop stands in no one's way: what other instructions define is as visible
as it was. -/
theorem visible_nopAt {d : Definition} (hd : d.instruction ≠ n) :
    Visible (is.modify n Instruction.nop) d ↔ Visible is d := by
  have hBrackets := brackets_nopAt hi hNoppable
  have hLives : ∀ home, LivesIn (is.modify n Instruction.nop) d home ↔ LivesIn is d home := by
    intro home
    cases home <;> simp only [LivesIn, hBrackets]
  simp only [Visible, hLives, hBrackets, List.length_modify, List.getElem?_modify_ne _ _ hd.symm]

/-- The variables of a nop cannot be named, and nothing else is lost. -/
theorem names_nopAt {v : Nat} {var : Variable} :
    Names (is.modify n Instruction.nop) v var ↔ Names is v var ∧ ¬ DefinedAt is n v := by
  constructor
  · intro h
    obtain ⟨d', hd', hVar, hVisible⟩ := h
    rw [definitions_nopAt, List.getElem?_map, Option.map_eq_some_iff] at hd'
    obtain ⟨d, hd, rfl⟩ := hd'
    have hOther : d.instruction ≠ n := by
      intro hSame
      -- it would be an output of a nop
      have hNop := hVisible.1 i.nop (by
        rw [nopped_instruction, hSame, List.getElem?_modify_eq, hi]
        rfl)
      cases hNop
    rw [nopped_of_ne hOther] at hVar hVisible
    refine ⟨⟨d, hd, hVar, (visible_nopAt hi hNoppable hOther).mp hVisible⟩, ?_⟩
    rintro ⟨d', hd', hSame⟩
    obtain rfl := Option.some.inj (hd.symm.trans hd')
    exact hOther hSame
  · intro h
    obtain ⟨⟨d, hd, hVar, hVisible⟩, hNot⟩ := h
    have hOther : d.instruction ≠ n := fun hSame => hNot ⟨d, hd, hSame⟩
    refine ⟨d, ?_, hVar, (visible_nopAt hi hNoppable hOther).mpr hVisible⟩
    rw [getElem?_definitions_nopAt hd, nopped_of_ne hOther]

/-- **What may follow a nop** is what may follow the instruction and uses none
of its variables. -/
theorem wellTypedAfter_nopAt {j : Instruction} (h : WellTypedAfter ctx is j) :
    WellTypedAfter ctx (is.modify n Instruction.nop) j ↔ ∀ v ∈ j.inputs, ¬ DefinedAt is n v := by
  constructor
  · intro hAfter v hv
    obtain ⟨k, hk⟩ := List.mem_iff_getElem?.mp hv
    have hLt : k < j.operation.getInputVariables.length := by
      have := (List.getElem?_eq_some_iff.mp hk).1
      rwa [h.arity] at this
    have hNames := hAfter.inputs k v _ hk (List.getElem?_eq_getElem hLt)
    exact ((names_nopAt hi hNoppable).mp hNames).2
  · intro hUnused
    refine ⟨h.arity, fun k v var hv hVar => ?_, h.role, h.connection⟩
    exact (names_nopAt hi hNoppable).mpr ⟨h.inputs k v var hv hVar,
      hUnused v (List.mem_of_getElem? hv)⟩

end Names

theorem wellTypedAfter_nop (ctx : ProgramContext) (is : List Instruction) (i : Instruction) :
    WellTypedAfter ctx is i.nop where
  arity := by simp [Instruction.nop, numInputs, getInputVariables]
  inputs k v var hv := by simp [Instruction.nop] at hv
  role r hr := by cases hr
  connection c hc := by cases hc

/-! ## The program with a nop -/

section Program

variable {n : Nat} {i : Instruction} (hi : is[n]? = some i)

/-- In front of the nop nothing is different, behind it there is the nop. -/
theorem take_nopAt (m : Nat) : (is.modify n Instruction.nop).take m =
    (is.take m).modify n Instruction.nop :=
  List.take_modify ..

theorem take_nopAt_of_le {m : Nat} (h : m ≤ n) :
    (is.modify n Instruction.nop).take m = is.take m := by
  rw [take_nopAt, List.modify_eq_self]
  exact (List.length_take_le ..).trans h

/-- An input defined by the instruction, seen from where it is used. -/
theorem definedAt_take_iff {m v : Nat} (hv : v < (definitions (is.take m)).length) :
    DefinedAt (is.take m) n v ↔ DefinedAt is n v := by
  have hSame : (definitions (is.take m))[v]? = (definitions is)[v]? := by
    conv_rhs => rw [← List.take_append_drop m is]
    exact (definitions_append_left _ hv).symm
  simp only [DefinedAt, hSame]

include hi

/-- The typing discipline of the program with a nop. -/
theorem wellTyped_nopAt_iff (hTyped : WellTyped ctx is) (hNoppable : i.isNoppable = true) :
    WellTyped ctx (is.modify n Instruction.nop) ↔ ¬ UsedLater is n := by
  -- behind the nop an instruction is typed if it does not read from it
  have hAfter : ∀ {m : Nat} {j : Instruction}, n < m → is[m]? = some j →
      (WellTypedAfter ctx ((is.modify n Instruction.nop).take m) j ↔
        ∀ v ∈ j.inputs, ¬ DefinedAt is n v) := by
    intro m j hm hj
    have hTake : (is.take m)[n]? = some i := by rw [List.getElem?_take_of_lt hm, hi]
    have hAt := hTyped.instructions m j hj
    rw [take_nopAt, wellTypedAfter_nopAt hTake hNoppable hAt]
    exact forall₂_congr fun v hv => not_congr (definedAt_take_iff (hAt.input_lt hv))
  constructor
  · intro hNopped hUsed
    obtain ⟨m, j, v, hm, hj, hv, hDefined⟩ := hUsed
    have hj' : (is.modify n Instruction.nop)[m]? = some j := by
      rw [List.getElem?_modify_ne _ _ (Nat.ne_of_lt hm), hj]
    exact (hAfter hm hj).mp (hNopped.instructions m j hj') v hv hDefined
  · intro hUnused
    refine ⟨(brackets_nopAt hi hNoppable).symm ▸ hTyped.balanced, fun m j hj => ?_⟩
    rcases Nat.lt_trichotomy m n with hLt | rfl | hGt
    · rw [List.getElem?_modify_ne _ _ (Nat.ne_of_gt hLt)] at hj
      rw [take_nopAt_of_le (Nat.le_of_lt hLt)]
      exact hTyped.instructions m j hj
    · rw [List.getElem?_modify_eq, hi] at hj
      obtain rfl : i.nop = j := Option.some.inj hj
      exact wellTypedAfter_nop ..
    · rw [List.getElem?_modify_ne _ _ (Nat.ne_of_lt hGt)] at hj
      exact (hAfter hGt hj).mpr fun v hv hDefined => hUnused ⟨m, j, v, hGt, hj, hv, hDefined⟩

/-- Where nothing uses the instruction, all others name what they named. -/
theorem sameNames_nopAt (hTyped : WellTyped ctx is) (hNoppable : i.isNoppable = true)
    (hUnused : ¬ UsedLater is n) : SameNames is (is.modify n Instruction.nop) n where
  instructions m hm := List.getElem?_modify_ne _ _ hm.symm
  inputs m k v j var hm hj hv hVar := by
    obtain ⟨d, hd, hType, hVisible⟩ := (hTyped.instructions m j hj).inputs k v var hv hVar
    have hBefore := definition_take_lt hd
    have hOther : d.instruction ≠ n := by
      intro hSame
      have hLt : n < m := hSame ▸ hBefore
      exact hUnused ⟨m, j, v, hLt, hj, List.mem_of_getElem? hv, d, definitions_take hd, hSame⟩
    refine ⟨d, hOther, hBefore, hType, hd, hVisible, ?_⟩
    rcases Nat.lt_or_ge n m with hGt | hLe
    · have hTake : (is.take m)[n]? = some i := by rw [List.getElem?_take_of_lt hGt, hi]
      rw [take_nopAt, getElem?_definitions_nopAt hd, nopped_of_ne hOther]
      exact ⟨rfl, (visible_nopAt hTake hNoppable hOther).mpr hVisible⟩
    · rw [take_nopAt_of_le hLe]
      exact ⟨hd, hVisible⟩

end Program

/-- **Nopping one instruction.** A statically valid program stays valid with a nop
in place of an instruction that is no block delimiter exactly if no later instruction
has an input that it defines; and then the inputs of every other instruction name
the definitions they named. -/
theorem nopped_valid_iff {p : Program} (hValid : p.isStaticallyValid = .ok true) {n : Nat}
    {i : Instruction} (hi : p.instructions[n]? = some i) (hNoppable : i.isNoppable = true) :
    ((p.nopAt n).isStaticallyValid = .ok true ↔ ¬ UsedLater p.instructions n) ∧
      ((p.nopAt n).isStaticallyValid = .ok true →
        SameNames p.instructions (p.nopAt n).instructions n) := by
  have hTyped := isStaticallyValid_iff.mp hValid
  have hIff : (p.nopAt n).isStaticallyValid = .ok true ↔ ¬ UsedLater p.instructions n := by
    rw [isStaticallyValid_iff]
    exact wellTyped_nopAt_iff hi hTyped hNoppable
  exact ⟨hIff, fun h => sameNames_nopAt hi hTyped hNoppable (hIff.mp h)⟩

/-- A connect whose connection is not used, and the load of its role, which is. -/
def unusedConnect : Program where
  context := ⟨1, 0, 0⟩
  instructions := [⟨[], .loadRole 0⟩, ⟨[0], .connect⟩, ⟨[], .probe⟩]

/-- The connect can be nopped, the load cannot. -/
theorem nopped_valid_iff_unusedConnect :
    (unusedConnect.nopAt 1).isStaticallyValid = .ok true ∧
      SameNames unusedConnect.instructions (unusedConnect.nopAt 1).instructions 1 ∧
      UsedLater unusedConnect.instructions 0 := by
  have hConnect : (unusedConnect.nopAt 1).isStaticallyValid = .ok true := by decide
  have hLoad : (unusedConnect.nopAt 0).isStaticallyValid ≠ .ok true := by decide
  have hUnused := nopped_valid_iff (p := unusedConnect) (n := 1) (by decide) rfl rfl
  have hUsed := (nopped_valid_iff (p := unusedConnect) (n := 0) (by decide) rfl rfl).1
  exact ⟨hConnect, hUnused.2 hConnect, not_not.mp fun h => hLoad (hUsed.mpr h)⟩

end Stratamoto
