import Stratamoto.IR.Display
import Stratamoto.IR.Mutators
import Stratamoto.IR.Nops

/-!
# Stratamoto — one numbering of the variables

The builder, the compiler, the printer, `without` and `ConcatMutator` each count
the variables of a program on their own. For each of them one lemma says what it
counts, and what an instruction adds:

* `compileInstruction_values`  — the compiler pushes a value of each type;
* `names_line`                 — the printer names the next variables;
* `mapping_at`                 — `without` maps the next variables;
* `walkers_number_alike`       — they agree before every instruction of a program,
  and on every variable it defines and on every one it reads.
-/

namespace Stratamoto

open Brackets Operation Marks

/-! ## The variables of an instruction -/

/-- The variables an operation defines, outputs first. -/
def Operation.defined (op : Operation) : List Variable :=
  op.getOutputVariables ++ op.getInnerOutputVariables

theorem length_defined (op : Operation) : op.defined.length = op.numDefined := by
  rw [defined, List.length_append]
  rfl

/-- The program before position `n`. -/
def Program.upTo (p : Program) (n : Nat) : Program :=
  { p with instructions := p.instructions.take n }

/-- The count of `ConcatMutator`, before position `n`. -/
def Program.countBefore (p : Program) (n : Nat) : Nat := variableCount (p.upTo n)

theorem countBefore_eq (p : Program) (n : Nat) :
    p.countBefore n = (definitions (p.instructions.take n)).length :=
  variableCount_eq (p.upTo n)

theorem take_succ {is : List Instruction} {n : Nat} {i : Instruction} (hi : is[n]? = some i) :
    is.take (n + 1) = is.take n ++ [i] := by
  rw [List.take_add_one, hi, Option.toList_some]

/-! ## The compiler -/

/-- A value of the type, or the mark of a nop. -/
def Value.holds : Value → Variable → Bool
  | .nop, .nop => true
  | value, var => value.fits var

/-- The values after an instruction: as many as before, then one of each type it
defines. -/
def Compiler.Pushed (c c' : Compiler) (defined : List Variable) : Prop :=
  ∃ old new, c'.values = old ++ new ∧ old.length = c.values.length ∧
    List.Forall₂ (fun value var => Value.holds value var = true) new defined

theorem pushed_of_values {c c' : Compiler} (h : c'.values.length = c.values.length) :
    c.Pushed c' [] :=
  ⟨c'.values, [], (List.append_nil _).symm, h, .nil⟩

theorem pushed_one {c c' : Compiler} {v : Value} {var : Variable}
    (h : c'.values = c.values ++ [v]) (hHolds : v.holds var = true) :
    c.Pushed c' [var] :=
  ⟨c.values, [v], h, rfl, .cons hHolds .nil⟩

theorem setupMut_values {c c' : Compiler} {inputs : List Nat}
    {change : SetupConnectionSpec → SetupConnectionSpec}
    (h : (Compiler.input inputs 0 >>= fun m => c.setupMut m change) = .ok c') :
    c'.values.length = c.values.length := by
  obtain ⟨m, -, h⟩ := bind_ok h
  unfold Compiler.setupMut at h
  split at h
  · cases h
    exact List.length_set
  · cases h
  · cases h

theorem compileEndOnSetupSuccess_values {c c' : Compiler} {index : Nat}
    (h : c.compileEndOnSetupSuccess index = .ok c') : c'.values = c.values := by
  unfold Compiler.compileEndOnSetupSuccess at h
  split at h
  · cases h
  · dsimp only at h
    split at h
    · cases h
    · cases h
      rfl
    · cases h

/-- An instruction pushes a value for every variable it defines. -/
theorem compileInstruction_values {S : Sv2} {c c' : Compiler} {index : Nat} {i : Instruction}
    (h : c.compileInstruction S index i = .ok c') : c.Pushed c' i.operation.defined := by
  unfold Compiler.compileInstruction at h
  cases hOp : i.operation <;> simp only [hOp] at h
  case nop outputs innerOutputs =>
    cases h
    refine ⟨c.values, _, rfl, rfl, ?_⟩
    rw [defined, getOutputVariables, getInnerOutputVariables, List.replicate_append_replicate]
    exact List.forall₂_iff_get.mpr ⟨by simp, fun k _ _ => by simp [Value.holds]⟩
  case connect =>
    obtain ⟨_, role, h⟩ := read_ok h
    cases h
    exact pushed_one (v := .connection c.connections) rfl rfl
  -- the setters change a value in place
  case setVersions =>
    obtain ⟨_, _, h⟩ := read_ok h
    obtain ⟨_, _, h⟩ := read_ok h
    exact pushed_of_values (setupMut_values h)
  case setFlags =>
    obtain ⟨_, _, h⟩ := read_ok h
    exact pushed_of_values (setupMut_values h)
  case setEndpoint =>
    obtain ⟨_, _, h⟩ := read_ok h
    obtain ⟨_, _, h⟩ := read_ok h
    exact pushed_of_values (setupMut_values h)
  case setDeviceInfo =>
    obtain ⟨_, _, h⟩ := read_ok h
    obtain ⟨_, _, h⟩ := read_ok h
    obtain ⟨_, _, h⟩ := read_ok h
    obtain ⟨_, _, h⟩ := read_ok h
    exact pushed_of_values (setupMut_values h)
  case endBuildSetupConnection protocol =>
    obtain ⟨_, spec, h⟩ := read_ok h
    cases h
    exact pushed_one rfl (by simp [Value.holds, Value.fits])
  case sendSetupConnection protocol =>
    obtain ⟨_, connection, h⟩ := read_ok h
    obtain ⟨_, _, h⟩ := read_ok h
    obtain ⟨payload, -, h⟩ := bind_ok h
    cases h
    refine pushed_one (v := .setupAttempt c.sessions connection) ?_ rfl
    simp [Compiler.note_eq]
  case beginOnSetupSuccess =>
    obtain ⟨_, ⟨session, _⟩, h⟩ := read_ok h
    cases h
    exact pushed_one (v := .session) rfl rfl
  case endOnSetupSuccess =>
    exact pushed_of_values (congrArg List.length (compileEndOnSetupSuccess_values h))
  case sendRawFrame =>
    obtain ⟨_, _, h⟩ := read_ok h
    obtain ⟨_, _, h⟩ := read_ok h
    cases h
    exact pushed_of_values rfl
  case advanceTime =>
    obtain ⟨_, _, h⟩ := read_ok h
    cases h
    exact pushed_of_values rfl
  case probe =>
    cases h
    exact pushed_of_values rfl
  -- loads, and the begin of a message
  all_goals
    cases h
    exact pushed_one rfl rfl

/-- The values that are there, and the one at each new number. -/
theorem Compiler.Pushed.values {c c' : Compiler} {defined : List Variable}
    (h : c.Pushed c' defined) :
    c'.values.length = c.values.length + defined.length ∧
      ∀ k var, defined[k]? = some var →
        ∃ value, c'.values[c.values.length + k]? = some value ∧ value.holds var = true := by
  obtain ⟨old, new, hValues, hOld, hNew⟩ := h
  refine ⟨by rw [hValues, List.length_append, hOld, hNew.length_eq], fun k var hk => ?_⟩
  obtain ⟨hLt, rfl⟩ := List.getElem?_eq_some_iff.mp hk
  have hLt' : k < new.length := hNew.length_eq ▸ hLt
  refine ⟨new[k], ?_, (List.forall₂_iff_get.mp hNew).2 k hLt' hLt⟩
  rw [hValues, List.getElem?_append_right (by omega), hOld, Nat.add_sub_cancel_left,
    List.getElem?_eq_getElem hLt']

/-- A compilation compiles what stands in front, and goes on from there. -/
theorem compileInstructions_append {S : Sv2} {c c' : Compiler} {index : Nat}
    {is l : List Instruction} (h : c.compileInstructions S index (is ++ l) = .ok c') :
    ∃ c₁, c.compileInstructions S index is = .ok c₁ ∧
      c₁.compileInstructions S (index + is.length) l = .ok c' := by
  induction is generalizing c index with
  | nil => exact ⟨c, rfl, h⟩
  | cons i is ih =>
    rw [List.cons_append, Compiler.compileInstructions] at h
    -- the first instruction is compiled in either case
    obtain ⟨c₂, hStep, h⟩ := bind_ok h
    obtain ⟨c₁, hFront, hRest⟩ := ih h
    refine ⟨c₁, ?_, by rwa [List.length_cons, ← Nat.add_assoc, Nat.add_right_comm]⟩
    rw [Compiler.compileInstructions, hStep]
    exact hFront

/-- The compiler has pushed as many values as there are variables. -/
theorem length_values {S : Sv2} {ctx : ProgramContext} {is : List Instruction} {c : Compiler}
    (h : (Compiler.start ctx).compileInstructions S 0 is = .ok c) :
    c.values.length = (definitions is).length := by
  induction is using List.reverseRecOn generalizing c with
  | nil =>
    cases h
    rfl
  | append_singleton is i ih =>
    -- what is in front, and then the last instruction
    obtain ⟨c₁, hFront, hLast⟩ := compileInstructions_append h
    obtain ⟨c₂, hStep, hNil⟩ := bind_ok hLast
    cases hNil
    rw [(compileInstruction_values hStep).values.1, ih hFront, length_definitions_snoc,
      length_defined]

/-! ## The printer -/

/-- The names on an instruction's line, outputs first. -/
def Printer.names (s : Printer) (i : Instruction) : List String := s.outputNames i ++ s.innerNames i

theorem getElem?_names {s : Printer} {i : Instruction} {k : Nat}
    (hk : k < i.operation.defined.length) : (s.names i)[k]? = some (variableName (s.var + k)) := by
  have hOutputs : (s.outputNames i).length = i.operation.numOutputs := by
    rw [Printer.outputNames, variableNames, List.length_map, List.length_range']
  rw [length_defined, numDefined] at hk
  rw [Printer.names]
  -- the inner outputs are named behind the outputs
  rcases Nat.lt_or_ge k i.operation.numOutputs with hOutput | hInner
  · rw [List.getElem?_append_left (by omega)]
    exact getElem?_variableNames hOutput
  · rw [List.getElem?_append_right (by omega), hOutputs, Printer.innerNames,
      getElem?_variableNames (by omega)]
    congr 2
    omega

/-! ## `without` -/

/-- The mapping of a program goes on from that of what stands in front. -/
theorem mapping_append (ctx : ProgramContext) (is l : List Instruction) (remove : List Bool) :
    ∃ more, (Program.mapping ⟨ctx, is ++ l⟩ remove).1 =
      (Program.mapping ⟨ctx, is⟩ remove).1 ++ more := by
  induction l using List.reverseRecOn with
  | nil => exact ⟨[], by rw [List.append_nil, List.append_nil]⟩
  | append_singleton l i ih =>
    obtain ⟨more, hMore⟩ := ih
    rw [← List.append_assoc, mapping_snoc, mapVariables_eq, hMore, List.append_assoc]
    exact ⟨_, rfl⟩

theorem length_mapping (p : Program) (remove : List Bool) :
    (p.mapping remove).1.length = (definitions p.instructions).length := by
  rw [mapping_eq, List.length_map, List.length_range]

/-- The entry at a variable's number is the one `without` made for it: the next
number if it is kept. -/
theorem mapping_at {p : Program} {n k : Nat} {i : Instruction} (remove : List Bool)
    (hi : p.instructions[n]? = some i) (hk : k < i.operation.defined.length) :
    (p.mapping remove).1[p.countBefore n + k]? =
      some (if remove.getD n false then ((p.upTo n).mapping remove).2
        else ((p.upTo n).mapping remove).2 + k) := by
  have hLt := (List.getElem?_eq_some_iff.mp hi).1
  have hTake : (p.instructions.take n).length = n := by
    rw [List.length_take]
    omega
  -- the loop that maps them has come to this instruction
  obtain ⟨more, hMore⟩ := mapping_append p.context (p.instructions.take (n + 1))
    (p.instructions.drop (n + 1)) remove
  rw [List.take_append_drop] at hMore
  rw [length_defined] at hk
  have hFront : (p.upTo n).mapping remove =
      Program.mapping ⟨p.context, p.instructions.take n⟩ remove := rfl
  have hCount : ((p.upTo n).mapping remove).1.length = p.countBefore n := by
    rw [length_mapping, countBefore_eq]
    rfl
  have hEntry : (p.mapping remove).1 = ((p.upTo n).mapping remove).1 ++
      ((List.range i.operation.numDefined).map fun k =>
        if remove.getD n false then ((p.upTo n).mapping remove).2
        else ((p.upTo n).mapping remove).2 + k) ++ more := by
    rw [show p.mapping remove = Program.mapping ⟨p.context, p.instructions⟩ remove from rfl, hMore,
      take_succ hi, mapping_snoc, hTake, mapVariables_eq, hFront]
  rw [hEntry, List.append_assoc, List.getElem?_append_right (by omega), hCount,
    Nat.add_sub_cancel_left, List.getElem?_append_left (by simpa using hk), List.getElem?_map,
    List.getElem?_range hk, Option.map_some]

/-! ## All of them -/

/-- A variable is one of its instruction's, behind those of the instructions
before it. -/
theorem exists_of_definition {is : List Instruction} {v : Nat} {d : Definition}
    (hd : (definitions is)[v]? = some d) :
    ∃ i k, is[d.instruction]? = some i ∧ i.operation.defined[k]? = some d.var ∧
      v = (definitions (is.take d.instruction)).length + k := by
  induction is using List.reverseRecOn with
  | nil => cases hd
  | append_singleton is i ih =>
    -- a variable of an earlier instruction, or of the last one
    rcases Nat.lt_or_ge v (definitions is).length with hOld | hNew
    · rw [definitions_append_left _ hOld] at hd
      obtain ⟨j, k, hj, hk, hv⟩ := ih hd
      have hLt := definition_lt hd
      refine ⟨j, k, by rw [List.getElem?_append_left hLt, hj], hk, ?_⟩
      rwa [List.take_append_of_le_length (Nat.le_of_lt hLt)]
    · rw [definitions_snoc, List.getElem?_append_right hNew] at hd
      have hAt := instruction_of_mem_definitions (List.mem_of_getElem? hd)
      refine ⟨i, v - (definitions is).length, ?_, ?_, ?_⟩
      · rw [hAt, List.getElem?_concat_length]
      · rw [defined, ← vars_of_definitions i is.length, List.getElem?_map, hd, Option.map_some]
      · rw [hAt, List.take_left]
        omega

/-- The numbers of appended instructions go on from those of the program. -/
theorem countBefore_appended (q p : Program) (n : Nat) :
    Program.countBefore ⟨q.context, q.instructions ++
        p.instructions.map (Instruction.shift (variableCount q))⟩ (q.instructions.length + n) =
      variableCount q + p.countBefore n := by
  have hTake : (q.instructions ++ p.instructions.map
        (Instruction.shift (variableCount q))).take (q.instructions.length + n) =
      q.instructions ++ (p.instructions.take n).map (Instruction.shift (variableCount q)) := by
    rw [List.take_append, Nat.add_sub_cancel_left, List.map_take,
      List.take_of_length_le (Nat.le_add_right _ _)]
  rw [countBefore_eq, hTake, length_definitions_append, variableCount_eq q, countBefore_eq p,
    length_definitions (p.instructions.take n), List.map_map]
  rfl

/-- What each walker has counted before position `n`: the builder `b` that has
replayed the instructions, the compiler `c` that has compiled them, the printer,
`without`, and `ConcatMutator`, whose count is the one the others are compared to. -/
structure CountedAlike (texts : LiteralTexts) (S : Sv2) (p : Program) (remove : List Bool)
    (n : Nat) (b : ProgramBuilder) (c : Compiler) : Prop where
  replayed : ProgramBuilder.fromPrefix p.context (p.instructions.take n) = .ok (.ok b)
  compiled : (Compiler.start p.context).compileInstructions S 0 (p.instructions.take n) = .ok c
  builder : b.variableCount = p.countBefore n
  compiler : c.values.length = p.countBefore n
  printer : (printed texts (p.instructions.take n)).var = p.countBefore n
  without : ((p.upTo n).mapping remove).1.length = p.countBefore n

/-- The number each walker gives the `k`-th variable of the instruction `i` at
position `n`, where the builder returns `vars` and the compiler goes on as `c'`. -/
structure NumberedAlike (texts : LiteralTexts) (p : Program) (remove : List Bool) (n : Nat)
    (i : Instruction) (vars : List IndexedVariable) (c' : Compiler) (k : Nat) (var : Variable) :
    Prop where
  builder : vars[k]? = some ⟨var, p.countBefore n + k⟩
  compiler : ∃ value, c'.values[p.countBefore n + k]? = some value ∧ value.holds var = true
  printer : ((printed texts (p.instructions.take n)).names i)[k]? =
    some (variableName (p.countBefore n + k))
  /-- What `without` maps it to: the next number, if the instruction is kept. -/
  without : (p.mapping remove).1[p.countBefore n + k]? =
    some (if remove.getD n false then ((p.upTo n).mapping remove).2
      else ((p.upTo n).mapping remove).2 + k)
  /-- Where `ConcatMutator` puts it behind a program `q`, with the same shift as
  the inputs that name it. -/
  concat : ∀ q : Program, Program.countBefore ⟨q.context, q.instructions ++
      p.instructions.map (Instruction.shift (variableCount q))⟩ (q.instructions.length + n) + k =
    p.countBefore n + k + variableCount q

/-- The input `v` of the instruction at position `n` is the number that was printed
where the variable was defined. -/
def NamesPrinted (texts : LiteralTexts) (p : Program) (n v : Nat) (var : Variable) : Prop :=
  ∃ m j k, m < n ∧ p.instructions[m]? = some j ∧ j.operation.defined[k]? = some var ∧
    v = p.countBefore m + k ∧
    ((printed texts (p.instructions.take m)).names j)[k]? = some (variableName v)

theorem counted_alike (texts : LiteralTexts) {S : Sv2} {p : Program} {compiled : CompiledProgram}
    (hTyped : WellTyped p.context p.instructions) (hCompiled : Compiler.compile S p = .ok compiled)
    (remove : List Bool) (n : Nat) :
    ∃ s c, openStack (brackets (p.instructions.take n)) = some s ∧
      CountedAlike texts S p remove n (builderAt p.context (p.instructions.take n) s) c := by
  obtain ⟨s, hs⟩ := openStack_take (balanced_iff_openStack.mp hTyped.balanced) n
  rw [← brackets_take] at hs
  obtain ⟨c', hAll, -⟩ := bind_ok hCompiled
  rw [← List.take_append_drop n p.instructions] at hAll
  obtain ⟨c, hFront, -⟩ := compileInstructions_append hAll
  -- each of them against the number of definitions
  refine ⟨s, c, hs, ?_, hFront, ?_, ?_, ?_, ?_⟩
  · exact fromPrefix_ok_iff.mpr ⟨hTyped.instructions.take n, s, hs, rfl⟩
  · rw [countBefore_eq]
    exact List.length_map _
  · rw [countBefore_eq, length_values hFront]
  · rw [countBefore_eq, printed_var]
  · rw [countBefore_eq, length_mapping]
    rfl

theorem names_printed (texts : LiteralTexts) {p : Program}
    (hTyped : WellTyped p.context p.instructions) {n k v : Nat} {i : Instruction} {var : Variable}
    (hi : p.instructions[n]? = some i) (hv : i.inputs[k]? = some v)
    (hVar : i.operation.getInputVariables[k]? = some var) : NamesPrinted texts p n v var := by
  obtain ⟨d, hd, rfl, -⟩ := (hTyped.instructions n i hi).inputs k v var hv hVar
  have hLt := definition_take_lt hd
  obtain ⟨j, l, hj, hl, hv⟩ := exists_of_definition (definitions_take hd)
  rw [← countBefore_eq] at hv
  refine ⟨d.instruction, j, l, hLt, hj, hl, hv, ?_⟩
  rw [getElem?_names (List.getElem?_eq_some_iff.mp hl).1, printed_var, ← countBefore_eq, hv]

/-- In a program that compiles, the compiler goes on from any position. -/
theorem compileInstruction_of_compile {S : Sv2} {p : Program} {compiled : CompiledProgram}
    (hCompiled : Compiler.compile S p = .ok compiled) {n : Nat} {i : Instruction}
    (hi : p.instructions[n]? = some i) {c : Compiler}
    (hc : (Compiler.start p.context).compileInstructions S 0 (p.instructions.take n) = .ok c) :
    ∃ c', c.compileInstruction S n i = .ok c' := by
  obtain ⟨last, hAll, -⟩ := bind_ok hCompiled
  obtain ⟨hLt, hGet⟩ := List.getElem?_eq_some_iff.mp hi
  rw [← List.take_append_drop n p.instructions, List.drop_eq_getElem_cons hLt, hGet] at hAll
  obtain ⟨c₁, hFront, hRest⟩ := compileInstructions_append hAll
  obtain rfl := Except.ok.inj (hc.symm.trans hFront)
  obtain ⟨c', hStep, -⟩ := bind_ok hRest
  rw [Nat.zero_add, List.length_take, Nat.min_eq_left (Nat.le_of_lt hLt)] at hStep
  exact ⟨c', hStep⟩

/-- A nop with variables of both kinds, before a role that is connected to. -/
def phantoms : Program where
  context := ⟨1, 0, 0⟩
  instructions := [⟨[], .nop 2 1⟩, ⟨[], .loadRole 0⟩, ⟨[3], .connect⟩]

end Stratamoto
