import Stratamoto.IR.Concatenation
import Stratamoto.IR.ThinnedCompilation

/-!
# Stratamoto — dropping instructions

`without` and `remove_nops` of `lib.rs`: the instructions that are marked are
dropped, and the inputs of the others renumbered by a mapping that is computed
in one pass over the variables.

* `without_eq` — what is left is what is kept under the marking;
* `removeNops_preserves` — a valid program means the same without its nops.
-/

namespace Stratamoto

open Brackets Operation Marks

/-! ## `lib.rs` -/

/-- Map as many variables, all to be dropped or all to be kept; `kept` counts
the kept ones so far. -/
def mapVariables (dropped : Bool) : Nat → List Nat × Nat → List Nat × Nat
  | 0, s => s
  | outputs + 1, (mapping, kept) =>
    mapVariables dropped outputs (mapping ++ [kept], if dropped then kept else kept + 1)

/-- The number each variable has among those that are kept. -/
def Program.mapping (p : Program) (remove : List Bool) : List Nat × Nat :=
  p.instructions.zipIdx.foldl (fun s q =>
    mapVariables (remove.getD q.2 false)
      (q.1.operation.numOutputs + q.1.operation.numInnerOutputs) s) ([], 0)

/-- `mapping[*input]`. -/
def mapInput (mapping : List Nat) (input : Nat) : Except Panic Nat :=
  match mapping[input]? with
  | some v => .ok v
  | none => .error .indexOutOfBounds

/-- `without`: drop the marked instructions, renumbering the inputs of those that
remain. Inputs that referred to a dropped instruction's variables are left
pointing at whatever took their place. -/
def Program.without (p : Program) (remove : List Bool) : Except Panic Program := do
  let (mapping, _) := p.mapping remove
  let instructions ← (p.instructions.zipIdx.filter fun q => !remove.getD q.2 false).mapM fun q => do
    let inputs ← q.1.inputs.mapM (mapInput mapping)
    pure { q.1 with inputs }
  pure { p with instructions }

/-- Drop nop instructions. -/
def Program.removeNops (p : Program) : Except Panic Program :=
  p.without (p.instructions.map fun i => i.operation.isNop)

/-! ## The mapping -/

/-- The instructions, marked as kept where they are not to be removed. -/
def markedBy (remove : List Bool) (is : List Instruction) : Marking :=
  is.zipIdx.map fun q => (q.1, !remove.getD q.2 false)

@[simp] theorem wholeOf_markedBy (remove : List Bool) (is : List Instruction) :
    wholeOf (markedBy remove is) = is := by
  rw [wholeOf, markedBy, List.map_map]
  exact List.zipIdx_map_fst 0 is

@[simp] theorem length_markedBy (remove : List Bool) (is : List Instruction) :
    (markedBy remove is).length = is.length := by
  simp [markedBy]

theorem markedBy_snoc (remove : List Bool) (is : List Instruction) (i : Instruction) :
    markedBy remove (is ++ [i]) = markedBy remove is ++ [(i, !remove.getD is.length false)] := by
  simp [markedBy, List.zipIdx_append]

theorem take_markedBy (remove : List Bool) (is : List Instruction) (n : Nat) :
    (markedBy remove is).take n = markedBy remove (is.take n) := by
  refine List.ext_getElem? fun m => ?_
  simp only [markedBy, List.getElem?_take, List.getElem?_map, List.getElem?_zipIdx]
  split <;> rfl

theorem mapVariables_eq (dropped : Bool) (outputs : Nat) (mapping : List Nat) (kept : Nat) :
    mapVariables dropped outputs (mapping, kept) =
      (mapping ++ (List.range outputs).map fun k => if dropped then kept else kept + k,
        if dropped then kept else kept + outputs) := by
  induction outputs generalizing mapping kept with
  | zero => simp [mapVariables]
  | succ outputs ih =>
    rw [mapVariables, ih, List.range_succ_eq_map]
    cases dropped with
    | true => simp [Function.comp_def]
    | false => simp [Function.comp_def, Nat.add_assoc, Nat.add_comm 1]

theorem mapping_snoc (ctx : ProgramContext) (is : List Instruction) (i : Instruction)
    (remove : List Bool) :
    Program.mapping ⟨ctx, is ++ [i]⟩ remove =
      mapVariables (remove.getD is.length false) i.operation.numDefined
        (Program.mapping ⟨ctx, is⟩ remove) := by
  simp [Program.mapping, List.zipIdx_append, numDefined]

/-- **The mapping numbers the kept variables**, in one pass. -/
theorem mapping_eq (p : Program) (remove : List Bool) :
    p.mapping remove =
      ((List.range (definitions p.instructions).length).map (varAt (markedBy remove p.instructions)),
        (definitions (keptOf (markedBy remove p.instructions))).length) := by
  obtain ⟨ctx, is⟩ := p
  induction is using List.reverseRecOn with
  | nil => rfl
  | append_singleton is i ih =>
    dsimp only at ih ⊢
    set ms := markedBy remove is with hms
    have hWhole : (definitions (wholeOf ms)).length = (definitions is).length := by
      rw [hms, wholeOf_markedBy]
    -- the variables of the last instruction
    have hNew : ∀ k < i.operation.numDefined,
        varAt (ms ++ [(i, !remove.getD is.length false)]) ((definitions is).length + k) =
          if remove.getD is.length false then (definitions (keptOf ms)).length
          else (definitions (keptOf ms)).length + k := by
      intro k hk
      rw [varAt, ← hWhole, ← length_units_wholeOf, renumber_append_right, length_definitions_keptOf]
      cases remove.getD is.length false with
      | true =>
        have hNone : Marks.renumber (fun i : Instruction => i.operation.numDefined)
            [(i, false)] k = 0 := by
          simp [Marks.renumber, List.take_replicate, List.count_replicate]
        simp [hNone]
      | false =>
        have hAll : Marks.renumber (fun i : Instruction => i.operation.numDefined)
            [(i, true)] k = k := by
          simp [Marks.renumber, List.take_replicate, Nat.le_of_lt hk]
        simp [hAll]
    have hOld : ∀ v ∈ List.range (definitions is).length,
        varAt (ms ++ [(i, !remove.getD is.length false)]) v = varAt ms v := fun v hv =>
      varAt_append _ (by rw [hWhole]; exact Nat.le_of_lt (List.mem_range.mp hv))
    rw [mapping_snoc, ih, mapVariables_eq, markedBy_snoc, length_definitions_snoc, List.range_add,
      List.map_append, List.map_map, ← hms, List.map_congr_left hOld]
    refine Prod.ext ?_ ?_
    · show _ ++ _ = _ ++ _
      congr 1
      exact List.map_congr_left fun k hk => (hNew k (List.mem_range.mp hk)).symm
    · cases remove.getD is.length false with
      | true => rw [Bool.not_true, keptOf_snoc_dropped]; rfl
      | false => rw [Bool.not_false, keptOf_snoc, length_definitions_snoc]; rfl

/-! ## What is left -/

theorem mapM_ok {α β ε : Type} {f : α → Except ε β} {g : α → β} {l : List α}
    (h : ∀ a ∈ l, f a = .ok (g a)) : l.mapM f = .ok (l.map g) := by
  induction l with
  | nil => rfl
  | cons a l ih =>
    rw [List.mapM_cons, h a (List.mem_cons_self ..), ih fun b hb => h b (List.mem_cons_of_mem _ hb)]
    rfl

/-- The kept instructions, their inputs mapped one by one. -/
theorem keptOf_markedBy (remove : List Bool) {is : List Instruction} {f : Nat → Nat}
    (hf : ∀ (n : Nat) (i : Instruction), is[n]? = some i → ∀ v ∈ i.inputs,
      f v = varAt (markedBy remove (is.take n)) v) :
    (is.zipIdx.filter fun q => !remove.getD q.2 false).map
        (fun q => ({ q.1 with inputs := q.1.inputs.map f } : Instruction)) =
      keptOf (markedBy remove is) := by
  induction is using List.reverseRecOn with
  | nil => rfl
  | append_singleton is i ih =>
    have hOld := ih fun n j hj v hv => by
      have hLt := (List.getElem?_eq_some_iff.mp hj).1
      have := hf n j (by rw [List.getElem?_append_left hLt, hj]) v hv
      rwa [List.take_append_of_le_length (Nat.le_of_lt hLt)] at this
    -- the last instruction reads from what stands before it
    have hLast : i.inputs.map f = i.inputs.map (varAt (markedBy remove is)) :=
      List.map_congr_left fun v hv => by
        simpa using hf is.length i List.getElem?_concat_length v hv
    have hSingle : [i].zipIdx (0 + is.length) = [(i, is.length)] := by simp
    rw [List.zipIdx_append, hSingle, List.filter_append, List.map_append, hOld, markedBy_snoc]
    cases hRemove : remove.getD is.length false with
    | true =>
      rw [Bool.not_true, keptOf_snoc_dropped, List.filter_cons_of_neg (by simp only [hRemove]; decide),
        List.filter_nil, List.map_nil, List.append_nil]
    | false =>
      rw [Bool.not_false, keptOf_snoc, List.filter_cons_of_pos (by simp only [hRemove]; decide),
        List.filter_nil, List.map_cons, List.map_nil, hLast]
      rfl

/-- What an instruction reads was defined before it, so its number does not depend
on what comes after. -/
theorem varAt_of_scoped {is : List Instruction} (h : Scoped is) (remove : List Bool) {n : Nat}
    {i : Instruction} (hi : is[n]? = some i) {v : Nat} (hv : v ∈ i.inputs) :
    v < (definitions is).length ∧
      varAt (markedBy remove is) v = varAt (markedBy remove (is.take n)) v := by
  have hLt : v < (definitions (is.take n)).length := h n i hi v hv
  have hLength := length_definitions_append (is.take n) (is.drop n)
  rw [List.take_append_drop] at hLength
  refine ⟨by omega, ?_⟩
  rw [← take_markedBy, varAt_take]
  rw [wholeOf_take, wholeOf_markedBy]
  exact Nat.le_of_lt hLt

/-- **`without` keeps what the marking keeps**, where every input is a variable
of an earlier instruction. -/
theorem without_eq {p : Program} (h : Scoped p.instructions) (remove : List Bool) :
    p.without remove = .ok ⟨p.context, keptOf (markedBy remove p.instructions)⟩ := by
  obtain ⟨ctx, is⟩ := p
  set ms := markedBy remove is with hms
  -- the source's mapping is total on the variables there are
  have hMapping : ∀ v, v < (definitions is).length →
      mapInput ((List.range (definitions is).length).map (varAt ms)) v = .ok (varAt ms v) := by
    intro v hv
    rw [mapInput, List.getElem?_map, List.getElem?_range hv]
    rfl
  have hAll := mapM_ok (l := is.zipIdx.filter fun q => !remove.getD q.2 false)
    (f := fun q => do
      let inputs ← q.1.inputs.mapM
        (mapInput ((List.range (definitions is).length).map (varAt ms)))
      pure ({ q.1 with inputs } : Instruction))
    (g := fun q => ({ q.1 with inputs := q.1.inputs.map (varAt ms) } : Instruction)) fun q hq => by
      have hi := List.mem_zipIdx_iff_getElem?.mp (List.mem_of_mem_filter hq)
      rw [mapM_ok fun v hv => hMapping v (varAt_of_scoped h remove hi hv).1]
      rfl
  rw [Program.without, mapping_eq]
  dsimp only at hAll ⊢
  rw [hAll, keptOf_markedBy remove fun n i hi v hv => (varAt_of_scoped h remove hi hv).2]
  rfl

/-! ## Nops -/

/-- The instructions, nops marked as dropped. -/
def nopMarks (is : List Instruction) : Marking := is.map fun i => (i, !i.operation.isNop)

@[simp] theorem wholeOf_nopMarks (is : List Instruction) : wholeOf (nopMarks is) = is := by
  simp [wholeOf, nopMarks, Function.comp_def]

theorem nopMarks_eq (is : List Instruction) :
    nopMarks is = markedBy (is.map fun i => i.operation.isNop) is := by
  refine List.ext_getElem? fun n => ?_
  simp only [nopMarks, markedBy, List.getElem?_map, List.getElem?_zipIdx, List.getD_eq_getElem?_getD]
  cases hi : is[n]? with
  | none => rfl
  | some i => simp [hi]

theorem getElem?_nopMarks {is : List Instruction} {n : Nat} {i : Instruction} {b : Bool} :
    (nopMarks is)[n]? = some (i, b) ↔ is[n]? = some i ∧ b = !i.operation.isNop := by
  rw [nopMarks, List.getElem?_map, Option.map_eq_some_iff]
  constructor
  · rintro ⟨j, hj, hEq⟩
    obtain ⟨rfl, rfl⟩ := Prod.mk.inj hEq
    exact ⟨hj, rfl⟩
  · rintro ⟨hi, rfl⟩
    exact ⟨i, hi, rfl⟩

theorem take_nopMarks (is : List Instruction) (n : Nat) :
    (nopMarks is).take n = nopMarks (is.take n) := List.map_take.symm

/-- Nops stand outside of the blocks. -/
theorem respects_nopMarks (is : List Instruction) : Respects (nopMarks is) := by
  induction is using List.reverseRecOn with
  | nil => exact .nil
  | append_singleton is i ih =>
    have hSnoc : nopMarks (is ++ [i]) = nopMarks is ++ [(i, !i.operation.isNop)] := by
      simp [nopMarks]
    rw [hSnoc]
    cases hNop : i.operation.isNop with
    | false => exact ih.keep i
    | true =>
      have hPlain : Balanced (brackets [i]) := by
        obtain ⟨inputs, op⟩ := i
        cases op <;> first | exact .plain .nil | cases hNop
      exact ih.drop hPlain

/-- **No nop has to do with the rest**: it reads nothing, and what it defines
cannot be named. -/
theorem separated_nopMarks {ctx : ProgramContext} {is : List Instruction}
    (hTyped : WellTypedPrefix ctx is) : Separated (nopMarks is) := by
  -- what is dropped is a nop, which reads nothing and loads nothing
  have hNopOp : ∀ {i : Instruction}, false = !i.operation.isNop → ∃ outputs innerOutputs,
      i.operation = .nop outputs innerOutputs := by
    rintro ⟨inputs, op⟩ hNop
    cases op <;> first | exact ⟨_, _, rfl⟩ | cases hNop
  refine ⟨respects_nopMarks is, fun n i hn v hv => ?_, fun n i hn v hv => ?_,
    fun n n' c i i' hn hn' hLoad hLoad' => ?_⟩
  · obtain ⟨hi, -⟩ := getElem?_nopMarks.mp hn
    have hAfter := hTyped n i hi
    obtain ⟨k, hk⟩ := List.mem_iff_getElem?.mp hv
    have hLt := (List.getElem?_eq_some_iff.mp hk).1
    rw [hAfter.arity] at hLt
    obtain ⟨d, hd, -, hVisible⟩ := hAfter.inputs k v _ hk (List.getElem?_eq_getElem hLt)
    obtain ⟨j, hj, -⟩ := mem_definitions (List.mem_of_getElem? hd)
    rw [take_nopMarks, (definition_keptOf (by rwa [wholeOf_nopMarks])).1, keptAt_iff]
    exact ⟨j, getElem?_nopMarks.mpr ⟨hj, by rw [hVisible.1 j hj]; rfl⟩⟩
  · obtain ⟨hi, hNop⟩ := getElem?_nopMarks.mp hn
    obtain ⟨outputs, innerOutputs, hOp⟩ := hNopOp hNop
    have hArity := (hTyped n i hi).arity
    rw [hOp] at hArity
    rw [List.length_eq_zero_iff.mp hArity] at hv
    cases hv
  · obtain ⟨-, hNop⟩ := getElem?_nopMarks.mp hn'
    obtain ⟨outputs, innerOutputs, hOp⟩ := hNopOp hNop
    rw [hOp] at hLoad'
    cases hLoad'

/-! ## What a nop does not change -/

section Counted

variable {ctx : ProgramContext} {is : List Instruction} {weight : Operation → Nat}

/-- What nops do not count for keeps its number. -/
theorem totalAt_nopMarks (hNop : ∀ op : Operation, op.isNop = true → weight op = 0) {k : Nat}
    (hk : k ≤ total weight is) : totalAt weight (nopMarks is) k = k := by
  refine renumber_eq_self (fun p hp hDropped => ?_) ?_
  · obtain ⟨i, -, rfl⟩ := List.mem_map.mp hp
    exact hNop _ (by simpa using hDropped)
  · rwa [length_units_total, wholeOf_nopMarks]

theorem nop_cases {op : Operation} (h : op.isNop = true) :
    ∃ outputs innerOutputs, op = .nop outputs innerOutputs := by
  cases op <;> first | exact ⟨_, _, rfl⟩ | cases h

theorem connectionAt_nopMarks {c : Nat} (hc : KeptConnection ctx (nopMarks is) c) :
    connectionAt ctx (nopMarks is) c = c := by
  rcases hc with hLt | ⟨hGe, hUnit⟩
  · exact connectionAt_of_lt _ hLt
  · obtain ⟨k, rfl⟩ := Nat.exists_eq_add_of_le hGe
    have hk := hUnit.lt
    rw [length_units_total (fun op => if op = .connect then 1 else 0), wholeOf_nopMarks,
      Nat.add_sub_cancel_left] at hk
    rw [connectionAt_add, totalAt_nopMarks (fun op hop => ?_) (Nat.le_of_lt hk)]
    obtain ⟨outputs, innerOutputs, rfl⟩ := nop_cases hop
    rfl

theorem sessionAt_nopMarks {k : Nat} (hk : KeptSession (nopMarks is) k) :
    sessionAt (nopMarks is) k = k := by
  have hLt := Kept.lt hk
  rw [length_units_total (fun op => if op.isSendSetup then 1 else 0), wholeOf_nopMarks] at hLt
  refine totalAt_nopMarks (fun op hop => ?_) (Nat.le_of_lt hLt)
  obtain ⟨outputs, innerOutputs, rfl⟩ := nop_cases hop
  rfl

theorem actionAt_nopMarks {a : Nat} (ha : KeptAction (nopMarks is) a) :
    actionAt (nopMarks is) a = a := by
  have hLt := Kept.lt ha
  rw [length_units_total Operation.numActions, wholeOf_nopMarks] at hLt
  refine totalAt_nopMarks (fun op hop => ?_) (Nat.le_of_lt hLt)
  obtain ⟨outputs, innerOutputs, rfl⟩ := nop_cases hop
  rfl

theorem action_nopMarks {a : Action} (ha : a.KeptIds ctx (nopMarks is)) :
    a.renumber ctx (nopMarks is) = a := by
  cases a with
  | connect c role => rw [Action.renumber, connectionAt_nopMarks (Provides.kept ha)]
  | send c extensionType messageType channelMsg payload =>
    rw [Action.renumber, connectionAt_nopMarks (Provides.kept ha)]
  | awaitSetupResponse c k protocol first =>
    rw [Action.renumber, connectionAt_nopMarks ha.1.kept, sessionAt_nopMarks ha.2]
  | enterOnSetupSuccess k exit =>
    rw [Action.renumber, sessionAt_nopMarks ha.1, actionAt_nopMarks ha.2]
  | exitBlock => rfl
  | advanceTime duration => rfl
  | probe => rfl

/-- Nops have no actions, so all actions are kept. -/
theorem select_nopMarks {β : Type} {l : List β} (hl : l.length = actionCount is) :
    select (actionMarks (nopMarks is)) l = l := by
  have hAll : actionMarks (nopMarks is) = List.replicate l.length true := by
    rw [hl, actionMarks, units_eq_replicate, length_units_total Operation.numActions,
      wholeOf_nopMarks]
    · rfl
    · intro p hp hDropped
      obtain ⟨i, -, rfl⟩ := List.mem_map.mp hp
      obtain ⟨outputs, innerOutputs, hOp⟩ := nop_cases (by simpa using hDropped)
      rw [hOp]
      rfl
  rw [hAll, select_replicate]
  rfl

end Counted

/-- Two compiled programs do the same: they differ in the indices of the
instructions and the variables that the metadata names, as `variable` and
`instruction` say. -/
structure SameButIndices (var instruction : Nat → Nat) (compiled compiled' : CompiledProgram) :
    Prop where
  context : compiled'.context = compiled.context
  actions : compiled'.actions = compiled.actions
  actionInstructions : compiled'.metadata.actionInstructions =
    compiled.metadata.actionInstructions.map instruction
  connectionVariables : ∀ c, compiled'.metadata.connectionVariables.lookup c =
    (compiled.metadata.connectionVariables.lookup c).map var
  sessionVariables : ∀ k, compiled'.metadata.sessionVariables.lookup k =
    (compiled.metadata.sessionVariables.lookup k).map var
  sessionSetups : ∀ k, compiled'.metadata.sessionSetups.lookup k =
    compiled.metadata.sessionSetups.lookup k
  violations : ∀ a, compiled'.metadata.violations.lookup a =
    compiled.metadata.violations.lookup a

/-- Where every key is kept as it is, a map keeps all its entries. -/
theorem KeptEntries.lookup {β : Type} {keptKey : Nat → Prop} {key : Nat → Nat} {keptVal : β → Prop}
    {val : β → β} {m m' : HashMap β} (h : KeptEntries keptKey key keptVal val m m')
    (hKept : ∀ k v, m.lookup k = some v → keptKey k) (hKey : ∀ k, keptKey k → key k = k) (k : Nat) :
    m'.lookup k = (m.lookup k).map val := by
  refine Option.ext fun v' => ?_
  rw [h.entries k v', Option.map_eq_some_iff]
  constructor
  · rintro ⟨k₀, v, hk₀, hLookup, rfl, rfl⟩
    exact ⟨v, by rw [hKey k₀ hk₀]; exact hLookup, rfl⟩
  · rintro ⟨v, hLookup, rfl⟩
    have hk := hKept k v hLookup
    exact ⟨k, v, hk, hLookup, hKey k hk, rfl⟩

/-- **A program compiles to the same without its nops.** -/
theorem sameButIndices_nopMarks {S : Sv2} (hS : S.Lawful) {ctx : ProgramContext}
    {is : List Instruction} (hTyped : WellTyped ctx is) {compiled : CompiledProgram}
    (hCompile : Compiler.compile S ⟨ctx, is⟩ = .ok compiled) :
    ∃ compiled', Compiler.compile S ⟨ctx, keptOf (nopMarks is)⟩ = .ok compiled' ∧
      SameButIndices (varAt (nopMarks is)) (positionAt (nopMarks is)) compiled compiled' := by
  have hSeparated := separated_nopMarks hTyped.instructions
  rcases compile_cases hS hTyped with ⟨-, m, hm, hOk⟩ | ⟨v, -, hError⟩
  · obtain rfl := Except.ok.inj (hOk.symm.trans hCompile)
    have hWhole : Compiler.compile S ⟨ctx, wholeOf (nopMarks is)⟩ =
        .ok ⟨ctx, actionsOf S ctx is, m⟩ := by
      rw [wholeOf_nopMarks]
      exact hCompile
    obtain ⟨compiled', hCompile', hKept⟩ :=
      compiled_keptOf hS (by rwa [wholeOf_nopMarks]) hSeparated hWhole
    -- an instruction that makes an entry is no nop
    have hMark : ∀ {n : Nat} {i : Instruction}, is[n]? = some i → i.operation.isNop = false →
        (nopMarks is)[n]? = some (i, true) := fun hi hNop =>
      getElem?_nopMarks.mpr ⟨hi, by rw [hNop]; rfl⟩
    have hSend : ∀ {op : Operation}, op.isSendSetup = true → op.isNop = false := by
      intro op hSend
      obtain ⟨protocol, rfl⟩ := isSendSetup_iff.mp hSend
      rfl
    have hSessions : ∀ {β : Type} {get : List Instruction → Instruction → β} {sessions : HashMap β},
        MadeBy is (sessionEntry get) sessions →
        ∀ k v, sessions.lookup k = some v → KeptSession (nopMarks is) k := by
      intro β get sessions hs k v hLookup
      obtain ⟨n, i, hi, hEntry⟩ := (hs k v).mp hLookup
      obtain ⟨hOp, rfl, -⟩ := sessionEntry_eq_some.mp hEntry
      simpa using (keptSession_iff (hMark hi (hSend hOp)) hOp).mpr rfl
    refine ⟨compiled', hCompile', hKept.context, ?_, ?_,
      hKept.connectionVariables.lookup (fun k v hLookup => ?_) fun k hk => connectionAt_nopMarks hk,
      hKept.sessionVariables.lookup (hSessions hm.sessionVariables) fun k hk =>
        sessionAt_nopMarks hk,
      fun k => ?_, fun a => ?_⟩
    · have hIds := hKept.ids
      rw [hKept.actions]
      rw [select_nopMarks (length_actionsOf S ctx is)] at hIds ⊢
      exact map_eq_self fun a ha => action_nopMarks (hIds a ha)
    · have hLength : m.actionInstructions.length = actionCount is := by
        rw [hm.actionInstructions, length_actionInstructionsOf]
      rw [hKept.actionInstructions, select_nopMarks hLength]
    · obtain ⟨n, i, hi, hEntry⟩ := (hm.connectionVariables k v).mp hLookup
      obtain ⟨hOp, rfl, -⟩ := connectionEntry_eq_some.mp hEntry
      simpa using (keptConnection_iff (hMark hi (by rw [hOp]; rfl)) hOp).mpr rfl
    · rw [hKept.sessionSetups.lookup (hSessions hm.sessionSetups) fun k hk =>
        sessionAt_nopMarks hk]
      exact Option.map_id_fun ▸ rfl
    · rw [hKept.violations.lookup (fun a v hLookup => ?_) fun a ha => actionAt_nopMarks ha]
      · exact Option.map_id_fun ▸ rfl
      · obtain ⟨n, i, hi, hEntry⟩ := (hm.violations a v).mp hLookup
        obtain ⟨hOp, rfl, -⟩ := violationEntry_eq_some.mp hEntry
        obtain ⟨protocol, hSetup⟩ := isSendSetup_iff.mp hOp
        have hTwo : 1 < i.operation.numActions := by
          rw [hSetup]
          exact Nat.one_lt_two
        simpa using (keptAction_iff (hMark hi (hSend hOp)) hTwo).mpr rfl
  · cases hError.symm.trans hCompile

/-- A program without its nops is a program, with none left. -/
theorem removeNops_typed {ctx : ProgramContext} {is : List Instruction} (hTyped : WellTyped ctx is) :
    Program.removeNops ⟨ctx, is⟩ = .ok ⟨ctx, keptOf (nopMarks is)⟩ ∧
      WellTyped ctx (keptOf (nopMarks is)) ∧
      ∀ i ∈ keptOf (nopMarks is), i.operation.isNop = false := by
  have hSeparated := separated_nopMarks hTyped.instructions
  refine ⟨?_, wellTyped_keptOf hSeparated.respects hSeparated.keeps (by rwa [wholeOf_nopMarks]),
    fun i hi => ?_⟩
  · rw [Program.removeNops, without_eq hTyped.instructions.scoped, ← nopMarks_eq]
  · -- what is kept is no nop
    obtain ⟨m, hm⟩ := List.mem_iff_getElem?.mp hi
    obtain ⟨n, j, hn, -, rfl⟩ := exists_of_getElem?_keptOf hm
    simpa using (getElem?_nopMarks.mp hn).2

/-- Where there are no nops, none is dropped. -/
theorem removeNops_of_none (ctx : ProgramContext) {is : List Instruction} (hScoped : Scoped is)
    (hNone : ∀ i ∈ is, i.operation.isNop = false) :
    Program.removeNops ⟨ctx, is⟩ = .ok ⟨ctx, is⟩ := by
  have hAll : nopMarks is = markAll true is :=
    List.map_congr_left fun i hi => by rw [hNone i hi]; rfl
  rw [Program.removeNops, without_eq hScoped, ← nopMarks_eq, hAll, keptOf_markAll hScoped]

/-- **Dropping nops preserves meaning.** A valid program without its nops is
valid and has none left, and it compiles to the same, or is refused for the same
setup, with variables and instructions renumbered in their order. -/
theorem removeNops_preserves {S : Sv2} (hS : S.Lawful) {p : Program}
    (hValid : p.isStaticallyValid = .ok true) :
    ∃ q, p.removeNops = .ok q ∧ q = ⟨p.context, keptOf (nopMarks p.instructions)⟩ ∧
      q.isStaticallyValid = .ok true ∧ (∀ i ∈ q.instructions, i.operation.isNop = false) ∧
      q.removeNops = .ok q ∧
      (∀ compiled, Compiler.compile S p = .ok compiled →
        ∃ compiled', Compiler.compile S q = .ok compiled' ∧
          SameButIndices (varAt (nopMarks p.instructions)) (positionAt (nopMarks p.instructions))
            compiled compiled') ∧
      ∀ e, Compiler.compile S p = .error e → ∃ v, e = .error (.stringTooLong v) ∧
        Compiler.compile S q =
          .error (.error (.stringTooLong (varAt (nopMarks p.instructions) v))) := by
  have hTyped := isStaticallyValid_iff.mp hValid
  have hSeparated := separated_nopMarks hTyped.instructions
  obtain ⟨hRemove, hTypedKept, hNone⟩ := removeNops_typed hTyped
  refine ⟨_, hRemove, rfl, isStaticallyValid_iff.mpr hTypedKept, hNone,
    removeNops_of_none _ hTypedKept.instructions.scoped hNone, ?_, ?_⟩
  · intro compiled hCompile
    exact sameButIndices_nopMarks hS hTyped hCompile
  · intro e hError
    rcases compile_cases hS hTyped with ⟨-, m, -, hOk⟩ | ⟨v, hFirst, hRefused⟩
    · cases hOk.symm.trans hError
    · refine ⟨v, (Except.error.inj (hRefused.symm.trans hError)).symm, ?_⟩
      -- a nop loads no string, so the load that is refused is kept
      have hFirstKept : FirstTooLong p.context (keptOf (nopMarks p.instructions))
          (varAt (nopMarks p.instructions) v) := by
        refine firstTooLong_keptOf (by rw [wholeOf_nopMarks]; exact hTyped.instructions) hSeparated
          (fun n i hn => ?_) (by rwa [wholeOf_nopMarks])
        obtain ⟨-, hNop⟩ := getElem?_nopMarks.mp hn
        obtain ⟨outputs, innerOutputs, hOp⟩ := nop_cases (by simpa using hNop.symm)
        rw [hOp]
        rfl
      exact ((compile_of_valid S hS _ (isStaticallyValid_iff.mpr hTypedKept)).1 _).mpr hFirstKept

/-- A client that connects, with the nop of an instruction that was not needed. -/
def noppedConnect : Program where
  context := ⟨1, 0, 0⟩
  instructions := [⟨[], .nop 1 0⟩, ⟨[], .loadRole 0⟩, ⟨[1], .connect⟩]

theorem removeNops_preserves_noppedConnect : ∃ q compiled', noppedConnect.removeNops = .ok q ∧
    Compiler.compile Sv2.wire q = .ok compiled' ∧ compiled'.actions = [.connect 0 0] ∧
      compiled'.metadata.actionInstructions = [1] := by
  obtain ⟨compiled, hCompile⟩ : ∃ compiled,
      Compiler.compile Sv2.wire noppedConnect = .ok compiled := ⟨_, rfl⟩
  obtain ⟨q, hRemove, -, -, -, -, hSame, -⟩ :=
    removeNops_preserves Sv2.wire_lawful (p := noppedConnect) (by decide)
  obtain ⟨compiled', hCompile', hBut⟩ := hSame compiled hCompile
  cases hCompile
  exact ⟨q, compiled', hRemove, hCompile', hBut.actions, hBut.actionInstructions⟩

end Stratamoto
