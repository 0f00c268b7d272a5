import Stratamoto.IR.Generators
import Stratamoto.IR.Thinning

/-!
# Stratamoto — what the generators append

Every generator, run on a builder that accepted some instructions, appends a
fragment that the typing discipline accepts there, and leaves the blocks that
were open; the only call of it that can be rejected loads a role the deployment
does not have.

* `append_ok` — the variables a call returns, where the instruction is well typed;
* `Live is home v` — a variable with its scope, which no later call changes;
* `Builds ctx mayFail g is s Q` — running `g` appends as `Q` says, or fails;
* `connectionFragment`, `setupFragment` — the fragments, instruction by instruction;
* `builds_generate` — one spec for each of the three generators.
-/

namespace Stratamoto

open Brackets Operation Draws Gen

/-! ## One call -/

/-- The builder has accepted `is`, and the blocks `s` are open. -/
structure Building (ctx : ProgramContext) (is : List Instruction) (s : List (Nat × BlockKind)) :
    Prop where
  stack : openStack (brackets is) = some s
  typed : WellTypedPrefix ctx is

/-- The variables an operation defines after `is`. -/
def newVariables (is : List Instruction) (op : Operation) : List IndexedVariable :=
  (op.getOutputVariables ++ op.getInnerOutputVariables).mapIdx fun n var =>
    ⟨var, (definitions is).length + n⟩

theorem vars_of_definitions (i : Instruction) (n : Nat) :
    (i.definitions n).map Definition.var =
      i.operation.getOutputVariables ++ i.operation.getInnerOutputVariables := by
  simp [Instruction.definitions, Function.comp_def]

/-- What a call returns: the variables behind those there were. -/
theorem define_vars {b b' : ProgramBuilder} {i : Instruction} {vars : List IndexedVariable}
    (h : b.define i = .ok (vars, b')) :
    vars = (b'.vars.drop b.vars.length).mapIdx fun n v => ⟨v.var, b.vars.length + n⟩ := by
  unfold ProgramBuilder.define at h
  cases hScope : b.outputScopeId i.operation with
  | error panic => simp [hScope, bind, Except.bind] at h
  | ok scope =>
    cases hOpen : (b.addVariables scope i.operation.getOutputVariables).openBlock i with
    | error panic => simp [hScope, hOpen, bind, Except.bind] at h
    | ok b₁ =>
      simp only [hScope, hOpen, bind, Except.bind, Except.ok.injEq, Prod.mk.injEq] at h
      rw [← h.1, ← h.2]

/-- **A well typed instruction is appended**, and its variables returned. -/
theorem append_ok {ctx : ProgramContext} {is : List Instruction} {s s' : List (Nat × BlockKind)}
    (hs : openStack (brackets is) = some s) {i : Instruction} (hAfter : WellTypedAfter ctx is i)
    (hStep : step is.length s i.operation.bracket = some s') :
    (builderAt ctx is s).append i =
      .ok (.ok (newVariables is i.operation), builderAt ctx (is ++ [i]) s') := by
  have hCheck := (checkInstruction_ok_iff hs).mpr hAfter
  have hClose : (builderAt ctx is s).closeBlock i.operation = _ := closeBlock_builderAt hs hStep
  rcases append_cases ctx hs i with ⟨-, s₂, vars, hStep₂, hAppend⟩ | ⟨hNot, -⟩ |
    ⟨-, n, k, k', s₂, e, hb, hNe, rfl, -⟩ | ⟨rfl, rfl, -⟩
  · obtain rfl : s' = s₂ := Option.some.inj (hStep.symm.trans hStep₂)
    rw [hAppend]
    unfold ProgramBuilder.append at hAppend
    rw [hCheck] at hAppend
    simp only [hClose, bind, Except.bind] at hAppend
    -- only the variables are left to compute
    cases hDefine : (builderAt ctx is (if i.operation.isBlockEnd then s' else s)).define i with
    | error panic => simp [hDefine] at hAppend
    | ok result =>
      obtain ⟨vars', b'⟩ := result
      simp only [hDefine, Except.ok.injEq, Prod.mk.injEq] at hAppend
      obtain ⟨rfl, rfl⟩ := hAppend
      have hLen : ∀ t, (builderAt ctx is t).vars.length = (definitions is).length := fun t =>
        List.length_map _
      have hNew : ((builderAt ctx (is ++ [i]) s').vars.drop (definitions is).length).map
          ScopedVariable.var =
          i.operation.getOutputVariables ++ i.operation.getInnerOutputVariables := by
        rw [← vars_of_definitions i is.length]
        simp only [builderAt, ← List.map_drop, List.map_map]
        rw [definitions_snoc, List.drop_left]
        rfl
      have hVars := define_vars hDefine
      rw [hLen] at hVars
      rw [hVars, newVariables, ← hNew]
      exact congrArg (fun vars => Except.ok (Except.ok vars, _))
        (List.ext_getElem? fun n => by simp [List.getElem?_mapIdx, Function.comp_def])
  · exact absurd hAfter hNot
  · rw [hb] at hStep
    simp [step, hNe] at hStep
  · simp [step, bracket] at hStep

/-! ## Variables and their scopes -/

/-- The variable `v`, in the scope `home`. -/
def Live (is : List Instruction) (home : Option Nat) (v : IndexedVariable) : Prop :=
  ∃ d, (definitions is)[v.index]? = some d ∧ d.var = v.var ∧ v.var ≠ .nop ∧ homeOf is d = home

variable {ctx : ProgramContext} {is : List Instruction} {s s' : List (Nat × BlockKind)}

theorem Live.mono {home : Option Nat} {v : IndexedVariable} (h : Live is home v)
    {is' : List Instruction} (hPrefix : is <+: is') : Live is' home v := by
  obtain ⟨l, rfl⟩ := hPrefix
  obtain ⟨d, hd, hVar, hNop, hHome⟩ := h
  have hLt := (List.getElem?_eq_some_iff.mp hd).1
  exact ⟨d, by rw [definitions_append_left l hLt, hd], hVar, hNop,
    by rw [homeOf_append l (definition_lt hd), hHome]⟩

theorem Live.names {home : Option Nat} {v : IndexedVariable} (h : Live is home v)
    (hs : openStack (brackets is) = some s) (hOpen : ∀ b, home = some b → b ∈ s.map Prod.fst) :
    Names is v.index v.var := by
  obtain ⟨d, hd, hVar, hNop, rfl⟩ := h
  exact ⟨d, hd, hVar, (visible_iff hs hd).mpr ⟨hVar ▸ hNop, hOpen⟩⟩

/-- A name is a variable in a scope that is open. -/
theorem Names.live {v : Nat} {var : Variable} (h : Names is v var)
    (hs : openStack (brackets is) = some s) :
    ∃ home, Live is home ⟨var, v⟩ ∧ ∀ b, home = some b → b ∈ s.map Prod.fst := by
  obtain ⟨d, hd, rfl, hVisible⟩ := h
  obtain ⟨hNop, hOpen⟩ := (visible_iff hs hd).mp hVisible
  exact ⟨homeOf is d, ⟨d, hd, rfl, hNop, rfl⟩, hOpen⟩

/-- The output of an instruction lives where the instruction leaves the builder. -/
theorem live_output {i : Instruction} (hs' : openStack (brackets (is ++ [i])) = some s')
    {var : Variable} (hOut : i.operation.getOutputVariables = [var]) (hNop : var ≠ .nop) :
    Live (is ++ [i]) (s'.head?.map Prod.fst) ⟨var, (definitions is).length⟩ := by
  refine ⟨⟨is.length, false, var⟩, ?_, rfl, hNop, homeOf_last hs' var⟩
  rw [definitions_snoc, List.getElem?_append_right (Nat.le_refl _), Nat.sub_self]
  simp [Instruction.definitions, hOut]

/-- An inner output lives in the block its instruction begins. -/
theorem live_inner {i : Instruction} {var : Variable} (hOut : i.operation.getOutputVariables = [])
    (hIn : i.operation.getInnerOutputVariables = [var]) (hNop : var ≠ .nop) :
    Live (is ++ [i]) (some is.length) ⟨var, (definitions is).length⟩ := by
  refine ⟨⟨is.length, true, var⟩, ?_, rfl, hNop, by simp [homeOf]⟩
  rw [definitions_snoc, List.getElem?_append_right (Nat.le_refl _), Nat.sub_self]
  simp [Instruction.definitions, hOut, hIn]

/-- A variable whose scope is open. -/
def InScope (is : List Instruction) (s : List (Nat × BlockKind)) (v : IndexedVariable) : Prop :=
  ∃ home, Live is home v ∧ ∀ b, home = some b → b ∈ s.map Prod.fst

theorem InScope.mono {v : IndexedVariable} (h : InScope is s v) (is' : List Instruction)
    (hPrefix : is <+: is') (hOpen : ∀ p ∈ s, p ∈ s') : InScope is' s' v := by
  obtain ⟨home, hLive, hHome⟩ := h
  refine ⟨home, hLive.mono hPrefix, fun b hb => ?_⟩
  obtain ⟨p, hp, rfl⟩ := List.mem_map.mp (hHome b hb)
  exact List.mem_map_of_mem (hOpen p hp)

theorem inScope_iff_names (hs : openStack (brackets is) = some s) {v : IndexedVariable} :
    InScope is s v ↔ Names is v.index v.var := by
  constructor
  · rintro ⟨home, hLive, hOpen⟩
    exact hLive.names hs hOpen
  · intro h
    exact h.live hs

/-- The variable of an instruction that defines just one is in scope after it. -/
theorem inScope_new {i : Instruction} {var : Variable}
    (hStep : step is.length s i.operation.bracket = some s')
    (hs' : openStack (brackets (is ++ [i])) = some s')
    (hOne : i.operation.getOutputVariables ++ i.operation.getInnerOutputVariables = [var])
    (hNop : i.operation.isNop = false) :
    InScope (is ++ [i]) s' ⟨var, (definitions is).length⟩ := by
  have hMem : var ∈ i.operation.getOutputVariables ++ i.operation.getInnerOutputVariables := by
    rw [hOne]
    exact List.mem_singleton_self var
  rcases List.append_eq_singleton_iff.mp hOne with ⟨hOut, hIn⟩ | ⟨hOut, hIn⟩
  · -- an inner output: the instruction begins a block
    have hBegin : i.operation.isBlockBegin = true := by
      by_contra h
      rw [getInnerOutputVariables_of_not_begin (by simpa using h) hNop] at hIn
      cases hIn
    obtain ⟨k, hk⟩ := isBlockBegin_iff.mp hBegin
    rw [hk] at hStep
    obtain rfl := Option.some.inj hStep
    have hNe : var ≠ .nop := var_ne_nop (n := is.length) (d := ⟨is.length, true, var⟩)
      (mem_definitions_of.mpr ⟨rfl, by simp [hIn]⟩) hNop
    exact ⟨_, live_inner hOut hIn hNe, fun b hb => by simp [← Option.some.inj hb]⟩
  · -- an output lives in the scope that is open behind the instruction
    have hNe : var ≠ .nop := var_ne_nop (n := is.length) (d := ⟨is.length, false, var⟩)
      (mem_definitions_of.mpr ⟨rfl, by simp [hOut]⟩) hNop
    refine ⟨_, live_output hs' hOut hNe, fun b hb => ?_⟩
    obtain ⟨p, hp, rfl⟩ := Option.map_eq_some_iff.mp hb
    exact List.mem_map_of_mem (List.mem_of_head? hp)

/-- The builder hands out a variable exactly where its index names one. -/
theorem getVariable_eq_some_iff (ctx : ProgramContext) (hs : openStack (brackets is) = some s)
    {v : Nat} {w : IndexedVariable} :
    (builderAt ctx is s).getVariable v = some w ↔ w.index = v ∧ Names is v w.var := by
  unfold ProgramBuilder.getVariable
  have hVars : (builderAt ctx is s).vars[v]? = ((definitions is)[v]?).map (scopedVariable is) :=
    List.getElem?_map
  rw [hVars]
  obtain ⟨var, index⟩ := w
  cases hd : (definitions is)[v]? with
  | none => simp [Names, hd]
  | some d =>
    have hActive := mem_activeScopesSet_iff ctx hs hd
    have hVar : (scopedVariable is d).var = d.var := rfl
    simp only [Option.map_some]
    -- an active scope is one in which the variable is visible
    by_cases hVisible : Visible is d
    · rw [if_pos (hActive.mpr hVisible)]
      simp [Names, hd, hVisible, hVar, eq_comm, and_comm]
    · rw [if_neg (mt hActive.mp hVisible)]
      simp [Names, hd, hVisible]

/-- What is drawn among the variables of a type is one of them, if there is any. -/
theorem ensures_getRandomVariable {ε ρ : Type} (rng : RngExt ρ)
    (hs : openStack (brackets is) = some s) (var : Variable) :
    Ensures ((builderAt ctx is s).getRandomVariable rng var : Draw ε ρ _) fun v =>
      (v = none → ∀ u, ¬ Names is u var) ∧
        ∀ w, v = some w → w.var = var ∧ Names is w.index var := by
  refine (RngExt.ensures_chooseBy rng.item _).mono fun v hv => ⟨fun hNone u hNames => ?_, fun w hw => ?_⟩
  · -- a variable that is named is among those drawn from
    have hMem : (⟨var, u⟩ : IndexedVariable) ∈ (((List.range (builderAt ctx is s).vars.length).filterMap
        (builderAt ctx is s).getVariable).filter (·.var = var)) := by
      refine List.mem_filter.mpr ⟨List.mem_filterMap.mpr ⟨u, ?_, ?_⟩, by simp⟩
      · have hLen : (builderAt ctx is s).vars.length = (definitions is).length := List.length_map _
        rw [List.mem_range, hLen]
        exact hNames.lt
      · exact (getVariable_eq_some_iff ctx hs).mpr ⟨rfl, hNames⟩
    rw [hv.1 hNone] at hMem
    cases hMem
  · obtain ⟨hMem, hType⟩ := List.mem_filter.mp (hv.2 w hw)
    obtain ⟨u, -, hGet⟩ := List.mem_filterMap.mp hMem
    obtain ⟨rfl, hNames⟩ := (getVariable_eq_some_iff ctx hs).mp hGet
    have hVar : w.var = var := by simpa using hType
    exact ⟨hVar, hVar ▸ hNames⟩

/-- An instruction whose inputs are in scope, of the types it asks for. -/
theorem wellTypedAfter_of_inScope (hs : openStack (brackets is) = some s) {op : Operation}
    {inputs : List IndexedVariable}
    (hTypes : inputs.map IndexedVariable.var = op.getInputVariables)
    (hSome : op.getInputVariables ≠ []) (hScope : ∀ v ∈ inputs, InScope is s v) :
    WellTypedAfter ctx is ⟨inputs.map IndexedVariable.index, op⟩ := by
  refine ⟨?_, fun k v var hv hVar => ?_, ?_, ?_⟩
  · show (inputs.map _).length = op.getInputVariables.length
    rw [← hTypes, List.length_map, List.length_map]
  · obtain ⟨x, hx, rfl⟩ := Option.map_eq_some_iff.mp (List.getElem?_map .. ▸ hv)
    have hType : (inputs.map IndexedVariable.var)[k]? = some var := hTypes ▸ hVar
    rw [List.getElem?_map, hx, Option.map_some, Option.some.injEq] at hType
    exact hType ▸ (inScope_iff_names hs).mp (hScope x (List.mem_of_getElem? hx))
  · rintro r rfl
    exact absurd rfl hSome
  · rintro c rfl
    exact absurd rfl hSome

/-- A load is well typed everywhere. -/
theorem wellTypedAfter_load (ctx : ProgramContext) (is : List Instruction) {op : Operation}
    (hInputs : op.getInputVariables = []) (hRole : ∀ r, op = .loadRole r → r < ctx.numRoles)
    (hConnection : ∀ c, op ≠ .loadConnection c) : WellTypedAfter ctx is ⟨[], op⟩ :=
  ⟨by simp [numInputs, hInputs], by simp, hRole, fun c h => absurd h (hConnection c)⟩

/-! ## The judgement -/

/-- Running `g` after `is` leaves the builder after some `is'`, as `Q` says, or
a call is rejected, which takes `mayFail`. -/
def Builds {ρ α : Type} (ctx : ProgramContext) (mayFail : Prop) (g : Gen ρ α)
    (is : List Instruction) (s : List (Nat × BlockKind))
    (Q : α → List Instruction → List (Nat × BlockKind) → Prop) : Prop :=
  Ensures (g (builderAt ctx is s)) fun out =>
    (mayFail ∧ ∃ e, out.1 = .error e) ∨
      ∃ a is' s', out = (.ok a, builderAt ctx is' s') ∧ Building ctx is' s' ∧ Q a is' s'

section Rules

variable {ρ α β : Type} {mayFail : Prop} {g : Gen ρ α}
  {Q : α → List Instruction → List (Nat × BlockKind) → Prop}

theorem Builds.pure {a : α} (hB : Building ctx is s) (h : Q a is s) :
    Builds ctx mayFail (Pure.pure a : Gen ρ α) is s Q :=
  Ensures.pure (Or.inr ⟨a, is, s, rfl, hB, h⟩)

theorem Builds.bind {f : α → Gen ρ β} {R : β → List Instruction → List (Nat × BlockKind) → Prop}
    (h : Builds ctx mayFail g is s Q)
    (hf : ∀ a is' s', Building ctx is' s' → Q a is' s' → Builds ctx mayFail (f a) is' s' R) :
    Builds ctx mayFail (g >>= f) is s R := by
  refine Ensures.bind h fun out hOut => ?_
  obtain ⟨result, b⟩ := out
  rcases hOut with ⟨hFail, e, rfl⟩ | ⟨a, is', s', hEq, hB, hQ⟩
  · exact Ensures.pure (Or.inl ⟨hFail, e, rfl⟩)
  · obtain ⟨rfl, rfl⟩ := Prod.mk.inj hEq
    exact hf a is' s' hB hQ

theorem Builds.mono {Q' : α → List Instruction → List (Nat × BlockKind) → Prop}
    (h : Builds ctx mayFail g is s Q) (hQ : ∀ a is' s', Q a is' s' → Q' a is' s') :
    Builds ctx mayFail g is s Q' := by
  refine Ensures.mono h fun out hOut => ?_
  rcases hOut with hFail | ⟨a, is', s', hEq, hB, h⟩
  · exact Or.inl hFail
  · exact Or.inr ⟨a, is', s', hEq, hB, hQ a is' s' h⟩

/-- What takes less to fail may fail for more. -/
theorem Builds.weaken {mayFail' : Prop} (h : Builds ctx mayFail g is s Q)
    (hFail : mayFail → mayFail') : Builds ctx mayFail' g is s Q :=
  Ensures.mono h fun _ hOut => hOut.imp_left fun hRejected => ⟨hFail hRejected.1, hRejected.2⟩

theorem Builds.draw {m : Draw Panic ρ α} {P : α → Prop} (hB : Building ctx is s)
    (h : Ensures m P) (hQ : ∀ a, P a → Q a is s) : Builds ctx mayFail (Gen.draw m) is s Q :=
  Ensures.bind h fun a ha => Ensures.pure (Or.inr ⟨a, is, s, rfl, hB, hQ a ha⟩)

/-- A draw leaves the builder alone. -/
theorem Builds.drawn {m : Draw Panic ρ β} {P : β → Prop} {f : β → Gen ρ α}
    (hB : Building ctx is s) (h : Ensures m P) (hf : ∀ a, P a → Builds ctx mayFail (f a) is s Q) :
    Builds ctx mayFail (Gen.draw m >>= f) is s Q := by
  refine Builds.bind (Q := fun a is' s' => P a ∧ is' = is ∧ s' = s)
    (Builds.draw hB h fun a ha => ⟨ha, rfl, rfl⟩) ?_
  rintro a is' s' - ⟨ha, rfl, rfl⟩
  exact hf a ha

/-- One call, of an instruction that is well typed. -/
theorem Builds.appendOp {op : Operation} {inputs : List IndexedVariable} (hB : Building ctx is s)
    (hAfter : WellTypedAfter ctx is ⟨inputs.map IndexedVariable.index, op⟩)
    (hStep : step is.length s op.bracket = some s')
    {Q : List IndexedVariable → List Instruction → List (Nat × BlockKind) → Prop}
    (hQ : Q (newVariables is op) (is ++ [⟨inputs.map IndexedVariable.index, op⟩]) s') :
    Builds ctx mayFail (Gen.appendOp op inputs : Gen ρ _) is s Q := by
  have hStack := (openStack_brackets_snoc hB.stack ⟨inputs.map IndexedVariable.index, op⟩).trans hStep
  exact Ensures.lift (append_ok hB.stack hAfter hStep)
    (Or.inr ⟨_, _, s', rfl, ⟨hStack, wellTypedPrefix_snoc.mpr ⟨hB.typed, hAfter⟩⟩, hQ⟩)

/-- One call of an operation with one variable, which is in scope from then on. -/
theorem Builds.one (var : Variable) {op : Operation} {inputs : List IndexedVariable}
    (hB : Building ctx is s)
    (hAfter : WellTypedAfter ctx is ⟨inputs.map IndexedVariable.index, op⟩)
    (hStep : step is.length s op.bracket = some s')
    (hOne : op.getOutputVariables ++ op.getInnerOutputVariables = [var]) (hNop : op.isNop = false)
    {g : List IndexedVariable → Gen ρ α}
    (hg : ∀ is', is' = is ++ [⟨inputs.map IndexedVariable.index, op⟩] → Building ctx is' s' →
      InScope is' s' ⟨var, (definitions is).length⟩ →
      (definitions is').length = (definitions is).length + 1 →
      Builds ctx mayFail (g [⟨var, (definitions is).length⟩]) is' s' Q) :
    Builds ctx mayFail (Gen.appendOp op inputs >>= g) is s Q := by
  refine Builds.bind (Q := fun vars is' t => vars = [⟨var, (definitions is).length⟩] ∧
    is' = is ++ [⟨inputs.map IndexedVariable.index, op⟩] ∧ s' = t)
    (Builds.appendOp hB hAfter hStep ⟨by simp [newVariables, hOne], rfl, rfl⟩) ?_
  rintro vars is' t hB' ⟨rfl, rfl, rfl⟩
  refine hg _ rfl hB' (inScope_new hStep hB'.stack hOne hNop) ?_
  rw [length_definitions_snoc, numDefined, numOutputs, numInnerOutputs, ← List.length_append, hOne]
  rfl

/-- A call that is rejected ends the run. -/
theorem Builds.rejected {op : Operation} {inputs : List IndexedVariable}
    {g : List IndexedVariable → Gen ρ α} (hB : Building ctx is s) (hFail : mayFail)
    (hNot : ¬ WellTypedAfter ctx is ⟨inputs.map IndexedVariable.index, op⟩) :
    Builds ctx mayFail (Gen.appendOp op inputs >>= g) is s Q := by
  obtain ⟨e, hAppend⟩ : ∃ e, (builderAt ctx is s).append ⟨inputs.map IndexedVariable.index, op⟩ =
      .ok (.error e, builderAt ctx is s) := by
    rcases append_cases ctx hB.stack ⟨inputs.map IndexedVariable.index, op⟩ with
      ⟨hTyped, -⟩ | ⟨-, h⟩ | ⟨hTyped, -⟩ | ⟨-, hEnd, -⟩
    · exact absurd hTyped hNot
    · exact h
    · exact absurd hTyped hNot
    · exact absurd (hEnd ▸ ⟨rfl, by simp, by simp, by simp⟩) hNot
  exact Ensures.bind (Ensures.lift (P := fun out => out = (.error e, builderAt ctx is s)) hAppend rfl)
    fun out hOut => hOut ▸ Ensures.pure (Or.inl ⟨hFail, e, rfl⟩)

/-- A list of one variable is that variable. -/
theorem one_eq (v : IndexedVariable) : (Gen.one [v] : Gen ρ _) = Pure.pure v := rfl

theorem pure_bind_eq {a : β} {f : β → Gen ρ α} : (Pure.pure a >>= f) = f a := rfl

/-- One call of an operation without variables. -/
theorem Builds.none (s' : List (Nat × BlockKind)) {op : Operation} {inputs : List IndexedVariable}
    {f : List IndexedVariable → Gen ρ α} (hB : Building ctx is s)
    (hAfter : WellTypedAfter ctx is ⟨inputs.map IndexedVariable.index, op⟩)
    (hStep : step is.length s op.bracket = some s')
    (hf : ∀ vars is', is' = is ++ [⟨inputs.map IndexedVariable.index, op⟩] → Building ctx is' s' →
      Builds ctx mayFail (f vars) is' s' Q) :
    Builds ctx mayFail (Gen.appendOp op inputs >>= f) is s Q := by
  refine Builds.bind (Q := fun _ is' t => is' = is ++ [⟨inputs.map IndexedVariable.index, op⟩] ∧
    s' = t) (Builds.appendOp hB hAfter hStep ⟨rfl, rfl⟩) ?_
  rintro vars is' t hB' ⟨rfl, rfl⟩
  exact hf vars _ rfl hB'

end Rules

/-! ## Fragments -/

section Fragments

/-- Open a connection to the role; `n` variables are there already. -/
def connectionFragment (role n : Nat) : List Instruction :=
  [⟨[], .loadRole role⟩, ⟨[n], .connect⟩]

/-- Begin a message, which is the variable `n + 3`, with its versions and flags. -/
def messageFragment (minVersion maxVersion : UInt16) (flags : UInt32) (n : Nat) :
    List Instruction :=
  [⟨[], .loadVersion minVersion⟩, ⟨[], .loadVersion maxVersion⟩, ⟨[], .loadFlags flags⟩,
    ⟨[], .beginBuildSetupConnection⟩, ⟨[n + 3, n, n + 1], .setVersions⟩,
    ⟨[n + 3, n + 2], .setFlags⟩]

def endpointFragment (m n : Nat) : List Instruction :=
  [⟨[], .loadStr "0.0.0.0"⟩, ⟨[], .loadPort 0⟩, ⟨[m, n, n + 1], .setEndpoint⟩]

def deviceInfoFragment (m n : Nat) : List Instruction :=
  [⟨[], .loadStr "stratamoto"⟩, ⟨[], .loadStr ""⟩, ⟨[], .loadStr ""⟩, ⟨[], .loadStr ""⟩,
    ⟨[m, n, n + 1, n + 2, n + 3], .setDeviceInfo⟩]

def sendFragment (c : Nat) (protocol : Protocol) (m n : Nat) : List Instruction :=
  [⟨[m], .endBuildSetupConnection protocol⟩, ⟨[c, n], .sendSetupConnection protocol⟩]

/-- Build a setup and send it on the connection `c`. -/
def setupFragment (endpoint deviceInfo : Bool) (c : Nat) (protocol : Protocol)
    (minVersion maxVersion : UInt16) (flags : UInt32) (n : Nat) : List Instruction :=
  let afterEndpoint := n + 4 + if endpoint then 2 else 0
  messageFragment minVersion maxVersion flags n ++
    (if endpoint then endpointFragment (n + 3) (n + 4) else []) ++
    (if deviceInfo then deviceInfoFragment (n + 3) afterEndpoint else []) ++
    sendFragment c protocol (n + 3) (afterEndpoint + if deviceInfo then 4 else 0)

end Fragments

section Specs

variable {ρ : Type} {mayFail : Prop}

/-- A connection is opened, unless there is no such role. -/
theorem builds_openConnection (hB : Building ctx is s) (role : Nat) :
    Builds ctx (ctx.numRoles ≤ role) (openConnection role : Gen ρ _) is s fun v is' s' =>
      s' = s ∧ is' = is ++ connectionFragment role (definitions is).length ∧
        v = ⟨.connection, (definitions is).length + 1⟩ ∧ InScope is' s' v := by
  rcases Nat.lt_or_ge role ctx.numRoles with hRole | hRole
  · refine Builds.one .role hB ?_ rfl rfl rfl ?_
    · exact wellTypedAfter_load ctx is rfl (by rintro r ⟨⟩; exact hRole) (by simp)
    rintro is₁ h₁ hB₁ hLoaded hLen₁
    refine Builds.one .connection hB₁ ?_ rfl rfl rfl ?_
    · exact wellTypedAfter_of_inScope hB₁.stack rfl (by simp [getInputVariables])
        (by simpa using hLoaded)
    rintro is₂ h₂ hB₂ hOpened -
    exact Builds.pure hB₂ ⟨rfl, by simp [h₂, h₁, connectionFragment], by rw [hLen₁], hOpened⟩
  · refine Builds.rejected hB hRole fun hTyped => ?_
    have := hTyped.role role rfl
    omega

/-- A message is begun, with its versions and flags. -/
theorem builds_beginMessage (hB : Building ctx is s) (minVersion maxVersion : UInt16)
    (flags : UInt32) :
    Builds ctx mayFail (beginMessage minVersion maxVersion flags : Gen ρ _) is s fun v is' s' =>
      s' = (is.length + 3, .build) :: s ∧
        is' = is ++ messageFragment minVersion maxVersion flags (definitions is).length ∧
        v = ⟨.mutSetupConnection, (definitions is).length + 3⟩ ∧ InScope is' s' v := by
  refine Builds.one .version hB ?_ rfl rfl rfl ?_
  · exact wellTypedAfter_load ctx is rfl (by simp) (by simp)
  rintro is₁ h₁ hB₁ hMin hLen₁
  refine Builds.one .version hB₁ ?_ rfl rfl rfl ?_
  · exact wellTypedAfter_load ctx is₁ rfl (by simp) (by simp)
  rintro is₂ h₂ hB₂ hMax hLen₂
  refine Builds.one .flags hB₂ ?_ rfl rfl rfl ?_
  · exact wellTypedAfter_load ctx is₂ rfl (by simp) (by simp)
  rintro is₃ h₃ hB₃ hFlags hLen₃
  refine Builds.one .mutSetupConnection hB₃ ?_ rfl rfl rfl ?_
  · exact wellTypedAfter_load ctx is₃ rfl (by simp) (by simp)
  rintro is₄ h₄ hB₄ hSetup -
  -- the loads before the block stay in scope inside it
  have hTail : ∀ p ∈ s, p ∈ (is₃.length, BlockKind.build) :: s := fun p hp =>
    List.mem_cons_of_mem _ hp
  have hMin₄ := hMin.mono is₄ (by simp [h₄, h₃, h₂]) hTail
  have hMax₄ := hMax.mono is₄ (by simp [h₄, h₃]) hTail
  refine Builds.none ((is₃.length, .build) :: s) hB₄ ?_ rfl ?_
  · exact wellTypedAfter_of_inScope hB₄.stack rfl (by simp [getInputVariables])
      (by simpa using ⟨hSetup, hMin₄, hMax₄⟩)
  rintro - is₅ h₅ hB₅
  have hSetup₅ := hSetup.mono is₅ (by simp [h₅]) fun _ h => h
  have hFlags₅ := hFlags.mono is₅ (by simp [h₅, h₄]) hTail
  refine Builds.none ((is₃.length, .build) :: s) hB₅ ?_ rfl ?_
  · exact wellTypedAfter_of_inScope hB₅.stack rfl (by simp [getInputVariables])
      (by simpa using ⟨hSetup₅, hFlags₅⟩)
  rintro - is₆ h₆ hB₆
  refine Builds.pure hB₆ ⟨by simp [h₃, h₂, h₁], ?_, by rw [hLen₃, hLen₂, hLen₁],
    hSetup₅.mono _ (by simp [h₆]) fun _ h => h⟩
  rw [h₆, h₅, h₄, hLen₃, hLen₂, hLen₁, h₃, h₂, h₁]
  simp [messageFragment]

theorem builds_fillEndpoint (hB : Building ctx is s) {setup : IndexedVariable}
    (hSetup : InScope is s setup) (hVar : setup.var = .mutSetupConnection) :
    Builds ctx mayFail (fillEndpoint setup : Gen ρ _) is s fun _ is' s' =>
      s' = s ∧ is' = is ++ endpointFragment setup.index (definitions is).length := by
  refine Builds.one .str hB ?_ rfl rfl rfl ?_
  · exact wellTypedAfter_load ctx is rfl (by simp) (by simp)
  rintro is₁ h₁ hB₁ hHost hLen₁
  refine Builds.one .port hB₁ ?_ rfl rfl rfl ?_
  · exact wellTypedAfter_load ctx is₁ rfl (by simp) (by simp)
  rintro is₂ h₂ hB₂ hPort -
  -- the host is still in scope behind the port
  have hHost₂ := hHost.mono is₂ (by simp [h₂]) fun _ h => h
  have hSetup₂ := hSetup.mono is₂ (by simp [h₂, h₁]) fun _ h => h
  refine Builds.none s hB₂ ?_ rfl ?_
  · exact wellTypedAfter_of_inScope hB₂.stack (by simp [hVar, getInputVariables])
      (by simp [getInputVariables]) (by simpa using ⟨hSetup₂, hHost₂, hPort⟩)
  rintro - is₃ h₃ hB₃
  refine Builds.pure hB₃ ⟨rfl, ?_⟩
  rw [h₃, h₂, hLen₁, h₁]
  simp [endpointFragment]

theorem builds_fillDeviceInfo (hB : Building ctx is s) {setup : IndexedVariable}
    (hSetup : InScope is s setup) (hVar : setup.var = .mutSetupConnection) :
    Builds ctx mayFail (fillDeviceInfo setup : Gen ρ _) is s fun _ is' s' =>
      s' = s ∧ is' = is ++ deviceInfoFragment setup.index (definitions is).length := by
  -- four strings are loaded, and then read by one setter
  refine Builds.one .str hB ?_ rfl rfl rfl ?_
  · exact wellTypedAfter_load ctx is rfl (by simp) (by simp)
  rintro is₁ h₁ hB₁ hVendor hLen₁
  refine Builds.one .str hB₁ ?_ rfl rfl rfl ?_
  · exact wellTypedAfter_load ctx is₁ rfl (by simp) (by simp)
  rintro is₂ h₂ hB₂ hHardware hLen₂
  refine Builds.one .str hB₂ ?_ rfl rfl rfl ?_
  · exact wellTypedAfter_load ctx is₂ rfl (by simp) (by simp)
  rintro is₃ h₃ hB₃ hFirmware hLen₃
  refine Builds.one .str hB₃ ?_ rfl rfl rfl ?_
  · exact wellTypedAfter_load ctx is₃ rfl (by simp) (by simp)
  rintro is₄ h₄ hB₄ hDevice -
  have hVendor₄ := hVendor.mono is₄ (by simp [h₄, h₃, h₂]) fun _ h => h
  have hHardware₄ := hHardware.mono is₄ (by simp [h₄, h₃]) fun _ h => h
  have hFirmware₄ := hFirmware.mono is₄ (by simp [h₄]) fun _ h => h
  have hSetup₄ := hSetup.mono is₄ (by simp [h₄, h₃, h₂, h₁]) fun _ h => h
  refine Builds.none s hB₄ ?_ rfl ?_
  · exact wellTypedAfter_of_inScope hB₄.stack (by simp [hVar, getInputVariables])
      (by simp [getInputVariables])
      (by simpa using ⟨hSetup₄, hVendor₄, hHardware₄, hFirmware₄, hDevice⟩)
  rintro - is₅ h₅ hB₅
  refine Builds.pure hB₅ ⟨rfl, ?_⟩
  rw [h₅, h₄, hLen₃, hLen₂, hLen₁, h₃, h₂, h₁]
  simp [deviceInfoFragment]

/-- The message on top is ended, and sent on a connection from outside it. -/
theorem builds_sendMessage {n : Nat} (hB : Building ctx is ((n, .build) :: s))
    {connection setup : IndexedVariable} (protocol : Protocol)
    (hConnection : ∃ is₀, is₀ <+: is ∧ InScope is₀ s connection)
    (hConnectionVar : connection.var = .connection)
    (hSetup : InScope is ((n, .build) :: s) setup) (hVar : setup.var = .mutSetupConnection) :
    Builds ctx mayFail (sendMessage connection protocol setup : Gen ρ _) is ((n, .build) :: s)
      fun v is' s' =>
        s' = s ∧ is' = is ++ sendFragment connection.index protocol setup.index (definitions is).length ∧
          v = ⟨.setupAttempt protocol, (definitions is).length + 1⟩ := by
  obtain ⟨is₀, hPrefix, hConnection⟩ := hConnection
  refine Builds.one (.constSetupConnection protocol) hB ?_ (?_ : step _ _ _ = some s) rfl rfl ?_
  · exact wellTypedAfter_of_inScope hB.stack (by simp [hVar, getInputVariables])
      (by simp [getInputVariables]) (by simpa using hSetup)
  · simp [step, bracket]
  rintro is₁ h₁ hB₁ hBuilt hLen₁
  -- the connection was in scope before the message was begun
  have hConnection₁ := hConnection.mono is₁ (hPrefix.trans (by simp [h₁])) fun _ h => h
  refine Builds.one (.setupAttempt protocol) hB₁ ?_ rfl rfl rfl ?_
  · exact wellTypedAfter_of_inScope hB₁.stack (by simp [hConnectionVar, getInputVariables])
      (by simp [getInputVariables]) (by simpa using ⟨hConnection₁, hBuilt⟩)
  rintro is₂ h₂ hB₂ - -
  refine Builds.pure hB₂ ⟨rfl, ?_, by rw [hLen₁]⟩
  rw [h₂, h₁]
  simp [sendFragment]

theorem builds_sometimes (rng : RngExt ρ) (hB : Building ctx is s) {g : Gen ρ Unit}
    {l : List Instruction}
    (h : Builds ctx mayFail g is s fun _ is' s' => s' = s ∧ is' = is ++ l) :
    Builds ctx mayFail (sometimes rng g) is s fun _ is' s' =>
      s' = s ∧ ∃ b : Bool, is' = is ++ if b then l else [] := by
  refine Builds.drawn hB (rng.ensures_randomBool 50) fun b _ => ?_
  cases b with
  | true => exact h.mono fun _ is' s' ⟨hs, hl⟩ => ⟨hs, true, by rw [hl]; rfl⟩
  | false => exact Builds.pure hB ⟨rfl, false, by simp⟩

/-- **A setup is built and sent** on the connection, and nothing else is done. -/
theorem builds_setup (rng : RngExt ρ) (hB : Building ctx is s) {connection : IndexedVariable}
    (hConnection : InScope is s connection) (hVar : connection.var = .connection)
    (protocol : Protocol) (minVersion maxVersion : UInt16) (flags : UInt32) :
    Builds ctx mayFail (setup rng connection protocol minVersion maxVersion flags) is s
      fun _ is' s' => s' = s ∧ ∃ endpoint deviceInfo, is' = is ++ setupFragment endpoint deviceInfo
        connection.index protocol minVersion maxVersion flags (definitions is).length := by
  refine Builds.bind (builds_beginMessage hB minVersion maxVersion flags) ?_
  rintro setup is₁ s₁ hB₁ ⟨rfl, h₁, rfl, hSetup⟩
  -- where each part begins depends on what the draws before it have added
  have hLen₁ : (definitions is₁).length = (definitions is).length + 4 := by
    rw [h₁, length_definitions_append]
    rfl
  refine Builds.bind (builds_sometimes rng hB₁ (builds_fillEndpoint hB₁ hSetup rfl)) ?_
  rintro - is₂ s₂ hB₂ ⟨rfl, endpoint, h₂⟩
  have hSetup₂ := hSetup.mono is₂ (by simp [h₂]) fun _ h => h
  have hLen₂ : (definitions is₂).length =
      (definitions is).length + 4 + if endpoint then 2 else 0 := by
    rw [h₂, length_definitions_append, hLen₁]
    cases endpoint <;> rfl
  refine Builds.bind (builds_sometimes rng hB₂ (builds_fillDeviceInfo hB₂ hSetup₂ rfl)) ?_
  rintro - is₃ s₃ hB₃ ⟨rfl, deviceInfo, h₃⟩
  have hSetup₃ := hSetup₂.mono is₃ (by simp [h₃]) fun _ h => h
  have hLen₃ : (definitions is₃).length = (definitions is).length + 4 +
      (if endpoint then 2 else 0) + if deviceInfo then 4 else 0 := by
    rw [h₃, length_definitions_append, hLen₂]
    cases deviceInfo <;> rfl
  have hPrefix : is <+: is₃ := by simp [h₃, h₂, h₁]
  refine (builds_sendMessage hB₃ protocol ⟨is, hPrefix, hConnection⟩ hVar hSetup₃ rfl).mono ?_
  rintro - is₄ s₄ ⟨rfl, h₄, -⟩
  refine ⟨rfl, endpoint, deviceInfo, ?_⟩
  rw [h₄, hLen₃, h₃, hLen₂, h₂, hLen₁, h₁]
  simp [setupFragment]

/-- The connection a fragment goes on is in scope; a fresh one is opened. -/
theorem builds_connection (rng : RngExt ρ) (hB : Building ctx is s) (role : Nat)
    (choice : ConnectionChoice) :
    Builds ctx (ctx.numRoles ≤ role) (connection rng role choice) is s fun v is' s' =>
      s' = s ∧ v.var = .connection ∧ InScope is' s' v ∧
        ((choice ≠ .fresh ∧ is' = is) ∨
          is' = is ++ connectionFragment role (definitions is).length ∧
            v.index = (definitions is).length + 1) := by
  -- what may be reused is in scope, and of the type
  have hPick : Builds ctx (ctx.numRoles ≤ role) (getRandomVariable rng .connection) is s
      fun v is' s' => is' = is ∧ s' = s ∧
        ∀ w, v = some w → w.var = .connection ∧ InScope is s w := by
    refine Ensures.bind (ensures_getRandomVariable rng hB.stack .connection) fun v hv =>
      Ensures.pure (Or.inr ⟨v, is, s, rfl, hB, rfl, rfl, fun w hw => ?_⟩)
    obtain ⟨hVar, hNames⟩ := hv.2 w hw
    exact ⟨hVar, (inScope_iff_names hB.stack).mpr (hVar ▸ hNames)⟩
  have hReuse : Builds ctx (ctx.numRoles ≤ role) (chooseReuse rng choice) is s
      fun v is' s' => is' = is ∧ s' = s ∧
        ∀ w, v = some w → choice ≠ .fresh ∧ w.var = .connection ∧ InScope is s w := by
    cases choice with
    | fresh => exact Builds.pure hB ⟨rfl, rfl, by rintro w ⟨⟩⟩
    | reuse =>
      exact hPick.mono fun v is' s' ⟨hi, hs, hw⟩ => ⟨hi, hs, fun w h => ⟨by simp, hw w h⟩⟩
    | any =>
      refine Builds.drawn hB (rng.ensures_randomBool 50) fun b _ => ?_
      cases b with
      | true =>
        exact hPick.mono fun v is' s' ⟨hi, hs, hw⟩ => ⟨hi, hs, fun w h => ⟨by simp, hw w h⟩⟩
      | false => exact Builds.pure hB ⟨rfl, rfl, by rintro w ⟨⟩⟩
  refine Builds.bind hReuse ?_
  rintro reuse is' s' hB' ⟨rfl, rfl, hReused⟩
  cases reuse with
  | some w =>
    obtain ⟨hFresh, hVar, hScope⟩ := hReused w rfl
    exact Builds.pure hB' ⟨rfl, hVar, hScope, Or.inl ⟨hFresh, rfl⟩⟩
  | none =>
    refine (builds_openConnection hB' role).mono ?_
    rintro v is' s' ⟨rfl, h, rfl, hScope⟩
    exact ⟨rfl, rfl, hScope, Or.inr ⟨h, rfl⟩⟩

/-! ## The generators -/

/-- Only flags that the protocol defines. -/
def Defined (protocol : Protocol) (flags : UInt32) : Prop := flags &&& ~~~definedFlags protocol = 0

/-- The protocol asked for, where one is. -/
def Chosen (asked : Option Protocol) (protocol : Protocol) : Prop :=
  ∀ p, asked = some p → protocol = p

theorem ensures_chooseFrom {α : Type} (rng : RngExt ρ) {xs : List α} (h : xs ≠ [])
    (message : String) : Ensures (chooseFrom rng xs message) fun a => a ∈ xs := by
  refine Ensures.bind (RngExt.ensures_chooseBy rng.index xs) fun x hx => ?_
  cases x with
  | none => exact absurd (hx.1 rfl) h
  | some a => exact Ensures.pure (hx.2 a rfl)

theorem ensures_chooseProtocol (rng : RngExt ρ) (asked : Option Protocol) :
    Ensures (chooseProtocol rng asked) (Chosen asked) := by
  cases asked with
  | none =>
    exact (ensures_chooseFrom rng (by simp [Protocol.all]) _).mono fun _ _ => by rintro p ⟨⟩
  | some protocol => exact Ensures.pure (by rintro p ⟨⟩; rfl)

theorem ensures_chooseFlags (rng : RngExt ρ) (protocol : Protocol) :
    Ensures (chooseFlags rng protocol) (Defined protocol) := by
  refine Ensures.bind (rng.ensures_random 32) fun bits _ => Ensures.pure ?_
  rw [Defined, UInt32.and_assoc, UInt32.and_not_self, UInt32.and_zero]

/-- An undefined bit is set, whatever the draw. -/
theorem ensures_chooseUndefinedFlags (rng : RngExt ρ) (protocol : Protocol) (flags : UInt32) :
    Ensures (chooseUndefinedFlags rng protocol flags) fun flags' => ¬ Defined protocol flags' := by
  refine Ensures.bind (rng.ensures_random 32) fun bits _ => Ensures.pure ?_
  split
  · -- the lowest undefined bit is added
    rename_i hNone
    have hLowest : isolateLowestOne (~~~definedFlags protocol) &&& ~~~definedFlags protocol ≠ 0 := by
      cases protocol <;> decide
    have hOr : ∀ x y z : UInt32, (x ||| y) &&& z = (x &&& z) ||| (y &&& z) := fun x y z =>
      UInt32.toBitVec_inj.mp BitVec.and_or_distrib_right
    rw [Defined, hOr, hNone, UInt32.zero_or]
    exact hLowest
  · rename_i hSome
    exact hSome

/-- A setup on the connection `c`, with or without the fields a coin decides on. -/
def SetupOn (c : Nat) (protocol : Protocol) (minVersion maxVersion : UInt16) (flags : UInt32)
    (n : Nat) (l : List Instruction) : Prop :=
  ∃ endpoint deviceInfo, l = setupFragment endpoint deviceInfo c protocol minVersion maxVersion
    flags n

/-- What a setup violates, on a connection of its own, behind `n` variables. -/
inductive AdversarialFragment (role : Nat) (protocol : Protocol) (n : Nat) :
    SetupViolation → List Instruction → Prop
  | emptyVersionRange {flags : UInt32} {l : List Instruction} : Defined protocol flags →
      SetupOn (n + 1) protocol (currentVersion + 1) currentVersion flags (n + 2) l →
      AdversarialFragment role protocol n .emptyVersionRange (connectionFragment role n ++ l)
  | unknownVersion {version : UInt16} {flags : UInt32} {l : List Instruction} :
      version ∈ [0, 1, currentVersion + 1, 0xffff] → Defined protocol flags →
      SetupOn (n + 1) protocol version version flags (n + 2) l →
      AdversarialFragment role protocol n .unknownVersion (connectionFragment role n ++ l)
  | undefinedFlags {flags : UInt32} {l : List Instruction} : ¬ Defined protocol flags →
      SetupOn (n + 1) protocol currentVersion currentVersion flags (n + 2) l →
      AdversarialFragment role protocol n .undefinedFlags (connectionFragment role n ++ l)
  | afterRawFrame (messageType : UInt8) {flags : UInt32} {l : List Instruction} :
      Defined protocol flags → SetupOn (n + 1) protocol currentVersion currentVersion flags (n + 3) l →
      AdversarialFragment role protocol n .afterRawFrame (connectionFragment role n ++
        [⟨[], .loadBytes (List.replicate 6 0)⟩, ⟨[n + 1, n + 2], .sendRawFrame messageType 0⟩] ++ l)
  | secondSetup {flags : UInt32} {l l' : List Instruction} : Defined protocol flags →
      SetupOn (n + 1) protocol currentVersion currentVersion flags (n + 2) l →
      SetupOn (n + 1) protocol currentVersion currentVersion flags
        (n + 2 + (l.map fun i => i.operation.numDefined).sum) l' →
      AdversarialFragment role protocol n .secondSetup (connectionFragment role n ++ l ++ l')

/-- **A conforming setup**: the current version and defined flags, on a
connection in scope or a new one. -/
theorem SetupConnectionGenerator.builds_generate (rng : RngExt ρ) (hB : Building ctx is s)
    (g : SetupConnectionGenerator) :
    Builds ctx (ctx.numRoles ≤ g.role) (g.generate rng) is s fun _ is' s' => s' = s ∧
      ∃ (opening l : List Instruction) (c : Nat) (protocol : Protocol) (flags : UInt32),
        Chosen g.protocol protocol ∧ Defined protocol flags ∧
        ((g.connection ≠ .fresh ∧ opening = []) ∨
          opening = connectionFragment g.role (definitions is).length ∧
            c = (definitions is).length + 1) ∧
        SetupOn c protocol currentVersion currentVersion flags
          (definitions (is ++ opening)).length l ∧ is' = is ++ opening ++ l := by
  refine Builds.drawn hB (ensures_chooseProtocol rng g.protocol) fun protocol hProtocol => ?_
  refine Builds.bind (builds_connection rng hB g.role g.connection) ?_
  rintro c is₁ s₁ hB₁ ⟨rfl, hVar, hScope, hConnection⟩
  refine Builds.drawn hB₁ (ensures_chooseFlags rng protocol) fun flags hFlags => ?_
  refine Builds.bind (builds_setup rng hB₁ hScope hVar protocol currentVersion currentVersion flags) ?_
  rintro - is₃ s₃ hB₃ ⟨rfl, endpoint, deviceInfo, h₃⟩
  refine Builds.pure hB₃ ⟨rfl, ?_⟩
  -- a connection of the program, or one that was opened first
  rcases hConnection with ⟨hFresh, rfl⟩ | ⟨rfl, hIndex⟩
  · exact ⟨[], _, c.index, protocol, flags, hProtocol, hFlags, Or.inl ⟨hFresh, rfl⟩,
      ⟨endpoint, deviceInfo, rfl⟩, by rw [List.append_nil, h₃]⟩
  · exact ⟨_, _, c.index, protocol, flags, hProtocol, hFlags, Or.inr ⟨rfl, hIndex⟩,
      ⟨endpoint, deviceInfo, rfl⟩, h₃⟩

/-- **An adversarial setup** violates what it is named for, on a new connection. -/
theorem AdversarialSetupGenerator.builds_generate (rng : RngExt ρ) (hB : Building ctx is s)
    (g : AdversarialSetupGenerator) :
    Builds ctx (ctx.numRoles ≤ g.role) (g.generate rng) is s fun _ is' s' => s' = s ∧
      ∃ (protocol : Protocol) (l : List Instruction), Chosen g.protocol protocol ∧
        AdversarialFragment g.role protocol (definitions is).length g.violation l ∧
        is' = is ++ l := by
  obtain ⟨role, asked, violation⟩ := g
  refine Builds.drawn hB (ensures_chooseProtocol rng asked) fun protocol hProtocol => ?_
  refine Builds.drawn hB (ensures_chooseFlags rng protocol) fun flags hFlags => ?_
  -- every violation begins with a connection of its own
  have hOpen : Builds ctx (ctx.numRoles ≤ role) (connection rng role .fresh) is s fun v is' s' =>
      s' = s ∧ v.var = .connection ∧ InScope is' s' v ∧
        is' = is ++ connectionFragment role (definitions is).length ∧
        v.index = (definitions is).length + 1 ∧
        (definitions is').length = (definitions is).length + 2 := by
    refine (builds_connection rng hB role .fresh).mono ?_
    rintro v is' s' ⟨hs, hVar, hScope, ⟨hFresh, -⟩ | ⟨rfl, hIndex⟩⟩
    · exact absurd rfl hFresh
    · exact ⟨hs, hVar, hScope, rfl, hIndex, by rw [length_definitions_append]; rfl⟩
  cases violation with
  | emptyVersionRange =>
    refine Builds.bind hOpen ?_
    rintro c is₁ s₁ hB₁ ⟨rfl, hVar, hScope, h₁, hIndex, hLen₁⟩
    refine Builds.bind (builds_setup rng hB₁ hScope hVar protocol (currentVersion + 1)
      currentVersion flags) ?_
    rintro - is₂ s₂ hB₂ ⟨rfl, endpoint, deviceInfo, h₂⟩
    rw [hIndex, hLen₁] at h₂
    exact Builds.pure hB₂ ⟨rfl, protocol, _, hProtocol,
      .emptyVersionRange hFlags ⟨endpoint, deviceInfo, rfl⟩, by rw [h₂, h₁, List.append_assoc]⟩
  | unknownVersion =>
    refine Builds.bind hOpen ?_
    rintro c is₁ s₁ hB₁ ⟨rfl, hVar, hScope, h₁, hIndex, hLen₁⟩
    refine Builds.drawn hB₁ (ensures_chooseFrom rng (by simp) _) fun version hVersion => ?_
    refine Builds.bind (builds_setup rng hB₁ hScope hVar protocol version version flags) ?_
    rintro - is₂ s₂ hB₂ ⟨rfl, endpoint, deviceInfo, h₂⟩
    rw [hIndex, hLen₁] at h₂
    exact Builds.pure hB₂ ⟨rfl, protocol, _, hProtocol,
      .unknownVersion hVersion hFlags ⟨endpoint, deviceInfo, rfl⟩, by rw [h₂, h₁, List.append_assoc]⟩
  | undefinedFlags =>
    refine Builds.bind hOpen ?_
    rintro c is₁ s₁ hB₁ ⟨rfl, hVar, hScope, h₁, hIndex, hLen₁⟩
    refine Builds.drawn hB₁ (ensures_chooseUndefinedFlags rng protocol flags) fun flags' hFlags' => ?_
    refine Builds.bind (builds_setup rng hB₁ hScope hVar protocol currentVersion currentVersion
      flags') ?_
    rintro - is₂ s₂ hB₂ ⟨rfl, endpoint, deviceInfo, h₂⟩
    rw [hIndex, hLen₁] at h₂
    exact Builds.pure hB₂ ⟨rfl, protocol, _, hProtocol,
      .undefinedFlags hFlags' ⟨endpoint, deviceInfo, rfl⟩, by rw [h₂, h₁, List.append_assoc]⟩
  | afterRawFrame =>
    refine Builds.bind hOpen ?_
    rintro c is₁ s₁ hB₁ ⟨rfl, hVar, hScope, h₁, hIndex, hLen₁⟩
    refine Builds.one .bytes hB₁ ?_ rfl rfl rfl ?_
    · exact wellTypedAfter_load ctx is₁ rfl (by simp) (by simp)
    rintro is₂ h₂ hB₂ hBytes hLen₂
    rw [one_eq, pure_bind_eq]
    refine Builds.drawn hB₂ (rng.ensures_random 8) fun messageType _ => ?_
    have hScope₂ := hScope.mono is₂ (by simp [h₂]) fun _ h => h
    refine Builds.none s₁ hB₂ ?_ rfl ?_
    · exact wellTypedAfter_of_inScope hB₂.stack (by simp [hVar, getInputVariables])
        (by simp [getInputVariables]) (by simpa using ⟨hScope₂, hBytes⟩)
    rintro - is₃ h₃ hB₃
    have hScope₃ := hScope₂.mono is₃ (by simp [h₃]) fun _ h => h
    have hLen₃ : (definitions is₃).length = (definitions is).length + 3 := by
      rw [h₃, length_definitions_append, hLen₂, hLen₁]
      rfl
    refine Builds.bind (builds_setup rng hB₃ hScope₃ hVar protocol currentVersion currentVersion
      flags) ?_
    rintro - is₄ s₄ hB₄ ⟨rfl, endpoint, deviceInfo, h₄⟩
    rw [hIndex, hLen₃] at h₄
    refine Builds.pure hB₄ ⟨rfl, protocol, _, hProtocol,
      .afterRawFrame (UInt8.ofBitVec messageType) hFlags ⟨endpoint, deviceInfo, rfl⟩, ?_⟩
    rw [h₄, h₃, h₂, hLen₁, h₁]
    simp [hIndex]
  | secondSetup =>
    refine Builds.bind hOpen ?_
    rintro c is₁ s₁ hB₁ ⟨rfl, hVar, hScope, h₁, hIndex, hLen₁⟩
    refine Builds.bind (builds_setup rng hB₁ hScope hVar protocol currentVersion currentVersion
      flags) ?_
    rintro - is₂ s₂ hB₂ ⟨rfl, endpoint, deviceInfo, h₂⟩
    have hScope₂ := hScope.mono is₂ (by simp [h₂]) fun _ h => h
    refine Builds.bind (builds_setup rng hB₂ hScope₂ hVar protocol currentVersion currentVersion
      flags) ?_
    rintro - is₃ s₃ hB₃ ⟨rfl, endpoint', deviceInfo', h₃⟩
    rw [hIndex, hLen₁] at h₂
    rw [h₂, length_definitions_append, hLen₁, hIndex] at h₃
    exact Builds.pure hB₃ ⟨rfl, protocol, _, hProtocol,
      .secondSetup hFlags ⟨endpoint, deviceInfo, rfl⟩ ⟨endpoint', deviceInfo', rfl⟩,
      by rw [h₃, h₁]; simp⟩

theorem ensures_randomBytes (rng : RngExt ρ) (n : Nat) : Ensures (randomBytes rng n) fun _ => True := by
  induction n with
  | zero => exact Ensures.pure trivial
  | succ n ih =>
    refine Ensures.bind (rng.ensures_random 8) fun byte _ => ?_
    exact Ensures.bind ih fun rest _ => Ensures.pure trivial

theorem ensures_chooseExtension (rng : RngExt ρ) : Ensures (chooseExtension rng) fun _ => True := by
  refine Ensures.bind (rng.ensures_randomBool 25) fun b _ => ?_
  cases b with
  | true =>
    exact Ensures.bind (rng.ensures_randomRange emptyRange 16 (by decide)) fun _ _ =>
      Ensures.pure trivial
  | false => exact Ensures.pure trivial

/-- **A raw frame**, on a connection in scope if there is one, or a new one. -/
theorem RawFrameGenerator.builds_generate (rng : RngExt ρ) (hB : Building ctx is s)
    (g : RawFrameGenerator) :
    Builds ctx (ctx.numRoles ≤ g.role) (g.generate rng) is s fun _ is' s' => s' = s ∧
      ∃ (opening : List Instruction) (c : Nat) (payload : List UInt8) (messageType : UInt8)
        (extensionType : UInt16),
        (opening = [] ∨ opening = connectionFragment g.role (definitions is).length ∧
          c = (definitions is).length + 1) ∧
        is' = is ++ opening ++ [⟨[], .loadBytes payload⟩,
          ⟨[c, (definitions (is ++ opening)).length], .sendRawFrame messageType extensionType⟩] := by
  -- the connection, whichever it is
  have hConnection : Builds ctx (ctx.numRoles ≤ g.role) (connection rng g.role .reuse) is s
      fun v is' s' => s' = s ∧ v.var = .connection ∧ InScope is' s' v ∧
        ∃ opening, is' = is ++ opening ∧ (opening = [] ∨
          opening = connectionFragment g.role (definitions is).length ∧
            v.index = (definitions is).length + 1) := by
    refine (builds_connection rng hB g.role .reuse).mono ?_
    rintro v is' s' ⟨hs, hVar, hScope, ⟨-, rfl⟩ | ⟨rfl, hIndex⟩⟩
    · exact ⟨hs, hVar, hScope, [], by simp, Or.inl rfl⟩
    · exact ⟨hs, hVar, hScope, _, rfl, Or.inr ⟨rfl, hIndex⟩⟩
  refine Builds.bind hConnection ?_
  rintro c is₁ s₁ hB₁ ⟨rfl, hVar, hScope, opening, h₁, hOpening⟩
  refine Builds.drawn hB₁ (rng.ensures_randomRange emptyRange 64 (by decide)) fun length _ => ?_
  refine Builds.drawn hB₁ (ensures_randomBytes rng length) fun payload _ => ?_
  refine Builds.one .bytes hB₁ ?_ rfl rfl rfl ?_
  · exact wellTypedAfter_load ctx is₁ rfl (by simp) (by simp)
  rintro is₂ h₂ hB₂ hBytes -
  rw [one_eq, pure_bind_eq]
  refine Builds.drawn hB₂ (ensures_chooseExtension rng) fun extensionType _ => ?_
  refine Builds.drawn hB₂ (rng.ensures_random 8) fun messageType _ => ?_
  have hScope₂ := hScope.mono is₂ (by simp [h₂]) fun _ h => h
  refine Builds.none s₁ hB₂ ?_ rfl ?_
  · exact wellTypedAfter_of_inScope hB₂.stack (by simp [hVar, getInputVariables])
      (by simp [getInputVariables]) (by simpa using ⟨hScope₂, hBytes⟩)
  rintro - is₃ h₃ hB₃
  refine Builds.pure hB₃ ⟨rfl, opening, c.index, payload, UInt8.ofBitVec messageType, extensionType,
    hOpening, ?_⟩
  rw [h₃, h₂, h₁]
  simp

/-! ## Any of them -/

/-- The generators of the crate. -/
inductive AnyGenerator where
  | setupConnection (g : SetupConnectionGenerator)
  | adversarialSetup (g : AdversarialSetupGenerator)
  | rawFrame (g : RawFrameGenerator)

def AnyGenerator.generate (rng : RngExt ρ) : AnyGenerator → Gen ρ Unit
  | .setupConnection g => g.generate rng
  | .adversarialSetup g => g.generate rng
  | .rawFrame g => g.generate rng

/-- The role a generator opens connections to. -/
def AnyGenerator.role : AnyGenerator → Nat
  | .setupConnection g => g.role
  | .adversarialSetup g => g.role
  | .rawFrame g => g.role

theorem SetupOn.balanced {c n : Nat} {protocol : Protocol} {minVersion maxVersion : UInt16}
    {flags : UInt32} {l : List Instruction} (h : SetupOn c protocol minVersion maxVersion flags n l) :
    Balanced (brackets l) := by
  obtain ⟨endpoint, deviceInfo, rfl⟩ := h
  cases endpoint <;> cases deviceInfo <;> exact balanced_iff_openStack.mpr rfl

theorem connectionFragment_balanced (role n : Nat) : Balanced (brackets (connectionFragment role n)) :=
  balanced_iff_openStack.mpr rfl

theorem AdversarialFragment.balanced {role n : Nat} {protocol : Protocol}
    {violation : SetupViolation} {l : List Instruction}
    (h : AdversarialFragment role protocol n violation l) : Balanced (brackets l) := by
  have hOpen := connectionFragment_balanced role n
  cases h with
  | emptyVersionRange _ h => exact brackets_append _ _ ▸ hOpen.append h.balanced
  | unknownVersion _ _ h => exact brackets_append _ _ ▸ hOpen.append h.balanced
  | undefinedFlags _ h => exact brackets_append _ _ ▸ hOpen.append h.balanced
  | afterRawFrame _ _ h =>
    rw [brackets_append, brackets_append]
    exact (hOpen.append (balanced_iff_openStack.mpr rfl)).append h.balanced
  | secondSetup _ h h' =>
    rw [brackets_append, brackets_append]
    exact (hOpen.append h.balanced).append h'.balanced

/-- **Whatever a generator appends is a balanced fragment**; only a role that
is not there makes it fail. -/
theorem AnyGenerator.builds_generate (rng : RngExt ρ) (hB : Building ctx is s) (g : AnyGenerator) :
    Builds ctx (ctx.numRoles ≤ g.role) (g.generate rng) is s fun _ is' s' => s' = s ∧
      ∃ l, is' = is ++ l ∧ Balanced (brackets l) := by
  cases g with
  | setupConnection g =>
    refine (SetupConnectionGenerator.builds_generate rng hB g).mono ?_
    rintro - is' s' ⟨hs, opening, l, c, protocol, flags, -, -, hOpening, hSetup, rfl⟩
    refine ⟨hs, opening ++ l, List.append_assoc .., ?_⟩
    rw [brackets_append]
    refine Balanced.append ?_ hSetup.balanced
    -- the fragment may open a connection first, which is balanced by itself
    rcases hOpening with ⟨-, rfl⟩ | ⟨rfl, -⟩
    · exact .nil
    · exact connectionFragment_balanced _ _
  | adversarialSetup g =>
    refine (AdversarialSetupGenerator.builds_generate rng hB g).mono ?_
    rintro - is' s' ⟨hs, protocol, l, -, hFragment, rfl⟩
    exact ⟨hs, l, rfl, hFragment.balanced⟩
  | rawFrame g =>
    refine (RawFrameGenerator.builds_generate rng hB g).mono ?_
    rintro - is' s' ⟨hs, opening, c, payload, messageType, extensionType, hOpening, rfl⟩
    refine ⟨hs, _, List.append_assoc .., ?_⟩
    rw [brackets_append]
    refine Balanced.append ?_ (balanced_iff_openStack.mpr rfl)
    rcases hOpening with rfl | ⟨rfl, -⟩
    · exact .nil
    · exact connectionFragment_balanced _ _

end Specs

end Stratamoto
