import Stratamoto.IR.Mutators
import Stratamoto.IR.Nesting

/-!
# Stratamoto — a program with one value rewritten

What a rewrite of the data of one operation changes in the compiled program. The
value goes where it is read: a role into a connect, the field of a message into
every send of it, bytes into a raw frame. Everything else that the compiler
computes is decided by the shapes of the instructions.

* `Rewritten is is' n op op'` — the lists differ in one operation;
* `Flows is n v` — the value of the instruction at `n` may reach the variable `v`;
* `constants_rewritten`, `messageSpec_rewritten` — what is read is the same where
  the value does not flow;
* `DataChanged`, `SameButData` — what two compiled programs may differ in;
* `operation_mutator_exact` — what the mutator does, and what follows from it.
-/

namespace Stratamoto

open Brackets Operation Draws

/-- The lists differ in the operation at `n`, which is `op` in the one and `op'` in
the other. -/
structure Rewritten (is is' : List Instruction) (n : Nat) (op op' : Operation) : Prop where
  length : is'.length = is.length
  same : ∀ m ≠ n, is'[m]? = is[m]?
  changed : ∀ i : Instruction, is[n]? = some i →
    i.operation = op ∧ is'[n]? = some { i with operation := op' }

/-- What the instruction at `n` defines, or edits, reaches the variable. -/
inductive Flows (is : List Instruction) (n : Nat) : Nat → Prop where
  | defined {v : Nat} {d : Definition} : (definitions is)[v]? = some d → d.instruction = n →
    Flows is n v
  | edited {m k v : Nat} {i : Instruction} : is[m]? = some i → i.operation.isEdit = true →
    i.inputs[k]? = some v → Flows is n v → Flows is n (i.input 0)
  | built {v : Nat} {d : Definition} {i : Instruction} {protocol : Protocol} :
    (definitions is)[v]? = some d → is[d.instruction]? = some i →
    i.operation = .endBuildSetupConnection protocol → Flows is n (i.input 0) → Flows is n v

/-- The values that fill in a field of a setup. -/
def Operation.fillsSetup : Operation → Bool
  | .loadVersion _ | .loadFlags _ | .loadPort _ | .loadStr _ => true
  | _ => false

section Lists

variable {ctx : ProgramContext} {is is' : List Instruction} {n : Nat} {op op' : Operation}

theorem rewritten_set {i : Instruction} (hi : is[n]? = some i) (op' : Operation) :
    Rewritten is (is.set n { i with operation := op' }) n i.operation op' where
  length := List.length_set
  same m hm := List.getElem?_set_ne (Ne.symm hm)
  changed j hj := by
    obtain rfl := Option.some.inj (hi.symm.trans hj)
    exact ⟨rfl, List.getElem?_set_self (List.getElem?_eq_some_iff.mp hi).1⟩

theorem Rewritten.take (h : Rewritten is is' n op op') (m : Nat) :
    Rewritten (is.take m) (is'.take m) n op op' where
  length := by rw [List.length_take, List.length_take, h.length]
  same k hk := by rw [List.getElem?_take, List.getElem?_take, h.same k hk]
  changed i hi := by
    rw [List.getElem?_take] at hi ⊢
    split at hi
    · rename_i hLt
      rw [if_pos hLt]
      exact h.changed i hi
    · cases hi

/-- The instruction in the place of another one. -/
theorem Rewritten.getElem? (h : Rewritten is is' n op op') {m : Nat} {i : Instruction}
    (hi : is[m]? = some i) : (m ≠ n ∧ is'[m]? = some i) ∨
      (m = n ∧ i.operation = op ∧ is'[m]? = some { i with operation := op' }) := by
  by_cases hm : m = n
  · subst hm
    obtain ⟨hOp, hi'⟩ := h.changed i hi
    exact Or.inr ⟨rfl, hOp, hi'⟩
  · exact Or.inl ⟨hm, by rw [h.same m hm, hi]⟩

theorem Rewritten.exists_iff (h : Rewritten is is' n op op') {Q Q' : Nat → Instruction → Prop}
    (hQ : ∀ (m : Nat) (i i' : Instruction), is[m]? = some i → is'[m]? = some i' →
      (Q' m i' ↔ Q m i)) :
    (∃ (m : Nat) (i' : Instruction), is'[m]? = some i' ∧ Q' m i') ↔
      ∃ (m : Nat) (i : Instruction), is[m]? = some i ∧ Q m i := by
  constructor
  · intro hSome
    obtain ⟨m, i', hi', hHolds⟩ := hSome
    have hLt := (List.getElem?_eq_some_iff.mp hi').1
    rw [h.length] at hLt
    have hi := List.getElem?_eq_getElem hLt
    exact ⟨m, _, hi, (hQ m _ i' hi hi').mp hHolds⟩
  · intro hSome
    obtain ⟨m, i, hi, hHolds⟩ := hSome
    obtain ⟨-, hi'⟩ | ⟨-, -, hi'⟩ := h.getElem? hi
    · exact ⟨m, _, hi', (hQ m i _ hi hi').mpr hHolds⟩
    · exact ⟨m, _, hi', (hQ m i _ hi hi').mpr hHolds⟩

theorem Rewritten.occurs_eq (h : Rewritten is is' n op op')
    {Q : List Instruction → Instruction → Bool}
    (hQ : ∀ (m : Nat) (i i' : Instruction), is[m]? = some i → is'[m]? = some i' →
      Q (is'.take m) i' = Q (is.take m) i) : occurs is' Q = occurs is Q := by
  rw [Bool.eq_iff_iff, occurs_iff, occurs_iff]
  exact h.exists_iff fun m i i' hi hi' => by rw [hQ m i i' hi hi']

theorem Rewritten.map_eq (h : Rewritten is is' n op op') {β : Type} (f : Operation → β)
    (hf : f op' = f op) : (is'.map fun i => f i.operation) = is.map fun i => f i.operation := by
  refine List.ext_getElem? fun m => ?_
  rw [List.getElem?_map, List.getElem?_map]
  cases hi : is[m]? with
  | none =>
    have hLen := List.getElem?_eq_none_iff.mp hi
    rw [List.getElem?_eq_none (by rw [h.length]; exact hLen)]
  | some i =>
    obtain ⟨-, hi'⟩ | ⟨-, hOp, hi'⟩ := h.getElem? hi
    · rw [hi']
    · rw [hi', Option.map_some, Option.map_some, hf, hOp]

theorem Rewritten.total_eq (h : Rewritten is is' n op op') (weight : Operation → Nat)
    (hWeight : weight op' = weight op) : total weight is' = total weight is := by
  rw [total, total, h.map_eq weight hWeight]

/-! ## What the shapes decide -/

section Shapes

variable (hRewrite : Rewrite ctx op op') (h : Rewritten is is' n op op')

include hRewrite h

theorem Rewritten.brackets_eq : brackets is' = brackets is :=
  h.map_eq Operation.bracket (congrArg Prod.fst hRewrite.rewrites.shape)

theorem Rewritten.definitions_eq : definitions is' = definitions is :=
  definitions_of_shapes (h.map_eq Operation.shape hRewrite.rewrites.shape)

theorem Rewritten.connects_eq : connects is' = connects is :=
  h.total_eq _ (by cases hRewrite <;> rfl)

theorem Rewritten.sends_eq : sends is' = sends is :=
  h.total_eq _ (by cases hRewrite <;> rfl)

theorem Rewritten.actionCount_eq : actionCount is' = actionCount is :=
  h.total_eq _ (by cases hRewrite <;> rfl)

theorem Rewritten.exitOf_eq (m : Nat) : exitOf is' m = exitOf is m := by
  simp only [exitOf, h.brackets_eq hRewrite, (h.take _).actionCount_eq hRewrite]

theorem Rewritten.actionInstructions_eq : actionInstructionsOf is' = actionInstructionsOf is := by
  have hMap := h.map_eq Operation.numActions (by cases hRewrite <;> rfl)
  have hLayout : ∀ l : List Instruction, actionInstructionsOf l =
      (l.map fun i => i.operation.numActions).zipIdx.flatMap fun p => List.replicate p.1 p.2 := by
    intro l
    rw [List.zipIdx_map, List.flatMap_map]
    rfl
  rw [hLayout, hLayout, hMap]

end Shapes

/-! ## What is loaded -/

theorem loaded_congr (ctx : ProgramContext) {before before' : List Instruction}
    (h : connects before' = connects before) (op : Operation) :
    loaded ctx before' op = loaded ctx before op := by
  cases op <;> simp [loaded, h]

/-- What a rewritten operation loads does not depend on where it stands. -/
theorem Rewrite.loaded_eq (hRewrite : Rewrite ctx op op') (before : List Instruction) :
    loaded ctx before op = loaded ctx [] op ∧ loaded ctx before op' = loaded ctx [] op' := by
  cases hRewrite <;> exact ⟨rfl, rfl⟩

section Values

variable (hRewrite : Rewrite ctx op op') (h : Rewritten is is' n op op')

include hRewrite h

/-- A variable holds what it held, or the value that was rewritten. -/
theorem constants_rewritten (v : Nat) : constants ctx is' v = constants ctx is v ∨
    (∃ d, (definitions is)[v]? = some d ∧ d.instruction = n) ∧
      constants ctx is v = loaded ctx [] op ∧ constants ctx is' v = loaded ctx [] op' := by
  unfold constants
  rw [h.definitions_eq hRewrite]
  cases hd : (definitions is)[v]? with
  | none => exact Or.inl rfl
  | some d =>
    have hi := List.getElem?_eq_getElem (definition_lt hd)
    obtain ⟨-, hi'⟩ | ⟨hAt, hOp, hi'⟩ := h.getElem? hi
    · left
      simp only [hi, hi']
      exact loaded_congr ctx ((h.take _).connects_eq hRewrite) _
    · right
      simp only [hi, hi', hOp]
      exact ⟨⟨d, rfl, hAt⟩, (hRewrite.loaded_eq _).1, (hRewrite.loaded_eq _).2⟩

theorem connectionOf_rewritten (hNot : ∀ c, op ≠ .loadConnection c) (v : Nat) :
    connectionOf ctx is' v = connectionOf ctx is v := by
  rcases constants_rewritten hRewrite h v with hSame | ⟨-, hOld, hNew⟩
  · rw [connectionOf, hSame, connectionOf]
  · rw [connectionOf, connectionOf, hOld, hNew]
    cases hRewrite with
    | connection => exact absurd rfl (hNot _)
    | role | version | flags | port | str | bytes | duration | messageType | extensionType => rfl

/-- Reading a variable gives what it gave, or the value that was rewritten. -/
theorem read_rewritten {α : Type} {get : Value → Option α} {default : α} {make : α → Operation}
    (hRead : get (loaded ctx [] op') = get (loaded ctx [] op) ∨
      op = make ((get (loaded ctx [] op)).getD default) ∧
        op' = make ((get (loaded ctx [] op')).getD default)) (v : Nat) :
    (get (constants ctx is' v)).getD default = (get (constants ctx is v)).getD default ∨
      (∃ d, (definitions is)[v]? = some d ∧ d.instruction = n) ∧
        op = make ((get (constants ctx is v)).getD default) ∧
        op' = make ((get (constants ctx is' v)).getD default) := by
  rcases constants_rewritten hRewrite h v with hSame | ⟨hDefined, hOld, hNew⟩
  · left
    rw [hSame]
  · rw [hOld, hNew]
    rcases hRead with hRead | hRead
    · exact Or.inl (by rw [hRead])
    · exact Or.inr ⟨hDefined, hRead⟩

theorem roleOf_rewritten (v : Nat) : roleOf ctx is' v = roleOf ctx is v ∨
    (∃ d, (definitions is)[v]? = some d ∧ d.instruction = n) ∧
      op = .loadRole (roleOf ctx is v) ∧ op' = .loadRole (roleOf ctx is' v) :=
  read_rewritten hRewrite h
    (by cases hRewrite <;> first | exact Or.inl rfl | exact Or.inr ⟨rfl, rfl⟩) v

theorem bytesOf_rewritten (v : Nat) : bytesOf ctx is' v = bytesOf ctx is v ∨
    (∃ d, (definitions is)[v]? = some d ∧ d.instruction = n) ∧
      op = .loadBytes (bytesOf ctx is v) ∧ op' = .loadBytes (bytesOf ctx is' v) :=
  read_rewritten hRewrite h
    (by cases hRewrite <;> first | exact Or.inl rfl | exact Or.inr ⟨rfl, rfl⟩) v

theorem durationOf_rewritten (v : Nat) : durationOf ctx is' v = durationOf ctx is v ∨
    (∃ d, (definitions is)[v]? = some d ∧ d.instruction = n) ∧
      op = .loadDuration (durationOf ctx is v) ∧ op' = .loadDuration (durationOf ctx is' v) :=
  read_rewritten hRewrite h
    (by cases hRewrite <;> first | exact Or.inl rfl | exact Or.inr ⟨rfl, rfl⟩) v

/-- The fields of a setup are filled in with the same values, where no such value
was rewritten. -/
theorem fields_rewritten {v : Nat} (hNot : op.fillsSetup = true →
      ∀ d, (definitions is)[v]? = some d → d.instruction ≠ n) :
    versionOf ctx is' v = versionOf ctx is v ∧ flagsOf ctx is' v = flagsOf ctx is v ∧
      portOf ctx is' v = portOf ctx is v ∧ strOf ctx is' v = strOf ctx is v := by
  unfold versionOf flagsOf portOf strOf
  rcases constants_rewritten hRewrite h v with hSame | ⟨⟨d, hd, hAt⟩, hOld, hNew⟩
  · rw [hSame]
    exact ⟨rfl, rfl, rfl, rfl⟩
  · rw [hOld, hNew]
    cases hRewrite with
    | version | flags | port | str => exact absurd hAt (hNot rfl d hd)
    | connection | role | bytes | duration | messageType | extensionType =>
      exact ⟨rfl, rfl, rfl, rfl⟩

/-- The session of an attempt is numbered by the sends before it. -/
theorem sessionOf_rewritten (m v : Nat) :
    sessionOf ctx (is'.take m) v = sessionOf ctx (is.take m) v := by
  rw [sessionOf, sessionOf, valueOf_definition, valueOf_definition, (h.take m).definitions_eq hRewrite]
  cases hd : (definitions (is.take m))[v]? with
  | none => rfl
  | some d =>
    obtain ⟨i, hi⟩ : ∃ i, (is.take m)[d.instruction]? = some i :=
      ⟨_, List.getElem?_eq_getElem (definition_lt hd)⟩
    simp only [Option.map_some, Option.getD_some, Definition.value]
    obtain ⟨-, hi'⟩ | ⟨-, hOp, hi'⟩ := (h.take m).getElem? hi
    · simp only [hi, hi']
      unfold Instruction.result
      cases hOp : i.operation <;> simp [Value.asAttempt, loaded,
        ((h.take m).take d.instruction).sends_eq hRewrite]
    · simp only [hi, hi']
      unfold Instruction.result
      rw [hOp]
      cases hRewrite <;> rfl

end Values

/-! ## Setups -/

section Setups

variable (hRewrite : Rewrite ctx op op') (h : Rewritten is is' n op op')
  (hTyped : WellTypedPrefix ctx is)

include hRewrite h hTyped

/-- An edit that the value does not reach is the edit it was. -/
theorem edit_rewritten {m : Nat} {i : Instruction} (hi : is[m]? = some i)
    (hEdit : i.operation.isEdit = true)
    (hFlow : op.fillsSetup = true → ¬ Flows is n (i.input 0)) (spec : SetupConnectionSpec) :
    i.edit ctx (is'.take m) spec = i.edit ctx (is.take m) spec := by
  -- a setter reads what does not flow into the message
  have hFields : ∀ (k : Nat) (var : Variable), i.operation.getInputVariables[k]? = some var →
      versionOf ctx (is'.take m) (i.input k) = versionOf ctx (is.take m) (i.input k) ∧
      flagsOf ctx (is'.take m) (i.input k) = flagsOf ctx (is.take m) (i.input k) ∧
      portOf ctx (is'.take m) (i.input k) = portOf ctx (is.take m) (i.input k) ∧
      strOf ctx (is'.take m) (i.input k) = strOf ctx (is.take m) (i.input k) := by
    intro k var hk
    refine fields_rewritten hRewrite (h.take m) fun hFills d hd hAt => ?_
    exact hFlow hFills (.edited hi hEdit ((hTyped m i hi).input hk).1
      (.defined (definitions_take hd) hAt))
  unfold Instruction.edit
  cases hOp : i.operation <;> rw [hOp] at hFields <;> simp only []
  case setVersions => rw [(hFields 1 _ rfl).1, (hFields 2 _ rfl).1]
  case setFlags => rw [(hFields 1 _ rfl).2.1]
  case setEndpoint => rw [(hFields 1 _ rfl).2.2.2, (hFields 2 _ rfl).2.2.1]
  case setDeviceInfo =>
    rw [(hFields 1 _ rfl).2.2.2, (hFields 2 _ rfl).2.2.2, (hFields 3 _ rfl).2.2.2,
      (hFields 4 _ rfl).2.2.2]

/-- A message that the value does not reach is filled in as it was. -/
theorem messageSpec_rewritten {v : Nat} (hFlow : op.fillsSetup = true → ¬ Flows is n v) (m : Nat) :
    messageSpec ctx (is'.take m) v = messageSpec ctx (is.take m) v := by
  induction m with
  | zero => rfl
  | succ m ih =>
    rw [List.take_add_one, List.take_add_one]
    cases hi : is[m]? with
    | none =>
      have hNone := List.getElem?_eq_none_iff.mp hi
      rw [List.getElem?_eq_none (by rw [h.length]; exact hNone)]
      simpa using ih
    | some i =>
      obtain ⟨-, hi'⟩ | ⟨-, hOp, hi'⟩ := h.getElem? hi
      · rw [hi', Option.toList_some, messageSpec_snoc, messageSpec_snoc, ih]
        by_cases hEdits : i.edits v = true
        · obtain ⟨hEdit, rfl⟩ := edits_iff.mp hEdits
          rw [if_pos hEdits, if_pos hEdits,
            edit_rewritten hRewrite h hTyped hi hEdit hFlow]
        · rw [if_neg hEdits, if_neg hEdits]
      · -- no rewritten operation edits a message
        have hOld : i.edits v = false := by
          rw [Instruction.edits, hOp]
          cases hRewrite <;> rfl
        have hNew : ({ i with operation := op' } : Instruction).edits v = false := by
          rw [Instruction.edits]
          cases hRewrite <;> rfl
        rw [hi', Option.toList_some, Option.toList_some, messageSpec_snoc, messageSpec_snoc, hOld,
          hNew, if_neg Bool.false_ne_true, if_neg Bool.false_ne_true, ih]

/-- A setup that the value does not reach is the one it was. -/
theorem asSetup_result {j : Nat} {i i' : Instruction} (hi : is[j]? = some i)
    (hi' : is'[j]? = some i') (hFlow : op.fillsSetup = true → ∀ protocol,
      i.operation = .endBuildSetupConnection protocol → ¬ Flows is n (i.input 0)) :
    (i'.result ctx (is'.take j)).asSetup = (i.result ctx (is.take j)).asSetup := by
  obtain ⟨-, hAt⟩ | ⟨-, hOp, hAt⟩ := h.getElem? hi
  · obtain rfl := Option.some.inj (hAt.symm.trans hi')
    unfold Instruction.result
    cases hOp : i.operation <;> simp only [loaded, Value.asSetup]
    rw [messageSpec_rewritten hRewrite h hTyped (fun hFills => hFlow hFills _ hOp)]
  · obtain rfl := Option.some.inj (hAt.symm.trans hi')
    unfold Instruction.result
    rw [hOp]
    cases hRewrite <;> rfl

theorem setupSpec_rewritten {v : Nat} (hFlow : op.fillsSetup = true → ¬ Flows is n v) (m : Nat) :
    setupSpec ctx (is'.take m) v = setupSpec ctx (is.take m) v := by
  rw [setupSpec, setupSpec, valueOf_definition, valueOf_definition, (h.take m).definitions_eq hRewrite]
  cases hd : (definitions (is.take m))[v]? with
  | none => rfl
  | some d =>
    have hLt := definition_take_lt hd
    obtain ⟨i, hi, -⟩ := mem_definitions (List.mem_of_getElem? (definitions_take hd))
    -- both programs are cut behind the definition
    have hTake : ∀ l : List Instruction, (l.take m)[d.instruction]? = l[d.instruction]? ∧
        (l.take m).take d.instruction = l.take d.instruction := fun l =>
      ⟨List.getElem?_take_of_lt hLt, by rw [List.take_take, Nat.min_eq_left (Nat.le_of_lt hLt)]⟩
    have hBuilt : op.fillsSetup = true → ∀ protocol,
        i.operation = .endBuildSetupConnection protocol → ¬ Flows is n (i.input 0) :=
      fun hFills protocol hOp hReach => hFlow hFills (.built (definitions_take hd) hi hOp hReach)
    simp only [Option.map_some, Option.getD_some, Definition.value, (hTake _).1, (hTake _).2]
    -- the instruction that defines it, or the rewritten one
    obtain ⟨-, hi'⟩ | ⟨-, hOp, hi'⟩ := h.getElem? hi
    · have hResult := asSetup_result hRewrite h hTyped hi hi' hBuilt
      simp only [hi, hi']
      split
      · rw [messageSpec_rewritten hRewrite h hTyped hFlow]
      · rw [hResult]
    · have hResult := asSetup_result hRewrite h hTyped hi hi' hBuilt
      simp only [hi, hi']
      rw [if_neg, if_neg, hResult]
      · rw [hOp]
        cases hRewrite <;> simp
      · cases hRewrite <;> simp

end Setups

/-! ## What is sent -/

section Sent

variable (hRewrite : Rewrite ctx op op') (h : Rewritten is is' n op op')
  (hNot : ∀ c, op ≠ .loadConnection c)

include hRewrite h hNot

theorem connectionOf_take_rewritten (m v : Nat) :
    connectionOf ctx (is'.take m) v = connectionOf ctx (is.take m) v :=
  connectionOf_rewritten hRewrite (h.take m) hNot v

/-- Frames go where they went. -/
theorem sendsOn_rewritten (c : Nat) {m : Nat} {i i' : Instruction} (hi : is[m]? = some i)
    (hi' : is'[m]? = some i') :
    i'.sendsOn ctx c (is'.take m) = i.sendsOn ctx c (is.take m) ∧
      i'.rawSendsOn ctx c (is'.take m) = i.rawSendsOn ctx c (is.take m) := by
  unfold Instruction.sendsOn Instruction.rawSendsOn
  simp only [connectionOf_take_rewritten hRewrite h hNot]
  obtain ⟨-, hAt⟩ | ⟨-, hOp, hAt⟩ := h.getElem? hi
  · obtain rfl := Option.some.inj (hAt.symm.trans hi')
    exact ⟨rfl, rfl⟩
  · obtain rfl := Option.some.inj (hAt.symm.trans hi')
    rw [hOp]
    cases hRewrite <;> exact ⟨rfl, rfl⟩

theorem sentOn_rewritten (c : Nat) :
    sentOn ctx is' c = sentOn ctx is c ∧ rawSentOn ctx is' c = rawSentOn ctx is c :=
  ⟨h.occurs_eq fun _ _ _ hi hi' => (sendsOn_rewritten hRewrite h hNot c hi hi').1,
    h.occurs_eq fun _ _ _ hi hi' => (sendsOn_rewritten hRewrite h hNot c hi hi').2⟩

theorem firstOn_rewritten (c : Nat) : firstOn ctx is' c = firstOn ctx is c := by
  rw [firstOn, firstOn, (sentOn_rewritten hRewrite h hNot c).1]

theorem violationsOf_rewritten (c : Nat) : violationsOf ctx is' c = violationsOf ctx is c := by
  rw [violationsOf, violationsOf, firstOn_rewritten hRewrite h hNot,
    (sentOn_rewritten hRewrite h hNot c).2]

theorem violationEntry_rewritten {m : Nat} {i i' : Instruction} (hi : is[m]? = some i)
    (hi' : is'[m]? = some i') :
    violationEntry ctx (is'.take m) i' = violationEntry ctx (is.take m) i := by
  unfold violationEntry
  simp only [connectionOf_take_rewritten hRewrite h hNot,
    violationsOf_rewritten hRewrite (h.take m) hNot, (h.take m).actionCount_eq hRewrite]
  obtain ⟨-, hAt⟩ | ⟨-, hOp, hAt⟩ := h.getElem? hi
  · obtain rfl := Option.some.inj (hAt.symm.trans hi')
    rfl
  · obtain rfl := Option.some.inj (hAt.symm.trans hi')
    rw [hOp]
    cases hRewrite <;> rfl

/-- What is noted on the actions is what was noted. -/
theorem madeBy_violations_rewritten {m : HashMap (List ClientViolation)}
    (hm : MadeBy is' (violationEntry ctx) m) : MadeBy is (violationEntry ctx) m := by
  intro a l
  rw [hm a l]
  exact h.exists_iff fun k i i' hi hi' => by rw [violationEntry_rewritten hRewrite h hNot hi hi']

end Sent

end Lists

/-! ## What may differ -/

/-- The instruction at `m` reads a variable that the value at `n` may reach, or it
is that instruction. -/
def DependsOn (is : List Instruction) (n m : Nat) : Prop :=
  m = n ∨ ∃ (i : Instruction) (k v : Nat), is[m]? = some i ∧ i.inputs[k]? = some v ∧ Flows is n v

/-- The action differs in the data that is computed from the rewritten value. -/
inductive DataChanged (S : Sv2) : Operation → Operation → Action → Action → Prop where
  | role {c r r' : Nat} : DataChanged S (.loadRole r) (.loadRole r') (.connect c r) (.connect c r')
  | setup {op op' : Operation} {c : Nat} {payload payload' : List UInt8} :
    op.fillsSetup = true → DataChanged S op op'
      (.send c 0 S.messageTypeSetupConnection false payload)
      (.send c 0 S.messageTypeSetupConnection false payload')
  | bytes {c : Nat} {e : UInt16} {m : UInt8} {v v' : List UInt8} :
    DataChanged S (.loadBytes v) (.loadBytes v') (.send c e m false v) (.send c e m false v')
  | header {c : Nat} {e e' : UInt16} {m m' : UInt8} {payload : List UInt8} :
    DataChanged S (.sendRawFrame m e) (.sendRawFrame m' e') (.send c e m false payload)
      (.send c e' m' false payload)
  | duration {d d' : Nat} :
    DataChanged S (.loadDuration d) (.loadDuration d') (.advanceTime d) (.advanceTime d')

/-- The action without its data: its kind, its ids, the end of its block and
whether it is the first on its connection. -/
def Action.skeleton : Action → Action
  | .connect c _ => .connect c 0
  | .send c _ _ channelMsg _ => .send c 0 0 channelMsg []
  | .advanceTime _ => .advanceTime 0
  | action => action

theorem DataChanged.skeleton {S : Sv2} {op op' : Operation} {action action' : Action}
    (h : DataChanged S op op' action action') : action'.skeleton = action.skeleton := by
  cases h <;> rfl

section Lowering

variable {S : Sv2} {ctx : ProgramContext} {is is' : List Instruction} {n : Nat}
  {op op' : Operation} (hRewrite : Rewrite ctx op op') (h : Rewritten is is' n op op')
  (hTyped : WellTypedPrefix ctx is) (hNot : ∀ c, op ≠ .loadConnection c)

include hRewrite h hTyped hNot

/-- **One instruction.** Each of its actions is the same, or differs in the data
that depends on the rewritten value. -/
theorem lower_rewritten {m exit k : Nat} {i i' : Instruction} {action action' : Action}
    (hi : is[m]? = some i) (hi' : is'[m]? = some i')
    (hk : (lower S ctx (is.take m) exit i)[k]? = some action)
    (hk' : (lower S ctx (is'.take m) exit i')[k]? = some action') :
    action' = action ∨ DataChanged S op op' action action' ∧ DependsOn is n m := by
  have hDefined : ∀ v, (∃ d, (definitions (is.take m))[v]? = some d ∧ d.instruction = n) →
      Flows is n v := by
    intro v hSome
    obtain ⟨d, hd, hAt⟩ := hSome
    exact .defined (definitions_take hd) hAt
  have hReads : ∀ (j : Nat) (var : Variable), i.operation.getInputVariables[j]? = some var →
      Flows is n (i.input j) → DependsOn is n m := fun j var hj hFlow =>
    Or.inr ⟨i, j, i.input j, hi, ((hTyped m i hi).input hj).1, hFlow⟩
  obtain ⟨-, hAt⟩ | ⟨rfl, hOp, hAt⟩ := h.getElem? hi
  · -- any other instruction differs only where it reads from the rewritten one
    obtain rfl := Option.some.inj (hAt.symm.trans hi')
    unfold lower at hk hk'
    cases hOp : i.operation <;> rw [hOp] at hReads <;> simp only [hOp] at hk hk'
    case connect =>
      rw [(h.take m).connects_eq hRewrite] at hk'
      rcases k with _ | k
      · obtain rfl := Option.some.inj hk
        obtain rfl := Option.some.inj hk'
        rcases roleOf_rewritten hRewrite (h.take m) (i.input 0) with hSame | ⟨hAt, rfl, rfl⟩
        · exact Or.inl (by rw [hSame])
        · exact Or.inr ⟨.role, hReads 0 _ rfl (hDefined _ hAt)⟩
      · cases hk
    case sendSetupConnection protocol =>
      rw [connectionOf_take_rewritten hRewrite h hNot, (h.take m).sends_eq hRewrite,
        firstOn_rewritten hRewrite (h.take m) hNot] at hk'
      rcases k with _ | _ | k
      · obtain rfl := Option.some.inj hk
        obtain rfl := Option.some.inj hk'
        by_cases hFlow : op.fillsSetup = true ∧ Flows is n (i.input 1)
        · exact Or.inr ⟨.setup hFlow.1, hReads 1 _ rfl hFlow.2⟩
        · left
          rw [setupSpec_rewritten hRewrite h hTyped fun hFills hReach => hFlow ⟨hFills, hReach⟩]
      · obtain rfl := Option.some.inj hk
        obtain rfl := Option.some.inj hk'
        exact Or.inl rfl
      · cases hk
    case beginOnSetupSuccess =>
      rw [sessionOf_rewritten hRewrite h] at hk'
      exact Or.inl (Option.some.inj (hk'.symm.trans hk))
    case sendRawFrame messageType extensionType =>
      rw [connectionOf_take_rewritten hRewrite h hNot] at hk'
      rcases k with _ | k
      · obtain rfl := Option.some.inj hk
        obtain rfl := Option.some.inj hk'
        rcases bytesOf_rewritten hRewrite (h.take m) (i.input 1) with hSame | ⟨hAt, hOld, hNew⟩
        · exact Or.inl (by rw [hSame])
        · refine Or.inr ⟨?_, hReads 1 _ rfl (hDefined _ hAt)⟩
          rw [hOld, hNew]
          exact .bytes
      · cases hk
    case advanceTime =>
      rcases k with _ | k
      · obtain rfl := Option.some.inj hk
        obtain rfl := Option.some.inj hk'
        rcases durationOf_rewritten hRewrite (h.take m) (i.input 0) with hSame | ⟨hAt, hOld, hNew⟩
        · exact Or.inl (by rw [hSame])
        · refine Or.inr ⟨?_, hReads 0 _ rfl (hDefined _ hAt)⟩
          rw [hOld, hNew]
          exact .duration
      · cases hk
    all_goals
      exact Or.inl (Option.some.inj (hk'.symm.trans hk))
  · -- the rewritten instruction itself: only a raw frame has an action
    obtain rfl := Option.some.inj (hAt.symm.trans hi')
    have hBefore : is'.take m = is.take m := by
      refine List.ext_getElem? fun j => ?_
      rw [List.getElem?_take, List.getElem?_take]
      split
      · rename_i hLt
        exact h.same j (Nat.ne_of_lt hLt)
      · rfl
    unfold lower at hk hk'
    rw [hBefore] at hk'
    cases hRewrite with
    | messageType hNe | extensionType hNe =>
      simp only [hOp] at hk hk'
      rcases k with _ | k
      · obtain rfl := Option.some.inj hk
        obtain rfl := Option.some.inj hk'
        exact Or.inr ⟨.header, Or.inl rfl⟩
      · cases hk
    | role | connection | version | flags | port | str | bytes | duration =>
      rw [hOp] at hk
      cases hk

end Lowering

/-- Two compiled programs that differ in the data that depends on the value of the
instruction at `n`, rewritten from `op` to `op'`. -/
structure SameButData (S : Sv2) (p : Program) (n : Nat) (op op' : Operation)
    (compiled compiled' : CompiledProgram) : Prop where
  skeleton : compiled'.actions.map Action.skeleton = compiled.actions.map Action.skeleton
  actionInstructions :
    compiled'.metadata.actionInstructions = compiled.metadata.actionInstructions
  violations : ∀ a, compiled'.metadata.violations.lookup a = compiled.metadata.violations.lookup a
  data : ∀ (a : Nat) (action action' : Action), compiled.actions[a]? = some action →
    compiled'.actions[a]? = some action' → action' = action ∨
      DataChanged S op op' action action' ∧
        ∃ m, compiled.metadata.actionInstructions[a]? = some m ∧ DependsOn p.instructions n m

section Compiled

variable {S : Sv2} {p p' : Program} {n : Nat} {i : Instruction} {op' : Operation}

theorem Program.RewrittenAt.rewritten (h : p.RewrittenAt n i op' p') :
    Rewritten p.instructions p'.instructions n i.operation op' := by
  rw [h.result]
  exact rewritten_set h.at_index op'

/-- One instruction differs, and no other. -/
theorem Program.RewrittenAt.differs_iff (h : p.RewrittenAt n i op' p') (m : Nat) :
    p'.instructions[m]? ≠ p.instructions[m]? ↔ m = n := by
  constructor
  · intro hDiffers
    by_contra hm
    exact hDiffers (h.rewritten.same m hm)
  · intro hm hSame
    subst hm
    rw [h.at_index, (h.rewritten.changed i h.at_index).2, Option.some.injEq] at hSame
    exact h.rewrite.rewrites.ne (congrArg Instruction.operation hSame)

/-- The actions of a rewritten program, one by one. -/
theorem actionsOf_rewritten (h : p.RewrittenAt n i op' p')
    (hTyped : WellTypedPrefix p.context p.instructions) (hNot : ∀ c, i.operation ≠ .loadConnection c)
    {a : Nat} {action action' : Action}
    (ha : (actionsOf S p.context p.instructions)[a]? = some action)
    (ha' : (actionsOf S p.context p'.instructions)[a]? = some action') :
    action' = action ∨ DataChanged S i.operation op' action action' ∧
      ∃ m, (actionInstructionsOf p.instructions)[a]? = some m ∧ DependsOn p.instructions n m := by
  have hLists := h.rewritten
  obtain ⟨m, k, j, hFrom, hLower⟩ := exists_of_action ha
  obtain ⟨j', hj', hActions⟩ : ∃ j', p'.instructions[m]? = some j' ∧
      j'.operation.numActions = j.operation.numActions := by
    obtain ⟨-, hj'⟩ | ⟨-, hOp, hj'⟩ := hLists.getElem? hFrom.at_index
    · exact ⟨j, hj', rfl⟩
    · refine ⟨_, hj', ?_⟩
      rw [hOp]
      have hRewrite := h.rewrite
      revert hRewrite
      generalize i.operation = op
      intro hRewrite
      cases hRewrite <;> rfl
  -- the instruction in its place has its actions in the same place
  have hFrom' : ComesFrom p'.instructions a m k j' := ⟨hj', hActions ▸ hFrom.lt, by
    rw [(hLists.take m).actionCount_eq h.rewrite]
    exact hFrom.index⟩
  rw [hFrom'.action, hLists.exitOf_eq h.rewrite] at ha'
  rcases lower_rewritten h.rewrite hLists hTyped hNot hFrom.at_index hj' hLower ha' with
    hSame | ⟨hChanged, hDepends⟩
  · exact Or.inl hSame
  · exact Or.inr ⟨hChanged, m, hFrom.instruction, hDepends⟩

theorem sameButData_of_rewritten (hS : S.Lawful) (hTyped : WellTyped p.context p.instructions)
    (h : p.RewrittenAt n i op' p') (hNot : ∀ c, i.operation ≠ .loadConnection c)
    {compiled compiled' : CompiledProgram} (hCompile : Compiler.compile S p = .ok compiled)
    (hCompile' : Compiler.compile S p' = .ok compiled') :
    SameButData S p n i.operation op' compiled compiled' := by
  obtain ⟨hTyped', hContext⟩ := h.wellTyped hTyped
  obtain ⟨hActions, hDescribes⟩ := compiled_of_typed hS hTyped hCompile
  obtain ⟨hActions', hDescribes'⟩ := compiled_of_typed hS hTyped' hCompile'
  rw [hContext] at hActions' hDescribes'
  have hLists := h.rewritten
  -- the actions agree in place, so the shape of each follows from what changed in it
  have hData : ∀ (a : Nat) (action action' : Action), compiled.actions[a]? = some action →
      compiled'.actions[a]? = some action' → action' = action ∨
        DataChanged S i.operation op' action action' ∧ ∃ m,
          compiled.metadata.actionInstructions[a]? = some m ∧ DependsOn p.instructions n m := by
    intro a action action' ha ha'
    rw [hActions] at ha
    rw [hActions'] at ha'
    rw [hDescribes.actionInstructions]
    exact actionsOf_rewritten h hTyped.instructions hNot ha ha'
  refine
    { skeleton := List.ext_getElem? fun a => ?_
      actionInstructions := by
        rw [hDescribes'.actionInstructions, hDescribes.actionInstructions,
          hLists.actionInstructions_eq h.rewrite]
      violations := fun a => ?_
      data := hData }
  · have hLength : compiled'.actions.length = compiled.actions.length := by
      rw [hActions', hActions, length_actionsOf, length_actionsOf, hLists.actionCount_eq h.rewrite]
    rw [List.getElem?_map, List.getElem?_map]
    cases ha : compiled.actions[a]? with
    | none =>
      rw [List.getElem?_eq_none (hLength ▸ List.getElem?_eq_none_iff.mp ha)]
    | some action =>
      have hLt := (List.getElem?_eq_some_iff.mp ha).1
      have ha' := List.getElem?_eq_getElem (show a < compiled'.actions.length by omega)
      rw [ha', Option.map_some, Option.map_some]
      rcases hData a action _ ha ha' with hSame | ⟨hChanged, -⟩
      · rw [hSame]
      · rw [hChanged.skeleton]
  · have hOld := madeBy_violations_rewritten h.rewrite hLists hNot hDescribes'.violations
    refine Option.ext fun l => ?_
    rw [hOld a l, hDescribes.violations a l]

end Compiled

/-- **A rewrite changes one value, and what is computed from it.** When the mutator
reports success, one instruction differs, in the value it carries; it reports that
there is nothing to mutate exactly if no instruction carries a value that can be
another one. Two programs that differ in such a value, which is not a connection,
compile to the same actions up to the data that depends on it. -/
theorem operation_mutator_exact {ρ : Type} (rng : RngExt ρ) (fuel : Nat) {S : Sv2} (hS : S.Lawful)
    {p : Program} (hValid : p.isStaticallyValid = .ok true) :
    Yields (OperationMutator.mutate rng fuel p) (fun out =>
      (out.1 = .ok () ∧ ∃ n i op', p.RewrittenAt n i op' out.2 ∧
        ∀ m, out.2.instructions[m]? ≠ p.instructions[m]? ↔ m = n) ∨
      out = (.error .noMutationsAvailable, p)) ∧
    (∀ r, (∃ p' r', OperationMutator.mutate rng fuel p r =
        some (.ok ((.error .noMutationsAvailable, p'), r'))) ↔
      ∀ i ∈ p.instructions, ∀ op', ¬ Rewrite p.context i.operation op') ∧
    ∀ (n : Nat) (i : Instruction) (op' : Operation) (p' : Program), p.RewrittenAt n i op' p' →
      (∀ c, i.operation ≠ .loadConnection c) → ∀ compiled compiled' : CompiledProgram,
      Compiler.compile S p = .ok compiled → Compiler.compile S p' = .ok compiled' →
      SameButData S p n i.operation op' compiled compiled' := by
  have hYields : Yields (OperationMutator.mutate rng fuel p) fun out =>
      (out.1 = .ok () ∧ ∃ n i op', p.RewrittenAt n i op' out.2) ∨
      (out = (.error .noMutationsAvailable, p) ∧
        ∀ i ∈ p.instructions, ∀ op', ¬ Rewrite p.context i.operation op') := by
    refine (rng.ensures_shuffled _).yields.bind fun order hOrder => ?_
    refine (OperationMutator.yields_rewriteFirst rng fuel (shuffled_lt hOrder)).mono fun out hOut =>
      hOut.imp_right fun hNone => ⟨hNone.1, fun i hi => ?_⟩
    -- the order goes through all instructions
    obtain ⟨n, hn⟩ := List.getElem?_of_mem hi
    have hLt := (List.getElem?_eq_some_iff.mp hn).1
    exact hNone.2 n (hOrder.symm.subset (List.mem_range.mpr hLt)) i hn
  refine ⟨hYields.mono fun out hOut => ?_, fun r => ⟨fun hRun => ?_, fun hFixed => ?_⟩,
    fun n i op' p' h hNot compiled compiled' hCompile hCompile' =>
      sameButData_of_rewritten hS (isStaticallyValid_iff.mp hValid) h hNot hCompile hCompile'⟩
  · rcases hOut with ⟨hOk, n, i, op', hRewritten⟩ | ⟨hNone, -⟩
    · exact Or.inl ⟨hOk, n, i, op', hRewritten, hRewritten.differs_iff⟩
    · exact Or.inr hNone
  · obtain ⟨p', r', hRun⟩ := hRun
    obtain ⟨out, r'', hOut, hCases⟩ := hYields r _ hRun
    obtain ⟨rfl, rfl⟩ := Prod.mk.inj (Except.ok.inj hOut)
    rcases hCases with ⟨hOk, -⟩ | ⟨-, hFixed⟩
    · cases hOk
    · exact hFixed
  · have hEnsures : Ensures (OperationMutator.mutate rng fuel p) fun out =>
        out = (.error .noMutationsAvailable, p) :=
      (rng.ensures_shuffled _).bind fun order hOrder =>
        OperationMutator.ensures_rewriteFirst rng fuel hFixed (shuffled_lt hOrder)
    obtain ⟨out, r', hRun, rfl⟩ := hEnsures r
    exact ⟨p, r', hRun⟩

/-- The bytes of the raw frame are rewritten, and its action is the only other one. -/
theorem operation_mutator_exact_rawThenSetup : ∃ p' compiled compiled',
    OperationMutator.mutate lowest 1 rawThenSetup () = some (.ok ((.ok (), p'), ())) ∧
    Compiler.compile Sv2.wire rawThenSetup = .ok compiled ∧
    Compiler.compile Sv2.wire p' = .ok compiled' ∧
    compiled.actions[1]? = some (.send 0 0 1 false [0]) ∧
    compiled'.actions[1]? = some (.send 0 0 1 false [1]) ∧
    SameButData Sv2.wire rawThenSetup 2 (.loadBytes [0]) (.loadBytes [1]) compiled compiled' := by
  have hRewritten : rawThenSetup.RewrittenAt 2 ⟨[], .loadBytes [0]⟩ (.loadBytes [1])
      { rawThenSetup with
        instructions := rawThenSetup.instructions.set 2 ⟨[], .loadBytes [1]⟩ } :=
    ⟨rfl, .bytes (by decide), rfl⟩
  obtain ⟨compiled, compiled', hCompile, hCompile', hOld, hNew⟩ : ∃ compiled compiled',
      Compiler.compile Sv2.wire rawThenSetup = .ok compiled ∧
      Compiler.compile Sv2.wire { rawThenSetup with
        instructions := rawThenSetup.instructions.set 2 ⟨[], .loadBytes [1]⟩ } = .ok compiled' ∧
      compiled.actions[1]? = some (.send 0 0 1 false [0]) ∧
      compiled'.actions[1]? = some (.send 0 0 1 false [1]) := ⟨_, _, rfl, rfl, rfl, rfl⟩
  exact ⟨_, compiled, compiled', rfl, hCompile, hCompile', hOld, hNew,
    (operation_mutator_exact lowest 1 Sv2.wire_lawful (by decide)).2.2 _ _ _ _ hRewritten
      (by simp) _ _ hCompile hCompile'⟩

end Stratamoto
