import Stratamoto.IR.Fragments
import Stratamoto.IR.Violations

/-!
# Stratamoto — where a compiled program comes from

The metadata is filled in at many places of one long match, and points back to
the program that was compiled. What it says is compared here with the two
passes that know: the compiler's own run, which pushed the action, and the
builder's, which gave the variable its index.

* `PushedBy S p a n` — the action was pushed while the instruction was compiled;
* `Operation.LowersTo S op action` — the kinds of action an operation lowers to;
* `Program.Gives n var v` — the variable the builder returned for the instruction;
* `awaits_lowerAll`, `opens_lowerAll` — the ids, in the order of the actions;
* `metadata_points_back` — the metadata of a compiled program points back to it.
-/

namespace Stratamoto

open Brackets Operation

/-- The action `a` is one of those pushed while the instruction at `n` was
compiled, after the ones before it. -/
def PushedBy (S : Sv2) (p : Program) (a n : Nat) : Prop :=
  ∃ i c c', p.instructions[n]? = some i ∧
    (Compiler.start p.context).compileInstructions S 0 (p.instructions.take n) = .ok c ∧
    c.compileInstruction S n i = .ok c' ∧ c.actions.length ≤ a ∧ a < c'.actions.length

/-- The kinds of action an operation lowers to. -/
def Operation.LowersTo (S : Sv2) : Operation → Action → Prop
  | .connect, .connect _ _ => True
  | .sendSetupConnection _, .send _ extensionType messageType _ _ =>
    extensionType = 0 ∧ messageType = S.messageTypeSetupConnection
  | .sendSetupConnection protocol, .awaitSetupResponse _ _ protocol' _ => protocol' = protocol
  | .beginOnSetupSuccess _, .enterOnSetupSuccess _ _ => True
  | .endOnSetupSuccess, .exitBlock => True
  | .sendRawFrame messageType extensionType, .send _ extensionType' messageType' _ _ =>
    extensionType' = extensionType ∧ messageType' = messageType
  | .advanceTime, .advanceTime _ => True
  | .probe, .probe => True
  | _, _ => False

/-- Appending the instruction at `n` to the builder of those before it returns the
variable `v`, of type `var`. -/
def Program.Gives (p : Program) (n : Nat) (var : Variable) (v : Nat) : Prop :=
  ∃ i b b', p.instructions[n]? = some i ∧
    ProgramBuilder.fromPrefix p.context (p.instructions.take n) = .ok (.ok b) ∧
    b.append i = .ok (.ok [⟨var, v⟩], b')

/-- The session an action awaits the answer of. -/
def Action.awaits : Action → Option Nat
  | .awaitSetupResponse _ session _ _ => some session
  | _ => none

section Lowering

variable {S : Sv2} {ctx : ProgramContext} {is : List Instruction}

theorem lower_lowersTo {before : List Instruction} {exit k : Nat} {i : Instruction}
    {action : Action} (h : (lower S ctx before exit i)[k]? = some action) :
    i.operation.LowersTo S action := by
  unfold lower at h
  cases hOp : i.operation <;> rcases k with _ | _ | k <;> simp_all
  all_goals
    subst h
    simp [LowersTo]

/-! ## Ids in the order of the actions -/

theorem awaits_lowerAll (S : Sv2) (ctx : ProgramContext) (is : List Instruction)
    (exit : Nat → Nat) :
    (lowerAll S ctx is exit).filterMap Action.awaits = List.range (sends is) := by
  induction is using List.reverseRecOn with
  | nil => rfl
  | append_singleton is i ih =>
    rw [lowerAll_append, List.filterMap_append, ih, sends_snoc]
    unfold lower
    cases hOp : i.operation <;> simp [isSendSetup, Action.awaits, List.range_succ]
    rfl

theorem opens_lowerAll (S : Sv2) (ctx : ProgramContext) (is : List Instruction)
    (exit : Nat → Nat) :
    (lowerAll S ctx is exit).filterMap Action.opens =
      List.range' ctx.numConnections (connects is) := by
  induction is using List.reverseRecOn with
  | nil => rfl
  | append_singleton is i ih =>
    rw [lowerAll_append, List.filterMap_append, ih, connects_snoc]
    unfold lower
    cases hOp : i.operation <;> simp [Action.opens, List.range'_concat]

theorem pairwise_actionInstructionsOf (is : List Instruction) :
    (actionInstructionsOf is).Pairwise (· ≤ ·) := by
  induction is using List.reverseRecOn with
  | nil => exact List.Pairwise.nil
  | append_singleton is i ih =>
    rw [actionInstructionsOf_snoc, List.pairwise_append]
    refine ⟨ih, List.pairwise_replicate.mpr (Or.inr (Nat.le_refl _)), fun n hn m hm => ?_⟩
    rw [List.eq_of_mem_replicate hm]
    -- an earlier action comes from an earlier instruction
    obtain ⟨⟨j, n'⟩, hMem, hn⟩ := List.mem_flatMap.mp hn
    rw [List.eq_of_mem_replicate hn]
    exact Nat.le_of_lt (List.getElem?_eq_some_iff.mp (List.mem_zipIdx_iff_getElem?.mp hMem)).1

theorem mem_opens {actions : List Action} {c : Nat} :
    c ∈ actions.filterMap Action.opens ↔ ∃ (a role : Nat), actions[a]? = some (.connect c role) := by
  rw [List.mem_filterMap]
  constructor
  · intro h
    obtain ⟨action, hMem, hOpens⟩ := h
    obtain ⟨a, ha⟩ := List.getElem?_of_mem hMem
    cases action <;> cases hOpens
    exact ⟨a, _, ha⟩
  · intro h
    obtain ⟨a, role, ha⟩ := h
    exact ⟨_, List.mem_of_getElem? ha, rfl⟩

theorem mem_awaits {actions : List Action} {session : Nat} :
    session ∈ actions.filterMap Action.awaits ↔ ∃ (a c : Nat) (protocol : Protocol) (first : Bool),
      actions[a]? = some (.awaitSetupResponse c session protocol first) := by
  rw [List.mem_filterMap]
  constructor
  · intro h
    obtain ⟨action, hMem, hAwaits⟩ := h
    obtain ⟨a, ha⟩ := List.getElem?_of_mem hMem
    cases action <;> cases hAwaits
    exact ⟨a, _, _, _, ha⟩
  · intro h
    obtain ⟨a, c, protocol, first, ha⟩ := h
    exact ⟨_, List.mem_of_getElem? ha, rfl⟩

/-- A role variable holds a role of the context. -/
theorem names_role (hTyped : WellTypedPrefix ctx is) {v : Nat} (h : Names is v .role) :
    roleOf ctx is v < ctx.numRoles := by
  obtain ⟨d, i, hd, hi, -, hVar⟩ := h.definition
  obtain ⟨r, hOp⟩ : ∃ r, i.operation = .loadRole r := makes_of_output hVar
  have hRole := (hTyped d.instruction i hi).role r hOp
  simpa only [roleOf, constants, hd, hi, hOp, loaded, Value.asRole, Option.getD_some] using hRole

end Lowering

/-! ## The two passes -/

section Passes

variable {S : Sv2} {p : Program}

/-- The compiler's state in front of an instruction, where the program compiles. -/
theorem lowered_take (hS : S.Lawful) (hTyped : WellTyped p.context p.instructions)
    (hShort : NoneTooLong p.context p.instructions) (n : Nat) :
    ∃ c s, (Compiler.start p.context).compileInstructions S 0 (p.instructions.take n) = .ok c ∧
      openStack (brackets (p.instructions.take n)) = some s ∧
      Lowered S p.context (p.instructions.take n) s c := by
  obtain ⟨s, hs⟩ := openStack_take (balanced_iff_openStack.mp hTyped.balanced) n
  rw [← brackets_take] at hs
  rcases compileInstructions_cases hS (p.instructions.take n) (lowered_start S p.context) rfl hs
    (hTyped.instructions.take n) (fun m i v hi => by simp at hi) with
    ⟨-, c, hCompile, hLowered⟩ | ⟨v, ⟨m, i, hi, hLong, -⟩, -⟩
  · exact ⟨c, s, hCompile, hs, hLowered⟩
  · -- no setup of the program is too long
    rw [List.nil_append] at hi hLong
    obtain ⟨-, hi, hBefore⟩ := getElem?_of_take hi
    rw [hBefore] at hLong
    exact absurd hLong (hShort m i v hi)

/-- An action is pushed while the instruction it comes from is compiled. -/
theorem pushedBy_of_comesFrom (hS : S.Lawful) (hTyped : WellTyped p.context p.instructions)
    (hShort : NoneTooLong p.context p.instructions) {a n k : Nat} {i : Instruction}
    (hFrom : ComesFrom p.instructions a n k i) : PushedBy S p a n := by
  have hn := (List.getElem?_eq_some_iff.mp hFrom.at_index).1
  obtain ⟨c, s, hCompile, hs, hLowered⟩ := lowered_take hS hTyped hShort n
  obtain ⟨s', hs'⟩ := openStack_take (balanced_iff_openStack.mp hTyped.balanced) (n + 1)
  rw [← brackets_take, List.take_add_one, hFrom.at_index] at hs'
  obtain ⟨c', hStep, hLowered'⟩ := compileInstruction_lowered hS (hTyped.instructions.take n)
    hLowered hs hs' (hTyped.instructions n i hFrom.at_index) fun v => hShort n i v hFrom.at_index
  rw [List.length_take, Nat.min_eq_left (Nat.le_of_lt hn)] at hStep
  have hLt := hFrom.lt
  have hIndex := hFrom.index
  refine ⟨i, c, c', hFrom.at_index, hCompile, hStep, ?_, ?_⟩
  · rw [hLowered.actions, length_actionsOf]
    omega
  · rw [hLowered'.actions, length_actionsOf, actionCount_snoc]
    omega

/-- The variable the builder returns for an instruction that defines one. -/
theorem gives_of_output (hTyped : WellTyped p.context p.instructions) {n : Nat} {i : Instruction}
    (hi : p.instructions[n]? = some i) {var : Variable}
    (hOutput : i.operation.getOutputVariables = [var])
    (hInner : i.operation.getInnerOutputVariables = []) :
    p.Gives n var (definitions (p.instructions.take n)).length := by
  have hn := (List.getElem?_eq_some_iff.mp hi).1
  have hBalanced := balanced_iff_openStack.mp hTyped.balanced
  obtain ⟨s, hs⟩ := openStack_take hBalanced n
  obtain ⟨s', hs'⟩ := openStack_take hBalanced (n + 1)
  rw [← brackets_take] at hs
  rw [← brackets_take, List.take_add_one, hi] at hs'
  have hStep := openStack_brackets_snoc hs i
  rw [show openStack (brackets (p.instructions.take n ++ [i])) = some s' from hs'] at hStep
  have hAppend := append_ok hs (hTyped.instructions n i hi) hStep.symm
  rw [newVariables, hOutput, hInner] at hAppend
  exact ⟨i, _, _, hi, fromPrefix_ok_iff.mpr ⟨hTyped.instructions.take n, s, hs, rfl⟩, hAppend⟩

end Passes

/-! ## What the metadata says -/

theorem MadeBy.mem_iff {β : Type} {is : List Instruction} {m : HashMap β}
    {entry : List Instruction → Instruction → Option (Nat × β)} (h : MadeBy is entry m) {k : Nat} :
    k ∈ m ↔ ∃ (n : Nat) (i : Instruction) (v : β), is[n]? = some i ∧
      entry (is.take n) i = some (k, v) := by
  rw [← AList.lookup_isSome, Option.isSome_iff_exists]
  constructor
  · intro hSome
    obtain ⟨v, hv⟩ := hSome
    obtain ⟨n, i, hi, hEntry⟩ := (h k v).mp hv
    exact ⟨n, i, v, hi, hEntry⟩
  · intro hMade
    obtain ⟨n, i, v, hi, hEntry⟩ := hMade
    exact ⟨v, (h k v).mpr ⟨n, i, hi, hEntry⟩⟩

/-- The connections recorded are those that are opened. -/
theorem mem_connectionVariables (S : Sv2) {ctx : ProgramContext} {is : List Instruction}
    {m : HashMap Nat} (h : MadeBy is (connectionEntry ctx) m) {c : Nat} :
    c ∈ m ↔ c ∈ (actionsOf S ctx is).filterMap Action.opens := by
  rw [h.mem_iff, mem_opens]
  constructor
  · intro hMade
    obtain ⟨n, i, v, hi, hEntry⟩ := hMade
    obtain ⟨hOp, rfl, rfl⟩ := connectionEntry_eq_some.mp hEntry
    have hFrom : ComesFrom is (actionCount (is.take n)) n 0 i :=
      ⟨hi, by rw [hOp]; exact Nat.one_pos, rfl⟩
    exact ⟨_, _, connect_iff.mpr ⟨n, i, hFrom, hOp, rfl, rfl⟩⟩
  · intro hOpens
    obtain ⟨a, role, ha⟩ := hOpens
    obtain ⟨n, i, hFrom, hOp, rfl, -⟩ := connect_iff.mp ha
    exact ⟨n, i, _, hFrom.at_index, if_pos hOp⟩

/-- Whatever is recorded of sessions, it is of those that are awaited. -/
theorem mem_sessionMap (S : Sv2) {ctx : ProgramContext} {is : List Instruction} {β : Type}
    {get : List Instruction → Instruction → β} {m : HashMap β}
    (h : MadeBy is (sessionEntry get) m) {session : Nat} :
    session ∈ m ↔ session ∈ (actionsOf S ctx is).filterMap Action.awaits := by
  rw [h.mem_iff, mem_awaits]
  constructor
  · intro hMade
    obtain ⟨n, i, v, hi, hEntry⟩ := hMade
    obtain ⟨hSend, rfl, -⟩ := sessionEntry_eq_some.mp hEntry
    obtain ⟨protocol, hOp⟩ := isSendSetup_iff.mp hSend
    exact ⟨_, _, _, _, await_of_send _ _ hi hOp⟩
  · intro hAwaits
    obtain ⟨a, c, protocol, first, ha⟩ := hAwaits
    obtain ⟨n, i, hFrom, hOp, -, rfl, -⟩ := await_session ha
    exact ⟨n, i, _, hFrom.at_index, if_pos (by rw [hOp]; rfl)⟩

/-- The metadata of the compiled program points back to the program. -/
structure PointsBack (S : Sv2) (p : Program) (compiled : CompiledProgram) : Prop where
  /-- One entry for each action, in the order of the program. -/
  length : compiled.metadata.actionInstructions.length = compiled.actions.length
  sorted : compiled.metadata.actionInstructions.Pairwise (· ≤ ·)
  /-- The entry of an action names the instruction that was compiled when it was
  pushed, and whose operation lowers to such actions. -/
  instruction : ∀ (a : Nat) (action : Action), compiled.actions[a]? = some action →
    ∃ n i, compiled.metadata.actionInstructions[a]? = some n ∧ p.instructions[n]? = some i ∧
      i.operation.LowersTo S action ∧ PushedBy S p a n
  /-- Connections are numbered on from those of the context, each opened once. -/
  connections : ∃ k, compiled.actions.filterMap Action.opens =
    List.range' p.context.numConnections k
  connect : ∀ a c role : Nat, compiled.actions[a]? = some (.connect c role) →
    role < p.context.numRoles ∧
    (∀ (n : Nat) (i : Instruction), p.instructions[n]? = some i →
      i.operation ≠ .loadConnection c) ∧
    ∃ n v, compiled.metadata.actionInstructions[a]? = some n ∧ p.Gives n .connection v ∧
      compiled.metadata.connectionVariables.lookup c = some v
  /-- Sessions are numbered from zero on, each awaited once. -/
  sessions : ∃ k, compiled.actions.filterMap Action.awaits = List.range k
  once : ∀ session ∈ compiled.actions.filterMap Action.awaits,
    ∃! a : Nat, ∃ (c : Nat) (protocol : Protocol) (first : Bool),
      compiled.actions[a]? = some (.awaitSetupResponse c session protocol first)
  await : ∀ (a c session : Nat) (protocol : Protocol) (first : Bool),
    compiled.actions[a]? = some (.awaitSetupResponse c session protocol first) →
    ∃ n v, compiled.metadata.actionInstructions[a]? = some n ∧
      p.Gives n (.setupAttempt protocol) v ∧
      compiled.metadata.sessionVariables.lookup session = some v
  /-- The maps have these keys, and no others. -/
  connectionKeys : ∀ c, c ∈ compiled.metadata.connectionVariables ↔
    c ∈ compiled.actions.filterMap Action.opens
  sessionKeys : ∀ session, session ∈ compiled.metadata.sessionVariables ↔
    session ∈ compiled.actions.filterMap Action.awaits
  setupKeys : ∀ session, session ∈ compiled.metadata.sessionSetups ↔
    session ∈ compiled.actions.filterMap Action.awaits

/-- **The metadata points back at the right places.** In a statically valid
program that compiles, every action is said to come from the instruction that it
was pushed for; connections and sessions are numbered in the order of the
program, and each is recorded with the variable that the builder gave to the
instruction that made it. -/
theorem metadata_points_back {S : Sv2} (hS : S.Lawful) {p : Program} {compiled : CompiledProgram}
    (hValid : p.isStaticallyValid = .ok true) (hCompile : Compiler.compile S p = .ok compiled) :
    PointsBack S p compiled := by
  obtain ⟨hTyped, hActions, hDescribes⟩ := compiled_of_valid hS hValid hCompile
  have hShort := noneTooLong_of_compile hS hTyped hCompile
  have hInstructions := hDescribes.actionInstructions
  have hOpens := opens_lowerAll S p.context p.instructions (exitOf p.instructions)
  have hAwaits := awaits_lowerAll S p.context p.instructions (exitOf p.instructions)
  rw [← actionsOf_eq, ← hActions] at hOpens hAwaits
  refine
    { length := by rw [hInstructions, hActions, length_actionInstructionsOf, length_actionsOf]
      sorted := hInstructions ▸ pairwise_actionInstructionsOf p.instructions
      instruction := fun a action ha => ?_
      connections := ⟨_, hOpens⟩
      connect := fun a c role ha => ?_
      sessions := ⟨_, hAwaits⟩
      once := fun session hMem => ?_
      await := fun a c session protocol first ha => ?_
      connectionKeys := fun c => hActions ▸ mem_connectionVariables S hDescribes.connectionVariables
      sessionKeys := fun session => hActions ▸ mem_sessionMap S hDescribes.sessionVariables
      setupKeys := fun session => hActions ▸ mem_sessionMap S hDescribes.sessionSetups }
  · rw [hActions] at ha
    obtain ⟨n, k, i, hFrom, hLower⟩ := exists_of_action ha
    exact ⟨n, i, hInstructions ▸ hFrom.instruction, hFrom.at_index, lower_lowersTo hLower,
      pushedBy_of_comesFrom hS hTyped hShort hFrom⟩
  · rw [hActions] at ha
    obtain ⟨n, i, hFrom, hOp, rfl, rfl⟩ := connect_iff.mp ha
    have hVar : i.operation.getInputVariables[0]? = some .role := by
      rw [hOp]
      rfl
    have hInput := ((hTyped.instructions n i hFrom.at_index).input hVar).2
    refine ⟨names_role (hTyped.instructions.take n) hInput, fun m j hj hLoad => ?_,
      n, _, hInstructions ▸ hFrom.instruction,
      gives_of_output hTyped hFrom.at_index (by rw [hOp]; rfl) (by rw [hOp]; rfl),
      (hDescribes.connectionVariables _ _).mpr ⟨n, i, hFrom.at_index, if_pos hOp⟩⟩
    -- a loaded connection is one of the context
    have := (hTyped.instructions m j hj).connection _ hLoad
    omega
  · obtain ⟨a, c, protocol, first, ha⟩ := mem_awaits.mp hMem
    refine ⟨a, ⟨c, protocol, first, ha⟩, fun a' h => ?_⟩
    obtain ⟨c', protocol', first', ha'⟩ := h
    rw [hActions] at ha ha'
    exact (blocks_actionsOf hTyped).once _ _ _ _ _ _ _ _ _ ha' ha
  · rw [hActions] at ha
    obtain ⟨n, i, hFrom, hOp, -, rfl, -⟩ := await_session ha
    exact ⟨n, _, hInstructions ▸ hFrom.instruction,
      gives_of_output hTyped hFrom.at_index (by rw [hOp]; rfl) (by rw [hOp]; rfl),
      (hDescribes.sessionVariables _ _).mpr
        ⟨n, i, hFrom.at_index, if_pos (by rw [hOp]; rfl)⟩⟩

/-- The connection is the second variable, and its session the fifth. -/
theorem metadata_points_back_singleSetup : ∃ compiled,
    Compiler.compile Sv2.wire singleSetup = .ok compiled ∧
    compiled.metadata.actionInstructions = [1, 4, 4, 5, 6, 7] ∧
    compiled.metadata.connectionVariables.lookup 0 = some 1 ∧
    compiled.metadata.sessionVariables.lookup 0 = some 4 ∧
    PointsBack Sv2.wire singleSetup compiled := by
  obtain ⟨compiled, hCompile, hInstructions, hConnection, hSession⟩ : ∃ compiled,
      Compiler.compile Sv2.wire singleSetup = .ok compiled ∧
      compiled.metadata.actionInstructions = [1, 4, 4, 5, 6, 7] ∧
      compiled.metadata.connectionVariables.lookup 0 = some 1 ∧
      compiled.metadata.sessionVariables.lookup 0 = some 4 := ⟨_, rfl, rfl, rfl, rfl⟩
  exact ⟨compiled, hCompile, hInstructions, hConnection, hSession,
    metadata_points_back Sv2.wire_lawful (by decide) hCompile⟩

end Stratamoto
