import Stratamoto.IR.Provenance

/-!
# Stratamoto — success blocks in the list of actions

Blocks of two kinds nest in each other in a program, and only the success blocks
are left in the list it compiles to: an enter and an exit action for each, the
end of the enter patched in once its exit is there. The list is a projection of
the program (`Projects`), so its brackets are those of the source.

* `actionBrackets actions` — the enter and exit actions as a bracket word;
* `Operation.writes` — the brackets an instruction writes into it;
* `Consumes p compiled b session` — the session of the attempt the block consumes;
* `enters_enclose` — every enter names its own exit, and encloses its block.
-/

namespace Stratamoto

open Brackets Operation

def Action.bracket : Action → Token Unit
  | .enterOnSetupSuccess _ _ => .opening ()
  | .exitBlock => .closing ()
  | _ => .plain

def actionBrackets (actions : List Action) : Word Unit := actions.map Action.bracket

/-- The blocks that are left in the list of actions. -/
def successOnly : BlockKind → Option Unit
  | .success => some ()
  | .build => none

/-- What an instruction writes into the brackets of the actions. -/
def Operation.writes (op : Operation) : Word Unit :=
  match op.bracket with
  | .opening .success => [.opening ()]
  | .closing .success => [.closing ()]
  | _ => List.replicate op.numActions .plain

section Writing

variable {S : Sv2} {ctx : ProgramContext} {is : List Instruction}

theorem length_writes (op : Operation) : op.writes.length = op.numActions := by
  cases op <;> rfl

theorem lower_brackets (S : Sv2) (ctx : ProgramContext) (before : List Instruction) (exit : Nat)
    (i : Instruction) : actionBrackets (lower S ctx before exit i) = i.operation.writes := by
  unfold lower
  cases i.operation <;> rfl

theorem lowerAll_brackets (S : Sv2) (ctx : ProgramContext) (is : List Instruction)
    (exit : Nat → Nat) :
    actionBrackets (lowerAll S ctx is exit) = is.flatMap fun i => i.operation.writes := by
  induction is using List.reverseRecOn with
  | nil => rfl
  | append_singleton is i ih =>
    have hLower := lower_brackets S ctx is (exit is.length) i
    rw [actionBrackets] at ih hLower ⊢
    rw [lowerAll_append, List.map_append, ih, hLower, List.flatMap_append, List.flatMap_singleton]

theorem length_flatMap_writes (is : List Instruction) :
    (is.flatMap fun i => i.operation.writes).length = actionCount is := by
  simp [actionCount, total, List.length_flatMap, length_writes]

/-- The list of actions has the success blocks of the program, and no message. -/
theorem projects_writes : Projects (fun i : Instruction => i.operation.bracket)
    (fun i => i.operation.writes) successOnly where
  opening i k hk := by
    obtain ⟨inputs, op⟩ := i
    cases op <;> cases hk <;> rfl
  closing i k hk := by
    obtain ⟨inputs, op⟩ := i
    cases op <;> cases hk <;> rfl
  plain i hPlain y hy := by
    rw [Operation.writes, hPlain] at hy
    exact List.eq_of_mem_replicate hy

/-- An entry of the metadata is the instruction its action comes from. -/
theorem comesFrom_of_entry {a n : Nat} (h : (actionInstructionsOf is)[a]? = some n) :
    ∃ k i, ComesFrom is a n k i := by
  have hLt := (List.getElem?_eq_some_iff.mp h).1
  rw [length_actionInstructionsOf] at hLt
  obtain ⟨n', k, i, hFrom⟩ := exists_comesFrom hLt
  obtain rfl := Option.some.inj (hFrom.instruction.symm.trans h)
  exact ⟨k, i, hFrom⟩

/-- The actions strictly between the enter and the exit of a block are those of
the instructions strictly inside. -/
theorem SuccessBlock.strictly_within (hTyped : WellTyped ctx is) {b e session a : Nat}
    (h : SuccessBlock ctx is b e session) :
    (actionCount (is.take b) < a ∧ a < actionCount (is.take e)) ↔
      ∃ n, (actionInstructionsOf is)[a]? = some n ∧ b < n ∧ n < e := by
  have hActions := h.blockActions hTyped
  obtain ⟨begin_, protocol, hb, hOp, -⟩ := h.begins
  obtain ⟨i, hEnter⟩ := hActions.enter
  obtain ⟨j, hExit, -⟩ := hActions.exit
  constructor
  · intro hBetween
    -- every action comes from some instruction, and the action order is the instruction order
    obtain ⟨n, k, i', hFrom⟩ := exists_comesFrom (Nat.lt_trans hBetween.2 hExit.lt_actionCount)
    obtain ⟨hFirst, hLast⟩ := hActions.within hFrom
    have hIndex := hFrom.index
    refine ⟨n, hFrom.instruction, Nat.lt_of_le_of_ne (hFirst.mp (by omega)) fun hEq => ?_,
      Nat.lt_of_le_of_ne (hLast.mp (by omega)) fun hEq => ?_⟩
    · -- the begin of a block lowers to its enter only
      subst hEq
      obtain rfl := Option.some.inj (hb.symm.trans hFrom.at_index)
      have hOne : k < 1 := by
        have hLt := hFrom.lt
        rwa [hOp] at hLt
      omega
    · subst hEq
      omega
  · intro hInside
    obtain ⟨n, hEntry, hFirst, hLast⟩ := hInside
    obtain ⟨k, i', hFrom⟩ := comesFrom_of_entry hEntry
    exact ⟨hEnter.lt_of_lt hFrom hFirst, hFrom.lt_of_lt hExit hLast⟩

end Writing

/-! ## Every enter and its block -/

/-- The session is the one made by the setup whose attempt the block at `b` consumes. -/
def Consumes (p : Program) (compiled : CompiledProgram) (b session : Nat) : Prop :=
  ∃ i j protocol v m, p.instructions[b]? = some i ∧
    i.operation = .beginOnSetupSuccess protocol ∧ i.inputs = [v] ∧
    p.Gives m (.setupAttempt protocol) v ∧ p.instructions[m]? = some j ∧
    j.operation = .sendSetupConnection protocol ∧
    ∃ (a c : Nat) (first : Bool),
      compiled.actions[a]? = some (.awaitSetupResponse c session protocol first) ∧
      compiled.metadata.actionInstructions[a]? = some m

/-- The enter action at `a` encloses its block in the list of actions. -/
structure Encloses (p : Program) (compiled : CompiledProgram) (a session exit : Nat) : Prop where
  later : a < exit
  ends : compiled.actions[exit]? = some .exitBlock
  matched : Matches (actionBrackets compiled.actions) a exit
  /-- The end is patched in, in a list no longer than a `Vec` can be. -/
  patched : compiled.actions.length ≤ ActionId.max → exit ≠ ActionId.max
  /-- The source has a success block there, with the same instructions inside. -/
  block : ∃ b e, Matches (brackets p.instructions) b e ∧ Consumes p compiled b session ∧
    compiled.metadata.actionInstructions[a]? = some b ∧
    compiled.metadata.actionInstructions[exit]? = some e ∧
    ∀ a', (a < a' ∧ a' < exit) ↔
      ∃ n, compiled.metadata.actionInstructions[a']? = some n ∧ b < n ∧ n < e

theorem actionBrackets_closing {actions : List Action} {a : Nat}
    (h : (actionBrackets actions)[a]? = some (.closing ())) : actions[a]? = some .exitBlock := by
  rw [actionBrackets, List.getElem?_map, Option.map_eq_some_iff] at h
  obtain ⟨action, ha, hClosing⟩ := h
  cases action <;> cases hClosing
  exact ha

/-- The attempt a block consumes is the one its session belongs to. -/
theorem consumes_of_block {S : Sv2} {p : Program} {compiled : CompiledProgram}
    (hTyped : WellTyped p.context p.instructions)
    (hActions : compiled.actions = actionsOf S p.context p.instructions)
    (hInstructions : compiled.metadata.actionInstructions = actionInstructionsOf p.instructions)
    {b e session : Nat} (h : SuccessBlock p.context p.instructions b e session) :
    Consumes p compiled b session := by
  obtain ⟨i, protocol, hb, hOp, rfl⟩ := h.begins
  have hAfter := hTyped.instructions b i hb
  have hVar : i.operation.getInputVariables[0]? = some (.setupAttempt protocol) := by
    rw [hOp]
    rfl
  obtain ⟨hInput, hNames⟩ := hAfter.input hVar
  have hInputs : i.inputs = [i.input 0] := by
    have hArity := hAfter.arity
    rw [hOp] at hArity
    obtain ⟨v, hv⟩ := List.length_eq_one_iff.mp hArity
    rw [hv] at hInput ⊢
    exact congrArg (fun v => [v]) (Option.some.inj hInput)
  -- only a sent setup gives an attempt, so the input leads back to that send
  obtain ⟨m, j, hj, hSend, hSession, hIndex⟩ := names_setupAttempt p.context hNames
  obtain ⟨-, hj, hBefore⟩ := getElem?_of_take hj
  rw [hBefore] at hSession hIndex
  have hGives := gives_of_output hTyped hj (by rw [hSend]; rfl) (by rw [hSend]; rfl)
  rw [← hIndex] at hGives
  have hAwait := await_of_send S p.context hj hSend
  -- the await is the second of the two actions of the send
  have hFrom : ComesFrom p.instructions (actionCount (p.instructions.take m) + 1) m 1 j :=
    ⟨hj, by rw [hSend]; exact Nat.one_lt_two, rfl⟩
  rw [← hSession, ← hActions] at hAwait
  exact ⟨i, j, protocol, i.input 0, m, hb, hOp, hInputs, hGives, hj, hSend, _, _, _, hAwait,
    hInstructions ▸ hFrom.instruction⟩

/-- **Blocks stay blocks.** In a statically valid program that compiles, the enter
and exit actions are properly nested, and every enter encloses its block: its end
is its own exit, its session that of the attempt the block consumes, and between
the two stands what was compiled from inside the block, and nothing else. -/
theorem enters_enclose {S : Sv2} (hS : S.Lawful) {p : Program} {compiled : CompiledProgram}
    (hValid : p.isStaticallyValid = .ok true) (hCompile : Compiler.compile S p = .ok compiled) :
    Balanced (actionBrackets compiled.actions) ∧
    ∀ a session exit : Nat, compiled.actions[a]? = some (.enterOnSetupSuccess session exit) →
      Encloses p compiled a session exit := by
  obtain ⟨hTyped, hActions, hDescribes⟩ := compiled_of_valid hS hValid hCompile
  have hInstructions := hDescribes.actionInstructions
  -- the brackets of the actions are what the instructions write, one after the other
  have hWord : actionBrackets compiled.actions =
      p.instructions.flatMap fun i => i.operation.writes := by
    rw [hActions]
    exact lowerAll_brackets S p.context p.instructions _
  refine ⟨hWord ▸ projects_writes.balanced hTyped.balanced, fun a session exit hEnter => ?_⟩
  rw [hActions] at hEnter
  obtain ⟨b, e, hBlock, rfl, rfl⟩ := (enter_iff hTyped).mp hEnter
  have hBlockActions := hBlock.blockActions hTyped
  obtain ⟨i, hFrom⟩ := hBlockActions.enter
  obtain ⟨j, hFrom', -⟩ := hBlockActions.exit
  -- so a matched pair of instructions stays matched under the projection
  have hMatched : Matches (actionBrackets compiled.actions)
      (actionCount (p.instructions.take b)) (actionCount (p.instructions.take e)) := by
    obtain ⟨begin_, protocol, hb, hOp, -⟩ := hBlock.begins
    have hOpening : (brackets p.instructions)[b]? = some (.opening .success) := by
      rw [brackets, List.getElem?_map, hb, Option.map_some, hOp]
      rfl
    have hProjected := projects_writes.matches hBlock.ends hOpening rfl
    rwa [length_flatMap_writes, length_flatMap_writes, ← hWord] at hProjected
  obtain ⟨⟨⟩, -, hClosing⟩ := hMatched.tokens
  refine
    { later := hMatched.lt
      ends := actionBrackets_closing hClosing
      matched := hMatched
      patched := fun hLen => ?_
      block := ⟨b, e, hBlock.ends, consumes_of_block hTyped hActions hInstructions hBlock,
        hInstructions ▸ hFrom.instruction, hInstructions ▸ hFrom'.instruction,
        fun a' => hInstructions ▸ hBlock.strictly_within hTyped⟩ }
  have hLt := hMatched.lt_length
  rw [actionBrackets, List.length_map] at hLt
  exact Nat.ne_of_lt (Nat.lt_of_lt_of_le hLt hLen)

/-- A setup whose success block holds another setup, with a block of its own. -/
def nestedSetups : Program where
  context := ⟨1, 0, 0⟩
  instructions :=
    [⟨[], .loadRole 0⟩, ⟨[0], .connect⟩, ⟨[], .beginBuildSetupConnection⟩,
      ⟨[2], .endBuildSetupConnection .mining⟩, ⟨[1, 3], .sendSetupConnection .mining⟩,
      ⟨[4], .beginOnSetupSuccess .mining⟩, ⟨[0], .connect⟩, ⟨[], .beginBuildSetupConnection⟩,
      ⟨[7], .endBuildSetupConnection .mining⟩, ⟨[6, 8], .sendSetupConnection .mining⟩,
      ⟨[9], .beginOnSetupSuccess .mining⟩, ⟨[], .probe⟩, ⟨[], .endOnSetupSuccess⟩,
      ⟨[], .endOnSetupSuccess⟩]

/-- The outer block ends at the last action, and the inner one right before it. -/
theorem enters_enclose_nestedSetups : ∃ compiled,
    Compiler.compile Sv2.wire nestedSetups = .ok compiled ∧
    Balanced (actionBrackets compiled.actions) ∧
    Encloses nestedSetups compiled 3 0 10 ∧ Encloses nestedSetups compiled 7 1 9 := by
  obtain ⟨compiled, hCompile, hOuter, hInner⟩ : ∃ compiled,
      Compiler.compile Sv2.wire nestedSetups = .ok compiled ∧
      compiled.actions[3]? = some (.enterOnSetupSuccess 0 10) ∧
      compiled.actions[7]? = some (.enterOnSetupSuccess 1 9) := ⟨_, rfl, rfl, rfl⟩
  obtain ⟨hBalanced, hEncloses⟩ := enters_enclose Sv2.wire_lawful (by decide) hCompile
  exact ⟨compiled, hCompile, hBalanced, hEncloses 3 0 10 hOuter, hEncloses 7 1 9 hInner⟩

end Stratamoto
