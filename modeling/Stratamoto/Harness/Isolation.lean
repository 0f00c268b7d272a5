import Stratamoto.Harness.Links
import Stratamoto.IR.Removal

/-!
# Stratamoto — what a skipped block leaves behind

A success block is skipped at run time, but the compiler lowers what is in it
like everything else. Nothing of it should be left in the frames that are sent
for the instructions outside it.

* `FramesAsWithout S p b e compiled entries` — every frame the run sends for an
  instruction outside the block is the one the program without the block has;
* `skipped_block_leaves_nothing` — so it is, if the block edits no message begun
  before it;
* `skipped_edit_is_sent` — it is not for a block that does.
-/

namespace Stratamoto

open Brackets Operation Runner

/-- Of every frame the run sends for an instruction that is not in the block from
`b` to `e`: compiling the program without the block gives this frame for that
instruction, on the connection of the same variable. -/
def FramesAsWithout (S : Sv2) (p : Program) (b e : Nat) (compiled : CompiledProgram)
    (entries : List TraceEntry) : Prop :=
  ∀ (k : Nat) (entry : TraceEntry) (c : Nat) (extensionType : UInt16) (messageType : UInt8)
    (channelMsg : Bool) (payload : List UInt8) (result : Except Error Unit) (n : Nat),
    entries[k]? = some entry →
    Exchange.send c extensionType messageType channelMsg payload result ∈ entry.exchanges →
    compiled.metadata.actionInstructions[k]? = some n → n < b ∨ e < n →
    ∃ (compiled' : CompiledProgram) (k' c' v : Nat), Compiler.compile S (p.cut b e) = .ok compiled' ∧
      compiled'.metadata.actionInstructions[k']? = some (closeGap b (e + 1 - b) n) ∧
      compiled'.actions[k']? = some (.send c' extensionType messageType channelMsg payload) ∧
      compiled.metadata.connectionVariables.lookup c = some v ∧
      compiled'.metadata.connectionVariables.lookup c' =
        some (closeGap (definitions (p.instructions.take b)).length
          (gap (p.instructions.take b) ((p.instructions.drop b).take (e + 1 - b))) v)

/-- No instruction of the block edits a message begun before it. -/
def Program.EditsOwn (p : Program) (b e : Nat) : Prop :=
  Stratamoto.EditsOwn (p.instructions.take b) ((p.instructions.drop b).take (e + 1 - b))

/-- **A skipped block leaves nothing behind**, if it edits no message begun before
it: in every run, whether it skips the block or not, the frames for the
instructions outside the block are those of the program without it. -/
theorem skipped_block_leaves_nothing {S : Sv2} (hS : S.Lawful) {W : World} {p : Program}
    {compiled : CompiledProgram} (hValid : p.isStaticallyValid = .ok true)
    (hCompile : Compiler.compile S p = .ok compiled) {b e session : Nat}
    (hBlock : SuccessBlock p.context p.instructions b e session) (hOwn : p.EditsOwn b e)
    {fuel : Nat} {execution : Execution} {entries : List TraceEntry}
    (hRun : run W fuel compiled = some (execution, entries)) :
    FramesAsWithout S p b e compiled entries := by
  intro k entry c extensionType messageType channelMsg payload result n hEntry hSent hn hOut
  obtain ⟨hTyped, hActions, hDescribes⟩ := compiled_of_valid hS hValid hCompile
  obtain ⟨next, r, hReaches, -, -⟩ := run_reaches hRun
  rw [hActions] at hReaches
  have hIndex := hReaches.action_eq (advances_of_blocks (blocks_actionsOf hTyped)) hEntry
  -- the frame was put on an open link by a send of the compiled program
  have hAttempted : entry.attempted = true := by
    by_contra hNot
    rw [Bool.not_eq_true] at hNot
    obtain ⟨_, _, _, _, _, -, hAt⟩ := hReaches.skipped hEntry hNot
    rw [hAt.exchanges] at hSent
    cases hSent
  obtain ⟨action, r₁, r₂, hAt⟩ := hReaches.attempted hEntry hAttempted
  obtain ⟨fuel', hPerform⟩ := hAt.performed
  obtain ⟨rfl, hOpen⟩ := perform_send_of_exchange hPerform hAt.exchanges hSent
  have hAction := hAt.action_eq
  rw [hIndex] at hAction
  obtain ⟨n', k', i, hFrom, hLower⟩ := exists_of_action hAction
  rw [hDescribes.actionInstructions, hFrom.instruction, Option.some.injEq] at hn
  subst hn
  obtain ⟨rfl, hc, -, hOp⟩ := lower_send hLower
  have hUses : i.operation.usesConnection = true := by
    rcases hOp with ⟨protocol, hOp, -⟩ | ⟨hOp, -⟩ <;> rw [hOp] <;> rfl
  have hcGe : p.context.numConnections ≤ c := by
    obtain ⟨role, opener, -, -, hConnect, -⟩ :=
      ((linked_actionsOf hTyped hAt.reaches).connections c).mp hOpen
    obtain ⟨_, _, -, -, hEq, -⟩ := connect_iff.mp hConnect
    omega
  have hVariable := connectionVariable hTyped hDescribes.connectionVariables hFrom.at_index hUses
    (hc ▸ hcGe)
  rw [← hc] at hVariable
  -- the program in three parts
  have hLt := hBlock.ends.lt
  have heLen := hBlock.ends.lt_length
  rw [brackets_length] at heLen
  set A := p.instructions.take b with hA
  set B := (p.instructions.drop b).take (e + 1 - b) with hB
  set C := p.instructions.drop (e + 1) with hC
  have hSplit : p.instructions = A ++ B ++ C := split_block (by omega)
  have hALen : A.length = b := by rw [hA, List.length_take]; omega
  have hBLen : B.length = e + 1 - b := by rw [hB, List.length_take, List.length_drop]; omega
  have hClosed : ClosedBlock A B := hBlock.closedBlock hTyped
  have hTypedCut : WellTyped p.context (cut A B C) := (hSplit ▸ hTyped).cut hClosed
  have hAt' : (A ++ B ++ C)[n']? = some i := hSplit ▸ hFrom.at_index
  have hLower' : (lower S p.context ((A ++ B ++ C).take n') (exitOf p.instructions n') i)[0]? =
      some (.send c extensionType messageType channelMsg payload) := by rwa [← hSplit]
  obtain ⟨i', hi', hOp', hInput', hOutside, hSend'⟩ := send_cut hClosed hOwn
    (hSplit ▸ hTyped) (exitOf (cut A B C) (closeGap A.length B.length n')) hAt' (by omega) hLower'
  -- it compiles without the block as it did with it
  have hShort : NoneTooLong p.context (cut A B C) := by
    refine noneTooLong_cut hClosed hOwn (hSplit ▸ hTyped) ?_
    rw [← hSplit]
    exact noneTooLong_of_compile hS hTyped hCompile
  rcases compile_cases hS hTypedCut with ⟨-, metadata, hDescribes', hCompile'⟩ |
    ⟨v, ⟨m, j, hj, hLong, -⟩, -⟩
  · have hFrom' : ComesFrom (cut A B C) (actionCount ((cut A B C).take (closeGap A.length B.length n')))
        (closeGap A.length B.length n') 0 i' :=
      ⟨hi', by rw [hOp']; exact hFrom.lt, rfl⟩
    obtain ⟨-, hc', -, -⟩ := lower_send hSend'
    have hGeCut : p.context.numConnections ≤
        closeGap (p.context.numConnections + connects A) (connects B) c := by
      unfold closeGap
      split <;> omega
    have hVariable' := connectionVariable hTypedCut hDescribes'.connectionVariables hi'
      (by rwa [hOp']) (hc' ▸ hGeCut)
    rw [← hc', hInput'] at hVariable'
    refine ⟨_, _, _, _, hCompile', ?_, hFrom'.action.trans hSend', hVariable, hVariable'⟩
    rw [hDescribes'.actionInstructions, hFrom'.instruction, hALen, hBLen]
  · exact absurd hLong (hShort m j v hj)

/-- The block of `singleSetup` edits nothing. -/
theorem singleSetup_leaves_nothing : ∃ compiled execution entries,
    Compiler.compile Sv2.wire singleSetup = .ok compiled ∧
    run .silent 20 compiled = some (execution, entries) ∧
    FramesAsWithout Sv2.wire singleSetup 5 7 compiled entries := by
  obtain ⟨compiled, execution, entries, hCompile, hRun, -⟩ := singleSetup_runs
  have hBlock : SuccessBlock singleSetup.context singleSetup.instructions 5 7 0 :=
    ⟨⟨_, .mining, rfl, rfl, rfl⟩, (matching_eq_some_iff (s := []) rfl).mp rfl⟩
  have hOwn : ∀ i ∈ (singleSetup.instructions.drop 5).take 3, i.operation.isEdit = true →
      (definitions (singleSetup.instructions.take 5)).length ≤ i.input 0 := by decide
  exact ⟨compiled, execution, entries, hCompile, hRun,
    skipped_block_leaves_nothing Sv2.wire_lawful (by decide) hCompile hBlock hOwn hRun⟩

/-- A setup on one connection, and a setup on another whose flags are set if the
first is agreed to. -/
def skippedEdit : Program where
  context := ⟨1, 0, 0⟩
  instructions :=
    [⟨[], .loadRole 0⟩, ⟨[0], .connect⟩, ⟨[0], .connect⟩, ⟨[], .loadFlags 4⟩,
      ⟨[], .beginBuildSetupConnection⟩, ⟨[4], .endBuildSetupConnection .mining⟩,
      ⟨[1, 5], .sendSetupConnection .mining⟩, ⟨[], .beginBuildSetupConnection⟩,
      ⟨[6], .beginOnSetupSuccess .mining⟩, ⟨[7, 3], .setFlags⟩, ⟨[], .endOnSetupSuccess⟩,
      ⟨[7], .endBuildSetupConnection .mining⟩, ⟨[2, 9], .sendSetupConnection .mining⟩]

/-- The low byte of the flags of a setup that is sent. -/
def Action.flagsSent : Action → Option UInt8
  | .send _ _ _ _ payload => payload[5]?
  | _ => none

/-- The server never agrees to the first setup, so the block that sets the flags of
the second is skipped. They are sent all the same. -/
theorem skipped_edit_is_sent : ∃ compiled execution entries entry,
    skippedEdit.isStaticallyValid = .ok true ∧
    SuccessBlock skippedEdit.context skippedEdit.instructions 8 10 0 ∧
    Compiler.compile Sv2.wire skippedEdit = .ok compiled ∧
    run .silent 20 compiled = some (execution, entries) ∧
    compiled.metadata.actionInstructions[4]? = some 8 ∧ entries[4]? = some entry ∧
    entry.outcome = .skipped (.setupSuccess 0) ∧
    ¬ FramesAsWithout Sv2.wire skippedEdit 8 10 compiled entries := by
  obtain ⟨compiled, execution, entries, entry, sent, payload, hCompile, hRun, hEnter, hSkippedEntry,
      hSkipped, hSent, hExchanges, hInstruction, hFlags⟩ :
      ∃ (compiled : CompiledProgram) (execution : Execution) (entries : List TraceEntry)
        (entry sent : TraceEntry) (payload : List UInt8),
        Compiler.compile Sv2.wire skippedEdit = .ok compiled ∧
        run .silent 20 compiled = some (execution, entries) ∧
        compiled.metadata.actionInstructions[4]? = some 8 ∧ entries[4]? = some entry ∧
        entry.outcome = .skipped (.setupSuccess 0) ∧ entries[6]? = some sent ∧
        sent.exchanges = [.send 1 0 0 false payload (.ok ())] ∧
        compiled.metadata.actionInstructions[6]? = some 12 ∧ payload[5]? = some 4 :=
    ⟨_, _, _, _, _, _, rfl, rfl, rfl, rfl, rfl, rfl, rfl, rfl, rfl⟩
  obtain ⟨without, hWithout, hFlagsWithout, hInstructionsWithout⟩ :
      ∃ without, Compiler.compile Sv2.wire (skippedEdit.cut 8 10) = .ok without ∧
        without.actions.map Action.flagsSent = [none, none, some 0, none, some 0, none] ∧
        without.metadata.actionInstructions = [1, 2, 6, 6, 9, 9] := ⟨_, rfl, rfl, rfl⟩
  have hBlock : SuccessBlock skippedEdit.context skippedEdit.instructions 8 10 0 :=
    ⟨⟨_, .mining, rfl, rfl, rfl⟩, (matching_eq_some_iff (s := []) rfl).mp rfl⟩
  refine ⟨compiled, execution, entries, entry, by decide, hBlock, hCompile, hRun, hEnter,
    hSkippedEntry, hSkipped, fun hFrames => ?_⟩
  obtain ⟨compiled', k', c', v, hCompile', -, hAction, -⟩ :=
    hFrames 6 sent 1 0 0 false payload (.ok ()) 12 hSent
      (by rw [hExchanges]; exact List.mem_singleton_self _) hInstruction (Or.inr (by decide))
  obtain rfl := Except.ok.inj (hCompile'.symm.trans hWithout)
  have hAt := congrArg (fun l => l[k']?) hFlagsWithout
  simp only [List.getElem?_map, hAction, Option.map_some, Action.flagsSent, hFlags] at hAt
  -- no frame of the program without the block has these flags
  have hNone : ∀ k < 6, some (some (4 : UInt8)) ≠
      ([none, none, some 0, none, some 0, none] : List (Option UInt8))[k]? := by decide
  have hLt : k' < 6 := (List.getElem?_eq_some_iff.mp hAt.symm).1
  exact hNone k' hLt hAt

end Stratamoto
