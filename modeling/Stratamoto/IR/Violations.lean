import Stratamoto.IR.Actions

/-!
# Stratamoto — client violations and the list of actions

The compiler classifies a setup by two sets it maintains on the way, of the
connections it has put frames on. What it says can be read off the finished list
of actions by looking back from the await.

* `Noted compiled a violation` — the violation is attached to the action;
* `send_before_iff` — the instructions that put frames on a connection before a
  setup, by their actions;
* `Classified` — the classification of an await, by the actions before it;
* `violations_classify` — so is every await classified, and nothing else.
-/

namespace Stratamoto

open Brackets Operation

/-- The violation is noted on the action. -/
def Noted (compiled : CompiledProgram) (a : Nat) (violation : ClientViolation) : Prop :=
  ∃ l, compiled.metadata.violations.lookup a = some l ∧ violation ∈ l

theorem noted_iff {compiled : CompiledProgram} {ctx : ProgramContext} {is : List Instruction}
    (h : MadeBy is (violationEntry ctx) compiled.metadata.violations) {a n : Nat}
    {i : Instruction} (hFrom : ComesFrom is a n 1 i) (hSend : i.operation.isSendSetup = true)
    (violation : ClientViolation) : Noted compiled a violation ↔
      violation ∈ violationsOf ctx (is.take n) (connectionOf ctx (is.take n) (i.input 0)) := by
  constructor
  · rintro ⟨l, hl, hMem⟩
    obtain ⟨n', i', hi', hEntry⟩ := (h a l).mp hl
    obtain ⟨hSend', hIndex, hNoted, -⟩ := violationEntry_eq_some.mp hEntry
    have hFrom' : ComesFrom is a n' 1 i' := by
      refine ⟨hi', ?_, hIndex⟩
      obtain ⟨protocol, hOp⟩ := isSendSetup_iff.mp hSend'
      rw [hOp]
      exact Nat.one_lt_two
    -- only one instruction has its second action there
    obtain ⟨rfl, -, rfl⟩ := hFrom.unique hFrom'
    rwa [← hNoted]
  · intro hMem
    refine ⟨_, (h a _).mpr ⟨n, i, hFrom.at_index, ?_⟩, hMem⟩
    rw [violationEntry, if_pos ⟨hSend, List.ne_nil_of_mem hMem⟩, ← hFrom.index]

theorem mem_violationsOf {ctx : ProgramContext} {before : List Instruction} {c : Nat} :
    (ClientViolation.setupNotFirst ∈ violationsOf ctx before c ↔ firstOn ctx before c = false) ∧
    (ClientViolation.rawFrameBefore ∈ violationsOf ctx before c ↔
      rawSentOn ctx before c = true) := by
  cases hFirst : firstOn ctx before c <;> cases hRaw : rawSentOn ctx before c <;>
    simp [violationsOf, hFirst, hRaw]

theorem sendsOn_of_rawSendsOn {ctx : ProgramContext} {c : Nat} {before : List Instruction}
    {i : Instruction} (h : i.rawSendsOn ctx c before = true) : i.sendsOn ctx c before = true := by
  unfold Instruction.rawSendsOn at h
  unfold Instruction.sendsOn
  cases hOp : i.operation <;> simp_all

/-- What an instruction that puts a frame on the connection lowers to. -/
theorem exists_send {S : Sv2} {ctx : ProgramContext} {is : List Instruction} {c m : Nat}
    {j : Instruction} (hj : is[m]? = some j) (hSends : j.sendsOn ctx c (is.take m) = true) :
    ComesFrom is (actionCount (is.take m)) m 0 j ∧
      ∃ extensionType messageType channelMsg payload,
        (actionsOf S ctx is)[actionCount (is.take m)]? =
          some (.send c extensionType messageType channelMsg payload) := by
  unfold Instruction.sendsOn at hSends
  have hFrom : ComesFrom is (actionCount (is.take m)) m 0 j := by
    refine ⟨hj, ?_, rfl⟩
    cases hOp : j.operation <;> simp_all [numActions]
  refine ⟨hFrom, ?_⟩
  rw [hFrom.action, lower]
  cases hOp : j.operation <;> simp_all

/-! ## Looking back from an await -/

/-- The action puts a frame on the connection. -/
def CompiledProgram.SendsOn (compiled : CompiledProgram) (c a : Nat) : Prop :=
  ∃ (extensionType : UInt16) (messageType : UInt8) (channelMsg : Bool) (payload : List UInt8),
    compiled.actions[a]? = some (.send c extensionType messageType channelMsg payload)

section Compiled

variable {S : Sv2} {ctx : ProgramContext} {is : List Instruction} {compiled : CompiledProgram}

/-- The instructions before a setup that put a frame on the connection are those
of the sends before its own. -/
theorem send_before_iff (hActions : compiled.actions = actionsOf S ctx is)
    (hInstructions : compiled.metadata.actionInstructions = actionInstructionsOf is) {a c n m : Nat}
    {i : Instruction} (hFrom : ComesFrom is a n 1 i) :
    (m < n ∧ ∃ j, is[m]? = some j ∧ j.sendsOn ctx c (is.take m) = true) ↔
      ∃ k, k + 1 < a ∧ compiled.SendsOn c k ∧
        compiled.metadata.actionInstructions[k]? = some m := by
  have hOwn : ComesFrom is (actionCount (is.take n)) n 0 i := ⟨hFrom.at_index, by
    have := hFrom.lt
    omega, rfl⟩
  have hIndex := hFrom.index
  constructor
  · intro h
    obtain ⟨hLt, j, hj, hSends⟩ := h
    obtain ⟨hFrom', extensionType, messageType, channelMsg, payload, hAction⟩ :=
      exists_send (S := S) hj hSends
    have hBefore := hFrom'.lt_of_lt hOwn hLt
    exact ⟨_, by omega, ⟨extensionType, messageType, channelMsg, payload, hActions ▸ hAction⟩,
      hInstructions ▸ hFrom'.instruction⟩
  · intro h
    obtain ⟨k, hk, ⟨extensionType, messageType, channelMsg, payload, hAction⟩, hm⟩ := h
    rw [hActions] at hAction
    obtain ⟨m', k', j, hFrom', hLower⟩ := exists_of_action hAction
    rw [hInstructions, hFrom'.instruction, Option.some.injEq] at hm
    subst hm
    obtain ⟨rfl, hc, -, hOp⟩ := lower_send hLower
    refine ⟨?_, j, hFrom'.at_index, ?_⟩
    · refine Nat.lt_of_le_of_ne (hFrom'.le_of_le hFrom (by omega)) fun hEq => ?_
      -- the send of the setup itself stands right before the await
      subst hEq
      have := hFrom'.index
      omega
    · rcases hOp with ⟨protocol, hOp, -⟩ | ⟨hOp, -⟩
      · rw [Instruction.sendsOn, hOp, hc]
        exact beq_self_eq_true _
      · rw [Instruction.sendsOn, hOp, hc]
        exact beq_self_eq_true _

/-- A setup is the first on its connection if no other send stands before its await. -/
theorem firstOn_iff (hActions : compiled.actions = actionsOf S ctx is)
    (hInstructions : compiled.metadata.actionInstructions = actionInstructionsOf is) {a c n : Nat}
    {i : Instruction} (hFrom : ComesFrom is a n 1 i) : firstOn ctx (is.take n) c = true ↔
      ctx.numConnections ≤ c ∧ ∀ k < a, compiled.SendsOn c k → a = k + 1 := by
  rw [firstOn, Bool.and_eq_true, decide_eq_true_iff, Bool.not_eq_true', ← Bool.not_eq_true]
  refine and_congr_right fun _ => ?_
  show ¬ occurs (is.take n) _ = true ↔ _
  rw [occurs_take_iff]
  constructor
  · intro hNone k hk hSends
    -- a send before it comes from an instruction before it
    by_contra hOther
    obtain ⟨_, _, _, _, hAction⟩ := hSends
    have hLt := (List.getElem?_eq_some_iff.mp hAction).1
    rw [hActions, length_actionsOf] at hLt
    obtain ⟨m, k', j, hFrom'⟩ := exists_comesFrom hLt
    obtain ⟨hm, j', hj', hPuts⟩ := (send_before_iff hActions hInstructions hFrom).mpr
      ⟨k, by omega, ⟨_, _, _, _, hAction⟩, hInstructions ▸ hFrom'.instruction⟩
    exact hNone ⟨m, j', hm, hj', hPuts⟩
  · intro hAll hSome
    obtain ⟨m, j, hm, hj, hPuts⟩ := hSome
    obtain ⟨k, hk, hSends, -⟩ :=
      (send_before_iff hActions hInstructions hFrom).mp ⟨hm, j, hj, hPuts⟩
    have := hAll k (by omega) hSends
    omega

theorem rawSendsOn_iff {c : Nat} {before : List Instruction} {j : Instruction} :
    j.rawSendsOn ctx c before = true ↔ j.sendsOn ctx c before = true ∧
      ∃ messageType extensionType, j.operation = .sendRawFrame messageType extensionType := by
  unfold Instruction.rawSendsOn Instruction.sendsOn
  cases hOp : j.operation <;> simp

end Compiled

/-- A raw frame was put on the connection before the action. -/
def PutRawBefore (p : Program) (compiled : CompiledProgram) (a c : Nat) : Prop :=
  ∃ k m i messageType extensionType, k < a ∧ compiled.SendsOn c k ∧
    compiled.metadata.actionInstructions[k]? = some m ∧ p.instructions[m]? = some i ∧
    i.operation = .sendRawFrame messageType extensionType

/-- The await `a` of a setup on the connection is classified by what stands before
it in the list of actions. -/
structure Classified (S : Sv2) (p : Program) (compiled : CompiledProgram) (a c : Nat)
    (firstOnConnection : Bool) : Prop where
  /-- The send of the setup itself stands right before the await. -/
  own : ∃ k payload, a = k + 1 ∧
    compiled.actions[k]? = some (.send c 0 S.messageTypeSetupConnection false payload) ∧
    compiled.metadata.actionInstructions[k]? = compiled.metadata.actionInstructions[a]?
  first : firstOnConnection = true ↔ p.context.numConnections ≤ c ∧
    ∀ k < a, compiled.SendsOn c k → a = k + 1
  setupNotFirst : Noted compiled a .setupNotFirst ↔ firstOnConnection = false
  rawFrameBefore : Noted compiled a .rawFrameBefore ↔ PutRawBefore p compiled a c
  noEntry : compiled.metadata.violations.lookup a = none ↔ firstOnConnection = true

/-- What was sent raw was sent. -/
theorem firstOn_eq_false_of_rawSentOn {ctx : ProgramContext} {before : List Instruction} {c : Nat}
    (h : rawSentOn ctx before c = true) : firstOn ctx before c = false := by
  have hSent : sentOn ctx before c = true := by
    obtain ⟨n, i, hi, hRaw⟩ := occurs_iff.mp h
    exact occurs_iff.mpr ⟨n, i, hi, sendsOn_of_rawSendsOn hRaw⟩
  rw [firstOn, hSent]
  exact Bool.and_false _

/-- **The classification is a look back.** In a statically valid program that
compiles, every await of a setup is said to be the first on its connection
exactly if the connection is not one of the context and no other send stands on
it before. It is noted that the setup is not first exactly if it is said so, and
a raw frame exactly if an instruction put one there. There is an entry exactly
if the setup is not first, and only awaits have entries. -/
theorem violations_classify {S : Sv2} (hS : S.Lawful) {p : Program} {compiled : CompiledProgram}
    (hValid : p.isStaticallyValid = .ok true) (hCompile : Compiler.compile S p = .ok compiled) :
    (∀ (a c session : Nat) (protocol : Protocol) (first : Bool),
      compiled.actions[a]? = some (.awaitSetupResponse c session protocol first) →
      Classified S p compiled a c first) ∧
    ∀ (a : Nat) (l : List ClientViolation), compiled.metadata.violations.lookup a = some l →
      ∃ c session protocol first,
        compiled.actions[a]? = some (.awaitSetupResponse c session protocol first) := by
  obtain ⟨hTyped, hActions, hDescribes⟩ := compiled_of_valid hS hValid hCompile
  have hInstructions := hDescribes.actionInstructions
  refine ⟨fun a c session protocol first hAwait => ?_, fun a l hEntry => ?_⟩
  · rw [hActions] at hAwait
    obtain ⟨n, i, hFrom, hOp, hc, -, hFirst⟩ := await_session hAwait
    have hSend : i.operation.isSendSetup = true := by
      rw [hOp]
      rfl
    have hIndex := hFrom.index
    have hOwn : ComesFrom p.instructions (actionCount (p.instructions.take n)) n 0 i :=
      ⟨hFrom.at_index, by rw [hOp]; exact Nat.two_pos, rfl⟩
    have hNoted := noted_iff hDescribes.violations hFrom hSend
    rw [← hc] at hNoted
    have hNotFirst := (hNoted .setupNotFirst).trans mem_violationsOf.1
    have hRaw := (hNoted .rawFrameBefore).trans mem_violationsOf.2
    rw [hFirst]
    refine ⟨⟨_, payloadOf S (setupSpec p.context (p.instructions.take n) (i.input 1)), hIndex, ?_, ?_⟩,
      firstOn_iff hActions hInstructions hFrom, hNotFirst, ?_, ?_⟩
    · rw [hActions, hOwn.action, lower, hOp, hc]
      rfl
    · rw [hInstructions, hOwn.instruction, hFrom.instruction]
    · rw [hRaw, rawSentOn, occurs_take_iff]
      constructor
      · intro hSome
        obtain ⟨m, j, hm, hj, hPuts⟩ := hSome
        obtain ⟨hSends, messageType, extensionType, hRawOp⟩ := rawSendsOn_iff.mp hPuts
        obtain ⟨k, hk, hSendsOn, hInstruction⟩ :=
          (send_before_iff hActions hInstructions hFrom).mp ⟨hm, j, hj, hSends⟩
        exact ⟨k, m, j, messageType, extensionType, by omega, hSendsOn, hInstruction, hj, hRawOp⟩
      · intro hPut
        obtain ⟨k, m, j, messageType, extensionType, hk, hSendsOn, hInstruction, hj, hRawOp⟩ := hPut
        have hOther : k + 1 < a := by
          refine Nat.lt_of_le_of_ne hk fun hEq => ?_
          -- the send right before the await is the setup's own
          obtain rfl : k = actionCount (p.instructions.take n) := by omega
          rw [hInstructions, hOwn.instruction, Option.some.injEq] at hInstruction
          subst hInstruction
          obtain rfl := Option.some.inj (hj.symm.trans hFrom.at_index)
          rw [hOp] at hRawOp
          cases hRawOp
        obtain ⟨hm, j', hj', hSends⟩ := (send_before_iff hActions hInstructions hFrom).mpr
          ⟨k, hOther, hSendsOn, hInstruction⟩
        obtain rfl := Option.some.inj (hj.symm.trans hj')
        exact ⟨m, j, hm, hj, rawSendsOn_iff.mpr ⟨hSends, messageType, extensionType, hRawOp⟩⟩
    · constructor
      · intro hNone
        by_contra hNot
        rw [Bool.not_eq_true] at hNot
        obtain ⟨l, hl, -⟩ := hNotFirst.mpr hNot
        rw [hNone] at hl
        cases hl
      · intro hFirstOn
        by_contra hSome
        obtain ⟨l, hl⟩ := Option.ne_none_iff_exists'.mp hSome
        obtain ⟨n', i', -, hMade⟩ := (hDescribes.violations a l).mp hl
        obtain ⟨violation, hMem⟩ := List.exists_mem_of_ne_nil l (violationEntry_eq_some.mp hMade).2.2.2
        have hNotOn : firstOn p.context (p.instructions.take n) c = false := by
          cases violation with
          | setupNotFirst => exact hNotFirst.mp ⟨l, hl, hMem⟩
          | rawFrameBefore => exact firstOn_eq_false_of_rawSentOn (hRaw.mp ⟨l, hl, hMem⟩)
        rw [hFirstOn] at hNotOn
        cases hNotOn
  · obtain ⟨n, i, hi, hMade⟩ := (hDescribes.violations a l).mp hEntry
    obtain ⟨hSend, rfl, -⟩ := violationEntry_eq_some.mp hMade
    obtain ⟨protocol, hOp⟩ := isSendSetup_iff.mp hSend
    exact ⟨_, _, _, _, hActions ▸ await_of_send _ _ hi hOp⟩

/-- A raw frame, and a setup after it. -/
def rawThenSetup : Program where
  context := ⟨1, 0, 0⟩
  instructions :=
    [⟨[], .loadRole 0⟩, ⟨[0], .connect⟩, ⟨[], .loadBytes [0]⟩, ⟨[1, 2], .sendRawFrame 1 0⟩,
      ⟨[], .beginBuildSetupConnection⟩, ⟨[3], .endBuildSetupConnection .mining⟩,
      ⟨[1, 4], .sendSetupConnection .mining⟩]

/-- The setup is not the first on its connection, and a raw frame stands before it. -/
theorem violations_classify_rawThenSetup : ∃ compiled,
    Compiler.compile Sv2.wire rawThenSetup = .ok compiled ∧
    compiled.metadata.violations.lookup 3 = some [.setupNotFirst, .rawFrameBefore] ∧
    Classified Sv2.wire rawThenSetup compiled 3 0 false := by
  obtain ⟨compiled, hCompile, hViolations, hAwait⟩ : ∃ compiled,
      Compiler.compile Sv2.wire rawThenSetup = .ok compiled ∧
      compiled.metadata.violations.lookup 3 = some [.setupNotFirst, .rawFrameBefore] ∧
      compiled.actions[3]? = some (.awaitSetupResponse 0 0 .mining false) := ⟨_, rfl, rfl, rfl⟩
  exact ⟨compiled, hCompile, hViolations,
    (violations_classify Sv2.wire_lawful (by decide) hCompile).1 3 0 0 .mining false hAwait⟩

end Stratamoto
