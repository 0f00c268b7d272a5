import Stratamoto.IR.Compilation

/-!
# Stratamoto — actions and the instructions they come from

The flat list of a compiled program against the nesting of its source: which
instruction an action comes from, and where the blocks of the source lie in the
list.

* `ComesFrom is a n k i` — action `a` is the `k`-th one of the instruction `i` at `n`;
* `comesFrom_iff` — every action comes from one instruction;
* `enter_iff`, `await_session`, `connect_iff` — the instructions behind the actions;
* `SuccessBlock ctx is b e session` — a success block of the source;
* `Blocks actions` — enter actions are closed, their blocks nested or disjoint,
  and a session awaited once;
* `blocks_actionsOf` — so are those of a well typed program.
-/

namespace Stratamoto

open Brackets Operation

variable {S : Sv2} {ctx : ProgramContext} {is : List Instruction}

/-! ## Where an action comes from -/

/-- The action at `a` is the `k`-th one that the instruction `i` at `n` lowers to. -/
structure ComesFrom (is : List Instruction) (a n k : Nat) (i : Instruction) : Prop where
  at_index : is[n]? = some i
  lt : k < i.operation.numActions
  index : a = actionCount (is.take n) + k

theorem ComesFrom.lt_actionCount {a n k : Nat} {i : Instruction} (h : ComesFrom is a n k i) :
    a < actionCount is := by
  have hLt := (List.getElem?_eq_some_iff.mp h.at_index).1
  have := total_take_add_le Operation.numActions h.at_index hLt
  rw [List.take_length] at this
  have := h.lt
  have := h.index
  simp only [actionCount] at *
  omega

/-- Actions are in the order of their instructions. -/
theorem ComesFrom.lt_of_lt {a a' n n' k k' : Nat} {i i' : Instruction}
    (h : ComesFrom is a n k i) (h' : ComesFrom is a' n' k' i') (hn : n < n') : a < a' := by
  have := total_take_add_le Operation.numActions h.at_index hn
  have := h.lt
  have := h.index
  have := h'.index
  simp only [actionCount] at *
  omega

theorem ComesFrom.le_of_le {a a' n n' k k' : Nat} {i i' : Instruction}
    (h : ComesFrom is a n k i) (h' : ComesFrom is a' n' k' i') (ha : a ≤ a') : n ≤ n' := by
  by_contra hLt
  have := h'.lt_of_lt h (Nat.lt_of_not_le hLt)
  omega

theorem ComesFrom.unique {a n n' k k' : Nat} {i i' : Instruction} (h : ComesFrom is a n k i)
    (h' : ComesFrom is a n' k' i') : n = n' ∧ k = k' ∧ i = i' := by
  obtain rfl : n = n' :=
    Nat.le_antisymm (h.le_of_le h' (Nat.le_refl a)) (h'.le_of_le h (Nat.le_refl a))
  refine ⟨rfl, ?_, Option.some.inj (h.at_index.symm.trans h'.at_index)⟩
  have := h.index.symm.trans h'.index
  omega

theorem ComesFrom.append {a n k : Nat} {i : Instruction} (h : ComesFrom is a n k i)
    (l : List Instruction) : ComesFrom (is ++ l) a n k i := by
  have hLt := (List.getElem?_eq_some_iff.mp h.at_index).1
  refine ⟨by rw [List.getElem?_append_left hLt, h.at_index], h.lt, ?_⟩
  rw [List.take_append_of_le_length (Nat.le_of_lt hLt)]
  exact h.index

theorem exists_comesFrom {a : Nat} (h : a < actionCount is) :
    ∃ n k i, ComesFrom is a n k i := by
  induction is using List.reverseRecOn with
  | nil => exact absurd h (Nat.not_lt_zero a)
  | append_singleton is i ih =>
    rcases Nat.lt_or_ge a (actionCount is) with hLt | hGe
    · obtain ⟨n, k, j, hFrom⟩ := ih hLt
      exact ⟨n, k, j, hFrom.append [i]⟩
    · rw [actionCount_snoc] at h
      refine ⟨is.length, a - actionCount is, i, List.getElem?_concat_length, by omega, ?_⟩
      rw [List.take_left]
      omega

/-- Whatever is laid out like the actions is found like them. -/
theorem ComesFrom.getElem?_flatMap {β : Type} {f : Instruction × Nat → List β}
    (hf : ∀ p, (f p).length = p.1.operation.numActions) {a n k : Nat} {i : Instruction}
    (h : ComesFrom is a n k i) : (is.zipIdx.flatMap f)[a]? = (f (i, n))[k]? := by
  -- the list has as many entries as there are actions
  have hLength : ∀ l : List Instruction, (l.zipIdx.flatMap f).length = actionCount l := by
    intro l
    induction l using List.reverseRecOn with
    | nil => rfl
    | append_singleton l j ih =>
      rw [List.zipIdx_append, List.flatMap_append, List.length_append, ih, actionCount_snoc]
      simp [hf]
  induction is using List.reverseRecOn with
  | nil => exact absurd h.lt_actionCount (Nat.not_lt_zero a)
  | append_singleton is j ih =>
    rw [List.zipIdx_append, List.flatMap_append]
    rcases Nat.lt_or_ge n is.length with hLt | hGe
    · have hFrom : ComesFrom is a n k i := by
        refine ⟨?_, h.lt, ?_⟩
        · rw [← h.at_index, List.getElem?_append_left hLt]
        · rw [h.index, List.take_append_of_le_length (Nat.le_of_lt hLt)]
      rw [List.getElem?_append_left (by rw [hLength]; exact hFrom.lt_actionCount), ih hFrom]
    · have hLen := (List.getElem?_eq_some_iff.mp h.at_index).1
      rw [List.length_append, List.length_singleton] at hLen
      -- the entries of the last instruction begin where the others end
      obtain rfl : n = is.length := by omega
      have hAt := h.at_index
      rw [List.getElem?_concat_length, Option.some.injEq] at hAt
      have hIndex := h.index
      rw [List.take_left] at hIndex
      rw [List.getElem?_append_right (by rw [hLength]; omega), hLength, hAt,
        show a - actionCount is = k by omega]
      simp

/-- The action an instruction lowers to stands where the instruction says. -/
theorem ComesFrom.action {a n k : Nat} {i : Instruction} (h : ComesFrom is a n k i) :
    (actionsOf S ctx is)[a]? = (lower S ctx (is.take n) (exitOf is n) i)[k]? :=
  h.getElem?_flatMap (f := fun p => lower S ctx (is.take p.2) (exitOf is p.2) p.1)
    fun _ => length_lower S ctx _ _ _

theorem ComesFrom.instruction {a n k : Nat} {i : Instruction} (h : ComesFrom is a n k i) :
    (actionInstructionsOf is)[a]? = some n := by
  have hAt := h.getElem?_flatMap (f := fun p => List.replicate p.1.operation.numActions p.2)
    fun _ => List.length_replicate
  rw [actionInstructionsOf, hAt, List.getElem?_replicate, if_pos h.lt]

theorem length_actionsOf (S : Sv2) (ctx : ProgramContext) (is : List Instruction) :
    (actionsOf S ctx is).length = actionCount is := length_lowerAll S ctx is (exitOf is)

theorem length_actionInstructionsOf (is : List Instruction) :
    (actionInstructionsOf is).length = actionCount is := by
  induction is using List.reverseRecOn with
  | nil => rfl
  | append_singleton is i ih =>
    rw [actionInstructionsOf_snoc, List.length_append, ih, List.length_replicate, actionCount_snoc]

/-- Every action of a program comes from one of its instructions. -/
theorem exists_of_action {a : Nat} {action : Action} (h : (actionsOf S ctx is)[a]? = some action) :
    ∃ n k i, ComesFrom is a n k i ∧
      (lower S ctx (is.take n) (exitOf is n) i)[k]? = some action := by
  have hLt := (List.getElem?_eq_some_iff.mp h).1
  rw [length_actionsOf] at hLt
  obtain ⟨n, k, i, hFrom⟩ := exists_comesFrom hLt
  exact ⟨n, k, i, hFrom, by rw [← h, hFrom.action]⟩

/-! ## The instruction behind each kind of action -/

theorem lower_enter {before : List Instruction} {exit k session e : Nat} {i : Instruction}
    (h : (lower S ctx before exit i)[k]? = some (.enterOnSetupSuccess session e)) :
    (∃ protocol, i.operation = .beginOnSetupSuccess protocol) ∧ k = 0 ∧
      session = sessionOf ctx before (i.input 0) ∧ e = exit := by
  unfold lower at h
  cases hOp : i.operation <;> rcases k with _ | _ | k <;> simp_all

theorem lower_await {before : List Instruction} {exit k c session : Nat} {i : Instruction}
    {protocol : Protocol} {first : Bool}
    (h : (lower S ctx before exit i)[k]? = some (.awaitSetupResponse c session protocol first)) :
    i.operation = .sendSetupConnection protocol ∧ k = 1 ∧
      c = connectionOf ctx before (i.input 0) ∧ session = sends before ∧
      first = firstOn ctx before c := by
  unfold lower at h
  cases hOp : i.operation <;> rcases k with _ | _ | k <;> simp_all
  rw [h.1] at h
  exact h.2.2.2.symm

theorem lower_send {before : List Instruction} {exit k c : Nat} {i : Instruction}
    {extensionType : UInt16} {messageType : UInt8} {channelMsg : Bool} {payload : List UInt8}
    (h : (lower S ctx before exit i)[k]? =
      some (.send c extensionType messageType channelMsg payload)) :
    k = 0 ∧ c = connectionOf ctx before (i.input 0) ∧ channelMsg = false ∧
      ((∃ protocol, i.operation = .sendSetupConnection protocol ∧ extensionType = 0 ∧
          messageType = S.messageTypeSetupConnection ∧
          payload = payloadOf S (setupSpec ctx before (i.input 1))) ∨
        i.operation = .sendRawFrame messageType extensionType ∧
          payload = bytesOf ctx before (i.input 1)) := by
  unfold lower at h
  cases hOp : i.operation <;> rcases k with _ | _ | k <;> simp_all

/-- The success block of the session, from its begin at `b` to its end at `e`. -/
structure SuccessBlock (ctx : ProgramContext) (is : List Instruction) (b e session : Nat) :
    Prop where
  begins : ∃ i protocol, is[b]? = some i ∧ i.operation = .beginOnSetupSuccess protocol ∧
    session = sessionOf ctx (is.take b) (i.input 0)
  ends : Matches (brackets is) b e

/-! ## Blocks in the list of actions -/

/-- The enter actions are closed within the list, two of their blocks are nested
or disjoint, and no two actions await one session. -/
structure Blocks (actions : List Action) : Prop where
  closed : ∀ a session exit : Nat, actions[a]? = some (Action.enterOnSetupSuccess session exit) →
    a < exit ∧ exit < actions.length
  nested : ∀ a session exit a' session' exit' : Nat,
    actions[a]? = some (Action.enterOnSetupSuccess session exit) →
    actions[a']? = some (Action.enterOnSetupSuccess session' exit') → a < a' → a' ≤ exit → exit' ≤ exit
  once : ∀ (a a' c c' session : Nat) (protocol protocol' : Protocol) (first first' : Bool),
    actions[a]? = some (Action.awaitSetupResponse c session protocol first) →
    actions[a']? = some (Action.awaitSetupResponse c' session protocol' first') → a = a'

/-- The enter and the exit of a success block, in a program that is well typed. -/
structure BlockActions (is : List Instruction) (b e : Nat) : Prop where
  enter : ∃ i, ComesFrom is (actionCount (is.take b)) b 0 i
  exit : ∃ i, ComesFrom is (actionCount (is.take e)) e 0 i ∧ i.operation.numActions = 1
  exit_eq : exitOf is b = actionCount (is.take e)

theorem blockActions {s : List (Nat × BlockKind)} (hs : openStack (brackets is) = some s)
    {b e : Nat} {i : Instruction} (hb : is[b]? = some i)
    (hBegin : i.operation.bracket = .opening .success) (h : Matches (brackets is) b e) :
    BlockActions is b e := by
  obtain ⟨k, hOpening, hClosing⟩ := h.tokens
  rw [brackets, List.getElem?_map, hb, Option.map_some, hBegin, Option.some.injEq,
    Token.opening.injEq] at hOpening
  subst hOpening
  rw [brackets, List.getElem?_map, Option.map_eq_some_iff] at hClosing
  obtain ⟨j, hj, hEnd⟩ := hClosing
  have hOne : j.operation.numActions = 1 := by
    obtain ⟨inputs, op⟩ := j
    cases op <;> simp_all [bracket, numActions]
  have hPos : 0 < i.operation.numActions := by
    obtain ⟨inputs, op⟩ := i
    cases op <;> simp_all [bracket, numActions]
  refine ⟨⟨i, hb, hPos, rfl⟩, ⟨j, ⟨hj, by omega, rfl⟩, hOne⟩, ?_⟩
  rw [exitOf, (matching_eq_some_iff hs).mpr h]

/-- The actions of the instructions from a block's begin to its end are those
from its enter to its exit. -/
theorem BlockActions.within {b e a n k : Nat} {i : Instruction} (h : BlockActions is b e)
    (hFrom : ComesFrom is a n k i) :
    (actionCount (is.take b) ≤ a ↔ b ≤ n) ∧ (a ≤ actionCount (is.take e) ↔ n ≤ e) := by
  obtain ⟨j, hEnter⟩ := h.enter
  obtain ⟨j', hExit, hOne⟩ := h.exit
  refine ⟨⟨hEnter.le_of_le hFrom, fun hLe => ?_⟩, ⟨hFrom.le_of_le hExit, fun hLe => ?_⟩⟩
  · rcases Nat.lt_or_eq_of_le hLe with hLt | rfl
    · exact Nat.le_of_lt (hEnter.lt_of_lt hFrom hLt)
    · have := hFrom.index
      omega
  · rcases Nat.lt_or_eq_of_le hLe with hLt | rfl
    · exact Nat.le_of_lt (hFrom.lt_of_lt hExit hLt)
    · -- a block's end lowers to its exit only
      have hSame := Option.some.inj (hFrom.at_index.symm.trans hExit.at_index)
      have := hFrom.lt
      have := hFrom.index
      rw [hSame, hOne] at *
      omega

theorem isBegin_bracket {i : Instruction} {protocol : Protocol}
    (h : i.operation = .beginOnSetupSuccess protocol) :
    i.operation.bracket = .opening .success := by rw [h]; rfl

/-- The enter actions of a well typed program are the begins of its blocks. -/
theorem enter_iff (hTyped : WellTyped ctx is) {a session exit : Nat} :
    (actionsOf S ctx is)[a]? = some (.enterOnSetupSuccess session exit) ↔
      ∃ b e, SuccessBlock ctx is b e session ∧ a = actionCount (is.take b) ∧
        exit = actionCount (is.take e) := by
  have hs := balanced_iff_openStack.mp hTyped.balanced
  constructor
  · intro h
    obtain ⟨b, k, i, hFrom, hLower⟩ := exists_of_action h
    obtain ⟨⟨protocol, hOp⟩, rfl, rfl, rfl⟩ := lower_enter hLower
    have hOpening : (brackets is)[b]? = some (.opening .success) := by
      rw [brackets, List.getElem?_map, hFrom.at_index, Option.map_some, isBegin_bracket hOp]
    -- the program is balanced, so the block ends
    obtain ⟨e, hMatch⟩ := hTyped.balanced.exists_matches hOpening
    have hBlock := blockActions hs hFrom.at_index (isBegin_bracket hOp) hMatch
    exact ⟨b, e, ⟨⟨i, protocol, hFrom.at_index, hOp, rfl⟩, hMatch⟩, hFrom.index, hBlock.exit_eq⟩
  · rintro ⟨b, e, ⟨⟨i, protocol, hb, hOp, rfl⟩, hMatch⟩, rfl, rfl⟩
    have hBlock := blockActions hs hb (isBegin_bracket hOp) hMatch
    obtain ⟨j, hEnter⟩ := hBlock.enter
    obtain rfl := Option.some.inj (hb.symm.trans hEnter.at_index)
    rw [hEnter.action, lower, hOp, hBlock.exit_eq]
    rfl

theorem SuccessBlock.blockActions (hTyped : WellTyped ctx is) {b e session : Nat}
    (h : SuccessBlock ctx is b e session) : BlockActions is b e := by
  obtain ⟨i, protocol, hb, hOp, -⟩ := h.begins
  exact Stratamoto.blockActions (balanced_iff_openStack.mp hTyped.balanced) hb
    (isBegin_bracket hOp) h.ends

theorem await_session {a c session : Nat} {protocol : Protocol} {first : Bool}
    (h : (actionsOf S ctx is)[a]? = some (.awaitSetupResponse c session protocol first)) :
    ∃ n i, ComesFrom is a n 1 i ∧ i.operation = .sendSetupConnection protocol ∧
      c = connectionOf ctx (is.take n) (i.input 0) ∧ session = sends (is.take n) ∧
      first = firstOn ctx (is.take n) c := by
  obtain ⟨n, k, i, hFrom, hLower⟩ := exists_of_action h
  obtain ⟨hOp, rfl, hc, hSession, hFirst⟩ := lower_await hLower
  exact ⟨n, i, hFrom, hOp, hc, hSession, hFirst⟩

/-- The answer to a setup is awaited right behind its send. -/
theorem await_of_send (S : Sv2) (ctx : ProgramContext) {n : Nat} {i : Instruction}
    (hi : is[n]? = some i) {protocol : Protocol} (hOp : i.operation = .sendSetupConnection protocol) :
    (actionsOf S ctx is)[actionCount (is.take n) + 1]? =
      some (.awaitSetupResponse (connectionOf ctx (is.take n) (i.input 0)) (sends (is.take n))
        protocol (firstOn ctx (is.take n) (connectionOf ctx (is.take n) (i.input 0)))) := by
  have hFrom : ComesFrom is (actionCount (is.take n) + 1) n 1 i :=
    ⟨hi, by rw [hOp]; exact Nat.one_lt_two, rfl⟩
  rw [hFrom.action, lower, hOp]
  rfl

/-- What is numbered by its predecessors has its number alone. -/
theorem total_injective {weight : Operation → Nat} {n n' : Nat} {i i' : Instruction}
    (hi : is[n]? = some i) (hi' : is[n']? = some i') (hw : 0 < weight i.operation)
    (hw' : 0 < weight i'.operation) (h : total weight (is.take n) = total weight (is.take n')) :
    n = n' := by
  rcases Nat.lt_trichotomy n n' with hLt | hEq | hGt
  · have := total_take_add_le weight hi hLt
    omega
  · exact hEq
  · have := total_take_add_le weight hi' hGt
    omega

theorem sends_injective {n n' : Nat} {i i' : Instruction} (hi : is[n]? = some i)
    (hi' : is[n']? = some i') (hSend : i.operation.isSendSetup = true)
    (hSend' : i'.operation.isSendSetup = true) (h : sends (is.take n) = sends (is.take n')) :
    n = n' :=
  total_injective hi hi' (by simp [hSend]) (by simp [hSend']) h

theorem blocks_actionsOf (hTyped : WellTyped ctx is) : Blocks (actionsOf S ctx is) := by
  have hs := balanced_iff_openStack.mp hTyped.balanced
  refine ⟨fun a session exit h => ?_, fun a session exit a' session' exit' h h' hLt hLe => ?_,
    fun a a' c c' session protocol protocol' first first' h h' => ?_⟩
  · obtain ⟨b, e, hBlock, rfl, rfl⟩ := (enter_iff hTyped).mp h
    obtain ⟨i, hEnter⟩ := (hBlock.blockActions hTyped).enter
    obtain ⟨j, hExit, -⟩ := (hBlock.blockActions hTyped).exit
    rw [length_actionsOf]
    exact ⟨hEnter.lt_of_lt hExit hBlock.ends.lt, hExit.lt_actionCount⟩
  · obtain ⟨b, e, hBlock, rfl, rfl⟩ := (enter_iff hTyped).mp h
    obtain ⟨b', e', hBlock', rfl, rfl⟩ := (enter_iff hTyped).mp h'
    have hActions := hBlock.blockActions hTyped
    obtain ⟨i, hEnter⟩ := hActions.enter
    obtain ⟨i', hEnter'⟩ := (hBlock'.blockActions hTyped).enter
    obtain ⟨j', hExit', -⟩ := (hBlock'.blockActions hTyped).exit
    have hb : b < b' := by
      refine Nat.lt_of_le_of_ne (hEnter.le_of_le hEnter' (Nat.le_of_lt hLt)) fun hEq => ?_
      subst hEq
      omega
    have he : b' < e := by
      -- the block's end is no begin
      refine Nat.lt_of_le_of_ne ((hActions.within hEnter').2.mp hLe) fun hEq => ?_
      obtain ⟨k, -, hClosing⟩ := hBlock.ends.tokens
      obtain ⟨k', hOpening, -⟩ := hBlock'.ends.tokens
      rw [← hEq, hOpening] at hClosing
      cases hClosing
    exact (hActions.within hExit').2.mpr (Nat.le_of_lt (hBlock.ends.nested hs hBlock'.ends hb he))
  · obtain ⟨n, i, hFrom, hOp, -, hSession, -⟩ := await_session h
    obtain ⟨n', i', hFrom', hOp', -, hSession', -⟩ := await_session h'
    obtain rfl := sends_injective hFrom.at_index hFrom'.at_index (by rw [hOp]; rfl)
      (by rw [hOp']; rfl) (hSession.symm.trans hSession')
    rw [hFrom.index, hFrom'.index]

/-! ## Connections and sessions are made before they are used -/

theorem lower_connect {before : List Instruction} {exit k c role : Nat} {i : Instruction}
    (h : (lower S ctx before exit i)[k]? = some (.connect c role)) :
    i.operation = .connect ∧ k = 0 ∧ c = ctx.numConnections + connects before ∧
      role = roleOf ctx before (i.input 0) := by
  unfold lower at h
  cases hOp : i.operation <;> rcases k with _ | _ | k <;> simp_all

theorem connect_iff {a c role : Nat} :
    (actionsOf S ctx is)[a]? = some (.connect c role) ↔
      ∃ n i, ComesFrom is a n 0 i ∧ i.operation = .connect ∧
        c = ctx.numConnections + connects (is.take n) ∧
        role = roleOf ctx (is.take n) (i.input 0) := by
  constructor
  · intro h
    obtain ⟨n, k, i, hFrom, hLower⟩ := exists_of_action h
    obtain ⟨hOp, rfl, hc, hRole⟩ := lower_connect hLower
    exact ⟨n, i, hFrom, hOp, hc, hRole⟩
  · rintro ⟨n, i, hFrom, hOp, rfl, rfl⟩
    rw [hFrom.action, lower, hOp]
    rfl

/-- A connection is opened by one action. -/
theorem connect_once {a a' c role role' : Nat}
    (h : (actionsOf S ctx is)[a]? = some (.connect c role))
    (h' : (actionsOf S ctx is)[a']? = some (.connect c role')) : a = a' := by
  obtain ⟨n, i, hFrom, hOp, hc, -⟩ := connect_iff.mp h
  obtain ⟨n', i', hFrom', hOp', hc', -⟩ := connect_iff.mp h'
  have hSame : connects (is.take n) = connects (is.take n') := by omega
  obtain rfl := total_injective hFrom.at_index hFrom'.at_index (by simp [hOp]) (by simp [hOp']) hSame
  rw [hFrom.index, hFrom'.index]

/-- A connection variable holds a connection of the context, or one that the
instruction it is defined by opens. -/
theorem names_connection (hTyped : WellTypedPrefix ctx is) {v : Nat}
    (h : Names is v .connection) : connectionOf ctx is v < ctx.numConnections ∨
      ∃ n i, is[n]? = some i ∧ i.operation = .connect ∧
        connectionOf ctx is v = ctx.numConnections + connects (is.take n) ∧
        ∃ d, (definitions is)[v]? = some d ∧ d.instruction = n := by
  obtain ⟨d, i, hd, hi, -, hVar⟩ := h.definition
  have hOp : i.operation = .connect ∨ ∃ c, i.operation = .loadConnection c := makes_of_output hVar
  rcases hOp with hOp | ⟨c, hOp⟩
  · refine Or.inr ⟨d.instruction, i, hi, hOp, ?_, d, hd, rfl⟩
    simp only [connectionOf, constants, hd, hi, hOp, loaded, Value.asConnection, Option.getD_some]
  · left
    have := (hTyped d.instruction i hi).connection c hOp
    simpa only [connectionOf, constants, hd, hi, hOp, loaded, Value.asConnection,
      Option.getD_some] using this

/-- An attempt variable holds the session of the setup it is defined by. -/
theorem names_setupAttempt (ctx : ProgramContext) {v : Nat} {protocol : Protocol}
    (h : Names is v (.setupAttempt protocol)) : ∃ n i, is[n]? = some i ∧
      i.operation = .sendSetupConnection protocol ∧ sessionOf ctx is v = sends (is.take n) ∧
      v = (definitions (is.take n)).length := by
  obtain ⟨d, i, hd, hi, -, hVar⟩ := h.definition
  have hOp : i.operation = .sendSetupConnection protocol := makes_of_output hVar
  refine ⟨d.instruction, i, hi, hOp, ?_, index_of_definition hd hi (by rw [hOp]; rfl)⟩
  rw [sessionOf, (valueOf_eq ctx hd).2, Definition.value, hi]
  simp [hOp, Instruction.result, Value.asAttempt]

/-- The setup of a block's session is sent before the block. -/
theorem SuccessBlock.session_before (hTyped : WellTyped ctx is) {b e session : Nat}
    (h : SuccessBlock ctx is b e session) : ∃ m i, m < b ∧ is[m]? = some i ∧
      i.operation.isSendSetup = true ∧ session = sends (is.take m) := by
  obtain ⟨i, protocol, hb, hOp, rfl⟩ := h.begins
  have hVar : i.operation.getInputVariables[0]? = some (.setupAttempt protocol) := by
    rw [hOp]
    rfl
  have hInput := ((hTyped.instructions b i hb).input hVar).2
  obtain ⟨m, j, hj, hSend, hSession, -⟩ := names_setupAttempt ctx hInput
  obtain ⟨hLt, hj, hBefore⟩ := getElem?_of_take hj
  exact ⟨m, j, hLt, hj, by rw [hSend]; rfl, by rw [hSession, hBefore]⟩

/-- The operations whose first input is the connection they use. -/
def Operation.usesConnection : Operation → Bool
  | .sendSetupConnection _ | .sendRawFrame _ _ => true
  | _ => false

theorem usesConnection_input {op : Operation} (h : op.usesConnection = true) :
    op.getInputVariables[0]? = some .connection := by
  cases op <;> first | rfl | cases h

/-- A connection the program opens is opened before it is used, and no block that
it is opened in has ended by then. -/
theorem connect_in_scope (hTyped : WellTyped ctx is) {n : Nat} {i : Instruction}
    (hi : is[n]? = some i) (hUses : i.operation.usesConnection = true)
    (hc : ctx.numConnections ≤ connectionOf ctx (is.take n) (i.input 0)) :
    ∃ m j, m < n ∧ is[m]? = some j ∧ j.operation = .connect ∧
      connectionOf ctx (is.take n) (i.input 0) = ctx.numConnections + connects (is.take m) ∧
      ∀ b e, Matches (brackets is) b e → b ≤ m → m ≤ e → n ≤ e := by
  have hInput := ((hTyped.instructions n i hi).input (usesConnection_input hUses)).2
  rcases names_connection (hTyped.instructions.take n) hInput with
    hLt | ⟨m, j, hj, hOp, hEq, d, hd, rfl⟩
  · omega
  · obtain ⟨hLt, hj, hBefore⟩ := getElem?_of_take hj
    rw [hBefore] at hEq
    refine ⟨d.instruction, j, hLt, hj, hOp, hEq, fun b e hBlock hb he => ?_⟩
    by_contra hBehind
    -- then the connect would be the end of the block
    have hn := (List.getElem?_eq_some_iff.mp hi).1
    have hEnd := names_behind_block hTyped hBlock (Nat.le_of_lt hn) hInput hd hb he (by omega)
    obtain ⟨k, -, hClosing⟩ := hBlock.tokens
    rw [← hEnd, brackets, List.getElem?_map, hj, Option.map_some, hOp] at hClosing
    cases hClosing

theorem connect_before (hTyped : WellTyped ctx is) {a n k : Nat} {i : Instruction}
    (hFrom : ComesFrom is a n k i) (hUses : i.operation.usesConnection = true)
    (hc : ctx.numConnections ≤ connectionOf ctx (is.take n) (i.input 0)) :
    ∃ a₀ role, a₀ < a ∧ (actionsOf S ctx is)[a₀]? =
      some (.connect (connectionOf ctx (is.take n) (i.input 0)) role) := by
  obtain ⟨m, j, hLt, hj, hOp, hEq, -⟩ := connect_in_scope hTyped hFrom.at_index hUses hc
  have hConnect : ComesFrom is (actionCount (is.take m)) m 0 j :=
    ⟨hj, by rw [hOp]; exact Nat.one_pos, rfl⟩
  exact ⟨_, _, hConnect.lt_of_lt hFrom hLt, connect_iff.mpr ⟨m, j, hConnect, hOp, hEq, rfl⟩⟩

end Stratamoto
