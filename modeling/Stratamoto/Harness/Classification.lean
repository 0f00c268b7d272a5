import Stratamoto.Harness.Links
import Stratamoto.IR.Violations

/-!
# Stratamoto — client violations and what was really sent

The compiler says of every setup whether a frame precedes it on its connection,
from one walk over the instructions. A run may skip some of those frames, since
they stand in success blocks.

* `Needed ctx is n session` — the instruction at `n` only runs once the server
  agreed to the session;
* `RunsWith ctx is m n` — then the instruction at `m` has run before;
* `FramesSure ctx is` — the frames counted before a setup include one that is sure
  to have been sent;
* `ClassifiedTruly` — what is said of one setup is true of the run;
* `classification_true_of_run` — it is, for programs whose frames are sure;
* `skipped_frame_is_counted` — it is not, for one whose frame is skipped.
-/

namespace Stratamoto

open Brackets Operation Runner

/-! ## What must have run -/

/-- The sessions that were agreed to in every run that gets to the instruction at
`n`: those of the blocks around it, and of the blocks around their setups. -/
inductive Needed (ctx : ProgramContext) (is : List Instruction) (n : Nat) : Nat → Prop
  | around {b e session : Nat} :
      SuccessBlock ctx is b e session → b ≤ n → n ≤ e → Needed ctx is n session
  | through {m b e session : Nat} {i : Instruction} :
      Needed ctx is n (sends (is.take m)) → is[m]? = some i → i.operation.isSendSetup = true →
      SuccessBlock ctx is b e session → b ≤ m → m ≤ e → Needed ctx is n session

/-- In every run that gets to the instruction at `n`, the one at `m` was not skipped. -/
def RunsWith (ctx : ProgramContext) (is : List Instruction) (m n : Nat) : Prop :=
  ∀ b e session, SuccessBlock ctx is b e session → b ≤ m → m ≤ e → Needed ctx is n session

/-- If there are instructions that `Q` picks before `n`, one of them is sure to
have run. -/
def Sure (ctx : ProgramContext) (is : List Instruction) (n : Nat)
    (Q : List Instruction → Instruction → Bool) : Prop :=
  occurs (is.take n) Q = true →
    ∃ m j, m < n ∧ is[m]? = some j ∧ Q (is.take m) j = true ∧ RunsWith ctx is m n

/-- Of the frames, and of the raw frames, that stand before a setup on its
connection, one is sure to have been sent. -/
def FramesSure (ctx : ProgramContext) (is : List Instruction) : Prop :=
  ∀ (n : Nat) (i : Instruction), is[n]? = some i → i.operation.isSendSetup = true →
    Sure ctx is n (Instruction.sendsOn ctx (connectionOf ctx (is.take n) (i.input 0))) ∧
    Sure ctx is n (Instruction.rawSendsOn ctx (connectionOf ctx (is.take n) (i.input 0)))

section Runs

variable {S : Sv2} {W : World} {ctx : ProgramContext} {is : List Instruction}
variable {entries : List TraceEntry} {next : Nat} {r : Runner}

/-- A session that was agreed to at some time was before its blocks were entered. -/
theorem agreed_before_block (hTyped : WellTyped ctx is)
    (h : Reaches W (actionsOf S ctx is) entries next r) {b e session a k : Nat}
    (hBlock : SuccessBlock ctx is b e session)
    (hAgreed : Agreed (actionsOf S ctx is) (entries.take a) session)
    (hk : actionCount (is.take b) ≤ k) : Agreed (actionsOf S ctx is) (entries.take k) session := by
  obtain ⟨entry, hMem, hAgrees⟩ := hAgreed
  obtain ⟨c, protocol, first, hAwait⟩ := hAgrees.2.1
  obtain ⟨j, -, hj⟩ := getElem?_of_mem_take hMem
  have hIndex := h.action_eq (advances_of_blocks (blocks_actionsOf hTyped)) hj
  -- the await comes from the setup of the session, which stands before the block
  obtain ⟨n, i, hFrom, hOp, -, hSession, -⟩ := await_session hAwait
  obtain ⟨m, i', hm, hi', hSend', hSession'⟩ := hBlock.session_before hTyped
  obtain rfl := sends_injective hFrom.at_index hi' (by rw [hOp]; rfl) hSend'
    (hSession.symm.trans hSession')
  obtain ⟨i'', hEnter⟩ := (hBlock.blockActions hTyped).enter
  have hLt := hFrom.lt_of_lt hEnter hm
  exact ⟨entry, mem_take_of_getElem? hj (by omega), hAgrees⟩

/-- Once an action of an instruction is attempted, every session the instruction
needs was agreed to. -/
theorem agreed_of_needed (hTyped : WellTyped ctx is)
    (h : Reaches W (actionsOf S ctx is) entries next r) {a n k : Nat} {i : Instruction}
    {entry : TraceEntry} (hEntry : entries[a]? = some entry) (hAttempted : entry.attempted = true)
    (hFrom : ComesFrom is a n k i) {session : Nat} (hNeeded : Needed ctx is n session) :
    Agreed (actionsOf S ctx is) (entries.take a) session := by
  have hBlocks : Blocks (actionsOf S ctx is) := blocks_actionsOf hTyped
  -- an action attempted in a block was attempted after the block's session was agreed to
  have hAround : ∀ {a' n' k' b e s : Nat} {i' : Instruction} {entry' : TraceEntry},
      entries[a']? = some entry' → entry'.attempted = true → ComesFrom is a' n' k' i' →
      SuccessBlock ctx is b e s → b ≤ n' → n' ≤ e →
      Agreed (actionsOf S ctx is) (entries.take a') s := by
    intro a' n' k' b e s i' entry' hEntry' hAttempted' hFrom' hBlock hb he
    have hWithin := (hBlock.blockActions hTyped).within hFrom'
    exact h.agreed_of_attempted hBlocks hEntry' hAttempted'
      ((enter_iff hTyped).mpr ⟨b, e, hBlock, rfl, rfl⟩) (hWithin.1.mpr hb) (hWithin.2.mpr he)
  induction hNeeded with
  | around hBlock hb he => exact hAround hEntry hAttempted hFrom hBlock hb he
  | @through m b e session j _ hj hSend hBlock hb he ih =>
    obtain ⟨entry', hMem, hAttempted', ⟨c, protocol, first, hAwait⟩, -⟩ := ih
    obtain ⟨a', hLt, hAt⟩ := getElem?_of_mem_take hMem
    rw [h.action_eq (advances_of_blocks hBlocks) hAt] at hAwait
    obtain ⟨n', i', hFrom', hOp, -, hSession, -⟩ := await_session hAwait
    obtain rfl := sends_injective hj hFrom'.at_index hSend (by rw [hOp]; rfl) hSession
    refine (hAround hAt hAttempted' hFrom' hBlock hb he).mono fun x hx => ?_
    exact (List.take_prefix_take_left (Nat.le_of_lt hLt)).subset hx

/-- An earlier instruction that is sure to have run was not skipped. -/
theorem attempted_of_runsWith (hTyped : WellTyped ctx is)
    (h : Reaches W (actionsOf S ctx is) entries next r) {a n k a' m k' : Nat}
    {i j : Instruction} {entry entry' : TraceEntry} (hEntry : entries[a]? = some entry)
    (hAttempted : entry.attempted = true) (hFrom : ComesFrom is a n k i)
    (hEntry' : entries[a']? = some entry') (hFrom' : ComesFrom is a' m k' j)
    (hRuns : RunsWith ctx is m n) : entry'.attempted = true := by
  have hBlocks : Blocks (actionsOf S ctx is) := blocks_actionsOf hTyped
  by_contra hNot
  rw [Bool.not_eq_true] at hNot
  obtain ⟨_, session, _, hEnter, hLe, hExit, hNone, -⟩ := h.skipped_outermost hBlocks hEntry' hNot
  obtain ⟨b, e, hBlock, rfl, rfl⟩ := (enter_iff hTyped).mp hEnter
  have hWithin := (hBlock.blockActions hTyped).within hFrom'
  have hNeeded := hRuns b e session hBlock (hWithin.1.mp hLe) (hWithin.2.mp hExit)
  exact hNone (agreed_before_block hTyped h hBlock
    (agreed_of_needed hTyped h hEntry hAttempted hFrom hNeeded) hLe)

end Runs

/-! ## What is said of a setup, and what was sent -/

/-- The instruction at `m` put a frame on the connection before the action `a`:
its send was attempted. -/
def PutBefore (compiled : CompiledProgram) (entries : List TraceEntry) (a c m : Nat) : Prop :=
  ∃ (k : Nat) (sent : TraceEntry) (extensionType : UInt16) (messageType : UInt8)
    (channelMsg : Bool) (payload : List UInt8), k < a ∧ entries[k]? = some sent ∧
    sent.attempted = true ∧
    compiled.actions[k]? = some (.send c extensionType messageType channelMsg payload) ∧
    compiled.metadata.actionInstructions[k]? = some m

/-- What the compiler says of the await `a` is what happened before it. -/
structure ClassifiedTruly (p : Program) (compiled : CompiledProgram)
    (entries : List TraceEntry) (a c : Nat) (firstOnConnection : Bool) : Prop where
  /-- The setup is called first if no instruction but its own put a frame before it. -/
  first : firstOnConnection = false ↔
    ∃ m, PutBefore compiled entries a c m ∧ compiled.metadata.actionInstructions[a]? ≠ some m
  setupNotFirst : Noted compiled a .setupNotFirst ↔ firstOnConnection = false
  rawFrameBefore : Noted compiled a .rawFrameBefore ↔
    ∃ m i messageType extensionType, PutBefore compiled entries a c m ∧
      p.instructions[m]? = some i ∧ i.operation = .sendRawFrame messageType extensionType

/-- The sends on a connection before an instruction, that a run attempted. -/
theorem putBefore_instruction {S : Sv2} {p : Program} {compiled : CompiledProgram}
    (hActions : compiled.actions = actionsOf S p.context p.instructions)
    (hInstructions : compiled.metadata.actionInstructions = actionInstructionsOf p.instructions)
    {entries : List TraceEntry} {a c m n k : Nat} {i : Instruction}
    (hFrom : ComesFrom p.instructions a n k i) (h : PutBefore compiled entries a c m) :
    m ≤ n ∧ ∃ j, p.instructions[m]? = some j ∧
      j.sendsOn p.context c (p.instructions.take m) = true := by
  obtain ⟨a', sent, extensionType, messageType, channelMsg, payload, hLt, -, -, hSend, hm⟩ := h
  rw [hActions] at hSend
  obtain ⟨m', k', j, hFrom', hLower⟩ := exists_of_action hSend
  rw [hInstructions, hFrom'.instruction, Option.some.injEq] at hm
  subst hm
  refine ⟨hFrom'.le_of_le hFrom (Nat.le_of_lt hLt), j, hFrom'.at_index, ?_⟩
  -- a send is that of a setup or of a raw frame
  obtain ⟨-, hc, -, ⟨protocol, hOp, -⟩ | ⟨hOp, -⟩⟩ := lower_send hLower
  · rw [Instruction.sendsOn, hOp, hc]
    exact beq_self_eq_true _
  · rw [Instruction.sendsOn, hOp, hc]
    exact beq_self_eq_true _

/-- A run leaves an entry for every action. -/
theorem exists_entry {S : Sv2} {W : World} {ctx : ProgramContext} {is : List Instruction}
    (hTyped : WellTyped ctx is) {entries : List TraceEntry} {next a : Nat} {r : Runner}
    (h : Reaches W (actionsOf S ctx is) entries next r) (ha : a < next) :
    ∃ entry, entries[a]? = some entry := by
  have := congrArg List.length (h.covers (advances_of_blocks (blocks_actionsOf hTyped))).1
  rw [List.length_map, List.length_range] at this
  exact ⟨_, List.getElem?_eq_getElem (by omega)⟩

/-- **The classification is true where the frames are sure.** Of a statically
valid program whose frames before a setup include one that is sure to have been
sent, every await a run attempts is classified by what the run did: its setup is
called first exactly if no frame was put on its connection before, and a raw
frame is noted exactly if one was. If the await found its connection open, then
so did the sends. -/
theorem classification_true_of_run {S : Sv2} (hS : S.Lawful) {W : World} {p : Program}
    {compiled : CompiledProgram} (hValid : p.isStaticallyValid = .ok true)
    (hNum : p.context.numConnections = 0) (hSure : FramesSure p.context p.instructions)
    (hCompile : Compiler.compile S p = .ok compiled) {fuel : Nat} {execution : Execution}
    {entries : List TraceEntry} (hRun : run W fuel compiled = some (execution, entries))
    {a c session : Nat} {entry : TraceEntry} {protocol : Protocol} {first : Bool}
    (hEntry : entries[a]? = some entry) (hAttempted : entry.attempted = true)
    (hAwait : compiled.actions[a]? = some (.awaitSetupResponse c session protocol first)) :
    ClassifiedTruly p compiled entries a c first ∧
      ((∀ unmet, entry.outcome ≠ .skipped unmet) →
        ∀ (k : Nat) (sent : TraceEntry) (extensionType : UInt16) (messageType : UInt8)
          (channelMsg : Bool) (payload : List UInt8), k < a → entries[k]? = some sent →
          sent.attempted = true →
          compiled.actions[k]? = some (.send c extensionType messageType channelMsg payload) →
          ∀ unmet, sent.outcome ≠ .skipped unmet) := by
  obtain ⟨hTyped, hActions, hDescribes⟩ := compiled_of_valid hS hValid hCompile
  obtain ⟨next, r, hReaches, hEnd, -⟩ := run_reaches hRun
  have hInstructions := hDescribes.actionInstructions
  rw [hActions] at hReaches hEnd
  have hAwait' := hAwait
  rw [hActions] at hAwait'
  obtain ⟨n, i, hFrom, hOp, hc, -, hFirst⟩ := await_session hAwait'
  have hSend : i.operation.isSendSetup = true := by rw [hOp]; rfl
  have hIndex : compiled.metadata.actionInstructions[a]? = some n := by
    rw [hInstructions, hFrom.instruction]
  -- the frames that stand before the setup, and those that were put there
  have hPut : ∀ Q : List Instruction → Instruction → Bool,
      (∀ before j, Q before j = true → j.sendsOn p.context c before = true) →
      Sure p.context p.instructions n Q →
      (occurs (p.instructions.take n) Q = true ↔ ∃ m j, m ≠ n ∧ PutBefore compiled entries a c m ∧
        p.instructions[m]? = some j ∧ Q (p.instructions.take m) j = true) := by
    intro Q hQ hSureQ
    constructor
    · intro hOccurs
      obtain ⟨m, j, hLt, hj, hPicked, hRuns⟩ := hSureQ hOccurs
      obtain ⟨hFrom', extensionType, messageType, channelMsg, payload, hAction⟩ :=
        exists_send (S := S) hj (hQ _ _ hPicked)
      have hBefore := hFrom'.lt_of_lt hFrom hLt
      have hSmall := hFrom.lt_actionCount
      rw [← length_actionsOf S p.context] at hSmall
      obtain ⟨sent, hSent⟩ := exists_entry hTyped hReaches (Nat.lt_trans hBefore (by omega))
      refine ⟨m, j, by omega, ⟨_, sent, extensionType, messageType, channelMsg, payload, hBefore,
        hSent, ?_, hActions ▸ hAction, by rw [hInstructions, hFrom'.instruction]⟩, hj, hPicked⟩
      exact attempted_of_runsWith hTyped hReaches hEntry hAttempted hFrom hSent hFrom' hRuns
    · rintro ⟨m, j, hNe, hPutBefore, hj, hPicked⟩
      obtain ⟨hLe, -⟩ := putBefore_instruction hActions hInstructions hFrom hPutBefore
      have hLt : m < n := by omega
      exact occurs_take_iff.mpr ⟨m, j, hLt, hj, hPicked⟩
  obtain ⟨hSureSends, hSureRaw⟩ := hSure n i hFrom.at_index hSend
  rw [← hc] at hSureSends hSureRaw
  have hSent := hPut _ (fun _ _ h => h) hSureSends
  have hRaw := hPut _ (fun _ _ h => sendsOn_of_rawSendsOn h) hSureRaw
  have hFirstIff : first = false ↔ occurs (p.instructions.take n)
      (Instruction.sendsOn p.context c) = true := by
    rw [hFirst, firstOn, hNum]
    show (decide (0 ≤ c) && !occurs _ _) = false ↔ _
    simp
  refine ⟨⟨?_, ?_, ?_⟩, fun hNotSkipped k sent extensionType messageType channelMsg payload hk
    hSentEntry hSentAttempted hSentAction => ?_⟩
  · rw [hFirstIff, hSent, hIndex]
    constructor
    · rintro ⟨m, j, hNe, hPutBefore, -⟩
      exact ⟨m, hPutBefore, fun hEq => hNe (Option.some.inj hEq).symm⟩
    · rintro ⟨m, hPutBefore, hNe⟩
      obtain ⟨-, j, hj, hPicked⟩ := putBefore_instruction hActions hInstructions hFrom hPutBefore
      exact ⟨m, j, fun hEq => hNe (by rw [hEq]), hPutBefore, hj, hPicked⟩
  · rw [noted_iff hDescribes.violations hFrom hSend, ← hc, mem_violationsOf.1, hFirst]
  · rw [noted_iff hDescribes.violations hFrom hSend, ← hc, mem_violationsOf.2]
    show occurs _ _ = true ↔ _
    rw [hRaw]
    constructor
    · rintro ⟨m, j, -, hPutBefore, hj, hPicked⟩
      cases hRawOp : j.operation with
      | sendRawFrame messageType extensionType =>
        exact ⟨m, j, messageType, extensionType, hPutBefore, hj, hRawOp⟩
      | _ => simp [Instruction.rawSendsOn, hRawOp] at hPicked
    · rintro ⟨m, j, messageType, extensionType, hPutBefore, hj, hRawOp⟩
      obtain ⟨-, j', hj', hPicked⟩ :=
        putBefore_instruction hActions hInstructions hFrom hPutBefore
      obtain rfl := Option.some.inj (hj.symm.trans hj')
      refine ⟨m, j, fun hEq => ?_, hPutBefore, hj, ?_⟩
      · subst hEq
        obtain rfl := Option.some.inj (hj.symm.trans hFrom.at_index)
        rw [hOp] at hRawOp
        cases hRawOp
      · simpa only [Instruction.rawSendsOn, Instruction.sendsOn, hRawOp] using hPicked
  · obtain ⟨role, hOpened⟩ := opened_of_await hTyped hReaches hEntry hAttempted hNotSkipped hAwait'
    exact send_not_skipped hTyped hReaches (hOpened.mono fun _ => List.mem_of_mem_take) hSentEntry
      hSentAttempted (hActions ▸ hSentAction)

theorem rawThenSetup_framesSure :
    FramesSure rawThenSetup.context rawThenSetup.instructions := by
  -- the one frame before the setup stands in no success block
  have hNoBlock : ∀ b e session,
      ¬ SuccessBlock rawThenSetup.context rawThenSetup.instructions b e session := by
    rintro b e session ⟨⟨i, protocol, hb, hOp, -⟩, -⟩
    have hMem := List.mem_of_getElem? hb
    simp only [rawThenSetup, List.mem_cons, List.not_mem_nil, or_false] at hMem
    rcases hMem with rfl | rfl | rfl | rfl | rfl | rfl | rfl <;> cases hOp
  intro n i hi hSend
  have hAll : ∀ m < 7, (rawThenSetup.instructions.map (·.operation.isSendSetup))[m]? = some true →
      m = 6 := by decide
  obtain rfl : n = 6 := hAll n (List.getElem?_eq_some_iff.mp hi).1
    (by rw [List.getElem?_map, hi, Option.map_some, hSend])
  cases hi
  refine ⟨fun _ => ⟨3, _, by decide, rfl, rfl, fun b e session hBlock => ?_⟩,
    fun _ => ⟨3, _, by decide, rfl, rfl, fun b e session hBlock => ?_⟩⟩
  · exact absurd hBlock (hNoBlock b e session)
  · exact absurd hBlock (hNoBlock b e session)

/-- The await of the setup after the raw frame. -/
theorem classification_true_rawThenSetup : ∃ compiled execution entries entry,
    Compiler.compile Sv2.wire rawThenSetup = .ok compiled ∧
    run .silent 20 compiled = some (execution, entries) ∧ entries[3]? = some entry ∧
    entry.attempted = true ∧
    compiled.actions[3]? = some (.awaitSetupResponse 0 0 .mining false) ∧
    ClassifiedTruly rawThenSetup compiled entries 3 0 false := by
  obtain ⟨compiled, execution, entries, entry, hCompile, hRun, hEntry, hAttempted, hAwait⟩ :
      ∃ compiled execution entries entry,
        Compiler.compile Sv2.wire rawThenSetup = .ok compiled ∧
        run .silent 20 compiled = some (execution, entries) ∧ entries[3]? = some entry ∧
        entry.attempted = true ∧
        compiled.actions[3]? = some (.awaitSetupResponse 0 0 .mining false) :=
    ⟨_, _, _, _, rfl, rfl, rfl, rfl, rfl⟩
  exact ⟨compiled, execution, entries, entry, hCompile, hRun, hEntry, hAttempted, hAwait,
    (classification_true_of_run Sv2.wire_lawful (by decide) rfl rawThenSetup_framesSure hCompile
      hRun hEntry hAttempted hAwait).1⟩

/-- A setup on one connection, a raw frame on another if it is agreed to, and a
setup on that other connection. -/
def skippedFrame : Program where
  context := ⟨1, 0, 0⟩
  instructions :=
    [⟨[], .loadRole 0⟩, ⟨[0], .connect⟩, ⟨[0], .connect⟩, ⟨[], .loadBytes [0]⟩,
      ⟨[], .beginBuildSetupConnection⟩, ⟨[4], .endBuildSetupConnection .mining⟩,
      ⟨[1, 5], .sendSetupConnection .mining⟩,
      ⟨[6], .beginOnSetupSuccess .mining⟩, ⟨[2, 3], .sendRawFrame 1 0⟩, ⟨[], .endOnSetupSuccess⟩,
      ⟨[], .beginBuildSetupConnection⟩, ⟨[8], .endBuildSetupConnection .mining⟩,
      ⟨[2, 9], .sendSetupConnection .mining⟩]

def Action.sentTo : Action → Option Nat
  | .send c _ _ _ _ => some c
  | _ => none

/-- The server never agrees to the first setup, so the raw frame is never sent.
The second setup is called not the first on its connection all the same. -/
theorem skipped_frame_is_counted : ∃ compiled execution entries entry,
    skippedFrame.isStaticallyValid = .ok true ∧ skippedFrame.context.numConnections = 0 ∧
    Compiler.compile Sv2.wire skippedFrame = .ok compiled ∧
    run .silent 20 compiled = some (execution, entries) ∧ entries[8]? = some entry ∧
    entry.attempted = true ∧
    compiled.actions[8]? = some (.awaitSetupResponse 1 1 .mining false) ∧
    ¬ ClassifiedTruly skippedFrame compiled entries 8 1 false := by
  obtain ⟨compiled, execution, entries, entry, hCompile, hRun, hEntry, hAttempted, hAwait, hTried,
      hSends, hInstructions⟩ :
      ∃ compiled execution entries entry,
        Compiler.compile Sv2.wire skippedFrame = .ok compiled ∧
        run .silent 20 compiled = some (execution, entries) ∧ entries[8]? = some entry ∧
        entry.attempted = true ∧
        compiled.actions[8]? = some (.awaitSetupResponse 1 1 .mining false) ∧
        entries.map TraceEntry.attempted =
          [true, true, true, true, false, false, false, true, true] ∧
        compiled.actions.map Action.sentTo =
          [none, none, some 0, none, none, some 1, none, some 1, none] ∧
        compiled.metadata.actionInstructions = [1, 2, 6, 6, 7, 8, 9, 12, 12] :=
    ⟨_, _, _, _, rfl, rfl, rfl, rfl, rfl, rfl, rfl, rfl⟩
  refine ⟨compiled, execution, entries, entry, by decide, rfl, hCompile, hRun, hEntry, hAttempted,
    hAwait, fun hTruly => ?_⟩
  obtain ⟨m, ⟨k, sent, _, _, _, _, hLt, hSent, hSentAttempted, hSend, hm⟩, hNe⟩ :=
    hTruly.first.mp rfl
  have hTriedAt := congrArg (fun l => l[k]?) hTried
  have hSendsAt := congrArg (fun l => l[k]?) hSends
  simp only [List.getElem?_map, hSent, hSend, Option.map_some, hSentAttempted, Action.sentTo]
    at hTriedAt hSendsAt
  rw [hInstructions] at hm hNe
  -- the one send on the connection that was attempted is the setup's own
  have hOwn : ∀ k < 8, some true = [true, true, true, true, false, false, false, true, true][k]? →
      some (some 1) = [none, none, some 0, none, none, some 1, none, some 1, none][k]? →
      [1, 2, 6, 6, 7, 8, 9, 12, 12][8]? = [1, 2, 6, 6, 7, 8, 9, 12, 12][k]? := by decide
  exact hNe ((hOwn k hLt hTriedAt hSendsAt).trans hm)

end Stratamoto
