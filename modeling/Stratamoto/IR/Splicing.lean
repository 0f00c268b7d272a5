import Stratamoto.IR.Mutators
import Stratamoto.IR.ThinnedCompilation

/-!
# Stratamoto — one program behind another

Compiling `l ++ shiftAll l is`, where what is behind loads no connection: the
first program is what is kept when the second is dropped, and the second what is
kept when the first is. Both embeddings together give the compiled program.

* `separated_before`, `separated_behind` — the two markings keep parts apart;
* `CompiledAppend`, `compiled_append` — the compiled program of both, from that of each;
* `splice_compiles` — what `ConcatMutator` makes of two programs.
-/

namespace Stratamoto

open Brackets Operation Marks Draws

variable {S : Sv2} {ctx : ProgramContext} {l is : List Instruction}

/-! ## The parts are apart -/

theorem take_before (l is : List Instruction) (n : Nat) :
    (before l is).take (l.length + n) = before l (is.take n) := take_markAll_append ..

/-- The entries of `before`: those of `l` are kept, those behind it dropped. -/
theorem getElem?_before {n : Nat} {i : Instruction} {b : Bool}
    (h : (before l is)[n]? = some (i, b)) :
    (b = true ∧ l[n]? = some i) ∨
      b = false ∧ ∃ m j, n = l.length + m ∧ is[m]? = some j ∧
        i = j.shift (definitions l).length :=
  getElem?_markAll_append h

/-- What is behind loads no connection. -/
def LoadsNone (is : List Instruction) : Prop :=
  ∀ (n c : Nat) (i : Instruction), is[n]? = some i → i.operation ≠ .loadConnection c

theorem loadsNone_of_context (hTyped : WellTypedPrefix ctx is) (hContext : ctx.numConnections = 0) :
    LoadsNone is := by
  intro n c i hi hOp
  have hLt := (hTyped n i hi).connection c hOp
  rw [hContext] at hLt
  exact Nat.not_lt_zero c hLt

/-- Dropping what is behind. -/
theorem separated_before (hl : WellTyped ctx l) (h : WellTyped ctx is) (hLoads : LoadsNone is) :
    Separated (before l is) := by
  have hScoped := hl.instructions.scoped
  refine ⟨respects_before l h.balanced, fun n i hn v hv => ?_, fun n i hn v hv => ?_,
    fun n n' c i i' hn hn' hLoad hLoad' => ?_⟩
  · rcases getElem?_before hn with ⟨-, hi⟩ | ⟨hFalse, -⟩
    · have hLt := (List.getElem?_eq_some_iff.mp hi).1
      have hTake : (before l is).take n = markAll true (l.take n) := by
        rw [before, List.take_append_of_le_length (by simpa [markAll] using Nat.le_of_lt hLt),
          markAll, markAll, List.map_take]
      rw [hTake]
      exact keptVar_markAll _ (hScoped n i hi v hv)
    · cases hFalse
  · rcases getElem?_before hn with ⟨hTrue, -⟩ | ⟨-, m, j, rfl, hj, rfl⟩
    · cases hTrue
    · -- it reads variables behind those of `l`
      intro hKept
      rw [take_before] at hKept
      have hFront := (Kept.front hKept).1
      obtain ⟨u, -, rfl⟩ := List.mem_map.mp hv
      rw [← length_definitions] at hFront
      omega
  · rcases getElem?_before hn' with ⟨hTrue, -⟩ | ⟨-, m, j, -, hj, rfl⟩
    · cases hTrue
    · exact hLoads m c j hj hLoad'

/-- Dropping what is in front. -/
theorem separated_behind (hl : WellTyped ctx l) (h : WellTyped ctx is) (hLoads : LoadsNone is) :
    Separated (behind l is) := by
  refine ⟨respects_behind hl.balanced is, keepsInputs_behind h.instructions.scoped,
    fun n i hn v hv => ?_, fun n n' c i i' hn hn' hLoad hLoad' => ?_⟩
  · rcases getElem?_behind hn with ⟨-, hi⟩ | ⟨hTrue, -⟩
    · have hLt := (List.getElem?_eq_some_iff.mp hi).1
      have hTake : (behind l is).take n = markAll false (l.take n) := by
        rw [behind, List.take_append_of_le_length (by simpa [markAll] using Nat.le_of_lt hLt),
          markAll, markAll, List.map_take]
      rw [hTake]
      exact not_kept_dropped _ v
    · cases hTrue
  · rcases getElem?_behind hn with ⟨hFalse, -⟩ | ⟨-, m, j, -, hj, rfl⟩
    · cases hFalse
    · exact hLoads m c j hj hLoad

/-! ## Numbers in front and behind -/

theorem sum_weights (weight : Operation → Nat) (is : List Instruction) :
    (is.map fun i => weight i.operation).sum = total weight is := rfl

theorem totalAt_before {weight : Operation → Nat} {k : Nat}
    (h : Kept (fun i => weight i.operation) (before l is) k) :
    k < total weight l ∧ totalAt weight (before l is) k = k := Kept.front h

theorem totalAt_behind {weight : Operation → Nat} {k : Nat}
    (h : Kept (fun i => weight i.operation) (behind l is) k) :
    total weight l ≤ k ∧ totalAt weight (behind l is) k + total weight l = k := by
  obtain ⟨u, rfl, -, hEq⟩ := Kept.back h
  refine ⟨Nat.le_add_right .., ?_⟩
  rw [totalAt, behind, hEq, sum_weights, Nat.add_comm]

theorem connectionAt_before {c : Nat} (h : KeptConnection ctx (before l is) c) :
    c < ctx.numConnections + connects l ∧ connectionAt ctx (before l is) c = c := by
  rcases h with hLt | ⟨hGe, hUnit⟩
  · exact ⟨by omega, connectionAt_of_lt _ hLt⟩
  · obtain ⟨k, rfl⟩ := Nat.exists_eq_add_of_le hGe
    rw [Nat.add_sub_cancel_left] at hUnit
    obtain ⟨hLt, hEq⟩ := @totalAt_before l is (fun op => if op = .connect then 1 else 0) k hUnit
    rw [connectionAt_add, hEq]
    exact ⟨Nat.add_lt_add_left hLt _, rfl⟩

theorem connectionAt_behind {c : Nat} (h : KeptConnection ctx (behind l is) c)
    (hOpened : ctx.numConnections ≤ c) :
    ctx.numConnections + connects l ≤ c ∧ connectionAt ctx (behind l is) c + connects l = c := by
  rcases h with hLt | ⟨-, hUnit⟩
  · omega
  · obtain ⟨k, rfl⟩ := Nat.exists_eq_add_of_le hOpened
    rw [Nat.add_sub_cancel_left] at hUnit
    obtain ⟨hGe, hEq⟩ := @totalAt_behind l is (fun op => if op = .connect then 1 else 0) k hUnit
    rw [connectionAt_add, Nat.add_assoc]
    exact ⟨Nat.add_le_add_left hGe _, congrArg _ hEq⟩

/-- What is behind provides connections that it opens. -/
theorem Provides.opened (hLoads : LoadsNone is) {c : Nat}
    (h : Provides ctx (behind l is) true c) : ctx.numConnections ≤ c := by
  obtain ⟨n, i, hn, ⟨hOp, -⟩ | ⟨-, rfl⟩⟩ := h
  · rcases getElem?_behind hn with ⟨hFalse, -⟩ | ⟨-, m, j, -, hj, rfl⟩
    · cases hFalse
    · exact absurd hOp (hLoads m c j hj)
  · exact Nat.le_add_right ..

/-! ## Actions -/

/-- An action with its connections, its session and its block's end moved up. -/
def Action.shift (connections sessions actions : Nat) : Action → Action
  | .connect c role => .connect (c + connections) role
  | .send c extensionType messageType channelMsg payload =>
    .send (c + connections) extensionType messageType channelMsg payload
  | .awaitSetupResponse c k protocol first =>
    .awaitSetupResponse (c + connections) (k + sessions) protocol first
  | .enterOnSetupSuccess k exit => .enterOnSetupSuccess (k + sessions) (exit + actions)
  | .exitBlock => .exitBlock
  | .advanceTime duration => .advanceTime duration
  | .probe => .probe

theorem action_before {a : Action} (h : a.KeptIds ctx (before l is)) :
    a.renumber ctx (before l is) = a := by
  have hSession : ∀ {k : Nat}, KeptSession (before l is) k → sessionAt (before l is) k = k :=
    fun hk => (@totalAt_before l is (fun op => if op.isSendSetup then 1 else 0) _ hk).2
  cases a with
  | connect c role => rw [Action.renumber, (connectionAt_before (Provides.kept h)).2]
  | send c extensionType messageType channelMsg payload =>
    rw [Action.renumber, (connectionAt_before (Provides.kept h)).2]
  | awaitSetupResponse c k protocol first =>
    rw [Action.renumber, (connectionAt_before h.1.kept).2, hSession h.2]
  | enterOnSetupSuccess k exit =>
    have hExit : actionAt (before l is) exit = exit := (totalAt_before h.2).2
    rw [Action.renumber, hSession h.1, hExit]
  | exitBlock => rfl
  | advanceTime duration => rfl
  | probe => rfl

theorem action_behind (hLoads : LoadsNone is) {a : Action} (h : a.KeptIds ctx (behind l is)) :
    (a.renumber ctx (behind l is)).shift (connects l) (sends l) (actionCount l) = a := by
  -- the program behind has no connection or session of the one in front
  have hConnection : ∀ {c : Nat}, Provides ctx (behind l is) true c →
      connectionAt ctx (behind l is) c + connects l = c :=
    fun hc => (connectionAt_behind hc.kept (hc.opened hLoads)).2
  have hSession : ∀ {k : Nat}, KeptSession (behind l is) k →
      sessionAt (behind l is) k + sends l = k :=
    fun hk => (@totalAt_behind l is (fun op => if op.isSendSetup then 1 else 0) _ hk).2
  cases a with
  | connect c role => rw [Action.renumber, Action.shift, hConnection h]
  | send c extensionType messageType channelMsg payload =>
    rw [Action.renumber, Action.shift, hConnection h]
  | awaitSetupResponse c k protocol first =>
    rw [Action.renumber, Action.shift, hConnection h.1, hSession h.2]
  | enterOnSetupSuccess k exit =>
    have hExit : actionAt (behind l is) exit + actionCount l = exit := (totalAt_behind h.2).2
    rw [Action.renumber, Action.shift, hSession h.1, hExit]
  | exitBlock => rfl
  | advanceTime duration => rfl
  | probe => rfl

/-! ## Compiled programs -/

/-- Two maps whose keys are a front and a back are one map. -/
theorem lookup_append {β : Type} {kept₁ kept₂ : Nat → Prop} {key₁ key₂ : Nat → Nat}
    {keptVal₁ keptVal₂ : β → Prop} {val₁ val₂ raise : β → β} {m m₁ m₂ : HashMap β} {n shift : Nat}
    (h₁ : KeptEntries kept₁ key₁ keptVal₁ val₁ m m₁)
    (h₂ : KeptEntries kept₂ key₂ keptVal₂ val₂ m m₂)
    (hKey₁ : ∀ k v, m.lookup k = some v → kept₁ k → k < n ∧ key₁ k = k)
    (hKey₂ : ∀ k v, m.lookup k = some v → kept₂ k → n ≤ k ∧ key₂ k + shift = k)
    (hVal₁ : ∀ v, keptVal₁ v → val₁ v = v) (hVal₂ : ∀ v, keptVal₂ v → raise (val₂ v) = v)
    (hEither : ∀ k v, m.lookup k = some v → kept₁ k ∨ kept₂ k) (hShift : shift ≤ n) (k : Nat) :
    m.lookup k = if k < n then m₁.lookup k else (m₂.lookup (k - shift)).map raise := by
  refine Option.ext fun v => ?_
  -- below `n` only the first map has entries, from `n` on only the second
  split
  · rename_i hLt
    rw [h₁.entries k v]
    constructor
    · intro hLookup
      rcases hEither k v hLookup with hKept | hKept
      · exact ⟨k, v, hKept, hLookup, (hKey₁ k v hLookup hKept).2, hVal₁ v (h₁.values k v hKept hLookup)⟩
      · have := (hKey₂ k v hLookup hKept).1
        omega
    · rintro ⟨k₀, v₀, hKept, hLookup, rfl, rfl⟩
      rw [(hKey₁ k₀ v₀ hLookup hKept).2, hVal₁ v₀ (h₁.values k₀ v₀ hKept hLookup)]
      exact hLookup
  · rename_i hGe
    rw [Option.map_eq_some_iff]
    constructor
    · intro hLookup
      rcases hEither k v hLookup with hKept | hKept
      · exact absurd (hKey₁ k v hLookup hKept).1 hGe
      · obtain ⟨-, hEq⟩ := hKey₂ k v hLookup hKept
        refine ⟨val₂ v, ?_, hVal₂ v (h₂.values k v hKept hLookup)⟩
        exact (h₂.entries _ _).mpr ⟨k, v, hKept, hLookup, by omega, rfl⟩
    · rintro ⟨v', hLookup', rfl⟩
      obtain ⟨k₀, v₀, hKept, hLookup, hEq, rfl⟩ := (h₂.entries _ _).mp hLookup'
      obtain ⟨-, hBack⟩ := hKey₂ k₀ v₀ hLookup hKept
      obtain rfl : k₀ = k := by omega
      rw [hVal₂ v₀ (h₂.values _ v₀ hKept hLookup)]
      exact hLookup

/-- The compiled program of `l` and what is behind it, from those of each. -/
structure CompiledAppend (l : List Instruction) (first second whole : CompiledProgram) : Prop where
  context : whole.context = first.context
  actions : whole.actions =
    first.actions ++ second.actions.map (Action.shift (connects l) (sends l) first.actions.length)
  actionInstructions : whole.metadata.actionInstructions =
    first.metadata.actionInstructions ++ second.metadata.actionInstructions.map (· + l.length)
  connectionVariables : ∀ c, whole.metadata.connectionVariables.lookup c =
    if c < first.context.numConnections + connects l then
      first.metadata.connectionVariables.lookup c
    else (second.metadata.connectionVariables.lookup (c - connects l)).map
      (· + (definitions l).length)
  sessionVariables : ∀ k, whole.metadata.sessionVariables.lookup k =
    if k < sends l then first.metadata.sessionVariables.lookup k
    else (second.metadata.sessionVariables.lookup (k - sends l)).map (· + (definitions l).length)
  sessionSetups : ∀ k, whole.metadata.sessionSetups.lookup k =
    if k < sends l then first.metadata.sessionSetups.lookup k
    else second.metadata.sessionSetups.lookup (k - sends l)
  violations : ∀ a, whole.metadata.violations.lookup a =
    if a < first.actions.length then first.metadata.violations.lookup a
    else second.metadata.violations.lookup (a - first.actions.length)

theorem context_of_compile {p : Program} {compiled : CompiledProgram}
    (h : Compiler.compile S p = .ok compiled) : compiled.context = p.context := by
  obtain ⟨c, -, hProgram⟩ := bind_ok h
  cases hProgram
  rfl

/-- A well typed program compiles where all its setups can be encoded. -/
theorem compile_ok_iff (hS : S.Lawful) (hTyped : WellTyped ctx is) :
    (∃ compiled, Compiler.compile S ⟨ctx, is⟩ = .ok compiled) ↔ NoneTooLong ctx is := by
  constructor
  · rintro ⟨compiled, hCompile⟩
    exact noneTooLong_of_compile hS hTyped hCompile
  · intro hNone
    rcases compile_cases hS hTyped with ⟨-, m, -, hOk⟩ | ⟨v, ⟨n, i, hi, hLong, -⟩, -⟩
    · exact ⟨_, hOk⟩
    · exact absurd hLong (hNone n i v hi)

/-- **What is behind a program compiles with it** where both compile. -/
theorem compile_append_iff (hS : S.Lawful) (hl : WellTyped ctx l) (h : WellTyped ctx is)
    (hLoads : LoadsNone is) :
    (∃ whole, Compiler.compile S ⟨ctx, l ++ shiftAll l is⟩ = .ok whole) ↔
      (∃ first, Compiler.compile S ⟨ctx, l⟩ = .ok first) ∧
        ∃ second, Compiler.compile S ⟨ctx, is⟩ = .ok second := by
  have hWhole := wellTyped_append hl h
  have hBefore := separated_before hl h hLoads
  have hBehind := separated_behind hl h hLoads
  -- both programs are what is kept of the whole, and a compile fails on a long string only
  have hFirst := noneTooLong_keptOf_iff (by rw [wholeOf_before]; exact hWhole.instructions) hBefore
  have hSecond := noneTooLong_keptOf_iff (by rw [wholeOf_behind]; exact hWhole.instructions) hBehind
  rw [keptOf_before hl.instructions.scoped, wholeOf_before] at hFirst
  rw [keptOf_behind h.instructions.scoped, wholeOf_behind] at hSecond
  rw [compile_ok_iff hS hWhole, compile_ok_iff hS hl, compile_ok_iff hS h, hFirst, hSecond]
  constructor
  · intro hNone
    refine ⟨fun n i v hn => hNone n i v ?_, fun n i v hn => hNone n i v ?_⟩
    · have hAt := getElem?_wholeOf hn
      rwa [wholeOf_before] at hAt
    · have hAt := getElem?_wholeOf hn
      rwa [wholeOf_behind] at hAt
  · rintro ⟨hFront, hBack⟩ n i v hi
    rcases Nat.lt_or_ge n l.length with hLt | hGe
    · refine hFront n i v ?_
      rw [List.getElem?_append_left hLt] at hi
      rw [before, List.getElem?_append_left (by simpa [markAll] using hLt)]
      exact getElem?_markAll.mpr ⟨hi, rfl⟩
    · refine hBack n i v ?_
      rw [List.getElem?_append_right hGe] at hi
      rw [behind, List.getElem?_append_right (by simpa [markAll] using hGe)]
      simpa [markAll] using hi

section Keys

variable {m : CompiledMetadata} (hm : Describes ctx is m)

include hm

/-- The connections a program opens. -/
theorem Describes.connection_lt {c v : Nat} (hLookup : m.connectionVariables.lookup c = some v) :
    ctx.numConnections ≤ c ∧ c - ctx.numConnections < connects is := by
  obtain ⟨n, i, hi, hEntry⟩ := (hm.connectionVariables c v).mp hLookup
  obtain ⟨hOp, rfl, -⟩ := connectionEntry_eq_some.mp hEntry
  have : connects (is.take n) < connects is := total_take_lt _ hi (by simp [hOp])
  omega

theorem Describes.violation_lt {a : Nat} {violations : List ClientViolation}
    (hLookup : m.violations.lookup a = some violations) : a < actionCount is := by
  obtain ⟨n, i, hi, hEntry⟩ := (hm.violations a violations).mp hLookup
  obtain ⟨hSend, rfl, -⟩ := violationEntry_eq_some.mp hEntry
  obtain ⟨protocol, hSetup⟩ := isSendSetup_iff.mp hSend
  have := total_take_add_le Operation.numActions hi (List.getElem?_eq_some_iff.mp hi).1
  rw [List.take_length, hSetup] at this
  simp only [actionCount, numActions] at *
  omega

end Keys

theorem session_lt {β : Type} {get : List Instruction → Instruction → β} {sessions : HashMap β}
    (hs : MadeBy is (sessionEntry get) sessions) {k : Nat} {v : β}
    (hLookup : sessions.lookup k = some v) : k < sends is := by
  obtain ⟨n, i, hi, hEntry⟩ := (hs k v).mp hLookup
  obtain ⟨hSend, rfl, -⟩ := sessionEntry_eq_some.mp hEntry
  exact total_take_lt _ hi (by simp [hSend])

/-- A key of the whole belongs to the front or to the back. -/
theorem kept_either {weight : Operation → Nat} {k : Nat}
    (hk : k < total weight (l ++ shiftAll l is)) :
    Kept (fun i => weight i.operation) (before l is) k ∨
      Kept (fun i => weight i.operation) (behind l is) k := by
  rw [total_append] at hk
  exact kept_front_or_back hk

theorem select_before {β : Type} {xs : List β}
    (hxs : xs.length = actionCount (l ++ shiftAll l is)) :
    select (actionMarks (before l is)) xs = xs.take (actionCount l) :=
  select_front (by rw [hxs, actionCount, total_append]; rfl)

theorem select_behind {β : Type} {xs : List β}
    (hxs : xs.length = actionCount (l ++ shiftAll l is)) :
    select (actionMarks (behind l is)) xs = xs.drop (actionCount l) :=
  select_back (by rw [hxs, actionCount, total_append]; rfl)

/-- The instructions behind are found behind. -/
theorem actionInstructionsOf_append (l is : List Instruction) :
    actionInstructionsOf (l ++ shiftAll l is) =
      actionInstructionsOf l ++ (actionInstructionsOf is).map (· + l.length) := by
  induction is using List.reverseRecOn with
  | nil => simp [shiftAll, actionInstructionsOf]
  | append_singleton is i ih =>
    have hSnoc : l ++ shiftAll l (is ++ [i]) =
        l ++ shiftAll l is ++ [i.shift (definitions l).length] := by
      simp [shiftAll]
    have hLength : (l ++ shiftAll l is).length = is.length + l.length := by
      simp [shiftAll, Nat.add_comm]
    rw [hSnoc, actionInstructionsOf_snoc, ih, actionInstructionsOf_snoc, List.map_append,
      List.map_replicate, hLength, List.append_assoc]
    rfl

/-- **A program behind another compiles to its own actions**, moved up, behind
those of the other. -/
theorem compiled_append (hS : S.Lawful) (hl : WellTyped ctx l) (h : WellTyped ctx is)
    (hLoads : LoadsNone is) {first second whole : CompiledProgram}
    (hFirst : Compiler.compile S ⟨ctx, l⟩ = .ok first)
    (hSecond : Compiler.compile S ⟨ctx, is⟩ = .ok second)
    (hCompile : Compiler.compile S ⟨ctx, l ++ shiftAll l is⟩ = .ok whole) :
    CompiledAppend l first second whole := by
  have hWhole := wellTyped_append hl h
  -- the two embeddings
  obtain ⟨first', hFirst', hKept₁⟩ := compiled_keptOf hS (by rwa [wholeOf_before])
    (separated_before hl h hLoads) (by rwa [wholeOf_before])
  obtain ⟨second', hSecond', hKept₂⟩ := compiled_keptOf hS (by rwa [wholeOf_behind])
    (separated_behind hl h hLoads) (by rwa [wholeOf_behind])
  rw [keptOf_before hl.instructions.scoped] at hFirst'
  rw [keptOf_behind h.instructions.scoped] at hSecond'
  obtain rfl := Except.ok.inj (hFirst'.symm.trans hFirst)
  obtain rfl := Except.ok.inj (hSecond'.symm.trans hSecond)
  obtain ⟨hActions, hm⟩ := compiled_of_typed hS hWhole hCompile
  obtain ⟨hActions₁, hm₁⟩ := compiled_of_typed hS hl hFirst
  have hCount : first'.actions.length = actionCount l := hActions₁ ▸ length_actionsOf S ctx l
  obtain ⟨-, hm₂⟩ := compiled_of_typed hS h hSecond
  have hContext : first'.context = ctx := context_of_compile hFirst
  have hVar₁ : ∀ v, KeptVar (before l is) v → varAt (before l is) v = v := fun v hv =>
    (totalAt_before hv).2
  have hVar₂ : ∀ v, KeptVar (behind l is) v →
      varAt (behind l is) v + (definitions l).length = v := fun v hv => by
    rw [length_definitions]
    exact (totalAt_behind hv).2
  have hSession₁ : ∀ k, KeptSession (before l is) k →
      k < sends l ∧ sessionAt (before l is) k = k := fun k hk => totalAt_before hk
  have hSession₂ : ∀ k, KeptSession (behind l is) k →
      sends l ≤ k ∧ sessionAt (behind l is) k + sends l = k := fun k hk => totalAt_behind hk
  refine ⟨hKept₁.context.symm, ?_, ?_, fun c => ?_, fun k => ?_, fun k => ?_, fun a => ?_⟩
  · -- the actions of the whole are those of the front and those of the back
    have hLength : whole.actions.length = actionCount (l ++ shiftAll l is) :=
      hActions ▸ length_actionsOf S ctx _
    have hIds₁ := hKept₁.ids
    have hIds₂ := hKept₂.ids
    rw [select_before hLength] at hIds₁
    rw [select_behind hLength] at hIds₂
    have hFront : first'.actions = whole.actions.take (actionCount l) := by
      rw [hKept₁.actions, select_before hLength]
      exact map_eq_self fun a ha => action_before (hIds₁ a ha)
    have hBack : second'.actions.map (Action.shift (connects l) (sends l) (actionCount l)) =
        whole.actions.drop (actionCount l) := by
      rw [hKept₂.actions, select_behind hLength, List.map_map]
      exact map_eq_self fun a ha => action_behind hLoads (hIds₂ a ha)
    rw [hCount, hBack, hFront, List.take_append_drop]
  · rw [hm.actionInstructions, hm₁.actionInstructions, hm₂.actionInstructions]
    exact actionInstructionsOf_append l is
  · rw [hContext]
    exact lookup_append hKept₁.connectionVariables hKept₂.connectionVariables
      (fun c v _ hc => connectionAt_before hc)
      (fun c v hLookup hc => connectionAt_behind hc (hm.connection_lt hLookup).1) hVar₁ hVar₂
      (fun c v hLookup => by
        obtain ⟨hGe, hLt⟩ := hm.connection_lt hLookup
        exact (kept_either hLt).imp (fun hk => Or.inr ⟨hGe, hk⟩) fun hk => Or.inr ⟨hGe, hk⟩)
      (Nat.le_add_left ..) c
  · exact lookup_append hKept₁.sessionVariables hKept₂.sessionVariables
      (fun k v _ hk => hSession₁ k hk) (fun k v _ hk => hSession₂ k hk) hVar₁ hVar₂
      (fun k v hLookup => kept_either (session_lt hm.sessionVariables hLookup)) (Nat.le_refl _) k
  · have hLookup : whole.metadata.sessionSetups.lookup k =
        if k < sends l then first'.metadata.sessionSetups.lookup k
        else (second'.metadata.sessionSetups.lookup (k - sends l)).map id :=
      lookup_append hKept₁.sessionSetups hKept₂.sessionSetups
        (fun k v _ hk => hSession₁ k hk) (fun k v _ hk => hSession₂ k hk) (fun _ _ => rfl)
        (fun _ _ => rfl) (fun k v hLookup => kept_either (session_lt hm.sessionSetups hLookup))
        (Nat.le_refl _) k
    rwa [Option.map_id_fun, id_eq] at hLookup
  · have hLookup : whole.metadata.violations.lookup a =
        if a < actionCount l then first'.metadata.violations.lookup a
        else (second'.metadata.violations.lookup (a - actionCount l)).map id :=
      lookup_append hKept₁.violations hKept₂.violations
        (fun a v _ ha => totalAt_before ha) (fun a v _ ha => totalAt_behind ha) (fun _ _ => rfl)
        (fun _ _ => rfl) (fun a v hLookup => kept_either (hm.violation_lt hLookup))
        (Nat.le_refl _) a
    rwa [Option.map_id_fun, id_eq, ← hCount] at hLookup

/-- **Compilation is compositional over splicing.** Where no connection exists
before the programs run, a splice compiles exactly when both programs do, and
then to the actions of the first and those of the second, moved up. -/
theorem splice_compiles (hS : S.Lawful) {p q : Program} (hp : p.isStaticallyValid = .ok true)
    (hq : q.isStaticallyValid = .ok true) (hContext : q.context = p.context)
    (hConnections : p.context.numConnections = 0) (hNonempty : q.instructions ≠ []) :
    ∃ pq : Program,
      (∀ {ρ : Type} (r : ρ), ConcatMutator.splice p q r = some (.ok ((.ok (), pq), r))) ∧
      ((∃ whole, Compiler.compile S pq = .ok whole) ↔
        (∃ first, Compiler.compile S p = .ok first) ∧
          ∃ second, Compiler.compile S q = .ok second) ∧
      ∀ first second whole, Compiler.compile S p = .ok first → Compiler.compile S q = .ok second →
        Compiler.compile S pq = .ok whole → CompiledAppend p.instructions first second whole := by
  obtain ⟨ctx, l⟩ := p
  obtain ⟨ctx', is⟩ := q
  obtain rfl : ctx' = ctx := hContext
  have hl : WellTyped ctx' l := isStaticallyValid_iff.mp hp
  have h : WellTyped ctx' is := isStaticallyValid_iff.mp hq
  -- no connection of the context can be loaded
  have hLoads := loadsNone_of_context h.instructions hConnections
  refine ⟨⟨ctx', l ++ shiftAll l is⟩, fun r => ?_, compile_append_iff hS hl h hLoads,
    fun first second whole hFirst hSecond hWhole => ?_⟩
  · exact @ConcatMutator.splice_ok _ ⟨ctx', l⟩ hl ⟨ctx', is⟩ h hNonempty r
  · exact compiled_append hS hl h hLoads hFirst hSecond hWhole

theorem splice_compiles_singleSetup : ∃ compiled pq whole,
    Compiler.compile Sv2.wire singleSetup = .ok compiled ∧
    ConcatMutator.splice singleSetup singleSetup () = some (.ok ((.ok (), pq), ())) ∧
    Compiler.compile Sv2.wire pq = .ok whole ∧
    CompiledAppend singleSetup.instructions compiled compiled whole := by
  obtain ⟨compiled, hCompile⟩ : ∃ compiled,
      Compiler.compile Sv2.wire singleSetup = .ok compiled := ⟨_, rfl⟩
  obtain ⟨pq, hSplice, hIff, hAppend⟩ := splice_compiles Sv2.wire_lawful (p := singleSetup)
    (q := singleSetup) (by decide) (by decide) rfl rfl (by decide)
  obtain ⟨whole, hWhole⟩ := hIff.mpr ⟨⟨compiled, hCompile⟩, compiled, hCompile⟩
  exact ⟨compiled, pq, whole, hCompile, hSplice (), hWhole,
    hAppend compiled compiled whole hCompile hCompile hWhole⟩

end Stratamoto
