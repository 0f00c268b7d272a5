import Stratamoto.IR.Splicing

/-!
# Stratamoto — a fragment inside a program

A balanced fragment put between two parts of a program: the inputs of the rest
that name variables past the point move up by what the fragment defines. The
program is what is kept when the fragment is dropped.

* `inserted a m r` — the instructions `m` between `a` and `r`;
* `keptOf_outside`, `definition_inserted` — what the program is, and names, without `m`;
* `wellTyped_inserted` — typing, where the fragment may follow `a`;
* `CompiledInserted`, `compiled_inserted` — the compiled program, where the
  fragment has nothing to do with the rest.
-/

namespace Stratamoto

open Brackets Operation Marks

variable {S : Sv2} {ctx : ProgramContext} {a m r : List Instruction}

/-- The instruction with its inputs from the point on moved up. -/
def Instruction.moveUp (point amount : Nat) (i : Instruction) : Instruction :=
  { i with inputs := i.inputs.map (Marks.moveUp point amount) }

/-- The rest of a program, once `m` stands between it and `a`. -/
def restBehind (a m r : List Instruction) : List Instruction :=
  r.map (Instruction.moveUp (definitions a).length (total Operation.numDefined m))

/-- The instructions `m` between `a` and `r`. -/
def inserted (a m r : List Instruction) : List Instruction := a ++ m ++ restBehind a m r

/-- Drop `m`, keep what is around it. -/
def outside (a m r : List Instruction) : Marking := around a m (restBehind a m r)

theorem total_restBehind (weight : Operation → Nat) (a m r : List Instruction) :
    total weight (restBehind a m r) = total weight r := by
  simp [total, restBehind, Function.comp_def, Instruction.moveUp]

theorem length_restBehind (a m r : List Instruction) : (restBehind a m r).length = r.length :=
  List.length_map _

@[simp] theorem wholeOf_outside (a m r : List Instruction) :
    wholeOf (outside a m r) = inserted a m r := by
  simp [outside, around, inserted]

theorem outside_snoc (a m r : List Instruction) (i : Instruction) :
    outside a m (r ++ [i]) = outside a m r ++
      [(i.moveUp (definitions a).length (total Operation.numDefined m), true)] := by
  simp [outside, around, restBehind, markAll]

/-! ## Numbers -/

/-- What is counted behind the fragment moves up by what the fragment counts for. -/
theorem totalAt_outside (weight : Operation → Nat) {k : Nat}
    (hk : k ≤ total weight a + total weight r) :
    totalAt weight (outside a m r) (moveUp (total weight a) (total weight m) k) = k := by
  rw [← total_restBehind weight a m r] at hk
  exact renumber_around hk

theorem kept_outside_iff (weight : Operation → Nat) {v : Nat} :
    Kept (fun i => weight i.operation) (outside a m r) v ↔
      ∃ u < total weight a + total weight r, v = moveUp (total weight a) (total weight m) u := by
  rw [← total_restBehind weight a m r]
  exact kept_around_iff

theorem length_definitions_total (is : List Instruction) :
    (definitions is).length = total Operation.numDefined is := length_definitions is

theorem varAt_outside {v : Nat} (hv : v ≤ (definitions (a ++ r)).length) :
    varAt (outside a m r) (moveUp (definitions a).length (total Operation.numDefined m) v) = v := by
  rw [length_definitions_total, total_append] at hv
  rw [length_definitions_total]
  exact totalAt_outside Operation.numDefined hv

theorem keptVar_outside {v : Nat} (hv : v < (definitions (a ++ r)).length) :
    KeptVar (outside a m r)
      (moveUp (definitions a).length (total Operation.numDefined m) v) := by
  rw [length_definitions_total, total_append] at hv
  rw [length_definitions_total]
  exact (kept_outside_iff Operation.numDefined).mpr ⟨v, hv, rfl⟩

theorem sum_ones {α : Type*} (l : List α) : (l.map fun _ => 1).sum = l.length := by
  simp

theorem positionAt_outside {n : Nat} (hn : n ≤ a.length + r.length) :
    positionAt (outside a m r) (moveUp a.length m.length n) = n := by
  rw [← length_restBehind a m r, ← sum_ones a, ← sum_ones (restBehind a m r)] at hn
  rw [← sum_ones a, ← sum_ones m]
  exact renumber_around hn

theorem keptAt_outside_iff {n : Nat} :
    KeptAt (outside a m r) n ↔ ∃ k < a.length + r.length, n = moveUp a.length m.length k := by
  rw [← length_restBehind a m r, ← sum_ones a, ← sum_ones m, ← sum_ones (restBehind a m r)]
  exact kept_around_iff

/-! ## The program around the fragment -/

/-- **Without the fragment** the program is what it was. -/
theorem keptOf_outside (h : Scoped (a ++ r)) : keptOf (outside a m r) = a ++ r := by
  induction r using List.reverseRecOn with
  | nil =>
    rw [List.append_nil] at h ⊢
    have hNil : outside a m [] = markAll true a ++ markAll false m := by
      simp [outside, around, restBehind, markAll]
    rw [hNil, keptOf_dropped, keptOf_markAll h]
  | append_singleton r i ih =>
    rw [← List.append_assoc] at h ⊢
    obtain ⟨hScoped, hInputs⟩ := h.snoc
    rw [outside_snoc, keptOf_snoc, ih hScoped]
    -- the inputs that were moved up are moved back
    have hBack : ∀ v ∈ i.inputs, varAt (outside a m r)
        (moveUp (definitions a).length (total Operation.numDefined m) v) = v := fun v hv =>
      varAt_outside (Nat.le_of_lt (hInputs v hv))
    have hSame : (i.inputs.map (moveUp (definitions a).length (total Operation.numDefined m))).map
        (varAt (outside a m r)) = i.inputs := by
      rw [List.map_map]
      exact map_eq_self hBack
    rw [Instruction.renumber, Instruction.moveUp, hSame]

theorem respects_outside (hm : Balanced (brackets m)) : Respects (outside a m r) := by
  refine respects_markAll _ ?_ _
  have hFront : Respects (markAll true a) := by
    simpa using respects_markAll [] .nil a
  exact hFront.drop hm

/-- The fragment stands where the instructions before it put it. -/
theorem take_outside_rest (a m r : List Instruction) (k : Nat) :
    (outside a m r).take (a.length + m.length + k) = outside a m (r.take k) := by
  rw [outside, take_around_rest, outside, restBehind, restBehind, List.map_take]

theorem keepsInputs_outside (h : Scoped (a ++ r)) : KeepsInputs (outside a m r) := by
  intro n i hn v hv
  rcases getElem?_around hn with ⟨-, hi⟩ | ⟨hFalse, -⟩ | ⟨-, k, rfl, hk⟩
  · have hLt := (List.getElem?_eq_some_iff.mp hi).1
    have hScoped := h n i (by rw [List.getElem?_append_left hLt, hi]) v hv
    rw [List.take_append_of_le_length (Nat.le_of_lt hLt)] at hScoped
    rw [outside, take_around_front (Nat.le_of_lt hLt)]
    exact keptVar_markAll _ hScoped
  · cases hFalse
  · obtain ⟨j, hj, rfl⟩ := Option.map_eq_some_iff.mp (List.getElem?_map .. ▸ hk)
    obtain ⟨u, hu, rfl⟩ := List.mem_map.mp hv
    have hScoped := h (a.length + k) j (by
      rw [List.getElem?_append_right (Nat.le_add_right ..), Nat.add_sub_cancel_left, hj]) u hu
    rw [List.take_length_add_append] at hScoped
    rw [take_outside_rest]
    exact keptVar_outside hScoped

/-- **Every variable names what it named**: the output of the same instruction. -/
theorem definition_inserted (h : Scoped (a ++ r)) {v : Nat} {d : Definition}
    (hd : (definitions (a ++ r))[v]? = some d) :
    (definitions (inserted a m r))[
        moveUp (definitions a).length (total Operation.numDefined m) v]? =
      some { d with instruction := moveUp a.length m.length d.instruction } := by
  have hv := (List.getElem?_eq_some_iff.mp hd).1
  rw [← keptOf_outside (m := m) h] at hd
  obtain ⟨u, d', hu, hVar, hd', rfl⟩ := exists_of_definition_keptOf hd
  -- the variable is the one that was moved up
  obtain rfl : u = moveUp (definitions a).length (total Operation.numDefined m) v :=
    (renumber_inj hu (keptVar_outside hv)).mp (hVar.trans (varAt_outside (Nat.le_of_lt hv)).symm)
  obtain ⟨k, hk, hAt⟩ := keptAt_outside_iff.mp ((definition_keptOf hd').1.mp hu)
  rw [wholeOf_outside] at hd'
  rw [hd', Definition.renumber, hAt, positionAt_outside (Nat.le_of_lt hk), ← hAt]

/-- **Every instruction stays**, in order, its inputs renamed. -/
theorem getElem?_inserted (h : Scoped (a ++ r)) {k : Nat} {i : Instruction}
    (hk : (a ++ r)[k]? = some i) :
    (inserted a m r)[moveUp a.length m.length k]? =
      some (i.moveUp (definitions a).length (total Operation.numDefined m)) := by
  rcases Nat.lt_or_ge k a.length with hLt | hGe
  · -- in front of the fragment no input moves
    have hSame : i.inputs.map (moveUp (definitions a).length (total Operation.numDefined m)) =
        i.inputs := map_eq_self fun v hv => by
      have hScoped := h k i hk v hv
      rw [List.take_append_of_le_length (Nat.le_of_lt hLt)] at hScoped
      refine moveUp_of_lt (Nat.lt_of_lt_of_le hScoped ?_)
      conv_rhs => rw [← List.take_append_drop k a]
      rw [length_definitions_append]
      exact Nat.le_add_right ..
    rw [List.getElem?_append_left hLt] at hk
    rw [moveUp_of_lt hLt, inserted, List.append_assoc, List.getElem?_append_left hLt, hk,
      Instruction.moveUp, hSame]
  · rw [List.getElem?_append_right hGe] at hk
    have hBehind : (a ++ m).length ≤ k + m.length := by
      rw [List.length_append]
      omega
    rw [moveUp_of_le hGe, inserted, List.getElem?_append_right hBehind, List.length_append,
      Nat.add_sub_add_right, restBehind, List.getElem?_map, hk]
    rfl

/-- **A program stays well typed** around a fragment that may follow its front. -/
theorem wellTyped_inserted (hm : Balanced (brackets m)) (h : WellTyped ctx (a ++ r))
    (hFragment : WellTypedPrefix ctx (a ++ m)) : WellTyped ctx (inserted a m r) := by
  have hScoped := h.instructions.scoped
  rw [← wholeOf_outside]
  refine wellTyped_wholeOf (respects_outside hm) (keepsInputs_outside hScoped)
    (by rwa [keptOf_outside hScoped]) fun n i hn => ?_
  rcases getElem?_around hn with ⟨hTrue, -⟩ | ⟨-, k, rfl, hk⟩ | ⟨hTrue, -⟩
  · cases hTrue
  · have hLt := (List.getElem?_eq_some_iff.mp hk).1
    have hAfter := hFragment (a.length + k) i (by
      rw [List.getElem?_append_right (Nat.le_add_right ..), Nat.add_sub_cancel_left, hk])
    rw [wholeOf_outside, inserted, List.take_append_of_le_length (by simp; omega)]
    exact hAfter
  · cases hTrue

/-! ## A fragment of its own -/

/-- The instructions read no variable below `n`, and load no connection. -/
def Detached (n : Nat) (m : List Instruction) : Prop :=
  ∀ i ∈ m, (∀ v ∈ i.inputs, n ≤ v) ∧ ∀ c, i.operation ≠ .loadConnection c

theorem separated_outside (hm : Balanced (brackets m)) (h : Scoped (a ++ r))
    (hDetached : Detached (definitions a).length m) : Separated (outside a m r) := by
  refine ⟨respects_outside hm, keepsInputs_outside h, fun n i hn v hv => ?_,
    fun n n' c i i' hn hn' hLoad hLoad' => ?_⟩
  · rcases getElem?_around hn with ⟨hTrue, -⟩ | ⟨-, k, rfl, hk⟩ | ⟨hTrue, -⟩
    · cases hTrue
    · -- what it reads is behind the variables of `a`
      have hLt := (List.getElem?_eq_some_iff.mp hk).1
      rw [outside, take_around_middle (Nat.le_of_lt hLt)]
      intro hKept
      have hFront := (Kept.front hKept).1
      have hOwn := (hDetached i (List.mem_of_getElem? hk)).1 v hv
      rw [← length_definitions] at hFront
      omega
    · cases hTrue
  · rcases getElem?_around hn' with ⟨hTrue, -⟩ | ⟨-, k, rfl, hk⟩ | ⟨hTrue, -⟩
    · cases hTrue
    · exact (hDetached i' (List.mem_of_getElem? hk)).2 c hLoad'
    · cases hTrue

/-! Where the numbers of a program go. -/

def varUp (a m : List Instruction) : Nat → Nat :=
  moveUp (definitions a).length (total Operation.numDefined m)

def positionUp (a m : List Instruction) : Nat → Nat := moveUp a.length m.length

def actionUp (a m : List Instruction) : Nat → Nat := moveUp (actionCount a) (actionCount m)

def sessionUp (a m : List Instruction) : Nat → Nat := moveUp (sends a) (sends m)

def connectionUp (ctx : ProgramContext) (a m : List Instruction) : Nat → Nat :=
  moveUp (ctx.numConnections + connects a) (connects m)

/-- An action with its connections, its session and its block's end renamed. -/
def Action.rename (connection session action : Nat → Nat) : Action → Action
  | .connect c role => .connect (connection c) role
  | .send c extensionType messageType channelMsg payload =>
    .send (connection c) extensionType messageType channelMsg payload
  | .awaitSetupResponse c k protocol first =>
    .awaitSetupResponse (connection c) (session k) protocol first
  | .enterOnSetupSuccess k exit => .enterOnSetupSuccess (session k) (action exit)
  | .exitBlock => .exitBlock
  | .advanceTime duration => .advanceTime duration
  | .probe => .probe

theorem varUp_varAt {v : Nat} (h : KeptVar (outside a m r) v) :
    varUp a m (varAt (outside a m r) v) = v := by
  obtain ⟨u, hu, rfl⟩ := (kept_outside_iff Operation.numDefined).mp h
  rw [varUp, length_definitions_total]
  exact congrArg _ (totalAt_outside Operation.numDefined (Nat.le_of_lt hu))

theorem positionUp_positionAt {n : Nat} (h : KeptAt (outside a m r) n) :
    positionUp a m (positionAt (outside a m r) n) = n := by
  obtain ⟨k, hk, rfl⟩ := keptAt_outside_iff.mp h
  rw [positionUp, positionAt_outside (Nat.le_of_lt hk)]

theorem actionUp_actionAt {k : Nat} (h : KeptAction (outside a m r) k) :
    actionUp a m (actionAt (outside a m r) k) = k := by
  obtain ⟨u, hu, rfl⟩ := (kept_outside_iff Operation.numActions).mp h
  exact congrArg _ (totalAt_outside Operation.numActions (Nat.le_of_lt hu))

theorem sessionUp_sessionAt {k : Nat} (h : KeptSession (outside a m r) k) :
    sessionUp a m (sessionAt (outside a m r) k) = k := by
  obtain ⟨u, hu, rfl⟩ := (kept_outside_iff fun op => if op.isSendSetup then 1 else 0).mp h
  exact congrArg _
    (totalAt_outside (fun op => if op.isSendSetup then 1 else 0) (Nat.le_of_lt hu))

theorem connectionUp_connectionAt {c : Nat} (h : KeptConnection ctx (outside a m r) c) :
    connectionUp ctx a m (connectionAt ctx (outside a m r) c) = c := by
  rcases h with hLt | ⟨hGe, hUnit⟩
  · rw [connectionAt_of_lt _ hLt, connectionUp, moveUp_of_lt (by omega)]
  · obtain ⟨k, rfl⟩ := Nat.exists_eq_add_of_le hGe
    rw [Nat.add_sub_cancel_left] at hUnit
    obtain ⟨u, hu, rfl⟩ := (kept_outside_iff fun op => if op = .connect then 1 else 0).mp hUnit
    rw [connectionAt_add, totalAt_outside (fun op => if op = .connect then 1 else 0)
      (Nat.le_of_lt hu), connectionUp, moveUp_add]
    rfl

/-- The actions of what is kept are those of the whole, renamed back. -/
theorem action_outside {action : Action} (h : action.KeptIds ctx (outside a m r)) :
    (action.renumber ctx (outside a m r)).rename (connectionUp ctx a m) (sessionUp a m)
      (actionUp a m) = action := by
  cases action with
  | connect c role =>
    rw [Action.renumber, Action.rename, connectionUp_connectionAt (Provides.kept h)]
  | send c extensionType messageType channelMsg payload =>
    rw [Action.renumber, Action.rename, connectionUp_connectionAt (Provides.kept h)]
  | awaitSetupResponse c k protocol first =>
    rw [Action.renumber, Action.rename, connectionUp_connectionAt h.1.kept,
      sessionUp_sessionAt h.2]
  | enterOnSetupSuccess k exit =>
    rw [Action.renumber, Action.rename, sessionUp_sessionAt h.1, actionUp_actionAt h.2]
  | exitBlock => rfl
  | advanceTime duration => rfl
  | probe => rfl

/-- Where the entries kept are those at the renamed keys, they are found there. -/
theorem KeptEntries.lookup_renamed {β : Type} {keptKey : Nat → Prop} {key : Nat → Nat}
    {keptVal : β → Prop} {val : β → β} {m m' : HashMap β}
    (h : KeptEntries keptKey key keptVal val m m') {raise : Nat → Nat} {raiseVal : β → β}
    (hKey : ∀ k, keptKey k → raise (key k) = k) (hVal : ∀ v, keptVal v → raiseVal (val v) = v)
    {k' : Nat} (hKept : ∀ v, m.lookup (raise k') = some v →
      keptKey (raise k') ∧ key (raise k') = k') :
    m.lookup (raise k') = (m'.lookup k').map raiseVal := by
  refine Option.ext fun v => ?_
  rw [Option.map_eq_some_iff]
  constructor
  · intro hLookup
    obtain ⟨hk, hEq⟩ := hKept v hLookup
    exact ⟨val v, (h.entries _ _).mpr ⟨_, v, hk, hLookup, hEq, rfl⟩, hVal v (h.values _ v hk hLookup)⟩
  · rintro ⟨v', hLookup', rfl⟩
    obtain ⟨k, v₀, hk, hLookup, rfl, rfl⟩ := (h.entries _ _).mp hLookup'
    rw [hKey k hk, hVal v₀ (h.values k v₀ hk hLookup)]
    exact hLookup

/-- What becomes of a compiled program when a fragment of its own is put into
it: the actions of its instructions, and what is noted of them, are the same up
to the numbers of connections, sessions and actions. -/
structure CompiledInserted (ctx : ProgramContext) (a m : List Instruction)
    (before after : CompiledProgram) : Prop where
  context : after.context = before.context
  length : after.actions.length = before.actions.length + actionCount m
  actions : ∀ k, after.actions[actionUp a m k]? = before.actions[k]?.map
    (Action.rename (connectionUp ctx a m) (sessionUp a m) (actionUp a m))
  actionInstructions : ∀ k, after.metadata.actionInstructions[actionUp a m k]? =
    before.metadata.actionInstructions[k]?.map (positionUp a m)
  fragment : ∀ k < actionCount m, ∃ n < m.length,
    after.metadata.actionInstructions[actionCount a + k]? = some (a.length + n)
  connectionVariables : ∀ c, after.metadata.connectionVariables.lookup (connectionUp ctx a m c) =
    (before.metadata.connectionVariables.lookup c).map (varUp a m)
  sessionVariables : ∀ k, after.metadata.sessionVariables.lookup (sessionUp a m k) =
    (before.metadata.sessionVariables.lookup k).map (varUp a m)
  sessionSetups : ∀ k, after.metadata.sessionSetups.lookup (sessionUp a m k) =
    before.metadata.sessionSetups.lookup k
  violations : ∀ k, after.metadata.violations.lookup (actionUp a m k) =
    before.metadata.violations.lookup k

/-- A key of the whole that has moved up is one that is kept. -/
theorem kept_of_moveUp (weight : Operation → Nat) {k : Nat}
    (hk : moveUp (total weight a) (total weight m) k < total weight (inserted a m r)) :
    k < total weight a + total weight r := by
  rw [inserted, total_append, total_append, total_restBehind] at hk
  unfold moveUp at hk
  split at hk <;> omega

theorem select_outside {β : Type} {xs : List β} (hxs : xs.length = actionCount (inserted a m r)) :
    select (actionMarks (outside a m r)) xs =
      xs.take (actionCount a) ++ xs.drop (actionCount a + actionCount m) := by
  refine select_around ?_
  rw [hxs, inserted, actionCount, total_append, total_append]
  rfl

/-- An action of the whole comes from an instruction of the fragment, or from one around it. -/
theorem comesFrom_outside {x : Nat} (hx : x < actionCount (inserted a m r)) :
    ∃ n, (actionInstructionsOf (inserted a m r))[x]? = some n ∧
      (KeptAt (outside a m r) n ↔ KeptAction (outside a m r) x) ∧
      (¬ KeptAt (outside a m r) n → ∃ k < m.length, n = a.length + k) := by
  obtain ⟨n, k, i, hFrom⟩ := exists_comesFrom hx
  rw [← wholeOf_outside] at hFrom
  obtain ⟨b, hn⟩ := exists_mark hFrom.at_index
  -- an instruction is kept with all of its actions
  have hKeptAt : KeptAt (outside a m r) n ↔ b = true := by
    rw [keptAt_iff]
    constructor
    · rintro ⟨j, hj⟩
      exact congrArg Prod.snd (Option.some.inj (hn.symm.trans hj))
    · rintro rfl
      exact ⟨i, hn⟩
  have hKeptAction : KeptAction (outside a m r) x ↔ b = true := by
    rw [hFrom.index]
    exact keptAction_iff hn hFrom.lt
  have hInstruction := hFrom.instruction
  rw [wholeOf_outside] at hInstruction
  refine ⟨n, hInstruction, hKeptAt.trans hKeptAction.symm, fun hNot => ?_⟩
  rcases getElem?_around hn with ⟨hTrue, -⟩ | ⟨-, k', rfl, hk'⟩ | ⟨hTrue, -⟩
  · exact absurd (hKeptAt.mpr hTrue) hNot
  · exact ⟨k', (List.getElem?_eq_some_iff.mp hk').1, rfl⟩
  · exact absurd (hKeptAt.mpr hTrue) hNot

/-- **A fragment of its own does not change what the program around it does.** -/
theorem compiled_inserted (hS : S.Lawful) (hm : Balanced (brackets m)) (h : WellTyped ctx (a ++ r))
    (hTyped : WellTyped ctx (inserted a m r)) (hDetached : Detached (definitions a).length m)
    {before after : CompiledProgram} (hBefore : Compiler.compile S ⟨ctx, a ++ r⟩ = .ok before)
    (hAfter : Compiler.compile S ⟨ctx, inserted a m r⟩ = .ok after) :
    CompiledInserted ctx a m before after := by
  have hScoped := h.instructions.scoped
  obtain ⟨before', hBefore', hKept⟩ := compiled_keptOf hS (by rwa [wholeOf_outside])
    (separated_outside hm hScoped hDetached) (by rwa [wholeOf_outside])
  rw [keptOf_outside hScoped] at hBefore'
  obtain rfl := Except.ok.inj (hBefore'.symm.trans hBefore)
  obtain ⟨hActions, hm'⟩ := compiled_of_typed hS hTyped hAfter
  obtain ⟨hActions₀, -⟩ := compiled_of_typed hS h hBefore
  have hLength : after.actions.length = actionCount (inserted a m r) :=
    hActions ▸ length_actionsOf S ctx _
  have hCount : actionCount (inserted a m r) = actionCount a + actionCount m + actionCount r := by
    rw [actionCount, inserted, total_append, total_append, total_restBehind]
  have hLength₀ : before'.actions.length = actionCount a + actionCount r := by
    rw [hActions₀, length_actionsOf, actionCount, total_append]
  have hInstructions : after.metadata.actionInstructions.length = actionCount (inserted a m r) := by
    rw [hm'.actionInstructions, length_actionInstructionsOf]
  -- the keys that have moved up are the kept ones
  have hSession : ∀ {k : Nat}, sessionUp a m k < sends (inserted a m r) →
      KeptSession (outside a m r) (sessionUp a m k) ∧
        sessionAt (outside a m r) (sessionUp a m k) = k := by
    intro k hk
    have hLt := kept_of_moveUp (fun op => if op.isSendSetup then 1 else 0) hk
    exact ⟨(kept_outside_iff fun op => if op.isSendSetup then 1 else 0).mpr ⟨k, hLt, rfl⟩,
      totalAt_outside (fun op => if op.isSendSetup then 1 else 0) (Nat.le_of_lt hLt)⟩
  refine ⟨hKept.context.symm, ?_, fun k => ?_, fun k => ?_, fun k hk => ?_, fun c => ?_,
    fun k => ?_, fun k => ?_, fun k => ?_⟩
  · omega
  · have hSelect := hKept.actions
    have hIds := hKept.ids
    rw [select_outside hLength] at hSelect hIds
    have hAt : (after.actions.take (actionCount a) ++
        after.actions.drop (actionCount a + actionCount m))[k]? =
          after.actions[moveUp (actionCount a) (actionCount m) k]? :=
      getElem?_moveUp (by omega) _ k
    rw [hSelect, List.getElem?_map, Option.map_map, hAt]
    -- every action that has moved up is one that is kept
    cases hAction : after.actions[moveUp (actionCount a) (actionCount m) k]? with
    | none => exact hAction
    | some action =>
      rw [hAction] at hAt
      have hSame := action_outside (hIds action (List.mem_of_getElem? hAt))
      rw [Option.map_some, Function.comp_apply, hSame]
      exact hAction
  · have hSelect := hKept.actionInstructions
    rw [select_outside hInstructions] at hSelect
    have hAt : (after.metadata.actionInstructions.take (actionCount a) ++
        after.metadata.actionInstructions.drop (actionCount a + actionCount m))[k]? =
          after.metadata.actionInstructions[moveUp (actionCount a) (actionCount m) k]? :=
      getElem?_moveUp (by omega) _ k
    rw [hSelect, List.getElem?_map, Option.map_map, hAt]
    show _ = Option.map _ after.metadata.actionInstructions[actionUp a m k]?
    rcases Nat.lt_or_ge (actionUp a m k) (actionCount (inserted a m r)) with hLt | hGe
    · obtain ⟨n, hn, hIff, -⟩ := comesFrom_outside hLt
      have hAction : KeptAction (outside a m r) (actionUp a m k) :=
        (kept_outside_iff Operation.numActions).mpr ⟨k, kept_of_moveUp Operation.numActions hLt, rfl⟩
      rw [hm'.actionInstructions, hn, Option.map_some, Function.comp_apply,
        positionUp_positionAt (hIff.mpr hAction)]
    · rw [List.getElem?_eq_none (by omega)]
      rfl
  · obtain ⟨n, hn, hIff, hFragment⟩ := comesFrom_outside (a := a) (m := m) (r := r)
      (x := actionCount a + k) (by omega)
    have hNot : ¬ KeptAction (outside a m r) (actionCount a + k) := by
      intro hAction
      obtain ⟨u, -, hu⟩ := (kept_outside_iff Operation.numActions).mp hAction
      unfold moveUp at hu
      simp only [actionCount] at *
      split at hu <;> omega
    obtain ⟨k', hk', rfl⟩ := hFragment (mt hIff.mp hNot)
    exact ⟨k', hk', by rw [hm'.actionInstructions, hn]⟩
  · refine hKept.connectionVariables.lookup_renamed (fun c hc => connectionUp_connectionAt hc)
      (fun v hv => varUp_varAt hv) fun v hLookup => ?_
    obtain ⟨hGe, hLt⟩ := hm'.connection_lt hLookup
    -- a connection the program opens, or one of the context, which has not moved
    have hOpened : ctx.numConnections ≤ c := by
      by_contra hContext
      rw [connectionUp, moveUp_of_lt (by omega)] at hGe
      exact hContext hGe
    obtain ⟨u, rfl⟩ := Nat.exists_eq_add_of_le hOpened
    rw [connectionUp, moveUp_add] at hGe hLt ⊢
    rw [Nat.add_sub_cancel_left] at hLt
    have hu := kept_of_moveUp (fun op => if op = .connect then 1 else 0) hLt
    refine ⟨Or.inr ⟨hGe, ?_⟩, ?_⟩
    · rw [Nat.add_sub_cancel_left]
      exact (kept_outside_iff fun op => if op = .connect then 1 else 0).mpr ⟨u, hu, rfl⟩
    · rw [connectionAt_add]
      exact congrArg _
        (totalAt_outside (fun op => if op = .connect then 1 else 0) (Nat.le_of_lt hu))
  · exact hKept.sessionVariables.lookup_renamed (fun k hk => sessionUp_sessionAt hk)
      (fun v hv => varUp_varAt hv) fun v hLookup => hSession (session_lt hm'.sessionVariables hLookup)
  · have hLookup : after.metadata.sessionSetups.lookup (sessionUp a m k) =
        (before'.metadata.sessionSetups.lookup k).map id :=
      hKept.sessionSetups.lookup_renamed (fun k hk => sessionUp_sessionAt hk) (fun _ _ => rfl)
      fun v hLookup => hSession (session_lt hm'.sessionSetups hLookup)
    rwa [Option.map_id_fun] at hLookup
  · have hLookup : after.metadata.violations.lookup (actionUp a m k) =
        (before'.metadata.violations.lookup k).map id :=
      hKept.violations.lookup_renamed (fun k hk => actionUp_actionAt hk) (fun _ _ => rfl)
      fun v hLookup => by
        have hLt := kept_of_moveUp Operation.numActions (hm'.violation_lt hLookup)
        exact ⟨(kept_outside_iff Operation.numActions).mpr ⟨k, hLt, rfl⟩,
          totalAt_outside Operation.numActions (Nat.le_of_lt hLt)⟩
    rwa [Option.map_id_fun] at hLookup

/-- **A program compiles with a fragment** that compiles behind its front. -/
theorem compile_inserted (hS : S.Lawful) (hm : Balanced (brackets m)) (h : WellTyped ctx (a ++ r))
    (hTyped : WellTyped ctx (inserted a m r)) (hDetached : Detached (definitions a).length m)
    (hProgram : NoneTooLong ctx (a ++ r)) (hFragment : NoneTooLong ctx (a ++ m)) :
    ∃ after, Compiler.compile S ⟨ctx, inserted a m r⟩ = .ok after := by
  have hScoped := h.instructions.scoped
  have hOutside := noneTooLong_keptOf_iff (by rw [wholeOf_outside]; exact hTyped.instructions)
    (separated_outside hm hScoped hDetached)
  rw [keptOf_outside hScoped, wholeOf_outside] at hOutside
  refine (compile_ok_iff hS hTyped).mpr fun n i v hi => ?_
  rw [← wholeOf_outside] at hi
  obtain ⟨b, hn⟩ := exists_mark hi
  -- what is around compiles without the fragment, and the fragment without what is behind
  rcases getElem?_around hn with ⟨rfl, -⟩ | ⟨-, k, rfl, hk⟩ | ⟨rfl, -⟩
  · exact hOutside.mp hProgram n i v hn
  · have hLt := (List.getElem?_eq_some_iff.mp hk).1
    have hBefore := hFragment (a.length + k) i v (by
      rw [List.getElem?_append_right (Nat.le_add_right ..), Nat.add_sub_cancel_left, hk])
    rwa [inserted, List.take_append_of_le_length (by simp; omega)]
  · exact hOutside.mp hProgram n i v hn

end Stratamoto
