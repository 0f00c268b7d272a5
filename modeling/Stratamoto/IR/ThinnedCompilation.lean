import Stratamoto.IR.ThinnedActions

/-!
# Stratamoto — compiling a program and what is kept of it

The compiled programs of a program and of what is kept of it, where kept and
dropped instructions have nothing to do with one another: the actions of the
kept instructions are selected and renumbered, and so is what the metadata
says of them (`CompiledKept`, `compiled_keptOf`).
-/

namespace Stratamoto

open Brackets Operation Marks

variable {S : Sv2} {ctx : ProgramContext} {ms : Marking} {n v : Nat}

/-! ## Lists laid out by instructions -/

/-- Which actions are those of kept instructions. -/
def actionMarks (ms : Marking) : List Bool := units (fun i => i.operation.numActions) ms

theorem flatMap_wholeOf {β : Type} (ms : Marking) (f : Instruction × Nat → List β) :
    (wholeOf ms).zipIdx.flatMap f = ms.zipIdx.flatMap fun p => f (p.1.1, p.2) := by
  rw [wholeOf, List.zipIdx_map, List.flatMap_map]
  rfl

/-- What is laid out by the kept program comes from the kept entries. -/
theorem flatMap_keptOf {β : Type} (ms : Marking) (f : Instruction × Nat → List β) :
    (keptOf ms).zipIdx.flatMap f = ms.zipIdx.flatMap fun p =>
      if p.1.2 then f (p.1.1.renumber (ms.take p.2), positionAt ms p.2) else [] := by
  induction ms using List.reverseRecOn with
  | nil => rfl
  | append_singleton ms p ih =>
    obtain ⟨i, b⟩ := p
    -- the new instruction does not change what stands before it
    have hOld : (ms.zipIdx.flatMap fun p =>
          if p.1.2 then f (p.1.1.renumber ((ms ++ [(i, b)]).take p.2),
            positionAt (ms ++ [(i, b)]) p.2) else []) =
        ms.zipIdx.flatMap fun p =>
          if p.1.2 then f (p.1.1.renumber (ms.take p.2), positionAt ms p.2) else [] := by
      refine List.flatMap_congr fun p hp => ?_
      have hLt : p.2 < ms.length :=
        (List.getElem?_eq_some_iff.mp (List.mem_zipIdx_iff_getElem?.mp hp)).1
      rw [List.take_append_of_le_length (Nat.le_of_lt hLt), positionAt_append _ (Nat.le_of_lt hLt)]
    rw [List.zipIdx_append, List.flatMap_append, hOld, ← ih]
    cases b with
    | false => simp [keptOf_snoc_dropped]
    | true =>
      rw [keptOf_snoc, List.zipIdx_append, List.flatMap_append]
      simp [positionAt_append _ (Nat.le_refl _), positionAt_length]

/-! ## Actions -/

/-- **The actions of what is kept** are those of the kept instructions in the
whole program, renumbered; and they name nothing that is dropped. -/
theorem actionsOf_keptOf (hTyped : WellTyped ctx (wholeOf ms)) (h : Separated ms) :
    actionsOf S ctx (keptOf ms) =
        (select (actionMarks ms) (actionsOf S ctx (wholeOf ms))).map (Action.renumber ctx ms) ∧
      ∀ a ∈ select (actionMarks ms) (actionsOf S ctx (wholeOf ms)), a.KeptIds ctx ms := by
  have hLower : ∀ {n : Nat} {i : Instruction}, ms[n]? = some (i, true) →
      lower S ctx ((keptOf ms).take (positionAt ms n)) (exitOf (keptOf ms) (positionAt ms n))
          (i.renumber (ms.take n)) =
        (lower S ctx ((wholeOf ms).take n) (exitOf (wholeOf ms) n) i).map
          (Action.renumber ctx ms) ∧
      ∀ a ∈ lower S ctx ((wholeOf ms).take n) (exitOf (wholeOf ms) n) i, a.KeptIds ctx ms := by
    intro n i hn
    rw [(getElem?_keptOf hn).2]
    exact lower_keptOf hTyped.instructions h hn
      fun hBegin => exitOf_keptOf h.respects hTyped.balanced hn hBegin
  -- the marks of the actions select those of the kept instructions
  have hSelect : select (actionMarks ms) (actionsOf S ctx (wholeOf ms)) =
      ms.zipIdx.flatMap fun p => if p.1.2 then
        lower S ctx ((wholeOf ms).take p.2) (exitOf (wholeOf ms) p.2) p.1.1 else [] := by
    rw [actionsOf, flatMap_wholeOf, actionMarks, select_flatMap fun p _ => length_lower S ctx _ _ _]
  rw [hSelect]
  refine ⟨?_, fun a ha => ?_⟩
  · rw [actionsOf, flatMap_keptOf, List.map_flatMap]
    refine List.flatMap_congr fun p hp => ?_
    obtain ⟨⟨i, b⟩, n⟩ := p
    have hn : ms[n]? = some (i, b) := List.mem_zipIdx_iff_getElem?.mp hp
    cases b with
    | false => rfl
    | true => exact (hLower hn).1
  · obtain ⟨⟨⟨i, b⟩, n⟩, hp, hMem⟩ := List.mem_flatMap.mp ha
    have hn : ms[n]? = some (i, b) := List.mem_zipIdx_iff_getElem?.mp hp
    cases b with
    | false => cases hMem
    | true => exact (hLower hn).2 a hMem

theorem actionInstructionsOf_keptOf (ms : Marking) :
    actionInstructionsOf (keptOf ms) =
      (select (actionMarks ms) (actionInstructionsOf (wholeOf ms))).map (positionAt ms) := by
  rw [actionInstructionsOf, actionInstructionsOf, flatMap_keptOf, flatMap_wholeOf, actionMarks,
    select_flatMap fun p _ => List.length_replicate, List.map_flatMap]
  refine List.flatMap_congr fun p _ => ?_
  obtain ⟨⟨i, b⟩, n⟩ := p
  cases b with
  | false => rfl
  | true => simp

/-! ## Setups that cannot be encoded -/

theorem sendsTooLong_keptOf (hTyped : WellTypedPrefix ctx (wholeOf ms)) (h : Separated ms)
    {i : Instruction} (hn : ms[n]? = some (i, true)) {u : Nat} :
    (i.renumber (ms.take n)).SendsTooLong ctx (keptOf (ms.take n)) u ↔
      ∃ v, i.SendsTooLong ctx ((wholeOf ms).take n) v ∧ varAt ms v = u := by
  have hLe := Nat.le_of_lt (List.getElem?_eq_some_iff.mp hn).1
  have hInput : (i.renumber (ms.take n)).inputs[1]? = i.inputs[1]?.map (varAt (ms.take n)) :=
    List.getElem?_map
  -- the setup that is sent is a kept one
  have hSame : ∀ {v : Nat}, i.inputs[1]? = some v → varAt (ms.take n) v = varAt ms v ∧
      setupSpec ctx (keptOf (ms.take n)) (varAt ms v) = setupSpec ctx ((wholeOf ms).take n) v := by
    intro v hv
    have hKept := h.keeps n i hn v (List.mem_of_getElem? hv)
    exact ⟨varAt_take (Nat.le_of_lt hKept.lt), setupSpec_keptOf hTyped h hKept hLe⟩
  constructor
  · rintro ⟨hSend, hu, hLong⟩
    rw [hInput, Option.map_eq_some_iff] at hu
    obtain ⟨v, hv, rfl⟩ := hu
    obtain ⟨hVar, hSpec⟩ := hSame hv
    rw [hVar, hSpec] at hLong
    exact ⟨v, ⟨hSend, hv, hLong⟩, hVar.symm⟩
  · rintro ⟨v, ⟨hSend, hv, hLong⟩, rfl⟩
    obtain ⟨hVar, hSpec⟩ := hSame hv
    exact ⟨hSend, by rw [hInput, hv, Option.map_some, hVar], by rwa [hSpec]⟩

/-- **What is kept can be encoded** where the kept instructions of the whole can. -/
theorem noneTooLong_keptOf_iff (hTyped : WellTypedPrefix ctx (wholeOf ms)) (h : Separated ms) :
    NoneTooLong ctx (keptOf ms) ↔ ∀ (n : Nat) (i : Instruction) (v : Nat),
      ms[n]? = some (i, true) → ¬ i.SendsTooLong ctx ((wholeOf ms).take n) v := by
  constructor
  · intro hNone n i v hn hLong
    obtain ⟨hAt, hBefore⟩ := getElem?_keptOf hn
    refine hNone _ _ (varAt ms v) hAt ?_
    rw [hBefore]
    exact (sendsTooLong_keptOf hTyped h hn).mpr ⟨v, hLong, rfl⟩
  · intro hNone m i' u hm hLong
    obtain ⟨n, i, hn, rfl, rfl⟩ := exists_of_getElem?_keptOf hm
    rw [(getElem?_keptOf hn).2] at hLong
    obtain ⟨v, hOld, -⟩ := (sendsTooLong_keptOf hTyped h hn).mp hLong
    exact hNone n i v hn hOld

/-- Where nothing that is dropped sends a setup, the first that cannot be encoded
is the same. -/
theorem firstTooLong_keptOf (hTyped : WellTypedPrefix ctx (wholeOf ms)) (h : Separated ms)
    (hDropped : ∀ (n : Nat) (i : Instruction), ms[n]? = some (i, false) →
      i.operation.isSendSetup = false)
    (hFirst : FirstTooLong ctx (wholeOf ms) v) : FirstTooLong ctx (keptOf ms) (varAt ms v) := by
  obtain ⟨n, i, hi, hLong, hBefore⟩ := hFirst
  obtain ⟨b, hn⟩ := exists_mark hi
  -- a setup that is dropped is sent by nobody
  cases b with
  | false =>
    have hNot := hDropped n i hn
    rw [hLong.1] at hNot
    cases hNot
  | true =>
    obtain ⟨hAt, hTake⟩ := getElem?_keptOf hn
    refine ⟨_, _, hAt, ?_, fun m j u hLt hm hLong' => ?_⟩
    · rw [hTake]
      exact (sendsTooLong_keptOf hTyped h hn).mpr ⟨v, hLong, rfl⟩
    · obtain ⟨m', j', hm', rfl, rfl⟩ := exists_of_getElem?_keptOf hm
      rw [(getElem?_keptOf hm').2] at hLong'
      obtain ⟨u', hOld, -⟩ := (sendsTooLong_keptOf hTyped h hm').mp hLong'
      -- positions keep their order
      have hEarlier : m' < n := by
        by_contra hGe
        have : positionAt ms n ≤ positionAt ms m' := renumber_mono (Nat.le_of_not_lt hGe)
        omega
      exact hBefore m' j' u' hEarlier (getElem?_wholeOf hm') hOld

/-! ## Metadata -/

/-- One map has the entries of another that are kept, renumbered. -/
structure KeptEntries {β : Type} (keptKey : Nat → Prop) (key : Nat → Nat) (keptVal : β → Prop)
    (val : β → β) (m m' : HashMap β) : Prop where
  entries : ∀ k' v', m'.lookup k' = some v' ↔
    ∃ k v, keptKey k ∧ m.lookup k = some v ∧ key k = k' ∧ val v = v'
  values : ∀ k v, keptKey k → m.lookup k = some v → keptVal v

/-- Entries made by instructions are kept with them. -/
theorem keptEntries_of_madeBy {β : Type} {m m' : HashMap β}
    {entry : List Instruction → Instruction → Option (Nat × β)} (hm : MadeBy (wholeOf ms) entry m)
    (hm' : MadeBy (keptOf ms) entry m') {keptKey : Nat → Prop} {key : Nat → Nat}
    {keptVal : β → Prop} {val : β → β}
    (hKey : ∀ (n : Nat) (i : Instruction) (b : Bool) (k : Nat) (v : β), ms[n]? = some (i, b) →
      entry ((wholeOf ms).take n) i = some (k, v) → (keptKey k ↔ b = true))
    (hVal : ∀ (n : Nat) (i : Instruction) (k : Nat) (v : β), ms[n]? = some (i, true) →
      entry ((wholeOf ms).take n) i = some (k, v) → keptVal v)
    (hEntry : ∀ (n : Nat) (i : Instruction), ms[n]? = some (i, true) →
      entry (keptOf (ms.take n)) (i.renumber (ms.take n)) =
        (entry ((wholeOf ms).take n) i).map fun p => (key p.1, val p.2)) :
    KeptEntries keptKey key keptVal val m m' := by
  -- an entry under a kept key was made by a kept instruction
  have hMade : ∀ {k v}, keptKey k → m.lookup k = some v → ∃ (n : Nat) (i : Instruction),
      ms[n]? = some (i, true) ∧ entry ((wholeOf ms).take n) i = some (k, v) := by
    intro k v hKept hLookup
    obtain ⟨n, i, hi, hOld⟩ := (hm k v).mp hLookup
    obtain ⟨b, hn⟩ := exists_mark hi
    obtain rfl := (hKey n i b k v hn hOld).mp hKept
    exact ⟨n, i, hn, hOld⟩
  refine ⟨fun k' v' => ?_, fun k v hKept hLookup => ?_⟩
  · rw [hm' k' v']
    constructor
    · rintro ⟨u, i', hu, hNew⟩
      obtain ⟨n, i, hn, rfl, rfl⟩ := exists_of_getElem?_keptOf hu
      rw [(getElem?_keptOf hn).2, hEntry n i hn, Option.map_eq_some_iff] at hNew
      obtain ⟨⟨k, v⟩, hOld, hEq⟩ := hNew
      obtain ⟨rfl, rfl⟩ := Prod.mk.inj hEq
      exact ⟨k, v, (hKey n i true k v hn hOld).mpr rfl,
        (hm k v).mpr ⟨n, i, getElem?_wholeOf hn, hOld⟩, rfl, rfl⟩
    · rintro ⟨k, v, hKept, hLookup, rfl, rfl⟩
      obtain ⟨n, i, hn, hOld⟩ := hMade hKept hLookup
      obtain ⟨hAt, hBefore⟩ := getElem?_keptOf hn
      refine ⟨_, _, hAt, ?_⟩
      rw [hBefore, hEntry n i hn, hOld]
      rfl
  · obtain ⟨n, i, hn, hOld⟩ := hMade hKept hLookup
    exact hVal n i k v hn hOld

/-- What is compiled from a program, and from what is kept of it. -/
structure CompiledKept (ctx : ProgramContext) (ms : Marking) (whole kept : CompiledProgram) :
    Prop where
  context : kept.context = whole.context
  actions : kept.actions = (select (actionMarks ms) whole.actions).map (Action.renumber ctx ms)
  ids : ∀ a ∈ select (actionMarks ms) whole.actions, a.KeptIds ctx ms
  actionInstructions : kept.metadata.actionInstructions =
    (select (actionMarks ms) whole.metadata.actionInstructions).map (positionAt ms)
  connectionVariables : KeptEntries (KeptConnection ctx ms) (connectionAt ctx ms) (KeptVar ms)
    (varAt ms) whole.metadata.connectionVariables kept.metadata.connectionVariables
  sessionVariables : KeptEntries (KeptSession ms) (sessionAt ms) (KeptVar ms) (varAt ms)
    whole.metadata.sessionVariables kept.metadata.sessionVariables
  sessionSetups : KeptEntries (KeptSession ms) (sessionAt ms) (fun _ => True) id
    whole.metadata.sessionSetups kept.metadata.sessionSetups
  violations : KeptEntries (KeptAction ms) (actionAt ms) (fun _ => True) id
    whole.metadata.violations kept.metadata.violations

/-- The variables there are before a point are renumbered. -/
theorem length_definitions_keptOf_take (ms : Marking) (n : Nat) :
    (definitions (keptOf (ms.take n))).length =
      varAt ms (definitions ((wholeOf ms).take n)).length := by
  have hTotal : ∀ l, (definitions l).length = total Operation.numDefined l := length_definitions
  rw [hTotal, hTotal, total_keptOf_take]
  rfl

/-- The first variable of a kept instruction is kept. -/
theorem keptVar_first {i : Instruction} (hn : ms[n]? = some (i, true))
    (hDefines : 0 < i.operation.numDefined) :
    KeptVar ms (definitions ((wholeOf ms).take n)).length := by
  rw [length_definitions]
  exact (kept_total_iff Operation.numDefined (k := 0) hn hDefines).mpr rfl

theorem keptEntries_connection {connections connections' : HashMap Nat}
    (hc : MadeBy (wholeOf ms) (connectionEntry ctx) connections)
    (hc' : MadeBy (keptOf ms) (connectionEntry ctx) connections') :
    KeptEntries (KeptConnection ctx ms) (connectionAt ctx ms) (KeptVar ms) (varAt ms) connections
      connections' := by
  refine keptEntries_of_madeBy hc hc' (fun n i b k v hn hMade => ?_)
    (fun n i k v hn hMade => ?_) (fun n i hn => ?_)
  · obtain ⟨hOp, rfl, -⟩ := connectionEntry_eq_some.mp hMade
    exact keptConnection_iff hn hOp
  · obtain ⟨hOp, -, rfl⟩ := connectionEntry_eq_some.mp hMade
    exact keptVar_first hn (by rw [hOp]; exact Nat.one_pos)
  · unfold connectionEntry
    rw [renumber_operation]
    split
    · rw [connects_keptOf_take, length_definitions_keptOf_take]
      rfl
    · rfl

/-- What is recorded of a session is kept with its send. -/
theorem keptEntries_session {β : Type} {get : List Instruction → Instruction → β}
    {keptVal : β → Prop} {val : β → β} {sessions sessions' : HashMap β}
    (hs : MadeBy (wholeOf ms) (sessionEntry get) sessions)
    (hs' : MadeBy (keptOf ms) (sessionEntry get) sessions')
    (hGet : ∀ (n : Nat) (i : Instruction), ms[n]? = some (i, true) →
      i.operation.isSendSetup = true → keptVal (get ((wholeOf ms).take n) i) ∧
      get (keptOf (ms.take n)) (i.renumber (ms.take n)) = val (get ((wholeOf ms).take n) i)) :
    KeptEntries (KeptSession ms) (sessionAt ms) keptVal val sessions sessions' := by
  refine keptEntries_of_madeBy hs hs' (fun n i b k v hn hMade => ?_)
    (fun n i k v hn hMade => ?_) (fun n i hn => ?_)
  · obtain ⟨hSend, rfl, -⟩ := sessionEntry_eq_some.mp hMade
    exact keptSession_iff hn hSend
  · obtain ⟨hSend, -, rfl⟩ := sessionEntry_eq_some.mp hMade
    exact (hGet n i hn hSend).1
  · unfold sessionEntry
    rw [renumber_operation]
    split
    · rename_i hSend
      rw [sends_keptOf_take, (hGet n i hn hSend).2]
      rfl
    · rfl

theorem keptEntries_violations (hTyped : WellTypedPrefix ctx (wholeOf ms)) (h : Separated ms)
    {violations violations' : HashMap (List ClientViolation)}
    (hv : MadeBy (wholeOf ms) (violationEntry ctx) violations)
    (hv' : MadeBy (keptOf ms) (violationEntry ctx) violations') :
    KeptEntries (KeptAction ms) (actionAt ms) (fun _ => True) id violations violations' := by
  refine keptEntries_of_madeBy hv hv' (fun n i b k v hn hMade => ?_) (fun _ _ _ _ _ _ => trivial)
    (fun n i hn => ?_)
  · obtain ⟨hSend, rfl, -⟩ := violationEntry_eq_some.mp hMade
    obtain ⟨protocol, hOp⟩ := isSendSetup_iff.mp hSend
    exact keptAction_iff hn (by rw [hOp]; exact Nat.one_lt_two)
  · unfold violationEntry
    rw [renumber_operation]
    by_cases hSend : i.operation.isSendSetup = true
    · obtain ⟨protocol, hOp⟩ := isSendSetup_iff.mp hSend
      obtain ⟨hConnection, hProvides⟩ := connection_keptOf hTyped h hn (by rw [hOp]; rfl)
      -- the await is the second action of the send
      have hAwait : actionCount (keptOf (ms.take n)) + 1 =
          actionAt ms (actionCount ((wholeOf ms).take n) + 1) :=
        (totalAt_add Operation.numActions hn (by rw [hOp]; exact Nat.le_succ 1)).symm
      rw [hConnection, violationsOf_keptOf hTyped h hProvides, hAwait]
      split <;> rfl
    · rw [if_neg (fun hNoted => hSend hNoted.1), if_neg (fun hNoted => hSend hNoted.1)]
      rfl

/-- **Compiling what is kept** of a program that compiles. -/
theorem compiled_keptOf (hS : S.Lawful) (hTyped : WellTyped ctx (wholeOf ms)) (h : Separated ms)
    {whole : CompiledProgram} (hWhole : Compiler.compile S ⟨ctx, wholeOf ms⟩ = .ok whole) :
    ∃ kept, Compiler.compile S ⟨ctx, keptOf ms⟩ = .ok kept ∧ CompiledKept ctx ms whole kept := by
  have hTypedKept := wellTyped_keptOf h.respects h.keeps hTyped
  -- no string became longer, so the kept program compiles as well
  have hNone : NoneTooLong ctx (keptOf ms) :=
    (noneTooLong_keptOf_iff hTyped.instructions h).mpr fun n i v hn =>
      noneTooLong_of_compile hS hTyped hWhole n i v (getElem?_wholeOf hn)
  rcases compile_cases hS hTypedKept with ⟨-, m', hm', hKept⟩ | ⟨v, ⟨n, i, hi, hLong, -⟩, -⟩
  · rcases compile_cases hS hTyped with ⟨-, m, hm, hOk⟩ | ⟨v, -, hError⟩
    · obtain rfl := Except.ok.inj (hOk.symm.trans hWhole)
      obtain ⟨hActions, hIds⟩ := actionsOf_keptOf (S := S) hTyped h
      refine ⟨_, hKept, ⟨rfl, hActions, hIds, ?_,
        keptEntries_connection hm.connectionVariables hm'.connectionVariables,
        keptEntries_session hm.sessionVariables hm'.sessionVariables fun n i hn hSend =>
          ⟨keptVar_first hn ?_, length_definitions_keptOf_take ms n⟩,
        keptEntries_session hm.sessionSetups hm'.sessionSetups fun n i hn hSend =>
          ⟨trivial, ?_⟩,
        keptEntries_violations hTyped.instructions h hm.violations hm'.violations⟩⟩
      · show m'.actionInstructions = _
        rw [hm'.actionInstructions, hm.actionInstructions, actionInstructionsOf_keptOf]
      · obtain ⟨protocol, hOp⟩ := isSendSetup_iff.mp hSend
        rw [hOp]
        exact Nat.one_pos
      · obtain ⟨protocol, hOp⟩ := isSendSetup_iff.mp hSend
        have hConst : i.operation.getInputVariables[1]? = some (.constSetupConnection protocol) := by
          rw [hOp]
          rfl
        obtain ⟨hVar, hInput⟩ := input_keptOf hTyped.instructions h.keeps hn hConst
        rw [hInput, setupSpec_keptOf hTyped.instructions h hVar
          (Nat.le_of_lt (List.getElem?_eq_some_iff.mp hn).1)]
        rfl
    · cases hError.symm.trans hWhole
  · exact absurd hLong (hNone n i v hi)

end Stratamoto
