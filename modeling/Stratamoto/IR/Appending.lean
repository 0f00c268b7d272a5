import Stratamoto.IR.Fragments
import Stratamoto.IR.Insertion

/-!
# Stratamoto — what an appended fragment compiles to

A program that compiles, and one with instructions appended: what the compiled
program gains (`Gains`), for instructions without actions and for one that has
some, and from these for a connection, a raw frame and a setup. Every prefix in
between is a program of its own.

* `gains_quiet`, `gains_one` — the two steps;
* `gains_connection`, `gains_rawFrame`, `gains_setup` — the parts of the fragments;
* `sentOn_fresh` — nothing is sent on a connection before it is opened;
* `setup_generators_append` — the generators, run behind any program that compiles.
-/

namespace Stratamoto

open Brackets Operation Marks Draws

variable {S : Sv2} {ctx : ProgramContext} {is l : List Instruction}

/-- What a compiled program gains: actions behind those it has, notes of
violations, and setups of sessions; all else that is noted stays. -/
structure Adds (c c' : CompiledProgram) (actions : List Action)
    (notes : List (Nat × List ClientViolation)) (setups : List (Nat × SetupConnectionSpec)) :
    Prop where
  context : c'.context = c.context
  actions : c'.actions = c.actions ++ actions
  violations : ∀ a, c'.metadata.violations.lookup a =
    (notes.lookup a).or (c.metadata.violations.lookup a)
  sessionSetups : ∀ k, c'.metadata.sessionSetups.lookup k =
    (setups.lookup k).or (c.metadata.sessionSetups.lookup k)

theorem lookup_append_assoc {β : Type} (l l' : List (Nat × β)) (k : Nat) :
    (l ++ l').lookup k = (l.lookup k).or (l'.lookup k) := by
  induction l with
  | nil => rfl
  | cons p l ih =>
    obtain ⟨k', v⟩ := p
    rw [List.cons_append, List.lookup_cons, List.lookup_cons]
    split
    · rfl
    · exact ih

theorem Adds.trans {c c' c'' : CompiledProgram} {actions actions' : List Action}
    {notes notes' : List (Nat × List ClientViolation)}
    {setups setups' : List (Nat × SetupConnectionSpec)} (h : Adds c c' actions notes setups)
    (h' : Adds c' c'' actions' notes' setups') :
    Adds c c'' (actions ++ actions') (notes' ++ notes) (setups' ++ setups) where
  context := h'.context.trans h.context
  actions := by rw [h'.actions, h.actions, List.append_assoc]
  violations a := by rw [h'.violations, h.violations, lookup_append_assoc, Option.or_assoc]
  sessionSetups k := by rw [h'.sessionSetups, h.sessionSetups, lookup_append_assoc, Option.or_assoc]

/-- The program compiles, and `c` has gained so much. -/
def Gains (S : Sv2) (ctx : ProgramContext) (c : CompiledProgram) (is : List Instruction)
    (actions : List Action) (notes : List (Nat × List ClientViolation))
    (setups : List (Nat × SetupConnectionSpec)) : Prop :=
  ∃ c', Compiler.compile S ⟨ctx, is⟩ = .ok c' ∧ Adds c c' actions notes setups

theorem Gains.trans {c : CompiledProgram} {is' : List Instruction} {actions actions' : List Action}
    {notes notes' : List (Nat × List ClientViolation)}
    {setups setups' : List (Nat × SetupConnectionSpec)} (h : Gains S ctx c is actions notes setups)
    (h' : ∀ c', Compiler.compile S ⟨ctx, is⟩ = .ok c' → Gains S ctx c' is' actions' notes' setups') :
    Gains S ctx c is' (actions ++ actions') (notes' ++ notes) (setups' ++ setups) := by
  obtain ⟨c', hCompile, hAdds⟩ := h
  obtain ⟨c'', hCompile', hAdds'⟩ := h' c' hCompile
  exact ⟨c'', hCompile', hAdds.trans hAdds'⟩

/-! ## Maps made by instructions -/

section Made

variable {β : Type} {entry : List Instruction → Instruction → Option (Nat × β)} {m m' : HashMap β}

theorem MadeBy.unique (h : MadeBy is entry m) (h' : MadeBy is entry m') (k : Nat) :
    m.lookup k = m'.lookup k := by
  refine Option.ext fun v => ?_
  rw [h k v, h' k v]

theorem MadeBy.append (h : MadeBy is entry m)
    (hNone : ∀ (n : Nat) (i : Instruction), l[n]? = some i → entry (is ++ l.take n) i = none) :
    MadeBy (is ++ l) entry m := by
  induction l using List.reverseRecOn with
  | nil => rwa [List.append_nil]
  | append_singleton l i ih =>
    rw [← List.append_assoc]
    refine MadeBy.snoc (ih fun n j hj => ?_) ?_
    · have hLt := (List.getElem?_eq_some_iff.mp hj).1
      have := hNone n j (by rw [List.getElem?_append_left hLt, hj])
      rwa [List.take_append_of_le_length (Nat.le_of_lt hLt)] at this
    · simpa using hNone l.length i List.getElem?_concat_length

/-- One more instruction adds the entry it makes, if it makes one. -/
theorem MadeBy.lookup_snoc {i : Instruction} (h : MadeBy is entry m)
    (h' : MadeBy (is ++ [i]) entry m')
    (hFresh : ∀ k v, entry is i = some (k, v) → ∀ (n : Nat) (j : Instruction) (v' : β),
      is[n]? = some j → entry (is.take n) j ≠ some (k, v')) (k : Nat) :
    m'.lookup k = ((entry is i).toList.lookup k).or (m.lookup k) := by
  cases hEntry : entry is i with
  | none => exact h'.unique (h.snoc hEntry) k
  | some p =>
    obtain ⟨k₀, v₀⟩ := p
    rw [h'.unique (h.insert hEntry (hFresh k₀ v₀ hEntry)) k]
    show _ = (List.lookup k [(k₀, v₀)]).or _
    rw [List.lookup_cons]
    by_cases hk : k = k₀
    · subst hk
      rw [AList.lookup_insert, beq_self_eq_true]
      rfl
    · rw [AList.lookup_insert_ne hk, beq_eq_false_iff_ne.mpr hk]
      rfl

end Made

/-! ## One step -/

theorem numActions_of_isSendSetup {op : Operation} (h : op.isSendSetup = true) :
    op.numActions = 2 := by
  obtain ⟨protocol, rfl⟩ := isSendSetup_iff.mp h
  rfl

/-- Instructions without actions have none behind a program either. -/
theorem actionsOf_quiet {s : List (Nat × BlockKind)} (hs : openStack (brackets (is ++ l)) = some s)
    (hQuiet : ∀ i ∈ l, i.operation.numActions = 0) :
    actionsOf S ctx (is ++ l) = actionsOf S ctx is := by
  induction l using List.reverseRecOn generalizing s with
  | nil => rw [List.append_nil]
  | append_singleton l i ih =>
    have hi := hQuiet i (by simp)
    rw [← List.append_assoc] at hs ⊢
    obtain ⟨t, ht⟩ := openStack_of_append (by rwa [brackets_append] at hs)
    have hEnd : i.operation ≠ .endOnSetupSuccess := by
      intro hOp
      rw [hOp] at hi
      cases hi
    have hLower : lower S ctx (is ++ l) ActionId.max i = [] :=
      List.length_eq_zero_iff.mp (by rw [length_lower, hi])
    rw [actionsOf_snoc ht hs hEnd, hLower, List.append_nil]
    exact ih ht fun j hj => hQuiet j (List.mem_append_left _ hj)

/-- **Instructions without actions** leave a compiled program as it is. -/
theorem gains_quiet (hS : S.Lawful) (hTyped : WellTyped ctx is) (hTyped' : WellTyped ctx (is ++ l))
    (hQuiet : ∀ i ∈ l, i.operation.numActions = 0) {c : CompiledProgram}
    (hCompile : Compiler.compile S ⟨ctx, is⟩ = .ok c) :
    Gains S ctx c (is ++ l) [] [] [] := by
  -- a send would have actions
  have hNoSend : ∀ i ∈ l, ¬ i.operation.isSendSetup = true := by
    intro i hi hSend
    have := hQuiet i hi
    rw [numActions_of_isSendSetup hSend] at this
    cases this
  have hShort : NoneTooLong ctx (is ++ l) := by
    intro n i v hi hLong
    rcases Nat.lt_or_ge n is.length with hLt | hGe
    · rw [List.getElem?_append_left hLt] at hi
      rw [List.take_append_of_le_length (Nat.le_of_lt hLt)] at hLong
      exact noneTooLong_of_compile hS hTyped hCompile n i v hi hLong
    · rw [List.getElem?_append_right hGe] at hi
      exact hNoSend i (List.mem_of_getElem? hi) hLong.1
  obtain ⟨c', hCompile'⟩ := (compile_ok_iff hS hTyped').mpr hShort
  obtain ⟨hActions, hm⟩ := compiled_of_typed hS hTyped hCompile
  obtain ⟨hActions', hm'⟩ := compiled_of_typed hS hTyped' hCompile'
  refine ⟨c', hCompile', (context_of_compile hCompile').trans (context_of_compile hCompile).symm,
    ?_, fun a => ?_, fun k => ?_⟩
  · rw [hActions', hActions, List.append_nil]
    exact actionsOf_quiet (balanced_iff_openStack.mp hTyped'.balanced) hQuiet
  · refine (hm'.violations.unique (hm.violations.append fun n i hi => ?_) a)
    exact if_neg fun hNoted => hNoSend i (List.mem_of_getElem? hi) hNoted.1
  · refine (hm'.sessionSetups.unique (hm.sessionSetups.append fun n i hi => ?_) k)
    exact if_neg (hNoSend i (List.mem_of_getElem? hi))

/-- **One instruction** adds its actions, and what is noted of it. -/
theorem gains_one (hS : S.Lawful) {i : Instruction} (hTyped : WellTyped ctx is)
    (hTyped' : WellTyped ctx (is ++ [i])) (hEnd : i.operation ≠ .endOnSetupSuccess)
    (hShort : ∀ v, ¬ i.SendsTooLong ctx is v) {c : CompiledProgram}
    (hCompile : Compiler.compile S ⟨ctx, is⟩ = .ok c) :
    Gains S ctx c (is ++ [i]) (lower S ctx is ActionId.max i) (violationEntry ctx is i).toList
      (sessionEntry (fun before j => setupSpec ctx before (j.input 1)) is i).toList := by
  obtain ⟨c', hCompile'⟩ := (compile_ok_iff hS hTyped').mpr
    (noneTooLong_snoc.mpr ⟨noneTooLong_of_compile hS hTyped hCompile, hShort⟩)
  obtain ⟨hActions, hm⟩ := compiled_of_typed hS hTyped hCompile
  obtain ⟨hActions', hm'⟩ := compiled_of_typed hS hTyped' hCompile'
  -- the actions grow at the end, and the maps by what is new
  refine ⟨c', hCompile', (context_of_compile hCompile').trans (context_of_compile hCompile).symm,
    ?_, fun a => ?_, fun k => ?_⟩
  · rw [hActions', hActions]
    exact actionsOf_snoc (balanced_iff_openStack.mp hTyped.balanced)
      (balanced_iff_openStack.mp hTyped'.balanced) hEnd
  · refine hm.violations.lookup_snoc hm'.violations (fun k v hEntry n j v' hj => ?_) a
    obtain ⟨-, rfl, -⟩ := violationEntry_eq_some.mp hEntry
    exact violationEntry_fresh hj
  · refine hm.sessionSetups.lookup_snoc hm'.sessionSetups (fun k v hEntry n j v' hj => ?_) k
    obtain ⟨-, rfl, -⟩ := sessionEntry_eq_some.mp hEntry
    exact sessionEntry_fresh hj

/-! ## Values behind a program -/

/-- The variable of an instruction that loads or connects. -/
theorem constants_snoc (ctx : ProgramContext) (is : List Instruction) {i : Instruction}
    (h : 0 < i.operation.numDefined) :
    constants ctx (is ++ [i]) (definitions is).length = loaded ctx is i.operation := by
  have hLength : 0 < (i.definitions is.length).length := by rwa [length_definitions_of]
  have hd : (definitions (is ++ [i]))[(definitions is).length]? =
      some (i.definitions is.length)[0] := by
    rw [definitions_snoc, List.getElem?_append_right (Nat.le_refl _), Nat.sub_self,
      List.getElem?_eq_getElem hLength]
  have hAt : (i.definitions is.length)[0].instruction = is.length :=
    instruction_of_mem_definitions (List.getElem_mem hLength)
  simp only [constants, hd, hAt, List.getElem?_concat_length, List.take_left]

/-- Nothing is sent on a connection before it is opened. -/
theorem sentOn_fresh (hTyped : WellTypedPrefix ctx is) {c : Nat}
    (hc : ctx.numConnections + connects is ≤ c) : sentOn ctx is c = false := by
  rw [← Bool.not_eq_true, sentOn, occurs_iff]
  rintro ⟨n, i, hi, hSends⟩
  rw [sendsOn_eq, Bool.and_eq_true, beq_iff_eq] at hSends
  obtain ⟨hUses, hConnection⟩ := hSends
  have hInput := ((hTyped n i hi).input (usesConnection_input hUses)).2
  rcases names_connection (hTyped.take n) hInput with hLt | ⟨m, j, hj, hOp, hEq, -⟩
  · omega
  · have hLt : connects ((is.take n).take m) < connects (is.take n) :=
      total_take_lt _ hj (by simp [hOp])
    have hn := (List.getElem?_eq_some_iff.mp hi).1
    have hLe : connects (is.take n) ≤ connects is := by
      have := total_take_add_le (fun op => if op = .connect then 1 else 0) hi hn
      rw [List.take_length] at this
      exact Nat.le_trans (Nat.le_add_right ..) this
    omega

theorem rawSentOn_fresh (hTyped : WellTypedPrefix ctx is) {c : Nat}
    (hc : ctx.numConnections + connects is ≤ c) : rawSentOn ctx is c = false := by
  have hSent := sentOn_fresh hTyped hc
  rw [← Bool.not_eq_true] at hSent ⊢
  intro hRaw
  obtain ⟨n, i, hi, hRaw⟩ := occurs_iff.mp hRaw
  refine hSent (occurs_iff.mpr ⟨n, i, hi, ?_⟩)
  -- a raw frame is a frame
  obtain ⟨inputs, op⟩ := i
  cases op <;> first | exact hRaw | cases hRaw

/-- Instructions without actions send nothing. -/
theorem sentOn_quiet (ctx : ProgramContext) (is : List Instruction)
    (hQuiet : ∀ i ∈ l, i.operation.numActions = 0) (c : Nat) :
    sentOn ctx (is ++ l) c = sentOn ctx is c ∧ rawSentOn ctx (is ++ l) c = rawSentOn ctx is c := by
  induction l using List.reverseRecOn with
  | nil => simp
  | append_singleton l i ih =>
    obtain ⟨hSent, hRaw⟩ := ih fun j hj => hQuiet j (List.mem_append_left _ hj)
    have hi := hQuiet i (by simp)
    have hNone : i.sendsOn ctx c (is ++ l) = false ∧ i.rawSendsOn ctx c (is ++ l) = false := by
      obtain ⟨inputs, op⟩ := i
      cases op <;> first | exact ⟨rfl, rfl⟩ | cases hi
    rw [← List.append_assoc, sentOn, rawSentOn, occurs_snoc, occurs_snoc, hNone.1, hNone.2,
      Bool.or_false, Bool.or_false]
    exact ⟨hSent, hRaw⟩

/-- What is behind a balanced part of a program is typed without it. -/
theorem wellTyped_of_append (hl : WellTyped ctx l) (h : WellTyped ctx (l ++ shiftAll l is)) :
    WellTyped ctx is := by
  have hScoped : Scoped is := by
    intro n i hi v hv
    have hShift : (l ++ shiftAll l is)[l.length + n]? = some (i.shift (definitions l).length) := by
      rw [List.getElem?_append_right (Nat.le_add_right ..), Nat.add_sub_cancel_left, shiftAll,
        List.getElem?_map, hi]
      rfl
    have hLt := h.instructions.scoped _ _ hShift _ (List.mem_map_of_mem hv)
    have hTake : (shiftAll l is).take n = shiftAll l (is.take n) := List.map_take.symm
    have hTotal := total_shiftAll Operation.numDefined l (is.take n)
    rw [List.take_length_add_append, hTake, length_definitions_append] at hLt
    rw [length_definitions_total (is.take n), ← hTotal]
    exact Nat.lt_of_add_lt_add_left (Nat.add_comm v _ ▸ hLt)
  have hKept := wellTyped_keptOf (respects_behind hl.balanced is) (keepsInputs_behind hScoped)
    (by rwa [wholeOf_behind])
  rwa [keptOf_behind hScoped] at hKept

/-- A setup that is built behind a program is the one that is built alone. -/
theorem setupSpec_append (hl : WellTyped ctx l) (h : WellTyped ctx is) (hLoads : LoadsNone is)
    {v : Nat} (hv : v < (definitions is).length) :
    setupSpec ctx (l ++ shiftAll l is) (v + (definitions l).length) = setupSpec ctx is v := by
  have hScoped := h.instructions.scoped
  have hKept : KeptVar ((behind l is).take (behind l is).length) (v + (definitions l).length) := by
    rw [List.take_length]
    exact keptVar_behind l is hv
  have hSpec := setupSpec_keptOf (by rw [wholeOf_behind]; exact (wellTyped_append hl h).instructions)
    (separated_behind hl h hLoads) hKept (Nat.le_refl _)
  rw [List.take_length, keptOf_behind hScoped, varAt_behind l is (Nat.le_of_lt hv),
    wholeOf_behind] at hSpec
  rw [hSpec, List.take_of_length_le]
  simp [behind, markAll]

/-! ## The parts of a fragment -/

/-- Build a setup, to be sent. -/
def buildFragment (endpoint deviceInfo : Bool) (protocol : Protocol)
    (minVersion maxVersion : UInt16) (flags : UInt32) (n : Nat) : List Instruction :=
  messageFragment minVersion maxVersion flags n ++
    (if endpoint then endpointFragment (n + 3) (n + 4) else []) ++
    (if deviceInfo then
      deviceInfoFragment (n + 3) (n + 4 + if endpoint then 2 else 0) else []) ++
    [⟨[n + 3], .endBuildSetupConnection protocol⟩]

/-- The variable of the setup that is built. -/
def builtVar (endpoint deviceInfo : Bool) : Nat :=
  4 + (if endpoint then 2 else 0) + if deviceInfo then 4 else 0

section Build

variable (endpoint deviceInfo : Bool) (protocol : Protocol) (minVersion maxVersion : UInt16)
  (flags : UInt32)

theorem setupFragment_eq (c n : Nat) :
    setupFragment endpoint deviceInfo c protocol minVersion maxVersion flags n =
      buildFragment endpoint deviceInfo protocol minVersion maxVersion flags n ++
        [⟨[c, n + builtVar endpoint deviceInfo], .sendSetupConnection protocol⟩] := by
  simp [setupFragment, buildFragment, sendFragment, builtVar, Nat.add_assoc]

theorem buildFragment_eq (is : List Instruction) :
    buildFragment endpoint deviceInfo protocol minVersion maxVersion flags (definitions is).length =
      shiftAll is
        (buildFragment endpoint deviceInfo protocol minVersion maxVersion flags 0) := by
  cases endpoint <;> cases deviceInfo <;>
    simp [buildFragment, messageFragment, endpointFragment, deviceInfoFragment, shiftAll,
      Instruction.shift, Nat.add_comm] <;> omega

theorem buildFragment_quiet (n : Nat) :
    ∀ i ∈ buildFragment endpoint deviceInfo protocol minVersion maxVersion flags n,
      i.operation.numActions = 0 := by
  cases endpoint <;> cases deviceInfo <;>
    simp [buildFragment, messageFragment, endpointFragment, deviceInfoFragment, numActions]

theorem buildFragment_balanced (n : Nat) : Balanced (brackets
    (buildFragment endpoint deviceInfo protocol minVersion maxVersion flags n)) := by
  cases endpoint <;> cases deviceInfo <;> exact balanced_iff_openStack.mpr rfl

theorem buildFragment_loadsNone :
    LoadsNone (buildFragment endpoint deviceInfo protocol minVersion maxVersion flags 0) := by
  intro n c i hi
  have hAll : ∀ j ∈ buildFragment endpoint deviceInfo protocol minVersion maxVersion flags 0,
      j.operation ≠ .loadConnection c := by
    cases endpoint <;> cases deviceInfo <;>
      simp [buildFragment, messageFragment, endpointFragment, deviceInfoFragment]
  exact hAll i (List.mem_of_getElem? hi)

theorem length_definitions_build : (definitions
    (buildFragment endpoint deviceInfo protocol minVersion maxVersion flags 0)).length =
      builtVar endpoint deviceInfo + 1 := by
  cases endpoint <;> cases deviceInfo <;> rfl

/-- **The setup built** has the versions and the flags that are asked for, and is
otherwise the one a client would send: the other fields start at their defaults,
and are set to these. -/
theorem setupSpec_build (ctx : ProgramContext) :
    setupSpec ctx (buildFragment endpoint deviceInfo protocol minVersion maxVersion flags 0)
      (builtVar endpoint deviceInfo) = { protocol, minVersion, maxVersion, flags } := by
  cases endpoint <;> cases deviceInfo <;> rfl

end Build

/-! ## The parts of a generated fragment -/

theorem total_quiet {weight : Operation → Nat} (h : ∀ i ∈ l, weight i.operation = 0) :
    total weight (is ++ l) = total weight is := by
  have hZero : total weight l = 0 := by
    induction l with
    | nil => rfl
    | cons i l ih =>
      rw [total, List.map_cons, List.sum_cons, h i (List.mem_cons_self ..), Nat.zero_add]
      exact ih fun j hj => h j (List.mem_cons_of_mem _ hj)
  rw [total_append, hZero, Nat.add_zero]

theorem counts_quiet (is : List Instruction) (hQuiet : ∀ i ∈ l, i.operation.numActions = 0) :
    connects (is ++ l) = connects is ∧ sends (is ++ l) = sends is ∧
      actionCount (is ++ l) = actionCount is := by
  refine ⟨total_quiet fun i hi => ?_, total_quiet fun i hi => ?_, total_quiet hQuiet⟩
  · exact if_neg (numActions_zero (hQuiet i hi)).1
  · exact if_neg (by simp [(numActions_zero (hQuiet i hi)).2.1])

/-- A balanced front of what the builder accepts is a program. -/
theorem WellTypedPrefix.front (h : WellTypedPrefix ctx (is ++ l)) (hBalanced : Balanced (brackets is)) :
    WellTyped ctx is := by
  have hTake := h.take is.length
  rw [List.take_left] at hTake
  exact ⟨hBalanced, hTake⟩

/-- The variable holds a connection of the program's own, on which a frame was
`sent`, and one of the program's choosing was sent `raw`. -/
structure OwnConnection (ctx : ProgramContext) (is : List Instruction) (v c : Nat)
    (sent raw : Bool) : Prop where
  lt : v < (definitions is).length
  holds : connectionOf ctx is v = c
  opened : ctx.numConnections ≤ c
  sent : sentOn ctx is c = sent
  raw : rawSentOn ctx is c = raw

section Parts

variable {c : CompiledProgram} {v k : Nat} {sent raw : Bool}

theorem OwnConnection.append (h : OwnConnection ctx is v k sent raw) {sent' raw' : Bool}
    (hSent : sentOn ctx (is ++ l) k = sent') (hRaw : rawSentOn ctx (is ++ l) k = raw') :
    OwnConnection ctx (is ++ l) v k sent' raw' := by
  refine ⟨?_, ?_, h.opened, hSent, hRaw⟩
  · rw [length_definitions_append]
    exact Nat.lt_of_lt_of_le h.lt (Nat.le_add_right ..)
  · rw [connectionOf, constants_append l h.lt]
    exact h.holds

theorem OwnConnection.quiet (h : OwnConnection ctx is v k sent raw)
    (hQuiet : ∀ i ∈ l, i.operation.numActions = 0) : OwnConnection ctx (is ++ l) v k sent raw := by
  obtain ⟨hSent, hRaw⟩ := sentOn_quiet ctx is hQuiet k
  exact h.append (hSent.trans h.sent) (hRaw.trans h.raw)

/-- **A connection is opened**, and nothing has been sent on it. -/
theorem gains_connection (hS : S.Lawful) {role : Nat} (hTyped : WellTyped ctx is)
    (hAfter : WellTyped ctx (is ++ connectionFragment role (definitions is).length))
    (hCompile : Compiler.compile S ⟨ctx, is⟩ = .ok c) :
    Gains S ctx c (is ++ connectionFragment role (definitions is).length)
        [.connect (ctx.numConnections + connects is) role] [] [] ∧
      OwnConnection ctx (is ++ connectionFragment role (definitions is).length)
        ((definitions is).length + 1) (ctx.numConnections + connects is) false false := by
  have hLoadQuiet : ∀ i ∈ [(⟨[], .loadRole role⟩ : Instruction)], i.operation.numActions = 0 := by
    simp [numActions]
  -- one instruction after the other: the load has no actions, the connect has one
  have hSplit : is ++ connectionFragment role (definitions is).length =
      is ++ [⟨[], .loadRole role⟩] ++ [⟨[(definitions is).length], .connect⟩] := by
    simp [connectionFragment]
  rw [hSplit] at hAfter ⊢
  have hLoaded : WellTyped ctx (is ++ [⟨[], .loadRole role⟩]) := by
    refine hAfter.instructions.front ?_
    rw [brackets_append]
    exact hTyped.balanced.append (balanced_iff_openStack.mpr rfl)
  have hRole : constants ctx (is ++ [⟨[], .loadRole role⟩]) (definitions is).length = .role role :=
    constants_snoc ctx is Nat.one_pos
  have hConnects : connects (is ++ [⟨[], .loadRole role⟩]) = connects is :=
    (counts_quiet is hLoadQuiet).1
  have hLength : (definitions (is ++ [⟨[], .loadRole role⟩])).length =
      (definitions is).length + 1 := by
    rw [length_definitions_snoc]
    rfl
  constructor
  · have hOne := (gains_quiet hS hTyped hLoaded hLoadQuiet hCompile).trans fun c' hCompile' =>
      gains_one hS hLoaded hAfter (by simp) (fun v hLong => by cases hLong.1) hCompile'
    have hLower : lower S ctx (is ++ [⟨[], .loadRole role⟩]) ActionId.max
        ⟨[(definitions is).length], .connect⟩ = [.connect (ctx.numConnections + connects is) role] := by
      simp [lower, hConnects, roleOf, Instruction.input, hRole, Value.asRole]
    rw [hLower] at hOne
    exact hOne
  · have hHolds := constants_snoc ctx (is ++ [⟨[], .loadRole role⟩])
      (i := ⟨[(definitions is).length], .connect⟩) Nat.one_pos
    rw [hLength] at hHolds
    -- nothing can have used the connection before it is made
    have hFresh : ctx.numConnections + connects (is ++ [⟨[], .loadRole role⟩]) ≤
        ctx.numConnections + connects is := by rw [hConnects]
    refine ⟨?_, ?_, Nat.le_add_right .., ?_, ?_⟩
    · rw [length_definitions_snoc, hLength]
      exact Nat.lt_succ_self _
    · rw [connectionOf, hHolds]
      simp [loaded, hConnects, Value.asConnection]
    · rw [sentOn, occurs_snoc, ← sentOn, sentOn_fresh hLoaded.instructions hFresh]
      rfl
    · rw [rawSentOn, occurs_snoc, ← rawSentOn, rawSentOn_fresh hLoaded.instructions hFresh]
      rfl

/-- **A raw frame is sent**, whatever its bytes. -/
theorem gains_rawFrame (hS : S.Lawful) {messageType : UInt8} {extensionType : UInt16}
    {bytes : List UInt8} (hTyped : WellTyped ctx is)
    (hAfter : WellTyped ctx (is ++ [⟨[], .loadBytes bytes⟩,
      ⟨[v, (definitions is).length], .sendRawFrame messageType extensionType⟩]))
    (hOwn : OwnConnection ctx is v k sent raw) (hCompile : Compiler.compile S ⟨ctx, is⟩ = .ok c) :
    Gains S ctx c (is ++ [⟨[], .loadBytes bytes⟩,
          ⟨[v, (definitions is).length], .sendRawFrame messageType extensionType⟩])
        [.send k extensionType messageType false bytes] [] [] ∧
      OwnConnection ctx (is ++ [⟨[], .loadBytes bytes⟩,
        ⟨[v, (definitions is).length], .sendRawFrame messageType extensionType⟩]) v k true true := by
  have hLoadQuiet : ∀ i ∈ [(⟨[], .loadBytes bytes⟩ : Instruction)], i.operation.numActions = 0 := by
    simp [numActions]
  have hSplit : is ++ [⟨[], .loadBytes bytes⟩,
      ⟨[v, (definitions is).length], .sendRawFrame messageType extensionType⟩] =
      is ++ [⟨[], .loadBytes bytes⟩] ++
        [⟨[v, (definitions is).length], .sendRawFrame messageType extensionType⟩] := by simp
  rw [hSplit] at hAfter ⊢
  have hLoaded : WellTyped ctx (is ++ [⟨[], .loadBytes bytes⟩]) := by
    refine hAfter.instructions.front ?_
    rw [brackets_append]
    exact hTyped.balanced.append (balanced_iff_openStack.mpr rfl)
  have hBytes : constants ctx (is ++ [⟨[], .loadBytes bytes⟩]) (definitions is).length =
      .bytes bytes := constants_snoc ctx is Nat.one_pos
  have hOwn' := hOwn.quiet hLoadQuiet
  -- the frame goes out on the connection the variable holds
  have hSends : (⟨[v, (definitions is).length], .sendRawFrame messageType extensionType⟩ :
      Instruction).sendsOn ctx k (is ++ [⟨[], .loadBytes bytes⟩]) = true := by
    simp [Instruction.sendsOn, Instruction.input, hOwn'.holds]
  constructor
  · have hOne := (gains_quiet hS hTyped hLoaded hLoadQuiet hCompile).trans fun c' hCompile' =>
      gains_one hS hLoaded hAfter (by simp) (fun v hLong => by cases hLong.1) hCompile'
    have hLower : lower S ctx (is ++ [⟨[], .loadBytes bytes⟩]) ActionId.max
        ⟨[v, (definitions is).length], .sendRawFrame messageType extensionType⟩ =
        [.send k extensionType messageType false bytes] := by
      simp [lower, Instruction.input, hOwn'.holds, bytesOf, hBytes, Value.asBytes]
    rw [hLower] at hOne
    exact hOne
  · refine hOwn'.append ?_ ?_
    · rw [sentOn, occurs_snoc, hSends, Bool.or_true]
    · have hRaw : (⟨[v, (definitions is).length], .sendRawFrame messageType extensionType⟩ :
          Instruction).rawSendsOn ctx k (is ++ [⟨[], .loadBytes bytes⟩]) = true := hSends
      rw [rawSentOn, occurs_snoc, hRaw, Bool.or_true]

/-- A setup is sent and its answer awaited. -/
def setupActions (S : Sv2) (connection session : Nat) (spec : SetupConnectionSpec) (first : Bool) :
    List Action :=
  [.send connection 0 S.messageTypeSetupConnection false (payloadOf S spec),
    .awaitSetupResponse connection session spec.protocol first]

/-- What a setup on a connection of its own violates. -/
def violationsAfter (sent raw : Bool) : List ClientViolation :=
  (if sent then [.setupNotFirst] else []) ++ if raw then [.rawFrameBefore] else []

/-- **A setup is built and sent**: one send and one await, classified by what was
sent on its connection before. -/
theorem gains_setup (hS : S.Lawful) {protocol : Protocol} {minVersion maxVersion : UInt16}
    {flags : UInt32} (hTyped : WellTyped ctx is)
    (hSetup : SetupOn v protocol minVersion maxVersion flags (definitions is).length l)
    (hAfter : WellTyped ctx (is ++ l)) (hOwn : OwnConnection ctx is v k sent raw)
    (hCompile : Compiler.compile S ⟨ctx, is⟩ = .ok c) :
    Gains S ctx c (is ++ l)
        (setupActions S k (sends is) { protocol, minVersion, maxVersion, flags } !sent)
        (if violationsAfter sent raw = [] then []
          else [(actionCount is + 1, violationsAfter sent raw)])
        [(sends is, { protocol, minVersion, maxVersion, flags })] ∧
      OwnConnection ctx (is ++ l) v k true raw := by
  obtain ⟨endpoint, deviceInfo, rfl⟩ := hSetup
  set spec : SetupConnectionSpec := { protocol, minVersion, maxVersion, flags } with hSpec
  set build := buildFragment endpoint deviceInfo protocol minVersion maxVersion flags
    (definitions is).length with hBuild
  set send : Instruction := ⟨[v, (definitions is).length + builtVar endpoint deviceInfo],
    .sendSetupConnection protocol⟩ with hSend
  have hSplit : is ++ setupFragment endpoint deviceInfo v protocol minVersion maxVersion flags
      (definitions is).length = is ++ build ++ [send] := by
    rw [setupFragment_eq, List.append_assoc]
  rw [hSplit] at hAfter ⊢
  have hQuiet : ∀ i ∈ build, i.operation.numActions = 0 :=
    buildFragment_quiet endpoint deviceInfo protocol minVersion maxVersion flags _
  have hBuilt : WellTyped ctx (is ++ build) := by
    refine hAfter.instructions.front ?_
    rw [brackets_append]
    exact hTyped.balanced.append (buildFragment_balanced ..)
  have hOwn' := hOwn.quiet hQuiet
  obtain ⟨-, hSendsCount, hActionCount⟩ := counts_quiet is hQuiet
  -- the setup that is sent is the one that is built alone
  have hSetup : setupSpec ctx (is ++ build) (send.input 1) = spec := by
    have hAlone : WellTyped ctx
        (buildFragment endpoint deviceInfo protocol minVersion maxVersion flags 0) :=
      wellTyped_of_append hTyped (by rw [← buildFragment_eq]; exact hBuilt)
    have hVar : builtVar endpoint deviceInfo < (definitions
        (buildFragment endpoint deviceInfo protocol minVersion maxVersion flags 0)).length := by
      rw [length_definitions_build]
      exact Nat.lt_succ_self _
    have hSame := setupSpec_append hTyped hAlone
      (buildFragment_loadsNone endpoint deviceInfo protocol minVersion maxVersion flags) hVar
    rw [← buildFragment_eq, setupSpec_build, Nat.add_comm] at hSame
    exact hSame
  have hConnection : connectionOf ctx (is ++ build) (send.input 0) = k := hOwn'.holds
  have hFirst : firstOn ctx (is ++ build) k = !sent := by
    rw [firstOn, hOwn'.sent, decide_eq_true hOwn'.opened, Bool.true_and]
  have hViolations : violationsOf ctx (is ++ build) k = violationsAfter sent raw := by
    rw [violationsOf, hFirst, hOwn'.raw, violationsAfter]
    cases sent <;> rfl
  constructor
  · have hShort : ∀ u, ¬ send.SendsTooLong ctx (is ++ build) u := by
      rintro u ⟨-, hu, hLong⟩
      obtain rfl : send.input 1 = u := Option.some.inj hu
      rw [hSetup] at hLong
      revert hLong
      simp only [SetupConnectionSpec.TooLong, hSpec]
      decide
    have hOne := (gains_quiet hS hTyped hBuilt hQuiet hCompile).trans fun c' hCompile' =>
      gains_one hS hBuilt hAfter (by simp [hSend]) hShort hCompile'
    have hLower : lower S ctx (is ++ build) ActionId.max send =
        setupActions S k (sends is) spec !sent := by
      simp only [lower, hSend]
      rw [← hSend, hConnection, hSetup, hFirst, hSendsCount]
      rfl
    have hNotes : (violationEntry ctx (is ++ build) send).toList =
        if violationsAfter sent raw = [] then []
        else [(actionCount is + 1, violationsAfter sent raw)] := by
      rw [violationEntry, hConnection, hViolations, hActionCount]
      cases sent <;> cases raw <;> rfl
    have hSession : (sessionEntry (fun before j => setupSpec ctx before (j.input 1))
        (is ++ build) send).toList = [(sends is, spec)] := by
      rw [sessionEntry, hSetup, hSendsCount]
      rfl
    rw [hLower, hNotes, hSession] at hOne
    simpa using hOne
  · refine hOwn'.append ?_ ?_
    · have hSends : send.sendsOn ctx k (is ++ build) = true := by
        simp only [Instruction.sendsOn, hSend]
        rw [← hSend, hConnection, beq_self_eq_true]
      rw [sentOn, occurs_snoc, hSends, Bool.or_true]
    · have hRaw : send.rawSendsOn ctx k (is ++ build) = false := rfl
      rw [rawSentOn, occurs_snoc, hRaw, Bool.or_false]
      exact hOwn'.raw

end Parts

/-! ## Generated fragments -/

/-- A setup on a connection of its own, behind `n` variables. -/
inductive ConformingFragment (role : Nat) (protocol : Protocol) (n : Nat) :
    List Instruction → Prop
  | mk {flags : UInt32} {l : List Instruction} : Defined protocol flags →
      SetupOn (n + 1) protocol currentVersion currentVersion flags (n + 2) l →
      ConformingFragment role protocol n (connectionFragment role n ++ l)

section Fresh

variable {role : Nat} {protocol : Protocol} {c : CompiledProgram}

/-- **A setup on a new connection**, whatever its versions and flags. -/
theorem gains_ownSetup (hS : S.Lawful) {minVersion maxVersion : UInt16} {flags : UInt32}
    (hTyped : WellTyped ctx is)
    (hSetup : SetupOn ((definitions is).length + 1) protocol minVersion maxVersion flags
      ((definitions is).length + 2) l)
    (hAfter : WellTyped ctx (is ++ (connectionFragment role (definitions is).length ++ l)))
    (hCompile : Compiler.compile S ⟨ctx, is⟩ = .ok c) :
    Gains S ctx c (is ++ (connectionFragment role (definitions is).length ++ l))
        (.connect (ctx.numConnections + connects is) role ::
          setupActions S (ctx.numConnections + connects is) (sends is)
            { protocol, minVersion, maxVersion, flags } true)
        [] [(sends is, { protocol, minVersion, maxVersion, flags })] ∧
      OwnConnection ctx (is ++ (connectionFragment role (definitions is).length ++ l))
        ((definitions is).length + 1) (ctx.numConnections + connects is) true false := by
  rw [← List.append_assoc] at hAfter ⊢
  have hConnected : WellTyped ctx (is ++ connectionFragment role (definitions is).length) := by
    refine hAfter.instructions.front ?_
    rw [brackets_append]
    exact hTyped.balanced.append (connectionFragment_balanced _ _)
  -- the connection first, and then the setup on it
  obtain ⟨hGains, hOwn⟩ := gains_connection hS hTyped hConnected hCompile
  have hLength : (definitions (is ++ connectionFragment role (definitions is).length)).length =
      (definitions is).length + 2 := by
    rw [length_definitions_append]
    rfl
  have hSends : sends (is ++ connectionFragment role (definitions is).length) = sends is := by
    rw [sends, total_append]
    rfl
  rw [← hLength] at hSetup
  obtain ⟨c', hCompile', hAdds⟩ := hGains
  have hBoth := Gains.trans ⟨c', hCompile', hAdds⟩ fun c'' hCompile'' =>
    (gains_setup hS hConnected hSetup hAfter hOwn hCompile'').1
  rw [hSends] at hBoth
  exact ⟨hBoth, (gains_setup hS hConnected hSetup hAfter hOwn hCompile').2⟩

/-- What each adversarial setup compiles to, on the connection `c`, with the
session `k` and `n` actions before it: how it departs from a conforming one. -/
inductive Departs (S : Sv2) (role : Nat) (protocol : Protocol) (c k n : Nat) :
    SetupViolation → List Action → List (Nat × List ClientViolation) →
      List (Nat × SetupConnectionSpec) → Prop
  | emptyVersionRange {minVersion maxVersion : UInt16} {flags : UInt32} :
      maxVersion < minVersion → Defined protocol flags →
      Departs S role protocol c k n .emptyVersionRange
        (.connect c role :: setupActions S c k { protocol, minVersion, maxVersion, flags } true)
        [] [(k, { protocol, minVersion, maxVersion, flags })]
  | unknownVersion {minVersion maxVersion : UInt16} {flags : UInt32} :
      minVersion ≤ maxVersion → ¬ (minVersion ≤ 2 ∧ 2 ≤ maxVersion) → Defined protocol flags →
      Departs S role protocol c k n .unknownVersion
        (.connect c role :: setupActions S c k { protocol, minVersion, maxVersion, flags } true)
        [] [(k, { protocol, minVersion, maxVersion, flags })]
  | undefinedFlags {flags : UInt32} : ¬ Defined protocol flags →
      Departs S role protocol c k n .undefinedFlags
        (.connect c role ::
          setupActions S c k { protocol, minVersion := 2, maxVersion := 2, flags } true)
        [] [(k, { protocol, minVersion := 2, maxVersion := 2, flags })]
  | afterRawFrame (messageType : UInt8) (bytes : List UInt8) {flags : UInt32} :
      Defined protocol flags →
      Departs S role protocol c k n .afterRawFrame
        (.connect c role :: .send c 0 messageType false bytes ::
          setupActions S c k { protocol, minVersion := 2, maxVersion := 2, flags } false)
        [(n + 3, [.setupNotFirst, .rawFrameBefore])]
        [(k, { protocol, minVersion := 2, maxVersion := 2, flags })]
  | secondSetup {flags : UInt32} : Defined protocol flags →
      Departs S role protocol c k n .secondSetup
        (.connect c role ::
          (setupActions S c k { protocol, minVersion := 2, maxVersion := 2, flags } true ++
            setupActions S c (k + 1) { protocol, minVersion := 2, maxVersion := 2, flags } false))
        [(n + 4, [.setupNotFirst])]
        [(k + 1, { protocol, minVersion := 2, maxVersion := 2, flags }),
          (k, { protocol, minVersion := 2, maxVersion := 2, flags })]

theorem SetupOn.counts {v n : Nat} {minVersion maxVersion : UInt16} {flags : UInt32}
    (h : SetupOn v protocol minVersion maxVersion flags n l) : sends l = 1 ∧ actionCount l = 2 := by
  obtain ⟨endpoint, deviceInfo, rfl⟩ := h
  -- all of it but the send is quiet
  obtain ⟨-, hSends, hActions⟩ := counts_quiet []
    (buildFragment_quiet endpoint deviceInfo protocol minVersion maxVersion flags n)
  rw [setupFragment_eq, sends_snoc, actionCount_snoc]
  rw [List.nil_append] at hSends hActions
  rw [hSends, hActions]
  exact ⟨rfl, rfl⟩

/-- **An adversarial setup departs as it is named**, and in nothing else. -/
theorem gains_adversarial (hS : S.Lawful) {violation : SetupViolation} (hTyped : WellTyped ctx is)
    (hFragment : AdversarialFragment role protocol (definitions is).length violation l)
    (hAfter : WellTyped ctx (is ++ l)) (hCompile : Compiler.compile S ⟨ctx, is⟩ = .ok c) :
    ∃ actions notes setups,
      Departs S role protocol (ctx.numConnections + connects is) (sends is) (actionCount is)
        violation actions notes setups ∧
      Gains S ctx c (is ++ l) actions notes setups := by
  cases hFragment with
  | emptyVersionRange hFlags hSetup =>
    exact ⟨_, _, _, .emptyVersionRange (by decide) hFlags,
      (gains_ownSetup hS hTyped hSetup hAfter hCompile).1⟩
  | @unknownVersion version _ _ hVersion hFlags hSetup =>
    have hUnknown : ¬ (version ≤ 2 ∧ 2 ≤ version) := by
      simp only [List.mem_cons, List.not_mem_nil, or_false] at hVersion
      rcases hVersion with rfl | rfl | rfl | rfl <;> decide
    exact ⟨_, _, _, .unknownVersion (UInt16.le_refl version) hUnknown hFlags,
      (gains_ownSetup hS hTyped hSetup hAfter hCompile).1⟩
  | undefinedFlags hFlags hSetup =>
    exact ⟨_, _, _, .undefinedFlags hFlags, (gains_ownSetup hS hTyped hSetup hAfter hCompile).1⟩
  | @afterRawFrame messageType _ l hFlags hSetup =>
    refine ⟨_, _, _, .afterRawFrame messageType (List.replicate 6 0) hFlags, ?_⟩
    -- the connection, the frame, and the setup behind it
    set opening := connectionFragment role (definitions is).length with hOpening
    set frame : List Instruction := [⟨[], .loadBytes (List.replicate 6 0)⟩,
      ⟨[(definitions is).length + 1, (definitions is).length + 2], .sendRawFrame messageType 0⟩]
      with hFrame
    have hSplit : is ++ (opening ++ frame ++ l) = is ++ opening ++ frame ++ l := by simp
    rw [hSplit] at hAfter ⊢
    have hBalanced : Balanced (brackets (is ++ opening)) := by
      rw [brackets_append]
      exact hTyped.balanced.append (connectionFragment_balanced _ _)
    have hFramed : WellTyped ctx (is ++ opening ++ frame) := by
      refine hAfter.instructions.front ?_
      rw [brackets_append]
      exact hBalanced.append (balanced_iff_openStack.mpr rfl)
    have hConnected : WellTyped ctx (is ++ opening) := hFramed.instructions.front hBalanced
    have hLength : (definitions (is ++ opening)).length = (definitions is).length + 2 := by
      rw [length_definitions_append]
      rfl
    have hLength' : (definitions (is ++ opening ++ frame)).length = (definitions is).length + 3 := by
      rw [length_definitions_append, hLength]
      rfl
    have hCounts : sends (is ++ opening ++ frame) = sends is ∧
        actionCount (is ++ opening ++ frame) = actionCount is + 2 := by
      simp only [sends, actionCount, total_append]
      exact ⟨rfl, rfl⟩
    rw [← hLength] at hFrame
    rw [← hLength'] at hSetup
    obtain ⟨⟨c₁, hCompile₁, hAdds₁⟩, hOwn₁⟩ := gains_connection hS hTyped hConnected hCompile
    have hRaw := gains_rawFrame hS hConnected (hFrame ▸ hFramed) hOwn₁ hCompile₁
    rw [← hFrame] at hRaw
    obtain ⟨⟨c₂, hCompile₂, hAdds₂⟩, hOwn₂⟩ := hRaw
    have hLast := (gains_setup hS hFramed hSetup hAfter hOwn₂ hCompile₂).1
    rw [hCounts.1, hCounts.2] at hLast
    obtain ⟨c₃, hCompile₃, hAdds₃⟩ := hLast
    exact ⟨c₃, hCompile₃, (hAdds₁.trans hAdds₂).trans hAdds₃⟩
  | @secondSetup _ l l' hFlags hSetup hSetup' =>
    refine ⟨_, _, _, .secondSetup hFlags, ?_⟩
    set opening := connectionFragment role (definitions is).length with hOpening
    have hSplit : is ++ (opening ++ l ++ l') = is ++ (opening ++ l) ++ l' := by simp
    rw [hSplit] at hAfter ⊢
    have hFirst : WellTyped ctx (is ++ (opening ++ l)) := by
      refine hAfter.instructions.front ?_
      rw [brackets_append, brackets_append]
      exact hTyped.balanced.append ((connectionFragment_balanced _ _).append hSetup.balanced)
    have hLength : (definitions (is ++ (opening ++ l))).length =
        (definitions is).length + 2 + (l.map fun i => i.operation.numDefined).sum := by
      rw [length_definitions_append, List.map_append, List.sum_append, ← Nat.add_assoc]
      rfl
    have hCounts : sends (is ++ (opening ++ l)) = sends is + 1 ∧
        actionCount (is ++ (opening ++ l)) = actionCount is + 3 := by
      obtain ⟨hSends, hActions⟩ := hSetup.counts
      rw [sends] at hSends ⊢
      rw [actionCount] at hActions ⊢
      rw [total_append, total_append, total_append, total_append, hSends, hActions]
      exact ⟨rfl, rfl⟩
    rw [← hLength] at hSetup'
    obtain ⟨⟨c₁, hCompile₁, hAdds₁⟩, hOwn₁⟩ := gains_ownSetup hS hTyped hSetup hFirst hCompile
    have hLast := (gains_setup hS hFirst hSetup' hAfter hOwn₁ hCompile₁).1
    rw [hCounts.1, hCounts.2] at hLast
    obtain ⟨c₂, hCompile₂, hAdds₂⟩ := hLast
    exact ⟨c₂, hCompile₂, hAdds₁.trans hAdds₂⟩

/-- **A conforming setup** is compiled to one connect, one send and one await. -/
theorem gains_conforming (hS : S.Lawful) (hTyped : WellTyped ctx is)
    (hFragment : ConformingFragment role protocol (definitions is).length l)
    (hAfter : WellTyped ctx (is ++ l)) (hCompile : Compiler.compile S ⟨ctx, is⟩ = .ok c) :
    ∃ flags, Defined protocol flags ∧ Gains S ctx c (is ++ l)
      (.connect (ctx.numConnections + connects is) role ::
        setupActions S (ctx.numConnections + connects is) (sends is)
          { protocol, minVersion := 2, maxVersion := 2, flags } true)
      [] [(sends is, { protocol, minVersion := 2, maxVersion := 2, flags })] := by
  obtain ⟨hFlags, hSetup⟩ := hFragment
  exact ⟨_, hFlags, (gains_ownSetup hS hTyped hSetup hAfter hCompile).1⟩

end Fresh

/-! ## Fragments of their own -/

theorem Detached.append {n : Nat} {l' : List Instruction} (h : Detached n l) (h' : Detached n l') :
    Detached n (l ++ l') := by
  intro i hi
  rcases List.mem_append.mp hi with hi | hi
  · exact h i hi
  · exact h' i hi

theorem detached_connectionFragment (role n : Nat) : Detached n (connectionFragment role n) := by
  simp [Detached, connectionFragment]

theorem SetupOn.detached {v n m : Nat} {protocol : Protocol} {minVersion maxVersion : UInt16}
    {flags : UInt32} (h : SetupOn v protocol minVersion maxVersion flags m l) (hv : n ≤ v)
    (hm : n ≤ m) : Detached n l := by
  obtain ⟨endpoint, deviceInfo, rfl⟩ := h
  cases endpoint <;> cases deviceInfo <;>
    simp [Detached, setupFragment, messageFragment, endpointFragment, deviceInfoFragment,
      sendFragment] <;> omega

/-- What the generators append for a connection of its own. -/
inductive FreshFragment (n : Nat) (l : List Instruction) : Prop
  | conforming {role : Nat} {protocol : Protocol} : ConformingFragment role protocol n l →
      FreshFragment n l
  | adversarial {role : Nat} {protocol : Protocol} {violation : SetupViolation} :
      AdversarialFragment role protocol n violation l → FreshFragment n l

theorem FreshFragment.detached {n : Nat} (h : FreshFragment n l) : Detached n l := by
  have hOpening : ∀ role, Detached n (connectionFragment role n) := fun role =>
    detached_connectionFragment role n
  rcases h with ⟨-, hSetup⟩ | hFragment
  · exact (hOpening _).append (hSetup.detached (by omega) (by omega))
  cases hFragment with
  | emptyVersionRange _ hSetup => exact (hOpening _).append (hSetup.detached (by omega) (by omega))
  | unknownVersion _ _ hSetup => exact (hOpening _).append (hSetup.detached (by omega) (by omega))
  | undefinedFlags _ hSetup => exact (hOpening _).append (hSetup.detached (by omega) (by omega))
  | afterRawFrame _ _ hSetup =>
    refine ((hOpening _).append ?_).append (hSetup.detached (by omega) (by omega))
    simp [Detached]
  | secondSetup _ hSetup hSetup' =>
    exact ((hOpening _).append (hSetup.detached (by omega) (by omega))).append
      (hSetup'.detached (by omega) (by omega))

/-- A fragment of its own compiles behind whatever compiles. -/
theorem FreshFragment.compiles (hS : S.Lawful) (hTyped : WellTyped ctx is)
    (h : FreshFragment (definitions is).length l) (hAfter : WellTyped ctx (is ++ l))
    {c : CompiledProgram} (hCompile : Compiler.compile S ⟨ctx, is⟩ = .ok c) :
    ∃ c', Compiler.compile S ⟨ctx, is ++ l⟩ = .ok c' := by
  rcases h with hFragment | hFragment
  · obtain ⟨flags, -, c', hCompile', -⟩ := gains_conforming hS hTyped hFragment hAfter hCompile
    exact ⟨c', hCompile'⟩
  · obtain ⟨-, -, -, -, c', hCompile', -⟩ := gains_adversarial hS hTyped hFragment hAfter hCompile
    exact ⟨c', hCompile'⟩

/-! ## A setup appended to a program -/

section Appended

variable {ρ : Type} {c : CompiledProgram}

/-- What a generator has made of the builder `b`, whose program compiles to
`first`: no block more is open, and what is built is a program that has gained
the actions, the notes and the setups, and nothing else. -/
structure Appended (S : Sv2) (b : ProgramBuilder) (first : CompiledProgram)
    (out : Except ProgramValidationError Unit × ProgramBuilder) (actions : List Action)
    (notes : List (Nat × List ClientViolation)) (setups : List (Nat × SetupConnectionSpec)) :
    Prop where
  succeeds : out.1 = .ok ()
  scopes : out.2.activeScopes = b.activeScopes
  scopesSet : out.2.activeScopesSet = b.activeScopesSet
  compiles : ∃ q whole, out.2.finalize = .ok (.ok q) ∧ q.isStaticallyValid = .ok true ∧
    Compiler.compile S q = .ok whole ∧ Adds first whole actions notes setups ∧
    ∀ a < first.actions.length,
      whole.metadata.violations.lookup a = first.metadata.violations.lookup a

theorem appended {notes : List (Nat × List ClientViolation)} {actions : List Action}
    {setups : List (Nat × SetupConnectionSpec)} (hB : Building ctx (is ++ l) [])
    (hGains : Gains S ctx c (is ++ l) actions notes setups)
    (hNotes : ∀ a < c.actions.length, notes.lookup a = none) :
    Appended S (builderAt ctx is []) c (.ok (), builderAt ctx (is ++ l) []) actions notes setups := by
  obtain ⟨whole, hCompile, hAdds⟩ := hGains
  refine ⟨rfl, rfl, rfl, ⟨ctx, is ++ l⟩, whole, rfl, ?_, hCompile, hAdds, fun a ha => ?_⟩
  · exact isStaticallyValid_iff.mpr ⟨balanced_iff_openStack.mpr hB.stack, hB.typed⟩
  · rw [hAdds.violations, hNotes a ha, Option.none_or]

/-- A departure is noted of the setup that departs, behind what was there. -/
theorem Departs.lookup_notes {role : Nat} {protocol : Protocol} {k n d a : Nat}
    {violation : SetupViolation} {actions : List Action}
    {notes : List (Nat × List ClientViolation)} {setups : List (Nat × SetupConnectionSpec)}
    (h : Departs S role protocol d k n violation actions notes setups) (ha : a < n) :
    notes.lookup a = none := by
  have hNone : ∀ (m : Nat) (violations : List ClientViolation), n ≤ m →
      List.lookup a [(m, violations)] = none := by
    intro m violations hm
    rw [List.lookup_cons, beq_eq_false_iff_ne.mpr (by omega)]
    rfl
  cases h with
  | emptyVersionRange => rfl
  | unknownVersion => rfl
  | undefinedFlags => rfl
  | afterRawFrame => exact hNone _ _ (Nat.le_add_right ..)
  | secondSetup => exact hNone _ _ (Nat.le_add_right ..)

/-- **A setup can be appended to every program that compiles**, on a connection
of its own to a role that is there. A conforming one adds one connect, one send
and one await, the first on its connection, with the current version and flags
that are defined, and is not noted to violate anything; an adversarial one
departs from this as it is named, and in nothing else. The program's own setups
are classified as before. -/
theorem setup_generators_append (hS : S.Lawful) (rng : RngExt ρ) {p : Program}
    {first : CompiledProgram} (hValid : p.isStaticallyValid = .ok true)
    (hCompile : Compiler.compile S p = .ok first) {role : Nat} (hRole : role < p.context.numRoles)
    (asked : Option Protocol) :
    ∃ b, ProgramBuilder.fromPrefix p.context p.instructions = .ok (.ok b) ∧
      Ensures (SetupConnectionGenerator.generate rng ⟨role, asked, .fresh⟩ b) (fun out =>
        ∃ protocol flags, Chosen asked protocol ∧ Defined protocol flags ∧
          Appended S b first out
            (.connect (p.context.numConnections + connects p.instructions) role ::
              setupActions S (p.context.numConnections + connects p.instructions)
                (sends p.instructions) { protocol, minVersion := 2, maxVersion := 2, flags } true)
            [] [(sends p.instructions, { protocol, minVersion := 2, maxVersion := 2, flags })]) ∧
      ∀ violation,
        Ensures (AdversarialSetupGenerator.generate rng ⟨role, asked, violation⟩ b) fun out =>
          ∃ protocol actions notes setups, Chosen asked protocol ∧
            Departs S role protocol (p.context.numConnections + connects p.instructions)
              (sends p.instructions) first.actions.length violation actions notes setups ∧
            Appended S b first out actions notes setups := by
  obtain ⟨ctx, is⟩ := p
  have hTyped : WellTyped ctx is := isStaticallyValid_iff.mp hValid
  have hB : Building ctx is [] := ⟨balanced_iff_openStack.mp hTyped.balanced, hTyped.instructions⟩
  -- the notes of the appended part are keyed by actions, so they are counted from here
  obtain ⟨hActions, -⟩ := compiled_of_typed hS hTyped hCompile
  have hCount : first.actions.length = actionCount is := by
    rw [hActions, length_actionsOf]
  have hRole' : ¬ ctx.numRoles ≤ role := Nat.not_le.mpr hRole
  refine ⟨builderAt ctx is [], hB.fromPrefix, ?_, fun violation => ?_⟩
  · refine Ensures.mono (SetupConnectionGenerator.builds_generate rng hB ⟨role, asked, .fresh⟩) ?_
    rintro out (⟨hMissing, -⟩ | ⟨⟨⟩, is', s', rfl, hB', rfl, opening, l, d, protocol, flags,
      hProtocol, hFlags, hOpening, hSetup, rfl⟩)
    · exact absurd hMissing hRole'
    · -- a fresh connection was asked for
      rcases hOpening with ⟨hReused, -⟩ | ⟨rfl, rfl⟩
      · exact absurd rfl hReused
      · have hAfter : WellTyped ctx (is ++ connectionFragment role (definitions is).length ++ l) :=
          ⟨balanced_iff_openStack.mpr hB'.stack, hB'.typed⟩
        rw [List.append_assoc] at hAfter hB' ⊢
        rw [length_definitions_append] at hSetup
        have hGains := (gains_ownSetup hS hTyped hSetup hAfter hCompile).1
        exact ⟨protocol, flags, hProtocol, hFlags, appended hB' hGains fun _ _ => rfl⟩
  · refine Ensures.mono (AdversarialSetupGenerator.builds_generate rng hB ⟨role, asked, violation⟩)
      ?_
    rintro out (⟨hMissing, -⟩ | ⟨⟨⟩, is', s', rfl, hB', rfl, protocol, l, hProtocol, hFragment, rfl⟩)
    · exact absurd hMissing hRole'
    · have hAfter : WellTyped ctx (is ++ l) :=
        ⟨balanced_iff_openStack.mpr hB'.stack, hB'.typed⟩
      obtain ⟨actions, notes, setups, hDeparts, hGains⟩ :=
        gains_adversarial hS hTyped hFragment hAfter hCompile
      rw [← hCount] at hDeparts
      exact ⟨protocol, actions, notes, setups, hProtocol, hDeparts,
        appended hB' hGains fun a ha => hDeparts.lookup_notes ha⟩

theorem setup_generators_append_singleSetup : ∃ b first,
    ProgramBuilder.fromPrefix singleSetup.context singleSetup.instructions = .ok (.ok b) ∧
    Compiler.compile Sv2.wire singleSetup = .ok first ∧
    Ensures (AdversarialSetupGenerator.generate lowest ⟨0, some .mining, .secondSetup⟩ b) fun out =>
      ∃ protocol actions notes setups, Chosen (some .mining) protocol ∧
        Departs Sv2.wire 0 protocol 1 1 6 .secondSetup actions notes setups ∧
        Appended Sv2.wire b first out actions notes setups := by
  obtain ⟨first, hCompile, hLength⟩ : ∃ first,
      Compiler.compile Sv2.wire singleSetup = .ok first ∧ first.actions.length = 6 := ⟨_, rfl, rfl⟩
  have hRole : 0 < singleSetup.context.numRoles := by decide
  obtain ⟨b, hBuilder, -, hAdversarial⟩ := setup_generators_append Sv2.wire_lawful lowest
    (p := singleSetup) (by decide) hCompile hRole (some .mining)
  refine ⟨b, first, hBuilder, hCompile, ?_⟩
  rw [hLength] at hAdversarial
  exact hAdversarial .secondSetup

end Appended

end Stratamoto
