import Stratamoto.IR.Appending

/-!
# Stratamoto — the fuzzer's generating mutator

`IrGenerator` of the fuzzer's `mutators.rs`: a fragment is generated at a random
point outside of any block, and the rest of the program renumbered behind it.
The candidate is kept if it is acceptable.

* `mem_insertionPoints` — the points are those where no block is open;
* `InsertedAt p n l q` — `q` is `p` with the fragment `l` at `n`;
* `irGenerator_inserts` — what a mutation makes of a valid program.
-/

namespace Stratamoto

open Brackets Operation Draws Marks

/-! ## `mutators.rs` -/

inductive MutationResult where
  | mutated
  | skipped
  deriving DecidableEq, Repr

/-- Instruction limit for mutated programs. -/
def maxInstructions : Nat := 4096

def acceptable (p : Program) : Except Panic Bool :=
  if p.instructions.length ≤ maxInstructions then p.isStaticallyValid else pure false

/-- The depth after an instruction, which does not fall below zero, and the
points found so far. -/
def scanPoint (s : Nat × List Nat) (q : Instruction × Nat) : Nat × List Nat :=
  let depth :=
    if q.1.operation.isBlockBegin then s.1 + 1
    else if q.1.operation.isBlockEnd then s.1 - 1
    else s.1
  (depth, if depth = 0 then s.2 ++ [q.2 + 1] else s.2)

/-- The points outside any block. -/
def insertionPoints (is : List Instruction) : List Nat :=
  (is.zipIdx.foldl scanPoint (0, [0])).2

section Fuzzer

variable {ρ : Type} (rng : RngExt ρ)

/-- The program with a fragment generated at `index`, if it can be. -/
def IrGenerator.candidate (generate : Gen ρ Unit) (p : Program) (index : Nat) :
    Draw Panic ρ (Option Program) := do
  match ← Draw.lift (ProgramBuilder.fromPrefix p.context (p.instructions.take index)) with
  | .error _ => pure none
  | .ok builder =>
    let before := builder.variableCount
    let (result, builder) ← generate builder
    match result with
    | .error _ => pure none
    | .ok () =>
      let added ← Draw.lift (checkedSub builder.variableCount before)
      -- the inputs of the rest at or past the insertion point move up
      let rest := (p.instructions.drop index).map (Instruction.moveUp before added)
      pure (some ⟨p.context, builder.instructions ++ rest⟩)

def IrGenerator.mutate (generate : Gen ρ Unit) (p : Program) :
    Draw Panic ρ (MutationResult × Program) := do
  let points := insertionPoints p.instructions
  match points[← rng.randomRange emptyRange 64 0 points.length]? with
  | none => Draw.lift (.error .indexOutOfBounds)
  | some index =>
    match ← IrGenerator.candidate generate p index with
    | none => pure (.skipped, p)
    | some candidate =>
      if ← Draw.lift (acceptable candidate) then pure (.mutated, candidate)
      else pure (.skipped, p)

/-- A role of the deployment. -/
def anyRole (numRoles : Nat) : Draw Panic ρ Nat :=
  rng.randomRange emptyRange 64 0 (max numRoles 1)

/-- A conforming setup to a role drawn at random from the deployment. -/
structure AnyRoleSetup where
  numRoles : Nat
  deriving DecidableEq, Repr

def AnyRoleSetup.generate (g : AnyRoleSetup) : Gen ρ Unit := do
  let role ← Gen.draw (anyRole rng g.numRoles)
  (SetupConnectionGenerator.new role).generate rng

/-- A setup that violates one constraint, drawn at random, to a role drawn at random. -/
structure AnyRoleAdversarialSetup where
  numRoles : Nat
  deriving DecidableEq, Repr

def AnyRoleAdversarialSetup.generate (g : AnyRoleAdversarialSetup) : Gen ρ Unit := do
  let role ← Gen.draw (anyRole rng g.numRoles)
  let violation ← Gen.draw (SetupViolation.any rng)
  AdversarialSetupGenerator.generate rng ⟨role, none, violation⟩

/-- A raw frame on some connection, opened to a role drawn at random if there is none. -/
structure AnyRoleRawFrame where
  numRoles : Nat
  deriving DecidableEq, Repr

def AnyRoleRawFrame.generate (g : AnyRoleRawFrame) : Gen ρ Unit := do
  let role ← Gen.draw (anyRole rng g.numRoles)
  RawFrameGenerator.generate rng ⟨role⟩

/-- The generators there are: those of the IR, and those the fuzzer inserts with. -/
inductive FuzzGenerator where
  | ir (g : AnyGenerator)
  | anyRoleSetup (g : AnyRoleSetup)
  | anyRoleAdversarialSetup (g : AnyRoleAdversarialSetup)
  | anyRoleRawFrame (g : AnyRoleRawFrame)

def FuzzGenerator.generate : FuzzGenerator → Gen ρ Unit
  | .ir g => g.generate rng
  | .anyRoleSetup g => g.generate rng
  | .anyRoleAdversarialSetup g => g.generate rng
  | .anyRoleRawFrame g => g.generate rng

/-- The setups, conforming and adversarial, on a connection of their own. -/
def FuzzGenerator.isFresh : FuzzGenerator → Bool
  | .ir (.setupConnection g) => g.connection = .fresh
  | .ir (.adversarialSetup _) | .anyRoleSetup _ | .anyRoleAdversarialSetup _ => true
  | .ir (.rawFrame _) | .anyRoleRawFrame _ => false

end Fuzzer

/-! ## The points -/

/-- The scan knows how many blocks are open, and has found the points where none is. -/
theorem scanPoints_spec {is : List Instruction} {s : List (Nat × BlockKind)}
    (hs : openStack (brackets is) = some s) :
    (is.zipIdx.foldl scanPoint (0, [0])).1 = s.length ∧
      ∀ n, n ∈ (is.zipIdx.foldl scanPoint (0, [0])).2 ↔
        n ≤ is.length ∧ openStack (brackets (is.take n)) = some [] := by
  induction is using List.reverseRecOn generalizing s with
  | nil =>
    obtain rfl := Option.some.inj hs
    refine ⟨rfl, fun n => ?_⟩
    simp only [List.zipIdx_nil, List.foldl_nil, List.mem_singleton, List.length_nil, Nat.le_zero,
      List.take_nil]
    exact ⟨fun hn => ⟨hn, rfl⟩, fun hn => hn.1⟩
  | append_singleton is i ih =>
    have hSplit := hs
    rw [brackets_append, brackets_singleton, openStack_snoc] at hSplit
    obtain ⟨t, ht, hStep⟩ := Option.bind_eq_some_iff.mp hSplit
    obtain ⟨hDepth, hPoints⟩ := ih ht
    set scanned := is.zipIdx.foldl scanPoint (0, [0]) with hScanned
    have hLast : (is ++ [i]).zipIdx.foldl scanPoint (0, [0]) = scanPoint scanned (i, is.length) := by
      rw [List.zipIdx_append, List.foldl_append, ← hScanned, Nat.zero_add]
      rfl
    -- the depth after the last instruction
    have hNew : (scanPoint scanned (i, is.length)).1 = s.length := by
      unfold scanPoint
      cases hb : i.operation.bracket with
      | plain =>
        rw [hb] at hStep
        obtain rfl := Option.some.inj hStep
        have hBegin : ¬ i.operation.isBlockBegin = true := fun h => by
          obtain ⟨k, hk⟩ := isBlockBegin_iff.mp h
          cases hk.symm.trans hb
        have hEnd : ¬ i.operation.isBlockEnd = true := fun h => by
          obtain ⟨k, hk⟩ := isBlockEnd_iff.mp h
          cases hk.symm.trans hb
        rw [if_neg hBegin, if_neg hEnd]
        exact hDepth
      | opening k =>
        rw [hb] at hStep
        obtain rfl := Option.some.inj hStep
        rw [if_pos (isBlockBegin_iff.mpr ⟨k, hb⟩), hDepth]
        rfl
      | closing k =>
        have hBegin : ¬ i.operation.isBlockBegin = true := fun h => by
          obtain ⟨k', hk'⟩ := isBlockBegin_iff.mp h
          cases hk'.symm.trans hb
        rw [hb] at hStep
        cases t with
        | nil => cases hStep
        | cons q t =>
          simp only [step] at hStep
          split at hStep
          · obtain rfl := Option.some.inj hStep
            rw [if_neg hBegin, if_pos (isBlockEnd_iff.mpr ⟨k, hb⟩), hDepth]
            rfl
          · cases hStep
    rw [hLast]
    refine ⟨hNew, fun n => ?_⟩
    have hMem : n ∈ (scanPoint scanned (i, is.length)).2 ↔
        n ∈ scanned.2 ∨ (s.length = 0 ∧ n = is.length + 1) := by
      rw [← hNew]
      show n ∈ (if (scanPoint scanned (i, is.length)).1 = 0 then _ else _) ↔ _
      split <;> simp_all
    rw [hMem, hPoints, List.length_append, List.length_singleton]
    rcases Nat.lt_or_ge is.length n with hLt | hGe
    · constructor
      · rintro (⟨hLe, -⟩ | ⟨hZero, rfl⟩)
        · omega
        · obtain rfl := List.length_eq_zero_iff.mp hZero
          exact ⟨Nat.le_refl _, by rw [List.take_of_length_le (by simp)]; exact hs⟩
      · rintro ⟨hLe, hEmpty⟩
        obtain rfl : n = is.length + 1 := by omega
        rw [List.take_of_length_le (by simp), hs] at hEmpty
        obtain rfl := Option.some.inj hEmpty
        exact Or.inr ⟨rfl, rfl⟩
    · rw [List.take_append_of_le_length hGe]
      constructor
      · rintro (⟨-, hEmpty⟩ | ⟨-, rfl⟩)
        · exact ⟨by omega, hEmpty⟩
        · omega
      · rintro ⟨-, hEmpty⟩
        exact Or.inl ⟨hGe, hEmpty⟩

/-- **The points offered** are those where no block is open. -/
theorem mem_insertionPoints {ctx : ProgramContext} {is : List Instruction}
    (hTyped : WellTyped ctx is) {n : Nat} :
    n ∈ insertionPoints is ↔ n ≤ is.length ∧ openStack (brackets (is.take n)) = some [] :=
  (scanPoints_spec (balanced_iff_openStack.mp hTyped.balanced)).2 n

/-! ## The generators -/

section Specs

variable {ρ : Type} {ctx : ProgramContext} {is : List Instruction} {s : List (Nat × BlockKind)}

/-- The generator opens connections to a role that is not there, or may draw one. -/
def FuzzGenerator.MissesRole (ctx : ProgramContext) : FuzzGenerator → Prop
  | .ir g => ctx.numRoles ≤ g.role
  | .anyRoleSetup ⟨numRoles⟩ | .anyRoleAdversarialSetup ⟨numRoles⟩ | .anyRoleRawFrame ⟨numRoles⟩ =>
    ctx.numRoles < max numRoles 1

theorem ensures_anyRole (rng : RngExt ρ) (numRoles : Nat) :
    Ensures (anyRole rng numRoles) fun role => role < max numRoles 1 := by
  have hSome : 0 < max numRoles 1 := by omega
  exact (rng.ensures_randomRange emptyRange 64 hSome).mono fun _ hRole => hRole.2

/-- What a generator appends: a balanced fragment, and of its own where the
connection is. -/
def Appends (fresh : Bool) (is : List Instruction) (s : List (Nat × BlockKind)) (_ : Unit)
    (is' : List Instruction) (s' : List (Nat × BlockKind)) : Prop :=
  s' = s ∧ ∃ l, is' = is ++ l ∧ Balanced (brackets l) ∧
    (fresh = true → FreshFragment (definitions is).length l)

theorem SetupConnectionGenerator.appends (rng : RngExt ρ) (hB : Building ctx is s)
    (g : SetupConnectionGenerator) : Builds ctx (ctx.numRoles ≤ g.role) (g.generate rng) is s
      (Appends (g.connection = .fresh) is s) := by
  refine (SetupConnectionGenerator.builds_generate rng hB g).mono ?_
  rintro - is' s' ⟨hs, opening, l, c, protocol, flags, -, hFlags, hOpening, hSetup, rfl⟩
  refine ⟨hs, opening ++ l, List.append_assoc .., ?_, fun hFresh => ?_⟩
  · rw [brackets_append]
    refine Balanced.append ?_ hSetup.balanced
    rcases hOpening with ⟨-, rfl⟩ | ⟨rfl, -⟩
    · exact .nil
    · exact connectionFragment_balanced _ _
  · rcases hOpening with ⟨hReused, -⟩ | ⟨rfl, rfl⟩
    · exact absurd (of_decide_eq_true hFresh) hReused
    · rw [length_definitions_append] at hSetup
      exact .conforming (.mk hFlags hSetup)

theorem AdversarialSetupGenerator.appends (rng : RngExt ρ) (hB : Building ctx is s)
    (g : AdversarialSetupGenerator) :
    Builds ctx (ctx.numRoles ≤ g.role) (g.generate rng) is s (Appends true is s) := by
  refine (AdversarialSetupGenerator.builds_generate rng hB g).mono ?_
  rintro - is' s' ⟨hs, protocol, l, -, hFragment, rfl⟩
  exact ⟨hs, l, rfl, hFragment.balanced, fun _ => .adversarial hFragment⟩

theorem RawFrameGenerator.appends (rng : RngExt ρ) (hB : Building ctx is s)
    (g : RawFrameGenerator) :
    Builds ctx (ctx.numRoles ≤ g.role) (g.generate rng) is s (Appends false is s) := by
  refine (AnyGenerator.builds_generate rng hB (.rawFrame g)).mono ?_
  rintro - is' s' ⟨hs, l, rfl, hBalanced⟩
  exact ⟨hs, l, rfl, hBalanced, by rintro ⟨⟩⟩

/-- A generator for a role that is drawn. -/
theorem appends_anyRole (rng : RngExt ρ) (hB : Building ctx is s) (numRoles : Nat) {fresh : Bool}
    {generate : Nat → Gen ρ Unit} (h : ∀ role,
      Builds ctx (ctx.numRoles ≤ role) (generate role) is s (Appends fresh is s)) :
    Builds ctx (ctx.numRoles < max numRoles 1)
      (do let role ← Gen.draw (anyRole rng numRoles); generate role) is s (Appends fresh is s) :=
  Builds.drawn hB (ensures_anyRole rng numRoles) fun role hRole =>
    (h role).weaken fun hMissing => Nat.lt_of_le_of_lt hMissing hRole

/-- **Every generator appends a balanced fragment**; only a role that is not
there makes it fail. -/
theorem FuzzGenerator.appends (rng : RngExt ρ) (hB : Building ctx is s) (g : FuzzGenerator) :
    Builds ctx (g.MissesRole ctx) (g.generate rng) is s (Appends g.isFresh is s) := by
  -- the generators of the program, and those that draw a role
  cases g with
  | ir g =>
    cases g with
    | setupConnection g => exact g.appends rng hB
    | adversarialSetup g => exact g.appends rng hB
    | rawFrame g => exact g.appends rng hB
  | anyRoleSetup g =>
    exact appends_anyRole rng hB g.numRoles fun role =>
      (SetupConnectionGenerator.new role).appends rng hB
  | anyRoleAdversarialSetup g =>
    refine appends_anyRole rng hB g.numRoles fun role => ?_
    have hViolation : Ensures (SetupViolation.any rng) fun _ => True :=
      (ensures_chooseFrom rng (by simp [SetupViolation.all]) _).mono fun _ _ => trivial
    exact Builds.drawn hB hViolation fun violation _ =>
      AdversarialSetupGenerator.appends rng hB ⟨role, none, violation⟩
  | anyRoleRawFrame g =>
    exact appends_anyRole rng hB g.numRoles fun role => RawFrameGenerator.appends rng hB ⟨role⟩

end Specs

/-! ## The mutation -/

section Mutation

variable {ρ : Type} {p : Program}

/-- `q` is `p` with the fragment `l` at `n`: its instructions are all there, in
order, and every variable still names the output of the same instruction. -/
structure InsertedAt (p : Program) (n : Nat) (l : List Instruction) (q : Program) : Prop where
  valid : q.isStaticallyValid = .ok true
  context : q.context = p.context
  instructions : q.instructions = inserted (p.instructions.take n) l (p.instructions.drop n)
  original : ∀ (k : Nat) (i : Instruction), p.instructions[k]? = some i →
    ∃ inputs, q.instructions[positionUp (p.instructions.take n) l k]? = some { i with inputs } ∧
      inputs = i.inputs.map (varUp (p.instructions.take n) l)
  inOrder : ∀ j k, j < k →
    positionUp (p.instructions.take n) l j < positionUp (p.instructions.take n) l k
  names : ∀ (v : Nat) (d : Definition), (definitions p.instructions)[v]? = some d →
    (definitions q.instructions)[varUp (p.instructions.take n) l v]? =
      some { d with instruction := positionUp (p.instructions.take n) l d.instruction }

/-- The fragment is what the generator appends to the first `n` instructions, drawing from
`r` up to `r'`. -/
def FuzzGenerator.Generates (rng : RngExt ρ) (g : FuzzGenerator) (p : Program) (n : Nat)
    (l : List Instruction) (r r' : ρ) : Prop :=
  ∃ b b', ProgramBuilder.fromPrefix p.context (p.instructions.take n) = .ok (.ok b) ∧
    g.generate rng b r = some (.ok ((.ok (), b'), r')) ∧
    ProgramBuilder.fromPrefix p.context (p.instructions.take n ++ l) = .ok (.ok b')

/-- The fragment that the generator draws is put into `p` at `n`, and where it is of its
own, the program compiles to what it did, around the fragment. -/
def Inserts (S : Sv2) (rng : RngExt ρ) (g : FuzzGenerator) (p : Program) (n : Nat) (r r' : ρ)
    (q : Program) : Prop :=
  ∃ l, g.Generates rng p n l r r' ∧ InsertedAt p n l q ∧ (g.isFresh = true →
    ∀ before, Compiler.compile S p = .ok before → ∃ after, Compiler.compile S q = .ok after ∧
      CompiledInserted p.context (p.instructions.take n) l before after)

/-- The rest of the program, with its inputs moved up. -/
theorem insertedAt {n : Nat} {l : List Instruction} (hTyped : WellTyped p.context p.instructions)
    (hl : Balanced (brackets l))
    (hFragment : WellTypedPrefix p.context (p.instructions.take n ++ l)) :
    InsertedAt p n l ⟨p.context, inserted (p.instructions.take n) l (p.instructions.drop n)⟩ := by
  have hSplit : p.instructions.take n ++ p.instructions.drop n = p.instructions :=
    List.take_append_drop n p.instructions
  have hScoped : Scoped (p.instructions.take n ++ p.instructions.drop n) := by
    rw [hSplit]
    exact hTyped.instructions.scoped
  refine ⟨?_, rfl, rfl, fun k i hk => ⟨_, ?_, rfl⟩, fun j k hLt => moveUp_lt_moveUp hLt,
    fun v d hd => ?_⟩
  · refine isStaticallyValid_iff.mpr (wellTyped_inserted hl ?_ hFragment)
    rwa [hSplit]
  · exact getElem?_inserted hScoped (by rw [hSplit, hk])
  · exact definition_inserted hScoped (by rw [hSplit, hd])

/-- Behind the front of a program that compiles, a fragment of its own compiles,
and so does the whole. -/
theorem compiled_insertedAt {S : Sv2} (hS : S.Lawful) {n : Nat} {l : List Instruction}
    (hTyped : WellTyped p.context p.instructions) (hl : Balanced (brackets l))
    (hFront : Balanced (brackets (p.instructions.take n)))
    (hFragment : WellTypedPrefix p.context (p.instructions.take n ++ l))
    (hFresh : FreshFragment (definitions (p.instructions.take n)).length l)
    {before : CompiledProgram} (hBefore : Compiler.compile S p = .ok before) :
    ∃ after, Compiler.compile S
        ⟨p.context, inserted (p.instructions.take n) l (p.instructions.drop n)⟩ = .ok after ∧
      CompiledInserted p.context (p.instructions.take n) l before after := by
  obtain ⟨ctx, is⟩ := p
  have hSplit : is.take n ++ is.drop n = is := List.take_append_drop n is
  have hWhole : WellTyped ctx (is.take n ++ is.drop n) := by
    rw [hSplit]
    exact hTyped
  have hShort : NoneTooLong ctx (is.take n ++ is.drop n) := by
    rw [hSplit]
    exact noneTooLong_of_compile hS hTyped hBefore
  have hBefore' : Compiler.compile S ⟨ctx, is.take n ++ is.drop n⟩ = .ok before := by
    rw [hSplit]
    exact hBefore
  -- the front is a program, which compiles
  have hTypedFront : WellTyped ctx (is.take n) := ⟨hFront, hTyped.instructions.take n⟩
  have hTypedFragment : WellTyped ctx (is.take n ++ l) := by
    refine ⟨?_, hFragment⟩
    rw [brackets_append]
    exact hFront.append hl
  have hShortFront : NoneTooLong ctx (is.take n) := by
    intro k i v hi
    have hLt := (List.getElem?_eq_some_iff.mp hi).1
    have hAt := hShort k i v (by rw [List.getElem?_append_left hLt, hi])
    rwa [List.take_append_of_le_length (Nat.le_of_lt hLt)] at hAt
  obtain ⟨front, hCompileFront⟩ := (compile_ok_iff hS hTypedFront).mpr hShortFront
  obtain ⟨c', hCompileFragment⟩ :=
    hFresh.compiles hS hTypedFront hTypedFragment hCompileFront
  have hShortFragment := noneTooLong_of_compile hS hTypedFragment hCompileFragment
  have hInserted := wellTyped_inserted hl hWhole hFragment
  obtain ⟨after, hAfter⟩ := compile_inserted hS hl hWhole hInserted hFresh.detached hShort
    hShortFragment
  exact ⟨after, hAfter, compiled_inserted hS hl hWhole hInserted hFresh.detached hBefore' hAfter⟩

/-- **The candidate** is the program with the generator's fragment at the point; it is only
missing where the generator may fail. -/
theorem IrGenerator.candidate_inserts {S : Sv2} (hS : S.Lawful) (rng : RngExt ρ)
    (hTyped : WellTyped p.context p.instructions) (g : FuzzGenerator) {n : Nat}
    (hn : n ∈ insertionPoints p.instructions) (r : ρ) :
    ∃ out r', IrGenerator.candidate (g.generate rng) p n r = some (.ok (out, r')) ∧
      (out = none → g.MissesRole p.context) ∧
      ∀ q, out = some q → Inserts S rng g p n r r' q := by
  obtain ⟨-, hEmpty⟩ := (mem_insertionPoints hTyped).mp hn
  have hB : Building p.context (p.instructions.take n) [] :=
    ⟨hEmpty, hTyped.instructions.take n⟩
  obtain ⟨⟨result, builder⟩, r', hRun, hResult⟩ := g.appends rng hB r
  have hFront : (Draw.lift (ProgramBuilder.fromPrefix p.context (p.instructions.take n)) :
      Draw Panic ρ _) r = some (.ok (.ok (builderAt p.context (p.instructions.take n) []), r)) := by
    rw [hB.fromPrefix]
    rfl
  unfold IrGenerator.candidate
  rw [Draw.bind_eq _ hFront]
  dsimp only
  rw [Draw.bind_eq _ hRun]
  rcases hResult with ⟨hMisses, e, hError⟩ | ⟨⟨⟩, is', s', hOk, hB', hs, l, rfl, hl, hFresh⟩
  · obtain rfl : result = .error e := hError
    exact ⟨none, r', rfl, fun _ => hMisses, by rintro q ⟨⟩⟩
  · obtain ⟨rfl, rfl⟩ := Prod.mk.inj hOk
    subst hs
    -- the builder has as many variables more as the fragment defines
    have hCount : ∀ is s, (builderAt p.context is s).variableCount = (definitions is).length :=
      fun is s => List.length_map _
    have hAdded : checkedSub
        (builderAt p.context (p.instructions.take n ++ l) []).variableCount
        (builderAt p.context (p.instructions.take n) []).variableCount =
          .ok (total Operation.numDefined l) := by
      rw [hCount, hCount, length_definitions_append, checkedSub_ok (Nat.le_add_right ..),
        Nat.add_sub_cancel_left]
      rfl
    have hLifted : (Draw.lift (checkedSub
        (builderAt p.context (p.instructions.take n ++ l) []).variableCount
        (builderAt p.context (p.instructions.take n) []).variableCount) : Draw Panic ρ Nat) r' =
          some (.ok (total Operation.numDefined l, r')) := by
      rw [hAdded]
      rfl
    refine ⟨some ⟨p.context, inserted (p.instructions.take n) l (p.instructions.drop n)⟩, r', ?_,
      by rintro ⟨⟩, ?_⟩
    · dsimp only
      rw [Draw.bind_eq _ hLifted, hCount]
      rfl
    · intro q hq
      obtain rfl := Option.some.inj hq
      exact ⟨l, ⟨_, _, hB.fromPrefix, hRun, hB'.fromPrefix⟩, insertedAt hTyped hl hB'.typed,
        fun hIsFresh before hBefore => compiled_insertedAt hS hTyped hl
          (balanced_iff_openStack.mpr hEmpty) hB'.typed (hFresh hIsFresh) hBefore⟩

theorem acceptable_of_valid {q : Program} (h : q.isStaticallyValid = .ok true) :
    acceptable q = .ok (decide (q.instructions.length ≤ maxInstructions)) := by
  unfold acceptable
  split
  · rename_i hShort
    rw [h, decide_eq_true hShort]
  · rename_i hLong
    rw [decide_eq_false hLong]
    rfl

/-- **A fragment is inserted between the blocks of a program** and nowhere else,
and what was there goes on meaning what it did: the points offered are those
where no block is open; at each of them a candidate is missing only where the
generator fails, and is otherwise valid, with the fragment in it that the generator
appends to what is in front of the point; and a mutation draws one of the points and
either makes such a candidate of the program or skips, and leaves it as it is. -/
theorem irGenerator_inserts {S : Sv2} (hS : S.Lawful) (rng : RngExt ρ)
    (hValid : p.isStaticallyValid = .ok true) (g : FuzzGenerator) :
    (∀ n, n ∈ insertionPoints p.instructions ↔ n ≤ p.instructions.length ∧
      openStack (brackets (p.instructions.take n)) = some []) ∧
    (∀ n ∈ insertionPoints p.instructions, ∀ r, ∃ out r',
      IrGenerator.candidate (g.generate rng) p n r = some (.ok (out, r')) ∧
        (out = none → g.MissesRole p.context) ∧
        ∀ q, out = some q → Inserts S rng g p n r r' q) ∧
    ∀ r, ∃ k n r₁ out r₂, rng.randomRange emptyRange 64 0 (insertionPoints p.instructions).length r =
        some (.ok (k, r₁)) ∧ (insertionPoints p.instructions)[k]? = some n ∧
      IrGenerator.mutate rng (g.generate rng) p r = some (.ok (out, r₂)) ∧
      ((out.1 = .skipped ∧ out.2 = p) ∨
        (out.1 = .mutated ∧ out.2.instructions.length ≤ maxInstructions ∧
          Inserts S rng g p n r₁ r₂ out.2)) := by
  have hTyped := isStaticallyValid_iff.mp hValid
  refine ⟨fun n => mem_insertionPoints hTyped,
    fun n hn => IrGenerator.candidate_inserts hS rng hTyped g hn, fun r => ?_⟩
  -- there is a point to draw: nothing is open at the start
  have hZero : 0 ∈ insertionPoints p.instructions :=
    (mem_insertionPoints hTyped).mpr ⟨Nat.zero_le _, rfl⟩
  obtain ⟨k, r₁, hIndex, hk⟩ :=
    rng.ensures_randomRange emptyRange 64 (List.length_pos_of_mem hZero) r
  obtain ⟨n, hAt⟩ : ∃ n, (insertionPoints p.instructions)[k]? = some n :=
    ⟨_, List.getElem?_eq_getElem hk.2⟩
  obtain ⟨out, r₂, hCandidate, -, hInserts⟩ :=
    IrGenerator.candidate_inserts hS rng hTyped g (List.mem_of_getElem? hAt) r₁
  refine ⟨k, n, r₁, ?_⟩
  unfold IrGenerator.mutate
  rw [Draw.bind_eq _ hIndex, hAt]
  dsimp only
  rw [Draw.bind_eq _ hCandidate]
  cases out with
  | none => exact ⟨_, r₂, hIndex, rfl, rfl, Or.inl ⟨rfl, rfl⟩⟩
  | some q =>
    -- what was inserted is valid, so only the limit on the length can refuse it
    obtain ⟨l, hGenerates, hInserted, hCompiled⟩ := hInserts q rfl
    have hAccepted : (Draw.lift (acceptable q) : Draw Panic ρ Bool) r₂ =
        some (.ok (decide (q.instructions.length ≤ maxInstructions), r₂)) := by
      rw [acceptable_of_valid hInserted.valid]
      rfl
    dsimp only
    rw [Draw.bind_eq _ hAccepted]
    by_cases hShort : q.instructions.length ≤ maxInstructions
    · rw [if_pos (decide_eq_true hShort)]
      exact ⟨_, r₂, hIndex, rfl, rfl, Or.inr ⟨rfl, hShort, l, hGenerates, hInserted, hCompiled⟩⟩
    · rw [if_neg (by rwa [decide_eq_true_eq])]
      exact ⟨_, r₂, hIndex, rfl, rfl, Or.inl ⟨rfl, rfl⟩⟩

theorem irGenerator_inserts_singleSetup : ∃ q,
    IrGenerator.candidate (FuzzGenerator.generate lowest (.anyRoleSetup ⟨1⟩)) singleSetup 5 () =
      some (.ok (some q, ())) ∧
    Inserts Sv2.wire lowest (.anyRoleSetup ⟨1⟩) singleSetup 5 () () q := by
  have hAll := irGenerator_inserts Sv2.wire_lawful lowest (p := singleSetup) (by decide)
    (.anyRoleSetup ⟨1⟩)
  obtain ⟨out, r, hRun, hMissing, hInserts⟩ := hAll.2.1 5 (by decide) ()
  cases out with
  | none => exact absurd (hMissing rfl) (by decide : ¬ 1 < max 1 1)
  | some q => exact ⟨q, hRun, hInserts q rfl⟩

end Mutation

end Stratamoto
