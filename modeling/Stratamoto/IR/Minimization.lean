import Stratamoto.IR.Minimizers

/-!
# Stratamoto — minimization

The minimizers one after another, each driven by a predicate until it has no
candidate left and followed by `remove_nops`, over and over while a candidate is
taken.

* `LocallyMinimal P r` — nothing more can be nopped and no block removed, for `P`;
* `Cursored.tried` — a run without a success has tried what it has passed;
* `empty_of_minimal` — a program without nops has an instruction to remove, or a block;
* `minimize_locally_minimal` — minimization ends with a locally minimal program.
-/

namespace Stratamoto

open Brackets Operation Marks Proposals Fuel

/-! ## The passes -/

/-- One pass: drive a minimizer, and drop the nops of what it has. -/
def pass (σ : Type) [Minimizer σ] (P : Program → Bool) (fuel : Nat) (p : Program) :
    ExceptT Panic Option (Bool × Program) := do
  let (progress, m) ← drive P fuel false (Proposer.new p : σ)
  let q ← ExceptT.mk (some (Proposer.current m).removeNops)
  pure (progress, q)

def passes (P : Program → Bool) (fuel : Nat) (p : Program) :
    ExceptT Panic Option (Bool × Program) := do
  let (cut, p) ← pass CuttingMinimizer P fuel p
  let (removed, p) ← pass BlockMinimizer P fuel p
  let (nopped, p) ← pass NoppingMinimizer P fuel p
  pure (cut || removed || nopped, p)

/-- Repeat the passes while one of them makes progress. -/
def minimize (P : Program → Bool) : Nat → Program → ExceptT Panic Option Program
  | 0, _ => ExceptT.mk none
  | fuel + 1, p => do
    let (progress, p) ← passes P fuel p
    if progress then minimize P fuel p else pure p

/-- No single instruction can be nopped, and no single block removed, so that
what comes of it is valid and satisfies `P`. -/
structure LocallyMinimal (P : Program → Bool) (r : Program) : Prop where
  nopping : ∀ (n : Nat) (i : Instruction), r.instructions[n]? = some i → i.isNoppable = true →
    (r.nopAt n).isStaticallyValid = .ok true → P (r.nopAt n) = false
  blocks : ∀ b e q, Matches (brackets r.instructions) b e →
    r.without (flagged r.instructions.length b (e + 1)) = .ok q →
    q.isStaticallyValid = .ok true → P q = false

/-! ## Cursors without a success -/

/-- The minimizer proposes what there is at its cursor, and passes over the
instructions for which there is nothing. -/
structure Cursored (σ : Type) [Minimizer σ] (inv : σ → Prop) (cursor : σ → Nat)
    (propose : Program → Nat → Except Panic (Option Program)) : Prop where
  new : ∀ p, cursor (Proposer.new p) = 0
  next : ∀ m, inv m → ∃ out m', Proposer.next m = .ok (out, m') ∧ cursor m ≤ cursor m' ∧
    (∀ n, cursor m ≤ n → n < cursor m' → propose (Proposer.current m) n = .ok none) ∧
    (out = none ∧ cursor m' = (Proposer.current m).instructions.length ∨
      ∃ candidate, out = some candidate ∧
        propose (Proposer.current m) (cursor m') = .ok (some candidate))
  failure : ∀ m m', Proposer.failure m = .ok m' → cursor m' = cursor m + 1

variable {σ : Type} [Minimizer σ] {inv : σ → Prop} {cursor : σ → Nat} {size : σ → Nat}
  {propose : Program → Nat → Except Panic (Option Program)} {P : Program → Bool}

/-- A run without a success has tried what is in front of its cursor. -/
theorem Cursored.tried (h : Cursored σ inv cursor propose) (hDescends : Descends inv size Reduces)
    {m m' : σ} {trace : List (Program × Bool)} (hRun : Run m trace m') (hInv : inv m)
    (hFailures : ∀ q ∈ trace, q.2 = false ∧ P q.1 = false) :
    Proposer.current m' = Proposer.current m ∧ cursor m ≤ cursor m' ∧
      ∀ n, cursor m ≤ n → n < cursor m' → ∀ q, propose (Proposer.current m) n = .ok (some q) →
        P q = false := by
  induction hRun with
  | done m => exact ⟨rfl, Nat.le_refl _, fun n hn hLt => by omega⟩
  | @turn m m₁ m₂ m' candidate verdict trace hNext hAnswer _ ih =>
    obtain ⟨hVerdict, hRejected⟩ := hFailures _ (List.mem_cons_self ..)
    obtain rfl : verdict = false := hVerdict
    obtain ⟨-, hTurn⟩ := hDescends.turn hInv hNext
    obtain ⟨m₃, hFailure, hInv', hCurrent, -⟩ := hTurn.rejected
    obtain rfl := Except.ok.inj (hFailure.symm.trans hAnswer)
    obtain ⟨hSame, hLe, hTried⟩ := ih hInv' fun q hq => hFailures q (List.mem_cons_of_mem _ hq)
    rw [hCurrent] at hSame hTried
    -- the turn passes over some instructions and stops at the candidate's
    obtain ⟨out, m₄, hNext', hGe, hNone, hStop⟩ := h.next m hInv
    obtain ⟨rfl, rfl⟩ := Prod.mk.inj (Except.ok.inj (hNext'.symm.trans hNext))
    have hCursor := h.failure _ _ hFailure
    refine ⟨hSame, by omega, fun n hn hLt q hq => ?_⟩
    rcases Nat.lt_trichotomy n (cursor m₄) with hBefore | rfl | hBehind
    · cases (hNone n hn hBefore).symm.trans hq
    · rcases hStop with ⟨hNo, -⟩ | ⟨candidate', hSome, hPropose⟩
      · cases hNo
      · obtain rfl := Option.some.inj hSome
        obtain rfl := Option.some.inj (Except.ok.inj (hPropose.symm.trans hq))
        exact hRejected
    · exact hTried n (by omega) hLt q hq

/-- When nothing is left, everything has been tried. -/
theorem Cursored.exhausted (h : Cursored σ inv cursor propose)
    (hDescends : Descends inv size Reduces) {p : Program} {m m' : σ}
    {trace : List (Program × Bool)} (hRun : Run (Proposer.new p) trace m)
    (hNew : inv (Proposer.new p)) (hCurrent : Proposer.current (Proposer.new p : σ) = p)
    (hFailures : ∀ q ∈ trace, q.2 = false ∧ P q.1 = false)
    (hEnd : Proposer.next m = .ok (none, m')) :
    ∀ n < p.instructions.length, ∀ q, propose p n = .ok (some q) → P q = false := by
  intro n hn q hq
  obtain ⟨hSame, hLe, hTried⟩ := h.tried hDescends hRun hNew hFailures
  obtain ⟨hInv, -, -⟩ := hDescends.run hRun hNew
  obtain ⟨out, m₁, hNext, hGe, hNone, hStop⟩ := h.next m hInv
  obtain ⟨rfl, rfl⟩ := Prod.mk.inj (Except.ok.inj (hNext.symm.trans hEnd))
  rw [hSame, hCurrent] at hNone hStop
  rw [hCurrent] at hTried
  -- nothing is proposed only at the end
  rcases hStop with ⟨-, hLast⟩ | ⟨candidate, hSome, -⟩
  · rcases Nat.lt_or_ge n (cursor m) with hBefore | hBehind
    · have hZero := h.new p
      exact hTried n (by omega) hBefore q hq
    · cases (hNone n hBehind (by omega)).symm.trans hq
  · cases hSome

theorem BlockMinimizer.cursored :
    Cursored BlockMinimizer BlockMinimizer.Inv BlockMinimizer.next BlockMinimizer.propose where
  new p := rfl
  next m hInv := by
    obtain ⟨out, m', hNext, -, -, hStops⟩ := BlockMinimizer.next_spec hInv
    refine ⟨out, m', hNext, hStops.ge, hStops.passed, hStops.stop.imp_right ?_⟩
    rintro ⟨-, candidate, hSome, hPropose, -⟩
    exact ⟨candidate, hSome, hPropose⟩
  failure m m' hFailure := by
    obtain ⟨next, hNext, hMoved⟩ := bind_ok hFailure
    obtain rfl := Except.ok.inj hMoved
    exact eq_of_checkedAdd hNext

theorem NoppingMinimizer.cursored :
    Cursored NoppingMinimizer NoppingMinimizer.Inv NoppingMinimizer.next
      NoppingMinimizer.propose where
  new p := rfl
  next m hInv := by
    obtain ⟨out, m', hNext, -, -, hStops⟩ := NoppingMinimizer.next_spec hInv
    refine ⟨out, m', hNext, hStops.ge, hStops.passed, hStops.stop.imp_right ?_⟩
    rintro ⟨-, candidate, hSome, hPropose, -⟩
    exact ⟨candidate, hSome, hPropose⟩
  failure m m' hFailure := by
    obtain ⟨next, hNext, hMoved⟩ := bind_ok hFailure
    obtain rfl := Except.ok.inj hMoved
    exact eq_of_checkedAdd hNext

/-! ## One pass -/

/-- What one pass makes of `p`. -/
structure Passed (σ : Type) [Minimizer σ] (P : Program → Bool) (p : Program) (progress : Bool)
    (q : Program) : Prop where
  settles : Settles (fun fuel => (pass σ P fuel p).run) (.ok (progress, q))
  typed : WellTyped q.context q.instructions
  context : q.context = p.context
  noNops : ∀ i ∈ q.instructions, i.operation.isNop = false
  length : q.instructions.length ≤ p.instructions.length
  shorter : progress = true → q.instructions.length < p.instructions.length
  same : progress = false → (∀ i ∈ p.instructions, i.operation.isNop = false) → q = p
  exhausted : progress = false → ∃ trace, ∃ m m' : σ, Run (Proposer.new p) trace m ∧
    Proposer.next m = .ok (none, m') ∧ ∀ q ∈ trace, q.2 = false ∧ P q.1 = false
  satisfies : P p = true → (∀ q q' : Program, q.removeNops = .ok q' → P q = true → P q' = true) →
    P q = true

theorem nops_add_length (is : List Instruction) :
    nops is + (keptOf (nopMarks is)).length = is.length := by
  have hKept : (keptOf (nopMarks is)).length = is.countP fun i => ¬ i.operation.isNop = true := by
    rw [length_keptOf, keptCount, units_one, nopMarks, List.map_map, List.count, List.countP_map]
    refine List.countP_congr fun i _ => ?_
    simp
  rw [hKept, nops]
  exact (List.length_eq_countP_add_countP _).symm

/-- The order the candidates descend in. -/
def Below (q p : Program) : Prop :=
  q.instructions.length < p.instructions.length ∨
    q.instructions.length = p.instructions.length ∧ nops p.instructions < nops q.instructions

theorem below_of_reduces {q p : Program} (h : Relation.TransGen Reduces q p) : Below q p := by
  induction h with
  | single hReduces => exact hReduces.smaller.imp_right fun h => ⟨h.1, by omega⟩
  | tail _ hReduces ih =>
    have hStep := hReduces.smaller
    unfold Below Smaller at *
    omega

/-- A success is always another one that satisfies `P`. -/
theorem lastSuccess_satisfies {a : Program} {trace : List (Program × Bool)} (ha : P a = true)
    (hTrace : ∀ q ∈ trace, q.2 = P q.1) : P (lastSuccess a trace) = true := by
  induction trace generalizing a with
  | nil => exact ha
  | cons q trace ih =>
    show P (lastSuccess (if q.2 then q.1 else a) trace) = true
    refine ih ?_ fun q' hq' => hTrace q' (List.mem_cons_of_mem _ hq')
    split
    · rename_i hSuccess
      rw [← hTrace q (List.mem_cons_self ..)]
      exact hSuccess
    · exact ha

/-- **A pass ends**, with a valid program without nops that is shorter if a
candidate was taken; if none was, every candidate has been tried. -/
theorem pass_ends (hDescends : Descends inv size Reduces) {p : Program}
    (hTyped : WellTyped p.context p.instructions) (hNew : inv (Proposer.new p))
    (hCurrent : Proposer.current (Proposer.new p : σ) = p) :
    ∃ progress q, Passed σ P p progress q := by
  obtain ⟨trace, m, m', hRun, hEnd, hVerdicts, hSettles⟩ := hDescends.drive P hNew
  obtain ⟨hInv, -, hLast⟩ := hDescends.run hRun hNew
  have hReaches := hDescends.reaches hRun hNew
  have hSame : Proposer.current m' = Proposer.current m := by
    obtain ⟨out, m₁, hNext, hSame, -⟩ := hDescends.next m hInv
    obtain ⟨-, rfl⟩ := Prod.mk.inj (Except.ok.inj (hNext.symm.trans hEnd))
    exact hSame
  rw [hCurrent] at hLast hReaches
  have hContext := context_of_reaches hReaches
  -- what the minimizer has is valid, and so is what is left of it
  have hTypedLast : WellTyped p.context (Proposer.current m).instructions := by
    rcases hReaches.cases_head with hEq | ⟨q, hReduces, -⟩
    · rw [hEq]
      exact hTyped
    · exact hContext ▸ hReduces.typed
  obtain ⟨hRemove, hTypedKept, hNone⟩ := removeNops_typed hTypedLast
  have hCount := nops_add_length (Proposer.current m).instructions
  have hProgram : Proposer.current m' = ⟨p.context, (Proposer.current m).instructions⟩ := by
    rw [hSame, ← hContext]
  have hFailures : (false || trace.any Prod.snd) = false → ∀ q ∈ trace, q.2 = false := by
    intro hFalse q hq
    have hAll := List.any_eq_false.mp hFalse q hq
    simpa using hAll
  have hUnchanged : (false || trace.any Prod.snd) = false → Proposer.current m = p := by
    intro hFalse
    rw [hLast, lastSuccess_of_failures (hFailures hFalse)]
  have hShorter : (false || trace.any Prod.snd) = true →
      (keptOf (nopMarks (Proposer.current m).instructions)).length < p.instructions.length := by
    intro hTrue
    obtain ⟨q, hq, hSuccess⟩ := List.any_eq_true.mp hTrue
    have hImproves := hDescends.improves hRun hNew ⟨q, hq, hSuccess⟩
    rw [hCurrent] at hImproves
    have hBelow := below_of_reduces hImproves
    unfold Below at hBelow
    omega
  refine ⟨false || trace.any Prod.snd, ⟨p.context, keptOf (nopMarks _)⟩, ?_, hTypedKept, rfl,
    hNone, ?_, hShorter, ?_, ?_, ?_⟩
  · refine Settles.bindOk (hSettles false) ?_
    show Settles (fun _ => (do
      let q ← ExceptT.mk (some (Proposer.current m').removeNops)
      pure (false || trace.any Prod.snd, q) : ExceptT Panic Option (Bool × Program)).run) _
    rw [hProgram, hRemove]
    exact Settles.const _
  · rcases Bool.eq_false_or_eq_true (false || trace.any Prod.snd) with hTrue | hFalse
    · exact Nat.le_of_lt (hShorter hTrue)
    · rw [hUnchanged hFalse] at hCount ⊢
      dsimp only
      omega
  · intro hFalse hNoNops
    rw [hUnchanged hFalse] at hRemove ⊢
    have hSelf := removeNops_of_none p.context hTyped.instructions.scoped hNoNops
    exact Except.ok.inj (hRemove.symm.trans hSelf)
  · intro hFalse
    refine ⟨trace, m, m', hRun, hEnd, fun q hq => ⟨hFailures hFalse q hq, ?_⟩⟩
    rw [← hVerdicts q hq]
    exact hFailures hFalse q hq
  · intro hp hKeeps
    refine hKeeps _ _ hRemove ?_
    rw [← hProgram, hSame, hLast]
    exact lastSuccess_satisfies hp hVerdicts

/-! ## The end of minimization -/

/-- What the block pass has tried without a success is what is to be tried. -/
theorem locallyMinimal_of_exhausted {r : Program} (hTyped : WellTyped r.context r.instructions)
    (hMax : r.instructions.length ≤ usizeMax)
    (hNone : ∀ i ∈ r.instructions, i.operation.isNop = false)
    (hBlocks : ∀ n < r.instructions.length, ∀ q,
      BlockMinimizer.propose r n = .ok (some q) → P q = false)
    (hNopping : ∀ n < r.instructions.length, ∀ q,
      NoppingMinimizer.propose r n = .ok (some q) → P q = false) : LocallyMinimal P r := by
  have hProposed : ∀ q : Program, q.isStaticallyValid = .ok true → ifValid q = .ok (some q) := by
    intro q hValid
    rw [ifValid, hValid]
    rfl
  obtain ⟨ctx, is⟩ := r
  constructor
  · -- what would be smaller is what the minimizer proposed there, and it was refused
    intro n i hi hNoppable hValid
    have hn := (List.getElem?_eq_some_iff.mp hi).1
    refine hNopping n hn _ ?_
    rw [NoppingMinimizer.propose_eq hi, if_pos ⟨hNoppable, hNone i (List.mem_of_getElem? hi)⟩]
    exact hProposed _ hValid
  · intro b e q hMatch hWithout hValid
    have hb : b < is.length := by
      have := Nat.lt_trans hMatch.lt hMatch.lt_length
      rwa [brackets_length] at this
    obtain ⟨l, m, r, -, -, -, -, hWithout', hPropose⟩ :=
      BlockMinimizer.propose_block hTyped hMax hMatch
    obtain rfl := Except.ok.inj (hWithout'.symm.trans hWithout)
    exact hBlocks b hb _ (hPropose.trans (hProposed _ hValid))

/-- An instruction at the end of a program can be nopped. -/
theorem wellTyped_nop_last {ctx : ProgramContext} {is : List Instruction} {i : Instruction}
    (hTyped : WellTyped ctx (is ++ [i])) (hPlain : i.operation.bracket = .plain) :
    WellTyped ctx (is ++ [i.nop]) := by
  have hBrackets : brackets (is ++ [i.nop]) = brackets (is ++ [i]) := by
    rw [brackets_append, brackets_append, brackets_singleton, brackets_singleton, hPlain]
    rfl
  refine ⟨hBrackets ▸ hTyped.balanced, wellTypedPrefix_snoc.mpr
    ⟨(wellTypedPrefix_snoc.mp hTyped.instructions).1, ?_⟩⟩
  refine ⟨?_, fun k v var hv => ?_, fun r hr => ?_, fun c hc => ?_⟩
  · simp [Instruction.nop, numInputs, getInputVariables]
  · simp [Instruction.nop] at hv
  · cases hr
  · cases hc

/-- **Where nothing is needed, nothing is left**: the last instruction can be
nopped, or it ends a block that can be removed. -/
theorem empty_of_minimal {r : Program} (hTyped : WellTyped r.context r.instructions)
    (hMax : r.instructions.length ≤ usizeMax) (hMinimal : LocallyMinimal P r)
    (hP : ∀ q, P q = true) : r.instructions = [] := by
  obtain ⟨ctx, is⟩ := r
  replace hTyped : WellTyped ctx is := hTyped
  replace hMax : is.length ≤ usizeMax := hMax
  rcases List.eq_nil_or_concat is with hNil | ⟨l, i, hConcat⟩
  · exact hNil
  exfalso
  rw [List.concat_eq_append] at hConcat
  subst hConcat
  have hLast : (l ++ [i])[l.length]? = some i := List.getElem?_concat_length
  cases hBracket : i.operation.bracket with
  | plain =>
    have hNopped := wellTyped_nop_last hTyped hBracket
    have hEq : Program.nopAt ⟨ctx, l ++ [i]⟩ l.length = ⟨ctx, l ++ [i.nop]⟩ := by
      rw [Program.nopAt, (modify_eq hLast).2]
      simp
    have hFalse := hMinimal.nopping l.length i hLast (isNoppable_iff.mpr hBracket)
      (by rw [hEq]; exact isStaticallyValid_iff.mpr hNopped)
    exact Bool.false_ne_true (hFalse.symm.trans (hP _))
  | opening k =>
    -- a block that begins at the end has no end
    have hOpening : (brackets (l ++ [i]))[l.length]? = some (.opening k) := by
      rw [brackets, List.getElem?_map, hLast, ← hBracket]
      rfl
    obtain ⟨e, hMatch⟩ := hTyped.balanced.exists_matches hOpening
    have hLt := hMatch.lt
    have hEnd := hMatch.lt_length
    rw [brackets_length, List.length_append, List.length_singleton] at hEnd
    omega
  | closing k =>
    have hStack := hTyped.stack
    rw [brackets_append, brackets_singleton, hBracket, openStack_snoc] at hStack
    obtain ⟨s, hs, hStep⟩ := Option.bind_eq_some_iff.mp hStack
    cases s with
    | nil => cases hStep
    | cons p s =>
      obtain ⟨b, k'⟩ := p
      have hTake : (brackets (l ++ [i])).take l.length = brackets l := by simp
      have hClosing : (brackets (l ++ [i]))[l.length]? = some (.closing k) := by
        rw [brackets, List.getElem?_map, hLast, ← hBracket]
        rfl
      have hMatch : Matches (brackets (l ++ [i])) b l.length := by
        rw [matches_iff_head (hTake ▸ hs)]
        simp only [step] at hStep
        split at hStep
        · rename_i hKind
          exact ⟨k, s, by rw [hKind], hClosing⟩
        · cases hStep
      obtain ⟨front, block, rest, hSplit, rfl, hStop, hBlock, hWithout, -⟩ :=
        BlockMinimizer.propose_block hTyped hMax hMatch
      -- the block is all that is behind the front
      obtain rfl : rest = [] := by
        have hLength := congrArg List.length hSplit
        simp only [List.length_append, List.length_singleton] at hLength
        exact List.length_eq_zero_iff.mp (by omega)
      rw [List.append_nil] at hSplit
      have hFront : WellTyped ctx front := by
        have hWhole := hTyped.stack
        rw [hSplit, openStack_dropped _ hBlock] at hWhole
        have hTake := hTyped.instructions.take front.length
        rw [hSplit, List.take_left] at hTake
        exact ⟨balanced_iff_openStack.mpr hWhole, hTake⟩
      have hKept : keptOf (around front block []) = front := by
        have hNone : around front block [] = markAll true front ++ markAll false block := by
          simp [around, markAll]
        rw [hNone, keptOf_dropped, keptOf_markAll hFront.instructions.scoped]
      have hFalse := hMinimal.blocks _ _ _ hMatch hWithout
        (by rw [hKept]; exact isStaticallyValid_iff.mpr hFront)
      exact Bool.false_ne_true (hFalse.symm.trans (hP _))

/-- What minimization makes of `p`. -/
structure Minimized (P : Program → Bool) (p r : Program) : Prop where
  settles : Settles (fun fuel => (minimize P fuel p).run) (.ok r)
  valid : r.isStaticallyValid = .ok true
  context : r.context = p.context
  minimal : LocallyMinimal P r
  empty : (∀ q, P q = true) → r.instructions = []
  satisfies : P p = true → (∀ q q' : Program, q.removeNops = .ok q' → P q = true → P q' = true) →
    P r = true

/-- **Minimization ends in a locally minimal program**, whatever is to be kept:
the passes come to an end, and then no single instruction can be nopped and no
single block removed. If nothing is to be kept, nothing is. -/
theorem minimize_locally_minimal (P : Program → Bool) {p : Program}
    (hValid : p.isStaticallyValid = .ok true) (hLength : p.instructions.length ≤ usizeMax) :
    ∃ r, Minimized P p r := by
  -- every round but the last makes the program shorter
  induction hn : p.instructions.length using Nat.strongRecOn generalizing p with
  | _ n ih =>
    have hTyped := isStaticallyValid_iff.mp hValid
    obtain ⟨cut, p₁, hCut⟩ := pass_ends (P := P) CuttingMinimizer.descends hTyped
      ⟨hTyped, Nat.le_refl _⟩ rfl
    have hMax₁ := Nat.le_trans hCut.length hLength
    obtain ⟨removed, p₂, hRemoved⟩ := pass_ends (P := P) BlockMinimizer.descends hCut.typed
      ⟨hCut.typed, hMax₁, Nat.zero_le _⟩ rfl
    have hMax₂ := Nat.le_trans hRemoved.length hMax₁
    obtain ⟨nopped, p₃, hNopped⟩ := pass_ends (P := P) NoppingMinimizer.descends hRemoved.typed
      ⟨hRemoved.typed, hMax₂, Nat.zero_le _⟩ rfl
    have hMax₃ := Nat.le_trans hNopped.length hMax₂
    have hPasses : Settles (fun fuel => (passes P fuel p).run)
        (.ok (cut || removed || nopped, p₃)) := by
      refine Settles.bindOk hCut.settles (Settles.bindOk hRemoved.settles ?_)
      exact Settles.bindOk hNopped.settles (Settles.const _)
    have hContext : p₃.context = p.context :=
      hNopped.context.trans (hRemoved.context.trans hCut.context)
    have hSatisfies : P p = true →
        (∀ q q' : Program, q.removeNops = .ok q' → P q = true → P q' = true) → P p₃ = true :=
      fun hp hKeeps => hNopped.satisfies
        (hRemoved.satisfies (hCut.satisfies hp hKeeps) hKeeps) hKeeps
    have hValid₃ := isStaticallyValid_iff.mpr hNopped.typed
    cases hProgress : cut || removed || nopped with
    | true =>
      have hShorter : p₃.instructions.length < n := by
        have h₁ := hCut.length
        have h₂ := hRemoved.length
        have h₃ := hNopped.length
        rw [Bool.or_eq_true, Bool.or_eq_true] at hProgress
        rcases hProgress with (hYes | hYes) | hYes
        · have := hCut.shorter hYes
          omega
        · have := hRemoved.shorter hYes
          omega
        · have := hNopped.shorter hYes
          omega
      obtain ⟨r, hr⟩ := ih _ hShorter hValid₃ hMax₃ rfl
      refine ⟨r, ?_, hr.valid, hr.context.trans hContext, hr.minimal, hr.empty,
        fun hp hKeeps => hr.satisfies (hSatisfies hp hKeeps) hKeeps⟩
      refine Settles.turn (Settles.bindOk hPasses ?_)
      rw [hProgress]
      exact hr.settles
    | false =>
      rw [Bool.or_eq_false_iff, Bool.or_eq_false_iff] at hProgress
      obtain ⟨⟨hNoCut, hNoBlock⟩, hNoNop⟩ := hProgress
      -- the last two passes have left what the first one gave them
      obtain rfl := hRemoved.same hNoBlock hCut.noNops
      obtain rfl := hNopped.same hNoNop hRemoved.noNops
      obtain ⟨trace, m, m', hRun, hEnd, hFailures⟩ := hRemoved.exhausted hNoBlock
      obtain ⟨trace', w, w', hRun', hEnd', hFailures'⟩ := hNopped.exhausted hNoNop
      have hCursor : Cursor p₃ 0 := ⟨hNopped.typed, hMax₃, Nat.zero_le _⟩
      have hMinimal : LocallyMinimal P p₃ := by
        refine locallyMinimal_of_exhausted hNopped.typed hMax₃ hNopped.noNops ?_ ?_
        · exact BlockMinimizer.cursored.exhausted BlockMinimizer.descends hRun hCursor rfl hFailures
            hEnd
        · exact NoppingMinimizer.cursored.exhausted NoppingMinimizer.descends hRun' hCursor rfl
            hFailures' hEnd'
      refine ⟨p₃, ?_, hValid₃, hContext, hMinimal,
        empty_of_minimal hNopped.typed hMax₃ hMinimal, hSatisfies⟩
      refine Settles.turn (Settles.bindOk hPasses ?_)
      rw [hNoCut, hNoBlock, hNoNop]
      exact Settles.const _

theorem minimize_locally_minimal_singleSetup :
    ∃ r, Minimized (fun _ => true) singleSetup r ∧ r.instructions = [] := by
  obtain ⟨r, hr⟩ := minimize_locally_minimal (fun _ => true) (p := singleSetup) (by decide)
    (by decide)
  exact ⟨r, hr, hr.empty fun _ => rfl⟩

end Stratamoto
