import Stratamoto.IR.Nops
import Stratamoto.Library.Proposals

/-!
# Stratamoto — minimizers

`minimizers/`: each of the three proposes smaller programs, one at a time, and is
told of each whether it still reproduces the failure. `usize` arithmetic is
checked, so a difference below zero would be a panic.

* `matchingEnd_eq` — the search for a block's end finds it;
* `CuttingMinimizer.cut_eq`, `BlockMinimizer.propose_eq`, `NoppingMinimizer.propose_eq` —
  what is proposed;
* `Smaller` — fewer instructions, or one more nop among as many;
* `minimizers_descend` — every minimizer descends, whatever the verdicts.
-/

namespace Stratamoto

open Brackets Operation Marks Proposals

/-! ## `instruction.rs` -/

/-- Whether the operation can be replaced by a nop without invalidating the
program. -/
def Instruction.isNoppable (i : Instruction) : Bool :=
  !i.operation.isBlockBegin && !i.operation.isBlockEnd

def Instruction.nop (i : Instruction) : Instruction where
  inputs := []
  operation := .nop i.operation.numOutputs i.operation.numInnerOutputs

/-! ## `minimizers/mod.rs` -/

/-- Proposes smaller programs, one at a time. -/
abbrev Minimizer (σ : Type) := Proposer Panic Program σ

/-- A candidate is proposed if it is valid. -/
def ifValid (candidate : Program) : Except Panic (Option Program) := do
  if ← candidate.isStaticallyValid then pure (some candidate) else pure none

/-- The flags of `total` instructions, those from `start` up to `stop` set. -/
def flagged (total start stop : Nat) : List Bool :=
  (List.range total).map fun n => decide (start ≤ n ∧ n < stop)

/-! ## `minimizers/cutting.rs` -/

/-- Removes a run of instructions from the end, halving the run each time it is
rejected. -/
structure CuttingMinimizer where
  program : Program
  candidate : Option Program
  length : Nat
  deriving DecidableEq, Repr

namespace CuttingMinimizer

def new (program : Program) : CuttingMinimizer := ⟨program, none, program.instructions.length / 2⟩

def success (m : CuttingMinimizer) : CuttingMinimizer :=
  match m.candidate with
  | some candidate =>
    { program := candidate
      candidate := none
      length := min m.length (candidate.instructions.length / 2) }
  | none => m

def failure (m : CuttingMinimizer) : CuttingMinimizer :=
  { m with candidate := none, length := m.length / 2 }

/-- One turn of the loop: the program without its last `length` instructions. -/
def cut (m : CuttingMinimizer) : Except Panic (Option Program) := do
  let total := m.program.instructions.length
  let start ← checkedSub total m.length
  let candidate ← m.program.without (flagged total start total)
  ifValid candidate

def next (m : CuttingMinimizer) : Except Panic (Option Program × CuttingMinimizer) :=
  if 0 < m.length then
    match m.cut with
    | .error panic => .error panic
    | .ok (some candidate) => .ok (some candidate, { m with candidate := some candidate })
    | .ok none => next { m with length := m.length / 2 }
  else .ok (none, m)
termination_by m.length
decreasing_by
  show m.length / 2 < m.length
  omega

instance : Minimizer CuttingMinimizer where
  new := new
  next := next
  success := success
  failure m := .ok m.failure
  current := program

end CuttingMinimizer

/-! ## Cursors -/

/-- The loop of the two minimizers with a cursor: on past the instructions for
which there is nothing to propose. -/
def scanFrom (propose : Nat → Except Panic (Option Program)) (total next : Nat) :
    Except Panic (Option Program × Nat) :=
  if next < total then
    match propose next with
    | .error panic => .error panic
    | .ok (some candidate) => .ok (some candidate, next)
    | .ok none =>
      -- a position where nothing is proposed is passed over
      match _h : checkedAdd next 1 with
      | .error panic => .error panic
      | .ok next' => scanFrom propose total next'
  else .ok (none, next)
termination_by total - next
decreasing_by
  have := eq_of_checkedAdd _h
  omega

/-! ## `minimizers/block.rs` -/

/-- Read on from the instruction at `index`, `depth` blocks deep, to the end of
the first. -/
def scanEnd : List Instruction → Nat → Nat → Except Panic (Option Nat)
  | [], _, _ => pure none
  | i :: is, index, depth => do
    let depth ← if i.operation.isBlockBegin then checkedAdd depth 1 else pure depth
    if i.operation.isBlockEnd then
      let depth ← checkedSub depth 1
      if depth = 0 then pure (some index) else scanEnd is (index + 1) depth
    else scanEnd is (index + 1) depth

def matchingEnd (program : Program) (begin_ : Nat) : Except Panic (Option Nat) :=
  scanEnd (program.instructions.drop begin_) begin_ 0

/-- Removes a whole block, from its beginning to its matching end. -/
structure BlockMinimizer where
  program : Program
  candidate : Option Program
  next : Nat
  deriving DecidableEq, Repr

namespace BlockMinimizer

def new (program : Program) : BlockMinimizer := ⟨program, none, 0⟩

def success (m : BlockMinimizer) : BlockMinimizer :=
  match m.candidate with
  | some candidate => { program := candidate, candidate := none, next := 0 }
  | none => m

def failure (m : BlockMinimizer) : Except Panic BlockMinimizer := do
  let next ← checkedAdd m.next 1
  pure { m with candidate := none, next }

/-- One turn of the loop: the program without the block begun at `begin_`. -/
def propose (program : Program) (begin_ : Nat) : Except Panic (Option Program) :=
  match program.instructions[begin_]? with
  | none => .error .indexOutOfBounds
  | some i =>
    if !i.operation.isBlockBegin then pure none
    else do
      match ← matchingEnd program begin_ with
      | none => pure none
      | some end_ =>
        -- the block goes whole, with its begin and its end
        let stop ← checkedAdd end_ 1
        let candidate ← program.without (flagged program.instructions.length begin_ stop)
        ifValid candidate

def nextCandidate (m : BlockMinimizer) : Except Panic (Option Program × BlockMinimizer) := do
  let (candidate, next) ← scanFrom (propose m.program) m.program.instructions.length m.next
  pure (candidate, { m with candidate := candidate.or m.candidate, next })

instance : Minimizer BlockMinimizer where
  new := new
  next := nextCandidate
  success := success
  failure := failure
  current := program

end BlockMinimizer

/-! ## `minimizers/nopping.rs` -/

/-- Replaces one instruction at a time with a nop. -/
structure NoppingMinimizer where
  program : Program
  candidate : Option Program
  next : Nat
  deriving DecidableEq, Repr

/-- The program with a nop in place of the instruction at `n`. -/
def Program.nopAt (p : Program) (n : Nat) : Program :=
  { p with instructions := p.instructions.modify n Instruction.nop }

namespace NoppingMinimizer

def new (program : Program) : NoppingMinimizer := ⟨program, none, 0⟩

def success (m : NoppingMinimizer) : NoppingMinimizer :=
  match m.candidate with
  | some candidate => { m with program := candidate, candidate := none }
  | none => m

def failure (m : NoppingMinimizer) : Except Panic NoppingMinimizer := do
  let next ← checkedAdd m.next 1
  pure { m with candidate := none, next }

/-- One turn of the loop: the program with a nop in place of the instruction. -/
def propose (program : Program) (n : Nat) : Except Panic (Option Program) :=
  match program.instructions[n]? with
  | none => .error .indexOutOfBounds
  | some i =>
    if !i.isNoppable then pure none
    else if i.operation.isNop then pure none
    else ifValid (program.nopAt n)

def nextCandidate (m : NoppingMinimizer) : Except Panic (Option Program × NoppingMinimizer) := do
  let (candidate, next) ← scanFrom (propose m.program) m.program.instructions.length m.next
  pure (candidate, { m with candidate := candidate.or m.candidate, next })

instance : Minimizer NoppingMinimizer where
  new := new
  next := nextCandidate
  success := success
  failure := failure
  current := program

end NoppingMinimizer

/-! ## What is proposed -/

variable {ctx : ProgramContext} {is : List Instruction}

/-- Where no block end is without a block, a candidate is valid or it is not. -/
theorem ifValid_cases (ctx : ProgramContext) {s : List (Nat × BlockKind)}
    (hs : openStack (brackets is) = some s) :
    (WellTyped ctx is ∧ ifValid ⟨ctx, is⟩ = .ok (some ⟨ctx, is⟩)) ∨
      (¬ WellTyped ctx is ∧ ifValid ⟨ctx, is⟩ = .ok none) := by
  obtain ⟨-, ⟨valid, hValid⟩, -⟩ :=
    (validation_returns_iff ⟨ctx, is⟩).mpr (not_unopenedEnd hs)
  have hIff : valid = true ↔ WellTyped ctx is := by
    rw [← isStaticallyValid_iff (p := ⟨ctx, is⟩), hValid, Except.ok.injEq]
  have hRun : ifValid ⟨ctx, is⟩ = .ok (if valid then some ⟨ctx, is⟩ else none) := by
    rw [ifValid, hValid]
    cases valid <;> rfl
  cases valid with
  | true => exact Or.inl ⟨hIff.mp rfl, hRun⟩
  | false => exact Or.inr ⟨fun hTyped => Bool.false_ne_true (hIff.mpr hTyped), hRun⟩

/-- The flags mark what stands between the front and the rest. -/
theorem markedBy_flagged (l m r : List Instruction) :
    markedBy (flagged (l ++ m ++ r).length l.length (l.length + m.length)) (l ++ m ++ r) =
      around l m r := by
  refine List.ext_getElem? fun n => ?_
  -- the flag of an index, and the entry around the middle at it
  have hFlag : ∀ n < (l ++ m ++ r).length,
      (flagged (l ++ m ++ r).length l.length (l.length + m.length)).getD n false =
        decide (l.length ≤ n ∧ n < l.length + m.length) := by
    intro n hn
    rw [flagged, List.getD_eq_getElem?_getD, List.getElem?_map, List.getElem?_range hn]
    rfl
  have hAround : (around l m r)[n]? =
      ((l ++ m ++ r)[n]?).map fun i => (i, !decide (l.length ≤ n ∧ n < l.length + m.length)) := by
    simp only [around, markAll]
    rcases Nat.lt_or_ge n l.length with hFront | hFront
    · -- in front of the flags
      have hNot : ¬ (l.length ≤ n ∧ n < l.length + m.length) := by omega
      rw [List.append_assoc, List.append_assoc, List.getElem?_append_left (by simpa using hFront),
        List.getElem?_append_left hFront, List.getElem?_map, decide_eq_false hNot]
      rfl
    · rcases Nat.lt_or_ge n (l.length + m.length) with hMiddle | hRest
      · -- in the middle
        have hIn : l.length ≤ n ∧ n < l.length + m.length := ⟨hFront, hMiddle⟩
        rw [List.append_assoc, List.append_assoc, List.getElem?_append_right (by simpa using hFront),
          List.getElem?_append_right hFront, List.getElem?_append_left (by simp; omega),
          List.getElem?_append_left (by omega), List.length_map, List.getElem?_map,
          decide_eq_true hIn]
        rfl
      · have hNot : ¬ (l.length ≤ n ∧ n < l.length + m.length) := by omega
        rw [List.getElem?_append_right (by simpa using hRest),
          List.getElem?_append_right (by simpa using hRest), List.getElem?_map, List.length_append,
          List.length_append, List.length_map, List.length_map, decide_eq_false hNot]
        rfl
  rw [hAround, markedBy, List.getElem?_map, List.getElem?_zipIdx]
  cases hn : (l ++ m ++ r)[n]? with
  | none => rfl
  | some i =>
    have hLt := (List.getElem?_eq_some_iff.mp hn).1
    show some (i, !(flagged _ _ _).getD (0 + n) false) = _
    rw [Nat.zero_add, hFlag n hLt]
    rfl

/-! ## The end of a block -/

/-- Balanced instructions are read over, at whatever depth. -/
theorem scanEnd_balanced {v : List Instruction} (hv : Balanced (brackets v))
    (rest : List Instruction) (index : Nat) {depth : Nat} (hDepth : 0 < depth)
    (hMax : depth + v.length ≤ usizeMax) :
    scanEnd (v ++ rest) index depth = scanEnd rest (index + v.length) depth := by
  generalize hw : brackets v = w at hv
  induction hv generalizing v rest index depth with
  | nil =>
    obtain rfl := List.map_eq_nil_iff.mp hw
    rfl
  | plain _ ih =>
    obtain ⟨i, v, rfl, hi, hv⟩ := List.map_eq_cons_iff.mp hw
    obtain ⟨hBegin, hEnd⟩ := bracket_plain hi
    rw [List.length_cons] at hMax
    have hRest := ih rest (index + 1) hDepth (by omega) hv
    rw [List.cons_append, scanEnd, hBegin, hEnd, List.length_cons, ← Nat.add_assoc,
      Nat.add_right_comm]
    exact hRest
  | block k _ _ ihInner ihRest =>
    obtain ⟨i, v, rfl, hi, hv⟩ := List.map_eq_cons_iff.mp hw
    obtain ⟨inner, v, rfl, hInner, hv⟩ := List.map_eq_append_iff.mp hv
    obtain ⟨j, v, rfl, hj, hv⟩ := List.map_eq_cons_iff.mp hv
    obtain ⟨hBegin, hNotEnd⟩ := bracket_opening hi
    obtain ⟨hNotBegin, hEnd⟩ := bracket_closing hj
    simp only [List.length_cons, List.length_append] at hMax ⊢
    -- one deeper through the block, and back at its end
    have hThrough := ihInner (j :: (v ++ rest)) (index + 1) (Nat.succ_pos depth)
      (by omega) hInner
    have hRest := ihRest rest (index + 1 + inner.length + 1) hDepth (by omega) hv
    have hSame : index + (inner.length + (v.length + 1) + 1) =
        index + 1 + inner.length + 1 + v.length := by omega
    rw [List.cons_append, List.append_assoc, List.cons_append, scanEnd, hBegin, hNotEnd,
      if_pos rfl, checkedAdd_ok (by omega)]
    show scanEnd (inner ++ j :: (v ++ rest)) (index + 1) (depth + 1) = _
    rw [hThrough, scanEnd, hNotBegin, hEnd, if_neg Bool.false_ne_true]
    show (do
      let depth ← checkedSub (depth + 1) 1
      if depth = 0 then pure (some (index + 1 + inner.length))
      else scanEnd (v ++ rest) (index + 1 + inner.length + 1) depth) = _
    have hBack : checkedSub (depth + 1) 1 = .ok depth := checkedSub_ok (Nat.le_add_left 1 depth)
    rw [hBack, hSame]
    show (if depth = 0 then _ else _) = _
    rw [if_neg (Nat.ne_of_gt hDepth)]
    exact hRest

/-- A block is a beginning, what is balanced, and an end. -/
theorem exists_block {b e : Nat} (h : Matches (brackets is) b e) :
    ∃ (l v r : List Instruction) (i j : Instruction) (k : BlockKind),
      is = l ++ i :: (v ++ j :: r) ∧ b = l.length ∧ e = l.length + 1 + v.length ∧
        i.operation.bracket = .opening k ∧ j.operation.bracket = .closing k ∧
        Balanced (brackets v) := by
  obtain ⟨u, w, x, k, hSplit, hw, rfl, rfl⟩ := h
  obtain ⟨l, t, rfl, rfl, ht⟩ := List.map_eq_append_iff.mp hSplit
  obtain ⟨i, t, rfl, hi, ht⟩ := List.map_eq_cons_iff.mp ht
  obtain ⟨v, t', rfl, rfl, ht'⟩ := List.map_eq_append_iff.mp ht
  obtain ⟨j, r, rfl, hj, -⟩ := List.map_eq_cons_iff.mp ht'
  exact ⟨l, v, r, i, j, k, rfl, List.length_map _, by simp, hi, hj, hw⟩

/-- **The end of a block is found**, without the depth falling below zero. -/
theorem matchingEnd_eq (ctx : ProgramContext) (hMax : is.length ≤ usizeMax) {b e : Nat}
    (h : Matches (brackets is) b e) : matchingEnd ⟨ctx, is⟩ b = .ok (some e) := by
  obtain ⟨l, v, r, i, j, k, rfl, rfl, rfl, hi, hj, hv⟩ := exists_block h
  obtain ⟨hBegin, hNotEnd⟩ := bracket_opening hi
  obtain ⟨hNotBegin, hEnd⟩ := bracket_closing hj
  simp only [List.length_append, List.length_cons] at hMax
  have hThrough := scanEnd_balanced hv (j :: r) (l.length + 1) Nat.one_pos (by omega)
  show scanEnd ((l ++ i :: (v ++ j :: r)).drop l.length) l.length 0 = _
  rw [List.drop_left, scanEnd, hBegin, hNotEnd, if_pos rfl, checkedAdd_ok (by omega)]
  show scanEnd (v ++ j :: r) (l.length + 1) 1 = _
  rw [hThrough, scanEnd, hNotBegin, hEnd]
  rfl

/-! ## Smaller programs -/

/-- How many of the instructions are nops. -/
def nops (is : List Instruction) : Nat := is.countP fun i => i.operation.isNop

/-- Fewer instructions, or as many, with one more nop among them. -/
def Smaller (q p : Program) : Prop :=
  q.instructions.length < p.instructions.length ∨
    q.instructions.length = p.instructions.length ∧ nops q.instructions = nops p.instructions + 1

/-- A candidate for the place of `p`. -/
structure Reduces (q p : Program) : Prop where
  valid : q.isStaticallyValid = .ok true
  context : q.context = p.context
  smaller : Smaller q p

theorem Reduces.typed {q p : Program} (h : Reduces q p) : WellTyped q.context q.instructions :=
  isStaticallyValid_iff.mp h.valid

theorem WellTyped.stack (h : WellTyped ctx is) : openStack (brackets is) = some [] :=
  balanced_iff_openStack.mp h.balanced

/-- **A cut leaves the front of a program**, and the difference does not underflow. -/
theorem CuttingMinimizer.cut_eq {m : CuttingMinimizer} (hTyped : WellTyped ctx is)
    (hProgram : m.program = ⟨ctx, is⟩) (hLength : m.length ≤ is.length) :
    m.cut = ifValid ⟨ctx, is.take (is.length - m.length)⟩ := by
  set start := is.length - m.length with hStart
  have hFlags := markedBy_flagged (is.take start) (is.drop start) []
  have hSplit : is.take start ++ is.drop start ++ [] = is := by simp
  have hFront : (is.take start).length = start := List.length_take_of_le (Nat.sub_le ..)
  have hTotal : start + (is.drop start).length = is.length := by
    rw [List.length_drop]
    omega
  rw [hSplit, hFront, hTotal] at hFlags
  -- what is marked for removal is the end of the program
  have hMarks : markedBy (flagged is.length start is.length) is =
      markAll true (is.take start) ++ markAll false (is.drop start) := by
    rw [hFlags, around]
    simp [markAll]
  have hScoped := hTyped.instructions.scoped
  unfold CuttingMinimizer.cut
  rw [hProgram]
  dsimp only
  rw [checkedSub_ok hLength, ← hStart]
  show (do
    let candidate ← Program.without ⟨ctx, is⟩ (flagged is.length start is.length)
    ifValid candidate) = _
  rw [without_eq hScoped, hMarks, keptOf_dropped, keptOf_markAll (hScoped.take start)]
  rfl

/-- A block taken out leaves what is around it. -/
theorem without_block (ctx : ProgramContext) (hScoped : Scoped is) {b e : Nat}
    (h : Matches (brackets is) b e) :
    ∃ l m r, is = l ++ m ++ r ∧ b = l.length ∧ e + 1 = l.length + m.length ∧
      Balanced (brackets m) ∧
      Program.without ⟨ctx, is⟩ (flagged is.length b (e + 1)) =
        .ok ⟨ctx, keptOf (around l m r)⟩ := by
  obtain ⟨l, v, r, i, j, k, rfl, rfl, rfl, hi, hj, hv⟩ := exists_block h
  have hSplit : l ++ i :: (v ++ j :: r) = l ++ (i :: (v ++ [j])) ++ r := by simp
  have hStop : l.length + 1 + v.length + 1 = l.length + (i :: (v ++ [j])).length := by
    simp only [List.length_cons, List.length_append, List.length_nil]
    omega
  -- the block is balanced with its two delimiters
  have hBrackets : brackets (i :: (v ++ [j])) = .opening k :: (brackets v ++ [.closing k]) := by
    rw [← hi, ← hj]
    simp [brackets]
  refine ⟨l, i :: (v ++ [j]), r, hSplit, rfl, hStop, ?_, ?_⟩
  · rw [hBrackets]
    exact .block k hv .nil
  · rw [without_eq hScoped]
    dsimp only
    rw [hStop, hSplit, markedBy_flagged]

/-- **What is proposed for a block** is the program without it. -/
theorem BlockMinimizer.propose_block (hTyped : WellTyped ctx is) (hMax : is.length ≤ usizeMax)
    {b e : Nat} (h : Matches (brackets is) b e) :
    ∃ l m r, is = l ++ m ++ r ∧ b = l.length ∧ e + 1 = l.length + m.length ∧
      Balanced (brackets m) ∧
      Program.without ⟨ctx, is⟩ (flagged is.length b (e + 1)) =
        .ok ⟨ctx, keptOf (around l m r)⟩ ∧
      BlockMinimizer.propose ⟨ctx, is⟩ b = ifValid ⟨ctx, keptOf (around l m r)⟩ := by
  obtain ⟨l, m, r, hSplit, hb, he, hm, hWithout⟩ :=
    without_block ctx hTyped.instructions.scoped h
  refine ⟨l, m, r, hSplit, hb, he, hm, hWithout, ?_⟩
  have hEnd := matchingEnd_eq ctx hMax h
  have hLt := h.lt_length
  rw [brackets_length] at hLt
  obtain ⟨k, hOpening, -⟩ := h.tokens
  rw [brackets, List.getElem?_map, Option.map_eq_some_iff] at hOpening
  obtain ⟨i, hAt, hi⟩ := hOpening
  unfold BlockMinimizer.propose
  dsimp only
  rw [hAt]
  -- the arms of the source, one after the other: the begin, its end, the program without
  show (if !i.operation.isBlockBegin then _ else _) = _
  rw [(bracket_opening hi).1, if_neg (by decide), hEnd]
  show (do
    let stop ← checkedAdd e 1
    let candidate ← Program.without ⟨ctx, is⟩ (flagged is.length b stop)
    ifValid candidate) = _
  rw [checkedAdd_ok (by omega)]
  show (do
    let candidate ← Program.without ⟨ctx, is⟩ _
    ifValid candidate) = _
  rw [hWithout]
  rfl

theorem respects_around (l : List Instruction) {m : List Instruction} (hm : Balanced (brackets m))
    (r : List Instruction) : Respects (around l m r) := by
  refine respects_markAll _ ?_ r
  have hFront : Respects (markAll true l) := by
    simpa using respects_markAll [] .nil l
  exact hFront.drop hm

theorem wholeOf_around (l m r : List Instruction) : wholeOf (around l m r) = l ++ m ++ r := by
  simp [around]

theorem length_keptOf_around (l m r : List Instruction) :
    (keptOf (around l m r)).length = l.length + r.length := by
  rw [length_keptOf, around, keptCount_append, keptCount_append, keptCount_markAll,
    keptCount_dropped, keptCount_markAll]
  simp

/-- **What is proposed for an instruction** is the program with a nop in its place. -/
theorem NoppingMinimizer.propose_eq {n : Nat} {i : Instruction} (hi : is[n]? = some i) :
    NoppingMinimizer.propose ⟨ctx, is⟩ n =
      if i.isNoppable = true ∧ i.operation.isNop = false then ifValid (Program.nopAt ⟨ctx, is⟩ n)
      else .ok none := by
  unfold NoppingMinimizer.propose
  rw [hi]
  show (if !i.isNoppable then _ else _) = _
  cases i.isNoppable with
  | false => rfl
  | true =>
    cases i.operation.isNop with
    | true => rfl
    | false => rfl

theorem isNoppable_iff {i : Instruction} : i.isNoppable = true ↔ i.operation.bracket = .plain := by
  obtain ⟨inputs, op⟩ := i
  cases op <;> simp [Instruction.isNoppable, isBlockBegin, isBlockEnd, bracket]

theorem modify_eq {n : Nat} {i : Instruction} (hi : is[n]? = some i) :
    is = is.take n ++ i :: is.drop (n + 1) ∧
      is.modify n Instruction.nop = is.take n ++ i.nop :: is.drop (n + 1) := by
  obtain ⟨hn, rfl⟩ := List.getElem?_eq_some_iff.mp hi
  refine ⟨?_, List.modify_eq_take_cons_drop hn⟩
  rw [List.getElem_cons_drop, List.take_append_drop]

/-- A nop in place of a noppable instruction leaves the blocks as they are. -/
theorem brackets_nopAt {n : Nat} {i : Instruction} (hi : is[n]? = some i)
    (hNoppable : i.isNoppable = true) : brackets (is.modify n Instruction.nop) = brackets is := by
  obtain ⟨hSplit, hNopped⟩ := modify_eq hi
  have hPlain : i.nop.operation.bracket = i.operation.bracket :=
    (isNoppable_iff.mp hNoppable).symm ▸ rfl
  conv_rhs => rw [hSplit]
  rw [hNopped]
  simp [brackets, hPlain]

theorem nops_nopAt {n : Nat} {i : Instruction} (hi : is[n]? = some i)
    (hNop : i.operation.isNop = false) : nops (is.modify n Instruction.nop) = nops is + 1 := by
  obtain ⟨hSplit, hNopped⟩ := modify_eq hi
  have hSum : nops is = nops (is.take n) + nops (is.drop (n + 1)) := by
    conv_lhs => rw [hSplit]
    simp [nops, hNop]
  rw [hNopped, hSum]
  simp [nops, Instruction.nop, isNop]
  omega

/-! ## One turn of each -/

/-- **The cursor stops at the first instruction with something to propose**, and
goes no further than the program. -/
theorem scanFrom_spec {propose : Nat → Except Panic (Option Program)} {total : Nat}
    (hMax : total ≤ usizeMax) (hOk : ∀ n < total, ∃ out, propose n = .ok out) {next : Nat}
    (hNext : next ≤ total) :
    ∃ out next', scanFrom propose total next = .ok (out, next') ∧ next ≤ next' ∧ next' ≤ total ∧
      (∀ n, next ≤ n → n < next' → propose n = .ok none) ∧
      (out = none ∧ next' = total ∨
        next' < total ∧ ∃ candidate, out = some candidate ∧ propose next' = .ok (some candidate)) := by
  induction hLeft : total - next generalizing next with
  | zero =>
    obtain rfl : next = total := by omega
    refine ⟨none, next, ?_, Nat.le_refl _, Nat.le_refl _, fun n hn hLt => ?_, Or.inl ⟨rfl, rfl⟩⟩
    · rw [scanFrom, if_neg (Nat.lt_irrefl _)]
    · omega
  | succ left ih =>
    have hLt : next < total := by omega
    obtain ⟨out, hOut⟩ := hOk next hLt
    rw [scanFrom, if_pos hLt, hOut]
    cases out with
    | some candidate =>
      exact ⟨some candidate, next, rfl, Nat.le_refl _, hNext, fun n hn hn' => by omega,
        Or.inr ⟨hLt, candidate, rfl, hOut⟩⟩
    | none =>
      dsimp only
      split
      · rename_i hPanic
        rw [checkedAdd_ok (by omega)] at hPanic
        cases hPanic
      · rename_i next' hAdd
        obtain rfl := eq_of_checkedAdd hAdd
        obtain ⟨out, stop, hScan, hGe, hLe, hNone, hStop⟩ :=
          ih (show next + 1 ≤ total from hLt) (by omega)
        refine ⟨out, stop, hScan, by omega, hLe, fun n hn hn' => ?_, hStop⟩
        -- the instruction passed over, or one of those behind it
        rcases Nat.eq_or_lt_of_le hn with rfl | hBehind
        · exact hOut
        · exact hNone n hBehind hn'

/-- What `ifValid` proposes is a program to be proposed, if it is smaller. -/
theorem reduces_of_ifValid {q p candidate : Program} {s : List (Nat × BlockKind)}
    (hs : openStack (brackets q.instructions) = some s) (hSmaller : Smaller q p)
    (hContext : q.context = p.context) (h : ifValid q = .ok (some candidate)) :
    candidate = q ∧ Reduces candidate p := by
  obtain ⟨ctx, is⟩ := q
  rcases ifValid_cases ctx hs with ⟨hTyped, hSome⟩ | ⟨-, hNone⟩
  · obtain rfl := Option.some.inj (Except.ok.inj (hSome.symm.trans h))
    exact ⟨rfl, isStaticallyValid_iff.mpr hTyped, hContext, hSmaller⟩
  · cases hNone.symm.trans h

theorem ifValid_returns {q : Program} {s : List (Nat × BlockKind)}
    (hs : openStack (brackets q.instructions) = some s) : ∃ out, ifValid q = .ok out := by
  rcases ifValid_cases q.context hs with ⟨-, h⟩ | ⟨-, h⟩
  · exact ⟨_, h⟩
  · exact ⟨_, h⟩

/-- What a cursor proposes, if it proposes something, is smaller. -/
def Proposing (p : Program) (propose : Nat → Except Panic (Option Program)) : Prop :=
  ∀ n < p.instructions.length, ∃ out, propose n = .ok out ∧
    ∀ candidate, out = some candidate → Reduces candidate p

theorem BlockMinimizer.proposing {p : Program} (hTyped : WellTyped p.context p.instructions)
    (hMax : p.instructions.length ≤ usizeMax) :
    Proposing p (BlockMinimizer.propose p) ∧
      ∀ n candidate, BlockMinimizer.propose p n = .ok (some candidate) →
        candidate.instructions.length < p.instructions.length := by
  obtain ⟨ctx, is⟩ := p
  have hCases : ∀ n < is.length, BlockMinimizer.propose ⟨ctx, is⟩ n = .ok none ∨
      ∃ q : Program, BlockMinimizer.propose ⟨ctx, is⟩ n = ifValid q ∧
        openStack (brackets q.instructions) = some [] ∧ q.context = ctx ∧
        q.instructions.length < is.length := by
    intro n hn
    have hi := List.getElem?_eq_getElem hn
    cases hBracket : is[n].operation.bracket with
    | opening k =>
      -- the block that begins here
      have hOpening : (brackets is)[n]? = some (.opening k) := by
        rw [brackets, List.getElem?_map, hi, ← hBracket]
        rfl
      obtain ⟨e, hMatch⟩ := hTyped.balanced.exists_matches hOpening
      obtain ⟨l, m, r, rfl, rfl, hEnd, hm, -, hPropose⟩ :=
        BlockMinimizer.propose_block hTyped hMax hMatch
      refine Or.inr ⟨_, hPropose, ?_, rfl, ?_⟩
      · have hStack := hTyped.stack
        rw [← wholeOf_around] at hStack
        rw [openStack_keptOf (respects_around l hm r), hStack]
        rfl
      · have := hMatch.lt
        dsimp only
        rw [length_keptOf_around, List.length_append, List.length_append]
        omega
    | _ =>
      left
      have hNot : is[n].operation.isBlockBegin = false := by
        first | exact (bracket_plain hBracket).1 | exact (bracket_closing hBracket).1
      unfold BlockMinimizer.propose
      dsimp only
      rw [hi]
      dsimp only
      rw [hNot, Bool.not_false, if_pos rfl]
      rfl
  constructor
  · intro n hn
    rcases hCases n hn with hNone | ⟨q, hPropose, hStack, hContext, hLess⟩
    · exact ⟨none, hNone, fun candidate hSome => by cases hSome⟩
    · obtain ⟨out, hOut⟩ := ifValid_returns hStack
      refine ⟨out, hPropose.trans hOut, fun candidate hSome => ?_⟩
      exact (reduces_of_ifValid hStack (Or.inl hLess) hContext (hSome ▸ hOut)).2
  · intro n candidate hPropose'
    have hn : n < is.length := by
      by_contra hGe
      unfold BlockMinimizer.propose at hPropose'
      dsimp only at hPropose'
      rw [List.getElem?_eq_none (by omega)] at hPropose'
      cases hPropose'
    rcases hCases n hn with hNone | ⟨q, hPropose, hStack, hContext, hLess⟩
    · cases hNone.symm.trans hPropose'
    · have hIf := hPropose.symm.trans hPropose'
      rw [(reduces_of_ifValid hStack (p := .mk ctx is) (Or.inl hLess) hContext hIf).1]
      exact hLess

theorem NoppingMinimizer.proposing {p : Program} (hTyped : WellTyped p.context p.instructions) :
    Proposing p (NoppingMinimizer.propose p) ∧
      ∀ n candidate, NoppingMinimizer.propose p n = .ok (some candidate) →
        candidate.instructions.length = p.instructions.length ∧
          nops candidate.instructions = nops p.instructions + 1 := by
  obtain ⟨ctx, is⟩ := p
  -- a nopped program has the same blocks and one nop more
  have hNopped : ∀ n i, is[n]? = some i → i.isNoppable = true ∧ i.operation.isNop = false →
      openStack (brackets (Program.nopAt ⟨ctx, is⟩ n).instructions) = some [] ∧
        (Program.nopAt ⟨ctx, is⟩ n).instructions.length = is.length ∧
        nops (Program.nopAt ⟨ctx, is⟩ n).instructions = nops is + 1 := by
    intro n i hi hSome
    have hStack := hTyped.stack
    rw [← brackets_nopAt hi hSome.1] at hStack
    exact ⟨hStack, List.length_modify .., nops_nopAt hi hSome.2⟩
  constructor
  · intro n hn
    have hi := List.getElem?_eq_getElem hn
    rw [NoppingMinimizer.propose_eq hi]
    split
    · rename_i hSome
      obtain ⟨hStack, hLength, hNops⟩ := hNopped n _ hi hSome
      obtain ⟨out, hOut⟩ := ifValid_returns hStack
      refine ⟨out, hOut, fun candidate hCandidate => ?_⟩
      have hSmaller : Smaller (Program.nopAt ⟨ctx, is⟩ n) ⟨ctx, is⟩ := Or.inr ⟨hLength, hNops⟩
      exact (reduces_of_ifValid hStack hSmaller rfl (hCandidate ▸ hOut)).2
    · exact ⟨none, rfl, fun candidate hSome => by cases hSome⟩
  · intro n candidate hPropose
    cases hi : is[n]? with
    | none =>
      unfold NoppingMinimizer.propose at hPropose
      dsimp only at hPropose
      rw [hi] at hPropose
      cases hPropose
    | some i =>
      rw [NoppingMinimizer.propose_eq hi] at hPropose
      split at hPropose
      · rename_i hSome
        obtain ⟨hStack, hLength, hNops⟩ := hNopped n i hi hSome
        have hSmaller : Smaller (Program.nopAt ⟨ctx, is⟩ n) ⟨ctx, is⟩ := Or.inr ⟨hLength, hNops⟩
        rw [(reduces_of_ifValid hStack hSmaller rfl hPropose).1]
        exact ⟨hLength, hNops⟩
      · cases hPropose

/-! ## Descent -/

/-- The run to be cut off is at most half of a program. -/
structure CuttingMinimizer.Inv (m : CuttingMinimizer) : Prop where
  typed : WellTyped m.program.context m.program.instructions
  length : m.length ≤ m.program.instructions.length / 2

def CuttingMinimizer.size (m : CuttingMinimizer) : Nat := m.program.instructions.length + m.length

theorem CuttingMinimizer.next_spec {m : CuttingMinimizer} (hInv : m.Inv) :
    ∃ out m', m.next = .ok (out, m') ∧ m'.program = m.program ∧ m'.length ≤ m.length ∧
      ∀ candidate, out = some candidate → 0 < m'.length ∧ m'.candidate = some candidate ∧
        candidate.instructions.length < m.program.instructions.length ∧
        Reduces candidate m.program := by
  induction hn : m.length using Nat.strongRecOn generalizing m with
  | _ n ih =>
    obtain ⟨hTyped, hLength⟩ := hInv
    rw [CuttingMinimizer.next]
    by_cases hPos : 0 < m.length
    · rw [if_pos hPos]
      have hCut := CuttingMinimizer.cut_eq (m := m) hTyped rfl (by omega)
      have hLess : (m.program.instructions.take (m.program.instructions.length - m.length)).length <
          m.program.instructions.length := by
        rw [List.length_take]
        omega
      -- the front may have open blocks, which the validity check finds
      obtain ⟨s, hs⟩ := openStack_take hTyped.stack (m.program.instructions.length - m.length)
      rw [← brackets_take] at hs
      rcases ifValid_cases m.program.context hs with ⟨hFront, hSome⟩ | ⟨-, hNone⟩
      · rw [hCut, hSome]
        refine ⟨_, _, rfl, rfl, Nat.le_of_eq hn, fun candidate hEq => ?_⟩
        obtain rfl := Option.some.inj hEq
        exact ⟨hPos, rfl, hLess, isStaticallyValid_iff.mpr hFront, rfl, Or.inl hLess⟩
      · -- on with half of the run
        have hHalf : ({ m with length := m.length / 2 } : CuttingMinimizer).Inv :=
          ⟨hTyped, show m.length / 2 ≤ m.program.instructions.length / 2 by omega⟩
        rw [hCut, hNone]
        obtain ⟨out, m', hNext, hProgram, hLe, hOut⟩ := ih (m.length / 2) (by omega) hHalf rfl
        exact ⟨out, m', hNext, hProgram, by omega, hOut⟩
    · rw [if_neg hPos]
      exact ⟨none, m, rfl, rfl, Nat.le_of_eq hn, fun candidate hNone => by cases hNone⟩

theorem CuttingMinimizer.descends :
    Descends CuttingMinimizer.Inv CuttingMinimizer.size Reduces where
  next m hInv := by
    obtain ⟨out, m', hNext, hProgram, hLe, hOut⟩ := CuttingMinimizer.next_spec hInv
    refine ⟨out, m', hNext, hProgram, fun candidate hSome => ?_⟩
    obtain ⟨hPos, hCandidate, hLess, hReduces⟩ := hOut candidate hSome
    refine ⟨hReduces, ⟨?_, ?_, ?_⟩, m'.failure, rfl, ⟨?_, ?_⟩, hProgram, ?_⟩
    · show m'.success.Inv
      rw [CuttingMinimizer.success, hCandidate]
      exact ⟨hReduces.typed, Nat.min_le_right ..⟩
    · show m'.success.program = candidate
      rw [CuttingMinimizer.success, hCandidate]
    · -- an accepted cut is shorter, and the length it keeps cutting with is no longer
      show m'.success.size < m.size
      rw [CuttingMinimizer.success, hCandidate]
      show candidate.instructions.length + min m'.length _ < m.program.instructions.length + m.length
      omega
    · show WellTyped m'.program.context m'.program.instructions
      rw [hProgram]
      exact hInv.typed
    · show m'.length / 2 ≤ m'.program.instructions.length / 2
      have := hInv.length
      rw [hProgram]
      omega
    · -- a refused one halves what is cut next
      show m'.program.instructions.length + m'.length / 2 < m.program.instructions.length + m.length
      rw [hProgram]
      omega

/-- The cursor is within the program, whose length is a `usize`. -/
structure Cursor (p : Program) (next : Nat) : Prop where
  typed : WellTyped p.context p.instructions
  max : p.instructions.length ≤ usizeMax
  next : next ≤ p.instructions.length

/-- A cursor on an instruction moves behind it. -/
theorem Cursor.succ {p p' : Program} {next : Nat} (h : Cursor p next) (hSame : p' = p)
    (hLt : next < p.instructions.length) : Cursor p' (next + 1) := by
  subst hSame
  exact ⟨h.typed, h.max, hLt⟩

/-- Where a cursor stops, and what is proposed there. -/
structure Stops (p : Program) (propose : Nat → Except Panic (Option Program)) (next next' : Nat)
    (out : Option Program) : Prop where
  ge : next ≤ next'
  cursor : Cursor p next'
  passed : ∀ n, next ≤ n → n < next' → propose n = .ok none
  stop : out = none ∧ next' = p.instructions.length ∨
    next' < p.instructions.length ∧ ∃ candidate, out = some candidate ∧
      propose next' = .ok (some candidate) ∧ Reduces candidate p

theorem Stops.of_some {p : Program} {propose : Nat → Except Panic (Option Program)}
    {next next' : Nat} {candidate : Program} (h : Stops p propose next next' (some candidate)) :
    next' < p.instructions.length ∧ propose next' = .ok (some candidate) ∧
      Reduces candidate p := by
  rcases h.stop with ⟨hNone, -⟩ | ⟨hLt, candidate', hSome, hPropose, hReduces⟩
  · cases hNone
  · obtain rfl := Option.some.inj hSome
    exact ⟨hLt, hPropose, hReduces⟩

theorem Cursor.scan {p : Program} {next : Nat} {propose : Nat → Except Panic (Option Program)}
    (h : Cursor p next) (hProposing : Proposing p propose) :
    ∃ out next', scanFrom propose p.instructions.length next = .ok (out, next') ∧
      Stops p propose next next' out := by
  obtain ⟨out, next', hScan, hGe, hLe, hNone, hStop⟩ := scanFrom_spec h.max
    (fun n hn => (hProposing n hn).imp fun _ h => h.1) h.next
  refine ⟨out, next', hScan, hGe, ⟨h.typed, h.max, hLe⟩, hNone, hStop.imp_right fun hSome => ?_⟩
  obtain ⟨hLt, candidate, hOut, hPropose⟩ := hSome
  obtain ⟨out', hOut', hReduces⟩ := hProposing next' hLt
  refine ⟨hLt, candidate, hOut, hPropose, hReduces candidate ?_⟩
  exact Except.ok.inj (hOut'.symm.trans hPropose)

def BlockMinimizer.Inv (m : BlockMinimizer) : Prop := Cursor m.program m.next

/-- Any shorter program makes up for the cursor's way back. -/
def BlockMinimizer.size (m : BlockMinimizer) : Nat :=
  m.program.instructions.length * m.program.instructions.length +
    (m.program.instructions.length - m.next)

theorem BlockMinimizer.next_spec {m : BlockMinimizer} (hInv : m.Inv) :
    ∃ out m', m.nextCandidate = .ok (out, m') ∧ m'.program = m.program ∧
      (∀ candidate, out = some candidate → m'.candidate = some candidate) ∧
      Stops m.program (BlockMinimizer.propose m.program) m.next m'.next out := by
  obtain ⟨hProposing, -⟩ := BlockMinimizer.proposing hInv.typed hInv.max
  obtain ⟨out, next, hScan, hStops⟩ := hInv.scan hProposing
  refine ⟨out, { m with candidate := out.or m.candidate, next }, ?_, rfl, ?_, hStops⟩
  · rw [BlockMinimizer.nextCandidate, hScan]
    rfl
  · rintro candidate rfl
    rfl

theorem BlockMinimizer.descends : Descends BlockMinimizer.Inv BlockMinimizer.size Reduces where
  next m hInv := by
    obtain ⟨out, m', hNext, hProgram, hHas, hStops⟩ := BlockMinimizer.next_spec hInv
    refine ⟨out, m', hNext, hProgram, fun candidate hSome => ?_⟩
    subst hSome
    obtain ⟨hLt, hPropose, hReduces⟩ := hStops.of_some
    have hCandidate := hHas candidate rfl
    have hGe := hStops.ge
    have hCursor := hStops.cursor
    obtain ⟨hTyped, hMax, -⟩ := hInv
    have hLess := (BlockMinimizer.proposing hTyped hMax).2 m'.next candidate hPropose
    have hFailure : m'.failure = .ok { m' with candidate := none, next := m'.next + 1 } := by
      rw [BlockMinimizer.failure, checkedAdd_ok (by omega)]
      rfl
    refine ⟨hReduces, ⟨?_, ?_, ?_⟩, _, hFailure, hCursor.succ hProgram hLt, hProgram, ?_⟩
    · show m'.success.Inv
      rw [BlockMinimizer.success, hCandidate]
      exact ⟨hReduces.typed, Nat.le_trans (Nat.le_of_lt hLess) hMax, Nat.zero_le _⟩
    · show m'.success.program = candidate
      rw [BlockMinimizer.success, hCandidate]
    · show m'.success.size < m.size
      rw [BlockMinimizer.success, hCandidate]
      show candidate.instructions.length * candidate.instructions.length +
        (candidate.instructions.length - 0) < m.size
      -- one row less makes up for the cursor
      have hRows : candidate.instructions.length * candidate.instructions.length +
          candidate.instructions.length <
            m.program.instructions.length * m.program.instructions.length := by
        calc candidate.instructions.length * candidate.instructions.length +
              candidate.instructions.length
            = candidate.instructions.length * (candidate.instructions.length + 1) :=
              (Nat.mul_succ ..).symm
          _ ≤ candidate.instructions.length * m.program.instructions.length :=
              Nat.mul_le_mul_left _ hLess
          _ < m.program.instructions.length * m.program.instructions.length :=
              Nat.mul_lt_mul_of_pos_right hLess (by omega)
      rw [BlockMinimizer.size, Nat.sub_zero]
      omega
    · show m'.program.instructions.length * m'.program.instructions.length +
        (m'.program.instructions.length - (m'.next + 1)) < m.size
      rw [hProgram, BlockMinimizer.size]
      omega

def NoppingMinimizer.Inv (m : NoppingMinimizer) : Prop := Cursor m.program m.next

def NoppingMinimizer.size (m : NoppingMinimizer) : Nat :=
  (m.program.instructions.length - nops m.program.instructions) +
    (m.program.instructions.length - m.next)

theorem NoppingMinimizer.next_spec {m : NoppingMinimizer} (hInv : m.Inv) :
    ∃ out m', m.nextCandidate = .ok (out, m') ∧ m'.program = m.program ∧
      (∀ candidate, out = some candidate → m'.candidate = some candidate) ∧
      Stops m.program (NoppingMinimizer.propose m.program) m.next m'.next out := by
  obtain ⟨hProposing, -⟩ := NoppingMinimizer.proposing hInv.typed
  obtain ⟨out, next, hScan, hStops⟩ := hInv.scan hProposing
  refine ⟨out, { m with candidate := out.or m.candidate, next }, ?_, rfl, ?_, hStops⟩
  · rw [NoppingMinimizer.nextCandidate, hScan]
    rfl
  · rintro candidate rfl
    rfl

theorem NoppingMinimizer.descends :
    Descends NoppingMinimizer.Inv NoppingMinimizer.size Reduces where
  next m hInv := by
    obtain ⟨out, m', hNext, hProgram, hHas, hStops⟩ := NoppingMinimizer.next_spec hInv
    refine ⟨out, m', hNext, hProgram, fun candidate hSome => ?_⟩
    subst hSome
    obtain ⟨hLt, hPropose, hReduces⟩ := hStops.of_some
    have hCandidate := hHas candidate rfl
    have hGe := hStops.ge
    have hCursor := hStops.cursor
    obtain ⟨hTyped, hMax, -⟩ := hInv
    obtain ⟨hSame, hNops⟩ := (NoppingMinimizer.proposing hTyped).2 m'.next candidate hPropose
    have hFailure : m'.failure = .ok { m' with candidate := none, next := m'.next + 1 } := by
      rw [NoppingMinimizer.failure, checkedAdd_ok (by omega)]
      rfl
    have hLe : nops candidate.instructions ≤ candidate.instructions.length := List.countP_le_length
    refine ⟨hReduces, ⟨?_, ?_, ?_⟩, _, hFailure, hCursor.succ hProgram hLt, hProgram, ?_⟩
    · show m'.success.Inv
      rw [NoppingMinimizer.success, hCandidate]
      refine ⟨hReduces.typed, ?_, ?_⟩
      · rw [hSame]
        exact hMax
      · rw [hSame]
        exact hCursor.next
    · show m'.success.program = candidate
      rw [NoppingMinimizer.success, hCandidate]
    · -- accepted: one instruction more is a nop
      show m'.success.size < m.size
      rw [NoppingMinimizer.success, hCandidate, NoppingMinimizer.size, NoppingMinimizer.size]
      dsimp only
      omega
    · -- refused: the cursor moves on
      show (m'.program.instructions.length - nops m'.program.instructions) +
        (m'.program.instructions.length - (m'.next + 1)) < m.size
      rw [hProgram, NoppingMinimizer.size]
      omega

/-! ## Whole runs -/

/-- What holds of a minimizer over every run from `p`, with one verdict after
each candidate: there are finitely many candidates, nothing panics, candidates
are valid and smaller, and what it has is the last success. -/
structure Minimizes (σ : Type) [Minimizer σ] (p : Program) : Prop where
  finite : ∃ bound, ∀ trace (m : σ), Run (Proposer.new p) trace m → trace.length ≤ bound
  turn : ∀ trace (m : σ), Run (Proposer.new p) trace m →
    ∃ out m', Proposer.next m = .ok (out, m') ∧ Proposer.current m' = Proposer.current m ∧
      ∀ candidate, out = some candidate →
        candidate.isStaticallyValid = .ok true ∧ candidate.context = p.context ∧
        Smaller candidate (Proposer.current m) ∧
        Proposer.current (Proposer.success m') = candidate ∧
        ∃ m'', Proposer.failure m' = .ok m'' ∧ Proposer.current m'' = Proposer.current m
  current : ∀ trace (m : σ), Run (Proposer.new p) trace m →
    Proposer.current m = lastSuccess p trace

theorem context_of_reaches {q p : Program} (h : Relation.ReflTransGen Reduces q p) :
    q.context = p.context := by
  induction h with
  | refl => rfl
  | tail _ hReduces ih => exact ih.trans hReduces.context

theorem minimizes_of_descends {σ : Type} [Minimizer σ] {inv : σ → Prop} {size : σ → Nat}
    (h : Descends inv size Reduces) {p : Program} (hNew : inv (Proposer.new p))
    (hCurrent : Proposer.current (Proposer.new p : σ) = p) : Minimizes σ p where
  finite := by
    -- a turn costs at least one unit of size
    refine ⟨size (Proposer.new p), fun trace m hRun => ?_⟩
    obtain ⟨-, hLength, -⟩ := h.run hRun hNew
    omega
  turn trace m hRun := by
    obtain ⟨hInv, -, -⟩ := h.run hRun hNew
    obtain ⟨out, m', hNext, hSame, hTurn⟩ := h.next m hInv
    refine ⟨out, m', hNext, hSame, fun candidate hSome => ?_⟩
    obtain ⟨hReduces, hTurn⟩ := hTurn candidate hSome
    obtain ⟨m'', hFailure, -, hCurrent'', -⟩ := hTurn.rejected
    have hContext := context_of_reaches (h.reaches hRun hNew)
    rw [hCurrent] at hContext
    exact ⟨hReduces.valid, hReduces.context.trans hContext, hReduces.smaller, hTurn.accepted.2.1,
      m'', hFailure, hCurrent''⟩
  current trace m hRun := by
    obtain ⟨-, -, hLast⟩ := h.run hRun hNew
    rw [hLast, hCurrent]

/-- **Every minimizer ends**, whatever the verdicts: it proposes finitely many
candidates, each of them valid, in the same context and smaller than what it
has, which is the program or the last success; and no index is computed that is
not a `usize`. The program's length is one. -/
theorem minimizers_descend {p : Program} (hValid : p.isStaticallyValid = .ok true)
    (hLength : p.instructions.length ≤ usizeMax) :
    Minimizes CuttingMinimizer p ∧ Minimizes BlockMinimizer p ∧ Minimizes NoppingMinimizer p := by
  have hTyped := isStaticallyValid_iff.mp hValid
  have hCursor : Cursor p 0 := ⟨hTyped, hLength, Nat.zero_le _⟩
  exact ⟨minimizes_of_descends CuttingMinimizer.descends ⟨hTyped, Nat.le_refl _⟩ rfl,
    minimizes_of_descends BlockMinimizer.descends hCursor rfl,
    minimizes_of_descends NoppingMinimizer.descends hCursor rfl⟩

theorem minimizers_descend_singleSetup : Minimizes CuttingMinimizer singleSetup ∧
    Minimizes BlockMinimizer singleSetup ∧ Minimizes NoppingMinimizer singleSetup :=
  minimizers_descend (by decide) (by decide)

end Stratamoto
