import Stratamoto.IR.Minimizers

/-!
# Stratamoto — a block is removed, or the candidate is rejected

Without a block, an input that named a variable of the block would name whatever
variable comes next. Validation rejects it, as behind a block only what its end
defines can be named:

* `keepsInputs_of_candidate` — were it named, the next variable would have to be a
  message too, whose block would enclose the removed one and end before the use;
* `WithoutBlock p q b e` — `q` is `p` with the block from `b` to `e` deleted, its
  inputs naming the definitions they named;
* `block_candidate_keeps_definitions` — so it is for every valid candidate.
-/

namespace Stratamoto

open Brackets Operation Marks

variable {ctx : ProgramContext} {is : List Instruction}

/-! ## The order of definitions -/

/-- Variables are numbered in the order of the instructions. -/
theorem definitions_sorted (is : List Instruction) :
    (definitions is).Pairwise fun d d' => d.instruction ≤ d'.instruction := by
  induction is using List.reverseRecOn with
  | nil => exact List.Pairwise.nil
  | append_singleton is i ih =>
    rw [definitions_snoc]
    refine List.pairwise_append.mpr ⟨ih, ?_, ?_⟩
    · refine List.Pairwise.imp_of_mem (R := fun _ _ => True) (fun hd hd' _ => ?_)
        (List.pairwise_of_forall fun _ _ => trivial)
      rw [instruction_of_mem_definitions hd, instruction_of_mem_definitions hd']
    · intro d hd d' hd'
      obtain ⟨v, hv⟩ := List.mem_iff_getElem?.mp hd
      rw [instruction_of_mem_definitions hd']
      exact Nat.le_of_lt (definition_lt hv)

theorem lt_of_instruction_lt {v v' : Nat} {d d' : Definition} (hd : (definitions is)[v]? = some d)
    (hd' : (definitions is)[v']? = some d') (h : d.instruction < d'.instruction) : v < v' := by
  obtain ⟨hv, rfl⟩ := List.getElem?_eq_some_iff.mp hd
  obtain ⟨hv', rfl⟩ := List.getElem?_eq_some_iff.mp hd'
  rcases Nat.lt_trichotomy v v' with hLt | rfl | hGt
  · exact hLt
  · exact absurd h (Nat.lt_irrefl _)
  · have hSorted := List.pairwise_iff_getElem.mp (definitions_sorted is) v' v hv' hv hGt
    omega

/-! ## Messages of blocks -/

/-- What the end of a block defines is a message. -/
theorem end_definition {i : Instruction} {n : Nat} {k : BlockKind} {d : Definition}
    (hClosing : i.operation.bracket = .closing k) (hd : d ∈ i.definitions n) :
    ∃ protocol, d.var = .constSetupConnection protocol := by
  obtain ⟨-, hVar⟩ := mem_definitions_of.mp hd
  obtain ⟨inputs, op⟩ := i
  cases op <;> simp_all [bracket, getOutputVariables, getInnerOutputVariables]

/-- A message is defined by the end of the block that built it. -/
theorem operation_of_message {i : Instruction} {n : Nat} {protocol : Protocol} {d : Definition}
    (hVar : d.var = .constSetupConnection protocol) (hd : d ∈ i.definitions n) :
    i.operation = .endBuildSetupConnection protocol := by
  have hMakes := makes_of_output (mem_definitions_of.mp hd).2
  rw [hVar] at hMakes
  exact hMakes

/-- Between a message that is still in scope and a later one stands the variable
the later one was built in. -/
theorem variable_between (hTyped : WellTyped ctx is) {e n v v₂ : Nat} {var : Variable}
    {d d₂ : Definition} {protocol : Protocol} (hn : n ≤ is.length)
    (hNames : Names (is.take n) v var)
    (hd : (definitions (is.take n))[v]? = some d) (hEnd : d.instruction = e)
    (hd₂ : (definitions (is.take n))[v₂]? = some d₂)
    (hMessage : d₂.var = .constSetupConnection protocol) (hBehind : e < d₂.instruction) :
    ∃ v₃ d₃, (definitions (is.take n))[v₃]? = some d₃ ∧ v < v₃ ∧ v₃ < v₂ ∧ e < d₃.instruction := by
  have hd₂Lt : d₂.instruction < n := definition_take_lt hd₂
  obtain ⟨i₂, hi₂, hMem₂⟩ := mem_definitions (List.mem_of_getElem? (definitions_take hd₂))
  have hClosing : (brackets is)[d₂.instruction]? = some (.closing .build) := by
    rw [brackets, List.getElem?_map, hi₂, Option.map_some, operation_of_message hMessage hMem₂]
    rfl
  obtain ⟨b₂, hBlock₂⟩ := hTyped.balanced.exists_matches_of_closing hClosing
  -- where the second message is begun: behind the end of the first, or before it
  rcases Nat.lt_or_ge e b₂ with hLater | hAround
  · obtain ⟨i₃, hi₃, hOp₃⟩ : ∃ i₃, is[b₂]? = some i₃ ∧
        i₃.operation = .beginBuildSetupConnection := by
      obtain ⟨k, hOpening, hSame⟩ := hBlock₂.tokens
      rw [hClosing, Option.some.injEq, Token.closing.injEq] at hSame
      subst hSame
      rw [brackets, List.getElem?_map, Option.map_eq_some_iff] at hOpening
      obtain ⟨⟨inputs, op⟩, hi₃, hBracket⟩ := hOpening
      refine ⟨_, hi₃, ?_⟩
      cases op <;> first | rfl | cases hBracket
    -- then the message under construction is a variable between the two
    have hInner : (⟨b₂, true, .mutSetupConnection⟩ : Definition) ∈ i₃.definitions b₂ := by
      rw [mem_definitions_of, hOp₃]
      exact ⟨rfl, List.mem_singleton_self _⟩
    have hbLt := hBlock₂.lt
    have hTake₃ : (is.take n)[b₂]? = some i₃ := by
      rw [List.getElem?_take_of_lt (Nat.lt_trans hbLt hd₂Lt), hi₃]
    obtain ⟨v₃, hd₃⟩ := List.mem_iff_getElem?.mp (mem_definitions_of_getElem? hTake₃ hInner)
    have hFirst : v < v₃ := lt_of_instruction_lt hd hd₃ (by rw [hEnd]; exact hLater)
    exact ⟨v₃, _, hd₃, hFirst, lt_of_instruction_lt hd₃ hd₂ hbLt, hLater⟩
  · -- begun before, that block would have closed the scope of the first message
    have hSame := names_behind_block hTyped hBlock₂ hn hNames hd (by omega) (by omega) hd₂Lt
    omega

/-! ## The candidate -/

section Candidate

variable {l m r : List Instruction}

theorem kept_outside_block {b e : Nat} (hb : b = l.length) (he : e + 1 = l.length + m.length)
    {n : Nat} {i : Instruction} (hi : (l ++ m ++ r)[n]? = some i) :
    (around l m r)[n]? = some (i, decide (n < b ∨ e < n)) := by
  rw [← wholeOf_around, wholeOf, List.getElem?_map, Option.map_eq_some_iff] at hi
  obtain ⟨⟨j, kept⟩, hn, rfl⟩ := hi
  rw [hn]
  rcases getElem?_around hn with ⟨rfl, hl⟩ | ⟨rfl, k, rfl, hm⟩ | ⟨rfl, k, rfl, -⟩
  · have := (List.getElem?_eq_some_iff.mp hl).1
    rw [decide_eq_true (by omega)]
  · have := (List.getElem?_eq_some_iff.mp hm).1
    rw [decide_eq_false (by omega)]
  · rw [decide_eq_true (by omega)]

/-- **What validation accepts was not rewired**: the instructions around the block
named nothing in it. -/
theorem keepsInputs_of_candidate (hTyped : WellTyped ctx (l ++ m ++ r)) {b e : Nat}
    (hBlock : Matches (brackets (l ++ m ++ r)) b e) (hb : b = l.length)
    (he : e + 1 = l.length + m.length) (hCandidate : WellTyped ctx (keptOf (around l m r))) :
    KeepsInputs (around l m r) := by
  intro n i hn v hv
  have hWhole := getElem?_wholeOf hn
  have hAfter := hTyped.instructions n i (by rwa [wholeOf_around] at hWhole)
  obtain ⟨hKept, hBefore⟩ := getElem?_keptOf hn
  have hAfterKept := hCandidate.instructions _ _ hKept
  rw [hBefore] at hAfterKept
  rw [wholeOf_around] at hWhole
  have hLength := (List.getElem?_eq_some_iff.mp hWhole).1
  set is := l ++ m ++ r with hIs
  set ms := (around l m r).take n with hMs
  have hOf : wholeOf ms = is.take n := by rw [hMs, wholeOf_take, wholeOf_around]
  -- the type the instruction wants in that place, before and after
  obtain ⟨k, hk⟩ := List.mem_iff_getElem?.mp hv
  have hk' : k < i.operation.getInputVariables.length := by
    have hArity : i.inputs.length = i.operation.getInputVariables.length := hAfter.arity
    rw [← hArity]
    exact (List.getElem?_eq_some_iff.mp hk).1
  set var := i.operation.getInputVariables[k] with hVar
  have hWants : i.operation.getInputVariables[k]? = some var := List.getElem?_eq_getElem hk'
  have hNames := hAfter.inputs k v var hk hWants
  have hNamesKept : Names (keptOf ms) (varAt ms v) var := by
    refine hAfterKept.inputs k _ var ?_ hWants
    show (i.inputs.map (varAt ms))[k]? = _
    rw [List.getElem?_map, hk]
    rfl
  obtain ⟨d, hd, hdVar, -⟩ := id hNames
  -- where the kept instructions stand
  have hAt : ∀ j < n, KeptAt ms j ↔ (j < b ∨ e < j) := by
    intro j hj
    have hj' : j < is.length := Nat.lt_trans hj hLength
    have hMark := kept_outside_block hb he (List.getElem?_eq_getElem hj')
    have hTake : ms[j]? = some (is[j], decide (j < b ∨ e < j)) := by
      rw [hMs, List.getElem?_take_of_lt hj]
      exact hMark
    rw [keptAt_iff, hTake]
    simp
  have hSelf : n < b ∨ e < n := by
    have hMark := kept_outside_block hb he hWhole
    rw [hn] at hMark
    simpa using hMark
  have hdLt : d.instruction < n := definition_take_lt hd
  by_contra hDropped
  have hIn : ¬ (d.instruction < b ∨ e < d.instruction) := by
    intro hOut
    exact hDropped ((definition_keptOf (by rw [hOf]; exact hd)).1.mpr ((hAt _ hdLt).mpr hOut))
  -- only what the end of the block defines was in scope, and that is a message
  have hEnd : d.instruction = e :=
    names_behind_block hTyped hBlock (Nat.le_of_lt hLength) hNames hd (by omega) (by omega) (by omega)
  obtain ⟨kind, -, hClosing⟩ := hBlock.tokens
  obtain ⟨i₁, hi₁, hMem₁⟩ := mem_definitions (List.mem_of_getElem? (definitions_take hd))
  obtain ⟨protocol, hMessage⟩ : ∃ protocol, d.var = .constSetupConnection protocol := by
    rw [brackets, List.getElem?_map, ← hEnd, hi₁] at hClosing
    exact end_definition (Option.some.inj hClosing) hMem₁
  -- the variable that took its place is defined behind the block
  obtain ⟨d', hd', hdVar', -⟩ := hNamesKept
  obtain ⟨v₂, d₂, hKept₂, hPlace, hd₂, rfl⟩ := exists_of_definition_keptOf hd'
  have hAt₂ := (definition_keptOf hd₂).1.mp hKept₂
  rw [hOf] at hd₂
  have hd₂Lt : d₂.instruction < n := definition_take_lt hd₂
  have hBehind : e < d₂.instruction := by
    rcases (hAt _ hd₂Lt).mp hAt₂ with hFront | hBehind
    · have hOrder := lt_of_instruction_lt hd₂ hd (by omega)
      have := renumber_lt hKept₂ hOrder
      unfold varAt at hPlace
      omega
    · exact hBehind
  -- so it is a message as well, and the first variable of its block comes before it
  have hMessage₂ : d₂.var = .constSetupConnection protocol := by
    rw [← hMessage, hdVar, ← hdVar']
    rfl
  obtain ⟨v₃, d₃, hd₃, hFirst, hSecond, hLater⟩ :=
    variable_between hTyped (Nat.le_of_lt hLength) hNames hd hEnd hd₂ hMessage₂ hBehind
  have hd₃Lt : d₃.instruction < n := definition_take_lt hd₃
  have hKept₃ : KeptVar ms v₃ :=
    (definition_keptOf (by rw [hOf]; exact hd₃)).1.mpr ((hAt _ hd₃Lt).mpr (Or.inr hLater))
  have hLe : varAt ms v ≤ varAt ms v₃ := renumber_mono (Nat.le_of_lt hFirst)
  have hLt : varAt ms v₃ < varAt ms v₂ := renumber_lt hKept₃ hSecond
  omega

/-- Positions behind the block close the gap it leaves. -/
theorem positionAt_block {b e : Nat} (hb : b = l.length) (he : e + 1 = l.length + m.length) {n : Nat}
    (hn : n < l.length + m.length + r.length) (hOut : n < b ∨ e < n) :
    positionAt (around l m r) n = closeGap b (e + 1 - b) n := by
  have hOnes : ∀ xs : List Instruction, (xs.map fun _ => 1).sum = xs.length := by simp
  have hAround : ∀ u ≤ l.length + r.length,
      positionAt (around l m r) (moveUp l.length m.length u) = u := by
    intro u hu
    have hMoved := renumber_around (w := fun _ : Instruction => 1) (l := l) (m := m) (r := r)
      (u := u) (by rwa [hOnes, hOnes])
    rwa [hOnes, hOnes] at hMoved
  rcases hOut with hFront | hBehind
  · rw [closeGap_of_lt hFront]
    have hMoved := hAround n (by omega)
    rwa [moveUp_of_lt (by omega)] at hMoved
  · rw [closeGap_of_le (by omega)]
    have hMoved := hAround (n - (e + 1 - b)) (by omega)
    rwa [moveUp_of_le (by omega), show n - (e + 1 - b) + m.length = n by omega] at hMoved

end Candidate

/-! ## The block is deleted, and nothing else -/

theorem exists_of_forall₂ {α β : Type} {R : α → β → Prop} {xs : List α} {ys : List β}
    (h : List.Forall₂ R xs ys) {x : α} (hx : x ∈ xs) : ∃ y ∈ ys, R x y := by
  obtain ⟨k, hk, rfl⟩ := List.mem_iff_getElem.mp hx
  have hk' : k < ys.length := by rwa [← h.length_eq]
  exact ⟨ys[k], List.getElem_mem hk', h.get hk hk'⟩

/-- A variable of `p` outside the block, and the one of `q` with its definition. -/
def SameDefinition (p q : Program) (b e v v' : Nat) : Prop :=
  ∃ d, (definitions p.instructions)[v]? = some d ∧ (d.instruction < b ∨ e < d.instruction) ∧
    (definitions q.instructions)[v']? =
      some { d with instruction := closeGap b (e + 1 - b) d.instruction }

/-- `q` is `p` with the block from `b` to `e` deleted, the remaining inputs naming
the definitions they named. -/
structure WithoutBlock (p q : Program) (b e : Nat) : Prop where
  context : q.context = p.context
  length : q.instructions.length + (e + 1 - b) = p.instructions.length
  instruction : ∀ (n : Nat) (i : Instruction), p.instructions[n]? = some i → n < b ∨ e < n →
    ∃ i', q.instructions[closeGap b (e + 1 - b) n]? = some i' ∧ i'.operation = i.operation ∧
      List.Forall₂ (SameDefinition p q b e) i.inputs i'.inputs

theorem withoutBlock_of_keepsInputs {l m r : List Instruction} {b e : Nat} (hb : b = l.length)
    (he : e + 1 = l.length + m.length) (hScoped : Scoped (l ++ m ++ r))
    (hKeeps : KeepsInputs (around l m r)) :
    WithoutBlock ⟨ctx, l ++ m ++ r⟩ ⟨ctx, keptOf (around l m r)⟩ b e where
  context := rfl
  length := by
    show (keptOf (around l m r)).length + (e + 1 - b) = (l ++ m ++ r).length
    rw [length_keptOf_around, List.length_append, List.length_append]
    omega
  instruction n i hi hOut := by
    have hi : (l ++ m ++ r)[n]? = some i := hi
    have hLength : (l ++ m ++ r).length = l.length + m.length + r.length := by
      rw [List.length_append, List.length_append]
    have hn := (List.getElem?_eq_some_iff.mp hi).1
    have hMark := kept_outside_block hb he hi
    rw [decide_eq_true hOut] at hMark
    obtain ⟨hKept, -⟩ := getElem?_keptOf hMark
    rw [positionAt_block hb he (by omega) hOut] at hKept
    refine ⟨_, hKept, rfl, ?_⟩
    show List.Forall₂ _ i.inputs (i.inputs.map (varAt ((around l m r).take n)))
    rw [List.forall₂_map_right_iff, List.forall₂_same]
    intro v hv
    have hv' := hScoped n i hi v hv
    obtain ⟨d, hd⟩ : ∃ d, (definitions ((l ++ m ++ r).take n))[v]? = some d :=
      ⟨_, List.getElem?_eq_getElem hv'⟩
    have hdWhole := definitions_take hd
    -- the inputs of what is kept are kept with it
    have hKeptVar : KeptVar (around l m r) v := by
      have hTake := hKeeps n i hMark v hv
      rw [← List.take_append_drop n (around l m r)]
      exact Kept.append hTake _
    have hSame : varAt ((around l m r).take n) v = varAt (around l m r) v := by
      refine varAt_take ?_
      rw [wholeOf_take, wholeOf_around]
      exact Nat.le_of_lt hv'
    rw [← wholeOf_around] at hdWhole
    obtain ⟨hIff, hDefinition⟩ := definition_keptOf hdWhole
    rw [wholeOf_around] at hdWhole
    have hdLt := definition_lt hdWhole
    -- and only what lies outside the block is kept
    have hdOut : d.instruction < b ∨ e < d.instruction := by
      obtain ⟨j, hj⟩ := keptAt_iff.mp (hIff.mp hKeptVar)
      have hMark' := kept_outside_block hb he (List.getElem?_eq_getElem hdLt)
      rw [hj] at hMark'
      exact of_decide_eq_true (Prod.mk.inj (Option.some.inj hMark')).2.symm
    refine ⟨d, hdWhole, hdOut, ?_⟩
    rw [hSame]
    show (definitions (keptOf (around l m r)))[varAt (around l m r) v]? = _
    rw [hDefinition hKeptVar, Definition.renumber, positionAt_block hb he (by omega) hdOut]

/-- **A valid candidate is the program with the block deleted**: no instruction
that is kept had an input defined in the block, and every input names the
definition it named. -/
theorem block_candidate_keeps_definitions {p q : Program} {b e : Nat}
    (hValid : p.isStaticallyValid = .ok true) (hBlock : Matches (brackets p.instructions) b e)
    (hWithout : p.without (flagged p.instructions.length b (e + 1)) = .ok q)
    (hCandidate : q.isStaticallyValid = .ok true) :
    (∀ (n : Nat) (i : Instruction), p.instructions[n]? = some i → n < b ∨ e < n →
      ∀ v ∈ i.inputs, ∀ d, (definitions p.instructions)[v]? = some d →
        d.instruction < b ∨ e < d.instruction) ∧
    WithoutBlock p q b e ∧
    (p.instructions.length ≤ usizeMax → BlockMinimizer.propose p b = .ok (some q)) := by
  obtain ⟨ctx, is⟩ := p
  have hTyped : WellTyped ctx is := isStaticallyValid_iff.mp hValid
  obtain ⟨l, m, r, hSplit, hb, he, -, hEq⟩ := without_block ctx hTyped.instructions.scoped hBlock
  have hq : q = ⟨ctx, keptOf (around l m r)⟩ := Except.ok.inj (hWithout.symm.trans hEq)
  subst hSplit hq
  have hKept : WellTyped ctx (keptOf (around l m r)) := isStaticallyValid_iff.mp hCandidate
  -- a valid candidate reads nothing that was in the block
  have hWithoutBlock : WithoutBlock ⟨ctx, l ++ m ++ r⟩ ⟨ctx, keptOf (around l m r)⟩ b e :=
    withoutBlock_of_keepsInputs hb he hTyped.instructions.scoped
      (keepsInputs_of_candidate hTyped hBlock hb he hKept)
  refine ⟨fun n i hi hOut v hv d hd => ?_, hWithoutBlock, fun hMax => ?_⟩
  · obtain ⟨i', -, -, hInputs⟩ := hWithoutBlock.instruction n i hi hOut
    obtain ⟨v', -, d', hd', hdOut, -⟩ := exists_of_forall₂ hInputs hv
    obtain rfl := Option.some.inj (hd.symm.trans hd')
    exact hdOut
  · obtain ⟨l', m', r', -, -, -, -, hEq', hPropose⟩ := BlockMinimizer.propose_block hTyped hMax hBlock
    rw [hPropose, ← Program.mk.inj (Except.ok.inj (hEq.symm.trans hEq')) |>.2, ifValid, hCandidate]
    rfl

/-- A message nobody sends, built between a connection's role and its first frame. -/
def unsentMessage : Program where
  context := ⟨1, 0, 0⟩
  instructions := [⟨[], .loadRole 0⟩, ⟨[], .beginBuildSetupConnection⟩,
    ⟨[1], .endBuildSetupConnection .mining⟩, ⟨[0], .connect⟩, ⟨[], .loadBytes [0]⟩,
    ⟨[3, 4], .sendRawFrame 1 0⟩]

theorem block_candidate_keeps_definitions_unsentMessage :
    ∃ q, unsentMessage.without (flagged 6 1 3) = .ok q ∧ WithoutBlock unsentMessage q 1 2 ∧
      q.instructions = [⟨[], .loadRole 0⟩, ⟨[0], .connect⟩, ⟨[], .loadBytes [0]⟩,
        ⟨[1, 2], .sendRawFrame 1 0⟩] := by
  have hBlock : Matches (brackets unsentMessage.instructions) 1 2 :=
    ⟨[.plain], [], [.plain, .plain, .plain], .build, rfl, .nil, rfl, rfl⟩
  obtain ⟨q, hWithout, hValid, hShape⟩ : ∃ q,
      unsentMessage.without (flagged 6 1 3) = .ok q ∧ q.isStaticallyValid = .ok true ∧
        q.instructions = [⟨[], .loadRole 0⟩, ⟨[0], .connect⟩, ⟨[], .loadBytes [0]⟩,
          ⟨[1, 2], .sendRawFrame 1 0⟩] := ⟨_, rfl, by decide, rfl⟩
  exact ⟨q, hWithout,
    (block_candidate_keeps_definitions (by decide) hBlock hWithout hValid).2.1, hShape⟩

end Stratamoto
