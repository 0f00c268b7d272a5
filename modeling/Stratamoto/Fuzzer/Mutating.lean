import Stratamoto.Fuzzer.Generating
import Stratamoto.Fuzzer.Stages

/-!
# Stratamoto — the fuzzer's mutators

`IrMutator` and `IrSpliceMutator` of the fuzzer's `mutators.rs`, and the mutators
that `instance.rs` schedules. A mutator of the IR works on a copy of the input, and
the copy takes the input's place if it is acceptable.

* `Accepts p` — what a mutation may come to;
* `mutation_accepts` — none of the mutators does anything else.
-/

namespace Stratamoto

open Brackets Draws

section Mutators

variable {ρ : Type} (rng : RngExt ρ)

/-- What a mutator of the IR makes of an input, if it is acceptable. -/
def IrMutator.mutate (mutator : Program → Draw Panic ρ (Except MutatorError Unit × Program))
    (input : Program) : Draw Panic ρ (MutationResult × Program) := do
  match ← mutator input with
  | (.error _, _) => pure (.skipped, input)
  | (.ok (), candidate) =>
    if ← Draw.lift (acceptable candidate) then pure (.mutated, candidate)
    else pure (.skipped, input)

/-- Splice with the entry that was drawn, unless that is the one being fuzzed, or
has not been minimized. -/
def IrSpliceMutator.mutate (corpus : List Testcase) (current : Option Nat) (id : Nat)
    (input : Program) : Draw Panic ρ (MutationResult × Program) :=
  if current = some id then pure (.skipped, input)
  else
    match corpus[id]? with
    | none => Draw.lift (.error .indexOutOfBounds)
    | some other =>
      if other.scheduledCount = 0 then pure (.skipped, input)
      else IrMutator.mutate (fun p => ConcatMutator.splice p other.input) input

/-- The mutators that are scheduled, the last three of them generators that insert. -/
inductive Mutation where
  | input
  | operation
  /-- With the id that is drawn from the corpus. -/
  | concat (id : Nat)
  | setupConnection
  | adversarialSetup
  | rawFrame
  deriving DecidableEq, Repr

/-- What a mutator does to an input, in a corpus. -/
def Mutation.mutate (numRoles : Nat) (corpus : List Testcase) (current : Option Nat) (fuel : Nat)
    (input : Program) : Mutation → Draw Panic ρ (MutationResult × Program)
  | .input => IrMutator.mutate (InputMutator.mutate rng) input
  | .operation => IrMutator.mutate (OperationMutator.mutate rng fuel) input
  | .concat id => IrSpliceMutator.mutate corpus current id input
  | .setupConnection => IrGenerator.mutate rng (AnyRoleSetup.generate rng ⟨numRoles⟩) input
  | .adversarialSetup =>
    IrGenerator.mutate rng (AnyRoleAdversarialSetup.generate rng ⟨numRoles⟩) input
  | .rawFrame => IrGenerator.mutate rng (AnyRoleRawFrame.generate rng ⟨numRoles⟩) input

end Mutators

/-! ## What a mutation comes to -/

/-- The input is left alone, or a valid program of its context is there instead. -/
inductive Accepts (p : Program) : MutationResult × Program → Prop where
  | skipped : Accepts p (.skipped, p)
  | mutated {q : Program} : q.isStaticallyValid = .ok true → q.context = p.context →
    q.instructions.length ≤ maxInstructions → Accepts p (.mutated, q)

section Accepting

variable {ρ : Type} {p : Program}

/-- What is left of a candidate once it has been looked at. -/
theorem accepts_candidate {q : Program} (hValid : q.isStaticallyValid = .ok true)
    (hContext : q.context = p.context) :
    Ensures (do
      if ← Draw.lift (acceptable q) then pure (.mutated, q) else pure (.skipped, p) :
        Draw Panic ρ (MutationResult × Program)) (Accepts p) := by
  refine Ensures.bind (Ensures.lift (acceptable_of_valid hValid) (Eq.refl _)) fun accepted hEq => ?_
  subst hEq
  split
  · rename_i hShort
    exact Ensures.pure (.mutated hValid hContext (of_decide_eq_true hShort))
  · exact Ensures.pure .skipped

theorem IrMutator.accepts
    {mutator : Program → Draw Panic ρ (Except MutatorError Unit × Program)}
    (h : Yields (mutator p) (KeepsValid p)) : Yields (IrMutator.mutate mutator p) (Accepts p) := by
  refine h.bind fun out hKeeps => ?_
  obtain ⟨result, candidate⟩ := out
  cases result with
  | error e => exact (Ensures.pure .skipped).yields
  | ok _ =>
    obtain ⟨hValid, hContext⟩ := hKeeps.ok rfl
    exact (accepts_candidate hValid hContext).yields

theorem IrSpliceMutator.accepts {corpus : List Testcase} {current : Option Nat} {id : Nat}
    (hTyped : WellTyped p.context p.instructions) (hId : id < corpus.length)
    (hCorpus : ∀ t ∈ corpus, t.input.isStaticallyValid = .ok true) :
    Yields (IrSpliceMutator.mutate corpus current id p : Draw Panic ρ _) (Accepts p) := by
  unfold IrSpliceMutator.mutate
  split
  · exact (Ensures.pure .skipped).yields
  · rw [List.getElem?_eq_getElem hId]
    dsimp only
    split
    · exact (Ensures.pure .skipped).yields
    · have hOther := isStaticallyValid_iff.mp (hCorpus _ (List.getElem_mem hId))
      exact IrMutator.accepts (ConcatMutator.splice_keepsValid hTyped hOther.balanced).yields

theorem IrGenerator.accepts (rng : RngExt ρ) (hTyped : WellTyped p.context p.instructions)
    (g : FuzzGenerator) : Ensures (IrGenerator.mutate rng (g.generate rng) p) (Accepts p) := by
  have hZero : 0 ∈ insertionPoints p.instructions :=
    (mem_insertionPoints hTyped).mpr ⟨Nat.zero_le _, rfl⟩
  refine Ensures.bind (rng.ensures_randomRange emptyRange 64 (List.length_pos_of_mem hZero))
    fun k hk => ?_
  rw [List.getElem?_eq_getElem hk.2]
  have hCandidate : Ensures (IrGenerator.candidate (g.generate rng) p
      ((insertionPoints p.instructions).get ⟨k, hk.2⟩)) fun out => ∀ q, out = some q →
        q.isStaticallyValid = .ok true ∧ q.context = p.context := by
    intro r
    obtain ⟨out, r', hRun, -, hInserts⟩ :=
      IrGenerator.candidate_inserts Sv2.wire_lawful rng hTyped g (List.getElem_mem hk.2) r
    refine ⟨out, r', hRun, fun q hq => ?_⟩
    obtain ⟨l, -, hInserted, -⟩ := hInserts q hq
    exact ⟨hInserted.valid, hInserted.context⟩
  refine Ensures.bind hCandidate ?_
  rintro (- | q) hInserts
  · exact Ensures.pure .skipped
  · obtain ⟨hValid, hContext⟩ := hInserts q rfl
    exact accepts_candidate hValid hContext

/-- **No mutator does anything but skip or accept**, where the corpus is valid. -/
theorem mutation_accepts (rng : RngExt ρ) (numRoles : Nat) {corpus : List Testcase}
    (current : Option Nat) (fuel : Nat) (hValid : p.isStaticallyValid = .ok true)
    (hCorpus : ∀ t ∈ corpus, t.input.isStaticallyValid = .ok true) (m : Mutation)
    (hDrawn : ∀ id, m = .concat id → id < corpus.length) :
    Yields (m.mutate rng numRoles corpus current fuel p) (Accepts p) := by
  have hTyped := isStaticallyValid_iff.mp hValid
  cases m with
  | input => exact IrMutator.accepts (InputMutator.keepsValid rng hTyped).yields
  | operation => exact IrMutator.accepts (OperationMutator.keepsValid rng fuel hTyped)
  | concat id => exact IrSpliceMutator.accepts hTyped (hDrawn id rfl) hCorpus
  | setupConnection => exact (IrGenerator.accepts rng hTyped (.anyRoleSetup ⟨numRoles⟩)).yields
  | adversarialSetup =>
    exact (IrGenerator.accepts rng hTyped (.anyRoleAdversarialSetup ⟨numRoles⟩)).yields
  | rawFrame => exact (IrGenerator.accepts rng hTyped (.anyRoleRawFrame ⟨numRoles⟩)).yields

end Accepting

end Stratamoto
