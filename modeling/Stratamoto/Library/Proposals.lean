import Mathlib.Logic.Relation
import Stratamoto.Library.Fuel

/-!
# Searches that propose candidates

A search has something (`current`) and proposes candidates for its place, one at
a time; after each it is told whether the candidate was a success. Where every
proposal makes some number smaller, whatever the answer, the search ends.

* `Run s trace s'` — the search goes from `s` to `s'`, with these candidates and answers;
* `Descends inv size better` — what one turn does;
* `Descends.run`, `Descends.improves` — what a whole run does;
* `Descends.drive` — with the answers of a predicate, the search ends.
-/

namespace Proposals

open Fuel Relation

universe u

/-- A search over the states `σ`. -/
class Proposer (ε α : outParam (Type u)) (σ : Type u) where
  new : α → σ
  /-- The next candidate, if there is another one. -/
  next : σ → Except ε (Option α × σ)
  success : σ → σ
  failure : σ → Except ε σ
  current : σ → α

variable {ε α σ : Type u} [Proposer ε α σ]

open Proposer

/-- What follows the answer to a candidate. -/
def answer (verdict : Bool) (s : σ) : Except ε σ :=
  if verdict then .ok (success s) else failure s

/-- The search goes on, one answer after each candidate. -/
inductive Run : σ → List (α × Bool) → σ → Prop
  | done (s : σ) : Run s [] s
  | turn {s s₁ s₂ s' : σ} {candidate : α} {verdict : Bool} {trace : List (α × Bool)} :
      next s = .ok (some candidate, s₁) → answer verdict s₁ = .ok s₂ → Run s₂ trace s' →
      Run s ((candidate, verdict) :: trace) s'

/-- The last candidate that was a success, or else what there was. -/
def lastSuccess (a : α) (trace : List (α × Bool)) : α :=
  trace.foldl (fun a q => if q.2 then q.1 else a) a

/-- Take the candidates that satisfy `P`, until there is none; the flag tells
whether one was taken. -/
def drive (P : α → Bool) : Nat → Bool → σ → ExceptT ε Option (Bool × σ)
  | 0, _, _ => ExceptT.mk none
  | fuel + 1, progress, s => do
    match ← ExceptT.mk (some (next s)) with
    | (none, s) => pure (progress, s)
    | (some candidate, s) =>
      if P candidate then drive P fuel true (success s)
      else drive P fuel progress (← ExceptT.mk (some (failure s)))

/-! ## One turn -/

/-- What becomes of a candidate, whatever the answer. -/
structure Turn (inv : σ → Prop) (size : σ → Nat) (s s₁ : σ) (candidate : α) : Prop where
  accepted : inv (success s₁) ∧ current (success s₁) = candidate ∧ size (success s₁) < size s
  rejected : ∃ s₂, failure s₁ = .ok s₂ ∧ inv s₂ ∧ current s₂ = current s ∧ size s₂ < size s

/-- The search does not fail, proposes what is better than what it has, and
every turn makes the size smaller. -/
structure Descends (inv : σ → Prop) (size : σ → Nat) (better : α → α → Prop) : Prop where
  next : ∀ s, inv s → ∃ out s₁, next s = .ok (out, s₁) ∧ current s₁ = current s ∧
    ∀ candidate, out = some candidate →
      better candidate (current s) ∧ Turn inv size s s₁ candidate

variable {inv : σ → Prop} {size : σ → Nat} {better : α → α → Prop} {s s₁ s' : σ} {candidate : α}
  {trace : List (α × Bool)}

theorem Descends.turn (h : Descends inv size better) (hs : inv s)
    (hNext : Proposer.next s = .ok (some candidate, s₁)) :
    better candidate (current s) ∧ Turn inv size s s₁ candidate := by
  obtain ⟨out, s₂, hNext', -, hTurn⟩ := h.next s hs
  obtain ⟨rfl, rfl⟩ := Prod.mk.inj (Except.ok.inj (hNext'.symm.trans hNext))
  exact hTurn candidate rfl

/-- Whatever the answer, the search goes on. -/
theorem Turn.answer (h : Turn inv size s s₁ candidate) (verdict : Bool) :
    ∃ s₂, answer verdict s₁ = .ok s₂ ∧ inv s₂ ∧ size s₂ < size s ∧
      current s₂ = if verdict then candidate else current s := by
  cases verdict with
  | true =>
    obtain ⟨hInv, hCurrent, hSize⟩ := h.accepted
    exact ⟨success s₁, rfl, hInv, hSize, hCurrent⟩
  | false =>
    obtain ⟨s₂, hFailure, hInv, hCurrent, hSize⟩ := h.rejected
    exact ⟨s₂, hFailure, hInv, hSize, hCurrent⟩

/-! ## Whole runs -/

/-- **A run keeps the invariant, is short, and has what was last a success.** -/
theorem Descends.run (h : Descends inv size better) (hRun : Run s trace s') (hs : inv s) :
    inv s' ∧ trace.length + size s' ≤ size s ∧ current s' = lastSuccess (current s) trace := by
  induction hRun with
  | done s => exact ⟨hs, by simp, rfl⟩
  | turn hNext hAnswer _ ih =>
    obtain ⟨-, hTurn⟩ := h.turn hs hNext
    obtain ⟨s₂, hAnswer', hInv, hSize, hCurrent⟩ := hTurn.answer _
    obtain rfl := Except.ok.inj (hAnswer'.symm.trans hAnswer)
    obtain ⟨hInv', hLength, hLast⟩ := ih hInv
    refine ⟨hInv', ?_, ?_⟩
    · rw [List.length_cons]
      omega
    · rw [hLast, hCurrent]
      rfl

theorem lastSuccess_of_failures {a : α} (h : ∀ q ∈ trace, q.2 = false) :
    lastSuccess a trace = a := by
  induction trace with
  | nil => rfl
  | cons q trace ih =>
    have hq := h q (List.mem_cons_self ..)
    show lastSuccess (if q.2 then q.1 else a) trace = a
    rw [hq]
    exact ih fun q' hq' => h q' (List.mem_cons_of_mem _ hq')

/-- A run in which there was a success has something better in the end. -/
theorem Descends.improves (h : Descends inv size better) (hRun : Run s trace s') (hs : inv s)
    (hSuccess : ∃ q ∈ trace, q.2 = true) : TransGen better (current s') (current s) := by
  induction hRun with
  | done s =>
    obtain ⟨q, hq, -⟩ := hSuccess
    cases hq
  | @turn s s₁ s₂ s' candidate verdict trace hNext hAnswer hRest ih =>
    obtain ⟨hBetter, hTurn⟩ := h.turn hs hNext
    obtain ⟨t, hAnswer', hInv, -, hCurrent⟩ := hTurn.answer verdict
    obtain rfl := Except.ok.inj (hAnswer'.symm.trans hAnswer)
    by_cases hLater : ∃ q ∈ trace, q.2 = true
    · -- what the rest improves on is the candidate, or what there was before it
      have hRestBetter := ih hInv hLater
      rw [hCurrent] at hRestBetter
      cases verdict with
      | true => exact hRestBetter.tail hBetter
      | false => exact hRestBetter
    · have hNone : ∀ q ∈ trace, q.2 = false := by
        intro q hq
        exact Bool.not_eq_true _ ▸ fun hTrue => hLater ⟨q, hq, hTrue⟩
      obtain ⟨-, -, hLast⟩ := h.run hRest hInv
      rw [lastSuccess_of_failures hNone, hCurrent] at hLast
      obtain ⟨q, hq, hTrue⟩ := hSuccess
      rcases List.mem_cons.mp hq with rfl | hq
      · obtain rfl : verdict = true := hTrue
        rw [hLast]
        exact .single hBetter
      · exact absurd ⟨q, hq, hTrue⟩ hLater

/-- What the search has comes from what it had, one improvement after another. -/
theorem Descends.reaches (h : Descends inv size better) (hRun : Run s trace s') (hs : inv s) :
    ReflTransGen better (current s') (current s) := by
  by_cases hSuccess : ∃ q ∈ trace, q.2 = true
  · exact (h.improves hRun hs hSuccess).to_reflTransGen
  · obtain ⟨-, -, hLast⟩ := h.run hRun hs
    rw [hLast, lastSuccess_of_failures fun q hq => Bool.not_eq_true _ ▸ fun hTrue =>
      hSuccess ⟨q, hq, hTrue⟩]

/-! ## Driven by a predicate -/

/-- **Driven by a predicate, the search ends**: it runs, is answered as the
predicate says, and then has no candidate left. -/
theorem Descends.drive (h : Descends inv size better) (P : α → Bool) (hs : inv s) :
    ∃ trace s₁ s', Run s trace s₁ ∧ Proposer.next s₁ = .ok (none, s') ∧
      (∀ q ∈ trace, q.2 = P q.1) ∧ ∀ progress, Settles (fun fuel => (drive P fuel progress s).run)
        (.ok (progress || trace.any Prod.snd, s')) := by
  induction hSize : size s using Nat.strongRecOn generalizing s with
  | _ n ih =>
    obtain ⟨out, s₁, hNext, -, hTurn⟩ := h.next s hs
    cases out with
    | none =>
      refine ⟨[], s, s₁, .done s, hNext, by simp, fun progress => Settles.turn ?_⟩
      have hStop : ∀ fuel, (Proposals.drive P (fuel + 1) progress s).run =
          some (.ok (progress, s₁)) := by
        intro fuel
        rw [Proposals.drive, hNext]
        rfl
      simp only [hStop, List.any_nil, Bool.or_false]
      exact Settles.const _
    | some candidate =>
      obtain ⟨-, hTurn⟩ := hTurn candidate rfl
      obtain ⟨s₂, hAnswer, hInv, hLess, -⟩ := hTurn.answer (P candidate)
      obtain ⟨trace, t, s', hRun, hEnd, hAll, hSettles⟩ := ih (size s₂) (by omega) hInv rfl
      refine ⟨(candidate, P candidate) :: trace, t, s', .turn hNext hAnswer hRun, hEnd, ?_,
        fun progress => Settles.turn ?_⟩
      · intro q hq
        rcases List.mem_cons.mp hq with rfl | hq
        · rfl
        · exact hAll q hq
      · -- the flag is raised by a candidate that is taken
        have hGo : ∀ fuel, (Proposals.drive P (fuel + 1) progress s).run =
            (Proposals.drive P fuel (progress || P candidate) s₂).run := by
          intro fuel
          rw [Proposals.drive, hNext]
          show (if P candidate then _ else _ : ExceptT ε Option _).run = _
          cases hP : P candidate with
          | true =>
            rw [hP] at hAnswer
            obtain rfl := Except.ok.inj hAnswer
            rw [Bool.or_true]
            rfl
          | false =>
            rw [hP] at hAnswer
            have hFailure : failure s₁ = .ok s₂ := hAnswer
            rw [if_neg Bool.false_ne_true, hFailure, Bool.or_false]
            rfl
        simp only [hGo, List.any_cons, ← Bool.or_assoc]
        exact hSettles _

end Proposals
