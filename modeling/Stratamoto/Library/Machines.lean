import Mathlib.Tactic.TypeStar

/-!
# Machines

A machine takes labelled steps where it can: a partial step function. What holds
along its runs is shown from one step:

* `Preserves`, `Preserves.exec` — an invariant;
* `exec_trace` — an invariant that looks at the steps so far;
* `Relates.exec` — a relation between the first state and the last one;
* `exists_crossing` — the step in which a property comes to hold.
-/

namespace Machines

variable {σ ℓ : Type*} {machine : σ → ℓ → Option σ}

/-- The state after the steps, if each of them can be taken. -/
def exec (machine : σ → ℓ → Option σ) (s : σ) : List ℓ → Option σ
  | [] => some s
  | l :: ls => (machine s l).bind fun s' => exec machine s' ls

@[simp] theorem exec_nil (s : σ) : exec machine s [] = some s := rfl

theorem exec_cons_iff {s s' : σ} {l : ℓ} {ls : List ℓ} :
    exec machine s (l :: ls) = some s' ↔
      ∃ s₁, machine s l = some s₁ ∧ exec machine s₁ ls = some s' := Option.bind_eq_some_iff

theorem exec_append_iff {s s' : σ} {ls ls' : List ℓ} :
    exec machine s (ls ++ ls') = some s' ↔
      ∃ s₁, exec machine s ls = some s₁ ∧ exec machine s₁ ls' = some s' := by
  induction ls generalizing s with
  | nil => exact ⟨fun h => ⟨s, rfl, h⟩, fun ⟨_, hHere, h⟩ => Option.some.inj hHere ▸ h⟩
  | cons l ls ih =>
    simp only [List.cons_append, exec_cons_iff, ih]
    exact ⟨fun ⟨s₁, hFirst, s₂, hFront, hBack⟩ => ⟨s₂, ⟨s₁, hFirst, hFront⟩, hBack⟩,
      fun ⟨s₂, ⟨s₁, hFirst, hFront⟩, hBack⟩ => ⟨s₁, hFirst, s₂, hFront, hBack⟩⟩

theorem exec_snoc_iff {s s' : σ} {ls : List ℓ} {l : ℓ} :
    exec machine s (ls ++ [l]) = some s' ↔
      ∃ s₁, exec machine s ls = some s₁ ∧ machine s₁ l = some s' := by
  rw [exec_append_iff]
  refine exists_congr fun s₁ => and_congr_right fun _ => ?_
  rw [exec_cons_iff]
  exact ⟨fun ⟨_, h, hHere⟩ => Option.some.inj hHere ▸ h, fun h => ⟨s', h, rfl⟩⟩

/-! ## Invariants -/

/-- Every step keeps the property. -/
def Preserves (machine : σ → ℓ → Option σ) (P : σ → Prop) : Prop :=
  ∀ s l s', machine s l = some s' → P s → P s'

theorem Preserves.exec {P : σ → Prop} (h : Preserves machine P) {s s' : σ} {ls : List ℓ}
    (hExec : exec machine s ls = some s') (hs : P s) : P s' := by
  induction ls generalizing s with
  | nil => exact Option.some.inj hExec ▸ hs
  | cons l ls ih =>
    obtain ⟨s₁, hStep, hRest⟩ := exec_cons_iff.mp hExec
    exact ih hRest (h s l s₁ hStep hs)

/-- What holds at first, and after every step of what holds before it, holds of the
steps of any run. -/
theorem exec_trace {P : List ℓ → σ → Prop} {s s' : σ} {ls : List ℓ} (hFirst : P [] s)
    (hStep : ∀ ls s₁ l s₂, exec machine s ls = some s₁ → P ls s₁ → machine s₁ l = some s₂ →
      P (ls ++ [l]) s₂)
    (hExec : exec machine s ls = some s') : P ls s' := by
  -- the induction is on the steps taken, the last one first
  suffices hAll : ∀ rest front s₁, front ++ rest = ls → exec machine s front = some s₁ →
      P front s₁ → exec machine s₁ rest = some s' → P ls s' from
    hAll ls [] s rfl rfl hFirst hExec
  intro rest
  induction rest with
  | nil =>
    intro front s₁ hSplit _ hFront hHere
    rw [List.append_nil] at hSplit
    exact hSplit ▸ Option.some.inj hHere ▸ hFront
  | cons l rest ih =>
    intro front s₁ hSplit hTo hFront hRest
    obtain ⟨s₂, hNext, hRest⟩ := exec_cons_iff.mp hRest
    exact ih (front ++ [l]) s₂ (by rw [List.append_assoc]; exact hSplit)
      (exec_snoc_iff.mpr ⟨s₁, hTo, hNext⟩) (hStep front s₁ l s₂ hTo hFront hNext) hRest

/-! ## Relations between states -/

/-- A step relates the state before it to the state after it, and the relation is
that of runs. -/
structure Relates (machine : σ → ℓ → Option σ) (P : σ → Prop) (r : σ → σ → Prop) : Prop where
  refl : ∀ s, r s s
  trans : ∀ s₁ s₂ s₃, r s₁ s₂ → r s₂ s₃ → r s₁ s₃
  step : ∀ s l s', machine s l = some s' → P s → r s s'

theorem Relates.exec {P : σ → Prop} {r : σ → σ → Prop} (h : Relates machine P r)
    (hKept : Preserves machine P) {s s' : σ} {ls : List ℓ} (hExec : exec machine s ls = some s')
    (hs : P s) : r s s' := by
  induction ls generalizing s with
  | nil => exact Option.some.inj hExec ▸ h.refl s
  | cons l ls ih =>
    obtain ⟨s₁, hStep, hRest⟩ := exec_cons_iff.mp hExec
    exact h.trans s s₁ s' (h.step s l s₁ hStep hs) (ih hRest (hKept s l s₁ hStep hs))

/-- What does not hold at first and holds at last comes to hold in one of the steps. -/
theorem exists_crossing {P : σ → Prop} {s s' : σ} {ls : List ℓ}
    (hExec : exec machine s ls = some s') (hs : ¬ P s) (hs' : P s') :
    ∃ front l back s₁ s₂, ls = front ++ l :: back ∧ exec machine s front = some s₁ ∧
      machine s₁ l = some s₂ ∧ exec machine s₂ back = some s' ∧ ¬ P s₁ ∧ P s₂ := by
  induction ls generalizing s with
  | nil => exact absurd (Option.some.inj hExec ▸ hs') hs
  | cons l ls ih =>
    obtain ⟨s₁, hStep, hRest⟩ := exec_cons_iff.mp hExec
    by_cases hHere : P s₁
    · exact ⟨[], l, ls, s, s₁, rfl, rfl, hStep, hRest, hs, hHere⟩
    · obtain ⟨front, l', back, s₂, s₃, rfl, hFront, hCross, hBack, hBefore, hAfter⟩ := ih hRest hHere
      exact ⟨l :: front, l', back, s₂, s₃, rfl, exec_cons_iff.mpr ⟨s₁, hStep, hFront⟩, hCross,
        hBack, hBefore, hAfter⟩

end Machines
