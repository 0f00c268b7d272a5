import Mathlib.Data.List.Perm.Basic

/-!
# Computations that draw

A computation over a source of randomness: it passes the source's state along,
and returns a value, fails, or, where a loop has used up its fuel, does neither.
Two judgements are made of it, over every state of the source:

* `Yields m P` — it does not fail, and what it returns satisfies `P`;
* `Ensures m P` — it returns, and what it returns satisfies `P`.

The rules follow how such computations are written: a value at once, one
computation after another, one that fails or not, and a loop that draws until
it has a candidate to its liking.
-/

namespace Draws

/-- A computation that draws from a source with states `ρ`. -/
def Draw (ε ρ α : Type) : Type := ρ → Option (Except ε (α × ρ))

variable {ε ρ α β : Type}

namespace Draw

instance : Monad (Draw ε ρ) where
  pure a := fun r => some (.ok (a, r))
  bind m f := fun r =>
    match m r with
    | none => none
    | some (.error e) => some (.error e)
    | some (.ok (a, r)) => f a r

/-- A computation that draws nothing. -/
def lift : Except ε α → Draw ε ρ α
  | .error e => fun _ => some (.error e)
  | .ok a => fun r => some (.ok (a, r))

/-- One step of the source. -/
def step (f : ρ → α × ρ) : Draw ε ρ α := fun r => some (.ok (f r))

/-- Draw until a candidate is accepted. -/
def retry (m : Draw ε ρ α) (accept : α → Bool) : Nat → Draw ε ρ α
  | 0 => fun _ => none
  | fuel + 1 => do
    let candidate ← m
    if accept candidate then pure candidate else retry m accept fuel

/-- Once a computation has returned, what follows it goes on from there. -/
theorem bind_eq {m : Draw ε ρ α} (f : α → Draw ε ρ β) {r r' : ρ} {a : α}
    (h : m r = some (.ok (a, r'))) : (m >>= f) r = f a r' := by
  simp only [Bind.bind, h]

end Draw

open Draw

/-- The computation does not fail, and what it returns satisfies `P`. -/
def Yields (m : Draw ε ρ α) (P : α → Prop) : Prop :=
  ∀ r out, m r = some out → ∃ a r', out = .ok (a, r') ∧ P a

/-- The computation returns, and what it returns satisfies `P`. -/
def Ensures (m : Draw ε ρ α) (P : α → Prop) : Prop :=
  ∀ r, ∃ a r', m r = some (.ok (a, r')) ∧ P a

variable {m : Draw ε ρ α} {f : α → Draw ε ρ β} {P : α → Prop} {Q : β → Prop}

theorem Ensures.yields (h : Ensures m P) : Yields m P := by
  intro r out hOut
  obtain ⟨a, r', hRun, ha⟩ := h r
  exact ⟨a, r', Option.some.inj (hOut.symm.trans hRun), ha⟩

/-! ## What a computation yields -/

theorem Yields.pure {a : α} (h : P a) : Yields (Pure.pure a : Draw ε ρ α) P := by
  rintro r out hOut
  exact ⟨a, r, (Option.some.inj hOut).symm, h⟩

theorem Yields.mono {P' : α → Prop} (h : Yields m P) (hP : ∀ a, P a → P' a) : Yields m P' := by
  intro r out hOut
  obtain ⟨a, r', hEq, ha⟩ := h r out hOut
  exact ⟨a, r', hEq, hP a ha⟩

theorem Yields.bind (h : Yields m P) (hf : ∀ a, P a → Yields (f a) Q) : Yields (m >>= f) Q := by
  intro r out hOut
  cases hm : m r with
  | none =>
    simp only [Bind.bind, hm] at hOut
    cases hOut
  | some result =>
    obtain ⟨a, r', rfl, ha⟩ := h r result hm
    rw [Draw.bind_eq f hm] at hOut
    exact hf a ha r' out hOut

/-- A loop yields what a candidate is, once it is accepted. -/
theorem Yields.retry {accept : α → Bool} (h : Yields m P) (fuel : Nat) :
    Yields (Draw.retry m accept fuel) fun a => P a ∧ accept a = true := by
  induction fuel with
  | zero =>
    intro r out hOut
    cases hOut
  | succ fuel ih =>
    refine h.bind fun a ha => ?_
    by_cases hAccept : accept a = true
    · rw [if_pos hAccept]
      exact Yields.pure ⟨ha, hAccept⟩
    · rw [if_neg hAccept]
      exact ih

/-! ## What a computation ensures -/

theorem Ensures.pure {a : α} (h : P a) : Ensures (Pure.pure a : Draw ε ρ α) P :=
  fun r => ⟨a, r, rfl, h⟩

theorem Ensures.lift {x : Except ε α} {a : α} (hx : x = .ok a) (h : P a) :
    Ensures (Draw.lift x : Draw ε ρ α) P := by
  intro r
  rw [hx]
  exact ⟨a, r, rfl, h⟩

theorem Ensures.step {g : ρ → α × ρ} (h : ∀ r, P (g r).1) : Ensures (Draw.step g : Draw ε ρ α) P :=
  fun r => ⟨(g r).1, (g r).2, rfl, h r⟩

theorem Ensures.mono {P' : α → Prop} (h : Ensures m P) (hP : ∀ a, P a → P' a) : Ensures m P' := by
  intro r
  obtain ⟨a, r', hRun, ha⟩ := h r
  exact ⟨a, r', hRun, hP a ha⟩

theorem Ensures.bind (h : Ensures m P) (hf : ∀ a, P a → Ensures (f a) Q) :
    Ensures (m >>= f) Q := by
  intro r
  obtain ⟨a, r', hRun, ha⟩ := h r
  obtain ⟨b, r'', hRun', hb⟩ := hf a ha r'
  exact ⟨b, r'', (Draw.bind_eq f hRun).trans hRun', hb⟩

/-! ## Sources of randomness -/

/-- A source of randomness: what can be drawn from it, each draw with the
source's next state. The bounds of a draw are part of its type. -/
structure RngExt (ρ : Type) where
  /-- A number below `n`, drawn as one of the given width. -/
  below : (width n : Nat) → 0 < n → ρ → Fin n × ρ
  /-- All bits of a word. -/
  bits : (width : Nat) → ρ → BitVec width × ρ
  /-- A coin that falls on `true` so many times in a hundred. -/
  bool : (percent : Nat) → ρ → Bool × ρ
  /-- An element of a slice of `n`. -/
  index : (n : Nat) → 0 < n → ρ → Fin n × ρ
  /-- An element of an iterator over `n`. -/
  item : (n : Nat) → 0 < n → ρ → Fin n × ρ
  /-- An order of the numbers below `n`. -/
  order : (n : Nat) → ρ → { l : List Nat // l.Perm (List.range n) } × ρ

namespace RngExt

variable (rng : RngExt ρ)

/-- A number from `lo` up to `hi`; drawing from an empty range fails. -/
def randomRange (empty : ε) (width lo hi : Nat) : Draw ε ρ Nat :=
  if h : lo < hi then
    Draw.step fun r => let (k, r) := rng.below width (hi - lo) (by omega) r; (lo + k.val, r)
  else Draw.lift (Except.error empty)

def random (width : Nat) : Draw ε ρ (BitVec width) := Draw.step (rng.bits width)

def randomBool (percent : Nat) : Draw ε ρ Bool := Draw.step (rng.bool percent)

/-- An element of a list, if it has any, at an index drawn with `draw`. -/
def chooseBy (draw : (n : Nat) → 0 < n → ρ → Fin n × ρ) (xs : List α) :
    Draw ε ρ (Option α) :=
  if h : 0 < xs.length then
    Draw.step fun r => let (k, r) := draw xs.length h r; (some (xs.get k), r)
  else pure none

def chooseSlice : List α → Draw ε ρ (Option α) := chooseBy rng.index

def chooseItem : List α → Draw ε ρ (Option α) := chooseBy rng.item

/-- The numbers below `n` in some order. -/
def shuffled (n : Nat) : Draw ε ρ (List Nat) :=
  Draw.step fun r => let (l, r) := rng.order n r; (l.val, r)

theorem ensures_randomRange (empty : ε) (width : Nat) {lo hi : Nat} (h : lo < hi) :
    Ensures (rng.randomRange empty width lo hi) fun k => lo ≤ k ∧ k < hi := by
  rw [randomRange, dif_pos h]
  refine Ensures.step fun r => ?_
  have := (rng.below width (hi - lo) (by omega) r).1.isLt
  dsimp only
  omega

theorem ensures_random (width : Nat) :
    Ensures (rng.random width : Draw ε ρ (BitVec width)) fun _ => True :=
  Ensures.step fun _ => trivial

theorem ensures_randomBool (percent : Nat) :
    Ensures (rng.randomBool percent : Draw ε ρ Bool) fun _ => True :=
  Ensures.step fun _ => trivial

theorem ensures_chooseBy (draw : (n : Nat) → 0 < n → ρ → Fin n × ρ) (xs : List α) :
    Ensures (chooseBy draw xs : Draw ε ρ (Option α)) fun x =>
      (x = none → xs = []) ∧ ∀ a, x = some a → a ∈ xs := by
  unfold chooseBy
  split
  · rename_i h
    refine Ensures.step fun r => ⟨(by rintro ⟨⟩), ?_⟩
    rintro a ha
    rw [← Option.some.inj ha]
    exact List.get_mem ..
  · rename_i h
    have hNil : xs = [] := List.length_eq_zero_iff.mp (Nat.eq_zero_of_not_pos h)
    exact Ensures.pure ⟨fun _ => hNil, by rintro a ⟨⟩⟩

theorem ensures_shuffled (n : Nat) :
    Ensures (rng.shuffled n : Draw ε ρ (List Nat)) fun l => l.Perm (List.range n) :=
  Ensures.step fun r => (rng.order n r).1.property

end RngExt

end Draws
