import Mathlib.Tactic.TypeStar

/-!
# Fuelled computations

A loop that need not end is a function of a fuel that gives `none` when the
fuel runs out. `Settles f a` says that it ends with `a`: from some fuel on it
gives `a`. The rules follow how such functions are written: a result at once,
one result after another, and one more unit of fuel for one more turn.

`Persists f` says that what `f` gives it gives with more fuel too. Then it is
enough to know what `f` gives with some fuel (`Returns`), and a result of one
computation after another is a result of each.
-/

namespace Fuel

universe u

variable {α β : Type*}

/-- With enough fuel the computation returns `a`. -/
def Settles (f : Nat → Option α) (a : α) : Prop := ∃ n, ∀ fuel, n ≤ fuel → f fuel = some a

theorem Settles.const (a : α) : Settles (fun _ => some a) a := ⟨0, fun _ _ => rfl⟩

/-- The second computation starts from the result of the first, on the same fuel. -/
theorem Settles.bind {f : Nat → Option α} {g : α → Nat → Option β} {a : α} {b : β}
    (hf : Settles f a) (hg : Settles (g a) b) :
    Settles (fun fuel => (f fuel).bind fun x => g x fuel) b := by
  obtain ⟨n, hn⟩ := hf
  obtain ⟨m, hm⟩ := hg
  refine ⟨max n m, fun fuel hFuel => ?_⟩
  show (f fuel).bind (fun x => g x fuel) = some b
  rw [hn fuel (by omega), Option.bind_some]
  exact hm fuel (by omega)

/-- What is made of the result. -/
theorem Settles.map {f : Nat → Option α} {a : α} (h : Settles f a) (k : α → β) :
    Settles (fun fuel => (f fuel).bind fun x => some (k x)) (k a) :=
  h.bind (g := fun x _ => some (k x)) (Settles.const (k a))

/-- The second computation starts from what the first returns, if it does not fail. -/
theorem Settles.bindOk {ε α β : Type u} {f : Nat → ExceptT ε Option α}
    {g : α → Nat → ExceptT ε Option β} {a : α} {b : Except ε β}
    (hf : Settles (fun fuel => (f fuel).run) (.ok a)) (hg : Settles (fun fuel => (g a fuel).run) b) :
    Settles (fun fuel => (f fuel >>= fun x => g x fuel).run) b := by
  obtain ⟨n, hn⟩ := hf
  obtain ⟨m, hm⟩ := hg
  refine ⟨max n m, fun fuel hFuel => ?_⟩
  have hFirst : f fuel = ExceptT.mk (some (.ok a)) := hn fuel (by omega)
  show (f fuel >>= fun x => g x fuel).run = some b
  rw [hFirst]
  exact hm fuel (by omega)

/-- One turn of a loop. -/
theorem Settles.turn {f : Nat → Option α} {a : α}
    (h : Settles (fun fuel => f (fuel + 1)) a) : Settles f a := by
  obtain ⟨n, hn⟩ := h
  refine ⟨n + 1, fun fuel hFuel => ?_⟩
  obtain ⟨k, rfl⟩ : ∃ k, fuel = k + 1 := ⟨fuel - 1, by omega⟩
  exact hn k (by omega)

theorem Settles.congr {f g : Nat → Option α} {a : α} (h : Settles f a)
    (hEq : ∀ fuel, g fuel = f fuel) : Settles g a := by
  obtain ⟨n, hn⟩ := h
  exact ⟨n, fun fuel hFuel => (hEq fuel).trans (hn fuel hFuel)⟩

/-! ## More fuel -/

/-- What some fuel gives, more fuel gives. -/
def Persists (f : Nat → Option α) : Prop := ∀ n m a, f n = some a → n ≤ m → f m = some a

/-- With some fuel the computation returns `a`. -/
def Returns (f : Nat → Option α) (a : α) : Prop := ∃ n, f n = some a

section

variable {f : Nat → Option α} {g : α → Nat → Option β} {a : α} {b : β}

theorem Settles.returns (h : Settles f a) : Returns f a := by
  obtain ⟨n, hn⟩ := h
  exact ⟨n, hn n (Nat.le_refl n)⟩

theorem Persists.settles_iff (h : Persists f) : Settles f a ↔ Returns f a := by
  refine ⟨Settles.returns, ?_⟩
  rintro ⟨n, hn⟩
  exact ⟨n, fun m hm => h n m a hn hm⟩

theorem Persists.const (o : Option α) : Persists fun _ => o := fun _ _ _ h _ => h

/-- It is enough to look one unit ahead. -/
theorem Persists.of_succ (h : ∀ n a, f n = some a → f (n + 1) = some a) : Persists f := by
  intro n m a hn hm
  obtain ⟨k, rfl⟩ := Nat.exists_eq_add_of_le hm
  clear hm
  induction k with
  | zero => exact hn
  | succ k ih => exact h (n + k) a ih

theorem Persists.bind (hf : Persists f) (hg : ∀ x, Persists (g x)) :
    Persists fun n => (f n).bind fun x => g x n := by
  intro n m b hn hm
  obtain ⟨x, hx, hb⟩ := Option.bind_eq_some_iff.mp hn
  exact Option.bind_eq_some_iff.mpr ⟨x, hf n m x hx hm, hg x n m b hb hm⟩

theorem Persists.map (hf : Persists f) (k : α → β) : Persists fun n => (f n).bind fun x => some (k x) :=
  hf.bind fun x => Persists.const (some (k x))

theorem Persists.congr (h : Persists f) {f' : Nat → Option α} (hEq : ∀ n, f' n = f n) :
    Persists f' := by
  intro n m a hn hm
  rw [hEq] at hn ⊢
  exact h n m a hn hm

/-- What two computations return one after the other, each of them returns. -/
theorem Persists.returns_bind_iff (hf : Persists f) (hg : ∀ x, Persists (g x)) :
    Returns (fun n => (f n).bind fun x => g x n) b ↔ ∃ x, Returns f x ∧ Returns (g x) b := by
  constructor
  · rintro ⟨n, hn⟩
    obtain ⟨x, hx, hb⟩ := Option.bind_eq_some_iff.mp hn
    exact ⟨x, ⟨n, hx⟩, n, hb⟩
  · rintro ⟨x, ⟨n, hn⟩, m, hm⟩
    -- both have what they need with the larger of the two fuels
    refine ⟨max n m, Option.bind_eq_some_iff.mpr ⟨x, ?_, ?_⟩⟩
    · exact hf n _ x hn (Nat.le_max_left n m)
    · exact hg x m _ b hm (Nat.le_max_right n m)

theorem Persists.returns_map_iff (hf : Persists f) (k : α → β) :
    Returns (fun n => (f n).bind fun x => some (k x)) b ↔ ∃ x, Returns f x ∧ k x = b := by
  rw [hf.returns_bind_iff fun x => Persists.const (some (k x))]
  refine exists_congr fun x => and_congr_right fun _ => ?_
  exact ⟨fun ⟨_, h⟩ => Option.some.inj h, fun h => ⟨0, congrArg some h⟩⟩

theorem returns_const_iff {a' : α} : Returns (fun _ => some a) a' ↔ a = a' :=
  ⟨fun ⟨_, h⟩ => Option.some.inj h, fun h => ⟨0, congrArg some h⟩⟩

theorem returns_congr {f' : Nat → Option α} (hEq : ∀ n, f' n = f n) : Returns f' a ↔ Returns f a :=
  exists_congr fun n => by rw [hEq]

/-- Without fuel there is no turn. -/
theorem returns_turn_iff (hZero : f 0 = none) : Returns f a ↔ Returns (fun n => f (n + 1)) a := by
  constructor
  · rintro ⟨n, hn⟩
    cases n with
    | zero => cases hZero.symm.trans hn
    | succ n => exact ⟨n, hn⟩
  · rintro ⟨n, hn⟩
    exact ⟨n + 1, hn⟩

end

end Fuel
