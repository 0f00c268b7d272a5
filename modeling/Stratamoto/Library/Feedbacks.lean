import Mathlib.Tactic.TypeStar

/-!
# Feedbacks

A feedback says whether an execution is of interest, and adds to what is kept of one
that is. What it notes in the state on the way stays there. Feedbacks are put together
by connectives: an eager one asks both of its parts, the fast one asks the second only
if the first does not decide; and both parts add to what is kept, whichever was asked.

* `Connectives.Documented` — what the connectives do;
* `Documented.and_pure` and others — a part that looks at nothing but the execution;
* `Documented.orFast_of_first`, `Documented.orFast_of_not` — whom the fast one asks.
-/

namespace Feedbacks

universe u

structure Feedback (σ ι τ : Type u) where
  isInteresting : σ → ι → σ × Bool
  appendMetadata : σ → ι → τ → σ × τ

structure Connectives (σ ι τ : Type u) where
  or : Feedback σ ι τ → Feedback σ ι τ → Feedback σ ι τ
  orFast : Feedback σ ι τ → Feedback σ ι τ → Feedback σ ι τ
  and : Feedback σ ι τ → Feedback σ ι τ → Feedback σ ι τ

variable {σ ι τ : Type u}

namespace Feedback

/-- What the second says after the first. -/
def next (a b : Feedback σ ι τ) (s : σ) (x : ι) : σ × Bool :=
  b.isInteresting (a.isInteresting s x).1 x

/-- Both add to what is kept. -/
def appendBoth (a b : Feedback σ ι τ) (s : σ) (x : ι) (t : τ) : σ × τ :=
  b.appendMetadata (a.appendMetadata s x t).1 x (a.appendMetadata s x t).2

/-- A feedback that looks at nothing but the execution, and adds nothing. -/
def pure (p : ι → Bool) : Feedback σ ι τ where
  isInteresting s x := (s, p x)
  appendMetadata s _ t := (s, t)

end Feedback

open Feedback

/-- What the connectives do. -/
structure Connectives.Documented (C : Connectives σ ι τ) : Prop where
  or : ∀ a b s x, (C.or a b).isInteresting s x =
    ((next a b s x).1, (a.isInteresting s x).2 || (next a b s x).2)
  orFast : ∀ a b s x, (C.orFast a b).isInteresting s x =
    if (a.isInteresting s x).2 then a.isInteresting s x else next a b s x
  and : ∀ a b s x, (C.and a b).isInteresting s x =
    ((next a b s x).1, (a.isInteresting s x).2 && (next a b s x).2)
  append_or : ∀ a b s x t, (C.or a b).appendMetadata s x t = appendBoth a b s x t
  append_orFast : ∀ a b s x t, (C.orFast a b).appendMetadata s x t = appendBoth a b s x t
  append_and : ∀ a b s x t, (C.and a b).appendMetadata s x t = appendBoth a b s x t

/-- Connectives that do what they should. -/
def Connectives.standard : Connectives σ ι τ where
  or a b :=
    ⟨fun s x => ((next a b s x).1, (a.isInteresting s x).2 || (next a b s x).2), appendBoth a b⟩
  orFast a b :=
    ⟨fun s x => if (a.isInteresting s x).2 then a.isInteresting s x else next a b s x,
      appendBoth a b⟩
  and a b :=
    ⟨fun s x => ((next a b s x).1, (a.isInteresting s x).2 && (next a b s x).2), appendBoth a b⟩

theorem Connectives.standard_documented : (standard : Connectives σ ι τ).Documented :=
  ⟨fun _ _ _ _ => rfl, fun _ _ _ _ => rfl, fun _ _ _ _ => rfl, fun _ _ _ _ _ => rfl,
    fun _ _ _ _ _ => rfl, fun _ _ _ _ _ => rfl⟩

namespace Connectives.Documented

variable {C : Connectives σ ι τ} (h : C.Documented) {p : ι → Bool} {a : Feedback σ ι τ}

include h

theorem and_pure (s : σ) (x : ι) : (C.and a (.pure p)).isInteresting s x =
    ((a.isInteresting s x).1, (a.isInteresting s x).2 && p x) := h.and a (.pure p) s x

theorem pure_and (s : σ) (x : ι) : (C.and (.pure p) a).isInteresting s x =
    ((a.isInteresting s x).1, p x && (a.isInteresting s x).2) := h.and (.pure p) a s x

theorem append_and_pure (s : σ) (x : ι) (t : τ) :
    (C.and a (.pure p)).appendMetadata s x t = a.appendMetadata s x t :=
  h.append_and a (.pure p) s x t

theorem append_pure_and (s : σ) (x : ι) (t : τ) :
    (C.and (.pure p) a).appendMetadata s x t = a.appendMetadata s x t :=
  h.append_and (.pure p) a s x t

theorem append_pure_or (s : σ) (x : ι) (t : τ) :
    (C.or (.pure p) a).appendMetadata s x t = a.appendMetadata s x t :=
  h.append_or (.pure p) a s x t

/-- If the first decides, the second is not asked. -/
theorem orFast_of_first {b : Feedback σ ι τ} {s : σ} {x : ι} (hFirst : (a.isInteresting s x).2) :
    (C.orFast a b).isInteresting s x = a.isInteresting s x := by
  rw [h.orFast, if_pos hFirst]

theorem orFast_of_not {b : Feedback σ ι τ} {s : σ} {x : ι} (hFirst : ¬ (a.isInteresting s x).2) :
    (C.orFast a b).isInteresting s x = b.isInteresting (a.isInteresting s x).1 x := by
  rw [h.orFast, if_neg hFirst]
  rfl

end Connectives.Documented

end Feedbacks
