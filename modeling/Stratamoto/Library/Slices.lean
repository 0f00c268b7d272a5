import Mathlib.Data.List.Basic
import Mathlib.Tactic.TypeStar

/-!
# Slices of a list

What copies into a buffer leave of it: `overwrite xs start ys` is `xs` with the
slice of the length of `ys` from `start` on replaced by `ys`, which may reach
past the end; `resize` cuts a list or fills it up; and `place` overwrites
wherever `start` is, filling up the gap before it.

* `length_overwrite`, `take_overwrite` — a slice that is within the list;
* `overwrite_extend` — a slice that reaches past its end, in two parts;
* `getElem?_place` — the list `place` leaves, element by element.
-/

namespace Slices

variable {α : Type*} {xs ys : List α} {start : Nat} {z : α}

def overwrite (xs : List α) (start : Nat) (ys : List α) : List α :=
  xs.take start ++ (ys ++ xs.drop (start + ys.length))

def resize (z : α) (xs : List α) (n : Nat) : List α :=
  xs.take n ++ List.replicate (n - xs.length) z

def place (z : α) (xs : List α) (start : Nat) (ys : List α) : List α :=
  resize z xs start ++ (ys ++ xs.drop (start + ys.length))

@[simp] theorem length_resize (z : α) (xs : List α) (n : Nat) : (resize z xs n).length = n := by
  simp only [resize, List.length_append, List.length_take, List.length_replicate]
  omega

theorem resize_of_length {n : Nat} (h : n = xs.length) : resize z xs n = xs := by
  rw [resize, h, List.take_length, Nat.sub_self, List.replicate_zero, List.append_nil]

theorem length_overwrite (h : start + ys.length ≤ xs.length) :
    (overwrite xs start ys).length = xs.length := by
  simp only [overwrite, List.length_append, List.length_take, List.length_drop]
  omega

/-- The slice and what is before it. -/
theorem take_overwrite (h : start ≤ xs.length) :
    (overwrite xs start ys).take (start + ys.length) = xs.take start ++ ys := by
  have hLength : (xs.take start ++ ys).length = start + ys.length := by
    rw [List.length_append, List.length_take, Nat.min_eq_left h]
  rw [overwrite, ← List.append_assoc, ← hLength, List.take_left]

/-- Overwrite as far as the list goes, then append the rest. -/
theorem overwrite_extend {n : Nat} (h : xs.length = start + n) (hn : n ≤ ys.length) :
    overwrite xs start (ys.take n) ++ ys.drop n = overwrite xs start ys := by
  have hEnd : start + (ys.take n).length = xs.length := by
    rw [List.length_take, Nat.min_eq_left hn, h]
  rw [overwrite, overwrite, hEnd, List.drop_length, List.append_nil, List.append_assoc,
    List.take_append_drop, List.drop_of_length_le (by omega), List.append_nil]

theorem place_of_le (h : start ≤ xs.length) : place z xs start ys = overwrite xs start ys := by
  rw [place, overwrite, resize, Nat.sub_eq_zero_of_le h, List.replicate_zero, List.append_nil]

/-- The elements of `ys` from `start` on, those of `xs` elsewhere, and `z` in the
gap between them. -/
theorem getElem?_place (z : α) (xs : List α) (start : Nat) (ys : List α) (i : Nat) :
    (place z xs start ys)[i]? =
      if i < start then some (xs[i]?.getD z)
      else if i < start + ys.length then ys[i - start]?
      else xs[i]? := by
  rw [place]
  by_cases hBefore : i < start
  · rw [if_pos hBefore, List.getElem?_append_left (by simpa using hBefore), resize]
    -- in front of the piece: an old element, or the filling of a gap
    by_cases hOld : i < xs.length
    · rw [List.getElem?_append_left (by rw [List.length_take]; omega),
        List.getElem?_take_of_lt hBefore, List.getElem?_eq_getElem hOld, Option.getD_some]
    · rw [List.getElem?_append_right (by simp only [List.length_take]; omega),
        List.getElem?_eq_none (Nat.not_lt.mp hOld), Option.getD_none, List.getElem?_replicate,
        if_pos (by simp only [List.length_take]; omega)]
  · rw [if_neg hBefore, List.getElem?_append_right (by simpa using hBefore), length_resize]
    by_cases hIn : i < start + ys.length
    · rw [if_pos hIn, List.getElem?_append_left (by omega)]
    · rw [if_neg hIn, List.getElem?_append_right (by omega), List.getElem?_drop]
      congr 1
      omega

end Slices
