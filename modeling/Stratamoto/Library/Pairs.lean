import Stratamoto.Library.Brackets
import Stratamoto.Library.Marks

/-!
# Words with pairs of brackets dropped

A word whose tokens are marked as kept or dropped, where an opening token is kept
if and only if the token that closes it is (`PairsKept`). What stands in a
dropped block may be kept: it moves out into the block around.

* `openStack_keptWord` — of the blocks open in the whole word, those that are kept
  are open in what is left;
* `balanced_keptWord`  — what is left of a balanced word is balanced;
* `OpenAt.around`      — a block stays open as long as one begun in it does.
-/

namespace Brackets

open Marks

variable {κ : Type*} {ms : List (Token κ × Bool)} {s : List (Nat × κ)}

def wholeWord (ms : List (Token κ × Bool)) : Word κ := ms.map Prod.fst

def keptWord (ms : List (Token κ × Bool)) : Word κ := (ms.filter Prod.snd).map Prod.fst

def isKept (ms : List (Token κ × Bool)) (n : Nat) : Bool := (ms.map Prod.snd).getD n false

/-- The position of a token among those that are kept. -/
def position (ms : List (Token κ × Bool)) : Nat → Nat := renumber (fun _ => 1) ms

/-- A block is kept with both of its brackets, or with neither. -/
def PairsKept (ms : List (Token κ × Bool)) : Prop :=
  ∀ b e, Matches (wholeWord ms) b e → isKept ms b = isKept ms e

/-- The blocks that are kept, at their positions in what is left. -/
def keptStack (ms : List (Token κ × Bool)) (s : List (Nat × κ)) : List (Nat × κ) :=
  (s.filter fun p => isKept ms p.1).map fun p => (position ms p.1, p.2)

/-! ## One token more -/

theorem isKept_append (l : List (Token κ × Bool)) {n : Nat} (hn : n < ms.length) :
    isKept (ms ++ l) n = isKept ms n := by
  rw [isKept, isKept, List.map_append, List.getD_eq_getElem?_getD, List.getD_eq_getElem?_getD,
    List.getElem?_append_left (by rwa [List.length_map])]

theorem isKept_length (t : Token κ) (b : Bool) : isKept (ms ++ [(t, b)]) ms.length = b := by
  simp [isKept]

theorem position_append (l : List (Token κ × Bool)) {n : Nat} (hn : n ≤ ms.length) :
    position (ms ++ l) n = position ms n :=
  renumber_append_left l (by rwa [units_one, List.length_map])

theorem position_length (ms : List (Token κ × Bool)) :
    position ms ms.length = (keptWord ms).length := by
  rw [position, renumber, units_one, keptWord, List.length_map, ← List.countP_eq_length_filter,
    List.take_of_length_le (by rw [List.length_map]), List.count_eq_countP, List.countP_map]
  exact List.countP_congr fun p _ => by simp

theorem keptStack_append (l : List (Token κ × Bool)) (hs : ∀ p ∈ s, p.1 < ms.length) :
    keptStack (ms ++ l) s = keptStack ms s := by
  have hKept : s.filter (fun p => isKept (ms ++ l) p.1) = s.filter fun p => isKept ms p.1 :=
    List.filter_congr fun p hp => isKept_append l (hs p hp)
  rw [keptStack, keptStack, hKept]
  refine List.map_congr_left fun p hp => ?_
  rw [position_append l (Nat.le_of_lt (hs p (List.mem_of_mem_filter hp)))]

theorem PairsKept.of_append {l : List (Token κ × Bool)} (h : PairsKept (ms ++ l)) :
    PairsKept ms := by
  intro b e hMatch
  have hLt : b < e := hMatch.lt
  have hLength : e < ms.length := by
    simpa only [wholeWord, List.length_map] using hMatch.lt_length
  have hWhole : Matches (wholeWord (ms ++ l)) b e := by
    rw [wholeWord, List.map_append]
    exact hMatch.append _
  rw [← isKept_append l (Nat.lt_trans hLt hLength), ← isKept_append l hLength]
  exact h b e hWhole

theorem keptStack_cons (ms : List (Token κ × Bool)) (p : Nat × κ) (s : List (Nat × κ)) :
    keptStack ms (p :: s) =
      if isKept ms p.1 then (position ms p.1, p.2) :: keptStack ms s else keptStack ms s := by
  rw [keptStack, List.filter_cons]
  split
  · rfl
  · rfl

/-! ## The blocks that are open -/

variable [DecidableEq κ]

theorem lt_of_mem_wholeStack (hs : openStack (wholeWord ms) = some s) {p : Nat × κ} (hp : p ∈ s) :
    p.1 < ms.length := by
  simpa only [wholeWord, List.length_map] using lt_of_mem_openStack hs (List.mem_map_of_mem hp)

/-- A token that is kept is read over the kept blocks as it is over all of them;
where it ends a block, the block is kept with it. -/
theorem step_keptStack {t : Token κ} {b : Bool} {s₀ : List (Nat × κ)}
    (hStep : step ms.length s₀ t = some s) (hs₀ : ∀ p ∈ s₀, p.1 < ms.length)
    (hEnds : ∀ k q, t = .closing k → s₀ = q :: s → isKept (ms ++ [(t, b)]) q.1 = b) :
    (if b then step (keptWord ms).length (keptStack ms s₀) t else some (keptStack ms s₀)) =
      some (keptStack (ms ++ [(t, b)]) s) := by
  have hSame : keptStack (ms ++ [(t, b)]) s₀ = keptStack ms s₀ := keptStack_append _ hs₀
  cases t with
  | plain =>
    obtain rfl := Option.some.inj hStep
    -- the stack is the same, and so is what is kept of it
    rw [hSame]
    cases b with
    | false => rfl
    | true => rfl
  | opening k =>
    obtain rfl := Option.some.inj hStep
    -- the new block is on top if it is kept
    rw [keptStack_cons, isKept_length, position_append _ (Nat.le_refl _), position_length, hSame]
    cases b with
    | false => rfl
    | true => rfl
  | closing k =>
    cases s₀ with
    | nil => cases hStep
    | cons q s₀ =>
      simp only [step] at hStep
      split at hStep
      · rename_i hKind
        obtain rfl := Option.some.inj hStep
        have hLt := hs₀ q List.mem_cons_self
        -- the block that ends is kept with its end
        have hTop : isKept ms q.1 = b := by
          rw [← isKept_append [(Token.closing k, b)] hLt]
          exact hEnds k q rfl rfl
        rw [keptStack_append _ fun p hp => hs₀ p (List.mem_cons_of_mem q hp), keptStack_cons, hTop]
        cases b with
        | false => rfl
        | true => simp only [if_true, step, if_pos hKind]
      · cases hStep

/-- **Of the blocks open in the whole word, those that are kept are open in what is
left.** -/
theorem openStack_keptWord (h : PairsKept ms) (hs : openStack (wholeWord ms) = some s) :
    openStack (keptWord ms) = some (keptStack ms s) := by
  induction ms using List.reverseRecOn generalizing s with
  | nil =>
    obtain rfl := Option.some.inj hs
    rfl
  | append_singleton ms p ih =>
    obtain ⟨t, b⟩ := p
    have hWhole : wholeWord (ms ++ [(t, b)]) = wholeWord ms ++ [t] := List.map_append
    have hLength : (wholeWord ms).length = ms.length := List.length_map _
    rw [hWhole, openStack_snoc] at hs
    obtain ⟨s₀, hs₀, hStep⟩ := Option.bind_eq_some_iff.mp hs
    rw [hLength] at hStep
    have hKept := step_keptStack (b := b) hStep (fun p hp => lt_of_mem_wholeStack hs₀ hp) ?_
    · rw [← hKept]
      cases b with
      | false => simpa [keptWord] using ih h.of_append hs₀
      | true =>
        have hSnoc : keptWord (ms ++ [(t, true)]) = keptWord ms ++ [t] := by simp [keptWord]
        rw [hSnoc, openStack_snoc, ih h.of_append hs₀]
        rfl
    · -- a block that ends here has its begin on top of the stack
      rintro k ⟨begin_, k'⟩ rfl rfl
      have hPair : Matches (wholeWord (ms ++ [(Token.closing k, b)])) begin_ ms.length := by
        rw [hWhole]
        refine matches_of_head (k := k) (s := s) ?_ ?_
        · rw [← hLength, List.take_left, hs₀]
          simp only [step] at hStep
          split at hStep
          · rename_i hKind
            rw [hKind]
          · cases hStep
        · rw [← hLength, List.getElem?_concat_length]
      rw [h begin_ ms.length hPair, isKept_length]

theorem balanced_keptWord (h : PairsKept ms) (hBalanced : Balanced (wholeWord ms)) :
    Balanced (keptWord ms) :=
  balanced_iff_openStack.mpr (openStack_keptWord h (balanced_iff_openStack.mp hBalanced))

/-- **A block stays open as long as one begun in it does.** -/
theorem OpenAt.around {w : Word κ} (hw : Balanced w) {a b j m : Nat} (ha : OpenAt w a j)
    (hb : OpenAt w b m) (hab : a ≤ b) (hbj : b < j) (hjm : j ≤ m) : OpenAt w a m := by
  obtain ⟨-, ⟨k, hk⟩, hOpen⟩ := ha
  obtain ⟨e, hEnd⟩ := hw.exists_matches hk
  have hje : j ≤ e := Nat.le_of_not_lt fun hLt => hOpen e hLt hEnd
  have hme : m ≤ e := Nat.le_of_not_lt fun hLt =>
    hEnd.not_openAt hw hab (Nat.lt_of_lt_of_le hbj hje) hLt hb
  exact hEnd.openAt (balanced_iff_openStack.mp hw) (by omega) hme

end Brackets
