import Mathlib.Computability.Language
import Mathlib.Algebra.BigOperators.Group.List.Basic

/-!
# Regular expressions with captures

A backtracking matcher of the leftmost-first kind, over any alphabet. `ways r s`
lists the ways in which `r` matches at the start of `s`, the preferred one first:
an alternation prefers its left side, a repetition one more round. `search` takes
the first start at which there is a way, and the preferred way there.

What an expression matches is also a `Language`, which says nothing of
preference, and the matcher finds what is in it.

## Results

* `exists_mem_ways_iff`    — the ways at a start are the prefixes in the language.
* `search_eq_none_iff`     — nothing is found if no infix is in the language.
* `search_lines_append`    — lines without a match are passed over, if no match
  contains the end of a line.
* `head?_ways_plus_symbol` — a repeated symbol takes as many as there are.
-/

/-- Expressions over the symbols `α`. -/
inductive Regex (α : Type*) where
  | empty
  | symbol (p : α → Bool)
  | seq (r₁ r₂ : Regex α)
  | alt (r₁ r₂ : Regex α)
  | plus (r : Regex α)
  | group (k : Nat) (r : Regex α)

namespace Regex

universe u

variable {α : Type u} {r r₁ r₂ : Regex α} {s t : List α} {p : α → Bool}

/-! ## The matcher -/

/-- One way to match at the start of a text. The captures have the latest first. -/
structure Way (α : Type u) where
  matched : List α
  rest : List α
  captures : List (Nat × List α) := []

namespace Way

/-- What group `k` matched last. -/
def get (w : Way α) (k : Nat) : Option (List α) := w.captures.lookup k

/-- `w'` matches where `w` ends. -/
def andThen (w w' : Way α) : Way α :=
  ⟨w.matched ++ w'.matched, w'.rest, w'.captures ++ w.captures⟩

def group (k : Nat) (w : Way α) : Way α := ⟨w.matched, w.rest, (k, w.matched) :: w.captures⟩

theorem get_andThen (w w' : Way α) (k : Nat) : (w.andThen w').get k = (w'.get k).or (w.get k) :=
  List.lookup_append

theorem get_group (w : Way α) (k : Nat) : (w.group k).get k = some w.matched :=
  List.lookup_cons_self

end Way

/-- At most `n` rounds more after the first, and no round after one that matched
the empty word. -/
def rounds (f : List α → List (Way α)) : Nat → List α → List (Way α)
  | 0, s => f s
  | n + 1, s => (f s).flatMap fun w =>
    (if w.matched.isEmpty then [] else (rounds f n w.rest).map w.andThen) ++ [w]

/-- The ways to match at the start of `s`, the preferred one first. -/
def ways : Regex α → List α → List (Way α)
  | .empty, s => [⟨[], s, []⟩]
  | .symbol _, [] => []
  | .symbol p, a :: s => if p a then [⟨[a], s, []⟩] else []
  | .seq r₁ r₂, s => (ways r₁ s).flatMap fun w => (ways r₂ w.rest).map w.andThen
  | .alt r₁ r₂, s => ways r₁ s ++ ways r₂ s
  | .plus r, s => rounds (ways r) s.length s
  | .group k r, s => (ways r s).map (Way.group k)

/-- The preferred way at the leftmost start. -/
def search (r : Regex α) : List α → Option (Way α)
  | [] => (r.ways []).head?
  | a :: s => (r.ways (a :: s)).head?.or (search r s)

/-- Something that looks for an expression in a text. -/
structure Engine (α : Type u) where
  captures : Regex α → List α → Option (Way α)

/-- Of the matches that begin leftmost, the engine finds the one that a
backtracking search tries first. -/
def Engine.LeftmostFirst (E : Engine α) : Prop := ∀ r s, E.captures r s = r.search s

/-- The search itself. -/
def backtracking : Engine α := ⟨search⟩

theorem backtracking_leftmostFirst : (backtracking : Engine α).LeftmostFirst := fun _ _ => rfl

/-- One word. -/
def word [DecidableEq α] : List α → Regex α
  | [] => .empty
  | a :: w => .seq (.symbol (· == a)) (word w)

/-! ## The language of an expression -/

def language : Regex α → Language α
  | .empty => 1
  | .symbol p => {w | ∃ a, p a = true ∧ w = [a]}
  | .seq r₁ r₂ => language r₁ * language r₂
  | .alt r₁ r₂ => language r₁ + language r₂
  | .plus r => language r * KStar.kstar (language r)
  | .group _ r => language r

@[simp] theorem language_word [DecidableEq α] (t : List α) : (word t).language = {t} := by
  induction t with
  | nil => rfl
  | cons a t ih =>
    ext u
    rw [word, language, Language.mem_mul, ih]
    constructor
    · rintro ⟨_, ⟨b, hb, rfl⟩, _, rfl, rfl⟩
      obtain rfl := beq_iff_eq.mp hb
      rfl
    · rintro rfl
      exact ⟨[a], ⟨a, beq_self_eq_true a, rfl⟩, t, rfl, rfl⟩

/-- Some part of `s` is a match. -/
def Matches (r : Regex α) (s : List α) : Prop := ∃ t, t <:+: s ∧ t ∈ r.language

/-! ## Every way is in the language -/

/-- What the rounds of a repetition find. -/
theorem rounds_sound {f : List α → List (Way α)} {l : Language α}
    (hf : ∀ s, ∀ w ∈ f s, w.matched ++ w.rest = s ∧ w.matched ∈ l) (n : Nat) :
    ∀ s, ∀ w ∈ rounds f n s, w.matched ++ w.rest = s ∧ w.matched ∈ l * KStar.kstar l := by
  have hOnce {w : Way α} (h : w.matched ∈ l) : w.matched ∈ l * KStar.kstar l :=
    Language.mem_mul.mpr ⟨_, h, [], Language.nil_mem_kstar l, List.append_nil _⟩
  induction n with
  | zero =>
    intro s w hw
    exact ⟨(hf s w hw).1, hOnce (hf s w hw).2⟩
  | succ n ih =>
    intro s w hw
    obtain ⟨w₁, hFirst, hw⟩ := List.mem_flatMap.mp hw
    obtain ⟨hSplit, hIn⟩ := hf s w₁ hFirst
    rcases List.mem_append.mp hw with hMore | hLast
    · split at hMore
      · cases hMore
      · obtain ⟨w₂, hSecond, rfl⟩ := List.mem_map.mp hMore
        obtain ⟨hSplit₂, hIn₂⟩ := ih _ w₂ hSecond
        refine ⟨?_, ?_⟩
        · simp only [Way.andThen, List.append_assoc, hSplit₂, hSplit]
        · -- the later rounds are a word of the closure
          have hClosure : w₂.matched ∈ KStar.kstar l :=
            Set.mem_of_mem_of_subset hIn₂ (mul_kstar_le_kstar (a := l))
          exact Language.append_mem_mul hIn hClosure
    · obtain rfl := List.mem_singleton.mp hLast
      exact ⟨hSplit, hOnce hIn⟩

/-- A way splits the text, and what it matched is in the language. -/
theorem ways_sound (r : Regex α) :
    ∀ s, ∀ w ∈ r.ways s, w.matched ++ w.rest = s ∧ w.matched ∈ r.language := by
  -- a repetition is a lemma of its own, the others are by their definitions
  induction r with
  | empty =>
    intro s w hw
    obtain rfl := List.mem_singleton.mp hw
    exact ⟨rfl, Language.nil_mem_one⟩
  | symbol p =>
    intro s w hw
    cases s with
    | nil => cases hw
    | cons a s =>
      simp only [ways] at hw
      split at hw
      · rename_i ha
        obtain rfl := List.mem_singleton.mp hw
        exact ⟨rfl, a, ha, rfl⟩
      · cases hw
  | seq r₁ r₂ ih₁ ih₂ =>
    intro s w hw
    obtain ⟨w₁, h₁, hw⟩ := List.mem_flatMap.mp hw
    obtain ⟨w₂, h₂, rfl⟩ := List.mem_map.mp hw
    obtain ⟨hSplit₁, hIn₁⟩ := ih₁ s w₁ h₁
    obtain ⟨hSplit₂, hIn₂⟩ := ih₂ _ w₂ h₂
    refine ⟨?_, Language.append_mem_mul hIn₁ hIn₂⟩
    simp only [Way.andThen, List.append_assoc, hSplit₂, hSplit₁]
  | alt r₁ r₂ ih₁ ih₂ =>
    intro s w hw
    rcases List.mem_append.mp hw with h | h
    · exact ⟨(ih₁ s w h).1, Or.inl (ih₁ s w h).2⟩
    · exact ⟨(ih₂ s w h).1, Or.inr (ih₂ s w h).2⟩
  | plus r ih =>
    intro s w hw
    exact rounds_sound ih s.length s w hw
  | group k r ih =>
    intro s w hw
    obtain ⟨w', h, rfl⟩ := List.mem_map.mp hw
    exact ih s w' h

/-! ## Every word of the language has a way -/

/-- Rounds for a word of the closure: the first one may be empty if it is the
last, the later ones are not. -/
theorem rounds_complete {f : List α → List (Way α)} {l : Language α}
    (hf : ∀ t ∈ l, ∀ s, ∃ w ∈ f (t ++ s), w.matched = t ∧ w.rest = s) (words : List (List α)) :
    ∀ n t s, t ∈ l → (∀ y ∈ words, y ∈ l ∧ y ≠ []) → (words = [] ∨ t ≠ []) → words.length ≤ n →
      ∃ w ∈ rounds f n (t ++ (words.flatten ++ s)),
        w.matched = t ++ words.flatten ∧ w.rest = s := by
  induction words with
  | nil =>
    intro n t s ht _ _ _
    obtain ⟨w, hw, hMatched, hRest⟩ := hf t ht s
    refine ⟨w, ?_, by rw [hMatched, List.flatten_nil, List.append_nil], hRest⟩
    cases n with
    | zero => exact hw
    | succ n =>
      exact List.mem_flatMap.mpr ⟨w, hw, List.mem_append_right _ (List.mem_singleton_self w)⟩
  | cons y words ih =>
    intro n t s ht hWords hFirst hLength
    obtain ⟨hy, hNonempty⟩ := hWords y List.mem_cons_self
    have hLater : ∀ z ∈ words, z ∈ l ∧ z ≠ [] := fun z hz => hWords z (List.mem_cons_of_mem y hz)
    have ht' : t ≠ [] := hFirst.resolve_left (List.cons_ne_nil y words)
    obtain ⟨n, rfl⟩ : ∃ m, n = m + 1 :=
      Nat.exists_eq_add_one_of_ne_zero (by rw [List.length_cons] at hLength; omega)
    -- the first round, and the later ones on what it leaves
    obtain ⟨w, hw, hMatched, hRest⟩ := hf t ht ((y :: words).flatten ++ s)
    obtain ⟨w', hw', hMatched', hRest'⟩ :=
      ih n y s hy hLater (Or.inr hNonempty) (by simpa using hLength)
    refine ⟨w.andThen w', ?_, ?_, hRest'⟩
    · refine List.mem_flatMap.mpr ⟨w, hw, List.mem_append_left _ ?_⟩
      rw [hMatched, List.isEmpty_eq_false_iff.mpr ht', if_neg Bool.false_ne_true, hRest,
        List.flatten_cons, List.append_assoc]
      exact List.mem_map_of_mem hw'
    · simp only [Way.andThen, hMatched, hMatched', List.flatten_cons]

theorem length_le_length_flatten {words : List (List α)} (h : ∀ y ∈ words, y ≠ []) :
    words.length ≤ words.flatten.length := by
  have hPositive : ∀ k ∈ words.map List.length, 1 ≤ k := by
    intro k hk
    obtain ⟨y, hy, rfl⟩ := List.mem_map.mp hk
    exact List.length_pos_iff.mpr (h y hy)
  have := List.length_le_sum_of_one_le _ hPositive
  rwa [List.length_map, ← List.length_flatten] at this

/-- A word of the language is matched wherever it stands. -/
theorem ways_complete (r : Regex α) :
    ∀ t ∈ r.language, ∀ s, ∃ w ∈ r.ways (t ++ s), w.matched = t ∧ w.rest = s := by
  induction r with
  | empty =>
    intro t ht s
    obtain rfl := (Language.mem_one t).mp ht
    exact ⟨_, List.mem_singleton_self _, rfl, rfl⟩
  | symbol p =>
    rintro t ⟨a, ha, rfl⟩ s
    refine ⟨⟨[a], s, []⟩, ?_, rfl, rfl⟩
    rw [List.singleton_append, ways, if_pos ha]
    exact List.mem_singleton_self _
  | seq r₁ r₂ ih₁ ih₂ =>
    intro t ht s
    obtain ⟨a, ha, b, hb, rfl⟩ := Language.mem_mul.mp ht
    obtain ⟨w, hw, hMatched, hRest⟩ := ih₁ a ha (b ++ s)
    obtain ⟨w', hw', hMatched', hRest'⟩ := ih₂ b hb s
    refine ⟨w.andThen w', ?_, ?_, hRest'⟩
    · rw [List.append_assoc, ways]
      refine List.mem_flatMap.mpr ⟨w, hw, List.mem_map_of_mem ?_⟩
      rw [hRest]
      exact hw'
    · simp only [Way.andThen, hMatched, hMatched']
  | alt r₁ r₂ ih₁ ih₂ =>
    rintro t (ht | ht) s
    · obtain ⟨w, hw, h⟩ := ih₁ t ht s
      exact ⟨w, List.mem_append_left _ hw, h⟩
    · obtain ⟨w, hw, h⟩ := ih₂ t ht s
      exact ⟨w, List.mem_append_right _ hw, h⟩
  | plus r ih =>
    intro t ht s
    obtain ⟨a, ha, b, hb, rfl⟩ := Language.mem_mul.mp ht
    obtain ⟨words, rfl, hWords⟩ := Language.mem_kstar_iff_exists_nonempty.mp hb
    have hLength := length_le_length_flatten fun y hy => (hWords y hy).2
    by_cases hEmpty : a = []
    · subst hEmpty
      cases words with
      | nil => exact rounds_complete ih [] _ [] s ha (by simp) (Or.inl rfl) (Nat.zero_le _)
      | cons y words =>
        -- the first round is the first of the words that is not empty
        obtain ⟨hy, hNonempty⟩ := hWords y List.mem_cons_self
        have hLater : ∀ z ∈ words, z ∈ r.language ∧ z ≠ [] :=
          fun z hz => hWords z (List.mem_cons_of_mem y hz)
        have hRounds : words.length ≤ ([] ++ (y :: words).flatten ++ s).length := by
          simp only [List.length_cons, List.length_append] at hLength ⊢
          omega
        have := rounds_complete ih words _ y s hy hLater (Or.inr hNonempty) hRounds
        simpa only [List.nil_append, List.flatten_cons, List.append_assoc, ways] using this
    · have hRounds : words.length ≤ (a ++ words.flatten ++ s).length := by
        simp only [List.length_append]
        omega
      rw [ways]
      have := rounds_complete ih words _ a s ha hWords (Or.inr hEmpty) hRounds
      simpa only [List.append_assoc] using this
  | group k r ih =>
    intro t ht s
    obtain ⟨w, hw, h⟩ := ih t ht s
    exact ⟨Way.group k w, List.mem_map_of_mem hw, h⟩

/-- The ways at the start of `s` are the prefixes of `s` in the language. -/
theorem exists_mem_ways_iff : (∃ w ∈ r.ways s, w.matched = t) ↔ t <+: s ∧ t ∈ r.language := by
  constructor
  · rintro ⟨w, hw, rfl⟩
    obtain ⟨hSplit, hIn⟩ := ways_sound r s w hw
    exact ⟨⟨w.rest, hSplit⟩, hIn⟩
  · rintro ⟨⟨rest, rfl⟩, hIn⟩
    obtain ⟨w, hw, hMatched, _⟩ := ways_complete r t hIn rest
    exact ⟨w, hw, hMatched⟩

/-! ## The search -/

theorem search_eq_none_iff : r.search s = none ↔ ¬ r.Matches s := by
  have hHere (s : List α) : (r.ways s).head? = none ↔ ∀ t, t <+: s → t ∉ r.language := by
    rw [List.head?_eq_none_iff, List.eq_nil_iff_forall_not_mem]
    constructor
    · intro hNone t hPrefix hIn
      obtain ⟨w, hw, _⟩ := exists_mem_ways_iff.mpr ⟨hPrefix, hIn⟩
      exact hNone w hw
    · intro hNone w hw
      obtain ⟨hPrefix, hIn⟩ := exists_mem_ways_iff.mp ⟨w, hw, rfl⟩
      exact hNone w.matched hPrefix hIn
  have hMatches (s : List α) : ¬ r.Matches s ↔ ∀ t, t <:+: s → t ∉ r.language := by
    simp only [Matches, not_exists, not_and]
  rw [hMatches]
  -- a match begins here or later
  induction s with
  | nil =>
    rw [search, hHere]
    exact forall_congr' fun t => by rw [List.prefix_nil, List.infix_nil]
  | cons a s ih =>
    rw [search, Option.or_eq_none_iff]
    refine (and_congr (hHere (a :: s)) ih).trans ?_
    constructor
    · rintro ⟨hStart, hLater⟩ t ht
      exact (List.infix_cons_iff.mp ht).elim (hStart t) (hLater t)
    · exact fun h => ⟨fun t ht => h t ht.isInfix, fun t ht => h t (List.infix_cons ht)⟩

/-- What is found is a match, at the leftmost start. -/
theorem search_sound {w : Way α} (h : r.search s = some w) :
    ∃ before, before ++ (w.matched ++ w.rest) = s ∧ w ∈ r.ways (w.matched ++ w.rest) := by
  induction s with
  | nil =>
    have hMem := List.mem_of_head? h
    have hSplit := (ways_sound r [] w hMem).1
    exact ⟨[], hSplit, hSplit ▸ hMem⟩
  | cons a s ih =>
    rw [search, Option.or_eq_some_iff] at h
    rcases h with hHere | ⟨_, hLater⟩
    · have hMem := List.mem_of_head? hHere
      have hSplit := (ways_sound r (a :: s) w hMem).1
      exact ⟨[], hSplit, hSplit ▸ hMem⟩
    · obtain ⟨before, hSplit, hMem⟩ := ih hLater
      exact ⟨a :: before, by rw [List.cons_append, hSplit], hMem⟩

/-- No match contains `c`. -/
def Avoids (c : α) (r : Regex α) : Prop := ∀ t ∈ r.language, c ∉ t

section Avoiding

variable {c : α}

theorem avoids_word [DecidableEq α] (h : c ∉ t) : (word t).Avoids c := by
  intro u hu
  rw [language_word] at hu
  exact hu ▸ h

theorem avoids_symbol (h : p c = false) : (Regex.symbol p).Avoids c := by
  rintro _ ⟨a, ha, rfl⟩ hMem
  obtain rfl := List.mem_singleton.mp hMem
  exact Bool.false_ne_true (h.symm.trans ha)

theorem Avoids.seq (h₁ : r₁.Avoids c) (h₂ : r₂.Avoids c) : (Regex.seq r₁ r₂).Avoids c := by
  intro u hu hMem
  obtain ⟨a, ha, b, hb, rfl⟩ := Language.mem_mul.mp hu
  exact (List.mem_append.mp hMem).elim (h₁ a ha) (h₂ b hb)

theorem Avoids.alt (h₁ : r₁.Avoids c) (h₂ : r₂.Avoids c) : (Regex.alt r₁ r₂).Avoids c :=
  fun u hu => hu.elim (h₁ u) (h₂ u)

theorem Avoids.plus (h : r.Avoids c) : (Regex.plus r).Avoids c := by
  intro u hu hMem
  obtain ⟨a, ha, b, hb, rfl⟩ := Language.mem_mul.mp hu
  obtain ⟨words, rfl, hWords⟩ := Language.mem_kstar.mp hb
  rcases List.mem_append.mp hMem with hFirst | hLater
  · exact h a ha hFirst
  · obtain ⟨y, hy, hIn⟩ := List.mem_flatten.mp hLater
    exact h y (hWords y hy) hIn

theorem Avoids.group {k : Nat} (h : r.Avoids c) : (Regex.group k r).Avoids c := h

end Avoiding

/-- A line without a match is passed over: a match that starts in it would have
to end in it. -/
theorem search_line_append {c : α} {line : List α} (hAvoids : r.Avoids c)
    (hLine : ¬ r.Matches line) : r.search (line ++ c :: s) = r.search s := by
  have hNone (part : List α) (hPart : part <:+ line) :
      (r.ways (part ++ c :: s)).head? = none := by
    rw [List.head?_eq_none_iff, List.eq_nil_iff_forall_not_mem]
    intro w hw
    obtain ⟨hSplit, hIn⟩ := ways_sound r _ w hw
    have hPrefix : w.matched <+: part := by
      rcases List.append_eq_append_iff.mp hSplit with ⟨more, hMore, _⟩ | ⟨more, hMore, hRest⟩
      · exact ⟨more, hMore.symm⟩
      · cases more with
        | nil => exact ⟨[], by rw [hMore, List.append_nil, List.append_nil]⟩
        | cons b more =>
          -- the match would contain the end of the line
          obtain ⟨rfl, _⟩ := List.cons.inj hRest
          exact absurd (hMore ▸ List.mem_append_right _ List.mem_cons_self) (hAvoids _ hIn)
    exact hLine ⟨w.matched, hPrefix.isInfix.trans hPart.isInfix, hIn⟩
  induction line with
  | nil =>
    have := hNone [] (List.nil_suffix)
    rw [List.nil_append] at this ⊢
    rw [search, this, Option.none_or]
  | cons a line ih =>
    have hHere := hNone (a :: line) (List.suffix_refl _)
    rw [List.cons_append] at hHere ⊢
    rw [search, hHere, Option.none_or]
    refine ih (fun h => hLine ?_) fun part hPart => hNone part (hPart.trans (List.suffix_cons a line))
    obtain ⟨t, ht, hIn⟩ := h
    exact ⟨t, List.infix_cons ht, hIn⟩

/-- Lines, each with its end. -/
def unlines (c : α) (lines : List (List α)) : List α := lines.flatMap (· ++ [c])

/-- The search passes over lines without a match. -/
theorem search_lines_append {c : α} {lines : List (List α)} (hAvoids : r.Avoids c)
    (hLines : ∀ line ∈ lines, ¬ r.Matches line) :
    r.search (unlines c lines ++ s) = r.search s := by
  induction lines with
  | nil => rfl
  | cons line lines ih =>
    have hLine := hLines line List.mem_cons_self
    have hLater := ih fun l hl => hLines l (List.mem_cons_of_mem line hl)
    calc r.search (unlines c (line :: lines) ++ s)
        = r.search (line ++ c :: (unlines c lines ++ s)) := by
          simp only [unlines, List.flatMap_cons, List.append_assoc, List.cons_append, List.nil_append]
      _ = r.search (unlines c lines ++ s) := search_line_append hAvoids hLine
      _ = r.search s := hLater

/-- If there is a way here, the search ends here. -/
theorem search_of_head? {w : Way α} (h : (r.ways s).head? = some w) : r.search s = some w := by
  cases s with
  | nil => exact h
  | cons a s => rw [search, h, Option.some_or]

/-! ## The preferred way -/

theorem head?_ways_seq {w w' : Way α} (h : (r₁.ways s).head? = some w)
    (h' : (r₂.ways w.rest).head? = some w') :
    ((Regex.seq r₁ r₂).ways s).head? = some (w.andThen w') := by
  obtain ⟨ws, hWs⟩ := List.head?_eq_some_iff.mp h
  obtain ⟨ws', hWs'⟩ := List.head?_eq_some_iff.mp h'
  simp only [ways, hWs, List.flatMap_cons, hWs', List.map_cons, List.cons_append, List.head?_cons]

theorem head?_ways_alt_left {w : Way α} (h : (r₁.ways s).head? = some w) :
    ((Regex.alt r₁ r₂).ways s).head? = some w := by
  rw [ways, List.head?_append, h, Option.some_or]

theorem head?_ways_alt_right (h : r₁.ways s = []) :
    ((Regex.alt r₁ r₂).ways s).head? = (r₂.ways s).head? := by
  rw [ways, h, List.nil_append]

theorem head?_ways_group {w : Way α} {k : Nat} (h : (r.ways s).head? = some w) :
    ((Regex.group k r).ways s).head? = some (w.group k) := by
  rw [ways, List.head?_map, h, Option.map_some]

section Words

variable [DecidableEq α]

theorem ways_word_append (t s : List α) : (word t).ways (t ++ s) = [⟨t, s, []⟩] := by
  induction t with
  | nil => rfl
  | cons a t ih =>
    simp only [word, List.cons_append, ways, beq_self_eq_true, if_true, List.flatMap_cons,
      List.flatMap_nil, List.append_nil, ih, List.map_cons, List.map_nil, Way.andThen,
      List.nil_append]

theorem ways_word_eq_nil {t : List α} (h : ¬ t <+: s) : (word t).ways s = [] := by
  refine List.eq_nil_iff_forall_not_mem.mpr fun w hw => h ?_
  obtain ⟨hPrefix, hIn⟩ := exists_mem_ways_iff.mp ⟨w, hw, rfl⟩
  rw [language_word] at hIn
  exact hIn ▸ hPrefix

end Words

theorem rounds_eq_nil {f : List α → List (Way α)} {n : Nat} (h : f s = []) :
    rounds f n s = [] := by
  cases n with
  | zero => exact h
  | succ n => rw [rounds, h, List.flatMap_nil]

theorem ways_symbol_eq_nil (h : s.takeWhile p = []) : (Regex.symbol p).ways s = [] := by
  cases s with
  | nil => rfl
  | cons a s =>
    rw [ways, if_neg]
    intro ha
    rw [List.takeWhile_cons_of_pos ha] at h
    exact List.cons_ne_nil _ _ h

theorem head?_rounds_symbol (n : Nat) (s : List α) (hLength : s.length ≤ n)
    (hSome : s.takeWhile p ≠ []) :
    (rounds (ways (.symbol p)) n s).head? = some ⟨s.takeWhile p, s.dropWhile p, []⟩ := by
  induction n generalizing s with
  | zero =>
    rw [List.eq_nil_of_length_eq_zero (Nat.le_zero.mp hLength)] at hSome
    exact absurd rfl hSome
  | succ n ih =>
    cases s with
    | nil => exact absurd rfl hSome
    | cons a s =>
      have ha : p a = true := by
        by_contra ha
        exact hSome (List.takeWhile_cons_of_neg ha)
      have hRounds : rounds (ways (.symbol p)) (n + 1) (a :: s) =
          (rounds (ways (.symbol p)) n s).map (Way.andThen ⟨[a], s, []⟩) ++ [⟨[a], s, []⟩] := by
        rw [rounds, ways, if_pos ha, List.flatMap_singleton]
        rfl
      rw [hRounds, List.takeWhile_cons_of_pos ha, List.dropWhile_cons_of_pos ha]
      by_cases hMore : s.takeWhile p = []
      · -- the next round does not match
        have hRest : s.dropWhile p = s := by
          simpa only [hMore, List.nil_append] using List.takeWhile_append_dropWhile (p := p) (l := s)
        rw [rounds_eq_nil (ways_symbol_eq_nil hMore), hMore, hRest]
        rfl
      · have hNext := ih s (Nat.le_of_succ_le_succ hLength) hMore
        rw [List.head?_append, List.head?_map, hNext, Option.map_some, Option.some_or]
        rfl

/-- A repeated symbol takes as many as there are. -/
theorem head?_ways_plus_symbol (h : s.takeWhile p ≠ []) :
    ((Regex.plus (.symbol p)).ways s).head? =
      some ⟨s.takeWhile p, s.dropWhile p, []⟩ :=
  head?_rounds_symbol s.length s le_rfl h

end Regex
