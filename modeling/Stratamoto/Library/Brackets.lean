import Mathlib.Data.List.Induction
import Mathlib.Data.List.Basic
import Mathlib.Data.List.Find

/-!
# Bracket words

Words over an alphabet of opening, closing and plain tokens, with brackets of
any number of kinds `κ`. `Balanced` is the grammar of properly nested words,
`Matches w b e` says that the closing token at `e` ends the block the opening
token at `b` begins, and `OpenAt w b j` that the block begun at `b` is still
open just before position `j`.

A one-pass reader decides all three with a stack of open positions
(`openStack`). The results tie the stack to the declarative notions:

* `balanced_iff_openStack` — balanced words are those that leave no block open;
* `mem_openStack_iff` — the stack holds exactly the positions still open;
* `matches_iff_head` — a closing token ends the block on top of the stack;
* `Matches.nested` — matched pairs are nested or disjoint;
* `matching_eq_some_iff` — `matching w b` computes where a block is closed;
* `Projects.matches` — words written for other words, some kinds of block left out.
-/

namespace Brackets

/-- A token of a bracket word over the bracket kinds `κ`. -/
inductive Token (κ : Type*) where
  | opening (k : κ)
  | closing (k : κ)
  | plain
  deriving DecidableEq, Repr

abbrev Word (κ : Type*) := List (Token κ)

variable {κ : Type*}

/-- Properly nested words: every block is closed by a token of its own kind. -/
inductive Balanced : Word κ → Prop
  | nil : Balanced []
  | plain {w : Word κ} : Balanced w → Balanced (.plain :: w)
  | block {v w : Word κ} (k : κ) :
      Balanced v → Balanced w → Balanced (.opening k :: (v ++ .closing k :: w))

/-- The closing token at `e` ends the block begun at `b`: the word between
them is balanced and the two are of one kind. -/
def Matches (w : Word κ) (b e : Nat) : Prop :=
  ∃ (u v x : Word κ) (k : κ), w = u ++ .opening k :: (v ++ .closing k :: x) ∧
    Balanced v ∧ b = u.length ∧ e = u.length + 1 + v.length

/-- The block begun at `b` has not been closed before position `j`. -/
def OpenAt (w : Word κ) (b j : Nat) : Prop :=
  b < j ∧ (∃ k, w[b]? = some (.opening k)) ∧ ∀ e < j, ¬ Matches w b e

/-! ## Matching -/

theorem Balanced.append {v w : Word κ} (hv : Balanced v) (hw : Balanced w) :
    Balanced (v ++ w) := by
  induction hv with
  | nil => exact hw
  | plain _ ih => exact ih.plain
  | block k hv _ _ ihw =>
    rw [List.cons_append, List.append_assoc, List.cons_append]
    exact Balanced.block k hv ihw

theorem Matches.lt {w : Word κ} {b e : Nat} (h : Matches w b e) : b < e := by
  obtain ⟨u, v, x, k, -, -, rfl, rfl⟩ := h
  omega

theorem Matches.tokens {w : Word κ} {b e : Nat} (h : Matches w b e) :
    ∃ k, w[b]? = some (.opening k) ∧ w[e]? = some (.closing k) := by
  obtain ⟨u, v, x, k, rfl, -, rfl, rfl⟩ := h
  refine ⟨k, by simp, ?_⟩
  rw [List.getElem?_append_right (by omega),
    show u.length + 1 + v.length - u.length = v.length + 1 by omega]
  simp

theorem Matches.lt_length {w : Word κ} {b e : Nat} (h : Matches w b e) : e < w.length := by
  obtain ⟨k, -, hk⟩ := h.tokens
  exact (List.getElem?_eq_some_iff.mp hk).1

theorem Matches.append {w : Word κ} {b e : Nat} (h : Matches w b e) (y : Word κ) :
    Matches (w ++ y) b e := by
  obtain ⟨u, v, x, k, rfl, hv, hb, he⟩ := h
  exact ⟨u, v, x ++ y, k, by simp, hv, hb, he⟩

/-- A match is decided by what stands up to its closing token. -/
theorem Matches.of_append {w y : Word κ} {b e : Nat} (h : Matches (w ++ y) b e)
    (he : e < w.length) : Matches w b e := by
  obtain ⟨u, v, x, k, hw, hv, rfl, rfl⟩ := h
  have hw' : w ++ y = (u ++ .opening k :: (v ++ [.closing k])) ++ x := by simpa using hw
  have hEnds : u ++ .opening k :: (v ++ [.closing k]) <+: w ++ y := ⟨x, hw'.symm⟩
  obtain ⟨z, rfl⟩ : u ++ .opening k :: (v ++ [.closing k]) <+: w := by
    refine List.prefix_of_prefix_length_le hEnds (List.prefix_append w y) ?_
    simp
    omega
  exact ⟨u, v, z, k, by simp, hv, rfl, rfl⟩

/-- The part of a word between matching tokens is balanced, they included. -/
theorem Matches.balanced {w : Word κ} {b e : Nat} (h : Matches w b e) :
    Balanced ((w.drop b).take (e + 1 - b)) := by
  obtain ⟨u, v, x, k, rfl, hv, rfl, rfl⟩ := h
  have hPart : ((u ++ .opening k :: (v ++ .closing k :: x)).drop u.length).take
      (u.length + 1 + v.length + 1 - u.length) = .opening k :: (v ++ .closing k :: []) := by
    rw [List.drop_left, show u.length + 1 + v.length + 1 - u.length =
      (Token.opening k :: (v ++ [.closing k])).length by simp; omega]
    rw [show Token.opening k :: (v ++ .closing k :: x) =
      (.opening k :: (v ++ [.closing k])) ++ x by simp, List.take_left]
  rw [hPart]
  exact Balanced.block k hv .nil

theorem openAt_append {w y : Word κ} {b j : Nat} (hj : j ≤ w.length) :
    OpenAt (w ++ y) b j ↔ OpenAt w b j := by
  constructor
  · rintro ⟨hb, ⟨k, hk⟩, hNone⟩
    refine ⟨hb, ⟨k, ?_⟩, fun e he hM => hNone e he (hM.append y)⟩
    rwa [List.getElem?_append_left (by omega)] at hk
  · rintro ⟨hb, ⟨k, hk⟩, hNone⟩
    refine ⟨hb, ⟨k, ?_⟩, fun e he hM => hNone e he (hM.of_append (by omega))⟩
    rwa [List.getElem?_append_left (by omega)]

theorem openAt_take {w : Word κ} {b j : Nat} (hj : j ≤ w.length) :
    OpenAt (w.take j) b j ↔ OpenAt w b j := by
  have h := openAt_append (w := w.take j) (y := w.drop j) (b := b) (j := j)
    (Nat.le_of_eq (List.length_take_of_le hj).symm)
  rw [List.take_append_drop] at h
  exact h.symm

/-! ## Projecting -/

/-- What `f` writes for an item brackets what the item's token does, as far as its
kind of block is kept, and nothing else. -/
structure Projects {α : Type*} {κ' : Type*} (t : α → Token κ) (f : α → Word κ')
    (keep : κ → Option κ') : Prop where
  opening : ∀ x k, t x = .opening k → f x = ((keep k).map Token.opening).toList
  closing : ∀ x k, t x = .closing k → f x = ((keep k).map Token.closing).toList
  plain : ∀ x, t x = .plain → ∀ y ∈ f x, y = .plain

theorem balanced_of_plain {w : Word κ} (h : ∀ y ∈ w, y = .plain) : Balanced w := by
  induction w with
  | nil => exact .nil
  | cons y w ih =>
    obtain ⟨rfl, hRest⟩ := List.forall_mem_cons.mp h
    exact (ih hRest).plain

section Projecting

variable {α κ' : Type*} {t : α → Token κ} {f : α → Word κ'} {keep : κ → Option κ'}

/-- Leaving out a kind of block keeps the nesting of the others. -/
theorem Projects.balanced (h : Projects t f keep) {l : List α} (hl : Balanced (l.map t)) :
    Balanced (l.flatMap f) := by
  generalize hw : l.map t = w at hl
  induction hl generalizing l with
  | nil =>
    obtain rfl := List.map_eq_nil_iff.mp hw
    exact .nil
  | plain _ ih =>
    obtain ⟨x, l, rfl, hx, hRest⟩ := List.map_eq_cons_iff.mp hw
    rw [List.flatMap_cons]
    exact (balanced_of_plain (h.plain x hx)).append (ih hRest)
  | block k _ _ ihv ihw =>
    obtain ⟨x, l, rfl, hx, hRest⟩ := List.map_eq_cons_iff.mp hw
    obtain ⟨v, l, rfl, hv, hRest⟩ := List.map_eq_append_iff.mp hRest
    obtain ⟨y, z, rfl, hy, hz⟩ := List.map_eq_cons_iff.mp hRest
    rw [List.flatMap_cons, List.flatMap_append, List.flatMap_cons, h.opening x k hx,
      h.closing y k hy]
    -- the block is kept or left out as a whole
    cases keep k with
    | none => exact (ihv hv).append (ihw hz)
    | some k' => exact Balanced.block k' (ihv hv) (ihw hz)

/-- A block that is kept has its end where the end was. -/
theorem Projects.matches (h : Projects t f keep) {l : List α} {b e : Nat} {k : κ} {k' : κ'}
    (hBlock : Matches (l.map t) b e) (hk : (l.map t)[b]? = some (.opening k))
    (hKeep : keep k = some k') :
    Matches (l.flatMap f) ((l.take b).flatMap f).length ((l.take e).flatMap f).length := by
  obtain ⟨u, v, z, k₁, hw, hv, rfl, rfl⟩ := hBlock
  obtain ⟨lu, l₁, rfl, rfl, hBegin⟩ := List.map_eq_append_iff.mp hw
  obtain ⟨x, l₂, rfl, hx, hBody⟩ := List.map_eq_cons_iff.mp hBegin
  obtain ⟨lv, l₃, rfl, rfl, hEnd⟩ := List.map_eq_append_iff.mp hBody
  obtain ⟨y, lz, rfl, hy, rfl⟩ := List.map_eq_cons_iff.mp hEnd
  obtain rfl : k = k₁ := by simpa [hx, eq_comm] using hk
  -- the two brackets of the block are kept
  have hOpening : f x = [.opening k'] := by
    rw [h.opening x k hx, hKeep]
    rfl
  have hClosing : f y = [.closing k'] := by
    rw [h.closing y k hy, hKeep]
    rfl
  rw [List.length_map, List.length_map, List.take_left]
  have hTake : (lu ++ x :: (lv ++ y :: lz)).take (lu.length + 1 + lv.length) = lu ++ x :: lv := by
    rw [show lu ++ x :: (lv ++ y :: lz) = (lu ++ x :: lv) ++ y :: lz by simp,
      List.take_left' (by simp; omega)]
  rw [hTake]
  refine ⟨lu.flatMap f, lv.flatMap f, lz.flatMap f, k', ?_, h.balanced hv, rfl, ?_⟩
  · simp only [List.flatMap_append, List.flatMap_cons, hOpening, hClosing, List.singleton_append]
  · simp only [List.flatMap_append, List.flatMap_cons, hOpening, List.length_append,
      List.length_singleton]
    omega

end Projecting

/-! ## Reading with a stack -/

variable [DecidableEq κ]

/-- Read the token at position `n` over the stack of open blocks, innermost
first. `none` is a closing token with nothing of its kind to close. -/
def step (n : Nat) (s : List (Nat × κ)) : Token κ → Option (List (Nat × κ))
  | .opening k => some ((n, k) :: s)
  | .closing k =>
    match s with
    | [] => none
    | (_, k') :: s' => if k = k' then some s' else none
  | .plain => some s

/-- Read a word whose first token is at position `n`. -/
def scan (n : Nat) (s : List (Nat × κ)) : Word κ → Option (List (Nat × κ))
  | [] => some s
  | t :: w => (step n s t).bind fun s' => scan (n + 1) s' w

/-- The blocks a word leaves open, innermost first. -/
def openStack (w : Word κ) : Option (List (Nat × κ)) := scan 0 [] w

theorem scan_append (n : Nat) (s : List (Nat × κ)) (v w : Word κ) :
    scan n s (v ++ w) = (scan n s v).bind fun s' => scan (n + v.length) s' w := by
  induction v generalizing n s with
  | nil => simp [scan]
  | cons t v ih =>
    simp only [List.cons_append, scan, List.length_cons]
    cases step n s t with
    | none => rfl
    | some s' =>
      simp only [Option.bind_some]
      rw [ih, show n + 1 + v.length = n + (v.length + 1) by omega]

theorem openStack_append (v w : Word κ) :
    openStack (v ++ w) = (openStack v).bind fun s => scan v.length s w := by
  rw [openStack, scan_append, Nat.zero_add]
  rfl

theorem openStack_snoc (w : Word κ) (t : Token κ) :
    openStack (w ++ [t]) = (openStack w).bind fun s => step w.length s t := by
  rw [openStack_append]
  congr 1
  funext s
  simp [scan]

/-- A word the reader accepts was accepted up to every earlier point. -/
theorem openStack_of_append {v w : Word κ} {s : List (Nat × κ)}
    (h : openStack (v ++ w) = some s) : ∃ s', openStack v = some s' := by
  rw [openStack_append] at h
  obtain ⟨s', hs', -⟩ := Option.bind_eq_some_iff.mp h
  exact ⟨s', hs'⟩

theorem openStack_take {w : Word κ} {s : List (Nat × κ)}
    (h : openStack w = some s) (j : Nat) : ∃ s', openStack (w.take j) = some s' := by
  rw [← List.take_append_drop j w] at h
  exact openStack_of_append h

/-- A balanced word leaves the stack as it found it. -/
theorem Balanced.scan {v : Word κ} (hv : Balanced v) (n : Nat) (s : List (Nat × κ)) :
    scan n s v = some s := by
  induction hv generalizing n s with
  | nil => rfl
  | plain _ ih => simpa [Brackets.scan, step] using ih (n + 1) s
  | block k _ _ ihv ihw =>
    simp only [Brackets.scan, step, Option.bind_some]
    rw [scan_append, ihv]
    simp [Brackets.scan, step, ihw]

/-! ## What the stack says about the word -/

/-- The shape of a word by the stack it leaves: below the top block stands a
word that leaves the rest, above it a balanced one. -/
theorem openStack_shape (w : Word κ) :
    (openStack w = some [] → Balanced w) ∧
    (∀ b k s, openStack w = some ((b, k) :: s) →
      ∃ u v, w = u ++ .opening k :: v ∧ b = u.length ∧
        openStack u = some s ∧ Balanced v) := by
  induction hn : w.length using Nat.strongRecOn generalizing w with
  | _ n ih =>
    rcases List.eq_nil_or_concat w with rfl | ⟨w', t, rfl⟩
    · exact ⟨fun _ => .nil, fun b k s h => by simp [openStack, scan] at h⟩
    · have hlen : w'.length < n := by
        rw [← hn]
        simp
      obtain ⟨ihNil, ihCons⟩ := ih w'.length hlen w' rfl
      cases t with
      | plain =>
        have hEq : openStack (w' ++ [.plain]) = openStack w' := by
          rw [openStack_snoc]
          cases openStack w' <;> rfl
        rw [List.concat_eq_append, hEq]
        constructor
        · intro h
          exact (ihNil h).append (.plain .nil)
        · intro b k s h
          obtain ⟨u, v, rfl, hb, hu, hv⟩ := ihCons b k s h
          exact ⟨u, v ++ [.plain], by simp, hb, hu, hv.append (.plain .nil)⟩
      | opening k =>
        rw [List.concat_eq_append, openStack_snoc]
        constructor
        · intro h
          obtain ⟨s, _, hs⟩ := Option.bind_eq_some_iff.mp h
          simp [step] at hs
        · intro b k' s h
          obtain ⟨s', hs', hs⟩ := Option.bind_eq_some_iff.mp h
          simp only [step, Option.some.injEq, List.cons.injEq, Prod.mk.injEq] at hs
          obtain ⟨⟨rfl, rfl⟩, rfl⟩ := hs
          exact ⟨w', [], rfl, rfl, hs', .nil⟩
      | closing k =>
        rw [List.concat_eq_append, openStack_snoc]
        -- the closing token ends the top block, and the word below it is shorter
        have hClosed : ∀ s, (openStack w').bind (fun s' => step w'.length s' (.closing k)) = some s →
            ∃ u v, w' = u ++ .opening k :: v ∧ openStack u = some s ∧ Balanced v := by
          intro s h
          obtain ⟨s', hs', hs⟩ := Option.bind_eq_some_iff.mp h
          match s', hs with
          | (b', k') :: s'', hs =>
            simp only [step] at hs
            split at hs
            · rename_i hk
              subst hk
              obtain ⟨u, v, hw, _, hu, hv⟩ := ihCons b' k s'' hs'
              rw [Option.some.inj hs] at hu
              exact ⟨u, v, hw, hu, hv⟩
            · cases hs
        have hBlock : ∀ v : Word κ, Balanced v → Balanced (.opening k :: v ++ [.closing k]) :=
          fun v hv => Balanced.block k hv .nil
        constructor
        · intro h
          obtain ⟨u, v, rfl, hu, hv⟩ := hClosed [] h
          have huLen : u.length < n := by
            rw [← hn]
            simp
          have := (ih u.length huLen u rfl).1 hu
          rw [List.append_assoc]
          exact this.append (hBlock v hv)
        · intro b k' s h
          obtain ⟨u, v, rfl, hu, hv⟩ := hClosed _ h
          have huLen : u.length < n := by
            rw [← hn]
            simp
          obtain ⟨u', v', rfl, hb, hu', hv'⟩ := (ih u.length huLen u rfl).2 b k' s hu
          exact ⟨u', v' ++ (.opening k :: v ++ [.closing k]), by simp, hb, hu',
            hv'.append (hBlock v hv)⟩

/-- Balanced words are those the reader accepts with no block left open. -/
theorem balanced_iff_openStack {w : Word κ} : Balanced w ↔ openStack w = some [] :=
  ⟨fun h => h.scan 0 [], (openStack_shape w).1⟩

/-- Every stack entry is an opening token of the word, innermost last in it. -/
theorem openStack_sorted {w : Word κ} {s : List (Nat × κ)} (h : openStack w = some s) :
    (s.map Prod.fst).Pairwise (· > ·) ∧
      ∀ b k, (b, k) ∈ s → w[b]? = some (.opening k) := by
  induction s generalizing w with
  | nil => simp
  | cons p s ih =>
    obtain ⟨b, k⟩ := p
    obtain ⟨u, v, rfl, rfl, hu, -⟩ := (openStack_shape w).2 b k s h
    obtain ⟨hSorted, hOpen⟩ := ih hu
    -- what is open below was opened before
    have hLt : ∀ b' k', (b', k') ∈ s → b' < u.length := by
      intro b' k' hMem
      exact (List.getElem?_eq_some_iff.mp (hOpen b' k' hMem)).1
    refine ⟨List.pairwise_cons.mpr ⟨?_, hSorted⟩, ?_⟩
    · intro b' hMem
      obtain ⟨⟨b'', k''⟩, hMem', rfl⟩ := List.mem_map.mp hMem
      exact hLt b'' k'' hMem'
    · intro b' k' hMem
      rcases List.mem_cons.mp hMem with hEq | hMem'
      · obtain ⟨rfl, rfl⟩ := Prod.mk.inj hEq
        simp
      · rw [List.getElem?_append_left (hLt b' k' hMem')]
        exact hOpen b' k' hMem'

theorem lt_of_mem_openStack {w : Word κ} {s : List (Nat × κ)} (h : openStack w = some s)
    {b : Nat} (hb : b ∈ s.map Prod.fst) : b < w.length := by
  obtain ⟨⟨b', k⟩, hMem, rfl⟩ := List.mem_map.mp hb
  exact (List.getElem?_eq_some_iff.mp ((openStack_sorted h).2 b' k hMem)).1

/-! ## Matching and the stack -/

/-- Before its closing token, a matched block is on top of the stack. -/
theorem Matches.head {w : Word κ} {b e : Nat} (h : Matches w b e) {s : List (Nat × κ)}
    (hs : openStack (w.take e) = some s) :
    ∃ k s', s = (b, k) :: s' ∧ openStack (w.take b) = some s' ∧
      w[e]? = some (.closing k) := by
  have hTokens := h.tokens
  obtain ⟨u, v, x, k, rfl, hv, rfl, rfl⟩ := h
  have hTake : (u ++ .opening k :: (v ++ .closing k :: x)).take (u.length + 1 + v.length) =
      u ++ .opening k :: v := by
    rw [show u.length + 1 + v.length = (u ++ .opening k :: v).length by simp; omega,
      show u ++ .opening k :: (v ++ .closing k :: x) =
        (u ++ .opening k :: v) ++ .closing k :: x by simp]
    exact List.take_left
  rw [hTake] at hs
  -- what stands between the two is balanced, so the begin is on top again
  obtain ⟨s', hs'⟩ := openStack_of_append hs
  rw [openStack_append, hs'] at hs
  simp only [Option.bind_some, scan, step, hv.scan, Option.some.injEq] at hs
  refine ⟨k, s', hs.symm, by simpa using hs', ?_⟩
  obtain ⟨k', hk', he⟩ := hTokens
  simp only [List.getElem?_append_right (Nat.le_refl _), Nat.sub_self, List.getElem?_cons_zero,
    Option.some.injEq, Token.opening.injEq] at hk'
  rw [he, hk']

/-- A closing token that the reader accepts ends the block on top of the stack. -/
theorem matches_of_head {w : Word κ} {b e : Nat} {k : κ} {s : List (Nat × κ)}
    (hs : openStack (w.take e) = some ((b, k) :: s)) (he : w[e]? = some (.closing k)) :
    Matches w b e := by
  obtain ⟨heLen, heTok⟩ := List.getElem?_eq_some_iff.mp he
  obtain ⟨u, v, hTake, rfl, -, hv⟩ := (openStack_shape _).2 b k s hs
  have hLen : e = u.length + 1 + v.length := by
    have := congrArg List.length hTake
    rw [List.length_take_of_le (by omega)] at this
    simp at this
    omega
  refine ⟨u, v, w.drop (e + 1), k, ?_, hv, rfl, hLen⟩
  calc w = w.take e ++ w.drop e := (List.take_append_drop e w).symm
    _ = (u ++ .opening k :: v) ++ .closing k :: w.drop (e + 1) := by
        rw [hTake, List.drop_eq_getElem_cons heLen, heTok]
    _ = u ++ .opening k :: (v ++ .closing k :: w.drop (e + 1)) := by simp

theorem matches_iff_head {w : Word κ} {b e : Nat} {s : List (Nat × κ)}
    (hs : openStack (w.take e) = some s) :
    Matches w b e ↔ ∃ k s', s = (b, k) :: s' ∧ w[e]? = some (.closing k) := by
  constructor
  · intro h
    obtain ⟨k, s', hEq, -, he⟩ := h.head hs
    exact ⟨k, s', hEq, he⟩
  · rintro ⟨k, s', rfl, he⟩
    exact matches_of_head hs he

/-! ## Open blocks -/

/-- The stack holds exactly the blocks still open at the end of the word. -/
theorem mem_openStack_iff {w : Word κ} {s : List (Nat × κ)} (h : openStack w = some s)
    {b : Nat} : b ∈ s.map Prod.fst ↔ OpenAt w b w.length := by
  induction w using List.reverseRecOn generalizing s with
  | nil =>
    simp only [openStack, scan, Option.some.injEq] at h
    subst h
    simp [OpenAt]
  | append_singleton w t ih =>
    rw [openStack_snoc] at h
    obtain ⟨s', hs', hStep⟩ := Option.bind_eq_some_iff.mp h
    have ih := ih hs'
    have hTakeW : (w ++ [t]).take w.length = w := by simp
    -- the last token closes what is on top of the stack and nothing else
    have hLast : ∀ b, Matches (w ++ [t]) b w.length ↔ ∃ k s'', s' = (b, k) :: s'' ∧ t = .closing k := by
      intro b
      rw [matches_iff_head (by rw [hTakeW]; exact hs')]
      simp
    have hOpen : OpenAt (w ++ [t]) b (w ++ [t]).length ↔
        (OpenAt w b w.length ∨ (b = w.length ∧ ∃ k, t = .opening k)) ∧
          ¬ Matches (w ++ [t]) b w.length := by
      constructor
      · rintro ⟨hb, ⟨k, hk⟩, hNone⟩
        simp only [List.length_append, List.length_singleton] at hb hNone
        refine ⟨?_, hNone _ (by omega)⟩
        rcases Nat.lt_or_ge b w.length with hlt | hge
        · left
          refine ⟨hlt, ⟨k, ?_⟩, fun e he hM => hNone e (by omega) (hM.append _)⟩
          rwa [List.getElem?_append_left hlt] at hk
        · right
          have hEq : b = w.length := by omega
          subst hEq
          exact ⟨rfl, k, by simpa using hk⟩
      · rintro ⟨hw, hNone⟩
        simp only [OpenAt, List.length_append, List.length_singleton]
        rcases hw with ⟨hb, ⟨k, hk⟩, hOld⟩ | ⟨rfl, k, rfl⟩
        · refine ⟨by omega, ⟨k, by rw [List.getElem?_append_left hb]; exact hk⟩, ?_⟩
          intro e he hM
          rcases Nat.lt_or_ge e w.length with hlt | hge
          · exact hOld e hlt (hM.of_append hlt)
          · exact hNone ((show e = w.length by omega) ▸ hM)
        · refine ⟨by omega, ⟨k, by simp⟩, ?_⟩
          intro e he hM
          have := hM.lt
          omega
    rw [hOpen, hLast, ← ih]
    cases t with
    | plain =>
      simp only [step, Option.some.injEq] at hStep
      subst hStep
      simp
    | opening k =>
      simp only [step, Option.some.injEq] at hStep
      subst hStep
      simp [or_comm]
    | closing k =>
      match s', hStep with
      | (b', k') :: s'', hStep =>
        simp only [step] at hStep
        split at hStep
        · rename_i hk
          subst hk
          obtain rfl := Option.some.inj hStep
          have hSorted := (openStack_sorted hs').1
          have hNotin : b' ∉ s''.map Prod.fst := by
            intro hMem
            exact Nat.lt_irrefl _ ((List.pairwise_cons.mp hSorted).1 b' hMem)
          constructor
          · intro hMem
            refine ⟨Or.inl (List.mem_cons_of_mem _ hMem), ?_⟩
            rintro ⟨k₂, s₂, hEq, -⟩
            obtain ⟨rfl, -⟩ := Prod.mk.inj (List.cons.inj hEq).1
            exact hNotin hMem
          · rintro ⟨hMem | ⟨-, k₂, hk₂⟩, hNo⟩
            · rcases List.mem_cons.mp hMem with rfl | hMem'
              · exact absurd ⟨k, s'', rfl, rfl⟩ hNo
              · exact hMem'
            · cases hk₂
        · cases hStep

/-- The stack before a position holds exactly the blocks open there. -/
theorem mem_openStack_take_iff {w : Word κ} {j : Nat} {s : List (Nat × κ)} (hj : j ≤ w.length)
    (h : openStack (w.take j) = some s) {b : Nat} :
    b ∈ s.map Prod.fst ↔ OpenAt w b j := by
  rw [mem_openStack_iff h, List.length_take_of_le hj, openAt_take hj]

/-- In a word the reader accepts, two matched pairs are nested or disjoint. -/
theorem Matches.nested {w : Word κ} {s : List (Nat × κ)} (hw : openStack w = some s)
    {b e b' e' : Nat} (h : Matches w b e) (h' : Matches w b' e') (hlt : b < b') (hle : b' < e) :
    e' < e := by
  by_contra hge
  obtain ⟨se, hse⟩ := openStack_take hw e
  obtain ⟨k, s', rfl, -, -⟩ := h.head hse
  have hMem : b' ∈ ((b, k) :: s').map Prod.fst := by
    rw [mem_openStack_take_iff (Nat.le_of_lt h.lt_length) hse]
    obtain ⟨k', hk', -⟩ := h'.tokens
    refine ⟨hle, ⟨k', hk'⟩, fun e₂ he₂ hM => ?_⟩
    -- a second closing of `b'` before `e` contradicts the first
    obtain ⟨s₂, hs₂⟩ := openStack_take hw e'
    obtain ⟨k₂, s₂', rfl, -, -⟩ := h'.head hs₂
    have hOpen : OpenAt w b' e' :=
      (mem_openStack_take_iff (Nat.le_of_lt h'.lt_length) hs₂).mp (by simp)
    exact hOpen.2.2 e₂ (by omega) hM
  rcases List.mem_cons.mp hMem with hEq | hMem'
  · have hEq : b' = b := hEq
    omega
  · have := (List.pairwise_cons.mp (openStack_sorted hse).1).1 b' hMem'
    have : b' < b := this
    omega

/-- A block is closed at most once. -/
theorem Matches.unique {w : Word κ} {s : List (Nat × κ)} (hw : openStack w = some s)
    {b e e' : Nat} (h : Matches w b e) (h' : Matches w b e') : e = e' := by
  have key : ∀ {e₁ e₂ : Nat}, Matches w b e₁ → Matches w b e₂ → ¬ e₁ < e₂ := by
    intro e₁ e₂ h₁ h₂ hlt
    obtain ⟨s₂, hs₂⟩ := openStack_take hw e₂
    obtain ⟨k, s', rfl, -, -⟩ := h₂.head hs₂
    have hOpen : OpenAt w b e₂ :=
      (mem_openStack_take_iff (Nat.le_of_lt h₂.lt_length) hs₂).mp (by simp)
    exact hOpen.2.2 e₁ hlt h₁
  have h₁ := key h h'
  have h₂ := key h' h
  omega

/-- In a balanced word every opening token has its closing token. -/
theorem Balanced.exists_matches {w : Word κ} (hw : Balanced w) {b : Nat} {k : κ}
    (hb : w[b]? = some (.opening k)) : ∃ e, Matches w b e := by
  have hs := balanced_iff_openStack.mp hw
  by_contra hNone
  have hNone := not_exists.mp hNone
  have hOpen : OpenAt w b w.length :=
    ⟨(List.getElem?_eq_some_iff.mp hb).1, ⟨k, hb⟩, fun e _ => hNone e⟩
  simpa using (mem_openStack_iff hs).mpr hOpen

/-- In a balanced word every closing token has its opening token. -/
theorem Balanced.exists_matches_of_closing {w : Word κ} (hw : Balanced w) {e : Nat} {k : κ}
    (he : w[e]? = some (.closing k)) : ∃ b, Matches w b e := by
  have hs := balanced_iff_openStack.mp hw
  obtain ⟨s, hBefore⟩ := openStack_take hs e
  obtain ⟨s', hAfter⟩ := openStack_take hs (e + 1)
  rw [List.take_add_one, he, Option.toList_some, openStack_snoc, hBefore, Option.bind_some] at hAfter
  cases s with
  | nil => cases hAfter
  | cons p s =>
    obtain ⟨b, k'⟩ := p
    simp only [step] at hAfter
    split at hAfter
    · rename_i hSame
      exact ⟨b, matches_of_head hBefore (by rw [he, hSame])⟩
    · cases hAfter

/-- Behind a block nothing begun in it is open. -/
theorem Matches.not_openAt {w : Word κ} (hw : Balanced w) {b e h j : Nat} (hBlock : Matches w b e)
    (hb : b ≤ h) (he : h < e) (hj : e < j) : ¬ OpenAt w h j := by
  intro hOpen
  obtain ⟨k, hk⟩ := hOpen.2.1
  obtain ⟨e', hEnd⟩ := hw.exists_matches hk
  have hs := balanced_iff_openStack.mp hw
  have hBefore : e' < j := by
    rcases Nat.lt_or_eq_of_le hb with hInside | rfl
    · exact Nat.lt_trans (hBlock.nested hs hEnd hInside he) hj
    · rwa [← hBlock.unique hs hEnd]
  exact hOpen.2.2 e' hBefore hEnd

/-! ## The closing token of a block -/

/-- The token at `e` closes the block at `b`, by the stack before it. -/
def closes (w : Word κ) (b e : Nat) : Bool :=
  match openStack (w.take e), w[e]? with
  | some ((b', k) :: _), some (.closing k') => b' = b ∧ k = k'
  | _, _ => false

/-- Where the block begun at `b` is closed. -/
def matching (w : Word κ) (b : Nat) : Option Nat := (List.range w.length).find? (closes w b)

theorem closes_iff {w : Word κ} {s : List (Nat × κ)} (hw : openStack w = some s) {b e : Nat} :
    closes w b e = true ↔ Matches w b e := by
  obtain ⟨s', hs'⟩ := openStack_take hw e
  rw [matches_iff_head hs', closes, hs']
  cases s' with
  | nil => simp
  | cons p s' =>
    obtain ⟨b', k⟩ := p
    rcases w[e]? with _ | _ | k' | _
    · simp
    · simp
    · simp only [List.cons.injEq, Prod.mk.injEq, Option.some.injEq, Token.closing.injEq,
        Bool.decide_and, Bool.and_eq_true, decide_eq_true_eq]
      constructor
      · rintro ⟨rfl, rfl⟩
        exact ⟨k, s', ⟨⟨rfl, rfl⟩, rfl⟩, rfl⟩
      · rintro ⟨k₂, s₂, ⟨⟨rfl, rfl⟩, rfl⟩, rfl⟩
        exact ⟨rfl, rfl⟩
    · simp

theorem matching_eq_some_iff {w : Word κ} {s : List (Nat × κ)} (hw : openStack w = some s)
    {b e : Nat} : matching w b = some e ↔ Matches w b e := by
  constructor
  · intro h
    exact (closes_iff hw).mp (List.find?_some h)
  · intro h
    -- the first closing token found is the only one there is
    cases hFind : matching w b with
    | none =>
      have := List.find?_eq_none.mp hFind e (List.mem_range.mpr h.lt_length)
      exact absurd ((closes_iff hw).mpr h) this
    | some e' =>
      have hMatch : Matches w b e' := (closes_iff hw).mp (List.find?_some hFind)
      rw [hMatch.unique hw h]

/-- One more token closes a block or leaves every match as it was. -/
theorem matching_snoc (w : Word κ) (t : Token κ) (b : Nat) :
    matching (w ++ [t]) b =
      (matching w b).or (if closes (w ++ [t]) b w.length then some w.length else none) := by
  have hEarlier : (List.range w.length).find? (closes (w ++ [t]) b) = matching w b := by
    refine List.find?_congr fun e he => ?_
    have hLt := List.mem_range.mp he
    simp only [closes]
    rw [List.take_append_of_le_length (Nat.le_of_lt hLt), List.getElem?_append_left hLt]
  rw [matching, List.length_append, List.length_singleton, List.range_succ, List.find?_append,
    hEarlier]
  by_cases h : closes (w ++ [t]) b w.length = true
  · rw [List.find?_cons_of_pos h, if_pos h]
  · rw [List.find?_cons_of_neg h, List.find?_nil, if_neg h]

/-! ## Removing a balanced part -/

/-- Close the gap of `k` positions that begins at `m`. -/
def closeGap (m k n : Nat) : Nat := if n < m then n else n - k

theorem closeGap_of_lt {m k n : Nat} (h : n < m) : closeGap m k n = n := if_pos h

theorem closeGap_of_le {m k n : Nat} (h : m + k ≤ n) : closeGap m k n = n - k :=
  if_neg (by omega)

/-- Away from the gap no two positions are confused. -/
theorem closeGap_inj {m k n n' : Nat} (hn : n < m ∨ m + k ≤ n) (hn' : n' < m ∨ m + k ≤ n') :
    closeGap m k n = closeGap m k n' ↔ n = n' := by
  unfold closeGap
  split <;> split <;> omega

/-- The stack with the gap closed. -/
def closeStack (m k : Nat) (s : List (Nat × κ)) : List (Nat × κ) :=
  s.map fun p => (closeGap m k p.1, p.2)

theorem step_closeGap {m k n : Nat} (hn : m ≤ n) (s : List (Nat × κ)) (t : Token κ) :
    step n (closeStack m k s) t = (step (n + k) s t).map (closeStack m k) := by
  cases t with
  | opening q => simp [step, closeStack, closeGap_of_le (show m + k ≤ n + k by omega)]
  | closing q =>
    cases s with
    | nil => rfl
    | cons p s =>
      by_cases hq : q = p.2
      · simp [step, closeStack, hq]
      · simp [step, closeStack, hq]
  | plain => rfl

theorem scan_closeGap {m k n : Nat} (hn : m ≤ n) (s : List (Nat × κ)) (w : Word κ) :
    scan n (closeStack m k s) w = (scan (n + k) s w).map (closeStack m k) := by
  induction w generalizing n s with
  | nil => rfl
  | cons t w ih =>
    rw [scan, scan, step_closeGap hn]
    cases step (n + k) s t with
    | none => rfl
    | some s' =>
      show scan (n + 1) (closeStack m k s') w = _
      rw [ih (Nat.le_succ_of_le hn), show n + 1 + k = n + k + 1 by omega]
      rfl

theorem mem_of_scan {n : Nat} {s t : List (Nat × κ)} {w : Word κ} (h : scan n s w = some t)
    {p : Nat × κ} (hp : p ∈ t) : p ∈ s ∨ n ≤ p.1 := by
  induction w generalizing n s with
  | nil =>
    cases h
    exact Or.inl hp
  | cons c w ih =>
    obtain ⟨s', hStep, hRest⟩ := Option.bind_eq_some_iff.mp h
    -- the first token pushes its own index, or pops, or leaves the stack alone
    rcases ih hRest with hMem | hGe
    · cases c with
      | opening k =>
        cases hStep
        rcases List.mem_cons.mp hMem with rfl | hMem
        · exact Or.inr (Nat.le_refl n)
        · exact Or.inl hMem
      | closing k =>
        cases s with
        | nil => cases hStep
        | cons q s =>
          obtain ⟨b, k'⟩ := q
          simp only [step] at hStep
          split at hStep <;> cases hStep
          exact Or.inl (List.mem_cons_of_mem _ hMem)
      | plain =>
        cases hStep
        exact Or.inl hMem
    · exact Or.inr (by omega)

/-- A balanced part can be taken out: the blocks left open are the same, none of
them in the part. -/
theorem openStack_remove {u v x : Word κ} (hv : Balanced v) {s : List (Nat × κ)}
    (h : openStack (u ++ v ++ x) = some s) :
    openStack (u ++ x) = some (closeStack u.length v.length s) ∧
      ∀ p ∈ s, p.1 < u.length ∨ u.length + v.length ≤ p.1 := by
  rw [openStack_append, openStack_append] at h
  obtain ⟨s', hMid, hRest⟩ := Option.bind_eq_some_iff.mp h
  obtain ⟨su, hu, hScan⟩ := Option.bind_eq_some_iff.mp hMid
  rw [hv.scan, Option.some.injEq] at hScan
  subst hScan
  rw [List.length_append] at hRest
  have hBefore : ∀ p ∈ su, p.1 < u.length := fun p hp =>
    lt_of_mem_openStack hu (List.mem_map_of_mem hp)
  -- what is open from before the piece keeps its index
  have hSame : closeStack u.length v.length su = su := by
    refine (List.map_congr_left fun p hp => ?_).trans (List.map_id su)
    rw [closeGap_of_lt (hBefore p hp)]
    rfl
  constructor
  · rw [openStack_append, hu, Option.bind_some]
    have hShift := scan_closeGap (k := v.length) (Nat.le_refl u.length) su x
    rw [hSame, hRest] at hShift
    exact hShift
  · intro p hp
    rcases mem_of_scan hRest hp with hMem | hGe
    · exact Or.inl (hBefore p hMem)
    · exact Or.inr hGe

theorem Matches.openAt {w : Word κ} {s : List (Nat × κ)} (hw : openStack w = some s) {b e j : Nat}
    (h : Matches w b e) (hb : b < j) (he : j ≤ e) : OpenAt w b j := by
  obtain ⟨k, hOpening, -⟩ := h.tokens
  refine ⟨hb, ⟨k, hOpening⟩, fun e' hLt h' => ?_⟩
  have := h'.unique hw h
  omega

/-- What is open below is out of a scan's reach. -/
theorem scan_frame {n : Nat} {s t : List (Nat × κ)} {w : Word κ} (h : scan n s w = some t)
    (r : List (Nat × κ)) : scan n (s ++ r) w = some (t ++ r) := by
  induction w generalizing n s with
  | nil =>
    cases h
    rfl
  | cons a w ih =>
    obtain ⟨s', hStep, hRest⟩ := Option.bind_eq_some_iff.mp h
    -- a step looks at the top of the stack only
    have hFrame : step n (s ++ r) a = some (s' ++ r) := by
      cases a with
      | plain => cases hStep; rfl
      | opening k => cases hStep; rfl
      | closing k =>
        cases s with
        | nil => cases hStep
        | cons p s =>
          simp only [step, List.cons_append] at hStep ⊢
          split at hStep
          · rename_i hEq
            rw [if_pos hEq, Option.some.inj hStep]
          · cases hStep
    rw [scan, hFrame, Option.bind_some, ih hRest]

theorem scan_take {n : Nat} {s t : List (Nat × κ)} {w : Word κ} (h : scan n s w = some t)
    (j : Nat) : ∃ t', scan n s (w.take j) = some t' := by
  rw [← List.take_append_drop j w, scan_append] at h
  obtain ⟨t', ht', -⟩ := Option.bind_eq_some_iff.mp h
  exact ⟨t', ht'⟩

/-- An end within a balanced part ends no block begun before it. -/
theorem Balanced.not_matches {u v : Word κ} (hv : Balanced v) {s : List (Nat × κ)}
    (hs : openStack (u ++ v) = some s) {b j : Nat} (hb : b < u.length) :
    ¬ Matches (u ++ v) b (u.length + j) := by
  intro h
  have hTake : (u ++ v).take (u.length + j) = u ++ v.take j := List.take_length_add_append ..
  obtain ⟨s', hs'⟩ := openStack_take hs (u.length + j)
  obtain ⟨k, r, rfl, -, hClosing⟩ := h.head hs'
  rw [List.getElem?_append_right (Nat.le_add_right ..), Nat.add_sub_cancel_left] at hClosing
  obtain ⟨su, hsu, hScan⟩ := Option.bind_eq_some_iff.mp (openStack_append u _ ▸ hTake ▸ hs')
  -- what the part has open, it opened itself
  obtain ⟨t, ht⟩ := scan_take (hv.scan u.length []) j
  have hFrame := scan_frame ht su
  rw [List.nil_append, hScan, Option.some.injEq] at hFrame
  cases t with
  | cons p t =>
    obtain ⟨rfl, -⟩ := List.cons.inj hFrame
    rcases mem_of_scan ht (List.mem_cons_self ..) with hNil | hGe
    · cases hNil
    · exact absurd hb (Nat.not_lt.mpr hGe)
  | nil =>
    obtain ⟨t', ht'⟩ := scan_take (hv.scan u.length []) (j + 1)
    rw [List.take_add_one, hClosing, Option.toList_some, scan_append, ht] at ht'
    cases ht'

end Brackets
