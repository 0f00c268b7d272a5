import Mathlib.Algebra.GroupWithZero.Nat
import Mathlib.Algebra.Order.BigOperators.Group.List
import Mathlib.Data.List.Induction

/-!
# Marked lists

A list whose entries are marked as kept or dropped, where an entry stands for a
number of units (its weight). Dropping the marked entries renumbers the units
that are kept: each moves down by the dropped ones before it.

* `units w ms` — the mark of every unit;
* `Kept w ms v` — the unit `v` is kept;
* `keptCount w ms` — how many are;
* `renumber w ms v` — the number of the unit `v` among those kept.
-/

namespace Marks

variable {α : Type*}

/-- The mark of every unit, an entry `a` standing for `w a` of them. -/
def units (w : α → Nat) (ms : List (α × Bool)) : List Bool :=
  ms.flatMap fun p => List.replicate (w p.1) p.2

def Kept (w : α → Nat) (ms : List (α × Bool)) (v : Nat) : Prop :=
  (units w ms)[v]? = some true

instance (w : α → Nat) (ms : List (α × Bool)) (v : Nat) : Decidable (Kept w ms v) :=
  inferInstanceAs (Decidable (_ = _))

def keptCount (w : α → Nat) (ms : List (α × Bool)) : Nat := (units w ms).count true

/-- The number of the unit `v` once the dropped ones are gone. -/
def renumber (w : α → Nat) (ms : List (α × Bool)) (v : Nat) : Nat :=
  ((units w ms).take v).count true

/-- All entries under one mark. -/
def markAll (b : Bool) (l : List α) : List (α × Bool) := l.map (·, b)

variable {w : α → Nat} {ms : List (α × Bool)}

/-! ## Units -/

@[simp] theorem units_nil : units w [] = [] := rfl

@[simp] theorem units_append (ms l : List (α × Bool)) :
    units w (ms ++ l) = units w ms ++ units w l := List.flatMap_append

@[simp] theorem units_singleton (p : α × Bool) : units w [p] = List.replicate (w p.1) p.2 := by
  simp [units]

theorem length_units (w : α → Nat) (ms : List (α × Bool)) :
    (units w ms).length = (ms.map fun p => w p.1).sum := by
  simp [units, List.length_flatMap]

theorem units_markAll (w : α → Nat) (b : Bool) (l : List α) :
    units w (markAll b l) = List.replicate (l.map w).sum b := by
  induction l with
  | nil => rfl
  | cons a l ih =>
    have hHead : units w (markAll b (a :: l)) = List.replicate (w a) b ++ units w (markAll b l) := rfl
    rw [hHead, ih, List.map_cons, List.sum_cons, List.replicate_add]

/-- The units of entries of weight one are the entries. -/
theorem units_one (ms : List (α × Bool)) : units (fun _ => 1) ms = ms.map Prod.snd := by
  induction ms with
  | nil => rfl
  | cons p ms ih =>
    have hHead : units (fun _ => 1) (p :: ms) = p.2 :: units (fun _ => 1) ms := rfl
    rw [hHead, ih, List.map_cons]

theorem kept_one_iff {n : Nat} : Kept (fun _ => 1) ms n ↔ ∃ a, ms[n]? = some (a, true) := by
  rw [Kept, units_one, List.getElem?_map, Option.map_eq_some_iff]
  exact ⟨fun ⟨⟨a, b⟩, h, hb⟩ => ⟨a, by rw [h]; cases hb; rfl⟩, fun ⟨a, h⟩ => ⟨_, h, rfl⟩⟩

/-! ## Which units are kept -/

theorem Kept.lt {v : Nat} (h : Kept w ms v) : v < (units w ms).length :=
  (List.getElem?_eq_some_iff.mp h).1

theorem kept_append_left {v : Nat} (l : List (α × Bool)) (hv : v < (units w ms).length) :
    Kept w (ms ++ l) v ↔ Kept w ms v := by
  rw [Kept, Kept, units_append, List.getElem?_append_left hv]

theorem Kept.append {v : Nat} (h : Kept w ms v) (l : List (α × Bool)) : Kept w (ms ++ l) v :=
  (kept_append_left l h.lt).mpr h

theorem kept_append_right (v : Nat) (l : List (α × Bool)) :
    Kept w (ms ++ l) ((units w ms).length + v) ↔ Kept w l v := by
  rw [Kept, Kept, units_append, List.getElem?_append_right (Nat.le_add_right ..),
    Nat.add_sub_cancel_left]

theorem kept_singleton {a : α} {b : Bool} {v : Nat} (hv : v < w a) :
    Kept w [(a, b)] v ↔ b = true := by
  simp [Kept, hv]

theorem not_kept_dropped (l : List α) (v : Nat) : ¬ Kept w (markAll false l) v := by
  rw [Kept, units_markAll, List.getElem?_replicate]
  split <;> simp

theorem kept_markAll {l : List α} {v : Nat} (hv : v < (l.map w).sum) :
    Kept w (markAll true l) v := by
  rw [Kept, units_markAll, List.getElem?_replicate, if_pos hv]

/-! ## Renumbering -/

theorem renumber_append_left {v : Nat} (l : List (α × Bool)) (hv : v ≤ (units w ms).length) :
    renumber w (ms ++ l) v = renumber w ms v := by
  rw [renumber, renumber, units_append, List.take_append_of_le_length hv]

theorem renumber_append_right (v : Nat) (l : List (α × Bool)) :
    renumber w (ms ++ l) ((units w ms).length + v) = keptCount w ms + renumber w l v := by
  rw [renumber, renumber, keptCount, units_append, List.take_length_add_append, List.count_append]

/-- What follows the last unit is numbered by the count of those kept. -/
theorem renumber_length (w : α → Nat) (ms : List (α × Bool)) :
    renumber w ms (units w ms).length = keptCount w ms := by
  rw [renumber, keptCount, List.take_length]

@[simp] theorem renumber_zero (w : α → Nat) (ms : List (α × Bool)) : renumber w ms 0 = 0 := by
  simp [renumber]

theorem keptCount_append (ms l : List (α × Bool)) :
    keptCount w (ms ++ l) = keptCount w ms + keptCount w l := by
  rw [keptCount, units_append, List.count_append]
  rfl

theorem keptCount_singleton (a : α) (b : Bool) :
    keptCount w [(a, b)] = if b then w a else 0 := by
  cases b <;> simp [keptCount, List.count_replicate]

theorem keptCount_dropped (l : List α) : keptCount w (markAll false l) = 0 := by
  simp [keptCount, units_markAll, List.count_replicate]

theorem keptCount_markAll (l : List α) : keptCount w (markAll true l) = (l.map w).sum := by
  simp [keptCount, units_markAll]

theorem renumber_mono {v v' : Nat} (h : v ≤ v') : renumber w ms v ≤ renumber w ms v' :=
  (List.take_sublist_take_left h).count_le true

theorem renumber_succ {v : Nat} (h : Kept w ms v) : renumber w ms (v + 1) = renumber w ms v + 1 := by
  rw [renumber, renumber, List.take_add_one, h, List.count_append]
  rfl

theorem renumber_lt {v v' : Nat} (h : Kept w ms v) (hv : v < v') :
    renumber w ms v < renumber w ms v' := by
  have hSucc := renumber_succ h
  have hMono : renumber w ms (v + 1) ≤ renumber w ms v' := renumber_mono hv
  omega

/-- Kept units keep their order, so no two of them get one number. -/
theorem renumber_inj {v v' : Nat} (h : Kept w ms v) (h' : Kept w ms v') :
    renumber w ms v = renumber w ms v' ↔ v = v' := by
  refine ⟨fun hEq => ?_, fun hEq => by rw [hEq]⟩
  rcases Nat.lt_trichotomy v v' with hLt | hSame | hGt
  · have := renumber_lt h hLt
    omega
  · exact hSame
  · have := renumber_lt h' hGt
    omega

/-- Every number below the count is that of a kept unit. -/
theorem exists_kept {u : Nat} (hu : u < keptCount w ms) : ∃ v, Kept w ms v ∧ renumber w ms v = u := by
  unfold keptCount at hu
  unfold Kept renumber
  generalize units w ms = bs at hu ⊢
  induction bs using List.reverseRecOn with
  | nil => simp at hu
  -- the last unit is the one asked for, or it lies before
  | append_singleton bs b ih =>
    rcases Nat.lt_or_ge u (bs.count true) with hLt | hGe
    · obtain ⟨v, hv, hEq⟩ := ih hLt
      have hLen := (List.getElem?_eq_some_iff.mp hv).1
      refine ⟨v, by rwa [List.getElem?_append_left hLen], ?_⟩
      rwa [List.take_append_of_le_length (Nat.le_of_lt hLen)]
    · rw [List.count_append] at hu
      cases b with
      | false => simp at hu; omega
      | true =>
        refine ⟨bs.length, List.getElem?_concat_length, ?_⟩
        rw [List.take_left]
        simp at hu
        omega

theorem renumber_markAll {l : List α} {v : Nat} (hv : v ≤ (l.map w).sum) :
    renumber w (markAll true l) v = v := by
  rw [renumber, units_markAll, List.take_replicate, Nat.min_eq_left hv, List.count_replicate]
  rfl

/-- Where nothing that is dropped has a unit, all units are kept. -/
theorem units_eq_replicate (h : ∀ p ∈ ms, p.2 = false → w p.1 = 0) :
    units w ms = List.replicate (units w ms).length true := by
  induction ms using List.reverseRecOn with
  | nil => rfl
  | append_singleton ms p ih =>
    have hOld := ih fun q hq => h q (List.mem_append_left _ hq)
    have hLast : List.replicate (w p.1) p.2 = List.replicate (w p.1) true := by
      obtain ⟨a, b⟩ := p
      cases b with
      | true => rfl
      | false => rw [h (a, false) (by simp) rfl]; rfl
    rw [units_append, units_singleton, List.length_append, List.replicate_add, ← hOld, hLast,
      List.length_replicate]

theorem renumber_eq_self (h : ∀ p ∈ ms, p.2 = false → w p.1 = 0) {v : Nat}
    (hv : v ≤ (units w ms).length) : renumber w ms v = v := by
  rw [renumber, units_eq_replicate h, List.take_replicate, Nat.min_eq_left hv,
    List.count_replicate_self]

/-! ## The units of one entry -/

theorem split_at {n : Nat} {p : α × Bool} (hn : ms[n]? = some p) :
    ms = ms.take n ++ ([p] ++ ms.drop (n + 1)) := by
  obtain ⟨hLt, hEq⟩ := List.getElem?_eq_some_iff.mp hn
  rw [List.singleton_append, ← hEq, ← List.drop_eq_getElem_cons hLt, List.take_append_drop]

/-- The units of an entry begin where those before it end. -/
theorem renumber_take (w : α → Nat) (ms : List (α × Bool)) (n : Nat) :
    renumber w ms (units w (ms.take n)).length = keptCount w (ms.take n) := by
  have hLeft : renumber w (ms.take n ++ ms.drop n) (units w (ms.take n)).length =
      renumber w (ms.take n) (units w (ms.take n)).length :=
    renumber_append_left _ (Nat.le_refl _)
  rw [List.take_append_drop] at hLeft
  rw [hLeft, renumber_length]

/-- The units of an entry are kept with it. -/
theorem kept_take_iff {n k : Nat} {a : α} {b : Bool} (hn : ms[n]? = some (a, b)) (hk : k < w a) :
    Kept w ms ((units w (ms.take n)).length + k) ↔ b = true := by
  have hRight : Kept w (ms.take n ++ ([(a, b)] ++ ms.drop (n + 1)))
      ((units w (ms.take n)).length + k) ↔ Kept w ([(a, b)] ++ ms.drop (n + 1)) k :=
    kept_append_right k _
  rw [← split_at hn] at hRight
  rw [hRight, kept_append_left _ (by simpa using hk), kept_singleton hk]

theorem renumber_take_add {n k : Nat} {a : α} (hn : ms[n]? = some (a, true)) (hk : k ≤ w a) :
    renumber w ms ((units w (ms.take n)).length + k) = keptCount w (ms.take n) + k := by
  have hRight : renumber w (ms.take n ++ ([(a, true)] ++ ms.drop (n + 1)))
      ((units w (ms.take n)).length + k) =
        keptCount w (ms.take n) + renumber w ([(a, true)] ++ ms.drop (n + 1)) k :=
    renumber_append_right k _
  rw [← split_at hn] at hRight
  rw [hRight, renumber_append_left _ (by simpa using hk)]
  congr 1
  simp [renumber, List.take_replicate, Nat.min_eq_left hk]

/-! ## Selecting what is kept -/

variable {β : Type*}

/-- The entries of a list at the units that are kept. -/
def select (bs : List Bool) (l : List β) : List β := ((l.zip bs).filter Prod.snd).map Prod.fst

theorem select_append {bs bs' : List Bool} {l l' : List β} (h : l.length = bs.length) :
    select (bs ++ bs') (l ++ l') = select bs l ++ select bs' l' := by
  rw [select, List.zip_append h, List.filter_append, List.map_append]
  rfl

theorem select_replicate (b : Bool) (l : List β) :
    select (List.replicate l.length b) l = if b then l else [] := by
  induction l with
  | nil => cases b <;> rfl
  | cons x l ih =>
    have hCons : select ([b] ++ List.replicate l.length b) ([x] ++ l) =
        select [b] [x] ++ select (List.replicate l.length b) l := select_append rfl
    show select ([b] ++ List.replicate l.length b) ([x] ++ l) = _
    rw [hCons, ih]
    cases b <;> rfl

/-- What is laid out by the weights has the length of the units. -/
theorem length_flatMap_zipIdx {f : (α × Bool) × Nat → List β}
    (hf : ∀ p ∈ ms.zipIdx, (f p).length = w p.1.1) :
    (ms.zipIdx.flatMap f).length = (units w ms).length := by
  induction ms using List.reverseRecOn with
  | nil => rfl
  | append_singleton ms p ih =>
    rw [List.zipIdx_append] at hf ⊢
    have hOld := ih fun q hq => hf q (List.mem_append_left _ hq)
    have hNew := hf (p, ms.length) (by simp)
    rw [List.flatMap_append, List.length_append, hOld, units_append, List.length_append,
      units_singleton, List.length_replicate, ← hNew]
    simp

/-- Where entries are laid out by their weights, those of the kept ones are selected. -/
theorem select_flatMap {f : (α × Bool) × Nat → List β}
    (hf : ∀ p ∈ ms.zipIdx, (f p).length = w p.1.1) :
    select (units w ms) (ms.zipIdx.flatMap f) =
      ms.zipIdx.flatMap fun p => if p.1.2 then f p else [] := by
  induction ms using List.reverseRecOn with
  | nil => rfl
  | append_singleton ms p ih =>
    rw [List.zipIdx_append] at hf ⊢
    have hOld : ∀ q ∈ ms.zipIdx, (f q).length = w q.1.1 := fun q hq =>
      hf q (List.mem_append_left _ hq)
    have hEntry : select (List.replicate (w p.1) p.2) (f (p, ms.length)) =
        if p.2 then f (p, ms.length) else [] := by
      rw [← hf (p, ms.length) (by simp), select_replicate]
    rw [List.flatMap_append, units_append, units_singleton,
      select_append (length_flatMap_zipIdx hOld), ih hOld, List.flatMap_append]
    simpa using hEntry

/-! ## A front and a back -/

section Split

variable {l l' : List α} {v : Nat}

theorem length_units_markAll (w : α → Nat) (b : Bool) (l : List α) :
    (units w (markAll b l)).length = (l.map w).sum := by
  rw [units_markAll, List.length_replicate]

/-- Where the back is dropped, the units of the front keep their numbers. -/
theorem Kept.front (h : Kept w (markAll true l ++ markAll false l') v) :
    v < (l.map w).sum ∧ renumber w (markAll true l ++ markAll false l') v = v := by
  have hLt : v < (l.map w).sum := by
    by_contra hGe
    obtain ⟨u, rfl⟩ := Nat.exists_eq_add_of_le (Nat.le_of_not_lt hGe)
    rw [← length_units_markAll w true l, kept_append_right] at h
    exact not_kept_dropped l' u h
  refine ⟨hLt, ?_⟩
  rw [renumber_append_left _ (by rw [length_units_markAll]; exact Nat.le_of_lt hLt),
    renumber_markAll (Nat.le_of_lt hLt)]

/-- Where the front is dropped, the units of the back move down by its units. -/
theorem Kept.back (h : Kept w (markAll false l ++ markAll true l') v) :
    ∃ u, v = (l.map w).sum + u ∧ u < (l'.map w).sum ∧
      renumber w (markAll false l ++ markAll true l') v = u := by
  have hGe : (l.map w).sum ≤ v := by
    by_contra hLt
    rw [kept_append_left _ (by rw [length_units_markAll]; exact Nat.lt_of_not_le hLt)] at h
    exact not_kept_dropped l v h
  obtain ⟨u, rfl⟩ := Nat.exists_eq_add_of_le hGe
  have hLength := length_units_markAll w false l
  rw [← hLength] at h ⊢
  rw [kept_append_right] at h
  have hu : u < (l'.map w).sum := by
    rw [← length_units_markAll w true l']
    exact h.lt
  refine ⟨u, rfl, hu, ?_⟩
  rw [renumber_append_right, keptCount_dropped, renumber_markAll (Nat.le_of_lt hu), Nat.zero_add]

theorem kept_front_or_back (hv : v < (l.map w).sum + (l'.map w).sum) :
    Kept w (markAll true l ++ markAll false l') v ∨
      Kept w (markAll false l ++ markAll true l') v := by
  rcases Nat.lt_or_ge v (l.map w).sum with hLt | hGe
  · exact Or.inl ((kept_append_left _ (by rwa [length_units_markAll])).mpr (kept_markAll hLt))
  · obtain ⟨u, rfl⟩ := Nat.exists_eq_add_of_le hGe
    right
    rw [← length_units_markAll w false l, kept_append_right]
    exact kept_markAll (by omega)

variable {xs : List β}

/-- Each of two parts is kept or dropped as a whole. -/
theorem select_markAll_append (front back : Bool)
    (hxs : xs.length = (l.map w).sum + (l'.map w).sum) :
    select (units w (markAll front l ++ markAll back l')) xs =
      (if front then xs.take (l.map w).sum else []) ++
        if back then xs.drop (l.map w).sum else [] := by
  have hTake : (xs.take (l.map w).sum).length = (l.map w).sum := by
    rw [List.length_take]
    omega
  have hDrop : (xs.drop (l.map w).sum).length = (l'.map w).sum := by
    rw [List.length_drop]
    omega
  -- each part is marked alike, so it is selected whole or not at all
  have hFront := select_replicate front (xs.take (l.map w).sum)
  have hBack := select_replicate back (xs.drop (l.map w).sum)
  rw [hTake] at hFront
  rw [hDrop] at hBack
  conv_lhs => rw [← List.take_append_drop (l.map w).sum xs]
  rw [units_append, units_markAll, units_markAll,
    select_append (by rw [hTake, List.length_replicate]), hFront, hBack]

theorem select_front (hxs : xs.length = (l.map w).sum + (l'.map w).sum) :
    select (units w (markAll true l ++ markAll false l')) xs = xs.take (l.map w).sum :=
  (select_markAll_append true false hxs).trans (List.append_nil _)

theorem select_back (hxs : xs.length = (l.map w).sum + (l'.map w).sum) :
    select (units w (markAll false l ++ markAll true l')) xs = xs.drop (l.map w).sum :=
  select_markAll_append false true hxs

end Split

/-! ## A part in the middle -/

/-- A number from the point on moves up. -/
def moveUp (point amount k : Nat) : Nat := if point ≤ k then k + amount else k

theorem moveUp_of_lt {point amount k : Nat} (h : k < point) : moveUp point amount k = k :=
  if_neg (Nat.not_le_of_lt h)

theorem moveUp_of_le {point amount k : Nat} (h : point ≤ k) : moveUp point amount k = k + amount :=
  if_pos h

theorem moveUp_add (base point amount k : Nat) :
    moveUp (base + point) amount (base + k) = base + moveUp point amount k := by
  unfold moveUp
  split <;> split <;> omega

theorem moveUp_lt_moveUp {point amount k k' : Nat} (h : k < k') :
    moveUp point amount k < moveUp point amount k' := by
  unfold moveUp
  split <;> split <;> omega

/-- What is left of a list without a part of it, by the positions that move up. -/
theorem getElem?_moveUp {xs : List β} {point : Nat} (h : point ≤ xs.length) (amount k : Nat) :
    (xs.take point ++ xs.drop (point + amount))[k]? = xs[moveUp point amount k]? := by
  have hTake : (xs.take point).length = point := by
    rw [List.length_take]
    omega
  rcases Nat.lt_or_ge k point with hLt | hGe
  · rw [moveUp_of_lt hLt, List.getElem?_append_left (by rwa [hTake]), List.getElem?_take_of_lt hLt]
  · rw [moveUp_of_le hGe, List.getElem?_append_right (by rwa [hTake]), hTake, List.getElem?_drop]
    congr 1
    omega

section Middle

variable {l m r : List α}

/-- The front and the rest are kept, and what is between them is dropped. -/
def around (l m r : List α) : List (α × Bool) :=
  markAll true l ++ markAll false m ++ markAll true r

theorem length_units_front (w : α → Nat) (l m : List α) :
    (units w (markAll true l ++ markAll false m)).length = (l.map w).sum + (m.map w).sum := by
  rw [units_append, List.length_append, length_units_markAll, length_units_markAll]

/-- The units behind the middle have moved up by its units. -/
theorem renumber_around {u : Nat} (hu : u ≤ (l.map w).sum + (r.map w).sum) :
    renumber w (around l m r) (moveUp (l.map w).sum (m.map w).sum u) = u := by
  rcases Nat.lt_or_ge u (l.map w).sum with hLt | hGe
  · have hFront := length_units_markAll w true l
    rw [moveUp_of_lt hLt, around, renumber_append_left _ (by rw [length_units_front]; omega),
      renumber_append_left _ (by omega), renumber_markAll (Nat.le_of_lt hLt)]
  · obtain ⟨k, rfl⟩ := Nat.exists_eq_add_of_le hGe
    rw [moveUp_of_le hGe, Nat.add_right_comm, ← length_units_front, around, renumber_append_right,
      keptCount_append, keptCount_markAll, keptCount_dropped, renumber_markAll (by omega)]
    rfl

theorem kept_around_iff {v : Nat} :
    Kept w (around l m r) v ↔
      ∃ u < (l.map w).sum + (r.map w).sum, v = moveUp (l.map w).sum (m.map w).sum u := by
  have hFront := length_units_markAll w true l
  have hBoth := length_units_front w l m
  rcases Nat.lt_or_ge v (l.map w).sum with hLt | hGe
  · -- a unit of the front
    have hKept : Kept w (around l m r) v := by
      rw [around, kept_append_left _ (by omega), kept_append_left _ (by omega)]
      exact kept_markAll hLt
    exact ⟨fun _ => ⟨v, by omega, (moveUp_of_lt hLt).symm⟩, fun _ => hKept⟩
  rcases Nat.lt_or_ge v ((l.map w).sum + (m.map w).sum) with hMiddle | hRest
  · obtain ⟨k, rfl⟩ := Nat.exists_eq_add_of_le hGe
    have hNot : ¬ Kept w (around l m r) ((l.map w).sum + k) := by
      rw [around, kept_append_left _ (by omega), ← hFront, kept_append_right]
      exact not_kept_dropped m k
    refine ⟨fun h => absurd h hNot, fun ⟨u, _, hu⟩ => ?_⟩
    unfold moveUp at hu
    split at hu <;> omega
  · -- a unit of the rest
    obtain ⟨k, rfl⟩ := Nat.exists_eq_add_of_le hRest
    have hKept : Kept w (around l m r) ((l.map w).sum + (m.map w).sum + k) ↔ k < (r.map w).sum := by
      rw [around, ← hBoth, kept_append_right]
      exact ⟨fun h => by simpa [length_units_markAll] using h.lt, kept_markAll⟩
    rw [hKept]
    refine ⟨fun hk => ⟨(l.map w).sum + k, by omega, ?_⟩, fun ⟨u, hu, hEq⟩ => ?_⟩
    · rw [moveUp_of_le (Nat.le_add_right ..)]
      omega
    · unfold moveUp at hEq
      split at hEq <;> omega

theorem select_around {xs : List β}
    (hxs : xs.length = (l.map w).sum + (m.map w).sum + (r.map w).sum) :
    select (units w (around l m r)) xs =
      xs.take (l.map w).sum ++ xs.drop ((l.map w).sum + (m.map w).sum) := by
  have hFront : (xs.take (l.map w).sum).length = (l.map w).sum := by
    rw [List.length_take]
    omega
  have hMiddle : ((xs.drop (l.map w).sum).take (m.map w).sum).length = (m.map w).sum := by
    rw [List.length_take, List.length_drop]
    omega
  have hRest : (xs.drop ((l.map w).sum + (m.map w).sum)).length = (r.map w).sum := by
    rw [List.length_drop]
    omega
  -- the list falls into the parts of the marking, and only the middle one is skipped
  have hSplit : xs = xs.take (l.map w).sum ++ (xs.drop (l.map w).sum).take (m.map w).sum ++
      xs.drop ((l.map w).sum + (m.map w).sum) := by
    rw [List.append_assoc, ← List.drop_drop, List.take_append_drop, List.take_append_drop]
  have hKeep := select_replicate true (xs.take (l.map w).sum)
  have hSkip := select_replicate false ((xs.drop (l.map w).sum).take (m.map w).sum)
  have hKeepRest := select_replicate true (xs.drop ((l.map w).sum + (m.map w).sum))
  rw [hFront] at hKeep
  rw [hMiddle] at hSkip
  rw [hRest] at hKeepRest
  conv_lhs => rw [hSplit]
  rw [around, units_append, units_append, units_markAll, units_markAll, units_markAll,
    select_append (by simp only [List.length_append, List.length_replicate, hFront, hMiddle]),
    select_append (by rw [hFront, List.length_replicate]), hKeep, hSkip, hKeepRest]
  simp

/-- Where an entry stands, it is kept or dropped. -/
theorem getElem?_around {n : Nat} {a : α} {b : Bool} (h : (around l m r)[n]? = some (a, b)) :
    (b = true ∧ l[n]? = some a) ∨
      (b = false ∧ ∃ k, n = l.length + k ∧ m[k]? = some a) ∨
      b = true ∧ ∃ k, n = l.length + m.length + k ∧ r[k]? = some a := by
  have hMarked : ∀ {b' : Bool} {xs : List α} {k : Nat}, (markAll b' xs)[k]? = some (a, b) →
      xs[k]? = some a ∧ b' = b := fun hk => by simpa [markAll] using hk
  have hl : (markAll true l).length = l.length := List.length_map _
  have hlm : (markAll true l ++ markAll false m).length = l.length + m.length := by
    simp [markAll]
  rw [around] at h
  -- in which of the three parts the position lies
  rcases Nat.lt_or_ge n (l.length + m.length) with hLt | hGe
  · rw [List.getElem?_append_left (by rwa [hlm])] at h
    rcases Nat.lt_or_ge n l.length with hFront | hMiddle
    · rw [List.getElem?_append_left (by rwa [hl])] at h
      exact Or.inl ⟨(hMarked h).2.symm, (hMarked h).1⟩
    · obtain ⟨k, rfl⟩ := Nat.exists_eq_add_of_le hMiddle
      rw [List.getElem?_append_right (by rwa [hl]), hl, Nat.add_sub_cancel_left] at h
      exact Or.inr (Or.inl ⟨(hMarked h).2.symm, k, rfl, (hMarked h).1⟩)
  · obtain ⟨k, rfl⟩ := Nat.exists_eq_add_of_le hGe
    rw [List.getElem?_append_right (by rwa [hlm]), hlm, Nat.add_sub_cancel_left] at h
    exact Or.inr (Or.inr ⟨(hMarked h).2.symm, k, rfl, (hMarked h).1⟩)

theorem take_around_front {n : Nat} (h : n ≤ l.length) :
    (around l m r).take n = markAll true (l.take n) := by
  rw [around, List.append_assoc, List.take_append_of_le_length (by simpa [markAll] using h), markAll,
    markAll, List.map_take]

theorem take_around_middle {k : Nat} (h : k ≤ m.length) :
    (around l m r).take (l.length + k) = markAll true l ++ markAll false (m.take k) := by
  have hl : (markAll true l).length = l.length := List.length_map _
  rw [around, List.append_assoc, ← hl, List.take_length_add_append,
    List.take_append_of_le_length (by simpa [markAll] using h), markAll, markAll, markAll,
    List.map_take]

theorem take_around_rest (k : Nat) :
    (around l m r).take (l.length + m.length + k) = around l m (r.take k) := by
  have hlm : (markAll true l ++ markAll false m).length = l.length + m.length := by
    simp [markAll]
  rw [around, ← hlm, List.take_length_add_append, around, markAll, markAll, markAll, markAll,
    List.map_take]

end Middle

end Marks
