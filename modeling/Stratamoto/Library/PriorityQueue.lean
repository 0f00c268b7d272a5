import Mathlib.Data.Multiset.AddSub
import Mathlib.Order.Lattice

/-!
# Priority queues

A queue that hands out an item of the least key first. Which of several it hands
out is left open, and so is how it is represented: `Queue` has the operations
and what they do to the items that are in it.

`drain` takes out the items up to a bound, one after another:

* `Drained` — what it takes out and what it leaves;
* `drain_drained` — with as many turns as there are items, that is what it does;
* `scanning` — a queue that scans a list;
* `Heap.queue`, `Queue.heap` — a heap that hands out a greatest item, for an order
  that runs against the keys.
-/

namespace PriorityQueue

variable {α β : Type} [LinearOrder β] {key : α → β}

structure Queue (key : α → β) where
  Carrier : Type
  empty : Carrier
  push : Carrier → α → Carrier
  pop : Carrier → Option (α × Carrier)
  items : Carrier → Multiset α
  items_empty : items empty = 0
  items_push : ∀ q a, items (push q a) = a ::ₘ items q
  pop_none : ∀ q, pop q = none → items q = 0
  pop_some : ∀ q a q', pop q = some (a, q') →
    items q = a ::ₘ items q' ∧ ∀ b ∈ items q', key a ≤ key b

namespace Queue

variable {Q : Queue key} {q q' : Q.Carrier} {a : α} {bound : β}

/-- The item that is handed out next. -/
def peek (Q : Queue key) (q : Q.Carrier) : Option α := (Q.pop q).map Prod.fst

theorem le_of_pop (h : Q.pop q = some (a, q')) {b : α} (hb : b ∈ Q.items q) : key a ≤ key b := by
  obtain ⟨hItems, hLe⟩ := Q.pop_some q a q' h
  rw [hItems, Multiset.mem_cons] at hb
  rcases hb with rfl | hb
  · exact le_rfl
  · exact hLe b hb

theorem card_of_pop (h : Q.pop q = some (a, q')) :
    (Q.items q).card = (Q.items q').card + 1 := by
  rw [(Q.pop_some q a q' h).1, Multiset.card_cons]

/-- Take out items until one is past the bound. -/
def drain (Q : Queue key) (bound : β) : Nat → Q.Carrier → List α × Q.Carrier
  | 0, q => ([], q)
  | n + 1, q =>
    match Q.pop q with
    | none => ([], q)
    | some (a, q') =>
      if bound < key a then ([], q)
      else
        let (drained, q'') := drain Q bound n q'
        (a :: drained, q'')

/-- What is up to the bound is taken out, in the order of the keys, and the rest
is left. -/
structure Drained (Q : Queue key) (bound : β) (q : Q.Carrier) (drained : List α)
    (q' : Q.Carrier) : Prop where
  items : Q.items q = (drained : Multiset α) + Q.items q'
  le : ∀ a ∈ drained, key a ≤ bound
  lt : ∀ a ∈ Q.items q', bound < key a
  sorted : drained.Pairwise fun a b => key a ≤ key b

theorem drain_drained (Q : Queue key) (bound : β) {n : Nat} {q : Q.Carrier}
    (h : (Q.items q).card ≤ n) :
    Drained Q bound q (Q.drain bound n q).1 (Q.drain bound n q).2 := by
  induction n generalizing q with
  | zero =>
    have hEmpty : Q.items q = 0 := Multiset.card_eq_zero.mp (Nat.le_zero.mp h)
    refine ⟨?_, fun a ha => ?_, fun a ha => ?_, List.Pairwise.nil⟩
    · exact (Multiset.zero_add _).symm
    · cases ha
    · rw [show (Q.drain bound 0 q).2 = q from rfl, hEmpty] at ha
      exact absurd ha (Multiset.notMem_zero a)
  | succ n ih =>
    unfold drain
    cases hPop : Q.pop q with
    | none =>
      refine ⟨(Multiset.zero_add _).symm, fun a ha => ?_, fun a ha => ?_, List.Pairwise.nil⟩
      · cases ha
      · rw [show Q.items q = 0 from Q.pop_none q hPop] at ha
        exact absurd ha (Multiset.notMem_zero a)
    | some p =>
      obtain ⟨a, q'⟩ := p
      -- the first event past the bound ends it, and all that are left are later still
      by_cases hPast : bound < key a
      · simp only [if_pos hPast]
        refine ⟨(Multiset.zero_add _).symm, fun b hb => ?_, fun b hb => ?_, List.Pairwise.nil⟩
        · cases hb
        · exact lt_of_lt_of_le hPast (le_of_pop hPop hb)
      · simp only [if_neg hPast]
        obtain ⟨hItems, hLe⟩ := Q.pop_some q a q' hPop
        have hRest := ih (q := q') (by rw [card_of_pop hPop] at h; omega)
        refine ⟨?_, fun b hb => ?_, hRest.lt, ?_⟩
        · rw [hItems, hRest.items, ← Multiset.cons_coe, Multiset.cons_add]
        · rcases List.mem_cons.mp hb with rfl | hb
          · exact not_lt.mp hPast
          · exact hRest.le b hb
        · refine List.Pairwise.cons (fun b hb => hLe b ?_) hRest.sorted
          rw [hRest.items]
          exact Multiset.mem_add.mpr (Or.inl (Multiset.mem_coe.mpr hb))

/-! ## A queue that scans a list -/

/-- The first of the least items, and the others. -/
def scan (key : α → β) : List α → Option (α × List α)
  | [] => none
  | a :: as =>
    match scan key as with
    | none => some (a, as)
    | some (b, rest) => if key a ≤ key b then some (a, as) else some (b, a :: rest)

theorem scan_none {as : List α} (h : scan key as = none) : as = [] := by
  cases as with
  | nil => rfl
  | cons a as =>
    unfold scan at h
    split at h
    · cases h
    · split at h <;> cases h

theorem scan_some {as rest : List α} {a : α} (h : scan key as = some (a, rest)) :
    (as : Multiset α) = a ::ₘ (rest : Multiset α) ∧ ∀ b ∈ rest, key a ≤ key b := by
  induction as generalizing a rest with
  | nil => cases h
  | cons c as ih =>
    unfold scan at h
    split at h
    · rename_i hNone
      obtain rfl := scan_none hNone
      cases h
      exact ⟨rfl, fun b hb => by cases hb⟩
    · rename_i d others hSome
      obtain ⟨hItems, hLe⟩ := ih hSome
      -- on a tie the one that is met first stays
      by_cases hFirst : key c ≤ key d
      · rw [if_pos hFirst] at h
        cases h
        refine ⟨rfl, fun b hb => ?_⟩
        have hMem : b ∈ d ::ₘ (others : Multiset α) := hItems ▸ Multiset.mem_coe.mpr hb
        rcases Multiset.mem_cons.mp hMem with rfl | hMem
        · exact hFirst
        · exact hFirst.trans (hLe b (Multiset.mem_coe.mp hMem))
      · rw [if_neg hFirst] at h
        cases h
        refine ⟨?_, fun b hb => ?_⟩
        · rw [← Multiset.cons_coe, hItems, ← Multiset.cons_coe, Multiset.cons_swap]
        · rcases List.mem_cons.mp hb with rfl | hb
          · exact le_of_not_ge hFirst
          · exact hLe b hb

def scanning (key : α → β) : Queue key where
  Carrier := List α
  empty := []
  push q a := q ++ [a]
  pop := scan key
  items q := (q : Multiset α)
  items_empty := rfl
  items_push q a := by
    rw [← Multiset.coe_add, Multiset.coe_singleton, Multiset.add_comm, Multiset.singleton_add]
  pop_none q h := by rw [scan_none h]; rfl
  pop_some _ _ _ h := scan_some h

end Queue

/-! ## Heaps -/

/-- A heap: `pop` hands out an item that is greatest by `cmp`, which need not tell
all items apart. -/
structure Heap (cmp : α → α → Ordering) where
  Carrier : Type
  empty : Carrier
  push : Carrier → α → Carrier
  pop : Carrier → Option (α × Carrier)
  items : Carrier → Multiset α
  items_empty : items empty = 0
  items_push : ∀ q a, items (push q a) = a ::ₘ items q
  pop_none : ∀ q, pop q = none → items q = 0
  pop_some : ∀ q a q', pop q = some (a, q') →
    items q = a ::ₘ items q' ∧ ∀ b ∈ items q', (cmp b a).isLE = true

variable {cmp : α → α → Ordering}

/-- With an order against the keys, a heap hands out an item of the least key. -/
def Heap.queue (H : Heap cmp) (hCmp : ∀ b a, (cmp b a).isLE = true → key a ≤ key b) :
    Queue key where
  Carrier := H.Carrier
  empty := H.empty
  push := H.push
  pop := H.pop
  items := H.items
  items_empty := H.items_empty
  items_push := H.items_push
  pop_none := H.pop_none
  pop_some q a q' h :=
    ⟨(H.pop_some q a q' h).1, fun b hb => hCmp b a ((H.pop_some q a q' h).2 b hb)⟩

def Queue.heap (Q : Queue key) (hCmp : ∀ b a, key a ≤ key b → (cmp b a).isLE = true) :
    Heap cmp where
  Carrier := Q.Carrier
  empty := Q.empty
  push := Q.push
  pop := Q.pop
  items := Q.items
  items_empty := Q.items_empty
  items_push := Q.items_push
  pop_none := Q.pop_none
  pop_some q a q' h :=
    ⟨(Q.pop_some q a q' h).1, fun b hb => hCmp b a ((Q.pop_some q a q' h).2 b hb)⟩

end PriorityQueue
