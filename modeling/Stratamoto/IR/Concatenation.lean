import Stratamoto.IR.Thinning

/-!
# Stratamoto — one program behind another

The instructions `is` behind the instructions `l`, with their inputs moved up by
the variables of `l`, are a program of which `is` is kept when `l` is dropped,
and `l` when the rest is.

* `behind l is`, `before l is` — the two markings;
* `keptOf_behind`, `keptOf_before` — what they keep;
* `wellTyped_append` — one well typed program behind another is well typed.
-/

namespace Stratamoto

open Brackets Operation Marks

/-- The instruction with its inputs moved up. -/
def Instruction.shift (offset : Nat) (i : Instruction) : Instruction :=
  { i with inputs := i.inputs.map (· + offset) }

/-- The instructions, moved behind `l`. -/
def shiftAll (l is : List Instruction) : List Instruction :=
  is.map (Instruction.shift (definitions l).length)

/-- Drop `l`, keep what is behind it. -/
def behind (l is : List Instruction) : Marking := markAll false l ++ markAll true (shiftAll l is)

/-- Keep `l`, drop what is behind it. -/
def before (l is : List Instruction) : Marking := markAll true l ++ markAll false (shiftAll l is)

/-- Every input is a variable of an earlier instruction. -/
def Scoped (is : List Instruction) : Prop :=
  ∀ (n : Nat) (i : Instruction), is[n]? = some i →
    ∀ v ∈ i.inputs, v < (definitions (is.take n)).length

variable {ctx : ProgramContext} {l is : List Instruction}

@[simp] theorem shift_operation (offset : Nat) (i : Instruction) :
    (i.shift offset).operation = i.operation := rfl

@[simp] theorem length_shiftAll (l is : List Instruction) : (shiftAll l is).length = is.length :=
  List.length_map _

theorem brackets_shiftAll (l is : List Instruction) : brackets (shiftAll l is) = brackets is := by
  simp [brackets, shiftAll, Function.comp_def]

theorem total_shiftAll (weight : Operation → Nat) (l is : List Instruction) :
    total weight (shiftAll l is) = total weight is := by
  simp [total, shiftAll, Function.comp_def]

theorem WellTypedAfter.input_lt {i : Instruction} (h : WellTypedAfter ctx is i) {v : Nat}
    (hv : v ∈ i.inputs) : v < (definitions is).length := by
  obtain ⟨k, hk⟩ := List.mem_iff_getElem?.mp hv
  have hLt := (List.getElem?_eq_some_iff.mp hk).1
  rw [h.arity] at hLt
  exact (h.inputs k v _ hk (List.getElem?_eq_getElem hLt)).lt

theorem WellTypedPrefix.scoped (h : WellTypedPrefix ctx is) : Scoped is :=
  fun n i hi _ hv => (h n i hi).input_lt hv

theorem Scoped.snoc {i : Instruction} (h : Scoped (is ++ [i])) :
    Scoped is ∧ ∀ v ∈ i.inputs, v < (definitions is).length := by
  refine ⟨fun n j hj v hv => ?_, fun v hv => ?_⟩
  · have hLt := (List.getElem?_eq_some_iff.mp hj).1
    have := h n j (by rw [List.getElem?_append_left hLt, hj]) v hv
    rwa [List.take_append_of_le_length (Nat.le_of_lt hLt)] at this
  · simpa using h is.length i List.getElem?_concat_length v hv

theorem Scoped.take (h : Scoped is) (n : Nat) : Scoped (is.take n) := by
  intro m i hm v hv
  obtain ⟨-, hm, hBefore⟩ := getElem?_of_take hm
  rw [hBefore]
  exact h m i hm v hv

theorem map_eq_self {α : Type*} {f : α → α} {xs : List α} (h : ∀ a ∈ xs, f a = a) :
    xs.map f = xs := by
  conv_rhs => rw [← List.map_id xs]
  exact List.map_congr_left h

@[simp] theorem wholeOf_behind (l is : List Instruction) :
    wholeOf (behind l is) = l ++ shiftAll l is := by
  simp [behind]

@[simp] theorem wholeOf_before (l is : List Instruction) :
    wholeOf (before l is) = l ++ shiftAll l is := by
  simp [before]

theorem behind_snoc (l is : List Instruction) (i : Instruction) :
    behind l (is ++ [i]) = behind l is ++ [(i.shift (definitions l).length, true)] := by
  simp [behind, markAll, shiftAll]

/-- Behind `l` the variables of `is` are moved up, and dropping `l` moves them back. -/
theorem varAt_behind (l is : List Instruction) {v : Nat} (hv : v ≤ (definitions is).length) :
    varAt (behind l is) (v + (definitions l).length) = v := by
  have hDropped := length_units_wholeOf (markAll false l)
  rw [wholeOf_markAll] at hDropped
  rw [varAt, behind, ← hDropped, Nat.add_comm, renumber_append_right, keptCount_dropped, Nat.zero_add]
  refine renumber_markAll ?_
  rw [length_definitions] at hv
  simpa [shiftAll, Function.comp_def] using hv

theorem keptVar_behind (l is : List Instruction) {v : Nat} (hv : v < (definitions is).length) :
    KeptVar (behind l is) (v + (definitions l).length) := by
  have hDropped := length_units_wholeOf (markAll false l)
  rw [wholeOf_markAll] at hDropped
  rw [KeptVar, behind, ← hDropped, Nat.add_comm, kept_append_right]
  refine kept_markAll ?_
  rw [length_definitions] at hv
  simpa [shiftAll, Function.comp_def] using hv

/-- **What is behind `l`** is kept as it was. -/
theorem keptOf_behind (h : Scoped is) : keptOf (behind l is) = is := by
  induction is using List.reverseRecOn with
  | nil =>
    have hNil : behind l [] = [] ++ markAll false l := by simp [behind, shiftAll, markAll]
    rw [hNil, keptOf_dropped]
    rfl
  | append_singleton is i ih =>
    obtain ⟨hScoped, hInputs⟩ := h.snoc
    rw [behind_snoc, keptOf_snoc, ih hScoped]
    have hBack : (i.shift (definitions l).length).renumber (behind l is) = i := by
      have hMap : (i.inputs.map (· + (definitions l).length)).map (varAt (behind l is)) = i.inputs := by
        rw [List.map_map]
        exact map_eq_self fun v hv => varAt_behind l is (Nat.le_of_lt (hInputs v hv))
      show ({ i with inputs := _ } : Instruction) = i
      rw [show (i.shift (definitions l).length).inputs.map (varAt (behind l is)) = i.inputs from hMap]
    rw [hBack]

theorem varAt_markAll (is : List Instruction) {v : Nat} (hv : v ≤ (definitions is).length) :
    varAt (markAll true is) v = v := by
  rw [length_definitions] at hv
  exact renumber_markAll hv

theorem keptVar_markAll (is : List Instruction) {v : Nat} (hv : v < (definitions is).length) :
    KeptVar (markAll true is) v := by
  rw [length_definitions] at hv
  exact kept_markAll hv

theorem keptOf_markAll (h : Scoped is) : keptOf (markAll true is) = is := by
  induction is using List.reverseRecOn with
  | nil => rfl
  | append_singleton is i ih =>
    obtain ⟨hScoped, hInputs⟩ := h.snoc
    have hSnoc : markAll true (is ++ [i]) = markAll true is ++ [(i, true)] := by simp [markAll]
    rw [hSnoc, keptOf_snoc, ih hScoped]
    have hSame : i.inputs.map (varAt (markAll true is)) = i.inputs :=
      map_eq_self fun v hv => varAt_markAll is (Nat.le_of_lt (hInputs v hv))
    rw [Instruction.renumber, hSame]

/-- **What is before the rest** is kept as it was. -/
theorem keptOf_before (h : Scoped l) : keptOf (before l is) = l := by
  rw [before, keptOf_dropped, keptOf_markAll h]

/-! ## The markings respect blocks and inputs -/

theorem respects_markAll (ms : Marking) (h : Respects ms) (is : List Instruction) :
    Respects (ms ++ markAll true is) := by
  induction is using List.reverseRecOn with
  | nil => simpa [markAll] using h
  | append_singleton is i ih =>
    have hSnoc : ms ++ markAll true (is ++ [i]) = (ms ++ markAll true is) ++ [(i, true)] := by
      simp [markAll]
    rw [hSnoc]
    exact ih.keep i

theorem respects_behind (hl : Balanced (brackets l)) (is : List Instruction) :
    Respects (behind l is) :=
  respects_markAll _ (by simpa using Respects.nil.drop hl) _

theorem respects_before (l : List Instruction) (h : Balanced (brackets is)) :
    Respects (before l is) :=
  (by simpa using respects_markAll [] .nil l : Respects (markAll true l)).drop
    (by rwa [brackets_shiftAll])

theorem getElem?_markAll {b b' : Bool} {n : Nat} {i : Instruction} :
    (markAll b is)[n]? = some (i, b') ↔ is[n]? = some i ∧ b = b' := by
  simp [markAll]

section TwoParts

variable {front back : Bool}

theorem take_markAll_append (front back : Bool) (l is : List Instruction) (n : Nat) :
    (markAll front l ++ markAll back (shiftAll l is)).take (l.length + n) =
      markAll front l ++ markAll back (shiftAll l (is.take n)) := by
  have hLen : (markAll front l).length = l.length := List.length_map _
  rw [← hLen, List.take_length_add_append]
  simp only [markAll, shiftAll, List.map_take]

/-- The entries of two parts under a mark each. -/
theorem getElem?_markAll_append {n : Nat} {i : Instruction} {b : Bool}
    (h : (markAll front l ++ markAll back (shiftAll l is))[n]? = some (i, b)) :
    (b = front ∧ l[n]? = some i) ∨
      b = back ∧ ∃ m j, n = l.length + m ∧ is[m]? = some j ∧ i = j.shift (definitions l).length := by
  have hLen : (markAll front l).length = l.length := List.length_map _
  rcases Nat.lt_or_ge n l.length with hLt | hGe
  · rw [List.getElem?_append_left (by rw [hLen]; exact hLt), getElem?_markAll] at h
    exact Or.inl ⟨h.2.symm, h.1⟩
  · obtain ⟨m, rfl⟩ := Nat.exists_eq_add_of_le hGe
    rw [List.getElem?_append_right (by rw [hLen]; exact hGe), hLen, Nat.add_sub_cancel_left,
      getElem?_markAll] at h
    obtain ⟨j, hj, rfl⟩ := Option.map_eq_some_iff.mp (List.getElem?_map .. ▸ h.1)
    exact Or.inr ⟨h.2.symm, m, j, rfl, hj, rfl⟩

end TwoParts

theorem take_behind (l is : List Instruction) (n : Nat) :
    (behind l is).take (l.length + n) = behind l (is.take n) := take_markAll_append ..

/-- The entries of `behind`: those of `l` are dropped, those behind it kept. -/
theorem getElem?_behind {n : Nat} {i : Instruction} {b : Bool}
    (h : (behind l is)[n]? = some (i, b)) :
    (b = false ∧ l[n]? = some i) ∨
      b = true ∧ ∃ m j, n = l.length + m ∧ is[m]? = some j ∧ i = j.shift (definitions l).length :=
  getElem?_markAll_append h

theorem keepsInputs_behind (h : Scoped is) : KeepsInputs (behind l is) := by
  intro n i hn v hv
  rcases getElem?_behind hn with ⟨hFalse, -⟩ | ⟨-, m, j, rfl, hj, rfl⟩
  · cases hFalse
  · obtain ⟨u, hu, rfl⟩ := List.mem_map.mp hv
    rw [take_behind]
    exact keptVar_behind l _ (h m j hj u hu)

/-- **One well typed program behind another** is a well typed program. -/
theorem wellTyped_append (hl : WellTyped ctx l) (h : WellTyped ctx is) :
    WellTyped ctx (l ++ shiftAll l is) := by
  have hScoped := h.instructions.scoped
  rw [← wholeOf_behind]
  refine wellTyped_wholeOf (respects_behind hl.balanced is) (keepsInputs_behind hScoped)
    (by rwa [keptOf_behind hScoped]) fun n i hn => ?_
  rcases getElem?_behind hn with ⟨-, hAt⟩ | ⟨hTrue, -⟩
  · have hLt := (List.getElem?_eq_some_iff.mp hAt).1
    rw [wholeOf_behind, List.take_append_of_le_length (Nat.le_of_lt hLt)]
    exact hl.instructions n i hAt
  · cases hTrue

end Stratamoto
