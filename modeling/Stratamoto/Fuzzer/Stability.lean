import Mathlib.Data.Finset.Card
import Stratamoto.Fuzzer.Stages

/-!
# Stratamoto — the stability check

`stages/stability_check.rs`: a new corpus entry is run again and again, and where
the coverage map of a rerun differs from that of the first run, the history of
the coverage feedback is flagged, with the greatest value there is. The feedback
counts its entries that are not zero, and the stage keeps that count. What a run
of the target comes to is decided outside: how it ends, if it does, and the map.

* `flagFrom_spec` — what the comparison of two maps does to the history;
* `Rerun` — what holds after every turn of the loop of `perform`;
* `perform_checks` — the count is kept, and only entries that differed are flagged;
* `asserts_iff` — when the assertion of `perform` fires.
-/

namespace Stratamoto

/-! ## Coverage maps -/

/-- An entry of a coverage map, `Default` and `Bounded`. -/
class MapEntry (ε : Type) where
  zero : ε
  maxValue : ε
  maxValue_ne_zero : maxValue ≠ zero

instance : MapEntry UInt8 where
  zero := 0
  maxValue := 0xff
  maxValue_ne_zero := by decide

open MapEntry

/-- The metadata of the coverage feedback: what it has seen at each index. -/
structure MapFeedbackMetadata (ε : Type) where
  historyMap : List ε
  numCoveredMapIndexes : Nat
  deriving DecidableEq

/-- The metadata of unstable entries, as the monitor shows it. -/
structure UnstableEntriesMetadata where
  unstableEntries : Finset Nat
  filledEntriesCount : Nat
  deriving DecidableEq

def UnstableEntriesMetadata.new : UnstableEntriesMetadata := ⟨∅, 0⟩

variable {ε : Type} [DecidableEq ε] [MapEntry ε]

namespace MapFeedbackMetadata

/-- The history at an index; beyond its end there is nothing. -/
def entry (m : MapFeedbackMetadata ε) (k : Nat) : ε := m.historyMap.getD k zero

/-- The count is that of the entries that are not zero. -/
def InSync (m : MapFeedbackMetadata ε) : Prop :=
  m.numCoveredMapIndexes = m.historyMap.countP fun e => e ≠ zero

instance (m : MapFeedbackMetadata ε) : Decidable m.InSync := inferInstanceAs (Decidable (_ = _))

/-- `resize`, if the history is shorter. -/
def extend (m : MapFeedbackMetadata ε) (len : Nat) : MapFeedbackMetadata ε :=
  { m with historyMap := m.historyMap ++ List.replicate (len - m.historyMap.length) zero }

end MapFeedbackMetadata

/-- The loop over the two maps and the history: the history it leaves, how many of
the flagged entries were not covered before, and the indices of those flagged. -/
def flagFrom (idx : Nat) : List ε → List ε → List ε → List ε × Nat × List Nat
  | first :: mapFirst, cur :: map, history :: historyMap =>
    let (historyMap, covered, unstable) := flagFrom (idx + 1) mapFirst map historyMap
    if first ≠ cur ∧ history ≠ maxValue then
      (maxValue :: historyMap, covered + (if history = zero then 1 else 0), idx :: unstable)
    else (history :: historyMap, covered, unstable)
  | _, _, historyMap => (historyMap, 0, [])

/-- The two maps have different entries at the index. -/
def differsAt (mapFirst map : List ε) (k : Nat) : Bool :=
  match mapFirst[k]?, map[k]? with
  | some first, some cur => first ≠ cur
  | _, _ => false

def MapFeedbackMetadata.flag (m : MapFeedbackMetadata ε) (mapFirst map : List ε) :
    MapFeedbackMetadata ε × List Nat :=
  let (historyMap, covered, unstable) := flagFrom 0 mapFirst map m.historyMap
  ({ historyMap, numCoveredMapIndexes := m.numCoveredMapIndexes + covered }, unstable)

/-! ## Runs of the target -/

/-- What a run of the target comes to: what the hooks before and after it return,
how it ends, and the map that is observed then. -/
structure TargetRun (ε : Type) where
  preExec : Except String Unit
  exitKind : Except String ExitKind
  postExec : Except String Unit
  map : List ε

namespace TargetRun

/-- `run_target_once`; the errors are only for the log. -/
def once (run : TargetRun ε) (hadErrors : Bool) : Except String (ExitKind × Bool) := do
  run.preExec
  let exitKind ← run.exitKind
  let hasErrors := hadErrors || (exitKind ≠ .ok && !hadErrors)
  run.postExec
  pure (exitKind, hasErrors)

/-- A run that the hooks and the target complete. -/
def completed (exitKind : ExitKind) (map : List ε) : TargetRun ε where
  preExec := .ok ()
  exitKind := .ok exitKind
  postExec := .ok ()
  map

end TargetRun

/-! ## The stage -/

/-- A stability ratio that is sent to the broker, with the executions so far. -/
structure StabilityEvent where
  stable : Nat
  filled : Nat
  executions : Nat
  deriving DecidableEq, Repr

/-- What the stage reads and changes of the state. -/
structure StabilityState (ε : Type) where
  current : Option Nat
  feedback : Option (MapFeedbackMetadata ε)
  unstable : Option UnstableEntriesMetadata
  /-- The runs of the target so far. -/
  executions : Nat
  events : List StabilityEvent

/-- The run as the state counts it: it is made once the hooks before it are through. -/
def StabilityState.ran (s : StabilityState ε) (run : TargetRun ε) : StabilityState ε :=
  match run.preExec with
  | .ok () => { s with executions := s.executions + 1 }
  | .error _ => s

structure StabilityCheckStage where
  stageMax : Nat
  seen : Finset Nat
  deriving DecidableEq

/-- AFL++'s `CAL_CYCLES` and one. -/
def calStageMax : Nat := 8

def filledCountZero : Panic :=
  .expect "assertion `left != right` failed: The map's filled count must never be 0\n  left: 0\n right: 0"

/-- The loop over the reruns, from the `i`th; an error leaves it. -/
def rerun (mapFirst : List ε) (runs : Nat → TargetRun ε) (i iter : Nat) (hasErrors : Bool)
    (unstable : List Nat) (s : StabilityState ε) :
    Except Panic (StabilityState ε × Except String (List Nat)) :=
  if i < iter then
    let s := s.ran (runs i)
    match (runs i).once hasErrors with
    | .error e => .ok (s, .error e)
    | .ok (exitKind, hasErrors) =>
      if exitKind = .timeout then rerun mapFirst runs (i + 1) iter hasErrors unstable s
      else
        match s.feedback with
        | none => .error (.expect "called `Option::unwrap()` on a `None` value")
        | some mapState =>
          let (mapState, found) := (mapState.extend mapFirst.length).flag mapFirst (runs i).map
          let s := { s with feedback := some mapState }
          let unstable := unstable ++ found
          -- the loop extends its own bound, up to one more than the maximum
          if unstable ≠ [] ∧ iter < calStageMax then
            rerun mapFirst runs (i + 1) (iter + 2) hasErrors unstable s
          else rerun mapFirst runs (i + 1) iter hasErrors unstable s
  else .ok (s, .ok unstable)
termination_by max iter (calStageMax + 1) - i
decreasing_by all_goals (unfold calStageMax at *; omega)

/-- What follows the reruns: the metadata of unstable entries, and the event. -/
def StabilityState.report (s : StabilityState ε) (filledCount : Nat) (unstable : List Nat)
    (fire : Except String Unit) : Except Panic (StabilityState ε × Except String Unit) :=
  if unstable ≠ [] then
    let metadata := s.unstable.getD .new
    let unstableEntries := metadata.unstableEntries ∪ unstable.toFinset
    let s := { s with unstable := some ⟨unstableEntries, filledCount⟩ }
    if filledCount = 0 then .error filledCountZero
    else .ok ({ s with
      events := s.events ++ [⟨filledCount - unstableEntries.card, filledCount, s.executions⟩] }, fire)
  else if s.unstable.isNone ∧ filledCount > 0 then
    .ok ({ s with
      unstable := some .new
      events := s.events ++ [⟨1, 1, s.executions⟩] }, fire)
  else .ok (s, .ok ())

namespace StabilityCheckStage

/-- What `perform` does with an input that loads: it runs it, runs it again, and
reports. -/
def check (stage : StabilityCheckStage) (cur : Nat) (countBytes : List ε → Nat)
    (runs : Nat → TargetRun ε) (fire : Except String Unit) (s : StabilityState ε) :
    Except Panic (StabilityCheckStage × StabilityState ε × Except String Unit) :=
  let s := s.ran (runs 0)
  match (runs 0).once false with
  | .error e => .ok (stage, s, .error e)
  | .ok _ =>
    let mapFirst := (runs 0).map
    -- taken once, before the reruns
    let filledCount :=
      match s.feedback with
      | some metadata => metadata.numCoveredMapIndexes
      | none => countBytes mapFirst
    match rerun mapFirst runs 1 stage.stageMax false [] s with
    | .error panic => .error panic
    | .ok (s, .error e) => .ok (stage, s, .error e)
    | .ok (s, .ok unstable) =>
      match s.report filledCount unstable fire with
      | .error panic => .error panic
      | .ok (s, .error e) => .ok (stage, s, .error e)
      | .ok (s, .ok ()) => .ok ({ stage with seen := insert cur stage.seen }, s, .ok ())

/-- `loaded` is the input of the current testcase, if it has one; `fire` is what
firing the event returns. -/
def perform (stage : StabilityCheckStage) (countBytes : List ε → Nat)
    (loaded : Except String (Option Program)) (runs : Nat → TargetRun ε)
    (fire : Except String Unit) (s : StabilityState ε) :
    Except Panic (StabilityCheckStage × StabilityState ε × Except String Unit) :=
  match s.current with
  | none => .error (.expect "CorpusId should be available during stage execution")
  | some cur =>
    if cur ∈ stage.seen then .ok (stage, s, .ok ())
    else
      match loaded with
      | .error e => .ok (stage, s, .error e)
      | .ok none => .ok (stage, s, .ok ())
      | .ok (some _) => stage.check cur countBytes runs fire s

end StabilityCheckStage

/-! ## One comparison -/

section Differs

omit [MapEntry ε]

@[simp] theorem differsAt_zero (first cur : ε) (mapFirst map : List ε) :
    differsAt (first :: mapFirst) (cur :: map) 0 = decide (first ≠ cur) := rfl

@[simp] theorem differsAt_succ (first cur : ε) (mapFirst map : List ε) (k : Nat) :
    differsAt (first :: mapFirst) (cur :: map) (k + 1) = differsAt mapFirst map k := rfl

theorem lt_of_differsAt {mapFirst map : List ε} {k : Nat} (h : differsAt mapFirst map k = true) :
    k < mapFirst.length := by
  by_contra hNot
  unfold differsAt at h
  rw [List.getElem?_eq_none (Nat.not_lt.mp hNot)] at h
  cases h

end Differs

/-- The history after a comparison: flagged where the maps differ. -/
theorem getElem?_flagFrom (idx : Nat) (mapFirst map h : List ε) (k : Nat) :
    (flagFrom idx mapFirst map h).1[k]? =
      h[k]?.map fun old => if differsAt mapFirst map k = true then maxValue else old := by
  -- the three cases are the branches of the comparison
  fun_induction flagFrom idx mapFirst map h generalizing k with
  | case1 idx first mapFirst cur map old h rest covered unstable hRest hFlag ih =>
    cases k with
    | zero => simp [hFlag.1]
    | succ k =>
      rw [hRest] at ih
      exact ih k
  | case2 idx first mapFirst cur map old h rest covered unstable hRest hNot ih =>
    cases k with
    | zero =>
      by_cases hDiffers : first = cur
      · simp [hDiffers]
      · -- it is flagged already
        have hMax : old = maxValue := by
          by_contra hOther
          exact hNot ⟨hDiffers, hOther⟩
        simp [hMax]
    | succ k =>
      rw [hRest] at ih
      exact ih k
  | case3 mapFirst idx map h hNot =>
    -- one of the three has ended, and beyond it the maps do not differ
    have hSame : ∀ old, h[k]? = some old → differsAt mapFirst map k = false := by
      intro old hOld
      cases mapFirst with
      | nil => rfl
      | cons first mapFirst =>
        cases map with
        | nil => unfold differsAt; simp
        | cons cur map =>
          cases h with
          | nil => cases hOld
          | cons old' h => exact absurd rfl (hNot first mapFirst cur map old' h rfl rfl)
    cases hOld : h[k]? with
    | none => rfl
    | some old => simp [hSame old hOld]

theorem length_flagFrom (idx : Nat) (mapFirst map h : List ε) :
    (flagFrom idx mapFirst map h).1.length = h.length := by
  fun_induction flagFrom idx mapFirst map h <;> simp_all

/-- What is counted is the entries that were zero. -/
theorem countP_flagFrom (idx : Nat) (mapFirst map h : List ε) :
    (flagFrom idx mapFirst map h).1.countP (fun e => e ≠ zero) =
      h.countP (fun e => e ≠ zero) + (flagFrom idx mapFirst map h).2.1 := by
  fun_induction flagFrom idx mapFirst map h with
  | case1 idx first mapFirst cur map old h rest covered unstable hRest hFlag ih =>
    rw [hRest] at ih
    dsimp only at ih ⊢
    rw [List.countP_cons_of_pos (by simpa using maxValue_ne_zero), ih]
    -- an entry that was zero is counted from now on
    by_cases hOld : old = zero
    · rw [List.countP_cons_of_neg (by simpa using hOld), if_pos hOld]
      omega
    · rw [List.countP_cons_of_pos (by simpa using hOld), if_neg hOld]
      omega
  | case2 idx first mapFirst cur map old h rest covered unstable hRest hNot ih =>
    rw [hRest] at ih
    dsimp only at ih ⊢
    rw [List.countP_cons, List.countP_cons, ih]
    omega
  | case3 => rfl

/-- The entry is flagged by the comparison: the maps differ there, and it was not
flagged before. -/
def Flagged (mapFirst map h : List ε) (k : Nat) : Prop :=
  differsAt mapFirst map k = true ∧ ∃ old, h[k]? = some old ∧ old ≠ maxValue

theorem flagged_zero_iff {first cur old : ε} {mapFirst map h : List ε} :
    Flagged (first :: mapFirst) (cur :: map) (old :: h) 0 ↔ first ≠ cur ∧ old ≠ maxValue := by
  simp [Flagged]

theorem flagged_succ_iff {first cur old : ε} {mapFirst map h : List ε} {k : Nat} :
    Flagged (first :: mapFirst) (cur :: map) (old :: h) (k + 1) ↔ Flagged mapFirst map h k := by
  simp [Flagged]

/-- The indices from `idx` on, of which the first is flagged or not. -/
theorem exists_flagged_cons_iff {first cur old : ε} {mapFirst map h : List ε} {idx j : Nat} :
    (∃ k, j = idx + k ∧ Flagged (first :: mapFirst) (cur :: map) (old :: h) k) ↔
      (j = idx ∧ first ≠ cur ∧ old ≠ maxValue) ∨
        ∃ k, j = idx + 1 + k ∧ Flagged mapFirst map h k := by
  constructor
  · rintro ⟨k, hj, hFlagged⟩
    cases k with
    | zero => exact Or.inl ⟨hj, flagged_zero_iff.mp hFlagged⟩
    | succ k => exact Or.inr ⟨k, by omega, flagged_succ_iff.mp hFlagged⟩
  · rintro (⟨hj, hFlag⟩ | ⟨k, hj, hFlagged⟩)
    · exact ⟨0, hj, flagged_zero_iff.mpr hFlag⟩
    · exact ⟨k + 1, by omega, flagged_succ_iff.mpr hFlagged⟩

theorem mem_flagFrom_iff (idx : Nat) (mapFirst map h : List ε) (j : Nat) :
    j ∈ (flagFrom idx mapFirst map h).2.2 ↔ ∃ k, j = idx + k ∧ Flagged mapFirst map h k := by
  fun_induction flagFrom idx mapFirst map h with
  | case1 idx first mapFirst cur map old h rest covered unstable hRest hFlag ih =>
    rw [hRest] at ih
    rw [exists_flagged_cons_iff, ← ih, List.mem_cons, and_iff_left hFlag]
  | case2 idx first mapFirst cur map old h rest covered unstable hRest hNot ih =>
    rw [hRest] at ih
    rw [exists_flagged_cons_iff, ← ih]
    exact (or_iff_right fun hFlag => hNot hFlag.2).symm
  | case3 mapFirst idx map h hNot =>
    refine iff_of_false List.not_mem_nil ?_
    rintro ⟨k, -, hDiffers, old, hOld, -⟩
    -- one of the three is at its end
    cases mapFirst with
    | nil => cases hDiffers
    | cons first mapFirst =>
      cases map with
      | nil =>
        unfold differsAt at hDiffers
        simp at hDiffers
      | cons cur map =>
        cases h with
        | nil => cases hOld
        | cons old' h => exact hNot first mapFirst cur map old' h rfl rfl rfl

namespace MapFeedbackMetadata

variable {m : MapFeedbackMetadata ε}

omit [DecidableEq ε] in
theorem entry_extend (m : MapFeedbackMetadata ε) (len k : Nat) :
    (m.extend len).entry k = m.entry k := by
  unfold entry extend
  rw [List.getD_eq_getElem?_getD, List.getD_eq_getElem?_getD, List.getElem?_append]
  split
  · rfl
  · rename_i hGe
    rw [List.getElem?_replicate, List.getElem?_eq_none (Nat.not_lt.mp hGe)]
    split <;> rfl

omit [DecidableEq ε] in
theorem length_extend (m : MapFeedbackMetadata ε) (len : Nat) :
    (m.extend len).historyMap.length = max m.historyMap.length len := by
  rw [extend, List.length_append, List.length_replicate]
  omega

omit [DecidableEq ε] in
theorem le_length_extend (m : MapFeedbackMetadata ε) (len : Nat) :
    len ≤ (m.extend len).historyMap.length := by
  rw [length_extend]
  exact Nat.le_max_right _ _

/-- Zeros are not counted. -/
theorem InSync.extend (h : m.InSync) (len : Nat) : (m.extend len).InSync := by
  unfold InSync MapFeedbackMetadata.extend at *
  rw [List.countP_append, List.countP_replicate, if_neg (by simp), Nat.add_zero]
  exact h

theorem InSync.flag (h : m.InSync) (mapFirst map : List ε) : (m.flag mapFirst map).1.InSync := by
  unfold InSync MapFeedbackMetadata.flag at *
  rw [countP_flagFrom, ← h]

theorem length_flag (m : MapFeedbackMetadata ε) (mapFirst map : List ε) :
    (m.flag mapFirst map).1.historyMap.length = m.historyMap.length :=
  length_flagFrom 0 mapFirst map m.historyMap

theorem entry_flag (m : MapFeedbackMetadata ε) {mapFirst map : List ε}
    (hLength : mapFirst.length ≤ m.historyMap.length) (k : Nat) :
    (m.flag mapFirst map).1.entry k =
      if differsAt mapFirst map k = true then maxValue else m.entry k := by
  unfold entry MapFeedbackMetadata.flag
  rw [List.getD_eq_getElem?_getD, List.getD_eq_getElem?_getD, getElem?_flagFrom]
  by_cases hDiffers : differsAt mapFirst map k = true
  · have hLt := Nat.lt_of_lt_of_le (lt_of_differsAt hDiffers) hLength
    rw [List.getElem?_eq_getElem hLt, Option.map_some, if_pos hDiffers, if_pos hDiffers]
    rfl
  · cases hOld : m.historyMap[k]? with
    | none => rw [if_neg hDiffers]; rfl
    | some old => rw [Option.map_some, if_neg hDiffers, if_neg hDiffers]

theorem mem_flag_iff (m : MapFeedbackMetadata ε) {mapFirst map : List ε}
    (hLength : mapFirst.length ≤ m.historyMap.length) (k : Nat) :
    k ∈ (m.flag mapFirst map).2 ↔ differsAt mapFirst map k = true ∧ m.entry k ≠ maxValue := by
  unfold MapFeedbackMetadata.flag
  rw [mem_flagFrom_iff]
  simp only [Nat.zero_add, exists_eq_left', Flagged]
  refine and_congr_right fun hDiffers => ?_
  have hLt := Nat.lt_of_lt_of_le (lt_of_differsAt hDiffers) hLength
  rw [entry, List.getD_eq_getElem?_getD, List.getElem?_eq_getElem hLt]
  simp

end MapFeedbackMetadata

/-! ## The loop -/

namespace TargetRun

variable {run : TargetRun ε}

/-- The run is compared with the first one, and their maps differ at the index. -/
def unlike (mapFirst : List ε) (run : TargetRun ε) (k : Nat) : Bool :=
  match run.once false with
  | .ok (exitKind, _) => exitKind ≠ .timeout && differsAt mapFirst run.map k
  | .error _ => false

omit [DecidableEq ε] [MapEntry ε] in
/-- Whether there were errors before decides nothing but the log. -/
theorem once_cases (run : TargetRun ε) :
    (∃ e, ∀ hadErrors, run.once hadErrors = .error e) ∨
      (run.preExec = .ok () ∧ ∃ exitKind, ∀ hadErrors, ∃ hasErrors,
        run.once hadErrors = .ok (exitKind, hasErrors)) := by
  unfold once
  cases run.preExec with
  | error e => exact Or.inl ⟨e, fun _ => rfl⟩
  | ok u =>
    cases run.exitKind with
    | error e => exact Or.inl ⟨e, fun _ => rfl⟩
    | ok exitKind =>
      cases run.postExec with
      | error e => exact Or.inl ⟨e, fun _ => rfl⟩
      | ok u => exact Or.inr ⟨rfl, exitKind, fun _ => ⟨_, rfl⟩⟩

omit [MapEntry ε] in
theorem unlike_of_error {hadErrors : Bool} {e : String} (h : run.once hadErrors = .error e)
    (mapFirst : List ε) (k : Nat) : run.unlike mapFirst k = false := by
  rcases run.once_cases with ⟨e', hError⟩ | ⟨-, exitKind, hOk⟩
  · rw [unlike, hError]
  · obtain ⟨_, hOk⟩ := hOk hadErrors
    cases h.symm.trans hOk

omit [MapEntry ε] in
theorem unlike_of_ok {hadErrors hasErrors : Bool} {exitKind : ExitKind}
    (h : run.once hadErrors = .ok (exitKind, hasErrors)) (mapFirst : List ε) (k : Nat) :
    run.unlike mapFirst k = (exitKind ≠ .timeout && differsAt mapFirst run.map k) := by
  rcases run.once_cases with ⟨e, hError⟩ | ⟨-, exitKind', hOk⟩
  · cases h.symm.trans (hError hadErrors)
  · obtain ⟨_, hThen⟩ := hOk hadErrors
    obtain ⟨_, hNow⟩ := hOk false
    cases h.symm.trans hThen
    rw [unlike, hNow]

omit [DecidableEq ε] [MapEntry ε] in
theorem preExec_of_ok {hadErrors hasErrors : Bool} {exitKind : ExitKind}
    (h : run.once hadErrors = .ok (exitKind, hasErrors)) : run.preExec = .ok () := by
  rcases run.once_cases with ⟨e, hError⟩ | ⟨hPre, -⟩
  · cases h.symm.trans (hError hadErrors)
  · exact hPre

end TargetRun

omit [DecidableEq ε] [MapEntry ε] in
theorem ran_of_preExec {run : TargetRun ε} {s : StabilityState ε} (h : run.preExec = .ok ()) :
    s.ran run = { s with executions := s.executions + 1 } := by
  rw [StabilityState.ran, h]

omit [DecidableEq ε] [MapEntry ε] in
@[simp] theorem feedback_ran (s : StabilityState ε) (run : TargetRun ε) :
    (s.ran run).feedback = s.feedback := by
  unfold StabilityState.ran
  split <;> rfl

/-- One of the reruns before the `i`th differs from the first run at the index. -/
def Differed (mapFirst : List ε) (runs : Nat → TargetRun ε) (i k : Nat) : Prop :=
  ∃ r, 0 < r ∧ r < i ∧ (runs r).unlike mapFirst k = true

omit [MapEntry ε] in
theorem differed_succ_iff {mapFirst : List ε} {runs : Nat → TargetRun ε} {i k : Nat} (hi : 0 < i) :
    Differed mapFirst runs (i + 1) k ↔
      Differed mapFirst runs i k ∨ (runs i).unlike mapFirst k = true := by
  constructor
  · rintro ⟨r, hr, hLt, hUnlike⟩
    rcases Nat.lt_succ_iff_lt_or_eq.mp hLt with hLt | rfl
    · exact Or.inl ⟨r, hr, hLt, hUnlike⟩
    · exact Or.inr hUnlike
  · rintro (⟨r, hr, hLt, hUnlike⟩ | hUnlike)
    · exact ⟨r, hr, Nat.lt_succ_of_lt hLt, hUnlike⟩
    · exact ⟨i, hi, Nat.lt_succ_self i, hUnlike⟩

/-- The history as the reruns before the `i`th have left it. -/
structure Rechecked (mapFirst : List ε) (runs : Nat → TargetRun ε) (i : Nat)
    (m m' : MapFeedbackMetadata ε) : Prop where
  inSync : m'.InSync
  length : m'.historyMap.length = m.historyMap.length ∨
    m.historyMap.length < m'.historyMap.length ∧ m'.historyMap.length = mapFirst.length
  raised : ∀ k, Differed mapFirst runs i k → m'.entry k = maxValue
  kept : ∀ k, ¬ Differed mapFirst runs i k → m'.entry k = m.entry k

/-- What holds when the loop gets to the `i`th run. -/
structure Rerunning (mapFirst : List ε) (runs : Nat → TargetRun ε) (stageMax : Nat)
    (m : MapFeedbackMetadata ε) (executions i iter : Nat) (unstable : List Nat)
    (s : StabilityState ε) : Prop where
  pos : 0 < i
  feedback : ∃ m', s.feedback = some m' ∧ Rechecked mapFirst runs i m m'
  found : ∀ k, k ∈ unstable ↔ Differed mapFirst runs i k ∧ m.entry k ≠ maxValue
  counted : s.executions = executions + i
  runs_le : i ≤ max stageMax (calStageMax + 1)
  iter_le : iter ≤ max stageMax (calStageMax + 1)
  le_iter : stageMax ≤ iter
  /-- The bound is extended for an entry that was found within the first bound. -/
  extended : unstable = [] ∧ iter = stageMax ∨
    ∃ k, Differed mapFirst runs stageMax k ∧ m.entry k ≠ maxValue

section Loop

variable {mapFirst : List ε} {runs : Nat → TargetRun ε} {stageMax executions i iter : Nat}
  {m m' : MapFeedbackMetadata ε} {unstable : List Nat} {s : StabilityState ε}

/-- A rerun that times out is not looked at. -/
theorem Rechecked.timeout (h : Rechecked mapFirst runs i m m') (hi : 0 < i)
    (hUnlike : ∀ k, (runs i).unlike mapFirst k = false) :
    Rechecked mapFirst runs (i + 1) m m' := by
  have hSame : ∀ k, Differed mapFirst runs (i + 1) k ↔ Differed mapFirst runs i k := fun k => by
    rw [differed_succ_iff hi, hUnlike k]
    exact or_iff_left Bool.noConfusion
  exact ⟨h.inSync, h.length, fun k hk => h.raised k ((hSame k).mp hk),
    fun k hk => h.kept k (mt (hSame k).mpr hk)⟩

/-- The history is extended to the length of the map, and flagged where the rerun
differs. -/
theorem Rechecked.flag (h : Rechecked mapFirst runs i m m') (hi : 0 < i)
    (hUnlike : ∀ k, (runs i).unlike mapFirst k = differsAt mapFirst (runs i).map k) :
    Rechecked mapFirst runs (i + 1) m
      ((m'.extend mapFirst.length).flag mapFirst (runs i).map).1 := by
  have hLength := m'.le_length_extend mapFirst.length
  -- what differed by then, and what differs now
  have hSucc : ∀ k, Differed mapFirst runs (i + 1) k ↔
      Differed mapFirst runs i k ∨ differsAt mapFirst (runs i).map k = true := fun k => by
    rw [differed_succ_iff hi, hUnlike k]
  refine ⟨(h.inSync.extend _).flag _ _, ?_, fun k hk => ?_, fun k hk => ?_⟩
  · have hOld := h.length
    rw [MapFeedbackMetadata.length_flag, MapFeedbackMetadata.length_extend]
    omega
  · rw [MapFeedbackMetadata.entry_flag _ hLength, MapFeedbackMetadata.entry_extend]
    split
    · rfl
    · rename_i hNot
      exact h.raised k (((hSucc k).mp hk).resolve_right hNot)
  · rw [hSucc, not_or] at hk
    rw [MapFeedbackMetadata.entry_flag _ hLength, if_neg hk.2, MapFeedbackMetadata.entry_extend]
    exact h.kept k hk.1

/-- The turn of a rerun that times out. -/
theorem Rerunning.timeout (h : Rerunning mapFirst runs stageMax m executions i iter unstable s)
    (hLt : i < iter) (hPre : (runs i).preExec = .ok ())
    (hUnlike : ∀ k, (runs i).unlike mapFirst k = false) :
    Rerunning mapFirst runs stageMax m executions (i + 1) iter unstable (s.ran (runs i)) := by
  obtain ⟨m', hFeedback, hRechecked⟩ := h.feedback
  have hIter := h.iter_le
  rw [ran_of_preExec hPre]
  refine ⟨Nat.succ_pos i, ⟨m', hFeedback, hRechecked.timeout h.pos hUnlike⟩, fun k => ?_, ?_,
    by omega, hIter, h.le_iter, h.extended⟩
  · rw [h.found k, differed_succ_iff h.pos, hUnlike k]
    simp
  · show s.executions + 1 = _
    rw [h.counted, Nat.add_assoc]

/-- What a comparison finds is what differs and has not been flagged. -/
theorem Rechecked.mem_flag_iff (h : Rechecked mapFirst runs i m m') (k : Nat) :
    k ∈ ((m'.extend mapFirst.length).flag mapFirst (runs i).map).2 ↔
      differsAt mapFirst (runs i).map k = true ∧ ¬ Differed mapFirst runs i k ∧
        m.entry k ≠ maxValue := by
  have hLength := m'.le_length_extend mapFirst.length
  rw [MapFeedbackMetadata.mem_flag_iff _ hLength, MapFeedbackMetadata.entry_extend]
  refine and_congr_right fun _ => ?_
  -- what differed before is flagged already, and is not found again
  by_cases hDiffered : Differed mapFirst runs i k
  · rw [h.raised k hDiffered]
    exact iff_of_false (fun hNe => hNe rfl) fun hBoth => hBoth.1 hDiffered
  · rw [h.kept k hDiffered]
    exact (and_iff_right hDiffered).symm

/-- The turn of a rerun that is compared: the bound is extended if there is an
unstable entry by then, and it is small. -/
theorem Rerunning.flag (h : Rerunning mapFirst runs stageMax m executions i iter unstable s)
    (hLt : i < iter) (hPre : (runs i).preExec = .ok ())
    (hUnlike : ∀ k, (runs i).unlike mapFirst k = differsAt mapFirst (runs i).map k)
    (hFeedback : s.feedback = some m') {iter' : Nat}
    (hIter : iter' = if unstable ++ ((m'.extend mapFirst.length).flag mapFirst (runs i).map).2 ≠ []
      ∧ iter < calStageMax then iter + 2 else iter) :
    Rerunning mapFirst runs stageMax m executions (i + 1) iter'
      (unstable ++ ((m'.extend mapFirst.length).flag mapFirst (runs i).map).2)
      { s.ran (runs i) with
        feedback := some ((m'.extend mapFirst.length).flag mapFirst (runs i).map).1 } := by
  obtain ⟨m'', hSame, hRechecked⟩ := h.feedback
  obtain rfl := Option.some.inj (hSame.symm.trans hFeedback)
  have hFound : ∀ k, k ∈ unstable ++ ((m''.extend mapFirst.length).flag mapFirst (runs i).map).2 ↔
      Differed mapFirst runs (i + 1) k ∧ m.entry k ≠ maxValue := fun k => by
    rw [List.mem_append, h.found k, hRechecked.mem_flag_iff k, differed_succ_iff h.pos, hUnlike k]
    by_cases hDiffered : Differed mapFirst runs i k <;> simp [hDiffered]
  have hBound := h.iter_le
  have hLe : iter ≤ iter' ∧ iter' ≤ max stageMax (calStageMax + 1) := by
    rw [hIter]
    split <;> omega
  have hLow := h.le_iter
  refine ⟨Nat.succ_pos i, ⟨_, rfl, hRechecked.flag h.pos hUnlike⟩, hFound, ?_, by omega, hLe.2,
    by omega, ?_⟩
  · rw [ran_of_preExec hPre]
    show s.executions + 1 = _
    rw [h.counted, Nat.add_assoc]
  · rcases h.extended with ⟨hNone, hFirst⟩ | hSome
    · by_cases hEmpty : unstable ++ ((m''.extend mapFirst.length).flag mapFirst (runs i).map).2 = []
      · exact Or.inl ⟨hEmpty, by rw [hIter, if_neg fun hBoth => hBoth.1 hEmpty, hFirst]⟩
      · -- the first entry that is found, at a rerun below the first bound
        obtain ⟨k, hk⟩ := List.exists_mem_of_ne_nil _ hEmpty
        obtain ⟨⟨r, hr, hrLt, hrUnlike⟩, hMax⟩ := (hFound k).mp hk
        exact Or.inr ⟨k, ⟨r, hr, by omega, hrUnlike⟩, hMax⟩
    · exact Or.inr hSome

/-- **The loop** ends in a state like the one before each of its turns, or an error
of the next run leaves it there. -/
theorem rerun_spec (hasErrors : Bool)
    (h : Rerunning mapFirst runs stageMax m executions i iter unstable s) :
    ∃ i' iter' unstable' s',
      Rerunning mapFirst runs stageMax m executions i' iter' unstable' s' ∧
        ((rerun mapFirst runs i iter hasErrors unstable s = .ok (s', .ok unstable') ∧
            iter' ≤ i') ∨
          ∃ e, i' < iter' ∧ (∃ hadErrors, (runs i').once hadErrors = .error e) ∧
            rerun mapFirst runs i iter hasErrors unstable s =
              .ok (s'.ran (runs i'), .error e)) := by
  fun_induction rerun mapFirst runs i iter hasErrors unstable s with
  | case1 i iter hasErrors unstable s hLt s' e hOnce =>
    exact ⟨i, iter, unstable, s, h, Or.inr ⟨e, hLt, ⟨hasErrors, hOnce⟩, rfl⟩⟩
  | case2 i iter hasErrors unstable s hLt s' hasErrors' hOnce ih =>
    refine ih (h.timeout hLt (TargetRun.preExec_of_ok hOnce) fun k => ?_)
    rw [TargetRun.unlike_of_ok hOnce]
    rfl
  | case3 i iter hasErrors unstable s hLt s' exitKind hasErrors' hOnce hKind hNone =>
    -- the metadata is there
    obtain ⟨m', hFeedback, -⟩ := h.feedback
    rw [feedback_ran, hFeedback] at hNone
    cases hNone
  | case4 i iter hasErrors unstable s hLt s' exitKind hasErrors' hOnce hKind m' hSome m'' found
      hFlag s'' unstable' hExtend ih =>
    rw [feedback_ran] at hSome
    obtain ⟨rfl, rfl⟩ := Prod.mk.inj hFlag
    refine ih (h.flag hLt (TargetRun.preExec_of_ok hOnce) (fun k => ?_) hSome (if_pos hExtend).symm)
    rw [TargetRun.unlike_of_ok hOnce, decide_eq_true hKind, Bool.true_and]
  | case5 i iter hasErrors unstable s hLt s' exitKind hasErrors' hOnce hKind m' hSome m'' found
      hFlag s'' unstable' hKeep ih =>
    rw [feedback_ran] at hSome
    obtain ⟨rfl, rfl⟩ := Prod.mk.inj hFlag
    refine ih (h.flag hLt (TargetRun.preExec_of_ok hOnce) (fun k => ?_) hSome (if_neg hKeep).symm)
    rw [TargetRun.unlike_of_ok hOnce, decide_eq_true hKind, Bool.true_and]
  | case6 i iter hasErrors unstable s hNot =>
    exact ⟨i, iter, unstable, s, h, Or.inl ⟨rfl, Nat.not_lt.mp hNot⟩⟩

omit [MapEntry ε] in
theorem not_differed_one {k : Nat} : ¬ Differed mapFirst runs 1 k := by
  rintro ⟨r, hr, hLt, -⟩
  omega

/-- Before the first rerun. -/
theorem rerunning_first {executions : Nat} (hFeedback : s.feedback = some m) (hSync : m.InSync)
    (hCounted : s.executions = executions + 1) :
    Rerunning mapFirst runs stageMax m executions 1 stageMax [] s where
  pos := Nat.one_pos
  feedback := ⟨m, hFeedback, hSync, Or.inl rfl, fun _ hk => absurd hk not_differed_one,
    fun _ _ => rfl⟩
  found k := iff_of_false List.not_mem_nil fun h => not_differed_one h.1
  counted := hCounted
  runs_le := by unfold calStageMax; omega
  iter_le := Nat.le_max_left _ _
  le_iter := Nat.le_refl _
  extended := Or.inl ⟨rfl, rfl⟩

end Loop

/-! ## The history after the stage -/

section History

variable {stageMax : Nat} {runs : Nat → TargetRun ε} {s s' : StabilityState ε}
  {m m' : MapFeedbackMetadata ε}

/-- What a call of the stage leaves of the history `m`; it has made the runs by
which the executions have grown. -/
structure StabilityChecked (stageMax : Nat) (runs : Nat → TargetRun ε)
    (s : StabilityState ε) (m : MapFeedbackMetadata ε) (s' : StabilityState ε)
    (m' : MapFeedbackMetadata ε) : Prop where
  feedback : s'.feedback = some m'
  inSync : m'.InSync
  length : m'.historyMap.length = m.historyMap.length ∨
    m.historyMap.length < m'.historyMap.length ∧ m'.historyMap.length = (runs 0).map.length
  flagged : ∀ k, m'.entry k = m.entry k ∨ m'.entry k = maxValue ∧
    ∃ r, 0 < r ∧ s.executions + r < s'.executions ∧ (runs r).unlike (runs 0).map k = true
  raised : ∀ r k, 0 < r → s.executions + r < s'.executions →
    (runs r).unlike (runs 0).map k = true → m'.entry k = maxValue
  runs_le : s'.executions ≤ s.executions + max stageMax (calStageMax + 1)

/-- No run is compared. -/
theorem stabilityChecked_of_same (hm : s.feedback = some m) (hSync : m.InSync)
    (hFeedback : s'.feedback = s.feedback) (hRuns : s'.executions ≤ s.executions + 1) :
    StabilityChecked stageMax runs s m s' m where
  feedback := hFeedback.trans hm
  inSync := hSync
  length := Or.inl rfl
  flagged _ := Or.inl rfl
  raised r k hr hLt := by omega
  runs_le := by unfold calStageMax; omega

/-- The reruns before the `i`th are those that have been made. -/
theorem stabilityChecked_of_rechecked {i : Nat} (hFeedback : s'.feedback = some m')
    (h : Rechecked (runs 0).map runs i m m')
    (hMade : ∀ r k, (runs r).unlike (runs 0).map k = true →
      (s.executions + r < s'.executions ↔ r < i))
    (hRuns : s'.executions ≤ s.executions + max stageMax (calStageMax + 1)) :
    StabilityChecked stageMax runs s m s' m' where
  feedback := hFeedback
  inSync := h.inSync
  length := h.length
  flagged k := by
    by_cases hDiffered : Differed (runs 0).map runs i k
    · obtain ⟨r, hr, hLt, hUnlike⟩ := hDiffered
      exact Or.inr ⟨h.raised k ⟨r, hr, hLt, hUnlike⟩, r, hr, (hMade r k hUnlike).mpr hLt, hUnlike⟩
    · -- what differed in no rerun is as it was
      exact Or.inl (h.kept k hDiffered)
  raised r k hr hLt hUnlike := h.raised k ⟨r, hr, (hMade r k hUnlike).mp hLt, hUnlike⟩
  runs_le := hRuns

omit [DecidableEq ε] [MapEntry ε] in
theorem report_frame {filledCount : Nat} {unstable : List Nat} {fire result : Except String Unit}
    (h : s.report filledCount unstable fire = .ok (s', result)) :
    s'.feedback = s.feedback ∧ s'.executions = s.executions := by
  unfold StabilityState.report at h
  split at h
  · simp only at h
    split at h <;> cases h
    exact ⟨rfl, rfl⟩
  · split at h <;> cases h <;> exact ⟨rfl, rfl⟩

end History

/-- What holds of the state that `perform` returns, if it does not panic. -/
def Returned (out : Except Panic (StabilityCheckStage × StabilityState ε × Except String Unit))
    (P : StabilityState ε → Prop) : Prop :=
  match out with
  | .ok (_, s, _) => P s
  | .error _ => True

namespace StabilityCheckStage

variable (stage : StabilityCheckStage) (cur : Nat) (countBytes : List ε → Nat)
  (runs : Nat → TargetRun ε) (fire : Except String Unit) {s : StabilityState ε}
  {m : MapFeedbackMetadata ε}

/-- How a check ends: the first run fails, or a rerun does, or the loop comes to its
end and the result is reported. -/
theorem check_cases (hm : s.feedback = some m) (hSync : m.InSync) :
    (∃ e, (runs 0).once false = .error e ∧
        stage.check cur countBytes runs fire s = .ok (stage, s.ran (runs 0), .error e)) ∨
      ∃ i iter unstable s₁,
        Rerunning (runs 0).map runs stage.stageMax m s.executions i iter unstable s₁ ∧
          ((∃ e, i < iter ∧ (∃ hadErrors, (runs i).once hadErrors = .error e) ∧
              stage.check cur countBytes runs fire s = .ok (stage, s₁.ran (runs i), .error e)) ∨
            iter ≤ i ∧ stage.check cur countBytes runs fire s =
              match s₁.report m.numCoveredMapIndexes unstable fire with
              | .error panic => .error panic
              | .ok (s, .error e) => .ok (stage, s, .error e)
              | .ok (s, .ok ()) =>
                .ok ({ stage with seen := insert cur stage.seen }, s, .ok ())) := by
  unfold check
  -- without a first run there is nothing to compare
  cases hOnce : (runs 0).once false with
  | error e => exact Or.inl ⟨e, rfl, rfl⟩
  | ok first =>
    have hPre := TargetRun.preExec_of_ok hOnce
    have hFeedback : (s.ran (runs 0)).feedback = some m := by rw [feedback_ran, hm]
    have hFirst : Rerunning (runs 0).map runs stage.stageMax m s.executions 1 stage.stageMax []
        (s.ran (runs 0)) := rerunning_first hFeedback hSync (by rw [ran_of_preExec hPre])
    obtain ⟨i, iter, unstable, s₁, hRerunning, hEnd⟩ := rerun_spec false hFirst
    refine Or.inr ⟨i, iter, unstable, s₁, hRerunning, ?_⟩
    dsimp only
    rw [hFeedback]
    -- the loop comes to its end, or a rerun fails
    rcases hEnd with ⟨hLoop, hLe⟩ | ⟨e, hLt, hFails, hLoop⟩
    · rw [hLoop]
      exact Or.inr ⟨hLe, rfl⟩
    · rw [hLoop]
      exact Or.inl ⟨e, hLt, hFails, rfl⟩

omit [DecidableEq ε] [MapEntry ε] in
theorem executions_ran_le (s : StabilityState ε) (run : TargetRun ε) :
    s.executions ≤ (s.ran run).executions ∧ (s.ran run).executions ≤ s.executions + 1 := by
  unfold StabilityState.ran
  split
  · exact ⟨Nat.le_succ _, Nat.le_refl _⟩
  · exact ⟨Nat.le_refl _, Nat.le_succ _⟩

theorem check_checks (hm : s.feedback = some m) (hSync : m.InSync) :
    Returned (stage.check cur countBytes runs fire s) fun s' =>
      ∃ m', StabilityChecked stage.stageMax runs s m s' m' := by
  rcases check_cases stage cur countBytes runs fire hm hSync with
    ⟨e, -, hCheck⟩ | ⟨i, iter, unstable, s₁, h, ⟨e, hLt, ⟨hadErrors, hFails⟩, hCheck⟩ | ⟨-, hCheck⟩⟩
  · rw [hCheck]
    exact ⟨m, stabilityChecked_of_same hm hSync (feedback_ran s _) (executions_ran_le s _).2⟩
  · -- the run that fails may have been made, but it is not compared
    obtain ⟨m', hFeedback, hRechecked⟩ := h.feedback
    obtain ⟨hGe, hLe⟩ := executions_ran_le s₁ (runs i)
    have hCounted := h.counted
    have hBound := h.iter_le
    rw [hCheck]
    refine ⟨m', stabilityChecked_of_rechecked (by rw [feedback_ran, hFeedback]) hRechecked
      (fun r k hUnlike => ?_) (by omega)⟩
    have hNot : r ≠ i := by
      rintro rfl
      rw [TargetRun.unlike_of_error hFails] at hUnlike
      cases hUnlike
    omega
  · obtain ⟨m', hFeedback, hRechecked⟩ := h.feedback
    have hCounted := h.counted
    have hBound := h.runs_le
    have hReported : ∀ s' result, s₁.report m.numCoveredMapIndexes unstable fire = .ok (s', result) →
        ∃ m', StabilityChecked stage.stageMax runs s m s' m' := by
      intro s' result hReport
      obtain ⟨hSame, hExecutions⟩ := report_frame hReport
      exact ⟨m', stabilityChecked_of_rechecked (hSame.trans hFeedback) hRechecked
        (fun r k _ => by omega) (by omega)⟩
    rw [hCheck]
    cases hReport : s₁.report m.numCoveredMapIndexes unstable fire with
    | error panic => trivial
    | ok out =>
      obtain ⟨s', result⟩ := out
      cases result with
      | error e => exact hReported s' _ hReport
      | ok u => exact hReported s' _ hReport

/-- **The stage keeps the count**, and flags only where a rerun differed. -/
theorem perform_checks (stage : StabilityCheckStage) (countBytes : List ε → Nat)
    (loaded : Except String (Option Program)) (runs : Nat → TargetRun ε)
    (fire : Except String Unit) (s : StabilityState ε) (m : MapFeedbackMetadata ε)
    (hm : s.feedback = some m) (hSync : m.InSync) :
    Returned (stage.perform countBytes loaded runs fire s) fun s' =>
      ∃ m', StabilityChecked stage.stageMax runs s m s' m' := by
  -- what an early return leaves
  have hUnchanged : ∃ m', StabilityChecked stage.stageMax runs s m s m' :=
    ⟨m, stabilityChecked_of_same hm hSync rfl (Nat.le_succ _)⟩
  unfold perform
  cases s.current with
  | none => trivial
  | some cur =>
    dsimp only
    split
    · exact hUnchanged
    · rcases loaded with e | _ | program
      · exact hUnchanged
      · exact hUnchanged
      · exact check_checks stage cur countBytes runs fire hm hSync

/-- One entry of two is covered. -/
def flaky : StabilityState UInt8 where
  current := some 0
  feedback := some ⟨[1, 0], 1⟩
  unstable := none
  executions := 0
  events := []

theorem perform_checks_flaky :
    Returned ((⟨2, ∅⟩ : StabilityCheckStage).perform List.length (.ok (some singleSetup))
        (fun n => .completed .ok [1, n.toUInt8, 0]) (.ok ()) flaky) fun s' =>
      ∃ m', StabilityChecked 2 (fun n => .completed .ok [1, n.toUInt8, 0]) flaky ⟨[1, 0], 1⟩ s' m' :=
  perform_checks _ _ _ _ _ _ _ rfl (by decide)

end StabilityCheckStage

/-! ## The assertion -/

section Assertion

variable {runs : Nat → TargetRun ε} {s : StabilityState ε} {m : MapFeedbackMetadata ε}

omit [DecidableEq ε] [MapEntry ε] in
theorem report_panics_iff (filledCount : Nat) (unstable : List Nat) (fire : Except String Unit)
    (panic : Panic) :
    s.report filledCount unstable fire = .error panic ↔
      unstable ≠ [] ∧ filledCount = 0 ∧ panic = filledCountZero := by
  unfold StabilityState.report
  by_cases hNone : unstable = []
  · rw [if_neg (not_not_intro hNone)]
    refine iff_of_false (fun h => ?_) fun h => h.1 hNone
    split at h <;> cases h
  · rw [if_pos hNone]
    by_cases hZero : filledCount = 0
    · rw [if_pos hZero, Except.error.injEq]
      exact ⟨fun h => ⟨hNone, hZero, h.symm⟩, fun h => h.2.2.symm⟩
    · rw [if_neg hZero]
      exact iff_of_false (fun h => by cases h) fun h => hZero h.2.1

/-- A history of which nothing is counted has only zeros. -/
theorem entry_of_count_zero (hSync : m.InSync) (hZero : m.numCoveredMapIndexes = 0) (k : Nat) :
    m.entry k = zero := by
  have hCount : m.historyMap.countP (fun e => e ≠ zero) = 0 := hSync.symm.trans hZero
  rw [MapFeedbackMetadata.entry, List.getD_eq_getElem?_getD]
  cases hEntry : m.historyMap[k]? with
  | none => rfl
  | some e => simpa using List.countP_eq_zero.mp hCount e (List.mem_of_getElem? hEntry)

/-- The stage does not rerun the entry, or something has been covered already, or
no rerun within the first bound differs from the first run. -/
def CoveredBefore (stage : StabilityCheckStage) (loaded : Except String (Option Program))
    (runs : Nat → TargetRun ε) (s : StabilityState ε) (m : MapFeedbackMetadata ε) : Prop :=
  (∀ cur, s.current = some cur → cur ∈ stage.seen) ∨ (∀ program, loaded ≠ .ok (some program)) ∨
    m.numCoveredMapIndexes ≠ 0 ∨
      ∀ r k, 0 < r → r < stage.stageMax → (runs r).unlike (runs 0).map k = false

namespace StabilityCheckStage

/-- Only the report asserts, and only with an unstable entry that was found within
the first bound. -/
theorem found_of_check_asserts {stage : StabilityCheckStage} {cur : Nat}
    {countBytes : List ε → Nat} {fire : Except String Unit} (hm : s.feedback = some m)
    (hSync : m.InSync) (h : stage.check cur countBytes runs fire s = .error filledCountZero) :
    m.numCoveredMapIndexes = 0 ∧ ∃ k, Differed (runs 0).map runs stage.stageMax k := by
  -- a run that fails is returned as an error
  rcases check_cases stage cur countBytes runs fire hm hSync with
    ⟨e, -, hCheck⟩ | ⟨i, iter, unstable, s₁, hLoop, ⟨e, -, -, hCheck⟩ | ⟨-, hCheck⟩⟩
  · cases hCheck.symm.trans h
  · cases hCheck.symm.trans h
  · rw [hCheck] at h
    cases hReport : s₁.report m.numCoveredMapIndexes unstable fire with
    | ok out =>
      rw [hReport] at h
      obtain ⟨s', e | u⟩ := out <;> cases h
    | error panic =>
      obtain ⟨hSome, hZero, -⟩ := (report_panics_iff _ _ _ _).mp hReport
      refine ⟨hZero, ?_⟩
      -- the bound has grown only if an entry was found before
      rcases hLoop.extended with ⟨hNone, -⟩ | ⟨k, hDiffered, -⟩
      · exact absurd hNone hSome
      · exact ⟨k, hDiffered⟩

theorem not_asserts_of_coveredBefore (stage : StabilityCheckStage) (countBytes : List ε → Nat)
    (loaded : Except String (Option Program)) (fire : Except String Unit)
    (hm : s.feedback = some m) (hSync : m.InSync) (h : CoveredBefore stage loaded runs s m) :
    stage.perform countBytes loaded runs fire s ≠ .error filledCountZero := by
  intro hAsserts
  unfold perform at hAsserts
  cases hCurrent : s.current with
  | none =>
    rw [hCurrent] at hAsserts
    exact absurd (Except.error.inj hAsserts) (by decide)
  | some cur =>
    rw [hCurrent] at hAsserts
    dsimp only at hAsserts
    split at hAsserts
    · cases hAsserts
    · rename_i hNew
      rcases loaded with e | _ | program
      · cases hAsserts
      · cases hAsserts
      · -- the assertion contradicts each way in which it is covered
        obtain ⟨hZero, k, r, hr, hLt, hUnlike⟩ := found_of_check_asserts hm hSync hAsserts
        rcases h with hSeen | hNot | hCovered | hAlike
        · exact hNew (hSeen cur hCurrent)
        · exact hNot program rfl
        · exact hCovered hZero
        · rw [hAlike r k hr hLt] at hUnlike
          cases hUnlike

/-- Where every run of the target completes, the loop comes to its end, with what
was found within its first bound. -/
theorem asserts_of_not_coveredBefore (stage : StabilityCheckStage) (countBytes : List ε → Nat)
    (loaded : Except String (Option Program)) (fire : Except String Unit)
    (hRuns : ∀ n hadErrors e, (runs n).once hadErrors ≠ .error e)
    (hm : s.feedback = some m) (hSync : m.InSync) (h : ¬ CoveredBefore stage loaded runs s m) :
    stage.perform countBytes loaded runs fire s = .error filledCountZero := by
  unfold CoveredBefore at h
  simp only [not_or, not_forall, Classical.not_not, Bool.not_eq_false] at h
  obtain ⟨⟨cur, hCurrent, hNew⟩, ⟨program, rfl⟩, hZero, r, k, hr, hLt, hUnlike⟩ := h
  unfold perform
  rw [hCurrent]
  dsimp only
  rw [if_neg hNew]
  rcases check_cases stage cur countBytes runs fire hm hSync with
    ⟨e, hFails, -⟩ | ⟨i, iter, unstable, s₁, hLoop, ⟨e, -, ⟨hadErrors, hFails⟩, -⟩ | ⟨hEnd, hCheck⟩⟩
  · exact absurd hFails (hRuns 0 false e)
  · exact absurd hFails (hRuns i hadErrors e)
  · -- the run is one of those that have been made
    have hLe := hLoop.le_iter
    have hFound : k ∈ unstable := (hLoop.found k).mpr
      ⟨⟨r, hr, by omega, hUnlike⟩, by
        rw [entry_of_count_zero hSync hZero k]
        exact maxValue_ne_zero.symm⟩
    have hReport := (report_panics_iff (s := s₁) m.numCoveredMapIndexes unstable fire
      filledCountZero).mpr ⟨List.ne_nil_of_mem hFound, hZero, rfl⟩
    rw [hCheck, hReport]

/-- **When the assertion holds**: whatever the runs come to, it does where something
has been covered before or no rerun within the first bound differs; and for every
sequence of maps only there. -/
theorem filled_count_asserted_iff (stage : StabilityCheckStage) (countBytes : List ε → Nat)
    (loaded : Except String (Option Program)) (fire : Except String Unit)
    (s : StabilityState ε) (m : MapFeedbackMetadata ε) (hm : s.feedback = some m)
    (hSync : m.InSync) :
    (∀ runs : Nat → TargetRun ε, CoveredBefore stage loaded runs s m →
      stage.perform countBytes loaded runs fire s ≠ .error filledCountZero) ∧
    ∀ reruns : Nat → ExitKind × List ε,
      stage.perform countBytes loaded (fun n => .completed (reruns n).1 (reruns n).2) fire s ≠
          .error filledCountZero ↔
        CoveredBefore stage loaded (fun n => .completed (reruns n).1 (reruns n).2) s m := by
  refine ⟨fun runs h => not_asserts_of_coveredBefore stage countBytes loaded fire hm hSync h,
    fun reruns => ⟨fun hHolds => ?_,
      fun h => not_asserts_of_coveredBefore stage countBytes loaded fire hm hSync h⟩⟩
  -- runs with a map of their own never fail
  by_contra hNot
  exact hHolds (asserts_of_not_coveredBefore stage countBytes loaded fire
    (fun n hadErrors e hError => by cases hError) hm hSync hNot)

end StabilityCheckStage

end Assertion

namespace StabilityCheckStage

/-- A corpus entry for which nothing is covered yet. -/
def uncovered : StabilityState UInt8 where
  current := some 0
  feedback := some ⟨[], 0⟩
  unstable := none
  executions := 0
  events := []

theorem filled_count_asserted_iff_flaky :
    (⟨8, ∅⟩ : StabilityCheckStage).perform List.length (.ok (some singleSetup))
      (fun n => .completed .ok [n.toUInt8]) (.ok ()) flaky ≠ .error filledCountZero :=
  ((filled_count_asserted_iff ⟨8, ∅⟩ List.length (.ok (some singleSetup)) (.ok ()) flaky
    ⟨[1, 0], 1⟩ rfl (by decide)).2 fun n => (.ok, [n.toUInt8])).mpr
      (Or.inr (Or.inr (Or.inl (by decide))))

/-- With nothing covered, the first difference is an unstable entry out of none. -/
theorem uncovered_asserts :
    MapFeedbackMetadata.InSync (⟨[], 0⟩ : MapFeedbackMetadata UInt8) ∧
      (⟨8, ∅⟩ : StabilityCheckStage).perform List.length (.ok (some singleSetup))
        (fun n => .completed .ok [n.toUInt8]) (.ok ()) uncovered = .error filledCountZero := by
  refine ⟨by decide, ?_⟩
  refine asserts_of_not_coveredBefore ⟨8, ∅⟩ List.length _ _
    (fun n hadErrors e hError => by cases hError) rfl (by decide) fun hCovered => ?_
  rcases hCovered with hSeen | hNot | hCovered | hAlike
  · exact absurd (hSeen 0 rfl) (by decide)
  · exact hNot singleSetup rfl
  · exact hCovered rfl
  · exact absurd (hAlike 1 0 (by decide) (by decide)) (by decide)

end StabilityCheckStage

end Stratamoto
