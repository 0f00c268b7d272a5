import Stratamoto.Library.Feedbacks
import Stratamoto.Library.Machines
import Stratamoto.Fuzzer.Causes
import Stratamoto.Fuzzer.Timeouts

/-!
# Stratamoto — how findings are filed

The objective that `instance.rs` puts together, and the feedbacks of `feedbacks.rs` in
it. An evaluation that is a finding is stored as a testcase, whose file is named by the
cause that the output reports, or as a hang; and a count for each name is sent to the
monitor. Whether the coverage is new comes from outside, and so does what connects
feedbacks, the regular expression and how an input's file is called.

The feedback that captures timeouts notes that one was reported, and takes that back
when it is next asked. It is not asked about a crash.

* `objective` — the feedbacks as they are put together;
* `Rating.evaluate` — an evaluation;
* `AfterHang`, `FiledAs` — what a finding is filed as;
* `evaluate_eq`, `stored_eq` — what an evaluation does, and how it is stored;
* `Rated`, `rated_step` — what every turn keeps;
* `findings_are_filed` — of every run, what is stored, how it is filed and counted.
-/

namespace Stratamoto

open Feedbacks Machines

/-! ## The feedbacks -/

/-- An evaluation, as the observers have it. -/
structure Observed where
  input : Program
  exitKind : ExitKind
  output : Option (List UInt8)
  /-- The coverage is new among the findings. -/
  novel : Bool
  deriving DecidableEq

/-- Where a testcase is stored. -/
structure StoredAt where
  filename : Option String
  /-- The file in the directory of the findings. -/
  filePath : Option String
  deriving DecidableEq, Repr

/-- What the feedbacks of a client know, and what the monitor was last told of each name. -/
structure Rating where
  campaign : Campaign
  timeoutFound : Nat
  counts : String → Option Nat
  stats : String → Nat
  solutions : List (Observed × StoredAt)

section Feedbacks

variable (E : Regex.Engine UInt8) (generateName : Program → String)

/-- File a testcase under a name. -/
def setFilename (name : String) (input : Program) (t : StoredAt) : StoredAt :=
  { t with filePath := some (name ++ "-" ++ t.filename.getD (generateName input)) }

def captureTimeoutFeedback : Feedback Rating Observed StoredAt where
  isInteresting s x :=
    ({ s with campaign := (s.campaign.isInteresting x.input x.exitKind).1 },
      (s.campaign.isInteresting x.input x.exitKind).2)
  appendMetadata s x t :=
    if s.campaign.triggered then
      ({ s with
        timeoutFound := s.timeoutFound + 1
        stats := fun name => if name = "timeout" then s.timeoutFound + 1 else s.stats name },
        setFilename generateName "timeout" x.input t)
    else (s, t)

/-- The cause that an output reports, if there is an output and it reports one. -/
def Observed.cause (x : Observed) : Option String := x.output.bind (causeOf E)

/-- One more of a cause. -/
def Rating.counted (s : Rating) (cause : String) : String → Option Nat := fun name =>
  if name = cause then some ((s.counts cause).getD 0 + 1) else s.counts name

/-- It is never of interest by itself. All counts are sent again. -/
def crashCauseFeedback : Feedback Rating Observed StoredAt where
  isInteresting s _ := (s, false)
  appendMetadata s x t :=
    match x.cause E with
    | none => (s, t)
    | some cause =>
      ({ s with
        counts := s.counted cause
        stats := fun name => (s.counted cause name).getD (s.stats name) },
        setFilename generateName cause x.input t)

variable (C : Connectives Rating Observed StoredAt) (ignoreHangs : Bool)

/-- Whether an input is a solution or not. -/
def objective : Feedback Rating Observed StoredAt :=
  C.and
    (C.orFast
      (C.or (.pure fun x => x.exitKind == .crash) (crashCauseFeedback E generateName))
      (C.and (.pure fun _ => !ignoreHangs) (captureTimeoutFeedback generateName)))
    (.pure Observed.novel)

/-! ## Evaluations -/

/-- Evaluate an input, and store it if it is a solution. -/
def Rating.evaluate (s : Rating) (x : Observed) : Rating :=
  let (s, solution) := (objective E generateName C ignoreHangs).isInteresting s x
  if solution then
    let (s, t) := (objective E generateName C ignoreHangs).appendMetadata s x ⟨none, none⟩
    { s with solutions := s.solutions ++ [(x, t)] }
  else s

/-- What happens next: an evaluation, or capturing timeouts is turned on or off. -/
inductive RatingTurn where
  | evaluate (x : Observed)
  | capture (enabled : Bool)

def Rating.step (s : Rating) : RatingTurn → Option Rating
  | .evaluate x => some (s.evaluate E generateName C ignoreHangs x)
  | .capture enabled => some { s with campaign := { s.campaign with captureTimeouts := enabled } }

end Feedbacks

/-- Nothing was found, and timeouts are captured. -/
def Rating.new (timeout : Nat) : Rating where
  campaign := ⟨timeout, true, [], false, []⟩
  timeoutFound := 0
  counts := fun _ => none
  stats := fun _ => 0
  solutions := []

/-! ## What a finding is filed as -/

/-- Timeouts are captured after the turns. -/
def capturing (turns : List RatingTurn) : Bool :=
  (turns.filterMap fun
    | .capture enabled => some enabled
    | .evaluate _ => none).getLast?.getD true

/-- Of the evaluations, the last that was no crash was a hang: a timeout that was not captured. -/
def AfterHang (turns : List RatingTurn) : Prop :=
  ∃ front x back, turns = front ++ .evaluate x :: back ∧ x.exitKind = .timeout ∧
    capturing front = false ∧ ∀ y, .evaluate y ∈ back → y.exitKind = .crash

/-- An evaluation after the turns is a finding. -/
structure IsFinding (ignoreHangs : Bool) (turns : List RatingTurn) (x : Observed) : Prop where
  novel : x.novel = true
  kind : x.exitKind = .crash ∨
    x.exitKind = .timeout ∧ capturing turns = false ∧ ignoreHangs = false

section Filing

variable (E : Regex.Engine UInt8) (generateName : Program → String)

/-- The file of a finding: that of a hang, where the turns end after one, or else that of the
cause its output reports. -/
inductive FiledAs (turns : List RatingTurn) (x : Observed) : Option String → Prop
  | hang : AfterHang turns → FiledAs turns x (some ("timeout-" ++ generateName x.input))
  | cause {cause : String} : ¬ AfterHang turns → x.cause E = some cause →
    FiledAs turns x (some (cause ++ "-" ++ generateName x.input))
  | unnamed : ¬ AfterHang turns → x.cause E = none → FiledAs turns x none

/-- What is stored after the turns. -/
inductive Findings (ignoreHangs : Bool) : List RatingTurn → List (Observed × StoredAt) → Prop
  | nil : Findings ignoreHangs [] []
  | capture {turns : List RatingTurn} {found : List (Observed × StoredAt)} (enabled : Bool) :
    Findings ignoreHangs turns found → Findings ignoreHangs (turns ++ [.capture enabled]) found
  | passed {turns : List RatingTurn} {found : List (Observed × StoredAt)} {x : Observed} :
    Findings ignoreHangs turns found → ¬ IsFinding ignoreHangs turns x →
    Findings ignoreHangs (turns ++ [.evaluate x]) found
  | found {turns : List RatingTurn} {found : List (Observed × StoredAt)} {x : Observed}
      {path : Option String} : Findings ignoreHangs turns found → IsFinding ignoreHangs turns x →
    FiledAs E generateName (turns ++ [.evaluate x]) x path →
    Findings ignoreHangs (turns ++ [.evaluate x]) (found ++ [(x, ⟨none, path⟩)])

end Filing

/-! ## Hangs -/

theorem capturing_capture (turns : List RatingTurn) (enabled : Bool) :
    capturing (turns ++ [.capture enabled]) = enabled := by
  simp [capturing, List.filterMap_append]

theorem capturing_evaluate (turns : List RatingTurn) (x : Observed) :
    capturing (turns ++ [.evaluate x]) = capturing turns := by
  simp [capturing, List.filterMap_append]

/-- Whatever is no evaluation does not matter. -/
theorem afterHang_capture (turns : List RatingTurn) (enabled : Bool) :
    AfterHang (turns ++ [.capture enabled]) ↔ AfterHang turns := by
  constructor
  · rintro ⟨front, x, back, hTurns, hKind, hOff, hCrashes⟩
    -- the last turn is behind the hang
    rcases List.eq_nil_or_concat back with rfl | ⟨back, last, rfl⟩
    · have hLast := (List.append_inj' hTurns rfl).2
      cases hLast
    · rw [List.concat_eq_append, ← List.cons_append, ← List.append_assoc] at hTurns
      obtain ⟨rfl, -⟩ := List.append_inj' hTurns rfl
      refine ⟨front, x, back, rfl, hKind, hOff, fun y hy => hCrashes y ?_⟩
      rw [List.concat_eq_append]
      exact List.mem_append_left _ hy
  · rintro ⟨front, x, back, rfl, hKind, hOff, hCrashes⟩
    refine ⟨front, x, back ++ [.capture enabled], by simp, hKind, hOff, fun y hy => ?_⟩
    rcases List.mem_append.mp hy with hOld | hNew
    · exact hCrashes y hOld
    · cases List.mem_singleton.mp hNew

/-- A crash leaves a hang the last evaluation that was none. -/
theorem afterHang_evaluate (turns : List RatingTurn) (x : Observed) :
    AfterHang (turns ++ [.evaluate x]) ↔
      (x.exitKind = .crash ∧ AfterHang turns) ∨
        (x.exitKind = .timeout ∧ capturing turns = false) := by
  constructor
  · rintro ⟨front, y, back, hTurns, hKind, hOff, hCrashes⟩
    rcases List.eq_nil_or_concat back with rfl | ⟨back, last, rfl⟩
    · obtain ⟨rfl, hLast⟩ := List.append_inj' hTurns rfl
      obtain rfl := RatingTurn.evaluate.inj (List.cons.inj hLast).1
      exact Or.inr ⟨hKind, hOff⟩
    · rw [List.concat_eq_append] at hTurns hCrashes
      rw [← List.cons_append, ← List.append_assoc] at hTurns
      obtain ⟨rfl, hLast⟩ := List.append_inj' hTurns rfl
      obtain rfl := (List.cons.inj hLast).1
      refine Or.inl ⟨hCrashes x (List.mem_append_right _ List.mem_cons_self), ?_⟩
      exact ⟨front, y, back, rfl, hKind, hOff, fun z hz => hCrashes z (List.mem_append_left _ hz)⟩
  · rintro (⟨hCrash, front, y, back, rfl, hKind, hOff, hCrashes⟩ | ⟨hKind, hOff⟩)
    · refine ⟨front, y, back ++ [.evaluate x], by simp, hKind, hOff, fun z hz => ?_⟩
      rcases List.mem_append.mp hz with hOld | hNew
      · exact hCrashes z hOld
      · obtain rfl := RatingTurn.evaluate.inj (List.mem_singleton.mp hNew)
        exact hCrash
    · exact ⟨turns, x, [], rfl, hKind, hOff, fun _ hy => absurd hy List.not_mem_nil⟩

/-! ## What an evaluation does -/

section Evaluating

variable {E : Regex.Engine UInt8} {generateName : Program → String}
  {C : Connectives Rating Observed StoredAt} {ignoreHangs : Bool} {s : Rating} {x : Observed}

/-- A captured timeout is not reported. -/
theorem isInteresting_snd (w : Campaign) (input : Program) (exitKind : ExitKind) :
    (w.isInteresting input exitKind).2 = (exitKind == .timeout && !w.captureTimeouts) := by
  unfold Campaign.isInteresting
  cases hCapture : w.captureTimeouts <;> cases exitKind <;> simp

/-- It is noted that a timeout was reported, and the setting stays. -/
theorem isInteresting_fst (w : Campaign) (input : Program) (exitKind : ExitKind) :
    (w.isInteresting input exitKind).1.captureTimeouts = w.captureTimeouts ∧
      (w.isInteresting input exitKind).1.triggered =
        (exitKind == .timeout && !w.captureTimeouts) := by
  unfold Campaign.isInteresting
  cases hCapture : w.captureTimeouts <;> cases exitKind <;> simp

/-- The state once the objective was asked about an evaluation: a crash is not put to the
feedback that captures timeouts. -/
def Rating.asked (s : Rating) (x : Observed) : Rating :=
  if x.exitKind = .crash then s
  else { s with campaign := (s.campaign.isInteresting x.input x.exitKind).1 }

/-- The state once an evaluation is stored. -/
def Rating.stored (E : Regex.Engine UInt8) (generateName : Program → String) (s : Rating)
    (x : Observed) : Rating :=
  let (s, t) := (crashCauseFeedback E generateName).appendBoth
    (captureTimeoutFeedback generateName) s x ⟨none, none⟩
  { s with solutions := s.solutions ++ [(x, t)] }

/-- What the objective says. -/
theorem objective_isInteresting (hC : C.Documented) :
    (objective E generateName C ignoreHangs).isInteresting s x =
      (s.asked x, (x.exitKind == .crash ||
        (!ignoreHangs && (x.exitKind == .timeout && !s.campaign.captureTimeouts))) && x.novel) := by
  unfold objective Rating.asked
  rw [hC.and_pure]
  have hCrash : (C.or (.pure fun x => x.exitKind == .crash)
      (crashCauseFeedback E generateName)).isInteresting s x = (s, x.exitKind == .crash) := by
    rw [hC.or]
    exact Prod.ext rfl (Bool.or_false _)
  by_cases hKind : x.exitKind = .crash
  · rw [hC.orFast_of_first (by rw [hCrash, hKind]; rfl), hCrash, if_pos hKind, hKind]
    rfl
  · have hNot : (x.exitKind == ExitKind.crash) = false := beq_false_of_ne hKind
    rw [hC.orFast_of_not (by rw [hCrash, hNot]; exact Bool.false_ne_true), hCrash, hC.pure_and,
      if_neg hKind, hNot, Bool.false_or]
    show (({ s with campaign := (s.campaign.isInteresting x.input x.exitKind).1 } : Rating),
      (!ignoreHangs && (s.campaign.isInteresting x.input x.exitKind).2) && x.novel) = _
    rw [isInteresting_snd]

theorem objective_appendMetadata (hC : C.Documented) (t : StoredAt) :
    (objective E generateName C ignoreHangs).appendMetadata s x t =
      (crashCauseFeedback E generateName).appendBoth (captureTimeoutFeedback generateName)
        s x t := by
  unfold objective Feedback.appendBoth
  rw [hC.append_and_pure, hC.append_orFast, Feedback.appendBoth, hC.append_pure_or,
    hC.append_pure_and]

/-- **What an evaluation does.** -/
theorem evaluate_eq (hC : C.Documented) : s.evaluate E generateName C ignoreHangs x =
    if (x.exitKind == .crash ||
        (!ignoreHangs && (x.exitKind == .timeout && !s.campaign.captureTimeouts))) && x.novel then
      (s.asked x).stored E generateName x
    else s.asked x := by
  simp only [Rating.evaluate, objective_isInteresting hC, objective_appendMetadata hC,
    Rating.stored]

/-- Asking changes what the feedback that captures timeouts knows, and nothing else. -/
theorem asked_fields (s : Rating) (x : Observed) :
    (s.asked x).campaign.captureTimeouts = s.campaign.captureTimeouts ∧
    ((s.asked x).campaign.triggered = true ↔
      (x.exitKind = .crash ∧ s.campaign.triggered = true) ∨
        (x.exitKind = .timeout ∧ s.campaign.captureTimeouts = false)) := by
  unfold Rating.asked
  by_cases hKind : x.exitKind = .crash
  · rw [if_pos hKind]
    refine ⟨rfl, ⟨fun hNoted => Or.inl ⟨hKind, hNoted⟩, ?_⟩⟩
    rintro (⟨-, hNoted⟩ | ⟨hTimeout, -⟩)
    · exact hNoted
    · cases hKind.symm.trans hTimeout
  · rw [if_neg hKind]
    obtain ⟨hCapture, hNoted⟩ := isInteresting_fst s.campaign x.input x.exitKind
    refine ⟨hCapture, ?_⟩
    rw [hNoted, Bool.and_eq_true, beq_iff_eq, Bool.not_eq_true']
    exact ⟨Or.inr, fun h => h.resolve_left fun hBoth => hKind hBoth.1⟩

/-! ## Counts -/

/-- How many of the stored testcases report a cause. -/
def tally (E : Regex.Engine UInt8) (cause : String) (solutions : List (Observed × StoredAt)) :
    Nat :=
  solutions.countP fun y => y.1.cause E = some cause

/-- How many of them are filed as hangs. -/
def hangTally (generateName : Program → String) (solutions : List (Observed × StoredAt)) : Nat :=
  solutions.countP fun y => y.2.filePath = some ("timeout-" ++ generateName y.1.input)

/-- The counts are those of the stored testcases, and the monitor was told of them. -/
structure Counted (E : Regex.Engine UInt8) (generateName : Program → String) (s : Rating) :
    Prop where
  counts : ∀ cause, (s.counts cause).getD 0 = tally E cause s.solutions
  stats : ∀ cause, cause ≠ "timeout" → s.stats cause = tally E cause s.solutions
  -- an oracle might be called by the name that hangs are filed under
  hangs : tally E "timeout" s.solutions = 0 → s.timeoutFound = hangTally generateName s.solutions ∧
    s.stats "timeout" = hangTally generateName s.solutions ∧ s.counts "timeout" = none

theorem tally_snoc (cause : String) (solutions : List (Observed × StoredAt))
    (y : Observed × StoredAt) :
    tally E cause (solutions ++ [y]) =
      tally E cause solutions + if y.1.cause E = some cause then 1 else 0 := by
  simp [tally, List.countP_append, List.countP_cons]

theorem hangTally_snoc (solutions : List (Observed × StoredAt)) (y : Observed × StoredAt) :
    hangTally generateName (solutions ++ [y]) = hangTally generateName solutions +
      if y.2.filePath = some ("timeout-" ++ generateName y.1.input) then 1 else 0 := by
  simp [hangTally, List.countP_append, List.countP_cons]

/-- What is filed under a cause is not filed as a hang. -/
theorem filePath_ne_hang {cause : String} (h : cause ≠ "timeout") (base : String) :
    cause ++ "-" ++ base ≠ "timeout-" ++ base := by
  intro hEq
  have hChars := congrArg String.toList hEq
  have hDash : "timeout-" = "timeout" ++ "-" := rfl
  rw [hDash, String.toList_append, String.toList_append, String.toList_append,
    String.toList_append] at hChars
  exact h (String.toList_injective (List.append_cancel_right (List.append_cancel_right hChars)))

/-- How an evaluation is stored: as a hang if one was noted, or else under its cause. The
count of hangs is sent last. -/
theorem stored_eq (s : Rating) (x : Observed) :
    s.stored E generateName x =
      { s with
        timeoutFound := s.timeoutFound + if s.campaign.triggered then 1 else 0
        counts := (x.cause E).elim s.counts s.counted
        stats := fun name =>
          if s.campaign.triggered = true ∧ name = "timeout" then s.timeoutFound + 1
          else (x.cause E).elim (s.stats name) fun cause =>
            (s.counted cause name).getD (s.stats name)
        solutions := s.solutions ++ [(x, ⟨none,
          if s.campaign.triggered then some ("timeout-" ++ generateName x.input)
          else (x.cause E).map (· ++ "-" ++ generateName x.input)⟩)] } := by
  unfold Rating.stored Feedback.appendBoth crashCauseFeedback captureTimeoutFeedback
  cases hCause : x.cause E <;> cases hNoted : s.campaign.triggered <;>
    simp [hCause, hNoted, setFilename]

theorem stored_solutions (s : Rating) (x : Observed) :
    (s.stored E generateName x).solutions = s.solutions ++ [(x, ⟨none,
      if s.campaign.triggered then some ("timeout-" ++ generateName x.input)
      else (x.cause E).map (· ++ "-" ++ generateName x.input)⟩)] := by
  rw [stored_eq]

theorem stored_campaign (s : Rating) (x : Observed) :
    (s.stored E generateName x).campaign = s.campaign := by
  rw [stored_eq]

theorem stored_timeoutFound (s : Rating) (x : Observed) :
    (s.stored E generateName x).timeoutFound =
      s.timeoutFound + if s.campaign.triggered then 1 else 0 := by
  rw [stored_eq]

theorem stored_counts (s : Rating) (x : Observed) (cause : String) :
    (s.stored E generateName x).counts cause =
      if x.cause E = some cause then some ((s.counts cause).getD 0 + 1) else s.counts cause := by
  rw [stored_eq]
  cases hCause : x.cause E with
  | none => rfl
  | some found =>
    by_cases hName : cause = found
    · subst hName
      simp [Rating.counted]
    · have hOther : ¬ some found = some cause := fun hEq => hName (Option.some.inj hEq).symm
      simp [Rating.counted, hName, hOther]

theorem stored_stats (s : Rating) (x : Observed) (name : String) :
    (s.stored E generateName x).stats name =
      if s.campaign.triggered = true ∧ name = "timeout" then s.timeoutFound + 1
      else if x.cause E = none then s.stats name
      else ((s.stored E generateName x).counts name).getD (s.stats name) := by
  rw [stored_eq]
  cases x.cause E <;> simp

/-- One more testcase is stored and counted. -/
theorem Counted.stored (h : Counted E generateName s) (x : Observed) :
    Counted E generateName (s.stored E generateName x) := by
  refine ⟨fun cause => ?_, fun cause hName => ?_, fun hNone => ?_⟩
  · rw [stored_counts, stored_solutions, tally_snoc, ← h.counts]
    by_cases hHere : x.cause E = some cause
    · rw [if_pos hHere, if_pos hHere, Option.getD_some]
    · rw [if_neg hHere, if_neg hHere, Nat.add_zero]
  · have hNot : ¬ (s.campaign.triggered = true ∧ cause = "timeout") := fun hBoth => hName hBoth.2
    rw [stored_stats, if_neg hNot, stored_solutions, tally_snoc, stored_counts]
    by_cases hHere : x.cause E = some cause
    · have hSome : x.cause E ≠ none := by
        rw [hHere]
        exact Option.some_ne_none _
      rw [if_neg hSome, if_pos hHere, if_pos hHere, Option.getD_some, h.counts]
    · rw [if_neg hHere, if_neg hHere, Nat.add_zero, ← h.stats cause hName]
      by_cases hCause : x.cause E = none
      · rw [if_pos hCause]
      · -- what was counted before is sent once more
        rw [if_neg hCause]
        cases hCount : s.counts cause with
        | none => rfl
        | some n =>
          have hTally := h.counts cause
          rw [hCount, Option.getD_some] at hTally
          rw [Option.getD_some, hTally, h.stats cause hName]
  · rw [stored_solutions, tally_snoc] at hNone
    obtain ⟨hBefore, hHere⟩ := Nat.add_eq_zero_iff.mp hNone
    have hOther : ¬ x.cause E = some "timeout" := fun hEq => by
      rw [if_pos hEq] at hHere
      cases hHere
    obtain ⟨hFound, hStats, hCounts⟩ := h.hangs hBefore
    have hUncounted : (s.stored E generateName x).counts "timeout" = none := by
      rw [stored_counts, if_neg hOther, hCounts]
    -- its file is that of a hang if and only if a hang was noted
    have hFile : ((if s.campaign.triggered then some ("timeout-" ++ generateName x.input)
        else (x.cause E).map (· ++ "-" ++ generateName x.input)) =
          some ("timeout-" ++ generateName x.input)) ↔ s.campaign.triggered = true := by
      by_cases hNoted : s.campaign.triggered = true
      · rw [if_pos hNoted]
        exact iff_of_true rfl hNoted
      · rw [if_neg hNoted]
        refine iff_of_false (fun hEq => ?_) hNoted
        obtain ⟨cause, hCause, hPath⟩ := Option.map_eq_some_iff.mp hEq
        exact filePath_ne_hang (fun hName => hOther (hName ▸ hCause)) _ hPath
    have hMore : hangTally generateName (s.stored E generateName x).solutions =
        hangTally generateName s.solutions + if s.campaign.triggered then 1 else 0 := by
      rw [stored_solutions, hangTally_snoc]
      simp only [hFile]
    refine ⟨by rw [stored_timeoutFound, hMore, hFound], ?_, hUncounted⟩
    rw [stored_stats, hMore, hUncounted, Option.getD_none, ite_self, hStats, hFound]
    by_cases hNoted : s.campaign.triggered = true
    · rw [if_pos ⟨hNoted, rfl⟩, if_pos hNoted]
    · rw [if_neg fun hBoth => hNoted hBoth.1, if_neg hNoted, Nat.add_zero]

theorem Counted.asked (h : Counted E generateName s) (x : Observed) :
    Counted E generateName (s.asked x) := by
  unfold Rating.asked
  split
  · exact h
  · exact ⟨h.counts, h.stats, h.hangs⟩

theorem asked_solutions (s : Rating) (x : Observed) : (s.asked x).solutions = s.solutions := by
  unfold Rating.asked
  split <;> rfl

end Evaluating

/-! ## Runs -/

section Runs

variable {E : Regex.Engine UInt8} {generateName : Program → String}
  {C : Connectives Rating Observed StoredAt} {ignoreHangs : Bool}

/-- What holds after the turns. -/
structure Rated (E : Regex.Engine UInt8) (generateName : Program → String) (ignoreHangs : Bool)
    (turns : List RatingTurn) (s : Rating) : Prop where
  capture : s.campaign.captureTimeouts = capturing turns
  noted : s.campaign.triggered = true ↔ AfterHang turns
  findings : Findings E generateName ignoreHangs turns s.solutions
  counted : Counted E generateName s

/-- **What every turn keeps.** -/
theorem rated_step (hC : C.Documented) {turns : List RatingTurn} {s s' : Rating}
    (h : Rated E generateName ignoreHangs turns s) (turn : RatingTurn)
    (hStep : s.step E generateName C ignoreHangs turn = some s') :
    Rated E generateName ignoreHangs (turns ++ [turn]) s' := by
  cases turn with
  | capture enabled =>
    obtain rfl := Option.some.inj hStep
    exact ⟨(capturing_capture turns enabled).symm,
      h.noted.trans (afterHang_capture turns enabled).symm,
      .capture enabled h.findings, ⟨h.counted.counts, h.counted.stats, h.counted.hangs⟩⟩
  | evaluate x =>
    obtain rfl := Option.some.inj hStep
    obtain ⟨hCapture, hNoted⟩ := asked_fields s x
    replace hCapture : (s.asked x).campaign.captureTimeouts =
        capturing (turns ++ [.evaluate x]) := by
      rw [hCapture, h.capture, capturing_evaluate]
    replace hNoted : (s.asked x).campaign.triggered = true ↔
        AfterHang (turns ++ [.evaluate x]) := by
      rw [hNoted, afterHang_evaluate, h.noted, h.capture]
    have hFinding : ((x.exitKind == .crash || (!ignoreHangs &&
        (x.exitKind == .timeout && !s.campaign.captureTimeouts))) && x.novel) = true ↔
          IsFinding ignoreHangs turns x := by
      rw [h.capture]
      simp only [Bool.and_eq_true, Bool.or_eq_true, beq_iff_eq, Bool.not_eq_true']
      constructor
      · rintro ⟨hCrash | ⟨hIgnored, hTimeout, hOff⟩, hNovel⟩
        · exact ⟨hNovel, Or.inl hCrash⟩
        · exact ⟨hNovel, Or.inr ⟨hTimeout, hOff, hIgnored⟩⟩
      · rintro ⟨hNovel, hCrash | ⟨hTimeout, hOff, hIgnored⟩⟩
        · exact ⟨Or.inl hCrash, hNovel⟩
        · exact ⟨Or.inr ⟨hIgnored, hTimeout, hOff⟩, hNovel⟩
    rw [evaluate_eq hC]
    split
    · rename_i hStored
      refine ⟨by rw [stored_campaign, hCapture], by rw [stored_campaign, hNoted], ?_,
        (h.counted.asked x).stored x⟩
      rw [stored_solutions, asked_solutions]
      refine .found h.findings (hFinding.mp hStored) ?_
      by_cases hHang : (s.asked x).campaign.triggered = true
      · rw [if_pos hHang]
        exact .hang (hNoted.mp hHang)
      · rw [if_neg hHang]
        cases hCause : x.cause E with
        | none => exact .unnamed (fun hAfter => hHang (hNoted.mpr hAfter)) hCause
        | some cause => exact .cause (fun hAfter => hHang (hNoted.mpr hAfter)) hCause
    · rename_i hPassed
      refine ⟨hCapture, hNoted, ?_, h.counted.asked x⟩
      rw [asked_solutions]
      exact .passed h.findings fun hIs => hPassed (hFinding.mpr hIs)

theorem rated_new (E : Regex.Engine UInt8) (generateName : Program → String) (ignoreHangs : Bool)
    (timeout : Nat) : Rated E generateName ignoreHangs [] (.new timeout) := by
  refine ⟨rfl, ⟨(fun hNoted => nomatch hNoted), ?_⟩, .nil, fun _ => rfl, fun _ _ => rfl,
    fun _ => ⟨rfl, rfl, rfl⟩⟩
  rintro ⟨front, x, back, hTurns, -⟩
  simp at hTurns

end Runs

/-- **How findings are filed.** In any run of evaluations, with capturing timeouts turned on
and off at any time, what is stored are the crashes and, unless hangs are ignored, the
timeouts that were not captured, of those whose coverage is new. One that comes after a
hang is filed as a hang: the hang itself, and each crash that follows it before anything
else was evaluated, whatever it reports. Every other one is filed by the cause it reports,
if it reports one. The monitor was told of each cause how many of the stored testcases
report it, and how many are filed as hangs, if hangs are no cause. -/
theorem findings_are_filed (E : Regex.Engine UInt8) (generateName : Program → String)
    {C : Connectives Rating Observed StoredAt} (hC : C.Documented) (ignoreHangs : Bool)
    (timeout : Nat) {turns : List RatingTurn} {s : Rating}
    (hRun : exec (Rating.step E generateName C ignoreHangs) (.new timeout) turns = some s) :
    Findings E generateName ignoreHangs turns s.solutions ∧
    (∀ cause, cause ≠ "timeout" → s.stats cause = tally E cause s.solutions) ∧
    (tally E "timeout" s.solutions = 0 →
      s.stats "timeout" = hangTally generateName s.solutions) := by
  have hRated : Rated E generateName ignoreHangs turns s :=
    exec_trace (rated_new E generateName ignoreHangs timeout)
      (fun _ _ turn _ _ hBefore hStep => rated_step hC hBefore turn hStep) hRun
  exact ⟨hRated.findings, hRated.counted.stats, fun hNone => (hRated.counted.hangs hNone).2.1⟩

/-- Capturing is off, and a hang is followed by a crash that is reported. -/
def crashAfterHang : List RatingTurn :=
  [.capture false, .evaluate ⟨singleSetup, .timeout, some [], true⟩,
    .evaluate ⟨singleSetup, .crash, some (asBytes "FAIL: CrashOracle: gone"), true⟩]

/-- The crash is filed as a hang, and counted as both. -/
theorem findings_are_filed_crashAfterHang : ∃ s : Rating,
    exec (Rating.step Regex.backtracking (fun _ => "setup") .standard false) (.new 1)
      crashAfterHang = some s ∧
    s.solutions.map (·.2.filePath) = [some "timeout-setup", some "timeout-setup"] ∧
    Findings Regex.backtracking (fun _ => "setup") false crashAfterHang s.solutions ∧
    s.stats "crash" = tally Regex.backtracking "crash" s.solutions := by
  obtain ⟨s, hRun, hFiles⟩ : ∃ s : Rating,
      exec (Rating.step Regex.backtracking (fun _ => "setup") .standard false) (.new 1)
        crashAfterHang = some s ∧
      s.solutions.map (·.2.filePath) = [some "timeout-setup", some "timeout-setup"] :=
    ⟨_, rfl, by decide⟩
  obtain ⟨hFindings, hStats, -⟩ := findings_are_filed Regex.backtracking (fun _ => "setup")
    Connectives.standard_documented false 1 hRun
  exact ⟨s, hRun, hFiles, hFindings, hStats "crash" (by decide)⟩

end Stratamoto
