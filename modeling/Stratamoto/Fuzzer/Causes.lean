import Stratamoto.Library.Regex
import Stratamoto.Harness.Oracle

/-!
# Stratamoto — what a finding is filed by

`feedbacks.rs`: a scenario reports a finding as `FAIL: <oracle>: <detail>` and a
run it could not complete as `INFRASTRUCTURE: <detail>`, on the stream that also
carries the log and, in the detail, text the server chose. `causeOf` searches the
stream for the first report and reads the oracle's name from it. The `regex` crate
is any engine that matches leftmost first, as its documentation says of it.

## Results

* `causeOf_reports`      — a report is filed by the oracle that made it, whatever
  the detail says and whatever lines without a report come before.
* `causeOf_eq_none_iff`  — nothing is filed if and only if nothing is reported.
* `filed_by_evaluate`    — what a scenario reports is filed by the first of its
  oracles that failed.
-/

namespace Stratamoto

/-! ## Bytes of a text -/

def asBytes (s : String) : List UInt8 := s.toList.flatMap String.utf8EncodeChar

/-- The class `[A-Za-z]`. -/
def asciiLetter (b : UInt8) : Bool := (0x41 ≤ b && b ≤ 0x5A) || (0x61 ≤ b && b ≤ 0x7A)

def toAsciiLowercase (s : String) : String := String.ofList (s.toList.map Char.toLower)

def stripSuffix (s suffix : String) : Option String :=
  if suffix.toList <:+ s.toList then
    some (String.ofList (s.toList.take (s.toList.length - suffix.toList.length)))
  else none

def newline : UInt8 := 0x0A

/-! ## The cause of a report -/

/-- The pattern `(FAIL|INFRASTRUCTURE): ([A-Za-z]+)`. -/
def reportPattern : Regex UInt8 :=
  .seq (.group 1 (.alt (.word (asBytes "FAIL")) (.word (asBytes "INFRASTRUCTURE"))))
    (.seq (.word (asBytes ": ")) (.group 2 (.plus (.symbol asciiLetter))))

/-- The cause a scenario's output reports, if it reports one. -/
def causeOf (E : Regex.Engine UInt8) (output : List UInt8) : Option String := do
  let caps ← E.captures reportPattern output
  let kind ← caps.get 1
  if kind = asBytes "INFRASTRUCTURE" then
    return "infrastructure"
  let oracle := toAsciiLowercase (fromUtf8Lossy (← caps.get 2))
  return ((stripSuffix oracle "oracle").filter (· ≠ "")).getD "other"

/-! ## What a scenario reports -/

inductive ScenarioResult where
  | ok
  | skip
  | fail (e : String)
  | infrastructure (e : String)
  deriving DecidableEq, Repr

/-- What the runner is told of a result. -/
def ScenarioResult.report : ScenarioResult → Option String
  | .ok | .skip => none
  | .fail e => some ("FAIL: " ++ e)
  | .infrastructure e => some ("INFRASTRUCTURE: " ++ e)

def HarnessIntegrityOracle.name : String := "HarnessIntegrityOracle"

def SetupConnectionOracle.name : String := "SetupConnectionOracle"

def CrashOracle.name : String := "CrashOracle"

/-- The oracles in order: the harness's own integrity, conformance, liveness. -/
def evaluate (debug : DebugTexts) (D : Deployment) (program : CompiledProgram)
    (execution : Execution) (history : History) : ScenarioResult :=
  match HarnessIntegrityOracle.evaluate program execution with
  | .fail e => .infrastructure (HarnessIntegrityOracle.name ++ ": " ++ e.message debug)
  | .pass =>
    match SetupConnectionOracle.evaluate D program execution with
    | .fail e => .fail (SetupConnectionOracle.name ++ ": " ++ e.message debug)
    | .pass =>
      match CrashOracle.evaluate D history with
      | .fail e => .fail (CrashOracle.name ++ ": " ++ e.message debug)
      | .pass => .ok

/-! ## Texts of ASCII letters -/

theorem asBytes_append (s t : String) : asBytes (s ++ t) = asBytes s ++ asBytes t := by
  simp only [asBytes, String.toList_append, List.flatMap_append]

/-- The letters by their code points. -/
theorem isAlpha_iff {c : Char} : c.isAlpha = true ↔
    ('A'.val ≤ c.val ∧ c.val ≤ 'Z'.val) ∨ ('a'.val ≤ c.val ∧ c.val ≤ 'z'.val) := by
  have hRanges : c.isAlpha = (decide ('A'.val ≤ c.val ∧ c.val ≤ 'Z'.val) ||
      (decide ('a'.val ≤ c.val) && decide (c.val ≤ 'z'.val))) := rfl
  rw [hRanges, Bool.or_eq_true, Bool.and_eq_true, decide_eq_true_eq, decide_eq_true_eq,
    decide_eq_true_eq]

theorem val_le_of_isAlpha {c : Char} (h : c.isAlpha = true) : c.val ≤ 127 := by
  rcases isAlpha_iff.mp h with ⟨_, h⟩ | ⟨_, h⟩
  · exact UInt32.le_trans h (by decide)
  · exact UInt32.le_trans h (by decide)

theorem toNat_toUInt8 {c : Char} (h : c.val ≤ 127) : c.val.toUInt8.toNat = c.val.toNat := by
  rw [UInt32.toNat_toUInt8]
  exact Nat.mod_eq_of_lt (Nat.lt_of_le_of_lt (UInt32.le_iff_toNat_le.mp h) (by decide))

theorem asBytes_eq_map {s : String} (h : ∀ c ∈ s.toList, c.val ≤ 127) :
    asBytes s = s.toList.map fun c => c.val.toUInt8 := by
  rw [asBytes, List.map_eq_flatMap]
  exact List.flatMap_congr fun c hc =>
    String.utf8EncodeChar_eq_singleton (Char.utf8Size_eq_one_iff.mpr (h c hc))

theorem asciiLetter_of_isAlpha {c : Char} (h : c.isAlpha = true) :
    asciiLetter c.val.toUInt8 = true := by
  have hByte := toNat_toUInt8 (val_le_of_isAlpha h)
  rw [isAlpha_iff] at h
  simp only [UInt32.le_iff_toNat_le] at h
  simp only [asciiLetter, Bool.or_eq_true, Bool.and_eq_true, decide_eq_true_eq,
    UInt8.le_iff_toNat_le, hByte]
  exact h

/-- Bytes below 0x80 are one character each. -/
theorem utf8Lossy_ascii {bytes : List UInt8} (h : ∀ b ∈ bytes, b < 0x80) :
    utf8Lossy bytes.length bytes = bytes.map fun b => Char.ofNat b.toNat := by
  induction bytes with
  | nil => rfl
  | cons b bytes ih =>
    have hHead : utf8Head b bytes = (Char.ofNat b.toNat, 0) := if_pos (h b List.mem_cons_self)
    have hLater := ih fun b' hb' => h b' (List.mem_cons_of_mem b hb')
    simp only [List.length_cons, utf8Lossy, hHead, List.drop_zero, List.map_cons, hLater]

/-- A text of ASCII letters survives the lossy reading of its bytes. -/
theorem fromUtf8Lossy_asBytes {s : String} (h : ∀ c ∈ s.toList, c.val ≤ 127) :
    fromUtf8Lossy (asBytes s) = s := by
  have hAscii : ∀ b ∈ asBytes s, b < 0x80 := by
    rw [asBytes_eq_map h]
    intro b hb
    obtain ⟨c, hc, rfl⟩ := List.mem_map.mp hb
    rw [UInt8.lt_iff_toNat_lt, toNat_toUInt8 (h c hc)]
    exact Nat.lt_of_le_of_lt (UInt32.le_iff_toNat_le.mp (h c hc)) (by decide)
  -- a byte below 0x80 is the character it stands for
  have hChars : (asBytes s).map (fun b => Char.ofNat b.toNat) = s.toList := by
    rw [asBytes_eq_map h, List.map_map]
    refine (List.map_congr_left fun c hc => ?_).trans (List.map_id _)
    rw [Function.comp_apply, toNat_toUInt8 (h c hc)]
    exact Char.ofNat_toNat c
  rw [fromUtf8Lossy, utf8Lossy_ascii hAscii, hChars, String.ofList_toList]

theorem toAsciiLowercase_append (s t : String) :
    toAsciiLowercase (s ++ t) = toAsciiLowercase s ++ toAsciiLowercase t := by
  simp only [toAsciiLowercase, String.toList_append, List.map_append, String.ofList_append]

theorem toAsciiLowercase_ne_empty {s : String} (h : s ≠ "") : toAsciiLowercase s ≠ "" := by
  intro hEmpty
  have hChars := congrArg String.toList hEmpty
  rw [toAsciiLowercase, String.toList_ofList] at hChars
  exact h (String.toList_injective (List.map_eq_nil_iff.mp hChars))

theorem stripSuffix_append (s suffix : String) : stripSuffix (s ++ suffix) suffix = some s := by
  rw [stripSuffix, String.toList_append, if_pos (List.suffix_append _ _), List.length_append,
    Nat.add_sub_cancel, List.take_left, String.ofList_toList]

/-! ## What the pattern captures -/

theorem reportPattern_avoids_newline : reportPattern.Avoids newline := by
  refine Regex.Avoids.seq (.group (.alt ?_ ?_)) (.seq ?_ (.group (.plus ?_)))
  · exact Regex.avoids_word (by decide)
  · exact Regex.avoids_word (by decide)
  · exact Regex.avoids_word (by decide)
  · exact Regex.avoids_symbol rfl

/-- Both groups take part in every match. -/
theorem captures_of_mem_ways {s : List UInt8} {w : Regex.Way UInt8}
    (h : w ∈ reportPattern.ways s) :
    (w.get 1).isSome ∧ (w.get 2).isSome := by
  simp only [reportPattern, Regex.ways, List.mem_flatMap, List.mem_map] at h
  obtain ⟨_, ⟨kind, _, rfl⟩, _, ⟨_, _, _, ⟨oracle, _, rfl⟩, rfl⟩, rfl⟩ := h
  constructor
  · rw [Regex.Way.get_andThen, Regex.Way.get_group, Option.isSome_or, Option.isSome_some,
      Bool.or_true]
  · rw [Regex.Way.get_andThen, Regex.Way.get_andThen, Regex.Way.get_group, Option.some_or,
      Option.some_or, Option.isSome_some]

/-- At a report the search ends: the first group is its kind, and the second takes
every letter after it. -/
theorem search_report {kind : String} (hKind : kind = "FAIL" ∨ kind = "INFRASTRUCTURE")
    {rest : List UInt8} (hRest : rest.takeWhile asciiLetter ≠ []) :
    ∃ w, reportPattern.search (asBytes kind ++ (asBytes ": " ++ rest)) = some w ∧
      w.get 1 = some (asBytes kind) ∧ w.get 2 = some (rest.takeWhile asciiLetter) := by
  -- the two kinds differ in their first letter
  have hFirst (s : List UInt8) :
      ((Regex.alt (.word (asBytes "FAIL")) (.word (asBytes "INFRASTRUCTURE"))).ways
        (asBytes kind ++ s)).head? = some ⟨asBytes kind, s, []⟩ := by
    rcases hKind with rfl | rfl
    · exact Regex.head?_ways_alt_left (by rw [Regex.ways_word_append]; rfl)
    · rw [Regex.head?_ways_alt_right, Regex.ways_word_append]
      · rfl
      · refine Regex.ways_word_eq_nil fun hPrefix => ?_
        obtain ⟨more, hMore⟩ := hPrefix
        exact absurd (List.cons.inj hMore).1 (by decide)
  have hSep : ((Regex.word (asBytes ": ")).ways (asBytes ": " ++ rest)).head? =
      some ⟨asBytes ": ", rest, []⟩ := by
    rw [Regex.ways_word_append]
    rfl
  have hName := Regex.head?_ways_plus_symbol hRest
  -- the preferred way here is put together from those of the parts
  refine ⟨_, Regex.search_of_head? (Regex.head?_ways_seq
    (Regex.head?_ways_group (hFirst _))
    (Regex.head?_ways_seq hSep (Regex.head?_ways_group hName))), rfl, rfl⟩

/-- The letters of an oracle's name, which the colon after it ends. -/
theorem takeWhile_name {name : String} (h : ∀ c ∈ name.toList, c.isAlpha = true)
    (d : List UInt8) :
    (asBytes name ++ (asBytes ": " ++ d)).takeWhile asciiLetter = asBytes name := by
  have hName : ∀ b ∈ asBytes name, asciiLetter b = true := by
    rw [asBytes_eq_map fun c hc => val_le_of_isAlpha (h c hc)]
    intro b hb
    obtain ⟨c, hc, rfl⟩ := List.mem_map.mp hb
    exact asciiLetter_of_isAlpha (h c hc)
  have hEnd : (asBytes ": " ++ d).takeWhile asciiLetter = [] :=
    List.takeWhile_cons_of_neg (by decide)
  rw [List.takeWhile_append_of_pos hName, hEnd, List.append_nil]

/-! ## Filing a report -/

section Filing

variable {E : Regex.Engine UInt8} (hE : E.LeftmostFirst)

include hE

/-- Nothing is filed if and only if nothing is reported. -/
theorem causeOf_eq_none_iff {output : List UInt8} :
    causeOf E output = none ↔ ¬ reportPattern.Matches output := by
  rw [← Regex.search_eq_none_iff, ← hE]
  cases hSearch : E.captures reportPattern output with
  | none => simp only [causeOf, hSearch, Option.bind_eq_bind, Option.bind_none]
  | some caps =>
    obtain ⟨_, _, hWay⟩ := Regex.search_sound ((hE _ _).symm.trans hSearch)
    obtain ⟨hKind, hOracle⟩ := captures_of_mem_ways hWay
    obtain ⟨kind, hKind⟩ := Option.isSome_iff_exists.mp hKind
    obtain ⟨oracle, hOracle⟩ := Option.isSome_iff_exists.mp hOracle
    -- both groups take part, so no way leads to none
    refine iff_of_false (fun hNone => ?_) (Option.some_ne_none caps)
    simp only [causeOf, hSearch, Option.bind_eq_bind, Option.bind_some, hKind, hOracle] at hNone
    split at hNone
    · cases hNone
    · cases hNone

/-- The cause of output whose first report is at its start, after lines that
report nothing. -/
theorem causeOf_of_report {lines : List (List UInt8)}
    (hLines : ∀ line ∈ lines, ¬ reportPattern.Matches line) {kind : String}
    (hKind : kind = "FAIL" ∨ kind = "INFRASTRUCTURE") {rest : List UInt8}
    (hRest : rest.takeWhile asciiLetter ≠ []) :
    causeOf E (Regex.unlines newline lines ++ (asBytes kind ++ (asBytes ": " ++ rest))) =
      if kind = "INFRASTRUCTURE" then some "infrastructure"
      else some (((stripSuffix
        (toAsciiLowercase (fromUtf8Lossy (rest.takeWhile asciiLetter))) "oracle").filter
          (· ≠ "")).getD "other") := by
  obtain ⟨w, hSearch, hFirst, hSecond⟩ := search_report hKind hRest
  -- the lines before are passed over
  rw [← Regex.search_lines_append reportPattern_avoids_newline hLines, ← hE] at hSearch
  simp only [causeOf, hSearch, Option.bind_eq_bind, Option.bind_some, hFirst, hSecond]
  rcases hKind with rfl | rfl
  · rw [if_neg (by decide), if_neg (by decide)]
    rfl
  · rw [if_pos rfl, if_pos rfl]
    rfl

theorem causeOf_fail {lines : List (List UInt8)}
    (hLines : ∀ line ∈ lines, ¬ reportPattern.Matches line) {stem : String} (hStem : stem ≠ "")
    (hLetters : ∀ c ∈ stem.toList, c.isAlpha = true) (d : List UInt8) :
    causeOf E (Regex.unlines newline lines ++
        (asBytes "FAIL: " ++ (asBytes (stem ++ "Oracle") ++ (asBytes ": " ++ d)))) =
      some (toAsciiLowercase stem) := by
  have hName : ∀ c ∈ (stem ++ "Oracle").toList, c.isAlpha = true := by
    intro c hc
    rw [String.toList_append, List.mem_append] at hc
    exact hc.elim (hLetters c) (List.all_eq_true.mp (by decide) c)
  -- the letters of the name end at the colon
  have hTake := takeWhile_name hName d
  have hRest : (asBytes (stem ++ "Oracle") ++ (asBytes ": " ++ d)).takeWhile asciiLetter ≠ [] := by
    rw [hTake, asBytes_append]
    exact List.append_ne_nil_of_right_ne_nil _ (by decide)
  have hReport := causeOf_of_report hE hLines (Or.inl rfl) hRest
  rw [if_neg (by decide), hTake,
    fromUtf8Lossy_asBytes fun c hc => val_le_of_isAlpha (hName c hc),
    ← List.append_assoc (asBytes "FAIL"), ← asBytes_append] at hReport
  -- the suffix is that of the name, however the stem ends
  have hLower : toAsciiLowercase (stem ++ "Oracle") = toAsciiLowercase stem ++ "oracle" := by
    rw [toAsciiLowercase_append]
    rfl
  have hStrip : (stripSuffix (toAsciiLowercase (stem ++ "Oracle")) "oracle").filter (· ≠ "") =
      some (toAsciiLowercase stem) := by
    rw [hLower, stripSuffix_append]
    exact Option.filter_some_pos (decide_eq_true (toAsciiLowercase_ne_empty hStem))
  rw [hStrip] at hReport
  exact hReport

theorem causeOf_infrastructure {lines : List (List UInt8)}
    (hLines : ∀ line ∈ lines, ¬ reportPattern.Matches line) {letter : UInt8}
    (hLetter : asciiLetter letter = true) (d : List UInt8) :
    causeOf E (Regex.unlines newline lines ++ (asBytes "INFRASTRUCTURE: " ++ letter :: d)) =
      some "infrastructure" := by
  have hRest : (letter :: d).takeWhile asciiLetter ≠ [] := by
    rw [List.takeWhile_cons_of_pos hLetter]
    exact List.cons_ne_nil _ _
  have hReport := causeOf_of_report hE hLines (Or.inr rfl) hRest
  rw [if_pos rfl, ← List.append_assoc (asBytes _), ← asBytes_append] at hReport
  exact hReport

/-- A report is filed by the oracle that made it: by the stem of its name in lower
case, whatever the detail `d`; a run that could not be completed as such; and
output with no report is not filed. -/
theorem causeOf_reports {lines : List (List UInt8)}
    (hLines : ∀ line ∈ lines, ¬ reportPattern.Matches line) (d : List UInt8) :
    (∀ stem, stem ≠ "" → (∀ c ∈ stem.toList, c.isAlpha = true) →
      causeOf E (Regex.unlines newline lines ++
          (asBytes "FAIL: " ++ (asBytes (stem ++ "Oracle") ++ (asBytes ": " ++ d)))) =
        some (toAsciiLowercase stem)) ∧
    (∀ letter, asciiLetter letter = true →
      causeOf E (Regex.unlines newline lines ++ (asBytes "INFRASTRUCTURE: " ++ letter :: d)) =
        some "infrastructure") ∧
    ∀ output, causeOf E output = none ↔ ¬ reportPattern.Matches output := by
  exact ⟨fun _ hStem hLetters => causeOf_fail hE hLines hStem hLetters d,
    fun letter hLetter => causeOf_infrastructure hE hLines hLetter d,
    fun output => causeOf_eq_none_iff hE⟩

end Filing

/-- The detail of the report is itself a report of another oracle, and a line of
the log before it has the words without the pattern. -/
theorem causeOf_reports_hostile :
    causeOf Regex.backtracking (Regex.unlines newline [asBytes "the server said FAIL:"] ++
        (asBytes "FAIL: " ++ (asBytes ("Crash" ++ "Oracle") ++
          (asBytes ": " ++ asBytes "FAIL: SetupOracle")))) =
      some "crash" := by
  have hLine : ∀ line ∈ [asBytes "the server said FAIL:"], ¬ reportPattern.Matches line := by
    intro line hLine
    obtain rfl := List.mem_singleton.mp hLine
    exact Regex.search_eq_none_iff.mp (by decide)
  exact (causeOf_reports Regex.backtracking_leftmostFirst hLine (asBytes "FAIL: SetupOracle")).1
    "Crash" (by decide) (List.all_eq_true.mp (by decide))

/-! ## The oracles of the scenario -/

section Scenario

variable {E : Regex.Engine UInt8} (hE : E.LeftmostFirst) {lines : List (List UInt8)}
  (hLines : ∀ line ∈ lines, ¬ reportPattern.Matches line)

include hE hLines

theorem causeOf_fail_message (stem : String) (hStem : stem ≠ "")
    (hLetters : ∀ c ∈ stem.toList, c.isAlpha = true) (message : String) (rest : List UInt8) :
    causeOf E (Regex.unlines newline lines ++
        (asBytes ("FAIL: " ++ (stem ++ "Oracle" ++ ": " ++ message)) ++ rest)) =
      some (toAsciiLowercase stem) := by
  have hSplit : asBytes ("FAIL: " ++ (stem ++ "Oracle" ++ ": " ++ message)) ++ rest =
      asBytes "FAIL: " ++
        (asBytes (stem ++ "Oracle") ++ (asBytes ": " ++ (asBytes message ++ rest))) := by
    simp only [asBytes_append, List.append_assoc]
  rw [hSplit]
  exact causeOf_fail hE hLines hStem hLetters _

/-- What a scenario reports is filed by the first of its oracles that failed,
whatever else the stream carries. -/
theorem filed_by_evaluate (debug : DebugTexts) (D : Deployment) (program : CompiledProgram)
    (execution : Execution) (history : History) {report : String}
    (hReport : (evaluate debug D program execution history).report = some report) (rest : List UInt8) :
    causeOf E (Regex.unlines newline lines ++ (asBytes report ++ rest)) = some (
      if HarnessIntegrityOracle.evaluate program execution ≠ .pass then "infrastructure"
      else if SetupConnectionOracle.evaluate D program execution ≠ .pass then "setupconnection"
      else "crash") := by
  unfold evaluate at hReport
  split at hReport
  · rename_i e hIntegrity
    obtain rfl := Option.some.inj hReport
    rw [hIntegrity, if_pos (by simp)]
    -- the first letter is that of the integrity oracle's name
    have hSplit : asBytes ("INFRASTRUCTURE: " ++
          (HarnessIntegrityOracle.name ++ ": " ++ e.message debug)) ++ rest =
        asBytes "INFRASTRUCTURE: " ++ 0x48 :: (asBytes "arnessIntegrityOracle" ++
          (asBytes ": " ++ (asBytes (e.message debug) ++ rest))) := by
      simp only [asBytes_append, List.append_assoc]
      rfl
    rw [hSplit]
    exact causeOf_infrastructure hE hLines (by decide) _
  · rename_i hIntegrity
    rw [hIntegrity, if_neg (by simp)]
    split at hReport
    · rename_i e hSetup
      obtain rfl := Option.some.inj hReport
      rw [hSetup, if_pos (by simp)]
      exact causeOf_fail_message hE hLines "SetupConnection" (by decide)
        (List.all_eq_true.mp (by decide)) _ rest
    · rename_i hSetup
      rw [hSetup, if_neg (by simp)]
      split at hReport
      · rename_i e hCrash
        obtain rfl := Option.some.inj hReport
        exact causeOf_fail_message hE hLines "Crash" (by decide)
          (List.all_eq_true.mp (by decide)) _ rest
      · cases hReport

end Scenario

end Stratamoto
