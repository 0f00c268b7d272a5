import Stratamoto.Scenarios.Nyx

/-!
# Stratamoto — reports of the pool's crashes

`nyx-crash-handler.c`, as `build.rs` compiles it: preloaded into the pool, it takes the
place of `abort` and of what a failed assertion calls, and reports what is in its log to
the hypervisor. Before that it appends what the address sanitizer has logged. What fresh
memory holds comes from outside. Where C leaves undefined what a call does, because it is
outside of a buffer, the model gives `none`.

* `appendLog` — the log, in memory that is made larger where it has to be;
* `panicWithBacktrace`, `CrashCall.report` — a crash;
* `appendLog_held` — every message but the first has room;
* `crash_reports_log` — what a crash reports, and when nothing can be said of it.
-/

namespace Stratamoto

open Slices

/-! ## The log -/

def logSize : Nat := 0x10000

/-- The loop of `append_log`. -/
def grownSize (logSize neededSize : Nat) : Nat :=
  if _h : 0 < logSize ∧ logSize < neededSize then grownSize (logSize * 2) neededSize else logSize
termination_by neededSize - logSize

/-- The copy ends with a NUL of its own. -/
def strcat (dst src : List UInt8) : Option (List UInt8) := do
  let front ← cText dst
  let back ← cText src
  if front.length + back.length + 1 ≤ dst.length then
    some (overwrite dst front.length (back ++ [0]))
  else none

/-- The memory keeps what it holds; of what is added nothing is known. -/
def realloc (garbage : Nat → UInt8) (memory : List UInt8) (size : Nat) : List UInt8 :=
  memory.take size ++ (List.range (size - memory.length)).map garbage

/-- The log is as large as its memory, and there is none at first. -/
def appendLog (garbage : Nat → UInt8) (log : Option (List UInt8)) (msg : List UInt8) :
    Option (List UInt8) :=
  match log with
  | none => strcat (List.replicate logSize 0) msg
  | some log => do
    let neededSize := (← cText log).length + (← cText msg).length + 1
    strcat (realloc garbage log (grownSize log.length neededSize)) msg

/-! ## A crash -/

/-- The size of the buffer that the sanitizer's log is read into. -/
def asanBufferSize : Nat := 0x100000

/-- The sanitizer's log is a file, which there need not be. -/
def appendAsanLog (garbage : Nat → UInt8) (log : Option (List UInt8)) (file : Option (List UInt8)) :
    Option (Option (List UInt8)) :=
  match file with
  | none => some log
  | some content =>
    let read := content.take (asanBufferSize - 1)
    if read = [] then some log else (appendLog garbage log (read ++ [0])).map some

/-- The hypercall is given a pointer to the log, which is NULL where there is none. -/
def panicWithLog : Option (List UInt8) → Option (Option (List UInt8))
  | none => some none
  | some log => (cText log).map some

def panicWithBacktrace (garbage : Nat → UInt8) (log file : Option (List UInt8)) :
    Option (Option (List UInt8)) := do
  panicWithLog (← appendAsanLog garbage log file)

/-- What the handler takes the place of; texts are without their NUL, and lines as they are
printed. -/
inductive CrashCall where
  | abort
  | assert (func file : List UInt8) (line : Int) (failedExpr : List UInt8)
  | assertFail (assertion file : List UInt8) (line : Int) (function : List UInt8)
  | assertPerrorFail (errnum : Int) (file : List UInt8) (line : Int) (function : List UInt8)

/-- Where in the source an assertion is. -/
def assertedAt (function file : List UInt8) (line : Int) : List UInt8 :=
  asBytes "in " ++ function ++ asBytes " (" ++ file ++ asBytes ":" ++ asBytes (toString line) ++
    asBytes ")"

/-- The text that is written to a buffer on the stack, if one is. -/
def CrashCall.message : CrashCall → Option (List UInt8)
  | .abort => none
  | .assert func file line failedExpr =>
    some (asBytes "assertion failed: \"" ++ failedExpr ++ asBytes "\" " ++
      assertedAt func file line)
  | .assertFail assertion file line function =>
    some (asBytes "assertion failed: \"" ++ assertion ++ asBytes "\" " ++
      assertedAt function file line)
  | .assertPerrorFail _ file line function =>
    some (asBytes "assert_perror: " ++ assertedAt function file line)

def signalMsgSize : Nat := 0x1000

/-- The text does not fit its buffer with its NUL. -/
def CrashCall.overflows (call : CrashCall) : Prop :=
  ∃ message, call.message = some message ∧ signalMsgSize ≤ message.length

/-- The report of a crash. The text in the buffer is not part of it. -/
def CrashCall.report (call : CrashCall) (garbage : Nat → UInt8) (log file : Option (List UInt8)) :
    Option (Option (List UInt8)) :=
  match call.message with
  | none => panicWithBacktrace garbage log file
  | some message =>
    if message.length < signalMsgSize then panicWithBacktrace garbage log file else none

/-- The log after some messages, each with what the fresh memory held then. -/
def logAfter (messages : List (List UInt8 × (Nat → UInt8))) : Option (Option (List UInt8)) :=
  messages.foldlM (fun log message =>
    (appendLog message.2 log (message.1 ++ [0])).map some) none

/-! ## What the log holds -/

/-- The text that is in front of the first NUL. -/
def textOf (message : List UInt8) : List UInt8 := message.takeWhile (· ≠ 0)

/-- The memory holds a text. -/
structure Held (memory text : List UInt8) : Prop where
  nul : 0 ∉ text
  memory : ∃ rest, memory = text ++ 0 :: rest

theorem Held.cText {memory text : List UInt8} (h : Held memory text) :
    cText memory = some text := by
  obtain ⟨rest, rfl⟩ := h.memory
  exact cText_append h.nul

theorem held_message (message : List UInt8) : Held (message ++ [0]) (textOf message) := by
  refine ⟨zero_not_mem_takeWhile message, ?_⟩
  induction message with
  | nil => exact ⟨[], rfl⟩
  | cons b message ih =>
    by_cases hZero : b = 0
    · subst hZero
      exact ⟨message ++ [0], rfl⟩
    · obtain ⟨rest, hRest⟩ := ih
      refine ⟨rest, ?_⟩
      have hFront : textOf (b :: message) = b :: textOf message :=
        List.takeWhile_cons_of_pos (decide_eq_true hZero)
      rw [hFront, List.cons_append, List.cons_append, hRest]

/-- A text that fits is copied, and one that does not is not. -/
theorem strcat_eq {dst src front back : List UInt8} (hDst : Held dst front)
    (hSrc : Held src back) :
    strcat dst src = if front.length + back.length + 1 ≤ dst.length then
      some (overwrite dst front.length (back ++ [0])) else none := by
  simp only [strcat, hDst.cText, hSrc.cText, Option.bind_eq_bind, Option.bind_some]

theorem held_overwrite {dst front back : List UInt8} (hDst : Held dst front) (hBack : 0 ∉ back) :
    Held (overwrite dst front.length (back ++ [0])) (front ++ back) := by
  refine ⟨fun hIn => ?_, ?_⟩
  · rcases List.mem_append.mp hIn with hFront | hIn
    · exact hDst.nul hFront
    · exact hBack hIn
  · obtain ⟨rest, hMemory⟩ := hDst.memory
    refine ⟨dst.drop (front.length + (back ++ [0]).length), ?_⟩
    rw [overwrite, hMemory, List.take_left, ← hMemory]
    simp only [List.append_assoc, List.cons_append, List.nil_append]

/-- The loop ends with room enough. -/
theorem grownSize_spec {size : Nat} (h : 0 < size) (neededSize : Nat) :
    size ≤ grownSize size neededSize ∧ neededSize ≤ grownSize size neededSize := by
  -- the induction is on what the log lacks
  induction hLeft : neededSize - size using Nat.strong_induction_on generalizing size with
  | _ left ih =>
    unfold grownSize
    by_cases hSmall : size < neededSize
    · rw [dif_pos ⟨h, hSmall⟩]
      obtain ⟨hGrown, hNeeded⟩ := ih (neededSize - size * 2) (by omega) (by omega) rfl
      exact ⟨by omega, hNeeded⟩
    · rw [dif_neg fun hBoth => hSmall hBoth.2]
      exact ⟨Nat.le_refl _, Nat.not_lt.mp hSmall⟩

/-- A message is appended to a log that there is, however long it is. -/
theorem appendLog_held (garbage : Nat → UInt8) {log text : List UInt8} (h : Held log text)
    (message : List UInt8) :
    ∃ log', appendLog garbage (some log) (message ++ [0]) = some log' ∧
      Held log' (text ++ textOf message) := by
  have hMessage := held_message message
  obtain ⟨rest, hLog⟩ := h.memory
  have hSome : 0 < log.length := by
    rw [hLog, List.length_append, List.length_cons]
    omega
  obtain ⟨hGrown, hNeeded⟩ :=
    grownSize_spec hSome (text.length + (textOf message).length + 1)
  generalize hSize : grownSize log.length (text.length + (textOf message).length + 1) = size
    at hGrown hNeeded
  have hHeld : Held (realloc garbage log size) text := by
    refine ⟨h.nul, rest ++ (List.range (size - log.length)).map garbage, ?_⟩
    rw [realloc, List.take_of_length_le hGrown, hLog, List.append_assoc, List.cons_append]
  have hLength : (realloc garbage log size).length = size := by
    rw [realloc, List.length_append, List.take_of_length_le hGrown, List.length_map,
      List.length_range]
    omega
  refine ⟨_, ?_, held_overwrite hHeld hMessage.nul⟩
  simp only [appendLog, h.cText, hMessage.cText, hSize, Option.bind_eq_bind, Option.bind_some]
  rw [strcat_eq hHeld hMessage, if_pos (by omega)]

/-- The first message is appended only if it fits the log as it is at first. -/
theorem appendLog_none (garbage : Nat → UInt8) (message : List UInt8) :
    ((textOf message).length < logSize ∧ ∃ log,
      appendLog garbage none (message ++ [0]) = some log ∧ Held log (textOf message)) ∨
    (logSize ≤ (textOf message).length ∧ appendLog garbage none (message ++ [0]) = none) := by
  have hEmpty : Held (List.replicate logSize 0) [] :=
    ⟨List.not_mem_nil, List.replicate (logSize - 1) 0, rfl⟩
  have hMessage := held_message message
  have hCopy : appendLog garbage none (message ++ [0]) = _ := strcat_eq hEmpty hMessage
  rw [List.length_nil, Nat.zero_add, List.length_replicate] at hCopy
  by_cases hFits : (textOf message).length < logSize
  · rw [if_pos (Nat.succ_le_of_lt hFits)] at hCopy
    exact Or.inl ⟨hFits, _, hCopy, held_overwrite hEmpty hMessage.nul⟩
  · rw [if_neg fun hLe => hFits (Nat.lt_of_succ_le hLe)] at hCopy
    exact Or.inr ⟨Nat.not_lt.mp hFits, hCopy⟩

/-! ## Reports -/

/-- What is logged after the first message is appended. -/
theorem foldlM_held (messages : List (List UInt8 × (Nat → UInt8))) {log text : List UInt8}
    (h : Held log text) :
    ∃ log', messages.foldlM (fun log message =>
        (appendLog message.2 log (message.1 ++ [0])).map some) (some log) = some (some log') ∧
      Held log' (text ++ messages.flatMap (textOf ·.1)) := by
  induction messages generalizing log text with
  | nil => exact ⟨log, rfl, by rwa [List.flatMap_nil, List.append_nil]⟩
  | cons message messages ih =>
    obtain ⟨log₁, hAppended, hHeld⟩ := appendLog_held message.2 h message.1
    obtain ⟨log', hRest, hAll⟩ := ih hHeld
    refine ⟨log', ?_, by rwa [List.flatMap_cons, ← List.append_assoc]⟩
    rw [List.foldlM_cons, hAppended]
    exact hRest

/-- The sanitizer's log as a message. -/
def asanMessages (garbage : Nat → UInt8) (file : Option (List UInt8)) :
    List (List UInt8 × (Nat → UInt8)) :=
  match file with
  | none => []
  | some content =>
    let read := content.take (asanBufferSize - 1)
    if read = [] then [] else [(read, garbage)]

theorem logAfter_append_asan (garbage : Nat → UInt8) (file : Option (List UInt8))
    (messages : List (List UInt8 × (Nat → UInt8))) :
    (logAfter messages).bind (appendAsanLog garbage · file) =
      logAfter (messages ++ asanMessages garbage file) := by
  rw [logAfter, logAfter, List.foldlM_append]
  refine congrArg _ (funext fun log => ?_)
  cases file with
  | none => rfl
  | some content =>
    simp only [appendAsanLog, asanMessages]
    split
    · rfl
    · simp only [List.foldlM_cons, List.foldlM_nil]
      cases appendLog garbage log (content.take (asanBufferSize - 1) ++ [0]) <;> rfl

/-- The first message does not fit the log as it is at first. -/
def FirstTooLarge (messages : List (List UInt8 × (Nat → UInt8))) : Prop :=
  ∃ first rest, messages = first :: rest ∧ logSize ≤ (textOf first.1).length

/-- **The log of any messages** is all of them, unless the first is too large. -/
theorem logAfter_spec (messages : List (List UInt8 × (Nat → UInt8))) :
    (FirstTooLarge messages → logAfter messages = none) ∧
    (¬ FirstTooLarge messages → messages = [] ∧ logAfter messages = some none ∨
      messages ≠ [] ∧ ∃ log, logAfter messages = some (some log) ∧
        Held log (messages.flatMap (textOf ·.1))) := by
  cases messages with
  | nil =>
    refine ⟨?_, fun _ => Or.inl ⟨rfl, rfl⟩⟩
    rintro ⟨_, _, hNil, -⟩
    cases hNil
  | cons first rest =>
    rcases appendLog_none first.2 first.1 with ⟨hFits, log, hAppended, hHeld⟩ | ⟨hLarge, hAppended⟩
    · refine ⟨?_, fun _ => Or.inr ⟨List.cons_ne_nil _ _, ?_⟩⟩
      · rintro ⟨first', rest', hEq, hLarge⟩
        obtain ⟨rfl, -⟩ := List.cons.inj hEq
        exact absurd hFits (Nat.not_lt.mpr hLarge)
      · obtain ⟨log', hRest, hAll⟩ := foldlM_held rest hHeld
        refine ⟨log', ?_, hAll⟩
        rw [logAfter, List.foldlM_cons, hAppended]
        exact hRest
    · refine ⟨fun _ => ?_, fun hNot => absurd ⟨first, rest, rfl, hLarge⟩ hNot⟩
      rw [logAfter, List.foldlM_cons, hAppended]
      rfl

/-- A crash of which the text fits its buffer reports the log. -/
theorem report_of_fits {call : CrashCall} (h : ¬ call.overflows) (garbage : Nat → UInt8)
    (log file : Option (List UInt8)) :
    call.report garbage log file = panicWithBacktrace garbage log file := by
  unfold CrashCall.report
  split
  · rfl
  · rename_i message hMessage
    rw [if_pos (Nat.not_le.mp fun hLarge => h ⟨message, hMessage, hLarge⟩)]

theorem report_of_overflows {call : CrashCall} (h : call.overflows) (garbage : Nat → UInt8)
    (log file : Option (List UInt8)) : call.report garbage log file = none := by
  obtain ⟨message, hMessage, hLarge⟩ := h
  simp only [CrashCall.report, hMessage, if_neg (Nat.not_lt.mpr hLarge)]

/-- **What a crash reports**, after any messages to the log: all of them and what the
sanitizer has logged, one behind the other, up to a mebibyte of it and up to a NUL of each.
If there is none of these, the report is a NULL. But nothing can be said of it if the first
of them does not fit the 64 kibibytes that the log has at first, which are not made larger
for it, or if the text of a failed assertion, which is not reported, does not fit its 4
kibibytes. -/
theorem crash_reports_log (call : CrashCall) (garbage : Nat → UInt8) (file : Option (List UInt8))
    (messages : List (List UInt8 × (Nat → UInt8))) :
    ((call.overflows ∨ FirstTooLarge (messages ++ asanMessages garbage file)) →
      (logAfter messages).bind (call.report garbage · file) = none) ∧
    (¬ (call.overflows ∨ FirstTooLarge (messages ++ asanMessages garbage file)) →
      (logAfter messages).bind (call.report garbage · file) =
        some (if messages ++ asanMessages garbage file = [] then none
          else some ((messages ++ asanMessages garbage file).flatMap (textOf ·.1)))) := by
  have hPanic : (logAfter messages).bind (panicWithBacktrace garbage · file) =
      (logAfter (messages ++ asanMessages garbage file)).bind panicWithLog := by
    rw [← logAfter_append_asan, Option.bind_assoc]
    rfl
  obtain ⟨hNone, hSome⟩ := logAfter_spec (messages ++ asanMessages garbage file)
  by_cases hOverflows : call.overflows
  · refine ⟨fun _ => ?_, fun hNot => absurd (Or.inl hOverflows) hNot⟩
    simp only [report_of_overflows hOverflows]
    exact Option.bind_fun_none _
  · simp only [report_of_fits hOverflows, hPanic]
    refine ⟨fun hLarge => ?_, fun hNot => ?_⟩
    · rw [hNone (hLarge.resolve_left hOverflows), Option.bind_none]
    · rcases hSome fun hLarge => hNot (Or.inr hLarge) with ⟨hNil, hLog⟩ | ⟨hSome, log, hLog, hHeld⟩
      · rw [hLog, if_pos hNil, Option.bind_some, panicWithLog]
      · rw [hLog, if_neg hSome, Option.bind_some, panicWithLog, hHeld.cText, Option.map_some]

/-- Nothing was logged before the pool aborted, but for the sanitizer's log. -/
theorem crash_reports_log_abort :
    (logAfter []).bind (CrashCall.abort.report (fun _ => 0) · (some (asBytes "ERROR: leak"))) =
      some (some (asBytes "ERROR: leak")) := by
  have hReads : asanMessages (fun _ => 0) (some (asBytes "ERROR: leak")) =
      [(asBytes "ERROR: leak", fun _ => 0)] := by
    have hAll : (asBytes "ERROR: leak").take (asanBufferSize - 1) = asBytes "ERROR: leak" :=
      List.take_of_length_le (by decide)
    have hSome : asBytes "ERROR: leak" ≠ [] := by decide
    simp only [asanMessages, hAll, if_neg hSome]
  have hText : textOf (asBytes "ERROR: leak") = asBytes "ERROR: leak" := by decide
  obtain ⟨-, hReports⟩ := crash_reports_log .abort (fun _ => 0) (some (asBytes "ERROR: leak")) []
  rw [List.nil_append, hReads] at hReports
  rw [hReports]
  · rw [if_neg (List.cons_ne_nil _ _), List.flatMap_cons, List.flatMap_nil, List.append_nil, hText]
  · rintro (⟨message, hMessage, -⟩ | ⟨first, rest, hFirst, hLarge⟩)
    · cases hMessage
    · obtain ⟨rfl, -⟩ := List.cons.inj hFirst
      exact absurd hLarge (by decide)

end Stratamoto
