import Mathlib.Data.List.TakeWhile
import Stratamoto.Library.Slices
import Stratamoto.Scenarios.PoolSetupConnection

/-!
# Stratamoto — reports under Nyx

`runners.rs`, `nyx-agent.c` and `nyx.h`: in a Nyx machine what the runner of a scenario
is told goes to the fuzzer in hypercalls. A report is printed, in pieces that fit the
hypervisor's buffer, and then ends the run; a skip and a pass restore the snapshot. A
hypercall that restores the snapshot does not return. Where C leaves undefined what a
call does, because it is outside of a buffer, the model gives `none`.

* `nyxPrintln` — printing through the hypervisor;
* `NyxRunner.calls` — the hypercalls a process makes as it ends;
* `printlnLoop_spec` — the pieces of a long message are the message;
* `NyxRunner.fail_told` — a report arrives, unless there is a NUL in it;
* `nyx_files_findings` — and is filed by what the process found.
-/

namespace Stratamoto

open Slices

/-! ## The agent -/

inductive Hypercall where
  | printf (text : List UInt8)
  | panicExtended (message : List UInt8)
  | release
  deriving DecidableEq, Repr

/-- It restores the snapshot. -/
def Hypercall.restores : Hypercall → Bool
  | .printf _ => false
  | .panicExtended _ | .release => true

/-- The largest auxiliary buffer there is. -/
def hprintfMaxSize : Nat := 0x10000 - 1

def memcpy (dst src : List UInt8) (n : Nat) : Option (List UInt8) :=
  if n ≤ dst.length ∧ n ≤ src.length then some (overwrite dst 0 (src.take n)) else none

/-- The text a pointer to the memory is of, up to its NUL. -/
def cText (memory : List UInt8) : Option (List UInt8) :=
  if 0 ∈ memory then some (memory.takeWhile (· ≠ 0)) else none

/-- `hprintf("%s", text)`. As much is printed as fits the buffer, with its NUL. -/
def hprintf (text : List UInt8) : Hypercall := .printf (text.take (hprintfMaxSize - 1))

/-- A piece of a message is printed from a copy of its own. -/
def hprintfCopy (message : List UInt8) (n : Nat) : Option Hypercall := do
  let messageCopy ← memcpy (List.replicate hprintfMaxSize 0) message n
  return hprintf (← cText messageCopy)

def chunkSize (messageLen offset : Nat) : Nat :=
  if hprintfMaxSize ≤ messageLen - offset then hprintfMaxSize - 1 else messageLen - offset

/-- The loop of `nyx_println`, over a message that is too large for one call. -/
def printlnLoop (message : List UInt8) (messageLen offset : Nat) : Option (List Hypercall) :=
  if _h : offset < messageLen then do
    let call ← hprintfCopy (message.drop offset) (chunkSize messageLen offset)
    let calls ← printlnLoop message messageLen (offset + chunkSize messageLen offset)
    return call :: calls
  else some []
termination_by messageLen - offset
decreasing_by
  -- a piece is never empty
  unfold chunkSize hprintfMaxSize
  split <;> omega

/-- What `nyx_println` prints before the end of the line. -/
def printlnMessage (message : List UInt8) (messageLen : Nat) : Option (List Hypercall) :=
  if messageLen < hprintfMaxSize then (hprintfCopy message messageLen).map ([·])
  else printlnLoop message messageLen 0

def nyxPrintln (message : List UInt8) (messageLen : Nat) : Option (List Hypercall) :=
  (printlnMessage message messageLen).map (· ++ [hprintf [newline]])

def nyxFail (message : List UInt8) : Option (List Hypercall) :=
  (cText message).map ([.panicExtended ·])

/-! ## The runner -/

/-- `CString::new(message).unwrap_or_default()`, without the NUL at its end. -/
def cString (message : String) : List UInt8 :=
  if 0 ∈ asBytes message then [] else asBytes message

/-- The calls up to the first that does not return. -/
def untilRestored : List Hypercall → List Hypercall
  | [] => []
  | call :: calls => if call.restores then [call] else call :: untilRestored calls

namespace NyxRunner

def fail (message : String) : Option (List Hypercall) := do
  let printed ← nyxPrintln (cString message ++ [0]) (cString message).length
  let failed ← nyxFail (cString message ++ [0])
  return printed ++ failed

def skip : List Hypercall := [.release]

/-- The runner is dropped when the process ends, also by a panic. -/
def drop : List Hypercall := [.release]

/-- The hypercalls of a process that ends. -/
def calls : Except Panic Exit → Option (List Hypercall)
  | .error _ => some drop
  | .ok exit => do
    let failed ← match exit.failed with
      | some message => fail message
      | none => some []
    return untilRestored (failed ++ (if exit.skipped then skip else []) ++ drop)

end NyxRunner

/-- The scenario's process in a Nyx machine. -/
def nyxMain (S : Sv2) (memory : Memory) (postcard : List UInt8 → Except String Program)
    (J : Judging) (host : Host) (args : List String) (fuel : Nat) (bytes : List UInt8) :
    Option (Option (List Hypercall)) :=
  (stratamotoMain S memory postcard J host args fuel bytes).map NyxRunner.calls

/-- What the fuzzer reads from the print stream. -/
def printStream (calls : List Hypercall) : List UInt8 :=
  calls.flatMap fun
    | .printf text => text
    | .panicExtended _ | .release => []

/-! ## Printing -/

theorem takeWhile_nonzero {text rest : List UInt8} (h : 0 ∉ text) :
    (text ++ 0 :: rest).takeWhile (· ≠ 0) = text := by
  have hText : ∀ b ∈ text, decide (b ≠ 0) = true := by
    intro b hb
    refine decide_eq_true fun hZero => ?_
    exact h (hZero ▸ hb)
  rw [List.takeWhile_append_of_pos hText, List.takeWhile_cons_of_neg (by decide), List.append_nil]

theorem zero_not_mem_takeWhile (bytes : List UInt8) : 0 ∉ bytes.takeWhile (· ≠ 0) := by
  intro hIn
  have hZero : decide ((0 : UInt8) ≠ 0) = true :=
    List.mem_takeWhile_imp (p := fun b => decide (b ≠ 0)) hIn
  exact of_decide_eq_true hZero rfl

theorem cText_append {text rest : List UInt8} (h : 0 ∉ text) :
    cText (text ++ 0 :: rest) = some text := by
  have hEnds : 0 ∈ text ++ 0 :: rest := List.mem_append_right _ List.mem_cons_self
  rw [cText, if_pos hEnds, takeWhile_nonzero h]

/-- The copy of a piece ends with a NUL, so the piece is printed. -/
theorem hprintfCopy_eq {message : List UInt8} {n : Nat} (hNul : 0 ∉ message.take n)
    (hFits : n < hprintfMaxSize) (hHas : n ≤ message.length) :
    hprintfCopy message n = some (.printf (message.take n)) := by
  have hLength : (message.take n).length = n := by
    rw [List.length_take, Nat.min_eq_left hHas]
  have hCopy : memcpy (List.replicate hprintfMaxSize 0) message n =
      some (message.take n ++ 0 :: List.replicate (hprintfMaxSize - n - 1) 0) := by
    have hZeros : hprintfMaxSize - n = hprintfMaxSize - n - 1 + 1 := by omega
    rw [memcpy, if_pos ⟨by rw [List.length_replicate]; omega, hHas⟩, overwrite, List.take_zero,
      List.nil_append, List.drop_replicate, Nat.zero_add, hLength, hZeros, List.replicate_succ,
      Nat.add_sub_cancel]
  have hPrinted : (message.take n).take (hprintfMaxSize - 1) = message.take n := by
    apply List.take_of_length_le
    omega
  simp only [hprintfCopy, hCopy, Option.bind_eq_bind, Option.bind_some, cText_append hNul, hprintf,
    hPrinted, Option.pure_def]

/-- Some printed texts are the text, and each of them fits a call. -/
structure Pieces (texts : List (List UInt8)) (text : List UInt8) : Prop where
  whole : texts.flatten = text
  fits : ∀ piece ∈ texts, piece.length < hprintfMaxSize

/-- **The pieces of a message** are the message, in order, and nothing outside of its
memory is read. -/
theorem printlnLoop_spec {message : List UInt8} (hNul : 0 ∉ message) (offset : Nat) :
    ∃ texts : List (List UInt8),
      printlnLoop (message ++ [0]) message.length offset = some (texts.map .printf) ∧
      Pieces texts (message.drop offset) := by
  -- the induction is on what is left of the message
  induction hLeft : message.length - offset using Nat.strong_induction_on generalizing offset with
  | _ left ih =>
    unfold printlnLoop
    by_cases hMore : offset < message.length
    · rw [dif_pos hMore]
      have hSize : 0 < chunkSize message.length offset ∧
          chunkSize message.length offset < hprintfMaxSize ∧
          chunkSize message.length offset ≤ message.length - offset := by
        unfold chunkSize hprintfMaxSize
        split <;> omega
      obtain ⟨hSome, hFits, hHas⟩ := hSize
      have hFront : ((message ++ [0]).drop offset).take (chunkSize message.length offset) =
          (message.drop offset).take (chunkSize message.length offset) := by
        rw [List.drop_append_of_le_length (Nat.le_of_lt hMore), List.take_append_of_le_length]
        rw [List.length_drop]
        exact hHas
      have hPiece : hprintfCopy ((message ++ [0]).drop offset) (chunkSize message.length offset) =
          some (.printf ((message.drop offset).take (chunkSize message.length offset))) := by
        rw [hprintfCopy_eq ?_ hFits ?_, hFront]
        · rw [hFront]
          exact fun hIn => hNul (List.mem_of_mem_drop (List.mem_of_mem_take hIn))
        · rw [List.length_drop, List.length_append, List.length_singleton]
          omega
      obtain ⟨texts, hLoop, hPieces⟩ :=
        ih (message.length - (offset + chunkSize message.length offset)) (by omega) _ rfl
      refine ⟨(message.drop offset).take (chunkSize message.length offset) :: texts, ?_, ?_, ?_⟩
      · simp only [hPiece, hLoop, Option.bind_eq_bind, Option.bind_some, Option.pure_def,
          List.map_cons]
      · rw [List.flatten_cons, hPieces.whole, ← List.drop_drop, List.take_append_drop]
      · intro piece hMem
        rcases List.mem_cons.mp hMem with rfl | hMem
        · rw [List.length_take, List.length_drop]
          omega
        · exact hPieces.fits piece hMem
    · -- the message is at its end
      rw [dif_neg hMore]
      refine ⟨[], rfl, ?_, fun piece hMem => absurd hMem List.not_mem_nil⟩
      rw [List.flatten_nil, List.drop_of_length_le (Nat.not_lt.mp hMore)]

theorem printlnMessage_spec {message : List UInt8} (hNul : 0 ∉ message) :
    ∃ texts : List (List UInt8),
      printlnMessage (message ++ [0]) message.length = some (texts.map .printf) ∧
      Pieces texts message := by
  unfold printlnMessage
  by_cases hSmall : message.length < hprintfMaxSize
  · have hAll : (message ++ [0]).take message.length = message := List.take_left
    have hHas : message.length ≤ (message ++ [0]).length := by
      rw [List.length_append]
      exact Nat.le_add_right _ _
    have hOne : hprintfCopy (message ++ [0]) message.length = some (.printf message) := by
      rw [hprintfCopy_eq (hAll.symm ▸ hNul) hSmall hHas, hAll]
    refine ⟨[message], ?_, List.flatten_singleton, fun piece hMem => ?_⟩
    · rw [if_pos hSmall, hOne]
      rfl
    · obtain rfl := List.mem_singleton.mp hMem
      exact hSmall
  · rw [if_neg hSmall]
    exact printlnLoop_spec hNul 0

theorem nyxPrintln_spec {message : List UInt8} (hNul : 0 ∉ message) :
    ∃ texts : List (List UInt8),
      nyxPrintln (message ++ [0]) message.length = some (texts.map .printf) ∧
      Pieces texts (message ++ [newline]) := by
  obtain ⟨texts, hCalls, hPieces⟩ := printlnMessage_spec hNul
  refine ⟨texts ++ [[newline]], ?_, ?_, fun piece hMem => ?_⟩
  · rw [nyxPrintln, hCalls, Option.map_some, List.map_append]
    rfl
  · rw [List.flatten_append, hPieces.whole, List.flatten_singleton]
  · rcases List.mem_append.mp hMem with hMem | hMem
    · exact hPieces.fits piece hMem
    · obtain rfl := List.mem_singleton.mp hMem
      decide

/-! ## A report -/

/-- What the fuzzer is told of a report: its text, and then the end of the run. -/
def Told (report : String) (calls : List Hypercall) : Prop :=
  ∃ texts : List (List UInt8), calls = texts.map .printf ++ [.panicExtended (cString report)] ∧
    Pieces texts (cString report ++ [newline])

theorem zero_not_mem_cString (message : String) : 0 ∉ cString message := by
  unfold cString
  split
  · exact List.not_mem_nil
  · assumption

theorem untilRestored_printf (texts : List (List UInt8)) (calls : List Hypercall) :
    untilRestored (texts.map .printf ++ calls) = texts.map .printf ++ untilRestored calls := by
  induction texts with
  | nil => rfl
  | cons text texts ih => exact congrArg (Hypercall.printf text :: ·) ih

/-- **A report arrives** in the fuzzer, in pieces, and what the runner would do after it
is not done. -/
theorem NyxRunner.fail_told (code : Nat) (skipped : Bool) (report : String) :
    ∃ calls, NyxRunner.calls (.ok { code, failed := some report, skipped }) = some calls ∧
      Told report calls := by
  have hNul := zero_not_mem_cString report
  obtain ⟨texts, hPrintln, hPieces⟩ := nyxPrintln_spec hNul
  have hFail : nyxFail (cString report ++ [0]) = some [.panicExtended (cString report)] := by
    rw [nyxFail, cText_append hNul]
    rfl
  refine ⟨texts.map .printf ++ [.panicExtended (cString report)], ?_, texts, rfl, hPieces⟩
  simp only [NyxRunner.calls, NyxRunner.fail, hPrintln, hFail, Option.bind_eq_bind,
    Option.bind_some, Option.pure_def, List.append_assoc, untilRestored_printf]
  rfl

theorem Told.reads {report : String} {calls : List Hypercall} (h : Told report calls) :
    printStream calls = cString report ++ [newline] := by
  obtain ⟨texts, rfl, hPieces⟩ := h
  rw [← hPieces.whole, printStream, List.flatMap_append, List.flatMap_map]
  simp

section Filing

variable {E : Regex.Engine UInt8} (hE : E.LeftmostFirst) {lines : List (List UInt8)}
  (hLines : ∀ line ∈ lines, ¬ reportPattern.Matches line)

include hE hLines

/-- What is printed of a report is filed as the report is, and a report with a NUL is
not filed. -/
theorem causeOf_told {report cause : String} {calls : List Hypercall} (hFiled : Filed report cause)
    (hTold : Told report calls) :
    causeOf E (Regex.unlines newline lines ++ printStream calls) =
      if 0 ∈ asBytes report then none else some cause := by
  rw [hTold.reads, cString]
  split
  · -- only the end of a line is printed
    rw [causeOf_eq_none_iff hE, ← Regex.search_eq_none_iff,
      Regex.search_lines_append reportPattern_avoids_newline hLines]
    decide
  · exact hFiled E hE lines hLines [newline]

end Filing

/-! ## The process -/

/-- What the fuzzer hears of a process that was initialized. -/
inductive Heard (E : Regex.Engine UInt8) (lines : List (List UInt8)) (S : Sv2) (memory : Memory)
    (postcard : List UInt8 → Except String Program) (W : World) (bytes : List UInt8) :
    List Hypercall → Prop
  /-- The snapshot is restored, and nothing is said. -/
  | restored {ending : Except Panic Exit} : Ends S memory postcard W bytes ending →
      (∀ exit, ending = .ok exit → exit.code = 0) →
      Heard E lines S memory postcard W bytes [.release]
  | reported {report cause : String} {calls : List Hypercall} :
      Ends S memory postcard W bytes (.ok { code := 1, failed := some report }) →
      Filed report cause → Told report calls →
      causeOf E (Regex.unlines newline lines ++ printStream calls) =
        (if 0 ∈ asBytes report then none else some cause) →
      Heard E lines S memory postcard W bytes calls

section Process

variable {E : Regex.Engine UInt8} (hE : E.LeftmostFirst) {lines : List (List UInt8)}
  (hLines : ∀ line ∈ lines, ¬ reportPattern.Matches line)

include hE hLines

/-- How a process ends decides what is heard of it. -/
theorem heard_of_ends {S : Sv2} {memory : Memory} {postcard : List UInt8 → Except String Program}
    {W : World} {bytes : List UInt8} {ending : Except Panic Exit}
    (h : Ends S memory postcard W bytes ending) :
    ∃ calls, NyxRunner.calls ending = some calls ∧
      Heard E lines S memory postcard W bytes calls := by
  have hReported {report cause : String} (hFiled : Filed report cause)
      (hEnds : Ends S memory postcard W bytes (.ok { code := 1, failed := some report })) :
      ∃ calls, NyxRunner.calls (.ok { code := 1, failed := some report }) = some calls ∧
        Heard E lines S memory postcard W bytes calls := by
    obtain ⟨calls, hCalls, hTold⟩ := NyxRunner.fail_told 1 false report
    exact ⟨calls, hCalls, .reported hEnds hFiled hTold (causeOf_told hE hLines hFiled hTold)⟩
  cases h with
  | panicked hBytes hPanic =>
    exact ⟨_, rfl, .restored (.panicked hBytes hPanic) fun _ hOk => nomatch hOk⟩
  | overfull hBytes hValid hAbove =>
    exact ⟨_, rfl, .restored (.overfull hBytes hValid hAbove) fun _ hOk => nomatch hOk⟩
  | skipped hNever hReturns =>
    refine ⟨_, rfl, .restored (.skipped hNever hReturns) ?_⟩
    rintro exit ⟨⟩
    rfl
  | passed hRunnable hRun hAnswered hAlive =>
    refine ⟨_, rfl, .restored (.passed hRunnable hRun hAnswered hAlive) ?_⟩
    rintro exit ⟨⟩
    rfl
  | unanswered hRunnable hRun hNot hFiled =>
    exact hReported hFiled (.unanswered hRunnable hRun hNot hFiled)
  | down hRunnable hRun hAnswered hAlive hFiled =>
    exact hReported hFiled (.down hRunnable hRun hAnswered hAlive hFiled)

end Process

end Stratamoto
