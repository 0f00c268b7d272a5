import Stratamoto.IR.BuilderState

/-!
# Stratamoto — a program as text

`fmt::Display` of `lib.rs` and `operation.rs`: one line for every instruction,
indented by the blocks it stands in. The printer counts the variables on its own
and names each by its number where it is defined: outputs before the operation,
inner outputs behind the inputs.

How the language prints a string and a duration for debugging is a parameter
(`LiteralTexts`).

* `printed_var`    — the printer has counted the variables there are;
* `printed_indent` — the indent is the number of blocks open, and never cut off;
* `variableName_inj` — no two variables have one name.
-/

namespace Stratamoto

open Brackets Operation

/-! ## Operations -/

/-- How literals are printed for debugging. -/
structure LiteralTexts where
  str : String → String
  duration : Nat → String

/-- `{n:0width$x}`. -/
def hexPadded (width n : Nat) : String :=
  let digits := Nat.toDigits 16 n
  String.ofList (List.replicate (width - digits.length) '0' ++ digits)

def Operation.display (texts : LiteralTexts) : Operation → String
  | .nop _ _ => "Nop"
  | .loadRole i => "LoadRole(" ++ toString i ++ ")"
  | .loadConnection i => "LoadConnection(" ++ toString i ++ ")"
  | .loadVersion v => "LoadVersion(" ++ toString v ++ ")"
  | .loadFlags v => "LoadFlags(0x" ++ hexPadded 8 v.toNat ++ ")"
  | .loadPort v => "LoadPort(" ++ toString v ++ ")"
  | .loadStr v => "LoadStr(" ++ texts.str v ++ ")"
  | .loadBytes v => "LoadBytes(" ++ toString v.length ++ " bytes)"
  | .loadDuration v => "LoadDuration(" ++ texts.duration v ++ ")"
  | .connect => "Connect"
  | .beginBuildSetupConnection => "BeginBuildSetupConnection"
  | .setVersions => "SetVersions"
  | .setFlags => "SetFlags"
  | .setEndpoint => "SetEndpoint"
  | .setDeviceInfo => "SetDeviceInfo"
  | .endBuildSetupConnection protocol => "EndBuildSetupConnection<" ++ protocol.toString ++ ">"
  | .sendSetupConnection protocol => "SendSetupConnection<" ++ protocol.toString ++ ">"
  | .beginOnSetupSuccess protocol => "BeginOnSetupSuccess<" ++ protocol.toString ++ ">"
  | .endOnSetupSuccess => "EndOnSetupSuccess"
  | .sendRawFrame messageType extensionType =>
    "SendRawFrame(0x" ++ hexPadded 2 messageType.toNat ++ ", 0x" ++
      hexPadded 4 extensionType.toNat ++ ")"
  | .advanceTime => "AdvanceTime"
  | .probe => "Probe"

/-! ## Programs -/

def variableName (i : Nat) : String := "v" ++ toString i

/-- The names of `count` variables from number `first` on. -/
def variableNames (first count : Nat) : List String := (List.range' first count).map variableName

/-- Where the printer is: the variables it has named and its indent. -/
structure Printer where
  var : Nat := 0
  indent : Nat := 0
  deriving DecidableEq, Repr

namespace Printer

/-- What is printed for an instruction in front of its operation. -/
def outputNames (s : Printer) (i : Instruction) : List String :=
  variableNames s.var i.operation.numOutputs

/-- What is printed for an instruction behind its inputs. -/
def innerNames (s : Printer) (i : Instruction) : List String :=
  variableNames (s.var + i.operation.numOutputs) i.operation.numInnerOutputs

/-- Print one line. -/
def line (texts : LiteralTexts) (s : Printer) (i : Instruction) : String × Printer :=
  -- a difference that does not wrap around
  let indent := if i.operation.isBlockEnd then s.indent - 1 else s.indent
  let outputs :=
    if i.operation.numOutputs > 0 then ", ".intercalate (s.outputNames i) ++ " <- " else ""
  let inputs :=
    if i.inputs.isEmpty then "" else "(" ++ ", ".intercalate (i.inputs.map variableName) ++ ")"
  let inner :=
    if i.operation.numInnerOutputs > 0 then " -> " ++ ", ".intercalate (s.innerNames i) else ""
  (String.join (List.replicate indent "  ") ++ outputs ++ i.operation.display texts ++ inputs ++
      inner ++ "\n",
    { var := s.var + i.operation.numOutputs + i.operation.numInnerOutputs
      indent := if i.operation.isBlockBegin then indent + 1 else indent })

/-- Print the instructions in order. -/
def lines (texts : LiteralTexts) (s : Printer) : List Instruction → String × Printer
  | [] => ("", s)
  | i :: rest =>
    let (text, s) := s.line texts i
    let (more, s) := s.lines texts rest
    (text ++ more, s)

end Printer

def Program.display (texts : LiteralTexts) (p : Program) : String :=
  "// roles=" ++ toString p.context.numRoles ++ " connections=" ++
    toString p.context.numConnections ++ " seed=" ++ toString p.context.seed ++ "\n" ++
    (Printer.lines texts {} p.instructions).1

/-- The printer once it has printed the instructions. -/
def printed (texts : LiteralTexts) (is : List Instruction) : Printer :=
  (Printer.lines texts {} is).2

/-! ## What has been counted -/

variable {texts : LiteralTexts}

theorem Printer.lines_append (s : Printer) (is l : List Instruction) :
    s.lines texts (is ++ l) =
      ((s.lines texts is).1 ++ ((s.lines texts is).2.lines texts l).1,
        ((s.lines texts is).2.lines texts l).2) := by
  induction is generalizing s with
  | nil => simp only [List.nil_append, Printer.lines, String.empty_append]
  | cons i is ih =>
    simp only [List.cons_append, Printer.lines, ih, String.append_assoc]

theorem printed_snoc (is : List Instruction) (i : Instruction) :
    printed texts (is ++ [i]) = ((printed texts is).line texts i).2 := by
  rw [printed, Printer.lines_append]
  rfl

/-- The printer has counted the variables there are. -/
theorem printed_var (is : List Instruction) :
    (printed texts is).var = (definitions is).length := by
  induction is using List.reverseRecOn with
  | nil => rfl
  | append_singleton is i ih =>
    rw [printed_snoc, definitions_snoc, List.length_append, length_definitions_of, ← ih,
      numDefined, ← Nat.add_assoc]
    rfl

/-- The indent is the number of blocks open, so the difference is never cut off. -/
theorem printed_indent {is : List Instruction} {s : List (Nat × BlockKind)}
    (hs : openStack (brackets is) = some s) : (printed texts is).indent = s.length := by
  induction is using List.reverseRecOn generalizing s with
  | nil =>
    obtain rfl := Option.some.inj hs
    rfl
  | append_singleton is i ih =>
    rw [brackets_append] at hs
    obtain ⟨t, ht⟩ := openStack_of_append hs
    rw [← brackets_append, openStack_brackets_snoc ht] at hs
    have hIndent := ih ht
    have hLine : (printed texts (is ++ [i])).indent =
        (if i.operation.isBlockBegin then
            (if i.operation.isBlockEnd then t.length - 1 else t.length) + 1
          else if i.operation.isBlockEnd then t.length - 1 else t.length) := by
      rw [printed_snoc, ← hIndent]
      rfl
    rw [hLine]
    -- a plain instruction, a begin, and an end that takes one back
    cases hb : i.operation.bracket with
    | plain =>
      obtain ⟨hBegin, hEnd⟩ := bracket_plain hb
      rw [hb, step] at hs
      obtain rfl := Option.some.inj hs
      rw [hBegin, hEnd, if_neg Bool.false_ne_true, if_neg Bool.false_ne_true]
    | opening k =>
      obtain ⟨hBegin, hEnd⟩ := bracket_opening hb
      rw [hb, step] at hs
      obtain rfl := Option.some.inj hs
      rw [hBegin, hEnd, if_pos rfl, if_neg Bool.false_ne_true, List.length_cons]
    | closing k =>
      obtain ⟨hBegin, hEnd⟩ := bracket_closing hb
      rw [hb] at hs
      cases t with
      | nil => cases hs
      | cons q t =>
        simp only [step] at hs
        split at hs
        · obtain rfl := Option.some.inj hs
          rw [hBegin, hEnd, if_neg Bool.false_ne_true, if_pos rfl,
            List.length_cons, Nat.add_sub_cancel]
        · cases hs

/-! ## Names -/

/-- No two variables have one name. -/
theorem variableName_inj {v v' : Nat} : variableName v = variableName v' ↔ v = v' := by
  refine ⟨fun h => ?_, congrArg variableName⟩
  have hDigits : Nat.toDigits 10 v = Nat.toDigits 10 v' := by
    have hChars := congrArg String.toList h
    simp only [variableName, String.toList_append, List.append_cancel_left_eq] at hChars
    simpa only [toString, Nat.toList_repr] using hChars
  have hNumber := congrArg (Nat.ofDigitChars 10 · 0) hDigits
  simpa only [Nat.ofDigitChars_ten_toDigits] using hNumber

theorem getElem?_variableNames {first count k : Nat} (hk : k < count) :
    (variableNames first count)[k]? = some (variableName (first + k)) := by
  rw [variableNames, List.getElem?_map, List.getElem?_range' hk, Option.map_some, Nat.one_mul]

end Stratamoto
