import Stratamoto.IR.Compilation
import Stratamoto.IR.Concatenation
import Stratamoto.IR.Fragments

/-!
# Stratamoto — mutators

The mutators of `mutators/`: a program is rewritten in place, or left as it is
with the reason why. A loop that draws until its candidate differs from the
value it started with is given fuel.

* `wellTyped_set` — an instruction may be exchanged for one of its shape;
* `yields_mutateOperation` — a rewrite changes the value that an operation carries;
* `mutators_keep_validity` — no mutator leaves a valid program invalid.
-/

namespace Stratamoto

open Brackets Operation Draws

/-- Why a mutator left a program alone. -/
inductive MutatorError where
  | noMutationsAvailable
  | createdInvalidProgram
  deriving DecidableEq, Repr

section Mutators

variable {ρ : Type} (rng : RngExt ρ)

/-! ## `input.rs` -/

/-- Rewire one input of an instruction to another variable of the same type. -/
def InputMutator.mutate (p : Program) : Draw Panic ρ (Except MutatorError Unit × Program) := do
  let candidates := (p.instructions.zipIdx.filter fun p => !p.1.inputs.isEmpty).map Prod.snd
  match ← rng.chooseItem candidates with
  | none => pure (.error .noMutationsAvailable, p)
  | some index =>
    -- the builder knows the variables in scope at that instruction
    match ← Draw.lift (ProgramBuilder.fromPrefix p.context (p.instructions.take index)) with
    | .error _ => pure (.error .createdInvalidProgram, p)
    | .ok builder =>
      match p.instructions[index]? with
      | none => Draw.lift (.error .indexOutOfBounds)
      | some instruction =>
        let slot ← rng.randomRange emptyRange 64 0 instruction.inputs.length
        let current := instruction.input slot
        match builder.getVariable current with
        | none => pure (.error .createdInvalidProgram, p)
        | some found =>
          match ← builder.getRandomVariable rng found.var with
          | none => pure (.error .noMutationsAvailable, p)
          | some replacement =>
            -- a draw of the variable that is there already changes nothing
            if replacement.index = current then
              pure (.error .noMutationsAvailable, p)
            else
              let inputs := instruction.inputs.set slot replacement.index
              pure (.ok (),
                { p with instructions := p.instructions.set index { instruction with inputs } })

/-! ## `operation.rs` -/

/-- Boundary values worth trying for the version fields. -/
def versions : List UInt16 := [0, 1, 2, 3, 0xfffe, 0xffff]

/-- The flags the setups define, all of them together, the first bit none
defines, the sign bit and every bit. -/
def flagValues : List UInt32 := [0, 1, 2, 4, 0b111, 0b1000, 0x80000000, 0xffffffff]

/-- Either side of the privileged range, and the extremes of the field. -/
def ports : List UInt16 := [0, 1, 1023, 1024, 0xfffe, 0xffff]

/-- The setup messages, the reconnect, and the extremes of the message types. -/
def messageTypes : List UInt8 := [0x00, 0x01, 0x02, 0x03, 0x04, 0x10, 0x7f, 0xff]

/-- No extension, the first one, and the values either side of the channel bit. -/
def extensionTypes : List UInt16 := [0, 1, 0x7fff, 0x8000, 0xffff]

/-- Milliseconds, in nanoseconds. -/
def fromMillis (n : Nat) : Nat := n * 1000000

def durations : List Nat :=
  [0, fromMillis 1, fromMillis 1000, fromMillis 10000, fromMillis 60000, fromMillis 3600000]

/-- Another index below `count`, if there is another. -/
def otherIndex (current count : Nat) : Draw Panic ρ (Option Nat) :=
  if count = 0 then pure none
  -- an index out of range is replaced by any that is in range
  else if current ≥ count then do
    let pick ← rng.randomRange emptyRange 64 0 count
    pure (some pick)
  else if count = 1 then pure none
  else do
    let pick ← rng.randomRange emptyRange 64 0 (count - 1)
    -- the draw skips the current index
    pure (some (if pick ≥ current then pick + 1 else pick))

/-- A boundary value, the value with one bit flipped, or a random one. -/
def wordCandidate {width : Nat} (value : BitVec width) (edges : List (BitVec width)) :
    Draw Panic ρ (BitVec width) := do
  match ← rng.randomRange emptyRange 8 0 3 with
  | 0 => chooseFrom rng edges "every edge set has a value"
  | 1 => do
    let bit ← rng.randomRange emptyRange 32 0 width
    pure (value ^^^ (BitVec.ofNat width 1 <<< bit))
  | _ => rng.random width

/-- Any of them but the value given. -/
def mutateWord {width : Nat} (fuel : Nat) (value : BitVec width) (edges : List (BitVec width)) :
    Draw Panic ρ (BitVec width) :=
  Draw.retry (wordCandidate rng value edges) (fun candidate => candidate ≠ value) fuel

def mutateU8 (fuel : Nat) (value : UInt8) (edges : List UInt8) : Draw Panic ρ UInt8 := do
  let word ← mutateWord rng fuel value.toBitVec (edges.map UInt8.toBitVec)
  pure (UInt8.ofBitVec word)

def mutateU16 (fuel : Nat) (value : UInt16) (edges : List UInt16) : Draw Panic ρ UInt16 := do
  let word ← mutateWord rng fuel value.toBitVec (edges.map UInt16.toBitVec)
  pure (UInt16.ofBitVec word)

def mutateU32 (fuel : Nat) (value : UInt32) (edges : List UInt32) : Draw Panic ρ UInt32 := do
  let word ← mutateWord rng fuel value.toBitVec (edges.map UInt32.toBitVec)
  pure (UInt32.ofBitVec word)

/-- The lengths worth reaching are 0, 255 and 256. -/
def stringCandidate (value : String) : Draw Panic ρ String := do
  match ← rng.randomRange emptyRange 8 0 4 with
  | 0 => pure ""
  | 1 => pure (String.ofList (List.replicate 255 'a'))
  | 2 => pure (String.ofList (List.replicate 256 'a'))
  | _ => do
    let letter ← rng.randomRange emptyRange 8 97 123
    pure (value.push (Char.ofNat letter))

def mutateString (fuel : Nat) (value : String) : Draw Panic ρ String :=
  Draw.retry (stringCandidate rng value) (fun candidate => candidate ≠ value) fuel

/-- One bit flipped, one byte more, or one byte fewer. -/
def bytesCandidate (value : List UInt8) : Draw Panic ρ (List UInt8) := do
  match ← rng.randomRange emptyRange 8 0 3, value.isEmpty with
  | 0, false => do
    let at_ ← rng.randomRange emptyRange 64 0 value.length
    let bit ← rng.randomRange emptyRange 32 0 8
    pure (value.modify at_ fun byte => byte ^^^ UInt8.ofBitVec (BitVec.ofNat 8 1 <<< bit))
  | 1, _ => do
    let byte ← rng.random 8
    pure (value ++ [UInt8.ofBitVec byte])
  -- also where a bit was to be flipped and there is no byte
  | _, _ => pure value.dropLast

def mutateBytes (fuel : Nat) (value : List UInt8) : Draw Panic ρ (List UInt8) :=
  Draw.retry (bytesCandidate rng value) (fun candidate => candidate ≠ value) fuel

def durationCandidate : Draw Panic ρ Nat := do
  if ← rng.randomBool 50 then
    chooseFrom rng durations "DURATIONS is not empty"
  else
    let millis ← rng.randomRange emptyRange 64 0 60000
    pure (fromMillis millis)

def mutateDuration (fuel : Nat) (value : Nat) : Draw Panic ρ Nat :=
  Draw.retry (durationCandidate rng) (fun candidate => candidate ≠ value) fuel

/-- The rewrite an operation admits, if it carries anything to rewrite. -/
def mutateOperation (fuel : Nat) (context : ProgramContext) :
    Operation → Draw Panic ρ (Option Operation)
  | .loadRole role => do
    let other ← otherIndex rng role context.numRoles
    pure (other.map .loadRole)
  | .loadConnection connection => do
    let other ← otherIndex rng connection context.numConnections
    pure (other.map .loadConnection)
  | .loadVersion value => do
    let value ← mutateU16 rng fuel value versions
    pure (some (.loadVersion value))
  | .loadFlags value => do
    let value ← mutateU32 rng fuel value flagValues
    pure (some (.loadFlags value))
  | .loadPort value => do
    let value ← mutateU16 rng fuel value ports
    pure (some (.loadPort value))
  | .loadStr value => do
    let value ← mutateString rng fuel value
    pure (some (.loadStr value))
  | .loadBytes value => do
    let value ← mutateBytes rng fuel value
    pure (some (.loadBytes value))
  | .loadDuration value => do
    let value ← mutateDuration rng fuel value
    pure (some (.loadDuration value))
  | .sendRawFrame messageType extensionType => do
    if ← rng.randomBool 50 then
      let messageType ← mutateU8 rng fuel messageType messageTypes
      pure (some (.sendRawFrame messageType extensionType))
    else
      let extensionType ← mutateU16 rng fuel extensionType extensionTypes
      pure (some (.sendRawFrame messageType extensionType))
  | .endBuildSetupConnection _ | .sendSetupConnection _ | .beginOnSetupSuccess _ => pure none
  | .nop _ _ | .connect | .beginBuildSetupConnection | .endOnSetupSuccess | .setVersions
  | .setFlags | .setEndpoint | .setDeviceInfo | .advanceTime | .probe => pure none

/-- Rewrite the first instruction of the order that admits it. -/
def OperationMutator.rewriteFirst (fuel : Nat) (p : Program) :
    List Nat → Draw Panic ρ (Except MutatorError Unit × Program)
  | [] => pure (.error .noMutationsAvailable, p)
  | index :: order =>
    match p.instructions[index]? with
    | none => Draw.lift (.error .indexOutOfBounds)
    | some instruction => do
      match ← mutateOperation rng fuel p.context instruction.operation with
      | none => OperationMutator.rewriteFirst fuel p order
      | some mutated =>
        if mutated = instruction.operation then
          -- a debug assertion of the source
          Draw.lift (.error (.expect "a rewrite has to change the operation"))
        else
          pure (.ok (),
            { p with
              instructions := p.instructions.set index { instruction with operation := mutated } })

/-- Rewrite the data an operation carries, leaving the shape of the program alone. -/
def OperationMutator.mutate (fuel : Nat) (p : Program) :
    Draw Panic ρ (Except MutatorError Unit × Program) := do
  let order ← rng.shuffled p.instructions.length
  OperationMutator.rewriteFirst rng fuel p order

/-! ## `concat.rs` -/

def variableCount (p : Program) : Nat :=
  (p.instructions.map fun i => i.operation.numOutputs + i.operation.numInnerOutputs).sum

/-- Append another program's instructions, renumbering their inputs. -/
def ConcatMutator.splice (p other : Program) :
    Draw Panic ρ (Except MutatorError Unit × Program) :=
  if other.instructions.isEmpty then pure (.error .noMutationsAvailable, p)
  else do
    -- the appended instructions' own variables sit after those of the program
    let appended := other.instructions.map (Instruction.shift (variableCount p))
    let instructions := p.instructions ++ appended
    match ← Draw.lift (Program.validate ⟨p.context, instructions⟩) with
    | .error _ => pure (.error .createdInvalidProgram, p)
    | .ok _ => pure (.ok (), { p with instructions })

def ConcatMutator.mutate (p : Program) : Draw Panic ρ (Except MutatorError Unit × Program) :=
  ConcatMutator.splice p p

/-! ## `generate.rs` -/

/-- Append a generated fragment to a program. -/
def GeneratorMutator.mutate (generate : Gen ρ Unit) (p : Program) :
    Draw Panic ρ (Except MutatorError Unit × Program) := do
  match ← Draw.lift (ProgramBuilder.fromPrefix p.context p.instructions) with
  | .error _ => pure (.error .createdInvalidProgram, p)
  | .ok builder =>
    let (result, builder) ← generate builder
    match result with
    | .error _ => pure (.error .createdInvalidProgram, p)
    | .ok () =>
      match ← Draw.lift builder.finalize with
      | .error _ => pure (.error .createdInvalidProgram, p)
      | .ok program => pure (.ok (), program)

end Mutators

/-! ## Rewrites -/

/-- What the discipline sees of an operation, its inputs apart. -/
def Operation.shape (op : Operation) : Token BlockKind × List Variable × List Variable × Bool :=
  (op.bracket, op.getOutputVariables, op.getInnerOutputVariables, op.isNop)

/-- `op'` may stand in the place of `op`, and is another operation. -/
structure Rewrites (ctx : ProgramContext) (op op' : Operation) : Prop where
  shape : op'.shape = op.shape
  inputs : op'.getInputVariables = op.getInputVariables
  ne : op' ≠ op
  role : ∀ r, op' = .loadRole r → r < ctx.numRoles
  connection : ∀ c, op' = .loadConnection c → c < ctx.numConnections

/-- The operations another one may be rewritten to: only the value it carries is
another, and a role or a connection is one of the context. -/
inductive Rewrite (ctx : ProgramContext) : Operation → Operation → Prop where
  | role {r r' : Nat} : r' < ctx.numRoles → r' ≠ r → Rewrite ctx (.loadRole r) (.loadRole r')
  | connection {c c' : Nat} : c' < ctx.numConnections → c' ≠ c →
    Rewrite ctx (.loadConnection c) (.loadConnection c')
  | version {v v' : UInt16} : v' ≠ v → Rewrite ctx (.loadVersion v) (.loadVersion v')
  | flags {v v' : UInt32} : v' ≠ v → Rewrite ctx (.loadFlags v) (.loadFlags v')
  | port {v v' : UInt16} : v' ≠ v → Rewrite ctx (.loadPort v) (.loadPort v')
  | str {v v' : String} : v' ≠ v → Rewrite ctx (.loadStr v) (.loadStr v')
  | bytes {v v' : List UInt8} : v' ≠ v → Rewrite ctx (.loadBytes v) (.loadBytes v')
  | duration {v v' : Nat} : v' ≠ v → Rewrite ctx (.loadDuration v) (.loadDuration v')
  | messageType {m m' : UInt8} {e : UInt16} : m' ≠ m →
    Rewrite ctx (.sendRawFrame m e) (.sendRawFrame m' e)
  | extensionType {m : UInt8} {e e' : UInt16} : e' ≠ e →
    Rewrite ctx (.sendRawFrame m e) (.sendRawFrame m e')

theorem Rewrite.rewrites {ctx : ProgramContext} {op op' : Operation} (h : Rewrite ctx op op') :
    Rewrites ctx op op' := by
  cases h with
  | role hLt hNe => exact ⟨rfl, rfl, by simpa using hNe, by rintro r ⟨⟩; exact hLt, by rintro c ⟨⟩⟩
  | connection hLt hNe =>
    exact ⟨rfl, rfl, by simpa using hNe, by rintro r ⟨⟩, by rintro c ⟨⟩; exact hLt⟩
  | version hNe | flags hNe | port hNe | str hNe | bytes hNe | duration hNe | messageType hNe
  | extensionType hNe => exact ⟨rfl, rfl, by simpa using hNe, by rintro r ⟨⟩, by rintro c ⟨⟩⟩

/-- What a rewrite may come to: a rewritten operation, or nothing if there is none. -/
def RewriteOrNone (ctx : ProgramContext) (op : Operation) : Option Operation → Prop
  | some op' => Rewrite ctx op op'
  | none => ∀ op', ¬ Rewrite ctx op op'

section Rewriting

variable {ρ : Type} (rng : RngExt ρ)

theorem ensures_otherIndex (current count : Nat) :
    Ensures (otherIndex rng current count) fun o =>
      (∀ k, o = some k → k < count ∧ k ≠ current) ∧ (o = none → ∀ k < count, k = current) := by
  unfold otherIndex
  split
  · exact Ensures.pure ⟨by rintro k ⟨⟩, fun _ k hk => by omega⟩
  split
  · refine Ensures.bind (rng.ensures_randomRange emptyRange 64 (by omega)) fun pick hPick =>
      Ensures.pure ⟨fun k hk => ?_, by rintro ⟨⟩⟩
    obtain rfl := Option.some.inj hk
    omega
  split
  · exact Ensures.pure ⟨by rintro k ⟨⟩, fun _ k hk => by omega⟩
  · refine Ensures.bind (rng.ensures_randomRange emptyRange 64 (by omega)) fun pick hPick =>
      Ensures.pure ⟨fun k hk => ?_, by rintro ⟨⟩⟩
    obtain rfl := Option.some.inj hk
    split <;> omega

theorem ensures_wordCandidate {width : Nat} (hWidth : 0 < width) (value : BitVec width)
    {edges : List (BitVec width)} (hEdges : edges ≠ []) :
    Ensures (wordCandidate rng value edges) fun _ => True := by
  refine Ensures.bind (rng.ensures_randomRange emptyRange 8 (by decide)) fun k _ => ?_
  match k with
  | 0 => exact (ensures_chooseFrom rng hEdges _).mono fun _ _ => trivial
  | 1 =>
    exact Ensures.bind (rng.ensures_randomRange emptyRange 32 hWidth) fun _ _ =>
      Ensures.pure trivial
  | k + 2 => exact rng.ensures_random width

theorem yields_mutateWord {width : Nat} (hWidth : 0 < width) (fuel : Nat) (value : BitVec width)
    {edges : List (BitVec width)} (hEdges : edges ≠ []) :
    Yields (mutateWord rng fuel value edges) fun word => word ≠ value :=
  ((ensures_wordCandidate rng hWidth value hEdges).yields.retry fuel).mono fun _ h => by
    simpa using h.2

theorem yields_mutateU8 (fuel : Nat) (value : UInt8) {edges : List UInt8} (hEdges : edges ≠ []) :
    Yields (mutateU8 rng fuel value edges) fun word => word ≠ value :=
  (yields_mutateWord rng (by decide) fuel _ (by simpa using hEdges)).bind fun word hWord =>
    Yields.pure fun hEq => hWord (congrArg UInt8.toBitVec hEq)

theorem yields_mutateU16 (fuel : Nat) (value : UInt16) {edges : List UInt16} (hEdges : edges ≠ []) :
    Yields (mutateU16 rng fuel value edges) fun word => word ≠ value :=
  (yields_mutateWord rng (by decide) fuel _ (by simpa using hEdges)).bind fun word hWord =>
    Yields.pure fun hEq => hWord (congrArg UInt16.toBitVec hEq)

theorem yields_mutateU32 (fuel : Nat) (value : UInt32) {edges : List UInt32} (hEdges : edges ≠ []) :
    Yields (mutateU32 rng fuel value edges) fun word => word ≠ value :=
  (yields_mutateWord rng (by decide) fuel _ (by simpa using hEdges)).bind fun word hWord =>
    Yields.pure fun hEq => hWord (congrArg UInt32.toBitVec hEq)

theorem yields_mutateString (fuel : Nat) (value : String) :
    Yields (mutateString rng fuel value) fun text => text ≠ value := by
  have hCandidate : Ensures (stringCandidate rng value) fun _ => True := by
    refine Ensures.bind (rng.ensures_randomRange emptyRange 8 (by decide)) fun k _ => ?_
    match k with
    | 0 => exact Ensures.pure trivial
    | 1 => exact Ensures.pure trivial
    | 2 => exact Ensures.pure trivial
    | k + 3 =>
      exact Ensures.bind (rng.ensures_randomRange emptyRange 8 (by decide)) fun _ _ =>
        Ensures.pure trivial
  exact (hCandidate.yields.retry fuel).mono fun _ h => by simpa using h.2

theorem yields_mutateBytes (fuel : Nat) (value : List UInt8) :
    Yields (mutateBytes rng fuel value) fun bytes => bytes ≠ value := by
  have hCandidate : Ensures (bytesCandidate rng value) fun _ => True := by
    refine Ensures.bind (rng.ensures_randomRange emptyRange 8 (by decide)) fun k _ => ?_
    match k, hEmpty : value.isEmpty with
    | 0, false =>
      have hLen : 0 < value.length := List.length_pos_iff.mpr (by simpa using hEmpty)
      refine Ensures.bind (rng.ensures_randomRange emptyRange 64 hLen) fun _ _ => ?_
      exact Ensures.bind (rng.ensures_randomRange emptyRange 32 (by decide)) fun _ _ =>
        Ensures.pure trivial
    | 0, true => exact Ensures.pure trivial
    | 1, _ => exact Ensures.bind (rng.ensures_random 8) fun _ _ => Ensures.pure trivial
    | k + 2, _ => exact Ensures.pure trivial
  exact (hCandidate.yields.retry fuel).mono fun _ h => by simpa using h.2

theorem yields_mutateDuration (fuel : Nat) (value : Nat) :
    Yields (mutateDuration rng fuel value) fun duration => duration ≠ value := by
  have hCandidate : Ensures (durationCandidate rng) fun _ => True := by
    refine Ensures.bind (rng.ensures_randomBool 50) fun b _ => ?_
    cases b with
    | true => exact (ensures_chooseFrom rng (by decide) _).mono fun _ _ => trivial
    | false =>
      exact Ensures.bind (rng.ensures_randomRange emptyRange 64 (by decide)) fun _ _ =>
        Ensures.pure trivial
  exact (hCandidate.yields.retry fuel).mono fun _ h => by simpa using h.2

/-- A rewrite of the data an operation carries. -/
theorem yields_rewrite {α : Type} {ctx : ProgramContext} {op : Operation} {make : α → Operation}
    {m : Draw Panic ρ α} {P : α → Prop} (h : Yields m P)
    (hMake : ∀ a, P a → Rewrite ctx op (make a)) :
    Yields (do let a ← m; pure (some (make a))) (RewriteOrNone ctx op) :=
  h.bind fun a ha => Yields.pure (hMake a ha)

theorem ensures_loadRole (fuel : Nat) (ctx : ProgramContext) (role : Nat) :
    Ensures (mutateOperation rng fuel ctx (.loadRole role)) (RewriteOrNone ctx (.loadRole role)) := by
  refine (ensures_otherIndex rng role ctx.numRoles).bind fun o ho => Ensures.pure ?_
  cases o with
  | none =>
    intro op' hRewrite
    cases hRewrite with
    | role hLt hNe => exact hNe (ho.2 rfl _ hLt)
  | some k => exact .role (ho.1 k rfl).1 (ho.1 k rfl).2

theorem ensures_loadConnection (fuel : Nat) (ctx : ProgramContext) (connection : Nat) :
    Ensures (mutateOperation rng fuel ctx (.loadConnection connection))
      (RewriteOrNone ctx (.loadConnection connection)) := by
  refine (ensures_otherIndex rng connection ctx.numConnections).bind fun o ho => Ensures.pure ?_
  cases o with
  | none =>
    intro op' hRewrite
    cases hRewrite with
    | connection hLt hNe => exact hNe (ho.2 rfl _ hLt)
  | some k => exact .connection (ho.1 k rfl).1 (ho.1 k rfl).2

/-- **Whatever an operation is rewritten to** differs in the value it carries, and
it is left alone only if there is no such rewrite. -/
theorem yields_mutateOperation (fuel : Nat) (ctx : ProgramContext) (op : Operation) :
    Yields (mutateOperation rng fuel ctx op) (RewriteOrNone ctx op) := by
  cases op with
  | loadRole role => exact (ensures_loadRole rng fuel ctx role).yields
  | loadConnection connection => exact (ensures_loadConnection rng fuel ctx connection).yields
  | loadVersion value =>
    exact yields_rewrite (yields_mutateU16 rng fuel value (by decide)) fun a ha => .version ha
  | loadFlags value =>
    exact yields_rewrite (yields_mutateU32 rng fuel value (by decide)) fun a ha => .flags ha
  | loadPort value =>
    exact yields_rewrite (yields_mutateU16 rng fuel value (by decide)) fun a ha => .port ha
  | loadStr value => exact yields_rewrite (yields_mutateString rng fuel value) fun a ha => .str ha
  | loadBytes value => exact yields_rewrite (yields_mutateBytes rng fuel value) fun a ha => .bytes ha
  | loadDuration value =>
    exact yields_rewrite (yields_mutateDuration rng fuel value) fun a ha => .duration ha
  | sendRawFrame messageType extensionType =>
    refine (rng.ensures_randomBool 50).yields.bind fun b _ => ?_
    cases b with
    | true =>
      exact yields_rewrite (yields_mutateU8 rng fuel messageType (by decide))
        fun a ha => .messageType ha
    | false =>
      exact yields_rewrite (yields_mutateU16 rng fuel extensionType (by decide))
        fun a ha => .extensionType ha
  | _ => exact Yields.pure fun op' hRewrite => by cases hRewrite

/-- An operation that cannot be rewritten draws nothing that could go on for ever. -/
theorem ensures_mutateOperation (fuel : Nat) {ctx : ProgramContext} {op : Operation}
    (hFixed : ∀ op', ¬ Rewrite ctx op op') :
    Ensures (mutateOperation rng fuel ctx op) fun out => out = none := by
  -- every load has another value, so nothing is left but none
  have hNone : ∀ out, RewriteOrNone ctx op out → out = none := fun out hOut => by
    cases out with
    | none => rfl
    | some op' => exact absurd hOut (hFixed op')
  cases op with
  | loadRole role => exact (ensures_loadRole rng fuel ctx role).mono hNone
  | loadConnection connection => exact (ensures_loadConnection rng fuel ctx connection).mono hNone
  | loadVersion value => exact absurd (.version (by grind)) (hFixed (.loadVersion (value + 1)))
  | loadFlags value => exact absurd (.flags (by grind)) (hFixed (.loadFlags (value + 1)))
  | loadPort value => exact absurd (.port (by grind)) (hFixed (.loadPort (value + 1)))
  | loadStr value =>
    have hNe : value.push 'a' ≠ value := fun hEq => by simpa using congrArg String.length hEq
    exact absurd (.str hNe) (hFixed (.loadStr (value.push 'a')))
  | loadBytes value => exact absurd (.bytes (by simp)) (hFixed (.loadBytes (0 :: value)))
  | loadDuration value => exact absurd (.duration (by omega)) (hFixed (.loadDuration (value + 1)))
  | sendRawFrame messageType extensionType =>
    exact absurd (.messageType (by grind)) (hFixed (.sendRawFrame (messageType + 1) extensionType))
  | _ => exact Ensures.pure rfl

end Rewriting

/-! ## Programs of one shape -/

def shapes (is : List Instruction) : List (Token BlockKind × List Variable × List Variable × Bool) :=
  is.map fun i => i.operation.shape

theorem brackets_of_shapes {is is' : List Instruction} (h : shapes is = shapes is') :
    brackets is = brackets is' := by
  have hMap := congrArg (List.map Prod.fst) h
  rwa [shapes, shapes, List.map_map, List.map_map] at hMap

theorem definitions_of_shapes {is is' : List Instruction} (h : shapes is = shapes is') :
    definitions is = definitions is' := by
  have hShape : ∀ l : List Instruction, definitions l = (shapes l).zipIdx.flatMap fun p =>
      p.1.2.1.map (Definition.mk p.2 false) ++ p.1.2.2.1.map (Definition.mk p.2 true) := by
    intro l
    rw [shapes, List.zipIdx_map, List.flatMap_map]
    rfl
  rw [hShape, hShape, h]

theorem visible_of_shapes {is is' : List Instruction} (h : shapes is = shapes is')
    (d : Definition) : Visible is d ↔ Visible is' d := by
  have hNop : ∀ l : List Instruction,
      (∀ i, l[d.instruction]? = some i → i.operation.isNop = false) ↔
        ∀ x, (shapes l)[d.instruction]? = some x → x.2.2.2 = false := by
    intro l
    simp [shapes, shape]
  have hLength : is.length = is'.length := by
    have := congrArg List.length h
    simpa [shapes] using this
  have hLives : ∀ home, LivesIn is d home ↔ LivesIn is' d home := fun home => by
    cases home <;> simp only [LivesIn, brackets_of_shapes h]
  simp only [Visible, hNop, h, hLives, brackets_of_shapes h, hLength]

/-- What can be named does not depend on the data operations carry. -/
theorem names_of_shapes {is is' : List Instruction} (h : shapes is = shapes is') {v : Nat}
    {var : Variable} : Names is v var ↔ Names is' v var := by
  simp only [Names, definitions_of_shapes h, visible_of_shapes h]

theorem WellTypedAfter.of_shapes {ctx : ProgramContext} {is is' : List Instruction}
    (h : shapes is = shapes is') {i : Instruction} (hAfter : WellTypedAfter ctx is i) :
    WellTypedAfter ctx is' i :=
  ⟨hAfter.arity, fun k v var hv hVar => (names_of_shapes h).mp (hAfter.inputs k v var hv hVar),
    hAfter.role, hAfter.connection⟩

/-- **An instruction may be exchanged** for another of its shape that may stand
where it stands; nothing after it can tell. -/
theorem wellTyped_set {ctx : ProgramContext} {is : List Instruction} (hTyped : WellTyped ctx is)
    {n : Nat} {i i' : Instruction} (hi : is[n]? = some i)
    (hShape : i'.operation.shape = i.operation.shape)
    (hAfter : WellTypedAfter ctx (is.take n) i') : WellTyped ctx (is.set n i') := by
  have hn := (List.getElem?_eq_some_iff.mp hi).1
  -- the typing of an instruction depends on the shapes before it only
  have hShapes : ∀ m, shapes (is.take m) = shapes ((is.set n i').take m) := by
    intro m
    simp only [shapes, List.map_take, List.map_set, hShape]
    congr 1
    refine (List.ext_getElem? fun k => ?_)
    rw [List.getElem?_set, List.getElem?_map]
    split
    · rename_i hEq
      subst hEq
      simp [hn, (List.getElem?_eq_some_iff.mp hi).2]
    · rfl
  have hWhole : brackets (is.set n i') = brackets is := by
    have := brackets_of_shapes (hShapes is.length)
    rw [List.take_length, List.take_of_length_le (by simp)] at this
    exact this.symm
  refine ⟨hWhole ▸ hTyped.balanced, fun m j hj => ?_⟩
  refine WellTypedAfter.of_shapes (hShapes m) ?_
  rw [List.getElem?_set] at hj
  split at hj
  · rename_i hEq
    subst hEq
    obtain rfl := Option.some.inj (by simpa [hn] using hj)
    exact hAfter
  · exact hTyped.instructions m j hj

/-! ## What a mutator owes -/

/-- A mutation that succeeds makes a valid program of the same context, and one
that does not leaves the program as it was. -/
structure KeepsValid (p : Program) (out : Except MutatorError Unit × Program) : Prop where
  ok : out.1 = .ok () → out.2.isStaticallyValid = .ok true ∧ out.2.context = p.context
  error : ∀ e, out.1 = .error e → out.2 = p

section Sound

variable {ρ : Type} {p : Program}

theorem keepsValid_error (e : MutatorError) :
    Ensures (pure (.error e, p) : Draw Panic ρ _) (KeepsValid p) :=
  Ensures.pure ⟨by rintro ⟨⟩, fun _ _ => rfl⟩

theorem keepsValid_ok {p' : Program} (h : WellTyped p'.context p'.instructions)
    (hContext : p'.context = p.context) :
    Ensures (pure (.ok (), p') : Draw Panic ρ _) (KeepsValid p) :=
  Ensures.pure ⟨fun _ => ⟨isStaticallyValid_iff.mpr h, hContext⟩, by rintro e ⟨⟩⟩

theorem building_take (h : WellTyped p.context p.instructions) (n : Nat) :
    ∃ s, Building p.context (p.instructions.take n) s := by
  obtain ⟨s, hs⟩ := openStack_take (balanced_iff_openStack.mp h.balanced) n
  exact ⟨s, by rwa [brackets_take], h.instructions.take n⟩

theorem Building.fromPrefix {ctx : ProgramContext} {is : List Instruction}
    {s : List (Nat × BlockKind)} (hB : Building ctx is s) :
    ProgramBuilder.fromPrefix ctx is = .ok (.ok (builderAt ctx is s)) :=
  fromPrefix_ok_iff.mpr ⟨hB.typed, s, hB.stack, rfl⟩

theorem InputMutator.keepsValid (rng : RngExt ρ) (hTyped : WellTyped p.context p.instructions) :
    Ensures (InputMutator.mutate rng p) (KeepsValid p) := by
  refine (RngExt.ensures_chooseBy rng.item _).bind fun choice hChoice => ?_
  cases choice with
  | none => exact keepsValid_error _
  | some index =>
    obtain ⟨⟨i, n⟩, hMem, rfl⟩ := List.mem_map.mp (hChoice.2 index rfl)
    obtain ⟨hAt, hInputs⟩ := List.mem_filter.mp hMem
    have hi : p.instructions[n]? = some i := List.mem_zipIdx_iff_getElem?.mp hAt
    have hAfter := hTyped.instructions n i hi
    obtain ⟨s, hB⟩ := building_take hTyped n
    refine Ensures.bind (Ensures.lift hB.fromPrefix (Eq.refl _)) fun built hBuilt => ?_
    subst hBuilt
    dsimp only
    rw [hi]
    have hSome : 0 < i.inputs.length := List.length_pos_iff.mpr (by simpa using hInputs)
    refine (rng.ensures_randomRange emptyRange 64 hSome).bind fun slot hSlot => ?_
    -- the input that is rewired names a variable
    have hSlot' : slot < i.operation.getInputVariables.length := by
      have := hAfter.arity
      rw [numInputs] at this
      omega
    have hVar := List.getElem?_eq_getElem hSlot'
    obtain ⟨-, hNames⟩ := hAfter.input hVar
    have hFound : (builderAt p.context (p.instructions.take n) s).getVariable (i.input slot) =
        some ⟨_, _⟩ := (getVariable_eq_some_iff p.context hB.stack).mpr ⟨rfl, hNames⟩
    rw [hFound]
    dsimp only
    refine (ensures_getRandomVariable rng hB.stack _).bind fun replacement hReplacement => ?_
    cases replacement with
    | none => exact keepsValid_error _
    | some w =>
      dsimp only
      split
      · exact keepsValid_error _
      · refine keepsValid_ok (wellTyped_set hTyped hi rfl ?_) rfl
        -- and so does what takes its place
        obtain ⟨hType, hNew⟩ := hReplacement.2 w rfl
        refine ⟨?_, fun k v var hv hk => ?_, hAfter.role, hAfter.connection⟩
        · show (i.inputs.set slot w.index).length = _
          rw [List.length_set, hAfter.arity]
        · rw [List.getElem?_set] at hv
          split at hv
          · rename_i hEq
            subst hEq
            obtain rfl := Option.some.inj (by simpa [hSlot.2] using hv)
            obtain rfl := Option.some.inj (hVar.symm.trans hk)
            exact hNew
          · exact hAfter.inputs k v var hv hk

/-- The program with one operation rewritten, and nothing else. -/
structure Program.RewrittenAt (p : Program) (n : Nat) (i : Instruction) (op' : Operation)
    (p' : Program) : Prop where
  at_index : p.instructions[n]? = some i
  rewrite : Rewrite p.context i.operation op'
  result : p' = { p with instructions := p.instructions.set n { i with operation := op' } }

/-- A rewritten program is as well typed as it was. -/
theorem Program.RewrittenAt.wellTyped {p' : Program} {n : Nat} {i : Instruction} {op' : Operation}
    (h : p.RewrittenAt n i op' p') (hTyped : WellTyped p.context p.instructions) :
    WellTyped p'.context p'.instructions ∧ p'.context = p.context := by
  obtain ⟨hi, hRewrite, rfl⟩ := h
  have hRewrites := hRewrite.rewrites
  have hAfter := hTyped.instructions n i hi
  refine ⟨wellTyped_set hTyped hi hRewrites.shape ?_, rfl⟩
  refine ⟨?_, fun k v var hv hk => ?_, hRewrites.role, hRewrites.connection⟩
  · show _ = op'.getInputVariables.length
    rw [hRewrites.inputs]
    exact hAfter.arity
  · exact hAfter.inputs k v var hv (hRewrites.inputs ▸ hk)

/-- The mutator rewrites one operation of the order it goes through, or finds none
that could be rewritten. -/
theorem OperationMutator.yields_rewriteFirst (rng : RngExt ρ) (fuel : Nat) {order : List Nat}
    (hOrder : ∀ n ∈ order, n < p.instructions.length) :
    Yields (OperationMutator.rewriteFirst rng fuel p order) fun out =>
      (out.1 = .ok () ∧ ∃ n i op', p.RewrittenAt n i op' out.2) ∨
      (out = (.error .noMutationsAvailable, p) ∧ ∀ n ∈ order, ∀ i, p.instructions[n]? = some i →
        ∀ op', ¬ Rewrite p.context i.operation op') := by
  induction order with
  | nil => exact Yields.pure (Or.inr ⟨rfl, fun n hn => by cases hn⟩)
  | cons n order ih =>
    obtain ⟨hn, hRest⟩ := List.forall_mem_cons.mp hOrder
    have hi := List.getElem?_eq_getElem hn
    rw [OperationMutator.rewriteFirst, hi]
    refine (yields_mutateOperation rng fuel p.context _).bind fun choice hChoice => ?_
    cases choice with
    | none =>
      -- the instruction cannot be rewritten, so one of the rest is, or none can be
      refine (ih hRest).mono fun out hOut => hOut.imp_right fun hNone => ⟨hNone.1, fun m hm j hj => ?_⟩
      rcases List.mem_cons.mp hm with rfl | hm
      · obtain rfl := Option.some.inj (hi.symm.trans hj)
        exact hChoice
      · exact hNone.2 m hm j hj
    | some mutated =>
      dsimp only
      rw [if_neg (Rewrite.rewrites hChoice).ne]
      exact Yields.pure (Or.inl ⟨rfl, n, _, mutated, hi, hChoice, rfl⟩)

theorem OperationMutator.ensures_rewriteFirst (rng : RngExt ρ) (fuel : Nat)
    (hFixed : ∀ i ∈ p.instructions, ∀ op', ¬ Rewrite p.context i.operation op') {order : List Nat}
    (hOrder : ∀ n ∈ order, n < p.instructions.length) :
    Ensures (OperationMutator.rewriteFirst rng fuel p order) fun out =>
      out = (.error .noMutationsAvailable, p) := by
  induction order with
  | nil => exact Ensures.pure rfl
  | cons n order ih =>
    obtain ⟨hn, hRest⟩ := List.forall_mem_cons.mp hOrder
    have hi := List.getElem?_eq_getElem hn
    rw [OperationMutator.rewriteFirst, hi]
    have hNone := ensures_mutateOperation rng fuel (hFixed _ (List.mem_of_getElem? hi))
    refine hNone.bind fun choice hChoice => ?_
    subst hChoice
    exact ih hRest

theorem shuffled_lt {order : List Nat} (hOrder : order.Perm (List.range p.instructions.length)) :
    ∀ n ∈ order, n < p.instructions.length := fun _ hn => List.mem_range.mp (hOrder.subset hn)

theorem OperationMutator.keepsValid (rng : RngExt ρ) (fuel : Nat)
    (hTyped : WellTyped p.context p.instructions) :
    Yields (OperationMutator.mutate rng fuel p) (KeepsValid p) := by
  refine (rng.ensures_shuffled _).yields.bind fun order hOrder => ?_
  refine (OperationMutator.yields_rewriteFirst rng fuel (shuffled_lt hOrder)).mono fun out hOut => ?_
  rcases hOut with ⟨hOk, n, i, op', hRewritten⟩ | ⟨rfl, -⟩
  · obtain ⟨hTyped', hContext⟩ := hRewritten.wellTyped hTyped
    exact ⟨fun _ => ⟨isStaticallyValid_iff.mpr hTyped', hContext⟩,
      fun e hError => by rw [hOk] at hError; cases hError⟩
  · exact ⟨fun hOk => (by cases hOk), fun _ _ => rfl⟩

/-- Validation returns where the blocks are balanced. -/
theorem validate_returns (h : Balanced (brackets p.instructions)) :
    ∃ verdict, p.validate = .ok verdict :=
  ((validation_returns_iff p).mpr (not_unopenedEnd (balanced_iff_openStack.mp h))).1

theorem variableCount_eq (p : Program) : variableCount p = (definitions p.instructions).length := by
  rw [variableCount, length_definitions]
  rfl

/-- A splice is a concatenation, once it has been checked. -/
theorem ConcatMutator.splice_eq {other : Program} (h : other.instructions ≠ []) :
    (ConcatMutator.splice p other : Draw Panic ρ _) = (do
      let instructions := p.instructions ++ shiftAll p.instructions other.instructions
      match ← Draw.lift (Program.validate ⟨p.context, instructions⟩) with
      | .error _ => pure (.error .createdInvalidProgram, p)
      | .ok _ => pure (.ok (), { p with instructions })) := by
  rw [ConcatMutator.splice, if_neg (by simpa using h), variableCount_eq]
  rfl

theorem ConcatMutator.splice_keepsValid (hTyped : WellTyped p.context p.instructions)
    {other : Program} (hOther : Balanced (brackets other.instructions)) :
    Ensures (ConcatMutator.splice p other : Draw Panic ρ _) (KeepsValid p) := by
  by_cases hEmpty : other.instructions = []
  · rw [ConcatMutator.splice, if_pos (by simpa using hEmpty)]
    exact keepsValid_error _
  · rw [ConcatMutator.splice_eq hEmpty]
    have hBalanced : Balanced (brackets (p.instructions ++
        shiftAll p.instructions other.instructions)) := by
      rw [brackets_append, brackets_shiftAll]
      exact hTyped.balanced.append hOther
    obtain ⟨verdict, hVerdict⟩ := validate_returns (p := ⟨p.context, _⟩) hBalanced
    refine Ensures.bind (Ensures.lift hVerdict (Eq.refl _)) fun found hFound => ?_
    cases found with
    | error e => exact keepsValid_error _
    | ok q => exact keepsValid_ok (validate_ok_iff.mp (hVerdict.trans (by rw [hFound]))).1 rfl

/-- A program that is valid where it is put can be appended. -/
theorem ConcatMutator.splice_ok (hTyped : WellTyped p.context p.instructions) {other : Program}
    (hOther : WellTyped p.context other.instructions) (hEmpty : other.instructions ≠ []) (r : ρ) :
    ConcatMutator.splice p other r = some (.ok ((.ok (),
      ⟨p.context, p.instructions ++ shiftAll p.instructions other.instructions⟩), r)) := by
  have hAppended := validate_ok_iff.mpr ⟨show WellTyped (Program.mk p.context _).context _ from
    wellTyped_append hTyped hOther, rfl⟩
  rw [ConcatMutator.splice_eq hEmpty]
  dsimp only
  rw [hAppended]
  rfl

theorem GeneratorMutator.keepsValid (rng : RngExt ρ) (hTyped : WellTyped p.context p.instructions)
    (g : AnyGenerator) :
    Ensures (GeneratorMutator.mutate (g.generate rng) p) (KeepsValid p) := by
  have hB : Building p.context p.instructions [] :=
    ⟨balanced_iff_openStack.mp hTyped.balanced, hTyped.instructions⟩
  refine Ensures.bind (Ensures.lift hB.fromPrefix (Eq.refl _)) fun built hBuilt => ?_
  subst hBuilt
  refine Ensures.bind (AnyGenerator.builds_generate rng hB g) ?_
  rintro ⟨result, builder⟩ hResult
  rcases hResult with ⟨-, e, hError⟩ | ⟨⟨⟩, is', s', hOk, hB', hs, -⟩
  · obtain rfl : result = .error e := hError
    exact keepsValid_error _
  · obtain ⟨rfl, rfl⟩ := Prod.mk.inj hOk
    subst hs
    -- the fragment has closed what it opened, so the builder can be finalized
    obtain ⟨-, hFinal⟩ | ⟨hOpen, -⟩ := finalize_builderAt p.context hB'.stack
    · refine Ensures.bind (Ensures.lift hFinal (Eq.refl _)) fun found hFound => ?_
      subst hFound
      exact keepsValid_ok ⟨balanced_iff_openStack.mpr hB'.stack, hB'.typed⟩ rfl
    · exact absurd rfl hOpen

/-- **No mutator leaves a valid program invalid**, and one that reports an error
leaves it alone. Rewriting an operation draws until the rewrite is another one,
so there the claim is about the runs that return; the other mutators return. A
program that is valid in the context of another can be spliced onto it. -/
theorem mutators_keep_validity (rng : RngExt ρ) (fuel : Nat)
    (hValid : p.isStaticallyValid = .ok true) :
    Ensures (InputMutator.mutate rng p) (KeepsValid p) ∧
      Yields (OperationMutator.mutate rng fuel p) (KeepsValid p) ∧
      Ensures (ConcatMutator.mutate p : Draw Panic ρ _) (KeepsValid p) ∧
      (∀ g : AnyGenerator, Ensures (GeneratorMutator.mutate (g.generate rng) p) (KeepsValid p)) ∧
      ∀ other : Program,
        (other.isStaticallyValid = .ok true →
          Ensures (ConcatMutator.splice p other : Draw Panic ρ _) (KeepsValid p)) ∧
        (other.instructions ≠ [] →
          Program.isStaticallyValid ⟨p.context, other.instructions⟩ = .ok true →
          Ensures (ConcatMutator.splice p other : Draw Panic ρ _) fun out => out.1 = .ok ()) := by
  have hTyped := isStaticallyValid_iff.mp hValid
  refine ⟨InputMutator.keepsValid rng hTyped, OperationMutator.keepsValid rng fuel hTyped,
    ConcatMutator.splice_keepsValid hTyped hTyped.balanced, GeneratorMutator.keepsValid rng hTyped,
    fun other => ⟨fun hOther => ?_, fun hEmpty hOther r => ?_⟩⟩
  · exact ConcatMutator.splice_keepsValid hTyped (isStaticallyValid_iff.mp hOther).balanced
  · have hAppended : WellTyped p.context other.instructions := isStaticallyValid_iff.mp hOther
    exact ⟨_, r, ConcatMutator.splice_ok hTyped hAppended hEmpty r, rfl⟩

end Sound

/-- A source that draws the lowest number there is, time and again. -/
def lowest : RngExt Unit where
  below _ _ h r := (⟨0, h⟩, r)
  bits _ r := (0, r)
  bool _ r := (false, r)
  index _ h r := (⟨0, h⟩, r)
  item _ h r := (⟨0, h⟩, r)
  order n r := (⟨List.range n, List.Perm.refl _⟩, r)

theorem mutators_keep_validity_singleSetup :
    Ensures (InputMutator.mutate lowest singleSetup) (KeepsValid singleSetup) ∧
      Ensures (ConcatMutator.splice singleSetup singleSetup : Draw Panic Unit _) fun out =>
        out.1 = .ok () := by
  have hAll := mutators_keep_validity lowest 0 (p := singleSetup) (by decide)
  exact ⟨hAll.1, (hAll.2.2.2.2 singleSetup).2 (by decide) (by decide)⟩

end Stratamoto
