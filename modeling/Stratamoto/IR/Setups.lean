import Stratamoto.IR.Compilation
import Stratamoto.IR.Actions

/-!
# Stratamoto — what a sent setup says

The setup on the wire, read off the source: the client's defaults, overridden
field by field by the last edit of the message before the build that finalized
it. Builds may nest, interleave, and finalize a message begun elsewhere; what an
edit of another message or a later edit does is lost on it.

* `LastSet is op m k i` — `i` at `k` is the last `op` on the message `m` in `is`;
* `DefinedBy is v op` — the variable `v` is defined by an `op`;
* `BuiltFrom is e m protocol spec` — the setup that the build ended at `e` makes of `m`;
* `messageSpec_last` — a field is what the last edit that sets it says;
* `setup_is_built` — so is the setup of every send.
-/

namespace Stratamoto

open Brackets Operation

/-! ## The last edit of a field -/

/-- The instruction at `k` is the last of `is` that does `op` to the message `m`. -/
structure LastSet (is : List Instruction) (op : Operation) (m k : Nat) (i : Instruction) :
    Prop where
  at_index : is[k]? = some i
  sets : i.operation = op ∧ i.input 0 = m
  last : ∀ (k' : Nat) (i' : Instruction), k < k' → is[k']? = some i' →
    ¬ (i'.operation = op ∧ i'.input 0 = m)

/-- The variable is defined by an instruction of the operation. -/
def DefinedBy (is : List Instruction) (v : Nat) (op : Operation) : Prop :=
  ∃ (d : Definition) (i : Instruction), (definitions is)[v]? = some d ∧
    is[d.instruction]? = some i ∧ i.operation = op

/-- What the last `op` on the message says holds, or the default does if there
is none. -/
structure SetBy (is : List Instruction) (op : Operation) (m : Nat) (given : Instruction → Prop)
    (default : Prop) : Prop where
  override : ∀ k i, LastSet is op m k i → given i
  untouched : (∀ k i, ¬ LastSet is op m k i) → default

/-- The setup made of the message `m` by the build that ends at `e`. -/
structure BuiltFrom (is : List Instruction) (e m : Nat) (protocol : Protocol)
    (spec : SetupConnectionSpec) : Prop where
  protocol : spec.protocol = protocol
  versions : SetBy (is.take e) .setVersions m
    (fun i => DefinedBy is (i.input 1) (.loadVersion spec.minVersion) ∧
      DefinedBy is (i.input 2) (.loadVersion spec.maxVersion))
    (spec.minVersion = ({} : SetupConnectionSpec).minVersion ∧
      spec.maxVersion = ({} : SetupConnectionSpec).maxVersion)
  flags : SetBy (is.take e) .setFlags m
    (fun i => DefinedBy is (i.input 1) (.loadFlags spec.flags))
    (spec.flags = ({} : SetupConnectionSpec).flags)
  endpoint : SetBy (is.take e) .setEndpoint m
    (fun i => DefinedBy is (i.input 1) (.loadStr spec.endpointHost) ∧
      DefinedBy is (i.input 2) (.loadPort spec.endpointPort))
    (spec.endpointHost = ({} : SetupConnectionSpec).endpointHost ∧
      spec.endpointPort = ({} : SetupConnectionSpec).endpointPort)
  deviceInfo : SetBy (is.take e) .setDeviceInfo m
    (fun i => DefinedBy is (i.input 1) (.loadStr spec.vendor) ∧
      DefinedBy is (i.input 2) (.loadStr spec.hardwareVersion) ∧
      DefinedBy is (i.input 3) (.loadStr spec.firmware) ∧
      DefinedBy is (i.input 4) (.loadStr spec.deviceId))
    (spec.vendor = ({} : SetupConnectionSpec).vendor ∧
      spec.hardwareVersion = ({} : SetupConnectionSpec).hardwareVersion ∧
      spec.firmware = ({} : SetupConnectionSpec).firmware ∧
      spec.deviceId = ({} : SetupConnectionSpec).deviceId)

theorem LastSet.lt {is : List Instruction} {op : Operation} {m k : Nat} {i : Instruction}
    (h : LastSet is op m k i) : k < is.length :=
  (List.getElem?_eq_some_iff.mp h.at_index).1

/-- One more instruction that does `op` to the message is the last to. -/
theorem lastSet_snoc_of_sets {is : List Instruction} {op : Operation} {m k : Nat}
    {i j : Instruction} (hj : j.operation = op ∧ j.input 0 = m) :
    LastSet (is ++ [j]) op m k i ↔ k = is.length ∧ i = j := by
  have hAt : (is ++ [j])[is.length]? = some j := List.getElem?_concat_length
  constructor
  · intro h
    have hLen := h.lt
    rw [List.length_append, List.length_singleton] at hLen
    -- it is not the last, if another comes behind it
    have hLast : k = is.length := by
      by_contra hNe
      exact h.last is.length j (by omega) hAt hj
    subst hLast
    exact ⟨rfl, Option.some.inj (h.at_index.symm.trans hAt)⟩
  · rintro ⟨rfl, rfl⟩
    refine ⟨hAt, hj, fun k' i' hLt hk' => ?_⟩
    have hLen := (List.getElem?_eq_some_iff.mp hk').1
    rw [List.length_append, List.length_singleton] at hLen
    omega

/-- Any other leaves the last one what it was. -/
theorem lastSet_snoc_of_not {is : List Instruction} {op : Operation} {m k : Nat}
    {i j : Instruction} (hj : ¬ (j.operation = op ∧ j.input 0 = m)) :
    LastSet (is ++ [j]) op m k i ↔ LastSet is op m k i := by
  constructor
  · intro h
    have hLen := h.lt
    rw [List.length_append, List.length_singleton] at hLen
    -- `j` sets nothing here, so the last one that does is before it
    have hLt : k < is.length := by
      by_contra hGe
      obtain rfl : k = is.length := by omega
      have hSame := h.at_index
      rw [List.getElem?_concat_length, Option.some.injEq] at hSame
      exact hj (hSame ▸ h.sets)
    refine ⟨by rw [← h.at_index, List.getElem?_append_left hLt], h.sets, fun k' i' hk' hi' => ?_⟩
    have hLt' := (List.getElem?_eq_some_iff.mp hi').1
    exact h.last k' i' hk' (by rw [List.getElem?_append_left hLt', hi'])
  · intro h
    refine ⟨by rw [List.getElem?_append_left h.lt, h.at_index], h.sets, fun k' i' hk' hi' => ?_⟩
    rcases Nat.lt_or_ge k' is.length with hLt | hGe
    · rw [List.getElem?_append_left hLt] at hi'
      exact h.last k' i' hk' hi'
    · have hLen := (List.getElem?_eq_some_iff.mp hi').1
      rw [List.length_append, List.length_singleton] at hLen
      obtain rfl : k' = is.length := by omega
      rw [List.getElem?_concat_length, Option.some.injEq] at hi'
      exact hi' ▸ hj

/-- A field that one operation sets, and no other does, is what the last such
operation on the message says. -/
theorem messageSpec_last (ctx : ProgramContext) {α : Type} {op : Operation}
    {field : SetupConnectionSpec → α} {given : List Instruction → Instruction → α}
    (hEdit : op.isEdit = true)
    (hSets : ∀ before (i : Instruction) spec, i.operation = op →
      field (i.edit ctx before spec) = given before i)
    (hKeeps : ∀ before (i : Instruction) spec, i.operation ≠ op →
      field (i.edit ctx before spec) = field spec)
    (is : List Instruction) (m : Nat) :
    (∀ k i, LastSet is op m k i → field (messageSpec ctx is m) = given (is.take k) i) ∧
      ((∀ k i, ¬ LastSet is op m k i) → field (messageSpec ctx is m) = field {}) := by
  induction is using List.reverseRecOn with
  | nil =>
    refine ⟨fun k i h => ?_, fun _ => rfl⟩
    exact absurd h.lt (Nat.not_lt_zero k)
  | append_singleton is j ih =>
    rw [messageSpec_snoc]
    by_cases hj : j.operation = op ∧ j.input 0 = m
    · have hEdits : j.edits m = true := edits_iff.mpr ⟨by rw [hj.1, hEdit], hj.2⟩
      rw [if_pos hEdits, hSets _ _ _ hj.1]
      refine ⟨fun k i h => ?_, fun hNone => ?_⟩
      · obtain ⟨rfl, rfl⟩ := (lastSet_snoc_of_sets hj).mp h
        rw [List.take_left]
      · exact absurd ((lastSet_snoc_of_sets hj).mpr ⟨rfl, rfl⟩) (hNone _ _)
    · -- the field is the same after `j`
      have hSame : field (if j.edits m then j.edit ctx is (messageSpec ctx is m)
          else messageSpec ctx is m) = field (messageSpec ctx is m) := by
        split
        · rename_i hEdits
          exact hKeeps _ _ _ fun hOp => hj ⟨hOp, (edits_iff.mp hEdits).2⟩
        · rfl
      rw [hSame]
      refine ⟨fun k i h => ?_, fun hNone => ih.2 fun k i h => ?_⟩
      · have h' := (lastSet_snoc_of_not hj).mp h
        rw [List.take_append_of_le_length (Nat.le_of_lt h'.lt)]
        exact ih.1 k i h'
      · exact hNone k i ((lastSet_snoc_of_not hj).mpr h)

/-! ## What the inputs of an edit name -/

theorem DefinedBy.of_take {is : List Instruction} {n v : Nat} {op : Operation}
    (h : DefinedBy (is.take n) v op) : DefinedBy is v op := by
  obtain ⟨d, i, hd, hi, hOp⟩ := h
  exact ⟨d, i, definitions_take hd, (getElem?_of_take hi).2.1, hOp⟩

section Loaded

variable (ctx : ProgramContext) {is : List Instruction} {v : Nat}

/-- A value of a loaded type is the one its variable was loaded with. -/
theorem definedBy_load {α : Type} {var : Variable} {load : α → Operation} {read : Value → Option α}
    {fallback : α} (h : Names is v var) (hLoads : ∀ op : Operation, op.Makes var → ∃ a, op = load a)
    (hRead : ∀ before a, read (loaded ctx before (load a)) = some a) :
    DefinedBy is v (load ((read (constants ctx is v)).getD fallback)) := by
  obtain ⟨d, i, hd, hi, -, hVar⟩ := h.definition
  obtain ⟨a, hOp⟩ := hLoads _ (makes_of_output hVar)
  refine ⟨d, i, hd, hi, ?_⟩
  simp only [constants, hd, hi, hOp, hRead, Option.getD_some]

theorem definedBy_loadVersion (h : Names is v .version) :
    DefinedBy is v (.loadVersion (versionOf ctx is v)) :=
  definedBy_load ctx h (fun _ hMakes => hMakes) fun _ _ => rfl

theorem definedBy_loadFlags (h : Names is v .flags) :
    DefinedBy is v (.loadFlags (flagsOf ctx is v)) :=
  definedBy_load ctx h (fun _ hMakes => hMakes) fun _ _ => rfl

theorem definedBy_loadPort (h : Names is v .port) :
    DefinedBy is v (.loadPort (portOf ctx is v)) :=
  definedBy_load ctx h (fun _ hMakes => hMakes) fun _ _ => rfl

theorem definedBy_loadStr (h : Names is v .str) :
    DefinedBy is v (.loadStr (strOf ctx is v)) :=
  definedBy_load ctx h (fun _ hMakes => hMakes) fun _ _ => rfl

end Loaded

/-- An input of an edit, as the message it edits finds it. -/
theorem LastSet.input {ctx : ProgramContext} {is : List Instruction} {op : Operation} {m k : Nat}
    {i : Instruction} (hTyped : WellTypedPrefix ctx is) (h : LastSet is op m k i) {j : Nat}
    {var : Variable} (hVar : op.getInputVariables[j]? = some var) :
    Names (is.take k) (i.input j) var := by
  refine ((hTyped k i h.at_index).input ?_).2
  rw [h.sets.1]
  exact hVar

/-! ## The setup of a build -/

section Fields

variable (ctx : ProgramContext) (is : List Instruction) (m : Nat)

theorem messageSpec_versions :
    (∀ k i, LastSet is .setVersions m k i →
      ((messageSpec ctx is m).minVersion, (messageSpec ctx is m).maxVersion) =
        (versionOf ctx (is.take k) (i.input 1), versionOf ctx (is.take k) (i.input 2))) ∧
    ((∀ k i, ¬ LastSet is .setVersions m k i) →
      ((messageSpec ctx is m).minVersion, (messageSpec ctx is m).maxVersion) =
        (({} : SetupConnectionSpec).minVersion, ({} : SetupConnectionSpec).maxVersion)) := by
  refine @messageSpec_last ctx _ .setVersions (fun spec => (spec.minVersion, spec.maxVersion))
    (fun before i => (versionOf ctx before (i.input 1), versionOf ctx before (i.input 2))) rfl
    (fun before i spec hOp => ?_) (fun before i spec hOp => ?_) is m
  · simp only [Instruction.edit, hOp]
  · unfold Instruction.edit
    split <;> simp_all

theorem messageSpec_flags :
    (∀ k i, LastSet is .setFlags m k i →
      (messageSpec ctx is m).flags = flagsOf ctx (is.take k) (i.input 1)) ∧
    ((∀ k i, ¬ LastSet is .setFlags m k i) →
      (messageSpec ctx is m).flags = ({} : SetupConnectionSpec).flags) := by
  refine @messageSpec_last ctx _ .setFlags (fun spec => spec.flags)
    (fun before i => flagsOf ctx before (i.input 1)) rfl
    (fun before i spec hOp => ?_) (fun before i spec hOp => ?_) is m
  · simp only [Instruction.edit, hOp]
  · unfold Instruction.edit
    split <;> simp_all

theorem messageSpec_endpoint :
    (∀ k i, LastSet is .setEndpoint m k i →
      ((messageSpec ctx is m).endpointHost, (messageSpec ctx is m).endpointPort) =
        (strOf ctx (is.take k) (i.input 1), portOf ctx (is.take k) (i.input 2))) ∧
    ((∀ k i, ¬ LastSet is .setEndpoint m k i) →
      ((messageSpec ctx is m).endpointHost, (messageSpec ctx is m).endpointPort) =
        (({} : SetupConnectionSpec).endpointHost, ({} : SetupConnectionSpec).endpointPort)) := by
  refine @messageSpec_last ctx _ .setEndpoint (fun spec => (spec.endpointHost, spec.endpointPort))
    (fun before i => (strOf ctx before (i.input 1), portOf ctx before (i.input 2))) rfl
    (fun before i spec hOp => ?_) (fun before i spec hOp => ?_) is m
  · simp only [Instruction.edit, hOp]
  · unfold Instruction.edit
    split <;> simp_all

theorem messageSpec_deviceInfo :
    (∀ k i, LastSet is .setDeviceInfo m k i →
      ((messageSpec ctx is m).vendor, (messageSpec ctx is m).hardwareVersion,
        (messageSpec ctx is m).firmware, (messageSpec ctx is m).deviceId) =
        (strOf ctx (is.take k) (i.input 1), strOf ctx (is.take k) (i.input 2),
          strOf ctx (is.take k) (i.input 3), strOf ctx (is.take k) (i.input 4))) ∧
    ((∀ k i, ¬ LastSet is .setDeviceInfo m k i) →
      ((messageSpec ctx is m).vendor, (messageSpec ctx is m).hardwareVersion,
        (messageSpec ctx is m).firmware, (messageSpec ctx is m).deviceId) =
        (({} : SetupConnectionSpec).vendor, ({} : SetupConnectionSpec).hardwareVersion,
          ({} : SetupConnectionSpec).firmware, ({} : SetupConnectionSpec).deviceId)) := by
  refine @messageSpec_last ctx _ .setDeviceInfo
    (fun spec => (spec.vendor, spec.hardwareVersion, spec.firmware, spec.deviceId))
    (fun before i => (strOf ctx before (i.input 1), strOf ctx before (i.input 2),
      strOf ctx before (i.input 3), strOf ctx before (i.input 4))) rfl
    (fun before i spec hOp => ?_) (fun before i spec hOp => ?_) is m
  · simp only [Instruction.edit, hOp]
  · unfold Instruction.edit
    split <;> simp_all

end Fields

/-- The setup that a build makes of its message. -/
theorem builtFrom_messageSpec {ctx : ProgramContext} {is : List Instruction}
    (hTyped : WellTypedPrefix ctx is) (e m : Nat) (protocol : Protocol) :
    BuiltFrom is e m protocol { messageSpec ctx (is.take e) m with protocol } := by
  have hBefore := hTyped.take e
  constructor
  · rfl
  · -- each group of fields: the last setter of the group wrote it, or the default is left
    obtain ⟨hLast, hNone⟩ := messageSpec_versions ctx (is.take e) m
    refine ⟨fun k i hSet => ?_, fun hUnset => Prod.mk.inj (hNone hUnset)⟩
    obtain ⟨hMin, hMax⟩ := Prod.mk.inj (hLast k i hSet)
    simp only [hMin, hMax]
    exact ⟨(definedBy_loadVersion ctx (hSet.input hBefore rfl)).of_take.of_take,
      (definedBy_loadVersion ctx (hSet.input hBefore rfl)).of_take.of_take⟩
  · obtain ⟨hLast, hNone⟩ := messageSpec_flags ctx (is.take e) m
    refine ⟨fun k i hSet => ?_, hNone⟩
    simp only [hLast k i hSet]
    exact (definedBy_loadFlags ctx (hSet.input hBefore rfl)).of_take.of_take
  · obtain ⟨hLast, hNone⟩ := messageSpec_endpoint ctx (is.take e) m
    refine ⟨fun k i hSet => ?_, fun hUnset => Prod.mk.inj (hNone hUnset)⟩
    obtain ⟨hHost, hPort⟩ := Prod.mk.inj (hLast k i hSet)
    simp only [hHost, hPort]
    exact ⟨(definedBy_loadStr ctx (hSet.input hBefore rfl)).of_take.of_take,
      (definedBy_loadPort ctx (hSet.input hBefore rfl)).of_take.of_take⟩
  · obtain ⟨hLast, hNone⟩ := messageSpec_deviceInfo ctx (is.take e) m
    refine ⟨fun k i hSet => ?_, fun hUnset => ?_⟩
    · have hInfo := hLast k i hSet
      simp only [Prod.mk.injEq] at hInfo
      obtain ⟨hVendor, hHardware, hFirmware, hDevice⟩ := hInfo
      simp only [hVendor, hHardware, hFirmware, hDevice]
      exact ⟨(definedBy_loadStr ctx (hSet.input hBefore rfl)).of_take.of_take,
        (definedBy_loadStr ctx (hSet.input hBefore rfl)).of_take.of_take,
        (definedBy_loadStr ctx (hSet.input hBefore rfl)).of_take.of_take,
        (definedBy_loadStr ctx (hSet.input hBefore rfl)).of_take.of_take⟩
    · have hInfo := hNone hUnset
      simp only [Prod.mk.injEq] at hInfo
      exact hInfo

theorem WellTypedAfter.inputs_eq {ctx : ProgramContext} {is : List Instruction} {i : Instruction}
    (h : WellTypedAfter ctx is i) : i.inputs = (List.range i.operation.numInputs).map i.input := by
  refine List.ext_getElem (by simp [h.arity]) fun k hk _ => ?_
  simp [Instruction.input, hk]

/-- A finalized setup is the output of the end of a build, which gives it its
protocol and makes it of the message it consumes. -/
theorem names_setup_built {ctx : ProgramContext} {is : List Instruction} {n v : Nat}
    {protocol : Protocol} (hTyped : WellTypedPrefix ctx is)
    (h : Names (is.take n) v (.constSetupConnection protocol)) :
    ∃ (e m : Nat) (i : Instruction), e < n ∧ is[e]? = some i ∧
      i.operation = .endBuildSetupConnection protocol ∧ i.input 0 = m ∧
      (definitions is)[v]? = some ⟨e, false, .constSetupConnection protocol⟩ ∧
      DefinedBy is m .beginBuildSetupConnection ∧
      setupSpec ctx (is.take n) v = { messageSpec ctx (is.take e) m with protocol } := by
  obtain ⟨⟨e, inner, var⟩, i, hd, hi, -, hVar'⟩ := h.definition
  obtain ⟨d, hd', hType, -⟩ := h
  obtain rfl := Option.some.inj (hd'.symm.trans hd)
  obtain rfl : var = .constSetupConnection protocol := hType
  -- only the end of a message makes a built one
  have hOp : i.operation = .endBuildSetupConnection protocol := makes_of_output hVar'
  obtain rfl : inner = false := by
    rw [hOp] at hVar'
    cases inner with
    | false => rfl
    | true => cases hVar'
  obtain ⟨hLt, hAt, hBefore⟩ := getElem?_of_take hi
  -- and the message it ends was begun
  have hMessage : Names (is.take e) (i.input 0) .mutSetupConnection :=
    ((hTyped e i hAt).input (by rw [hOp]; rfl)).2
  obtain ⟨d', i', hd', hi', hBegin, -⟩ := names_mutSetupConnection ctx hMessage
  refine ⟨e, i.input 0, i, hLt, hAt, hOp, rfl, definitions_take hd,
    DefinedBy.of_take ⟨d', i', hd', hi', hBegin⟩, ?_⟩
  rw [setupSpec, (valueOf_eq ctx hd).2, Definition.value, hi]
  simp only [hOp, Instruction.result, hBefore]
  rfl

/-- **The setup on the wire.** In a statically valid program that compiles, every send
of a setup sends the one built by the end of a build of its protocol: the defaults,
overridden by the last edits of the message before that end. So says the record of
its session, and so does the frame. -/
theorem setup_is_built {S : Sv2} (hS : S.Lawful) {p : Program} {compiled : CompiledProgram}
    (hValid : p.isStaticallyValid = .ok true) (hCompile : Compiler.compile S p = .ok compiled)
    {n : Nat} {i : Instruction} {protocol : Protocol} (hi : p.instructions[n]? = some i)
    (hOp : i.operation = .sendSetupConnection protocol) :
    ∃ (c v e m a session : Nat) (build : Instruction) (spec : SetupConnectionSpec)
      (payload : List UInt8) (first : Bool),
      i.inputs = [c, v] ∧
      (definitions p.instructions)[v]? = some ⟨e, false, .constSetupConnection protocol⟩ ∧
      e < n ∧ p.instructions[e]? = some build ∧
      build.operation = .endBuildSetupConnection protocol ∧ build.inputs = [m] ∧
      DefinedBy p.instructions m .beginBuildSetupConnection ∧
      BuiltFrom p.instructions e m protocol spec ∧
      compiled.metadata.actionInstructions[a]? = some n ∧
      compiled.metadata.actionInstructions[a + 1]? = some n ∧
      (∃ connection, compiled.actions[a]? =
          some (.send connection 0 S.messageTypeSetupConnection false payload) ∧
        compiled.actions[a + 1]? =
          some (.awaitSetupResponse connection session protocol first)) ∧
      compiled.metadata.sessionSetups.lookup session = some spec ∧
      encodeSetupConnection S spec v = .ok payload := by
  obtain ⟨hTyped, hActions, hDescribes⟩ := compiled_of_valid hS hValid hCompile
  have hShort := noneTooLong_of_compile hS hTyped hCompile
  have hAfter := hTyped.instructions n i hi
  have hSetup : Names (p.instructions.take n) (i.input 1) (.constSetupConnection protocol) :=
    (hAfter.input (by rw [hOp]; rfl)).2
  obtain ⟨e, m, build, hLt, hBuild, hBuilds, rfl, hDefinition, hMessage, hSpec⟩ :=
    names_setup_built hTyped.instructions hSetup
  have hFrom : ComesFrom p.instructions (actionCount (p.instructions.take n)) n 0 i :=
    ⟨hi, by rw [hOp]; exact Nat.two_pos, rfl⟩
  have hFrom' : ComesFrom p.instructions (actionCount (p.instructions.take n) + 1) n 1 i :=
    ⟨hi, by rw [hOp]; exact Nat.lt_succ_self 1, rfl⟩
  -- what is sent is what the variable holds when it is sent
  refine ⟨i.input 0, i.input 1, e, build.input 0, actionCount (p.instructions.take n),
    sends (p.instructions.take n), build, setupSpec p.context (p.instructions.take n) (i.input 1),
    payloadOf S (setupSpec p.context (p.instructions.take n) (i.input 1)),
    firstOn p.context (p.instructions.take n)
      (connectionOf p.context (p.instructions.take n) (i.input 0)),
    ?_, hDefinition, hLt, hBuild, hBuilds, ?_, hMessage, ?_, ?_, ?_,
    ⟨connectionOf p.context (p.instructions.take n) (i.input 0), ?_, ?_⟩, ?_, ?_⟩
  · rw [hAfter.inputs_eq, hOp]
    rfl
  · rw [(hTyped.instructions e build hBuild).inputs_eq, hBuilds]
    rfl
  · rw [hSpec]
    exact builtFrom_messageSpec hTyped.instructions e _ protocol
  · rw [hDescribes.actionInstructions, hFrom.instruction]
  · rw [hDescribes.actionInstructions, hFrom'.instruction]
  · rw [hActions, hFrom.action, lower, hOp]
    rfl
  · rw [hActions, hFrom'.action, lower, hOp]
    rfl
  · exact (hDescribes.sessionSetups _ _).mpr ⟨n, i, hi, by
      rw [sessionEntry, if_pos (by rw [hOp]; rfl)]⟩
  · exact encodeSetupConnection_ok hS (setupSpec_not_tooLong hTyped hShort hi hOp) _

/-- The one setup of the program is built of the message begun before it. -/
theorem setup_is_built_singleSetup : ∃ compiled,
    Compiler.compile Sv2.wire singleSetup = .ok compiled ∧
    ∃ (e m session : Nat) (spec : SetupConnectionSpec),
      BuiltFrom singleSetup.instructions e m .mining spec ∧
      compiled.metadata.sessionSetups.lookup session = some spec := by
  obtain ⟨compiled, hCompile⟩ : ∃ compiled,
      Compiler.compile Sv2.wire singleSetup = .ok compiled := ⟨_, rfl⟩
  obtain ⟨c, v, e, m, a, session, build, spec, payload, first, -, -, -, -, -, -, -, hBuilt, -, -, -,
    hSession, -⟩ := setup_is_built Sv2.wire_lawful (by decide) hCompile
      (n := 4) (i := ⟨[1, 3], .sendSetupConnection .mining⟩) rfl rfl
  exact ⟨compiled, hCompile, e, m, session, spec, hBuilt, hSession⟩

end Stratamoto
