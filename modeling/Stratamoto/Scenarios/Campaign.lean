import Stratamoto.Scenarios.Fuzzed
import Stratamoto.Scenarios.Nyx

/-!
# Stratamoto — a campaign

A scenario that has come up in its VM dumps the context that programs for it are written
in; the agent hands the dump to the hypervisor, which puts it behind the file of that
name. A client of the fuzzer reads the context there, and where the input directory is
empty it writes the program that all others grow from. Clients send each other what is
in their corpora, and may be started again.

What the hypervisor, LibAFL and `postcard` do comes from outside. So a campaign is a
machine whose turns are what happens next, in any of its VMs and clients.

* `nyxDumpFileToHost` — a dump, with its name in a buffer of the agent's;
* `FuzzingCampaign.step` — one turn;
* `dumpToHost_eq` — what the hypervisor is given;
* `Sound`, `sound_step` — what every turn keeps;
* `campaign_is_judged` — whatever the clients come to have, the scenario judges.
-/

namespace Stratamoto

open Draws Machines Slices

/-! ## Dumps -/

structure KaflDumpFile where
  fileName : List UInt8
  data : List UInt8
  append : Bool
  deriving DecidableEq, Repr

/-- Copies a text up to its NUL, and fills up with more of them. -/
def strncpy (dst src : List UInt8) (n : Nat) : Option (List UInt8) :=
  let text := (src.take n).takeWhile (· ≠ 0)
  if n ≤ dst.length ∧ (n ≤ src.length ∨ 0 ∈ src) then
    some (overwrite dst 0 (text ++ List.replicate (n - text.length) 0))
  else none

def fileNameSize : Nat := 256

/-- The hypercall is given pointers, which it reads the name and the data from. -/
def nyxDumpFileToHost (fileName : List UInt8) (fileNameLen : Nat) (data : List UInt8) (len : Nat) :
    Option KaflDumpFile := do
  let fileNameArray ← strncpy (List.replicate fileNameSize 0) fileName
    (min fileNameLen fileNameSize)
  let fileName ← cText (fileNameArray.set (fileNameSize - 1) 0)
  if len ≤ data.length then some ⟨fileName, data.take len, true⟩ else none

/-- Neither of the two is followed by a NUL. -/
def dumpToHost (name : String) (bytes : List UInt8) : Option KaflDumpFile :=
  nyxDumpFileToHost (asBytes name) (asBytes name).length bytes bytes.length

/-- What a dump makes of the file that the hypervisor keeps under a name. -/
def KaflDumpFile.write (fileName : List UInt8) (file : Option (List UInt8)) (dump : KaflDumpFile) :
    Option (List UInt8) :=
  if dump.fileName = fileName then
    some (if dump.append then file.getD [] ++ dump.data else dump.data)
  else file

def hostFile (fileName : List UInt8) (dumps : List KaflDumpFile) : Option (List UInt8) :=
  dumps.foldl (KaflDumpFile.write fileName) none

/-! ## Contexts -/

/-- `postcard`, at the types it is used at. -/
structure Postcard where
  readProgram : List UInt8 → Except String Program
  writeProgram : Program → List UInt8
  readContext : List UInt8 → Except String ProgramContext
  writeContext : ProgramContext → Except String (List UInt8)

def contextDump : String := "ir.context"

/-- What the scenario dumps once its deployment is up. -/
def PoolSetupConnectionScenario.dumpContext (postcard : Postcard)
    (scenario : PoolSetupConnectionScenario) : Option (List KaflDumpFile) :=
  match postcard.writeContext scenario.context with
  | .ok bytes => (dumpToHost contextDump bytes).map ([·])
  -- a context that cannot be encoded is only logged
  | .error _ => some []

/-- The context programs are written in: what the scenario dumped, or what the command
line says. -/
def programContext (postcard : Postcard) (roles : Nat) (dumps : List KaflDumpFile) :
    ProgramContext :=
  match (hostFile (asBytes contextDump) dumps).bind fun bytes =>
    (postcard.readContext bytes).toOption with
  | some context => context
  | none => ⟨roles, 0, 0⟩

/-- An empty program in the right context is the seed everything grows from. -/
def seeded (postcard : Postcard) (context : ProgramContext)
    (inputDir : List (String × List UInt8)) : List (String × List UInt8) :=
  if inputDir = [] then [("initial_input", postcard.writeProgram ⟨context, []⟩)] else inputDir

/-! ## The machine -/

/-- A VM in which the scenario has come up. -/
structure Vm where
  host : Host
  args : List String
  scenario : PoolSetupConnectionScenario
  isUp : PoolSetupConnectionScenario.new host args = .ok scenario

/-- A client, with its VM or a copy of it from the snapshot. -/
structure FuzzingClient where
  vm : Vm
  context : ProgramContext
  state : ClientState

structure FuzzingCampaign where
  dumps : List KaflDumpFile
  inputDir : List (String × List UInt8)
  vms : List Vm
  clients : List FuzzingClient
  /-- What the clients have sent each other. -/
  sent : List Program

/-- What happens next in a campaign; clients and VMs are known by when they came up. -/
inductive CampaignTurn (ρ : Type) where
  | boot (host : Host) (args : List String)
  | start (vm : Nat)
  | restart (client vm : Nat)
  /-- A file of the input directory is imported. -/
  | load (client file : Nat) (result : FeedbackResult)
  | send (client id : Nat)
  | receive (client i : Nat) (result : FeedbackResult)
  | turn (client : Nat) (turn : ClientTurn ρ)

def ClientTurn.isLoad {ρ : Type} : ClientTurn ρ → Bool
  | .load _ _ => true
  | _ => false

/-- What a client keeps when its process is started again. -/
def ClientState.restarted (options : FuzzerOptions) (x : ClientState) : ClientState :=
  { ClientState.new options with
    corpus := x.corpus
    solutions := x.solutions
    timeoutsToVerify := x.timeoutsToVerify }

namespace FuzzingCampaign

variable {ρ : Type} (postcard : Postcard) (rng : RngExt ρ) (options : FuzzerOptions) (roles : Nat)

def new (inputDir : List (String × List UInt8)) : FuzzingCampaign where
  dumps := []
  inputDir := inputDir
  vms := []
  clients := []
  sent := []

/-- A client takes a turn of its own. -/
def advance (x : FuzzingCampaign) (client : Nat) (turn : ClientTurn ρ) :
    Option FuzzingCampaign := do
  let c ← x.clients[client]?
  let state ← c.state.step rng options c.context.numRoles turn
  return { x with clients := x.clients.set client { c with state } }

/-- A client's process reads the context and sees to the input directory. -/
def initialized (x : FuzzingCampaign) (vm : Vm) (state : ClientState) :
    FuzzingCampaign × FuzzingClient :=
  let context := programContext postcard roles x.dumps
  ({ x with inputDir := seeded postcard context x.inputDir }, ⟨vm, context, state⟩)

/-- One turn, if it can be taken. -/
def step (x : FuzzingCampaign) : CampaignTurn ρ → Option FuzzingCampaign
  | .boot host args =>
    match h : PoolSetupConnectionScenario.new host args with
    -- the VM goes down with the scenario
    | .error _ => some x
    | .ok scenario => do
      let dumps ← scenario.dumpContext postcard
      return { x with dumps := x.dumps ++ dumps, vms := x.vms ++ [⟨host, args, scenario, h⟩] }
  | .start vm => do
    let (x, c) := x.initialized postcard roles (← x.vms[vm]?) (.new options)
    return { x with clients := x.clients ++ [c] }
  | .restart client vm => do
    let state := (← x.clients[client]?).state.restarted options
    let (x, c) := x.initialized postcard roles (← x.vms[vm]?) state
    return { x with clients := x.clients.set client c }
  | .load client file result => do
    let (_, bytes) ← x.inputDir[file]?
    -- a client that minimizes an input reads no other
    if options.minimizeInput then none
    else match postcard.readProgram bytes with
      | .error _ => none
      | .ok input => x.advance rng options client (.load input result)
  | .send client id => do
    let t ← (← x.clients[client]?).state.corpus[id]?
    return { x with sent := x.sent ++ [t.input] }
  | .receive client i result => do
    x.advance rng options client (.load (← x.sent[i]?) result)
  | .turn client turn => if turn.isLoad then none else x.advance rng options client turn

end FuzzingCampaign

/-! ## What is dumped -/

/-- A text in a buffer of zeros, the last of which is kept. -/
theorem cText_terminated {text : List UInt8} {size : Nat} (hNul : 0 ∉ text) (hSize : 0 < size)
    (hFits : text.length ≤ size) :
    cText ((text ++ List.replicate (size - text.length) 0).set (size - 1) 0) =
      some (text.take (size - 1)) := by
  by_cases hRoom : text.length ≤ size - 1
  · -- only a zero is overwritten
    have hZeros : size - text.length = size - text.length - 1 + 1 := by omega
    rw [List.set_append_right _ _ hRoom, List.set_replicate_self, hZeros, List.replicate_succ,
      cText_append hNul, List.take_of_length_le hRoom]
  · -- the text fills the buffer
    have hFull : size - text.length = 0 := by omega
    have hLast : size - 1 < text.length := Nat.not_le.mp hRoom
    have hRest : text.drop (size - 1 + 1) = [] := List.drop_of_length_le (by omega)
    rw [hFull, List.replicate_zero, List.append_nil, List.set_eq_take_append_cons_drop,
      if_pos hLast, hRest]
    exact cText_append fun hIn => hNul (List.mem_of_mem_take hIn)

/-- **What the hypervisor is given** of a dump: all of its bytes, under as much of its name
as fits the buffer. Nothing outside of the name, the bytes and the buffer is touched. -/
theorem dumpToHost_eq (name : String) (bytes : List UInt8) :
    dumpToHost name bytes =
      some ⟨((asBytes name).takeWhile (· ≠ 0)).take (fileNameSize - 1), bytes, true⟩ := by
  have hFront : (asBytes name).take (min (asBytes name).length fileNameSize) =
      (asBytes name).take fileNameSize := by
    rw [Nat.min_comm, ← List.take_take, List.take_length]
  generalize hText : ((asBytes name).takeWhile (· ≠ 0)).take fileNameSize = text
  have hNul : 0 ∉ text := fun hIn =>
    zero_not_mem_takeWhile (asBytes name) (List.mem_of_mem_take (hText ▸ hIn))
  have hCopied : text.length ≤ min (asBytes name).length fileNameSize := by
    rw [← hText, List.length_take]
    have := (List.takeWhile_sublist (· ≠ 0) (l := asBytes name)).length_le
    omega
  have hCopy : strncpy (List.replicate fileNameSize 0) (asBytes name)
      (min (asBytes name).length fileNameSize) =
        some (text ++ List.replicate (fileNameSize - text.length) 0) := by
    have hBounds : min (asBytes name).length fileNameSize ≤ fileNameSize ∧
        (min (asBytes name).length fileNameSize ≤ (asBytes name).length ∨ 0 ∈ asBytes name) :=
      ⟨Nat.min_le_right _ _, Or.inl (Nat.min_le_left _ _)⟩
    simp only [strncpy, hFront, ← List.take_takeWhile, hText, List.length_replicate, if_pos hBounds,
      overwrite, List.take_zero, List.nil_append, Nat.zero_add, List.length_append,
      List.drop_replicate, List.append_assoc, List.replicate_append_replicate]
    congr 3
    omega
  have hName : text.take (fileNameSize - 1) =
      ((asBytes name).takeWhile (· ≠ 0)).take (fileNameSize - 1) := by
    rw [← hText, List.take_take, Nat.min_eq_left (Nat.sub_le _ _)]
  have hFits : text.length ≤ fileNameSize := hCopied.trans (Nat.min_le_right _ _)
  simp only [dumpToHost, nyxDumpFileToHost, hCopy, Option.bind_eq_bind, Option.bind_some,
    cText_terminated hNul (by decide) hFits, hName, if_pos (Nat.le_refl _), List.take_length]

theorem write_self (fileName bytes : List UInt8) (file : Option (List UInt8)) :
    KaflDumpFile.write fileName file ⟨fileName, bytes, true⟩ = some (file.getD [] ++ bytes) := by
  rw [KaflDumpFile.write, if_pos rfl, if_pos rfl]

/-- Once there is a file, it only gets longer. -/
theorem foldl_write {fileName bytes : List UInt8} {dumps : List KaflDumpFile}
    (hAll : ∀ dump ∈ dumps, dump = ⟨fileName, bytes, true⟩) (file : List UInt8) :
    ∃ rest, dumps.foldl (KaflDumpFile.write fileName) (some file) = some (file ++ rest) := by
  induction dumps generalizing file with
  | nil => exact ⟨[], by rw [List.foldl_nil, List.append_nil]⟩
  | cons dump dumps ih =>
    obtain rfl := hAll dump List.mem_cons_self
    obtain ⟨rest, hRest⟩ := ih (fun d hd => hAll d (List.mem_cons_of_mem _ hd)) (file ++ bytes)
    refine ⟨bytes ++ rest, ?_⟩
    rw [List.foldl_cons, write_self, Option.getD_some, hRest, List.append_assoc]

/-- What is dumped under one name, again and again, is read from the front. -/
theorem hostFile_of_all {fileName bytes : List UInt8} {dumps : List KaflDumpFile}
    (hSome : dumps ≠ []) (hAll : ∀ dump ∈ dumps, dump = ⟨fileName, bytes, true⟩) :
    ∃ rest, hostFile fileName dumps = some (bytes ++ rest) := by
  cases dumps with
  | nil => exact absurd rfl hSome
  | cons dump dumps =>
    obtain rfl := hAll dump List.mem_cons_self
    rw [hostFile, List.foldl_cons, write_self, Option.getD_none, List.nil_append]
    exact foldl_write (fun d hd => hAll d (List.mem_cons_of_mem _ hd)) bytes

/-! ## What every turn keeps -/

/-- The context of every scenario that comes up: the pool has the one role. -/
def poolContext : ProgramContext := ⟨1, 0, 0⟩

theorem PoolDeployment.roles_of_startWith {host : Host} {binary : String} {D : PoolDeployment}
    (h : PoolDeployment.startWith host binary = .ok D) : D.roles.length = 1 := by
  unfold PoolDeployment.startWith at h
  cases hPool : host.startPool binary with
  | error e =>
    rw [hPool] at h
    cases h
  | ok pool =>
    rw [hPool] at h
    obtain rfl := Except.ok.inj h
    rfl

theorem PoolDeployment.roles_of_start {host : Host} {D : PoolDeployment}
    (h : PoolDeployment.start host = .ok D) : D.roles.length = 1 := by
  unfold PoolDeployment.start at h
  split at h
  · cases h
  · exact PoolDeployment.roles_of_startWith h

theorem PoolSetupConnectionScenario.context_of_new {host : Host} {args : List String}
    {scenario : PoolSetupConnectionScenario}
    (h : PoolSetupConnectionScenario.new host args = .ok scenario) :
    scenario.context = poolContext := by
  have hRoles : scenario.deployment.roles.length = 1 := by
    cases hArg : args[1]? with
    | some pool =>
      simp only [PoolSetupConnectionScenario.new, hArg] at h
      split at h
      · rename_i hStarted
        obtain rfl := Except.ok.inj h
        exact PoolDeployment.roles_of_startWith hStarted
      · cases h
    | none =>
      simp only [PoolSetupConnectionScenario.new, hArg] at h
      split at h
      · rename_i hStarted
        obtain rfl := Except.ok.inj h
        exact PoolDeployment.roles_of_start hStarted
      · cases h
  rw [PoolSetupConnectionScenario.context, PoolDeployment.toDeployment, hRoles, poolContext]

/-- A program that the scenario judges, however it was come by, if there is memory for
its variables. -/
structure Suits (memory : Memory) (p : Program) : Prop where
  countable : Countable p
  roles : p.context.numRoles ≤ poolContext.numRoles
  connections : p.context.numConnections ≤ memory.connections

/-- What is read back of what was written; of a context also where more was written after it. -/
structure Postcard.Lawful (postcard : Postcard) : Prop where
  empty : ∃ e, postcard.readProgram [] = .error e
  seed : postcard.readProgram (postcard.writeProgram ⟨poolContext, []⟩) = .ok ⟨poolContext, []⟩
  context : ∃ bytes, postcard.writeContext poolContext = .ok bytes ∧
    ∀ rest, postcard.readContext (bytes ++ rest) = .ok poolContext

theorem suits_seed (memory : Memory) : Suits memory ⟨poolContext, []⟩ :=
  ⟨⟨rfl, Nat.zero_le _⟩, Nat.le_refl _, Nat.zero_le _⟩

namespace ClientState

variable {memory : Memory} {ρ : Type} {rng : RngExt ρ} {options : FuzzerOptions} {numRoles : Nat}
  {x x' : ClientState}

/-- A turn keeps a client's programs suitable. -/
theorem suits_of_step (hOrder : x.InOrder options) (hAll : x.All (Suits memory))
    {turn : ClientTurn ρ} (hStep : x.step rng options numRoles turn = some x')
    (hLoad : ∀ input result, turn = .load input result → Suits memory input) :
    x'.InOrder options ∧ x'.All (Suits memory) := by
  have hTakes := takes_of_step hOrder hStep
  refine ⟨hTakes.inOrder hOrder fun input result hTurn => (hLoad input result hTurn).countable,
    hTakes.all hAll hLoad ?_ ?_⟩
  · intro p q hp hAccepts
    have hCountable := Countable.accepts hAccepts
    cases hAccepts with
    | mutated hValid hContext hShort =>
      exact ⟨hCountable, hContext ▸ hp.roles, hContext ▸ hp.connections⟩
  · intro p q hp hValid hContext hShorter
    exact ⟨⟨hValid, (Nat.le_of_lt hShorter).trans hp.countable.length⟩, hContext ▸ hp.roles,
      hContext ▸ hp.connections⟩

theorem All.restarted {P : Program → Prop} (h : x.All P) (options : FuzzerOptions) :
    (x.restarted options).All P :=
  ⟨h.corpus, h.solutions, h.timeoutsToVerify, by simp [ClientState.restarted, new]⟩

theorem InOrder.restarted (h : x.InOrder options) : (x.restarted options).InOrder options :=
  ⟨rfl, rfl, rfl, by simp [ClientState.restarted, new, Activity.current],
    h.programs.restarted options, by simp [ClientState.restarted, new]⟩

end ClientState

namespace FuzzingCampaign

variable {memory : Memory} {postcard : Postcard} {ρ : Type} {rng : RngExt ρ}
  {options : FuzzerOptions} {roles : Nat}

/-- A client that has what it should. -/
structure SoundClient (memory : Memory) (options : FuzzerOptions) (c : FuzzingClient) : Prop where
  context : c.context = poolContext
  inOrder : c.state.InOrder options
  programs : c.state.All (Suits memory)

/-- What has been dumped is the scenario's context, and every program there is suits. -/
structure Sound (memory : Memory) (postcard : Postcard) (options : FuzzerOptions)
    (x : FuzzingCampaign) : Prop where
  dumps : ∃ bytes, postcard.writeContext poolContext = .ok bytes ∧
    ∀ dump ∈ x.dumps, dump = ⟨asBytes contextDump, bytes, true⟩
  -- a VM is not up before its scenario has dumped
  dumped : x.vms ≠ [] → x.dumps ≠ []
  inputDir : ∀ file ∈ x.inputDir, ∀ p, postcard.readProgram file.2 = .ok p → Suits memory p
  sent : ∀ p ∈ x.sent, Suits memory p
  clients : ∀ c ∈ x.clients, SoundClient memory options c

/-- With a VM up the context is known. -/
theorem Sound.context {x : FuzzingCampaign} (h : Sound memory postcard options x)
    (hPostcard : postcard.Lawful) (roles : Nat) {i : Nat} {vm : Vm} (hVm : x.vms[i]? = some vm) :
    programContext postcard roles x.dumps = poolContext := by
  obtain ⟨bytes, hBytes, hDumps⟩ := h.dumps
  obtain ⟨bytes', hBytes', hRead⟩ := hPostcard.context
  obtain rfl := Except.ok.inj (hBytes.symm.trans hBytes')
  have hUp : x.vms ≠ [] := List.ne_nil_of_mem (List.mem_of_getElem? hVm)
  obtain ⟨rest, hFile⟩ := hostFile_of_all (h.dumped hUp) hDumps
  simp only [programContext, hFile, Option.bind_some, hRead, Except.toOption]

/-- A client's process leaves the input directory in order. -/
theorem Sound.initialized {x y : FuzzingCampaign} {c : FuzzingClient}
    (h : Sound memory postcard options x) (hPostcard : postcard.Lawful) {i : Nat} {vm : Vm}
    (hVm : x.vms[i]? = some vm) {state : ClientState} (hOrder : state.InOrder options)
    (hAll : state.All (Suits memory)) (hInit : x.initialized postcard roles vm state = (y, c)) :
    Sound memory postcard options y ∧ SoundClient memory options c ∧ y.clients = x.clients := by
  have hContext := h.context hPostcard roles hVm
  obtain ⟨rfl, rfl⟩ := Prod.mk.inj hInit
  refine ⟨⟨h.dumps, h.dumped, fun file hFile p hRead => ?_, h.sent, h.clients⟩,
    ⟨hContext, hOrder, hAll⟩, rfl⟩
  simp only [hContext, seeded] at hFile
  split at hFile
  · obtain rfl := List.mem_singleton.mp hFile
    obtain rfl := Except.ok.inj (hPostcard.seed.symm.trans hRead)
    exact suits_seed memory
  · exact h.inputDir file hFile p hRead

theorem Sound.setClient {x : FuzzingCampaign} (h : Sound memory postcard options x) {c : FuzzingClient}
    (hc : SoundClient memory options c) (client : Nat) :
    Sound memory postcard options { x with clients := x.clients.set client c } := by
  refine ⟨h.dumps, h.dumped, h.inputDir, h.sent, fun c' hc' => ?_⟩
  rcases List.mem_or_eq_of_mem_set hc' with hOld | rfl
  · exact h.clients c' hOld
  · exact hc

/-- A client's turn of its own keeps the campaign sound. -/
theorem Sound.advance {x x' : FuzzingCampaign} (h : Sound memory postcard options x) {client : Nat}
    {turn : ClientTurn ρ} (hStep : x.advance rng options client turn = some x')
    (hLoad : ∀ input result, turn = .load input result → Suits memory input) :
    Sound memory postcard options x' := by
  obtain ⟨c, hc, hStep⟩ := Option.bind_eq_some_iff.mp hStep
  obtain ⟨state, hState, hStep⟩ := Option.bind_eq_some_iff.mp hStep
  obtain rfl := Option.some.inj hStep
  have hSound := h.clients c (List.mem_of_getElem? hc)
  obtain ⟨hOrder, hAll⟩ := ClientState.suits_of_step hSound.inOrder hSound.programs hState hLoad
  have hc' : SoundClient memory options { c with state } := ⟨hSound.context, hOrder, hAll⟩
  exact h.setClient hc' client

/-- **What every turn keeps.** -/
theorem sound_step (hPostcard : postcard.Lawful) :
    Preserves (step postcard rng options roles) (Sound memory postcard options) := by
  intro x turn x' hStep h
  cases turn with
  | boot host args =>
    simp only [step] at hStep
    split at hStep
    · exact Option.some.inj hStep ▸ h
    · rename_i scenario hNew
      obtain ⟨dumps, hDumps, hStep⟩ := Option.bind_eq_some_iff.mp hStep
      obtain rfl := Option.some.inj hStep
      obtain ⟨bytes, hBytes, hAll⟩ := h.dumps
      have hName : ((asBytes contextDump).takeWhile (· ≠ 0)).take (fileNameSize - 1) =
          asBytes contextDump := by decide
      -- one more of the same
      have hDumped : dumps = [⟨asBytes contextDump, bytes, true⟩] := by
        simp only [PoolSetupConnectionScenario.dumpContext,
          PoolSetupConnectionScenario.context_of_new hNew, hBytes, dumpToHost_eq, hName,
          Option.map_some] at hDumps
        exact (Option.some.inj hDumps).symm
      subst hDumped
      refine ⟨⟨bytes, hBytes, fun dump hDump => ?_⟩, fun _ => by simp, h.inputDir, h.sent,
        h.clients⟩
      rcases List.mem_append.mp hDump with hOld | hNew
      · exact hAll dump hOld
      · exact List.mem_singleton.mp hNew
  | start i =>
    obtain ⟨vm, hVm, hStep⟩ := Option.bind_eq_some_iff.mp hStep
    obtain rfl := Option.some.inj hStep
    obtain ⟨hSound, hc, hSame⟩ := h.initialized hPostcard hVm (ClientState.inOrder_new options)
      (ClientState.all_new options) rfl
    refine ⟨hSound.dumps, hSound.dumped, hSound.inputDir, hSound.sent, fun c hMem => ?_⟩
    rcases List.mem_append.mp hMem with hOld | hNew
    · exact hSound.clients c hOld
    · exact List.mem_singleton.mp hNew ▸ hc
  | restart client i =>
    obtain ⟨c, hClient, hStep⟩ := Option.bind_eq_some_iff.mp hStep
    obtain ⟨vm, hVm, hStep⟩ := Option.bind_eq_some_iff.mp hStep
    obtain rfl := Option.some.inj hStep
    have hBefore := h.clients c (List.mem_of_getElem? hClient)
    obtain ⟨hSound, hc, -⟩ := h.initialized hPostcard hVm
      hBefore.inOrder.restarted (hBefore.programs.restarted options) rfl
    exact hSound.setClient hc client
  | load client i result =>
    obtain ⟨⟨name, bytes⟩, hFile, hStep⟩ := Option.bind_eq_some_iff.mp hStep
    dsimp only at hStep
    split at hStep
    · cases hStep
    · split at hStep
      · cases hStep
      · rename_i input hRead
        refine h.advance hStep fun input' result' hTurn => ?_
        obtain ⟨rfl, -⟩ := ClientTurn.load.inj hTurn
        exact h.inputDir _ (List.mem_of_getElem? hFile) _ hRead
  | send client id =>
    obtain ⟨c, hClient, hStep⟩ := Option.bind_eq_some_iff.mp hStep
    obtain ⟨t, ht, hStep⟩ := Option.bind_eq_some_iff.mp hStep
    obtain rfl := Option.some.inj hStep
    refine ⟨h.dumps, h.dumped, h.inputDir, fun p hp => ?_, h.clients⟩
    rcases List.mem_append.mp hp with hOld | hNew
    · exact h.sent p hOld
    · obtain rfl := List.mem_singleton.mp hNew
      exact (h.clients c (List.mem_of_getElem? hClient)).programs.corpus t
        (List.mem_of_getElem? ht)
  | receive client i result =>
    obtain ⟨input, hInput, hStep⟩ := Option.bind_eq_some_iff.mp hStep
    refine h.advance hStep fun input' result' hTurn => ?_
    obtain ⟨rfl, -⟩ := ClientTurn.load.inj hTurn
    exact h.sent _ (List.mem_of_getElem? hInput)
  | turn client t =>
    simp only [step] at hStep
    split at hStep
    · cases hStep
    · rename_i hOwn
      refine h.advance hStep fun input result hTurn => ?_
      exact absurd (hTurn ▸ rfl) hOwn

/-! ## The campaign -/

/-- A campaign begins without VMs and clients, and with an input directory of programs that
suit, if any. -/
theorem sound_exec (hPostcard : postcard.Lawful) {inputDir : List (String × List UInt8)}
    (hDir : ∀ file ∈ inputDir, ∀ p, postcard.readProgram file.2 = .ok p → Suits memory p)
    {turns : List (CampaignTurn ρ)} {x : FuzzingCampaign}
    (hRun : exec (step postcard rng options roles) (new inputDir) turns = some x) :
    Sound memory postcard options x := by
  obtain ⟨bytes, hBytes, -⟩ := hPostcard.context
  refine (sound_step hPostcard).exec hRun ⟨⟨bytes, hBytes, fun dump hDump => ?_⟩, fun hUp => ?_,
    hDir, fun p hp => ?_, fun c hc => ?_⟩
  · exact absurd hDump List.not_mem_nil
  · exact absurd rfl hUp
  · exact absurd hp List.not_mem_nil
  · exact absurd hc List.not_mem_nil

end FuzzingCampaign

/-- `postcard` writes numbers this small, and the lengths of lists, as a byte each. -/
def seedOnly : Postcard where
  readProgram bytes :=
    if bytes = [1, 0, 0, 0] then .ok ⟨poolContext, []⟩
    else .error "Hit the end of buffer, expected more data"
  writeProgram _ := [1, 0, 0, 0]
  readContext bytes :=
    if bytes.take 3 = [1, 0, 0] then .ok poolContext
    else .error "Hit the end of buffer, expected more data"
  writeContext _ := .ok [1, 0, 0]

theorem seedOnly_lawful : seedOnly.Lawful := ⟨⟨_, rfl⟩, rfl, [1, 0, 0], rfl, fun _ => rfl⟩

/-- Two clients, one of which has the seed from the other. -/
def sharing : List (CampaignTurn Unit) :=
  [.boot .mute ["scenario", "pool"], .start 0, .load 0 0 ⟨some (some [0]), false, false⟩,
    .boot .mute ["scenario", "pool"], .start 1, .send 0 0,
    .receive 1 0 ⟨some (some [0]), false, false⟩]

end Stratamoto
