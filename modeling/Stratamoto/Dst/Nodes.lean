import Stratamoto.Dst.Tasks
import Stratamoto.Library.Machines

/-!
# Stratamoto — nodes that are killed

`kill` takes a node out of the map and marks its info; a handle for the address is
then a new node. The executor looks at the mark when a runnable's turn comes.

* `TaskHandle.Sound` — what holds of the nodes after any run;
* `step_handle` — what one turn does to them;
* `killed_iff` — whose mark is set after a run.
-/

namespace Stratamoto.Dst

open PriorityQueue Machines

/-! ## The nodes -/

namespace TaskHandle

/-- The node of `block_on`'s own task is in no map, and nobody holds a handle of it. -/
def own (h : TaskHandle) : TaskHandle := { h with infos := h.infos ++ [⟨unspecified, false⟩] }

structure Sound (h : TaskHandle) : Prop where
  alive : ∀ addr n, h.info addr = some n → n ∈ h.handles ∧ h.infos[n]? = some ⟨addr, false⟩
  handed : ∀ n ∈ h.handles, ∃ i, h.infos[n]? = some i ∧
    (i.killed = false → h.info i.addr = some n)
  others : ∀ (n : Nat) (i : TaskInfo), h.infos[n]? = some i → n ∉ h.handles → i.killed = false

/-- What was allocated stays where it is, with its address. -/
structure Grows (h h' : TaskHandle) : Prop where
  kept : ∀ (n : Nat) (i : TaskInfo), h.infos[n]? = some i →
    ∃ i', h'.infos[n]? = some i' ∧ i'.addr = i.addr
  handles : ∀ (n : Nat) (i : TaskInfo), h.infos[n]? = some i → (n ∈ h'.handles ↔ n ∈ h.handles)
  killed : ∀ (n : Nat) (i : TaskInfo), h.infos[n]? = some i → i.killed = true →
    ∃ i', h'.infos[n]? = some i' ∧ i'.killed = true

variable {h h' h'' : TaskHandle} {addr : SocketAddr}

theorem sound_empty : Sound ⟨[], fun _ => none, []⟩ where
  alive _ _ hSome := by cases hSome
  handed _ hMem := by cases hMem
  others _ _ hSome := by cases hSome

theorem Grows.refl (h : TaskHandle) : Grows h h :=
  ⟨fun _ i hi => ⟨i, hi, rfl⟩, fun _ _ _ => Iff.rfl, fun _ i hi hKilled => ⟨i, hi, hKilled⟩⟩

theorem Grows.trans (h₁ : Grows h h') (h₂ : Grows h' h'') : Grows h h'' where
  kept n i hi := by
    obtain ⟨i', hi', hAddr⟩ := h₁.kept n i hi
    obtain ⟨i'', hi'', hAddr'⟩ := h₂.kept n i' hi'
    exact ⟨i'', hi'', hAddr'.trans hAddr⟩
  handles n i hi := by
    obtain ⟨i', hi', -⟩ := h₁.kept n i hi
    exact (h₂.handles n i' hi').trans (h₁.handles n i hi)
  killed n i hi hKilled := by
    obtain ⟨i', hi', hKilled'⟩ := h₁.killed n i hi hKilled
    exact h₂.killed n i' hi' hKilled'

theorem lt_of_info {n : Nat} {i : TaskInfo} (hi : h.infos[n]? = some i) : n < h.infos.length :=
  (List.getElem?_eq_some_iff.mp hi).1

/-- An info is allocated behind those there are. -/
theorem infos_append {n : Nat} {i new : TaskInfo} (hi : h.infos[n]? = some i) :
    (h.infos ++ [new])[n]? = some i := by
  rw [List.getElem?_append_left (lt_of_info hi), hi]

theorem of_infos_append {n : Nat} {i new : TaskInfo} (hi : (h.infos ++ [new])[n]? = some i) :
    h.infos[n]? = some i ∨ (n = h.infos.length ∧ i = new) := by
  rcases Nat.lt_or_ge n h.infos.length with hLt | hGe
  · exact Or.inl (by rw [← List.getElem?_append_left hLt, hi])
  · rw [List.getElem?_append_right hGe] at hi
    have hZero : n - h.infos.length = 0 := by
      have := (List.getElem?_eq_some_iff.mp hi).1
      simpa using this
    rw [hZero] at hi
    exact Or.inr ⟨by omega, (Option.some.inj hi).symm⟩

theorem Sound.lt (hSound : h.Sound) {n : Nat} (hn : n ∈ h.handles) : n < h.infos.length := by
  obtain ⟨i, hi, -⟩ := hSound.handed n hn
  exact lt_of_info hi

/-! ### A handle for an address -/

/-- What the handle is one of, and what is new for it. -/
theorem localHandle_cases (h : TaskHandle) (addr : SocketAddr) :
    (∃ n, h.info addr = some n ∧ h.localHandle addr = (n, h)) ∨
      (h.info addr = none ∧ h.localHandle addr = (h.infos.length, {
        infos := h.infos ++ [⟨addr, false⟩]
        info := Function.update h.info addr (some h.infos.length)
        handles := h.handles ++ [h.infos.length] })) := by
  unfold localHandle
  cases hInfo : h.info addr with
  | some n => exact Or.inl ⟨n, rfl, rfl⟩
  | none => exact Or.inr ⟨rfl, rfl⟩

theorem Sound.localHandle (hSound : h.Sound) (addr : SocketAddr) :
    (h.localHandle addr).2.Sound ∧
      (h.localHandle addr).2.info addr = some (h.localHandle addr).1 ∧
      ∀ n, (h.localHandle addr).2.infos[n]? = h.infos[n]? ∨
        n = h.infos.length ∧ (h.localHandle addr).2.infos[n]? = some ⟨addr, false⟩ := by
  rcases h.localHandle_cases addr with ⟨n, hInfo, hSame⟩ | ⟨hNone, hNew⟩
  · rw [hSame]
    exact ⟨hSound, hInfo, fun _ => Or.inl rfl⟩
  · rw [hNew]
    refine ⟨⟨fun a n hn => ?_, fun n hn => ?_, fun n i hi hNot => ?_⟩,
      Function.update_self .., fun n => ?_⟩
    · -- the node that is new, or one of the others
      by_cases hAddr : a = addr
      · subst hAddr
        obtain rfl := Option.some.inj ((Function.update_self a ..).symm.trans hn)
        exact ⟨by simp, List.getElem?_concat_length⟩
      · have hOld : h.info a = some n := (Function.update_of_ne hAddr ..).symm.trans hn
        obtain ⟨hMem, hAt⟩ := hSound.alive a n hOld
        exact ⟨List.mem_append_left _ hMem, infos_append hAt⟩
    · rcases List.mem_append.mp hn with hOld | hLast
      · obtain ⟨i, hi, hAlive⟩ := hSound.handed n hOld
        refine ⟨i, infos_append hi, fun hKilled => ?_⟩
        have hAt := hAlive hKilled
        have hNe : i.addr ≠ addr := fun hEq => by
          rw [hEq, hNone] at hAt
          cases hAt
        exact (Function.update_of_ne hNe ..).trans hAt
      · obtain rfl := List.mem_singleton.mp hLast
        exact ⟨_, List.getElem?_concat_length, fun _ => Function.update_self ..⟩
    · rcases of_infos_append hi with hOld | ⟨rfl, rfl⟩
      · exact hSound.others n i hOld fun hMem => hNot (List.mem_append_left _ hMem)
      · rfl
    · rcases Nat.lt_trichotomy n h.infos.length with hLt | rfl | hGt
      · exact Or.inl (List.getElem?_append_left hLt)
      · exact Or.inr ⟨rfl, List.getElem?_concat_length⟩
      · refine Or.inl ?_
        rw [List.getElem?_eq_none (by simp; omega), List.getElem?_eq_none (by omega)]

theorem grows_localHandle (h : TaskHandle) (addr : SocketAddr) :
    Grows h (h.localHandle addr).2 := by
  rcases h.localHandle_cases addr with ⟨n, -, hSame⟩ | ⟨-, hNew⟩
  · rw [hSame]
    exact .refl h
  · rw [hNew]
    refine ⟨fun n i hi => ⟨i, infos_append hi, rfl⟩, fun n i hi => ?_,
      fun n i hi hKilled => ⟨i, infos_append hi, hKilled⟩⟩
    have hLt := lt_of_info hi
    simp only [List.mem_append, List.mem_singleton, or_iff_left (Nat.ne_of_lt hLt)]

/-! ### A kill -/

theorem kill_cases (h : TaskHandle) (addr : SocketAddr) :
    (h.info addr = none ∧ h.kill addr = h) ∨ ∃ n, h.info addr = some n ∧
      (h.kill addr).info = Function.update h.info addr none ∧
      (h.kill addr).handles = h.handles ∧
      ∀ m, (h.kill addr).infos[m]? =
        if m = n then h.infos[m]?.map fun i => { i with killed := true } else h.infos[m]? := by
  unfold kill
  cases hInfo : h.info addr with
  | none => exact Or.inl ⟨rfl, rfl⟩
  | some n =>
    refine Or.inr ⟨n, rfl, rfl, rfl, fun m => ?_⟩
    by_cases hm : m = n
    · rw [if_pos hm, hm, List.getElem?_modify_eq]
      rfl
    · rw [if_neg hm, List.getElem?_modify_ne _ _ (Ne.symm hm)]

theorem Sound.kill (hSound : h.Sound) (addr : SocketAddr) : (h.kill addr).Sound := by
  rcases h.kill_cases addr with ⟨-, hSame⟩ | ⟨n, hInfo, hMap, hHandles, hInfos⟩
  · rw [hSame]
    exact hSound
  · have hKilledAt := (hSound.alive addr n hInfo).2
    refine ⟨fun a m hm => ?_, fun m hm => ?_, fun m i hi hNot => ?_⟩
    · rw [hMap] at hm
      have hNe : a ≠ addr := fun hEq => by
        rw [hEq, Function.update_self] at hm
        cases hm
      obtain ⟨hMem, hAt⟩ := hSound.alive a m ((Function.update_of_ne hNe ..).symm.trans hm)
      -- a node at another address has another info
      have hOther : m ≠ n := fun hEq => by
        rw [hEq, hKilledAt] at hAt
        exact hNe (congrArg TaskInfo.addr (Option.some.inj hAt)).symm
      rw [hHandles, hInfos, if_neg hOther]
      exact ⟨hMem, hAt⟩
    · rw [hHandles] at hm
      obtain ⟨i, hi, hAlive⟩ := hSound.handed m hm
      rw [hInfos, hMap]
      by_cases hEq : m = n
      · rw [if_pos hEq, hi]
        exact ⟨_, rfl, fun hFalse => by cases hFalse⟩
      · rw [if_neg hEq]
        refine ⟨i, hi, fun hKilled => ?_⟩
        have hAt := hAlive hKilled
        have hNe : i.addr ≠ addr := fun hAddr => by
          rw [hAddr, hInfo] at hAt
          exact hEq (Option.some.inj hAt).symm
        exact (Function.update_of_ne hNe ..).trans hAt
    · rw [hHandles] at hNot
      have hOther : m ≠ n := fun hEq => by
        rw [hEq] at hNot
        exact hNot (hSound.alive addr n hInfo).1
      rw [hInfos, if_neg hOther] at hi
      exact hSound.others m i hi hNot

theorem grows_kill (h : TaskHandle) (addr : SocketAddr) : Grows h (h.kill addr) := by
  rcases h.kill_cases addr with ⟨-, hSame⟩ | ⟨n, -, -, hHandles, hInfos⟩
  · rw [hSame]
    exact .refl h
  · have hAt : ∀ (m : Nat) (i : TaskInfo), h.infos[m]? = some i →
        (h.kill addr).infos[m]? = some { i with killed := decide (m = n) || i.killed } := by
      intro m i hi
      rw [hInfos, hi]
      by_cases hm : m = n <;> simp [hm]
    refine ⟨fun m i hi => ⟨_, hAt m i hi, rfl⟩, fun m i hi => by rw [hHandles],
      fun m i hi hKilled => ⟨_, hAt m i hi, ?_⟩⟩
    rw [hKilled, Bool.or_true]

/-! ### An own node -/

theorem Sound.own (hSound : h.Sound) : h.own.Sound where
  alive addr n hn := by
    obtain ⟨hMem, hAt⟩ := hSound.alive addr n hn
    exact ⟨hMem, infos_append hAt⟩
  handed n hn := by
    obtain ⟨i, hi, hAlive⟩ := hSound.handed n hn
    exact ⟨i, infos_append hi, hAlive⟩
  others n i hi hNot := by
    rcases of_infos_append hi with hOld | ⟨-, rfl⟩
    · exact hSound.others n i hOld hNot
    · rfl

theorem grows_own (h : TaskHandle) : Grows h h.own :=
  ⟨fun _ i hi => ⟨i, infos_append hi, rfl⟩, fun _ _ _ => Iff.rfl,
    fun _ i hi hKilled => ⟨i, infos_append hi, hKilled⟩⟩

end TaskHandle

/-! ## One turn -/

namespace Executor

variable {A : AsyncTask} {R : Rand} {Q : TimerQueue Callback}

section Frames

variable (x : Executor A R Q) (task : Nat) (f : A.Task → A.Task × Bool)

@[simp] theorem act_handle : (x.act task f).handle = x.handle := by
  unfold act
  split <;> rfl

@[simp] theorem act_sim : (x.act task f).sim = x.sim := by
  unfold act
  split <;> rfl

@[simp] theorem act_addr : (x.act task f).addr = x.addr := by
  unfold act
  split <;> rfl

@[simp] theorem act_control : (x.act task f).control = x.control := by
  unfold act
  split <;> rfl

/-- Waking touches nothing but the tasks and the queue. -/
theorem foldl_wakeFor_frame (events : List (Event Callback)) :
    (events.foldl wakeFor x).handle = x.handle ∧ (events.foldl wakeFor x).sim = x.sim ∧
      (events.foldl wakeFor x).addr = x.addr ∧ (events.foldl wakeFor x).control = x.control := by
  induction events generalizing x with
  | nil => exact ⟨rfl, rfl, rfl, rfl⟩
  | cons e events ih =>
    rw [List.foldl_cons]
    obtain ⟨hHandle, hSim, hAddr, hControl⟩ := ih (x.wakeFor e)
    rw [hHandle, hSim, hAddr, hControl]
    unfold wakeFor
    cases e.callback with
    | wake task => exact ⟨act_handle .., act_sim .., act_addr .., act_control ..⟩
    | deliver dst message => exact ⟨rfl, rfl, rfl, rfl⟩

@[simp] theorem unwind_handle (panic : Panic) : (x.unwind panic).handle = x.handle := by
  unfold unwind
  split <;> rfl

@[simp] theorem unwind_control (panic : Panic) : (x.unwind panic).control = .panicked panic := by
  unfold unwind
  split <;> rfl

@[simp] theorem advance_handle : x.advance.handle = x.handle := (foldl_wakeFor_frame _ _).1

@[simp] theorem advance_sim : x.advance.sim = x.sim.advance := (foldl_wakeFor_frame _ _).2.1

@[simp] theorem advance_addr : x.advance.addr = x.addr := (foldl_wakeFor_frame _ _).2.2.1

@[simp] theorem advance_control : x.advance.control = x.control := (foldl_wakeFor_frame _ _).2.2.2

theorem runNext_handle (main info : Nat) : (x.runNext main task info).handle = x.handle := by
  unfold runNext
  split
  · rfl
  · split
    · exact act_handle ..
    · exact act_handle x task fun t => (A.run t, false)

theorem pollMain_handle (main : Nat) : (x.pollMain main).handle = x.handle := by
  unfold pollMain
  split
  · rfl
  · exact unwind_handle ..
  · split
    · exact advance_handle x
    · exact unwind_handle ..

end Frames

variable {x x' : Executor A R Q}

/-- A call is made, or it panics. -/
theorem step_call {c : Call R} (h : x.step (.call c) = some x') :
    (∀ panic, x.control ≠ .panicked panic) ∧ (x.call c = some (.ok x') ∨
      ∃ panic, x.call c = some (.error panic) ∧ x' = x.unwind panic) := by
  simp only [step] at h
  split at h
  · cases h
  · rename_i hControl
    refine ⟨fun panic hPanicked => hControl panic hPanicked, ?_⟩
    obtain ⟨result, hCall, hResult⟩ := Option.map_eq_some_iff.mp h
    cases result with
    | ok y => exact Or.inl (hResult ▸ hCall)
    | error panic => exact Or.inr ⟨panic, hCall, hResult.symm⟩

/-- A call on the network or the time touches nothing else, and does not advance. -/
theorem call_sim {step : Step R} (h : x.call (.sim step) = some (.ok x')) :
    step ≠ .advance ∧ ∃ sim, x.sim.step step = .ok sim ∧ x' = { x with sim } := by
  have hNot : step ≠ .advance := fun hAdvance => by
    rw [hAdvance] at h
    cases h
  have hCall : x.call (.sim step) =
      some ((x.sim.step step).map fun sim => { x with sim }) := by
    cases step with
    | advance => exact absurd rfl hNot
    | localHandle | connect | disconnect | setPacketLossRate | sendTo | addTimer
    | pollSleepUntil => rfl
  rw [hCall] at h
  cases hStep : x.sim.step step with
  | error panic =>
    rw [hStep] at h
    cases h
  | ok sim =>
    rw [hStep] at h
    exact ⟨hNot, sim, rfl, (Except.ok.inj (Option.some.inj h)).symm⟩

/-- **What a turn does to the nodes.** -/
theorem step_handle {turn : Turn R} (h : x.step turn = some x') :
    (x'.handle = x.handle ∧ ∀ addr, turn ≠ .call (.kill addr)) ∨
      (∃ addr, x'.handle = (x.handle.localHandle addr).2 ∧ ∀ addr, turn ≠ .call (.kill addr)) ∨
      (∃ addr, turn = .call (.kill addr) ∧ x'.handle = x.handle.kill addr) ∨
      (turn = .blockOn ∧ x'.handle = x.handle.own) := by
  cases turn with
  | call c =>
    rcases (step_call h).2 with hCall | ⟨panic, hCall, rfl⟩
    · cases c with
      | localHandle addr =>
        obtain rfl := Except.ok.inj (Option.some.inj hCall)
        exact Or.inr (Or.inl ⟨addr, rfl, by simp⟩)
      | spawnOn info =>
        simp only [call] at hCall
        split at hCall
        · obtain rfl := Except.ok.inj (Option.some.inj hCall)
          exact Or.inl ⟨rfl, by simp⟩
        · cases hCall
      | spawn =>
        simp only [call] at hCall
        cases hAddr : x.addr with
        | none =>
          rw [hAddr] at hCall
          cases hCall
        | some addr =>
          rw [hAddr] at hCall
          obtain rfl := Except.ok.inj (Option.some.inj hCall)
          exact Or.inr (Or.inl ⟨addr, rfl, by simp⟩)
      | kill addr =>
        obtain rfl := Except.ok.inj (Option.some.inj hCall)
        exact Or.inr (Or.inr (Or.inl ⟨addr, rfl, rfl⟩))
      | wake task =>
        obtain rfl := Except.ok.inj (Option.some.inj hCall)
        exact Or.inl ⟨act_handle .., by simp⟩
      | cancel task =>
        simp only [call] at hCall
        split at hCall
        · cases hCall
        · obtain rfl := Except.ok.inj (Option.some.inj hCall)
          exact Or.inl ⟨act_handle .., by simp⟩
      | sim step =>
        obtain ⟨-, sim, -, rfl⟩ := call_sim hCall
        exact Or.inl ⟨rfl, by simp⟩
    · refine Or.inl ⟨unwind_handle .., fun addr hKill => ?_⟩
      obtain rfl := Turn.call.inj hKill
      cases hCall
  | blockOn =>
    simp only [step] at h
    split at h
    · exact Or.inr (Or.inr (Or.inr ⟨rfl, Option.some.inj h ▸ rfl⟩))
    · cases h
  | runNext =>
    simp only [step] at h
    split at h
    · exact Or.inl ⟨Option.some.inj h ▸ runNext_handle .., by simp⟩
    · cases h
  | finish ready =>
    simp only [step] at h
    split at h
    · exact Or.inl ⟨Option.some.inj h ▸ act_handle .., by simp⟩
    · cases h
  | pollMain =>
    simp only [step] at h
    split at h
    · exact Or.inl ⟨Option.some.inj h ▸ pollMain_handle .., by simp⟩
    · cases h

/-! ## Runs -/

theorem sound_step {turn : Turn R} (h : x.step turn = some x') (hSound : x.handle.Sound) :
    x'.handle.Sound := by
  rcases step_handle h with ⟨hSame, -⟩ | ⟨addr, hNew, -⟩ | ⟨addr, -, hKill⟩ | ⟨-, hOwn⟩
  · exact hSame ▸ hSound
  · exact hNew ▸ (hSound.localHandle addr).1
  · exact hKill ▸ hSound.kill addr
  · exact hOwn ▸ hSound.own

theorem grows_step {turn : Turn R} (h : x.step turn = some x') :
    TaskHandle.Grows x.handle x'.handle := by
  rcases step_handle h with ⟨hSame, -⟩ | ⟨addr, hNew, -⟩ | ⟨addr, -, hKill⟩ | ⟨-, hOwn⟩
  · exact hSame ▸ .refl _
  · exact hNew ▸ x.handle.grows_localHandle addr
  · exact hKill ▸ x.handle.grows_kill addr
  · exact hOwn ▸ x.handle.grows_own

theorem sound_exec {sim : Simulation R Q} {turns : List (Turn R)}
    (h : exec step (new A sim) turns = some x) : x.handle.Sound := by
  have hKept : Preserves step fun x : Executor A R Q => x.handle.Sound :=
    fun _ _ _ hStep hSound => sound_step hStep hSound
  exact hKept.exec h TaskHandle.sound_empty

theorem grows_exec {turns : List (Turn R)} (h : exec step x turns = some x') :
    TaskHandle.Grows x.handle x'.handle :=
  Relates.exec (P := fun _ => True)
    (r := fun x x' : Executor A R Q => TaskHandle.Grows x.handle x'.handle)
    ⟨fun x => .refl x.handle, fun _ _ _ => .trans, fun _ _ _ hStep _ => grows_step hStep⟩
    (fun _ _ _ _ _ => trivial) h trivial

/-- The node was alive at an address that was killed in the run. -/
def KilledIn (x₀ : Executor A R Q) (turns : List (Turn R)) (n : Nat) : Prop :=
  ∃ front addr back y, turns = front ++ .call (.kill addr) :: back ∧
    exec step x₀ front = some y ∧ y.handle.info addr = some n

theorem killedIn_snoc_iff {x₀ : Executor A R Q} {turns : List (Turn R)} {turn : Turn R} {n : Nat}
    (h : exec step x₀ turns = some x) :
    KilledIn x₀ (turns ++ [turn]) n ↔
      KilledIn x₀ turns n ∨ ∃ addr, turn = .call (.kill addr) ∧ x.handle.info addr = some n := by
  constructor
  · rintro ⟨front, addr, back, y, hSplit, hFront, hAlive⟩
    -- the kill is the last turn, or one before it
    rcases List.eq_nil_or_concat back with rfl | ⟨back, last, rfl⟩
    · obtain ⟨rfl, hLast⟩ := List.append_inj' hSplit rfl
      obtain rfl := Option.some.inj (h.symm.trans hFront)
      exact Or.inr ⟨addr, (List.cons.inj hLast).1, hAlive⟩
    · rw [List.concat_eq_append, ← List.cons_append, ← List.append_assoc] at hSplit
      exact Or.inl ⟨front, addr, back, y, (List.append_inj' hSplit rfl).1, hFront, hAlive⟩
  · rintro (⟨front, addr, back, y, rfl, hFront, hAlive⟩ | ⟨addr, rfl, hAlive⟩)
    · exact ⟨front, addr, back ++ [turn], y, by simp, hFront, hAlive⟩
    · exact ⟨turns, addr, [], x, rfl, h, hAlive⟩

/-- A turn marks the node it kills. -/
theorem killed_of_step {turn : Turn R} (h : x.step turn = some x') (hSound : x.handle.Sound)
    {n : Nat} {i : TaskInfo} (hi : x'.handle.infos[n]? = some i) :
    i.killed = true ↔ (∃ j, x.handle.infos[n]? = some j ∧ j.killed = true) ∨
      ∃ addr, turn = .call (.kill addr) ∧ x.handle.info addr = some n := by
  have hOld : ∀ j, x.handle.infos[n]? = some j →
      (j.killed = true ↔ ∃ j, x.handle.infos[n]? = some j ∧ j.killed = true) := fun j hj =>
    ⟨fun hKilled => ⟨j, hj, hKilled⟩, fun ⟨j', hj', hKilled⟩ =>
      Option.some.inj (hj.symm.trans hj') ▸ hKilled⟩
  have hFresh : x.handle.infos.length ≤ n →
      ¬ ∃ j, x.handle.infos[n]? = some j ∧ j.killed = true := fun hLe ⟨j, hj, _⟩ =>
    absurd (TaskHandle.lt_of_info hj) (Nat.not_lt.mpr hLe)
  rcases step_handle h with ⟨hSame, hNot⟩ | ⟨addr, hNew, hNot⟩ | ⟨addr, rfl, hKill⟩ | ⟨rfl, hOwn⟩
  · rw [or_iff_left fun ⟨addr, hTurn, _⟩ => hNot addr hTurn]
    exact hOld i (hSame ▸ hi)
  · rw [or_iff_left fun ⟨addr, hTurn, _⟩ => hNot addr hTurn]
    rw [hNew] at hi
    rcases (hSound.localHandle addr).2.2 n with hAt | ⟨hLast, hAt⟩
    · exact hOld i (hAt ▸ hi)
    · obtain rfl := Option.some.inj (hAt.symm.trans hi)
      exact iff_of_false Bool.false_ne_true (hFresh (Nat.le_of_eq hLast.symm))
  · rw [hKill] at hi
    have hTurn : (∃ a, (Turn.call (.kill addr) : Turn R) = .call (.kill a) ∧
        x.handle.info a = some n) ↔ x.handle.info addr = some n := by simp
    rw [hTurn]
    rcases x.handle.kill_cases addr with ⟨hNone, hSame⟩ | ⟨m, hInfo, -, -, hInfos⟩
    · rw [hNone, or_iff_left (Option.some_ne_none n).symm]
      exact hOld i (hSame ▸ hi)
    · rw [hInfos] at hi
      by_cases hm : n = m
      · obtain ⟨j, hj, rfl⟩ := Option.map_eq_some_iff.mp ((if_pos hm).symm.trans hi)
        exact iff_of_true rfl (Or.inr (hm ▸ hInfo))
      · rw [hInfo, or_iff_left fun hEq => hm (Option.some.inj hEq).symm]
        exact hOld i ((if_neg hm).symm.trans hi)
  · rw [or_iff_left fun ⟨addr, hTurn, _⟩ => by cases hTurn]
    rw [hOwn] at hi
    rcases TaskHandle.of_infos_append hi with hAt | ⟨rfl, rfl⟩
    · exact hOld i hAt
    · exact iff_of_false Bool.false_ne_true (hFresh le_rfl)

/-- **Whose mark is set**: the nodes that were alive where there was a kill. -/
theorem killed_iff {sim : Simulation R Q} {turns : List (Turn R)}
    (h : exec step (new A sim) turns = some x) {n : Nat} {i : TaskInfo}
    (hi : x.handle.infos[n]? = some i) :
    i.killed = true ↔ KilledIn (new A sim) turns n := by
  refine exec_trace (P := fun turns x => ∀ (n : Nat) (i : TaskInfo), x.handle.infos[n]? = some i →
    (i.killed = true ↔ KilledIn (new A sim) turns n)) ?_ ?_ h n i hi
  · intro n i hi
    cases hi
  · intro turns x turn x' hExec hBefore hStep n i hi
    rw [killedIn_snoc_iff hExec, killed_of_step hStep (sound_exec hExec) hi]
    refine or_congr_left' fun hNot => ?_
    constructor
    · rintro ⟨j, hj, hKilled⟩
      exact (hBefore n j hj).mp hKilled
    · intro hKilledIn
      -- a node that was alive has an info since
      obtain ⟨front, addr, back, y, rfl, hFront, hAlive⟩ := hKilledIn
      obtain ⟨y', hFront', hBack⟩ := exec_append_iff.mp hExec
      obtain rfl := Option.some.inj (hFront.symm.trans hFront')
      obtain ⟨j, hj, -⟩ := (grows_exec hBack).kept n _ ((sound_exec hFront).alive addr n hAlive).2
      exact ⟨j, hj, (hBefore n j hj).mpr ⟨front, addr, back, y, rfl, hFront, hAlive⟩⟩

end Executor

end Stratamoto.Dst
