import Stratamoto.Dst.Nodes
import Stratamoto.Dst.Timers

/-!
# Stratamoto — what is ready

The executor's queue against the lives of its tasks: a task is in the queue, once,
exactly while there is a runnable of it. And where `block_on` is: it runs the task it
is said to run, in the context of that task's node, and the task it waits for is
never dropped.

* `Ready` — what holds after any run;
* `act_phase` — what is done to a task is done to its phase;
* `ready_step`, `ready_exec` — every turn keeps it.
-/

namespace Stratamoto.Dst

open PriorityQueue Machines

/-- The task of `block_on` is neither cancelled nor closed. -/
def Phase.alive : Phase → Bool
  | .idle | .scheduled | .running | .woken | .completed => true
  | .cancelled | .aborting | .dropping | .closed => false

namespace Executor

variable {A : AsyncTask} {R : Rand} {Q : TimerQueue Callback}

/-! ## Tasks by their numbers -/

def phaseOf (x : Executor A R Q) (t : Nat) : Option Phase := x.tasks[t]?.map fun s => A.phase s.task

def infoOf (x : Executor A R Q) (t : Nat) : Option Nat := x.tasks[t]?.map Spawned.info

/-- The function does to a task what the other one does to its phase. -/
def Follows (f : A.Task → A.Task × Bool) (g : Phase → Phase × Bool) : Prop :=
  ∀ t, Prod.map A.phase id (f t) = g (A.phase t)

section Acting

variable (x : Executor A R Q) (t : Nat) {f : A.Task → A.Task × Bool} {g : Phase → Phase × Bool}

theorem infoOf_act (f : A.Task → A.Task × Bool) (t' : Nat) : (x.act t f).infoOf t' = x.infoOf t' := by
  unfold act infoOf
  cases hTask : x.tasks[t]? with
  | none => rfl
  | some s =>
    dsimp only
    by_cases ht : t = t'
    · subst ht
      rw [List.getElem?_set_self (List.getElem?_eq_some_iff.mp hTask).1, hTask]
      rfl
    · rw [List.getElem?_set_ne ht]

theorem phaseOf_act (hf : Follows f g) (t' : Nat) :
    (x.act t f).phaseOf t' =
      if t' = t then (x.phaseOf t').map fun p => (g p).1 else x.phaseOf t' := by
  unfold act phaseOf
  cases hTask : x.tasks[t]? with
  | none =>
    by_cases ht : t' = t
    · rw [if_pos ht, ht, hTask]
      rfl
    · rw [if_neg ht]
  | some s =>
    dsimp only
    by_cases ht : t' = t
    · subst ht
      rw [if_pos rfl, List.getElem?_set_self (List.getElem?_eq_some_iff.mp hTask).1, hTask,
        Option.map_some, Option.map_some, Option.map_some, ← hf s.task]
      rfl
    · rw [if_neg ht, List.getElem?_set_ne (Ne.symm ht)]

/-- The queue is left alone, or the task is put behind it. -/
theorem queue_act (hf : Follows f g) :
    (x.act t f).queue = x.queue ∧ (∀ p, x.phaseOf t = some p → (g p).2 = false) ∨
      ∃ p n, x.phaseOf t = some p ∧ x.infoOf t = some n ∧ (g p).2 = true ∧
        (x.act t f).queue = x.queue ++ [(t, n)] := by
  unfold act phaseOf infoOf
  cases hTask : x.tasks[t]? with
  | none => exact Or.inl ⟨rfl, fun p hp => by cases hp⟩
  | some s =>
    have hSame : (g (A.phase s.task)).2 = (f s.task).2 := by
      rw [← hf s.task]
      rfl
    cases hScheduled : (f s.task).2 with
    | false =>
      refine Or.inl ⟨?_, fun p hp => ?_⟩
      · dsimp only
        rw [hScheduled, if_neg Bool.false_ne_true]
      · obtain rfl := Option.some.inj hp
        rw [hSame, hScheduled]
    | true =>
      refine Or.inr ⟨_, s.info, rfl, rfl, hSame.trans hScheduled, ?_⟩
      dsimp only
      rw [hScheduled, if_pos rfl]

end Acting

theorem follows_wake : Follows A.wake Phase.wake := A.phase_wake

theorem follows_cancel : Follows A.cancel Phase.cancel := A.phase_cancel

theorem follows_finish (ready : Bool) : Follows (A.finish ready) (Phase.finish ready) :=
  A.phase_finish ready

theorem follows_run : Follows (fun t => (A.run t, false)) fun p => (p.run, false) := fun t =>
  congrArg (fun p : Phase => (p, false)) (A.phase_run t)

theorem follows_drop : Follows (fun t => (A.drop t, false)) fun p => (p.drop, false) := fun t =>
  congrArg (fun p : Phase => (p, false)) (A.phase_drop t)

/-! ## The queue -/

/-- The runnables that are queued are those there are. -/
structure Queued (x : Executor A R Q) : Prop where
  info : ∀ t n, (t, n) ∈ x.queue → x.infoOf t = some n
  iff : ∀ t p, x.phaseOf t = some p → (p.queued = true ↔ t ∈ x.queue.map Prod.fst)
  nodup : (x.queue.map Prod.fst).Nodup

variable {x x' : Executor A R Q}

/-- Whose info is known, is a task. -/
theorem exists_phase {t n : Nat} (h : x.infoOf t = some n) : ∃ p, x.phaseOf t = some p := by
  obtain ⟨s, hs, -⟩ := Option.map_eq_some_iff.mp h
  exact ⟨_, Option.map_eq_some_iff.mpr ⟨s, hs, rfl⟩⟩

theorem exists_info {t : Nat} {p : Phase} (h : x.phaseOf t = some p) : ∃ n, x.infoOf t = some n := by
  obtain ⟨s, hs, -⟩ := Option.map_eq_some_iff.mp h
  exact ⟨_, Option.map_eq_some_iff.mpr ⟨s, hs, rfl⟩⟩

/-- Scheduling a task that is not scheduled, and no other. -/
theorem Queued.act (h : x.Queued) (t : Nat) {f : A.Task → A.Task × Bool} {g : Phase → Phase × Bool}
    (hf : Follows f g) (hg : ∀ p, (g p).1.queued = (p.queued || (g p).2) ∧
      ((g p).2 = true → p.queued = false)) : (x.act t f).Queued := by
  rcases queue_act x t hf with ⟨hQueue, hNot⟩ | ⟨p, n, hPhase, hInfo, hScheduled, hQueue⟩
  · refine ⟨fun t' n hMem => ?_, fun t' p hp => ?_, by rw [hQueue]; exact h.nodup⟩
    · rw [infoOf_act]
      exact h.info t' n (hQueue ▸ hMem)
    · rw [phaseOf_act x t hf] at hp
      rw [hQueue]
      by_cases ht : t' = t
      · subst ht
        rw [if_pos rfl] at hp
        obtain ⟨p₀, hp₀, rfl⟩ := Option.map_eq_some_iff.mp hp
        rw [(hg p₀).1, hNot p₀ hp₀, Bool.or_false]
        exact h.iff t' p₀ hp₀
      · exact h.iff t' p ((if_neg ht).symm.trans hp)
  · -- the task was not in the queue, and is its last one
    have hOut : t ∉ x.queue.map Prod.fst := fun hMem => by
      have := (h.iff t p hPhase).mpr hMem
      rw [(hg p).2 hScheduled] at this
      cases this
    have hTasks : (x.act t f).queue.map Prod.fst = x.queue.map Prod.fst ++ [t] := by
      rw [hQueue, List.map_append]
      rfl
    refine ⟨fun t' n' hMem => ?_, fun t' p' hp => ?_, ?_⟩
    · rw [infoOf_act]
      rw [hQueue, List.mem_append, List.mem_singleton] at hMem
      rcases hMem with hMem | hLast
      · exact h.info t' n' hMem
      · obtain ⟨rfl, rfl⟩ := Prod.mk.inj hLast
        exact hInfo
    · rw [phaseOf_act x t hf] at hp
      rw [hTasks, List.mem_append, List.mem_singleton]
      by_cases ht : t' = t
      · subst ht
        rw [if_pos rfl, hPhase] at hp
        obtain rfl := Option.some.inj hp
        rw [(hg p).1, hScheduled, Bool.or_true]
        exact iff_of_true rfl (Or.inr rfl)
      · rw [or_iff_left ht]
        exact h.iff t' p' ((if_neg ht).symm.trans hp)
    · rw [hTasks]
      exact h.nodup.append (List.nodup_singleton t)
        (List.disjoint_singleton.mpr hOut)

/-- The first of the queue is taken, and has no runnable then. -/
theorem Queued.take {t n : Nat} {queue : List (Nat × Nat)} (h : x.Queued)
    (hQueue : x.queue = (t, n) :: queue) {f : A.Task → A.Task × Bool} {g : Phase → Phase × Bool}
    (hf : Follows f g) (hg : ∀ p, (g p).2 = false ∧ (p.queued = true → (g p).1.queued = false)) :
    (({ x with queue } : Executor A R Q).act t f).Queued := by
  have hNodup := h.nodup
  rw [hQueue, List.map_cons, List.nodup_cons] at hNodup
  have hFirst : t ∈ x.queue.map Prod.fst := by
    rw [hQueue]
    exact List.mem_cons_self
  have hRest : (({ x with queue } : Executor A R Q).act t f).queue = queue := by
    rcases queue_act ({ x with queue } : Executor A R Q) t hf with ⟨hSame, -⟩ | ⟨p, _, _, _, hYes, _⟩
    · exact hSame
    · rw [(hg p).1] at hYes
      cases hYes
  refine ⟨fun t' n' hMem => ?_, fun t' p hp => ?_, by rw [hRest]; exact hNodup.2⟩
  · rw [infoOf_act]
    exact h.info t' n' (by rw [hQueue]; exact List.mem_cons_of_mem _ (hRest ▸ hMem))
  · rw [phaseOf_act _ t hf] at hp
    rw [hRest]
    by_cases ht : t' = t
    · subst ht
      rw [if_pos rfl] at hp
      obtain ⟨p₀, hp₀, rfl⟩ := Option.map_eq_some_iff.mp hp
      rw [(hg p₀).2 ((h.iff t' p₀ hp₀).mpr hFirst)]
      exact iff_of_false Bool.false_ne_true hNodup.1
    · rw [if_neg ht] at hp
      rw [h.iff t' p hp, hQueue, List.map_cons, List.mem_cons, or_iff_right ht]

theorem lt_of_phase {t : Nat} {p : Phase} (h : x.phaseOf t = some p) : t < x.tasks.length := by
  obtain ⟨s, hs, -⟩ := Option.map_eq_some_iff.mp h
  exact (List.getElem?_eq_some_iff.mp hs).1

section Spawning

variable {n : Nat} (hTasks : x'.tasks = x.tasks ++ [⟨n, A.spawn⟩])

include hTasks

theorem phaseOf_spawn (t : Nat) :
    x'.phaseOf t = if t = x.tasks.length then some .scheduled else x.phaseOf t := by
  unfold phaseOf
  rw [hTasks]
  by_cases ht : t = x.tasks.length
  · rw [if_pos ht, ht, List.getElem?_concat_length, Option.map_some, A.phase_spawn]
  · rw [if_neg ht]
    rcases Nat.lt_or_ge t x.tasks.length with hLt | hGe
    · rw [List.getElem?_append_left hLt]
    · rw [List.getElem?_eq_none hGe, List.getElem?_eq_none]
      rw [List.length_append, List.length_singleton]
      omega

theorem infoOf_spawn (t : Nat) :
    x'.infoOf t = if t = x.tasks.length then some n else x.infoOf t := by
  unfold infoOf
  rw [hTasks]
  by_cases ht : t = x.tasks.length
  · rw [if_pos ht, ht, List.getElem?_concat_length, Option.map_some]
  · rw [if_neg ht]
    rcases Nat.lt_or_ge t x.tasks.length with hLt | hGe
    · rw [List.getElem?_append_left hLt]
    · rw [List.getElem?_eq_none hGe, List.getElem?_eq_none]
      rw [List.length_append, List.length_singleton]
      omega

/-- A task that is spawned is scheduled. -/
theorem Queued.spawn (h : x.Queued) (hQueue : x'.queue = x.queue ++ [(x.tasks.length, n)]) :
    x'.Queued := by
  -- a task that is there is another one
  have hOld : ∀ t ∈ x.queue.map Prod.fst, t ≠ x.tasks.length := by
    intro t ht hEq
    obtain ⟨⟨t', n'⟩, hMem, rfl⟩ := List.mem_map.mp ht
    obtain ⟨p, hp⟩ := exists_phase (h.info t' n' hMem)
    exact Nat.ne_of_lt (lt_of_phase hp) hEq
  have hNames : x'.queue.map Prod.fst = x.queue.map Prod.fst ++ [x.tasks.length] := by
    rw [hQueue, List.map_append]
    rfl
  refine ⟨fun t m hMem => ?_, fun t p hp => ?_, ?_⟩
  · rw [infoOf_spawn hTasks]
    rw [hQueue, List.mem_append, List.mem_singleton] at hMem
    rcases hMem with hMem | hLast
    · rw [if_neg (hOld t (List.mem_map_of_mem hMem))]
      exact h.info t m hMem
    · obtain ⟨rfl, rfl⟩ := Prod.mk.inj hLast
      exact if_pos rfl
  · rw [phaseOf_spawn hTasks] at hp
    rw [hNames, List.mem_append, List.mem_singleton]
    by_cases ht : t = x.tasks.length
    · obtain rfl := Option.some.inj ((if_pos ht).symm.trans hp)
      exact iff_of_true rfl (Or.inr ht)
    · rw [or_iff_left ht]
      exact h.iff t p ((if_neg ht).symm.trans hp)
  · rw [hNames]
    exact h.nodup.append (List.nodup_singleton _)
      (List.disjoint_singleton.mpr fun hMem => hOld _ hMem rfl)

end Spawning

/-! ## Where `block_on` is -/

structure Placed (x : Executor A R Q) : Prop where
  info_lt : ∀ t n, x.infoOf t = some n → n < x.handle.infos.length
  runs : ∀ t p, x.phaseOf t = some p → p.runs = true →
    (∃ main guard, x.control = .polling main t guard) ∨ ∃ panic, x.control = .panicked panic
  /-- A task is run in the context of its node, and nothing is put back behind it. -/
  running : ∀ main t guard, x.control = .polling main t guard → guard = none ∧
    ∃ p n i, x.phaseOf t = some p ∧ p.runs = true ∧ x.infoOf t = some n ∧
      x.handle.infos[n]? = some i ∧ x.addr = some i.addr
  context : (∀ main t guard, x.control ≠ .polling main t guard) → x.addr = none
  main : ∀ m, x.control.main = some m → (∃ p, x.phaseOf m = some p ∧ p.alive = true) ∧
    ∀ n, x.infoOf m = some n → n ∉ x.handle.handles

/-- Tasks may be woken and cancelled, but not the task `m`, and there may be more of
them. -/
structure Moves (m : Option Nat) (x x' : Executor A R Q) : Prop where
  phase : ∀ t p, x.phaseOf t = some p → ∃ p', x'.phaseOf t = some p' ∧ p'.runs = p.runs ∧
    (m = some t → p.alive = true → p'.alive = true)
  runs : ∀ t p', x'.phaseOf t = some p' → p'.runs = true →
    ∃ p, x.phaseOf t = some p ∧ p.runs = true
  info : ∀ t n, x.infoOf t = some n → x'.infoOf t = some n

theorem Moves.refl (m : Option Nat) (x : Executor A R Q) : Moves m x x :=
  ⟨fun _ p hp => ⟨p, hp, rfl, fun _ hAlive => hAlive⟩, fun _ p hp hRuns => ⟨p, hp, hRuns⟩,
    fun _ _ hn => hn⟩

theorem Moves.trans {m : Option Nat} {x'' : Executor A R Q} (h : Moves m x x')
    (h' : Moves m x' x'') : Moves m x x'' where
  phase t p hp := by
    obtain ⟨p', hp', hRuns, hAlive⟩ := h.phase t p hp
    obtain ⟨p'', hp'', hRuns', hAlive'⟩ := h'.phase t p' hp'
    exact ⟨p'', hp'', hRuns'.trans hRuns, fun hm hp => hAlive' hm (hAlive hm hp)⟩
  runs t p'' hp'' hRuns := by
    obtain ⟨p', hp', hRuns'⟩ := h'.runs t p'' hp'' hRuns
    exact h.runs t p' hp' hRuns'
  info t n hn := h'.info t n (h.info t n hn)

theorem moves_act (x : Executor A R Q) (t : Nat) {m : Option Nat} {f : A.Task → A.Task × Bool}
    {g : Phase → Phase × Bool} (hf : Follows f g)
    (hRuns : ∀ p, x.phaseOf t = some p → (g p).1.runs = p.runs)
    (hAlive : m = some t → ∀ p, p.alive = true → (g p).1.alive = true) :
    Moves m x (x.act t f) := by
  refine ⟨fun t' p hp => ?_, fun t' p' hp' hYes => ?_, fun t' n hn => (infoOf_act x t f t').trans hn⟩
  · rw [phaseOf_act x t hf]
    by_cases ht : t' = t
    · rw [if_pos ht, hp]
      exact ⟨_, rfl, hRuns p (ht ▸ hp), fun hm => hAlive (ht ▸ hm) p⟩
    · rw [if_neg ht]
      exact ⟨p, hp, rfl, fun _ hAlive => hAlive⟩
  · rw [phaseOf_act x t hf] at hp'
    by_cases ht : t' = t
    · rw [if_pos ht] at hp'
      obtain ⟨p, hp, rfl⟩ := Option.map_eq_some_iff.mp hp'
      rw [ht] at hp ⊢
      exact ⟨p, hp, (hRuns p hp).symm.trans hYes⟩
    · exact ⟨p', (if_neg ht).symm.trans hp', hYes⟩

theorem moves_wake (m : Option Nat) (x : Executor A R Q) (t : Nat) : Moves m x (x.wake t) :=
  moves_act x t follows_wake (fun p _ => by cases p <;> rfl)
    fun _ p => by cases p <;> simp [Phase.wake, Phase.alive]

theorem moves_spawn {n : Nat} (m : Option Nat) (hTasks : x'.tasks = x.tasks ++ [⟨n, A.spawn⟩]) :
    Moves m x x' := by
  have hOld : ∀ t p, x.phaseOf t = some p → t ≠ x.tasks.length := fun t p hp =>
    Nat.ne_of_lt (lt_of_phase hp)
  refine ⟨fun t p hp => ⟨p, ?_, rfl, fun _ hAlive => hAlive⟩, fun t p' hp' hRuns => ?_,
    fun t n' hn => ?_⟩
  · rw [phaseOf_spawn hTasks, if_neg (hOld t p hp), hp]
  · rw [phaseOf_spawn hTasks] at hp'
    by_cases ht : t = x.tasks.length
    · obtain rfl := Option.some.inj ((if_pos ht).symm.trans hp')
      cases hRuns
    · exact ⟨p', (if_neg ht).symm.trans hp', hRuns⟩
  · obtain ⟨p, hp⟩ := exists_phase hn
    rw [infoOf_spawn hTasks, if_neg (hOld t p hp), hn]

/-- What wakes and cancels, and does not go elsewhere. -/
theorem Placed.moves (h : x.Placed) (hMoves : Moves x.control.main x x')
    (hControl : x'.control = x.control) (hAddr : x'.addr = x.addr)
    (hGrows : TaskHandle.Grows x.handle x'.handle)
    (hInfo : ∀ t n, x'.infoOf t = some n → x.infoOf t = some n ∨ n < x'.handle.infos.length) :
    x'.Placed where
  info_lt t n hn := by
    rcases hInfo t n hn with hOld | hNew
    · obtain ⟨i, hi, -⟩ := hGrows.kept n _ (List.getElem?_eq_getElem (h.info_lt t n hOld))
      exact TaskHandle.lt_of_info hi
    · exact hNew
  runs t p' hp' hRuns := by
    obtain ⟨p, hp, hRuns'⟩ := hMoves.runs t p' hp' hRuns
    rw [hControl]
    exact h.runs t p hp hRuns'
  running main t guard hRunning := by
    rw [hControl] at hRunning
    obtain ⟨hGuard, p, n, i, hp, hRuns, hn, hi, hHere⟩ := h.running main t guard hRunning
    obtain ⟨p', hp', hSame, -⟩ := hMoves.phase t p hp
    obtain ⟨i', hi', hAt⟩ := hGrows.kept n i hi
    exact ⟨hGuard, p', n, i', hp', hSame.trans hRuns, hMoves.info t n hn, hi',
      by rw [hAddr, hHere, hAt]⟩
  context hNot := by
    rw [hControl] at hNot
    rw [hAddr]
    exact h.context hNot
  main m hMain := by
    rw [hControl] at hMain
    obtain ⟨⟨p, hp, hAlive⟩, hOwn⟩ := h.main m hMain
    obtain ⟨p', hp', -, hAlive'⟩ := hMoves.phase m p hp
    refine ⟨⟨p', hp', hAlive' hMain hAlive⟩, fun n hn => ?_⟩
    -- its info is the one it had, of which nobody holds a handle
    obtain ⟨n₀, hn₀⟩ := exists_info hp
    obtain rfl := Option.some.inj (hn.symm.trans (hMoves.info m n₀ hn₀))
    rw [hGrows.handles n _ (List.getElem?_eq_getElem (h.info_lt m n hn₀))]
    exact hOwn n hn₀

/-- After a panic the context is as it was. -/
theorem Placed.unwind (h : x.Placed) (panic : Panic) : (x.unwind panic).Placed := by
  have hTasks : (x.unwind panic).tasks = x.tasks := by
    unfold Executor.unwind
    split <;> rfl
  have hAddr : (x.unwind panic).addr = none := by
    unfold Executor.unwind
    split
    · rename_i main t guard hControl
      exact (h.running main t guard hControl).1
    · rename_i hNot
      exact h.context hNot
  refine ⟨fun t n hn => ?_, fun t p hp _ => Or.inr ⟨panic, unwind_control ..⟩,
    fun main t guard hRunning => ?_, fun _ => hAddr, fun m hMain => ?_⟩
  · rw [unwind_handle]
    refine h.info_lt t n ?_
    unfold infoOf at hn ⊢
    rwa [hTasks] at hn
  · rw [unwind_control] at hRunning
    cases hRunning
  · rw [unwind_control] at hMain
    cases hMain

/-! ## One turn -/

structure Ready (x : Executor A R Q) : Prop where
  queued : x.Queued
  placed : x.Placed

theorem queued_wakeFor (h : x.Queued) (e : Event Callback) : (x.wakeFor e).Queued := by
  unfold wakeFor
  cases e.callback with
  | wake task => exact h.act task follows_wake fun p => by cases p <;> simp [Phase.wake, Phase.queued]
  | deliver dst message => exact h

theorem moves_wakeFor (m : Option Nat) (x : Executor A R Q) (e : Event Callback) :
    Moves m x (x.wakeFor e) := by
  unfold wakeFor
  cases e.callback with
  | wake task => exact moves_wake m x task
  | deliver dst message => exact .refl m x

/-- Waking one after the other. -/
theorem foldl_wakeFor (m : Option Nat) (events : List (Event Callback)) (h : x.Queued) :
    (events.foldl wakeFor x).Queued ∧ Moves m x (events.foldl wakeFor x) ∧
      ∀ t, (events.foldl wakeFor x).infoOf t = x.infoOf t := by
  induction events generalizing x with
  | nil => exact ⟨h, .refl m x, fun _ => rfl⟩
  | cons e events ih =>
    obtain ⟨hQueued, hMoves, hInfo⟩ := ih (queued_wakeFor h e)
    refine ⟨hQueued, (moves_wakeFor m x e).trans hMoves, fun t => (hInfo t).trans ?_⟩
    unfold wakeFor
    cases e.callback with
    | wake task => exact infoOf_act x task A.wake t
    | deliver dst message => rfl

theorem ready_new (sim : Simulation R Q) : (new A sim).Ready := by
  refine ⟨⟨?_, ?_, List.nodup_nil⟩, ⟨?_, ?_, ?_, fun _ => rfl, ?_⟩⟩
  · intro t n hMem
    cases hMem
  · intro t p hp
    cases hp
  · intro t n hn
    cases hn
  · intro t p hp
    cases hp
  · intro main t guard hRunning
    cases hRunning
  · intro m hMain
    cases hMain

/-- What is done to the nodes, or is simulated, leaves the tasks as they are. -/
theorem Ready.frame {handle : TaskHandle} (h : x.Ready)
    (hGrows : TaskHandle.Grows x.handle handle) (sim : Simulation R Q) :
    ({ x with handle, sim } : Executor A R Q).Ready := by
  have hSame := Moves.refl x.control.main x
  refine ⟨⟨h.queued.info, h.queued.iff, h.queued.nodup⟩, ?_⟩
  exact h.placed.moves ⟨hSame.phase, hSame.runs, hSame.info⟩ rfl rfl hGrows fun _ _ hn => Or.inl hn

theorem ready_call {c : Call R} (h : x.Ready) (hSound : x.handle.Sound)
    (hCall : x.call c = some (.ok x')) : x'.Ready := by
  cases c with
  | localHandle addr =>
    obtain rfl := Except.ok.inj (Option.some.inj hCall)
    exact h.frame (x.handle.grows_localHandle addr) x.sim
  | spawnOn info =>
    simp only [call] at hCall
    split at hCall
    · rename_i hHandle
      obtain rfl := Except.ok.inj (Option.some.inj hCall)
      refine ⟨h.queued.spawn rfl rfl, h.placed.moves (moves_spawn _ rfl) rfl rfl (.refl _)
        fun t n hn => ?_⟩
      rw [infoOf_spawn rfl] at hn
      by_cases ht : t = x.tasks.length
      · obtain rfl := Option.some.inj ((if_pos ht).symm.trans hn)
        exact Or.inr (hSound.lt hHandle)
      · exact Or.inl ((if_neg ht).symm.trans hn)
    · cases hCall
  | spawn =>
    simp only [call] at hCall
    cases hAddr : x.addr with
    | none =>
      rw [hAddr] at hCall
      cases hCall
    | some addr =>
      rw [hAddr] at hCall
      obtain rfl := Except.ok.inj (Option.some.inj hCall)
      refine ⟨Queued.spawn (x := x) rfl h.queued rfl, h.placed.moves (moves_spawn _ rfl) rfl
        hAddr.symm (x.handle.grows_localHandle addr) fun t n hn => ?_⟩
      rw [infoOf_spawn (x := x) rfl] at hn
      by_cases ht : t = x.tasks.length
      · obtain rfl := Option.some.inj ((if_pos ht).symm.trans hn)
        -- the node of the context, which has an info now
        obtain ⟨hNew, hAlive, -⟩ := hSound.localHandle addr
        exact Or.inr (TaskHandle.lt_of_info (hNew.alive addr _ hAlive).2)
      · exact Or.inl ((if_neg ht).symm.trans hn)
  | kill addr =>
    obtain rfl := Except.ok.inj (Option.some.inj hCall)
    exact h.frame (x.handle.grows_kill addr) x.sim
  | wake task =>
    obtain rfl := Except.ok.inj (Option.some.inj hCall)
    refine ⟨h.queued.act task follows_wake fun p => by cases p <;> simp [Phase.wake, Phase.queued],
      h.placed.moves (moves_wake _ x task) (act_control ..) (act_addr ..) ?_
        fun t n hn => Or.inl ((infoOf_act ..).symm.trans hn)⟩
    exact (act_handle x task A.wake).symm ▸ .refl _
  | cancel task =>
    simp only [call] at hCall
    split at hCall
    · cases hCall
    · rename_i hNotMain
      obtain rfl := Except.ok.inj (Option.some.inj hCall)
      refine ⟨h.queued.act task follows_cancel fun p => by cases p <;> simp [Phase.cancel, Phase.queued],
        h.placed.moves (moves_act x task follows_cancel (fun p _ => by cases p <;> rfl)
            fun hMain => absurd hMain hNotMain) (act_control ..) (act_addr ..) ?_
          fun t n hn => Or.inl ((infoOf_act ..).symm.trans hn)⟩
      exact (act_handle x task A.cancel).symm ▸ .refl _
  | sim step =>
    obtain ⟨-, sim, -, rfl⟩ := call_sim hCall
    exact h.frame (.refl _) sim

theorem Ready.unwind (h : x.Ready) (panic : Panic) : (x.unwind panic).Ready := by
  refine ⟨?_, h.placed.unwind panic⟩
  have hSame : (x.unwind panic).tasks = x.tasks ∧ (x.unwind panic).queue = x.queue := by
    unfold Executor.unwind
    split <;> exact ⟨rfl, rfl⟩
  obtain ⟨hTasks, hQueue⟩ := hSame
  obtain ⟨hInfo, hIff, hNodup⟩ := h.queued
  unfold infoOf phaseOf at *
  constructor <;> simp only [infoOf, phaseOf, hTasks, hQueue] <;> assumption

theorem ready_blockOn (h : x.Ready) (hSound : x.handle.Sound) (hOutside : x.control = .outside) :
    x.blockOn.Ready := by
  have hTasks : x.blockOn.tasks = x.tasks ++ [⟨x.handle.infos.length, A.spawn⟩] := rfl
  have hLast := phaseOf_spawn hTasks
  have hInfo := infoOf_spawn hTasks
  have hGrows := x.handle.grows_own
  refine ⟨Queued.spawn (x := x) rfl h.queued rfl, ?_, ?_, ?_, ?_, ?_⟩
  · intro t n hn
    have hLength : x.blockOn.handle.infos.length = x.handle.infos.length + 1 := List.length_append
    rw [hInfo] at hn
    by_cases ht : t = x.tasks.length
    · obtain rfl := Option.some.inj ((if_pos ht).symm.trans hn)
      omega
    · have := h.placed.info_lt t n ((if_neg ht).symm.trans hn)
      omega
  · -- nothing was polled, and the new task is only scheduled
    intro t p hp hRuns
    rw [hLast] at hp
    by_cases ht : t = x.tasks.length
    · obtain rfl := Option.some.inj ((if_pos ht).symm.trans hp)
      cases hRuns
    · rcases h.placed.runs t p ((if_neg ht).symm.trans hp) hRuns with
        ⟨_, _, hControl⟩ | ⟨_, hControl⟩
      · cases hOutside.symm.trans hControl
      · cases hOutside.symm.trans hControl
  · intro main t guard hRunning
    cases hRunning
  · intro _
    refine h.placed.context fun main t guard hControl => ?_
    cases hOutside.symm.trans hControl
  · intro m hMain
    obtain rfl := Option.some.inj hMain
    refine ⟨⟨.scheduled, by rw [hLast, if_pos rfl], rfl⟩, fun n hn hHandle => ?_⟩
    rw [hInfo, if_pos rfl] at hn
    obtain rfl := Option.some.inj hn
    exact Nat.lt_irrefl _ (hSound.lt hHandle)

theorem step_runNext {main t n : Nat} {queue : List (Nat × Nat)} (hControl : x.control = .blocking main)
    (hQueue : x.queue = (t, n) :: queue) :
    x.step .runNext = some (({ x with queue } : Executor A R Q).runNext main t n) := by
  simp only [step]
  split
  · rename_i hControl' hQueue'
    obtain rfl := Control.blocking.inj (hControl.symm.trans hControl')
    obtain ⟨hFirst, rfl⟩ := List.cons.inj (hQueue.symm.trans hQueue')
    obtain ⟨rfl, rfl⟩ := Prod.mk.inj hFirst
    rfl
  · rename_i hNot
    exact absurd hQueue (hNot main t n queue hControl)

/-- **What becomes of the first of the queue**: it is dropped if its node was killed,
and otherwise it is run. -/
theorem runNext_cases (h : x.Ready) (main : Nat) {t n : Nat} {queue : List (Nat × Nat)}
    (hQueue : x.queue = (t, n) :: queue) :
    ∃ i p, x.handle.infos[n]? = some i ∧ x.infoOf t = some n ∧ x.phaseOf t = some p ∧
      p.queued = true ∧
      ((i.killed = true ∧ ({ x with queue } : Executor A R Q).runNext main t n =
          ({ x with queue } : Executor A R Q).act t fun t => (A.drop t, false)) ∨
        (i.killed = false ∧ ({ x with queue } : Executor A R Q).runNext main t n =
          { ({ x with queue } : Executor A R Q).act t fun t => (A.run t, false) with
            addr := some i.addr, control := .polling main t x.addr })) := by
  have hFirst : (t, n) ∈ x.queue := hQueue ▸ List.mem_cons_self
  have hInfo := h.queued.info t n hFirst
  obtain ⟨p, hp⟩ := exists_phase hInfo
  have hYes := (h.queued.iff t p hp).mpr (List.mem_map_of_mem hFirst)
  obtain ⟨i, hAt⟩ : ∃ i, x.handle.infos[n]? = some i :=
    ⟨_, List.getElem?_eq_getElem (h.placed.info_lt t n hInfo)⟩
  refine ⟨i, p, hAt, hInfo, hp, hYes, ?_⟩
  unfold runNext
  simp only [hAt]
  cases hKilled : i.killed with
  | true => exact Or.inl ⟨rfl, if_pos rfl⟩
  | false => exact Or.inr ⟨rfl, if_neg Bool.false_ne_true⟩

theorem ready_runNext (h : x.Ready) (hSound : x.handle.Sound) {main t n : Nat}
    {queue : List (Nat × Nat)} (hControl : x.control = .blocking main)
    (hQueue : x.queue = (t, n) :: queue) :
    (({ x with queue } : Executor A R Q).runNext main t n).Ready := by
  obtain ⟨i, p, hi, hInfo, hp, hYes, hCases⟩ := runNext_cases h main hQueue
  -- the rest of the queue is for later
  set rest : Executor A R Q := { x with queue } with hRest
  have hMain : x.control.main = some main := by rw [hControl]; rfl
  have hPhase : rest.phaseOf t = some p := hp
  have hDropped : ∀ p : Phase, p.drop.queued = false := fun p => by cases p <;> rfl
  have hRan : ∀ p : Phase, p.run.queued = false := fun p => by cases p <;> rfl
  rcases hCases with ⟨hKilled, hEq⟩ | ⟨-, hEq⟩
  · rw [hEq]
    refine ⟨h.queued.take hQueue follows_drop fun p => ⟨rfl, fun _ => hDropped p⟩, ?_⟩
    -- the task of `block_on` is on a node of its own, which nobody kills
    have hNotMain : x.control.main ≠ some t := fun hEq => by
      have hOwn := (h.placed.main t hEq).2 n hInfo
      rw [hSound.others n i hi hOwn] at hKilled
      cases hKilled
    have hMoves := moves_act rest t (m := x.control.main) (follows_drop (A := A))
      (fun p _ => by cases p <;> rfl) fun hEq => absurd hEq hNotMain
    exact h.placed.moves ⟨hMoves.phase, hMoves.runs, hMoves.info⟩ (act_control ..) (act_addr ..)
      ((act_handle rest t _).symm ▸ .refl _) fun t' n hn =>
        Or.inl ((infoOf_act rest t _ t').symm.trans hn)
  · rw [hEq]
    have hQueued := h.queued.take hQueue (follows_run (A := A)) fun p => ⟨rfl, fun _ => hRan p⟩
    refine ⟨⟨hQueued.info, hQueued.iff, hQueued.nodup⟩, ?_⟩
    have hPhases := phaseOf_act rest t (follows_run (A := A))
    have hNow : (rest.act t fun t => (A.run t, false)).phaseOf t = some p.run := by
      rw [hPhases, if_pos rfl, hPhase]
      rfl
    -- what was queued is run, to poll its future or to drop it
    have hRuns : p.run.runs = true := by cases p <;> first | rfl | cases hYes
    refine ⟨fun t' n' hn => ?_, fun t' p' hp' hRuns => ?_, fun main' t' guard hRunning => ?_,
      fun hNot => absurd rfl (hNot main t x.addr), fun m hm => ?_⟩
    · rw [act_handle]
      exact h.placed.info_lt t' n' ((infoOf_act rest t _ t').symm.trans hn)
    · left
      by_cases ht : t' = t
      · exact ⟨main, x.addr, by rw [ht]⟩
      · -- no other task is run
        have hp'' : x.phaseOf t' = some p' := (if_neg ht).symm.trans ((hPhases t').symm.trans hp')
        rcases h.placed.runs t' p' hp'' hRuns with ⟨_, _, hElse⟩ | ⟨_, hElse⟩
        · cases hControl.symm.trans hElse
        · cases hControl.symm.trans hElse
    · obtain ⟨rfl, rfl, rfl⟩ := Control.polling.inj hRunning
      have hContext : x.addr = none := h.placed.context fun _ _ _ hElse => by
        cases hControl.symm.trans hElse
      refine ⟨hContext, p.run, n, i, hNow, hRuns, (infoOf_act rest t _ t).trans hInfo, ?_, rfl⟩
      rw [act_handle]
      exact hi
    · obtain rfl := Option.some.inj hm
      obtain ⟨⟨q, hq, hAliveMain⟩, hOwn⟩ := h.placed.main main hMain
      refine ⟨?_, fun n' hn => ?_⟩
      · by_cases ht : main = t
        · refine ⟨p.run, by rw [ht]; exact hNow, ?_⟩
          obtain rfl := Option.some.inj (hp.symm.trans (ht ▸ hq))
          cases p <;> first | rfl | cases hAliveMain
        · exact ⟨q, (hPhases main).trans ((if_neg ht).trans hq), hAliveMain⟩
      · rw [act_handle]
        exact hOwn n' ((infoOf_act rest t _ main).symm.trans hn)

theorem ready_finish (h : x.Ready) {main t : Nat} {guard : Option SocketAddr} (ready : Bool)
    (hControl : x.control = .polling main t guard) :
    ({ x.act t (A.finish ready) with addr := guard, control := .blocking main } :
      Executor A R Q).Ready := by
  have hMain : x.control.main = some main := by rw [hControl]; rfl
  have hQueued := h.queued.act t (follows_finish ready)
    fun p => by cases ready <;> cases p <;> simp [Phase.finish, Phase.queued]
  have hPhases := phaseOf_act x t (follows_finish (A := A) ready)
  obtain ⟨hGuard, p, n, i, hp, -⟩ := h.placed.running main t guard hControl
  refine ⟨⟨hQueued.info, hQueued.iff, hQueued.nodup⟩, fun t' n' hn => ?_, fun t' p' hp' hYes => ?_,
    fun main' t' guard' hRunning => ?_, fun _ => hGuard, fun m hm => ?_⟩
  · rw [act_handle]
    exact h.placed.info_lt t' n' ((infoOf_act x t _ t').symm.trans hn)
  · -- the task that was polled is not polled any more, and no other one was
    have hp'' := (hPhases t').symm.trans hp'
    by_cases ht : t' = t
    · rw [if_pos ht, ht, hp] at hp''
      obtain rfl := Option.some.inj hp''
      cases ready <;> cases p <;> cases hYes
    · rw [if_neg ht] at hp''
      rcases h.placed.runs t' p' hp'' hYes with ⟨_, _, hElse⟩ | ⟨_, hElse⟩
      · exact absurd (Control.polling.inj (hElse.symm.trans hControl)).2.1 ht
      · cases hControl.symm.trans hElse
  · cases hRunning
  · obtain rfl := Option.some.inj hm
    obtain ⟨⟨q, hq, hAlive⟩, hOwn⟩ := h.placed.main main hMain
    refine ⟨?_, fun n' hn => ?_⟩
    · by_cases ht : main = t
      · refine ⟨(p.finish ready).1, (hPhases main).trans (by rw [if_pos ht, ht, hp]; rfl), ?_⟩
        obtain rfl := Option.some.inj (hp.symm.trans (ht ▸ hq))
        cases ready <;> cases p <;> first | rfl | cases hAlive
      · exact ⟨q, (hPhases main).trans ((if_neg ht).trans hq), hAlive⟩
    · rw [act_handle]
      exact hOwn n' ((infoOf_act x t _ main).symm.trans hn)

/-- With nothing in the queue the clock is advanced, and wakes. -/
theorem ready_advance (h : x.Ready) : x.advance.Ready := by
  obtain ⟨hQueued, hMoves, hInfo⟩ := foldl_wakeFor (x := { x with sim := x.sim.advance })
    x.control.main x.sim.time.advance.2.1 ⟨h.queued.info, h.queued.iff, h.queued.nodup⟩
  refine ⟨hQueued, h.placed.moves ⟨hMoves.phase, hMoves.runs, hMoves.info⟩ (advance_control x)
    (advance_addr x) ((advance_handle x).symm ▸ .refl _) fun t n hn => Or.inl ?_⟩
  exact (hInfo t).symm.trans hn

/-- **What `block_on` does when nothing is ready**: it returns what its task has come
to, or advances the clock, or there is nothing that could happen. -/
theorem pollMain_cases (h : x.Ready) {main : Nat} (hControl : x.control = .blocking main)
    (hQueue : x.queue = []) :
    (x.phaseOf main = some .completed ∧ x.pollMain main = { x with control := .outside }) ∨
      (x.phaseOf main = some .idle ∧ x.sim.time.pending ≠ 0 ∧ x.pollMain main = x.advance) ∨
      (x.phaseOf main = some .idle ∧ x.sim.time.pending = 0 ∧
        x.pollMain main = x.unwind noEvents) := by
  obtain ⟨⟨p, hp, hAlive⟩, -⟩ := h.placed.main main (by rw [hControl]; rfl)
  have hNotQueued : p.queued ≠ true := fun hYes => by
    have := (h.queued.iff main p hp).mp hYes
    rw [hQueue] at this
    cases this
  have hNotRun : p.runs ≠ true := fun hYes => by
    rcases h.placed.runs main p hp hYes with ⟨_, _, hElse⟩ | ⟨_, hElse⟩
    · cases hControl.symm.trans hElse
    · cases hControl.symm.trans hElse
  have hIdle := (TimeRuntime.firesDue x.sim.time).idle
  have hSome : (x.tasks[main]?.map fun s => A.phase s.task) = some p := hp
  unfold pollMain
  rw [hSome]
  cases p with
  | completed => exact Or.inl ⟨hp, rfl⟩
  | idle =>
    right
    dsimp only
    cases hGoing : x.sim.time.advance.2.2 with
    | true =>
      refine Or.inl ⟨hp, fun hNone => ?_, if_pos rfl⟩
      cases hGoing.symm.trans (hIdle.mpr hNone)
    | false => exact Or.inr ⟨hp, hIdle.mp hGoing, if_neg Bool.false_ne_true⟩
  | scheduled | cancelled => exact absurd rfl hNotQueued
  | running | woken | aborting | dropping => exact absurd rfl hNotRun
  | closed => cases hAlive

theorem ready_pollMain (h : x.Ready) {main : Nat} (hControl : x.control = .blocking main)
    (hQueue : x.queue = []) : (x.pollMain main).Ready := by
  rcases pollMain_cases h hControl hQueue with ⟨-, hEq⟩ | ⟨-, -, hEq⟩ | ⟨-, -, hEq⟩
  · rw [hEq]
    refine ⟨⟨h.queued.info, h.queued.iff, h.queued.nodup⟩, h.placed.info_lt,
      fun t p hp hRuns => ?_, fun _ _ _ hRunning => ?_, fun _ => ?_, fun _ hMain => ?_⟩
    · rcases h.placed.runs t p hp hRuns with ⟨_, _, hElse⟩ | ⟨_, hElse⟩
      · cases hControl.symm.trans hElse
      · cases hControl.symm.trans hElse
    · cases hRunning
    · exact h.placed.context fun _ _ _ hElse => by cases hControl.symm.trans hElse
    · cases hMain
  · rw [hEq]
    exact ready_advance h
  · rw [hEq]
    exact h.unwind noEvents

/-- **Every turn keeps what is ready in order.** -/
theorem ready_step {turn : Turn R} (h : x.Ready) (hSound : x.handle.Sound)
    (hStep : x.step turn = some x') : x'.Ready := by
  cases turn with
  | call c =>
    rcases (step_call hStep).2 with hCall | ⟨panic, -, rfl⟩
    · exact ready_call h hSound hCall
    · exact h.unwind panic
  | blockOn =>
    simp only [step] at hStep
    split at hStep
    · rename_i hControl
      obtain rfl := Option.some.inj hStep
      exact ready_blockOn h hSound hControl
    · cases hStep
  | runNext =>
    simp only [step] at hStep
    split at hStep
    · rename_i hControl hQueue
      obtain rfl := Option.some.inj hStep
      exact ready_runNext h hSound hControl hQueue
    · cases hStep
  | finish ready =>
    simp only [step] at hStep
    split at hStep
    · rename_i hControl
      obtain rfl := Option.some.inj hStep
      exact ready_finish h ready hControl
    · cases hStep
  | pollMain =>
    simp only [step] at hStep
    split at hStep
    · rename_i hControl hQueue
      obtain rfl := Option.some.inj hStep
      exact ready_pollMain h hControl hQueue
    · cases hStep

theorem ready_exec {sim : Simulation R Q} {turns : List (Turn R)}
    (h : exec step (new A sim) turns = some x) : x.Ready := by
  have hKept : Preserves step fun x : Executor A R Q => x.handle.Sound ∧ x.Ready :=
    fun _ _ _ hStep hBoth => ⟨sound_step hStep hBoth.1, ready_step hBoth.2 hBoth.1 hStep⟩
  exact (hKept.exec h ⟨TaskHandle.sound_empty, ready_new sim⟩).2

/-! ## A task keeps its node -/

theorem infoOf_unwind (panic : Panic) (t : Nat) : (x.unwind panic).infoOf t = x.infoOf t := by
  unfold unwind
  split <;> rfl

theorem infoOf_call {c : Call R} (h : x.call c = some (.ok x')) {t n : Nat}
    (hn : x.infoOf t = some n) : x'.infoOf t = some n := by
  have hSpawn : ∀ {y : Executor A R Q} {m}, y.tasks = x.tasks ++ [⟨m, A.spawn⟩] →
      y.infoOf t = some n := fun {y m} hTasks => by
    obtain ⟨p, hp⟩ := exists_phase hn
    rw [infoOf_spawn hTasks, if_neg (Nat.ne_of_lt (lt_of_phase hp)), hn]
  cases c with
  | localHandle addr | kill addr =>
    obtain rfl := Except.ok.inj (Option.some.inj h)
    exact hn
  | spawnOn info =>
    simp only [call] at h
    split at h
    · obtain rfl := Except.ok.inj (Option.some.inj h)
      exact hSpawn rfl
    · cases h
  | spawn =>
    simp only [call] at h
    split at h
    · cases h
    · obtain rfl := Except.ok.inj (Option.some.inj h)
      exact hSpawn rfl
  | wake task =>
    obtain rfl := Except.ok.inj (Option.some.inj h)
    exact (infoOf_act ..).trans hn
  | cancel task =>
    simp only [call] at h
    split at h
    · cases h
    · obtain rfl := Except.ok.inj (Option.some.inj h)
      exact (infoOf_act ..).trans hn
  | sim step =>
    obtain ⟨-, sim, -, rfl⟩ := call_sim h
    exact hn

theorem infoOf_step {turn : Turn R} (h : x.Ready) (hStep : x.step turn = some x') {t n : Nat}
    (hn : x.infoOf t = some n) : x'.infoOf t = some n := by
  cases turn with
  | call c =>
    rcases (step_call hStep).2 with hCall | ⟨panic, -, rfl⟩
    · exact infoOf_call hCall hn
    · exact (infoOf_unwind panic t).trans hn
  | blockOn =>
    simp only [step] at hStep
    split at hStep
    · obtain rfl := Option.some.inj hStep
      obtain ⟨p, hp⟩ := exists_phase hn
      rw [infoOf_spawn (x := x) rfl, if_neg (Nat.ne_of_lt (lt_of_phase hp)), hn]
    · cases hStep
  | runNext =>
    simp only [step] at hStep
    split at hStep
    · rename_i main task info queue hControl hQueue
      obtain rfl := Option.some.inj hStep
      obtain ⟨i, p, -, -, -, -, hCases⟩ := runNext_cases h main hQueue
      rcases hCases with ⟨-, hEq⟩ | ⟨-, hEq⟩
      all_goals
        rw [hEq]
        exact (infoOf_act ..).trans hn
    · cases hStep
  | finish ready =>
    simp only [step] at hStep
    split at hStep
    · obtain rfl := Option.some.inj hStep
      exact (infoOf_act ..).trans hn
    · cases hStep
  | pollMain =>
    simp only [step] at hStep
    split at hStep
    · rename_i hControl hQueue
      obtain rfl := Option.some.inj hStep
      rcases pollMain_cases h hControl hQueue with ⟨-, hEq⟩ | ⟨-, -, hEq⟩ | ⟨-, -, hEq⟩
      · rw [hEq]
        exact hn
      · rw [hEq]
        refine (foldl_wakeFor (x := { x with sim := x.sim.advance }) none _ ?_).2.2 t |>.trans hn
        exact ⟨h.queued.info, h.queued.iff, h.queued.nodup⟩
      · rw [hEq]
        exact (infoOf_unwind noEvents t).trans hn
    · cases hStep

theorem infoOf_exec {sim : Simulation R Q} {turns more : List (Turn R)}
    (h : exec step (new A sim) turns = some x) (hMore : exec step x more = some x') {t n : Nat}
    (hn : x.infoOf t = some n) : x'.infoOf t = some n := by
  have hKept : Preserves step fun x : Executor A R Q =>
      x.handle.Sound ∧ x.Ready ∧ x.infoOf t = some n := fun _ _ _ hStep hAll =>
    ⟨sound_step hStep hAll.1, ready_step hAll.2.1 hAll.1 hStep, infoOf_step hAll.2.1 hStep hAll.2.2⟩
  exact (hKept.exec hMore ⟨sound_exec h, ready_exec h, hn⟩).2.2

end Executor

end Stratamoto.Dst
