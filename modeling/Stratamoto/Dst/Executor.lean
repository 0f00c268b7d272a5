import Mathlib.Logic.Relation
import Stratamoto.Dst.Ready

/-!
# Stratamoto — runs of the executor

What the executor does over any run, whatever the futures do:

* `kills_node` — which tasks a kill stops;
* `spawn_stays_on_node` — a task that a task spawns is at its node's address.
-/

namespace Stratamoto.Dst

open PriorityQueue Machines

namespace Executor

variable {A : AsyncTask} {R : Rand} {Q : TimerQueue Callback} {x x' : Executor A R Q}

/-! ## Kills -/

theorem KilledIn.append {x₀ : Executor A R Q} {turns : List (Turn R)} {n : Nat}
    (h : KilledIn x₀ turns n) (more : List (Turn R)) : KilledIn x₀ (turns ++ more) n := by
  obtain ⟨front, addr, back, y, rfl, hFront, hAlive⟩ := h
  exact ⟨front, addr, back ++ more, y, by simp, hFront, hAlive⟩

/-- A kill at an address kills every node there has been at it. -/
theorem killedIn_of_kill {sim : Simulation R Q} {y : Executor A R Q} {front back : List (Turn R)}
    {addr : SocketAddr} {n : Nat} {i : TaskInfo} (hFront : exec step (new A sim) front = some y)
    (hHandle : n ∈ y.handle.handles) (hi : y.handle.infos[n]? = some i) (hAddr : i.addr = addr) :
    KilledIn (new A sim) (front ++ .call (.kill addr) :: back) n := by
  -- the node is alive at the address, or was killed before
  obtain ⟨i', hi', hAlive⟩ := (sound_exec hFront).handed n hHandle
  obtain rfl := Option.some.inj (hi.symm.trans hi')
  cases hKilled : i.killed with
  | true => exact ((killed_iff hFront hi).mp hKilled).append _
  | false => exact ⟨front, addr, back, y, rfl, hFront, hAddr ▸ hAlive hKilled⟩

/-- The nodes and their tasks after a run. -/
structure KillsNode (x₀ : Executor A R Q) (turns : List (Turn R)) (x : Executor A R Q) : Prop where
  /-- A task whose turn it is, is polled unless its node has been killed. -/
  polled : ∀ main t n queue x', x.control = .blocking main → x.queue = (t, n) :: queue →
    x.phaseOf t = some .scheduled → x.step .runNext = some x' →
      ((∃ guard, x'.control = .polling main t guard) ↔ ¬ KilledIn x₀ turns n)
  /-- A kill stops every node there has been at the address. -/
  all : ∀ front addr back y, turns = front ++ .call (.kill addr) :: back →
    exec step x₀ front = some y → ∀ n i, n ∈ y.handle.handles → y.handle.infos[n]? = some i →
      i.addr = addr → KilledIn x₀ turns n
  /-- It stops none at another address. -/
  only : ∀ front addr back y, turns = front ++ .call (.kill addr) :: back →
    exec step x₀ front = some y → ∀ n i, y.handle.info addr = some n →
      x.handle.infos[n]? = some i → i.addr = addr
  /-- A handle for the address is one of a node that runs. -/
  again : ∀ addr, ¬ KilledIn x₀ turns (x.handle.localHandle addr).1
  /-- The task that `block_on` waits for is not on a node that can be killed. -/
  main : ∀ main n, x.control.main = some main → x.infoOf main = some n → ¬ KilledIn x₀ turns n

/-- **What a kill stops**: the tasks of the nodes there have been at the address, from
then on, and nothing else. -/
theorem kills_node (A : AsyncTask) (sim : Simulation R Q) {turns : List (Turn R)}
    {x : Executor A R Q} (h : exec step (new A sim) turns = some x) :
    KillsNode (new A sim) turns x := by
  have hSound := sound_exec h
  have hReady := ready_exec h
  refine ⟨fun main t n queue x' hControl hQueue _ hStep => ?_,
    fun front addr back y hTurns hFront n i hHandle hi hAddr => ?_,
    fun front addr back y hTurns hFront n i hAlive hi => ?_, fun addr hKilled => ?_,
    fun main n hMain hInfo hKilled => ?_⟩
  · obtain ⟨i, p, hi, -, -, -, hCases⟩ := runNext_cases hReady main hQueue
    rw [step_runNext hControl hQueue] at hStep
    rw [← killed_iff h hi, ← Option.some.inj hStep]
    rcases hCases with ⟨hKilled, hEq⟩ | ⟨hAlive, hEq⟩
    · rw [hEq, act_control, hKilled]
      refine iff_of_false (fun ⟨guard, hElse⟩ => ?_) (not_not_intro rfl)
      cases hControl.symm.trans hElse
    · rw [hEq, hAlive]
      exact iff_of_true ⟨x.addr, rfl⟩ Bool.false_ne_true
  · rw [hTurns]
    exact killedIn_of_kill hFront hHandle hi hAddr
  · rw [hTurns] at h
    obtain ⟨y', hFront', hBack⟩ := exec_append_iff.mp h
    obtain rfl := Option.some.inj (hFront.symm.trans hFront')
    obtain ⟨i', hi', hSame⟩ := (grows_exec hBack).kept n _ ((sound_exec hFront).alive addr n hAlive).2
    obtain rfl := Option.some.inj (hi.symm.trans hi')
    exact hSame
  · rcases x.handle.localHandle_cases addr with ⟨n, hInfo, hEq⟩ | ⟨-, hEq⟩
    · rw [hEq] at hKilled
      cases (killed_iff h (hSound.alive addr n hInfo).2).mpr hKilled
    · -- a node that was alive in the run has an info already
      rw [hEq] at hKilled
      obtain ⟨front, a, back, y, rfl, hFront, hAlive⟩ := hKilled
      obtain ⟨y', hFront', hBack⟩ := exec_append_iff.mp h
      obtain rfl := Option.some.inj (hFront.symm.trans hFront')
      obtain ⟨i, hi, -⟩ := (grows_exec hBack).kept _ _ ((sound_exec hFront).alive a _ hAlive).2
      exact Nat.lt_irrefl _ (TaskHandle.lt_of_info hi)
  · have hOwn := (hReady.placed.main main hMain).2 n hInfo
    have hAt := List.getElem?_eq_getElem (hReady.placed.info_lt main n hInfo)
    have hMark := (killed_iff h hAt).mpr hKilled
    rw [hSound.others n _ hAt hOwn] at hMark
    cases hMark

/-- A simulation that draws the least, with a queue that is scanned. -/
def quiet : Simulation Simulation.steady (Queue.scanning Event.deadline) :=
  Simulation.new (Queue.scanning Event.deadline) () 0

/-- An executor of tasks that are nothing but their phases. -/
def plain : Executor AsyncTask.phases Simulation.steady (Queue.scanning Event.deadline) :=
  new AsyncTask.phases quiet

/-- A node with one task, which is killed before its task has its turn. -/
theorem kills_node_beforeTurn :
    ∃ x, exec step plain [.call (.localHandle (Simulation.endpoint 1)), .call (.spawnOn 0), .blockOn,
        .call (.kill (Simulation.endpoint 1))] = some x ∧
      KillsNode plain [.call (.localHandle (Simulation.endpoint 1)), .call (.spawnOn 0), .blockOn,
        .call (.kill (Simulation.endpoint 1))] x := by
  obtain ⟨x, hx⟩ : ∃ x, exec step plain [.call (.localHandle (Simulation.endpoint 1)),
    .call (.spawnOn 0), .blockOn, .call (.kill (Simulation.endpoint 1))] = some x := ⟨_, rfl⟩
  exact ⟨x, hx, kills_node AsyncTask.phases quiet hx⟩

/-! ## Families -/

/-- The address that a task's node is at. -/
def addrOf (x : Executor A R Q) (t : Nat) : Option SocketAddr :=
  (x.infoOf t).bind fun n => x.handle.infos[n]?.map TaskInfo.addr

/-- In the run, the first task spawned the second one while it was polled, or while its
future was dropped at its turn. -/
def SpawnsIn (x₀ : Executor A R Q) (turns : List (Turn R)) (parent child : Nat) : Prop :=
  ∃ front back y main guard, turns = front ++ .call .spawn :: back ∧
    exec step x₀ front = some y ∧ y.control = .polling main parent guard ∧ child = y.tasks.length

theorem addrOf_exec {sim : Simulation R Q} {turns more : List (Turn R)}
    (h : exec step (new A sim) turns = some x) (hMore : exec step x more = some x') {t : Nat}
    {addr : SocketAddr} (hAddr : x.addrOf t = some addr) : x'.addrOf t = some addr := by
  obtain ⟨n, hn, hAt⟩ := Option.bind_eq_some_iff.mp hAddr
  obtain ⟨i, hi, rfl⟩ := Option.map_eq_some_iff.mp hAt
  obtain ⟨i', hi', hSame⟩ := (grows_exec hMore).kept n i hi
  unfold addrOf
  rw [infoOf_exec h hMore hn, Option.bind_some, hi', Option.map_some, hSame]

/-- What `task::spawn` does while a task is run. -/
theorem spawn_of_polling {sim : Simulation R Q} {turns : List (Turn R)}
    (h : exec step (new A sim) turns = some x) {main t : Nat} {guard : Option SocketAddr}
    (hControl : x.control = .polling main t guard) :
    ∃ addr n x', x.addrOf t = some addr ∧ x.step (.call .spawn) = some x' ∧
      x'.infoOf x.tasks.length = some n ∧ x'.handle.info addr = some n ∧
      x'.addrOf x.tasks.length = some addr := by
  obtain ⟨-, p, m, i, -, -, hInfo, hi, hHere⟩ := (ready_exec h).placed.running main t guard hControl
  obtain ⟨hSound, hAlive, -⟩ := (sound_exec h).localHandle i.addr
  -- the node of the context, whether it is the one the task is on or a new one
  have hStep : x.step (.call .spawn) =
      some (({ x with handle := (x.handle.localHandle i.addr).2 } : Executor A R Q).spawnOn
        (x.handle.localHandle i.addr).1) := by
    simp only [step, call, hControl, hHere]
    rfl
  have hNode : ((({ x with handle := (x.handle.localHandle i.addr).2 } : Executor A R Q).spawnOn
      (x.handle.localHandle i.addr).1)).infoOf x.tasks.length =
        some (x.handle.localHandle i.addr).1 := by
    rw [infoOf_spawn (x := x) rfl, if_pos rfl]
  refine ⟨i.addr, (x.handle.localHandle i.addr).1, _, ?_, hStep, hNode, hAlive, ?_⟩
  · unfold addrOf
    rw [hInfo, Option.bind_some, hi, Option.map_some]
  · unfold addrOf
    rw [hNode, Option.bind_some]
    show ((x.handle.localHandle i.addr).2.infos[_]?).map TaskInfo.addr = _
    rw [(hSound.alive i.addr _ hAlive).2, Option.map_some]

/-- Who spawned whom, and on which nodes. -/
structure StaysOnNode (x₀ : Executor A R Q) (turns : List (Turn R)) (x : Executor A R Q) :
    Prop where
  /-- Whoever descends from a task is at its address, on a node that there are handles of. -/
  family : ∀ parent child, Relation.TransGen (SpawnsIn x₀ turns) parent child →
    ∃ addr n, x.addrOf parent = some addr ∧ x.addrOf child = some addr ∧
      x.infoOf child = some n ∧ n ∈ x.handle.handles
  /-- A kill of the address stops whoever descends from the task by then. -/
  dies : ∀ front addr back y parent child n, turns = front ++ .call (.kill addr) :: back →
    exec step x₀ front = some y → Relation.TransGen (SpawnsIn x₀ front) parent child →
    y.addrOf parent = some addr → x.infoOf child = some n → KilledIn x₀ turns n
  /-- Only in a runnable that is run can be spawned so. -/
  outside : (∀ main t guard, x.control ≠ .polling main t guard) →
    ∀ x', x.step (.call .spawn) = some x' → x' = x.unwind unwrapNone

theorem family_of_run {sim : Simulation R Q} {turns : List (Turn R)}
    (h : exec step (new A sim) turns = some x) {parent child : Nat}
    (hFamily : Relation.TransGen (SpawnsIn (new A sim) turns) parent child) :
    ∃ addr n, x.addrOf parent = some addr ∧ x.addrOf child = some addr ∧
      x.infoOf child = some n ∧ n ∈ x.handle.handles := by
  -- one spawn, at the end of the run
  have hOne : ∀ {parent child : Nat}, SpawnsIn (new A sim) turns parent child →
      ∃ addr n, x.addrOf parent = some addr ∧ x.addrOf child = some addr ∧
        x.infoOf child = some n ∧ n ∈ x.handle.handles := by
    rintro parent child ⟨front, back, y, main, guard, rfl, hFront, hControl, rfl⟩
    obtain ⟨y', hFront', hBack⟩ := exec_append_iff.mp h
    obtain rfl := Option.some.inj (hFront.symm.trans hFront')
    obtain ⟨y₁, hStep, hRest⟩ := exec_cons_iff.mp hBack
    obtain ⟨addr, n, y₂, hParent, hSpawn, hInfo, hAlive, hChild⟩ := spawn_of_polling hFront hControl
    obtain rfl := Option.some.inj (hStep.symm.trans hSpawn)
    have hTo := exec_snoc_iff.mpr ⟨y, hFront, hStep⟩
    obtain ⟨hHandle, hAt⟩ := (sound_exec hTo).alive addr n hAlive
    exact ⟨addr, n, addrOf_exec hFront hBack hParent, addrOf_exec hTo hRest hChild,
      infoOf_exec hTo hRest hInfo, ((grows_exec hRest).handles n _ hAt).mpr hHandle⟩
  induction hFamily with
  | single hSpawn => exact hOne hSpawn
  | tail _ hSpawn ih =>
    obtain ⟨addr, n, hParent, hBetween, -, -⟩ := ih
    obtain ⟨addr', n', hBetween', hChild, hInfo, hHandle⟩ := hOne hSpawn
    obtain rfl := Option.some.inj (hBetween.symm.trans hBetween')
    exact ⟨addr, n', hParent, hChild, hInfo, hHandle⟩

/-- **A family stays on its node's address**, and a kill stops it whole. -/
theorem spawn_stays_on_node (A : AsyncTask) (sim : Simulation R Q) {turns : List (Turn R)}
    {x : Executor A R Q} (h : exec step (new A sim) turns = some x) :
    StaysOnNode (new A sim) turns x := by
  refine ⟨fun parent child => family_of_run h,
    fun front addr back y parent child n hTurns hFront hFamily hAddr hInfo => ?_,
    fun hNot x' hStep => ?_⟩
  · obtain ⟨addr', m, hParent, hChild, hm, hHandle⟩ := family_of_run hFront hFamily
    obtain rfl := Option.some.inj (hAddr.symm.trans hParent)
    have h' := h
    rw [hTurns] at h'
    obtain ⟨y', hFront', hBack⟩ := exec_append_iff.mp h'
    obtain rfl := Option.some.inj (hFront.symm.trans hFront')
    obtain rfl := Option.some.inj (hInfo.symm.trans (infoOf_exec hFront hBack hm))
    -- the child is on a node at the address that is killed
    unfold addrOf at hChild
    rw [hm, Option.bind_some] at hChild
    obtain ⟨i, hi, hAt⟩ := Option.map_eq_some_iff.mp hChild
    rw [hTurns]
    exact killedIn_of_kill hFront hHandle hi hAt
  · have hNone := (ready_exec h).placed.context hNot
    rcases (step_call hStep).2 with hCall | ⟨panic, hCall, rfl⟩
    · simp only [call, hNone] at hCall
      cases hCall
    · simp only [call, hNone] at hCall
      rw [Except.error.inj (Option.some.inj hCall)]

/-- A task of a node spawns another one. -/
theorem spawn_stays_on_node_child :
    ∃ x, exec step plain [.call (.localHandle (Simulation.endpoint 1)), .call (.spawnOn 0), .blockOn,
        .runNext, .call .spawn, .finish true] = some x ∧
      StaysOnNode plain [.call (.localHandle (Simulation.endpoint 1)), .call (.spawnOn 0), .blockOn,
        .runNext, .call .spawn, .finish true] x := by
  obtain ⟨x, hx⟩ : ∃ x, exec step plain [.call (.localHandle (Simulation.endpoint 1)),
    .call (.spawnOn 0), .blockOn, .runNext, .call .spawn, .finish true] = some x := ⟨_, rfl⟩
  exact ⟨x, hx, spawn_stays_on_node AsyncTask.phases quiet hx⟩

end Executor

end Stratamoto.Dst
