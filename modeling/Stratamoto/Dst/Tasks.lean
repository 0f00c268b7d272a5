import Stratamoto.Dst.Network

/-!
# Stratamoto — tasks and their executor

`task.rs`, `context.rs` and `Runtime` of `lib.rs`: tasks belong to a node, which is
known by its address, and are polled one after the other on one thread. What has
been woken is in a queue; a node that is killed has its tasks dropped when their
turn comes. The clock is advanced when nothing is left to poll.

A future is arbitrary: while it is polled it makes any calls, and then it is ready
or not; and while it is dropped it makes any calls, too. So the executor is a machine
(`Executor.step`), whose turns are the calls that are made on it, by futures, by what
drops them or from outside, and what `block_on` does by itself. The life of one task
is that of `async_task` (`AsyncTask`).

An `Arc<TaskInfo>` is known by when it was allocated, and a waker by its task.
-/

namespace Stratamoto.Dst

open PriorityQueue

/-! ## `async_task` -/

/-- Where a task is in its life. -/
inductive Phase where
  | idle
  | scheduled
  | running
  /-- Running, and woken since. -/
  | woken
  /-- Cancelled; what is scheduled is only to drop the future. -/
  | cancelled
  /-- Cancelled while running. -/
  | aborting
  /-- Run after it was cancelled, to drop the future. -/
  | dropping
  | completed
  | closed
  deriving DecidableEq, Repr

namespace Phase

/-- A waker is called: the phase after it, and whether the task is scheduled. -/
def wake : Phase → Phase × Bool
  | .idle => (.scheduled, true)
  | .running => (.woken, false)
  | phase => (phase, false)

/-- The task's handle is dropped. -/
def cancel : Phase → Phase × Bool
  | .idle => (.cancelled, true)
  | .scheduled => (.cancelled, false)
  | .running | .woken => (.aborting, false)
  | phase => (phase, false)

/-- The runnable is run, and polls the future unless the task was cancelled. -/
def run : Phase → Phase
  | .scheduled => .running
  | .cancelled => .dropping
  | phase => phase

/-- The future has been polled: it is ready, or it is scheduled again if it was woken.
One that was dropped is neither. -/
def finish (ready : Bool) : Phase → Phase × Bool
  | .running => (if ready then .completed else .idle, false)
  | .woken => if ready then (.completed, false) else (.scheduled, true)
  | .aborting | .dropping => (.closed, false)
  | phase => (phase, false)

/-- The runnable is dropped. -/
def drop : Phase → Phase
  | .scheduled | .cancelled => .closed
  | phase => phase

/-- There is a runnable of the task. -/
def queued : Phase → Bool
  | .scheduled | .cancelled => true
  | _ => false

/-- The runnable is being run. -/
def runs : Phase → Bool
  | .running | .woken | .aborting | .dropping => true
  | _ => false

end Phase

/-- A task of `async_task`, whose schedule function is called where a result says so. -/
structure AsyncTask where
  Task : Type
  phase : Task → Phase
  /-- A task that is spawned and scheduled. -/
  spawn : Task
  wake : Task → Task × Bool
  cancel : Task → Task × Bool
  run : Task → Task
  finish : Bool → Task → Task × Bool
  drop : Task → Task
  phase_spawn : phase spawn = .scheduled
  phase_wake : ∀ t, Prod.map phase id (wake t) = (phase t).wake
  phase_cancel : ∀ t, Prod.map phase id (cancel t) = (phase t).cancel
  phase_run : ∀ t, phase (run t) = (phase t).run
  phase_finish : ∀ ready t, Prod.map phase id (finish ready t) = (phase t).finish ready
  phase_drop : ∀ t, phase (drop t) = (phase t).drop

/-- Tasks that are nothing but their phases. -/
def AsyncTask.phases : AsyncTask where
  Task := Phase
  phase := id
  spawn := .scheduled
  wake := Phase.wake
  cancel := Phase.cancel
  run := Phase.run
  finish := Phase.finish
  drop := Phase.drop
  phase_spawn := rfl
  phase_wake _ := rfl
  phase_cancel _ := rfl
  phase_run _ := rfl
  phase_finish _ _ := rfl
  phase_drop _ := rfl

/-! ## `task.rs` -/

structure TaskInfo where
  addr : SocketAddr
  killed : Bool
  deriving DecidableEq

/-- A task, with what its schedule function has captured. -/
structure Spawned (A : AsyncTask) where
  info : Nat
  task : A.Task

/-- Where `block_on` is. -/
inductive Control where
  | outside
  /-- Between two runnables; `main` is the task that is waited for. -/
  | blocking (main : Nat)
  /-- In a runnable, with what the guard of the context puts back. -/
  | polling (main task : Nat) (guard : Option SocketAddr)
  | panicked (panic : Panic)

/-- The task that `block_on` waits for. -/
def Control.main : Control → Option Nat
  | .blocking main | .polling main _ _ => some main
  | .outside | .panicked _ => none

/-- The nodes there are. -/
structure TaskHandle where
  infos : List TaskInfo
  /-- The nodes that are alive, by their addresses. -/
  info : SocketAddr → Option Nat
  /-- The infos that local handles hold. -/
  handles : List Nat

namespace TaskHandle

/-- The node at the address, which is made if there is none, or none any more. -/
def localHandle (h : TaskHandle) (addr : SocketAddr) : Nat × TaskHandle :=
  match h.info addr with
  | some info => (info, h)
  | none =>
    (h.infos.length, {
      infos := h.infos ++ [⟨addr, false⟩]
      info := Function.update h.info addr (some h.infos.length)
      handles := h.handles ++ [h.infos.length] })

def kill (h : TaskHandle) (addr : SocketAddr) : TaskHandle :=
  match h.info addr with
  | none => h
  | some info =>
    { h with
      infos := h.infos.modify info fun i => { i with killed := true }
      info := Function.update h.info addr none }

end TaskHandle

structure Executor (A : AsyncTask) (R : Rand) (Q : TimerQueue Callback) where
  handle : TaskHandle
  tasks : List (Spawned A)
  queue : List (Nat × Nat)
  /-- The network and the time. -/
  sim : Simulation R Q
  /-- The address in the context of the thread. -/
  addr : Option SocketAddr
  control : Control

/-- A call that a future makes, or the code around the executor. -/
inductive Call (R : Rand) where
  | localHandle (addr : SocketAddr)
  /-- `TaskLocalHandle::spawn`, on a handle. -/
  | spawnOn (info : Nat)
  /-- `task::spawn`, on the node of the context. -/
  | spawn
  | kill (addr : SocketAddr)
  | wake (task : Nat)
  | cancel (task : Nat)
  | sim (step : Step R)

/-- What happens next. -/
inductive Turn (R : Rand) where
  | call (call : Call R)
  | blockOn
  /-- `run_all_ready` takes the next runnable. -/
  | runNext
  /-- The runnable returns, with what the future has returned if it was polled. -/
  | finish (ready : Bool)
  /-- Nothing is ready: `block_on` polls its task, or advances. -/
  | pollMain

/-- `unwrap` of what is not there. -/
def unwrapNone : Panic := .expect "called `Option::unwrap()` on a `None` value"

def noEvents : Panic := .expect "no events, the task will block forever"

/-- The address of the task of `block_on`, `0.0.0.0:0`. -/
def unspecified : SocketAddr := .v4 0 0

namespace Executor

variable {A : AsyncTask} {R : Rand} {Q : TimerQueue Callback}

def new (A : AsyncTask) (sim : Simulation R Q) : Executor A R Q where
  handle := ⟨[], fun _ => none, []⟩
  tasks := []
  queue := []
  sim
  addr := none
  control := .outside

/-- Do something to a task, and schedule it if that says so. -/
def act (x : Executor A R Q) (task : Nat) (f : A.Task → A.Task × Bool) : Executor A R Q :=
  match x.tasks[task]? with
  | none => x
  | some spawned =>
    let (next, scheduled) := f spawned.task
    { x with
      tasks := x.tasks.set task { spawned with task := next }
      queue := if scheduled then x.queue ++ [(task, spawned.info)] else x.queue }

def wake (x : Executor A R Q) (task : Nat) : Executor A R Q := x.act task A.wake

/-- `TaskLocalHandle::spawn`. -/
def spawnOn (x : Executor A R Q) (info : Nat) : Executor A R Q :=
  { x with
    tasks := x.tasks ++ [⟨info, A.spawn⟩]
    queue := x.queue ++ [(x.tasks.length, info)] }

def call (x : Executor A R Q) : Call R → Option (Except Panic (Executor A R Q))
  | .localHandle addr => some (.ok { x with handle := (x.handle.localHandle addr).2 })
  | .spawnOn info => if info ∈ x.handle.handles then some (.ok (x.spawnOn info)) else none
  | .spawn =>
    some (match x.addr with
      | none => .error unwrapNone
      | some addr =>
        let (info, handle) := x.handle.localHandle addr
        .ok ({ x with handle }.spawnOn info))
  | .kill addr => some (.ok { x with handle := x.handle.kill addr })
  | .wake task => some (.ok (x.wake task))
  -- the handle of the task that is waited for is held by `block_on`
  | .cancel task => if x.control.main = some task then none else some (.ok (x.act task A.cancel))
  -- only `block_on` can advance the time
  | .sim .advance => none
  | .sim step => some ((x.sim.step step).map fun sim => { x with sim })

/-- A panic goes through `block_on`, and the guard puts the address back. -/
def unwind (x : Executor A R Q) (panic : Panic) : Executor A R Q :=
  match x.control with
  | .polling _ _ guard => { x with control := .panicked panic, addr := guard }
  | _ => { x with control := .panicked panic }

/-- The start of `block_on`: its task is spawned, on an info of its own. -/
def blockOn (x : Executor A R Q) : Executor A R Q :=
  { x with
    handle := { x.handle with infos := x.handle.infos ++ [⟨unspecified, false⟩] }
    tasks := x.tasks ++ [⟨x.handle.infos.length, A.spawn⟩]
    queue := x.queue ++ [(x.tasks.length, x.handle.infos.length)]
    control := .blocking x.tasks.length }

/-- The loop of `run_all_ready`, with the runnable that has been received. -/
def runNext (x : Executor A R Q) (main task info : Nat) : Executor A R Q :=
  match x.handle.infos[info]? with
  | none => x
  | some i =>
    if i.killed then x.act task fun t => (A.drop t, false)
    else
      -- the guard is held while the future of a cancelled task is dropped, too
      { x.act task fun t => (A.run t, false) with
        addr := some i.addr
        control := .polling main task x.addr }

/-- Wake whom an event wakes. -/
def wakeFor (x : Executor A R Q) (e : Event Callback) : Executor A R Q :=
  match e.callback with
  | .wake task => x.wake task
  | .deliver _ _ => x

/-- `TimeRuntime::advance`, which calls what is due. -/
def advance (x : Executor A R Q) : Executor A R Q :=
  x.sim.time.advance.2.1.foldl wakeFor { x with sim := x.sim.advance }

/-- The rest of a turn of `block_on`'s loop, when nothing is ready. -/
def pollMain (x : Executor A R Q) (main : Nat) : Executor A R Q :=
  match x.tasks[main]?.map fun s => A.phase s.task with
  | some .completed => { x with control := .outside }
  | some .closed => x.unwind (.expect "Task polled after completion")
  | _ => if x.sim.time.advance.2.2 then x.advance else x.unwind noEvents

/-- One turn, if it can be taken. -/
def step (x : Executor A R Q) : Turn R → Option (Executor A R Q)
  | .call c =>
    match x.control with
    | .panicked _ => none
    | _ => (x.call c).map fun
      | .ok x => x
      | .error panic => x.unwind panic
  | .blockOn =>
    match x.control with
    | .outside => some x.blockOn
    | _ => none
  | .runNext =>
    match x.control, x.queue with
    | .blocking main, (task, info) :: queue => some ({ x with queue }.runNext main task info)
    | _, _ => none
  | .finish ready =>
    match x.control with
    | .polling main task guard =>
      some { x.act task (A.finish ready) with addr := guard, control := .blocking main }
    | _ => none
  | .pollMain =>
    match x.control, x.queue with
    | .blocking main, [] => some (x.pollMain main)
    | _, _ => none

end Executor

end Stratamoto.Dst
