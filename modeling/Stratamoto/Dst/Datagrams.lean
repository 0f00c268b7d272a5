import Stratamoto.Dst.Timers
import Stratamoto.Library.Machines

/-!
# Stratamoto — datagrams

What the tasks of a simulation see of the network: a handle for an address sends, and
takes what has been delivered to it, with the calls of `net/mod.rs` in any order and
time passing between them. Beside the simulation the state keeps how much has been
taken from each channel, and a record of what went in and out of the network.

* `Net.step` — one call;
* `Ledger` — where every datagram that was sent is;
* `ledger_of_exec` — there is a ledger after every run, and when nothing is lost;
* `receives_of_exec` — what is received is what was delivered, in order;
* `datagrams_accounted_for` — all of it together.
-/

namespace Stratamoto.Dst

open PriorityQueue Machines

/-- What is drawn is of the range. -/
structure Rand.Ranged (R : Rand) : Prop where
  genRange : ∀ rng start stop, start < stop →
    start ≤ (R.genRange rng start stop).1 ∧ (R.genRange rng start stop).1 < stop

/-! ## Calls -/

/-- What was given to the network, and when. -/
structure Datagram where
  src : SocketAddr
  dst : SocketAddr
  tag : UInt64
  data : List UInt8
  sentAt : Nat
  deriving DecidableEq

/-- What a call that receives has returned. -/
inductive Received where
  | recv (data : List UInt8) (tag : UInt64) (src : SocketAddr)
  /-- The buffer as it was before, the length, and the buffer as it is after. -/
  | recvFrom (before : List UInt8) (len : Nat) (tag : UInt64) (src : SocketAddr)
      (after : List UInt8)
  deriving DecidableEq

structure Net (R : Rand) (Q : TimerQueue Callback) where
  sim : Simulation R Q
  /-- How many messages have been taken from the channel of an endpoint. -/
  taken : SocketAddr → Nat
  sent : List Datagram
  received : List (SocketAddr × Received)

inductive NetCall (R : Rand) where
  | localHandle (addr : SocketAddr)
  | connect (addr : SocketAddr)
  | disconnect (addr : SocketAddr)
  | setPacketLossRate (rate : R.Probability)
  | sendTo (src dst : SocketAddr) (tag : UInt64) (data : List UInt8)
  | recv (addr : SocketAddr)
  | tryRecv (addr : SocketAddr)
  | recvFrom (addr : SocketAddr) (buffer : List UInt8)
  | pollSleepUntil (deadline waker : Nat)
  | addTimer (deadline waker : Nat)
  | advance

namespace Net

variable {R : Rand} {Q : TimerQueue Callback}

def new (Q : TimerQueue Callback) (rng : R.Rng) (base : Nat) : Net R Q where
  sim := .new Q rng base
  taken := fun _ => 0
  sent := []
  received := []

/-- The first message in the channel of the endpoint. -/
def front (w : Net R Q) (addr : SocketAddr) : Option Message :=
  (w.sim.delivered addr)[w.taken addr]?

/-- The message is taken from the channel. -/
def take (w : Net R Q) (addr : SocketAddr) (received : Received) : Net R Q :=
  { w with
    taken := Function.update w.taken addr (w.taken addr + 1)
    received := w.received ++ [(addr, received)] }

def recvMessage (message : Message) : Received := .recv message.data message.tag message.from_

/-- As much of the data as fits is copied to the front of the buffer. -/
def recvInto (buffer : List UInt8) (message : Message) : Received :=
  let len := min buffer.length message.data.length
  .recvFrom buffer len message.tag message.from_ (message.data.take len ++ buffer.drop len)

/-- One call. A call on a handle needs one, and waits for a message where it must. -/
def step (w : Net R Q) : NetCall R → Option (Net R Q)
  | .localHandle addr =>
    some { w with sim := { w.sim with network := w.sim.network.get addr } }
  | .connect addr => some { w with sim := { w.sim with network := w.sim.network.unclog addr } }
  | .disconnect addr => some { w with sim := { w.sim with network := w.sim.network.clog addr } }
  | .setPacketLossRate rate =>
    some { w with sim := { w.sim with network := w.sim.network.setPacketLossRate rate } }
  | .sendTo src dst tag data =>
    match w.sim.send src dst tag data with
    | .ok sim => some { w with sim, sent := w.sent ++ [⟨src, dst, tag, data, w.sim.time.now⟩] }
    | .error _ => none
  | .recv addr => (w.front addr).map fun message => w.take addr (recvMessage message)
  | .tryRecv addr =>
    match w.front addr with
    | some message => some (w.take addr (recvMessage message))
    | none => some w
  | .recvFrom addr buffer => (w.front addr).map fun message => w.take addr (recvInto buffer message)
  | .pollSleepUntil deadline waker =>
    some { w with sim :=
      { w.sim with time := (w.sim.time.pollSleepUntil deadline (.wake waker)).1 } }
  | .addTimer deadline waker =>
    some { w with sim := { w.sim with time := w.sim.time.addTimer deadline (.wake waker) } }
  | .advance => some { w with sim := w.sim.advance }

/-! ## Where a datagram is -/

/-- A datagram that is on its way or has arrived. -/
structure Flight where
  datagram : Datagram
  dueAt : Nat
  deriving DecidableEq

def Flight.message (f : Flight) : Message :=
  { tag := f.datagram.tag, data := f.datagram.data, from_ := f.datagram.src }

/-- The timer that delivers it. -/
def Flight.event (f : Flight) : Event Callback := ⟨f.dueAt, .deliver f.datagram.dst f.message⟩

/-- The timer delivers a message. -/
def delivers (e : Event Callback) : Bool :=
  match e.callback with
  | .wake _ => false
  | .deliver _ _ => true

@[simp] theorem delivers_event (f : Flight) : delivers f.event = true := rfl

/-- Where every datagram that was sent is: it has arrived, or it is on its way, or it
was lost. -/
structure Ledger (w : Net R Q) (arrived : List Flight) (underway : Multiset Flight)
    (lost : Multiset Datagram) : Prop where
  /-- Nothing is sent twice, altered, or made up. -/
  sent : (w.sent : Multiset Datagram) =
    (arrived.map Flight.datagram : Multiset Datagram) + underway.map Flight.datagram + lost
  /-- What has arrived is in the channel of its destination, in the order of arrival. -/
  delivered : ∀ addr, w.sim.delivered addr =
    (arrived.filter (·.datagram.dst = addr)).map Flight.message
  /-- What is on its way has a timer, and no timer delivers anything else. -/
  pending : w.sim.time.pending.filter (delivers ·) = underway.map Flight.event
  /-- It takes from one millisecond to ten. -/
  latency : ∀ f, f ∈ arrived ∨ f ∈ underway →
    f.datagram.sentAt + 1_000_000 ≤ f.dueAt ∧ f.dueAt < f.datagram.sentAt + 10_000_000
  ordered : arrived.Pairwise (·.dueAt ≤ ·.dueAt)
  /-- It arrives when it is due. -/
  past : ∀ f ∈ arrived, f.dueAt ≤ w.sim.time.now
  future : ∀ f ∈ underway, w.sim.time.now < f.dueAt

/-- What was sent nine milliseconds earlier arrives earlier. -/
theorem Ledger.inOrder {w : Net R Q} {arrived : List Flight} {underway : Multiset Flight}
    {lost : Multiset Datagram} (h : Ledger w arrived underway lost) {i j : Nat} {f g : Flight}
    (hi : arrived[i]? = some f) (hj : arrived[j]? = some g)
    (hEarlier : f.datagram.sentAt + 9_000_000 ≤ g.datagram.sentAt) : i < j := by
  have hf := (h.latency f (Or.inl (List.mem_of_getElem? hi))).2
  have hg := (h.latency g (Or.inl (List.mem_of_getElem? hj))).1
  by_contra hNot
  rcases Nat.lt_or_eq_of_le (Nat.not_lt.mp hNot) with hAfter | rfl
  · -- the later one would have been due before
    obtain ⟨hi', rfl⟩ := List.getElem?_eq_some_iff.mp hi
    obtain ⟨hj', rfl⟩ := List.getElem?_eq_some_iff.mp hj
    have hDue := List.pairwise_iff_getElem.mp h.ordered j i hj' hi' hAfter
    omega
  · obtain rfl := Option.some.inj (hi.symm.trans hj)
    omega

/-- A list of what an image lists. -/
theorem exists_list_of_map_eq {α β : Type*} [DecidableEq α] (f : α → β) {s : Multiset α}
    {l : List β} (h : s.map f = l) : ∃ l' : List α, s = l' ∧ l'.map f = l := by
  classical
  induction l generalizing s with
  | nil => exact ⟨[], Multiset.map_eq_zero.mp h, rfl⟩
  | cons b l ih =>
    rw [← Multiset.cons_coe] at h
    obtain ⟨a, ha, rfl, hRest⟩ := (Multiset.map_eq_cons f s l b).mpr h
    obtain ⟨l', hl', hMap⟩ := ih hRest
    refine ⟨a :: l', ?_, by rw [List.map_cons, hMap]⟩
    rw [← Multiset.cons_coe, ← hl', Multiset.cons_erase ha]

/-! ## One call -/

section Steps

variable {w w' : Net R Q} {arrived : List Flight} {underway : Multiset Flight}
  {lost : Multiset Datagram}

/-- A call that neither sends nor moves the clock. -/
structure Quiet (w w' : Net R Q) : Prop where
  sent : w'.sent = w.sent
  delivered : w'.sim.delivered = w.sim.delivered
  pending : w'.sim.time.pending.filter (delivers ·) = w.sim.time.pending.filter (delivers ·)
  now : w'.sim.time.now = w.sim.time.now
  ahead : w.sim.time.Ahead → w'.sim.time.Ahead
  latency : w'.sim.network.config.sendLatency = w.sim.network.config.sendLatency

/-- It leaves every datagram where it is. -/
theorem Ledger.quiet (h : Ledger w arrived underway lost) (hQuiet : Quiet w w') :
    Ledger w' arrived underway lost where
  sent := hQuiet.sent ▸ h.sent
  delivered := hQuiet.delivered ▸ h.delivered
  pending := hQuiet.pending.trans h.pending
  latency := h.latency
  ordered := h.ordered
  past := hQuiet.now ▸ h.past
  future := hQuiet.now ▸ h.future

/-- A timer that wakes a task delivers nothing. -/
theorem filter_pending_addTimer (t : TimeRuntime Q) (deadline waker : Nat) :
    (t.addTimer deadline (.wake waker)).pending.filter (delivers ·) =
      t.pending.filter (delivers ·) := by
  rw [TimeRuntime.pending_addTimer, Multiset.filter_cons_of_neg]
  exact Bool.false_ne_true

/-- The call puts no timer in the past. -/
def PutsAhead (w : Net R Q) (call : NetCall R) : Prop :=
  ∀ deadline waker, call = .addTimer deadline waker → w.sim.time.now ≤ deadline

/-- Every call is quiet, or sends, or moves the clock. -/
theorem quiet_of_step {call : NetCall R} (hPuts : w.PutsAhead call)
    (hStep : w.step call = some w') :
    Quiet w w' ∨ (∃ src dst tag data, call = .sendTo src dst tag data) ∨ call = .advance := by
  cases call with
  | localHandle addr | connect addr | disconnect addr | setPacketLossRate rate =>
    obtain rfl := Option.some.inj hStep
    exact Or.inl ⟨rfl, rfl, rfl, rfl, id, rfl⟩
  | sendTo src dst tag data => exact Or.inr (Or.inl ⟨src, dst, tag, data, rfl⟩)
  | recv addr | recvFrom addr buffer =>
    obtain ⟨message, -, rfl⟩ := Option.map_eq_some_iff.mp hStep
    exact Or.inl ⟨rfl, rfl, rfl, rfl, id, rfl⟩
  | tryRecv addr =>
    simp only [step] at hStep
    split at hStep <;> obtain rfl := Option.some.inj hStep
    · exact Or.inl ⟨rfl, rfl, rfl, rfl, id, rfl⟩
    · exact Or.inl ⟨rfl, rfl, rfl, rfl, id, rfl⟩
  | pollSleepUntil deadline waker =>
    obtain rfl := Option.some.inj hStep
    have hAhead : w.sim.time.Ahead →
        (w.sim.time.pollSleepUntil deadline (.wake waker)).1.Ahead := fun h =>
      h.pollSleepUntil deadline _
    refine Or.inl ⟨rfl, rfl, ?_, ?_, hAhead, rfl⟩
    · dsimp only
      rcases w.sim.time.pollSleepUntil_cases deadline (.wake waker) with ⟨-, hPoll⟩ | ⟨-, hPoll⟩
      · rw [hPoll]
      · rw [hPoll, filter_pending_addTimer]
    · dsimp only
      rcases w.sim.time.pollSleepUntil_cases deadline (.wake waker) with ⟨-, hPoll⟩ | ⟨-, hPoll⟩
      · rw [hPoll]
      · rw [hPoll]
        rfl
  | addTimer deadline waker =>
    obtain rfl := Option.some.inj hStep
    exact Or.inl ⟨rfl, rfl, filter_pending_addTimer _ _ _, rfl,
      fun hAhead => hAhead.addTimer (hPuts deadline waker rfl) _, rfl⟩
  | advance => exact Or.inr (Or.inr rfl)

/-- The reasons for which a datagram is lost. -/
def Drops (w : Net R Q) (src dst : SocketAddr) : Prop :=
  dst ∉ w.sim.network.endpoints ∨ src ∈ w.sim.network.clogged ∨ dst ∈ w.sim.network.clogged ∨
    (R.shouldFault w.sim.rng w.sim.network.config.packetLossRate).1 = true

/-- What a send does: the datagram is lost, or a timer will deliver it. -/
theorem send_cases {src dst : SocketAddr} {tag : UInt64} {data : List UInt8}
    (hStep : w.step (.sendTo src dst tag data) = some w') :
    w'.sent = w.sent ++ [⟨src, dst, tag, data, w.sim.time.now⟩] ∧ w'.taken = w.taken ∧
    w'.received = w.received ∧ w'.sim.network = w.sim.network ∧
    w'.sim.delivered = w.sim.delivered ∧
    ((w'.sim.time = w.sim.time ∧ w.Drops src dst) ∨
      ∃ rng, w'.sim.time = w.sim.time.addTimer (w.sim.time.now +
        (R.genRange rng w.sim.network.config.sendLatency.1
          w.sim.network.config.sendLatency.2).1) (.deliver dst ⟨tag, data, src⟩)) := by
  simp only [step, Simulation.send] at hStep
  by_cases hSrc : src ∉ w.sim.network.endpoints
  · rw [if_pos hSrc] at hStep
    cases hStep
  · rw [if_neg hSrc] at hStep
    by_cases hDrop : dst ∉ w.sim.network.endpoints ∨ src ∈ w.sim.network.clogged ∨
        dst ∈ w.sim.network.clogged
    · rw [if_pos hDrop] at hStep
      cases hStep
      refine ⟨rfl, rfl, rfl, rfl, rfl, Or.inl ⟨rfl, ?_⟩⟩
      rcases hDrop with hDrop | hDrop | hDrop
      · exact Or.inl hDrop
      · exact Or.inr (Or.inl hDrop)
      · exact Or.inr (Or.inr (Or.inl hDrop))
    · rw [if_neg hDrop] at hStep
      by_cases hFault :
          (R.shouldFault w.sim.rng w.sim.network.config.packetLossRate).1 = true
      · rw [if_pos hFault] at hStep
        cases hStep
        exact ⟨rfl, rfl, rfl, rfl, rfl, Or.inl ⟨rfl, Or.inr (Or.inr (Or.inr hFault))⟩⟩
      · rw [if_neg hFault] at hStep
        cases hStep
        exact ⟨rfl, rfl, rfl, rfl, rfl, Or.inr ⟨_, rfl⟩⟩

/-- A datagram that is sent is lost, or on its way. -/
theorem Ledger.send (hR : R.Ranged) (h : Ledger w arrived underway lost)
    (hLatency : w.sim.network.config.sendLatency = (1_000_000, 10_000_000)) {src dst : SocketAddr}
    {tag : UInt64} {data : List UInt8} (hStep : w.step (.sendTo src dst tag data) = some w') :
    (w.Drops src dst ∧
      Ledger w' arrived underway (⟨src, dst, tag, data, w.sim.time.now⟩ ::ₘ lost)) ∨
    ∃ f, Ledger w' arrived (f ::ₘ underway) lost := by
  obtain ⟨hSent, -, -, -, hDelivered, ⟨hTime, hDrops⟩ | ⟨rng, hTime⟩⟩ := send_cases hStep
  · refine Or.inl ⟨hDrops, ?_, hDelivered ▸ h.delivered, hTime ▸ h.pending, h.latency, h.ordered,
      hTime ▸ h.past, hTime ▸ h.future⟩
    rw [hSent, ← Multiset.coe_add, h.sent, Multiset.coe_singleton, Multiset.add_cons,
      Multiset.add_comm, Multiset.singleton_add]
  · rw [hLatency] at hTime
    obtain ⟨hLo, hHi⟩ := hR.genRange rng 1_000_000 10_000_000 (by decide)
    -- the datagram is on its way, and the timer is its own
    refine Or.inr ⟨⟨⟨src, dst, tag, data, w.sim.time.now⟩,
      w.sim.time.now + (R.genRange rng 1_000_000 10_000_000).1⟩, ?_, hDelivered ▸ h.delivered, ?_,
      ?_, h.ordered, ?_, ?_⟩
    · rw [hSent, ← Multiset.coe_add, h.sent, Multiset.coe_singleton, Multiset.map_cons,
        Multiset.add_cons, Multiset.cons_add, Multiset.add_comm, Multiset.singleton_add]
    · rw [hTime, TimeRuntime.pending_addTimer,
        Multiset.filter_cons_of_pos (p := (delivers ·)) _ rfl, h.pending, Multiset.map_cons]
      rfl
    · rintro f (hArrived | hUnderway)
      · exact h.latency f (Or.inl hArrived)
      · rcases Multiset.mem_cons.mp hUnderway with rfl | hUnderway
        · exact ⟨Nat.add_le_add_left hLo _, Nat.add_lt_add_left hHi _⟩
        · exact h.latency f (Or.inr hUnderway)
    · rw [hTime]
      exact h.past
    · rw [hTime]
      intro f hUnderway
      rcases Multiset.mem_cons.mp hUnderway with rfl | hUnderway
      · exact Nat.lt_add_of_pos_right (Nat.lt_of_lt_of_le (by decide) hLo)
      · exact h.future f hUnderway

/-- What fires delivers the messages it carries. -/
theorem filterMap_messageTo {fired : List (Event Callback)} {more : List Flight}
    (h : more.map Flight.event = fired.filter delivers) (addr : SocketAddr) :
    fired.filterMap (Simulation.messageTo addr) =
      (more.filter (·.datagram.dst = addr)).map Flight.message := by
  -- a timer that delivers nothing puts nothing in a channel
  have hOnly : fired.filterMap (Simulation.messageTo addr) =
      (fired.filter delivers).filterMap (Simulation.messageTo addr) := by
    rw [List.filterMap_filter]
    refine List.filterMap_congr fun e _ => ?_
    unfold delivers Simulation.messageTo
    cases e.callback <;> rfl
  rw [hOnly, ← h, List.filterMap_map, ← List.filterMap_eq_map, List.filterMap_filter]
  refine List.filterMap_congr fun f _ => ?_
  by_cases hDst : f.datagram.dst = addr
  · simp [Flight.event, Simulation.messageTo, hDst]
  · simp [Flight.event, Simulation.messageTo, hDst]

/-- What is on its way is due now, and its timers fire, or later, and they are pending. -/
theorem Ledger.splits (h : Ledger w arrived underway lost) {time : Nat}
    {fired : List (Event Callback)} {pending : Multiset (Event Callback)}
    (hPending : w.sim.time.pending = (fired : Multiset (Event Callback)) + pending)
    (hDue : ∀ e ∈ fired, e.deadline = time) (hRest : ∀ e ∈ pending, time < e.deadline) :
    ∃ more : List Flight, more.map Flight.event = fired.filter delivers ∧
      (more : Multiset Flight) + underway.filter (¬ ·.dueAt = time) = underway ∧
      (∀ f ∈ more, f ∈ underway ∧ f.dueAt = time) ∧
      (underway.filter (¬ ·.dueAt = time)).map Flight.event = pending.filter (delivers ·) := by
  have hFiredDue : ∀ e ∈ ((fired.filter delivers : List (Event Callback)) :
      Multiset (Event Callback)), e.deadline = time := fun e he =>
    hDue e (List.mem_of_mem_filter (Multiset.mem_coe.mp he))
  have hRestLater : ∀ e ∈ pending.filter (delivers ·), ¬ e.deadline = time := fun e he =>
    Nat.ne_of_gt (hRest e (Multiset.mem_of_mem_filter he))
  have hAll : underway.map Flight.event =
      ((fired.filter delivers : List (Event Callback)) : Multiset (Event Callback)) +
        pending.filter (delivers ·) := by
    rw [← h.pending, hPending, Multiset.filter_add, Multiset.filter_coe]
    simp only [Bool.decide_eq_true]
  -- the timers with the deadline are those that fire
  have hNow : (underway.map Flight.event).filter (·.deadline = time) =
      ((fired.filter delivers : List (Event Callback)) : Multiset (Event Callback)) := by
    rw [hAll, Multiset.filter_add, Multiset.filter_eq_self.mpr hFiredDue,
      Multiset.filter_eq_nil.mpr hRestLater, Multiset.add_zero]
  have hLater : (underway.map Flight.event).filter (¬ ·.deadline = time) =
      pending.filter (delivers ·) := by
    rw [hAll, Multiset.filter_add, Multiset.filter_eq_nil.mpr fun e he => not_not.mpr (hFiredDue e he),
      Multiset.filter_eq_self.mpr hRestLater, Multiset.zero_add]
  rw [Multiset.filter_map] at hNow hLater
  obtain ⟨more, hMore, hFires⟩ := exists_list_of_map_eq Flight.event hNow
  have hMore : underway.filter (·.dueAt = time) = (more : Multiset Flight) := hMore
  refine ⟨more, hFires, ?_, fun f hf => ?_, hLater⟩
  · rw [← hMore, Multiset.filter_add_not]
  · have hMem : f ∈ underway.filter (·.dueAt = time) := hMore ▸ Multiset.mem_coe.mpr hf
    exact Multiset.mem_filter.mp hMem

/-- What is due arrives, and the rest is still on its way. -/
theorem Ledger.advance (h : Ledger w arrived underway lost) (hAhead : w.sim.time.Ahead)
    (hStep : w.step .advance = some w') :
    ∃ more underway', Ledger w' (arrived ++ more) underway' lost := by
  obtain rfl := Option.some.inj hStep
  rcases w.sim.time.advance_cases with ⟨hNone, hAdvance⟩ |
    ⟨time, fired, t', hAdvance, hFired, hPending, hDue, hRest, hClock⟩
  · refine ⟨[], underway, ?_⟩
    rw [List.append_nil]
    refine h.quiet ⟨rfl, ?_, ?_, ?_, fun h => h.advance.1, rfl⟩
    · show w.sim.time.advance.2.1.foldl Simulation.fire w.sim.delivered = w.sim.delivered
      rw [hAdvance]
      rfl
    · show w.sim.time.advance.1.pending.filter (delivers ·) = _
      rw [hAdvance]
    · show w.sim.time.advance.1.now = _
      rw [hAdvance]
  · obtain ⟨-, hNow, hClockDue⟩ := hAhead.advance
    rw [hAdvance] at hNow hClockDue
    dsimp only at hNow hClockDue
    obtain ⟨first, hFirst⟩ := List.exists_mem_of_ne_nil fired hFired
    have hShows : t'.now = time := (hClockDue first hFirst).2.trans (hDue first hFirst)
    obtain ⟨more, hFires, hUnderway, hMoreDue, hLater⟩ := h.splits hPending hDue hRest
    refine ⟨more, underway.filter (¬ ·.dueAt = time), ?_, fun addr => ?_, ?_, ?_, ?_, ?_, ?_⟩
    · show (w.sent : Multiset Datagram) = _
      have hMap : underway.map Flight.datagram = (more.map Flight.datagram : Multiset Datagram) +
          (underway.filter (¬ ·.dueAt = time)).map Flight.datagram := by
        rw [← Multiset.map_coe, ← Multiset.map_add, hUnderway]
      rw [h.sent, List.map_append, ← Multiset.coe_add, hMap]
      simp only [Multiset.add_assoc]
    · show w.sim.time.advance.2.1.foldl Simulation.fire w.sim.delivered addr = _
      rw [hAdvance, Simulation.foldl_fire, h.delivered addr, filterMap_messageTo hFires,
        List.filter_append, List.map_append]
    · show w.sim.time.advance.1.pending.filter (delivers ·) = _
      rw [hAdvance]
      exact hLater.symm
    · rintro f (hArrived | hUnderway')
      · rcases List.mem_append.mp hArrived with hArrived | hArrives
        · exact h.latency f (Or.inl hArrived)
        · exact h.latency f (Or.inr (hMoreDue f hArrives).1)
      · exact h.latency f (Or.inr (Multiset.mem_of_mem_filter hUnderway'))
    · -- what had arrived was due by then, and what arrives is due now
      refine List.pairwise_append.mpr ⟨h.ordered, ?_, fun f hf g hg => ?_⟩
      · exact List.pairwise_of_forall_mem_list fun f hf g hg =>
          Nat.le_of_eq ((hMoreDue f hf).2.trans (hMoreDue g hg).2.symm)
      · rw [(hMoreDue g hg).2, ← hShows]
        exact (h.past f hf).trans hNow
    · show ∀ f ∈ arrived ++ more, f.dueAt ≤ w.sim.time.advance.1.now
      rw [hAdvance]
      intro f hf
      rcases List.mem_append.mp hf with hArrived | hArrives
      · exact (h.past f hArrived).trans hNow
      · exact Nat.le_of_eq ((hMoreDue f hArrives).2.trans hShows.symm)
    · show ∀ f ∈ underway.filter (¬ ·.dueAt = time), w.sim.time.advance.1.now < f.dueAt
      rw [hAdvance]
      intro f hf
      obtain ⟨hUnderway', hNotDue⟩ := Multiset.mem_filter.mp hf
      -- a timer of its own is still pending
      have hEvent : f.event ∈ t'.pending.filter (delivers ·) := by
        rw [← hLater]
        exact Multiset.mem_map_of_mem _ hf
      rw [hShows]
      exact hRest _ (Multiset.mem_of_mem_filter hEvent)

/-- One call: what has arrived stays so, and nothing is lost but what is sent and dropped. -/
theorem Ledger.step (hR : R.Ranged) (h : Ledger w arrived underway lost)
    (hAhead : w.sim.time.Ahead)
    (hLatency : w.sim.network.config.sendLatency = (1_000_000, 10_000_000)) {call : NetCall R}
    (hPuts : w.PutsAhead call) (hStep : w.step call = some w') :
    ∃ more underway' lost', Ledger w' (arrived ++ more) underway' lost' ∧
      (lost' = lost ∨ ∃ src dst tag data, call = .sendTo src dst tag data ∧ w.Drops src dst) := by
  rcases quiet_of_step hPuts hStep with hQuiet | ⟨src, dst, tag, data, rfl⟩ | rfl
  · exact ⟨[], underway, lost, by rw [List.append_nil]; exact h.quiet hQuiet, Or.inl rfl⟩
  · rcases h.send hR hLatency hStep with ⟨hDrops, hLedger⟩ | ⟨f, hLedger⟩
    · exact ⟨[], underway, ⟨src, dst, tag, data, w.sim.time.now⟩ ::ₘ lost,
        by rw [List.append_nil]; exact hLedger, Or.inr ⟨src, dst, tag, data, rfl, hDrops⟩⟩
    · exact ⟨[], f ::ₘ underway, lost, by rw [List.append_nil]; exact hLedger, Or.inl rfl⟩
  · obtain ⟨more, underway', hLedger⟩ := h.advance hAhead hStep
    exact ⟨more, underway', lost, hLedger, Or.inl rfl⟩

/-- No timer gets into the past, and no call changes the latencies. -/
theorem ahead_step (hAhead : w.sim.time.Ahead)
    (hLatency : w.sim.network.config.sendLatency = (1_000_000, 10_000_000)) {call : NetCall R}
    (hPuts : w.PutsAhead call) (hStep : w.step call = some w') : w'.sim.time.Ahead ∧
      w'.sim.network.config.sendLatency = (1_000_000, 10_000_000) := by
  rcases quiet_of_step hPuts hStep with hQuiet | ⟨src, dst, tag, data, rfl⟩ | rfl
  · exact ⟨hQuiet.ahead hAhead, hQuiet.latency.trans hLatency⟩
  · obtain ⟨-, -, -, hNetwork, -, ⟨hTime, -⟩ | ⟨rng, hTime⟩⟩ := send_cases hStep
    · exact ⟨hTime ▸ hAhead, hNetwork ▸ hLatency⟩
    · exact ⟨hTime ▸ hAhead.addTimer (Nat.le_add_right _ _) _, hNetwork ▸ hLatency⟩
  · obtain rfl := Option.some.inj hStep
    exact ⟨hAhead.advance.1, hLatency⟩

/-! ## What is received -/

/-- The call has returned the message, or as much of it as its buffer has room for; the
rest of the buffer is as it was. -/
def Carries (message : Message) : Received → Prop
  | .recv data tag src => data = message.data ∧ tag = message.tag ∧ src = message.from_
  | .recvFrom before len tag src after =>
    len = min before.length message.data.length ∧ after.length = before.length ∧
      after.take len = message.data.take len ∧ after.drop len = before.drop len ∧
      tag = message.tag ∧ src = message.from_

theorem carries_recvInto (buffer : List UInt8) (message : Message) :
    Carries message (recvInto buffer message) := by
  have hLen : (message.data.take (min buffer.length message.data.length)).length =
      min buffer.length message.data.length := by
    rw [List.length_take]
    omega
  refine ⟨rfl, ?_, ?_, ?_, rfl, rfl⟩
  · rw [List.length_append, hLen, List.length_drop]
    omega
  · rw [List.take_append_of_le_length (Nat.le_of_eq hLen.symm), List.take_of_length_le]
    exact Nat.le_of_eq hLen
  · exact List.drop_left' hLen

/-- What has been received at the address. -/
def receivedAt (w : Net R Q) (addr : SocketAddr) : List Received :=
  (w.received.filter (·.1 = addr)).map Prod.snd

/-- What was taken from the channel is what was received, in the channel's order. -/
structure Receives (w : Net R Q) (addr : SocketAddr) : Prop where
  taken : w.taken addr ≤ (w.sim.delivered addr).length
  carries : List.Forall₂ (fun received message => Carries message received) (w.receivedAt addr)
    ((w.sim.delivered addr).take (w.taken addr))

/-- More may be put into a channel. -/
theorem Receives.mono {addr : SocketAddr} (h : Receives w addr) (hTaken : w'.taken = w.taken)
    (hReceived : w'.received = w.received) {more : List Message}
    (hMore : w'.sim.delivered addr = w.sim.delivered addr ++ more) : Receives w' addr := by
  refine ⟨?_, ?_⟩
  · rw [hTaken, hMore, List.length_append]
    exact Nat.le_add_right_of_le h.taken
  · rw [receivedAt, hTaken, hReceived, hMore, List.take_append_of_le_length h.taken]
    exact h.carries

/-- The message in front is taken. -/
theorem Receives.take {addr : SocketAddr} (h : Receives w addr) {addr' : SocketAddr}
    {message : Message} {received : Received} (hFront : w.front addr' = some message)
    (hCarries : Carries message received) : Receives (w.take addr' received) addr := by
  by_cases hAddr : addr' = addr
  · subst hAddr
    have hTaken : (w.take addr' received).taken addr' = w.taken addr' + 1 := Function.update_self ..
    have hLt : w.taken addr' < (w.sim.delivered addr').length :=
      (List.getElem?_eq_some_iff.mp hFront).1
    refine ⟨?_, ?_⟩
    · rw [hTaken]
      exact hLt
    · have hHere : (w.take addr' received).receivedAt addr' =
          w.receivedAt addr' ++ [received] := by
        simp [receivedAt, Net.take]
      have hDelivered : (w.take addr' received).sim.delivered = w.sim.delivered := rfl
      have hFront : (w.sim.delivered addr')[w.taken addr']? = some message := hFront
      rw [hHere, hTaken, hDelivered, List.take_add_one, hFront, Option.toList_some]
      exact List.rel_append h.carries (List.Forall₂.cons hCarries List.Forall₂.nil)
  · have hTaken : (w.take addr' received).taken addr = w.taken addr :=
      Function.update_of_ne (Ne.symm hAddr) ..
    have hElse : (w.take addr' received).receivedAt addr = w.receivedAt addr := by
      simp [receivedAt, Net.take, hAddr]
    exact ⟨hTaken ▸ h.taken, by rw [hElse, hTaken]; exact h.carries⟩

theorem Receives.step {addr : SocketAddr} (h : Receives w addr) {call : NetCall R}
    (hStep : w.step call = some w') : Receives w' addr := by
  -- what neither receives nor delivers leaves the channels alone
  have hSame (hTaken : w'.taken = w.taken) (hReceived : w'.received = w.received)
      (hDelivered : w'.sim.delivered = w.sim.delivered) : Receives w' addr :=
    h.mono hTaken hReceived (by rw [hDelivered, List.append_nil])
  cases call with
  | localHandle _ | connect _ | disconnect _ | setPacketLossRate _ | pollSleepUntil _ _
  | addTimer _ _ =>
    obtain rfl := Option.some.inj hStep
    exact hSame rfl rfl rfl
  | sendTo src dst tag data =>
    obtain ⟨-, hTaken, hReceived, -, hDelivered, -⟩ := send_cases hStep
    exact hSame hTaken hReceived hDelivered
  | recv addr' =>
    obtain ⟨message, hFront, rfl⟩ := Option.map_eq_some_iff.mp hStep
    exact h.take hFront ⟨rfl, rfl, rfl⟩
  | tryRecv addr' =>
    simp only [Net.step] at hStep
    split at hStep
    · rename_i message hFront
      obtain rfl := Option.some.inj hStep
      exact h.take hFront ⟨rfl, rfl, rfl⟩
    · obtain rfl := Option.some.inj hStep
      exact h
  | recvFrom addr' buffer =>
    obtain ⟨message, hFront, rfl⟩ := Option.map_eq_some_iff.mp hStep
    exact h.take hFront (carries_recvInto buffer message)
  | advance =>
    obtain rfl := Option.some.inj hStep
    exact h.mono rfl rfl (Simulation.foldl_fire w.sim.delivered w.sim.time.advance.2.1 addr)

/-! ## Networks without faults -/

/-- The call says who can be reached, or how much is lost. -/
def faults : NetCall R → Bool
  | .connect _ | .disconnect _ | .setPacketLossRate _ => true
  | _ => false

/-- Nothing is said of who can be reached or how much is lost, and every datagram is
sent to an address that there is a handle for. -/
structure Faultless (calls : List (NetCall R)) : Prop where
  quiet : ∀ call ∈ calls, faults call = false
  known : ∀ (n : Nat) src dst tag data, calls[n]? = some (.sendTo src dst tag data) →
    .localHandle dst ∈ calls.take n

theorem Faultless.of_snoc {calls : List (NetCall R)} {call : NetCall R}
    (h : Faultless (calls ++ [call])) : Faultless calls where
  quiet := fun call hMem => h.quiet call (List.mem_append_left _ hMem)
  known := fun n src dst tag data hCall => by
    have hLt := (List.getElem?_eq_some_iff.mp hCall).1
    have hKnown := h.known n src dst tag data (by rw [List.getElem?_append_left hLt, hCall])
    rwa [List.take_append_of_le_length (Nat.le_of_lt hLt)] at hKnown

/-- Nothing is in a datagram's way. -/
structure Clear (w : Net R Q) (calls : List (NetCall R)) : Prop where
  clogged : w.sim.network.clogged = ∅
  loss : w.sim.network.config.packetLossRate = R.zero
  known : ∀ addr, .localHandle addr ∈ calls → addr ∈ w.sim.network.endpoints

theorem Clear.step {calls : List (NetCall R)} (h : Clear w calls) {call : NetCall R}
    (hFault : faults call = false) (hStep : w.step call = some w') :
    Clear w' (calls ++ [call]) := by
  have hKnown (hCall : ∀ addr, call ≠ .localHandle addr) (hSame : w'.sim.network = w.sim.network) :
      Clear w' (calls ++ [call]) := by
    refine ⟨hSame ▸ h.clogged, hSame ▸ h.loss, fun addr hMem => ?_⟩
    rcases List.mem_append.mp hMem with hMem | hMem
    · rw [hSame]
      exact h.known addr hMem
    · exact absurd (List.mem_singleton.mp hMem).symm (hCall addr)
  cases call with
  | connect _ | disconnect _ | setPacketLossRate _ => cases hFault
  | localHandle addr' =>
    obtain rfl := Option.some.inj hStep
    refine ⟨h.clogged, h.loss, fun addr hMem => Finset.mem_insert.mpr ?_⟩
    rcases List.mem_append.mp hMem with hMem | hMem
    · exact Or.inr (h.known addr hMem)
    · exact Or.inl (NetCall.localHandle.inj (List.mem_singleton.mp hMem))
  | sendTo src dst tag data =>
    obtain ⟨-, -, -, hNetwork, -⟩ := send_cases hStep
    exact hKnown nofun hNetwork
  | recv _ | recvFrom _ _ =>
    obtain ⟨message, -, rfl⟩ := Option.map_eq_some_iff.mp hStep
    exact hKnown nofun rfl
  | tryRecv _ =>
    simp only [Net.step] at hStep
    split at hStep <;> obtain rfl := Option.some.inj hStep
    · exact hKnown nofun rfl
    · exact hKnown nofun rfl
  | pollSleepUntil _ _ | addTimer _ _ | advance =>
    obtain rfl := Option.some.inj hStep
    exact hKnown nofun rfl

/-- Where nothing is in its way, no datagram is dropped. -/
theorem Clear.not_drops (hR : R.Lawful) {calls : List (NetCall R)} (h : Clear w calls)
    {src dst : SocketAddr} (hDst : .localHandle dst ∈ calls) : ¬ w.Drops src dst := by
  rintro (hUnknown | hClogged | hClogged | hFault)
  · exact hUnknown (h.known dst hDst)
  · rw [h.clogged] at hClogged
    exact Finset.notMem_empty _ hClogged
  · rw [h.clogged] at hClogged
    exact Finset.notMem_empty _ hClogged
  · rw [h.loss, hR.zero] at hFault
    exact Bool.false_ne_true hFault

end Steps

/-! ## Runs -/

section Runs

variable {calls : List (NetCall R)} {w : Net R Q} {rng : R.Rng} {base : Nat}

/-- No call of the run puts a timer in the past. -/
def AddsAhead (w₀ : Net R Q) (calls : List (NetCall R)) : Prop :=
  ∀ front call back w, calls = front ++ call :: back → exec step w₀ front = some w →
    w.PutsAhead call

theorem AddsAhead.of_snoc {w₀ : Net R Q} {call : NetCall R} (h : AddsAhead w₀ (calls ++ [call])) :
    AddsAhead w₀ calls := fun front call' back w hSplit hFront =>
  h front call' (back ++ [call]) w (by rw [hSplit]; simp) hFront

/-- There is a ledger after every run, and where there are no faults nothing is lost. -/
theorem ledger_of_exec (hR : R.Ranged) (h : exec step (new Q rng base) calls = some w)
    (hAdds : AddsAhead (new Q rng base) calls) :
    (∃ arrived underway lost, Ledger w arrived underway lost ∧
      (R.Lawful → Faultless calls → lost = 0 ∧ Clear w calls)) ∧
    w.sim.time.Ahead ∧ w.sim.network.config.sendLatency = (1_000_000, 10_000_000) := by
  refine exec_trace (P := fun calls w => AddsAhead (new Q rng base) calls →
      (∃ arrived underway lost, Ledger w arrived underway lost ∧
        (R.Lawful → Faultless calls → lost = 0 ∧ Clear w calls)) ∧
      w.sim.time.Ahead ∧ w.sim.network.config.sendLatency = (1_000_000, 10_000_000)) ?_ ?_ h hAdds
  · intro _
    refine ⟨⟨[], 0, 0, ⟨rfl, fun _ => rfl, ?_, ?_, List.Pairwise.nil, ?_, ?_⟩,
      fun _ _ => ⟨rfl, ?_⟩⟩, ?_, rfl⟩
    · show (TimeRuntime.new Q base).pending.filter (delivers ·) = _
      rw [TimeRuntime.pending_new]
      rfl
    · rintro f (hNone | hNone)
      · exact absurd hNone List.not_mem_nil
      · exact absurd hNone (Multiset.notMem_zero f)
    · exact fun f hNone => absurd hNone List.not_mem_nil
    · exact fun f hNone => absurd hNone (Multiset.notMem_zero f)
    · exact ⟨rfl, rfl, fun addr hNone => absurd hNone List.not_mem_nil⟩
    · intro e he
      have hNone : (TimeRuntime.new Q base).pending = 0 := TimeRuntime.pending_new base
      exact absurd (hNone ▸ he) (Multiset.notMem_zero e)
  · intro calls w₁ call w₂ hExec hBefore hStep hAdds
    obtain ⟨⟨arrived, underway, lost, hLedger, hLost⟩, hAhead, hLatency⟩ := hBefore hAdds.of_snoc
    have hPuts := hAdds calls call [] w₁ rfl hExec
    obtain ⟨more, underway', lost', hLedger', hDropped⟩ :=
      hLedger.step hR hAhead hLatency hPuts hStep
    refine ⟨⟨arrived ++ more, underway', lost', hLedger', fun hLawful hFaultless => ?_⟩,
      ahead_step hAhead hLatency hPuts hStep⟩
    obtain ⟨hNone, hClear⟩ := hLost hLawful hFaultless.of_snoc
    refine ⟨?_, hClear.step (hFaultless.quiet call (List.mem_append_right _
      (List.mem_singleton_self call))) hStep⟩
    rcases hDropped with hSame | ⟨src, dst, tag, data, rfl, hDrops⟩
    · exact hSame.trans hNone
    · -- there is a handle for the destination
      have hKnown := hFaultless.known calls.length src dst tag data (by simp)
      rw [List.take_left] at hKnown
      exact absurd hDrops (hClear.not_drops hLawful hKnown)

theorem receives_of_exec (h : exec step (new Q rng base) calls = some w) (addr : SocketAddr) :
    Receives w addr := by
  have hKept : Preserves step fun w : Net R Q => Receives w addr := by
    intro _ _ _ hStep hw
    exact hw.step hStep
  exact hKept.exec h ⟨Nat.le_refl _, List.Forall₂.nil⟩

/-- **Every datagram is accounted for.** In every run of the network in which no timer is
put in the past, every datagram that was given to it has arrived, or is on its way, or
was lost, and it is in the channel of its destination, unaltered, once, and from the
instant on that is one to ten milliseconds after it was sent. Nothing else is in a
channel; what is received at an address is what is in its channel, in its order; and
what was sent nine milliseconds before another arrives before it. Where no call says
who can be reached or how much is lost, and there are handles for the destinations,
nothing is lost. -/
theorem datagrams_accounted_for (hR : R.Ranged) (rng : R.Rng) (base : Nat)
    (calls : List (NetCall R)) {w : Net R Q} (h : exec step (new Q rng base) calls = some w)
    (hAdds : AddsAhead (new Q rng base) calls) :
    ∃ (arrived : List Flight) (underway : Multiset Flight) (lost : Multiset Datagram),
      Ledger w arrived underway lost ∧
      (∀ (i j : Nat) (f g : Flight), arrived[i]? = some f → arrived[j]? = some g →
        f.datagram.sentAt + 9_000_000 ≤ g.datagram.sentAt → i < j) ∧
      (∀ addr, Receives w addr) ∧ (R.Lawful → Faultless calls → lost = 0) := by
  obtain ⟨⟨arrived, underway, lost, hLedger, hLost⟩, -, -⟩ := ledger_of_exec hR h hAdds
  exact ⟨arrived, underway, lost, hLedger, fun i j f g hi hj hEarlier =>
    hLedger.inOrder hi hj hEarlier, receives_of_exec h, fun hLawful hFaultless =>
      (hLost hLawful hFaultless).1⟩

end Runs

/-! ## Two endpoints -/

theorem steady_ranged : Simulation.steady.Ranged :=
  ⟨fun _ start _ hLt => ⟨Nat.le_refl start, hLt⟩⟩

/-- One sends the other three bytes, which has room for two, and a timer is for later. -/
def threeBytes : List (NetCall Simulation.steady) :=
  [.addTimer 20_000_000 0, .localHandle (Simulation.endpoint 1),
    .localHandle (Simulation.endpoint 2),
    .sendTo (Simulation.endpoint 1) (Simulation.endpoint 2) 7 [1, 2, 3], .advance,
    .recvFrom (Simulation.endpoint 2) [0, 0]]

theorem threeBytes_faultless : Faultless threeBytes := by
  refine ⟨by decide, fun n src dst tag data hCall => ?_⟩
  -- the send is the fourth call
  rcases n with _ | _ | _ | _ | _ | _ | n
  · cases hCall
  · cases hCall
  · cases hCall
  · cases hCall
    exact List.mem_cons_of_mem _ (List.mem_cons_of_mem _ List.mem_cons_self)
  · cases hCall
  · cases hCall
  · cases hCall

theorem threeBytes_ahead :
    AddsAhead (new (Queue.scanning Event.deadline) () 0) threeBytes := by
  rintro front call back w hSplit hFront deadline waker rfl
  cases front with
  | nil =>
    obtain rfl := Option.some.inj hFront
    exact Nat.zero_le _
  | cons first front =>
    -- the timer is the first call
    have hLater : threeBytes.tail = front ++ .addTimer deadline waker :: back :=
      (List.cons.inj hSplit).2
    have hMem : NetCall.addTimer deadline waker ∈ front ++ .addTimer deadline waker :: back :=
      List.mem_append_right _ List.mem_cons_self
    rw [← hLater] at hMem
    simp [threeBytes] at hMem

theorem datagrams_accounted_for_threeBytes :
    ∃ w : Net Simulation.steady (Queue.scanning Event.deadline),
      exec step (new (Queue.scanning Event.deadline) () 0) threeBytes = some w ∧
      w.received = [(Simulation.endpoint 2, .recvFrom [0, 0] 2 7 (Simulation.endpoint 1) [1, 2])] ∧
      ∃ arrived underway, Ledger w arrived underway 0 := by
  obtain ⟨w, hRun, hReceived⟩ : ∃ w : Net Simulation.steady (Queue.scanning Event.deadline),
      exec step (new (Queue.scanning Event.deadline) () 0) threeBytes = some w ∧
      w.received = [(Simulation.endpoint 2, .recvFrom [0, 0] 2 7 (Simulation.endpoint 1) [1, 2])] :=
    ⟨_, rfl, by decide⟩
  obtain ⟨arrived, underway, lost, hLedger, -, -, hLost⟩ :=
    datagrams_accounted_for steady_ranged () 0 threeBytes hRun threeBytes_ahead
  obtain rfl := hLost Simulation.steady_lawful threeBytes_faultless
  exact ⟨w, hRun, hReceived, arrived, underway, hLedger⟩

end Net

end Stratamoto.Dst
