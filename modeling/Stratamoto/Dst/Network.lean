import Mathlib.Data.Finset.Basic
import Mathlib.Data.Multiset.Filter
import Mathlib.Logic.Function.Basic
import Stratamoto.IR.Builder
import Stratamoto.Dst.Time

/-!
# Stratamoto — the simulated network

`net/network.rs` and `net/mod.rs`: a message between two endpoints is on its way
for a random latency, unless it is dropped, and an endpoint that is clogged
neither sends nor receives. A simulation is the network together with the time it
shares; its steps are the calls on both, in any order.

The source of randomness is a parameter (`Rand`), of which is relied on that a
loss rate of zero loses nothing. An endpoint is never removed, so its channel is
known by its address, and what has been put into it is kept.

* `advances_delivered` — advancing until nothing is pending delivers what is under way;
* `delivers_iff` — a message is delivered if neither end is clogged;
* `clogged_of_run` — who is clogged after a run;
* `delivery_iff` — when delivery follows the last calls.
-/

namespace Stratamoto.Dst

open PriorityQueue

/-! ## The network -/

inductive SocketAddr where
  | v4 (ip : UInt32) (port : UInt16)
  | v6 (ip : BitVec 128) (port : UInt16) (flowinfo scopeId : UInt32)
  deriving DecidableEq

structure Message where
  tag : UInt64
  data : List UInt8
  from_ : SocketAddr
  deriving DecidableEq

/-- A source of randomness. -/
structure Rand where
  Rng : Type
  /-- What `gen_bool` takes: from `0.0` to `1.0`, and panics on anything else. -/
  Probability : Type
  /-- The probability `0.0`. -/
  zero : Probability
  shouldFault : Rng → Probability → Bool × Rng
  /-- A number of the range from the first to before the second. -/
  genRange : Rng → Nat → Nat → Nat × Rng

/-- Nothing happens with a probability of zero. -/
structure Rand.Lawful (R : Rand) : Prop where
  zero : ∀ rng, (R.shouldFault rng R.zero).1 = false

/-- The range of latencies is not empty. -/
structure Config (R : Rand) where
  packetLossRate : R.Probability
  sendLatency : Nat × Nat
  nonempty : sendLatency.1 < sendLatency.2

/-- From one millisecond to ten, without loss. -/
def Config.default (R : Rand) : Config R where
  packetLossRate := R.zero
  sendLatency := (1_000_000, 10_000_000)
  nonempty := by decide

structure Network (R : Rand) where
  config : Config R
  endpoints : Finset SocketAddr
  clogged : Finset SocketAddr

namespace Network

variable {R : Rand}

def new (R : Rand) : Network R where
  config := Config.default R
  endpoints := ∅
  clogged := ∅

/-- The endpoint at the address, which is made if there is none. -/
def get (network : Network R) (target : SocketAddr) : Network R :=
  { network with endpoints := insert target network.endpoints }

def clog (network : Network R) (target : SocketAddr) : Network R :=
  { network with clogged := insert target network.clogged }

def unclog (network : Network R) (target : SocketAddr) : Network R :=
  { network with clogged := insert target network.clogged }

def setPacketLossRate (network : Network R) (rate : R.Probability) : Network R :=
  { network with config := { network.config with packetLossRate := rate } }

end Network

/-! ## Simulations -/

/-- What a timer of the simulation calls. -/
inductive Callback where
  | wake (waker : Nat)
  | deliver (dst : SocketAddr) (message : Message)
  deriving DecidableEq

structure Simulation (R : Rand) (Q : TimerQueue Callback) where
  rng : R.Rng
  time : TimeRuntime Q
  network : Network R
  /-- What has been put into the channel of an endpoint. -/
  delivered : SocketAddr → List Message

/-- A call on the network or on the time. -/
inductive Step (R : Rand) where
  | localHandle (addr : SocketAddr)
  | connect (addr : SocketAddr)
  | disconnect (addr : SocketAddr)
  | setPacketLossRate (rate : R.Probability)
  | sendTo (src dst : SocketAddr) (tag : UInt64) (data : List UInt8)
  | addTimer (deadline : Nat) (callback : Callback)
  | pollSleepUntil (deadline waker : Nat)
  | advance

namespace Simulation

variable {R : Rand} {Q : TimerQueue Callback}

def new (Q : TimerQueue Callback) (rng : R.Rng) (base : Nat) : Simulation R Q where
  rng
  time := TimeRuntime.new Q base
  network := Network.new R
  delivered _ := []

def send (w : Simulation R Q) (src dst : SocketAddr) (tag : UInt64) (data : List UInt8) :
    Except Panic (Simulation R Q) :=
  if src ∉ w.network.endpoints then
    .error (.expect "assertion failed: self.endpoints.contains_key(&src)")
  else if dst ∉ w.network.endpoints ∨ src ∈ w.network.clogged ∨ dst ∈ w.network.clogged then
    .ok w
  else
    let (fault, rng) := R.shouldFault w.rng w.network.config.packetLossRate
    -- a lost datagram has drawn once, a delivered one draws its latency as well
    if fault then .ok { w with rng }
    else
      let (start, stop) := w.network.config.sendLatency
      let (latency, rng) := R.genRange rng start stop
      .ok { w with
        rng
        time := w.time.addTimer (w.time.now + latency) (.deliver dst { tag, data, from_ := src }) }

/-- Call back: a channel takes every message. -/
def fire (delivered : SocketAddr → List Message) (e : Event Callback) :
    SocketAddr → List Message :=
  match e.callback with
  | .wake _ => delivered
  | .deliver dst message => Function.update delivered dst (delivered dst ++ [message])

def advance (w : Simulation R Q) : Simulation R Q :=
  { w with
    time := w.time.advance.1
    delivered := w.time.advance.2.1.foldl fire w.delivered }

def step (w : Simulation R Q) : Step R → Except Panic (Simulation R Q)
  | .localHandle addr => .ok { w with network := w.network.get addr }
  | .connect addr => .ok { w with network := w.network.unclog addr }
  | .disconnect addr => .ok { w with network := w.network.clog addr }
  | .setPacketLossRate rate => .ok { w with network := w.network.setPacketLossRate rate }
  | .sendTo src dst tag data => w.send src dst tag data
  | .addTimer deadline callback => .ok { w with time := w.time.addTimer deadline callback }
  | .pollSleepUntil deadline waker =>
    .ok { w with time := (w.time.pollSleepUntil deadline (.wake waker)).1 }
  | .advance => .ok w.advance

def run (w : Simulation R Q) : List (Step R) → Except Panic (Simulation R Q)
  | [] => .ok w
  | step :: steps => do
    let w ← w.step step
    w.run steps

/-! ## Delivery -/

/-- Advance again and again. -/
def advances : Nat → Simulation R Q → Simulation R Q
  | 0, w => w
  | n + 1, w => advances n w.advance

/-- The message an event delivers to the address. -/
def messageTo (addr : SocketAddr) (e : Event Callback) : Option Message :=
  match e.callback with
  | .wake _ => none
  | .deliver dst message => if dst = addr then some message else none

/-- The messages that are under way to the address. -/
def underway (w : Simulation R Q) (addr : SocketAddr) : Multiset Message :=
  w.time.pending.filterMap (messageTo addr)

theorem foldl_fire (delivered : SocketAddr → List Message) (fired : List (Event Callback))
    (addr : SocketAddr) :
    fired.foldl fire delivered addr = delivered addr ++ fired.filterMap (messageTo addr) := by
  induction fired generalizing delivered with
  | nil => exact (List.append_nil _).symm
  | cons e fired ih =>
    rw [List.foldl_cons, ih]
    unfold fire
    cases hCallback : e.callback with
    | wake waker =>
      have hNone : messageTo addr e = none := by
        unfold messageTo
        rw [hCallback]
      rw [List.filterMap_cons_none hNone]
    | deliver dst message =>
      -- only a message to the address is put into its channel
      by_cases hDst : dst = addr
      · have hSome : messageTo addr e = some message := by
          unfold messageTo
          rw [hCallback]
          exact if_pos hDst
        rw [List.filterMap_cons_some hSome, hDst]
        simp only [Function.update_self, List.append_assoc, List.singleton_append]
      · have hNone : messageTo addr e = none := by
          unfold messageTo
          rw [hCallback]
          exact if_neg hDst
        rw [List.filterMap_cons_none hNone]
        simp only [Function.update_of_ne (Ne.symm hDst)]

/-- An advance delivers what it takes from what is under way. -/
theorem advance_delivered (w : Simulation R Q) (addr : SocketAddr) :
    (w.advance.delivered addr : Multiset Message) + w.advance.underway addr =
      (w.delivered addr : Multiset Message) + w.underway addr := by
  unfold advance underway
  rcases w.time.advance_cases with ⟨-, hNone⟩ | ⟨time, fired, t', hAdvance, -, hPending, -⟩
  · simp only [hNone, List.foldl_nil]
  · simp only [hAdvance, foldl_fire, hPending, Multiset.filterMap_add, Multiset.filterMap_coe,
      ← Multiset.coe_add, Multiset.add_assoc]

/-- **Advancing until nothing is pending** delivers what is under way. -/
theorem advances_delivered {n : Nat} {w : Simulation R Q} (h : w.time.pending.card ≤ n)
    (addr : SocketAddr) :
    ((advances n w).delivered addr : Multiset Message) =
      (w.delivered addr : Multiset Message) + w.underway addr := by
  induction n generalizing w with
  | zero =>
    have hEmpty : w.time.pending = 0 := Multiset.card_eq_zero.mp (Nat.le_zero.mp h)
    unfold underway
    rw [hEmpty, Multiset.filterMap_zero, Multiset.add_zero]
    rfl
  | succ n ih =>
    have hCard : w.advance.time.pending.card ≤ w.time.pending.card - 1 :=
      w.time.card_pending_advance
    rw [← w.advance_delivered addr]
    exact ih (by omega)

/-- The message is delivered: once every timer has fired, the destination has it
beside what it has without it. -/
def Delivers (w : Simulation R Q) (src dst : SocketAddr) (tag : UInt64) (data : List UInt8) :
    Prop :=
  ∃ w', w.send src dst tag data = .ok w' ∧ ∀ n, w'.time.pending.card ≤ n →
    ((advances n w').delivered dst : Multiset Message) =
      { tag, data, from_ := src } ::ₘ ((advances n w).delivered dst : Multiset Message)

/-- **When a message is delivered**, if nothing is lost by chance. -/
theorem delivers_iff (hR : R.Lawful) {w : Simulation R Q} {src dst : SocketAddr}
    (hLoss : w.network.config.packetLossRate = R.zero) (hSrc : src ∈ w.network.endpoints)
    (hDst : dst ∈ w.network.endpoints) (tag : UInt64) (data : List UInt8) :
    w.Delivers src dst tag data ↔ src ∉ w.network.clogged ∧ dst ∉ w.network.clogged := by
  unfold Delivers send
  rw [if_neg (not_not_intro hSrc)]
  by_cases hClogged : src ∈ w.network.clogged ∨ dst ∈ w.network.clogged
  · -- what is dropped is not there in the end
    rw [if_pos (Or.inr hClogged)]
    refine ⟨fun hDelivers => ?_, fun hClear => ?_⟩
    · obtain ⟨w', hSend, hAll⟩ := hDelivers
      obtain rfl := Except.ok.inj hSend
      -- the destination would have one message more than it has
      have hCard := congrArg Multiset.card (hAll _ (Nat.le_refl _))
      rw [Multiset.card_cons] at hCard
      omega
    · exact absurd hClogged (not_or.mpr hClear)
  · have hGoes : ¬ (dst ∉ w.network.endpoints ∨ src ∈ w.network.clogged ∨
        dst ∈ w.network.clogged) := fun h => h.elim (fun hNot => hNot hDst) hClogged
    have hNoFault : (R.shouldFault w.rng w.network.config.packetLossRate).1 = false := by
      rw [hLoss]
      exact hR.zero w.rng
    simp only [if_neg hGoes, hNoFault, Bool.false_eq_true, if_false]
    refine ⟨fun _ => not_or.mp hClogged, fun _ => ⟨_, rfl, fun n hn => ?_⟩⟩
    have hCard := hn
    simp only [TimeRuntime.pending_addTimer, Multiset.card_cons] at hCard
    have hUnderway : ∀ e : Event Callback, messageTo dst e = some { tag, data, from_ := src } →
        (e ::ₘ w.time.pending).filterMap (messageTo dst) =
          { tag, data, from_ := src } ::ₘ w.underway dst :=
      fun e he => Multiset.filterMap_cons_some _ _ _ he
    -- the message is under way beside what was, and both are delivered
    rw [advances_delivered hn, advances_delivered (w := w) (by omega), underway,
      TimeRuntime.pending_addTimer,
      hUnderway ⟨_, .deliver dst { tag, data, from_ := src }⟩ (if_pos rfl), Multiset.add_cons]

/-! ## Runs -/

/-- A call that says whether an endpoint can be reached. -/
inductive Reach where
  | connect
  | disconnect
  deriving DecidableEq, Repr

/-- What a step says of the address. -/
def reachOf (addr : SocketAddr) : Step R → Option Reach
  | .connect a => if a = addr then some .connect else none
  | .disconnect a => if a = addr then some .disconnect else none
  | _ => none

/-- The last call for the address. -/
def lastCall (steps : List (Step R)) (addr : SocketAddr) : Option Reach :=
  (steps.filterMap (reachOf addr)).getLast?

theorem send_network {w w' : Simulation R Q} {src dst : SocketAddr} {tag : UInt64}
    {data : List UInt8} (h : w.send src dst tag data = .ok w') : w'.network = w.network := by
  unfold send at h
  split at h
  · cases h
  · split at h
    · cases h
      rfl
    · simp only at h
      split at h
      · cases h
        rfl
      · cases h
        rfl

/-- A call for an address clogs it, whichever it is. -/
theorem clogged_of_step {w w' : Simulation R Q} {step : Step R} (h : w.step step = .ok w')
    (addr : SocketAddr) :
    addr ∈ w'.network.clogged ↔ addr ∈ w.network.clogged ∨ (reachOf addr step).isSome := by
  -- the two calls insert the address, every other step leaves the set alone
  have hCalled : ∀ (a : SocketAddr) (call : Reach),
      addr ∈ insert a w.network.clogged ↔
        addr ∈ w.network.clogged ∨ (if a = addr then some call else none).isSome := by
    intro a call
    rw [Finset.mem_insert]
    by_cases hAddr : a = addr
    · simp [hAddr]
    · simp [hAddr, Ne.symm hAddr]
  have hOther : ∀ {w' : Simulation R Q}, w'.network.clogged = w.network.clogged →
      (addr ∈ w'.network.clogged ↔ addr ∈ w.network.clogged ∨ (none : Option Reach).isSome) := by
    intro w' hSame
    rw [hSame]
    simp
  cases step with
  | localHandle a =>
    obtain rfl := Except.ok.inj h
    exact hOther rfl
  | connect a =>
    obtain rfl := Except.ok.inj h
    exact hCalled a .connect
  | disconnect a =>
    obtain rfl := Except.ok.inj h
    exact hCalled a .disconnect
  | setPacketLossRate rate =>
    obtain rfl := Except.ok.inj h
    exact hOther rfl
  | sendTo src dst tag data => exact hOther (congrArg Network.clogged (send_network h))
  | addTimer deadline callback =>
    obtain rfl := Except.ok.inj h
    exact hOther rfl
  | pollSleepUntil deadline waker =>
    obtain rfl := Except.ok.inj h
    exact hOther rfl
  | advance =>
    obtain rfl := Except.ok.inj h
    exact hOther rfl

theorem run_cons {w w' : Simulation R Q} {step : Step R} {steps : List (Step R)}
    (h : w.run (step :: steps) = .ok w') :
    ∃ w₁, w.step step = .ok w₁ ∧ w₁.run steps = .ok w' := by
  unfold run at h
  cases hStep : w.step step with
  | error panic =>
    rw [hStep] at h
    cases h
  | ok w₁ =>
    rw [hStep] at h
    exact ⟨w₁, rfl, h⟩

/-- **Who is clogged after a run**: every address there was a call for. -/
theorem clogged_of_run {w w' : Simulation R Q} {steps : List (Step R)}
    (h : w.run steps = .ok w') (addr : SocketAddr) :
    addr ∈ w'.network.clogged ↔
      addr ∈ w.network.clogged ∨ steps.filterMap (reachOf addr) ≠ [] := by
  induction steps generalizing w with
  | nil =>
    obtain rfl := Except.ok.inj h
    simp
  | cons step steps ih =>
    obtain ⟨w₁, hStep, hRun⟩ := run_cons h
    rw [ih hRun, clogged_of_step hStep]
    cases hReach : reachOf addr step with
    | none => simp [List.filterMap_cons_none hReach]
    | some call => simp [List.filterMap_cons_some hReach]

/-- **When delivery follows the last calls**: one of the two was a disconnect, so
that nothing is to be delivered, or there was no call at all. A connect clogs its
endpoint like a disconnect. -/
theorem delivery_iff (hR : R.Lawful) (rng : R.Rng) (base : Nat) (steps : List (Step R))
    (w : Simulation R Q) (hRun : (new Q rng base).run steps = .ok w) (src dst : SocketAddr)
    (hLoss : w.network.config.packetLossRate = R.zero) (hSrc : src ∈ w.network.endpoints)
    (hDst : dst ∈ w.network.endpoints) (tag : UInt64) (data : List UInt8) :
    (w.Delivers src dst tag data ↔
        lastCall steps src ≠ some .disconnect ∧ lastCall steps dst ≠ some .disconnect) ↔
      lastCall steps src = some .disconnect ∨ lastCall steps dst = some .disconnect ∨
        (lastCall steps src = none ∧ lastCall steps dst = none) := by
  have hClear : ∀ addr, addr ∉ w.network.clogged ↔ lastCall steps addr = none := by
    intro addr
    rw [clogged_of_run hRun, lastCall, List.getLast?_eq_none_iff]
    simp [new, Network.new]
  -- so a message goes through if there was no call at all
  rw [delivers_iff hR hLoss hSrc hDst, hClear, hClear]
  constructor
  · intro hIff
    by_cases hSrcLast : lastCall steps src = some .disconnect
    · exact Or.inl hSrcLast
    · by_cases hDstLast : lastCall steps dst = some .disconnect
      · exact Or.inr (Or.inl hDstLast)
      · exact Or.inr (Or.inr (hIff.mpr ⟨hSrcLast, hDstLast⟩))
  · intro hLast
    constructor
    · intro hNone
      rw [hNone.1, hNone.2]
      exact ⟨(Option.some_ne_none _).symm, (Option.some_ne_none _).symm⟩
    · intro hNot
      rcases hLast with hLast | hLast | hLast
      · exact absurd hLast hNot.1
      · exact absurd hLast hNot.2
      · exact hLast

/-! ## Two endpoints -/

/-- Randomness that always draws the least. -/
def steady : Rand where
  Rng := Unit
  Probability := Bool
  zero := false
  shouldFault rng rate := (rate, rng)
  genRange rng start _ := (start, rng)

theorem steady_lawful : steady.Lawful := ⟨fun _ => rfl⟩

/-- An endpoint of the local host. -/
def endpoint (port : UInt16) : SocketAddr := .v4 0x7f000001 port

/-- Two endpoints, and then what is called. -/
def afterCalls (calls : List (Step steady)) : List (Step steady) :=
  .localHandle (endpoint 1) :: .localHandle (endpoint 2) :: calls

/-- Without any call, a message is delivered. -/
theorem delivery_iff_noCalls :
    ∃ w : Simulation steady (Queue.scanning Event.deadline),
      (new (Queue.scanning Event.deadline) () 0).run (afterCalls []) = .ok w ∧
        w.Delivers (endpoint 1) (endpoint 2) 7 [1] := by
  refine ⟨_, rfl, ((delivery_iff steady_lawful () 0 (afterCalls []) _ rfl (endpoint 1)
    (endpoint 2) rfl (by decide) (by decide) 7 [1]).mpr (Or.inr (Or.inr ⟨rfl, rfl⟩))).mpr ?_⟩
  exact ⟨(Option.some_ne_none _).symm, (Option.some_ne_none _).symm⟩

/-- To an endpoint that was disconnected and connected again, it is not. -/
theorem connect_after_disconnect_drops :
    ∃ w : Simulation steady (Queue.scanning Event.deadline),
      (new (Queue.scanning Event.deadline) () 0).run
          (afterCalls [.disconnect (endpoint 2), .connect (endpoint 2)]) = .ok w ∧
        lastCall (afterCalls [.disconnect (endpoint 2), .connect (endpoint 2)]) (endpoint 1) =
          none ∧
        lastCall (afterCalls [.disconnect (endpoint 2), .connect (endpoint 2)]) (endpoint 2) =
          some .connect ∧
        ¬ w.Delivers (endpoint 1) (endpoint 2) 7 [1] := by
  refine ⟨_, rfl, by decide, by decide, fun hDelivers => ?_⟩
  have hClear := (delivers_iff steady_lawful rfl (by decide) (by decide) 7 [1]).mp hDelivers
  exact hClear.2 (by decide)

end Simulation

end Stratamoto.Dst
