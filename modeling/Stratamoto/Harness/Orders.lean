import Stratamoto.Harness.Frames

/-!
# Stratamoto — the order of the connections

A probe drains the connections in the order a hash map is iterated in. Where the
connections of a deployment do not depend on each other, the order leaves no
trace in the execution.

* `Deployment.Independent D` — what the deployment answers on a connection
  depends on what was exchanged on it, and on the clock;
* `Same r r'` — two runners that differ in the order of exchanges only;
* `drainAll_eq_some`, `drainAll_eq_none` — what draining the connections comes to,
  connection by connection;
* `perform_same`, `loop_same` — the same actions keep two runners the same;
* `every_frame_recorded` — frames are recorded once, whatever the order.
-/

namespace Stratamoto

open Runner

/-! ## Deployments of independent connections -/

/-- The exchange is one on the connection, or of the clock. -/
def Exchange.concerns (connection : Nat) : Exchange → Bool
  | .connect connection' _ _ | .send connection' _ _ _ _ _ | .recv connection' _ _ =>
    connection' = connection
  | .advanceTime _ | .now _ => true

/-- What the connection sees of the history. -/
def History.on (history : History) (connection : Nat) : History :=
  history.filter (Exchange.concerns connection)

/-- The connections are independent of each other: the deployment answers on each
by what that connection has seen. The clock may go by all that the connections
have seen. -/
structure Deployment.Independent (D : Deployment) : Prop where
  connect : ∀ (h h' : History) (c role : Nat), h.on c = h'.on c →
    D.connect h c role = D.connect h' c role
  send : ∀ (h h' : History) (c : Nat) extensionType messageType channelMsg payload,
    h.on c = h'.on c → D.send h c extensionType messageType channelMsg payload =
      D.send h' c extensionType messageType channelMsg payload
  recv : ∀ (h h' : History) (c timeout : Nat), h.on c = h'.on c →
    D.recv h c timeout = D.recv h' c timeout
  now : ∀ h h' : History, (∀ c, h.on c = h'.on c) → D.now h = D.now h'

/-- Two executions that hold the same; a map has no order. -/
structure Execution.Same (execution execution' : Execution) : Prop where
  outcomes : execution.outcomes = execution'.outcomes
  sessions : ∀ s, execution.sessions.lookup s = execution'.sessions.lookup s
  connectionRoles : ∀ c, execution.connectionRoles.lookup c = execution'.connectionRoles.lookup c
  unsolicited : execution.unsolicited = execution'.unsolicited
  connections : ∀ c, execution.connections.lookup c = execution'.connections.lookup c

theorem History.on_append (history later : History) (c : Nat) :
    History.on (history ++ later) c = history.on c ++ History.on later c :=
  List.filter_append ..

theorem History.on_append_congr {h h' : History} {c : Nat} (hSame : h.on c = h'.on c)
    (l : History) : History.on (h ++ l) c = History.on (h' ++ l) c := by
  rw [History.on_append, History.on_append, hSame]

theorem lookup_insert_congr {β : Type} {m m' : HashMap β} (h : ∀ k, m.lookup k = m'.lookup k)
    (k : Nat) (v : β) (k' : Nat) : (m.insert k v).lookup k' = (m'.insert k v).lookup k' := by
  by_cases hk : k' = k
  · subst hk
    rw [AList.lookup_insert, AList.lookup_insert]
  · rw [AList.lookup_insert_ne hk, AList.lookup_insert_ne hk, h]

/-- Related steps follow related steps. -/
theorem rel_bind {α β : Type} {R : α → α → Prop} {R' : β → β → Prop} {x y : Option α}
    {f g : α → Option β} (h : Option.Rel R x y)
    (hStep : ∀ a b, R a b → Option.Rel R' (f a) (g b)) : Option.Rel R' (x.bind f) (y.bind g) := by
  cases h with
  | some hR => exact hStep _ _ hR
  | none => exact .none

namespace Runner

variable {W : World} {o : IterationOrder}

/-! ## One connection -/

/-- The pump does not look at the order. -/
theorem pumpLoop_order (c deadline : Nat) (done : ConnectionState → Bool) (fuel : Nat)
    (history : History) (state : ConnectionState) :
    pumpLoop { W with order := o } c deadline done fuel history state =
      pumpLoop W c deadline done fuel history state := by
  induction fuel generalizing history state with
  | zero => rfl
  | succ fuel ih =>
    rw [pumpLoop, pumpLoop]
    simp only [ih]

theorem drain_order (c fuel : Nat) (history : History) (state : ConnectionState) :
    drain { W with order := o } c fuel history state = drain W c fuel history state := by
  induction fuel generalizing history state with
  | zero => rfl
  | succ fuel ih =>
    rw [drain, drain]
    simp only [ih]

theorem drainAll_order (fuel : Nat) (r : Runner) (ids : List Nat) :
    r.drainAll { W with order := o } fuel ids = r.drainAll W fuel ids := by
  induction ids generalizing r with
  | nil => rfl
  | cons id ids ih =>
    rw [drainAll, drainAll]
    simp only [ih, drain_order]

/-- Two runners that differ in the order of the exchanges only, as far as no
connection can see. -/
structure Same (r r' : Runner) : Prop where
  history : ∀ c, r.history.on c = r'.history.on c
  connections : r.connections = r'.connections
  states : ∀ c, r.states.lookup c = r'.states.lookup c
  execution : r.execution.Same r'.execution

section Independent

variable (hD : W.deployment.Independent)

include hD

theorem pumpLoop_same {c deadline fuel : Nat} {done : ConnectionState → Bool} {h h' : History}
    (hSame : ∀ c, h.on c = h'.on c) (state : ConnectionState) :
    Option.Rel (fun out out' => out.1 = out'.1 ∧ (∀ c, out.2.1.on c = out'.2.1.on c) ∧
        out.2.2 = out'.2.2)
      (pumpLoop W c deadline done fuel h state) (pumpLoop W c deadline done fuel h' state) := by
  induction fuel generalizing h h' state with
  | zero => exact .none
  | succ fuel ih =>
    by_cases hDone : done state = true
    · rw [pumpLoop, pumpLoop, if_pos hDone, if_pos hDone]
      exact .some ⟨rfl, hSame, rfl⟩
    · set now := W.deployment.now h with hNow
      -- the clock and the connection cannot tell the two histories apart
      have hNow' : W.deployment.now h' = now := (hD.now h h' hSame).symm
      have hAsked : ∀ c, History.on (h ++ [.now now]) c = History.on (h' ++ [.now now]) c :=
        fun c => History.on_append_congr (hSame c) _
      by_cases hTime : deadline - now = 0
      · rw [pumpLoop_of_late hDone hNow.symm hTime, pumpLoop_of_late hDone hNow' hTime]
        exact .some ⟨rfl, hAsked, rfl⟩
      · have hRecv' := hD.recv _ _ c (deadline - now) (hAsked c)
        cases hRecv : W.deployment.recv (h ++ [.now now]) c (deadline - now) with
        | error e =>
          rw [hRecv] at hRecv'
          rw [pumpLoop_of_error hDone hNow.symm rfl hTime hRecv,
            pumpLoop_of_error hDone hNow' rfl hTime hRecv'.symm]
          exact .some ⟨rfl, fun c => History.on_append_congr (hAsked c) _, rfl⟩
        | ok frame =>
          rw [hRecv] at hRecv'
          rw [pumpLoop_of_frame hDone hNow.symm rfl hTime hRecv,
            pumpLoop_of_frame hDone hNow' rfl hTime hRecv'.symm]
          exact ih (fun c => History.on_append_congr (hAsked c) _) _

/-- What a drain comes to depends on what the connection has seen. -/
theorem drain_eq_some {c fuel : Nat} {h : History} {state : ConnectionState}
    {out : List (Nat × UInt8) × History × ConnectionState}
    (hDrain : drain W c fuel h state = some out) :
    ∃ l, out.2.1 = h ++ l ∧ (∀ x ∈ l, ∃ result, x = .recv c 0 result) ∧
      ∀ h' : History, h.on c = h'.on c →
        drain W c fuel h' state = some (out.1, h' ++ l, out.2.2) := by
  induction fuel generalizing h state out with
  | zero => cases hDrain
  | succ fuel ih =>
    cases hRecv : W.deployment.recv h c 0 with
    | error e =>
      rw [drain_of_error hRecv] at hDrain
      cases hDrain
      refine ⟨[.recv c 0 (.error e)], rfl, fun x hx => ⟨_, List.mem_singleton.mp hx⟩,
        fun h' hSame => ?_⟩
      -- what is received does not depend on the other connections
      rw [hD.recv h h' c 0 hSame] at hRecv
      exact drain_of_error hRecv
    | ok frame =>
      rw [drain_of_frame hRecv] at hDrain
      obtain ⟨out', hRest, hOut⟩ := Option.bind_eq_some_iff.mp hDrain
      obtain rfl := Option.some.inj hOut
      obtain ⟨l, hl, hOnly, hElse⟩ := ih hRest
      refine ⟨[.recv c 0 (.ok frame)] ++ l, by rw [hl, List.append_assoc], fun x hx => ?_,
        fun h' hSame => ?_⟩
      · rcases List.mem_append.mp hx with hx | hx
        · exact ⟨_, List.mem_singleton.mp hx⟩
        · exact hOnly x hx
      · rw [hD.recv h h' c 0 hSame] at hRecv
        rw [drain_of_frame hRecv, hElse _ (History.on_append_congr hSame _)]
        simp only [Option.bind_some, List.append_assoc]

/-! ## All connections -/

omit hD in
/-- One connection is drained, and then the others. -/
theorem drainAll_cons {fuel id : Nat} {ids : List Nat} {r : Runner} {state : ConnectionState}
    (hState : r.states.lookup id = some state) :
    r.drainAll W fuel (id :: ids) = (drain W id fuel r.history state).bind fun out =>
      (drainAll W fuel { r with history := out.2.1, states := r.states.insert id out.2.2 } ids).map
        fun rest => (out.1 ++ rest.1, rest.2) := by
  simp only [drainAll, hState]
  refine Option.bind_congr fun out _ => ?_
  rw [Option.map_eq_bind]
  rfl

omit hD in
theorem drainAll_cons_none {fuel id : Nat} {ids : List Nat} {r : Runner}
    (hNone : r.states.lookup id = none) :
    r.drainAll W fuel (id :: ids) = r.drainAll W fuel ids := by
  simp only [drainAll, hNone]

omit hD in
/-- What draining one connection of the runner comes to: the exchanges and the
state after them. -/
def drainOn (W : World) (fuel : Nat) (r : Runner) (c : Nat) :
    Option (History × Option ConnectionState) :=
  match r.states.lookup c with
  | none => some ([], none)
  | some state => (drain W c fuel r.history state).map fun out =>
      (out.2.1.drop r.history.length, some out.2.2)

theorem drainOn_congr {fuel c : Nat} {r r' : Runner} (hHistory : r.history.on c = r'.history.on c)
    (hState : r.states.lookup c = r'.states.lookup c) :
    drainOn W fuel r c = drainOn W fuel r' c := by
  unfold drainOn
  rw [← hState]
  cases r.states.lookup c with
  | none => rfl
  | some state =>
    show Option.map _ (drain W c fuel r.history state) = Option.map _ (drain W c fuel r'.history state)
    cases hDrain : drain W c fuel r.history state with
    | some out =>
      obtain ⟨l, hl, -, hElse⟩ := drain_eq_some hD hDrain
      rw [hElse _ hHistory, Option.map_some, Option.map_some, hl, List.drop_left, List.drop_left]
    | none =>
      cases hDrain' : drain W c fuel r'.history state with
      | none => rfl
      | some out =>
        -- then the other would have come to something too
        obtain ⟨l, -, -, hElse⟩ := drain_eq_some hD hDrain'
        rw [hElse _ hHistory.symm] at hDrain
        cases hDrain

/-- Draining one connection, and what the others see of it: nothing. -/
theorem drain_step {c fuel : Nat} {r : Runner} {state : ConnectionState}
    (hState : r.states.lookup c = some state)
    {out : List (Nat × UInt8) × History × ConnectionState}
    (hDrain : drain W c fuel r.history state = some out) :
    ∃ l, out.2.1 = r.history ++ l ∧ drainOn W fuel r c = some (l, some out.2.2) ∧
      History.on l c = l ∧ ∀ c' ≠ c, History.on l c' = [] := by
  obtain ⟨l, hl, hOnly, -⟩ := drain_eq_some hD hDrain
  refine ⟨l, hl, ?_, List.filter_eq_self.mpr fun x hx => ?_, fun c' hc => List.filter_eq_nil_iff.mpr
    fun x hx => ?_⟩
  · simp only [drainOn, hState, hDrain, Option.map_some, hl, List.drop_left]
  · obtain ⟨result, rfl⟩ := hOnly x hx
    exact decide_eq_true rfl
  · obtain ⟨result, rfl⟩ := hOnly x hx
    simpa [Exchange.concerns] using Ne.symm hc

/-- What draining the connections comes to, connection by connection. -/
theorem drainAll_eq_some {fuel : Nat} {ids : List Nat} (hNodup : ids.Nodup) {r r' : Runner}
    {probed : List (Nat × UInt8)} (h : r.drainAll W fuel ids = some (probed, r')) (c : Nat) :
    (c ∈ ids → ∃ l, drainOn W fuel r c = some (l, r'.states.lookup c) ∧
      r'.history.on c = r.history.on c ++ l) ∧
    (c ∉ ids → r'.states.lookup c = r.states.lookup c ∧ r'.history.on c = r.history.on c) := by
  induction ids generalizing r probed with
  | nil =>
    cases h
    exact ⟨fun hMem => absurd hMem List.not_mem_nil, fun _ => ⟨rfl, rfl⟩⟩
  | cons id ids ih =>
    rw [List.nodup_cons] at hNodup
    cases hState : r.states.lookup id with
    | none =>
      rw [drainAll_cons_none hState] at h
      obtain ⟨hIn, hOut⟩ := ih hNodup.2 h
      constructor
      · intro hMem
        rcases List.mem_cons.mp hMem with rfl | hMem
        · -- it does not come again, so nothing after this turn touches it
          obtain ⟨hStateAfter, hHistory⟩ := hOut hNodup.1
          refine ⟨[], ?_, by rw [hHistory, List.append_nil]⟩
          rw [hStateAfter, hState]
          simp only [drainOn, hState]
        · exact hIn hMem
      · intro hNot
        exact hOut fun hMem => hNot (List.mem_cons_of_mem _ hMem)
    | some state =>
      rw [drainAll_cons hState] at h
      obtain ⟨out, hDrain, h⟩ := Option.bind_eq_some_iff.mp h
      obtain ⟨⟨rest, r₁⟩, hRest, hOutcome⟩ := Option.map_eq_some_iff.mp h
      cases hOutcome
      -- what the turn itself does, and then what the rest does
      obtain ⟨l, hl, hOne, hOwn, hOthers⟩ := drain_step hD hState hDrain
      obtain ⟨hIn, hOut⟩ := ih hNodup.2 hRest
      by_cases hc : c = id
      · subst hc
        refine ⟨fun _ => ⟨l, ?_⟩, fun hNot => absurd (List.mem_cons_self ..) hNot⟩
        obtain ⟨hStateAfter, hHistory⟩ := hOut hNodup.1
        rw [hStateAfter, hHistory]
        refine ⟨?_, ?_⟩
        · rw [AList.lookup_insert]
          exact hOne
        · show History.on out.2.1 c = _
          rw [hl, History.on_append, hOwn]
      · -- the drain of one connection left this one as it was
        have hStates : (r.states.insert id out.2.2).lookup c = r.states.lookup c :=
          AList.lookup_insert_ne hc
        have hHistory : History.on out.2.1 c = r.history.on c := by
          rw [hl, History.on_append, hOthers c hc, List.append_nil]
        constructor
        · intro hMem
          obtain ⟨l', hDrained, hAfter⟩ := hIn ((List.mem_cons.mp hMem).resolve_left hc)
          refine ⟨l', ?_, hAfter.trans (by rw [← hHistory])⟩
          rw [← hDrained]
          exact drainOn_congr hD hHistory.symm hStates.symm
        · intro hNot
          obtain ⟨hStateAfter, hAfter⟩ := hOut fun hMem => hNot (List.mem_cons_of_mem _ hMem)
          exact ⟨hStateAfter.trans hStates, hAfter.trans hHistory⟩

theorem drainAll_eq_none {fuel : Nat} {ids : List Nat} (hNodup : ids.Nodup) {r : Runner} :
    r.drainAll W fuel ids = none ↔ ∃ c ∈ ids, drainOn W fuel r c = none := by
  induction ids generalizing r with
  | nil => simp [drainAll]
  | cons id ids ih =>
    rw [List.nodup_cons] at hNodup
    rw [List.exists_mem_cons_iff]
    cases hState : r.states.lookup id with
    | none =>
      rw [drainAll_cons_none hState, ih hNodup.2]
      exact (or_iff_right (by simp [drainOn, hState])).symm
    | some state =>
      rw [drainAll_cons hState]
      cases hDrain : drain W id fuel r.history state with
      | none =>
        refine iff_of_true rfl (Or.inl ?_)
        simp only [drainOn, hState, hDrain, Option.map_none]
      | some out =>
        obtain ⟨l, hl, hOne, -, hOthers⟩ := drain_step hD hState hDrain
        -- the later connections find what they would have found at first
        have hLater : ∀ c ∈ ids, drainOn W fuel
            { r with history := out.2.1, states := r.states.insert id out.2.2 } c =
              drainOn W fuel r c := fun c hMem => by
          have hc : c ≠ id := fun hEq => hNodup.1 (hEq ▸ hMem)
          refine drainOn_congr hD ?_ (AList.lookup_insert_ne hc)
          show History.on out.2.1 c = _
          rw [hl, History.on_append, hOthers c hc, List.append_nil]
        rw [Option.bind_some, Option.map_eq_none_iff, ih hNodup.2,
          or_iff_right (by simp [hOne])]
        refine exists_congr fun c => and_congr_right fun hMem => ?_
        rw [hLater c hMem]

/-! ## Two runners -/

theorem pump_same {fuel c timeout : Nat} {done : ConnectionState → Bool} {r r' : Runner}
    (h : Same r r') : Option.Rel (fun out out' => out.1 = out'.1 ∧ Same out.2 out'.2)
      (r.pump W fuel c timeout done) (r'.pump { W with order := o } fuel c timeout done) := by
  unfold pump
  rw [← h.states c]
  cases hState : r.states.lookup c with
  | none => exact .some ⟨rfl, h⟩
  | some state =>
    simp only
    rw [← h.connections]
    by_cases hOpen : c ∈ r.connections
    · rw [if_neg (not_not.mpr hOpen), if_neg (not_not.mpr hOpen)]
      simp only [pumpLoop_order, ← hD.now _ _ h.history]
      -- both read the clock once
      have hClock : ∀ c', History.on (r.history ++ [.now (W.deployment.now r.history)]) c' =
          History.on (r'.history ++ [.now (W.deployment.now r.history)]) c' :=
        fun c' => History.on_append_congr (h.history c') _
      refine rel_bind (pumpLoop_same hD hClock state) fun out out' hOut => ?_
      obtain ⟨hVerdict, hHistory, hAfter⟩ := hOut
      refine .some ⟨hVerdict, hHistory, rfl, fun c' => ?_, h.execution⟩
      rw [hAfter]
      exact lookup_insert_congr h.states c _ c'
    · rw [if_pos hOpen, if_pos hOpen]
      exact .some ⟨rfl, h⟩

theorem await_same {fuel c session : Nat} {protocol : Protocol} {first : Bool} {r r' : Runner}
    (h : Same r r') : Option.Rel (fun out out' => out.1 = out'.1 ∧ Same out.2 out'.2)
      (r.performAwaitSetupResponse W fuel c session protocol first)
      (r'.performAwaitSetupResponse { W with order := o } fuel c session protocol first) := by
  unfold performAwaitSetupResponse
  simp only
  rw [← h.states c]
  cases hState : r.states.lookup c with
  | none => exact .some ⟨rfl, h⟩
  | some state =>
    -- both mark the setup as pending
    have hPending : Same
        { r with states := r.states.insert c { state with setup := .pending } }
        { r' with states := r'.states.insert c { state with setup := .pending } } :=
      ⟨h.history, h.connections, fun c' => lookup_insert_congr h.states c _ c', h.execution⟩
    refine rel_bind (pump_same hD hPending) fun out out' hOut => ?_
    obtain ⟨verdict, r₁⟩ := out
    obtain ⟨verdict', r₁'⟩ := out'
    obtain ⟨rfl, hSame⟩ := hOut
    have hAnswer := hSame.states c
    simp only [hAnswer]
    refine .some ⟨rfl, hSame.history, hSame.connections, hSame.states, ?_⟩
    exact ⟨hSame.execution.outcomes, fun s => lookup_insert_congr hSame.execution.sessions _ _ s,
      hSame.execution.connectionRoles, hSame.execution.unsolicited, hSame.execution.connections⟩

omit hD in
/-- The frames of one connection, counted in what it has seen. -/
theorem count_heard (l : History) (c : Nat) (t : UInt8) :
    l.heard.count (c, t) = (History.on l c).heard.count (c, t) := by
  induction l with
  | nil => rfl
  | cons x l ih =>
    have hSplit : ∀ l : History, History.heard (x :: l) = x.heard.toList ++ l.heard := fun l => by
      unfold History.heard
      cases hx : x.heard with
      | none => rw [List.filterMap_cons_none hx, Option.toList_none, List.nil_append]
      | some frame => rw [List.filterMap_cons_some hx, Option.toList_some, List.singleton_append]
    by_cases hc : x.concerns c = true
    · have hOn : History.on (x :: l) c = x :: History.on l c := List.filter_cons_of_pos hc
      rw [hOn, hSplit, hSplit, List.count_append, List.count_append, ih]
    · have hOn : History.on (x :: l) c = History.on l c := List.filter_cons_of_neg hc
      rw [hOn, hSplit, List.count_append, ih, Nat.add_eq_right, List.count_eq_zero]
      intro hMem
      -- a frame of the connection would concern it
      rw [Option.mem_toList] at hMem
      unfold Exchange.heard at hMem
      split at hMem
      · cases hMem
        exact hc (decide_eq_true rfl)
      · cases hMem

omit hD in
theorem heard_perm {l l' : History} (h : ∀ c, l.on c = l'.on c) : l.heard.Perm l'.heard := by
  refine List.perm_iff_count.mpr fun frame => ?_
  obtain ⟨c, t⟩ := frame
  rw [count_heard, count_heard l', h c]

omit hD in
theorem frameLe_iff {a b : Nat × UInt8} :
    frameLe a b = true ↔ a.1 < b.1 ∨ (a.1 = b.1 ∧ a.2 ≤ b.2) := by
  simp [frameLe]

omit hD in
/-- The order of the frames decides how they are sorted. -/
theorem insertionSort_eq {l l' : List (Nat × UInt8)} (h : l.Perm l') :
    (l.insertionSort fun a b => frameLe a b) = l'.insertionSort fun a b => frameLe a b := by
  -- the order is total and transitive, and frames it cannot tell apart are equal
  have hTotal : Std.Total fun a b : Nat × UInt8 => frameLe a b = true := ⟨fun a b => by
    rw [frameLe_iff, frameLe_iff]
    rcases Nat.lt_trichotomy a.1 b.1 with hLt | hEq | hGt
    · exact Or.inl (Or.inl hLt)
    · rcases UInt8.le_total a.2 b.2 with hLe | hLe
      · exact Or.inl (Or.inr ⟨hEq, hLe⟩)
      · exact Or.inr (Or.inr ⟨hEq.symm, hLe⟩)
    · exact Or.inr (Or.inl hGt)⟩
  have hTrans : IsTrans (Nat × UInt8) fun a b => frameLe a b = true := ⟨fun a b c hab hbc => by
    rw [frameLe_iff] at *
    rcases hab with hab | ⟨hab, hab'⟩
    · exact Or.inl (by omega)
    · rcases hbc with hbc | ⟨hbc, hbc'⟩
      · exact Or.inl (by omega)
      · exact Or.inr ⟨by omega, UInt8.le_trans hab' hbc'⟩⟩
  refine List.Perm.eq_of_pairwise ?_
    (List.pairwise_insertionSort (fun a b : Nat × UInt8 => frameLe a b = true) l)
    (List.pairwise_insertionSort _ l')
    (((List.perm_insertionSort _ l).trans h).trans (List.perm_insertionSort _ l').symm)
  -- antisymmetry: neither number is less
  intro a b _ _ hab hba
  rw [frameLe_iff] at hab hba
  refine Prod.ext (by omega) ?_
  rcases hab with hab | ⟨hEq, hab⟩
  · omega
  · rcases hba with hba | ⟨-, hba⟩
    · omega
    · exact UInt8.le_antisymm hab hba

/-- Draining comes to the same in whatever order the connections are gone through. -/
theorem drainAll_same {fuel : Nat} {r r' : Runner} (h : Same r r') {ids ids' : List Nat}
    (hNodup : ids.Nodup) (hNodup' : ids'.Nodup) (hMem : ∀ c, c ∈ ids ↔ c ∈ ids') :
    Option.Rel (fun out out' => out.1.Perm out'.1 ∧ Same out.2 out'.2)
      (r.drainAll W fuel ids) (r'.drainAll W fuel ids') := by
  have hCongr : ∀ c, drainOn W fuel r c = drainOn W fuel r' c := fun c =>
    drainOn_congr hD (h.history c) (h.states c)
  have hNone : r.drainAll W fuel ids = none ↔ r'.drainAll W fuel ids' = none := by
    rw [drainAll_eq_none hD hNodup, drainAll_eq_none hD hNodup']
    simp only [hMem, hCongr]
  cases hDrain : r.drainAll W fuel ids with
  | none =>
    rw [hNone.mp hDrain]
    exact .none
  | some out =>
    cases hDrain' : r'.drainAll W fuel ids' with
    | none =>
      rw [hNone.mpr hDrain'] at hDrain
      cases hDrain
    | some out' =>
      obtain ⟨probed, r₁⟩ := out
      obtain ⟨probed', r₁'⟩ := out'
      have hListens := drainAll_listens hDrain
      have hListens' := drainAll_listens hDrain'
      -- connection by connection, the two drains come to the same
      have hBoth : ∀ c, r₁.states.lookup c = r₁'.states.lookup c ∧
          r₁.history.on c = r₁'.history.on c := fun c => by
        obtain ⟨hIn, hOut⟩ := drainAll_eq_some hD hNodup hDrain c
        obtain ⟨hIn', hOut'⟩ := drainAll_eq_some hD hNodup' hDrain' c
        by_cases hc : c ∈ ids
        · obtain ⟨l, hOne, hHistory⟩ := hIn hc
          obtain ⟨l', hOne', hHistory'⟩ := hIn' ((hMem c).mp hc)
          rw [hCongr, hOne'] at hOne
          obtain ⟨rfl, hState⟩ := Prod.mk.inj (Option.some.inj hOne)
          exact ⟨hState.symm, by rw [hHistory, hHistory', h.history c]⟩
        · obtain ⟨hState, hHistory⟩ := hOut hc
          obtain ⟨hState', hHistory'⟩ := hOut' fun hc' => hc ((hMem c).mpr hc')
          exact ⟨by rw [hState, hState', h.states c], by rw [hHistory, hHistory', h.history c]⟩
      obtain ⟨l, hLogs, rfl⟩ := drainAll_logs hDrain
      obtain ⟨l', hLogs', rfl⟩ := drainAll_logs hDrain'
      refine .some ⟨heard_perm fun c => ?_, fun c => (hBoth c).2, ?_, fun c => (hBoth c).1, ?_⟩
      · have hOn := (hBoth c).2
        rw [hLogs.history, hLogs'.history, History.on_append, History.on_append, h.history c] at hOn
        exact List.append_cancel_left hOn
      · rw [hListens.connections, hListens'.connections, h.connections]
      · rw [hListens.execution, hListens'.execution]
        exact h.execution

theorem probe_same {fuel : Nat} {r r' : Runner} (h : Same r r') :
    Option.Rel (fun out out' => out.1 = out'.1 ∧ Same out.2 out'.2)
      (r.performProbe W fuel) (r'.performProbe { W with order := o } fuel) := by
  unfold performProbe
  rw [drainAll_order (o := o)]
  -- the order goes through the same connections
  have hMem : ∀ c, c ∈ W.order.keys r.history r.connections ↔
      c ∈ o.keys r'.history r'.connections := fun c => by
    rw [W.order.mem_iff, o.mem_iff, h.connections]
  refine rel_bind (drainAll_same hD h (W.order.nodup _ _) (o.nodup _ _) hMem) fun out out' hOut => ?_
  obtain ⟨probed, r₁⟩ := out
  obtain ⟨probed', r₁'⟩ := out'
  obtain ⟨hPerm, hSame⟩ := hOut
  -- what was drained is sorted, so the order is gone
  simp only [insertionSort_eq hPerm]
  refine .some ⟨rfl, hSame.history, hSame.connections, hSame.states, ?_⟩
  exact ⟨hSame.execution.outcomes, hSame.execution.sessions, hSame.execution.connectionRoles,
    congrArg (· ++ _) hSame.execution.unsolicited, hSame.execution.connections⟩

omit hD in
theorem exchange_same {r r' : Runner} (h : Same r r') (x : Exchange) :
    Same (r.exchange x) (r'.exchange x) :=
  ⟨fun c => History.on_append_congr (h.history c) [x], h.connections, h.states, h.execution⟩

theorem connect_same {c role : Nat} {r r' : Runner} (h : Same r r') :
    (r.performConnect W c role).1 = (r'.performConnect { W with order := o } c role).1 ∧
      Same (r.performConnect W c role).2 (r'.performConnect { W with order := o } c role).2 := by
  unfold performConnect
  simp only [← hD.connect _ _ c role (h.history c)]
  have hExchanged := exchange_same h (.connect c role (W.deployment.connect r.history c role))
  split
  · refine ⟨rfl, hExchanged.history, ?_, fun c' => lookup_insert_congr h.states c _ c', ?_⟩
    · show insert c r.connections = insert c r'.connections
      rw [h.connections]
    · exact ⟨h.execution.outcomes, h.execution.sessions,
        fun c' => lookup_insert_congr h.execution.connectionRoles c _ c', h.execution.unsolicited,
        h.execution.connections⟩
  · exact ⟨rfl, hExchanged⟩

theorem send_same {c : Nat} {extensionType : UInt16} {messageType : UInt8} {channelMsg : Bool}
    {payload : List UInt8} {r r' : Runner} (h : Same r r') :
    (r.performSend W c extensionType messageType channelMsg payload).1 =
        (r'.performSend { W with order := o } c extensionType messageType channelMsg payload).1 ∧
      Same (r.performSend W c extensionType messageType channelMsg payload).2
        (r'.performSend { W with order := o } c extensionType messageType channelMsg payload).2 := by
  unfold performSend
  rw [← h.connections]
  split
  · exact ⟨rfl, h⟩
  · simp only [← hD.send _ _ c extensionType messageType channelMsg payload (h.history c)]
    split
    · exact ⟨rfl, exchange_same h _⟩
    · exact ⟨rfl, exchange_same h _⟩

/-- **The same action keeps two runners the same.** -/
theorem perform_same {fuel : Nat} {r r' : Runner} (h : Same r r') (action : Action) :
    Option.Rel (fun out out' => out.1 = out'.1 ∧ Same out.2 out'.2)
      (r.perform W fuel action) (r'.perform { W with order := o } fuel action) := by
  cases action with
  | enterOnSetupSuccess session end_ => exact .some ⟨rfl, h⟩
  | exitBlock => exact .some ⟨rfl, h⟩
  | connect c role => exact .some (connect_same hD h)
  | send c extensionType messageType channelMsg payload => exact .some (send_same hD h)
  | awaitSetupResponse c session protocol first => exact await_same hD h
  | advanceTime duration => exact .some ⟨rfl, exchange_same h _⟩
  | probe => exact probe_same hD h

omit hD in
theorem record_same {r r' : Runner} (h : Same r r') (outcomes : List ActionOutcome) :
    Same (r.record outcomes) (r'.record outcomes) :=
  ⟨h.history, h.connections, h.states, ⟨congrArg (· ++ outcomes) h.execution.outcomes,
    h.execution.sessions, h.execution.connectionRoles, h.execution.unsolicited,
    h.execution.connections⟩⟩

omit hD in
theorem unmetPrerequisite_same {r r' : Runner} (h : Same r r') (action : Action) :
    r.unmetPrerequisite action = r'.unmetPrerequisite action := by
  cases action with
  | enterOnSetupSuccess session end_ =>
    have hEstablished : r.established session = r'.established session := by
      unfold established
      rw [h.execution.sessions session]
    simp only [unmetPrerequisite, hEstablished]
  | _ => rfl

/-- So does the main loop. -/
theorem loop_same (actions : List Action) {fuel next : Nat} {r r' : Runner} (h : Same r r') :
    Option.Rel (fun out out' => Same out.2 out'.2)
      (loop W actions fuel next r) (loop { W with order := o } actions fuel next r') := by
  -- turn by turn, with the same action and the same outcome
  induction fuel generalizing next r r' with
  | zero => exact .none
  | succ fuel ih =>
    rw [loop, loop]
    cases actions[next]? with
    | none => exact .some h
    | some action =>
      simp only
      rw [← unmetPrerequisite_same h]
      cases r.unmetPrerequisite action with
      | some skipped =>
        exact rel_bind (ih (record_same h _)) fun out out' hOut => .some hOut
      | none =>
        refine rel_bind (perform_same hD h action) fun out out' hOut => ?_
        obtain ⟨outcome, r₁⟩ := out
        obtain ⟨outcome', r₁'⟩ := out'
        obtain ⟨rfl, hSame⟩ := hOut
        exact rel_bind (ih (record_same hSame _)) fun out out' hOut => .some hOut

end Independent

end Runner

/-- Whatever the order, the run ends or does not end alike, and with the same. -/
theorem run_same {W : World} (hD : W.deployment.Independent) (o : IterationOrder) (fuel : Nat)
    (program : CompiledProgram) : Option.Rel (fun out out' => out.1.Same out'.1)
      (run W fuel program) (run { W with order := o } fuel program) := by
  have hStart : Same Runner.start Runner.start :=
    ⟨fun _ => rfl, rfl, fun _ => rfl, ⟨rfl, fun _ => rfl, fun _ => rfl, rfl, fun _ => rfl⟩⟩
  refine rel_bind (loop_same hD program.actions hStart) fun out out' hSame => .some ?_
  exact ⟨hSame.execution.outcomes, hSame.execution.sessions, hSame.execution.connectionRoles,
    hSame.execution.unsolicited, hSame.states⟩

/-- **Every frame is recorded once.** After a run of a program that compiles, each
connection that was opened has one event for each frame that was received on it,
in the order they came. What is unsolicited is what the probes list, one after
the other, and each lists every frame it received once. Where the connections of
the deployment are independent of each other, the execution is the same in
whatever order they are gone through. That a list of actions is no longer than
an index can count is what a vector promises. -/
theorem every_frame_recorded {S : Sv2} {W : World} {p : Program} {compiled : CompiledProgram}
    (hD : W.deployment.Independent) (hCompile : Compiler.compile S p = .ok compiled)
    (hLen : compiled.actions.length ≤ ActionId.max) :
    (∀ fuel execution entries, run W fuel compiled = some (execution, entries) →
      FramesRecorded W compiled.actions execution entries) ∧
    ∀ (o : IterationOrder) (fuel : Nat), Option.Rel (fun out out' => out.1.Same out'.1)
      (run W fuel compiled) (run { W with order := o } fuel compiled) :=
  ⟨fun _ _ _ hRun => framesRecorded hCompile hLen hRun,
    fun o fuel => run_same hD o fuel compiled⟩

/-! ## A deployment of independent connections -/

/-- What a connection has been sent, and the frames received on it, it has seen. -/
theorem sentOn_congr {h h' : History} {c : Nat} (hSame : h.on c = h'.on c) :
    h.sentOn c = h'.sentOn c := by
  have hOn : ∀ h : History, h.sentOn c = History.sentOn (h.on c) c := fun h => by
    unfold History.sentOn History.on
    rw [List.filterMap_filter]
    refine List.filterMap_congr fun x _ => ?_
    by_cases hx : x.concerns c = true
    · rw [if_pos hx]
    · rw [if_neg hx]
      unfold Exchange.sentOn
      split
      · exact if_neg fun hc => hx (decide_eq_true hc)
      · rfl
  rw [hOn h, hSame, ← hOn h']

theorem framesOn_congr {h h' : History} {c : Nat} (hSame : h.on c = h'.on c) :
    h.framesOn c = h'.framesOn c := by
  have hOn : ∀ h : History, h.framesOn c = History.framesOn (h.on c) c := fun h => by
    unfold History.framesOn History.on
    rw [List.countP_filter]
    refine List.countP_congr fun x _ => ?_
    have hConcerns : x.isFrameOn c = true → x.concerns c = true := by
      intro hFrame
      unfold Exchange.isFrameOn at hFrame
      split at hFrame
      · exact hFrame
      · cases hFrame
    rw [Bool.and_eq_true]
    exact (and_iff_left_of_imp hConcerns).symm
  rw [hOn h, hSame, ← hOn h']

theorem Deployment.pool_independent : Deployment.pool.Independent where
  connect := fun _ _ _ _ _ => rfl
  send := fun _ _ _ _ _ _ _ _ => rfl
  recv := fun h h' c timeout hSame => by
    have hSent := sentOn_congr hSame
    cases hList : h.sentOn c with
    | nil => rw [pool_unsent hList, pool_unsent (hSent.symm.trans hList)]
    | cons first rest =>
      rw [pool_recv hList, pool_recv (hSent.symm.trans hList), framesOn_congr hSame]
  now := fun _ _ _ => rfl

/-- The one answer is an event, in whatever order the connections are gone through. -/
theorem every_frame_recorded_pool : ∃ compiled execution entries,
    Compiler.compile Sv2.wire singleSetup = .ok compiled ∧
    run .pool 20 compiled = some (execution, entries) ∧
    (execution.connections.lookup 0).map ConnectionState.events = some [.setupSuccess 2 0] ∧
    FramesRecorded .pool compiled.actions execution entries ∧
    ∀ o : IterationOrder, ∃ execution' entries',
      run { World.pool with order := o } 20 compiled = some (execution', entries') ∧
      execution.Same execution' := by
  obtain ⟨compiled, execution, entries, hCompile, hRun, hLen, hEvents⟩ :
      ∃ compiled execution entries, Compiler.compile Sv2.wire singleSetup = .ok compiled ∧
        run .pool 20 compiled = some (execution, entries) ∧
        compiled.actions.length = 6 ∧
        (execution.connections.lookup 0).map ConnectionState.events = some [.setupSuccess 2 0] :=
    ⟨_, _, _, rfl, rfl, rfl, rfl⟩
  obtain ⟨hRecorded, hSame⟩ := every_frame_recorded (W := .pool) Deployment.pool_independent
    hCompile (by rw [hLen]; decide)
  refine ⟨compiled, execution, entries, hCompile, hRun, hEvents, hRecorded 20 _ _ hRun, fun o => ?_⟩
  have hRel := hSame o 20
  rw [hRun] at hRel
  generalize hOther : run { World.pool with order := o } 20 compiled = other at hRel
  cases hRel with
  | some hExecution => exact ⟨_, _, rfl, hExecution⟩

end Stratamoto
