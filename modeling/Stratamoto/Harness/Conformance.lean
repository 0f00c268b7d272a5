import Stratamoto.Harness.Classification
import Stratamoto.Harness.Oracle

/-!
# Stratamoto — conforming roles are not reported

What a role may do, said of the deployment alone, and that the oracle has no
fault to find with it.

* `History.sentOn history c` — the frames the role behind `c` has received;
* `Frame.Replies P config m frame` — the frame is an answer to the setup `m`;
* `Deployment.Conforming S P` — the deployment is one of conforming roles;
* `Reaches.first_send` — an await that is owed an answer comes right after the
  one frame its role has received, the setup itself;
* `Reaches.await_answered` — so it is answered with what the role replies;
* `no_false_positives` — the setup oracle passes;
* `Deployment.pool` — a role that conforms.
-/

namespace Stratamoto

open Brackets Operation Runner

/-! ## Conforming roles -/

/-- A frame as it is put on a connection. -/
structure SentFrame where
  extensionType : UInt16
  messageType : UInt8
  channelMsg : Bool
  payload : List UInt8
  deriving DecidableEq, Repr

/-- The frame the exchange puts on the connection, if it does. -/
def Exchange.sentOn (connection : Nat) : Exchange → Option SentFrame
  | .send connection' extensionType messageType channelMsg payload (.ok ()) =>
    if connection' = connection then some ⟨extensionType, messageType, channelMsg, payload⟩
    else none
  | _ => none

/-- The frames put on the connection, in order. -/
def History.sentOn (history : History) (connection : Nat) : List SentFrame :=
  history.filterMap (Exchange.sentOn connection)

/-- The connection was opened to the role. -/
def History.Opened (history : History) (connection role : Nat) : Prop :=
  Exchange.connect connection role true ∈ history

/-- The frame is the setup `m`. -/
def SentFrame.IsSetup (S : Sv2) (m : SetupConnection S.Str0255) (frame : SentFrame) : Prop :=
  frame.extensionType = 0 ∧ frame.messageType = S.messageTypeSetupConnection ∧
    frame.channelMsg = false ∧ encode S m = .ok frame.payload

/-- The frame is what a role so configured may answer the setup with: an error, or
a success that it may give. -/
def Frame.Replies {Str0255 : Type} (P : ParsersSv2) (config : RoleConfig)
    (m : SetupConnection Str0255) (frame : Frame) : Prop :=
  frame.extTypeWithoutChannelMsg = 0 ∧
    ((∃ flags errorCode, frame.message P = .ok (.setupConnectionError flags errorCode)) ∨
      ∃ usedVersion flags, frame.message P = .ok (.setupConnectionSuccess usedVersion flags) ∧
        MayAccept config m.protocol m.minVersion m.maxVersion m.flags usedVersion flags)

/-- The deployment is one of conforming roles. What it does where none of this
speaks of it, it may do as it likes. -/
structure Deployment.Conforming (S : Sv2) (P : ParsersSv2) (D : Deployment) : Prop where
  /-- A connection opens to a role that the deployment has. -/
  configured : ∀ history connection role, D.Plays history →
    D.connect history connection role = true → ∃ config, D.roleConfig role = some config
  /-- On an opened connection sends succeed. -/
  sends : ∀ (history : History) (connection role : Nat) extensionType messageType channelMsg
    payload, D.Plays history → history.Opened connection role →
    D.send history connection extensionType messageType channelMsg payload = .ok ()
  /-- A role sends nothing before it has received a frame. -/
  quiet : ∀ (history : History) (connection timeout : Nat) frame, D.Plays history →
    history.sentOn connection = [] → D.recv history connection timeout ≠ .ok frame
  /-- If the first frame a role receives is a setup, the first it sends back is an
  answer to it. -/
  answers : ∀ (history : History) (connection role timeout : Nat) config m first rest frame,
    D.Plays history → history.Opened connection role → D.roleConfig role = some config →
    history.sentOn connection = first :: rest → first.IsSetup S m →
    history.framesOn connection = 0 → D.recv history connection timeout = .ok frame →
    frame.Replies P config m
  /-- It does so in time: when the clock is read right after the setup and once
  more, the deadline has not passed, and a frame arrives in what is left until it. -/
  inTime : ∀ (history : History) (connection role : Nat) m first (t₀ t₁ : Nat),
    history.Opened connection role → history.sentOn connection = [] →
    SentFrame.IsSetup S m first →
    let asked := history ++ [.send connection first.extensionType first.messageType
      first.channelMsg first.payload (.ok ())]
    D.Plays (asked ++ [.now t₀, .now t₁]) →
    t₁ < t₀ + responseTimeout ∧ ∃ frame, D.recv (asked ++ [.now t₀, .now t₁]) connection
      (t₀ + responseTimeout - t₁) = .ok frame

theorem Deployment.Plays.of_append {D : Deployment} {history later : History}
    (h : D.Plays (history ++ later)) : D.Plays history := by
  intro before x after hEq
  exact h before x (after ++ later) (by rw [hEq]; simp)

theorem History.sentOn_append (history later : History) (c : Nat) :
    History.sentOn (history ++ later) c = history.sentOn c ++ History.sentOn later c :=
  List.filterMap_append

/-- Nothing is received from a role that has received nothing. -/
theorem Deployment.framesOn_eq_zero {D : Deployment}
    (hQuiet : ∀ (history : History) (connection timeout : Nat) frame, D.Plays history →
      history.sentOn connection = [] → D.recv history connection timeout ≠ .ok frame)
    {history : History} {c : Nat} (hPlays : D.Plays history) (hNone : history.sentOn c = []) :
    history.framesOn c = 0 := by
  rw [History.framesOn, List.countP_eq_zero]
  intro x hx hFrame
  obtain ⟨before, after, rfl⟩ := List.append_of_mem hx
  have hAnswers := hPlays before x after rfl
  rw [History.sentOn_append, List.append_eq_nil_iff] at hNone
  unfold Exchange.isFrameOn at hFrame
  split at hFrame
  · obtain rfl := of_decide_eq_true hFrame
    exact hQuiet _ _ _ _ hPlays.of_append hNone.1 hAnswers
  · cases hFrame

/-- What the dispatcher makes of an answer. -/
theorem Frame.Replies.answerOf {Str0255 : Type} {P : ParsersSv2} {config : RoleConfig}
    {m : SetupConnection Str0255} {frame : Frame} (h : frame.Replies P config m) :
    frame.Decodes P ∧
      ((∃ flags errorCode, responseOf (answerOf P frame) = .error flags errorCode) ∨
        ∃ usedVersion flags, responseOf (answerOf P frame) = .success usedVersion flags ∧
          MayAccept config m.protocol m.minVersion m.maxVersion m.flags usedVersion flags) := by
  obtain ⟨hExt, ⟨flags, errorCode, hMessage⟩ | ⟨usedVersion, flags, hMessage, hMay⟩⟩ := h
  · refine ⟨⟨hExt, _, hMessage⟩, Or.inl ⟨flags, fromUtf8Lossy errorCode, ?_⟩⟩
    simp only [Stratamoto.answerOf, if_pos hExt, hMessage, responseOf]
  · refine ⟨⟨hExt, _, hMessage⟩, Or.inr ⟨usedVersion, flags, ?_, hMay⟩⟩
    simp only [Stratamoto.answerOf, if_pos hExt, hMessage, responseOf]

namespace Runner

variable {W : World}

/-! ## One await -/

/-- A pump that gets a frame in time, and one that decides the setup, ends with it. -/
theorem pump_answered {fuel c timeout t₀ t₁ : Nat} {r r' : Runner} {state : ConnectionState}
    {verdict : Except ActionOutcome Unit} {frame : Frame}
    (h : r.pump W fuel c timeout (fun state => state.setup ≠ .pending) = some (verdict, r'))
    (hState : r.states.lookup c = some state) (hPending : state.setup = .pending)
    (hOpen : c ∈ r.connections)
    (ht₀ : W.deployment.now r.history = t₀)
    (ht₁ : W.deployment.now (r.history ++ [.now t₀]) = t₁) (hLate : t₁ < t₀ + timeout)
    (hRecv : W.deployment.recv (r.history ++ [.now t₀, .now t₁]) c (t₀ + timeout - t₁) = .ok frame)
    (hDecodes : frame.Decodes W.parsers) :
    verdict = .ok () ∧ ((r'.states.lookup c).getD {}).setup = answerOf W.parsers frame := by
  have hSetup : (state.dispatch W.parsers frame).2.setup = answerOf W.parsers frame := by
    rw [dispatch_setup_of_decodes _ _ hDecodes, if_pos hPending]
  have hNotYet : decide (state.setup ≠ .pending) = false := by simp [hPending]
  have hDone : decide ((state.dispatch W.parsers frame).2.setup ≠ .pending) = true := by
    rw [hSetup]
    exact decide_eq_true (answerOf_ne_pending _ _)
  have hSplit : r.history ++ [.now t₀] ++ [.now t₁] = r.history ++ [.now t₀, .now t₁] := by simp
  simp only [pump, hState, if_neg (not_not.mpr hOpen), ht₀] at h
  obtain ⟨⟨verdict', history, state'⟩, hLoop, hOut⟩ := Option.bind_eq_some_iff.mp h
  cases hOut
  -- the first turn receives the frame, the second finds the setup decided
  cases fuel with
  | zero => cases hLoop
  | succ fuel =>
    rw [pumpLoop_of_frame (by rw [hNotYet]; exact Bool.false_ne_true) ht₁ rfl (by omega)
      (by rw [hSplit]; exact hRecv)] at hLoop
    cases fuel with
    | zero => cases hLoop
    | succ fuel =>
      simp only [pumpLoop, hDone, if_true] at hLoop
      cases hLoop
      refine ⟨rfl, ?_⟩
      show ((((r.states.insert c _)).lookup c).getD {}).setup = _
      rw [AList.lookup_insert]
      exact hSetup

/-- A connection the trace says was opened was in the exchanges. -/
theorem Reaches.opened {actions : List Action} {entries : List TraceEntry} {next c role : Nat}
    {r : Runner} (h : Reaches W actions entries next r) (hOpened : OpenedTo actions entries c role) :
    r.history.Opened c role := by
  obtain ⟨entry, hMem, hAttempted, hConnect, hOutcome⟩ := hOpened
  obtain ⟨j, hj⟩ := List.getElem?_of_mem hMem
  obtain ⟨action, r₁, r₂, hAt⟩ := h.attempted hj hAttempted
  obtain rfl := Option.some.inj (hConnect.symm.trans hAt.action_eq)
  obtain ⟨fuel, hPerform⟩ := hAt.performed
  simp only [perform, performConnect, Option.some.injEq] at hPerform
  have hExchanges := hAt.exchanges
  split at hPerform
  · rename_i hOpens
    obtain ⟨-, rfl⟩ := Prod.mk.inj hPerform
    -- the exchange of the step is the connect alone
    have hOne : entry.exchanges = [.connect c role true] := by
      rw [← hOpens]
      exact (List.append_cancel_left hExchanges).symm
    rw [History.Opened, h.history]
    exact List.mem_flatMap.mpr ⟨entry, hMem, by simp [hOne]⟩
  · rw [hOutcome] at hPerform
    cases hPerform

/-- A frame in the exchanges was put there by an action that sends it. -/
theorem Reaches.send_of_mem {actions : List Action} {entries : List TraceEntry} {next c : Nat}
    {r : Runner} (h : Reaches W actions entries next r) {extensionType : UInt16}
    {messageType : UInt8} {channelMsg : Bool} {payload : List UInt8} {result : Except Error Unit}
    (hMem : Exchange.send c extensionType messageType channelMsg payload result ∈ r.history) :
    ∃ entry ∈ entries,
      actions[entry.action]? = some (.send c extensionType messageType channelMsg payload) := by
  rw [h.history, List.mem_flatMap] at hMem
  obtain ⟨entry, hEntry, hMem⟩ := hMem
  obtain ⟨j, hj⟩ := List.getElem?_of_mem hEntry
  -- a step that is skipped exchanges nothing
  have hAttempted : entry.attempted = true := by
    by_contra hNot
    rw [Bool.not_eq_true] at hNot
    obtain ⟨_, _, _, _, _, -, hAt⟩ := h.skipped hj hNot
    rw [hAt.exchanges] at hMem
    cases hMem
  obtain ⟨action, r₁, r₂, hAt⟩ := h.attempted hj hAttempted
  obtain ⟨fuel, hPerform⟩ := hAt.performed
  obtain ⟨rfl, -⟩ := perform_send_of_exchange hPerform hAt.exchanges hMem
  exact ⟨entry, hEntry, hAt.action_eq⟩

section Await

variable {S : Sv2} {ctx : ProgramContext} {is : List Instruction}
variable {entries : List TraceEntry} {next : Nat} {r : Runner}

/-- Before a setup that is the first on its connection, nothing was put there. -/
theorem Reaches.sentOn_eq_nil (hTyped : WellTyped ctx is) {n c : Nat} {i : Instruction}
    (hi : is[n]? = some i) (hFirst : firstOn ctx (is.take n) c = true)
    (h : Reaches W (actionsOf S ctx is) entries (actionCount (is.take n)) r) :
    r.history.sentOn c = [] := by
  rw [firstOn, Bool.and_eq_true, Bool.not_eq_true'] at hFirst
  refine List.filterMap_eq_nil_iff.mpr fun x hx => ?_
  unfold Exchange.sentOn
  split
  · rename_i c' extensionType messageType channelMsg payload
    split
    · rename_i hc
      subst hc
      -- the action that sent it comes from an earlier instruction
      obtain ⟨entry, hMem, hSend⟩ := h.send_of_mem hx
      have hLt := h.lt_next (advances_of_blocks (blocks_actionsOf hTyped)) hMem
      obtain ⟨m, k, j, hFrom, hLower⟩ := exists_of_action hSend
      have hBefore : m < n := by
        by_contra hNot
        rcases Nat.lt_or_eq_of_le (Nat.not_lt.mp hNot) with hAfter | rfl
        · have := total_take_add_le Operation.numActions hi hAfter
          have := hFrom.index
          simp only [actionCount] at *
          omega
        · have := hFrom.index
          omega
      have hSends : j.sendsOn ctx c' (is.take m) = true := by
        obtain ⟨-, hc', -, ⟨protocol, hOp, -⟩ | ⟨hOp, -⟩⟩ := lower_send hLower <;>
          rw [Instruction.sendsOn, hOp, ← hc'] <;> exact beq_self_eq_true _
      have hOccurs : sentOn ctx (is.take n) c' = true :=
        occurs_take_iff.mpr ⟨m, j, hBefore, hFrom.at_index, hSends⟩
      rw [hFirst.2] at hOccurs
      cases hOccurs
    · rfl
  · rfl

/-- The send of a setup is attempted with the await of its answer. -/
theorem Reaches.own_send (hTyped : WellTyped ctx is)
    (h : Reaches W (actionsOf S ctx is) entries next r) {a n : Nat} {i : Instruction}
    {protocol : Protocol} {entry : TraceEntry} (hFrom : ComesFrom is a n 1 i)
    (hOp : i.operation = .sendSetupConnection protocol) (hEntry : entries[a]? = some entry)
    (hAttempted : entry.attempted = true) : ∃ sent r₀ r₀',
      entries.take a = entries.take (actionCount (is.take n)) ++ [sent] ∧
      sent.action = actionCount (is.take n) ∧
      Attempted W (actionsOf S ctx is) (entries.take (actionCount (is.take n))) sent
        (.send (connectionOf ctx (is.take n) (i.input 0)) 0 S.messageTypeSetupConnection false
          (payloadOf S (setupSpec ctx (is.take n) (i.input 1)))) r₀ r₀' := by
  have hIndex : a = actionCount (is.take n) + 1 := hFrom.index
  have hFrom' : ComesFrom is (actionCount (is.take n)) n 0 i :=
    ⟨hFrom.at_index, by rw [hOp]; exact Nat.two_pos, rfl⟩
  have hLen := (List.getElem?_eq_some_iff.mp hEntry).1
  obtain ⟨sent, hSent⟩ : ∃ sent, entries[actionCount (is.take n)]? = some sent :=
    ⟨_, List.getElem?_eq_getElem (by omega)⟩
  -- the two actions are in the same blocks
  have hRuns : RunsWith ctx is n n := fun b e session hBlock hb he => .around hBlock hb he
  have hTried := attempted_of_runsWith hTyped h hEntry hAttempted hFrom hSent hFrom' hRuns
  have hSentIndex := h.action_eq (advances_of_blocks (blocks_actionsOf hTyped)) hSent
  obtain ⟨action, r₀, r₀', hAt⟩ := h.attempted hSent hTried
  have hAction := hAt.action_eq
  rw [hSentIndex, hFrom'.action, lower, hOp] at hAction
  obtain rfl := Option.some.inj hAction
  refine ⟨sent, r₀, r₀', ?_, hSentIndex, hAt⟩
  rw [hIndex, List.take_add_one, hSent, Option.toList_some]

/-- An await that is owed an answer comes right after the setup, which is all that
its role has received, and no frame has come from there yet. -/
theorem Reaches.first_send (hConforming : W.deployment.Conforming S W.parsers)
    (hTyped : WellTyped ctx is) (h : Reaches W (actionsOf S ctx is) entries next r) {a n : Nat}
    {i : Instruction} {protocol : Protocol} {entry : TraceEntry} (hFrom : ComesFrom is a n 1 i)
    (hOp : i.operation = .sendSetupConnection protocol)
    (hFirst : firstOn ctx (is.take n) (connectionOf ctx (is.take n) (i.input 0)) = true)
    (hEntry : entries[a]? = some entry) (hAttempted : entry.attempted = true) {role : Nat}
    (hOpened : OpenedTo (actionsOf S ctx is) (entries.take a)
      (connectionOf ctx (is.take n) (i.input 0)) role) {r₁ : Runner}
    (h₁ : Reaches W (actionsOf S ctx is) (entries.take a) a r₁) : ∃ history : History,
      r₁.history = history ++ [.send (connectionOf ctx (is.take n) (i.input 0)) 0
        S.messageTypeSetupConnection false
        (payloadOf S (setupSpec ctx (is.take n) (i.input 1))) (.ok ())] ∧
      W.deployment.Plays history ∧
      history.Opened (connectionOf ctx (is.take n) (i.input 0)) role ∧
      history.sentOn (connectionOf ctx (is.take n) (i.input 0)) = [] := by
  obtain ⟨sent, r₀, r₀', hTake, hIndex, hAt⟩ := h.own_send hTyped hFrom hOp hEntry hAttempted
  -- the connection was open before the send
  have hOpenedBefore : OpenedTo (actionsOf S ctx is) (entries.take (actionCount (is.take n)))
      (connectionOf ctx (is.take n) (i.input 0)) role := by
    rw [hTake, openedTo_snoc] at hOpened
    refine hOpened.resolve_right fun hConnect => ?_
    rw [hAt.action_eq] at hConnect
    cases hConnect.2.1
  have hReaches := hAt.reaches
  have hOpen := ((linked_actionsOf hTyped hReaches).connections _).mpr ⟨role, hOpenedBefore⟩
  have hResult := hConforming.sends r₀.history _ role 0 S.messageTypeSetupConnection false
    (payloadOf S (setupSpec ctx (is.take n) (i.input 1))) hReaches.plays
    (hReaches.opened hOpenedBefore)
  obtain ⟨fuel, hPerform⟩ := hAt.performed
  simp only [perform, performSend, if_neg (not_not.mpr hOpen), hResult, Option.some.injEq]
    at hPerform
  obtain ⟨-, rfl⟩ := Prod.mk.inj hPerform
  refine ⟨r₀.history, ?_, hReaches.plays, hReaches.opened hOpenedBefore, ?_⟩
  · have hOne := List.append_cancel_left hAt.exchanges
    rw [h₁.history, hTake, List.flatMap_append, ← hReaches.history, List.flatMap_singleton, ← hOne]
  · rw [hIndex] at hReaches
    exact hReaches.sentOn_eq_nil hTyped hFrom.at_index hFirst

/-- An await that is owed an answer, and found its connection open, is answered
with what the role replies to the setup. -/
theorem Reaches.await_answered (hConforming : W.deployment.Conforming S W.parsers)
    (hTyped : WellTyped ctx is) (h : Reaches W (actionsOf S ctx is) entries next r)
    {a n c session : Nat} {i : Instruction} {protocol : Protocol} {entry : TraceEntry}
    (hAwait : (actionsOf S ctx is)[a]? = some (.awaitSetupResponse c session protocol true))
    (hFrom : ComesFrom is a n 1 i) (hOp : i.operation = .sendSetupConnection protocol)
    (hc : c = connectionOf ctx (is.take n) (i.input 0))
    (hFirst : firstOn ctx (is.take n) c = true) (hEntry : entries[a]? = some entry)
    (hAttempted : entry.attempted = true) (hNot : ∀ unmet, entry.outcome ≠ .skipped unmet)
    {role : Nat} {config : RoleConfig} (hOpened : OpenedTo (actionsOf S ctx is) entries c role)
    (hConfig : W.deployment.roleConfig role = some config) {m : SetupConnection S.Str0255}
    (hEncode : encode S m = .ok (payloadOf S (setupSpec ctx (is.take n) (i.input 1)))) :
    ∃ frame, frame.Replies W.parsers config m ∧
      entry.outcome = .completed (.setup (responseOf (answerOf W.parsers frame))) := by
  have hLinked := linked_actionsOf hTyped h
  -- the connection was open at the await already, to its one role
  have hOpenedThen : OpenedTo (actionsOf S ctx is) (entries.take a) c role := by
    obtain ⟨role', hRole'⟩ := opened_of_await hTyped h hEntry hAttempted hNot hAwait
    obtain ⟨e, hMem, hOpens⟩ := hRole'
    have hLater : OpenedTo (actionsOf S ctx is) entries c role' :=
      ⟨e, List.mem_of_mem_take hMem, hOpens⟩
    have hSame := ((hLinked.roles c role).mpr hOpened).symm.trans ((hLinked.roles c role').mpr hLater)
    rw [Option.some.inj hSame]
    exact ⟨e, hMem, hOpens⟩
  obtain ⟨action, r₁, r₂, hAt⟩ := h.attempted hEntry hAttempted
  have hReaches := hAt.reaches
  have hAction := hAt.action_eq
  rw [h.action_eq (advances_of_blocks (blocks_actionsOf hTyped)) hEntry] at hReaches hAction
  obtain rfl := Option.some.inj (hAwait.symm.trans hAction)
  subst hc
  obtain ⟨history, hHistory, hPlays, hWasOpened, hNone⟩ := h.first_send hConforming hTyped hFrom hOp
    hFirst hEntry hAttempted hOpenedThen hReaches
  set c := connectionOf ctx (is.take n) (i.input 0) with hc
  set payload := payloadOf S (setupSpec ctx (is.take n) (i.input 1)) with hPayload
  set t₀ := W.deployment.now r₁.history with ht₀
  set t₁ := W.deployment.now (r₁.history ++ [.now t₀]) with ht₁
  -- the clock is read twice before the role is listened to
  have hPlays₁ : W.deployment.Plays (r₁.history ++ [.now t₀, .now t₁]) := by
    rw [show r₁.history ++ [.now t₀, .now t₁] = (r₁.history ++ [.now t₀]) ++ [.now t₁] by simp]
    exact Deployment.plays_snoc.mpr ⟨Deployment.plays_snoc.mpr ⟨hReaches.plays, rfl⟩, rfl⟩
  have hSetup : SentFrame.IsSetup S m ⟨0, S.messageTypeSetupConnection, false, payload⟩ :=
    ⟨rfl, rfl, rfl, hEncode⟩
  obtain ⟨hLate, frame, hRecv⟩ := hConforming.inTime history c role m _ t₀ t₁ hWasOpened hNone hSetup
    (by rw [← hHistory]; exact hPlays₁)
  rw [← hHistory] at hRecv
  have hSentOn : History.sentOn (r₁.history ++ [.now t₀, .now t₁]) c =
      [⟨0, S.messageTypeSetupConnection, false, payload⟩] := by
    rw [hHistory, History.sentOn_append, History.sentOn_append, hNone]
    simp [History.sentOn, Exchange.sentOn]
  have hNoFrame : History.framesOn (r₁.history ++ [.now t₀, .now t₁]) c = 0 := by
    have hBefore := Deployment.framesOn_eq_zero hConforming.quiet hPlays hNone
    rw [History.framesOn] at hBefore ⊢
    rw [hHistory, List.countP_append, List.countP_append, hBefore]
    rfl
  have hReplies := hConforming.answers _ c role _ config m _ _ frame hPlays₁
    (List.mem_append_left _ (hReaches.opened hOpenedThen)) hConfig hSentOn hSetup hNoFrame hRecv
  refine ⟨frame, hReplies, ?_⟩
  obtain ⟨fuel, hPerform⟩ := hAt.performed
  rcases awaitSetupResponse_cases hPerform with
    ⟨-, hSkipped, -⟩ | ⟨state, verdict, r₃, hState, hPump, hOutcome, -, -⟩
  · exact absurd hSkipped (hNot _)
  · rw [if_pos rfl] at hPump
    have hOpen : c ∈ r₁.connections :=
      ((linked_actionsOf hTyped hReaches).connections c).mpr ⟨role, hOpenedThen⟩
    obtain ⟨rfl, hAnswer⟩ := pump_answered hPump (AList.lookup_insert r₁.states) rfl hOpen rfl rfl
      hLate hRecv hReplies.answerOf.1
    rw [hOutcome, ← hAnswer]

/-- What a role answered is within what it may answer, if an answer was owed. -/
theorem Reaches.check_await (hS : S.Lawful) (hConforming : W.deployment.Conforming S W.parsers)
    (hTyped : WellTyped ctx is) (hShort : NoneTooLong ctx is)
    (h : Reaches W (actionsOf S ctx is) entries next r) {a n c session : Nat} {i : Instruction}
    {protocol : Protocol} {first owed : Bool} {entry : TraceEntry}
    (hAwait : (actionsOf S ctx is)[a]? = some (.awaitSetupResponse c session protocol first))
    (hFrom : ComesFrom is a n 1 i) (hOp : i.operation = .sendSetupConnection protocol)
    (hc : c = connectionOf ctx (is.take n) (i.input 0)) (hFirst : first = firstOn ctx (is.take n) c)
    (hEntry : entries[a]? = some entry) {role : Nat} {config : RoleConfig}
    (hOpened : OpenedTo (actionsOf S ctx is) entries c role)
    (hConfig : W.deployment.roleConfig role = some config) (hOwed : owed = true → first = true) :
    check config (setupSpec ctx (is.take n) (i.input 1)) owed entry.outcome = .ok () := by
  by_cases hSkipped : ∃ unmet, entry.outcome = .skipped unmet
  · obtain ⟨unmet, hSkipped⟩ := hSkipped
    rw [hSkipped]
    exact check_skipped _ _ _ _
  · have hNot := not_exists.mp hSkipped
    have hAttempted : entry.attempted = true := by
      by_contra hUntried
      rw [Bool.not_eq_true] at hUntried
      obtain ⟨_, _, _, _, _, -, hAt⟩ := h.skipped hEntry hUntried
      exact hNot _ hAt.outcome
    cases owed with
    | false => exact check_not_owed _ _ _
    | true =>
      obtain rfl := hOwed rfl
      -- the setup that is judged is the one on the wire
      obtain ⟨m, hRepresents, hEncode⟩ :=
        encode_payloadOf hS (setupSpec_not_tooLong hTyped hShort hFrom.at_index hOp)
      obtain ⟨frame, hReplies, hAnswered⟩ := h.await_answered hConforming hTyped hAwait hFrom hOp hc
        hFirst.symm hEntry hAttempted hNot hOpened hConfig hEncode
      rw [hAnswered]
      obtain ⟨-, ⟨flags, errorCode, hError⟩ | ⟨usedVersion, flags, hSuccess, hMay⟩⟩ :=
        hReplies.answerOf
      · rw [hError]
        exact check_error _ _ _ _ _
      · rw [hSuccess, check_success_iff, protocolOf_eq hS hRepresents.protocol,
          ← hRepresents.minVersion, ← hRepresents.maxVersion, ← hRepresents.flags]
        exact hMay

/-- What is recorded of an await: an entry with its outcome, and its setup. -/
theorem Reaches.await_recorded {metadata : CompiledMetadata} (hTyped : WellTyped ctx is)
    (hDescribes : Describes ctx is metadata) (h : Reaches W (actionsOf S ctx is) entries next r)
    (hEnd : (actionsOf S ctx is).length ≤ next) {a c session : Nat} {protocol : Protocol}
    {first : Bool}
    (hAwait : (actionsOf S ctx is)[a]? = some (.awaitSetupResponse c session protocol first)) :
    ∃ n i entry, ComesFrom is a n 1 i ∧ i.operation = .sendSetupConnection protocol ∧
      c = connectionOf ctx (is.take n) (i.input 0) ∧ first = firstOn ctx (is.take n) c ∧
      entries[a]? = some entry ∧ r.execution.outcomes[a]? = some entry.outcome ∧
      metadata.sessionSetups.lookup session = some (setupSpec ctx (is.take n) (i.input 1)) := by
  obtain ⟨n, i, hFrom, hOp, hc, hSession, hFirst⟩ := await_session hAwait
  have hLt := (List.getElem?_eq_some_iff.mp hAwait).1
  -- the run is over, so the await has an entry
  obtain ⟨entry, hEntry⟩ := exists_entry hTyped h (Nat.lt_of_lt_of_le hLt hEnd)
  refine ⟨n, i, entry, hFrom, hOp, hc, hFirst, hEntry, ?_, ?_⟩
  · rw [h.outcomes, List.getElem?_map, hEntry, Option.map_some]
  · exact (hDescribes.sessionSetups _ _).mpr ⟨n, i, hFrom.at_index, by
      rw [sessionEntry, if_pos (by rw [hOp]; rfl), hSession]⟩

end Await

end Runner

/-! ## No false positives -/

/-- **Conforming roles are not reported.** Of a statically valid program that
compiles, the setup oracle passes whatever run a deployment of conforming roles
gives it; and there is one, unless the deployment yields frames forever. -/
theorem no_false_positives {S : Sv2} (hS : S.Lawful) {W : World} {p : Program}
    {compiled : CompiledProgram} (hConforming : W.deployment.Conforming S W.parsers)
    (hValid : p.isStaticallyValid = .ok true) (hCompile : Compiler.compile S p = .ok compiled) :
    (∀ fuel execution entries, run W fuel compiled = some (execution, entries) →
      SetupConnectionOracle.evaluate W.deployment compiled execution = .pass) ∧
    (W.deployment.FiniteFrames → ∃ n execution entries, ∀ fuel, n ≤ fuel →
      run W fuel compiled = some (execution, entries)) := by
  obtain ⟨hTyped, hActions, hDescribes⟩ := compiled_of_valid hS hValid hCompile
  refine ⟨fun fuel execution entries hRun => ?_, fun hFinite => ?_⟩
  · obtain ⟨next, r, hReaches, hEnd, rfl⟩ := run_reaches hRun
    rw [hActions] at hReaches hEnd
    refine SetupConnectionOracle.evaluate_eq_pass_iff.mpr fun a action hAction => ?_
    -- only awaits are judged
    cases action with
    | awaitSetupResponse c session protocol first =>
      rw [hActions] at hAction
      obtain ⟨n, i, entry, hFrom, hOp, hc, hFirst, hEntry, hOutcome, hSpec⟩ :=
        hReaches.await_recorded hTyped hDescribes hEnd hAction
      refine SetupConnectionOracle.judge_eq_none hOutcome hSpec fun role hRole => ?_
      have hOpened := ((linked_actionsOf hTyped hReaches).roles c role).mp hRole
      -- a connection that was opened has a role that is configured
      obtain ⟨config, hConfig⟩ : ∃ config, W.deployment.roleConfig role = some config := by
        obtain ⟨before, after, hHistory⟩ := List.append_of_mem (hReaches.opened hOpened)
        have hPlays := hReaches.plays
        rw [hHistory] at hPlays
        exact hConforming.configured before c role hPlays.of_append (hPlays _ _ _ rfl)
      have hShort := noneTooLong_of_compile hS hTyped hCompile
      exact ⟨config, hConfig, hReaches.check_await hS hConforming hTyped hShort hAction hFrom hOp hc
        hFirst hEntry hOpened hConfig fun hOwed => (Bool.and_eq_true_iff.mp hOwed).1⟩
    | _ => rfl
  · have hAdvances := advances_of_blocks (blocks_actionsOf (S := S) hTyped)
    obtain ⟨⟨execution, entries⟩, n, hRun⟩ := run_settles hFinite (hActions ▸ hAdvances)
    exact ⟨n, execution, entries, hRun⟩

/-! ## A conforming role -/

def Frame.success : Frame := ⟨0, 0x01, [2, 0, 0, 0, 0, 0], by decide⟩

def Frame.refusal : Frame := ⟨0, 0x02, [0, 0, 0, 0, 0], by decide⟩

/-- The answer of a role that serves mining at version 2 to the first frame it
receives: the protocol and the versions stand first in a setup. -/
def poolAnswer : List UInt8 → Frame
  | protocol :: min₀ :: min₁ :: max₀ :: max₁ :: _ =>
    if protocol = 0 ∧ min₀.toNat + 256 * min₁.toNat ≤ 2 ∧ 2 ≤ max₀.toNat + 256 * max₁.toNat then
      Frame.success
    else Frame.refusal
  | _ => Frame.refusal

/-- Such a role behind every connection, which sends nothing but that answer. -/
def Deployment.pool : Deployment where
  connect := fun _ _ _ => true
  send := fun _ _ _ _ _ _ => .ok ()
  recv := fun history connection _ =>
    match history.sentOn connection with
    | [] => .error .timeout
    | first :: _ =>
      if history.framesOn connection = 0 then .ok (poolAnswer first.payload) else .error .timeout
  now := fun _ => 0
  roleConfig := fun _ => some (.new .miningProtocol)
  numRoles := 1
  isAlive := fun _ => true

def World.pool : World := ⟨.pool, .common, .ascending⟩

theorem encode_wire (m : SetupConnection Sv2.wire.Str0255) : encode Sv2.wire m = .ok m.bytes := by
  have hWritten : Sv2.wire.toWriter m (List.replicate (Sv2.wire.getSize m) 0) = .ok m.bytes := by
    simp [Sv2.wire]
  rw [encode, hWritten]

theorem littleEndian_two (v : UInt16) :
    (UInt8.ofNat (v.toNat % 256)).toNat + 256 * (UInt8.ofNat (v.toNat / 256 % 256)).toNat =
      v.toNat := by
  have hLt := v.toNat_lt
  rw [UInt8.toNat_ofNat', UInt8.toNat_ofNat']
  omega

/-- What the role answers a setup with is what it may answer. -/
theorem poolAnswer_replies {m : SetupConnection Sv2.wire.Str0255} {payload : List UInt8}
    (h : encode Sv2.wire m = .ok payload) :
    (poolAnswer payload).Replies .common (.new .miningProtocol) m := by
  obtain rfl := Except.ok.inj ((encode_wire m).symm.trans h)
  -- the bytes of the versions are read back
  have hAnswer : poolAnswer m.bytes =
      if m.protocol.id = 0 ∧ m.minVersion.toNat ≤ 2 ∧ 2 ≤ m.maxVersion.toNat then Frame.success
      else Frame.refusal := by
    rw [← littleEndian_two m.minVersion, ← littleEndian_two m.maxVersion]
    rfl
  rw [hAnswer]
  split
  · rename_i hAccepts
    obtain ⟨hProtocol, hMin, hMax⟩ := hAccepts
    have hServes : m.protocol = .miningProtocol := by
      cases hw : m.protocol with
      | miningProtocol => rfl
      | _ => rw [hw] at hProtocol; cases hProtocol
    refine ⟨rfl, Or.inr ⟨2, 0, rfl, hServes, ⟨?_, ?_⟩, ⟨by decide, by decide⟩, fun _ _ => rfl⟩⟩
    · exact UInt16.le_iff_toNat_le.mpr hMin
    · exact UInt16.le_iff_toNat_le.mpr hMax
  · exact ⟨rfl, Or.inl ⟨0, [], rfl⟩⟩

theorem Deployment.pool_unsent {history : History} {c : Nat} (hNone : history.sentOn c = [])
    (timeout : Nat) : Deployment.pool.recv history c timeout = .error .timeout := by
  show (match history.sentOn c with | [] => _ | _ :: _ => _) = _
  rw [hNone]

theorem Deployment.pool_quiet (history : History) (c timeout : Nat) (frame : Frame)
    (hNone : history.sentOn c = []) : Deployment.pool.recv history c timeout ≠ .ok frame := by
  rw [pool_unsent hNone]
  nofun

theorem Deployment.pool_recv {history : History} {c : Nat} {first : SentFrame}
    {rest : List SentFrame} (hSent : history.sentOn c = first :: rest) (timeout : Nat) :
    Deployment.pool.recv history c timeout =
      if history.framesOn c = 0 then .ok (poolAnswer first.payload) else .error .timeout := by
  show (match history.sentOn c with | [] => _ | _ :: _ => _) = _
  rw [hSent]

theorem Deployment.pool_conforming : Deployment.pool.Conforming Sv2.wire .common where
  configured := fun _ _ _ _ _ => ⟨_, rfl⟩
  sends := fun _ _ _ _ _ _ _ _ _ => rfl
  quiet := fun history c timeout frame _ hNone => pool_quiet history c timeout frame hNone
  answers := fun history c role timeout config m first rest frame _ _ hConfig hSent hSetup hFrames
      hRecv => by
    cases hConfig
    rw [pool_recv hSent, if_pos hFrames] at hRecv
    cases hRecv
    exact poolAnswer_replies hSetup.2.2.2
  inTime := fun history c role m first t₀ t₁ hOpened hNone hSetup => by
    intro asked hPlays
    have hClock : Deployment.pool.Plays ((asked ++ [.now t₀]) ++ [.now t₁]) := by simpa using hPlays
    obtain ⟨hEarlier, rfl⟩ := Deployment.plays_snoc.mp hClock
    obtain ⟨hAsked, rfl⟩ := Deployment.plays_snoc.mp hEarlier
    have hSent : History.sentOn (asked ++ [.now 0, .now 0]) c = [first] := by
      rw [History.sentOn_append, History.sentOn_append, hNone]
      simp [History.sentOn, Exchange.sentOn]
    -- before the first message no frame can have arrived, so this is the first read
    have hFrames : History.framesOn (asked ++ [.now 0, .now 0]) c = 0 := by
      have hBefore := framesOn_eq_zero (fun history c timeout frame _ =>
        pool_quiet history c timeout frame) (Deployment.plays_snoc.mp hAsked).1 hNone
      rw [History.framesOn] at hBefore ⊢
      rw [List.countP_append, List.countP_append, hBefore]
      rfl
    refine ⟨show 0 < 0 + responseTimeout by decide, poolAnswer first.payload, ?_⟩
    show Deployment.pool.recv (asked ++ [.now 0, .now 0]) c _ = _
    rw [pool_recv hSent, if_pos hFrames]

/-- The role agrees to the one setup, and the oracle passes. -/
theorem no_false_positives_pool : ∃ compiled execution entries,
    Compiler.compile Sv2.wire singleSetup = .ok compiled ∧
    run .pool 20 compiled = some (execution, entries) ∧
    execution.outcomes[2]? = some (.completed (.setup (.success 2 0))) ∧
    SetupConnectionOracle.evaluate World.pool.deployment compiled execution = .pass := by
  obtain ⟨compiled, execution, entries, hCompile, hRun, hAnswered⟩ :
      ∃ compiled execution entries, Compiler.compile Sv2.wire singleSetup = .ok compiled ∧
        run .pool 20 compiled = some (execution, entries) ∧
        execution.outcomes[2]? = some (.completed (.setup (.success 2 0))) :=
    ⟨_, _, _, rfl, rfl, rfl⟩
  exact ⟨compiled, execution, entries, hCompile, hRun, hAnswered,
    (no_false_positives (W := .pool) Sv2.wire_lawful Deployment.pool_conforming (by decide)
      hCompile).1 20 execution entries hRun⟩

end Stratamoto
