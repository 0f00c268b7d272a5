import Stratamoto.Harness.Totality
import Stratamoto.IR.Actions

/-!
# Stratamoto — success blocks at run time

An action runs exactly when every success block around it was agreed to before.

* `Agreed actions trace session` — an await of the session was answered with a success;
* `Reaches.established_iff` — the runner's sessions say what the trace says;
* `Reaches.inside` — the main loop is inside blocks that were agreed to only;
* `Reaches.agreed_of_attempted`, `Reaches.skipped_outermost` — over a flat list of actions;
* `attempted_iff_agreed` — over the nesting of the source.
-/

namespace Stratamoto

namespace Runner

variable {W : World} {actions : List Action} {entries : List TraceEntry} {next : Nat} {r : Runner}

/-! ## Sessions that were agreed to -/

/-- The entry is of an await of the session, answered with a success. -/
def TraceEntry.Agrees (actions : List Action) (session : Nat) (entry : TraceEntry) : Prop :=
  entry.attempted = true ∧
    (∃ connection protocol first, actions[entry.action]? =
      some (.awaitSetupResponse connection session protocol first)) ∧
    ∃ usedVersion flags, entry.outcome = .completed (.setup (.success usedVersion flags))

/-- The server agreed to the session's setup, as far as the trace goes. -/
def Agreed (actions : List Action) (entries : List TraceEntry) (session : Nat) : Prop :=
  ∃ entry ∈ entries, entry.Agrees actions session

theorem Agreed.mono {session : Nat} {later : List TraceEntry} (h : Agreed actions entries session)
    (hSub : ∀ entry ∈ entries, entry ∈ later) : Agreed actions later session := by
  obtain ⟨entry, hMem, hAgrees⟩ := h
  exact ⟨entry, hSub entry hMem, hAgrees⟩

theorem established_iff {s : Nat} : r.established s = true ↔
    ∃ old v f, r.execution.sessions.lookup s = some old ∧ old.response = .success v f := by
  unfold established
  cases r.execution.sessions.lookup s with
  | none => simp
  | some old => cases hResponse : old.response <;> simp [hResponse]

theorem established_insert {sessions : HashMap Session} {s session : Nat} {new : Session}
    (hSessions : r.execution.sessions = sessions.insert session new) :
    r.established s = true ↔
      if s = session then ∃ v f, new.response = .success v f
      else ∃ old v f, sessions.lookup s = some old ∧ old.response = .success v f := by
  rw [established_iff, hSessions]
  by_cases hs : s = session
  · subst hs
    simp [AList.lookup_insert]
  · rw [AList.lookup_insert_ne hs, if_neg hs]

theorem sessionResponse_success {outcome : ActionOutcome} {v : UInt16} {f : UInt32} :
    sessionResponse outcome = .success v f ↔ outcome = .completed (.setup (.success v f)) := by
  unfold sessionResponse
  split <;> simp_all

/-- One action: the sessions established after it are those established before,
and the one it awaited if that was answered with a success. -/
theorem perform_established {fuel : Nat} {r' : Runner} {action : Action} {outcome : ActionOutcome}
    (h : r.perform W fuel action = some (outcome, r')) {s : Nat}
    (hFirst : r.established s = true → ∀ c protocol first,
      action ≠ .awaitSetupResponse c s protocol first) :
    r'.established s = true ↔ r.established s = true ∨
      (∃ c protocol first, action = .awaitSetupResponse c s protocol first) ∧
        ∃ v f, outcome = .completed (.setup (.success v f)) := by
  rcases perform_sessions h with ⟨hSame, hSkipped⟩ | ⟨c, session, protocol, first, rfl, hInsert⟩
  · -- no session is recorded: nothing changes, and an await that was skipped is no success
    have hEq : r'.established s = r.established s := by
      unfold established
      rw [hSame]
    rw [hEq]
    refine ⟨Or.inl, fun hEither => ?_⟩
    rcases hEither with hBefore | ⟨⟨c, protocol, first, rfl⟩, v, f, rfl⟩
    · exact hBefore
    · cases hSkipped c s protocol first rfl
  · rw [established_insert hInsert]
    -- only the session of the await is recorded
    by_cases hs : s = session
    · subst hs
      rw [if_pos rfl]
      have hNot : ¬ r.established s = true := fun hBefore => hFirst hBefore c protocol first rfl
      constructor
      · rintro ⟨v, f, hResponse⟩
        exact Or.inr ⟨⟨c, protocol, first, rfl⟩, v, f, sessionResponse_success.mp hResponse⟩
      · rintro (hBefore | ⟨-, v, f, hOutcome⟩)
        · exact absurd hBefore hNot
        · exact ⟨v, f, sessionResponse_success.mpr hOutcome⟩
    · rw [if_neg hs, ← established_iff]
      refine ⟨Or.inl, fun hEither => ?_⟩
      rcases hEither with hBefore | ⟨⟨c', protocol', first', hEq⟩, -⟩
      · exact hBefore
      · cases hEq
        exact absurd rfl hs

/-! ## Blocks of the list of actions -/

section Blocks

variable (hBlocks : Blocks actions)

include hBlocks

theorem lastSkipped_eq {a session exit : Nat}
    (h : actions[a]? = some (.enterOnSetupSuccess session exit)) :
    lastSkipped actions exit = exit := by
  have := hBlocks.closed a session exit h
  rw [lastSkipped]
  omega

theorem advances_of_blocks : Advances actions := by
  intro a session exit h
  rw [lastSkipped_eq hBlocks h]
  exact Nat.le_of_lt (hBlocks.closed a session exit h).1

/-- The sessions of the runner are those the trace says were agreed to. -/
theorem Reaches.established_iff (h : Reaches W actions entries next r) (session : Nat) :
    r.established session = true ↔ Agreed actions entries session := by
  induction h with
  | start => exact iff_of_false (by simp [established, Runner.start]) (by simp [Agreed])
  | @skip entries next exit r action unmet hReaches hAction hUnmet ih =>
    show r.established session = true ↔ _
    rw [ih]
    refine ⟨fun hAgreed => hAgreed.mono fun entry hMem => List.mem_append_left _ hMem, ?_⟩
    rintro ⟨entry, hMem, hAgrees⟩
    rcases List.mem_append.mp hMem with hMem | hMem
    · exact ⟨entry, hMem, hAgrees⟩
    · have := (mem_skippedEntries hMem).2.2.1
      rw [hAgrees.1] at this
      cases this
  | @attempt entries next fuel r r' action outcome hReaches hAction hMet hPerform ih =>
    -- a session is awaited by one action, so it was not established before its own
    have hFirst : r.established session = true → ∀ c protocol first,
        action ≠ .awaitSetupResponse c session protocol first := by
      rintro hBefore c protocol first rfl
      obtain ⟨entry, hMem, -, ⟨c', protocol', first', hAwait⟩, -⟩ := ih.mp hBefore
      have hEq := hBlocks.once _ _ _ _ _ _ _ _ _ hAwait hAction
      have := hReaches.lt_next (advances_of_blocks hBlocks) hMem
      omega
    show r'.established session = true ↔ _
    rw [perform_established hPerform hFirst, ih]
    constructor
    · rintro (hAgreed | ⟨⟨c, protocol, first, rfl⟩, hOutcome⟩)
      · exact hAgreed.mono fun entry hMem => List.mem_append_left _ hMem
      · exact ⟨_, List.mem_append_right _ (List.mem_singleton_self _), rfl,
          ⟨c, protocol, first, hAction⟩, hOutcome⟩
    · rintro ⟨entry, hMem, hAgrees⟩
      rcases List.mem_append.mp hMem with hMem | hMem
      · exact Or.inl ⟨entry, hMem, hAgrees⟩
      · rw [List.mem_singleton] at hMem
        subst hMem
        obtain ⟨-, ⟨c, protocol, first, hAwait⟩, hOutcome⟩ := hAgrees
        exact Or.inr ⟨⟨c, protocol, first, Option.some.inj (hAction.symm.trans hAwait)⟩, hOutcome⟩

/-- The main loop gets past an enter and not past its exit only where the server
agreed to the setup. -/
theorem Reaches.inside (h : Reaches W actions entries next r) {enter session exit : Nat}
    (hEnter : actions[enter]? = some (.enterOnSetupSuccess session exit)) (hLt : enter < next)
    (hLe : next ≤ exit) : Agreed actions entries session := by
  induction h with
  | start => exact absurd hLt (Nat.not_lt_zero enter)
  | @skip entries next exit' r action unmet hReaches hAction hUnmet ih =>
    obtain ⟨session', rfl, -, -⟩ := unmetPrerequisite_eq_some_iff.mp hUnmet
    rw [lastSkipped_eq hBlocks hAction] at hLt hLe ⊢
    have hClosed := hBlocks.closed next session' exit' hAction
    -- a block that starts within the one skipped ends within it
    have hBefore : enter < next := by
      rcases Nat.lt_trichotomy enter next with hBefore | rfl | hAfter
      · exact hBefore
      · cases Option.some.inj (hEnter.symm.trans hAction)
        omega
      · have := hBlocks.nested _ _ _ _ _ _ hAction hEnter hAfter (by omega)
        omega
    exact (ih hBefore (by omega)).mono fun entry hMem => List.mem_append_left _ hMem
  | @attempt entries next fuel r r' action outcome hReaches hAction hMet hPerform ih =>
    refine Agreed.mono ?_ fun entry hMem => List.mem_append_left _ hMem
    rcases Nat.lt_or_eq_of_le (Nat.le_of_lt_succ hLt) with hBefore | rfl
    · exact ih hBefore (by omega)
    · cases Option.some.inj (hEnter.symm.trans hAction)
      rw [← hReaches.established_iff hBlocks]
      by_contra hNot
      rw [unmetPrerequisite, if_neg hNot] at hMet
      cases hMet

theorem Reaches.length_take (h : Reaches W actions entries next r) {i : Nat} (hi : i ≤ next) :
    (entries.take i).length = i := by
  have := congrArg List.length (h.covers (advances_of_blocks hBlocks)).1
  rw [List.length_map, List.length_range] at this
  rw [List.length_take]
  omega

/-- Of a reachable state, every block around an attempted action was agreed to
before it. -/
theorem Reaches.agreed_of_attempted (h : Reaches W actions entries next r) {a : Nat}
    {entry : TraceEntry} (hEntry : entries[a]? = some entry) (hAttempted : entry.attempted = true)
    {enter session exit : Nat}
    (hEnter : actions[enter]? = some (.enterOnSetupSuccess session exit)) (hLe : enter ≤ a)
    (hExit : a ≤ exit) : Agreed actions (entries.take a) session := by
  obtain ⟨action, r₁, r₂, hAt⟩ := h.attempted hEntry hAttempted
  have hIndex := h.action_eq (advances_of_blocks hBlocks) hEntry
  have hReaches := hAt.reaches
  have hAction := hAt.action_eq
  rw [hIndex] at hReaches hAction
  -- inside the block, or at its begin, which was met
  rcases Nat.lt_or_eq_of_le hLe with hLt | rfl
  · exact hReaches.inside hBlocks hEnter hLt hExit
  · cases Option.some.inj (hEnter.symm.trans hAction)
    rw [← hReaches.established_iff hBlocks]
    by_contra hNot
    have hMet := hAt.met
    rw [unmetPrerequisite, if_neg hNot] at hMet
    cases hMet

/-- An action that is skipped is skipped for the outermost block around it that
was not agreed to. -/
theorem Reaches.skipped_outermost (h : Reaches W actions entries next r) {a : Nat}
    {entry : TraceEntry} (hEntry : entries[a]? = some entry) (hSkipped : entry.attempted = false) :
    ∃ enter session exit, actions[enter]? = some (.enterOnSetupSuccess session exit) ∧
      enter ≤ a ∧ a ≤ exit ∧ ¬ Agreed actions (entries.take a) session ∧
      (∀ enter' session' exit', actions[enter']? = some (.enterOnSetupSuccess session' exit') →
        enter' < enter → a ≤ exit' → Agreed actions (entries.take a) session') ∧
      entry.outcome = .skipped (.setupSuccess session) ∧ entry.exchanges = [] := by
  -- the enter that skipped the action, and the runner that came to it
  obtain ⟨j, enter, session, exit, r₁, hj, hAt⟩ := h.skipped hEntry hSkipped
  have hIndex := h.action_eq (advances_of_blocks hBlocks) hEntry
  have hLe := hAt.enter_le
  have hExit := hAt.le_exit
  rw [lastSkipped_eq hBlocks hAt.action_eq] at hExit
  rw [hIndex] at hLe hExit
  -- what was agreed before the enter was agreed before the action
  have hSub : ∀ e ∈ entries.take j, e ∈ entries.take a := fun e hMem =>
    (List.take_prefix_take_left hj).subset hMem
  refine ⟨enter, session, exit, hAt.action_eq, hLe, hExit, ?_, ?_, hAt.outcome, hAt.exchanges⟩
  · rintro ⟨e, hMem, hAgrees⟩
    obtain ⟨k, hka, hk⟩ := getElem?_of_mem_take hMem
    have hkIndex := h.action_eq (advances_of_blocks hBlocks) hk
    rcases Nat.lt_or_ge k enter with hBefore | hAfter
    · -- before the enter: then its session was established
      have hLength : j = enter := by
        have hCovers := congrArg List.length (hAt.reaches.covers (advances_of_blocks hBlocks)).1
        have := (List.getElem?_eq_some_iff.mp hEntry).1
        rw [List.length_map, List.length_range, List.length_take] at hCovers
        omega
      have hEarly : Agreed actions (entries.take j) session :=
        ⟨e, mem_take_of_getElem? hk (by omega), hAgrees⟩
      rw [← hAt.reaches.established_iff hBlocks, hAt.unmet] at hEarly
      cases hEarly
    · -- within the block: its own session would have been agreed to before
      have hWithin := h.agreed_of_attempted hBlocks hk hAgrees.1 hAt.action_eq hAfter (by omega)
      obtain ⟨e', hMem', -, ⟨c', p', f', hAwait'⟩, -⟩ := hWithin
      obtain ⟨-, ⟨c, p, f, hAwait⟩, -⟩ := hAgrees
      obtain ⟨k', hk'k, hk'⟩ := getElem?_of_mem_take hMem'
      have hk'Index := h.action_eq (advances_of_blocks hBlocks) hk'
      have := hBlocks.once _ _ _ _ _ _ _ _ _ hAwait hAwait'
      omega
  · intro enter' session' exit' hEnter' hLt' hExit'
    exact (hAt.reaches.inside hBlocks hEnter' hLt' (by omega)).mono hSub

end Blocks

end Runner

/-! ## Blocks of the source -/

/-- **A block runs exactly when the server agreed.** In a run of a statically
valid program, an action is attempted if and only if for every success block
around its instruction, the block's own begin and end included, the setup of the
block's session was answered with a success before. Otherwise it is skipped, on
account of the outermost of those blocks that was not agreed to, and nothing is
exchanged for it. -/
theorem attempted_iff_agreed {S : Sv2} (hS : S.Lawful) {W : World} {p : Program}
    {compiled : CompiledProgram} (hValid : p.isStaticallyValid = .ok true)
    (hCompile : Compiler.compile S p = .ok compiled) {fuel : Nat} {execution : Execution}
    {entries : List Runner.TraceEntry} (hRun : run W fuel compiled = some (execution, entries))
    {a : Nat} (ha : a < compiled.actions.length) :
    ∃ n entry, compiled.metadata.actionInstructions[a]? = some n ∧
      entries[a]? = some entry ∧ entry.action = a ∧
      execution.outcomes[a]? = some entry.outcome ∧
      (entry.attempted = true ↔ ∀ b e session,
        SuccessBlock p.context p.instructions b e session → b ≤ n → n ≤ e →
          Runner.Agreed compiled.actions (entries.take a) session) ∧
      (entry.attempted = false → ∃ b e session,
        SuccessBlock p.context p.instructions b e session ∧ b ≤ n ∧ n ≤ e ∧
        ¬ Runner.Agreed compiled.actions (entries.take a) session ∧
        (∀ b' e' session', SuccessBlock p.context p.instructions b' e' session' → b' < b →
          n ≤ e' → Runner.Agreed compiled.actions (entries.take a) session') ∧
        entry.outcome = .skipped (.setupSuccess session) ∧ entry.exchanges = []) := by
  obtain ⟨hTyped, hActions, hDescribes⟩ := compiled_of_valid hS hValid hCompile
  rw [hActions] at ha ⊢
  have hBlocks : Blocks (actionsOf S p.context p.instructions) := blocks_actionsOf hTyped
  obtain ⟨next, r, hReaches, hEnd, rfl⟩ := run_reaches hRun
  rw [hActions] at hReaches hEnd
  have hAdvances := Runner.advances_of_blocks hBlocks
  have hLength := congrArg List.length (hReaches.covers hAdvances).1
  rw [List.length_map, List.length_range] at hLength
  -- every action has an entry, and an instruction it comes from
  obtain ⟨entry, hEntry⟩ : ∃ entry, entries[a]? = some entry :=
    ⟨_, List.getElem?_eq_getElem (by omega)⟩
  have hLt := ha
  rw [length_actionsOf] at hLt
  obtain ⟨n, k, i, hFrom⟩ := exists_comesFrom hLt
  refine ⟨n, entry, by rw [hDescribes.actionInstructions, hFrom.instruction], hEntry,
    hReaches.action_eq hAdvances hEntry, ?_, ⟨fun hAttempted b e session hBlock hb he => ?_,
      fun hAll => ?_⟩, fun hSkipped => ?_⟩
  · show r.execution.outcomes[a]? = _
    rw [hReaches.outcomes, List.getElem?_map, hEntry, Option.map_some]
  · have hWithin := (hBlock.blockActions hTyped).within hFrom
    exact hReaches.agreed_of_attempted hBlocks hEntry hAttempted
      ((enter_iff hTyped).mpr ⟨b, e, hBlock, rfl, rfl⟩) (hWithin.1.mpr hb) (hWithin.2.mpr he)
  · -- a skipped action has a block around it whose session was not agreed to
    by_contra hNot
    rw [Bool.not_eq_true] at hNot
    obtain ⟨_, session, _, hEnter, hLe, hExit, hNone, -⟩ :=
      hReaches.skipped_outermost hBlocks hEntry hNot
    obtain ⟨b, e, hBlock, rfl, rfl⟩ := (enter_iff hTyped).mp hEnter
    have hWithin := (hBlock.blockActions hTyped).within hFrom
    exact hNone (hAll b e session hBlock (hWithin.1.mp hLe) (hWithin.2.mp hExit))
  · obtain ⟨_, session, _, hEnter, hLe, hExit, hNone, hOuter, hOutcome, hExchanges⟩ :=
      hReaches.skipped_outermost hBlocks hEntry hSkipped
    obtain ⟨b, e, hBlock, rfl, rfl⟩ := (enter_iff hTyped).mp hEnter
    have hWithin := (hBlock.blockActions hTyped).within hFrom
    refine ⟨b, e, session, hBlock, hWithin.1.mp hLe, hWithin.2.mp hExit, hNone,
      fun b' e' session' hBlock' hb' he' => ?_, hOutcome, hExchanges⟩
    -- blocks that begin earlier enter earlier
    obtain ⟨j, hEnter'⟩ := (hBlock'.blockActions hTyped).enter
    obtain ⟨j', hEnter⟩ := (hBlock.blockActions hTyped).enter
    have hWithin' := (hBlock'.blockActions hTyped).within hFrom
    exact hOuter _ session' _ ((enter_iff hTyped).mpr ⟨b', e', hBlock', rfl, rfl⟩)
      (hEnter'.lt_of_lt hEnter hb') (hWithin'.2.mpr he')

/-- Nothing is answered, so the probe in the block is not attempted. -/
theorem attempted_iff_agreed_silent : ∃ compiled execution entries,
    Compiler.compile Sv2.wire singleSetup = .ok compiled ∧
    run .silent 20 compiled = some (execution, entries) ∧
    ∃ n entry, compiled.metadata.actionInstructions[4]? = some n ∧ entries[4]? = some entry ∧
      (entry.attempted = true ↔ ∀ b e session,
        SuccessBlock singleSetup.context singleSetup.instructions b e session → b ≤ n → n ≤ e →
          Runner.Agreed compiled.actions (entries.take 4) session) := by
  obtain ⟨compiled, execution, entries, hCompile, hRun, hLt⟩ := singleSetup_runs
  obtain ⟨n, entry, hn, hEntry, -, -, hIff, -⟩ :=
    attempted_iff_agreed Sv2.wire_lawful (by decide) hCompile hRun hLt
  exact ⟨compiled, execution, entries, hCompile, hRun, n, entry, hn, hEntry, hIff⟩

end Stratamoto
