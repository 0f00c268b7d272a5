import Mathlib.Data.List.Infix
import Mathlib.Tactic.TypeStar

/-!
# Reading a stream in chunks

A decoder that is fed a stream one chunk at a time: what it has been fed decides
how long the next chunk is, and a chunk of that length yields an answer, or
nothing yet. `Whole` is the reading of a stream in whole chunks, and
`Answers s stream answers` says that `answers` is what a reading of the stream
has yielded at some point.

A reader that gets the stream in pieces holds the part of a chunk it has so far;
`Reads` is what it has to keep up, whatever the pieces:

* `Reads.read`, `Reads.feed` — a piece is taken in, a full chunk is fed;
* `Reads.comparable` — its answers and those of a reading in whole chunks never
  disagree;
* `Reads.next` — the next answer is to be had from what is left;
* `Reads.covered` — there are no more than those of the whole stream;
* `Reads.exhausted` — at the end of the stream it has them all.
-/

namespace Chunks

/-- A decoder with states `σ`, fed symbols `β`, yielding answers `α`. -/
structure Decoder (β σ α : Type*) where
  want : σ → Nat
  feed : σ → List β → σ × Option α

variable {β σ α : Type*} {m : Decoder β σ α} {s s' s'' : σ} {stream bytes bytes' : List β}
  {answers answers' : List α}

/-- A decoder in state `s` that is fed `bytes` in whole chunks yields `answers`,
and is in state `s'` then. -/
inductive Whole (m : Decoder β σ α) : σ → List β → List α → σ → Prop
  | nil (s : σ) : Whole m s [] [] s
  | chunk {s s' : σ} {chunk bytes : List β} {answers : List α} (h : chunk.length = m.want s)
      (rest : Whole m (m.feed s chunk).1 bytes answers s') :
      Whole m s (chunk ++ bytes) ((m.feed s chunk).2.toList ++ answers) s'

theorem Whole.trans (h : Whole m s bytes answers s') (h' : Whole m s' bytes' answers' s'') :
    Whole m s (bytes ++ bytes') (answers ++ answers') s'' := by
  induction h with
  | nil => exact h'
  | chunk hLength _ ih =>
    rw [List.append_assoc, List.append_assoc]
    exact .chunk hLength (ih h')

theorem Whole.one {chunk : List β} (h : chunk.length = m.want s) :
    Whole m s chunk (m.feed s chunk).2.toList (m.feed s chunk).1 := by
  have := Whole.chunk h (.nil _)
  rwa [List.append_nil, List.append_nil] at this

/-- Of two readings of one stream, one goes on where the other ends. -/
theorem Whole.comparable (h : Whole m s bytes answers s') (h' : Whole m s bytes' answers' s'')
    (hPrefix : bytes <+: stream) (hPrefix' : bytes' <+: stream) :
    (∃ more later, Whole m s' more later s'' ∧ bytes' = bytes ++ more ∧
        answers' = answers ++ later) ∨
      ∃ more later, Whole m s'' more later s' ∧ bytes = bytes' ++ more ∧
        answers = answers' ++ later := by
  induction h generalizing bytes' answers' stream with
  | nil => exact Or.inl ⟨bytes', answers', h', rfl, rfl⟩
  | @chunk s s' chunk bytes answers hLength rest ih =>
    cases h' with
    | nil => exact Or.inr ⟨_, _, .chunk hLength rest, rfl, rfl⟩
    | @chunk _ _ chunk' bytes' answers' hLength' rest' =>
      -- both readings begin with the chunk that is asked for
      obtain ⟨tail, rfl⟩ := hPrefix
      obtain ⟨tail', hTail⟩ := hPrefix'
      rw [List.append_assoc, List.append_assoc] at hTail
      obtain ⟨hChunk, hRest⟩ := List.append_inj hTail (hLength'.trans hLength.symm)
      subst hChunk
      rcases ih rest' (List.prefix_append _ _) ⟨tail', hRest⟩ with
        ⟨more, later, hMore, rfl, rfl⟩ | ⟨more, later, hMore, rfl, rfl⟩
      · exact Or.inl ⟨more, later, hMore, (List.append_assoc _ _ _).symm,
          (List.append_assoc _ _ _).symm⟩
      · exact Or.inr ⟨more, later, hMore, (List.append_assoc _ _ _).symm,
          (List.append_assoc _ _ _).symm⟩

/-- What reading the stream in whole chunks has yielded at some point. -/
def Answers (m : Decoder β σ α) (s : σ) (stream : List β) (answers : List α) : Prop :=
  ∃ bytes s', bytes <+: stream ∧ Whole m s bytes answers s'

/-- Whatever has been yielded in the end had been yielded up to any point before. -/
theorem Whole.answers_front (h : Whole m s bytes answers s') (hFront : answers' <+: answers) :
    Answers m s bytes answers' := by
  induction h generalizing answers' with
  | nil =>
    rw [List.prefix_nil.mp hFront]
    exact ⟨[], _, List.nil_prefix, .nil _⟩
  | @chunk s s' chunk bytes answers hLength rest ih =>
    -- the rest is what this chunk does not yield
    have hBehind : ∀ later, answers' = (m.feed s chunk).2.toList ++ later → later <+: answers →
        Answers m s (chunk ++ bytes) answers' := by
      rintro later rfl hLater
      obtain ⟨fed, s'', hFed, hWhole⟩ := ih hLater
      exact ⟨chunk ++ fed, s'', List.prefix_append_right_inj chunk |>.mpr hFed, .chunk hLength hWhole⟩
    cases hAnswer : (m.feed s chunk).2 with
    | none =>
      rw [hAnswer] at hFront hBehind
      exact hBehind answers' rfl hFront
    | some a =>
      rw [hAnswer] at hFront hBehind
      cases answers' with
      | nil => exact ⟨[], s, List.nil_prefix, .nil s⟩
      | cons a' later =>
        obtain ⟨rfl, hLater⟩ := List.cons_prefix_cons.mp hFront
        exact hBehind later rfl hLater

/-! ## Reading in pieces -/

/-- A reader that began in state `s` holds a part of the chunk it is at: the
stream is what has been fed to the decoder in whole chunks, then that part, then
what is still unread. -/
structure Reads (m : Decoder β σ α) (s : σ) (stream : List β) (answers : List α) (s' : σ)
    (held unread : List β) : Prop where
  fed : ∃ bytes, stream = bytes ++ (held ++ unread) ∧ Whole m s bytes answers s'
  fits : held.length ≤ m.want s'

namespace Reads

variable {held unread piece : List β}

theorem start (m : Decoder β σ α) (s : σ) (stream : List β) : Reads m s stream [] s [] stream where
  fed := ⟨[], rfl, .nil s⟩
  fits := Nat.zero_le _

/-- A piece of the stream is taken in. -/
theorem read (h : Reads m s stream answers s' held (piece ++ unread))
    (hFits : (held ++ piece).length ≤ m.want s') :
    Reads m s stream answers s' (held ++ piece) unread where
  fed := by
    obtain ⟨bytes, hStream, hWhole⟩ := h.fed
    exact ⟨bytes, by rw [hStream, List.append_assoc], hWhole⟩
  fits := hFits

/-- A chunk that is full is fed to the decoder. -/
theorem feed (h : Reads m s stream answers s' held unread) (hFull : held.length = m.want s') :
    Reads m s stream (answers ++ (m.feed s' held).2.toList) (m.feed s' held).1 [] unread where
  fed := by
    obtain ⟨bytes, hStream, hWhole⟩ := h.fed
    exact ⟨bytes ++ held, by rw [hStream, List.append_assoc]; rfl, hWhole.trans (.one hFull)⟩
  fits := Nat.zero_le _

theorem yielded (h : Reads m s stream answers s' held unread) : Answers m s stream answers := by
  obtain ⟨bytes, hStream, hWhole⟩ := h.fed
  exact ⟨bytes, s', ⟨held ++ unread, hStream.symm⟩, hWhole⟩

/-- What has been yielded is the beginning of what whole chunks yield, or the
other way around. -/
theorem comparable (h : Reads m s stream answers s' held unread)
    (h' : Answers m s stream answers') : answers <+: answers' ∨ answers' <+: answers := by
  obtain ⟨bytes, _, hPrefix, hWhole⟩ := h.yielded
  obtain ⟨bytes', _, hPrefix', hWhole'⟩ := h'
  rcases hWhole.comparable hWhole' hPrefix hPrefix' with
    ⟨_, later, -, -, rfl⟩ | ⟨_, later, -, -, rfl⟩
  · exact Or.inl (List.prefix_append _ _)
  · exact Or.inr (List.prefix_append _ _)

/-- If whole chunks yield one more answer, they do so from what is left. -/
theorem next {a : α} (h : Reads m s stream answers s' held unread)
    (h' : Answers m s stream (answers ++ [a])) :
    ∃ more s'', more <+: held ++ unread ∧ Whole m s' more [a] s'' := by
  obtain ⟨bytes, hStream, hWhole⟩ := h.fed
  obtain ⟨bytes', s'', hPrefix', hWhole'⟩ := h'
  rcases hWhole.comparable hWhole' ⟨held ++ unread, hStream.symm⟩ hPrefix' with
    ⟨more, later, hMore, rfl, hLater⟩ | ⟨_, later, -, -, hLater⟩
  · obtain rfl := List.append_cancel_left hLater
    obtain ⟨tail, hTail⟩ := hPrefix'
    rw [hStream, List.append_assoc] at hTail
    exact ⟨more, s'', ⟨tail, List.append_cancel_left hTail⟩, hMore⟩
  · have hLength := congrArg List.length hLater
    simp only [List.length_append, List.length_singleton] at hLength
    omega

/-- What whole chunks yield on all of the stream is all there is to be had from it, if
the decoder waits for more. -/
theorem covered (h : Reads m s stream answers s' held unread) (hAll : Whole m s stream answers' s'')
    (hWaits : 0 < m.want s'') : answers <+: answers' := by
  obtain ⟨bytes, hStream, hWhole⟩ := h.fed
  rcases hAll.comparable hWhole (List.prefix_refl _) ⟨held ++ unread, hStream.symm⟩ with
    ⟨more, later, hMore, rfl, rfl⟩ | ⟨_, later, -, -, rfl⟩
  · cases hMore with
    | nil => rw [List.append_nil]
    | chunk hLength rest =>
      -- a chunk of no bytes is not asked for
      have hNone := congrArg List.length hStream
      simp only [List.length_append] at hNone
      omega
  · exact List.prefix_append _ _

/-- Once the stream is read and the last chunk is not full, there is no more to
be had from it. -/
theorem exhausted (h : Reads m s stream answers s' held []) (hShort : held.length < m.want s')
    (h' : Answers m s stream answers') : answers' <+: answers := by
  obtain ⟨bytes, hStream, hWhole⟩ := h.fed
  obtain ⟨bytes', _, hPrefix', hWhole'⟩ := h'
  rcases hWhole.comparable hWhole' ⟨held ++ [], hStream.symm⟩ hPrefix' with
    ⟨more, later, hMore, rfl, rfl⟩ | ⟨_, later, -, -, rfl⟩
  · cases hMore with
    | nil => rw [List.append_nil]
    | chunk hLength rest =>
      -- the next chunk would have to be longer than what is left
      have hLe := hPrefix'.length_le
      rw [hStream] at hLe
      simp only [List.length_append, List.length_nil] at hLe
      omega
  · exact List.prefix_append _ _

end Reads

end Chunks
