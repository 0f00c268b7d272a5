import Mathlib.Data.List.AList
import Mathlib.Logic.Function.Basic
import Stratamoto.Library.Slices
import Stratamoto.IR.Builder

/-!
# Stratamoto — the deterministic filesystem

`fs.rs`: a filesystem maps paths to inodes, and handles of one path share its
inode. A call that panics while it writes leaves the lock of the inode poisoned,
and every later call that takes it panics as well. A file that is extended past the
largest `isize` overflows the capacity of its vector; up to there the allocator is
taken to serve it. An `INode` keeps its path for its traces only, which are left out.

Over it stands what a file is for, a byte array (`Contents`): a write puts the
buffer where it is told to, with zeros in a gap it leaves behind, and a read gets
what is there.

* `getElem?_writeAllAt` — a byte array that is written to, byte by byte;
* `FileOp.Within` — a call that begins within a file and leaves it below the capacity;
* `call_eq_contents` — when a call does what it does to a byte array;
* `file_is_byte_array_iff` — when a sequence of calls does;
* `read_only_iff` — when those on a read only handle leave the file as it is.
-/

namespace Stratamoto.Dst

open Slices

/-! ## Files -/

/-- A path is compared by its components. -/
abbrev PathBuf := List String

structure RwLock (α : Type) where
  value : α
  poisoned : Bool
  deriving DecidableEq, Repr

/-- A handle: the inode it shares, by number. -/
structure File where
  inode : Nat
  canWrite : Bool
  deriving DecidableEq, Repr

/-- A filesystem. Every path has an inode of its own. -/
structure FileSystem where
  inodes : Nat → RwLock (List UInt8)
  /-- How many inodes there are. -/
  count : Nat
  fs : AList fun _ : PathBuf => Nat
  lt_count : ∀ path inode, fs.lookup path = some inode → inode < count
  injective : ∀ path path' inode, fs.lookup path = some inode → fs.lookup path' = some inode →
    path = path'

inductive FileError where
  /-- The message is the path, after "file not found: ". -/
  | notFound (path : PathBuf)
  | permissionDenied (message : String)
  deriving DecidableEq, Repr

namespace FileSystem

def new : FileSystem where
  inodes _ := ⟨[], false⟩
  count := 0
  fs := ∅
  lt_count _ _ h := by simp at h
  injective _ _ _ h := by simp at h

def open_ (w : FileSystem) (path : PathBuf) : Except FileError File :=
  match w.fs.lookup path with
  | none => .error (.notFound path)
  | some inode => .ok { inode, canWrite := false }

/-- The entry of a path that had none. -/
def addInode (w : FileSystem) (path : PathBuf) : FileSystem where
  inodes := Function.update w.inodes w.count ⟨[], false⟩
  count := w.count + 1
  fs := w.fs.insert path w.count
  lt_count path' inode h := by
    by_cases hPath : path' = path
    · rw [hPath, AList.lookup_insert] at h
      obtain rfl := Option.some.inj h
      exact Nat.lt_succ_self _
    · rw [AList.lookup_insert_ne hPath] at h
      exact Nat.lt_succ_of_lt (w.lt_count path' inode h)
  -- two paths of one inode are both the new one, or both old
  injective path₁ path₂ inode h₁ h₂ := by
    by_cases hPath₁ : path₁ = path
    · rw [hPath₁, AList.lookup_insert] at h₁
      obtain rfl := Option.some.inj h₁
      by_contra hNe
      rw [AList.lookup_insert_ne fun h => hNe (hPath₁.trans h.symm)] at h₂
      exact Nat.lt_irrefl _ (w.lt_count path₂ _ h₂)
    · rw [AList.lookup_insert_ne hPath₁] at h₁
      by_cases hPath₂ : path₂ = path
      · rw [hPath₂, AList.lookup_insert] at h₂
        obtain rfl := Option.some.inj h₂
        exact absurd (w.lt_count path₁ _ h₁) (Nat.lt_irrefl _)
      · rw [AList.lookup_insert_ne hPath₂] at h₂
        exact w.injective path₁ path₂ inode h₁ h₂

def create (w : FileSystem) (path : PathBuf) : FileSystem × File :=
  match w.fs.lookup path with
  | some inode => (w, { inode, canWrite := true })
  | none => (w.addInode path, { inode := w.count, canWrite := true })

end FileSystem

/-! ## Calls -/

namespace File

/-- `&xs[start..stop]`. -/
def slice (xs : List UInt8) (start stop : Nat) : Except Panic (List UInt8) :=
  if start ≤ stop ∧ stop ≤ xs.length then .ok ((xs.take stop).drop start)
  else .error .indexOutOfBounds

/-- `xs[start..stop].copy_from_slice(ys)`. -/
def copyFromSlice (xs : List UInt8) (start stop : Nat) (ys : List UInt8) :
    Except Panic (List UInt8) := do
  let dst ← slice xs start stop
  if dst.length = ys.length then .ok (overwrite xs start ys)
  else .error (.expect "copy_from_slice: source slice length")

/-- The buffer a read leaves, and how much it read. -/
def readAt (data buf : List UInt8) (offset : UInt64) : Except Panic (List UInt8 × Nat) := do
  let stop := min data.length (← checkedAdd offset.toNat buf.length)
  let len ← checkedSub stop offset.toNat
  let src ← slice data offset.toNat stop
  let buf ← copyFromSlice buf 0 len src
  return (buf, len)

/-- The part of a write that the file is long enough for, and its length. -/
def copyWithin (data buf : List UInt8) (offset : UInt64) : Except Panic (List UInt8 × Nat) := do
  let stop := min data.length (← checkedAdd offset.toNat buf.length)
  let len ← checkedSub stop offset.toNat
  let src ← slice buf 0 len
  let data ← copyFromSlice data offset.toNat stop src
  return (data, len)

def capacityOverflow : Panic := .expect "capacity overflow"

/-- `data.extend_from_slice(rest)`, and whether it panicked. -/
def extendFromSlice (data rest : List UInt8) : List UInt8 × Option Panic :=
  if isizeMax < data.length + rest.length then (data, some capacityOverflow)
  else (data ++ rest, none)

/-- What a write leaves of the data, and whether it panicked. -/
def writeAllAt (data buf : List UInt8) (offset : UInt64) : List UInt8 × Option Panic :=
  match copyWithin data buf offset with
  | .error panic => (data, some panic)
  | .ok (data, len) =>
    -- what the file is too short for is appended
    if len < buf.length then extendFromSlice data (buf.drop len) else (data, none)

/-- `data.resize(size, 0)`, which allocates only if the file grows. -/
def setLen (data : List UInt8) (size : UInt64) : List UInt8 × Option Panic :=
  if data.length < size.toNat ∧ isizeMax < size.toNat then (data, some capacityOverflow)
  else (resize 0 data size.toNat, none)

end File

/-- A call on a handle. -/
inductive FileOp where
  | readAt (buf : List UInt8) (offset : UInt64)
  | writeAllAt (buf : List UInt8) (offset : UInt64)
  | setLen (size : UInt64)
  deriving DecidableEq, Repr

inductive Reply where
  | read (buf : List UInt8) (len : Nat)
  | done
  deriving DecidableEq, Repr

/-- What became of a call. -/
abbrev Outcome := Except Panic (Except FileError Reply)

def poisonError : Panic := .expect "PoisonError"

namespace FileSystem

def contents (w : FileSystem) (f : File) : List UInt8 := (w.inodes f.inode).value

/-- Write to an inode, whose lock is poisoned by a panic. -/
def write (w : FileSystem) (inode : Nat) (written : List UInt8 × Option Panic) :
    FileSystem × Outcome :=
  ({ w with inodes := Function.update w.inodes inode ⟨written.1, written.2.isSome⟩ },
    match written.2 with
    | none => .ok (.ok .done)
    | some panic => .error panic)

def call (w : FileSystem) (f : File) : FileOp → FileSystem × Outcome
  | .readAt buf offset =>
    if (w.inodes f.inode).poisoned then (w, .error poisonError)
    else
      match File.readAt (w.contents f) buf offset with
      | .ok (buf, len) => (w, .ok (.ok (.read buf len)))
      | .error panic => (w, .error panic)
  | .writeAllAt buf offset =>
    if !f.canWrite then (w, .ok (.error (.permissionDenied "the file is read only")))
    else if (w.inodes f.inode).poisoned then (w, .error poisonError)
    else w.write f.inode (File.writeAllAt (w.contents f) buf offset)
  -- unlike a write, a resize is not refused on a file opened to read
  | .setLen size =>
    if (w.inodes f.inode).poisoned then (w, .error poisonError)
    else w.write f.inode (File.setLen (w.contents f) size)

/-- Calls on any handles, one after another. -/
def run : FileSystem → List (File × FileOp) → FileSystem × List Outcome
  | w, [] => (w, [])
  | w, (f, op) :: calls =>
    let (w, outcome) := w.call f op
    let (w, outcomes) := run w calls
    (w, outcome :: outcomes)

end FileSystem

/-! ## Byte arrays -/

namespace Contents

/-- What a call does to a byte array. -/
def step (data : List UInt8) : FileOp → List UInt8 × Reply
  | .readAt buf offset =>
    let got := (data.drop offset.toNat).take buf.length
    (data, .read (got ++ buf.drop got.length) got.length)
  | .writeAllAt buf offset => (place 0 data offset.toNat buf, .done)
  | .setLen size => (resize 0 data size.toNat, .done)

def run : List UInt8 → List FileOp → List UInt8 × List Reply
  | data, [] => (data, [])
  | data, op :: ops =>
    let (data, reply) := step data op
    let (data, replies) := run data ops
    (data, reply :: replies)

/-- A byte array that is written to: the buffer from the offset on, what was
there elsewhere, and zeros in between. -/
theorem getElem?_writeAllAt (data buf : List UInt8) (offset : UInt64) (i : Nat) :
    (step data (.writeAllAt buf offset)).1[i]? =
      if i < offset.toNat then some (data[i]?.getD 0)
      else if i < offset.toNat + buf.length then buf[i - offset.toNat]?
      else data[i]? :=
  getElem?_place 0 data offset.toNat buf i

end Contents

/-! ## Calls within the file -/

namespace File

theorem slice_ok {xs : List UInt8} {start stop : Nat} (h : start ≤ stop) (h' : stop ≤ xs.length) :
    slice xs start stop = .ok ((xs.take stop).drop start) := if_pos ⟨h, h'⟩

theorem copyFromSlice_ok {xs ys : List UInt8} {start stop : Nat} (h : start + ys.length = stop)
    (h' : stop ≤ xs.length) : copyFromSlice xs start stop ys = .ok (overwrite xs start ys) := by
  have hLength : ((xs.take stop).drop start).length = ys.length := by
    rw [List.length_drop, List.length_take]
    omega
  rw [copyFromSlice, slice_ok (by omega) h']
  exact if_pos hLength

/-- A read begins within the file, or the difference that is its length
overflows. -/
theorem readAt_eq (data buf : List UInt8) {offset : UInt64}
    (hFits : offset.toNat + buf.length ≤ usizeMax) :
    readAt data buf offset =
      if offset.toNat ≤ data.length then
        let got := (data.drop offset.toNat).take buf.length
        .ok (got ++ buf.drop got.length, got.length)
      else .error (.expect "attempt to subtract with overflow") := by
  rw [readAt, checkedAdd_ok hFits]
  simp only [bind, Except.bind]
  by_cases hWithin : offset.toNat ≤ data.length
  · have hStop : offset.toNat ≤ min data.length (offset.toNat + buf.length) := by omega
    -- a slice of a slice: from the offset, as far as the buffer or the file goes
    have hSrc : ((data.take (min data.length (offset.toNat + buf.length))).drop offset.toNat) =
        (data.drop offset.toNat).take buf.length := by
      rw [List.drop_take, List.take_eq_take_iff, List.length_drop]
      omega
    have hLen : ((data.drop offset.toNat).take buf.length).length =
        min data.length (offset.toNat + buf.length) - offset.toNat := by
      rw [List.length_take, List.length_drop]
      omega
    rw [checkedSub_ok hStop, if_pos hWithin]
    simp only [slice_ok hStop (Nat.min_le_left _ _), hSrc]
    rw [copyFromSlice_ok (by omega) (by omega)]
    simp only [overwrite, List.take_zero, List.nil_append, Nat.zero_add, hLen]
    rfl
  · rw [checkedSub, if_neg (by omega), if_neg hWithin]

theorem copyWithin_eq (data buf : List UInt8) {offset : UInt64}
    (hFits : offset.toNat + buf.length ≤ usizeMax) :
    copyWithin data buf offset =
      if offset.toNat ≤ data.length then
        let len := min data.length (offset.toNat + buf.length) - offset.toNat
        .ok (overwrite data offset.toNat (buf.take len), len)
      else .error (.expect "attempt to subtract with overflow") := by
  rw [copyWithin, checkedAdd_ok hFits]
  simp only [bind, Except.bind]
  by_cases hWithin : offset.toNat ≤ data.length
  · have hStop : offset.toNat ≤ min data.length (offset.toNat + buf.length) := by omega
    have hLe : min data.length (offset.toNat + buf.length) - offset.toNat ≤ buf.length := by omega
    rw [checkedSub_ok hStop, if_pos hWithin]
    simp only [slice_ok (Nat.zero_le _) hLe, List.drop_zero]
    rw [copyFromSlice_ok (by rw [List.length_take]; omega) (Nat.min_le_left _ _)]
    rfl
  · rw [checkedSub, if_neg (by omega), if_neg hWithin]

/-- A write that begins within the file: what the file is too short for is appended,
unless that overflows the capacity. -/
theorem writeAllAt_eq {data buf : List UInt8} {offset : UInt64}
    (hFits : offset.toNat + buf.length ≤ usizeMax) (hWithin : offset.toNat ≤ data.length) :
    writeAllAt data buf offset =
      if max data.length isizeMax < offset.toNat + buf.length then
        (overwrite data offset.toNat (buf.take (data.length - offset.toNat)), some capacityOverflow)
      else (place 0 data offset.toNat buf, none) := by
  have hLength : ∀ len, offset.toNat + len ≤ data.length →
      (overwrite data offset.toNat (buf.take len)).length = data.length := by
    intro len hLen
    apply length_overwrite
    rw [List.length_take]
    omega
  rw [writeAllAt, copyWithin_eq data buf hFits, if_pos hWithin, place_of_le hWithin]
  simp only
  by_cases hShort : data.length < offset.toNat + buf.length
  · -- the file ends within the buffer
    rw [Nat.min_eq_left (Nat.le_of_lt hShort), if_pos (by omega), extendFromSlice,
      hLength _ (by omega), List.length_drop]
    by_cases hAbove : max data.length isizeMax < offset.toNat + buf.length
    · -- what is within the file has been written by then
      rw [if_pos (by omega), if_pos hAbove]
    · rw [if_neg (by omega), if_neg hAbove]
      exact congrArg (·, none) (overwrite_extend (by omega) (by omega))
  · rw [Nat.min_eq_right (Nat.not_lt.mp hShort), Nat.add_sub_cancel_left,
      if_neg (Nat.lt_irrefl _), if_neg (by omega), List.take_length]

/-- A write that begins within the file as well, and ends below the capacity where it
extends the file, puts the buffer there. -/
theorem writeAllAt_ok (data buf : List UInt8) {offset : UInt64}
    (hFits : offset.toNat + buf.length ≤ usizeMax) (hWithin : offset.toNat ≤ data.length)
    (hCapacity : offset.toNat + buf.length ≤ max data.length isizeMax) :
    writeAllAt data buf offset = (place 0 data offset.toNat buf, none) := by
  rw [writeAllAt_eq hFits hWithin, if_neg (Nat.not_lt.mpr hCapacity)]

theorem writeAllAt_panics (data buf : List UInt8) {offset : UInt64}
    (hFits : offset.toNat + buf.length ≤ usizeMax)
    (hNot : ¬ (offset.toNat ≤ data.length ∧
      offset.toNat + buf.length ≤ max data.length isizeMax)) :
    ∃ left panic, writeAllAt data buf offset = (left, some panic) := by
  by_cases hWithin : offset.toNat ≤ data.length
  · have hAbove : max data.length isizeMax < offset.toNat + buf.length :=
      Nat.not_le.mp fun hLe => hNot ⟨hWithin, hLe⟩
    rw [writeAllAt_eq hFits hWithin, if_pos hAbove]
    exact ⟨_, _, rfl⟩
  · rw [writeAllAt, copyWithin_eq data buf hFits, if_neg hWithin]
    exact ⟨_, _, rfl⟩

theorem setLen_ok {data : List UInt8} {size : UInt64} (h : size.toNat ≤ max data.length isizeMax) :
    setLen data size = (resize 0 data size.toNat, none) := by
  rw [setLen, if_neg (by omega)]

theorem setLen_panics {data : List UInt8} {size : UInt64}
    (h : ¬ size.toNat ≤ max data.length isizeMax) :
    setLen data size = (data, some capacityOverflow) := by
  rw [setLen, if_pos (by omega)]

end File

/-! ## Files are byte arrays -/

namespace FileOp

/-- The end of what is asked for is in the address space. -/
def Fits : FileOp → Prop
  | .readAt buf offset | .writeAllAt buf offset => offset.toNat + buf.length ≤ usizeMax
  | .setLen _ => True

/-- It begins within a file of the length, or at its end, and does not extend it past
the largest `isize`. -/
def Within (length : Nat) : FileOp → Prop
  | .readAt _ offset => offset.toNat ≤ length
  | .writeAllAt buf offset =>
    offset.toNat ≤ length ∧ offset.toNat + buf.length ≤ max length isizeMax
  | .setLen size => size.toNat ≤ max length isizeMax

end FileOp

namespace FileSystem

/-- A call on one inode leaves the others as they are. -/
theorem call_frame (w : FileSystem) (f : File) (op : FileOp) {inode : Nat} (h : inode ≠ f.inode) :
    (w.call f op).1.inodes inode = w.inodes inode := by
  -- every branch that changes a file goes through one update at its own inode
  have hWrite : ∀ written, (w.write f.inode written).1.inodes inode = w.inodes inode :=
    fun _ => Function.update_of_ne h _ _
  unfold call
  cases op with
  | readAt buf offset =>
    simp only
    split
    · rfl
    · split <;> rfl
  | writeAllAt buf offset =>
    simp only
    split
    · rfl
    · split
      · rfl
      · exact hWrite _
  | setLen size =>
    simp only
    split
    · rfl
    · exact hWrite _

/-- **A call within the file** does what it does to a byte array, and any other
panics. -/
theorem call_eq_contents {w : FileSystem} {f : File} {op : FileOp} (hWrite : f.canWrite = true)
    (hLock : (w.inodes f.inode).poisoned = false) (hFits : op.Fits) :
    (op.Within (w.contents f).length ∧
        (w.call f op).1.inodes f.inode = ⟨(Contents.step (w.contents f) op).1, false⟩ ∧
        (w.call f op).2 = .ok (.ok (Contents.step (w.contents f) op).2)) ∨
      (¬ op.Within (w.contents f).length ∧ ∃ panic, (w.call f op).2 = .error panic) := by
  have hValue : w.inodes f.inode = ⟨w.contents f, false⟩ := by
    rw [← hLock]
    rfl
  cases op with
  | readAt buf offset =>
    unfold call
    simp only [hLock, Bool.false_eq_true, if_false, File.readAt_eq (w.contents f) buf hFits]
    -- a read takes the lock for reading only: the inode is as it was
    by_cases hWithin : offset.toNat ≤ (w.contents f).length
    · simp only [if_pos hWithin]
      exact Or.inl ⟨hWithin, hValue, rfl⟩
    · simp only [if_neg hWithin]
      exact Or.inr ⟨hWithin, _, rfl⟩
  | writeAllAt buf offset =>
    unfold call
    simp only [hLock, hWrite, Bool.not_true, Bool.false_eq_true, if_false]
    by_cases hWithin : offset.toNat ≤ (w.contents f).length ∧
        offset.toNat + buf.length ≤ max (w.contents f).length isizeMax
    · rw [File.writeAllAt_ok _ _ hFits hWithin.1 hWithin.2]
      exact Or.inl ⟨hWithin, Function.update_self _ _ _, rfl⟩
    · obtain ⟨left, panic, hPanics⟩ := File.writeAllAt_panics _ _ hFits hWithin
      rw [hPanics]
      exact Or.inr ⟨hWithin, panic, rfl⟩
  | setLen size =>
    unfold call
    simp only [hLock, Bool.false_eq_true, if_false]
    by_cases hWithin : size.toNat ≤ max (w.contents f).length isizeMax
    · rw [File.setLen_ok hWithin]
      exact Or.inl ⟨hWithin, Function.update_self _ _ _, rfl⟩
    · rw [File.setLen_panics hWithin]
      exact Or.inr ⟨hWithin, _, rfl⟩

/-- A file is a byte array to a sequence of calls: nothing panics, the replies are
those of a byte array, and so are the contents in the end. -/
structure IsByteArray (w : FileSystem) (inode : Nat) (calls : List (File × FileOp)) : Prop where
  outcomes : (w.run calls).2 =
    (Contents.run (w.inodes inode).value (calls.map Prod.snd)).2.map fun reply => .ok (.ok reply)
  contents : ((w.run calls).1.inodes inode).value =
    (Contents.run (w.inodes inode).value (calls.map Prod.snd)).1

/-- **When a file is a byte array**: the calls begin within the file, or at its end,
as long as it is then, and none of them extends it past the largest `isize`. -/
theorem file_is_byte_array_iff (w : FileSystem) (inode : Nat) (calls : List (File × FileOp))
    (hLock : (w.inodes inode).poisoned = false)
    (hCalls : ∀ call ∈ calls, call.1 = { inode, canWrite := true } ∧ call.2.Fits) :
    w.IsByteArray inode calls ↔
      ∀ (n : Nat) (call : File × FileOp), calls[n]? = some call →
        call.2.Within
          (Contents.run (w.inodes inode).value ((calls.take n).map Prod.snd)).1.length := by
  induction calls generalizing w with
  | nil =>
    refine ⟨fun _ n call hCall => ?_, fun _ => ⟨rfl, rfl⟩⟩
    rw [List.getElem?_nil] at hCall
    cases hCall
  | cons call calls ih =>
    obtain ⟨f, op⟩ := call
    obtain ⟨hFile, hFits⟩ : f = _ ∧ op.Fits := hCalls (f, op) List.mem_cons_self
    have hRest := fun call hMem => hCalls call (List.mem_cons_of_mem _ hMem)
    subst hFile
    rcases call_eq_contents (f := { inode, canWrite := true }) rfl hLock hFits with
      ⟨hWithin, hInode, hReply⟩ | ⟨hNot, panic, hPanic⟩
    · -- the rest of the calls find what the first one left
      have hNext := ih (w.call { inode, canWrite := true } op).1 (by rw [hInode]) hRest
      rw [hInode] at hNext
      constructor
      · intro hArray n call hCall
        cases n with
        | zero =>
          obtain rfl := Option.some.inj hCall
          exact hWithin
        | succ n =>
          refine hNext.mp ⟨?_, ?_⟩ n call hCall
          · rw [hInode]
            exact (List.cons.inj hArray.outcomes).2
          · rw [hInode]
            exact hArray.contents
      · intro hCondition
        have hArray := hNext.mpr fun n call hCall => hCondition (n + 1) call hCall
        refine ⟨?_, ?_⟩
        · have hOutcomes := hArray.outcomes
          rw [hInode] at hOutcomes
          exact congrArg₂ List.cons hReply hOutcomes
        · have hContents := hArray.contents
          rw [hInode] at hContents
          exact hContents
    · constructor
      · intro hArray
        -- the outcome is a panic, and a byte array never has one
        have hHead : (w.call { inode, canWrite := true } op).2 = .ok (.ok _) :=
          (List.cons.inj hArray.outcomes).1
        rw [hPanic] at hHead
        cases hHead
      · intro hCondition
        exact absurd (hCondition 0 _ rfl) hNot

/-- A write past the end of a file that was just created panics, where a byte
array would have a zero in front of it. -/
theorem write_past_end_panics :
    let (w, f) := new.create ["log"]
    (w.run [(f, .writeAllAt [7] 1)]).2 =
        [.error (.expect "attempt to subtract with overflow")] ∧
      ¬ w.IsByteArray 0 [(f, .writeAllAt [7] 1)] := by
  refine ⟨rfl, fun hArray => ?_⟩
  have hOutcomes := hArray.outcomes
  cases hOutcomes

/-- What is appended is read back. -/
theorem file_is_byte_array_iff_appending :
    let (w, f) := new.create ["log"]
    w.IsByteArray 0 [(f, .writeAllAt [1, 2] 0), (f, .writeAllAt [3] 2)] := by
  refine (file_is_byte_array_iff _ 0 _ rfl fun call hMem => ?_).mpr fun n call hCall => ?_
  · rcases List.mem_cons.mp hMem with rfl | hMem
    · exact ⟨rfl, show 2 ≤ usizeMax by decide⟩
    · obtain rfl := List.mem_singleton.mp hMem
      exact ⟨rfl, show 3 ≤ usizeMax by decide⟩
  · cases n with
    | zero =>
      obtain rfl := Option.some.inj hCall
      exact ⟨Nat.zero_le _, show 2 ≤ isizeMax by decide⟩
    | succ n =>
      cases n with
      | zero =>
        obtain rfl := Option.some.inj hCall
        exact ⟨Nat.le_refl 2, show 3 ≤ isizeMax by decide⟩
      | succ n => cases hCall

/-! ## Read only handles -/

theorem open_eq_ok {w : FileSystem} {path : PathBuf} {f : File} (h : w.open_ path = .ok f) :
    w.fs.lookup path = some f.inode ∧ f.canWrite = false := by
  unfold open_ at h
  split at h
  · cases h
  · rename_i inode hLookup
    obtain rfl := Except.ok.inj h
    exact ⟨hLookup, rfl⟩

theorem run_snoc (w : FileSystem) (calls : List (File × FileOp)) (f : File) (op : FileOp) :
    (w.run (calls ++ [(f, op)])).1 = ((w.run calls).1.call f op).1 := by
  induction calls generalizing w with
  | nil => rfl
  | cons call calls ih => exact ih (w.call call.1 call.2).1

/-- The one call that goes through a read only handle sets the length. -/
theorem call_read_only {w : FileSystem} {f : File} (hRead : f.canWrite = false) (op : FileOp) :
    (w.call f op).1.inodes f.inode = w.inodes f.inode ∨
      ∃ size, op = .setLen size ∧ (w.inodes f.inode).poisoned = false := by
  unfold call
  cases op with
  | readAt buf offset =>
    refine Or.inl ?_
    simp only
    split
    · rfl
    · split <;> rfl
  | writeAllAt buf offset =>
    simp only [hRead, Bool.not_false, if_true]
    exact Or.inl trivial
  -- the one arm that does not ask `canWrite`
  | setLen size =>
    cases hLock : (w.inodes f.inode).poisoned with
    | true => exact Or.inl rfl
    | false => exact Or.inr ⟨size, rfl, rfl⟩

/-- A length that is set leaves a file as it is if it is the one the file has: another
one cuts it, extends it, or poisons its lock. -/
theorem call_setLen_same_iff {w : FileSystem} {f : File}
    (hLock : (w.inodes f.inode).poisoned = false) (size : UInt64) :
    (w.call f (.setLen size)).1.inodes f.inode = w.inodes f.inode ↔
      size.toNat = (w.contents f).length := by
  have hAfter : (w.call f (.setLen size)).1.inodes f.inode =
      ⟨(File.setLen (w.contents f) size).1, (File.setLen (w.contents f) size).2.isSome⟩ := by
    unfold call
    simp only [hLock, Bool.false_eq_true, if_false]
    exact Function.update_self _ _ _
  have hValue : w.inodes f.inode = ⟨w.contents f, false⟩ := by
    rw [← hLock]
    rfl
  rw [hAfter, hValue, RwLock.mk.injEq]
  by_cases hWithin : size.toNat ≤ max (w.contents f).length isizeMax
  · rw [File.setLen_ok hWithin]
    constructor
    · rintro ⟨hSame, -⟩
      have hLength := congrArg List.length hSame
      rwa [length_resize] at hLength
    · intro hLength
      exact ⟨resize_of_length hLength, rfl⟩
  · rw [File.setLen_panics hWithin]
    refine iff_of_false (fun h => ?_) fun hLength => ?_
    · cases h.2
    · omega

/-- A length that is the length already changes nothing. -/
theorem call_read_only_same {w : FileSystem} {f : File} (hRead : f.canWrite = false) {op : FileOp}
    (h : ∀ size, op = .setLen size →
      (w.inodes f.inode).poisoned = true ∨ size.toNat = (w.contents f).length) :
    (w.call f op).1.inodes f.inode = w.inodes f.inode := by
  rcases call_read_only hRead op with hSame | ⟨size, rfl, hLock⟩
  · exact hSame
  · rcases h size rfl with hPoisoned | hLength
    · rw [hLock] at hPoisoned
      cases hPoisoned
    · exact (call_setLen_same_iff hLock size).mpr hLength

theorem run_read_only_same {w : FileSystem} {f : File} (hRead : f.canWrite = false)
    {ops : List FileOp} (h : ∀ size, FileOp.setLen size ∈ ops →
      (w.inodes f.inode).poisoned = true ∨ size.toNat = (w.contents f).length) :
    (w.run (ops.map fun op => (f, op))).1.inodes f.inode = w.inodes f.inode := by
  induction ops generalizing w with
  | nil => rfl
  | cons op ops ih =>
    have hFirst := call_read_only_same (w := w) hRead fun size hOp =>
      h size (hOp ▸ List.mem_cons_self)
    show ((w.call f op).1.run (ops.map fun op => (f, op))).1.inodes f.inode = _
    rw [ih, hFirst]
    intro size hMem
    rw [hFirst, contents, hFirst]
    exact h size (List.mem_cons_of_mem _ hMem)

/-- **When a read only handle leaves its file as it is**, contents and lock: a write is
refused, but the length is set without asking. So every `set_len` must ask for the
length the file has, or find the lock poisoned. -/
theorem read_only_iff (w : FileSystem) (path : PathBuf) (f : File)
    (hOpen : w.open_ path = .ok f) (ops : List FileOp) :
    (∀ (n : Nat) (other : File), w.fs.lookup path = some other.inode →
        (w.run ((ops.take n).map fun op => (f, op))).1.inodes other.inode =
          w.inodes other.inode) ↔
      ∀ size, FileOp.setLen size ∈ ops →
        (w.inodes f.inode).poisoned = true ∨ size.toNat = (w.contents f).length := by
  obtain ⟨hLookup, hRead⟩ := open_eq_ok hOpen
  constructor
  · intro hSame size hMem
    by_contra hNot
    obtain ⟨hLock, hLength⟩ := not_or.mp hNot
    obtain ⟨n, hn⟩ := List.mem_iff_getElem?.mp hMem
    -- what the handle itself sees is enough
    have hBefore := hSame n f hLookup
    have hAfter := hSame (n + 1) f hLookup
    -- the call is made on the file as it was at first
    rw [List.take_add_one, hn, Option.toList_some, List.map_append, List.map_singleton,
      run_snoc, ← hBefore, call_setLen_same_iff, contents, hBefore] at hAfter
    · exact hLength hAfter
    · rw [hBefore]
      exact Bool.eq_false_iff.mpr hLock
  · intro hLengths n other hOther
    have hInode : f.inode = other.inode := Option.some.inj (hLookup.symm.trans hOther)
    rw [← hInode, run_read_only_same hRead]
    intro size hMem
    exact hLengths size (List.mem_of_mem_take hMem)

/-- A write that is refused, and the length of the file. -/
theorem read_only_iff_log :
    let (w, writer) := new.create ["log"]
    let w := (w.call writer (.writeAllAt [1, 2] 0)).1
    let reader : File := { inode := 0, canWrite := false }
    ∀ (n : Nat) (other : File), w.fs.lookup ["log"] = some other.inode →
      (w.run (([.writeAllAt [9] 0, .setLen 2].take n).map fun op => (reader, op))).1.inodes
        other.inode = w.inodes other.inode := by
  refine (read_only_iff _ ["log"] _ rfl _).mpr fun size hMem => Or.inr ?_
  simp only [List.mem_cons, FileOp.setLen.injEq, List.not_mem_nil, or_false, reduceCtorEq,
    false_or] at hMem
  rw [hMem]
  rfl

/-- A file of two bytes is cut to none over a read only handle. -/
theorem set_len_read_only_cuts :
    let (w, writer) := new.create ["log"]
    let w := (w.call writer (.writeAllAt [1, 2] 0)).1
    let reader : File := { inode := 0, canWrite := false }
    w.open_ ["log"] = .ok reader ∧ w.contents writer = [1, 2] ∧
      (w.run [(reader, .setLen 0)]).1.contents writer = [] := by
  refine ⟨rfl, rfl, rfl⟩

end FileSystem

end Stratamoto.Dst
