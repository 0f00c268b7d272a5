import Stratamoto.Dst.Files
import Stratamoto.Dst.Network
import Stratamoto.Library.Machines

/-!
# Stratamoto — the disks of a simulation

`fs.rs`: every address has a filesystem of its own, which its local handles share. The
tasks of a simulation open and create files there and call them, in any order and at
any address; a file that was opened stays open.

Over it stands what the disks are for (`Store`): an address and a path name a byte
array, and a handle is for one of these. Unlike a write, a resize is not refused on a
handle to read, and the store does not refuse it either.

* `Disks.step` — one call;
* `Refines` — what the disks have in common with a store;
* `refines_of_step` — a call does what it does to the store, or panics;
* `disks_store_iff` — when the disks are a store, over a whole run.
-/

namespace Stratamoto.Dst

open Machines

/-! ## The disks -/

structure Disks where
  /-- The filesystems that there are handles of. -/
  handles : AList fun _ : SocketAddr => FileSystem
  /-- What has been opened or created, and where. -/
  files : List (SocketAddr × File)
  outcomes : List Outcome

inductive DiskCall where
  | localHandle (addr : SocketAddr)
  | open_ (addr : SocketAddr) (path : PathBuf)
  | create (addr : SocketAddr) (path : PathBuf)
  /-- A call on what was opened or created `n`-th. -/
  | call (n : Nat) (op : FileOp)
  deriving DecidableEq

namespace Disks

def new : Disks := ⟨∅, [], []⟩

def localHandle (d : Disks) (addr : SocketAddr) : AList fun _ : SocketAddr => FileSystem :=
  match d.handles.lookup addr with
  | some _ => d.handles
  | none => d.handles.insert addr .new

/-- One call, if there is the handle that it is made on. -/
def step (d : Disks) : DiskCall → Option Disks
  | .localHandle addr =>
    some ⟨d.localHandle addr, d.files, d.outcomes ++ [.ok (.ok .done)]⟩
  | .open_ addr path =>
    (d.handles.lookup addr).map fun w =>
      match w.open_ path with
      | .ok f => ⟨d.handles, d.files ++ [(addr, f)], d.outcomes ++ [.ok (.ok .done)]⟩
      | .error e => ⟨d.handles, d.files, d.outcomes ++ [.ok (.error e)]⟩
  | .create addr path =>
    (d.handles.lookup addr).map fun w =>
      ⟨d.handles.insert addr (w.create path).1, d.files ++ [(addr, (w.create path).2)],
        d.outcomes ++ [.ok (.ok .done)]⟩
  | .call n op =>
    d.files[n]?.bind fun (addr, f) => (d.handles.lookup addr).map fun w =>
      ⟨d.handles.insert addr (w.call f op).1, d.files, d.outcomes ++ [(w.call f op).2]⟩

end Disks

/-! ## A store -/

/-- The call writes, and the handle is to read. -/
def FileOp.refused (canWrite : Bool) : FileOp → Bool
  | .writeAllAt _ _ => !canWrite
  | .readAt _ _ | .setLen _ => false

/-- What the disks are for. -/
structure Store where
  contents : SocketAddr → PathBuf → Option (List UInt8)
  /-- What a handle is for, and whether it may write there. -/
  files : List (SocketAddr × PathBuf × Bool)
  outcomes : List Outcome

namespace Store

def empty : Store := ⟨fun _ _ => none, [], []⟩

/-- What the path names, a byte array without bytes if it has none. -/
def data (s : Store) (addr : SocketAddr) (path : PathBuf) : List UInt8 :=
  (s.contents addr path).getD []

def put (s : Store) (addr : SocketAddr) (path : PathBuf) (data : List UInt8) :
    SocketAddr → PathBuf → Option (List UInt8) :=
  Function.update s.contents addr (Function.update (s.contents addr) path (some data))

def step (s : Store) : DiskCall → Store
  | .localHandle _ => { s with outcomes := s.outcomes ++ [.ok (.ok .done)] }
  | .open_ addr path =>
    match s.contents addr path with
    | some _ =>
      { s with
        files := s.files ++ [(addr, path, false)]
        outcomes := s.outcomes ++ [.ok (.ok .done)] }
    | none => { s with outcomes := s.outcomes ++ [.ok (.error (.notFound path))] }
  | .create addr path =>
    ⟨s.put addr path (s.data addr path), s.files ++ [(addr, path, true)],
      s.outcomes ++ [.ok (.ok .done)]⟩
  | .call n op =>
    match s.files[n]? with
    | none => { s with outcomes := s.outcomes ++ [.ok (.ok .done)] }
    | some (addr, path, canWrite) =>
      if op.refused canWrite then
        { s with
          outcomes := s.outcomes ++ [.ok (.error (.permissionDenied "the file is read only"))] }
      else
        { s with
          contents := s.put addr path (Contents.step (s.data addr path) op).1
          outcomes := s.outcomes ++ [.ok (.ok (Contents.step (s.data addr path) op).2)] }

def run (calls : List DiskCall) : Store := calls.foldl step empty

/-- A call that is not refused begins within the byte array, or at its end, and does not
extend it past the largest `isize`. -/
def Allows (s : Store) : DiskCall → Prop
  | .localHandle _ | .open_ _ _ | .create _ _ => True
  | .call n op => ∀ addr path canWrite, s.files[n]? = some (addr, path, canWrite) →
      op.refused canWrite = false → op.Within (s.data addr path).length

theorem run_snoc (calls : List DiskCall) (call : DiskCall) :
    run (calls ++ [call]) = (run calls).step call := by
  rw [run, List.foldl_append]
  rfl

/-- A store has an outcome for every call, and never a panic. -/
theorem outcomes_step (s : Store) (call : DiskCall) :
    ∃ outcome, (s.step call).outcomes = s.outcomes ++ [.ok outcome] := by
  unfold step
  split
  · exact ⟨_, rfl⟩
  · split
    · exact ⟨_, rfl⟩
    · exact ⟨_, rfl⟩
  · exact ⟨_, rfl⟩
  · split
    · exact ⟨_, rfl⟩
    · split
      · exact ⟨_, rfl⟩
      · exact ⟨_, rfl⟩

theorem put_self (s : Store) (addr : SocketAddr) (path : PathBuf) (data : List UInt8) :
    s.put addr path data addr path = some data := by
  rw [put, Function.update_self, Function.update_self]

theorem put_of_ne (s : Store) {addr addr' : SocketAddr} {path path' : PathBuf} (data : List UInt8)
    (h : ¬ (addr' = addr ∧ path' = path)) :
    s.put addr path data addr' path' = s.contents addr' path' := by
  rw [put]
  by_cases hAddr : addr' = addr
  · subst hAddr
    rw [Function.update_self, Function.update_of_ne fun hPath => h ⟨rfl, hPath⟩]
  · rw [Function.update_of_ne hAddr]

end Store

/-! ## One filesystem -/

namespace FileSystem

/-- The file of a path. -/
def file (w : FileSystem) (path : PathBuf) : Option (RwLock (List UInt8)) :=
  (w.fs.lookup path).map w.inodes

theorem call_fs (w : FileSystem) (f : File) (op : FileOp) : (w.call f op).1.fs = w.fs := by
  have hWrite : ∀ written, (w.write f.inode written).1.fs = w.fs := fun _ => rfl
  unfold call
  cases op with
  | readAt buf offset =>
    simp only
    split
    · rfl
    · split <;> rfl
  | writeAllAt buf offset =>
    simp only
    split
    · rfl
    · split
      · rfl
      · exact hWrite _
  | setLen size =>
    simp only
    split
    · rfl
    · exact hWrite _

theorem lookup_create (w : FileSystem) (path : PathBuf) :
    (w.create path).1.fs.lookup path = some (w.create path).2.inode ∧
      (w.create path).2.canWrite = true := by
  unfold create
  split
  · rename_i inode hLookup
    exact ⟨hLookup, rfl⟩
  · exact ⟨AList.lookup_insert _, rfl⟩

theorem lookup_create_of_some {w : FileSystem} {path path' : PathBuf} {inode : Nat}
    (h : w.fs.lookup path' = some inode) : (w.create path).1.fs.lookup path' = some inode := by
  unfold create
  split
  · exact h
  · rename_i hNone
    have hNe : path' ≠ path := by
      rintro rfl
      rw [hNone] at h
      cases h
    exact (AList.lookup_insert_ne hNe).trans h

/-- A path that had no file has an empty one, and the other paths what they had. -/
theorem file_create (w : FileSystem) (path path' : PathBuf) :
    (w.create path).1.file path' =
      if path' = path then some ((w.file path).getD ⟨[], false⟩) else w.file path' := by
  unfold create file
  cases hLookup : w.fs.lookup path with
  | some inode =>
    simp only [Option.map_some, Option.getD_some]
    split
    · rename_i hPath
      rw [hPath, hLookup, Option.map_some]
    · rfl
  | none =>
    simp only [Option.map_none, Option.getD_none, addInode]
    split
    · rename_i hPath
      rw [hPath, AList.lookup_insert, Option.map_some, Function.update_self]
    · rename_i hPath
      rw [AList.lookup_insert_ne hPath]
      -- the inodes of the others are older than the new one
      cases hOther : w.fs.lookup path' with
      | none => rfl
      | some inode =>
        have hOlder := w.lt_count path' inode hOther
        rw [Option.map_some, Option.map_some, Function.update_of_ne (Nat.ne_of_lt hOlder)]

/-- A call on the file of a path leaves those of the other paths as they are. -/
theorem file_call {w : FileSystem} {f : File} {path : PathBuf}
    (hFile : w.fs.lookup path = some f.inode) (op : FileOp) (path' : PathBuf) :
    (w.call f op).1.file path' =
      if path' = path then some ((w.call f op).1.inodes f.inode) else w.file path' := by
  unfold file
  rw [call_fs]
  split
  · rename_i hPath
    rw [hPath, hFile, Option.map_some]
  · rename_i hPath
    cases hOther : w.fs.lookup path' with
    | none => rfl
    | some inode =>
      have hNe : inode ≠ f.inode := by
        rintro rfl
        exact hPath (w.injective _ _ _ hOther hFile)
      rw [Option.map_some, Option.map_some, call_frame w f op hNe]

/-- A handle matters to a write only. -/
theorem call_of_not_refused {w : FileSystem} {f : File} {op : FileOp}
    (h : op.refused f.canWrite = false) : w.call f op = w.call { f with canWrite := true } op := by
  cases op with
  | readAt buf offset => rfl
  | setLen size => rfl
  | writeAllAt buf offset =>
    have hWrite : f.canWrite = true := by simpa only [FileOp.refused, Bool.not_eq_false'] using h
    obtain ⟨inode, canWrite⟩ := f
    obtain rfl : canWrite = true := hWrite
    rfl

/-- A call that is refused does nothing else. -/
theorem call_of_refused {w : FileSystem} {f : File} {op : FileOp}
    (h : op.refused f.canWrite = true) :
    w.call f op = (w, .ok (.error (.permissionDenied "the file is read only"))) := by
  cases op with
  | readAt buf offset => cases h
  | setLen size => cases h
  | writeAllAt buf offset =>
    have hRead : (!f.canWrite) = true := h
    simp only [call, hRead, if_true]

end FileSystem

/-! ## One call -/

namespace Disks

def file (d : Disks) (addr : SocketAddr) (path : PathBuf) : Option (RwLock (List UInt8)) :=
  (d.handles.lookup addr).bind (·.file path)

/-- A handle is for the file of the path at the address. -/
structure OpenAt (handles : AList fun _ : SocketAddr => FileSystem) (opened : SocketAddr × File)
    (named : SocketAddr × PathBuf × Bool) : Prop where
  addr : opened.1 = named.1
  canWrite : opened.2.canWrite = named.2.2
  inode : ∃ w, handles.lookup named.1 = some w ∧ w.fs.lookup named.2.1 = some opened.2.inode

/-- It stays so if no filesystem loses a path. -/
theorem OpenAt.imp {handles handles' : AList fun _ : SocketAddr => FileSystem}
    {opened : SocketAddr × File} {named : SocketAddr × PathBuf × Bool}
    (h : OpenAt handles opened named)
    (hKept : ∀ addr w, handles.lookup addr = some w → ∃ w', handles'.lookup addr = some w' ∧
      ∀ path inode, w.fs.lookup path = some inode → w'.fs.lookup path = some inode) :
    OpenAt handles' opened named := by
  obtain ⟨w, hHandle, hInode⟩ := h.inode
  obtain ⟨w', hHandle', hPaths⟩ := hKept _ w hHandle
  exact ⟨h.addr, h.canWrite, w', hHandle', hPaths _ _ hInode⟩

/-- The disks are the store: what is named is what is there, the handles are for the
same, and the calls have had the same outcomes. -/
structure Refines (d : Disks) (s : Store) : Prop where
  contents : ∀ addr path, d.file addr path = (s.contents addr path).map (⟨·, false⟩)
  files : List.Forall₂ (OpenAt d.handles) d.files s.files
  outcomes : d.outcomes = s.outcomes

theorem refines_new : Refines new .empty := ⟨fun _ _ => rfl, .nil, rfl⟩

/-- What a path at an address is, after one of the filesystems was replaced. -/
theorem bind_insert {handles : AList fun _ : SocketAddr => FileSystem} {addr : SocketAddr}
    (w' : FileSystem) (addr' : SocketAddr) (path : PathBuf) :
    ((handles.insert addr w').lookup addr').bind (·.file path) =
      if addr' = addr then w'.file path else (handles.lookup addr').bind (·.file path) := by
  split
  · rename_i hAddr
    rw [hAddr, AList.lookup_insert, Option.bind_some]
  · rename_i hAddr
    rw [AList.lookup_insert_ne hAddr]

/-- Replacing a filesystem by one with the same paths and more loses no path. -/
theorem kept_insert {handles : AList fun _ : SocketAddr => FileSystem} {addr : SocketAddr}
    {w w' : FileSystem} (hHandle : handles.lookup addr = some w)
    (hPaths : ∀ path inode, w.fs.lookup path = some inode → w'.fs.lookup path = some inode)
    (addr' : SocketAddr) (w₁ : FileSystem) (h : handles.lookup addr' = some w₁) :
    ∃ w₂, (handles.insert addr w').lookup addr' = some w₂ ∧
      ∀ path inode, w₁.fs.lookup path = some inode → w₂.fs.lookup path = some inode := by
  by_cases hAddr : addr' = addr
  · subst hAddr
    obtain rfl := Option.some.inj (hHandle.symm.trans h)
    exact ⟨w', AList.lookup_insert _, hPaths⟩
  · exact ⟨w₁, (AList.lookup_insert_ne hAddr).trans h, fun _ _ hPath => hPath⟩

variable {d d' : Disks} {s : Store}

/-- A new filesystem is empty. -/
theorem Refines.localHandle (h : Refines d s) (addr : SocketAddr) :
    Refines ⟨d.localHandle addr, d.files, d.outcomes ++ [.ok (.ok .done)]⟩
      (s.step (.localHandle addr)) := by
  have hOutcomes : d.outcomes ++ [.ok (.ok .done)] = s.outcomes ++ [.ok (.ok .done)] := by
    rw [h.outcomes]
  unfold Disks.localHandle
  cases hHandle : d.handles.lookup addr with
  | some w => exact ⟨h.contents, h.files, hOutcomes⟩
  | none =>
    refine ⟨fun addr' path => ?_, h.files.imp fun _ _ hOpen => hOpen.imp ?_, hOutcomes⟩
    · rw [file, bind_insert]
      split
      · rename_i hAddr
        -- nothing was there before
        have hBefore := h.contents addr' path
        rw [file, hAddr, hHandle, Option.bind_none] at hBefore
        rw [hAddr]
        exact hBefore
      · exact h.contents addr' path
    · intro addr' w hOther
      have hNe : addr' ≠ addr := by
        rintro rfl
        rw [hHandle] at hOther
        cases hOther
      exact ⟨w, (AList.lookup_insert_ne hNe).trans hOther, fun _ _ hPath => hPath⟩

theorem Refines.open_ (h : Refines d s) {addr : SocketAddr} {path : PathBuf}
    (hStep : d.step (.open_ addr path) = some d') : Refines d' (s.step (.open_ addr path)) := by
  obtain ⟨w, hHandle, rfl⟩ := Option.map_eq_some_iff.mp hStep
  have hHere := h.contents addr path
  rw [file, hHandle, Option.bind_some, FileSystem.file] at hHere
  simp only [Store.step, FileSystem.open_]
  cases hPath : w.fs.lookup path with
  | none =>
    -- the store has nothing there either
    rw [hPath, Option.map_none] at hHere
    have hNone : s.contents addr path = none := Option.map_eq_none_iff.mp hHere.symm
    rw [hNone]
    exact ⟨h.contents, h.files, congrArg (· ++ _) h.outcomes⟩
  | some inode =>
    rw [hPath, Option.map_some] at hHere
    obtain ⟨data, hData, -⟩ := Option.map_eq_some_iff.mp hHere.symm
    rw [hData]
    refine ⟨h.contents, ?_, congrArg (· ++ _) h.outcomes⟩
    exact List.rel_append h.files (.cons ⟨rfl, rfl, w, hHandle, hPath⟩ .nil)

theorem Refines.create (h : Refines d s) {addr : SocketAddr} {path : PathBuf}
    (hStep : d.step (.create addr path) = some d') : Refines d' (s.step (.create addr path)) := by
  obtain ⟨w, hHandle, rfl⟩ := Option.map_eq_some_iff.mp hStep
  obtain ⟨hInode, hWrite⟩ := w.lookup_create path
  refine ⟨fun addr' path' => ?_, ?_, congrArg (· ++ _) h.outcomes⟩
  · have hHere := h.contents addr
    simp only [file, hHandle, Option.bind_some] at hHere
    show ((d.handles.insert addr _).lookup addr').bind _ =
      (s.put addr path (s.data addr path) addr' path').map _
    rw [bind_insert, w.file_create]
    by_cases hSame : addr' = addr ∧ path' = path
    · obtain ⟨rfl, rfl⟩ := hSame
      rw [if_pos rfl, if_pos rfl, Store.put_self, hHere, Store.data]
      cases s.contents addr' path' with
      | none => rfl
      | some data => rfl
    · rw [Store.put_of_ne s _ hSame]
      split
      · rename_i hAddr
        rw [if_neg fun hPath => hSame ⟨hAddr, hPath⟩, hHere path', hAddr]
      · exact h.contents addr' path'
  · have hPaths (path' : PathBuf) (inode : Nat) (hPath : w.fs.lookup path' = some inode) :
        (w.create path).1.fs.lookup path' = some inode := FileSystem.lookup_create_of_some hPath
    have hKept := kept_insert hHandle hPaths
    refine List.rel_append (h.files.imp fun _ _ hOpen => hOpen.imp hKept) (.cons ?_ .nil)
    exact ⟨rfl, hWrite, _, AList.lookup_insert _, hInode⟩

/-- A call on a handle does what it does to the byte array, or panics. -/
theorem Refines.call (h : Refines d s) {n : Nat} {op : FileOp} (hFits : op.Fits)
    (hStep : d.step (.call n op) = some d') :
    (s.Allows (.call n op) ∧ Refines d' (s.step (.call n op))) ∨
      (¬ s.Allows (.call n op) ∧ ∃ panic, d'.outcomes = d.outcomes ++ [.error panic]) := by
  obtain ⟨⟨addr, f⟩, hFile, hStep⟩ := Option.bind_eq_some_iff.mp hStep
  obtain ⟨w, hHandle, rfl⟩ := Option.map_eq_some_iff.mp hStep
  obtain ⟨⟨addr', path, canWrite⟩, hNamed, hOpen⟩ : ∃ named, s.files[n]? = some named ∧
      OpenAt d.handles (addr, f) named := by
    obtain ⟨hn, hFile⟩ := List.getElem?_eq_some_iff.mp hFile
    have hn' : n < s.files.length := h.files.length_eq ▸ hn
    refine ⟨s.files[n], List.getElem?_eq_getElem hn', ?_⟩
    rw [← hFile]
    exact List.Forall₂.get h.files hn hn'
  obtain ⟨rfl, hCanWrite, w₁, hHandle₁, hInode⟩ := hOpen
  obtain rfl := Option.some.inj (hHandle.symm.trans hHandle₁)
  obtain rfl : f.canWrite = canWrite := hCanWrite
  replace hInode : w.fs.lookup path = some f.inode := hInode
  -- what the store has there is what the inode holds, and no call on it has panicked
  have hHere := h.contents addr
  simp only [file, hHandle, Option.bind_some] at hHere
  have hValue := hHere path
  rw [FileSystem.file, hInode, Option.map_some] at hValue
  obtain ⟨data, hData, hLock⟩ := Option.map_eq_some_iff.mp hValue.symm
  have hContents : w.contents f = s.data addr path := by
    rw [FileSystem.contents, ← hLock, Store.data, hData, Option.getD_some]
  have hKept := kept_insert hHandle fun path' inode hPath => (w.call_fs f op).symm ▸ hPath
  have hFiles := h.files.imp fun _ _ hOpen => hOpen.imp hKept
  simp only [Store.Allows, Store.step, hNamed, Option.some.injEq, Prod.mk.injEq]
  cases hRefused : op.refused f.canWrite with
  | true =>
    refine Or.inl ⟨?_, ?_⟩
    · rintro _ _ _ ⟨rfl, rfl, rfl⟩ hNot
      rw [hRefused] at hNot
      cases hNot
    · rw [if_pos rfl]
      refine ⟨fun addr' path' => ?_, hFiles, ?_⟩
      · rw [file, bind_insert, FileSystem.call_of_refused hRefused]
        split
        · rename_i hAddr
          rw [hAddr]
          exact hHere path'
        · exact h.contents addr' path'
      · rw [FileSystem.call_of_refused hRefused, h.outcomes]
  | false =>
    have hCall := FileSystem.call_of_not_refused (w := w) hRefused
    rcases FileSystem.call_eq_contents (w := w) (f := { f with canWrite := true }) rfl
      (by rw [← hLock]) hFits with ⟨hWithin, hAfter, hReply⟩ | ⟨hNot, panic, hPanic⟩
    · rw [← hCall] at hAfter hReply
      refine Or.inl ⟨?_, ?_⟩
      · rintro _ _ _ ⟨rfl, rfl, rfl⟩ -
        rw [← hContents]
        exact hWithin
      · rw [if_neg Bool.false_ne_true]
        refine ⟨fun addr' path' => ?_, hFiles, ?_⟩
        · show ((d.handles.insert addr _).lookup addr').bind _ =
            (s.put addr path _ addr' path').map _
          rw [bind_insert, FileSystem.file_call hInode]
          by_cases hSame : addr' = addr ∧ path' = path
          · obtain ⟨rfl, rfl⟩ := hSame
            rw [if_pos rfl, if_pos rfl, Store.put_self, ← hContents]
            exact congrArg some hAfter
          · rw [Store.put_of_ne s _ hSame]
            split
            · rename_i hAddr
              rw [if_neg fun hPath => hSame ⟨hAddr, hPath⟩, hHere path', hAddr]
            · exact h.contents addr' path'
        · rw [hReply, h.outcomes, ← hContents]
          rfl
    · refine Or.inr ⟨fun hAllows => hNot ?_, panic, ?_⟩
      · have hWithin := hAllows addr path f.canWrite ⟨rfl, rfl, rfl⟩ hRefused
        rw [← hContents] at hWithin
        exact hWithin
      · rw [hCall, hPanic]

/-- **A call on the disks** does what it does to the store, if it is allowed, and panics
if not. -/
theorem refines_of_step (h : Refines d s) {call : DiskCall}
    (hFits : ∀ n op, call = .call n op → op.Fits) (hStep : d.step call = some d') :
    (s.Allows call ∧ Refines d' (s.step call)) ∨
      (¬ s.Allows call ∧ ∃ panic, d'.outcomes = d.outcomes ++ [.error panic]) := by
  cases call with
  | localHandle addr =>
    obtain rfl := Option.some.inj hStep
    exact Or.inl ⟨trivial, h.localHandle addr⟩
  | open_ addr path => exact Or.inl ⟨trivial, h.open_ hStep⟩
  | create addr path => exact Or.inl ⟨trivial, h.create hStep⟩
  | call n op => exact h.call (hFits n op rfl) hStep

/-! ## Runs -/

/-- There is an outcome for every call. -/
theorem outcomes_of_step {call : DiskCall} (hStep : d.step call = some d') :
    ∃ outcome, d'.outcomes = d.outcomes ++ [outcome] := by
  cases call with
  | localHandle addr =>
    obtain rfl := Option.some.inj hStep
    exact ⟨_, rfl⟩
  | open_ addr path =>
    obtain ⟨w, -, rfl⟩ := Option.map_eq_some_iff.mp hStep
    split
    · exact ⟨_, rfl⟩
    · exact ⟨_, rfl⟩
  | create addr path =>
    obtain ⟨w, -, rfl⟩ := Option.map_eq_some_iff.mp hStep
    exact ⟨_, rfl⟩
  | call n op =>
    obtain ⟨⟨addr, f⟩, -, hStep⟩ := Option.bind_eq_some_iff.mp hStep
    obtain ⟨w, -, rfl⟩ := Option.map_eq_some_iff.mp hStep
    exact ⟨_, rfl⟩

theorem outcomes_of_exec {calls : List DiskCall} (h : exec step d calls = some d') :
    ∃ outcomes, d'.outcomes = d.outcomes ++ outcomes ∧ outcomes.length = calls.length := by
  induction calls generalizing d with
  | nil =>
    obtain rfl := Option.some.inj h
    exact ⟨[], (List.append_nil _).symm, rfl⟩
  | cons call calls ih =>
    obtain ⟨d₁, hStep, hRest⟩ := exec_cons_iff.mp h
    obtain ⟨outcome, hFirst⟩ := outcomes_of_step hStep
    obtain ⟨outcomes, hLater, hLength⟩ := ih hRest
    refine ⟨outcome :: outcomes, ?_, by rw [List.length_cons, List.length_cons, hLength]⟩
    rw [hLater, hFirst, List.append_assoc, List.singleton_append]

/-- Every call of the run is allowed when it is made. -/
def Allowed (calls : List DiskCall) : Prop :=
  ∀ front call back, calls = front ++ call :: back → (Store.run front).Allows call

theorem allowed_nil : Allowed [] := by
  intro front call back hSplit
  exact absurd hSplit.symm (List.append_ne_nil_of_right_ne_nil _ (List.cons_ne_nil _ _))

theorem allowed_snoc_iff {calls : List DiskCall} {call : DiskCall} :
    Allowed (calls ++ [call]) ↔ Allowed calls ∧ (Store.run calls).Allows call := by
  constructor
  · intro h
    refine ⟨fun front call' back hSplit => ?_, h calls call [] rfl⟩
    exact h front call' (back ++ [call]) (by rw [hSplit, List.append_assoc, List.cons_append])
  · rintro ⟨hFront, hLast⟩ front call' back hSplit
    rcases List.eq_nil_or_concat back with rfl | ⟨back, last, rfl⟩
    · obtain ⟨rfl, hCall⟩ := List.append_inj' hSplit rfl
      exact List.singleton_inj.mp hCall ▸ hLast
    · rw [List.concat_eq_append, ← List.cons_append, ← List.append_assoc] at hSplit
      exact hFront front call' back (List.append_inj' hSplit rfl).1

/-- The outcomes are those of the store as long as the calls are allowed, and then the
disks are the store. -/
theorem refines_of_exec {calls : List DiskCall}
    (hFits : ∀ n op, DiskCall.call n op ∈ calls → op.Fits)
    (h : exec step new calls = some d) :
    (d.outcomes = (Store.run calls).outcomes ↔ Allowed calls) ∧
      (Allowed calls → Refines d (Store.run calls)) := by
  induction calls using List.reverseRecOn generalizing d with
  | nil =>
    obtain rfl := Option.some.inj h
    exact ⟨iff_of_true rfl allowed_nil, fun _ => refines_new⟩
  | append_singleton calls call ih =>
    obtain ⟨d₁, hFront, hStep⟩ := exec_snoc_iff.mp h
    obtain ⟨hOutcomes, hRefines⟩ :=
      ih (fun n op hMem => hFits n op (List.mem_append_left _ hMem)) hFront
    have hLast : ∀ n op, call = .call n op → op.Fits := by
      rintro n op rfl
      exact hFits n op (List.mem_append_right _ (List.mem_singleton_self _))
    obtain ⟨outcome, hDisks⟩ := outcomes_of_step hStep
    obtain ⟨outcome', hStore⟩ := (Store.run calls).outcomes_step call
    rw [Store.run_snoc, allowed_snoc_iff]
    refine ⟨⟨fun hSame => ?_, ?_⟩, ?_⟩
    · -- the outcomes before the last were the same
      rw [hDisks, hStore] at hSame
      obtain ⟨hBefore, hHere⟩ := List.append_inj' hSame rfl
      have hAllowed := hOutcomes.mp hBefore
      rcases refines_of_step (hRefines hAllowed) hLast hStep with
        ⟨hAllows, -⟩ | ⟨-, panic, hPanic⟩
      · exact ⟨hAllowed, hAllows⟩
      · rw [hDisks] at hPanic
        have hHere := List.singleton_inj.mp hHere
        rw [hHere] at hPanic
        cases List.singleton_inj.mp (List.append_cancel_left hPanic)
    · rintro ⟨hAllowed, hAllows⟩
      rcases refines_of_step (hRefines hAllowed) hLast hStep with ⟨-, hNext⟩ | ⟨hNot, -⟩
      · exact hNext.outcomes
      · exact absurd hAllows hNot
    · rintro ⟨hAllowed, hAllows⟩
      rcases refines_of_step (hRefines hAllowed) hLast hStep with ⟨-, hNext⟩ | ⟨hNot, -⟩
      · exact hNext
      · exact absurd hAllows hNot

/-- The first call of a run that is not allowed panics. -/
theorem panics_of_not_allowed {front back : List DiskCall} {call : DiskCall}
    (hFits : ∀ n op, DiskCall.call n op ∈ front ++ call :: back → op.Fits)
    (h : exec step new (front ++ call :: back) = some d) (hAllowed : Allowed front)
    (hNot : ¬ (Store.run front).Allows call) :
    ∃ panic, d.outcomes[front.length]? = some (.error panic) := by
  obtain ⟨d₁, hFront, hRest⟩ := exec_append_iff.mp h
  obtain ⟨d₂, hStep, hBack⟩ := exec_cons_iff.mp hRest
  have hRefines := (refines_of_exec (fun n op hMem => hFits n op (List.mem_append_left _ hMem))
    hFront).2 hAllowed
  obtain ⟨before, hBefore, hLength⟩ := outcomes_of_exec hFront
  obtain ⟨after, hAfter, -⟩ := outcomes_of_exec hBack
  have hHere : ∀ n op, call = .call n op → op.Fits := by
    rintro n op rfl
    exact hFits n op (List.mem_append_right _ List.mem_cons_self)
  rcases refines_of_step hRefines hHere hStep with ⟨hAllows, -⟩ | ⟨-, panic, hPanic⟩
  · exact absurd hAllows hNot
  · refine ⟨panic, ?_⟩
    rw [new, List.nil_append] at hBefore
    rw [hAfter, hPanic, hBefore, List.append_assoc, ← hLength,
      List.getElem?_append_right (Nat.le_refl _), Nat.sub_self]
    rfl

/-- **When the disks are a store.** In every run, at any number of addresses and on
any handles in any order, the calls have the outcomes they have on byte arrays that
an address and a path name, if and only if every call that is not refused begins
within its byte array, or at its end, and does not extend it past the largest
`isize`; the first that does not panics. And if all do, what is on the disks is what
is in the store, and the handles are for it. -/
theorem disks_store_iff {calls : List DiskCall}
    (hFits : ∀ n op, DiskCall.call n op ∈ calls → op.Fits)
    (h : exec step new calls = some d) :
    (d.outcomes = (Store.run calls).outcomes ↔ Allowed calls) ∧
      (Allowed calls → Refines d (Store.run calls)) ∧
      ∀ front call back, calls = front ++ call :: back → Allowed front →
        ¬ (Store.run front).Allows call →
          ∃ panic, d.outcomes[front.length]? = some (.error panic) := by
  obtain ⟨hOutcomes, hRefines⟩ := refines_of_exec hFits h
  refine ⟨hOutcomes, hRefines, fun front call back hSplit hAllowed hNot => ?_⟩
  subst hSplit
  exact panics_of_not_allowed hFits h hAllowed hNot

/-- Two addresses have a file of one path, and one of them is read over a handle to
read while the other stays empty. -/
def twoLogs : List DiskCall :=
  [.localHandle (Simulation.endpoint 1), .localHandle (Simulation.endpoint 2),
    .create (Simulation.endpoint 1) ["log"], .create (Simulation.endpoint 2) ["log"],
    .call 0 (.writeAllAt [1, 2] 0), .open_ (Simulation.endpoint 1) ["log"],
    .call 2 (.writeAllAt [9] 0), .call 2 (.readAt [0, 0, 0] 0), .call 1 (.readAt [0] 0)]

theorem disks_store_iff_twoLogs : ∃ d : Disks, exec step new twoLogs = some d ∧
    d.outcomes.getLast? = some (.ok (.ok (.read [0] 0))) ∧ Refines d (Store.run twoLogs) := by
  obtain ⟨d, hRun, hOutcomes, hLast⟩ : ∃ d : Disks, exec step new twoLogs = some d ∧
      d.outcomes = (Store.run twoLogs).outcomes ∧
      d.outcomes.getLast? = some (.ok (.ok (.read [0] 0))) := ⟨_, rfl, rfl, rfl⟩
  have hFits : ∀ n op, DiskCall.call n op ∈ twoLogs → op.Fits := by
    intro n op hMem
    have hSmall : 3 ≤ usizeMax := by decide
    simp only [twoLogs, List.mem_cons, reduceCtorEq, DiskCall.call.injEq, List.not_mem_nil,
      or_false, false_or] at hMem
    rcases hMem with ⟨-, rfl⟩ | ⟨-, rfl⟩ | ⟨-, rfl⟩ | ⟨-, rfl⟩
    · exact Nat.le_of_succ_le hSmall
    · exact Nat.le_trans (by decide) hSmall
    · exact hSmall
    · exact Nat.le_trans (by decide) hSmall
  obtain ⟨hAllowed, hRefines, -⟩ := disks_store_iff hFits hRun
  exact ⟨d, hRun, hLast, hRefines (hAllowed.mp hOutcomes)⟩

end Disks

end Stratamoto.Dst
