import DBSos.Linux.Files

/-!
# Two numberings of open files

`Session` keeps which Linux task opened a file of the VFS and which file an entry
refers to; the entry itself holds only a path. The calls that close an entry close the
VFS descriptor of the same number: the right one as long as each file is opened under
the number of its entry.
-/

namespace DBSos.Linux

open DBSos.Lib
open DBSos.Vfs (Tables Fd Flags VfsFile)

namespace World

variable {δ ρ : Type} {w : World δ ρ} {i j : Slot}

/-- `fds[idx].in_use`. -/
def inUse (w : World δ ρ) (i : Slot) (idx : FdIdx) : Bool := ((w.tasks i).fds idx).inUse

/-- A file of the VFS that is open. -/
def isOpen (w : World δ ρ) (fd : Fd) : Bool := (w.vfs.openFiles fd).isSome

theorem setFd_fds (idx other : FdIdx) (entry : LinuxFd) :
    ((w.setFd i idx entry).tasks j).fds other =
      if j = i ∧ other = idx then entry else (w.tasks j).fds other := by
  by_cases here : j = i
  · subst here
    simp only [setFd, modify_same, true_and]
    by_cases same : other = idx
    · subst same
      simp
    · simp [same]
  · rw [setFd, modify_other here, if_neg fun both => here both.1]

theorem setFd_inUse (idx other : FdIdx) (entry : LinuxFd) :
    (w.setFd i idx entry).inUse j other =
      if j = i ∧ other = idx then entry.inUse else w.inUse j other := by
  simp only [inUse, setFd_fds]
  split_ifs <;> rfl

theorem allocFd_idle {idx : FdIdx} (found : w.allocFd i = some idx) : w.inUse i idx = false := by
  have test := List.find?_some (p := fun idx => !((w.tasks i).fds idx).inUse) found
  simpa [inUse] using test

theorem vfsClose_openFiles (w : World δ ρ) (fd : Fd) :
    (w.vfsClose fd).vfs.openFiles = Function.update w.vfs.openFiles fd none :=
  w.vfs.close_openFiles fd

/-! ## Opening -/

/-- The entry and the VFS descriptor of a `sys_open` that succeeds. -/
def openedBy (w : World δ ρ) (i : Slot) (pathPtr : BitVec 64) (flags : BitVec 32) :
    Option (FdIdx × Fd) :=
  (w.copyPathFromUser pathPtr).bind fun path =>
    (w.allocFd i).bind fun idx =>
      ((w.vfsOpen path (openMode flags)).1).map fun fd => (idx, fd)

theorem errno_neg {code : Nat} (positive : 0 < code) (small : code < 2 ^ 63) :
    (errno code).toInt < 0 := by
  rw [errno, BitVec.toInt_ofInt_eq_self (by decide) (by omega) (by omega)]
  omega

theorem fd_nonneg (fd : Fd) : (BitVec.ofNat 64 fd.val).toInt = fd.val := by
  have small : fd.val < 64 := fd.isLt
  rw [BitVec.toInt_eq_toNat_of_lt (by simp; omega)]
  simp
  omega

/-- A free entry that is marked free is what it was. -/
theorem setFd_idle {idx : FdIdx} (idle : w.inUse i idx = false) :
    (w.setFd i idx { (w.tasks i).fds idx with inUse := false }).tasks = w.tasks := by
  have same : ({ (w.tasks i).fds idx with inUse := false } : LinuxFd) = (w.tasks i).fds idx := by
    rw [← idle]
    rfl
  simp [setFd, modify, same]

theorem vfsOpen_none {path : Vector UInt8 128} {flags : Flags} {w1 : World δ ρ}
    (failed : w.vfsOpen path flags = (none, w1)) :
    w1.tasks = w.tasks ∧ w1.vfs.openFiles = w.vfs.openFiles := by
  have files := Tables.openFile_openFiles_none (congrArg Prod.fst failed)
  obtain rfl := congrArg Prod.snd failed
  exact ⟨rfl, files⟩

theorem vfsOpen_some {path : Vector UInt8 128} {flags : Flags} {w1 : World δ ρ} {fd : Fd}
    (opened : w.vfsOpen path flags = (some fd, w1)) :
    w.isOpen fd = false ∧ w1.tasks = w.tasks ∧
      ∃ file, w1.vfs.openFiles = Function.update w.vfs.openFiles fd (some file) := by
  obtain ⟨vacant, files⟩ := Tables.openFile_openFiles_some (congrArg Prod.fst opened)
  obtain rfl := congrArg Prod.snd opened
  refine ⟨?_, rfl, files⟩
  rw [isOpen]
  exact Option.isSome_eq_false_iff.mpr (Option.isNone_iff_eq_none.mpr vacant)

/-- A `sys_open` that fails leaves both tables. -/
theorem sysOpen_none {pathPtr : BitVec 64} {flags : BitVec 32}
    (failed : w.openedBy i pathPtr flags = none) :
    (w.sysOpen i pathPtr flags).1.toInt < 0 ∧ (w.sysOpen i pathPtr flags).2.tasks = w.tasks ∧
      (w.sysOpen i pathPtr flags).2.vfs.openFiles = w.vfs.openFiles := by
  unfold sysOpen
  cases copied : w.copyPathFromUser pathPtr with
  | none => exact ⟨errno_neg (by decide) (by decide), rfl, rfl⟩
  | some path =>
    cases found : w.allocFd i with
    | none => exact ⟨errno_neg (by decide) (by decide), rfl, rfl⟩
    | some idx =>
      simp only [openedBy, copied, found, Option.bind_some, Option.map_eq_none_iff] at failed
      rcases opened : w.vfsOpen path (openMode flags) with ⟨fd, w1⟩
      rw [opened] at failed
      obtain rfl : fd = none := failed
      obtain ⟨tasks, files⟩ := vfsOpen_none opened
      have idle : w1.inUse i idx = false := by
        rw [inUse, tasks]
        exact allocFd_idle found
      simp only [opened]
      exact ⟨errno_neg (by decide) (by decide), by rw [← tasks, setFd_idle idle], files⟩

/-- One that succeeds fills a free entry and a free slot of the VFS, and returns the
number of the slot. -/
theorem sysOpen_some {pathPtr : BitVec 64} {flags : BitVec 32} {idx : FdIdx} {fd : Fd}
    (succeeded : w.openedBy i pathPtr flags = some (idx, fd)) :
    (w.sysOpen i pathPtr flags).1 = BitVec.ofNat 64 fd.val ∧ w.inUse i idx = false ∧
      w.isOpen fd = false ∧
      (∃ file, (w.sysOpen i pathPtr flags).2.vfs.openFiles =
        Function.update w.vfs.openFiles fd (some file)) ∧
      ∃ path size, w.copyPathFromUser pathPtr = some path ∧ (w.sysOpen i pathPtr flags).2.tasks =
        (w.setFd i idx ⟨true, path, 128, 0, size, flags⟩).tasks := by
  obtain ⟨path, copied, rest⟩ := Option.bind_eq_some_iff.mp succeeded
  obtain ⟨found, free, result⟩ := Option.bind_eq_some_iff.mp rest
  obtain ⟨slot, first, same⟩ := Option.map_eq_some_iff.mp result
  obtain ⟨rfl, rfl⟩ := Prod.mk.inj same
  rcases opened : w.vfsOpen path (openMode flags) with ⟨some', w1⟩
  rw [opened] at first
  obtain rfl : some' = some slot := first
  obtain ⟨vacant, tasks, files⟩ := vfsOpen_some opened
  unfold sysOpen
  simp only [copied, free, opened]
  refine ⟨trivial, allocFd_idle free, vacant, files, path, w1.vfs.fstat slot, rfl, ?_⟩
  simp only [setFd, modify, tasks]

/-! ## Closing -/

theorem sysClose_some {fd : BitVec 32} {idx : FdIdx} (used : w.usedFd i fd = some idx) :
    (w.sysClose i fd).2.vfs.openFiles = Function.update w.vfs.openFiles (sameNumber idx) none ∧
      ∀ j other, (w.sysClose i fd).2.inUse j other =
        if j = i ∧ other = idx then false else w.inUse j other := by
  simp only [sysClose, used]
  exact ⟨vfsClose_openFiles w _, fun j other => setFd_inUse idx other _⟩

theorem sysClose_none {fd : BitVec 32} (unused : w.usedFd i fd = none) :
    (w.sysClose i fd).2 = w := by
  simp only [sysClose, unused]

theorem exitFd_effect (w : World δ ρ) (i : Slot) (idx : FdIdx) :
    (∀ v, (w.exitFd i idx).vfs.openFiles v =
      if w.inUse i idx = true ∧ sameNumber idx = v then none else w.vfs.openFiles v) ∧
    ∀ j other, (w.exitFd i idx).inUse j other =
      if j = i ∧ other = idx then false else w.inUse j other := by
  unfold exitFd
  dsimp only
  by_cases used : w.inUse i idx = true
  · rw [if_pos (by exact used)]
    refine ⟨fun v => ?_, fun j other => setFd_inUse idx other _⟩
    change (w.vfsClose (sameNumber idx)).vfs.openFiles v = _
    rw [vfsClose_openFiles]
    by_cases here : v = sameNumber idx
    · subst here
      simp [used]
    · rw [Function.update_of_ne here, if_neg fun both => here both.2.symm]
  · rw [if_neg (by exact used)]
    refine ⟨fun v => by rw [if_neg fun both => used both.1], fun j other => ?_⟩
    split_ifs with here
    · rw [here.1, here.2]
      exact Bool.eq_false_iff.mpr used
    · rfl

/-- The loop of `sys_exit` closes what has the number of an entry in use. -/
theorem exitLoop_openFiles (list : List FdIdx) (w : World δ ρ) (v : Fd) :
    (list.foldl (fun w idx => w.exitFd i idx) w).vfs.openFiles v =
      if ∃ idx ∈ list, w.inUse i idx = true ∧ sameNumber idx = v then none
      else w.vfs.openFiles v := by
  induction list generalizing w with
  | nil => simp
  | cons idx rest ih =>
    obtain ⟨files, used⟩ := exitFd_effect w i idx
    rw [List.foldl_cons, ih, files]
    by_cases hit : w.inUse i idx = true ∧ sameNumber idx = v
    · have listed : ∃ other ∈ idx :: rest, w.inUse i other = true ∧ sameNumber other = v :=
        ⟨idx, .head _, hit⟩
      rw [if_pos hit, ite_self, if_pos listed]
    · rw [if_neg hit]
      congr 1
      refine propext ⟨?_, ?_⟩
      · rintro ⟨other, member, inUse, number⟩
        rw [used] at inUse
        split_ifs at inUse with here
        exact ⟨other, .tail _ member, inUse, number⟩
      · rintro ⟨other, member, inUse, number⟩
        have apart : other ≠ idx := by
          rintro rfl
          exact hit ⟨inUse, number⟩
        refine ⟨other, (List.mem_cons.mp member).resolve_left apart, ?_, number⟩
        rw [used, if_neg fun both => apart both.2, inUse]

theorem sysExit_openFiles (w : World δ ρ) (i : Slot) (status : BitVec 32) (v : Fd) :
    (w.sysExit i status).vfs.openFiles v =
      if ∃ idx, w.inUse i idx = true ∧ sameNumber idx = v then none else w.vfs.openFiles v := by
  rw [sysExit, exitLoop_openFiles]
  simp only [List.mem_finRange, true_and, inUse, modify_same]
  rfl

theorem sysExit_inUse (w : World δ ρ) (i j : Slot) (status : BitVec 32) (idx : FdIdx) :
    (w.sysExit i status).inUse j idx = if j = i then false else w.inUse j idx := by
  rw [inUse, sysExit_tasks]
  by_cases here : j = i
  · subst here
    simp
  · rw [modify_other here, if_neg here, inUse]

theorem toIdx_number (idx : FdIdx) :
    toIdx ((BitVec.ofNat 64 (sameNumber idx).val).setWidth 32) = some idx := by
  revert idx
  decide

/-- The two ends of a pipe are one entry, which was free. -/
theorem sysPipe_fills {fdsPtr : BitVec 64} {idx : FdIdx} (free : w.allocFd i = some idx) :
    (w.sysPipe i fdsPtr).2.vfs.openFiles = w.vfs.openFiles ∧
      ∀ j other, ¬(j = i ∧ other = idx) →
        (w.sysPipe i fdsPtr).2.inUse j other = w.inUse j other := by
  unfold sysPipe
  simp only [free]
  split_ifs with full
  · refine ⟨rfl, fun j other apart => ?_⟩
    rw [setFd_inUse, if_neg apart, setFd_inUse, if_neg apart]
    rfl
  · refine ⟨rfl, fun j other apart => ?_⟩
    change (setFd _ i idx _).inUse j other = _
    rw [setFd_inUse, if_neg apart, setFd_inUse, if_neg apart]
    rfl

/-- An open under the right number fills the entry of this number. -/
theorem sysOpen_usedFd {pathPtr : BitVec 64} {flags : BitVec 32} {idx : FdIdx}
    (succeeded : w.openedBy i pathPtr flags = some (idx, sameNumber idx)) :
    (w.sysOpen i pathPtr flags).2.usedFd i ((w.sysOpen i pathPtr flags).1.setWidth 32) =
      some idx := by
  obtain ⟨result, -, -, -, path, size, -, tasks⟩ := sysOpen_some succeeded
  rw [result, usedFd, toIdx_number, tasks]
  exact (Option.filter_eq_some_iff.mpr ⟨rfl, setFd_inUse idx idx _ |>.trans (if_pos ⟨rfl, rfl⟩)⟩)

theorem sysFstat_keeps (fd : BitVec 32) (statBuf : BitVec 64) :
    (w.sysFstat i fd statBuf).2.tasks = w.tasks ∧ (w.sysFstat i fd statBuf).2.vfs = w.vfs := by
  unfold sysFstat
  cases w.usedFd i fd with
  | none => exact ⟨rfl, rfl⟩
  | some idx => exact ⟨rfl, rfl⟩

/-- `sys_fstatat` closes what it opens, if it opens it under the right number. -/
theorem sysFstatat_keeps {path statBuf : BitVec 64}
    (numbered : ∀ opened ∈ w.openedBy i path 0, opened.2 = sameNumber opened.1) :
    (w.sysFstatat i path statBuf).2.vfs.openFiles = w.vfs.openFiles ∧
      ∀ j idx, (w.sysFstatat i path statBuf).2.inUse j idx = w.inUse j idx := by
  unfold sysFstatat
  cases result : w.openedBy i path 0 with
  | none =>
    obtain ⟨negative, tasks, files⟩ := sysOpen_none result
    simp only [if_pos negative]
    exact ⟨files, fun j idx => by rw [inUse, tasks, inUse]⟩
  | some opened =>
    obtain ⟨idx, fd⟩ := opened
    obtain rfl : fd = sameNumber idx := numbered _ result
    have used := sysOpen_usedFd result
    obtain ⟨number, idle, vacant, ⟨file, files⟩, name, size, -, tasks⟩ := sysOpen_some result
    rcases opening : w.sysOpen i path 0 with ⟨fd, w1⟩
    rw [opening] at used number files tasks
    dsimp only at used number files tasks ⊢
    have opened : 0 ≤ fd.toInt := by
      rw [number, fd_nonneg]
      exact Int.natCast_nonneg _
    have stat := sysFstat_keeps (w := w1) (i := i) (fd.setWidth 32) statBuf
    rw [if_neg (by omega)]
    rcases statting : w1.sysFstat i (fd.setWidth 32) statBuf with ⟨code, w2⟩
    rw [statting] at stat
    dsimp only at stat ⊢
    have still : w2.usedFd i (fd.setWidth 32) = some idx := by rw [usedFd, stat.1, ← usedFd, used]
    obtain ⟨closed, cleared⟩ := sysClose_some still
    constructor
    · rw [closed, stat.2, files, Function.update_idem]
      exact Function.update_eq_self_iff.mpr (Eq.symm (by simpa [isOpen] using vacant))
    · intro j other
      rw [cleared]
      split_ifs with here
      · rw [here.1, here.2, idle]
      · rw [inUse, stat.1, tasks]
        exact (setFd_inUse idx other _).trans (if_neg here)

end World

/-! ## Sessions -/

/-- A call on descriptors by the current task. -/
inductive FileCall where
  | sysOpen (pathPtr : BitVec 64) (flags : BitVec 32)
  | sysOpenat (dirfd : BitVec 32) (pathPtr : BitVec 64) (flags : BitVec 32)
  | sysDup (oldFd : BitVec 32)
  | sysDup2 (oldFd newFd : BitVec 32)
  | sysPipe (fdsPtr : BitVec 64)
  | sysFstatat (path statBuf : BitVec 64)
  | sysClose (fd : BitVec 32)
  | sysExit (status : BitVec 32)

/-- A call, or what native tasks do in between, with the files of the VFS that they closed
on the way. -/
inductive FileStep (δ ρ : Type) where
  | call (call : FileCall)
  | elsewhere (machine : Syscall.Machine (Tables δ)) (rest : ρ) (closed : Fd → Bool)

/-- What the call returns, and its effect. -/
def World.fileCall {δ ρ : Type} (w : World δ ρ) (i : Slot) : FileCall → BitVec 64 × World δ ρ
  | .sysOpen pathPtr flags => w.sysOpen i pathPtr flags
  | .sysOpenat dirfd pathPtr flags => w.sysOpenat i dirfd pathPtr flags
  | .sysDup oldFd => w.sysDup i oldFd
  | .sysDup2 oldFd newFd => w.sysDup2 i oldFd newFd
  | .sysPipe fdsPtr => w.sysPipe i fdsPtr
  | .sysFstatat path statBuf => w.sysFstatat i path statBuf
  | .sysClose fd => w.sysClose i fd
  | .sysExit status => (-1, w.sysExit i status)

/-- The world, the Linux task that opened a file of the VFS, and the file that an entry
refers to. -/
structure Session (δ ρ : Type) where
  world : World δ ρ
  opener : Fd → Option Slot
  ref : Slot → FdIdx → Option Fd

namespace Session

open World

variable {δ ρ : Type} (s : Session δ ρ) (i : Slot)

/-- `ref[i][idx] = file`. -/
def setRef (idx : FdIdx) (file : Option Fd) : Slot → FdIdx → Option Fd :=
  Function.update s.ref i (Function.update (s.ref i) idx file)

/-- The entry that a `sys_dup` or `sys_dup2` copies, and the one it fills. -/
def dupped (oldFd : BitVec 32) (into : Option FdIdx) : Option (FdIdx × FdIdx) :=
  (s.world.usedFd i oldFd).bind fun old => into.map fun idx => (old, idx)

/-- The files that the entries refer to behind a call: a new file for `sys_open`, the same
one for the two copies, none for a pipe. -/
def refs : FileCall → Slot → FdIdx → Option Fd
  | .sysOpen pathPtr flags | .sysOpenat _ pathPtr flags =>
    (s.world.openedBy i pathPtr flags).elim s.ref fun opened => s.setRef i opened.1 (some opened.2)
  | .sysDup oldFd =>
    (s.dupped i oldFd (s.world.allocFd i)).elim s.ref fun both => s.setRef i both.2 (s.ref i both.1)
  | .sysDup2 oldFd newFd =>
    (s.dupped i oldFd (toIdx newFd)).elim s.ref fun both => s.setRef i both.2 (s.ref i both.1)
  | .sysPipe _ => (s.world.allocFd i).elim s.ref fun idx => s.setRef i idx none
  | .sysFstatat _ _ | .sysClose _ | .sysExit _ => s.ref

/-- The session behind a call of the task at `i`: what is newly open was opened by it. -/
def behind (call : FileCall) : Session δ ρ :=
  let after := (s.world.fileCall i call).2
  { world := after
    opener := fun fd =>
      if after.isOpen fd then if s.world.isOpen fd then s.opener fd else some i else none
    ref := s.refs i call }

/-- Native tasks may close any file, and open another in its slot. -/
def beside (machine : Syscall.Machine (Tables δ)) (rest : ρ) (closed : Fd → Bool) :
    Session δ ρ where
  world := { s.world with machine := machine, rest := rest }
  opener fd := if closed fd = false ∧ (machine.rest.openFiles fd).isSome then s.opener fd else none
  ref := s.ref

/-- A step. -/
def act : FileStep δ ρ → Option (Session δ ρ)
  | .elsewhere machine rest closed => some (s.beside machine rest closed)
  | .call call => s.world.getCurrent.map fun i => s.behind i call

/-- Every file that a Linux task opened and that is still open is referred to by an entry of
that task in use, the one with the number of the file. -/
def Accounted : Prop :=
  ∀ fd j, s.opener fd = some j → s.world.isOpen fd = true ∧
    ∃ idx, sameNumber idx = fd ∧ s.world.inUse j idx = true ∧ s.ref j idx = some fd

/-- What is open under the number of a descriptor was opened by the task at `i`. -/
def Mine (fd : Fd) : Prop := s.world.isOpen fd = true → s.opener fd = some i

/-- A file that opens has the number of the entry it is opened for. -/
def Numbered (pathPtr : BitVec 64) (flags : BitVec 32) : Prop :=
  ∀ opened ∈ s.world.openedBy i pathPtr flags, opened.2 = sameNumber opened.1

/-- Calls of the task at `i` that translate descriptors well: files are opened under the
numbers of their entries, and what is closed was opened by the task. -/
def FitsAt : FileCall → Prop
  | .sysOpen pathPtr flags | .sysOpenat _ pathPtr flags => s.Numbered i pathPtr flags
  | .sysFstatat path _ => s.Numbered i path 0
  | .sysClose fd => ∀ idx ∈ s.world.usedFd i fd, s.Mine i (sameNumber idx)
  | .sysDup2 oldFd newFd =>
    ∀ both ∈ s.dupped i oldFd (toIdx newFd), s.world.inUse i both.2 = true →
      s.Mine i (sameNumber both.2)
  | .sysExit _ => ∀ idx, s.world.inUse i idx = true → s.Mine i (sameNumber idx)
  | .sysDup _ | .sysPipe _ => True

/-- Nothing is asked of native tasks. -/
def Fits : FileStep δ ρ → Prop
  | .call call => ∀ i ∈ s.world.getCurrent, s.FitsAt i call
  | .elsewhere _ _ _ => True

/-- The number that `sys_open` returns is the index of an entry in use with the path, and the
one that later calls with this number act on. -/
def Returned (i : Slot) (pathPtr : BitVec 64) (flags : BitVec 32) : Prop :=
  0 ≤ (s.world.sysOpen i pathPtr flags).1.toInt → ∃ idx path,
    (s.world.sysOpen i pathPtr flags).1 = BitVec.ofNat 64 idx.val ∧
      s.world.copyPathFromUser pathPtr = some path ∧
      (s.world.sysOpen i pathPtr flags).2.usedFd i
        ((s.world.sysOpen i pathPtr flags).1.setWidth 32) = some idx ∧
      (((s.world.sysOpen i pathPtr flags).2.tasks i).fds idx).path = path

/-- What a step does to descriptors. -/
structure Proper (s : Session δ ρ) (step : FileStep δ ρ) (after : Session δ ρ) : Prop where
  /-- What an open returns. -/
  returned : ∀ i ∈ s.world.getCurrent, ∀ pathPtr flags,
    (step = .call (.sysOpen pathPtr flags) ∨ ∃ dirfd, step = .call (.sysOpenat dirfd pathPtr flags)) →
      s.Returned i pathPtr flags
  /-- A call leaves every open file that its task has not opened. -/
  others : ∀ call, step = .call call → ∀ i ∈ s.world.getCurrent, ∀ fd,
    s.world.isOpen fd = true → s.opener fd ≠ some i →
      after.world.vfs.openFiles fd = s.world.vfs.openFiles fd
  /-- A file that a task opened is closed once no entry of the task refers to it. -/
  referred : ∀ fd j, after.opener fd = some j →
    ∃ idx, after.world.inUse j idx = true ∧ after.ref j idx = some fd

variable {s i}

/-! ## What calls keep -/

/-- What a call of the task at `i` does to files and to entries in use. -/
structure Effect (s : Session δ ρ) (i : Slot) (after : Session δ ρ) : Prop where
  fresh : ∀ fd, after.world.isOpen fd = true → s.world.isOpen fd = false →
    ∃ idx, sameNumber idx = fd ∧ after.world.inUse i idx = true ∧ after.ref i idx = some fd
  kept : ∀ idx, after.world.isOpen (sameNumber idx) = true → s.world.inUse i idx = true →
    after.world.inUse i idx = true ∧ after.ref i idx = s.ref i idx
  others : ∀ fd, s.world.isOpen fd = true → s.opener fd ≠ some i →
    after.world.vfs.openFiles fd = s.world.vfs.openFiles fd
  apart : ∀ j, j ≠ i → ∀ idx, s.world.inUse j idx = true →
    after.world.inUse j idx = true ∧ after.ref j idx = s.ref j idx

theorem setRef_same (idx : FdIdx) (file : Option Fd) : s.setRef i idx file i idx = file := by
  simp [setRef]

theorem setRef_apart {j : Slot} {idx other : FdIdx} (file : Option Fd)
    (apart : ¬(j = i ∧ other = idx)) : s.setRef i idx file j other = s.ref j other := by
  rw [setRef]
  by_cases here : j = i
  · subst here
    rw [Function.update_self, Function.update_of_ne fun same => apart ⟨rfl, same⟩]
  · rw [Function.update_of_ne here]

theorem isOpen_update {after : World δ ρ} {fd v : Fd} {file : Option Vfs.VfsFile}
    (files : after.vfs.openFiles = Function.update s.world.vfs.openFiles fd file) (apart : v ≠ fd) :
    after.isOpen v = s.world.isOpen v := by
  rw [isOpen, files, Function.update_of_ne apart, isOpen]

/-- A call that opens nothing, closes files of its own task only, and leaves the entries in
use but those of what it closes. -/
theorem Effect.closing {after : Session δ ρ} (closes : Fd → Prop) [DecidablePred closes]
    (files : ∀ v, after.world.vfs.openFiles v =
      if closes v then none else s.world.vfs.openFiles v)
    (mine : ∀ v, closes v → s.Mine i v)
    (used : ∀ j idx, s.world.inUse j idx = true → ¬(j = i ∧ closes (sameNumber idx)) →
      after.world.inUse j idx = true ∧ after.ref j idx = s.ref j idx) : Effect s i after where
  fresh v opened closed := by
    rw [isOpen, files] at opened
    split_ifs at opened with closing
    · cases opened
    · exact absurd (closed.symm.trans opened) (by decide)
  kept idx opened inUse := by
    refine used i idx inUse fun both => ?_
    rw [isOpen, files, if_pos both.2] at opened
    cases opened
  others v opened foreign := by
    rw [files, if_neg fun closed => foreign (mine v closed opened)]
  apart j here idx inUse := used j idx inUse fun both => here both.1

/-- One that closes nothing. -/
theorem Effect.quiet {after : Session δ ρ}
    (files : after.world.vfs.openFiles = s.world.vfs.openFiles)
    (used : ∀ j idx, s.world.inUse j idx = true →
      after.world.inUse j idx = true ∧ after.ref j idx = s.ref j idx) : Effect s i after :=
  .closing (fun _ => False) (fun v => by rw [files, if_neg not_false]) (fun _ => False.elim)
    fun j idx inUse _ => used j idx inUse

theorem Effect.nothing {after : Session δ ρ} (same : after.world = s.world)
    (refs : after.ref = s.ref) : Effect s i after :=
  .quiet (by rw [same]) fun j idx used => ⟨by rw [same, used], by rw [refs]⟩

/-- One that besides fills an entry that was free. -/
theorem Effect.fill {after : Session δ ρ} {idx : FdIdx}
    (files : after.world.vfs.openFiles = s.world.vfs.openFiles)
    (idle : s.world.inUse i idx = false)
    (used : ∀ j other, ¬(j = i ∧ other = idx) →
      after.world.inUse j other = s.world.inUse j other ∧ after.ref j other = s.ref j other) :
    Effect s i after := by
  refine .quiet files fun j other inUse => ?_
  have apart : ¬(j = i ∧ other = idx) := by
    rintro ⟨rfl, rfl⟩
    exact absurd (inUse.symm.trans idle) (by decide)
  exact ⟨(used j other apart).1.trans inUse, (used j other apart).2⟩

theorem effect_open {pathPtr : BitVec 64} {flags : BitVec 32}
    (fits : s.Numbered i pathPtr flags) : Effect s i (s.behind i (.sysOpen pathPtr flags)) := by
  cases result : s.world.openedBy i pathPtr flags with
  | none =>
    obtain ⟨-, tasks, files⟩ := sysOpen_none result
    refine .quiet files fun j idx used => ⟨?_, ?_⟩
    · exact (congrArg (fun tasks => (LinuxTask.fds (tasks j) idx).inUse) tasks).trans used
    · simp only [behind, refs, result, Option.elim_none]
  | some opened =>
    obtain ⟨idx, fd⟩ := opened
    obtain rfl : fd = sameNumber idx := fits _ result
    obtain ⟨-, idle, vacant, ⟨file, files⟩, path, size, -, tasks⟩ := sysOpen_some result
    have used (j : Slot) (other : FdIdx) :
        (s.world.sysOpen i pathPtr flags).2.inUse j other =
          if j = i ∧ other = idx then true else s.world.inUse j other := by
      rw [inUse, tasks]
      exact setFd_inUse idx other _
    have into : s.refs i (.sysOpen pathPtr flags) = s.setRef i idx (some (sameNumber idx)) := by
      simp only [refs, result, Option.elim_some]
    constructor
    · intro v opened closed
      have here : v = sameNumber idx := by
        by_contra apart
        have same : (s.world.sysOpen i pathPtr flags).2.isOpen v = s.world.isOpen v :=
          isOpen_update files apart
        rw [show (s.world.sysOpen i pathPtr flags).2.isOpen v = true from opened, closed] at same
        cases same
      subst here
      refine ⟨idx, rfl, ?_, ?_⟩
      · exact (used i idx).trans (if_pos ⟨rfl, rfl⟩)
      · exact (congrFun (congrFun into i) idx).trans (setRef_same idx _)
    · intro other _ inUse
      have apart : ¬(i = i ∧ other = idx) := by
        rintro ⟨-, rfl⟩
        exact absurd (inUse.symm.trans idle) (by decide)
      exact ⟨((used i other).trans (if_neg apart)).trans inUse,
        (congrFun (congrFun into i) other).trans (setRef_apart _ apart)⟩
    · intro v opened _
      have apart : v ≠ sameNumber idx := by
        rintro rfl
        exact absurd (opened.symm.trans vacant) (by decide)
      exact (congrFun files v).trans (Function.update_of_ne apart _ _)
    · intro j here other inUse
      have apart : ¬(j = i ∧ other = idx) := fun both => here both.1
      exact ⟨((used j other).trans (if_neg apart)).trans inUse,
        (congrFun (congrFun into j) other).trans (setRef_apart _ apart)⟩

theorem effect_close {fd : BitVec 32}
    (fits : ∀ idx ∈ s.world.usedFd i fd, s.Mine i (sameNumber idx)) :
    Effect s i (s.behind i (.sysClose fd)) := by
  cases found : s.world.usedFd i fd with
  | none =>
    have same : (s.world.fileCall i (.sysClose fd)).2 = s.world := sysClose_none found
    refine .quiet ?_ fun j idx used => ⟨?_, rfl⟩
    · rw [behind, same]
    · rw [behind, same]
      exact used
  | some idx =>
    obtain ⟨files, used⟩ := sysClose_some found
    refine .closing (· = sameNumber idx) (fun v => ?_) ?_ fun j other inUse apart => ⟨?_, rfl⟩
    · exact (congrFun files v).trans (Function.update_apply _ _ _ v)
    · rintro v rfl
      exact fits idx found
    · refine (used j other).trans ((if_neg ?_).trans inUse)
      rintro ⟨rfl, rfl⟩
      exact apart ⟨rfl, rfl⟩

theorem sysDup_dupped (oldFd : BitVec 32) :
    (s.world.sysDup i oldFd).2 = (s.dupped i oldFd (s.world.allocFd i)).elim s.world fun both =>
      s.world.setFd i both.2 { (s.world.tasks i).fds both.1 with inUse := true } := by
  unfold sysDup dupped
  cases s.world.usedFd i oldFd with
  | none => rfl
  | some old =>
    cases s.world.allocFd i with
    | none => rfl
    | some idx => rfl

theorem sysDup2_dupped (oldFd newFd : BitVec 32) :
    (s.world.sysDup2 i oldFd newFd).2 =
      (s.dupped i oldFd (toIdx newFd)).elim s.world fun both =>
        (if ((s.world.tasks i).fds both.2).inUse then s.world.vfsClose (sameNumber both.2)
          else s.world).setFd i both.2 { (s.world.tasks i).fds both.1 with inUse := true } := by
  unfold sysDup2 dupped
  cases s.world.usedFd i oldFd with
  | none => rfl
  | some old =>
    cases toIdx newFd with
    | none => rfl
    | some idx =>
      simp only [Option.map_some, Option.bind_some, Option.elim_some]
      by_cases used : ((s.world.tasks i).fds idx).inUse = true
      · simp only [if_pos used, vfsClose_tasks]
      · simp only [if_neg used]

/-- An entry takes a copy of another: what a call does that fills it, after it has closed the
file of its number if it was in use. -/
theorem Effect.copy {after : Session δ ρ} {idx : FdIdx} {entry : LinuxFd} {file : Option Fd}
    (world : after.world =
      (if s.world.inUse i idx then s.world.vfsClose (sameNumber idx) else s.world).setFd i idx entry)
    (refs : after.ref = s.setRef i idx file)
    (mine : s.world.inUse i idx = true → s.Mine i (sameNumber idx)) : Effect s i after := by
  have used (j : Slot) (other : FdIdx) (apart : ¬(j = i ∧ other = idx)) :
      after.world.inUse j other = s.world.inUse j other := by
    rw [world, setFd_inUse, if_neg apart]
    split_ifs <;> rfl
  by_cases taken : s.world.inUse i idx = true
  · rw [if_pos taken] at world
    refine .closing (· = sameNumber idx) (fun v => ?_) ?_ fun j other inUse apart => ?_
    · rw [world]
      exact (congrFun (vfsClose_openFiles s.world _) v).trans (Function.update_apply _ _ _ v)
    · rintro v rfl
      exact mine taken
    · have elsewhere : ¬(j = i ∧ other = idx) := by
        rintro ⟨rfl, rfl⟩
        exact apart ⟨rfl, rfl⟩
      exact ⟨(used j other elsewhere).trans inUse, by rw [refs, setRef_apart _ elsewhere]⟩
  · rw [if_neg taken] at world
    refine @Effect.fill _ _ s i _ idx (by rw [world]; rfl) (Bool.eq_false_iff.mpr taken)
      fun j other apart => ⟨used j other apart, by rw [refs, setRef_apart _ apart]⟩

theorem effect_dup (oldFd : BitVec 32) : Effect s i (s.behind i (.sysDup oldFd)) := by
  have world : (s.behind i (.sysDup oldFd)).world = _ := sysDup_dupped oldFd
  have refs : (s.behind i (.sysDup oldFd)).ref = (s.dupped i oldFd (s.world.allocFd i)).elim s.ref
    fun both => s.setRef i both.2 (s.ref i both.1) := rfl
  cases copied : s.dupped i oldFd (s.world.allocFd i) with
  | none =>
    rw [copied] at world refs
    exact .nothing world refs
  | some both =>
    rw [copied] at world refs
    obtain ⟨old, -, result⟩ := Option.bind_eq_some_iff.mp copied
    obtain ⟨idx, free, rfl⟩ := Option.map_eq_some_iff.mp result
    refine .fill (by rw [world]; rfl) (allocFd_idle free) fun j other apart => ⟨?_, ?_⟩
    · rw [world]
      exact (setFd_inUse idx other _).trans (if_neg apart)
    · rw [refs]
      exact setRef_apart _ apart

theorem effect_dup2 {oldFd newFd : BitVec 32}
    (fits : ∀ both ∈ s.dupped i oldFd (toIdx newFd), s.world.inUse i both.2 = true →
      s.Mine i (sameNumber both.2)) : Effect s i (s.behind i (.sysDup2 oldFd newFd)) := by
  have world : (s.behind i (.sysDup2 oldFd newFd)).world = _ := sysDup2_dupped oldFd newFd
  have refs : (s.behind i (.sysDup2 oldFd newFd)).ref =
    (s.dupped i oldFd (toIdx newFd)).elim s.ref
      fun both => s.setRef i both.2 (s.ref i both.1) := rfl
  cases copied : s.dupped i oldFd (toIdx newFd) with
  | none =>
    rw [copied] at world refs
    exact .nothing world refs
  | some both =>
    rw [copied] at world refs
    exact .copy world refs (fits both copied)

theorem effect_pipe (fdsPtr : BitVec 64) : Effect s i (s.behind i (.sysPipe fdsPtr)) := by
  have refs : (s.behind i (.sysPipe fdsPtr)).ref =
    (s.world.allocFd i).elim s.ref fun idx => s.setRef i idx none := rfl
  cases free : s.world.allocFd i with
  | none =>
    rw [free] at refs
    refine .nothing ?_ refs
    change (s.world.sysPipe i fdsPtr).2 = s.world
    simp only [sysPipe, free]
  | some idx =>
    rw [free] at refs
    obtain ⟨files, used⟩ := @sysPipe_fills δ ρ s.world i fdsPtr idx free
    exact .fill files (allocFd_idle free) fun j other apart =>
      ⟨used j other apart, by rw [refs]; exact setRef_apart _ apart⟩

theorem effect_fstatat {path statBuf : BitVec 64} (fits : s.Numbered i path 0) :
    Effect s i (s.behind i (.sysFstatat path statBuf)) := by
  obtain ⟨files, used⟩ := @sysFstatat_keeps δ ρ s.world i path statBuf fits
  exact .quiet files fun j idx inUse => ⟨(used j idx).trans inUse, rfl⟩

theorem effect_exit {status : BitVec 32}
    (fits : ∀ idx, s.world.inUse i idx = true → s.Mine i (sameNumber idx)) :
    Effect s i (s.behind i (.sysExit status)) := by
  have world : (s.behind i (.sysExit status)).world = s.world.sysExit i status := by
    dsimp only [behind, fileCall]
  refine .closing (fun v => ∃ idx, s.world.inUse i idx = true ∧ sameNumber idx = v)
    (fun v => ?_) ?_ fun j idx inUse apart => ⟨?_, rfl⟩
  · rw [world, sysExit_openFiles]
  · rintro v ⟨idx, inUse, rfl⟩
    exact fits idx inUse
  · rw [world, sysExit_inUse, if_neg, inUse]
    rintro rfl
    exact apart ⟨rfl, idx, inUse, rfl⟩

theorem effect_of_fits {call : FileCall} (fits : s.FitsAt i call) :
    Effect s i (s.behind i call) := by
  cases call with
  | sysOpen pathPtr flags => exact effect_open fits
  | sysOpenat dirfd pathPtr flags => exact effect_open fits
  | sysDup oldFd => exact effect_dup oldFd
  | sysDup2 oldFd newFd => exact effect_dup2 fits
  | sysPipe fdsPtr => exact effect_pipe fdsPtr
  | sysFstatat path statBuf => exact effect_fstatat fits
  | sysClose fd => exact effect_close fits
  | sysExit status => exact effect_exit fits

/-! ## Runs -/

theorem Accounted.behind {call : FileCall} (accounted : s.Accounted)
    (effect : Effect s i (s.behind i call)) : (s.behind i call).Accounted := by
  intro fd j opened
  have opener : (s.behind i call).opener fd =
    if (s.behind i call).world.isOpen fd then
      if s.world.isOpen fd then s.opener fd else some i else none := rfl
  rw [opener] at opened
  split_ifs at opened with after before
  · obtain ⟨-, idx, number, inUse, ref⟩ := accounted fd j opened
    refine ⟨after, idx, number, ?_⟩
    by_cases here : j = i
    · subst here
      obtain ⟨still, same⟩ := effect.kept idx (by rw [number, after]) inUse
      exact ⟨still, same.trans ref⟩
    · obtain ⟨still, same⟩ := effect.apart j here idx inUse
      exact ⟨still, same.trans ref⟩
  · obtain rfl := Option.some.inj opened
    exact ⟨after, effect.fresh fd after (Bool.eq_false_iff.mpr before)⟩

theorem Accounted.beside (accounted : s.Accounted) (machine : Syscall.Machine (Tables δ))
    (rest : ρ) (closed : Fd → Bool) : (s.beside machine rest closed).Accounted := by
  intro fd j opened
  have opener : (s.beside machine rest closed).opener fd =
    if closed fd = false ∧ (machine.rest.openFiles fd).isSome then s.opener fd else none := rfl
  rw [opener] at opened
  split_ifs at opened with still
  exact ⟨still.2, (accounted fd j opened).2⟩

/-- A number that `sys_open` returns is good if the open is numbered. -/
theorem Numbered.returned {pathPtr : BitVec 64} {flags : BitVec 32}
    (fits : s.Numbered i pathPtr flags) : s.Returned i pathPtr flags := by
  intro nonneg
  cases result : s.world.openedBy i pathPtr flags with
  | none => exact absurd (sysOpen_none result).1 (by omega)
  | some opened =>
    obtain ⟨idx, fd⟩ := opened
    obtain rfl : fd = sameNumber idx := fits _ result
    obtain ⟨number, -, -, -, path, size, copied, tasks⟩ := sysOpen_some result
    refine ⟨idx, path, number, copied, sysOpen_usedFd result, ?_⟩
    rw [tasks, setFd_fds, if_pos ⟨rfl, rfl⟩]

/-- A step that fits keeps the account and does what it should. -/
theorem proper_of_fits {step : FileStep δ ρ} {after : Session δ ρ} (accounted : s.Accounted)
    (fits : s.Fits step) (result : s.act step = some after) :
    after.Accounted ∧ s.Proper step after := by
  cases step with
  | elsewhere machine rest closed =>
    obtain rfl := Option.some.inj result
    have account := accounted.beside machine rest closed
    refine ⟨account, ⟨nofun, nofun, fun fd j opened => ?_⟩⟩
    obtain ⟨-, idx, -, referred⟩ := account fd j opened
    exact ⟨idx, referred⟩
  | call call =>
    obtain ⟨i, current, rfl⟩ := Option.map_eq_some_iff.mp result
    have effect := effect_of_fits (fits i current)
    have account := accounted.behind effect
    refine ⟨account, ⟨?_, ?_, fun fd j opened => ?_⟩⟩
    · rintro other found pathPtr flags (same | ⟨dirfd, same⟩)
      · cases same
        exact Numbered.returned (fits other found)
      · cases same
        exact Numbered.returned (fits other found)
    · rintro _ same other found fd opened foreign
      cases same
      obtain rfl := Option.some.inj (current.symm.trans found)
      exact effect.others fd opened foreign
    · obtain ⟨-, idx, -, referred⟩ := account fd j opened
      exact ⟨idx, referred⟩

/-- In a run whose steps all fit, every step treats descriptors as it should. -/
theorem descriptors_proper {start final : Session δ ρ}
    {taken : List (Transition (Session δ ρ) (FileStep δ ρ))} (accounted : start.Accounted)
    (trace : Trace (fun s step after => s.act step = some after) start taken final)
    (guarded : Guarded Fits taken) :
    ∀ transition ∈ taken, transition.before.Proper transition.label transition.after :=
  trace.forall_of_guarded Accounted accounted
    (fun _ _ _ account fits result => proper_of_fits account fits result) guarded

section Samples

instance (s : Session δ ρ) (i : Slot) (fd : Fd) : Decidable (s.Mine i fd) := by
  unfold Mine
  infer_instance

instance (s : Session δ ρ) (i : Slot) : DecidablePred (s.FitsAt i) := fun
  | .sysOpen _ _ | .sysOpenat _ _ _ | .sysFstatat _ _ | .sysClose _ | .sysDup2 _ _ =>
    Option.decidableForallMem _
  | .sysExit _ => by
    unfold FitsAt
    infer_instance
  | .sysDup _ | .sysPipe _ => .isTrue trivial

instance (s : Session δ ρ) : DecidablePred s.Fits := fun
  | .call _ => by unfold Fits; infer_instance
  | .elsewhere _ _ _ => .isTrue trivial

/-- A driver for which every path is an empty file. -/
def emptyFiles : Vfs.FsOps Unit where
  openPath _ _ disk := (some 0, disk)
  close _ disk := disk
  read _ _ _ disk := (some [], disk)
  write _ _ _ disk := (none, disk)
  stat _ _ := some ⟨0, false, 0⟩
  readdir _ _ _ := none
  mkdir _ disk := (false, disk)
  rmdir _ disk := (false, disk)
  unlink _ disk := (false, disk)

/-- A Linux task runs, with the path `/a` in its memory and these files open. -/
def oneLinuxTask (files : Fd → Option VfsFile) : Session Unit Unit where
  world :=
    { tasks := fun i => if i = 0 then { LinuxTask.empty with pid := 1, alive := true } else .empty
      machine :=
        { kernel := Syscall.oneTask.kernel
          user := fun addr => if addr = 0 then 47 else if addr = 1 then 97 else 0
          currentUid := 0
          users := []
          mmioRegions := []
          framebuffer := Syscall.oneTask.framebuffer
          rest :=
            { Tables.empty () with
              drivers := [emptyFiles]
              mounts := [Vfs.rootMount 0]
              openFiles := files } }
      rest := () }
  opener _ := none
  ref _ _ := none

theorem oneLinuxTask_accounted (files : Fd → Option VfsFile) :
    (oneLinuxTask files).Accounted := fun _ _ opened => nomatch opened

/-- With no native files open, the task opens, copies and closes. -/
theorem descriptors_proper_alone : ∃ taken final,
    Trace (fun s step after => s.act step = some after) (oneLinuxTask fun _ => none) taken final ∧
      taken.length = 7 ∧
      ∀ transition ∈ taken, transition.before.Proper transition.label transition.after := by
  obtain ⟨⟨taken, final⟩, recorded, steps, guarded⟩ :
      ∃ run ∈ record act (oneLinuxTask fun _ => none)
          [.call (.sysFstatat 0 64), .call (.sysOpen 0 0), .call (.sysDup 0), .call (.sysClose 0),
            .call (.sysOpenat 3 0 0), .call (.sysDup2 0 1), .call (.sysExit 0)],
        run.1.length = 7 ∧
            ∀ transition ∈ run.1, transition.before.Fits transition.label := by
    decide +kernel
  have trace := trace_of_record recorded
  exact ⟨taken, final, trace, steps, descriptors_proper (oneLinuxTask_accounted _) trace guarded⟩

/-- File 0 of the VFS, opened by a native task. -/
def nativeFile : Fd → Option VfsFile :=
  Function.update (fun _ => none) 0 (some ⟨0, 0, 0, 0, 0⟩)

/-- Beside a native file the first open returns 1, and entry 1 is free. -/
theorem open_misnumbered :
    ¬ ∀ (start final : Session Unit Unit)
      (taken : List (Transition (Session Unit Unit) (FileStep Unit Unit))), start.Accounted →
      Trace (fun s step after => s.act step = some after) start taken final →
        ∀ transition ∈ taken, transition.before.Proper transition.label transition.after := by
  intro claim
  let start := oneLinuxTask nativeFile
  have trace : Trace (fun s step after => s.act step = some after) start
      [⟨start, .call (.sysOpen 0 0), start.behind 0 (.sysOpen 0 0)⟩]
      (start.behind 0 (.sysOpen 0 0)) := .snoc .nil rfl
  have proper := claim start _ _ (oneLinuxTask_accounted nativeFile) trace _ (.head _)
  obtain ⟨idx, path, -, -, used, -⟩ := proper.returned 0 rfl 0 0 (.inl rfl) (by decide +kernel)
  have free : (start.world.sysOpen 0 0 0).2.usedFd 0
      ((start.world.sysOpen 0 0 0).1.setWidth 32) = none := by decide +kernel
  rw [free] at used
  cases used

end Samples

end Session

end DBSos.Linux
