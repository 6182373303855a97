import DBSos.Syscall.Descriptors

/-!
# Linux tasks

`LINUX_TASKS` holds what the Linux personality keeps of a task besides the
scheduler's record, which `dbsos_task` names. A task in the table acts through
`self`, here the slot it sits in. The fields that no function reads (`mm`,
`signal_frame`, `saved_rsp`, `saved_rip`) are left out.
-/

namespace DBSos.Linux

open DBSos.Syscall (Machine)
open DBSos.Vfs (Tables Fd Path)
open DBSos.Vm (PhysMem)

abbrev maxLinuxFds : Nat := 32
abbrev maxLinuxTasks : Nat := 16
abbrev maxSignals : Nat := 32

scoped instance : NeZero maxLinuxTasks := ⟨by decide⟩

/-- An index of `LINUX_TASKS`. -/
abbrev Slot := Fin maxLinuxTasks

/-- An index of a task's `fds`. -/
abbrev FdIdx := Fin maxLinuxFds

/-- A signal's number. -/
abbrev Signal := Fin maxSignals

/-- `SigAction`. -/
structure SigAction where
  handler : BitVec 64
  flags : BitVec 32
  mask : BitVec 64
  restorer : BitVec 64
deriving DecidableEq

/-- `SigAction::empty`. -/
def SigAction.empty : SigAction := ⟨0, 0, 0, 0⟩

/-- `LinuxFd`. -/
structure LinuxFd where
  inUse : Bool
  path : Vector UInt8 128
  pathLen : Nat
  offset : BitVec 64
  size : BitVec 64
  flags : BitVec 32
deriving DecidableEq

/-- `LinuxFd::empty`. -/
def LinuxFd.empty : LinuxFd := ⟨false, Vector.replicate 128 0, 0, 0, 0, 0⟩

/-- `LinuxTask`. -/
structure LinuxTask where
  pid : Nat
  ppid : Nat
  dbsosTask : Nat
  pml4Phys : Nat
  entry : BitVec 64
  brk : BitVec 64
  mmapBase : BitVec 64
  stackTop : BitVec 64
  stackSize : BitVec 64
  fds : FdIdx → LinuxFd
  cwd : Vector UInt8 128
  cwdLen : Nat
  alive : Bool
  exitStatus : BitVec 32
  uid : BitVec 32
  gid : BitVec 32
  signalHandlers : Signal → SigAction
  signalPending : BitVec 32
  signalMask : BitVec 64
  inSignalHandler : Bool

/-- `LinuxTask::empty`. -/
def LinuxTask.empty : LinuxTask where
  pid := 0
  ppid := 0
  dbsosTask := 0
  pml4Phys := 0
  entry := 0
  brk := 0
  mmapBase := 0
  stackTop := 0
  stackSize := 0
  fds _ := .empty
  cwd := Vector.replicate 128 0
  cwdLen := 0
  alive := false
  exitStatus := 0
  uid := 0
  gid := 0
  signalHandlers _ := .empty
  signalPending := 0
  signalMask := 0
  inSignalHandler := false

/-- The task table, the machine under it and what the personality uses besides. -/
structure World (δ ρ : Type) where
  tasks : Slot → LinuxTask
  machine : Machine (Tables δ)
  rest : ρ

/-- `LinuxProgram`, as far as its users read it. -/
structure LinuxProgram where
  entry : BitVec 64
  pml4 : Nat
  codePhys : Nat
  stackPhys : Nat
  brk : BitVec 64
  mmapBase : BitVec 64
  stackSize : BitVec 64
  stackTop : BitVec 64

/-- The six arguments of a system call. -/
structure Args where
  a1 : BitVec 64
  a2 : BitVec 64
  a3 : BitVec 64
  a4 : BitVec 64
  a5 : BitVec 64
  a6 : BitVec 64
deriving DecidableEq

/-- The calls into the heap, the loader and the processor's registers, and the calls
that only fill a buffer of the caller. -/
structure Services (δ ρ : Type) where
  /-- `false` for a null pointer. -/
  kmalloc : Nat → ρ → Bool × ρ
  kfree : ρ → ρ
  loadLinuxElf : List UInt8 → PhysMem → ρ → Option LinuxProgram × PhysMem × ρ
  /-- `request_exec_redirect`. -/
  requestExecRedirect : LinuxProgram → ρ → ρ
  /-- `setup_user_gdt_tss` and `lgdt`, on the two pages. -/
  setupUserGdtTss : Nat → Nat → ρ → ρ
  /-- A `SigAction` in memory, in the order the compiler gives its fields. -/
  readAction : (BitVec 64 → UInt8) → BitVec 64 → SigAction
  writeAction : BitVec 64 → SigAction → (BitVec 64 → UInt8) → BitVec 64 → UInt8
  /-- `sys_ioctl`, `sys_getdents`, `sys_uname` and their like: the result and the
  caller's memory; `none` is a panic. -/
  report : BitVec 64 → Args → Slot → World δ ρ → Option (BitVec 64 × (BitVec 64 → UInt8))

/-- A negative error number. -/
def errno (code : Nat) : BitVec 64 := BitVec.ofInt 64 (-code)

def linuxENOENT : Nat := 2
def linuxESRCH : Nat := 3
def linuxENOEXEC : Nat := 8
def linuxEBADF : Nat := 9
def linuxECHILD : Nat := 10
def linuxENOMEM : Nat := 12
def linuxEFAULT : Nat := 14
def linuxEEXIST : Nat := 17
def linuxEINVAL : Nat := 22
def linuxEMFILE : Nat := 24
def linuxENOSYS : Nat := 38

namespace World

variable {δ ρ : Type} (w : World δ ρ) (i j : Slot)

/-- Write one task in place. -/
def modify (change : LinuxTask → LinuxTask) : World δ ρ :=
  { w with tasks := Function.update w.tasks i (change (w.tasks i)) }

/-- `self.fds[idx] = entry`. -/
def setFd (idx : FdIdx) (entry : LinuxFd) : World δ ρ :=
  w.modify i fun t => { t with fds := Function.update t.fds idx entry }

/-- The tables of the VFS. -/
def vfs : Tables δ := w.machine.rest

/-- A call that acts on the tables of the VFS. -/
def onVfs {α : Type} (result : α × Tables δ) : α × World δ ρ :=
  (result.1, { w with machine := { w.machine with rest := result.2 } })

/-- A call that acts on physical memory. -/
def withPhys (phys : PhysMem) : World δ ρ :=
  { w with machine := { w.machine with kernel := { w.machine.kernel with phys := phys } } }

/-- `vfs::close`. -/
def vfsClose (fd : Fd) : World δ ρ := (w.onVfs (w.vfs.close fd)).2

/-- The first slot that passes a test. -/
def findSlot (test : LinuxTask → Bool) : Option Slot :=
  (List.finRange maxLinuxTasks).find? fun i => test (w.tasks i)

/-- `find_task`. -/
def findTask (pid : Nat) : Option Slot := w.findSlot fun t => t.alive && t.pid == pid

/-- `get_current`. -/
def getCurrent : Option Slot :=
  w.findSlot fun t => t.alive && t.dbsosTask == w.machine.kernel.currentTask.id

/-- `scheduler::next_task_id`. -/
def nextTaskId : Nat × World δ ρ :=
  (w.machine.kernel.nextId,
    { w with machine := { w.machine with kernel := w.machine.kernel.takeId } })

/-- `create_task`. -/
def createTask : Option Slot × World δ ρ :=
  match w.findSlot fun t => !t.alive with
  | none => (none, w)
  | some i =>
    let (pid, w) := w.nextTaskId
    (some i, w.modify i fun t => { t with alive := true, pid := pid })

/-- The VFS descriptor with the number of a table index, as the calls on `fds` pass
it to `vfs::close`. -/
def sameNumber (idx : FdIdx) : Fd := idx.castLE (by decide)

/-- One turn of the loop in `sys_exit`. -/
def exitFd (idx : FdIdx) : World δ ρ :=
  let entry := (w.tasks i).fds idx
  if entry.inUse then (w.vfsClose (sameNumber idx)).setFd i idx { entry with inUse := false } else w

/-- `sys_exit`; the caller gets -1. -/
def sysExit (status : BitVec 32) : World δ ρ :=
  (List.finRange maxLinuxFds).foldl (fun w idx => w.exitFd i idx)
    (w.modify i fun t => { t with exitStatus := status, alive := false })

@[simp] theorem modify_machine (change : LinuxTask → LinuxTask) :
    (w.modify i change).machine = w.machine := rfl

@[simp] theorem modify_same (change : LinuxTask → LinuxTask) :
    (w.modify i change).tasks i = change (w.tasks i) := by simp [modify]

variable {w i j} in
theorem modify_other (apart : j ≠ i) (change : LinuxTask → LinuxTask) :
    (w.modify i change).tasks j = w.tasks j := by simp [modify, apart]

@[simp] theorem vfsClose_tasks (fd : Fd) : (w.vfsClose fd).tasks = w.tasks := rfl

variable {w i} {test : LinuxTask → Bool}

theorem findSlot_some (found : w.findSlot test = some i) : test (w.tasks i) = true :=
  List.find?_some (p := fun i => test (w.tasks i)) found

/-! ## Exit -/

theorem exitFd_tasks (w : World δ ρ) (i : Slot) (idx : FdIdx) :
    (w.exitFd i idx).tasks = (w.modify i fun t =>
      { t with fds := Function.update t.fds idx { t.fds idx with inUse := false } }).tasks := by
  unfold exitFd
  dsimp only
  split_ifs with used
  · rfl
  · have idle : (w.tasks i).fds idx = { (w.tasks i).fds idx with inUse := false } := by
      rw [← Bool.eq_false_iff.mpr used]
    rw [modify, ← idle, Function.update_eq_self]
    simp

/-- An exit writes its own record alone: the status and the mark, and no entry stays in
use. -/
theorem sysExit_tasks (w : World δ ρ) (i : Slot) (status : BitVec 32) :
    (w.sysExit i status).tasks = (w.modify i fun t =>
      { t with
        exitStatus := status
        alive := false
        fds := fun idx => { t.fds idx with inUse := false } }).tasks := by
  have loop (list : List FdIdx) (w : World δ ρ) :
      (list.foldl (fun w idx => w.exitFd i idx) w).tasks = (w.modify i fun t =>
        { t with fds := fun idx =>
            if idx ∈ list then { t.fds idx with inUse := false } else t.fds idx }).tasks := by
    induction list generalizing w with
    | nil => simp [modify]
    | cons idx rest ih =>
      rw [List.foldl_cons, ih]
      simp only [modify, exitFd_tasks, Function.update_self, Function.update_idem]
      congr 2
      funext other
      by_cases same : other = idx
      · subst same
        simp
      · simp [same]
  rw [sysExit, loop]
  simp [modify]

end World

end DBSos.Linux
