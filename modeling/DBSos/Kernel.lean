import DBSos.Abi
import DBSos.Vm.PageTable

/-!
# Tasks and the state of the kernel

One `Task` a slot of the task table, with the fields the kernel reads. The
saved stack pointer and the contents of the kernel stack are represented by
`Frame`: the place in a blocking kernel call where the task resumes.
-/

namespace DBSos.Scheduler

open DBSos.Abi

def stackSize : Nat := 65536
abbrev maxTasks : Nat := 32
def maxTasksPerUser : Nat := 8
def maxFds : Nat := 16
def maxVmas : Nat := 8

/-- An index of the task table. -/
abbrev Slot := Fin maxTasks

instance : NeZero maxTasks := ⟨by decide⟩

inductive TaskState where
  | free
  | ready
  | running
  | exited
  | blockedSend
  | blockedRecv
deriving DecidableEq, Repr

/-- A file descriptor entry. -/
structure FdEntry where
  inUse : Bool
  path : Vector UInt8 128
  offset : BitVec 32
  size : BitVec 32
  flags : BitVec 64
deriving DecidableEq

/-- `FdEntry::empty`. -/
def FdEntry.empty : FdEntry where
  inUse := false
  path := Vector.replicate 128 0
  offset := 0
  size := 0
  flags := 0

/-- A user range that the page-fault handler may back. -/
structure Vma where
  start : BitVec 64
  stop : BitVec 64
  kind : UInt8
  flags : BitVec 64
deriving DecidableEq

/-- `Vma::empty`. -/
def Vma.empty : Vma := ⟨0, 0, 0, 0⟩

/-- Where a task continues when it is scheduled: in its own code, or behind the
`yield_now` of a blocking kernel call. -/
inductive Frame where
  | outside
  | sendWithCap
  | recvWithCap
  | ipcSend
  | ipcRecv
  | waitpid (childPid : Nat) (statusPtr : BitVec 64)
deriving DecidableEq

/-- `Task`. Pointers and physical addresses are natural numbers, 0 for null. -/
structure Task where
  state : TaskState
  stackBase : Nat
  id : Nat
  parentId : Nat
  exitStatus : BitVec 32
  ipcPartner : Nat
  ipcVal : Nat
  ipcMsg : Message
  pml4 : Nat
  pml4Phys : Nat
  gdtPhys : Nat
  tssPhys : Nat
  ring3 : Bool
  codePhys : Nat
  userStackPhys : Nat
  kstackPhys : Nat
  fpuBufPhys : Nat
  pendingMsg : Message
  fds : Vector FdEntry maxFds
  vmas : Vector Vma maxVmas
  vmaCount : Nat
  uid : Nat
  gid : Nat
  cwd : Vector UInt8 128
  cwdLen : Nat

/-- `Task::free`. -/
def Task.free : Task where
  state := .free
  stackBase := 0
  id := 0
  parentId := 0
  exitStatus := 0
  ipcPartner := 0
  ipcVal := 0
  ipcMsg := Message.empty
  pml4 := 0
  pml4Phys := 0
  gdtPhys := 0
  tssPhys := 0
  ring3 := false
  codePhys := 0
  userStackPhys := 0
  kstackPhys := 0
  fpuBufPhys := 0
  pendingMsg := Message.empty
  fds := Vector.replicate maxFds FdEntry.empty
  vmas := Vector.replicate maxVmas Vma.empty
  vmaCount := 0
  uid := 0
  gid := 0
  cwd := Vector.replicate 128 0
  cwdLen := 1

/-- The task can still run or be woken. -/
def Task.Alive (t : Task) : Prop := t.state ≠ .free ∧ t.state ≠ .exited

instance (t : Task) : Decidable t.Alive := inferInstanceAs (Decidable (_ ∧ _))

end DBSos.Scheduler

/-!
## Capability tables

One table of 64 slots for each task slot. A slot is vacant when its capability
is invalid.
-/

namespace DBSos.Cap

open DBSos.Abi

/-- `CapTable`. -/
structure CapTable where
  caps : Fin maxCapsPerProcess → Cap

namespace CapTable

/-- `CapTable::new`. -/
def new : CapTable := ⟨fun _ => Cap.null⟩

/-- `CapTable::alloc`: the first vacant slot takes the capability. -/
def alloc (table : CapTable) (capType serverId rights data : Nat) : CapTable × Option Nat :=
  match (List.finRange maxCapsPerProcess).find? fun i => !(table.caps i).isValid with
  | some i => (⟨Function.update table.caps i ⟨capType, serverId, rights, data⟩⟩, some i)
  | none => (table, none)

/-- `CapTable::get`. -/
def get (table : CapTable) (idx : Nat) : Option Cap :=
  if bound : idx < maxCapsPerProcess then
    if (table.caps ⟨idx, bound⟩).isValid then some (table.caps ⟨idx, bound⟩) else none
  else none

/-- `CapTable::free`. -/
def free (table : CapTable) (idx : Nat) : CapTable :=
  if bound : idx < maxCapsPerProcess then
    ⟨Function.update table.caps ⟨idx, bound⟩ Cap.null⟩
  else table

/-- `CapTable::validate`. -/
def validate (table : CapTable) (idx requiredRights : Nat) : Bool :=
  match table.get idx with
  | some cap => cap.rights &&& requiredRights = requiredRights
  | none => false

theorem get_isValid {table : CapTable} {idx : Nat} {cap : Cap}
    (found : table.get idx = some cap) : cap.isValid = true := by
  unfold get at found
  split_ifs at found with bound valid
  rw [← Option.some.inj found]
  exact valid

end CapTable

end DBSos.Cap

/-!
## The kernel's static data

`Kernel` gathers the static variables that the task, IPC and capability code
shares, with the continuation of each task's kernel stack in `frames`. A
blocking call stops at its `yield_now` and leaves a `Frame` behind; what other
tasks do before it resumes is then a run of steps rather than a function.
-/

namespace DBSos

open DBSos.Abi DBSos.Scheduler DBSos.Cap DBSos.Vm

/-- The static variables of `scheduler`, `ipc`, `cap`, `memory` and `vm`. -/
structure Kernel where
  tasks : Slot → Task
  current : Slot
  nextId : Nat
  pending : Slot → Message
  capTables : Slot → CapTable
  phys : PhysMem
  kernelPml4 : Nat
  frames : Slot → Frame
  /-- The last runnable task has exited and the processor is in `hlt`. -/
  halted : Bool

/-- The result of a kernel call that may block: a value, or the state in which
it calls `yield_now` and the frame in which it resumes. -/
inductive Blocking (α : Type) where
  | ret (k : Kernel) (value : α)
  | yield (k : Kernel) (frame : Frame)

namespace Kernel

/-- `TASKS[CURRENT]`. -/
def currentTask (k : Kernel) : Task := k.tasks k.current

/-- `TASKS[slot] = task`. -/
def setTask (k : Kernel) (slot : Slot) (task : Task) : Kernel :=
  { k with tasks := Function.update k.tasks slot task }

/-- Write one task record in place. -/
def modifyTask (k : Kernel) (slot : Slot) (change : Task → Task) : Kernel :=
  k.setTask slot (change (k.tasks slot))

/-- The current task's kernel stack continues at this frame. -/
def setFrame (k : Kernel) (frame : Frame) : Kernel :=
  { k with frames := Function.update k.frames k.current frame }

/-- `NEXT_ID += 1`. -/
def takeId (k : Kernel) : Kernel := { k with nextId := k.nextId + 1 }

/-- `(0..MAX_TASKS).find(test)`. -/
def findSlot (k : Kernel) (test : Task → Bool) : Option Slot :=
  (List.finRange maxTasks).find? fun slot => test (k.tasks slot)

/-- `find_task`, and the same search written out in `send_with_cap` and
`slot_for_task`: the first slot that is not free and holds this id. -/
def findTask (k : Kernel) (id : Nat) : Option Slot :=
  k.findSlot fun t => t.state ≠ .free ∧ t.id = id

/-- `task_count_for_uid`. -/
def taskCountForUid (k : Kernel) (uid : Nat) : Nat :=
  (List.finRange maxTasks).countP fun slot =>
    (k.tasks slot).state ≠ .free ∧ (k.tasks slot).uid = uid

@[simp] theorem setTask_tasks (k : Kernel) (slot : Slot) (task : Task) :
    (k.setTask slot task).tasks = Function.update k.tasks slot task := rfl
@[simp] theorem setTask_current (k : Kernel) (slot : Slot) (task : Task) :
    (k.setTask slot task).current = k.current := rfl
@[simp] theorem setTask_nextId (k : Kernel) (slot : Slot) (task : Task) :
    (k.setTask slot task).nextId = k.nextId := rfl
@[simp] theorem setTask_pending (k : Kernel) (slot : Slot) (task : Task) :
    (k.setTask slot task).pending = k.pending := rfl
@[simp] theorem setTask_capTables (k : Kernel) (slot : Slot) (task : Task) :
    (k.setTask slot task).capTables = k.capTables := rfl
@[simp] theorem setTask_phys (k : Kernel) (slot : Slot) (task : Task) :
    (k.setTask slot task).phys = k.phys := rfl
@[simp] theorem setTask_kernelPml4 (k : Kernel) (slot : Slot) (task : Task) :
    (k.setTask slot task).kernelPml4 = k.kernelPml4 := rfl
@[simp] theorem setTask_frames (k : Kernel) (slot : Slot) (task : Task) :
    (k.setTask slot task).frames = k.frames := rfl
@[simp] theorem setTask_halted (k : Kernel) (slot : Slot) (task : Task) :
    (k.setTask slot task).halted = k.halted := rfl

@[simp] theorem setFrame_tasks (k : Kernel) (frame : Frame) : (k.setFrame frame).tasks = k.tasks := rfl
@[simp] theorem setFrame_current (k : Kernel) (frame : Frame) :
    (k.setFrame frame).current = k.current := rfl
@[simp] theorem setFrame_pending (k : Kernel) (frame : Frame) :
    (k.setFrame frame).pending = k.pending := rfl
@[simp] theorem setFrame_halted (k : Kernel) (frame : Frame) :
    (k.setFrame frame).halted = k.halted := rfl

theorem findSlot_some {k : Kernel} {test : Task → Bool} {slot : Slot}
    (found : k.findSlot test = some slot) : test (k.tasks slot) = true := by
  simpa using List.find?_some found

theorem findSlot_none {k : Kernel} {test : Task → Bool} (missing : k.findSlot test = none)
    (slot : Slot) : test (k.tasks slot) = false := by
  have absent := List.find?_eq_none.mp missing slot (List.mem_finRange slot)
  simpa using absent

theorem findTask_some {k : Kernel} {id : Nat} {slot : Slot}
    (found : k.findTask id = some slot) :
    (k.tasks slot).state ≠ .free ∧ (k.tasks slot).id = id := by
  simpa using findSlot_some found

end Kernel

end DBSos
