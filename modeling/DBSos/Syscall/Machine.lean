import DBSos.System
import DBSos.Users.Table

/-!
# The machine behind a system call

`Machine` is the kernel with what the dispatcher reads besides: the calling
task's memory, the user table, the MMIO regions and the framebuffer. The
subsystems that a handler only calls are `Services`, functions on the whole
machine, whose own state is `rest`.

The kernel is built with overflow checks. An overflow, like an index out of
bounds, ends in the panic handler, and the call never returns.
-/

namespace DBSos.Syscall

open DBSos.Abi DBSos.Scheduler DBSos.Users DBSos.Vm

/-- `MmioRegion`. -/
structure MmioRegion where
  base : BitVec 64
  size : BitVec 64
deriving DecidableEq

/-- The framebuffer variables of `display`. -/
structure Framebuffer where
  phys : BitVec 64
  width : BitVec 32
  height : BitVec 32
  stride : BitVec 32
  isBgr : Bool
deriving DecidableEq

structure Machine (σ : Type) where
  kernel : Kernel
  user : BitVec 64 → UInt8
  currentUid : Nat
  users : Table
  mmioRegions : List MmioRegion
  framebuffer : Framebuffer
  rest : σ

/-- `StatInfo`. -/
structure StatInfo where
  size : BitVec 32
  isDir : Bool
  cluster : BitVec 32

/-- `DirEntry`. -/
structure DirEntry where
  name : Vector UInt8 32
  isDir : Bool
  size : BitVec 32

/-- `Perm`. -/
structure Perm where
  owner : BitVec 32
  group : BitVec 32
  mode : BitVec 16

/-- The address that `SYS_ACCEPT` reads from a connection. -/
structure Peer where
  remotePort : BitVec 16
  peerIp : Vector UInt8 4

/-- The calls into other subsystems. A negative number is the error value of an
`i32` or `i64` result, `none` that of an option. -/
structure Services (σ : Type) where
  /-- The Linux personality; `none` when the task has none. -/
  handleSyscall : Machine σ → BitVec 64 → BitVec 64 → BitVec 64 → BitVec 64 → BitVec 64 →
    Option (BitVec 64 × Machine σ)
  vfsOpen : List UInt8 → BitVec 64 → Machine σ → BitVec 32 × Machine σ
  vfsClose : BitVec 32 → Machine σ → Machine σ
  vfsLseek : BitVec 32 → BitVec 64 → Machine σ → Machine σ
  vfsRead : BitVec 32 → Nat → Machine σ → BitVec 64 × (Nat → UInt8) × Machine σ
  vfsWrite : BitVec 32 → List UInt8 → Machine σ → BitVec 64 × Machine σ
  vfsStat : List UInt8 → Machine σ → Option StatInfo
  vfsReaddir : List UInt8 → Machine σ → BitVec 32 × (Fin 64 → DirEntry) × Machine σ
  vfsMkdir : List UInt8 → Machine σ → Bool × Machine σ
  vfsRmdir : List UInt8 → Machine σ → Bool × Machine σ
  vfsUnlink : List UInt8 → Machine σ → Bool × Machine σ
  vfsIsDir : List UInt8 → Machine σ → Bool
  loadAndSpawn : List UInt8 → Machine σ → BitVec 64 × Machine σ
  kmalloc : Nat → Machine σ → BitVec 64 × Machine σ
  kfree : BitVec 64 → Machine σ → Machine σ
  cwdGet : Machine σ → List UInt8
  cwdSet : List UInt8 → Machine σ → Machine σ
  tcpAllocConn : Machine σ → Option (BitVec 64) × Machine σ
  tcpClose : BitVec 64 → Machine σ → Machine σ
  tcpListen : BitVec 16 → Machine σ → Option (BitVec 64) × Machine σ
  tcpFindAccepted : BitVec 16 → Machine σ → Option (BitVec 64)
  tcpConnRef : BitVec 64 → Machine σ → Peer
  tcpConnect : Vector UInt8 4 → BitVec 16 → Machine σ → Option (BitVec 64) × Machine σ
  tcpSend : BitVec 64 → List UInt8 → Machine σ → Bool × Machine σ
  /-- The count is at most the length of the buffer. -/
  tcpRecv : BitVec 64 → Machine σ → Fin 2049 × (Nat → UInt8) × Machine σ
  permGet : List UInt8 → Machine σ → Perm
  permSet : List UInt8 → Perm → Machine σ → Machine σ
  pciRead32 : BitVec 8 → BitVec 8 → BitVec 8 → BitVec 8 → Machine σ → BitVec 32
  pciWrite32 : BitVec 8 → BitVec 8 → BitVec 8 → BitVec 8 → BitVec 32 → Machine σ → Machine σ
  /-- An index of the eight pools. -/
  poolCreate : BitVec 64 → Machine σ → Option (Fin 8) × Machine σ
  poolDestroy : BitVec 64 → Machine σ → Bool × Machine σ
  surfaceCreate : BitVec 32 → BitVec 32 → BitVec 32 → BitVec 32 → Machine σ →
    Option (BitVec 32) × Machine σ
  surfaceDestroy : BitVec 32 → Machine σ → Bool × Machine σ
  surfaceAttach : BitVec 32 → BitVec 64 → BitVec 32 → BitVec 32 → BitVec 32 → BitVec 32 →
    Machine σ → Bool × Machine σ
  surfaceCommit : BitVec 32 → Machine σ → Bool × Machine σ
  surfaceSetPos : BitVec 32 → BitVec 32 → BitVec 32 → Machine σ → Bool × Machine σ

/-- Where a call continues behind its `yield_now`. -/
inductive Continuation where
  | ipcSendLegacy
  | ipcRecvLegacy
  | ipcSend
  | ipcRecv (buf : BitVec 64)
  | waitpid (statusPtr : BitVec 64)
deriving DecidableEq

/-- How a call ends: with the value for `rax`, at a `yield_now`, or in the panic
handler. -/
inductive Reply (σ : Type) where
  | ret (value : BitVec 64) (m : Machine σ)
  | yield (continuation : Continuation) (m : Machine σ)
  | panic

/-- `EXIT_MAGIC`, the value on which `syscall_stub` takes the exit path. -/
def exitMagic : BitVec 64 := BitVec.allOnes 64

/-- `return !0u64`. -/
def Reply.fail {σ : Type} (m : Machine σ) : Reply σ := .ret exitMagic m

/-- `if ok { 0 } else { !0u64 }`. -/
def Reply.ofBool {σ : Type} (result : Bool × Machine σ) : Reply σ :=
  if result.1 then .ret 0#64 result.2 else .fail result.2

/-- The value and the machine of a call that returns. -/
def Reply.returned {σ : Type} : Reply σ → Option (BitVec 64 × Machine σ)
  | .ret value m => some (value, m)
  | _ => none

/-- An IPC result code as `u64`. -/
def ipcCode (code : Int) : BitVec 64 := BitVec.ofInt 64 code

namespace Machine

variable {σ : Type}

/-- `user_range_ok`. -/
def userRangeOk (m : Machine σ) (ptr : BitVec 64) (len : Nat) : Bool :=
  if len = 0 then true
  else if m.kernel.currentTask.pml4 = 0 then true
  else isUserRangeMapped m.kernel.phys m.kernel.currentTask.pml4 ptr len

/-- The loops over `read_volatile`. -/
def readBytes (m : Machine σ) (ptr : BitVec 64) (len : Nat) : List UInt8 :=
  (List.range len).map fun i => m.user (ptr + BitVec.ofNat 64 i)

/-- The loops over `write_volatile`. -/
def writeBytes (m : Machine σ) (ptr : BitVec 64) (bytes : List UInt8) : Machine σ :=
  { m with user := fun addr => bytes.getD (addr - ptr).toNat (m.user addr) }

/-- The `len` low bytes of a word, in memory order. -/
def leBytes (word len : Nat) : List UInt8 :=
  (List.range len).map fun i => UInt8.ofNat (word / 256 ^ i)

/-- A 16-bit field in memory. -/
def readU16 (m : Machine σ) (ptr : BitVec 64) : UInt16 :=
  (m.user ptr).toUInt16 ||| (m.user (ptr + 1#64)).toUInt16 <<< 8

/-- `read_user_msg`. -/
def readMsg (m : Machine σ) (ptr : BitVec 64) : Message where
  srcPort := m.readU16 ptr
  dstPort := m.readU16 (ptr + 2#64)
  msgType := m.readU16 (ptr + 4#64)
  flags := m.readU16 (ptr + 6#64)
  length := m.readU16 (ptr + 8#64)
  shmemCap := m.readU16 (ptr + 10#64)
  data := Vector.ofFn fun i => m.user (ptr + BitVec.ofNat 64 (12 + i.val))
  stamp := none

/-- `write_user_msg`. -/
def writeMsg (m : Machine σ) (ptr : BitVec 64) (msg : Message) : Machine σ :=
  m.writeBytes ptr
    (([msg.srcPort, msg.dstPort, msg.msgType, msg.flags, msg.length, msg.shmemCap].flatMap
      fun field => leBytes field.toNat 2) ++ msg.data.toList)

/-- `current_uid`: the task's, unless the boot task runs as root while the global
one has changed. -/
def uid (m : Machine σ) : Nat :=
  let t := m.kernel.currentTask
  if t.state ≠ .free ∧ (t.id ≠ 0 ∨ t.uid ≠ 0 ∨ m.currentUid = 0) then t.uid else m.currentUid

/-- `current_gid`. -/
def gid (m : Machine σ) : Nat :=
  if m.kernel.currentTask.state ≠ .free then m.kernel.currentTask.gid else m.currentUid

/-- `find_by_uid`. -/
def findByUid (m : Machine σ) (uid : Nat) : Option User := m.users.findByUid uid

/-- `set_current_uid`. -/
def setCurrentUid (m : Machine σ) (uid : Nat) : Machine σ :=
  let gid := ((m.findByUid uid).map User.gid).getD uid
  { m with
    currentUid := uid
    kernel := m.kernel.modifyTask m.kernel.current fun t => { t with uid := uid, gid := gid } }

/-- A context switch to a ready task, as `reschedule` makes it. -/
def switch (m : Machine σ) (next : Slot) : Option (Machine σ) :=
  if (m.kernel.tasks next).state = .ready then
    some { m with kernel := (m.kernel.modifyTask m.kernel.current Kernel.park).switchTo next }
  else none

/-- A switch concerns the kernel. -/
theorem switch_eq {m m' : Machine σ} {next : Slot} (switched : m.switch next = some m') :
    ∃ kernel, m' = { m with kernel } := by
  unfold switch at switched
  split_ifs at switched
  exact ⟨_, (Option.some.inj switched).symm⟩

/-- It writes nothing of a task but its state, and frees no slot. -/
theorem switch_task {m m' : Machine σ} {next : Slot} (switched : m.switch next = some m')
    (slot : Slot) : ∃ state, m'.kernel.tasks slot = { m.kernel.tasks slot with state } ∧
      (state = .free ↔ (m.kernel.tasks slot).state = .free) := by
  unfold switch at switched
  split_ifs at switched with ready
  obtain rfl := Option.some.inj switched
  simp only [Kernel.switchTo, Kernel.modifyTask, Kernel.setTask_tasks]
  by_cases atNext : slot = next
  · subst atNext
    refine ⟨.running, ?_, by simp [ready]⟩
    rw [Function.update_self]
    by_cases atCurrent : slot = m.kernel.current
    · subst atCurrent
      rw [Function.update_self, Kernel.park]
    · rw [Function.update_of_ne atCurrent]
  · rw [Function.update_of_ne atNext]
    by_cases atCurrent : slot = m.kernel.current
    · subst atCurrent
      rw [Function.update_self]
      refine ⟨_, rfl, ?_⟩
      split_ifs with runnable
      · rcases runnable with running | ready <;> simp [*]
      · exact Iff.rfl
    · rw [Function.update_of_ne atCurrent]
      exact ⟨_, rfl, Iff.rfl⟩

/-- The entry of a file descriptor that is in use. -/
def fd (m : Machine σ) (idx : BitVec 64) : Option (Fin maxFds × FdEntry) :=
  if bound : idx.toNat < maxFds then
    let entry := m.kernel.currentTask.fds.get ⟨idx.toNat, bound⟩
    if entry.inUse then some (⟨idx.toNat, bound⟩, entry) else none
  else none

/-- The test `fd_idx >= fds.len() || !fds[fd_idx].in_use` of every call on a
descriptor. -/
def withFd (m : Machine σ) (idx : BitVec 64) (act : Fin maxFds → FdEntry → Reply σ) : Reply σ :=
  match m.fd idx with
  | none => .fail m
  | some (slot, entry) => act slot entry

/-- `task_fds.iter().position(|f| !f.in_use)`. -/
def freeFd (m : Machine σ) : Option (Fin maxFds) :=
  (List.finRange maxFds).find? fun i => !(m.kernel.currentTask.fds.get i).inUse

/-- A descriptor that is in use is the current task's, under its number. -/
theorem fd_eq_some {m : Machine σ} {idx : BitVec 64} {slot : Fin maxFds} {entry : FdEntry}
    (found : m.fd idx = some (slot, entry)) :
    slot.val = idx.toNat ∧ entry = m.kernel.currentTask.fds.get slot ∧ entry.inUse = true := by
  simp only [fd] at found
  split_ifs at found with bound used
  cases found
  exact ⟨rfl, rfl, used⟩

theorem freeFd_eq_some {m : Machine σ} {slot : Fin maxFds} (free : m.freeFd = some slot) :
    (m.kernel.currentTask.fds.get slot).inUse = false := by
  have test := List.find?_some (p := fun i => !(m.kernel.currentTask.fds.get i).inUse) free
  simpa using test

/-- `task_fds[slot] = entry`. -/
def setFd (m : Machine σ) (slot : Fin maxFds) (entry : FdEntry) : Machine σ :=
  { m with
    kernel := m.kernel.modifyTask m.kernel.current fun t => { t with fds := t.fds.set slot entry } }

/-- `fds[slot].offset += actual as u32`, and the entry it leaves. -/
def advance (m : Machine σ) (slot : Fin maxFds) (actual : Nat) : Option FdEntry :=
  let entry := m.kernel.currentTask.fds.get slot
  let step := BitVec.ofNat 32 actual
  if entry.offset.toNat + step.toNat < 2 ^ 32 then some { entry with offset := entry.offset + step }
  else none

end Machine

/-- The name in an entry, up to its first zero byte. -/
def fdName (entry : FdEntry) : List UInt8 := entry.path.toList.takeWhile fun byte => byte ≠ 0

/-- A name padded with zeros. -/
def padName (name : List UInt8) : Vector UInt8 128 := Vector.ofFn fun i => name.getD i.val 0

/-- A machine with one running task, which has no descriptor in use. -/
def oneTask : Machine Unit where
  kernel :=
    { tasks := fun slot => if slot = 0 then { Task.free with state := .running } else Task.free
      current := 0
      nextId := 1
      pending := fun _ => Message.empty
      capTables := fun _ => Cap.CapTable.new
      phys := ⟨⟨0x100000, fun _ => 0#8, 0x101000, 64, 64, 0⟩, fun _ _ => 0#64⟩
      kernelPml4 := 0
      frames := fun _ => .outside
      halted := false }
  user := fun _ => 0
  currentUid := 0
  users := []
  mmioRegions := []
  framebuffer := ⟨0#64, 0#32, 0#32, 0#32, false⟩
  rest := ()

scoped instance neZero_read : NeZero 2049 := ⟨by decide⟩

/-- Subsystems that fail every call, and no Linux personality. -/
def noServices {σ : Type} : Services σ where
  handleSyscall := fun _ _ _ _ _ _ => none
  vfsOpen := fun _ _ m => (BitVec.allOnes 32, m)
  vfsClose := fun _ m => m
  vfsLseek := fun _ _ m => m
  vfsRead := fun _ _ m => (BitVec.allOnes 64, fun _ => 0, m)
  vfsWrite := fun _ _ m => (BitVec.allOnes 64, m)
  vfsStat := fun _ _ => none
  vfsReaddir := fun _ m => (BitVec.allOnes 32, fun _ => ⟨Vector.replicate 32 0, false, 0#32⟩, m)
  vfsMkdir := fun _ m => (false, m)
  vfsRmdir := fun _ m => (false, m)
  vfsUnlink := fun _ m => (false, m)
  vfsIsDir := fun _ _ => false
  loadAndSpawn := fun _ m => (0#64, m)
  kmalloc := fun _ m => (0#64, m)
  kfree := fun _ m => m
  cwdGet := fun _ => []
  cwdSet := fun _ m => m
  tcpAllocConn := fun m => (none, m)
  tcpClose := fun _ m => m
  tcpListen := fun _ m => (none, m)
  tcpFindAccepted := fun _ _ => none
  tcpConnRef := fun _ _ => ⟨0#16, Vector.replicate 4 0⟩
  tcpConnect := fun _ _ m => (none, m)
  tcpSend := fun _ _ m => (false, m)
  tcpRecv := fun _ m => (0, fun _ => 0, m)
  permGet := fun _ _ => ⟨0#32, 0#32, 0#16⟩
  permSet := fun _ _ m => m
  pciRead32 := fun _ _ _ _ _ => BitVec.allOnes 32
  pciWrite32 := fun _ _ _ _ _ m => m
  poolCreate := fun _ m => (none, m)
  poolDestroy := fun _ m => (false, m)
  surfaceCreate := fun _ _ _ _ m => (none, m)
  surfaceDestroy := fun _ m => (false, m)
  surfaceAttach := fun _ _ _ _ _ _ m => (false, m)
  surfaceCommit := fun _ m => (false, m)
  surfaceSetPos := fun _ _ _ m => (false, m)

end DBSos.Syscall
