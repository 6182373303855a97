import DBSos.Scheduler.Context

/-!
# Exit and waiting for it

The dying task marks itself exited, wakes a parent that is blocked in a
receive, switches to the next ready task and only then returns its pages. Its
record keeps every field, `kstack_phys` included, until the slot is reused.
When no task is ready the processor halts before anything is freed.
-/

namespace DBSos.Kernel

open DBSos.Memory DBSos.Scheduler DBSos.Vm

/-- `KSTACK_PAGES`. -/
def kstackPages : Nat := stackSize / pageSize

/-- `if phys != 0 { pfree(phys) }`. -/
def freePage (p : PhysMem) (phys : Nat) : PhysMem :=
  if phys ≠ 0 then { p with alloc := p.alloc.pfree phys } else p

/-- Step 5 of `exit_with_status`: return the dying task's pages. -/
def freeTaskMemory (p : PhysMem) (t : Task) : PhysMem :=
  let p := freePage p t.codePhys
  let p := freePage p t.userStackPhys
  let p := freePage p t.gdtPhys
  let p := freePage p t.tssPhys
  let p := if t.pml4Phys ≠ 0 then destroyAddressSpace p t.pml4Phys else p
  let p := freePage p t.fpuBufPhys
  if t.kstackPhys ≠ 0 then { p with alloc := p.alloc.pfreeN t.kstackPhys kstackPages } else p

/-- Step 2 of `exit_with_status`: a task with the parent's id that is blocked in
a receive becomes ready, with the child's id in `ipc_val`. -/
def wakeParent (k : Kernel) (parentId childId : Nat) : Kernel :=
  { k with
    tasks := fun slot =>
      let t := k.tasks slot
      if t.id = parentId ∧ t.state = .blockedRecv then
        { t with state := .ready, ipcVal := childId }
      else t }

/-- The exit of the current task up to the choice of the next one. -/
def markExited (k : Kernel) (status : BitVec 32) : Kernel :=
  let dying := k.currentTask
  let k := k.setTask k.current { dying with state := .exited, exitStatus := status }
  if dying.parentId ≠ 0 then k.wakeParent dying.parentId dying.id else k

/-- `exit_with_status`. -/
def exitWithStatus (k : Kernel) (status : BitVec 32) : Kernel :=
  let dying := k.currentTask
  let k := k.markExited status
  let next := k.findReady
  if next = k.current then { k with halted := true }
  else { k.switchTo next with phys := freeTaskMemory k.phys dying }

/-- The records after the dying task is marked and its parent woken. -/
theorem markExited_tasks (k : Kernel) (status : BitVec 32) (slot : Slot) :
    (k.markExited status).tasks slot =
      if slot = k.current then { k.currentTask with state := .exited, exitStatus := status }
      else if k.currentTask.parentId ≠ 0 ∧ (k.tasks slot).id = k.currentTask.parentId ∧
          (k.tasks slot).state = .blockedRecv then
        { k.tasks slot with state := .ready, ipcVal := k.currentTask.id }
      else k.tasks slot := by
  unfold markExited
  by_cases orphan : k.currentTask.parentId = 0
  · by_cases same : slot = k.current <;> simp [orphan, same]
  · by_cases same : slot = k.current <;> simp [orphan, same, wakeParent]

/-- Nothing but task records changes before the next task is chosen. -/
theorem markExited_eq (k : Kernel) (status : BitVec 32) :
    k.markExited status = { k with tasks := (k.markExited status).tasks } := by
  simp only [markExited]
  split_ifs <;> rfl

@[simp] theorem markExited_current (k : Kernel) (status : BitVec 32) :
    (k.markExited status).current = k.current := by
  rw [markExited_eq]

/-- Exit halts when no other task is ready, else it goes on with one that is and
frees the dying task's memory. -/
theorem exitWithStatus_cases (k : Kernel) (status : BitVec 32) :
    ((∀ slot, ((k.markExited status).tasks slot).state ≠ .ready) ∧
      k.exitWithStatus status = { k.markExited status with halted := true }) ∨
    (∃ next, next ≠ k.current ∧ ((k.markExited status).tasks next).state = .ready ∧
      k.exitWithStatus status =
        { (k.markExited status).switchTo next with
          phys := freeTaskMemory k.phys k.currentTask }) := by
  have dead : ((k.markExited status).tasks k.current).state = .exited := by
    rw [markExited_tasks, if_pos rfl]
  rcases (k.markExited status).findReady_spec with ready | ⟨same, idle⟩
  · have differs : (k.markExited status).findReady ≠ k.current := by
      intro same
      rw [same, dead] at ready
      cases ready
    refine .inr ⟨_, differs, ready, ?_⟩
    have kept : (k.markExited status).phys = k.phys := by rw [markExited_eq]
    simp [exitWithStatus, differs, kept]
  · exact .inl ⟨idle, by simp [exitWithStatus, same]⟩

@[simp] theorem exitWithStatus_pending (k : Kernel) (status : BitVec 32) :
    (k.exitWithStatus status).pending = k.pending := by
  have kept : (k.markExited status).pending = k.pending := by rw [markExited_eq]
  rcases k.exitWithStatus_cases status with ⟨_, halts⟩ | ⟨next, _, _, runs⟩
  · rw [halts, ← kept]
  · rw [runs, ← kept]
    rfl

@[simp] theorem exitWithStatus_frames (k : Kernel) (status : BitVec 32) :
    (k.exitWithStatus status).frames = k.frames := by
  have kept : (k.markExited status).frames = k.frames := by rw [markExited_eq]
  rcases k.exitWithStatus_cases status with ⟨_, halts⟩ | ⟨next, _, _, runs⟩
  · rw [halts, ← kept]
  · rw [runs, ← kept]
    rfl

@[simp] theorem exitWithStatus_nextId (k : Kernel) (status : BitVec 32) :
    (k.exitWithStatus status).nextId = k.nextId := by
  have kept : (k.markExited status).nextId = k.nextId := by rw [markExited_eq]
  rcases k.exitWithStatus_cases status with ⟨_, halts⟩ | ⟨next, _, _, runs⟩
  · rw [halts, ← kept]
  · rw [runs, ← kept]
    rfl

/-- Exit writes only states, the dying task's status and the flag of a parent it
wakes; of the tasks in a blocked send only the current one leaves it. -/
theorem exitWithStatus_task (k : Kernel) (status : BitVec 32) (slot : Slot) :
    ((k.exitWithStatus status).tasks slot).id = (k.tasks slot).id ∧
      ((k.exitWithStatus status).tasks slot).ipcPartner = (k.tasks slot).ipcPartner ∧
      ((k.exitWithStatus status).tasks slot).ipcMsg = (k.tasks slot).ipcMsg ∧
      ((k.exitWithStatus status).tasks slot).pendingMsg = (k.tasks slot).pendingMsg ∧
      (((k.exitWithStatus status).tasks slot).state = .blockedSend ↔
        slot ≠ k.current ∧ (k.tasks slot).state = .blockedSend) ∧
      ((k.tasks slot).state ≠ .blockedRecv →
        ((k.exitWithStatus status).tasks slot).ipcVal = (k.tasks slot).ipcVal ∧
          ((k.exitWithStatus status).tasks slot).state ≠ .blockedRecv) := by
  have marked := k.markExited_tasks status slot
  rcases k.exitWithStatus_cases status with ⟨_, halts⟩ | ⟨next, differs, ready, runs⟩
  · simp only [halts, marked]
    split_ifs with dying woken
    · simp [dying, currentTask]
    · simp [woken]
    · simp [dying]
  · simp only [runs, switchTo, modifyTask, setTask_tasks]
    by_cases chosen : slot = next
    · subst chosen
      simp only [Function.update_self, marked, if_neg differs]
      rw [marked, if_neg differs] at ready
      split_ifs at ready ⊢ with woken
      · simp [woken]
      · simp [ready]
    · simp only [Function.update_of_ne chosen, marked]
      split_ifs with dying woken
      · simp [dying, currentTask]
      · simp [woken]
      · simp [dying]

/-- No slot is filled by an exit. -/
theorem exitWithStatus_used (k : Kernel) (alive : k.currentTask.Alive) (status : BitVec 32)
    (slot : Slot) (used : ((k.exitWithStatus status).tasks slot).state ≠ .free) :
    (k.tasks slot).state ≠ .free := by
  have marked := k.markExited_tasks status
  have before : ((k.markExited status).tasks slot).state ≠ .free → (k.tasks slot).state ≠ .free := by
    rw [marked]
    split_ifs with dying woken
    · intro _
      exact dying ▸ alive.1
    · simp [woken]
    · exact id
  rcases k.exitWithStatus_cases status with ⟨_, halts⟩ | ⟨next, _, ready, runs⟩
  · rw [halts] at used
    exact before used
  · rw [runs] at used
    by_cases chosen : slot = next
    · exact before (by simp [chosen, ready])
    · exact before (by simpa [switchTo, modifyTask, chosen] using used)

/-- Unless the processor halts, a living task runs after an exit. -/
theorem exitWithStatus_awake (k : Kernel) (status : BitVec 32)
    (running : (k.exitWithStatus status).halted = false) :
    (k.exitWithStatus status).currentTask.Alive := by
  rcases k.exitWithStatus_cases status with ⟨_, halts⟩ | ⟨next, _, _, runs⟩
  · simp [halts] at running
  · rw [runs]
    simp [switchTo, modifyTask, currentTask, Task.Alive]

/-- The dying task, and no other, is dead afterwards. -/
theorem exitWithStatus_alive (k : Kernel) (status : BitVec 32) (slot : Slot) :
    ((k.exitWithStatus status).tasks slot).Alive ↔ slot ≠ k.current ∧ (k.tasks slot).Alive := by
  have marked := k.markExited_tasks status
  have survives : ((k.markExited status).tasks slot).Alive ↔
      slot ≠ k.current ∧ (k.tasks slot).Alive := by
    rw [marked]
    split_ifs with dying woken
    · simp [dying, Task.Alive]
    · simp [dying, Task.Alive, woken]
    · simp [dying]
  rcases k.exitWithStatus_cases status with ⟨_, halts⟩ | ⟨next, _, ready, runs⟩
  · rw [halts]
    exact survives
  · rw [runs, ← survives]
    by_cases chosen : slot = next
    · subst chosen
      simp [switchTo, modifyTask, Task.Alive, ready]
    · simp [switchTo, modifyTask, chosen]

end DBSos.Kernel

/-!
## Waiting for a child

`SYS_WAITPID` reaps a child that has exited, or blocks like a receive. Behind
its `yield_now` it takes `ipc_val` for the slot of the child; the exit of a
child stores the child's id there, and a message stores 1.
-/

namespace DBSos.Kernel

open DBSos.Scheduler

/-- The error value `!0`. -/
def notZero : Nat := 2 ^ 64 - 1

/-- What the call returns, and the status it writes through a status pointer
that is not null. -/
structure Waited where
  value : Nat
  status : Option (BitVec 64 × BitVec 32)
deriving DecidableEq

/-- The slot becomes free; its id and status go to the caller. -/
def reap (k : Kernel) (slot : Slot) (statusPtr : BitVec 64) : Kernel × Waited :=
  (k.modifyTask slot fun t => { t with state := .free },
    ⟨(k.tasks slot).id,
      if statusPtr ≠ 0#64 then some (statusPtr, (k.tasks slot).exitStatus) else none⟩)

/-- The search for a child that has exited; `pid` 0 stands for any child. -/
def exitedChild (k : Kernel) (pid : Nat) : Option Slot :=
  k.findSlot fun t => t.parentId = k.currentTask.id ∧ (pid = 0 ∨ t.id = pid) ∧ t.state = .exited

/-- `SYS_WAITPID`. -/
def waitpid (k : Kernel) (pid : Nat) (statusPtr : BitVec 64) : Blocking Waited :=
  match k.exitedChild pid with
  | some slot => .ret (k.reap slot statusPtr).1 (k.reap slot statusPtr).2
  | none =>
    .yield (k.modifyTask k.current fun t => { t with state := .blockedRecv, ipcPartner := 0 })
      (.waitpid pid statusPtr)

/-- `SYS_WAITPID` behind its `yield_now`. -/
def resumeWaitpid (k : Kernel) (statusPtr : BitVec 64) : Kernel × Waited :=
  if bound : k.currentTask.ipcVal < maxTasks then
    if (k.tasks ⟨k.currentTask.ipcVal, bound⟩).state = .exited then
      k.reap ⟨k.currentTask.ipcVal, bound⟩ statusPtr
    else (k, ⟨notZero, none⟩)
  else (k, ⟨notZero, none⟩)

end DBSos.Kernel
