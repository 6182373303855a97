import DBSos.Lib.Leases
import DBSos.Scheduler.Switching

/-!
# Kernel stacks over whole runs

`Kstacks` is the kernel with a ledger of its `palloc_n` and `pfree_n` calls for kernel
stacks. The stacks are well kept (`Good`) when each is freed at most once for each time it
was taken, and when the stacks of living tasks are allocated and apart.

An exit frees the stack and leaves `kstack_phys` in the record, so a creation that takes
the slot over frees it once more. The stacks are well kept in the runs in which no slot is
taken over with a stack in its record, no stack reaches past the end of the region, and
nothing else that an exit frees lies in the stack of a living task (`Frugal`).
-/

namespace DBSos

open DBSos.Lib DBSos.Memory DBSos.Scheduler DBSos.Vm

namespace Scheduler

/-- The memory that a record names. -/
structure Holdings where
  stackBase : Nat
  pml4 : Nat
  pml4Phys : Nat
  gdtPhys : Nat
  tssPhys : Nat
  codePhys : Nat
  userStackPhys : Nat
  kstackPhys : Nat
  fpuBufPhys : Nat

def Task.holdings (t : Task) : Holdings where
  stackBase := t.stackBase
  pml4 := t.pml4
  pml4Phys := t.pml4Phys
  gdtPhys := t.gdtPhys
  tssPhys := t.tssPhys
  codePhys := t.codePhys
  userStackPhys := t.userStackPhys
  kstackPhys := t.kstackPhys
  fpuBufPhys := t.fpuBufPhys

/-- The stack a task runs on, and the one its record will free; neither is 0. -/
def Task.kstacks (t : Task) : List Nat := Kernel.held t.stackBase ++ Kernel.held t.kstackPhys

theorem Task.kstacks_congr {t u : Task} (same : u.holdings = t.holdings) :
    u.kstacks = t.kstacks := by
  have base : u.stackBase = t.stackBase := congrArg Holdings.stackBase same
  have phys : u.kstackPhys = t.kstackPhys := congrArg Holdings.kstackPhys same
  rw [kstacks, kstacks, base, phys]

end Scheduler

/-- The kernel, and the kernel stacks taken and freed so far. -/
structure Kstacks where
  kernel : Kernel
  ledger : Ledger Nat

namespace Kernel

/-! ## What the calls take and free -/

/-- The free of a stack, unless it is 0. -/
def frees (stack : Nat) : Ledger Nat := (held stack).map .freed

/-- A stack that `palloc_n` returned, unless it is 0. -/
def takes (stack : Nat) : Ledger Nat := (held stack).map .taken

/-- The stack calls of `exit_with_status`. -/
def exitStacks (k : Kernel) (status : BitVec 32) : Ledger Nat :=
  if (k.markExited status).findReady = k.current then [] else frees k.currentTask.kstackPhys

/-- The stack calls of `spawn`: the new stack first, then the one in the slot's record. -/
def spawnStacks (k : Kernel) : Ledger Nat :=
  if k.atTaskLimit k.currentTask.uid then []
  else
    match k.freeSlot with
    | none => []
    | some slot =>
      if k.allocKstack.1 = 0 then []
      else takes k.allocKstack.1 ++ frees (k.tasks slot).kstackPhys

/-- The stack calls of `spawn_user`: the one in the slot's record first. -/
def spawnUserStacks (k : Kernel) : Ledger Nat :=
  if k.atTaskLimit k.currentTask.uid then []
  else
    match k.freeSlot with
    | none => []
    | some slot =>
      frees (k.tasks slot).kstackPhys ++ takes (k.freePrevKstack slot).allocKstack.1

/-- The second stack of a child, 0 for none. -/
def secondStack (k : Kernel) (ownKstack : Bool) : Nat :=
  ((k.allocKstack.2.identityMapKernel k.allocKstack.1 stackSize).secondKstack ownKstack).1

/-- The stack calls of the forks: without a table for the child its first stack goes back. -/
def forkStacks (k : Kernel) (parent : Slot) (ownKstack : Bool) : Ledger Nat :=
  if ¬ k.MayFork parent ∨ k.allocKstack.1 = 0 then []
  else takes k.allocKstack.1 ++ takes (k.secondStack ownKstack) ++
    if (k.beforeTable ownKstack).alloc.palloc.1 = 0 then frees k.allocKstack.1 else []

/-- The stack calls of a step. -/
def stackCalls (k : Kernel) : Action → Ledger Nat
  | .exit status => k.exitStacks status
  | .spawn => k.spawnStacks
  | .spawnUser _ => k.spawnUserStacks
  | .sysFork => k.forkStacks k.current k.currentTask.ring3
  | .fork parentId =>
    match k.findTask parentId with
    | none => []
    | some parent => k.forkStacks parent false
  | _ => []

end Kernel

namespace Kstacks

def step (w : Kstacks) (action : Action) : Option Kstacks :=
  (w.kernel.step action).map fun after => ⟨after, w.ledger ++ w.kernel.stackCalls action⟩

def Steps (w : Kstacks) (action : Action) (w' : Kstacks) : Prop := w.step action = some w'

/-- No stack is freed more often than taken, and the stacks of a living task are allocated
and belong to no other one. -/
structure Good (w : Kstacks) : Prop where
  once : w.ledger.FreedOnce
  marked : ∀ slot, (w.kernel.tasks slot).Alive → ∀ stack ∈ (w.kernel.tasks slot).kstacks,
    ∀ page ∈ pages stack Kernel.kstackPages, Allocated w.kernel.phys.alloc page
  sole : ∀ slot other, slot ≠ other → (w.kernel.tasks slot).Alive → (w.kernel.tasks other).Alive →
    ∀ stack ∈ (w.kernel.tasks slot).kstacks, ∀ theirs ∈ (w.kernel.tasks other).kstacks,
      ApartRuns stack theirs Kernel.kstackPages

end Kstacks

namespace Kernel

/-! ## The steps that keep the stacks well -/

/-- What an exit returns besides the task's kernel stack. -/
def imagePages (mem : PageMem) (t : Task) : List Nat :=
  held t.codePhys ++ held t.userStackPhys ++ held t.gdtPhys ++ held t.tssPhys ++
    (if t.pml4Phys ≠ 0 then addressSpacePages mem t.pml4Phys else []) ++ held t.fpuBufPhys

/-- No page of the list lies in a kernel stack of the task in this slot, if it is alive. -/
def SparesStacks (k : Kernel) (freed : List Nat) (slot : Slot) : Prop :=
  (k.tasks slot).Alive → ∀ stack ∈ (k.tasks slot).kstacks, ∀ page ∈ pages stack kstackPages,
    ∀ one ∈ freed, ¬ k.phys.alloc.Hits one page

instance (k : Kernel) (freed : List Nat) (slot : Slot) : Decidable (k.SparesStacks freed slot) :=
  inferInstanceAs (Decidable (_ → _))

/-- A kernel stack taken now would lie in the region. -/
def HasRoom (k : Kernel) : Prop := k.phys.alloc.Whole kstackPages

instance (k : Kernel) : Decidable k.HasRoom :=
  decidable_of_iff _ (whole_iff (a := k.phys.alloc) (show 0 < kstackPages by decide)).symm

/-- The stacks that a fork takes lie in the region. -/
def ForkHasRoom (k : Kernel) (parent : Slot) (ownKstack : Bool) : Prop :=
  k.MayFork parent → k.HasRoom ∧ (k.allocKstack.1 ≠ 0 → ownKstack = true →
    (k.allocKstack.2.identityMapKernel k.allocKstack.1 stackSize).HasRoom)

instance (k : Kernel) (parent : Slot) (ownKstack : Bool) :
    Decidable (k.ForkHasRoom parent ownKstack) :=
  inferInstanceAs (Decidable (_ → _ ∧ (_ → _ → _)))

/-- The step keeps the stacks well. A slot is taken over without a stack in its record, a
new stack lies in the region, and what an exit returns besides its own stack spares those
of the other living tasks. -/
def Frugal (k : Kernel) : Action → Prop
  | .exit _ => k.Succeeded → ∀ slot, slot ≠ k.current →
      k.SparesStacks (imagePages k.phys.mem k.currentTask) slot
  | .spawn => k.atTaskLimit k.currentTask.uid = false → ∀ slot, k.freeSlot = some slot →
      k.HasRoom ∧ (k.allocKstack.1 ≠ 0 → (k.tasks slot).kstackPhys = 0)
  | .spawnUser _ => k.atTaskLimit k.currentTask.uid = false → ∀ slot, k.freeSlot = some slot →
      k.HasRoom ∧ (k.tasks slot).kstackPhys = 0
  | .sysFork => k.ForkHasRoom k.current k.currentTask.ring3
  | .fork parentId => ∀ parent, k.findTask parentId = some parent → k.ForkHasRoom parent false
  | _ => True

instance (k : Kernel) : (action : Action) → Decidable (k.Frugal action)
  | .fork _ => inferInstanceAs (Decidable (∀ _ : Slot, _))
  | .exit _ | .spawn | .spawnUser _ => inferInstanceAs (Decidable (_ → _))
  | .sysFork => inferInstanceAs (Decidable (ForkHasRoom _ _ _))
  | .tick | .resume | .send _ _ | .recv _ | .ipcSend _ _ | .ipcRecv _ | .waitpid _ _
  | .capAlloc _ | .capAllocFor _ _ | .capDuplicate _ _ | .capTransfer _ _ =>
    inferInstanceAs (Decidable True)

/-! ## The invariant -/

/-- The task that runs is alive, and the stacks of living tasks are allocated and apart. -/
structure Housed (k : Kernel) : Prop where
  awake : k.halted = false → k.currentTask.Alive
  allocated : ∀ slot, (k.tasks slot).Alive → ∀ stack ∈ (k.tasks slot).kstacks,
    AllocatedRun k.phys.alloc stack kstackPages
  apart : ∀ slot other, slot ≠ other → (k.tasks slot).Alive → (k.tasks other).Alive →
    ∀ stack ∈ (k.tasks slot).kstacks, ∀ theirs ∈ (k.tasks other).kstacks,
      ApartRuns stack theirs kstackPages

/-- No task comes to life, none gets other memory, and memory is left alone. -/
structure Quiet (k k' : Kernel) : Prop where
  phys : k'.phys = k.phys
  kernelPml4 : k'.kernelPml4 = k.kernelPml4
  record : ∀ slot, (k'.tasks slot).Alive →
    (k.tasks slot).Alive ∧ (k'.tasks slot).holdings = (k.tasks slot).holdings
  awake : k.currentTask.Alive → k'.currentTask.Alive

variable {k k' : Kernel} {slot : Slot} {t : Task}

theorem mem_held {phys item : Nat} : item ∈ held phys ↔ item = phys ∧ phys ≠ 0 := by
  unfold held
  split_ifs with nonzero
  · simp [nonzero]
  · simp [nonzero]

theorem frees_zero : frees 0 = [] := rfl

theorem Housed.quiet (housed : k.Housed) (running : k.halted = false) (quiet : k.Quiet k') :
    k'.Housed where
  awake := fun _ => quiet.awake (housed.awake running)
  allocated := by
    intro slot alive stack member
    obtain ⟨before, same⟩ := quiet.record slot alive
    rw [Task.kstacks_congr same] at member
    rw [quiet.phys]
    exact housed.allocated slot before stack member
  apart := by
    intro slot other differs alive otherAlive stack member theirs theirMember
    obtain ⟨before, same⟩ := quiet.record slot alive
    obtain ⟨otherBefore, otherSame⟩ := quiet.record other otherAlive
    rw [Task.kstacks_congr same] at member
    rw [Task.kstacks_congr otherSame] at theirMember
    exact housed.apart slot other differs before otherBefore stack member theirs theirMember

theorem Housed.keeps (housed : k.Housed) {phys : PhysMem} (keeps : k.phys.alloc.Keeps phys.alloc) :
    Housed { k with phys := phys } :=
  ⟨housed.awake, fun slot alive stack member =>
    (housed.allocated slot alive stack member).keeps keeps, housed.apart⟩

theorem Quiet.refl (k : Kernel) : k.Quiet k := ⟨rfl, rfl, fun _ alive => ⟨alive, rfl⟩, id⟩

theorem Quiet.trans {k'' : Kernel} (first : k.Quiet k') (second : k'.Quiet k'') : k.Quiet k'' where
  phys := second.phys.trans first.phys
  kernelPml4 := second.kernelPml4.trans first.kernelPml4
  record := by
    intro slot alive
    obtain ⟨between, same⟩ := second.record slot alive
    obtain ⟨before, earlier⟩ := first.record slot between
    exact ⟨before, same.trans earlier⟩
  awake := second.awake ∘ first.awake

/-- Neither the records nor the processor nor memory change. -/
theorem quiet_of_eq (tasks : k'.tasks = k.tasks) (current : k'.current = k.current)
    (phys : k'.phys = k.phys) (kernelPml4 : k'.kernelPml4 = k.kernelPml4) : k.Quiet k' where
  phys := phys
  kernelPml4 := kernelPml4
  record := by
    rw [tasks]
    exact fun _ alive => ⟨alive, rfl⟩
  awake := by
    rw [currentTask, currentTask, tasks, current]
    exact id

/-- One record is written, of a living task or to a dead one, and keeps its memory. -/
theorem quiet_setTask (alive : t.Alive → (k.tasks slot).Alive)
    (same : t.holdings = (k.tasks slot).holdings) (awake : slot = k.current → t.Alive) : k.Quiet (k.setTask slot t) where
  phys := rfl
  kernelPml4 := rfl
  record := by
    intro one
    by_cases here : one = slot
    · subst here
      rw [setTask_tasks, Function.update_self]
      exact fun lives => ⟨alive lives, same⟩
    · rw [setTask_tasks, Function.update_of_ne here]
      exact fun lives => ⟨lives, rfl⟩
  awake := by
    intro before
    by_cases here : slot = k.current
    · subst here
      simpa [currentTask] using awake rfl
    · simpa [currentTask, Ne.symm here] using before

/-- A context switch. -/
theorem quiet_reschedule (k : Kernel) : k.Quiet k.reschedule where
  phys := k.reschedule_phys
  kernelPml4 := k.reschedule_kernelPml4
  record := by
    intro slot alive
    have lives := Iff.and (not_congr (k.reschedule_free slot)) (not_congr (k.reschedule_exited slot))
    refine ⟨lives.mp alive, ?_⟩
    rw [(k.reschedule_task slot).1]
    rfl
  awake := reschedule_alive

/-- The current task marks itself blocked and yields. -/
theorem quiet_block {frame : Frame} (blocked : t.state = .blockedSend ∨ t.state = .blockedRecv)
    (alive : k.currentTask.Alive) (same : t.holdings = k.currentTask.holdings) :
    k.Quiet ((k.setTask k.current t).suspend frame) := by
  have lives : t.Alive := by
    rcases blocked with send | recv <;> simp [Task.Alive, *]
  have marked : k.Quiet (k.setTask k.current t) :=
    quiet_setTask (fun _ => alive) same fun _ => lives
  have framed : (k.setTask k.current t).Quiet ((k.setTask k.current t).setFrame frame) :=
    quiet_of_eq rfl rfl rfl rfl
  exact (marked.trans framed).trans (quiet_reschedule _)

end Kernel

end DBSos
