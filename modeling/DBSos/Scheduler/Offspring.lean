import DBSos.Scheduler.Forks
import DBSos.Vm.Translation

/-!
# The saved context of a forked child

`SYS_FORK` copies the parent's kernel stack as it stands and starts the child at the
stack pointer that the parent's last context switch saved. The words at that place
are whatever the call has left there; addresses of the parent's stack among them stay
as they are, and the child gets no GDT, no TSS and no VMAs.

A call is right when it returns a child that continues as the parent's copy, or
changes neither the task table nor the set of allocated pages. It never returns such
a child, so it is right exactly when it fails and has taken nothing.
-/

namespace DBSos

open DBSos.Memory DBSos.Scheduler DBSos.Vm

/-- `STACK_CANARY`. -/
def stackCanary : BitVec 64 := 0xDEADBEEFCAFEBABE#64

/-- `GDT_SEL_USER_CODE` and `GDT_SEL_USER_DATA`. -/
def userCode : BitVec 64 := 0x23#64
def userData : BitVec 64 := 0x2B#64

/-- `copy_nonoverlapping` of this many 64-bit words. -/
def copyWords (word : Nat → BitVec 64) (src dst count : Nat) : Nat → BitVec 64 := fun addr =>
  if dst ≤ addr ∧ addr < dst + 8 * count then word (src + (addr - dst)) else word addr

/-- The kernel with what a fork copies besides records: the fields `sp` and
`sys_ursave` of the tasks, the variable `sys_ursave` of the system call stub, and the
64-bit words of the stacks and FPU buffers. -/
structure Saved where
  kernel : Kernel
  sp : Slot → Nat
  sysUrsave : Slot → BitVec 64
  ursave : BitVec 64
  word : Nat → BitVec 64

/-- The user registers behind a return to ring 3; the general ones in the order of
their pops, from `r15` to `rax`. -/
structure UserState where
  regs : List (BitVec 64)
  rip : BitVec 64
  rflags : BitVec 64
  rsp : BitVec 64
deriving DecidableEq

namespace Saved

/-- What `SYS_FORK` writes besides `Kernel.sysFork`: the copied stack with its canary,
the child's stack pointers and its FPU buffer. -/
def sysFork (s : Saved) : Saved × Option Nat :=
  let parent := s.kernel.currentTask
  let kstack := s.kernel.allocKstack.1
  let forked := s.kernel.sysFork
  if ¬ s.kernel.MayFork s.kernel.current ∨ kstack = 0 then
    ({ s with kernel := forked.1 }, forked.2)
  else
    let word := copyWords s.word parent.stackBase kstack (stackSize / 8)
    let word := Function.update word kstack stackCanary
    match s.kernel.freeSlot, forked.2 with
    | some slot, some id =>
      let child := forked.1.tasks slot
      ({ kernel := forked.1
         sp := Function.update s.sp slot (kstack + (s.sp s.kernel.current - parent.stackBase))
         sysUrsave := Function.update s.sysUrsave slot (s.sysUrsave s.kernel.current)
         ursave := s.ursave
         word :=
           if parent.fpuBufPhys ≠ 0 ∧ child.fpuBufPhys ≠ 0 then
             copyWords word parent.fpuBufPhys child.fpuBufPhys (512 / 8)
           else word }, some id)
    | _, id => ({ s with kernel := forked.1, word := word }, id)

/-- Word `i` of the frame that a switch to this task pops. -/
def frameWord (s : Saved) (slot : Slot) (i : Nat) : BitVec 64 := s.word (s.sp slot + 8 * i)

/-- The first run of a task up to ring 3: `reschedule` loads its GDT and its TSS, which
0 stands for none of, then 15 registers are popped and `iretq` takes `rip`, `cs`,
`rflags`, `rsp` and `ss`. `none` when this does not lead to ring 3. -/
def firstRun (s : Saved) (slot : Slot) : Option UserState :=
  let t := s.kernel.tasks slot
  if t.ring3 = false ∨ t.gdtPhys = 0 ∨ t.tssPhys = 0 then none
  else if s.frameWord slot 16 = userCode ∧ s.frameWord slot 19 = userData then
    some
      { regs := (List.range 15).map (s.frameWord slot)
        rip := s.frameWord slot 15
        rflags := s.frameWord slot 17
        rsp := s.frameWord slot 18 }
  else none

/-- Push `j` of the system call stub, counted from 1 at the top of the kernel stack:
`r11`, `rcx`, `rax`, `rdx`, `rbx`, `rbp`, `rsi`, `rdi`, `r8`, `r9`, `r10`, `r12` to `r15`. -/
def pushed (s : Saved) (j : Nat) : BitVec 64 :=
  s.word (s.kernel.currentTask.stackBase + stackSize - 8 * j)

/-- The user registers with which the stub returns this value from the call at hand. -/
def returning (s : Saved) (value : BitVec 64) : UserState where
  regs := [15, 14, 13, 12, 1, 11, 10, 9, 8, 7, 6, 5, 4, 2].map s.pushed ++ [value]
  rip := s.pushed 2
  rflags := s.pushed 1
  rsp := s.ursave

/-- An address of this task's kernel stack. -/
def InStack (t : Task) (addr : Nat) : Prop := t.stackBase ≤ addr ∧ addr < t.stackBase + stackSize

/-- The child continues as a copy of the parent. -/
structure Continues (s after : Saved) (slot : Slot) : Prop where
  inside : InStack (after.kernel.tasks slot) (after.sp slot) ∧
    InStack (after.kernel.tasks slot) (after.sp slot + 159)
  rebased : ∀ i < 20, ¬ InStack s.kernel.currentTask (after.frameWord slot i).toNat
  returns : after.firstRun slot = some (s.returning 0#64)
  memory : ∀ virt : BitVec 64, virt.toNat < 2 ^ 47 →
    translate after.kernel.phys.mem (after.kernel.tasks slot).pml4 virt =
      translate s.kernel.phys.mem s.kernel.currentTask.pml4 virt
  fds : (after.kernel.tasks slot).fds = s.kernel.currentTask.fds
  vmas : (after.kernel.tasks slot).vmas = s.kernel.currentTask.vmas ∧
    (after.kernel.tasks slot).vmaCount = s.kernel.currentTask.vmaCount
  uid : (after.kernel.tasks slot).uid = s.kernel.currentTask.uid
  cwd : (after.kernel.tasks slot).cwd = s.kernel.currentTask.cwd ∧
    (after.kernel.tasks slot).cwdLen = s.kernel.currentTask.cwdLen

/-- The call returns a child that continues as the parent's copy, or it leaves the task
table and the set of allocated pages as they are. -/
def ForkRight (s : Saved) : Prop :=
  match s.sysFork.2 with
  | some id => ∃ slot, s.kernel.freeSlot = some slot ∧
      (s.sysFork.1.kernel.tasks slot).id = id ∧ Continues s s.sysFork.1 slot
  | none => s.sysFork.1.kernel.tasks = s.kernel.tasks ∧
      ∀ page, Used s.sysFork.1.kernel.phys.alloc.bitmap page ↔
        Used s.kernel.phys.alloc.bitmap page

end Saved

namespace Kernel

/-- A fork gets its first stack and takes nothing more: the kernel's tables map the
stack already, no second stack and no page is left. The first stack lies in the
region, so that it is given back whole. -/
structure Returns (k : Kernel) : Prop where
  kstack : k.allocKstack.1 ≠ 0
  tables : (k.allocKstack.2.identityMapKernel k.allocKstack.1 stackSize).phys.alloc =
    k.allocKstack.2.phys.alloc
  second : k.allocKstack.2.phys.alloc.pallocN kstackPages = (0, k.allocKstack.2.phys.alloc)
  table : k.allocKstack.2.phys.alloc.palloc = (0, k.allocKstack.2.phys.alloc)
  whole : ∀ j < kstackPages, k.phys.alloc.totalPages ≤ k.phys.alloc.pageOf k.allocKstack.1 + j →
    Used k.phys.alloc.bitmap (k.phys.alloc.pageOf k.allocKstack.1 + j)

/-- The fork is refused, gets no stack, or gives back all that it took. -/
def FailsCleanly (k : Kernel) : Prop :=
  ¬ k.MayFork k.current ∨ k.phys.alloc.pallocN kstackPages = (0, k.phys.alloc) ∨ k.Returns

variable {k : Kernel}

/-! ## What a failed fork leaves taken -/

/-- Nothing is taken between the first stack and the failure exactly when each of the
three attempts behind it takes nothing. -/
theorem beforeTable_idle : (k.beforeTable true).alloc.palloc.2 = k.allocKstack.2.phys.alloc ↔
    (k.allocKstack.2.identityMapKernel k.allocKstack.1 stackSize).phys.alloc =
        k.allocKstack.2.phys.alloc ∧
      k.allocKstack.2.phys.alloc.pallocN kstackPages = (0, k.allocKstack.2.phys.alloc) ∧
      k.allocKstack.2.phys.alloc.palloc = (0, k.allocKstack.2.phys.alloc) := by
  have positive : 0 < Kernel.kstackPages := by decide
  rw [beforeTable]
  generalize k.allocKstack.2 = stacked
  generalize k.allocKstack.1 = kstack
  have mapped := stacked.identityMapKernel_takes kstack stackSize
  generalize stacked.identityMapKernel kstack stackSize = before at mapped
  have pair := before.allocKstack_takes
  have second := before.secondKstack_takes
  have last := (before.secondKstack true).2.phys.alloc.palloc_takes
  constructor
  · intro same
    have first := mapped.eq_of_eq ((pair.trans second).trans last) same
    rw [← first] at same
    have failed := PhysAllocator.pallocN_eq_of_same positive (pair.eq_of_eq (second.trans last) same)
    rw [secondKstack_failed failed] at same
    rw [← first]
    exact ⟨rfl, failed, PhysAllocator.palloc_eq_of_same same⟩
  · rintro ⟨first, failed, none⟩
    rw [← first] at failed none ⊢
    rw [secondKstack_failed failed, none]

/-- A fork without a table leaves the marked pages as they were exactly when it took
nothing behind its first stack and that stack lies in the region. -/
theorem returnedKstack_iff (kstack : k.allocKstack.1 ≠ 0) :
    (∀ page, Used (k.returnedKstack true).alloc.bitmap page ↔ Used k.phys.alloc.bitmap page) ↔
      k.Returns := by
  have since := k.beforeTable_takes.trans (k.beforeTable true).alloc.palloc_takes
  have restores := PhysAllocator.pfreeN_restores_iff (show 0 < kstackPages by decide) kstack since
  refine restores.trans ⟨fun ⟨idle, whole⟩ => ?_, fun returns => ⟨?_, returns.whole⟩⟩
  · obtain ⟨tables, second, table⟩ := beforeTable_idle.mp idle
    exact ⟨kstack, tables, second, table, whole⟩
  · exact beforeTable_idle.mpr ⟨returns.tables, returns.second, returns.table⟩

end Kernel

namespace Saved

variable {s : Saved}

/-- The records and the memory of the pages are those of `Kernel.sysFork`. -/
theorem sysFork_kernel (s : Saved) :
    s.sysFork.1.kernel = s.kernel.sysFork.1 ∧ s.sysFork.2 = s.kernel.sysFork.2 := by
  unfold Saved.sysFork
  dsimp only
  split_ifs
  · exact ⟨rfl, rfl⟩
  · split <;> simp [*]

/-- A child gets no GDT and no TSS to run with. -/
theorem not_continues {slot : Slot} {after : Saved} (child : (after.kernel.tasks slot).gdtPhys = 0) :
    ¬ Continues s after slot := by
  intro continues
  have returns := continues.returns
  simp [firstRun, child] at returns

/-- A native parent's fork is right exactly when it fails and has taken nothing. -/
theorem forkRight_iff (native : s.kernel.currentTask.ring3 = true) :
    ForkRight s ↔ s.kernel.FailsCleanly := by
  have positive : 0 < Kernel.kstackPages := by decide
  obtain ⟨kernel, result⟩ := s.sysFork_kernel
  obtain ⟨shares, forked⟩ : ∃ shares, s.kernel.sysFork =
      s.kernel.forkTask s.kernel.current true shares := ⟨_, by simp only [Kernel.sysFork, native]; rfl⟩
  by_cases forks : s.kernel.Forkable s.kernel.current true
  · obtain ⟨slot, t, phys, free, heir, -, created⟩ := Kernel.forkTask_succeeds shares forks
    rw [forked, created] at kernel result
    refine iff_of_false ?_ ?_
    · simp only [ForkRight, result, free, Option.some.injEq]
      rintro ⟨_, rfl, -, continues⟩
      refine not_continues ?_ continues
      rw [kernel]
      simp [Kernel.install, heir.gdt]
    · rintro (refused | failed | returns)
      · exact refused forks.admitted
      · exact forks.kstack (by simp [Kernel.allocKstack, failed])
      · have idle := Kernel.beforeTable_idle.mpr ⟨returns.tables, returns.second, returns.table⟩
        have same := s.kernel.beforeTable_takes.eq_of_eq (PhysAllocator.palloc_takes _) idle
        refine forks.table ?_
        rw [same, returns.table]
  · rcases Kernel.forkTask_failures shares forks with
      ⟨refused, ends⟩ | ⟨may, stackless, ends⟩ | ⟨may, kstack, -, ends⟩
    · rw [forked, ends] at kernel result
      exact iff_of_true (by simp [ForkRight, result, kernel]) (.inl refused)
    · rw [forked, ends] at kernel result
      simp only [ForkRight, result, kernel, true_and]
      constructor
      · intro restored
        refine .inr (.inl (PhysAllocator.pallocN_eq_of_same positive ?_))
        rcases (s.kernel.phys.alloc.pallocN_takes positive).differs with same | ⟨page, clear, used⟩
        · exact same
        · exact absurd ((restored page).mp used) clear
      · rintro (refused | failed | returns)
        · exact absurd may refused
        · simp [Kernel.allocKstack, failed]
        · exact absurd stackless returns.kstack
    · rw [forked, ends] at kernel result
      simp only [ForkRight, result, kernel, true_and]
      rw [Kernel.returnedKstack_iff kstack]
      constructor
      · exact fun returns => .inr (.inr returns)
      · rintro (refused | failed | returns)
        · exact absurd may refused
        · exact absurd (by simp [Kernel.allocKstack, failed]) kstack
        · exact returns

/-- A program in slot 0, its kernel stack at 0x10000, with this allocator. -/
def program (alloc : PhysAllocator) : Saved where
  kernel :=
    { tasks := Function.update (fun _ => Task.free) 0
        { Task.free with
          state := .running
          stackBase := 0x10000
          id := 1
          pml4 := 0x3000
          pml4Phys := 0x3000
          gdtPhys := 0x4000
          tssPhys := 0x5000
          ring3 := true }
      current := 0
      nextId := 2
      pending := fun _ => Abi.Message.empty
      capTables := fun _ => Cap.CapTable.new
      phys := ⟨alloc, fun _ _ => 0#64⟩
      kernelPml4 := 0x2000
      frames := fun _ => .outside
      halted := false }
  sp := Function.update (fun _ => 0) 0 (0x20000 - 160)
  sysUrsave := fun _ => 0x7FFF0000#64
  ursave := 0x7FFF0000#64
  word := fun _ => 0#64

/-- With eight pages left the fork fails and changes nothing. -/
theorem forkRight_exhausted :
    ForkRight (program ⟨0x80000, fun _ => 0#8, 0x100000, 128, 8, 0⟩) :=
  (forkRight_iff rfl).mpr (.inr (.inl (by simp [program, PhysAllocator.pallocN, Kernel.kstackPages,
    stackSize, pageSize])))

/-- With 128 pages left it returns a child without a GDT. -/
theorem forked_without_gdt :
    (program ⟨0x80000, fun _ => 0#8, 0x100000, 128, 128, 0⟩).kernel.currentTask.ring3 = true ∧
      ¬ ForkRight (program ⟨0x80000, fun _ => 0#8, 0x100000, 128, 128, 0⟩) := by
  refine ⟨rfl, ?_⟩
  have result : (program ⟨0x80000, fun _ => 0#8, 0x100000, 128, 128, 0⟩).sysFork.2 = some 2 := by
    decide +kernel
  have child : ((program ⟨0x80000, fun _ => 0#8, 0x100000, 128, 128,
      0⟩).sysFork.1.kernel.tasks 1).gdtPhys = 0 := by
    decide +kernel
  have free : (program ⟨0x80000, fun _ => 0#8, 0x100000, 128, 128, 0⟩).kernel.freeSlot = some 1 := by
    decide
  simp only [ForkRight, result, free, Option.some.injEq]
  rintro ⟨_, rfl, -, continues⟩
  exact not_continues child continues

/-! ## The words of the child's frame -/

section Frame

variable {slot : Slot} (forks : s.kernel.Forkable s.kernel.current s.kernel.currentTask.ring3)
  (free : s.kernel.freeSlot = some slot)
  (above : s.kernel.currentTask.stackBase + 8 ≤ s.sp s.kernel.current)
  (below : s.sp s.kernel.current + 160 ≤ s.kernel.currentTask.stackBase + stackSize)
  (apart : ∀ addr, s.kernel.allocKstack.1 ≤ addr → addr < s.kernel.allocKstack.1 + stackSize →
    ¬ ((s.kernel.sysFork.1.tasks slot).fpuBufPhys ≤ addr ∧
      addr < (s.kernel.sysFork.1.tasks slot).fpuBufPhys + 512))
include forks free above below apart

end Frame

end Saved

end DBSos
