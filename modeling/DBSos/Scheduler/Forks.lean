import DBSos.Memory.Allocated
import DBSos.Scheduler.Spawn

/-!
# What a fork can do

`SYS_FORK` and `scheduler::fork` share one body, and `forkTask_cases` says once how it
can end: refused, without a stack, without a table, or with a child. The pages of
others stay allocated in each case; what a fork without a table took for its second
stack and for kernel tables it keeps.
-/

namespace DBSos.Kernel

open DBSos.Memory DBSos.Scheduler DBSos.Vm

variable {k : Kernel} {parent : Slot} {ownKstack : Bool}

/-- The quota and the task table admit a child. -/
def MayFork (k : Kernel) (parent : Slot) : Prop :=
  k.atTaskLimit (k.tasks parent).uid = false ∧ k.freeSlot.isSome

instance (k : Kernel) (parent : Slot) : Decidable (k.MayFork parent) :=
  inferInstanceAs (Decidable (_ ∧ _))

/-- The memory in which a fork takes the child's table, behind the stacks. -/
def beforeTable (k : Kernel) (ownKstack : Bool) : PhysMem :=
  ((k.allocKstack.2.identityMapKernel k.allocKstack.1 stackSize).secondKstack ownKstack).2.phys

/-- A fork of this task would succeed. -/
structure Forkable (k : Kernel) (parent : Slot) (ownKstack : Bool) : Prop where
  admitted : k.MayFork parent
  kstack : k.allocKstack.1 ≠ 0
  table : (k.beforeTable ownKstack).alloc.palloc.1 ≠ 0

instance (k : Kernel) (parent : Slot) (ownKstack : Bool) : Decidable (k.Forkable parent ownKstack) :=
  decidable_of_iff (k.MayFork parent ∧ k.allocKstack.1 ≠ 0 ∧
      (k.beforeTable ownKstack).alloc.palloc.1 ≠ 0)
    ⟨fun ⟨admitted, kstack, table⟩ => ⟨admitted, kstack, table⟩,
      fun can => ⟨can.admitted, can.kstack, can.table⟩⟩

/-- What the record of a child has of its parent's, and what it has not. -/
structure Heir (parent child : Task) : Prop where
  state : child.state = .ready
  ring3 : child.ring3 = parent.ring3
  gdt : child.gdtPhys = 0
  tss : child.tssPhys = 0

/-! ## What it takes -/

theorem allocKstack_keeps (k : Kernel) : k.phys.alloc.Keeps k.allocKstack.2.phys.alloc :=
  k.phys.alloc.pallocN_keeps (show 0 < kstackPages by decide)

theorem allocKstack_takes (k : Kernel) : k.phys.alloc.Takes k.allocKstack.2.phys.alloc :=
  k.phys.alloc.pallocN_takes (show 0 < kstackPages by decide)

theorem identityMapKernel_keeps (k : Kernel) (phys len : Nat) :
    k.phys.alloc.Keeps (k.identityMapKernel phys len).phys.alloc :=
  identityMap2mb_keeps k.phys k.kernelPml4 phys (phys + len) pteWritable

theorem identityMapKernel_takes (k : Kernel) (phys len : Nat) :
    k.phys.alloc.Takes (k.identityMapKernel phys len).phys.alloc :=
  identityMap2mb_takes k.phys k.kernelPml4 phys (phys + len) pteWritable

/-- Behind the second stack a fork takes pages for kernel tables only. -/
theorem secondKstack_takes (k : Kernel) :
    k.allocKstack.2.phys.alloc.Takes (k.secondKstack true).2.phys.alloc := by
  unfold secondKstack
  rw [if_pos rfl]
  dsimp only
  split_ifs
  · exact identityMapKernel_takes _ _ _
  · exact .refl _

theorem secondKstack_failed (failed : k.phys.alloc.pallocN kstackPages = (0, k.phys.alloc)) :
    (k.secondKstack true).2.phys.alloc = k.phys.alloc := by
  have none : k.allocKstack = (0, k) := by
    unfold allocKstack
    rw [failed]
  unfold secondKstack
  simp [none]

theorem secondKstack_keeps (k : Kernel) (wanted : Bool) :
    k.phys.alloc.Keeps (k.secondKstack wanted).2.phys.alloc := by
  unfold secondKstack
  dsimp only
  split_ifs
  · exact k.allocKstack_keeps.trans (identityMapKernel_keeps _ _ _)
  · exact k.allocKstack_keeps
  · exact .refl _

theorem beforeTable_takes (k : Kernel) :
    k.allocKstack.2.phys.alloc.Takes (k.beforeTable true).alloc := by
  rw [beforeTable]
  generalize k.allocKstack.2 = stacked
  have mapped := stacked.identityMapKernel_takes k.allocKstack.1 stackSize
  generalize stacked.identityMapKernel k.allocKstack.1 stackSize = before at mapped
  exact (mapped.trans before.allocKstack_takes).trans before.secondKstack_takes

theorem beforeTable_keeps (k : Kernel) (ownKstack : Bool) :
    k.allocKstack.2.phys.alloc.Keeps (k.beforeTable ownKstack).alloc :=
  (identityMapKernel_keeps _ k.allocKstack.1 stackSize).trans (secondKstack_keeps _ ownKstack)

/-- Before the table is taken only memory differs. -/
theorem beforeTable_eq (k : Kernel) (ownKstack : Bool) :
    ((k.allocKstack.2.identityMapKernel k.allocKstack.1 stackSize).secondKstack ownKstack).2 =
      { k with phys := k.beforeTable ownKstack } :=
  secondKstack_eq _ ownKstack

/-! ## How it ends -/

/-- The memory behind a fork that got no table. -/
def returnedKstack (k : Kernel) (ownKstack : Bool) : PhysMem where
  alloc := (k.beforeTable ownKstack).alloc.palloc.2.pfreeN k.allocKstack.1 kstackPages
  mem := (k.beforeTable ownKstack).mem

/-- The stacks in the record of a child: the copy it runs on, and the one it will free. -/
structure Stacked (k : Kernel) (ownKstack : Bool) (child : Task) : Prop where
  stackBase : child.stackBase = k.allocKstack.1
  kstackPhys : child.kstackPhys =
    ((k.allocKstack.2.identityMapKernel k.allocKstack.1 stackSize).secondKstack ownKstack).1

/-- A fork that succeeds adds a child and takes pages. -/
theorem forkTask_child (shares : Bool) (forks : k.Forkable parent ownKstack) :
    ∃ slot t phys, k.freeSlot = some slot ∧ Heir (k.tasks parent) t ∧ k.Stacked ownKstack t ∧
      (k.beforeTable ownKstack).alloc.Keeps phys.alloc ∧ k.forkTask parent ownKstack shares =
        (({ k.takeId with phys := phys }).install slot t, some k.nextId) := by
  obtain ⟨⟨quota, free⟩, kstack, table⟩ := forks
  obtain ⟨slot, found⟩ := Option.isSome_iff_exists.mp free
  unfold forkTask
  rw [if_neg (by simp [quota]), found]
  dsimp only
  rw [if_neg kstack, beforeTable_eq, if_neg table]
  generalize k.beforeTable ownKstack = before
  have mapped := identityMapKernel_keeps
    { k with phys := { before with alloc := before.alloc.palloc.2 } } before.alloc.palloc.1 pageSize
  refine ⟨slot, _, _, rfl, ?_, ⟨rfl, rfl⟩, ?_, rfl⟩
  · exact ⟨rfl, rfl, rfl, rfl⟩
  · exact (before.alloc.palloc_keeps.trans mapped).trans (PhysAllocator.palloc_keeps _)

theorem forkTask_succeeds (shares : Bool) (forks : k.Forkable parent ownKstack) :
    ∃ slot t phys, k.freeSlot = some slot ∧ Heir (k.tasks parent) t ∧
      k.phys.alloc.Keeps phys.alloc ∧ k.forkTask parent ownKstack shares =
        (({ k.takeId with phys := phys }).install slot t, some k.nextId) := by
  obtain ⟨slot, t, phys, found, heir, -, since, forked⟩ := forkTask_child shares forks
  exact ⟨slot, t, phys, found, heir,
    (k.allocKstack_keeps.trans (k.beforeTable_keeps ownKstack)).trans since, forked⟩

/-- How a fork that fails can end. -/
theorem forkTask_failures (shares : Bool) (fails : ¬ k.Forkable parent ownKstack) :
    ¬ k.MayFork parent ∧ k.forkTask parent ownKstack shares = (k, none) ∨
      k.MayFork parent ∧ k.allocKstack.1 = 0 ∧
        k.forkTask parent ownKstack shares = ({ k with phys := k.allocKstack.2.phys }, none) ∨
      k.MayFork parent ∧ k.allocKstack.1 ≠ 0 ∧ (k.beforeTable ownKstack).alloc.palloc.1 = 0 ∧
        k.forkTask parent ownKstack shares =
          ({ k with phys := k.returnedKstack ownKstack }, none) := by
  unfold forkTask
  by_cases limited : k.atTaskLimit (k.tasks parent).uid = true
  · rw [if_pos limited]
    exact .inl ⟨fun may => absurd (limited.symm.trans may.1) (by decide), rfl⟩
  · rw [if_neg limited]
    cases found : k.freeSlot with
    | none => exact .inl ⟨fun may => by simp [MayFork, found] at may, rfl⟩
    | some slot =>
      have may : k.MayFork parent := ⟨by simpa using limited, by simp [found]⟩
      dsimp only
      by_cases kstack : k.allocKstack.1 = 0
      · rw [if_pos kstack]
        exact .inr (.inl ⟨may, kstack, rfl⟩)
      · rw [if_neg kstack, beforeTable_eq]
        have table : (k.beforeTable ownKstack).alloc.palloc.1 = 0 := by
          by_contra taken
          exact fails ⟨may, kstack, taken⟩
        rw [if_pos table]
        exact .inr (.inr ⟨may, kstack, table, rfl⟩)

/-- A fork that fails leaves the pages of others allocated. -/
theorem forkTask_fails (shares : Bool) (fails : ¬ k.Forkable parent ownKstack) :
    ∃ phys, k.forkTask parent ownKstack shares = ({ k with phys := phys }, none) ∧
      k.phys.alloc.Keeps phys.alloc := by
  rcases forkTask_failures shares fails with
    ⟨-, refused⟩ | ⟨-, -, stackless⟩ | ⟨-, kstack, -, tableless⟩
  · exact ⟨k.phys, refused, .refl _⟩
  · exact ⟨_, stackless, k.allocKstack_keeps⟩
  · have since := k.beforeTable_keeps ownKstack
    refine ⟨_, tableless, ?_⟩
    unfold returnedKstack
    generalize k.beforeTable ownKstack = before at since
    have returned : k.phys.alloc.Keeps
        (before.alloc.palloc.2.pfreeN k.allocKstack.1 kstackPages) :=
      PhysAllocator.pfreeN_keeps k.phys.alloc (show 0 < kstackPages by decide) kstack
        (since.trans before.alloc.palloc_keeps)
    simpa only using returned

end DBSos.Kernel
