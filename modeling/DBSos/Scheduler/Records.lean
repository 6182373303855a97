import Mathlib.Data.List.Find
import DBSos.Scheduler.Spawn

/-!
# Records and their ids

A creation puts a record with the next id into a free slot (`Born`), so that an id
names at most one record while all ids in use lie below the next. The top-level table
of a forked record is a page that was free when the fork took it.
-/

namespace DBSos

open DBSos.Memory DBSos.Scheduler DBSos.Vm

namespace Kernel

variable {k : Kernel} {id : Nat} {slot : Scheduler.Slot}

/-- The scheduler has a record for the id and can fork it: quota, slot and pages. -/
structure CanFork (k : Kernel) (id : Nat) : Prop where
  known : ∃ parent ∈ k.findTask id, k.atTaskLimit (k.tasks parent).uid = false
  free : k.freeSlot.isSome
  kstack : k.allocKstack.1 ≠ 0
  table : ((k.allocKstack.2.identityMapKernel k.allocKstack.1 stackSize).phys.alloc.palloc).1 ≠ 0

theorem fork_isSome : (k.fork id).2.isSome ↔ k.CanFork id := by
  unfold fork
  cases found : k.findTask id with
  | none =>
    refine iff_of_false (by simp) fun can => ?_
    obtain ⟨parent, known, -⟩ := can.known
    rw [found] at known
    cases known
  | some parent =>
    rw [forkTask_isSome]
    constructor
    · rintro ⟨quota, free, kstack, table⟩
      exact ⟨⟨parent, found, quota⟩, free, kstack, table⟩
    · intro can
      obtain ⟨other, known, quota⟩ := can.known
      obtain rfl := Option.some.inj (found.symm.trans known)
      exact ⟨quota, can.free, can.kstack, can.table⟩

theorem secondKstack_unwanted (k : Kernel) : k.secondKstack false = (0, k) := rfl

theorem identityMapKernel_grows (k : Kernel) (phys len : Nat) :
    k.phys.alloc.Grows (k.identityMapKernel phys len).phys.alloc :=
  identityMap2mb_grows k.phys k.kernelPml4 phys (phys + len) pteWritable

/-- The allocator in which the forks take the child's table has only grown. -/
theorem allocKstack_grows (k : Kernel) :
    k.phys.alloc.Grows (k.allocKstack.2.identityMapKernel k.allocKstack.1 stackSize).phys.alloc := by
  have taken : k.phys.alloc.Grows k.allocKstack.2.phys.alloc :=
    PhysAllocator.pallocN_grows k.phys.alloc (show 0 < kstackPages by decide)
  exact taken.trans (identityMapKernel_grows _ _ _)

/-- The table of a child is a page that was free. -/
theorem fork_table {child : Nat} (forked : (k.fork id).2 = some child)
    (free : k.freeSlot = some slot) :
    ((k.fork id).1.tasks slot).pml4Phys =
      ((k.allocKstack.2.identityMapKernel k.allocKstack.1 stackSize).phys.alloc.palloc).1 := by
  unfold fork at forked ⊢
  cases found : k.findTask id with
  | none =>
    rw [found] at forked
    cases forked
  | some parent =>
    rw [found] at forked
    unfold forkTask at forked ⊢
    rw [free] at forked ⊢
    -- The stages of the fork become variables, so that the terms stay small.
    revert forked
    generalize k.allocKstack = stack
    obtain ⟨kstack, afterStack⟩ := stack
    generalize mapped : afterStack.identityMapKernel kstack stackSize = before
    simp only [mapped, secondKstack_unwanted]
    generalize before.phys.alloc.palloc = table
    obtain ⟨pml4, alloc⟩ := table
    intro forked
    split_ifs at forked ⊢ with limited failed noTable
    simp only [install, setTask_tasks, Function.update_self]

/-- The table of a task that is spawned is the one of its image. -/
theorem spawnUser_table {image : UserImage} {tid : Nat}
    (spawned : (k.spawnUser image).2 = some tid) (free : k.freeSlot = some slot) :
    ((k.spawnUser image).1.tasks slot).pml4Phys = image.pml4 := by
  unfold spawnUser at spawned ⊢
  split_ifs at spawned ⊢ with limited
  rw [free] at spawned ⊢
  dsimp only at spawned ⊢
  split_ifs at spawned ⊢ with failed
  simp only [install, setTask_tasks, Function.update_self]

/-- The ids that are in use have been given out. -/
def IdsBelow (k : Kernel) : Prop := ∀ slot, (k.tasks slot).state ≠ .free → (k.tasks slot).id < k.nextId

/-- The record with an id that no other has is found under it. -/
theorem findTask_of_unique (used : (k.tasks slot).state ≠ .free)
    (unique : ∀ other, (k.tasks other).state ≠ .free → (k.tasks other).id = (k.tasks slot).id →
      other = slot) : k.findTask (k.tasks slot).id = some slot := by
  cases found : k.findTask (k.tasks slot).id with
  | none =>
    have missing := findSlot_none found slot
    simp [used] at missing
  | some other =>
    obtain ⟨otherUsed, same⟩ := findTask_some found
    rw [unique other otherUsed same]

theorem findTask_congr {k' : Kernel}
    (same : ∀ slot, (k'.tasks slot).state ≠ .free ∧ (k'.tasks slot).id = id ↔
      (k.tasks slot).state ≠ .free ∧ (k.tasks slot).id = id) : k'.findTask id = k.findTask id := by
  unfold findTask findSlot
  exact List.find?_congr fun slot _ => decide_eq_decide.mpr (same slot)

/-- A new record in a slot that was free, with the next id. -/
structure Born (k k' : Kernel) (slot : Scheduler.Slot) (t : Task) : Prop where
  free : (k.tasks slot).state = .free
  ready : t.state = .ready
  fresh : t.id = k.nextId
  tasks : k'.tasks = Function.update k.tasks slot t
  nextId : k'.nextId = k.nextId + 1

theorem Creates.born {result : Kernel × Option Nat} {tid : Nat} (creates : k.Creates result)
    (created : result.2 = some tid) :
    ∃ slot t, k.freeSlot = some slot ∧ tid = k.nextId ∧ Born k result.1 slot t := by
  obtain ⟨phys, rfl⟩ | ⟨slot, t, phys, free, newborn, rfl⟩ := creates
  · cases created
  · exact ⟨slot, t, free, (Option.some.inj created).symm, freeSlot_some free, newborn.state,
      newborn.id, rfl, rfl⟩

section Born

variable {k' : Kernel} {t : Task} (born : Born k k' slot t) (ids : k.IdsBelow)
include born

theorem Born.task : k'.tasks slot = t := by rw [born.tasks, Function.update_self]

theorem Born.other {other : Scheduler.Slot} (apart : other ≠ slot) :
    k'.tasks other = k.tasks other := by
  rw [born.tasks, Function.update_of_ne apart]

include ids in
theorem Born.idsBelow : k'.IdsBelow := by
  intro other used
  rw [born.nextId]
  by_cases here : other = slot
  · subst here
    rw [born.task, born.fresh]
    exact Nat.lt_succ_self _
  · rw [born.other here] at used ⊢
    exact (ids other used).trans (Nat.lt_succ_self _)

include ids in
theorem Born.findTask_new : k'.findTask k.nextId = some slot := by
  rw [← born.fresh, ← congrArg Task.id born.task]
  refine findTask_of_unique (by rw [born.task, born.ready]; decide) fun other used same => ?_
  by_contra apart
  rw [born.other apart] at used
  rw [born.other apart, born.task, born.fresh] at same
  exact absurd (ids other used) (by omega)

theorem Born.findTask_old (known : id < k.nextId) : k'.findTask id = k.findTask id := by
  refine findTask_congr fun other => ?_
  by_cases here : other = slot
  · subst here
    refine iff_of_false (fun new => ?_) (fun old => old.1 born.free)
    rw [born.task, born.fresh] at new
    omega
  · rw [born.other here]

end Born

/-- The records keep their ids and top-level tables, and none comes or goes. -/
def Alike (k k' : Kernel) : Prop :=
  k.nextId ≤ k'.nextId ∧ ∀ slot, (k'.tasks slot).id = (k.tasks slot).id ∧
    (k'.tasks slot).pml4Phys = (k.tasks slot).pml4Phys ∧
    ((k'.tasks slot).state = .free ↔ (k.tasks slot).state = .free)

theorem Alike.of_tasks {k' : Kernel} (nextId : k.nextId ≤ k'.nextId) (tasks : k'.tasks = k.tasks) :
    k.Alike k' := ⟨nextId, fun slot => by simp [tasks]⟩

theorem Alike.idsBelow {k' : Kernel} (alike : k.Alike k') (ids : k.IdsBelow) : k'.IdsBelow := by
  intro slot used
  rw [(alike.2 slot).1]
  exact (ids slot (mt (alike.2 slot).2.2.mpr used)).trans_le alike.1

theorem Alike.findTask {k' : Kernel} (alike : k.Alike k') (id : Nat) :
    k'.findTask id = k.findTask id :=
  findTask_congr fun slot => by
    rw [(alike.2 slot).1]
    exact and_congr_left' (not_congr (alike.2 slot).2.2)

/-- A record gets another top-level table. -/
def setTable (k : Kernel) (slot : Scheduler.Slot) (pml4 : Nat) : Kernel :=
  k.modifyTask slot fun t => { t with pml4 := pml4, pml4Phys := pml4 }

theorem setTable_tasks (pml4 : Nat) (other : Scheduler.Slot) :
    (k.setTable slot pml4).tasks other =
      if other = slot then { k.tasks slot with pml4 := pml4, pml4Phys := pml4 }
      else k.tasks other := by
  by_cases here : other = slot
  · subst here
    simp [setTable, modifyTask]
  · simp [setTable, modifyTask, here]

theorem findTask_setTable (pml4 : Nat) : (k.setTable slot pml4).findTask id = k.findTask id := by
  refine findTask_congr fun other => ?_
  rw [setTable_tasks]
  split_ifs with here
  · rw [here]
  · rfl

theorem idsBelow_setTable (ids : k.IdsBelow) (pml4 : Nat) : (k.setTable slot pml4).IdsBelow := by
  intro other used
  rw [setTable_tasks] at used ⊢
  split_ifs at used ⊢ with here
  · exact ids slot used
  · exact ids other used

end Kernel

end DBSos
