import DBSos.Scheduler.Process

/-!
# Creating tasks

`spawn`, `spawn_user` and the two forks fill the first free slot. `spawn` takes
the new stack before it frees the stack of the slot's previous tenant,
`spawn_user` after; the forks free nothing of it. The initial contents of the
new stack are the task's `Frame`, which is its own code.
-/

namespace DBSos.Kernel

open DBSos.Abi DBSos.Memory DBSos.Scheduler DBSos.Vm

/-- `fpu_alloc_buf`. -/
def fpuAllocBuf (k : Kernel) : Nat × Kernel :=
  let (buf, alloc) := k.phys.alloc.palloc
  (buf, { k with phys := { k.phys with alloc := alloc } })

/-- `palloc_n(KSTACK_PAGES)`. -/
def allocKstack (k : Kernel) : Nat × Kernel :=
  let (stack, alloc) := k.phys.alloc.pallocN kstackPages
  (stack, { k with phys := { k.phys with alloc := alloc } })

/-- `pfree_n(phys, KSTACK_PAGES)`. -/
def freeKstack (k : Kernel) (phys : Nat) : Kernel :=
  { k with phys := { k.phys with alloc := k.phys.alloc.pfreeN phys kstackPages } }

/-- The recycling of `spawn` and `spawn_user`: free the stack that the slot's
record still names. -/
def freePrevKstack (k : Kernel) (slot : Slot) : Kernel :=
  if (k.tasks slot).kstackPhys ≠ 0 then k.freeKstack (k.tasks slot).kstackPhys else k

/-- `identity_map_2mb(KERNEL_PML4, phys, phys + len, PTE_WRITABLE)`. -/
def identityMapKernel (k : Kernel) (phys len : Nat) : Kernel :=
  { k with phys := (identityMap2mb k.phys k.kernelPml4 phys (phys + len) pteWritable).1 }

/-- The per-user task limit. -/
def atTaskLimit (k : Kernel) (uid : Nat) : Bool :=
  uid ≠ 0 ∧ k.taskCountForUid uid ≥ maxTasksPerUser

/-- The first slot in state `Free`. -/
def freeSlot (k : Kernel) : Option Slot := k.findSlot fun t => t.state = .free

/-- A new task's record takes its slot, and its stack starts in its own code. -/
def install (k : Kernel) (slot : Slot) (task : Task) : Kernel :=
  { k.setTask slot task with frames := Function.update k.frames slot .outside }

/-- `spawn`. -/
def spawn (k : Kernel) : Kernel × Option Nat :=
  if k.atTaskLimit k.currentTask.uid then (k, none)
  else
    match k.freeSlot with
    | none => (k, none)
    | some slot =>
      let (stack, k) := k.allocKstack
      if stack = 0 then (k, none)
      else
        let id := k.nextId
        let k := (k.takeId).freePrevKstack slot
        let (fpuBuf, k) := k.fpuAllocBuf
        (k.install slot
          { Task.free with
            state := .ready
            stackBase := stack
            id := id
            kstackPhys := stack
            fpuBufPhys := fpuBuf
            uid := k.currentTask.uid
            gid := k.currentTask.gid
            cwd := k.currentTask.cwd
            cwdLen := k.currentTask.cwdLen },
          some id)

/-- What the caller of `spawn_user` has prepared. -/
structure UserImage where
  pml4 : Nat
  gdtPhys : Nat
  tssPhys : Nat
  codePhys : Nat
  userStackPhys : Nat
deriving DecidableEq

/-- `spawn_user`. -/
def spawnUser (k : Kernel) (image : UserImage) : Kernel × Option Nat :=
  if k.atTaskLimit k.currentTask.uid then (k, none)
  else
    match k.freeSlot with
    | none => (k, none)
    | some slot =>
      let (kstack, k) := (k.freePrevKstack slot).allocKstack
      if kstack = 0 then (k, none)
      else
        let id := k.nextId
        let (fpuBuf, k) := (k.takeId).fpuAllocBuf
        (k.install slot
          { Task.free with
            state := .ready
            stackBase := kstack
            id := id
            pml4 := image.pml4
            pml4Phys := image.pml4
            gdtPhys := image.gdtPhys
            tssPhys := image.tssPhys
            ring3 := true
            codePhys := image.codePhys
            userStackPhys := image.userStackPhys
            kstackPhys := kstack
            fpuBufPhys := fpuBuf
            uid := k.currentTask.uid
            gid := k.currentTask.gid
            cwd := k.currentTask.cwd
            cwdLen := k.currentTask.cwdLen },
          some id)

/-- The second stack that `SYS_FORK` takes for a ring-3 child. -/
def secondKstack (k : Kernel) (wanted : Bool) : Nat × Kernel :=
  if wanted then
    let (ks, k) := k.allocKstack
    if ks ≠ 0 then (ks, k.identityMapKernel ks stackSize) else (ks, k)
  else (0, k)

/-- The child's top-level table: the parent's user entries if they are shared,
and the kernel's. -/
def forkTable (k : Kernel) (parentPml4 childPml4 : Nat) (shares : Bool) : Kernel :=
  let mem := zeroPage k.phys.mem childPml4
  let mem := if shares then copyEntries mem parentPml4 childPml4 0 256 else mem
  { k with phys := { k.phys with mem := copyEntries mem k.kernelPml4 childPml4 256 512 } }

/-- The body that `SYS_FORK` and `scheduler::fork` have in common. -/
def forkTask (k : Kernel) (parent : Slot) (ownKstack shares : Bool) : Kernel × Option Nat :=
  if k.atTaskLimit (k.tasks parent).uid then (k, none)
  else
    match k.freeSlot with
    | none => (k, none)
    | some slot =>
      let (kstack, k) := k.allocKstack
      if kstack = 0 then (k, none)
      else
        let k := k.identityMapKernel kstack stackSize
        let (kstackPhys, k) := k.secondKstack ownKstack
        let (pml4, alloc) := k.phys.alloc.palloc
        let k := { k with phys := { k.phys with alloc := alloc } }
        if pml4 = 0 then (k.freeKstack kstack, none)
        else
          let k := (k.identityMapKernel pml4 pageSize).forkTable (k.tasks parent).pml4 pml4 shares
          let id := k.nextId
          let (fpuBuf, k) := (k.takeId).fpuAllocBuf
          let p := k.tasks parent
          (k.install slot
            { Task.free with
              state := .ready
              stackBase := kstack
              id := id
              parentId := p.id
              pml4 := pml4
              pml4Phys := pml4
              ring3 := p.ring3
              codePhys := p.codePhys
              userStackPhys := p.userStackPhys
              kstackPhys := kstackPhys
              fpuBufPhys := fpuBuf
              fds := p.fds
              uid := p.uid
              gid := p.gid
              cwd := p.cwd
              cwdLen := p.cwdLen },
            some id)

/-- `SYS_FORK`: a ring-3 child gets a second stack, which only its record names,
and the parent's user tables. -/
def sysFork (k : Kernel) : Kernel × Option Nat :=
  let cur := k.currentTask
  k.forkTask k.current cur.ring3 (cur.pml4 ≠ 0 ∧ cur.ring3)

/-- `scheduler::fork`: of a given task; `none` for the source's 0. -/
def fork (k : Kernel) (parentId : Nat) : Kernel × Option Nat :=
  match k.findTask parentId with
  | none => (k, none)
  | some parent => k.forkTask parent false ((k.tasks parent).pml4 ≠ 0)

/-! ## What a creation can do -/

/-- The mail fields of a record that has just been written. -/
structure Newborn (t : Task) (id : Nat) : Prop where
  state : t.state = .ready
  id : t.id = id
  ipcPartner : t.ipcPartner = 0
  ipcVal : t.ipcVal = 0
  ipcMsg : t.ipcMsg = Message.empty
  pendingMsg : t.pendingMsg = Message.empty

/-- A creation fails and changes only memory, or it puts a new record with the
next id into the first free slot. -/
def Creates (k : Kernel) (result : Kernel × Option Nat) : Prop :=
  (∃ phys, result = ({ k with phys := phys }, none)) ∨
    ∃ slot t phys, k.freeSlot = some slot ∧ Newborn t k.nextId ∧
      result = (({ k.takeId with phys := phys }).install slot t, some k.nextId)

theorem freePrevKstack_eq (k : Kernel) (slot : Slot) :
    k.freePrevKstack slot = { k with phys := (k.freePrevKstack slot).phys } := by
  unfold freePrevKstack
  split_ifs <;> rfl

theorem allocKstack_eq (k : Kernel) : k.allocKstack.2 = { k with phys := k.allocKstack.2.phys } := rfl

theorem identityMapKernel_eq (k : Kernel) (phys len : Nat) :
    k.identityMapKernel phys len = { k with phys := (k.identityMapKernel phys len).phys } := rfl

theorem secondKstack_eq (k : Kernel) (wanted : Bool) :
    (k.secondKstack wanted).2 = { k with phys := (k.secondKstack wanted).2.phys } := by
  rw [secondKstack]
  have stacked := k.allocKstack_eq
  generalize k.allocKstack = pair at stacked ⊢
  obtain ⟨stack, j⟩ := pair
  dsimp only at stacked ⊢
  split_ifs
  · rw [identityMapKernel_eq]
    generalize (j.identityMapKernel stack stackSize).phys = mapped
    rw [stacked]
  · exact stacked
  · rfl

theorem spawn_creates (k : Kernel) : k.Creates k.spawn := by
  unfold spawn
  split_ifs with limited
  · exact .inl ⟨k.phys, rfl⟩
  · cases found : k.freeSlot with
    | none => exact .inl ⟨k.phys, rfl⟩
    | some slot =>
      dsimp only [allocKstack]
      split_ifs with failed
      · exact .inl ⟨_, rfl⟩
      · rw [freePrevKstack_eq]
        exact .inr ⟨slot, _, _, found, ⟨rfl, rfl, rfl, rfl, rfl, rfl⟩, rfl⟩

theorem spawnUser_creates (k : Kernel) (image : UserImage) : k.Creates (k.spawnUser image) := by
  unfold spawnUser
  split_ifs with limited
  · exact .inl ⟨k.phys, rfl⟩
  · cases found : k.freeSlot with
    | none => exact .inl ⟨k.phys, rfl⟩
    | some slot =>
      have shape : (k.freePrevKstack slot).allocKstack.2 =
          { k with phys := (k.freePrevKstack slot).allocKstack.2.phys } := by
        rw [freePrevKstack_eq]
        rfl
      dsimp only
      rw [shape]
      split_ifs with failed
      · exact .inl ⟨_, rfl⟩
      · exact .inr ⟨slot, _, _, found, ⟨rfl, rfl, rfl, rfl, rfl, rfl⟩, rfl⟩

theorem forkTask_creates (k : Kernel) (parent : Slot) (ownKstack shares : Bool) :
    k.Creates (k.forkTask parent ownKstack shares) := by
  unfold forkTask
  split_ifs with limited
  · exact .inl ⟨k.phys, rfl⟩
  · cases found : k.freeSlot with
    | none => exact .inl ⟨k.phys, rfl⟩
    | some slot =>
      dsimp only [allocKstack, identityMapKernel]
      rw [secondKstack_eq]
      split_ifs with failed noTable
      · exact .inl ⟨_, rfl⟩
      · exact .inl ⟨_, rfl⟩
      · exact .inr ⟨slot, _, _, found, ⟨rfl, rfl, rfl, rfl, rfl, rfl⟩, rfl⟩

/-- A fork succeeds below the task limit, with a free slot and memory for its
stacks and its table. -/
theorem forkTask_isSome (k : Kernel) (parent : Slot) (ownKstack shares : Bool) :
    (k.forkTask parent ownKstack shares).2.isSome ↔
      k.atTaskLimit (k.tasks parent).uid = false ∧ k.freeSlot.isSome ∧ k.allocKstack.1 ≠ 0 ∧
        (((k.allocKstack.2.identityMapKernel k.allocKstack.1 stackSize).secondKstack
          ownKstack).2.phys.alloc.palloc).1 ≠ 0 := by
  unfold forkTask
  by_cases limited : k.atTaskLimit (k.tasks parent).uid
  · simp [limited]
  · cases k.freeSlot with
    | none => simp
    | some slot =>
      simp only [limited]
      split_ifs with failed noTable <;> simp_all

theorem sysFork_creates (k : Kernel) : k.Creates k.sysFork := k.forkTask_creates _ _ _

theorem fork_creates (k : Kernel) (parentId : Nat) : k.Creates (k.fork parentId) := by
  unfold fork
  cases k.findTask parentId with
  | none => exact .inl ⟨k.phys, rfl⟩
  | some parent => exact k.forkTask_creates parent _ _

theorem freeSlot_some {k : Kernel} {slot : Slot} (found : k.freeSlot = some slot) :
    (k.tasks slot).state = .free := by
  simpa using findSlot_some found

end DBSos.Kernel
