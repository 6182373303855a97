import DBSos.Scheduler.Switching

/-!
# Each call keeps the processor well switched

One lemma for each call of the kernel, under the condition that `Minds` puts on
it, and the run theorem behind them. A call that passes a message wakes a blocked
task or blocks the current one; a creation adds a ready record; an exit hands the
processor on and returns pages.
-/

namespace DBSos

open DBSos.Abi DBSos.Lib DBSos.Memory DBSos.Scheduler DBSos.Vm

namespace Scheduler.Task

variable {t : Task} {a b : PhysAllocator}

theorem Loadable.mono (loadable : t.Loadable a) (keeps : a.Keeps b) : t.Loadable b := by
  intro phys member
  obtain ⟨nonzero, allocated⟩ := loadable phys member
  exact ⟨nonzero, keeps.kept phys allocated⟩

theorem Loadable.frees (loadable : t.Loadable a) {freed : List Nat}
    (spares : ∀ phys ∈ t.tables, ∀ one ∈ freed, ¬ a.Hits one phys) :
    t.Loadable (freed.foldl PhysAllocator.pfree a) := by
  intro phys member
  obtain ⟨nonzero, allocated⟩ := loadable phys member
  exact ⟨nonzero, PhysAllocator.foldl_pfree_allocated allocated (spares phys member)⟩

end Scheduler.Task

namespace Kernel

variable {k : Kernel} {slot : Slot} {t : Task}

/-! ## Messages -/

theorem not_runnable_of_blocked (blocked : t.state = .blockedSend ∨ t.state = .blockedRecv) :
    ¬ t.Runnable := by
  rcases blocked with send | recv <;> simp [Task.Runnable, *]

theorem alive_of_blocked (blocked : t.state = .blockedSend ∨ t.state = .blockedRecv) : t.Alive := by
  rcases blocked with send | recv <;> simp [Task.Alive, *]

/-- A blocked task becomes ready in a call of another. -/
theorem Sound.wakes (sound : k.Sound) (running : k.halted = false)
    (blocked : (k.tasks slot).state = .blockedSend ∨ (k.tasks slot).state = .blockedRecv)
    (ready : t.state = .ready) (ring3 : t.ring3 = (k.tasks slot).ring3)
    (tables : t.tables = (k.tasks slot).tables) : k.Keeps (k.setTask slot t) :=
  (sound.wake running (not_runnable_of_blocked blocked) (alive_of_blocked blocked) ready ring3
    tables).keeps fun _ => id

/-- The current task, whose call it is, is alive. -/
theorem Sound.user (sound : k.Sound) (running : k.halted = false) (ring3 : k.currentTask.ring3 = true) :
    k.currentTask.IsUser := by
  refine ⟨?_, ring3⟩
  simp [Task.Alive, sound.running running]

/-- The current task blocks and keeps what a switch to it loads. -/
theorem Sound.blocks (sound : k.Sound) (running : k.halted = false) {frame : Frame}
    (blocked : t.state = .blockedSend ∨ t.state = .blockedRecv)
    (ring3 : t.ring3 = k.currentTask.ring3) (tables : t.tables = k.currentTask.tables)
    (relieved : k.Relieved) : k.Keeps ((k.setTask k.current t).suspend frame) :=
  sound.block (not_runnable_of_blocked blocked)
    (fun user => ⟨sound.user running (ring3 ▸ user.2), tables⟩) relieved

/-- The current task clears `ipc_val`. -/
theorem Sound.takePending (sound : k.Sound) (running : k.halted = false) :
    k.takePending.1.Sound :=
  sound.edit (fun _ => rfl) (fun _ _ => sound.running running) fun user =>
    ⟨sound.user running user.2, rfl⟩

theorem Sound.send (sound : k.Sound) (running : k.halted = false) {capIdx : Nat} {msg : Message}
    (minds : k.Minds (.send capIdx msg)) : k.Keeps (k.sendWithCap capIdx msg).settle := by
  rcases k.sendWithCap_cases capIdx msg with
    ⟨_, code, _, refused⟩ | ⟨cap, dst, can, ⟨_, taken⟩ | ⟨_, waits, taken⟩ | ⟨other, alone, taken⟩⟩
  · rw [refused]
    exact sound.keeps fun _ => id
  · rw [taken]
    refine Sound.keeps ?_ fun _ => id
    exact sound.congr rfl rfl rfl (.refl _)
  · rw [taken, wakeAndDeliver_eq]
    exact sound.wakes running (.inr waits.1) rfl rfl rfl
  · rw [taken]
    exact sound.blocks running (.inl rfl) rfl rfl (minds dst ⟨cap, can⟩ other alone)

theorem Sound.recv (sound : k.Sound) (running : k.halted = false) {capIdx : Nat}
    (minds : k.Minds (.recv capIdx)) : k.Keeps (k.recvWithCap capIdx).settle := by
  rcases k.recvWithCap_cases capIdx with
    ⟨_, code, _, refused⟩ | ⟨can, ⟨_, taken⟩ | ⟨empty, ⟨sender, found, taken⟩ | ⟨_, _, taken⟩ |
      ⟨none, unset, taken⟩⟩⟩
  · rw [refused]
    exact sound.keeps fun _ => id
  · rw [taken]
    refine Sound.keeps ?_ fun _ => id
    exact sound.congr rfl rfl rfl (.refl _)
  · rw [taken]
    exact sound.wakes running (.inl (findSender_some found).1) rfl rfl rfl
  · rw [taken]
    exact (sound.takePending running).keeps fun _ => id
  · rw [taken]
    exact sound.blocks running (.inr rfl) rfl rfl (minds can empty none unset)

theorem Sound.ipcSend (sound : k.Sound) (running : k.halted = false) {dstId word : Nat}
    (minds : k.Minds (.ipcSend dstId word)) : k.Keeps (k.ipcSend dstId word).settle := by
  unfold Kernel.ipcSend
  cases found : k.findTask dstId with
  | none => exact sound.keeps fun _ => id
  | some dst =>
    by_cases waits : Matches (k.tasks dst) .blockedRecv k.currentTask.id
    · simp only [waits, if_true]
      exact sound.wakes running (.inr waits.1) rfl rfl rfl
    · simp only [waits, if_false]
      exact sound.blocks running (.inl rfl) rfl rfl (minds dst found waits)

theorem Sound.ipcRecv (sound : k.Sound) (running : k.halted = false) {srcId : Nat}
    (minds : k.Minds (.ipcRecv srcId)) : k.Keeps (k.ipcRecv srcId).settle := by
  unfold Kernel.ipcRecv
  cases found : k.matchRecv srcId with
  | none => exact sound.blocks running (.inr rfl) rfl rfl (minds found)
  | some src => exact sound.wakes running (.inl (matchRecv_some found).1) rfl rfl rfl

/-! ## Waits -/

/-- The slot of a child that has exited becomes free. -/
theorem Sound.reap (sound : k.Sound) (running : k.halted = false)
    (exited : (k.tasks slot).state = .exited) (statusPtr : BitVec 64) :
    (k.reap slot statusPtr).1.Sound := by
  have other : slot ≠ k.current := by
    rintro rfl
    have alive := sound.running running
    rw [currentTask, exited] at alive
    cases alive
  refine sound.edit (by simp) (fun here => absurd here other) fun user => ?_
  exact absurd rfl user.1.1

theorem Sound.waitpid (sound : k.Sound) (running : k.halted = false) {pid : Nat}
    {statusPtr : BitVec 64} (minds : k.Minds (.waitpid pid statusPtr)) :
    k.Keeps (k.waitpid pid statusPtr).settle := by
  unfold Kernel.waitpid
  cases found : k.exitedChild pid with
  | none => exact sound.blocks running (.inr rfl) rfl rfl (minds found)
  | some slot =>
    have child := findSlot_some found
    simp only [decide_eq_true_eq] at child
    exact (sound.reap running child.2.2 statusPtr).keeps fun _ => id

theorem Sound.resumeWaitpid (sound : k.Sound) (running : k.halted = false) (statusPtr : BitVec 64) :
    (k.resumeWaitpid statusPtr).1.Sound := by
  unfold Kernel.resumeWaitpid
  split_ifs with bound exited
  · exact sound.reap running exited statusPtr
  · exact sound
  · exact sound

/-- A call continues behind its `yield_now`. -/
theorem Sound.resumeFrame (sound : k.Sound) (running : k.halted = false) {k' : Kernel} {frame : Frame}
    (resumed : k.resumeFrame frame = some k') : k'.Sound ∧ k'.frames = k.frames := by
  cases frame with
  | outside => cases resumed
  | sendWithCap =>
    obtain rfl := Option.some.inj resumed
    exact ⟨sound, rfl⟩
  | ipcSend =>
    obtain rfl := Option.some.inj resumed
    exact ⟨sound, rfl⟩
  | ipcRecv =>
    obtain rfl := Option.some.inj resumed
    exact ⟨sound, rfl⟩
  | recvWithCap =>
    obtain rfl := Option.some.inj resumed
    unfold resumeRecv
    split_ifs
    · exact ⟨sound.takePending running, rfl⟩
    · exact ⟨sound, rfl⟩
  | waitpid pid statusPtr =>
    obtain rfl := Option.some.inj resumed
    refine ⟨sound.resumeWaitpid running statusPtr, ?_⟩
    unfold Kernel.resumeWaitpid
    split_ifs <;> rfl

/-! ## Exits -/

theorem held_foldl (p : PhysMem) (phys : Nat) :
    freePage p phys = { p with alloc := (held phys).foldl PhysAllocator.pfree p.alloc } := by
  unfold freePage held
  split_ifs <;> rfl

/-- An exit returns the pages of the task one by one. -/
theorem freeTaskMemory_eq (p : PhysMem) (t : Task) :
    freeTaskMemory p t =
      { p with alloc := (taskPages p.mem t).foldl PhysAllocator.pfree p.alloc } := by
  unfold freeTaskMemory taskPages stackPages
  simp only [held_foldl, List.foldl_append, PhysAllocator.pfreeN_eq_foldl, destroyAddressSpace]
  by_cases space : t.pml4Phys = 0 <;> by_cases stack : t.kstackPhys = 0 <;> simp [space, stack]

/-- The records that can still be switched to after the current task is marked. -/
theorem markExited_user {status : BitVec 32} (user : ((k.markExited status).tasks slot).IsUser) :
    slot ≠ k.current ∧ (k.tasks slot).IsUser ∧
      ((k.markExited status).tasks slot).tables = (k.tasks slot).tables := by
  rw [markExited_tasks] at user ⊢
  split_ifs at user ⊢ with dying woken
  · exact absurd rfl user.1.2
  · exact ⟨dying, ⟨by simp [Task.Alive, woken], user.2⟩, rfl⟩
  · exact ⟨dying, user, rfl⟩

theorem markExited_not_running (sound : k.Sound) (status : BitVec 32) :
    ((k.markExited status).tasks slot).state ≠ .running := by
  rw [markExited_tasks]
  split_ifs with dying woken
  · simp
  · simp
  · exact fun runs => dying (sound.sole slot runs)

/-- A task that is ready behind the exit was ready or is the parent. -/
theorem succeeded_of_ready {status : BitVec 32}
    (differs : slot ≠ k.current) (ready : ((k.markExited status).tasks slot).state = .ready) :
    k.Succeeded := by
  refine ⟨slot, differs, ?_⟩
  rw [markExited_tasks, if_neg differs] at ready
  split_ifs at ready with woken
  · exact .inr woken
  · exact .inl ready

theorem Sound.exit (sound : k.Sound) {status : BitVec 32} (minds : k.Minds (.exit status)) :
    k.Keeps (k.exitWithStatus status) := by
  refine Sound.keeps ?_ fun slot outside => by rwa [exitWithStatus_frames]
  have phys : (k.markExited status).phys = k.phys := by rw [markExited_eq]
  rcases k.exitWithStatus_cases status with ⟨_, halts⟩ | ⟨next, differs, ready, runs⟩
  · rw [halts]
    refine ⟨nofun, fun slot runs => absurd runs (markExited_not_running sound status), fun slot => ?_⟩
    intro user
    obtain ⟨_, before, same⟩ := markExited_user user
    intro table member
    simp only [phys]
    exact sound.loadable slot before table (same ▸ member)
  · rw [runs, freeTaskMemory_eq]
    refine sound_switchTo (k := { k.markExited status with
      phys := ⟨(taskPages k.phys.mem k.currentTask).foldl PhysAllocator.pfree k.phys.alloc,
        k.phys.mem⟩ }) (fun slot => markExited_not_running sound status) ready fun slot user => ?_
    obtain ⟨other, before, same⟩ := markExited_user user
    have spares := minds (succeeded_of_ready differs ready) slot other before
    have loadable := (sound.loadable slot before).frees spares
    simpa [Task.Loadable, same] using loadable

/-! ## Creations -/

/-- A creation fails, or it adds a ready record that can be switched to. Either
way the living ring-3 tasks can still be switched to. -/
structure Admits (k : Kernel) (result : Kernel × Option Nat) (phys : PhysMem) : Prop where
  spares : ∀ slot, (k.tasks slot).IsUser → (k.tasks slot).Loadable k.phys.alloc →
    (k.tasks slot).Loadable phys.alloc
  adds : result.1 = { k with phys := phys } ∨ ∃ slot t, (k.tasks slot).state = .free ∧
    t.state = .ready ∧ (t.ring3 = true → t.Loadable phys.alloc) ∧
      result.1 = ({ k.takeId with phys := phys }).install slot t

theorem Sound.admits (sound : k.Sound) (running : k.halted = false) {result : Kernel × Option Nat}
    {phys : PhysMem} (admits : k.Admits result phys) : k.Keeps result.1 := by
  have kept : Sound { k with phys := phys } :=
    ⟨sound.running, sound.sole, fun slot user => admits.spares slot user (sound.loadable slot user)⟩
  rcases admits.adds with failed | ⟨slot, t, free, ready, loadable, added⟩
  · rw [failed]
    exact kept.keeps fun _ => id
  · rw [added]
    have other : k.current ≠ slot := by
      rintro rfl
      have alive := sound.running running
      rw [currentTask, free] at alive
      cases alive
    refine Sound.keeps ⟨fun _ => ?_, fun one => ?_, fun one => ?_⟩ fun one outside => ?_
    · simpa [install, currentTask, takeId, other] using sound.running running
    · by_cases here : one = slot
      · simp [install, here, ready]
      · simpa [install, takeId, here] using sound.sole one
    · by_cases here : one = slot
      · subst here
        simpa [install] using fun user : t.IsUser => loadable user.2
      · simpa [install, takeId, here] using kept.loadable one
    · by_cases here : one = slot
      · simp [install, here]
      · simpa [install, takeId, here] using outside

theorem Admits.none {k : Kernel} {id : Option Nat} : k.Admits (k, id) k.phys :=
  ⟨fun _ _ loadable => loadable, .inl rfl⟩

/-- Recycling a slot frees the stack that its record still names. -/
theorem freePrevKstack_alloc (k : Kernel) (slot : Slot) :
    (k.freePrevKstack slot).phys.alloc =
      (k.stalePages slot).foldl PhysAllocator.pfree k.phys.alloc := by
  unfold freePrevKstack stalePages stackPages
  split_ifs with stale
  · simp only [freeKstack, PhysAllocator.pfreeN_eq_foldl]
  · rfl

/-- An allocation before or after the recycling spares the tables too. -/
theorem Spares.recycled {freed : List Nat} {a : PhysAllocator} (spares : k.Spares freed slot)
    (keeps : k.phys.alloc.Keeps a) (user : (k.tasks slot).IsUser)
    (loadable : (k.tasks slot).Loadable k.phys.alloc) :
    (k.tasks slot).Loadable (freed.foldl PhysAllocator.pfree a) := by
  refine (loadable.mono keeps).frees fun phys member one stale => ?_
  rw [keeps.toSameRegion.hits_iff]
  exact spares user phys member one stale

theorem spawn_admits (minds : k.Minds .spawn) : ∃ phys, k.Admits k.spawn phys := by
  unfold Kernel.spawn
  by_cases limited : k.atTaskLimit k.currentTask.uid = true
  · rw [if_pos limited]
    exact ⟨_, .none⟩
  · rw [if_neg limited]
    cases found : k.freeSlot with
    | none => exact ⟨_, .none⟩
    | some slot =>
      have keeps := k.phys.alloc.pallocN_keeps (show 0 < kstackPages by decide)
      dsimp only [allocKstack]
      by_cases failed : (k.phys.alloc.pallocN kstackPages).1 = 0
      · rw [if_pos failed]
        exact ⟨_, fun _ _ loadable => loadable.mono keeps, .inl rfl⟩
      · rw [if_neg failed, freePrevKstack_eq]
        refine ⟨_, fun one user loadable => ?_,
          .inr ⟨slot, _, freeSlot_some found, rfl, ?_, rfl⟩⟩
        · have spares := minds (by simpa using limited) slot found failed one
          have recycled := spares.recycled keeps user loadable
          refine Task.Loadable.mono ?_ (PhysAllocator.palloc_keeps _)
          rw [freePrevKstack_alloc]
          exact recycled
        · simp [Task.free]

theorem spawnUser_admits {image : UserImage} (minds : k.Minds (.spawnUser image)) :
    ∃ phys, k.Admits (k.spawnUser image) phys := by
  unfold Kernel.spawnUser
  by_cases limited : k.atTaskLimit k.currentTask.uid = true
  · rw [if_pos limited]
    exact ⟨_, .none⟩
  · rw [if_neg limited]
    cases found : k.freeSlot with
    | none => exact ⟨_, .none⟩
    | some slot =>
      obtain ⟨spares, proper⟩ := minds (by simpa using limited) slot found
      have keeps := (k.freePrevKstack slot).phys.alloc.pallocN_keeps
        (show 0 < kstackPages by decide)
      have others (one : Slot) (user : (k.tasks one).IsUser)
          (loadable : (k.tasks one).Loadable k.phys.alloc) :
          (k.tasks one).Loadable (k.freePrevKstack slot).allocKstack.2.phys.alloc := by
        refine Task.Loadable.mono ?_ keeps
        rw [freePrevKstack_alloc]
        exact (spares one).recycled (.refl _) user loadable
      have shape : (k.freePrevKstack slot).allocKstack.2 =
          { k with phys := (k.freePrevKstack slot).allocKstack.2.phys } := by
        rw [freePrevKstack_eq]
        rfl
      dsimp only
      rw [shape]
      by_cases failed : (k.freePrevKstack slot).allocKstack.1 = 0
      · rw [if_pos failed]
        exact ⟨_, others, .inl rfl⟩
      · rw [if_neg failed]
        refine ⟨_, fun one user loadable => (others one user loadable).mono
          (PhysAllocator.palloc_keeps _),
          .inr ⟨slot, _, freeSlot_some found, rfl, fun _ => ?_, rfl⟩⟩
        intro phys member
        obtain ⟨nonzero, allocated, apart⟩ := proper failed phys member
        have recycled := PhysAllocator.foldl_pfree_allocated allocated apart
        rw [← freePrevKstack_alloc] at recycled
        exact ⟨nonzero, (PhysAllocator.palloc_keeps _).kept phys (keeps.kept phys recycled)⟩

theorem forkTask_admits {parent : Slot} {ownKstack shares : Bool}
    (ring0 : (k.tasks parent).ring3 = true → ¬ k.Forkable parent ownKstack) :
    ∃ phys, k.Admits (k.forkTask parent ownKstack shares) phys := by
  by_cases forks : k.Forkable parent ownKstack
  · have kernelTask : (k.tasks parent).ring3 = false := by
      by_contra ring3
      exact ring0 (by simpa using ring3) forks
    obtain ⟨slot, t, phys, free, child, keeps, forked⟩ := forkTask_succeeds shares forks
    refine ⟨phys, fun _ _ loadable => loadable.mono keeps,
      .inr ⟨slot, t, freeSlot_some free, child.state, fun ring3 => ?_, by rw [forked]⟩⟩
    rw [child.ring3, kernelTask] at ring3
    cases ring3
  · obtain ⟨phys, failed, keeps⟩ := forkTask_fails shares forks
    rw [failed]
    exact ⟨phys, fun _ _ loadable => loadable.mono keeps, .inl rfl⟩

/-! ## Runs -/

/-- A grant changes capability tables only. -/
theorem Sound.grants (sound : k.Sound) {taskId : Nat} {k' : Kernel} (grants : k.Grants taskId k') :
    k'.Sound ∧ k'.frames = k.frames := by
  rcases grants with rfl | ⟨slot, cap, _, rfl⟩
  · exact ⟨sound, rfl⟩
  · exact ⟨sound.congr rfl rfl rfl (.refl _), rfl⟩

theorem Keeps.of_sound {k' : Kernel} (kept : k'.Sound ∧ k'.frames = k.frames) : k.Keeps k' :=
  kept.1.keeps fun _ outside => kept.2 ▸ outside

theorem Sound.capTransfer (sound : k.Sound) {dstTaskId idx : Nat} :
    k.Keeps (k.capTransfer dstTaskId idx).1 := by
  obtain ⟨granted, grants, taken | taken⟩ := k.capTransfer_grants dstTaskId idx
  · rw [taken]
    exact .of_sound (sound.grants grants)
  · rw [taken]
    obtain ⟨kept, frames⟩ := sound.grants grants
    exact .of_sound ⟨kept.congr rfl rfl rfl (.refl _), frames⟩

theorem Sound.call (sound : k.Sound) (running : k.halted = false) {action : Action}
    (minds : k.Minds action) : k.Keeps (k.call action) := by
  cases action with
  | tick => exact sound.keeps fun _ => id
  | resume => exact sound.keeps fun _ => id
  | send capIdx msg => exact sound.send running minds
  | recv capIdx => exact sound.recv running minds
  | ipcSend dstId word => exact sound.ipcSend running minds
  | ipcRecv srcId => exact sound.ipcRecv running minds
  | exit status => exact sound.exit minds
  | waitpid pid statusPtr => exact sound.waitpid running minds
  | spawn =>
    obtain ⟨phys, admits⟩ := spawn_admits minds
    exact sound.admits running admits
  | spawnUser image =>
    obtain ⟨phys, admits⟩ := spawnUser_admits minds
    exact sound.admits running admits
  | sysFork =>
    have ring0 (ring3 : k.currentTask.ring3 = true) :
        ¬ k.Forkable k.current k.currentTask.ring3 := by
      rw [ring3]
      exact minds ring3
    obtain ⟨phys, admits⟩ := forkTask_admits ring0
    exact sound.admits running admits
  | fork parentId =>
    simp only [Kernel.call, Kernel.fork]
    cases found : k.findTask parentId with
    | none => exact sound.keeps fun _ => id
    | some parent =>
      obtain ⟨phys, admits⟩ := forkTask_admits (minds parent found)
      exact sound.admits running admits
  | capAlloc cap =>
    exact .of_sound ⟨sound.congr rfl rfl rfl (.refl _), rfl⟩
  | capAllocFor taskId cap => exact .of_sound (sound.grants (k.capAllocFor_grants taskId cap))
  | capDuplicate dstTaskId idx =>
    exact .of_sound (sound.grants (k.capDuplicate_grants dstTaskId idx))
  | capTransfer dstTaskId idx => exact sound.capTransfer

/-- One step from a sound kernel. -/
theorem Sound.step (sound : k.Sound) {action : Action} (minds : k.Minds action) {k' : Kernel}
    (valid : k.Steps action k') : k.Keeps k' := by
  obtain ⟨running, ⟨-, rfl⟩ | ⟨-, resumed⟩ | ⟨-, -, -, rfl⟩⟩ := step_cases valid
  · exact (sound.reschedule running).keeps fun slot outside => by rwa [reschedule_frames]
  · have left : (k.setFrame .outside).Sound := sound.congr rfl rfl rfl (.refl _)
    obtain ⟨kept, frames⟩ := left.resumeFrame running resumed
    refine kept.keeps fun slot outside => ?_
    rw [frames]
    by_cases here : slot = k.current
    · simp [setFrame, here]
    · simpa [setFrame, here] using outside
  · exact sound.call running minds

theorem Untouched.sound_init (untouched : k.Untouched) : k.init.Sound where
  running := fun _ => by simp [init, currentTask]
  sole := by
    intro slot
    by_cases here : slot = 0
    · intro _
      exact here
    · simp [init, here, untouched.tasks, Task.free]
  loadable := by
    rintro slot ⟨-, ring3⟩
    by_cases here : slot = 0
    · simp [init, here, Task.free] at ring3
    · simp [init, here, untouched.tasks, Task.free] at ring3

end Kernel

namespace Watch

/-- The kernel is sound, and those who wait cannot run. -/
structure Inv (w : Watch) : Prop where
  sound : w.kernel.Sound
  stopped : ∀ slot, w.waiting slot = true → ¬ (w.kernel.tasks slot).Runnable

theorem Inv.good {w : Watch} (inv : Inv w) : Good w where
  running := inv.sound.running
  sole := inv.sound.sole
  woken := by
    intro running
    by_contra waits
    exact inv.stopped _ (by simpa using waits) (.inr (inv.sound.running running))
  loadable := fun slot ready ring3 =>
    inv.sound.loadable slot ⟨by simp [Task.Alive, ready], ring3⟩

theorem Inv.step {w w' : Watch} {action : Action} (inv : Inv w) (minds : w.kernel.Minds action)
    (valid : w.Steps action w') : Inv w' := by
  obtain ⟨after, taken, rfl⟩ := Option.map_eq_some_iff.mp valid
  have kept := inv.sound.step minds taken
  refine ⟨kept.sound, fun slot waits => ?_⟩
  simp only [Bool.or_eq_true, Bool.and_eq_true, Bool.not_eq_true', decide_eq_true_eq,
    decide_eq_false_iff_not] at waits
  rcases waits with ⟨before, stops⟩ | ⟨-, stopped⟩
  · exact kept.stopped slot before stops
  · exact stopped

/-- From `scheduler::init`, in a run in which calls block only while another task
is ready, forks are of ring-0 tasks and frees spare the tables of living ring-3
tasks: the current task alone is running, no task goes on before it has been made
ready, and a switch to a ready ring-3 task loads allocated pages. -/
theorem good_throughout {k : Kernel} (untouched : k.Untouched)
    {taken : List (Transition Watch Action)} {final : Watch}
    (run : Trace Steps ⟨k.init, fun _ => false⟩ taken final)
    (minds : Guarded (fun w action => w.kernel.Minds action) taken) :
    Throughout Good ⟨k.init, fun _ => false⟩ taken := by
  have kept := run.throughout_of_guarded Inv ⟨untouched.sound_init, fun _ waits => absurd waits Bool.false_ne_true⟩
    (fun _ _ _ inv guard valid => inv.step guard valid) minds
  exact ⟨kept.1.good, fun transition member => (kept.2 transition member).good⟩

/-- A machine with 128 pages of memory, of which the first eight are in use. -/
def machine : Kernel where
  tasks := fun _ => Task.free
  current := 0
  nextId := 1
  pending := fun _ => Message.empty
  capTables := fun _ => Cap.CapTable.new
  phys := ⟨⟨0x80000, fun i => if i = 0 then 0xFF#8 else 0#8, 0x100000, 128, 120, 8⟩,
    fun _ _ => 0#64⟩
  kernelPml4 := 0x100000
  frames := fun _ => .outside
  halted := false

/-- A program whose pages are five of those in use. -/
def program : Kernel.UserImage := ⟨0x101000, 0x102000, 0x103000, 0x104000, 0x105000⟩

/-- A kernel task waits for a word, a ring-3 task sends it and exits, and the
kernel task goes on. -/
theorem good_machine :
    ∃ taken final, record step ⟨machine.init, fun _ => false⟩
        [.spawn, .spawnUser program, .tick, .ipcRecv 0, .ipcSend 1 42, .exit 0#32, .tick,
          .resume] = some (taken, final) ∧
      final.kernel.current = 1 ∧ Throughout Good ⟨machine.init, fun _ => false⟩ taken := by
  obtain ⟨⟨taken, final⟩, recorded, last, guarded⟩ :
      ∃ run ∈ record step ⟨machine.init, fun _ => false⟩
          [.spawn, .spawnUser program, .tick, .ipcRecv 0, .ipcSend 1 42, .exit 0#32, .tick,
            .resume],
        run.2.kernel.current = 1 ∧
          ∀ transition ∈ run.1, transition.before.kernel.Minds transition.label := by
    decide +kernel
  exact ⟨taken, final, recorded, last,
    good_throughout ⟨rfl, rfl, rfl⟩ (trace_of_record recorded) guarded⟩

/-- A ring-3 task forks: its child is ready and has no GDT. -/
theorem forked_child :
    machine.Untouched ∧ ∃ taken final,
      Trace Steps ⟨machine.init, fun _ => false⟩ taken final ∧
        ¬ Throughout Good ⟨machine.init, fun _ => false⟩ taken := by
  refine ⟨⟨rfl, rfl, rfl⟩, ?_⟩
  obtain ⟨⟨taken, final⟩, recorded, ready, ring3, noGdt⟩ :
      ∃ run ∈ record step ⟨machine.init, fun _ => false⟩
          [.spawnUser program, .tick, .sysFork],
        (run.2.kernel.tasks 2).state = .ready ∧ (run.2.kernel.tasks 2).ring3 = true ∧
          (run.2.kernel.tasks 2).gdtPhys = 0 := by
    decide +kernel
  have run := trace_of_record recorded
  refine ⟨taken, final, run, fun good => ?_⟩
  have loadable := (run.final_of_throughout good).loadable 2 ready ring3
  exact (loadable (final.kernel.tasks 2).gdtPhys (by simp [Task.tables])).1 noGdt

end Watch

end DBSos
