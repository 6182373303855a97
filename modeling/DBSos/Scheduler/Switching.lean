import DBSos.Scheduler.Forks
import DBSos.System

/-!
# Who runs, over whole runs

`Watch` is the kernel with one mark a slot: the task has yielded in a blocking
call and nobody has made it ready since. The processor is well switched (`Good`)
when the current task alone is running and carries no mark, and when every ready
ring-3 task has a table, a GDT and a TSS in allocated pages.

Three kinds of steps break that: a call that blocks while no other task is
ready, a fork of a ring-3 task, and a free of a page that a living ring-3 task
is switched to with.
-/

namespace DBSos

open DBSos.Memory DBSos.Scheduler DBSos.Vm

namespace Scheduler.Task

/-- What a switch to a ring-3 task loads. -/
def tables (t : Task) : List Nat := [t.pml4, t.gdtPhys, t.tssPhys]

/-- None of it is at address 0, and all of it lies in allocated pages. -/
def Loadable (t : Task) (alloc : PhysAllocator) : Prop :=
  ∀ phys ∈ t.tables, phys ≠ 0 ∧ Allocated alloc phys

def Runnable (t : Task) : Prop := t.state = .ready ∨ t.state = .running

instance (t : Task) : Decidable t.Runnable := inferInstanceAs (Decidable (_ ∨ _))

/-- A living task of ring 3: a switch to it may come. -/
def IsUser (t : Task) : Prop := t.Alive ∧ t.ring3 = true

instance (t : Task) : Decidable t.IsUser := inferInstanceAs (Decidable (_ ∧ _))

end Scheduler.Task

/-- The kernel, and the tasks that have yielded in a blocking call and have not
been made ready since. -/
structure Watch where
  kernel : Kernel
  waiting : Slot → Bool

namespace Watch

/-- One step of the kernel: a task that stops at its `yield_now` waits, and
waits no more when it is ready. -/
def step (w : Watch) (action : Action) : Option Watch :=
  (w.kernel.step action).map fun after =>
    { kernel := after
      waiting := fun slot =>
        decide (w.kernel.frames slot = .outside ∧ after.frames slot ≠ .outside) ||
          w.waiting slot && !decide (after.tasks slot).Runnable }

def Steps (w : Watch) (action : Action) (w' : Watch) : Prop := w.step action = some w'

/-- The task whose code runs is the only one in state `Running` and does not
wait; a switch to a ready ring-3 task finds what it loads. -/
structure Good (w : Watch) : Prop where
  running : w.kernel.halted = false → w.kernel.currentTask.state = .running
  sole : ∀ slot, (w.kernel.tasks slot).state = .running → slot = w.kernel.current
  woken : w.kernel.halted = false → w.waiting w.kernel.current = false
  loadable : ∀ slot, (w.kernel.tasks slot).state = .ready → (w.kernel.tasks slot).ring3 = true →
    (w.kernel.tasks slot).Loadable w.kernel.phys.alloc

end Watch

namespace Kernel

/-- The static variables before `scheduler::init`. -/
structure Untouched (k : Kernel) : Prop where
  tasks : k.tasks = fun _ => Task.free
  frames : k.frames = fun _ => .outside
  running : k.halted = false

/-- `scheduler::init`. -/
def init (k : Kernel) : Kernel :=
  { k.setTask 0
      { Task.free with
        state := .running
        cwd := (Vector.replicate 128 0).set 0 47 } with
    current := 0 }

/-! ## The steps that keep the processor well switched -/

/-- Another task can take over. -/
def Relieved (k : Kernel) : Prop := ∃ slot, slot ≠ k.current ∧ (k.tasks slot).state = .ready

instance (k : Kernel) : Decidable k.Relieved := inferInstanceAs (Decidable (∃ _, _))

/-- The exit of the current task goes on with another one, which it may wake. -/
def Succeeded (k : Kernel) : Prop :=
  ∃ slot, slot ≠ k.current ∧ ((k.tasks slot).state = .ready ∨ k.currentTask.parentId ≠ 0 ∧
    (k.tasks slot).id = k.currentTask.parentId ∧ (k.tasks slot).state = .blockedRecv)

instance (k : Kernel) : Decidable k.Succeeded := inferInstanceAs (Decidable (∃ _, _))

/-- No page of the list is one that a switch to the task in this slot loads. -/
def Spares (k : Kernel) (freed : List Nat) (slot : Slot) : Prop :=
  (k.tasks slot).IsUser → ∀ phys ∈ (k.tasks slot).tables, ∀ one ∈ freed,
    ¬ k.phys.alloc.Hits one phys

instance (k : Kernel) (freed : List Nat) (slot : Slot) : Decidable (k.Spares freed slot) :=
  inferInstanceAs (Decidable (_ → _))

/-- `phys`, unless it is 0. -/
def held (phys : Nat) : List Nat := if phys ≠ 0 then [phys] else []

/-- The pages of a kernel stack, none for address 0. -/
def stackPages (phys : Nat) : List Nat := if phys ≠ 0 then pages phys kstackPages else []

/-- The pages that the exit of a task returns. -/
def taskPages (mem : PageMem) (t : Task) : List Nat :=
  held t.codePhys ++ held t.userStackPhys ++ held t.gdtPhys ++ held t.tssPhys ++
    (if t.pml4Phys ≠ 0 then addressSpacePages mem t.pml4Phys else []) ++
    held t.fpuBufPhys ++ stackPages t.kstackPhys

/-- The stack that the slot's record still names. -/
def stalePages (k : Kernel) (slot : Slot) : List Nat := stackPages (k.tasks slot).kstackPhys

/-- What a switch to the task of this image will load. -/
def UserImage.tables (image : UserImage) : List Nat := [image.pml4, image.gdtPhys, image.tssPhys]

/-- The step keeps the processor well switched. A call blocks only when another
task is ready, and a fork that succeeds is of a ring-0 task. What an exit and a
recycled slot return spares the tables of the living ring-3 tasks, and
`spawn_user` gets tables that are allocated and that its slot's old stack spares. -/
def Minds (k : Kernel) : Action → Prop
  | .send capIdx _ => ∀ dst, (∃ cap, k.CanSend capIdx cap dst) → dst ≠ k.current →
      ¬ Awaits (k.tasks dst) k.currentTask.id → k.Relieved
  | .recv capIdx => (∃ cap, k.CanRecv capIdx cap) → (k.pending k.current).msgType = 0 →
      k.findSender = none → k.currentTask.ipcVal = 0 → k.Relieved
  | .ipcSend dstId _ => ∀ dst, k.findTask dstId = some dst →
      ¬ Matches (k.tasks dst) .blockedRecv k.currentTask.id → k.Relieved
  | .ipcRecv srcId => k.matchRecv srcId = none → k.Relieved
  | .waitpid pid _ => k.exitedChild pid = none → k.Relieved
  | .exit _ => k.Succeeded → ∀ slot, slot ≠ k.current →
      k.Spares (taskPages k.phys.mem k.currentTask) slot
  | .spawn => k.atTaskLimit k.currentTask.uid = false → ∀ slot, k.freeSlot = some slot →
      k.allocKstack.1 ≠ 0 → ∀ other, k.Spares (k.stalePages slot) other
  | .spawnUser image => k.atTaskLimit k.currentTask.uid = false → ∀ slot, k.freeSlot = some slot →
      (∀ other, k.Spares (k.stalePages slot) other) ∧
        ((k.freePrevKstack slot).allocKstack.1 ≠ 0 → ∀ phys ∈ image.tables,
          phys ≠ 0 ∧ Allocated k.phys.alloc phys ∧
            ∀ one ∈ k.stalePages slot, ¬ k.phys.alloc.Hits one phys)
  | .sysFork => k.currentTask.ring3 = true → ¬ k.Forkable k.current true
  | .fork parentId => ∀ parent, k.findTask parentId = some parent →
      (k.tasks parent).ring3 = true → ¬ k.Forkable parent false
  | _ => True

instance (k : Kernel) : (action : Action) → Decidable (k.Minds action)
  | .send _ _ | .ipcSend _ _ | .fork _ => inferInstanceAs (Decidable (∀ _ : Slot, _))
  | .recv _ | .ipcRecv _ | .waitpid _ _ | .exit _ | .spawn | .spawnUser _ | .sysFork =>
    inferInstanceAs (Decidable (_ → _))
  | .tick | .resume | .capAlloc _ | .capAllocFor _ _ | .capDuplicate _ _ | .capTransfer _ _ =>
    inferInstanceAs (Decidable True)

/-! ## The invariant -/

/-- The current task alone is running, and every living ring-3 task can be
switched to. -/
structure Sound (k : Kernel) : Prop where
  running : k.halted = false → k.currentTask.state = .running
  sole : ∀ slot, (k.tasks slot).state = .running → slot = k.current
  loadable : ∀ slot, (k.tasks slot).IsUser → (k.tasks slot).Loadable k.phys.alloc

/-- A step goes to a sound kernel, and a task that it stops at a `yield_now` in
a call cannot run. -/
structure Keeps (k k' : Kernel) : Prop where
  sound : k'.Sound
  stopped : ∀ slot, k.frames slot = .outside → k'.frames slot ≠ .outside →
    ¬ (k'.tasks slot).Runnable

variable {k k' : Kernel} {slot : Slot} {t : Task}

theorem Sound.congr (sound : k.Sound) (tasks : k'.tasks = k.tasks) (current : k'.current = k.current)
    (halted : k'.halted = k.halted) (alloc : k.phys.alloc.Keeps k'.phys.alloc) : k'.Sound where
  running := by
    rw [halted, currentTask, tasks, current]
    exact sound.running
  sole := by
    rw [tasks, current]
    exact sound.sole
  loadable := by
    rw [tasks]
    intro slot user phys member
    obtain ⟨nonzero, allocated⟩ := sound.loadable slot user phys member
    exact ⟨nonzero, alloc.kept phys allocated⟩

/-- A step that stops nobody. -/
theorem Sound.keeps (sound : k'.Sound)
    (frames : ∀ slot, k.frames slot = .outside → k'.frames slot = .outside) : k.Keeps k' :=
  ⟨sound, fun slot before after => absurd (frames slot before) after⟩

/-- One record is written. It runs only if it is the current one, which goes on
running, and what a switch to it loads stays what it was. -/
theorem Sound.edit (sound : k.Sound) (running : t.state = .running → slot = k.current)
    (goesOn : slot = k.current → k.halted = false → t.state = .running)
    (tables : t.IsUser → (k.tasks slot).IsUser ∧ t.tables = (k.tasks slot).tables) :
    (k.setTask slot t).Sound where
  running := by
    intro awake
    by_cases here : k.current = slot
    · simpa [currentTask, here] using goesOn here.symm awake
    · simpa [currentTask, here] using sound.running awake
  sole := by
    intro one
    by_cases here : one = slot
    · simpa [here] using running
    · simpa [here] using sound.sole one
  loadable := by
    intro one
    by_cases here : one = slot
    · subst here
      simp only [setTask_tasks, Function.update_self]
      intro user phys member
      obtain ⟨before, same⟩ := tables user
      exact sound.loadable one before phys (same ▸ member)
    · simpa [here] using sound.loadable one

/-- A blocked task becomes ready. -/
theorem Sound.wake (sound : k.Sound) (running : k.halted = false) (blocked : ¬ (k.tasks slot).Runnable)
    (alive : (k.tasks slot).Alive) (ready : t.state = .ready)
    (ring3 : t.ring3 = (k.tasks slot).ring3) (tables : t.tables = (k.tasks slot).tables) :
    (k.setTask slot t).Sound := by
  have other : slot ≠ k.current := by
    rintro rfl
    exact blocked (.inr (sound.running running))
  refine sound.edit (fun runs => ?_) (fun here => absurd here other) fun user => ?_
  · rw [ready] at runs
    cases runs
  · exact ⟨⟨alive, ring3 ▸ user.2⟩, tables⟩

/-- The processor goes to a ready task while no task is running. -/
theorem sound_switchTo {next : Slot} (idle : ∀ slot, (k.tasks slot).state ≠ .running)
    (ready : (k.tasks next).state = .ready)
    (loadable : ∀ slot, (k.tasks slot).IsUser → (k.tasks slot).Loadable k.phys.alloc) :
    (k.switchTo next).Sound where
  running := by
    intro _
    simp [switchTo, modifyTask, currentTask]
  sole := by
    intro slot
    by_cases here : slot = next
    · intro _
      exact here
    · simpa [switchTo, modifyTask, here] using idle slot
  loadable := by
    intro slot
    by_cases here : slot = next
    · subst here
      intro user
      have before : (k.tasks slot).IsUser := by
        refine ⟨by simp [Task.Alive, ready], ?_⟩
        simpa [switchTo, modifyTask] using user.2
      simpa [switchTo, modifyTask, Task.Loadable, Task.tables] using loadable slot before
    · simpa [switchTo, modifyTask, here] using loadable slot

/-- A context switch when no task but the current one is running, and this one
runs or gives way. -/
theorem sound_reschedule (others : ∀ slot, slot ≠ k.current → (k.tasks slot).state ≠ .running)
    (loadable : ∀ slot, (k.tasks slot).IsUser → (k.tasks slot).Loadable k.phys.alloc)
    (takes : k.currentTask.state = .running ∨ k.Relieved) : k.reschedule.Sound := by
  rcases k.reschedule_cases with ⟨next, differs, ready, switched⟩ | ⟨kept, idle⟩
  · rw [switched]
    have parked : (park k.currentTask).state ≠ .running := by
      simp only [park]
      split_ifs with runnable
      · decide
      · exact fun running => runnable (.inl running)
    refine sound_switchTo (fun slot => ?_) ?_ fun slot => ?_
    · by_cases here : slot = k.current
      · simpa [modifyTask, here, currentTask] using parked
      · simpa [modifyTask, here] using others slot here
    · simpa [modifyTask, differs] using ready
    · by_cases here : slot = k.current
      · subst here
        simp only [modifyTask, setTask_tasks, Function.update_self, setTask_phys]
        rintro ⟨alive, ring3⟩
        refine loadable k.current ⟨?_, ring3⟩
        simp only [park, Task.Alive] at alive ⊢
        split_ifs at alive with runnable
        · rcases runnable with running | ready <;> simp [*]
        · exact alive
      · simpa [modifyTask, here] using loadable slot
  · rw [kept]
    have running : k.currentTask.state = .running := by
      rcases takes with running | ⟨slot, differs, ready⟩
      · exact running
      · exact absurd ready (idle slot differs)
    refine ⟨fun _ => running, fun slot runs => ?_, loadable⟩
    by_contra differs
    exact others slot differs runs

theorem Sound.reschedule (sound : k.Sound) (running : k.halted = false) : k.reschedule.Sound :=
  sound_reschedule (fun slot differs runs => differs (sound.sole slot runs)) sound.loadable
    (.inl (sound.running running))

/-- The current task marks itself blocked and yields while another is ready. -/
theorem Sound.block (sound : k.Sound) {frame : Frame} (blocked : ¬ t.Runnable)
    (tables : t.IsUser → k.currentTask.IsUser ∧ t.tables = k.currentTask.tables)
    (relieved : k.Relieved) : k.Keeps ((k.setTask k.current t).suspend frame) where
  sound := by
    refine sound_reschedule (fun slot differs runs => ?_) (fun slot => ?_) (.inr ?_)
    · have elsewhere : slot ≠ k.current := differs
      have runs : (k.tasks slot).state = .running := by simpa [elsewhere] using runs
      exact elsewhere (sound.sole slot runs)
    · by_cases here : slot = k.current
      · subst here
        simp only [setFrame_tasks, setTask_tasks, Function.update_self]
        intro user phys member
        obtain ⟨before, same⟩ := tables user
        exact sound.loadable _ before phys (same ▸ member)
      · simpa [here, setFrame] using sound.loadable slot
    · obtain ⟨next, differs, ready⟩ := relieved
      exact ⟨next, differs, by simpa [differs] using ready⟩
  stopped := by
    intro slot before after
    have here : slot = k.current := by
      by_contra differs
      exact after (by simpa [suspend, setFrame, differs] using before)
    subst here
    have same := (((k.setTask k.current t).setFrame frame).reschedule_runnable k.current).not
    refine same.mpr ?_
    simpa [Task.Runnable] using blocked

end Kernel

end DBSos
