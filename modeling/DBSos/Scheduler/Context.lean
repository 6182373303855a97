import DBSos.Kernel

/-!
# Context switches

`reschedule` is what both `yield_now` and the timer interrupt run. It changes
only task states and `CURRENT`: a runnable task may start or stop running, and
no task enters or leaves a blocked, exited or free state
(`reschedule_task`). A task that marked itself blocked and finds no other
task ready keeps the processor and its mark.
-/

namespace DBSos.Kernel

open DBSos.Scheduler

/-- The slot `(CURRENT + i) % MAX_TASKS`. -/
def rotate (k : Kernel) (i : Nat) : Slot :=
  ⟨(k.current.val + i) % maxTasks, Nat.mod_lt _ (by decide)⟩

/-- `find_ready`: the next ready slot in cyclic order, ending with the current
one; the current slot when none is ready. -/
def findReady (k : Kernel) : Slot :=
  (((List.range maxTasks).map fun i => k.rotate (i + 1)).find?
    fun slot => (k.tasks slot).state = .ready).getD k.current

/-- A preempted task goes back to the ready state; a blocked one keeps its state. -/
def park (t : Task) : Task :=
  { t with state := if t.state = .running ∨ t.state = .ready then .ready else t.state }

/-- `TASKS[next].state = Running; CURRENT = next`. -/
def switchTo (k : Kernel) (next : Slot) : Kernel :=
  { k.modifyTask next fun t => { t with state := .running } with current := next }

/-- `reschedule`. -/
def reschedule (k : Kernel) : Kernel :=
  let next := k.findReady
  if next ≠ k.current then (k.modifyTask k.current park).switchTo next else k

/-- A kernel call stops at its `yield_now`, to resume in this frame. -/
def suspend (k : Kernel) (frame : Frame) : Kernel := (k.setFrame frame).reschedule

/-- The found slot is ready, or no slot is and the current one is returned. -/
theorem findReady_spec (k : Kernel) :
    (k.tasks k.findReady).state = .ready ∨
      k.findReady = k.current ∧ ∀ slot, (k.tasks slot).state ≠ .ready := by
  unfold findReady
  cases found : ((List.range maxTasks).map fun i => k.rotate (i + 1)).find?
      fun slot => (k.tasks slot).state = .ready with
  | some slot => exact .inl (by simpa using List.find?_some found)
  | none =>
    refine .inr ⟨rfl, fun slot => ?_⟩
    have member : slot ∈ (List.range maxTasks).map fun i => k.rotate (i + 1) := by
      simp only [List.mem_map, List.mem_range]
      have slotLt : slot.val < 32 := slot.isLt
      have currentLt : k.current.val < 32 := k.current.isLt
      refine ⟨(slot.val + 31 - k.current.val) % 32, Nat.mod_lt _ (by decide), Fin.ext ?_⟩
      simp only [rotate, maxTasks]
      omega
    simpa using List.find?_eq_none.mp found slot member

/-- The current slot is tested last, so `find_ready` returns it only when no
other slot is ready. -/
theorem not_ready_of_findReady_eq {k : Kernel} (same : k.findReady = k.current) {slot : Slot}
    (differs : slot ≠ k.current) : (k.tasks slot).state ≠ .ready := by
  intro ready
  have slotLt : slot.val < 32 := slot.isLt
  have currentLt : k.current.val < 32 := k.current.isLt
  have slotNe : slot.val ≠ k.current.val := fun equal => differs (Fin.ext equal)
  have split : (List.range maxTasks).map (fun i => k.rotate (i + 1)) =
      (List.range 31).map (fun i => k.rotate (i + 1)) ++ [k.rotate 32] := by
    simp [maxTasks, List.range_succ]
  have early : ((List.range 31).map fun i => k.rotate (i + 1)).find?
      (fun slot => (k.tasks slot).state = .ready) ≠ none := by
    intro missing
    have position : k.rotate ((slot.val + 31 - k.current.val) % 32 + 1) = slot := by
      apply Fin.ext
      simp only [rotate, maxTasks]
      omega
    have absent := List.find?_eq_none.mp missing slot
      (List.mem_map.mpr ⟨_, List.mem_range.mpr (by omega), position⟩)
    simp [ready] at absent
  obtain ⟨first, found⟩ := Option.ne_none_iff_exists'.mp early
  have firstIs : k.findReady = first := by
    unfold findReady
    rw [split, List.find?_append, found]
    rfl
  obtain ⟨j, jBound, jIs⟩ := List.mem_map.mp (List.mem_of_find?_eq_some found)
  have jLt := List.mem_range.mp jBound
  have value := congrArg Fin.val (jIs.trans (firstIs.symm.trans same))
  simp only [rotate, maxTasks] at value
  omega

/-- A context switch goes to another ready task, or leaves the kernel as it is. -/
theorem reschedule_cases (k : Kernel) :
    (∃ next, next ≠ k.current ∧ (k.tasks next).state = .ready ∧
      k.reschedule = (k.modifyTask k.current park).switchTo next) ∨
    (k.reschedule = k ∧ ∀ slot, slot ≠ k.current → (k.tasks slot).state ≠ .ready) := by
  unfold reschedule
  by_cases same : k.findReady = k.current
  · exact .inr ⟨by simp [same], fun slot differs => not_ready_of_findReady_eq same differs⟩
  · refine .inl ⟨k.findReady, same, ?_, by simp [same]⟩
    rcases k.findReady_spec with ready | ⟨equal, _⟩
    · exact ready
    · exact absurd equal same

/-- A context switch writes nothing of a task but its state, and that only
between ready and running. -/
theorem reschedule_task (k : Kernel) (slot : Slot) :
    k.reschedule.tasks slot =
        { k.tasks slot with state := (k.reschedule.tasks slot).state } ∧
      ∀ state, state ≠ .ready → state ≠ .running →
        ((k.reschedule.tasks slot).state = state ↔ (k.tasks slot).state = state) := by
  rcases k.reschedule_cases with ⟨next, differs, ready, switched⟩ | ⟨kept, _⟩
  · rw [switched]
    by_cases atNext : slot = next
    · subst atNext
      simp only [switchTo, modifyTask, setTask_tasks, Function.update_self,
        Function.update_of_ne differs, ready]
      refine ⟨trivial, fun state notReady notRunning => ?_⟩
      constructor
      · intro equal
        exact absurd equal.symm notRunning
      · intro equal
        exact absurd equal.symm notReady
    · by_cases atCurrent : slot = k.current
      · subst atCurrent
        simp only [switchTo, modifyTask, setTask_tasks, Function.update_of_ne atNext,
          Function.update_self, park]
        refine ⟨trivial, fun state notReady notRunning => ?_⟩
        split_ifs with runnable
        · constructor
          · intro equal
            exact absurd equal.symm notReady
          · rintro rfl
            rcases runnable with running | ready
            · exact absurd running notRunning
            · exact absurd ready notReady
        · exact Iff.rfl
      · have same : (switchTo (k.modifyTask k.current park) next).tasks slot = k.tasks slot := by
          simp only [switchTo, modifyTask, setTask_tasks, Function.update_of_ne atNext,
            Function.update_of_ne atCurrent]
        rw [same]
        exact ⟨rfl, fun _ _ _ => Iff.rfl⟩
  · rw [kept]
    exact ⟨rfl, fun _ _ _ => Iff.rfl⟩

/-- The task that runs after a context switch is alive if the one before was. -/
theorem reschedule_alive {k : Kernel} (alive : (k.tasks k.current).Alive) :
    (k.reschedule.tasks k.reschedule.current).Alive := by
  rcases k.reschedule_cases with ⟨next, _, _, switched⟩ | ⟨kept, _⟩
  · rw [switched]
    simp [switchTo, modifyTask, Task.Alive]
  · rw [kept]
    exact alive

section Frame

/-! Everything that a context switch leaves alone. -/

variable (k : Kernel) (slot : Slot)

@[simp] theorem reschedule_id : (k.reschedule.tasks slot).id = (k.tasks slot).id := by
  rw [(k.reschedule_task slot).1]

@[simp] theorem reschedule_ipcPartner :
    (k.reschedule.tasks slot).ipcPartner = (k.tasks slot).ipcPartner := by
  rw [(k.reschedule_task slot).1]

@[simp] theorem reschedule_ipcVal :
    (k.reschedule.tasks slot).ipcVal = (k.tasks slot).ipcVal := by
  rw [(k.reschedule_task slot).1]

@[simp] theorem reschedule_ipcMsg :
    (k.reschedule.tasks slot).ipcMsg = (k.tasks slot).ipcMsg := by
  rw [(k.reschedule_task slot).1]

@[simp] theorem reschedule_pendingMsg :
    (k.reschedule.tasks slot).pendingMsg = (k.tasks slot).pendingMsg := by
  rw [(k.reschedule_task slot).1]

@[simp] theorem reschedule_parentId :
    (k.reschedule.tasks slot).parentId = (k.tasks slot).parentId := by
  rw [(k.reschedule_task slot).1]

@[simp] theorem reschedule_exitStatus :
    (k.reschedule.tasks slot).exitStatus = (k.tasks slot).exitStatus := by
  rw [(k.reschedule_task slot).1]

@[simp] theorem reschedule_blockedSend :
    (k.reschedule.tasks slot).state = .blockedSend ↔ (k.tasks slot).state = .blockedSend :=
  (k.reschedule_task slot).2 .blockedSend (by decide) (by decide)

@[simp] theorem reschedule_blockedRecv :
    (k.reschedule.tasks slot).state = .blockedRecv ↔ (k.tasks slot).state = .blockedRecv :=
  (k.reschedule_task slot).2 .blockedRecv (by decide) (by decide)

@[simp] theorem reschedule_exited :
    (k.reschedule.tasks slot).state = .exited ↔ (k.tasks slot).state = .exited :=
  (k.reschedule_task slot).2 .exited (by decide) (by decide)

@[simp] theorem reschedule_free :
    (k.reschedule.tasks slot).state = .free ↔ (k.tasks slot).state = .free :=
  (k.reschedule_task slot).2 .free (by decide) (by decide)

/-- A task can run after a context switch if it could before. -/
theorem reschedule_runnable :
    ((k.reschedule.tasks slot).state = .ready ∨ (k.reschedule.tasks slot).state = .running) ↔
      ((k.tasks slot).state = .ready ∨ (k.tasks slot).state = .running) := by
  have kept := (k.reschedule_task slot).2
  have runnable : ∀ state : TaskState, (state = .ready ∨ state = .running) ↔
      state ≠ .free ∧ state ≠ .exited ∧ state ≠ .blockedSend ∧ state ≠ .blockedRecv := by
    intro state
    cases state <;> simp
  rw [runnable, runnable, ne_eq, ne_eq, ne_eq, ne_eq,
    kept .free (by decide) (by decide), kept .exited (by decide) (by decide),
    kept .blockedSend (by decide) (by decide), kept .blockedRecv (by decide) (by decide)]

private theorem reschedule_other {α : Type} (read : Kernel → α)
    (frame : ∀ (k : Kernel) tasks current, read { k with tasks := tasks, current := current } = read k) :
    read k.reschedule = read k := by
  rcases k.reschedule_cases with ⟨next, _, _, switched⟩ | ⟨kept, _⟩
  · rw [switched]
    exact frame k _ _
  · rw [kept]

@[simp] theorem reschedule_nextId : k.reschedule.nextId = k.nextId :=
  k.reschedule_other Kernel.nextId fun _ _ _ => rfl

@[simp] theorem reschedule_pending : k.reschedule.pending = k.pending :=
  k.reschedule_other Kernel.pending fun _ _ _ => rfl

@[simp] theorem reschedule_phys : k.reschedule.phys = k.phys :=
  k.reschedule_other Kernel.phys fun _ _ _ => rfl

@[simp] theorem reschedule_kernelPml4 : k.reschedule.kernelPml4 = k.kernelPml4 :=
  k.reschedule_other Kernel.kernelPml4 fun _ _ _ => rfl

@[simp] theorem reschedule_frames : k.reschedule.frames = k.frames :=
  k.reschedule_other Kernel.frames fun _ _ _ => rfl

@[simp] theorem reschedule_halted : k.reschedule.halted = k.halted :=
  k.reschedule_other Kernel.halted fun _ _ _ => rfl

end Frame

end DBSos.Kernel
