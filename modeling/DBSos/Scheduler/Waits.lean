import DBSos.System
import DBSos.Lib.Trace

/-!
# Waiting for children over whole runs

`Waits` is the kernel with two records: for a task inside `SYS_WAITPID`, the
first matching child that exited during the call, and the calls that have
returned. A call is right when it reports one matching child that has exited and
frees that child's slot and no other.

The blocking path looks only at `ipc_val`, so a call is right when nothing but
the exit of a matching child touches a waiting task and the child's id is the
number of its slot.
-/

namespace DBSos

open DBSos.Abi DBSos.Scheduler

/-- A child that has exited. -/
structure Child where
  slot : Slot
  id : Nat
  status : BitVec 32
deriving DecidableEq

/-- A call of `SYS_WAITPID` that has returned: the kernel around its last step,
and the matching children that had exited. -/
structure Outcome where
  before : Kernel
  after : Kernel
  statusPtr : BitVec 64
  candidates : List Child
  result : Kernel.Waited

structure Waits where
  kernel : Kernel
  exited : Slot → Option Child
  outcomes : List Outcome

namespace Kernel

/-- The task is inside `SYS_WAITPID` for this pid. -/
def Awaiting (k : Kernel) (slot : Slot) (pid : Nat) : Prop :=
  ∃ statusPtr, k.frames slot = .waitpid pid statusPtr

instance (k : Kernel) (slot : Slot) (property : Nat → Prop) [DecidablePred property] :
    Decidable (∀ pid, k.Awaiting slot pid → property pid) :=
  match frame : k.frames slot with
  | .waitpid pid _ => decidable_of_iff (property pid) (by simp [Awaiting, frame])
  | .outside | .sendWithCap | .recvWithCap | .ipcSend | .ipcRecv =>
    isTrue (by simp [Awaiting, frame])

instance (k : Kernel) (slot : Slot) : Decidable (∀ pid, ¬ k.Awaiting slot pid) :=
  inferInstanceAs (Decidable (∀ pid, k.Awaiting slot pid → False))

/-- The child is one the caller waits for. -/
def IsChild (t : Task) (parent pid : Nat) : Prop := t.parentId = parent ∧ (pid = 0 ∨ t.id = pid)

instance (t : Task) (parent pid : Nat) : Decidable (IsChild t parent pid) :=
  inferInstanceAs (Decidable (_ ∧ _))

/-- The matching children of the current task that have exited. -/
def exitedChildren (k : Kernel) (pid : Nat) : List Child :=
  (List.finRange maxTasks).filterMap fun slot =>
    let t := k.tasks slot
    if IsChild t k.currentTask.id pid ∧ t.state = .exited then some ⟨slot, t.id, t.exitStatus⟩
    else none

end Kernel

namespace Outcome

/-- The slots freed by the call. -/
def Frees (o : Outcome) (slot : Slot) : Prop :=
  (o.before.tasks slot).state ≠ .free ∧ (o.after.tasks slot).state = .free

/-- The call reports this child and frees its slot alone. -/
def Reports (o : Outcome) (child : Child) : Prop :=
  o.result.value = child.id ∧
    o.result.status = (if o.statusPtr ≠ 0#64 then some (o.statusPtr, child.status) else none) ∧
    ∀ slot, o.Frees slot ↔ slot = child.slot

/-- Only children of the caller are reaped, and one is reported if one has exited. -/
structure Right (o : Outcome) : Prop where
  own : ∀ slot, o.Frees slot → (o.before.tasks slot).parentId = o.before.currentTask.id
  reported : o.candidates ≠ [] → ∃ child ∈ o.candidates, o.Reports child

end Outcome

namespace Waits

/-- The exit of the current task, seen by a task inside `SYS_WAITPID`. -/
def noteExit (w : Waits) (status : BitVec 32) (slot : Slot) : Option Child :=
  match w.exited slot, w.kernel.frames slot with
  | none, .waitpid pid _ =>
    if Kernel.IsChild w.kernel.currentTask (w.kernel.tasks slot).id pid then
      some ⟨w.kernel.current, w.kernel.currentTask.id, status⟩
    else none
  | noted, _ => noted

/-- The call that this step completes. -/
def completed (w : Waits) : Action → Kernel → Option Outcome
  | .waitpid pid statusPtr, after =>
    match w.kernel.waitpid pid statusPtr with
    | .ret _ result => some ⟨w.kernel, after, statusPtr, w.kernel.exitedChildren pid, result⟩
    | .yield _ _ => none
  | .resume, after =>
    match w.kernel.frames w.kernel.current with
    | .waitpid _ statusPtr =>
      some ⟨w.kernel, after, statusPtr, (w.exited w.kernel.current).toList,
        (w.kernel.setFrame .outside).resumeWaitpid statusPtr |>.2⟩
    | _ => none
  | _, _ => none

/-- One step of the kernel, with its records. -/
def step (w : Waits) (action : Action) : Option Waits :=
  (w.kernel.step action).map fun after =>
    { kernel := after
      exited :=
        match action with
        | .exit status => w.noteExit status
        | .resume => Function.update w.exited w.kernel.current none
        | _ => w.exited
      outcomes := w.outcomes ++ (w.completed action after).toList }

def Steps (w : Waits) (action : Action) (w' : Waits) : Prop := w.step action = some w'

/-- Every call that has returned was right, and a matching child that exits
makes the task that waits for it runnable. -/
structure Good (w : Waits) : Prop where
  right : ∀ o ∈ w.outcomes, o.Right
  woken : ∀ slot, w.exited slot ≠ none →
    (w.kernel.tasks slot).state = .ready ∨ (w.kernel.tasks slot).state = .running

/-- The step respects the tasks inside `SYS_WAITPID`. A call blocks only when
another task can run. No send is delivered to a waiting task. A task that exits
while its parent waits is a child the parent waits for, and its id is the number
of its slot. -/
def Orderly (k : Kernel) : Action → Prop
  | .waitpid pid _ => k.exitedChild pid = none →
      ∃ slot, slot ≠ k.current ∧ (k.tasks slot).state = .ready
  | .send capIdx _ => ∀ dst, (∃ cap, k.CanSend capIdx cap dst) →
      Kernel.Awaits (k.tasks dst) k.currentTask.id → ∀ pid, ¬ k.Awaiting dst pid
  | .ipcSend dstId _ => ∀ dst, k.findTask dstId = some dst →
      Kernel.Matches (k.tasks dst) .blockedRecv k.currentTask.id → ∀ pid, ¬ k.Awaiting dst pid
  | .exit _ => ∀ slot pid, k.Awaiting slot pid → (k.tasks slot).state = .blockedRecv →
      (k.tasks slot).id = k.currentTask.parentId →
        if k.currentTask.parentId = 0 then ¬ Kernel.IsChild k.currentTask 0 pid
        else Kernel.IsChild k.currentTask k.currentTask.parentId pid ∧
          k.currentTask.id = k.current.val
  | _ => True

instance (k : Kernel) : (action : Action) → Decidable (Orderly k action)
  | .waitpid _ _ => inferInstanceAs (Decidable (_ → ∃ _, _))
  | .send _ _ => inferInstanceAs (Decidable (∀ _, _ → _ → _))
  | .ipcSend _ _ => inferInstanceAs (Decidable (∀ _, _ → _ → _))
  | .exit _ => inferInstanceAs (Decidable (∀ slot pid, k.Awaiting slot pid → _ → _ → _))
  | .tick | .resume | .recv _ | .ipcRecv _ | .spawn | .spawnUser _ | .sysFork | .fork _
  | .capAlloc _ | .capAllocFor _ _ | .capDuplicate _ _ | .capTransfer _ _ =>
    inferInstanceAs (Decidable True)

/-- A kernel in which no call is unfinished; ids come from `NEXT_ID`. -/
structure Ready (k : Kernel) : Prop where
  outside : ∀ slot, k.frames slot = .outside
  distinct : ∀ slot other, (k.tasks slot).state ≠ .free → (k.tasks other).state ≠ .free →
    (k.tasks slot).id = (k.tasks other).id → slot = other
  bounded : ∀ slot, (k.tasks slot).state ≠ .free → (k.tasks slot).id < k.nextId
  awake : k.currentTask.Alive

def initial (k : Kernel) : Waits := ⟨k, fun _ => none, []⟩

/-! ## The invariant -/

variable {w : Waits}

/-- The task waits and no matching child has exited. -/
def Pending (exited : Slot → Option Child) (tasks : Slot → Task) (slot : Slot) : Prop :=
  exited slot = none ∧ (tasks slot).state = .blockedRecv

/-- The task has been woken by this child, and the slot it will look at is the
child's. -/
structure Due (exited : Slot → Option Child) (tasks : Slot → Task) (slot : Slot) (child : Child) :
    Prop where
  noted : exited slot = some child
  runnable : (tasks slot).state = .ready ∨ (tasks slot).state = .running
  named : (tasks slot).ipcVal = child.slot.val
  zombie : (tasks child.slot).state = .exited
  id : (tasks child.slot).id = child.id
  status : (tasks child.slot).exitStatus = child.status
  own : (tasks child.slot).parentId = (tasks slot).id

/-- What holds in every state, also in the middle of a call. -/
structure Core (w : Waits) : Prop where
  awake : w.kernel.halted = false → (w.kernel.tasks w.kernel.current).Alive
  distinct : ∀ slot other, (w.kernel.tasks slot).state ≠ .free →
    (w.kernel.tasks other).state ≠ .free →
    (w.kernel.tasks slot).id = (w.kernel.tasks other).id → slot = other
  bounded : ∀ slot, (w.kernel.tasks slot).state ≠ .free → (w.kernel.tasks slot).id < w.kernel.nextId
  quiet : ∀ slot, (∀ pid, ¬ w.kernel.Awaiting slot pid) → w.exited slot = none
  waiting : ∀ slot pid, w.kernel.Awaiting slot pid →
    Pending w.exited w.kernel.tasks slot ∨ ∃ child, Due w.exited w.kernel.tasks slot child
  right : ∀ o ∈ w.outcomes, o.Right

/-- Between steps a task inside `SYS_WAITPID` runs only once it is due. -/
structure Inv (w : Waits) : Prop extends Core w where
  current : ∀ pid, w.kernel.Awaiting w.kernel.current pid →
    ∃ child, Due w.exited w.kernel.tasks w.kernel.current child

theorem Inv.good (inv : Inv w) : Good w where
  right := inv.right
  woken := by
    intro slot noted
    by_cases waits : ∃ pid, w.kernel.Awaiting slot pid
    · obtain ⟨pid, awaiting⟩ := waits
      rcases inv.waiting slot pid awaiting with ⟨unnoted, _⟩ | ⟨child, due⟩
      · exact absurd unnoted noted
      · exact due.runnable
    · exact absurd (inv.quiet slot fun pid awaiting => waits ⟨pid, awaiting⟩) noted

theorem inv_initial {k : Kernel} (ready : Ready k) : Inv (initial k) where
  awake := fun _ => ready.awake
  distinct := ready.distinct
  bounded := ready.bounded
  quiet := fun _ _ => rfl
  waiting := by
    rintro slot pid ⟨statusPtr, frame⟩
    simp [initial, ready.outside] at frame
  current := by
    rintro pid ⟨statusPtr, frame⟩
    simp [initial, ready.outside] at frame
  right := by simp [initial]

/-- A task that is due stays due while its record and the child's keep what
matters to it. -/
theorem Due.congr {exited : Slot → Option Child} {tasks tasks' : Slot → Task} {slot : Slot}
    {child : Child} (due : Due exited tasks slot child)
    (runnable : (tasks' slot).state = .ready ∨ (tasks' slot).state = .running)
    (named : (tasks' slot).ipcVal = (tasks slot).ipcVal)
    (id : (tasks' slot).id = (tasks slot).id)
    (zombie : (tasks' child.slot).state = .exited)
    (record : (tasks' child.slot).id = (tasks child.slot).id ∧
      (tasks' child.slot).exitStatus = (tasks child.slot).exitStatus ∧
      (tasks' child.slot).parentId = (tasks child.slot).parentId) :
    Due exited tasks' slot child where
  noted := due.noted
  runnable := runnable
  named := named.trans due.named
  zombie := zombie
  id := record.1.trans due.id
  status := record.2.1.trans due.status
  own := record.2.2.trans (due.own.trans id.symm)

theorem Due.edit {exited : Slot → Option Child} {k : Kernel} {waiter slot : Slot} {t : Task}
    {child : Child} (due : Due exited k.tasks waiter child) (differs : waiter ≠ slot)
    (alive : (k.tasks slot).Alive) : Due exited (k.setTask slot t).tasks waiter child := by
  have elsewhere : child.slot ≠ slot := by
    rintro rfl
    exact alive.2 due.zombie
  exact due.congr (by simpa [differs] using due.runnable) (by simp [differs]) (by simp [differs])
    (by simpa [elsewhere] using due.zombie) (by simp [elsewhere])

/-! ## Steps that leave waiting tasks alone -/

/-- A change of `PENDING`, capabilities or memory. -/
theorem Inv.same (inv : Inv w) {k : Kernel} (tasks : k.tasks = w.kernel.tasks)
    (current : k.current = w.kernel.current) (nextId : k.nextId = w.kernel.nextId)
    (frames : k.frames = w.kernel.frames) (halted : k.halted = w.kernel.halted) :
    Inv { w with kernel := k } := by
  obtain ⟨⟨awake, distinct, bounded, quiet, waiting, right⟩, atCurrent⟩ := inv
  refine ⟨⟨?_, ?_, ?_, ?_, ?_, right⟩, ?_⟩ <;>
    simp only [Kernel.Awaiting, tasks, current, nextId, frames, halted] <;> assumption

/-- A living task that is not inside `SYS_WAITPID` is given another living record. -/
theorem Core.edit (core : Core w) {slot : Slot} {t : Task}
    (idle : ∀ pid, ¬ w.kernel.Awaiting slot pid) (alive : (w.kernel.tasks slot).Alive)
    (live : t.Alive) (same : t.id = (w.kernel.tasks slot).id) :
    Core { w with kernel := w.kernel.setTask slot t } := by
  have used : ∀ one, ((w.kernel.setTask slot t).tasks one).state ≠ .free →
      (w.kernel.tasks one).state ≠ .free := by
    intro one
    by_cases here : one = slot
    · simp [here, alive.1]
    · simp [here]
  have ids : ∀ one, ((w.kernel.setTask slot t).tasks one).id = (w.kernel.tasks one).id := by
    intro one
    by_cases here : one = slot <;> simp [here, same]
  refine ⟨fun running => ?_, fun one two first second => ?_, fun one first => ?_, core.quiet,
    fun waiter pid awaiting => ?_, core.right⟩
  · by_cases here : w.kernel.current = slot
    · simpa [here] using live
    · simpa [here] using core.awake running
  · rw [ids, ids]
    exact core.distinct one two (used one first) (used two second)
  · rw [ids]
    exact core.bounded one (used one first)
  · have differs : waiter ≠ slot := by
      rintro rfl
      exact idle pid awaiting
    rcases core.waiting waiter pid awaiting with ⟨unnoted, blocked⟩ | ⟨child, due⟩
    · exact .inl ⟨unnoted, by simpa [differs] using blocked⟩
    · exact .inr ⟨child, due.edit differs alive⟩

theorem Inv.edit (inv : Inv w) {slot : Slot} {t : Task}
    (idle : ∀ pid, ¬ w.kernel.Awaiting slot pid) (alive : (w.kernel.tasks slot).Alive)
    (live : t.Alive) (same : t.id = (w.kernel.tasks slot).id) :
    Inv { w with kernel := w.kernel.setTask slot t } := by
  refine ⟨inv.toCore.edit idle alive live same, fun pid awaiting => ?_⟩
  have differs : w.kernel.current ≠ slot := by
    intro here
    exact idle pid (here ▸ awaiting)
  obtain ⟨child, due⟩ := inv.current pid awaiting
  exact ⟨child, due.edit differs alive⟩

/-- A context switch. It leaves a task that has just blocked in `SYS_WAITPID`
only if another one is ready. -/
theorem Core.reschedule (core : Core w)
    (alive : (w.kernel.tasks w.kernel.current).Alive)
    (current : ∀ pid, w.kernel.Awaiting w.kernel.current pid →
      (∃ child, Due w.exited w.kernel.tasks w.kernel.current child) ∨
        ∃ slot, slot ≠ w.kernel.current ∧ (w.kernel.tasks slot).state = .ready) :
    Inv { w with kernel := w.kernel.reschedule } := by
  have due : ∀ {slot child}, Due w.exited w.kernel.tasks slot child →
      Due w.exited w.kernel.reschedule.tasks slot child := fun isDue =>
    isDue.congr ((w.kernel.reschedule_runnable _).mpr isDue.runnable) (by simp) (by simp)
      (by simpa using isDue.zombie) (by simp)
  have frames : ∀ slot pid, w.kernel.reschedule.Awaiting slot pid ↔ w.kernel.Awaiting slot pid := by
    simp [Kernel.Awaiting]
  refine ⟨⟨fun _ => Kernel.reschedule_alive alive, ?_, ?_, ?_, ?_, core.right⟩, ?_⟩
  · intro one two first second
    rw [Kernel.reschedule_id, Kernel.reschedule_id]
    exact core.distinct one two (by simpa using first) (by simpa using second)
  · intro one first
    rw [Kernel.reschedule_id, Kernel.reschedule_nextId]
    exact core.bounded one (by simpa using first)
  · intro slot none
    exact core.quiet slot fun pid awaiting => none pid ((frames slot pid).mpr awaiting)
  · intro slot pid awaiting
    rcases core.waiting slot pid ((frames slot pid).mp awaiting) with ⟨unnoted, blocked⟩ | ⟨child, isDue⟩
    · exact .inl ⟨unnoted, by simpa using blocked⟩
    · exact .inr ⟨child, due isDue⟩
  · intro pid awaiting
    have before := (frames _ pid).mp awaiting
    rcases w.kernel.reschedule_cases with ⟨next, _, ready, switched⟩ | ⟨kept, idle⟩
    · have isNext : w.kernel.reschedule.current = next := by rw [switched]; rfl
      simp only [isNext] at before ⊢
      rcases core.waiting next pid before with ⟨_, blocked⟩ | ⟨child, isDue⟩
      · rw [ready] at blocked
        cases blocked
      · exact ⟨child, due isDue⟩
    · simp only [kept] at before ⊢
      rcases current pid before with isDue | ⟨slot, other, ready⟩
      · exact isDue
      · exact absurd ready (idle slot other)

/-- The current task, which is not inside `SYS_WAITPID`, leaves or enters another
call. -/
theorem Core.frame (core : Core w) {frame : Frame}
    (idle : ∀ pid, ¬ w.kernel.Awaiting w.kernel.current pid)
    (other : ∀ pid statusPtr, frame ≠ .waitpid pid statusPtr) :
    Core { w with kernel := w.kernel.setFrame frame } ∧
      ∀ pid, ¬ (w.kernel.setFrame frame).Awaiting w.kernel.current pid := by
  have frames : ∀ slot pid, (w.kernel.setFrame frame).Awaiting slot pid ↔
      w.kernel.Awaiting slot pid := by
    intro slot pid
    by_cases here : slot = w.kernel.current
    · subst here
      refine ⟨?_, fun awaiting => absurd awaiting (idle pid)⟩
      rintro ⟨statusPtr, equal⟩
      exact absurd (by simpa [Kernel.setFrame] using equal) (other pid statusPtr)
    · simp [Kernel.Awaiting, Kernel.setFrame, here]
  refine ⟨⟨core.awake, core.distinct, core.bounded, ?_, ?_, core.right⟩, ?_⟩
  · intro slot none
    exact core.quiet slot fun pid awaiting => none pid ((frames slot pid).mpr awaiting)
  · intro slot pid awaiting
    exact core.waiting slot pid ((frames slot pid).mp awaiting)
  · intro pid awaiting
    exact idle pid ((frames _ pid).mp awaiting)

/-- A free slot is nobody's place to wait. -/
theorem Core.vacant_idle (core : Core w) {slot : Slot}
    (vacant : (w.kernel.tasks slot).state = .free) (pid : Nat) : ¬ w.kernel.Awaiting slot pid := by
  intro awaiting
  rcases core.waiting slot pid awaiting with ⟨_, blocked⟩ | ⟨child, due⟩
  · rw [vacant] at blocked
    cases blocked
  · rcases due.runnable with ready | running
    · rw [vacant] at ready
      cases ready
    · rw [vacant] at running
      cases running

/-- A new task fills a free slot, under an id above every id in use. -/
theorem Inv.install (inv : Inv w) {k' : Kernel} {slot : Slot} {t : Task}
    (vacant : (w.kernel.tasks slot).state = .free) (newborn : Kernel.Newborn t w.kernel.nextId)
    (tasks : k'.tasks = Function.update w.kernel.tasks slot t)
    (frames : k'.frames = Function.update w.kernel.frames slot .outside)
    (current : k'.current = w.kernel.current) (nextId : k'.nextId = w.kernel.nextId + 1)
    (halted : k'.halted = w.kernel.halted) : Inv { w with kernel := k' } := by
  have awaits : ∀ {one pid}, k'.Awaiting one pid ↔ one ≠ slot ∧ w.kernel.Awaiting one pid := by
    intro one pid
    by_cases here : one = slot
    · simp [Kernel.Awaiting, frames, here]
    · simp [Kernel.Awaiting, frames, here]
  have due : ∀ {waiter child}, waiter ≠ slot → Due w.exited w.kernel.tasks waiter child →
      Due w.exited k'.tasks waiter child := by
    intro waiter child differs due
    have elsewhere : child.slot ≠ slot := by
      rintro rfl
      rw [due.zombie] at vacant
      cases vacant
    rw [tasks]
    exact due.congr (by simpa [differs] using due.runnable) (by simp [differs])
      (by simp [differs]) (by simpa [elsewhere] using due.zombie) (by simp [elsewhere])
  have old : ∀ {one}, one ≠ slot → (k'.tasks one).state ≠ .free →
      k'.tasks one = w.kernel.tasks one ∧ (k'.tasks one).id < w.kernel.nextId := by
    intro one differs used
    rw [tasks, Function.update_of_ne differs] at used ⊢
    exact ⟨rfl, inv.bounded one used⟩
  have new : (k'.tasks slot).id = w.kernel.nextId := by simp [tasks, newborn.id]
  refine ⟨⟨fun running => ?_, fun one two first second equal => ?_, fun one used => ?_,
    fun one none => ?_, fun one pid awaiting => ?_, inv.right⟩, fun pid awaiting => ?_⟩
  · simp only [current, tasks]
    by_cases here : w.kernel.current = slot
    · simp [here, Task.Alive, newborn.state]
    · simpa [here] using inv.awake (halted ▸ running)
  · by_cases one' : one = slot
    · by_cases two' : two = slot
      · rw [one', two']
      · have below := (old two' second).2
        rw [← equal, one', new] at below
        omega
    · by_cases two' : two = slot
      · have below := (old one' first).2
        rw [equal, two', new] at below
        omega
      · simp only [(old one' first).1, (old two' second).1] at first second equal
        exact inv.distinct one two first second equal
  · simp only [nextId]
    by_cases here : one = slot
    · rw [here, new]
      exact Nat.lt_succ_self _
    · exact Nat.lt_succ_of_lt (old here used).2
  · refine inv.quiet one fun pid awaiting => ?_
    by_cases here : one = slot
    · subst here
      exact inv.vacant_idle vacant pid awaiting
    · exact none pid (awaits.mpr ⟨here, awaiting⟩)
  · obtain ⟨differs, before⟩ := awaits.mp awaiting
    rcases inv.waiting one pid before with ⟨unnoted, blocked⟩ | ⟨child, isDue⟩
    · exact .inl ⟨unnoted, by simpa [tasks, differs] using blocked⟩
    · exact .inr ⟨child, due differs isDue⟩
  · simp only [current] at awaiting ⊢
    obtain ⟨differs, before⟩ := awaits.mp awaiting
    obtain ⟨child, isDue⟩ := inv.current pid before
    exact ⟨child, due differs isDue⟩

theorem Inv.creates (inv : Inv w) {result : Kernel × Option Nat} (creates : w.kernel.Creates result) :
    Inv { w with kernel := result.1 } := by
  rcases creates with ⟨phys, rfl⟩ | ⟨slot, t, phys, free, newborn, rfl⟩
  · exact inv.same rfl rfl rfl rfl rfl
  · exact inv.install (Kernel.freeSlot_some free) newborn rfl rfl rfl rfl rfl

/-- A task that is current and outside any call waits for nobody. -/
theorem idle_of_outside {k : Kernel} {slot : Slot} (outside : k.frames slot = .outside) (pid : Nat) :
    ¬ k.Awaiting slot pid := by
  rintro ⟨statusPtr, frame⟩
  rw [outside] at frame
  cases frame

/-- The current task, in no call, blocks in one that is not `SYS_WAITPID`. -/
theorem Inv.park (inv : Inv w) (running : w.kernel.halted = false) {t : Task} {frame : Frame}
    (outside : w.kernel.frames w.kernel.current = .outside) (live : t.Alive)
    (same : t.id = (w.kernel.tasks w.kernel.current).id)
    (other : ∀ pid statusPtr, frame ≠ .waitpid pid statusPtr) :
    Inv { w with kernel := (w.kernel.setTask w.kernel.current t).suspend frame } := by
  have edited := inv.toCore.edit (idle_of_outside outside) (inv.awake running) live same
  obtain ⟨framed, idle⟩ := edited.frame (idle_of_outside outside) other
  exact framed.reschedule (by simpa using live) fun pid awaiting => absurd awaiting (idle pid)

/-- The current task, in no call, gets another living record. -/
theorem Inv.self (inv : Inv w) (running : w.kernel.halted = false) {t : Task}
    (outside : w.kernel.frames w.kernel.current = .outside) (live : t.Alive)
    (same : t.id = (w.kernel.tasks w.kernel.current).id) :
    Inv { w with kernel := w.kernel.setTask w.kernel.current t } :=
  inv.edit (idle_of_outside outside) (inv.awake running) live same

/-! ## Calls that pass messages or grant capabilities -/

theorem Inv.send (inv : Inv w) (running : w.kernel.halted = false)
    (outside : w.kernel.frames w.kernel.current = .outside) {capIdx : Nat} {msg : Message}
    (orderly : Orderly w.kernel (.send capIdx msg)) :
    Inv { w with kernel := (w.kernel.sendWithCap capIdx msg).settle } := by
  rcases w.kernel.sendWithCap_cases capIdx msg with
    ⟨_, code, _, refused⟩ | ⟨cap, dst, can, ⟨_, taken⟩ | ⟨_, waits, taken⟩ | ⟨_, _, taken⟩⟩
  · rw [refused]
    exact inv
  · rw [taken]
    exact inv.same rfl rfl rfl rfl rfl
  · rw [taken, Kernel.wakeAndDeliver_eq]
    exact inv.edit (orderly dst ⟨cap, can⟩ waits) (by simp [Task.Alive, waits.1])
      (by simp [Task.Alive]) rfl
  · rw [taken]
    exact inv.park running outside (by simp [Task.Alive]) rfl (by simp)

/-- A task in a blocked send is not inside `SYS_WAITPID`. -/
theorem Inv.sender_idle (inv : Inv w) {sender : Slot}
    (blocked : (w.kernel.tasks sender).state = .blockedSend) (pid : Nat) :
    ¬ w.kernel.Awaiting sender pid := by
  intro awaiting
  rcases inv.waiting sender pid awaiting with ⟨_, waits⟩ | ⟨child, due⟩
  · rw [blocked] at waits
    cases waits
  · rcases due.runnable with ready | run
    · rw [blocked] at ready
      cases ready
    · rw [blocked] at run
      cases run

/-- A receive wakes a blocked sender. -/
theorem Inv.wakeSender (inv : Inv w) {sender : Slot}
    (blocked : (w.kernel.tasks sender).state = .blockedSend) :
    Inv { w with kernel := w.kernel.modifyTask sender fun t => { t with state := .ready } } :=
  inv.edit (inv.sender_idle blocked) (by simp [Task.Alive, blocked]) (by simp [Task.Alive]) rfl

theorem Inv.recv (inv : Inv w) (running : w.kernel.halted = false)
    (outside : w.kernel.frames w.kernel.current = .outside) {capIdx : Nat} :
    Inv { w with kernel := (w.kernel.recvWithCap capIdx).settle } := by
  have alive := inv.awake running
  rcases w.kernel.recvWithCap_cases capIdx with
    ⟨_, code, _, refused⟩ | ⟨_, ⟨_, taken⟩ | ⟨_, ⟨sender, found, taken⟩ | ⟨_, _, taken⟩ |
      ⟨_, _, taken⟩⟩⟩
  · rw [refused]
    exact inv
  · rw [taken]
    exact inv.same rfl rfl rfl rfl rfl
  · rw [taken]
    exact inv.wakeSender (Kernel.findSender_some found).1
  · rw [taken]
    exact inv.self running outside (by simpa [Task.Alive] using alive) rfl
  · rw [taken]
    exact inv.park running outside (by simp [Task.Alive]) rfl (by simp)

theorem Inv.ipcSend (inv : Inv w) (running : w.kernel.halted = false)
    (outside : w.kernel.frames w.kernel.current = .outside) {dstId word : Nat}
    (orderly : Orderly w.kernel (.ipcSend dstId word)) :
    Inv { w with kernel := (w.kernel.ipcSend dstId word).settle } := by
  unfold Kernel.ipcSend
  cases found : w.kernel.findTask dstId with
  | none => exact inv
  | some dst =>
    by_cases waits : Kernel.Matches (w.kernel.tasks dst) .blockedRecv w.kernel.currentTask.id
    · simp only [waits, if_true]
      exact inv.edit (orderly dst found waits) (by simp [Task.Alive, waits.1])
        (by simp [Task.Alive]) rfl
    · simp only [waits, if_false]
      exact inv.park running outside (by simp [Task.Alive]) rfl (by simp)

theorem Inv.ipcRecv (inv : Inv w) (running : w.kernel.halted = false)
    (outside : w.kernel.frames w.kernel.current = .outside) {srcId : Nat} :
    Inv { w with kernel := (w.kernel.ipcRecv srcId).settle } := by
  unfold Kernel.ipcRecv
  cases found : w.kernel.matchRecv srcId with
  | none => exact inv.park running outside (by simp [Task.Alive]) rfl (by simp)
  | some src => exact inv.wakeSender (Kernel.matchRecv_some found).1

theorem Inv.allocIn (inv : Inv w) (slot : Slot) (cap : Cap) :
    Inv { w with kernel := (w.kernel.allocIn slot cap).1 } :=
  inv.same rfl rfl rfl rfl rfl

theorem Inv.grants (inv : Inv w) {taskId : Nat} {after : Kernel}
    (grants : w.kernel.Grants taskId after) : Inv { w with kernel := after } := by
  rcases grants with rfl | ⟨slot, cap, _, rfl⟩
  · exact inv
  · exact inv.allocIn slot cap

theorem Inv.capTransfer (inv : Inv w) {dstTaskId idx : Nat} :
    Inv { w with kernel := (w.kernel.capTransfer dstTaskId idx).1 } := by
  obtain ⟨granted, grants, taken | taken⟩ := w.kernel.capTransfer_grants dstTaskId idx
  · rw [taken]
    exact inv.grants grants
  · rw [taken]
    exact (inv.grants grants).same rfl rfl rfl rfl rfl

end Waits

end DBSos
