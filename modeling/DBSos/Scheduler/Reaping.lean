import DBSos.Scheduler.Waits

/-!
# Reaping

An orderly exit makes the waiting parent due to look at the child's slot, and an
orderly call of `SYS_WAITPID` reaps what it is due, at once or when it resumes.
-/

namespace DBSos.Waits

open DBSos.Abi DBSos.Lib DBSos.Scheduler

variable {w : Waits}

/-! ## Exits -/

/-- The exit of the current task, seen by the tasks that wait: each still waits
or is due, to the dying task or to an earlier one. -/
theorem Inv.markExited (inv : Inv w) (running : w.kernel.halted = false)
    (outside : w.kernel.frames w.kernel.current = .outside) {status : BitVec 32}
    (orderly : Orderly w.kernel (.exit status)) {slot : Slot} {pid : Nat}
    (awaiting : w.kernel.Awaiting slot pid) :
    Pending (w.noteExit status) (w.kernel.markExited status).tasks slot ∨
      ∃ child, Due (w.noteExit status) (w.kernel.markExited status).tasks slot child := by
  have alive := inv.awake running
  have differs : slot ≠ w.kernel.current := by
    rintro rfl
    exact idle_of_outside outside pid awaiting
  have dying := w.kernel.markExited_tasks status w.kernel.current
  rw [if_pos rfl] at dying
  have record := w.kernel.markExited_tasks status slot
  rw [if_neg differs] at record
  obtain ⟨statusPtr, frame⟩ := id awaiting
  rcases inv.waiting slot pid awaiting with ⟨unnoted, blocked⟩ | ⟨child, due⟩
  · have noted : w.noteExit status slot =
        if Kernel.IsChild w.kernel.currentTask (w.kernel.tasks slot).id pid then
          some ⟨w.kernel.current, w.kernel.currentTask.id, status⟩
        else none := by
      simp [noteExit, unnoted, frame]
    have rule := orderly slot pid awaiting blocked
    by_cases matched : Kernel.IsChild w.kernel.currentTask (w.kernel.tasks slot).id pid
    · -- a matching child: the parent wakes and looks at the child's slot
      rw [if_pos matched] at noted
      have parent := matched.1
      by_cases orphan : w.kernel.currentTask.parentId = 0
      · rw [if_pos orphan] at rule
        exact absurd (by rw [← orphan, parent]; exact matched) (rule parent.symm)
      · rw [if_neg orphan] at rule
        rw [if_pos ⟨orphan, parent.symm, blocked⟩] at record
        exact .inr ⟨_, {
          noted := noted
          runnable := by simp [record]
          named := by simp [record, (rule parent.symm).2]
          zombie := by simp [dying]
          id := by simp [dying]
          status := by simp [dying]
          own := by simp [dying, record, parent] }⟩
    · rw [if_neg matched] at noted
      refine .inl ⟨noted, ?_⟩
      rw [if_neg] at record
      · rw [record, blocked]
      · rintro ⟨orphan, parent, _⟩
        rw [if_neg orphan] at rule
        exact matched (parent ▸ (rule parent).1)
  · have noted : w.noteExit status slot = some child := by simp [noteExit, due.noted]
    have notWaiting : (w.kernel.tasks slot).state ≠ .blockedRecv := by
      rcases due.runnable with ready | run
      · simp [ready]
      · simp [run]
    rw [if_neg (fun woken => notWaiting woken.2.2)] at record
    have elsewhere : child.slot ≠ w.kernel.current := by
      intro here
      exact alive.2 (here ▸ due.zombie)
    have zombie := w.kernel.markExited_tasks status child.slot
    rw [if_neg elsewhere, if_neg (by simp [due.zombie])] at zombie
    exact .inr ⟨child, {
      noted := noted
      runnable := by rw [record]; exact due.runnable
      named := by rw [record]; exact due.named
      zombie := by rw [zombie]; exact due.zombie
      id := by rw [zombie]; exact due.id
      status := by rw [zombie]; exact due.status
      own := by rw [zombie, record]; exact due.own }⟩

/-- Being due survives the choice of the next task. -/
theorem Due.switchTo {exited : Slot → Option Child} {k : Kernel} {slot next : Slot} {child : Child}
    (due : Due exited k.tasks slot child) (ready : (k.tasks next).state = .ready) :
    Due exited (k.switchTo next).tasks slot child := by
  have elsewhere : child.slot ≠ next := by
    rintro rfl
    rw [due.zombie] at ready
    cases ready
  by_cases here : slot = next
  · exact due.congr (by simp [Kernel.switchTo, Kernel.modifyTask, here])
      (by simp [Kernel.switchTo, Kernel.modifyTask, here])
      (by simp [Kernel.switchTo, Kernel.modifyTask, here])
      (by simpa [Kernel.switchTo, Kernel.modifyTask, elsewhere] using due.zombie)
      (by simp [Kernel.switchTo, Kernel.modifyTask, elsewhere])
  · exact due.congr (by simpa [Kernel.switchTo, Kernel.modifyTask, here] using due.runnable)
      (by simp [Kernel.switchTo, Kernel.modifyTask, here])
      (by simp [Kernel.switchTo, Kernel.modifyTask, here])
      (by simpa [Kernel.switchTo, Kernel.modifyTask, elsewhere] using due.zombie)
      (by simp [Kernel.switchTo, Kernel.modifyTask, elsewhere])

theorem Inv.exit (inv : Inv w) (running : w.kernel.halted = false)
    (outside : w.kernel.frames w.kernel.current = .outside) {status : BitVec 32}
    (orderly : Orderly w.kernel (.exit status)) :
    Inv { w with kernel := w.kernel.exitWithStatus status, exited := w.noteExit status } := by
  have ids := fun slot => (w.kernel.exitWithStatus_task status slot).1
  have used := w.kernel.exitWithStatus_used (inv.awake running) status
  have frames : ∀ {slot pid}, (w.kernel.exitWithStatus status).Awaiting slot pid ↔
      w.kernel.Awaiting slot pid := by
    simp [Kernel.Awaiting]
  have marked : ∀ slot pid, (w.kernel.exitWithStatus status).Awaiting slot pid →
      Pending (w.noteExit status) (w.kernel.markExited status).tasks slot ∨
        ∃ child, Due (w.noteExit status) (w.kernel.markExited status).tasks slot child :=
    fun slot pid awaiting => inv.markExited running outside orderly (frames.mp awaiting)
  have distinct : ∀ slot other, ((w.kernel.exitWithStatus status).tasks slot).state ≠ .free →
      ((w.kernel.exitWithStatus status).tasks other).state ≠ .free →
      ((w.kernel.exitWithStatus status).tasks slot).id =
        ((w.kernel.exitWithStatus status).tasks other).id → slot = other := by
    intro one two first second
    rw [ids, ids]
    exact inv.distinct one two (used one first) (used two second)
  have bounded : ∀ slot, ((w.kernel.exitWithStatus status).tasks slot).state ≠ .free →
      ((w.kernel.exitWithStatus status).tasks slot).id <
        (w.kernel.exitWithStatus status).nextId := by
    intro one first
    rw [ids, Kernel.exitWithStatus_nextId]
    exact inv.bounded one (used one first)
  have quiet : ∀ slot, (∀ pid, ¬ (w.kernel.exitWithStatus status).Awaiting slot pid) →
      w.noteExit status slot = none := by
    intro slot none
    unfold noteExit
    rw [inv.quiet slot fun pid awaiting => none pid (frames.mpr awaiting)]
    split
    next pid statusPtr _ frame => exact absurd ⟨statusPtr, by simpa using frame⟩ (none pid)
    next => rfl
  rcases w.kernel.exitWithStatus_cases status with ⟨_, halts⟩ | ⟨next, _, ready, runs⟩
  · refine ⟨⟨?_, distinct, bounded, quiet, ?_, inv.right⟩, ?_⟩
    · simp [halts]
    · intro slot pid awaiting
      have either := marked slot pid awaiting
      rw [halts]
      exact either
    · intro pid awaiting
      refine absurd (frames.mp awaiting) ?_
      simpa [halts] using idle_of_outside outside pid
  · have isNext : (w.kernel.exitWithStatus status).current = next := by rw [runs]; rfl
    have tasks : (w.kernel.exitWithStatus status).tasks =
        ((w.kernel.markExited status).switchTo next).tasks := by rw [runs]
    refine ⟨⟨?_, distinct, bounded, quiet, ?_, inv.right⟩, ?_⟩
    · intro _
      simp only [isNext, tasks]
      simp [Kernel.switchTo, Kernel.modifyTask, Task.Alive]
    · intro slot pid awaiting
      simp only [tasks]
      rcases marked slot pid awaiting with ⟨unnoted, blocked⟩ | ⟨child, due⟩
      · have differs : slot ≠ next := by
          rintro rfl
          rw [ready] at blocked
          cases blocked
        exact .inl ⟨unnoted, by simpa [Kernel.switchTo, Kernel.modifyTask, differs] using blocked⟩
      · exact .inr ⟨child, due.switchTo ready⟩
    · intro pid awaiting
      simp only [isNext, tasks] at awaiting ⊢
      rcases marked next pid awaiting with ⟨_, blocked⟩ | ⟨child, due⟩
      · rw [ready] at blocked
        cases blocked
      · exact ⟨child, due.switchTo ready⟩

/-! ## Reaping -/

/-- A task is due to look at its own child only. -/
theorem Inv.due_own (inv : Inv w) {waiter slot : Slot} {child : Child}
    (due : Due w.exited w.kernel.tasks waiter child)
    (used : (w.kernel.tasks slot).state ≠ .free)
    (own : (w.kernel.tasks child.slot).parentId = (w.kernel.tasks slot).id) : waiter = slot := by
  refine inv.distinct waiter slot ?_ used (due.own.symm.trans own)
  rcases due.runnable with ready | run
  · simp [ready]
  · simp [run]

/-- A task that is due is inside `SYS_WAITPID`. -/
theorem Inv.not_due (inv : Inv w) {slot : Slot} (outside : w.kernel.frames slot = .outside)
    (child : Child) : ¬ Due w.exited w.kernel.tasks slot child := by
  intro due
  have none := inv.quiet slot (idle_of_outside outside)
  rw [due.noted] at none
  cases none

/-- The current task, in no call, reaps a child of its own. -/
theorem Inv.reap (inv : Inv w) (running : w.kernel.halted = false)
    (outside : w.kernel.frames w.kernel.current = .outside) {slot : Slot}
    (zombie : (w.kernel.tasks slot).state = .exited)
    (own : (w.kernel.tasks slot).parentId = w.kernel.currentTask.id) (statusPtr : BitVec 64) :
    Inv { w with kernel := (w.kernel.reap slot statusPtr).1 } := by
  have alive := inv.awake running
  have tasks : ∀ one, (w.kernel.reap slot statusPtr).1.tasks one =
      if one = slot then { w.kernel.tasks slot with state := .free } else w.kernel.tasks one := by
    intro one
    by_cases here : one = slot <;> simp [Kernel.reap, Kernel.modifyTask, here]
  have frames : ∀ {one pid}, (w.kernel.reap slot statusPtr).1.Awaiting one pid ↔
      w.kernel.Awaiting one pid := Iff.rfl
  have used : ∀ {one}, ((w.kernel.reap slot statusPtr).1.tasks one).state ≠ .free →
      (w.kernel.reap slot statusPtr).1.tasks one = w.kernel.tasks one := by
    intro one
    rw [tasks]
    split_ifs with here
    · simp
    · simp
  -- whoever else is due looks at another child
  have due : ∀ {waiter child}, Due w.exited w.kernel.tasks waiter child →
      Due w.exited (w.kernel.reap slot statusPtr).1.tasks waiter child := by
    intro waiter child isDue
    have elsewhere : child.slot ≠ slot := by
      rintro rfl
      have here := inv.due_own isDue alive.1 own
      exact inv.not_due outside child (here ▸ isDue)
    have differs : waiter ≠ slot := by
      rintro rfl
      rcases isDue.runnable with ready | run
      · rw [zombie] at ready
        cases ready
      · rw [zombie] at run
        cases run
    have kept := tasks waiter
    have keptChild := tasks child.slot
    rw [if_neg differs] at kept
    rw [if_neg elsewhere] at keptChild
    exact isDue.congr (kept ▸ isDue.runnable) (by rw [kept]) (by rw [kept])
      (keptChild ▸ isDue.zombie) (by rw [keptChild]; exact ⟨rfl, rfl, rfl⟩)
  refine ⟨⟨fun _ => ?_, fun one two first second => ?_, fun one first => ?_, inv.quiet,
    fun waiter pid awaiting => ?_, inv.right⟩, fun pid awaiting => ?_⟩
  · have differs : w.kernel.current ≠ slot := by
      rintro here
      exact alive.2 (here ▸ zombie)
    have kept := tasks w.kernel.current
    rw [if_neg differs] at kept
    exact kept ▸ alive
  · rw [used first, used second] at *
    exact inv.distinct one two first second
  · rw [used first] at *
    exact inv.bounded one first
  · rcases inv.waiting waiter pid (frames.mp awaiting) with ⟨unnoted, blocked⟩ | ⟨child, isDue⟩
    · have differs : waiter ≠ slot := by
        rintro rfl
        rw [zombie] at blocked
        cases blocked
      have kept := tasks waiter
      rw [if_neg differs] at kept
      exact .inl ⟨unnoted, kept ▸ blocked⟩
    · exact .inr ⟨child, due isDue⟩
  · obtain ⟨child, isDue⟩ := inv.current pid (frames.mp awaiting)
    exact ⟨child, due isDue⟩

/-- A call that reaps an exited child of the caller is right. -/
theorem right_of_reap {before k : Kernel} {child : Child} {statusPtr : BitVec 64}
    {candidates : List Child} (tasks : k.tasks = before.tasks)
    (zombie : (before.tasks child.slot).state = .exited)
    (id : (before.tasks child.slot).id = child.id)
    (status : (before.tasks child.slot).exitStatus = child.status)
    (own : (before.tasks child.slot).parentId = before.currentTask.id)
    (listed : child ∈ candidates) :
    Outcome.Right ⟨before, (k.reap child.slot statusPtr).1, statusPtr, candidates,
      (k.reap child.slot statusPtr).2⟩ := by
  have frees : ∀ slot, Outcome.Frees ⟨before, (k.reap child.slot statusPtr).1, statusPtr,
      candidates, (k.reap child.slot statusPtr).2⟩ slot ↔ slot = child.slot := by
    intro slot
    by_cases here : slot = child.slot
    · simp [Outcome.Frees, Kernel.reap, Kernel.modifyTask, here, zombie]
    · simp [Outcome.Frees, Kernel.reap, Kernel.modifyTask, here, tasks]
  refine ⟨fun slot freed => ?_, fun _ => ⟨child, listed, ?_, ?_, frees⟩⟩
  · rw [(frees slot).mp freed]
    exact own
  · simp [Kernel.reap, tasks, id]
  · simp [Kernel.reap, tasks, status]

theorem Inv.record (inv : Inv w) {o : Outcome} (right : o.Right) :
    Inv { w with outcomes := w.outcomes ++ [o] } := by
  refine ⟨⟨inv.awake, inv.distinct, inv.bounded, inv.quiet, inv.waiting, fun one member => ?_⟩,
    inv.current⟩
  rcases List.mem_append.mp member with earlier | last
  · exact inv.right one earlier
  · rw [List.mem_singleton.mp last]
    exact right

/-- What the search for an exited child finds. -/
theorem exitedChild_some {k : Kernel} {pid : Nat} {slot : Slot}
    (found : k.exitedChild pid = some slot) :
    Kernel.IsChild (k.tasks slot) k.currentTask.id pid ∧ (k.tasks slot).state = .exited := by
  have test := Kernel.findSlot_some found
  simp only [decide_eq_true_eq] at test
  exact ⟨⟨test.1, test.2.1⟩, test.2.2⟩

theorem mem_exitedChildren {k : Kernel} {pid : Nat} {slot : Slot}
    (found : k.exitedChild pid = some slot) :
    ⟨slot, (k.tasks slot).id, (k.tasks slot).exitStatus⟩ ∈ k.exitedChildren pid :=
  List.mem_filterMap.mpr ⟨slot, List.mem_finRange slot, if_pos (exitedChild_some found)⟩

/-- A call that finds an exited child at once. -/
theorem Inv.waitpid_ret (inv : Inv w) (running : w.kernel.halted = false)
    (outside : w.kernel.frames w.kernel.current = .outside) {pid : Nat} {statusPtr : BitVec 64}
    {slot : Slot} (found : w.kernel.exitedChild pid = some slot) :
    Inv ⟨(w.kernel.reap slot statusPtr).1, w.exited, w.outcomes ++
      [⟨w.kernel, (w.kernel.reap slot statusPtr).1, statusPtr, w.kernel.exitedChildren pid,
        (w.kernel.reap slot statusPtr).2⟩]⟩ := by
  obtain ⟨isChild, zombie⟩ := exitedChild_some found
  exact (inv.reap running outside zombie isChild.1 statusPtr).record
    (right_of_reap rfl zombie rfl rfl isChild.1 (mem_exitedChildren found))

/-- A call that blocks. -/
theorem Inv.waitpid_yield (inv : Inv w) (running : w.kernel.halted = false)
    (outside : w.kernel.frames w.kernel.current = .outside) {pid : Nat} {statusPtr : BitVec 64}
    {t : Task} (blocked : t.state = .blockedRecv) (same : t.id = w.kernel.currentTask.id)
    (other : ∃ slot, slot ≠ w.kernel.current ∧ (w.kernel.tasks slot).state = .ready) :
    Inv { w with kernel :=
      (w.kernel.setTask w.kernel.current t).suspend (.waitpid pid statusPtr) } := by
  have live : t.Alive := by simp [Task.Alive, blocked]
  have edited := inv.toCore.edit (idle_of_outside outside) (inv.awake running) live same
  have none := inv.quiet _ (idle_of_outside outside)
  have core : Core { w with kernel :=
      (w.kernel.setTask w.kernel.current t).setFrame (.waitpid pid statusPtr) } := by
    refine ⟨edited.awake, edited.distinct, edited.bounded, fun slot idle => ?_,
      fun slot pid' awaiting => ?_, edited.right⟩
    · by_cases here : slot = w.kernel.current
      · rw [here]
        exact none
      · exact edited.quiet slot (by simpa [Kernel.Awaiting, Kernel.setFrame, here] using idle)
    · by_cases here : slot = w.kernel.current
      · exact .inl ⟨here ▸ none, by simp [here, blocked]⟩
      · exact edited.waiting slot pid'
          (by simpa [Kernel.Awaiting, Kernel.setFrame, here] using awaiting)
  refine core.reschedule (by simpa using live) fun _ _ => .inr ?_
  obtain ⟨slot, differs, ready⟩ := other
  exact ⟨slot, differs, by simpa [differs] using ready⟩

/-- The current task leaves its unfinished call. -/
theorem Inv.leave (inv : Inv w) :
    Inv { w with
      kernel := w.kernel.setFrame .outside
      exited := Function.update w.exited w.kernel.current none } := by
  have frames : ∀ {slot pid}, (w.kernel.setFrame .outside).Awaiting slot pid ↔
      slot ≠ w.kernel.current ∧ w.kernel.Awaiting slot pid := by
    intro slot pid
    by_cases here : slot = w.kernel.current
    · simp [Kernel.Awaiting, Kernel.setFrame, here]
    · simp [Kernel.Awaiting, Kernel.setFrame, here]
  refine ⟨⟨inv.awake, inv.distinct, inv.bounded, fun slot idle => ?_, fun slot pid awaiting => ?_,
    inv.right⟩, fun pid awaiting => absurd rfl (frames.mp awaiting).1⟩
  · by_cases here : slot = w.kernel.current
    · simp [here]
    · simpa [here] using inv.quiet slot fun pid awaiting => idle pid (frames.mpr ⟨here, awaiting⟩)
  · obtain ⟨differs, before⟩ := frames.mp awaiting
    rcases inv.waiting slot pid before with ⟨unnoted, blocked⟩ | ⟨child, due⟩
    · exact .inl ⟨by simpa [differs] using unnoted, blocked⟩
    · exact .inr ⟨child, { due with noted := by simpa [differs] using due.noted }⟩

/-- The blocking path finds the child that woke it. -/
theorem Inv.waitpid_resume (inv : Inv w) (running : w.kernel.halted = false) {pid : Nat}
    {statusPtr : BitVec 64} (frame : w.kernel.frames w.kernel.current = .waitpid pid statusPtr) :
    Inv ⟨((w.kernel.setFrame .outside).resumeWaitpid statusPtr).1,
      Function.update w.exited w.kernel.current none,
      w.outcomes ++ [⟨w.kernel, ((w.kernel.setFrame .outside).resumeWaitpid statusPtr).1, statusPtr,
        (w.exited w.kernel.current).toList,
        ((w.kernel.setFrame .outside).resumeWaitpid statusPtr).2⟩]⟩ := by
  obtain ⟨child, due⟩ := inv.current pid ⟨statusPtr, frame⟩
  have reaps : (w.kernel.setFrame .outside).resumeWaitpid statusPtr =
      (w.kernel.setFrame .outside).reap child.slot statusPtr := by
    have named : (w.kernel.setFrame .outside).currentTask.ipcVal = child.slot.val := due.named
    simp only [Kernel.resumeWaitpid, named, child.slot.isLt, dite_true, Fin.eta,
      Kernel.setFrame_tasks, due.zombie, if_true]
  rw [reaps]
  refine (inv.leave.reap running (by simp [Kernel.setFrame]) due.zombie due.own statusPtr).record ?_
  exact right_of_reap rfl due.zombie due.id due.status due.own (by simp [due.noted])

/-! ## Runs -/

/-! ## Runs -/

/-- A call that is no exit and no wait leaves no record. -/
theorem Inv.call (inv : Inv w) (running : w.kernel.halted = false)
    (outside : w.kernel.frames w.kernel.current = .outside) {action : Action}
    (orderly : Orderly w.kernel action) (notExit : ∀ status, action ≠ .exit status)
    (notWait : ∀ pid statusPtr, action ≠ .waitpid pid statusPtr) :
    Inv { w with kernel := w.kernel.call action } := by
  cases action with
  | tick => exact inv
  | resume => exact inv
  | send capIdx msg => exact inv.send running outside orderly
  | recv capIdx => exact inv.recv running outside
  | ipcSend dstId word => exact inv.ipcSend running outside orderly
  | ipcRecv srcId => exact inv.ipcRecv running outside
  | exit status => exact absurd rfl (notExit status)
  | waitpid pid statusPtr => exact absurd rfl (notWait pid statusPtr)
  | spawn => exact inv.creates w.kernel.spawn_creates
  | spawnUser image => exact inv.creates (w.kernel.spawnUser_creates image)
  | sysFork => exact inv.creates w.kernel.sysFork_creates
  | fork parentId => exact inv.creates (w.kernel.fork_creates parentId)
  | capAlloc cap => exact inv.allocIn w.kernel.current cap
  | capAllocFor taskId cap => exact inv.grants (w.kernel.capAllocFor_grants taskId cap)
  | capDuplicate dstTaskId idx => exact inv.grants (w.kernel.capDuplicate_grants dstTaskId idx)
  | capTransfer dstTaskId idx => exact inv.capTransfer

/-- `SYS_WAITPID`, up to its result or to the point where it blocks. -/
theorem Inv.waitpid (inv : Inv w) (running : w.kernel.halted = false)
    (outside : w.kernel.frames w.kernel.current = .outside) {pid : Nat} {statusPtr : BitVec 64}
    (orderly : Orderly w.kernel (.waitpid pid statusPtr)) :
    Inv ⟨(w.kernel.waitpid pid statusPtr).settle, w.exited, w.outcomes ++
      (w.completed (.waitpid pid statusPtr) (w.kernel.waitpid pid statusPtr).settle).toList⟩ := by
  cases found : w.kernel.exitedChild pid with
  | some slot =>
    have returns : w.kernel.waitpid pid statusPtr =
        .ret (w.kernel.reap slot statusPtr).1 (w.kernel.reap slot statusPtr).2 := by
      simp [Kernel.waitpid, found]
    simp only [completed, returns, Blocking.settle, Option.toList]
    exact inv.waitpid_ret running outside found
  | none =>
    simp only [completed, Kernel.waitpid, found, Blocking.settle, Option.toList, List.append_nil]
    exact inv.waitpid_yield running outside rfl rfl (orderly found)

/-- A call behind its `yield_now`. -/
theorem Inv.resume (inv : Inv w) (running : w.kernel.halted = false) {after : Kernel}
    (resumed : (w.kernel.setFrame .outside).resumeFrame (w.kernel.frames w.kernel.current) =
      some after) :
    Inv ⟨after, Function.update w.exited w.kernel.current none,
      w.outcomes ++ (w.completed .resume after).toList⟩ := by
  have outside : (w.kernel.setFrame .outside).frames w.kernel.current = .outside := by
    simp [Kernel.setFrame]
  cases frame : w.kernel.frames w.kernel.current with
  | outside =>
    rw [frame] at resumed
    cases resumed
  | sendWithCap =>
    rw [frame] at resumed
    obtain rfl := Option.some.inj resumed
    simpa [completed, frame, Kernel.resumeSend] using inv.leave
  | recvWithCap =>
    rw [frame] at resumed
    obtain rfl := Option.some.inj resumed
    simp only [completed, frame, Option.toList, List.append_nil, Kernel.resumeRecv]
    split_ifs
    · exact inv.leave.self running outside (inv.awake running) rfl
    · exact inv.leave
  | ipcSend =>
    rw [frame] at resumed
    obtain rfl := Option.some.inj resumed
    simpa [completed, frame, Kernel.resumeSend] using inv.leave
  | ipcRecv =>
    rw [frame] at resumed
    obtain rfl := Option.some.inj resumed
    simpa [completed, frame, Kernel.resumeIpcRecv] using inv.leave
  | waitpid pid statusPtr =>
    rw [frame] at resumed
    obtain rfl := Option.some.inj resumed
    simp only [completed, frame, Option.toList]
    exact inv.waitpid_resume running frame

theorem Inv.tick (inv : Inv w) (running : w.kernel.halted = false) :
    Inv { w with kernel := w.kernel.reschedule } :=
  inv.toCore.reschedule (inv.awake running) fun pid awaiting => .inl (inv.current pid awaiting)

/-- Every orderly step keeps the invariant. -/
theorem Inv.step {w w' : Waits} {action : Action} (inv : Inv w)
    (orderly : Orderly w.kernel action) (valid : w.Steps action w') : Inv w' := by
  obtain ⟨after, taken, rfl⟩ := Option.map_eq_some_iff.mp valid
  obtain ⟨running, ⟨rfl, rfl⟩ | ⟨rfl, resumed⟩ | ⟨notTick, notResume, outside, rfl⟩⟩ :=
    Kernel.step_cases taken
  · simpa [completed] using inv.tick running
  · exact inv.resume running resumed
  · by_cases exits : ∃ status, action = .exit status
    · obtain ⟨status, rfl⟩ := exits
      simpa [completed, Kernel.call] using inv.exit running outside orderly
    · by_cases waits : ∃ pid statusPtr, action = .waitpid pid statusPtr
      · obtain ⟨pid, statusPtr, rfl⟩ := waits
        exact inv.waitpid running outside orderly
      · simp only [not_exists] at exits waits
        have kept := inv.call running outside orderly exits waits
        cases action <;> simp_all [completed]

/-- In every run of kernel calls that respects the tasks inside `SYS_WAITPID`,
each call that returns reports a child that exited, with its status, and frees
that child's slot alone; nothing but children of the caller is reaped. -/
theorem good_throughout_of_orderly {k : Kernel} (ready : Ready k)
    {taken : List (Transition Waits Action)} {final : Waits}
    (run : Trace Steps (initial k) taken final)
    (orderly : Guarded (fun w action => Orderly w.kernel action) taken) :
    Throughout Good (initial k) taken := by
  have kept := run.throughout_of_guarded Inv (inv_initial ready)
    (fun _ _ _ inv guard valid => inv.step guard valid) orderly
  exact ⟨kept.1.good, fun transition member => (kept.2 transition member).good⟩

/-- The boot task with id 0, a running parent with id 1 and a ready child, each in
the next slot; the child has this id. -/
def parentAndChild (childId : Nat) : Kernel where
  tasks := fun slot =>
    if slot = 0 then { Task.free with state := .ready, id := 0 }
    else if slot = 1 then { Task.free with state := .running, id := 1 }
    else if slot = 2 then { Task.free with state := .ready, id := childId, parentId := 1 }
    else Task.free
  current := 1
  nextId := childId + 1
  pending := fun _ => Message.empty
  capTables := fun _ => Cap.CapTable.new
  phys := ⟨⟨0, fun _ => 0#8, 0, 0, 0, 0⟩, fun _ _ => 0#64⟩
  kernelPml4 := 0
  frames := fun _ => .outside
  halted := false

theorem ready_parentAndChild {childId : Nat} (fresh : 1 < childId) :
    Ready (parentAndChild childId) where
  outside := fun _ => rfl
  distinct := by
    intro slot other
    simp only [parentAndChild]
    split_ifs <;> simp_all [Task.free] <;> omega
  bounded := by
    intro slot
    simp only [parentAndChild]
    split_ifs <;> simp [Task.free]
    omega
  awake := ⟨nofun, nofun⟩

/-- The parent waits, the child exits with status 7, the parent gets both. -/
theorem good_parentAndChild :
    ∃ taken final, record step (initial (parentAndChild 2))
        [.waitpid 0 4096#64, .exit 7#32, .tick, .resume] = some (taken, final) ∧
      (final.outcomes.map fun o => o.result) = [⟨2, some (4096#64, 7#32)⟩] ∧
      Throughout Good (initial (parentAndChild 2)) taken := by
  obtain ⟨⟨taken, final⟩, recorded, result, guarded⟩ :
      ∃ run ∈ record step (initial (parentAndChild 2))
          [.waitpid 0 4096#64, .exit 7#32, .tick, .resume],
        (run.2.outcomes.map fun o => o.result) = [⟨2, some (4096#64, 7#32)⟩] ∧
          ∀ transition ∈ run.1, Orderly transition.before.kernel transition.label := by
    decide
  exact ⟨taken, final, recorded, result,
    good_throughout_of_orderly (ready_parentAndChild (by decide)) (trace_of_record recorded) guarded⟩

/-- The same run for a child with id 3 in slot 2: the parent looks into slot 3,
finds no task there and returns `!0`; the child is never reaped. -/
theorem diverged_child :
    Ready (parentAndChild 3) ∧ ∃ taken final, Trace Steps (initial (parentAndChild 3)) taken final ∧
      ¬ Throughout Good (initial (parentAndChild 3)) taken := by
  refine ⟨ready_parentAndChild (by decide), ?_⟩
  obtain ⟨⟨taken, final⟩, recorded, o, member, exited, result⟩ :
      ∃ run ∈ record step (initial (parentAndChild 3))
          [.waitpid 0 4096#64, .exit 7#32, .tick, .resume],
        ∃ o ∈ run.2.outcomes, o.candidates = [⟨2, 3, 7#32⟩] ∧
          o.result = ⟨Kernel.notZero, none⟩ := by
    decide
  have run := trace_of_record recorded
  refine ⟨taken, final, run, fun good => ?_⟩
  have right := (run.final_of_throughout good).right o member
  obtain ⟨child, candidate, reports⟩ := right.reported (by simp [exited])
  rw [exited, List.mem_singleton] at candidate
  have value := reports.1
  rw [result, candidate] at value
  exact absurd value (by decide)

end DBSos.Waits
