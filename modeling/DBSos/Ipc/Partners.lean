import DBSos.Ipc.Delivery
import DBSos.System

/-!
# Waiting for a partner

A blocked task names its partner in `ipc_partner` only. Exit looks for a parent
in a receive and for nobody else, and `find_task` returns exited tasks, so a
task can be left waiting for one that has ended. `attended_throughout_iff`
names the calls after which that happens.
-/

namespace DBSos.Kernel

open DBSos.Abi DBSos.Lib DBSos.Scheduler

/-- The task with this id has exited or its slot has been freed: the id has been
handed out and no living task has it. -/
def Ended (k : Kernel) (id : Nat) : Prop := id < k.nextId ∧ Traffic.Gone k id

instance (k : Kernel) (id : Nat) : Decidable (k.Ended id) := inferInstanceAs (Decidable (_ ∧ _))

/-- The task is in a blocked send to this task, or in a receive from it alone. -/
def WaitsFor (t : Task) (id : Nat) : Prop :=
  t.ipcPartner = id ∧
    (t.state = .blockedSend ∨ t.state = .blockedRecv ∧ id ≠ anyPartner ∧ id ≠ ipcAny)

instance (t : Task) (id : Nat) : Decidable (WaitsFor t id) := inferInstanceAs (Decidable (_ ∧ _))

/-- Nobody waits for a task that has ended. -/
def Attended (k : Kernel) : Prop := ∀ slot id, WaitsFor (k.tasks slot) id → ¬ k.Ended id

/-- Ids come from `NEXT_ID` and no two tasks share one. -/
structure Roster (k : Kernel) : Prop where
  awake : k.halted = false → k.currentTask.Alive
  bounded : ∀ slot, (k.tasks slot).state ≠ .free → (k.tasks slot).id < k.nextId
  distinct : ∀ slot other, (k.tasks slot).state ≠ .free → (k.tasks other).state ≠ .free →
    (k.tasks slot).id = (k.tasks other).id → slot = other

/-- The exit of the current task wakes the task in this slot: its parent, in a receive. -/
def WokenByExit (k : Kernel) (slot : Slot) : Prop :=
  k.currentTask.parentId ≠ 0 ∧ (k.tasks slot).id = k.currentTask.parentId ∧
    (k.tasks slot).state = .blockedRecv

instance (k : Kernel) (slot : Slot) : Decidable (k.WokenByExit slot) :=
  inferInstanceAs (Decidable (_ ∧ _))

/-- A send names a task that has not exited, an `ipc_recv` from one task names one
that has not ended, and a task exits only when nobody but a parent that it wakes
waits for it. -/
def Attends (k : Kernel) : Action → Prop
  | .send capIdx _ => ∀ dst, (∃ cap, k.CanSend capIdx cap dst) → (k.tasks dst).Alive
  | .ipcSend dstId _ => ∀ dst, k.findTask dstId = some dst → (k.tasks dst).Alive
  | .ipcRecv srcId => srcId ≠ 0 → srcId ≠ ipcAny → ¬ k.Ended srcId
  | .exit _ => ∀ slot, slot ≠ k.current → WaitsFor (k.tasks slot) k.currentTask.id →
      k.WokenByExit slot
  | _ => True

instance (k : Kernel) : (action : Action) → Decidable (Attends k action)
  | .send _ _ => inferInstanceAs (Decidable (∀ _, _ → _))
  | .ipcSend _ _ => inferInstanceAs (Decidable (∀ _, _ → _))
  | .ipcRecv _ => inferInstanceAs (Decidable (_ → _ → _))
  | .exit _ => inferInstanceAs (Decidable (∀ _, _ → _ → _))
  | .tick | .resume | .recv _ | .waitpid _ _ | .spawn | .spawnUser _ | .sysFork | .fork _
  | .capAlloc _ | .capAllocFor _ _ | .capDuplicate _ _ | .capTransfer _ _ =>
    inferInstanceAs (Decidable True)

variable {k k' : Kernel}

/-- A task that can run waits for nobody. -/
theorem not_waitsFor {t : Task} {id : Nat} (send : t.state ≠ .blockedSend)
    (recv : t.state ≠ .blockedRecv) : ¬ WaitsFor t id := by
  rintro ⟨_, blocked | ⟨blocked, _⟩⟩
  · exact send blocked
  · exact recv blocked

/-! ## Steps that end nobody -/

/-- The same tasks live under the same ids. -/
structure Undisturbed (k k' : Kernel) : Prop where
  awake : k'.halted = false → k'.currentTask.Alive
  nextId : k'.nextId = k.nextId
  id : ∀ slot, (k'.tasks slot).id = (k.tasks slot).id
  used : ∀ slot, (k'.tasks slot).state ≠ .free → (k.tasks slot).state ≠ .free
  alive : ∀ slot, (k'.tasks slot).Alive ↔ (k.tasks slot).Alive

theorem Roster.of_kept (roster : Roster k) (awake : k'.halted = false → k'.currentTask.Alive)
    (nextId : k'.nextId = k.nextId) (id : ∀ slot, (k'.tasks slot).id = (k.tasks slot).id)
    (used : ∀ slot, (k'.tasks slot).state ≠ .free → (k.tasks slot).state ≠ .free) :
    Roster k' where
  awake := awake
  bounded := by
    intro slot isUsed
    rw [id, nextId]
    exact roster.bounded slot (used slot isUsed)
  distinct := by
    intro slot other first second
    rw [id, id]
    exact roster.distinct slot other (used slot first) (used other second)

theorem Undisturbed.roster (same : Undisturbed k k') (roster : Roster k) : Roster k' :=
  roster.of_kept same.awake same.nextId same.id same.used

theorem Undisturbed.ended_iff (same : Undisturbed k k') (id : Nat) : k'.Ended id ↔ k.Ended id := by
  rw [Ended, Ended, same.nextId, Traffic.gone_congr same.id same.alive]

/-- Nobody starts to wait. -/
theorem Undisturbed.attended (same : Undisturbed k k') (attended : Attended k)
    (waits : ∀ slot id, WaitsFor (k'.tasks slot) id → WaitsFor (k.tasks slot) id) :
    Attended k' := by
  intro slot id waiting
  rw [same.ended_iff]
  exact attended slot id (waits slot id waiting)

theorem Undisturbed.refl (roster : Roster k) : Undisturbed k k where
  awake := roster.awake
  nextId := rfl
  id := fun _ => rfl
  used := fun _ used => used
  alive := fun _ => Iff.rfl

/-- One record changes between living states and keeps its id. -/
theorem Undisturbed.edit (roster : Roster k) (running : k.halted = false) {slot : Slot} {t : Task}
    (alive : (k.tasks slot).Alive) (live : t.Alive) (same : t.id = (k.tasks slot).id) :
    Undisturbed k (k.setTask slot t) where
  awake := by
    intro _
    by_cases here : k.current = slot
    · simpa [currentTask, here] using live
    · simpa [currentTask, here] using roster.awake running
  nextId := rfl
  id := by
    intro one
    by_cases here : one = slot <;> simp [here, same]
  used := by
    intro one
    by_cases here : one = slot
    · simp [here, alive.1]
    · simp [here]
  alive := by
    intro one
    by_cases here : one = slot
    · simp [here, alive, live]
    · simp [here]

/-- The edited record alone decides whether everybody is attended. -/
theorem attended_edit (roster : Roster k) (running : k.halted = false) (attended : Attended k)
    {slot : Slot} {t : Task} (alive : (k.tasks slot).Alive) (live : t.Alive)
    (same : t.id = (k.tasks slot).id) :
    Attended (k.setTask slot t) ↔ ∀ id, WaitsFor t id → ¬ k.Ended id := by
  have ended := (Undisturbed.edit roster running alive live same).ended_iff
  constructor
  · intro after id waits
    exact (ended id).not.mp (after slot id (by simpa using waits))
  · intro own one id waits
    rw [ended]
    by_cases here : one = slot
    · exact own id (by simpa [here] using waits)
    · exact attended one id (by simpa [here] using waits)

/-- The kernel behind a step, and what the step does to those who wait. -/
def Exact (k : Kernel) (action : Action) (after : Kernel) : Prop :=
  Roster after ∧ (Attended after ↔ k.Attends action)

theorem Exact.of_quiet {action : Action} (attends : k.Attends action) (roster : Roster k)
    (attended : Attended k) (same : Undisturbed k k')
    (waits : ∀ slot id, WaitsFor (k'.tasks slot) id → WaitsFor (k.tasks slot) id) :
    Exact k action k' :=
  ⟨same.roster roster, fun _ => attends, fun _ => same.attended attended waits⟩

/-- Only capability tables change. -/
theorem exact_capTables {action : Action} (attends : k.Attends action) (roster : Roster k)
    (attended : Attended k) (capTables : Slot → Cap.CapTable) :
    Exact k action { k with capTables := capTables } :=
  .of_quiet attends roster attended { Undisturbed.refl roster with } (fun _ _ waiting => waiting)

/-- A context switch changes neither who lives nor who waits for whom. -/
theorem exact_reschedule {action : Action} (alive : k'.currentTask.Alive)
    (exact : Exact k action k') : Exact k action k'.reschedule := by
  have same : Undisturbed k' k'.reschedule := {
    awake := fun _ => reschedule_alive alive
    nextId := by simp
    id := by simp
    used := by simp
    alive := by simp [Task.Alive] }
  have waits : ∀ slot id, WaitsFor (k'.reschedule.tasks slot) id ↔ WaitsFor (k'.tasks slot) id := by
    intro slot id
    simp [WaitsFor]
  refine ⟨same.roster exact.1, Iff.trans ?_ exact.2⟩
  simp only [Attended, waits, same.ended_iff]

/-- The same of a call that stops at its `yield_now`. -/
theorem exact_suspend {action : Action} (alive : k'.currentTask.Alive) (exact : Exact k action k')
    (frame : Frame) : Exact k action (k'.suspend frame) := by
  have framed : Exact k action (k'.setFrame frame) := ⟨{ exact.1 with }, exact.2⟩
  exact exact_reschedule alive framed

/-- The holder of an id is alive exactly when the id has not ended. -/
theorem Roster.ended_iff (roster : Roster k) {slot : Slot} (used : (k.tasks slot).state ≠ .free) :
    k.Ended (k.tasks slot).id ↔ ¬ (k.tasks slot).Alive := by
  constructor
  · exact fun ended alive => ended.2 slot alive rfl
  · intro dead
    refine ⟨roster.bounded slot used, fun other alive same => ?_⟩
    obtain rfl := roster.distinct other slot alive.1 used same
    exact dead alive

/-- A record that leaves the exited state for the free one changes nobody's wait. -/
theorem exact_reap (roster : Roster k) (attended : Attended k) {action : Action}
    (attends : k.Attends action) {slot : Slot} (zombie : (k.tasks slot).state = .exited)
    (statusPtr : BitVec 64) : Exact k action (k.reap slot statusPtr).1 := by
  have tasks : ∀ one, (k.reap slot statusPtr).1.tasks one =
      if one = slot then { k.tasks slot with state := .free } else k.tasks one := by
    intro one
    by_cases here : one = slot <;> simp [reap, modifyTask, here]
  have alive : ∀ one, ((k.reap slot statusPtr).1.tasks one).Alive ↔ (k.tasks one).Alive := by
    intro one
    rw [tasks]
    split_ifs with here
    · simp [here, Task.Alive, zombie]
    · exact Iff.rfl
  have same : Undisturbed k (k.reap slot statusPtr).1 := {
    awake := fun running => (alive k.current).mpr (roster.awake running)
    nextId := rfl
    id := by
      intro one
      rw [tasks]
      split_ifs with here <;> simp [here]
    used := by
      intro one
      rw [tasks]
      split_ifs with here
      · simp
      · exact id
    alive := alive }
  refine .of_quiet attends roster attended same ?_
  intro one id waiting
  rw [tasks] at waiting
  split_ifs at waiting with here
  · exact absurd waiting (not_waitsFor (by simp) (by simp))
  · exact waiting

section Calls

variable (roster : Roster k) (running : k.halted = false) (attended : Attended k)
include roster running attended

/-- A record that does not start to wait decides nothing. -/
theorem exact_wake {action : Action} (attends : k.Attends action) {slot : Slot} {t : Task}
    (alive : (k.tasks slot).Alive) (live : t.Alive) (same : t.id = (k.tasks slot).id)
    (waits : ∀ id, WaitsFor t id → WaitsFor (k.tasks slot) id) :
    Exact k action (k.setTask slot t) := by
  refine .of_quiet attends roster attended (.edit roster running alive live same) ?_
  intro one id waiting
  by_cases here : one = slot
  · subst here
    exact waits id (by simpa using waiting)
  · simpa [here] using waiting

/-- The current task blocks. -/
theorem exact_block {action : Action} {change : Task → Task} (frame : Frame)
    (live : (change k.currentTask).Alive) (same : (change k.currentTask).id = k.currentTask.id)
    (attends : (∀ id, WaitsFor (change k.currentTask) id → ¬ k.Ended id) ↔ k.Attends action) :
    Exact k action ((k.modifyTask k.current change).suspend frame) := by
  have alive := roster.awake running
  refine exact_suspend (by simpa [modifyTask, currentTask] using live) ⟨?_, ?_⟩ frame
  · exact (Undisturbed.edit roster running alive live same).roster roster
  · exact (attended_edit roster running attended alive live same).trans attends

theorem exact_send (capIdx : Nat) (msg : Message) :
    Exact k (.send capIdx msg) (k.sendWithCap capIdx msg).settle := by
  have alive := roster.awake running
  rcases k.sendWithCap_cases capIdx msg with
    ⟨refused, code, _, taken⟩ | ⟨cap, dst, can, either⟩
  · have attends : k.Attends (.send capIdx msg) :=
      fun dst can => absurd (can.imp fun _ can => ⟨dst, can⟩) refused
    rw [taken]
    exact .of_quiet attends roster attended (.refl roster) (fun _ _ waiting => waiting)
  · have attends : k.Attends (.send capIdx msg) ↔ (k.tasks dst).Alive := by
      constructor
      · exact fun all => all dst ⟨cap, can⟩
      · rintro lives dst' ⟨cap', can'⟩
        exact (can.unique can').2 ▸ lives
    rcases either with ⟨self, taken⟩ | ⟨_, waits, taken⟩ | ⟨_, _, taken⟩
    · rw [taken]
      exact .of_quiet (attends.mpr (self ▸ alive)) roster attended { Undisturbed.refl roster with }
        (fun _ _ waiting => waiting)
    · have lives : (k.tasks dst).Alive := by simp [Task.Alive, waits.1]
      rw [taken, wakeAndDeliver_eq]
      exact exact_wake roster running attended (attends.mpr lives) lives (by simp [Task.Alive]) rfl
        (fun id waiting => absurd waiting (not_waitsFor (by simp) (by simp)))
    · have found := findTask_some can.found
      have dead := roster.ended_iff found.1
      rw [found.2] at dead
      rw [taken]
      refine exact_block roster running attended .sendWithCap (by simp [Task.Alive]) rfl ?_
      rw [attends]
      constructor
      · intro own
        exact not_not.mp (dead.not.mp (own cap.serverId ⟨rfl, .inl rfl⟩))
      · rintro lives id ⟨rfl, _⟩
        exact dead.not.mpr (not_not.mpr lives)

theorem exact_recv (capIdx : Nat) : Exact k (.recv capIdx) (k.recvWithCap capIdx).settle := by
  have alive := roster.awake running
  have attends : k.Attends (.recv capIdx) := trivial
  rcases k.recvWithCap_cases capIdx with
    ⟨_, code, _, taken⟩ | ⟨_, ⟨_, taken⟩ | ⟨_, ⟨sender, found, taken⟩ | ⟨_, _, taken⟩ |
      ⟨_, _, taken⟩⟩⟩
  · rw [taken]
    exact .of_quiet attends roster attended (.refl roster) (fun _ _ waiting => waiting)
  · rw [taken]
    exact .of_quiet attends roster attended { Undisturbed.refl roster with }
      (fun _ _ waiting => waiting)
  · rw [taken]
    exact exact_wake roster running attended attends
      (by simp [Task.Alive, (findSender_some found).1]) (by simp [Task.Alive]) rfl
      (fun id waiting => absurd waiting (not_waitsFor (by simp) (by simp)))
  · rw [taken]
    exact exact_wake roster running attended attends alive alive rfl (fun _ waiting => waiting)
  · rw [taken]
    refine exact_block roster running attended .recvWithCap (by simp [Task.Alive]) rfl ?_
    refine iff_of_true ?_ attends
    rintro id ⟨rfl, sending | ⟨_, specific, _⟩⟩
    · cases sending
    · exact absurd rfl specific

theorem exact_ipcSend (dstId word : Nat) :
    Exact k (.ipcSend dstId word) (k.ipcSend dstId word).settle := by
  unfold ipcSend
  cases found : k.findTask dstId with
  | none =>
    have attends : k.Attends (.ipcSend dstId word) := by
      intro dst named
      rw [found] at named
      cases named
    exact .of_quiet attends roster attended (.refl roster) (fun _ _ waiting => waiting)
  | some dst =>
    have attends : k.Attends (.ipcSend dstId word) ↔ (k.tasks dst).Alive := by
      constructor
      · exact fun all => all dst found
      · rintro lives dst' named
        exact Option.some.inj (found.symm.trans named) ▸ lives
    obtain ⟨used, id⟩ := findTask_some found
    by_cases waits : Matches (k.tasks dst) .blockedRecv k.currentTask.id
    · have lives : (k.tasks dst).Alive := by simp [Task.Alive, waits.1]
      simp only [waits, if_true]
      exact exact_wake roster running attended (attends.mpr lives) lives (by simp [Task.Alive])
        rfl (fun id waiting => absurd waiting (not_waitsFor (by simp) (by simp)))
    · have dead := roster.ended_iff used
      rw [id] at dead
      simp only [waits, if_false]
      refine exact_block roster running attended .ipcSend (by simp [Task.Alive]) rfl ?_
      rw [attends]
      constructor
      · intro own
        exact not_not.mp (dead.not.mp (own dstId ⟨rfl, .inl rfl⟩))
      · rintro lives id ⟨rfl, _⟩
        exact dead.not.mpr (not_not.mpr lives)

theorem exact_ipcRecv (srcId : Nat) : Exact k (.ipcRecv srcId) (k.ipcRecv srcId).settle := by
  unfold ipcRecv
  cases found : k.matchRecv srcId with
  | some src =>
    have lives : (k.tasks src).Alive := by simp [Task.Alive, (matchRecv_some found).1]
    have attends : k.Attends (.ipcRecv srcId) := by
      intro specific _ ended
      obtain ⟨_, named⟩ := findTask_some (matchRecv_from specific found)
      exact ended.2 src lives named
    exact exact_wake roster running attended attends lives (by simp [Task.Alive]) rfl
      (fun id waiting => absurd waiting (not_waitsFor (by simp) (by simp)))
  | none =>
    refine exact_block roster running attended .ipcRecv (by simp [Task.Alive]) rfl ?_
    by_cases anySource : srcId = 0
    · refine iff_of_true ?_ (fun specific => absurd anySource specific)
      rintro id ⟨rfl, sending | ⟨_, _, specific⟩⟩
      · cases sending
      · exact absurd (if_pos anySource) specific
    · have partner : (if srcId = 0 then ipcAny else srcId) = srcId := if_neg anySource
      constructor
      · intro own _ notAny
        exact own srcId ⟨partner, .inr ⟨rfl, anySource, notAny⟩⟩
      · rintro attends id ⟨named, sending | ⟨_, _, notAny⟩⟩
        · cases sending
        · obtain rfl := partner.symm.trans named
          exact attends anySource notAny

theorem exact_waitpid (pid : Nat) (statusPtr : BitVec 64) :
    Exact k (.waitpid pid statusPtr) (k.waitpid pid statusPtr).settle := by
  have attends : k.Attends (.waitpid pid statusPtr) := trivial
  unfold waitpid
  cases found : k.exitedChild pid with
  | some slot =>
    have zombie := findSlot_some found
    simp only [decide_eq_true_eq] at zombie
    exact exact_reap roster attended attends zombie.2.2 statusPtr
  | none =>
    refine exact_block roster running attended (.waitpid pid statusPtr) (by simp [Task.Alive]) rfl
      (iff_of_true ?_ attends)
    rintro id ⟨rfl, sending | ⟨_, specific, _⟩⟩
    · cases sending
    · exact absurd rfl specific

end Calls

/-! ## Exits -/

/-- A receive outlives the exit of another task unless that exit wakes it. -/
theorem exit_blockedRecv (k : Kernel) (status : BitVec 32) (slot : Slot) :
    ((k.exitWithStatus status).tasks slot).state = .blockedRecv ↔
      slot ≠ k.current ∧ (k.tasks slot).state = .blockedRecv ∧ ¬ k.WokenByExit slot := by
  have marked : ((k.markExited status).tasks slot).state = .blockedRecv ↔
      slot ≠ k.current ∧ (k.tasks slot).state = .blockedRecv ∧ ¬ k.WokenByExit slot := by
    rw [markExited_tasks]
    split_ifs with dying woken
    · simp [dying]
    · simp [show k.WokenByExit slot from woken]
    · simp [dying, show ¬ k.WokenByExit slot from woken]
  rcases k.exitWithStatus_cases status with ⟨_, halts⟩ | ⟨next, _, ready, runs⟩
  · rw [halts]
    exact marked
  · rw [runs, ← marked]
    by_cases chosen : slot = next
    · subst chosen
      simp [switchTo, modifyTask, ready]
    · simp [switchTo, modifyTask, chosen]

/-- Whoever waits after an exit has waited before, and was not woken. -/
theorem exit_waitsFor (k : Kernel) (status : BitVec 32) (slot : Slot) (id : Nat) :
    WaitsFor ((k.exitWithStatus status).tasks slot) id ↔
      slot ≠ k.current ∧ WaitsFor (k.tasks slot) id ∧ ¬ k.WokenByExit slot := by
  obtain ⟨_, partner, _, _, send, _⟩ := k.exitWithStatus_task status slot
  have notBoth : (k.tasks slot).state = .blockedSend → ¬ k.WokenByExit slot := by
    intro blocked woken
    rw [woken.2.2] at blocked
    cases blocked
  simp only [WaitsFor, partner, send, exit_blockedRecv]
  constructor
  · rintro ⟨named, ⟨other, blocked⟩ | ⟨⟨other, blocked, asleep⟩, specific⟩⟩
    · exact ⟨other, ⟨named, .inl blocked⟩, notBoth blocked⟩
    · exact ⟨other, ⟨named, .inr ⟨blocked, specific⟩⟩, asleep⟩
  · rintro ⟨other, ⟨named, blocked | ⟨blocked, specific⟩⟩, asleep⟩
    · exact ⟨named, .inl ⟨other, blocked⟩⟩
    · exact ⟨named, .inr ⟨⟨other, blocked, asleep⟩, specific⟩⟩

/-- Exactly the dying task's id ends. -/
theorem exit_ended (roster : Roster k) (alive : k.currentTask.Alive) (status : BitVec 32)
    (id : Nat) :
    (k.exitWithStatus status).Ended id ↔ k.Ended id ∨ id = k.currentTask.id := by
  have ids := fun slot => (k.exitWithStatus_task status slot).1
  simp only [Ended, Traffic.Gone, exitWithStatus_nextId, exitWithStatus_alive, ids]
  constructor
  · rintro ⟨below, gone⟩
    by_cases own : id = k.currentTask.id
    · exact .inr own
    · refine .inl ⟨below, fun slot lives named => ?_⟩
      have other : slot ≠ k.current := by
        rintro rfl
        exact own named.symm
      exact gone slot ⟨other, lives⟩ named
  · rintro (⟨below, gone⟩ | rfl)
    · exact ⟨below, fun slot lives => gone slot lives.2⟩
    · refine ⟨roster.bounded k.current alive.1, ?_⟩
      rintro slot ⟨other, lives⟩ named
      exact other (roster.distinct slot k.current lives.1 alive.1 named)

theorem exact_exit (roster : Roster k) (running : k.halted = false) (attended : Attended k)
    (status : BitVec 32) : Exact k (.exit status) (k.exitWithStatus status) := by
  have alive := roster.awake running
  refine ⟨roster.of_kept (k.exitWithStatus_awake status) (k.exitWithStatus_nextId status)
    (fun slot => (k.exitWithStatus_task status slot).1) (k.exitWithStatus_used alive status), ?_⟩
  simp only [Attended, exit_waitsFor, exit_ended roster alive]
  constructor
  · intro after slot other waits
    by_contra asleep
    exact after slot _ ⟨other, waits, asleep⟩ (.inr rfl)
  · rintro attends slot id ⟨other, waits, asleep⟩ (ended | rfl)
    · exact attended slot id waits ended
    · exact asleep (attends slot other waits)

/-! ## New tasks -/

/-- A new task waits for nobody, and nobody can have waited for its id. -/
theorem exact_install {action : Action} (attends : k.Attends action) (roster : Roster k)
    (attended : Attended k) {slot : Slot} {t : Task} (vacant : (k.tasks slot).state = .free)
    (newborn : Newborn t k.nextId) (tasks : k'.tasks = Function.update k.tasks slot t)
    (current : k'.current = k.current) (nextId : k'.nextId = k.nextId + 1)
    (halted : k'.halted = k.halted) : Exact k action k' := by
  have lives : t.Alive := by simp [Task.Alive, newborn.state]
  have own : k'.tasks slot = t := by simp [tasks]
  have others : ∀ one, one ≠ slot → k'.tasks one = k.tasks one := by
    intro one elsewhere
    rw [tasks, Function.update_of_ne elsewhere]
  have older : ∀ one, (k.tasks one).state ≠ .free → (k.tasks one).id ≠ t.id := by
    intro one used
    rw [newborn.id]
    exact (roster.bounded one used).ne
  have occupied : ∀ one, (k.tasks one).Alive → one ≠ slot := by
    rintro one alive rfl
    exact alive.1 vacant
  refine ⟨⟨fun running => ?_, fun one used => ?_, fun one other first second same => ?_⟩,
    fun _ => attends, fun _ one id waiting ended => ?_⟩
  · have awake := roster.awake (halted ▸ running)
    rw [currentTask, current, others k.current (occupied k.current awake)]
    exact awake
  · rw [nextId]
    by_cases here : one = slot
    · rw [here, own, newborn.id]
      exact Nat.lt_succ_self _
    · rw [others one here] at used ⊢
      exact Nat.lt_succ_of_lt (roster.bounded one used)
  · by_cases here : one = slot
    · by_cases there : other = slot
      · exact here.trans there.symm
      · rw [here, own, others other there] at same
        rw [others other there] at second
        exact absurd same.symm (older other second)
    · by_cases there : other = slot
      · rw [there, own, others one here] at same
        rw [others one here] at first
        exact absurd same (older one first)
      · rw [others one here] at first same
        rw [others other there] at second same
        exact roster.distinct one other first second same
  · by_cases here : one = slot
    · rw [here, own] at waiting
      exact not_waitsFor (by simp [newborn.state]) (by simp [newborn.state]) waiting
    · rw [others one here] at waiting
      obtain ⟨below, gone⟩ := ended
      have notNew : id ≠ k.nextId := by
        rintro rfl
        exact gone slot (own.symm ▸ lives) (own.symm ▸ newborn.id)
      refine attended one id waiting ⟨by omega, fun two alive named => ?_⟩
      have kept := others two (occupied two alive)
      exact gone two (kept.symm ▸ alive) (kept.symm ▸ named)

theorem exact_creates {action : Action} (attends : k.Attends action) (roster : Roster k)
    (attended : Attended k) {result : Kernel × Option Nat} (creates : k.Creates result) :
    Exact k action result.1 := by
  rcases creates with ⟨phys, rfl⟩ | ⟨slot, t, phys, free, newborn, rfl⟩
  · exact .of_quiet attends roster attended { Undisturbed.refl roster with }
      (fun _ _ waiting => waiting)
  · exact exact_install attends roster attended (freeSlot_some free) newborn rfl rfl rfl rfl

/-! ## Runs -/

/-- A call behind its `yield_now`. -/
theorem exact_resume (roster : Roster k) (running : k.halted = false) (attended : Attended k)
    {after : Kernel}
    (resumed : (k.setFrame .outside).resumeFrame (k.frames k.current) = some after) :
    Exact k .resume after := by
  have attends : k.Attends .resume := trivial
  have left : Exact k .resume (k.setFrame .outside) :=
    .of_quiet attends roster attended { Undisturbed.refl roster with } (fun _ _ waiting => waiting)
  cases frame : k.frames k.current with
  | outside =>
    rw [frame] at resumed
    cases resumed
  | sendWithCap =>
    rw [frame] at resumed
    obtain rfl := Option.some.inj resumed
    exact left
  | recvWithCap =>
    rw [frame] at resumed
    obtain rfl := Option.some.inj resumed
    have alive := roster.awake running
    unfold resumeRecv
    split_ifs
    · have read : Exact k .resume (k.modifyTask k.current fun t => { t with ipcVal := 0 }) :=
        exact_wake roster running attended attends alive alive rfl (fun _ waiting => waiting)
      exact ⟨{ read.1 with }, read.2⟩
    · exact left
  | ipcSend =>
    rw [frame] at resumed
    obtain rfl := Option.some.inj resumed
    exact left
  | ipcRecv =>
    rw [frame] at resumed
    obtain rfl := Option.some.inj resumed
    exact left
  | waitpid pid statusPtr =>
    rw [frame] at resumed
    obtain rfl := Option.some.inj resumed
    unfold resumeWaitpid
    split_ifs with bound zombie
    · have reaped := exact_reap roster attended attends zombie statusPtr
      exact ⟨{ reaped.1 with }, reaped.2⟩
    · exact left
    · exact left

/-- After a step from a state in which everybody is attended, everybody is exactly
if the step attends. -/
theorem Roster.step (roster : Roster k) (attended : Attended k) {action : Action}
    (valid : k.Steps action k') : Exact k action k' := by
  have granted : ∀ {taskId : Nat} {after : Kernel}, k.Attends action → k.Grants taskId after →
      Exact k action after := by
    rintro taskId after attends (rfl | ⟨slot, cap, _, rfl⟩)
    · exact exact_capTables attends roster attended _
    · exact exact_capTables attends roster attended _
  obtain ⟨running, ⟨rfl, rfl⟩ | ⟨rfl, resumed⟩ | ⟨notTick, notResume, outside, rfl⟩⟩ :=
    step_cases valid
  · have attends : k.Attends .tick := trivial
    exact exact_reschedule (roster.awake running)
      (exact_capTables attends roster attended k.capTables)
  · exact exact_resume roster running attended resumed
  · cases action with
    | tick => exact absurd rfl notTick
    | resume => exact absurd rfl notResume
    | send capIdx msg => exact exact_send roster running attended capIdx msg
    | recv capIdx => exact exact_recv roster running attended capIdx
    | ipcSend dstId word => exact exact_ipcSend roster running attended dstId word
    | ipcRecv srcId => exact exact_ipcRecv roster running attended srcId
    | exit status => exact exact_exit roster running attended status
    | waitpid pid statusPtr => exact exact_waitpid roster running attended pid statusPtr
    | spawn =>
      have attends : k.Attends .spawn := trivial
      exact exact_creates attends roster attended k.spawn_creates
    | spawnUser image =>
      have attends : k.Attends (.spawnUser image) := trivial
      exact exact_creates attends roster attended (k.spawnUser_creates image)
    | sysFork =>
      have attends : k.Attends .sysFork := trivial
      exact exact_creates attends roster attended k.sysFork_creates
    | fork parentId =>
      have attends : k.Attends (.fork parentId) := trivial
      exact exact_creates attends roster attended (k.fork_creates parentId)
    | capAlloc cap =>
      have attends : k.Attends (.capAlloc cap) := trivial
      exact exact_capTables attends roster attended _
    | capAllocFor taskId cap => exact granted trivial (k.capAllocFor_grants taskId cap)
    | capDuplicate dstTaskId idx => exact granted trivial (k.capDuplicate_grants dstTaskId idx)
    | capTransfer dstTaskId idx =>
      have attends : k.Attends (.capTransfer dstTaskId idx) := trivial
      obtain ⟨after, grants, taken | taken⟩ := k.capTransfer_grants dstTaskId idx
      · rw [call, taken]
        exact granted attends grants
      · rw [call, taken]
        rcases grants with rfl | ⟨slot, cap, _, rfl⟩
        · exact exact_capTables attends roster attended _
        · exact exact_capTables attends roster attended _

/-- In a run of kernel calls in any interleaving, nobody waits for a task that has
ended throughout if and only if every call of the run attends to those it names or
leaves behind. -/
theorem attended_throughout_iff (roster : Roster k) (attended : Attended k)
    {taken : List (Transition Kernel Action)} {final : Kernel}
    (run : Trace Steps k taken final) :
    Throughout Attended k taken ↔ Guarded Attends taken := by
  refine Trace.throughout_iff_guarded (fun k => k.Roster ∧ k.Attended) ⟨roster, attended⟩
    (fun _ inv => inv.2) ?_ ?_ run
  · rintro before action after ⟨ids, nobody⟩ attends valid
    have exact := ids.step nobody valid
    exact ⟨exact.1, exact.2.mpr attends⟩
  · rintro before action after ⟨ids, nobody⟩ deserts valid
    exact (ids.step nobody valid).2.not.mpr deserts

theorem roster_twoTasks : Roster Traffic.twoTasks where
  awake := by decide
  bounded := by decide
  distinct := by decide

theorem attended_twoTasks : Attended Traffic.twoTasks :=
  fun slot _ => (not_waitsFor (by revert slot; decide) (by revert slot; decide)).elim

/-- Task 2 waits for anybody, task 1 sends to it and exits: nobody waits for task 1. -/
theorem attended_goodbye :
    ∃ taken final, record step Traffic.twoTasks
        [.tick, .recv 0, .send 0 (Message.ping 1 2), .exit 0#32] = some (taken, final) ∧
      final.Ended 1 ∧ Throughout Attended Traffic.twoTasks taken := by
  obtain ⟨⟨taken, final⟩, recorded, ended, guarded⟩ :
      ∃ run ∈ record step Traffic.twoTasks
          [.tick, .recv 0, .send 0 (Message.ping 1 2), .exit 0#32],
        run.2.Ended 1 ∧
          ∀ transition ∈ run.1, transition.before.Attends transition.label := by
    decide +kernel
  exact ⟨taken, final, recorded, ended,
    (attended_throughout_iff roster_twoTasks attended_twoTasks (trace_of_record recorded)).mpr
      guarded⟩

/-- Task 1 blocks in a send to task 2, and task 2 exits: task 1 waits for ever. -/
theorem exit_strands_sender :
    Roster Traffic.twoTasks ∧ Attended Traffic.twoTasks ∧
      ∃ taken final, Trace Steps Traffic.twoTasks taken final ∧
        ¬ Throughout Attended Traffic.twoTasks taken := by
  refine ⟨roster_twoTasks, attended_twoTasks, ?_⟩
  obtain ⟨⟨taken, final⟩, recorded, waits, ended⟩ :
      ∃ run ∈ record step Traffic.twoTasks [.send 0 (Message.ping 1 2), .exit 0#32],
        WaitsFor (run.2.tasks 0) 2 ∧ run.2.Ended 2 := by
    decide +kernel
  have run := trace_of_record recorded
  exact ⟨taken, final, run, fun attended =>
    run.final_of_throughout attended 0 2 waits ended⟩

end DBSos.Kernel
