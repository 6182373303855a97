import DBSos.Lib.Trace
import DBSos.System

/-!
# What a new tenant of a slot can see

`CAP_TABLES` and `PENDING` are indexed by slot, and a slot outlives its tasks.
Ids are handed out in order, so the value of `NEXT_ID` is a clock: something is
given to the task with id `i` after its creation when the clock shows more than
`i`. `Tenancy` is the kernel with the time at which each capability was filled
in; a message carries the time of its send as its stamp.
-/

namespace DBSos

open DBSos.Abi DBSos.Lib DBSos.Scheduler DBSos.Cap

structure Tenancy where
  kernel : Kernel
  givenAt : Slot → Nat → Nat

namespace Tenancy

/-- A message is stamped when it is sent. -/
def stamped (w : Tenancy) : Action → Action
  | .send capIdx msg => .send capIdx { msg with stamp := some w.kernel.nextId }
  | action => action

/-- The clock of every entry that the step has changed moves to the present. -/
def noteGrants (w : Tenancy) (after : Kernel) (slot : Slot) (idx : Nat) : Nat :=
  if (after.capTables slot).get idx = (w.kernel.capTables slot).get idx then w.givenAt slot idx
  else w.kernel.nextId

def step (w : Tenancy) (action : Action) : Option Tenancy :=
  (w.kernel.step (w.stamped action)).map fun after => ⟨after, w.noteGrants after⟩

def Steps (w : Tenancy) (action : Action) (w' : Tenancy) : Prop := w.step action = some w'

/-- The message was sent after the task with this id was created, or never sent. -/
def SentAfter (id : Nat) (msg : Message) : Prop := ∀ clock ∈ msg.stamp, id < clock

instance (id : Nat) (msg : Message) : Decidable (SentAfter id msg) :=
  inferInstanceAs (Decidable (∀ clock ∈ msg.stamp, _))

/-- A living task can see only what was given to it after its creation: in its
capability table, in its `PENDING` entry, on offer from a blocked sender, and in
its own `pending_msg`. -/
structure Own (w : Tenancy) : Prop where
  caps : ∀ slot idx cap, (w.kernel.tasks slot).Alive →
    (w.kernel.capTables slot).get idx = some cap → (w.kernel.tasks slot).id < w.givenAt slot idx
  pending : ∀ slot, (w.kernel.tasks slot).Alive → (w.kernel.pending slot).msgType ≠ 0 →
    SentAfter (w.kernel.tasks slot).id (w.kernel.pending slot)
  offers : ∀ slot sender, (w.kernel.tasks slot).Alive →
    (w.kernel.tasks sender).state = .blockedSend →
    (w.kernel.tasks sender).ipcPartner = (w.kernel.tasks slot).id →
    SentAfter (w.kernel.tasks slot).id (w.kernel.tasks sender).ipcMsg
  mail : ∀ slot, (w.kernel.tasks slot).Alive →
    SentAfter (w.kernel.tasks slot).id (w.kernel.tasks slot).pendingMsg

/-- The slot's capability table and `PENDING` entry are empty. -/
def Clear (k : Kernel) (slot : Slot) : Prop :=
  (∀ idx : Fin maxCapsPerProcess, (k.capTables slot).get idx = none) ∧ (k.pending slot).msgType = 0

instance (k : Kernel) (slot : Slot) : Decidable (Clear k slot) :=
  inferInstanceAs (Decidable (_ ∧ _))

/-- A creation that succeeds takes a slot that is clear. -/
def TakesClear (k : Kernel) (created : Option Nat) : Prop :=
  created ≠ none → ∀ slot, k.freeSlot = some slot → Clear k slot

instance (k : Kernel) (created : Option Nat) : Decidable (TakesClear k created) :=
  inferInstanceAs (Decidable (_ → ∀ _, _ → _))

/-- A new task takes a clear slot, and a task that blocks in the older send does
not hold a message from before its addressee's creation in `ipc_msg`. -/
def Hygienic (k : Kernel) : Action → Prop
  | .spawn => TakesClear k k.spawn.2
  | .spawnUser image => TakesClear k (k.spawnUser image).2
  | .sysFork => TakesClear k k.sysFork.2
  | .fork parentId => TakesClear k (k.fork parentId).2
  | .ipcSend dstId _ => ∀ dst, k.findTask dstId = some dst →
      ¬ Kernel.Matches (k.tasks dst) .blockedRecv k.currentTask.id →
      (∃ slot, (k.tasks slot).Alive ∧ (k.tasks slot).id = dstId) →
      SentAfter dstId k.currentTask.ipcMsg
  | _ => True

instance (k : Kernel) : (action : Action) → Decidable (Hygienic k action)
  | .spawn | .spawnUser _ | .sysFork | .fork _ => inferInstanceAs (Decidable (TakesClear k _))
  | .ipcSend _ _ => inferInstanceAs (Decidable (∀ _, _ → _ → _ → _))
  | .tick | .resume | .send _ _ | .recv _ | .ipcRecv _ | .exit _ | .waitpid _ _ | .capAlloc _
  | .capAllocFor _ _ | .capDuplicate _ _ | .capTransfer _ _ => inferInstanceAs (Decidable True)

/-- No message has been sent yet; ids come from `NEXT_ID`. -/
structure Boot (k : Kernel) : Prop where
  awake : k.currentTask.Alive
  ids : ∀ slot, (k.tasks slot).state ≠ .free → (k.tasks slot).id < k.nextId
  pending : ∀ slot, k.pending slot = Message.empty
  unsent : ∀ slot, (k.tasks slot).ipcMsg.stamp = none ∧ (k.tasks slot).pendingMsg.stamp = none
  quiet : ∀ slot, (k.tasks slot).state ≠ .blockedSend

/-- What a task holds at the start counts as given then. -/
def initial (k : Kernel) : Tenancy := ⟨k, fun _ _ => k.nextId⟩

/-! ## The invariant -/

variable {w : Tenancy}

/-- The clock has not passed this message's stamp. -/
def Dated (k : Kernel) (msg : Message) : Prop := ∀ clock ∈ msg.stamp, clock ≤ k.nextId

structure Inv (w : Tenancy) : Prop extends Own w where
  awake : w.kernel.halted = false → w.kernel.currentTask.Alive
  ids : ∀ slot, (w.kernel.tasks slot).state ≠ .free → (w.kernel.tasks slot).id < w.kernel.nextId
  clocks : ∀ slot idx, w.givenAt slot idx ≤ w.kernel.nextId
  dated : ∀ slot, Dated w.kernel (w.kernel.pending slot) ∧
    Dated w.kernel (w.kernel.tasks slot).ipcMsg ∧ Dated w.kernel (w.kernel.tasks slot).pendingMsg
  sent : ∀ slot, (w.kernel.pending slot).msgType ≠ 0 → (w.kernel.pending slot).stamp ≠ none
  partners : ∀ slot, (w.kernel.tasks slot).state = .blockedSend →
    (w.kernel.tasks slot).ipcPartner < w.kernel.nextId

theorem inv_initial {k : Kernel} (boot : Boot k) : Inv (initial k) where
  caps := fun slot _ _ alive _ => boot.ids slot alive.1
  pending := by
    intro slot _ held
    simp [initial, boot.pending] at held
  offers := fun _ sender _ blocked => absurd blocked (boot.quiet sender)
  mail := by
    intro slot _
    simp [initial, SentAfter, boot.unsent]
  awake := fun _ => boot.awake
  ids := boot.ids
  clocks := fun _ _ => le_rfl
  dated := by
    intro slot
    simp [initial, Dated, boot.pending, boot.unsent]
  sent := by
    intro slot held
    simp [initial, boot.pending] at held
  partners := fun slot blocked => absurd blocked (boot.quiet slot)

/-- The message has been sent in this step. -/
def SentNow (k : Kernel) (msg : Message) : Prop := msg.stamp = some k.nextId

/-- What a step that creates no task does: nobody comes to life, and a message is
where it was or has just been sent. A task that starts to offer a message names a
task that exists, and what it offers is no older than that task. -/
structure Serves (k k' : Kernel) : Prop where
  awake : k'.halted = false → k'.currentTask.Alive
  nextId : k'.nextId = k.nextId
  id : ∀ slot, (k'.tasks slot).id = (k.tasks slot).id
  used : ∀ slot, (k'.tasks slot).state ≠ .free → (k.tasks slot).state ≠ .free
  alive : ∀ slot, (k'.tasks slot).Alive → (k.tasks slot).Alive
  pending : ∀ slot, k'.pending slot = k.pending slot ∨ SentNow k (k'.pending slot) ∨
    k'.pending slot = Message.empty
  mail : ∀ slot, (k'.tasks slot).pendingMsg = (k.tasks slot).pendingMsg ∨
    SentNow k (k'.tasks slot).pendingMsg
  offer : ∀ slot, (k'.tasks slot).ipcMsg = (k.tasks slot).ipcMsg ∨ SentNow k (k'.tasks slot).ipcMsg
  partner : ∀ slot, (k'.tasks slot).state = .blockedSend →
    (k.tasks slot).state = .blockedSend ∧ (k'.tasks slot).ipcPartner = (k.tasks slot).ipcPartner ∧
        (k'.tasks slot).ipcMsg = (k.tasks slot).ipcMsg ∨
      (k'.tasks slot).ipcPartner < k.nextId ∧
        ∀ dst, (k'.tasks dst).Alive → (k'.tasks slot).ipcPartner = (k'.tasks dst).id →
          SentAfter (k'.tasks dst).id (k'.tasks slot).ipcMsg

theorem SentNow.after {k : Kernel} {msg : Message} {id : Nat} (now : SentNow k msg)
    (below : id < k.nextId) : SentAfter id msg := by
  intro clock stamp
  rw [now] at stamp
  exact Option.some.inj stamp ▸ below

theorem SentNow.dated {k : Kernel} {msg : Message} (now : SentNow k msg) : Dated k msg := by
  intro clock stamp
  rw [now] at stamp
  exact (Option.some.inj stamp).symm.le

theorem Inv.serves (inv : Inv w) {k : Kernel} (serves : Serves w.kernel k) :
    Inv ⟨k, w.noteGrants k⟩ where
  caps := by
    intro slot idx cap alive held
    have before := serves.alive slot alive
    rw [serves.id]
    by_cases same : (k.capTables slot).get idx = (w.kernel.capTables slot).get idx
    · simpa [noteGrants, same] using inv.caps slot idx cap before (same ▸ held)
    · simpa [noteGrants, same] using inv.ids slot before.1
  pending := by
    intro slot alive held
    have before := serves.alive slot alive
    rw [serves.id]
    rcases serves.pending slot with same | now | empty
    · simp only [same] at held ⊢
      exact inv.pending slot before held
    · exact now.after (inv.ids slot before.1)
    · simp [empty] at held
  offers := by
    intro slot sender alive blocked offered
    rcases serves.partner sender blocked with ⟨wasBlocked, partner, msg⟩ | ⟨_, sent⟩
    · simp only [partner, serves.id, msg] at offered ⊢
      exact inv.offers slot sender (serves.alive slot alive) wasBlocked offered
    · exact sent slot alive offered
  mail := by
    intro slot alive
    have before := serves.alive slot alive
    rw [serves.id]
    rcases serves.mail slot with same | now
    · simp only [same]
      exact inv.mail slot before
    · exact now.after (inv.ids slot before.1)
  awake := serves.awake
  ids := by
    intro slot used
    simp only [serves.id, serves.nextId]
    exact inv.ids slot (serves.used slot used)
  clocks := by
    intro slot idx
    simp only [noteGrants, serves.nextId]
    split_ifs
    · exact inv.clocks slot idx
    · exact le_rfl
  dated := by
    intro slot
    obtain ⟨pending, offer, mail⟩ := inv.dated slot
    simp only [Dated, serves.nextId]
    refine ⟨?_, ?_, ?_⟩
    · rcases serves.pending slot with same | now | empty
      · rw [same]
        exact pending
      · exact now.dated
      · simp [empty]
    · rcases serves.offer slot with same | now
      · rw [same]
        exact offer
      · exact now.dated
    · rcases serves.mail slot with same | now
      · rw [same]
        exact mail
      · exact now.dated
  sent := by
    intro slot held
    rcases serves.pending slot with same | now | empty
    · simp only [same] at held ⊢
      exact inv.sent slot held
    · simp [show (k.pending slot).stamp = _ from now]
    · simp [empty] at held
  partners := by
    intro slot blocked
    simp only [serves.nextId]
    rcases serves.partner slot blocked with ⟨wasBlocked, partner, _⟩ | ⟨below, _⟩
    · rw [partner]
      exact inv.partners slot wasBlocked
    · exact below

/-! ## What the calls return -/

/-! ## Calls that create no task -/

section Serves

variable {k k' : Kernel}

theorem Serves.refl (awake : k.halted = false → k.currentTask.Alive) : Serves k k where
  awake := awake
  nextId := rfl
  id := fun _ => rfl
  used := fun _ used => used
  alive := fun _ alive => alive
  pending := fun _ => .inl rfl
  mail := fun _ => .inl rfl
  offer := fun _ => .inl rfl
  partner := fun _ blocked => .inl ⟨blocked, rfl, rfl⟩

/-- The current task's continuation plays no part. -/
theorem Serves.frame (serves : Serves k k') (frame : Frame) : Serves k (k'.setFrame frame) where
  awake := serves.awake
  nextId := serves.nextId
  id := serves.id
  used := serves.used
  alive := serves.alive
  pending := serves.pending
  mail := serves.mail
  offer := serves.offer
  partner := serves.partner

theorem Serves.reschedule (serves : Serves k k') (alive : k'.currentTask.Alive) :
    Serves k k'.reschedule where
  awake := fun _ => Kernel.reschedule_alive alive
  nextId := by simpa using serves.nextId
  id := by simpa using serves.id
  used := by simpa using serves.used
  alive := by simpa [Task.Alive] using serves.alive
  pending := by simpa using serves.pending
  mail := by simpa using serves.mail
  offer := by simpa using serves.offer
  partner := by simpa [Task.Alive] using serves.partner

/-- One record changes, between living states and under the same id. -/
theorem Serves.edit (awake : k.currentTask.Alive) {slot : Slot} {t : Task}
    (alive : (k.tasks slot).Alive) (live : t.Alive) (same : t.id = (k.tasks slot).id)
    (mail : t.pendingMsg = (k.tasks slot).pendingMsg ∨ SentNow k t.pendingMsg)
    (offer : t.ipcMsg = (k.tasks slot).ipcMsg ∨ SentNow k t.ipcMsg)
    (partner : t.state = .blockedSend → t.ipcPartner < k.nextId ∧
      ∀ dst, (k.tasks dst).Alive → t.ipcPartner = (k.tasks dst).id →
        SentAfter (k.tasks dst).id t.ipcMsg) :
    Serves k (k.setTask slot t) where
  awake := by
    intro _
    by_cases here : k.current = slot
    · simpa [Kernel.currentTask, here] using live
    · simpa [Kernel.currentTask, here] using awake
  nextId := rfl
  id := by
    intro one
    by_cases here : one = slot <;> simp [here, same]
  used := by
    intro one
    by_cases here : one = slot
    · simp [here, alive.1]
    · simp [here]
  alive := by
    intro one
    by_cases here : one = slot
    · simp [here, alive]
    · simp [here]
  pending := fun _ => .inl rfl
  mail := by
    intro one
    by_cases here : one = slot
    · simpa [here] using mail
    · simp [here]
  offer := by
    intro one
    by_cases here : one = slot
    · simpa [here] using offer
    · simp [here]
  partner := by
    intro one blocked
    by_cases here : one = slot
    · simp only [here, Kernel.setTask_tasks, Function.update_self] at blocked ⊢
      refine .inr ⟨(partner blocked).1, fun dst reader names => ?_⟩
      by_cases atSlot : dst = slot
      · simp only [atSlot, Function.update_self, same] at names ⊢
        exact (partner blocked).2 slot alive names
      · simp only [Function.update_of_ne atSlot] at reader names ⊢
        exact (partner blocked).2 dst reader names
    · simp only [Kernel.setTask_tasks, Function.update_of_ne here] at blocked ⊢
      exact .inl ⟨blocked, by simp, by simp⟩

/-- The record does not offer a message afterwards. -/
theorem Serves.quiet (awake : k.currentTask.Alive) {slot : Slot} {t : Task}
    (alive : (k.tasks slot).Alive) (live : t.Alive) (same : t.id = (k.tasks slot).id)
    (mail : t.pendingMsg = (k.tasks slot).pendingMsg ∨ SentNow k t.pendingMsg)
    (offer : t.ipcMsg = (k.tasks slot).ipcMsg) (idle : t.state ≠ .blockedSend) :
    Serves k (k.setTask slot t) :=
  .edit awake alive live same mail (.inl offer) fun blocked => absurd blocked idle

end Serves

/-- What a blocked sender offers already. -/
theorem Inv.offered (inv : Inv w) (sender : Slot)
    (blocked : (w.kernel.tasks sender).state = .blockedSend) :
    (w.kernel.tasks sender).ipcPartner < w.kernel.nextId ∧
      ∀ dst, (w.kernel.tasks dst).Alive →
        (w.kernel.tasks sender).ipcPartner = (w.kernel.tasks dst).id →
        SentAfter (w.kernel.tasks dst).id (w.kernel.tasks sender).ipcMsg :=
  ⟨inv.partners sender blocked, fun dst alive names => inv.offers dst sender alive blocked names⟩

theorem Inv.send_serves (inv : Inv w) (running : w.kernel.halted = false) {capIdx : Nat}
    {msg : Message} (now : SentNow w.kernel msg) :
    Serves w.kernel (w.kernel.sendWithCap capIdx msg).settle := by
  have alive := inv.awake running
  rcases w.kernel.sendWithCap_cases capIdx msg with
    ⟨_, code, _, refused⟩ | ⟨cap, dst, can, ⟨_, taken⟩ | ⟨_, waits, taken⟩ | ⟨_, _, taken⟩⟩
  · rw [refused]
    exact .refl inv.awake
  · rw [taken]
    refine { Serves.refl inv.awake with pending := fun slot => ?_ }
    by_cases here : slot = w.kernel.current
    · exact .inr (.inl (by simpa [Blocking.settle, here] using now))
    · exact .inl (by simp [Blocking.settle, here])
  · rw [taken, Kernel.wakeAndDeliver_eq]
    exact .quiet alive (by simp [Task.Alive, waits.1]) (by simp [Task.Alive]) rfl (.inr now) rfl
      (by simp)
  · -- the addressee exists, and the message is sent now
    rw [taken]
    have found := Kernel.findTask_some can.found
    have below : cap.serverId < w.kernel.nextId := found.2 ▸ inv.ids dst found.1
    have blocks : Serves w.kernel (w.kernel.blockSender cap.serverId msg) :=
      .edit alive alive (by simp [Task.Alive]) rfl (.inl rfl) (.inr now) fun _ =>
        ⟨below, fun reader isAlive _ => now.after (inv.ids reader isAlive.1)⟩
    exact (blocks.frame _).reschedule (by simp [Kernel.blockSender, Kernel.modifyTask, Kernel.currentTask,
      Kernel.setFrame, Task.Alive])

theorem Inv.recv_serves (inv : Inv w) (running : w.kernel.halted = false) {capIdx : Nat} :
    Serves w.kernel (w.kernel.recvWithCap capIdx).settle := by
  have alive := inv.awake running
  rcases w.kernel.recvWithCap_cases capIdx with
    ⟨_, code, _, refused⟩ | ⟨_, ⟨_, taken⟩ | ⟨_, ⟨sender, found, taken⟩ | ⟨_, _, taken⟩ |
      ⟨_, _, taken⟩⟩⟩
  · rw [refused]
    exact .refl inv.awake
  · rw [taken]
    refine { Serves.refl inv.awake with pending := fun slot => ?_ }
    by_cases here : slot = w.kernel.current
    · exact .inr (.inr (by simp [Blocking.settle, here]))
    · exact .inl (by simp [Blocking.settle, here])
  · rw [taken]
    exact .quiet alive (by simp [Task.Alive, (Kernel.findSender_some found).1])
      (by simp [Task.Alive]) rfl (.inl rfl) rfl (by simp)
  · rw [taken]
    exact .edit alive alive alive rfl (.inl rfl) (.inl rfl) (inv.offered w.kernel.current)
  · rw [taken]
    have blocks : Serves w.kernel (w.kernel.modifyTask w.kernel.current fun t =>
        { t with state := .blockedRecv, ipcPartner := Kernel.anyPartner }) :=
      .quiet alive alive (by simp [Task.Alive]) rfl (.inl rfl) rfl (by simp)
    exact (blocks.frame _).reschedule (by simp [Kernel.modifyTask, Kernel.currentTask, Kernel.setFrame,
      Task.Alive])

theorem Inv.ipcSend_serves (inv : Inv w) (running : w.kernel.halted = false) {dstId word : Nat}
    (hygienic : Hygienic w.kernel (.ipcSend dstId word)) :
    Serves w.kernel (w.kernel.ipcSend dstId word).settle := by
  have alive := inv.awake running
  unfold Kernel.ipcSend
  cases found : w.kernel.findTask dstId with
  | none => exact .refl inv.awake
  | some dst =>
    have exists' := Kernel.findTask_some found
    by_cases waits : Kernel.Matches (w.kernel.tasks dst) .blockedRecv w.kernel.currentTask.id
    · simp only [waits, if_true]
      exact .quiet alive (by simp [Task.Alive, waits.1]) (by simp [Task.Alive]) rfl (.inl rfl) rfl
        (by simp)
    · simp only [waits, if_false]
      have below : dstId < w.kernel.nextId := exists'.2 ▸ inv.ids dst exists'.1
      have blocks : Serves w.kernel (w.kernel.modifyTask w.kernel.current fun t =>
          { t with state := .blockedSend, ipcPartner := dstId, ipcVal := word }) :=
        .edit alive alive (by simp [Task.Alive]) rfl (.inl rfl) (.inl rfl) fun _ =>
          ⟨below, fun reader isAlive names =>
            names ▸ hygienic dst found waits ⟨reader, isAlive, names.symm⟩⟩
      exact (blocks.frame _).reschedule (by simp [Kernel.modifyTask, Kernel.currentTask,
        Kernel.setFrame, Task.Alive])

theorem Inv.ipcRecv_serves (inv : Inv w) (running : w.kernel.halted = false) {srcId : Nat} :
    Serves w.kernel (w.kernel.ipcRecv srcId).settle := by
  have alive := inv.awake running
  unfold Kernel.ipcRecv
  cases found : w.kernel.matchRecv srcId with
  | none =>
    have blocks : Serves w.kernel (w.kernel.modifyTask w.kernel.current fun t =>
        { t with
          state := .blockedRecv
          ipcPartner := if srcId = 0 then Kernel.ipcAny else srcId }) :=
      .quiet alive alive (by simp [Task.Alive]) rfl (.inl rfl) rfl (by simp)
    exact (blocks.frame _).reschedule (by simp [Kernel.modifyTask, Kernel.currentTask,
      Kernel.setFrame, Task.Alive])
  | some src =>
    exact .quiet alive (by simp [Task.Alive, (Kernel.matchRecv_some found).1])
      (by simp [Task.Alive]) rfl (.inl rfl) rfl (by simp)

theorem Inv.exit_serves (inv : Inv w) (running : w.kernel.halted = false) {status : BitVec 32} :
    Serves w.kernel (w.kernel.exitWithStatus status) where
  awake := w.kernel.exitWithStatus_awake status
  nextId := w.kernel.exitWithStatus_nextId status
  id := fun slot => (w.kernel.exitWithStatus_task status slot).1
  used := w.kernel.exitWithStatus_used (inv.awake running) status
  alive := fun slot alive => ((w.kernel.exitWithStatus_alive status slot).mp alive).2
  pending := fun slot => .inl (by rw [w.kernel.exitWithStatus_pending status])
  mail := fun slot => .inl (w.kernel.exitWithStatus_task status slot).2.2.2.1
  offer := fun slot => .inl (w.kernel.exitWithStatus_task status slot).2.2.1
  partner := by
    intro slot blocked
    obtain ⟨_, partner, msg, _, blockedSend, _⟩ := w.kernel.exitWithStatus_task status slot
    exact .inl ⟨(blockedSend.mp blocked).2, partner, msg⟩

/-- An exited task leaves its slot. -/
theorem reap_serves {k : Kernel} (awake : k.halted = false → k.currentTask.Alive) {slot : Slot}
    (zombie : (k.tasks slot).state = .exited) (statusPtr : BitVec 64) :
    Serves k (k.reap slot statusPtr).1 := by
  have tasks : ∀ one, (k.reap slot statusPtr).1.tasks one =
      if one = slot then { k.tasks slot with state := .free } else k.tasks one := by
    intro one
    by_cases here : one = slot <;> simp [Kernel.reap, Kernel.modifyTask, here]
  have state : ∀ one, ((k.reap slot statusPtr).1.tasks one).state ≠ .free →
      (k.reap slot statusPtr).1.tasks one = k.tasks one := by
    intro one
    rw [tasks]
    split_ifs <;> simp
  refine ⟨fun running => ?_, rfl, fun one => ?_, fun one used => ?_, fun one alive => ?_,
    fun _ => .inl rfl, fun one => .inl ?_, fun one => .inl ?_, fun one blocked => .inl ?_⟩
  · have differs : k.current ≠ slot := by
      intro here
      exact (awake running).2 (by simpa [Kernel.currentTask, here] using zombie)
    have kept := tasks k.current
    rw [if_neg differs] at kept
    show ((k.reap slot statusPtr).1.tasks k.current).Alive
    exact kept ▸ awake running
  · rw [tasks]
    split_ifs with here <;> simp [here]
  · exact state one used ▸ used
  · exact state one alive.1 ▸ alive
  · rw [tasks]
    split_ifs with here <;> simp [here]
  · rw [tasks]
    split_ifs with here <;> simp [here]
  · have kept := state one (by simp [blocked])
    rw [kept] at blocked ⊢
    exact ⟨blocked, rfl, rfl⟩

theorem Inv.waitpid_serves (inv : Inv w) (running : w.kernel.halted = false) {pid : Nat}
    {statusPtr : BitVec 64} : Serves w.kernel (w.kernel.waitpid pid statusPtr).settle := by
  have alive := inv.awake running
  unfold Kernel.waitpid
  cases found : w.kernel.exitedChild pid with
  | some slot =>
    have zombie := Kernel.findSlot_some found
    simp only [decide_eq_true_eq] at zombie
    exact reap_serves inv.awake zombie.2.2 statusPtr
  | none =>
    have blocks : Serves w.kernel (w.kernel.modifyTask w.kernel.current fun t =>
        { t with state := .blockedRecv, ipcPartner := 0 }) :=
      .quiet alive alive (by simp [Task.Alive]) rfl (.inl rfl) rfl (by simp)
    exact (blocks.frame _).reschedule (by simp [Kernel.modifyTask, Kernel.currentTask,
      Kernel.setFrame, Task.Alive])

/-- Only capability tables change. -/
theorem Serves.grants {k after : Kernel} (awake : k.halted = false → k.currentTask.Alive)
    {taskId : Nat} (grants : k.Grants taskId after) : Serves k after := by
  rcases grants with rfl | ⟨slot, cap, _, rfl⟩
  · exact .refl awake
  · exact { Serves.refl awake with }

theorem Inv.capTransfer_serves (inv : Inv w) {dstTaskId idx : Nat} :
    Serves w.kernel (w.kernel.capTransfer dstTaskId idx).1 := by
  obtain ⟨granted, grants, taken | taken⟩ := w.kernel.capTransfer_grants dstTaskId idx
  · rw [taken]
    exact .grants inv.awake grants
  · rw [taken]
    exact { Serves.grants inv.awake grants with }

/-- A call behind its `yield_now`. -/
theorem Inv.resume_serves (inv : Inv w) (running : w.kernel.halted = false) {after : Kernel}
    (resumed : (w.kernel.setFrame .outside).resumeFrame (w.kernel.frames w.kernel.current) =
      some after) : Serves w.kernel after := by
  have alive := inv.awake running
  have left := (Serves.refl inv.awake).frame .outside
  cases frame : w.kernel.frames w.kernel.current with
  | outside =>
    rw [frame] at resumed
    cases resumed
  | sendWithCap =>
    rw [frame] at resumed
    obtain rfl := Option.some.inj resumed
    exact left
  | recvWithCap =>
    rw [frame] at resumed
    obtain rfl := Option.some.inj resumed
    unfold Kernel.resumeRecv
    split_ifs
    · have read : Serves w.kernel (w.kernel.modifyTask w.kernel.current fun t =>
          { t with ipcVal := 0 }) :=
        .edit alive alive alive rfl (.inl rfl) (.inl rfl) (inv.offered w.kernel.current)
      exact read.frame .outside
    · exact left
  | ipcSend =>
    rw [frame] at resumed
    obtain rfl := Option.some.inj resumed
    exact left
  | ipcRecv =>
    rw [frame] at resumed
    obtain rfl := Option.some.inj resumed
    exact left
  | waitpid pid statusPtr =>
    rw [frame] at resumed
    obtain rfl := Option.some.inj resumed
    unfold Kernel.resumeWaitpid
    split_ifs with bound zombie
    · exact (reap_serves inv.awake zombie statusPtr).frame .outside
    · exact left
    · exact left

/-! ## New tasks -/

/-- A new task under id `NEXT_ID` sees exactly what the slot held before it. -/
theorem Inv.install (inv : Inv w) {k' : Kernel} {slot : Slot} {t : Task}
    (vacant : (w.kernel.tasks slot).state = .free) (newborn : Kernel.Newborn t w.kernel.nextId)
    (tasks : k'.tasks = Function.update w.kernel.tasks slot t)
    (capTables : k'.capTables = w.kernel.capTables) (pending : k'.pending = w.kernel.pending)
    (current : k'.current = w.kernel.current) (nextId : k'.nextId = w.kernel.nextId + 1)
    (halted : k'.halted = w.kernel.halted) :
    (Clear w.kernel slot → Inv ⟨k', w.noteGrants k'⟩) ∧
      (¬ Clear w.kernel slot → ¬ Own ⟨k', w.noteGrants k'⟩) := by
  have givenAt : w.noteGrants k' = w.givenAt := by
    funext one idx
    simp [noteGrants, capTables]
  have alive : t.Alive := by simp [Task.Alive, newborn.state]
  have notOffer : t.state ≠ .blockedSend := by simp [newborn.state]
  rw [givenAt]
  refine ⟨fun clear => ?_, fun cluttered own => ?_⟩
  · have empty : ∀ idx, (w.kernel.capTables slot).get idx = none := by
      intro idx
      by_cases bound : idx < maxCapsPerProcess
      · exact clear.1 ⟨idx, bound⟩
      · simp [CapTable.get, bound]
    refine ⟨⟨fun one idx cap isAlive held => ?_, fun one isAlive held => ?_,
      fun one sender isAlive blocked names => ?_, fun one isAlive => ?_⟩, fun running => ?_,
      fun one used => ?_, fun one idx => ?_, fun one => ?_, fun one held => ?_,
      fun one blocked => ?_⟩ <;>
      simp only [tasks, capTables, pending, nextId, Dated, Kernel.currentTask, current] at *
    · by_cases here : one = slot
      · subst here
        simp [empty] at held
      · rw [Function.update_of_ne here] at isAlive ⊢
        exact inv.caps one idx cap isAlive held
    · by_cases here : one = slot
      · subst here
        exact absurd clear.2 held
      · rw [Function.update_of_ne here] at isAlive ⊢
        exact inv.pending one isAlive held
    · have elsewhere : sender ≠ slot := by
        rintro rfl
        exact notOffer (by simpa using blocked)
      rw [Function.update_of_ne elsewhere] at blocked names ⊢
      by_cases here : one = slot
      · subst here
        rw [Function.update_self, newborn.id] at names
        exact absurd names (inv.partners sender blocked).ne
      · rw [Function.update_of_ne here] at isAlive names ⊢
        exact inv.offers one sender isAlive blocked names
    · by_cases here : one = slot
      · subst here
        simp [SentAfter, newborn.pendingMsg]
      · rw [Function.update_of_ne here] at isAlive ⊢
        exact inv.mail one isAlive
    · by_cases here : w.kernel.current = slot
      · simpa [here] using alive
      · simpa [here, Kernel.currentTask] using inv.awake (halted ▸ running)
    · by_cases here : one = slot
      · subst here
        simp [newborn.id]
      · rw [Function.update_of_ne here] at used ⊢
        exact Nat.lt_succ_of_lt (inv.ids one used)
    · exact (inv.clocks one idx).trans (Nat.le_succ _)
    · obtain ⟨inPending, inOffer, inMail⟩ := inv.dated one
      refine ⟨fun clock stamp => (inPending clock stamp).trans (Nat.le_succ _), ?_, ?_⟩
      · by_cases here : one = slot
        · simp [here, newborn.ipcMsg]
        · simpa [here] using fun clock stamp => (inOffer clock stamp).trans (Nat.le_succ _)
      · by_cases here : one = slot
        · simp [here, newborn.pendingMsg]
        · simpa [here] using fun clock stamp => (inMail clock stamp).trans (Nat.le_succ _)
    · exact inv.sent one held
    · have elsewhere : one ≠ slot := by
        rintro rfl
        exact notOffer (by simpa using blocked)
      rw [Function.update_of_ne elsewhere] at blocked ⊢
      exact Nat.lt_succ_of_lt (inv.partners one blocked)
  · have record : k'.tasks slot = t := by simp [tasks]
    have isAlive : (k'.tasks slot).Alive := record.symm ▸ alive
    have id : (k'.tasks slot).id = w.kernel.nextId := record.symm ▸ newborn.id
    by_cases held : (w.kernel.pending slot).msgType = 0
    · have left : ¬ ∀ idx : Fin maxCapsPerProcess, (w.kernel.capTables slot).get idx = none :=
        fun empty => cluttered ⟨empty, held⟩
      obtain ⟨idx, full⟩ := not_forall.mp left
      obtain ⟨cap, found⟩ := Option.ne_none_iff_exists'.mp full
      have later := own.caps slot idx cap isAlive (by simpa [capTables] using found)
      simp only [id] at later
      exact absurd (inv.clocks slot idx) (not_le.mpr later)
    · obtain ⟨clock, stamp⟩ := Option.ne_none_iff_exists'.mp (inv.sent slot held)
      have later := own.pending slot isAlive (by simpa [pending] using held) clock
        (by simpa [pending] using stamp)
      simp only [id] at later
      exact absurd ((inv.dated slot).1 clock stamp) (not_le.mpr later)

theorem Inv.creates (inv : Inv w) {result : Kernel × Option Nat}
    (creates : w.kernel.Creates result) :
    (TakesClear w.kernel result.2 → Inv ⟨result.1, w.noteGrants result.1⟩) ∧
      (¬ TakesClear w.kernel result.2 → ¬ Own ⟨result.1, w.noteGrants result.1⟩) := by
  rcases creates with ⟨phys, rfl⟩ | ⟨slot, t, phys, free, newborn, rfl⟩
  · exact ⟨fun _ => inv.serves { Serves.refl inv.awake with },
      fun cluttered => absurd (fun created => absurd rfl created) cluttered⟩
  · have takes : TakesClear w.kernel (some w.kernel.nextId) ↔ Clear w.kernel slot := by
      simp [TakesClear, free]
    rw [takes]
    exact inv.install (Kernel.freeSlot_some free) newborn rfl rfl rfl rfl rfl rfl

/-! ## Runs -/

/-- An old `ipc_msg` is offered to a younger task. -/
theorem not_own_of_stale_offer {dstId word : Nat} {givenAt : Slot → Nat → Nat}
    (stale : ¬ Hygienic w.kernel (.ipcSend dstId word)) :
    ¬ Own ⟨(w.kernel.ipcSend dstId word).settle, givenAt⟩ := by
  simp only [Hygienic, not_forall] at stale
  obtain ⟨dst, found, waits, ⟨reader, alive, id⟩, older⟩ := stale
  have blocks : w.kernel.ipcSend dstId word =
      .yield (w.kernel.modifyTask w.kernel.current fun t =>
        { t with state := .blockedSend, ipcPartner := dstId, ipcVal := word }) .ipcSend := by
    simp [Kernel.ipcSend, found, waits]
  rw [blocks]
  intro own
  refine older (id ▸ ?_)
  have sees := own.offers reader w.kernel.current
  simp only [Blocking.settle, Kernel.suspend, Kernel.reschedule_id, Kernel.reschedule_blockedSend,
    Kernel.reschedule_ipcPartner, Kernel.reschedule_ipcMsg, Task.Alive, ne_eq,
    Kernel.reschedule_free, Kernel.reschedule_exited, Kernel.setFrame_tasks] at sees
  by_cases here : reader = w.kernel.current
  · subst here
    simpa [Kernel.modifyTask, Kernel.currentTask, id] using sees
  · simpa [Kernel.modifyTask, Kernel.currentTask, here, id, alive.1, alive.2] using sees

/-- A step keeps the invariant if it is hygienic, and else lets a living task see
something older than itself. -/
theorem Inv.step {w w' : Tenancy} {action : Action} (inv : Inv w) (valid : w.Steps action w') :
    (Hygienic w.kernel action → Inv w') ∧ (¬ Hygienic w.kernel action → ¬ Own w') := by
  obtain ⟨after, taken, rfl⟩ := Option.map_eq_some_iff.mp valid
  have harmless : Hygienic w.kernel action → Serves w.kernel after →
      (Hygienic w.kernel action → Inv ⟨after, w.noteGrants after⟩) ∧
        (¬ Hygienic w.kernel action → ¬ Own ⟨after, w.noteGrants after⟩) :=
    fun hygienic serves => ⟨fun _ => inv.serves serves, fun not => absurd hygienic not⟩
  obtain ⟨running, ⟨tick, rfl⟩ | ⟨resume, resumed⟩ | ⟨notTick, notResume, outside, rfl⟩⟩ :=
    Kernel.step_cases taken
  · have isTick : action = .tick := by cases action <;> simp_all [stamped]
    subst isTick
    exact harmless trivial ((Serves.refl inv.awake).reschedule (inv.awake running))
  · have isResume : action = .resume := by cases action <;> simp_all [stamped]
    subst isResume
    exact harmless trivial (inv.resume_serves running resumed)
  · cases action with
    | tick => exact absurd rfl notTick
    | resume => exact absurd rfl notResume
    | send capIdx msg => exact harmless trivial (inv.send_serves running rfl)
    | recv capIdx => exact harmless trivial (inv.recv_serves running)
    | ipcSend dstId word =>
      exact ⟨fun hygienic => inv.serves (inv.ipcSend_serves running hygienic),
        not_own_of_stale_offer⟩
    | ipcRecv srcId => exact harmless trivial (inv.ipcRecv_serves running)
    | exit status => exact harmless trivial (inv.exit_serves running)
    | waitpid pid statusPtr => exact harmless trivial (inv.waitpid_serves running)
    | spawn => exact inv.creates w.kernel.spawn_creates
    | spawnUser image => exact inv.creates (w.kernel.spawnUser_creates image)
    | sysFork => exact inv.creates w.kernel.sysFork_creates
    | fork parentId => exact inv.creates (w.kernel.fork_creates parentId)
    | capAlloc cap => exact harmless trivial { Serves.refl inv.awake with }
    | capAllocFor taskId cap =>
      exact harmless trivial (.grants inv.awake (w.kernel.capAllocFor_grants taskId cap))
    | capDuplicate dstTaskId idx =>
      exact harmless trivial (.grants inv.awake (w.kernel.capDuplicate_grants dstTaskId idx))
    | capTransfer dstTaskId idx => exact harmless trivial inv.capTransfer_serves

/-- In a run of kernel calls in any interleaving, every living task sees only what
was given to it after its creation if and only if every new task of the run takes
a clear slot and no older send of the run offers a message from before its
addressee's creation. -/
theorem own_throughout_iff {k : Kernel} (boot : Boot k)
    {taken : List (Transition Tenancy Action)} {final : Tenancy}
    (run : Trace Steps (initial k) taken final) :
    Throughout Own (initial k) taken ↔ Guarded (fun w => Hygienic w.kernel) taken :=
  Trace.throughout_iff_guarded Inv (inv_initial boot) (fun _ inv => inv.toOwn)
    (fun _ _ _ inv hygienic valid => (inv.step valid).1 hygienic)
    (fun _ _ _ inv unclean valid => (inv.step valid).2 unclean) run

/-- The boot task, a running parent with id 1 and its ready child with id 2, each in
the slot of its id, and 64 free pages. -/
def household : Kernel where
  tasks := fun slot =>
    if slot = 0 then { Task.free with state := .ready }
    else if slot = 1 then { Task.free with state := .running, id := 1 }
    else if slot = 2 then { Task.free with state := .ready, id := 2, parentId := 1 }
    else Task.free
  current := 1
  nextId := 3
  pending := fun _ => Message.empty
  capTables := fun _ => CapTable.new
  phys := ⟨⟨0x100000, fun _ => 0#8, 0x101000, 64, 64, 0⟩, fun _ _ => 0#64⟩
  kernelPml4 := 0
  frames := fun _ => .outside
  halted := false

theorem boot_household : Boot household where
  awake := by decide
  ids := by decide
  pending := fun _ => rfl
  unsent := by decide
  quiet := by decide

/-- A capability to send to task 1. -/
def sendToParent : Cap := ⟨CapType.ipcTarget.value, 1, capSend, 0⟩

/-- The child gets a capability, and a new task takes the clear slot 3. -/
theorem own_household :
    ∃ taken final, record step (initial household) [.capAllocFor 2 sendToParent, .spawn] =
        some (taken, final) ∧
      final.kernel.nextId = 4 ∧ Throughout Own (initial household) taken := by
  obtain ⟨⟨taken, final⟩, recorded, created, guarded⟩ :
      ∃ run ∈ record step (initial household) [.capAllocFor 2 sendToParent, .spawn],
        run.2.kernel.nextId = 4 ∧
        ∀ transition ∈ run.1, Hygienic transition.before.kernel transition.label := by
    decide +kernel
  exact ⟨taken, final, recorded, created,
    (own_throughout_iff boot_household (trace_of_record recorded)).mpr guarded⟩

/-- The child gets a capability, exits and is reaped: the new task in its slot finds
the capability. -/
theorem inherited_cap :
    Boot household ∧ ∃ taken final, Trace Steps (initial household) taken final ∧
      ¬ Throughout Own (initial household) taken := by
  refine ⟨boot_household, ?_⟩
  obtain ⟨⟨taken, final⟩, recorded, alive, id, held, givenAt⟩ :
      ∃ run ∈ record step (initial household)
          [.capAllocFor 2 sendToParent, .tick, .exit 0#32, .tick, .waitpid 0 0#64, .spawn],
        (run.2.kernel.tasks 2).Alive ∧ (run.2.kernel.tasks 2).id = 3 ∧
          (run.2.kernel.capTables 2).get 0 = some sendToParent ∧ run.2.givenAt 2 0 = 3 := by
    decide +kernel
  have run := trace_of_record recorded
  refine ⟨taken, final, run, fun own => ?_⟩
  have later := (run.final_of_throughout own).caps 2 0 sendToParent alive held
  rw [id, givenAt] at later
  exact absurd later (lt_irrefl 3)

end Tenancy

end DBSos
