import DBSos.Ipc.Traffic

/-!
# Each call as one event of custody

A send issues its message into `PENDING`, a mailbox or the sender's own record;
a receive hands one out; a call that blocks and an exit drop what the task still
offers. One lemma for each path says so and re-establishes the ledger
(`Moves`). No path checks whether the place it writes is empty.
-/

namespace DBSos.Traffic

open DBSos.Abi DBSos.Lib DBSos.Scheduler

variable {w w' : Traffic}

/-- One step of a run read as an event of custody. -/
structure Moves (w w' : Traffic) (event : Event Place Parcel) : Prop where
  custody : w'.custody = w.custody.apply event
  admissible : w.custody.Admissible event
  ledger : Ledger w'

/-! ## Numbers -/

theorem Ledger.stamp_of_mem (ledger : Ledger w) {parcel : Parcel} (member : parcel ∈ w.sent) :
    ∃ n < w.sent.length, parcel.msg.stamp = some n := by
  have mapped : parcel.msg.stamp ∈ w.sent.map fun parcel => parcel.msg.stamp :=
    List.mem_map_of_mem member
  rw [ledger.numbered] at mapped
  obtain ⟨n, bound, stamp⟩ := List.mem_map.mp mapped
  exact ⟨n, List.mem_range.mp bound, stamp.symm⟩

/-- The next number is on no record. -/
theorem Ledger.fresh (ledger : Ledger w) {parcel : Parcel}
    (new : parcel.msg.stamp = some w.sent.length) : parcel ∉ w.sent ∧ parcel ∉ w.received := by
  have unsent : parcel ∉ w.sent := by
    intro member
    obtain ⟨n, bound, stamp⟩ := ledger.stamp_of_mem member
    rw [new] at stamp
    have same := Option.some.inj stamp
    omega
  refine ⟨unsent, fun member => ?_⟩
  rcases ledger.known parcel member with unstamped | issued
  · rw [new] at unstamped
    cases unstamped
  · exact unsent issued

/-- No task's `pending_msg` carries the next number. -/
theorem Ledger.pendingMsg_stamp_ne (ledger : Ledger w) (slot : Slot) :
    (w.kernel.tasks slot).pendingMsg.stamp ≠ some w.sent.length := by
  intro new
  cases unread : w.delivered slot with
  | true =>
    have member : Parcel.mk (w.kernel.tasks slot).id (w.kernel.tasks slot).pendingMsg ∈ w.sent :=
      ledger.sound.genuine
        (show w.custody.held (.mailbox slot) = _ by simp [custody, held, unread])
    exact (ledger.fresh new).1 member
  | false =>
    rcases ledger.spent slot unread with unstamped | ⟨_, member⟩
    · rw [new] at unstamped
      cases unstamped
    · exact (ledger.fresh new).1 member

/-! ## One step -/

/-- A new message takes the next number; a message handed out is the one in its
place, or else one that was never sent or has been received before. -/
def Numbered (w : Traffic) : Event Place Parcel → Prop
  | .issue _ parcel _ => parcel.msg.stamp = some w.sent.length
  | .hand place parcel =>
    w.held place = some parcel ∨ w.held place = none ∧
      (parcel.msg.stamp = none ∨ parcel ∈ w.received ∧ parcel ∈ w.sent)
  | _ => True

theorem Ledger.admissible (ledger : Ledger w) {event : Event Place Parcel}
    (numbered : w.Numbered event) : w.custody.Admissible event := by
  cases event with
  | idle => trivial
  | drop place => trivial
  | issue place parcel stored => exact ledger.fresh numbered
  | hand place parcel =>
    rcases numbered with here | ⟨empty, unstamped | ⟨got, _⟩⟩
    · exact .inl here
    · refine .inr ⟨empty, fun member => ?_⟩
      obtain ⟨n, _, stamp⟩ := ledger.stamp_of_mem member
      rw [unstamped] at stamp
      cases stamp
    · exact .inr ⟨empty, fun _ => got⟩

/-- A message that is handed out was sent or never carried a number. -/
theorem Ledger.origin (ledger : Ledger w) {place : Place} {parcel : Parcel}
    (numbered : w.Numbered (.hand place parcel)) :
    parcel.msg.stamp = none ∨ parcel ∈ w.sent := by
  rcases numbered with here | ⟨_, unstamped | ⟨_, issued⟩⟩
  · exact .inr (ledger.sound.genuine here)
  · exact .inl unstamped
  · exact .inr issued

/-- A step that changes custody by one event keeps the ledger, if it treats the
flags and the processor well. -/
theorem Ledger.moves (ledger : Ledger w) {event : Event Place Parcel}
    (custody : w'.custody = w.custody.apply event) (numbered : w.Numbered event)
    (flagged : ∀ slot, w'.delivered slot = true →
      (w'.kernel.tasks slot).ipcVal ≠ 0 ∧ (w'.kernel.tasks slot).state ≠ .blockedRecv)
    (spent : ∀ slot, w'.delivered slot = false →
      w.delivered slot = false ∧ (w'.kernel.tasks slot).id = (w.kernel.tasks slot).id ∧
          (w'.kernel.tasks slot).pendingMsg = (w.kernel.tasks slot).pendingMsg ∨
        event = .hand (.mailbox slot)
          ⟨(w'.kernel.tasks slot).id, (w'.kernel.tasks slot).pendingMsg⟩)
    (awake : w'.kernel.halted = false → (w'.kernel.tasks w'.kernel.current).Alive) :
    Moves w w' event := by
  have admissible := ledger.admissible numbered
  have sent : w'.sent = (w.custody.apply event).issued := congrArg Custody.issued custody
  have received : w'.received = (w.custody.apply event).handed := congrArg Custody.handed custody
  refine ⟨custody, admissible, ?_, ?_, ?_, flagged, ?_, awake⟩
  · rw [custody]
    exact ledger.sound.apply admissible
  · cases event with
    | issue place parcel stored =>
      have new : parcel.msg.stamp = some w.sent.length := numbered
      rw [sent]
      simp [Custody.apply, Traffic.custody, ledger.numbered, List.range_succ, new]
    | _ =>
      rw [sent]
      exact ledger.numbered
  · intro old member
    rw [received] at member
    rw [sent]
    cases event with
    | hand place parcel =>
      rcases List.mem_append.mp member with earlier | last
      · exact ledger.known old earlier
      · rw [List.mem_singleton.mp last]
        exact ledger.origin numbered
    | issue place parcel stored =>
      exact (ledger.known old member).imp_right (List.mem_append_left _)
    | idle => exact ledger.known old member
    | drop place => exact ledger.known old member
  · intro slot read
    rcases spent slot read with ⟨before, id, msg⟩ | rfl
    · rw [id, msg, received, sent]
      refine (ledger.spent slot before).imp_right fun both => ?_
      obtain ⟨got, issued⟩ := both
      cases event with
      | hand place parcel => exact ⟨List.mem_append_left _ got, issued⟩
      | issue place parcel stored => exact ⟨got, List.mem_append_left _ issued⟩
      | idle => exact ⟨got, issued⟩
      | drop place => exact ⟨got, issued⟩
    · rw [received, sent]
      exact (ledger.origin numbered).imp_right fun issued =>
        ⟨List.mem_append_right _ (List.mem_singleton.mpr rfl), issued⟩

/-! ## Sends -/

@[simp] theorem held_suspend (k : Kernel) (frame : Frame) (sent received : List Parcel)
    (delivered : Slot → Bool) :
    held ⟨k.suspend frame, sent, received, delivered⟩ = held ⟨k, sent, received, delivered⟩ := by
  funext place
  cases place <;> simp [held, Kernel.suspend]

/-- A send that delivers to nobody raises no flag. -/
theorem Ledger.delivered_eq (ledger : Ledger w) :
    (fun slot => w.delivered slot ||
      (w.kernel.tasks slot).pendingMsg.stamp == some w.sent.length) = w.delivered := by
  funext slot
  have other := ledger.pendingMsg_stamp_ne slot
  simp [other]

/-- A send to itself: into `PENDING`, whatever the entry holds. -/
theorem Ledger.selfSend (ledger : Ledger w) {target : Nat} {msg : Message}
    (own : w.kernel.currentTask.id = target) (new : msg.stamp = some w.sent.length) :
    Moves w
      { w with
        kernel := { w.kernel with
          pending := Function.update w.kernel.pending w.kernel.current msg }
        sent := w.sent ++ [⟨target, msg⟩] }
      (.issue (.pending w.kernel.current) ⟨target, msg⟩ (msg.msgType ≠ 0)) := by
  refine ledger.moves ?_ new ledger.flagged (fun slot unread => .inl ⟨unread, rfl, rfl⟩)
    ledger.awake
  refine Custody.ext rfl (funext fun place => ?_) rfl
  cases place with
  | pending slot | sender slot | mailbox slot =>
    by_cases here : slot = w.kernel.current <;>
      simp [custody, Custody.apply, held, here, ← own, Kernel.currentTask]

/-- A send to a task that waits for it: into that task's `pending_msg`. -/
theorem Ledger.directSend (ledger : Ledger w) {target : Nat} {msg : Message} {dst : Slot}
    (found : (w.kernel.tasks dst).id = target)
    (waits : (w.kernel.tasks dst).state = .blockedRecv)
    (new : msg.stamp = some w.sent.length) :
    Moves w
      { w with
        kernel := w.kernel.wakeAndDeliver dst msg
        sent := w.sent ++ [⟨target, msg⟩]
        delivered := Function.update w.delivered dst true }
      (.issue (.mailbox dst) ⟨target, msg⟩ True) := by
  rw [Kernel.wakeAndDeliver_eq]
  refine ledger.moves ?_ new ?_ ?_ ?_
  · refine Custody.ext rfl (funext fun place => ?_) rfl
    cases place with
    | pending slot | sender slot | mailbox slot =>
      by_cases here : slot = dst <;>
        simp [custody, Custody.apply, held, here, found, waits]
  · intro slot unread
    by_cases here : slot = dst
    · simp [here]
    · simp only [Function.update_of_ne here] at unread
      simpa [here] using ledger.flagged slot unread
  · intro slot read
    by_cases here : slot = dst
    · simp [here] at read
    · simp only [Function.update_of_ne here] at read
      simp [here, read]
  · intro running
    by_cases here : w.kernel.current = dst
    · simp [here, Task.Alive]
    · simpa [here] using ledger.awake running

/-- A send that blocks: the message stays in the sender's `ipc_msg`. -/
theorem Ledger.blockingSend (ledger : Ledger w) {target : Nat} {msg : Message}
    (new : msg.stamp = some w.sent.length) :
    Moves w
      { w with
        kernel := (w.kernel.blockSender target msg).suspend .sendWithCap
        sent := w.sent ++ [⟨target, msg⟩] }
      (.issue (.sender w.kernel.current) ⟨target, msg⟩ True) := by
  simp only [Kernel.blockSender, Kernel.modifyTask]
  refine ledger.moves ?_ new ?_ ?_ ?_
  · refine Custody.ext rfl (funext fun place => ?_) rfl
    simp only [custody, held_suspend]
    cases place with
    | pending slot | sender slot | mailbox slot =>
      by_cases here : slot = w.kernel.current <;> simp [Custody.apply, held, here]
  · intro slot unread
    by_cases here : slot = w.kernel.current
    · simp [Kernel.suspend, here]
    · simpa [Kernel.suspend, here] using ledger.flagged slot unread
  · intro slot read
    refine .inl ⟨read, ?_⟩
    by_cases here : slot = w.kernel.current <;> simp [Kernel.suspend, here]
  · intro _
    exact Kernel.reschedule_alive (by simp [Task.Alive])

/-! ## Receives -/

/-- An unread delivery keeps its flag up. -/
theorem Ledger.unread_eq (ledger : Ledger w) (slot : Slot) :
    (w.delivered slot && (w.kernel.tasks slot).ipcVal != 0) = w.delivered slot := by
  cases unread : w.delivered slot with
  | true => simpa using (ledger.flagged slot unread).1
  | false => rfl

/-- A receive that writes a message out of its `PENDING` entry. -/
theorem Ledger.takeOwn (ledger : Ledger w)
    (occupied : (w.kernel.pending w.kernel.current).msgType ≠ 0) :
    Moves w
      (w.collect
        { w.kernel with
          pending := Function.update w.kernel.pending w.kernel.current Message.empty }
        ⟨ipcOk, some (w.kernel.pending w.kernel.current)⟩)
      (.hand (.pending w.kernel.current)
        ⟨w.kernel.currentTask.id, w.kernel.pending w.kernel.current⟩) := by
  have kept := ledger.unread_eq
  refine ledger.moves ?_ (.inl (by simp [held, occupied, Kernel.currentTask])) ?_ ?_ ledger.awake
  · refine Custody.ext rfl (funext fun place => ?_) (by simp [collect, custody, Custody.apply])
    cases place with
    | pending slot | sender slot | mailbox slot =>
      by_cases here : slot = w.kernel.current <;>
        simp [custody, Custody.apply, held, collect, kept, here]
  · intro slot unread
    exact ledger.flagged slot ((kept slot).symm.trans unread)
  · intro slot read
    exact .inl ⟨(kept slot).symm.trans read, rfl, rfl⟩

/-- A receive that takes the message of a blocked sender. -/
theorem Ledger.takeSender (ledger : Ledger w) {sender : Slot}
    (found : w.kernel.findSender = some sender) :
    Moves w
      (w.collect (w.kernel.modifyTask sender fun t => { t with state := .ready })
        ⟨ipcOk, some (w.kernel.tasks sender).ipcMsg⟩)
      (.hand (.sender sender) ⟨w.kernel.currentTask.id, (w.kernel.tasks sender).ipcMsg⟩) := by
  obtain ⟨blocked, addressed⟩ := Kernel.findSender_some found
  have flag : ∀ slot, ((w.kernel.modifyTask sender fun t => { t with state := .ready }).tasks
      slot).ipcVal = (w.kernel.tasks slot).ipcVal := by
    intro slot
    by_cases here : slot = sender <;> simp [Kernel.modifyTask, here]
  have kept := ledger.unread_eq
  refine ledger.moves ?_ (.inl (by simp [held, blocked, addressed])) ?_ ?_ ?_
  · refine Custody.ext rfl (funext fun place => ?_) (by simp [collect, custody, Custody.apply])
    cases place with
    | pending slot | sender slot | mailbox slot =>
      by_cases here : slot = sender <;>
        simp [custody, Custody.apply, held, collect, kept, here, Kernel.modifyTask]
  · intro slot unread
    simp only [collect, flag, kept] at unread ⊢
    refine ⟨(ledger.flagged slot unread).1, ?_⟩
    by_cases here : slot = sender
    · simp [here, Kernel.modifyTask]
    · simpa [here, Kernel.modifyTask] using (ledger.flagged slot unread).2
  · intro slot read
    simp only [collect, flag, kept] at read
    refine .inl ⟨read, ?_⟩
    by_cases here : slot = sender <;> simp [collect, here, Kernel.modifyTask]
  · intro running
    by_cases here : w.kernel.current = sender
    · simp [collect, Kernel.modifyTask, here, Task.Alive]
    · simpa [collect, Kernel.modifyTask, here] using ledger.awake running

/-- A receive that finds the flag up hands out the `pending_msg`, whoever raised
the flag. -/
theorem Ledger.takeFlag (ledger : Ledger w) :
    Moves w (w.collect w.kernel.takePending.1 w.kernel.takePending.2)
      (.hand (.mailbox w.kernel.current)
        ⟨w.kernel.currentTask.id, w.kernel.currentTask.pendingMsg⟩) := by
  simp only [Kernel.takePending, Kernel.modifyTask]
  refine ledger.moves ?_ ?_ ?_ ?_ ?_
  · refine Custody.ext rfl (funext fun place => ?_) (by simp [collect, custody, Custody.apply])
    cases place with
    | pending slot | sender slot | mailbox slot =>
      by_cases here : slot = w.kernel.current <;>
        simp [custody, Custody.apply, held, collect, ledger.unread_eq, here]
  · cases unread : w.delivered w.kernel.current with
    | true => exact .inl (by simp [held, unread, Kernel.currentTask])
    | false => exact .inr ⟨by simp [held, unread], ledger.spent _ unread⟩
  · intro slot unread
    by_cases here : slot = w.kernel.current
    · simp [collect, here] at unread
    · simp only [collect, Kernel.setTask_tasks, Function.update_of_ne here,
        ledger.unread_eq] at unread ⊢
      exact ledger.flagged slot unread
  · intro slot read
    by_cases here : slot = w.kernel.current
    · exact .inr (by simp [collect, here, Kernel.currentTask])
    · simp only [collect, Kernel.setTask_tasks, Function.update_of_ne here,
        ledger.unread_eq] at read ⊢
      exact .inl ⟨read, trivial, trivial⟩
  · intro running
    simpa [collect, Task.Alive] using ledger.awake running

/-- A receive that blocks withdraws a message its task still offers. -/
theorem Ledger.blockingRecv (ledger : Ledger w) (down : w.kernel.currentTask.ipcVal = 0) :
    Moves w
      { w with
        kernel := (w.kernel.modifyTask w.kernel.current fun t =>
          { t with state := .blockedRecv, ipcPartner := Kernel.anyPartner }).suspend .recvWithCap }
      (.drop (.sender w.kernel.current)) := by
  simp only [Kernel.modifyTask]
  refine ledger.moves ?_ trivial ?_ ?_ ?_
  · refine Custody.ext rfl (funext fun place => ?_) rfl
    simp only [custody, held_suspend]
    cases place with
    | pending slot | sender slot | mailbox slot =>
      by_cases here : slot = w.kernel.current <;> simp [Custody.apply, held, here]
  · intro slot unread
    by_cases here : slot = w.kernel.current
    · subst here
      exact absurd down (ledger.flagged _ unread).1
    · simpa [Kernel.suspend, here] using ledger.flagged slot unread
  · intro slot read
    refine .inl ⟨read, ?_⟩
    by_cases here : slot = w.kernel.current <;> simp [Kernel.suspend, here]
  · intro _
    exact Kernel.reschedule_alive (by simp [Task.Alive])

/-! ## Exits and context switches -/

/-- An exit withdraws a message its task still offers. -/
theorem Ledger.exits (ledger : Ledger w) (status : BitVec 32) :
    Moves w (w.exit status) (.drop (.sender w.kernel.current)) := by
  have record := w.kernel.exitWithStatus_task status
  refine ledger.moves ?_ trivial ?_ ?_ ?_
  · have id := fun slot => (record slot).1
    have partner := fun slot => (record slot).2.1
    have msg := fun slot => (record slot).2.2.1
    have mailbox := fun slot => (record slot).2.2.2.1
    have blocked := fun slot => (record slot).2.2.2.2.1
    refine Custody.ext rfl (funext fun place => ?_) rfl
    cases place with
    | pending slot | sender slot | mailbox slot =>
      by_cases here : slot = w.kernel.current <;>
        simp [custody, Custody.apply, held, Traffic.exit, id, partner, msg, mailbox, blocked, here]
  · intro slot unread
    obtain ⟨_, _, _, _, _, flag⟩ := record slot
    obtain ⟨up, notWaiting⟩ := ledger.flagged slot unread
    obtain ⟨same, stillNot⟩ := flag notWaiting
    exact ⟨same ▸ up, stillNot⟩
  · intro slot read
    obtain ⟨id, _, _, mailbox, _⟩ := record slot
    exact .inl ⟨read, id, mailbox⟩
  · intro running
    rcases w.kernel.exitWithStatus_cases status with ⟨_, halts⟩ | ⟨next, _, _, runs⟩
    · rw [Traffic.exit, halts] at running
      cases running
    · simp [Traffic.exit, runs, Kernel.switchTo, Kernel.modifyTask, Task.Alive]

theorem Ledger.ticks (ledger : Ledger w) : Moves w w.tick .idle := by
  refine ledger.moves ?_ trivial ?_ ?_ ?_
  · refine Custody.ext rfl (funext fun place => ?_) rfl
    cases place <;> simp [custody, Custody.apply, held, tick]
  · intro slot unread
    simpa [tick] using ledger.flagged slot unread
  · intro slot read
    exact .inl ⟨read, by simp [tick]⟩
  · intro running
    exact Kernel.reschedule_alive (ledger.awake (by simpa [tick] using running))

end DBSos.Traffic
