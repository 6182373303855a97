import DBSos.Ipc.Moves

/-!
# Delivery over whole runs

Two things can go wrong with a message. A receive may trust a flag that no
delivery raised and hand out what lies in `pending_msg` (`authentic_throughout_iff`);
a call may overwrite or withdraw a message that nobody has received
(`retained_throughout_iff`). Both theorems name the exact condition on the calls.
-/

namespace DBSos.Traffic

open DBSos.Abi DBSos.Lib DBSos.Scheduler

variable {w w' : Traffic}

/-! ## Which steps go wrong -/

/-- The call reads `pending_msg` because it finds the flag up. -/
def ReadsFlag (k : Kernel) : Call → Prop
  | .recv capIdx =>
    (∃ cap, k.CanRecv capIdx cap) ∧ (k.pending k.current).msgType = 0 ∧
      k.findSender = none ∧ k.currentTask.ipcVal ≠ 0
  | .resume => k.frames k.current = .recvWithCap ∧ k.currentTask.ipcVal ≠ 0
  | _ => False

instance (k : Kernel) : (call : Call) → Decidable (ReadsFlag k call)
  | .recv capIdx => inferInstanceAs (Decidable ((∃ cap, k.CanRecv capIdx cap) ∧ _ ∧ _ ∧ _))
  | .resume => inferInstanceAs (Decidable (_ ∧ _))
  | .send _ _ | .exit _ | .tick => inferInstanceAs (Decidable False)

/-- If the call reads the flag, then `deliver_message` has raised it since the
task last read it. -/
def FlagMeansMail (w : Traffic) (call : Call) : Prop :=
  ReadsFlag w.kernel call → w.delivered w.kernel.current = true

instance (w : Traffic) (call : Call) : Decidable (w.FlagMeansMail call) :=
  inferInstanceAs (Decidable (_ → _))

/-- The current task has sent a message that no receive has taken, to a task
that is alive. -/
def Offers (k : Kernel) : Prop :=
  k.currentTask.state = .blockedSend ∧
    ∃ slot, (k.tasks slot).Alive ∧ (k.tasks slot).id = k.currentTask.ipcPartner

instance (k : Kernel) : Decidable (Offers k) := inferInstanceAs (Decidable (_ ∧ _))

/-- The place that the call writes is empty: a self-send carries a message type
other than 0 and finds its `PENDING` entry empty, a call that blocks finds no
message of its task on offer, and an exit none to a task that outlives it. -/
def HasRoom (k : Kernel) : Call → Prop
  | .send capIdx msg => ∀ dst, (∃ cap, k.CanSend capIdx cap dst) →
      (dst = k.current → msg.msgType ≠ 0 ∧ (k.pending k.current).msgType = 0) ∧
        (dst ≠ k.current → ¬ Kernel.Awaits (k.tasks dst) k.currentTask.id → ¬ Offers k)
  | .recv capIdx => (∃ cap, k.CanRecv capIdx cap) → (k.pending k.current).msgType = 0 →
      k.findSender = none → k.currentTask.ipcVal = 0 → ¬ Offers k
  | .exit _ => k.currentTask.state = .blockedSend → ∀ slot, slot ≠ k.current →
      (k.tasks slot).Alive → (k.tasks slot).id ≠ k.currentTask.ipcPartner
  | _ => True

instance (k : Kernel) : (call : Call) → Decidable (HasRoom k call)
  | .send _ _ => inferInstanceAs (Decidable (∀ _, _ → (_ → _) ∧ (_ → _ → _)))
  | .recv capIdx => inferInstanceAs (Decidable ((∃ cap, k.CanRecv capIdx cap) → _ → _ → _ → _))
  | .exit _ => inferInstanceAs (Decidable (_ → ∀ _, _ → _ → _))
  | .resume | .tick => inferInstanceAs (Decidable True)

/-- A step is an event of custody, stale or losing exactly when its call fails
the condition on it. -/
structure Accounted (w : Traffic) (call : Call) (w' : Traffic) (event : Event Place Parcel) :
    Prop where
  moves : Moves w w' event
  grows : ∀ id, Gone w.kernel id → Gone w'.kernel id
  stale : w.custody.Stale event ↔ ¬ w.FlagMeansMail call
  loses : w.custody.Loses (fun parcel => Gone w'.kernel parcel.target) event ↔
    ¬ HasRoom w.kernel call

/-- Liveness of every task, and so of every addressee, is as it was. -/
theorem gone_congr {k k' : Kernel} {id : Nat} (ids : ∀ slot, (k'.tasks slot).id = (k.tasks slot).id)
    (alive : ∀ slot, (k'.tasks slot).Alive ↔ (k.tasks slot).Alive) :
    Gone k' id ↔ Gone k id := by
  simp only [Gone, ids, alive]

theorem not_gone_iff {k : Kernel} {id : Nat} :
    ¬ Gone k id ↔ ∃ slot, (k.tasks slot).Alive ∧ (k.tasks slot).id = id := by
  simp [Gone]

@[simp] theorem alive_suspend (k : Kernel) (frame : Frame) (slot : Slot) :
    ((k.suspend frame).tasks slot).Alive ↔ (k.tasks slot).Alive := by
  simp [Task.Alive, Kernel.suspend]

/-- Writing a task record raises nobody from the dead. -/
theorem Gone.setTask {k : Kernel} {slot : Slot} {t : Task} (same : t.id = (k.tasks slot).id)
    (alive : (k.tasks slot).Alive) {id : Nat} (gone : Gone k id) : Gone (k.setTask slot t) id := by
  intro other live
  by_cases here : other = slot
  · simpa [here, same] using gone slot alive
  · simpa [here] using gone other (by simpa [here] using live)

/-- Parking the current task in a blocked state leaves every task as alive as it was. -/
theorem gone_suspend {k : Kernel} (alive : (k.tasks k.current).Alive) (parked : Task)
    (same : parked.id = (k.tasks k.current).id) (live : parked.Alive) (frame : Frame) (id : Nat) :
    Gone ((k.setTask k.current parked).suspend frame) id ↔ Gone k id := by
  apply gone_congr
  · intro slot
    by_cases here : slot = k.current <;> simp [Kernel.suspend, here, same]
  · intro slot
    by_cases here : slot = k.current <;> simp [here, alive, live]

/-- Overwriting the `ipc_msg` of the current task loses a message exactly when
the task offers one. -/
theorem loses_own_iff {w : Traffic} :
    (∃ old, w.custody.held (.sender w.kernel.current) = some old ∧ ¬ Gone w.kernel old.target) ↔
      Offers w.kernel := by
  simp only [custody, held, not_gone_iff, Offers, Kernel.currentTask]
  by_cases blocked : (w.kernel.tasks w.kernel.current).state = .blockedSend <;> simp [blocked]

section Sends

variable {capIdx : Nat} {msg : Message} {cap : Cap} {dst : Slot}

theorem flagMeansMail_send : w.FlagMeansMail (.send capIdx msg) := fun reads => reads.elim

theorem hasRoom_send_iff {k : Kernel} (can : k.CanSend capIdx cap dst) :
    HasRoom k (.send capIdx msg) ↔
      (dst = k.current → msg.msgType ≠ 0 ∧ (k.pending k.current).msgType = 0) ∧
        (dst ≠ k.current → ¬ Kernel.Awaits (k.tasks dst) k.currentTask.id → ¬ Offers k) := by
  constructor
  · exact fun all => all dst ⟨cap, can⟩
  · rintro one dst' ⟨cap', can'⟩
    obtain ⟨rfl, rfl⟩ := can.unique can'
    exact one

theorem Ledger.selfSend_accounted (ledger : Ledger w) (running : w.kernel.halted = false)
    (can : w.kernel.CanSend capIdx cap w.kernel.current)
    (taken : w.kernel.sendWithCap capIdx (w.stamped msg) = .ret { w.kernel with
      pending := Function.update w.kernel.pending w.kernel.current (w.stamped msg) } ipcOk) :
    Accounted w (.send capIdx msg) (w.send capIdx msg)
      (.issue (.pending w.kernel.current) ⟨cap.serverId, w.stamped msg⟩ (msg.msgType ≠ 0)) := by
  have own : w.kernel.currentTask.id = cap.serverId := (Kernel.findTask_some can.found).2
  have next : w.send capIdx msg = { w with
      kernel := { w.kernel with
        pending := Function.update w.kernel.pending w.kernel.current (w.stamped msg) }
      sent := w.sent ++ [⟨cap.serverId, w.stamped msg⟩] } := by
    simpa [send, taken, can.granted] using ledger.delivered_eq
  -- the addressee is the running task itself
  have present : ¬ Gone w.kernel (w.kernel.tasks w.kernel.current).id :=
    not_gone_iff.mpr ⟨_, ledger.awake running, rfl⟩
  have unchanged : ∀ pending id, Gone { w.kernel with pending := pending } id ↔
      Gone w.kernel id := fun _ _ => Iff.rfl
  rw [next]
  refine ⟨ledger.selfSend own rfl, fun _ gone => gone, by simp [Custody.Stale, flagMeansMail_send], ?_⟩
  rw [hasRoom_send_iff can]
  by_cases typed : msg.msgType = 0
  · simp [Custody.Loses, unchanged, ← own, Kernel.currentTask, present, typed]
  · by_cases occupied : (w.kernel.pending w.kernel.current).msgType = 0 <;>
      simp [Custody.Loses, custody, held, unchanged, present, typed, occupied]

theorem Ledger.directSend_accounted (ledger : Ledger w) (can : w.kernel.CanSend capIdx cap dst)
    (other : dst ≠ w.kernel.current)
    (waits : Kernel.Awaits (w.kernel.tasks dst) w.kernel.currentTask.id)
    (taken : w.kernel.sendWithCap capIdx (w.stamped msg) =
      .ret (w.kernel.wakeAndDeliver dst (w.stamped msg)) ipcOk) :
    Accounted w (.send capIdx msg) (w.send capIdx msg)
      (.issue (.mailbox dst) ⟨cap.serverId, w.stamped msg⟩ True) := by
  have next : w.send capIdx msg = { w with
      kernel := w.kernel.wakeAndDeliver dst (w.stamped msg)
      sent := w.sent ++ [⟨cap.serverId, w.stamped msg⟩]
      delivered := Function.update w.delivered dst true } := by
    simp only [send, taken, can.granted, if_true, Option.getD_some, stamped_stamp]
    congr 1
    funext slot
    have new := ledger.pendingMsg_stamp_ne slot
    by_cases here : slot = dst <;> simp [Kernel.wakeAndDeliver_eq, here, new]
  -- a task that waits has no unread delivery
  have unheld : w.delivered dst = false := by
    by_contra unread
    exact (ledger.flagged dst (by simpa using unread)).2 waits.1
  rw [next]
  refine ⟨ledger.directSend (Kernel.findTask_some can.found).2 waits.1 rfl,
    fun _ gone => by
      rw [Kernel.wakeAndDeliver_eq]
      exact gone.setTask (by rfl) (by simp [Task.Alive, waits.1]),
    by simp [Custody.Stale, flagMeansMail_send], ?_⟩
  rw [hasRoom_send_iff can]
  simp [Custody.Loses, custody, held, unheld, other, waits]

theorem Ledger.blockingSend_accounted (ledger : Ledger w) (running : w.kernel.halted = false)
    (can : w.kernel.CanSend capIdx cap dst) (other : dst ≠ w.kernel.current)
    (waits : ¬ Kernel.Awaits (w.kernel.tasks dst) w.kernel.currentTask.id)
    (taken : w.kernel.sendWithCap capIdx (w.stamped msg) =
      .yield (w.kernel.blockSender cap.serverId (w.stamped msg)) .sendWithCap) :
    Accounted w (.send capIdx msg) (w.send capIdx msg)
      (.issue (.sender w.kernel.current) ⟨cap.serverId, w.stamped msg⟩ True) := by
  have next : w.send capIdx msg = { w with
      kernel := (w.kernel.blockSender cap.serverId (w.stamped msg)).suspend .sendWithCap
      sent := w.sent ++ [⟨cap.serverId, w.stamped msg⟩] } := by
    simp [send, taken, can.granted]
  have unchanged := gone_suspend (ledger.awake running)
    { w.kernel.tasks w.kernel.current with
      state := .blockedSend, ipcPartner := cap.serverId, ipcMsg := w.stamped msg, ipcVal := 1 }
    rfl (by simp [Task.Alive]) .sendWithCap
  rw [next]
  refine ⟨ledger.blockingSend rfl, fun id => (unchanged id).mpr, by simp [Custody.Stale, flagMeansMail_send], ?_⟩
  rw [hasRoom_send_iff can]
  simp only [Custody.Loses, Kernel.blockSender, Kernel.modifyTask, unchanged, loses_own_iff]
  simp [other, waits]

/-- A send is idle when it is refused and issues its message otherwise. -/
theorem Ledger.send_accounted (ledger : Ledger w) (running : w.kernel.halted = false)
    (capIdx : Nat) (msg : Message) :
    ∃ event, Accounted w (.send capIdx msg) (w.send capIdx msg) event := by
  rcases w.kernel.sendWithCap_cases capIdx (w.stamped msg) with
    ⟨never, code, failed, refused⟩ | ⟨cap, dst, can, path⟩
  · have same : w.send capIdx msg = w := by simp [send, refused, failed]
    have room : HasRoom w.kernel (.send capIdx msg) :=
      fun dst ⟨cap, can⟩ => absurd ⟨cap, dst, can⟩ never
    rw [same]
    exact ⟨.idle, ledger.moves rfl trivial ledger.flagged
      (fun slot read => .inl ⟨read, rfl, rfl⟩) ledger.awake, fun _ gone => gone,
      by simp [Custody.Stale, flagMeansMail_send], by simp [Custody.Loses, room]⟩
  · rcases path with ⟨rfl, taken⟩ | ⟨other, waits, taken⟩ | ⟨other, waits, taken⟩
    · exact ⟨_, ledger.selfSend_accounted running can taken⟩
    · exact ⟨_, ledger.directSend_accounted can other waits taken⟩
    · exact ⟨_, ledger.blockingSend_accounted running can other waits taken⟩

end Sends

section Receives

variable {capIdx : Nat}

/-- A call that hands a message out of a place that holds it is neither stale
nor a loss. -/
private theorem Moves.accounted {call : Call} {place : Place} {parcel : Parcel}
    (moves : Moves w w' (.hand place parcel))
    (grows : ∀ id, Gone w.kernel id → Gone w'.kernel id) (present : w.held place = some parcel)
    (reads : ¬ ReadsFlag w.kernel call) (room : HasRoom w.kernel call) :
    Accounted w call w' (.hand place parcel) := by
  refine ⟨moves, grows, ?_, by simp [Custody.Loses, room]⟩
  have occupied : w.custody.held place ≠ none := fun empty => by cases present.symm.trans empty
  simp [Custody.Stale, occupied, FlagMeansMail, reads]

/-- An idle step. -/
private theorem Moves.accounted_idle {call : Call} (moves : Moves w w' .idle)
    (grows : ∀ id, Gone w.kernel id → Gone w'.kernel id)
    (reads : ¬ ReadsFlag w.kernel call) (room : HasRoom w.kernel call) :
    Accounted w call w' .idle := by
  refine ⟨moves, grows, ?_, by simp [Custody.Loses, room]⟩
  simp [Custody.Stale, FlagMeansMail, reads]

/-- Reading the flag is stale exactly when no delivery raised it. -/
private theorem Moves.accounted_flag {call : Call} {parcel : Parcel}
    (moves : Moves w w' (.hand (.mailbox w.kernel.current) parcel))
    (grows : ∀ id, Gone w.kernel id → Gone w'.kernel id)
    (reads : ReadsFlag w.kernel call) (room : HasRoom w.kernel call) :
    Accounted w call w' (.hand (.mailbox w.kernel.current) parcel) := by
  refine ⟨moves, grows, ?_, by simp [Custody.Loses, room]⟩
  simp only [Custody.Stale, Traffic.custody, held, FlagMeansMail, reads, forall_const]
  cases w.delivered w.kernel.current <;> simp

/-- A receive hands out one message, blocks, or is refused. -/
theorem Ledger.recv_accounted (ledger : Ledger w) (running : w.kernel.halted = false)
    (capIdx : Nat) : ∃ event, Accounted w (.recv capIdx) (w.recv capIdx) event := by
  rcases w.kernel.recvWithCap_cases capIdx with
    ⟨never, code, failed, refused⟩ |
      ⟨can, ⟨occupied, taken⟩ | ⟨empty, ⟨sender, found, taken⟩ | ⟨idle, up, taken⟩ |
        ⟨idle, down, taken⟩⟩⟩
  · have next : w.recv capIdx = w := by
      simp [recv, refused, collect, failed, ledger.unread_eq]
    rw [next]
    have moves : Moves w w .idle := ledger.moves rfl trivial ledger.flagged
      (fun slot read => .inl ⟨read, rfl, rfl⟩) ledger.awake
    exact ⟨_, moves.accounted_idle (fun _ gone => gone) (fun reads => never reads.1) fun can => absurd can never⟩
  · simp only [recv, taken]
    exact ⟨_, (ledger.takeOwn occupied).accounted (fun _ gone => gone)
      (by simp [held, occupied, Kernel.currentTask])
      (fun reads => occupied reads.2.1) fun _ empty => absurd empty occupied⟩
  · obtain ⟨blocked, addressed⟩ := Kernel.findSender_some found
    simp only [recv, taken]
    exact ⟨_, (ledger.takeSender found).accounted
      (fun _ gone => gone.setTask (by rfl) (by simp [Task.Alive, blocked])) (by simp [held, blocked, addressed])
      (fun reads => by simp [ReadsFlag, found] at reads) fun _ _ none => by simp [found] at none⟩
  · simp only [recv, taken]
    exact ⟨_, ledger.takeFlag.accounted_flag
      (fun _ gone => gone.setTask (by rfl) (ledger.awake running)) ⟨can, empty, idle, up⟩ fun _ _ _ down => absurd down up⟩
  · have next : w.recv capIdx = { w with
        kernel := (w.kernel.modifyTask w.kernel.current fun t =>
          { t with state := .blockedRecv, ipcPartner := Kernel.anyPartner }).suspend
            .recvWithCap } := by
      simp [recv, taken]
    rw [next]
    have unchanged := gone_suspend (ledger.awake running)
      { w.kernel.tasks w.kernel.current with
        state := .blockedRecv, ipcPartner := Kernel.anyPartner }
      rfl (by simp [Task.Alive]) .recvWithCap
    have never : ¬ ReadsFlag w.kernel (.recv capIdx) := fun reads => reads.2.2.2 down
    refine ⟨_, ledger.blockingRecv down, fun id => (unchanged id).mpr, by simp [Custody.Stale, FlagMeansMail, never], ?_⟩
    · simp only [Custody.Loses, Kernel.modifyTask, unchanged, loses_own_iff]
      simp [HasRoom, can, empty, idle, down]

/-- An exit loses what its task still offers to a task that outlives it. -/
theorem Ledger.exit_accounted (ledger : Ledger w) (status : BitVec 32) :
    Accounted w (.exit status) (w.exit status) (.drop (.sender w.kernel.current)) := by
  have gone : ∀ id, Gone (w.exit status).kernel id ↔
      ∀ slot, slot ≠ w.kernel.current → (w.kernel.tasks slot).Alive →
        (w.kernel.tasks slot).id ≠ id := by
    intro id
    simp only [Gone, Traffic.exit, w.kernel.exitWithStatus_alive status,
      fun slot => (w.kernel.exitWithStatus_task status slot).1, and_imp]
  refine ⟨ledger.exits status, fun id before => (gone id).mpr fun slot _ => before slot,
    by simp [Custody.Stale, FlagMeansMail, ReadsFlag], ?_⟩
  simp only [Custody.Loses, custody, held, gone, HasRoom, Kernel.currentTask]
  by_cases blocked : (w.kernel.tasks w.kernel.current).state = .blockedSend <;> simp [blocked]

/-- A send resumes without effect; a receive reads the flag, or times out. -/
theorem Ledger.resume_accounted (ledger : Ledger w) (running : w.kernel.halted = false)
    (resumed : w.resume = some w') :
    ∃ event, Accounted w .resume w' event := by
  have popped : Ledger { w with kernel := w.kernel.setFrame .outside } :=
    ⟨ledger.sound, ledger.numbered, ledger.known, ledger.flagged, ledger.spent, ledger.awake⟩
  simp only [resume] at resumed
  split at resumed
  next frame =>
    obtain rfl := Option.some.inj resumed
    have moves : Moves w { w with kernel := w.kernel.setFrame .outside } .idle :=
      ledger.moves rfl trivial ledger.flagged (fun slot read => .inl ⟨read, rfl, rfl⟩) ledger.awake
    exact ⟨_, moves.accounted_idle (fun _ gone => gone)
      (fun reads => by simp [ReadsFlag, frame] at reads) trivial⟩
  next frame =>
    obtain rfl := Option.some.inj resumed
    have flag : (w.kernel.setFrame .outside).currentTask.ipcVal = w.kernel.currentTask.ipcVal := rfl
    by_cases up : w.kernel.currentTask.ipcVal = 0
    · have next : w.collect (w.kernel.setFrame .outside).resumeRecv.1
          (w.kernel.setFrame .outside).resumeRecv.2 =
            { w with kernel := w.kernel.setFrame .outside } := by
        simp [Kernel.resumeRecv, flag, up, collect, ipcOk, ipcErrTimeout, ledger.unread_eq]
      rw [next]
      have moves : Moves w { w with kernel := w.kernel.setFrame .outside } .idle :=
        ledger.moves rfl trivial ledger.flagged (fun slot read => .inl ⟨read, rfl, rfl⟩)
          ledger.awake
      exact ⟨_, moves.accounted_idle (fun _ gone => gone) (fun reads => reads.2 up) trivial⟩
    · have next : (w.kernel.setFrame .outside).resumeRecv =
          (w.kernel.setFrame .outside).takePending := by
        simp [Kernel.resumeRecv, flag, up]
      rw [next]
      obtain ⟨custody, admissible, after⟩ := popped.takeFlag
      have moves : Moves w (w.collect (w.kernel.setFrame .outside).takePending.1
          (w.kernel.setFrame .outside).takePending.2) _ := ⟨custody, admissible, after⟩
      exact ⟨_, moves.accounted_flag
        (fun _ gone => gone.setTask (by rfl) (ledger.awake running)) ⟨frame, up⟩ trivial⟩
  next => cases resumed

end Receives

/-- What a step can do. -/
theorem Ledger.step_accounted (ledger : Ledger w) {call : Call} (valid : Steps w call w') :
    ∃ event, Accounted w call w' event := by
  unfold Steps step at valid
  by_cases halted : w.kernel.halted = true
  · simp [halted] at valid
  · have running : w.kernel.halted = false := by simpa using halted
    rw [if_neg halted] at valid
    cases call with
    | tick =>
      obtain rfl := Option.some.inj valid
      exact ⟨_, ledger.ticks.accounted_idle
        (fun id => (gone_congr (by simp [tick]) (by simp [tick, Task.Alive])).mpr) not_false trivial⟩
    | resume => exact ledger.resume_accounted running valid
    | send capIdx msg =>
      split_ifs at valid
      obtain rfl := Option.some.inj valid
      exact ledger.send_accounted running capIdx msg
    | recv capIdx =>
      split_ifs at valid
      obtain rfl := Option.some.inj valid
      exact ledger.recv_accounted running capIdx
    | exit status =>
      split_ifs at valid
      obtain rfl := Option.some.inj valid
      exact ⟨_, ledger.exit_accounted status⟩

/-- Every message received was sent to its receiver's id, and none was received
twice. Sends are numbered, so two of equal content differ. -/
def Authentic (w : Traffic) : Prop :=
  (∀ parcel ∈ w.received, parcel ∈ w.sent) ∧ w.received.Nodup

/-- Nothing that was sent is missing: each message has been received, lies in
exactly one place, or is addressed to a task that is no longer alive. -/
def Retained (w : Traffic) : Prop :=
  ∀ parcel ∈ w.sent, Gone w.kernel parcel.target ∨ parcel ∈ w.received ∨
    ∃! place, w.held place = some parcel

theorem Ledger.step (ledger : Ledger w) {call : Call} (valid : Steps w call w') : Ledger w' := by
  obtain ⟨_, accounted⟩ := ledger.step_accounted valid
  exact accounted.moves.ledger

/-- A step keeps what is received authentic exactly when no flag misleads it. -/
theorem Ledger.authentic_iff (ledger : Ledger w) (authentic : w.Authentic) {call : Call}
    (valid : Steps w call w') : w'.Authentic ↔ w.FlagMeansMail call := by
  obtain ⟨event, accounted⟩ := ledger.step_accounted valid
  have faithful : w'.custody.Faithful ↔ ¬ w.custody.Stale event := by
    rw [accounted.moves.custody]
    exact Custody.faithful_apply_iff ledger.sound authentic accounted.moves.admissible
  exact faithful.trans (by rw [accounted.stale, not_not])

/-- A step keeps every message exactly when it finds room for what it writes. -/
theorem Ledger.retained_iff (ledger : Ledger w) (retained : w.Retained) {call : Call}
    (valid : Steps w call w') : w'.Retained ↔ HasRoom w.kernel call := by
  obtain ⟨event, accounted⟩ := ledger.step_accounted valid
  have kept : w'.custody.Kept (fun parcel => Gone w'.kernel parcel.target) ↔
      ¬ w.custody.Loses (fun parcel => Gone w'.kernel parcel.target) event := by
    rw [accounted.moves.custody]
    exact Custody.kept_apply_iff ledger.sound retained
      (fun parcel => accounted.grows parcel.target) accounted.moves.admissible
  exact kept.trans (by rw [accounted.loses, not_not])

/-! ## Runs -/

/-- In a run of sends, receives and exits in any interleaving, every message
received is authentic throughout if and only if no receive of the run trusts a
flag that `deliver_message` did not raise. -/
theorem authentic_throughout_iff {k : Kernel} (idle : Idle k)
    {taken : List (Transition Traffic Call)} {final : Traffic}
    (run : Trace Steps (initial k) taken final) :
    Throughout Authentic (initial k) taken ↔ Guarded FlagMeansMail taken :=
  Trace.throughout_iff_guarded (fun w => w.Ledger ∧ w.Authentic)
    ⟨ledger_initial idle, by simp [initial, Authentic]⟩ (fun _ inv => inv.2)
    (fun _ _ _ inv honest valid => ⟨inv.1.step valid, (inv.1.authentic_iff inv.2 valid).mpr honest⟩)
    (fun _ _ _ inv misled valid => mt (inv.1.authentic_iff inv.2 valid).mp misled) run

/-- Two ready tasks with ids 1 and 2 in slots 0 and 1; each holds one capability
to send to task 2 and to receive. -/
def twoTasks : Kernel where
  tasks := fun slot =>
    if slot = 0 then { Task.free with state := .running, id := 1 }
    else if slot = 1 then { Task.free with state := .ready, id := 2 }
    else Task.free
  current := 0
  nextId := 3
  pending := fun _ => Message.empty
  capTables := fun slot =>
    if slot ≤ 1 then
      ⟨fun idx => if idx = 0 then ⟨CapType.ipcTarget.value, 2, capSend ||| capRecv, 0⟩ else Cap.null⟩
    else Cap.CapTable.new
  phys := ⟨⟨0, fun _ => 0#8, 0, 0, 0, 0⟩, fun _ _ => 0#64⟩
  kernelPml4 := 0
  frames := fun _ => .outside
  halted := false

theorem idle_twoTasks : Idle twoTasks where
  pending := fun _ => rfl
  unstamped := by decide
  quiet := by decide
  outside := fun _ => rfl
  awake := by decide

/-- Task 2 waits, task 1 sends, task 2 resumes with the message. -/
theorem authentic_exchange :
    ∃ taken final, record step (initial twoTasks)
        [.tick, .recv 0, .send 0 (Message.ping 1 2), .tick, .resume] = some (taken, final) ∧
      final.received.length = 1 ∧ Throughout Authentic (initial twoTasks) taken := by
  obtain ⟨⟨taken, final⟩, recorded, one, guarded⟩ :
      ∃ run ∈ record step (initial twoTasks)
          [.tick, .recv 0, .send 0 (Message.ping 1 2), .tick, .resume],
        run.2.received.length = 1 ∧
          ∀ transition ∈ run.1, transition.before.FlagMeansMail transition.label := by
    decide
  exact ⟨taken, final, recorded, one,
    (authentic_throughout_iff idle_twoTasks (trace_of_record recorded)).mpr guarded⟩

/-- Task 1 blocks in a send, task 2 takes the message, and task 1 resumes with
its own flag still up: its next receive hands out an empty message. -/
theorem stale_flag :
    ∃ taken final, Trace Steps (initial twoTasks) taken final ∧
      ¬ Throughout Authentic (initial twoTasks) taken := by
  obtain ⟨⟨taken, final⟩, recorded, parcel, received, unsent⟩ :
      ∃ run ∈ record step (initial twoTasks)
          [.send 0 (Message.ping 1 2), .recv 0, .tick, .resume, .recv 0],
        ∃ parcel ∈ run.2.received, parcel ∉ run.2.sent := by
    decide
  have run := trace_of_record recorded
  exact ⟨taken, final, run, fun authentic =>
    unsent ((run.final_of_throughout authentic).1 parcel received)⟩

/-- In a run of sends, receives and exits in any interleaving, no message is
lost throughout if and only if every call of the run finds room for what it
writes. -/
theorem retained_throughout_iff {k : Kernel} (idle : Idle k)
    {taken : List (Transition Traffic Call)} {final : Traffic}
    (run : Trace Steps (initial k) taken final) :
    Throughout Retained (initial k) taken ↔ Guarded (fun w => HasRoom w.kernel) taken :=
  Trace.throughout_iff_guarded (fun w => w.Ledger ∧ w.Retained)
    ⟨ledger_initial idle, by simp [initial, Retained]⟩ (fun _ inv => inv.2)
    (fun _ _ _ inv room valid => ⟨inv.1.step valid, (inv.1.retained_iff inv.2 valid).mpr room⟩)
    (fun _ _ _ inv full valid => mt (inv.1.retained_iff inv.2 valid).mp full) run

/-- Task 2 sends itself one message: held in `PENDING`. -/
theorem retained_selfSend :
    ∃ taken final, record step (initial twoTasks)
        [.tick, .send 0 (Message.ping 2 2)] = some (taken, final) ∧
      final.sent.length = 1 ∧ Throughout Retained (initial twoTasks) taken := by
  obtain ⟨⟨taken, final⟩, recorded, one, guarded⟩ :
      ∃ run ∈ record step (initial twoTasks) [.tick, .send 0 (Message.ping 2 2)],
        run.2.sent.length = 1 ∧
        ∀ transition ∈ run.1, HasRoom transition.before.kernel transition.label := by
    decide
  exact ⟨taken, final, recorded, one,
    (retained_throughout_iff idle_twoTasks (trace_of_record recorded)).mpr guarded⟩

/-- Task 2 sends itself two messages: the second overwrites the first. -/
theorem self_send_overwrites :
    ∃ taken final, Trace Steps (initial twoTasks) taken final ∧
      ¬ Throughout Retained (initial twoTasks) taken := by
  obtain ⟨⟨taken, final⟩, recorded, parcel, sent, alive, unreceived, nowhere⟩ :
      ∃ run ∈ record step (initial twoTasks)
          [.tick, .send 0 (Message.ping 2 2), .send 0 (Message.ping 2 2)],
        ∃ parcel ∈ run.2.sent,
          ¬ Gone run.2.kernel parcel.target ∧ parcel ∉ run.2.received ∧
            ∀ slot, run.2.held (.pending slot) ≠ some parcel ∧
              run.2.held (.sender slot) ≠ some parcel ∧
              run.2.held (.mailbox slot) ≠ some parcel := by
    decide
  have run := trace_of_record recorded
  refine ⟨taken, final, run, fun retained => ?_⟩
  rcases run.final_of_throughout retained parcel sent with gone | received | ⟨place, here, _⟩
  · exact alive gone
  · exact unreceived received
  · cases place with
    | pending slot => exact (nowhere slot).1 here
    | sender slot => exact (nowhere slot).2.1 here
    | mailbox slot => exact (nowhere slot).2.2 here

end DBSos.Traffic
