import DBSos.Scheduler.Context

/-!
# Capability-based send and receive

A message travels on one of three paths: through the slot's `PENDING` entry when
a task sends to itself, from the `ipc_msg` of a blocked sender, or through
`pending_msg` when the receiver already waits. `ipc_val` announces the third
path, but a blocking send and the exit of a child write it as well.
-/

namespace DBSos.Kernel

open DBSos.Abi DBSos.Scheduler

/-- Accept from any sender. -/
def anyPartner : Nat := 0

/-- `cap::get`: a capability of the current task. -/
def capGet (k : Kernel) (idx : Nat) : Option Cap := (k.capTables k.current).get idx

/-- `cap::validate`. -/
def capValidate (k : Kernel) (idx requiredRights : Nat) : Bool :=
  (k.capTables k.current).validate idx requiredRights

/-- `deliver_message`: into the receiver's `pending_msg`, announced by `ipc_val`. -/
def deliverMessage (k : Kernel) (dst : Slot) (srcId : Nat) (msg : Message) : Kernel :=
  k.modifyTask dst fun t => { t with ipcPartner := srcId, pendingMsg := msg, ipcVal := 1 }

/-- The receiver waits for this sender or for any. -/
def Awaits (t : Task) (senderId : Nat) : Prop :=
  t.state = .blockedRecv ∧ (t.ipcPartner = senderId ∨ t.ipcPartner = anyPartner)

instance (t : Task) (senderId : Nat) : Decidable (Awaits t senderId) :=
  inferInstanceAs (Decidable (_ ∧ _))

/-- The immediate match of `send_with_cap` and `send_inner`. -/
def wakeAndDeliver (k : Kernel) (dst : Slot) (msg : Message) : Kernel :=
  (k.modifyTask dst fun t => { t with state := .ready }).deliverMessage dst k.currentTask.id msg

/-- The sender's record before it yields. -/
def blockSender (k : Kernel) (targetId : Nat) (msg : Message) : Kernel :=
  k.modifyTask k.current fun t =>
    { t with state := .blockedSend, ipcPartner := targetId, ipcMsg := msg, ipcVal := 1 }

/-- `send_with_cap`. -/
def sendWithCap (k : Kernel) (capIdx : Nat) (msg : Message) : Blocking Int :=
  match k.capGet capIdx with
  | none => .ret k ipcErrBadCap
  | some cap =>
    if cap.capType ≠ CapType.ipcTarget.value ∨ cap.rights &&& capSend = 0 then
      .ret k ipcErrDenied
    else
      match k.findTask cap.serverId with
      | none => .ret k ipcErrNoServer
      | some dst =>
        if dst = k.current then
          .ret { k with pending := Function.update k.pending k.current msg } ipcOk
        else if Awaits (k.tasks dst) k.currentTask.id then
          .ret (k.wakeAndDeliver dst msg) ipcOk
        else .yield (k.blockSender cap.serverId msg) .sendWithCap

/-- `send_with_cap` behind its `yield_now`. -/
def resumeSend (k : Kernel) : Kernel × Int := (k, ipcOk)

/-- `send_inner`, the send without a capability. -/
def sendInner (k : Kernel) (dst : Slot) (msg : Message) : Blocking Int :=
  if (k.tasks dst).state = .free then .ret k ipcErrNoServer
  else if Awaits (k.tasks dst) k.currentTask.id then .ret (k.wakeAndDeliver dst msg) ipcOk
  else .yield (k.blockSender (k.tasks dst).id msg) .sendWithCap

/-- What `recv_with_cap` returns, with the message if it wrote the buffer. -/
structure Received where
  code : Int
  buf : Option Message
deriving DecidableEq

/-- The sender that a receive finds waiting for it. -/
def findSender (k : Kernel) : Option Slot :=
  k.findSlot fun t => t.state = .blockedSend ∧ t.ipcPartner = k.currentTask.id

/-- Take the message announced by `ipc_val` and clear the flag. -/
def takePending (k : Kernel) : Kernel × Received :=
  (k.modifyTask k.current fun t => { t with ipcVal := 0 },
    ⟨ipcOk, some k.currentTask.pendingMsg⟩)

/-- `recv_with_cap`. -/
def recvWithCap (k : Kernel) (capIdx : Nat) : Blocking Received :=
  match k.capGet capIdx with
  | none => .ret k ⟨ipcErrBadCap, none⟩
  | some cap =>
    if cap.capType ≠ CapType.ipcTarget.value ∨ cap.rights &&& capRecv = 0 then
      .ret k ⟨ipcErrDenied, none⟩
    else if (k.pending k.current).msgType ≠ 0 then
      .ret { k with pending := Function.update k.pending k.current Message.empty }
        ⟨ipcOk, some (k.pending k.current)⟩
    else
      match k.findSender with
      | some sender =>
        .ret (k.modifyTask sender fun t => { t with state := .ready })
          ⟨ipcOk, some (k.tasks sender).ipcMsg⟩
      | none =>
        if k.currentTask.ipcVal ≠ 0 then .ret k.takePending.1 k.takePending.2
        else
          .yield (k.modifyTask k.current fun t =>
            { t with state := .blockedRecv, ipcPartner := anyPartner }) .recvWithCap

/-- `recv_with_cap` behind its `yield_now`. -/
def resumeRecv (k : Kernel) : Kernel × Received :=
  if k.currentTask.ipcVal ≠ 0 then k.takePending else (k, ⟨ipcErrTimeout, none⟩)

/-! ## What one call can do -/

theorem wakeAndDeliver_eq (k : Kernel) (dst : Slot) (msg : Message) :
    k.wakeAndDeliver dst msg = k.setTask dst
      { k.tasks dst with
        state := .ready
        ipcPartner := k.currentTask.id
        pendingMsg := msg
        ipcVal := 1 } := by
  simp [wakeAndDeliver, deliverMessage, modifyTask, setTask]

/-- The capability lets the current task send, and `dst` is the slot it names. -/
structure CanSend (k : Kernel) (capIdx : Nat) (cap : Cap) (dst : Slot) : Prop where
  granted : k.capGet capIdx = some cap
  typed : cap.capType = CapType.ipcTarget.value
  right : cap.rights &&& capSend ≠ 0
  found : k.findTask cap.serverId = some dst

/-- The capability lets the current task receive. -/
structure CanRecv (k : Kernel) (capIdx : Nat) (cap : Cap) : Prop where
  granted : k.capGet capIdx = some cap
  typed : cap.capType = CapType.ipcTarget.value
  right : cap.rights &&& capRecv ≠ 0

instance (k : Kernel) (capIdx : Nat) (dst : Slot) :
    Decidable (∃ cap, k.CanSend capIdx cap dst) :=
  decidable_of_iff ((k.capGet capIdx).any fun cap =>
      cap.capType = CapType.ipcTarget.value ∧ cap.rights &&& capSend ≠ 0 ∧
        k.findTask cap.serverId = some dst) (by
    simp only [Option.any_eq_true, decide_eq_true_eq]
    exact ⟨fun ⟨cap, granted, typed, right, found⟩ => ⟨cap, granted, typed, right, found⟩,
      fun ⟨cap, can⟩ => ⟨cap, can.granted, can.typed, can.right, can.found⟩⟩)

instance (k : Kernel) (capIdx : Nat) : Decidable (∃ cap, k.CanRecv capIdx cap) :=
  decidable_of_iff ((k.capGet capIdx).any fun cap =>
      cap.capType = CapType.ipcTarget.value ∧ cap.rights &&& capRecv ≠ 0) (by
    simp only [Option.any_eq_true, decide_eq_true_eq]
    exact ⟨fun ⟨cap, granted, typed, right⟩ => ⟨cap, granted, typed, right⟩,
      fun ⟨cap, can⟩ => ⟨cap, can.granted, can.typed, can.right⟩⟩)

theorem CanSend.unique {k : Kernel} {capIdx : Nat} {cap cap' : Cap} {dst dst' : Slot}
    (can : k.CanSend capIdx cap dst) (can' : k.CanSend capIdx cap' dst') :
    cap = cap' ∧ dst = dst' := by
  obtain rfl : cap = cap' := Option.some.inj (can.granted.symm.trans can'.granted)
  exact ⟨rfl, Option.some.inj (can.found.symm.trans can'.found)⟩

/-- A send is refused without effect, or takes one of the three paths. -/
theorem sendWithCap_cases (k : Kernel) (capIdx : Nat) (msg : Message) :
    ((¬ ∃ cap dst, k.CanSend capIdx cap dst) ∧
      ∃ code, code ≠ ipcOk ∧ k.sendWithCap capIdx msg = .ret k code) ∨
    ∃ cap dst, k.CanSend capIdx cap dst ∧
      (dst = k.current ∧
          k.sendWithCap capIdx msg =
            .ret { k with pending := Function.update k.pending k.current msg } ipcOk ∨
        dst ≠ k.current ∧ Awaits (k.tasks dst) k.currentTask.id ∧
          k.sendWithCap capIdx msg = .ret (k.wakeAndDeliver dst msg) ipcOk ∨
        dst ≠ k.current ∧ ¬ Awaits (k.tasks dst) k.currentTask.id ∧
          k.sendWithCap capIdx msg = .yield (k.blockSender cap.serverId msg) .sendWithCap) := by
  cases granted : k.capGet capIdx with
  | none =>
    refine .inl ⟨?_, ipcErrBadCap, by decide, by simp [sendWithCap, granted]⟩
    rintro ⟨cap, dst, can⟩
    simp [can.granted] at granted
  | some cap =>
    by_cases denied : cap.capType ≠ CapType.ipcTarget.value ∨ cap.rights &&& capSend = 0
    · refine .inl ⟨?_, ipcErrDenied, by decide, by simp only [sendWithCap, granted, if_pos denied]⟩
      rintro ⟨other, dst, can⟩
      obtain rfl : cap = other := Option.some.inj (granted.symm.trans can.granted)
      rcases denied with mistyped | forbidden
      · exact mistyped can.typed
      · exact can.right forbidden
    · obtain ⟨typed, right⟩ := not_or.mp denied
      cases found : k.findTask cap.serverId with
      | none =>
        refine .inl ⟨?_, ipcErrNoServer, by decide,
          by simp only [sendWithCap, granted, if_neg denied, found]⟩
        rintro ⟨other, dst, can⟩
        obtain rfl : cap = other := Option.some.inj (granted.symm.trans can.granted)
        simp [can.found] at found
      | some dst =>
        refine .inr ⟨cap, dst, ⟨granted, not_not.mp typed, right, found⟩, ?_⟩
        simp only [sendWithCap, granted, if_neg denied, found]
        by_cases self : dst = k.current
        · simp [self]
        · by_cases waits : Awaits (k.tasks dst) k.currentTask.id <;> simp [self, waits]

/-- A receive is refused without effect, takes a message from one of the three
places, or blocks. -/
theorem recvWithCap_cases (k : Kernel) (capIdx : Nat) :
    ((¬ ∃ cap, k.CanRecv capIdx cap) ∧
      ∃ code, code ≠ ipcOk ∧ k.recvWithCap capIdx = .ret k ⟨code, none⟩) ∨
    (∃ cap, k.CanRecv capIdx cap) ∧
      ((k.pending k.current).msgType ≠ 0 ∧
          k.recvWithCap capIdx =
            .ret { k with pending := Function.update k.pending k.current Message.empty }
              ⟨ipcOk, some (k.pending k.current)⟩ ∨
        (k.pending k.current).msgType = 0 ∧
          ((∃ sender, k.findSender = some sender ∧
              k.recvWithCap capIdx =
                .ret (k.modifyTask sender fun t => { t with state := .ready })
                  ⟨ipcOk, some (k.tasks sender).ipcMsg⟩) ∨
            k.findSender = none ∧ k.currentTask.ipcVal ≠ 0 ∧
              k.recvWithCap capIdx = .ret k.takePending.1 k.takePending.2 ∨
            k.findSender = none ∧ k.currentTask.ipcVal = 0 ∧
              k.recvWithCap capIdx =
                .yield (k.modifyTask k.current fun t =>
                  { t with state := .blockedRecv, ipcPartner := anyPartner }) .recvWithCap)) := by
  cases granted : k.capGet capIdx with
  | none =>
    refine .inl ⟨?_, ipcErrBadCap, by decide, by simp [recvWithCap, granted]⟩
    rintro ⟨cap, can⟩
    simp [can.granted] at granted
  | some cap =>
    by_cases denied : cap.capType ≠ CapType.ipcTarget.value ∨ cap.rights &&& capRecv = 0
    · refine .inl ⟨?_, ipcErrDenied, by decide, by simp only [recvWithCap, granted, if_pos denied]⟩
      rintro ⟨other, can⟩
      obtain rfl : cap = other := Option.some.inj (granted.symm.trans can.granted)
      rcases denied with mistyped | forbidden
      · exact mistyped can.typed
      · exact can.right forbidden
    · obtain ⟨typed, right⟩ := not_or.mp denied
      refine .inr ⟨⟨cap, granted, not_not.mp typed, right⟩, ?_⟩
      simp only [recvWithCap, granted, if_neg denied]
      by_cases occupied : (k.pending k.current).msgType = 0
      · cases found : k.findSender with
        | some sender => simp [occupied]
        | none => by_cases flag : k.currentTask.ipcVal = 0 <;> simp [occupied, flag]
      · simp [occupied]

theorem findSender_some {k : Kernel} {sender : Slot} (found : k.findSender = some sender) :
    (k.tasks sender).state = .blockedSend ∧ (k.tasks sender).ipcPartner = k.currentTask.id := by
  simpa using findSlot_some found

end DBSos.Kernel

/-!
## Sends and receives without capabilities

The older calls pass one word through `ipc_val`. The `_u64` variants of the
send differ from it only in what the word means.
-/

namespace DBSos.Kernel

open DBSos.Scheduler

/-- `IPC_ERR`. -/
def ipcErr : Nat := 2 ^ 64 - 2

/-- `IPC_ANY`. -/
def ipcAny : Nat := 2 ^ 64 - 1

/-- The partner accepts this task. -/
def Matches (t : Task) (state : TaskState) (id : Nat) : Prop :=
  t.state = state ∧ (t.ipcPartner = ipcAny ∨ t.ipcPartner = id)

instance (t : Task) (state : TaskState) (id : Nat) : Decidable (Matches t state id) :=
  inferInstanceAs (Decidable (_ ∧ _))

/-- `ipc_send`. -/
def ipcSend (k : Kernel) (dstId word : Nat) : Blocking Nat :=
  match k.findTask dstId with
  | none => .ret k ipcErr
  | some dst =>
    if Matches (k.tasks dst) .blockedRecv k.currentTask.id then
      .ret (k.modifyTask dst fun t => { t with state := .ready, ipcVal := word }) 0
    else
      .yield (k.modifyTask k.current fun t =>
        { t with state := .blockedSend, ipcPartner := dstId, ipcVal := word }) .ipcSend

/-- `ipc_send_u64`. -/
def ipcSendU64 (k : Kernel) (dstId val : Nat) : Blocking Nat := k.ipcSend dstId val

/-- `try_match_recv`: the sender that a receive from `srcId`, or from any for 0, finds. -/
def matchRecv (k : Kernel) (srcId : Nat) : Option Slot :=
  if srcId = 0 then k.findSlot fun t => Matches t .blockedSend k.currentTask.id
  else
    match k.findTask srcId with
    | some src => if Matches (k.tasks src) .blockedSend k.currentTask.id then some src else none
    | none => none

/-- `ipc_recv`. -/
def ipcRecv (k : Kernel) (srcId : Nat) : Blocking Nat :=
  match k.matchRecv srcId with
  | some src =>
    .ret (k.modifyTask src fun t => { t with state := .ready }) (k.tasks src).ipcVal
  | none =>
    .yield (k.modifyTask k.current fun t =>
      { t with state := .blockedRecv, ipcPartner := if srcId = 0 then ipcAny else srcId })
      .ipcRecv

/-- `ipc_recv_u64`. -/
def ipcRecvU64 (k : Kernel) : Blocking Nat := k.ipcRecv 0

/-- `ipc_recv` behind its `yield_now`. -/
def resumeIpcRecv (k : Kernel) : Kernel × Nat := (k, k.currentTask.ipcVal)

theorem matchRecv_some {k : Kernel} {srcId : Nat} {src : Slot}
    (found : k.matchRecv srcId = some src) :
    Matches (k.tasks src) .blockedSend k.currentTask.id := by
  unfold matchRecv at found
  split at found
  · simpa using findSlot_some found
  · split at found
    · split_ifs at found with waits
      obtain rfl := Option.some.inj found
      exact waits
    · cases found

/-- A receive from one task finds that task. -/
theorem matchRecv_from {k : Kernel} {srcId : Nat} {src : Slot} (specific : srcId ≠ 0)
    (found : k.matchRecv srcId = some src) : k.findTask srcId = some src := by
  rw [matchRecv, if_neg specific] at found
  split at found
  next waiting named =>
    split_ifs at found
    exact named.trans found
  next => cases found

end DBSos.Kernel
