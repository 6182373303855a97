import DBSos.Ipc.Channel
import DBSos.Lib.Custody
import DBSos.Scheduler.Process
import DBSos.Lib.Trace

/-!
# Runs of send, receive and exit

`Traffic` is the kernel with three records of what passed through it: the
messages that sends took, the messages that receives handed out, and for each
task whether the last `deliver_message` into it is still unread. A call is one
step up to its `yield_now`; the rest of it is a later `resume`, and `tick` is
the timer interrupt between calls.

`custody` reads the records and the three message places of the kernel as a
`Lib.Custody`. `step_moves` says which event of custody each step is.
-/

namespace DBSos

open DBSos.Abi DBSos.Lib DBSos.Scheduler

/-- A message under the task id it is addressed to. -/
structure Parcel where
  target : Nat
  msg : Message
deriving DecidableEq

/-- Where the kernel keeps a message that has not been received. -/
inductive Place where
  | pending (slot : Slot)
  | sender (slot : Slot)
  | mailbox (slot : Slot)
deriving DecidableEq

structure Traffic where
  kernel : Kernel
  sent : List Parcel
  received : List Parcel
  delivered : Slot → Bool

/-- What the current task, or the timer, does next. -/
inductive Call where
  | send (capIdx : Nat) (msg : Message)
  | recv (capIdx : Nat)
  | exit (status : BitVec 32)
  | resume
  | tick

namespace Traffic

/-- Sends are numbered in order. -/
def stamped (w : Traffic) (msg : Message) : Message := { msg with stamp := some w.sent.length }

@[simp] theorem stamped_stamp (w : Traffic) (msg : Message) :
    (w.stamped msg).stamp = some w.sent.length := rfl
@[simp] theorem stamped_msgType (w : Traffic) (msg : Message) :
    (w.stamped msg).msgType = msg.msgType := rfl

/-- A send that is not refused is on record from the moment it takes the
message: it returns `IPC_OK` now, or when it resumes. -/
def send (w : Traffic) (capIdx : Nat) (msg : Message) : Traffic :=
  let msg := w.stamped msg
  let parcel : Parcel := ⟨((w.kernel.capGet capIdx).getD Cap.null).serverId, msg⟩
  match w.kernel.sendWithCap capIdx msg with
  | .ret k code =>
    if code = ipcOk then
      { w with
        kernel := k
        sent := w.sent ++ [parcel]
        delivered := fun slot =>
          w.delivered slot || (k.tasks slot).pendingMsg.stamp == msg.stamp }
    else { w with kernel := k }
  | .yield k frame => { w with kernel := k.suspend frame, sent := w.sent ++ [parcel] }

/-- The current task gets this result; reading the flag clears it. -/
def collect (w : Traffic) (k : Kernel) (result : Kernel.Received) : Traffic :=
  { w with
    kernel := k
    received :=
      if result.code = ipcOk then
        w.received ++ (result.buf.map (Parcel.mk w.kernel.currentTask.id)).toList
      else w.received
    delivered := fun slot => w.delivered slot && (k.tasks slot).ipcVal != 0 }

def recv (w : Traffic) (capIdx : Nat) : Traffic :=
  match w.kernel.recvWithCap capIdx with
  | .ret k result => w.collect k result
  | .yield k frame => { w with kernel := k.suspend frame }

def exit (w : Traffic) (status : BitVec 32) : Traffic :=
  { w with kernel := w.kernel.exitWithStatus status }

def resume (w : Traffic) : Option Traffic :=
  let k := w.kernel.setFrame .outside
  match w.kernel.frames w.kernel.current with
  | .sendWithCap => some { w with kernel := k.resumeSend.1 }
  | .recvWithCap => some (w.collect k.resumeRecv.1 k.resumeRecv.2)
  | _ => none

def tick (w : Traffic) : Traffic := { w with kernel := w.kernel.reschedule }

/-- One step. A task whose stack holds an unfinished call can only resume it. -/
def step (w : Traffic) (call : Call) : Option Traffic :=
  if w.kernel.halted then none
  else
    match call with
    | .tick => some w.tick
    | .resume => w.resume
    | .send capIdx msg =>
      if w.kernel.frames w.kernel.current = .outside then some (w.send capIdx msg) else none
    | .recv capIdx =>
      if w.kernel.frames w.kernel.current = .outside then some (w.recv capIdx) else none
    | .exit status =>
      if w.kernel.frames w.kernel.current = .outside then some (w.exit status) else none

def Steps (w : Traffic) (call : Call) (w' : Traffic) : Prop := w.step call = some w'

/-- The parcel in a place. A `PENDING` entry with message type 0 counts as empty
for every receive, an `ipc_msg` is on offer while its task is in a blocked send,
and a `pending_msg` until its receiver has read the flag. -/
def held (w : Traffic) : Place → Option Parcel
  | .pending slot =>
    if (w.kernel.pending slot).msgType ≠ 0 then
      some ⟨(w.kernel.tasks slot).id, w.kernel.pending slot⟩
    else none
  | .sender slot =>
    if (w.kernel.tasks slot).state = .blockedSend then
      some ⟨(w.kernel.tasks slot).ipcPartner, (w.kernel.tasks slot).ipcMsg⟩
    else none
  | .mailbox slot =>
    if w.delivered slot then
      some ⟨(w.kernel.tasks slot).id, (w.kernel.tasks slot).pendingMsg⟩
    else none

def custody (w : Traffic) : Custody Place Parcel := ⟨w.sent, w.held, w.received⟩

/-- No task with this id is alive. -/
def Gone (k : Kernel) (id : Nat) : Prop := ∀ slot, (k.tasks slot).Alive → (k.tasks slot).id ≠ id

instance (k : Kernel) (id : Nat) : Decidable (Gone k id) :=
  inferInstanceAs (Decidable (∀ _, _ → _))

/-- What holds in every run: custody is sound, sends are numbered, and a
`pending_msg` that is not an unread delivery was never sent or has been received. -/
structure Ledger (w : Traffic) : Prop where
  sound : w.custody.Sound
  numbered : w.sent.map (fun parcel => parcel.msg.stamp) = (List.range w.sent.length).map some
  known : ∀ parcel ∈ w.received, parcel.msg.stamp = none ∨ parcel ∈ w.sent
  flagged : ∀ slot, w.delivered slot = true →
    (w.kernel.tasks slot).ipcVal ≠ 0 ∧ (w.kernel.tasks slot).state ≠ .blockedRecv
  spent : ∀ slot, w.delivered slot = false →
    (w.kernel.tasks slot).pendingMsg.stamp = none ∨
      Parcel.mk (w.kernel.tasks slot).id (w.kernel.tasks slot).pendingMsg ∈ w.received ∧
        Parcel.mk (w.kernel.tasks slot).id (w.kernel.tasks slot).pendingMsg ∈ w.sent
  awake : w.kernel.halted = false → (w.kernel.tasks w.kernel.current).Alive

/-- Nothing has been sent: the kernel before the first send. -/
structure Idle (k : Kernel) : Prop where
  pending : ∀ slot, k.pending slot = Message.empty
  unstamped : ∀ slot, (k.tasks slot).pendingMsg.stamp = none
  quiet : ∀ slot, (k.tasks slot).state ≠ .blockedSend
  outside : ∀ slot, k.frames slot = .outside
  awake : k.currentTask.Alive

/-- The records at the start of a run. -/
def initial (k : Kernel) : Traffic := ⟨k, [], [], fun _ => false⟩

theorem ledger_initial {k : Kernel} (idle : Idle k) : Ledger (initial k) where
  sound := by
    have empty : ∀ place, (initial k).held place = none := by
      intro place
      cases place with
      | pending slot => simp [held, initial, idle.pending]
      | sender slot => simp [held, initial, idle.quiet]
      | mailbox slot => simp [held, initial]
    refine ⟨List.nodup_nil, ?_, ?_, ?_⟩ <;> simp [custody, empty]
  numbered := rfl
  known := by simp [initial]
  flagged := by simp [initial]
  spent := fun slot _ => .inl (idle.unstamped slot)
  awake := fun _ => idle.awake

end Traffic

end DBSos
