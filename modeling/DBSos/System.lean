import DBSos.Cap.Manager
import DBSos.Ipc.Channel
import DBSos.Scheduler.Spawn

/-!
# Runs of the kernel

One step is a kernel call of the current task up to its `yield_now`, the rest of
such a call when its task is scheduled again, or a timer interrupt. The calls
are those that create and end tasks, pass messages and grant capabilities.
-/

namespace DBSos

open DBSos.Abi DBSos.Scheduler

/-- What happens next. -/
inductive Action where
  | tick
  | resume
  | send (capIdx : Nat) (msg : Message)
  | recv (capIdx : Nat)
  | ipcSend (dstId word : Nat)
  | ipcRecv (srcId : Nat)
  | exit (status : BitVec 32)
  | waitpid (pid : Nat) (statusPtr : BitVec 64)
  | spawn
  | spawnUser (image : Kernel.UserImage)
  | sysFork
  | fork (parentId : Nat)
  | capAlloc (cap : Cap)
  | capAllocFor (taskId : Nat) (cap : Cap)
  | capDuplicate (dstTaskId idx : Nat)
  | capTransfer (dstTaskId idx : Nat)

/-- The kernel behind a call that returned or stopped at its `yield_now`. -/
def Blocking.settle {α : Type} : Blocking α → Kernel
  | .ret k _ => k
  | .yield k frame => k.suspend frame

namespace Kernel

/-- A call of the current task. -/
def call (k : Kernel) : Action → Kernel
  | .tick | .resume => k
  | .send capIdx msg => (k.sendWithCap capIdx msg).settle
  | .recv capIdx => (k.recvWithCap capIdx).settle
  | .ipcSend dstId word => (k.ipcSend dstId word).settle
  | .ipcRecv srcId => (k.ipcRecv srcId).settle
  | .exit status => k.exitWithStatus status
  | .waitpid pid statusPtr => (k.waitpid pid statusPtr).settle
  | .spawn => k.spawn.1
  | .spawnUser image => (k.spawnUser image).1
  | .sysFork => k.sysFork.1
  | .fork parentId => (k.fork parentId).1
  | .capAlloc cap => (k.capAlloc cap).1
  | .capAllocFor taskId cap => (k.capAllocFor taskId cap).1
  | .capDuplicate dstTaskId idx => (k.capDuplicate dstTaskId idx).1
  | .capTransfer dstTaskId idx => (k.capTransfer dstTaskId idx).1

/-- The current task continues behind the `yield_now` of its unfinished call. -/
def resumeFrame (k : Kernel) : Frame → Option Kernel
  | .outside => none
  | .sendWithCap => some k.resumeSend.1
  | .recvWithCap => some k.resumeRecv.1
  | .ipcSend => some k
  | .ipcRecv => some k.resumeIpcRecv.1
  | .waitpid _ statusPtr => some (k.resumeWaitpid statusPtr).1

/-- One step; none once the processor has halted. -/
def step (k : Kernel) (action : Action) : Option Kernel :=
  if k.halted then none
  else
    match action with
    | .tick => some k.reschedule
    | .resume => (k.setFrame .outside).resumeFrame (k.frames k.current)
    | call => if k.frames k.current = .outside then some (k.call call) else none

def Steps (k : Kernel) (action : Action) (k' : Kernel) : Prop := k.step action = some k'

/-- A step is a tick, the rest of an unfinished call, or a call. -/
theorem step_cases {k k' : Kernel} {action : Action} (valid : k.Steps action k') :
    k.halted = false ∧
      (action = .tick ∧ k' = k.reschedule ∨
        action = .resume ∧
          (k.setFrame .outside).resumeFrame (k.frames k.current) = some k' ∨
        action ≠ .tick ∧ action ≠ .resume ∧ k.frames k.current = .outside ∧ k' = k.call action) := by
  unfold Steps step at valid
  by_cases halted : k.halted = true
  · simp [halted] at valid
  · rw [if_neg halted] at valid
    refine ⟨by simpa using halted, ?_⟩
    cases action with
    | tick => exact .inl ⟨rfl, (Option.some.inj valid).symm⟩
    | resume => exact .inr (.inl ⟨rfl, valid⟩)
    | _ =>
      dsimp only at valid
      split_ifs at valid with outside
      exact .inr (.inr ⟨by simp, by simp, outside, (Option.some.inj valid).symm⟩)

end Kernel

end DBSos
