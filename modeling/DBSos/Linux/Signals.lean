import DBSos.Linux.Process

/-!
# Linux signals and system calls

A signal is sent by setting a bit of the target's `signal_pending` and taken by
`check_signals` when the target next makes a system call. `sys_kill` also ends the
sender for SIGKILL and SIGTERM, and `sys_tgkill` the target.
-/

namespace DBSos.Linux

open DBSos.Syscall (Machine)

def sigDfl : BitVec 64 := 0
def sigIgn : BitVec 64 := 1

def sigHup : Signal := 1
def sigInt : Signal := 2
def sigQuit : Signal := 3
def sigKill : Signal := 9
def sigSegv : Signal := 11
def sigTerm : Signal := 15

/-- The signals that `check_signals` ends a task for. -/
def fatal (sig : Signal) : Bool :=
  sig = sigHup ∨ sig = sigInt ∨ sig = sigQuit ∨ sig = sigTerm ∨ sig = sigSegv

/-- `sig == SIGKILL || sig == SIGTERM`, in `sys_kill` and `sys_tgkill`. -/
def ends (sig : Signal) : Bool := sig = sigKill ∨ sig = sigTerm

/-- `sig < 0 || sig >= MAX_SIGNALS`. -/
def toSignal (sig : BitVec 32) : Option Signal :=
  if below : sig.toNat < maxSignals then some ⟨sig.toNat, below⟩ else none

namespace LinuxTask

variable (t : LinuxTask) (sig : Signal)

/-- `signal_pending & (1 << sig) != 0`. -/
def pends : Bool := t.signalPending &&& 1#32 <<< sig.val ≠ 0

/-- `signal_mask & (1 << sig) != 0`. -/
def blocks : Bool := t.signalMask &&& 1#64 <<< sig.val ≠ 0

/-- `signal_pending |= 1 << sig`. -/
def raise : LinuxTask := { t with signalPending := t.signalPending ||| 1#32 <<< sig.val }

/-- `signal_pending &= !(1 << sig)`. -/
def clear : LinuxTask := { t with signalPending := t.signalPending &&& ~~~(1#32 <<< sig.val) }

end LinuxTask

namespace World

variable {δ ρ : Type} (w : World δ ρ) (i : Slot)

/-- `sys_rt_sigaction`. -/
def sysRtSigaction (env : Services δ ρ) (signum act old : BitVec 64) : BitVec 64 × World δ ρ :=
  if bounds : 0 < signum.toNat ∧ signum.toNat < maxSignals then
    let sig : Signal := ⟨signum.toNat, bounds.2⟩
    let memory := if old ≠ 0 then env.writeAction old ((w.tasks i).signalHandlers sig) w.machine.user
      else w.machine.user
    let w := { w with machine := { w.machine with user := memory } }
    (0, if act = 0 then w else
      w.modify i fun t =>
        { t with
          signalHandlers := Function.update t.signalHandlers sig (env.readAction memory act) })
  else (errno linuxEINVAL, w)

/-- A `u64` in the caller's memory. -/
def readU64 (ptr : BitVec 64) : BitVec 64 :=
  BitVec.ofNat 64
    ((w.machine.readBytes ptr 8).foldr (fun byte rest => byte.toNat + 256 * rest) 0)

/-- The three ways to change a mask, `SIG_BLOCK`, `SIG_UNBLOCK` and `SIG_SETMASK`. -/
def changeMask (how : BitVec 32) (mask new : BitVec 64) : BitVec 64 :=
  if how = 0 then mask ||| new
  else if how = 1 then mask &&& ~~~new
  else if how = 2 then new
  else mask

/-- `sys_rt_sigprocmask`. -/
def sysRtSigprocmask (how : BitVec 32) (set old : BitVec 64) : BitVec 64 × World δ ρ :=
  let w := if old = 0 then w
    else w.writeUser old (Machine.leBytes (w.tasks i).signalMask.toNat 8)
  (0, if set = 0 then w else
    let new := w.readU64 set
    w.modify i fun t => { t with signalMask := changeMask how t.signalMask new })

/-- The tasks at which a kill is aimed: all that are alive, those with the pid, or none
below -1. -/
def aimed (target : BitVec 32) (j : Slot) : Bool :=
  (w.tasks j).alive &&
    (target = 0 || target = -1 || 0 < target.toInt && (w.tasks j).pid = target.toNat)

/-- The loops of `sys_kill`. -/
def raiseAll (target : BitVec 32) (sig : Signal) : World δ ρ :=
  { w with tasks := fun j => if w.aimed target j then (w.tasks j).raise sig else w.tasks j }

/-- `sys_kill`. -/
def sysKill (target sig : BitVec 32) : BitVec 64 × World δ ρ :=
  match toSignal sig with
  | none => (errno linuxEINVAL, w)
  | some sig =>
    if 0 < target.toInt ∧ ∀ j, w.aimed target j = false then (errno linuxESRCH, w)
    else
      let w := w.raiseAll target sig
      (0, if ends sig then w.sysExit i (BitVec.ofNat 32 sig.val) else w)

/-- `sys_tgkill`. -/
def sysTgkill (tid sig : BitVec 32) : BitVec 64 × World δ ρ :=
  match toSignal sig with
  | none => (errno linuxEINVAL, w)
  | some sig =>
    match w.findTask (tid.signExtend 64).toNat with
    | none => (errno linuxESRCH, w)
    | some j =>
      let w := w.modify j fun t => t.raise sig
      (0, if ends sig then w.modify j fun t => { t with alive := false } else w)

/-- The loop of `check_signals`: a handler to call, or nothing more to do. -/
def checkFrom : List Signal → World δ ρ → Option (BitVec 64) × World δ ρ
  | [], w => (none, w)
  | sig :: rest, w =>
    let t := w.tasks i
    if t.pends sig = false ∨ t.blocks sig then checkFrom rest w
    else
      let w := w.modify i fun t => t.clear sig
      let handler := (t.signalHandlers sig).handler
      if handler = sigDfl then
        if fatal sig then (none, w.sysExit i (BitVec.ofNat 32 (128 + sig.val)))
        else checkFrom rest w
      else if handler = sigIgn then checkFrom rest w
      else (some handler, w)

/-- `1..MAX_SIGNALS`. -/
def signals : List Signal := (List.finRange maxSignals).tail

/-- `check_signals`. -/
def checkSignals : Option (BitVec 64) × World δ ρ :=
  if (w.tasks i).signalPending = 0 then (none, w) else checkFrom i signals w

end World

/-!
## The Linux system call table

`handle_syscall` takes the pending signals of the calling task first and then runs the
call, also when `check_signals` has just ended the task. The numbers in `report` only
fill a buffer of the caller or read the clock; the arms that return a constant are
gathered by their value.
-/

/-- How a call ends: with the value for `rax`, at a `yield_now` behind which it returns
0, or in the panic handler. -/
inductive Reply (δ ρ : Type) where
  | ret (value : BitVec 64) (w : World δ ρ)
  | yield (w : World δ ρ)
  | panic

/-- The result of a call that may panic. -/
def Reply.ofOption {δ ρ : Type} : Option (BitVec 64 × World δ ρ) → Reply δ ρ
  | none => .panic
  | some (value, w) => .ret value w

/-- The world behind a call that does not panic. -/
def Reply.world {δ ρ : Type} : Reply δ ρ → Option (World δ ρ)
  | .ret _ w => some w
  | .yield w => some w
  | .panic => none

scoped instance lawful_nr : LawfulBEq (BitVec 64) := inferInstance

/-- The arms that return 0 and do nothing. -/
def returnsZero (nr : BitVec 64) : Bool :=
  nr ∈ [72, 10, 11, 28, 25, 102, 107, 104, 108, 115, 105, 106, 109, 116, 82, 264, 21, 269, 90, 92,
    131, 15, 202, 74, 75, 77, 73, 26, 334, 213, 233, 232, 290, 284, 289, 283, 286, 287, 253, 254, 255]

/-- The arms that fill a buffer of the caller, or wait. -/
def reports (nr : BitVec 64) : Bool :=
  nr ∈ [16, 79, 78, 96, 228, 229, 35, 63, 99, 98, 318]

namespace World

variable {δ ρ : Type} (env : Services δ ρ) (w : World δ ρ) (i : Slot)

/-- The `match nr` of `handle_syscall`. -/
def perform (nr : BitVec 64) (a : Args) : Reply δ ρ :=
  let int (word : BitVec 64) : BitVec 32 := word.setWidth 32
  let ret (result : BitVec 64 × World δ ρ) : Reply δ ρ := .ret result.1 result.2
  if nr = 0 then .ofOption (w.sysRead i (int a.a1) a.a2 a.a3.toNat)
  else if nr = 1 then .ofOption (w.sysWrite i (int a.a1) a.a2 a.a3)
  else if nr = 2 then ret (w.sysOpen i a.a1 (int a.a2))
  else if nr = 257 then ret (w.sysOpenat i (int a.a1) a.a2 (int a.a3))
  else if nr = 3 then ret (w.sysClose i (int a.a1))
  else if nr = 8 then .ofOption (w.sysLseek i (int a.a1) a.a2 (int a.a3))
  else if nr = 32 then ret (w.sysDup i (int a.a1))
  else if nr = 33 ∨ nr = 292 then ret (w.sysDup2 i (int a.a1) (int a.a2))
  else if nr = 22 ∨ nr = 293 then ret (w.sysPipe i a.a1)
  else if nr = 9 then .ofOption (w.sysMmap i a.a1 a.a2 (int a.a3))
  else if nr = 12 then .ofOption (w.sysBrk i a.a1)
  else if nr = 39 ∨ nr = 186 ∨ nr = 121 ∨ nr = 124 ∨ nr = 112 ∨ nr = 218 then
    .ret (BitVec.ofNat 64 (w.tasks i).pid) w
  else if nr = 110 then .ret (BitVec.ofNat 64 (w.tasks i).ppid) w
  else if nr = 95 then .ret 0o022 w
  else if nr = 57 ∨ nr = 58 ∨ nr = 56 then ret (w.sysFork i)
  else if nr = 59 then ret (w.sysExecve env i a.a1)
  else if nr = 60 then .ret (-1) (w.sysExit i (int a.a1))
  else if nr = 61 then .ret (errno linuxECHILD) w
  else if nr = 62 then ret (w.sysKill i (int a.a1) (int a.a2))
  else if nr = 234 then ret (w.sysTgkill (int a.a2) (int a.a3))
  else if nr = 24 then .yield w
  else if nr = 4 ∨ nr = 6 ∨ nr = 5 then ret (w.sysFstat i (int a.a1) a.a2)
  else if nr = 262 then ret (w.sysFstatat i a.a2 a.a3)
  else if nr = 80 then ret (w.sysChdir i a.a1)
  else if nr = 83 ∨ nr = 258 then ret (w.sysMkdir a.a1)
  else if nr = 84 then ret (w.sysRmdir a.a1)
  else if nr = 87 ∨ nr = 263 then ret (w.sysUnlink a.a1)
  else if nr = 13 then ret (w.sysRtSigaction i env a.a1 a.a2 a.a3)
  else if nr = 14 then ret (w.sysRtSigprocmask i (int a.a1) a.a2 a.a3)
  else if nr = 23 ∨ nr = 270 ∨ nr = 7 ∨ nr = 271 then .ret 1 w
  else if returnsZero nr then .ret 0 w
  else if reports nr then
    match env.report nr a i w with
    | none => .panic
    | some (value, user) => .ret value { w with machine := { w.machine with user := user } }
  else .ret (errno linuxENOSYS) w

/-- `handle_syscall`. The handler's address is negated as an `i64`, which overflows for
the least one. -/
def handleSyscall (nr : BitVec 64) (a : Args) : Reply δ ρ :=
  match w.checkSignals i with
  | (some handler, w) => if handler = BitVec.intMin 64 then .panic else .ret (-handler) w
  | (none, w) => w.perform env i nr a

end World

end DBSos.Linux
