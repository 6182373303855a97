import DBSos.Syscall.Files
import DBSos.Syscall.Resources

/-!
# The dispatcher

`syscallRustEntry` is what `syscall_stub` calls. Calls that block end at their
`yield_now` and go on in `resume` when the task is scheduled again, on whatever
machine the other tasks have left.
-/

namespace DBSos.Syscall

open DBSos.Abi

variable {σ : Type}

namespace Machine

variable (env : Services σ) (m : Machine σ)

/-- `arg as u16`. -/
def capIdx (arg : BitVec 64) : Nat := (arg.setWidth 16).toNat

/-- A kernel call that may block: its value, or its continuation. -/
def settle {α : Type} (result : Blocking α) (continuation : Continuation)
    (reply : Machine σ → α → Reply σ) : Reply σ :=
  match result with
  | .ret k value => reply { m with kernel := k } value
  | .yield k frame => .yield continuation { m with kernel := k.suspend frame }

/-- `SYS_IPC_SEND_LEGACY`. -/
def ipcSendLegacy (dst val : BitVec 64) : Reply σ :=
  m.settle (m.kernel.ipcSendU64 dst.toNat val.toNat) .ipcSendLegacy fun m value =>
    .ret (BitVec.ofNat 64 value) m

/-- `SYS_IPC_RECV_LEGACY`. -/
def ipcRecvLegacy : Reply σ :=
  m.settle m.kernel.ipcRecvU64 .ipcRecvLegacy fun m value => .ret (BitVec.ofNat 64 value) m

/-- `SYS_IPC_SEND`. -/
def ipcSend (cap msgPtr : BitVec 64) : Reply σ :=
  if m.kernel.capValidate (capIdx cap) capSend then
    m.settle (m.kernel.sendWithCap (capIdx cap) (m.readMsg msgPtr)) .ipcSend fun m code =>
      .ret (ipcCode code) m
  else .ret (ipcCode ipcErrDenied) m

/-- The end of `SYS_IPC_RECV`: the buffer is written whatever the result is. -/
def received (buf : BitVec 64) (result : Kernel.Received) : Reply σ :=
  .ret (ipcCode result.code) (m.writeMsg buf (result.buf.getD Message.empty))

/-- `SYS_IPC_RECV`. -/
def ipcRecv (cap buf : BitVec 64) : Reply σ :=
  if m.kernel.capValidate (capIdx cap) capRecv then
    m.settle (m.kernel.recvWithCap (capIdx cap)) (.ipcRecv buf) fun m result =>
      m.received buf result
  else .ret (ipcCode ipcErrDenied) m

/-- `SYS_CAP_GRANT`. -/
def capGrant (dst cap : BitVec 64) : Reply σ :=
  let (k, code) := m.kernel.capDuplicate dst.toNat (capIdx cap)
  .ret (ipcCode code) { m with kernel := k }

/-- `SYS_CAP_GET_DATA`. -/
def capGetData (cap : BitVec 64) : Reply σ :=
  match m.kernel.capGet (capIdx cap) with
  | some cap => .ret (BitVec.ofNat 64 cap.data) m
  | none => .ret (ipcCode ipcErrBadCap) m

/-- The bus, device and function packed into one argument. -/
def pciBus (bdf : BitVec 64) : BitVec 8 := (bdf >>> 8 &&& 0xFF#64).setWidth 8
def pciDev (bdf : BitVec 64) : BitVec 8 := (bdf >>> 3 &&& 0x1F#64).setWidth 8
def pciFunc (bdf : BitVec 64) : BitVec 8 := (bdf &&& 0x7#64).setWidth 8

/-- `SYS_PCI_READ`. -/
def pciRead (bdf offset : BitVec 64) : Reply σ :=
  .ret ((env.pciRead32 (pciBus bdf) (pciDev bdf) (pciFunc bdf) (offset.setWidth 8) m).setWidth 64) m

/-- `SYS_PCI_WRITE`. -/
def pciWrite (bdf offset val : BitVec 64) : Reply σ :=
  .ret 0#64 (env.pciWrite32 (pciBus bdf) (pciDev bdf) (pciFunc bdf) (offset.setWidth 8)
    (val.setWidth 32) m)

/-- `SYS_FORK`; `NEXT_ID += 1` overflows at the last id. -/
def fork : Reply σ :=
  match m.kernel.sysFork with
  | (k, none) => .fail { m with kernel := k }
  | (k, some id) =>
    if id + 1 ≥ 2 ^ 64 then .panic else .ret (BitVec.ofNat 64 id) { m with kernel := k }

/-- `SYS_EXEC`: it spawns a task and returns its id. -/
def exec (ptr len : BitVec 64) : Reply σ :=
  if PathLen len then
    let (result, m) := env.loadAndSpawn (m.readBytes ptr len.toNat) m
    if result = 0#64 then .fail m else .ret result m
  else .fail m

/-- The end of `SYS_WAITPID`. -/
def waited (result : Kernel.Waited) : Reply σ :=
  .ret (BitVec.ofNat 64 result.value)
    (match result.status with
      | some (ptr, status) => m.writeBytes ptr (leBytes status.toNat 4)
      | none => m)

/-- `SYS_WAITPID`. -/
def waitpid (pid statusPtr : BitVec 64) : Reply σ :=
  m.settle (m.kernel.waitpid pid.toNat statusPtr) (.waitpid statusPtr) waited

end Machine

/-- The numbers that the dispatcher knows. -/
inductive Number where
  | exit
  | ipcSendLegacy
  | ipcRecvLegacy
  | ipcSend
  | ipcRecv
  | capGrant
  | shmemMap
  | shmemCreate
  | mmioMap
  | pciRead
  | pciWrite
  | logWrite
  | capGetData
  | openFile
  | readFile
  | writeFile
  | closeFd
  | fstat
  | lseek
  | readdir
  | mkdir
  | rmdir
  | unlink
  | fork
  | exec
  | waitpid
  | dup
  | dup2
  | pipe
  | getcwd
  | chdir
  | socket
  | bind
  | listen
  | accept
  | connect
  | send
  | recv
  | shutdown
  | getuid
  | getgid
  | setuid
  | chmod
  | chown
  | wlShmCreate
  | wlShmDestroy
  | wlSurfaceCreate
  | wlSurfaceDestroy
  | wlSurfaceAttach
  | wlSurfaceCommit
  | wlSurfaceSetPos
  | fbInfo
  | fbMap
deriving DecidableEq

namespace Number

/-- The number in `rax`. -/
def value : Number → Nat
  | .exit => 0
  | .ipcSendLegacy => 1
  | .ipcRecvLegacy => 2
  | .ipcSend => 11
  | .ipcRecv => 12
  | .capGrant => 13
  | .shmemMap => 15
  | .shmemCreate => 16
  | .mmioMap => 17
  | .pciRead => 18
  | .pciWrite => 19
  | .logWrite => 20
  | .capGetData => 21
  | .openFile => 30
  | .readFile => 31
  | .writeFile => 32
  | .closeFd => 33
  | .fstat => 34
  | .lseek => 35
  | .readdir => 36
  | .mkdir => 37
  | .rmdir => 38
  | .unlink => 39
  | .fork => 40
  | .exec => 41
  | .waitpid => 42
  | .dup => 43
  | .dup2 => 44
  | .pipe => 45
  | .getcwd => 46
  | .chdir => 47
  | .socket => 50
  | .bind => 51
  | .listen => 52
  | .accept => 53
  | .connect => 54
  | .send => 55
  | .recv => 56
  | .shutdown => 57
  | .getuid => 60
  | .getgid => 61
  | .setuid => 62
  | .chmod => 63
  | .chown => 64
  | .wlShmCreate => 70
  | .wlShmDestroy => 71
  | .wlSurfaceCreate => 72
  | .wlSurfaceDestroy => 73
  | .wlSurfaceAttach => 74
  | .wlSurfaceCommit => 75
  | .wlSurfaceSetPos => 76
  | .fbInfo => 77
  | .fbMap => 78

def all : List Number :=
  [.exit, .ipcSendLegacy, .ipcRecvLegacy, .ipcSend, .ipcRecv, .capGrant, .shmemMap,
   .shmemCreate, .mmioMap, .pciRead, .pciWrite, .logWrite, .capGetData, .openFile, .readFile,
   .writeFile, .closeFd, .fstat, .lseek, .readdir, .mkdir, .rmdir, .unlink, .fork, .exec,
   .waitpid, .dup, .dup2, .pipe, .getcwd, .chdir, .socket, .bind, .listen, .accept, .connect,
   .send, .recv, .shutdown, .getuid, .getgid, .setuid, .chmod, .chown, .wlShmCreate,
   .wlShmDestroy, .wlSurfaceCreate, .wlSurfaceDestroy, .wlSurfaceAttach, .wlSurfaceCommit,
   .wlSurfaceSetPos, .fbInfo, .fbMap]

/-- The arm of the dispatcher's `match`; `none` for its last arm. -/
def ofNum (num : BitVec 64) : Option Number := all.find? fun number => number.value = num.toNat

/-- One arm of the dispatcher. -/
def dispatch (env : Services σ) (m : Machine σ) (arg1 arg2 arg3 arg4 : BitVec 64) : Number → Reply σ
  | .exit => .ret exitMagic m
  | .ipcSendLegacy => m.ipcSendLegacy arg1 arg2
  | .ipcRecvLegacy => m.ipcRecvLegacy
  | .ipcSend => m.ipcSend arg1 arg2
  | .ipcRecv => m.ipcRecv arg1 arg2
  | .capGrant => m.capGrant arg1 arg2
  | .shmemMap => m.shmemMap arg1 arg2
  | .shmemCreate => m.shmemCreate
  | .mmioMap => m.mmioMap arg1 arg2 arg3
  | .pciRead => m.pciRead env arg1 arg2
  | .pciWrite => m.pciWrite env arg1 arg2 arg3
  | .logWrite => m.logWrite arg1 arg2
  | .capGetData => m.capGetData arg1
  | .openFile => m.openFile env arg1 arg2 arg3
  | .readFile => m.readFile env arg1 arg2 arg3
  | .writeFile => m.writeFile env arg1 arg2 arg3
  | .closeFd => m.closeFd arg1
  | .fstat => m.fstat arg1
  | .lseek => m.lseek arg1 arg2 arg3
  | .readdir => m.readdir env arg1 arg2 arg3 arg4
  | .mkdir => m.mkdir env arg1 arg2
  | .rmdir => m.rmdir env arg1 arg2
  | .unlink => m.unlink env arg1 arg2
  | .fork => m.fork
  | .exec => m.exec env arg1 arg2
  | .waitpid => m.waitpid arg1 arg2
  | .dup => m.dup arg1
  | .dup2 => m.dup2 arg1 arg2
  | .pipe => m.pipe env arg1
  | .getcwd => m.getcwd env arg1 arg2
  | .chdir => m.chdir env arg1 arg2
  | .socket => m.socket env arg1 arg2
  | .bind => m.bind arg1 arg2
  | .listen => m.listen env arg1
  | .accept => m.accept env arg1 arg2 arg3
  | .connect => m.connect env arg1 arg2
  | .send => m.send env arg1 arg2 arg3
  | .recv => m.recv env arg1 arg2 arg3
  | .shutdown => m.shutdown env arg1
  | .getuid => m.getuid
  | .getgid => m.getgid
  | .setuid => m.setuid arg1
  | .chmod => m.chmod env arg1 arg2 arg3
  | .chown => m.chown env arg1 arg2 arg3 arg4
  | .wlShmCreate => m.wlShmCreate env arg1
  | .wlShmDestroy => m.wlShmDestroy env arg1
  | .wlSurfaceCreate => m.wlSurfaceCreate env arg1 arg2 arg3 arg4
  | .wlSurfaceDestroy => m.wlSurfaceDestroy env arg1
  | .wlSurfaceAttach => m.wlSurfaceAttach env arg1 arg2 arg3 arg4
  | .wlSurfaceCommit => m.wlSurfaceCommit env arg1
  | .wlSurfaceSetPos => m.wlSurfaceSetPos env arg1 arg2 arg3
  | .fbInfo => m.fbInfo arg1
  | .fbMap => m.fbMap arg1 arg2 arg3

end Number

/-- `syscall_rust_entry`. -/
def syscallRustEntry (env : Services σ) (m : Machine σ) (num arg1 arg2 arg3 arg4 : BitVec 64) :
    Reply σ :=
  match env.handleSyscall m num arg1 arg2 arg3 arg4 with
  | some (value, m) => .ret value m
  | none =>
    match Number.ofNum num with
    | some number => number.dispatch env m arg1 arg2 arg3 arg4
    | none => .ret 0#64 m

/-- The rest of a call behind its `yield_now`. -/
def resume (m : Machine σ) : Continuation → Reply σ
  | .ipcSendLegacy => .ret 0#64 { m with kernel := m.kernel.setFrame .outside }
  | .ipcRecvLegacy =>
    let (k, value) := (m.kernel.setFrame .outside).resumeIpcRecv
    .ret (BitVec.ofNat 64 value) { m with kernel := k }
  | .ipcSend =>
    let (k, code) := (m.kernel.setFrame .outside).resumeSend
    .ret (ipcCode code) { m with kernel := k }
  | .ipcRecv buf =>
    let (k, result) := (m.kernel.setFrame .outside).resumeRecv
    ({ m with kernel := k } : Machine σ).received buf result
  | .waitpid statusPtr =>
    let (k, result) := (m.kernel.setFrame .outside).resumeWaitpid statusPtr
    ({ m with kernel := k } : Machine σ).waited result

end DBSos.Syscall
