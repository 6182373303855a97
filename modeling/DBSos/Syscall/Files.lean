import DBSos.Syscall.Machine

/-!
# Calls on files and descriptors

A descriptor keeps the name, the offset and the size of its file; reads and
writes open the file anew for each call. Pipes store the address of their buffer
in the name.
-/

namespace DBSos.Syscall.Machine

open DBSos.Scheduler

variable {σ : Type} (env : Services σ) (m : Machine σ)

/-- The length test that every call with a path makes. -/
def PathLen (len : BitVec 64) : Prop := len ≠ 0#64 ∧ len.toNat ≤ 127

instance (len : BitVec 64) : Decidable (PathLen len) := inferInstanceAs (Decidable (_ ∧ _))

/-- The calls that read a path and return what one function says of it. -/
def pathCall (ptr len : BitVec 64) (act : List UInt8 → Machine σ → Bool × Machine σ) : Reply σ :=
  if PathLen len then .ofBool (act (m.readBytes ptr len.toNat) m) else .fail m

/-- `SYS_MKDIR`. -/
def mkdir (ptr len : BitVec 64) : Reply σ := m.pathCall ptr len env.vfsMkdir

/-- `SYS_RMDIR`. -/
def rmdir (ptr len : BitVec 64) : Reply σ := m.pathCall ptr len env.vfsRmdir

/-- `SYS_UNLINK`. -/
def unlink (ptr len : BitVec 64) : Reply σ := m.pathCall ptr len env.vfsUnlink

/-- `SYS_CHDIR`. -/
def chdir (ptr len : BitVec 64) : Reply σ :=
  m.pathCall ptr len fun path m =>
    if env.vfsIsDir path m then (true, env.cwdSet path m) else (false, m)

/-- `SYS_OPEN`. -/
def openFile (ptr len flags : BitVec 64) : Reply σ :=
  if PathLen len then
    let path := m.readBytes ptr len.toNat
    let (vfsFd, m) := env.vfsOpen path flags m
    if vfsFd.toInt < 0 then .fail m
    else
      match m.freeFd with
      | none => .fail (env.vfsClose vfsFd m)
      | some slot =>
        let size := ((env.vfsStat path m).map StatInfo.size).getD 0#32
        .ret (BitVec.ofNat 64 slot.val) (m.setFd slot ⟨true, padName path, 0#32, size, flags⟩)
  else .fail m

/-- `SYS_READ`. -/
def readFile (idx buf count : BitVec 64) : Reply σ :=
  m.withFd idx fun slot entry =>
    let toRead := min count.toNat (entry.size.toNat - entry.offset.toNat)
    if toRead = 0 then .ret 0#64 m
    else if m.userRangeOk buf toRead then
      let (vfsFd, m) := env.vfsOpen (fdName entry) 0#64 m
      if vfsFd.toInt < 0 then .fail m
      else
        let m := env.vfsLseek vfsFd (entry.offset.setWidth 64) m
        let (n, bytes, m) := env.vfsRead vfsFd (min toRead 4096) m
        let m := env.vfsClose vfsFd m
        if n = 0#64 then .ret 0#64 m
        else if n.toInt < 0 then .fail m
        else if n.toNat > 4096 then .panic
        else
          let m := m.writeBytes buf ((List.range n.toNat).map bytes)
          match m.advance slot n.toNat with
          | none => .panic
          | some entry => .ret n (m.setFd slot entry)
    else .fail m

/-- `SYS_WRITE`. -/
def writeFile (idx buf count : BitVec 64) : Reply σ :=
  m.withFd idx fun slot entry =>
    if entry.flags &&& 1#64 = 0#64 ∧ entry.flags &&& 2#64 = 0#64 then .fail m
    else if m.userRangeOk buf count.toNat then
      let bytes := m.readBytes buf (min count.toNat 4096)
      let (vfsFd, m) := env.vfsOpen (fdName entry) entry.flags m
      if vfsFd.toInt < 0 then .fail m
      else
        let m := env.vfsLseek vfsFd (entry.offset.setWidth 64) m
        let (n, m) := env.vfsWrite vfsFd bytes m
        let m := env.vfsClose vfsFd m
        if n.toInt ≤ 0 then .fail m
        else
          match m.advance slot n.toNat with
          | none => .panic
          | some entry =>
            .ret n (m.setFd slot
              { entry with size := if entry.offset > entry.size then entry.offset else entry.size })
    else .fail m

/-- `SYS_CLOSE`. -/
def closeFd (idx : BitVec 64) : Reply σ :=
  m.withFd idx fun slot _ => .ret 0#64 (m.setFd slot FdEntry.empty)

/-- `SYS_FSTAT`. -/
def fstat (idx : BitVec 64) : Reply σ :=
  m.withFd idx fun _ entry => .ret (entry.size.setWidth 64) m

/-- The new offset of `SYS_LSEEK`, before the cast to `u64`. -/
def seekTarget (entry : FdEntry) (offset : BitVec 64) (whence : BitVec 32) : Option Int :=
  if whence = 0#32 then some offset.toInt
  else if whence = 1#32 then some (entry.offset.toNat + offset.toInt)
  else if whence = 2#32 then some (entry.size.toNat + offset.toInt)
  else none

/-- `SYS_LSEEK`. -/
def lseek (idx offset whence : BitVec 64) : Reply σ :=
  m.withFd idx fun slot entry =>
    match seekTarget entry offset (whence.setWidth 32) with
    | none => .fail m
    | some target =>
      if target ≥ 2 ^ 63 then .panic
      else
        .ret (BitVec.ofInt 64 target)
          (m.setFd slot { entry with offset := BitVec.ofInt 32 target })

/-- The bytes of one directory entry in the caller's buffer. -/
def dirBytes (entry : DirEntry) : List UInt8 :=
  let name := entry.name.toList.takeWhile fun byte => byte ≠ 0
  ((List.range 24).map fun i => name.getD i 0) ++ [if entry.isDir then 1 else 0] ++
    leBytes entry.size.toNat 3

/-- `SYS_READDIR`. -/
def readdir (ptr len entries maxEntries : BitVec 64) : Reply σ :=
  if PathLen len then
    let (n, found, m) := env.vfsReaddir (m.readBytes ptr len.toNat) m
    if n.toInt < 0 then .fail m
    else
      let count := min (min n.toNat maxEntries.toNat) 64
      .ret (BitVec.ofNat 64 count)
        (((List.finRange 64).filter fun i => i.val < count).foldl
          (fun m i => m.writeBytes (entries + BitVec.ofNat 64 (i.val * 32)) (dirBytes (found i))) m)
  else .fail m

/-- `SYS_DUP`. -/
def dup (oldFd : BitVec 64) : Reply σ :=
  m.withFd oldFd fun _ entry =>
    match m.freeFd with
    | none => .fail m
    | some slot => .ret (BitVec.ofNat 64 slot.val) (m.setFd slot entry)

/-- `SYS_DUP2`. -/
def dup2 (oldFd newFd : BitVec 64) : Reply σ :=
  m.withFd oldFd fun _ entry =>
    if bound : newFd.toNat < maxFds then .ret newFd (m.setFd ⟨newFd.toNat, bound⟩ entry)
    else .fail m

/-- The name of a pipe's descriptors: the buffer's address and `PIPE`. -/
def pipeName (buf : BitVec 64) : Vector UInt8 128 :=
  padName (leBytes buf.toNat 8 ++ [0x50, 0x49, 0x50, 0x45])

/-- `SYS_PIPE`. The zeroing of the buffer is not represented: nothing reads it. -/
def pipe (fdsPtr : BitVec 64) : Reply σ :=
  let (buf, m) := env.kmalloc 4096 m
  if buf = 0#64 then .fail m
  else
    match m.freeFd with
    | none => .fail (env.kfree buf m)
    | some readSlot =>
      let m := m.setFd readSlot ⟨true, pipeName buf, 0#32, 0#32, 0#64⟩
      match m.freeFd with
      | none => .fail ((env.kfree buf m).setFd readSlot FdEntry.empty)
      | some writeSlot =>
        let m := m.setFd writeSlot ⟨true, pipeName buf, 0#32, 4096#32, 1#64⟩
        .ret 0#64 (m.writeBytes fdsPtr (leBytes readSlot.val 4 ++ leBytes writeSlot.val 4))

/-- `SYS_GETCWD`; a buffer of size 0 underflows. -/
def getcwd (buf size : BitVec 64) : Reply σ :=
  if size = 0#64 then .panic
  else .ret 0#64 (m.writeBytes buf ((env.cwdGet m).take (size.toNat - 1) ++ [0]))

/-- `SYS_LOG_WRITE`. The console is not represented. -/
def logWrite (ptr len : BitVec 64) : Reply σ :=
  if m.userRangeOk ptr len.toNat then .ret 0#64 m else .fail m

end DBSos.Syscall.Machine

/-!
## Calls on users and permissions
-/

namespace DBSos.Syscall.Machine

variable {σ : Type} (env : Services σ) (m : Machine σ)

/-- A `u32` as `u64`. -/
def word (value : Nat) : BitVec 64 := (BitVec.ofNat 32 value).setWidth 64

/-- `SYS_GETUID`. -/
def getuid : Reply σ := .ret (word m.uid) m

/-- `SYS_GETGID`. -/
def getgid : Reply σ := .ret (word m.gid) m

/-- `SYS_SETUID`: root only, to a known user or to root. -/
def setuid (arg : BitVec 64) : Reply σ :=
  let uid := (arg.setWidth 32).toNat
  if m.uid ≠ 0 then .fail m
  else if m.findByUid uid = none ∧ uid ≠ 0 then .fail m
  else .ret 0#64 (m.setCurrentUid uid)

/-- `SYS_CHMOD`: the owner or root. -/
def chmod (ptr len mode : BitVec 64) : Reply σ :=
  if PathLen len then
    let path := m.readBytes ptr len.toNat
    let perm := env.permGet path m
    if m.uid ≠ 0 ∧ perm.owner.toNat ≠ m.uid then .fail m
    else .ret 0#64 (env.permSet path { perm with mode := mode.setWidth 16 &&& 0o777#16 } m)
  else .fail m

/-- `SYS_CHOWN`: root only. -/
def chown (ptr len owner group : BitVec 64) : Reply σ :=
  if PathLen len then
    if m.uid ≠ 0 then .fail m
    else
      let path := m.readBytes ptr len.toNat
      let perm := env.permGet path m
      .ret 0#64
        (env.permSet path ⟨owner.setWidth 32, group.setWidth 32, perm.mode⟩ m)
  else .fail m

end DBSos.Syscall.Machine
