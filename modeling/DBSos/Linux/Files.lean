import DBSos.Linux.Task

/-!
# Linux calls on files

A table entry keeps the path, position and size of what was opened, not the VFS
descriptor. `sys_read` and `sys_write` open the path again; `sys_close`, `sys_dup2`
and `sys_exit` close the VFS descriptor whose number is the entry's index, while
`sys_open` returns the number that the VFS gave.
-/

namespace DBSos.Linux.World

open DBSos.Syscall DBSos.Vfs DBSos.Vm

variable {δ ρ : Type} (w : World δ ρ) (i : Slot)

/-- `alloc_fd`. -/
def allocFd : Option FdIdx :=
  (List.finRange maxLinuxFds).find? fun idx => !((w.tasks i).fds idx).inUse

/-- `copy_path_from_user`: the name in a buffer of zeros, if it ends in time. -/
def copyPathFromUser (ptr : BitVec 64) : Option (Vector UInt8 128) :=
  let name := (w.machine.readBytes ptr 128).takeWhile fun byte => byte ≠ 0
  if name.length < 128 then some (padName name) else none

/-- Bytes written to the caller's memory. -/
def writeUser (ptr : BitVec 64) (bytes : List UInt8) : World δ ρ :=
  { w with machine := w.machine.writeBytes ptr bytes }

/-- `vfs::open`. -/
def vfsOpen (path : Vector UInt8 128) (flags : Flags) : Option Fd × World δ ρ :=
  w.onVfs (w.vfs.openFile w.machine.vfsUid path.toList flags)

/-- `fd < 0 || fd >= MAX_LINUX_FDS`. -/
def toIdx (fd : BitVec 32) : Option FdIdx :=
  if below : fd.toNat < maxLinuxFds then some ⟨fd.toNat, below⟩ else none

/-- The tests at the start of every call on an entry. -/
def usedFd (fd : BitVec 32) : Option FdIdx :=
  (toIdx fd).filter fun idx => ((w.tasks i).fds idx).inUse

/-- The flags of `vfs::open`: 1 opens for writing. -/
def openMode (flags : BitVec 32) : Flags := if flags &&& 1 ≠ 0 then 1 else 0

/-- `sys_open`. -/
def sysOpen (pathPtr : BitVec 64) (flags : BitVec 32) : BitVec 64 × World δ ρ :=
  match w.copyPathFromUser pathPtr with
  | none => (errno linuxEFAULT, w)
  | some path =>
    match w.allocFd i with
    | none => (errno linuxEMFILE, w)
    | some idx =>
      match w.vfsOpen path (openMode flags) with
      | (none, w) =>
        (errno linuxENOENT, w.setFd i idx { (w.tasks i).fds idx with inUse := false })
      | (some fd, w) =>
        (BitVec.ofNat 64 fd.val, w.setFd i idx ⟨true, path, 128, 0, w.vfs.fstat fd, flags⟩)

/-- `sys_openat`. -/
def sysOpenat (_dirfd : BitVec 32) (pathPtr : BitVec 64) (flags : BitVec 32) :
    BitVec 64 × World δ ρ := w.sysOpen i pathPtr flags

/-- `sys_close`. -/
def sysClose (fd : BitVec 32) : BitVec 64 × World δ ρ :=
  match w.usedFd i fd with
  | none => (errno linuxEBADF, w)
  | some idx =>
    let w := w.vfsClose (sameNumber idx)
    (0, w.setFd i idx { (w.tasks i).fds idx with inUse := false })

/-- `offset += n`, unless it overflows. -/
def advance (idx : FdIdx) (n : Nat) : Option (World δ ρ) :=
  let entry := (w.tasks i).fds idx
  if entry.offset.toNat + n < 2 ^ 64 then
    some (w.setFd i idx { entry with offset := entry.offset + BitVec.ofNat 64 n })
  else none

/-- `sys_read`; `none` is a panic. -/
def sysRead (fd : BitVec 32) (buf : BitVec 64) (count : Nat) : Option (BitVec 64 × World δ ρ) :=
  match w.usedFd i fd with
  | none => some (errno linuxEBADF, w)
  | some idx =>
    let entry := (w.tasks i).fds idx
    match w.vfsOpen entry.path 0 with
    | (none, w) => some (errno linuxENOENT, w)
    | (some vfd, w) =>
      let (_, w) := w.onVfs (w.vfs.lseek vfd entry.offset 0)
      let (bytes, w) := w.onVfs (w.vfs.read vfd (min count 4096))
      let w := w.vfsClose vfd
      match bytes with
      | none => some (-1, w)
      | some [] => some (0, w)
      | some bytes =>
        ((w.writeUser buf bytes).advance i idx bytes.length).map fun w =>
          (BitVec.ofNat 64 bytes.length, w)

/-- `sys_write`; `none` is a panic. Descriptors 1 and 2 are the serial line. -/
def sysWrite (fd : BitVec 32) (buf : BitVec 64) (count : BitVec 64) :
    Option (BitVec 64 × World δ ρ) :=
  if fd = 1 ∨ fd = 2 then some (count, w)
  else
    match w.usedFd i fd with
    | none => some (errno linuxEBADF, w)
    | some idx =>
      let entry := (w.tasks i).fds idx
      match w.vfsOpen entry.path 1 with
      | (none, w) => some (errno linuxENOENT, w)
      | (some vfd, w) =>
        let (_, w) := w.onVfs (w.vfs.lseek vfd entry.offset 0)
        let bytes := w.machine.readBytes buf (min count.toNat 4096)
        let (n, w) := w.onVfs (w.vfs.write vfd bytes)
        let w := w.vfsClose vfd
        match n with
        | none => some (-1, w)
        | some n => (w.advance i idx n).map fun w => (BitVec.ofNat 64 n, w)

/-- `sys_lseek`; `none` is a panic. -/
def sysLseek (fd : BitVec 32) (offset : BitVec 64) (whence : BitVec 32) :
    Option (BitVec 64 × World δ ρ) :=
  match w.usedFd i fd with
  | none => some (errno linuxEBADF, w)
  | some idx =>
    let entry := (w.tasks i).fds idx
    if whence = 0 then some (offset, w.setFd i idx { entry with offset := offset })
    else if whence = 1 ∨ whence = 2 then
      let base := if whence = 1 then entry.offset else entry.size
      if base.toNat + offset.toNat < 2 ^ 64 then
        some (base + offset, w.setFd i idx { entry with offset := base + offset })
      else none
    else some (errno linuxEINVAL, w)

/-- `sys_dup`. -/
def sysDup (oldFd : BitVec 32) : BitVec 64 × World δ ρ :=
  match w.usedFd i oldFd with
  | none => (errno linuxEBADF, w)
  | some old =>
    match w.allocFd i with
    | none => (errno linuxEMFILE, w)
    | some idx =>
      (BitVec.ofNat 64 idx.val, w.setFd i idx { (w.tasks i).fds old with inUse := true })

/-- `sys_dup2`. The new entry is closed first, and read after that if it is the old
one. -/
def sysDup2 (oldFd newFd : BitVec 32) : BitVec 64 × World δ ρ :=
  match w.usedFd i oldFd, toIdx newFd with
  | some old, some idx =>
    let w := if ((w.tasks i).fds idx).inUse then w.vfsClose (sameNumber idx) else w
    (newFd.signExtend 64, w.setFd i idx { (w.tasks i).fds old with inUse := true })
  | _, _ => (errno linuxEBADF, w)

/-- An entry that becomes one end of a pipe: the first six bytes of its path. -/
def pipeEnd (entry : LinuxFd) (name : List UInt8) (pipeBuf : Nat) : LinuxFd :=
  { entry with
    inUse := true
    path := Vector.ofFn fun k => if k.val < 6 then name.getD k.val 0 else entry.path.get k
    pathLen := 6
    offset := BitVec.ofNat 64 pipeBuf
    size := 0 }

/-- `sys_pipe`. -/
def sysPipe (fdsPtr : BitVec 64) : BitVec 64 × World δ ρ :=
  match w.allocFd i with
  | none => (errno linuxEMFILE, w)
  | some idx0 =>
    match w.allocFd i with
    | none => (errno linuxEMFILE, w.setFd i idx0 { (w.tasks i).fds idx0 with inUse := false })
    | some idx1 =>
      let phys := w.machine.kernel.phys
      let (pipeBuf, alloc) := phys.alloc.palloc
      if pipeBuf = 0 then
        let w := w.withPhys ⟨alloc, phys.mem⟩
        let w := w.setFd i idx0 { (w.tasks i).fds idx0 with inUse := false }
        (errno linuxENOMEM, w.setFd i idx1 { (w.tasks i).fds idx1 with inUse := false })
      else
        let w := w.withPhys ⟨alloc, zeroPage phys.mem pipeBuf⟩
        let w := w.setFd i idx0 (pipeEnd ((w.tasks i).fds idx0) "pipe_r".toUTF8.toList pipeBuf)
        let w := w.setFd i idx1 (pipeEnd ((w.tasks i).fds idx1) "pipe_w".toUTF8.toList pipeBuf)
        (0, w.writeUser fdsPtr (Machine.leBytes idx0.val 4 ++ Machine.leBytes idx1.val 4))

/-- `sys_fstat`. -/
def sysFstat (fd : BitVec 32) (statBuf : BitVec 64) : BitVec 64 × World δ ρ :=
  match w.usedFd i fd with
  | none => (errno linuxEBADF, w)
  | some idx =>
    let t := w.tasks i
    (0, w.writeUser statBuf
      ([0, 0, 0o100644, 1, t.uid.toNat, t.gid.toNat, 0, (t.fds idx).size.toNat, 4096, 0].flatMap
        fun word => Machine.leBytes word 8))

/-- `sys_fstatat`. -/
def sysFstatat (path statBuf : BitVec 64) : BitVec 64 × World δ ρ :=
  let (fd, w) := w.sysOpen i path 0
  if fd.toInt < 0 then (fd, w)
  else
    let (result, w) := w.sysFstat i (fd.setWidth 32) statBuf
    (result, (w.sysClose i (fd.setWidth 32)).2)

/-- `sys_chdir`. -/
def sysChdir (path : BitVec 64) : BitVec 64 × World δ ρ :=
  match w.copyPathFromUser path with
  | none => (errno linuxENOENT, w)
  | some name =>
    (0, w.modify i fun t =>
      { t with
        cwd := Vector.ofFn fun k => if k.val < 127 then name.get k else t.cwd.get k
        cwdLen := 127 })

/-- `sys_mkdir`, `sys_rmdir` and `sys_unlink`: a call on a path. -/
def onPath (path : BitVec 64) (act : Tables δ → Uid → Path → Bool × Tables δ) (failure : Nat) :
    BitVec 64 × World δ ρ :=
  match w.copyPathFromUser path with
  | none => (errno linuxENOENT, w)
  | some name =>
    let (ok, w) := w.onVfs (act w.vfs w.machine.vfsUid name.toList)
    (if ok then 0 else errno failure, w)

/-- `sys_mkdir`. -/
def sysMkdir (path : BitVec 64) : BitVec 64 × World δ ρ :=
  w.onPath path (fun v uid name => v.mkdir uid name) linuxEEXIST

/-- `sys_rmdir`, which calls `vfs::unlink`. -/
def sysRmdir (path : BitVec 64) : BitVec 64 × World δ ρ :=
  w.onPath path (fun v uid name => v.unlink uid name) linuxENOENT

/-- `sys_unlink`. -/
def sysUnlink (path : BitVec 64) : BitVec 64 × World δ ρ :=
  w.onPath path (fun v uid name => v.unlink uid name) linuxENOENT

end DBSos.Linux.World
