import DBSos.Vfs.Mounts

/-!
# The virtual file system

One table of drivers, one of mounts and one of open files over whatever state
the drivers keep. The permission check of `open` reads the path as it is given;
the driver sees what is left of it behind the mount.
-/

namespace DBSos.Vfs

open DBSos.Syscall (Perm StatInfo DirEntry)

abbrev maxOpenFiles : Nat := 64

/-- An index of `OPEN_FILES`. -/
abbrev Fd := Fin maxOpenFiles

abbrev Flags := BitVec 64

/-- `O_CREAT`. -/
def oCreat : Flags := 0x100

/-- `O_TRUNC`. -/
def oTrunc : Flags := 0x200

/-- `FsOps`, over the state of the drivers. A read returns the bytes it puts in
the buffer, a write their number. -/
structure FsOps (δ : Type) where
  openPath : Path → Flags → δ → Option (BitVec 64) × δ
  close : BitVec 64 → δ → δ
  read : BitVec 64 → Nat → BitVec 64 → δ → Option (List UInt8) × δ
  write : BitVec 64 → List UInt8 → BitVec 64 → δ → Option Nat × δ
  stat : Path → δ → Option StatInfo
  readdir : Path → Nat → δ → Option (List DirEntry)
  mkdir : Path → δ → Bool × δ
  rmdir : Path → δ → Bool × δ
  unlink : Path → δ → Bool × δ

/-- `VfsFile`. -/
structure VfsFile where
  driverIdx : Nat
  handle : BitVec 64
  offset : BitVec 64
  size : BitVec 32
  flags : Flags
deriving DecidableEq

/-- The file's entry behind `n` written bytes. -/
def VfsFile.wrote (file : VfsFile) (n : Nat) : VfsFile :=
  let offset := file.offset + BitVec.ofNat 64 n
  { file with
    offset := offset
    size := if offset > file.size.setWidth 64 then offset.setWidth 32 else file.size }

/-- The position that `lseek` computes. The sums wrap, where the source's would panic. -/
def VfsFile.seekTarget (file : VfsFile) (offset : BitVec 64) (whence : BitVec 32) :
    Option (BitVec 64) :=
  if whence = 0 then some offset
  else if whence = 1 then some (file.offset + offset)
  else if whence = 2 then some (file.size.setWidth 64 + offset)
  else none

/-- The static tables, and the state of the drivers as `disk`. -/
structure Tables (δ : Type) where
  drivers : List (FsOps δ)
  mounts : List MountEntry
  openFiles : Fd → Option VfsFile
  perms : PermTable
  disk : δ

namespace Tables

variable {δ : Type} (v : Tables δ) (uid : Uid) (path : Path) (flags : Flags) (fd : Fd)

/-- Nothing is registered, mounted or open. -/
def empty (disk : δ) : Tables δ where
  drivers := []
  mounts := []
  openFiles _ := none
  perms := .empty
  disk := disk

/-- `register_driver`. -/
def registerDriver (ops : FsOps δ) : Option Nat × Tables δ :=
  if v.drivers.length ≥ maxMounts then (none, v)
  else (some v.drivers.length, { v with drivers := v.drivers ++ [ops] })

/-- `mount`, of a prefix that is not empty. -/
def mount (pfx : Path) (nonempty : pfx ≠ []) (driverIdx : Nat) : Bool × Tables δ :=
  if driverIdx ≥ v.drivers.length then (false, v)
  else if v.mounts.length ≥ maxMounts then (false, v)
  else
    (true, { v with mounts := v.mounts ++
      [⟨pfx.take (maxPath - 1), driverIdx,
        by simpa [List.take_eq_nil_iff, maxPath] using nonempty, List.length_take_le _ _⟩] })

/-- `resolve_mount`, `strip_prefix` and `get_driver`, as every call makes them:
the driver's index, the driver and the path it gets. -/
def resolve : Option (Nat × FsOps δ × Path) :=
  (resolveMount v.mounts path).bind fun m =>
    (v.drivers[m.driverIdx]?).map fun driver =>
      (m.driverIdx, driver, stripPrefix path m.pfx.length)

/-- `stat`. -/
def stat : Option StatInfo := (v.resolve path).bind fun found => found.2.1.stat found.2.2 v.disk

/-- `exists`. -/
def pathExists : Bool := (v.stat path).isSome

/-- `is_dir`. -/
def isDir : Bool := (v.stat path).elim false StatInfo.isDir

/-- `can_read` with the current user's uid. -/
def canRead : Bool := v.perms.canRead uid path uid

/-- `can_write` with the current user's uid. -/
def canWrite : Bool := v.perms.canWrite uid path uid

/-- `is_creat`. -/
def isCreat (flags : Flags) : Bool := flags &&& oCreat ≠ 0

/-- `need_write`. -/
def needWrite (flags : Flags) : Bool := flags &&& 1 ≠ 0 || isCreat flags

/-- The permission check of `open`. -/
def admits : Bool :=
  if needWrite flags then
    v.canWrite uid path ||
      (isCreat flags && !v.pathExists path && v.canWrite uid (parentOf path))
  else v.canRead uid path

def freeSlot : Option Fd := (List.finRange maxOpenFiles).find? fun fd => (v.openFiles fd).isNone

def setFile (file : Option VfsFile) : Tables δ :=
  { v with openFiles := Function.update v.openFiles fd file }

/-- The end of `open`, behind the driver's. -/
def install (idx : Nat) (driver : FsOps δ) (rel : Path) (handle : BitVec 64) (created : Bool) :
    Option Fd × Tables δ :=
  let size := ((driver.stat rel v.disk).map StatInfo.size).getD 0
  match v.freeSlot with
  | none => (none, { v with disk := driver.close handle v.disk })
  | some fd =>
    let v := v.setFile fd (some ⟨idx, handle, 0, size, flags⟩)
    (some fd, if created then { v with perms := v.perms.set path ⟨uid, uid, 0o644⟩ } else v)

/-- `open`; `none` is -1. -/
def openFile : Option Fd × Tables δ :=
  if v.admits uid path flags then
    match v.resolve path with
    | none => (none, v)
    | some (idx, driver, rel) =>
      match driver.openPath rel flags v.disk with
      | (none, disk) => (none, { v with disk })
      | (some handle, disk) =>
        { v with disk }.install uid path flags idx driver rel handle
          (isCreat flags && !v.pathExists path)
  else (none, v)

/-- `close`. -/
def close : Bool × Tables δ :=
  match v.openFiles fd with
  | none => (false, v)
  | some file =>
    let disk := (v.drivers[file.driverIdx]?).elim v.disk fun driver =>
      driver.close file.handle v.disk
    (true, { v with disk }.setFile fd none)

/-- `read`. -/
def read (count : Nat) : Option (List UInt8) × Tables δ :=
  match v.openFiles fd with
  | none => (none, v)
  | some file =>
    match v.drivers[file.driverIdx]? with
    | none => (none, v)
    | some driver =>
      match driver.read file.handle count file.offset v.disk with
      | (none, disk) => (none, { v with disk })
      | (some bytes, disk) =>
        (some bytes, { v with disk }.setFile fd
          (some { file with offset := file.offset + BitVec.ofNat 64 bytes.length }))

/-- `write`. -/
def write (bytes : List UInt8) : Option Nat × Tables δ :=
  match v.openFiles fd with
  | none => (none, v)
  | some file =>
    if file.flags &&& 3 = 0 then (none, v)
    else
      match v.drivers[file.driverIdx]? with
      | none => (none, v)
      | some driver =>
        match driver.write file.handle bytes file.offset v.disk with
        | (none, disk) => (none, { v with disk })
        | (some n, disk) => (some n, { v with disk }.setFile fd (some (file.wrote n)))

/-- `lseek`. -/
def lseek (offset : BitVec 64) (whence : BitVec 32) : Option (BitVec 64) × Tables δ :=
  match v.openFiles fd with
  | none => (none, v)
  | some file =>
    match file.seekTarget offset whence with
    | none => (none, v)
    | some target => (some target, v.setFile fd (some { file with offset := target }))

/-- `fstat`. -/
def fstat : BitVec 64 := (v.openFiles fd).elim 0 fun file => file.size.setWidth 64

/-- `readdir`. -/
def readdir (room : Nat) : Option (List DirEntry) :=
  if v.canRead uid path then
    (v.resolve path).bind fun found => found.2.1.readdir found.2.2 room v.disk
  else none

/-- What `mkdir`, `rmdir` and `unlink` do once they are allowed to. -/
def onDriver (act : FsOps δ → Path → δ → Bool × δ) : Bool × Tables δ :=
  match v.resolve path with
  | none => (false, v)
  | some (_, driver, rel) =>
    let (ok, disk) := act driver rel v.disk
    (ok, { v with disk })

/-- `mkdir`. -/
def mkdir : Bool × Tables δ :=
  if v.canWrite uid (parentOf path) then
    let (ok, v) := v.onDriver path FsOps.mkdir
    (ok, if ok then { v with perms := v.perms.set path ⟨uid, uid, 0o755⟩ } else v)
  else (false, v)

/-- The check of `rmdir` and `unlink`. -/
def mayRemove : Bool := v.canWrite uid path && v.canWrite uid (parentOf path)

/-- `rmdir`. -/
def rmdir : Bool × Tables δ :=
  if v.mayRemove uid path then v.onDriver path FsOps.rmdir else (false, v)

/-- `unlink`. -/
def unlink : Bool × Tables δ :=
  if v.mayRemove uid path then v.onDriver path FsOps.unlink else (false, v)

end Tables

end DBSos.Vfs
