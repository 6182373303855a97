import DBSos.Fat.Directory

/-!
# The driver's calls

What the VFS gets: `fat_open` returns the first cluster and the size of a file packed
into a handle, and `fat_read` and `fat_write` go by the handle alone.
-/

namespace DBSos.Fat

open DBSos.Vfs (Path slash)

/-- The flags `O_CREAT` and `O_TRUNC` as the driver tests them. -/
def oCreat : Nat := 0x100
def oTrunc : Nat := 0x200

/-- `(cl as usize) << 32 | sz as usize`. -/
def handleOf (cluster size : Nat) : Nat := cluster <<< 32 ||| size

/-- Truncation of an entry in place: no cluster and no bytes. -/
def truncateEntry (bpb : Bpb) (disk : Disk) (dir : Nat) (name : Path) : Option Disk := do
  match ← findInDir bpb disk dir name with
  | none => some disk
  | some found =>
    let sec := found.entryIdx / 16
    let off := found.entryIdx % 16 * 32
    match ← readDirSector bpb disk dir sec with
    | none => some disk
    | some buf =>
      let (_, disk) ← writeDirSector bpb disk dir sec
        ((putCluster bpb buf off 0).writeLe32 (off + 28) 0)
      some disk

/-- The creation branch of `fat_open`: the new file's first cluster. -/
def createFile (bpb : Bpb) (disk : Disk) (dir : Nat) (name : Path) :
    Option (Option Nat × Disk) :=
  match nameTo83 name with
  | none => some (none, disk)
  | some short => do
    let cluster ← allocCluster bpb disk
    if cluster = 0 then some (none, disk)
    else
      let (_, disk) ← fatWriteEntry bpb disk cluster (fatEoc bpb)
      let lba ← clusterToLba bpb cluster
      let disk := disk.zeroFrom lba bpb.sectorsPerCluster
      let (added, disk) ← addDirEntry bpb disk dir short 0x20 cluster 0
      match added with
      | none => some (none, ← freeChain bpb disk cluster)
      | some _ => some (some cluster, disk)

/-- `fat_open` with the boot sector at hand. -/
def openAt (bpb : Bpb) (path : Path) (flags : Nat) (disk : Disk) : Option (Option Nat × Disk) := do
  match ← resolveParent bpb disk path with
  | none => some (none, disk)
  | some dir =>
    let name := lastComponent path
    if name = [] then some (some 0, disk)
    else
      match ← findInDir bpb disk dir name with
      | some found =>
        if flags &&& oTrunc ≠ 0 then
          let disk ← freeChain bpb disk found.cluster
          let disk ← truncateEntry bpb disk dir name
          some (some 0, disk)
        else some (some (handleOf found.cluster found.size), disk)
      | none =>
        if flags &&& oCreat = 0 then some (none, disk)
        else do
          let (created, disk) ← createFile bpb disk dir name
          some (created.map fun cluster => handleOf cluster 0, disk)

/-- `fat_mkdir` with the boot sector at hand. -/
def mkdirAt (bpb : Bpb) (path : Path) (disk : Disk) : Option (Bool × Disk) := do
  match ← resolveParent bpb disk path with
  | none => some (false, disk)
  | some parent =>
    let name := lastComponent path
    if name = [] then some (false, disk)
    else
      match ← findInDir bpb disk parent name with
      | some _ => some (false, disk)
      | none =>
        match nameTo83 name with
        | none => some (false, disk)
        | some short =>
          let cluster ← allocCluster bpb disk
          if cluster = 0 then some (false, disk)
          else
            let (_, disk) ← fatWriteEntry bpb disk cluster (fatEoc bpb)
            let disk ← initDirCluster bpb disk cluster parent
            let (added, disk) ← addDirEntry bpb disk parent short 0x10 cluster 0
            some (added.isSome, disk)

/-- The common end of `fat_rmdir` and `fat_unlink`: free the chain, then the entry. -/
def dropEntry (bpb : Bpb) (disk : Disk) (parent : Nat) (found : Found) : Option (Bool × Disk) := do
  deleteEntry bpb (← freeChain bpb disk found.cluster) parent found.entryIdx

/-- `fat_rmdir` with the boot sector at hand. -/
def rmdirAt (bpb : Bpb) (path : Path) (disk : Disk) : Option (Bool × Disk) := do
  match ← resolveParent bpb disk path with
  | none => some (false, disk)
  | some parent =>
    let name := lastComponent path
    if name = [] then some (false, disk)
    else
      match ← findInDir bpb disk parent name with
      | none => some (false, disk)
      | some found =>
        if isDirAttr found.attr = false then some (false, disk)
        else if (← isDirEmpty bpb disk found.cluster) = false then some (false, disk)
        else dropEntry bpb disk parent found

/-- `fat_unlink` with the boot sector at hand. -/
def unlinkAt (bpb : Bpb) (path : Path) (disk : Disk) : Option (Bool × Disk) := do
  match ← resolveParent bpb disk path with
  | none => some (false, disk)
  | some parent =>
    let name := lastComponent path
    if name = [] then some (false, disk)
    else
      match ← findInDir bpb disk parent name with
      | none => some (false, disk)
      | some found =>
        if isDirAttr found.attr then some (false, disk) else dropEntry bpb disk parent found

end DBSos.Fat
