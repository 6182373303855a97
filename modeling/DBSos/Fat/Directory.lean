import DBSos.Fat.Chain
import DBSos.Fat.Name

/-!
# Directories

A directory is a sequence of sectors with sixteen entries each: the fixed root area,
or the sectors of a chain. A lookup reads it up to an entry whose first byte is 0; a
creation takes the first entry whose first byte is 0 or 0xE5.
-/

namespace DBSos.Fat

open DBSos.Vfs (Path slash)

/-! ## Sectors of a directory -/

/-- The walk of `read_dir_sector` along the chain; `none` inside when it ends early.
The last cluster reached is not tested for an end marker. -/
def walk (bpb : Bpb) (disk : Disk) : (head cluster : Nat) → Option (Option Nat)
  | 0, cluster => some (some cluster)
  | head + 1, cluster =>
    if fatIsEoc bpb cluster then some none
    else do
      let next ← fatReadEntry bpb disk cluster
      if next < 2 then some none else walk bpb disk head next

/-- Where a sector of a directory lies; 0 is the fixed root of FAT12 and FAT16. -/
def dirSectorLba (bpb : Bpb) (disk : Disk) (dirCluster secIdx : Nat) : Option (Option Nat) :=
  if dirCluster = 0 then
    if bpb.fatType = .fat32 then some none
    else if (bpb.rootEntryCount * 32 + 511) / 512 ≤ secIdx then some none
    else some (some (bpb.reservedSectors + bpb.numFats * fatSectors bpb + secIdx))
  else do
    match ← walk bpb disk (secIdx / bpb.sectorsPerCluster) dirCluster with
    | none => some none
    | some cluster =>
      let lba ← clusterToLba bpb cluster
      some (some (lba + secIdx % bpb.sectorsPerCluster))

/-- `read_dir_sector`. -/
def readDirSector (bpb : Bpb) (disk : Disk) (dirCluster secIdx : Nat) : Option (Option Sector) := do
  match ← dirSectorLba bpb disk dirCluster secIdx with
  | none => some none
  | some lba => some (disk.read lba)

/-- `write_dir_sector`. -/
def writeDirSector (bpb : Bpb) (disk : Disk) (dirCluster secIdx : Nat) (buf : Sector) :
    Option (Bool × Disk) := do
  match ← dirSectorLba bpb disk dirCluster secIdx with
  | none => some (false, disk)
  | some lba => some (disk.write lba buf)

/-- `dir_max_sectors`. -/
def dirMaxSectors (bpb : Bpb) (dirCluster : Nat) : Nat :=
  if bpb.fatType ≠ .fat32 ∧ dirCluster = 0 then (bpb.rootEntryCount * 32 + 511) / 512
  else 2 ^ 64 - 1

/-! ## Looking up a name -/

/-- What the lookup makes of one entry. -/
inductive Seen where
  | finish
  | next (lfn : Lfn)
  | hit

/-- The body of the lookup loop. -/
def Lfn.see (lfn : Lfn) (name : Path) (r : Record) : Seen :=
  if r.first = 0 then .finish
  else if r.first = 0xE5 then .next Lfn.empty
  else if r.attr &&& 0x0F = 0x0F then .next (lfn.gather r)
  else if r.attr &&& 0x08 ≠ 0 then .next Lfn.empty
  else if nameMatch r name then .hit
  else if lfn.filled ∧ lfn.lfnMatch name then .hit
  else .next Lfn.empty

/-- An entry with its index in the directory. -/
abbrev Indexed := Nat × Record

/-- How far a lookup got: still going, or ended with an entry or none. -/
inductive Scan where
  | going (lfn : Lfn)
  | ended (found : Option Indexed)

/-- The lookup loop over a list of entries. -/
def scan (name : Path) : List Indexed → Lfn → Scan
  | [], lfn => .going lfn
  | entry :: rest, lfn =>
    match lfn.see name entry.2 with
    | .finish => .ended none
    | .next lfn => scan name rest lfn
    | .hit => .ended (some entry)

/-- An entry of a sector, its 32 bytes. -/
def recordAt (buf : Sector) (i : Nat) : Record := fun j => if j < 32 then buf (i * 32 + j) else 0

/-- The entries of a sector, with their indices. -/
def entriesOf (sec : Nat) (buf : Sector) : List Indexed :=
  (List.range 16).map fun i => (sec * 16 + i, recordAt buf i)

/-- What `find_in_dir` returns. -/
structure Found where
  cluster : Nat
  size : Nat
  entryIdx : Nat
  attr : UInt8
deriving DecidableEq, Repr

/-- The first cluster that an entry names. -/
def Record.cluster (bpb : Bpb) (r : Record) : Nat :=
  match bpb.fatType with
  | .fat32 => Sector.le16 r 20 * 65536 + Sector.le16 r 26
  | _ => Sector.le16 r 26

def Record.size (r : Record) : Nat := Sector.le32 r 28

def foundAt (bpb : Bpb) (entry : Indexed) : Found where
  cluster := entry.2.cluster bpb
  size := entry.2.size
  entryIdx := entry.1
  attr := entry.2.attr

/-- The sector loop of `find_in_dir`, with `left` sectors to go. -/
def findFrom (bpb : Bpb) (disk : Disk) (dirCluster : Nat) (name : Path) :
    (left sec : Nat) → Lfn → Option (Option Found)
  | 0, _, _ => some none
  | left + 1, sec, lfn => do
    match ← readDirSector bpb disk dirCluster sec with
    | none => some none
    | some buf =>
      match scan name (entriesOf sec buf) lfn with
      | .ended found => some (found.map (foundAt bpb))
      | .going lfn => findFrom bpb disk dirCluster name left (sec + 1) lfn

/-- `find_in_dir`. -/
def findInDir (bpb : Bpb) (disk : Disk) (dirCluster : Nat) (name : Path) : Option (Option Found) :=
  findFrom bpb disk dirCluster name (dirMaxSectors bpb dirCluster) 0 Lfn.empty

/-- The attribute bit of a directory. -/
def isDirAttr (attr : UInt8) : Bool := attr &&& 0x10 ≠ 0

/-- `resolve_dir`, component by component. -/
def resolveFrom (bpb : Bpb) (disk : Disk) : Nat → List Path → Option (Option Nat)
  | cluster, [] => some (some cluster)
  | cluster, comp :: rest => do
    match ← findInDir bpb disk cluster comp with
    | none => some none
    | some found =>
      if isDirAttr found.attr then resolveFrom bpb disk found.cluster rest else some none

/-- `resolve_dir`. -/
def resolveDir (bpb : Bpb) (disk : Disk) (path : Path) : Option (Option Nat) :=
  resolveFrom bpb disk (rootCluster bpb) (components path)

/-- `resolve_parent`. -/
def resolveParent (bpb : Bpb) (disk : Disk) (path : Path) : Option (Option Nat) :=
  let p := parentPath path
  if p = [] ∨ p = [slash] then some (some (rootCluster bpb)) else resolveDir bpb disk p

/-! ## Changing a directory -/

/-- The walk of `extend_dir` to the last cluster; `none` inside after 100000 steps. -/
def lastCluster (bpb : Bpb) (disk : Disk) : (left cluster : Nat) → Option (Option Nat)
  | left, last => do
    let next ← fatReadEntry bpb disk last
    if fatIsEoc bpb next then some (some last)
    else
      match left with
      | 0 => some none
      | left + 1 => lastCluster bpb disk left next

/-- `extend_dir`. -/
def extendDir (bpb : Bpb) (disk : Disk) (dirCluster : Nat) : Option (Option Nat × Disk) := do
  let new ← allocCluster bpb disk
  if new = 0 then some (none, disk)
  else
    let (_, disk) ← fatWriteEntry bpb disk new (fatEoc bpb)
    match ← lastCluster bpb disk maxRounds dirCluster with
    | none => some (none, disk)
    | some last =>
      let (_, disk) ← fatWriteEntry bpb disk last new
      some (some new, disk)

/-- The two halves of a cluster number in an entry at `off`. -/
def putCluster (bpb : Bpb) (buf : Sector) (off cluster : Nat) : Sector :=
  match bpb.fatType with
  | .fat32 => (buf.writeLe16 (off + 20) ((cluster >>> 16) % 65536)).writeLe16 (off + 26) (cluster % 65536)
  | _ => buf.writeLe16 (off + 26) (cluster % 65536)

/-- `init_dir_cluster`, which always succeeds. -/
def initDirCluster (bpb : Bpb) (disk : Disk) (selfCluster parentCluster : Nat) : Option Disk := do
  let lba ← clusterToLba bpb selfCluster
  let buf := Sector.zero.put 0 (padded 8 [dot])
  let buf := putCluster bpb (buf.put 11 [0x10]) 0 selfCluster
  let buf := buf.put 32 (padded 8 [dot, dot])
  let buf := putCluster bpb (buf.put 43 [0x10]) 32 parentCluster
  let disk := (disk.write lba buf).2
  some (disk.zeroFrom (lba + 1) (bpb.sectorsPerCluster - 1))

/-- An entry that a creation may take. -/
def isFree (first : UInt8) : Bool := first == 0 || first == 0xE5

/-- The first free entry of a sector. -/
def freeEntry (buf : Sector) : Option Nat := (List.range 16).find? fun i => isFree (buf (i * 32))

/-- The bytes that `add_dir_entry` writes into an entry. -/
def putEntry (bpb : Bpb) (buf : Sector) (off : Nat) (short : List UInt8) (attr : UInt8)
    (cluster size : Nat) : Sector :=
  let buf := ((buf.put off short).put (off + 11) [attr]).put (off + 12) (List.replicate 14 0)
  (putCluster bpb buf off cluster).writeLe32 (off + 28) size

/-- A sector to add an entry in: the one that is there, or one of a new cluster, with
zeros. -/
def dirSectorFor (bpb : Bpb) (disk : Disk) (dirCluster sec : Nat) : Option (Option Sector × Disk) := do
  match ← readDirSector bpb disk dirCluster sec with
  | some buf => some (some buf, disk)
  | none =>
    if dirCluster = 0 then some (none, disk)
    else
      let (extended, disk) ← extendDir bpb disk dirCluster
      match extended with
      | none => some (none, disk)
      | some newCl =>
        let lba ← clusterToLba bpb newCl
        let disk := disk.zeroFrom lba bpb.sectorsPerCluster
        some (← readDirSector bpb disk dirCluster sec, disk)

/-- The sector loop of `add_dir_entry`. -/
def addFrom (bpb : Bpb) (dirCluster : Nat) (short : List UInt8) (attr : UInt8)
    (cluster size : Nat) : (left sec : Nat) → Disk → Option (Option Nat × Disk)
  | 0, _, disk => some (none, disk)
  | left + 1, sec, disk => do
    let (sector, disk) ← dirSectorFor bpb disk dirCluster sec
    match sector with
    | none => some (none, disk)
    | some buf =>
      match freeEntry buf with
      | some i =>
        let (_, disk) ← writeDirSector bpb disk dirCluster sec
          (putEntry bpb buf (i * 32) short attr cluster size)
        some (some (sec * 16 + i), disk)
      | none => addFrom bpb dirCluster short attr cluster size left (sec + 1) disk

/-- `add_dir_entry`. -/
def addDirEntry (bpb : Bpb) (disk : Disk) (dirCluster : Nat) (short : List UInt8) (attr : UInt8)
    (cluster size : Nat) : Option (Option Nat × Disk) :=
  addFrom bpb dirCluster short attr cluster size (dirMaxSectors bpb dirCluster) 0 disk

/-- `delete_entry`. -/
def deleteEntry (bpb : Bpb) (disk : Disk) (dirCluster entryIdx : Nat) : Option (Bool × Disk) := do
  let sec := entryIdx / 16
  match ← readDirSector bpb disk dirCluster sec with
  | none => some (false, disk)
  | some buf => writeDirSector bpb disk dirCluster sec (buf.put (entryIdx % 16 * 32) [0xE5])

/-- What `is_dir_empty` makes of one entry: empty, not empty, or undecided. -/
def emptySeen (i : Nat) (r : Record) : Option Bool :=
  if r.first = 0 then some true
  else if r.first = 0xE5 then none
  else if r.attr &&& 0x0F = 0x0F then none
  else if r.attr &&& 0x08 ≠ 0 then none
  else if i ≤ 1 ∧ r.first = dot then none
  else some false

/-- The sector loop of `is_dir_empty`. -/
def emptyFrom (bpb : Bpb) (disk : Disk) (dirCluster : Nat) : (left sec : Nat) → Option Bool
  | 0, _ => some true
  | left + 1, sec => do
    match ← readDirSector bpb disk dirCluster sec with
    | none => some true
    | some buf =>
      match (List.range 16).findSome? fun i => emptySeen i (recordAt buf i) with
      | some decided => some decided
      | none => emptyFrom bpb disk dirCluster left (sec + 1)

/-- `is_dir_empty`. -/
def isDirEmpty (bpb : Bpb) (disk : Disk) (dirCluster : Nat) : Option Bool :=
  emptyFrom bpb disk dirCluster (dirMaxSectors bpb dirCluster) 0

end DBSos.Fat
