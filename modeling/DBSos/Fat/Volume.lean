import Mathlib.Algebra.GroupWithZero.Nat
import Mathlib.Logic.Function.Basic
import Mathlib.Tactic.SplitIfs

/-!
# Sectors and the boot sector

The driver reads and writes 512-byte sectors of one partition. Its buffers are
fixed at 512 bytes, whatever sector size the boot sector names, so an access to
a buffer can be out of bounds. `none` is the kernel's panic, from such an access
or from a subtraction below zero.
-/

namespace DBSos.Fat

/-- A buffer of 512 bytes; later positions do not exist. -/
abbrev Sector := Nat → UInt8

namespace Sector

/-- `[0u8; 512]`. -/
def zero : Sector := fun _ => 0

/-- `copy_from_slice` to a position. -/
def put (buf : Sector) (off : Nat) (bytes : List UInt8) : Sector :=
  fun i => if i < off then buf i else (bytes[i - off]?).getD (buf i)

/-- `le16`. -/
def le16 (buf : Sector) (off : Nat) : Nat := (buf off).toNat ||| (buf (off + 1)).toNat <<< 8

/-- `le32`. -/
def le32 (buf : Sector) (off : Nat) : Nat :=
  (buf off).toNat ||| (buf (off + 1)).toNat <<< 8 ||| (buf (off + 2)).toNat <<< 16 |||
    (buf (off + 3)).toNat <<< 24

/-- `write_le16`. -/
def writeLe16 (buf : Sector) (off v : Nat) : Sector :=
  buf.put off [UInt8.ofNat v, UInt8.ofNat (v >>> 8)]

/-- `write_le32`. -/
def writeLe32 (buf : Sector) (off v : Nat) : Sector :=
  buf.put off [UInt8.ofNat v, UInt8.ofNat (v >>> 8), UInt8.ofNat (v >>> 16), UInt8.ofNat (v >>> 24)]

/-- The bytes of a value at a computed offset are all in the buffer. -/
def within (off count : Nat) : Option Unit := if off + count ≤ 512 then some () else none

end Sector

/-- The partition, by sector number, and which of its sectors the active backend
can read and write. -/
structure Disk where
  sectors : Nat → Sector
  readable : Nat → Bool
  writable : Nat → Bool

namespace Disk

/-- `read_bpb_sector`. -/
def read (disk : Disk) (lba : Nat) : Option Sector :=
  if disk.readable lba then some (disk.sectors lba) else none

/-- `write_bpb_sector`. -/
def write (disk : Disk) (lba : Nat) (buf : Sector) : Bool × Disk :=
  if disk.writable lba then (true, { disk with sectors := Function.update disk.sectors lba buf })
  else (false, disk)

/-- The zeroing of `count` sectors, `let _ = write_bpb_sector(lba + s, &zero)`. -/
def zeroFrom (disk : Disk) (lba : Nat) : Nat → Disk
  | 0 => disk
  | count + 1 => ((disk.zeroFrom lba count).write (lba + count) Sector.zero).2

end Disk

inductive FatType where
  | fat12
  | fat16
  | fat32
deriving DecidableEq, Repr

/-- `Bpb`, with the fields that the driver reads. -/
structure Bpb where
  bytesPerSector : Nat
  sectorsPerCluster : Nat
  reservedSectors : Nat
  numFats : Nat
  rootEntryCount : Nat
  fatSize16 : Nat
  fatSize32 : Nat
  rootCluster : Nat
  fatType : FatType
  dataStart : Nat
  totalClusters : Nat
deriving DecidableEq, Repr

/-- `x & (x - 1) != 0`. -/
def notPowerOfTwo (x : Nat) : Bool := x &&& (x - 1) ≠ 0

/-- `read_bpb`; a boot sector whose data area starts behind the volume's end makes
the subtraction overflow. -/
def readBpb (disk : Disk) : Option (Option Bpb) :=
  match disk.read 0 with
  | none => some none
  | some buf =>
    if buf 0 = 0xE5 then some none
    else
      let bps := buf.le16 11
      if bps = 0 ∨ notPowerOfTwo bps then some none
      else
        let spc := (buf 13).toNat
        if spc = 0 ∨ notPowerOfTwo spc then some none
        else
          let reserved := buf.le16 14
          let numFats := (buf 16).toNat
          let rootEntries := buf.le16 17
          let fatSz16 := buf.le16 22
          let fatSz32 := buf.le32 36
          let fatSize := if fatSz16 ≠ 0 then fatSz16 else fatSz32
          let totalSectors := if buf.le16 19 ≠ 0 then buf.le16 19 else buf.le32 32
          let rootDirSectors := (rootEntries * 32 + bps - 1) / bps
          let dataStart := reserved + numFats * fatSize + rootDirSectors
          if totalSectors < dataStart then none
          else
            let totalClusters := (totalSectors - dataStart) / spc
            some (some {
              bytesPerSector := bps
              sectorsPerCluster := spc
              reservedSectors := reserved
              numFats := numFats
              rootEntryCount := rootEntries
              fatSize16 := fatSz16
              fatSize32 := fatSz32
              rootCluster := buf.le32 44
              fatType :=
                if totalClusters < 4085 then .fat12
                else if totalClusters < 65525 then .fat16
                else .fat32
              dataStart := dataStart
              totalClusters := totalClusters })

/-- `fat_sectors`. -/
def fatSectors (bpb : Bpb) : Nat :=
  match bpb.fatType with
  | .fat32 => bpb.fatSize32
  | _ => bpb.fatSize16

/-- `root_cluster`. -/
def rootCluster (bpb : Bpb) : Nat :=
  match bpb.fatType with
  | .fat32 => bpb.rootCluster
  | _ => 0

/-- `cluster_to_lba`. -/
def clusterToLba (bpb : Bpb) (cluster : Nat) : Option Nat :=
  if cluster < 2 then none else some (bpb.dataStart + (cluster - 2) * bpb.sectorsPerCluster)

/-! ## Reading after writing -/

namespace Sector

theorem put_inside (buf : Sector) {off : Nat} {bytes : List UInt8} {i : Nat}
    (inside : i < bytes.length) : buf.put off bytes (off + i) = bytes[i] := by
  have notBefore : ¬ off + i < off := by omega
  simp [put, notBefore, inside]

theorem put_outside (buf : Sector) {off : Nat} {bytes : List UInt8} {i : Nat}
    (outside : i < off ∨ off + bytes.length ≤ i) : buf.put off bytes i = buf i := by
  rcases outside with before | behind
  · simp [put, before]
  · have past : bytes.length ≤ i - off := by omega
    simp [put, List.getElem?_eq_none past]

end Sector

namespace Disk

variable (disk : Disk) (lba : Nat) (buf : Sector)

@[simp] theorem write_readable : (disk.write lba buf).2.readable = disk.readable := by
  unfold write
  split_ifs <;> rfl

@[simp] theorem write_writable : (disk.write lba buf).2.writable = disk.writable := by
  unfold write
  split_ifs <;> rfl

/-- A write touches no other sector. -/
theorem write_other {other : Nat} (differs : other ≠ lba) :
    (disk.write lba buf).2.sectors other = disk.sectors other := by
  unfold write
  split_ifs
  · exact Function.update_of_ne differs _ _
  · rfl

theorem write_same (writable : disk.writable lba = true) :
    (disk.write lba buf).2.sectors lba = buf := by
  simp [write, writable]

theorem write_fst : (disk.write lba buf).1 = disk.writable lba := by
  unfold write
  split_ifs with writable
  · exact writable.symm
  · simpa using writable

@[simp] theorem zeroFrom_readable (count : Nat) :
    (disk.zeroFrom lba count).readable = disk.readable := by
  induction count with
  | zero => rfl
  | succ count ih => simp [zeroFrom, ih]

@[simp] theorem zeroFrom_writable (count : Nat) :
    (disk.zeroFrom lba count).writable = disk.writable := by
  induction count with
  | zero => rfl
  | succ count ih => simp [zeroFrom, ih]

theorem zeroFrom_other {count other : Nat} (outside : other < lba ∨ lba + count ≤ other) :
    (disk.zeroFrom lba count).sectors other = disk.sectors other := by
  induction count with
  | zero => rfl
  | succ count ih =>
    rw [zeroFrom, write_other _ _ _ (by omega)]
    exact ih (by omega)

theorem zeroFrom_inside {count i : Nat} (inside : i < count)
    (writable : disk.writable (lba + i) = true) :
    (disk.zeroFrom lba count).sectors (lba + i) = Sector.zero := by
  induction count with
  | zero => omega
  | succ count ih =>
    by_cases last : i = count
    · subst last
      exact write_same _ _ _ (by simpa using writable)
    · rw [zeroFrom, write_other _ _ _ (by omega)]
      exact ih (by omega)

end Disk

end DBSos.Fat
