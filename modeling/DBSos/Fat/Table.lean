import DBSos.Fat.Volume
import DBSos.Lib.Packing

/-!
# The file allocation table

An entry takes 12, 16 or 32 bits. The driver reads the sector that the entry
starts in, so a 12-bit entry that continues in the next sector is out of bounds.
-/

namespace DBSos.Fat

open Sector (within)

/-- `fat_read_entry`. -/
def fatReadEntry (bpb : Bpb) (disk : Disk) (cluster : Nat) : Option Nat :=
  match bpb.fatType with
  | .fat12 =>
    let off := cluster + cluster / 2
    let byteOff := off % bpb.bytesPerSector
    match disk.read (bpb.reservedSectors + off / bpb.bytesPerSector) with
    | none => some 0x0FFF
    | some buf => do
      within byteOff 2
      let val := buf.le16 byteOff
      some (if cluster &&& 1 = 0 then val &&& 0x0FFF else val >>> 4)
  | .fat16 =>
    let off := cluster * 2
    let byteOff := off % bpb.bytesPerSector
    match disk.read (bpb.reservedSectors + off / bpb.bytesPerSector) with
    | none => some 0xFFFF
    | some buf => do
      within byteOff 2
      some (buf.le16 byteOff)
  | .fat32 =>
    let off := cluster * 4
    let byteOff := off % bpb.bytesPerSector
    match disk.read (bpb.reservedSectors + off / bpb.bytesPerSector) with
    | none => some 0x0FFFFFFF
    | some buf => do
      within byteOff 4
      some (buf.le32 byteOff &&& 0x0FFFFFFF)

/-- Write a sector of the table, and its mirror in the second table. -/
def writeTable (bpb : Bpb) (disk : Disk) (sector : Nat) (buf : Sector) : Bool × Disk :=
  let (written, disk) := disk.write sector buf
  if written then
    (true, if 1 < bpb.numFats then (disk.write (sector + fatSectors bpb) buf).2 else disk)
  else (false, disk)

/-- `fat_write_entry`. -/
def fatWriteEntry (bpb : Bpb) (disk : Disk) (cluster value : Nat) : Option (Bool × Disk) :=
  match bpb.fatType with
  | .fat12 =>
    let off := cluster + cluster / 2
    let sector := bpb.reservedSectors + off / bpb.bytesPerSector
    let byteOff := off % bpb.bytesPerSector
    match disk.read sector with
    | none => some (false, disk)
    | some buf => do
      within byteOff 2
      let val16 := buf.le16 byteOff
      let newVal :=
        if cluster &&& 1 = 0 then val16 &&& 0xF000 ||| value &&& 0x0FFF
        else val16 &&& 0x000F ||| (value &&& 0x0FFF) <<< 4
      some (writeTable bpb disk sector (buf.writeLe16 byteOff newVal))
  | .fat16 =>
    let off := cluster * 2
    let sector := bpb.reservedSectors + off / bpb.bytesPerSector
    let byteOff := off % bpb.bytesPerSector
    match disk.read sector with
    | none => some (false, disk)
    | some buf => do
      within byteOff 2
      some (writeTable bpb disk sector (buf.writeLe16 byteOff value))
  | .fat32 =>
    let off := cluster * 4
    let sector := bpb.reservedSectors + off / bpb.bytesPerSector
    let byteOff := off % bpb.bytesPerSector
    match disk.read sector with
    | none => some (false, disk)
    | some buf => do
      within byteOff 4
      let old := buf.le32 byteOff
      some (writeTable bpb disk sector
        (buf.writeLe32 byteOff (old &&& 0xF0000000 ||| value &&& 0x0FFFFFFF)))

/-- The first value that marks an end of chain. -/
def FatType.firstEoc : FatType → Nat
  | .fat12 => 0x0FF8
  | .fat16 => 0xFFF8
  | .fat32 => 0x0FFFFFF8

/-- `fat_is_eoc`. -/
def fatIsEoc (bpb : Bpb) (val : Nat) : Bool := bpb.fatType.firstEoc ≤ val

/-- `fat_eoc`. -/
def fatEoc (bpb : Bpb) : Nat :=
  match bpb.fatType with
  | .fat12 => 0x0FFF
  | .fat16 => 0xFFFF
  | .fat32 => 0x0FFFFFFF

/-- The bound of the search of `alloc_cluster`. -/
def FatType.allocMax : FatType → Nat
  | .fat12 => 0x0FF0
  | .fat16 => 0xFFF0
  | .fat32 => 0x0FFFFFF0

/-- The loop of `alloc_cluster`, with `left` clusters from `cl` on to try. -/
def allocFrom (bpb : Bpb) (disk : Disk) : (left cl : Nat) → Option Nat
  | 0, _ => some 0
  | left + 1, cl => do
    if (← fatReadEntry bpb disk cl) = 0 then
      if (← fatReadEntry bpb disk cl) = 0 then some cl
      else allocFrom bpb disk left (cl + 1)
    else allocFrom bpb disk left (cl + 1)

/-- `alloc_cluster`; 0 when no entry is zero. -/
def allocCluster (bpb : Bpb) (disk : Disk) : Option Nat :=
  allocFrom bpb disk (bpb.fatType.allocMax - 2) 2

/-- The loop of `free_chain`, with `left` rounds before the cycle protection ends it. -/
def freeFrom (bpb : Bpb) : (left cl : Nat) → Disk → Option Disk
  | 0, _, disk => some disk
  | left + 1, cl, disk =>
    if ¬ fatIsEoc bpb cl ∧ 2 ≤ cl then do
      let next ← fatReadEntry bpb disk cl
      let (_, disk) ← fatWriteEntry bpb disk cl 0
      freeFrom bpb left next disk
    else some disk

/-- `free_chain`. -/
def freeChain (bpb : Bpb) (disk : Disk) (start : Nat) : Option Disk :=
  freeFrom bpb 100000 start disk

/-! ## What an entry holds -/

/-- The byte at this offset of the first table. -/
def tableByte (bpb : Bpb) (disk : Disk) (off : Nat) : Nat :=
  (disk.sectors (bpb.reservedSectors + off / 512) (off % 512)).toNat

/-- Where the entry of a cluster starts in the table. -/
def FatType.entryOffset (type : FatType) (cluster : Nat) : Nat :=
  match type with
  | .fat12 => cluster + cluster / 2
  | .fat16 => cluster * 2
  | .fat32 => cluster * 4

/-- How many bytes an entry is spread over. -/
def FatType.entryBytes : FatType → Nat
  | .fat32 => 4
  | _ => 2

/-- The entry of a cluster in these bytes of a table. -/
def entryOf (type : FatType) (byte : Nat → Nat) (cluster : Nat) : Nat :=
  let off := type.entryOffset cluster
  match type with
  | .fat12 =>
    if cluster % 2 = 0 then (byte off + 256 * byte (off + 1)) % 2 ^ 12
    else (byte off + 256 * byte (off + 1)) / 16
  | .fat16 => byte off + 256 * byte (off + 1)
  | .fat32 =>
    (byte off + 256 * byte (off + 1) + 2 ^ 16 * byte (off + 2) + 2 ^ 24 * byte (off + 3)) %
      2 ^ 28

/-- The entry of a cluster, also where it continues in the next sector. -/
def fatEntry (bpb : Bpb) (disk : Disk) (cluster : Nat) : Nat :=
  let off := bpb.fatType.entryOffset cluster
  let byte := tableByte bpb disk
  match bpb.fatType with
  | .fat12 =>
    if cluster % 2 = 0 then (byte off + 256 * byte (off + 1)) % 2 ^ 12
    else (byte off + 256 * byte (off + 1)) / 16
  | .fat16 => byte off + 256 * byte (off + 1)
  | .fat32 =>
    (byte off + 256 * byte (off + 1) + 2 ^ 16 * byte (off + 2) + 2 ^ 24 * byte (off + 3)) %
      2 ^ 28

/-- One more than the largest value of an entry. -/
def FatType.entryLimit : FatType → Nat
  | .fat12 => 4096
  | .fat16 => 65536
  | .fat32 => 2 ^ 28

theorem tableByte_lt (bpb : Bpb) (disk : Disk) (off : Nat) : tableByte bpb disk off < 256 :=
  UInt8.toNat_lt _

/-- What a valid boot sector promises of the volume: 512-byte sectors, a table that
covers every cluster, no cluster number among the end markers, sectors that can be read
as far as the volume goes, and tables that can be written. -/
structure Tables (bpb : Bpb) (disk : Disk) : Prop where
  bytesPerSector : bpb.bytesPerSector = 512
  sectorsPerCluster : 0 < bpb.sectorsPerCluster
  sectorsFit : bpb.sectorsPerCluster < 256
  numFats : 0 < bpb.numFats
  covers : ∀ cluster < bpb.totalClusters + 2,
    bpb.fatType.entryOffset cluster + bpb.fatType.entryBytes ≤ fatSectors bpb * 512
  dataStart : bpb.reservedSectors + bpb.numFats * fatSectors bpb +
    (if bpb.fatType = .fat32 then 0 else (bpb.rootEntryCount * 32 + 511) / 512) ≤ bpb.dataStart
  clusters : bpb.totalClusters + 2 ≤ bpb.fatType.firstEoc
  readable : ∀ lba < bpb.dataStart + bpb.totalClusters * bpb.sectorsPerCluster,
    disk.readable lba = true
  tablesWritable : ∀ sector < bpb.numFats * fatSectors bpb,
    disk.writable (bpb.reservedSectors + sector) = true

/-- A volume whose sectors can all be written. -/
structure Volume (bpb : Bpb) (disk : Disk) : Prop extends Tables bpb disk where
  writable : ∀ lba < bpb.dataStart + bpb.totalClusters * bpb.sectorsPerCluster,
    disk.writable lba = true

/-- A volume on a disk where nothing can be read at the place that an end marker, taken
for a cluster, would have. -/
structure Geometry (bpb : Bpb) (disk : Disk) : Prop extends Volume bpb disk where
  beyond : ∀ marker, bpb.fatType.firstEoc ≤ marker → ∀ sec < bpb.sectorsPerCluster,
    disk.readable (bpb.dataStart + (marker - 2) * bpb.sectorsPerCluster + sec) = false

/-- A cluster of the data area. -/
def InVolume (bpb : Bpb) (cluster : Nat) : Prop := 2 ≤ cluster ∧ cluster < bpb.totalClusters + 2

instance (bpb : Bpb) (cluster : Nat) : Decidable (InVolume bpb cluster) :=
  inferInstanceAs (Decidable (_ ∧ _))

/-! ## Reading an entry -/

theorem Sector.le16_eq (buf : Sector) (off : Nat) :
    buf.le16 off = (buf off).toNat + 256 * (buf (off + 1)).toNat := by
  rw [Sector.le16, Lib.or_shiftLeft (UInt8.toNat_lt _)]
  omega

theorem Sector.le32_eq (buf : Sector) (off : Nat) :
    buf.le32 off = (buf off).toNat + 256 * (buf (off + 1)).toNat +
      2 ^ 16 * (buf (off + 2)).toNat + 2 ^ 24 * (buf (off + 3)).toNat := by
  have b0 := UInt8.toNat_lt (buf off)
  have b1 := UInt8.toNat_lt (buf (off + 1))
  have b2 := UInt8.toNat_lt (buf (off + 2))
  have low : (buf off).toNat + (buf (off + 1)).toNat * 2 ^ 8 < 2 ^ 16 := by omega
  have middle : (buf off).toNat + (buf (off + 1)).toNat * 2 ^ 8 +
      (buf (off + 2)).toNat * 2 ^ 16 < 2 ^ 24 := by omega
  rw [Sector.le32, Lib.or_shiftLeft b0, Lib.or_shiftLeft low, Lib.or_shiftLeft middle]
  omega

section Entry

variable {bpb : Bpb} {disk disk' : Disk} {cluster : Nat}

theorem fatEntry_eq (bpb : Bpb) (disk : Disk) (cluster : Nat) :
    fatEntry bpb disk cluster = entryOf bpb.fatType (tableByte bpb disk) cluster := by
  unfold fatEntry entryOf
  cases bpb.fatType <;> rfl

/-- An entry is read from its own bytes alone. -/
theorem entryOf_congr {type : FatType} {byte byte' : Nat → Nat}
    (same : ∀ i < type.entryBytes, byte' (type.entryOffset cluster + i) =
      byte (type.entryOffset cluster + i)) :
    entryOf type byte' cluster = entryOf type byte cluster := by
  have s0 := same 0
  have s1 := same 1
  have s2 := same 2
  have s3 := same 3
  cases type <;> simp only [FatType.entryBytes, Nat.add_zero] at s0 s1 s2 s3 <;>
    simp only [entryOf]
  · rw [s0 (by omega), s1 (by omega)]
  · rw [s0 (by omega), s1 (by omega)]
  · rw [s0 (by omega), s1 (by omega), s2 (by omega), s3 (by omega)]

/-! ## Entries in one sector -/

/-- The sector that the driver looks for an entry in. -/
def entrySector (bpb : Bpb) (cluster : Nat) : Nat :=
  bpb.reservedSectors + bpb.fatType.entryOffset cluster / bpb.bytesPerSector

/-- Where in that sector the entry starts. -/
def entryPos (bpb : Bpb) (cluster : Nat) : Nat :=
  bpb.fatType.entryOffset cluster % bpb.bytesPerSector

/-- The entry lies in the buffer of its sector. -/
abbrev InBuffer (bpb : Bpb) (cluster : Nat) : Prop :=
  entryPos bpb cluster + bpb.fatType.entryBytes ≤ 512

/-- The bytes of a table as the sector of this entry has them. -/
def window (bpb : Bpb) (buf : Sector) (cluster x : Nat) : Nat :=
  (buf (x - bpb.fatType.entryOffset cluster / bpb.bytesPerSector * bpb.bytesPerSector)).toNat

theorem window_lt (bpb : Bpb) (buf : Sector) (cluster x : Nat) : window bpb buf cluster x < 256 :=
  UInt8.toNat_lt _

theorem entryPos_add (bpb : Bpb) (cluster : Nat) :
    bpb.fatType.entryOffset cluster / bpb.bytesPerSector * bpb.bytesPerSector +
      entryPos bpb cluster = bpb.fatType.entryOffset cluster :=
  Nat.div_add_mod' _ _

/-- The bytes of the entry itself. -/
theorem window_at (bpb : Bpb) (buf : Sector) (cluster i : Nat) :
    window bpb buf cluster (bpb.fatType.entryOffset cluster + i) =
      (buf (entryPos bpb cluster + i)).toNat := by
  have split := entryPos_add bpb cluster
  rw [window, show bpb.fatType.entryOffset cluster + i -
    bpb.fatType.entryOffset cluster / bpb.bytesPerSector * bpb.bytesPerSector =
      entryPos bpb cluster + i by omega]

/-- Reading an entry: a sector that cannot be read counts as an end marker, an entry that
leaves the buffer is a panic. -/
theorem fatReadEntry_window (bpb : Bpb) (disk : Disk) (cluster : Nat) :
    fatReadEntry bpb disk cluster =
      match disk.read (entrySector bpb cluster) with
      | none => some (fatEoc bpb)
      | some buf =>
        if InBuffer bpb cluster then
          some (entryOf bpb.fatType (window bpb buf cluster) cluster)
        else none := by
  have at_ := window_at bpb
  unfold fatReadEntry fatEoc entryOf entrySector InBuffer
  unfold entryPos at at_ ⊢
  cases type : bpb.fatType <;>
    simp only [type, FatType.entryOffset, FatType.entryBytes] at at_ ⊢
  · cases disk.read (bpb.reservedSectors + (cluster + cluster / 2) / bpb.bytesPerSector) with
    | none => rfl
    | some buf =>
      have b0 := at_ buf cluster 0
      have b1 := at_ buf cluster 1
      rw [Nat.add_zero, Nat.add_zero] at b0
      simp only [within, Sector.le16_eq, b0, b1]
      rw [show cluster &&& 1 = cluster % 2 from Lib.and_mask 1 (by norm_num) _,
        show _ &&& 0x0FFF = _ % 2 ^ 12 from Lib.and_mask 12 (by norm_num) _,
        Nat.shiftRight_eq_div_pow]
      split_ifs <;> rfl
  · cases disk.read (bpb.reservedSectors + cluster * 2 / bpb.bytesPerSector) with
    | none => rfl
    | some buf =>
      have b0 := at_ buf cluster 0
      have b1 := at_ buf cluster 1
      rw [Nat.add_zero, Nat.add_zero] at b0
      simp only [within, Sector.le16_eq, b0, b1]
      split_ifs <;> rfl
  · cases disk.read (bpb.reservedSectors + cluster * 4 / bpb.bytesPerSector) with
    | none => rfl
    | some buf =>
      have b0 := at_ buf cluster 0
      have b1 := at_ buf cluster 1
      have b2 := at_ buf cluster 2
      have b3 := at_ buf cluster 3
      rw [Nat.add_zero, Nat.add_zero] at b0
      simp only [within, Sector.le32_eq, b0, b1, b2, b3]
      rw [show _ &&& 0x0FFFFFFF = _ % 2 ^ 28 from Lib.and_mask 28 (by norm_num) _]
      split_ifs <;> rfl

/-- An entry that does not leave its sector, in bytes of the table. -/
theorem sector_byte (bpb : Bpb) (disk : Disk) (off i : Nat) (inside : off % 512 + i < 512) :
    (disk.sectors (bpb.reservedSectors + off / 512) (off % 512 + i)).toNat =
      tableByte bpb disk (off + i) := by
  have sector : (off + i) / 512 = off / 512 := by omega
  have position : (off + i) % 512 = off % 512 + i := by omega
  rw [tableByte, sector, position]

/-- The table lies in the volume. -/
theorem Tables.table_lt (tables : Tables bpb disk) {sector : Nat}
    (inside : sector < bpb.numFats * fatSectors bpb) :
    bpb.reservedSectors + sector < bpb.dataStart + bpb.totalClusters * bpb.sectorsPerCluster := by
  have start := tables.dataStart
  omega

theorem Tables.entry_sector (tables : Tables bpb disk)
    (bound : cluster < bpb.totalClusters + 2) :
    bpb.fatType.entryOffset cluster / 512 < fatSectors bpb := by
  have covers := tables.covers cluster bound
  have bytes : 0 < bpb.fatType.entryBytes := by cases bpb.fatType <;> simp [FatType.entryBytes]
  omega

theorem Tables.read_entry (tables : Tables bpb disk)
    (bound : cluster < bpb.totalClusters + 2) :
    disk.read (bpb.reservedSectors + bpb.fatType.entryOffset cluster / 512) =
      some (disk.sectors (bpb.reservedSectors + bpb.fatType.entryOffset cluster / 512)) := by
  have sector := tables.entry_sector bound
  have more : fatSectors bpb ≤ bpb.numFats * fatSectors bpb :=
    Nat.le_mul_of_pos_left _ tables.numFats
  rw [Disk.read, if_pos (tables.readable _ (tables.table_lt (by omega)))]

/-- The entry lies in one sector. -/
def Whole (bpb : Bpb) (cluster : Nat) : Prop :=
  bpb.fatType.entryOffset cluster % 512 + bpb.fatType.entryBytes ≤ 512

instance (bpb : Bpb) (cluster : Nat) : Decidable (Whole bpb cluster) :=
  inferInstanceAs (Decidable (_ ≤ _))

theorem Tables.entrySector_eq (tables : Tables bpb disk) (cluster : Nat) :
    entrySector bpb cluster =
      bpb.reservedSectors + bpb.fatType.entryOffset cluster / 512 := by
  rw [entrySector, tables.bytesPerSector]

theorem Tables.whole_iff (tables : Tables bpb disk) (cluster : Nat) :
    Whole bpb cluster ↔ InBuffer bpb cluster := by
  rw [Whole, InBuffer, entryPos, tables.bytesPerSector]

/-- The sector of a whole entry has the bytes of the table. -/
theorem Tables.window_eq (tables : Tables bpb disk) (whole : Whole bpb cluster) {i : Nat}
    (inside : i < bpb.fatType.entryBytes) :
    window bpb (disk.sectors (bpb.reservedSectors + bpb.fatType.entryOffset cluster / 512)) cluster
        (bpb.fatType.entryOffset cluster + i) =
      tableByte bpb disk (bpb.fatType.entryOffset cluster + i) := by
  unfold Whole at whole
  rw [window_at, entryPos, tables.bytesPerSector]
  exact sector_byte bpb disk _ i (by omega)

/-- Reading an entry returns it, or panics where it continues in the next sector. -/
theorem fatReadEntry_eq (tables : Tables bpb disk) (bound : cluster < bpb.totalClusters + 2) :
    fatReadEntry bpb disk cluster =
      if Whole bpb cluster then some (fatEntry bpb disk cluster) else none := by
  rw [fatReadEntry_window, tables.entrySector_eq, tables.read_entry bound]
  dsimp only
  by_cases whole : Whole bpb cluster
  · rw [if_pos ((tables.whole_iff cluster).mp whole), if_pos whole, fatEntry_eq,
      entryOf_congr fun i inside => tables.window_eq whole inside]
  · rw [if_neg (mt (tables.whole_iff cluster).mpr whole), if_neg whole]

/-! ## Writing an entry -/

/-- What a write of a sector, and of its mirror, does to the bytes of the first table. -/
theorem tableByte_put (bpb : Bpb) (disk : Disk) {off : Nat} (bytes : List UInt8)
    (inside : off % 512 + bytes.length ≤ 512) {x : Nat} (bound : x < fatSectors bpb * 512) :
    tableByte bpb (writeTable bpb disk (bpb.reservedSectors + off / 512)
        ((disk.sectors (bpb.reservedSectors + off / 512)).put (off % 512) bytes)).2 x =
      if disk.writable (bpb.reservedSectors + off / 512) = true ∧ off ≤ x ∧ x < off + bytes.length
        then (bytes.getD (x - off) 0).toNat
      else tableByte bpb disk x := by
  by_cases writable : disk.writable (bpb.reservedSectors + off / 512) = true
  · have mirror : ∀ buf, (writeTable bpb disk (bpb.reservedSectors + off / 512) buf).2.sectors
        (bpb.reservedSectors + x / 512) =
          (disk.write (bpb.reservedSectors + off / 512) buf).2.sectors
            (bpb.reservedSectors + x / 512) := by
      intro buf
      have behind : bpb.reservedSectors + x / 512 ≠
          bpb.reservedSectors + off / 512 + fatSectors bpb := by omega
      have written : (disk.write (bpb.reservedSectors + off / 512) buf).1 = true := by
        rw [Disk.write_fst, writable]
      simp only [writeTable, written, if_true]
      split_ifs
      · exact Disk.write_other _ _ _ behind
      · rfl
    rw [tableByte, mirror]
    by_cases same : x / 512 = off / 512
    · rw [same, Disk.write_same _ _ _ writable]
      by_cases within : off ≤ x ∧ x < off + bytes.length
      · obtain ⟨i, rfl⟩ := Nat.exists_eq_add_of_le within.1
        have position : (off + i) % 512 = off % 512 + i := by omega
        have index : i < bytes.length := by omega
        rw [if_pos ⟨writable, within⟩, position, Sector.put_inside _ index]
        simp [index]
      · rw [if_neg (fun both => within both.2), Sector.put_outside _ (by omega), tableByte, same]
    · rw [Disk.write_other _ _ _ (by omega), if_neg (by omega), tableByte]
  · rw [if_neg (fun both => writable both.1)]
    simp [writeTable, Disk.write, writable]

/-- What `fat_write_entry` puts back into these bytes of an entry. -/
def packedOf (type : FatType) (byte : Nat → Nat) (cluster value : Nat) : Nat :=
  let off := type.entryOffset cluster
  match type with
  | .fat12 =>
    let old := byte off + 256 * byte (off + 1)
    if cluster % 2 = 0 then old / 2 ^ 12 * 2 ^ 12 + value % 2 ^ 12
    else old % 16 + value % 2 ^ 12 * 16
  | .fat16 => value
  | .fat32 =>
    let old := byte off + 256 * byte (off + 1) + 2 ^ 16 * byte (off + 2) +
      2 ^ 24 * byte (off + 3)
    old / 2 ^ 28 * 2 ^ 28 + value % 2 ^ 28

/-- The number that `fat_write_entry` puts back into the bytes of an entry. -/
def packed (bpb : Bpb) (disk : Disk) (cluster value : Nat) : Nat :=
  let off := bpb.fatType.entryOffset cluster
  let byte := tableByte bpb disk
  match bpb.fatType with
  | .fat12 =>
    let old := byte off + 256 * byte (off + 1)
    if cluster % 2 = 0 then old / 2 ^ 12 * 2 ^ 12 + value % 2 ^ 12
    else old % 16 + value % 2 ^ 12 * 16
  | .fat16 => value
  | .fat32 =>
    let old := byte off + 256 * byte (off + 1) + 2 ^ 16 * byte (off + 2) +
      2 ^ 24 * byte (off + 3)
    old / 2 ^ 28 * 2 ^ 28 + value % 2 ^ 28

/-- The low bytes of a number, the lowest first. -/
def lowBytes (count value : Nat) : List UInt8 :=
  (List.range count).map fun i => UInt8.ofNat (value >>> (8 * i))

/-- The masks of `fat_write_entry` keep the bits that belong to a neighbour. -/
theorem keep_top {x : Nat} (fits : x < 2 ^ 16) (value : Nat) :
    x &&& 0xF000 ||| value &&& 0x0FFF = x / 2 ^ 12 * 2 ^ 12 + value % 2 ^ 12 :=
  Lib.replace_low 16 12 fits rfl rfl

theorem keep_bottom (x value : Nat) :
    x &&& 0x000F ||| (value &&& 0x0FFF) <<< 4 = x % 16 + value % 2 ^ 12 * 16 :=
  Lib.replace_high 4 12 rfl rfl

theorem keep_reserved {x : Nat} (fits : x < 2 ^ 32) (value : Nat) :
    x &&& 0xF0000000 ||| value &&& 0x0FFFFFFF = x / 2 ^ 28 * 2 ^ 28 + value % 2 ^ 28 :=
  Lib.replace_low 32 28 fits rfl rfl

theorem packed_eq (bpb : Bpb) (disk : Disk) (cluster value : Nat) :
    packed bpb disk cluster value = packedOf bpb.fatType (tableByte bpb disk) cluster value := by
  unfold packed packedOf
  cases bpb.fatType <;> rfl

theorem packedOf_congr {type : FatType} {byte byte' : Nat → Nat} (value : Nat)
    (same : ∀ i < type.entryBytes, byte' (type.entryOffset cluster + i) =
      byte (type.entryOffset cluster + i)) :
    packedOf type byte' cluster value = packedOf type byte cluster value := by
  have s0 := same 0
  have s1 := same 1
  have s2 := same 2
  have s3 := same 3
  cases type <;> simp only [FatType.entryBytes, Nat.add_zero] at s0 s1 s2 s3 <;>
    simp only [packedOf]
  · rw [s0 (by omega), s1 (by omega)]
  · rw [s0 (by omega), s1 (by omega), s2 (by omega), s3 (by omega)]

/-- Writing an entry: a sector that cannot be read is left alone, an entry that leaves the
buffer is a panic. -/
theorem fatWriteEntry_window (bpb : Bpb) (disk : Disk) (cluster value : Nat) :
    fatWriteEntry bpb disk cluster value =
      match disk.read (entrySector bpb cluster) with
      | none => some (false, disk)
      | some buf =>
        if InBuffer bpb cluster then
          some (writeTable bpb disk (entrySector bpb cluster)
            (buf.put (entryPos bpb cluster) (lowBytes bpb.fatType.entryBytes
              (packedOf bpb.fatType (window bpb buf cluster) cluster value))))
        else none := by
  have at_ := window_at bpb
  have lt := window_lt bpb
  unfold fatWriteEntry packedOf entrySector InBuffer
  unfold entryPos at at_ ⊢
  cases type : bpb.fatType <;> rw [type] at at_ <;>
    dsimp only [FatType.entryOffset, FatType.entryBytes] at at_ ⊢
  · cases disk.read (bpb.reservedSectors + (cluster + cluster / 2) / bpb.bytesPerSector) with
    | none => rfl
    | some buf =>
      have b0 := at_ buf cluster 0
      have b1 := at_ buf cluster 1
      have l0 := lt buf cluster (cluster + cluster / 2)
      have l1 := lt buf cluster (cluster + cluster / 2 + 1)
      rw [Nat.add_zero, Nat.add_zero] at b0
      dsimp only
      rw [within, Sector.le16_eq, ← b0, ← b1,
        show cluster &&& 1 = cluster % 2 from Lib.and_mask 1 rfl _,
        keep_top (by omega), keep_bottom]
      by_cases fits : (cluster + cluster / 2) % bpb.bytesPerSector + 2 ≤ 512
      · rw [if_pos fits]
        exact (if_pos fits).symm
      · rw [if_neg fits]
        exact (if_neg fits).symm
  · cases disk.read (bpb.reservedSectors + cluster * 2 / bpb.bytesPerSector) with
    | none => rfl
    | some buf =>
      dsimp only
      rw [within]
      by_cases fits : cluster * 2 % bpb.bytesPerSector + 2 ≤ 512
      · rw [if_pos fits]
        exact (if_pos fits).symm
      · rw [if_neg fits]
        exact (if_neg fits).symm
  · cases disk.read (bpb.reservedSectors + cluster * 4 / bpb.bytesPerSector) with
    | none => rfl
    | some buf =>
      have b0 := at_ buf cluster 0
      have b1 := at_ buf cluster 1
      have b2 := at_ buf cluster 2
      have b3 := at_ buf cluster 3
      have l0 := lt buf cluster (cluster * 4)
      have l1 := lt buf cluster (cluster * 4 + 1)
      have l2 := lt buf cluster (cluster * 4 + 2)
      have l3 := lt buf cluster (cluster * 4 + 3)
      rw [Nat.add_zero, Nat.add_zero] at b0
      dsimp only
      rw [within, Sector.le32_eq, ← b0, ← b1, ← b2, ← b3, keep_reserved (by omega)]
      by_cases fits : cluster * 4 % bpb.bytesPerSector + 4 ≤ 512
      · rw [if_pos fits]
        exact (if_pos fits).symm
      · rw [if_neg fits]
        exact (if_neg fits).symm

/-- A write replaces the bytes of the entry, or panics where the entry continues in
the next sector. -/
theorem fatWriteEntry_eq (tables : Tables bpb disk) (bound : cluster < bpb.totalClusters + 2)
    (value : Nat) :
    fatWriteEntry bpb disk cluster value =
      if Whole bpb cluster then
        some (writeTable bpb disk (bpb.reservedSectors + bpb.fatType.entryOffset cluster / 512)
          ((disk.sectors (bpb.reservedSectors + bpb.fatType.entryOffset cluster / 512)).put
            (bpb.fatType.entryOffset cluster % 512)
            (lowBytes bpb.fatType.entryBytes (packed bpb disk cluster value))))
      else none := by
  rw [fatWriteEntry_window, tables.entrySector_eq, tables.read_entry bound]
  dsimp only
  by_cases whole : Whole bpb cluster
  · rw [if_pos ((tables.whole_iff cluster).mp whole), if_pos whole, packed_eq,
      packedOf_congr value fun i inside => tables.window_eq whole inside, entryPos,
      tables.bytesPerSector]
  · rw [if_neg (mt (tables.whole_iff cluster).mpr whole), if_neg whole]

/-- The disk after one entry of the table was replaced. -/
structure Relinks (bpb : Bpb) (disk disk' : Disk) (cluster value : Nat) : Prop where
  readable : disk'.readable = disk.readable
  writable : disk'.writable = disk.writable
  entry : fatEntry bpb disk' cluster = value
  others : ∀ other < bpb.totalClusters + 2, other ≠ cluster →
    fatEntry bpb disk' other = fatEntry bpb disk other
  outside : ∀ lba, lba < bpb.reservedSectors ∨
      bpb.reservedSectors + bpb.numFats * fatSectors bpb ≤ lba →
    disk'.sectors lba = disk.sectors lba

theorem writeTable_readable (sector : Nat) (buf : Sector) :
    (writeTable bpb disk sector buf).2.readable = disk.readable := by
  unfold writeTable
  dsimp only
  split_ifs <;> simp

theorem writeTable_writable (sector : Nat) (buf : Sector) :
    (writeTable bpb disk sector buf).2.writable = disk.writable := by
  unfold writeTable
  dsimp only
  split_ifs <;> simp

/-- Only the sector and its mirror change. -/
theorem writeTable_other {sector lba : Nat} (buf : Sector) (notFirst : lba ≠ sector)
    (notMirror : 1 < bpb.numFats → lba ≠ sector + fatSectors bpb) :
    (writeTable bpb disk sector buf).2.sectors lba = disk.sectors lba := by
  unfold writeTable
  dsimp only
  split_ifs with written mirrored
  · rw [Disk.write_other _ _ _ (notMirror mirrored), Disk.write_other _ _ _ notFirst]
  · exact Disk.write_other _ _ _ notFirst
  · exact Disk.write_other _ _ _ notFirst

/-- Two entries overlap only when a 12-bit pair shares its middle byte, and there
each keeps its half. -/
theorem entryOf_relink {type : FatType} {byte byte' : Nat → Nat} (lt : ∀ x, byte x < 256)
    {value : Nat} (fits : value < type.entryLimit)
    (inside : ∀ i < type.entryBytes, byte' (type.entryOffset cluster + i) =
      packedOf type byte cluster value >>> (8 * i) % 256)
    (other : Nat) (outside : ∀ x, type.entryOffset other ≤ x →
      x < type.entryOffset other + type.entryBytes →
      x < type.entryOffset cluster ∨ type.entryOffset cluster + type.entryBytes ≤ x →
      byte' x = byte x) :
    entryOf type byte' cluster = value ∧
      (other ≠ cluster → entryOf type byte' other = entryOf type byte other) := by
  unfold packedOf at inside
  unfold entryOf
  cases type <;>
    dsimp only [FatType.entryLimit, FatType.entryOffset, FatType.entryBytes]
      at fits inside outside ⊢
  · have i0 := inside 0 (by omega)
    have i1 := inside 1 (by omega)
    have l0 := lt (cluster + cluster / 2)
    have l1 := lt (cluster + cluster / 2 + 1)
    have o0 := outside (other + other / 2) (by omega) (by omega)
    have o1 := outside (other + other / 2 + 1) (by omega) (by omega)
    simp only [Nat.shiftRight_eq_div_pow, Nat.mul_zero, Nat.pow_zero, Nat.div_one,
      Nat.add_zero, Nat.mul_one] at i0 i1
    refine ⟨?_, fun differs => ?_⟩
    · rw [i0, i1]
      split_ifs <;> omega
    · have apart : other = cluster + 1 ∧ cluster % 2 = 0 ∨ other + 1 = cluster ∧ other % 2 = 0 ∨
          (other + other / 2 + 1 < cluster + cluster / 2 ∨
            cluster + cluster / 2 + 1 < other + other / 2) := by omega
      rcases apart with ⟨next, even⟩ | ⟨previous, even⟩ | disjoint
      · -- the high half of the shared byte is the neighbour's
        have shared : other + other / 2 = cluster + cluster / 2 + 1 := by omega
        have odd : ¬ other % 2 = 0 := by omega
        rw [shared] at o1 ⊢
        rw [if_pos even] at i1
        rw [if_neg odd, if_neg odd, i1, o1 (by omega)]
        omega
      · -- the low half is
        have shared : other + other / 2 + 1 = cluster + cluster / 2 := by omega
        have odd : ¬ cluster % 2 = 0 := by omega
        rw [shared]
        rw [if_neg odd] at i0
        rw [if_pos even, if_pos even, i0, o0 (by omega)]
        omega
      · rw [o0 (by omega), o1 (by omega)]
  · have i0 := inside 0 (by omega)
    have i1 := inside 1 (by omega)
    have o0 := outside (other * 2) (by omega) (by omega)
    have o1 := outside (other * 2 + 1) (by omega) (by omega)
    simp only [Nat.shiftRight_eq_div_pow, Nat.mul_zero, Nat.pow_zero, Nat.div_one,
      Nat.add_zero, Nat.mul_one] at i0 i1
    refine ⟨?_, fun differs => ?_⟩
    · rw [i0, i1]
      omega
    · rw [o0 (by omega), o1 (by omega)]
  · have i0 := inside 0 (by omega)
    have i1 := inside 1 (by omega)
    have i2 := inside 2 (by omega)
    have i3 := inside 3 (by omega)
    have l0 := lt (cluster * 4)
    have l1 := lt (cluster * 4 + 1)
    have l2 := lt (cluster * 4 + 2)
    have l3 := lt (cluster * 4 + 3)
    have o0 := outside (other * 4) (by omega) (by omega)
    have o1 := outside (other * 4 + 1) (by omega) (by omega)
    have o2 := outside (other * 4 + 2) (by omega) (by omega)
    have o3 := outside (other * 4 + 3) (by omega) (by omega)
    simp only [Nat.shiftRight_eq_div_pow, Nat.mul_zero, Nat.pow_zero, Nat.div_one,
      Nat.add_zero, Nat.mul_one] at i0 i1 i2 i3
    refine ⟨?_, fun differs => ?_⟩
    · rw [i0, i1, i2, i3]
      omega
    · rw [o0 (by omega), o1 (by omega), o2 (by omega), o3 (by omega)]

theorem fatEntry_relink {value : Nat} (fits : value < bpb.fatType.entryLimit)
    (inside : ∀ i < bpb.fatType.entryBytes,
      tableByte bpb disk' (bpb.fatType.entryOffset cluster + i) =
        packed bpb disk cluster value >>> (8 * i) % 256)
    (other : Nat) (outside : ∀ x, bpb.fatType.entryOffset other ≤ x →
      x < bpb.fatType.entryOffset other + bpb.fatType.entryBytes →
      x < bpb.fatType.entryOffset cluster ∨
        bpb.fatType.entryOffset cluster + bpb.fatType.entryBytes ≤ x →
      tableByte bpb disk' x = tableByte bpb disk x) :
    fatEntry bpb disk' cluster = value ∧
      (other ≠ cluster → fatEntry bpb disk' other = fatEntry bpb disk other) := by
  rw [packed_eq] at inside
  simp only [fatEntry_eq]
  exact entryOf_relink (tableByte_lt bpb disk) fits inside other outside

/-- The entry lies in the first table as a whole. -/
def InFirstTable (bpb : Bpb) (cluster : Nat) : Prop :=
  bpb.fatType.entryOffset cluster + bpb.fatType.entryBytes ≤ fatSectors bpb * 512

/-- What a write that returns leaves: nothing, or the bytes of the entry in its sector and
in the mirror. -/
theorem fatWriteEntry_some (tables : Tables bpb disk) {value : Nat} {ok : Bool}
    (wrote : fatWriteEntry bpb disk cluster value = some (ok, disk')) :
    disk' = disk ∨ Whole bpb cluster ∧
      disk' = (writeTable bpb disk
        (bpb.reservedSectors + bpb.fatType.entryOffset cluster / 512)
        ((disk.sectors (bpb.reservedSectors + bpb.fatType.entryOffset cluster / 512)).put
          (bpb.fatType.entryOffset cluster % 512)
          (lowBytes bpb.fatType.entryBytes (packed bpb disk cluster value)))).2 := by
  rw [fatWriteEntry_window, tables.entrySector_eq, Disk.read] at wrote
  by_cases readable :
      disk.readable (bpb.reservedSectors + bpb.fatType.entryOffset cluster / 512) = true
  · rw [if_pos readable] at wrote
    dsimp only at wrote
    split_ifs at wrote with inBuffer
    have whole := (tables.whole_iff cluster).mpr inBuffer
    refine .inr ⟨whole, ?_⟩
    rw [entryPos, tables.bytesPerSector, packedOf_congr value fun i inside =>
      tables.window_eq whole inside, ← packed_eq] at wrote
    exact (congrArg Prod.snd (Option.some.inj wrote)).symm
  · rw [if_neg readable] at wrote
    exact .inl (congrArg Prod.snd (Option.some.inj wrote)).symm

/-- A write to a sector of the table that returns has replaced the entry. -/
theorem fatEntry_of_write (whole : Whole bpb cluster) {value : Nat}
    (fits : value < bpb.fatType.entryLimit)
    (writable : disk.writable (bpb.reservedSectors + bpb.fatType.entryOffset cluster / 512) = true)
    (sector : bpb.fatType.entryOffset cluster / 512 < fatSectors bpb)
    (other : Nat) (inTable : InFirstTable bpb other) :
    let disk' := (writeTable bpb disk
      (bpb.reservedSectors + bpb.fatType.entryOffset cluster / 512)
      ((disk.sectors (bpb.reservedSectors + bpb.fatType.entryOffset cluster / 512)).put
        (bpb.fatType.entryOffset cluster % 512)
        (lowBytes bpb.fatType.entryBytes (packed bpb disk cluster value)))).2
    fatEntry bpb disk' cluster = value ∧
      (other ≠ cluster → fatEntry bpb disk' other = fatEntry bpb disk other) := by
  intro disk'
  unfold Whole at whole
  unfold InFirstTable at inTable
  have length : (lowBytes bpb.fatType.entryBytes (packed bpb disk cluster value)).length =
      bpb.fatType.entryBytes := by simp [lowBytes]
  have inside := whole
  rw [← length] at inside
  have byte := fun {x} => tableByte_put bpb disk
    (lowBytes bpb.fatType.entryBytes (packed bpb disk cluster value)) inside (x := x)
  rw [length] at byte
  refine fatEntry_relink fits (fun i low => ?_) other (fun x first behind apart => ?_)
  · rw [byte (by omega), if_pos ⟨writable, by omega, by omega⟩]
    simp [lowBytes, low]
  · rw [byte (by omega), if_neg (by omega)]

/-- A write changes no entry of the table but its own, wherever that is. -/
theorem fatWriteEntry_others (tables : Tables bpb disk) {value : Nat}
    (fits : value < bpb.fatType.entryLimit) {ok : Bool}
    (wrote : fatWriteEntry bpb disk cluster value = some (ok, disk')) {other : Nat}
    (inTable : InFirstTable bpb other) (differs : other ≠ cluster) :
    fatEntry bpb disk' other = fatEntry bpb disk other := by
  rcases fatWriteEntry_some tables wrote with rfl | ⟨whole, rfl⟩
  · rfl
  by_cases near : disk.writable (bpb.reservedSectors + bpb.fatType.entryOffset cluster / 512) =
      true ∧ bpb.fatType.entryOffset cluster / 512 < fatSectors bpb
  · exact (fatEntry_of_write whole fits near.1 near.2 other inTable).2 differs
  · -- the write fails, or lies behind the table
    have length : (lowBytes bpb.fatType.entryBytes (packed bpb disk cluster value)).length =
        bpb.fatType.entryBytes := by simp [lowBytes]
    unfold InFirstTable at inTable
    rw [fatEntry_eq, fatEntry_eq]
    refine entryOf_congr fun i inside => ?_
    rw [tableByte_put bpb disk _ (by rw [length]; exact whole) (by omega), if_neg]
    rintro ⟨writable, above, -⟩
    exact near ⟨writable, by omega⟩

/-- A write that returns has replaced the entry of its cluster and no other. -/
theorem fatWriteEntry_relinks (tables : Tables bpb disk)
    (bound : cluster < bpb.totalClusters + 2) {value : Nat}
    (fits : value < bpb.fatType.entryLimit) {ok : Bool}
    (wrote : fatWriteEntry bpb disk cluster value = some (ok, disk')) :
    Relinks bpb disk disk' cluster value := by
  have sector := tables.entry_sector bound
  have more : fatSectors bpb ≤ bpb.numFats * fatSectors bpb :=
    Nat.le_mul_of_pos_left _ tables.numFats
  have others : ∀ other < bpb.totalClusters + 2, other ≠ cluster →
      fatEntry bpb disk' other = fatEntry bpb disk other := fun other inside =>
    fatWriteEntry_others tables fits wrote (tables.covers other inside)
  rw [fatWriteEntry_eq tables bound] at wrote
  split_ifs at wrote with whole
  obtain ⟨-, isWrite⟩ := Prod.ext_iff.mp (Option.some.inj wrote)
  dsimp only at isWrite
  subst isWrite
  exact {
    readable := writeTable_readable _ _
    writable := writeTable_writable _ _
    entry := (fatEntry_of_write whole fits (tables.tablesWritable _ (sector.trans_le more)) sector
      cluster (tables.covers cluster bound)).1
    others := others
    outside := by
      intro lba apart
      refine writeTable_other _ (by omega) (fun mirrored => ?_)
      have two : 2 * fatSectors bpb ≤ bpb.numFats * fatSectors bpb :=
        Nat.mul_le_mul_right _ mirrored
      omega }

end Entry

end DBSos.Fat
