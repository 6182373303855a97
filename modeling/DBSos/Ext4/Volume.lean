import DBSos.Lib.Buffer

/-!
# The ext4 volume

The driver reaches the disk in two ways: whole blocks go through a bounce page,
descriptors and inodes are cut out of one or two sectors. `none` is the kernel's
panic, from an index out of bounds or an overflow, or a transfer that is longer than
its page.
-/

namespace DBSos.Ext4

open DBSos.Lib

/-- The size of every block buffer, and of the bounce page. -/
def bufferSize : Nat := 4096

/-- The fields of `Ext4Super` that the driver reads once the volume is mounted. -/
structure Super where
  inodesCount : Nat
  blocksCount : Nat
  firstDataBlock : Nat
  blockSize : Nat
  blocksPerGroup : Nat
  inodesPerGroup : Nat
  inodeSize : Nat
  numBlockGroups : Nat
  descSize : Nat
deriving DecidableEq, Repr

/-- The disk by sector number, which sectors the backend can read and write, and
whether `palloc` has a page for a transfer. -/
structure Disk where
  sectors : Nat → Buffer
  readable : Nat → Bool
  writable : Nat → Bool
  hasPage : Bool

/-- `SUPER_VALID`, `SUPER` and `PART_BASE`, over the disk. `BLOCK_SIZE` is the
superblock's. -/
structure Volume where
  valid : Bool
  super : Super
  partBase : Nat
  disk : Disk

/-- A `u32` that a checked operation yields. -/
def checked32 (n : Nat) : Option Nat := if n < 2 ^ 32 then some n else none

/-- `le16`. -/
def le16 (buf : Buffer) (off : Nat) : Nat := buf.number off 2

/-- `le32_fix`. -/
def le32 (buf : Buffer) (off : Nat) : Nat := buf.number off 4

/-- The bytes at a computed position are all in a block buffer. -/
def within (off len : Nat) : Option Unit := if off + len ≤ bufferSize then some () else none

namespace Disk

/-- `read_sectors` into one sector's buffer. -/
def readSector (disk : Disk) (lba : Nat) : Option Buffer :=
  if disk.readable lba then some (disk.sectors lba) else none

/-- `write_sectors` of one sector. -/
def writeSector (disk : Disk) (lba : Nat) (buf : Buffer) : Bool × Disk :=
  if disk.writable lba then (true, { disk with sectors := Function.update disk.sectors lba buf })
  else (false, disk)

/-- `read_sectors`. -/
def readSectors (disk : Disk) (lba count : Nat) : Option Buffer :=
  if count ≠ 0 ∧ ∀ i < count, disk.readable (lba + i) = true then
    some fun i => disk.sectors (lba + i / 512) (i % 512)
  else none

/-- The loop of `write_sectors`, which ends at the first sector that fails. -/
def writeFrom (disk : Disk) (lba : Nat) (buf : Buffer) : (count : Nat) → Bool × Disk
  | 0 => (true, disk)
  | count + 1 =>
    let (written, disk) := disk.writeFrom lba buf count
    if written then disk.writeSector (lba + count) fun i => buf (count * 512 + i)
    else (false, disk)

/-- `write_sectors`. -/
def writeSectors (disk : Disk) (lba count : Nat) (buf : Buffer) : Bool × Disk :=
  if count = 0 then (false, disk) else disk.writeFrom lba buf count

end Disk

namespace Volume

variable (v : Volume)

/-- `block_size`. -/
def blockSize : Nat := v.super.blockSize

/-- The sector that a block starts in. -/
def blockLba (blk : Nat) : Nat := v.partBase + blk * (v.blockSize / 512)

/-- `read_block` into a buffer of zeros; `none` inside is `false`. -/
def readBlock (blk : Nat) : Option (Option Buffer) :=
  if v.disk.hasPage then
    if v.blockSize ≤ bufferSize then
      some ((v.disk.readSectors (v.blockLba blk) (v.blockSize / 512)).map fun data i =>
        if i < v.blockSize then data i else 0)
    else none
  else some none

/-- `write_block`. -/
def writeBlock (blk : Nat) (buf : Buffer) : Option (Bool × Volume) :=
  if v.disk.hasPage then
    if v.blockSize ≤ bufferSize then
      let (written, disk) := v.disk.writeSectors (v.blockLba blk) (v.blockSize / 512) buf
      some (written, { v with disk })
    else none
  else some (false, v)

/-- The `len` bytes at a byte offset of the partition, out of the one or two sectors
they lie in, into a buffer of `room` bytes: the body of `read_bgd` and `read_inode`. -/
def readSpan (pos len room : Nat) : Option (Option Buffer) :=
  let lba := v.partBase + pos / 512
  let byteOff := pos % 512
  match v.disk.readSector lba with
  | none => some none
  | some sector =>
    if byteOff + len ≤ 512 then
      if len ≤ room then some (some fun i => if i < len then sector (byteOff + i) else 0)
      else none
    else
      let first := 512 - byteOff
      if room < first then none
      else
        match v.disk.readSector (lba + 1) with
        | none => some none
        | some sector2 =>
          if len ≤ room ∧ len - first ≤ 512 then
            some (some fun i =>
              if i < first then sector (byteOff + i)
              else if i < len then sector2 (i - first)
              else 0)
          else none

/-- The end of `write_inode`: the bytes are patched into the one or two sectors they
lie in. -/
def writeSpan (pos len : Nat) (bytes : List UInt8) : Option (Bool × Volume) :=
  let lba := v.partBase + pos / 512
  let byteOff := pos % 512
  match v.disk.readSector lba with
  | none => some (false, v)
  | some sector =>
    if byteOff + len ≤ 512 then
      if len ≤ bytes.length then
        let (written, disk) := v.disk.writeSector lba (sector.put byteOff (bytes.take len))
        some (written, { v with disk })
      else none
    else
      let first := 512 - byteOff
      if bytes.length < first then none
      else
        let (written, disk) := v.disk.writeSector lba (sector.put byteOff (bytes.take first))
        if written then
          match disk.readSector (lba + 1) with
          | none => some (false, { v with disk })
          | some sector2 =>
            if len ≤ bytes.length ∧ len - first ≤ 512 then
              let (written, disk) := disk.writeSector (lba + 1)
                (sector2.put 0 ((bytes.take len).drop first))
              some (written, { v with disk })
            else none
        else some (false, { v with disk })

/-- `Bgd`, with the fields that the driver reads. -/
structure Bgd where
  blockBitmap : Nat
  inodeBitmap : Nat
  inodeTable : Nat
  freeBlocksCount : Nat
  freeInodesCount : Nat

/-- `desc_size` in `read_bgd`. -/
def descSize : Nat := if v.super.descSize ≥ 32 then v.super.descSize else 32

/-- `read_bgd`. -/
def readBgd (bgNum : Nat) : Option (Option Bgd) := do
  let bgdtStartBlock := if v.super.blockSize = 1024 then 2 else 1
  let buf ← v.readSpan (bgdtStartBlock * v.super.blockSize + bgNum * v.descSize) v.descSize 64
  some (buf.map fun buf => {
    blockBitmap := le32 buf 0
    inodeBitmap := le32 buf 4
    inodeTable := le32 buf 8
    freeBlocksCount := le16 buf 12
    freeInodesCount := le16 buf 14 })

/-! ## Free blocks and inodes -/

/-- The two inner loops of `alloc_block` and `alloc_inode` over the bits of one bitmap.
A bit that is clear and whose number is admitted is set and the bitmap written back; when
that fails the search goes on with the bit set in the buffer. -/
def claimBit (bitmap : Nat) (numberOf : Nat → Nat) (admits : Nat → Bool) :
    List Nat → Buffer → Volume → Option (Option Nat × Volume)
  | [], _, v => some (none, v)
  | bit :: rest, buf, v =>
    let byte := buf (bit / 8)
    if byte &&& (1 <<< UInt8.ofNat (bit % 8)) = 0 then do
      let number ← checked32 (numberOf bit)
      if admits number then
        let buf := buf.put (bit / 8) [byte ||| (1 <<< UInt8.ofNat (bit % 8))]
        let (written, v) ← v.writeBlock bitmap buf
        if written then some (some number, v) else claimBit bitmap numberOf admits rest buf v
      else claimBit bitmap numberOf admits rest buf v
    else claimBit bitmap numberOf admits rest buf v

/-- The loop over the groups in `alloc_block` and `alloc_inode`. -/
def claimFrom (bitmapOf freeOf : Bgd → Nat) (numberOf : Nat → Nat → Nat) (admits : Nat → Bool) :
    List Nat → Volume → Option (Option Nat × Volume)
  | [], v => some (none, v)
  | bg :: rest, v => do
    match ← v.readBgd bg with
    | none => claimFrom bitmapOf freeOf numberOf admits rest v
    | some bgd =>
      if freeOf bgd = 0 then claimFrom bitmapOf freeOf numberOf admits rest v
      else
        match ← v.readBlock (bitmapOf bgd) with
        | none => claimFrom bitmapOf freeOf numberOf admits rest v
        | some buf =>
          let (claimed, v) ← claimBit (bitmapOf bgd) (numberOf bg) admits
            (List.range (bufferSize * 8)) buf v
          match claimed with
          | some number => some (some number, v)
          | none => claimFrom bitmapOf freeOf numberOf admits rest v

/-- `alloc_block`. -/
def allocBlock : Option (Option Nat × Volume) :=
  claimFrom Bgd.blockBitmap Bgd.freeBlocksCount
    (fun bg bit => bg * v.super.blocksPerGroup + bit + v.super.firstDataBlock)
    (fun number => number < v.super.blocksCount) (List.range v.super.numBlockGroups) v

/-- `alloc_inode`. -/
def allocInode : Option (Option Nat × Volume) :=
  claimFrom Bgd.inodeBitmap Bgd.freeInodesCount
    (fun bg bit => bg * v.super.inodesPerGroup + bit + 1)
    (fun number => number ≤ v.super.inodesCount) (List.range v.super.numBlockGroups) v

end Volume

end DBSos.Ext4
