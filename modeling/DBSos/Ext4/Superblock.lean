import DBSos.Ext4.Inode

/-!
# The superblock

`parse_superblock` refuses a block size over 64 KiB and takes every other field as it comes. A
block is bounced through one page, a descriptor is cut out into 64 bytes and an inode into 256,
and an inode's group is a quotient, so not every geometry that is accepted can be driven.
-/

namespace DBSos.Ext4

open DBSos.Lib

def ext4Magic : Nat := 0xEF53

/-- A `u32` difference that does not go below zero. -/
def checkedSub (a b : Nat) : Option Nat := if b ≤ a then some (a - b) else none

/-- `num_block_groups` in `parse_superblock`. -/
def blockGroups (blocks fdb blocksPerGroup : Nat) : Option Nat :=
  if blocksPerGroup > 0 then do
    let behind ← checkedSub blocks fdb
    let sum ← checked32 (behind + blocksPerGroup)
    let sum ← checkedSub sum 1
    some (sum / blocksPerGroup)
  else some 0

/-- `parse_superblock`, with the fields that the driver reads: `none` inside is `None`. -/
def parseSuperblock (buf : Buffer) : Option (Option Super) :=
  if le16 buf 56 ≠ ext4Magic then some none
  else
    let logBlock := le32 buf 24
    if logBlock > 6 then some none
    else do
      let numBlockGroups ← blockGroups (le32 buf 4) (le32 buf 20) (le32 buf 32)
      some (some {
        inodesCount := le32 buf 0
        blocksCount := le32 buf 4
        firstDataBlock := le32 buf 20
        blockSize := 1024 <<< logBlock
        blocksPerGroup := le32 buf 32
        inodesPerGroup := le32 buf 40
        inodeSize := if le16 buf 88 = 0 then 128 else le16 buf 88
        numBlockGroups
        descSize := le16 buf 260 })

/-- The volume that is mounted with a superblock. -/
def Super.mounted (super : Super) (partBase : Nat) (disk : Disk) : Volume :=
  { valid := true, super, partBase, disk }

/-- No access to a volume divides by zero, transfers more than a page or leaves a buffer. Inode
0 is not written: its number is decremented first. -/
structure Volume.Safe (v : Volume) : Prop where
  readBlock : ∀ blk, v.readBlock blk ≠ none
  writeBlock : ∀ blk bytes, v.writeBlock blk bytes ≠ none
  readBgd : ∀ bg, v.readBgd bg ≠ none
  readInode : ∀ n, v.readInode n ≠ none
  writeInode : ∀ n inode, 1 ≤ n → v.writeInode n inode ≠ none

/-- A superblock is parsed without panic, and what is accepted can be driven, wherever the
partition lies and whatever is on the disk at any later time. -/
def Drivable (buf : Buffer) : Prop :=
  ∃ parsed, parseSuperblock buf = some parsed ∧
    ∀ super, parsed = some super → ∀ partBase disk, (super.mounted partBase disk).Safe

/-- The number of groups can be computed. -/
def Countable (buf : Buffer) : Prop :=
  le32 buf 32 = 0 ∨ le32 buf 20 ≤ le32 buf 4 ∧ le32 buf 4 - le32 buf 20 + le32 buf 32 < 2 ^ 32

/-- A geometry that the driver's buffers hold. -/
structure Geometry (buf : Buffer) : Prop where
  countable : Countable buf
  block : le32 buf 24 ≤ 2
  inodes : le32 buf 40 ≠ 0
  inode : le16 buf 88 ≤ 256
  descriptor : le16 buf 260 ≤ 64

variable {v : Volume}

/-! ## Accesses -/

theorem readSpan_ne_none {len room : Nat} (fits : len ≤ room) (small : room ≤ 512) (pos : Nat) :
    v.readSpan pos len room ≠ none := by
  unfold Volume.readSpan
  dsimp only
  cases v.disk.readSector (v.partBase + pos / 512) with
  | none => simp
  | some sector =>
    dsimp only
    by_cases inOne : pos % 512 + len ≤ 512
    · rw [if_pos inOne, if_pos fits]
      simp
    · rw [if_neg inOne, if_neg (by omega)]
      cases v.disk.readSector (v.partBase + pos / 512 + 1) with
      | none => simp
      | some sector2 =>
        dsimp only
        rw [if_pos ⟨fits, by omega⟩]
        simp

theorem writeSpan_ne_none {len : Nat} {bytes : List UInt8} (fits : len ≤ bytes.length)
    (small : bytes.length ≤ 512) (pos : Nat) : v.writeSpan pos len bytes ≠ none := by
  unfold Volume.writeSpan
  dsimp only
  cases v.disk.readSector (v.partBase + pos / 512) with
  | none => simp
  | some sector =>
    dsimp only
    by_cases inOne : pos % 512 + len ≤ 512
    · rw [if_pos inOne, if_pos fits]
      simp
    · have rest : len ≤ bytes.length ∧ len - (512 - pos % 512) ≤ 512 := ⟨fits, by omega⟩
      rw [if_neg inOne, if_neg (by omega)]
      simp only [if_pos rest]
      split_ifs
      · split <;> simp
      · simp

/-- A span at the start of a sector that is longer than its buffer panics. -/
theorem readSpan_eq_none {pos len room : Nat} (aligned : pos % 512 = 0) (longer : room < len)
    (small : room < 512) (readable : ∀ lba, v.disk.readable lba = true) :
    v.readSpan pos len room = none := by
  unfold Volume.readSpan Disk.readSector
  dsimp only
  rw [if_pos (readable _), aligned]
  dsimp only
  split_ifs
  · omega
  · rfl
  · rfl

theorem readSpan_ne_some_none (readable : ∀ lba, v.disk.readable lba = true) (pos len room : Nat) :
    v.readSpan pos len room ≠ some none := by
  unfold Volume.readSpan Disk.readSector
  dsimp only
  rw [if_pos (readable _), if_pos (readable _)]
  dsimp only
  split_ifs <;> simp

theorem length_encode (inode : Inode) : inode.encode.length = 256 := by
  have block : ((List.finRange 15).flatMap fun i =>
      Buffer.digits (inode.block i) 4).length = 60 := by
    rw [List.length_flatMap]
    simp only [Buffer.length_digits]
    decide
  simp [Inode.encode, block]

/-- Descriptors that fit their buffer are read without panic. -/
theorem readBgd_ne_none (fits : v.descSize ≤ 64) (bg : Nat) : v.readBgd bg ≠ none := by
  intro panics
  unfold Volume.readBgd at panics
  rw [Option.bind_eq_bind, Option.bind_eq_none_iff] at panics
  obtain ⟨span, read⟩ := Option.ne_none_iff_exists'.mp (readSpan_ne_none (v := v) fits
    (by decide : 64 ≤ 512) ((if v.super.blockSize = 1024 then 2 else 1) * v.super.blockSize +
      bg * v.descSize))
  exact absurd (panics span read) (by simp)

theorem inodePos_ne_none (fits : v.descSize ≤ 64) (grouped : v.super.inodesPerGroup ≠ 0) {n : Nat}
    (positive : 1 ≤ n) : v.inodePos n ≠ none := by
  unfold Volume.inodePos
  rw [if_neg (by omega)]
  obtain ⟨bgd, read⟩ := Option.ne_none_iff_exists'.mp
    (readBgd_ne_none fits ((n - 1) / v.super.inodesPerGroup))
  rw [read]
  simp

theorem readInode_ne_none (descriptor : v.descSize ≤ 64) (grouped : v.super.inodesPerGroup ≠ 0)
    (inode : v.super.inodeSize ≤ 256) (n : Nat) : v.readInode n ≠ none := by
  unfold Volume.readInode
  split_ifs with zero
  · simp
  · obtain ⟨found, located⟩ := Option.ne_none_iff_exists'.mp
      (inodePos_ne_none descriptor grouped (Nat.le_of_not_lt zero))
    rw [located]
    cases found with
    | none => simp
    | some pos => exact readSpan_ne_none inode (by decide) pos

theorem writeInode_ne_none (descriptor : v.descSize ≤ 64) (grouped : v.super.inodesPerGroup ≠ 0)
    (inode : v.super.inodeSize ≤ 256) {n : Nat} (positive : 1 ≤ n) (record : Inode) :
    v.writeInode n record ≠ none := by
  unfold Volume.writeInode
  obtain ⟨found, located⟩ := Option.ne_none_iff_exists'.mp
    (inodePos_ne_none descriptor grouped positive)
  rw [located]
  cases found with
  | none => simp
  | some pos =>
    exact writeSpan_ne_none (by rw [length_encode]; exact inode)
      (by rw [length_encode]; decide) pos

/-- A geometry that the buffers hold is safe. -/
theorem safe_of_geometry (block : v.blockSize ≤ bufferSize) (descriptor : v.descSize ≤ 64)
    (grouped : v.super.inodesPerGroup ≠ 0) (inode : v.super.inodeSize ≤ 256) : v.Safe where
  readBlock blk := by
    unfold Volume.readBlock
    rw [if_pos block]
    split_ifs <;> simp
  writeBlock blk bytes := by
    unfold Volume.writeBlock
    rw [if_pos block]
    split_ifs <;> simp
  readBgd := readBgd_ne_none descriptor
  readInode := readInode_ne_none descriptor grouped inode
  writeInode _ record positive := writeInode_ne_none descriptor grouped inode positive record

/-- A disk of zeros that never fails. -/
def blankDisk : Disk where
  sectors := fun _ => Buffer.zero
  readable := fun _ => true
  writable := fun _ => true
  hasPage := true

/-- A volume on a disk that never fails shows every geometry that the buffers do not hold. -/
theorem geometry_of_safe (aligned : v.blockSize % 512 = 0)
    (readable : ∀ lba, v.disk.readable lba = true) (page : v.disk.hasPage = true)
    (safe : v.Safe) : v.blockSize ≤ bufferSize ∧ v.descSize ≤ 64 ∧ v.super.inodesPerGroup ≠ 0 ∧
      v.super.inodeSize ≤ 256 := by
  have multiple (k : Nat) : (k * v.blockSize) % 512 = 0 := by
    rw [Nat.mul_mod, aligned, Nat.mul_zero, Nat.zero_mod]
  have grouped : v.super.inodesPerGroup ≠ 0 := by
    intro none
    refine safe.readInode 1 ?_
    rw [Volume.readInode, if_neg (by decide), Volume.inodePos, if_pos (.inr none)]
    rfl
  refine ⟨?_, ?_, grouped, ?_⟩
  · by_contra long
    refine safe.readBlock 0 ?_
    rw [Volume.readBlock, if_pos page, if_neg long]
  · by_contra long
    refine safe.readBgd 0 ?_
    have first := multiple (if v.super.blockSize = 1024 then 2 else 1)
    have panics := readSpan_eq_none first (Nat.lt_of_not_le long) (by decide : 64 < 512) readable
    rw [Volume.readBgd, Nat.zero_mul, Nat.add_zero]
    unfold Volume.blockSize at panics
    rw [panics]
    rfl
  · by_contra long
    refine safe.readInode 1 ?_
    obtain ⟨found, read⟩ := Option.ne_none_iff_exists'.mp (safe.readBgd 0)
    have located : v.inodePos 1 = some (found.map fun bgd => bgd.inodeTable * v.blockSize) := by
      rw [Volume.inodePos, if_neg (not_or.mpr ⟨by decide, grouped⟩), Nat.sub_self, Nat.zero_div,
        Nat.zero_mod, Nat.zero_mul, read]
      rfl
    obtain ⟨bgd, rfl⟩ : ∃ bgd, found = some bgd := by
      obtain ⟨span, spanRead, mapped⟩ := Option.bind_eq_some_iff.mp read
      cases span with
      | none => exact absurd spanRead (readSpan_ne_some_none readable _ _ _)
      | some buf => exact ⟨_, (Option.some.inj mapped).symm⟩
    rw [Volume.readInode, if_neg (by decide), located]
    exact readSpan_eq_none (multiple _) (Nat.lt_of_not_le long) (by decide) readable

theorem blockGroups_ne_none_iff (blocks fdb blocksPerGroup : Nat) :
    blockGroups blocks fdb blocksPerGroup ≠ none ↔
      blocksPerGroup = 0 ∨ fdb ≤ blocks ∧ blocks - fdb + blocksPerGroup < 2 ^ 32 := by
  unfold blockGroups checkedSub checked32
  by_cases zero : blocksPerGroup = 0
  · rw [if_neg (by omega)]
    exact iff_of_true (by simp) (.inl zero)
  · rw [if_pos (Nat.pos_of_ne_zero zero), or_iff_right zero]
    by_cases behind : fdb ≤ blocks
    · rw [if_pos behind, Option.bind_eq_bind, Option.bind_some]
      by_cases fits : blocks - fdb + blocksPerGroup < 2 ^ 32
      · rw [if_pos fits, Option.bind_some, if_pos (by omega)]
        exact iff_of_true (by simp) ⟨behind, fits⟩
      · rw [if_neg fits]
        exact iff_of_false (by simp) fun both => fits both.2
    · rw [if_neg behind]
      exact iff_of_false (by simp) fun both => behind both.1

/-- `parse_superblock` refuses, or panics where the number of groups does not fit, or accepts a
geometry without looking at it. -/
theorem parseSuperblock_cases (buf : Buffer) :
    ((le16 buf 56 ≠ ext4Magic ∨ 6 < le32 buf 24) ∧ parseSuperblock buf = some none) ∨
    (le16 buf 56 = ext4Magic ∧ le32 buf 24 ≤ 6 ∧ ¬ Countable buf ∧ parseSuperblock buf = none) ∨
    (le16 buf 56 = ext4Magic ∧ le32 buf 24 ≤ 6 ∧ Countable buf ∧
      ∃ super, parseSuperblock buf = some (some super) ∧
        super.blockSize = 1024 <<< le32 buf 24 ∧ super.inodesPerGroup = le32 buf 40 ∧
        super.inodeSize = (if le16 buf 88 = 0 then 128 else le16 buf 88) ∧
        super.descSize = le16 buf 260) := by
  unfold parseSuperblock
  by_cases magic : le16 buf 56 ≠ ext4Magic
  · rw [if_pos magic]
    exact .inl ⟨.inl magic, rfl⟩
  · rw [if_neg magic]
    have isExt4 := not_not.mp magic
    dsimp only
    by_cases large : le32 buf 24 > 6
    · rw [if_pos large]
      exact .inl ⟨.inr large, rfl⟩
    · rw [if_neg large]
      have count := blockGroups_ne_none_iff (le32 buf 4) (le32 buf 20) (le32 buf 32)
      cases groups : blockGroups (le32 buf 4) (le32 buf 20) (le32 buf 32) with
      | none =>
        rw [groups] at count
        exact .inr (.inl ⟨isExt4, Nat.le_of_not_lt large,
          fun countable => count.mpr countable rfl,
          rfl⟩)
      | some numBlockGroups =>
        rw [groups] at count
        exact .inr (.inr ⟨isExt4, Nat.le_of_not_lt large, count.mp (by simp), _, rfl, rfl, rfl,
          rfl, rfl⟩)

/-- What is accepted can be driven exactly where the buffers hold its geometry. -/
theorem drivable_iff (buf : Buffer) :
    Drivable buf ↔ le16 buf 56 ≠ ext4Magic ∨ 6 < le32 buf 24 ∨ Geometry buf := by
  rcases parseSuperblock_cases buf with ⟨refused, parsed⟩ | ⟨magic, log, overflow, panics⟩ |
    ⟨magic, log, countable, super, parsed, blockSize, inodes, inodeSize, descSize⟩
  · refine iff_of_true ⟨none, parsed, fun super accepted => by cases accepted⟩ ?_
    exact refused.imp_right .inl
  · refine iff_of_false ?_ ?_
    · rintro ⟨parsed, returned, -⟩
      rw [panics] at returned
      cases returned
    · rintro (other | large | geometry)
      · exact other magic
      · omega
      · exact overflow geometry.countable
  · have block : super.blockSize % 512 = 0 ∧ (super.blockSize ≤ bufferSize ↔ le32 buf 24 ≤ 2) := by
      have all : ∀ log : Fin 7, 1024 <<< log.val % 512 = 0 ∧
          (1024 <<< log.val ≤ bufferSize ↔ log.val ≤ 2) := by decide
      rw [blockSize]
      exact all ⟨le32 buf 24, by omega⟩
    have descriptor : (super.mounted 0 blankDisk).descSize ≤ 64 ↔ le16 buf 260 ≤ 64 := by
      change (if super.descSize ≥ 32 then super.descSize else 32) ≤ 64 ↔ _
      rw [descSize]
      split_ifs <;> omega
    have inode : super.inodeSize ≤ 256 ↔ le16 buf 88 ≤ 256 := by
      rw [inodeSize]
      split_ifs <;> omega
    constructor
    · rintro ⟨accepted, returned, safe⟩
      obtain rfl := Option.some.inj (parsed.symm.trans returned)
      have mounted := safe super rfl 0 blankDisk
      obtain ⟨blockFits, descFits, grouped, inodeFits⟩ :=
        geometry_of_safe (v := super.mounted 0 blankDisk) block.1 (fun _ => rfl) rfl mounted
      exact .inr (.inr ⟨countable, block.2.mp blockFits, inodes ▸ grouped, inode.mp inodeFits,
        descriptor.mp descFits⟩)
    · rintro (other | large | geometry)
      · exact absurd magic other
      · omega
      · refine ⟨_, parsed, fun accepted same partBase disk => ?_⟩
        obtain rfl := Option.some.inj same
        exact safe_of_geometry (block.2.mpr geometry.block) (descriptor.mpr geometry.descriptor)
          (inodes ▸ geometry.inodes) (inode.mpr geometry.inode)

section Samples

/-- A superblock with inodes of 512 bytes. -/
def wideInodes : Buffer :=
  (((Buffer.zero.put 56 [0x53, 0xEF]).put 24 [2]).put 40 [0, 1]).put 88 [0, 2]

/-- It is accepted, and the first `read_inode` panics. -/
theorem not_drivable_wideInodes : ¬ Drivable wideInodes := by
  rintro ⟨parsed, returned, safe⟩
  have accepted : (parseSuperblock wideInodes).map (·.map fun super =>
      (super.mounted 0 blankDisk).readInode 1 |>.isSome) = some (some false) := by decide +kernel
  rw [returned] at accepted
  obtain ⟨super, rfl, panics⟩ := Option.map_eq_some_iff.mp (Option.some.inj accepted)
  exact (safe super rfl 0 blankDisk).readInode 1
    (Option.isNone_iff_eq_none.mp (Option.isSome_eq_false_iff.mp panics))

end Samples

end DBSos.Ext4
