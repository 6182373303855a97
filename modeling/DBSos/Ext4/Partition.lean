import DBSos.Ext4.Inode

/-!
# The partition as one buffer

Spans and blocks are cut out of the same bytes, counted from the start of the partition. What an
access reads is said by those bytes; whether it succeeds, by the sectors' flags alone.
-/

namespace DBSos.Ext4.Volume

open DBSos.Lib

variable {v v' : Volume} {pos len room bg blk : Nat} {buf : Buffer}

/-- The bytes of the partition. -/
def flat (v : Volume) : Buffer := fun a => v.disk.sectors (v.partBase + a / 512) (a % 512)

/-- Two volumes differ in their bytes only. -/
structure SameFrame (v v' : Volume) : Prop where
  valid : v'.valid = v.valid
  super : v'.super = v.super
  partBase : v'.partBase = v.partBase
  readable : v'.disk.readable = v.disk.readable
  writable : v'.disk.writable = v.disk.writable
  hasPage : v'.disk.hasPage = v.disk.hasPage

theorem SameFrame.refl (v : Volume) : SameFrame v v := ⟨rfl, rfl, rfl, rfl, rfl, rfl⟩

theorem SameFrame.trans {first second third : Volume} (front : SameFrame first second)
    (back : SameFrame second third) : SameFrame first third where
  valid := back.valid.trans front.valid
  super := back.super.trans front.super
  partBase := back.partBase.trans front.partBase
  readable := back.readable.trans front.readable
  writable := back.writable.trans front.writable
  hasPage := back.hasPage.trans front.hasPage

/-! ## Spans -/

/-- A span holds the bytes of the partition. -/
theorem readSpan_bytes (read : v.readSpan pos len room = some (some buf)) {i : Nat}
    (inside : i < len) : buf i = v.flat (pos + i) := by
  unfold readSpan Disk.readSector at read
  dsimp only at read
  unfold flat
  split_ifs at read with first one fits longer second both
  all_goals try cases read
  · have sector : (pos + i) / 512 = pos / 512 := by omega
    have offset : (pos + i) % 512 = pos % 512 + i := by omega
    rw [sector, offset]
    exact if_pos inside
  · dsimp only
    split_ifs with before
    · have sector : (pos + i) / 512 = pos / 512 := by omega
      have offset : (pos + i) % 512 = pos % 512 + i := by omega
      rw [sector, offset]
    · have sector : (pos + i) / 512 = pos / 512 + 1 := by omega
      have offset : (pos + i) % 512 = i - (512 - pos % 512) := by omega
      rw [sector, offset, Nat.add_assoc]

/-- Whether a span can be read does not depend on what is there. -/
theorem readSpan_congr (frame : SameFrame v v') (pos len room : Nat) :
    (v'.readSpan pos len room).map Option.isSome = (v.readSpan pos len room).map Option.isSome := by
  unfold readSpan Disk.readSector
  dsimp only
  rw [frame.partBase, frame.readable]
  split_ifs <;> rfl

/-! ## Descriptors -/

/-- Where a group's descriptor lies. -/
def descPos (v : Volume) (bg : Nat) : Nat :=
  (if v.super.blockSize = 1024 then 2 else 1) * v.super.blockSize + bg * v.descSize

/-- The descriptor of a group, as it lies on the disk. -/
def bgdAt (v : Volume) (bg : Nat) : Bgd where
  blockBitmap := le32 v.flat (v.descPos bg)
  inodeBitmap := le32 v.flat (v.descPos bg + 4)
  inodeTable := le32 v.flat (v.descPos bg + 8)
  freeBlocksCount := le16 v.flat (v.descPos bg + 12)
  freeInodesCount := le16 v.flat (v.descPos bg + 14)

theorem SameFrame.descSize (frame : SameFrame v v') : v'.descSize = v.descSize := by
  rw [Volume.descSize, frame.super, Volume.descSize]

theorem SameFrame.descPos (frame : SameFrame v v') : v'.descPos bg = v.descPos bg := by
  rw [Volume.descPos, frame.super, frame.descSize, Volume.descPos]

/-- A descriptor stays with its first sixteen bytes. -/
theorem bgdAt_congr (frame : SameFrame v v')
    (same : ∀ i < 16, v'.flat (v.descPos bg + i) = v.flat (v.descPos bg + i)) :
    v'.bgdAt bg = v.bgdAt bg := by
  have number (off len : Nat) (inside : off + len ≤ 16) :
      v'.flat.number (v.descPos bg + off) len = v.flat.number (v.descPos bg + off) len := by
    refine Buffer.number_congr fun i above behind => ?_
    have byte := same (i - v.descPos bg) (by omega)
    rwa [show v.descPos bg + (i - v.descPos bg) = i by omega] at byte
  have first : v'.flat.number (v.descPos bg) 4 = v.flat.number (v.descPos bg) 4 :=
    number 0 4 (by omega)
  unfold bgdAt le16 le32
  rw [frame.descPos, first, number 4 4 (by omega), number 8 4 (by omega), number 12 2 (by omega),
    number 14 2 (by omega)]

theorem le_descSize (v : Volume) : 32 ≤ v.descSize := by
  unfold descSize
  split_ifs <;> omega

/-- `read_bgd` reads the descriptor on the disk. -/
theorem readBgd_eq (v : Volume) (bg : Nat) :
    v.readBgd bg =
      (v.readSpan (v.descPos bg) v.descSize 64).map (·.map fun _ => v.bgdAt bg) := by
  have long := v.le_descSize
  unfold readBgd
  change ((v.readSpan (v.descPos bg) v.descSize 64).bind fun buf => _) = _
  cases read : v.readSpan (v.descPos bg) v.descSize 64 with
  | none => rfl
  | some span =>
    cases span with
    | none => rfl
    | some buf =>
      have number (off len : Nat) (inside : off + len ≤ 32) :
          buf.number off len = v.flat.number (v.descPos bg + off) len :=
        Buffer.number_shift fun i _ below => readSpan_bytes read (by omega)
      rw [Option.bind_some, Option.map_some, Option.map_some, Option.map_some]
      unfold le16 le32
      rw [number 0 4 (by omega), number 4 4 (by omega), number 8 4 (by omega),
        number 12 2 (by omega), number 14 2 (by omega)]
      rfl

/-- Whether a descriptor can be read does not depend on what is there. -/
theorem readBgd_congr (frame : SameFrame v v') (same : v'.bgdAt bg = v.bgdAt bg) :
    v'.readBgd bg = v.readBgd bg := by
  have spans := readSpan_congr frame (v.descPos bg) v.descSize 64
  rw [readBgd_eq, readBgd_eq, same, frame.descSize, frame.descPos]
  revert spans
  cases v'.readSpan (v.descPos bg) v.descSize 64 with
  | none =>
    cases v.readSpan (v.descPos bg) v.descSize 64 with
    | none => exact fun _ => rfl
    | some _ => exact fun spans => absurd spans (by simp)
  | some left =>
    cases v.readSpan (v.descPos bg) v.descSize 64 with
    | none => exact fun spans => absurd spans (by simp)
    | some right => cases left <;> cases right <;> simp

/-! ## Writes within a sector -/

/-- Bytes are put into one sector. -/
def patched (v : Volume) (pos : Nat) (bytes : List UInt8) : Volume :=
  let lba := v.partBase + pos / 512
  let sector := (v.disk.sectors lba).put (pos % 512) bytes
  { v with disk := { v.disk with sectors := Function.update v.disk.sectors lba sector } }

theorem sameFrame_patched (v : Volume) (pos : Nat) (bytes : List UInt8) :
    SameFrame v (v.patched pos bytes) := ⟨rfl, rfl, rfl, rfl, rfl, rfl⟩

theorem flat_patched {bytes : List UInt8} (inside : pos % 512 + bytes.length ≤ 512) :
    (v.patched pos bytes).flat = v.flat.put pos bytes := by
  funext a
  unfold flat patched
  dsimp only
  by_cases same : a / 512 = pos / 512
  · rw [same, Function.update_self, Buffer.put, Buffer.put, same]
    by_cases before : a < pos
    · rw [if_pos before, if_pos (by omega)]
    · rw [if_neg before, if_neg (by omega), show a % 512 - pos % 512 = a - pos by omega]
  · rw [Function.update_of_ne (by omega), Buffer.put_outside _ (by omega)]

theorem writeSpan_one (bytes : List UInt8) (inside : pos % 512 + len ≤ 512)
    (fits : len ≤ bytes.length) :
    v.writeSpan pos len bytes =
      some (if v.disk.readable (v.partBase + pos / 512) = true ∧
          v.disk.writable (v.partBase + pos / 512) = true
        then (true, v.patched pos (bytes.take len)) else (false, v)) := by
  unfold writeSpan Disk.readSector Disk.writeSector
  dsimp only
  by_cases readable : v.disk.readable (v.partBase + pos / 512) = true
  · rw [if_pos readable]
    dsimp only
    rw [if_pos inside, if_pos fits]
    by_cases writable : v.disk.writable (v.partBase + pos / 512) = true
    · rw [if_pos writable, if_pos ⟨readable, writable⟩]
      rfl
    · rw [if_neg writable, if_neg fun both => writable both.2]
  · rw [if_neg readable, if_neg fun both => readable both.1]

/-! ## Blocks -/

theorem sector_of_block (whole : 512 ∣ v.blockSize) (blk i : Nat) :
    v.disk.sectors (v.blockLba blk + i / 512) (i % 512) = v.flat (blk * v.blockSize + i) := by
  obtain ⟨sectors, size⟩ := whole
  have position : blk * v.blockSize = 512 * (blk * sectors) := by rw [size, Nat.mul_left_comm]
  have lba : (blk * v.blockSize + i) / 512 = blk * sectors + i / 512 := by omega
  have offset : (blk * v.blockSize + i) % 512 = i % 512 := by omega
  rw [flat, lba, offset, blockLba, size, Nat.mul_div_cancel_left _ (by decide), Nat.add_assoc]

/-- A block buffer holds the bytes of the partition, and zeros behind a block that is shorter. -/
theorem readBlock_bytes (whole : 512 ∣ v.blockSize) (read : v.readBlock blk = some (some buf))
    (i : Nat) : buf i = if i < v.blockSize then v.flat (blk * v.blockSize + i) else 0 := by
  unfold readBlock Disk.readSectors at read
  split_ifs at read with page fits sectors
  · obtain rfl := Option.some.inj (Option.some.inj read)
    dsimp only
    rw [sector_of_block whole]
  all_goals cases read

/-- The block can be written. -/
def Writes (v : Volume) (blk : Nat) : Prop :=
  v.disk.hasPage = true ∧ ∀ i < v.blockSize / 512, v.disk.writable (v.blockLba blk + i) = true

/-- The block is that of the buffer. -/
def overwritten (v : Volume) (blk : Nat) (buf : Buffer) : Volume :=
  let first := v.blockLba blk
  let sectors := fun lba =>
    if first ≤ lba ∧ lba < first + v.blockSize / 512 then fun i => buf ((lba - first) * 512 + i)
    else v.disk.sectors lba
  { v with disk := { v.disk with sectors := sectors } }

theorem sameFrame_overwritten (v : Volume) (blk : Nat) (buf : Buffer) :
    SameFrame v (v.overwritten blk buf) := ⟨rfl, rfl, rfl, rfl, rfl, rfl⟩

theorem flat_overwritten (whole : 512 ∣ v.blockSize) (a : Nat) :
    (v.overwritten blk buf).flat a =
      if blk * v.blockSize ≤ a ∧ a < blk * v.blockSize + v.blockSize then
        buf (a - blk * v.blockSize)
      else v.flat a := by
  obtain ⟨sectors, size⟩ := whole
  have position : blk * v.blockSize = 512 * (blk * sectors) := by rw [size, Nat.mul_left_comm]
  have lba : v.blockLba blk = v.partBase + blk * sectors := by
    rw [blockLba, size, Nat.mul_div_cancel_left _ (by decide)]
  have count : v.blockSize / 512 = sectors := by rw [size, Nat.mul_div_cancel_left _ (by decide)]
  unfold flat overwritten
  dsimp only
  rw [lba, count]
  by_cases inside : blk * v.blockSize ≤ a ∧ a < blk * v.blockSize + v.blockSize
  · rw [if_pos inside, if_pos (by omega)]
    exact congrArg buf (by omega)
  · rw [if_neg inside, if_neg (by omega)]

theorem writeFrom_of_writable {disk : Disk} {lba count : Nat}
    (writable : ∀ i < count, disk.writable (lba + i) = true) :
    disk.writeFrom lba buf count =
      (true, { disk with sectors := fun l =>
        if lba ≤ l ∧ l < lba + count then fun i => buf ((l - lba) * 512 + i)
        else disk.sectors l }) := by
  induction count with
  | zero =>
    have none (l : Nat) : ¬ (lba ≤ l ∧ l < lba + 0) := by omega
    simp only [none, if_false]
    rfl
  | succ count ih =>
    rw [Disk.writeFrom, ih fun i below => writable i (by omega)]
    dsimp only
    rw [if_pos rfl, Disk.writeSector, if_pos (writable count (by omega))]
    refine congrArg (fun sectors => (true, { disk with sectors := sectors })) (funext fun l => ?_)
    dsimp only
    by_cases last : l = lba + count
    · subst last
      rw [Function.update_self, if_pos (by omega), Nat.add_sub_cancel_left]
    · rw [Function.update_of_ne last]
      by_cases before : lba ≤ l ∧ l < lba + count
      · rw [if_pos before, if_pos (by omega)]
      · rw [if_neg before, if_neg (by omega)]

theorem writeFrom_of_first {disk : Disk} {lba : Nat} (first : disk.writable lba = false)
    (count : Nat) : disk.writeFrom lba buf (count + 1) = (false, disk) := by
  induction count with
  | zero =>
    rw [Disk.writeFrom, Disk.writeFrom]
    dsimp only
    rw [if_pos rfl, Disk.writeSector, Nat.add_zero, if_neg (by rw [first]; decide)]
  | succ count ih =>
    rw [Disk.writeFrom, ih]
    rfl

variable (fits : v.blockSize ≤ bufferSize) (sector : 512 ≤ v.blockSize)

include fits sector

theorem writeBlock_of_writes (writes : v.Writes blk) (buf : Buffer) :
    v.writeBlock blk buf = some (true, v.overwritten blk buf) := by
  have positive := Nat.div_pos sector (by decide)
  rw [writeBlock, if_pos writes.1, if_pos fits, Disk.writeSectors, if_neg (by omega),
    writeFrom_of_writable writes.2]
  rfl

/-- A block whose first sector cannot be written stays. -/
theorem writeBlock_of_first (first : v.disk.writable (v.blockLba blk) = false) (buf : Buffer) :
    v.writeBlock blk buf = some (false, v) := by
  have positive := Nat.div_pos sector (by decide)
  obtain ⟨count, size⟩ := Nat.exists_eq_succ_of_ne_zero (show v.blockSize / 512 ≠ 0 by omega)
  unfold writeBlock Disk.writeSectors
  rw [size, writeFrom_of_first first, if_pos fits, if_neg (Nat.succ_ne_zero count)]
  split_ifs <;> rfl

/-! ## Frames -/

omit fits sector

theorem writeFrom_frame (disk : Disk) (lba count : Nat) (buf : Buffer) :
    (disk.writeFrom lba buf count).2 =
      { disk with sectors := (disk.writeFrom lba buf count).2.sectors } := by
  induction count with
  | zero => rfl
  | succ count ih =>
    rw [Disk.writeFrom]
    dsimp only
    split_ifs
    · unfold Disk.writeSector
      split_ifs
      · rw [ih]
      · exact ih
    · exact ih

theorem writable_of_writeFrom {disk : Disk} {lba count : Nat}
    (written : (disk.writeFrom lba buf count).1 = true) :
    ∀ i < count, disk.writable (lba + i) = true := by
  induction count with
  | zero => exact fun i below => absurd below (Nat.not_lt_zero i)
  | succ count ih =>
    rw [Disk.writeFrom] at written
    dsimp only at written
    split_ifs at written with front
    unfold Disk.writeSector at written
    split_ifs at written with last
    rw [writeFrom_frame] at last
    intro i below
    rcases Nat.lt_succ_iff_lt_or_eq.mp below with before | rfl
    · exact ih front i before
    · exact last

theorem writeBlock_frame {done : Bool} (wrote : v.writeBlock blk buf = some (done, v')) :
    SameFrame v v' := by
  unfold writeBlock Disk.writeSectors at wrote
  dsimp only at wrote
  split_ifs at wrote
  · cases wrote
    exact .refl v
  · cases wrote
    rw [writeFrom_frame]
    exact ⟨rfl, rfl, rfl, rfl, rfl, rfl⟩
  · cases wrote
    exact .refl v

theorem writes_of_writeBlock (wrote : v.writeBlock blk buf = some (true, v')) :
    v.Writes blk ∧ v.blockSize ≤ bufferSize := by
  unfold writeBlock Disk.writeSectors at wrote
  dsimp only at wrote
  split_ifs at wrote with page fits empty
  · cases wrote
  · exact ⟨⟨page, writable_of_writeFrom (Prod.ext_iff.mp (Option.some.inj wrote)).1⟩, fits⟩
  · cases wrote

/-- A search for a clear bit keeps the frame, and one that ends has written a block. -/
theorem claimBit_frame {bitmap : Nat} {numberOf : Nat → Nat} {admits : Nat → Bool}
    {bits : List Nat} {claimed : Option Nat}
    (found : claimBit bitmap numberOf admits bits buf v = some (claimed, v')) :
    SameFrame v v' ∧ (claimed ≠ none → v.blockSize ≤ bufferSize) := by
  induction bits generalizing buf v with
  | nil =>
    cases found
    exact ⟨.refl _, fun ended => absurd rfl ended⟩
  | cons bit rest ih =>
    unfold claimBit at found
    dsimp only at found
    split_ifs at found with clear
    · obtain ⟨number, -, found⟩ := Option.bind_eq_some_iff.mp found
      split_ifs at found with admitted
      · obtain ⟨⟨done, middle⟩, wrote, found⟩ := Option.bind_eq_some_iff.mp found
        have frame := writeBlock_frame wrote
        cases done with
        | true =>
          cases found
          exact ⟨frame, fun _ => (writes_of_writeBlock wrote).2⟩
        | false =>
          obtain ⟨later, fits⟩ := ih found
          refine ⟨frame.trans later, fun ended => ?_⟩
          have size : middle.blockSize = v.blockSize := congrArg Super.blockSize frame.super
          rw [← size]
          exact fits ended
      · exact ih found
    · exact ih found

theorem claimFrom_frame {bitmapOf freeOf : Bgd → Nat} {numberOf : Nat → Nat → Nat}
    {admits : Nat → Bool} {groups : List Nat} {claimed : Option Nat}
    (found : claimFrom bitmapOf freeOf numberOf admits groups v = some (claimed, v')) :
    SameFrame v v' ∧ (claimed ≠ none → v.blockSize ≤ bufferSize) := by
  induction groups generalizing v with
  | nil =>
    cases found
    exact ⟨.refl _, fun ended => absurd rfl ended⟩
  | cons bg rest ih =>
    rw [claimFrom] at found
    obtain ⟨bgd, -, found⟩ := Option.bind_eq_some_iff.mp found
    cases bgd with
    | none => exact ih found
    | some bgd =>
      dsimp only at found
      split_ifs at found with full
      · exact ih found
      · obtain ⟨bitmap, -, found⟩ := Option.bind_eq_some_iff.mp found
        cases bitmap with
        | none => exact ih found
        | some buf =>
          obtain ⟨⟨result, middle⟩, searched, found⟩ := Option.bind_eq_some_iff.mp found
          obtain ⟨frame, fits⟩ := claimBit_frame searched
          cases result with
          | some number =>
            cases found
            exact ⟨frame, fun _ => fits (Option.some_ne_none _)⟩
          | none =>
            obtain ⟨later, fits⟩ := ih found
            refine ⟨frame.trans later, fun ended => ?_⟩
            have size : middle.blockSize = v.blockSize :=
              congrArg Super.blockSize frame.super
            rw [← size]
            exact fits ended

end DBSos.Ext4.Volume
