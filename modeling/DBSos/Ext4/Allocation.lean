import DBSos.Ext4.BlockMap
import DBSos.Ext4.Partition
import DBSos.Lib.Trace

/-!
# Free blocks and inodes

A call looks for a clear bit, group by group. The buffer of a bitmap is 4096 bytes long whatever
the block size, and the zeros behind a shorter block look like free blocks. They are out of reach
as long as the bitmap itself has a clear bit. The count in the descriptor, which would say so, is
never brought up to date.
-/

namespace DBSos.Ext4

open DBSos.Lib

/-- What is handed out. -/
inductive Pool where
  | blocks
  | inodes
deriving DecidableEq, Repr

namespace Pool

def bitmapOf : Pool → Volume.Bgd → Nat
  | blocks => Volume.Bgd.blockBitmap
  | inodes => Volume.Bgd.inodeBitmap

def freeOf : Pool → Volume.Bgd → Nat
  | blocks => Volume.Bgd.freeBlocksCount
  | inodes => Volume.Bgd.freeInodesCount

def perGroup : Pool → Super → Nat
  | blocks => Super.blocksPerGroup
  | inodes => Super.inodesPerGroup

/-- The number of the first block, or of the first inode. -/
def first : Pool → Super → Nat
  | blocks => Super.firstDataBlock
  | inodes => fun _ => 1

/-- The number that a bit stands for. -/
def numberOf (pool : Pool) (s : Super) (bg bit : Nat) : Nat :=
  bg * pool.perGroup s + bit + pool.first s

/-- The number is one of the volume's. -/
def admits : Pool → Super → Nat → Bool
  | blocks => fun s number => number < s.blocksCount
  | inodes => fun s number => number ≤ s.inodesCount

end Pool

namespace Volume

variable {v v' : Volume} {pool other : Pool} {bg bit number blk : Nat} {buf : Buffer}

/-- `alloc_block` and `alloc_inode`. -/
def alloc (v : Volume) : Pool → Option (Option Nat × Volume)
  | .blocks => v.allocBlock
  | .inodes => v.allocInode

theorem alloc_eq (v : Volume) (pool : Pool) :
    v.alloc pool = claimFrom pool.bitmapOf pool.freeOf (pool.numberOf v.super)
      (pool.admits v.super) (List.range v.super.numBlockGroups) v := by
  cases pool <;> rfl

/-- The block of a group's bitmap. -/
def bitmap (v : Volume) (pool : Pool) (bg : Nat) : Nat := pool.bitmapOf (v.bgdAt bg)

/-- Where a group's bitmap starts. -/
def bitmapPos (v : Volume) (pool : Pool) (bg : Nat) : Nat := v.bitmap pool bg * v.blockSize

/-- The bit is set on the disk. -/
def marked (v : Volume) (pool : Pool) (bg bit : Nat) : Bool :=
  v.flat.marked (v.bitmapPos pool bg) bit

/-- What the layout promises about the bitmaps: each has a block of its own, away from the
descriptors, and the bits behind the group are set. -/
structure Valid (v : Volume) : Prop where
  size : MapSize v.blockSize
  perGroup : ∀ pool : Pool, pool.perGroup v.super ≤ 8 * v.blockSize
  padded : ∀ pool, ∀ bg < v.super.numBlockGroups, ∀ bit < 8 * v.blockSize,
    pool.perGroup v.super ≤ bit → v.marked pool bg bit = true
  apart : ∀ pool other, ∀ bg < v.super.numBlockGroups, ∀ bg' < v.super.numBlockGroups,
    v.bitmap pool bg = v.bitmap other bg' → pool = other ∧ bg = bg'
  descriptors : ∀ pool, ∀ bg < v.super.numBlockGroups, ∀ bg' < v.super.numBlockGroups,
    v.descPos bg' + 16 ≤ v.bitmapPos pool bg ∨ v.bitmapPos pool bg + v.blockSize ≤ v.descPos bg'

/-- A volume as it is made: the descriptors also count the clear bits. -/
structure Formatted (v : Volume) : Prop extends Valid v where
  counted : ∀ pool, ∀ bg < v.super.numBlockGroups,
    pool.freeOf (v.bgdAt bg) =
      (List.range (pool.perGroup v.super)).countP fun bit => !v.marked pool bg bit

/-- The number is that of a bit of a group, which was clear and is set afterwards; nothing else on
the disk has changed. -/
structure Grants (v : Volume) (pool : Pool) (bg bit number : Nat) (v' : Volume) : Prop where
  group : bg < v.super.numBlockGroups
  inside : bit < pool.perGroup v.super
  numbered : number = pool.numberOf v.super bg bit
  counted : pool.admits v.super number = true
  free : v.marked pool bg bit = false
  frame : SameFrame v v'
  disk : v'.flat = v.flat.mark (v.bitmapPos pool bg) bit

/-! ## One bitmap -/

/-- A bit of the buffer at which the search ends: the number is handed out, or there is none. -/
def stops (numberOf : Nat → Nat) (admits : Nat → Bool) (buf : Buffer) (bit : Nat) : Bool :=
  !buf.marked 0 bit && (decide (2 ^ 32 ≤ numberOf bit) || admits (numberOf bit))

variable {numberOf : Nat → Nat} {admits : Nat → Bool}

theorem stops_eq_true_iff : stops numberOf admits buf bit = true ↔
    buf.marked 0 bit = false ∧ (2 ^ 32 ≤ numberOf bit ∨ admits (numberOf bit) = true) := by
  rw [stops, Bool.and_eq_true, Bool.or_eq_true, decide_eq_true_iff, Bool.not_eq_true']

theorem claimBit_cons (blk bit : Nat) (rest : List Nat) (buf : Buffer) (v : Volume) :
    claimBit blk numberOf admits (bit :: rest) buf v =
      if buf.marked 0 bit = false then
        (checked32 (numberOf bit)).bind fun number =>
          if admits number then
            (v.writeBlock blk (buf.mark 0 bit)).bind fun result =>
              if result.1 then some (some number, result.2)
              else claimBit blk numberOf admits rest (buf.mark 0 bit) result.2
          else claimBit blk numberOf admits rest buf v
      else claimBit blk numberOf admits rest buf v := by
  unfold Buffer.marked Buffer.mark
  rw [Nat.zero_add, claimBit]
  simp only [Buffer.mask_eq_zero_iff]
  rfl

/-- Where the bitmap can be written, the first bit at which the search ends decides. -/
theorem claimBit_of_writes (fits : v.blockSize ≤ bufferSize) (sector : 512 ≤ v.blockSize)
    (writes : v.Writes blk) (numberOf : Nat → Nat) (admits : Nat → Bool) (bits : List Nat)
    (buf : Buffer) :
    claimBit blk numberOf admits bits buf v =
      match bits.find? (stops numberOf admits buf) with
      | none => some (none, v)
      | some bit => (checked32 (numberOf bit)).map fun number =>
        (some number, v.overwritten blk (buf.mark 0 bit)) := by
  induction bits with
  | nil => rfl
  | cons bit rest ih =>
    rw [claimBit_cons, List.find?_cons]
    by_cases clear : buf.marked 0 bit = false
    · rw [if_pos clear]
      by_cases small : numberOf bit < 2 ^ 32
      · have checked : checked32 (numberOf bit) = some (numberOf bit) := if_pos small
        rw [checked, Option.bind_some]
        by_cases admitted : admits (numberOf bit) = true
        · have here := stops_eq_true_iff.mpr ⟨clear, .inr admitted⟩
          rw [here, if_pos admitted, writeBlock_of_writes fits sector writes]
          simp only [Option.bind_some, if_true, checked, Option.map_some]
        · have here : stops numberOf admits buf bit = false :=
            Bool.eq_false_iff.mpr fun ends =>
              (stops_eq_true_iff.mp ends).2.elim (Nat.not_le_of_lt small) admitted
          rw [here, if_neg admitted, ih]
      · have checked : checked32 (numberOf bit) = none := if_neg small
        have here := stops_eq_true_iff.mpr
          ⟨clear, .inl (Nat.le_of_not_lt small) (b := admits (numberOf bit) = true)⟩
        rw [here, checked]
        simp only [Option.bind_none, checked, Option.map_none]
    · have here : stops numberOf admits buf bit = false :=
        Bool.eq_false_iff.mpr fun ends => clear (stops_eq_true_iff.mp ends).1
      rw [here, if_neg clear, ih]

/-- Without a bit to hand out the search leaves the volume alone. -/
theorem claimBit_of_none {result : Option Nat × Volume} {bits : List Nat}
    (refused : ∀ bit ∈ bits, buf.marked 0 bit = false → ¬ admits (numberOf bit) = true)
    (claimed : claimBit blk numberOf admits bits buf v = some result) : result = (none, v) := by
  induction bits with
  | nil => exact (Option.some.inj claimed).symm
  | cons bit rest ih =>
    have later := ih fun bit member =>
      refused bit (List.mem_cons_of_mem _ member)
    rw [claimBit_cons] at claimed
    split_ifs at claimed with clear
    · obtain ⟨number, checked, claimed⟩ := Option.bind_eq_some_iff.mp claimed
      obtain rfl : numberOf bit = number := by
        unfold checked32 at checked
        split_ifs at checked
        exact Option.some.inj checked
      rw [if_neg (refused bit List.mem_cons_self clear)] at claimed
      exact later claimed
    · exact later claimed

/-- So does it where the first sector of the bitmap cannot be written. -/
theorem claimBit_of_first {result : Option Nat × Volume} {bits : List Nat}
    (fits : v.blockSize ≤ bufferSize) (sector : 512 ≤ v.blockSize)
    (first : v.disk.writable (v.blockLba blk) = false)
    (claimed : claimBit blk numberOf admits bits buf v = some result) : result = (none, v) := by
  induction bits generalizing buf with
  | nil => exact (Option.some.inj claimed).symm
  | cons bit rest ih =>
    rw [claimBit_cons] at claimed
    split_ifs at claimed with clear
    · obtain ⟨number, -, claimed⟩ := Option.bind_eq_some_iff.mp claimed
      rw [writeBlock_of_first fits sector first, Option.bind_some] at claimed
      dsimp only at claimed
      rw [if_neg Bool.false_ne_true] at claimed
      split_ifs at claimed
      · exact ih claimed
      · exact ih claimed
    · exact ih claimed

/-! ## The search over the groups -/

/-- The search reads the bitmap of the group. -/
structure Searched (v : Volume) (pool : Pool) (bg : Nat) : Prop where
  described : v.readBgd bg = some (some (v.bgdAt bg))
  counted : pool.freeOf (v.bgdAt bg) ≠ 0
  read : ∃ buf, v.readBlock (v.bitmap pool bg) = some (some buf)

/-- The buffer of the bitmap has a clear bit whose number is one of the volume's. -/
structure Offers (v : Volume) (pool : Pool) (bg bit : Nat) : Prop where
  inBuffer : bit < bufferSize * 8
  clear : bit < 8 * v.blockSize → v.marked pool bg bit = false
  counted : pool.admits v.super (pool.numberOf v.super bg bit) = true

/-- The search ends in the group. -/
structure Yields (v : Volume) (pool : Pool) (bg : Nat) : Prop where
  searched : v.Searched pool bg
  offers : ∃ bit, v.Offers pool bg bit
  writes : v.Writes (v.bitmap pool bg)

/-- If the buffer of the bitmap offers a bit, then the bitmap offers one, and it can be written
throughout, unless its first sector cannot. -/
def Sound (v : Volume) (pool : Pool) (bg : Nat) : Prop :=
  v.Searched pool bg → (∃ bit, v.Offers pool bg bit) →
    v.disk.writable (v.blockLba (v.bitmap pool bg)) = false ∨
      v.Writes (v.bitmap pool bg) ∧ ∃ bit < 8 * v.blockSize, v.Offers pool bg bit

/-- Every group that the search comes to is sound. -/
def SearchSafe (v : Volume) (pool : Pool) : Prop :=
  ∀ bg < v.super.numBlockGroups, (∀ earlier < bg, ¬ v.Yields pool earlier) → v.Sound pool bg

theorem Valid.whole (valid : v.Valid) : 512 ∣ v.blockSize := by
  rcases valid.size with size | size | size <;> rw [size] <;> decide

theorem Valid.fits (valid : v.Valid) : v.blockSize ≤ bufferSize := by
  rcases valid.size with size | size | size <;> rw [size] <;> decide

theorem Valid.sector (valid : v.Valid) : 512 ≤ v.blockSize := by
  rcases valid.size with size | size | size <;> rw [size] <;> decide

theorem eq_bgdAt {bgd : Bgd} (described : v.readBgd bg = some (some bgd)) : bgd = v.bgdAt bg := by
  rw [readBgd_eq] at described
  obtain ⟨span, -, held⟩ := Option.map_eq_some_iff.mp described
  obtain ⟨_, -, same⟩ := Option.map_eq_some_iff.mp held
  exact same.symm

theorem marked_of_read (whole : 512 ∣ v.blockSize)
    (read : v.readBlock (v.bitmap pool bg) = some (some buf)) (inside : bit < 8 * v.blockSize) :
    buf.marked 0 bit = v.marked pool bg bit := by
  refine Buffer.marked_congr ?_
  rw [Nat.zero_add, readBlock_bytes whole read, if_pos (by omega)]
  rfl

theorem clear_of_read (whole : 512 ∣ v.blockSize)
    (read : v.readBlock (v.bitmap pool bg) = some (some buf)) :
    buf.marked 0 bit = false ↔ (bit < 8 * v.blockSize → v.marked pool bg bit = false) := by
  by_cases inside : bit < 8 * v.blockSize
  · rw [marked_of_read whole read inside]
    exact ⟨fun clear _ => clear, fun clear => clear inside⟩
  · refine iff_of_true ?_ fun below => absurd below inside
    rw [Buffer.marked, Nat.zero_add, readBlock_bytes whole read, if_neg (by omega)]
    exact Nat.zero_testBit _

/-- Writing back the buffer with one more bit sets that bit on the disk. -/
theorem flat_marked (whole : 512 ∣ v.blockSize)
    (read : v.readBlock (v.bitmap pool bg) = some (some buf)) (inside : bit < 8 * v.blockSize) :
    (v.overwritten (v.bitmap pool bg) (buf.mark 0 bit)).flat =
      v.flat.mark (v.bitmapPos pool bg) bit := by
  have content := readBlock_bytes whole read
  funext a
  rw [flat_overwritten whole]
  unfold bitmapPos
  by_cases here : a = v.bitmap pool bg * v.blockSize + bit / 8
  · subst here
    rw [if_pos (by omega), Buffer.mark_self, Nat.add_sub_cancel_left]
    have byte : buf.mark 0 bit (0 + bit / 8) = _ := Buffer.mark_self
    rw [Nat.zero_add] at byte
    rw [byte, content, if_pos (by omega)]
  · rw [Buffer.mark_of_ne here]
    split_ifs with block
    · rw [Buffer.mark_of_ne (by omega), content, if_pos (by omega)]
      exact congrArg v.flat (by omega)
    · rfl

/-- In a sound group the search hands out a bit of that group, or goes on with the volume as it
was. -/
theorem claimBit_of_sound {result : Option Nat × Volume} (valid : v.Valid)
    (group : bg < v.super.numBlockGroups) (sound : v.Sound pool bg)
    (described : v.readBgd bg = some (some (v.bgdAt bg)))
    (free : pool.freeOf (v.bgdAt bg) ≠ 0)
    (read : v.readBlock (v.bitmap pool bg) = some (some buf))
    (claimed : claimBit (v.bitmap pool bg) (pool.numberOf v.super bg) (pool.admits v.super)
      (List.range (bufferSize * 8)) buf v = some result) :
    (result = (none, v) ∧ ¬ v.Yields pool bg) ∨
      ∃ bit number, result.1 = some number ∧ v.Grants pool bg bit number result.2 := by
  have whole := valid.whole
  have clear {bit : Nat} : buf.marked 0 bit = false ↔ _ := clear_of_read whole read
  by_cases offered : ∃ bit, v.Offers pool bg bit
  · rcases sound ⟨described, free, buf, read⟩ offered with first | ⟨writes, real, below, offer⟩
    · refine .inl ⟨claimBit_of_first valid.fits valid.sector first claimed, fun yields => ?_⟩
      have positive := Nat.div_pos valid.sector (by decide)
      have writable := yields.writes.2 0 positive
      rw [Nat.add_zero, first] at writable
      cases writable
    · rw [claimBit_of_writes valid.fits valid.sector writes] at claimed
      have stop := stops_eq_true_iff.mpr ⟨clear.mpr offer.clear, .inr offer.counted⟩
      cases found : (List.range (bufferSize * 8)).find?
          (stops (pool.numberOf v.super bg) (pool.admits v.super) buf) with
      | none =>
        have never := List.find?_range_eq_none.mp found real offer.inBuffer
        rw [stop] at never
        cases never
      | some bit =>
        obtain ⟨ends, -, least⟩ := List.find?_range_eq_some.mp found
        obtain ⟨unset, reason⟩ := stops_eq_true_iff.mp ends
        have inside : bit < 8 * v.blockSize := by
          by_contra beyond
          have never := least real (by omega)
          rw [stop] at never
          cases never
        have free := clear.mp unset inside
        rw [found] at claimed
        obtain ⟨number, checked, rfl⟩ := Option.map_eq_some_iff.mp claimed
        unfold checked32 at checked
        split_ifs at checked with small
        obtain rfl := Option.some.inj checked
        refine .inr ⟨bit, _, rfl, group, ?_, rfl, reason.resolve_left (Nat.not_le_of_lt small),
          free, sameFrame_overwritten v _ _, flat_marked whole read inside⟩
        by_contra behind
        rw [valid.padded pool bg group bit inside (Nat.le_of_not_lt behind)] at free
        cases free
  · refine .inl ⟨claimBit_of_none (fun bit member unset admitted => offered ⟨bit, ?_⟩) claimed,
      fun yields => offered yields.offers⟩
    exact ⟨List.mem_range.mp member, clear.mp unset, admitted⟩

theorem claimFrom_of_safe (valid : v.Valid) (safe : v.SearchSafe pool) (count start : Nat)
    (groups : start + count = v.super.numBlockGroups)
    (earlier : ∀ bg < start, ¬ v.Yields pool bg)
    (claimed : claimFrom pool.bitmapOf pool.freeOf (pool.numberOf v.super) (pool.admits v.super)
      (List.range' start count) v = some (some number, v')) :
    ∃ bg bit, v.Grants pool bg bit number v' := by
  induction count generalizing start with
  | zero => cases claimed
  | succ count ih =>
    have next (passed : ¬ v.Yields pool start) := ih (start + 1) (by omega)
      fun bg below => (Nat.lt_succ_iff_lt_or_eq.mp below).elim (earlier bg) (· ▸ passed)
    rw [List.range'_succ, claimFrom] at claimed
    obtain ⟨bgd, described, claimed⟩ := Option.bind_eq_some_iff.mp claimed
    cases bgd with
    | none =>
      refine next (fun yields => ?_) claimed
      rw [yields.searched.described] at described
      cases described
    | some bgd =>
      obtain rfl := eq_bgdAt described
      dsimp only at claimed
      split_ifs at claimed with full
      · exact next (fun yields => yields.searched.counted full) claimed
      · obtain ⟨bitmap, read, claimed⟩ := Option.bind_eq_some_iff.mp claimed
        cases bitmap with
        | none =>
          refine next (fun yields => ?_) claimed
          obtain ⟨buf, reads⟩ := yields.searched.read
          cases read.symm.trans reads
        | some buf =>
          obtain ⟨result, found, claimed⟩ := Option.bind_eq_some_iff.mp claimed
          have sound := safe start (by omega) earlier
          rcases claimBit_of_sound valid (by omega) sound described full read found with
            ⟨rfl, passed⟩ | ⟨bit, handed, same, grants⟩
          · exact next passed claimed
          · obtain ⟨_, after⟩ := result
            obtain rfl := same
            cases claimed
            exact ⟨start, bit, grants⟩

/-- A call that succeeds in a safe search grants a bit. -/
theorem grants_of_alloc (valid : v.Valid) (safe : v.SearchSafe pool)
    (claimed : v.alloc pool = some (some number, v')) :
    ∃ bg bit, v.Grants pool bg bit number v' := by
  rw [alloc_eq, List.range_eq_range'] at claimed
  exact claimFrom_of_safe valid safe _ 0 (Nat.zero_add _) (fun _ below => absurd below (by omega))
    claimed

/-- The first clear bit of the first group's buffer is handed out. -/
theorem allocates_first (bit : Nat) (whole : 512 ∣ v.blockSize) (fits : v.blockSize ≤ bufferSize)
    (sector : 512 ≤ v.blockSize) (groups : 0 < v.super.numBlockGroups)
    (searched : v.Searched pool 0) (writes : v.Writes (v.bitmap pool 0))
    (offer : v.Offers pool 0 bit)
    (least : ∀ earlier < bit, earlier < 8 * v.blockSize ∧ v.marked pool 0 earlier = true)
    (small : pool.numberOf v.super 0 bit < 2 ^ 32) :
    ∃ v', v.alloc pool = some (some (pool.numberOf v.super 0 bit), v') := by
  obtain ⟨described, free, buf, read⟩ := searched
  have clear {bit : Nat} : buf.marked 0 bit = false ↔ _ := clear_of_read whole read
  have found : (List.range (bufferSize * 8)).find?
      (stops (pool.numberOf v.super 0) (pool.admits v.super) buf) = some bit := by
    refine List.find?_range_eq_some.mpr ⟨stops_eq_true_iff.mpr
      ⟨clear.mpr offer.clear, .inr offer.counted⟩, List.mem_range.mpr offer.inBuffer,
      fun earlier below => ?_⟩
    rw [Bool.not_eq_true', Bool.eq_false_iff]
    intro ends
    have unset := clear.mp (stops_eq_true_iff.mp ends).1 (least earlier below).1
    rw [(least earlier below).2] at unset
    cases unset
  have checked : checked32 (pool.numberOf v.super 0 bit) = some (pool.numberOf v.super 0 bit) :=
    if_pos small
  obtain ⟨rest, split⟩ : ∃ rest, List.range v.super.numBlockGroups = 0 :: rest :=
    ⟨_, by rw [List.range_eq_range', ← Nat.succ_pred_eq_of_pos groups, List.range'_succ]⟩
  have claimed := claimBit_of_writes fits sector writes (pool.numberOf v.super 0)
    (pool.admits v.super) (List.range (bufferSize * 8)) buf
  rw [found] at claimed
  dsimp only at claimed
  rw [checked, Option.map_some] at claimed
  refine ⟨v.overwritten (v.bitmap pool 0) (buf.mark 0 bit), ?_⟩
  rw [alloc_eq, split, claimFrom, described, Option.bind_eq_bind, Option.bind_some]
  dsimp only
  rw [if_neg free, Option.bind_eq_bind]
  change (v.readBlock (v.bitmap pool 0)).bind _ = _
  rw [read, Option.bind_some]
  dsimp only
  rw [Option.bind_eq_bind]
  exact Option.bind_eq_some_iff.mpr ⟨_, claimed, rfl⟩

/-! ## After a call -/

variable {bg' bit' : Nat}

theorem Valid.below (valid : v.Valid) (grants : v.Grants pool bg bit number v') :
    bit < 8 * v.blockSize := Nat.lt_of_lt_of_le grants.inside (valid.perGroup pool)

theorem Grants.bgdAt (grants : v.Grants pool bg bit number v') (valid : v.Valid)
    (group : bg' < v.super.numBlockGroups) : v'.bgdAt bg' = v.bgdAt bg' := by
  have below := valid.below grants
  have apart := valid.descriptors pool bg grants.group bg' group
  refine bgdAt_congr grants.frame fun i inside => ?_
  rw [grants.disk, Buffer.mark_of_ne (by omega)]

theorem Grants.bitmap (grants : v.Grants pool bg bit number v') (valid : v.Valid)
    (group : bg' < v.super.numBlockGroups) : v'.bitmap other bg' = v.bitmap other bg' := by
  rw [Volume.bitmap, grants.bgdAt valid group, Volume.bitmap]

theorem Grants.blockSize (grants : v.Grants pool bg bit number v') : v'.blockSize = v.blockSize :=
  congrArg Super.blockSize grants.frame.super

theorem Grants.bitmapPos (grants : v.Grants pool bg bit number v') (valid : v.Valid)
    (group : bg' < v.super.numBlockGroups) : v'.bitmapPos other bg' = v.bitmapPos other bg' := by
  rw [Volume.bitmapPos, grants.bitmap valid group, grants.blockSize, Volume.bitmapPos]

theorem Grants.marked_of_marked (grants : v.Grants pool bg bit number v') (valid : v.Valid)
    (group : bg' < v.super.numBlockGroups) (set : v.marked other bg' bit' = true) :
    v'.marked other bg' bit' = true := by
  rw [marked, grants.bitmapPos valid group, grants.disk]
  exact Buffer.marked_mark_of_marked set

/-- Of all the bits of all the bitmaps one has been set. -/
theorem Grants.marked_eq (grants : v.Grants pool bg bit number v') (valid : v.Valid)
    (group : bg' < v.super.numBlockGroups) (inside : bit' < 8 * v.blockSize) :
    v'.marked other bg' bit' =
      (v.marked other bg' bit' || decide (pool = other ∧ bg = bg' ∧ bit = bit')) := by
  have below := valid.below grants
  rw [marked, grants.bitmapPos valid group, grants.disk]
  by_cases same : pool = other ∧ bg = bg'
  · obtain ⟨rfl, rfl⟩ := same
    rw [Buffer.marked_mark, marked]
    simp only [true_and, beq_eq_decide]
  · have blocks : v.bitmap pool bg ≠ v.bitmap other bg' :=
      fun equal => same (valid.apart _ _ _ grants.group _ group equal)
    rw [decide_eq_false fun both => same ⟨both.1, both.2.1⟩, Bool.or_false, marked]
    refine Buffer.marked_congr (Buffer.mark_of_ne ?_)
    unfold Volume.bitmapPos
    rcases Nat.lt_or_gt_of_ne blocks with before | behind
    · have := Nat.mul_le_mul_right v.blockSize (Nat.succ_le_of_lt before)
      rw [Nat.succ_mul] at this
      omega
    · have := Nat.mul_le_mul_right v.blockSize (Nat.succ_le_of_lt behind)
      rw [Nat.succ_mul] at this
      omega

theorem Grants.valid (grants : v.Grants pool bg bit number v') (valid : v.Valid) : v'.Valid where
  size := grants.blockSize.symm ▸ valid.size
  perGroup other := by
    rw [grants.frame.super, grants.blockSize]
    exact valid.perGroup other
  padded := by
    rw [grants.frame.super, grants.blockSize]
    exact fun other bg' group bit' below behind =>
      grants.marked_of_marked valid group (valid.padded other bg' group bit' below behind)
  apart := by
    rw [grants.frame.super]
    intro one other a aGroup b bGroup
    rw [grants.bitmap valid aGroup, grants.bitmap valid bGroup]
    exact valid.apart one other a aGroup b bGroup
  descriptors := by
    rw [grants.frame.super, grants.blockSize]
    intro other a aGroup b bGroup
    rw [grants.bitmapPos valid aGroup, grants.frame.descPos]
    exact valid.descriptors other a aGroup b bGroup

/-! ## Histories -/

/-- A call that succeeds, with the number it returns. -/
structure Call where
  pool : Pool
  number : Nat
deriving DecidableEq, Repr

/-- A call returns a number. -/
def Allocates (v : Volume) (call : Call) (v' : Volume) : Prop :=
  v.alloc call.pool = some (some call.number, v')

/-- What a call should do: the number is that of a clear bit within its group, and this is the one
bit that it sets. -/
def Exact (v : Volume) (call : Call) (v' : Volume) : Prop :=
  ∃ bg bit, v.Grants call.pool bg bit call.number v' ∧
    ∀ other, ∀ bg' < v.super.numBlockGroups, ∀ bit' < 8 * v.blockSize,
      v'.marked other bg' bit' =
        (v.marked other bg' bit' || decide (call.pool = other ∧ bg = bg' ∧ bit = bit'))

/-- Every call of a history does that, and no number is returned twice. -/
def ExactRun (taken : List (Transition Volume Call)) : Prop :=
  (∀ call ∈ taken, call.before.Exact call.label call.after) ∧
    (taken.map Transition.label).Nodup

/-- The number is that of a set bit within its group. -/
def Used (v : Volume) (call : Call) : Prop :=
  ∃ bg < v.super.numBlockGroups, ∃ bit < call.pool.perGroup v.super,
    call.number = call.pool.numberOf v.super bg bit ∧ v.marked call.pool bg bit = true

theorem numberOf_inj {s : Super} (inside : bit < pool.perGroup s) (inside' : bit' < pool.perGroup s)
    (same : pool.numberOf s bg bit = pool.numberOf s bg' bit') : bg = bg' ∧ bit = bit' := by
  unfold Pool.numberOf at same
  have groups (a b i j : Nat) (jInside : j < pool.perGroup s) (less : a < b)
      (equal : a * pool.perGroup s + j + pool.first s = b * pool.perGroup s + i + pool.first s) :
      False := by
    have := Nat.mul_le_mul_right (pool.perGroup s) (Nat.succ_le_of_lt less)
    rw [Nat.succ_mul] at this
    omega
  have equal : bg = bg' := by
    rcases Nat.lt_trichotomy bg bg' with less | equal | more
    · exact (groups bg bg' bit' bit inside less same).elim
    · exact equal
    · exact (groups bg' bg bit bit' inside' more same.symm).elim
  subst equal
  exact ⟨rfl, by omega⟩

theorem Grants.not_used {call : Call} (grants : v.Grants call.pool bg bit call.number v') :
    ¬ v.Used call := by
  rintro ⟨bg', -, bit', inside, numbered, set⟩
  obtain ⟨rfl, rfl⟩ := numberOf_inj grants.inside inside (grants.numbered.symm.trans numbered)
  rw [grants.free] at set
  cases set

theorem Grants.used {call : Call} (grants : v.Grants call.pool bg bit call.number v')
    (valid : v.Valid) : v'.Used call := by
  refine ⟨bg, ?_, bit, ?_, ?_, ?_⟩
  · rw [grants.frame.super]
    exact grants.group
  · rw [grants.frame.super]
    exact grants.inside
  · rw [grants.frame.super]
    exact grants.numbered
  · rw [grants.marked_eq valid grants.group (valid.below grants)]
    simp

theorem Grants.used_of_used {call : Call} (grants : v.Grants pool bg bit number v')
    (valid : v.Valid) (used : v.Used call) : v'.Used call := by
  obtain ⟨bg', group, bit', inside, numbered, set⟩ := used
  unfold Used
  rw [grants.frame.super]
  exact ⟨bg', group, bit', inside, numbered, grants.marked_of_marked valid group set⟩

/-- As long as every search is safe, each call marks one free bit of the group that it searched,
and no block or inode is handed out twice. -/
theorem exactRun_of_safe {final : Volume} {taken : List (Transition Volume Call)} (valid : v.Valid)
    (trace : Trace Allocates v taken final)
    (safe : Guarded (fun v call => v.SearchSafe call.pool) taken) : ExactRun taken := by
  have kept (before : Volume) (call : Call) (after : Volume) (valid : before.Valid)
      (safe : before.SearchSafe call.pool) (claimed : before.Allocates call after) :
      after.Valid ∧ before.Exact call after := by
    obtain ⟨bg, bit, grants⟩ := grants_of_alloc valid safe claimed
    exact ⟨grants.valid valid, bg, bit, grants, fun _ _ group _ inside =>
      grants.marked_eq valid group inside⟩
  refine ⟨trace.forall_of_guarded Valid valid kept safe,
    trace.nodup_of_guarded Valid Used valid
      (fun _ _ _ valid safe claimed => (kept _ _ _ valid safe claimed).1)
      (fun _ _ _ valid safe claimed => ?_) (fun _ _ _ valid safe claimed _ used => ?_) safe⟩
  · obtain ⟨_, _, grants⟩ := grants_of_alloc valid safe claimed
    exact ⟨grants.not_used, grants.used valid⟩
  · obtain ⟨_, _, grants⟩ := grants_of_alloc valid safe claimed
    exact grants.used_of_used valid used

section Samples

def smallBlocks : Super where
  inodesCount := 16
  blocksCount := 16385
  firstDataBlock := 1
  blockSize := 1024
  blocksPerGroup := 8192
  inodesPerGroup := 8
  inodeSize := 128
  numBlockGroups := 2
  descSize := 32

/-- The descriptors are in block 2, the bitmaps in blocks 3 to 6. The last bit of the first one is
the only clear one. -/
def image : Buffer := fun a =>
  if a < 3072 then
    match a with
    | 2048 => 3
    | 2052 => 5
    | 2056 => 7
    | 2060 => 1
    | 2080 => 4
    | 2084 => 6
    | 2088 => 8
    | _ => 0
  else if a = 4095 then 0x7F
  else if a < 7168 then 0xFF
  else 0

def nearlyFull : Volume where
  valid := true
  super := smallBlocks
  partBase := 0
  disk := ⟨fun lba i => image (lba * 512 + i), fun _ => true, fun _ => true, true⟩

theorem flat_nearlyFull (a : Nat) : nearlyFull.flat a = image a := by
  change image ((0 + a / 512) * 512 + a % 512) = image a
  exact congrArg image (by omega)

theorem bitmap_nearlyFull (group : bg < 2) :
    nearlyFull.bitmap pool bg = (if pool = .blocks then 3 else 5) + bg := by
  obtain rfl | rfl : bg = 0 ∨ bg = 1 := by omega
  all_goals cases pool <;> rfl

theorem marked_nearlyFull (group : bg < 2) (inside : bit < 8192) :
    nearlyFull.marked pool bg bit = !decide (pool = .blocks ∧ bg = 0 ∧ bit = 8191) := by
  have place : bit % 8 < 8 := Nat.mod_lt _ (by decide)
  have full : ∀ k < 8, (0xFF : UInt8).toNat.testBit k = true := by decide
  have last : ∀ k < 8, (0x7F : UInt8).toNat.testBit k = !decide (k = 7) := by decide
  rw [marked, Buffer.marked, bitmapPos, bitmap_nearlyFull group, flat_nearlyFull]
  change (image ((_ + bg) * 1024 + bit / 8)).toNat.testBit _ = _
  unfold image
  by_cases byte : pool = .blocks ∧ bg = 0 ∧ bit / 8 = 1023
  · obtain ⟨rfl, rfl, low⟩ := byte
    rw [if_pos rfl, low, if_neg (by decide), if_pos (by decide), last _ place]
    simp only [true_and]
    exact congrArg _ (decide_eq_decide.mpr (by omega))
  · have other : ¬ ((if pool = .blocks then 3 else 5) + bg) * 1024 + bit / 8 = 4095 := by
      split_ifs with blocks
      · exact fun equal => byte ⟨blocks, by omega, by omega⟩
      · omega
    have above : ¬ ((if pool = .blocks then 3 else 5) + bg) * 1024 + bit / 8 < 3072 := by
      split_ifs <;> omega
    have behind : ((if pool = .blocks then 3 else 5) + bg) * 1024 + bit / 8 < 7168 := by
      split_ifs <;> omega
    rw [if_neg above, if_neg other, if_pos behind, full _ place, decide_eq_false]
    · rfl
    · rintro ⟨blocks, first, rfl⟩
      exact byte ⟨blocks, first, by decide⟩

theorem formatted_nearlyFull : nearlyFull.Formatted where
  size := .inl rfl
  perGroup pool := by cases pool <;> decide
  padded pool bg group bit inside behind := by
    rw [marked_nearlyFull group inside, decide_eq_false]
    · rfl
    · rintro ⟨rfl, -, rfl⟩
      exact absurd behind (by decide)
  apart pool other bg group bg' group' same := by
    have first : bg < 2 := group
    have second : bg' < 2 := group'
    rw [bitmap_nearlyFull group, bitmap_nearlyFull group'] at same
    cases pool <;> cases other
    · exact ⟨rfl, Nat.add_left_cancel same⟩
    · change 3 + bg = 5 + bg' at same
      omega
    · change 5 + bg = 3 + bg' at same
      omega
    · exact ⟨rfl, Nat.add_left_cancel same⟩
  descriptors pool bg group bg' group' := by
    have first : bg' < 2 := group'
    refine .inl ?_
    rw [bitmapPos, bitmap_nearlyFull group]
    change 2 * 1024 + bg' * 32 + 16 ≤ (_ + bg) * 1024
    split_ifs <;> omega
  counted pool bg group := by
    have free : ∀ bit ∈ List.range (pool.perGroup smallBlocks),
        (!nearlyFull.marked pool bg bit) =
          decide (pool = .blocks ∧ bg = 0 ∧ bit = 8191) := by
      intro bit member
      have inside := List.mem_range.mp member
      have within : pool.perGroup smallBlocks ≤ 8192 := by cases pool <;> decide
      rw [marked_nearlyFull group (by omega), Bool.not_not]
    rw [List.countP_congr fun bit member => by rw [free bit member]]
    obtain rfl | rfl : bg = 0 ∨ bg = 1 := by
      have : bg < 2 := group
      omega
    all_goals cases pool <;> decide +kernel

theorem searched_blocks {v : Volume} (frame : SameFrame nearlyFull v)
    (same : v.bgdAt 0 = nearlyFull.bgdAt 0) : v.Searched .blocks 0 where
  described := by
    rw [readBgd_congr frame same, readBgd_eq, same]
    rfl
  counted := by
    rw [same]
    decide
  read := by
    have size : v.blockSize = 1024 := congrArg Super.blockSize frame.super
    have reads : v.Reads := ⟨frame.hasPage, fun _ => by rw [frame.readable]; rfl⟩
    obtain ⟨buf, read, -⟩ := readBlock_of_reads reads (by rw [size]; decide)
      (by rw [size]; decide) (v.bitmap .blocks 0)
    exact ⟨buf, read⟩

theorem writes_of_frame {v : Volume} (frame : SameFrame nearlyFull v) (blk : Nat) : v.Writes blk :=
  ⟨frame.hasPage, fun _ _ => by rw [frame.writable]; rfl⟩

theorem offers_last : nearlyFull.Offers .blocks 0 8191 where
  inBuffer := by decide
  clear _ := by
    rw [marked_nearlyFull (by decide) (by decide)]
    decide
  counted := by decide

/-- The last block of the first group is handed out. -/
theorem allocates_last : ∃ v, nearlyFull.Allocates ⟨.blocks, 8192⟩ v := by
  have valid := formatted_nearlyFull.toValid
  have frame := SameFrame.refl nearlyFull
  refine allocates_first _ valid.whole valid.fits valid.sector (by decide)
    (searched_blocks frame rfl) (writes_of_frame frame _) offers_last
    (fun earlier below => ⟨?_, ?_⟩) (by decide)
  · change earlier < 8 * 1024
    omega
  · rw [marked_nearlyFull (by decide) (by omega), decide_eq_false (by omega)]
    rfl

theorem searchSafe_nearlyFull : nearlyFull.SearchSafe .blocks := by
  intro bg group _ searched _
  obtain rfl | rfl : bg = 0 ∨ bg = 1 := by
    have : bg < 2 := group
    omega
  · exact .inr ⟨writes_of_frame (.refl _) _, 8191, by decide, offers_last⟩
  · exact absurd (by decide) searched.counted

/-- After that the count of the group still says that a block is free. The next call finds its bit
behind the bitmap: it is the first block of the other group, which is in use. -/
theorem nearlyFull_not_exactRun : nearlyFull.Formatted ∧
    ∃ full after, let taken := [⟨nearlyFull, ⟨.blocks, 8192⟩, full⟩, ⟨full, ⟨.blocks, 8193⟩, after⟩]
      Trace Allocates nearlyFull taken after ∧ ¬ ExactRun taken := by
  have valid := formatted_nearlyFull.toValid
  obtain ⟨full, first⟩ := allocates_last
  obtain ⟨bg, bit, grants⟩ := grants_of_alloc valid searchSafe_nearlyFull first
  have place : bg = 0 ∧ bit = 8191 := by
    have free := grants.free
    rw [marked_nearlyFull grants.group grants.inside, Bool.not_eq_false',
      decide_eq_true_iff] at free
    exact free.2
  obtain ⟨rfl, rfl⟩ := place
  have marked {bg bit : Nat} (group : bg < 2) (inside : bit < 8192) :
      full.marked .blocks bg bit = true := by
    rw [grants.marked_eq valid group inside, marked_nearlyFull group inside]
    by_cases last : bg = 0 ∧ bit = 8191
    · obtain ⟨rfl, rfl⟩ := last
      rfl
    · rw [decide_eq_false fun both => last both.2, Bool.not_false, Bool.true_or]
  have size : full.blockSize = 1024 := grants.blockSize
  have super : full.super = smallBlocks := grants.frame.super
  have fullValid := grants.valid valid
  obtain ⟨after, second⟩ : ∃ after, full.Allocates ⟨.blocks, 8193⟩ after := by
    have call := allocates_first 8192 fullValid.whole fullValid.fits fullValid.sector
      (by rw [super]; decide) (searched_blocks grants.frame (grants.bgdAt valid (by decide)))
      (writes_of_frame grants.frame _)
      ⟨by decide, fun inside => absurd inside (by rw [size]; decide), by rw [super]; decide⟩
      (fun earlier below => ⟨by rw [size]; omega, marked (by decide) (by omega)⟩)
      (by rw [super]; decide)
    rw [super] at call
    exact call
  refine ⟨formatted_nearlyFull, full, after, (Trace.nil.snoc first).snoc second, fun exact => ?_⟩
  obtain ⟨bg, bit, grants, -⟩ := exact.1 _ (.tail _ (.head _))
  have group := grants.group
  have inside := grants.inside
  rw [super] at group inside
  have free := grants.free
  rw [marked group inside] at free
  cases free

/-- The history that ends before that call. -/
theorem exactRun_of_safe_nearlyFull : ∃ full, ExactRun [⟨nearlyFull, ⟨.blocks, 8192⟩, full⟩] := by
  obtain ⟨full, first⟩ := allocates_last
  refine ⟨full, exactRun_of_safe formatted_nearlyFull.toValid (Trace.nil.snoc first) ?_⟩
  intro call member
  obtain rfl := List.mem_singleton.mp member
  exact searchSafe_nearlyFull

end Samples

end Volume

end DBSos.Ext4
