import DBSos.Ext4.Partition
import DBSos.Ext4.Superblock
import Mathlib.Data.List.OfFn

/-!
# Inodes in their table

An inode's record has 128 or 256 bytes, of which `Inode` holds the first 112. `write_inode` puts
the whole record together anew, with zeros behind them.
-/

namespace DBSos.Ext4

open DBSos.Lib

/-! ## Records -/

namespace Inode

/-- The lengths of the fields. -/
def lens : List Nat := [2, 2, 4, 4, 4, 4, 4, 2, 2, 4, 4, 4] ++ List.replicate 15 4 ++ [4, 4, 4]

/-- The fields in the order of the record. -/
def values (inode : Inode) : List Nat :=
  [inode.mode, inode.uid, inode.sizeLo, inode.atime, inode.ctime, inode.mtime, inode.dtime,
    inode.gid, inode.linksCount, inode.blocks, inode.flags, inode.osd1] ++
    List.ofFn inode.block ++ [inode.generation, inode.fileAcl, inode.sizeHi]

/-- The fields are `u16` and `u32`. -/
def Typed (inode : Inode) : Prop := Buffer.Fit lens inode.values

theorem values_inj {a b : Inode} (same : a.values = b.values) : a = b := by
  obtain ⟨front, back⟩ := List.append_inj' same rfl
  obtain ⟨head, blocks⟩ := List.append_inj front rfl
  have block := List.ofFn_injective blocks
  cases a
  cases b
  simp_all

/-- `parse_inode` reads the fields. -/
theorem values_parse (buf : Buffer) : (parse buf).values = buf.unpack 0 lens := by
  rfl

/-- The record starts with the fields; behind them it is zero. -/
theorem encode_eq (inode : Inode) :
    inode.encode = Buffer.pack lens inode.values ++ List.replicate 144 0 := by
  simp [encode, values, lens, Buffer.pack, List.ofFn_succ, List.finRange_succ, List.replicate]

theorem sum_lens : lens.sum = 112 := rfl

theorem length_packed (inode : Inode) : (Buffer.pack lens inode.values).length = 112 := by
  rw [Buffer.length_pack, sum_lens]
  simp [lens, values]

theorem typed_parse (buf : Buffer) : (parse buf).Typed := by
  rw [Typed, values_parse]
  exact Buffer.fit_unpack buf 0 lens

/-- Reading and writing a record keeps its first 112 bytes. -/
theorem encode_parse (buf : Buffer) :
    (parse buf).encode = buf.slice 0 112 ++ List.replicate 144 0 := by
  rw [encode_eq, values_parse, Buffer.pack_unpack, sum_lens]

/-- A record that starts like a written one reads as it was written. -/
theorem parse_eq {inode : Inode} (typed : inode.Typed) {buf : Buffer}
    (written : buf.slice 0 112 = inode.encode.take 112) : parse buf = inode := by
  apply values_inj
  rw [values_parse]
  refine Buffer.unpack_pack typed ?_
  rw [sum_lens, written, encode_eq, List.take_left' (length_packed inode)]

/-- What a record holds behind the fields. -/
theorem getElem_encode_of_le {inode : Inode} {k : Nat} (behind : 112 ≤ k)
    (inside : k < inode.encode.length) : inode.encode[k] = 0 := by
  have length := length_packed inode
  simp only [encode_eq]
  rw [List.getElem_append_right (by omega), List.getElem_replicate]

/-- What a record holds before them. -/
theorem getElem_encode_parse {buf : Buffer} {k : Nat} (before : k < 112)
    (inside : k < (parse buf).encode.length) : (parse buf).encode[k] = buf k := by
  simp only [encode_parse]
  rw [List.getElem_append_left (by rw [Buffer.length_slice]; exact before)]
  simp [Buffer.slice]

/-- Equal inodes come from equal fields. -/
theorem eq_of_parse_eq {buf buf' : Buffer} (same : parse buf = parse buf') {k : Nat}
    (before : k < 112) : buf k = buf' k := by
  have inside (buf : Buffer) : k < (parse buf).encode.length := by
    rw [length_encode]
    omega
  rw [← getElem_encode_parse before (inside buf), ← getElem_encode_parse before (inside buf')]
  simp only [same]

end Inode

/-! ## Where a record lies -/

namespace Volume

variable {v v' : Volume} {n pos : Nat} {inode : Inode}

/-- The position of a record by the descriptor of its group. -/
def recordPos (v : Volume) (n : Nat) : Nat :=
  (v.bgdAt ((n - 1) / v.super.inodesPerGroup)).inodeTable * v.blockSize +
    (n - 1) % v.super.inodesPerGroup * v.super.inodeSize

theorem inodePos_eq (v : Volume) (n : Nat) :
    v.inodePos n =
      if n < 1 ∨ v.super.inodesPerGroup = 0 then none
      else (v.readSpan (v.descPos ((n - 1) / v.super.inodesPerGroup)) v.descSize 64).map
        (·.map fun _ => v.recordPos n) := by
  unfold inodePos
  rw [readBgd_eq]
  split_ifs
  · rfl
  · cases v.readSpan (v.descPos ((n - 1) / v.super.inodesPerGroup)) v.descSize 64 with
    | none => rfl
    | some span => cases span <;> rfl

theorem eq_recordPos (located : v.inodePos n = some (some pos)) : pos = v.recordPos n := by
  rw [inodePos_eq] at located
  split_ifs at located
  obtain ⟨span, -, mapped⟩ := Option.map_eq_some_iff.mp located
  obtain ⟨_, -, same⟩ := Option.map_eq_some_iff.mp mapped
  exact same.symm

/-- The geometry of a volume with small inodes. -/
structure SmallInodes (v : Volume) : Prop where
  block : 512 ∣ v.blockSize
  positive : 0 < v.blockSize
  size : v.super.inodeSize = 128 ∨ v.super.inodeSize = 256

/-- A record lies in one sector. -/
theorem SmallInodes.inside (small : v.SmallInodes) (n : Nat) :
    v.recordPos n % 512 + v.super.inodeSize ≤ 512 := by
  have divides : v.super.inodeSize ∣ v.recordPos n := by
    refine Nat.dvd_add (Nat.dvd_mul_left_of_dvd (Nat.dvd_trans ?_ small.block) _)
      (Nat.dvd_mul_left ..)
    rcases small.size with size | size <;> rw [size] <;> decide
  rcases small.size with size | size <;> rw [size] at divides ⊢ <;> omega

/-- The record is found, and its sector can be read and written. -/
structure Stored (v : Volume) (n : Nat) : Prop where
  located : v.inodePos n = some (some (v.recordPos n))
  readable : v.disk.readable (v.partBase + v.recordPos n / 512) = true
  writable : v.disk.writable (v.partBase + v.recordPos n / 512) = true

/-- The volume behind a successful `write_inode`. -/
def rewritten (v : Volume) (n : Nat) (inode : Inode) : Volume :=
  v.patched (v.recordPos n) (inode.encode.take v.super.inodeSize)

theorem writeInode_of_stored (small : v.SmallInodes) (stored : v.Stored n) (inode : Inode) :
    v.writeInode n inode = some (true, v.rewritten n inode) := by
  have length := length_encode inode
  rw [writeInode, stored.located]
  refine (writeSpan_one _ (small.inside n) ?_).trans ?_
  · rcases small.size with size | size <;> omega
  · rw [if_pos ⟨stored.readable, stored.writable⟩]
    rfl

theorem writeInode_of_not_stored (small : v.SmallInodes) (other : ¬ v.Stored n)
    {result : Bool × Volume} (wrote : v.writeInode n inode = some result) :
    result = (false, v) := by
  have length := length_encode inode
  unfold writeInode at wrote
  obtain ⟨found, located, wrote⟩ := Option.bind_eq_some_iff.mp wrote
  cases found with
  | none => exact (Option.some.inj wrote).symm
  | some pos =>
    obtain rfl := eq_recordPos located
    have span : v.writeSpan _ _ _ = _ := writeSpan_one inode.encode (small.inside n)
      (by rcases small.size with size | size <;> omega)
    rw [if_neg fun both => other ⟨located, both.1, both.2⟩] at span
    exact Option.some.inj (wrote.symm.trans span)

theorem length_record (small : v.SmallInodes) (inode : Inode) :
    (inode.encode.take v.super.inodeSize).length = v.super.inodeSize := by
  rw [List.length_take, length_encode]
  rcases small.size with size | size <;> omega

theorem flat_rewritten (small : v.SmallInodes) (n : Nat) (inode : Inode) :
    (v.rewritten n inode).flat =
      v.flat.put (v.recordPos n) (inode.encode.take v.super.inodeSize) :=
  flat_patched (by rw [length_record small]; exact small.inside n)

theorem positive_of_located (located : v.inodePos n = some (some pos)) : ¬ n < 1 := by
  intro zero
  rw [inodePos_eq, if_pos (.inl zero)] at located
  cases located

theorem readInode_of_located (small : v.SmallInodes)
    (located : v.inodePos n = some (some (v.recordPos n)))
    (readable : v.disk.readable (v.partBase + v.recordPos n / 512) = true) :
    ∃ buf, v.readInode n = some (some buf) := by
  rw [readInode, if_neg (positive_of_located located), located]
  change ∃ buf, v.readSpan _ _ _ = _
  unfold readSpan Disk.readSector
  dsimp only
  rw [if_pos readable]
  dsimp only
  rw [if_pos (small.inside n), if_pos (by rcases small.size with size | size <;> omega)]
  exact ⟨_, rfl⟩

theorem readInode_cases {buf : Buffer} (read : v.readInode n = some (some buf)) :
    v.inodePos n = some (some (v.recordPos n)) ∧
      ∀ i < v.super.inodeSize, buf i = v.flat (v.recordPos n + i) := by
  unfold readInode at read
  by_cases zero : n < 1
  · rw [if_pos zero] at read
    cases read
  · rw [if_neg zero] at read
    obtain ⟨found, located, read⟩ := Option.bind_eq_some_iff.mp read
    cases found with
    | none => cases read
    | some pos =>
      obtain rfl := eq_recordPos located
      exact ⟨located, fun i inside => readSpan_bytes read inside⟩

/-! ## What a written record changes -/

theorem SmallInodes.rewritten (small : v.SmallInodes) (n : Nat) (inode : Inode) :
    (v.rewritten n inode).SmallInodes := ⟨small.block, small.positive, small.size⟩

/-- A byte of the record. -/
theorem flat_rewritten_inside (small : v.SmallInodes) (n : Nat) (inode : Inode) {k : Nat}
    (inside : k < v.super.inodeSize) (whole : k < inode.encode.length) :
    (v.rewritten n inode).flat (v.recordPos n + k) = inode.encode[k] := by
  rw [flat_rewritten small, Buffer.put_inside _ _ (by rw [length_record small]; exact inside),
    List.getElem_take]

theorem flat_rewritten_outside (small : v.SmallInodes) (n : Nat) (inode : Inode) {a : Nat}
    (outside : a < v.recordPos n ∨ v.recordPos n + v.super.inodeSize ≤ a) :
    (v.rewritten n inode).flat a = v.flat a := by
  rw [flat_rewritten small, Buffer.put_outside _ (by rwa [length_record small])]

/-- The bytes behind the fields are zero. -/
def TailZero (v : Volume) (n : Nat) : Prop :=
  ∀ k, 112 ≤ k → k < v.super.inodeSize → v.flat (v.recordPos n + k) = 0

/-- Where the tail is zero, only fields change. -/
theorem flat_rewritten_tail (small : v.SmallInodes) (tail : v.TailZero n) (inode : Inode) {a : Nat}
    (outside : a < v.recordPos n ∨ v.recordPos n + 112 ≤ a) :
    (v.rewritten n inode).flat a = v.flat a := by
  by_cases behind : a < v.recordPos n ∨ v.recordPos n + v.super.inodeSize ≤ a
  · exact flat_rewritten_outside small n inode behind
  · obtain ⟨k, rfl⟩ : ∃ k, a = v.recordPos n + k := ⟨a - v.recordPos n, by omega⟩
    have whole : k < inode.encode.length := by
      rw [length_encode]
      rcases small.size with size | size <;> omega
    rw [flat_rewritten_inside small n inode (by omega) whole,
      Inode.getElem_encode_of_le (by omega) whole, tail k (by omega) (by omega)]

/-- The position of the table's block number in the descriptor of an inode's group. -/
def tableField (v : Volume) (n : Nat) : Nat := v.descPos ((n - 1) / v.super.inodesPerGroup) + 8

/-- Where a record lies by the table that the descriptor names. -/
theorem recordPos_eq (v : Volume) (n : Nat) :
    v.recordPos n = v.flat.number (v.tableField n) 4 * v.blockSize +
      (n - 1) % v.super.inodesPerGroup * v.super.inodeSize := rfl

/-- The record and the block number that it is found by have no byte in common. -/
def FieldApart (v : Volume) (n : Nat) : Prop :=
  ∀ i < 4, ∀ k < 112, v.tableField n + i ≠ v.recordPos n + k

theorem recordPos_rewritten (small : v.SmallInodes) (tail : v.TailZero n) (apart : v.FieldApart n)
    (inode : Inode) : (v.rewritten n inode).recordPos n = v.recordPos n := by
  have same : (v.rewritten n inode).flat.number (v.tableField n) 4 =
      v.flat.number (v.tableField n) 4 := by
    refine Buffer.number_congr fun a above below => flat_rewritten_tail small tail inode ?_
    by_contra inside
    exact apart (a - v.tableField n) (by omega) (a - v.recordPos n) (by omega) (by omega)
  rw [recordPos_eq, recordPos_eq, ← same]
  rfl

/-- A record that moves is found elsewhere, with what lies there. -/
theorem located_rewritten (located : v.inodePos n = some (some (v.recordPos n))) (inode : Inode) :
    (v.rewritten n inode).inodePos n = some (some ((v.rewritten n inode).recordPos n)) := by
  have spans := readSpan_congr (sameFrame_patched v (v.recordPos n)
    (inode.encode.take v.super.inodeSize)) (v.descPos ((n - 1) / v.super.inodesPerGroup))
    v.descSize 64
  rw [inodePos_eq] at located ⊢
  split_ifs at located with refused
  obtain ⟨span, read, mapped⟩ := Option.map_eq_some_iff.mp located
  obtain ⟨buf, rfl, -⟩ := Option.map_eq_some_iff.mp mapped
  rw [read] at spans
  obtain ⟨span', read', found⟩ := Option.map_eq_some_iff.mp spans
  obtain ⟨buf', rfl⟩ := Option.isSome_iff_exists.mp found
  refine (if_neg refused).trans ?_
  exact congrArg (Option.map (Option.map fun _ => (v.rewritten n inode).recordPos n)) read'

/-! ## What is kept -/

/-- What is expected of `write_inode` for one inode. -/
structure KeepsRecord (v : Volume) (n : Nat) : Prop where
  same : ∀ buf written v', v.readInode n = some (some buf) →
    v.writeInode n (Inode.parse buf) = some (written, v') → v' = v
  others : ∀ inode written v' lba i, v.writeInode n inode = some (written, v') →
    v'.disk.sectors lba i ≠ v.disk.sectors lba i →
      ∃ k < 112, lba = v.partBase + (v.recordPos n + k) / 512 ∧ i = (v.recordPos n + k) % 512
  back : ∀ inode v', inode.Typed → v.writeInode n inode = some (true, v') →
    ∃ buf, v'.readInode n = some (some buf) ∧ Inode.parse buf = inode

/-- A record that is written over itself. -/
theorem patched_eq_self {bytes : List UInt8} (inside : pos % 512 + bytes.length ≤ 512)
    (same : ∀ k (below : k < bytes.length), bytes[k] = v.flat (pos + k)) :
    v.patched pos bytes = v := by
  have sector : (v.disk.sectors (v.partBase + pos / 512)).put (pos % 512) bytes =
      v.disk.sectors (v.partBase + pos / 512) := by
    funext i
    by_cases outside : i < pos % 512 ∨ pos % 512 + bytes.length ≤ i
    · exact Buffer.put_outside _ outside
    · obtain ⟨k, rfl⟩ : ∃ k, i = pos % 512 + k := ⟨i - pos % 512, by omega⟩
      have here : (pos + k) / 512 = pos / 512 ∧ (pos + k) % 512 = pos % 512 + k := by omega
      rw [Buffer.put_inside _ _ (by omega), same k (by omega), flat, here.1, here.2]
  unfold patched
  dsimp only
  rw [sector, Function.update_eq_self]

/-- A byte that a patch changes. -/
theorem patched_changes {bytes : List UInt8} (inside : pos % 512 + bytes.length ≤ 512) {lba i : Nat}
    (changed : (v.patched pos bytes).disk.sectors lba i ≠ v.disk.sectors lba i) :
    ∃ k, ∃ below : k < bytes.length, lba = v.partBase + (pos + k) / 512 ∧ i = (pos + k) % 512 ∧
      bytes[k] ≠ v.flat (pos + k) := by
  unfold patched at changed
  dsimp only at changed
  by_cases here : lba = v.partBase + pos / 512
  · subst here
    rw [Function.update_self] at changed
    by_cases outside : i < pos % 512 ∨ pos % 512 + bytes.length ≤ i
    · exact absurd (Buffer.put_outside _ outside) changed
    · obtain ⟨k, rfl⟩ : ∃ k, i = pos % 512 + k := ⟨i - pos % 512, by omega⟩
      have place : (pos + k) / 512 = pos / 512 ∧ (pos + k) % 512 = pos % 512 + k := by omega
      rw [Buffer.put_inside _ _ (by omega)] at changed
      refine ⟨k, by omega, by rw [place.1], place.2.symm, ?_⟩
      rwa [flat, place.1, place.2]
  · rw [Function.update_of_ne here] at changed
    exact absurd rfl changed

/-- Where nothing lies behind the fields and the record keeps off its block number, a written
inode is kept. -/
theorem keepsRecord_of_plain (small : v.SmallInodes)
    (plain : v.Stored n → v.TailZero n ∧ v.FieldApart n) : v.KeepsRecord n := by
  have inside (inode : Inode) : v.recordPos n % 512 +
      (inode.encode.take v.super.inodeSize).length ≤ 512 := by
    rw [length_record small]
    exact small.inside n
  have wholeLength : v.super.inodeSize ≤ 256 := by rcases small.size with size | size <;> omega
  constructor
  · intro buf written v' read wrote
    by_cases stored : v.Stored n
    · rw [writeInode_of_stored small stored] at wrote
      obtain ⟨-, rfl⟩ := Prod.mk.inj (Option.some.inj wrote)
      refine patched_eq_self (inside _) fun k below => ?_
      rw [length_record small] at below
      rw [List.getElem_take]
      have whole : k < (Inode.parse buf).encode.length := by
        rw [length_encode]
        omega
      by_cases behind : 112 ≤ k
      · rw [Inode.getElem_encode_of_le behind whole, (plain stored).1 k behind below]
      · rw [Inode.getElem_encode_parse (by omega) whole, (readInode_cases read).2 k below]
    · exact (Prod.mk.inj (writeInode_of_not_stored small stored wrote)).2
  · intro inode written v' lba i wrote changed
    by_cases stored : v.Stored n
    · rw [writeInode_of_stored small stored] at wrote
      obtain ⟨-, rfl⟩ := Prod.mk.inj (Option.some.inj wrote)
      obtain ⟨k, below, lbaIs, iIs, differs⟩ := patched_changes (inside inode) changed
      refine ⟨k, ?_, lbaIs, iIs⟩
      by_contra behind
      rw [length_record small] at below
      refine differs ?_
      rw [List.getElem_take, Inode.getElem_encode_of_le (by omega),
        (plain stored).1 k (by omega) below]
    · obtain ⟨-, rfl⟩ := Prod.mk.inj (writeInode_of_not_stored small stored wrote)
      exact absurd rfl changed
  · intro inode v' typed wrote
    by_cases stored : v.Stored n
    · rw [writeInode_of_stored small stored] at wrote
      obtain ⟨-, rfl⟩ := Prod.mk.inj (Option.some.inj wrote)
      have place := recordPos_rewritten small (plain stored).1 (plain stored).2 inode
      obtain ⟨buf, read⟩ := readInode_of_located (small.rewritten n inode)
        (located_rewritten stored.located inode) (by rw [place]; exact stored.readable)
      refine ⟨buf, read, Inode.parse_eq typed ?_⟩
      have long : 112 ≤ v.super.inodeSize := by rcases small.size with size | size <;> omega
      refine List.ext_getElem (by simp [length_encode]) fun k below _ => ?_
      rw [Buffer.length_slice] at below
      have whole : k < inode.encode.length := by
        rw [length_encode]
        omega
      have byte := (readInode_cases read).2 k (Nat.lt_of_lt_of_le below long)
      rw [place, flat_rewritten_inside small n inode (by omega) whole] at byte
      rw [List.getElem_take, ← byte]
      simp [Buffer.slice]
    · cases writeInode_of_not_stored small stored wrote

/-- An inode that is found behind its own writing lies where its descriptor then points. -/
theorem moved_of_keepsRecord (small : v.SmallInodes) (keeps : v.KeepsRecord n)
    (stored : v.Stored n) (raw : Buffer) {k : Nat} (before : k < 112) :
    (v.rewritten n (Inode.parse raw)).flat
      ((v.rewritten n (Inode.parse raw)).recordPos n + k) = raw k := by
  have long : 112 ≤ v.super.inodeSize := by rcases small.size with size | size <;> omega
  obtain ⟨buf, read, same⟩ := keeps.back _ _ (Inode.typed_parse raw)
    (writeInode_of_stored small stored _)
  rw [← (readInode_cases read).2 k (Nat.lt_of_lt_of_le before long)]
  exact Inode.eq_of_parse_eq same before

theorem tailZero_of_keepsRecord (small : v.SmallInodes) (keeps : v.KeepsRecord n)
    (stored : v.Stored n) : v.TailZero n := by
  intro k behind below
  obtain ⟨buf, read⟩ := readInode_of_located small stored.located stored.readable
  have unchanged := keeps.same buf true _ read (writeInode_of_stored small stored _)
  have whole : k < (Inode.parse buf).encode.length := by
    rw [length_encode]
    rcases small.size with size | size <;> omega
  have byte := flat_rewritten_inside small n (Inode.parse buf) below whole
  rwa [unchanged, Inode.getElem_encode_of_le behind] at byte

theorem one_ne_self {byte : UInt8} (same : byte + 1 = byte) : False := by
  have numbers := congrArg UInt8.toNat same
  have := byte.toNat_lt
  rw [UInt8.toNat_add] at numbers
  change (byte.toNat + 1) % 256 = byte.toNat at numbers
  omega

/-- Equal numbers have equal bytes. -/
theorem byte_eq_of_number_eq {buf buf' : Buffer} {off len i : Nat} (below : i < len)
    (same : buf.number off len = buf'.number off len) : buf (off + i) = buf' (off + i) := by
  have slices := congrArg (fun number => Buffer.digits number len) same
  rw [Buffer.digits_number, Buffer.digits_number] at slices
  have bytes := congrArg (·[i]?) slices
  simpa [Buffer.slice, below] using bytes

theorem apart_of_keepsRecord (small : v.SmallInodes) (keeps : v.KeepsRecord n)
    (stored : v.Stored n) : v.FieldApart n := by
  have tail := tailZero_of_keepsRecord small keeps stored
  have long : 112 ≤ v.super.inodeSize := by rcases small.size with size | size <;> omega
  intro i inField k inRecord overlap
  -- The record with another byte `k`, which names another table.
  let raw : Buffer := fun j => if j = k then v.flat (v.recordPos n + k) + 1
    else v.flat (v.recordPos n + j)
  let moved := v.rewritten n (Inode.parse raw)
  have bytes (raw : Buffer) {j : Nat} (before : j < 112) :
      (v.rewritten n (Inode.parse raw)).flat (v.recordPos n + j) = raw j := by
    rw [flat_rewritten_inside small n _ (Nat.lt_of_lt_of_le before long)
      (by rw [length_encode]; omega), Inode.getElem_encode_parse before]
  have elsewhere : moved.flat.number (v.tableField n) 4 ≠ v.flat.number (v.tableField n) 4 := by
    intro same
    have byte := byte_eq_of_number_eq inField same
    rw [overlap, bytes raw inRecord] at byte
    exact one_ne_self ((if_pos rfl).symm.trans byte)
  -- A byte of the record that its block number does not reach.
  obtain ⟨j, jBefore, jOutside⟩ : ∃ j < 112, ∀ i < 4, v.tableField n + i ≠ v.recordPos n + j := by
    by_cases covered : v.tableField n ≤ v.recordPos n ∧ v.recordPos n < v.tableField n + 4
    · exact ⟨8, by decide, fun i below => by omega⟩
    · exact ⟨0, by decide, fun i below => by omega⟩
  let raw' : Buffer := fun l => if l = j then raw j + 1 else raw l
  let moved' := v.rewritten n (Inode.parse raw')
  have same : moved'.recordPos n = moved.recordPos n := by
    have table : moved'.flat.number (v.tableField n) 4 = moved.flat.number (v.tableField n) 4 := by
      refine Buffer.number_congr fun a above below => ?_
      by_cases outside : a < v.recordPos n ∨ v.recordPos n + 112 ≤ a
      · rw [flat_rewritten_tail small tail _ outside, flat_rewritten_tail small tail _ outside]
      · obtain ⟨l, rfl⟩ : ∃ l, a = v.recordPos n + l := ⟨a - v.recordPos n, by omega⟩
        rw [bytes raw' (by omega), bytes raw (by omega)]
        refine if_neg fun here => jOutside (v.recordPos n + l - v.tableField n) (by omega) ?_
        omega
    exact congrArg (fun table => table * v.blockSize +
      (n - 1) % v.super.inodesPerGroup * v.super.inodeSize) table
  have apart : moved.recordPos n + 112 ≤ v.recordPos n ∨
      v.recordPos n + v.super.inodeSize ≤ moved.recordPos n := by
    have block : 512 ≤ v.blockSize := Nat.le_of_dvd small.positive small.block
    have size : v.super.inodeSize ≤ 256 := by rcases small.size with size | size <;> omega
    have there : moved.recordPos n = moved.flat.number (v.tableField n) 4 * v.blockSize +
        (n - 1) % v.super.inodesPerGroup * v.super.inodeSize := rfl
    have here := v.recordPos_eq n
    rcases Nat.lt_or_gt_of_ne elsewhere with before | behind
    · have := Nat.mul_le_mul_right v.blockSize before
      rw [Nat.succ_mul] at this
      omega
    · have := Nat.mul_le_mul_right v.blockSize behind
      rw [Nat.succ_mul] at this
      omega
  have first := moved_of_keepsRecord small keeps stored raw jBefore
  have second := moved_of_keepsRecord small keeps stored raw' jBefore
  have outside : moved.recordPos n + j < v.recordPos n ∨
      v.recordPos n + v.super.inodeSize ≤ moved.recordPos n + j := by omega
  rw [flat_rewritten_outside small n _ outside] at first
  rw [show (v.rewritten n (Inode.parse raw')).recordPos n = moved.recordPos n from same,
    flat_rewritten_outside small n _ outside, first] at second
  exact one_ne_self (second.trans (if_pos rfl)).symm

end Volume

/-- The block size of a mounted volume is 1024 times a power of two. -/
theorem blockSize_of_accepted {sb : Buffer} {super : Super}
    (accepted : parseSuperblock sb = some (some super)) :
    512 ∣ super.blockSize ∧ 0 < super.blockSize := by
  rcases parseSuperblock_cases sb with ⟨-, refused⟩ | ⟨-, -, -, panics⟩ |
    ⟨-, -, -, parsed, same, block, -⟩
  · rw [refused] at accepted
    cases accepted
  · rw [panics] at accepted
    cases accepted
  · obtain rfl := Option.some.inj (Option.some.inj (accepted.symm.trans same))
    rw [Nat.shiftLeft_eq] at block
    rw [block]
    exact ⟨Nat.dvd_mul_right_of_dvd (by decide) _, Nat.mul_pos (by decide) (Nat.two_pow_pos _)⟩

theorem smallInodes_of_accepted {sb : Buffer} {super : Super}
    (accepted : parseSuperblock sb = some (some super))
    (size : super.inodeSize = 128 ∨ super.inodeSize = 256) (partBase : Nat) (disk : Disk) :
    (super.mounted partBase disk).SmallInodes :=
  ⟨(blockSize_of_accepted accepted).1, (blockSize_of_accepted accepted).2, size⟩

/-- `write_inode` keeps an inode's record and reads back as it was written exactly where, if the
record can be written, it holds nothing behind the fields and not its own table's number. -/
theorem keepsRecord_iff {sb : Buffer} {super : Super}
    (accepted : parseSuperblock sb = some (some super))
    (size : super.inodeSize = 128 ∨ super.inodeSize = 256) (partBase : Nat) (disk : Disk)
    (n : Nat) :
    (super.mounted partBase disk).KeepsRecord n ↔
      ((super.mounted partBase disk).Stored n →
        (super.mounted partBase disk).TailZero n ∧ (super.mounted partBase disk).FieldApart n) := by
  have small := smallInodes_of_accepted accepted size partBase disk
  constructor
  · intro keeps stored
    exact ⟨Volume.tailZero_of_keepsRecord small keeps stored,
      Volume.apart_of_keepsRecord small keeps stored⟩
  · exact Volume.keepsRecord_of_plain small

section Samples

/-- A superblock of a volume with blocks of 4 KiB and inodes of 256 bytes. -/
def largeInodes : Buffer :=
  (((Buffer.zero.put 56 [0x53, 0xEF]).put 24 [2]).put 40 [0, 1]).put 88 [0, 1]

def largeSuper : Super where
  inodesCount := 0
  blocksCount := 0
  firstDataBlock := 0
  blockSize := 4096
  blocksPerGroup := 0
  inodesPerGroup := 256
  inodeSize := 256
  numBlockGroups := 0
  descSize := 0

theorem largeInodes_accepted : parseSuperblock largeInodes = some (some largeSuper) := by
  decide +kernel

/-- The table is in block 3, and the first inode has an extra size of 32 behind its fields. -/
def extraSectors : Nat → Buffer
  | 8 => Buffer.zero.put 8 [3]
  | 24 => Buffer.zero.put 128 [32]
  | _ => Buffer.zero

def extraSized : Volume := largeSuper.mounted 0 { blankDisk with sectors := extraSectors }

/-- Writing that inode as it was read clears its extra size. -/
theorem extraSized_not_keepsRecord : ¬ extraSized.KeepsRecord 1 := by
  intro keeps
  have stored : extraSized.Stored 1 := ⟨by decide +kernel, rfl, rfl⟩
  have cleared := Volume.tailZero_of_keepsRecord
    (smallInodes_of_accepted largeInodes_accepted (.inr rfl) 0 _) keeps stored 128 (by decide)
    (by decide)
  exact absurd cleared (by decide +kernel)

theorem keepsRecord_iff_blank : (largeSuper.mounted 0 blankDisk).KeepsRecord 1 :=
  (keepsRecord_iff largeInodes_accepted (.inr rfl) 0 blankDisk 1).mpr fun _ =>
    ⟨fun _ _ _ => rfl, fun i _ k _ => by
      change 4096 + 0 * 32 + 8 + i ≠ 0 * 4096 + 0 * 256 + k
      omega⟩

end Samples

end DBSos.Ext4
