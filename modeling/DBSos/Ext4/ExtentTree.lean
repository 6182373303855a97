import DBSos.Lib.Tiling
import DBSos.Ext4.BlockMap

/-!
# The extent tree

A well-formed tree maps a block to a place in the extent that covers it. The driver goes down
to the first entry that is not below the block, where the entry in front of it would have the
block, and keeps the low 32 bits of every place.
-/

namespace DBSos.Ext4

open DBSos.Lib

/-- `Extent`. -/
structure Extent where
  block : Nat
  startLo : Nat
  startHi : Nat
  len : Nat
deriving DecidableEq

/-- `ExtIndex`. -/
structure ExtIndex where
  block : Nat
  startLo : Nat
  startHi : Nat
deriving DecidableEq

namespace Extent

variable (e : Extent)

/-- The 48-bit number of its first block on the disk. -/
def start : Nat := e.startHi * 2 ^ 32 + e.startLo

/-- The number that the driver puts together for it. -/
def packed : Nat := e.startHi <<< 16 ||| e.startLo

def stop : Nat := e.block + e.len

end Extent

namespace ExtIndex

variable (c : ExtIndex)

/-- The 48-bit number of the child's block. -/
def start : Nat := c.startHi * 2 ^ 32 + c.startLo

/-- The number that the driver puts together for it. -/
def packed : Nat := c.startHi <<< 16 ||| c.startLo

end ExtIndex

/-- The extent at an index of a leaf. -/
def extentAt (buf : Buffer) (i : Nat) : Extent where
  block := le32 buf (12 + i * 12)
  startLo := le32 buf (12 + i * 12 + 4)
  startHi := le16 buf (12 + i * 12 + 8)
  len := le16 buf (12 + i * 12 + 10)

/-- The entry at an index of an inner node. -/
def indexAt (buf : Buffer) (i : Nat) : ExtIndex where
  block := le32 buf (12 + i * 12)
  startLo := le32 buf (12 + i * 12 + 4)
  startHi := le16 buf (12 + i * 12 + 8)

/-- Where a list of extents has a block. -/
def mapped (extents : List Extent) (l : Nat) : Option Nat :=
  (covering Extent.block Extent.stop extents l).map fun e => e.start + (l - e.block)

namespace Volume

variable (v : Volume)

/-- The number of entries of a node. -/
def entries (blk : Nat) : Nat := le16 (v.content blk) 2

def leafExtents (blk : Nat) : List Extent :=
  (List.range (v.entries blk)).map (extentAt (v.content blk))

def children (blk : Nat) : List ExtIndex :=
  (List.range (v.entries blk)).map (indexAt (v.content blk))

/-- The extents of a tree, from left to right. -/
def extents : (depth blk : Nat) → List Extent
  | 0, blk => v.leafExtents blk
  | depth + 1, blk => (v.children blk).flatMap fun c => extents depth c.start

/-- The header of a node, with all its entries in the block. -/
structure Node (depth blk : Nat) : Prop where
  magic : le16 (v.content blk) 0 = 0xF30A
  depth : le16 (v.content blk) 6 = depth
  inside : 12 + v.entries blk * 12 ≤ v.blockSize

/-- The nodes of a tree; every entry has the number of the first block in its subtree. -/
def Formed : (depth blk : Nat) → Prop
  | 0, blk => v.Node 0 blk
  | depth + 1, blk => v.Node (depth + 1) blk ∧ ∀ c ∈ v.children blk, Formed depth c.start ∧
      (v.extents depth c.start).head?.map Extent.block = some c.block

/-- An extent tree with its extents in order and apart. -/
structure WellFormed (depth blk : Nat) : Prop where
  formed : v.Formed depth blk
  ordered : (v.extents depth blk).Pairwise (Apart Extent.block Extent.stop)

/-- The entry that the driver goes down to. -/
def chosen (l blk : Nat) : Option ExtIndex := firstNotBelow ExtIndex.block (v.children blk) l

/-- The entries that the driver goes down to have no high half. -/
def LowPath (l : Nat) : (depth blk : Nat) → Prop
  | 0, _ => True
  | depth + 1, blk =>
    ∀ c, v.chosen l blk = some c → c.startHi = 0 ∧ LowPath l depth c.start

/-- A block of the tree is not behind the start of a node that the driver goes down to, and its
place and the end of its extent are numbers of 32 bits. -/
def Straight (l : Nat) : (depth blk : Nat) → Prop
  | 0, blk => ∀ e ∈ v.leafExtents blk, Covers Extent.block Extent.stop l e →
      e.start + (l - e.block) < 2 ^ 32 ∧ e.stop < 2 ^ 32
  | depth + 1, blk => ∀ c, v.chosen l blk = some c →
      ((∃ e ∈ v.extents (depth + 1) blk, Covers Extent.block Extent.stop l e) → c.block ≤ l) ∧
        Straight l depth c.start

end Volume

/-! ## One node -/

namespace Volume

variable {buf : Buffer} {l : Nat}

/-- A leaf gives the place in the first extent that covers the block, and panics for one that
is not a number of 32 bits. -/
theorem leafLookup_eq (small : l < 2 ^ 32) {is : List Nat}
    (inside : ∀ i ∈ is, 12 + i * 12 + 12 ≤ bufferSize) :
    leafLookup buf l is =
      match covering Extent.block Extent.stop (is.map (extentAt buf)) l with
      | none => some none
      | some e =>
        if e.stop < 2 ^ 32 then (checked32 (e.packed + (l - e.block))).map some else none := by
  induction is with
  | nil => rfl
  | cons i rest ih =>
    have within : Ext4.within (12 + i * 12) 12 = some () :=
      if_pos (inside i List.mem_cons_self)
    have next := ih fun j member => inside j (List.mem_cons_of_mem _ member)
    rw [leafLookup, List.map_cons, covering, List.find?_cons]
    simp only [within, Option.bind_eq_bind, Option.bind_some]
    by_cases starts : le32 buf (12 + i * 12) ≤ l
    · rw [if_pos starts]
      by_cases fits : (extentAt buf i).stop < 2 ^ 32
      · have stop : checked32 (le32 buf (12 + i * 12) + le16 buf (12 + i * 12 + 10)) =
            some (extentAt buf i).stop := if_pos fits
        rw [stop, Option.bind_some]
        by_cases ends : l < (extentAt buf i).stop
        · have covers : Covers Extent.block Extent.stop l (extentAt buf i) := ⟨starts, ends⟩
          rw [if_pos ends, decide_eq_true covers]
          simp only [if_pos fits]
          exact Option.map_eq_bind.symm
        · have misses : ¬ Covers Extent.block Extent.stop l (extentAt buf i) :=
            fun covers => ends covers.2
          rw [if_neg ends, next, decide_eq_false misses]
          rfl
      · have panics : checked32 (le32 buf (12 + i * 12) + le16 buf (12 + i * 12 + 10)) = none :=
          if_neg fits
        -- an extent that goes past the last block number covers every later one
        have covers : Covers Extent.block Extent.stop l (extentAt buf i) :=
          ⟨starts, small.trans_le (Nat.not_lt.mp fits)⟩
        rw [panics, decide_eq_true covers]
        simp only [if_neg fits, Option.bind_none]
    · have misses : ¬ Covers Extent.block Extent.stop l (extentAt buf i) :=
        fun covers => starts covers.1
      rw [if_neg starts, next, decide_eq_false misses]
      rfl

theorem childNode_eq {n : Nat} (last : 12 + n * 12 ≤ bufferSize) {is : List Nat}
    (inside : ∀ i ∈ is, 12 + i * 12 + 12 ≤ bufferSize) :
    childNode buf l n is =
      some (((is.map (indexAt buf)).find? fun c => decide (l ≤ c.block)).or
        ((List.range n).map (indexAt buf)).getLast? |>.map ExtIndex.packed) := by
  induction is with
  | nil =>
    rw [childNode]
    cases n with
    | zero => rfl
    | succ n =>
      have within : Ext4.within (12 + n * 12) 12 = some () := if_pos (by omega)
      rw [if_pos (Nat.succ_pos n), List.range_succ, List.map_append]
      simp [within, indexAt, ExtIndex.packed]
  | cons i rest ih =>
    have within : Ext4.within (12 + i * 12) 12 = some () :=
      if_pos (inside i List.mem_cons_self)
    have next := ih fun j member => inside j (List.mem_cons_of_mem _ member)
    rw [childNode, List.map_cons, List.find?_cons]
    simp only [within, Option.bind_eq_bind, Option.bind_some]
    by_cases reaches : l ≤ le32 buf (12 + i * 12)
    · have decided : decide (l ≤ (indexAt buf i).block) = true := decide_eq_true reaches
      rw [if_pos reaches, decided]
      rfl
    · have decided : decide (l ≤ (indexAt buf i).block) = false := decide_eq_false reaches
      rw [if_neg reaches, next, decided]

end Volume

/-! ## The descent -/

namespace Volume

variable {v : Volume} {l depth left blk : Nat}

theorem le16_congr {buf buf' : Buffer} {off : Nat} (same : ∀ i < v.blockSize, buf i = buf' i)
    (inside : off + 2 ≤ v.blockSize) : le16 buf off = le16 buf' off :=
  Buffer.number_congr fun i _ below => same i (by omega)

theorem le32_congr {buf buf' : Buffer} {off : Nat} (same : ∀ i < v.blockSize, buf i = buf' i)
    (inside : off + 4 ≤ v.blockSize) : le32 buf off = le32 buf' off :=
  Buffer.number_congr fun i _ below => same i (by omega)

section Blocks

variable (reads : v.Reads) (size : MapSize v.blockSize)
include reads size

/-- A node is read as it is on the disk, as far as its entries go. -/
theorem readBlock_node (node : v.Node depth blk) :
    ∃ buf, v.readBlock blk = some (some buf) ∧ le16 buf 0 = 0xF30A ∧ le16 buf 6 = depth ∧
      le16 buf 2 = v.entries blk ∧ 12 + v.entries blk * 12 ≤ bufferSize ∧
      (List.range (v.entries blk)).map (extentAt buf) = v.leafExtents blk ∧
      (List.range (v.entries blk)).map (indexAt buf) = v.children blk := by
  have sector : 512 ≤ v.blockSize := by rcases size with size | size | size <;> omega
  have fits : v.blockSize ≤ bufferSize := by
    rcases size with size | size | size <;> rw [size] <;> decide
  obtain ⟨buf, read, same⟩ := readBlock_of_reads reads sector fits blk
  have inside := node.inside
  refine ⟨buf, read, ?_, ?_, ?_, inside.trans fits, ?_, ?_⟩
  · rw [le16_congr same (by omega), node.magic]
  · rw [le16_congr same (by omega), node.depth]
  · exact le16_congr same (by omega)
  · refine List.map_congr_left fun i member => ?_
    have below := List.mem_range.mp member
    simp only [extentAt]
    rw [le32_congr same (by omega), le32_congr same (by omega), le16_congr same (by omega),
      le16_congr same (by omega)]
  · refine List.map_congr_left fun i member => ?_
    have below := List.mem_range.mp member
    simp only [indexAt]
    rw [le32_congr same (by omega), le32_congr same (by omega), le16_congr same (by omega)]

theorem treeLookup_leaf (small : l < 2 ^ 32) (node : v.Node 0 blk) :
    v.treeLookup l (left + 1) blk =
      match covering Extent.block Extent.stop (v.leafExtents blk) l with
      | none => some none
      | some e =>
        if e.stop < 2 ^ 32 then (checked32 (e.packed + (l - e.block))).map some else none := by
  obtain ⟨buf, read, magic, leaf, entries, inside, extents, -⟩ := readBlock_node reads size node
  have room : ∀ i ∈ List.range (v.entries blk), 12 + i * 12 + 12 ≤ bufferSize := by
    intro i member
    have below := List.mem_range.mp member
    omega
  rw [treeLookup, read]
  simp only [Option.bind_eq_bind, Option.bind_some]
  rw [if_neg (not_not.mpr magic), if_pos leaf, entries, leafLookup_eq small room, extents]

theorem treeLookup_index (node : v.Node (depth + 1) blk) :
    v.treeLookup l (left + 1) blk =
      match v.chosen l blk with
      | none => some none
      | some c => v.treeLookup l left c.packed := by
  obtain ⟨buf, read, magic, inner, entries, inside, -, children⟩ := readBlock_node reads size node
  have room : ∀ i ∈ List.range (v.entries blk), 12 + i * 12 + 12 ≤ bufferSize := by
    intro i member
    have below := List.mem_range.mp member
    omega
  rw [treeLookup, read]
  simp only [Option.bind_eq_bind, Option.bind_some]
  rw [if_neg (not_not.mpr magic), if_neg (by omega), entries, childNode_eq inside room, children,
    Option.bind_some, chosen, firstNotBelow]
  cases ((v.children blk).find? fun c => decide (l ≤ c.block)).or (v.children blk).getLast? <;> rfl

end Blocks

end Volume

/-! ## Where the descent arrives -/

theorem Extent.packed_of_low {e : Extent} (low : e.startHi = 0) : e.packed = e.start := by
  simp [packed, start, low]

theorem ExtIndex.packed_of_low {c : ExtIndex} (low : c.startHi = 0) : c.packed = c.start := by
  simp [packed, start, low]

/-- The place that the driver computes in an extent is the right one exactly if it is a number
of 32 bits. -/
theorem Extent.place_iff (e : Extent) (d : Nat) :
    (if e.stop < 2 ^ 32 then (checked32 (e.packed + d)).map some else none) =
        some (some (e.start + d)) ↔
      e.start + d < 2 ^ 32 ∧ e.stop < 2 ^ 32 := by
  constructor
  · intro place
    split_ifs at place with fits
    obtain ⟨phys, checked, same⟩ := Option.map_eq_some_iff.mp place
    unfold checked32 at checked
    split_ifs at checked with inside
    have number : e.packed + d = e.start + d :=
      (Option.some.inj checked).trans (Option.some.inj same)
    exact ⟨number ▸ inside, fits⟩
  · rintro ⟨inside, fits⟩
    have low : e.startHi = 0 := by
      unfold start at inside
      omega
    rw [if_pos fits, Extent.packed_of_low low, checked32, if_pos inside]
    rfl

section Mapped

variable {extents : List Extent} {l : Nat}

theorem mapped_eq_none_iff :
    mapped extents l = none ↔ ∀ e ∈ extents, ¬ Covers Extent.block Extent.stop l e := by
  rw [mapped, Option.map_eq_none_iff, covering_eq_none_iff]

theorem mapped_of_covers (ordered : extents.Pairwise (Apart Extent.block Extent.stop)) {e : Extent}
    (member : e ∈ extents) (covers : Covers Extent.block Extent.stop l e) :
    mapped extents l = some (e.start + (l - e.block)) := by
  rw [mapped, (covering_eq_some_iff ordered).mpr ⟨member, covers⟩, Option.map_some]

end Mapped

namespace Volume

variable {v : Volume} {l depth left blk : Nat}

/-- Nothing is in the way of a block that no extent covers. -/
theorem straight_of_not_covers
    (hole : ∀ e ∈ v.extents depth blk, ¬ Covers Extent.block Extent.stop l e) :
    v.Straight l depth blk := by
  induction depth generalizing blk with
  | zero => exact fun e member covers => absurd covers (hole e member)
  | succ depth ih =>
    intro c taken
    refine ⟨fun ⟨e, member, covers⟩ => absurd covers (hole e member), ?_⟩
    refine ih fun e member => hole e ?_
    exact List.mem_flatMap.mpr ⟨c, mem_of_firstNotBelow taken, member⟩

theorem straight_succ_iff {c : ExtIndex} (taken : v.chosen l blk = some c) :
    v.Straight l (depth + 1) blk ↔
      ((∃ e ∈ v.extents (depth + 1) blk, Covers Extent.block Extent.stop l e) → c.block ≤ l) ∧
        v.Straight l depth c.start := by
  constructor
  · exact fun straight => straight c taken
  · intro both other also
    obtain rfl := Option.some.inj (taken.symm.trans also)
    exact both

/-- Where no entry on the way has a high half, the answer is right exactly if the way is
straight. -/
theorem treeLookup_eq_iff (reads : v.Reads) (size : MapSize v.blockSize) (small : l < 2 ^ 32)
    (formed : v.Formed depth blk)
    (ordered : (v.extents depth blk).Pairwise (Apart Extent.block Extent.stop))
    (low : v.LowPath l depth blk) (room : depth < left) :
    v.treeLookup l left blk = some (mapped (v.extents depth blk) l) ↔ v.Straight l depth blk := by
  induction depth generalizing blk left with
  | zero =>
    obtain ⟨left, rfl⟩ := Nat.exists_eq_add_of_lt room
    rw [Nat.zero_add, treeLookup_leaf reads size small formed, mapped]
    change _ = some (Option.map _ (covering _ _ (v.leafExtents blk) l)) ↔ _
    cases found : covering Extent.block Extent.stop (v.leafExtents blk) l with
    | none =>
      exact iff_of_true rfl (straight_of_not_covers (covering_eq_none_iff.mp found))
    | some e =>
      obtain ⟨member, covers⟩ := (covering_eq_some_iff ordered).mp found
      refine (e.place_iff _).trans ⟨?_, fun straight => straight e member covers⟩
      intro fits other there also
      rwa [eq_of_covers ordered there member also covers]
  | succ depth ih =>
    obtain ⟨left, rfl⟩ := Nat.exists_eq_add_of_lt (Nat.zero_lt_of_lt room)
    rw [Nat.zero_add] at room ⊢
    obtain ⟨node, subtrees⟩ := formed
    rw [treeLookup_index reads size node]
    cases taken : v.chosen l blk with
    | none =>
      have empty : v.children blk = [] := firstNotBelow_eq_none_iff.mp taken
      have hole : ∀ e ∈ v.extents (depth + 1) blk, ¬ Covers Extent.block Extent.stop l e := by
        intro e member
        rw [extents, empty] at member
        cases member
      rw [mapped_eq_none_iff.mpr hole]
      exact iff_of_true rfl (straight_of_not_covers hole)
    | some c =>
      have child : c ∈ v.children blk := mem_of_firstNotBelow taken
      obtain ⟨subtree, headed⟩ := subtrees c child
      obtain ⟨first, head, number⟩ := Option.map_eq_some_iff.mp headed
      obtain ⟨rest, listed⟩ := List.head?_eq_some_iff.mp head
      have apart : (v.extents depth c.start).Pairwise (Apart Extent.block Extent.stop) :=
        (List.pairwise_flatMap.mp ordered).1 c child
      obtain ⟨lowEntry, lowBelow⟩ := low c taken
      have descends := ih subtree apart lowBelow (Nat.lt_of_succ_lt_succ room)
      change v.treeLookup l left c.packed = _ ↔ _
      rw [ExtIndex.packed_of_low lowEntry, straight_succ_iff taken]
      by_cases covered : ∃ e ∈ v.extents (depth + 1) blk, Covers Extent.block Extent.stop l e
      · obtain ⟨e, member, covers⟩ := covered
        by_cases starts : c.block ≤ l
        · have inside : e ∈ v.extents depth c.start :=
            mem_group_of_covers (fun c => v.extents depth c.start) ordered
              ⟨first, rest, listed, number⟩ taken starts member covers
          rw [mapped_of_covers ordered member covers, ← mapped_of_covers apart inside covers,
            descends]
          exact (and_iff_right fun _ => starts).symm
        · -- the subtree starts behind the block, so that nothing is found in it
          have hole : ∀ e ∈ v.extents depth c.start, ¬ Covers Extent.block Extent.stop l e :=
            fun e inside => not_covers_of_lt (fun c => v.extents depth c.start) apart
              ⟨first, rest, listed, number⟩ (Nat.not_le.mp starts) inside
          rw [descends.mpr (straight_of_not_covers hole), mapped_eq_none_iff.mpr hole,
            mapped_of_covers ordered member covers]
          exact iff_of_false (fun same => nomatch Option.some.inj same)
            fun straight => starts (straight.1 ⟨e, member, covers⟩)
      · have none : ∀ e ∈ v.extents (depth + 1) blk, ¬ Covers Extent.block Extent.stop l e :=
          fun e member covers => covered ⟨e, member, covers⟩
        have hole : ∀ e ∈ v.extents depth c.start, ¬ Covers Extent.block Extent.stop l e :=
          fun e inside => none e (List.mem_flatMap.mpr ⟨c, child, inside⟩)
        have straight := straight_of_not_covers hole
        rw [descends.mpr straight, mapped_eq_none_iff.mpr hole, mapped_eq_none_iff.mpr none]
        exact iff_of_true rfl ⟨fun there => absurd there covered, straight⟩

/-- In a well-formed tree a block is looked up right where no entry on the way has a high half
and the way is straight; and behind entries without a high half only there. -/
theorem treeLookup_mapped_iff {root : Nat} (reads : v.Reads) (size : MapSize v.blockSize)
    (shallow : depth ≤ 5) (wellFormed : v.WellFormed depth root) (small : l < 2 ^ 32) :
    (v.LowPath l depth root ∧ v.Straight l depth root →
      v.treeLookup l 6 root = some (mapped (v.extents depth root) l)) ∧
    (v.LowPath l depth root →
      v.treeLookup l 6 root = some (mapped (v.extents depth root) l) → v.Straight l depth root) := by
  have looked : v.LowPath l depth root → (v.treeLookup l 6 root = _ ↔ v.Straight l depth root) :=
    fun low => treeLookup_eq_iff reads size small wellFormed.formed wellFormed.ordered low
      (Nat.lt_succ_of_le shallow)
  exact ⟨fun way => (looked way.1).mpr way.2, fun low => (looked low).mp⟩

/-! ## A tree of two leaves -/

instance (depth blk : Nat) : Decidable (v.Node depth blk) :=
  decidable_of_iff (le16 (v.content blk) 0 = 0xF30A ∧ le16 (v.content blk) 6 = depth ∧
      12 + v.entries blk * 12 ≤ v.blockSize)
    ⟨fun ⟨magic, depth, inside⟩ => ⟨magic, depth, inside⟩,
      fun node => ⟨node.magic, node.depth, node.inside⟩⟩

instance decidableFormed (v : Volume) : (depth blk : Nat) → Decidable (v.Formed depth blk)
  | 0, blk => inferInstanceAs (Decidable (v.Node 0 blk))
  | depth + 1, blk =>
    have _ := decidableFormed v depth
    inferInstanceAs (Decidable (_ ∧ ∀ c ∈ v.children blk, _ ∧ _))

instance decidableLowPath (v : Volume) (l : Nat) :
    (depth blk : Nat) → Decidable (v.LowPath l depth blk)
  | 0, _ => inferInstanceAs (Decidable True)
  | depth + 1, blk =>
    have _ := decidableLowPath v l depth
    inferInstanceAs (Decidable (∀ c ∈ v.chosen l blk, _ ∧ _))

instance decidableStraight (v : Volume) (l : Nat) :
    (depth blk : Nat) → Decidable (v.Straight l depth blk)
  | 0, blk => inferInstanceAs (Decidable (∀ e ∈ v.leafExtents blk, _ → _ ∧ _))
  | depth + 1, blk =>
    have _ := decidableStraight v l depth
    inferInstanceAs (Decidable (∀ c ∈ v.chosen l blk, (_ → _) ∧ _))

/-- The words of a node with entries of three words. -/
def nodeWords (depth : Nat) (words : List Nat) : List Nat :=
  [0xF30A + words.length / 3 * 2 ^ 16, depth * 2 ^ 16, 0] ++ words

/-- Blocks 0 to 63 are at 1000, and blocks 100 to 149 at 2000. -/
def twoLeaves : Volume :=
  ofEntries 1024 fun blk idx =>
    (match blk with
      | 10 => nodeWords 1 [0, 11, 0, 100, 12, 0]
      | 11 => nodeWords 0 [0, 1000, 64 * 2 ^ 16]
      | 12 => nodeWords 0 [100, 2000, 50 * 2 ^ 16]
      | _ => []).getD idx 0

theorem twoLeaves_wellFormed : twoLeaves.WellFormed 1 10 := ⟨by decide +kernel, by decide +kernel⟩

/-- Block 120 is behind the last entry, and found. -/
theorem behind_last_found : twoLeaves.treeLookup 120 6 10 = some (some 2020) := by
  have place : mapped (twoLeaves.extents 1 10) 120 = some 2020 := by decide +kernel
  rw [← place]
  exact (treeLookup_mapped_iff (ofEntries_reads _ _) (.inl rfl) (by decide) twoLeaves_wellFormed
    (by decide)).1 (by decide +kernel)

/-- Block 50 is between the entries: the driver looks for it in the second leaf, and finds
nothing. -/
theorem between_entries_lost : ¬ ∀ (v : Volume) (depth root l : Nat), v.Reads →
    MapSize v.blockSize → depth ≤ 5 → v.WellFormed depth root → l < 2 ^ 32 →
    v.treeLookup l 6 root = some (mapped (v.extents depth root) l) := by
  intro claim
  have same := claim twoLeaves 1 10 50 (ofEntries_reads _ _) (.inl rfl) (by decide)
    twoLeaves_wellFormed (by decide)
  have lost : twoLeaves.treeLookup 50 6 10 = some none := by decide +kernel
  have place : mapped (twoLeaves.extents 1 10) 50 = some 1050 := by decide +kernel
  rw [lost, place] at same
  cases same

end Volume

end DBSos.Ext4
