import DBSos.Lib.Pointers
import DBSos.Ext4.Inode

/-!
# The classic block map

Twelve direct pointers, then trees of pointers of one, two and three levels. Past a tree
whose root is 0 the driver does not count the tree's blocks off, so that everything behind
the hole is looked up in the wrong place.
-/

namespace DBSos.Ext4

open DBSos.Lib

namespace Volume

variable (v : Volume)

/-- Every transfer of the volume succeeds. -/
structure Reads : Prop where
  hasPage : v.disk.hasPage = true
  readable : ∀ lba, v.disk.readable lba = true

/-- The bytes of a block on the disk. -/
def content (blk : Nat) : Buffer := fun i => v.disk.sectors (v.blockLba blk + i / 512) (i % 512)

/-- A pointer in a block of pointers. -/
def entry (blk idx : Nat) : Nat := le32 (v.content blk) (idx * 4)

end Volume

/-- The block sizes in use. -/
def MapSize (size : Nat) : Prop := size = 1024 ∨ size = 2048 ∨ size = 4096

/-- The indices of a place in a tree of two levels, with `per` pointers in a block. -/
def doubleIndices (per r : Nat) : List Nat := [r / per, r % per]

/-- The indices of a place in a tree of three levels. -/
def tripleIndices (per r : Nat) : List Nat := [r / per ^ 2, r % per ^ 2 / per, r % per]

section Paths

variable (per : Nat) (inode : Inode) (logical : Nat)

/-- The pointer that the classic map starts from for a logical block, and the indices that it
follows. -/
def classicPath : Option (Nat × List Nat) :=
  if direct : logical < 12 then some (inode.block ⟨logical, Volume.direct_lt direct⟩, [])
  else
    let r := logical - 12
    if r < per then some (inode.block 12, [r])
    else if r - per < per ^ 2 then some (inode.block 13, doubleIndices per (r - per))
    else if r - per - per ^ 2 < per ^ 3 then
      some (inode.block 14, tripleIndices per (r - per - per ^ 2))
    else none

/-- `remaining` behind the single indirect blocks. -/
def remaining1 : Nat := if inode.block 12 ≠ 0 then logical - 12 - per else logical - 12

/-- `remaining` behind the double indirect blocks. -/
def remaining2 : Nat :=
  if inode.block 13 ≠ 0 then remaining1 per inode logical - per ^ 2
  else remaining1 per inode logical

/-- The path that the driver takes behind the direct pointers. -/
def driverPath : Option (Nat × List Nat) :=
  if inode.block 12 ≠ 0 ∧ logical - 12 < per then some (inode.block 12, [logical - 12])
  else if inode.block 13 ≠ 0 ∧ remaining1 per inode logical < per ^ 2 then
    some (inode.block 13, doubleIndices per (remaining1 per inode logical))
  else if inode.block 14 ≠ 0 ∧ remaining2 per inode logical < per ^ 3 then
    some (inode.block 14, tripleIndices per (remaining2 per inode logical))
  else none

end Paths

namespace Volume

variable {v : Volume}

/-- Where a path arrives. -/
def arrive (v : Volume) (path : Option (Nat × List Nat)) : Option Nat :=
  path.bind fun (root, indices) => walk v.entry indices root

/-- The block of the classic map. -/
def classicMap (v : Volume) (inode : Inode) (logical : Nat) : Option Nat :=
  v.arrive (classicPath (v.blockSize / 4) inode logical)

theorem readBlock_of_reads (reads : v.Reads) (sector : 512 ≤ v.blockSize)
    (fits : v.blockSize ≤ bufferSize) (blk : Nat) :
    ∃ buf, v.readBlock blk = some (some buf) ∧ ∀ i < v.blockSize, buf i = v.content blk i := by
  have transfer : v.disk.readSectors (v.blockLba blk) (v.blockSize / 512) =
      some fun i => v.disk.sectors (v.blockLba blk + i / 512) (i % 512) := by
    refine if_pos ⟨?_, fun i _ => reads.readable _⟩
    have positive := Nat.div_pos sector (by decide)
    omega
  refine ⟨fun i => if i < v.blockSize then v.content blk i else 0, ?_, fun i inside => if_pos inside⟩
  rw [readBlock, if_pos reads.hasPage, if_pos fits, transfer, Option.map_some]
  rfl

theorem pointer_of_reads (reads : v.Reads) (sector : 512 ≤ v.blockSize)
    (fits : v.blockSize ≤ bufferSize) {idx : Nat} (inside : idx < v.blockSize / 4) (blk : Nat) :
    v.pointer blk idx = some (some (v.entry blk idx)) := by
  obtain ⟨buf, read, same⟩ := readBlock_of_reads reads sector fits blk
  have within : Ext4.within (idx * 4) 4 = some () := if_pos (by omega)
  have number : le32 buf (idx * 4) = v.entry blk idx :=
    Buffer.number_congr fun i above below => same i (by omega)
  rw [pointer, read]
  simp only [Option.bind_eq_bind, Option.bind_some, within, number]

/-- The driver's walk behind a pointer that is not 0. -/
theorem follow_of_reads (reads : v.Reads) (sector : 512 ≤ v.blockSize)
    (fits : v.blockSize ≤ bufferSize) {path : List Nat}
    (inside : ∀ i ∈ path, i < v.blockSize / 4) {blk : Nat} (nonzero : blk ≠ 0) :
    v.follow blk path = some (walk v.entry path blk) := by
  induction path generalizing blk with
  | nil => rw [follow, walk, if_neg nonzero]
  | cons i rest ih =>
    rw [follow, pointer_of_reads reads sector fits (inside i List.mem_cons_self), walk,
      if_neg nonzero]
    simp only [Option.bind_eq_bind, Option.bind_some]
    split_ifs with zero
    · rw [zero, walk_zero]
    · exact ih (fun j member => inside j (List.mem_cons_of_mem _ member)) zero

end Volume

section Paths

variable {per logical root r : Nat} {inode : Inode} {indices : List Nat}

theorem length_doubleIndices (per r : Nat) : (doubleIndices per r).length = 2 := rfl

theorem length_tripleIndices (per r : Nat) : (tripleIndices per r).length = 3 := rfl

theorem doubleIndices_lt (positive : 0 < per) (below : r < per ^ 2) :
    ∀ i ∈ doubleIndices per r, i < per := by
  have first : r / per < per := by
    rw [Nat.div_lt_iff_lt_mul positive, ← Nat.pow_two]
    exact below
  simpa [doubleIndices, first] using Nat.mod_lt r positive

theorem tripleIndices_lt (positive : 0 < per) (below : r < per ^ 3) :
    ∀ i ∈ tripleIndices per r, i < per := by
  have squared : 0 < per ^ 2 := Nat.pow_pos positive
  have first : r / per ^ 2 < per := by
    rw [Nat.div_lt_iff_lt_mul squared, Nat.mul_comm, ← Nat.pow_succ]
    exact below
  have second : r % per ^ 2 / per < per := by
    rw [Nat.div_lt_iff_lt_mul positive, ← Nat.pow_two]
    exact Nat.mod_lt _ squared
  simpa [tripleIndices, first, second] using Nat.mod_lt r positive

/-- The driver's walks start from a pointer that is not 0, and stay inside the blocks. -/
theorem driverPath_some (positive : 0 < per)
    (path : driverPath per inode logical = some (root, indices)) :
    root ≠ 0 ∧ indices.length ≤ 3 ∧ ∀ i ∈ indices, i < per := by
  unfold driverPath at path
  split_ifs at path with single double triple <;>
    obtain ⟨rfl, rfl⟩ := Prod.mk.inj (Option.some.inj path)
  · exact ⟨single.1, Nat.le_add_left 1 2, by simpa using single.2⟩
  · exact ⟨double.1, by rw [length_doubleIndices]; decide, doubleIndices_lt positive double.2⟩
  · exact ⟨triple.1, (length_tripleIndices _ _).le, tripleIndices_lt positive triple.2⟩

end Paths

namespace Volume

variable {v : Volume} {inode : Inode} {inodeBuf : Buffer} {logical : Nat}

theorem indirectLookup_of_reads (reads : v.Reads) (size : MapSize v.blockSize) :
    v.indirectLookup inode logical = some (v.arrive (driverPath (v.blockSize / 4) inode logical)) := by
  have sector : 512 ≤ v.blockSize := by rcases size with size | size | size <;> omega
  have fits : v.blockSize ≤ bufferSize := by
    rcases size with size | size | size <;> rw [size] <;> decide
  have positive : 0 < v.blockSize / 4 := by omega
  have cube : checked32 ((v.blockSize / 4) ^ 2 * (v.blockSize / 4)) =
      some ((v.blockSize / 4) ^ 3) := by
    rcases size with size | size | size <;> rw [size] <;> rfl
  have goes : ∀ root indices, driverPath (v.blockSize / 4) inode logical = some (root, indices) →
      v.follow root indices = some (v.arrive (driverPath (v.blockSize / 4) inode logical)) := by
    intro root indices path
    obtain ⟨nonzero, -, inside⟩ := driverPath_some positive path
    rw [path, follow_of_reads reads sector fits inside nonzero]
    rfl
  have searches : v.indirectLookup inode logical =
      match driverPath (v.blockSize / 4) inode logical with
      | some (root, indices) => v.follow root indices
      | none => some none := by
    unfold indirectLookup driverPath doubleIndices tripleIndices remaining2 remaining1
    simp only [← Nat.pow_two, cube, Option.bind_eq_bind, Option.bind_some]
    split_ifs <;> first | rfl | omega
  rw [searches]
  cases path : driverPath (v.blockSize / 4) inode logical with
  | none => rfl
  | some found =>
    have arrives := goes found.1 found.2 path
    rwa [path] at arrives

/-- The driver's search of a file that is not kept in extents. -/
theorem extentLookup_of_reads (reads : v.Reads) (size : MapSize v.blockSize)
    (plain : (Inode.parse inodeBuf).flags &&& 1 <<< 14 = 0)
    (below : logical * v.blockSize < (Inode.parse inodeBuf).size) :
    v.extentLookup inodeBuf logical = some
      (if logical < 12 then v.classicMap (Inode.parse inodeBuf) logical
        else v.arrive (driverPath (v.blockSize / 4) (Inode.parse inodeBuf) logical)) := by
  have more : ¬ (Inode.parse inodeBuf).size ≤ logical * v.blockSize := Nat.not_le.mpr below
  unfold extentLookup
  dsimp only
  rw [if_neg more, if_neg (not_not.mpr plain)]
  by_cases direct : logical < 12
  · rw [dif_pos direct, if_pos direct, classicMap, classicPath, dif_pos direct]
    rfl
  · rw [dif_neg direct, if_neg direct]
    exact indirectLookup_of_reads reads size

end Volume

/-! ## Holes -/

/-- The pointers to trees of one, two and three levels. -/
def Inode.indirect (inode : Inode) (n : Fin 3) : Nat := inode.block ⟨12 + n.val, by omega⟩

/-- The tree that the classic map has a logical block in: 0 for a direct one, 4 for one behind
the end of the map. -/
def level (per logical : Nat) : Nat :=
  if logical < 12 then 0
  else if logical - 12 < per then 1
  else if logical - 12 - per < per ^ 2 then 2
  else if logical - 12 - per - per ^ 2 < per ^ 3 then 3
  else 4

/-- The pointers to all trees up to a block's are set, or those from the block's on are 0. -/
def Unshifted (per : Nat) (inode : Inode) (logical : Nat) : Prop :=
  (∀ n : Fin 3, n.val < level per logical → inode.indirect n ≠ 0) ∨
    ∀ n : Fin 3, level per logical ≤ n.val + 1 → inode.indirect n = 0

section Paths

variable {per logical : Nat} {inode : Inode}

theorem classicPath_indirect (behind : ¬ logical < 12) :
    classicPath per inode logical =
      if logical - 12 < per then some (inode.block 12, [logical - 12])
      else if logical - 12 - per < per ^ 2 then
        some (inode.block 13, doubleIndices per (logical - 12 - per))
      else if logical - 12 - per - per ^ 2 < per ^ 3 then
        some (inode.block 14, tripleIndices per (logical - 12 - per - per ^ 2))
      else none := dif_neg behind

/-- With every pointer up to its tree set, a block is looked up in its place. -/
theorem driverPath_of_set (behind : ¬ logical < 12)
    (set : ∀ n : Fin 3, n.val < level per logical → inode.indirect n ≠ 0) :
    driverPath per inode logical = classicPath per inode logical := by
  have single : 1 ≤ level per logical → inode.block 12 ≠ 0 := set 0
  have double : 2 ≤ level per logical → inode.block 13 ≠ 0 := set 1
  have triple : 3 ≤ level per logical → inode.block 14 ≠ 0 := set 2
  rw [classicPath_indirect behind, driverPath, remaining2, remaining1]
  unfold level at single double triple
  rw [if_neg behind] at single double triple
  by_cases one : logical - 12 < per
  · rw [if_pos one] at single ⊢
    rw [if_pos ⟨single le_rfl, one⟩]
  rw [if_neg one] at single double triple ⊢
  have first : inode.block 12 ≠ 0 := single (by split_ifs <;> decide)
  rw [if_neg fun both => one both.2, if_pos first]
  by_cases two : logical - 12 - per < per ^ 2
  · rw [if_pos two] at double ⊢
    rw [if_pos ⟨double le_rfl, two⟩]
  rw [if_neg two] at double triple ⊢
  have second : inode.block 13 ≠ 0 := double (by split_ifs <;> decide)
  rw [if_neg fun both => two both.2, if_pos second]
  by_cases three : logical - 12 - per - per ^ 2 < per ^ 3
  · rw [if_pos three] at triple ⊢
    rw [if_pos ⟨triple le_rfl, three⟩]
  · rw [if_neg three, if_neg fun both => three both.2]

theorem le_remaining1 (per : Nat) (inode : Inode) (logical : Nat) :
    logical - 12 - per ≤ remaining1 per inode logical := by
  unfold remaining1
  split_ifs <;> omega

theorem le_remaining2 (per : Nat) (inode : Inode) (logical : Nat) :
    logical - 12 - per - per ^ 2 ≤ remaining2 per inode logical := by
  have first := le_remaining1 per inode logical
  unfold remaining2
  split_ifs <;> omega

/-- With every pointer from its tree on 0, a block is not looked up at all. -/
theorem driverPath_of_unset (behind : ¬ logical < 12)
    (unset : ∀ n : Fin 3, level per logical ≤ n.val + 1 → inode.indirect n = 0) :
    driverPath per inode logical = none := by
  have single : level per logical ≤ 1 → inode.block 12 = 0 := unset 0
  have double : level per logical ≤ 2 → inode.block 13 = 0 := unset 1
  have triple : level per logical ≤ 3 → inode.block 14 = 0 := unset 2
  have first := le_remaining1 per inode logical
  have second := le_remaining2 per inode logical
  unfold level at single double triple
  rw [if_neg behind] at single double triple
  unfold driverPath
  rw [if_neg, if_neg, if_neg]
  · rintro ⟨set, below⟩
    refine set (triple ?_)
    split_ifs <;> omega
  · rintro ⟨set, below⟩
    refine set (double ?_)
    split_ifs <;> omega
  · rintro ⟨set, below⟩
    refine set (single ?_)
    split_ifs
    omega

end Paths

namespace Volume

variable {v : Volume} {inode : Inode} {per logical : Nat}

theorem arrive_zero (v : Volume) (indices : List Nat) : v.arrive (some (0, indices)) = none :=
  walk_zero indices

/-- Where the pointer to its tree is 0, a block has no place. -/
theorem arrive_classicPath_of_unset (behind : ¬ logical < 12)
    (unset : ∀ n : Fin 3, level per logical ≤ n.val + 1 → inode.indirect n = 0) :
    v.arrive (classicPath per inode logical) = none := by
  have single : level per logical ≤ 1 → inode.block 12 = 0 := unset 0
  have double : level per logical ≤ 2 → inode.block 13 = 0 := unset 1
  have triple : level per logical ≤ 3 → inode.block 14 = 0 := unset 2
  unfold level at single double triple
  rw [if_neg behind] at single double triple
  rw [classicPath_indirect behind]
  split_ifs with one two three
  · rw [single (by rw [if_pos one]), arrive_zero]
  · rw [double (by rw [if_neg one, if_pos two]), arrive_zero]
  · rw [triple (by rw [if_neg one, if_neg two, if_pos three]), arrive_zero]
  · rfl

/-- Where nothing is shifted, the driver's path leads where the classic one does. -/
theorem arrive_driverPath (behind : ¬ logical < 12) (unshifted : Unshifted per inode logical) :
    v.arrive (driverPath per inode logical) = v.arrive (classicPath per inode logical) := by
  rcases unshifted with set | unset
  · rw [driverPath_of_set behind set]
  · rw [driverPath_of_unset behind unset, arrive_classicPath_of_unset behind unset]
    rfl

/-! ## A volume for every shift -/

/-- A volume whose blocks hold these pointers. -/
def ofEntries (size : Nat) (entries : Nat → Nat → Nat) : Volume where
  valid := true
  super :=
    { inodesCount := 0
      blocksCount := 0
      firstDataBlock := 0
      blockSize := size
      blocksPerGroup := 0
      inodesPerGroup := 0
      inodeSize := 0
      numBlockGroups := 0
      descSize := 0 }
  partBase := 0
  disk :=
    { sectors := fun lba i =>
        let at' := lba % (size / 512) * 512 + i
        UInt8.ofNat (entries (lba / (size / 512)) (at' / 4) / 256 ^ (at' % 4))
      readable := fun _ => true
      writable := fun _ => true
      hasPage := true }

theorem ofEntries_reads (size : Nat) (entries : Nat → Nat → Nat) : (ofEntries size entries).Reads :=
  ⟨rfl, fun _ => rfl⟩

theorem entry_ofEntries {size : Nat} (mapSize : MapSize size) {entries : Nat → Nat → Nat}
    {blk idx : Nat} (inside : idx < size / 4) (small : entries blk idx < 2 ^ 32) :
    (ofEntries size entries).entry blk idx = entries blk idx := by
  refine Buffer.number_of_digits small fun i below => ?_
  have sectors : (idx * 4 + i) / 512 < size / 512 := by
    rcases mapSize with rfl | rfl | rfl <;> omega
  have positive : 0 < size / 512 := by omega
  simp only [content, ofEntries, blockLba, blockSize, Nat.zero_add]
  rw [Nat.mul_comm blk, Nat.mul_add_div positive, Nat.mul_add_mod, Nat.div_eq_of_lt sectors,
    Nat.mod_eq_of_lt sectors, Nat.add_zero, Nat.div_add_mod']
  congr 3
  · omega
  · omega

/-- Blocks for a chain of at most three links that starts from `root` and meets `avoid` nowhere
else. -/
theorem exists_node {root : Nat} (nonzero : root ≠ 0) (small : root < 2 ^ 32) (avoid : Nat) :
    ∃ node : Nat → Nat, node 0 = root ∧ (∀ p ≤ 3, node p ≠ 0 ∧ node p < 2 ^ 32) ∧
      (∀ p ≤ 3, ∀ q ≤ 3, node p = node q → p = q) ∧ ∀ p ≤ 3, p ≠ 0 → node p ≠ avoid := by
  obtain ⟨x, few, apart⟩ : ∃ x ≤ 6, ∀ p, 1 ≤ p → p ≤ 3 → x + p ≠ root ∧ x + p ≠ avoid := by
    by_cases first : (1 ≤ root ∧ root ≤ 3) ∨ (1 ≤ avoid ∧ avoid ≤ 3)
    · by_cases second : (4 ≤ root ∧ root ≤ 6) ∨ (4 ≤ avoid ∧ avoid ≤ 6)
      · exact ⟨6, le_rfl, fun p above below => by omega⟩
      · exact ⟨3, by decide, fun p above below => by omega⟩
    · exact ⟨0, by decide, fun p above below => by omega⟩
  refine ⟨fun p => if p = 0 then root else x + p, rfl, fun p below => ?_, ?_, fun p below later => ?_⟩
  · dsimp only
    split_ifs <;> omega
  · intro p belowP q belowQ same
    dsimp only at same
    have atP := apart p
    have atQ := apart q
    split_ifs at same <;> omega
  · dsimp only
    rw [if_neg later]
    exact (apart p (by omega) below).2

/-- A volume in which one walk arrives, every other of its length from the same block does not,
and neither does any that starts with another index, from the same block or a given one. -/
theorem exists_chain {size root : Nat} {indices : List Nat} (mapSize : MapSize size)
    (nonzero : root ≠ 0) (small : root < 2 ^ 32) (short : indices.length ≤ 3)
    (inside : ∀ i ∈ indices, i < size / 4) (avoid : Nat) :
    ∃ v : Volume, v.blockSize = size ∧ v.Reads ∧ v.arrive (some (root, indices)) ≠ none ∧
      (∀ other, other.length = indices.length → other ≠ indices → (∀ i ∈ other, i < size / 4) →
        v.arrive (some (root, other)) = none) ∧
      ∀ i rest, (∀ j ∈ i :: rest, j < size / 4) → indices.head? ≠ some i →
        v.arrive (some (avoid, i :: rest)) = none := by
  obtain ⟨node, start, proper, injective, avoids⟩ := exists_node nonzero small avoid
  have links : Links node indices :=
    ⟨fun p below => (proper p (below.trans short)).1,
      fun p belowP q belowQ => injective p (belowP.trans short) q (belowQ.trans short)⟩
  have pointers : ∀ b i, chain node indices b i < 2 ^ 32 := by
    intro b i
    by_cases found : ∃ p < indices.length, node p = b
    · obtain ⟨p, below, rfl⟩ := found
      rw [chain_node links below]
      split_ifs
      · exact (proper (p + 1) (by omega)).2
      · decide
    · rw [chain_of_apart fun p below same => absurd ⟨p, below, same⟩ found]
      decide
  have walks : ∀ root path, (∀ i ∈ path, i < size / 4) →
      (ofEntries size (chain node indices)).arrive (some (root, path)) =
        walk (chain node indices) path root := by
    intro root path inside
    exact walk_congr (fun i member b => entry_ofEntries mapSize (inside i member) (pointers b i)) root
  refine ⟨ofEntries size (chain node indices), rfl, ofEntries_reads _ _, ?_, ?_, ?_⟩
  · rw [walks root indices inside, ← start, walk_chain links (Nat.zero_add _), List.drop_zero,
      if_pos rfl]
    exact Option.some_ne_none _
  · intro other length apart inside
    rw [walks root other inside, ← start, walk_chain links (by omega), List.drop_zero, if_neg apart]
  · intro i rest inside head
    rw [walks avoid (i :: rest) inside, walk, chain_of_apart]
    · rw [walk_zero, ite_self]
    · intro p below same here
      by_cases first : p = 0
      · subst first
        rw [← List.head?_eq_getElem?] at here
        exact head here
      · exact avoids p (by omega) first same

/-- The driver goes somewhere, and the classic map nowhere. -/
theorem exists_stray {size : Nat} (mapSize : MapSize size) (pointers : ∀ n, inode.block n < 2 ^ 32)
    (goes : driverPath (size / 4) inode logical ≠ none)
    (nowhere : ∀ v : Volume, v.arrive (classicPath (size / 4) inode logical) = none) :
    ∃ v : Volume, v.blockSize = size ∧ v.Reads ∧
      v.arrive (driverPath (size / 4) inode logical) ≠
        v.arrive (classicPath (size / 4) inode logical) := by
  have positive : 0 < size / 4 := by rcases mapSize with rfl | rfl | rfl <;> decide
  obtain ⟨⟨root, indices⟩, path⟩ := Option.ne_none_iff_exists'.mp goes
  obtain ⟨nonzero, short, inside⟩ := driverPath_some positive path
  have small : root < 2 ^ 32 := by
    unfold driverPath at path
    split_ifs at path <;> obtain ⟨rfl, rfl⟩ := Prod.mk.inj (Option.some.inj path) <;>
      exact pointers _
  obtain ⟨v, blockSize, reads, arrives, -, -⟩ := exists_chain mapSize nonzero small short inside 0
  refine ⟨v, blockSize, reads, ?_⟩
  rw [path, nowhere v]
  exact arrives

end Volume

section Paths

variable {per logical r r' : Nat} {inode : Inode}

theorem doubleIndices_inj (same : doubleIndices per r = doubleIndices per r') : r = r' := by
  obtain ⟨div, mod, -⟩ := List.cons.inj same |>.imp id fun rest => List.cons.inj rest
  rw [← Nat.div_add_mod r per, ← Nat.div_add_mod r' per, div, mod]

theorem tripleIndices_inj (same : tripleIndices per r = tripleIndices per r') : r = r' := by
  obtain ⟨div, rest⟩ := List.cons.inj same
  obtain ⟨middle, last⟩ := List.cons.inj rest
  have mod := (List.cons.inj last).1
  have low : ∀ n, n % per ^ 2 % per = n % per := fun n =>
    Nat.mod_mod_of_dvd n (Dvd.intro_left (per ^ 1) rfl)
  have rest : r % per ^ 2 = r' % per ^ 2 := by
    rw [← Nat.div_add_mod (r % per ^ 2) per, ← Nat.div_add_mod (r' % per ^ 2) per, middle, low, low,
      mod]
  rw [← Nat.div_add_mod r (per ^ 2), ← Nat.div_add_mod r' (per ^ 2), div, rest]

end Paths

namespace Volume

variable {size logical : Nat} {inode : Inode}

/-- Behind a missing single tree, a block of the double one is looked up in another place. -/
theorem exists_shift_double (mapSize : MapSize size) (pointers : ∀ n, inode.block n < 2 ^ 32)
    (behind : ¬ logical < 12) (past : ¬ logical - 12 < size / 4)
    (within : logical - 12 - size / 4 < (size / 4) ^ 2) (hole : inode.block 12 = 0)
    (set : inode.block 13 ≠ 0) :
    ∃ v : Volume, v.blockSize = size ∧ v.Reads ∧
      v.arrive (driverPath (size / 4) inode logical) ≠
        v.arrive (classicPath (size / 4) inode logical) := by
  have classic : classicPath (size / 4) inode logical =
      some (inode.block 13, doubleIndices (size / 4) (logical - 12 - size / 4)) := by
    rw [classicPath_indirect behind, if_neg past, if_pos within]
  have big : 2 ≤ size / 4 := by rcases mapSize with rfl | rfl | rfl <;> decide
  have square : 2 * (size / 4) ≤ (size / 4) ^ 2 := by
    rw [Nat.pow_two]
    exact Nat.mul_le_mul_right _ big
  have positive : 0 < size / 4 := by omega
  obtain ⟨v, blockSize, reads, arrives, others, elsewhere⟩ := exists_chain mapSize set (pointers 13)
    (by rw [length_doubleIndices]; decide) (doubleIndices_lt positive within) (inode.block 14)
  refine ⟨v, blockSize, reads, ?_⟩
  have first : remaining1 (size / 4) inode logical = logical - 12 := if_neg (not_not.mpr hole)
  have lost : v.arrive (driverPath (size / 4) inode logical) = none := by
    unfold driverPath
    rw [if_neg fun both => past both.2, first]
    split_ifs with double triple
    · refine others _ rfl (fun same => ?_) (doubleIndices_lt positive double.2)
      have equal := doubleIndices_inj same
      omega
    · have behind : ¬ logical - 12 < (size / 4) ^ 2 := fun below => double ⟨set, below⟩
      have second : remaining2 (size / 4) inode logical = logical - 12 - (size / 4) ^ 2 := by
        rw [remaining2, if_pos set, first]
      rw [second] at triple ⊢
      refine elsewhere _ _ (tripleIndices_lt positive triple.2) fun head => ?_
      have index := Option.some.inj head
      rw [Nat.div_eq_of_lt (show logical - 12 - (size / 4) ^ 2 < (size / 4) ^ 2 by omega),
        Nat.div_eq_zero_iff_lt positive] at index
      omega
    · rfl
  rw [classic, lost]
  exact arrives.symm

/-- Behind a missing single or double tree, a block of the triple one is looked up in another
place. -/
theorem exists_shift_triple (mapSize : MapSize size) (pointers : ∀ n, inode.block n < 2 ^ 32)
    (behind : ¬ logical < 12) (past1 : ¬ logical - 12 < size / 4)
    (past2 : ¬ logical - 12 - size / 4 < (size / 4) ^ 2)
    (within : logical - 12 - size / 4 - (size / 4) ^ 2 < (size / 4) ^ 3)
    (hole : inode.block 12 = 0 ∨ inode.block 13 = 0) (set : inode.block 14 ≠ 0) :
    ∃ v : Volume, v.blockSize = size ∧ v.Reads ∧
      v.arrive (driverPath (size / 4) inode logical) ≠
        v.arrive (classicPath (size / 4) inode logical) := by
  have classic : classicPath (size / 4) inode logical =
      some (inode.block 14,
        tripleIndices (size / 4) (logical - 12 - size / 4 - (size / 4) ^ 2)) := by
    rw [classicPath_indirect behind, if_neg past1, if_neg past2, if_pos within]
  have positive : 0 < size / 4 := by rcases mapSize with rfl | rfl | rfl <;> decide
  have squared : 0 < (size / 4) ^ 2 := Nat.pow_pos positive
  obtain ⟨v, blockSize, reads, arrives, others, -⟩ := exists_chain mapSize set (pointers 14)
    (length_tripleIndices _ _).le (tripleIndices_lt positive within) 0
  refine ⟨v, blockSize, reads, ?_⟩
  have first := le_remaining1 (size / 4) inode logical
  have second : remaining2 (size / 4) inode logical ≠
      logical - 12 - size / 4 - (size / 4) ^ 2 := by
    unfold remaining2 remaining1
    rcases hole with hole | hole
    · rw [if_neg (not_not.mpr hole)]
      split_ifs <;> omega
    · rw [if_neg (not_not.mpr hole)]
      split_ifs <;> omega
  have lost : v.arrive (driverPath (size / 4) inode logical) = none := by
    unfold driverPath
    rw [if_neg fun both => past1 both.2, if_neg fun both => by omega]
    split_ifs with triple
    · refine others _ rfl (fun same => ?_) (tripleIndices_lt positive triple.2)
      exact second (tripleIndices_inj same)
    · rfl
  rw [classic, lost]
  exact arrives.symm

theorem driverPath_ne_none {per : Nat}
    (goes : inode.block 13 ≠ 0 ∧ remaining1 per inode logical < per ^ 2 ∨
      inode.block 14 ≠ 0 ∧ remaining2 per inode logical < per ^ 3) :
    driverPath per inode logical ≠ none := by
  unfold driverPath
  split_ifs with single double triple
  · exact Option.some_ne_none _
  · exact Option.some_ne_none _
  · exact Option.some_ne_none _
  · exact absurd goes (not_or.mpr ⟨double, triple⟩)

/-- Wherever something is shifted, the pointers on some volume tell the two paths apart. -/
theorem exists_shifted (mapSize : MapSize size) (pointers : ∀ n, inode.block n < 2 ^ 32)
    (behind : ¬ logical < 12) (shifted : ¬ Unshifted (size / 4) inode logical) :
    ∃ v : Volume, v.blockSize = size ∧ v.Reads ∧
      v.arrive (driverPath (size / 4) inode logical) ≠
        v.arrive (classicPath (size / 4) inode logical) := by
  have big : 2 ≤ size / 4 := by rcases mapSize with rfl | rfl | rfl <;> decide
  have square : 2 * (size / 4) ≤ (size / 4) ^ 2 := by
    rw [Nat.pow_two]
    exact Nat.mul_le_mul_right _ big
  have cube : 2 * (size / 4) ^ 2 ≤ (size / 4) ^ 3 := by
    rw [Nat.pow_succ _ 2, Nat.mul_comm]
    exact Nat.mul_le_mul_left _ big
  obtain ⟨unset, set⟩ := not_or.mp shifted
  unfold level at unset set
  rw [if_neg behind] at unset set
  simp only [Fin.forall_fin_succ, Fin.forall_fin_zero] at unset set
  have single : inode.indirect 0 = inode.block 12 := rfl
  have double : inode.indirect (Fin.succ 0) = inode.block 13 := rfl
  have triple : inode.indirect (Fin.succ (Fin.succ 0)) = inode.block 14 := rfl
  rw [single, double, triple] at unset set
  have first : remaining1 (size / 4) inode logical ≤ logical - 12 := by
    unfold remaining1
    split_ifs <;> omega
  have second : inode.block 13 = 0 →
      remaining2 (size / 4) inode logical = remaining1 (size / 4) inode logical :=
    fun hole => if_neg (not_not.mpr hole)
  have classic : classicPath (size / 4) inode logical = _ := classicPath_indirect behind
  by_cases one : logical - 12 < size / 4
  · have hole : inode.block 12 = 0 := by simpa [one] using unset
    have later : inode.block 13 = 0 → inode.block 14 ≠ 0 := by simpa [one, hole] using set
    refine exists_stray mapSize pointers (driverPath_ne_none ?_) fun v => ?_
    · by_cases more : inode.block 13 = 0
      · exact .inr ⟨later more, by rw [second more]; omega⟩
      · exact .inl ⟨more, by omega⟩
    · rw [classic, if_pos one, hole, arrive_zero]
  by_cases two : logical - 12 - size / 4 < (size / 4) ^ 2
  · have hole : inode.block 12 ≠ 0 → inode.block 13 = 0 := by simpa [one, two] using unset
    have later : inode.block 13 = 0 → inode.block 14 ≠ 0 := by simpa [one, two] using set
    by_cases more : inode.block 13 = 0
    · refine exists_stray mapSize pointers (driverPath_ne_none ?_) fun v => ?_
      · exact .inr ⟨later more, by rw [second more]; omega⟩
      · rw [classic, if_neg one, if_pos two, more, arrive_zero]
    · exact exists_shift_double mapSize pointers behind one two (not_imp_comm.mp hole more) more
  by_cases three : logical - 12 - size / 4 - (size / 4) ^ 2 < (size / 4) ^ 3
  · have hole : inode.block 12 ≠ 0 → inode.block 13 ≠ 0 → inode.block 14 = 0 := by
      simpa [one, two, three] using unset
    have later : inode.block 14 ≠ 0 := by simpa [one, two, three] using set
    refine exists_shift_triple mapSize pointers behind one two three ?_ later
    by_contra both
    obtain ⟨single, double⟩ := not_or.mp both
    exact later (hole single double)
  · exact absurd set (by simp [one, two, three])

/-- The pointers of an inode are words. -/
theorem block_lt (inodeBuf : Buffer) (n : Fin 15) : (Inode.parse inodeBuf).block n < 2 ^ 32 :=
  Buffer.number_lt _ _ 4

/-- A block below the size of a file that is not kept in extents is looked up without a panic;
and in its place of the classic map, whatever the volume holds, exactly if the pointers to all
trees up to its own are set or those from its own on are 0. -/
theorem extentLookup_classic_iff {inodeBuf : Buffer} (mapSize : MapSize size)
    (plain : (Inode.parse inodeBuf).flags &&& 1 <<< 14 = 0)
    (below : logical * size < (Inode.parse inodeBuf).size) :
    (∀ v : Volume, v.blockSize = size → v.Reads → v.extentLookup inodeBuf logical ≠ none) ∧
      ((∀ v : Volume, v.blockSize = size → v.Reads →
        v.extentLookup inodeBuf logical = some (v.classicMap (Inode.parse inodeBuf) logical)) ↔
      Unshifted (size / 4) (Inode.parse inodeBuf) logical) := by
  have looked : ∀ v : Volume, v.blockSize = size → v.Reads → v.extentLookup inodeBuf logical = _ :=
    fun v blockSize reads => extentLookup_of_reads reads (blockSize ▸ mapSize) plain (blockSize ▸ below)
  refine ⟨fun v blockSize reads => ?_, ?_⟩
  · rw [looked v blockSize reads]
    exact Option.some_ne_none _
  constructor
  · intro always
    by_contra shifted
    have behind : ¬ logical < 12 := by
      intro direct
      refine shifted (.inl fun n less => ?_)
      rw [level, if_pos direct] at less
      exact absurd less (Nat.not_lt_zero _)
    obtain ⟨v, blockSize, reads, apart⟩ := exists_shifted mapSize (block_lt inodeBuf) behind shifted
    have same := always v blockSize reads
    rw [looked v blockSize reads, if_neg behind, blockSize, Option.some_inj, classicMap, blockSize]
      at same
    exact apart same
  · intro unshifted v blockSize reads
    rw [looked v blockSize reads]
    split_ifs with direct
    · rfl
    · rw [blockSize, arrive_driverPath direct unshifted, classicMap, blockSize]

instance (per : Nat) (inode : Inode) (logical : Nat) : Decidable (Unshifted per inode logical) :=
  inferInstanceAs (Decidable (_ ∨ _))

/-- An inode of 13 blocks of 1024 bytes, with pointers to a single and a double tree. -/
def inodeOf (single double : Nat) : Buffer :=
  ((Buffer.zero.put 4 (Buffer.digits (13 * 1024) 4)).put 88 (Buffer.digits single 4)).put 92
    (Buffer.digits double 4)

/-- Block 12 of a file is found where its single tree is set, and not where it is a hole in
front of a double tree. -/
theorem found_without_hole :
    (∀ v : Volume, v.blockSize = 1024 → v.Reads →
      v.extentLookup (inodeOf 100 0) 12 = some (v.classicMap (Inode.parse (inodeOf 100 0)) 12)) ∧
    ¬ ∀ v : Volume, v.blockSize = 1024 → v.Reads →
      v.extentLookup (inodeOf 0 100) 12 = some (v.classicMap (Inode.parse (inodeOf 0 100)) 12) :=
  ⟨(extentLookup_classic_iff (.inl rfl) (by decide +kernel) (by decide +kernel)).2.mpr
      (by decide +kernel),
    mt (extentLookup_classic_iff (.inl rfl) (by decide +kernel) (by decide +kernel)).2.mp
      (by decide +kernel)⟩

/-- Block 12 of a file whose single tree is a hole is said to be block 300, which the double
tree has for block 268. -/
theorem hole_filled : ¬ ∀ (v : Volume) (inodeBuf : Buffer) (logical : Nat),
    MapSize v.blockSize → v.Reads → (Inode.parse inodeBuf).flags &&& 1 <<< 14 = 0 →
    logical * v.blockSize < (Inode.parse inodeBuf).size →
    v.extentLookup inodeBuf logical = some (v.classicMap (Inode.parse inodeBuf) logical) := by
  intro claim
  let v := ofEntries 1024 fun blk _ => if blk = 100 then 200 else 300
  have same := claim v (inodeOf 0 100) 12 (.inl rfl) (ofEntries_reads _ _) (by decide +kernel)
    (by decide +kernel)
  have found : v.extentLookup (inodeOf 0 100) 12 = some (some 300) := by decide +kernel
  have hole : v.classicMap (Inode.parse (inodeOf 0 100)) 12 = none := by decide +kernel
  rw [found, hole] at same
  cases same

end Volume

end DBSos.Ext4
