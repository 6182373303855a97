import DBSos.Ext4.Volume

/-!
# Inodes

An inode maps the logical blocks of its file to blocks of the volume, through an
extent tree or by twelve direct pointers and three indirect ones.
-/

namespace DBSos.Ext4

open DBSos.Lib

scoped instance neZero_block : NeZero 15 := ⟨by decide⟩

/-- `Inode`. -/
structure Inode where
  mode : Nat
  uid : Nat
  sizeLo : Nat
  atime : Nat
  ctime : Nat
  mtime : Nat
  dtime : Nat
  gid : Nat
  linksCount : Nat
  blocks : Nat
  flags : Nat
  osd1 : Nat
  block : Fin 15 → Nat
  generation : Nat
  fileAcl : Nat
  sizeHi : Nat

namespace Inode

def size (inode : Inode) : Nat := inode.sizeHi * 2 ^ 32 + inode.sizeLo

/-- `is_dir`. -/
def isDir (inode : Inode) : Bool := inode.mode &&& 0x4000 ≠ 0

/-- `parse_inode`. -/
def parse (buf : Buffer) : Inode where
  mode := le16 buf 0
  uid := le16 buf 2
  sizeLo := le32 buf 4
  atime := le32 buf 8
  ctime := le32 buf 12
  mtime := le32 buf 16
  dtime := le32 buf 20
  gid := le16 buf 24
  linksCount := le16 buf 26
  blocks := le32 buf 28
  flags := le32 buf 32
  osd1 := le32 buf 36
  block := fun i => le32 buf (40 + i.val * 4)
  generation := le32 buf 100
  fileAcl := le32 buf 104
  sizeHi := le32 buf 108

/-- The 256 bytes that `write_inode` builds. -/
def encode (inode : Inode) : List UInt8 :=
  Buffer.digits inode.mode 2 ++ Buffer.digits inode.uid 2 ++ Buffer.digits inode.sizeLo 4 ++
    Buffer.digits inode.atime 4 ++ Buffer.digits inode.ctime 4 ++ Buffer.digits inode.mtime 4 ++
    Buffer.digits inode.dtime 4 ++ Buffer.digits inode.gid 2 ++ Buffer.digits inode.linksCount 2 ++
    Buffer.digits inode.blocks 4 ++ Buffer.digits inode.flags 4 ++ Buffer.digits inode.osd1 4 ++
    (List.finRange 15).flatMap (fun i => Buffer.digits (inode.block i) 4) ++
    Buffer.digits inode.generation 4 ++ Buffer.digits inode.fileAcl 4 ++
    Buffer.digits inode.sizeHi 4 ++ List.replicate 144 0

end Inode

namespace Volume

variable (v : Volume)

/-- Where an inode lies in the partition; `none` inside when its descriptor cannot be
read. `inode_group` and `inode_index` panic on inode 0 and on groups without inodes. -/
def inodePos (inodeNum : Nat) : Option (Option Nat) :=
  if inodeNum < 1 ∨ v.super.inodesPerGroup = 0 then none
  else do
    let bgd ← v.readBgd ((inodeNum - 1) / v.super.inodesPerGroup)
    some (bgd.map fun bgd =>
      bgd.inodeTable * v.blockSize + (inodeNum - 1) % v.super.inodesPerGroup * v.super.inodeSize)

/-- `read_inode`. -/
def readInode (inodeNum : Nat) : Option (Option Buffer) :=
  if inodeNum < 1 then some none
  else do
    match ← v.inodePos inodeNum with
    | none => some none
    | some pos => v.readSpan pos v.super.inodeSize 256

/-- `write_inode`. -/
def writeInode (inodeNum : Nat) (inode : Inode) : Option (Bool × Volume) := do
  match ← v.inodePos inodeNum with
  | none => some (false, v)
  | some pos => v.writeSpan pos v.super.inodeSize inode.encode

/-! ## Logical blocks -/

/-- A block pointer in a block of pointers, `none` inside for an unreadable block. -/
def pointer (blk idx : Nat) : Option (Option Nat) := do
  match ← v.readBlock blk with
  | none => some none
  | some buf =>
    within (idx * 4) 4
    some (some (le32 buf (idx * 4)))

/-- Follow block pointers; a zero pointer leads nowhere. -/
def follow : (blk : Nat) → List Nat → Option (Option Nat)
  | blk, [] => some (some blk)
  | blk, idx :: rest => do
    match ← v.pointer blk idx with
    | none => some none
    | some next => if next = 0 then some none else follow next rest

/-- The search of a leaf of the extent tree. -/
def leafLookup (buf : Buffer) (logical : Nat) : List Nat → Option (Option Nat)
  | [] => some none
  | i :: rest => do
    let off := 12 + i * 12
    within off 12
    let block := le32 buf off
    if block ≤ logical then
      let stop ← checked32 (block + le16 buf (off + 10))
      if logical < stop then
        let phys := le16 buf (off + 8) <<< 16 ||| le32 buf (off + 4)
        some (some (← checked32 (phys + (logical - block))))
      else leafLookup buf logical rest
    else leafLookup buf logical rest

/-- The child of an index node that the search goes to: the first whose block number is
not below the one wanted, else the last. -/
def childNode (buf : Buffer) (logical entries : Nat) : List Nat → Option (Option Nat)
  | [] =>
    if 0 < entries then do
      let off := 12 + (entries - 1) * 12
      within off 12
      some (some (le16 buf (off + 8) <<< 16 ||| le32 buf (off + 4)))
    else some none
  | i :: rest => do
    let off := 12 + i * 12
    within off 12
    if logical ≤ le32 buf off then
      some (some (le16 buf (off + 8) <<< 16 ||| le32 buf (off + 4)))
    else childNode buf logical entries rest

/-- `extent_tree_lookup`, with `left` nodes to visit at most. -/
def treeLookup (logical : Nat) : (left node : Nat) → Option (Option Nat)
  | 0, _ => some none
  | left + 1, node => do
    match ← v.readBlock node with
    | none => some none
    | some buf =>
      let entries := le16 buf 2
      if le16 buf 0 ≠ 0xF30A then some none
      else if le16 buf 6 = 0 then leafLookup buf logical (List.range entries)
      else
        match ← childNode buf logical entries (List.range entries) with
        | none => some none
        | some child => treeLookup logical left child

/-- The part of `extent_lookup` behind the direct pointers. -/
def indirectLookup (inode : Inode) (logical : Nat) : Option (Option Nat) := do
  let perBlock := v.blockSize / 4
  let remaining := logical - 12
  if inode.block 12 ≠ 0 ∧ remaining < perBlock then v.follow (inode.block 12) [remaining]
  else
    let remaining := if inode.block 12 ≠ 0 then remaining - perBlock else remaining
    let perDouble := perBlock * perBlock
    if inode.block 13 ≠ 0 ∧ remaining < perDouble then
      v.follow (inode.block 13) [remaining / perBlock, remaining % perBlock]
    else
      let remaining := if inode.block 13 ≠ 0 then remaining - perDouble else remaining
      if inode.block 14 ≠ 0 then
        let perTriple ← checked32 (perDouble * perBlock)
        if remaining < perTriple then
          v.follow (inode.block 14)
            [remaining / perDouble, remaining % perDouble / perBlock, remaining % perBlock]
        else some none
      else some none

theorem direct_lt {logical : Nat} (direct : logical < 12) : logical < 15 := by omega

/-- `extent_lookup`. -/
def extentLookup (inodeBuf : Buffer) (logical : Nat) : Option (Option Nat) :=
  let inode := Inode.parse inodeBuf
  if inode.size ≤ logical * v.blockSize then some none
  else if inode.flags &&& 1 <<< 14 ≠ 0 then
    if inode.block 0 = 0 then some none else v.treeLookup logical 6 (inode.block 0)
  else if direct : logical < 12 then
    let blk := inode.block ⟨logical, direct_lt direct⟩
    some (if blk = 0 then none else some blk)
  else v.indirectLookup inode logical

end Volume

end DBSos.Ext4
