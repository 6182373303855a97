import DBSos.Ext4.Directory
import DBSos.Lib.Trace

/-!
# Open files

A handle is `0x10000` above an index into two parallel arrays. `ext4_open` takes the
first index behind the files that are open, `ext4_close` moves the later ones down.
-/

namespace DBSos.Ext4

open DBSos.Lib

/-- `MAX_OPEN_EXT4`. -/
def maxOpenExt4 : Nat := 32

/-- An entry of `OPEN_INODES` and `OPEN_SIZES`. -/
structure OpenFile where
  inode : Nat
  size : Nat
deriving DecidableEq, Repr

/-- The driver: the volume and the first `OPEN_COUNT` entries of the two arrays. -/
structure Driver where
  volume : Volume
  opened : List OpenFile

/-- A handle, a `usize`. -/
abbrev Handle := BitVec 64

/-- The handle of an index. -/
def handleOf (index : Nat) : Handle := BitVec.ofNat 64 (index + 0x10000)

/-- `handle.wrapping_sub(0x10000)`. -/
def indexOf (handle : Handle) : Nat := (handle - 0x10000).toNat

/-- The inode that a path names, as the calls of the driver look it up. -/
def Volume.resolve (v : Volume) (path : List UInt8) : Option (Option (Nat × Buffer)) := do
  match ← v.lookupPath (← v.root) path with
  | none => some none
  | some inodeNum =>
    let inodeBuf ← v.readInode inodeNum
    some (inodeBuf.map (inodeNum, ·))

namespace Driver

variable (d : Driver)

/-- `ext4_open`. -/
def ext4Open (path : List UInt8) (flags : Nat) : Option (Option Handle × Driver) :=
  if d.volume.valid then do
    match ← d.volume.resolve path with
    | none => some (none, d)
    | some (inodeNum, inodeBuf) =>
      let inode := Inode.parse inodeBuf
      if inode.isDir ∧ flags &&& 3 ≠ 0 then some (none, d)
      else if maxOpenExt4 ≤ d.opened.length then some (none, d)
      else some (some (handleOf d.opened.length),
        { d with opened := d.opened ++ [⟨inodeNum, inode.size⟩] })
  else some (none, d)

/-- `ext4_close`. -/
def ext4Close (handle : Handle) : Driver :=
  if indexOf handle < d.opened.length then
    { d with opened := d.opened.eraseIdx (indexOf handle) }
  else d

/-- What reads and writes through a handle use. -/
def file (handle : Handle) : Option OpenFile := d.opened[indexOf handle]?

end Driver

namespace Volume

variable (v : Volume)

/-- The loop of `ext4_read`, in at most one turn a byte. -/
def readLoop (inodeBuf : Buffer) (len fileSize : Nat) :
    (left fileOff : Nat) → List UInt8 → Option (List UInt8)
  | 0, _, bytes => some bytes
  | left + 1, fileOff, bytes =>
    if bytes.length < len ∧ fileOff < fileSize then do
      let blockOff := fileOff % v.blockSize
      let toRead := min (len - bytes.length) (v.blockSize - blockOff)
      match ← v.extentLookup inodeBuf (fileOff / v.blockSize % 2 ^ 32) with
      | none => some bytes
      | some phys =>
        match ← v.readBlock phys with
        | none => some bytes
        | some block =>
          let avail := min toRead (fileSize - fileOff)
          readLoop inodeBuf len fileSize left (fileOff + avail)
            (bytes ++ block.slice blockOff avail)
    else some bytes

/-- The block that `ext4_write` writes to, and the inode with a new block in it. -/
def blockFor (inodeBuf : Buffer) (inode : Inode) (logical : Nat) :
    Option (Option Nat × Inode × Volume) := do
  match ← v.extentLookup inodeBuf logical with
  | some phys => some (some phys, inode, v)
  | none =>
    let (newBlk, v) ← v.allocBlock
    match newBlk with
    | none => some (none, inode, v)
    | some newBlk =>
      let mapped := if direct : logical < 12 then
        Function.update inode.block ⟨logical, direct_lt direct⟩ newBlk else inode.block
      let blocks ← checked32 (inode.blocks + v.blockSize / 512)
      some (some newBlk, { inode with block := mapped, blocks }, v)

/-- The loop of `ext4_write`, in at most one turn a byte: the bytes written, the inode and
the volume. Blocks are looked up in the inode as it was read. -/
def writeLoop (inodeBuf : Buffer) (bytes : List UInt8) :
    (left total fileOff : Nat) → Inode → Volume → Option (Nat × Nat × Inode × Volume)
  | 0, total, fileOff, inode, v => some (total, fileOff, inode, v)
  | left + 1, total, fileOff, inode, v =>
    if total < bytes.length then do
      let blockOff := fileOff % v.blockSize
      let toWrite := min (bytes.length - total) (v.blockSize - blockOff)
      let (phys, inode, v) ← v.blockFor inodeBuf inode (fileOff / v.blockSize % 2 ^ 32)
      match phys with
      | none => some (total, fileOff, inode, v)
      | some phys =>
        match ← v.readBlock phys with
        | none => some (total, fileOff, inode, v)
        | some block =>
          let (written, v) ← v.writeBlock phys
            (block.put blockOff ((bytes.drop total).take toWrite))
          if written then do
            let fileOff ← checked64 (fileOff + toWrite)
            writeLoop inodeBuf bytes left (total + toWrite) fileOff inode v
          else some (total, fileOff, inode, v)
    else some (total, fileOff, inode, v)

end Volume

/-- The inode grows to the end of what was written. -/
def Inode.grown (inode : Inode) (fileOff : Nat) : Inode :=
  if inode.size < fileOff then
    { inode with sizeLo := fileOff % 2 ^ 32, sizeHi := fileOff / 2 ^ 32 % 2 ^ 32 }
  else inode

namespace Driver

variable (d : Driver)

/-- `ext4_read` of `len` bytes. -/
def ext4Read (handle : Handle) (len offset : Nat) : Option (Option (List UInt8)) :=
  if d.volume.valid then
    match d.file handle with
    | none => some none
    | some file => do
      match ← d.volume.readInode file.inode with
      | none => some none
      | some inodeBuf =>
        let bytes ← d.volume.readLoop inodeBuf len file.size len offset []
        some (some bytes)
  else some none

/-- `ext4_write`. -/
def ext4Write (handle : Handle) (bytes : List UInt8) (offset : Nat) :
    Option (Option Nat × Driver) :=
  if d.volume.valid then
    match d.file handle with
    | none => some (none, d)
    | some file => do
      match ← d.volume.readInode file.inode with
      | none => some (none, d)
      | some inodeBuf =>
        let (total, fileOff, inode, volume) ← Volume.writeLoop inodeBuf bytes bytes.length 0
          offset (Inode.parse inodeBuf) d.volume
        let inode := inode.grown fileOff
        let (_, volume) ← volume.writeInode file.inode inode
        some (some total, {
          volume
          opened := d.opened.set (indexOf handle) { file with size := inode.size } })
  else some (none, d)

end Driver

end DBSos.Ext4
