import DBSos.Ext4.Inode

/-!
# Directories

Every loop over a directory meets the records of a block from its start: the next one
is a record length further, and the block ends with the first record length that is too
short for a header. Block offsets are multiples of the block size everywhere but in
`read_dir_entries`, which adds the record lengths up.
-/

namespace DBSos.Ext4

open DBSos.Lib

/-- `EXT4_DIR_ENTRY_BASE`. -/
def entryBase : Nat := 8

/-- `MAX_NAME`. -/
def maxName : Nat := 32

def slash : UInt8 := 0x2F

/-- A `usize` that a checked operation yields. -/
def checked64 (n : Nat) : Option Nat := if n < 2 ^ 64 then some n else none

/-- The number of the inode that a record names. -/
def inoAt (buf : Buffer) (pos : Nat) : Nat := le32 buf pos

/-- `rec_len`. -/
def recLen (buf : Buffer) (pos : Nat) : Nat := le16 buf (pos + 4)

/-- `name_len`. -/
def nameLen (buf : Buffer) (pos : Nat) : Nat := (buf (pos + 6)).toNat

/-- The length of a record with a name of `len` bytes, in whole words. -/
def entryLen (len : Nat) : Nat := (entryBase + len + 3) / 4 * 4

/-- The records that the inner loop of the directory functions meets from a position on. -/
def recordsFrom (buf : Buffer) (blockSize : Nat) : (left pos : Nat) → List Nat
  | 0, _ => []
  | left + 1, pos =>
    if pos + entryBase ≤ blockSize ∧ entryBase ≤ recLen buf pos then
      pos :: recordsFrom buf blockSize left (pos + recLen buf pos)
    else []

/-- The records of a block. -/
def records (buf : Buffer) (blockSize : Nat) : List Nat :=
  recordsFrom buf blockSize (blockSize / entryBase) 0

/-- The record is in use and carries the name. -/
def carries (buf : Buffer) (name : List UInt8) (pos : Nat) : Option Bool :=
  if inoAt buf pos ≠ 0 ∧ nameLen buf pos = name.length then do
    within (pos + entryBase) name.length
    some (buf.slice (pos + entryBase) name.length = name)
  else some false

/-- The first record that carries the name. -/
def findNamed (buf : Buffer) (name : List UInt8) : List Nat → Option (Option Nat)
  | [] => some none
  | pos :: rest => do
    if ← carries buf name pos then some (some pos) else findNamed buf name rest

/-- The blocks of a directory, as the loops over it count them. -/
def Inode.dirBlocks (inode : Inode) (blockSize : Nat) : Nat :=
  (inode.size + blockSize - 1) / blockSize

namespace Volume

variable (v : Volume)

/-! ## Lookup -/

/-- The loop over the blocks of one directory in `lookup_path`. -/
def lookupBlocks (dirBuf : Buffer) (component : List UInt8) :
    (left log : Nat) → Option (Option Nat)
  | 0, _ => some none
  | left + 1, log => do
    match ← v.extentLookup dirBuf (log % 2 ^ 32) with
    | none =>
      let _ ← checked64 ((log + 1) * v.blockSize)
      lookupBlocks dirBuf component left (log + 1)
    | some phys =>
      match ← v.readBlock phys with
      | none => some none
      | some block =>
        match ← findNamed block component (records block v.blockSize) with
        | some pos => some (some (inoAt block pos))
        | none =>
          let _ ← checked64 ((log + 1) * v.blockSize)
          lookupBlocks dirBuf component left (log + 1)

/-- One component of a path in `lookup_path`. -/
def lookupComponent (current : Nat) (component : List UInt8) : Option (Option Nat) := do
  match ← v.readInode current with
  | none => some none
  | some dirBuf =>
    if (Inode.parse dirBuf).isDir then
      v.lookupBlocks dirBuf component ((Inode.parse dirBuf).dirBlocks v.blockSize) 0
    else some none

def lookupComponents : (current : Nat) → List (List UInt8) → Option (Option Nat)
  | current, [] => some (some current)
  | current, component :: rest => do
    match ← v.lookupComponent current component with
    | none => some none
    | some next => lookupComponents next rest

/-- `lookup_path`. -/
def lookupPath (rootInode : Nat) (path : List UInt8) : Option (Option Nat) :=
  v.lookupComponents rootInode ((path.splitOn slash).filter (· ≠ []))

/-- `root`, as every call of the driver computes it. -/
def root : Option Nat := checked32 (v.super.firstDataBlock + 1)

/-! ## Listing -/

/-- `DirEntry`. -/
structure Entry where
  name : List UInt8
  isDir : Bool
  size : Nat
deriving DecidableEq, Repr

/-- The entry that `read_dir_entries` makes of a record in use. -/
def entryAt (block : Buffer) (pos : Nat) : Option Entry := do
  let len := min (nameLen block pos) (maxName - 1)
  within (pos + entryBase) len
  let isDir := block (pos + 7) == 2
  let size ←
    if isDir then some 0
    else do
      let child ← v.readInode (inoAt block pos)
      some ((child.map fun buf => (Inode.parse buf).sizeLo).getD 0)
  some {
    name := block.slice (pos + entryBase) len ++ List.replicate (maxName - len) 0
    isDir
    size }

/-- The inner loop of `read_dir_entries`: the entries and the position behind the last
record. -/
def listRecords (block : Buffer) (room : Nat) :
    (left pos : Nat) → List Entry → Option (List Entry × Nat)
  | 0, pos, entries => some (entries, pos)
  | left + 1, pos, entries =>
    if pos + entryBase ≤ v.blockSize ∧ entryBase ≤ recLen block pos ∧
        recLen block pos ≤ v.blockSize then
      if inoAt block pos ≠ 0 then do
        let entry ← v.entryAt block pos
        if entries.length < room then
          listRecords block room left (pos + recLen block pos) (entries ++ [entry])
        else none
      else listRecords block room left (pos + recLen block pos) entries
    else some (entries, pos)

/-- The outer loop of `read_dir_entries`. `none` is also a loop that never ends: a record
length that stops the inner loop at its first record leaves the offset where it was. -/
def listFrom (dirBuf : Buffer) (size room : Nat) :
    (fuel offset : Nat) → List Entry → Option (List Entry)
  | 0, _, _ => none
  | fuel + 1, offset, entries =>
    if offset < size ∧ entries.length < room then do
      match ← v.extentLookup dirBuf (offset / v.blockSize % 2 ^ 32) with
      | none =>
        let offset ← checked64 (offset + v.blockSize)
        listFrom dirBuf size room fuel offset entries
      | some phys =>
        match ← v.readBlock phys with
        | none => some entries
        | some block =>
          let start := offset % v.blockSize
          let (entries, pos) ←
            v.listRecords block room (v.blockSize / entryBase) start entries
          let offset ← checked64 (offset + (pos - start))
          if v.blockSize < pos + entryBase then
            let offset ← checked64 ((offset / v.blockSize + 1) * v.blockSize)
            listFrom dirBuf size room fuel offset entries
          else listFrom dirBuf size room fuel offset entries
    else some entries

/-- `read_dir_entries` into `room` entries. -/
def readDirEntries (inodeNum room : Nat) : Option (Option (List Entry)) := do
  match ← v.readInode inodeNum with
  | none => some none
  | some dirBuf =>
    let inode := Inode.parse dirBuf
    if inode.isDir then do
      let entries ← v.listFrom dirBuf inode.size room (inode.size + 1) 0 []
      some (some entries)
    else some none

end Volume

/-! ## Insertion -/

/-- The bytes of a record. -/
def recordBytes (ino len : Nat) (name : List UInt8) (fileType : UInt8) : List UInt8 :=
  Buffer.digits ino 4 ++ Buffer.digits len 2 ++ [UInt8.ofNat name.length, fileType] ++ name

/-- What the inner loop of `add_dir_entry` makes of a block: a free record is taken, or a
record in use is split; `none` inside when there is no room. -/
def insertAt (block : Buffer) (childInode : Nat) (name : List UInt8) (fileType : UInt8) :
    List Nat → Option (Option Buffer)
  | [] => some none
  | pos :: rest =>
    let needed := entryLen name.length
    let oldLen := entryLen (nameLen block pos)
    if inoAt block pos = 0 ∧ needed ≤ recLen block pos then do
      within pos (entryBase + name.length)
      some (some (block.put pos (recordBytes childInode needed name fileType)))
    else if inoAt block pos ≠ 0 ∧ oldLen + needed < recLen block pos then do
      within (pos + oldLen) (entryBase + name.length)
      some (some ((block.put (pos + 4) (Buffer.digits oldLen 2)).put (pos + oldLen)
        (recordBytes childInode (recLen block pos - oldLen) name fileType)))
    else insertAt block childInode name fileType rest

/-- What a search of the blocks of a directory comes to: nothing, or a block changed and
written back, successfully or not. -/
inductive Edit where
  | absent
  | wrote (written : Bool) (v : Volume)

namespace Volume

variable (v : Volume)

/-- The loop over the blocks of a directory in `add_dir_entry` and `remove_dir_entry`. -/
def editBlocks (dirBuf : Buffer) (edit : Buffer → List Nat → Option (Option Buffer)) :
    (left log : Nat) → Option Edit
  | 0, _ => some .absent
  | left + 1, log => do
    match ← v.extentLookup dirBuf (log % 2 ^ 32) with
    | none =>
      let _ ← checked64 ((log + 1) * v.blockSize)
      editBlocks dirBuf edit left (log + 1)
    | some phys =>
      match ← v.readBlock phys with
      | none => some .absent
      | some block =>
        match ← edit block (records block v.blockSize) with
        | some block =>
          let (written, v) ← v.writeBlock phys block
          some (.wrote written v)
        | none =>
          let _ ← checked64 ((log + 1) * v.blockSize)
          editBlocks dirBuf edit left (log + 1)

/-- The end of `add_dir_entry`: a new block with one record is appended to the direct
blocks. -/
def appendBlock (parentInode : Nat) (inode : Inode) (childInode : Nat) (name : List UInt8)
    (fileType : UInt8) : Option (Bool × Volume) := do
  let (newBlk, v) ← v.allocBlock
  match newBlk with
  | none => some (false, v)
  | some newBlk =>
    let (written, v) ← v.writeBlock newBlk
      (Buffer.zero.put 0 (recordBytes childInode v.blockSize name fileType))
    if written then
      match (List.finRange 15).find? fun i => i.val < 12 ∧ inode.block i = 0 with
      | none => some (false, v)
      | some i => do
        let blocks ← checked32 (inode.blocks + v.blockSize / 512)
        let sizeLo ← checked32 (inode.sizeLo + v.blockSize)
        v.writeInode parentInode
          { inode with block := Function.update inode.block i newBlk, blocks, sizeLo }
    else some (false, v)

/-- `add_dir_entry`. -/
def addDirEntry (parentInode childInode : Nat) (name : List UInt8) (fileType : UInt8) :
    Option (Bool × Volume) := do
  match ← v.readInode parentInode with
  | none => some (false, v)
  | some inodeBuf =>
    let inode := Inode.parse inodeBuf
    let name := name.take 255
    match ← v.editBlocks inodeBuf (insertAt · childInode name fileType ·)
        (inode.dirBlocks v.blockSize) 0 with
    | .wrote written v => some (written, v)
    | .absent => v.appendBlock parentInode inode childInode name fileType

end Volume

/-! ## Removal -/

/-- What the inner loop of `remove_dir_entry` makes of a block: the record that carries
the name is zeroed, after a free record right in front of it has taken its length. -/
def removeAt (block : Buffer) (name : List UInt8) :
    (prev : Option Nat) → List Nat → Option (Option Buffer)
  | _, [] => some none
  | prev, pos :: rest => do
    if ← carries block name pos then
      let len := recLen block pos
      let marked := match prev with
        | some before =>
          block.put (before + 4) (Buffer.digits (recLen block before + len) 2)
        | none => block.put pos (Buffer.digits 0 4)
      within pos len
      some (some (marked.put pos (List.replicate len 0)))
    else removeAt block name (if inoAt block pos = 0 then some pos else none) rest

/-- `remove_dir_entry`. -/
def Volume.removeDirEntry (v : Volume) (parentInode : Nat) (name : List UInt8) :
    Option (Bool × Volume) := do
  match ← v.readInode parentInode with
  | none => some (false, v)
  | some inodeBuf =>
    match ← v.editBlocks inodeBuf (removeAt · name none ·)
        ((Inode.parse inodeBuf).dirBlocks v.blockSize) 0 with
    | .wrote written v => some (written, v)
    | .absent => some (false, v)

end DBSos.Ext4
