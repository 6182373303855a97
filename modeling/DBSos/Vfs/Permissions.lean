import DBSos.Syscall.Machine

/-!
# The permission table

The table stores rights under the bytes of a path, sixty-four of them at most. A
path that is not in it belongs to whoever asks.
-/

namespace DBSos.Vfs

open DBSos.Syscall (Perm)

abbrev Path := List UInt8

abbrev Uid := BitVec 32

/-- `b'/'`. -/
abbrev slash : UInt8 := 0x2F

/-- The bytes of a string literal of the source. -/
def ascii (text : List Char) : Path := text.map Char.toUInt8

def etcPrefix : Path := ascii ['/', 'e', 't', 'c']

def rootPrefix : Path := ascii ['/', 'r', 'o', 'o', 't']

def homePrefix : Path := ascii ['/', 'h', 'o', 'm', 'e']

/-- `Perm::default_for`; `current` is `current_uid()`. -/
def defaultFor (current : Uid) (path : Path) : Perm where
  owner := current
  group := current
  mode :=
    if etcPrefix.isPrefixOf path ∨ rootPrefix.isPrefixOf path then 0o700
    else if homePrefix.isPrefixOf path then 0o755
    else 0o644

def maxPerms : Nat := 128

def maxEntryPath : Nat := 64

/-- `PermEntry`; the path is the first `len` bytes of the array. -/
structure PermEntry where
  path : Path
  perm : Perm
  fits : path.length ≤ maxEntryPath

/-- `PERMS`. Entries are never removed, so they fill the slots in order. -/
structure PermTable where
  entries : List PermEntry
  bounded : entries.length ≤ maxPerms

namespace PermTable

variable (t : PermTable) (current uid : Uid) (path : Path)

/-- `permissions::init`. -/
def empty : PermTable := ⟨[], Nat.zero_le _⟩

/-- `find`. -/
def find : Option Perm := (t.entries.find? fun entry => entry.path = path).map PermEntry.perm

/-- `get`. -/
def get : Perm := (t.find path).getD (defaultFor current path)

/-- The first loop of `set`; `none` when no entry has the path. -/
def replace (perm : Perm) : List PermEntry → Option (List PermEntry)
  | [] => none
  | entry :: rest =>
    if entry.path = path then some ({ entry with perm } :: rest)
    else (replace perm rest).map (entry :: ·)

theorem replace_length {path : Path} {perm : Perm} {entries replaced : List PermEntry}
    (found : replace path perm entries = some replaced) :
    replaced.length = entries.length := by
  induction entries generalizing replaced with
  | nil => cases found
  | cons entry rest ih =>
    rw [replace] at found
    split_ifs at found
    · cases found
      rfl
    · obtain ⟨later, foundLater, rfl⟩ := Option.map_eq_some_iff.mp found
      simp [ih foundLater]

/-- `set`: a new entry keeps only the first sixty-four bytes of the path. -/
def set (perm : Perm) : PermTable :=
  match found : replace path perm t.entries with
  | some replaced => ⟨replaced, (replace_length found).trans_le t.bounded⟩
  | none =>
    if room : t.entries.length < maxPerms then
      ⟨t.entries ++ [⟨path.take maxEntryPath, perm, List.length_take_le _ _⟩], by simpa⟩
    else t

end PermTable

/-- The three tests of `can_read` and `can_write`, with the bits each looks at;
`gid_of` returns the uid. -/
def grants (perm : Perm) (uid : Uid) (ownerBit groupBit otherBit : BitVec 16) : Bool :=
  if uid = 0 then true
  else if uid = perm.owner then perm.mode &&& ownerBit ≠ 0
  else if uid = perm.group then perm.mode &&& groupBit ≠ 0
  else perm.mode &&& otherBit ≠ 0

/-- The end of `can_read`. -/
def grantsRead (perm : Perm) (uid : Uid) : Bool := grants perm uid 0o400 0o040 0o004

/-- The end of `can_write`. -/
def grantsWrite (perm : Perm) (uid : Uid) : Bool := grants perm uid 0o200 0o020 0o002

namespace PermTable

variable (t : PermTable) (current : Uid) (path : Path) (uid : Uid)

/-- `can_read`. -/
def canRead : Bool := grantsRead (t.get current path) uid

/-- `can_write`. -/
def canWrite : Bool := grantsWrite (t.get current path) uid

theorem get_of_long (long : maxEntryPath < path.length) :
    t.get current path = defaultFor current path := by
  have missing : t.entries.find? (fun entry => entry.path = path) = none := by
    rw [List.find?_eq_none]
    intro entry _ same
    have := entry.fits
    rw [of_decide_eq_true same] at this
    omega
  rw [get, find, missing]
  rfl

end PermTable

section Defaults

variable {current uid : Uid} {path : Path}

/-- The default rights of a stranger. -/
theorem defaultFor_stranger (path : Path) (known : uid ≠ 0) (stranger : uid ≠ current) :
    grantsWrite (defaultFor current path) uid = false ∧
      (grantsRead (defaultFor current path) uid = true ↔
        ¬ (etcPrefix.isPrefixOf path ∨ rootPrefix.isPrefixOf path)) := by
  have notOwner : uid ≠ (defaultFor current path).owner := stranger
  have notGroup : uid ≠ (defaultFor current path).group := stranger
  simp only [grantsWrite, grantsRead, grants, if_neg known, if_neg notOwner, if_neg notGroup]
  rw [defaultFor]
  dsimp only
  split_ifs with closed home
  · exact ⟨by decide, iff_of_false (by decide) fun opened => opened closed⟩
  · exact ⟨by decide, iff_of_true (by decide) closed⟩
  · exact ⟨by decide, iff_of_true (by decide) closed⟩

/-- The default rights of the user who asks. -/
theorem defaultFor_owner :
    grantsRead (defaultFor current path) current = true ∧
      grantsWrite (defaultFor current path) current = true := by
  rw [grantsWrite, grantsRead, grants, grants]
  by_cases isRoot : current = 0
  · simp [isRoot]
  · rw [if_neg isRoot, if_neg isRoot]
    simp only [defaultFor, if_true]
    split_ifs <;> decide

end Defaults

end DBSos.Vfs
