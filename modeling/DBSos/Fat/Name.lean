import DBSos.Vfs.Permissions
import Mathlib.Data.List.DropRight

/-!
# Names in a directory

A short name is eleven bytes, padded with blanks. A long name is spelled by entries
in front of the short one, thirteen characters each, and is gathered across entries
while a directory is read.
-/

namespace DBSos.Fat

open DBSos.Vfs (Path slash)

/-- `to_ascii_uppercase`. -/
def upper (c : UInt8) : UInt8 := if 0x61 ≤ c ∧ c ≤ 0x7A then c - 32 else c

/-- `b' '`. -/
abbrev blank : UInt8 := 0x20

/-- `b'.'`. -/
abbrev dot : UInt8 := 0x2E

/-- `user.iter().position(|&c| c == b'.')`. -/
def dotPosition (name : Path) : Option Nat := name.findIdx? (· == dot)

/-- Upper case, with blanks up to a fixed length. -/
def padded (count : Nat) (text : Path) : List UInt8 :=
  text.map upper ++ List.replicate (count - text.length) blank

/-- `name_to_83`. -/
def nameTo83 (name : Path) : Option (List UInt8) :=
  if name = [] ∨ 12 < name.length then none
  else
    match dotPosition name with
    | none => if 8 < name.length then none else some (padded 8 name ++ padded 3 [])
    | some d =>
      let ext := name.drop (d + 1)
      if d = 0 ∨ 8 < d then none
      else if ext = [] ∨ 3 < ext.length then none
      else some (padded 8 (name.take d) ++ padded 3 ext)

/-- One comparison loop of `name_match`: the bytes of an entry against an upper-cased
text; what lies behind the last byte compared is not looked at. -/
def fieldMatch (entry : Nat → UInt8) (start count : Nat) (text : Path) : Bool :=
  (List.range count).all fun i =>
    entry (start + i) == if i < text.length then upper (text.getD i 0) else blank

/-- `name_match`. -/
def nameMatch (entry : Nat → UInt8) (user : Path) : Bool :=
  match dotPosition user with
  | none => fieldMatch entry 0 8 user && (entry 8 == blank || entry 8 == 0)
  | some d => fieldMatch entry 0 8 (user.take d) && fieldMatch entry 8 3 (user.drop (d + 1))

/-- The 32 bytes of a directory entry. -/
abbrev Record := Nat → UInt8

/-- `buf[off]`, the first byte. -/
def Record.first (r : Record) : UInt8 := r 0

def Record.attr (r : Record) : UInt8 := r 11

/-- Where the character `j` of a long-name entry lies. -/
def lfnOffset (j : Nat) : Nat :=
  if j < 5 then 1 + j * 2 else if j < 11 then 14 + (j - 5) * 2 else 28 + (j - 11) * 2

/-- A character of `read_lfn_chars`. -/
def Record.lfnChar (r : Record) (j : Nat) : Nat :=
  (r (lfnOffset j)).toNat ||| (r (lfnOffset j + 1)).toNat <<< 8

/-- The byte that `find_in_dir` keeps of a character. -/
def lfnByte (ch : Nat) : UInt8 :=
  if ch = 0 then 0 else if ch < 0x80 then upper (UInt8.ofNat ch) else 0xFF

/-- `lfn_name` and `lfn_filled`. -/
structure Lfn where
  name : Nat → UInt8
  filled : Bool

namespace Lfn

/-- The state at the start and after a reset. -/
def empty : Lfn := ⟨fun _ => 0, false⟩

/-- The bytes in front of the first zero. -/
def spelled (lfn : Lfn) : Path := ((List.range 256).map lfn.name).takeWhile (· != 0)

/-- A long-name entry puts its characters into their places, or resets the state when
its sequence number is out of range. -/
def gather (lfn : Lfn) (r : Record) : Lfn :=
  let seq := r.first.toNat
  let seqNum := seq &&& 0x3F
  if seqNum = 0 ∨ 20 < seqNum then empty
  else
    let idx := seqNum - 1
    { name := fun pos =>
        if idx * 13 ≤ pos ∧ pos < idx * 13 + 13 ∧ pos < 256 then
          lfnByte (r.lfnChar (pos - idx * 13))
        else lfn.name pos
      filled := lfn.filled || seq &&& 0x40 ≠ 0 }

/-- `lfn_match` with the gathered name. -/
def lfnMatch (lfn : Lfn) (user : Path) : Bool := lfn.spelled == user.map upper

end Lfn

/-- The bytes of `last_component`. -/
def trimmed (path : Path) : Path := path.rdropWhile (· == slash)

/-- `last_component`. -/
def lastComponent (path : Path) : Path := (trimmed path).rtakeWhile (· != slash)

/-- `parent_path`. -/
def parentPath (path : Path) : Path :=
  if lastComponent path = [] then []
  else
    let above := ((trimmed path).rdropWhile (· != slash)).rdropWhile (· == slash)
    if above = [] then (if path.head? = some slash then [slash] else []) else above

/-- The nonempty components that `resolve_dir` looks up one after the other. -/
def components (path : Path) : List Path := (path.splitOnP (· == slash)).filter (· ≠ [])

end DBSos.Fat
