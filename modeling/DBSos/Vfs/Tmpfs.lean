import DBSos.Vfs.Files

/-!
# The RAM file system

A flat table of files under their last path component and a table of handles, both
filled first-fit. `kmalloc` is represented by what it would return next.
-/

namespace DBSos.Vfs

open DBSos.Syscall (StatInfo DirEntry)

abbrev maxFiles : Nat := 32

/-- An index of `FILES` or of `HANDLES`. -/
abbrev TmpSlot := Fin maxFiles

def maxFileSize : Nat := 8192

def maxName : Nat := 32

/-- A `TmpFile` in use. None is a directory, and all have the same capacity. -/
structure TmpFile where
  name : Path
  data : Nat → UInt8
  size : Nat
  fits : size ≤ maxFileSize

namespace TmpFile

variable (f : TmpFile)

/-- The bytes that a reader finds. -/
def content : List UInt8 := (List.range f.size).map f.data

def truncate : TmpFile := { f with size := 0, fits := Nat.zero_le _ }

/-- The copy out of `tmp_read`. -/
def readAt (count offset : Nat) : List UInt8 :=
  if offset ≥ f.size then []
  else (List.range (min count (f.size - offset))).map fun i => f.data (offset + i)

/-- The number of bytes that `tmp_write` copies. -/
def room (count offset : Nat) : Nat := min count (maxFileSize - offset)

/-- The copy into the file of `tmp_write`, at an offset inside the buffer. -/
def writeAt (bytes : List UInt8) (offset : Nat) (inside : offset ≤ maxFileSize) : TmpFile where
  name := f.name
  data i :=
    if offset ≤ i ∧ i < offset + room bytes.length offset then bytes.getD (i - offset) 0
    else f.data i
  size := max f.size (offset + room bytes.length offset)
  fits := by
    have := f.fits
    unfold room
    omega

end TmpFile

/-- The loops of `norm` that drop slashes while more than one byte is left. -/
def trimSlashes : Path → Path
  | c :: next :: rest => if c = slash then trimSlashes (next :: rest) else c :: next :: rest
  | path => path

/-- `norm`. -/
def norm (path : Path) : Path :=
  let p := trimSlashes path
  if p = [slash] then []
  else
    let p := (trimSlashes p.reverse).reverse
    (p.reverse.takeWhile fun c => c ≠ slash).reverse

/-- The handle of the root directory. -/
def rootHandle : BitVec 64 := BitVec.allOnes 64

/-- The statics of `tmpfs`. A handle in use stands for a file in use. -/
structure Tmpfs where
  files : TmpSlot → Option TmpFile
  handles : TmpSlot → Option TmpSlot
  heap : Option (Nat → UInt8)
  bound : ∀ h i, handles h = some i → (files i).isSome = true

/-- The handle as `usize`. -/
def ofSlot (h : TmpSlot) : BitVec 64 := BitVec.ofNat 64 h.val

/-- The slot of a handle, if it is below `MAX_FILES`. -/
def toSlot (handle : BitVec 64) : Option TmpSlot :=
  if below : handle.toNat < maxFiles then some ⟨handle.toNat, below⟩ else none

@[simp] theorem toSlot_ofSlot (h : TmpSlot) : toSlot (ofSlot h) = some h := by
  have small : h.val < 32 := h.isLt
  have value : (ofSlot h).toNat = h.val := by simp [ofSlot]; omega
  rw [toSlot, dif_pos (show _ < 32 by omega)]
  exact congrArg some (Fin.ext value)

@[simp] theorem toSlot_rootHandle : toSlot rootHandle = none := rfl

namespace Tmpfs

variable (t : Tmpfs)

def empty (heap : Option (Nat → UInt8)) : Tmpfs where
  files _ := none
  handles _ := none
  heap := heap
  bound _ _ used := nomatch used

/-- The test that `find` makes of a slot. -/
def named (name : Path) (i : TmpSlot) : Bool := (t.files i).any fun file => file.name = name

/-- `find`, with the file it finds. -/
def find (name : Path) : Option (TmpSlot × TmpFile) :=
  if name = [] then none
  else
    ((List.finRange maxFiles).find? (t.named name)).bind fun i =>
      (t.files i).map fun file => (i, file)

/-- `free_slot`. -/
def freeSlot : Option TmpSlot := (List.finRange maxFiles).find? fun i => (t.files i).isNone

def freeHandle : Option TmpSlot := (List.finRange maxFiles).find? fun h => (t.handles h).isNone

def setFile (i : TmpSlot) (file : TmpFile) : Tmpfs where
  files := Function.update t.files i (some file)
  handles := t.handles
  heap := t.heap
  bound h j used := by
    by_cases same : j = i
    · subst same
      simp
    · rw [Function.update_of_ne same]
      exact t.bound h j used

def bind (h i : TmpSlot) (file : TmpFile) : Tmpfs where
  files := Function.update t.files i (some file)
  handles := Function.update t.handles h (some i)
  heap := t.heap
  bound h' j used := by
    by_cases same : j = i
    · subst same
      simp
    · rw [Function.update_of_ne same]
      by_cases here : h' = h
      · subst here
        rw [Function.update_self] at used
        exact absurd (Option.some.inj used).symm same
      · rw [Function.update_of_ne here] at used
        exact t.bound h' j used

def release (h : TmpSlot) : Tmpfs where
  files := t.files
  handles := Function.update t.handles h none
  heap := t.heap
  bound h' j used := by
    by_cases here : h' = h
    · subst here
      simp at used
    · rw [Function.update_of_ne here] at used
      exact t.bound h' j used

/-- The end of `tmp_unlink`. -/
def remove (i : TmpSlot) : Tmpfs where
  files := Function.update t.files i none
  handles h := if t.handles h = some i then none else t.handles h
  heap := t.heap
  bound h j used := by
    split_ifs at used with gone
    have other : j ≠ i := fun same => gone (same ▸ used)
    rw [Function.update_of_ne other]
    exact t.bound h j used

/-- The file that a handle stands for. -/
def fileOf (h : TmpSlot) : Option (TmpSlot × TmpFile) :=
  (t.handles h).bind fun i => (t.files i).map fun file => (i, file)

/-- The branch of `tmp_open` for a new name. -/
def create (name : Path) : Option (BitVec 64) × Tmpfs :=
  match t.freeSlot, t.heap, t.freeHandle with
  | some slot, some data, some h =>
    (some (ofSlot h), t.bind h slot ⟨name, data, 0, Nat.zero_le _⟩)
  | _, _, _ => (none, t)

/-- `tmp_open`. -/
def openPath (path : Path) (flags : Flags) : Option (BitVec 64) × Tmpfs :=
  let name := norm path
  if name = [] then (some rootHandle, t)
  else if maxName < name.length then (none, t)
  else
    match t.find name with
    | some (i, file) =>
      let file := if flags &&& oTrunc ≠ 0 then file.truncate else file
      match t.freeHandle with
      | some h => (some (ofSlot h), t.bind h i file)
      | none => (none, t.setFile i file)
    | none => if flags &&& oCreat = 0 then (none, t) else t.create name

/-- Whether `tmp_open` takes a handle. -/
def takesHandle (path : Path) (flags : Flags) : Bool :=
  norm path ≠ [] && (norm path).length ≤ maxName && t.freeHandle.isSome &&
    ((t.find (norm path)).isSome ||
      (flags &&& oCreat ≠ 0 && t.freeSlot.isSome && t.heap.isSome))

/-- `tmp_close`. -/
def close (handle : BitVec 64) : Tmpfs := (toSlot handle).elim t t.release

/-- `tmp_read`. -/
def read (handle : BitVec 64) (count : Nat) (offset : BitVec 64) : Option (List UInt8) :=
  if handle = rootHandle then some []
  else
    ((toSlot handle).bind t.fileOf).map fun found => found.2.readAt count offset.toNat

/-- `tmp_write`. -/
def write (handle : BitVec 64) (bytes : List UInt8) (offset : BitVec 64) : Option Nat × Tmpfs :=
  match (toSlot handle).bind t.fileOf with
  | none => (none, t)
  | some (i, file) =>
    if inside : offset.toNat ≤ maxFileSize then
      (some (TmpFile.room bytes.length offset.toNat),
        t.setFile i (file.writeAt bytes offset.toNat inside))
    else (none, t)

/-- `tmp_stat`. -/
def stat (path : Path) : Option StatInfo :=
  let name := norm path
  if name = [] then some ⟨0, true, 0⟩
  else
    (t.find name).map fun found =>
      ⟨BitVec.ofNat 32 found.2.size, false, BitVec.ofNat 32 found.1.val⟩

/-- `tmp_readdir`. -/
def readdir (path : Path) (room : Nat) : Option (List DirEntry) :=
  if norm path = [] then
    some ((((List.finRange maxFiles).filterMap t.files).take room).map fun file =>
      ⟨Vector.ofFn fun i => file.name.getD i 0, false, BitVec.ofNat 32 file.size⟩)
  else none

/-- `tmp_unlink`. -/
def unlink (path : Path) : Bool × Tmpfs :=
  match t.find (norm path) with
  | none => (false, t)
  | some (i, _) => (true, t.remove i)

variable {t} {t' : Tmpfs} {name : Path} {i : TmpSlot} {file : TmpFile}

theorem find_sound (found : t.find name = some (i, file)) :
    name ≠ [] ∧ t.files i = some file ∧ file.name = name := by
  rw [find] at found
  split_ifs at found with root
  obtain ⟨j, first, mapped⟩ := Option.bind_eq_some_iff.mp found
  obtain ⟨g, used, same⟩ := Option.map_eq_some_iff.mp mapped
  cases same
  have test : t.named name i = true := List.find?_some first
  rw [named, used, Option.any_some, decide_eq_true_eq] at test
  exact ⟨root, used, test⟩

/-- The slot that a name is found in depends on the names alone. -/
theorem find_of_names
    (names : ∀ j, (t'.files j).map TmpFile.name = (t.files j).map TmpFile.name)
    (found : t.find name = some (i, file)) :
    t'.find name = (t'.files i).map fun file => (i, file) := by
  have tests : t'.named name = t.named name := by
    funext j
    have same := names j
    rw [named, named]
    cases inAfter : t'.files j <;> cases inBefore : t.files j <;>
      simp [inAfter, inBefore] at same ⊢
    rw [same]
  rw [find] at found ⊢
  split_ifs at found ⊢ with root
  obtain ⟨j, first, mapped⟩ := Option.bind_eq_some_iff.mp found
  obtain ⟨g, used, same⟩ := Option.map_eq_some_iff.mp mapped
  cases same
  rw [tests, first, Option.bind_some]

/-- A file rewritten under its name is found where it was. -/
theorem find_rewritten (found : t.find name = some (i, file)) {file' : TmpFile}
    (sameName : file'.name = file.name) (files : t'.files = Function.update t.files i (some file')) :
    t'.find name = some (i, file') := by
  obtain ⟨-, used, -⟩ := find_sound found
  rw [find_of_names (t := t) (fun j => ?_) found, files, Function.update_self]
  · rfl
  · rw [files]
    by_cases here : j = i
    · subst here
      rw [Function.update_self, used, Option.map_some, Option.map_some, sameName]
    · rw [Function.update_of_ne here]

/-- Both leave the handles alone and have the same slots in use. -/
def SameSlots (t t' : Tmpfs) : Prop :=
  t'.handles = t.handles ∧ ∀ i, (t'.files i).isSome = (t.files i).isSome

theorem SameSlots.refl (t : Tmpfs) : SameSlots t t := ⟨rfl, fun _ => rfl⟩

theorem sameSlots_setFile (used : t.files i = some file) (file' : TmpFile) :
    SameSlots t (t.setFile i file') := by
  refine ⟨rfl, fun j => ?_⟩
  by_cases here : j = i
  · subst here
    simp [setFile, used]
  · simp [setFile, here]

theorem freeHandle_unbound {h : TmpSlot} (found : t.freeHandle = some h) : t.handles h = none :=
  Option.isNone_iff_eq_none.mp (List.find?_some (p := fun h => (t.handles h).isNone) found)

theorem fileOf_used {h : TmpSlot} (found : t.fileOf h = some (i, file)) :
    t.handles h = some i ∧ t.files i = some file := by
  obtain ⟨j, bound, mapped⟩ := Option.bind_eq_some_iff.mp found
  obtain ⟨g, used, same⟩ := Option.map_eq_some_iff.mp mapped
  cases same
  exact ⟨bound, used⟩

/-- What `tmp_open` does to the slots: it takes the first free handle, or nothing. -/
theorem openPath_cases (t : Tmpfs) (path : Path) (flags : Flags) :
    (t.takesHandle path flags = false ∧ ∃ result t', t.openPath path flags = (result, t') ∧
        (result = none ∨ result = some rootHandle) ∧ SameSlots t t') ∨
      (t.takesHandle path flags = true ∧
        ∃ h i file, t.openPath path flags = (some (ofSlot h), t.bind h i file) ∧
          t.freeHandle = some h) := by
  unfold openPath takesHandle
  by_cases root : norm path = []
  · exact .inl ⟨by simp [root], _, t, if_pos root, .inr rfl, .refl t⟩
  dsimp only
  rw [if_neg root]
  by_cases long : maxName < (norm path).length
  · exact .inl ⟨by simp [long], _, t, if_pos long, .inl rfl, .refl t⟩
  rw [if_neg long]
  cases found : t.find (norm path) with
  | some pair =>
    obtain ⟨i, file⟩ := pair
    obtain ⟨-, used, -⟩ := find_sound found
    dsimp only
    cases free : t.freeHandle with
    | none => exact .inl ⟨by simp, _, _, rfl, .inl rfl, sameSlots_setFile used _⟩
    | some h => exact .inr ⟨by simp [root, not_lt.mp long], h, i, _, rfl, rfl⟩
  | none =>
    dsimp only
    split_ifs with old
    · exact .inl ⟨by simp [old], _, t, rfl, .inl rfl, .refl t⟩
    · unfold create
      cases t.freeSlot with
      | none => exact .inl ⟨by simp, _, t, rfl, .inl rfl, .refl t⟩
      | some slot =>
        cases t.heap with
        | none => exact .inl ⟨by simp, _, t, rfl, .inl rfl, .refl t⟩
        | some data =>
          cases free : t.freeHandle with
          | none => exact .inl ⟨by simp, _, t, rfl, .inl rfl, .refl t⟩
          | some h =>
            exact .inr ⟨by simpa [root, not_lt.mp long] using old, h, slot, _, rfl, rfl⟩

theorem write_sameSlots (handle : BitVec 64) (bytes : List UInt8) (offset : BitVec 64) :
    SameSlots t (t.write handle bytes offset).2 := by
  unfold write
  split
  · exact .refl t
  · rename_i i file found
    obtain ⟨h, -, there⟩ := Option.bind_eq_some_iff.mp found
    split_ifs
    · exact sameSlots_setFile (fileOf_used there).2 _
    · exact .refl t

end Tmpfs

/-- `TMP_OPS`. -/
def tmpOps : FsOps Tmpfs where
  openPath path flags t := t.openPath path flags
  close handle t := t.close handle
  read handle count offset t := (t.read handle count offset, t)
  write handle bytes offset t := t.write handle bytes offset
  stat path t := t.stat path
  readdir path room t := t.readdir path room
  mkdir _ t := (true, t)
  rmdir _ t := (true, t)
  unlink path t := t.unlink path

end DBSos.Vfs
