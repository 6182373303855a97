import DBSos.Vfs.Files

/-!
# What the calls do to the open-file table

`openFile_cases` says all that `open` can do. The other calls touch at most the
position of one entry, and `close` empties one.
-/

namespace DBSos.Vfs

open DBSos.Syscall (Perm StatInfo)

namespace Tables

variable {δ : Type} {v : Tables δ} {uid : Uid} {path : Path} {flags : Flags} {fd other : Fd}

/-- The entry differs in its position alone. -/
def Moved (file moved : VfsFile) : Prop :=
  ∃ offset size, moved = { file with offset := offset, size := size }

theorem Moved.refl (file : VfsFile) : Moved file file := ⟨file.offset, file.size, rfl⟩

theorem Moved.trans {a b c : VfsFile} (first : Moved a b) (second : Moved b c) : Moved a c := by
  obtain ⟨_, _, rfl⟩ := first
  obtain ⟨offset, size, rfl⟩ := second
  exact ⟨offset, size, rfl⟩

theorem freeSlot_vacant (found : v.freeSlot = some fd) : v.openFiles fd = none :=
  Option.isNone_iff_eq_none.mp (List.find?_some (p := fun fd => (v.openFiles fd).isNone) found)

/-- The open that fails: what becomes of the disk. -/
def FailedOpen (v : Tables δ) (uid : Uid) (path : Path) (flags : Flags) (disk : δ) : Prop :=
  disk = v.disk ∧ (v.admits uid path flags = false ∨ v.resolve path = none) ∨ ∃ idx driver rel, v.resolve path = some (idx, driver, rel) ∧
    (driver.openPath rel flags v.disk = (none, disk) ∨
      ∃ handle mid, driver.openPath rel flags v.disk = (some handle, mid) ∧
        v.freeSlot = none ∧ disk = driver.close handle mid)

/-- The open that succeeds: its driver, the handle it got and the entry it made. -/
structure Opened (v : Tables δ) (uid : Uid) (path : Path) (flags : Flags) (fd : Fd)
    (after : Tables δ) where
  idx : Nat
  driver : FsOps δ
  rel : Path
  handle : BitVec 64
  admitted : v.admits uid path flags = true
  resolved : v.resolve path = some (idx, driver, rel)
  opened : driver.openPath rel flags v.disk = (some handle, after.disk)
  vacant : v.freeSlot = some fd
  files : after.openFiles = Function.update v.openFiles fd
    (some ⟨idx, handle, 0, ((driver.stat rel after.disk).map StatInfo.size).getD 0, flags⟩)
  drivers : after.drivers = v.drivers
  mounts : after.mounts = v.mounts

theorem openFile_cases (v : Tables δ) (uid : Uid) (path : Path) (flags : Flags) :
    (∃ disk, v.openFile uid path flags = (none, { v with disk }) ∧
        v.FailedOpen uid path flags disk) ∨
      ∃ fd after, v.openFile uid path flags = (some fd, after) ∧
        Nonempty (v.Opened uid path flags fd after) := by
  unfold openFile
  by_cases admitted : v.admits uid path flags = true
  · rw [if_pos admitted]
    cases resolved : v.resolve path with
    | none => exact .inl ⟨v.disk, rfl, .inl ⟨rfl, .inr resolved⟩⟩
    | some found =>
      obtain ⟨idx, driver, rel⟩ := found
      dsimp only
      cases opened : driver.openPath rel flags v.disk with
      | mk result disk =>
        cases result with
        | none => exact .inl ⟨disk, rfl, .inr ⟨idx, driver, rel, resolved, .inl opened⟩⟩
        | some handle =>
          simp only [install]
          cases vacant : freeSlot { v with disk } with
          | none =>
            exact .inl ⟨driver.close handle disk, rfl,
              .inr ⟨idx, driver, rel, resolved, .inr ⟨handle, disk, opened, vacant, rfl⟩⟩⟩
          | some fd =>
            refine .inr ⟨fd, _, rfl, ⟨⟨idx, driver, rel, handle, admitted, resolved,
              ?_, vacant, ?_, ?_, ?_⟩⟩⟩
            · split_ifs <;> exact opened
            · split_ifs <;> rfl
            · split_ifs <;> rfl
            · split_ifs <;> rfl
  · rw [if_neg admitted]
    exact .inl ⟨v.disk, rfl, .inl ⟨rfl, .inl (Bool.eq_false_iff.mpr admitted)⟩⟩

/-- The success of an open read back. -/
theorem opened_of_openFile {after : Tables δ}
    (result : v.openFile uid path flags = (some fd, after)) :
    Nonempty (v.Opened uid path flags fd after) := by
  obtain ⟨disk, failed, -⟩ | ⟨fd', after', succeeded, facts⟩ := openFile_cases v uid path flags
  · rw [failed] at result
    cases congrArg Prod.fst result
  · rw [succeeded] at result
    cases result
    exact facts

end Tables

/-- A call on the file system. -/
inductive Call where
  | openFile (uid : Uid) (path : Path) (flags : Flags)
  | close (fd : Fd)
  | read (fd : Fd) (count : Nat)
  | write (fd : Fd) (bytes : List UInt8)
  | lseek (fd : Fd) (offset : BitVec 64) (whence : BitVec 32)
  | mkdir (uid : Uid) (path : Path)
  | rmdir (uid : Uid) (path : Path)
  | unlink (uid : Uid) (path : Path)
  | setPerm (path : Path) (perm : Perm)

namespace Tables

variable {δ : Type}

/-- The tables behind a call. -/
def call (v : Tables δ) : Call → Tables δ
  | .openFile uid path flags => (v.openFile uid path flags).2
  | .close fd => (v.close fd).2
  | .read fd count => (v.read fd count).2
  | .write fd bytes => (v.write fd bytes).2
  | .lseek fd offset whence => (v.lseek fd offset whence).2
  | .mkdir uid path => (v.mkdir uid path).2
  | .rmdir uid path => (v.rmdir uid path).2
  | .unlink uid path => (v.unlink uid path).2
  | .setPerm path perm => { v with perms := v.perms.set path perm }

/-- The tables behind a list of calls. -/
def calls (v : Tables δ) (list : List Call) : Tables δ := list.foldl call v

variable {v : Tables δ} {uid : Uid} {path : Path} {flags : Flags} {fd other : Fd}

theorem onDriver_openFiles (act : FsOps δ → Path → δ → Bool × δ) :
    (v.onDriver path act).2.openFiles = v.openFiles := by
  unfold onDriver
  split <;> rfl

theorem mkdir_openFiles : (v.mkdir uid path).2.openFiles = v.openFiles := by
  unfold mkdir
  split_ifs
  · dsimp only
    split_ifs <;> exact onDriver_openFiles _
  · rfl

theorem rmdir_openFiles : (v.rmdir uid path).2.openFiles = v.openFiles := by
  unfold rmdir
  split_ifs
  · exact onDriver_openFiles _
  · rfl

theorem unlink_openFiles : (v.unlink uid path).2.openFiles = v.openFiles := by
  unfold unlink
  split_ifs
  · exact onDriver_openFiles _
  · rfl

/-- A call on a descriptor leaves the table alone or moves the descriptor's entry. -/
def Touches (v after : Tables δ) (fd : Fd) : Prop :=
  after.openFiles = v.openFiles ∨ ∃ file moved, v.openFiles fd = some file ∧ Moved file moved ∧
    after.openFiles = Function.update v.openFiles fd (some moved)

theorem read_touches (count : Nat) : v.Touches (v.read fd count).2 fd := by
  unfold read
  split
  · exact .inl rfl
  · split
    · exact .inl rfl
    · split
      · exact .inl rfl
      · exact .inr ⟨_, _, by assumption, ⟨_, _, rfl⟩, rfl⟩

theorem write_touches (bytes : List UInt8) : v.Touches (v.write fd bytes).2 fd := by
  unfold write
  split
  · exact .inl rfl
  · split_ifs
    · exact .inl rfl
    · split
      · exact .inl rfl
      · split
        · exact .inl rfl
        · exact .inr ⟨_, _, by assumption, ⟨_, _, rfl⟩, rfl⟩

theorem lseek_touches (offset : BitVec 64) (whence : BitVec 32) :
    v.Touches (v.lseek fd offset whence).2 fd := by
  unfold lseek
  split
  · exact .inl rfl
  · split
    · exact .inl rfl
    · exact .inr ⟨_, _, by assumption, ⟨_, _, rfl⟩, rfl⟩

/-- An open entry survives such a call up to its position. -/
theorem Touches.keeps {after : Tables δ} (touches : v.Touches after fd) {file : VfsFile}
    (isOpen : v.openFiles other = some file) :
    ∃ moved, after.openFiles other = some moved ∧ Moved file moved := by
  obtain same | ⟨before, moved, found, moves, files⟩ := touches
  · exact ⟨file, by rw [same, isOpen], .refl file⟩
  · by_cases here : other = fd
    · subst here
      rw [isOpen, Option.some.injEq] at found
      subst found
      exact ⟨moved, by rw [files, Function.update_self], moves⟩
    · exact ⟨file, by rw [files, Function.update_of_ne here, isOpen], .refl file⟩

/-- Nothing but its own close takes an entry from the table. -/
theorem call_keeps {c : Call} (notClosed : c ≠ .close fd) {file : VfsFile}
    (isOpen : v.openFiles fd = some file) :
    ∃ moved, (v.call c).openFiles fd = some moved ∧ Moved file moved := by
  have same {after : Tables δ} (files : after.openFiles = v.openFiles) :
      ∃ moved, after.openFiles fd = some moved ∧ Moved file moved :=
    ⟨file, by rw [files, isOpen], .refl file⟩
  cases c with
  | openFile uid path flags =>
    obtain ⟨disk, failed, -⟩ | ⟨opened, after, succeeded, ⟨facts⟩⟩ :=
      openFile_cases v uid path flags
    · exact same (by rw [call, failed])
    · have apart : fd ≠ opened := by
        rintro rfl
        rw [freeSlot_vacant facts.vacant] at isOpen
        cases isOpen
      refine ⟨file, ?_, .refl file⟩
      rw [call, succeeded, facts.files, Function.update_of_ne apart, isOpen]
  | close closed =>
    have apart : fd ≠ closed := fun here => notClosed (by rw [here])
    refine ⟨file, ?_, .refl file⟩
    rw [call, close]
    cases v.openFiles closed with
    | none => exact isOpen
    | some _ => simp only [setFile, Function.update_of_ne apart, isOpen]
  | read fd' count => exact (read_touches count).keeps isOpen
  | write fd' bytes => exact (write_touches bytes).keeps isOpen
  | lseek fd' offset whence => exact (lseek_touches offset whence).keeps isOpen
  | mkdir uid path => exact same mkdir_openFiles
  | rmdir uid path => exact same rmdir_openFiles
  | unlink uid path => exact same unlink_openFiles
  | setPerm path perm => exact same rfl

theorem Touches.origin {after : Tables δ} (touches : v.Touches after fd) {file : VfsFile}
    (isOpen : after.openFiles other = some file) :
    ∃ before, v.openFiles other = some before ∧ Moved before file := by
  obtain same | ⟨before, moved, found, moves, files⟩ := touches
  · exact ⟨file, by rw [← same, isOpen], .refl file⟩
  · rw [files] at isOpen
    by_cases here : other = fd
    · subst here
      rw [Function.update_self, Option.some.injEq] at isOpen
      exact ⟨before, found, isOpen ▸ moves⟩
    · rw [Function.update_of_ne here] at isOpen
      exact ⟨file, isOpen, .refl file⟩

/-- An entry behind a call was there before, or the call is the open that made it. -/
theorem call_origin {c : Call} {file : VfsFile} (isOpen : (v.call c).openFiles fd = some file) :
    (∃ before, v.openFiles fd = some before ∧ Moved before file) ∨
      ∃ uid path flags, c = .openFile uid path flags ∧
        Nonempty (v.Opened uid path flags fd (v.call c)) := by
  have same (files : (v.call c).openFiles = v.openFiles) :
      ∃ before, v.openFiles fd = some before ∧ Moved before file :=
    ⟨file, by rw [← files, isOpen], .refl file⟩
  cases c with
  | openFile uid path flags =>
    obtain ⟨disk, failed, -⟩ | ⟨opened, after, succeeded, ⟨facts⟩⟩ :=
      openFile_cases v uid path flags
    · exact .inl (same (by rw [call, failed]))
    · have behind : v.call (.openFile uid path flags) = after := by rw [call, succeeded]
      by_cases here : fd = opened
      · subst here
        exact .inr ⟨uid, path, flags, rfl, behind ▸ ⟨facts⟩⟩
      · rw [behind, facts.files, Function.update_of_ne here] at isOpen
        exact .inl ⟨file, isOpen, .refl file⟩
  | close closed =>
    rw [call, close] at isOpen
    cases found : v.openFiles closed with
    | none =>
      rw [found] at isOpen
      exact .inl ⟨file, isOpen, .refl file⟩
    | some entry =>
      rw [found] at isOpen
      by_cases here : fd = closed
      · subst here
        simp [setFile] at isOpen
      · simp only [setFile, Function.update_of_ne here] at isOpen
        exact .inl ⟨file, isOpen, .refl file⟩
  | read fd' count => exact .inl ((read_touches count).origin isOpen)
  | write fd' bytes => exact .inl ((write_touches bytes).origin isOpen)
  | lseek fd' offset whence => exact .inl ((lseek_touches offset whence).origin isOpen)
  | mkdir uid path => exact .inl (same mkdir_openFiles)
  | rmdir uid path => exact .inl (same rmdir_openFiles)
  | unlink uid path => exact .inl (same unlink_openFiles)
  | setPerm path perm => exact .inl (same rfl)

/-- No call registers a driver. -/
theorem call_drivers (c : Call) : (v.call c).drivers = v.drivers := by
  have onDriver (path : Path) (act : FsOps δ → Path → δ → Bool × δ) :
      (v.onDriver path act).2.drivers = v.drivers := by
    unfold onDriver
    split <;> rfl
  cases c with
  | openFile uid path flags =>
    obtain ⟨disk, failed, -⟩ | ⟨opened, after, succeeded, ⟨facts⟩⟩ :=
      openFile_cases v uid path flags
    · rw [call, failed]
    · rw [call, succeeded, facts.drivers]
  | close fd =>
    rw [call, close]
    cases v.openFiles fd <;> rfl
  | read fd count =>
    rw [call, read]
    split
    · rfl
    · split
      · rfl
      · split <;> rfl
  | write fd bytes =>
    rw [call, write]
    split
    · rfl
    · split_ifs
      · rfl
      · split
        · rfl
        · split <;> rfl
  | lseek fd offset whence =>
    rw [call, lseek]
    split
    · rfl
    · split <;> rfl
  | mkdir uid path =>
    rw [call, mkdir]
    split_ifs
    · dsimp only
      split_ifs <;> exact onDriver _ _
    · rfl
  | rmdir uid path =>
    rw [call, rmdir]
    split_ifs
    · exact onDriver _ _
    · rfl
  | unlink uid path =>
    rw [call, unlink]
    split_ifs
    · exact onDriver _ _
    · rfl
  | setPerm path perm => rfl

/-- An entry lives, up to its position, until a call closes it. -/
theorem calls_keeps {list : List Call} (notClosed : .close fd ∉ list) {file : VfsFile}
    (isOpen : v.openFiles fd = some file) :
    ∃ moved, (v.calls list).openFiles fd = some moved ∧ Moved file moved := by
  induction list generalizing v file with
  | nil => exact ⟨file, isOpen, .refl file⟩
  | cons c rest ih =>
    obtain ⟨notHere, notLater⟩ := not_or.mp (List.mem_cons.not.mp notClosed)
    obtain ⟨moved, found, moves⟩ := call_keeps (fun same => notHere same.symm) isOpen
    obtain ⟨last, foundLast, movesLast⟩ := ih notLater found
    exact ⟨last, foundLast, moves.trans movesLast⟩

/-- The entries of `OPEN_FILES` in use. -/
def occupied (v : Tables δ) (fd : Fd) : Bool := (v.openFiles fd).isSome

theorem occupied_update {after : Tables δ} {entry : Option VfsFile}
    (files : after.openFiles = Function.update v.openFiles fd entry) :
    after.occupied = Function.update v.occupied fd entry.isSome := by
  funext other
  rw [occupied, files]
  by_cases here : other = fd
  · subst here
    rw [Function.update_self, Function.update_self]
  · rw [Function.update_of_ne here, Function.update_of_ne here, occupied]

theorem Touches.occupied_eq {after : Tables δ} (touches : v.Touches after fd) :
    after.occupied = v.occupied := by
  obtain same | ⟨before, moved, found, -, files⟩ := touches
  · funext other
    rw [occupied, occupied, same]
  · rw [occupied_update files, Function.update_eq_self_iff, occupied, found]
    rfl

theorem openFile_occupied_none (failed : (v.openFile uid path flags).1 = none) :
    (v.openFile uid path flags).2.occupied = v.occupied := by
  obtain ⟨disk, result, -⟩ | ⟨fd, after, result, -⟩ := openFile_cases v uid path flags
  · rw [result]
    rfl
  · rw [result] at failed
    cases failed

theorem openFile_occupied_some (succeeded : (v.openFile uid path flags).1 = some fd) :
    v.occupied fd = false ∧
      (v.openFile uid path flags).2.occupied = Function.update v.occupied fd true := by
  obtain ⟨facts⟩ := opened_of_openFile (Prod.ext_iff.mpr ⟨succeeded, rfl⟩)
  refine ⟨?_, (occupied_update facts.files).trans rfl⟩
  rw [occupied, freeSlot_vacant facts.vacant]
  rfl

theorem close_openFiles (v : Tables δ) (fd : Fd) :
    (v.close fd).2.openFiles = Function.update v.openFiles fd none := by
  rw [close]
  cases found : v.openFiles fd with
  | none => exact (Function.update_eq_self_iff.mpr found.symm).symm
  | some file => rfl

theorem openFile_openFiles_none (failed : (v.openFile uid path flags).1 = none) :
    (v.openFile uid path flags).2.openFiles = v.openFiles := by
  obtain ⟨disk, result, -⟩ | ⟨fd, after, result, -⟩ := openFile_cases v uid path flags
  · rw [result]
  · rw [result] at failed
    cases failed

theorem openFile_openFiles_some (succeeded : (v.openFile uid path flags).1 = some fd) :
    v.openFiles fd = none ∧ ∃ file,
      (v.openFile uid path flags).2.openFiles = Function.update v.openFiles fd (some file) := by
  obtain ⟨facts⟩ := opened_of_openFile (Prod.ext_iff.mpr ⟨succeeded, rfl⟩)
  exact ⟨freeSlot_vacant facts.vacant, _, facts.files⟩

theorem close_occupied : (v.close fd).2.occupied = Function.update v.occupied fd false := by
  rw [close]
  cases found : v.openFiles fd with
  | none =>
    refine (Function.update_eq_self_iff.mpr ?_).symm
    rw [occupied, found]
    rfl
  | some file =>
    exact occupied_update (show _ = Function.update v.openFiles fd none from rfl)

end Tables

end DBSos.Vfs
