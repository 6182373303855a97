import DBSos.Vfs.Calls
import DBSos.Vfs.Tmpfs

/-!
# Opens without the right to write

`open` takes bit 0 and `O_CREAT` for the wish to write, `write` looks at bits 0 and 1,
and a driver truncates on `O_TRUNC`. An open with `O_RDWR` or `O_TRUNC` alone passes
as a reader.
-/

namespace DBSos.Vfs

/-- What a reader of a driver's files gets, and what the driver's `open` does to it.
`truncates` is for the drivers that act on `O_TRUNC`. -/
structure FsOps.View {δ : Type} (ops : FsOps δ) where
  content : Path → δ → Option (List UInt8)
  truncates : Bool
  Valid : δ → Prop
  keeps : ∀ rel flags disk bytes, Valid disk → (truncates = true → flags &&& oTrunc = 0) →
    content rel disk = some bytes → content rel (ops.openPath rel flags disk).2 = some bytes
  cuts : ∀ rel flags disk handle bytes, Valid disk → truncates = true → flags &&& oTrunc ≠ 0 →
    content rel disk = some bytes → (ops.openPath rel flags disk).1 = some handle →
    content rel (ops.openPath rel flags disk).2 = some []

namespace Tables

variable {δ : Type} (v : Tables δ) (uid : Uid) (path : Path) (flags : Flags) (fd : Fd)

/-- `write` hands its bytes to the driver. -/
def AcceptsWrite : Prop := ∃ file, v.openFiles fd = some file ∧ file.flags &&& 3 ≠ 0

/-- Nothing happened to a file that the user may only read, and nothing will through
the descriptor until it is closed. -/
def WriteChecked (content : δ → Option (List UInt8)) (after : Tables δ) : Prop :=
  v.pathExists path = true → v.canWrite uid path = false →
    (∀ bytes, content v.disk = some bytes → content after.disk = some bytes) ∧
      ∀ list, .close fd ∉ list → ¬ (after.calls list).AcceptsWrite fd

/-- The flags ask for no more than reading, whatever the driver makes of them. -/
def AsksToRead {ops : FsOps δ} (view : ops.View) (rel : Path) : Prop :=
  v.pathExists path = true → v.canWrite uid path = false →
    flags &&& 2 = 0 ∧
      (flags &&& oTrunc = 0 ∨ view.truncates = false ∨
        ∀ bytes, view.content rel v.disk = some bytes → bytes = [])

variable {v uid path flags fd}

/-- An open that is admitted to a file without the right to write passed as a reader. -/
theorem not_needWrite_of_admits (admitted : v.admits uid path flags = true)
    (present : v.pathExists path = true) (denied : v.canWrite uid path = false) :
    needWrite flags = false := by
  by_contra needed
  rw [Bool.not_eq_false] at needed
  rw [admits, if_pos needed, denied, present] at admitted
  simp at admitted

theorem and_three_of_not_needWrite (reader : needWrite flags = false) :
    flags &&& 3 = flags &&& 2 := by
  have first : flags &&& 1 = 0 := by
    rw [needWrite, Bool.or_eq_false_iff, decide_eq_false_iff_not, not_not] at reader
    exact reader.1
  rw [show (3 : Flags) = 1 ||| 2 by decide, BitVec.and_or_distrib_left, first]
  exact BitVec.zero_or

/-- The descriptor of an open keeps its flags until it is closed. -/
theorem acceptsWrite_iff {after : Tables δ} (facts : v.Opened uid path flags fd after)
    {list : List Call} (notClosed : .close fd ∉ list) :
    (after.calls list).AcceptsWrite fd ↔ flags &&& 3 ≠ 0 := by
  have isOpen := congrFun facts.files fd
  rw [Function.update_self] at isOpen
  obtain ⟨_, found, _, _, rfl⟩ := calls_keeps notClosed isOpen
  constructor
  · rintro ⟨file, found', writes⟩
    rw [found, Option.some.injEq] at found'
    subst found'
    exact writes
  · exact fun writes => ⟨_, found, writes⟩

end Tables

namespace Tmpfs

variable {t : Tmpfs} {path : Path} {flags : Flags} {i : TmpSlot} {file : TmpFile}

/-- What `tmp_open` leaves of a file it finds. -/
theorem openPath_of_find (fits : ¬ maxName < (norm path).length)
    (found : t.find (norm path) = some (i, file)) :
    (t.openPath path flags).2.find (norm path) =
      some (i, if flags &&& oTrunc ≠ 0 then file.truncate else file) := by
  have sameName : (if flags &&& oTrunc ≠ 0 then file.truncate else file).name = file.name := by
    split_ifs <;> rfl
  obtain ⟨named, -, -⟩ := find_sound found
  rw [openPath, if_neg named, if_neg fits, found]
  dsimp only
  cases t.freeHandle with
  | none => exact find_rewritten found sameName rfl
  | some h => exact find_rewritten found sameName rfl

end Tmpfs

/-- The RAM file system truncates. -/
def tmpView : tmpOps.View where
  content rel t := (t.find (norm rel)).map fun found => found.2.content
  truncates := true
  Valid _ := True
  keeps rel flags t bytes _ spared held := by
    obtain ⟨⟨i, file⟩, found, rfl⟩ := Option.map_eq_some_iff.mp held
    obtain ⟨named, -, -⟩ := Tmpfs.find_sound found
    change Option.map _ ((t.openPath rel flags).2.find (norm rel)) = _
    by_cases fits : maxName < (norm rel).length
    · rw [Tmpfs.openPath, if_neg named, if_pos fits]
      exact held
    · rw [Tmpfs.openPath_of_find fits found, if_neg (not_not.mpr (spared rfl))]
      rfl
  cuts rel flags t handle bytes _ _ asked held opened := by
    obtain ⟨⟨i, file⟩, found, rfl⟩ := Option.map_eq_some_iff.mp held
    obtain ⟨named, -, -⟩ := Tmpfs.find_sound found
    change Option.map _ ((t.openPath rel flags).2.find (norm rel)) = _
    change (t.openPath rel flags).1 = _ at opened
    by_cases fits : maxName < (norm rel).length
    · rw [Tmpfs.openPath, if_neg named, if_pos fits] at opened
      cases opened
    · rw [Tmpfs.openPath_of_find fits found, if_pos asked]
      rfl

namespace Tables

/-- A file of user 1, with two bytes in it, that others may read. -/
def sharedFile : Tables Tmpfs where
  drivers := [tmpOps]
  mounts := [tmpMount 0]
  openFiles _ := none
  perms := PermTable.empty.set (ascii ['/', 't', 'm', 'p', '/', 'a']) ⟨1, 1, 0o644⟩
  disk := (((Tmpfs.empty (some fun _ => 0)).openPath (ascii ['a']) oCreat).2.write 0 [1, 2] 0).2

def sharedPath : Path := ascii ['/', 't', 'm', 'p', '/', 'a']

end Tables

end DBSos.Vfs
