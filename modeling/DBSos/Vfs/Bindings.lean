import DBSos.Lib.Handles
import DBSos.Lib.Trace
import DBSos.Vfs.Calls
import DBSos.Vfs.Tmpfs

/-!
# Descriptors of the RAM file system

An open descriptor keeps the number of a handle. `tmp_unlink` frees the handles of
its file without a word to the descriptors, and the next `tmp_open` takes the first
free one.
-/

namespace DBSos.Vfs

open DBSos.Lib

/-- A call, or a change in what `kmalloc` would return next. -/
inductive Turn where
  | call (c : Call)
  | heap (block : Option (Nat → UInt8))

namespace Tables

/-- The handle of an open descriptor, the root directory's apart. -/
def heldBy {δ : Type} (v : Tables δ) (fd : Fd) : Option TmpSlot :=
  (v.openFiles fd).bind fun file => toSlot file.handle

def turn (v : Tables Tmpfs) : Turn → Tables Tmpfs
  | .call c => v.call c
  | .heap block => { v with disk := { v.disk with heap := block } }

/-- The RAM file system is the only driver, and every open file is one of its own. -/
structure OnTmpfs (v : Tables Tmpfs) : Prop where
  drivers : v.drivers = [tmpOps]
  idx : ∀ {fd file}, v.openFiles fd = some file → file.driverIdx = 0

variable {v : Tables Tmpfs} {uid : Uid} {path rel : Path} {flags : Flags} {fd : Fd} {idx : Nat}
  {driver : FsOps Tmpfs}

theorem OnTmpfs.driver_eq (on : v.OnTmpfs) (resolved : v.resolve path = some (idx, driver, rel)) :
    idx = 0 ∧ driver = tmpOps := by
  obtain ⟨m, -, mapped⟩ := Option.bind_eq_some_iff.mp resolved
  obtain ⟨found, atIdx, same⟩ := Option.map_eq_some_iff.mp mapped
  cases same
  rw [on.drivers] at atIdx
  have zero : m.driverIdx = 0 := by
    have := List.getElem?_eq_some_iff.mp atIdx
    simpa using this.1
  rw [zero] at atIdx
  exact ⟨zero, (Option.some.inj atIdx).symm⟩

theorem OnTmpfs.driver_of_open (on : v.OnTmpfs) {file : VfsFile}
    (isOpen : v.openFiles fd = some file) : v.drivers[file.driverIdx]? = some tmpOps := by
  rw [on.idx isOpen, on.drivers]
  rfl

/-- Whether an open takes a handle and keeps it. -/
def takes (v : Tables Tmpfs) (uid : Uid) (path : Path) (flags : Flags) : Bool :=
  v.admits uid path flags && v.freeSlot.isSome &&
    (v.resolve path).any fun found => v.disk.takesHandle found.2.2 flags

/-- An open that takes the first free handle and binds it to a slot. -/
structure Taken (v after : Tables Tmpfs) (fd : Fd) (h i : TmpSlot) : Prop where
  idle : v.openFiles fd = none
  free : v.disk.freeHandle = some h
  held : after.heldBy = Function.update v.heldBy fd (some h)
  handles : after.disk.handles = Function.update v.disk.handles h (some i)
  live : ∀ j, (after.disk.files j).isSome = if j = i then true else (v.disk.files j).isSome

/-- What any other turn does to descriptors, handles and slots. -/
inductive Effect (v after : Tables Tmpfs) : Prop where
  | quiet (held : after.heldBy = v.heldBy) (slots : Tmpfs.SameSlots v.disk after.disk)
  /-- A file is created, but the table of open files is full. -/
  | create (i : TmpSlot) (free : v.disk.files i = none) (held : after.heldBy = v.heldBy)
      (handles : after.disk.handles = v.disk.handles)
      (live : ∀ j, (after.disk.files j).isSome = if j = i then true else (v.disk.files j).isSome)
  | giveBack (fd : Fd) (h : TmpSlot) (holder : v.heldBy fd = some h)
      (held : after.heldBy = Function.update v.heldBy fd none)
      (handles : after.disk.handles = Function.update v.disk.handles h none)
      (live : ∀ j, (after.disk.files j).isSome = (v.disk.files j).isSome)
  | remove (i : TmpSlot) (used : (v.disk.files i).isSome = true) (held : after.heldBy = v.heldBy)
      (disk : after.disk = v.disk.remove i)

theorem heldBy_of_files {after : Tables Tmpfs} (files : after.openFiles = v.openFiles) :
    after.heldBy = v.heldBy := by
  funext fd
  rw [heldBy, heldBy, files]

theorem Touches.heldBy_eq {after : Tables Tmpfs} (touches : v.Touches after fd) :
    after.heldBy = v.heldBy := by
  obtain files | ⟨file, moved, found, ⟨_, _, rfl⟩, files⟩ := touches
  · exact heldBy_of_files files
  · funext other
    rw [heldBy, heldBy, files]
    by_cases here : other = fd
    · subst here
      rw [Function.update_self, found]
      rfl
    · rw [Function.update_of_ne here]

theorem heldBy_update {after : Tables Tmpfs} {entry : Option VfsFile}
    (files : after.openFiles = Function.update v.openFiles fd entry) :
    after.heldBy = Function.update v.heldBy fd (entry.bind fun file => toSlot file.handle) := by
  funext other
  rw [heldBy, files]
  by_cases here : other = fd
  · subst here
    rw [Function.update_self, Function.update_self]
  · rw [Function.update_of_ne here, Function.update_of_ne here, heldBy]

theorem setFile_none_heldBy (fd : Fd) :
    (v.setFile fd none).heldBy = Function.update v.heldBy fd none :=
  heldBy_update (show _ = Function.update v.openFiles fd none from rfl)

theorem bind_live (t : Tmpfs) (h i : TmpSlot) (file : TmpFile) (j : TmpSlot) :
    ((t.bind h i file).files j).isSome = if j = i then true else (t.files j).isSome := by
  by_cases here : j = i
  · subst here
    simp [Tmpfs.bind]
  · simp [Tmpfs.bind, here]

/-- A handle taken and given back at once leaves a file behind at most. -/
theorem effect_bind_release {after : Tables Tmpfs} {h : TmpSlot} (i : TmpSlot) (file : TmpFile)
    (free : v.disk.freeHandle = some h) (files : after.openFiles = v.openFiles)
    (disk : after.disk = (v.disk.bind h i file).release h) : Effect v after := by
  have handles : after.disk.handles = v.disk.handles := by
    rw [disk]
    simp only [Tmpfs.release, Tmpfs.bind, Function.update_idem]
    rw [← Tmpfs.freeHandle_unbound free, Function.update_eq_self]
  have live (j : TmpSlot) : (after.disk.files j).isSome =
      if j = i then true else (v.disk.files j).isSome := by
    rw [disk]
    exact bind_live v.disk h i file j
  cases used : v.disk.files i with
  | none => exact .create i used (heldBy_of_files files) handles live
  | some old =>
    refine .quiet (heldBy_of_files files) ⟨handles, fun j => ?_⟩
    rw [live]
    split_ifs with here
    · rw [here, used]
      rfl
    · rfl

theorem openFile_effect (on : v.OnTmpfs) :
    (v.takes uid path flags = false ∧ Effect v (v.openFile uid path flags).2) ∨
      (v.takes uid path flags = true ∧
        ∃ fd h i, Taken v (v.openFile uid path flags).2 fd h i) := by
  obtain ⟨disk, failed, why⟩ | ⟨fd, after, succeeded, ⟨facts⟩⟩ := openFile_cases v uid path flags
  · refine .inl ?_
    rw [failed]
    obtain ⟨rfl, refused | nowhere⟩ | ⟨idx, driver, rel, resolved, outcome⟩ := why
    · exact ⟨by simp [Tables.takes, refused], .quiet rfl (.refl _)⟩
    · exact ⟨by simp [Tables.takes, nowhere], .quiet rfl (.refl _)⟩
    · obtain ⟨rfl, rfl⟩ := on.driver_eq resolved
      obtain refused | ⟨handle, mid, opened, full, rfl⟩ := outcome
      · obtain ⟨spared, result, t', opened, -, same⟩ | ⟨-, h, i, file, opened, -⟩ :=
          v.disk.openPath_cases rel flags
        · cases opened.symm.trans refused
          exact ⟨by simp [Tables.takes, resolved, spared], .quiet rfl same⟩
        · cases opened.symm.trans refused
      · refine ⟨by simp [Tables.takes, full], ?_⟩
        obtain ⟨-, result, t', opened', root, same⟩ | ⟨-, h, i, file, opened', free⟩ :=
          v.disk.openPath_cases rel flags
        · cases opened'.symm.trans opened
          obtain none' | root := root
          · cases none'
          · cases root
            exact .quiet rfl same
        · cases opened'.symm.trans opened
          refine effect_bind_release i file free rfl ?_
          change (toSlot (ofSlot h)).elim _ _ = _
          rw [toSlot_ofSlot]
          rfl
  · rw [succeeded]
    obtain ⟨-, driver⟩ := on.driver_eq facts.resolved
    have opened := facts.opened
    rw [driver] at opened
    have idle := freeSlot_vacant facts.vacant
    have takes : v.takes uid path flags = v.disk.takesHandle facts.rel flags := by
      rw [Tables.takes, facts.admitted, facts.vacant, facts.resolved]
      rfl
    rw [takes]
    obtain ⟨spared, result, t', opened', root, same⟩ | ⟨taken, h, i, file, opened', free⟩ :=
      v.disk.openPath_cases facts.rel flags
    · obtain ⟨rfl, rfl⟩ := Prod.ext_iff.mp (opened'.symm.trans opened)
      obtain none' | root := root
      · cases none'
      · refine .inl ⟨spared, .quiet ?_ same⟩
        rw [heldBy_update facts.files, Option.bind_some, Option.some.inj root,
          toSlot_rootHandle]
        refine Function.update_eq_self_iff.mpr ?_
        rw [heldBy, idle]
        rfl
    · obtain ⟨handle, disk⟩ := Prod.ext_iff.mp (opened'.symm.trans opened)
      dsimp only at handle disk
      refine .inr ⟨taken, fd, h, i, idle, free, ?_, by rw [← disk]; rfl,
        by rw [← disk]; exact bind_live _ _ _ _⟩
      rw [heldBy_update facts.files, Option.bind_some, ← Option.some.inj handle, toSlot_ofSlot]

theorem close_effect (on : v.OnTmpfs) : Effect v (v.close fd).2 := by
  unfold close
  cases isOpen : v.openFiles fd with
  | none => exact .quiet rfl (.refl _)
  | some file =>
    dsimp only
    rw [on.driver_of_open isOpen, Option.elim_some]
    have held : ({ v with disk := tmpOps.close file.handle v.disk }.setFile fd none).heldBy =
        Function.update v.heldBy fd none := setFile_none_heldBy fd
    have holder : v.heldBy fd = toSlot file.handle := by
      rw [heldBy, isOpen, Option.bind_some]
    cases slot : toSlot file.handle with
    | none =>
      refine .quiet ?_ ⟨?_, fun j => ?_⟩
      · rw [held, Function.update_eq_self_iff, holder, slot]
      · change ((toSlot file.handle).elim v.disk v.disk.release).handles = _
        rw [slot, Option.elim_none]
      · change (((toSlot file.handle).elim v.disk v.disk.release).files j).isSome = _
        rw [slot, Option.elim_none]
    | some h =>
      refine .giveBack fd h (holder.trans slot) held ?_ fun j => ?_
      · change ((toSlot file.handle).elim v.disk v.disk.release).handles = _
        rw [slot, Option.elim_some]
        rfl
      · change (((toSlot file.handle).elim v.disk v.disk.release).files j).isSome = _
        rw [slot, Option.elim_some]
        rfl

theorem read_sameSlots (on : v.OnTmpfs) (count : Nat) :
    Tmpfs.SameSlots v.disk (v.read fd count).2.disk := by
  unfold read
  cases isOpen : v.openFiles fd with
  | none => exact .refl _
  | some file =>
    dsimp only
    rw [on.driver_of_open isOpen]
    dsimp only [tmpOps]
    cases v.disk.read file.handle count file.offset <;> exact .refl _

theorem write_sameSlots (on : v.OnTmpfs) (bytes : List UInt8) :
    Tmpfs.SameSlots v.disk (v.write fd bytes).2.disk := by
  unfold write
  cases isOpen : v.openFiles fd with
  | none => exact .refl _
  | some file =>
    dsimp only
    split_ifs
    · exact .refl _
    · rw [on.driver_of_open isOpen]
      have same := Tmpfs.write_sameSlots (t := v.disk) file.handle bytes file.offset
      dsimp only [tmpOps]
      generalize v.disk.write file.handle bytes file.offset = result at same
      obtain ⟨written, disk⟩ := result
      cases written <;> exact same

theorem lseek_disk (offset : BitVec 64) (whence : BitVec 32) :
    (v.lseek fd offset whence).2.disk = v.disk := by
  unfold lseek
  split
  · rfl
  · split <;> rfl

theorem onDriver_disk (on : v.OnTmpfs) {act : FsOps Tmpfs → Path → Tmpfs → Bool × Tmpfs}
    (acts : ∀ rel, (act tmpOps rel v.disk).2 = v.disk) : (v.onDriver path act).2.disk = v.disk := by
  unfold onDriver
  cases resolved : v.resolve path with
  | none => rfl
  | some found =>
    obtain ⟨idx, driver, rel⟩ := found
    obtain ⟨-, rfl⟩ := on.driver_eq resolved
    exact acts rel

theorem mkdir_disk (on : v.OnTmpfs) : (v.mkdir uid path).2.disk = v.disk := by
  unfold mkdir
  split_ifs
  · dsimp only
    split_ifs <;> exact onDriver_disk on fun _ => rfl
  · rfl

theorem rmdir_disk (on : v.OnTmpfs) : (v.rmdir uid path).2.disk = v.disk := by
  unfold rmdir
  split_ifs
  · exact onDriver_disk on fun _ => rfl
  · rfl

theorem unlink_effect (on : v.OnTmpfs) : Effect v (v.unlink uid path).2 := by
  have held : (v.unlink uid path).2.heldBy = v.heldBy := heldBy_of_files unlink_openFiles
  unfold unlink at held ⊢
  split_ifs at held ⊢
  · unfold onDriver at held ⊢
    cases resolved : v.resolve path with
    | none => exact .quiet rfl (.refl _)
    | some found =>
      rw [resolved] at held
      obtain ⟨idx, driver, rel⟩ := found
      obtain ⟨-, rfl⟩ := on.driver_eq resolved
      dsimp only [tmpOps, Tmpfs.unlink] at held ⊢
      cases there : v.disk.find (norm rel) with
      | none => exact .quiet rfl (.refl _)
      | some pair =>
        rw [there] at held
        obtain ⟨i, file⟩ := pair
        obtain ⟨-, used, -⟩ := Tmpfs.find_sound there
        exact .remove i (by rw [used]; rfl) held rfl
  · exact .quiet rfl (.refl _)

theorem effect_of_disk {after : Tables Tmpfs} (held : after.heldBy = v.heldBy)
    (disk : after.disk = v.disk) : Effect v after :=
  .quiet held (by rw [disk]; exact .refl _)

/-- Whether the turn is an open that takes a handle. -/
def Takes (v : Tables Tmpfs) : Turn → Prop
  | .call (.openFile uid path flags) => v.takes uid path flags = true
  | _ => False

theorem turn_effect (on : v.OnTmpfs) (t : Turn) :
    (¬ v.Takes t ∧ Effect v (v.turn t)) ∨ (v.Takes t ∧ ∃ fd h i, Taken v (v.turn t) fd h i) := by
  cases t with
  | heap block => exact .inl ⟨id, .quiet rfl ⟨rfl, fun _ => rfl⟩⟩
  | call c =>
    cases c with
    | openFile uid path flags =>
      refine (openFile_effect on).imp_left fun effect => ⟨?_, effect.2⟩
      exact fun taken => Bool.false_ne_true (effect.1.symm.trans taken)
    | close fd => exact .inl ⟨id, close_effect on⟩
    | read fd count =>
      exact .inl ⟨id, .quiet (read_touches count).heldBy_eq (read_sameSlots on count)⟩
    | write fd bytes =>
      exact .inl ⟨id, .quiet (write_touches bytes).heldBy_eq (write_sameSlots on bytes)⟩
    | lseek fd offset whence =>
      exact .inl ⟨id, effect_of_disk (lseek_touches offset whence).heldBy_eq
        (lseek_disk offset whence)⟩
    | mkdir uid path =>
      exact .inl ⟨id, effect_of_disk (heldBy_of_files mkdir_openFiles) (mkdir_disk on)⟩
    | rmdir uid path =>
      exact .inl ⟨id, effect_of_disk (heldBy_of_files rmdir_openFiles) (rmdir_disk on)⟩
    | unlink uid path => exact .inl ⟨id, unlink_effect on⟩
    | setPerm path perm => exact .inl ⟨id, effect_of_disk rfl rfl⟩

theorem OnTmpfs.turn (on : v.OnTmpfs) (t : Turn) : (v.turn t).OnTmpfs := by
  cases t with
  | heap block => exact ⟨on.drivers, on.idx⟩
  | call c =>
    refine ⟨(call_drivers c).trans on.drivers, fun {fd file} isOpen => ?_⟩
    obtain ⟨before, wasOpen, offset, size, moved⟩ | ⟨uid, path, flags, -, ⟨facts⟩⟩ :=
      call_origin isOpen
    · have same := on.idx wasOpen
      rwa [moved]
    · have entry := congrFun facts.files fd
      rw [Function.update_self] at entry
      cases (show (v.call c).openFiles fd = _ from isOpen).symm.trans entry
      exact (on.driver_eq facts.resolved).1

end Tables

/-- The tables with a record of births: of the file in each slot, and of the file
that each descriptor was opened on. -/
structure Watched where
  vfs : Tables Tmpfs
  born : TmpSlot → Nat
  opened : Fd → Nat
  clock : Nat

namespace Watched

/-- The birth of the file in a slot behind a turn. -/
def bornAfter (w : Watched) (t : Turn) (i : TmpSlot) : Nat :=
  if (w.vfs.disk.files i).isNone && ((w.vfs.turn t).disk.files i).isSome then w.clock
  else w.born i

def after (w : Watched) (t : Turn) : Watched where
  vfs := w.vfs.turn t
  born := w.bornAfter t
  opened fd :=
    match w.vfs.heldBy fd, ((w.vfs.turn t).heldBy fd).bind (w.vfs.turn t).disk.handles with
    | none, some i => w.bornAfter t i
    | _, _ => w.opened fd
  clock := w.clock + 1

def Step (w : Watched) (t : Turn) (w' : Watched) : Prop := w' = w.after t

/-- The view of the tables as handles on recycled slots. -/
def handles (w : Watched) : Handles Fd TmpSlot TmpSlot where
  held := w.vfs.heldBy
  bound := w.vfs.disk.handles
  live i := (w.vfs.disk.files i).isSome
  born := w.born
  opened := w.opened
  clock := w.clock

/-- A descriptor's handle is unbound or stands for the file that the descriptor was
opened on. -/
def Bound (w : Watched) : Prop := w.handles.Faithful

/-- The first free handle is not a descriptor's. -/
def FirstFreeUnheld (v : Tables Tmpfs) : Prop :=
  ∀ h, v.disk.freeHandle = some h → ∀ fd, v.heldBy fd ≠ some h

/-- No open takes a handle that a descriptor still holds. -/
def TakesUnheld (w : Watched) (t : Turn) : Prop := w.vfs.Takes t → FirstFreeUnheld w.vfs

/-- The record before the first turn. -/
def ofTables (v : Tables Tmpfs) : Watched where
  vfs := v
  born i := i.val
  opened _ := 0
  clock := maxFiles

/-- The RAM file system is mounted and nothing is open. -/
structure Fresh (v : Tables Tmpfs) : Prop where
  drivers : v.drivers = [tmpOps]
  closed : ∀ fd, v.openFiles fd = none
  unbound : ∀ h, v.disk.handles h = none

structure Inv (w : Watched) : Prop where
  on : w.vfs.OnTmpfs
  sound : w.handles.Sound

theorem inv_ofTables {v : Tables Tmpfs} (fresh : Fresh v) : (ofTables v).Inv := by
  have closed {fd : Fd} : v.openFiles fd = none := fresh.closed fd
  have idle {fd : Fd} {h : TmpSlot} : (ofTables v).handles.held fd ≠ some h := by
    intro held
    change (v.openFiles fd).bind _ = some h at held
    rw [closed] at held
    cases held
  have unbound {h i : TmpSlot} : (ofTables v).handles.bound h ≠ some i := by
    intro bound
    change v.disk.handles h = some i at bound
    rw [fresh.unbound] at bound
    cases bound
  refine ⟨⟨fresh.drivers, fun {fd file} isOpen => ?_⟩, ⟨?_, ?_, ?_, ?_, ?_, ?_, ?_⟩⟩
  · cases closed.symm.trans isOpen
  · exact fun fd h i held => absurd held idle
  · exact fun held => absurd held idle
  · exact fun bound => absurd bound unbound
  · exact fun held => absurd held idle
  · exact fun {i} _ => i.isLt
  · exact fun held => absurd held idle
  · exact fun _ _ same => Fin.ext same

variable {w : Watched} {t : Turn}

/-- Where no slot comes into use, no birth is recorded. -/
theorem bornAfter_eq (i : TmpSlot)
    (old : ((w.vfs.turn t).disk.files i).isSome = true → (w.vfs.disk.files i).isSome = true) :
    w.bornAfter t i = w.born i := by
  rw [bornAfter]
  cases before : w.vfs.disk.files i with
  | some _ => rfl
  | none =>
    have none' : ((w.vfs.turn t).disk.files i).isSome = false := by
      by_contra used
      rw [Bool.not_eq_false] at used
      have := old used
      rw [before] at this
      cases this
    rw [none']
    rfl

/-- Where no descriptor gets a handle, no opening is recorded. -/
theorem opened_after_eq (fd : Fd)
    (old : w.vfs.heldBy fd = none → (w.vfs.turn t).heldBy fd = none) :
    (w.after t).opened fd = w.opened fd := by
  cases before : w.vfs.heldBy fd with
  | some h => simp only [after, before]
  | none => simp only [after, before, old before, Option.bind_none]

theorem handles_ext {s s' : Handles Fd TmpSlot TmpSlot} (held : s.held = s'.held)
    (bound : s.bound = s'.bound) (live : s.live = s'.live) (born : s.born = s'.born)
    (opened : s.opened = s'.opened) (clock : s.clock = s'.clock) : s = s' := by
  cases s
  cases s'
  simp_all

/-- The slot of a new file. -/
theorem bornAfter_create {i : TmpSlot} (free : w.vfs.disk.files i = none)
    (live : ∀ j, ((w.vfs.turn t).disk.files j).isSome =
      if j = i then true else (w.vfs.disk.files j).isSome) :
    w.bornAfter t = Function.update w.born i w.clock := by
  funext j
  by_cases here : j = i
  · subst here
    rw [Function.update_self, bornAfter, free, live, if_pos rfl]
    rfl
  · rw [Function.update_of_ne here]
    exact bornAfter_eq j fun used => by rwa [live, if_neg here] at used

theorem after_quiet (held : (w.vfs.turn t).heldBy = w.vfs.heldBy)
    (slots : Tmpfs.SameSlots w.vfs.disk (w.vfs.turn t).disk) :
    (w.after t).handles = w.handles.tick := by
  refine handles_ext held slots.1 (funext slots.2) ?_ ?_ rfl
  · exact funext fun i => bornAfter_eq i fun used => by rwa [slots.2] at used
  · exact funext fun fd => opened_after_eq fd fun none' => by rw [held, none']

theorem after_create {i : TmpSlot} (free : w.vfs.disk.files i = none)
    (held : (w.vfs.turn t).heldBy = w.vfs.heldBy)
    (handles' : (w.vfs.turn t).disk.handles = w.vfs.disk.handles)
    (live : ∀ j, ((w.vfs.turn t).disk.files j).isSome =
      if j = i then true else (w.vfs.disk.files j).isSome) :
    (w.after t).handles = w.handles.create i := by
  refine handles_ext held handles' ?_ (bornAfter_create free live) ?_ rfl
  · funext j
    rw [Handles.create_live]
    exact live j
  · exact funext fun fd => opened_after_eq fd fun none' => by rw [held, none']

theorem after_giveBack {fd : Fd} {h : TmpSlot}
    (held : (w.vfs.turn t).heldBy = Function.update w.vfs.heldBy fd none)
    (handles' : (w.vfs.turn t).disk.handles = Function.update w.vfs.disk.handles h none)
    (live : ∀ j, ((w.vfs.turn t).disk.files j).isSome = (w.vfs.disk.files j).isSome) :
    (w.after t).handles = (w.handles.giveBack fd h).tick := by
  refine handles_ext held handles' (funext live) ?_ ?_ rfl
  · exact funext fun i => bornAfter_eq i fun used => by rwa [live] at used
  · refine funext fun other => opened_after_eq other fun none' => ?_
    rw [held]
    by_cases here : other = fd
    · subst here
      exact Function.update_self _ _ _
    · rw [Function.update_of_ne here, none']

theorem after_remove {i : TmpSlot} (held : (w.vfs.turn t).heldBy = w.vfs.heldBy)
    (disk : (w.vfs.turn t).disk = w.vfs.disk.remove i) :
    (w.after t).handles = (w.handles.remove i).tick := by
  have live (j : TmpSlot) : ((w.vfs.turn t).disk.files j).isSome =
      if j = i then false else (w.vfs.disk.files j).isSome := by
    rw [disk]
    by_cases here : j = i
    · subst here
      simp [Tmpfs.remove]
    · simp [Tmpfs.remove, here]
  refine handles_ext held ?_ ?_ ?_ ?_ rfl
  · exact congrArg Tmpfs.handles disk
  · funext j
    rw [Handles.tick, Handles.remove_live]
    exact live j
  · refine funext fun j => bornAfter_eq j fun used => ?_
    rw [live] at used
    split_ifs at used
    exact used
  · exact funext fun fd => opened_after_eq fd fun none' => by rw [held, none']

/-- The slot is in use once its file is, newly born if need be. -/
def settled (w : Watched) (i : TmpSlot) : Handles Fd TmpSlot TmpSlot :=
  if (w.vfs.disk.files i).isSome then w.handles.tick else w.handles.create i

theorem settled_held (i : TmpSlot) : (w.settled i).held = w.vfs.heldBy := by
  unfold settled
  split_ifs <;> rfl

theorem settled_bound (i : TmpSlot) : (w.settled i).bound = w.vfs.disk.handles := by
  unfold settled
  split_ifs <;> rfl

theorem settled_live (i : TmpSlot) : (w.settled i).live i = true := by
  unfold settled
  split_ifs with used
  · exact used
  · exact Function.update_self _ _ _

theorem Inv.settled (inv : w.Inv) (i : TmpSlot) : (w.settled i).Sound := by
  unfold Watched.settled
  split_ifs with used
  · exact inv.sound.tick
  · exact inv.sound.create (Bool.eq_false_iff.mpr used)

theorem after_taken {fd : Fd} {h i : TmpSlot} (taken : w.vfs.Taken (w.vfs.turn t) fd h i) :
    (w.after t).handles = (w.settled i).take fd h i := by
  have idle : w.vfs.heldBy fd = none := by
    rw [Tables.heldBy, taken.idle]
    rfl
  have born : w.bornAfter t = (w.settled i).born := by
    unfold settled
    split_ifs with used
    · refine funext fun j => bornAfter_eq j fun now => ?_
      rw [taken.live] at now
      split_ifs at now with here
      · exact here ▸ used
      · exact now
    · rw [Option.not_isSome_iff_eq_none] at used
      exact bornAfter_create used taken.live
  refine handles_ext ?_ ?_ ?_ born ?_ ?_
  · rw [Handles.take, settled_held]
    exact taken.held
  · rw [Handles.take, settled_bound]
    exact taken.handles
  · funext j
    refine (taken.live j).trans ?_
    simp only [Handles.take, settled]
    split_ifs with here used used
    · exact here ▸ used.symm
    · rw [Handles.create_live, if_pos here]
    · rfl
    · rw [Handles.create_live, if_neg here]
      rfl
  · funext other
    by_cases here : other = fd
    · subst here
      have reached : ((w.vfs.turn t).heldBy other).bind (w.vfs.turn t).disk.handles = some i := by
        rw [taken.held, Function.update_self, Option.bind_some, taken.handles,
          Function.update_self]
      simp only [handles, after, idle, reached, Handles.take, Function.update_self]
      exact congrFun born i
    · have kept : (w.after t).opened other = w.opened other :=
        opened_after_eq other fun none' => by rw [taken.held, Function.update_of_ne here, none']
      simp only [Handles.take, Function.update_of_ne here]
      refine kept.trans ?_
      unfold settled
      split_ifs <;> rfl
  · simp only [Handles.take, settled]
    split_ifs <;> rfl

/-- A turn that takes no handle under a descriptor keeps the invariant. -/
theorem Inv.after (inv : w.Inv) (unheld : w.TakesUnheld t) : (w.after t).Inv := by
  refine ⟨inv.on.turn t, ?_⟩
  obtain ⟨-, effect⟩ | ⟨takes, fd, h, i, taken⟩ := Tables.turn_effect inv.on t
  · cases effect with
    | quiet held slots =>
      rw [after_quiet held slots]
      exact inv.sound.tick
    | create i free held handles' live =>
      rw [after_create free held handles' live]
      refine inv.sound.create ?_
      change (w.vfs.disk.files i).isSome = false
      rw [free]
      rfl
    | giveBack fd h holder held handles' live =>
      rw [after_giveBack held handles' live]
      exact (inv.sound.giveBack holder).tick
    | remove i used held disk =>
      rw [after_remove held disk]
      exact (inv.sound.remove used).tick
  · rw [after_taken taken]
    refine (inv.settled i).take ?_ ?_ (settled_live i)
    · rw [settled_held, Tables.heldBy, taken.idle]
      rfl
    · intro other
      rw [settled_held]
      exact unheld takes h taken.free other

/-- An open that takes a handle under a descriptor leads that one to a stranger. -/
theorem Inv.not_bound_after (inv : w.Inv) (held : ¬ w.TakesUnheld t) : ¬ (w.after t).Bound := by
  obtain ⟨takes, notFree⟩ := Classical.not_imp.mp held
  obtain ⟨spared, -⟩ | ⟨-, fd, h, i, taken⟩ := Tables.turn_effect inv.on t
  · exact absurd takes spared
  · rw [FirstFreeUnheld] at notFree
    push Not at notFree
    obtain ⟨h', free, other, holder⟩ := notFree
    rw [taken.free, Option.some.injEq] at free
    subst free
    rw [Bound, after_taken taken]
    have still : (w.settled i).held other = some h := by rw [settled_held, holder]
    refine (inv.settled i).not_faithful_take ?_ still ?_ (settled_live i)
    · rw [settled_held, Tables.heldBy, taken.idle]
      rfl
    · rw [settled_bound, Tmpfs.freeHandle_unbound taken.free]

/-- Descriptors stay bound to their files exactly as long as no open takes a handle
that a descriptor still holds. -/
theorem bound_throughout_iff {v : Tables Tmpfs} (fresh : Fresh v)
    {taken : List (Transition Watched Turn)} {final : Watched}
    (trace : Trace Step (ofTables v) taken final) :
    Throughout Bound (ofTables v) taken ↔ Guarded TakesUnheld taken := by
  refine trace.throughout_iff_guarded Inv (inv_ofTables fresh)
    (fun _ inv => inv.sound.faithful) ?_ ?_
  · rintro before turn _ inv unheld rfl
    exact inv.after unheld
  · rintro before turn _ inv held rfl
    exact inv.not_bound_after held

section Reach

variable {fd : Fd} {h : TmpSlot}

end Reach

section Samples

/-- The RAM file system alone, at `/tmp`. -/
def tmpOnly : Tables Tmpfs where
  drivers := [tmpOps]
  mounts := [tmpMount 0]
  openFiles _ := none
  perms := .empty
  disk := .empty (some fun _ => 0)

theorem fresh_tmpOnly : Fresh tmpOnly := ⟨rfl, fun _ => rfl, fun _ => rfl⟩

def pathA : Path := ascii ['/', 't', 'm', 'p', '/', 'a']

def pathB : Path := ascii ['/', 't', 'm', 'p', '/', 'b']

/-- The run of a list of turns, with its transitions. -/
def run (turns : List Turn) : Option (List (Transition Watched Turn) × Watched) :=
  record (fun w t => some (w.after t)) (ofTables tmpOnly) turns

theorem trace_of_run {turns : List Turn} {ran : List (Transition Watched Turn) × Watched}
    (recorded : run turns = some ran) : Trace Step (ofTables tmpOnly) ran.1 ran.2 :=
  (trace_of_record recorded).mono fun step => (Option.some.inj step).symm

instance (v : Tables Tmpfs) : Decidable (FirstFreeUnheld v) :=
  inferInstanceAs (Decidable (∀ _, _ → ∀ _, _))

instance (v : Tables Tmpfs) : (t : Turn) → Decidable (v.Takes t)
  | .call (.openFile uid path flags) => inferInstanceAs (Decidable (v.takes uid path flags = true))
  | .call (.close _) | .call (.read _ _) | .call (.write _ _) | .call (.lseek _ _ _)
  | .call (.mkdir _ _) | .call (.rmdir _ _) | .call (.unlink _ _) | .call (.setPerm _ _)
  | .heap _ => instDecidableFalse

instance (w : Watched) (t : Turn) : Decidable (w.TakesUnheld t) :=
  inferInstanceAs (Decidable (_ → _))

/-- Two files are created, one is closed and unlinked, a third open takes its handle. -/
theorem bound_orderly : ∃ taken final, Trace Step (ofTables tmpOnly) taken final ∧
    taken.length = 5 ∧ Throughout Bound (ofTables tmpOnly) taken := by
  obtain ⟨⟨taken, final⟩, recorded, steps, guarded⟩ :
      ∃ ran ∈ run [.call (.openFile 0 pathA oCreat), .call (.openFile 0 pathB oCreat),
          .call (.close 0), .call (.unlink 0 pathA), .call (.openFile 0 pathA oCreat)],
        ran.1.length = 5 ∧
          ∀ transition ∈ ran.1, transition.before.TakesUnheld transition.label := by
    decide +kernel
  have trace := trace_of_run recorded
  exact ⟨taken, final, trace, steps, (bound_throughout_iff fresh_tmpOnly trace).mpr guarded⟩

/-- Descriptor 0 is opened on `/tmp/a`, the file is unlinked, and descriptor 0 is bound
to the next file that anybody opens. -/
theorem unlinked_descriptor_rebound :
    ¬ ∀ v taken final, Fresh v → Trace Step (ofTables v) taken final →
      Throughout Bound (ofTables v) taken := by
  intro claim
  obtain ⟨⟨taken, final⟩, recorded, held, handle, strangers⟩ :
      ∃ ran ∈ run [.call (.openFile 0 pathA oCreat), .call (.unlink 0 pathA),
          .call (.openFile 0 pathB oCreat)],
        ran.2.vfs.heldBy 0 = some 0 ∧ ran.2.vfs.disk.handles 0 = some 0 ∧
          ran.2.born 0 ≠ ran.2.opened 0 := by
    decide +kernel
  have trace := trace_of_run recorded
  exact strangers (trace.final_of_throughout (claim _ _ _ fresh_tmpOnly trace) 0 0 0 held handle)

end Samples

end Watched

end DBSos.Vfs
