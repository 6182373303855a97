import DBSos.Ext4.Files
import Mathlib.Data.List.Nodup

/-!
# Handles and the files behind them

Clients keep the handles that `ext4_open` gave them. While the last file opened is
closed first the handles in use are the indices in order; a close of any other file
leaves the last client with a handle to nothing.
-/

namespace DBSos.Ext4

open DBSos.Lib

/-- A client with a handle in its hands, the inode it opened, and the size that its own
last open or write came to. -/
structure Holder where
  handle : Handle
  file : OpenFile
deriving DecidableEq, Repr

/-- The file after a write that came to a size, or to none. -/
def OpenFile.resized (size : Option Nat) (file : OpenFile) : OpenFile :=
  { file with size := size.getD file.size }

/-- A client's record of a write through the handle. -/
def Holder.wrote (handle : Handle) (size : Option Nat) (holder : Holder) : Holder :=
  if holder.handle = handle then { holder with file := holder.file.resized size } else holder

/-- The driver and the clients. -/
structure Session where
  driver : Driver
  held : List Holder

/-- The calls of the driver on open files. -/
inductive Call where
  | open (path : List UInt8) (flags : Nat)
  | close (handle : Handle)
  | read (handle : Handle) (len offset : Nat)
  | write (handle : Handle) (bytes : List UInt8) (offset : Nat)

/-- The client of a handle that was just opened. -/
def holderOf (handle : Handle) (found : Nat × Buffer) : Holder :=
  ⟨handle, found.1, (Inode.parse found.2).size⟩

namespace Session

/-- One call, and what the clients make of its result; `none` is a panic. -/
def step (s : Session) : Call → Option Session
  | .open path flags => do
    let (handle, driver) ← s.driver.ext4Open path flags
    match handle with
    | none => some { s with driver }
    | some handle => do
      let found ← s.driver.volume.resolve path
      some { driver, held := s.held ++ (found.map (holderOf handle)).toList }
  | .close handle =>
    some {
      driver := s.driver.ext4Close handle
      held := s.held.filter (·.handle ≠ handle) }
  | .read handle len offset => do
    let _ ← s.driver.ext4Read handle len offset
    some s
  | .write handle bytes offset => do
    let (_, driver) ← s.driver.ext4Write handle bytes offset
    let size := (driver.file handle).map OpenFile.size
    some { driver, held := s.held.map (Holder.wrote handle size) }

/-- No two clients hold one handle, and every handle leads to its client's file. -/
def Faithful (s : Session) : Prop :=
  (s.held.map Holder.handle).Nodup ∧
    ∀ holder ∈ s.held, s.driver.file holder.handle = some holder.file

/-- A close is of the last file or of no file. -/
def ClosesLast (s : Session) : Call → Prop
  | .close handle => s.driver.opened.length ≤ indexOf handle + 1
  | _ => True

/-- The clients hold the indices in order. -/
structure InOrder (s : Session) : Prop where
  held : s.held = s.driver.opened.mapIdx fun i file => ⟨handleOf i, file⟩
  small : s.driver.opened.length ≤ maxOpenExt4

end Session

theorem indexOf_handleOf {index : Nat} (small : index < maxOpenExt4) :
    indexOf (handleOf index) = index := by
  have bound : index < 32 := small
  simp only [indexOf, handleOf]
  bv_omega

@[simp] theorem handleOf_indexOf (handle : Handle) : handleOf (indexOf handle) = handle := by
  simp only [indexOf, handleOf]
  bv_omega

theorem handleOf_inj {i j : Nat} (small : i < maxOpenExt4) (small' : j < maxOpenExt4)
    (same : handleOf i = handleOf j) : i = j := by
  rw [← indexOf_handleOf small, same, indexOf_handleOf small']

namespace Driver

variable {d d' : Driver} {path bytes : List UInt8} {flags offset : Nat} {handle : Handle}

/-- A successful `ext4_open` puts the file behind the others. -/
theorem ext4Open_cases {result : Option Handle}
    (opened : d.ext4Open path flags = some (result, d')) :
    (result = none ∧ d' = d) ∨
      ∃ found, d.volume.resolve path = some (some found) ∧ d.opened.length < maxOpenExt4 ∧
        result = some (handleOf d.opened.length) ∧
        d' = { d with opened := d.opened ++ [(holderOf (handleOf d.opened.length) found).file] } := by
  unfold ext4Open at opened
  split at opened
  · obtain ⟨found, resolved, taken⟩ := Option.bind_eq_some_iff.mp opened
    rcases found with _ | ⟨inodeNum, inodeBuf⟩
    · obtain ⟨rfl, rfl⟩ : none = result ∧ d = d' := by simpa using taken
      exact .inl ⟨rfl, rfl⟩
    · dsimp only at taken
      split_ifs at taken with unwritable full
      · obtain ⟨rfl, rfl⟩ : none = result ∧ d = d' := by simpa using taken
        exact .inl ⟨rfl, rfl⟩
      · obtain ⟨rfl, rfl⟩ : none = result ∧ d = d' := by simpa using taken
        exact .inl ⟨rfl, rfl⟩
      · obtain ⟨rfl, rfl⟩ := Prod.mk.inj (Option.some.inj taken)
        exact .inr ⟨_, resolved, not_le.mp full, rfl, rfl⟩
  · obtain ⟨rfl, rfl⟩ : none = result ∧ d = d' := by simpa using opened
    exact .inl ⟨rfl, rfl⟩

/-- A new size for the file behind a handle. -/
theorem resized_set {file : OpenFile} (found : d.file handle = some file) (size i : Nat) :
    (d.opened.set (indexOf handle) { file with size })[i]? = (d.opened[i]?).map fun file =>
      if i = indexOf handle then file.resized (some size) else file := by
  have before : d.opened[indexOf handle]? = some file := found
  by_cases here : i = indexOf handle
  · subst here
    have inside := (List.getElem?_eq_some_iff.mp before).1
    rw [List.getElem?_set_self inside, before]
    simp [OpenFile.resized]
  · rw [List.getElem?_set_ne (Ne.symm here)]
    simp [here]

/-- A write changes the size behind its own handle at most. -/
theorem ext4Write_opened {result : Option Nat}
    (written : d.ext4Write handle bytes offset = some (result, d')) :
    ∃ size, ∀ i, d'.opened[i]? = (d.opened[i]?).map fun file =>
      if i = indexOf handle then file.resized size else file := by
  have unchanged (same : d = d') : ∃ size, ∀ i, d'.opened[i]? = (d.opened[i]?).map fun file =>
      if i = indexOf handle then file.resized size else file := by
    refine ⟨none, fun i => ?_⟩
    rw [← same]
    simp [OpenFile.resized]
  unfold ext4Write at written
  split at written
  · split at written
    · exact unchanged (congrArg Prod.snd (Option.some.inj written))
    · rename_i file found
      obtain ⟨inodeBuf, _, rest⟩ := Option.bind_eq_some_iff.mp written
      cases inodeBuf with
      | none => exact unchanged (congrArg Prod.snd (Option.some.inj rest))
      | some inodeBuf =>
        obtain ⟨⟨total, fileOff, inode, volume⟩, _, rest⟩ := Option.bind_eq_some_iff.mp rest
        obtain ⟨⟨saved, volume⟩, _, rest⟩ := Option.bind_eq_some_iff.mp rest
        have opened : d.opened.set (indexOf handle)
            { file with size := (inode.grown fileOff).size } = d'.opened :=
          congrArg (fun result => result.2.opened) (Option.some.inj rest)
        refine ⟨some (inode.grown fileOff).size, fun i => ?_⟩
        rw [← opened]
        exact resized_set found _ i
  · exact unchanged (congrArg Prod.snd (Option.some.inj written))

end Driver

namespace Session

variable {s s' : Session} {call : Call}

/-- The handles in use are those of the first indices. -/
theorem InOrder.handles (inOrder : s.InOrder) :
    s.held.map Holder.handle = (List.range s.driver.opened.length).map handleOf := by
  rw [inOrder.held]
  exact List.ext_getElem (by simp) (by simp)

theorem InOrder.faithful (inOrder : s.InOrder) : s.Faithful := by
  have small {i : Nat} (inside : i < s.driver.opened.length) : i < maxOpenExt4 :=
    lt_of_lt_of_le inside inOrder.small
  constructor
  · rw [inOrder.handles]
    refine List.Nodup.map_on (fun i inside j inside' same => ?_) List.nodup_range
    exact handleOf_inj (small (List.mem_range.mp inside)) (small (List.mem_range.mp inside')) same
  · intro holder member
    rw [inOrder.held] at member
    obtain ⟨i, inside, rfl⟩ := List.mem_mapIdx.mp member
    simp only [Driver.file]
    rw [indexOf_handleOf (small inside), List.getElem?_eq_getElem inside]

theorem InOrder.step_open {path : List UInt8} {flags : Nat} (inOrder : s.InOrder)
    (stepped : s.step (.open path flags) = some s') : s'.InOrder := by
  obtain ⟨⟨handle, driver⟩, opened, rest⟩ := Option.bind_eq_some_iff.mp stepped
  rcases Driver.ext4Open_cases opened with ⟨rfl, rfl⟩ | ⟨found, resolved, room, rfl, rfl⟩
  · obtain rfl := Option.some.inj rest
    exact inOrder
  · dsimp only at rest
    rw [resolved] at rest
    obtain rfl := Option.some.inj rest
    refine ⟨?_, ?_⟩
    · simp [inOrder.held, List.mapIdx_concat, holderOf]
    · rw [List.length_append]
      exact room

theorem InOrder.indexOf_ne {i : Nat} {handle : Handle} (inOrder : s.InOrder)
    (inside : i < s.driver.opened.length) (apart : i ≠ indexOf handle) : handleOf i ≠ handle := by
  rintro rfl
  exact apart (indexOf_handleOf (lt_of_lt_of_le inside inOrder.small)).symm

/-- A close of no file changes nothing; a close of the last file takes the last client
away. -/
theorem InOrder.step_close {handle : Handle} (inOrder : s.InOrder)
    (last : s.driver.opened.length ≤ indexOf handle + 1)
    (stepped : s.step (.close handle) = some s') : s'.InOrder := by
  obtain rfl := Option.some.inj stepped
  have survives {i : Nat} (inside : i < s.driver.opened.length) (apart : i ≠ indexOf handle)
      (file : OpenFile) : decide ((Holder.mk (handleOf i) file).handle ≠ handle) = true :=
    decide_eq_true (inOrder.indexOf_ne inside apart)
  by_cases inUse : indexOf handle < s.driver.opened.length
  · obtain ⟨front, file, split⟩ : ∃ front file, s.driver.opened = front ++ [file] := by
      rcases List.eq_nil_or_concat s.driver.opened with empty | nonempty
      · simp [empty] at inUse
      · simpa only [List.concat_eq_append] using nonempty
    have index : indexOf handle = front.length := by
      simp only [split, List.length_append, List.length_singleton] at inUse last
      omega
    have closed : s.driver.ext4Close handle = { s.driver with opened := front } := by
      have erased : s.driver.opened.eraseIdx front.length = front := by
        rw [split, List.eraseIdx_append_of_length_le le_rfl, Nat.sub_self]
        exact List.append_nil front
      rw [Driver.ext4Close, if_pos inUse, index, erased]
    have inFront {i : Nat} (inside : i < front.length) : i < s.driver.opened.length := by
      rw [split, List.length_append]
      omega
    refine ⟨?_, ?_⟩
    · rw [closed, inOrder.held, split, List.mapIdx_concat, List.filter_append]
      have gone : [Holder.mk (handleOf front.length) file].filter (·.handle ≠ handle) = [] := by
        rw [← index]
        simp
      have kept : (front.mapIdx fun i file => Holder.mk (handleOf i) file).filter
          (·.handle ≠ handle) = front.mapIdx fun i file => Holder.mk (handleOf i) file := by
        rw [List.filter_eq_self]
        intro holder member
        obtain ⟨i, inside, rfl⟩ := List.mem_mapIdx.mp member
        exact survives (inFront inside) (by omega) _
      rw [gone, kept, List.append_nil]
    · rw [closed]
      have small := inOrder.small
      rw [split, List.length_append] at small
      exact le_of_add_le_left small
  · have kept : s.held.filter (·.handle ≠ handle) = s.held := by
      rw [List.filter_eq_self]
      intro holder member
      rw [inOrder.held] at member
      obtain ⟨i, inside, rfl⟩ := List.mem_mapIdx.mp member
      exact survives inside (by omega) _
    have same : s.driver.ext4Close handle = s.driver := if_neg inUse
    rw [kept, same]
    exact inOrder

theorem InOrder.step_write {handle : Handle} {bytes : List UInt8} {offset : Nat}
    (inOrder : s.InOrder) (stepped : s.step (.write handle bytes offset) = some s') :
    s'.InOrder := by
  obtain ⟨⟨result, driver⟩, written, rest⟩ := Option.bind_eq_some_iff.mp stepped
  obtain rfl := Option.some.inj rest
  obtain ⟨size, resized⟩ := Driver.ext4Write_opened written
  have length : driver.opened.length = s.driver.opened.length := by
    have bound (i : Nat) : driver.opened.length ≤ i ↔ s.driver.opened.length ≤ i := by
      rw [← List.getElem?_eq_none_iff, resized, Option.map_eq_none_iff, List.getElem?_eq_none_iff]
    exact le_antisymm ((bound _).mpr le_rfl) ((bound _).mp le_rfl)
  refine ⟨List.ext_getElem? fun i => ?_, length ▸ inOrder.small⟩
  rw [List.getElem?_map, inOrder.held, List.getElem?_mapIdx, List.getElem?_mapIdx, resized]
  cases found : s.driver.opened[i]? with
  | none => rfl
  | some file =>
    have inside : i < s.driver.opened.length := (List.getElem?_eq_some_iff.mp found).1
    by_cases here : i = indexOf handle
    · have after : driver.file handle = some (file.resized size) := by
        rw [Driver.file, ← here, resized, found]
        simp [here]
      simp [Holder.wrote, here, after, OpenFile.resized]
    · simp [Holder.wrote, here, inOrder.indexOf_ne inside here]

/-- Guarded calls keep the order. -/
theorem InOrder.step (inOrder : s.InOrder) (closesLast : s.ClosesLast call)
    (stepped : s.step call = some s') : s'.InOrder := by
  cases call with
  | «open» path flags => exact inOrder.step_open stepped
  | close handle => exact inOrder.step_close closesLast stepped
  | read handle len offset =>
    obtain ⟨_, _, rest⟩ := Option.bind_eq_some_iff.mp stepped
    exact Option.some.inj rest ▸ inOrder
  | write handle bytes offset => exact inOrder.step_write stepped

/-- A close of another file than the last leaves the last client with no file. -/
theorem InOrder.broken (inOrder : s.InOrder) (earlier : ¬ s.ClosesLast call)
    (stepped : s.step call = some s') : ¬ s'.Faithful := by
  cases call with
  | close handle =>
    obtain rfl := Option.some.inj stepped
    have below : indexOf handle + 1 < s.driver.opened.length := not_le.mp earlier
    have inUse : indexOf handle < s.driver.opened.length := by omega
    have lastInside : s.driver.opened.length - 1 < s.driver.opened.length := by omega
    obtain ⟨last, found⟩ : ∃ last, last = s.driver.opened[s.driver.opened.length - 1] := ⟨_, rfl⟩
    have member : Holder.mk (handleOf (s.driver.opened.length - 1)) last ∈
        s.held.filter (·.handle ≠ handle) := by
      rw [List.mem_filter, inOrder.held]
      refine ⟨List.mem_mapIdx.mpr ⟨_, lastInside, by rw [found]⟩, ?_⟩
      exact decide_eq_true (inOrder.indexOf_ne lastInside (by omega))
    intro faithful
    have reached := faithful.2 _ member
    have gone : (s.driver.ext4Close handle).opened.length = s.driver.opened.length - 1 := by
      rw [Driver.ext4Close, if_pos inUse]
      exact List.length_eraseIdx_of_lt inUse
    simp only [Driver.file] at reached
    rw [indexOf_handleOf (lt_of_lt_of_le lastInside inOrder.small)] at reached
    have inside := (List.getElem?_eq_some_iff.mp reached).1
    omega
  | «open» path flags => exact absurd trivial earlier
  | read handle len offset => exact absurd trivial earlier
  | write handle bytes offset => exact absurd trivial earlier

end Session

/-! ## A small volume -/

/-- Inodes 2 to 4 in block 8: the root directory in block 10, and two files. -/
def smallDisk : Disk where
  sectors
    | 4 => Buffer.zero.put 8 [8]
    | 16 => (((Buffer.zero.put 128 [0, 0x40, 0, 0, 0, 4]).put 168 [10]).put 260 [5]).put 388 [9]
    | 20 => Buffer.zero.put 0 (recordBytes 3 12 [0x61] 1 ++ [0, 0, 0] ++ recordBytes 4 12 [0x62] 1)
    | _ => Buffer.zero
  readable _ := true
  writable _ := true
  hasPage := true

/-- A volume with the files `/a` of 5 bytes and `/b` of 9. -/
def smallVolume : Volume where
  valid := true
  super := ⟨16, 64, 1, 1024, 64, 16, 128, 1, 32⟩
  partBase := 0
  disk := smallDisk

/-- `ext4_open("/a", 0)`. -/
def openA : Call := .open [slash, 0x61] 0
/-- `ext4_open("/b", 0)`. -/
def openB : Call := .open [slash, 0x62] 0

instance (s : Session) : (call : Call) → Decidable (s.ClosesLast call)
  | .close _ => inferInstanceAs (Decidable (_ ≤ _))
  | .open .. | .read .. | .write .. => inferInstanceAs (Decidable True)

/-- From a driver with no file open, every client's handle leads to its own file in
every state of a run exactly when each close is of the file opened last or of no file. -/
theorem handles_faithful_iff {v : Volume} {taken : List (Transition Session Call)}
    {final : Session}
    (trace : Trace (fun s call next => s.step call = some next) ⟨⟨v, []⟩, []⟩ taken final) :
    Throughout Session.Faithful ⟨⟨v, []⟩, []⟩ taken ↔ Guarded Session.ClosesLast taken :=
  trace.throughout_iff_guarded Session.InOrder ⟨rfl, Nat.zero_le _⟩
    (fun _ inOrder => inOrder.faithful)
    (fun _ _ _ inOrder guarded stepped => inOrder.step guarded stepped)
    (fun _ _ _ inOrder unguarded stepped => inOrder.broken unguarded stepped)

/-- The file opened last is closed first. -/
theorem handles_last_first :
    ∃ taken final, record Session.step ⟨⟨smallVolume, []⟩, []⟩
        [openA, openB, .close (handleOf 1), openA, .write (handleOf 1) [1, 2] 0] =
          some (taken, final) ∧
      final.driver.opened.length = 2 ∧
        Throughout Session.Faithful ⟨⟨smallVolume, []⟩, []⟩ taken := by
  obtain ⟨⟨taken, final⟩, recorded, length, guarded⟩ :
      ∃ run ∈ record Session.step ⟨⟨smallVolume, []⟩, []⟩
          [openA, openB, .close (handleOf 1), openA, .write (handleOf 1) [1, 2] 0],
        run.2.driver.opened.length = 2 ∧
          ∀ transition ∈ run.1, transition.before.ClosesLast transition.label := by
    decide +kernel
  exact ⟨taken, final, recorded, length,
    (handles_faithful_iff (trace_of_record recorded)).mpr guarded⟩

/-- `/a`, `/b` and `/a` again are opened and the first handle is closed: the handle of
`/b` leads to `/a`, and the last one nowhere. -/
theorem close_shifts_handles :
    ∃ taken final, Trace (fun s call next => Session.step s call = some next)
        ⟨⟨smallVolume, []⟩, []⟩ taken final ∧
      (Holder.mk (handleOf 1) ⟨4, 9⟩) ∈ final.held ∧
      final.driver.file (handleOf 1) = some ⟨3, 5⟩ ∧ final.driver.file (handleOf 2) = none ∧
      ¬ Throughout Session.Faithful ⟨⟨smallVolume, []⟩, []⟩ taken := by
  obtain ⟨⟨taken, final⟩, recorded, held, other, gone⟩ :
      ∃ run ∈ record Session.step ⟨⟨smallVolume, []⟩, []⟩
          [openA, openB, openA, .close (handleOf 0)],
        Holder.mk (handleOf 1) ⟨4, 9⟩ ∈ run.2.held ∧
          run.2.driver.file (handleOf 1) = some ⟨3, 5⟩ ∧
          run.2.driver.file (handleOf 2) = none := by
    decide +kernel
  have run := trace_of_record recorded
  refine ⟨taken, final, run, held, other, gone, fun faithful => ?_⟩
  have own := (run.final_of_throughout faithful).2 _ held
  rw [other] at own
  cases own

end DBSos.Ext4
