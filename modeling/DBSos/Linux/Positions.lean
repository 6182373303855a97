import DBSos.Linux.Descriptors

/-!
# Positions in a file

`sys_open` stores a path in 128 bytes and asks the VFS for all of them, and so do `sys_read`
and `sys_write`, which open the file again. It returns the number that the VFS gave, while
the other calls take theirs for an index. `sys_lseek` adds without a sign and stores whatever
comes out.
-/

namespace DBSos.Vfs

/-- The driver reports no more bytes than it was asked for. -/
structure FsOps.Bounded {δ : Type} (driver : FsOps δ) : Prop where
  read : ∀ handle count pos disk bytes disk',
    driver.read handle count pos disk = (some bytes, disk') → bytes.length ≤ count
  write : ∀ handle bytes pos disk n disk',
    driver.write handle bytes pos disk = (some n, disk') → n ≤ bytes.length

namespace Tables

variable {δ : Type} (v : Tables δ) (uid : Uid) (path path' : Path) (flags : Flags) (pos : BitVec 64)

/-- What reading a file at a position gives. -/
def readFile (count : Nat) : Option (List UInt8) × Tables δ :=
  match v.openFile uid path 0 with
  | (none, v) => (none, v)
  | (some fd, v) =>
    let (bytes, v) := (v.lseek fd pos 0).2.read fd count
    (bytes, (v.close fd).2)

/-- What writing to a file at a position gives. -/
def writeFile (bytes : List UInt8) : Option Nat × Tables δ :=
  match v.openFile uid path 1 with
  | (none, v) => (none, v)
  | (some fd, v) =>
    let (n, v) := (v.lseek fd pos 0).2.write fd bytes
    (n, (v.close fd).2)

/-- The permission table, the mounts and the driver answer for one path as for the other. -/
structure Alike : Prop where
  admitted : v.admits uid path' flags = v.admits uid path flags
  mounted : resolveMount v.mounts path' = resolveMount v.mounts path
  opened : ∀ m driver, resolveMount v.mounts path = some m → v.drivers[m.driverIdx]? = some driver →
    driver.openPath (stripPrefix path' m.pfx.length) flags v.disk =
      driver.openPath (stripPrefix path m.pfx.length) flags v.disk
  sized : ∀ m driver handle disk, resolveMount v.mounts path = some m →
    v.drivers[m.driverIdx]? = some driver →
      driver.openPath (stripPrefix path m.pfx.length) flags v.disk = (some handle, disk) →
        driver.stat (stripPrefix path' m.pfx.length) disk =
          driver.stat (stripPrefix path m.pfx.length) disk

variable {v uid path path' flags pos}

/-- An open that creates nothing does not tell the two apart. -/
theorem openFile_alike (alike : v.Alike uid path path' flags) (plain : isCreat flags = false) :
    v.openFile uid path' flags = v.openFile uid path flags := by
  unfold openFile
  rw [alike.admitted]
  split_ifs with admitted
  swap
  · rfl
  unfold resolve
  rw [alike.mounted]
  cases resolved : resolveMount v.mounts path with
  | none => rfl
  | some m =>
    cases there : v.drivers[m.driverIdx]? with
    | none => rw [Option.bind_some, Option.bind_some, there]; rfl
    | some driver =>
      rw [Option.bind_some, Option.bind_some, there]
      simp only [Option.map_some, alike.opened m driver resolved there, plain, Bool.false_and]
      rcases opened : driver.openPath (stripPrefix path m.pfx.length) flags v.disk with
        ⟨_ | handle, disk⟩
      · rfl
      · simp only [install, alike.sized m driver handle disk resolved there opened]
        rfl

theorem sought_drivers {fd : Fd} {after : Tables δ}
    (opening : v.openFile uid path flags = (some fd, after)) :
    (after.lseek fd pos 0).2.drivers = v.drivers := by
  obtain ⟨opened⟩ := opened_of_openFile opening
  exact (call_drivers (.lseek fd pos 0)).trans opened.drivers

theorem read_length {fd : Fd} {count : Nat} {bytes : List UInt8}
    (bounded : ∀ driver ∈ v.drivers, driver.Bounded) (result : (v.read fd count).1 = some bytes) :
    bytes.length ≤ count := by
  unfold read at result
  cases opened : v.openFiles fd with
  | none =>
    rw [opened] at result
    cases result
  | some file =>
    simp only [opened] at result
    cases there : v.drivers[file.driverIdx]? with
    | none =>
      rw [there] at result
      cases result
    | some driver =>
      simp only [there] at result
      rcases reading : driver.read file.handle count file.offset v.disk with ⟨_ | bytes', disk⟩
      · rw [reading] at result
        cases result
      · rw [reading] at result
        obtain rfl := Option.some.inj result
        exact (bounded driver (List.mem_of_getElem? there)).read _ _ _ _ _ _ reading

theorem write_le {fd : Fd} {bytes : List UInt8} {n : Nat}
    (bounded : ∀ driver ∈ v.drivers, driver.Bounded) (result : (v.write fd bytes).1 = some n) :
    n ≤ bytes.length := by
  unfold write at result
  cases opened : v.openFiles fd with
  | none =>
    rw [opened] at result
    cases result
  | some file =>
    simp only [opened] at result
    split_ifs at result
    cases there : v.drivers[file.driverIdx]? with
    | none =>
      rw [there] at result
      cases result
    | some driver =>
      simp only [there] at result
      rcases writing : driver.write file.handle bytes file.offset v.disk with ⟨_ | n', disk⟩
      · rw [writing] at result
        cases result
      · rw [writing] at result
        obtain rfl := Option.some.inj result
        exact (bounded driver (List.mem_of_getElem? there)).write _ _ _ _ _ _ writing

/-- No more is read than was asked for. -/
theorem readFile_length {count : Nat} {bytes : List UInt8} {after : Tables δ}
    (bounded : ∀ driver ∈ v.drivers, driver.Bounded)
    (result : v.readFile uid path pos count = (some bytes, after)) : bytes.length ≤ count := by
  unfold readFile at result
  rcases opening : v.openFile uid path 0 with ⟨_ | fd, v1⟩
  · rw [opening] at result
    cases congrArg Prod.fst result
  · rw [opening] at result
    refine read_length (fun driver member => ?_) (congrArg Prod.fst result)
    rw [sought_drivers opening] at member
    exact bounded driver member

/-- Nor written. -/
theorem writeFile_le {bytes : List UInt8} {n : Nat} {after : Tables δ}
    (bounded : ∀ driver ∈ v.drivers, driver.Bounded)
    (result : v.writeFile uid path pos bytes = (some n, after)) : n ≤ bytes.length := by
  unfold writeFile at result
  rcases opening : v.openFile uid path 1 with ⟨_ | fd, v1⟩
  · rw [opening] at result
    cases congrArg Prod.fst result
  · rw [opening] at result
    refine write_le (fun driver member => ?_) (congrArg Prod.fst result)
    rw [sought_drivers opening] at member
    exact bounded driver member

end Tables

end DBSos.Vfs

namespace DBSos.Linux

open DBSos.Lib DBSos.Syscall DBSos.Vfs

/-- A call of the task on a file. -/
inductive PosCall where
  | sysOpen (pathPtr : BitVec 64) (flags : BitVec 32)
  | sysRead (fd : BitVec 32) (buf : BitVec 64) (count : Nat)
  | sysWrite (fd : BitVec 32) (buf count : BitVec 64)
  | sysLseek (fd : BitVec 32) (offset : BitVec 64) (whence : BitVec 32)

/-- Where a descriptor is, and the size that its file had when it was opened. -/
structure Position where
  pos : BitVec 64
  size : BitVec 64
deriving DecidableEq

/-- Where a seek leads: below zero, too, and nowhere if it is from nowhere. -/
def Position.target (at' : Position) (offset : BitVec 64) (whence : BitVec 32) : Option Int :=
  if whence = 0 then some offset.toInt
  else if whence = 1 then some (at'.pos.toNat + offset.toInt)
  else if whence = 2 then some (at'.size.toNat + offset.toInt)
  else none

/-- A world, and the descriptors that the task has been given for one file. -/
structure PosSession (δ ρ : Type) where
  world : World δ ρ
  positions : BitVec 32 → Option Position

namespace World

variable {δ ρ : Type} (w : World δ ρ) (i : Slot)

/-- The call; `none` is a panic. -/
def posCall : PosCall → Option (BitVec 64 × World δ ρ)
  | .sysOpen pathPtr flags => some (w.sysOpen i pathPtr flags)
  | .sysRead fd buf count => w.sysRead i fd buf count
  | .sysWrite fd buf count => w.sysWrite i fd buf count
  | .sysLseek fd offset whence => w.sysLseek i fd offset whence

/-- The offset that the task's table has for a descriptor. -/
def offsetOf (fd : BitVec 32) : Option (BitVec 64) :=
  (w.usedFd i fd).map fun idx => ((w.tasks i).fds idx).offset

/-- The machine with other tables of the VFS. -/
def machineWith (v : Tables δ) : Machine (Tables δ) := { w.machine with rest := v }

/-- The VFS takes the stored name, with the zeros behind it, for the name. -/
def Padded (name : Path) (flags : Flags) : Prop :=
  w.vfs.Alike w.machine.vfsUid name (padName name).toList flags

end World

namespace PosSession

variable {δ ρ : Type} (name : Path) (i : Slot) (s : PosSession δ ρ)

/-- The call is on the file: it spells its name, or has a descriptor that was given for it. -/
def On : PosCall → Prop
  | .sysOpen pathPtr _ => s.world.machine.readBytes pathPtr (name.length + 1) = name ++ [0]
  | .sysRead fd _ _ | .sysWrite fd _ _ | .sysLseek fd _ _ => (s.positions fd).isSome = true

/-- The positions behind a call, as they follow from its result: 0 for a new descriptor, the
returned count further, or where the seek leads. -/
def noted (call : PosCall) (result : BitVec 64) : BitVec 32 → Option Position :=
  match call with
  | .sysOpen _ flags =>
    match s.world.vfs.openFile s.world.machine.vfsUid name (World.openMode flags) with
    | (none, _) => s.positions
    | (some vfd, v) =>
      if 0 ≤ result.toInt then
        Function.update s.positions (result.setWidth 32) (some ⟨0, v.fstat vfd⟩)
      else s.positions
  | .sysRead fd _ _ | .sysWrite fd _ _ =>
    if 0 < result.toInt then
      Function.update s.positions fd
        ((s.positions fd).map fun at' => { at' with pos := at'.pos + result })
    else s.positions
  | .sysLseek fd offset whence =>
    Function.update s.positions fd ((s.positions fd).map fun at' =>
      match at'.target offset whence with
      | some target => if target < 0 then at' else { at' with pos := BitVec.ofInt 64 target }
      | none => at')

/-- What a call on the file is to return and to do. -/
def Acts (call : PosCall) (result : BitVec 64) (w : World δ ρ) : Prop :=
  let v := s.world.vfs
  let uid := s.world.machine.vfsUid
  match call with
  | .sysOpen _ flags =>
    (s.world.allocFd i = none → result.toInt < 0 ∧ w = s.world) ∧
    ∀ idx, s.world.allocFd i = some idx →
      w.machine = s.world.machineWith (v.openFile uid name (World.openMode flags)).2 ∧
      (0 ≤ result.toInt ↔ ((v.openFile uid name (World.openMode flags)).1).isSome = true) ∧
      (0 ≤ result.toInt → s.positions (result.setWidth 32) = none)
  | .sysRead fd buf count => ∀ at', s.positions fd = some at' →
      match v.readFile uid name at'.pos (min count 4096) with
      | (none, v) => result.toInt < 0 ∧ w.machine = s.world.machineWith v
      | (some bytes, v) => result = BitVec.ofNat 64 bytes.length ∧
          w.machine = (s.world.machineWith v).writeBytes buf bytes
  | .sysWrite fd buf count => ∀ at', s.positions fd = some at' →
      match v.writeFile uid name at'.pos (s.world.machine.readBytes buf (min count.toNat 4096)) with
      | (none, v) => result.toInt < 0 ∧ w.machine = s.world.machineWith v
      | (some n, v) => result = BitVec.ofNat 64 n ∧ w.machine = s.world.machineWith v
  | .sysLseek fd offset whence => ∀ at', s.positions fd = some at' →
      w.machine = s.world.machine ∧
        match at'.target offset whence with
        | some target => if target < 0 then result.toInt < 0 else result = BitVec.ofInt 64 target
        | none => result.toInt < 0

/-- A call on the file does what it is to do, and the task's table has every descriptor where
it then is. -/
structure Lawful (call : PosCall) (result : BitVec 64) (w : World δ ρ) : Prop where
  acts : s.Acts name i call result w
  offsets : ∀ fd at', s.noted name call result fd = some at' → w.offsetOf i fd = some at'.pos

/-- A call on the file that returns. -/
def Steps (call : PosCall) (s' : PosSession δ ρ) : Prop :=
  s.On name call ∧ ∃ result w, s.world.posCall i call = some (result, w) ∧
    s' = ⟨w, s.noted name call result⟩

/-- The name is found with the zeros behind it, a new file has the same number in both tables,
no descriptor is one of the serial line's, no seek is backwards, and no position overflows. -/
def Meets : PosCall → Prop
  | .sysOpen _ flags => ∀ idx, s.world.allocFd i = some idx →
      s.world.Padded name (World.openMode flags) ∧
        ∀ vfd ∈ s.world.vfs.freeSlot, vfd = World.sameNumber idx
  | .sysRead fd _ count => s.world.Padded name 0 ∧
      (∀ driver ∈ s.world.vfs.drivers, driver.Bounded) ∧
        ∀ at', s.positions fd = some at' → at'.pos.toNat + min count 4096 < 2 ^ 64
  | .sysWrite fd _ count => fd ≠ 1 ∧ fd ≠ 2 ∧ s.world.Padded name 1 ∧
      (∀ driver ∈ s.world.vfs.drivers, driver.Bounded) ∧
        ∀ at', s.positions fd = some at' → at'.pos.toNat + min count.toNat 4096 < 2 ^ 64
  | .sysLseek fd offset whence => ∀ at', s.positions fd = some at' →
      ∀ target, at'.target offset whence = some target → 0 ≤ offset.toInt ∧ target < 2 ^ 64

/-- The entry of a descriptor. -/
structure Refers (at' : Position) (entry : LinuxFd) : Prop where
  inUse : entry.inUse = true
  path : entry.path = padName name
  offset : entry.offset = at'.pos
  size : entry.size = at'.size

/-- Every descriptor that was given is the index of an entry for the file. -/
def Held : Prop :=
  ∀ fd at', s.positions fd = some at' →
    ∃ idx, World.toIdx fd = some idx ∧ Refers name at' ((s.world.tasks i).fds idx)

/-! ## The table -/

variable {name i s} {w : World δ ρ} {idx : FdIdx} {fd : BitVec 32} {at' : Position}

theorem toIdx_injective {fd fd' : BitVec 32} (first : World.toIdx fd = some idx)
    (second : World.toIdx fd' = some idx) : fd = fd' := by
  unfold World.toIdx at first second
  split_ifs at first second
  obtain rfl := Option.some.inj first
  exact BitVec.eq_of_toNat_eq (Fin.mk.inj (Option.some.inj second)).symm

theorem Held.usedFd (held : s.Held name i) (given : s.positions fd = some at') :
    ∃ idx, s.world.usedFd i fd = some idx ∧ World.toIdx fd = some idx ∧
      Refers name at' ((s.world.tasks i).fds idx) := by
  obtain ⟨idx, index, refers⟩ := held fd at' given
  exact ⟨idx, Option.filter_eq_some_iff.mpr ⟨index, refers.inUse⟩, index, refers⟩

theorem Held.offsetOf (held : s.Held name i) (given : s.positions fd = some at') :
    s.world.offsetOf i fd = some at'.pos := by
  obtain ⟨idx, used, -, refers⟩ := held.usedFd given
  rw [World.offsetOf, used, Option.map_some, refers.offset]

/-- One entry is written: its descriptor is where the entry is, and the others stay. -/
theorem Held.write (held : s.Held name i) {entry : LinuxFd}
    {positions : BitVec 32 → Option Position}
    (tasks : w.tasks = (s.world.setFd i idx entry).tasks)
    (here : ∀ fd at', World.toIdx fd = some idx → positions fd = some at' → Refers name at' entry)
    (elsewhere : ∀ fd, World.toIdx fd ≠ some idx → positions fd = s.positions fd) :
    Held name i ⟨w, positions⟩ := by
  intro fd at' given
  have fds (other : FdIdx) : (w.tasks i).fds other =
      if other = idx then entry else (s.world.tasks i).fds other := by
    rw [tasks]
    simp only [World.setFd, World.modify_same, Function.update_apply]
  by_cases index : World.toIdx fd = some idx
  · refine ⟨idx, index, ?_⟩
    rw [fds, if_pos rfl]
    exact here fd at' index given
  · obtain ⟨other, index', refers⟩ := held fd at' ((elsewhere fd index).symm.trans given)
    refine ⟨other, index', ?_⟩
    rw [fds, if_neg (by rintro rfl; exact index index')]
    exact refers

/-! ## Calls -/

/-- A name that ends in time is copied as it is. -/
theorem copyPath_spelled {pathPtr : BitVec 64} (short : name.length ≤ 127) (text : 0 ∉ name)
    (spelled : s.world.machine.readBytes pathPtr (name.length + 1) = name ++ [0]) :
    s.world.copyPathFromUser pathPtr = some (padName name) := by
  have front : (s.world.machine.readBytes pathPtr 128).take (name.length + 1) = name ++ [0] := by
    rw [← spelled, Machine.readBytes, Machine.readBytes, ← List.map_take, List.take_range,
      Nat.min_eq_left (by omega)]
  have copied :
      (s.world.machine.readBytes pathPtr 128).takeWhile (fun byte => byte ≠ 0) = name := by
    rw [← List.take_append_drop (name.length + 1) (s.world.machine.readBytes pathPtr 128), front,
      List.append_assoc, List.takeWhile_append_of_pos]
    · simp
    · intro byte member
      have text' : byte ≠ 0 := fun zero => text (zero ▸ member)
      simpa using text'
  rw [World.copyPathFromUser, copied, if_pos (by omega)]

theorem openMode_plain (flags : BitVec 32) : Tables.isCreat (World.openMode flags) = false := by
  unfold World.openMode
  split_ifs <;> decide

theorem vfsOpen_padded {flags : Flags} (padded : s.world.Padded name flags)
    (plain : Tables.isCreat flags = false) :
    s.world.vfsOpen (padName name) flags =
      s.world.onVfs (s.world.vfs.openFile s.world.machine.vfsUid name flags) := by
  rw [World.vfsOpen, Tables.openFile_alike padded plain]

/-- A descriptor that is given for an entry not in use is not given yet. -/
theorem Held.fresh (held : s.Held name i) (idle : s.world.inUse i idx = false)
    (index : World.toIdx fd = some idx) : s.positions fd = none := by
  cases given : s.positions fd with
  | none => rfl
  | some at' =>
    obtain ⟨other, index', refers⟩ := held fd at' given
    obtain rfl := Option.some.inj (index'.symm.trans index)
    rw [World.inUse, refers.inUse] at idle
    cases idle

/-- `sys_open` where its condition is met. -/
theorem open_acts {pathPtr : BitVec 64} {flags : BitVec 32} (short : name.length ≤ 127)
    (text : 0 ∉ name) (held : s.Held name i) (on : s.On name (.sysOpen pathPtr flags))
    (meets : s.Meets name i (.sysOpen pathPtr flags)) :
    ∃ result w, s.world.posCall i (.sysOpen pathPtr flags) = some (result, w) ∧
      s.Acts name i (.sysOpen pathPtr flags) result w ∧
        Held name i ⟨w, s.noted name (.sysOpen pathPtr flags) result⟩ := by
  have copied := copyPath_spelled short text on
  rw [World.posCall, World.sysOpen, copied]
  dsimp only
  cases free : s.world.allocFd i with
  | none =>
    have negative : (errno linuxEMFILE).toInt < 0 := World.errno_neg (by decide) (by decide)
    refine ⟨_, _, rfl, ⟨fun _ => ⟨negative, rfl⟩, fun idx some => ?_⟩, ?_⟩
    · rw [free] at some
      cases some
    · have same : s.noted name (.sysOpen pathPtr flags) (errno linuxEMFILE) = s.positions := by
        unfold noted
        dsimp only
        split
        · rfl
        · rw [if_neg (by omega)]
      rw [same]
      exact held
  | some idx =>
    obtain ⟨padded, numbered⟩ := meets idx free
    have idle := World.allocFd_idle free
    rw [vfsOpen_padded padded (openMode_plain flags)]
    rcases opened : s.world.vfs.openFile s.world.machine.vfsUid name (World.openMode flags) with
      ⟨_ | vfd, v⟩
    · have negative : (errno linuxENOENT).toInt < 0 := World.errno_neg (by decide) (by decide)
      refine ⟨_, _, rfl, ⟨fun full => ?_, fun idx' same => ?_⟩, ?_⟩
      · rw [free] at full
        cases full
      · rw [opened]
        exact ⟨rfl, ⟨fun nonneg => absurd nonneg (by omega), nofun⟩,
          fun nonneg => absurd nonneg (by omega)⟩
      · have same : s.noted name (.sysOpen pathPtr flags) (errno linuxENOENT) = s.positions := by
          simp only [noted, opened]
        rw [same]
        refine held.write (w := (s.world.onVfs (none (α := Fd), v)).2.setFd i idx _) rfl ?_ ?_
        · intro fd at' index given
          rw [held.fresh idle index] at given
          cases given
        · exact fun _ _ => rfl
    · obtain ⟨facts⟩ := Tables.opened_of_openFile opened
      obtain rfl : vfd = World.sameNumber idx := numbered vfd facts.vacant
      have nonneg : 0 ≤ (BitVec.ofNat 64 (World.sameNumber idx).val).toInt := by
        rw [World.fd_nonneg]
        exact Int.natCast_nonneg _
      have index := World.toIdx_number idx
      have new := held.fresh idle index
      refine ⟨_, _, rfl, ⟨fun full => ?_, fun idx' same => ?_⟩, ?_⟩
      · rw [free] at full
        cases full
      · rw [opened]
        exact ⟨rfl, ⟨fun _ => rfl, fun _ => nonneg⟩, fun _ => new⟩
      · have noted' : s.noted name (.sysOpen pathPtr flags)
            (BitVec.ofNat 64 (World.sameNumber idx).val) = Function.update s.positions
              ((BitVec.ofNat 64 (World.sameNumber idx).val).setWidth 32)
              (some ⟨0, v.fstat (World.sameNumber idx)⟩) := by
          simp only [noted, opened, if_pos nonneg]
        rw [noted']
        refine held.write (w := (s.world.onVfs (some (World.sameNumber idx), v)).2.setFd i idx _)
          rfl ?_ ?_
        · intro fd at' index' given
          obtain rfl := toIdx_injective index index'
          rw [Function.update_self] at given
          obtain rfl := Option.some.inj given
          exact ⟨rfl, rfl, rfl, rfl⟩
        · intro fd apart
          rw [Function.update_of_ne]
          rintro rfl
          exact apart index

theorem ofNat_toInt {n : Nat} (small : n ≤ 4096) : (BitVec.ofNat 64 n).toInt = n := by
  rw [BitVec.toInt_eq_toNat_of_lt (by simp; omega)]
  simp
  omega

/-- A count that has been returned moves the position. -/
theorem noted_count {call : PosCall} {n : Nat} (given : s.positions fd = some at')
    (small : n ≤ 4096)
    (counts : s.noted name call (BitVec.ofNat 64 n) = if 0 < (BitVec.ofNat 64 n).toInt then
      Function.update s.positions fd ((s.positions fd).map fun at' =>
        { at' with pos := at'.pos + BitVec.ofNat 64 n }) else s.positions) :
    s.noted name call (BitVec.ofNat 64 n) =
      Function.update s.positions fd (some { at' with pos := at'.pos + BitVec.ofNat 64 n }) := by
  rw [counts, ofNat_toInt small, given, Option.map_some]
  split_ifs with some
  · rfl
  · obtain rfl : n = 0 := by omega
    have same : ({ at' with pos := at'.pos + BitVec.ofNat 64 0 } : Position) = at' := by
      rw [show at'.pos + BitVec.ofNat 64 0 = at'.pos from BitVec.add_zero _]
    rw [same, ← given, Function.update_eq_self]

/-- An entry that moves to a position. -/
theorem Held.move (held : s.Held name i) (given : s.positions fd = some at')
    (index : World.toIdx fd = some idx) (tasks : w.tasks = s.world.tasks) (pos : BitVec 64) :
    Held name i ⟨w.setFd i idx { (w.tasks i).fds idx with offset := pos },
      Function.update s.positions fd (some { at' with pos })⟩ := by
  obtain ⟨idx', index', refers⟩ := held fd at' given
  obtain rfl := Option.some.inj (index'.symm.trans index)
  refine held.write (by rw [World.setFd, World.modify, World.setFd, World.modify, tasks]) ?_ ?_
  · intro fd' at'' index'' given'
    obtain rfl := toIdx_injective index index''
    rw [Function.update_self] at given'
    obtain rfl := Option.some.inj given'
    exact ⟨refers.inUse, refers.path, rfl, refers.size⟩
  · intro fd' apart
    rw [Function.update_of_ne]
    rintro rfl
    exact apart index

/-- An entry that moves on by a count. -/
theorem Held.advance (held : s.Held name i) (given : s.positions fd = some at')
    (index : World.toIdx fd = some idx) {n : Nat} (tasks : w.tasks = s.world.tasks)
    (fits : at'.pos.toNat + n < 2 ^ 64) :
    ∃ w', w.advance i idx n = some w' ∧ w'.machine = w.machine ∧
      Held name i ⟨w', Function.update s.positions fd
        (some { at' with pos := at'.pos + BitVec.ofNat 64 n })⟩ := by
  obtain ⟨idx', index', refers⟩ := held fd at' given
  obtain rfl := Option.some.inj (index'.symm.trans index)
  have here : ((w.tasks i).fds idx').offset = at'.pos := by rw [tasks, refers.offset]
  refine ⟨w.setFd i idx' { (w.tasks i).fds idx' with
    offset := at'.pos + BitVec.ofNat 64 n }, ?_, rfl, held.move given index tasks _⟩
  rw [World.advance, here, if_pos fits]

/-- A call that fails leaves every position. -/
theorem Held.failed (held : s.Held name i) {call : PosCall} {result : BitVec 64}
    (tasks : w.tasks = s.world.tasks) (same : s.noted name call result = s.positions) :
    Held name i ⟨w, s.noted name call result⟩ := by
  rw [same]
  intro fd at' given
  obtain ⟨idx, index, refers⟩ := held fd at' given
  exact ⟨idx, index, by rw [tasks]; exact refers⟩

/-- Bytes that are read go to the caller, and move the entry. -/
theorem sysRead_file (used : s.world.usedFd i fd = some idx)
    (refers : Refers name at' ((s.world.tasks i).fds idx)) (padded : s.world.Padded name 0)
    (buf : BitVec 64) (count : Nat) :
    ∃ failure : BitVec 64, failure.toInt < 0 ∧ s.world.sysRead i fd buf count =
      match s.world.vfs.readFile s.world.machine.vfsUid name at'.pos (min count 4096) with
      | (none, v) => some (failure, (s.world.onVfs ((), v)).2)
      | (some [], v) => some (0, (s.world.onVfs ((), v)).2)
      | (some bytes, v) =>
        (((s.world.onVfs ((), v)).2.writeUser buf bytes).advance i idx bytes.length).map
          fun w => (BitVec.ofNat 64 bytes.length, w) := by
  rw [World.sysRead, used]
  dsimp only
  rw [refers.path, vfsOpen_padded padded (by decide), refers.offset]
  unfold Tables.readFile
  rcases s.world.vfs.openFile s.world.machine.vfsUid name 0 with ⟨_ | vfd, v⟩
  · exact ⟨_, World.errno_neg (by decide) (by decide), rfl⟩
  · dsimp only
    refine ⟨-1, by decide, ?_⟩
    simp only [World.onVfs, World.vfs, World.vfsClose]
    rcases (v.lseek vfd at'.pos 0).2.read vfd (min count 4096) with ⟨_ | _ | bytes, v'⟩
    all_goals rfl

/-- A count that is written moves the entry. -/
theorem sysWrite_file (stdout : fd ≠ 1) (stderr : fd ≠ 2)
    (used : s.world.usedFd i fd = some idx) (refers : Refers name at' ((s.world.tasks i).fds idx))
    (padded : s.world.Padded name 1) (buf count : BitVec 64) :
    ∃ failure : BitVec 64, failure.toInt < 0 ∧ s.world.sysWrite i fd buf count =
      match s.world.vfs.writeFile s.world.machine.vfsUid name at'.pos
        (s.world.machine.readBytes buf (min count.toNat 4096)) with
      | (none, v) => some (failure, (s.world.onVfs ((), v)).2)
      | (some n, v) => ((s.world.onVfs ((), v)).2.advance i idx n).map
          fun w => (BitVec.ofNat 64 n, w) := by
  rw [World.sysWrite, if_neg (not_or.mpr ⟨stdout, stderr⟩), used]
  dsimp only
  rw [refers.path, vfsOpen_padded padded (by decide), refers.offset]
  unfold Tables.writeFile
  rcases s.world.vfs.openFile s.world.machine.vfsUid name 1 with ⟨_ | vfd, v⟩
  · exact ⟨_, World.errno_neg (by decide) (by decide), rfl⟩
  · refine ⟨-1, by decide, ?_⟩
    simp only [World.onVfs, World.vfs, World.vfsClose, Machine.readBytes]
    generalize List.map _ _ = bytes
    rcases (v.lseek vfd at'.pos 0).2.write vfd bytes with ⟨_ | n, v'⟩
    all_goals rfl

/-- `sys_read` where its condition is met. -/
theorem read_acts {buf : BitVec 64} {count : Nat} (held : s.Held name i)
    (on : s.On name (.sysRead fd buf count)) (meets : s.Meets name i (.sysRead fd buf count)) :
    ∃ result w, s.world.posCall i (.sysRead fd buf count) = some (result, w) ∧
      s.Acts name i (.sysRead fd buf count) result w ∧
        Held name i ⟨w, s.noted name (.sysRead fd buf count) result⟩ := by
  obtain ⟨at', given⟩ := Option.isSome_iff_exists.mp on
  obtain ⟨idx, used, index, refers⟩ := held.usedFd given
  obtain ⟨padded, bounded, fits⟩ := meets
  have room := fits at' given
  obtain ⟨failure, negative, served⟩ := sysRead_file used refers padded buf count
  rw [World.posCall, served]
  have acts {result : BitVec 64} {w : World δ ρ}
      (does : match s.world.vfs.readFile s.world.machine.vfsUid name at'.pos (min count 4096) with
        | (none, v) => result.toInt < 0 ∧ w.machine = s.world.machineWith v
        | (some bytes, v) => result = BitVec.ofNat 64 bytes.length ∧
            w.machine = (s.world.machineWith v).writeBytes buf bytes) :
      s.Acts name i (.sysRead fd buf count) result w := by
    intro at'' given'
    obtain rfl := Option.some.inj (given.symm.trans given')
    exact does
  rcases reading : s.world.vfs.readFile s.world.machine.vfsUid name at'.pos (min count 4096) with
    ⟨_ | bytes, v⟩
  · refine ⟨_, _, rfl, acts ?_, held.failed rfl (if_neg (by omega))⟩
    rw [reading]
    exact ⟨negative, rfl⟩
  · have length := Tables.readFile_length bounded reading
    obtain ⟨w', moved, machine, held'⟩ := held.advance
      (w := (s.world.onVfs ((), v)).2.writeUser buf bytes) given index rfl
      (Nat.lt_of_le_of_lt (Nat.add_le_add_left length _) room)
    have counted : s.noted name (.sysRead fd buf count) (BitVec.ofNat 64 bytes.length) = _ :=
      noted_count given (length.trans (Nat.min_le_right _ _)) rfl
    cases bytes with
    | nil =>
      refine ⟨_, _, rfl, acts ?_, held.failed rfl rfl⟩
      rw [reading]
      exact ⟨rfl, rfl⟩
    | cons byte rest =>
      refine ⟨_, w', Option.map_eq_some_iff.mpr ⟨w', moved, rfl⟩, acts ?_, ?_⟩
      · rw [reading]
        exact ⟨rfl, machine⟩
      · rw [counted]
        exact held'

/-- `sys_write` where its condition is met. -/
theorem write_acts {buf count : BitVec 64} (held : s.Held name i)
    (on : s.On name (.sysWrite fd buf count)) (meets : s.Meets name i (.sysWrite fd buf count)) :
    ∃ result w, s.world.posCall i (.sysWrite fd buf count) = some (result, w) ∧
      s.Acts name i (.sysWrite fd buf count) result w ∧
        Held name i ⟨w, s.noted name (.sysWrite fd buf count) result⟩ := by
  obtain ⟨at', given⟩ := Option.isSome_iff_exists.mp on
  obtain ⟨idx, used, index, refers⟩ := held.usedFd given
  obtain ⟨stdout, stderr, padded, bounded, fits⟩ := meets
  have room := fits at' given
  obtain ⟨failure, negative, served⟩ := sysWrite_file stdout stderr used refers padded
    buf count
  rw [World.posCall, served]
  have acts {result : BitVec 64} {w : World δ ρ}
      (does : match s.world.vfs.writeFile s.world.machine.vfsUid name at'.pos
          (s.world.machine.readBytes buf (min count.toNat 4096)) with
        | (none, v) => result.toInt < 0 ∧ w.machine = s.world.machineWith v
        | (some n, v) => result = BitVec.ofNat 64 n ∧ w.machine = s.world.machineWith v) :
      s.Acts name i (.sysWrite fd buf count) result w := by
    intro at'' given'
    obtain rfl := Option.some.inj (given.symm.trans given')
    exact does
  rcases writing : s.world.vfs.writeFile s.world.machine.vfsUid name at'.pos
    (s.world.machine.readBytes buf (min count.toNat 4096)) with ⟨_ | n, v⟩
  · refine ⟨_, _, rfl, acts ?_, held.failed rfl (if_neg (by omega))⟩
    rw [writing]
    exact ⟨negative, rfl⟩
  · have length := Tables.writeFile_le bounded writing
    rw [Machine.readBytes, List.length_map, List.length_range] at length
    obtain ⟨w', moved, machine, held'⟩ := held.advance (w := (s.world.onVfs ((), v)).2) given index
      rfl (Nat.lt_of_le_of_lt (Nat.add_le_add_left length _) room)
    have counted : s.noted name (.sysWrite fd buf count) (BitVec.ofNat 64 n) = _ :=
      noted_count given (length.trans (Nat.min_le_right _ _)) rfl
    refine ⟨_, w', Option.map_eq_some_iff.mpr ⟨w', moved, rfl⟩, acts ?_, ?_⟩
    · rw [writing]
      exact ⟨rfl, machine⟩
    · rw [counted]
      exact held'

/-- Where a seek leads that the condition allows. -/
theorem target_sum {offset : BitVec 64} {base : BitVec 64} (forward : 0 ≤ offset.toInt)
    (small : (base.toNat : Int) + offset.toInt < 2 ^ 64) :
    base.toNat + offset.toNat < 2 ^ 64 ∧
      BitVec.ofInt 64 (base.toNat + offset.toInt) = base + offset := by
  have same : offset.toInt = offset.toNat := by
    have := BitVec.toInt_eq_toNat_cond offset
    have := offset.isLt
    split_ifs at * <;> omega
  rw [same] at small ⊢
  refine ⟨by omega, ?_⟩
  rw [← Int.natCast_add, BitVec.ofInt_natCast, BitVec.ofNat_add, BitVec.ofNat_toNat,
    BitVec.ofNat_toNat, BitVec.setWidth_eq, BitVec.setWidth_eq]

/-- `sys_lseek` where its condition is met. -/
theorem lseek_acts {offset : BitVec 64} {whence : BitVec 32} (held : s.Held name i)
    (on : s.On name (.sysLseek fd offset whence))
    (meets : s.Meets name i (.sysLseek fd offset whence)) :
    ∃ result w, s.world.posCall i (.sysLseek fd offset whence) = some (result, w) ∧
      s.Acts name i (.sysLseek fd offset whence) result w ∧
        Held name i ⟨w, s.noted name (.sysLseek fd offset whence) result⟩ := by
  obtain ⟨at', given⟩ := Option.isSome_iff_exists.mp on
  obtain ⟨idx, used, index, refers⟩ := held.usedFd given
  have allowed := meets at' given
  -- A seek that leads somewhere moves the entry there.
  have moves {target : Int} {pos : BitVec 64} (leads : at'.target offset whence = some target)
      (forward : 0 ≤ target) (here : BitVec.ofInt 64 target = pos) :
      s.Acts name i (.sysLseek fd offset whence) pos
          (s.world.setFd i idx { (s.world.tasks i).fds idx with offset := pos }) ∧
        Held name i ⟨s.world.setFd i idx { (s.world.tasks i).fds idx with offset := pos },
          s.noted name (.sysLseek fd offset whence) pos⟩ := by
    refine ⟨fun at'' given' => ⟨rfl, ?_⟩, ?_⟩
    · obtain rfl := Option.some.inj (given.symm.trans given')
      rw [leads]
      dsimp only
      rw [if_neg (by omega), here]
    · have moved : s.noted name (.sysLseek fd offset whence) pos =
          Function.update s.positions fd (some { at' with pos }) := by
        simp only [noted, given, Option.map_some, leads, if_neg (Int.not_lt.mpr forward), here]
      rw [moved]
      exact held.move given index rfl pos
  rw [World.posCall, World.sysLseek, used]
  dsimp only
  by_cases set : whence = 0
  · have leads : at'.target offset whence = some offset.toInt := by rw [Position.target, if_pos set]
    rw [if_pos set]
    exact ⟨_, _, rfl, moves leads (allowed _ leads).1 (BitVec.ofInt_toInt)⟩
  · by_cases known : whence = 1 ∨ whence = 2
    · rw [if_neg set, if_pos known]
      have leads : at'.target offset whence = some
          ((if whence = 1 then at'.pos else at'.size).toNat + offset.toInt) := by
        rw [Position.target, if_neg set]
        rcases known with rfl | rfl
        · rfl
        · rfl
      obtain ⟨forward, small⟩ := allowed _ leads
      obtain ⟨fits, sum⟩ := target_sum forward small
      have base : (if whence = 1 then ((s.world.tasks i).fds idx).offset
          else ((s.world.tasks i).fds idx).size) = if whence = 1 then at'.pos else at'.size := by
        rw [refers.offset, refers.size]
      rw [base, if_pos fits]
      exact ⟨_, _, rfl, moves leads (by omega) sum⟩
    · have nowhere : at'.target offset whence = none := by
        rw [Position.target, if_neg set, if_neg (not_or.mp known).1, if_neg (not_or.mp known).2]
      have same : s.noted name (.sysLseek fd offset whence) (errno linuxEINVAL) = s.positions := by
        simp only [noted, given, Option.map_some, nowhere]
        rw [← given, Function.update_eq_self]
      rw [if_neg set, if_neg known]
      refine ⟨_, _, rfl, fun at'' given' => ⟨rfl, ?_⟩, held.failed rfl same⟩
      obtain rfl := Option.some.inj (given.symm.trans given')
      rw [nowhere]
      exact World.errno_neg (by decide) (by decide)

/-- Any call where its condition is met. -/
theorem call_acts {call : PosCall} (short : name.length ≤ 127) (text : 0 ∉ name)
    (held : s.Held name i) (on : s.On name call) (meets : s.Meets name i call) :
    ∃ result w, s.world.posCall i call = some (result, w) ∧ s.Lawful name i call result w ∧
      Held name i ⟨w, s.noted name call result⟩ := by
  have acts : ∃ result w, s.world.posCall i call = some (result, w) ∧
      s.Acts name i call result w ∧ Held name i ⟨w, s.noted name call result⟩ := by
    cases call with
    | sysOpen pathPtr flags => exact open_acts short text held on meets
    | sysRead fd buf count => exact read_acts held on meets
    | sysWrite fd buf count => exact write_acts held on meets
    | sysLseek fd offset whence => exact lseek_acts held on meets
  obtain ⟨result, w, returns, acts, held'⟩ := acts
  exact ⟨result, w, returns, ⟨acts, fun fd at' given => held'.offsetOf given⟩, held'⟩

/-! ## Runs -/

/-- In every run of calls that meet the condition, each call acts on the file of this name and
leaves every descriptor where it is to be; and the next call returns. -/
theorem positions_lawful {final : PosSession δ ρ}
    {taken : List (Transition (PosSession δ ρ) PosCall)} (short : name.length ≤ 127)
    (text : 0 ∉ name) (trace : Trace (Steps name i) ⟨w, fun _ => none⟩ taken final)
    (met : Guarded (Meets name i) taken) :
    (∀ transition ∈ taken, ∃ result,
      transition.before.world.posCall i transition.label = some (result, transition.after.world) ∧
        transition.before.Lawful name i transition.label result transition.after.world) ∧
    ∀ call, final.On name call → final.Meets name i call →
      ∃ result w', final.world.posCall i call = some (result, w') ∧
        final.Lawful name i call result w' := by
  have start : Held name i ⟨w, fun _ => none⟩ := fun _ _ given => nomatch given
  have kept (before : PosSession δ ρ) (call : PosCall) (after : PosSession δ ρ)
      (held : Held name i before) (meets : before.Meets name i call)
      (valid : Steps name i before call after) :
      Held name i after ∧ ∃ result, before.world.posCall i call = some (result, after.world) ∧
        before.Lawful name i call result after.world := by
    obtain ⟨on, result, w', returns, rfl⟩ := valid
    obtain ⟨result', w'', returns', lawful, held'⟩ := call_acts short text held on meets
    obtain ⟨rfl, rfl⟩ := Prod.mk.inj (Option.some.inj (returns.symm.trans returns'))
    exact ⟨held', result, returns, lawful⟩
  refine ⟨trace.forall_of_guarded (Held name i) start kept met, fun call on meets => ?_⟩
  have held := trace.final_of_guarded (Held name i) start
    (fun before call after holds meets valid => (kept before call after holds meets valid).1) met
  obtain ⟨result, w', returns, lawful, -⟩ := call_acts short text held on meets
  exact ⟨result, w', returns, lawful⟩

section Samples

/-- A driver that has a file of zeros under every path. -/
def zeroOps : FsOps Unit where
  openPath _ _ disk := (some 0, disk)
  close _ disk := disk
  read _ count _ disk := (some (List.replicate count 0), disk)
  write _ bytes _ disk := (some bytes.length, disk)
  stat _ _ := some ⟨64, false, 0⟩
  readdir _ _ _ := none
  mkdir _ disk := (false, disk)
  rmdir _ disk := (false, disk)
  unlink _ disk := (false, disk)

theorem bounded_zeroOps : zeroOps.Bounded where
  read _ _ _ _ _ _ result := by
    cases result
    rw [List.length_replicate]
  write _ _ _ _ _ _ result := by
    cases result
    rfl

/-- A Linux task with a path in its memory, over these tables. -/
def reader {δ : Type} (name : Path) (v : Tables δ) : World δ Unit where
  tasks i := if i = 0 then { LinuxTask.empty with alive := true } else .empty
  machine :=
    { kernel := Syscall.oneTask.kernel
      user := fun addr => name.getD addr.toNat 0
      currentUid := 0
      users := []
      mmioRegions := []
      framebuffer := Syscall.oneTask.framebuffer
      rest := v }
  rest := ()

def zeros : Tables Unit := { Tables.empty () with drivers := [zeroOps], mounts := [rootMount 0] }

/-- `/a`. -/
def zeroName : Path := ascii ['/', 'a']

instance : DecidableEq MountEntry := fun m m' =>
  decidable_of_iff (m.pfx = m'.pfx ∧ m.driverIdx = m'.driverIdx) (by cases m; cases m'; simp)

instance {δ ρ : Type} (name : Path) (s : PosSession δ ρ) (call : PosCall) :
    Decidable (s.On name call) :=
  match call with
  | .sysOpen pathPtr _ =>
    inferInstanceAs (Decidable
      (s.world.machine.readBytes pathPtr (name.length + 1) = name ++ [0]))
  | .sysRead fd _ _ | .sysWrite fd _ _ | .sysLseek fd _ _ =>
    inferInstanceAs (Decidable ((s.positions fd).isSome = true))

/-- The session behind a call that returns. -/
def next {δ ρ : Type} (name : Path) (s : PosSession δ ρ) (call : PosCall) : PosSession δ ρ :=
  (s.world.posCall 0 call).elim s fun reply => ⟨reply.2, s.noted name call reply.1⟩

theorem steps_next (call : PosCall) (on : s.On name call)
    (returns : (s.world.posCall 0 call).isSome = true) :
    Steps name 0 s call (s.next name call) := by
  obtain ⟨⟨result, w⟩, served⟩ := Option.isSome_iff_exists.mp returns
  exact ⟨on, result, w, served, by rw [next, served]; rfl⟩

def started : PosSession Unit Unit := ⟨reader zeroName zeros, fun _ => none⟩

def opened : PosSession Unit Unit := started.next zeroName (.sysOpen 0 0)

def sought : PosSession Unit Unit := opened.next zeroName (.sysLseek 0 10 0)

theorem alike_zeroOps {v : Tables Unit} {uid : Uid} {path path' : Path} {flags : Flags}
    (drivers : v.drivers = [zeroOps])
    (admitted : v.admits uid path' flags = v.admits uid path flags)
    (mounted : resolveMount v.mounts path' = resolveMount v.mounts path) :
    v.Alike uid path path' flags where
  admitted := admitted
  mounted := mounted
  opened _ driver _ there := by
    obtain rfl := List.mem_singleton.mp (drivers ▸ List.mem_of_getElem? there)
    rfl
  sized _ driver _ _ _ there _ := by
    obtain rfl := List.mem_singleton.mp (drivers ▸ List.mem_of_getElem? there)
    rfl

/-- A file is opened, and read behind its tenth byte. -/
theorem positions_lawful_zeros : ∃ taken final,
    Trace (Steps zeroName 0) started taken final ∧ taken.length = 3 ∧
      final.positions 0 = some ⟨14, 64⟩ ∧
      (∀ transition ∈ taken, ∃ result,
        transition.before.world.posCall 0 transition.label =
            some (result, transition.after.world) ∧
          transition.before.Lawful zeroName 0 transition.label result transition.after.world) ∧
      ∀ call, final.On zeroName call → final.Meets zeroName 0 call →
        ∃ result w', final.world.posCall 0 call = some (result, w') ∧
          final.Lawful zeroName 0 call result w' := by
  have trace : Trace (Steps zeroName 0) started _ (sought.next zeroName (.sysRead 0 0x2000 4)) :=
    .snoc (.snoc (.snoc .nil
      (steps_next (.sysOpen 0 0) (by decide +kernel) (by decide +kernel)))
      (steps_next (s := opened) (.sysLseek 0 10 0) (by decide +kernel) (by decide +kernel)))
      (steps_next (s := sought) _ (by decide +kernel) (by decide +kernel))
  have opens : started.Meets zeroName 0 (.sysOpen 0 0) := by
    intro idx free
    obtain rfl : idx = 0 := Option.some.inj (free.symm.trans (by decide +kernel))
    exact ⟨alike_zeroOps rfl (by decide +kernel) (by decide +kernel), by decide +kernel⟩
  have seeks : opened.Meets zeroName 0 (.sysLseek 0 10 0) := by
    intro at' given target leads
    obtain rfl : ⟨0, 64⟩ = at' := Option.some.inj (Eq.trans (by decide +kernel) given)
    obtain rfl : 10 = target := Option.some.inj (Eq.trans (by decide) leads)
    decide
  have reads : sought.Meets zeroName 0 (.sysRead 0 0x2000 4) := by
    refine ⟨alike_zeroOps rfl (by decide +kernel) (by decide +kernel), fun driver member => ?_,
      fun at' given => ?_⟩
    · obtain rfl := List.mem_singleton.mp member
      exact bounded_zeroOps
    · obtain rfl : ⟨10, 64⟩ = at' := Option.some.inj (Eq.trans (by decide +kernel) given)
      decide
  refine ⟨_, _, trace, rfl, by decide +kernel, positions_lawful (by decide) (by decide) trace ?_⟩
  intro transition member
  simp only [List.nil_append, List.cons_append, List.mem_cons, List.not_mem_nil, or_false] at member
  rcases member with rfl | rfl | rfl
  · exact opens
  · exact seeks
  · exact reads

/-- `/tmp/a`, which is there, over the RAM file system. -/
def tmpName : Path := ascii ['/', 't', 'm', 'p', '/', 'a']

def tmpFile : Tables Tmpfs where
  drivers := [tmpOps]
  mounts := [tmpMount 0]
  openFiles _ := none
  perms := .empty
  disk := ((Tmpfs.empty (some fun _ => 0)).openPath (ascii ['a']) oCreat).2

/-- The RAM file system has the file, and not the one whose name has the zeros behind it. -/
theorem open_behind_zeros :
    ¬ ∀ (w : World Tmpfs Unit) (name : Path) (i : Slot) (final : PosSession Tmpfs Unit)
      (taken : List (Transition (PosSession Tmpfs Unit) PosCall)),
      name.length ≤ 127 → 0 ∉ name → Trace (Steps name i) ⟨w, fun _ => none⟩ taken final →
        ∀ transition ∈ taken, ∃ result,
          transition.before.world.posCall i transition.label =
              some (result, transition.after.world) ∧
            transition.before.Lawful name i transition.label result transition.after.world := by
  intro claim
  have step : Steps tmpName 0 _ _ _ := steps_next (s := ⟨reader tmpName tmpFile, fun _ => none⟩)
    (.sysOpen 0 0) (by decide +kernel) (by decide +kernel)
  obtain ⟨result, returns, lawful⟩ := claim (reader tmpName tmpFile) tmpName 0 _ _ (by decide)
    (by decide) (.snoc .nil step) _ (List.mem_singleton_self _)
  have refused : ((reader tmpName tmpFile).posCall 0 (.sysOpen 0 0)).map Prod.fst =
      some (errno linuxENOENT) := by
    decide +kernel
  rw [returns] at refused
  obtain rfl : result = errno linuxENOENT := Option.some.inj refused
  have found := ((lawful.acts.2 0 (by decide +kernel)).2.1).mpr (by decide +kernel)
  exact absurd found (by decide)

end Samples

end PosSession

end DBSos.Linux
