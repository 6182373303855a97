import DBSos.Lib.Leases
import DBSos.Lib.Trace
import DBSos.Syscall.Files
import DBSos.Vfs.Calls
import DBSos.Vfs.Tmpfs

/-!
# Task descriptors and the files open behind them

`SYS_OPEN` opens the file in the VFS and writes only its name into the task's
descriptor. `SYS_READ` and `SYS_WRITE` open it a second time by that name and close
what they opened; `SYS_CLOSE` clears the descriptor and has nothing to close.
-/

namespace DBSos.Syscall

open DBSos.Lib DBSos.Scheduler DBSos.Vfs

variable {δ : Type}

/-- The result of `vfs::open` as an `i32`. -/
def ofFd : Option Fd → BitVec 32
  | none => -1
  | some fd => BitVec.ofNat 32 fd.val

/-- The bounds test on an `i32` descriptor. -/
def toFd (fd : BitVec 32) : Option Fd :=
  if below : fd.toNat < maxOpenFiles then some ⟨fd.toNat, below⟩ else none

@[simp] theorem toFd_ofFd (fd : Fd) : toFd (ofFd (some fd)) = some fd := by
  have small : fd.val < 64 := fd.isLt
  have value : (ofFd (some fd)).toNat = fd.val := by simp [ofFd]; omega
  rw [toFd, dif_pos (show _ < 64 by omega)]
  exact congrArg some (Fin.ext value)

theorem ofFd_neg_iff (result : Option Fd) : (ofFd result).toInt < 0 ↔ result = none := by
  have known : ∀ fd : Fd, ¬ (ofFd (some fd)).toInt < 0 := by decide
  cases result with
  | none => exact iff_of_true (by decide) rfl
  | some fd => exact iff_of_false (known fd) nofun

namespace Machine

/-- The uid that the permission checks see. -/
def vfsUid (m : Machine (Tables δ)) : Uid := BitVec.ofNat 32 m.uid

/-- A call that acts on the tables of the VFS. -/
def onTables {α : Type} (m : Machine (Tables δ)) (result : α × Tables δ) :
    α × Machine (Tables δ) :=
  (result.1, { m with rest := result.2 })

end Machine

/-- The services with the VFS's own functions in place. -/
def withVfs (env : Services (Tables δ)) : Services (Tables δ) :=
  { env with
    vfsOpen := fun path flags m =>
      let (fd, m) := m.onTables (m.rest.openFile m.vfsUid path flags)
      (ofFd fd, m)
    vfsClose := fun fd m => (toFd fd).elim m fun fd => (m.onTables (m.rest.close fd)).2
    vfsLseek := fun fd offset m =>
      (toFd fd).elim m fun fd => (m.onTables (m.rest.lseek fd offset 0)).2
    vfsRead := fun fd count m =>
      let (bytes, m) := (toFd fd).elim (none, m) fun fd => m.onTables (m.rest.read fd count)
      (bytes.elim (-1) fun bytes => BitVec.ofNat 64 bytes.length,
        fun i => (bytes.getD []).getD i 0, m)
    vfsWrite := fun fd bytes m =>
      let (n, m) := (toFd fd).elim (none, m) fun fd => m.onTables (m.rest.write fd bytes)
      (n.elim (-1) (BitVec.ofNat 64), m)
    vfsStat := fun path m => m.rest.stat path
    vfsReaddir := fun path m =>
      let entries := m.rest.readdir m.vfsUid path 64
      (entries.elim (-1) fun entries => BitVec.ofNat 32 entries.length,
        fun i => (entries.getD []).getD i.val ⟨Vector.replicate 32 0, false, 0⟩, m)
    vfsMkdir := fun path m => m.onTables (m.rest.mkdir m.vfsUid path)
    vfsRmdir := fun path m => m.onTables (m.rest.rmdir m.vfsUid path)
    vfsUnlink := fun path m => m.onTables (m.rest.unlink m.vfsUid path)
    vfsIsDir := fun path m => m.rest.isDir path }

/-- A call of the task on its descriptors, or user code at work in between. -/
inductive FdCall where
  | openFile (ptr len flags : BitVec 64)
  | readFile (idx buf count : BitVec 64)
  | writeFile (idx buf count : BitVec 64)
  | closeFd (idx : BitVec 64)
  | compute (memory : BitVec 64 → UInt8)

namespace Machine

variable (env : Services (Tables δ)) (m : Machine (Tables δ))

/-- What the call returns. -/
def fdCall : FdCall → Reply (Tables δ)
  | .openFile ptr len flags => m.openFile (withVfs env) ptr len flags
  | .readFile idx buf count => m.readFile (withVfs env) idx buf count
  | .writeFile idx buf count => m.writeFile (withVfs env) idx buf count
  | .closeFd idx => m.closeFd idx
  | .compute memory => .ret 0#64 { m with user := memory }

/-- The task's descriptor is in use. -/
def inUse (i : Fin maxFds) : Bool := (m.kernel.currentTask.fds.get i).inUse

variable {m} {env} {m' : Machine (Tables δ)} {value : BitVec 64}

theorem setFd_inUse (slot i : Fin maxFds) (entry : FdEntry) :
    (m.setFd slot entry).inUse i = if i = slot then entry.inUse else m.inUse i := by
  have fds : (m.setFd slot entry).kernel.currentTask.fds =
      m.kernel.currentTask.fds.set slot entry := by
    simp [setFd, Kernel.modifyTask, Kernel.setTask, Kernel.currentTask]
  rw [inUse, fds]
  change ((m.kernel.currentTask.fds.set slot entry)[i.val]).inUse = _
  rw [Vector.getElem_set]
  by_cases here : i = slot
  · rw [if_pos here, if_pos (congrArg Fin.val here.symm)]
  · have apart : slot.val ≠ i.val := fun same => here (Fin.ext same.symm)
    rw [if_neg here, if_neg apart]
    rfl

/-- What a call other than `SYS_CLOSE` does to the two tables. -/
inductive FdEffect (m m' : Machine (Tables δ)) : Prop where
  | same (files : m'.rest.occupied = m.rest.occupied) (fds : m'.inUse = m.inUse)
  | opened (slot : Fin maxFds) (fd : Fd) (idle : m.inUse slot = false)
      (free : m.rest.occupied fd = false)
      (files : m'.rest.occupied = Function.update m.rest.occupied fd true)
      (fds : m'.inUse = Function.update m.inUse slot true)

/-- A descriptor rewritten while it is in use. -/
theorem setFd_inUse_eq {slot : Fin maxFds} {entry : FdEntry} (used : m.inUse slot = true)
    (stays : entry.inUse = true) : (m.setFd slot entry).inUse = m.inUse := by
  funext i
  rw [setFd_inUse]
  split_ifs with here
  · rw [here, used, stays]
  · rfl

theorem fd_inUse {idx : BitVec 64} {slot : Fin maxFds} {entry : FdEntry}
    (found : m.fd idx = some (slot, entry)) :
    m.inUse slot = true ∧ entry = m.kernel.currentTask.fds.get slot := by
  obtain ⟨-, rfl, used⟩ := fd_eq_some found
  exact ⟨used, rfl⟩

theorem advance_inUse {slot : Fin maxFds} {actual : Nat} {entry : FdEntry}
    (advanced : m.advance slot actual = some entry) : entry.inUse = m.inUse slot := by
  simp only [advance] at advanced
  split_ifs at advanced
  cases advanced
  rfl

theorem inUse_of_kernel (kernel : m'.kernel = m.kernel) : m'.inUse = m.inUse := by
  funext i
  rw [inUse, inUse, kernel]

/-- The machine behind a call into the VFS that leaves `OPEN_FILES` as occupied as it was. -/
structure Untouched (m m' : Machine (Tables δ)) : Prop where
  kernel : m'.kernel = m.kernel
  files : m'.rest.occupied = m.rest.occupied

theorem Untouched.trans {m'' : Machine (Tables δ)} (first : Untouched m m')
    (second : Untouched m' m'') : Untouched m m'' :=
  ⟨second.kernel.trans first.kernel, second.files.trans first.files⟩

theorem Untouched.writeBytes (untouched : Untouched m m') (ptr : BitVec 64)
    (bytes : List UInt8) : Untouched m (m'.writeBytes ptr bytes) :=
  ⟨untouched.kernel, untouched.files⟩

theorem Untouched.effect (untouched : Untouched m m') : FdEffect m m' :=
  .same untouched.files (inUse_of_kernel untouched.kernel)

/-- The machine behind a successful `vfs::open`. -/
structure OpenedBy (m m' : Machine (Tables δ)) (fd : Fd) : Prop where
  kernel : m'.kernel = m.kernel
  free : m.rest.occupied fd = false
  files : m'.rest.occupied = Function.update m.rest.occupied fd true

theorem vfsOpen_spec {path : Path} {flags : Flags} {vfsFd : BitVec 32}
    (opened : (withVfs env).vfsOpen path flags m = (vfsFd, m')) :
    vfsFd.toInt < 0 ∧ Untouched m m' ∨
      ¬ vfsFd.toInt < 0 ∧ ∃ fd, vfsFd = ofFd (some fd) ∧ OpenedBy m m' fd := by
  cases opened
  cases result : (m.rest.openFile m.vfsUid path flags).1 with
  | none =>
    exact .inl ⟨(ofFd_neg_iff _).mpr rfl, rfl, Tables.openFile_occupied_none result⟩
  | some fd =>
    obtain ⟨free, files⟩ := Tables.openFile_occupied_some result
    refine .inr ⟨fun negative => ?_, fd, rfl, rfl, free, files⟩
    cases (ofFd_neg_iff _).mp negative

/-- To close what was opened gives the entry back. -/
theorem OpenedBy.vfsClose (env : Services (Tables δ)) {m'' : Machine (Tables δ)} {fd : Fd}
    (opened : OpenedBy m m' fd) (untouched : Untouched m' m'') :
    Untouched m ((withVfs env).vfsClose (ofFd (some fd)) m'') := by
  have closed : (withVfs env).vfsClose (ofFd (some fd)) m'' =
      (m''.onTables (m''.rest.close fd)).2 := by
    simp only [withVfs, toFd_ofFd, Option.elim_some]
  rw [closed]
  refine ⟨untouched.kernel.trans opened.kernel, ?_⟩
  change (m''.rest.close fd).2.occupied = _
  rw [Tables.close_occupied, untouched.files, opened.files, Function.update_idem, ← opened.free,
    Function.update_eq_self]

theorem vfsLseek_untouched (vfsFd : BitVec 32) (offset : BitVec 64) :
    Untouched m ((withVfs env).vfsLseek vfsFd offset m) := by
  simp only [withVfs]
  cases toFd vfsFd with
  | none => exact ⟨rfl, rfl⟩
  | some fd => exact ⟨rfl, (Tables.lseek_touches offset 0).occupied_eq⟩

theorem vfsRead_untouched (env : Services (Tables δ)) (m : Machine (Tables δ)) (vfsFd : BitVec 32) (count : Nat) :
    Untouched m ((withVfs env).vfsRead vfsFd count m).2.2 := by
  simp only [withVfs]
  cases toFd vfsFd with
  | none => exact ⟨rfl, rfl⟩
  | some fd => exact ⟨rfl, (Tables.read_touches count).occupied_eq⟩

theorem vfsWrite_untouched (env : Services (Tables δ)) (m : Machine (Tables δ)) (vfsFd : BitVec 32) (bytes : List UInt8) :
    Untouched m ((withVfs env).vfsWrite vfsFd bytes m).2 := by
  simp only [withVfs]
  cases toFd vfsFd with
  | none => exact ⟨rfl, rfl⟩
  | some fd => exact ⟨rfl, (Tables.write_touches bytes).occupied_eq⟩

theorem openFile_effect {ptr len flags : BitVec 64}
    (result : m.openFile (withVfs env) ptr len flags = .ret value m') : FdEffect m m' := by
  unfold openFile at result
  by_cases short : PathLen len
  · rcases opened : (withVfs env).vfsOpen (m.readBytes ptr len.toNat) flags m with ⟨vfsFd, after⟩
    simp only [short, if_true, opened] at result
    obtain ⟨negative, untouched⟩ | ⟨nonneg, fd, rfl, facts⟩ := vfsOpen_spec opened
    · rw [if_pos negative] at result
      cases result
      exact untouched.effect
    · rw [if_neg nonneg] at result
      cases idle : after.freeFd with
      | none =>
        rw [idle] at result
        cases result
        exact (facts.vfsClose env ⟨rfl, rfl⟩).effect
      | some slot =>
        rw [idle] at result
        cases result
        have fds := inUse_of_kernel facts.kernel
        refine .opened slot fd (fds ▸ freeFd_eq_some idle) facts.free facts.files ?_
        funext i
        rw [setFd_inUse, Function.update_apply, fds]
  · rw [if_neg short] at result
    cases result
    exact .same rfl rfl

/-- A call on a descriptor's entry that ends on a machine the VFS has left untouched. -/
theorem Untouched.advanced (untouched : Untouched m m') {slot : Fin maxFds} {entry : FdEntry}
    (used : m.inUse slot = true) (stays : entry.inUse = true) :
    FdEffect m (m'.setFd slot entry) := by
  have fds := inUse_of_kernel untouched.kernel
  exact .same untouched.files ((setFd_inUse_eq (fds ▸ used) stays).trans fds)

/-- Where a call on a descriptor goes: into its action, with the entry in use. -/
theorem withFd_effect {idx : BitVec 64} {act : Fin maxFds → FdEntry → Reply (Tables δ)}
    (acts : ∀ slot, m.inUse slot = true →
      act slot (m.kernel.currentTask.fds.get slot) = .ret value m' → FdEffect m m')
    (result : m.withFd idx act = .ret value m') : FdEffect m m' := by
  unfold withFd at result
  cases found : m.fd idx with
  | none =>
    rw [found] at result
    cases result
    exact .same rfl rfl
  | some pair =>
    obtain ⟨slot, entry⟩ := pair
    obtain ⟨used, rfl⟩ := fd_inUse found
    rw [found] at result
    exact acts slot used result

theorem readFile_effect {idx buf count : BitVec 64}
    (result : m.readFile (withVfs env) idx buf count = .ret value m') : FdEffect m m' := by
  refine withFd_effect (fun slot used result => ?_) result
  generalize m.kernel.currentTask.fds.get slot = entry at result
  generalize min count.toNat (entry.size.toNat - entry.offset.toNat) = toRead at result
  rcases opened : (withVfs env).vfsOpen (fdName entry) 0#64 m with ⟨vfsFd, after⟩
  generalize place : (withVfs env).vfsLseek vfsFd (entry.offset.setWidth 64) after = placed
  have sought : Untouched after placed := place ▸ vfsLseek_untouched vfsFd _
  rcases got : (withVfs env).vfsRead vfsFd (min toRead 4096) placed with ⟨n, bytes, later⟩
  have reads : Untouched placed later := by
    have untouched := vfsRead_untouched env placed vfsFd (min toRead 4096)
    rwa [got] at untouched
  have spec := vfsOpen_spec opened
  have close := fun fd (facts : OpenedBy m after fd) => facts.vfsClose env (sought.trans reads)
  generalize withVfs env = services at result opened place got close
  simp only [opened, place, got] at result
  obtain ⟨negative, untouched⟩ | ⟨nonneg, fd, rfl, facts⟩ := spec
  · simp only [negative, if_true] at result
    split_ifs at result <;> cases result
    · exact .same rfl rfl
    · exact untouched.effect
    · exact .same rfl rfl
  · have closed := close fd facts
    simp only [nonneg, if_false] at result
    split_ifs at result with nothing mapped empty failed large
    · cases result
      exact .same rfl rfl
    · cases result
      exact closed.effect
    · cases result
      exact closed.effect
    · split at result
      · cases result
      · rename_i moved advanced
        cases result
        refine (closed.writeBytes _ _).advanced used ?_
        rw [advance_inUse advanced]
        exact (congrFun (inUse_of_kernel closed.kernel) slot).trans used
    · cases result
      exact .same rfl rfl

theorem writeFile_effect {idx buf count : BitVec 64}
    (result : m.writeFile (withVfs env) idx buf count = .ret value m') : FdEffect m m' := by
  refine withFd_effect (fun slot used result => ?_) result
  generalize m.kernel.currentTask.fds.get slot = entry at result
  generalize m.readBytes buf (min count.toNat 4096) = bytes at result
  rcases opened : (withVfs env).vfsOpen (fdName entry) entry.flags m with ⟨vfsFd, after⟩
  generalize place : (withVfs env).vfsLseek vfsFd (entry.offset.setWidth 64) after = placed
  have sought : Untouched after placed := place ▸ vfsLseek_untouched vfsFd _
  rcases put : (withVfs env).vfsWrite vfsFd bytes placed with ⟨n, later⟩
  have writes : Untouched placed later := by
    have untouched := vfsWrite_untouched env placed vfsFd bytes
    rwa [put] at untouched
  have spec := vfsOpen_spec opened
  have close := fun fd (facts : OpenedBy m after fd) => facts.vfsClose env (sought.trans writes)
  generalize withVfs env = services at result opened place put close
  simp only [opened, place, put] at result
  obtain ⟨negative, untouched⟩ | ⟨nonneg, fd, rfl, facts⟩ := spec
  · simp only [negative, if_true] at result
    split_ifs at result <;> cases result
    · exact .same rfl rfl
    · exact untouched.effect
    · exact .same rfl rfl
  · have closed := close fd facts
    simp only [nonneg, if_false] at result
    split_ifs at result with readOnly mapped failed
    · cases result
      exact .same rfl rfl
    · cases result
      exact closed.effect
    · split at result
      · cases result
      · rename_i moved advanced
        cases result
        refine closed.advanced used ?_
        change moved.inUse = true
        rw [advance_inUse advanced]
        exact (congrFun (inUse_of_kernel closed.kernel) slot).trans used
    · cases result
      exact .same rfl rfl

theorem closeFd_effect {idx : BitVec 64} (result : m.closeFd idx = .ret value m') :
    m' = m ∧ m.fd idx = none ∨ ∃ slot entry, m.fd idx = some (slot, entry) ∧
      m'.rest = m.rest ∧ m'.inUse = Function.update m.inUse slot false := by
  unfold closeFd withFd at result
  cases found : m.fd idx with
  | none =>
    rw [found] at result
    cases result
    exact .inl ⟨rfl, rfl⟩
  | some pair =>
    obtain ⟨slot, entry⟩ := pair
    rw [found] at result
    cases result
    refine .inr ⟨slot, entry, rfl, rfl, funext fun i => ?_⟩
    rw [setFd_inUse, Function.update_apply]
    rfl

end Machine

/-- The machine, with the entry of `OPEN_FILES` that was made for each descriptor
opened since the start. -/
structure Session (δ : Type) where
  machine : Machine (Tables δ)
  lease : Fin maxFds → Option Fd

namespace Session

variable (env : Services (Tables δ))

/-- The entry that one call has made. -/
def newEntry (before after : Tables δ) : Option Fd :=
  (List.finRange maxOpenFiles).find? fun fd => !before.occupied fd && after.occupied fd

/-- The record behind a call: a descriptor that comes into use stands for the entry
the call has made, one that goes out of use for nothing. -/
def behind (s : Session δ) (m' : Machine (Tables δ)) : Session δ where
  machine := m'
  lease i :=
    if m'.inUse i then
      if s.machine.inUse i then s.lease i else newEntry s.machine.rest m'.rest
    else none

/-- A call that returns. -/
def Step (s : Session δ) (call : FdCall) (s' : Session δ) : Prop :=
  ∃ value m', s.machine.fdCall env call = .ret value m' ∧ s' = s.behind m'

/-- The view of the two tables as leases. -/
def leases (s : Session δ) : Leases (Fin maxFds) Fd := ⟨s.machine.rest.occupied, s.lease⟩

/-- The entries in use are those from the start and those of the descriptors opened
since that are still open. -/
def Balanced (start : Tables δ) (s : Session δ) : Prop := s.leases.Accounted start.occupied

/-- `SYS_CLOSE` is for descriptors from before the start. -/
def ClosesNoneOfItsOwn (s : Session δ) : FdCall → Prop
  | .closeFd idx => ∀ slot entry, s.machine.fd idx = some (slot, entry) → s.lease slot = none
  | _ => True

structure Inv (start : Tables δ) (s : Session δ) : Prop where
  sound : s.leases.Sound start.occupied
  inUse : ∀ {i fd}, s.lease i = some fd → s.machine.inUse i = true

/-- Nothing has been opened yet. -/
def ofMachine (m : Machine (Tables δ)) : Session δ := ⟨m, fun _ => none⟩

theorem inv_ofMachine (m : Machine (Tables δ)) : (ofMachine m).Inv m.rest :=
  ⟨Leases.sound_start (s := (ofMachine m).leases) fun _ => rfl, nofun⟩

variable {env} {start : Tables δ} {s : Session δ} {m' : Machine (Tables δ)} {value : BitVec 64}

theorem newEntry_of_update {before after : Tables δ} {fd : Fd} (free : before.occupied fd = false)
    (files : after.occupied = Function.update before.occupied fd true) :
    newEntry before after = some fd := by
  have only (other : Fd) : (!before.occupied other && after.occupied other) = decide (other = fd) := by
    rw [files]
    by_cases here : other = fd
    · subst here
      rw [free, Function.update_self, decide_eq_true rfl]
      rfl
    · rw [Function.update_of_ne here, decide_eq_false here]
      cases before.occupied other <;> rfl
  rw [newEntry]
  simp only [only]
  have known : ∀ fd : Fd, (List.finRange maxOpenFiles).find? (fun other => decide (other = fd)) = some fd := by
    decide +kernel
  exact known fd

theorem leases_same (inv : s.Inv start) (files : m'.rest.occupied = s.machine.rest.occupied)
    (fds : m'.inUse = s.machine.inUse) : (s.behind m').leases = s.leases := by
  rw [leases, leases, Leases.mk.injEq]
  refine ⟨files, funext fun i => ?_⟩
  simp only [behind, fds]
  cases used : s.machine.inUse i with
  | true => rfl
  | false =>
    cases leased : s.lease i with
    | none => rfl
    | some fd => cases (inv.inUse leased).symm.trans used

theorem lease_of_idle (inv : s.Inv start) {i : Fin maxFds} (idle : s.machine.inUse i = false) :
    s.lease i = none := by
  cases leased : s.lease i with
  | none => rfl
  | some fd => cases (inv.inUse leased).symm.trans idle

theorem leases_opened (inv : s.Inv start) {slot : Fin maxFds} {fd : Fd}
    (idle : s.machine.inUse slot = false) (free : s.machine.rest.occupied fd = false)
    (files : m'.rest.occupied = Function.update s.machine.rest.occupied fd true)
    (fds : m'.inUse = Function.update s.machine.inUse slot true) :
    (s.behind m').leases = s.leases.grant slot fd := by
  rw [Leases.grant, leases, Leases.mk.injEq]
  refine ⟨files, funext fun i => ?_⟩
  simp only [behind, fds, leases]
  by_cases here : i = slot
  · subst here
    simp [idle, newEntry_of_update free files]
  · rw [Function.update_of_ne here, Function.update_of_ne here]
    cases used : s.machine.inUse i with
    | true => rfl
    | false => exact (lease_of_idle inv used).symm

theorem leases_closed (inv : s.Inv start) {slot : Fin maxFds}
    (files : m'.rest.occupied = s.machine.rest.occupied)
    (fds : m'.inUse = Function.update s.machine.inUse slot false) :
    (s.behind m').leases = s.leases.forget slot := by
  rw [Leases.forget, leases, Leases.mk.injEq]
  refine ⟨files, funext fun i => ?_⟩
  simp only [behind, fds, leases]
  by_cases here : i = slot
  · subst here
    simp
  · rw [Function.update_of_ne here, Function.update_of_ne here]
    cases used : s.machine.inUse i with
    | true => rfl
    | false => exact (lease_of_idle inv used).symm

theorem behind_inUse {i : Fin maxFds} {fd : Fd} (leased : (s.behind m').lease i = some fd) :
    (s.behind m').machine.inUse i = true := by
  simp only [behind] at leased ⊢
  split_ifs at leased with used stays
  · exact used
  · exact used

theorem Inv.effect (inv : s.Inv start) (effect : Machine.FdEffect s.machine m') :
    (s.behind m').Inv start := by
  refine ⟨?_, behind_inUse⟩
  cases effect with
  | same files fds =>
    rw [leases_same inv files fds]
    exact inv.sound
  | opened slot fd idle free files fds =>
    rw [leases_opened inv idle free files fds]
    exact inv.sound.grant free (lease_of_idle inv idle)

/-- `SYS_CLOSE` forgets the descriptor's lease. -/
theorem Inv.closeFd (inv : s.Inv start) {idx : BitVec 64}
    (result : s.machine.closeFd idx = .ret value m') :
    s.machine.fd idx = none ∧ (s.behind m').leases = s.leases ∨
      ∃ slot entry, s.machine.fd idx = some (slot, entry) ∧
        (s.behind m').leases = s.leases.forget slot := by
  obtain ⟨rfl, none'⟩ | ⟨slot, entry, found, rest, fds⟩ := Machine.closeFd_effect result
  · exact .inl ⟨none', leases_same inv rfl rfl⟩
  · exact .inr ⟨slot, entry, found, leases_closed inv (by rw [rest]) fds⟩

/-- A call that closes no descriptor of the session keeps the invariant. -/
theorem Inv.behind (inv : s.Inv start) {call : FdCall} (keeps : s.ClosesNoneOfItsOwn call)
    (result : s.machine.fdCall env call = .ret value m') : (s.behind m').Inv start := by
  cases call with
  | openFile ptr len flags => exact inv.effect (Machine.openFile_effect result)
  | readFile idx buf count => exact inv.effect (Machine.readFile_effect result)
  | writeFile idx buf count => exact inv.effect (Machine.writeFile_effect result)
  | compute memory =>
    cases result
    exact inv.effect (.same rfl rfl)
  | closeFd idx =>
    refine ⟨?_, behind_inUse⟩
    obtain ⟨-, same⟩ | ⟨slot, entry, found, forgotten⟩ := inv.closeFd result
    · rw [same]
      exact inv.sound
    · rw [forgotten, Leases.forget_idle (keeps slot entry found)]
      exact inv.sound

/-- To close a descriptor of the session leaves its entry behind. -/
theorem Inv.not_balanced_behind (inv : s.Inv start) {call : FdCall}
    (closes : ¬ s.ClosesNoneOfItsOwn call)
    (result : s.machine.fdCall env call = .ret value m') : ¬ (s.behind m').Balanced start := by
  cases call with
  | closeFd idx =>
    rw [ClosesNoneOfItsOwn] at closes
    push Not at closes
    obtain ⟨slot, entry, found, leased⟩ := closes
    obtain ⟨fd, lease⟩ := Option.ne_none_iff_exists'.mp leased
    obtain ⟨none', -⟩ | ⟨slot', entry', found', forgotten⟩ := inv.closeFd result
    · rw [none'] at found
      cases found
    · cases found.symm.trans found'
      rw [Balanced, forgotten]
      exact inv.sound.not_accounted_forget lease
  | openFile | readFile | writeFile | compute => exact absurd trivial closes

/-- The files open in the VFS are accounted for exactly as long as no descriptor
opened in the sequence is closed. -/
theorem balanced_throughout_iff {m : Machine (Tables δ)}
    {taken : List (Transition (Session δ) FdCall)} {final : Session δ}
    (trace : Trace (Step env) (ofMachine m) taken final) :
    Throughout (Balanced m.rest) (ofMachine m) taken ↔ Guarded ClosesNoneOfItsOwn taken := by
  refine trace.throughout_iff_guarded (Inv m.rest) (inv_ofMachine m)
    (fun _ inv => inv.sound.accounted) ?_ ?_
  · rintro before call _ inv keeps ⟨value, m', result, rfl⟩
    exact inv.behind keeps result
  · rintro before call _ inv closes ⟨value, m', result, rfl⟩
    exact inv.not_balanced_behind closes result

section Samples

/-- One running task over an empty RAM file system, with `/tmp/a` in its memory. -/
def oneTaskOnTmpfs : Machine (Tables Tmpfs) where
  kernel := oneTask.kernel
  user := fun addr => (ascii ['/', 't', 'm', 'p', '/', 'a']).getD addr.toNat 0
  currentUid := 0
  users := []
  mmioRegions := []
  framebuffer := oneTask.framebuffer
  rest :=
    { drivers := [tmpOps]
      mounts := [tmpMount 0]
      openFiles := fun _ => none
      perms := .empty
      disk := .empty (some fun _ => 0) }

/-- The call's effect on a session; `none` where it does not return. -/
def next (s : Session Tmpfs) (call : FdCall) : Option (Session Tmpfs) :=
  match s.machine.fdCall noServices call with
  | .ret _ m' => some (s.behind m')
  | .yield _ _ | .panic => none

theorem step_of_next {s s' : Session Tmpfs} {call : FdCall} (result : s.next call = some s') :
    s.Step noServices call s' := by
  rw [next] at result
  split at result
  · rename_i value m' returned
    cases result
    exact ⟨value, m', returned, rfl⟩
  · cases result
  · cases result

def run (calls : List FdCall) :
    Option (List (Transition (Session Tmpfs) FdCall) × Session Tmpfs) :=
  record next (ofMachine oneTaskOnTmpfs) calls

theorem trace_of_run {calls : List FdCall}
    {ran : List (Transition (Session Tmpfs) FdCall) × Session Tmpfs}
    (recorded : run calls = some ran) :
    Trace (Step noServices) (ofMachine oneTaskOnTmpfs) ran.1 ran.2 :=
  (trace_of_record recorded).mono step_of_next

theorem closesNoneOfItsOwn_iff (idx : BitVec 64) :
    (s.machine.fd idx).all (fun found => (s.lease found.1).isNone) = true ↔
      s.ClosesNoneOfItsOwn (.closeFd idx) := by
  rw [ClosesNoneOfItsOwn]
  cases s.machine.fd idx with
  | none => simp
  | some pair =>
    obtain ⟨slot, entry⟩ := pair
    simp

instance (s : Session δ) : (call : FdCall) → Decidable (s.ClosesNoneOfItsOwn call)
  | .closeFd idx =>
    decidable_of_iff ((s.machine.fd idx).all fun found => (s.lease found.1).isNone)
      (closesNoneOfItsOwn_iff idx)
  | .openFile _ _ _ | .readFile _ _ _ | .writeFile _ _ _ | .compute _ => instDecidableTrue

/-- A file is opened, written and read, and its descriptor stays open. -/
theorem balanced_while_open : ∃ taken final,
    Trace (Step noServices) (ofMachine oneTaskOnTmpfs) taken final ∧ taken.length = 4 ∧
      Throughout (Balanced oneTaskOnTmpfs.rest) (ofMachine oneTaskOnTmpfs) taken := by
  obtain ⟨⟨taken, final⟩, recorded, steps, guarded⟩ :
      ∃ ran ∈ run [.openFile 0 6 0x101, .writeFile 0 0 3, .readFile 0 0 2, .closeFd 5],
        ran.1.length = 4 ∧
        ∀ transition ∈ ran.1, transition.before.ClosesNoneOfItsOwn transition.label := by
    decide +kernel
  have trace := trace_of_run recorded
  exact ⟨taken, final, trace, steps, (balanced_throughout_iff trace).mpr guarded⟩

/-- A file is opened and closed again; its entry in `OPEN_FILES` stays. -/
theorem open_close_leaks :
    ¬ ∀ (env : Services (Tables Tmpfs)) (m : Machine (Tables Tmpfs)) taken final,
      Trace (Step env) (ofMachine m) taken final →
        (∀ i, final.lease i = none) → final.machine.rest.occupied = m.rest.occupied := by
  intro claim
  obtain ⟨⟨taken, final⟩, recorded, settled, occupied⟩ :
      ∃ ran ∈ run [.openFile 0 6 0x101, .closeFd 0],
        (∀ i, ran.2.lease i = none) ∧ ran.2.machine.rest.occupied 0 = true := by
    decide +kernel
  have same := claim noServices oneTaskOnTmpfs taken final (trace_of_run recorded) settled
  rw [same] at occupied
  cases occupied

end Samples

end Session

end DBSos.Syscall
