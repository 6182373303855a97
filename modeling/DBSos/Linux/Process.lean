import DBSos.Linux.Files

/-!
# Linux processes

`sys_fork` makes two copies of the parent's top-level table: its own, which the new
table entry names, and the one that `scheduler::fork` gives to the new task.
`spawn_file` and `sys_execve` load a program from a file; a new table entry keeps
whatever its creator does not write.
-/

namespace DBSos.Linux.World

open DBSos.Memory DBSos.Vfs DBSos.Vm

variable {δ ρ : Type} (env : Services δ ρ) (w : World δ ρ) (i : Linux.Slot)

/-- `PTE_NX`. -/
def pteNx : BitVec 64 := 0x8000000000000000#64

/-- The loops of `sys_brk` and `sys_mmap` over new zeroed pages: `false` when memory
runs out, `none` when an address overflows. -/
def mapFresh (pml4 : Nat) (flags : BitVec 64) : List Nat → PhysMem → Option (PhysMem × Bool)
  | [], p => some (p, true)
  | virt :: rest, p =>
    let (page, alloc) := p.alloc.palloc
    if page = 0 then some (⟨alloc, p.mem⟩, false)
    else if virt < 2 ^ 64 then
      mapFresh pml4 flags rest (mapPage ⟨alloc, zeroPage p.mem page⟩ pml4
        (BitVec.ofNat 64 page) (BitVec.ofNat 64 virt) flags).1
    else none

/-- `(size + 0xFFF) & !0xFFF`, unless it overflows. -/
def roundUp (size : BitVec 64) : Option (BitVec 64) :=
  if size.toNat + 0xFFF < 2 ^ 64 then some ((size + 0xFFF) &&& ~~~0xFFF) else none

/-- The addresses of `pages` pages. -/
def pagesFrom (start : BitVec 64) (pages : Nat) : List Nat :=
  (List.range pages).map fun k => start.toNat + k * pageSize

/-- `sys_brk`; `none` is a panic. -/
def sysBrk (newBrk : BitVec 64) : Option (BitVec 64 × World δ ρ) :=
  let t := w.tasks i
  if newBrk = 0 ∨ newBrk ≤ t.brk then some (t.brk, w)
  else
    (roundUp newBrk).bind fun aligned =>
      (mapFresh t.pml4Phys (pteWritable ||| pteUser)
        (pagesFrom t.brk ((aligned - t.brk).toNat / pageSize)) w.machine.kernel.phys).map
          fun (phys, _) => (aligned, (w.withPhys phys).modify i fun t => { t with brk := aligned })

/-- `sys_mmap`; `none` is a panic. -/
def sysMmap (addr length : BitVec 64) (prot : BitVec 32) : Option (BitVec 64 × World δ ρ) :=
  (roundUp length).bind fun size =>
    let base := (w.tasks i).mmapBase
    if addr = 0 ∧ base.toNat + size.toNat ≥ 2 ^ 64 then none
    else
      let virt := if addr = 0 then base else addr
      let w := if addr = 0 then w.modify i fun t => { t with mmapBase := base + size } else w
      let flags := pteWritable ||| pteUser ||| (if prot &&& 1 = 0 then pteNx else 0)
      (mapFresh (w.tasks i).pml4Phys flags (pagesFrom virt (size.toNat / pageSize))
        w.machine.kernel.phys).map fun (phys, mapped) =>
          (if mapped then virt else errno linuxENOMEM, w.withPhys phys)

/-- A call of the scheduler. -/
def onKernel {α : Type} (result : Kernel × α) : World δ ρ × α :=
  ({ w with machine := { w.machine with kernel := result.1 } }, result.2)

/-- What `sys_fork` writes into the child's entry. `self` is read where the source
reads it, in case the child's slot is its own. -/
def forkEntry (child : Linux.Slot) (pid pml4 : Nat) : World δ ρ :=
  let w := w.modify child fun t => { t with alive := true, pid := pid }
  let self := w.tasks i
  w.modify child fun t =>
    { t with
      ppid := self.pid
      pml4Phys := pml4
      entry := self.entry
      brk := self.brk
      mmapBase := self.mmapBase
      stackTop := self.stackTop
      stackSize := self.stackSize
      uid := self.uid
      gid := self.gid
      fds := self.fds
      cwd := self.cwd
      cwdLen := self.cwdLen
      signalHandlers := self.signalHandlers
      signalMask := self.signalMask
      signalPending := 0 }

/-- The first steps of `sys_fork`: a page, with a copy of the parent's top-level table. -/
def copyTable : Nat × World δ ρ :=
  let phys := w.machine.kernel.phys
  let (page, alloc) := phys.alloc.palloc
  (page, w.withPhys ⟨alloc, if page = 0 then phys.mem
    else Function.update phys.mem page (phys.mem (w.tasks i).pml4Phys)⟩)

/-- The end of `sys_fork`, behind `scheduler::fork`. -/
def finishFork (child : Linux.Slot) (pid pml4 : Nat) :
    World δ ρ × Option Nat → BitVec 64 × World δ ρ
  | (w, none) =>
    let phys := w.machine.kernel.phys
    (errno linuxENOMEM,
      (w.modify child fun t => { t with alive := false }).withPhys ⟨phys.alloc.pfree pml4, phys.mem⟩)
  | (w, some task) => (BitVec.ofNat 64 pid, w.modify child fun t => { t with dbsosTask := task })

/-- `sys_fork`. -/
def sysFork : BitVec 64 × World δ ρ :=
  match w.findSlot fun t => !t.alive with
  | none => (errno linuxENOMEM, w)
  | some child =>
    let (pml4, w) := w.copyTable i
    if pml4 = 0 then (errno linuxENOMEM, w)
    else
      let (pid, w) := w.nextTaskId
      let w := w.forkEntry i child pid pml4
      finishFork child pid pml4 (w.onKernel (w.machine.kernel.fork (w.tasks i).dbsosTask))

/-- What `spawn_file` and `sys_execve` have in common: read the file and load it. The
errors are those of `sys_execve`; `spawn_file` returns 0 for all of them. -/
def loadFile (path : Path) : Except Nat LinuxProgram × World δ ρ :=
  match w.onVfs (w.vfs.openFile w.machine.vfsUid path 0) with
  | (none, w) => (.error linuxENOENT, w)
  | (some fd, w) =>
    match w.vfs.stat path with
    | none => (.error linuxENOENT, w.vfsClose fd)
    | some st =>
      let fsize := st.size.toNat
      if st.isDir ∨ fsize < 64 ∨ fsize > 256 * 1024 then (.error linuxENOEXEC, w.vfsClose fd)
      else
        match env.kmalloc fsize w.rest with
        | (false, rest) => (.error linuxENOMEM, { w with rest }.vfsClose fd)
        | (true, rest) =>
          let w := { w with rest }
          let (bytes, w) := w.onVfs (w.vfs.read fd fsize)
          let w := w.vfsClose fd
          let data := bytes.getD []
          if data.length < 64 ∨ data.take 4 ≠ [0x7F, 0x45, 0x4C, 0x46] then
            (.error linuxENOEXEC, { w with rest := env.kfree w.rest })
          else
            let (program, phys, rest) :=
              env.loadLinuxElf data w.machine.kernel.phys w.rest
            (program.elim (.error linuxENOEXEC) .ok,
              { w.withPhys phys with rest := env.kfree rest })

/-- The path that `sys_execve` reads: at most 128 bytes, which need not end in zero. -/
def execPath (ptr : BitVec 64) : Path :=
  (w.machine.readBytes ptr 128).takeWhile fun byte => byte ≠ 0

/-- Step 7 of `sys_execve`: the scheduler's task gets the new table. -/
def adoptTable (task pml4 : Nat) : World δ ρ :=
  match w.machine.kernel.findTask task with
  | none => w
  | some slot =>
    (w.onKernel (w.machine.kernel.modifyTask slot
      fun t => { t with pml4 := pml4, pml4Phys := pml4 }, ())).1

/-- `sys_execve`. -/
def sysExecve (pathPtr : BitVec 64) : BitVec 64 × World δ ρ :=
  let path := w.execPath pathPtr
  if path = [] then (errno linuxENOENT, w)
  else
    match w.loadFile env path with
    | (.error code, w) => (errno code, w)
    | (.ok program, w) =>
      let w := w.modify i fun t =>
        { t with
          entry := program.entry
          pml4Phys := program.pml4
          brk := program.brk
          mmapBase := program.mmapBase
          stackTop := program.stackTop
          stackSize := program.stackSize
          signalHandlers := fun _ => .empty
          signalPending := 0
          signalMask := 0
          inSignalHandler := false }
      let w := w.adoptTable (w.tasks i).dbsosTask program.pml4
      (0, { w with rest := env.requestExecRedirect program w.rest })

/-- `if phys != 0 { pfree(phys) }`. -/
def freePage (phys : Nat) : World δ ρ := w.withPhys (Kernel.freePage w.machine.kernel.phys phys)

/-- `palloc`. -/
def palloc : Nat × World δ ρ :=
  let phys := w.machine.kernel.phys
  (phys.alloc.palloc.1, w.withPhys ⟨phys.alloc.palloc.2, phys.mem⟩)

/-- The metadata that `spawn_file` writes into the entry of `create_task`. -/
def spawnEntry (lt : Linux.Slot) (program : LinuxProgram) (task : Nat) : World δ ρ :=
  w.modify lt fun t =>
    { t with
      entry := program.entry
      pml4Phys := program.pml4
      brk := program.brk
      mmapBase := program.mmapBase
      stackTop := program.stackTop
      stackSize := program.stackSize
      dbsosTask := task }

/-- `spawn_file` up to `create_task`: the program and the scheduler's task. -/
def launch (path : Path) : Option (LinuxProgram × Nat) × World δ ρ :=
  if path = [] ∨ path.length > 127 then (none, w)
  else
    match w.loadFile env path with
    | (.error _, w) => (none, w)
    | (.ok program, w) =>
      let (gdt, w) := w.palloc
      let (tss, w) := w.palloc
      if gdt = 0 ∨ tss = 0 then (none, (w.freePage gdt).freePage tss)
      else
        let w := { w with rest := env.setupUserGdtTss gdt tss w.rest }
        match w.onKernel (w.machine.kernel.spawnUser
            ⟨program.pml4, gdt, tss, program.codePhys, program.stackPhys⟩) with
        | (w, none) => (none, (w.freePage gdt).freePage tss)
        | (w, some tid) => (some (program, tid), w)

/-- `spawn_file`: the new pid, or 0. -/
def spawnFile (path : Path) : Nat × World δ ρ :=
  match w.launch env path with
  | (none, w) => (0, w)
  | (some (program, tid), w) =>
    match w.createTask with
    | (none, w) => (0, w)
    | (some lt, w) => ((w.tasks lt).pid, w.spawnEntry lt program tid)

end DBSos.Linux.World
