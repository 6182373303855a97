import DBSos.Linux.Signals
import DBSos.Scheduler.Records

/-!
# Entries and the scheduler's records

An entry of the table names a record of the scheduler and repeats its top-level table.
`sys_fork` gives the two of a child different copies of the parent's table.
`spawn_file` takes an entry over as its last tenant left it.
-/

namespace DBSos

open DBSos.Lib DBSos.Memory DBSos.Scheduler

namespace Linux

/-- An entry that has of its signals, descriptors and ids only what its creator gives. -/
structure Inherits (creator t : LinuxTask) : Prop where
  fds : ∀ idx, (t.fds idx).inUse = true → t.fds idx = creator.fds idx
  pending : t.signalPending = 0
  handlers : t.signalHandlers = creator.signalHandlers
  mask : t.signalMask = creator.signalMask
  uid : t.uid = creator.uid
  gid : t.gid = creator.gid

namespace World

variable {δ ρ : Type} {env : Services δ ρ} {w w' : World δ ρ} {i j : Linux.Slot}

/-- Every living entry has the top-level table of the record that it names. -/
def Bound (w : World δ ρ) : Prop :=
  ∀ i, (w.tasks i).alive = true → ∃ slot, w.machine.kernel.findTask (w.tasks i).dbsosTask = some slot ∧
    (w.machine.kernel.tasks slot).pml4Phys = (w.tasks i).pml4Phys

/-- What every step keeps: besides, no record is named twice. -/
structure Sound (w : World δ ρ) : Prop where
  ids : w.machine.kernel.IdsBelow
  bound : w.Bound
  apart : ∀ i j, (w.tasks i).alive = true → (w.tasks j).alive = true →
    (w.tasks i).dbsosTask = (w.tasks j).dbsosTask → i = j

/-- The id that a living entry names has been given out. -/
theorem Sound.known (sound : w.Sound) (alive : (w.tasks i).alive = true) :
    (w.tasks i).dbsosTask < w.machine.kernel.nextId := by
  obtain ⟨slot, found, -⟩ := sound.bound i alive
  obtain ⟨used, same⟩ := Kernel.findTask_some found
  rw [← same]
  exact sound.ids slot used

/-- Entries that stay alive keep what they name. -/
def Fewer (w w' : World δ ρ) : Prop :=
  ∀ i, (w'.tasks i).alive = true → (w.tasks i).alive = true ∧
    (w'.tasks i).pml4Phys = (w.tasks i).pml4Phys ∧ (w'.tasks i).dbsosTask = (w.tasks i).dbsosTask

theorem Fewer.of_tasks (tasks : w'.tasks = w.tasks) : w.Fewer w' := fun i alive => by
  rw [tasks] at alive ⊢
  exact ⟨alive, rfl, rfl⟩

theorem Sound.fewer (sound : w.Sound) (alike : w.machine.kernel.Alike w'.machine.kernel)
    (fewer : w.Fewer w') : w'.Sound where
  ids := alike.idsBelow sound.ids
  bound i alive := by
    obtain ⟨before, pml4, task⟩ := fewer i alive
    obtain ⟨slot, found, same⟩ := sound.bound i before
    exact ⟨slot, by rw [alike.findTask, task, found], by rw [(alike.2 slot).2.1, pml4, same]⟩
  apart i j aliveI aliveJ same := by
    obtain ⟨beforeI, -, taskI⟩ := fewer i aliveI
    obtain ⟨beforeJ, -, taskJ⟩ := fewer j aliveJ
    exact sound.apart i j beforeI beforeJ (by rw [← taskI, ← taskJ, same])

/-- Nothing changes but memory, files and what is beneath the personality. -/
structure Quiet (w w' : World δ ρ) : Prop where
  entries : w'.tasks = w.tasks
  records : w'.machine.kernel.tasks = w.machine.kernel.tasks
  nextId : w'.machine.kernel.nextId = w.machine.kernel.nextId

theorem Quiet.trans {w'' : World δ ρ} (first : w.Quiet w') (second : w'.Quiet w'') :
    w.Quiet w'' where
  entries := second.entries.trans first.entries
  records := second.records.trans first.records
  nextId := second.nextId.trans first.nextId

theorem Quiet.alike (quiet : w.Quiet w') : w.machine.kernel.Alike w'.machine.kernel :=
  .of_tasks quiet.nextId.ge quiet.records

theorem onVfs_quiet {α : Type} (result : α × Vfs.Tables δ) : w.Quiet (w.onVfs result).2 :=
  ⟨rfl, rfl, rfl⟩

theorem loadFile_quiet (path : Vfs.Path) : w.Quiet (w.loadFile env path).2 := by
  unfold loadFile
  have opened := onVfs_quiet (w := w) (w.vfs.openFile w.machine.vfsUid path 0)
  rcases result : w.onVfs (w.vfs.openFile w.machine.vfsUid path 0) with ⟨fd, w1⟩
  rw [result] at opened
  refine opened.trans ?_
  cases fd with
  | none => exact ⟨rfl, rfl, rfl⟩
  | some fd =>
    dsimp only
    split
    · exact ⟨rfl, rfl, rfl⟩
    · split_ifs
      · exact ⟨rfl, rfl, rfl⟩
      · split
        · exact ⟨rfl, rfl, rfl⟩
        · split_ifs <;> exact ⟨rfl, rfl, rfl⟩

/-- What has happened when `spawn_file` comes to `create_task`. -/
inductive Launched (w : World δ ρ) : Option (LinuxProgram × Nat) × World δ ρ → Prop where
  | failed {w' : World δ ρ} (quiet : w.Quiet w') : Launched w (none, w')
  | started {w' : World δ ρ} (program : LinuxProgram) (slot : Scheduler.Slot) (t : Task)
      (entries : w'.tasks = w.tasks) (born : Kernel.Born w.machine.kernel w'.machine.kernel slot t)
      (table : t.pml4Phys = program.pml4) :
      Launched w (some (program, w.machine.kernel.nextId), w')

theorem launch_launched (path : Vfs.Path) : w.Launched (w.launch env path) := by
  unfold launch
  split_ifs with refused
  · exact .failed ⟨rfl, rfl, rfl⟩
  · have loaded := @loadFile_quiet δ ρ env w path
    rcases load : w.loadFile env path with ⟨result, w1⟩
    rw [load] at loaded
    cases result with
    | error code => exact .failed loaded
    | ok program =>
      dsimp only at loaded ⊢
      split_ifs with noPages
      · exact .failed (loaded.trans ⟨rfl, rfl, rfl⟩)
      · have ready : w.Quiet w1.palloc.2.palloc.2 := loaded.trans ⟨rfl, rfl, rfl⟩
        generalize w1.palloc.2.palloc.2 = w2 at ready ⊢
        have creates := w2.machine.kernel.spawnUser_creates
          ⟨program.pml4, w1.palloc.1, w1.palloc.2.palloc.1, program.codePhys, program.stackPhys⟩
        have table := fun slot tid => @Kernel.spawnUser_table w2.machine.kernel slot
          ⟨program.pml4, w1.palloc.1, w1.palloc.2.palloc.1, program.codePhys, program.stackPhys⟩
          tid
        rcases spawned : w2.machine.kernel.spawnUser
          ⟨program.pml4, w1.palloc.1, w1.palloc.2.palloc.1, program.codePhys, program.stackPhys⟩
          with ⟨kernel, tid⟩
        rw [spawned] at creates
        simp only [spawned] at table
        cases tid with
        | none =>
          obtain ⟨phys, same⟩ | ⟨slot, t, phys, -, -, other⟩ := creates
          · obtain rfl := congrArg Prod.fst same
            exact .failed (ready.trans ⟨rfl, rfl, rfl⟩)
          · cases congrArg Prod.snd other
        | some tid =>
          obtain ⟨slot, t, free, rfl, born⟩ := creates.born rfl
          have isTable := table slot _ rfl free
          rw [born.task] at isTable
          dsimp only [onKernel]
          rw [ready.nextId]
          refine .started program slot t ready.entries ⟨?_, born.ready, ?_, ?_, ?_⟩ isTable
          · rw [← ready.records]
            exact born.free
          · rw [← ready.nextId]
            exact born.fresh
          · rw [← ready.records]
            exact born.tasks
          · rw [← ready.nextId]
            exact born.nextId

/-- The kernel in which `sys_fork` calls `scheduler::fork`. -/
def forkKernel (w : World δ ρ) (i : Linux.Slot) : Kernel :=
  (w.copyTable i).2.machine.kernel.takeId

/-- `sys_fork` succeeds: an entry is free, there is a page for the copy, and the scheduler
can fork. -/
structure ForkWorks (w : World δ ρ) (i : Linux.Slot) : Prop where
  entry : (w.findSlot fun t => !t.alive).isSome
  page : (w.copyTable i).1 ≠ 0
  scheduler : (w.forkKernel i).CanFork (w.tasks i).dbsosTask

/-- What `sys_fork` has written when it calls the scheduler. -/
def forking (w : World δ ρ) (i child : Linux.Slot) : World δ ρ :=
  (w.copyTable i).2.nextTaskId.2.forkEntry i child w.machine.kernel.nextId (w.copyTable i).1

theorem sysFork_eq {child : Linux.Slot} (found : w.findSlot (fun t => !t.alive) = some child)
    (page : (w.copyTable i).1 ≠ 0) :
    w.sysFork i = finishFork child w.machine.kernel.nextId (w.copyTable i).1
      ((w.forking i child).onKernel
        ((w.forkKernel i).fork ((w.forking i child).tasks i).dbsosTask)) := by
  simp only [sysFork, found, if_neg page]
  rfl

theorem forking_other {child : Linux.Slot} (apart : j ≠ child) :
    (w.forking i child).tasks j = w.tasks j := by
  simp only [forking, forkEntry, modify_other apart]
  rfl

section Fork

variable {child : Linux.Slot} (alive : (w.tasks i).alive = true)
  (found : w.findSlot (fun t => !t.alive) = some child)
include alive found

/-- The child's entry is not the parent's. -/
theorem child_ne : child ≠ i := by
  rintro rfl
  have dead := findSlot_some found
  simp [alive] at dead

/-- The entry of the child before it is bound to a record. -/
theorem forking_child : (w.forking i child).tasks child =
    { w.tasks child with
      alive := true
      pid := w.machine.kernel.nextId
      ppid := (w.tasks i).pid
      pml4Phys := (w.copyTable i).1
      entry := (w.tasks i).entry
      brk := (w.tasks i).brk
      mmapBase := (w.tasks i).mmapBase
      stackTop := (w.tasks i).stackTop
      stackSize := (w.tasks i).stackSize
      uid := (w.tasks i).uid
      gid := (w.tasks i).gid
      fds := (w.tasks i).fds
      cwd := (w.tasks i).cwd
      cwdLen := (w.tasks i).cwdLen
      signalHandlers := (w.tasks i).signalHandlers
      signalMask := (w.tasks i).signalMask
      signalPending := 0 } := by
  have apart := child_ne alive found
  simp only [forking, forkEntry, modify_same, modify_other apart.symm]
  rfl

/-- A fork that fails leaves the living entries and the records. -/
theorem sysFork_failed (fails : ¬ w.ForkWorks i) :
    w.Fewer (w.sysFork i).2 ∧ w.machine.kernel.Alike (w.sysFork i).2.machine.kernel := by
  by_cases page : (w.copyTable i).1 = 0
  · have same : w.sysFork i = (errno linuxENOMEM, (w.copyTable i).2) := by
      simp only [sysFork, found, if_pos page]
    rw [same]
    exact ⟨.of_tasks rfl, .of_tasks le_rfl rfl⟩
  · rw [sysFork_eq found page, forking_other (child_ne alive found).symm]
    have refused : ((w.forkKernel i).fork (w.tasks i).dbsosTask).2 = none := by
      rw [← Option.not_isSome_iff_eq_none, Kernel.fork_isSome]
      exact fun can => fails ⟨by rw [found]; rfl, page, can⟩
    have creates := (w.forkKernel i).fork_creates (w.tasks i).dbsosTask
    obtain ⟨phys, same⟩ | ⟨slot, t, phys, -, -, same⟩ := creates
    · rw [same]
      refine ⟨fun j living => ?_, .of_tasks (Nat.le_succ _) rfl⟩
      by_cases here : j = child
      · subst here
        simp [onKernel, finishFork, withPhys] at living
      · have kept : (finishFork child w.machine.kernel.nextId (w.copyTable i).1
            ((w.forking i child).onKernel ({ w.forkKernel i with phys := phys }, none))).2.tasks j =
            w.tasks j := by
          simp only [onKernel, finishFork, withPhys]
          rw [modify_other here]
          exact forking_other here
        rw [kept] at living ⊢
        exact ⟨living, rfl, rfl⟩
    · rw [same] at refused
      cases refused

/-- A fork that succeeds binds the child's entry to a record with another table. -/
theorem sysFork_unbound (ids : w.machine.kernel.IdsBelow) (works : w.ForkWorks i) :
    ¬ (w.sysFork i).2.Bound := by
  have ids' : (w.forkKernel i).IdsBelow := fun slot used =>
    (ids slot used).trans (Nat.lt_succ_self _)
  rw [sysFork_eq found works.page, forking_other (child_ne alive found).symm]
  obtain ⟨tid, forked⟩ := Option.isSome_iff_exists.mp (Kernel.fork_isSome.mpr works.scheduler)
  obtain ⟨slot, t, free, rfl, born⟩ := Kernel.Creates.born
    ((w.forkKernel i).fork_creates (w.tasks i).dbsosTask) forked
  have table := Kernel.fork_table forked free
  rw [born.task] at table
  intro bound
  have shape : (w.forkKernel i).fork (w.tasks i).dbsosTask =
      (((w.forkKernel i).fork (w.tasks i).dbsosTask).1, some (w.forkKernel i).nextId) :=
    Prod.ext rfl forked
  rw [shape] at bound
  obtain ⟨other, names, same⟩ := bound child (by
    simp [onKernel, finishFork, forking_child alive found])
  simp only [onKernel, finishFork, modify_same, modify_machine] at names same
  rw [born.findTask_new ids'] at names
  obtain rfl := Option.some.inj names
  rw [born.task, table, forking_child alive found] at same
  -- The entry's copy was taken before the scheduler's, and not freed.
  have grows := (w.forkKernel i).allocKstack_grows
  rcases PhysAllocator.palloc_ne works.page grows with none | apart
  · exact works.scheduler.table none
  · exact apart same

end Fork

/-! ## Steps -/

theorem sysExit_quiet (status : BitVec 32) :
    (w.sysExit i status).machine.kernel = w.machine.kernel := by
  have loop (list : List FdIdx) (w : World δ ρ) :
      (list.foldl (fun w idx => w.exitFd i idx) w).machine.kernel = w.machine.kernel := by
    induction list generalizing w with
    | nil => rfl
    | cons idx rest ih =>
      rw [List.foldl_cons, ih]
      unfold exitFd
      dsimp only
      split_ifs <;> rfl
  exact loop _ _

theorem sysExit_fewer (status : BitVec 32) : w.Fewer (w.sysExit i status) := by
  intro j living
  rw [sysExit_tasks] at living ⊢
  by_cases here : j = i
  · subst here
    simp at living
  · rw [modify_other here] at living ⊢
    exact ⟨living, rfl, rfl⟩

theorem Fewer.trans {w'' : World δ ρ} (first : w.Fewer w') (second : w'.Fewer w'') :
    w.Fewer w'' := fun i living => by
  obtain ⟨before, pml4, task⟩ := second i living
  obtain ⟨start, pml4', task'⟩ := first i before
  exact ⟨start, pml4.trans pml4', task.trans task'⟩

theorem raiseAll_fewer (target : BitVec 32) (sig : Signal) : w.Fewer (w.raiseAll target sig) := by
  intro j living
  simp only [raiseAll] at living ⊢
  split_ifs at living ⊢ <;> exact ⟨living, rfl, rfl⟩

theorem sysKill_fewer (target sig : BitVec 32) :
    w.Fewer (w.sysKill i target sig).2 ∧
      (w.sysKill i target sig).2.machine.kernel = w.machine.kernel := by
  unfold sysKill
  split
  · exact ⟨.of_tasks rfl, rfl⟩
  · rename_i number valid
    have raised := raiseAll_fewer (w := w) target number
    dsimp only
    split_ifs
    · exact ⟨.of_tasks rfl, rfl⟩
    · dsimp only
      exact ⟨raised.trans (sysExit_fewer _), sysExit_quiet _⟩
    · exact ⟨raised, rfl⟩

theorem modify_fewer {change : LinuxTask → LinuxTask}
    (keeps : ∀ t, ((change t).alive = true → t.alive = true) ∧ (change t).pml4Phys = t.pml4Phys ∧
      (change t).dbsosTask = t.dbsosTask) : w.Fewer (w.modify i change) := by
  intro j living
  by_cases here : j = i
  · subst here
    rw [modify_same] at living ⊢
    exact ⟨(keeps _).1 living, (keeps _).2⟩
  · rw [modify_other here] at living ⊢
    exact ⟨living, rfl, rfl⟩

theorem sysTgkill_fewer (tid sig : BitVec 32) :
    w.Fewer (w.sysTgkill tid sig).2 ∧ (w.sysTgkill tid sig).2.machine.kernel = w.machine.kernel := by
  unfold sysTgkill
  split
  · exact ⟨.of_tasks rfl, rfl⟩
  · rename_i number valid
    split
    · exact ⟨.of_tasks rfl, rfl⟩
    · rename_i j found
      have raised : w.Fewer (w.modify j fun t => t.raise number) :=
        modify_fewer fun t => ⟨id, rfl, rfl⟩
      dsimp only
      split_ifs
      · exact ⟨raised.trans (modify_fewer fun t => ⟨fun living => Bool.noConfusion living, rfl, rfl⟩), rfl⟩
      · exact ⟨raised, rfl⟩

/-- An entry and the record it names get the same table. -/
theorem Sound.retabled (sound : w.Sound) (alive : (w.tasks i).alive = true)
    {slot : Scheduler.Slot} {pml4 : Nat}
    (found : w.machine.kernel.findTask (w.tasks i).dbsosTask = some slot)
    (kernel : w'.machine.kernel = w.machine.kernel.setTable slot pml4)
    (others : ∀ j, j ≠ i → w'.tasks j = w.tasks j)
    (names : (w'.tasks i).dbsosTask = (w.tasks i).dbsosTask)
    (table : (w'.tasks i).pml4Phys = pml4) : w'.Sound := by
  have unchanged (j : Linux.Slot) : (w'.tasks j).dbsosTask = (w.tasks j).dbsosTask := by
    by_cases here : j = i
    · rw [here, names]
    · rw [others j here]
  have lived (j : Linux.Slot) (living : (w'.tasks j).alive = true) : (w.tasks j).alive = true := by
    by_cases here : j = i
    · rw [here, alive]
    · rwa [others j here] at living
  refine ⟨?_, fun j living => ?_, fun j k livingJ livingK same => ?_⟩
  · rw [kernel]
    exact Kernel.idsBelow_setTable sound.ids _
  · rw [kernel, Kernel.findTask_setTable, unchanged]
    obtain ⟨other, foundOther, before⟩ := sound.bound j (lived j living)
    refine ⟨other, foundOther, ?_⟩
    rw [Kernel.setTable_tasks]
    by_cases here : j = i
    · subst here
      rw [if_pos (Option.some.inj (foundOther.symm.trans found)), table]
    · have apart : other ≠ slot := by
        rintro rfl
        refine here (sound.apart j i (lived j living) alive ?_)
        rw [← (Kernel.findTask_some foundOther).2, (Kernel.findTask_some found).2]
      rw [if_neg apart, others j here, before]
  · rw [unchanged, unchanged] at same
    exact sound.apart j k (lived j livingJ) (lived k livingK) same

/-- `sys_execve` replaces both. -/
theorem sysExecve_sound (sound : w.Sound) (alive : (w.tasks i).alive = true) (ptr : BitVec 64) :
    (w.sysExecve env i ptr).2.Sound ∧
      ∀ j, ((w.sysExecve env i ptr).2.tasks j).alive = (w.tasks j).alive := by
  unfold sysExecve
  dsimp only
  split_ifs with empty
  · exact ⟨sound, fun _ => rfl⟩
  · have loaded := @loadFile_quiet δ ρ env w (w.execPath ptr)
    rcases load : w.loadFile env (w.execPath ptr) with ⟨result, w1⟩
    rw [load] at loaded
    have sound1 : w1.Sound := sound.fewer loaded.alike (.of_tasks loaded.entries)
    have entries : w1.tasks = w.tasks := loaded.entries
    cases result with
    | error code => exact ⟨sound1, fun j => by rw [entries]⟩
    | ok program =>
      have alive1 : (w1.tasks i).alive = true := by rw [entries, alive]
      obtain ⟨slot, found, -⟩ := sound1.bound i alive1
      dsimp only
      rw [modify_same]
      simp only [adoptTable, modify_machine, found, onKernel]
      constructor
      · refine @Sound.retabled _ _ _ _ _ sound1 alive1 _ program.pml4 found rfl (fun j apart => ?_) ?_ ?_
        · dsimp only
          rw [modify_other apart]
        · dsimp only
          rw [modify_same]
        · dsimp only
          rw [modify_same]
      · intro j
        by_cases here : j = i
        · subst here
          rw [modify_same, entries]
        · rw [modify_other here, entries]

/-- What `spawn_file` does once the program runs: an entry that was free is bound to the
new record. -/
structure SpawnsInto (w w' : World δ ρ) (lt : Linux.Slot) : Prop where
  dead : (w.tasks lt).alive = false
  alive : (w'.tasks lt).alive = true
  others : ∀ j, j ≠ lt → w'.tasks j = w.tasks j
  keeps : ∀ creator, Inherits creator (w'.tasks lt) ↔ Inherits creator (w.tasks lt)

/-- `spawn_file` leaves what is alive, and its new entry keeps what it finds. -/
theorem spawnFile_sound (sound : w.Sound) (path : Vfs.Path) :
    (w.spawnFile env path).2.Sound ∧
      (w.Fewer (w.spawnFile env path).2 ∧
          ((w.launch env path).1.isSome = true → w.findSlot (fun t => !t.alive) = none) ∨
        (w.launch env path).1.isSome = true ∧ ∃ lt, w.findSlot (fun t => !t.alive) = some lt ∧
          w.SpawnsInto (w.spawnFile env path).2 lt) := by
  unfold spawnFile
  have launched := @launch_launched δ ρ env w path
  rcases launch : w.launch env path with ⟨result, w1⟩
  rw [launch] at launched
  cases launched with
  | failed quiet =>
    exact ⟨sound.fewer quiet.alike (.of_tasks quiet.entries),
      .inl ⟨.of_tasks quiet.entries, nofun⟩⟩
  | started program slot t entries born table =>
    have sameSlot : w1.findSlot (fun t => !t.alive) = w.findSlot fun t => !t.alive := by
      simp only [findSlot, entries]
    dsimp only [createTask]
    rw [sameSlot]
    -- The old entries still name what they named; a new one can join them.
    have below := born.idsBelow sound.ids
    have kept (j : Linux.Slot) (living : (w.tasks j).alive = true) :
        ∃ other, w1.machine.kernel.findTask (w.tasks j).dbsosTask = some other ∧
          (w1.machine.kernel.tasks other).pml4Phys = (w.tasks j).pml4Phys := by
      obtain ⟨other, found, same⟩ := sound.bound j living
      refine ⟨other, by rw [born.findTask_old (sound.known living), found], ?_⟩
      have apart : other ≠ slot := by
        rintro rfl
        exact (Kernel.findTask_some found).1 born.free
      rw [born.other apart, same]
    cases found : w.findSlot fun t => !t.alive with
    | none =>
      refine ⟨⟨below, fun j living => ?_, fun j k livingJ livingK same => ?_⟩,
        .inl ⟨.of_tasks entries, fun _ => rfl⟩⟩
      · rw [entries] at living ⊢
        exact kept j living
      · rw [entries] at livingJ livingK same
        exact sound.apart j k livingJ livingK same
    | some lt =>
      have dead : (w.tasks lt).alive = false := by simpa using findSlot_some found
      dsimp only
      generalize after : ((w1.nextTaskId.2.modify lt fun t =>
        { t with alive := true, pid := w1.nextTaskId.1 }).spawnEntry lt program
          w.machine.kernel.nextId) = w'
      have kernel : w'.machine.kernel = w1.machine.kernel.takeId := by rw [← after]; rfl
      have here : w'.tasks lt =
          { w.tasks lt with
            alive := true
            pid := w1.machine.kernel.nextId
            entry := program.entry
            pml4Phys := program.pml4
            brk := program.brk
            mmapBase := program.mmapBase
            stackTop := program.stackTop
            stackSize := program.stackSize
            dbsosTask := w.machine.kernel.nextId } := by
        rw [← after, spawnEntry, modify_same, modify_same, ← entries]
        rfl
      have others (j : Linux.Slot) (apart : j ≠ lt) : w'.tasks j = w.tasks j := by
        rw [← after, spawnEntry, modify_other apart, modify_other apart, ← entries]
        rfl
      have lived (j : Linux.Slot) (apart : j ≠ lt) (living : (w'.tasks j).alive = true) :
          (w.tasks j).alive = true := by rwa [others j apart] at living
      have older (j : Linux.Slot) (living : (w.tasks j).alive = true) :
          (w.tasks j).dbsosTask ≠ w.machine.kernel.nextId := (sound.known living).ne
      refine ⟨⟨?_, fun j living => ?_, fun j k livingJ livingK same => ?_⟩,
        .inr ⟨rfl, lt, rfl, dead, by rw [here], others, fun creator => ?_⟩⟩
      · rw [kernel]
        exact fun other used => (below other used).trans (Nat.lt_succ_self _)
      · rw [kernel]
        change ∃ other, w1.machine.kernel.findTask _ = some other ∧
          (w1.machine.kernel.tasks other).pml4Phys = _
        by_cases new : j = lt
        · subst new
          rw [here]
          exact ⟨slot, born.findTask_new sound.ids, by rw [born.task, table]⟩
        · rw [others j new]
          exact kept j (lived j new living)
      · by_cases newJ : j = lt
        · by_cases newK : k = lt
          · rw [newJ, newK]
          · rw [newJ, here, others k newK] at same
            exact absurd same.symm (older k (lived k newK livingK))
        · by_cases newK : k = lt
          · rw [newK, here, others j newJ] at same
            exact absurd same (older j (lived j newJ livingJ))
          · rw [others j newJ, others k newK] at same
            exact sound.apart j k (lived j newJ livingJ) (lived k newK livingK) same
      · rw [here]
        exact ⟨fun h => ⟨h.fds, h.pending, h.handlers, h.mask, h.uid, h.gid⟩,
          fun h => ⟨h.fds, h.pending, h.handlers, h.mask, h.uid, h.gid⟩⟩

end World

/-- A call that makes, changes or ends a task, or what else the machine does in between. -/
inductive LifeCall (δ ρ : Type) where
  | spawnFile (path : Vfs.Path)
  | sysFork
  | sysExecve (pathPtr : BitVec 64)
  | sysKill (target sig : BitVec 32)
  | sysTgkill (tid sig : BitVec 32)
  | sysExit (status : BitVec 32)
  | elsewhere (machine : Syscall.Machine (Vfs.Tables δ)) (rest : ρ)

namespace World

variable {δ ρ : Type} {env : Services δ ρ} {w w' : World δ ρ}

instance (k k' : Kernel) : Decidable (k.Alike k') := by
  unfold Kernel.Alike
  infer_instance

/-- The call's effect. The calls of a task are those of the current one. -/
def live (env : Services δ ρ) (w : World δ ρ) : LifeCall δ ρ → Option (World δ ρ)
  | .spawnFile path => some (w.spawnFile env path).2
  | .sysFork => w.getCurrent.map fun i => (w.sysFork i).2
  | .sysExecve pathPtr => w.getCurrent.map fun i => (w.sysExecve env i pathPtr).2
  | .sysKill target sig => w.getCurrent.map fun i => (w.sysKill i target sig).2
  | .sysTgkill tid sig => w.getCurrent.map fun _ => (w.sysTgkill tid sig).2
  | .sysExit status => w.getCurrent.map fun i => w.sysExit i status
  | .elsewhere machine rest =>
    if w.machine.kernel.Alike machine.kernel then some { w with machine := machine, rest := rest }
    else none

/-- What a new entry takes its descriptors, signals and ids from. -/
def creator (w : World δ ρ) : LifeCall δ ρ → Option LinuxTask
  | .spawnFile _ => some .empty
  | .sysFork => w.getCurrent.map w.tasks
  | _ => none

/-- A step behind which every entry is bound, and that gives a new one what its creator
has. -/
structure Consistent (w : World δ ρ) (call : LifeCall δ ρ) (after : World δ ρ) : Prop where
  bound : after.Bound
  made : ∀ i, (w.tasks i).alive = false → (after.tasks i).alive = true →
    ∃ creator ∈ w.creator call, Inherits creator (after.tasks i)

/-- The steps that do so: `spawn_file` takes over a clean entry, and no `sys_fork`
succeeds. -/
def Harmless (env : Services δ ρ) (w : World δ ρ) : LifeCall δ ρ → Prop
  | .spawnFile path => (w.launch env path).1.isSome = true →
      ∀ i ∈ w.findSlot (fun t => !t.alive), Inherits .empty (w.tasks i)
  | .sysFork => ∀ i ∈ w.getCurrent, ¬ w.ForkWorks i
  | _ => True

/-- Where nothing is made, it is enough that what stays alive is bound. -/
theorem Consistent.of_fewer {call : LifeCall δ ρ} (sound : w'.Sound) (fewer : w.Fewer w') :
    w.Consistent call w' :=
  ⟨sound.bound, fun i dead living => by simp [(fewer i living).1] at dead⟩

theorem sound_and_consistent_iff (sound : w.Sound) {call : LifeCall δ ρ}
    (step : w.live env call = some w') :
    (w.Harmless env call → w'.Sound) ∧ (w.Consistent call w' ↔ w.Harmless env call) := by
  have quiet (fewer : w.Fewer w') (alike : w.machine.kernel.Alike w'.machine.kernel)
      (harmless : w.Harmless env call) :
      (w.Harmless env call → w'.Sound) ∧ (w.Consistent call w' ↔ w.Harmless env call) :=
    ⟨fun _ => sound.fewer alike fewer,
      iff_of_true (.of_fewer (sound.fewer alike fewer) fewer) harmless⟩
  cases call with
  | spawnFile path =>
    obtain rfl := Option.some.inj step
    obtain ⟨after, ⟨fewer, full⟩ | ⟨launched, lt, found, into⟩⟩ :=
      @spawnFile_sound δ ρ env w sound path
    · refine ⟨fun _ => after, iff_of_true (.of_fewer after fewer) fun launched i first => ?_⟩
      rw [full launched] at first
      cases first
    · refine ⟨fun _ => after, ?_⟩
      constructor
      · intro consistent _ i first
        obtain rfl := Option.some.inj (found.symm.trans first)
        obtain ⟨creator, given, inherits⟩ := consistent.made lt into.dead into.alive
        obtain rfl := Option.some.inj given
        exact (into.keeps _).mp inherits
      · intro harmless
        refine ⟨after.bound, fun i dead living => ⟨.empty, rfl, ?_⟩⟩
        have new : i = lt := by
          by_contra apart
          rw [into.others i apart, dead] at living
          cases living
        subst new
        exact (into.keeps _).mpr (harmless launched i found)
  | sysFork =>
    obtain ⟨i, current, rfl⟩ := Option.map_eq_some_iff.mp step
    have test := findSlot_some current
    simp only [Bool.and_eq_true] at test
    by_cases works : w.ForkWorks i
    · obtain ⟨child, found⟩ := Option.isSome_iff_exists.mp works.entry
      have unfit : ¬ w.Harmless env .sysFork := fun harmless => harmless i current works
      exact ⟨fun harmless => absurd harmless unfit, iff_of_false
        (fun consistent => sysFork_unbound test.1 found sound.ids works consistent.bound) unfit⟩
    · have harmless : w.Harmless env .sysFork := by
        intro other found
        obtain rfl := Option.some.inj (current.symm.trans found)
        exact works
      cases found : w.findSlot fun t => !t.alive with
      | none =>
        have same : w.sysFork i = (errno linuxENOMEM, w) := by simp only [sysFork, found]
        rw [same] at quiet ⊢
        exact quiet (.of_tasks rfl) (.of_tasks le_rfl rfl) harmless
      | some child =>
        obtain ⟨fewer, alike⟩ := sysFork_failed test.1 found works
        exact quiet fewer alike harmless
  | sysExecve pathPtr =>
    obtain ⟨i, current, rfl⟩ := Option.map_eq_some_iff.mp step
    have test := findSlot_some current
    simp only [Bool.and_eq_true] at test
    obtain ⟨after, lives⟩ := @sysExecve_sound δ ρ env w i sound test.1 pathPtr
    exact ⟨fun _ => after, iff_of_true
      ⟨after.bound, fun j dead living => by rw [lives, dead] at living; cases living⟩ trivial⟩
  | sysKill target sig =>
    obtain ⟨i, current, rfl⟩ := Option.map_eq_some_iff.mp step
    obtain ⟨fewer, kernel⟩ := sysKill_fewer (w := w) (i := i) target sig
    exact quiet fewer (.of_tasks (by rw [kernel]) (by rw [kernel])) trivial
  | sysTgkill tid sig =>
    obtain ⟨i, current, rfl⟩ := Option.map_eq_some_iff.mp step
    obtain ⟨fewer, kernel⟩ := sysTgkill_fewer (w := w) tid sig
    exact quiet fewer (.of_tasks (by rw [kernel]) (by rw [kernel])) trivial
  | sysExit status =>
    obtain ⟨i, current, rfl⟩ := Option.map_eq_some_iff.mp step
    have kernel := sysExit_quiet (w := w) (i := i) status
    exact quiet (sysExit_fewer status) (.of_tasks (by rw [kernel]) (by rw [kernel])) trivial
  | elsewhere machine rest =>
    simp only [live] at step
    split_ifs at step with alike
    obtain rfl := Option.some.inj step
    exact quiet (.of_tasks rfl) alike trivial

/-- From a table without living entries, all entries are bound and all new ones are their
creators' exactly as long as `spawn_file` finds clean entries and no fork succeeds. -/
theorem entries_consistent_iff {start final : World δ ρ}
    {taken : List (Transition (World δ ρ) (LifeCall δ ρ))}
    (vacant : ∀ i, (start.tasks i).alive = false) (ids : start.machine.kernel.IdsBelow)
    (trace : Trace (fun w call after => w.live env call = some after) start taken final) :
    (∀ transition ∈ taken, transition.before.Consistent transition.label transition.after) ↔
      Guarded (Harmless env) taken := by
  refine trace.forall_iff_guarded Sound ⟨ids, fun i living => ?_, fun i j living _ _ => ?_⟩
    (fun _ _ _ sound harmless step => (sound_and_consistent_iff sound step).1 harmless)
    (fun _ _ _ sound step => (sound_and_consistent_iff sound step).2)
  · rw [vacant] at living
    cases living
  · rw [vacant] at living
    cases living

section Samples

instance (creator t : LinuxTask) : Decidable (Inherits creator t) :=
  decidable_of_iff
    ((∀ idx, (t.fds idx).inUse = true → t.fds idx = creator.fds idx) ∧ t.signalPending = 0 ∧
      t.signalHandlers = creator.signalHandlers ∧ t.signalMask = creator.signalMask ∧
      t.uid = creator.uid ∧ t.gid = creator.gid)
    ⟨fun h => ⟨h.1, h.2.1, h.2.2.1, h.2.2.2.1, h.2.2.2.2.1, h.2.2.2.2.2⟩,
      fun h => ⟨h.fds, h.pending, h.handlers, h.mask, h.uid, h.gid⟩⟩

instance (w : World δ ρ) : Decidable w.Bound := by
  unfold Bound
  infer_instance

instance (k : Kernel) (id : Nat) : Decidable (k.CanFork id) :=
  decidable_of_iff
    ((∃ parent ∈ k.findTask id, k.atTaskLimit (k.tasks parent).uid = false) ∧
      k.freeSlot.isSome ∧ k.allocKstack.1 ≠ 0 ∧
      ((k.allocKstack.2.identityMapKernel k.allocKstack.1 stackSize).phys.alloc.palloc).1 ≠ 0)
    ⟨fun h => ⟨h.1, h.2.1, h.2.2.1, h.2.2.2⟩, fun h => ⟨h.known, h.free, h.kstack, h.table⟩⟩

instance (w : World δ ρ) (i : Linux.Slot) : Decidable (w.ForkWorks i) :=
  decidable_of_iff
    ((w.findSlot fun t => !t.alive).isSome ∧ (w.copyTable i).1 ≠ 0 ∧
      (w.forkKernel i).CanFork (w.tasks i).dbsosTask)
    ⟨fun h => ⟨h.1, h.2.1, h.2.2⟩, fun h => ⟨h.entry, h.page, h.scheduler⟩⟩

instance (env : Services δ ρ) (w : World δ ρ) : DecidablePred (w.Harmless env) := fun
  | .spawnFile _ | .sysFork => by unfold Harmless; infer_instance
  | .sysExecve _ | .sysKill _ _ | .sysTgkill _ _ | .sysExit _ | .elsewhere _ _ => .isTrue trivial

/-- A driver whose only file is an ELF header. -/
def headerOps : Vfs.FsOps Unit where
  openPath _ _ disk := (some 0, disk)
  close _ disk := disk
  read _ _ _ disk := (some ([0x7F, 0x45, 0x4C, 0x46] ++ List.replicate 60 0), disk)
  write _ _ _ disk := (none, disk)
  stat _ _ := some ⟨64, false, 0⟩
  readdir _ _ _ := none
  mkdir _ disk := (false, disk)
  rmdir _ disk := (false, disk)
  unlink _ disk := (false, disk)

/-- A machine with that file system, and no Linux task yet. -/
def booted : World Unit Unit where
  tasks _ := .empty
  machine :=
    { kernel := Syscall.oneTask.kernel
      user := fun _ => 0
      currentUid := 0
      users := []
      mmioRegions := []
      framebuffer := Syscall.oneTask.framebuffer
      rest := { Vfs.Tables.empty () with drivers := [headerOps], mounts := [Vfs.rootMount 0] } }
  rest := ()

/-- Services with a heap, and a loader that takes one page for the table. -/
def loader : Services Unit Unit where
  kmalloc _ rest := (true, rest)
  kfree rest := rest
  loadLinuxElf _ phys rest :=
    (some ⟨0x400000, phys.alloc.palloc.1, 0, 0, 0x600000, 0x400000, 0x10000, 0x7FFFFFF0⟩,
      ⟨phys.alloc.palloc.2, phys.mem⟩, rest)
  requestExecRedirect _ rest := rest
  setupUserGdtTss _ _ rest := rest
  readAction _ _ := .empty
  writeAction _ _ memory := memory
  report _ _ _ _ := none

/-- The file's path, `/a`. -/
def headerPath : Vfs.Path := [47, 97]

def spawned : World Unit Unit := (booted.spawnFile loader headerPath).2

theorem booted_idsBelow : booted.machine.kernel.IdsBelow := by
  unfold Kernel.IdsBelow
  decide +kernel

/-- The first program's task gets the processor. -/
def running : Syscall.Machine (Vfs.Tables Unit) :=
  { spawned.machine with kernel := { spawned.machine.kernel with current := 1 } }

/-- A program is started, exits, and leaves its entry to the next one. -/
theorem entries_consistent_spawned : ∃ taken final,
    Trace (fun w call after => w.live loader call = some after) booted taken final ∧
      taken.length = 4 ∧
      ∀ transition ∈ taken, transition.before.Consistent transition.label transition.after := by
  obtain ⟨⟨taken, final⟩, recorded, steps, guarded⟩ :
      ∃ run ∈ record (live loader) booted [.spawnFile headerPath, .elsewhere running (), .sysExit 0,
          .spawnFile headerPath],
        run.1.length = 4 ∧
        ∀ transition ∈ run.1, transition.before.Harmless loader transition.label := by
    decide +kernel
  have trace := trace_of_record recorded
  exact ⟨taken, final, trace, steps,
    (entries_consistent_iff (fun _ => rfl) booted_idsBelow trace).mpr guarded⟩

/-- A program forks: the child's entry and its record have different tables. -/
theorem fork_unbinds :
    ¬ ∀ (env : Services Unit Unit) (start final : World Unit Unit)
      (taken : List (Transition (World Unit Unit) (LifeCall Unit Unit))),
      (∀ i, start.tasks i = .empty) → start.machine.kernel.IdsBelow →
      Trace (fun w call after => w.live env call = some after) start taken final →
        Throughout Bound start taken := by
  intro claim
  have ok : (record (live loader) booted [.spawnFile headerPath, .elsewhere running (),
      .sysFork]).any (fun run => decide ¬ run.2.Bound) = true := by
    decide +kernel
  obtain ⟨⟨taken, final⟩, recorded, checked⟩ := (Option.any_eq_true _ _).mp ok
  have trace := trace_of_record recorded
  exact of_decide_eq_true checked
    (trace.final_of_throughout (claim loader booted _ _ (fun _ => rfl) booted_idsBelow trace))

end Samples

end World

end Linux

end DBSos
