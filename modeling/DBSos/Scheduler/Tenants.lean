import DBSos.Scheduler.Kstacks
import DBSos.Scheduler.Turns

/-!
# Each call keeps the kernel stacks

A call that passes a message or waits leaves the stacks alone, a creation adds a task with
stacks of its own, an exit frees the one in its record. One lemma for each kind, and the
run theorem behind them.
-/

namespace DBSos

open DBSos.Abi DBSos.Lib DBSos.Memory DBSos.Scheduler DBSos.Vm

namespace Kernel

variable {k : Kernel} {slot : Slot} {t : Task}

/-! ## Calls without stacks -/

/-- A blocked task becomes ready in a call of another. -/
theorem quiet_wake
    (blocked : (k.tasks slot).state = .blockedSend ∨ (k.tasks slot).state = .blockedRecv)
    (ready : t.state = .ready) (same : t.holdings = (k.tasks slot).holdings) :
    k.Quiet (k.setTask slot t) :=
  quiet_setTask (fun _ => alive_of_blocked blocked) same fun _ => by simp [Task.Alive, ready]

theorem quiet_takePending (alive : k.currentTask.Alive) : k.Quiet k.takePending.1 :=
  quiet_setTask (fun _ => alive) rfl fun _ => alive

theorem quiet_send (alive : k.currentTask.Alive) (capIdx : Nat) (msg : Message) :
    k.Quiet (k.sendWithCap capIdx msg).settle := by
  rcases k.sendWithCap_cases capIdx msg with
    ⟨_, code, _, refused⟩ | ⟨cap, dst, -, ⟨_, taken⟩ | ⟨_, waits, taken⟩ | ⟨-, -, taken⟩⟩
  · rw [refused]
    exact .refl k
  · rw [taken]
    exact quiet_of_eq rfl rfl rfl rfl
  · rw [taken, wakeAndDeliver_eq]
    exact quiet_wake (.inr waits.1) rfl rfl
  · rw [taken]
    exact quiet_block (.inl rfl) alive rfl

theorem quiet_recv (alive : k.currentTask.Alive) (capIdx : Nat) :
    k.Quiet (k.recvWithCap capIdx).settle := by
  rcases k.recvWithCap_cases capIdx with
    ⟨_, code, _, refused⟩ | ⟨-, ⟨_, taken⟩ | ⟨-, ⟨sender, found, taken⟩ | ⟨_, _, taken⟩ |
      ⟨-, -, taken⟩⟩⟩
  · rw [refused]
    exact .refl k
  · rw [taken]
    exact quiet_of_eq rfl rfl rfl rfl
  · rw [taken]
    exact quiet_wake (.inl (findSender_some found).1) rfl rfl
  · rw [taken]
    exact quiet_takePending alive
  · rw [taken]
    exact quiet_block (.inr rfl) alive rfl

theorem quiet_ipcSend (alive : k.currentTask.Alive) (dstId word : Nat) :
    k.Quiet (k.ipcSend dstId word).settle := by
  unfold Kernel.ipcSend
  cases found : k.findTask dstId with
  | none => exact .refl k
  | some dst =>
    by_cases waits : Matches (k.tasks dst) .blockedRecv k.currentTask.id
    · simp only [waits, if_true]
      exact quiet_wake (.inr waits.1) rfl rfl
    · simp only [waits, if_false]
      exact quiet_block (.inl rfl) alive rfl

theorem quiet_ipcRecv (alive : k.currentTask.Alive) (srcId : Nat) :
    k.Quiet (k.ipcRecv srcId).settle := by
  unfold Kernel.ipcRecv
  cases found : k.matchRecv srcId with
  | none => exact quiet_block (.inr rfl) alive rfl
  | some src => exact quiet_wake (.inl (matchRecv_some found).1) rfl rfl

/-- The slot of a dead child becomes free. -/
theorem quiet_reap (exited : (k.tasks slot).state = .exited) (alive : k.currentTask.Alive)
    (statusPtr : BitVec 64) : k.Quiet (k.reap slot statusPtr).1 := by
  refine quiet_setTask (fun lives => absurd rfl lives.1) rfl fun here => ?_
  subst here
  exact absurd exited alive.2

theorem quiet_waitpid (alive : k.currentTask.Alive) (pid : Nat) (statusPtr : BitVec 64) :
    k.Quiet (k.waitpid pid statusPtr).settle := by
  unfold Kernel.waitpid
  cases found : k.exitedChild pid with
  | none => exact quiet_block (.inr rfl) alive rfl
  | some slot =>
    have child := findSlot_some found
    simp only [decide_eq_true_eq] at child
    exact quiet_reap child.2.2 alive statusPtr

theorem quiet_resumeWaitpid (alive : k.currentTask.Alive) (statusPtr : BitVec 64) :
    k.Quiet (k.resumeWaitpid statusPtr).1 := by
  unfold Kernel.resumeWaitpid
  split_ifs with bound exited
  · exact quiet_reap exited alive statusPtr
  · exact .refl k
  · exact .refl k

/-- A call continues behind its `yield_now`. -/
theorem quiet_resumeFrame {k' : Kernel} {frame : Frame} (alive : k.currentTask.Alive)
    (resumed : k.resumeFrame frame = some k') : k.Quiet k' := by
  cases frame with
  | outside => cases resumed
  | sendWithCap | ipcSend | ipcRecv =>
    obtain rfl := Option.some.inj resumed
    exact .refl k
  | recvWithCap =>
    obtain rfl := Option.some.inj resumed
    unfold resumeRecv
    split_ifs
    · exact quiet_takePending alive
    · exact .refl k
  | waitpid pid statusPtr =>
    obtain rfl := Option.some.inj resumed
    exact quiet_resumeWaitpid alive statusPtr

theorem quiet_grants {taskId : Nat} {k' : Kernel} (grants : k.Grants taskId k') : k.Quiet k' := by
  rcases grants with rfl | ⟨slot, cap, _, rfl⟩
  · exact .refl _
  · exact quiet_of_eq rfl rfl rfl rfl

theorem quiet_capTransfer (k : Kernel) (dstTaskId idx : Nat) :
    k.Quiet (k.capTransfer dstTaskId idx).1 := by
  obtain ⟨granted, grants, taken | taken⟩ := k.capTransfer_grants dstTaskId idx
  · rw [taken]
    exact quiet_grants grants
  · rw [taken]
    exact (quiet_grants grants).trans (quiet_of_eq rfl rfl rfl rfl)

/-! ## Creations -/

/-- A new stack is allocated, and apart from every run allocated before. -/
theorem allocKstack_run (room : k.HasRoom) (taken : k.allocKstack.1 ≠ 0) :
    AllocatedRun k.allocKstack.2.phys.alloc k.allocKstack.1 kstackPages ∧
      ∀ other, AllocatedRun k.phys.alloc other kstackPages →
        ApartRuns other k.allocKstack.1 kstackPages :=
  pallocN_run (by decide) room taken

/-- A task moves in with stacks of its own. -/
theorem Housed.install (housed : k.Housed) (running : k.halted = false) {phys : PhysMem}
    (free : (k.tasks slot).state = .free) (keeps : k.phys.alloc.Keeps phys.alloc)
    (own : ∀ stack ∈ t.kstacks, AllocatedRun phys.alloc stack kstackPages ∧
      ∀ other, AllocatedRun k.phys.alloc other kstackPages → ApartRuns other stack kstackPages) :
    (({ k.takeId with phys := phys } : Kernel).install slot t).Housed := by
  have other : slot ≠ k.current := by
    rintro rfl
    exact (housed.awake running).1 free
  have old {one : Slot} (elsewhere : one ≠ slot) :
      (({ k.takeId with phys := phys } : Kernel).install slot t).tasks one = k.tasks one := by
    simp [Kernel.install, takeId, elsewhere]
  have new : (({ k.takeId with phys := phys } : Kernel).install slot t).tasks slot = t := by
    simp [Kernel.install]
  refine ⟨fun _ => ?_, fun one alive stack member => ?_, fun one two differs alive alive' => ?_⟩
  · rw [currentTask, show (({ k.takeId with phys := phys } : Kernel).install slot t).current =
      k.current from rfl, old (Ne.symm other)]
    exact housed.awake running
  · by_cases here : one = slot
    · subst here
      rw [new] at member
      exact (own stack member).1
    · rw [old here] at alive member
      exact (housed.allocated one alive stack member).keeps keeps
  · intro stack member theirs theirMember
    by_cases here : one = slot
    · subst here
      rw [new] at member
      rw [old (Ne.symm differs)] at alive' theirMember
      exact ((own stack member).2 theirs (housed.allocated two alive' theirs theirMember)).symm
    · rw [old here] at alive member
      by_cases there : two = slot
      · subst there
        rw [new] at theirMember
        exact (own theirs theirMember).2 stack (housed.allocated one alive stack member)
      · rw [old there] at alive' theirMember
        exact housed.apart one two differs alive alive' stack member theirs theirMember

end Kernel

namespace Kstacks

open Kernel

/-- The stacks are housed, each is freed at most once, and the one in the record of a
living task has not been freed. -/
structure Inv (w : Kstacks) : Prop where
  housed : w.kernel.Housed
  once : w.ledger.FreedOnce
  owed : ∀ slot, (w.kernel.tasks slot).Alive → (w.kernel.tasks slot).kstackPhys ≠ 0 →
    w.ledger.Owed (w.kernel.tasks slot).kstackPhys

theorem Inv.good {w : Kstacks} (inv : Inv w) : Good w where
  once := inv.once
  marked := fun slot alive stack member => (inv.housed.allocated slot alive stack member).pages
  sole := inv.housed.apart

variable {k k' : Kernel} {ledger : Ledger Nat} {slot : Slot} {t : Task}

theorem Inv.quiet (inv : Inv ⟨k, ledger⟩) (running : k.halted = false) (quiet : k.Quiet k') :
    Inv ⟨k', ledger⟩ where
  housed := inv.housed.quiet running quiet
  once := inv.once
  owed := by
    intro slot alive nonzero
    obtain ⟨before, holds⟩ := quiet.record slot alive
    have same : (k'.tasks slot).kstackPhys = (k.tasks slot).kstackPhys :=
      congrArg Holdings.kstackPhys holds
    simp only [same] at nonzero ⊢
    exact inv.owed slot before nonzero

/-! ## The ledger -/

theorem freedOnce_takes (once : ledger.FreedOnce) (stack : Nat) :
    Ledger.FreedOnce (ledger ++ takes stack) := by
  unfold takes held
  split_ifs
  · exact once.taken stack
  · simpa using once

theorem owed_takes (once : ledger.FreedOnce) {stack : Nat} (nonzero : stack ≠ 0) :
    Ledger.Owed (ledger ++ takes stack) stack := by
  unfold takes held
  rw [if_pos nonzero]
  exact Ledger.owed_taken once stack

theorem freedOnce_frees (once : ledger.FreedOnce) {stack : Nat}
    (owed : stack ≠ 0 → ledger.Owed stack) : Ledger.FreedOnce (ledger ++ frees stack) := by
  unfold frees held
  split_ifs with nonzero
  · exact once.freed (owed nonzero)
  · simpa using once

/-- The entries of an item among those of one stack. -/
theorem count_takes (stack item : Nat) : (takes stack).count (.freed item) = 0 ∧
    (takes stack).count (.taken item) = if stack = item ∧ stack ≠ 0 then 1 else 0 := by
  unfold takes held
  by_cases nonzero : stack = 0
  · simp [nonzero]
  · by_cases same : stack = item
    · subst same
      simp [nonzero]
    · simp [nonzero, same]

theorem count_frees (stack item : Nat) : (frees stack).count (.taken item) = 0 ∧
    (frees stack).count (.freed item) = if stack = item ∧ stack ≠ 0 then 1 else 0 := by
  unfold frees held
  by_cases nonzero : stack = 0
  · simp [nonzero]
  · by_cases same : stack = item
    · subst same
      simp [nonzero]
    · simp [nonzero, same]

/-! ## Creations -/

/-- A creation that only takes stacks: it fails, or a task moves in that frees the last. -/
structure Settles (k result : Kernel) (entries : Ledger Nat) (phys : PhysMem) : Prop where
  keeps : k.phys.alloc.Keeps phys.alloc
  once : ∀ ledger : Ledger Nat, ledger.FreedOnce → Ledger.FreedOnce (ledger ++ entries)
  balanced : ∀ item, entries.count (.freed item) ≤ entries.count (.taken item)
  adds : result = { k with phys := phys } ∨ ∃ slot t, (k.tasks slot).state = .free ∧
    (∀ stack ∈ t.kstacks, AllocatedRun phys.alloc stack kstackPages ∧
      ∀ other, AllocatedRun k.phys.alloc other kstackPages → ApartRuns other stack kstackPages) ∧
    (∀ ledger : Ledger Nat, ledger.FreedOnce → t.kstackPhys ≠ 0 →
      Ledger.Owed (ledger ++ entries) t.kstackPhys) ∧
    result = ({ k.takeId with phys := phys } : Kernel).install slot t

theorem Inv.settles (inv : Inv ⟨k, ledger⟩) (running : k.halted = false) {result : Kernel}
    {entries : Ledger Nat} {phys : PhysMem} (settles : Settles k result entries phys) :
    Inv ⟨result, ledger ++ entries⟩ := by
  have once := settles.once ledger inv.once
  have owed (one : Slot) (alive : (k.tasks one).Alive) (nonzero : (k.tasks one).kstackPhys ≠ 0) :=
    (inv.owed one alive nonzero).append (settles.balanced _)
  rcases settles.adds with rfl | ⟨slot, t, free, own, new, rfl⟩
  · exact ⟨inv.housed.keeps settles.keeps, once, owed⟩
  · refine ⟨inv.housed.install running free settles.keeps own, once, fun one => ?_⟩
    by_cases here : one = slot
    · subst here
      simpa [Kernel.install] using fun _ => new ledger inv.once
    · simpa [Kernel.install, takeId, here] using owed one

theorem settles_none : Settles k k [] k.phys :=
  ⟨.refl _, fun _ once => by simpa using once, by simp, .inl rfl⟩

/-- An allocation for a creation that then fails. -/
theorem settles_failed {phys : PhysMem} (keeps : k.phys.alloc.Keeps phys.alloc) :
    Settles k { k with phys := phys } [] phys :=
  ⟨keeps, fun _ once => by simpa using once, by simp, .inl rfl⟩

theorem spawn_settles (frugal : k.Frugal .spawn) :
    ∃ phys, Settles k k.spawn.1 k.spawnStacks phys := by
  unfold Kernel.spawn spawnStacks
  by_cases limited : k.atTaskLimit k.currentTask.uid = true
  · rw [if_pos limited, if_pos limited]
    exact ⟨_, settles_none⟩
  · rw [if_neg limited, if_neg limited]
    cases found : k.freeSlot with
    | none => exact ⟨_, settles_none⟩
    | some slot =>
      obtain ⟨room, clean⟩ := frugal (by simpa using limited) slot found
      have keeps := k.allocKstack_keeps
      dsimp only
      by_cases failed : k.allocKstack.1 = 0
      · rw [if_pos failed, if_pos failed]
        exact ⟨_, settles_failed keeps⟩
      · obtain ⟨run, apart⟩ := allocKstack_run room failed
        have recycled : (k.allocKstack.2.takeId).freePrevKstack slot = k.allocKstack.2.takeId := by
          unfold freePrevKstack
          exact if_neg (not_not.mpr (clean failed))
        rw [if_neg failed, if_neg failed, recycled, clean failed, frees_zero, List.append_nil]
        have since := k.allocKstack.2.phys.alloc.palloc_keeps
        refine ⟨⟨k.allocKstack.2.phys.alloc.palloc.2, k.allocKstack.2.phys.mem⟩,
          keeps.trans since, fun _ once => freedOnce_takes once _, fun item => ?_,
          .inr ⟨slot, _, freeSlot_some found, ?_, fun _ once => owed_takes once, rfl⟩⟩
        · simp [count_takes]
        · intro stack member
          obtain rfl : stack = k.allocKstack.1 := by
            simpa [Task.kstacks, mem_held, failed] using member
          exact ⟨run.keeps since, apart⟩

theorem spawnUser_settles {image : UserImage} (frugal : k.Frugal (.spawnUser image)) :
    ∃ phys, Settles k (k.spawnUser image).1 k.spawnUserStacks phys := by
  unfold Kernel.spawnUser spawnUserStacks
  by_cases limited : k.atTaskLimit k.currentTask.uid = true
  · rw [if_pos limited, if_pos limited]
    exact ⟨_, settles_none⟩
  · rw [if_neg limited, if_neg limited]
    cases found : k.freeSlot with
    | none => exact ⟨_, settles_none⟩
    | some slot =>
      obtain ⟨room, clean⟩ := frugal (by simpa using limited) slot found
      have keeps := k.allocKstack_keeps
      have recycled : k.freePrevKstack slot = k := by
        unfold freePrevKstack
        exact if_neg (not_not.mpr clean)
      dsimp only
      rw [recycled, clean, frees_zero, List.nil_append]
      by_cases failed : k.allocKstack.1 = 0
      · rw [if_pos failed, failed]
        exact ⟨_, settles_failed keeps⟩
      · obtain ⟨run, apart⟩ := allocKstack_run room failed
        rw [if_neg failed]
        have since := k.allocKstack.2.phys.alloc.palloc_keeps
        refine ⟨⟨k.allocKstack.2.phys.alloc.palloc.2, k.allocKstack.2.phys.mem⟩,
          keeps.trans since, fun _ once => freedOnce_takes once _, fun item => ?_,
          .inr ⟨slot, _, freeSlot_some found, ?_, fun _ once => owed_takes once, rfl⟩⟩
        · simp [count_takes]
        · intro stack member
          obtain rfl : stack = k.allocKstack.1 := by
            simpa [Task.kstacks, mem_held, failed] using member
          exact ⟨run.keeps since, apart⟩

/-- The stacks of a fork, where it takes them. -/
theorem fork_runs {parent : Slot} {ownKstack : Bool} (room : k.ForkHasRoom parent ownKstack)
    (may : k.MayFork parent) (kstack : k.allocKstack.1 ≠ 0) :
    ∀ stack ∈ held k.allocKstack.1 ++ held (k.secondStack ownKstack),
      AllocatedRun (k.beforeTable ownKstack).alloc stack kstackPages ∧
        ∀ other, AllocatedRun k.phys.alloc other kstackPages →
          ApartRuns other stack kstackPages := by
  obtain ⟨first, second⟩ := room may
  obtain ⟨run, apart⟩ := allocKstack_run first kstack
  intro stack member
  rcases List.mem_append.mp member with here | there
  · obtain ⟨rfl, -⟩ := mem_held.mp here
    exact ⟨run.keeps (k.beforeTable_keeps ownKstack), apart⟩
  · obtain ⟨rfl, nonzero⟩ := mem_held.mp there
    cases ownKstack with
    | false => exact absurd rfl nonzero
    | true =>
      have before := k.allocKstack_keeps.trans
        (identityMapKernel_keeps k.allocKstack.2 k.allocKstack.1 stackSize)
      have room := second kstack rfl
      rw [beforeTable]
      rw [secondStack] at nonzero ⊢
      generalize k.allocKstack.2.identityMapKernel k.allocKstack.1 stackSize = mapped at *
      unfold secondKstack at nonzero ⊢
      rw [if_pos rfl] at nonzero ⊢
      dsimp only at nonzero ⊢
      split_ifs at nonzero ⊢ with failed
      · obtain ⟨run, apart⟩ := allocKstack_run room failed
        exact ⟨run.keeps (identityMapKernel_keeps _ _ _),
          fun other old => apart other (old.keeps before)⟩
      · exact absurd (not_not.mp failed) nonzero

theorem forkTask_settles {parent : Slot} {ownKstack : Bool} (shares : Bool)
    (room : k.ForkHasRoom parent ownKstack) :
    ∃ phys, Settles k (k.forkTask parent ownKstack shares).1 (k.forkStacks parent ownKstack)
      phys := by
  have once (ledger : Ledger Nat) (sound : ledger.FreedOnce) : Ledger.FreedOnce
      (ledger ++ (takes k.allocKstack.1 ++ takes (k.secondStack ownKstack))) := by
    rw [← List.append_assoc]
    exact freedOnce_takes (freedOnce_takes sound _) _
  by_cases forks : k.Forkable parent ownKstack
  · obtain ⟨slot, t, phys, free, -, stacked, since, forked⟩ := forkTask_child shares forks
    have runs := fork_runs room forks.admitted forks.kstack
    have named : t.kstacks = held k.allocKstack.1 ++ held (k.secondStack ownKstack) := by
      rw [Task.kstacks, stacked.stackBase, stacked.kstackPhys]
      rfl
    have entries : k.forkStacks parent ownKstack =
        takes k.allocKstack.1 ++ takes (k.secondStack ownKstack) := by
      simp [forkStacks, forks.admitted, forks.kstack, forks.table]
    rw [forked, entries]
    refine ⟨phys, (k.allocKstack_keeps.trans (k.beforeTable_keeps ownKstack)).trans since, once,
      fun item => ?_, .inr ⟨slot, t, freeSlot_some free, fun stack member => ?_,
        fun ledger sound nonzero => ?_, rfl⟩⟩
    · simp [count_takes]
    · rw [named] at member
      exact ⟨(runs stack member).1.keeps since, (runs stack member).2⟩
    · rw [← List.append_assoc, stacked.kstackPhys]
      rw [stacked.kstackPhys] at nonzero
      exact owed_takes (freedOnce_takes sound _) nonzero
  · obtain ⟨phys, failed, keeps⟩ := forkTask_fails shares forks
    rw [failed]
    refine ⟨phys, keeps, fun ledger sound => ?_, fun item => ?_, .inl rfl⟩
    · unfold forkStacks
      split_ifs with refused tableless
      · simpa using sound
      · rw [← List.append_assoc]
        refine freedOnce_frees (once ledger sound) fun nonzero => ?_
        rw [← List.append_assoc]
        exact (owed_takes sound nonzero).append (by simp [count_takes])
      · simpa using once ledger sound
    · unfold forkStacks
      split_ifs with refused tableless
      · simp
      · simp [count_takes, count_frees]
      · simp [count_takes]

/-! ## Exits -/

theorem taskPages_eq (mem : PageMem) (t : Task) :
    taskPages mem t = imagePages mem t ++ stackPages t.kstackPhys := rfl

/-- The exit ends with another task, or with the processor in `hlt`. -/
theorem findReady_markExited {status : BitVec 32} :
    (k.markExited status).findReady = k.current ↔
      ∀ slot, ((k.markExited status).tasks slot).state ≠ .ready := by
  constructor
  · intro same slot ready
    have dead := k.markExited_tasks status k.current
    rw [if_pos rfl] at dead
    by_cases here : slot = k.current
    · rw [here, dead] at ready
      cases ready
    · have stays : (k.markExited status).findReady = (k.markExited status).current := by
        rw [same, markExited_current]
      have differs : slot ≠ (k.markExited status).current := by rwa [markExited_current]
      exact not_ready_of_findReady_eq stays differs ready
  · intro idle
    rcases (k.markExited status).findReady_spec with ready | ⟨same, -⟩
    · exact absurd ready (idle _)
    · rw [same, markExited_current]

/-- An exit writes no stack into a record. -/
theorem exitWithStatus_kstacks (k : Kernel) (status : BitVec 32) (slot : Slot) :
    ((k.exitWithStatus status).tasks slot).stackBase = (k.tasks slot).stackBase ∧
      ((k.exitWithStatus status).tasks slot).kstackPhys = (k.tasks slot).kstackPhys := by
  have marked : ((k.markExited status).tasks slot).stackBase = (k.tasks slot).stackBase ∧
      ((k.markExited status).tasks slot).kstackPhys = (k.tasks slot).kstackPhys := by
    rw [markExited_tasks]
    split_ifs with dying woken
    · rw [dying]
      exact ⟨rfl, rfl⟩
    · exact ⟨rfl, rfl⟩
    · exact ⟨rfl, rfl⟩
  rcases k.exitWithStatus_cases status with ⟨-, halts⟩ | ⟨next, -, -, runs⟩
  · rw [halts]
    exact marked
  · rw [runs]
    by_cases chosen : slot = next
    · subst chosen
      simpa [switchTo, modifyTask] using marked
    · simpa [switchTo, modifyTask, chosen] using marked

/-- What an exit frees spares the stacks of the other living tasks. -/
theorem exit_spares {w : Kstacks} (inv : Inv w) (alive : w.kernel.currentTask.Alive)
    {status : BitVec 32} (frugal : w.kernel.Frugal (.exit status)) (succeeded : w.kernel.Succeeded)
    (differs : slot ≠ w.kernel.current) (lives : (w.kernel.tasks slot).Alive) :
    ∀ stack ∈ (w.kernel.tasks slot).kstacks, ∀ page ∈ pages stack kstackPages,
      ∀ one ∈ taskPages w.kernel.phys.mem w.kernel.currentTask,
        ¬ w.kernel.phys.alloc.Hits one page := by
  intro stack member page inStack one freed
  rw [taskPages_eq] at freed
  rcases List.mem_append.mp freed with image | own
  · exact frugal succeeded slot differs lives stack member page inStack one image
  · unfold stackPages at own
    split_ifs at own with nonzero
    · have mine : w.kernel.currentTask.kstackPhys ∈ (w.kernel.tasks w.kernel.current).kstacks :=
        List.mem_append_right _ (mem_held.mpr ⟨rfl, nonzero⟩)
      have run := inv.housed.allocated slot lives stack member
      have ownRun := inv.housed.allocated w.kernel.current alive _ mine
      have apart := inv.housed.apart slot w.kernel.current differs lives alive stack member _ mine
      exact (apartRuns_iff run.aligned ownRun.aligned).mp apart page inStack one own
    · cases own

theorem Inv.exit (inv : Inv ⟨k, ledger⟩) (running : k.halted = false) {status : BitVec 32}
    (frugal : k.Frugal (.exit status)) :
    Inv ⟨k.exitWithStatus status, ledger ++ k.exitStacks status⟩ := by
  have alive := inv.housed.awake running
  have lives {slot : Slot} (after : ((k.exitWithStatus status).tasks slot).Alive) :=
    (k.exitWithStatus_alive status slot).mp after
  have record := exitWithStatus_kstacks k status
  have named (slot : Slot) : ((k.exitWithStatus status).tasks slot).kstacks =
      (k.tasks slot).kstacks := by
    rw [Task.kstacks, Task.kstacks, (record slot).1, (record slot).2]
  have apart : ∀ slot other, slot ≠ other → ((k.exitWithStatus status).tasks slot).Alive →
      ((k.exitWithStatus status).tasks other).Alive →
      ∀ stack ∈ ((k.exitWithStatus status).tasks slot).kstacks,
        ∀ theirs ∈ ((k.exitWithStatus status).tasks other).kstacks,
          ApartRuns stack theirs kstackPages := by
    intro slot other differs first second
    rw [named, named]
    exact inv.housed.apart slot other differs (lives first).2 (lives second).2
  rcases k.exitWithStatus_cases status with ⟨idle, halts⟩ | ⟨next, differs, ready, runs⟩
  · have none : k.exitStacks status = [] := by
      rw [exitStacks, if_pos (findReady_markExited.mpr idle)]
    have phys : (k.exitWithStatus status).phys = k.phys := by
      have kept : (k.markExited status).phys = k.phys := by rw [markExited_eq]
      rw [halts, ← kept]
    rw [none, List.append_nil]
    refine ⟨⟨k.exitWithStatus_awake status, fun slot after stack member => ?_, apart⟩, inv.once,
      fun slot after nonzero => ?_⟩
    · rw [named] at member
      rw [phys]
      exact inv.housed.allocated slot (lives after).2 stack member
    · simp only [(record slot).2] at nonzero ⊢
      exact inv.owed slot (lives after).2 nonzero
  · have succeeded := succeeded_of_ready differs ready
    have freed : k.exitStacks status = frees k.currentTask.kstackPhys := by
      rw [exitStacks, if_neg fun same => findReady_markExited.mp same next ready]
    have alloc : (k.exitWithStatus status).phys.alloc =
        (taskPages k.phys.mem k.currentTask).foldl PhysAllocator.pfree k.phys.alloc := by
      rw [runs, freeTaskMemory_eq]
    have owed := inv.owed k.current alive
    rw [freed]
    refine ⟨⟨k.exitWithStatus_awake status, fun slot after stack member => ?_, apart⟩,
      freedOnce_frees inv.once owed, fun slot after nonzero => ?_⟩
    · rw [named] at member
      rw [alloc]
      obtain ⟨elsewhere, before⟩ := lives after
      exact (inv.housed.allocated slot before stack member).frees
        (exit_spares inv alive frugal succeeded elsewhere before stack member)
    · obtain ⟨elsewhere, before⟩ := lives after
      simp only [(record slot).2] at nonzero ⊢
      refine (inv.owed slot before nonzero).append ?_
      -- the stack of another living task is another stack
      have other : k.currentTask.kstackPhys = (k.tasks slot).kstackPhys →
          k.currentTask.kstackPhys = 0 := by
        intro same
        by_contra taken
        have apart : ApartRuns (k.tasks slot).kstackPhys k.currentTask.kstackPhys kstackPages :=
          inv.housed.apart slot k.current elsewhere before alive _
            (List.mem_append_right _ (mem_held.mpr ⟨rfl, nonzero⟩)) _
            (List.mem_append_right _ (mem_held.mpr ⟨rfl, taken⟩))
        rw [same] at apart
        exact absurd apart (by simp [ApartRuns, kstackPages, stackSize, pageSize])
      rw [(count_frees _ _).1, (count_frees _ _).2, if_neg fun both => both.2 (other both.1)]

/-! ## Runs -/

theorem Inv.call (inv : Inv ⟨k, ledger⟩) (running : k.halted = false) {action : Action}
    (frugal : k.Frugal action) : Inv ⟨k.call action, ledger ++ k.stackCalls action⟩ := by
  have alive := inv.housed.awake running
  have calls {k' : Kernel} (quiet : k.Quiet k') : Inv ⟨k', ledger ++ []⟩ := by
    rw [List.append_nil]
    exact inv.quiet running quiet
  cases action with
  | tick => exact calls (.refl k)
  | resume => exact calls (.refl k)
  | send capIdx msg => exact calls (quiet_send alive capIdx msg)
  | recv capIdx => exact calls (quiet_recv alive capIdx)
  | ipcSend dstId word => exact calls (quiet_ipcSend alive dstId word)
  | ipcRecv srcId => exact calls (quiet_ipcRecv alive srcId)
  | exit status => exact inv.exit running frugal
  | waitpid pid statusPtr => exact calls (quiet_waitpid alive pid statusPtr)
  | spawn =>
    obtain ⟨phys, settles⟩ := spawn_settles frugal
    exact inv.settles running settles
  | spawnUser image =>
    obtain ⟨phys, settles⟩ := spawnUser_settles frugal
    exact inv.settles running settles
  | sysFork =>
    obtain ⟨phys, settles⟩ := forkTask_settles _ frugal
    exact inv.settles running settles
  | fork parentId =>
    simp only [Kernel.call, Kernel.fork, stackCalls]
    cases found : k.findTask parentId with
    | none => exact calls (.refl k)
    | some parent =>
      obtain ⟨phys, settles⟩ := forkTask_settles _ (frugal parent found)
      exact inv.settles running settles
  | capAlloc cap => exact calls (quiet_of_eq rfl rfl rfl rfl)
  | capAllocFor taskId cap => exact calls (quiet_grants (k.capAllocFor_grants taskId cap))
  | capDuplicate dstTaskId idx => exact calls (quiet_grants (k.capDuplicate_grants dstTaskId idx))
  | capTransfer dstTaskId idx => exact calls (k.quiet_capTransfer dstTaskId idx)

theorem Inv.step {w w' : Kstacks} {action : Action} (inv : Inv w)
    (frugal : w.kernel.Frugal action) (valid : w.Steps action w') : Inv w' := by
  obtain ⟨after, taken, rfl⟩ := Option.map_eq_some_iff.mp valid
  obtain ⟨running, ⟨rfl, rfl⟩ | ⟨rfl, resumed⟩ | ⟨-, -, -, rfl⟩⟩ := step_cases taken
  · simpa [stackCalls] using inv.quiet running (quiet_reschedule _)
  · have framed : w.kernel.Quiet (w.kernel.setFrame .outside) := quiet_of_eq rfl rfl rfl rfl
    have continued := quiet_resumeFrame (framed.awake (inv.housed.awake running)) resumed
    simpa [stackCalls] using inv.quiet running (framed.trans continued)
  · exact inv.call running frugal

theorem inv_init (untouched : k.Untouched) : Inv ⟨k.init, []⟩ := by
  have bare (slot : Slot) : (k.init.tasks slot).kstacks = [] := by
    by_cases here : slot = 0 <;> simp [init, here, untouched.tasks, Task.free, Task.kstacks, held]
  refine ⟨⟨fun _ => by simp [init, currentTask, Task.Alive], ?_, ?_⟩, Ledger.freedOnce_nil, ?_⟩
  · intro slot _ stack member
    rw [bare] at member
    cases member
  · intro slot other _ _ _ stack member
    rw [bare] at member
    cases member
  · intro slot _ nonzero
    refine absurd ?_ nonzero
    by_cases here : slot = 0 <;> simp [init, here, untouched.tasks, Task.free]

/-- From `scheduler::init`, in a run in which no slot is taken over with a stack in its
record, new stacks lie in the region and exits return nothing else of a living task's
stack: no stack is freed more often than taken, and those of living tasks are allocated
and apart. -/
theorem stacks_kept_throughout {k : Kernel} (untouched : k.Untouched)
    {taken : List (Transition Kstacks Action)} {final : Kstacks}
    (run : Trace Steps ⟨k.init, []⟩ taken final)
    (frugal : Guarded (fun w action => w.kernel.Frugal action) taken) :
    Throughout Good ⟨k.init, []⟩ taken := by
  have kept := run.throughout_of_guarded Inv (inv_init untouched)
    (fun _ _ _ inv guard valid => inv.step guard valid) frugal
  exact ⟨kept.1.good, fun transition member => (kept.2 transition member).good⟩

/-- A task is spawned, runs and exits, and another one moves into the next slot. -/
theorem good_spawned :
    ∃ taken final, record step ⟨Watch.machine.init, []⟩
        [.spawn, .spawnUser Watch.program, .tick, .exit 0#32, .tick, .sysFork, .spawn] =
          some (taken, final) ∧
      final.ledger.length = 5 ∧ Throughout Good ⟨Watch.machine.init, []⟩ taken := by
  obtain ⟨⟨taken, final⟩, recorded, entries, guarded⟩ :
      ∃ run ∈ record step ⟨Watch.machine.init, []⟩
          [.spawn, .spawnUser Watch.program, .tick, .exit 0#32, .tick, .sysFork, .spawn],
        run.2.ledger.length = 5 ∧
          ∀ transition ∈ run.1, transition.before.kernel.Frugal transition.label := by
    decide +kernel
  exact ⟨taken, final, recorded, entries,
    stacks_kept_throughout ⟨rfl, rfl, rfl⟩ (trace_of_record recorded) guarded⟩

/-- A task is spawned, exits and is reaped. The next one gets the same stack, which the
record of the slot still names, and it is freed under the new task. -/
theorem stack_freed_in_use :
    Watch.machine.Untouched ∧ ∃ taken final,
      Trace Steps ⟨Watch.machine.init, []⟩ taken final ∧
        ¬ Throughout Good ⟨Watch.machine.init, []⟩ taken := by
  refine ⟨⟨rfl, rfl, rfl⟩, ?_⟩
  obtain ⟨⟨taken, final⟩, recorded, alive, stack, member, page, inStack, clear⟩ :
      ∃ run ∈ record step ⟨Watch.machine.init, []⟩
          [.spawn, .tick, .exit 0#32, .waitpid 0 0#64, .spawn],
        (run.2.kernel.tasks 1).Alive ∧ ∃ stack ∈ (run.2.kernel.tasks 1).kstacks,
          ∃ page ∈ pages stack kstackPages, ¬ Allocated run.2.kernel.phys.alloc page := by
    decide +kernel
  have run := trace_of_record recorded
  refine ⟨taken, final, run, fun good => clear ?_⟩
  exact (run.final_of_throughout good).marked 1 alive stack member page inStack

end Kstacks

end DBSos
