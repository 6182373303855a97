import DBSos.System
import DBSos.Lib.Trace
import Mathlib.Algebra.BigOperators.Fin

/-!
# Capabilities that change hands

`held` counts the valid capabilities of a table and `allHeld` those of all tables. A
transfer is an allocation, which adds one, and a release, which takes one away; a grant
by a user's task goes to a task of the same user.
-/

namespace DBSos

open DBSos.Abi DBSos.Scheduler DBSos.Lib

section Sums

variable {ι M : Type} [Fintype ι] [DecidableEq ι] [AddCommMonoid M]

/-- A sum with one term replaced. -/
theorem sum_update_add (f : ι → M) (i : ι) (b : M) :
    ∑ x, Function.update f i b x + f i = ∑ x, f x + b := by
  have replaced := Finset.sum_update_of_mem (Finset.mem_univ i) f b
  have kept := Finset.sum_update_of_mem (Finset.mem_univ i) f (f i)
  rw [Function.update_eq_self] at kept
  rw [replaced, kept, add_assoc, add_comm]
  exact congrArg (· + b) (add_comm _ _)

end Sums

namespace Cap

/-- What a slot counts for. -/
def counted (cap : Abi.Cap) : Multiset Abi.Cap := if cap.isValid then {cap} else 0

theorem counted_valid {cap : Abi.Cap} (valid : cap.isValid = true) : counted cap = {cap} :=
  if_pos valid

theorem counted_invalid {cap : Abi.Cap} (invalid : cap.isValid = false) : counted cap = 0 := by
  simp [counted, invalid]

namespace CapTable

variable {table : CapTable} {cap : Abi.Cap} {idx : Nat}

/-- The valid capabilities of a table, with their multiplicity. -/
def held (table : CapTable) : Multiset Abi.Cap := ∑ i, counted (table.caps i)

theorem held_update (table : CapTable) (i : Fin maxCapsPerProcess) (cap : Abi.Cap) :
    held ⟨Function.update table.caps i cap⟩ + counted (table.caps i) = held table + counted cap := by
  have comp : ∀ j, counted (Function.update table.caps i cap j) =
      Function.update (fun j => counted (table.caps j)) i (counted cap) j :=
    fun j => congrFun (Function.comp_update counted table.caps i cap) j
  simp only [held, comp]
  exact sum_update_add _ i (counted cap)

/-- An allocation adds its capability in a vacant slot, or there is none. -/
theorem alloc_cases (table : CapTable) (cap : Abi.Cap) :
    (table.alloc cap.capType cap.serverId cap.rights cap.data = (table, none)) ∨
    ∃ i : Fin maxCapsPerProcess, (table.caps i).isValid = false ∧
      table.alloc cap.capType cap.serverId cap.rights cap.data =
        (⟨Function.update table.caps i cap⟩, some i.val) ∧
      held ⟨Function.update table.caps i cap⟩ = held table + counted cap := by
  unfold alloc
  cases found : (List.finRange maxCapsPerProcess).find? fun i => !(table.caps i).isValid with
  | none => exact .inl rfl
  | some i =>
    have vacant : (table.caps i).isValid = false := by simpa using List.find?_some found
    refine .inr ⟨i, vacant, rfl, ?_⟩
    have sum := held_update table i cap
    rwa [counted_invalid vacant, add_zero] at sum

/-- The release of a valid capability takes it away and leaves the index empty. -/
theorem free_of_get (found : table.get idx = some cap) :
    held (table.free idx) + {cap} = held table ∧ (table.free idx).get idx = none := by
  have valid := get_isValid found
  unfold get at found
  split_ifs at found with bound holds
  obtain rfl := Option.some.inj found
  have sum := held_update table ⟨idx, bound⟩ Abi.Cap.null
  rw [counted_valid valid, counted_invalid Cap.isValid_null, add_zero] at sum
  rw [free, dif_pos bound]
  refine ⟨sum, ?_⟩
  rw [get, dif_pos bound, if_neg (by simp)]

/-- Filling a vacant slot does not disturb a capability at another index. -/
theorem get_update_vacant (found : table.get idx = some cap) {i : Fin maxCapsPerProcess}
    (vacant : (table.caps i).isValid = false) (new : Abi.Cap) :
    get ⟨Function.update table.caps i new⟩ idx = some cap := by
  have valid := get_isValid found
  unfold get at found ⊢
  split_ifs at found with bound holds
  have other : (⟨idx, bound⟩ : Fin maxCapsPerProcess) ≠ i := by
    rintro rfl
    rw [holds] at vacant
    cases vacant
  simp only [dif_pos bound, Function.update_of_ne other, if_pos holds]
  exact found

end CapTable

end Cap

open DBSos.Cap

namespace Kernel

variable {k k' : Kernel} {dst : Slot} {cap : Abi.Cap} {dstTaskId idx : Nat}

/-- The tables with one of them replaced. -/
def withCapTable (k : Kernel) (slot : Slot) (table : CapTable) : Kernel :=
  { k with capTables := Function.update k.capTables slot table }

@[simp] theorem withCapTable_same (k : Kernel) (slot : Slot) (table : CapTable) :
    (k.withCapTable slot table).capTables slot = table := Function.update_self _ _ _
theorem withCapTable_other (k : Kernel) {slot other : Slot} (table : CapTable)
    (differs : other ≠ slot) : (k.withCapTable slot table).capTables other = k.capTables other :=
  Function.update_of_ne differs _ _

/-- The valid capabilities of all tables. -/
def allHeld (k : Kernel) : Multiset Abi.Cap := ∑ slot, (k.capTables slot).held

theorem allHeld_withCapTable (k : Kernel) (slot : Slot) (table : CapTable) :
    (k.withCapTable slot table).allHeld + (k.capTables slot).held = k.allHeld + table.held := by
  have comp : ∀ s, (Function.update k.capTables slot table s).held =
      Function.update (fun s => (k.capTables s).held) slot table.held s :=
    fun s => congrFun (Function.comp_update CapTable.held k.capTables slot table) s
  simp only [allHeld, withCapTable, comp]
  exact sum_update_add _ slot table.held

/-- A table whose grant is counted holds that much more. -/
theorem allHeld_filled {table : CapTable} {more : Multiset Abi.Cap}
    (held : table.held = (k.capTables dst).held + more) :
    (k.withCapTable dst table).allHeld = k.allHeld + more := by
  have sum := k.allHeld_withCapTable dst table
  rw [held, add_comm (k.capTables dst).held more, ← add_assoc] at sum
  exact add_right_cancel sum

/-- A grant fails and changes nothing, or fills one vacant slot of one table. -/
theorem allocIn_cases (k : Kernel) (dst : Slot) (cap : Abi.Cap) :
    k.allocIn dst cap = (k, none) ∨
    ∃ i : Fin maxCapsPerProcess, ((k.capTables dst).caps i).isValid = false ∧
      k.allocIn dst cap =
        (k.withCapTable dst ⟨Function.update (k.capTables dst).caps i cap⟩, some i.val) ∧
      CapTable.held ⟨Function.update (k.capTables dst).caps i cap⟩ =
        (k.capTables dst).held + counted cap := by
  unfold allocIn
  rcases (k.capTables dst).alloc_cases cap with full | ⟨i, vacant, taken, more⟩
  · left
    simp only [full, Function.update_eq_self]
  · exact .inr ⟨i, vacant, by simp only [taken, withCapTable], more⟩

/-- One capability has gone from the current task's table to the table of `dst`. -/
structure Moved (k k' : Kernel) (dst : Slot) (idx : Nat) (cap : Abi.Cap) : Prop where
  conserved : k'.allHeld = k.allHeld
  emptied : (k'.capTables k.current).get idx = none
  gained : dst ≠ k.current → (k'.capTables dst).held = (k.capTables dst).held + {cap}
  given : dst ≠ k.current →
    (k'.capTables k.current).held + {cap} = (k.capTables k.current).held
  within : dst = k.current → (k'.capTables dst).held = (k.capTables dst).held
  others : ∀ slot, slot ≠ k.current → slot ≠ dst → k'.capTables slot = k.capTables slot

/-- An allocation at `dst` and a release at the current task make a move. -/
theorem moved_of_alloc (found : (k.capTables k.current).get idx = some cap)
    {i : Fin maxCapsPerProcess} (vacant : ((k.capTables dst).caps i).isValid = false)
    (more : CapTable.held ⟨Function.update (k.capTables dst).caps i cap⟩ =
      (k.capTables dst).held + {cap})
    (filled : k' = k.withCapTable dst ⟨Function.update (k.capTables dst).caps i cap⟩) :
    Moved k (k'.withCapTable k.current ((k'.capTables k.current).free idx)) dst idx cap := by
  have still : (k'.capTables k.current).get idx = some cap := by
    by_cases same : k.current = dst
    · rw [filled, same, withCapTable_same]
      exact CapTable.get_update_vacant (same ▸ found) vacant cap
    · rw [filled, withCapTable_other _ _ same]
      exact found
  obtain ⟨less, empty⟩ := CapTable.free_of_get still
  have added : k'.allHeld = k.allHeld + {cap} := filled ▸ allHeld_filled more
  constructor
  · have sum := k'.allHeld_withCapTable k.current ((k'.capTables k.current).free idx)
    rw [← less, added, ← add_assoc, add_right_comm k.allHeld] at sum
    exact add_right_cancel (add_right_cancel sum)
  · rw [withCapTable_same]
    exact empty
  · intro differs
    rw [withCapTable_other _ _ differs, filled, withCapTable_same]
    exact more
  · intro differs
    rw [withCapTable_same, less, filled, withCapTable_other _ _ differs.symm]
  · intro same
    have own : (k'.capTables k.current).held = (k.capTables k.current).held + {cap} := by
      rw [filled, ← same, withCapTable_same]
      exact more
    rw [own] at less
    rw [same, withCapTable_same]
    exact add_right_cancel less
  · intro slot notSource notDst
    rw [withCapTable_other _ _ notSource, filled, withCapTable_other _ _ notDst]

/-- Sharing with another user is for root alone. -/
theorem mayShare_iff : k.mayShare dst = true ↔
    (k.currentTask.uid ≠ 0 → (k.tasks dst).uid = k.currentTask.uid) := by
  unfold mayShare
  rw [decide_eq_true_iff]
  by_cases root : k.currentTask.uid = 0
  · simp [root]
  · simp [root, eq_comm]

/-- `duplicate` and `transfer` fail on the same calls and change nothing; else both grant the
capability, and a transfer takes it away from its giver. -/
theorem grant_cases (k : Kernel) (dstTaskId idx : Nat) :
    (∃ code, code ≠ ipcOk ∧ k.capDuplicate dstTaskId idx = (k, code) ∧
      k.capTransfer dstTaskId idx = (k, code)) ∨
    ∃ cap dst k', (k.capTables k.current).get idx = some cap ∧ k.findTask dstTaskId = some dst ∧
      k.mayShare dst = true ∧ k.capDuplicate dstTaskId idx = (k', ipcOk) ∧
      k.capTransfer dstTaskId idx =
        (k'.withCapTable k.current ((k'.capTables k.current).free idx), ipcOk) ∧
      ∃ i, ((k.capTables dst).caps i).isValid = false ∧
        k' = k.withCapTable dst ⟨Function.update (k.capTables dst).caps i cap⟩ ∧
        CapTable.held ⟨Function.update (k.capTables dst).caps i cap⟩ =
          (k.capTables dst).held + {cap} := by
  unfold capDuplicate capTransfer
  cases found : (k.capTables k.current).get idx with
  | none => exact .inl ⟨_, by decide, rfl, rfl⟩
  | some cap =>
    cases task : k.findTask dstTaskId with
    | none => exact .inl ⟨_, by decide, rfl, rfl⟩
    | some dst =>
      dsimp only
      split_ifs with shared
      · rcases k.allocIn_cases dst cap with full | ⟨i, vacant, taken, more⟩
        · rw [full]
          exact .inl ⟨_, by decide, rfl, rfl⟩
        · rw [taken]
          rw [counted_valid (CapTable.get_isValid found)] at more
          exact .inr ⟨cap, dst, _, rfl, rfl, shared, rfl, rfl, i, vacant, rfl, more⟩
      · exact .inl ⟨_, by decide, rfl, rfl⟩

/-- What `transfer` does, in all its cases. -/
theorem capTransfer_spec (k : Kernel) (dstTaskId idx : Nat) :
    (∃ code, code ≠ ipcOk ∧ k.capTransfer dstTaskId idx = (k, code)) ∨
    ∃ cap dst k', k.capTransfer dstTaskId idx = (k', ipcOk) ∧
      (k.capTables k.current).get idx = some cap ∧ k.findTask dstTaskId = some dst ∧
      k.mayShare dst = true ∧ k'.tasks = k.tasks ∧ Moved k k' dst idx cap := by
  rcases k.grant_cases dstTaskId idx with ⟨code, error, -, failed⟩ |
    ⟨cap, dst, k', found, task, shared, -, moved, i, vacant, filled, more⟩
  · exact .inl ⟨code, error, failed⟩
  · exact .inr ⟨cap, dst, _, moved, found, task, shared, filled ▸ rfl,
      moved_of_alloc found vacant more filled⟩

/-! ## Any sequence of calls -/

/-- A call by the task in a slot. -/
inductive Share where
  | transfer (caller : Slot) (dstTaskId idx : Nat)
  | duplicate (caller : Slot) (dstTaskId idx : Nat)

/-- Who calls. -/
def Share.caller : Share → Slot
  | transfer caller _ _ | duplicate caller _ _ => caller

/-- The call runs while its caller is the current task. -/
def share (k : Kernel) : Share → Kernel × Int
  | .transfer caller dstTaskId idx => { k with current := caller }.capTransfer dstTaskId idx
  | .duplicate caller dstTaskId idx => { k with current := caller }.capDuplicate dstTaskId idx

def Shares (k : Kernel) (call : Share) (k' : Kernel) : Prop := (k.share call).1 = k'

/-- A caller that is not root leaves the tables of other users' tasks alone; nobody's
uid changes. -/
def KeepsToUser (k : Kernel) (call : Share) (k' : Kernel) : Prop :=
  k'.tasks = k.tasks ∧
    ((k.tasks call.caller).uid ≠ 0 → ∀ slot, (k.tasks slot).uid ≠ (k.tasks call.caller).uid →
      k'.capTables slot = k.capTables slot)

theorem share_keepsToUser {call : Share} (shares : k.Shares call k') : KeepsToUser k call k' := by
  obtain rfl := shares
  cases call with
  | transfer caller dstTaskId idx =>
    rcases { k with current := caller }.capTransfer_spec dstTaskId idx with
      ⟨code, -, failed⟩ | ⟨cap, dst, k', moved, -, -, shared, tasks, move⟩
    · rw [share, failed]
      exact ⟨rfl, fun _ _ _ => rfl⟩
    · rw [share, moved]
      refine ⟨tasks, fun user slot other => move.others slot ?_ ?_⟩
      · rintro rfl
        exact other rfl
      · rintro rfl
        exact other (mayShare_iff.mp shared user)
  | duplicate caller dstTaskId idx =>
    rcases { k with current := caller }.grant_cases dstTaskId idx with
      ⟨code, -, failed, -⟩ | ⟨cap, dst, k', -, -, shared, copied, -, i, -, rfl, -⟩
    · rw [share, failed]
      exact ⟨rfl, fun _ _ _ => rfl⟩
    · rw [share, copied]
      refine ⟨rfl, fun user slot other => withCapTable_other _ _ ?_⟩
      rintro rfl
      exact other (mayShare_iff.mp shared user)

/-- A transfer fails and changes nothing, or moves exactly one capability; over every
sequence of transfers and duplications no user's task gives another user anything. -/
theorem capTransfer_conserves (k : Kernel) :
    (∀ dstTaskId idx,
      (∃ code, code ≠ ipcOk ∧ k.capTransfer dstTaskId idx = (k, code)) ∨
      ∃ cap dst k', k.capTransfer dstTaskId idx = (k', ipcOk) ∧
        (k.capTables k.current).get idx = some cap ∧ k.findTask dstTaskId = some dst ∧
        Moved k k' dst idx cap) ∧
    ∀ taken k', Trace Shares k taken k' → ∀ transition ∈ taken,
      KeepsToUser transition.before transition.label transition.after := by
  refine ⟨fun dstTaskId idx => ?_, fun taken k' trace transition member => ?_⟩
  · rcases k.capTransfer_spec dstTaskId idx with
      failed | ⟨cap, dst, k', moved, found, task, -, -, move⟩
    · exact .inl failed
    · exact .inr ⟨cap, dst, k', moved, found, task, move⟩
  · exact share_keepsToUser (trace.step_of_mem member)

/-- One task with id 1 that holds a capability to send, at index 0. -/
def holder : Kernel where
  tasks := fun slot => if slot = 0 then { Task.free with state := .running, id := 1 } else Task.free
  current := 0
  nextId := 2
  pending := fun _ => Message.empty
  capTables := fun _ => ⟨fun i => if i = 0 then ⟨CapType.ipcTarget.value, 1, capSend, 0⟩ else .null⟩
  phys := ⟨⟨0, fun _ => 0#8, 0, 0, 0, 0⟩, fun _ _ => 0#64⟩
  kernelPml4 := 0
  frames := fun _ => .outside
  halted := false

/-- A transfer of the task to itself succeeds, and its table holds no more than before. -/
theorem capTransfer_holder :
    ¬ ∀ (k : Kernel) (dstTaskId idx : Nat) (cap : Abi.Cap) (dst : Slot),
      (k.capTransfer dstTaskId idx).2 = ipcOk → (k.capTables k.current).get idx = some cap →
      k.findTask dstTaskId = some dst →
      ((k.capTransfer dstTaskId idx).1.capTables dst).held.count cap =
        (k.capTables dst).held.count cap + 1 := by
  intro claimed
  have succeeds : (holder.capTransfer 1 0).2 = ipcOk := by decide +kernel
  have itself : holder.findTask 1 = some 0 := by decide +kernel
  rcases holder.capTransfer_spec 1 0 with ⟨code, failed, same⟩ | ⟨cap, dst, k', moved, found, task,
    -, -, move⟩
  · rw [same] at succeeds
    exact failed succeeds
  · have more := claimed holder 1 0 cap dst succeeds found task
    rw [itself] at task
    obtain rfl := Option.some.inj task
    rw [moved, move.within rfl] at more
    omega

/-! ## Every run of the kernel -/

theorem allHeld_congr (same : k'.capTables = k.capTables) : k'.allHeld = k.allHeld := by
  rw [allHeld, same, allHeld]

theorem mem_allHeld {slot : Slot} (found : (k.capTables slot).get idx = some cap) :
    cap ∈ k.allHeld := by
  refine Multiset.mem_sum.mpr ⟨slot, Finset.mem_univ _, ?_⟩
  rw [← (CapTable.free_of_get found).1]
  exact Multiset.mem_add.mpr (.inr (Multiset.mem_singleton_self cap))

theorem mem_allHeld_allocIn {slot : Slot} {new : Abi.Cap}
    (held : cap ∈ (k.allocIn slot new).1.allHeld) : cap ∈ k.allHeld ∨ cap = new := by
  rcases k.allocIn_cases slot new with full | ⟨i, -, taken, more⟩
  · rw [full] at held
    exact .inl held
  · rw [taken, allHeld_filled more, Multiset.mem_add] at held
    refine held.imp_right fun counts => ?_
    unfold counted at counts
    split_ifs at counts
    · exact Multiset.mem_singleton.mp counts
    · cases counts

theorem reschedule_capTables (k : Kernel) : k.reschedule.capTables = k.capTables := by
  unfold reschedule
  dsimp only
  split_ifs <;> rfl

theorem resumeFrame_capTables {frame : Frame} (resumed : k.resumeFrame frame = some k') :
    k'.capTables = k.capTables := by
  cases frame <;> cases resumed
  case recvWithCap => unfold resumeRecv; split_ifs <;> rfl
  case waitpid => unfold resumeWaitpid; split_ifs <;> rfl
  all_goals rfl

theorem Creates.capTables {result : Kernel × Option Nat} (creates : k.Creates result) :
    result.1.capTables = k.capTables := by
  rcases creates with ⟨phys, rfl⟩ | ⟨slot, t, phys, -, -, rfl⟩ <;> rfl

/-- Only a grant puts a capability in a table that no table had. -/
theorem mem_allHeld_step {action : Action} (valid : k.Steps action k') (held : cap ∈ k'.allHeld) :
    cap ∈ k.allHeld ∨ action = .capAlloc cap ∨ ∃ taskId, action = .capAllocFor taskId cap := by
  rcases (step_cases valid).2 with ⟨-, rfl⟩ | ⟨-, resumed⟩ | ⟨-, -, -, rfl⟩
  · exact .inl (allHeld_congr k.reschedule_capTables ▸ held)
  · exact .inl (allHeld_congr ((resumeFrame_capTables resumed).trans rfl) ▸ held)
  cases action with
  | tick | resume => exact .inl held
  | spawn => exact .inl (allHeld_congr k.spawn_creates.capTables ▸ held)
  | spawnUser image => exact .inl (allHeld_congr (k.spawnUser_creates image).capTables ▸ held)
  | sysFork => exact .inl (allHeld_congr k.sysFork_creates.capTables ▸ held)
  | fork parentId => exact .inl (allHeld_congr (k.fork_creates parentId).capTables ▸ held)
  | capAlloc new =>
    rcases mem_allHeld_allocIn held with before | rfl
    · exact .inl before
    · exact .inr (.inl rfl)
  | capAllocFor taskId new =>
    simp only [call, capAllocFor] at held
    split at held
    · exact .inl held
    · rcases mem_allHeld_allocIn held with before | rfl
      · exact .inl before
      · exact .inr (.inr ⟨taskId, rfl⟩)
  | capDuplicate dstTaskId idx =>
    rcases k.grant_cases dstTaskId idx with
      ⟨code, -, failed, -⟩ | ⟨new, dst, k', found, -, -, copied, -, i, -, rfl, more⟩
    · rw [call, failed] at held
      exact .inl held
    · rw [call, copied, allHeld_filled more, Multiset.mem_add] at held
      exact .inl (held.elim id fun one => Multiset.mem_singleton.mp one ▸ mem_allHeld found)
  | capTransfer dstTaskId idx =>
    rcases k.capTransfer_spec dstTaskId idx with
      ⟨code, -, failed⟩ | ⟨new, dst, k', moved, -, -, -, -, move⟩
    · rw [call, failed] at held
      exact .inl held
    · rw [call, moved, move.conserved] at held
      exact .inl held
  | _ =>
    refine .inl (allHeld_congr ?_ ▸ held)
    simp only [call, sendWithCap, recvWithCap, ipcSend, ipcRecv, waitpid, exitWithStatus, markExited]
    repeat' split
    all_goals first | rfl | exact reschedule_capTables _

/-- No capability is forged: what a table has after a run was in a table at its start, or a grant
of the run put it there. -/
theorem caps_unforged {taken : List (Transition Kernel Action)} (run : Trace Steps k taken k')
    (held : cap ∈ k'.allHeld) :
    cap ∈ k.allHeld ∨ ∃ t ∈ taken, t.label = .capAlloc cap ∨
      ∃ taskId, t.label = .capAllocFor taskId cap := by
  induction run with
  | nil => exact .inl held
  | snoc prior valid ih =>
    rcases mem_allHeld_step valid held with before | granted
    · exact (ih before).imp_right fun ⟨t, member, label⟩ => ⟨t, List.mem_append_left _ member, label⟩
    · exact .inr ⟨_, List.mem_append_right _ (.head _), granted⟩

set_option maxRecDepth 1000 in
/-- The capability that a run puts at index 1 is the one it grants. -/
theorem caps_unforged_holder :
    let spare : Abi.Cap := ⟨CapType.ipcTarget.value, 2, capSend, 0⟩
    spare ∈ holder.allHeld ∨
      ∃ t ∈ [Transition.mk holder (Action.capAlloc spare) (holder.capAlloc spare).1],
        t.label = Action.capAlloc spare ∨ ∃ taskId, t.label = Action.capAllocFor taskId spare := by
  intro spare
  have valid : holder.Steps (.capAlloc spare) (holder.capAlloc spare).1 := rfl
  have found : ((holder.capAlloc spare).1.capTables 0).get 1 = some spare := by decide +kernel
  exact caps_unforged (.snoc .nil valid) (mem_allHeld found)

end Kernel

end DBSos
