import DBSos.Kernel

/-!
# The capability manager

The tables are indexed by task slot, the calls name tasks by id: a grant goes to
the first slot that is not free and holds the id. Nothing in the kernel calls
`freeAll`, so a table outlives the task it was filled for.
-/

namespace DBSos.Kernel

open DBSos.Abi DBSos.Scheduler DBSos.Cap

/-- Fill the first vacant slot of one table. -/
def allocIn (k : Kernel) (slot : Slot) (cap : Cap) : Kernel × Option Nat :=
  let (table, idx) := (k.capTables slot).alloc cap.capType cap.serverId cap.rights cap.data
  ({ k with capTables := Function.update k.capTables slot table }, idx)

/-- `cap::alloc`: for the current task. -/
def capAlloc (k : Kernel) (cap : Cap) : Kernel × Option Nat := k.allocIn k.current cap

/-- `cap::alloc_for`. -/
def capAllocFor (k : Kernel) (taskId : Nat) (cap : Cap) : Kernel × Option Nat :=
  match k.findTask taskId with
  | none => (k, none)
  | some slot => k.allocIn slot cap

/-- Only root hands capabilities to another user's task. -/
def mayShare (k : Kernel) (dst : Slot) : Bool :=
  ¬ (k.currentTask.uid ≠ 0 ∧ k.currentTask.uid ≠ (k.tasks dst).uid)

/-- `cap::duplicate`. -/
def capDuplicate (k : Kernel) (dstTaskId idx : Nat) : Kernel × Int :=
  match (k.capTables k.current).get idx with
  | none => (k, ipcErrBadCap)
  | some cap =>
    match k.findTask dstTaskId with
    | none => (k, ipcErrNoServer)
    | some dst =>
      if k.mayShare dst then
        match k.allocIn dst cap with
        | (k, some _) => (k, ipcOk)
        | (k, none) => (k, ipcErrNoMem)
      else (k, ipcErrDenied)

/-- `cap::transfer`: a grant that revokes the capability at its giver. -/
def capTransfer (k : Kernel) (dstTaskId idx : Nat) : Kernel × Int :=
  match (k.capTables k.current).get idx with
  | none => (k, ipcErrBadCap)
  | some cap =>
    match k.findTask dstTaskId with
    | none => (k, ipcErrNoServer)
    | some dst =>
      if k.mayShare dst then
        match k.allocIn dst cap with
        | (k, some _) =>
          ({ k with
              capTables := Function.update k.capTables k.current
                ((k.capTables k.current).free idx) },
            ipcOk)
        | (k, none) => (k, ipcErrNoMem)
      else (k, ipcErrDenied)

/-- `cap::free_all`. -/
def capFreeAll (k : Kernel) (taskId : Nat) : Kernel :=
  match k.findTask taskId with
  | none => k
  | some slot => { k with capTables := Function.update k.capTables slot CapTable.new }

/-- A grant to a task by id changes nothing or fills a slot of the table found
for that id. -/
def Grants (k : Kernel) (taskId : Nat) (after : Kernel) : Prop :=
  after = k ∨ ∃ slot cap, k.findTask taskId = some slot ∧ after = (k.allocIn slot cap).1

theorem capAllocFor_grants (k : Kernel) (taskId : Nat) (cap : Cap) :
    k.Grants taskId (k.capAllocFor taskId cap).1 := by
  unfold capAllocFor
  cases found : k.findTask taskId with
  | none => exact .inl rfl
  | some slot => exact .inr ⟨slot, cap, found, rfl⟩

theorem capDuplicate_grants (k : Kernel) (dstTaskId idx : Nat) :
    k.Grants dstTaskId (k.capDuplicate dstTaskId idx).1 := by
  unfold capDuplicate
  cases k.capTables k.current |>.get idx with
  | none => exact .inl rfl
  | some cap =>
    cases found : k.findTask dstTaskId with
    | none => exact .inl rfl
    | some dst =>
      by_cases shared : k.mayShare dst
      · refine .inr ⟨dst, cap, found, ?_⟩
        simp only [shared, if_true]
        split <;> simp_all
      · simp [shared, Grants]

/-- A transfer is a grant that may also clear one slot of the giver's table. -/
theorem capTransfer_grants (k : Kernel) (dstTaskId idx : Nat) :
    ∃ granted, k.Grants dstTaskId granted ∧
      ((k.capTransfer dstTaskId idx).1 = granted ∨
        (k.capTransfer dstTaskId idx).1 =
          { granted with
            capTables := Function.update granted.capTables k.current
              ((granted.capTables k.current).free idx) }) := by
  unfold capTransfer
  cases k.capTables k.current |>.get idx with
  | none => exact ⟨k, .inl rfl, .inl rfl⟩
  | some cap =>
    cases found : k.findTask dstTaskId with
    | none => exact ⟨k, .inl rfl, .inl rfl⟩
    | some dst =>
      by_cases shared : k.mayShare dst
      · refine ⟨(k.allocIn dst cap).1, .inr ⟨dst, cap, found, rfl⟩, ?_⟩
        simp only [shared, if_true]
        cases allocated : (k.allocIn dst cap).2 with
        | some free =>
          have split : k.allocIn dst cap = ((k.allocIn dst cap).1, some free) := by
            rw [← allocated]
          rw [split]
          exact .inr rfl
        | none =>
          have split : k.allocIn dst cap = ((k.allocIn dst cap).1, none) := by
            rw [← allocated]
          rw [split]
          exact .inl rfl
      · exact ⟨k, .inl rfl, .inl (by simp [shared])⟩

end DBSos.Kernel
