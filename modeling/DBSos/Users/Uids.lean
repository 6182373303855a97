import DBSos.Lib.Trace
import DBSos.Syscall.Files

/-!
# Whose uid a change of uid changes

`current_uid` yields the task's own uid, except for a task with id 0 and uid 0, which
is shown the global `CURRENT_UID`. Every change of uid writes the global as well, so
such a task sees the changes of all others as its own.
-/

namespace DBSos.Syscall

open DBSos.Lib DBSos.Scheduler DBSos.Users

variable {σ : Type}

namespace Machine

/-- `login`. -/
def login (m : Machine σ) (name password : List UInt8) : Bool × Machine σ :=
  if m.users.authenticate name password then
    match m.users.findByName name with
    | none => (false, m)
    | some u => (true, m.setCurrentUid u.uid)
  else (false, m)

/-- What `current_uid` yields when this slot's task is `CURRENT`. -/
def uidOf (m : Machine σ) (slot : Slot) : Nat :=
  uid { m with kernel := { m.kernel with current := slot } }

end Machine

/-- The calls that change uids, and the switches between them. -/
inductive UidCall where
  | setuid (arg : BitVec 64)
  | login (name password : List UInt8)
  | switch (next : Slot)

namespace Machine

/-- The uid that a call sets for its task, if it succeeds. -/
def granted (m : Machine σ) : UidCall → Option Nat
  | .setuid arg =>
    let uid := (arg.setWidth 32).toNat
    if m.uid = 0 ∧ ((m.findByUid uid).isSome ∨ uid = 0) then some uid else none
  | .login name password =>
    if m.users.authenticate name password then (m.users.findByName name).map User.uid else none
  | .switch _ => none

/-- The machine after a call; `none` when there is no such switch. -/
def after (m : Machine σ) : UidCall → Option (Machine σ)
  | .setuid arg =>
    match m.setuid arg with
    | .ret _ m => some m
    | _ => none
  | .login name password => some (m.login name password).2
  | .switch next => m.switch next

/-! ## What a call does to the uids that tasks are shown -/

variable {m m' : Machine σ} {slot : Slot} {call : UidCall}

theorem uidOf_eq (m : Machine σ) (slot : Slot) :
    m.uidOf slot =
      if (m.kernel.tasks slot).state ≠ .free ∧ ((m.kernel.tasks slot).id ≠ 0 ∨
          (m.kernel.tasks slot).uid ≠ 0 ∨ m.currentUid = 0) then (m.kernel.tasks slot).uid
      else m.currentUid := rfl

theorem setuid_eq (m : Machine σ) (arg : BitVec 64) :
    m.setuid arg = ((m.granted (.setuid arg)).map fun uid =>
      Reply.ret 0#64 (m.setCurrentUid uid)).getD (.fail m) := by
  simp only [setuid, granted]
  generalize (arg.setWidth 32).toNat = uid
  by_cases root : m.uid = 0
  · cases m.findByUid uid with
    | none => by_cases zero : uid = 0 <;> simp [root, zero]
    | some u => simp [root]
  · simp [root]

theorem login_eq (m : Machine σ) (name password : List UInt8) :
    (m.login name password).2 =
      ((m.granted (.login name password)).map m.setCurrentUid).getD m := by
  simp only [login, granted]
  split_ifs
  · cases m.users.findByName name <;> rfl
  · rfl

/-- A switch changes what is running and no uid. -/
theorem uidOf_switch {next : Slot} (switched : m.switch next = some m') (slot : Slot) :
    m'.uidOf slot = m.uidOf slot ∧
      ((m'.kernel.tasks slot).state = .free ↔ (m.kernel.tasks slot).state = .free) := by
  obtain ⟨state, record, free⟩ := switch_task switched slot
  have global : m'.currentUid = m.currentUid := by
    obtain ⟨kernel, rfl⟩ := switch_eq switched
    rfl
  refine ⟨?_, by rw [record]; exact free⟩
  simp only [uidOf_eq, record, ne_eq, free, global]

/-- A successful change of uid is `set_current_uid`; any other call leaves the uids of
all tasks, and which slots are free. -/
theorem after_cases (stepped : m.after call = some m') :
    (∃ uid, m.granted call = some uid ∧ m' = m.setCurrentUid uid) ∨
      (m.granted call = none ∧ ∀ slot, m'.uidOf slot = m.uidOf slot ∧
        ((m'.kernel.tasks slot).state = .free ↔ (m.kernel.tasks slot).state = .free)) := by
  cases call with
  | setuid arg =>
    rw [after, setuid_eq] at stepped
    cases grant : m.granted (.setuid arg) with
    | none =>
      rw [grant] at stepped
      obtain rfl := Option.some.inj stepped
      exact .inr ⟨rfl, fun _ => ⟨rfl, Iff.rfl⟩⟩
    | some uid =>
      rw [grant] at stepped
      exact .inl ⟨uid, rfl, (Option.some.inj stepped).symm⟩
  | login name password =>
    rw [after, login_eq] at stepped
    cases grant : m.granted (.login name password) with
    | none =>
      rw [grant] at stepped
      obtain rfl := Option.some.inj stepped
      exact .inr ⟨rfl, fun _ => ⟨rfl, Iff.rfl⟩⟩
    | some uid =>
      rw [grant] at stepped
      exact .inl ⟨uid, rfl, (Option.some.inj stepped).symm⟩
  | switch next => exact .inr ⟨rfl, uidOf_switch stepped⟩

/-- The task has id 0 and uid 0. -/
def Boot (t : Task) : Prop := t.state ≠ .free ∧ t.id = 0 ∧ t.uid = 0

instance (t : Task) : Decidable (Boot t) := inferInstanceAs (Decidable (_ ∧ _))

theorem uidOf_boot (boot : Boot (m.kernel.tasks slot)) : m.uidOf slot = m.currentUid := by
  obtain ⟨used, id, uid⟩ := boot
  rw [uidOf_eq, id, uid]
  split_ifs with zero
  · simpa using zero.2.elim nofun fun rest => (rest.elim nofun Eq.symm : 0 = m.currentUid)
  · rfl

theorem uidOf_not_boot (used : (m.kernel.tasks slot).state ≠ .free)
    (own : ¬ Boot (m.kernel.tasks slot)) : m.uidOf slot = (m.kernel.tasks slot).uid := by
  have told : (m.kernel.tasks slot).id ≠ 0 ∨ (m.kernel.tasks slot).uid ≠ 0 := by
    by_contra neither
    obtain ⟨id, uid⟩ := not_or.mp neither
    exact own ⟨used, not_not.mp id, not_not.mp uid⟩
  rw [uidOf_eq, if_pos ⟨used, told.imp_right .inl⟩]

theorem setCurrentUid_state (m : Machine σ) (uid : Nat) (slot : Slot) :
    ((m.setCurrentUid uid).kernel.tasks slot).state = (m.kernel.tasks slot).state := by
  by_cases here : slot = m.kernel.current
  · subst here
    simp [setCurrentUid, Kernel.modifyTask]
  · simp [setCurrentUid, Kernel.modifyTask, Function.update_of_ne here]

/-- The task itself is shown the uid that it set. -/
theorem uidOf_setCurrentUid_self (m : Machine σ) (uid : Nat) :
    (m.setCurrentUid uid).uidOf m.kernel.current = uid := by
  by_cases zero : uid = 0
  · simp [uidOf, Machine.uid, setCurrentUid, Kernel.currentTask, Kernel.modifyTask, zero]
  · simp [uidOf, Machine.uid, setCurrentUid, Kernel.currentTask, Kernel.modifyTask, zero]

/-- So is any other task with id 0 and uid 0, and nobody else. -/
theorem uidOf_setCurrentUid_other (used : (m.kernel.tasks slot).state ≠ .free)
    (other : slot ≠ m.kernel.current) (uid : Nat) :
    (m.setCurrentUid uid).uidOf slot =
      if Boot (m.kernel.tasks slot) then uid else m.uidOf slot := by
  have record : (m.setCurrentUid uid).kernel.tasks slot = m.kernel.tasks slot := by
    simp [setCurrentUid, Kernel.modifyTask, Function.update_of_ne other]
  split_ifs with boot
  · exact uidOf_boot (record ▸ boot)
  · rw [uidOf_not_boot (record ▸ used) (record ▸ boot), uidOf_not_boot used boot, record]

end Machine

/-- The machine; for each slot the uid that its task has last been given by a call of its
own, and whether the task has had another uid than 0 since it last logged in as root. -/
structure UidAudit (σ : Type) where
  machine : Machine σ
  own : Slot → Nat
  demoted : Slot → Bool

namespace UidAudit

variable {s s' : UidAudit σ} {call : UidCall}

/-- At the start every task has the uid it is shown. -/
def initial (m : Machine σ) : UidAudit σ where
  machine := m
  own := m.uidOf
  demoted slot := m.uidOf slot ≠ 0

/-- The call is a login with the credentials of a user with uid 0. -/
def asRoot (m : Machine σ) : UidCall → Bool
  | .login name password => m.granted (.login name password) = some 0
  | _ => false

/-- One call, and what the audit notes of it. -/
def step (s : UidAudit σ) (call : UidCall) : Option (UidAudit σ) := do
  let machine ← s.machine.after call
  let cur := s.machine.kernel.current
  some {
    machine
    own := match s.machine.granted call with
      | some uid => Function.update s.own cur uid
      | none => s.own
    demoted := fun slot =>
      if slot = cur ∧ asRoot s.machine call then false
      else s.demoted slot || decide (machine.uidOf slot ≠ 0) }

/-- Every task is shown the uid it was given, and one that had another uid than 0 gets 0
from a login as root only. -/
def Sealed (s : UidAudit σ) : Prop :=
  ∀ slot, (s.machine.kernel.tasks slot).state ≠ .free →
    s.machine.uidOf slot = s.own slot ∧ (s.demoted slot → s.machine.uidOf slot ≠ 0)

/-- A uid is given that `CURRENT_UID` has not already only while no other task has id 0
and uid 0. -/
def Unwatched (s : UidAudit σ) (call : UidCall) : Prop :=
  ∀ uid, s.machine.granted call = some uid → uid ≠ s.machine.currentUid →
    ∀ slot, slot ≠ s.machine.kernel.current → ¬ Machine.Boot (s.machine.kernel.tasks slot)

theorem initial_sealed (m : Machine σ) : (initial m).Sealed := by
  intro slot _
  exact ⟨rfl, fun demoted => of_decide_eq_true demoted⟩

/-- A login as root is the only call that gives uid 0 to a task that has another. -/
theorem granted_zero {m : Machine σ} {call : UidCall} (granted : m.granted call = some 0) :
    asRoot m call = true ∨ m.uid = 0 := by
  cases call with
  | setuid arg =>
    simp only [Machine.granted] at granted
    split_ifs at granted with allowed
    exact .inr allowed.1
  | login name password => exact .inl (decide_eq_true granted)
  | switch next => cases granted

theorem Sealed.step (inv : s.Sealed) (unwatched : s.Unwatched call)
    (stepped : s.step call = some s') : s'.Sealed := by
  obtain ⟨m', after, noted⟩ := Option.bind_eq_some_iff.mp stepped
  obtain rfl := Option.some.inj noted
  -- A task that is shown what it was shown before keeps both halves.
  have kept {slot : Slot} (used : (s.machine.kernel.tasks slot).state ≠ .free)
      (same : m'.uidOf slot = s.machine.uidOf slot) :
      m'.uidOf slot = s.own slot ∧
        ((if slot = s.machine.kernel.current ∧ asRoot s.machine call then false
          else s.demoted slot || decide (m'.uidOf slot ≠ 0)) = true → m'.uidOf slot ≠ 0) := by
    obtain ⟨own, demoted⟩ := inv slot used
    refine ⟨same.trans own, fun marked => ?_⟩
    split_ifs at marked
    rcases (Bool.or_eq_true _ _).mp marked with before | now
    · exact same ▸ demoted before
    · exact of_decide_eq_true now
  rcases Machine.after_cases after with ⟨uid, granted, rfl⟩ | ⟨refused, same⟩
  · intro slot used
    replace used : (s.machine.kernel.tasks slot).state ≠ .free := by
      rwa [Machine.setCurrentUid_state] at used
    simp only [granted]
    by_cases here : slot = s.machine.kernel.current
    · subst here
      rw [Function.update_self, Machine.uidOf_setCurrentUid_self]
      refine ⟨rfl, fun marked => ?_⟩
      rintro rfl
      rcases granted_zero granted with root | zero
      · simp [root] at marked
      · split_ifs at marked
        rcases (Bool.or_eq_true _ _).mp marked with before | now
        · exact (inv _ used).2 before zero
        · exact of_decide_eq_true now rfl
    · rw [Function.update_of_ne here]
      refine kept used ?_
      rw [Machine.uidOf_setCurrentUid_other used here]
      split_ifs with boot
      · rw [Machine.uidOf_boot boot]
        by_contra changed
        exact unwatched uid granted changed slot here boot
      · rfl
  · intro slot used
    simp only [refused]
    exact kept (fun free => used ((same slot).2.mpr free)) (same slot).1

/-- A uid that a task with id 0 and uid 0 looks on at becomes that task's as well. -/
theorem Sealed.broken (inv : s.Sealed) (watched : ¬ s.Unwatched call)
    (stepped : s.step call = some s') : ¬ s'.Sealed := by
  obtain ⟨m', after, noted⟩ := Option.bind_eq_some_iff.mp stepped
  obtain rfl := Option.some.inj noted
  simp only [Unwatched, not_forall, not_not] at watched
  obtain ⟨uid, granted, changed, slot, other, boot⟩ := watched
  rcases Machine.after_cases after with ⟨uid', granted', rfl⟩ | ⟨refused, _⟩
  · obtain rfl : uid = uid' := Option.some.inj (granted.symm.trans granted')
    intro sealed
    have used : ((s.machine.setCurrentUid uid).kernel.tasks slot).state ≠ .free := by
      rw [Machine.setCurrentUid_state]
      exact boot.1
    have own := (sealed slot used).1
    simp only [granted] at own
    rw [Machine.uidOf_setCurrentUid_other boot.1 other, if_pos boot, Function.update_of_ne other, ← (inv slot boot.1).1, Machine.uidOf_boot boot] at own
    exact changed own
  · rw [refused] at granted
    cases granted

instance (s : UidAudit σ) (call : UidCall) : Decidable (s.Unwatched call) :=
  decidable_of_iff (∀ uid ∈ s.machine.granted call, uid ≠ s.machine.currentUid →
    ∀ slot, slot ≠ s.machine.kernel.current → ¬ Machine.Boot (s.machine.kernel.tasks slot)) Iff.rfl

end UidAudit

/-- From any tasks and any `CURRENT_UID`: no call changes the uid that another task is
shown, and only a login as root brings a task back to uid 0, in every state of a run
exactly when no change of uid is made while another task with id 0 and uid 0 looks on. -/
theorem uids_sealed_iff {m : Machine σ} {taken : List (Transition (UidAudit σ) UidCall)}
    {final : UidAudit σ}
    (trace : Trace (fun s call next => s.step call = some next) (.initial m) taken final) :
    Throughout UidAudit.Sealed (.initial m) taken ↔ Guarded UidAudit.Unwatched taken :=
  trace.throughout_iff_guarded UidAudit.Sealed (UidAudit.initial_sealed m) (fun _ inv => inv)
    (fun _ _ _ inv unwatched stepped => inv.step unwatched stepped)
    (fun _ _ _ inv watched stepped => inv.broken watched stepped)

/-- The boot task and two others that run as root, one of them `CURRENT`, and the users
that `init` creates. -/
def threeRoots (current : Slot) : Machine Unit :=
  { oneTask with
    kernel :=
      { oneTask.kernel with
        current
        tasks := fun slot =>
          if slot.val < 3 then
            { Task.free with state := if slot = current then .running else .ready, id := slot.val }
          else Task.free }
    users := Table.init fun _ => 1 }

/-- The boot task logs in as `user`, task 1 takes uid 1000, and the boot task logs in as
root again. -/
theorem logins_sealed :
    ∃ taken final, record UidAudit.step (.initial (threeRoots 0))
        [.login Table.userName Table.userName, .switch 1, .setuid 1000#64, .switch 2, .switch 0,
          .login Table.rootName Table.rootName] = some (taken, final) ∧
      final.own 0 = 0 ∧ final.own 1 = 1000 ∧
        Throughout UidAudit.Sealed (.initial (threeRoots 0)) taken := by
  obtain ⟨⟨taken, final⟩, recorded, boot, one, guarded⟩ :
      ∃ run ∈ record UidAudit.step (.initial (threeRoots 0))
          [.login Table.userName Table.userName, .switch 1, .setuid 1000#64, .switch 2, .switch 0,
            .login Table.rootName Table.rootName],
        run.2.own 0 = 0 ∧ run.2.own 1 = 1000 ∧
            ∀ transition ∈ run.1, transition.before.Unwatched transition.label := by
    decide +kernel
  exact ⟨taken, final, recorded, boot, one,
    (uids_sealed_iff (trace_of_record recorded)).mpr guarded⟩

/-- Task 1 takes uid 1000 and the boot task is shown 1000; task 2 sets uid 0 for itself
and the boot task is root again. -/
theorem boot_task_follows :
    ∃ taken final, Trace (fun s call next => UidAudit.step s call = some next)
        (.initial (threeRoots 1)) taken final ∧
      (∃ transition ∈ taken, transition.after.machine.uidOf 0 = 1000) ∧
      final.machine.uidOf 0 = 0 ∧ final.demoted 0 = true ∧
      ¬ Throughout UidAudit.Sealed (.initial (threeRoots 1)) taken := by
  obtain ⟨⟨taken, final⟩, recorded, shown, used, root, demoted⟩ :
      ∃ run ∈ record UidAudit.step (.initial (threeRoots 1))
          [.setuid 1000#64, .switch 2, .setuid 0#64],
        (∃ transition ∈ run.1, transition.after.machine.uidOf 0 = 1000) ∧
          (run.2.machine.kernel.tasks 0).state ≠ .free ∧ run.2.machine.uidOf 0 = 0 ∧
          run.2.demoted 0 = true := by
    decide +kernel
  have run := trace_of_record recorded
  refine ⟨taken, final, run, shown, root, demoted, fun sealed => ?_⟩
  exact ((run.final_of_throughout sealed) 0 used).2 demoted root

end DBSos.Syscall
