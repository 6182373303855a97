import DBSos.Syscall.Dispatch
import DBSos.Vm.UserAccess

/-!
# What the handlers do with pointers

Most handlers read and write wherever the caller points. `SYS_LOG_WRITE`, `SYS_READ` and
`SYS_WRITE` ask `user_range_ok` first, which does not ask whether a page is writable.
-/

namespace DBSos.Syscall

open DBSos.Abi DBSos.Scheduler DBSos.Vm

variable {σ : Type}

/-- Bytes that a handler reads or writes through a pointer of the caller. -/
structure Access where
  ptr : BitVec 64
  len : Nat
  write : Bool
deriving DecidableEq

namespace Access

/-- The address of byte `i`. -/
def addr (access : Access) (i : Nat) : BitVec 64 := access.ptr + BitVec.ofNat 64 i

/-- The current task may do the same. -/
def Good (m : Machine σ) (access : Access) : Prop :=
  ∀ i < access.len, UserAccess m.kernel.phys.mem m.kernel.currentTask.pml4 access.write
    (access.addr i)

instance (m : Machine σ) (access : Access) : Decidable (access.Good m) :=
  inferInstanceAs (Decidable (∀ i < _, _))

/-- The range runs past the end of the address space. -/
def Wraps (range : Access) : Prop := 2 ^ 64 ≤ range.ptr.toNat + range.len

end Access

/-- The bytes of a `Message`. -/
def messageSize : Nat := 12 + payloadSize

namespace Machine

variable (env : Services σ) (m : Machine σ)

/-- The loops that copy a path. -/
def pathAccesses (ptr len : BitVec 64) : List Access :=
  if PathLen len then [⟨ptr, len.toNat, false⟩] else []

/-- The accesses of `SYS_READ`. -/
def readFileAccesses (idx buf count : BitVec 64) : List Access :=
  match m.fd idx with
  | none => []
  | some (_, entry) =>
    let toRead := min count.toNat (entry.size.toNat - entry.offset.toNat)
    if toRead = 0 ∨ m.userRangeOk buf toRead = false then []
    else
      let (vfsFd, m) := env.vfsOpen (fdName entry) 0#64 m
      if vfsFd.toInt < 0 then []
      else
        let n := (env.vfsRead vfsFd (min toRead 4096)
          (env.vfsLseek vfsFd (entry.offset.setWidth 64) m)).1
        if n.toInt ≤ 0 ∨ n.toNat > 4096 then [] else [⟨buf, n.toNat, true⟩]

/-- `SYS_WRITE` gets as far as the check of the range. -/
def OpenForWriting (idx : BitVec 64) : Prop :=
  ∃ found, m.fd idx = some found ∧
    ¬ (found.2.flags &&& 1#64 = 0#64 ∧ found.2.flags &&& 2#64 = 0#64)

instance (idx : BitVec 64) : Decidable (m.OpenForWriting idx) :=
  decidable_of_iff (∃ found ∈ m.fd idx,
    ¬ (found.2.flags &&& 1#64 = 0#64 ∧ found.2.flags &&& 2#64 = 0#64)) Iff.rfl

/-- The entries that `SYS_READDIR` writes, each of them 28 bytes out of 32. -/
def readdirAccesses (ptr len entries maxEntries : BitVec 64) : List Access :=
  let n := (env.vfsReaddir (m.readBytes ptr len.toNat) m).1
  if n.toInt < 0 then []
  else
    (List.range (min (min n.toNat maxEntries.toNat) 64)).map fun i =>
      ⟨entries + BitVec.ofNat 64 (i * 32), 28, true⟩

/-- The status that `SYS_WAITPID` writes. -/
def statusAccesses (result : Kernel.Waited) : List Access :=
  result.status.elim [] fun status => [⟨status.1, 4, true⟩]

/-- The `sockaddr_in` and the length that a successful `SYS_ACCEPT` writes. -/
def acceptAccesses (idx sockaddr addrlen : BitVec 64) : List Access :=
  match m.accept env idx sockaddr addrlen with
  | .ret value _ =>
    if value = exitMagic ∨ sockaddr = 0#64 then []
    else ⟨sockaddr, 16, true⟩ :: if addrlen = 0#64 then [] else [⟨addrlen, 4, true⟩]
  | _ => []

end Machine

namespace Number

/-- The accesses of an arm of the dispatcher, in order, up to its return or its `yield_now`. -/
def accesses (env : Services σ) (m : Machine σ) (arg1 arg2 arg3 arg4 : BitVec 64) :
    Number → List Access
  | .ipcSend => if m.kernel.capValidate (Machine.capIdx arg1) capSend then
        [⟨arg2, messageSize, false⟩]
      else []
  | .ipcRecv => if m.kernel.capValidate (Machine.capIdx arg1) capRecv then
        match m.kernel.recvWithCap (Machine.capIdx arg1) with
        | .ret _ _ => [⟨arg2, messageSize, true⟩]
        | .yield _ _ => []
      else []
  | .logWrite => if m.userRangeOk arg1 arg2.toNat then [⟨arg1, min arg2.toNat 256, false⟩] else []
  | .openFile | .mkdir | .rmdir | .unlink | .chdir | .exec | .chmod => Machine.pathAccesses arg1 arg2
  | .chown => if m.uid = 0 then Machine.pathAccesses arg1 arg2 else []
  | .readFile => m.readFileAccesses env arg1 arg2 arg3
  | .writeFile => if m.OpenForWriting arg1 ∧ m.userRangeOk arg2 arg3.toNat then
        [⟨arg2, min arg3.toNat 4096, false⟩]
      else []
  | .readdir => if Machine.PathLen arg2 then
        ⟨arg1, arg2.toNat, false⟩ :: m.readdirAccesses env arg1 arg2 arg3 arg4
      else []
  | .waitpid =>
    match m.kernel.waitpid arg1.toNat arg2 with
    | .ret _ result => Machine.statusAccesses result
    | .yield _ _ => []
  | .pipe => match m.pipe env arg1 with
      | .ret value _ => if value = 0#64 then [⟨arg1, 8, true⟩] else []
      | _ => []
  | .getcwd => if arg2 = 0#64 then []
      else [⟨arg1, ((env.cwdGet m).take (arg2.toNat - 1)).length + 1, true⟩]
  | .bind => if (m.fd arg1).isSome then [⟨arg2 + 2#64, 2, false⟩] else []
  | .accept => m.acceptAccesses env arg1 arg2 arg3
  | .connect => if (m.fd arg1).isSome then [⟨arg2 + 2#64, 2, false⟩, ⟨arg2 + 4#64, 4, false⟩] else []
  | .send => if (m.fd arg1).isSome then [⟨arg2, min arg3.toNat 1400, false⟩] else []
  | .recv => (m.fd arg1).elim [] fun found =>
    let n := (env.tcpRecv (Machine.connOf found.2) m).1
    if n.val = 0 then [] else [⟨arg2, min n.val arg3.toNat, true⟩]
  | .fbInfo => if arg1 = 0#64 ∨ m.fbSize = none then [] else [⟨arg1, 48, true⟩]
  | _ => []

/-- The memory that a call is given: its pointers, each with the length that comes with it or
the size of what it points to. -/
def given (arg1 arg2 arg3 arg4 : BitVec 64) : Number → List Access
  | .ipcSend => [⟨arg2, messageSize, false⟩]
  | .ipcRecv => [⟨arg2, messageSize, true⟩]
  | .logWrite | .openFile | .mkdir | .rmdir | .unlink | .chdir | .exec | .chmod | .chown =>
    [⟨arg1, arg2.toNat, false⟩]
  | .readFile | .recv => [⟨arg2, arg3.toNat, true⟩]
  | .writeFile | .send => [⟨arg2, arg3.toNat, false⟩]
  | .readdir => [⟨arg1, arg2.toNat, false⟩, ⟨arg3, arg4.toNat * 32, true⟩]
  | .waitpid => if arg2 = 0#64 then [] else [⟨arg2, 4, true⟩]
  | .pipe => [⟨arg1, 8, true⟩]
  | .getcwd => [⟨arg1, arg2.toNat, true⟩]
  | .bind => [⟨arg2 + 2#64, 2, false⟩]
  | .accept => if arg2 = 0#64 then []
      else ⟨arg2, 16, true⟩ :: if arg3 = 0#64 then [] else [⟨arg3, 4, true⟩]
  | .connect => [⟨arg2 + 2#64, 2, false⟩, ⟨arg2 + 4#64, 4, false⟩]
  | .fbInfo => [⟨arg1, 48, true⟩]
  | _ => []

end Number

/-- The accesses behind the `yield_now` of a call. -/
def Continuation.accesses (m : Machine σ) : Continuation → List Access
  | .ipcRecv buf => [⟨buf, messageSize, true⟩]
  | .waitpid statusPtr =>
    Machine.statusAccesses ((m.kernel.setFrame .outside).resumeWaitpid statusPtr).2
  | _ => []

/-- A system call, or the rest of one behind its `yield_now`. -/
inductive Visit where
  | call (num arg1 arg2 arg3 arg4 : BitVec 64)
  | resume (continuation : Continuation)

namespace Visit

variable (env : Services σ) (m : Machine σ)

def accesses : Visit → List Access
  | .call num arg1 arg2 arg3 arg4 =>
    (Number.ofNum num).elim [] fun number => number.accesses env m arg1 arg2 arg3 arg4
  | .resume continuation => continuation.accesses m

/-- A new call is not one for the Linux personality. -/
def Native : Visit → Prop
  | .call num arg1 arg2 arg3 arg4 => env.handleSyscall m num arg1 arg2 arg3 arg4 = none
  | .resume _ => True

/-- The call returns an error, without an access to the range and with nothing changed. -/
def Refused (num arg1 arg2 arg3 arg4 : BitVec 64) (range : Access) : Prop :=
  (∀ access ∈ (Visit.call num arg1 arg2 arg3 arg4).accesses env m, access.write = range.write →
      ∀ i < access.len, ∀ j < range.len, access.addr i ≠ range.addr j) ∧
    ∃ value, syscallRustEntry env m num arg1 arg2 arg3 arg4 = .ret value m ∧ value.toInt < 0

/-- The kernel accesses what the task may access itself, and refuses other pointers, and lengths
that wrap. -/
def Respects (visit : Visit) : Prop :=
  (∀ access ∈ visit.accesses env m, access.Good m) ∧
    match visit with
    | .call num arg1 arg2 arg3 arg4 =>
      ∀ number, Number.ofNum num = some number → ∀ range ∈ number.given arg1 arg2 arg3 arg4,
        ¬ range.Good m ∨ range.Wraps → Refused env m num arg1 arg2 arg3 arg4 range
    | .resume _ => True

end Visit

/-! ## What it takes -/

namespace Machine

variable (env : Services σ) (m : Machine σ)

/-- `SYS_READ` fails before it writes, on a machine as it was. -/
def ReadFails (idx buf count : BitVec 64) : Prop :=
  ∀ found, m.fd idx = some found →
    let toRead := min count.toNat (found.2.size.toNat - found.2.offset.toNat)
    toRead ≠ 0 ∧ (m.userRangeOk buf toRead = false ∨
      let (vfsFd, opened) := env.vfsOpen (fdName found.2) 0#64 m
      if vfsFd.toInt < 0 then opened = m
      else
        let (n, _, after) := env.vfsRead vfsFd (min toRead 4096)
          (env.vfsLseek vfsFd (found.2.offset.setWidth 64) opened)
        n.toInt < 0 ∧ env.vfsClose vfsFd after = m)

/-- `vfs_readdir` fails on a machine as it was. -/
def ReaddirFails (ptr len : BitVec 64) : Prop :=
  let (n, _, after) := env.vfsReaddir (m.readBytes ptr len.toNat) m
  n.toInt < 0 ∧ after = m

/-- `SYS_PIPE` finds no memory or no descriptors, and leaves the machine as it was. -/
def PipeFails : Prop :=
  let (buf, after) := env.kmalloc 4096 m
  if buf = 0#64 then after = m
  else
    match after.freeFd with
    | none => env.kfree buf after = m
    | some slot =>
      let full := after.setFd slot ⟨true, pipeName buf, 0#32, 0#32, 0#64⟩
      full.freeFd = none ∧ (env.kfree buf full).setFd slot FdEntry.empty = m

/-- `SYS_ACCEPT` has no socket, no connection or no descriptor. -/
def AcceptFails (idx : BitVec 64) : Prop :=
  ∀ found, m.fd idx = some found →
    env.tcpFindAccepted (found.2.size.setWidth 16) m = none ∨ m.freeFd = none

end Machine

namespace Number

/-- The call fails before it comes to the pointers it is given. -/
def Declines (env : Services σ) (m : Machine σ) (arg1 arg2 arg3 : BitVec 64) : Number → Prop
  | .ipcSend => m.kernel.capValidate (Machine.capIdx arg1) capSend = false
  | .ipcRecv => m.kernel.capValidate (Machine.capIdx arg1) capRecv = false
  | .logWrite => m.userRangeOk arg1 arg2.toNat = false
  | .writeFile => ¬ (m.OpenForWriting arg1 ∧ m.userRangeOk arg2 arg3.toNat = true)
  | .openFile | .mkdir | .rmdir | .unlink | .chdir | .exec | .chmod => ¬ Machine.PathLen arg2
  | .chown => ¬ (Machine.PathLen arg2 ∧ m.uid = 0)
  | .readFile => m.ReadFails env arg1 arg2 arg3
  | .readdir => ¬ Machine.PathLen arg2 ∨
      (Access.mk arg1 arg2.toNat false).Good m ∧ m.ReaddirFails env arg1 arg2
  | .pipe => m.PipeFails env
  | .accept => m.AcceptFails env arg1
  | .bind | .connect | .send | .recv => m.fd arg1 = none
  | .fbInfo => arg1 = 0#64
  | _ => False

/-- The entries above the last one let user code through in the whole range. -/
def GrantedAbove (m : Machine σ) (ptr len : BitVec 64) : Prop :=
  ∀ i < len.toNat, Vm.GrantedAbove m.kernel.phys.mem m.kernel.currentTask.pml4 false
    (ptr + BitVec.ofNat 64 i)

/-- The condition on a call. Only `SYS_LOG_WRITE` and `SYS_WRITE` do not leave it to the caller
what the pointers are. -/
def Careful (env : Services σ) (m : Machine σ) (arg1 arg2 arg3 arg4 : BitVec 64) (number : Number) :
    Prop :=
  match number with
  | .logWrite => m.userRangeOk arg1 arg2.toNat = true → GrantedAbove m arg1 arg2
  | .writeFile => m.OpenForWriting arg1 → m.userRangeOk arg2 arg3.toNat = true →
      GrantedAbove m arg2 arg3
  | .readFile => Machine.ReadFails env m arg1 arg2 arg3 ∨ (Access.mk arg2 arg3.toNat true).Good m ∧
      ∀ access ∈ m.readFileAccesses env arg1 arg2 arg3, access.Good m
  | number => number.Declines env m arg1 arg2 arg3 ∨
      ∀ range ∈ number.given arg1 arg2 arg3 arg4, range.Good m

end Number

namespace Access

variable {m : Machine σ} {range access : Access}

/-- The bytes are some of a range. -/
structure Within (access range : Access) : Prop where
  write : access.write = range.write
  inside : ∃ k, access.ptr = range.ptr + BitVec.ofNat 64 k ∧ k + access.len ≤ range.len

theorem Within.start {ptr : BitVec 64} {len n : Nat} {write : Bool} (shorter : len ≤ n) :
    Within ⟨ptr, len, write⟩ ⟨ptr, n, write⟩ :=
  ⟨rfl, 0, (BitVec.add_zero ptr).symm, by simpa using shorter⟩

theorem Within.good (within : access.Within range) (good : range.Good m) : access.Good m := by
  obtain ⟨same, k, at_, fits⟩ := within
  intro i inside
  have byte := good (k + i) (by omega)
  rwa [addr, BitVec.ofNat_add, ← BitVec.add_assoc, ← at_, ← same] at byte

/-- A range that is not empty has its first byte accessed. -/
theorem not_good_nonempty (bad : ¬ range.Good m) : 0 < range.len := by
  by_contra empty
  exact bad fun i inside => absurd inside (by omega)

/-- A range that wraps has a byte outside the user half. -/
theorem not_good_of_wraps (wraps : range.Wraps) : ¬ range.Good m := by
  intro good
  have small := range.ptr.isLt
  unfold Wraps at wraps
  have low := (good (userTop - range.ptr.toNat) (by unfold userTop; omega)).low
  rw [addr, BitVec.toNat_add, BitVec.toNat_ofNat] at low
  unfold userTop at low
  by_cases above : range.ptr.toNat < 0x800000000000
  · omega
  · rw [Nat.sub_eq_zero_of_le (by omega)] at low
    omega

end Access

namespace Machine

variable {env : Services σ} {m : Machine σ}

/-- A range that passes the check is accessible where the entries above the last one grant it. -/
theorem good_iff_grantedAbove {ptr len : BitVec 64} (space : m.kernel.currentTask.pml4 ≠ 0)
    (check : m.userRangeOk ptr len.toNat = true) :
    (Access.mk ptr len.toNat false).Good m ↔ Number.GrantedAbove m ptr len := by
  unfold userRangeOk at check
  rw [if_neg space] at check
  split_ifs at check with empty
  · constructor <;> exact fun _ i inside => absurd inside (by simp [empty])
  · exact forall₂_congr fun i inside => userAccess_iff_grantedAbove check inside

theorem readFile_of_fails {idx buf count : BitVec 64} (fails : m.ReadFails env idx buf count) :
    m.readFile env idx buf count = .fail m ∧ m.readFileAccesses env idx buf count = [] := by
  unfold readFile readFileAccesses withFd
  cases open_ : m.fd idx with
  | none => exact ⟨rfl, rfl⟩
  | some found =>
    obtain ⟨slot, entry⟩ := found
    obtain ⟨toRead, asked⟩ : ∃ toRead, min count.toNat (entry.size.toNat - entry.offset.toNat) =
      toRead := ⟨_, rfl⟩
    have fails := fails (slot, entry) open_
    rcases opened : env.vfsOpen (fdName entry) 0#64 m with ⟨vfsFd, after⟩
    rcases read : env.vfsRead vfsFd (min toRead 4096)
      (env.vfsLseek vfsFd (entry.offset.setWidth 64) after) with ⟨n, bytes, left⟩
    simp only [asked, opened, read] at fails ⊢
    obtain ⟨some_, refused | fails⟩ := fails
    · simp only [some_, refused, Bool.false_eq_true, or_true, if_false, if_true, and_self]
    cases check : m.userRangeOk buf toRead with
    | false => simp only [some_, Bool.false_eq_true, or_true, if_false, if_true, and_self]
    | true =>
      simp only [some_, Bool.true_eq_false, or_false, if_false, if_true]
      by_cases closed : vfsFd.toInt < 0
      · rw [if_pos closed] at fails
        simp only [closed, if_true, fails, and_self]
      · rw [if_neg closed] at fails
        obtain ⟨negative, same⟩ := fails
        have notZero : n ≠ 0#64 := by
          rintro rfl
          exact absurd negative (by decide)
        simp only [closed, notZero, negative, negative.le, same, if_false, if_true, true_or,
          and_self]

theorem fails_of_readFile {idx buf count value : BitVec 64}
    (returned : m.readFile env idx buf count = .ret value m) (negative : value.toInt < 0) :
    m.ReadFails env idx buf count := by
  rintro ⟨slot, entry⟩ open_
  unfold readFile withFd at returned
  rw [open_] at returned
  obtain ⟨toRead, asked⟩ : ∃ toRead, min count.toNat (entry.size.toNat - entry.offset.toNat) =
    toRead := ⟨_, rfl⟩
  rcases opened : env.vfsOpen (fdName entry) 0#64 m with ⟨vfsFd, after⟩
  rcases read : env.vfsRead vfsFd (min toRead 4096)
    (env.vfsLseek vfsFd (entry.offset.setWidth 64) after) with ⟨n, bytes, left⟩
  simp only [asked, opened, read] at returned ⊢
  split_ifs at returned with empty check closed zero failed large
  · cases returned
    exact absurd negative (by decide)
  · cases returned
    exact ⟨empty, .inr (by rw [if_pos closed])⟩
  · cases returned
    exact absurd negative (by decide)
  · cases returned
    exact ⟨empty, .inr (by rw [if_neg closed]; exact ⟨failed, rfl⟩)⟩
  · split at returned
    · cases returned
    · cases returned
      exact absurd negative failed
  · exact ⟨empty, .inl (Bool.of_not_eq_true check)⟩

theorem fails_of_pipe {fdsPtr value : BitVec 64} (returned : m.pipe env fdsPtr = .ret value m)
    (negative : value.toInt < 0) : m.PipeFails env := by
  unfold pipe at returned
  unfold PipeFails
  rcases allocated : env.kmalloc 4096 m with ⟨buf, after⟩
  simp only [allocated] at returned ⊢
  split_ifs at returned ⊢ with null
  · cases returned
    rfl
  · cases free : after.freeFd with
    | none =>
      simp only [free] at returned ⊢
      cases returned
      rfl
    | some slot =>
      simp only [free] at returned ⊢
      split at returned
      · next full =>
        cases returned
        exact ⟨full, rfl⟩
      · cases returned
        exact absurd negative (by decide)

theorem pipe_of_fails {fdsPtr : BitVec 64} (fails : m.PipeFails env) :
    m.pipe env fdsPtr = .fail m := by
  unfold PipeFails at fails
  unfold pipe
  generalize env.kmalloc 4096 m = allocated at fails ⊢
  dsimp only at fails ⊢
  split_ifs at fails ⊢ with null
  · rw [fails]
  · cases free : allocated.2.freeFd with
    | none =>
      simp only [free] at fails ⊢
      rw [fails]
    | some slot =>
      simp only [free] at fails ⊢
      simp only [fails.1, fails.2]

theorem accept_of_fails {idx sockaddr addrlen : BitVec 64} (fails : m.AcceptFails env idx) :
    m.accept env idx sockaddr addrlen = .fail m := by
  unfold accept withFd
  cases open_ : m.fd idx with
  | none => rfl
  | some found =>
    dsimp only
    cases accepted : env.tcpFindAccepted (found.2.size.setWidth 16) m with
    | none => rfl
    | some conn =>
      rcases fails found open_ with none | none
      · rw [accepted] at none
        cases none
      · simp only [none]

/-- A small number is no error value. -/
theorem nonneg_of_small {n : Nat} (small : n < 2 ^ 63) : ¬ (BitVec.ofNat 64 n).toInt < 0 := by
  rw [BitVec.toInt_eq_toNat_of_lt (by rw [BitVec.toNat_ofNat]; omega)]
  omega

theorem fails_of_accept {idx sockaddr addrlen value : BitVec 64}
    (returned : m.accept env idx sockaddr addrlen = .ret value m) (negative : value.toInt < 0) :
    m.AcceptFails env idx := by
  rintro ⟨slot, entry⟩ open_
  unfold accept withFd at returned
  rw [open_] at returned
  dsimp only at returned ⊢
  cases accepted : env.tcpFindAccepted (entry.size.setWidth 16) m with
  | none => exact .inl rfl
  | some conn =>
    right
    cases free : m.freeFd with
    | none => rfl
    | some new =>
      rw [accepted, free] at returned
      dsimp only at returned
      obtain ⟨rfl, -⟩ := Reply.ret.inj returned
      have small : new.val < maxFds := new.isLt
      exact absurd negative (nonneg_of_small (small.trans (by decide)))

end Machine

namespace Number

variable {env : Services σ} {m : Machine σ} {arg1 arg2 arg3 arg4 : BitVec 64} {number : Number}

/-- The bytes that a call accesses are some of those it is given. `SYS_READ` relies on the file
system for that. -/
theorem accesses_within (notRead : number ≠ .readFile) :
    ∀ access ∈ number.accesses env m arg1 arg2 arg3 arg4,
      ∃ range ∈ number.given arg1 arg2 arg3 arg4, access.Within range := by
  have self (access : Access) : access.Within access := .start le_rfl
  have path : ∀ access ∈ Machine.pathAccesses arg1 arg2,
      access.Within ⟨arg1, arg2.toNat, false⟩ := by
    unfold Machine.pathAccesses
    split_ifs <;> simp [self]
  cases number
  case readFile => exact absurd rfl notRead
  case readdir =>
    simp only [accesses, given]
    split_ifs with short
    swap
    · exact nofun
    intro access member
    rcases List.mem_cons.mp member with rfl | member
    · exact ⟨_, List.mem_cons_self, self _⟩
    · refine ⟨_, List.mem_cons_of_mem _ List.mem_cons_self, ?_⟩
      unfold Machine.readdirAccesses at member
      dsimp only at member
      split_ifs at member
      · cases member
      · obtain ⟨i, low, rfl⟩ := List.mem_map.mp member
        rw [List.mem_range] at low
        exact ⟨rfl, i * 32, rfl, by dsimp only; omega⟩
  case waitpid =>
    simp only [accesses, given, Kernel.waitpid]
    cases m.kernel.exitedChild arg1.toNat with
    | none => exact nofun
    | some slot =>
      by_cases null : arg2 = 0#64 <;> simp [Kernel.reap, Machine.statusAccesses, null, self]
  case accept =>
    simp only [accesses, given, Machine.acceptAccesses]
    cases m.accept env arg1 arg2 arg3 with
    | ret value after =>
      dsimp only
      by_cases failed : value = exitMagic
      · simp [failed]
      · by_cases null : arg2 = 0#64
        · simp [null]
        · by_cases none : arg3 = 0#64 <;> simp [failed, null, none, self]
    | yield _ _ => exact nofun
    | panic => exact nofun
  case ipcRecv =>
    simp only [accesses, given]
    cases m.kernel.recvWithCap (Machine.capIdx arg1) <;> split_ifs <;> simp [self]
  case recv =>
    simp only [accesses, given]
    cases m.fd arg1 with
    | none => exact nofun
    | some found =>
      simp only [Option.elim_some]
      split_ifs
      · exact nofun
      · exact List.forall_mem_singleton.mpr ⟨_, List.mem_cons_self, .start (min_le_right _ _)⟩
  case getcwd =>
    simp only [accesses, given]
    split_ifs with empty
    · exact nofun
    · refine List.forall_mem_singleton.mpr ⟨_, List.mem_cons_self, .start ?_⟩
      have room : arg2.toNat ≠ 0 := fun zero => empty (BitVec.eq_of_toNat_eq zero)
      rw [List.length_take]
      omega
  case pipe =>
    simp only [accesses, given]
    cases m.pipe env arg1 <;> simp [self]
  case logWrite | writeFile | send =>
    simp only [accesses, given]
    split_ifs
    · exact List.forall_mem_singleton.mpr ⟨_, List.mem_cons_self, .start (min_le_left _ _)⟩
    · exact nofun
  case openFile | mkdir | rmdir | unlink | chdir | exec | chmod =>
    exact fun access member => ⟨_, List.mem_cons_self, path access member⟩
  case chown =>
    simp only [accesses, given]
    split_ifs
    · exact fun access member => ⟨_, List.mem_cons_self, path access member⟩
    · exact nofun
  case ipcSend | bind | connect | fbInfo =>
    simp only [accesses, given]
    split_ifs <;> simp [self]
  all_goals exact nofun

/-- The error of a call that fails early. -/
theorem dispatch_of_declines (declines : number.Declines env m arg1 arg2 arg3) :
    ∃ value, number.dispatch env m arg1 arg2 arg3 arg4 = .ret value m ∧ value.toInt < 0 := by
  have fail {reply : Reply σ} (failed : reply = .fail m) :
      ∃ value, reply = .ret value m ∧ value.toInt < 0 := ⟨_, failed, by decide⟩
  cases number
  case ipcSend | ipcRecv =>
    exact ⟨_, if_neg (Bool.not_eq_true _ ▸ declines), by decide⟩
  case openFile | mkdir | rmdir | unlink | chdir | exec | chmod => exact fail (if_neg declines)
  case logWrite => exact fail (if_neg (Bool.not_eq_true _ ▸ declines))
  case chown =>
    apply fail
    by_cases short : Machine.PathLen arg2
    · exact (if_pos short).trans (if_pos fun root => declines ⟨short, root⟩)
    · exact if_neg short
  case readFile => exact fail (Machine.readFile_of_fails declines).1
  case writeFile =>
    apply fail
    unfold dispatch Machine.writeFile Machine.withFd
    cases open_ : m.fd arg1 with
    | none => rfl
    | some found =>
      dsimp only
      by_cases flags : found.2.flags &&& 1#64 = 0#64 ∧ found.2.flags &&& 2#64 = 0#64
      · exact if_pos flags
      · rw [if_neg flags]
        exact if_neg fun check => declines ⟨⟨found, open_, flags⟩, check⟩
  case readdir =>
    apply fail
    rcases declines with long | ⟨-, fails, same⟩
    · exact if_neg long
    · unfold dispatch Machine.readdir
      dsimp only
      split_ifs
      · rw [same]
      · rfl
  case pipe => exact fail (Machine.pipe_of_fails declines)
  case accept => exact fail (Machine.accept_of_fails declines)
  case bind | connect | send | recv =>
    apply fail
    have closed : m.fd arg1 = none := declines
    simp only [dispatch, Machine.bind, Machine.connect, Machine.send, Machine.recv, Machine.withFd,
      closed]
  case fbInfo => exact fail (if_pos declines)
  all_goals exact declines.elim

/-- A call that fails early accesses nothing but a path. -/
theorem accesses_of_declines (declines : number.Declines env m arg1 arg2 arg3) :
    ∀ access ∈ number.accesses env m arg1 arg2 arg3 arg4, access.Good m ∧
      ∀ range ∈ number.given arg1 arg2 arg3 arg4, ¬ range.Good m → access.write ≠ range.write := by
  have nothing {accesses : List Access} (empty : accesses = []) : ∀ access ∈ accesses,
      access.Good m ∧ ∀ range ∈ number.given arg1 arg2 arg3 arg4, ¬ range.Good m →
        access.write ≠ range.write := by
    rw [empty]
    exact nofun
  cases number
  case readdir =>
    simp only [accesses]
    rcases declines with long | ⟨good, fails, -⟩
    · exact nothing (if_neg long)
    · split_ifs
      swap
      · exact nofun
      unfold Machine.readdirAccesses
      rw [if_pos fails]
      refine List.forall_mem_singleton.mpr ⟨good, fun range member bad => ?_⟩
      rcases List.mem_cons.mp member with rfl | member
      · exact absurd good bad
      · obtain rfl := List.mem_singleton.mp member
        nofun
  case ipcSend | ipcRecv | logWrite => exact nothing (if_neg (Bool.not_eq_true _ ▸ declines))
  case openFile | mkdir | rmdir | unlink | chdir | exec | chmod => exact nothing (if_neg declines)
  case chown =>
    apply nothing
    by_cases root : m.uid = 0
    · exact (if_pos root).trans (if_neg fun short => declines ⟨short, root⟩)
    · exact if_neg root
  case readFile => exact nothing (Machine.readFile_of_fails declines).2
  case writeFile => exact nothing (if_neg declines)
  case pipe =>
    apply nothing
    unfold accesses
    rw [Machine.pipe_of_fails declines]
    exact if_neg (by decide)
  case accept =>
    apply nothing
    unfold accesses Machine.acceptAccesses
    rw [Machine.accept_of_fails declines]
    exact if_pos (.inl rfl)
  case bind | connect | send | recv =>
    have closed : m.fd arg1 = none := declines
    exact nothing (by simp [accesses, closed])
  case fbInfo => exact nothing (if_pos (.inl declines))
  all_goals exact declines.elim

/-- An error before the pointers are looked at is the only one for a bad pointer. -/
theorem declines_of_dispatch {range : Access} {value : BitVec 64}
    (member : range ∈ number.given arg1 arg2 arg3 arg4) (bad : ¬ range.Good m)
    (good : ∀ access ∈ number.accesses env m arg1 arg2 arg3 arg4, access.Good m)
    (untouched : ∀ access ∈ number.accesses env m arg1 arg2 arg3 arg4,
      access.write = range.write → ∀ i < access.len, ∀ j < range.len, access.addr i ≠ range.addr j)
    (returned : number.dispatch env m arg1 arg2 arg3 arg4 = .ret value m)
    (negative : value.toInt < 0) : number.Declines env m arg1 arg2 arg3 := by
  have some_ := Access.not_good_nonempty bad
  have notZero : value ≠ 0#64 := by
    rintro rfl
    exact absurd negative (by decide)
  have start (access : Access) (member : access ∈ number.accesses env m arg1 arg2 arg3 arg4)
      (same : access.write = range.write) (at_ : access.ptr = range.ptr) : access.len = 0 := by
    by_contra nonempty
    exact untouched access member same 0 (by omega) 0 some_ (by simp [Access.addr, at_])
  cases number
  case ipcSend =>
    obtain rfl := List.mem_singleton.mp member
    by_contra valid
    exact bad (good _ (by simp [accesses, Bool.of_not_eq_false valid]))
  case ipcRecv =>
    obtain rfl := List.mem_singleton.mp member
    by_contra valid
    have valid : m.kernel.capValidate (Machine.capIdx arg1) capRecv = true :=
      Bool.of_not_eq_false valid
    simp only [dispatch, Machine.ipcRecv, valid, if_true] at returned
    simp only [accesses, valid, if_true] at good
    cases received : m.kernel.recvWithCap (Machine.capIdx arg1) with
    | ret _ _ =>
      rw [received] at good
      exact bad (good _ List.mem_cons_self)
    | yield _ _ =>
      rw [received] at returned
      cases returned
  case logWrite =>
    by_contra passed
    simp only [dispatch, Machine.logWrite] at returned
    rw [if_pos (Bool.of_not_eq_false passed)] at returned
    cases returned
    exact notZero rfl
  case openFile | mkdir | rmdir | unlink | chdir | exec | chmod =>
    obtain rfl := List.mem_singleton.mp member
    intro short
    exact bad (good _ (by simp [accesses, Machine.pathAccesses, short]))
  case chown =>
    obtain rfl := List.mem_singleton.mp member
    rintro ⟨short, root⟩
    exact bad (good _ (by simp [accesses, Machine.pathAccesses, short, root]))
  case readFile => exact Machine.fails_of_readFile returned negative
  case writeFile =>
    obtain rfl := List.mem_singleton.mp member
    intro passed
    have empty := start ⟨arg2, min arg3.toNat 4096, false⟩
      (by rw [accesses, if_pos passed]; exact List.mem_cons_self) rfl rfl
    dsimp only at some_ empty
    omega
  case readdir =>
    by_cases short : Machine.PathLen arg2
    swap
    · exact .inl short
    refine .inr ⟨good _ (by simp [accesses, short]), ?_⟩
    simp only [dispatch, Machine.readdir, if_pos short] at returned
    unfold Machine.ReaddirFails
    rcases listed : env.vfsReaddir (m.readBytes arg1 arg2.toNat) m with ⟨n, found, after⟩
    simp only [listed] at returned ⊢
    split_ifs at returned with fails
    · cases returned
      exact ⟨fails, rfl⟩
    · obtain ⟨rfl, -⟩ := Reply.ret.inj returned
      exact absurd negative (Machine.nonneg_of_small (by omega))
  case waitpid =>
    simp only [dispatch, Machine.waitpid, Machine.settle, Kernel.waitpid] at returned
    simp only [given] at member
    split_ifs at member with null
    · cases member
    obtain rfl := List.mem_singleton.mp member
    cases exited : m.kernel.exitedChild arg1.toNat with
    | none =>
      rw [exited] at returned
      cases returned
    | some slot =>
      refine bad (good _ ?_)
      simp [accesses, Kernel.waitpid, exited, Kernel.reap, null, Machine.statusAccesses]
  case pipe => exact Machine.fails_of_pipe returned negative
  case getcwd =>
    simp only [dispatch, Machine.getcwd] at returned
    split_ifs at returned
    exact notZero (Reply.ret.inj returned).1.symm
  case accept => exact Machine.fails_of_accept returned negative
  case bind | connect =>
    by_contra found
    obtain ⟨entry, open_⟩ := Option.ne_none_iff_exists'.mp found
    refine bad (good _ ?_)
    rw [accesses, open_]
    exact member
  case send =>
    obtain rfl := List.mem_singleton.mp member
    by_contra found
    obtain ⟨entry, open_⟩ := Option.ne_none_iff_exists'.mp found
    have empty := start ⟨arg2, min arg3.toNat 1400, false⟩
      (by rw [accesses, open_]; exact List.mem_cons_self) rfl rfl
    dsimp only at some_ empty
    omega
  case recv =>
    by_contra found
    obtain ⟨⟨slot, entry⟩, open_⟩ := Option.ne_none_iff_exists'.mp found
    simp only [dispatch, Machine.recv, Machine.withFd, open_] at returned
    rcases received : env.tcpRecv (Machine.connOf entry) m with ⟨n, out, after⟩
    simp only [received] at returned
    split_ifs at returned
    · exact notZero (Reply.ret.inj returned).1.symm
    · obtain ⟨rfl, -⟩ := Reply.ret.inj returned
      exact absurd negative (Machine.nonneg_of_small (by omega))
  case fbInfo =>
    by_contra null
    have null : arg1 ≠ 0#64 := null
    simp only [dispatch, Machine.fbInfo, if_neg null] at returned
    split at returned
    · cases returned
    · exact notZero (Reply.ret.inj returned).1.symm
  all_goals cases member

/-- The condition on a call, one for all numbers. -/
theorem careful_iff (space : m.kernel.currentTask.pml4 ≠ 0) :
    number.Careful env m arg1 arg2 arg3 arg4 ↔ number.Declines env m arg1 arg2 arg3 ∨
      (∀ range ∈ number.given arg1 arg2 arg3 arg4, range.Good m) ∧
        ∀ access ∈ number.accesses env m arg1 arg2 arg3 arg4, access.Good m := by
  by_cases read : number = .readFile
  · subst read
    simp only [Careful, Declines, given, List.forall_mem_singleton]
    rfl
  have all : (∀ range ∈ number.given arg1 arg2 arg3 arg4, range.Good m) →
      ∀ access ∈ number.accesses env m arg1 arg2 arg3 arg4, access.Good m := by
    intro good access member
    obtain ⟨range, given_, within⟩ := accesses_within read access member
    exact within.good (good range given_)
  rw [and_iff_left_of_imp all]
  cases number
  case logWrite =>
    simp only [Careful, Declines, given, List.forall_mem_singleton]
    cases check : m.userRangeOk arg1 arg2.toNat with
    | false => simp
    | true => simp [Machine.good_iff_grantedAbove space check]
  case writeFile =>
    simp only [Careful, Declines, given, List.forall_mem_singleton]
    by_cases open_ : m.OpenForWriting arg1
    swap
    · simp [open_]
    cases check : m.userRangeOk arg2 arg3.toNat with
    | false => simp
    | true => simp [open_, Machine.good_iff_grantedAbove space check]
  case readFile => exact absurd rfl read
  all_goals rfl

end Number

namespace Visit

/-- The condition on a call, or on the rest of one. -/
def Careful (env : Services σ) (m : Machine σ) : Visit → Prop
  | .call num arg1 arg2 arg3 arg4 => ∀ number, Number.ofNum num = some number →
      number.Careful env m arg1 arg2 arg3 arg4
  | .resume continuation => ∀ access ∈ continuation.accesses m, access.Good m

variable {env : Services σ} {m : Machine σ} {visit : Visit}

/-- The kernel keeps to the memory of its caller exactly for careful calls. -/
theorem respects_iff_careful (native : visit.Native env m)
    (space : m.kernel.currentTask.pml4 ≠ 0) : visit.Respects env m ↔ visit.Careful env m := by
  cases visit with
  | resume continuation => exact and_iff_left trivial
  | call num arg1 arg2 arg3 arg4 =>
    have native : env.handleSyscall m num arg1 arg2 arg3 arg4 = none := native
    unfold Respects Careful Refused syscallRustEntry accesses
    simp only [native]
    cases known : Number.ofNum num with
    | none =>
      constructor
      · nofun
      · exact fun _ => ⟨nofun, nofun⟩
    | some number =>
      simp only [Option.elim_some, Option.some.injEq, forall_eq']
      rw [Number.careful_iff space]
      constructor
      · rintro ⟨good, refused⟩
        by_cases given : ∀ range ∈ number.given arg1 arg2 arg3 arg4, range.Good m
        · exact .inr ⟨given, good⟩
        · push Not at given
          obtain ⟨range, member, bad⟩ := given
          obtain ⟨untouched, value, returned, negative⟩ := refused range member (.inl bad)
          exact .inl (Number.declines_of_dispatch member bad good untouched returned negative)
      · rintro (declines | ⟨given, good⟩)
        · have safe : ∀ access ∈ number.accesses env m arg1 arg2 arg3 arg4, access.Good m ∧
              ∀ range ∈ number.given arg1 arg2 arg3 arg4, ¬ range.Good m →
                access.write ≠ range.write := Number.accesses_of_declines declines
          refine ⟨fun access member => (safe access member).1, fun range member bad => ?_⟩
          have bad : ¬ range.Good m := bad.elim id Access.not_good_of_wraps
          exact ⟨fun access accessed same =>
            absurd same ((safe access accessed).2 range member bad),
            Number.dispatch_of_declines declines⟩
        · refine ⟨good, fun range member bad => absurd (given range member) ?_⟩
          exact bad.elim id Access.not_good_of_wraps

end Visit

/-- A task that may read its first page. -/
def onePage : Machine Unit where
  kernel :=
    { oneTask.kernel with
      tasks := fun slot =>
        if slot = 0 then { Task.free with state := .running, pml4 := 0x1000 } else Task.free
      phys := ⟨oneTask.kernel.phys.alloc, fun table index =>
        if index ≠ 0 then 0#64
        else if table = 0x1000 then 0x2007#64
        else if table = 0x2000 then 0x3007#64
        else if table = 0x3000 then 0x4007#64
        else 0x5005#64⟩ }
  user := fun _ => 0
  currentUid := 0
  users := []
  mmioRegions := []
  framebuffer := ⟨0#64, 0#32, 0#32, 0#32, false⟩
  rest := ()

/-- Eight bytes of it are logged. -/
theorem onePage_respects_log :
    (Visit.call 20#64 0x10#64 8#64 0#64 0#64).Respects noServices onePage := by
  have native : (Visit.call 20#64 0x10#64 8#64 0#64 0#64).Native noServices onePage := rfl
  refine (Visit.respects_iff_careful native (by decide)).mpr fun number known => ?_
  obtain rfl : Number.logWrite = number := Option.some.inj (Eq.trans (by decide) known)
  have granted : ∀ i < 8, Vm.GrantedAbove onePage.kernel.phys.mem onePage.kernel.currentTask.pml4
      false (0x10#64 + BitVec.ofNat 64 i) := by
    decide +kernel
  exact fun _ => granted

/-- `SYS_FB_INFO` writes wherever it is told, here over the kernel's half. -/
theorem onePage_fbInfo_writes_kernel : onePage.kernel.currentTask.pml4 ≠ 0 ∧
    (Visit.call 77#64 0xFFFF800000000000#64 0#64 0#64 0#64).Native noServices onePage ∧
    ¬ (Visit.call 77#64 0xFFFF800000000000#64 0#64 0#64 0#64).Respects noServices onePage := by
  refine ⟨by decide, rfl, fun respects => ?_⟩
  have low := (respects.1 ⟨0xFFFF800000000000#64, 48, true⟩ (by decide) 0 (by decide)).low
  exact absurd low (by decide)

end DBSos.Syscall
