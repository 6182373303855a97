import DBSos.Syscall.Descriptors

/-!
# Positions that do not fit

`SYS_LSEEK` returns the position that it computes and stores its low 32 bits, so that outside
of 32 bits the two are not the same.
-/

namespace DBSos.Syscall

open DBSos.Scheduler

namespace Machine

variable {σ : Type} (env : Services σ) (m : Machine σ)

/-- `SYS_READ` from a position that is given, wherever the descriptor is. -/
def readFrom (position idx buf count : BitVec 64) : Reply σ :=
  m.withFd idx fun slot entry =>
    let toRead := min count.toNat (entry.size.toNat - position.toNat)
    if toRead = 0 then .ret 0#64 m
    else if m.userRangeOk buf toRead then
      let (vfsFd, m) := env.vfsOpen (fdName entry) 0#64 m
      if vfsFd.toInt < 0 then .fail m
      else
        let m := env.vfsLseek vfsFd position m
        let (n, bytes, m) := env.vfsRead vfsFd (min toRead 4096) m
        let m := env.vfsClose vfsFd m
        if n = 0#64 then .ret 0#64 m
        else if n.toInt < 0 then .fail m
        else if n.toNat > 4096 then .panic
        else
          let m := m.writeBytes buf ((List.range n.toNat).map bytes)
          match m.advance slot n.toNat with
          | none => .panic
          | some entry => .ret n (m.setFd slot entry)
    else .fail m

/-- A returned position is the one that the descriptor keeps and that the next `SYS_READ` reads
from; and a position that is negative or no number of 32 bits is refused. -/
structure SeekKept (idx offset whence : BitVec 64) : Prop where
  stored : ∀ r m', m.lseek idx offset whence = .ret r m' → r ≠ exitMagic →
    (∃ slot entry, m'.fd idx = some (slot, entry) ∧ entry.offset.toNat = r.toNat) ∧
      ∀ buf count, m'.readFile env idx buf count = m'.readFrom env r idx buf count
  refused : ∀ slot entry target, m.fd idx = some (slot, entry) →
    seekTarget entry offset (whence.setWidth 32) = some target →
    target < 0 ∨ 2 ^ 32 ≤ target → m.lseek idx offset whence = .fail m

/-- A position of 32 bits, or the one that is returned as the error value where the descriptor
keeps its low bits already. -/
def Seekable (entry : FdEntry) (target : Int) : Prop :=
  0 ≤ target ∧ target < 2 ^ 32 ∨ target = -1 ∧ entry.offset = BitVec.allOnes 32

instance (entry : FdEntry) (target : Int) : Decidable (Seekable entry target) :=
  inferInstanceAs (Decidable (_ ∨ _))

/-- `SYS_READ` reads from the position that the descriptor keeps. -/
theorem readFile_eq_readFrom {m : Machine σ} {idx position : BitVec 64} {slot : Fin maxFds}
    {entry : FdEntry} (found : m.fd idx = some (slot, entry))
    (kept : entry.offset.toNat = position.toNat) (buf count : BitVec 64) :
    m.readFile env idx buf count = m.readFrom env position idx buf count := by
  have same : entry.offset.setWidth 64 = position := by
    refine BitVec.eq_of_toNat_eq ?_
    rw [BitVec.toNat_setWidth_of_le (by decide), kept]
  rw [readFile, readFrom, withFd, withFd, found]
  dsimp only
  rewrite [same, kept]
  rfl

variable {m : Machine σ} {idx offset whence : BitVec 64} {slot : Fin maxFds} {entry : FdEntry}
  {target : Int}

theorem setFd_self (found : m.fd idx = some (slot, entry)) : m.setFd slot entry = m := by
  obtain ⟨-, rfl, -⟩ := fd_eq_some found
  have fds : m.kernel.currentTask.fds.set slot (m.kernel.currentTask.fds.get slot) =
      m.kernel.currentTask.fds := Vector.set_getElem_self _
  have task : { m.kernel.tasks m.kernel.current with
      fds := m.kernel.currentTask.fds.set slot (m.kernel.currentTask.fds.get slot) } =
        m.kernel.tasks m.kernel.current := by
    rw [fds]
    rfl
  calc m.setFd slot (m.kernel.currentTask.fds.get slot)
      = { m with kernel := m.kernel.setTask m.kernel.current (m.kernel.tasks m.kernel.current) } :=
        congrArg (fun t => { m with kernel := m.kernel.setTask m.kernel.current t }) task
    _ = m := by rw [Kernel.setTask, Function.update_eq_self]

theorem fd_setFd (found : m.fd idx = some (slot, entry)) (after : FdEntry)
    (used : after.inUse = true) : (m.setFd slot after).fd idx = some (slot, after) := by
  obtain ⟨number, -, -⟩ := fd_eq_some found
  have bound : idx.toNat < maxFds := number ▸ slot.isLt
  obtain rfl : slot = ⟨idx.toNat, bound⟩ := Fin.ext number
  have stored : (m.setFd ⟨idx.toNat, bound⟩ after).kernel.currentTask.fds.get
      ⟨idx.toNat, bound⟩ = after := by
    simp only [setFd, Kernel.currentTask, Kernel.modifyTask, Kernel.setTask, Function.update_self]
    exact Vector.getElem_set_self _
  rw [fd, dif_pos bound]
  simp only [stored, used, if_true]

/-- `SYS_LSEEK` on a descriptor in use, to a position within 63 bits. -/
theorem lseek_eq (found : m.fd idx = some (slot, entry))
    (sought : seekTarget entry offset (whence.setWidth 32) = some target)
    (small : target < 2 ^ 63) :
    m.lseek idx offset whence = .ret (BitVec.ofInt 64 target)
      (m.setFd slot { entry with offset := BitVec.ofInt 32 target }) := by
  rw [lseek, withFd, found]
  dsimp only
  rw [sought]
  exact if_neg (not_le.mpr small)

/-- To a position behind that, the sum overflows. -/
theorem lseek_overflow (found : m.fd idx = some (slot, entry))
    (sought : seekTarget entry offset (whence.setWidth 32) = some target)
    (large : 2 ^ 63 ≤ target) : m.lseek idx offset whence = .panic := by
  rw [lseek, withFd, found]
  dsimp only
  rw [sought]
  exact if_pos large

theorem lseek_idle (idle : m.fd idx = none) : m.lseek idx offset whence = .fail m := by
  rw [lseek, withFd, idle]

theorem lseek_nowhere (found : m.fd idx = some (slot, entry))
    (nowhere : seekTarget entry offset (whence.setWidth 32) = none) :
    m.lseek idx offset whence = .fail m := by
  rw [lseek, withFd, found]
  dsimp only
  rw [nowhere]

theorem le_seekTarget (sought : seekTarget entry offset (whence.setWidth 32) = some target) :
    -2 ^ 63 ≤ target := by
  have above := BitVec.le_toInt offset
  unfold seekTarget at sought
  split_ifs at sought <;> obtain rfl := Option.some.inj sought <;> omega

/-- The position that is returned is the error value only for -1. -/
theorem ofInt_eq_exitMagic_iff (above : -2 ^ 63 ≤ target) (below : target < 2 ^ 63) :
    BitVec.ofInt 64 target = exitMagic ↔ target = -1 := by
  have back := BitVec.toInt_ofInt_eq_self (w := 64) (by decide) above below
  constructor
  · intro same
    rw [same] at back
    exact back.symm
  · rintro rfl
    rfl

/-- A seek keeps its word exactly if the descriptor is not in use, `whence` is none of the
three, or the position is one of 32 bits. -/
theorem seekKept_iff (env : Services σ) (m : Machine σ) (idx offset whence : BitVec 64) :
    m.SeekKept env idx offset whence ↔
      ∀ slot entry target, m.fd idx = some (slot, entry) →
        seekTarget entry offset (whence.setWidth 32) = some target → Seekable entry target := by
  constructor
  · intro keeps slot entry target found sought
    by_contra apart
    have above := le_seekTarget sought
    obtain ⟨outside, moved⟩ := not_or.mp apart
    have refused := keeps.refused slot entry target found sought (by omega)
    by_cases small : target < 2 ^ 63
    · rw [lseek_eq found sought small] at refused
      obtain ⟨value, machine⟩ := Reply.ret.inj refused
      have minusOne := (ofInt_eq_exitMagic_iff above small).mp value
      have kept := fd_setFd found { entry with offset := BitVec.ofInt 32 target }
        (fd_eq_some found).2.2
      rw [machine, found] at kept
      refine moved ⟨minusOne, ?_⟩
      rw [(Prod.mk.inj (Option.some.inj kept)).2, minusOne]
      rfl
    · rw [lseek_overflow found sought (not_lt.mp small)] at refused
      cases refused
  · intro fits
    refine ⟨fun r m' returned success => ?_, fun slot entry target found sought outside => ?_⟩
    · cases found : m.fd idx with
      | none =>
        rw [lseek_idle found] at returned
        exact absurd (Reply.ret.inj returned).1.symm success
      | some pair =>
        obtain ⟨slot, entry⟩ := pair
        cases sought : seekTarget entry offset (whence.setWidth 32) with
        | none =>
          rw [lseek_nowhere found sought] at returned
          exact absurd (Reply.ret.inj returned).1.symm success
        | some target =>
          have seekable := fits slot entry target found sought
          have small : target < 2 ^ 63 := by unfold Seekable at seekable; omega
          rw [lseek_eq found sought small] at returned
          obtain ⟨rfl, rfl⟩ := Reply.ret.inj returned
          rcases seekable with ⟨positive, short⟩ | ⟨rfl, -⟩
          · have kept := fd_setFd found { entry with offset := BitVec.ofInt 32 target }
              (fd_eq_some found).2.2
            have number : (BitVec.ofInt 32 target).toNat = (BitVec.ofInt 64 target).toNat := by
              rw [BitVec.toNat_ofInt, BitVec.toNat_ofInt]
              omega
            exact ⟨⟨slot, _, kept, number⟩, readFile_eq_readFrom env kept number⟩
          · exact absurd rfl success
    · rcases fits slot entry target found sought with ⟨positive, short⟩ | ⟨rfl, low⟩
      · omega
      · have same : { entry with offset := BitVec.ofInt 32 (-1) } = entry := by
          rw [show BitVec.ofInt 32 (-1) = entry.offset from low.symm]
        rw [lseek_eq found sought (by decide), same, setFd_self found]
        rfl

/-- Descriptor 0 with a file of ten bytes. -/
def tenBytes : Machine Unit :=
  oneTask.setFd ⟨0, by decide⟩ ⟨true, padName [0x66], 0#32, 10#32, 0#64⟩

/-- A seek to 2^32 returns 2^32 and leaves the descriptor at 0. -/
theorem high_seek_truncated : ¬ ∀ (env : Services Unit) (m : Machine Unit)
    (idx offset whence : BitVec 64), m.SeekKept env idx offset whence := by
  intro claim
  have refused := (claim noServices tenBytes 0 (2 ^ 32) 0).refused ⟨0, by decide⟩
    ⟨true, padName [0x66], 0#32, 10#32, 0#64⟩ (2 ^ 32) rfl rfl (.inr le_rfl)
  have value : (tenBytes.lseek 0 (2 ^ 32) 0).returned.map Prod.fst = some (2 ^ 32) := rfl
  rw [refused] at value
  exact absurd value (by decide)

end Machine

end DBSos.Syscall
