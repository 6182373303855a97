import DBSos.Syscall.Dispatch

/-!
# The magic return value

`syscall_stub` takes `-1` in `rax` for the end of the task, and the error value
of most calls is `-1`. A call returns to its caller exactly when it answers: the
conditions below are those under which each call does not fail, and does not
hand out a word of the user's choice that happens to be `-1`.
-/

namespace DBSos.Syscall

open DBSos.Abi DBSos.Scheduler DBSos.Vm

variable {σ : Type}

/-- The value for `rax`, if the call returns one, is not the magic one. -/
def Reply.Lives (reply : Reply σ) : Prop := ∀ value m, reply = .ret value m → value ≠ exitMagic

@[simp] theorem Reply.lives_ret {value : BitVec 64} {m : Machine σ} :
    (Reply.ret value m).Lives ↔ value ≠ exitMagic := by
  constructor
  · intro lives
    exact lives value m rfl
  · rintro other _ _ ⟨rfl, rfl⟩
    exact other

@[simp] theorem Reply.lives_yield {continuation : Continuation} {m : Machine σ} :
    (Reply.yield continuation m).Lives := nofun

@[simp] theorem Reply.lives_panic : (Reply.panic : Reply σ).Lives := nofun

@[simp] theorem Reply.lives_fail {m : Machine σ} : ¬ (Reply.fail m).Lives := by
  simp [Reply.fail]

@[simp] theorem Reply.lives_ofBool {result : Bool × Machine σ} :
    (Reply.ofBool result).Lives ↔ result.1 = true := by
  unfold Reply.ofBool
  split_ifs with ok <;> simp [ok, exitMagic]

section Codes

/-! Of the result codes only `IPC_ERR_BAD_CAP` is the magic value. -/

@[simp] theorem zero_ne_exitMagic : 0#64 ≠ exitMagic := by decide
@[simp] theorem ipcOk_ne_exitMagic : ipcCode ipcOk ≠ exitMagic := by decide
@[simp] theorem ipcErrNoServer_ne_exitMagic : ipcCode ipcErrNoServer ≠ exitMagic := by decide
@[simp] theorem ipcErrTimeout_ne_exitMagic : ipcCode ipcErrTimeout ≠ exitMagic := by decide
@[simp] theorem ipcErrNoMem_ne_exitMagic : ipcCode ipcErrNoMem ≠ exitMagic := by decide
@[simp] theorem ipcErrDenied_ne_exitMagic : ipcCode ipcErrDenied ≠ exitMagic := by decide
@[simp] theorem ipcErrBadCap_eq_exitMagic : ipcCode ipcErrBadCap = exitMagic := by decide

end Codes

/-- A word that comes from fewer bits. -/
theorem setWidth_ne_exitMagic {width : Nat} (narrow : width < 64) (value : BitVec width) :
    value.setWidth 64 ≠ exitMagic := by
  intro equal
  have top := congrArg (fun word : BitVec 64 => word.getLsbD 63) equal
  simp [exitMagic, BitVec.getLsbD_of_ge value 63 (by omega)] at top

/-- A small number. -/
theorem ofNat_ne_exitMagic {value : Nat} (small : value < 2 ^ 64 - 1) :
    BitVec.ofNat 64 value ≠ exitMagic := by
  intro equal
  have same := congrArg BitVec.toNat equal
  simp only [BitVec.toNat_ofNat, exitMagic, BitVec.toNat_allOnes] at same
  omega

theorem setWidth32_ne_exitMagic (value : BitVec 32) : value.setWidth 64 ≠ exitMagic :=
  setWidth_ne_exitMagic (by decide) value

namespace Machine

variable (env : Services σ) (m : Machine σ)

/-! ## When each call answers -/

/-- `SYS_IPC_RECV_LEGACY`: a waiting sender's word is not the magic one. -/
def IpcRecvLegacyAnswers : Prop :=
  ∀ src, m.kernel.matchRecv 0 = some src → BitVec.ofNat 64 (m.kernel.tasks src).ipcVal ≠ exitMagic

/-- The capability exists. -/
def HasCap (cap : BitVec 64) : Prop := (m.kernel.capGet (capIdx cap)).isSome

/-- `SYS_CAP_GET_DATA`. -/
def CapGetDataAnswers (cap : BitVec 64) : Prop :=
  ∃ held, m.kernel.capGet (capIdx cap) = some held ∧ BitVec.ofNat 64 held.data ≠ exitMagic

/-- The descriptor is in use and its entry has the property. -/
def FdWith (idx : BitVec 64) (property : FdEntry → Prop) : Prop :=
  match m.fd idx with
  | none => False
  | some (_, entry) => property entry

/-- The descriptor is in use. -/
def HasFd (idx : BitVec 64) : Prop := m.FdWith idx fun _ => True

/-- `SYS_OPEN`: the file opens and a descriptor is free. -/
def OpenFileAnswers (ptr len flags : BitVec 64) : Prop :=
  PathLen len ∧
    let opened := env.vfsOpen (m.readBytes ptr len.toNat) flags m
    0 ≤ opened.1.toInt ∧ opened.2.freeFd.isSome

/-- `SYS_READ`: nothing is left to read, or the buffer is mapped, the file opens
again and the read succeeds. -/
def ReadFileAnswers (idx buf count : BitVec 64) : Prop :=
  m.FdWith idx fun entry =>
    let toRead := min count.toNat (entry.size.toNat - entry.offset.toNat)
    toRead = 0 ∨ m.userRangeOk buf toRead = true ∧
      let opened := env.vfsOpen (fdName entry) 0#64 m
      0 ≤ opened.1.toInt ∧
        0 ≤ (env.vfsRead opened.1 (min toRead 4096)
          (env.vfsLseek opened.1 (entry.offset.setWidth 64) opened.2)).1.toInt

/-- `SYS_WRITE`: the descriptor is open for writing, the buffer is mapped, the
file opens again and takes at least a byte. -/
def WriteFileAnswers (idx buf count : BitVec 64) : Prop :=
  m.FdWith idx fun entry =>
    ¬ (entry.flags &&& 1#64 = 0#64 ∧ entry.flags &&& 2#64 = 0#64) ∧
    m.userRangeOk buf count.toNat = true ∧
      let opened := env.vfsOpen (fdName entry) entry.flags m
      0 ≤ opened.1.toInt ∧
        0 < (env.vfsWrite opened.1 (m.readBytes buf (min count.toNat 4096))
          (env.vfsLseek opened.1 (entry.offset.setWidth 64) opened.2)).1.toInt

/-- `SYS_LSEEK`: a known whence, and a target other than -1. -/
def LseekAnswers (idx offset whence : BitVec 64) : Prop :=
  m.FdWith idx fun entry =>
    ∃ target, seekTarget entry offset (whence.setWidth 32) = some target ∧ target ≠ -1

/-- `SYS_READDIR`. -/
def ReaddirAnswers (ptr len : BitVec 64) : Prop :=
  PathLen len ∧ 0 ≤ (env.vfsReaddir (m.readBytes ptr len.toNat) m).1.toInt

/-- `SYS_MKDIR`, `SYS_RMDIR` and `SYS_UNLINK`. -/
def PathCallAnswers (ptr len : BitVec 64) (act : List UInt8 → Machine σ → Bool × Machine σ) :
    Prop :=
  PathLen len ∧ (act (m.readBytes ptr len.toNat) m).1 = true

/-- `SYS_CHDIR`. -/
def ChdirAnswers (ptr len : BitVec 64) : Prop :=
  PathLen len ∧ env.vfsIsDir (m.readBytes ptr len.toNat) m = true

/-- `SYS_FORK`: the user is below the task limit, a slot is free and there is
memory for the stacks and the table. -/
def ForkAnswers : Prop :=
  m.kernel.atTaskLimit m.kernel.currentTask.uid = false ∧ m.kernel.freeSlot.isSome ∧
    let stack := m.kernel.allocKstack
    stack.1 ≠ 0 ∧
      (((stack.2.identityMapKernel stack.1 stackSize).secondKstack
        m.kernel.currentTask.ring3).2.phys.alloc.palloc).1 ≠ 0

/-- `SYS_EXEC`. -/
def ExecAnswers (ptr len : BitVec 64) : Prop :=
  PathLen len ∧
    (env.loadAndSpawn (m.readBytes ptr len.toNat) m).1 ≠ 0#64 ∧
      (env.loadAndSpawn (m.readBytes ptr len.toNat) m).1 ≠ exitMagic

/-- `SYS_WAITPID`, before it blocks. -/
def WaitpidAnswers (pid : BitVec 64) : Prop :=
  ∀ slot, m.kernel.exitedChild pid.toNat = some slot →
    BitVec.ofNat 64 (m.kernel.tasks slot).id ≠ exitMagic

/-- `SYS_DUP`. -/
def DupAnswers (oldFd : BitVec 64) : Prop := m.FdWith oldFd fun _ => m.freeFd.isSome

/-- `SYS_DUP2`. -/
def Dup2Answers (oldFd newFd : BitVec 64) : Prop := m.FdWith oldFd fun _ => newFd.toNat < maxFds

/-- `SYS_PIPE`: a buffer and two free descriptors. -/
def PipeAnswers : Prop :=
  let buffer := env.kmalloc 4096 m
  buffer.1 ≠ 0#64 ∧ ∃ readSlot, buffer.2.freeFd = some readSlot ∧
    (buffer.2.setFd readSlot ⟨true, pipeName buffer.1, 0#32, 0#32, 0#64⟩).freeFd.isSome

/-- `SYS_SOCKET`. -/
def SocketAnswers (domain sockType : BitVec 64) : Prop :=
  domain.setWidth 32 = 2#32 ∧ sockType.setWidth 32 = 1#32 ∧
    (env.tcpAllocConn m).1.isSome ∧ (env.tcpAllocConn m).2.freeFd.isSome

/-- `SYS_LISTEN`. -/
def ListenAnswers (idx : BitVec 64) : Prop :=
  m.FdWith idx fun entry =>
    (env.tcpListen (entry.size.setWidth 16) (env.tcpClose (connOf entry) m)).1.isSome

/-- `SYS_CONNECT`. -/
def ConnectAnswers (idx sockaddr : BitVec 64) : Prop :=
  m.FdWith idx fun entry =>
    (env.tcpConnect (Vector.ofFn fun i : Fin 4 => m.user (sockaddr + BitVec.ofNat 64 (4 + i.val)))
      (m.sockPort sockaddr) (env.tcpClose (connOf entry) m)).1.isSome

/-- `SYS_ACCEPT`. -/
def AcceptAnswers (idx : BitVec 64) : Prop :=
  m.FdWith idx fun entry =>
    (env.tcpFindAccepted (entry.size.setWidth 16) m).isSome ∧ m.freeFd.isSome

/-- `SYS_SEND`. -/
def SendAnswers (idx buf len : BitVec 64) : Prop :=
  m.FdWith idx fun entry =>
    (env.tcpSend (connOf entry) (m.readBytes buf (min len.toNat 1400)) m).1 = true

/-- `SYS_SETUID`. -/
def SetuidAnswers (arg : BitVec 64) : Prop :=
  m.uid = 0 ∧ ((m.findByUid (arg.setWidth 32).toNat).isSome ∨ (arg.setWidth 32).toNat = 0)

/-- `SYS_CHMOD`. -/
def ChmodAnswers (ptr len : BitVec 64) : Prop :=
  PathLen len ∧ (m.uid = 0 ∨ (env.permGet (m.readBytes ptr len.toNat) m).owner.toNat = m.uid)

/-- `SYS_CHOWN`. -/
def ChownAnswers (len : BitVec 64) : Prop := PathLen len ∧ m.uid = 0

/-- `SYS_WL_SURFACE_CREATE`. -/
def SurfaceCreateAnswers (x y width height : BitVec 64) : Prop :=
  SurfaceSize (width.setWidth 32) (height.setWidth 32) ∧
    (env.surfaceCreate (x.setWidth 32) (y.setWidth 32) (width.setWidth 32)
      (height.setWidth 32) m).1.isSome

/-- `SYS_WL_SURFACE_ATTACH`. -/
def SurfaceAttachAnswers (id pool offset wh : BitVec 64) : Prop :=
  attachWidth wh ≠ 0#32 ∧ attachHeight wh ≠ 0#32 ∧
    ((attachWidth wh).toNat * 4 < 2 ^ 32 →
      (env.surfaceAttach (id.setWidth 32) pool (offset.setWidth 32) (attachWidth wh)
        (attachHeight wh) (attachWidth wh * 4#32) m).1 = true)

/-- `SYS_FB_MAP`, where no sum overflows: the range lies in the framebuffer, the
task has an address space and every page can be mapped. -/
def FbMapAnswers (phys virt size : BitVec 64) : Prop :=
  phys ≠ 0#64 ∧ virt ≠ 0#64 ∧ size ≠ 0#64 ∧
    ∀ fbSize, m.fbSize = some fbSize →
      m.framebuffer.phys.toNat ≤ phys.toNat ∧
        (phys.toNat + size.toNat < 2 ^ 64 → m.framebuffer.phys.toNat + fbSize < 2 ^ 64 →
          phys.toNat + size.toNat ≤ m.framebuffer.phys.toNat + fbSize ∧
            (size.toNat + 0xFFF < 2 ^ 64 →
              m.kernel.currentTask.pml4 ≠ 0 ∧
                (mapFrom m.kernel.currentTask.pml4 phys virt (pteWritable ||| pteUser) 0
                  (pageCount size) m.kernel.phys).2 ≠ .failed))

/-! ## One call at a time -/

theorem settle_lives {α : Type} {result : Blocking α} {continuation : Continuation}
    {reply : Machine σ → α → Reply σ} :
    (m.settle result continuation reply).Lives ↔
      ∀ k value, result = .ret k value → (reply { m with kernel := k } value).Lives := by
  cases result with
  | ret k value => simp [settle]
  | yield k frame => simp [settle]

theorem ipcSendLegacy_lives (dst val : BitVec 64) : (m.ipcSendLegacy dst val).Lives := by
  rw [ipcSendLegacy, settle_lives]
  intro k value returns
  unfold Kernel.ipcSendU64 Kernel.ipcSend at returns
  rw [Reply.lives_ret]
  split at returns
  · obtain ⟨-, rfl⟩ := Blocking.ret.inj returns
    exact ofNat_ne_exitMagic (by decide)
  · split_ifs at returns
    obtain ⟨-, rfl⟩ := Blocking.ret.inj returns
    exact ofNat_ne_exitMagic (by decide)

theorem ipcRecvLegacy_lives : m.ipcRecvLegacy.Lives ↔ m.IpcRecvLegacyAnswers := by
  rw [ipcRecvLegacy, settle_lives, IpcRecvLegacyAnswers]
  unfold Kernel.ipcRecvU64 Kernel.ipcRecv
  cases m.kernel.matchRecv 0 <;> simp

/-- A valid capability exists. -/
theorem capGet_of_validate {idx rights : Nat} (valid : m.kernel.capValidate idx rights = true) :
    ∃ cap, m.kernel.capGet idx = some cap := by
  unfold Kernel.capValidate Cap.CapTable.validate at valid
  cases found : (m.kernel.capTables m.kernel.current).get idx with
  | none => simp [found] at valid
  | some cap => exact ⟨cap, found⟩

theorem ipcSend_lives (cap msgPtr : BitVec 64) : (m.ipcSend cap msgPtr).Lives := by
  unfold ipcSend
  split_ifs with valid
  · rw [settle_lives]
    intro k code returns
    obtain ⟨held, found⟩ := m.capGet_of_validate valid
    rcases m.kernel.sendWithCap_cases (capIdx cap) (m.readMsg msgPtr) with
      ⟨_, refusal, _, refused⟩ | ⟨_, dst, _, ⟨_, taken⟩ | ⟨_, _, taken⟩ | ⟨_, _, taken⟩⟩
    · -- a refusal after the lookup has succeeded
      unfold Kernel.sendWithCap at returns
      simp only [found] at returns
      split_ifs at returns
      · obtain ⟨-, rfl⟩ := Blocking.ret.inj returns
        simp
      · split at returns
        · obtain ⟨-, rfl⟩ := Blocking.ret.inj returns
          simp
        · split_ifs at returns <;> obtain ⟨-, rfl⟩ := Blocking.ret.inj returns <;> simp
    · rw [taken] at returns
      obtain ⟨-, rfl⟩ := Blocking.ret.inj returns
      simp
    · rw [taken] at returns
      obtain ⟨-, rfl⟩ := Blocking.ret.inj returns
      simp
    · rw [taken] at returns
      cases returns
  · simp

theorem ipcRecv_lives (cap buf : BitVec 64) : (m.ipcRecv cap buf).Lives := by
  unfold ipcRecv
  split_ifs with valid
  · rw [settle_lives]
    intro k result returns
    obtain ⟨held, found⟩ := m.capGet_of_validate valid
    rw [received, Reply.lives_ret]
    rcases m.kernel.recvWithCap_cases (capIdx cap) with
      ⟨cannot, refusal, _, refused⟩ | ⟨_, ⟨_, taken⟩ | ⟨_, ⟨sender, _, taken⟩ | ⟨_, _, taken⟩ |
        ⟨_, _, taken⟩⟩⟩
    · have denied : held.capType ≠ CapType.ipcTarget.value ∨ held.rights &&& capRecv = 0 := by
        by_contra allowed
        obtain ⟨typed, right⟩ := not_or.mp allowed
        exact cannot ⟨held, found, not_not.mp typed, right⟩
      rw [Kernel.recvWithCap, found] at returns
      simp only [if_pos denied] at returns
      obtain ⟨-, rfl⟩ := Blocking.ret.inj returns
      simp
    · rw [taken] at returns
      obtain ⟨-, rfl⟩ := Blocking.ret.inj returns
      simp
    · rw [taken] at returns
      obtain ⟨-, rfl⟩ := Blocking.ret.inj returns
      simp
    · rw [taken] at returns
      obtain ⟨-, rfl⟩ := Blocking.ret.inj returns
      simp [Kernel.takePending]
    · rw [taken] at returns
      cases returns
  · simp

theorem capGrant_lives (dst cap : BitVec 64) : (m.capGrant dst cap).Lives ↔ m.HasCap cap := by
  unfold capGrant HasCap Kernel.capDuplicate Kernel.capGet
  cases (m.kernel.capTables m.kernel.current).get (capIdx cap) with
  | none => simp
  | some held =>
    cases m.kernel.findTask dst.toNat with
    | none => simp
    | some slot =>
      by_cases shared : m.kernel.mayShare slot
      · simp only [shared, if_true]
        split <;> simp
      · simp [shared]

theorem capGetData_lives (cap : BitVec 64) :
    (m.capGetData cap).Lives ↔ m.CapGetDataAnswers cap := by
  unfold capGetData CapGetDataAnswers
  cases m.kernel.capGet (capIdx cap) <;> simp

theorem shmemMap_lives (cap virt : BitVec 64) : (m.shmemMap cap virt).Lives ↔ m.HasCap cap := by
  unfold shmemMap HasCap capIdx
  cases m.kernel.capGet (cap.setWidth 16).toNat with
  | none => simp
  | some held =>
    simp only [Option.isSome_some, iff_true]
    split_ifs
    · simp
    · split <;> simp
    · simp

theorem shmemCreate_lives : m.shmemCreate.Lives := by
  unfold shmemCreate
  dsimp only
  split_ifs
  · simp
  · split
    · simpa only [Reply.lives_ret] using setWidth_ne_exitMagic (by decide) _
    · simp

theorem mmioMap_lives (phys size virt : BitVec 64) : (m.mmioMap phys size virt).Lives := by
  unfold mmioMap
  dsimp only
  split_ifs
  · simp
  · simp
  · split <;> simp
  · simp

theorem logWrite_lives (ptr len : BitVec 64) :
    (m.logWrite ptr len).Lives ↔ m.userRangeOk ptr len.toNat = true := by
  unfold logWrite
  split_ifs with mapped <;> simp [mapped]

theorem pathCall_lives (ptr len : BitVec 64) (act : List UInt8 → Machine σ → Bool × Machine σ) :
    (m.pathCall ptr len act).Lives ↔ m.PathCallAnswers ptr len act := by
  unfold pathCall PathCallAnswers
  split_ifs with short <;> simp [short]

theorem chdir_lives (ptr len : BitVec 64) :
    (m.chdir env ptr len).Lives ↔ m.ChdirAnswers env ptr len := by
  rw [chdir, pathCall_lives, PathCallAnswers, ChdirAnswers]
  refine and_congr_right fun _ => ?_
  split_ifs with isDir <;> simp [isDir]

/-- A descriptor as a word. -/
theorem slot_ne_exitMagic (slot : Fin maxFds) : BitVec.ofNat 64 slot.val ≠ exitMagic :=
  ofNat_ne_exitMagic (lt_of_lt_of_le slot.isLt (by decide))

theorem openFile_lives (ptr len flags : BitVec 64) :
    (m.openFile env ptr len flags).Lives ↔ m.OpenFileAnswers env ptr len flags := by
  unfold openFile OpenFileAnswers
  by_cases short : PathLen len
  · rcases opened : env.vfsOpen (m.readBytes ptr len.toNat) flags m with ⟨vfsFd, after⟩
    simp only [short, if_true, opened, true_and]
    split_ifs with failed
    · simp [failed]
    · cases free : after.freeFd with
      | none => simp
      | some slot => simp [not_lt.mp failed, slot_ne_exitMagic]
  · simp [short]

/-- A signed result that is not negative. -/
theorem ne_exitMagic_of_nonneg {n : BitVec 64} (nonneg : ¬ n.toInt < 0) : n ≠ exitMagic := by
  rintro rfl
  exact nonneg (by decide)

theorem withFd_lives {idx : BitVec 64} {act : Fin maxFds → FdEntry → Reply σ}
    {property : FdEntry → Prop} (same : ∀ slot entry, (act slot entry).Lives ↔ property entry) :
    (m.withFd idx act).Lives ↔ m.FdWith idx property := by
  unfold withFd FdWith
  cases m.fd idx with
  | none => simp
  | some found => exact same found.1 found.2

theorem readFile_lives (idx buf count : BitVec 64) :
    (m.readFile env idx buf count).Lives ↔ m.ReadFileAnswers env idx buf count := by
  refine m.withFd_lives fun slot entry => ?_
  generalize min count.toNat (entry.size.toNat - entry.offset.toNat) = toRead
  rcases env.vfsOpen (fdName entry) 0#64 m with ⟨vfsFd, after⟩
  rcases read : env.vfsRead vfsFd (min toRead 4096)
    (env.vfsLseek vfsFd (entry.offset.setWidth 64) after) with ⟨n, bytes, later⟩
  simp only [read]
  split_ifs with nothing mapped unopened empty failed large
  · simp [nothing]
  · simp [nothing, not_le.mpr unopened]
  · simp [mapped, not_lt.mp unopened, empty]
  · simp [nothing, not_le.mpr failed]
  · simp [mapped, not_lt.mp unopened, not_lt.mp failed]
  · have value := ne_exitMagic_of_nonneg failed
    split <;> simp [mapped, not_lt.mp unopened, not_lt.mp failed, value]
  · simp [nothing, mapped]

theorem writeFile_lives (idx buf count : BitVec 64) :
    (m.writeFile env idx buf count).Lives ↔ m.WriteFileAnswers env idx buf count := by
  refine m.withFd_lives fun slot entry => ?_
  rcases env.vfsOpen (fdName entry) entry.flags m with ⟨vfsFd, after⟩
  rcases written : env.vfsWrite vfsFd (m.readBytes buf (min count.toNat 4096))
    (env.vfsLseek vfsFd (entry.offset.setWidth 64) after) with ⟨n, later⟩
  simp only [written]
  split_ifs with readOnly mapped unopened failed
  · simp [readOnly]
  · simp [not_le.mpr unopened]
  · simp [not_lt.mpr failed]
  · have value := ne_exitMagic_of_nonneg fun negative => failed negative.le
    split <;> simp [readOnly, mapped, not_lt.mp unopened, not_le.mp failed, value]
  · simp [mapped]

theorem closeFd_lives (idx : BitVec 64) : (m.closeFd idx).Lives ↔ m.HasFd idx :=
  m.withFd_lives fun _ _ => by simp

theorem fstat_lives (idx : BitVec 64) : (m.fstat idx).Lives ↔ m.HasFd idx :=
  m.withFd_lives fun _ _ => by simp [setWidth32_ne_exitMagic]

/-- A target in the range of `i64`. -/
theorem ofInt_ne_exitMagic_iff {target : Int} (low : -2 ^ 63 ≤ target) (high : target < 2 ^ 63) :
    BitVec.ofInt 64 target ≠ exitMagic ↔ target ≠ -1 := by
  have allOnes : exitMagic = BitVec.ofInt 64 (-1) := by decide
  rw [allOnes, not_iff_not]
  constructor
  · intro equal
    have same := congrArg BitVec.toInt equal
    rwa [BitVec.toInt_ofInt_eq_self (by decide) (by simpa using low) (by simpa using high),
      BitVec.toInt_ofInt_eq_self (by decide) (by decide) (by decide)] at same
  · rintro rfl
    rfl

theorem seekTarget_low {entry : FdEntry} {offset : BitVec 64} {whence : BitVec 32} {target : Int}
    (found : seekTarget entry offset whence = some target) : -2 ^ 63 ≤ target := by
  have low := BitVec.le_toInt offset
  unfold seekTarget at found
  split_ifs at found <;> obtain rfl := Option.some.inj found <;> simp at low ⊢ <;> omega

theorem lseek_lives (idx offset whence : BitVec 64) :
    (m.lseek idx offset whence).Lives ↔ m.LseekAnswers idx offset whence := by
  refine m.withFd_lives fun slot entry => ?_
  cases found : seekTarget entry offset (whence.setWidth 32) with
  | none => simp
  | some target =>
    dsimp only
    split_ifs with high
    · have other : target ≠ -1 := by omega
      simp [other]
    · simpa using ofInt_ne_exitMagic_iff (seekTarget_low found) (not_le.mp high)

theorem readdir_lives (ptr len entries maxEntries : BitVec 64) :
    (m.readdir env ptr len entries maxEntries).Lives ↔ m.ReaddirAnswers env ptr len := by
  unfold readdir ReaddirAnswers
  rcases env.vfsReaddir (m.readBytes ptr len.toNat) m with ⟨n, found, after⟩
  by_cases short : PathLen len
  · simp only [short, if_true, true_and]
    split_ifs with failed
    · simp [failed]
    · have small : min (min n.toNat maxEntries.toNat) 64 < 2 ^ 64 - 1 := by omega
      simpa [not_lt.mp failed] using ofNat_ne_exitMagic small
  · simp [short]

theorem fork_lives : m.fork.Lives ↔ m.ForkAnswers := by
  have succeeds := m.kernel.forkTask_isSome m.kernel.current m.kernel.currentTask.ring3
    (m.kernel.currentTask.pml4 ≠ 0 ∧ m.kernel.currentTask.ring3)
  refine Iff.trans ?_ succeeds
  unfold fork Kernel.sysFork
  rcases m.kernel.forkTask m.kernel.current m.kernel.currentTask.ring3 _ with ⟨k, _ | id⟩
  · simp
  · dsimp only
    split_ifs with last
    · simp
    · simpa using ofNat_ne_exitMagic (show id < 2 ^ 64 - 1 by omega)

theorem exec_lives (ptr len : BitVec 64) : (m.exec env ptr len).Lives ↔ m.ExecAnswers env ptr len := by
  unfold exec ExecAnswers
  rcases env.loadAndSpawn (m.readBytes ptr len.toNat) m with ⟨result, after⟩
  by_cases short : PathLen len
  · simp only [short, if_true, true_and]
    split_ifs with failed <;> simp [failed]
  · simp [short]

theorem waitpid_lives (pid statusPtr : BitVec 64) :
    (m.waitpid pid statusPtr).Lives ↔ m.WaitpidAnswers pid := by
  rw [waitpid, settle_lives, WaitpidAnswers]
  unfold Kernel.waitpid
  cases m.kernel.exitedChild pid.toNat <;> simp [waited, Kernel.reap]

theorem dup_lives (oldFd : BitVec 64) : (m.dup oldFd).Lives ↔ m.DupAnswers oldFd := by
  refine m.withFd_lives fun slot entry => ?_
  cases m.freeFd <;> simp [slot_ne_exitMagic]

theorem dup2_lives (oldFd newFd : BitVec 64) :
    (m.dup2 oldFd newFd).Lives ↔ m.Dup2Answers oldFd newFd := by
  refine m.withFd_lives fun slot entry => ?_
  split_ifs with bound
  · have value : newFd ≠ exitMagic := by
      rintro rfl
      exact absurd bound (by decide)
    simp [bound, value]
  · simp [bound]

theorem pipe_lives (fdsPtr : BitVec 64) : (m.pipe env fdsPtr).Lives ↔ m.PipeAnswers env := by
  unfold pipe PipeAnswers
  rcases env.kmalloc 4096 m with ⟨buf, after⟩
  dsimp only
  split_ifs with full
  · simp [full]
  · cases after.freeFd with
    | none => simp
    | some readSlot =>
      simp only [Option.some.injEq, exists_eq_left', ne_eq, full, not_false_eq_true, true_and]
      cases (after.setFd readSlot ⟨true, pipeName buf, 0#32, 0#32, 0#64⟩).freeFd <;> simp

theorem getcwd_lives (buf size : BitVec 64) : (m.getcwd env buf size).Lives := by
  unfold getcwd
  split_ifs <;> simp

theorem socket_lives (domain sockType : BitVec 64) :
    (m.socket env domain sockType).Lives ↔ m.SocketAnswers env domain sockType := by
  unfold socket SocketAnswers
  rcases env.tcpAllocConn m with ⟨conn, after⟩
  split_ifs with wrong
  · rcases wrong with domain | sockType <;> simp_all
  · obtain ⟨domain, sockType⟩ := not_or.mp wrong
    cases conn with
    | none => simp
    | some conn =>
      cases free : after.freeFd with
      | none => simp [free]
      | some slot => simp [free, not_not.mp domain, not_not.mp sockType, slot_ne_exitMagic]

theorem bind_lives (idx sockaddr : BitVec 64) : (m.bind idx sockaddr).Lives ↔ m.HasFd idx :=
  m.withFd_lives fun _ _ => by simp

theorem adopt_lives {slot : Fin maxFds} {result : Option (BitVec 64) × Machine σ} :
    (adopt slot result).Lives ↔ result.1.isSome = true := by
  rcases result with ⟨_ | conn, after⟩ <;> simp [adopt]

theorem listen_lives (idx : BitVec 64) : (m.listen env idx).Lives ↔ m.ListenAnswers env idx :=
  m.withFd_lives fun _ _ => adopt_lives

theorem connect_lives (idx sockaddr : BitVec 64) :
    (m.connect env idx sockaddr).Lives ↔ m.ConnectAnswers env idx sockaddr :=
  m.withFd_lives fun _ _ => adopt_lives

theorem accept_lives (idx sockaddr addrlen : BitVec 64) :
    (m.accept env idx sockaddr addrlen).Lives ↔ m.AcceptAnswers env idx := by
  refine m.withFd_lives fun slot entry => ?_
  cases env.tcpFindAccepted (entry.size.setWidth 16) m with
  | none => simp
  | some conn => cases m.freeFd <;> simp [slot_ne_exitMagic]

theorem send_lives (idx buf len : BitVec 64) :
    (m.send env idx buf len).Lives ↔ m.SendAnswers env idx buf len := by
  refine m.withFd_lives fun slot entry => ?_
  have small : min len.toNat 1400 < 2 ^ 64 - 1 := by omega
  generalize min len.toNat 1400 = chunk at small ⊢
  rcases sends : env.tcpSend (connOf entry) (m.readBytes buf chunk) m with ⟨sent, after⟩
  simp only [sends]
  cases sent
  · simp
  · simpa using ofNat_ne_exitMagic small

theorem recv_lives (idx buf len : BitVec 64) : (m.recv env idx buf len).Lives ↔ m.HasFd idx := by
  refine m.withFd_lives fun slot entry => ?_
  rcases env.tcpRecv (connOf entry) m with ⟨n, out, after⟩
  have small : min n.val len.toNat < 2 ^ 64 - 1 := by
    have bound := n.isLt
    omega
  dsimp only
  split_ifs
  · simp
  · simpa using ofNat_ne_exitMagic small

theorem shutdown_lives (idx : BitVec 64) : (m.shutdown env idx).Lives ↔ m.HasFd idx :=
  m.withFd_lives fun _ _ => by simp

theorem setuid_lives (arg : BitVec 64) : (m.setuid arg).Lives ↔ m.SetuidAnswers arg := by
  unfold setuid SetuidAnswers
  generalize (arg.setWidth 32).toNat = uid
  dsimp only
  split_ifs with notRoot unknown
  · simp [notRoot]
  · simp [unknown]
  · have known : (m.findByUid uid).isSome ∨ uid = 0 := by
      by_contra neither
      obtain ⟨absent, user⟩ := not_or.mp neither
      exact unknown ⟨by simpa using absent, user⟩
    simp [not_not.mp notRoot, known]

theorem chmod_lives (ptr len mode : BitVec 64) :
    (m.chmod env ptr len mode).Lives ↔ m.ChmodAnswers env ptr len := by
  unfold chmod ChmodAnswers
  dsimp only
  split_ifs with short denied
  · simp [denied]
  · have allowed := not_and_or.mp denied
    simp only [not_not] at allowed
    simp [short, allowed]
  · simp [short]

theorem chown_lives (ptr len owner group : BitVec 64) :
    (m.chown env ptr len owner group).Lives ↔ m.ChownAnswers len := by
  unfold chown ChownAnswers
  dsimp only
  split_ifs with short notRoot
  · simp [notRoot]
  · simp [short, not_not.mp notRoot]
  · simp [short]

theorem wlShmCreate_lives (size : BitVec 64) :
    (m.wlShmCreate env size).Lives ↔ (env.poolCreate size m).1.isSome := by
  unfold wlShmCreate
  rcases env.poolCreate size m with ⟨_ | idx, after⟩
  · simp
  · simpa using ofNat_ne_exitMagic (lt_of_lt_of_le idx.isLt (by decide))

theorem wlSurfaceCreate_lives (x y width height : BitVec 64) :
    (m.wlSurfaceCreate env x y width height).Lives ↔
      m.SurfaceCreateAnswers env x y width height := by
  unfold wlSurfaceCreate SurfaceCreateAnswers
  rcases env.surfaceCreate (x.setWidth 32) (y.setWidth 32) (width.setWidth 32)
    (height.setWidth 32) m with ⟨_ | id, after⟩
  · split_ifs <;> simp
  · split_ifs with sized <;> simp [sized, setWidth32_ne_exitMagic]

theorem wlSurfaceAttach_lives (id pool offset wh : BitVec 64) :
    (m.wlSurfaceAttach env id pool offset wh).Lives ↔
      m.SurfaceAttachAnswers env id pool offset wh := by
  unfold wlSurfaceAttach SurfaceAttachAnswers
  dsimp only
  split_ifs with empty overflows
  · rcases empty with width | height
    · simp [width]
    · simp [height]
  · obtain ⟨width, height⟩ := not_or.mp empty
    exact iff_of_true Reply.lives_panic
      ⟨width, height, fun fits => absurd fits (not_lt.mpr overflows)⟩
  · obtain ⟨width, height⟩ := not_or.mp empty
    rw [Reply.lives_ofBool]
    constructor
    · intro attached
      exact ⟨width, height, fun _ => attached⟩
    · rintro ⟨-, -, attached⟩
      exact attached (not_le.mp overflows)

theorem fbInfo_lives (out : BitVec 64) : (m.fbInfo out).Lives ↔ out ≠ 0#64 := by
  unfold fbInfo
  split_ifs with null
  · simp [null]
  · split <;> simp [null]

theorem fbMap_lives (phys virt size : BitVec 64) :
    (m.fbMap phys virt size).Lives ↔ m.FbMapAnswers phys virt size := by
  unfold fbMap FbMapAnswers
  by_cases zero : phys = 0#64 ∨ virt = 0#64 ∨ size = 0#64
  · rw [if_pos zero]
    rcases zero with zero | zero | zero <;> simp [zero]
  · rw [if_neg zero]
    obtain ⟨physNonzero, virtNonzero, sizeNonzero⟩ : phys ≠ 0#64 ∧ virt ≠ 0#64 ∧ size ≠ 0#64 := by
      simpa [not_or] using zero
    simp only [physNonzero, virtNonzero, sizeNonzero, ne_eq, not_false_eq_true, true_and]
    cases m.fbSize with
    | none => exact iff_of_true Reply.lives_panic nofun
    | some fbSize =>
      simp only [Option.some.injEq, forall_eq']
      split_ifs with below overflows outside rounds noTable
      · exact iff_of_false Reply.lives_fail fun answers => absurd answers.1 (not_le.mpr below)
      · refine iff_of_true Reply.lives_panic ⟨not_lt.mp below, fun sum fbSum => ?_⟩
        rcases overflows with high | high
        · exact absurd sum (not_lt.mpr high)
        · exact absurd fbSum (not_lt.mpr high)
      · obtain ⟨sum, fbSum⟩ := not_or.mp overflows
        exact iff_of_false Reply.lives_fail fun answers =>
          absurd (answers.2 (not_le.mp sum) (not_le.mp fbSum)).1 (not_le.mpr outside)
      · exact iff_of_true Reply.lives_panic ⟨not_lt.mp below, fun _ _ =>
          ⟨not_lt.mp outside, fun fits => absurd fits (not_lt.mpr rounds)⟩⟩
      · obtain ⟨sum, fbSum⟩ := not_or.mp overflows
        exact iff_of_false Reply.lives_fail fun answers =>
          ((answers.2 (not_le.mp sum) (not_le.mp fbSum)).2 (not_le.mp rounds)).1 noTable
      · obtain ⟨sum, fbSum⟩ := not_or.mp overflows
        have reduced : (m.framebuffer.phys.toNat ≤ phys.toNat ∧
            (phys.toNat + size.toNat < 2 ^ 64 → m.framebuffer.phys.toNat + fbSize < 2 ^ 64 →
              phys.toNat + size.toNat ≤ m.framebuffer.phys.toNat + fbSize ∧
                (size.toNat + 0xFFF < 2 ^ 64 →
                  ¬ m.kernel.currentTask.pml4 = 0 ∧
                    ¬ (mapFrom m.kernel.currentTask.pml4 phys virt (pteWritable ||| pteUser) 0
                      (pageCount size) m.kernel.phys).2 = .failed))) ↔
            (mapFrom m.kernel.currentTask.pml4 phys virt (pteWritable ||| pteUser) 0
              (pageCount size) m.kernel.phys).2 ≠ .failed := by
          constructor
          · intro answers
            exact ((answers.2 (not_le.mp sum) (not_le.mp fbSum)).2 (not_le.mp rounds)).2
          · intro mapped
            exact ⟨not_lt.mp below, fun _ _ => ⟨not_lt.mp outside, fun _ => ⟨noTable, mapped⟩⟩⟩
        rw [reduced]
        rcases mapFrom m.kernel.currentTask.pml4 phys virt (pteWritable ||| pteUser) 0
          (pageCount size) m.kernel.phys with ⟨p, ending⟩
        cases ending <;> simp

end Machine

/-- When the call with this number answers. -/
def Number.Answers (env : Services σ) (m : Machine σ) (arg1 arg2 arg3 arg4 : BitVec 64) :
    Number → Prop
  | .exit => False
  | .ipcSendLegacy | .ipcSend | .ipcRecv | .shmemCreate | .mmioMap | .pciRead | .pciWrite
  | .getcwd | .getuid | .getgid => True
  | .ipcRecvLegacy => m.IpcRecvLegacyAnswers
  | .capGrant => m.HasCap arg2
  | .shmemMap => m.HasCap arg1
  | .logWrite => m.userRangeOk arg1 arg2.toNat = true
  | .capGetData => m.CapGetDataAnswers arg1
  | .openFile => m.OpenFileAnswers env arg1 arg2 arg3
  | .readFile => m.ReadFileAnswers env arg1 arg2 arg3
  | .writeFile => m.WriteFileAnswers env arg1 arg2 arg3
  | .closeFd | .fstat | .bind | .recv | .shutdown => m.HasFd arg1
  | .lseek => m.LseekAnswers arg1 arg2 arg3
  | .readdir => m.ReaddirAnswers env arg1 arg2
  | .mkdir => m.PathCallAnswers arg1 arg2 env.vfsMkdir
  | .rmdir => m.PathCallAnswers arg1 arg2 env.vfsRmdir
  | .unlink => m.PathCallAnswers arg1 arg2 env.vfsUnlink
  | .fork => m.ForkAnswers
  | .exec => m.ExecAnswers env arg1 arg2
  | .waitpid => m.WaitpidAnswers arg1
  | .dup => m.DupAnswers arg1
  | .dup2 => m.Dup2Answers arg1 arg2
  | .pipe => m.PipeAnswers env
  | .chdir => m.ChdirAnswers env arg1 arg2
  | .socket => m.SocketAnswers env arg1 arg2
  | .listen => m.ListenAnswers env arg1
  | .accept => m.AcceptAnswers env arg1
  | .connect => m.ConnectAnswers env arg1 arg2
  | .send => m.SendAnswers env arg1 arg2 arg3
  | .setuid => m.SetuidAnswers arg1
  | .chmod => m.ChmodAnswers env arg1 arg2
  | .chown => m.ChownAnswers arg2
  | .wlShmCreate => (env.poolCreate arg1 m).1.isSome
  | .wlShmDestroy => (env.poolDestroy arg1 m).1 = true
  | .wlSurfaceCreate => m.SurfaceCreateAnswers env arg1 arg2 arg3 arg4
  | .wlSurfaceDestroy => (env.surfaceDestroy (arg1.setWidth 32) m).1 = true
  | .wlSurfaceAttach => m.SurfaceAttachAnswers env arg1 arg2 arg3 arg4
  | .wlSurfaceCommit => (env.surfaceCommit (arg1.setWidth 32) m).1 = true
  | .wlSurfaceSetPos =>
    (env.surfaceSetPos (arg1.setWidth 32) (arg2.setWidth 32) (arg3.setWidth 32) m).1 = true
  | .fbInfo => arg1 ≠ 0#64
  | .fbMap => m.FbMapAnswers arg1 arg2 arg3

open Machine in
theorem Number.dispatch_lives (env : Services σ) (m : Machine σ) (arg1 arg2 arg3 arg4 : BitVec 64)
    (number : Number) :
    (number.dispatch env m arg1 arg2 arg3 arg4).Lives ↔
      number.Answers env m arg1 arg2 arg3 arg4 := by
  cases number with
  | exit => simp [dispatch, Answers]
  | ipcSendLegacy => exact iff_of_true (ipcSendLegacy_lives m arg1 arg2) trivial
  | ipcRecvLegacy => exact ipcRecvLegacy_lives m
  | ipcSend => exact iff_of_true (ipcSend_lives m arg1 arg2) trivial
  | ipcRecv => exact iff_of_true (ipcRecv_lives m arg1 arg2) trivial
  | capGrant => exact capGrant_lives ..
  | shmemMap => exact shmemMap_lives ..
  | shmemCreate => exact iff_of_true (shmemCreate_lives m) trivial
  | mmioMap => exact iff_of_true (mmioMap_lives m arg1 arg2 arg3) trivial
  | pciRead => exact iff_of_true (Reply.lives_ret.mpr (setWidth32_ne_exitMagic _)) trivial
  | pciWrite => exact iff_of_true (Reply.lives_ret.mpr zero_ne_exitMagic) trivial
  | logWrite => exact logWrite_lives ..
  | capGetData => exact capGetData_lives ..
  | openFile => exact openFile_lives ..
  | readFile => exact readFile_lives ..
  | writeFile => exact writeFile_lives ..
  | closeFd => exact closeFd_lives ..
  | fstat => exact fstat_lives ..
  | lseek => exact lseek_lives ..
  | readdir => exact readdir_lives ..
  | mkdir => exact pathCall_lives ..
  | rmdir => exact pathCall_lives ..
  | unlink => exact pathCall_lives ..
  | fork => exact fork_lives m
  | exec => exact exec_lives ..
  | waitpid => exact waitpid_lives ..
  | dup => exact dup_lives ..
  | dup2 => exact dup2_lives ..
  | pipe => exact pipe_lives ..
  | getcwd => exact iff_of_true (getcwd_lives env m arg1 arg2) trivial
  | chdir => exact chdir_lives ..
  | socket => exact socket_lives ..
  | bind => exact bind_lives ..
  | listen => exact listen_lives ..
  | accept => exact accept_lives ..
  | connect => exact connect_lives ..
  | send => exact send_lives ..
  | recv => exact recv_lives ..
  | shutdown => exact shutdown_lives ..
  | getuid => exact iff_of_true (Reply.lives_ret.mpr (setWidth32_ne_exitMagic _)) trivial
  | getgid => exact iff_of_true (Reply.lives_ret.mpr (setWidth32_ne_exitMagic _)) trivial
  | setuid => exact setuid_lives ..
  | chmod => exact chmod_lives ..
  | chown => exact chown_lives ..
  | wlShmCreate => exact wlShmCreate_lives ..
  | wlShmDestroy => exact Reply.lives_ofBool
  | wlSurfaceCreate => exact wlSurfaceCreate_lives ..
  | wlSurfaceDestroy => exact Reply.lives_ofBool
  | wlSurfaceAttach => exact wlSurfaceAttach_lives ..
  | wlSurfaceCommit => exact Reply.lives_ofBool
  | wlSurfaceSetPos => exact Reply.lives_ofBool
  | fbInfo => exact fbInfo_lives ..
  | fbMap => exact fbMap_lives ..

/-- When the rest of a blocked call answers: the legacy receive does not hand out
the magic word, and the wait finds an exited task in the slot it takes
`ipc_val` for. -/
def Continuation.Answers (m : Machine σ) : Continuation → Prop
  | .ipcSendLegacy | .ipcSend | .ipcRecv _ => True
  | .ipcRecvLegacy => BitVec.ofNat 64 m.kernel.currentTask.ipcVal ≠ exitMagic
  | .waitpid _ =>
    ∃ slot : Slot, slot.val = m.kernel.currentTask.ipcVal ∧
      (m.kernel.tasks slot).state = .exited ∧ BitVec.ofNat 64 (m.kernel.tasks slot).id ≠ exitMagic

theorem resume_lives (m : Machine σ) (continuation : Continuation) :
    (resume m continuation).Lives ↔ continuation.Answers m := by
  cases continuation with
  | ipcSendLegacy => exact iff_of_true (Reply.lives_ret.mpr zero_ne_exitMagic) trivial
  | ipcSend => exact iff_of_true (Reply.lives_ret.mpr ipcOk_ne_exitMagic) trivial
  | ipcRecv buf =>
    simp only [resume, Machine.received, Reply.lives_ret, Continuation.Answers, iff_true]
    unfold Kernel.resumeRecv
    split_ifs
    · exact ipcOk_ne_exitMagic
    · exact ipcErrTimeout_ne_exitMagic
  | ipcRecvLegacy => exact Reply.lives_ret
  | waitpid statusPtr =>
    simp only [resume, Machine.waited, Reply.lives_ret, Continuation.Answers]
    unfold Kernel.resumeWaitpid
    have notZero : BitVec.ofNat 64 Kernel.notZero = exitMagic := by decide
    split_ifs with bound exited
    · constructor
      · intro value
        exact ⟨⟨_, bound⟩, rfl, exited, value⟩
      · rintro ⟨slot, same, -, value⟩
        obtain rfl : slot = ⟨m.kernel.currentTask.ipcVal, bound⟩ := Fin.ext same
        exact value
    · refine iff_of_false (not_not.mpr notZero) ?_
      rintro ⟨slot, same, done, -⟩
      obtain rfl : slot = ⟨m.kernel.currentTask.ipcVal, bound⟩ := Fin.ext same
      exact exited done
    · refine iff_of_false (not_not.mpr notZero) ?_
      rintro ⟨slot, same, -, -⟩
      exact bound (same ▸ slot.isLt)

/-- What runs until it returns to the stub: a call, or the rest of a blocked one. -/
inductive Entry where
  | call (num arg1 arg2 arg3 arg4 : BitVec 64)
  | rest (continuation : Continuation)

/-- The entry, on the machine as it is. -/
def Entry.run (env : Services σ) (m : Machine σ) : Entry → Reply σ
  | .call num arg1 arg2 arg3 arg4 => syscallRustEntry env m num arg1 arg2 arg3 arg4
  | .rest continuation => resume m continuation

/-- When the entry answers. The Linux personality answers for the tasks it has, and
an unknown number always. -/
def Entry.Answers (env : Services σ) (m : Machine σ) : Entry → Prop
  | .call num arg1 arg2 arg3 arg4 =>
    match env.handleSyscall m num arg1 arg2 arg3 arg4 with
    | some (value, _) => value ≠ exitMagic
    | none => ∀ number, Number.ofNum num = some number → number.Answers env m arg1 arg2 arg3 arg4
  | .rest continuation => continuation.Answers m

/-- The value for the stub is the magic one on the inputs on which the entry does
not answer, and on no others. -/
theorem returns_iff_answers (env : Services σ) (m : Machine σ) (entry : Entry) :
    (entry.run env m).Lives ↔ entry.Answers env m := by
  cases entry with
  | call num arg1 arg2 arg3 arg4 =>
    simp only [Entry.run, Entry.Answers, syscallRustEntry]
    rcases env.handleSyscall m num arg1 arg2 arg3 arg4 with _ | ⟨value, after⟩
    · cases Number.ofNum num with
      | none => simp
      | some number => simpa using number.dispatch_lives env m arg1 arg2 arg3 arg4
    · exact Reply.lives_ret
  | rest continuation => exact resume_lives m continuation

/-- `SYS_CLOSE` of a descriptor that is not in use ends the task. -/
theorem close_unused :
    ¬ ∀ (env : Services Unit) (m : Machine Unit) (num arg1 arg2 arg3 arg4 : BitVec 64),
      num ≠ 0#64 → (syscallRustEntry env m num arg1 arg2 arg3 arg4).Lives := by
  intro never
  have lives := never noServices oneTask 33#64 0#64 0#64 0#64 0#64 (by decide)
  exact lives exitMagic oneTask rfl rfl

end DBSos.Syscall
