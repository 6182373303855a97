import DBSos.Syscall.Machine

/-!
# Calls on memory, sockets and surfaces

`SYS_SHMEM_MAP`, `SYS_MMIO_MAP` and `SYS_FB_MAP` map physical pages at the
virtual address the caller names. The last two run the same loop, which stops
at the first page that cannot be mapped and keeps the pages before it.
-/

namespace DBSos.Syscall

open DBSos.Abi DBSos.Vm

variable {σ : Type}

/-- How the mapping loop ends. -/
inductive Ending where
  | done
  | failed
  | overflow
deriving DecidableEq

/-- The loop `for i in 0..pages` over `map_page`, from turn `i`. -/
def mapFrom (pml4 : Nat) (phys virt flags : BitVec 64) : Nat → Nat → PhysMem → PhysMem × Ending
  | _, 0, p => (p, .done)
  | i, pages + 1, p =>
    if phys.toNat + i * 0x1000 ≥ 2 ^ 64 ∨ virt.toNat + i * 0x1000 ≥ 2 ^ 64 then (p, .overflow)
    else
      match mapPage p pml4 (phys + BitVec.ofNat 64 (i * 0x1000))
          (virt + BitVec.ofNat 64 (i * 0x1000)) flags with
      | (p, true) => mapFrom pml4 phys virt flags (i + 1) pages p
      | (p, false) => (p, .failed)

/-- `(size + 0xFFF) / 0x1000`. -/
def pageCount (size : BitVec 64) : Nat := (size.toNat + 0xFFF) / 0x1000

namespace Machine

/-- The kernel with other page tables. -/
def withPhys (m : Machine σ) (phys : PhysMem) : Machine σ :=
  { m with kernel := { m.kernel with phys := phys } }

/-- `validate_mmio`; sums saturate. -/
def validateMmio (m : Machine σ) (phys size : BitVec 64) : Bool :=
  let stop := min (phys.toNat + size.toNat) (2 ^ 64 - 1)
  m.mmioRegions.any fun r =>
    r.base.toNat ≤ phys.toNat ∧ stop ≤ min (r.base.toNat + r.size.toNat) (2 ^ 64 - 1)

/-- The capability lets the current task map shared memory. -/
def CanShare (cap : Cap) : Prop :=
  cap.capType = CapType.sharedMem.value ∧ cap.rights &&& capWrite ≠ 0

instance (cap : Cap) : Decidable (CanShare cap) := inferInstanceAs (Decidable (_ ∧ _))

/-- `SYS_SHMEM_MAP`. -/
def shmemMap (m : Machine σ) (capIdx virt : BitVec 64) : Reply σ :=
  match m.kernel.capGet (capIdx.setWidth 16).toNat with
  | none => .ret (ipcCode ipcErrBadCap) m
  | some cap =>
    if CanShare cap then
      let pml4 := m.kernel.currentTask.pml4
      if pml4 = 0 then .ret (ipcCode ipcErrDenied) m
      else
        match mapPage m.kernel.phys pml4 (BitVec.ofNat 64 cap.data) virt
            (pteWritable ||| pteUser) with
        | (p, true) => .ret 0#64 (m.withPhys p)
        | (p, false) => .ret (ipcCode ipcErrNoMem) (m.withPhys p)
    else .ret (ipcCode ipcErrDenied) m

/-- `SYS_SHMEM_CREATE`. -/
def shmemCreate (m : Machine σ) : Reply σ :=
  let (phys, alloc) := m.kernel.phys.alloc.palloc
  let m := m.withPhys { m.kernel.phys with alloc := alloc }
  if phys = 0 then .ret (ipcCode ipcErrNoMem) m
  else
    match m.kernel.capAlloc ⟨CapType.sharedMem.value, 0, capRead ||| capWrite, phys⟩ with
    | (k, some idx) => .ret ((BitVec.ofNat 16 idx).setWidth 64) { m with kernel := k }
    | (k, none) =>
      let m : Machine σ := { m with kernel := k }
      .ret (ipcCode ipcErrNoMem)
        (m.withPhys { m.kernel.phys with alloc := m.kernel.phys.alloc.pfree phys })

/-- `SYS_MMIO_MAP`. -/
def mmioMap (m : Machine σ) (phys size virt : BitVec 64) : Reply σ :=
  if m.validateMmio phys size then
    let pml4 := m.kernel.currentTask.pml4
    if pml4 = 0 then .ret (ipcCode ipcErrDenied) m
    else if size.toNat + 0xFFF ≥ 2 ^ 64 then .panic
    else
      match mapFrom pml4 phys virt (pteWritable ||| pteUser ||| pteCacheDisable) 0 (pageCount size)
          m.kernel.phys with
      | (p, .done) => .ret 0#64 (m.withPhys p)
      | (p, .failed) => .ret (ipcCode ipcErrNoMem) (m.withPhys p)
      | (_, .overflow) => .panic
  else .ret (ipcCode ipcErrDenied) m

/-- `fb_size`, unless it overflows. -/
def fbSize (m : Machine σ) : Option Nat :=
  let size := m.framebuffer.stride.toNat * m.framebuffer.height.toNat * 4
  if size < 2 ^ 64 then some size else none

/-- `SYS_FB_MAP`. -/
def fbMap (m : Machine σ) (phys virt size : BitVec 64) : Reply σ :=
  if phys = 0#64 ∨ virt = 0#64 ∨ size = 0#64 then .fail m
  else
    match m.fbSize with
    | none => .panic
    | some fbSize =>
      let fbPhys := m.framebuffer.phys.toNat
      if phys.toNat < fbPhys then .fail m
      else if phys.toNat + size.toNat ≥ 2 ^ 64 ∨ fbPhys + fbSize ≥ 2 ^ 64 then .panic
      else if phys.toNat + size.toNat > fbPhys + fbSize then .fail m
      else if size.toNat + 0xFFF ≥ 2 ^ 64 then .panic
      else
        let pml4 := m.kernel.currentTask.pml4
        if pml4 = 0 then .fail m
        else
          match mapFrom pml4 phys virt (pteWritable ||| pteUser) 0 (pageCount size)
              m.kernel.phys with
          | (p, .done) => .ret 0#64 (m.withPhys p)
          | (p, .failed) => .fail (m.withPhys p)
          | (_, .overflow) => .panic

/-- `SYS_FB_INFO`. -/
def fbInfo (m : Machine σ) (out : BitVec 64) : Reply σ :=
  if out = 0#64 then .fail m
  else
    match m.fbSize with
    | none => .panic
    | some size =>
      let fb := m.framebuffer
      .ret 0#64 (m.writeBytes out
        ([fb.width.toNat, fb.height.toNat, fb.stride.toNat, fb.phys.toNat,
          if fb.isBgr then 1 else 0, size].flatMap fun word => leBytes word 8))

end Machine

end DBSos.Syscall

/-!
## Calls on sockets

A socket's descriptor holds its connection in `offset` and, between `SYS_BIND`
and `SYS_LISTEN`, its port in `size`. Nothing marks it as a socket but its name.
-/

namespace DBSos.Syscall.Machine

open DBSos.Scheduler

variable {σ : Type} (env : Services σ) (m : Machine σ)

/-- The entry of a new socket. -/
def socketEntry (conn : BitVec 64) : FdEntry where
  inUse := true
  path := padName [0x53, 0x4F, 0x43, 0x4B]
  offset := conn.setWidth 32
  size := 0
  flags := 0

/-- `fds[fd_idx].offset as usize`. -/
def connOf (entry : FdEntry) : BitVec 64 := entry.offset.setWidth 64

/-- `SYS_SOCKET`: `AF_INET` and `SOCK_STREAM` only. -/
def socket (domain sockType : BitVec 64) : Reply σ :=
  if domain.setWidth 32 ≠ 2#32 ∨ sockType.setWidth 32 ≠ 1#32 then .fail m
  else
    match env.tcpAllocConn m with
    | (none, m) => .fail m
    | (some conn, m) =>
      match m.freeFd with
      | none => .fail (env.tcpClose conn m)
      | some slot => .ret (BitVec.ofNat 64 slot.val) (m.setFd slot (socketEntry conn))

/-- The port of a `sockaddr_in`, as `SYS_BIND` and `SYS_CONNECT` read it. -/
def sockPort (sockaddr : BitVec 64) : BitVec 16 := BitVec.ofNat 16 (m.readU16 (sockaddr + 2#64)).toNat

/-- `SYS_BIND`. -/
def bind (idx sockaddr : BitVec 64) : Reply σ :=
  m.withFd idx fun slot entry =>
    .ret 0#64 (m.setFd slot { entry with size := (m.sockPort sockaddr).setWidth 32 })

/-- The end of `SYS_LISTEN` and `SYS_CONNECT`: the new connection replaces the
placeholder. -/
def adopt (slot : Fin maxFds) : Option (BitVec 64) × Machine σ → Reply σ
  | (some conn, m) =>
    .ret 0#64 (m.setFd slot
      { m.kernel.currentTask.fds.get slot with offset := conn.setWidth 32 })
  | (none, m) => .fail m

/-- `SYS_LISTEN`. -/
def listen (idx : BitVec 64) : Reply σ :=
  m.withFd idx fun slot entry =>
    adopt slot (env.tcpListen (entry.size.setWidth 16) (env.tcpClose (connOf entry) m))

/-- `SYS_CONNECT`. -/
def connect (idx sockaddr : BitVec 64) : Reply σ :=
  m.withFd idx fun slot entry =>
    let addr := Vector.ofFn fun i : Fin 4 => m.user (sockaddr + BitVec.ofNat 64 (4 + i.val))
    adopt slot (env.tcpConnect addr (m.sockPort sockaddr) (env.tcpClose (connOf entry) m))

/-- The `sockaddr_in` that `SYS_ACCEPT` fills. -/
def sockaddrBytes (peer : Peer) : List UInt8 :=
  [2, 0] ++ leBytes peer.remotePort.toNat 2 ++ peer.peerIp.toList ++ List.replicate 8 0

/-- `SYS_ACCEPT`. -/
def accept (idx sockaddr addrlen : BitVec 64) : Reply σ :=
  m.withFd idx fun _ entry =>
    match env.tcpFindAccepted (entry.size.setWidth 16) m with
    | none => .fail m
    | some conn =>
      match m.freeFd with
      | none => .fail m
      | some slot =>
        let peer := env.tcpConnRef conn m
        let m := m.setFd slot (socketEntry conn)
        let m :=
          if sockaddr = 0#64 then m
          else
            let m := m.writeBytes sockaddr (sockaddrBytes peer)
            if addrlen = 0#64 then m else m.writeBytes addrlen (leBytes 16 4)
        .ret (BitVec.ofNat 64 slot.val) m

/-- `SYS_SEND`. -/
def send (idx buf len : BitVec 64) : Reply σ :=
  m.withFd idx fun _ entry =>
    let chunk := min len.toNat 1400
    let (sent, m) := env.tcpSend (connOf entry) (m.readBytes buf chunk) m
    if sent then .ret (BitVec.ofNat 64 chunk) m else .fail m

/-- `SYS_RECV`. -/
def recv (idx buf len : BitVec 64) : Reply σ :=
  m.withFd idx fun _ entry =>
    let (n, out, m) := env.tcpRecv (connOf entry) m
    if n.val = 0 then .ret 0#64 m
    else
      let actual := min n.val len.toNat
      .ret (BitVec.ofNat 64 actual) (m.writeBytes buf ((List.range actual).map out))

/-- `SYS_SHUTDOWN`. -/
def shutdown (idx : BitVec 64) : Reply σ :=
  m.withFd idx fun slot entry => .ret 0#64 ((env.tcpClose (connOf entry) m).setFd slot FdEntry.empty)

end DBSos.Syscall.Machine

/-!
## Wayland calls

They cast their arguments and pass them on.
-/

namespace DBSos.Syscall.Machine

variable {σ : Type} (env : Services σ) (m : Machine σ)

/-- `SYS_WL_SHM_CREATE`. -/
def wlShmCreate (size : BitVec 64) : Reply σ :=
  match env.poolCreate size m with
  | (some idx, m) => .ret (BitVec.ofNat 64 idx.val) m
  | (none, m) => .fail m

/-- `SYS_WL_SHM_DESTROY`. -/
def wlShmDestroy (idx : BitVec 64) : Reply σ := .ofBool (env.poolDestroy idx m)

/-- The size test of `SYS_WL_SURFACE_CREATE`. -/
def SurfaceSize (width height : BitVec 32) : Prop :=
  width ≠ 0#32 ∧ height ≠ 0#32 ∧ width.toNat ≤ 2048 ∧ height.toNat ≤ 2048

instance (width height : BitVec 32) : Decidable (SurfaceSize width height) :=
  inferInstanceAs (Decidable (_ ∧ _))

/-- `SYS_WL_SURFACE_CREATE`. -/
def wlSurfaceCreate (x y width height : BitVec 64) : Reply σ :=
  if SurfaceSize (width.setWidth 32) (height.setWidth 32) then
    match env.surfaceCreate (x.setWidth 32) (y.setWidth 32) (width.setWidth 32)
        (height.setWidth 32) m with
    | (some id, m) => .ret (id.setWidth 64) m
    | (none, m) => .fail m
  else .fail m

/-- `SYS_WL_SURFACE_DESTROY`. -/
def wlSurfaceDestroy (id : BitVec 64) : Reply σ := .ofBool (env.surfaceDestroy (id.setWidth 32) m)

/-- The width and the height packed into one argument. -/
def attachWidth (wh : BitVec 64) : BitVec 32 := (wh >>> 32).setWidth 32
def attachHeight (wh : BitVec 64) : BitVec 32 := wh.setWidth 32

/-- `SYS_WL_SURFACE_ATTACH`; the stride overflows from a width of 2^30. -/
def wlSurfaceAttach (id pool offset wh : BitVec 64) : Reply σ :=
  let width := attachWidth wh
  let height := attachHeight wh
  if width = 0#32 ∨ height = 0#32 then .fail m
  else if width.toNat * 4 ≥ 2 ^ 32 then .panic
  else
    .ofBool (env.surfaceAttach (id.setWidth 32) pool (offset.setWidth 32) width height
      (width * 4#32) m)

/-- `SYS_WL_SURFACE_COMMIT`. -/
def wlSurfaceCommit (id : BitVec 64) : Reply σ := .ofBool (env.surfaceCommit (id.setWidth 32) m)

/-- `SYS_WL_SURFACE_SET_POS`. -/
def wlSurfaceSetPos (id x y : BitVec 64) : Reply σ :=
  .ofBool (env.surfaceSetPos (id.setWidth 32) (x.setWidth 32) (y.setWidth 32) m)

end DBSos.Syscall.Machine
