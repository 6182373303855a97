import DBSos.Net.Openings
import DBSos.Syscall.Accepts
import DBSos.Syscall.Files

/-!
# Descriptors and the connections they stand for

The number of a connection is kept in the field that a file's offset is kept in. A title
notes which connection a descriptor obtained, by the slot and the stamp of the connection;
no branch of the code reads it. A duplicate has the title of its original.
-/

namespace DBSos.Syscall

open DBSos.Net.Tcp DBSos.Scheduler

variable {τ : Type}

/-- What lies below the handlers: the TCP stack, the indices that the current call has handed
to it, and the files and the heap. -/
structure Below (τ : Type) where
  stack : Stack
  touched : List (BitVec 64)
  files : τ

/-- A call on descriptors, anything that the stack does besides, and what happens between two
calls. -/
inductive DescriptorCall (τ : Type) where
  | openFile (ptr len flags : BitVec 64)
  | readFile (idx buf count : BitVec 64)
  | writeFile (idx buf count : BitVec 64)
  | closeFd (idx : BitVec 64)
  | fstat (idx : BitVec 64)
  | lseek (idx offset whence : BitVec 64)
  | dup (oldFd : BitVec 64)
  | dup2 (oldFd newFd : BitVec 64)
  | pipe (fdsPtr : BitVec 64)
  | socket (domain sockType : BitVec 64)
  | bind (idx sockaddr : BitVec 64)
  | listen (idx : BitVec 64)
  | accept (idx sockaddr addrlen : BitVec 64)
  /-- While the peer's address is resolved, the card is polled. -/
  | connect (idx sockaddr : BitVec 64) (polled : List Arrival) (mac : Net.Mac)
  | send (idx buf len : BitVec 64)
  | recv (idx buf len : BitVec 64)
  | shutdown (idx : BitVec 64)
  | stack (call : Stack.Call)
  | files (files : τ)
  | compute (memory : BitVec 64 → UInt8)
  | switch (next : Scheduler.Slot)

namespace Machine

/-- The files and the heap do not reach the descriptors or the stack. -/
def onFiles {α : Type} (m : Machine (Below τ)) (result : α × Machine (Below τ)) :
    α × Machine (Below τ) :=
  (result.1, { m with rest := { m.rest with files := result.2.rest.files } })

def onStack (m : Machine (Below τ)) (stack : Stack) : Machine (Below τ) :=
  { m with rest := { m.rest with stack } }

/-- No index has been handed to the stack yet. -/
def fresh (m : Machine (Below τ)) : Machine (Below τ) :=
  { m with rest := { m.rest with touched := [] } }

/-- The stack once the connection of an entry is closed. -/
def closedBy (m : Machine (Below τ)) (entry : FdEntry) : Stack :=
  (toConn (connOf entry)).elim m.rest.stack m.rest.stack.close

/-- `conn(i)`. An index behind `CONNS` is noted, and nothing else: the kernel has panicked. -/
def atConn {α : Type} (m : Machine (Below τ)) (conn : BitVec 64) (absent : α)
    (act : Net.Tcp.Slot → Stack → α × Stack) : α × Machine (Below τ) :=
  let noted := { m with rest := { m.rest with touched := m.rest.touched ++ [conn] } }
  (toConn conn).elim (absent, noted) fun i =>
    ((act i m.rest.stack).1, noted.onStack (act i m.rest.stack).2)

end Machine

/-- The bytes of `recv` as the handler copies them. -/
def received (result : List Net.Byte × Stack) : (Fin 2049 × (Nat → UInt8)) × Stack :=
  ((Fin.ofNat 2049 result.1.length, fun i => UInt8.ofBitVec (result.1.getD i 0)), result.2)

/-- The services, with the calls that sockets make on the stack in place. -/
def overTcp (env : Services (Below τ)) (polled : List Arrival) (mac : Net.Mac) :
    Services (Below τ) :=
  { env with
    vfsOpen := fun path flags m => m.onFiles (env.vfsOpen path flags m)
    vfsClose := fun fd m => (m.onFiles ((), env.vfsClose fd m)).2
    vfsLseek := fun fd offset m => (m.onFiles ((), env.vfsLseek fd offset m)).2
    vfsRead := fun fd count m =>
      let (n, bytes, after) := env.vfsRead fd count m
      (n, bytes, (m.onFiles ((), after)).2)
    vfsWrite := fun fd bytes m => m.onFiles (env.vfsWrite fd bytes m)
    kmalloc := fun size m => m.onFiles (env.kmalloc size m)
    kfree := fun ptr m => (m.onFiles ((), env.kfree ptr m)).2
    tcpAllocConn := fun m =>
      (m.rest.stack.allocConn).elim (none, m) fun (i, s) => (some (ofConn i), m.onStack s)
    tcpClose := fun conn m => (m.atConn conn () fun i s => ((), s.close i)).2
    tcpListen := fun port m =>
      ((m.rest.stack.listen port).1.map ofConn, m.onStack (m.rest.stack.listen port).2)
    tcpFindAccepted := fun port m => (m.rest.stack.findAccepted port).map ofConn
    tcpConnRef := fun conn m =>
      (toConn conn).elim ⟨0, Vector.replicate 4 0⟩ fun i =>
        ⟨(m.rest.stack.conns i).remotePort, (m.rest.stack.conns i).peerIp.map UInt8.ofBitVec⟩
    tcpConnect := fun addr port m =>
      let (conn, s) := m.rest.stack.connect (addr.map UInt8.toBitVec) port polled mac
      (conn.map ofConn, m.onStack s)
    tcpSend := fun conn data m =>
      m.atConn conn false fun i s => s.send i (data.map UInt8.toBitVec)
    tcpRecv := fun conn m =>
      let (copied, m) := m.atConn conn (0, fun _ => 0) fun i s => received (s.recv i 2048)
      (copied.1, copied.2, m) }

/-- The services where nothing waits for an address. -/
def overStack (env : Services (Below τ)) : Services (Below τ) :=
  overTcp env [] (Vector.replicate 6 0)

namespace Machine

/-- What the call returns; `none` is a panic, and a switch to a task that is not ready. -/
def descriptorCall (env : Services (Below τ)) (m : Machine (Below τ)) :
    DescriptorCall τ → Option (BitVec 64 × Machine (Below τ))
  | .openFile ptr len flags => (m.openFile (overStack env) ptr len flags).returned
  | .readFile idx buf count => (m.readFile (overStack env) idx buf count).returned
  | .writeFile idx buf count => (m.writeFile (overStack env) idx buf count).returned
  | .closeFd idx => (m.closeFd idx).returned
  | .fstat idx => (m.fstat idx).returned
  | .lseek idx offset whence => (m.lseek idx offset whence).returned
  | .dup oldFd => (m.dup oldFd).returned
  | .dup2 oldFd newFd => (m.dup2 oldFd newFd).returned
  | .pipe fdsPtr => (m.pipe (overStack env) fdsPtr).returned
  | .socket domain sockType => (m.socket (overStack env) domain sockType).returned
  | .bind idx sockaddr => (m.bind idx sockaddr).returned
  | .listen idx => (m.listen (overStack env) idx).returned
  | .accept idx sockaddr addrlen => (m.accept (overStack env) idx sockaddr addrlen).returned
  | .connect idx sockaddr polled mac => (m.connect (overTcp env polled mac) idx sockaddr).returned
  | .send idx buf len => (m.send (overStack env) idx buf len).returned
  | .recv idx buf len => (m.recv (overStack env) idx buf len).returned
  | .shutdown idx => (m.shutdown (overStack env) idx).returned
  | .stack call => some (0, m.onStack (m.rest.stack.perform call))
  | .files files => some (0, { m with rest := { m.rest with files } })
  | .compute memory => some (0, { m with user := memory })
  | .switch next => (m.switch next).map fun m => (0, m)

end Machine

/-- The descriptor of a call on a socket. -/
def DescriptorCall.socketFd : DescriptorCall τ → Option (BitVec 64)
  | .bind idx _ | .listen idx | .accept idx _ _ | .connect idx _ _ _ | .send idx _ _
  | .recv idx _ _ | .shutdown idx => some idx
  | _ => none

/-- The connection that a descriptor obtained, and whether its slot has held no other since. -/
structure Title where
  slot : Net.Tcp.Slot
  born : Nat
  current : Bool
deriving DecidableEq

/-- The slot holds no other connection. -/
def Title.settle (title : Title) (stack : Stack) : Title :=
  { title with
    current := title.current &&
      decide (stack.born title.slot = title.born ∨ stack.born title.slot = 0) }

/-- The title to the connection that an entry has just been given. -/
def entitle (entry : FdEntry) (born : Net.Tcp.Slot → Nat) : Option Title :=
  (toConn (Machine.connOf entry)).map fun slot => ⟨slot, born slot, true⟩

/-- The machine, the titles of its descriptors and the value of the last call. -/
structure Desk (τ : Type) where
  machine : Machine (Below τ)
  title : Scheduler.Slot × Fin maxFds → Option Title
  value : BitVec 64

namespace Desk

variable (env : Services (Below τ)) (d : Desk τ)

/-- The stack that a call finds. -/
def stack : Stack := d.machine.rest.stack

/-- The title of the current task's descriptor. -/
def titleOf (idx : BitVec 64) : Option Title :=
  if bound : idx.toNat < maxFds then d.title (d.machine.kernel.current, ⟨idx.toNat, bound⟩) else none

/-- The stack once `SYS_LISTEN` and `SYS_CONNECT` have closed the placeholder. -/
def closed (idx : BitVec 64) : Stack :=
  (d.machine.fd idx).elim d.stack fun found => d.machine.closedBy found.2

/-- The descriptor that obtains a connection in a call, and its title. -/
def given (call : DescriptorCall τ) (value : BitVec 64) :
    Option (BitVec 64 × (FdEntry → Option Title)) :=
  match call with
  | .socket .. => some (value, fun entry => entitle entry fun _ => d.stack.history.births)
  | .accept .. => some (value, fun entry => entitle entry d.stack.born)
  | .listen idx | .connect idx .. =>
    if value = 0#64 then
      some (idx, fun entry => entitle entry fun _ => (d.closed idx).history.births)
    else none
  | .dup oldFd | .dup2 oldFd _ => some (value, fun _ => d.titleOf oldFd)
  | _ => none

/-- The titles behind a call. -/
def noted (call : DescriptorCall τ) (value : BitVec 64) (after : Machine (Below τ))
    (fd : Scheduler.Slot × Fin maxFds) : Option Title :=
  match d.given call value with
  | some (number, title) =>
    if fd.1 = d.machine.kernel.current ∧ fd.2.val = number.toNat then title (after.entryOf fd)
    else d.title fd
  | none => d.title fd

/-- The desk behind a call: a descriptor that is not in use has no title. -/
def behind (call : DescriptorCall τ) (value : BitVec 64) (after : Machine (Below τ)) : Desk τ where
  machine := after
  title := fun fd =>
    if (after.entryOf fd).inUse then
      (d.noted call value after fd).map fun title => title.settle after.rest.stack
    else none
  value := value

def step (call : DescriptorCall τ) : Option (Desk τ) :=
  (d.machine.fresh.descriptorCall env call).map fun (value, after) => d.behind call value after

/-- A machine whose descriptors have obtained nothing. -/
def ofMachine (m : Machine (Below τ)) : Desk τ := ⟨m, fun _ => none, 0#64⟩

end Desk

namespace Machine

variable {env : Services (Below τ)} {m m₁ m' : Machine (Below τ)} {value : BitVec 64}
  {fd : Scheduler.Slot × Fin maxFds}

/-- A call below the handlers that concerns the files only. -/
structure Quiet (m m' : Machine (Below τ)) : Prop where
  kernel : m'.kernel = m.kernel
  stack : m'.rest.stack = m.rest.stack
  touched : m'.rest.touched = m.rest.touched

theorem Quiet.trans (first : Quiet m m₁) (second : Quiet m₁ m') : Quiet m m' :=
  ⟨second.kernel.trans first.kernel, second.stack.trans first.stack,
    second.touched.trans first.touched⟩

/-- The descriptor is closed, or has the offset and the flags that it had. -/
def Spared (m m' : Machine (Below τ)) (fd : Scheduler.Slot × Fin maxFds) : Prop :=
  (m'.entryOf fd).inUse = true →
    (m'.entryOf fd).offset = (m.entryOf fd).offset ∧ (m'.entryOf fd).flags = (m.entryOf fd).flags

/-- A call that leaves the stack alone and spares a descriptor. -/
structure Passes (m m' : Machine (Below τ)) (fd : Scheduler.Slot × Fin maxFds) : Prop where
  stack : m'.rest.stack = m.rest.stack
  spared : Spared m m' fd

theorem Spared.of_kernel (kernel : m'.kernel = m.kernel) : Spared m m' fd := by
  intro _
  rw [entryOf_kernel kernel]
  exact ⟨rfl, rfl⟩

theorem Quiet.passes (quiet : Quiet m m') : Passes m m' fd :=
  ⟨quiet.stack, .of_kernel quiet.kernel⟩

/-- An entry that is written spares every other descriptor. -/
theorem Spared.setFd {slot : Fin maxFds} {entry : FdEntry} (kernel : m₁.kernel = m.kernel)
    (here : fd = (m.kernel.current, slot) → entry.inUse = true →
      entry.offset = (m.entryOf fd).offset ∧ entry.flags = (m.entryOf fd).flags) :
    Spared m (m₁.setFd slot entry) fd := by
  intro used
  rw [entryOf_setFd, kernel] at used ⊢
  split_ifs at used ⊢ with same
  · exact here same used
  · rw [entryOf_kernel kernel]
    exact ⟨rfl, rfl⟩

/-- A call that leaves the stack and every descriptor in use alone. -/
structure Adds (m m' : Machine (Below τ)) : Prop where
  current : m'.kernel.current = m.kernel.current
  stack : m'.rest.stack = m.rest.stack
  entries : ∀ {fd}, (m.entryOf fd).inUse = true → m'.entryOf fd = m.entryOf fd

theorem Quiet.adds (quiet : Quiet m m') : Adds m m' :=
  ⟨congrArg Kernel.current quiet.kernel, quiet.stack, fun _ => entryOf_kernel quiet.kernel _⟩

theorem Adds.trans (first : Adds m m₁) (second : Adds m₁ m') : Adds m m' where
  current := second.current.trans first.current
  stack := second.stack.trans first.stack
  entries used := by
    have same := first.entries used
    rw [second.entries (same ▸ used), same]

/-- An entry of a descriptor that is not in use is written. -/
theorem Adds.setFd {slot : Fin maxFds} {entry : FdEntry} (adds : Adds m m')
    (idle : (m.entryOf (m.kernel.current, slot)).inUse = false) : Adds m (m'.setFd slot entry) where
  current := adds.current
  stack := adds.stack
  entries {fd} used := by
    have apart : fd ≠ (m.kernel.current, slot) := by
      rintro rfl
      rw [idle] at used
      cases used
    rw [entryOf_setFd, adds.current, if_neg apart, adds.entries used]

theorem adds_setFree {slot : Fin maxFds} {entry : FdEntry} (free : m.freeFd = some slot) :
    Adds m (m.setFd slot entry) :=
  .setFd ⟨rfl, rfl, fun _ => rfl⟩ (freeFd_some free)

theorem Adds.passes (adds : Adds m m') (used : (m.entryOf fd).inUse = true) : Passes m m' fd := by
  have same := adds.entries used
  exact ⟨adds.stack, fun _ => ⟨congrArg _ same, congrArg _ same⟩⟩

/-- What a call on a descriptor returns: it fails, or its action returns. -/
theorem withFd_returned {idx : BitVec 64} {act : Fin maxFds → FdEntry → Reply (Below τ)}
    (called : (m.withFd idx act).returned = some (value, m')) :
    (m.fd idx = none ∧ value = exitMagic ∧ m' = m) ∨
      ∃ slot entry, m.fd idx = some (slot, entry) ∧
        (act slot entry).returned = some (value, m') := by
  unfold withFd at called
  cases found : m.fd idx with
  | none =>
    rw [found] at called
    obtain ⟨rfl, rfl⟩ := Prod.mk.inj (Option.some.inj called)
    exact .inl ⟨rfl, rfl, rfl⟩
  | some pair =>
    rw [found] at called
    exact .inr ⟨pair.1, pair.2, rfl, called⟩

/-! ## Calls on files -/

theorem openFile_passes {ptr len flags : BitVec 64}
    (called : (m.openFile (overStack env) ptr len flags).returned = some (value, m'))
    (used : (m.entryOf fd).inUse = true) : Passes m m' fd := by
  unfold openFile at called
  by_cases short : PathLen len
  · have quiet : Quiet m ((overStack env).vfsOpen (m.readBytes ptr len.toNat) flags m).2 :=
      ⟨rfl, rfl, rfl⟩
    rcases opened : (overStack env).vfsOpen (m.readBytes ptr len.toNat) flags m with ⟨vfsFd, after⟩
    rw [opened] at quiet
    simp only [short, if_true, opened] at called
    split_ifs at called
    · obtain ⟨-, rfl⟩ := Prod.mk.inj (Option.some.inj called)
      exact quiet.passes
    · cases free : after.freeFd with
      | none =>
        rw [free] at called
        obtain ⟨-, rfl⟩ := Prod.mk.inj (Option.some.inj called)
        have closed : Quiet after ((overStack env).vfsClose vfsFd after) := ⟨rfl, rfl, rfl⟩
        exact (quiet.trans closed).passes
      | some slot =>
        rw [free] at called
        obtain ⟨-, rfl⟩ := Prod.mk.inj (Option.some.inj called)
        exact (quiet.adds.trans (adds_setFree free)).passes used
  · rw [if_neg short] at called
    obtain ⟨-, rfl⟩ := Prod.mk.inj (Option.some.inj called)
    exact ⟨rfl, .of_kernel rfl⟩

/-- `SYS_READ` moves the offset of a descriptor with bytes left, once the file is open. -/
def Reads (env : Services (Below τ)) (m : Machine (Below τ)) (idx count : BitVec 64) : Prop :=
  ∃ found, m.fd idx = some found ∧ count ≠ 0#64 ∧ found.2.offset < found.2.size ∧
    0 ≤ ((overStack env).vfsOpen (fdName found.2) 0#64 m).1.toInt

/-- The descriptor with this number. -/
def IsNumber (m : Machine (Below τ)) (idx : BitVec 64) (fd : Scheduler.Slot × Fin maxFds) : Prop :=
  fd.1 = m.kernel.current ∧ fd.2.val = idx.toNat

theorem isNumber_of_fd {idx : BitVec 64} {slot : Fin maxFds} {entry : FdEntry}
    (found : m.fd idx = some (slot, entry)) : m.IsNumber idx (m.kernel.current, slot) :=
  ⟨rfl, (fd_some found).1⟩

theorem readFile_passes {idx buf count : BitVec 64}
    (called : (m.readFile (overStack env) idx buf count).returned = some (value, m'))
    (spares : m.IsNumber idx fd → ¬ Reads env m idx count) : Passes m m' fd := by
  rcases withFd_returned called with ⟨-, -, rfl⟩ | ⟨slot, entry, found, called⟩
  · exact ⟨rfl, .of_kernel rfl⟩
  have reads (left : min count.toNat (entry.size.toNat - entry.offset.toNat) ≠ 0)
      (opens : ¬ ((overStack env).vfsOpen (fdName entry) 0#64 m).1.toInt < 0) :
      Reads env m idx count := by
    have below : entry.offset.toNat < entry.size.toNat := by omega
    refine ⟨(slot, entry), found, ?_, BitVec.lt_def.mpr below, not_lt.mp opens⟩
    rintro rfl
    simp at left
  generalize min count.toNat (entry.size.toNat - entry.offset.toNat) = toRead at called reads
  have opened : Quiet m ((overStack env).vfsOpen (fdName entry) 0#64 m).2 := ⟨rfl, rfl, rfl⟩
  generalize (overStack env).vfsOpen (fdName entry) 0#64 m = result at called reads opened
  obtain ⟨vfsFd, after⟩ := result
  have placed : Quiet after ((overStack env).vfsLseek vfsFd (entry.offset.setWidth 64) after) :=
    ⟨rfl, rfl, rfl⟩
  have read (n : Nat) (m : Machine (Below τ)) :
      Quiet m ((overStack env).vfsRead vfsFd n m).2.2 := ⟨rfl, rfl, rfl⟩
  have closed (m : Machine (Below τ)) : Quiet m ((overStack env).vfsClose vfsFd m) :=
    ⟨rfl, rfl, rfl⟩
  generalize overStack env = services at called placed read closed
  dsimp only at called reads opened
  split_ifs at called with nothing mapped failed empty negative large
  · obtain ⟨-, rfl⟩ := Prod.mk.inj (Option.some.inj called)
    exact ⟨rfl, .of_kernel rfl⟩
  · obtain ⟨-, rfl⟩ := Prod.mk.inj (Option.some.inj called)
    exact opened.passes
  · obtain ⟨-, rfl⟩ := Prod.mk.inj (Option.some.inj called)
    exact (((opened.trans placed).trans (read _ _)).trans (closed _)).passes
  · obtain ⟨-, rfl⟩ := Prod.mk.inj (Option.some.inj called)
    exact (((opened.trans placed).trans (read _ _)).trans (closed _)).passes
  · cases called
  · have quiet := ((opened.trans placed).trans (read (min toRead 4096) _)).trans (closed _)
    split at called
    · cases called
    · obtain ⟨-, rfl⟩ := Prod.mk.inj (Option.some.inj called)
      refine ⟨quiet.stack, .setFd quiet.kernel fun here _ => absurd (reads nothing failed) ?_⟩
      exact spares (here ▸ isNumber_of_fd found)
  · obtain ⟨-, rfl⟩ := Prod.mk.inj (Option.some.inj called)
    exact ⟨rfl, .of_kernel rfl⟩

/-- A socket's entry is not open for writing. -/
theorem writeFile_passes {idx buf count : BitVec 64}
    (called : (m.writeFile (overStack env) idx buf count).returned = some (value, m'))
    (spares : m.IsNumber idx fd → (m.entryOf fd).flags = 0#64) : Passes m m' fd := by
  rcases withFd_returned called with ⟨-, -, rfl⟩ | ⟨slot, entry, found, called⟩
  · exact ⟨rfl, .of_kernel rfl⟩
  have locked (here : fd = (m.kernel.current, slot)) : entry.flags = 0#64 := by
    have flags := spares (here ▸ isNumber_of_fd found)
    rw [here, ← (fd_some found).2.1] at flags
    exact flags
  have opened : Quiet m ((overStack env).vfsOpen (fdName entry) entry.flags m).2 :=
    ⟨rfl, rfl, rfl⟩
  generalize m.readBytes buf (min count.toNat 4096) = bytes at called
  generalize (overStack env).vfsOpen (fdName entry) entry.flags m = result at called opened
  obtain ⟨vfsFd, after⟩ := result
  have placed : Quiet after ((overStack env).vfsLseek vfsFd (entry.offset.setWidth 64) after) :=
    ⟨rfl, rfl, rfl⟩
  have written (m : Machine (Below τ)) : Quiet m ((overStack env).vfsWrite vfsFd bytes m).2 :=
    ⟨rfl, rfl, rfl⟩
  have closed (m : Machine (Below τ)) : Quiet m ((overStack env).vfsClose vfsFd m) :=
    ⟨rfl, rfl, rfl⟩
  generalize overStack env = services at called placed written closed
  dsimp only at called opened
  split_ifs at called with readOnly mapped failed negative
  · obtain ⟨-, rfl⟩ := Prod.mk.inj (Option.some.inj called)
    exact ⟨rfl, .of_kernel rfl⟩
  · obtain ⟨-, rfl⟩ := Prod.mk.inj (Option.some.inj called)
    exact opened.passes
  · obtain ⟨-, rfl⟩ := Prod.mk.inj (Option.some.inj called)
    exact (((opened.trans placed).trans (written _)).trans (closed _)).passes
  · have quiet := ((opened.trans placed).trans (written _)).trans (closed _)
    split at called
    · cases called
    · obtain ⟨-, rfl⟩ := Prod.mk.inj (Option.some.inj called)
      refine ⟨quiet.stack, .setFd quiet.kernel fun here _ => absurd ?_ readOnly⟩
      rw [locked here]
      exact ⟨by decide, by decide⟩
  · obtain ⟨-, rfl⟩ := Prod.mk.inj (Option.some.inj called)
    exact ⟨rfl, .of_kernel rfl⟩

theorem closeFd_passes {idx : BitVec 64}
    (called : (m.closeFd idx).returned = some (value, m')) : Passes m m' fd := by
  rcases withFd_returned called with ⟨-, -, rfl⟩ | ⟨slot, entry, -, called⟩
  · exact ⟨rfl, .of_kernel rfl⟩
  · obtain ⟨-, rfl⟩ := Prod.mk.inj (Option.some.inj called)
    exact ⟨rfl, .setFd rfl fun _ used => absurd used (by decide)⟩

theorem fstat_passes {idx : BitVec 64}
    (called : (m.fstat idx).returned = some (value, m')) : Passes m m' fd := by
  rcases withFd_returned called with ⟨-, -, rfl⟩ | ⟨slot, entry, -, called⟩
  · exact ⟨rfl, .of_kernel rfl⟩
  · obtain ⟨-, rfl⟩ := Prod.mk.inj (Option.some.inj called)
    exact ⟨rfl, .of_kernel rfl⟩

/-- `SYS_LSEEK` moves the offset. -/
def Seeks (m : Machine (Below τ)) (idx offset whence : BitVec 64) : Prop :=
  ∃ found target, m.fd idx = some found ∧
    seekTarget found.2 offset (whence.setWidth 32) = some target ∧
    BitVec.ofInt 32 target ≠ found.2.offset

theorem lseek_passes {idx offset whence : BitVec 64}
    (called : (m.lseek idx offset whence).returned = some (value, m'))
    (spares : m.IsNumber idx fd → ¬ Seeks m idx offset whence) : Passes m m' fd := by
  rcases withFd_returned called with ⟨-, -, rfl⟩ | ⟨slot, entry, found, called⟩
  · exact ⟨rfl, .of_kernel rfl⟩
  cases target : seekTarget entry offset (whence.setWidth 32) with
  | none =>
    rw [target] at called
    obtain ⟨-, rfl⟩ := Prod.mk.inj (Option.some.inj called)
    exact ⟨rfl, .of_kernel rfl⟩
  | some place =>
    rw [target] at called
    dsimp only at called
    split_ifs at called
    · cases called
    · obtain ⟨-, rfl⟩ := Prod.mk.inj (Option.some.inj called)
      refine ⟨rfl, .setFd rfl fun here _ => ?_⟩
      have stays := spares (here ▸ isNumber_of_fd found)
      rw [here, ← (fd_some found).2.1]
      refine ⟨?_, rfl⟩
      by_contra moved
      exact stays ⟨(slot, entry), place, found, target, moved⟩

theorem pipe_passes {fdsPtr : BitVec 64}
    (called : (m.pipe (overStack env) fdsPtr).returned = some (value, m'))
    (used : (m.entryOf fd).inUse = true) : Passes m m' fd := by
  unfold pipe at called
  have quiet : Quiet m ((overStack env).kmalloc 4096 m).2 := ⟨rfl, rfl, rfl⟩
  generalize (overStack env).kmalloc 4096 m = result at called quiet
  obtain ⟨buf, after⟩ := result
  have freed (m : Machine (Below τ)) : Quiet m ((overStack env).kfree buf m) := ⟨rfl, rfl, rfl⟩
  dsimp only at called quiet
  split_ifs at called
  · obtain ⟨-, rfl⟩ := Prod.mk.inj (Option.some.inj called)
    exact quiet.passes
  cases readFree : after.freeFd with
  | none =>
    rw [readFree] at called
    obtain ⟨-, rfl⟩ := Prod.mk.inj (Option.some.inj called)
    exact (quiet.trans (freed _)).passes
  | some readSlot =>
    rw [readFree] at called
    dsimp only at called
    have idle := freeFd_some readFree
    have read (entry : FdEntry) : Adds after (after.setFd readSlot entry) := adds_setFree readFree
    cases writeFree : (after.setFd readSlot ⟨true, pipeName buf, 0#32, 0#32, 0#64⟩).freeFd with
    | none =>
      rw [writeFree] at called
      obtain ⟨-, rfl⟩ := Prod.mk.inj (Option.some.inj called)
      exact (quiet.adds.trans (((read _).trans (freed _).adds).setFd idle)).passes used
    | some writeSlot =>
      rw [writeFree] at called
      obtain ⟨-, rfl⟩ := Prod.mk.inj (Option.some.inj called)
      have write (entry : FdEntry) : Adds _ (Machine.setFd _ writeSlot entry) :=
        adds_setFree writeFree
      have written := quiet.adds.trans
        ((read _).trans (write ⟨true, pipeName buf, 0#32, 4096#32, 1#64⟩))
      exact ⟨written.stack, (written.passes used).spared⟩

/-! ## Calls that hand a descriptor on -/

theorem dup_cases {oldFd : BitVec 64} (called : (m.dup oldFd).returned = some (value, m')) :
    (value = exitMagic ∧ m' = m) ∨ ∃ old entry slot, m.fd oldFd = some (old, entry) ∧
      m.freeFd = some slot ∧ value = BitVec.ofNat 64 slot.val ∧ m' = m.setFd slot entry := by
  rcases withFd_returned called with ⟨-, rfl, rfl⟩ | ⟨old, entry, found, called⟩
  · exact .inl ⟨rfl, rfl⟩
  · cases free : m.freeFd with
    | none =>
      rw [free] at called
      obtain ⟨rfl, rfl⟩ := Prod.mk.inj (Option.some.inj called)
      exact .inl ⟨rfl, rfl⟩
    | some slot =>
      rw [free] at called
      obtain ⟨rfl, rfl⟩ := Prod.mk.inj (Option.some.inj called)
      exact .inr ⟨old, entry, slot, found, rfl, rfl, rfl⟩

theorem dup2_cases {oldFd newFd : BitVec 64}
    (called : (m.dup2 oldFd newFd).returned = some (value, m')) :
    (value = exitMagic ∧ m' = m) ∨ ∃ old entry slot, m.fd oldFd = some (old, entry) ∧
      value.toNat = slot.val ∧ m' = m.setFd slot entry := by
  rcases withFd_returned called with ⟨-, rfl, rfl⟩ | ⟨old, entry, found, called⟩
  · exact .inl ⟨rfl, rfl⟩
  · split_ifs at called with bound
    · obtain ⟨rfl, rfl⟩ := Prod.mk.inj (Option.some.inj called)
      exact .inr ⟨old, entry, ⟨newFd.toNat, bound⟩, found, rfl, rfl⟩
    · obtain ⟨rfl, rfl⟩ := Prod.mk.inj (Option.some.inj called)
      exact .inl ⟨rfl, rfl⟩

/-! ## Calls on sockets -/

/-- The connection of an entry. -/
theorem toConn_connOf {entry : FdEntry} {i : Net.Tcp.Slot}
    (offset : entry.offset = BitVec.ofNat 32 i.val) : toConn (connOf entry) = some i := by
  have same : connOf entry = connOf (socketEntry (ofConn i)) :=
    congrArg (BitVec.setWidth 64) (offset.trans (socketEntry_offset i).symm)
  rw [same, toConn_socketEntry]

/-- A call on the stack leaves the kernel. -/
theorem atConn_kernel {α : Type} (conn : BitVec 64) (absent : α)
    (act : Net.Tcp.Slot → Stack → α × Stack) : (m.atConn conn absent act).2.kernel = m.kernel := by
  unfold atConn
  cases toConn conn <;> rfl

theorem atConn_touched {α : Type} (conn : BitVec 64) (absent : α)
    (act : Net.Tcp.Slot → Stack → α × Stack) :
    (m.atConn conn absent act).2.rest.touched = m.rest.touched ++ [conn] := by
  unfold atConn
  cases toConn conn <;> rfl

theorem atConn_stack {α : Type} (conn : BitVec 64) (absent : α)
    (act : Net.Tcp.Slot → Stack → α × Stack) :
    (m.atConn conn absent act).2.rest.stack =
      (toConn conn).elim m.rest.stack fun i => (act i m.rest.stack).2 := by
  unfold atConn
  cases toConn conn <;> rfl

/-- A call that opens no connection. -/
theorem keeps_atConn {α : Type} {conn : BitVec 64} {absent : α}
    {act : Net.Tcp.Slot → Stack → α × Stack}
    (keeps : ∀ i, Stack.KeepsBut [] m.rest.stack (act i m.rest.stack).2) :
    Stack.KeepsBut [] m.rest.stack (m.atConn conn absent act).2.rest.stack := by
  rw [atConn_stack]
  cases toConn conn with
  | none => exact .refl _
  | some i => exact keeps i

/-- The slot that `SYS_SOCKET` takes. -/
def openedBySocket (m : Machine (Below τ)) (domain sockType : BitVec 64) : List Net.Tcp.Slot :=
  if domain.setWidth 32 ≠ 2#32 ∨ sockType.setWidth 32 ≠ 1#32 then []
  else m.rest.stack.firstFree.toList

/-- `SYS_SOCKET` fails, or a free descriptor obtains the connection that it opens. -/
theorem socket_cases {domain sockType : BitVec 64}
    (called : (m.socket (overStack env) domain sockType).returned = some (value, m')) :
    Stack.KeepsBut (m.openedBySocket domain sockType) m.rest.stack m'.rest.stack ∧
      ((value = exitMagic ∧ m'.kernel = m.kernel) ∨
        ∃ i slot, m.rest.stack.firstFree = some i ∧ m.freeFd = some slot ∧
          value = BitVec.ofNat 64 slot.val ∧
          m' = (m.onStack (m.rest.stack.claimed i)).setFd slot (socketEntry (ofConn i))) := by
  unfold socket at called
  unfold openedBySocket
  by_cases other : domain.setWidth 32 ≠ 2#32 ∨ sockType.setWidth 32 ≠ 1#32
  · rw [if_pos other] at called ⊢
    obtain ⟨rfl, rfl⟩ := Prod.mk.inj (Option.some.inj called)
    exact ⟨.refl _, .inl ⟨rfl, rfl⟩⟩
  · rw [if_neg other] at called ⊢
    have alloc : (overStack env).tcpAllocConn m = (m.rest.stack.firstFree.map fun i =>
        (i, m.rest.stack.claimed i)).elim (none, m) fun (i, s) => (some (ofConn i), m.onStack s) :=
      rfl
    rw [alloc] at called
    cases first : m.rest.stack.firstFree with
    | none =>
      rw [first] at called
      obtain ⟨rfl, rfl⟩ := Prod.mk.inj (Option.some.inj called)
      exact ⟨.refl _, .inl ⟨rfl, rfl⟩⟩
    | some i =>
      have claimed := Stack.keeps_claimed first
      rw [first] at called claimed
      dsimp only [Option.map_some, Option.elim_some] at called
      cases free : (m.onStack (m.rest.stack.claimed i)).freeFd with
      | none =>
        rw [free] at called
        obtain ⟨rfl, rfl⟩ := Prod.mk.inj (Option.some.inj called)
        refine ⟨claimed.then_keeps ?_, .inl ⟨rfl, atConn_kernel _ _ _⟩⟩
        exact keeps_atConn fun j => Stack.keeps_close j
      | some slot =>
        rw [free] at called
        obtain ⟨rfl, rfl⟩ := Prod.mk.inj (Option.some.inj called)
        exact ⟨claimed, .inr ⟨i, slot, rfl, free, rfl, rfl⟩⟩

theorem bind_cases {idx sockaddr : BitVec 64}
    (called : (m.bind idx sockaddr).returned = some (value, m')) :
    (m.fd idx = none ∧ value = exitMagic ∧ m' = m) ∨
      ∃ slot entry, m.fd idx = some (slot, entry) ∧ m'.rest = m.rest ∧ ∀ fd, Spared m m' fd := by
  rcases withFd_returned called with failed | ⟨slot, entry, found, called⟩
  · exact .inl failed
  · obtain ⟨-, rfl⟩ := Prod.mk.inj (Option.some.inj called)
    refine .inr ⟨slot, entry, found, rfl, fun fd => .setFd rfl fun here _ => ?_⟩
    rw [here, ← (fd_some found).2.1]
    exact ⟨rfl, rfl⟩

/-- What `SYS_LISTEN` and `SYS_CONNECT` do with the placeholder, whatever opens the connection
that replaces it. -/
structure Adopts (m m' : Machine (Below τ)) (value : BitVec 64) (slot : Fin maxFds)
    (entry : FdEntry) (opened : Option Net.Tcp.Slot × Stack) : Prop where
  touched : m'.rest.touched = m.rest.touched ++ [connOf entry]
  stack : m'.rest.stack = opened.2
  entries : (opened.1 = none ∧ value = exitMagic ∧ m'.kernel = m.kernel) ∨
    ∃ i, opened.1 = some i ∧ value = 0#64 ∧ ∀ fd, m'.entryOf fd =
      if fd = (m.kernel.current, slot) then { entry with offset := BitVec.ofNat 32 i.val }
      else m.entryOf fd

theorem adopts {idx : BitVec 64} {slot : Fin maxFds} {entry : FdEntry}
    {opened : Option Net.Tcp.Slot × Stack} (found : m.fd idx = some (slot, entry))
    (called : (adopt slot (opened.1.map ofConn,
      ((m.atConn (connOf entry) () fun i s => ((), s.close i)).2).onStack opened.2)).returned =
        some (value, m')) : Adopts m m' value slot entry opened := by
  have kernel := atConn_kernel (m := m) (connOf entry) () fun i s => ((), s.close i)
  have touched := atConn_touched (m := m) (connOf entry) () fun i s => ((), s.close i)
  generalize (m.atConn (connOf entry) () fun i s => ((), s.close i)).2 = closed
    at called kernel touched
  obtain ⟨conn, stack⟩ := opened
  cases conn with
  | none =>
    obtain ⟨rfl, rfl⟩ := Prod.mk.inj (Option.some.inj called)
    exact ⟨touched, rfl, .inl ⟨rfl, rfl, kernel⟩⟩
  | some i =>
    obtain ⟨rfl, rfl⟩ := Prod.mk.inj (Option.some.inj called)
    refine ⟨touched, rfl, .inr ⟨i, rfl, rfl, fun fd => ?_⟩⟩
    have current : (closed.onStack stack).kernel.current = m.kernel.current :=
      congrArg Kernel.current kernel
    have same (fd : Scheduler.Slot × Fin maxFds) : (closed.onStack stack).entryOf fd =
        m.entryOf fd := entryOf_kernel kernel fd
    rw [entryOf_setFd, current, same]
    refine if_congr Iff.rfl ?_ rfl
    have here : (closed.onStack stack).kernel.currentTask.fds.get slot = entry := by
      change (closed.onStack stack).entryOf ((closed.onStack stack).kernel.current, slot) = entry
      rw [current, same]
      exact (fd_some found).2.1.symm
    rw [here]
    exact congrArg (fun offset => { entry with offset := offset }) (socketEntry_offset i)

theorem listen_cases {idx : BitVec 64}
    (called : (m.listen (overStack env) idx).returned = some (value, m')) :
    (m.fd idx = none ∧ value = exitMagic ∧ m' = m) ∨ ∃ slot entry, m.fd idx = some (slot, entry) ∧
      Adopts m m' value slot entry ((m.closedBy entry).listen (entry.size.setWidth 16)) := by
  rcases withFd_returned called with failed | ⟨slot, entry, found, called⟩
  · exact .inl failed
  · refine .inr ⟨slot, entry, found, ?_⟩
    have closed := atConn_stack (m := m) (connOf entry) () fun i s => ((), s.close i)
    have called : (adopt slot
        (((m.atConn (connOf entry) () fun i s => ((), s.close i)).2.rest.stack.listen
          (entry.size.setWidth 16)).1.map ofConn,
        (m.atConn (connOf entry) () fun i s => ((), s.close i)).2.onStack
          ((m.atConn (connOf entry) () fun i s => ((), s.close i)).2.rest.stack.listen
            (entry.size.setWidth 16)).2)).returned = some (value, m') := called
    rw [closed] at called
    exact adopts found called

/-- The address that `SYS_CONNECT` reads. -/
def sockAddr (m : Machine (Below τ)) (sockaddr : BitVec 64) : Net.Ipv4 :=
  (Vector.ofFn fun i : Fin 4 => m.user (sockaddr + BitVec.ofNat 64 (4 + i.val))).map UInt8.toBitVec

theorem connect_cases {idx sockaddr : BitVec 64} {polled : List Arrival} {mac : Net.Mac}
    (called : (m.connect (overTcp env polled mac) idx sockaddr).returned = some (value, m')) :
    (m.fd idx = none ∧ value = exitMagic ∧ m' = m) ∨ ∃ slot entry, m.fd idx = some (slot, entry) ∧
      Adopts m m' value slot entry
        ((m.closedBy entry).connect (m.sockAddr sockaddr) (m.sockPort sockaddr) polled mac) := by
  rcases withFd_returned called with failed | ⟨slot, entry, found, called⟩
  · exact .inl failed
  · refine .inr ⟨slot, entry, found, ?_⟩
    have closed := atConn_stack (m := m) (connOf entry) () fun i s => ((), s.close i)
    have called : (adopt slot
        (((m.atConn (connOf entry) () fun i s => ((), s.close i)).2.rest.stack.connect
          (m.sockAddr sockaddr) (m.sockPort sockaddr) polled mac).1.map ofConn,
        (m.atConn (connOf entry) () fun i s => ((), s.close i)).2.onStack
          ((m.atConn (connOf entry) () fun i s => ((), s.close i)).2.rest.stack.connect
            (m.sockAddr sockaddr) (m.sockPort sockaddr) polled mac).2)).returned =
              some (value, m') := called
    rw [closed] at called
    exact adopts found called

/-- A call that acts on the connection of a descriptor and opens none. -/
structure Acts (m m' : Machine (Below τ)) (entry : FdEntry) (fd : Scheduler.Slot × Fin maxFds) :
    Prop where
  touched : m'.rest.touched = m.rest.touched ++ [connOf entry]
  stack : Stack.KeepsBut [] m.rest.stack m'.rest.stack
  spared : Spared m m' fd

theorem acts_atConn {α : Type} {entry : FdEntry} {absent : α}
    {act : Net.Tcp.Slot → Stack → α × Stack}
    (keeps : ∀ i, Stack.KeepsBut [] m.rest.stack (act i m.rest.stack).2) :
    Acts m (m.atConn (connOf entry) absent act).2 entry fd :=
  ⟨atConn_touched _ _ _, keeps_atConn keeps, .of_kernel (atConn_kernel _ _ _)⟩

theorem send_cases {idx buf len : BitVec 64}
    (called : (m.send (overStack env) idx buf len).returned = some (value, m')) :
    (m.fd idx = none ∧ value = exitMagic ∧ m' = m) ∨
      ∃ slot entry, m.fd idx = some (slot, entry) ∧ Acts m m' entry fd := by
  rcases withFd_returned called with failed | ⟨slot, entry, found, called⟩
  · exact .inl failed
  · refine .inr ⟨slot, entry, found, ?_⟩
    have acts : Acts m (m.atConn (connOf entry) false fun i s => s.send i
        ((m.readBytes buf (min len.toNat 1400)).map UInt8.toBitVec)).2 entry fd :=
      acts_atConn fun i => Stack.keeps_send i _
    have called : (match m.atConn (connOf entry) false fun i s => s.send i
        ((m.readBytes buf (min len.toNat 1400)).map UInt8.toBitVec) with
      | (sent, after) => if sent then Reply.ret (BitVec.ofNat 64 (min len.toNat 1400)) after
          else Reply.fail after).returned = some (value, m') := called
    generalize m.atConn (connOf entry) false _ = result at called acts
    dsimp only at called
    split_ifs at called <;>
      obtain ⟨-, rfl⟩ := Prod.mk.inj (Option.some.inj called) <;> exact acts

theorem recv_cases {idx buf len : BitVec 64}
    (called : (m.recv (overStack env) idx buf len).returned = some (value, m')) :
    (m.fd idx = none ∧ value = exitMagic ∧ m' = m) ∨
      ∃ slot entry, m.fd idx = some (slot, entry) ∧ Acts m m' entry fd := by
  rcases withFd_returned called with failed | ⟨slot, entry, found, called⟩
  · exact .inl failed
  · refine .inr ⟨slot, entry, found, ?_⟩
    have acts : Acts m (m.atConn (connOf entry) (0, fun _ => 0) fun i s =>
        DBSos.Syscall.received (s.recv i 2048)).2 entry fd :=
      acts_atConn fun i => Stack.keeps_recv i 2048
    have called : (match m.atConn (connOf entry) (0, fun _ => 0) fun i s =>
        DBSos.Syscall.received (s.recv i 2048) with
      | ((n, out), after) => if n.val = 0 then Reply.ret 0#64 after
          else Reply.ret (BitVec.ofNat 64 (min n.val len.toNat))
            (after.writeBytes buf ((List.range (min n.val len.toNat)).map out))).returned =
        some (value, m') := called
    generalize m.atConn (connOf entry) ((0 : Fin 2049), fun _ : Nat => (0 : UInt8)) _ = result
      at called acts
    dsimp only at called
    split_ifs at called <;>
      obtain ⟨-, rfl⟩ := Prod.mk.inj (Option.some.inj called)
    · exact acts
    · exact ⟨acts.touched, acts.stack, acts.spared⟩

theorem shutdown_cases {idx : BitVec 64}
    (called : (m.shutdown (overStack env) idx).returned = some (value, m')) :
    (m.fd idx = none ∧ value = exitMagic ∧ m' = m) ∨
      ∃ slot entry, m.fd idx = some (slot, entry) ∧ Acts m m' entry fd := by
  rcases withFd_returned called with failed | ⟨slot, entry, found, called⟩
  · exact .inl failed
  · refine .inr ⟨slot, entry, found, ?_⟩
    obtain ⟨-, rfl⟩ := Prod.mk.inj (Option.some.inj called)
    have acts : Acts m (m.atConn (connOf entry) () fun i s => ((), s.close i)).2 entry fd :=
      acts_atConn fun i => Stack.keeps_close i
    exact ⟨acts.touched, acts.stack,
      .setFd (atConn_kernel _ _ _) fun _ used => absurd used (by decide)⟩

end Machine

end DBSos.Syscall
