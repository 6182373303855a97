import DBSos.Lib.Trace
import DBSos.Net.Tcp
import DBSos.Syscall.Resources

/-!
# Which connection an accept returns

`find_accepted` goes by the port and the state of a connection, and nothing marks one
that has been returned: an accept returns the same connection again while it is the
first of its port. A descriptor keeps the number of its connection's slot when the peer
resets it, and names whatever moves in next.
-/

namespace DBSos.Syscall

open DBSos.Lib DBSos.Net.Tcp DBSos.Scheduler

/-- The index of a connection as a `usize`. -/
def ofConn (i : Net.Tcp.Slot) : BitVec 64 := BitVec.ofNat 64 i.val

/-- An index of `CONNS`; `conn(i)` panics behind it. -/
def toConn (conn : BitVec 64) : Option Net.Tcp.Slot :=
  if below : conn.toNat < maxConns then some ⟨conn.toNat, below⟩ else none

/-- The services with the calls that sockets make on the TCP stack in place. -/
def withTcp (env : Services Stack) : Services Stack :=
  { env with
    tcpAllocConn := fun m =>
      (m.rest.allocConn).elim (none, m) fun (i, s) => (some (ofConn i), { m with rest := s })
    tcpClose := fun conn m => (toConn conn).elim m fun i => { m with rest := m.rest.close i }
    tcpListen := fun port m =>
      ((m.rest.listen port).1.map ofConn, { m with rest := (m.rest.listen port).2 })
    tcpFindAccepted := fun port m => (m.rest.findAccepted port).map ofConn
    tcpConnRef := fun conn m =>
      (toConn conn).elim ⟨0, Vector.replicate 4 0⟩ fun i =>
        ⟨(m.rest.conns i).remotePort, (m.rest.conns i).peerIp.map UInt8.ofBitVec⟩ }

/-- A call on sockets, anything that the stack does besides, and what happens between
two calls. -/
inductive SocketCall where
  | socket (domain sockType : BitVec 64)
  | bind (idx sockaddr : BitVec 64)
  | listen (idx : BitVec 64)
  | accept (idx sockaddr addrlen : BitVec 64)
  | shutdown (idx : BitVec 64)
  | stack (call : Stack.Call)
  | compute (memory : BitVec 64 → UInt8)
  | switch (next : Scheduler.Slot)

namespace Machine

/-- A descriptor of any task. -/
def entryOf {σ : Type} (m : Machine σ) (fd : Scheduler.Slot × Fin maxFds) : FdEntry :=
  (m.kernel.tasks fd.1).fds.get fd.2

/-- The descriptor does not exist, or its connection does: otherwise `conn` panics. -/
def connExists {σ : Type} (m : Machine σ) (idx : BitVec 64) : Bool :=
  (m.fd idx).all fun found => (toConn (connOf found.2)).isSome

/-- What the call returns; `none` is a panic, and a switch to a task that is not ready. -/
def socketCall (env : Services Stack) (m : Machine Stack) :
    SocketCall → Option (BitVec 64 × Machine Stack)
  | .socket domain sockType => (m.socket (withTcp env) domain sockType).returned
  | .bind idx sockaddr => (m.bind idx sockaddr).returned
  | .listen idx => if m.connExists idx then (m.listen (withTcp env) idx).returned else none
  | .accept idx sockaddr addrlen => (m.accept (withTcp env) idx sockaddr addrlen).returned
  | .shutdown idx => if m.connExists idx then (m.shutdown (withTcp env) idx).returned else none
  | .stack call => some (0, { m with rest := m.rest.perform call })
  | .compute memory => some (0, { m with user := memory })
  | .switch next => (m.switch next).map fun m => (0, m)

section Entries

variable {σ : Type} {m : Machine σ} {idx : BitVec 64}

/-- A descriptor that is in use is the current task's, under its number. -/
theorem fd_some {found : Fin maxFds × FdEntry} (inUse : m.fd idx = some found) :
    found.1.val = idx.toNat ∧ found.2 = m.entryOf (m.kernel.current, found.1) ∧
      found.2.inUse = true :=
  fd_eq_some inUse

theorem freeFd_some {slot : Fin maxFds} (free : m.freeFd = some slot) :
    (m.entryOf (m.kernel.current, slot)).inUse = false :=
  freeFd_eq_some free

theorem entryOf_setFd (slot : Fin maxFds) (entry : FdEntry)
    (fd : Scheduler.Slot × Fin maxFds) :
    (m.setFd slot entry).entryOf fd =
      if fd = (m.kernel.current, slot) then entry else m.entryOf fd := by
  obtain ⟨task, i⟩ := fd
  by_cases here : task = m.kernel.current
  · subst here
    have fds : (m.setFd slot entry).entryOf (m.kernel.current, i) =
        ((m.kernel.tasks m.kernel.current).fds.set slot entry)[i.val] := by
      simp only [entryOf, setFd, Kernel.modifyTask, Kernel.setTask_tasks, Function.update_self]
      rfl
    rw [fds, Vector.getElem_set]
    by_cases same : i = slot
    · rw [if_pos (congrArg Fin.val same.symm), if_pos (congrArg _ same)]
    · rw [if_neg fun equal => same (Fin.ext equal.symm), if_neg fun equal => same (by cases equal; rfl)]
      rfl
  · rw [if_neg fun equal => here (congrArg Prod.fst equal)]
    simp [entryOf, setFd, Kernel.modifyTask, Function.update_of_ne here]

/-- A switch leaves all descriptors. -/
theorem entryOf_switch {m' : Machine σ} {next : Scheduler.Slot}
    (switched : m.switch next = some m') (fd : Scheduler.Slot × Fin maxFds) :
    m'.entryOf fd = m.entryOf fd := by
  obtain ⟨state, record, _⟩ := switch_task switched fd.1
  rw [entryOf, record]
  rfl

end Entries

section Calls

variable {env : Services Stack} {m m' : Machine Stack} {call : SocketCall} {value : BitVec 64}

/-- The call is one of the two that take a descriptor away from its connection. -/
def Releases (m : Machine Stack) (call : SocketCall) (value : BitVec 64)
    (fd : Scheduler.Slot × Fin maxFds) : Prop :=
  (∃ idx, (call = .listen idx ∨ call = .shutdown idx) ∧ value = 0#64 ∧
    fd.1 = m.kernel.current ∧ fd.2.val = idx.toNat)

theorem setFd_keeps {slot : Fin maxFds} {entry : FdEntry} {fd : Scheduler.Slot × Fin maxFds}
    (used : (m.entryOf fd).inUse = true)
    (same : fd = (m.kernel.current, slot) →
      entry.offset = (m.entryOf fd).offset ∧ entry.inUse = true) :
    ((m.setFd slot entry).entryOf fd).offset = (m.entryOf fd).offset ∧
      ((m.setFd slot entry).entryOf fd).inUse = true := by
  rw [entryOf_setFd]
  split_ifs with here
  · exact same here
  · exact ⟨rfl, used⟩

theorem entryOf_kernel {σ : Type} {m m' : Machine σ} (kernel : m'.kernel = m.kernel)
    (fd : Scheduler.Slot × Fin maxFds) : m'.entryOf fd = m.entryOf fd := by
  rw [entryOf, entryOf, kernel]

/-! The stack changes nothing of the kernel. -/

theorem tcpAllocConn_kernel (env : Services Stack) (m : Machine Stack) :
    ((withTcp env).tcpAllocConn m).2.kernel = m.kernel := by
  simp only [withTcp]
  cases m.rest.allocConn <;> rfl

theorem tcpClose_kernel (env : Services Stack) (conn : BitVec 64) (m : Machine Stack) :
    ((withTcp env).tcpClose conn m).kernel = m.kernel := by
  simp only [withTcp]
  cases toConn conn <;> rfl

theorem tcpListen_kernel (env : Services Stack) (port : BitVec 16) (m : Machine Stack) :
    ((withTcp env).tcpListen port m).2.kernel = m.kernel := rfl

theorem socket_keeps {domain sockType : BitVec 64}
    (called : (m.socket (withTcp env) domain sockType).returned = some (value, m'))
    {fd : Scheduler.Slot × Fin maxFds} (used : (m.entryOf fd).inUse = true) :
    (m'.entryOf fd).offset = (m.entryOf fd).offset ∧ (m'.entryOf fd).inUse = true := by
  unfold socket at called
  split_ifs at called
  · obtain ⟨-, rfl⟩ := Prod.mk.inj (Option.some.inj called)
    exact ⟨rfl, used⟩
  · have kernel := tcpAllocConn_kernel env m
    rcases alloc : (withTcp env).tcpAllocConn m with ⟨conn, after⟩
    rw [alloc] at called kernel
    have same := entryOf_kernel kernel fd
    cases conn with
    | none =>
      obtain ⟨-, rfl⟩ := Prod.mk.inj (Option.some.inj called)
      exact ⟨congrArg _ same, same ▸ used⟩
    | some conn =>
      dsimp only at called
      cases free : after.freeFd with
      | none =>
        rw [free] at called
        obtain ⟨-, rfl⟩ := Prod.mk.inj (Option.some.inj called)
        have closed := (entryOf_kernel (tcpClose_kernel env conn after) fd).trans same
        exact ⟨congrArg _ closed, closed ▸ used⟩
      | some slot =>
        rw [free] at called
        obtain ⟨-, rfl⟩ := Prod.mk.inj (Option.some.inj called)
        rw [← same]
        refine setFd_keeps (same ▸ used) fun here => ?_
        have idle := freeFd_some free
        rw [← here, same, used] at idle
        cases idle

theorem bind_keeps {idx sockaddr : BitVec 64}
    (called : (m.bind idx sockaddr).returned = some (value, m'))
    {fd : Scheduler.Slot × Fin maxFds} (used : (m.entryOf fd).inUse = true) :
    (m'.entryOf fd).offset = (m.entryOf fd).offset ∧ (m'.entryOf fd).inUse = true := by
  unfold bind withFd at called
  cases found : m.fd idx with
  | none =>
    rw [found] at called
    obtain ⟨-, rfl⟩ := Prod.mk.inj (Option.some.inj called)
    exact ⟨rfl, used⟩
  | some pair =>
    obtain ⟨_, entry, inUse⟩ := fd_some found
    rw [found] at called
    obtain ⟨-, rfl⟩ := Prod.mk.inj (Option.some.inj called)
    refine setFd_keeps used fun here => ?_
    rw [here]
    have offset := congrArg FdEntry.offset entry
    exact ⟨offset, inUse⟩

theorem listen_keeps {idx : BitVec 64}
    (called : (m.listen (withTcp env) idx).returned = some (value, m'))
    {fd : Scheduler.Slot × Fin maxFds} (used : (m.entryOf fd).inUse = true) :
    m.Releases (.listen idx) value fd ∨
      ((m'.entryOf fd).offset = (m.entryOf fd).offset ∧ (m'.entryOf fd).inUse = true) := by
  unfold listen withFd at called
  cases found : m.fd idx with
  | none =>
    rw [found] at called
    obtain ⟨-, rfl⟩ := Prod.mk.inj (Option.some.inj called)
    exact .inr ⟨rfl, used⟩
  | some pair =>
    obtain ⟨number, _, _⟩ := fd_some found
    rw [found] at called
    dsimp only at called
    have kernel : ((withTcp env).tcpListen (pair.2.size.setWidth 16)
        ((withTcp env).tcpClose (connOf pair.2) m)).2.kernel = m.kernel :=
      (tcpListen_kernel _ _ _).trans (tcpClose_kernel _ _ _)
    generalize (withTcp env).tcpListen (pair.2.size.setWidth 16)
      ((withTcp env).tcpClose (connOf pair.2) m) = listened at called kernel
    obtain ⟨conn, after⟩ := listened
    have same := entryOf_kernel kernel fd
    cases conn with
    | none =>
      obtain ⟨-, rfl⟩ := Prod.mk.inj (Option.some.inj called)
      exact .inr ⟨congrArg _ same, same ▸ used⟩
    | some conn =>
      obtain ⟨rfl, rfl⟩ := Prod.mk.inj (Option.some.inj called)
      by_cases here : fd = (after.kernel.current, pair.1)
      · refine .inl ⟨idx, .inl rfl, rfl, ?_, ?_⟩
        · rw [here, kernel]
        · rw [here]
          exact number
      · rw [← same]
        exact .inr (setFd_keeps (same ▸ used) fun at' => absurd at' here)

theorem shutdown_keeps {idx : BitVec 64}
    (called : (m.shutdown (withTcp env) idx).returned = some (value, m'))
    {fd : Scheduler.Slot × Fin maxFds} (used : (m.entryOf fd).inUse = true) :
    m.Releases (.shutdown idx) value fd ∨
      ((m'.entryOf fd).offset = (m.entryOf fd).offset ∧ (m'.entryOf fd).inUse = true) := by
  unfold shutdown withFd at called
  cases found : m.fd idx with
  | none =>
    rw [found] at called
    obtain ⟨-, rfl⟩ := Prod.mk.inj (Option.some.inj called)
    exact .inr ⟨rfl, used⟩
  | some pair =>
    obtain ⟨number, _, _⟩ := fd_some found
    rw [found] at called
    obtain ⟨rfl, rfl⟩ := Prod.mk.inj (Option.some.inj called)
    have kernel := tcpClose_kernel env (connOf pair.2) m
    have same := entryOf_kernel kernel fd
    by_cases here : fd = (m.kernel.current, pair.1)
    · refine .inl ⟨idx, .inr rfl, rfl, ?_, ?_⟩
      · rw [here]
      · rw [here]
        exact number
    · rw [← same]
      refine .inr (setFd_keeps (same ▸ used) fun at' => absurd at' ?_)
      rw [kernel]
      exact here

/-- What a call other than an accept does to a descriptor in use. -/
theorem socketCall_entryOf (called : m.socketCall env call = some (value, m'))
    (other : ∀ idx sockaddr addrlen, call ≠ .accept idx sockaddr addrlen)
    {fd : Scheduler.Slot × Fin maxFds} (used : (m.entryOf fd).inUse = true) :
    m.Releases call value fd ∨
      ((m'.entryOf fd).offset = (m.entryOf fd).offset ∧ (m'.entryOf fd).inUse = true) := by
  cases call with
  | socket domain sockType => exact .inr (socket_keeps called used)
  | bind idx sockaddr => exact .inr (bind_keeps called used)
  | listen idx =>
    simp only [socketCall] at called
    split_ifs at called
    exact listen_keeps called used
  | accept idx sockaddr addrlen => exact absurd rfl (other _ _ _)
  | shutdown idx =>
    simp only [socketCall] at called
    split_ifs at called
    exact shutdown_keeps called used
  | stack call =>
    obtain ⟨-, rfl⟩ := Prod.mk.inj (Option.some.inj called)
    exact .inr ⟨rfl, used⟩
  | compute memory =>
    obtain ⟨-, rfl⟩ := Prod.mk.inj (Option.some.inj called)
    exact .inr ⟨rfl, used⟩
  | switch next =>
    obtain ⟨m'', switched, pair⟩ := Option.map_eq_some_iff.mp called
    obtain ⟨-, rfl⟩ := Prod.mk.inj pair
    rw [entryOf_switch switched]
    exact .inr ⟨rfl, used⟩

theorem toConn_socketEntry (i : Net.Tcp.Slot) :
    toConn (connOf (socketEntry (ofConn i))) = some i := by
  revert i
  decide

theorem socketEntry_offset (i : Net.Tcp.Slot) :
    (socketEntry (ofConn i)).offset = BitVec.ofNat 32 i.val := by
  revert i
  decide

/-- An accept fails and changes nothing, or makes a free descriptor of the connection that
`find_accepted` finds. -/
theorem accept_returned {σ : Type} {env : Services σ} {m m' : Machine σ}
    {idx sockaddr addrlen : BitVec 64}
    (called : (m.accept env idx sockaddr addrlen).returned = some (value, m')) :
    (value = exitMagic ∧ m' = m ∧ (m.fd idx = none ∨ m.freeFd = none ∨
      ∃ found, m.fd idx = some found ∧
        env.tcpFindAccepted (found.2.size.setWidth 16) m = none)) ∨
      ∃ found conn slot, m.fd idx = some found ∧
        env.tcpFindAccepted (found.2.size.setWidth 16) m = some conn ∧ m.freeFd = some slot ∧
        value = BitVec.ofNat 64 slot.val ∧ m'.rest = m.rest ∧
        ∀ fd, m'.entryOf fd =
          if fd = (m.kernel.current, slot) then socketEntry conn else m.entryOf fd := by
  unfold accept withFd at called
  cases found : m.fd idx with
  | none =>
    rw [found] at called
    obtain ⟨rfl, rfl⟩ := Prod.mk.inj (Option.some.inj called)
    exact .inl ⟨rfl, rfl, .inl rfl⟩
  | some pair =>
    rw [found] at called
    dsimp only at called
    cases accepted : env.tcpFindAccepted (pair.2.size.setWidth 16) m with
    | none =>
      rw [accepted] at called
      obtain ⟨rfl, rfl⟩ := Prod.mk.inj (Option.some.inj called)
      exact .inl ⟨rfl, rfl, .inr (.inr ⟨pair, rfl, accepted⟩)⟩
    | some conn =>
      rw [accepted] at called
      cases free : m.freeFd with
      | none =>
        rw [free] at called
        obtain ⟨rfl, rfl⟩ := Prod.mk.inj (Option.some.inj called)
        exact .inl ⟨rfl, rfl, .inr (.inl rfl)⟩
      | some slot =>
        rw [free] at called
        obtain ⟨rfl, rfl⟩ := Prod.mk.inj (Option.some.inj called)
        refine .inr ⟨pair, conn, slot, rfl, accepted, rfl, rfl, ?_, fun fd => ?_⟩
        · split_ifs <;> rfl
        · rw [← entryOf_setFd]
          split_ifs <;> rfl

theorem accept_cases {idx sockaddr addrlen : BitVec 64}
    (called : (m.accept (withTcp env) idx sockaddr addrlen).returned = some (value, m')) :
    (¬ value.toNat < maxFds ∧ m' = m ∧ (m.fd idx = none ∨ m.freeFd = none ∨
      ∃ found, m.fd idx = some found ∧
        m.rest.findAccepted (found.2.size.setWidth 16) = none)) ∨
      ∃ found i slot, m.fd idx = some found ∧
        m.rest.findAccepted (found.2.size.setWidth 16) = some i ∧ m.freeFd = some slot ∧
        value = BitVec.ofNat 64 slot.val ∧ m'.rest = m.rest ∧
        ∀ fd, m'.entryOf fd =
          if fd = (m.kernel.current, slot) then socketEntry (ofConn i) else m.entryOf fd := by
  rcases accept_returned called with
    ⟨rfl, same, missing | full | ⟨found, inUse, none⟩⟩ | ⟨found, conn, slot, inUse, first, rest⟩
  · exact .inl ⟨by decide, same, .inl missing⟩
  · exact .inl ⟨by decide, same, .inr (.inl full)⟩
  · exact .inl ⟨by decide, same, .inr (.inr ⟨found, inUse, Option.map_eq_none_iff.mp none⟩)⟩
  · obtain ⟨i, accepted, rfl⟩ := Option.map_eq_some_iff.mp first
    exact .inr ⟨found, i, slot, inUse, accepted, rest⟩

end Calls

end Machine

/-- The connection in a slot, by its birth, if a SYN made it. -/
def madeBySyn (stack : Stack) (i : Net.Tcp.Slot) : List (Net.Tcp.Slot × Nat) :=
  if (stack.history.ledger i).opening = .accepted then [(i, (stack.history.ledger i).born)] else []

theorem nodup_madeBySyn (stack : Stack) (i : Net.Tcp.Slot) : (madeBySyn stack i).Nodup := by
  unfold madeBySyn
  split_ifs <;> simp

/-- The machine; the connections made by a SYN that `SYS_ACCEPT` has returned; and the open
descriptors that it returned and that have not been made listeners since. -/
structure Server where
  machine : Machine Stack
  accepted : List (Net.Tcp.Slot × Nat)
  held : List (Scheduler.Slot × Fin maxFds)

namespace Server

/-- The current task's descriptor is not one from an accept any more. -/
def drop (s : Server) (idx : BitVec 64) : List (Scheduler.Slot × Fin maxFds) :=
  s.held.filter fun fd => ¬ (fd.1 = s.machine.kernel.current ∧ fd.2.val = idx.toNat)

/-- One call, and what is noted of its result. -/
def step (env : Services Stack) (s : Server) (call : SocketCall) : Option Server := do
  let (value, machine) ← s.machine.socketCall env call
  match call with
  | .accept .. =>
    if opened : value.toNat < maxFds then
      let fd := (s.machine.kernel.current, ⟨value.toNat, opened⟩)
      let conn := toConn (Machine.connOf (machine.entryOf fd))
      some {
        machine
        accepted := s.accepted ++ conn.elim [] (madeBySyn machine.rest)
        held := s.held ++ [fd] }
    else some { s with machine }
  | .listen idx | .shutdown idx =>
    some { s with machine, held := if value = 0#64 then s.drop idx else s.held }
  | _ => some { s with machine }

/-- Every connection was returned once, and no two of the descriptors name one slot. -/
def Sole (s : Server) : Prop :=
  s.accepted.Nodup ∧ ∀ fd ∈ s.held, ∀ other ∈ s.held, fd ≠ other →
    (s.machine.entryOf fd).offset ≠ (s.machine.entryOf other).offset

/-- The connection was not returned yet, and no descriptor from an accept names its
slot. -/
def Fresh (s : Server) (i : Net.Tcp.Slot) : Prop :=
  s.accepted.Disjoint (madeBySyn s.machine.rest i) ∧
    ∀ fd ∈ s.held, (s.machine.entryOf fd).offset ≠ BitVec.ofNat 32 i.val

/-- An accept with a free descriptor finds a fresh connection ahead of the others of its
port that are in the handshake or established. -/
def AcceptsFresh (s : Server) : SocketCall → Prop
  | .accept idx _ _ => ∀ found, s.machine.fd idx = some found → s.machine.freeFd ≠ none →
      ∀ i, s.machine.rest.handshaken (found.2.size.setWidth 16) i = true →
        (∀ j < i, s.machine.rest.handshaken (found.2.size.setWidth 16) j = false) → s.Fresh i
  | _ => True

variable {env : Services Stack} {s s' : Server} {call : SocketCall}

/-- `find_accepted` returns the first connection that passes its test. -/
theorem findAccepted_eq_some {stack : Stack} {lport : BitVec 16} {i : Net.Tcp.Slot} :
    stack.findAccepted lport = some i ↔
      stack.handshaken lport i = true ∧ ∀ j < i, stack.handshaken lport j = false := by
  rw [Stack.findAccepted, List.find?_eq_some_iff_getElem]
  refine and_congr_right fun _ => ⟨?_, fun before => ?_⟩
  · rintro ⟨n, bound, found, before⟩ j below
    have place : n = i.val := by simpa using congrArg Fin.val found
    have test := before j.val (place ▸ below)
    simpa using test
  · refine ⟨i.val, by simp, by simp, fun n below => ?_⟩
    simpa using before ⟨n, below.trans i.isLt⟩ below

/-- Every step but an accept leaves what was accepted, and the descriptors that the call
does not release. -/
theorem step_other (stepped : s.step env call = some s')
    (other : ∀ idx sockaddr addrlen, call ≠ .accept idx sockaddr addrlen) :
    ∃ value, s.machine.socketCall env call = some (value, s'.machine) ∧
      s'.accepted = s.accepted ∧
      ∀ fd ∈ s'.held, fd ∈ s.held ∧ ¬ s.machine.Releases call value fd := by
  obtain ⟨⟨value, machine⟩, called, noted⟩ := Option.bind_eq_some_iff.mp stepped
  have kept {call : SocketCall} {idx : BitVec 64} (releases : call = .listen idx ∨ call = .shutdown idx)
      {fd : Scheduler.Slot × Fin maxFds} (member : fd ∈ if value = 0#64 then s.drop idx else s.held) :
      fd ∈ s.held ∧ ¬ s.machine.Releases call value fd := by
    by_cases zero : value = 0#64
    · rw [if_pos zero, drop, List.mem_filter] at member
      refine ⟨member.1, ?_⟩
      rintro ⟨idx', same, -, task, number⟩
      obtain rfl : idx = idx' := by
        rcases releases with rfl | rfl <;> rcases same with same | same <;> cases same <;> rfl
      exact of_decide_eq_true member.2 ⟨task, number⟩
    · rw [if_neg zero] at member
      exact ⟨member, fun ⟨_, _, success, _⟩ => zero success⟩
  cases call with
  | accept idx sockaddr addrlen => exact absurd rfl (other _ _ _)
  | listen idx =>
    obtain rfl := Option.some.inj noted
    exact ⟨value, called, rfl, fun fd member => kept (.inl rfl) member⟩
  | shutdown idx =>
    obtain rfl := Option.some.inj noted
    exact ⟨value, called, rfl, fun fd member => kept (.inr rfl) member⟩
  | _ =>
    obtain rfl := Option.some.inj noted
    refine ⟨value, called, rfl, fun fd member => ⟨member, ?_⟩⟩
    rintro ⟨idx, listens | shuts, _⟩
    · cases listens
    · cases shuts

/-- An accept changes nothing, or notes a connection and a descriptor. -/
theorem step_accept {idx sockaddr addrlen : BitVec 64}
    (stepped : s.step env (.accept idx sockaddr addrlen) = some s') :
    (s' = s ∧ (s.machine.fd idx = none ∨ s.machine.freeFd = none ∨
      ∃ found, s.machine.fd idx = some found ∧
        s.machine.rest.findAccepted (found.2.size.setWidth 16) = none)) ∨
      ∃ found i slot, s.machine.fd idx = some found ∧
        s.machine.rest.findAccepted (found.2.size.setWidth 16) = some i ∧
        s.machine.freeFd = some slot ∧
        s'.accepted = s.accepted ++ madeBySyn s.machine.rest i ∧
        s'.held = s.held ++ [(s.machine.kernel.current, slot)] ∧
        ∀ fd, s'.machine.entryOf fd = if fd = (s.machine.kernel.current, slot) then
          Machine.socketEntry (ofConn i) else s.machine.entryOf fd := by
  obtain ⟨⟨value, machine⟩, called, noted⟩ := Option.bind_eq_some_iff.mp stepped
  rcases Machine.accept_cases called with
    ⟨failed, rfl, why⟩ | ⟨found, i, slot, inUse, first, free, rfl, rest, entries⟩
  · dsimp only at noted
    rw [dif_neg failed] at noted
    exact .inl ⟨(Option.some.inj noted).symm, why⟩
  · have number : (BitVec.ofNat 64 slot.val).toNat = slot.val := by
      have small : slot.val < 16 := slot.isLt
      rw [BitVec.toNat_ofNat]
      omega
    have opened : (BitVec.ofNat 64 slot.val).toNat < maxFds := number.trans_lt slot.isLt
    dsimp only at noted
    rw [dif_pos opened] at noted
    have same : (⟨(BitVec.ofNat 64 slot.val).toNat, opened⟩ : Fin maxFds) = slot := Fin.ext number
    rw [same] at noted
    obtain rfl := Option.some.inj noted
    refine .inr ⟨found, i, slot, inUse, first, free, ?_, rfl, entries⟩
    dsimp only
    rw [entries, if_pos rfl, Machine.toConn_socketEntry, rest]
    rfl

/-- The descriptors from accepts are in use. -/
structure Inv (s : Server) : Prop where
  sole : s.Sole
  inUse : ∀ fd ∈ s.held, (s.machine.entryOf fd).inUse = true

theorem Inv.step_other (inv : s.Inv) (stepped : s.step env call = some s')
    (other : ∀ idx sockaddr addrlen, call ≠ .accept idx sockaddr addrlen) : s'.Inv := by
  obtain ⟨value, called, accepted, held⟩ := Server.step_other stepped other
  have kept {fd : Scheduler.Slot × Fin maxFds} (member : fd ∈ s'.held) :
      (s'.machine.entryOf fd).offset = (s.machine.entryOf fd).offset ∧
        (s'.machine.entryOf fd).inUse = true := by
    obtain ⟨before, stays⟩ := held fd member
    exact (Machine.socketCall_entryOf called other (inv.inUse fd before)).resolve_left stays
  refine ⟨⟨accepted ▸ inv.sole.1, fun fd member other member' apart => ?_⟩,
    fun fd member => (kept member).2⟩
  rw [(kept member).1, (kept member').1]
  exact inv.sole.2 fd (held fd member).1 other (held other member').1 apart

theorem Inv.step_accept {idx sockaddr addrlen : BitVec 64} (inv : s.Inv)
    (fresh : s.AcceptsFresh (.accept idx sockaddr addrlen))
    (stepped : s.step env (.accept idx sockaddr addrlen) = some s') : s'.Inv := by
  rcases Server.step_accept stepped with
    ⟨rfl, _⟩ | ⟨found, i, slot, inUse, first, free, accepted, held, entries⟩
  · exact inv
  obtain ⟨ready, before⟩ := findAccepted_eq_some.mp first
  obtain ⟨unaccepted, unnamed⟩ := fresh found inUse (by simp [free]) i ready before
  have idle := Machine.freeFd_some free
  have old {fd : Scheduler.Slot × Fin maxFds} (member : fd ∈ s.held) :
      s'.machine.entryOf fd = s.machine.entryOf fd := by
    rw [entries, if_neg]
    rintro rfl
    rw [inv.inUse _ member] at idle
    cases idle
  have new : s'.machine.entryOf (s.machine.kernel.current, slot) =
      Machine.socketEntry (ofConn i) := by rw [entries, if_pos rfl]
  have apart {fd : Scheduler.Slot × Fin maxFds} (member : fd ∈ s.held) :
      (s'.machine.entryOf fd).offset ≠
        (s'.machine.entryOf (s.machine.kernel.current, slot)).offset := by
    rw [old member, new, Machine.socketEntry_offset]
    exact unnamed fd member
  refine ⟨⟨?_, ?_⟩, ?_⟩
  · rw [accepted]
    exact List.nodup_append'.mpr ⟨inv.sole.1, nodup_madeBySyn _ _, unaccepted⟩
  · intro fd member other member' differ
    rw [held] at member member'
    rcases List.mem_append.mp member with one | one <;>
      rcases List.mem_append.mp member' with two | two
    · rw [old one, old two]
      exact inv.sole.2 fd one other two differ
    · obtain rfl := List.mem_singleton.mp two
      exact apart one
    · obtain rfl := List.mem_singleton.mp one
      exact (apart two).symm
    · exact absurd ((List.mem_singleton.mp one).trans (List.mem_singleton.mp two).symm) differ
  · intro fd member
    rw [held] at member
    rcases List.mem_append.mp member with one | one
    · rw [old one]
      exact inv.inUse fd one
    · obtain rfl := List.mem_singleton.mp one
      rw [new]
      rfl

theorem Inv.step (inv : s.Inv) (fresh : s.AcceptsFresh call) (stepped : s.step env call = some s') :
    s'.Inv := by
  by_cases accepts : ∃ idx sockaddr addrlen, call = .accept idx sockaddr addrlen
  · obtain ⟨idx, sockaddr, addrlen, rfl⟩ := accepts
    exact inv.step_accept fresh stepped
  · exact inv.step_other stepped fun idx sockaddr addrlen same =>
      accepts ⟨idx, sockaddr, addrlen, same⟩

/-- An accept that finds another connection first returns it a second time, or makes a
second descriptor of its slot. -/
theorem Inv.broken (inv : s.Inv) (stale : ¬ s.AcceptsFresh call)
    (stepped : s.step env call = some s') : ¬ s'.Sole := by
  cases call with
  | accept idx sockaddr addrlen =>
    simp only [AcceptsFresh, not_forall] at stale
    obtain ⟨found, inUse, hasFree, i, ready, before, stale⟩ := stale
    have first := findAccepted_eq_some.mpr ⟨ready, before⟩
    rcases Server.step_accept stepped with
      ⟨_, refused⟩ | ⟨found', i', slot, inUse', first', free, accepted, held, entries⟩
    · rcases refused with missing | full | ⟨found', inUse', none⟩
      · rw [missing] at inUse
        cases inUse
      · exact absurd full hasFree
      · obtain rfl := Option.some.inj (inUse.symm.trans inUse')
        rw [first] at none
        cases none
    · obtain rfl := Option.some.inj (inUse.symm.trans inUse')
      obtain rfl := Option.some.inj (first.symm.trans first')
      rintro ⟨once, distinct⟩
      refine stale ⟨?_, fun fd member same => ?_⟩
      · rw [accepted] at once
        exact (List.nodup_append'.mp once).2.2
      · have idle := Machine.freeFd_some free
        have apart : fd ≠ (s.machine.kernel.current, slot) := by
          rintro rfl
          rw [inv.inUse _ member] at idle
          cases idle
        refine distinct fd (held ▸ List.mem_append_left _ member) _
          (held ▸ List.mem_append_right _ (List.mem_singleton_self _)) apart ?_
        rw [entries, if_neg apart, same, entries, if_pos rfl, Machine.socketEntry_offset]
  | _ => exact absurd trivial stale

end Server

/-- From any machine over a stack at boot: every connection is returned by one accept at
most, and no two open descriptors from accepts name one slot, in every state of a run
exactly when each accept finds a fresh connection ahead of the others. -/
theorem accepts_sole_iff {env : Services Stack} {m : Machine Unit} {accepts : Nat → Bool}
    {ownIp : Net.Ipv4} {mac : Net.Mac} {taken : List (Transition Server SocketCall)}
    {final : Server}
    (trace : Trace (fun s call next => Server.step env s call = some next)
      ⟨{ m with rest := Stack.boot accepts ownIp mac }, [], []⟩ taken final) :
    Throughout Server.Sole ⟨{ m with rest := Stack.boot accepts ownIp mac }, [], []⟩ taken ↔
      Guarded Server.AcceptsFresh taken :=
  trace.throughout_iff_guarded Server.Inv
    ⟨⟨List.nodup_nil, fun _ member => absurd member List.not_mem_nil⟩,
      fun _ member => absurd member List.not_mem_nil⟩
    (fun _ inv => inv.sole)
    (fun _ _ _ inv fresh stepped => inv.step fresh stepped)
    (fun _ _ _ inv stale stepped => inv.broken stale stepped)

instance (s : Server) (i : Net.Tcp.Slot) : Decidable (s.Fresh i) :=
  @instDecidableAnd _ _
    (@decidable_of_iff _ (∀ conn ∈ s.accepted, conn ∉ madeBySyn s.machine.rest i) Iff.rfl
      (List.decidableBAll _ _)) (List.decidableBAll _ _)

instance (s : Server) : (call : SocketCall) → Decidable (s.AcceptsFresh call)
  | .accept idx _ _ => decidable_of_iff
      (∀ found ∈ s.machine.fd idx, s.machine.freeFd ≠ none →
        ∀ i, s.machine.rest.handshaken (found.2.size.setWidth 16) i = true →
          (∀ j < i, s.machine.rest.handshaken (found.2.size.setWidth 16) j = false) →
            s.Fresh i) Iff.rfl
  | .socket .. | .bind .. | .listen .. | .shutdown .. | .stack .. | .compute .. | .switch .. =>
    inferInstanceAs (Decidable True)

/-! ## A server on port 80 -/

def serverIp : Net.Ipv4 := #v[10, 0, 0, 1]
def clientIp : Net.Ipv4 := #v[10, 0, 0, 9]

def serverMac : Net.Mac := #v[2, 0, 0, 0, 0, 1]
def clientMac : Net.Mac := #v[2, 0, 0, 0, 0, 9]

/-- A SYN to port 80. -/
def syn (sport : BitVec 16) : Stack.Call :=
  .input ⟨clientIp, clientMac,
    (Net.Segment.mk sport 80 1000 0 Net.flagSyn []).encode clientIp serverIp, 0⟩

/-- Descriptor 0 listens on port 80. -/
def serve : List SocketCall :=
  [.compute fun addr => if addr = 2 then 80 else 0, .socket 2 1, .bind 0 0, .listen 0]

def idleServer : Server :=
  ⟨{ oneTask with rest := Stack.boot (fun _ => true) serverIp serverMac }, [], []⟩

/-- The first client is served and its descriptor shut down before the second comes. -/
theorem accepts_in_turn :
    ∃ taken final, record (Server.step noServices) idleServer
        (serve ++ [.stack (syn 5000), .accept 0 0 0, .shutdown 1, .stack (syn 5001),
          .accept 0 0 0]) = some (taken, final) ∧
      final.accepted.length = 2 ∧ Throughout Server.Sole idleServer taken := by
  obtain ⟨⟨taken, final⟩, recorded, length, guarded⟩ :
      ∃ run ∈ record (Server.step noServices) idleServer
          (serve ++ [.stack (syn 5000), .accept 0 0 0, .shutdown 1, .stack (syn 5001),
            .accept 0 0 0]),
        run.2.accepted.length = 2 ∧
          ∀ transition ∈ run.1, transition.before.AcceptsFresh transition.label := by
    decide +kernel
  exact ⟨taken, final, recorded, length,
    (accepts_sole_iff (m := oneTask) (trace_of_record recorded)).mpr guarded⟩

/-- One SYN and two accepts: descriptors 1 and 2 are both of connection 1. -/
theorem accepted_twice :
    ∃ taken final, Trace (fun s call next => Server.step noServices s call = some next)
        idleServer taken final ∧
      final.accepted = [(1, 3), (1, 3)] ∧ final.held.map (·.2.val) = [1, 2] ∧
      ¬ Throughout Server.Sole idleServer taken := by
  obtain ⟨⟨taken, final⟩, recorded, accepted, held⟩ :
      ∃ run ∈ record (Server.step noServices) idleServer
          (serve ++ [.stack (syn 5000), .accept 0 0 0, .accept 0 0 0]),
        run.2.accepted = [(1, 3), (1, 3)] ∧
          run.2.held.map (·.2.val) = [1, 2] := by
    decide +kernel
  have run := trace_of_record recorded
  refine ⟨taken, final, run, accepted, held, fun sole => ?_⟩
  have once := (run.final_of_throughout sole).1
  rw [accepted] at once
  exact absurd once (by decide)

end DBSos.Syscall
