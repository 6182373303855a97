import DBSos.Syscall.Titles

/-!
# Which connections a descriptor reaches

A call on a socket hands the stack whatever stands in the `offset` of its descriptor. That
is the connection which the descriptor obtained while sockets alone are given to the calls on
sockets, nothing moves the offset of one, and no connection is opened in a slot that a
descriptor names.
-/

namespace DBSos.Syscall

open DBSos.Lib DBSos.Net.Tcp DBSos.Scheduler

variable {τ : Type}

namespace Desk

/-- A call on a descriptor without a title fails and changes nothing. One on a socket hands
the stack no index but that of the connection which the descriptor obtained. -/
def Lawful (d : Desk τ) (call : DescriptorCall τ) (d' : Desk τ) : Prop :=
  ∀ idx, call.socketFd = some idx →
    (d.titleOf idx = none → d'.value = exitMagic ∧ d'.machine = d.machine.fresh) ∧
    ∀ title, d.titleOf idx = some title → ∀ conn ∈ d'.machine.rest.touched,
      toConn conn = some title.slot ∧ title.current = true

/-- The number is of a socket, or of no open descriptor. -/
def IsSocket (d : Desk τ) (idx : BitVec 64) : Prop :=
  d.machine.fd idx ≠ none → d.titleOf idx ≠ none

/-- No open descriptor but `idx` names one of the slots. -/
def UnnamedBut (d : Desk τ) (idx : BitVec 64) (opened : List Net.Tcp.Slot) : Prop :=
  ∀ fd title, d.title fd = some title → ¬ d.machine.IsNumber idx fd → title.slot ∉ opened

/-- No open descriptor names one of the slots. -/
def Unnamed (d : Desk τ) (opened : List Net.Tcp.Slot) : Prop :=
  ∀ fd title, d.title fd = some title → title.slot ∉ opened

/-- Calls on sockets are made on sockets; nothing is read from a socket as a file, and no seek
moves it; and connections are opened in slots that no open descriptor names. -/
def Proper (env : Services (Below τ)) (d : Desk τ) : DescriptorCall τ → Prop
  | .readFile idx _ count => d.titleOf idx ≠ none → ¬ d.machine.fresh.Reads env idx count
  | .lseek idx offset whence => d.titleOf idx ≠ none → ¬ d.machine.Seeks idx offset whence
  | .socket domain sockType => d.Unnamed (d.machine.openedBySocket domain sockType)
  | .bind idx _ | .send idx _ _ | .recv idx _ _ | .shutdown idx => d.IsSocket idx
  | .listen idx => d.IsSocket idx ∧ ∀ found, d.machine.fd idx = some found →
      d.UnnamedBut idx ((d.machine.closedBy found.2).openedByListen (found.2.size.setWidth 16))
  | .accept idx _ _ => d.IsSocket idx ∨ d.machine.freeFd = none ∨
      ∀ found, d.machine.fd idx = some found →
        d.stack.findAccepted (found.2.size.setWidth 16) = none
  | .connect idx sockaddr polled mac => d.IsSocket idx ∧ ∀ found, d.machine.fd idx = some found →
      d.UnnamedBut idx ((d.machine.closedBy found.2).openedByConnect (d.machine.sockAddr sockaddr)
        (d.machine.sockPort sockaddr) polled mac) ∧
      ∀ i, (d.machine.closedBy found.2).firstFree = some i →
        i ∉ ((d.machine.closedBy found.2).dialling i (d.machine.sockAddr sockaddr)
          (d.machine.sockPort sockaddr)).openedBehind i (d.machine.sockAddr sockaddr) polled mac
  | .stack call => d.Unnamed (d.stack.openings call)
  | _ => True

end Desk

/-- The descriptor is open and names the slot of its title, which no other connection has
taken. -/
structure Held (m : Machine (Below τ)) (fd : Scheduler.Slot × Fin maxFds) (title : Title) :
    Prop where
  used : (m.entryOf fd).inUse = true
  offset : (m.entryOf fd).offset = BitVec.ofNat 32 title.slot.val
  flags : (m.entryOf fd).flags = 0#64
  current : title.current = true
  born : m.rest.stack.born title.slot = title.born ∨ m.rest.stack.born title.slot = 0

namespace Held

variable {m m' : Machine (Below τ)} {fd other : Scheduler.Slot × Fin maxFds} {title : Title}
  {opened : List Net.Tcp.Slot}

theorem settle_eq (held : Held m fd title) : title.settle m.rest.stack = title := by
  unfold Title.settle
  rw [held.current, decide_eq_true held.born]
  exact congrArg _ held.current.symm

theorem born_keeps (held : Held m fd title)
    (keeps : Stack.KeepsBut opened m.rest.stack m'.rest.stack) (unnamed : title.slot ∉ opened) :
    m'.rest.stack.born title.slot = title.born ∨ m'.rest.stack.born title.slot = 0 := by
  rcases keeps title.slot unnamed with same | gone
  · rw [same]
    exact held.born
  · exact .inr gone

/-- A descriptor that is spared keeps what it has. -/
theorem spared (held : Held m fd title) (spared : Machine.Spared m m' fd)
    (keeps : Stack.KeepsBut opened m.rest.stack m'.rest.stack) (unnamed : title.slot ∉ opened)
    (used : (m'.entryOf fd).inUse = true) : Held m' fd title where
  used := used
  offset := (spared used).1.trans held.offset
  flags := (spared used).2.trans held.flags
  current := held.current
  born := held.born_keeps keeps unnamed

/-- A duplicate has what its original has. -/
theorem handed (held : Held m other title) (stack : m'.rest.stack = m.rest.stack)
    (entry : m'.entryOf fd = m.entryOf other) : Held m' fd title where
  used := entry ▸ held.used
  offset := entry ▸ held.offset
  flags := entry ▸ held.flags
  current := held.current
  born := stack ▸ held.born

end Held

namespace Desk

variable {env : Services (Below τ)} {d : Desk τ} {call : DescriptorCall τ} {value : BitVec 64}
  {m' : Machine (Below τ)}

/-- Every title is held. -/
def Inv (d : Desk τ) : Prop := ∀ fd title, d.title fd = some title → Held d.machine fd title

theorem inv_ofMachine {m : Machine (Below τ)} : (ofMachine m).Inv := by
  intro fd title titled
  cases titled

theorem titleOf_eq_some {idx : BitVec 64} {title : Title} :
    d.titleOf idx = some title ↔
      ∃ slot, slot.val = idx.toNat ∧ d.title (d.machine.kernel.current, slot) = some title := by
  unfold titleOf
  split_ifs with bound
  · constructor
    · exact fun titled => ⟨_, rfl, titled⟩
    · rintro ⟨slot, same, titled⟩
      obtain rfl : slot = ⟨idx.toNat, bound⟩ := Fin.ext same
      exact titled
  · refine ⟨nofun, ?_⟩
    rintro ⟨slot, same, -⟩
    exact absurd (same ▸ slot.isLt) bound

/-! ## The titles behind a call -/

theorem noted_of_none (given : d.given call value = none) (fd : Scheduler.Slot × Fin maxFds) :
    d.noted call value m' fd = d.title fd := by
  rw [noted, given]

theorem noted_of_given {number : BitVec 64} {title : FdEntry → Option Title} {slot : Fin maxFds}
    (given : d.given call value = some (number, title)) (place : number.toNat = slot.val)
    (fd : Scheduler.Slot × Fin maxFds) :
    d.noted call value m' fd =
      if fd = (d.machine.kernel.current, slot) then title (m'.entryOf fd) else d.title fd := by
  rw [noted, given]
  refine if_congr ⟨?_, ?_⟩ rfl rfl
  · rintro ⟨task, number⟩
    exact Prod.ext task (Fin.ext (number.trans place))
  · rintro rfl
    exact ⟨rfl, place.symm⟩

/-- A call that fails hands nothing out. -/
theorem noted_of_failed {title : FdEntry → Option Title}
    (given : d.given call value = some (exitMagic, title)) (fd : Scheduler.Slot × Fin maxFds) :
    d.noted call value m' fd = d.title fd := by
  rw [noted, given]
  refine if_neg fun both => ?_
  have small : fd.2.val < 16 := fd.2.isLt
  rw [both.2] at small
  exact absurd small (by decide)

theorem inv_behind
    (held : ∀ fd title, d.noted call value m' fd = some title → (m'.entryOf fd).inUse = true →
      Held m' fd title) : (d.behind call value m').Inv := by
  intro fd title titled
  dsimp only [behind] at titled
  split_ifs at titled with used
  obtain ⟨noted, was, rfl⟩ := Option.map_eq_some_iff.mp titled
  have holds := held fd noted was used
  rw [holds.settle_eq]
  exact holds

/-- A call that hands nothing out and spares every socket. -/
theorem Inv.spared {opened : List Net.Tcp.Slot} (inv : d.Inv)
    (noted : ∀ fd, d.noted call value m' fd = d.title fd)
    (spares : ∀ fd, d.title fd ≠ none → Machine.Spared d.machine.fresh m' fd)
    (keeps : Stack.KeepsBut opened d.stack m'.rest.stack) (unnamed : d.Unnamed opened) :
    (d.behind call value m').Inv := by
  refine inv_behind fun fd title titled used => ?_
  rw [noted] at titled
  have held := inv fd title titled
  exact held.spared (spares fd (by rw [titled]; nofun)) keeps (unnamed fd title titled) used

theorem Inv.still (inv : d.Inv) (noted : ∀ fd, d.noted call value m' fd = d.title fd)
    (spares : ∀ fd, d.title fd ≠ none → Machine.Spared d.machine.fresh m' fd)
    (keeps : Stack.KeepsBut [] d.stack m'.rest.stack) : (d.behind call value m').Inv :=
  inv.spared noted spares keeps fun _ _ _ => List.not_mem_nil

theorem Inv.passes (inv : d.Inv) (given : d.given call value = none)
    (passes : ∀ fd title, d.title fd = some title → Machine.Passes d.machine.fresh m' fd) :
    (d.behind call value m').Inv := by
  refine inv_behind fun fd title titled used => ?_
  rw [noted_of_none given] at titled
  have held := inv fd title titled
  obtain ⟨stack, spared⟩ := passes fd title titled
  have keeps : Stack.KeepsBut [] d.stack m'.rest.stack := stack ▸ .refl _
  exact held.spared spared keeps List.not_mem_nil used

/-! ## One call -/

/-- The entry of a number with a title is the one that the title is of. -/
theorem held_of_fd (inv : d.Inv) {idx : BitVec 64} {slot : Fin maxFds} {entry : FdEntry}
    {title : Title} (found : d.machine.fd idx = some (slot, entry))
    (titled : d.titleOf idx = some title) :
    Held d.machine (d.machine.kernel.current, slot) title ∧
      entry = d.machine.entryOf (d.machine.kernel.current, slot) := by
  obtain ⟨other, number, titled⟩ := titleOf_eq_some.mp titled
  obtain rfl : other = slot := Fin.ext (number.trans (Machine.fd_some found).1.symm)
  exact ⟨inv _ _ titled, (Machine.fd_some found).2.1⟩

/-- A call on a socket that hands the stack at most the connection of its entry. -/
theorem Inv.lawful (inv : d.Inv) {idx : BitVec 64} (socketFd : call.socketFd = some idx)
    (socket : d.IsSocket idx)
    (result : (d.machine.fd idx = none ∧ value = exitMagic ∧ m' = d.machine.fresh) ∨
      ∃ slot entry, d.machine.fd idx = some (slot, entry) ∧
        m'.rest.touched ⊆ [Machine.connOf entry]) :
    d.Lawful call (d.behind call value m') := by
  intro idx' same
  obtain rfl := Option.some.inj (socketFd.symm.trans same)
  refine ⟨fun untitled => ?_, fun title titled conn touched => ?_⟩
  · rcases result with ⟨-, failed⟩ | ⟨slot, entry, found, -⟩
    · exact failed
    · exact absurd untitled (socket (by rw [found]; nofun))
  · rcases result with ⟨-, -, rfl⟩ | ⟨slot, entry, found, only⟩
    · cases touched
    · obtain ⟨held, rfl⟩ := held_of_fd inv found titled
      obtain rfl := List.mem_singleton.mp (only touched)
      exact ⟨Machine.toConn_connOf held.offset, held.current⟩

theorem lawful_of_other (other : call.socketFd = none) {d' : Desk τ} : d.Lawful call d' := by
  intro idx same
  rw [other] at same
  cases same

/-- A call on a socket that opens no connection. -/
theorem Inv.acts (inv : d.Inv) {idx : BitVec 64} (socketFd : call.socketFd = some idx)
    (given : d.given call value = none) (socket : d.IsSocket idx)
    (result : ∀ fd, (d.machine.fresh.fd idx = none ∧ value = exitMagic ∧ m' = d.machine.fresh) ∨
      ∃ slot entry, d.machine.fresh.fd idx = some (slot, entry) ∧
        Machine.Acts d.machine.fresh m' entry fd) :
    (d.behind call value m').Inv ∧ d.Lawful call (d.behind call value m') := by
  have spares (fd : Scheduler.Slot × Fin maxFds) : Machine.Spared d.machine.fresh m' fd := by
    rcases result fd with ⟨-, -, rfl⟩ | ⟨slot, entry, -, acts⟩
    · exact .of_kernel rfl
    · exact acts.spared
  have first := result (d.machine.kernel.current, ⟨0, by decide⟩)
  refine ⟨inv.still (noted_of_none given) (fun fd _ => spares fd) ?_,
    inv.lawful socketFd socket ?_⟩
  · rcases first with ⟨-, -, rfl⟩ | ⟨slot, entry, -, acts⟩
    · exact .refl _
    · exact acts.stack
  · rcases first with failed | ⟨slot, entry, found, acts⟩
    · exact .inl failed
    · refine .inr ⟨slot, entry, found, ?_⟩
      rw [acts.touched]
      exact List.Subset.refl _

theorem Inv.bind (inv : d.Inv) {idx sockaddr : BitVec 64} (socket : d.IsSocket idx)
    (called : d.machine.fresh.descriptorCall env (.bind idx sockaddr) = some (value, m')) :
    (d.behind (.bind idx sockaddr) value m').Inv ∧
      d.Lawful (.bind idx sockaddr) (d.behind (.bind idx sockaddr) value m') := by
  refine ⟨inv.passes rfl fun fd _ _ => ?_, inv.lawful rfl socket ?_⟩
  · rcases Machine.bind_cases called with ⟨-, -, rfl⟩ | ⟨slot, entry, -, rest, spared⟩
    · exact ⟨rfl, .of_kernel rfl⟩
    · exact ⟨congrArg Below.stack rest, spared fd⟩
  · rcases Machine.bind_cases called with
      failed | ⟨slot, entry, found, rest, -⟩
    · exact .inl failed
    · refine .inr ⟨slot, entry, found, ?_⟩
      rw [rest]
      exact List.nil_subset _

/-- A descriptor that was free, or is overwritten, becomes a duplicate. -/
theorem Inv.handed (inv : d.Inv) {oldFd : BitVec 64}
    (given : d.given call value = some (value, fun _ => d.titleOf oldFd))
    (result : (value = exitMagic ∧ m' = d.machine.fresh) ∨
      ∃ old entry slot, d.machine.fresh.fd oldFd = some (old, entry) ∧
        value.toNat = slot.val ∧ m' = d.machine.fresh.setFd slot entry) :
    (d.behind call value m').Inv := by
  rcases result with ⟨rfl, rfl⟩ | ⟨old, entry, slot, found, number, rfl⟩
  · exact inv.still (noted_of_failed given) (fun fd _ => .of_kernel rfl) (.refl _)
  · refine inv_behind fun fd title titled used => ?_
    rw [noted_of_given given number] at titled
    have entries := Machine.entryOf_setFd (m := d.machine.fresh) slot entry fd
    split_ifs at titled with here
    · obtain ⟨held, rfl⟩ := held_of_fd inv found titled
      exact held.handed rfl (entries.trans (if_pos here))
    · exact (inv fd title titled).handed rfl (entries.trans (if_neg here))

theorem Inv.socket (inv : d.Inv) {domain sockType : BitVec 64}
    (proper : d.Proper env (.socket domain sockType))
    (called : d.machine.fresh.descriptorCall env (.socket domain sockType) = some (value, m')) :
    (d.behind (.socket domain sockType) value m').Inv := by
  have given : d.given (.socket domain sockType) value =
    some (value, fun entry => entitle entry fun _ => d.stack.history.births) := rfl
  obtain ⟨keeps, ⟨rfl, kernel⟩ | ⟨i, slot, first, free, rfl, rfl⟩⟩ := Machine.socket_cases called
  · exact inv.spared (noted_of_failed given) (fun fd _ => .of_kernel kernel) keeps proper
  · have number : (BitVec.ofNat 64 slot.val).toNat = slot.val := by
      have small : slot.val < 16 := slot.isLt
      rw [BitVec.toNat_ofNat]
      omega
    refine inv_behind fun fd title titled used => ?_
    rw [noted_of_given given number] at titled
    have entries := Machine.entryOf_setFd
      (m := d.machine.fresh.onStack (d.stack.claimed i)) slot (Machine.socketEntry (ofConn i)) fd
    split_ifs at titled with here
    · have entry := entries.trans (if_pos here)
      change entitle (((d.machine.fresh.onStack (d.stack.claimed i)).setFd slot
        (Machine.socketEntry (ofConn i))).entryOf fd) _ = some title at titled
      rw [entry, entitle, Machine.toConn_socketEntry] at titled
      obtain rfl := Option.some.inj titled
      refine ⟨used, ?_, ?_, rfl, .inl ?_⟩
      · exact (congrArg FdEntry.offset entry).trans (Machine.socketEntry_offset i)
      · exact congrArg FdEntry.flags entry
      · exact (Stack.born_claimed i i).trans (if_pos rfl)
    · have held := inv fd title titled
      refine held.spared (fun _ => ?_) keeps (proper fd title titled) used
      have entry := entries.trans (if_neg here)
      exact ⟨congrArg FdEntry.offset entry, congrArg FdEntry.flags entry⟩

theorem keeps_closedBy (m : Machine (Below τ)) (entry : FdEntry) :
    Stack.KeepsBut [] m.rest.stack (m.closedBy entry) := by
  unfold Machine.closedBy
  cases toConn (Machine.connOf entry) with
  | none => exact .refl _
  | some i => exact Stack.keeps_close i

/-- A call that puts another connection in the place of a placeholder. -/
theorem Inv.adopts (inv : d.Inv) {idx : BitVec 64} {slot : Fin maxFds} {entry : FdEntry}
    {opened : Option Net.Tcp.Slot × Stack} {slots : List Net.Tcp.Slot}
    (found : d.machine.fd idx = some (slot, entry))
    (adopts : Machine.Adopts d.machine.fresh m' value slot entry opened)
    (given : d.given call value = if value = 0#64 then
      some (idx, fun entry => entitle entry fun _ => (d.closed idx).history.births) else none)
    (socket : d.IsSocket idx) (unnamed : d.UnnamedBut idx slots)
    (keeps : Stack.KeepsBut slots (d.machine.closedBy entry) opened.2)
    (failed : opened.1 = none → slots = [])
    (born : ∀ i, opened.1 = some i → opened.2.born i = (d.machine.closedBy entry).history.births ∨
      opened.2.born i = 0) : (d.behind call value m').Inv := by
  have keeps : Stack.KeepsBut slots d.stack m'.rest.stack := by
    rw [adopts.stack]
    exact (keeps_closedBy d.machine entry).after_keeps keeps
  rcases adopts.entries with ⟨none, rfl, kernel⟩ | ⟨i, made, rfl, entries⟩
  · rw [if_neg (by decide)] at given
    refine inv_behind fun fd title titled used => ?_
    rw [noted_of_none given] at titled
    have held := inv fd title titled
    refine held.spared (.of_kernel kernel) keeps ?_ used
    rw [failed none]
    exact List.not_mem_nil
  · rw [if_pos rfl] at given
    have number := (Machine.fd_some found).1
    refine inv_behind fun fd title titled used => ?_
    rw [noted_of_given given number.symm] at titled
    have entryOf := entries fd
    split_ifs at titled with here
    · have entryHere := entryOf.trans (if_pos here)
      obtain ⟨title', titled'⟩ := Option.ne_none_iff_exists'.mp (socket (by rw [found]; nofun))
      obtain ⟨held, was⟩ := held_of_fd inv found titled'
      rw [entryHere, entitle, Machine.toConn_connOf rfl] at titled
      obtain rfl := Option.some.inj titled
      refine ⟨used, ?_, ?_, rfl, ?_⟩
      · rw [entryHere]
      · rw [entryHere]
        exact was ▸ held.flags
      · rw [adopts.stack, closed, found]
        exact born i made
    · have held := inv fd title titled
      have entryThere := entryOf.trans (if_neg here)
      refine held.spared (fun _ => ⟨congrArg _ entryThere, congrArg _ entryThere⟩) keeps
        (unnamed fd title titled fun isNumber => here ?_) used
      exact Prod.ext isNumber.1 (Fin.ext (isNumber.2.trans number.symm))

theorem Inv.listen (inv : d.Inv) {idx : BitVec 64} (proper : d.Proper env (.listen idx))
    (called : d.machine.fresh.descriptorCall env (.listen idx) = some (value, m')) :
    (d.behind (.listen idx) value m').Inv ∧
      d.Lawful (.listen idx) (d.behind (.listen idx) value m') := by
  obtain ⟨socket, unnamed⟩ := proper
  rcases Machine.listen_cases called with ⟨missing, rfl, rfl⟩ | ⟨slot, entry, found, adopts⟩
  · have given : d.given (.listen idx) exitMagic = none := by
      unfold given
      exact if_neg (by decide)
    refine ⟨inv.still (noted_of_none given) (fun fd _ => .of_kernel rfl) (.refl _),
      inv.lawful rfl socket (.inl ⟨missing, rfl, rfl⟩)⟩
  · obtain ⟨none, born⟩ := (d.machine.closedBy entry).listen_result (entry.size.setWidth 16)
    refine ⟨inv.adopts found adopts rfl socket (unnamed _ found) (Stack.keeps_listen _) none
      fun i made => .inl (born i made), inv.lawful rfl socket (.inr ⟨slot, entry, found, ?_⟩)⟩
    rw [adopts.touched]
    exact List.Subset.refl _

theorem Inv.connect (inv : d.Inv) {idx sockaddr : BitVec 64} {polled : List Arrival}
    {mac : Net.Mac} (proper : d.Proper env (.connect idx sockaddr polled mac))
    (called : d.machine.fresh.descriptorCall env (.connect idx sockaddr polled mac) =
      some (value, m')) :
    (d.behind (.connect idx sockaddr polled mac) value m').Inv ∧
      d.Lawful (.connect idx sockaddr polled mac)
        (d.behind (.connect idx sockaddr polled mac) value m') := by
  obtain ⟨socket, unnamed⟩ := proper
  rcases Machine.connect_cases called with ⟨missing, rfl, rfl⟩ | ⟨slot, entry, found, adopts⟩
  · have given : d.given (.connect idx sockaddr polled mac) exitMagic = none := by
      unfold given
      exact if_neg (by decide)
    refine ⟨inv.still (noted_of_none given) (fun fd _ => .of_kernel rfl) (.refl _),
      inv.lawful rfl socket (.inl ⟨missing, rfl, rfl⟩)⟩
  · obtain ⟨unnamed, alone⟩ := unnamed _ found
    refine ⟨inv.adopts found adopts rfl socket unnamed (Stack.keeps_connect _ _ _ _)
      Stack.connect_none fun i made => Stack.born_connect (alone i) made,
      inv.lawful rfl socket (.inr ⟨slot, entry, found, ?_⟩)⟩
    rw [adopts.touched]
    exact List.Subset.refl _

theorem Inv.accept (inv : d.Inv) {idx sockaddr addrlen : BitVec 64}
    (proper : d.Proper env (.accept idx sockaddr addrlen))
    (called : d.machine.fresh.descriptorCall env (.accept idx sockaddr addrlen) =
      some (value, m')) :
    (d.behind (.accept idx sockaddr addrlen) value m').Inv ∧
      d.Lawful (.accept idx sockaddr addrlen)
        (d.behind (.accept idx sockaddr addrlen) value m') := by
  have given : d.given (.accept idx sockaddr addrlen) value =
    some (value, fun entry => entitle entry d.stack.born) := rfl
  rcases Machine.accept_returned called with
    ⟨rfl, rfl, -⟩ | ⟨found, conn, slot, inUse, first, free, rfl, rest, entries⟩
  · refine ⟨inv.still (noted_of_failed given) (fun fd _ => .of_kernel rfl) (.refl _), fun idx' _ => ⟨fun _ => ⟨rfl, rfl⟩, ?_⟩⟩
    intro title _ conn touched
    cases touched
  obtain ⟨i, accepted, rfl⟩ := Option.map_eq_some_iff.mp first
  have number : (BitVec.ofNat 64 slot.val).toNat = slot.val := by
    have small : slot.val < 16 := slot.isLt
    rw [BitVec.toNat_ofNat]
    omega
  have stack : m'.rest.stack = d.machine.fresh.rest.stack := congrArg Below.stack rest
  refine ⟨inv_behind fun fd title titled used => ?_, fun idx' same => ⟨fun untitled => ?_, ?_⟩⟩
  · rw [noted_of_given given number] at titled
    have entry : m'.entryOf fd = if fd = (d.machine.kernel.current, slot) then
      Machine.socketEntry (ofConn i) else d.machine.entryOf fd := entries fd
    split_ifs at titled with here
    · rw [entry, if_pos here, entitle, Machine.toConn_socketEntry] at titled
      obtain rfl := Option.some.inj titled
      have entry := entry.trans (if_pos here)
      refine ⟨used, ?_, ?_, rfl, .inl (congrArg (Stack.born · i) stack)⟩
      · exact (congrArg FdEntry.offset entry).trans (Machine.socketEntry_offset i)
      · exact congrArg FdEntry.flags entry
    · exact (inv fd title titled).handed stack (entry.trans (if_neg here))
  · cases same
    rcases proper with socket | full | none
    · exact absurd untitled (socket (by rw [show d.machine.fd idx = some found from inUse]; nofun))
    · rw [show d.machine.freeFd = some slot from free] at full
      cases full
    · have refused := none found inUse
      rw [show d.stack.findAccepted _ = some i from accepted] at refused
      cases refused
  · intro title _ conn touched
    have none : m'.rest.touched = [] := congrArg Below.touched rest
    rw [show (d.behind _ _ m').machine.rest.touched = m'.rest.touched from rfl, none] at touched
    cases touched

/-- One call. -/
theorem Inv.step (inv : d.Inv) (proper : d.Proper env call)
    (called : d.machine.fresh.descriptorCall env call = some (value, m')) :
    (d.behind call value m').Inv ∧ d.Lawful call (d.behind call value m') := by
  have used {fd title} (titled : d.title fd = some title) :
      (d.machine.fresh.entryOf fd).inUse = true := (inv fd title titled).used
  have titleOf {idx fd title} (titled : d.title fd = some title)
      (number : d.machine.fresh.IsNumber idx fd) : d.titleOf idx ≠ none := by
    obtain ⟨task, place⟩ := fd
    obtain ⟨rfl, number⟩ := number
    rw [titleOf_eq_some.mpr ⟨place, number, titled⟩]
    nofun
  cases call with
  | openFile ptr len flags =>
    exact ⟨inv.passes rfl fun fd title titled =>
      Machine.openFile_passes called (used titled), lawful_of_other rfl⟩
  | readFile idx buf count =>
    exact ⟨inv.passes rfl fun fd title titled => Machine.readFile_passes called fun number =>
      proper (titleOf titled number), lawful_of_other rfl⟩
  | writeFile idx buf count =>
    exact ⟨inv.passes rfl fun fd title titled => Machine.writeFile_passes called fun number =>
      (inv fd title titled).flags, lawful_of_other rfl⟩
  | closeFd idx =>
    exact ⟨inv.passes rfl fun _ _ _ => Machine.closeFd_passes called, lawful_of_other rfl⟩
  | fstat idx =>
    exact ⟨inv.passes rfl fun _ _ _ => Machine.fstat_passes called, lawful_of_other rfl⟩
  | lseek idx offset whence =>
    exact ⟨inv.passes rfl fun fd title titled => Machine.lseek_passes called fun number =>
      proper (titleOf titled number), lawful_of_other rfl⟩
  | dup oldFd =>
    refine ⟨inv.handed rfl ?_, lawful_of_other rfl⟩
    rcases Machine.dup_cases called with failed | ⟨old, entry, slot, found, -, rfl, rfl⟩
    · exact .inl failed
    · refine .inr ⟨old, entry, slot, found, ?_, rfl⟩
      have small : slot.val < 16 := slot.isLt
      rw [BitVec.toNat_ofNat]
      omega
  | dup2 oldFd newFd => exact ⟨inv.handed rfl (Machine.dup2_cases called), lawful_of_other rfl⟩
  | pipe fdsPtr =>
    exact ⟨inv.passes rfl fun fd title titled =>
      Machine.pipe_passes called (used titled), lawful_of_other rfl⟩
  | socket domain sockType => exact ⟨inv.socket proper called, lawful_of_other rfl⟩
  | bind idx sockaddr => exact inv.bind proper called
  | listen idx => exact inv.listen proper called
  | accept idx sockaddr addrlen => exact inv.accept proper called
  | connect idx sockaddr polled mac => exact inv.connect proper called
  | send idx buf len => exact inv.acts rfl rfl proper fun _ => Machine.send_cases called
  | recv idx buf len => exact inv.acts rfl rfl proper fun _ => Machine.recv_cases called
  | shutdown idx => exact inv.acts rfl rfl proper fun _ => Machine.shutdown_cases called
  | stack call =>
    obtain ⟨-, rfl⟩ := Prod.mk.inj (Option.some.inj called)
    exact ⟨inv.spared (noted_of_none rfl) (fun _ _ => .of_kernel rfl)
      (Stack.keeps_perform call) proper, lawful_of_other rfl⟩
  | files files =>
    obtain ⟨-, rfl⟩ := Prod.mk.inj (Option.some.inj called)
    exact ⟨inv.passes rfl fun _ _ _ => ⟨rfl, .of_kernel rfl⟩, lawful_of_other rfl⟩
  | compute memory =>
    obtain ⟨-, rfl⟩ := Prod.mk.inj (Option.some.inj called)
    exact ⟨inv.passes rfl fun _ _ _ => ⟨rfl, .of_kernel rfl⟩, lawful_of_other rfl⟩
  | switch next =>
    obtain ⟨after, switched, pair⟩ := Option.map_eq_some_iff.mp called
    obtain ⟨-, rfl⟩ := Prod.mk.inj pair
    refine ⟨inv.passes rfl fun fd title titled => ?_, lawful_of_other rfl⟩
    obtain ⟨kernel, rfl⟩ := Machine.switch_eq switched
    have same := Machine.entryOf_switch switched fd
    exact ⟨rfl, fun _ => ⟨congrArg _ same, congrArg _ same⟩⟩

end Desk

namespace Desk

variable (d : Desk τ)

instance (idx : BitVec 64) : Decidable (d.IsSocket idx) :=
  inferInstanceAs (Decidable (_ → _))

instance (opened : List Net.Tcp.Slot) : Decidable (d.Unnamed opened) :=
  decidable_of_iff (∀ task i, ∀ title ∈ d.title (task, i), title.slot ∉ opened)
    (Prod.forall (p := fun fd => ∀ title ∈ d.title fd, title.slot ∉ opened)).symm

instance (idx : BitVec 64) (fd : Scheduler.Slot × Fin maxFds) :
    Decidable (d.machine.IsNumber idx fd) := inferInstanceAs (Decidable (_ ∧ _))

instance (idx : BitVec 64) (opened : List Net.Tcp.Slot) : Decidable (d.UnnamedBut idx opened) :=
  decidable_of_iff (∀ task i, ∀ title ∈ d.title (task, i),
    ¬ d.machine.IsNumber idx (task, i) → title.slot ∉ opened)
    (Prod.forall (p := fun fd => ∀ title ∈ d.title fd,
      ¬ d.machine.IsNumber idx fd → title.slot ∉ opened)).symm

instance (env : Services (Below τ)) (m : Machine (Below τ)) (idx count : BitVec 64) :
    Decidable (m.Reads env idx count) :=
  decidable_of_iff (∃ found ∈ m.fd idx, count ≠ 0#64 ∧ found.2.offset < found.2.size ∧
    0 ≤ ((overStack env).vfsOpen (fdName found.2) 0#64 m).1.toInt) Iff.rfl

instance (m : Machine (Below τ)) (idx offset whence : BitVec 64) :
    Decidable (m.Seeks idx offset whence) :=
  decidable_of_iff (∃ found ∈ m.fd idx, ∃ target ∈ Machine.seekTarget found.2 offset
    (whence.setWidth 32), BitVec.ofInt 32 target ≠ found.2.offset) (by
      simp only [Machine.Seeks, Option.mem_def, exists_and_left])

instance (env : Services (Below τ)) : (call : DescriptorCall τ) → Decidable (d.Proper env call)
  | .readFile idx _ count =>
    inferInstanceAs (Decidable (d.titleOf idx ≠ none → ¬ d.machine.fresh.Reads env idx count))
  | .lseek idx offset whence =>
    inferInstanceAs (Decidable (d.titleOf idx ≠ none → ¬ d.machine.Seeks idx offset whence))
  | .socket domain sockType =>
    inferInstanceAs (Decidable (d.Unnamed (d.machine.openedBySocket domain sockType)))
  | .bind idx _ | .send idx _ _ | .recv idx _ _ | .shutdown idx =>
    inferInstanceAs (Decidable (d.IsSocket idx))
  | .listen idx => decidable_of_iff (d.IsSocket idx ∧ ∀ found ∈ d.machine.fd idx,
      d.UnnamedBut idx ((d.machine.closedBy found.2).openedByListen (found.2.size.setWidth 16)))
        Iff.rfl
  | .accept idx _ _ => decidable_of_iff (d.IsSocket idx ∨ d.machine.freeFd = none ∨
      ∀ found ∈ d.machine.fd idx, d.stack.findAccepted (found.2.size.setWidth 16) = none) Iff.rfl
  | .connect idx sockaddr polled mac => decidable_of_iff (d.IsSocket idx ∧
      ∀ found ∈ d.machine.fd idx,
        d.UnnamedBut idx ((d.machine.closedBy found.2).openedByConnect
          (d.machine.sockAddr sockaddr) (d.machine.sockPort sockaddr) polled mac) ∧
        ∀ i ∈ (d.machine.closedBy found.2).firstFree,
          i ∉ ((d.machine.closedBy found.2).dialling i (d.machine.sockAddr sockaddr)
            (d.machine.sockPort sockaddr)).openedBehind i (d.machine.sockAddr sockaddr) polled mac)
        Iff.rfl
  | .stack call => inferInstanceAs (Decidable (d.Unnamed (d.stack.openings call)))
  | .openFile .. | .writeFile .. | .closeFd .. | .fstat .. | .dup .. | .dup2 .. | .pipe ..
  | .files .. | .compute .. | .switch .. => inferInstanceAs (Decidable True)

end Desk

/-! ## A server and a file -/

/-- A VFS that opens every name. -/
def anyFile : Services (Below Unit) :=
  { noServices with vfsOpen := fun _ _ m => (0, m) }

def idleDesk : Desk Unit :=
  .ofMachine { oneTask with
    rest := ⟨Stack.boot (fun _ => true) serverIp serverMac, [], ()⟩ }

end DBSos.Syscall
