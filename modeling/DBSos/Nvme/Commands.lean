import DBSos.Lib.Ring
import DBSos.Memory.Allocated

/-!
# NVMe queues

The driver's half of a queue pair is its two positions and the phase it expects; the
controller's half is what it has fetched and where it posts next. The last dword of a completion
carries the command id, the phase bit and the status. The controller acts between two polls and
may take as long as it likes.
-/

namespace DBSos.Nvme

open DBSos.Lib
open DBSos.Memory

def qd : Nat := 64

/-- How often `admin_wait` and `io_wait` look for a completion. -/
@[irreducible] def pollLimit : Nat := 1000000

def adminIdentify : UInt8 := 0x06

def opRead : UInt8 := 0x02

def opWrite : UInt8 := 0x01

/-- The two queue pairs. -/
inductive QueueId where
  | admin
  | io
  deriving DecidableEq

/-- The dwords of a command that are not zero, with the content of the page that `prp2` names
where it is a list; `ticket` counts the commands ever submitted. -/
structure Command where
  ticket : Nat
  opcode : UInt8
  cid : UInt16
  nsid : UInt32
  prp1 : Nat
  prp2 : Nat
  list : List Nat
  cdw10 : UInt32
  cdw11 : UInt32
  cdw12 : UInt32
  deriving DecidableEq

/-- The pages that the PRPs name. -/
def Command.pages (c : Command) : List Nat := (c.prp1 :: c.prp2 :: c.list).filter (· ≠ 0)

/-- A queue pair: the addresses, the driver's tail, head and phase, the last dwords of the
completion entries, and the controller's open commands, position and phase. -/
structure Queue where
  sq : Nat
  cq : Nat
  sqt : Nat
  cqh : Nat
  phase : Nat
  entries : Nat → Nat
  outstanding : List Command
  cqTail : Nat
  cqPhase : Nat

/-- The driver's statics, the page allocator, and the completions posted so far. -/
structure State where
  ready : Bool
  nsid : UInt32
  cid : UInt16
  queue : QueueId → Queue
  memory : PhysAllocator
  issued : Nat
  posted : List (Nat × Fin (2 ^ 15))

/-- The dword that the controller writes. -/
def completion (cid : UInt16) (phase : Nat) (status : Fin (2 ^ 15)) : Nat :=
  cid.toNat + phase * 2 ^ 16 + status.val * 2 ^ 17

/-- `(entry >> 16) & 1`. -/
def phaseBit (entry : Nat) : Nat := (entry >>> 16) &&& 1

/-- `(entry & 0xFFFF) as u16`. -/
def entryCid (entry : Nat) : UInt16 := (entry &&& 0xFFFF).toUInt16

/-- `entry >> 17`. -/
def entryStatus (entry : Nat) : Nat := entry >>> 17

/-- The completion queue as the controller fills it. -/
def Queue.ring (q : Queue) : PhaseRing := ⟨fun i => phaseBit (q.entries i), q.cqTail, q.cqPhase⟩

/-! ## The controller -/

/-- The controller completes the open command at `index` of a queue. -/
structure Posting where
  id : QueueId
  index : Nat
  status : Fin (2 ^ 15)

/-- One completion is written behind the last one. -/
def Queue.answer (q : Queue) (index : Nat) (c : Command) (status : Fin (2 ^ 15)) : Queue :=
  { q with
    entries := Function.update q.entries q.cqTail (completion c.cid q.cqPhase status)
    outstanding := q.outstanding.eraseIdx index
    cqTail := (q.cqTail + 1) % qd
    cqPhase := PhaseRing.nextPhase ((q.cqTail + 1) % qd) q.cqPhase }

def post (s : State) (p : Posting) : State :=
  match (s.queue p.id).outstanding[p.index]? with
  | none => s
  | some c =>
    { s with
      queue := Function.update s.queue p.id ((s.queue p.id).answer p.index c p.status)
      posted := (c.ticket, p.status) :: s.posted }

def activity (postings : List Posting) (s : State) : State := postings.foldl post s

/-- What the controller does before each poll. -/
abbrev Polls := Nat → List Posting

/-- The controller acts `n` times from position `i` on. -/
def drive (polls : Polls) : Nat → Nat → State → State
  | _, 0, s => s
  | i, n + 1, s => drive polls (i + 1) n (activity (polls i) s)

/-! ## The driver -/

/-- `admin_send` and `io_send`. -/
def send (id : QueueId) (c : Command) (s : State) : Option State :=
  let q := s.queue id
  if q.sq = 0 then none
  else
    some { s with
      queue := Function.update s.queue id
        { q with sqt := (q.sqt + 1) % qd, outstanding := q.outstanding ++ [c] }
      issued := s.issued + 1 }

/-- The head moves past an entry, and the phase turns where the head comes back to 0. -/
def Queue.take (q : Queue) : Queue :=
  { q with
    cqh := (q.cqh + 1) % qd
    phase := PhaseRing.nextPhase ((q.cqh + 1) % qd) q.phase }

/-- The loop of `admin_wait` and `io_wait`; `fresh` is the test of the phase bit. -/
def waitFor (id : QueueId) (fresh : Nat → Nat → Bool) (cid : UInt16) (polls : Polls) :
    Nat → Nat → State → Bool × State
  | _, 0, s => (false, s)
  | i, n + 1, s =>
    let s := activity (polls i) s
    let q := s.queue id
    let entry := q.entries q.cqh
    if fresh (phaseBit entry) q.phase then
      (decide (entryStatus entry = 0 ∧ entryCid entry = cid),
        { s with queue := Function.update s.queue id q.take })
    else waitFor id fresh cid polls (i + 1) n s

/-- The test of `admin_wait`, which does not look at `ADM_PHASE`. -/
def adminFresh (bit _phase : Nat) : Bool := bit ≠ 0

/-- The test of `io_wait`. -/
def ioFresh (bit phase : Nat) : Bool := bit = phase

/-- `admin_wait`. -/
def adminWait (cid : UInt16) (polls : Polls) (s : State) : Bool × State :=
  if (s.queue .admin).cq = 0 then (false, s)
  else waitFor .admin adminFresh cid polls 0 pollLimit s

/-- `io_wait`. -/
def ioWait (cid : UInt16) (polls : Polls) (s : State) : Bool × State :=
  if (s.queue .io).cq = 0 then (false, s)
  else waitFor .io ioFresh cid polls 0 pollLimit s

end DBSos.Nvme

/-!
## NVMe commands

`submit_admin` and `nvme_rw` build a command, ring the doorbell and wait. A read or write takes
its pages from the allocator and gives them back when the wait is over, however it ended. A call
is recorded with what a judge of it has to know.
-/

namespace DBSos.Nvme

open DBSos.Memory

def maxPages : Nat := 256

/-- How a call ended: what it returned, the state in which its command had just been submitted,
the pages it gave back and the state it left. -/
structure Outcome where
  returned : Bool
  sent : Option State
  freed : List Nat
  state : State

/-- `submit_admin`. -/
def submitAdmin (opcode : UInt8) (nsid : UInt32) (prp1 prp2 : Nat) (cdw10 cdw11 : UInt32)
    (polls : Polls) (s : State) : Outcome :=
  let cmd : Command :=
    { ticket := s.issued, opcode, cid := s.cid, nsid, prp1, prp2, list := [], cdw10, cdw11
      cdw12 := 0 }
  let counted := { s with cid := s.cid + 1 }
  match send .admin cmd counted with
  | none => ⟨false, none, [], counted⟩
  | some sent =>
    let waited := adminWait s.cid polls sent
    ⟨waited.1, some sent, [], waited.2⟩

/-- The loop that takes the pages of a transfer; when one is missing the others go back. -/
def allocAddrs : Nat → List Nat → PhysAllocator → Bool × List Nat × PhysAllocator
  | 0, addrs, a => (true, addrs, a)
  | n + 1, addrs, a =>
    let taken := a.palloc
    if taken.1 = 0 then (false, addrs, addrs.foldl PhysAllocator.pfree taken.2)
    else allocAddrs n (addrs ++ [taken.1]) taken.2

/-- The page for a PRP list, which only more than two pages need. -/
def allocList (pages : Nat) (a : PhysAllocator) : Nat × PhysAllocator :=
  if pages ≤ 2 then (0, a) else a.palloc

/-- `prp2`, and what the page behind it lists. -/
def prp2Of (addrs : List Nat) (prpList : Nat) : Nat × List Nat :=
  if addrs.length = 1 then (0, [])
  else if addrs.length = 2 then (addrs.getD 1 0, [])
  else (prpList, addrs.drop 1)

/-- The pages that `nvme_rw` frees at its end. -/
def givenBack (addrs : List Nat) (prpList : Nat) : List Nat :=
  addrs ++ if prpList = 0 then [] else [prpList]

/-- `io_send(&cmd) && io_wait(cid)`, and the pages given back. -/
def transfer (cmd : Command) (freed : List Nat) (polls : Polls) (s : State) : Outcome :=
  let release (s : State) : State := { s with memory := freed.foldl PhysAllocator.pfree s.memory }
  match send .io cmd s with
  | none => ⟨false, none, freed, release s⟩
  | some sent =>
    let waited := ioWait cmd.cid polls sent
    ⟨waited.1, some sent, freed, release waited.2⟩

/-- `nvme_rw`, without the bytes it copies. -/
def nvmeRw (opcode : UInt8) (lba : UInt64) (count : UInt16) (polls : Polls) (s : State) :
    Outcome :=
  let pages := (count.toNat * 512 + 4095) / 4096
  if s.ready = false ∨ count = 0 then ⟨false, none, [], s⟩
  else if pages > maxPages then ⟨false, none, [], s⟩
  else
    let taken := allocAddrs pages [] s.memory
    let addrs := taken.2.1
    if taken.1 = false then ⟨false, none, addrs, { s with memory := taken.2.2 }⟩
    else
      let listed := allocList pages taken.2.2
      if pages > 2 ∧ listed.1 = 0 then
        ⟨false, none, addrs, { s with memory := addrs.foldl PhysAllocator.pfree listed.2 }⟩
      else
        let second := prp2Of addrs listed.1
        let cmd : Command :=
          { ticket := s.issued, opcode, cid := s.cid, nsid := s.nsid, prp1 := addrs.getD 0 0
            prp2 := second.1, list := second.2, cdw10 := lba.toUInt32
            cdw11 := (lba >>> 32).toUInt32, cdw12 := (count.toUInt32 - 1) &&& 0xFFFF }
        transfer cmd (givenBack addrs listed.1) polls { s with cid := s.cid + 1, memory := listed.2 }

/-! ## Runs -/

/-- One call, the controller alone, or the rest of the kernel. -/
inductive Event where
  | submitAdmin (opcode : UInt8) (nsid : UInt32) (prp1 prp2 : Nat) (cdw10 cdw11 : UInt32)
      (polls : Polls)
  | nvmeRw (opcode : UInt8) (lba : UInt64) (count : UInt16) (polls : Polls)
  | controller (postings : List Posting)
  | elsewhere (ready : Bool) (memory : PhysAllocator)

/-- The call of an event. -/
def Event.call (s : State) : Event → Option (Outcome × Polls)
  | .submitAdmin opcode nsid prp1 prp2 cdw10 cdw11 polls =>
    some (Nvme.submitAdmin opcode nsid prp1 prp2 cdw10 cdw11 polls s, polls)
  | .nvmeRw opcode lba count polls => some (Nvme.nvmeRw opcode lba count polls s, polls)
  | .controller _ => none
  | .elsewhere _ _ => none

/-- The state after an event. -/
def Event.next (s : State) : Event → State
  | .submitAdmin opcode nsid prp1 prp2 cdw10 cdw11 polls =>
    (Nvme.submitAdmin opcode nsid prp1 prp2 cdw10 cdw11 polls s).state
  | .nvmeRw opcode lba count polls => (Nvme.nvmeRw opcode lba count polls s).state
  | .controller postings => activity postings s
  | .elsewhere ready memory => { s with ready, memory }

def Step (s : State) (event : Event) (next : State) : Prop := next = event.next s

/-- The queues as `init` leaves them: zeroed, at their starts, the first pass expected. -/
def Queue.Fresh (q : Queue) : Prop :=
  (q.sq ≠ 0 → q.cq ≠ 0) ∧ q.sqt = 0 ∧ q.cqh = 0 ∧ q.phase = 1 ∧ q.entries = (fun _ => 0) ∧
    q.outstanding = [] ∧ q.cqTail = 0 ∧ q.cqPhase = 1

structure Boot (s : State) : Prop where
  fresh : ∀ id, (s.queue id).Fresh
  cid : s.cid = 0
  issued : s.issued = 0
  posted : s.posted = []

/-! ## What is claimed of a call -/

/-- While the driver could have polled, the controller completed the command with `status`. -/
def PostedWithin (polls : Polls) (sent : State) (ticket : Nat) (status : Fin (2 ^ 15)) : Prop :=
  ∃ n ≤ pollLimit, (ticket, status) ∈ (drive polls 0 n sent).posted

/-- A call that succeeds has its own completion, a completion in time makes it succeed, and no
page of an open command is given back. -/
structure Sound (s : State) (polls : Polls) (o : Outcome) : Prop where
  own : o.returned = true → o.sent ≠ none ∧ (s.issued, 0) ∈ o.state.posted
  completes : ∀ sent, o.sent = some sent → PostedWithin polls sent s.issued 0 → o.returned = true
  keeps : ∀ freed ∈ o.freed, ∀ id, ∀ c ∈ (o.state.queue id).outstanding, ∀ page ∈ c.pages,
    ¬ s.memory.Hits freed page

def SoundEvent (s : State) (event : Event) : Prop :=
  ∀ o polls, event.call s = some (o, polls) → Sound s polls o

/-- The queue pair is in step: nothing is open or waits to be taken, and the driver looks where
the controller will post, for the phase it will post. -/
structure InStep (q : Queue) : Prop where
  idle : q.outstanding = []
  head : q.cqh = q.cqTail
  phase : q.phase = q.cqPhase

/-- An admin command finds its queue in step and in the first pass. A read or write that is
submitted is completed in time, and what open commands name is allocated. -/
def Careful (s : State) : Event → Prop
  | .submitAdmin _ _ _ _ _ _ _ => InStep (s.queue .admin) ∧ (s.queue .admin).phase = 1
  | .nvmeRw opcode lba count polls =>
    (∀ sent, (Nvme.nvmeRw opcode lba count polls s).sent = some sent →
      ∃ status, PostedWithin polls sent s.issued status) ∧
    ∀ id, ∀ c ∈ (s.queue id).outstanding, ∀ page ∈ c.pages, Allocated s.memory page
  | .controller _ => True
  | .elsewhere _ _ => True

end DBSos.Nvme
