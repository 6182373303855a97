import Mathlib.Algebra.GroupWithZero.Nat
import Mathlib.Data.List.FinRange

/-!
# TCP

The twenty-byte header as `tcp_send_seq` writes it and as `input` reads it back,
in network byte order. The checksum is computed for outgoing segments; `input`
never looks at it.
-/

namespace DBSos.Net

abbrev Byte := BitVec 8
abbrev Port := BitVec 16
abbrev Seq := BitVec 32
abbrev Mac := Vector Byte 6
abbrev Ipv4 := Vector Byte 4

def tcph : Nat := 20

def flagFin : Byte := 0x01
def flagSyn : Byte := 0x02
def flagRst : Byte := 0x04
def flagPsh : Byte := 0x08
def flagAck : Byte := 0x10

/-- `flags & bit != 0`. -/
def has (flags bit : Byte) : Bool := flags &&& bit != 0

def be16 (value : BitVec 16) : List Byte :=
  [value.extractLsb' 8 8, value.extractLsb' 0 8]

def be32 (value : BitVec 32) : List Byte :=
  [value.extractLsb' 24 8, value.extractLsb' 16 8, value.extractLsb' 8 8, value.extractLsb' 0 8]

def u16From (high low : Byte) : BitVec 16 :=
  high.setWidth 16 <<< 8 ||| low.setWidth 16

def u32From (first second third fourth : Byte) : BitVec 32 :=
  first.setWidth 32 <<< 24 ||| second.setWidth 32 <<< 16 ||| third.setWidth 32 <<< 8 |||
    fourth.setWidth 32

@[simp] theorem u16From_be16 (value : BitVec 16) :
    u16From (value.extractLsb' 8 8) (value.extractLsb' 0 8) = value := by
  refine BitVec.eq_of_getLsbD_eq fun index bound => ?_
  simp only [u16From, BitVec.getLsbD_or, BitVec.getLsbD_shiftLeft, BitVec.getLsbD_setWidth,
    BitVec.getLsbD_extractLsb']
  by_cases low : index < 8
  · simp [low, bound]
  · have above : 8 + (index - 8) = index := by omega
    simp [low, bound, above, show index - 8 < 8 by omega, show index - 8 < 16 by omega]

@[simp] theorem u32From_be32 (value : BitVec 32) :
    u32From (value.extractLsb' 24 8) (value.extractLsb' 16 8) (value.extractLsb' 8 8)
      (value.extractLsb' 0 8) = value := by
  refine BitVec.eq_of_getLsbD_eq fun index bound => ?_
  simp only [u32From, BitVec.getLsbD_or, BitVec.getLsbD_shiftLeft, BitVec.getLsbD_setWidth,
    BitVec.getLsbD_extractLsb']
  have byte : index < 8 ∨ 8 ≤ index ∧ index < 16 ∨ 16 ≤ index ∧ index < 24 ∨ 24 ≤ index := by
    omega
  rcases byte with first | ⟨low, high⟩ | ⟨low, high⟩ | fourth
  · simp [bound, first, show index < 16 by omega, show index < 24 by omega]
  · simp [bound, high, show ¬ index < 8 by omega, show index < 24 by omega,
      show index - 8 < 8 by omega, show index - 8 < 32 by omega,
      show 8 + (index - 8) = index by omega]
  · simp [bound, high, show ¬ index < 8 by omega, show ¬ index < 16 by omega,
      show ¬ index - 8 < 8 by omega, show index - 16 < 8 by omega,
      show index - 16 < 32 by omega, show 16 + (index - 16) = index by omega]
  · simp [bound, show ¬ index < 8 by omega, show ¬ index < 16 by omega,
      show ¬ index < 24 by omega, show ¬ index - 8 < 8 by omega, show ¬ index - 16 < 8 by omega,
      show index - 24 < 8 by omega, show index - 24 < 32 by omega, show 24 + (index - 24) = index by omega]

/-- The big-endian sum of 16-bit words, an odd last byte taken as a high byte. -/
def wordSum : List Byte → Nat
  | [] => 0
  | [high] => high.toNat * 256
  | high :: low :: rest => high.toNat * 256 + low.toNat + wordSum rest

/-- One round of the carry loop. -/
def foldCarry (sum : Nat) : Nat := sum % 2 ^ 16 + sum / 2 ^ 16

def checksum (bytes : List Byte) : BitVec 16 :=
  ~~~ BitVec.ofNat 16 (foldCarry (foldCarry (wordSum bytes)))

/-- The fields of a segment that the stack reads. -/
structure Segment where
  sport : Port
  dport : Port
  seq : Seq
  ack : Seq
  flags : Byte
  payload : List Byte
deriving DecidableEq

namespace Segment

/-- The header with a given checksum field, followed by the payload. -/
def bytes (segment : Segment) (csum : BitVec 16) : List Byte :=
  be16 segment.sport ++ be16 segment.dport ++ be32 segment.seq ++ be32 segment.ack ++
    [0x50, segment.flags] ++ be16 8192 ++ be16 csum ++ [0, 0] ++ segment.payload

/-- The twelve bytes that the checksum covers before the header. -/
def pseudoHeader (ownIp peerIp : Ipv4) (length : Nat) : List Byte :=
  ownIp.toList ++ peerIp.toList ++ [0, 6] ++ be16 (BitVec.ofNat 16 length)

/-- The segment as `tcp_send_seq` puts it on the wire. -/
def encode (ownIp peerIp : Ipv4) (segment : Segment) : List Byte :=
  segment.bytes (checksum
    (pseudoHeader ownIp peerIp (tcph + segment.payload.length) ++ segment.bytes 0))

/-- The fields that `input` reads; `none` for a buffer shorter than a header. -/
def parse (data : List Byte) : Option Segment :=
  if data.length < tcph then none
  else
    let byte := fun place => data.getD place 0
    some {
      sport := u16From (byte 0) (byte 1)
      dport := u16From (byte 2) (byte 3)
      seq := u32From (byte 4) (byte 5) (byte 6) (byte 7)
      ack := u32From (byte 8) (byte 9) (byte 10) (byte 11)
      flags := byte 13
      payload := data.drop ((byte 12 >>> 4).toNat * 4) }

/-- What the stack writes it reads back, whatever the checksum field holds. -/
theorem parse_bytes (segment : Segment) (csum : BitVec 16) :
    parse (segment.bytes csum) = some segment := by
  obtain ⟨sport, dport, seq, ack, flags, payload⟩ := segment
  have long : ¬ ((Segment.mk sport dport seq ack flags payload).bytes csum).length < tcph := by
    simp [bytes, be16, be32, tcph]
  rw [parse, if_neg long]
  simp [bytes, be16, be32]

theorem parse_encode (ownIp peerIp : Ipv4) (segment : Segment) :
    parse (segment.encode ownIp peerIp) = some segment :=
  parse_bytes segment _

end Segment

end DBSos.Net

/-!
## The TCP stack

Eight connection slots over one interface. A segment for the stack's own address
is not handed to the card but fed back into `input` before the send returns, so
handlers nest; `input` takes the nesting that is still allowed as its first
argument, and `input_deep` in `Loopback` shows that three levels are all there is.

`History` is what a verifier writes down beside the kernel's own fields. No
branch of the code reads it.
-/

namespace DBSos.Net.Tcp

abbrev maxConns : Nat := 8

instance : NeZero maxConns := ⟨by decide⟩

/-- An index of `CONNS`. -/
abbrev Slot := Fin maxConns

def rxBuf : Nat := 2048

/-- The size of `out_buf`. -/
def mtu : Nat := 1400

inductive ConnState where
  | closed
  | listen
  | synSent
  | synRcvd
  | established
  | finWait1
  | finWait2
  | closeWait
  | lastAck
  | closing
deriving DecidableEq, Repr

/-- A connection. The buffers hold `rx_len` and `out_len` bytes. -/
structure Conn where
  inUse : Bool
  state : ConnState
  localPort : Port
  remotePort : Port
  remoteMac : Mac
  peerIp : Ipv4
  sndUna : Seq
  sndNxt : Seq
  rcvNxt : Seq
  rx : List Byte
  outSeq : Seq
  out : List Byte
  lastTxMs : BitVec 64
  rttMs : Nat
deriving DecidableEq

/-- `CONN_EMPTY`. -/
def Conn.empty : Conn where
  inUse := false
  state := .closed
  localPort := 0
  remotePort := 0
  remoteMac := Vector.replicate 6 0
  peerIp := Vector.replicate 4 0
  sndUna := 0
  sndNxt := 0
  rcvNxt := 0
  rx := []
  outSeq := 0
  out := []
  lastTxMs := 0
  rttMs := 1000

/-- `apply_ack`. -/
def Conn.applyAck (c : Conn) (ack : Seq) : Conn :=
  if ack = 0 then c
  else if ack - c.sndUna = 0 then c
  else
    let covered := (ack - c.outSeq).toNat
    if covered ≥ c.out.length then
      { c with sndUna := ack, out := [], rttMs := 1000 }
    else if covered > 0 then
      { c with sndUna := ack, out := c.out.drop covered, outSeq := ack }
    else { c with sndUna := ack }

namespace Conn

theorem applyAck_shape (c : Conn) (ack : Seq) : ∃ sndUna out outSeq rttMs,
    c.applyAck ack =
      { c with sndUna := sndUna, out := out, outSeq := outSeq, rttMs := rttMs } := by
  unfold applyAck
  dsimp only
  split_ifs <;> exact ⟨_, _, _, _, rfl⟩

@[simp] theorem applyAck_state (c : Conn) (ack : Seq) : (c.applyAck ack).state = c.state := by
  obtain ⟨_, _, _, _, shape⟩ := c.applyAck_shape ack
  rw [shape]

@[simp] theorem applyAck_sndNxt (c : Conn) (ack : Seq) :
    (c.applyAck ack).sndNxt = c.sndNxt := by
  obtain ⟨_, _, _, _, shape⟩ := c.applyAck_shape ack
  rw [shape]

@[simp] theorem applyAck_rcvNxt (c : Conn) (ack : Seq) :
    (c.applyAck ack).rcvNxt = c.rcvNxt := by
  obtain ⟨_, _, _, _, shape⟩ := c.applyAck_shape ack
  rw [shape]

@[simp] theorem applyAck_rx (c : Conn) (ack : Seq) : (c.applyAck ack).rx = c.rx := by
  obtain ⟨_, _, _, _, shape⟩ := c.applyAck_shape ack
  rw [shape]

/-- The test that `handle_segment` makes after `apply_ack` in FIN_WAIT1 never succeeds. -/
theorem applyAck_sndUna (c : Conn) (ack : Seq) :
    ack - (c.applyAck ack).sndUna = 0 ∨ ack = 0 := by
  unfold applyAck
  dsimp only
  split_ifs with zero <;> simp_all

/-- What stays in `out` is a tail of it, and `out_seq` moves along. -/
theorem applyAck_out (c : Conn) (ack : Seq) : ∃ dropped ≤ c.out.length,
    (c.applyAck ack).out = c.out.drop dropped ∧
      ((c.applyAck ack).out ≠ [] →
        (c.applyAck ack).outSeq = c.outSeq + BitVec.ofNat 32 dropped) := by
  unfold applyAck
  dsimp only
  split_ifs with zero same all some
  · exact ⟨0, by simp⟩
  · exact ⟨0, by simp⟩
  · exact ⟨c.out.length, by simp⟩
  · refine ⟨(ack - c.outSeq).toNat, by omega, rfl, fun _ => ?_⟩
    simp only [BitVec.ofNat_toNat, BitVec.setWidth_eq]
    rw [BitVec.add_comm, BitVec.sub_add_cancel]
  · exact ⟨0, by simp⟩

end Conn

/-- How the connection in a slot came about. -/
inductive Opening where
  | none
  | connected
  | accepted
deriving DecidableEq, Repr

/-- The notes on the connection in one slot. -/
structure Ledger where
  /-- A stamp that no other connection of the run has. -/
  born : Nat
  opening : Opening
  /-- The number given to the SYN or SYN+ACK. -/
  isn : Seq
  /-- How many data bytes `send` has accepted. -/
  count : Nat
  /-- The place of the first byte of `out` among them. -/
  outAt : Nat
  /-- The number of the FIN that `close` sent. -/
  fin : Option Seq
  /-- The places, in the peer's stream, of the bytes stored so far. -/
  stored : List Nat
  /-- The places of the peer's FINs that were counted. -/
  peerFins : List Nat
  /-- The bytes that `recv` has returned. -/
  delivered : List Byte
deriving DecidableEq

def Ledger.blank : Ledger where
  born := 0
  opening := .none
  isn := 0
  count := 0
  outAt := 0
  fin := none
  stored := []
  peerFins := []
  delivered := []

/-- A transmitted segment that takes up sequence space: data, or a FIN. -/
structure Emission where
  isn : Seq
  /-- The place of its first byte, or of the FIN, among the bytes sent. -/
  place : Nat
  seq : Seq
deriving DecidableEq

/-- What happens to the segments that a call handles. -/
inductive Event where
  /-- A segment reaches the connection; `place` is that of its first byte, or of
  its FIN when it has no data, in the peer's stream. -/
  | handled (slot : Slot) (born : Nat) (segment : Segment) (place : Nat)
  /-- `taken` bytes at `place` are stored behind `before` earlier ones. -/
  | stored (slot : Slot) (born place before taken : Nat)
  /-- A FIN at `place` is counted behind `before` bytes and `fins` earlier FINs. -/
  | peerFin (slot : Slot) (born place before fins : Nat)
  /-- An acknowledgement reaches a connection in CLOSE_WAIT. -/
  | closeWaitAck (slot : Slot)
deriving DecidableEq

structure History where
  ledger : Slot → Ledger
  births : Nat
  sent : List Emission
  /-- The events of the current call. -/
  events : List Event

structure Stack where
  conns : Slot → Conn
  ephemeral : BitVec 16
  isn : BitVec 32
  ownIp : Ipv4
  mac : Mac
  ticks : BitVec 64
  millis : BitVec 64
  /-- Whether the card takes its `n`-th frame. -/
  accepts : Nat → Bool
  frames : Nat
  history : History

/-- A segment on its way into `input`; `place` is part of the notes. -/
structure Arrival where
  peerIp : Ipv4
  peerMac : Mac
  data : List Byte
  place : Nat
deriving DecidableEq

namespace Stack

/-- Write through `conn(i)`. -/
def modify (s : Stack) (i : Slot) (change : Conn → Conn) : Stack :=
  { s with conns := Function.update s.conns i (change (s.conns i)) }

/-- Write a note on slot `i`. -/
def log (s : Stack) (i : Slot) (change : Ledger → Ledger) : Stack :=
  { s with history := { s.history with
      ledger := Function.update s.history.ledger i (change (s.history.ledger i)) } }

def note (s : Stack) (event : Event) : Stack :=
  { s with history := { s.history with events := s.history.events ++ [event] } }

@[simp] theorem modify_conns_self (s : Stack) (i : Slot) (change : Conn → Conn) :
    (s.modify i change).conns i = change (s.conns i) := by
  simp [modify]

@[simp] theorem modify_conns_of_ne (s : Stack) {i j : Slot} (other : j ≠ i)
    (change : Conn → Conn) : (s.modify i change).conns j = s.conns j := by
  simp [modify, other]

@[simp] theorem modify_history (s : Stack) (i : Slot) (change : Conn → Conn) :
    (s.modify i change).history = s.history := rfl

@[simp] theorem log_conns (s : Stack) (i : Slot) (change : Ledger → Ledger) :
    (s.log i change).conns = s.conns := rfl

@[simp] theorem log_ledger_self (s : Stack) (i : Slot) (change : Ledger → Ledger) :
    (s.log i change).history.ledger i = change (s.history.ledger i) := by
  simp [log]

@[simp] theorem log_ledger_of_ne (s : Stack) {i j : Slot} (other : j ≠ i)
    (change : Ledger → Ledger) : (s.log i change).history.ledger j = s.history.ledger j := by
  simp [log, other]

@[simp] theorem log_births (s : Stack) (i : Slot) (change : Ledger → Ledger) :
    (s.log i change).history.births = s.history.births := rfl

@[simp] theorem log_sent (s : Stack) (i : Slot) (change : Ledger → Ledger) :
    (s.log i change).history.sent = s.history.sent := rfl

@[simp] theorem log_events (s : Stack) (i : Slot) (change : Ledger → Ledger) :
    (s.log i change).history.events = s.history.events := rfl

@[simp] theorem note_conns (s : Stack) (event : Event) : (s.note event).conns = s.conns := rfl

@[simp] theorem note_ledger (s : Stack) (event : Event) :
    (s.note event).history.ledger = s.history.ledger := rfl

@[simp] theorem note_births (s : Stack) (event : Event) :
    (s.note event).history.births = s.history.births := rfl

@[simp] theorem note_sent (s : Stack) (event : Event) :
    (s.note event).history.sent = s.history.sent := rfl

@[simp] theorem note_events (s : Stack) (event : Event) :
    (s.note event).history.events = s.history.events ++ [event] := rfl

/-- `*conn(i) = CONN_EMPTY`. -/
def free (s : Stack) (i : Slot) : Stack :=
  (s.modify i fun _ => .empty).log i fun _ => .blank

/-- `next_isn`. -/
def nextIsn (s : Stack) : Seq × Stack :=
  let t : BitVec 32 := s.ticks.setWidth 32 ^^^ s.millis.setWidth 32
  (s.isn + t, { s with isn := s.isn + (0x102040 + (t &&& 0xFFFF)) })

/-- `next_ephemeral`. -/
def nextEphemeral (s : Stack) : Port × Stack :=
  (49152 + s.ephemeral % 16384, { s with ephemeral := s.ephemeral + 1 })

/-- `find_tuple`. -/
def findTuple (s : Stack) (lport rport : Port) (peer : Ipv4) : Option Slot :=
  (List.finRange maxConns).find? fun i =>
    let c := s.conns i
    c.inUse && c.localPort == lport && c.remotePort == rport && c.peerIp == peer

/-- `find_listener`. -/
def findListener (s : Stack) (lport : Port) : Option Slot :=
  (List.finRange maxConns).find? fun i =>
    let c := s.conns i
    c.inUse && c.state == .listen && c.localPort == lport

/-- The test in `find_accepted`. -/
def handshaken (s : Stack) (lport : Port) (i : Slot) : Bool :=
  let c := s.conns i
  c.inUse && c.localPort == lport && c.remotePort != 0 &&
    (c.state == .synRcvd || c.state == .established)

/-- `find_accepted`. -/
def findAccepted (s : Stack) (lport : Port) : Option Slot :=
  (List.finRange maxConns).find? fun i => s.handshaken lport i

/-- Slot `i` becomes a connection of its own. -/
def claimed (s : Stack) (i : Slot) : Stack :=
  let t := (s.modify i fun _ => { Conn.empty with inUse := true }).log i fun _ =>
    { Ledger.blank with born := s.history.births }
  { t with history := { t.history with births := s.history.births + 1 } }

/-- `alloc_conn`. -/
def allocConn (s : Stack) : Option (Slot × Stack) :=
  ((List.finRange maxConns).find? fun i => !(s.conns i).inUse).map fun i => (i, s.claimed i)

/-- Note a transmission, when it takes up sequence space. -/
def noteSent (s : Stack) (i : Slot) (segment : Segment) (place : Nat) : Stack :=
  if segment.payload = [] ∧ has segment.flags flagFin = false then s
  else
    { s with history := { s.history with
        sent := s.history.sent ++ [⟨(s.history.ledger i).isn, place, segment.seq⟩] } }

/-- The place of what slot `i` is about to transmit: a FIN stands behind all the
bytes sent, data is always the front of `out`. -/
def placeOf (s : Stack) (i : Slot) (flags : Byte) : Nat :=
  if has flags flagFin then (s.history.ledger i).count else (s.history.ledger i).outAt

/-- The card is offered a frame. -/
def framed (s : Stack) : Stack := { s with frames := s.frames + 1 }

@[simp] theorem framed_conns (s : Stack) : s.framed.conns = s.conns := rfl

@[simp] theorem framed_history (s : Stack) : s.framed.history = s.history := rfl

/-- The segment that slot `i` transmits. -/
def outgoing (s : Stack) (i : Slot) (seq : Seq) (flags : Byte) (payload : List Byte) : Segment where
  sport := (s.conns i).localPort
  dport := (s.conns i).remotePort
  seq := seq
  ack := (s.conns i).rcvNxt
  flags := flags
  payload := payload

/-- `tcp_send_seq`; `loop` takes a segment for the stack's own address. -/
def tcpSendSeq (loop : Arrival → Stack → Stack) (i : Slot) (seq : Seq) (flags : Byte)
    (payload : List Byte) (s : Stack) : Bool × Stack :=
  let peerIp := (s.conns i).peerIp
  let segment := s.outgoing i seq flags payload
  let place := s.placeOf i flags
  if peerIp = s.ownIp then
    (true, loop ⟨s.ownIp, s.mac, segment.encode s.ownIp peerIp, place⟩
      (s.noteSent i segment place))
  else
    let ok := s.accepts s.frames
    (ok, if ok then s.framed.noteSent i segment place else s.framed)

/-- `tcp_send`. -/
def tcpSend (loop : Arrival → Stack → Stack) (i : Slot) (flags : Byte) (payload : List Byte)
    (s : Stack) : Bool × Stack :=
  tcpSendSeq loop i (s.conns i).sndNxt flags payload s

/-- `tcp_send(idx, FLAG_ACK, &[])`, with the result dropped. -/
def replyAck (loop : Arrival → Stack → Stack) (i : Slot) (s : Stack) : Stack :=
  (tcpSend loop i flagAck [] s).2

/-- The segment reaches slot `i`, which remembers where it came from. -/
def reached (s : Stack) (i : Slot) (arrival : Arrival) (segment : Segment) : Stack :=
  (s.modify i fun c => { c with remoteMac := arrival.peerMac, peerIp := arrival.peerIp }).note
    (.handled i (s.history.ledger i).born segment arrival.place)

/-- The answer to our SYN has come. -/
def shook (s : Stack) (i : Slot) (segment : Segment) : Stack :=
  s.modify i fun c =>
    { c with rcvNxt := segment.seq + 1, sndUna := segment.ack, state := .established }

/-- The answer to our SYN+ACK has come. -/
def admitted (s : Stack) (i : Slot) (segment : Segment) : Stack :=
  s.modify i fun c => { c with sndUna := segment.ack, state := .established }

/-- `apply_ack(c, ack)`, with the place of what is left in `out`. -/
def acked (s : Stack) (i : Slot) (ack : Seq) : Stack :=
  (s.modify i fun c => c.applyAck ack).log i fun l =>
    { l with outAt := l.outAt +
        ((s.conns i).out.length - ((s.conns i).applyAck ack).out.length) }

/-- `if flags & FLAG_ACK != 0 { apply_ack(c, ack); }`. -/
def ackedIf (s : Stack) (i : Slot) (segment : Segment) : Stack :=
  if has segment.flags flagAck then s.acked i segment.ack else s

/-- As much of the payload as `rx_buf` has room for is stored and counted. -/
def store (s : Stack) (i : Slot) (segment : Segment) (place : Nat) : Stack :=
  let n := min segment.payload.length (rxBuf - (s.conns i).rx.length)
  let l := s.history.ledger i
  ((s.note (.stored i l.born place l.stored.length n)).modify i fun c =>
      { c with rx := c.rx ++ segment.payload.take n, rcvNxt := c.rcvNxt + BitVec.ofNat 32 n }).log i
    fun l => { l with stored := l.stored ++ List.range' place n }

/-- The peer's FIN is counted and the connection turns to `state`. -/
def countFin (s : Stack) (i : Slot) (segment : Segment) (place : Nat) (state : ConnState) : Stack :=
  let l := s.history.ledger i
  let finAt := place + segment.payload.length
  ((s.note (.peerFin i l.born finAt l.stored.length l.peerFins.length)).modify i fun c =>
      { c with rcvNxt := c.rcvNxt + 1, state := state }).log i
    fun l => { l with peerFins := l.peerFins ++ [finAt] }

/-- `c.state = state`. -/
def turn (s : Stack) (i : Slot) (state : ConnState) : Stack :=
  s.modify i fun c => { c with state := state }

/-- The `CLOSE_WAIT` arm once the ACK flag is seen: the code takes its own FIN for sent. -/
def ackedInCloseWait (s : Stack) (i : Slot) (segment : Segment) : Stack :=
  ((s.acked i segment.ack).note (.closeWaitAck i)).turn i .lastAck

/-- `handle_segment`. -/
def handleSegment (loop : Arrival → Stack → Stack) (i : Slot) (arrival : Arrival)
    (segment : Segment) (s : Stack) : Stack :=
  let s := s.reached i arrival segment
  let hasAck := has segment.flags flagAck
  let hasFin := has segment.flags flagFin
  if has segment.flags flagRst then s.free i
  else match (s.conns i).state with
  | .synSent =>
    if has segment.flags flagSyn && hasAck then replyAck loop i (s.shook i segment) else s
  | .synRcvd => if hasAck then s.admitted i segment else s
  | .established =>
    let s := s.ackedIf i segment
    let s := if segment.payload = [] then s
      else replyAck loop i (s.store i segment arrival.place)
    if hasFin then replyAck loop i (s.countFin i segment arrival.place .closeWait) else s
  | .finWait1 =>
    let s := s.ackedIf i segment
    let c := s.conns i
    let s := if hasAck ∧ segment.ack - c.sndUna ≠ 0 ∧ segment.ack ≠ 0 ∧ c.out = [] then
        s.turn i .finWait2
      else s
    if hasFin then
      replyAck loop i (s.countFin i segment arrival.place
        (if (s.conns i).state = .finWait1 then .closing else (s.conns i).state))
    else s
  | .finWait2 =>
    let s := s.ackedIf i segment
    if hasFin then (replyAck loop i (s.countFin i segment arrival.place .finWait2)).free i else s
  | .closeWait => if hasAck then s.ackedInCloseWait i segment else s
  | .lastAck | .closing => if hasAck then s.free i else s
  | .closed | .listen => s

/-- The slot that `input` fills for a SYN on a listening port. -/
def opened (s : Stack) (i : Slot) (arrival : Arrival) (segment : Segment) (isn : Seq) : Stack :=
  (s.modify i fun c => { c with
      localPort := segment.dport
      remotePort := segment.sport
      remoteMac := arrival.peerMac
      peerIp := arrival.peerIp
      sndNxt := isn
      sndUna := isn
      rcvNxt := segment.seq + 1
      state := .synRcvd }).log i fun l => { l with opening := .accepted, isn := isn }

/-- The branch of `input` that answers a SYN on a listening port. -/
def accept (loop : Arrival → Stack → Stack) (arrival : Arrival) (segment : Segment)
    (s : Stack) : Stack :=
  match s.allocConn with
  | none => s
  | some (i, s) =>
    let (isn, s) := s.nextIsn
    let (_, s) := tcpSend loop i (flagSyn ||| flagAck) [] (s.opened i arrival segment isn)
    s.modify i fun c => { c with sndNxt := isn + 1 }

/-- One level of `input`. -/
def inputWith (loop : Arrival → Stack → Stack) (arrival : Arrival) (s : Stack) : Stack :=
  match Segment.parse arrival.data with
  | none => s
  | some segment =>
    match s.findTuple segment.dport segment.sport arrival.peerIp with
    | some i => handleSegment loop i arrival segment s
    | none =>
      if has segment.flags flagSyn && !has segment.flags flagAck
          && (s.findListener segment.dport).isSome then
        accept loop arrival segment s
      else s

/-- `input`, with `depth` levels of nesting left. -/
def input : Nat → Arrival → Stack → Stack
  | 0, _, s => s
  | depth + 1, arrival, s => inputWith (input depth) arrival s

/-- The levels that `input` can need. -/
def loopDepth : Nat := 3

/-- `listen`. -/
def listen (port : Port) (s : Stack) : Option Slot × Stack :=
  if (s.findListener port).isSome then (none, s)
  else match s.allocConn with
  | none => (none, s)
  | some (i, s) => (some i, s.modify i fun c => { c with state := .listen, localPort := port })

/-- The slot that `connect` fills. -/
def dialled (s : Stack) (i : Slot) (lport port : Port) (peerIp : Ipv4) (isn : Seq) : Stack :=
  (s.modify i fun c => { c with
      localPort := lport
      remotePort := port
      peerIp := peerIp
      sndNxt := isn
      sndUna := isn
      state := .synSent }).log i fun l => { l with opening := .connected, isn := isn }

/-- `connect`. While the peer's hardware address is being resolved, which ends
with `resolved`, the card is polled and `polled` comes in. -/
def connect (peerIp : Ipv4) (port : Port) (polled : List Arrival) (resolved : Mac) (s : Stack) :
    Option Slot × Stack :=
  match s.allocConn with
  | none => (none, s)
  | some (i, s) =>
    let (lport, s) := s.nextEphemeral
    let (isn, s) := s.nextIsn
    let s := s.dialled i lport port peerIp isn
    let s := if peerIp = s.ownIp then s
      else polled.foldl (fun s arrival => input loopDepth arrival s) s
    let mac := if peerIp = s.ownIp then s.mac else resolved
    let s := s.modify i fun c => { c with remoteMac := mac }
    (some i, (tcpSend (input loopDepth) i flagSyn [] s).2)

/-- `send` puts the data into `out` before it transmits. -/
def fillOut (s : Stack) (i : Slot) (data : List Byte) : Stack :=
  (s.modify i fun c => { c with
      outSeq := c.sndNxt
      out := data
      lastTxMs := s.millis
      rttMs := 1000 }).log i fun l => { l with outAt := l.count }

/-- `send`. -/
def send (i : Slot) (data : List Byte) (s : Stack) : Bool × Stack :=
  if (s.conns i).state ≠ .established ∧ (s.conns i).state ≠ .closeWait then (false, s)
  else if data = [] then (false, s)
  else if data.length > mtu then (false, s)
  else if (s.conns i).out ≠ [] then (false, s)
  else
    let (ok, s) := tcpSend (input loopDepth) i (flagPsh ||| flagAck) data (s.fillOut i data)
    if ok then
      (true, (s.modify i fun c =>
          { c with sndNxt := c.sndNxt + BitVec.ofNat 32 data.length }).log i
        fun l => { l with count := l.count + data.length })
    else (false, s.modify i fun c => { c with out := [] })

/-- `recv` with a buffer of `size` bytes. -/
def recv (i : Slot) (size : Nat) (s : Stack) : List Byte × Stack :=
  let n := min size (s.conns i).rx.length
  let taken := (s.conns i).rx.take n
  (taken, (s.modify i fun c => { c with rx := c.rx.drop n }).log i
    fun l => { l with delivered := l.delivered ++ taken })

/-- The two arms of `close` that send a FIN. -/
def sendFin (i : Slot) (state : ConnState) (s : Stack) : Stack :=
  let seq := (s.conns i).sndNxt
  let (ok, s) := tcpSend (input loopDepth) i (flagFin ||| flagAck) [] s
  if ok then
    (s.modify i fun c => { c with sndNxt := c.sndNxt + 1, state := state }).log i
      fun l => { l with fin := some seq }
  else s

/-- `close`. -/
def close (i : Slot) (s : Stack) : Stack :=
  match (s.conns i).state with
  | .established => s.sendFin i .finWait1
  | .closeWait => s.sendFin i .lastAck
  | _ => s.free i

/-- One turn of the loop of `check_retransmit`. -/
def retransmit (now : BitVec 64) (s : Stack) (i : Slot) : Stack :=
  let c := s.conns i
  if !c.inUse || c.out.isEmpty then s
  else if (now - c.lastTxMs).toNat > c.rttMs then
    let (_, s) := tcpSendSeq (input loopDepth) i c.outSeq (flagAck ||| flagPsh) c.out s
    s.modify i fun c => { c with lastTxMs := now, rttMs := min (c.rttMs * 2) 8000 }
  else s

/-- `check_retransmit`. -/
def checkRetransmit (s : Stack) : Stack :=
  (List.finRange maxConns).foldl (retransmit s.millis) s

/-- The SYN that `wait_established` sends again. -/
def resendSyn (i : Slot) (s : Stack) : Stack :=
  match (s.conns i).state with
  | .synSent | .synRcvd => (tcpSend (input loopDepth) i flagSyn [] s).2
  | _ => s

/-- What can happen between two states that a caller sees. -/
inductive Call where
  /-- `alloc_conn`, which SYS_SOCKET calls by itself. -/
  | alloc
  | listen (port : Port)
  | connect (peerIp : Ipv4) (port : Port) (polled : List Arrival) (resolved : Mac)
  | send (slot : Slot) (data : List Byte)
  | recv (slot : Slot) (size : Nat)
  | close (slot : Slot)
  | input (arrival : Arrival)
  | checkRetransmit
  | resendSyn (slot : Slot)
  /-- Time passes, or the interface gets another address. -/
  | outside (ticks millis : BitVec 64) (ownIp : Ipv4) (mac : Mac)
deriving DecidableEq

/-- A call starts with an empty list of events. -/
def begin (s : Stack) : Stack := { s with history := { s.history with events := [] } }

/-- The state a call leaves. -/
def perform (s : Stack) (call : Call) : Stack :=
  let s := s.begin
  match call with
  | .alloc => (s.allocConn.map Prod.snd).getD s
  | .listen port => (s.listen port).2
  | .connect peerIp port polled resolved => (s.connect peerIp port polled resolved).2
  | .send i data => (s.send i data).2
  | .recv i size => (s.recv i size).2
  | .close i => s.close i
  | .input arrival => s.input loopDepth arrival
  | .checkRetransmit => s.checkRetransmit
  | .resendSyn i => s.resendSyn i
  | .outside ticks millis ownIp mac =>
    { s with ticks := ticks, millis := millis, ownIp := ownIp, mac := mac }

end Stack

/-- The stack at boot, over a card that takes the frames `accepts` says. -/
def Stack.boot (accepts : Nat → Bool) (ownIp : Ipv4) (mac : Mac) : Stack where
  conns := fun _ => .empty
  ephemeral := 49152
  isn := 0x12345678
  ownIp := ownIp
  mac := mac
  ticks := 0
  millis := 0
  accepts := accepts
  frames := 0
  history := { ledger := fun _ => .blank, births := 1, sent := [], events := [] }

end DBSos.Net.Tcp

/-!
## Acknowledgement numbers

Sequence numbers wrap, so one is behind another when their difference, taken as a signed
number, is positive. `apply_ack` takes the difference as it is: an acknowledgement from
before the buffer counts as one of everything in it.
-/

namespace DBSos.Net.Tcp.Conn

variable {c : Conn} {ack : Seq}

/-- How far an acknowledgement reaches into the buffer, in modular order. -/
def reach (c : Conn) (ack : Seq) : Int := (ack - c.outSeq).toInt

/-- The bytes that the acknowledgement covers go, and nothing else; `snd_una` stays or
moves forward. -/
structure Acknowledges (c : Conn) (ack : Seq) : Prop where
  old : c.reach ack ≤ 0 → (c.applyAck ack).out = c.out ∧ (c.applyAck ack).outSeq = c.outSeq ∧
    (c.applyAck ack).sndUna = c.sndUna
  new : 0 < c.reach ack → (c.applyAck ack).out = c.out.drop (c.reach ack).toNat ∧
    ((c.applyAck ack).out ≠ [] → (c.applyAck ack).outSeq = ack)
  forward : 0 ≤ ((c.applyAck ack).sndUna - c.sndUna).toInt

/-- The code looks at the buffer for this acknowledgement. -/
def Heeds (c : Conn) (ack : Seq) : Prop := ack ≠ 0 ∧ ack ≠ c.sndUna

instance (c : Conn) (ack : Seq) : Decidable (c.Heeds ack) := inferInstanceAs (Decidable (_ ∧ _))

theorem applyAck_of_not_heeds (idle : ¬ c.Heeds ack) : c.applyAck ack = c := by
  unfold applyAck
  split_ifs with zero same
  · rfl
  · rfl
  · refine absurd ⟨zero, ?_⟩ idle
    rintro rfl
    exact same (BitVec.sub_self _)

theorem sub_ne_zero_of_heeds (heeds : c.Heeds ack) : ack - c.sndUna ≠ 0 := by
  intro same
  refine heeds.2 ?_
  rw [← BitVec.sub_add_cancel ack c.sndUna, same]
  exact BitVec.zero_add c.sndUna

theorem applyAck_sndUna_of_heeds (heeds : c.Heeds ack) : (c.applyAck ack).sndUna = ack := by
  unfold applyAck
  rw [if_neg heeds.1, if_neg (sub_ne_zero_of_heeds heeds)]
  dsimp only
  split_ifs <;> rfl

/-- An acknowledgement that reaches into the buffer drops what it covers. -/
theorem applyAck_out_of_heeds (heeds : c.Heeds ack) (inside : 0 < c.reach ack) :
    (c.applyAck ack).out = c.out.drop (c.reach ack).toNat ∧
      ((c.applyAck ack).out ≠ [] → (c.applyAck ack).outSeq = ack) := by
  have covered : (c.reach ack).toNat = (ack - c.outSeq).toNat := by
    unfold reach at inside ⊢
    rw [BitVec.toInt_eq_toNat_cond] at inside ⊢
    split_ifs at inside ⊢ <;> omega
  unfold applyAck
  rw [if_neg heeds.1, if_neg (sub_ne_zero_of_heeds heeds), covered]
  dsimp only
  split_ifs with all some
  · exact ⟨(List.drop_eq_nil_of_le all).symm, fun left => absurd rfl left⟩
  · exact ⟨rfl, fun _ => rfl⟩
  · omega

/-- The acknowledgement is ignored and covers nothing; or it is heeded, and lies behind the
start of the buffer and not in front of `snd_una`. -/
def Timely (c : Conn) (ack : Seq) : Prop :=
  if c.Heeds ack then 0 < c.reach ack ∧ 0 ≤ (ack - c.sndUna).toInt
  else c.reach ack ≤ 0 ∨ c.out = []

/-- `apply_ack` does what an acknowledgement means exactly when it is timely. -/
theorem acknowledges_iff (c : Conn) (ack : Seq) : c.Acknowledges ack ↔ c.Timely ack := by
  unfold Timely
  split_ifs with heeds
  · constructor
    · intro acknowledges
      refine ⟨?_, ?_⟩
      · by_contra behind
        have same := (acknowledges.old (Int.not_lt.mp behind)).2.2
        rw [applyAck_sndUna_of_heeds heeds] at same
        exact heeds.2 same
      · have forward := acknowledges.forward
        rwa [applyAck_sndUna_of_heeds heeds] at forward
    · rintro ⟨inside, forward⟩
      refine ⟨fun behind => absurd inside (Int.not_lt.mpr behind), fun _ => ?_, ?_⟩
      · exact applyAck_out_of_heeds heeds inside
      · rwa [applyAck_sndUna_of_heeds heeds]
  · have same := applyAck_of_not_heeds heeds
    constructor
    · intro acknowledges
      by_contra covers
      obtain ⟨inside, some⟩ := not_or.mp covers
      have positive := Int.not_le.mp inside
      have dropped := (acknowledges.new positive).1
      have length := congrArg List.length dropped
      rw [same, List.length_drop] at length
      have held := List.length_pos_iff.mpr some
      omega
    · intro covers
      refine ⟨fun _ => ?_, fun inside => ?_, ?_⟩
      · rw [same]
        exact ⟨rfl, rfl, rfl⟩
      · have empty : c.out = [] := covers.resolve_left (Int.not_le.mpr inside)
        rw [same, empty, List.drop_nil]
        exact ⟨rfl, fun left => absurd rfl left⟩
      · rw [same, BitVec.sub_self]
        exact le_of_eq BitVec.toInt_zero.symm

/-- A connection with one byte to be acknowledged, at 1000. -/
def waiting : Conn :=
  { Conn.empty with
    state := .established
    sndUna := 1000
    sndNxt := 1001
    outSeq := 1000
    out := [65] }

/-- An acknowledgement from before the byte drops it and moves `snd_una` backward. -/
theorem old_ack_drops : ¬ waiting.Acknowledges 999 ∧ (waiting.applyAck 999).out = [] ∧
    (waiting.applyAck 999).sndUna = 999 :=
  ⟨fun acknowledges => absurd (acknowledges.old (by decide)).1 (by decide), by decide, by decide⟩

end DBSos.Net.Tcp.Conn
