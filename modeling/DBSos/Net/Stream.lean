import DBSos.Net.Numbering

/-!
# What a connection receives

The peer sends one byte stream and then perhaps a FIN; the network may lose,
repeat and reorder its segments. `handle_segment` stores whatever payload comes
and never looks at the segment's number, so the bytes stored are a prefix of the
stream only while every segment begins where the last stored byte ends.
-/

namespace DBSos.Net.Tcp

open DBSos.Lib

/-- One connection, its peer's stream and the peer's initial sequence number. -/
structure Peer where
  slot : Slot
  born : Nat
  stream : List Byte
  irs : Seq

namespace Peer

variable (peer : Peer)

/-- The segments that reach the connection are cut out of the peer's stream; a FIN
stands at its end. -/
def Sends : Event → Prop
  | .handled slot born segment place => slot = peer.slot → born = peer.born →
      segment.seq = peer.irs + 1 + BitVec.ofNat 32 place ∧
      place + segment.payload.length ≤ peer.stream.length ∧
      segment.payload = (peer.stream.drop place).take segment.payload.length ∧
      (has segment.flags flagFin = true →
        place + segment.payload.length = peer.stream.length)
  | _ => True

/-- Data that is stored begins where the stored bytes end, and a FIN is counted
once, behind them. -/
def InOrder : Event → Prop
  | .stored slot born place before taken => slot = peer.slot → born = peer.born →
      taken = 0 ∨ place = before
  | .peerFin slot born place before fins => slot = peer.slot → born = peer.born →
      place = before ∧ fins = 0
  | _ => True

/-- The bytes stored are the first of the stream, each once; those not returned yet
are in the buffer; and `rcv_nxt` counts them and a FIN that stands behind them. -/
structure Faithful (c : Conn) (l : Ledger) : Prop where
  stored : l.stored = List.range l.stored.length
  within : l.stored.length ≤ peer.stream.length
  bytes : l.delivered ++ c.rx = peer.stream.take l.stored.length
  rcvNxt : c.rcvNxt = peer.irs + 1 + BitVec.ofNat 32 (l.stored.length + l.peerFins.length)
  fins : l.peerFins = [] ∨
    l.peerFins = [peer.stream.length] ∧ l.stored.length = peer.stream.length

/-- The handshake is over. -/
def Synchronised (state : ConnState) : Prop :=
  state = .established ∨ state = .finWait1 ∨ state = .finWait2 ∨ state = .closeWait ∨
    state = .closing ∨ state = .lastAck

/-- The connection, while it lives, is faithful as long as the events allow. -/
def Watched (i : Slot) (events : List Event) (c : Conn) (l : Ledger) : Prop :=
  i = peer.slot → l.born = peer.born → (∀ e ∈ events, peer.Sends e) →
    (∀ e ∈ events, peer.InOrder e) → peer.Faithful c l ∧ Synchronised c.state

variable {peer} {i : Slot} {events : List Event} {c : Conn} {l : Ledger}

theorem Watched.noted (watched : peer.Watched i events c l) {event : Event} :
    peer.Watched i (events ++ [event]) c l := fun is born sends ordered =>
  watched is born (fun e member => sends e (List.mem_append_left _ member))
    fun e member => ordered e (List.mem_append_left _ member)

/-- A change that leaves what was received alone. -/
theorem Watched.turn (watched : peer.Watched i events c l) {c' : Conn} {l' : Ledger}
    (rx : c'.rx = c.rx) (rcvNxt : c'.rcvNxt = c.rcvNxt) (born : l'.born = l.born)
    (stored : l'.stored = l.stored) (peerFins : l'.peerFins = l.peerFins)
    (delivered : l'.delivered = l.delivered)
    (state : Synchronised c.state → Synchronised c'.state) : peer.Watched i events c' l' := by
  intro is bornIs sends ordered
  obtain ⟨faithful, synchronised⟩ := watched is (born.symm.trans bornIs) sends ordered
  refine ⟨⟨?_, ?_, ?_, ?_, ?_⟩, state synchronised⟩
  · rw [stored]
    exact faithful.stored
  · rw [stored]
    exact faithful.within
  · rw [delivered, rx, stored]
    exact faithful.bytes
  · rw [rcvNxt, stored, peerFins]
    exact faithful.rcvNxt
  · rw [peerFins, stored]
    exact faithful.fins

/-- Data that begins where the stored bytes end. -/
theorem Faithful.store (faithful : peer.Faithful c l) {segment : Segment} {place n : Nat}
    (bound : n ≤ segment.payload.length)
    (fits : place + segment.payload.length ≤ peer.stream.length)
    (cut : segment.payload = (peer.stream.drop place).take segment.payload.length)
    (ordered : n = 0 ∨ place = l.stored.length) :
    peer.Faithful
      { c with rx := c.rx ++ segment.payload.take n, rcvNxt := c.rcvNxt + BitVec.ofNat 32 n }
      { l with stored := l.stored ++ List.range' place n } := by
  rcases ordered with rfl | rfl
  · simpa using faithful
  generalize length : l.stored.length = m at fits cut
  have added : (l.stored ++ List.range' m n).length = m + n := by
    rw [List.length_append, List.length_range', length]
  refine ⟨?_, ?_, ?_, ?_, ?_⟩ <;> dsimp only <;> rw [added]
  · rw [faithful.stored, length, List.range_eq_range', List.range_eq_range',
      ← List.range'_append_1, Nat.zero_add]
  · omega
  · have piece : segment.payload.take n = (peer.stream.drop m).take n := by
      rw [cut, List.take_take, Nat.min_eq_left bound]
    rw [← List.append_assoc, faithful.bytes, length, piece, List.take_add]
  · rw [faithful.rcvNxt, length, BitVec.add_assoc, ← BitVec.ofNat_add]
    congr 2
    omega
  · rcases faithful.fins with none | ⟨some, all⟩
    · exact .inl none
    · exact .inr ⟨some, by omega⟩

/-- A FIN that stands behind the stored bytes. -/
theorem Faithful.countFin (faithful : peer.Faithful c l) {place : Nat} (state : ConnState)
    (last : place = peer.stream.length) (ordered : place = l.stored.length)
    (first : l.peerFins.length = 0) :
    peer.Faithful { c with rcvNxt := c.rcvNxt + 1, state := state }
      { l with peerFins := l.peerFins ++ [place] } := by
  have none : l.peerFins = [] := List.length_eq_zero_iff.mp first
  refine ⟨faithful.stored, faithful.within, faithful.bytes, ?_, .inr ⟨?_, ?_⟩⟩
  · have rcvNxt := faithful.rcvNxt
    simp only [none, List.length_nil, Nat.add_zero, List.nil_append, List.length_singleton]
      at rcvNxt ⊢
    rw [rcvNxt, BitVec.add_assoc, BitVec.ofNat_add]
    rfl
  · rw [none, last]
    rfl
  · exact (ordered.symm.trans last)

theorem Synchronised.not_synSent {state : ConnState} (synchronised : Synchronised state) :
    state ≠ .synSent := by
  rcases synchronised with rfl | rfl | rfl | rfl | rfl | rfl <;> decide

theorem Watched.slotwise (alive : 0 < peer.born) {admits : Segment → Prop}
    (bare : ∀ {segment}, BareAck segment → admits segment) :
    Stack.Slotwise admits peer.Watched where
  bare := bare
  noted watched := watched.noted
  moved watched := watched.turn rfl rfl rfl rfl rfl rfl id
  reset _ _ _ _ born := absurd born (by simp [Ledger.blank]; omega)
  shook _ state watched is born sends ordered := by
    obtain ⟨-, synchronised⟩ := watched is born sends ordered
    exact absurd state synchronised.not_synSent
  admitted _ state watched := watched.turn rfl rfl rfl rfl rfl rfl fun _ => .inl rfl
  acked _ watched := watched.turn (Conn.applyAck_rx _ _) (Conn.applyAck_rcvNxt _ _) rfl rfl rfl rfl
    fun synchronised => by simpa using synchronised
  store {i events c l segment place n} _ _ state room seen watched := by
    intro is born sends ordered
    have sendsBefore := fun e member => sends e (List.mem_append_left _ member)
    have orderedBefore := fun e member => ordered e (List.mem_append_left _ member)
    obtain ⟨faithful, synchronised⟩ := watched is born sendsBefore orderedBefore
    obtain ⟨-, fits, cut, -⟩ := sendsBefore _ seen is born
    have inOrder := ordered _ (List.mem_append_right _ (List.mem_singleton_self _)) is born
    exact ⟨faithful.store (by omega) fits cut inOrder, synchronised⟩
  countFin {i events c l segment place state} _ fin states seen watched := by
    intro is born sends ordered
    have sendsBefore := fun e member => sends e (List.mem_append_left _ member)
    have orderedBefore := fun e member => ordered e (List.mem_append_left _ member)
    obtain ⟨faithful, -⟩ := watched is born sendsBefore orderedBefore
    obtain ⟨-, -, -, last⟩ := sendsBefore _ seen is born
    obtain ⟨inOrder, first⟩ :=
      ordered _ (List.mem_append_right _ (List.mem_singleton_self _)) is born
    refine ⟨faithful.countFin state (last fin) inOrder first, ?_⟩
    rcases states with ⟨-, rfl⟩ | ⟨-, rfl⟩ | ⟨-, rfl⟩ <;> simp [Synchronised]
  closeWaitAck _ _ watched := watched.turn rfl rfl rfl rfl rfl rfl fun _ => by simp [Synchronised]

theorem watched_tended (alive : 0 < peer.born) :
    Stack.Tended peer.Watched (peer.born < ·) fun _ => peer.Watched where
  handled := Watched.slotwise alive fun _ => trivial
  opening _ := Watched.slotwise alive fun bare => ⟨.inr bare.flags, bare.payload⟩
  next young := by omega
  opened young _ _ _ _ born := absurd born (by simp; omega)
  counted watched := watched.turn rfl rfl rfl rfl rfl rfl id
  idle young _ _ _ born := absurd born (by simp; omega)
  connecting young _ _ _ _ born := absurd born (by simp; omega)
  blank _ _ _ born := absurd born (by simp [Ledger.blank]; omega)
  readdressed watched := watched.turn rfl rfl rfl rfl rfl rfl id
  timed watched := watched.turn rfl rfl rfl rfl rfl rfl id
  drained {i events c l n} watched := by
    intro is born sends ordered
    obtain ⟨faithful, synchronised⟩ := watched is born sends ordered
    refine ⟨⟨faithful.stored, faithful.within, ?_, faithful.rcvNxt, faithful.fins⟩, synchronised⟩
    simpa [List.append_assoc] using faithful.bytes

end Peer

namespace Stack

variable {peer : Peer} {s : Stack}

/-- The connection, while it lives, is faithful to its peer's stream. -/
def FaithfulTo (peer : Peer) (s : Stack) : Prop :=
  (s.history.ledger peer.slot).born = peer.born →
    peer.Faithful (s.conns peer.slot) (s.history.ledger peer.slot)

/-- Every segment that reaches the connection in the call is the peer's. -/
def SentBy (peer : Peer) (s : Stack) : Prop := ∀ e ∈ s.history.events, peer.Sends e

/-- No call stores data out of place or counts a FIN early or again. -/
def InOrder (peer : Peer) (s : Stack) (call : Call) : Prop :=
  ∀ e ∈ (s.perform call).history.events, peer.InOrder e

abbrev EachWatched (peer : Peer) (s : Stack) : Prop := Each peer.Watched (peer.born < ·) s

theorem watched_send (alive : 0 < peer.born) (each : EachWatched peer s) (i : Slot)
    (data : List Byte) : EachWatched peer (s.send i data).2 := by
  by_cases ready : s.SendReady i data
  swap
  · rw [send_not_ready ready]
    exact each
  have filled : EachWatched peer (s.fillOut i data) :=
    each.write fun watched => watched.turn rfl rfl rfl rfl rfl rfl id
  rw [send_ready ready, tcpSend]
  have after : EachWatched peer (tcpSendSeq (input loopDepth) i
      ((s.fillOut i data).conns i).sndNxt (flagPsh ||| flagAck) data (s.fillOut i data)).2 :=
    (Peer.watched_tended alive).toAttended.transmit filled
  generalize tcpSendSeq (input loopDepth) i ((s.fillOut i data).conns i).sndNxt
    (flagPsh ||| flagAck) data (s.fillOut i data) = result at after ⊢
  obtain ⟨sent, t⟩ := result
  cases sent <;> simp only [Bool.false_eq_true, if_true, if_false] at after ⊢
  · exact after.change fun watched => watched.turn rfl rfl rfl rfl rfl rfl id
  · exact after.write fun watched => watched.turn rfl rfl rfl rfl rfl rfl id

theorem watched_sendFin (alive : 0 < peer.born) (each : EachWatched peer s) (i : Slot)
    {state : ConnState} (ending : Peer.Synchronised state) :
    EachWatched peer (s.sendFin i state) := by
  unfold sendFin tcpSend
  have after : EachWatched peer (tcpSendSeq (input loopDepth) i (s.conns i).sndNxt
      (flagFin ||| flagAck) [] s).2 := (Peer.watched_tended alive).toAttended.transmit each
  generalize tcpSendSeq (input loopDepth) i (s.conns i).sndNxt (flagFin ||| flagAck) [] s =
    result at after ⊢
  obtain ⟨sent, t⟩ := result
  cases sent <;> simp only [Bool.false_eq_true, if_true, if_false] at after ⊢
  · exact after
  · exact after.write fun watched => watched.turn rfl rfl rfl rfl rfl rfl fun _ => ending

/-- One call. -/
theorem watched_perform (alive : 0 < peer.born) (each : EachWatched peer s.begin) (call : Call) :
    EachWatched peer (s.perform call) := by
  have tended := Peer.watched_tended alive
  cases call with
  | send i data => exact watched_send alive each i data
  | close i =>
    change EachWatched peer (s.begin.close i)
    unfold Stack.close
    split
    · exact watched_sendFin alive each i (.inr (.inl rfl))
    · exact watched_sendFin alive each i (.inr (.inr (.inr (.inr (.inr rfl)))))
    · exact tended.freeConn each i
  | _ => exact tended.perform each _ nofun nofun

/-- A connection that has just been established with its peer. -/
structure Established (peer : Peer) (s : Stack) : Prop where
  state : (s.conns peer.slot).state = .established
  rx : (s.conns peer.slot).rx = []
  rcvNxt : (s.conns peer.slot).rcvNxt = peer.irs + 1
  ledger : ∃ l : Ledger, s.history.ledger peer.slot =
    { l with born := peer.born, stored := [], peerFins := [], delivered := [] }
  alive : 0 < peer.born
  young : peer.born < s.history.births

/-- The connection as long as it is watched, between two calls. -/
structure Following (peer : Peer) (s : Stack) : Prop where
  faithful : s.FaithfulTo peer
  synchronised : (s.history.ledger peer.slot).born = peer.born →
    Peer.Synchronised (s.conns peer.slot).state
  young : peer.born < s.history.births

theorem Following.begin (following : Following peer s) : EachWatched peer s.begin where
  slots j is born _ _ := by
    subst is
    exact ⟨following.faithful born, following.synchronised born⟩
  fresh := following.young

theorem Following.perform (alive : 0 < peer.born) (following : Following peer s) {call : Call}
    (sends : (s.perform call).SentBy peer) (ordered : s.InOrder peer call) :
    Following peer (s.perform call) := by
  have after := watched_perform alive following.begin call
  exact ⟨fun born => (after.slots peer.slot rfl born sends ordered).1,
    fun born => (after.slots peer.slot rfl born sends ordered).2, after.fresh⟩

theorem Established.following (established : Established peer s) : Following peer s := by
  obtain ⟨l, ledger⟩ := established.ledger
  refine ⟨fun _ => ?_, fun _ => .inl established.state, established.young⟩
  rw [ledger]
  exact ⟨rfl, Nat.zero_le _, by simp [established.rx], by simp [established.rcvNxt], .inl rfl⟩

/-- The peer sends one byte stream, in every call of the run. -/
def Streams (peer : Peer) : List (Transition Stack Call) → Prop :=
  Guarded fun s call => (s.perform call).SentBy peer

/-- Over a network that loses, repeats and reorders, a connection returns a prefix of
its peer's stream and acknowledges what it has stored as long as no data is stored
out of place and no FIN is counted early or again. -/
theorem faithful_throughout {taken : List (Transition Stack Call)} {final : Stack}
    (established : Established peer s) (trace : Trace Step s taken final)
    (streams : Streams peer taken) (ordered : Guarded (InOrder peer) taken) :
    Throughout (FaithfulTo peer) s taken := by
  have both : Guarded (fun s call => (s.perform call).SentBy peer ∧ s.InOrder peer call) taken :=
    fun transition member => ⟨streams transition member, ordered transition member⟩
  have follows := trace.throughout_of_guarded (Following peer) established.following
    (fun before call after following allowed performed => by
      obtain rfl : before.perform call = after := performed
      exact following.perform established.alive allowed.1 allowed.2) both
  exact ⟨follows.1.faithful, fun transition member => (follows.2 transition member).faithful⟩

instance (peer : Peer) : (e : Event) → Decidable (peer.Sends e)
  | .handled .. => inferInstanceAs (Decidable (_ → _ → _))
  | .stored .. | .peerFin .. | .closeWaitAck _ => .isTrue trivial

instance (peer : Peer) : (e : Event) → Decidable (peer.InOrder e)
  | .stored .. | .peerFin .. => inferInstanceAs (Decidable (_ → _ → _))
  | .handled .. | .closeWaitAck _ => .isTrue trivial

instance (peer : Peer) (s : Stack) : Decidable (s.SentBy peer) :=
  inferInstanceAs (Decidable (∀ e ∈ s.history.events, peer.Sends e))

instance (peer : Peer) (s : Stack) (call : Call) : Decidable (s.InOrder peer call) :=
  inferInstanceAs (Decidable (∀ e ∈ (s.perform call).history.events, peer.InOrder e))

/-- A server that has just accepted a host. -/
def accepted : Stack :=
  [Call.listen 80, .input (fromHost 100 0 flagSyn [] 0),
    .input (fromHost 101 0x12345679 flagAck [] 0)].foldl perform
      (boot (fun _ => true) ownAddress ownMac)

/-- The host of `accepted`, which sends five bytes. -/
def fiveBytes : Peer := ⟨1, 2, [1, 2, 3, 4, 5], 100⟩

theorem established_accepted : Established fiveBytes accepted where
  state := by decide +kernel
  rx := by decide +kernel
  rcvNxt := by decide +kernel
  ledger := ⟨accepted.history.ledger 1, by decide +kernel⟩
  alive := by decide
  young := by decide +kernel

/-- The host's stream arrives in two segments, the FIN with the second. -/
theorem faithful_inOrder : ∃ taken final, Trace Step accepted taken final ∧
    (final.history.ledger 1).delivered = [1, 2, 3, 4, 5] ∧
    Throughout (FaithfulTo fiveBytes) accepted taken := by
  obtain ⟨⟨taken, final⟩, recorded, ⟨streams, ordered⟩, delivered⟩ :
      ∃ ran ∈ accepted.run [.input (fromHost 101 0x12345679 (flagPsh ||| flagAck) [1, 2] 0),
          .recv 1 64, .input (fromHost 103 0x12345679 (flagFin ||| flagAck) [3, 4, 5] 2),
          .recv 1 64],
        ((∀ transition ∈ ran.1,
            (transition.before.perform transition.label).SentBy fiveBytes) ∧
          ∀ transition ∈ ran.1, InOrder fiveBytes transition.before transition.label) ∧
        (ran.2.history.ledger 1).delivered = [1, 2, 3, 4, 5] := by
    decide +kernel
  have trace := trace_of_run recorded
  exact ⟨taken, final, trace, delivered,
    faithful_throughout established_accepted trace streams ordered⟩

/-- The network repeats a segment, and its bytes are stored twice. -/
theorem repeated_segment : ¬ ∀ taken final, Trace Step accepted taken final →
    Streams fiveBytes taken → Throughout (FaithfulTo fiveBytes) accepted taken := by
  intro always
  obtain ⟨⟨taken, final⟩, recorded, streams, born, rx, stored⟩ :
      ∃ ran ∈ accepted.run [.input (fromHost 101 0x12345679 (flagPsh ||| flagAck) [1, 2] 0),
          .input (fromHost 101 0x12345679 (flagPsh ||| flagAck) [1, 2] 0)],
        (∀ transition ∈ ran.1,
            (transition.before.perform transition.label).SentBy fiveBytes) ∧
          (ran.2.history.ledger 1).born = 2 ∧ (ran.2.conns 1).rx = [1, 2, 1, 2] ∧
          (ran.2.history.ledger 1).stored.length = 4 := by
    decide +kernel
  have trace := trace_of_run recorded
  have faithful := trace.final_of_throughout (always taken final trace streams) born
  have bytes := faithful.bytes
  rw [show (final.conns fiveBytes.slot).rx = [1, 2, 1, 2] from rx,
    show (final.history.ledger fiveBytes.slot).stored.length = 4 from stored] at bytes
  have last := congrArg List.getLast? bytes
  simp [fiveBytes] at last

end Stack

end DBSos.Net.Tcp
