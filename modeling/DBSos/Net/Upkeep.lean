import DBSos.Lib.Trace
import DBSos.Net.Loopback

/-!
# What every call does to every slot

An invariant of single connections is checked at the writes the code makes to a
connection; the rules here carry it through nested handlers and whole calls.
`send` and the two arms of `close` that transmit a FIN are left to the invariant.
-/

namespace DBSos.Net.Tcp

open DBSos.Lib

namespace Stack

variable {s : Stack} {i j : Slot} {arrival : Arrival} {segment : Segment}

/-- What the writes of the handler to one connection must preserve. -/
structure Slotwise (admits : Segment → Prop)
    (ok : Slot → List Event → Conn → Ledger → Prop) : Prop where
  bare : ∀ {segment}, BareAck segment → admits segment
  noted : ∀ {i events event c l}, ok i events c l → ok i (events ++ [event]) c l
  moved : ∀ {i events c l mac ip}, ok i events c l →
    ok i events { c with remoteMac := mac, peerIp := ip } l
  reset : ∀ {i events c l segment}, admits segment →
    (has segment.flags flagRst = true ∨ has segment.flags flagFin = true ∨
      c.state = .lastAck ∨ c.state = .closing) → ok i events c l → ok i events .empty .blank
  shook : ∀ {i events c l segment}, admits segment → c.state = .synSent → ok i events c l →
    ok i events { c with
      rcvNxt := segment.seq + 1, sndUna := segment.ack, state := .established } l
  admitted : ∀ {i events c l segment}, admits segment → c.state = .synRcvd → ok i events c l →
    ok i events { c with sndUna := segment.ack, state := .established } l
  acked : ∀ {i events c l ack}, (c.state = .established ∨ c.state = .finWait1 ∨
      c.state = .finWait2 ∨ c.state = .closeWait) → ok i events c l →
    ok i events (c.applyAck ack)
      { l with outAt := l.outAt + (c.out.length - (c.applyAck ack).out.length) }
  store : ∀ {i events c l segment place n}, admits segment → segment.payload ≠ [] →
    c.state = .established → n = min segment.payload.length (rxBuf - c.rx.length) →
    .handled i l.born segment place ∈ events → ok i events c l →
    ok i (events ++ [.stored i l.born place l.stored.length n])
      { c with rx := c.rx ++ segment.payload.take n, rcvNxt := c.rcvNxt + BitVec.ofNat 32 n }
      { l with stored := l.stored ++ List.range' place n }
  countFin : ∀ {i events c l segment place state}, admits segment →
    has segment.flags flagFin = true →
    (c.state = .established ∧ state = .closeWait ∨ c.state = .finWait1 ∧ state = .closing ∨
      c.state = .finWait2 ∧ state = .finWait2) →
    .handled i l.born segment place ∈ events → ok i events c l →
    ok i (events ++ [.peerFin i l.born (place + segment.payload.length) l.stored.length
        l.peerFins.length])
      { c with rcvNxt := c.rcvNxt + 1, state := state }
      { l with peerFins := l.peerFins ++ [place + segment.payload.length] }
  closeWaitAck : ∀ {i events c l}, c.state = .closeWait → .closeWaitAck i ∈ events →
    ok i events c l → ok i events { c with state := .lastAck } l

/-- Every slot satisfies `ok` with the events of the call so far, and the next
stamp satisfies `fresh`. -/
structure Each (ok : Slot → List Event → Conn → Ledger → Prop) (fresh : Nat → Prop)
    (s : Stack) : Prop where
  slots : ∀ j, ok j s.history.events (s.conns j) (s.history.ledger j)
  fresh : fresh s.history.births

variable {admits : Segment → Prop} {ok : Slot → List Event → Conn → Ledger → Prop}
  {fresh : Nat → Prop}

/-- A write to slot `i` need only be checked there. -/
theorem Each.write (each : Each ok fresh s) {change : Conn → Conn} {remark : Ledger → Ledger}
    (own : ok i s.history.events (s.conns i) (s.history.ledger i) →
      ok i s.history.events (change (s.conns i)) (remark (s.history.ledger i))) :
    Each ok fresh ((s.modify i change).log i remark) := by
  refine ⟨fun j => ?_, each.fresh⟩
  by_cases same : j = i
  · subst same
    simpa using own (each.slots j)
  · simpa [same] using each.slots j

theorem Each.change (each : Each ok fresh s) {change : Conn → Conn}
    (own : ok i s.history.events (s.conns i) (s.history.ledger i) →
      ok i s.history.events (change (s.conns i)) (s.history.ledger i)) :
    Each ok fresh (s.modify i change) := by
  refine ⟨fun j => ?_, each.fresh⟩
  by_cases same : j = i
  · subst same
    simpa using own (each.slots j)
  · simpa [same] using each.slots j

theorem Each.noteSent (each : Each ok fresh s) (i : Slot) (segment : Segment) (place : Nat) :
    Each ok fresh (s.noteSent i segment place) := by
  unfold Stack.noteSent
  split_ifs
  · exact each
  · exact ⟨each.slots, each.fresh⟩

theorem Slotwise.kept (slotwise : Slotwise admits ok) : Kept admits (Each ok fresh) where
  bare := slotwise.bare
  framed holds := ⟨holds.slots, holds.fresh⟩
  reached {s i arrival segment} _ holds := by
    have moved : Each ok fresh (s.modify i fun c =>
        { c with remoteMac := arrival.peerMac, peerIp := arrival.peerIp }) :=
      holds.change slotwise.moved
    exact ⟨fun j => slotwise.noted (moved.slots j), holds.fresh⟩
  reset admitted cause holds := holds.write (slotwise.reset admitted cause)
  shook admitted state holds := holds.change (slotwise.shook admitted state)
  admitted admitted state holds := holds.change (slotwise.admitted admitted state)
  acked {s i ack} state holds := by
    refine holds.write fun own => slotwise.acked ?_ own
    rcases state with state | state | state <;> simp [state]
  store {s i segment place} admitted some state seen holds := by
    refine ⟨fun j => ?_, holds.fresh⟩
    by_cases same : j = i
    · subst same
      simpa [Stack.store] using slotwise.store admitted some state rfl seen (holds.slots j)
    · simpa [Stack.store, same] using slotwise.noted (holds.slots j)
  countFin {s i segment place state} admitted fin states seen holds := by
    refine ⟨fun j => ?_, holds.fresh⟩
    by_cases same : j = i
    · subst same
      simpa [Stack.countFin] using slotwise.countFin admitted fin states seen (holds.slots j)
    · simpa [Stack.countFin, same] using slotwise.noted (holds.slots j)
  ackedInCloseWait {s i segment} _ state holds := by
    have acked : Each ok fresh (s.acked i segment.ack) :=
      holds.write fun own => slotwise.acked (.inr (.inr (.inr state))) own
    have noted : Each ok fresh ((s.acked i segment.ack).note (.closeWaitAck i)) :=
      ⟨fun j => slotwise.noted (acked.slots j), holds.fresh⟩
    have stateAcked : ((s.acked i segment.ack).conns i).state = .closeWait := by
      simpa [Stack.acked] using state
    unfold Stack.ackedInCloseWait turn
    exact noted.change fun own => slotwise.closeWaitAck stateAcked (by simp) own

/-- The segments of a handshake after the SYN: SYN+ACK and ACK, without data. -/
structure Handshake (segment : Segment) : Prop where
  flags : segment.flags = flagSyn ||| flagAck ∨ segment.flags = flagAck
  payload : segment.payload = []

theorem Handshake.not_opens (handshake : Handshake segment) : ¬ Opens segment := by
  rintro ⟨-, ack⟩
  rcases handshake.flags with flags | flags <;> rw [flags] at ack <;> exact absurd ack (by decide)

/-- One slot is watched by another predicate than the others. -/
theorem Slotwise.mixed {other : Slot → List Event → Conn → Ledger → Prop}
    (slotwise : Slotwise admits ok) (watched : Slotwise admits other) (k : Slot) :
    Slotwise admits fun j events c l => if j = k then other j events c l else ok j events c l where
  bare := slotwise.bare
  noted {i events event c l} holds := by
    split_ifs at holds ⊢
    exacts [watched.noted holds, slotwise.noted holds]
  moved {i events c l mac ip} holds := by
    split_ifs at holds ⊢
    exacts [watched.moved holds, slotwise.moved holds]
  reset {i events c l segment} admitted cause holds := by
    split_ifs at holds ⊢
    exacts [watched.reset admitted cause holds, slotwise.reset admitted cause holds]
  shook {i events c l segment} admitted state holds := by
    split_ifs at holds ⊢
    exacts [watched.shook admitted state holds, slotwise.shook admitted state holds]
  admitted {i events c l segment} admitted state holds := by
    split_ifs at holds ⊢
    exacts [watched.admitted admitted state holds, slotwise.admitted admitted state holds]
  acked {i events c l ack} state holds := by
    split_ifs at holds ⊢
    exacts [watched.acked state holds, slotwise.acked state holds]
  store {i events c l segment place n} admitted some state room seen holds := by
    split_ifs at holds ⊢
    exacts [watched.store admitted some state room seen holds,
      slotwise.store admitted some state room seen holds]
  countFin {i events c l segment place state} admitted fin states seen holds := by
    split_ifs at holds ⊢
    exacts [watched.countFin admitted fin states seen holds,
      slotwise.countFin admitted fin states seen holds]
  closeWaitAck {i events c l} state seen holds := by
    split_ifs at holds ⊢
    exacts [watched.closeWaitAck state seen holds, slotwise.closeWaitAck state seen holds]

/-- A predicate kept for a class of segments is kept for a smaller one. -/
theorem Slotwise.restrict {fewer : Segment → Prop} (slotwise : Slotwise admits ok)
    (bare : ∀ {segment}, BareAck segment → fewer segment)
    (included : ∀ {segment}, fewer segment → admits segment) : Slotwise fewer ok where
  bare := bare
  noted := slotwise.noted
  moved := slotwise.moved
  reset admitted := slotwise.reset (included admitted)
  shook admitted := slotwise.shook (included admitted)
  admitted admitted := slotwise.admitted (included admitted)
  acked := slotwise.acked
  store admitted := slotwise.store (included admitted)
  countFin admitted := slotwise.countFin (included admitted)
  closeWaitAck := slotwise.closeWaitAck

/-- A predicate may be asked of one slot only. -/
theorem Slotwise.only (slotwise : Slotwise admits ok) (k : Slot) :
    Slotwise admits fun i events c l => i = k → ok i events c l where
  bare := slotwise.bare
  noted holds is := slotwise.noted (holds is)
  moved holds is := slotwise.moved (holds is)
  reset admitted cause holds is := slotwise.reset admitted cause (holds is)
  shook admitted state holds is := slotwise.shook admitted state (holds is)
  admitted admitted state holds is := slotwise.admitted admitted state (holds is)
  acked state holds is := slotwise.acked state (holds is)
  store admitted some state room seen holds is :=
    slotwise.store admitted some state room seen (holds is)
  countFin admitted fin states seen holds is :=
    slotwise.countFin admitted fin states seen (holds is)
  closeWaitAck state seen holds is := slotwise.closeWaitAck state seen (holds is)

/-- What the writes of `input` to one connection must preserve; `pending isn`
holds of a connection whose SYN+ACK is on its way. -/
structure Attended (ok : Slot → List Event → Conn → Ledger → Prop) (fresh : Nat → Prop)
    (pending : Seq → Slot → List Event → Conn → Ledger → Prop) : Prop where
  handled : Slotwise (fun _ => True) ok
  opening : ∀ isn, Slotwise Handshake (pending isn)
  next : ∀ {born}, fresh born → fresh (born + 1)
  opened : ∀ {i events c born isn}, fresh born → c.state = .synRcvd → c.sndNxt = isn →
    c.out = [] → pending isn i events c
      { Ledger.blank with born := born, opening := .accepted, isn := isn }
  counted : ∀ {i events c l isn}, pending isn i events c l →
    ok i events { c with sndNxt := isn + 1 } l

/-- What the writes of every call but `send` and a FIN must preserve. -/
structure Tended (ok : Slot → List Event → Conn → Ledger → Prop) (fresh : Nat → Prop)
    (pending : Seq → Slot → List Event → Conn → Ledger → Prop) : Prop
    extends Attended ok fresh pending where
  idle : ∀ {i events c born}, fresh born → c.state = .closed ∨ c.state = .listen → c.out = [] →
    ok i events c { Ledger.blank with born := born }
  connecting : ∀ {i events c born isn}, fresh born → c.state = .synSent → c.sndNxt = isn →
    c.out = [] → ok i events c
      { Ledger.blank with born := born, opening := .connected, isn := isn }
  blank : ∀ i events, ok i events .empty .blank
  readdressed : ∀ {i events c l mac}, ok i events c l → ok i events { c with remoteMac := mac } l
  timed : ∀ {i events c l now rtt}, ok i events c l →
    ok i events { c with lastTxMs := now, rttMs := rtt } l
  drained : ∀ {i events c l n}, ok i events c l → ok i events { c with rx := c.rx.drop n }
    { l with delivered := l.delivered ++ c.rx.take n }

theorem allocConn_eq {taken : Slot × Stack} (found : s.allocConn = some taken) :
    taken.2 = s.claimed taken.1 := by
  obtain ⟨i, -, rfl⟩ := Option.map_eq_some_iff.mp found
  rfl

/-- Slot `i` has been claimed and filled; the others are as they were. -/
structure Claimed (i : Slot) (s t : Stack) : Prop where
  conns : ∀ j, j ≠ i → t.conns j = s.conns j
  ledger : ∀ j, j ≠ i → t.history.ledger j = s.history.ledger j
  events : t.history.events = s.history.events
  births : t.history.births = s.history.births + 1

theorem claimed_claimed (s : Stack) (i : Slot) : Claimed i s (s.claimed i) where
  conns j other := by simp [claimed, other]
  ledger j other := by simp [claimed, other]
  events := rfl
  births := rfl

theorem claimed_ledger (s : Stack) (i : Slot) :
    (s.claimed i).history.ledger i = { Ledger.blank with born := s.history.births } := by
  simp [claimed]

theorem Claimed.fill {t : Stack} (claimed : Claimed i s t) (change : Conn → Conn)
    (remark : Ledger → Ledger) : Claimed i s ((t.modify i change).log i remark) where
  conns j other := by simp [other, claimed.conns j other]
  ledger j other := by simp [other, claimed.ledger j other]
  events := claimed.events
  births := claimed.births

theorem Claimed.change {t : Stack} (claimed : Claimed i s t) (change : Conn → Conn) :
    Claimed i s (t.modify i change) where
  conns j other := by simp [other, claimed.conns j other]
  ledger := claimed.ledger
  events := claimed.events
  births := claimed.births

theorem Claimed.numbered {t : Stack} (claimed : Claimed i s t) : Claimed i s t.nextIsn.2 :=
  ⟨claimed.conns, claimed.ledger, claimed.events, claimed.births⟩

theorem Claimed.ported {t : Stack} (claimed : Claimed i s t) : Claimed i s t.nextEphemeral.2 :=
  ⟨claimed.conns, claimed.ledger, claimed.events, claimed.births⟩

/-- A claimed slot may be watched by another predicate than the others. -/
theorem Each.claim {t : Stack} {watch : Slot → List Event → Conn → Ledger → Prop}
    (each : Each ok fresh s) (next : fresh (s.history.births + 1)) (claimed : Claimed i s t)
    (own : watch i s.history.events (t.conns i) (t.history.ledger i)) :
    Each (fun j events c l => if j = i then watch j events c l else ok j events c l) fresh t := by
  refine ⟨fun j => ?_, by rwa [claimed.births]⟩
  rw [claimed.events]
  by_cases same : j = i
  · subst same
    rwa [if_pos rfl]
  · rw [if_neg same, claimed.conns j same, claimed.ledger j same]
    exact each.slots j

theorem Each.claimOk {t : Stack} (each : Each ok fresh s) (next : fresh (s.history.births + 1))
    (claimed : Claimed i s t)
    (own : ok i s.history.events (t.conns i) (t.history.ledger i)) : Each ok fresh t := by
  have both := each.claim next claimed own
  exact ⟨fun j => by simpa using both.slots j, both.fresh⟩

namespace Attended

variable {pending : Seq → Slot → List Event → Conn → Ledger → Prop} {depth : Nat}

theorem accept (attended : Attended ok fresh pending) (each : Each ok fresh s) :
    Each ok fresh (s.accept (input depth) arrival segment) := by
  unfold Stack.accept
  cases found : s.allocConn with
  | none => exact each
  | some taken =>
    obtain ⟨i, t⟩ := taken
    obtain rfl : t = s.claimed i := allocConn_eq found
    unfold tcpSend
    dsimp only
    generalize (s.claimed i).nextIsn.1 = isn
    -- While the SYN+ACK is on its way the new slot is only pending.
    have waiting : Each (fun j events c l =>
        if j = i then pending isn j events c l else ok j events c l) fresh
        ((s.claimed i).nextIsn.2.opened i arrival segment isn) := by
      refine each.claim (attended.next each.fresh) ((s.claimed_claimed i).numbered.fill _ _) ?_
      have ledger : ((s.claimed i).nextIsn.2.opened i arrival segment isn).history.ledger i =
          { Ledger.blank with born := s.history.births, opening := .accepted, isn := isn } := by
        simp [Stack.opened, Stack.claimed, nextIsn]
      rw [ledger]
      exact attended.opened each.fresh (by simp [Stack.opened]) (by simp [Stack.opened])
        (by simp [Stack.opened, Stack.claimed, nextIsn, Conn.empty])
    have mixed := (attended.handled.restrict (attended.opening isn).bare fun _ => trivial).mixed
      (attended.opening isn) i
    have sent : ∀ seq, Each (fun j events c l =>
        if j = i then pending isn j events c l else ok j events c l) fresh
        (tcpSendSeq (input depth) i seq (flagSyn ||| flagAck) []
          ((s.claimed i).nextIsn.2.opened i arrival segment isn)).2 := fun seq =>
      mixed.kept.transmit (fun admitted opens _ => absurd opens admitted.not_opens)
        ⟨.inl rfl, rfl⟩ waiting (waiting.noteSent _ _ _)
    have sent := sent
      (((s.claimed i).nextIsn.2.opened i arrival segment isn).conns i).sndNxt
    generalize tcpSendSeq (input depth) i _ _ [] _ = result at sent ⊢
    refine ⟨fun j => ?_, sent.fresh⟩
    have atSlot := sent.slots j
    by_cases same : j = i
    · subst same
      rw [if_pos rfl] at atSlot
      simpa using attended.counted atSlot
    · rw [if_neg same] at atSlot
      simpa [same] using atSlot

theorem input (attended : Attended ok fresh pending) (each : Each ok fresh s) :
    Each ok fresh (Stack.input depth arrival s) :=
  attended.handled.kept.overInput (fun _ _ holds => attended.accept holds) (fun _ _ => trivial) each

theorem transmit (attended : Attended ok fresh pending) (each : Each ok fresh s) {seq : Seq}
    {flags : Byte} {payload : List Byte} :
    Each ok fresh (tcpSendSeq (Stack.input depth) i seq flags payload s).2 :=
  attended.handled.kept.transmit (fun _ _ holds => attended.accept holds) trivial each
    (each.noteSent _ _ _)

theorem only (attended : Attended ok fresh pending) (k : Slot) :
    Attended (fun i events c l => i = k → ok i events c l) fresh
      fun isn i events c l => i = k → pending isn i events c l where
  handled := attended.handled.only k
  opening isn := (attended.opening isn).only k
  next := attended.next
  opened new state sndNxt out _ := attended.opened new state sndNxt out
  counted holds is := attended.counted (holds is)

/-- What is true of slot `k` alone is true of it after a transmission. -/
theorem transmitOnly (attended : Attended ok fresh pending) (new : fresh s.history.births)
    {k : Slot} (own : ok k s.history.events (s.conns k) (s.history.ledger k)) (depth : Nat)
    (i : Slot) (seq : Seq) (flags : Byte) (payload : List Byte) :
    let t := (tcpSendSeq (Stack.input depth) i seq flags payload s).2
    ok k t.history.events (t.conns k) (t.history.ledger k) := by
  have each : Each (fun i events c l => i = k → ok i events c l) fresh s := by
    refine ⟨fun j is => ?_, new⟩
    subst is
    exact own
  exact ((attended.only k).transmit each).slots k rfl

end Attended

namespace Tended

variable {pending : Seq → Slot → List Event → Conn → Ledger → Prop} {depth : Nat}

theorem listen (tended : Tended ok fresh pending) (each : Each ok fresh s) (port : Port) :
    Each ok fresh (s.listen port).2 := by
  unfold Stack.listen
  split_ifs
  · exact each
  cases found : s.allocConn with
  | none => exact each
  | some taken =>
    obtain ⟨i, t⟩ := taken
    obtain rfl : t = s.claimed i := allocConn_eq found
    dsimp only
    refine each.claimOk (tended.next each.fresh) ((s.claimed_claimed i).change _) ?_
    rw [modify_history, claimed_ledger]
    exact tended.idle each.fresh (.inr (by simp)) (by simp [Stack.claimed, Conn.empty])

theorem alloc (tended : Tended ok fresh pending) (each : Each ok fresh s) :
    Each ok fresh ((s.allocConn.map Prod.snd).getD s) := by
  cases found : s.allocConn with
  | none => exact each
  | some taken =>
    obtain ⟨i, t⟩ := taken
    obtain rfl : t = s.claimed i := allocConn_eq found
    change Each ok fresh (s.claimed i)
    refine each.claimOk (tended.next each.fresh) (s.claimed_claimed i) ?_
    rw [claimed_ledger]
    exact tended.idle each.fresh (.inl (by simp [Stack.claimed, Conn.empty]))
      (by simp [Stack.claimed, Conn.empty])

theorem polled (tended : Tended ok fresh pending) (each : Each ok fresh s)
    (arrivals : List Arrival) :
    Each ok fresh (arrivals.foldl (fun s arrival => Stack.input loopDepth arrival s) s) := by
  induction arrivals generalizing s with
  | nil => exact each
  | cons arrival rest ih => exact ih (tended.toAttended.input each)

theorem connect (tended : Tended ok fresh pending) (each : Each ok fresh s) (peerIp : Ipv4)
    (port : Port) (arrivals : List Arrival) (resolved : Mac) :
    Each ok fresh (s.connect peerIp port arrivals resolved).2 := by
  unfold Stack.connect
  cases found : s.allocConn with
  | none => exact each
  | some taken =>
    obtain ⟨i, t⟩ := taken
    obtain rfl : t = s.claimed i := allocConn_eq found
    dsimp only
    generalize (s.claimed i).nextEphemeral.1 = lport
    generalize (s.claimed i).nextEphemeral.2.nextIsn.1 = isn
    have dialled : Each ok fresh
        ((s.claimed i).nextEphemeral.2.nextIsn.2.dialled i lport port peerIp isn) := by
      refine each.claimOk (tended.next each.fresh)
        ((s.claimed_claimed i).ported.numbered.fill _ _) ?_
      have ledger : ((s.claimed i).nextEphemeral.2.nextIsn.2.dialled i lport port peerIp
          isn).history.ledger i =
          { Ledger.blank with born := s.history.births, opening := .connected, isn := isn } := by
        simp [Stack.dialled, Stack.claimed, nextIsn, nextEphemeral]
      rw [ledger]
      exact tended.connecting each.fresh (by simp [Stack.dialled]) (by simp [Stack.dialled])
        (by simp [Stack.dialled, Stack.claimed, nextIsn, nextEphemeral, Conn.empty])
    generalize (s.claimed i).nextEphemeral.2.nextIsn.2.dialled i lport port peerIp isn = t
      at dialled
    have after : Each ok fresh (if peerIp = t.ownIp then t
        else arrivals.foldl (fun s arrival => Stack.input loopDepth arrival s) t) := by
      split_ifs
      · exact dialled
      · exact tended.polled dialled arrivals
    exact tended.toAttended.transmit (after.change tended.readdressed)

theorem recv (tended : Tended ok fresh pending) (each : Each ok fresh s) (i : Slot)
    (size : Nat) : Each ok fresh (s.recv i size).2 := by
  refine ⟨fun j => ?_, each.fresh⟩
  by_cases same : j = i
  · subst same
    simpa [Stack.recv] using tended.drained (each.slots j)
  · simpa [Stack.recv, same] using each.slots j

theorem freeConn (tended : Tended ok fresh pending) (each : Each ok fresh s) (i : Slot) :
    Each ok fresh (s.free i) :=
  each.write fun _ => tended.blank _ _

/-- `close` where it sends nothing. -/
theorem close (tended : Tended ok fresh pending) (each : Each ok fresh s) (i : Slot)
    (silent : (s.conns i).state ≠ .established ∧ (s.conns i).state ≠ .closeWait) :
    Each ok fresh (s.close i) := by
  unfold Stack.close
  cases state : (s.conns i).state <;> simp only [state] at silent ⊢
  case established => exact absurd rfl silent.1
  case closeWait => exact absurd rfl silent.2
  all_goals exact tended.freeConn each i

theorem retransmit (tended : Tended ok fresh pending) (each : Each ok fresh s)
    (now : BitVec 64) (i : Slot) : Each ok fresh (s.retransmit now i) := by
  unfold Stack.retransmit
  dsimp only
  split_ifs
  · exact each
  · exact (tended.toAttended.transmit each).change tended.timed
  · exact each

theorem checkRetransmit (tended : Tended ok fresh pending) (each : Each ok fresh s) :
    Each ok fresh s.checkRetransmit := by
  unfold Stack.checkRetransmit
  generalize s.millis = now
  induction List.finRange maxConns generalizing s with
  | nil => exact each
  | cons i rest ih => exact ih (tended.retransmit each now i)

theorem resendSyn (tended : Tended ok fresh pending) (each : Each ok fresh s) (i : Slot) :
    Each ok fresh (s.resendSyn i) := by
  unfold Stack.resendSyn
  split
  · exact tended.toAttended.transmit each
  · exact tended.toAttended.transmit each
  · exact each

/-- Every call but `send`, and `close` where it sends a FIN. -/
theorem perform (tended : Tended ok fresh pending) (each : Each ok fresh s.begin) (call : Call)
    (notSend : ∀ i data, call ≠ .send i data)
    (silent : ∀ i, call = .close i →
      (s.conns i).state ≠ .established ∧ (s.conns i).state ≠ .closeWait) :
    Each ok fresh (s.perform call) := by
  cases call with
  | alloc => exact tended.alloc each
  | listen port => exact tended.listen each port
  | connect peerIp port arrivals resolved => exact tended.connect each peerIp port arrivals resolved
  | send i data => exact absurd rfl (notSend i data)
  | recv i size => exact tended.recv each i size
  | close i => exact tended.close each i (silent i rfl)
  | input arrival => exact tended.input each
  | checkRetransmit => exact tended.checkRetransmit each
  | resendSyn i => exact tended.resendSyn each i
  | outside ticks millis ownIp mac => exact ⟨each.slots, each.fresh⟩

end Tended

/-- One call as a step of the stack. -/
def Step (s : Stack) (call : Call) (t : Stack) : Prop := s.perform call = t

/-- The calls `calls` in a row. -/
def run (s : Stack) (calls : List Call) : Option (List (Transition Stack Call) × Stack) :=
  record (fun s call => some (s.perform call)) s calls

theorem trace_of_run {calls : List Call} {ran : List (Transition Stack Call) × Stack}
    (recorded : s.run calls = some ran) : Trace Step s ran.1 ran.2 :=
  (trace_of_record recorded).mono Option.some.inj

end Stack

end DBSos.Net.Tcp
