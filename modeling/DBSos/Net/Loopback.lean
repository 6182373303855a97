import DBSos.Net.Tcp

/-!
# Segments that come back

What the stack sends to its own address it handles at once. The segment that
ends every such chain is a bare acknowledgement, which no branch answers:
`handleSegment_ack` says what it does, and `Kept` turns what single branches
preserve into what handling any segment preserves, at every depth of nesting.
-/

namespace DBSos.Net.Tcp

/-- A segment with the ACK flag only and no data. -/
structure BareAck (segment : Segment) : Prop where
  flags : segment.flags = flagAck
  payload : segment.payload = []

namespace Stack

variable {s : Stack} {i j : Slot} {arrival : Arrival} {segment : Segment}
  {loop : Arrival → Stack → Stack}

@[simp] theorem reached_state (s : Stack) (i j : Slot) (arrival : Arrival) (segment : Segment) :
    ((s.reached i arrival segment).conns j).state = (s.conns j).state := by
  by_cases same : j = i
  · subst same
    simp [reached]
  · simp [reached, same]

@[simp] theorem reached_ledger (s : Stack) (i : Slot) (arrival : Arrival) (segment : Segment) :
    (s.reached i arrival segment).history.ledger = s.history.ledger := rfl

/-- What a bare acknowledgement does to the connection it reaches. -/
def onAck (s : Stack) (i : Slot) (segment : Segment) : Stack :=
  match (s.conns i).state with
  | .synRcvd => s.admitted i segment
  | .established | .finWait1 | .finWait2 => s.acked i segment.ack
  | .closeWait => s.ackedInCloseWait i segment
  | .lastAck | .closing => s.free i
  | .synSent | .closed | .listen => s

/-- No acknowledgement moves a connection out of FIN_WAIT1. -/
theorem stays_finWait1 (s : Stack) (i : Slot) (segment : Segment) :
    ¬ (has segment.flags flagAck ∧
      segment.ack - ((s.ackedIf i segment).conns i).sndUna ≠ 0 ∧ segment.ack ≠ 0 ∧
      ((s.ackedIf i segment).conns i).out = []) := by
  rintro ⟨hasAck, behind, nonzero, -⟩
  rw [ackedIf, if_pos hasAck] at behind
  rcases (s.conns i).applyAck_sndUna segment.ack with equal | zero
  · exact behind (by simpa [acked] using equal)
  · exact nonzero zero

theorem handleSegment_ack (bare : BareAck segment) :
    handleSegment loop i arrival segment s = (s.reached i arrival segment).onAck i segment := by
  obtain ⟨flags, payload⟩ := bare
  have ack : has segment.flags flagAck = true := by rw [flags]; rfl
  have fin : has segment.flags flagFin = false := by rw [flags]; rfl
  have syn : has segment.flags flagSyn = false := by rw [flags]; rfl
  have rst : has segment.flags flagRst = false := by rw [flags]; rfl
  have still := stays_finWait1 (s.reached i arrival segment) i segment
  unfold handleSegment onAck
  simp only [ack, fin, syn, rst, payload, ackedIf, true_and, if_true, Bool.false_and,
    Bool.false_eq_true, if_false] at still ⊢
  rw [if_neg still]
  cases ((s.reached i arrival segment).conns i).state <;> rfl

theorem outgoing_bare (s : Stack) (i : Slot) (seq : Seq) :
    BareAck (s.outgoing i seq flagAck []) := ⟨rfl, rfl⟩

theorem noteSent_bare (bare : BareAck segment) (s : Stack) (i : Slot) (place : Nat) :
    s.noteSent i segment place = s := by
  unfold noteSent
  rw [bare.flags, bare.payload, if_pos ⟨rfl, by decide⟩]

/-- What a transmission does: the card takes a frame, or the handler a segment. -/
theorem tcpSendSeq_eq (loop : Arrival → Stack → Stack) (s : Stack) (i : Slot) (seq : Seq)
    (flags : Byte) (payload : List Byte) :
    tcpSendSeq loop i seq flags payload s = (false, s.framed) ∨
    tcpSendSeq loop i seq flags payload s =
      (true, (s.noteSent i (s.outgoing i seq flags payload) (s.placeOf i flags)).framed) ∨
    ∃ arrival, Segment.parse arrival.data = some (s.outgoing i seq flags payload) ∧
      tcpSendSeq loop i seq flags payload s = (true, loop arrival
        (s.noteSent i (s.outgoing i seq flags payload) (s.placeOf i flags))) := by
  unfold tcpSendSeq
  by_cases own : (s.conns i).peerIp = s.ownIp
  · refine .inr (.inr ⟨⟨s.ownIp, s.mac, (s.outgoing i seq flags payload).encode s.ownIp
      (s.conns i).peerIp, s.placeOf i flags⟩, Segment.parse_encode _ _ _, ?_⟩)
    simp only [own, if_true]
  · simp only [own, if_false]
    cases s.accepts s.frames
    · exact .inl rfl
    · refine .inr (.inl ?_)
      by_cases silent : payload = [] ∧ has flags flagFin = false
      · simp [noteSent, outgoing, silent]
      · simp [noteSent, outgoing, silent, placeOf, framed]

/-- A reply is a frame for the card or a bare acknowledgement for the handler. -/
theorem replyAck_eq (loop : Arrival → Stack → Stack) (s : Stack) (i : Slot) :
    replyAck loop i s = s.framed ∨
      ∃ arrival segment, Segment.parse arrival.data = some segment ∧ BareAck segment ∧
        replyAck loop i s = loop arrival s := by
  have bare := s.outgoing_bare i (s.conns i).sndNxt
  unfold replyAck tcpSend
  rcases tcpSendSeq_eq loop s i (s.conns i).sndNxt flagAck [] with
    refused | taken | ⟨arrival, parsed, looped⟩
  · rw [refused]
    exact .inl rfl
  · rw [taken, noteSent_bare bare]
    exact .inl rfl
  · rw [looped, noteSent_bare bare]
    exact .inr ⟨arrival, _, parsed, bare, rfl⟩

/-- A bare acknowledgement that comes back touches at most one connection, and
never answers. -/
theorem input_ack_eq (depth : Nat) (parsed : Segment.parse arrival.data = some segment)
    (bare : BareAck segment) : input depth arrival s = s ∨
      ∃ i, input depth arrival s = (s.reached i arrival segment).onAck i segment := by
  have syn : has segment.flags flagSyn = false := by rw [bare.flags]; rfl
  cases depth with
  | zero => exact .inl rfl
  | succ depth =>
    simp only [input, inputWith, parsed, syn, Bool.false_and, Bool.false_eq_true, if_false]
    cases s.findTuple segment.dport segment.sport arrival.peerIp with
    | none => exact .inl rfl
    | some i => exact .inr ⟨i, handleSegment_ack bare⟩

/-- The connection in slot `j` is still the one it was, with the same numbers. -/
structure Stays (j : Slot) (s t : Stack) : Prop where
  sndNxt : (t.conns j).sndNxt = (s.conns j).sndNxt
  ledger : ∃ outAt, t.history.ledger j = { s.history.ledger j with outAt := outAt }
  state : (t.conns j).state = (s.conns j).state ∨
    (s.conns j).state = .closeWait ∧ (t.conns j).state = .lastAck
  events : s.history.events ⊆ t.history.events

theorem onAck_conns_of_ne (s : Stack) {i j : Slot} (other : j ≠ i) (segment : Segment) :
    (s.onAck i segment).conns j = s.conns j := by
  unfold onAck
  cases (s.conns i).state <;> simp [admitted, acked, ackedInCloseWait, turn, free, other]

theorem onAck_ledger_of_ne (s : Stack) {i j : Slot} (other : j ≠ i) (segment : Segment) :
    (s.onAck i segment).history.ledger j = s.history.ledger j := by
  unfold onAck
  cases (s.conns i).state <;> simp [admitted, acked, ackedInCloseWait, turn, free, other]

theorem events_onAck (s : Stack) (i : Slot) (segment : Segment) :
    s.history.events ⊆ (s.onAck i segment).history.events := by
  unfold onAck
  cases (s.conns i).state <;> simp [admitted, acked, ackedInCloseWait, turn, free]

@[simp] theorem reached_conns_of_ne (s : Stack) {i j : Slot} (other : j ≠ i)
    (arrival : Arrival) (segment : Segment) : (s.reached i arrival segment).conns j = s.conns j := by
  simp [reached, other]

theorem events_reached (s : Stack) (i : Slot) (arrival : Arrival) (segment : Segment) :
    s.history.events ⊆ (s.reached i arrival segment).history.events := by
  simp [reached]

theorem onAck_stays (live : (s.conns j).state = .established ∨ (s.conns j).state = .closeWait) :
    Stays j s ((s.reached i arrival segment).onAck i segment) := by
  have events := List.Subset.trans (events_reached s i arrival segment) (events_onAck _ i segment)
  by_cases same : j = i
  · subst same
    rcases live with state | state
    · have eq : (s.reached j arrival segment).onAck j segment =
          (s.reached j arrival segment).acked j segment.ack := by
        simp [onAck, state]
      rw [eq] at events ⊢
      exact ⟨by simp [acked, reached], ⟨_, by simp [acked, reached]; rfl⟩,
        .inl (by simp [acked]), events⟩
    · have eq : (s.reached j arrival segment).onAck j segment =
          (s.reached j arrival segment).ackedInCloseWait j segment := by
        simp [onAck, state]
      rw [eq] at events ⊢
      exact ⟨by simp [ackedInCloseWait, turn, acked, reached],
        ⟨_, by simp [ackedInCloseWait, turn, acked, reached]; rfl⟩,
        .inr ⟨state, by simp [ackedInCloseWait, turn]⟩, events⟩
  · refine ⟨?_, ⟨(s.history.ledger j).outAt, ?_⟩, .inl ?_, events⟩
    · rw [onAck_conns_of_ne _ same, reached_conns_of_ne _ same]
    · rw [onAck_ledger_of_ne _ same, reached_ledger]
    · rw [onAck_conns_of_ne _ same, reached_conns_of_ne _ same]

theorem replyAck_stays (depth : Nat)
    (live : (s.conns j).state = .established ∨ (s.conns j).state = .closeWait) :
    Stays j s (replyAck (input depth) i s) := by
  have itself : Stays j s s := ⟨rfl, ⟨_, rfl⟩, .inl rfl, List.Subset.refl _⟩
  rcases replyAck_eq (input depth) s i with framed | ⟨arrival, segment, parsed, bare, looped⟩
  · rw [framed]
    exact ⟨rfl, ⟨_, rfl⟩, .inl rfl, List.Subset.refl _⟩
  · rw [looped]
    rcases input_ack_eq depth parsed bare with missed | ⟨k, handled⟩
    · rw [missed]
      exact itself
    · rw [handled]
      exact onAck_stays live

/-- What an invariant must survive, branch by branch, so that handling any segment
of a class keeps it. -/
structure Kept (admits : Segment → Prop) (inv : Stack → Prop) : Prop where
  bare : ∀ {segment}, BareAck segment → admits segment
  framed : ∀ {s : Stack}, inv s → inv s.framed
  reached : ∀ {s : Stack} {i arrival segment}, admits segment → inv s →
    inv (s.reached i arrival segment)
  reset : ∀ {s : Stack} {i segment}, admits segment →
    (has segment.flags flagRst = true ∨ has segment.flags flagFin = true ∨
      (s.conns i).state = .lastAck ∨ (s.conns i).state = .closing) → inv s → inv (s.free i)
  shook : ∀ {s : Stack} {i segment}, admits segment → (s.conns i).state = .synSent → inv s →
    inv (s.shook i segment)
  admitted : ∀ {s : Stack} {i segment}, admits segment → (s.conns i).state = .synRcvd → inv s →
    inv (s.admitted i segment)
  acked : ∀ {s : Stack} {i ack}, ((s.conns i).state = .established ∨
    (s.conns i).state = .finWait1 ∨ (s.conns i).state = .finWait2) → inv s → inv (s.acked i ack)
  store : ∀ {s : Stack} {i segment place}, admits segment → segment.payload ≠ [] →
    (s.conns i).state = .established →
    .handled i (s.history.ledger i).born segment place ∈ s.history.events → inv s →
    inv (s.store i segment place)
  countFin : ∀ {s : Stack} {i segment place state}, admits segment →
    has segment.flags flagFin = true →
    ((s.conns i).state = .established ∧ state = .closeWait ∨
      (s.conns i).state = .finWait1 ∧ state = .closing ∨
      (s.conns i).state = .finWait2 ∧ state = .finWait2) →
    .handled i (s.history.ledger i).born segment place ∈ s.history.events → inv s →
    inv (s.countFin i segment place state)
  ackedInCloseWait : ∀ {s : Stack} {i segment}, admits segment →
    (s.conns i).state = .closeWait → inv s → inv (s.ackedInCloseWait i segment)

namespace Kept

variable {admits : Segment → Prop} {inv : Stack → Prop} {depth : Nat}

theorem ackIf (kept : Kept admits inv) (live : (s.conns i).state = .established ∨
    (s.conns i).state = .finWait1 ∨ (s.conns i).state = .finWait2) (holds : inv s) :
    inv (s.ackedIf i segment) := by
  unfold ackedIf
  split_ifs
  · exact kept.acked live holds
  · exact holds

theorem reply (kept : Kept admits inv)
    (loops : ∀ {arrival segment s}, Segment.parse arrival.data = some segment →
      BareAck segment → inv s → inv (input depth arrival s)) (holds : inv s) :
    inv (replyAck (input depth) i s) := by
  rcases replyAck_eq (input depth) s i with framed | ⟨arrival, segment, parsed, bare, looped⟩
  · rw [framed]
    exact kept.framed holds
  · rw [looped]
    exact loops parsed bare holds

end Kept

@[simp] theorem ackedIf_state (s : Stack) (i : Slot) (segment : Segment) :
    ((s.ackedIf i segment).conns i).state = (s.conns i).state := by
  unfold ackedIf
  split_ifs <;> simp [acked]

theorem ackedIf_born (s : Stack) (i : Slot) (segment : Segment) :
    ((s.ackedIf i segment).history.ledger i).born = (s.history.ledger i).born := by
  unfold ackedIf
  split_ifs <;> simp [acked]

theorem ackedIf_events (s : Stack) (i : Slot) (segment : Segment) :
    (s.ackedIf i segment).history.events = s.history.events := by
  unfold ackedIf
  split_ifs <;> simp [acked]

theorem events_store (s : Stack) (i : Slot) (segment : Segment) (place : Nat) :
    s.history.events ⊆ (s.store i segment place).history.events := by
  simp [store]

@[simp] theorem store_state (s : Stack) (i : Slot) (segment : Segment) (place : Nat) :
    ((s.store i segment place).conns i).state = (s.conns i).state := by
  simp [store]

@[simp] theorem store_born (s : Stack) (i : Slot) (segment : Segment) (place : Nat) :
    ((s.store i segment place).history.ledger i).born = (s.history.ledger i).born := by
  simp [store]

section Handling

variable {admits : Segment → Prop} {inv : Stack → Prop} {depth : Nat}

/-- The ESTABLISHED arm: the reply to the data leaves the connection as the FIN finds it. -/
theorem Kept.established (kept : Kept admits inv)
    (loops : ∀ {arrival segment s}, Segment.parse arrival.data = some segment →
      BareAck segment → inv s → inv (input depth arrival s))
    (admitted : admits segment) (state : (s.conns i).state = .established)
    (seen : .handled i (s.history.ledger i).born segment arrival.place ∈ s.history.events)
    (holds : inv s) :
    let t := if segment.payload = [] then s
      else replyAck (input depth) i (s.store i segment arrival.place)
    inv (if has segment.flags flagFin then
        replyAck (input depth) i (t.countFin i segment arrival.place .closeWait)
      else t) := by
  intro t
  have after : (t.conns i).state = .established ∧
      .handled i (t.history.ledger i).born segment arrival.place ∈ t.history.events ∧ inv t := by
    by_cases empty : segment.payload = []
    · simp only [t, if_pos empty]
      exact ⟨state, seen, holds⟩
    · simp only [t, if_neg empty]
      have stored := kept.store admitted empty state seen holds
      have stays : Stays i _ _ := replyAck_stays (s := s.store i segment arrival.place) (i := i)
        depth (.inl (by simpa using state))
      obtain ⟨outAt, ledger⟩ := stays.ledger
      refine ⟨?_, stays.events ?_, kept.reply loops stored⟩
      · rcases stays.state with same | ⟨closeWait, -⟩
        · simpa [state] using same
        · simp [state] at closeWait
      · rw [ledger, store_born]
        exact events_store s i segment arrival.place seen
  obtain ⟨stateAfter, seenAfter, holdsAfter⟩ := after
  split_ifs with fin
  · exact kept.reply loops
      (kept.countFin admitted fin (.inl ⟨stateAfter, rfl⟩) seenAfter holdsAfter)
  · exact holdsAfter

/-- A handler answers with bare acknowledgements only. -/
theorem Kept.handle (kept : Kept admits inv)
    (loops : ∀ {arrival segment s}, Segment.parse arrival.data = some segment →
      BareAck segment → inv s → inv (input depth arrival s))
    (admitted : admits segment) (holds : inv s) :
    inv (handleSegment (input depth) i arrival segment s) := by
  have holds : inv (s.reached i arrival segment) := kept.reached admitted holds
  have seen : Event.handled i ((s.reached i arrival segment).history.ledger i).born segment
      arrival.place ∈ (s.reached i arrival segment).history.events := by
    simp [Stack.reached]
  unfold handleSegment
  generalize s.reached i arrival segment = t at holds seen
  dsimp only
  by_cases rst : has segment.flags flagRst = true
  · rw [if_pos rst]
    exact kept.reset admitted (.inl rst) holds
  rw [if_neg rst]
  have seenAcked : Event.handled i ((t.ackedIf i segment).history.ledger i).born segment
      arrival.place ∈ (t.ackedIf i segment).history.events := by
    rw [ackedIf_born, ackedIf_events]
    exact seen
  cases state : (t.conns i).state with
  | closed | listen => exact holds
  | synSent =>
    dsimp only
    split_ifs
    · exact kept.reply loops (kept.shook admitted state holds)
    · exact holds
  | synRcvd =>
    dsimp only
    split_ifs
    · exact kept.admitted admitted state holds
    · exact holds
  | established =>
    exact kept.established loops admitted (by simpa using state) seenAcked
      (kept.ackIf (.inl state) holds)
  | finWait1 =>
    have acked : inv (t.ackedIf i segment) := kept.ackIf (.inr (.inl state)) holds
    have stateAcked : ((t.ackedIf i segment).conns i).state = .finWait1 := by simpa using state
    dsimp only
    rw [if_neg (stays_finWait1 t i segment), if_pos stateAcked]
    split_ifs with fin
    · exact kept.reply loops
        (kept.countFin admitted fin (.inr (.inl ⟨stateAcked, rfl⟩)) seenAcked acked)
    · exact acked
  | finWait2 =>
    have acked : inv (t.ackedIf i segment) := kept.ackIf (.inr (.inr state)) holds
    have stateAcked : ((t.ackedIf i segment).conns i).state = .finWait2 := by simpa using state
    dsimp only
    split_ifs with fin
    · exact kept.reset admitted (.inr (.inl fin)) (kept.reply loops
        (kept.countFin admitted fin (.inr (.inr ⟨stateAcked, rfl⟩)) seenAcked acked))
    · exact acked
  | closeWait =>
    dsimp only
    split_ifs
    · exact kept.ackedInCloseWait admitted state holds
    · exact holds
  | lastAck =>
    dsimp only
    split_ifs
    · exact kept.reset admitted (.inr (.inr (.inl state))) holds
    · exact holds
  | closing =>
    dsimp only
    split_ifs
    · exact kept.reset admitted (.inr (.inr (.inr state))) holds
    · exact holds

/-- A segment that opens a connection: a SYN without an ACK. -/
def Opens (segment : Segment) : Prop :=
  has segment.flags flagSyn = true ∧ has segment.flags flagAck = false

/-- An invariant kept by every branch, and by accepting where the class has segments
that open connections, is kept by `input` at every depth. -/
theorem Kept.overInput (kept : Kept admits inv)
    (opens : ∀ {depth arrival segment s}, admits segment → Opens segment → inv s →
      inv (s.accept (input depth) arrival segment))
    {depth : Nat} {arrival : Arrival} {s : Stack}
    (admitted : ∀ segment, Segment.parse arrival.data = some segment → admits segment)
    (holds : inv s) : inv (input depth arrival s) := by
  induction depth generalizing arrival s with
  | zero => exact holds
  | succ depth ih =>
    have loops : ∀ {arrival segment s}, Segment.parse arrival.data = some segment →
        admits segment → inv s → inv (input depth arrival s) := by
      intro arrival segment s parsed admitted holds
      refine ih (fun other parsedOther => ?_) holds
      obtain rfl := Option.some.inj (parsed.symm.trans parsedOther)
      exact admitted
    simp only [input, inputWith]
    cases parsed : Segment.parse arrival.data with
    | none => exact holds
    | some segment =>
      dsimp only
      cases s.findTuple segment.dport segment.sport arrival.peerIp with
      | some i =>
        exact kept.handle (fun parsed bare => loops parsed (kept.bare bare))
          (admitted segment parsed) holds
      | none =>
        dsimp only
        split_ifs with syn
        · simp only [Bool.and_eq_true, Bool.not_eq_true'] at syn
          exact opens (admitted segment parsed) syn.1 holds
        · exact holds

/-- An invariant kept by `input` is kept by a transmission. -/
theorem Kept.transmit (kept : Kept admits inv)
    (opens : ∀ {depth arrival segment s}, admits segment → Opens segment → inv s →
      inv (s.accept (input depth) arrival segment))
    {seq : Seq} {flags : Byte} {payload : List Byte}
    (admitted : admits (s.outgoing i seq flags payload)) (holds : inv s)
    (noted : inv (s.noteSent i (s.outgoing i seq flags payload) (s.placeOf i flags))) :
    inv (tcpSendSeq (input depth) i seq flags payload s).2 := by
  rcases tcpSendSeq_eq (input depth) s i seq flags payload with
    refused | taken | ⟨arrival, parsed, looped⟩
  · rw [refused]
    exact kept.framed holds
  · rw [taken]
    exact kept.framed noted
  · rw [looped]
    refine kept.overInput opens (fun segment parsedToo => ?_) noted
    obtain rfl := Option.some.inj (parsed.symm.trans parsedToo)
    exact admitted

end Handling

/-- A transmission succeeds: it is looped, or the card takes the frame. -/
def Transmits (s : Stack) (i : Slot) : Prop :=
  (s.conns i).peerIp = s.ownIp ∨ s.accepts s.frames = true

/-- `send` gets as far as the transmission. -/
structure SendReady (s : Stack) (i : Slot) (data : List Byte) : Prop where
  state : (s.conns i).state = .established ∨ (s.conns i).state = .closeWait
  some : data ≠ []
  fits : data.length ≤ mtu
  idle : (s.conns i).out = []

theorem tcpSendSeq_ok (loop : Arrival → Stack → Stack) (s : Stack) (i : Slot) (seq : Seq)
    (flags : Byte) (payload : List Byte) :
    (tcpSendSeq loop i seq flags payload s).1 = true ↔ s.Transmits i := by
  unfold tcpSendSeq Transmits
  by_cases own : (s.conns i).peerIp = s.ownIp <;> simp [own]

theorem tcpSendSeq_refused (refused : ¬ s.Transmits i) (seq : Seq) (flags : Byte)
    (payload : List Byte) : tcpSendSeq loop i seq flags payload s = (false, s.framed) := by
  have notOk := mt (tcpSendSeq_ok loop s i seq flags payload).mp refused
  rcases tcpSendSeq_eq loop s i seq flags payload with eq | eq | ⟨arrival, -, eq⟩
  · exact eq
  · simp [eq] at notOk
  · simp [eq] at notOk

theorem send_not_ready {data : List Byte} (notReady : ¬ s.SendReady i data) :
    s.send i data = (false, s) := by
  unfold send
  split_ifs with state empty long busy
  · rfl
  · rfl
  · rfl
  · rfl
  · exact absurd ⟨by tauto, empty, by omega, by tauto⟩ notReady

theorem send_ready {data : List Byte} (ready : s.SendReady i data) :
    s.send i data =
      let (ok, t) := tcpSend (input loopDepth) i (flagPsh ||| flagAck) data (s.fillOut i data)
      if ok then
        (true, (t.modify i fun c =>
            { c with sndNxt := c.sndNxt + BitVec.ofNat 32 data.length }).log i
          fun l => { l with count := l.count + data.length })
      else (false, t.modify i fun c => { c with out := [] }) := by
  unfold send
  rw [if_neg (by have := ready.state; tauto), if_neg ready.some,
    if_neg (by have := ready.fits; omega), if_neg (by simpa using ready.idle)]

end Stack

end DBSos.Net.Tcp
