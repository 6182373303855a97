import DBSos.Net.Upkeep

/-!
# The numbers of what is sent

Data and FINs should carry the initial sequence number, one for the SYN, and
their place among the bytes sent. An accepted connection counts its SYN+ACK; a
connection opened by `connect` never counts its SYN, so whatever it sends is
numbered one too low.
-/

namespace DBSos.Net.Tcp

open DBSos.Lib

/-- The transmission bears the number that its place calls for. -/
def Emission.Numbered (e : Emission) : Prop := e.seq = e.isn + 1 + BitVec.ofNat 32 e.place

instance (e : Emission) : Decidable e.Numbered :=
  inferInstanceAs (Decidable (e.seq = e.isn + 1 + BitVec.ofNat 32 e.place))

/-- The application can still end its side of the connection. -/
def ConnState.Early (state : ConnState) : Prop :=
  state = .synSent ∨ state = .synRcvd ∨ state = .established ∨ state = .closeWait

instance (state : ConnState) : Decidable state.Early :=
  inferInstanceAs (Decidable (_ ∨ _))

/-- `snd_nxt` and `out_seq` keep pace with the bytes sent. -/
structure Paced (c : Conn) (l : Ledger) : Prop where
  unopened : l.opening = .none → c.out = [] ∧ ¬ c.state.Early
  connected : l.opening = .connected → c.sndNxt = l.isn ∧ l.count = 0 ∧ c.out = []
  sndNxt : l.opening = .accepted →
    c.sndNxt = l.isn + 1 + BitVec.ofNat 32 (l.count + l.fin.toList.length)
  outSeq : l.opening = .accepted → c.out ≠ [] → c.outSeq = l.isn + 1 + BitVec.ofNat 32 l.outAt
  ended : l.fin ≠ none → ¬ c.state.Early

/-- The connection waits for the answer to its SYN+ACK. -/
structure Pending (isn : Seq) (c : Conn) (l : Ledger) : Prop where
  opening : l.opening = .accepted
  numbered : l.isn = isn
  count : l.count = 0
  fin : l.fin = none
  sndNxt : c.sndNxt = isn
  out : c.out = []
  state : c.state = .synRcvd ∨ c.state = .established

variable {c : Conn} {l : Ledger} {isn : Seq}

namespace Paced

theorem opened_of_early (paced : Paced c l) (early : c.state.Early) : l.opening ≠ .none :=
  fun unopened => (paced.unopened unopened).2 early

theorem fin_of_early (paced : Paced c l) (early : c.state.Early) : l.fin = none := by
  by_contra ended
  exact paced.ended ended early

/-- A change that touches neither the numbers nor what is out. -/
theorem turn (paced : Paced c l) {c' : Conn} {l' : Ledger} (sndNxt : c'.sndNxt = c.sndNxt)
    (outSeq : c'.outSeq = c.outSeq) (out : c'.out = c.out) (opening : l'.opening = l.opening)
    (isn : l'.isn = l.isn) (count : l'.count = l.count) (outAt : l'.outAt = l.outAt)
    (fin : l'.fin = l.fin) (early : c'.state.Early → c.state.Early) : Paced c' l' where
  unopened is := by
    rw [opening] at is
    exact ⟨out.trans (paced.unopened is).1, fun soon => (paced.unopened is).2 (early soon)⟩
  connected is := by
    rw [opening] at is
    rw [sndNxt, isn, count, out]
    exact paced.connected is
  sndNxt is := by
    rw [opening] at is
    rw [sndNxt, isn, count, fin]
    exact paced.sndNxt is
  outSeq is some := by
    rw [opening] at is
    rw [out] at some
    rw [outSeq, isn, outAt]
    exact paced.outSeq is some
  ended is soon := by
    rw [fin] at is
    exact paced.ended is (early soon)

theorem acked (paced : Paced c l) (ack : Seq) : Paced (c.applyAck ack)
    { l with outAt := l.outAt + (c.out.length - (c.applyAck ack).out.length) } := by
  obtain ⟨dropped, bound, out, outSeq⟩ := c.applyAck_out ack
  refine ⟨fun is => ?_, fun is => ?_, fun is => ?_, fun is some => ?_, fun is => ?_⟩
  · obtain ⟨none, late⟩ := paced.unopened is
    exact ⟨by rw [out, none]; simp, by simpa using late⟩
  · obtain ⟨sndNxt, count, none⟩ := paced.connected is
    exact ⟨by simpa using sndNxt, count, by rw [out, none]; simp⟩
  · simpa using paced.sndNxt is
  · have kept : c.out ≠ [] := fun none => some (by rw [out, none]; simp)
    have moved : c.out.length - (c.applyAck ack).out.length = dropped := by
      rw [out, List.length_drop]
      omega
    rw [outSeq some, paced.outSeq is kept, moved, BitVec.ofNat_add, BitVec.add_assoc]
  · simpa using paced.ended is

/-- `out` is cleared, and nothing else that counts. -/
theorem cleared (paced : Paced c l) (outSeq : Seq) (now : BitVec 64) (outAt : Nat) : Paced
    { c with outSeq := outSeq, out := [], lastTxMs := now, rttMs := 1000 }
    { l with outAt := outAt } where
  unopened is := ⟨rfl, (paced.unopened is).2⟩
  connected is := ⟨(paced.connected is).1, (paced.connected is).2.1, rfl⟩
  sndNxt := paced.sndNxt
  outSeq _ some := absurd rfl some
  ended := paced.ended

/-- An accepted connection whose application is still there fills `out`. -/
theorem filled (paced : Paced c l) (early : c.state.Early) (accepted : l.opening = .accepted)
    (data : List Byte) (now : BitVec 64) : Paced
    { c with outSeq := c.sndNxt, out := data, lastTxMs := now, rttMs := 1000 }
    { l with outAt := l.count } where
  unopened is := by simp [accepted] at is
  connected is := by simp [accepted] at is
  sndNxt := paced.sndNxt
  outSeq is _ := by simpa [paced.fin_of_early early] using paced.sndNxt is
  ended := paced.ended

theorem slotwise : Stack.Slotwise (fun _ => True) fun _ _ c l => Paced c l where
  bare _ := trivial
  noted paced := paced
  moved paced := paced.turn rfl rfl rfl rfl rfl rfl rfl rfl id
  reset _ _ _ := ⟨fun _ => ⟨rfl, by decide⟩, by decide, by decide, by decide, by decide⟩
  shook _ state paced := paced.turn rfl rfl rfl rfl rfl rfl rfl rfl fun _ => .inl state
  admitted _ state paced := paced.turn rfl rfl rfl rfl rfl rfl rfl rfl fun _ => .inr (.inl state)
  acked _ paced := paced.acked _
  store _ _ _ _ _ paced := paced.turn rfl rfl rfl rfl rfl rfl rfl rfl id
  countFin _ _ states _ paced := by
    refine paced.turn rfl rfl rfl rfl rfl rfl rfl rfl fun early => ?_
    rcases states with ⟨state, -⟩ | ⟨-, rfl⟩ | ⟨-, rfl⟩
    · exact .inr (.inr (.inl state))
    · exact absurd early (show ¬ ConnState.closing.Early by decide)
    · exact absurd early (show ¬ ConnState.finWait2.Early by decide)
  closeWaitAck _ _ paced := paced.turn rfl rfl rfl rfl rfl rfl rfl rfl fun early =>
    absurd early (show ¬ ConnState.lastAck.Early by decide)

end Paced

theorem Pending.slotwise (isn : Seq) :
    Stack.Slotwise Stack.Handshake fun _ _ c l => Pending isn c l where
  bare bare := ⟨.inr bare.flags, bare.payload⟩
  noted pending := pending
  moved pending := { pending with }
  reset handshake cause pending := by
    rcases cause with rst | fin | state | state
    · rcases handshake.flags with flags | flags <;> rw [flags] at rst <;> exact absurd rst (by decide)
    · rcases handshake.flags with flags | flags <;> rw [flags] at fin <;> exact absurd fin (by decide)
    · rcases pending.state with was | was <;> simp [was] at state
    · rcases pending.state with was | was <;> simp [was] at state
  shook _ state pending := by
    rcases pending.state with was | was <;> simp [was] at state
  admitted _ _ pending := { pending with state := .inr rfl }
  acked {i events c l ack} _ pending := by
    obtain ⟨dropped, -, out, -⟩ := c.applyAck_out ack
    exact ⟨pending.opening, pending.numbered, pending.count, pending.fin,
      by simpa using pending.sndNxt, by rw [out, pending.out]; simp, by simpa using pending.state⟩
  store handshake some := absurd handshake.payload some
  countFin handshake fin := by
    rcases handshake.flags with flags | flags <;> rw [flags] at fin <;> exact absurd fin (by decide)
  closeWaitAck state _ pending := by
    rcases pending.state with was | was <;> simp [was] at state

theorem Pending.counted (pending : Pending isn c l) : Paced { c with sndNxt := isn + 1 } l where
  unopened is := by simp [pending.opening] at is
  connected is := by simp [pending.opening] at is
  sndNxt _ := by simp [pending.numbered, pending.count, pending.fin]
  outSeq _ some := absurd pending.out some
  ended is := absurd pending.fin is

theorem paced_tended :
    Stack.Tended (fun _ _ c l => Paced c l) (fun _ => True) fun isn _ _ c l => Pending isn c l where
  handled := Paced.slotwise
  opening := Pending.slotwise
  next _ := trivial
  opened _ state sndNxt out := ⟨rfl, rfl, rfl, rfl, sndNxt, out, .inl state⟩
  counted pending := pending.counted
  idle {i events c born} _ state out := by
    refine ⟨fun _ => ⟨out, ?_⟩, by simp [Ledger.blank], by simp [Ledger.blank],
      by simp [Ledger.blank], by simp [Ledger.blank]⟩
    rcases state with state | state <;> rw [state] <;> decide
  connecting {i events c born isn} _ state sndNxt out :=
    ⟨by simp, fun _ => ⟨sndNxt, rfl, out⟩, by simp, by simp, by simp [Ledger.blank]⟩
  blank _ _ := ⟨fun _ => ⟨rfl, by decide⟩, by decide, by decide, by decide, by decide⟩
  readdressed paced := paced.turn rfl rfl rfl rfl rfl rfl rfl rfl id
  timed paced := paced.turn rfl rfl rfl rfl rfl rfl rfl rfl id
  drained paced := paced.turn rfl rfl rfl rfl rfl rfl rfl rfl id

/-- A connection that `send` or `close` transmits on keeps what makes the
bookkeeping after the transmission right. -/
structure Sending (c : Conn) (l : Ledger) : Prop where
  opening : l.opening ≠ .connected
  fin : l.fin = none

/-- `send` counts what it has transmitted. -/
theorem Paced.advanced (paced : Paced c l) (sending : Sending c l) (n : Nat) : Paced
    { c with sndNxt := c.sndNxt + BitVec.ofNat 32 n } { l with count := l.count + n } where
  unopened := paced.unopened
  connected is := absurd is sending.opening
  sndNxt is := by
    have before := paced.sndNxt is
    simp only [sending.fin, Option.toList_none, List.length_nil, Nat.add_zero] at before ⊢
    rw [before, BitVec.ofNat_add, BitVec.add_assoc]
  outSeq := paced.outSeq
  ended is := absurd sending.fin is

/-- `close` counts the FIN it has transmitted. -/
theorem Paced.finished (paced : Paced c l) (sending : Sending c l) (seq : Seq)
    {state : ConnState} (late : ¬ state.Early) : Paced
    { c with sndNxt := c.sndNxt + 1, state := state } { l with fin := some seq } where
  unopened is := ⟨(paced.unopened is).1, late⟩
  connected is := absurd is sending.opening
  sndNxt is := by
    have before := paced.sndNxt is
    simp only [sending.fin, Option.toList_none, List.length_nil, Nat.add_zero] at before
    simp only [Option.toList_some, List.length_singleton]
    rw [before, BitVec.ofNat_add, BitVec.add_assoc]
    rfl
  outSeq := paced.outSeq
  ended _ := late

theorem Sending.slotwise {admits : Segment → Prop}
    (bare : ∀ {segment}, BareAck segment → admits segment) :
    Stack.Slotwise admits fun _ _ c l => Sending c l where
  bare := bare
  noted sending := sending
  moved sending := { sending with }
  reset _ _ _ := ⟨by decide, rfl⟩
  shook _ _ sending := { sending with }
  admitted _ _ sending := { sending with }
  acked _ sending := { sending with }
  store _ _ _ _ _ sending := { sending with }
  countFin _ _ _ _ sending := { sending with }
  closeWaitAck _ _ sending := { sending with }

theorem sending_attended :
    Stack.Attended (fun _ _ c l => Sending c l) (fun _ => True) fun _ _ _ c l => Sending c l where
  handled := Sending.slotwise fun _ => trivial
  opening _ := Sending.slotwise fun bare => ⟨.inr bare.flags, bare.payload⟩
  next _ := trivial
  opened _ _ _ _ := ⟨by simp, rfl⟩
  counted sending := { sending with }

namespace Stack

variable {s : Stack} {i : Slot} {arrival : Arrival} {segment : Segment} {depth : Nat}

/-- Everything transmitted so far is numbered by its place. -/
def Numbered (s : Stack) : Prop := ∀ e ∈ s.history.sent, e.Numbered

/-- What is transmitted is noted where it is sent, not where it is handled. -/
theorem sent_kept {admits : Segment → Prop} (sent : List Emission)
    (bare : ∀ {segment}, BareAck segment → admits segment) :
    Kept admits fun s => s.history.sent = sent where
  bare := bare
  framed holds := holds
  reached _ holds := holds
  reset _ _ holds := holds
  shook _ _ holds := holds
  admitted _ _ holds := holds
  acked _ holds := holds
  store _ _ _ _ holds := holds
  countFin _ _ _ _ holds := holds
  ackedInCloseWait _ _ holds := holds

/-- A segment without data and without a FIN is not noted. -/
theorem noteSent_silent (t : Stack) {seq : Seq} {flags : Byte} (fin : has flags flagFin = false)
    (place : Nat) : t.noteSent i (s.outgoing i seq flags []) place = t := by
  unfold noteSent
  exact if_pos ⟨rfl, fin⟩

theorem accept_sent : (s.accept (input depth) arrival segment).history.sent = s.history.sent := by
  unfold accept
  cases found : s.allocConn with
  | none => rfl
  | some taken =>
    obtain ⟨i, t⟩ := taken
    obtain rfl : t = s.claimed i := allocConn_eq found
    have kept : Kept Handshake fun t => t.history.sent = s.history.sent :=
      sent_kept s.history.sent fun bare => ⟨.inr bare.flags, bare.payload⟩
    exact kept.transmit (fun admitted opens _ => absurd opens admitted.not_opens)
      ⟨.inl rfl, rfl⟩ rfl (congrArg (·.history.sent) (noteSent_silent _ (by decide) _))

theorem input_sent : (input depth arrival s).history.sent = s.history.sent :=
  (sent_kept s.history.sent fun _ => trivial).overInput
    (fun _ _ holds => accept_sent.trans holds) (fun _ _ => trivial) rfl

theorem polled_sent (arrivals : List Arrival) :
    (arrivals.foldl (fun s arrival => input loopDepth arrival s) s).history.sent =
      s.history.sent := by
  induction arrivals generalizing s with
  | nil => rfl
  | cons arrival rest ih => exact ih.trans input_sent

/-- A transmission is noted when it is made, and nothing else is. -/
theorem tcpSendSeq_sent (depth : Nat) (s : Stack) (i : Slot) (seq : Seq) (flags : Byte)
    (payload : List Byte) :
    (tcpSendSeq (input depth) i seq flags payload s).2.history.sent =
      if (tcpSendSeq (input depth) i seq flags payload s).1 then
        (s.noteSent i (s.outgoing i seq flags payload) (s.placeOf i flags)).history.sent
      else s.history.sent := by
  rcases tcpSendSeq_eq (input depth) s i seq flags payload with
    refused | taken | ⟨arrival, -, looped⟩
  · rw [refused]
    rfl
  · rw [taken]
    rfl
  · rw [looped]
    exact input_sent

theorem tcpSendSeq_silent (seq : Seq) {flags : Byte} (fin : has flags flagFin = false) :
    (tcpSendSeq (input depth) i seq flags [] s).2.history.sent = s.history.sent := by
  rw [tcpSendSeq_sent, noteSent_silent s fin, ite_self]

theorem Numbered.congr {t : Stack} (numbered : s.Numbered)
    (same : t.history.sent = s.history.sent) : t.Numbered := by
  unfold Numbered
  rwa [same]

/-- A transmission of data or of a FIN adds itself to the list. -/
theorem noteSent_numbered (numbered : s.Numbered) {place : Nat}
    (own : Emission.Numbered ⟨(s.history.ledger i).isn, place, segment.seq⟩) :
    (s.noteSent i segment place).Numbered := by
  unfold noteSent
  split_ifs
  · exact numbered
  · intro e member
    rcases List.mem_append.mp member with member | member
    · exact numbered e member
    · rw [List.mem_singleton.mp member]
      exact own

theorem tcpSendSeq_numbered (numbered : s.Numbered) {seq : Seq} {flags : Byte}
    {payload : List Byte}
    (own : Emission.Numbered ⟨(s.history.ledger i).isn, s.placeOf i flags, seq⟩) :
    (tcpSendSeq (input depth) i seq flags payload s).2.Numbered := by
  have noted : (s.noteSent i (s.outgoing i seq flags payload) (s.placeOf i flags)).Numbered :=
    noteSent_numbered numbered own
  unfold Numbered
  rw [tcpSendSeq_sent]
  split_ifs
  · exact noted
  · exact numbered

/-- The numbers sent so far are right, and every connection is ready to go on so. -/
structure Numbering (s : Stack) : Prop where
  numbered : s.Numbered
  paced : Each (fun _ _ c l => Paced c l) (fun _ => True) s

theorem Numbering.retransmit (numbering : Numbering s) (now : BitVec 64) (i : Slot) :
    Numbering (s.retransmit now i) := by
  refine ⟨?_, paced_tended.retransmit numbering.paced now i⟩
  have paced := numbering.paced.slots i
  unfold Stack.retransmit
  dsimp only
  split_ifs with skip
  · exact numbering.numbered
  · have some : (s.conns i).out ≠ [] := by
      simp only [Bool.or_eq_true, not_or] at skip
      simpa using skip.2
    have accepted : (s.history.ledger i).opening = .accepted := by
      cases opening : (s.history.ledger i).opening with
      | none => exact absurd (paced.unopened opening).1 some
      | connected => exact absurd (paced.connected opening).2.2 some
      | accepted => rfl
    have sent : (tcpSendSeq (input loopDepth) i (s.conns i).outSeq (flagAck ||| flagPsh)
        (s.conns i).out s).2.Numbered :=
      tcpSendSeq_numbered numbering.numbered (paced.outSeq accepted some)
    exact sent.congr rfl
  · exact numbering.numbered

theorem Numbering.checkRetransmit (numbering : Numbering s) : Numbering s.checkRetransmit := by
  unfold Stack.checkRetransmit
  generalize s.millis = now
  induction List.finRange maxConns generalizing s with
  | nil => exact numbering
  | cons i rest ih => exact ih (numbering.retransmit now i)

/-- A connection opened by `connect` transmits neither data nor a FIN. -/
def SynCounted (s : Stack) : Call → Prop
  | .send i data =>
    s.SendReady i data → s.Transmits i → (s.history.ledger i).opening ≠ .connected
  | .close i => (s.conns i).state = .established ∨ (s.conns i).state = .closeWait →
      s.Transmits i → (s.history.ledger i).opening ≠ .connected
  | _ => True

theorem Numbering.accepted (numbering : Numbering s)
    (live : (s.conns i).state = .established ∨ (s.conns i).state = .closeWait)
    (own : (s.history.ledger i).opening ≠ .connected) :
    (s.history.ledger i).opening = .accepted := by
  have early : (s.conns i).state.Early := .inr (.inr live)
  have opened := (numbering.paced.slots i).opened_of_early early
  cases opening : (s.history.ledger i).opening with
  | none => exact absurd opening opened
  | connected => exact absurd opening own
  | accepted => rfl

theorem Numbering.sending (numbering : Numbering s)
    (live : (s.conns i).state = .established ∨ (s.conns i).state = .closeWait)
    (own : (s.history.ledger i).opening ≠ .connected) :
    Sending (s.conns i) (s.history.ledger i) :=
  ⟨own, (numbering.paced.slots i).fin_of_early (.inr (.inr live))⟩

theorem fillOut_transmits {data : List Byte} :
    (s.fillOut i data).Transmits i ↔ s.Transmits i := by
  simp [Transmits, fillOut, modify, log]

theorem fillOut_sndNxt {data : List Byte} :
    ((s.fillOut i data).conns i).sndNxt = (s.conns i).sndNxt := by
  simp [fillOut]

/-- New data stands behind all the bytes sent before. -/
theorem fillOut_number {data : List Byte} (numbering : Numbering s)
    (live : (s.conns i).state = .established ∨ (s.conns i).state = .closeWait)
    (own : (s.history.ledger i).opening ≠ .connected) :
    Emission.Numbered ⟨((s.fillOut i data).history.ledger i).isn,
      (s.fillOut i data).placeOf i (flagPsh ||| flagAck), (s.conns i).sndNxt⟩ := by
  have place : (s.fillOut i data).placeOf i (flagPsh ||| flagAck) =
      (s.history.ledger i).count := by
    rw [placeOf, if_neg (by decide)]
    simp [fillOut]
  have isn : ((s.fillOut i data).history.ledger i).isn = (s.history.ledger i).isn := by
    simp [fillOut]
  rw [place, isn]
  have sndNxt := (numbering.paced.slots i).sndNxt (numbering.accepted live own)
  rw [(numbering.sending live own).fin] at sndNxt
  exact sndNxt

theorem Numbering.refused (numbering : Numbering s) {data : List Byte} :
    Numbering ((s.fillOut i data).framed.modify i fun c => { c with out := [] }) := by
  refine ⟨numbering.numbered, ⟨fun j => ?_, trivial⟩⟩
  by_cases same : j = i
  · subst same
    have cleared := (numbering.paced.slots j).cleared (s.conns j).sndNxt s.millis
      (s.history.ledger j).count
    simpa [fillOut] using cleared
  · simpa [fillOut, same] using numbering.paced.slots j

/-- What stands after a transmission of our own: the list, the pace of every slot,
and slot `i` still as it must be for the bookkeeping. -/
theorem Numbering.transmitted {t : Stack} (payload : List Byte) (numbered : t.Numbered)
    (paced : Each (fun _ _ c l => Paced c l) (fun _ => True) t)
    (sending : Sending (t.conns i) (t.history.ledger i)) {seq : Seq} {flags : Byte}
    (own : Emission.Numbered ⟨(t.history.ledger i).isn, t.placeOf i flags, seq⟩) :
    Numbering (tcpSendSeq (input loopDepth) i seq flags payload t).2 ∧
      Sending ((tcpSendSeq (input loopDepth) i seq flags payload t).2.conns i)
        ((tcpSendSeq (input loopDepth) i seq flags payload t).2.history.ledger i) := by
  exact ⟨⟨tcpSendSeq_numbered numbered own, paced_tended.toAttended.transmit paced⟩,
    sending_attended.transmitOnly trivial sending loopDepth i seq flags payload⟩

theorem Numbering.send (numbering : Numbering s) {data : List Byte}
    (counted : s.SynCounted (.send i data)) : Numbering (s.send i data).2 := by
  by_cases ready : s.SendReady i data
  swap
  · rw [send_not_ready ready]
    exact numbering
  rw [send_ready ready, tcpSend, fillOut_sndNxt]
  by_cases goes : s.Transmits i
  swap
  · rw [tcpSendSeq_refused (mt fillOut_transmits.mp goes)]
    exact numbering.refused
  have own := counted ready goes
  have accepted := numbering.accepted ready.state own
  have filled : Each (fun _ _ c l => Paced c l) (fun _ => True) (s.fillOut i data) :=
    numbering.paced.write fun paced =>
      paced.filled (.inr (.inr ready.state)) accepted data s.millis
  have sending := numbering.sending ready.state own
  have watched : Sending ((s.fillOut i data).conns i) ((s.fillOut i data).history.ledger i) :=
    ⟨by simpa [fillOut] using sending.opening, by simpa [fillOut] using sending.fin⟩
  have numbered : (s.fillOut i data).Numbered := numbering.numbered
  obtain ⟨after, sendingAfter⟩ := Numbering.transmitted data numbered filled watched
    (fillOut_number numbering ready.state own)
  have ok := (tcpSendSeq_ok (input loopDepth) (s.fillOut i data) i (s.conns i).sndNxt
    (flagPsh ||| flagAck) data).mpr (fillOut_transmits.mpr goes)
  generalize tcpSendSeq (input loopDepth) i (s.conns i).sndNxt (flagPsh ||| flagAck) data
    (s.fillOut i data) = result at ok after sendingAfter ⊢
  obtain ⟨sent, t⟩ := result
  subst ok
  simp only [if_true] at after sendingAfter ⊢
  refine ⟨after.numbered, ?_⟩
  exact after.paced.write fun own => own.advanced sendingAfter data.length

theorem Numbering.sendFin (numbering : Numbering s) {state : ConnState} (late : ¬ state.Early)
    (live : (s.conns i).state = .established ∨ (s.conns i).state = .closeWait)
    (counted : s.Transmits i → (s.history.ledger i).opening ≠ .connected) :
    Numbering (s.sendFin i state) := by
  unfold Stack.sendFin tcpSend
  by_cases goes : s.Transmits i
  swap
  · rw [tcpSendSeq_refused goes]
    exact ⟨numbering.numbered, numbering.paced.slots, trivial⟩
  have sending := numbering.sending live (counted goes)
  have number : Emission.Numbered ⟨(s.history.ledger i).isn,
      s.placeOf i (flagFin ||| flagAck), (s.conns i).sndNxt⟩ := by
    have sndNxt := (numbering.paced.slots i).sndNxt (numbering.accepted live (counted goes))
    rw [sending.fin] at sndNxt
    rw [placeOf, if_pos (by decide)]
    exact sndNxt
  obtain ⟨after, sendingAfter⟩ :=
    Numbering.transmitted [] numbering.numbered numbering.paced sending number
  have ok := (tcpSendSeq_ok (input loopDepth) s i (s.conns i).sndNxt
    (flagFin ||| flagAck) []).mpr goes
  generalize tcpSendSeq (input loopDepth) i (s.conns i).sndNxt (flagFin ||| flagAck) [] s =
    result at ok after sendingAfter ⊢
  obtain ⟨sent, t⟩ := result
  subst ok
  simp only [if_true] at after sendingAfter ⊢
  refine ⟨after.numbered, ?_⟩
  exact after.paced.write fun own => own.finished sendingAfter (s.conns i).sndNxt late

theorem Numbering.begin (numbering : Numbering s) : Numbering s.begin :=
  ⟨numbering.numbered, numbering.paced.slots, trivial⟩

theorem listen_sent (port : Port) : (s.listen port).2.history.sent = s.history.sent := by
  unfold Stack.listen
  split_ifs
  · rfl
  cases found : s.allocConn with
  | none => rfl
  | some taken =>
    obtain ⟨i, t⟩ := taken
    obtain rfl : t = s.claimed i := allocConn_eq found
    rfl

theorem alloc_sent : ((s.allocConn.map Prod.snd).getD s).history.sent = s.history.sent := by
  cases found : s.allocConn with
  | none => rfl
  | some taken =>
    obtain ⟨i, t⟩ := taken
    obtain rfl : t = s.claimed i := allocConn_eq found
    rfl

theorem connect_sent (peerIp : Ipv4) (port : Port) (arrivals : List Arrival) (resolved : Mac) :
    (s.connect peerIp port arrivals resolved).2.history.sent = s.history.sent := by
  unfold Stack.connect
  cases found : s.allocConn with
  | none => rfl
  | some taken =>
    obtain ⟨i, t⟩ := taken
    obtain rfl : t = s.claimed i := allocConn_eq found
    dsimp only
    refine (tcpSendSeq_silent _ (by decide)).trans ?_
    rw [modify_history]
    split_ifs
    · rfl
    · exact polled_sent arrivals

theorem resendSyn_sent (i : Slot) : (s.resendSyn i).history.sent = s.history.sent := by
  unfold Stack.resendSyn
  split
  · exact tcpSendSeq_silent _ (by decide)
  · exact tcpSendSeq_silent _ (by decide)
  · rfl

/-- One call. -/
theorem Numbering.perform (numbering : Numbering s) {call : Call} (counted : s.SynCounted call) :
    Numbering (s.perform call) := by
  have begun := numbering.begin
  cases call with
  | alloc => exact ⟨begun.numbered.congr alloc_sent, paced_tended.alloc begun.paced⟩
  | listen port =>
    exact ⟨begun.numbered.congr (listen_sent port), paced_tended.listen begun.paced port⟩
  | connect peerIp port arrivals resolved =>
    exact ⟨begun.numbered.congr (connect_sent peerIp port arrivals resolved),
      paced_tended.connect begun.paced peerIp port arrivals resolved⟩
  | send i data => exact begun.send fun ready => counted ⟨ready.1, ready.2, ready.3, ready.4⟩
  | recv i size => exact ⟨begun.numbered, paced_tended.recv begun.paced i size⟩
  | close i =>
    change Numbering (s.begin.close i)
    unfold Stack.close
    cases state : (s.begin.conns i).state with
    | established => exact begun.sendFin (by decide) (.inl state) (counted (.inl state))
    | closeWait => exact begun.sendFin (by decide) (.inr state) (counted (.inr state))
    | _ => exact ⟨begun.numbered, paced_tended.freeConn begun.paced i⟩
  | input arrival => exact ⟨begun.numbered.congr input_sent, paced_tended.toAttended.input begun.paced⟩
  | checkRetransmit => exact begun.checkRetransmit
  | resendSyn i =>
    exact ⟨begun.numbered.congr (resendSyn_sent i), paced_tended.resendSyn begun.paced i⟩
  | outside ticks millis ownIp mac => exact ⟨begun.numbered, begun.paced.slots, trivial⟩

theorem not_numbered_isn (isn : Seq) : ¬ Emission.Numbered ⟨isn, 0, isn⟩ := by
  unfold Emission.Numbered
  bv_omega

/-- What `send` transmits for the first time is on the list, with its place. -/
theorem mem_send_sent {data : List Byte} (ready : s.SendReady i data) (goes : s.Transmits i) :
    ⟨(s.history.ledger i).isn, (s.history.ledger i).count, (s.conns i).sndNxt⟩ ∈
      (s.send i data).2.history.sent := by
  rw [send_ready ready, tcpSend, fillOut_sndNxt]
  have sent := tcpSendSeq_sent loopDepth (s.fillOut i data) i (s.conns i).sndNxt
    (flagPsh ||| flagAck) data
  have ok := (tcpSendSeq_ok (input loopDepth) (s.fillOut i data) i (s.conns i).sndNxt
    (flagPsh ||| flagAck) data).mpr (fillOut_transmits.mpr goes)
  rw [if_pos ok] at sent
  generalize tcpSendSeq (input loopDepth) i (s.conns i).sndNxt (flagPsh ||| flagAck) data
    (s.fillOut i data) = result at ok sent ⊢
  obtain ⟨_, t⟩ := result
  subst ok
  simp only [if_true] at sent ⊢
  rw [log_sent, modify_history, sent, noteSent, if_neg fun silent => ready.some silent.1]
  have notFin : has (flagPsh ||| flagAck) flagFin = false := by decide
  simp [fillOut, placeOf, outgoing, notFin]

theorem mem_sendFin_sent (state : ConnState) (goes : s.Transmits i) :
    ⟨(s.history.ledger i).isn, (s.history.ledger i).count, (s.conns i).sndNxt⟩ ∈
      (s.sendFin i state).history.sent := by
  unfold Stack.sendFin tcpSend
  have sent := tcpSendSeq_sent loopDepth s i (s.conns i).sndNxt (flagFin ||| flagAck) []
  have ok := (tcpSendSeq_ok (input loopDepth) s i (s.conns i).sndNxt
    (flagFin ||| flagAck) []).mpr goes
  rw [if_pos ok] at sent
  generalize tcpSendSeq (input loopDepth) i (s.conns i).sndNxt (flagFin ||| flagAck) [] s =
    result at ok sent ⊢
  obtain ⟨_, t⟩ := result
  subst ok
  simp only [if_true] at sent ⊢
  have isFin : has (flagFin ||| flagAck) flagFin = true := by decide
  rw [log_sent, modify_history, sent, noteSent, if_neg fun silent => by simp [outgoing, isFin] at silent]
  simp [placeOf, outgoing, isFin]

/-- Whatever a connection opened by `connect` transmits is misnumbered. -/
theorem Numbering.exact (numbering : Numbering s) {call : Call} (uncounted : ¬ s.SynCounted call) :
    ¬ (s.perform call).Numbered := by
  intro numbered
  have wrong : ∀ i, (s.history.ledger i).opening = .connected →
      ⟨(s.history.ledger i).isn, (s.history.ledger i).count, (s.conns i).sndNxt⟩ ∉
        (s.perform call).history.sent := by
    intro i connected member
    obtain ⟨sndNxt, count, -⟩ := (numbering.paced.slots i).connected connected
    have own := numbered _ member
    rw [sndNxt, count] at own
    exact not_numbered_isn _ own
  cases call with
  | send i data =>
    simp only [SynCounted, not_forall, not_not] at uncounted
    obtain ⟨ready, goes, connected⟩ := uncounted
    exact wrong i connected (mem_send_sent (s := s.begin) ⟨ready.1, ready.2, ready.3, ready.4⟩ goes)
  | close i =>
    simp only [SynCounted, not_forall, not_not] at uncounted
    obtain ⟨state, goes, connected⟩ := uncounted
    refine wrong i connected ?_
    change _ ∈ (s.begin.close i).history.sent
    unfold Stack.close
    rcases state with state | state
    · rw [show (s.begin.conns i).state = .established from state]
      exact mem_sendFin_sent (s := s.begin) .finWait1 goes
    · rw [show (s.begin.conns i).state = .closeWait from state]
      exact mem_sendFin_sent (s := s.begin) .lastAck goes
  | _ => exact uncounted trivial

theorem Numbering.boot (accepts : Nat → Bool) (ownIp : Ipv4) (mac : Mac) :
    Numbering (boot accepts ownIp mac) where
  numbered := by simp [Numbered, Stack.boot]
  paced := ⟨fun i => paced_tended.blank i [], trivial⟩

/-- In a run of the stack every data byte and FIN carries the number that its place
calls for exactly when no connection opened by `connect` transmits any. -/
theorem numbered_throughout_iff {accepts : Nat → Bool} {ownIp : Ipv4} {mac : Mac}
    {taken : List (Transition Stack Call)} {final : Stack}
    (trace : Trace Step (boot accepts ownIp mac) taken final) :
    Throughout Numbered (boot accepts ownIp mac) taken ↔ Guarded SynCounted taken :=
  trace.throughout_iff_guarded Numbering (Numbering.boot accepts ownIp mac)
    (fun _ numbering => numbering.numbered)
    (fun before label after numbering counted (performed : before.perform label = after) => by
      subst performed
      exact numbering.perform counted)
    (fun before label after numbering uncounted (performed : before.perform label = after) => by
      subst performed
      exact numbering.exact uncounted)

instance (s : Stack) (i : Slot) : Decidable (s.Transmits i) :=
  inferInstanceAs (Decidable (_ ∨ _))

instance (s : Stack) (i : Slot) (data : List Byte) : Decidable (s.SendReady i data) :=
  decidable_of_iff (((s.conns i).state = .established ∨ (s.conns i).state = .closeWait) ∧
      data ≠ [] ∧ data.length ≤ mtu ∧ (s.conns i).out = [])
    ⟨fun parts => ⟨parts.1, parts.2.1, parts.2.2.1, parts.2.2.2⟩,
      fun ready => ⟨ready.state, ready.some, ready.fits, ready.idle⟩⟩

instance (s : Stack) : (call : Call) → Decidable (s.SynCounted call)
  | .send _ _ => inferInstanceAs (Decidable (_ → _ → _))
  | .close _ => inferInstanceAs (Decidable (_ → _ → _))
  | .alloc | .listen _ | .connect .. | .recv .. | .input _ | .checkRetransmit | .resendSyn _
  | .outside .. => .isTrue trivial

instance (s : Stack) : Decidable s.Numbered :=
  inferInstanceAs (Decidable (∀ e ∈ s.history.sent, e.Numbered))

end Stack

/-- The address of the stack in the examples. -/
def ownAddress : Ipv4 := #v[10, 0, 2, 15]

def ownMac : Mac := Vector.replicate 6 0x52

/-- A segment from a host on the wire. -/
def fromHost (seq ack : Seq) (flags : Byte) (payload : List Byte) (place : Nat) : Arrival where
  peerIp := #v[10, 0, 2, 2]
  peerMac := Vector.replicate 6 0x66
  data := (Segment.mk 5000 80 seq ack flags payload).encode #v[10, 0, 2, 2] ownAddress
  place := place

/-- A server that sends three bytes, of which one must be sent again. -/
def serverCalls : List Stack.Call :=
  [.listen 80, .input (fromHost 100 0 flagSyn [] 0),
    .input (fromHost 101 0x12345679 flagAck [] 0), .send 1 [1, 2, 3],
    .input (fromHost 101 0x1234567B flagAck [] 0), .outside 0 2000 ownAddress ownMac,
    .checkRetransmit, .close 1]

namespace Stack

theorem numbered_server : ∃ taken final,
    Trace Step (boot (fun _ => true) ownAddress ownMac) taken final ∧
    final.history.sent =
      [⟨0x12345678, 0, 0x12345679⟩, ⟨0x12345678, 2, 0x1234567B⟩, ⟨0x12345678, 3, 0x1234567C⟩] ∧
    Throughout Numbered (boot (fun _ => true) ownAddress ownMac) taken := by
  obtain ⟨⟨taken, final⟩, recorded, counted, sent⟩ :
      ∃ ran ∈ (boot (fun _ => true) ownAddress ownMac).run serverCalls,
        (∀ transition ∈ ran.1, SynCounted transition.before transition.label) ∧
        ran.2.history.sent = [⟨0x12345678, 0, 0x12345679⟩, ⟨0x12345678, 2, 0x1234567B⟩,
          ⟨0x12345678, 3, 0x1234567C⟩] := by
    decide +kernel
  have trace := trace_of_run recorded
  exact ⟨taken, final, trace, sent, (numbered_throughout_iff trace).mpr counted⟩

/-- The first data byte of a client goes out under the number of its SYN. -/
theorem client_misnumbered : ¬ ∀ taken final,
    Trace Step (boot (fun _ => true) ownAddress ownMac) taken final →
    Throughout Numbered (boot (fun _ => true) ownAddress ownMac) taken := by
  intro always
  have ok : ((boot (fun _ => true) ownAddress ownMac).run
      [.listen 9100, .connect ownAddress 9100 [] ownMac, .send 1 [65]]).any
        (fun ran => decide (¬ ran.2.Numbered)) = true := by decide +kernel
  obtain ⟨⟨taken, final⟩, recorded, checked⟩ := (Option.any_eq_true _ _).mp ok
  have trace := trace_of_run recorded
  exact of_decide_eq_true checked (trace.final_of_throughout (always taken final trace))

end Stack

end DBSos.Net.Tcp
