import DBSos.Net.Numbering

/-!
# The closing states

FIN_WAIT1, FIN_WAIT2, CLOSING and LAST_ACK are for a side that has sent its FIN.
`close` enters the first and the last of them with the FIN counted; the
CLOSE_WAIT arm of the handler enters LAST_ACK on any acknowledgement, whether or
not there was a FIN to acknowledge.
-/

namespace DBSos.Net.Tcp

open DBSos.Lib

def ConnState.Ending (state : ConnState) : Prop :=
  state = .finWait1 ∨ state = .finWait2 ∨ state = .closing ∨ state = .lastAck

instance (state : ConnState) : Decidable state.Ending :=
  inferInstanceAs (Decidable (_ ∨ _))

/-- In a closing state the FIN that `close` sent is counted by `snd_nxt`. -/
def FinCounted (c : Conn) (l : Ledger) : Prop :=
  c.state.Ending → ∃ seq, l.fin = some seq ∧ c.sndNxt = seq + 1

/-- The code has taken the FIN of this connection for sent, or it is counted. -/
def Excused (i : Slot) (events : List Event) (c : Conn) (l : Ledger) : Prop :=
  .closeWaitAck i ∈ events ∨ FinCounted c l

/-- The connection has not got to the closing states by itself. -/
def Waiting (i : Slot) (events : List Event) (c : Conn) (_ : Ledger) : Prop :=
  .closeWaitAck i ∈ events ∨ ¬ c.state.Ending

variable {i : Slot} {events : List Event} {c : Conn} {l : Ledger}

theorem finCounted_of_not_ending (open' : ¬ c.state.Ending) : FinCounted c l :=
  fun ending => absurd ending open'

theorem Waiting.excused (waiting : Waiting i events c l) (sndNxt : Seq) (l' : Ledger) :
    Excused i events { c with sndNxt := sndNxt } l' :=
  waiting.imp_right fun open' => finCounted_of_not_ending open'

theorem Excused.slotwise : Stack.Slotwise (fun _ => True) Excused where
  bare _ := trivial
  noted excused := excused.imp_left (List.mem_append_left _)
  moved excused := excused
  reset _ _ _ := .inr (finCounted_of_not_ending (by decide))
  shook _ _ _ := .inr (finCounted_of_not_ending (show ¬ ConnState.established.Ending by decide))
  admitted _ _ _ := .inr (finCounted_of_not_ending (show ¬ ConnState.established.Ending by decide))
  acked _ excused := excused.imp_right fun counted => by simpa [FinCounted] using counted
  store _ _ _ _ _ excused := excused.imp (List.mem_append_left _) id
  countFin {i events c l segment place state} _ _ states _ excused := by
    refine excused.imp (List.mem_append_left _) fun counted => ?_
    rcases states with ⟨-, rfl⟩ | ⟨was, -⟩ | ⟨was, -⟩
    · exact finCounted_of_not_ending (show ¬ ConnState.closeWait.Ending by decide)
    · exact fun _ => counted (.inl was)
    · exact fun _ => counted (.inr (.inl was))
  closeWaitAck _ seen _ := .inl seen

theorem Waiting.slotwise {admits : Segment → Prop}
    (bare : ∀ {segment}, BareAck segment → admits segment) : Stack.Slotwise admits Waiting where
  bare := bare
  noted waiting := waiting.imp_left (List.mem_append_left _)
  moved waiting := waiting
  reset _ _ _ := .inr (by decide)
  shook _ _ _ := .inr (show ¬ ConnState.established.Ending by decide)
  admitted _ _ _ := .inr (show ¬ ConnState.established.Ending by decide)
  acked _ waiting := waiting.imp_right fun open' => by simpa using open'
  store _ _ _ _ _ waiting := waiting.imp_left (List.mem_append_left _)
  countFin {i events c l segment place state} _ _ states _ waiting := by
    refine waiting.imp (List.mem_append_left _) fun open' => ?_
    rcases states with ⟨-, rfl⟩ | ⟨was, -⟩ | ⟨was, -⟩
    · exact show ¬ ConnState.closeWait.Ending by decide
    · exact absurd (.inl was) open'
    · exact absurd (.inr (.inl was)) open'
  closeWaitAck _ seen _ := .inl seen

theorem excused_tended : Stack.Tended Excused (fun _ => True) fun _ => Waiting where
  handled := Excused.slotwise
  opening _ := Waiting.slotwise fun bare => ⟨.inr bare.flags, bare.payload⟩
  next _ := trivial
  opened _ state _ _ := .inr (by rw [state]; decide)
  counted waiting := waiting.excused _ _
  idle _ state _ := by
    refine .inr (finCounted_of_not_ending ?_)
    rcases state with state | state <;> rw [state] <;> decide
  connecting _ state _ _ := .inr (finCounted_of_not_ending (by rw [state]; decide))
  blank _ _ := .inr (finCounted_of_not_ending (by decide))
  readdressed excused := excused
  timed excused := excused
  drained excused := excused

theorem waiting_attended :
    Stack.Attended Waiting (fun _ => True) fun _ => Waiting where
  handled := Waiting.slotwise fun _ => trivial
  opening _ := Waiting.slotwise fun bare => ⟨.inr bare.flags, bare.payload⟩
  next _ := trivial
  opened _ state _ _ := .inr (by rw [state]; decide)
  counted waiting := waiting

namespace Stack

variable {s : Stack} {j k : Slot} {arrival : Arrival} {segment : Segment} {depth : Nat}

theorem modify_sndNxt (j k : Slot) {change : Conn → Conn}
    (keeps : ∀ c, (change c).sndNxt = c.sndNxt) :
    ((s.modify k change).conns j).sndNxt = (s.conns j).sndNxt := by
  by_cases same : j = k
  · subst same
    rw [modify_conns_self, keeps]
  · rw [modify_conns_of_ne s same]

theorem ackedIf_sndNxt (j k : Slot) :
    ((s.ackedIf k segment).conns j).sndNxt = (s.conns j).sndNxt := by
  unfold ackedIf
  split_ifs
  · exact modify_sndNxt j k fun c => c.applyAck_sndNxt _
  · rfl

theorem countFin_sndNxt (j k : Slot) (place : Nat) (state : ConnState) :
    ((s.countFin k segment place state).conns j).sndNxt = (s.conns j).sndNxt := by
  rw [countFin, log_conns, modify_sndNxt j k]
  · rfl
  · exact fun _ => rfl

theorem countFin_state_of_ne (other : j ≠ k) (place : Nat) (state : ConnState) :
    ((s.countFin k segment place state).conns j).state = (s.conns j).state := by
  simp [countFin, other]

theorem countFin_state_self (k : Slot) (place : Nat) (state : ConnState) :
    ((s.countFin k segment place state).conns k).state = state := by
  simp [countFin]

theorem ackedIf_state_any (j k : Slot) :
    ((s.ackedIf k segment).conns j).state = (s.conns j).state := by
  by_cases same : j = k
  · subst same
    exact ackedIf_state s j segment
  · unfold ackedIf
    split_ifs <;> simp [acked, same]

/-- A reply does not renumber a connection whose application is still there. -/
theorem replyAck_sndNxt (live : (s.conns j).state = .established ∨ (s.conns j).state = .closeWait)
    (k : Slot) : ((replyAck (input depth) k s).conns j).sndNxt = (s.conns j).sndNxt :=
  (replyAck_stays depth live).sndNxt

/-- Nor does a FIN that comes back, with the replies it brings about. -/
theorem finHandled_sndNxt (flags : segment.flags = flagFin ||| flagAck)
    (empty : segment.payload = [])
    (live : (s.conns j).state = .established ∨ (s.conns j).state = .closeWait) (k : Slot) :
    ((handleSegment (input depth) k arrival segment s).conns j).sndNxt = (s.conns j).sndNxt := by
  have rst : has segment.flags flagRst = false := by rw [flags]; decide
  have fin : has segment.flags flagFin = true := by rw [flags]; decide
  have ack : has segment.flags flagAck = true := by rw [flags]; decide
  have syn : has segment.flags flagSyn = false := by rw [flags]; decide
  have reached : ((s.reached k arrival segment).conns j).sndNxt = (s.conns j).sndNxt := by
    rw [Stack.reached, note_conns, modify_sndNxt j k]
    exact fun _ => rfl
  have liveReached : ((s.reached k arrival segment).conns j).state = .established ∨
      ((s.reached k arrival segment).conns j).state = .closeWait := by simpa using live
  unfold handleSegment
  rw [← reached]
  generalize s.reached k arrival segment = t at liveReached
  simp only [rst, fin, ack, syn, empty, Bool.false_eq_true, if_false, if_true, Bool.false_and]
  have still := stays_finWait1 t k segment
  rw [ack] at still
  have acked : ((t.ackedIf k segment).conns j).sndNxt = (t.conns j).sndNxt := ackedIf_sndNxt j k
  have liveAcked : ((t.ackedIf k segment).conns j).state = .established ∨
      ((t.ackedIf k segment).conns j).state = .closeWait := by
    rwa [ackedIf_state_any]
  have counted : ∀ state, (j ≠ k ∨ state = .closeWait) →
      ((replyAck (input depth) k
        ((t.ackedIf k segment).countFin k segment arrival.place state)).conns j).sndNxt =
        (t.conns j).sndNxt := by
    intro state which
    rw [replyAck_sndNxt _ k, countFin_sndNxt, acked]
    by_cases same : j = k
    · subst same
      rw [countFin_state_self]
      exact .inr (which.resolve_left fun other => other rfl)
    · rw [countFin_state_of_ne same]
      exact liveAcked
  cases state : (t.conns k).state with
  | closed | listen | synSent => rfl
  | synRcvd =>
    dsimp only
    rw [admitted, modify_sndNxt j k]
    exact fun _ => rfl
  | established => exact counted _ (.inr rfl)
  | finWait1 =>
    have other : j ≠ k := fun same => by simp [same, state] at liveReached
    simp only [true_and] at still ⊢
    rw [if_neg (by simpa using still)]
    exact counted _ (.inl other)
  | finWait2 =>
    have other : j ≠ k := fun same => by simp [same, state] at liveReached
    simp only [free, log_conns, modify_conns_of_ne _ other]
    exact counted _ (.inl other)
  | closeWait =>
    dsimp only
    rw [ackedInCloseWait, turn, modify_sndNxt j k, note_conns, Stack.acked, log_conns,
      modify_sndNxt j k]
    · exact fun c => c.applyAck_sndNxt _
    · exact fun _ => rfl
  | lastAck | closing =>
    have other : j ≠ k := fun same => by simp [same, state] at liveReached
    simp only [free, log_conns, modify_conns_of_ne _ other]

theorem finInput_sndNxt (parsed : Segment.parse arrival.data = some segment)
    (flags : segment.flags = flagFin ||| flagAck) (empty : segment.payload = [])
    (live : (s.conns j).state = .established ∨ (s.conns j).state = .closeWait) :
    ((input depth arrival s).conns j).sndNxt = (s.conns j).sndNxt := by
  have syn : has segment.flags flagSyn = false := by rw [flags]; decide
  cases depth with
  | zero => rfl
  | succ depth =>
    simp only [input, inputWith, parsed, syn, Bool.false_and, Bool.false_eq_true, if_false]
    cases s.findTuple segment.dport segment.sport arrival.peerIp with
    | none => rfl
    | some k => exact finHandled_sndNxt flags empty live k

/-- Sending a FIN does not renumber the connection under the hands of `close`. -/
theorem finSent_sndNxt (depth : Nat)
    (live : (s.conns j).state = .established ∨ (s.conns j).state = .closeWait)
    (i : Slot) (seq : Seq) :
    ((tcpSendSeq (input depth) i seq (flagFin ||| flagAck) [] s).2.conns j).sndNxt =
      (s.conns j).sndNxt := by
  have same : ∀ place, (s.noteSent i (s.outgoing i seq (flagFin ||| flagAck) []) place).conns =
      s.conns := by
    intro place
    unfold noteSent
    split_ifs <;> rfl
  rcases tcpSendSeq_eq (input depth) s i seq (flagFin ||| flagAck) [] with
    refused | taken | ⟨arrival, parsed, looped⟩
  · rw [refused]
    rfl
  · rw [taken, framed_conns, same]
  · rw [looped, finInput_sndNxt parsed rfl rfl (by rwa [same]), same]

/-- In a closing state of any connection its FIN was sent and is counted. -/
def FinsCounted (s : Stack) : Prop := ∀ j, FinCounted (s.conns j) (s.history.ledger j)

/-- No acknowledgement reaches a connection in CLOSE_WAIT but through the FIN that
its own `close` sends. -/
def FinFirst (s : Stack) (call : Call) : Prop :=
  ∀ j, .closeWaitAck j ∈ (s.perform call).history.events → call = .close j

theorem excused_begin (counted : s.FinsCounted) : Each Excused (fun _ => True) s.begin :=
  ⟨fun j => .inr (counted j), trivial⟩

theorem excused_send (each : Each Excused (fun _ => True) s) (i : Slot) (data : List Byte) :
    Each Excused (fun _ => True) (s.send i data).2 := by
  by_cases ready : s.SendReady i data
  swap
  · rw [send_not_ready ready]
    exact each
  have filled : Each Excused (fun _ => True) (s.fillOut i data) := each.write fun excused => excused
  rw [send_ready ready, tcpSend, fillOut_sndNxt]
  by_cases goes : s.Transmits i
  swap
  · rw [tcpSendSeq_refused (mt fillOut_transmits.mp goes)]
    have framed : Each Excused (fun _ => True) (s.fillOut i data).framed := ⟨filled.slots, trivial⟩
    have cleared : Each Excused (fun _ => True)
        ((s.fillOut i data).framed.modify i fun c => { c with out := [] }) :=
      framed.change fun excused => excused
    exact cleared
  have waiting : Waiting i (s.fillOut i data).history.events ((s.fillOut i data).conns i)
      ((s.fillOut i data).history.ledger i) := by
    refine .inr fun ending => ?_
    rcases ready.state with state | state <;> simp [fillOut, state, ConnState.Ending] at ending
  have after : Each Excused (fun _ => True) (tcpSendSeq (input loopDepth) i (s.conns i).sndNxt
      (flagPsh ||| flagAck) data (s.fillOut i data)).2 := excused_tended.toAttended.transmit filled
  have waitingAfter := waiting_attended.transmitOnly trivial waiting loopDepth i
    (s.conns i).sndNxt (flagPsh ||| flagAck) data
  have ok := (tcpSendSeq_ok (input loopDepth) (s.fillOut i data) i (s.conns i).sndNxt
    (flagPsh ||| flagAck) data).mpr (fillOut_transmits.mpr goes)
  generalize tcpSendSeq (input loopDepth) i (s.conns i).sndNxt (flagPsh ||| flagAck) data
    (s.fillOut i data) = result at ok after waitingAfter ⊢
  obtain ⟨sent, t⟩ := result
  subst ok
  simp only [if_true] at after waitingAfter ⊢
  exact after.write fun _ => waitingAfter.excused _ _

/-- After the FIN of slot `i` the other slots are excused and slot `i` is in order. -/
theorem finCounted_sendFin (each : Each Excused (fun _ => True) s) {i : Slot}
    (live : (s.conns i).state = .established ∨ (s.conns i).state = .closeWait)
    (state : ConnState) :
    Each (fun j events c l => if j = i then FinCounted c l else Excused j events c l)
      (fun _ => True) (s.sendFin i state) := by
  have unended : FinCounted (s.conns i) (s.history.ledger i) := by
    refine finCounted_of_not_ending fun ending => ?_
    rcases live with was | was <;> simp [was, ConnState.Ending] at ending
  unfold sendFin tcpSend
  by_cases goes : s.Transmits i
  swap
  · rw [tcpSendSeq_refused goes]
    simp only [Bool.false_eq_true, if_false]
    refine ⟨fun j => ?_, trivial⟩
    by_cases same : j = i
    · subst same
      rw [if_pos rfl]
      exact unended
    · rw [if_neg same]
      exact each.slots j
  have after : Each Excused (fun _ => True) (tcpSendSeq (input loopDepth) i (s.conns i).sndNxt
      (flagFin ||| flagAck) [] s).2 := excused_tended.toAttended.transmit each
  have sndNxt := finSent_sndNxt loopDepth live i (s.conns i).sndNxt
  have ok := (tcpSendSeq_ok (input loopDepth) s i (s.conns i).sndNxt
    (flagFin ||| flagAck) []).mpr goes
  generalize tcpSendSeq (input loopDepth) i (s.conns i).sndNxt (flagFin ||| flagAck) [] s =
    result at ok after sndNxt ⊢
  obtain ⟨sent, t⟩ := result
  subst ok
  simp only [if_true] at after sndNxt ⊢
  refine ⟨fun j => ?_, trivial⟩
  by_cases same : j = i
  · subst same
    rw [if_pos rfl]
    intro _
    exact ⟨(s.conns j).sndNxt, by simp, by simp [sndNxt]⟩
  · rw [if_neg same]
    simpa [same] using after.slots j

/-- One call. -/
theorem finsCounted_perform (counted : s.FinsCounted) {call : Call} (first : s.FinFirst call) :
    (s.perform call).FinsCounted := by
  have begun := excused_begin counted
  have settle : Each Excused (fun _ => True) (s.perform call) →
      (∀ j, call ≠ .close j) → (s.perform call).FinsCounted := fun each notClose j =>
    (each.slots j).resolve_left fun seen => notClose j (first j seen)
  cases call with
  | send i data => exact settle (excused_send begun i data) nofun
  | close i =>
    have settleFin : ∀ state, s.perform (.close i) = s.begin.sendFin i state →
        (s.begin.conns i).state = .established ∨ (s.begin.conns i).state = .closeWait →
        (s.perform (.close i)).FinsCounted := by
      intro state eq live j
      have each := finCounted_sendFin begun live state
      rw [← eq] at each
      have atSlot := each.slots j
      by_cases same : j = i
      · rwa [if_pos same] at atSlot
      · rw [if_neg same] at atSlot
        exact atSlot.resolve_left fun seen => same (Call.close.inj (first j seen)).symm
    have closing : s.perform (.close i) = s.begin.close i := rfl
    cases state : (s.begin.conns i).state with
    | established =>
      exact settleFin .finWait1 (by rw [closing, Stack.close, state]) (.inl state)
    | closeWait => exact settleFin .lastAck (by rw [closing, Stack.close, state]) (.inr state)
    | _ =>
      have eq : s.perform (.close i) = s.begin.free i := by rw [closing, Stack.close, state]
      have each := excused_tended.freeConn begun i
      rw [← eq] at each
      have silent : (s.perform (.close i)).history.events = [] := by rw [eq]; rfl
      exact fun j => (each.slots j).resolve_left (by simp [silent])
  | _ => exact settle (excused_tended.perform begun _ nofun nofun) nofun

/-- In a run whose acknowledgements reach no connection in CLOSE_WAIT but through the
FIN of its own `close`, every connection in a closing state has sent a FIN through
`close`, and `snd_nxt` counts it. -/
theorem finsCounted_throughout {accepts : Nat → Bool} {ownIp : Ipv4} {mac : Mac}
    {taken : List (Transition Stack Call)} {final : Stack}
    (trace : Trace Step (boot accepts ownIp mac) taken final) (first : Guarded FinFirst taken) :
    Throughout FinsCounted (boot accepts ownIp mac) taken := by
  refine trace.throughout_of_guarded FinsCounted ?_ ?_ first
  · exact fun _ => finCounted_of_not_ending (show ¬ ConnState.closed.Ending by decide)
  · intro before call after counted first performed
    obtain rfl : before.perform call = after := performed
    exact finsCounted_perform counted first

instance (s : Stack) : (call : Call) → Decidable (s.FinFirst call) := fun _ =>
  inferInstanceAs (Decidable (∀ _ : Slot, _ → _))

/-- Both ends of a looped connection close, the client first. -/
theorem finsCounted_loop : ∃ taken final,
    Trace Step (boot (fun _ => true) ownAddress ownMac) taken final ∧
    (final.conns 1).state = .closing ∧ (final.conns 2).state = .lastAck ∧
    Throughout FinsCounted (boot (fun _ => true) ownAddress ownMac) taken := by
  obtain ⟨⟨taken, final⟩, recorded, first, client, server⟩ :
      ∃ ran ∈ (boot (fun _ => true) ownAddress ownMac).run [.listen 9100,
          .connect ownAddress 9100 [] ownMac, .send 2 [67], .close 1, .close 2],
        (∀ transition ∈ ran.1, FinFirst transition.before transition.label) ∧
            (ran.2.conns 1).state = .closing ∧ (ran.2.conns 2).state = .lastAck := by
    decide +kernel
  have trace := trace_of_run recorded
  exact ⟨taken, final, trace, client, server, finsCounted_throughout trace first⟩

/-- The peer closes, and its next acknowledgement turns the server to LAST_ACK. -/
theorem lastAck_without_fin : ¬ ∀ taken final,
    Trace Step (boot (fun _ => true) ownAddress ownMac) taken final →
    Throughout FinsCounted (boot (fun _ => true) ownAddress ownMac) taken := by
  intro always
  obtain ⟨⟨taken, final⟩, recorded, state, unsent⟩ :
      ∃ ran ∈ (boot (fun _ => true) ownAddress ownMac).run [.listen 80,
          .input (fromHost 100 0 flagSyn [] 0), .input (fromHost 101 0x12345679 flagAck [] 0),
          .input (fromHost 101 0x12345679 (flagFin ||| flagAck) [] 0),
          .input (fromHost 102 0x12345679 flagAck [] 0)],
        (ran.2.conns 1).state = .lastAck ∧ (ran.2.history.ledger 1).fin = none := by
    decide +kernel
  have trace := trace_of_run recorded
  obtain ⟨seq, sent, -⟩ := trace.final_of_throughout (always taken final trace) 1
    (.inr (.inr (.inr state)))
  exact absurd (unsent.symm.trans sent) (by simp)

end Stack

end DBSos.Net.Tcp
