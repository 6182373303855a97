import DBSos.Net.Closing

/-!
# Behind our FIN

`apply_ack` moves `snd_una` up to the acknowledgement before the FIN_WAIT1 arm compares the
two, so that the arm never sees its FIN acknowledged. A connection goes on to CLOSING with the
peer's FIN, and its slot is freed only by one more segment with ACK.
-/

namespace DBSos.Net.Tcp

/-- The segments that reach slot `i`, out of the notes. -/
def heardBy (i : Slot) (events : List Event) : List Segment :=
  events.filterMap fun event =>
    match event with
    | .handled j _ segment _ => if j = i then some segment else none
    | _ => none

@[simp] theorem heardBy_append (i : Slot) (events more : List Event) :
    heardBy i (events ++ more) = heardBy i events ++ heardBy i more := List.filterMap_append

@[simp] theorem heardBy_handled (i : Slot) (born : Nat) (segment : Segment) (place : Nat) :
    heardBy i [.handled i born segment place] = [segment] := by simp [heardBy]

theorem heardBy_handled_of_ne {i k : Slot} (other : i ≠ k) (born : Nat) (segment : Segment)
    (place : Nat) : heardBy i [.handled k born segment place] = [] := by
  simp [heardBy, other.symm]

/-! ## What frees the slot -/

/-- How far the closing of a connection has come that has sent its FIN. -/
inductive Phase where
  | finSent
  | bothSent
  | freed
deriving DecidableEq

namespace Phase

/-- A segment reaches the connection. -/
def next : Phase → Segment → Phase
  | .finSent, segment =>
    if has segment.flags flagRst then .freed
    else if has segment.flags flagFin then .bothSent
    else .finSent
  | .bothSent, segment =>
    if has segment.flags flagRst || has segment.flags flagAck then .freed else .bothSent
  | .freed, _ => .freed

/-- A connection in a phase. -/
def Stands : Phase → Conn → Prop
  | .finSent, c => c.inUse = true ∧ c.state = .finWait1
  | .bothSent, c => c.inUse = true ∧ c.state = .closing
  | .freed, c => c.inUse = false ∧ c.state = .closed

variable {phase : Phase} {c : Conn}

theorem Stands.freed_iff (stands : phase.Stands c) : c.inUse = false ↔ phase = .freed := by
  cases phase with
  | finSent | bothSent => simp [stands.1]
  | freed => simp [stands.1]

theorem Stands.not_finWait2 (stands : phase.Stands c) : c.state ≠ .finWait2 := by
  cases phase <;> rw [stands.2] <;> decide

/-- A connection stays in its phase while it is in use and in its state. -/
theorem Stands.congr {d : Conn} (stands : phase.Stands c) (inUse : d.inUse = c.inUse)
    (state : d.state = c.state) : phase.Stands d := by
  cases phase <;> exact ⟨inUse.trans stands.1, state.trans stands.2⟩

end Phase

/-- A reset has come, or a FIN and behind it an acknowledgement. -/
def Settled (heard : List Segment) : Prop :=
  (∃ segment ∈ heard, has segment.flags flagRst = true) ∨
    ∃ fin ack, [fin, ack].Sublist heard ∧ has fin.flags flagFin = true ∧
      has ack.flags flagAck = true

theorem foldl_next_freed (heard : List Segment) :
    heard.foldl Phase.next .freed = .freed := by
  induction heard with
  | nil => rfl
  | cons segment rest ih => exact ih

theorem foldl_next_bothSent (heard : List Segment) :
    heard.foldl Phase.next .bothSent = .freed ↔
      ∃ segment ∈ heard, has segment.flags flagRst = true ∨ has segment.flags flagAck = true := by
  induction heard with
  | nil => simp
  | cons segment rest ih =>
    rw [List.foldl_cons, Phase.next, List.exists_mem_cons_iff]
    split_ifs with done
    · rw [Bool.or_eq_true] at done
      exact iff_of_true (foldl_next_freed rest) (.inl done)
    · rw [Bool.or_eq_true] at done
      rw [ih, or_iff_right done]

/-- A FIN in front of what is heard later. -/
theorem settled_cons_fin {segment : Segment} {rest : List Segment}
    (fin : has segment.flags flagFin = true) (alive : ¬ has segment.flags flagRst = true) :
    Settled (segment :: rest) ↔
      ∃ later ∈ rest, has later.flags flagRst = true ∨ has later.flags flagAck = true := by
  constructor
  · rintro (⟨reset, member, rst⟩ | ⟨other, ack, inOrder, -, acks⟩)
    · rcases List.mem_cons.mp member with rfl | later
      · exact absurd rst alive
      · exact ⟨reset, later, .inl rst⟩
    · have behind : [ack].Sublist rest := (List.Sublist.tail inOrder)
      exact ⟨ack, List.singleton_sublist.mp behind, .inr acks⟩
  · rintro ⟨later, member, rst | acks⟩
    · exact .inl ⟨later, List.mem_cons_of_mem _ member, rst⟩
    · exact .inr ⟨segment, later, (List.singleton_sublist.mpr member).cons_cons _, fin, acks⟩

theorem settled_cons_plain {segment : Segment} {rest : List Segment}
    (plain : ¬ has segment.flags flagFin = true) (alive : ¬ has segment.flags flagRst = true) :
    Settled (segment :: rest) ↔ Settled rest := by
  constructor
  · rintro (⟨reset, member, rst⟩ | ⟨fin, ack, inOrder, fins, acks⟩)
    · rcases List.mem_cons.mp member with rfl | later
      · exact absurd rst alive
      · exact .inl ⟨reset, later, rst⟩
    · cases inOrder with
      | cons _ later => exact .inr ⟨fin, ack, later, fins, acks⟩
      | cons_cons _ later => exact absurd fins plain
  · rintro (⟨reset, member, rst⟩ | ⟨fin, ack, inOrder, fins, acks⟩)
    · exact .inl ⟨reset, List.mem_cons_of_mem _ member, rst⟩
    · exact .inr ⟨fin, ack, inOrder.cons _, fins, acks⟩

/-- The phases end with the slot freed exactly behind such segments. -/
theorem foldl_next_freed_iff (heard : List Segment) :
    heard.foldl Phase.next .finSent = .freed ↔ Settled heard := by
  induction heard with
  | nil => simp [Settled]
  | cons segment rest ih =>
    rw [List.foldl_cons, Phase.next]
    split_ifs with rst fin
    · exact iff_of_true (foldl_next_freed rest) (.inl ⟨segment, List.mem_cons_self, rst⟩)
    · rw [foldl_next_bothSent, settled_cons_fin fin rst]
    · rw [ih, settled_cons_plain fin rst]

namespace Stack

variable {s t u : Stack} {i k : Slot} {arrival : Arrival} {segment : Segment} {phase : Phase}
  {depth : Nat} {loop : Arrival → Stack → Stack}

/-- A call notes what it handles, and leaves slot `i` in the phase that what reached it there
leads to. -/
def Follows (i : Slot) (phase : Phase) (s t : Stack) : Prop :=
  ∃ new, t.history.events = s.history.events ++ new ∧
    ((heardBy i new).foldl Phase.next phase).Stands (t.conns i)

/-- Nothing reaches the slot. -/
theorem follows_quiet {new : List Event} (events : t.history.events = s.history.events ++ new)
    (silent : heardBy i new = []) (stands : phase.Stands (t.conns i)) : Follows i phase s t :=
  ⟨new, events, by rwa [silent]⟩

/-- One segment reaches the slot. -/
theorem follows_handled {born place : Nat}
    (events : t.history.events = s.history.events ++ [.handled i born segment place])
    (stands : (phase.next segment).Stands (t.conns i)) : Follows i phase s t :=
  ⟨_, events, by rwa [heardBy_handled]⟩

theorem reached_events (s : Stack) (i : Slot) (arrival : Arrival) (segment : Segment) :
    (s.reached i arrival segment).history.events =
      s.history.events ++ [.handled i (s.history.ledger i).born segment arrival.place] := rfl

theorem reached_inUse (s : Stack) (i : Slot) (arrival : Arrival) (segment : Segment) :
    ((s.reached i arrival segment).conns i).inUse = (s.conns i).inUse := by
  simp [reached]

theorem acked_stands (stands : phase.Stands (s.conns i)) (ack : Seq) :
    phase.Stands ((s.acked i ack).conns i) := by
  obtain ⟨_, _, _, _, shape⟩ := (s.conns i).applyAck_shape ack
  refine stands.congr ?_ (by simp [acked])
  rw [acked, log_conns, modify_conns_self, shape]

/-- What `onAck` notes is nothing that is heard. -/
theorem onAck_events (s : Stack) (k : Slot) (segment : Segment) :
    ∃ more, (s.onAck k segment).history.events = s.history.events ++ more ∧
      ∀ i, heardBy i more = [] := by
  unfold onAck
  cases (s.conns k).state with
  | closeWait =>
    exact ⟨[.closeWaitAck k], by simp [ackedInCloseWait, turn, acked], fun _ => rfl⟩
  | _ => exact ⟨[], by simp [admitted, acked, free], fun _ => rfl⟩

/-- A bare acknowledgement that reaches some slot. -/
theorem follows_onAck (bare : BareAck segment) (stands : phase.Stands (s.conns i)) (k : Slot) :
    Follows i phase s ((s.reached k arrival segment).onAck k segment) := by
  obtain ⟨more, events, silent⟩ := onAck_events (s.reached k arrival segment) k segment
  by_cases same : i = k
  · subst same
    have ack : has segment.flags flagAck = true := by rw [bare.flags]; rfl
    have fin : has segment.flags flagFin = false := by rw [bare.flags]; rfl
    have rst : has segment.flags flagRst = false := by rw [bare.flags]; rfl
    have reached : phase.Stands ((s.reached i arrival segment).conns i) :=
      stands.congr (reached_inUse s i arrival segment) (by simp)
    refine ⟨_ :: more, by rw [events, reached_events, List.append_assoc]; rfl, ?_⟩
    rw [← List.singleton_append, heardBy_append, heardBy_handled, silent, List.append_nil,
      List.foldl_cons, List.foldl_nil, Phase.next.eq_def]
    unfold onAck
    cases phase with
    | finSent =>
      rw [reached.2]
      simp only [fin, rst, Bool.false_eq_true, if_false]
      exact acked_stands reached segment.ack
    | bothSent =>
      rw [reached.2]
      simp only [ack, Bool.or_true, if_true]
      exact ⟨by simp [free, Conn.empty], by simp [free, Conn.empty]⟩
    | freed =>
      rw [reached.2]
      exact reached
  · refine ⟨_ :: more, by rw [events, reached_events, List.append_assoc]; rfl, ?_⟩
    rw [← List.singleton_append, heardBy_append, heardBy_handled_of_ne same, silent,
      onAck_conns_of_ne _ same, reached_conns_of_ne _ same]
    exact stands

/-- So does a reply, wherever it comes back. -/
theorem follows_replyAck (stands : phase.Stands (s.conns i)) (k : Slot) :
    Follows i phase s (replyAck (input depth) k s) := by
  have quiet : Follows i phase s s := follows_quiet (List.append_nil _).symm rfl stands
  rcases replyAck_eq (input depth) s k with framed | ⟨arrival, segment, parsed, bare, looped⟩
  · rw [framed]
    exact quiet
  · rw [looped]
    rcases input_ack_eq depth parsed bare with missed | ⟨j, handled⟩
    · rw [missed]
      exact quiet
    · rw [handled]
      exact follows_onAck bare stands j

theorem Follows.trans {new : List Event} (events : t.history.events = s.history.events ++ new)
    (rest : Follows i ((heardBy i new).foldl Phase.next phase) t u) : Follows i phase s u := by
  obtain ⟨more, later, stands⟩ := rest
  refine ⟨new ++ more, by rw [later, events, List.append_assoc], ?_⟩
  rwa [heardBy_append, List.foldl_append]

theorem free_stands (s : Stack) (i : Slot) : Phase.freed.Stands ((s.free i).conns i) := by
  constructor <;> simp [free, Conn.empty]

theorem ackedIf_stands (stands : phase.Stands (s.conns i)) (segment : Segment) :
    phase.Stands ((s.ackedIf i segment).conns i) := by
  unfold ackedIf
  split_ifs
  · exact acked_stands stands _
  · exact stands

theorem countFin_events (s : Stack) (i : Slot) (segment : Segment) (place : Nat)
    (state : ConnState) : ∃ finAt before fins,
      (s.countFin i segment place state).history.events =
        s.history.events ++ [.peerFin i (s.history.ledger i).born finAt before fins] := by
  exact ⟨_, _, _, rfl⟩

theorem countFin_inUse (s : Stack) (i : Slot) (segment : Segment) (place : Nat)
    (state : ConnState) :
    ((s.countFin i segment place state).conns i).inUse = (s.conns i).inUse := by
  simp [countFin]

/-- The FIN_WAIT1 arm on a segment that is no reset. -/
theorem handleSegment_finWait1 (state : (s.conns i).state = .finWait1)
    (alive : has segment.flags flagRst = false) :
    handleSegment loop i arrival segment s =
      if has segment.flags flagFin then
        replyAck loop i (((s.reached i arrival segment).ackedIf i segment).countFin i segment
          arrival.place .closing)
      else (s.reached i arrival segment).ackedIf i segment := by
  have reached : ((s.reached i arrival segment).conns i).state = .finWait1 := by simpa using state
  have acked : (((s.reached i arrival segment).ackedIf i segment).conns i).state = .finWait1 := by
    simpa using state
  unfold handleSegment
  simp only [alive, Bool.false_eq_true, if_false, reached]
  rw [if_neg (stays_finWait1 _ i segment), if_pos acked]

/-- A segment that reaches the slot leads to the next phase. -/
theorem follows_handleSegment (stands : phase.Stands (s.conns i)) :
    Follows i phase s (handleSegment (input depth) i arrival segment s) := by
  have reached : phase.Stands ((s.reached i arrival segment).conns i) :=
    stands.congr (reached_inUse s i arrival segment) (by simp)
  by_cases rst : has segment.flags flagRst = true
  · have freed : handleSegment (input depth) i arrival segment s =
        (s.reached i arrival segment).free i := by
      unfold handleSegment
      exact if_pos rst
    rw [freed]
    refine follows_handled (reached_events s i arrival segment) ?_
    have ends : phase.next segment = .freed := by cases phase <;> simp [Phase.next, rst]
    rw [ends]
    exact free_stands _ i
  have alive : has segment.flags flagRst = false := by simpa using rst
  cases phase with
  | finSent =>
    rw [handleSegment_finWait1 stands.2 alive]
    have ackedEvents := ackedIf_events (s.reached i arrival segment) i segment
    split_ifs with fin
    · obtain ⟨finAt, before, fins, counted⟩ := countFin_events
        ((s.reached i arrival segment).ackedIf i segment) i segment arrival.place .closing
      rw [ackedEvents, reached_events, List.append_assoc] at counted
      refine Follows.trans counted ?_
      have both : (heardBy i ([.handled i (s.history.ledger i).born segment arrival.place] ++
          [.peerFin i (((s.reached i arrival segment).ackedIf i segment).history.ledger i).born
            finAt before fins])).foldl Phase.next .finSent = .bothSent := by
        rw [heardBy_append, heardBy_handled]
        simp [heardBy, Phase.next, alive, fin]
      rw [both]
      have bothSent : Phase.bothSent.Stands ((((s.reached i arrival segment).ackedIf i
          segment).countFin i segment arrival.place .closing).conns i) := by
        refine ⟨?_, countFin_state_self i _ _⟩
        rw [countFin_inUse]
        exact (ackedIf_stands reached segment).1
      exact follows_replyAck bothSent i
    · refine follows_handled (by rw [ackedEvents, reached_events]) ?_
      have stays : Phase.finSent.next segment = .finSent := by simp [Phase.next, alive, fin]
      rw [stays]
      exact ackedIf_stands reached segment
  | bothSent =>
    have closing := reached.2
    unfold handleSegment
    simp only [alive, Bool.false_eq_true, if_false, closing]
    split_ifs with ack
    · refine follows_handled (reached_events s i arrival segment) ?_
      have ends : Phase.bothSent.next segment = .freed := by simp [Phase.next, ack]
      rw [ends]
      exact free_stands _ i
    · refine follows_handled (reached_events s i arrival segment) ?_
      have stays : Phase.bothSent.next segment = .bothSent := by simp [Phase.next, alive, ack]
      rw [stays]
      exact reached
  | freed =>
    have closed := reached.2
    unfold handleSegment
    simp only [alive, Bool.false_eq_true, if_false, closed]
    exact follows_handled (reached_events s i arrival segment) reached

/-! ## Runs -/

/-- The segments that reach slot `i` between two states, out of the notes. -/
def heardSince (i : Slot) (s t : Stack) : List Segment :=
  heardBy i (t.history.events.drop s.history.events.length)

/-- A run behind a FIN: segments reach slot `i`, in any order, and between them anything happens
that leaves the connection in use and in its state. -/
inductive Run (i : Slot) (s : Stack) : List Segment → Stack → Prop
  | nil : Run i s [] s
  | deliver {heard t} (prior : Run i s heard t) (depth : Nat) (arrival : Arrival)
      (segment : Segment) :
      Run i s (heard ++ heardSince i t (handleSegment (input depth) i arrival segment t))
        (handleSegment (input depth) i arrival segment t)
  | elsewhere {heard t u} (prior : Run i s heard t)
      (inUse : (u.conns i).inUse = (t.conns i).inUse)
      (state : (u.conns i).state = (t.conns i).state) : Run i s heard u

/-- A run ends in the phase that the segments lead to. -/
theorem Run.stands {heard : List Segment} (run : Run i s heard t)
    (start : phase.Stands (s.conns i)) : (heard.foldl Phase.next phase).Stands (t.conns i) := by
  induction run with
  | nil => exact start
  | deliver prior depth arrival segment ih =>
    obtain ⟨new, events, stands⟩ :
        Follows i _ _ (handleSegment (input depth) i arrival segment _) :=
      follows_handleSegment ih
    rwa [heardSince, events, List.drop_left, List.foldl_append]
  | elsewhere prior inUse state ih =>
    exact ih.congr inUse state

/-! ## One segment -/

/-- A reply of the connection in slot `i` comes back to it. -/
def AnswersItself (s : Stack) (i : Slot) : Prop :=
  (s.conns i).peerIp = s.ownIp ∧
    s.findTuple (s.conns i).remotePort (s.conns i).localPort s.ownIp = some i

/-- What tells the connections apart. -/
def SameTuples (s t : Stack) : Prop :=
  t.ownIp = s.ownIp ∧ ∀ j, (t.conns j).inUse = (s.conns j).inUse ∧
    (t.conns j).localPort = (s.conns j).localPort ∧
    (t.conns j).remotePort = (s.conns j).remotePort ∧ (t.conns j).peerIp = (s.conns j).peerIp

theorem SameTuples.answersItself_iff (same : SameTuples s t) :
    t.AnswersItself i ↔ s.AnswersItself i := by
  obtain ⟨own, tuples⟩ := same
  have found : ∀ lport rport peer, t.findTuple lport rport peer = s.findTuple lport rport peer := by
    intro lport rport peer
    unfold findTuple
    congr 1
    funext j
    obtain ⟨inUse, localPort, remotePort, peerIp⟩ := tuples j
    simp only [inUse, localPort, remotePort, peerIp]
  obtain ⟨-, localPort, remotePort, peerIp⟩ := tuples i
  rw [AnswersItself, AnswersItself, found, own, localPort, remotePort, peerIp]

theorem ackedIf_sameTuples (s : Stack) (i : Slot) (segment : Segment) :
    SameTuples s (s.ackedIf i segment) := by
  unfold ackedIf
  split_ifs
  · refine ⟨rfl, fun j => ?_⟩
    by_cases same : j = i
    · subst same
      obtain ⟨_, _, _, _, shape⟩ := (s.conns j).applyAck_shape segment.ack
      rw [acked, log_conns, modify_conns_self, shape]
      exact ⟨rfl, rfl, rfl, rfl⟩
    · rw [acked, log_conns, modify_conns_of_ne _ same]
      exact ⟨rfl, rfl, rfl, rfl⟩
  · exact ⟨rfl, fun _ => ⟨rfl, rfl, rfl, rfl⟩⟩

theorem countFin_sameTuples (s : Stack) (i : Slot) (segment : Segment) (place : Nat)
    (state : ConnState) : SameTuples s (s.countFin i segment place state) := by
  refine ⟨rfl, fun j => ?_⟩
  by_cases same : j = i
  · subst same
    simp [countFin]
  · simp [countFin, same]

/-- A reply from CLOSING frees the slot if it comes back to it, and leaves it alone else. -/
theorem replyAck_frees_iff (state : (s.conns i).state = .closing)
    (used : (s.conns i).inUse = true) :
    ((replyAck (input (depth + 1)) i s).conns i).inUse = false ↔ s.AnswersItself i := by
  have bare := s.outgoing_bare i (s.conns i).sndNxt
  unfold replyAck tcpSend tcpSendSeq AnswersItself
  by_cases own : (s.conns i).peerIp = s.ownIp
  · simp only [own, if_true, true_and, noteSent_bare bare, input, inputWith,
      Segment.parse_encode]
    have syn : has flagAck flagSyn = false := rfl
    simp only [outgoing, syn, Bool.false_and, Bool.false_eq_true, if_false]
    cases found : s.findTuple (s.conns i).remotePort (s.conns i).localPort s.ownIp with
    | none => simp [used]
    | some k =>
      dsimp only
      rw [handleSegment_ack ⟨rfl, rfl⟩, Option.some_inj]
      by_cases same : k = i
      · subst same
        simp [onAck, state, free, Conn.empty]
      · rw [onAck_conns_of_ne _ (Ne.symm same), reached_conns_of_ne _ (Ne.symm same)]
        simp [used, same]
  · simp only [own, if_false, false_and, iff_false]
    split_ifs <;> simp [noteSent_bare bare, used]

/-- A segment that acknowledges our FIN moves the connection on: with the peer's FIN its slot is
freed, without one it is in FIN_WAIT2. -/
def MovesOn (i : Slot) (segment : Segment) (t : Stack) : Prop :=
  (has segment.flags flagFin = true → (t.conns i).inUse = false) ∧
    (has segment.flags flagFin = false → (t.conns i).state = .finWait2)

/-- No acknowledgement of our FIN takes the connection to FIN_WAIT2, and one with the peer's FIN
frees its slot only as a reset or where the reply comes back to it. -/
theorem movesOn_iff (state : (s.conns i).state = .finWait1) (used : (s.conns i).inUse = true) :
    MovesOn i segment (handleSegment (input (depth + 1)) i arrival segment s) ↔
      has segment.flags flagFin = true ∧
        (has segment.flags flagRst = true ∨ (s.reached i arrival segment).AnswersItself i) := by
  have start : Phase.finSent.Stands (s.conns i) := ⟨used, state⟩
  obtain ⟨new, -, stands⟩ : Follows i .finSent s
      (handleSegment (input (depth + 1)) i arrival segment s) := follows_handleSegment start
  have never := stands.not_finWait2
  cases fin : has segment.flags flagFin with
  | false =>
    refine iff_of_false (fun moves => never (moves.2 fin)) ?_
    rintro ⟨impossible, -⟩
    cases impossible
  | true =>
    have moves : MovesOn i segment (handleSegment (input (depth + 1)) i arrival segment s) ↔
        ((handleSegment (input (depth + 1)) i arrival segment s).conns i).inUse = false := by
      simp [MovesOn, fin]
    rw [moves]
    cases rst : has segment.flags flagRst with
    | true =>
      refine iff_of_true ?_ ⟨rfl, .inl rfl⟩
      unfold handleSegment
      simp [rst, free, Conn.empty]
    | false =>
      rw [handleSegment_finWait1 state rst, if_pos fin,
        replyAck_frees_iff (countFin_state_self i _ _)]
      · rw [(countFin_sameTuples _ i segment arrival.place _).answersItself_iff,
          (ackedIf_sameTuples _ i segment).answersItself_iff]
        simp
      · rw [countFin_inUse]
        have reached : Phase.finSent.Stands ((s.reached i arrival segment).conns i) :=
          start.congr (reached_inUse s i arrival segment) (by simp)
        exact (ackedIf_stands reached segment).1

/-- Among what is heard are an acknowledgement of our FIN and the peer's FIN. -/
def BothArrived (sndNxt : Seq) (heard : List Segment) : Prop :=
  (∃ segment ∈ heard, has segment.flags flagAck = true ∧ segment.ack = sndNxt) ∧
    ∃ segment ∈ heard, has segment.flags flagFin = true

/-- From FIN_WAIT1, an acknowledgement of our FIN moves the connection on only with the peer's
FIN, in a reset or with a reply that comes back; and at the end of every run the slot is free
exactly if a reset has come, or the peer's FIN and behind it one more acknowledgement. -/
theorem finWait1_closes_iff (state : (s.conns i).state = .finWait1)
    (used : (s.conns i).inUse = true) :
    (∀ depth arrival segment, has segment.flags flagAck = true →
      segment.ack = (s.conns i).sndNxt →
      (MovesOn i segment (handleSegment (input (depth + 1)) i arrival segment s) ↔
        has segment.flags flagFin = true ∧
          (has segment.flags flagRst = true ∨ (s.reached i arrival segment).AnswersItself i))) ∧
    ∀ heard t, Run i s heard t →
      (t.conns i).state ≠ .finWait2 ∧ ((t.conns i).inUse = false ↔ Settled heard) := by
  refine ⟨fun depth arrival segment _ _ => movesOn_iff state used, fun heard t run => ?_⟩
  have start : Phase.finSent.Stands (s.conns i) := ⟨used, state⟩
  have stands := run.stands start
  exact ⟨stands.not_finWait2, stands.freed_iff.trans (foldl_next_freed_iff heard)⟩

/-- A server that has accepted a connection and closed it. -/
def halfClosed : Stack :=
  [.listen 80, .input (fromHost 100 0 flagSyn [] 0), .input (fromHost 101 0x12345679 flagAck [] 0),
    .close 1].foldl perform (boot (fun _ => true) ownAddress ownMac)

/-- A segment of its peer that acknowledges the FIN. -/
def fromPeer (flags : Byte) : Segment := ⟨5000, 80, 101, 0x1234567A, flags, []⟩

/-- It reaches the server's slot. -/
def hear (flags : Byte) (s : Stack) : Stack :=
  handleSegment (input 2) 1 (fromHost 101 0x1234567A flags [] 0) (fromPeer flags) s

/-- The peer's FIN and then its acknowledgement free the slot. -/
theorem fin_then_ack_frees :
    ((hear flagAck (hear flagFin halfClosed)).conns 1).inUse = false := by
  have run := (Run.nil (i := 1) (s := halfClosed)).deliver 2
    (fromHost 101 0x1234567A flagFin [] 0) (fromPeer flagFin) |>.deliver 2
    (fromHost 101 0x1234567A flagAck [] 0) (fromPeer flagAck)
  refine (((finWait1_closes_iff (by decide +kernel) (by decide +kernel)).2 _ _ run).2).mpr ?_
  have heard : heardSince 1 halfClosed (hear flagFin halfClosed) ++
      heardSince 1 (hear flagFin halfClosed) (hear flagAck (hear flagFin halfClosed)) =
        [fromPeer flagFin, fromPeer flagAck] := by decide +kernel
  refine .inr ⟨fromPeer flagFin, fromPeer flagAck, ?_, rfl, rfl⟩
  rw [List.nil_append, ← heard]
  exact List.Sublist.refl _

/-- The peer acknowledges the FIN and closes with its own: the slot is not freed. -/
theorem ack_then_fin_leaks : ¬ ∀ (s : Stack) (i : Slot), (s.conns i).state = .finWait1 →
    (s.conns i).inUse = true →
    (∀ depth arrival segment, has segment.flags flagAck = true →
      segment.ack = (s.conns i).sndNxt →
      MovesOn i segment (handleSegment (input (depth + 1)) i arrival segment s)) ∧
    ∀ heard t, Run i s heard t → BothArrived (s.conns i).sndNxt heard →
      (t.conns i).inUse = false := by
  intro claim
  have run := (Run.nil (i := 1) (s := halfClosed)).deliver 2
    (fromHost 101 0x1234567A flagAck [] 0) (fromPeer flagAck) |>.deliver 2
    (fromHost 101 0x1234567A (flagFin ||| flagAck) [] 0) (fromPeer (flagFin ||| flagAck))
  have heard : [] ++ heardSince 1 halfClosed (hear flagAck halfClosed) ++
      heardSince 1 (hear flagAck halfClosed)
        (hear (flagFin ||| flagAck) (hear flagAck halfClosed)) =
        [fromPeer flagAck, fromPeer (flagFin ||| flagAck)] := by decide +kernel
  have number : (halfClosed.conns 1).sndNxt = 0x1234567A := by decide +kernel
  have freed := (claim halfClosed 1 (by decide +kernel) (by decide +kernel)).2 _ _ run
  have kept : ((hear (flagFin ||| flagAck) (hear flagAck halfClosed)).conns 1).inUse = true := by
    decide +kernel
  refine absurd (kept.symm.trans (freed ?_)) (by decide)
  refine ⟨⟨fromPeer flagAck, ?_, rfl, number.symm⟩, fromPeer (flagFin ||| flagAck), ?_, rfl⟩
  · exact heard ▸ List.mem_cons_self
  · exact heard ▸ List.mem_cons_of_mem _ List.mem_cons_self

end Stack

end DBSos.Net.Tcp
