import DBSos.Net.Loopback

/-!
# Which connections a call opens

A connection is opened in the first free slot, and nowhere else than in `alloc_conn`.
`openings` lists the slots that a call opens connections in; every other slot keeps its
connection or loses it.
-/

namespace DBSos.Net.Tcp

namespace Stack

/-- The slot that `alloc_conn` takes. -/
def firstFree (s : Stack) : Option Slot :=
  (List.finRange maxConns).find? fun i => !(s.conns i).inUse

/-- The stamp of the connection in a slot, 0 where there is none. -/
def born (s : Stack) (i : Slot) : Nat := (s.history.ledger i).born

/-- The slot in which `input` opens a connection. -/
def openedBy (s : Stack) (arrival : Arrival) : List Slot :=
  match Segment.parse arrival.data with
  | none => []
  | some segment =>
    if (s.findTuple segment.dport segment.sport arrival.peerIp).isNone &&
        (has segment.flags flagSyn && !has segment.flags flagAck &&
          (s.findListener segment.dport).isSome) then
      s.firstFree.toList
    else []

/-- The slots in which connections are opened while the card is polled. -/
def openedWhile : List Arrival → Stack → List Slot
  | [], _ => []
  | arrival :: rest, s => s.openedBy arrival ++ openedWhile rest (s.input loopDepth arrival)

/-- The segment that comes back when slot `i` sends a SYN to the stack's own address. -/
def echo (s : Stack) (i : Slot) : Arrival :=
  ⟨s.ownIp, s.mac, (s.outgoing i (s.conns i).sndNxt flagSyn []).encode s.ownIp (s.conns i).peerIp,
    s.placeOf i flagSyn⟩

/-- The slot in which a SYN from slot `i` opens the other end of its connection. -/
def openedBySyn (s : Stack) (i : Slot) : List Slot :=
  if (s.conns i).peerIp = s.ownIp then s.openedBy (s.echo i) else []

/-- The connection that `connect` opens in slot `i`, with the SYN still to be sent. -/
def dialling (s : Stack) (i : Slot) (peerIp : Ipv4) (port : Port) : Stack :=
  let (lport, s) := (s.claimed i).nextEphemeral
  let (isn, s) := s.nextIsn
  s.dialled i lport port peerIp isn

/-- The peer's hardware address is known. -/
def resolved (s : Stack) (i : Slot) (peerIp : Ipv4) (polled : List Arrival) (mac : Mac) : Stack :=
  let s := if peerIp = s.ownIp then s
    else polled.foldl (fun s arrival => input loopDepth arrival s) s
  s.modify i fun c => { c with remoteMac := if peerIp = s.ownIp then s.mac else mac }

/-- The slots in which connections are opened behind the one that `connect` takes. -/
def openedBehind (s : Stack) (i : Slot) (peerIp : Ipv4) (polled : List Arrival) (mac : Mac) :
    List Slot :=
  (if peerIp = s.ownIp then [] else openedWhile polled s) ++
    (s.resolved i peerIp polled mac).openedBySyn i

/-- The slots in which `connect` opens connections. -/
def openedByConnect (s : Stack) (peerIp : Ipv4) (port : Port) (polled : List Arrival) (mac : Mac) :
    List Slot :=
  s.firstFree.elim [] fun i => i :: (s.dialling i peerIp port).openedBehind i peerIp polled mac

/-- The slot that `listen` takes. -/
def openedByListen (s : Stack) (port : Port) : List Slot :=
  if (s.findListener port).isSome then [] else s.firstFree.toList

/-- The slots in which a call opens connections. -/
def openings (s : Stack) : Call → List Slot
  | .alloc => s.firstFree.toList
  | .listen port => s.openedByListen port
  | .connect peerIp port polled resolved => s.begin.openedByConnect peerIp port polled resolved
  | .input arrival => s.openedBy arrival
  | .resendSyn i => s.begin.openedBySyn i
  | _ => []

/-- Every slot but those has the connection it had, or none. -/
def KeepsBut (opened : List Slot) (s t : Stack) : Prop :=
  ∀ i, i ∉ opened → t.born i = s.born i ∨ t.born i = 0

namespace KeepsBut

variable {s t u : Stack} {opened more : List Slot}

theorem refl (s : Stack) : KeepsBut opened s s := fun _ _ => .inl rfl

theorem trans (first : KeepsBut opened s t) (second : KeepsBut more t u) :
    KeepsBut (opened ++ more) s u := by
  intro i apart
  obtain ⟨notFirst, notSecond⟩ := not_or.mp (mt List.mem_append.mpr apart)
  rcases second i notSecond with same | gone
  · rw [same]
    exact first i notFirst
  · exact .inr gone

theorem then_keeps (first : KeepsBut opened s t) (second : KeepsBut [] t u) :
    KeepsBut opened s u := by
  simpa using first.trans second

theorem after_keeps (first : KeepsBut [] s t) (second : KeepsBut opened t u) :
    KeepsBut opened s u := first.trans second

/-- Nothing that is noted of the connections changes. -/
theorem of_born (same : ∀ i, t.born i = s.born i) : KeepsBut opened s t :=
  fun i _ => .inl (same i)

end KeepsBut

section Branches

variable {s t : Stack} {opened : List Slot}

theorem born_log {i j : Slot} {change : Ledger → Ledger} (keeps : ∀ l, (change l).born = l.born) :
    (s.log i change).born j = s.born j := by
  by_cases here : j = i
  · subst here
    rw [born, log_ledger_self, keeps, born]
  · rw [born, log_ledger_of_ne _ here, born]

theorem born_free {i j : Slot} : (s.free i).born j = s.born j ∨ (s.free i).born j = 0 := by
  by_cases here : j = i
  · subst here
    exact .inr (by simp [born, free, Ledger.blank])
  · exact .inl (by simp [born, free, here])

theorem keeps_free (keeps : KeepsBut opened s t) (i : Slot) : KeepsBut opened s (t.free i) :=
  keeps.then_keeps fun _ _ => born_free

theorem born_noteSent {i j : Slot} {segment : Segment} {place : Nat} :
    (s.noteSent i segment place).born j = s.born j := by
  unfold noteSent
  split_ifs <;> rfl

theorem born_acked {i j : Slot} {ack : Seq} : (s.acked i ack).born j = s.born j :=
  born_log fun _ => rfl

/-- No branch of the handlers opens a connection. -/
theorem kept_keepsBut {admits : Segment → Prop}
    (bare : ∀ {segment}, BareAck segment → admits segment) : Kept admits (KeepsBut opened s) where
  bare := bare
  framed keeps := keeps
  reached _ keeps := keeps
  reset _ _ keeps := keeps_free keeps _
  shook _ _ keeps := keeps
  admitted _ _ keeps := keeps
  acked _ keeps := keeps.then_keeps (.of_born fun _ => born_acked)
  store _ _ _ _ keeps := keeps.then_keeps (.of_born fun _ => born_log fun _ => rfl)
  countFin _ _ _ _ keeps := keeps.then_keeps (.of_born fun _ => born_log fun _ => rfl)
  ackedInCloseWait _ _ keeps := keeps.then_keeps (.of_born fun _ => born_acked)

theorem not_opens_of_bare {segment : Segment} (bare : BareAck segment) : ¬ Opens segment := by
  rw [Opens, bare.flags]
  decide

theorem kept_unopened : Kept (fun segment => ¬ Opens segment) (KeepsBut opened s) :=
  kept_keepsBut not_opens_of_bare

/-- A transmission that opens no connection. -/
theorem keeps_tcpSendSeq {depth : Nat} {i : Slot} {seq : Seq} {flags : Byte} {payload : List Byte}
    (plain : ¬ (has flags flagSyn = true ∧ has flags flagAck = false)) :
    KeepsBut [] s (tcpSendSeq (input depth) i seq flags payload s).2 :=
  kept_unopened.transmit (fun plain opens _ => absurd opens plain) plain (.refl s)
    (.of_born fun _ => born_noteSent)

theorem keeps_tcpSend {depth : Nat} {i : Slot} {flags : Byte} {payload : List Byte}
    (plain : ¬ (has flags flagSyn = true ∧ has flags flagAck = false)) :
    KeepsBut [] s (tcpSend (input depth) i flags payload s).2 := keeps_tcpSendSeq plain

/-- The new connection has the next stamp. -/
theorem born_claimed (i j : Slot) :
    (s.claimed i).born j = if j = i then s.history.births else s.born j := by
  by_cases here : j = i
  · subst here
    simp [born, claimed]
  · simp [born, claimed, here]

theorem keeps_claimed {i : Slot} (first : s.firstFree = some i) :
    KeepsBut s.firstFree.toList s (s.claimed i) := by
  intro j apart
  rw [born_claimed, if_neg fun here => apart (by simp [first, here])]
  exact .inl rfl

theorem allocConn_firstFree : s.allocConn = s.firstFree.map fun i => (i, s.claimed i) := rfl

/-- Answering a SYN. -/
theorem keeps_accept {depth : Nat} {arrival : Arrival} {segment : Segment} :
    KeepsBut s.firstFree.toList s (s.accept (input depth) arrival segment) := by
  unfold accept
  rw [allocConn_firstFree]
  cases first : s.firstFree with
  | none => exact .refl s
  | some i =>
    have claimed := keeps_claimed first
    rw [first] at claimed
    dsimp only [Option.map_some]
    refine claimed.then_keeps (.after_keeps (t := (s.claimed i).nextIsn.2.opened i arrival segment
      (s.claimed i).nextIsn.1) (.of_born fun _ => born_log fun _ => rfl) ?_)
    exact (keeps_tcpSend (by decide)).then_keeps (.refl _)

/-- A segment opens a connection in the slots that `openedBy` lists. -/
theorem keeps_input (depth : Nat) (arrival : Arrival) :
    KeepsBut (s.openedBy arrival) s (s.input (depth + 1) arrival) := by
  rw [input, inputWith, openedBy]
  cases parsed : Segment.parse arrival.data with
  | none => exact .refl s
  | some segment =>
    dsimp only
    cases found : s.findTuple segment.dport segment.sport arrival.peerIp with
    | some i =>
      rw [if_neg (by simp)]
      have kept : Kept (fun _ => True) (KeepsBut [] s) := kept_keepsBut fun _ => trivial
      refine kept.handle (fun parsed bare keeps => ?_) trivial (.refl s)
      refine kept_unopened.overInput (fun plain opens _ => absurd opens plain) ?_ keeps
      intro other parsedToo
      obtain rfl := Option.some.inj (parsed.symm.trans parsedToo)
      exact not_opens_of_bare bare
    | none =>
      simp only [Option.isNone_none, Bool.true_and]
      split_ifs
      · exact keeps_accept
      · exact .refl s

/-! ## The calls -/

theorem keeps_openedWhile (polled : List Arrival) :
    KeepsBut (openedWhile polled s) s
      (polled.foldl (fun s arrival => input loopDepth arrival s) s) := by
  induction polled generalizing s with
  | nil => exact .refl s
  | cons arrival rest ih =>
    exact (keeps_input _ arrival).trans ih

/-- What `openedBy` looks at is neither the notes nor the frames. -/
theorem openedBy_noteSent {i : Slot} {segment : Segment} {place : Nat} {arrival : Arrival} :
    (s.noteSent i segment place).openedBy arrival = s.openedBy arrival := by
  have conns : (s.noteSent i segment place).conns = s.conns := by
    unfold noteSent
    split_ifs <;> rfl
  unfold openedBy findTuple findListener firstFree
  rw [conns]

theorem keeps_sendSyn {i : Slot} :
    KeepsBut (s.openedBySyn i) s (tcpSend (input loopDepth) i flagSyn [] s).2 := by
  unfold tcpSend tcpSendSeq openedBySyn
  by_cases own : (s.conns i).peerIp = s.ownIp
  · rw [if_pos own, if_pos own]
    have noted := keeps_input (s := s.noteSent i (s.outgoing i (s.conns i).sndNxt flagSyn [])
      (s.placeOf i flagSyn)) 2 (s.echo i)
    rw [openedBy_noteSent] at noted
    exact .after_keeps (.of_born fun _ => born_noteSent) noted
  · rw [if_neg own, if_neg own]
    dsimp only
    split_ifs
    · exact .of_born fun _ => born_noteSent
    · exact .refl s

theorem keeps_close (i : Slot) : KeepsBut [] s (s.close i) := by
  have fin (state : ConnState) : KeepsBut [] s (s.sendFin i state) := by
    unfold sendFin
    have sent : KeepsBut [] s (tcpSend (input loopDepth) i (flagFin ||| flagAck) [] s).2 :=
      keeps_tcpSend (by decide)
    dsimp only
    split_ifs
    · exact sent.then_keeps (.of_born fun _ => born_log fun _ => rfl)
    · exact sent
  unfold close
  cases (s.conns i).state <;> first | exact fin _ | exact keeps_free (.refl s) i

theorem keeps_listen (port : Port) : KeepsBut (s.openedByListen port) s (s.listen port).2 := by
  unfold listen openedByListen
  split_ifs
  · exact .refl s
  · rw [allocConn_firstFree]
    cases first : s.firstFree with
    | none => exact .refl s
    | some i =>
      have claimed := keeps_claimed first
      rw [first] at claimed
      exact claimed.then_keeps (.refl _)

/-- Where `listen` opens nothing, it returns nothing; its connection has the next stamp. -/
theorem listen_result (port : Port) :
    ((s.listen port).1 = none → s.openedByListen port = []) ∧
      ∀ i, (s.listen port).1 = some i → (s.listen port).2.born i = s.history.births := by
  unfold listen openedByListen
  split_ifs
  · exact ⟨fun _ => rfl, nofun⟩
  · rw [allocConn_firstFree]
    cases first : s.firstFree with
    | none => exact ⟨fun _ => rfl, nofun⟩
    | some i =>
      refine ⟨nofun, fun j made => ?_⟩
      obtain rfl := Option.some.inj made
      exact (born_claimed i i).trans (if_pos rfl)

theorem keeps_send (i : Slot) (data : List Byte) : KeepsBut [] s (s.send i data).2 := by
  unfold send
  have filled : KeepsBut [] s (s.fillOut i data) := .of_born fun _ => born_log fun _ => rfl
  have sent : KeepsBut [] (s.fillOut i data) (tcpSend (input loopDepth) i (flagPsh ||| flagAck)
      data (s.fillOut i data)).2 := keeps_tcpSend (by decide)
  have sent := filled.then_keeps sent
  dsimp only
  split_ifs
  · exact .refl s
  · exact .refl s
  · exact .refl s
  · exact .refl s
  · exact sent.then_keeps (.of_born fun _ => born_log fun _ => rfl)
  · exact sent

theorem keeps_recv (i : Slot) (size : Nat) : KeepsBut [] s (s.recv i size).2 :=
  .of_born fun _ => born_log fun _ => rfl

theorem keeps_checkRetransmit : KeepsBut [] s s.checkRetransmit := by
  have turn (now : BitVec 64) (t : Stack) (i : Slot) : KeepsBut [] t (retransmit now t i) := by
    unfold retransmit
    dsimp only
    split_ifs
    · exact .refl t
    · exact (keeps_tcpSendSeq (by decide)).then_keeps (.refl _)
    · exact .refl t
  have loop (slots : List Slot) (t : Stack) :
      KeepsBut [] t (slots.foldl (retransmit s.millis) t) := by
    induction slots generalizing t with
    | nil => exact .refl t
    | cons i rest ih =>
      exact (turn _ _ _).then_keeps (ih _)
  exact loop _ _

/-- The connection that `connect` makes; behind it others may be opened. -/
theorem connect_eq (peerIp : Ipv4) (port : Port) (polled : List Arrival) (mac : Mac) :
    s.connect peerIp port polled mac = match s.firstFree with
      | none => (none, s)
      | some i => (some i, (tcpSend (input loopDepth) i flagSyn []
          ((s.dialling i peerIp port).resolved i peerIp polled mac)).2) := by
  unfold connect
  rw [allocConn_firstFree]
  cases s.firstFree <;> rfl

theorem born_dialling (i j : Slot) (peerIp : Ipv4) (port : Port) :
    (s.dialling i peerIp port).born j = (s.claimed i).born j :=
  born_log (s := (((s.claimed i).nextEphemeral.2).nextIsn.2).modify i _) (i := i) fun _ => rfl

theorem keeps_dialling {i : Slot} (first : s.firstFree = some i) (peerIp : Ipv4) (port : Port) :
    KeepsBut [i] s (s.dialling i peerIp port) := by
  have claimed := keeps_claimed first
  rw [first] at claimed
  exact claimed.then_keeps (.of_born fun j => born_dialling i j peerIp port)

theorem keeps_behind (i : Slot) (peerIp : Ipv4) (polled : List Arrival) (mac : Mac) :
    KeepsBut (s.openedBehind i peerIp polled mac) s
      (tcpSend (input loopDepth) i flagSyn [] (s.resolved i peerIp polled mac)).2 := by
  refine KeepsBut.trans ?_ keeps_sendSyn
  unfold resolved
  by_cases own : peerIp = s.ownIp
  · rw [if_pos own, if_pos own]
    exact .refl s
  · rw [if_neg own, if_neg own]
    exact (keeps_openedWhile polled).then_keeps (.refl _)

theorem keeps_connect (peerIp : Ipv4) (port : Port) (polled : List Arrival) (mac : Mac) :
    KeepsBut (s.openedByConnect peerIp port polled mac) s (s.connect peerIp port polled mac).2 := by
  rw [connect_eq, openedByConnect]
  cases first : s.firstFree with
  | none => exact .refl s
  | some i => exact (keeps_dialling first peerIp port).trans (keeps_behind i peerIp polled mac)

/-- The new connection has the next stamp, unless another has moved into its slot. -/
theorem born_connect {i : Slot} {peerIp : Ipv4} {port : Port} {polled : List Arrival} {mac : Mac}
    (alone : s.firstFree = some i → i ∉ (s.dialling i peerIp port).openedBehind i peerIp polled mac)
    (made : (s.connect peerIp port polled mac).1 = some i) :
    (s.connect peerIp port polled mac).2.born i = s.history.births ∨
      (s.connect peerIp port polled mac).2.born i = 0 := by
  rw [connect_eq] at made ⊢
  cases first : s.firstFree with
  | none =>
    rw [first] at made
    cases made
  | some j =>
    rw [first] at made
    obtain rfl := Option.some.inj made
    have dialled : (s.dialling j peerIp port).born j = s.history.births :=
      (born_dialling j j peerIp port).trans ((born_claimed j j).trans (if_pos rfl))
    rw [← dialled]
    exact keeps_behind j peerIp polled mac j (alone first)

theorem connect_none {peerIp : Ipv4} {port : Port} {polled : List Arrival} {mac : Mac}
    (failed : (s.connect peerIp port polled mac).1 = none) :
    s.openedByConnect peerIp port polled mac = [] := by
  rw [connect_eq] at failed
  cases first : s.firstFree with
  | none => rw [openedByConnect, first, Option.elim_none]
  | some i =>
    rw [first] at failed
    cases failed

/-- Every slot that `openings` does not list keeps its connection or loses it. -/
theorem keeps_perform (call : Call) : KeepsBut (s.openings call) s (s.perform call) := by
  have begun : KeepsBut [] s s.begin := .refl s
  cases call with
  | alloc =>
    unfold perform
    dsimp only
    rw [allocConn_firstFree]
    cases first : s.firstFree with
    | none =>
      rw [show s.begin.firstFree = none from first]
      exact .refl s
    | some i =>
      rw [show s.begin.firstFree = some i from first]
      exact begun.after_keeps (keeps_claimed (s := s.begin) first)
  | listen port => exact begun.after_keeps (keeps_listen (s := s.begin) port)
  | connect peerIp port polled resolved =>
    exact begun.after_keeps (keeps_connect peerIp port polled resolved)
  | send i data => exact begun.after_keeps (keeps_send i data)
  | recv i size => exact begun.after_keeps (keeps_recv i size)
  | close i => exact begun.after_keeps (keeps_close i)
  | input arrival => exact begun.after_keeps (keeps_input (s := s.begin) _ arrival)
  | checkRetransmit => exact begun.after_keeps keeps_checkRetransmit
  | resendSyn i =>
    have resent : KeepsBut (s.begin.openedBySyn i) s.begin (s.begin.resendSyn i) := by
      unfold resendSyn
      cases (s.begin.conns i).state <;> first | exact keeps_sendSyn | exact .refl _
    exact begun.after_keeps resent
  | outside ticks millis ownIp mac => exact .refl s

end Branches

end Stack

end DBSos.Net.Tcp
