import DBSos.Net.Responses
import DBSos.Net.Udp

/-!
# The DNS resolver

`resolve` sends one query and looks into the UDP slot after each poll. It takes the first
datagram there that has the number of the query and an address, and asks neither who sent it nor
to which port. What comes in at each poll and what the clock shows is left open.
-/

namespace DBSos.Net.Dns

def dnsPort : Port := 53

def dnsMax : Nat := 512

/-- A frame that `net::poll` hands to `udp::input`, with its sender. -/
structure Arrival where
  data : List Byte
  srcIp : Ipv4

/-- The UDP slot with the sender's address. -/
structure Inbox where
  slot : RxSlot
  srcIp : Ipv4

namespace Inbox

/-- `udp::input`. -/
def input (inbox : Inbox) (arrival : Arrival) : Inbox where
  slot := inbox.slot.input arrival.data
  srcIp := if arrival.data.length < 34 + udpHdr then inbox.srcIp else arrival.srcIp

/-- `rx_clear`. -/
def clear (inbox : Inbox) : Inbox := { inbox with slot := inbox.slot.clear }

end Inbox

/-- What one round of the loop meets: the readings of the clock, what its poll brings, and what
comes in while the query is sent again. -/
structure Round where
  entered : BitVec 64
  checked : BitVec 64
  resent : BitVec 64
  polled : List Arrival
  sending : List Arrival

/-- The query is sent again in this round. -/
def Round.again (round : Round) (lastSend : BitVec 64) : Bool :=
  1000 ≤ (round.checked - lastSend).toNat

/-- What a call meets: the configured server, the two numbers that it draws, how the first `send`
ends and what comes in meanwhile, the clock at its start, and its rounds. -/
structure Attempt where
  server : Ipv4
  dnsId : BitVec 16
  drawn : BitVec 16
  sent : Bool
  sending : List Arrival
  started : BitVec 64
  lastSend : BitVec 64
  rounds : List Round

/-- The loop of `resolve`: the address, the slot, and how often the query was sent again. -/
def waitRounds (dnsId : BitVec 16) (deadline : BitVec 64) :
    List Round → BitVec 64 → Inbox → Option (Option Ipv4 × Inbox × Nat)
  | [], _, inbox => some (none, inbox, 0)
  | round :: rest, lastSend, inbox =>
    if round.entered < deadline then do
      let again := round.again lastSend
      let inbox := round.polled.foldl Inbox.input inbox
      let inbox := if again then round.sending.foldl Inbox.input inbox else inbox
      let lastSend := if again then round.resent else lastSend
      let count := if again then 1 else 0
      if inbox.slot.valid = true then do
        let reading ← readResponse dnsId inbox.slot.payload
        match reading with
        | .found ip => some (some ip, inbox, count)
        | .clear => do
          let waited ← waitRounds dnsId deadline rest lastSend inbox.clear
          some (waited.1, waited.2.1, count + waited.2.2)
        | .keep => do
          let waited ← waitRounds dnsId deadline rest lastSend inbox
          some (waited.1, waited.2.1, count + waited.2.2)
      else do
        let waited ← waitRounds dnsId deadline rest lastSend inbox
        some (waited.1, waited.2.1, count + waited.2.2)
    else some (none, inbox, 0)

/-- The datagram of a query. -/
structure Query where
  dst : Ipv4
  sport : Port
  dport : Port
  payload : List Byte
  deriving DecidableEq

/-- What a call leaves: the address, the slot, and the queries on the wire. -/
structure Outcome where
  address : Option Ipv4
  inbox : Inbox
  wire : List Query

/-- The port that a query is sent from. -/
def sourcePort (drawn : BitVec 16) : Port := 0x8000 ||| (drawn &&& 0x7FFF)

/-- The packet of a query. -/
def queryBytes (dnsId : BitVec 16) (qname : List Byte) (qnameLen : Nat) : Option (List Byte) := do
  let query ← store (List.replicate dnsMax 0) 0 (be16 dnsId ++ [0x01, 0x00, 0x00, 0x01])
  let query ← store query 12 (qname.take qnameLen)
  let query ← store query (12 + qnameLen) (be16 1)
  let query ← store query (12 + qnameLen + 2) (be16 1)
  some (query.take (12 + qnameLen + 4))

/-- `resolve`. `none` is a panic. -/
def resolve (name : List Byte) (timeoutMs : BitVec 64) (attempt : Attempt) (inbox : Inbox) :
    Option Outcome := do
  let (length, qname) ← encodeName name (List.replicate 255 0)
  match length with
  | none => some { address := none, inbox, wire := [] }
  | some qnameLen =>
    if attempt.server = #v[0, 0, 0, 0] then some { address := none, inbox, wire := [] }
    else do
      let payload ← queryBytes attempt.dnsId qname qnameLen
      let query : Query :=
        { dst := attempt.server, sport := sourcePort attempt.drawn, dport := dnsPort, payload }
      let inbox := attempt.sending.foldl Inbox.input inbox.clear
      if attempt.sent then
        if attempt.started.toNat + timeoutMs.toNat < 2 ^ 64 then do
          let waited ← waitRounds attempt.dnsId (attempt.started + timeoutMs) attempt.rounds
            attempt.lastSend inbox
          some { address := waited.1, inbox := waited.2.1,
                 wire := List.replicate (1 + waited.2.2) query }
        else none
      else some { address := none, inbox, wire := [] }

/-! ## What is heard -/

/-- What comes in during the rounds before the deadline. -/
def heardIn (deadline : BitVec 64) : List Round → BitVec 64 → List (List Arrival)
  | [], _ => []
  | round :: rest, lastSend =>
    if round.entered < deadline then
      (round.polled ++ if round.again lastSend then round.sending else []) ::
        heardIn deadline rest (if round.again lastSend then round.resent else lastSend)
    else []

/-- The slot holds a datagram with the number of the query and an address. -/
def answers (dnsId : BitVec 16) (inbox : Inbox) : Bool :=
  inbox.slot.valid &&
    match readResponse dnsId inbox.slot.payload with
    | some (.found _) => true
    | _ => false

/-- The slot at the first time that a round leaves an answer there. -/
def firstAnswer (dnsId : BitVec 16) : Inbox → List (List Arrival) → Option Inbox
  | _, [] => none
  | inbox, batch :: rest =>
    if answers dnsId (batch.foldl Inbox.input inbox) then some (batch.foldl Inbox.input inbox)
    else firstAnswer dnsId (batch.foldl Inbox.input inbox) rest

/-- The first answer that a call hears. -/
def Attempt.answer (attempt : Attempt) (timeoutMs : BitVec 64) (inbox : Inbox) : Option Inbox :=
  firstAnswer attempt.dnsId (attempt.sending.foldl Inbox.input inbox.clear)
    (heardIn (attempt.started + timeoutMs) attempt.rounds attempt.lastSend)

/-- The datagram in the slot came from the server's port 53 to the port of the query. -/
structure FromServer (attempt : Attempt) (inbox : Inbox) : Prop where
  address : inbox.srcIp = attempt.server
  source : inbox.slot.sport = dnsPort
  destination : inbox.slot.dport = sourcePort attempt.drawn

/-- The call sends its query and waits. -/
structure Waits (name : List Byte) (timeoutMs : BitVec 64) (attempt : Attempt) : Prop where
  encoded : ∃ n qname, encodeName name (List.replicate 255 0) = some (some n, qname)
  configured : attempt.server ≠ #v[0, 0, 0, 0]
  sent : attempt.sent = true
  deadline : attempt.started.toNat + timeoutMs.toNat < 2 ^ 64

/-! ## The loop takes what is heard -/

/-- The slots of a call and of a listener: the call may have cleared what is no answer. -/
def Follows (dnsId : BitVec 16) (inbox heard : Inbox) : Prop :=
  inbox = heard ∨ inbox = heard.clear ∧ answers dnsId heard = false

variable {dnsId : BitVec 16} {inbox heard : Inbox}

theorem answers_clear : answers dnsId heard.clear = false := rfl

/-- A datagram overwrites a slot whether or not it was cleared. -/
theorem input_clear (heard : Inbox) (arrival : Arrival) :
    heard.clear.input arrival = heard.input arrival ∨
      heard.clear.input arrival = heard.clear ∧ heard.input arrival = heard := by
  by_cases short : arrival.data.length < 34 + udpHdr
  · have kept (inbox : Inbox) : inbox.input arrival = inbox := by
      unfold Inbox.input RxSlot.input
      rw [if_pos short, if_pos short]
    exact .inr ⟨kept _, kept _⟩
  · unfold Inbox.input RxSlot.input
    rw [if_neg short, if_neg short, if_neg short, if_neg short]
    exact .inl rfl

theorem foldl_clear (batch : List Arrival) (heard : Inbox) :
    batch.foldl Inbox.input heard.clear = batch.foldl Inbox.input heard ∨
      batch.foldl Inbox.input heard.clear = heard.clear ∧ batch.foldl Inbox.input heard = heard := by
  induction batch with
  | nil => exact .inr ⟨rfl, rfl⟩
  | cons arrival rest ih =>
    rw [List.foldl_cons, List.foldl_cons]
    rcases input_clear heard arrival with same | ⟨cleared, kept⟩
    · rw [same]
      exact .inl rfl
    · rw [cleared, kept]
      exact ih

theorem Follows.batch (follows : Follows dnsId inbox heard) (batch : List Arrival) :
    Follows dnsId (batch.foldl Inbox.input inbox) (batch.foldl Inbox.input heard) := by
  rcases follows with rfl | ⟨rfl, noAnswer⟩
  · exact .inl rfl
  · rcases foldl_clear batch heard with same | ⟨cleared, kept⟩
    · exact .inl same
    · rw [cleared, kept]
      exact .inr ⟨rfl, noAnswer⟩

theorem Follows.answers_eq (follows : Follows dnsId inbox heard) :
    answers dnsId inbox = answers dnsId heard := by
  rcases follows with rfl | ⟨rfl, noAnswer⟩
  · rfl
  · rw [noAnswer, answers_clear]

theorem Follows.clear (follows : Follows dnsId inbox heard)
    (noAnswer : answers dnsId inbox = false) : Follows dnsId inbox.clear heard := by
  have none := follows.answers_eq ▸ noAnswer
  rcases follows with rfl | ⟨rfl, -⟩
  · exact .inr ⟨rfl, none⟩
  · exact .inr ⟨rfl, none⟩

/-- An answer in the slot is the whole slot. -/
theorem Follows.eq (follows : Follows dnsId inbox heard) (answer : answers dnsId inbox = true) :
    inbox = heard := by
  rcases follows with same | ⟨rfl, -⟩
  · exact same
  · exact absurd answer (by rw [answers_clear]; decide)

/-- What a wait ends with: the first answer heard, or no address. -/
def Taken (dnsId : BitVec 16) (waited : Option Ipv4 × Inbox × Nat) : Option Inbox → Prop
  | none => waited.1 = none
  | some answer => waited.2.1 = answer ∧ ∃ ip, waited.1 = some ip ∧
      readResponse dnsId answer.slot.payload = some (.found ip)

theorem waitRounds_spec (deadline : BitVec 64) (rounds : List Round) (lastSend : BitVec 64)
    (follows : Follows dnsId inbox heard) :
    ∃ waited, waitRounds dnsId deadline rounds lastSend inbox = some waited ∧
      Taken dnsId waited (firstAnswer dnsId heard (heardIn deadline rounds lastSend)) := by
  induction rounds generalizing lastSend inbox heard with
  | nil => exact ⟨_, rfl, rfl⟩
  | cons round rest ih =>
    by_cases inTime : round.entered < deadline
    · rw [waitRounds, heardIn, if_pos inTime, if_pos inTime, firstAnswer]
      dsimp only
      have batched : (if round.again lastSend = true then
          round.sending.foldl Inbox.input (round.polled.foldl Inbox.input inbox)
          else round.polled.foldl Inbox.input inbox) =
            (round.polled ++ if round.again lastSend = true then round.sending else []).foldl
              Inbox.input inbox := by
        rw [List.foldl_append]
        split_ifs <;> rfl
      rw [batched]
      generalize (round.polled ++ if round.again lastSend = true then round.sending else []) =
        batch
      have later := follows.batch batch
      generalize batch.foldl Inbox.input inbox = inbox at later ⊢
      generalize batch.foldl Inbox.input heard = heard at later ⊢
      obtain ⟨reading, read⟩ := readResponse_inside dnsId inbox.slot.payload
      -- A wait that goes on, with a slot that follows.
      have goesOn (next : Inbox) (followed : Follows dnsId next heard)
          (noAnswer : answers dnsId heard = false) (lastSend : BitVec 64) (count : Nat) :
          ∃ waited, (do
              let waited ← waitRounds dnsId deadline rest lastSend next
              some (waited.1, waited.2.1, count + waited.2.2)) = some waited ∧
            Taken dnsId waited (if answers dnsId heard = true then some heard
              else firstAnswer dnsId heard (heardIn deadline rest lastSend)) := by
        obtain ⟨waited, done, taken⟩ := ih lastSend followed
        rw [done, noAnswer]
        refine ⟨_, rfl, ?_⟩
        rw [if_neg (by decide)]
        revert taken
        cases firstAnswer dnsId heard (heardIn deadline rest lastSend) with
        | none => exact id
        | some answer => exact id
      by_cases valid : inbox.slot.valid = true
      · rw [if_pos valid, read, Option.bind_eq_bind, Option.bind_some]
        have answersIs : answers dnsId inbox = (match some reading with
            | some (.found _) => true
            | _ => false) := by
          rw [answers, valid, read]
          rfl
        cases reading with
        | keep => exact goesOn inbox later (later.answers_eq ▸ answersIs) _ _
        | clear =>
          exact goesOn inbox.clear (later.clear answersIs) (later.answers_eq ▸ answersIs) _ _
        | found ip =>
          have same := later.eq answersIs
          have heardAnswers : answers dnsId heard = true := same ▸ answersIs
          rw [if_pos heardAnswers, ← same]
          exact ⟨_, rfl, rfl, ip, rfl, read⟩
      · rw [if_neg valid]
        have noAnswer : answers dnsId inbox = false := by
          rw [answers, Bool.eq_false_iff.mpr valid]
          rfl
        exact goesOn inbox later (later.answers_eq ▸ noAnswer) _ _
    · rw [waitRounds, heardIn, if_neg inTime, if_neg inTime]
      exact ⟨_, rfl, rfl⟩

/-! ## The call -/

variable {name : List Byte} {timeoutMs : BitVec 64} {attempt : Attempt}

/-- The packet has room for every name that `encode_name` gives. -/
theorem queryBytes_inside (dnsId : BitVec 16) {qname : List Byte} {n : Nat}
    (encoded : encodeName name (List.replicate 255 0) = some (some n, qname)) :
    ∃ payload, queryBytes dnsId qname n = some payload := by
  have short := encodeName_le encoded
  have taken := List.length_take_le n qname
  rw [List.length_replicate] at short
  have start : (List.replicate dnsMax (0 : Byte)).length = 512 := List.length_replicate ..
  have two : (be16 1).length = 2 := rfl
  obtain ⟨first, firstStored, firstLength⟩ := store_inside (List.replicate dnsMax 0) 0
    (be16 dnsId ++ [0x01, 0x00, 0x00, 0x01]) (by rw [start]; simp [be16])
  obtain ⟨second, secondStored, secondLength⟩ := store_inside first 12 (qname.take n) (by omega)
  obtain ⟨third, thirdStored, thirdLength⟩ := store_inside second (12 + n) (be16 1) (by omega)
  obtain ⟨fourth, fourthStored, -⟩ := store_inside third (12 + n + 2) (be16 1) (by omega)
  refine ⟨fourth.take (12 + n + 4), ?_⟩
  rw [queryBytes, firstStored, Option.bind_eq_bind, Option.bind_some, secondStored,
    Option.bind_some, thirdStored, Option.bind_some, fourthStored, Option.bind_some]

theorem resolve_of_waits (waits : Waits name timeoutMs attempt) (inbox : Inbox) :
    ∃ outcome, resolve name timeoutMs attempt inbox = some outcome ∧
      match attempt.answer timeoutMs inbox with
      | none => outcome.address = none
      | some answer => outcome.inbox = answer ∧ ∃ ip, outcome.address = some ip ∧
          readResponse attempt.dnsId answer.slot.payload = some (.found ip) := by
  obtain ⟨n, qname, encoded⟩ := waits.encoded
  obtain ⟨payload, packed⟩ := queryBytes_inside attempt.dnsId encoded
  obtain ⟨waited, done, taken⟩ := waitRounds_spec (attempt.started + timeoutMs) attempt.rounds
    attempt.lastSend (.inl rfl : Follows attempt.dnsId _
      (attempt.sending.foldl Inbox.input inbox.clear))
  rw [resolve, encoded, Option.bind_eq_bind, Option.bind_some]
  dsimp only
  rw [if_neg waits.configured, packed, Option.bind_eq_bind, Option.bind_some, if_pos waits.sent,
    if_pos waits.deadline, done]
  refine ⟨_, rfl, ?_⟩
  unfold Attempt.answer
  revert taken
  cases firstAnswer attempt.dnsId (attempt.sending.foldl Inbox.input inbox.clear)
      (heardIn (attempt.started + timeoutMs) attempt.rounds attempt.lastSend) with
  | none => exact id
  | some answer => exact id

/-- A call that does not wait has no address. -/
theorem resolve_of_not_waits (idle : ¬ Waits name timeoutMs attempt) {inbox : Inbox}
    {outcome : Outcome} (resolved : resolve name timeoutMs attempt inbox = some outcome) :
    outcome.address = none := by
  rw [resolve] at resolved
  obtain ⟨⟨length, qname⟩, encoded, resolved⟩ := Option.bind_eq_some_iff.mp resolved
  cases length with
  | none =>
    cases resolved
    rfl
  | some n =>
    dsimp only at resolved
    by_cases unset : attempt.server = #v[0, 0, 0, 0]
    · rw [if_pos unset] at resolved
      cases resolved
      rfl
    · rw [if_neg unset] at resolved
      obtain ⟨payload, -, resolved⟩ := Option.bind_eq_some_iff.mp resolved
      by_cases sent : attempt.sent = true
      · rw [if_pos sent] at resolved
        by_cases inTime : attempt.started.toNat + timeoutMs.toNat < 2 ^ 64
        · exact absurd ⟨⟨n, qname, encoded⟩, unset, sent, inTime⟩ idle
        · rw [if_neg inTime] at resolved
          cases resolved
      · rw [if_neg sent] at resolved
        cases resolved
        rfl

/-- Only a response with the number of the query is taken. -/
theorem rd16_of_found {pl : List Byte} {ip : Ipv4}
    (read : readResponse dnsId pl = some (.found ip)) : rd16 pl 0 = some dnsId := by
  unfold readResponse at read
  split_ifs at read
  · cases read
  · obtain ⟨id, idRead, read⟩ := Option.bind_eq_some_iff.mp read
    by_cases other : id ≠ dnsId
    · rw [if_pos other] at read
      cases read
    · rw [idRead, not_not.mp other]

/-- An address is taken from a response that came from port 53 of the server to the port of the
query, with its number. -/
def Trusted (name : List Byte) (timeoutMs : BitVec 64) (attempt : Attempt) (inbox : Inbox) : Prop :=
  ∀ outcome ip, resolve name timeoutMs attempt inbox = some outcome → outcome.address = some ip →
    FromServer attempt outcome.inbox ∧ rd16 outcome.inbox.slot.payload 0 = some attempt.dnsId ∧
      readResponse attempt.dnsId outcome.inbox.slot.payload = some (.found ip)

/-- No payload is read beyond its end, and a well-formed response yields its first A record. But
what `resolve` takes came from the server exactly where the first answer that it hears did. -/
theorem resolve_trusted_iff (name : List Byte) (timeoutMs : BitVec 64) (attempt : Attempt)
    (inbox : Inbox) :
    (∀ dnsId pl, ∃ reading, readResponse dnsId pl = some reading) ∧
    (∀ (response : Response) (record : Record), firstA response.answers = some record →
      ∃ ip, readResponse response.id response.bytes = some (.found ip) ∧
        ip.toList = record.rdata) ∧
    (Trusted name timeoutMs attempt inbox ↔
      (Waits name timeoutMs attempt → ∀ answer, attempt.answer timeoutMs inbox = some answer →
        FromServer attempt answer)) := by
  refine ⟨readResponse_inside, fun response record => readResponse_bytes response, ?_⟩
  constructor
  · intro trusted waits answer heard
    obtain ⟨outcome, resolved, taken⟩ := resolve_of_waits waits inbox
    rw [heard] at taken
    obtain ⟨rfl, ip, address, -⟩ := taken
    exact (trusted outcome ip resolved address).1
  · intro genuine outcome ip resolved address
    by_cases waits : Waits name timeoutMs attempt
    · obtain ⟨other, again, taken⟩ := resolve_of_waits waits inbox
      obtain rfl := Option.some.inj (resolved.symm.trans again)
      cases heard : attempt.answer timeoutMs inbox with
      | none =>
        rw [heard] at taken
        exact absurd (taken.symm.trans address) (by simp)
      | some answer =>
        rw [heard] at taken
        obtain ⟨rfl, ip', address', read⟩ := taken
        obtain rfl := Option.some.inj (address.symm.trans address')
        exact ⟨genuine waits _ heard, rd16_of_found read, read⟩
    · rw [resolve_of_not_waits waits resolved] at address
      cases address

section Samples

/-- A host that is not the server answers a query for `a` from port 5353. -/
def forgery : Arrival where
  srcIp := #v[6, 6, 6, 6]
  data := List.replicate 34 0 ++ be16 5353 ++ be16 0x8000 ++ be16 43 ++ be16 0 ++
    (be16 7 ++ be16 0x8180 ++ be16 1 ++ be16 1 ++ be16 0 ++ be16 0 ++
      [1, 0x61, 0] ++ be16 1 ++ be16 1 ++
      [0xC0, 12] ++ be16 1 ++ be16 1 ++ be32 60 ++ be16 4 ++ [6, 6, 6, 6])

def fooled : Attempt where
  server := #v[10, 0, 2, 3]
  dnsId := 7
  drawn := 0
  sent := true
  sending := []
  started := 0
  lastSend := 0
  rounds := [{ entered := 1, checked := 1, resent := 1, polled := [forgery], sending := [] }]

def untouched : Inbox := { slot := RxSlot.initial, srcIp := #v[0, 0, 0, 0] }

/-- Its address is taken. -/
theorem not_trusted_forgery : ¬ Trusted [0x61] 1000 fooled untouched := by
  have taken : (resolve [0x61] 1000 fooled untouched).map
      (fun outcome => (outcome.address, outcome.inbox.srcIp)) =
        some (some #v[6, 6, 6, 6], #v[6, 6, 6, 6]) := by decide +kernel
  obtain ⟨outcome, resolved, parts⟩ := Option.map_eq_some_iff.mp taken
  obtain ⟨address, sender⟩ := Prod.mk.inj parts
  intro trusted
  have server := (trusted outcome _ resolved address).1.address
  exact absurd (sender.symm.trans server) (by decide)

/-- A response with one alias before the address. -/
def aliased : Response where
  id := 7
  flags := 0x8180
  nscount := 0
  arcount := 0
  qname := ⟨[⟨[0x61], by decide, by decide⟩], .root⟩
  qtype := 1
  qclass := 1
  answers := [⟨⟨[], .pointer 0 12⟩, 5, 1, 60, [1, 0x62, 0xC0, 12], by decide, by decide⟩,
    ⟨⟨[⟨[0x62], by decide, by decide⟩], .pointer 0 12⟩, 1, 1, 60, [10, 0, 0, 9], by decide,
      by decide⟩]
  count := by decide
  others := []

theorem resolve_trusted_iff_aliased :
    ∃ ip, readResponse aliased.id aliased.bytes = some (.found ip) ∧ ip.toList = [10, 0, 0, 9] :=
  (resolve_trusted_iff [0x61] 1000 fooled untouched).2.1 aliased _ rfl

end Samples

end DBSos.Net.Dns
