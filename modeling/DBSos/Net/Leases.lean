import DBSos.Net.Dhcp
import Mathlib.Data.List.Induction

/-!
# Which leases are the server's word

The client takes the first reply with its number that is left in the slot by a poll, whatever
its type and whoever sent it, and looks at its first 300 bytes only.
-/

namespace DBSos.Net.Dhcp

/-- The first reply that a poll before the deadline leaves in the slot. -/
def firstReply (xid : BitVec 32) (deadline : Nat) (rounds : List Round) : Option Datagram :=
  (rounds.takeWhile fun round => round.entered < deadline).findSome? fun round =>
    round.datagrams.getLast?.filter fun d => Answers xid d.dport d.payload

/-- The first reply of a phase. -/
def Phase.reply (phase : Phase) (timeoutMs : Nat) (xid : BitVec 32) : Option Datagram :=
  firstReply xid (phase.started + timeoutMs) phase.rounds

/-- What comes in during a phase. -/
def Phase.datagrams (phase : Phase) : List Datagram := phase.rounds.flatMap Round.datagrams

/-- The slot holds no reply to this number. -/
def Silent (xid : BitVec 32) (slot : RxSlot) : Prop :=
  ¬ (slot.valid = true ∧ Answers xid slot.dport slot.payload)

variable {xid : BitVec 32} {slot : RxSlot} {timeoutMs : Nat} {phase : Phase}

/-- A burst leaves its last datagram in the slot. -/
theorem foldl_input (datagrams : List Datagram) (slot : RxSlot) :
    match datagrams.getLast? with
    | none => datagrams.foldl (fun slot d => slot.input d.frame) slot = slot
    | some d =>
      let after := datagrams.foldl (fun slot d => slot.input d.frame) slot
      after.valid = true ∧ after.dport = d.dport ∧ after.payload = d.payload := by
  induction datagrams using List.reverseRecOn with
  | nil => rfl
  | append_singleton earlier d _ =>
    rw [List.getLast?_concat]
    simp only [List.foldl_append, List.foldl_cons, List.foldl_nil]
    exact d.input_frame _

/-- `wait_reply` gives the first reply. -/
theorem waitRounds_spec (deadline : Nat) (rounds : List Round) (lastSend : Nat)
    (silent : Silent xid slot) :
    match firstReply xid deadline rounds with
    | none => (waitRounds xid deadline rounds lastSend slot).1 = none
    | some d =>
      (waitRounds xid deadline rounds lastSend slot).1 = some (clip d.payload) ∧
        (waitRounds xid deadline rounds lastSend slot).2.1.payload = d.payload := by
  induction rounds generalizing lastSend slot with
  | nil => rfl
  | cons round rest ih =>
    unfold firstReply
    rw [List.takeWhile_cons]
    by_cases inTime : round.entered < deadline
    · have burst := foldl_input round.datagrams slot
      rw [if_pos (decide_eq_true inTime), List.findSome?_cons]
      unfold waitRounds
      rw [if_pos inTime]
      dsimp only
      generalize round.datagrams.foldl (fun slot d => slot.input d.frame) slot = after at *
      cases last : round.datagrams.getLast? with
      | none =>
        rw [last] at burst
        obtain rfl : after = slot := burst
        rw [if_neg silent]
        exact ih _ silent
      | some d =>
        rw [last] at burst
        obtain ⟨valid, dport, payload⟩ := burst
        rw [dport, payload]
        by_cases answers : Answers xid d.dport d.payload
        · rw [if_pos ⟨valid, answers⟩]
          simp [Option.filter, answers, payload]
        · rw [if_neg fun both => answers both.2]
          simp only [Option.filter, answers, decide_false, Bool.false_eq_true, if_false]
          refine ih _ fun both => answers ?_
          rw [← dport, ← payload]
          exact both.2
    · rw [if_neg (by simpa using inTime)]
      simp [waitRounds, inTime]

theorem silent_clear (xid : BitVec 32) (slot : RxSlot) : Silent xid slot.clear :=
  fun both => Bool.false_ne_true both.1

theorem waitReply_none (slot : RxSlot) (missing : phase.reply timeoutMs xid = none) :
    (waitReply xid timeoutMs phase slot.clear).1 = none := by
  have spec := waitRounds_spec (phase.started + timeoutMs) phase.rounds phase.sent
    (silent_clear xid slot)
  rw [show firstReply _ _ _ = none from missing] at spec
  exact spec

theorem waitReply_some {d : Datagram} (slot : RxSlot)
    (found : phase.reply timeoutMs xid = some d) :
    (waitReply xid timeoutMs phase slot.clear).1 = some (clip d.payload) ∧
      (waitReply xid timeoutMs phase slot.clear).2.1.payload = d.payload := by
  have spec := waitRounds_spec (phase.started + timeoutMs) phase.rounds phase.sent
    (silent_clear xid slot)
  rw [show firstReply _ _ _ = some d from found] at spec
  exact spec

/-- The reply is one of the datagrams that came in. -/
theorem reply_mem {d : Datagram} (found : phase.reply timeoutMs xid = some d) :
    Answers xid d.dport d.payload ∧ d ∈ phase.datagrams := by
  obtain ⟨round, member, kept⟩ := List.exists_of_findSome?_eq_some found
  obtain ⟨last, answers⟩ := Option.filter_eq_some_iff.mp kept
  exact ⟨of_decide_eq_true answers, List.mem_flatMap.mpr
    ⟨round, List.takeWhile_subset _ member, List.mem_of_getLast? last⟩⟩

variable {client : Client} {offers acks : Phase} {o d : Datagram}

/-- The run gets an OFFER and a reply to its REQUEST. -/
structure Replied (client : Client) (timeoutMs : Nat) (offers acks : Phase) (o d : Datagram) :
    Prop where
  armed : client.mac ≠ Vector.replicate 6 0
  offer : offers.reply timeoutMs (nextXid client.xid) = some o
  offered : messageType (clip o.payload) = some mtOffer
  reply : acks.reply timeoutMs (nextXid client.xid) = some d

/-- A run that only takes a number, listens and sends keeps the configuration. -/
theorem settings_kept (client : Client) (ok : Bool) (xid : BitVec 32) (slot : RxSlot)
    (wire : List (List Byte)) :
    (ok, { client with xid, slot, wire }).2.settings = client.settings :=
  rfl

theorem run_of_replied (replied : Replied client timeoutMs offers acks o d) :
    ((run client timeoutMs offers acks).1 = true ↔ messageType (clip d.payload) = some mtAck) ∧
      (run client timeoutMs offers acks).2.settings =
        if messageType (clip d.payload) = some mtAck then
          settingsFrom client.settings (yiaddr (clip o.payload)) (serverId (clip o.payload))
            (clip d.payload)
        else client.settings := by
  obtain ⟨armed, offer, offered, reply⟩ := replied
  have first := (waitReply_some client.slot offer).1
  have second := (waitReply_some
    (waitReply (nextXid client.xid) timeoutMs offers client.slot.clear).2.1 reply).1
  unfold run
  rw [if_neg armed]
  dsimp only
  rw [first]
  dsimp only
  rw [if_neg (not_not.mpr offered), second]
  dsimp only
  by_cases acked : messageType (clip d.payload) = some mtAck
  · rw [if_neg (not_not.mpr acked), if_pos acked]
    exact ⟨⟨fun _ => acked, fun _ => rfl⟩, rfl⟩
  · rw [if_pos acked, if_neg acked]
    exact ⟨⟨nofun, fun acked' => absurd acked' acked⟩, settings_kept client false _ _ _⟩

/-- Without a reply to a REQUEST the run changes nothing. -/
theorem run_of_unreplied (unreplied : ∀ o d, ¬ Replied client timeoutMs offers acks o d) :
    (run client timeoutMs offers acks).1 = false ∧
      (run client timeoutMs offers acks).2.settings = client.settings := by
  unfold run
  by_cases unarmed : client.mac = Vector.replicate 6 0
  · rw [if_pos unarmed]
    exact ⟨rfl, rfl⟩
  rw [if_neg unarmed]
  dsimp only
  cases offer : offers.reply timeoutMs (nextXid client.xid) with
  | none =>
    rw [waitReply_none client.slot offer]
    exact ⟨rfl, settings_kept client false _ _ _⟩
  | some o =>
    rw [(waitReply_some client.slot offer).1]
    dsimp only
    by_cases offered : messageType (clip o.payload) = some mtOffer
    · rw [if_neg (not_not.mpr offered)]
      cases reply : acks.reply timeoutMs (nextXid client.xid) with
      | none =>
        rw [waitReply_none
          (waitReply (nextXid client.xid) timeoutMs offers client.slot.clear).2.1 reply]
        exact ⟨rfl, settings_kept client false _ _ _⟩
      | some d => exact absurd ⟨unarmed, offer, offered, reply⟩ (unreplied o d)
    · rw [if_pos offered]
      exact ⟨rfl, settings_kept client false _ _ _⟩

/-- What a lease is meant to be: the configuration changes only to what an ACK of the chosen
server says, and an OFFER does not end the wait for it. -/
structure Honest (client : Client) (timeoutMs : Nat) (offers acks : Phase) : Prop where
  acked : (run client timeoutMs offers acks).1 = true ∨
      (run client timeoutMs offers acks).2.settings ≠ client.settings →
    ∃ o d, Replied client timeoutMs offers acks o d ∧ d ∈ acks.datagrams ∧
      Answers (nextXid client.xid) d.dport d.payload ∧ messageType d.payload = some mtAck ∧
      serverId d.payload = serverId (clip o.payload) ∧
      (run client timeoutMs offers acks).2.settings =
        settingsFrom client.settings (yiaddr d.payload) (serverId (clip o.payload)) d.payload
  patient : ∀ o d, Replied client timeoutMs offers acks o d →
    messageType d.payload ≠ some mtOffer

/-- The reply is no OFFER, and where its first 300 bytes are an ACK, the whole of it is one of
the chosen server that confirms the address and says nothing else. -/
structure Confirms (settings : Settings) (o d : Datagram) : Prop where
  other : messageType d.payload ≠ some mtOffer
  same : messageType (clip d.payload) = some mtAck →
    messageType d.payload = some mtAck ∧ serverId d.payload = serverId (clip o.payload) ∧
      yiaddr d.payload = yiaddr (clip o.payload) ∧
      settingsFrom settings (yiaddr d.payload) (serverId (clip o.payload)) (clip d.payload) =
        settingsFrom settings (yiaddr d.payload) (serverId (clip o.payload)) d.payload

theorem Replied.unique {o' d' : Datagram} (replied : Replied client timeoutMs offers acks o d)
    (replied' : Replied client timeoutMs offers acks o' d') : o = o' ∧ d = d' :=
  ⟨Option.some.inj (replied.offer.symm.trans replied'.offer),
    Option.some.inj (replied.reply.symm.trans replied'.reply)⟩

section Duplicate

/-- A client with a network card that was not configured yet. -/
def fresh : Client where
  mac := #v[0x52, 0x54, 0x00, 0x12, 0x34, 0x56]
  xid := 0x51000000
  slot := ⟨false, 0, 0, 0, []⟩
  settings := ⟨[10, 0, 2, 15], [255, 255, 255, 0], [10, 0, 2, 2], [10, 0, 2, 3]⟩
  wire := []

/-- The OFFER of 10.0.2.15 that a server at 10.0.2.2 sends for its DISCOVER. -/
def offerPayload : List Byte :=
  splice (splice (splice (List.replicate fOpt 0) 0 [2, 1, 6]) fXid (be32 0x51010001)) fYiaddr
      [10, 0, 2, 15] ++
    [oMsgType, 1, mtOffer, oSrvId, 4, 10, 0, 2, 2, oEnd]

def offer : Datagram :=
  ⟨Vector.replicate 34 0, dhcpServerPort, dhcpClientPort, 0, offerPayload, [], by decide +kernel⟩

/-- One round before the deadline in which the OFFER comes in. -/
def offerPhase : Phase := ⟨0, 0, [⟨0, 0, 0, [offer]⟩]⟩

end Duplicate

end DBSos.Net.Dhcp
