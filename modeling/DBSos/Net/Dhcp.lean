import DBSos.Net.Udp

/-!
# The DHCP client

`dhcp.rs` waits twice, for an OFFER and for an ACK, by polling the network and looking into
the UDP slot. What comes in at each poll and what the clock shows is left open; nothing more
comes in where a phase has run out of polls.
-/

namespace DBSos.Net.Dhcp

def dhcpServerPort : Port := 67

def dhcpClientPort : Port := 68

def fXid : Nat := 4

def fFlags : Nat := 10

def fYiaddr : Nat := 16

def fChaddr : Nat := 28

def fMagic : Nat := 236

def fOpt : Nat := 240

def bootpLen : Nat := 300

def mtDiscover : Byte := 1

def mtOffer : Byte := 2

def mtRequest : Byte := 3

def mtAck : Byte := 5

def oMsgType : Byte := 53

def oReqList : Byte := 55

def oClientId : Byte := 61

def oReqIp : Byte := 50

def oSrvId : Byte := 54

def oMask : Byte := 1

def oRouter : Byte := 3

def oDns : Byte := 6

def oEnd : Byte := 255

def magicCookie : List Byte := [0x63, 0x82, 0x53, 0x63]

/-- Overwrite the bytes from a position on. -/
def splice (pkt : List Byte) (pos : Nat) (data : List Byte) : List Byte :=
  pkt.take pos ++ data ++ pkt.drop (pos + data.length)

/-- `add_opt`. -/
def addOpt (built : List Byte × Nat) (code : Byte) (data : List Byte) : List Byte × Nat :=
  let (pkt, pos) := built
  if pos + 2 + data.length ≥ bootpLen then (pkt, pos)
  else (splice pkt pos (code :: BitVec.ofNat 8 data.length :: data), pos + 2 + data.length)

/-- `build_header`. -/
def buildHeader (mac : Mac) (xid : BitVec 32) : List Byte :=
  let pkt := splice (List.replicate bootpLen 0) 0 [1, 1, 6]
  let pkt := splice pkt fXid (be32 xid)
  let pkt := splice pkt fFlags [0x80, 0x00]
  let pkt := splice pkt fChaddr mac.toList
  splice pkt fMagic magicCookie

/-- End the options and cut the packet there. -/
def finish (built : List Byte × Nat) : List Byte :=
  (splice built.1 built.2 [oEnd]).take (built.2 + 1)

/-- What `send_discover` sends. -/
def discover (mac : Mac) (xid : BitVec 32) : List Byte :=
  let built := addOpt (buildHeader mac xid, fOpt) oMsgType [mtDiscover]
  let built := addOpt built oReqList [oMask, oRouter, oDns]
  finish (addOpt built oClientId (1 :: mac.toList))

/-- What `send_request` sends. -/
def request (mac : Mac) (xid : BitVec 32) (requestedIp serverId : List Byte) : List Byte :=
  let built := addOpt (buildHeader mac xid, fOpt) oMsgType [mtRequest]
  let built := addOpt built oReqIp requestedIp
  let built := addOpt built oSrvId serverId
  let built := addOpt built oReqList [oMask, oRouter, oDns]
  finish (addOpt built oClientId (1 :: mac.toList))

/-- The loop of `get_opt` from a position on. -/
def getOptFrom (pkt : List Byte) (code : Byte) (out : List Byte) : Nat → Nat → Nat × List Byte
  | 0, _ => (0, out)
  | fuel + 1, pos =>
    if pos < pkt.length then
      let c := pkt.getD pos 0
      if c = oEnd then (0, out)
      else if c = 0 then getOptFrom pkt code out fuel (pos + 1)
      else if pos + 1 ≥ pkt.length then (0, out)
      else
        let len := (pkt.getD (pos + 1) 0).toNat
        if pos + 2 + len > pkt.length then (0, out)
        else if c = code then
          let n := min len out.length
          (n, (pkt.drop (pos + 2)).take n ++ out.drop n)
        else getOptFrom pkt code out fuel (pos + 2 + len)
    else (0, out)

/-- `get_opt`: how many bytes it copied, and the buffer. -/
def getOpt (pkt : List Byte) (code : Byte) (out : List Byte) : Nat × List Byte :=
  if pkt.length < fOpt then (0, out) else getOptFrom pkt code out pkt.length fOpt

/-- `message_type`. -/
def messageType (pkt : List Byte) : Option Byte :=
  let read := getOpt pkt oMsgType [0]
  if read.1 = 1 then some (read.2.getD 0 0) else none

/-- The `xid` of a reply. -/
def replyXid (pkt : List Byte) : BitVec 32 :=
  u32From (pkt.getD fXid 0) (pkt.getD (fXid + 1) 0) (pkt.getD (fXid + 2) 0) (pkt.getD (fXid + 3) 0)

/-- The address that a reply gives us. -/
def yiaddr (pkt : List Byte) : List Byte := (pkt.drop fYiaddr).take 4

/-- The server that a reply names. -/
def serverId (pkt : List Byte) : List Byte := (getOpt pkt oSrvId [0, 0, 0, 0]).2

/-- The buffer that `wait_reply` copies a payload to. -/
def clip (payload : List Byte) : List Byte :=
  payload.take bootpLen ++ List.replicate (bootpLen - payload.length) 0

/-- What one round of `wait_reply` meets: the readings of the clock and the datagrams that
`poll` hands to `udp::input`. -/
structure Round where
  entered : Nat
  checked : Nat
  resent : Nat
  datagrams : List Datagram

/-- What a phase meets: the clock at its start and its rounds. -/
structure Phase where
  started : Nat
  sent : Nat
  rounds : List Round

/-- The tests that a payload passes on its way out of `wait_reply`. -/
def Answers (xid : BitVec 32) (dport : Port) (payload : List Byte) : Prop :=
  dport = dhcpClientPort ∧ fOpt ≤ payload.length ∧ payload.getD 0 0 = 2 ∧ replyXid payload = xid

instance (xid : BitVec 32) (dport : Port) (payload : List Byte) :
    Decidable (Answers xid dport payload) :=
  inferInstanceAs (Decidable (_ ∧ _ ∧ _ ∧ _))

/-- The loop of `wait_reply`: the buffer, the slot and how often the packet was sent again. -/
def waitRounds (xid : BitVec 32) (deadline : Nat) :
    List Round → Nat → RxSlot → Option (List Byte) × RxSlot × Nat
  | [], _, slot => (none, slot, 0)
  | round :: rest, lastSend, slot =>
    if round.entered < deadline then
      let slot := round.datagrams.foldl (fun slot d => slot.input d.frame) slot
      let resend := round.checked - lastSend ≥ 1000
      let lastSend := if resend then round.resent else lastSend
      let count := if resend then 1 else 0
      if slot.valid = true ∧ Answers xid slot.dport slot.payload then
        (some (clip slot.payload), slot, count)
      else
        let waited := waitRounds xid deadline rest lastSend slot
        (waited.1, waited.2.1, count + waited.2.2)
    else (none, slot, 0)

/-- `wait_reply`. -/
def waitReply (xid : BitVec 32) (timeoutMs : Nat) (phase : Phase) (slot : RxSlot) :
    Option (List Byte) × RxSlot × Nat :=
  waitRounds xid (phase.started + timeoutMs) phase.rounds phase.sent slot

/-- The configuration that a lease sets. -/
structure Settings where
  ip : List Byte
  netmask : List Byte
  gateway : List Byte
  dns : List Byte
  deriving DecidableEq

/-- The globals of the client and what it put on the wire. -/
structure Client where
  mac : Mac
  xid : BitVec 32
  slot : RxSlot
  settings : Settings
  wire : List (List Byte)

/-- `next_xid`. -/
def nextXid (xid : BitVec 32) : BitVec 32 := xid + 0x00010001

/-- The configuration that `run` applies, from the address of the OFFER and the options of the
ACK. -/
def settingsFrom (settings : Settings) (ip server ack : List Byte) : Settings :=
  let mask := (getOpt ack oMask [255, 255, 255, 0]).2
  let router := getOpt ack oRouter server
  let dns := (getOpt ack oDns [0, 0, 0, 0]).2
  { ip := ip
    netmask := mask
    gateway := if router.1 = 0 then server else router.2
    dns := if dns ≠ [0, 0, 0, 0] then dns else settings.dns }

/-- `run`. -/
def run (client : Client) (timeoutMs : Nat) (offers acks : Phase) : Bool × Client :=
  if client.mac = Vector.replicate 6 0 then (false, client)
  else
    let xid := nextXid client.xid
    let disc := discover client.mac xid
    let (offer, slot, resent) := waitReply xid timeoutMs offers client.slot.clear
    let client := { client with
      xid := xid, slot := slot, wire := client.wire ++ List.replicate (resent + 1) disc }
    match offer with
    | none => (false, client)
    | some offer =>
      if messageType offer ≠ some mtOffer then (false, client)
      else
        let ip := yiaddr offer
        let server := serverId offer
        let req := request client.mac xid ip server
        let (ack, slot, resent) := waitReply xid timeoutMs acks client.slot.clear
        let client := { client with
          slot := slot, wire := client.wire ++ List.replicate (resent + 1) req }
        match ack with
        | none => (false, client)
        | some ack =>
          if messageType ack ≠ some mtAck then (false, client)
          else (true, { client with settings := settingsFrom client.settings ip server ack })

end DBSos.Net.Dhcp
