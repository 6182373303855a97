import DBSos.Net.Checksums
import DBSos.Net.Udp

/-!
# Frames on their way up

`input_frame` takes an Ethernet frame apart at fixed offsets. It does not look at the length of
the IP header nor at the total length, so options and padding go up with the payload, and it
reads an ICMP header without asking whether the frame has one.
-/

namespace DBSos.Net

/-- `OUR_IP` and `OUR_MAC`. -/
structure Host where
  ip : Ipv4
  mac : Mac

/-- What `input_frame` calls. -/
inductive Handoff where
  | arpLearn (ip mac : List Byte)
  | txRoute (frame : List Byte)
  | tcpInput (peerIp peerMac data : List Byte)
  | udpInput (data srcIp srcMac : List Byte)
  deriving DecidableEq

/-- The bytes of a field. -/
def field (data : List Byte) (off len : Nat) : List Byte := (data.drop off).take len

def ethTypeArp : List Byte := [0x08, 0x06]

def ethTypeIp : List Byte := [0x08, 0x00]

def arpRequest : List Byte := [0x00, 0x01]

def arpReply : List Byte := [0x00, 0x02]

def ipProtoTcp : Byte := 6

def ipProtoIcmp : Byte := 1

/-- `build_arp_reply`, as far as it is sent. -/
def buildArpReply (host : Host) (senderMac senderIp : List Byte) : List Byte :=
  senderMac ++ host.mac.toList ++ ethTypeArp ++ [0x00, 0x01, 0x08, 0x00, 6, 4] ++ arpReply ++
    host.mac.toList ++ host.ip.toList ++ senderMac ++ senderIp

/-- `build_icmp_reply`, as far as it is sent. `none` is the panic of the store behind the
buffer. -/
def buildIcmpReply (host : Host) (senderMac src rest payload : List Byte) :
    Option (List Byte) := do
  let ipLen := BitVec.ofNat 16 (20 + 8 + payload.length)
  let header := [0x45, 0] ++ be16 ipLen ++ [0, 0, 0, 0, 64, ipProtoIcmp, 0, 0] ++
    host.ip.toList ++ src
  let csum ← ipChecksum header
  if 14 + 20 + 8 + payload.length > 1514 then none
  else do
    let icmp := [0, 0, 0, 0] ++ rest ++ payload
    let icmpCsum ← ipChecksum icmp
    some (senderMac ++ host.mac.toList ++ ethTypeIp ++ putWord header 10 csum ++
      putWord icmp 2 icmpCsum)

/-- The part of `input_frame` about ARP. -/
def arpHandoffs (host : Host) (data : List Byte) : List Handoff :=
  let op := field data 20 2
  let senderMac := field data 22 6
  let senderIp := field data 28 4
  let forUs := field data 38 4 = host.ip.toList
  (if op = arpRequest ∧ forUs then
    [.txRoute (buildArpReply host senderMac senderIp), .arpLearn senderIp senderMac] else []) ++
  if op = arpReply ∧ forUs then [.arpLearn senderIp senderMac] else []

/-- The frame is for us: by its address, or for the DHCP client. -/
def ours (host : Host) (data : List Byte) : Bool :=
  field data 30 4 = host.ip.toList ∨ field data 30 4 = [255, 255, 255, 255] ∨
    field data 30 4 = [0, 0, 0, 0] ∨
    data.getD 23 0 = BitVec.ofNat 8 ipProtoUdp ∧ 34 + 8 ≤ data.length ∧
      u16From (data.getD 36 0) (data.getD 37 0) = 68

/-- The part of `input_frame` about IP. `none` is an access beyond the frame or the buffer. -/
def ipHandoffs (host : Host) (data : List Byte) : Option (List Handoff) :=
  if ours host data then
    let src := field data 26 4
    let ethSrc := field data 6 6
    let learned : List Handoff := if src = [0, 0, 0, 0] then [] else [.arpLearn src ethSrc]
    if data.getD 23 0 = ipProtoTcp then some (learned ++ [.tcpInput src ethSrc (data.drop 34)])
    else if data.getD 23 0 = BitVec.ofNat 8 ipProtoUdp then
      some (learned ++ [.udpInput data src ethSrc])
    else if data.getD 23 0 = ipProtoIcmp then do
      let typ ← data[34]?
      if typ = 8 then
        if 42 ≤ data.length then do
          let reply ← buildIcmpReply host ethSrc src (field data 38 4) (data.drop 42)
          some (learned ++ [.txRoute reply])
        else none
      else some learned
    else some learned
  else some []

/-- `input_frame`. -/
def inputFrame (host : Host) (data : List Byte) : Option (List Handoff) :=
  if data.length < 14 then some []
  else do
    let arp := if field data 12 2 = ethTypeArp ∧ 42 ≤ data.length then arpHandoffs host data else []
    let ip ← if field data 12 2 = ethTypeIp ∧ 34 ≤ data.length then ipHandoffs host data
      else some []
    some (arp ++ ip)

/-! ## The packet in a frame -/

/-- The length of the IP header. -/
def headerLen (data : List Byte) : Nat := (data.getD 14 0 &&& 0x0F).toNat * 4

/-- The total length of the packet. -/
def totalLen (data : List Byte) : Nat := (u16From (data.getD 16 0) (data.getD 17 0)).toNat

/-- The payload of the packet. -/
def ipPayload (data : List Byte) : List Byte :=
  field data (14 + headerLen data) (totalLen data - headerLen data)

/-- The frame holds a whole IPv4 packet. -/
structure HoldsPacket (data : List Byte) : Prop where
  ethertype : field data 12 2 = ethTypeIp
  version : data.getD 14 0 >>> 4 = 4
  header : 20 ≤ headerLen data
  total : headerLen data ≤ totalLen data
  whole : 14 + totalLen data ≤ data.length
  unfragmented : u16From (data.getD 20 0) (data.getD 21 0) &&& 0x3FFF = 0
  checksum : ipChecksum (field data 14 (headerLen data)) = some 0

/-- A call hands on the payload of the packet: the segment, the datagram in the slot, or what is
echoed behind type and checksum. -/
def Handoff.Exact (slot : RxSlot) (data : List Byte) : Handoff → Prop
  | .arpLearn .. => True
  | .txRoute frame => frame.drop 38 = (ipPayload data).drop 4
  | .tcpInput _ _ segment => segment = ipPayload data
  | .udpInput frame _ _ =>
    RxSlot.Accepted frame → (slot.input frame).payload = (ipPayload data).drop udpHdr

/-- A frame with an IP header, which is for us. -/
structure Taken (host : Host) (data : List Byte) : Prop where
  ethertype : field data 12 2 = ethTypeIp
  header : 34 ≤ data.length
  ours : ours host data = true

/-- All accesses stay in the frame and the reply. -/
def InBounds (data : List Byte) : Prop :=
  data.getD 23 0 = ipProtoIcmp →
    34 < data.length ∧ (data.getD 34 0 = 8 → 42 ≤ data.length ∧ data.length ≤ 1514)

/-- The fixed offsets are those of the packet. -/
structure Aligned (data : List Byte) : Prop where
  tcp : data.getD 23 0 = ipProtoTcp → headerLen data = 20 ∧ 14 + totalLen data = data.length
  udp : data.getD 23 0 = BitVec.ofNat 8 ipProtoUdp → RxSlot.Accepted data →
    min (RxSlot.claimedLen data) udpBuf = totalLen data - headerLen data - udpHdr ∧
      field data 42 (totalLen data - headerLen data - udpHdr) =
        field data (14 + headerLen data + udpHdr) (totalLen data - headerLen data - udpHdr)
  icmp : data.getD 23 0 = ipProtoIcmp → data.getD 34 0 = 8 →
    headerLen data = 20 ∧ 14 + totalLen data = data.length

/-- What is expected of `input_frame`, whatever was in the UDP slot before. -/
def HandsOnPayload (host : Host) (earlier : List (List Byte)) (data : List Byte) : Prop :=
  ∃ handoffs, inputFrame host data = some handoffs ∧
    (HoldsPacket data → ∀ handoff ∈ handoffs, handoff.Exact (RxSlot.after earlier) data)

/-! ## What is handed on -/

variable {host : Host} {data : List Byte}

theorem length_field {off len : Nat} (inside : off + len ≤ data.length) :
    (field data off len).length = len := by
  rw [field, List.length_take, List.length_drop]
  omega

/-- An echo repeats all behind type and checksum, if the buffer holds it. -/
theorem buildIcmpReply_spec (host : Host) {senderMac src rest : List Byte}
    (macLength : senderMac.length = 6) (srcLength : src.length = 4) (restLength : rest.length = 4) (payload : List Byte) :
    (42 + payload.length ≤ 1514 ∧ ∃ reply, buildIcmpReply host senderMac src rest payload =
      some reply ∧ reply.drop 38 = rest ++ payload) ∨
    (1514 < 42 + payload.length ∧ buildIcmpReply host senderMac src rest payload = none) := by
  have sums (buf : List Byte) (short : buf.length ≤ 65535) :
      ∃ csum, ipChecksum buf = some csum := by
    rw [ipChecksum_eq, if_pos (wordSum_lt short)]
    exact ⟨_, rfl⟩
  obtain ⟨csum, summed⟩ := sums ([0x45, 0] ++ be16 (BitVec.ofNat 16 (20 + 8 + payload.length)) ++
    [0, 0, 0, 0, 64, ipProtoIcmp, 0, 0] ++ host.ip.toList ++ src) (by simp [srcLength, be16])
  rw [buildIcmpReply, summed, Option.bind_eq_bind, Option.bind_some]
  by_cases fits : 42 + payload.length ≤ 1514
  · obtain ⟨icmpCsum, icmpSummed⟩ := sums ([0, 0, 0, 0] ++ rest ++ payload) (by
      simp [restLength]; omega)
    rw [if_neg (by omega)]
    dsimp only
    rw [icmpSummed, Option.bind_some]
    refine .inl ⟨fits, _, rfl, ?_⟩
    have front : (senderMac ++ host.mac.toList ++ ethTypeIp ++ putWord ([0x45, 0] ++
        be16 (BitVec.ofNat 16 (20 + 8 + payload.length)) ++
        [0, 0, 0, 0, 64, ipProtoIcmp, 0, 0] ++ host.ip.toList ++ src) 10 csum).length = 34 := by
      simp [putWord, macLength, srcLength, be16, ethTypeIp]
    rw [show 38 = 34 + 4 from rfl, ← List.drop_drop, List.drop_left' front]
    rfl
  · rw [if_pos (by omega)]
    exact .inr ⟨by omega, rfl⟩

theorem inputFrame_of_taken (taken : Taken host data) :
    inputFrame host data = ipHandoffs host data := by
  have header := taken.header
  have notArp : ¬ (field data 12 2 = ethTypeArp ∧ 42 ≤ data.length) := by
    rw [taken.ethertype]
    exact fun both => absurd both.1 (by decide)
  rw [inputFrame, if_neg (by omega), if_neg notArp, if_pos ⟨taken.ethertype, header⟩]
  cases ipHandoffs host data <;> rfl

/-- Nothing of an IP packet that is not for us is handed on. -/
theorem inputFrame_of_not_taken (other : ¬ Taken host data) :
    ∃ handoffs, inputFrame host data = some handoffs ∧
      (field data 12 2 = ethTypeIp → handoffs = []) := by
  have ip : (if field data 12 2 = ethTypeIp ∧ 34 ≤ data.length then ipHandoffs host data
      else some []) = some [] := by
    split_ifs with packet
    · rw [ipHandoffs, if_neg fun ours => other ⟨packet.1, packet.2, ours⟩]
    · rfl
  have frame : inputFrame host data = if data.length < 14 then some []
      else some ((if field data 12 2 = ethTypeArp ∧ 42 ≤ data.length then arpHandoffs host data
        else []) ++ []) := by
    unfold inputFrame
    split_ifs at ip ⊢ <;> first | rfl | (rw [ip]; rfl)
  rw [frame]
  split_ifs with short arp
  · exact ⟨[], rfl, fun _ => rfl⟩
  · refine ⟨_, rfl, fun isIp => ?_⟩
    rw [arp.1] at isIp
    exact absurd isIp (by decide)
  · exact ⟨_, rfl, fun _ => rfl⟩

/-- A frame from behind an IP header of 20 bytes on is the payload exactly where the header has
20 bytes and there is no padding. -/
theorem drop_eq_ipPayload_iff (packet : HoldsPacket data) {k : Nat}
    (inside : k = 0 ∨ 34 + k < data.length) :
    data.drop (34 + k) = (ipPayload data).drop k ↔
      headerLen data = 20 ∧ 14 + totalLen data = data.length := by
  have header := packet.header
  have total := packet.total
  have whole := packet.whole
  constructor
  · intro same
    have lengths := congrArg List.length same
    rw [List.length_drop, List.length_drop, ipPayload, length_field (by omega)] at lengths
    omega
  · rintro ⟨plain, unpadded⟩
    have rest : (data.drop 34).length = totalLen data - 20 := by
      rw [List.length_drop]
      omega
    rw [ipPayload, plain, field, ← rest, List.take_length, List.drop_drop]

theorem drop_ipPayload (data : List Byte) :
    (ipPayload data).drop udpHdr =
      field data (14 + headerLen data + udpHdr) (totalLen data - headerLen data - udpHdr) := by
  rw [ipPayload, field, field, List.drop_take, List.drop_drop]

/-- The slot holds the payload of a packet exactly where the UDP length says so and the bytes
behind the fixed offset are the same. -/
theorem payload_eq_ipPayload_iff (packet : HoldsPacket data) (accepted : RxSlot.Accepted data)
    (earlier : List (List Byte)) :
    ((RxSlot.after earlier).input data).payload = (ipPayload data).drop udpHdr ↔
      min (RxSlot.claimedLen data) udpBuf = totalLen data - headerLen data - udpHdr ∧
        field data 42 (totalLen data - headerLen data - udpHdr) =
          field data (14 + headerLen data + udpHdr) (totalLen data - headerLen data - udpHdr) := by
  have header := packet.header
  have total := packet.total
  have whole := packet.whole
  have long : 42 ≤ data.length := accepted
  rw [drop_ipPayload, RxSlot.payload_input accepted]
  have expected : (field data (14 + headerLen data + udpHdr)
      (totalLen data - headerLen data - udpHdr)).length =
        totalLen data - headerLen data - udpHdr := by
    rw [field, List.length_take, List.length_drop, udpHdr]
    omega
  have stored : ((RxSlot.carried data).take udpBuf ++
      ((RxSlot.after earlier).buf.take (min (RxSlot.claimedLen data) udpBuf)).drop
        (data.length - 42)).length = min (RxSlot.claimedLen data) udpBuf := by
    rw [List.length_append, List.length_take, RxSlot.carried, List.length_take, List.length_drop,
      List.length_drop, List.length_take, RxSlot.length_after]
    omega
  have carried (lengths : min (RxSlot.claimedLen data) udpBuf =
      totalLen data - headerLen data - udpHdr) : (RxSlot.carried data).take udpBuf ++
      ((RxSlot.after earlier).buf.take (min (RxSlot.claimedLen data) udpBuf)).drop
        (data.length - 42) = field data 42 (totalLen data - headerLen data - udpHdr) := by
    rw [(RxSlot.stale_eq_nil_iff earlier data).mpr (by unfold udpHdr at lengths; omega),
      List.append_nil, RxSlot.carried, List.take_take, Nat.min_comm, lengths, field]
  constructor
  · intro same
    have lengths := congrArg List.length same
    rw [stored, expected] at lengths
    exact ⟨lengths, (carried lengths).symm.trans same⟩
  · rintro ⟨lengths, same⟩
    rw [carried lengths, same]

/-- What is learned before a packet goes up. -/
def learned (data : List Byte) : List Handoff :=
  if field data 26 4 = [0, 0, 0, 0] then []
  else [.arpLearn (field data 26 4) (field data 6 6)]

theorem learned_exact (slot : RxSlot) : ∀ handoff ∈ learned data, handoff.Exact slot data := by
  unfold learned
  split_ifs
  · exact fun handoff member => absurd member List.not_mem_nil
  · rintro handoff member
    obtain rfl := List.mem_singleton.mp member
    trivial

/-- A packet goes up exactly where the one call behind what is learned is exact. -/
theorem exact_iff_last {slot : RxSlot} (last : Handoff) :
    (∀ handoff ∈ learned data ++ [last], handoff.Exact slot data) ↔ last.Exact slot data := by
  constructor
  · intro all
    exact all last (List.mem_append_right _ List.mem_cons_self)
  · intro exact handoff member
    rcases List.mem_append.mp member with before | here
    · exact learned_exact slot handoff before
    · obtain rfl := List.mem_singleton.mp here
      exact exact

/-- The four ways of a packet for us. -/
theorem ipHandoffs_of_ours (isOurs : ours host data = true) :
    ipHandoffs host data =
      if data.getD 23 0 = ipProtoTcp then
        some (learned data ++ [.tcpInput (field data 26 4) (field data 6 6) (data.drop 34)])
      else if data.getD 23 0 = BitVec.ofNat 8 ipProtoUdp then
        some (learned data ++ [.udpInput data (field data 26 4) (field data 6 6)])
      else if data.getD 23 0 = ipProtoIcmp then do
        let typ ← data[34]?
        if typ = 8 then
          if 42 ≤ data.length then do
            let reply ← buildIcmpReply host (field data 6 6) (field data 26 4) (field data 38 4)
              (data.drop 42)
            some (learned data ++ [.txRoute reply])
          else none
        else some (learned data)
      else some (learned data) :=
  if_pos isOurs

/-- An ICMP packet: only an echo request is answered, with what lies behind its header. -/
theorem echo_iff {slot : RxSlot} {senderMac src : List Byte} (mac : senderMac.length = 6)
    (address : src.length = 4) :
    (∃ handoffs, (do
        let typ ← data[34]?
        if typ = 8 then
          if 42 ≤ data.length then do
            let reply ← buildIcmpReply host senderMac src (field data 38 4) (data.drop 42)
            some (learned data ++ [Handoff.txRoute reply])
          else none
        else some (learned data)) = some handoffs ∧
      (HoldsPacket data → ∀ handoff ∈ handoffs, handoff.Exact slot data)) ↔
      (34 < data.length ∧ (data.getD 34 0 = 8 → 42 ≤ data.length ∧ data.length ≤ 1514)) ∧
        (HoldsPacket data → data.getD 34 0 = 8 →
          headerLen data = 20 ∧ 14 + totalLen data = data.length) := by
  by_cases inside : 34 < data.length
  · have typRead : data[34]? = some (data.getD 34 0) := by
      rw [List.getElem?_eq_getElem inside, List.getD_eq_getElem _ _ inside]
    rw [typRead, Option.bind_eq_bind, Option.bind_some]
    by_cases request : data.getD 34 0 = 8
    · rw [if_pos request]
      by_cases long : 42 ≤ data.length
      · have rest : (field data 38 4).length = 4 := length_field long
        have payload : (data.drop 42).length = data.length - 42 := List.length_drop
        rw [if_pos long]
        rcases buildIcmpReply_spec host mac address rest (data.drop 42) with
          ⟨fits, reply, built, echoed⟩ | ⟨beyond, panics⟩
        · have echo : reply.drop 38 = data.drop (34 + 4) := by
            rw [echoed, field, ← List.drop_drop (i := 4) (j := 38), List.take_append_drop]
          rw [built, Option.bind_eq_bind, Option.bind_some]
          constructor
          · rintro ⟨handoffs, handed, exact⟩
            obtain rfl := Option.some.inj handed
            refine ⟨⟨inside, fun _ => ⟨long, by omega⟩⟩, fun packet _ => ?_⟩
            exact (drop_eq_ipPayload_iff packet (.inr (by omega))).mp
              (echo.symm.trans ((exact_iff_last _).mp (exact packet)))
          · rintro ⟨-, aligned⟩
            refine ⟨_, rfl, fun packet => (exact_iff_last _).mpr ?_⟩
            exact echo.trans ((drop_eq_ipPayload_iff packet (.inr (by omega))).mpr
              (aligned packet request))
        · rw [panics]
          refine iff_of_false ?_ ?_
          · rintro ⟨handoffs, handed, -⟩
            cases handed
          · rintro ⟨⟨-, bounds⟩, -⟩
            have := (bounds request).2
            omega
      · rw [if_neg long]
        refine iff_of_false ?_ fun both => long (both.1.2 request).1
        rintro ⟨handoffs, handed, -⟩
        cases handed
    · rw [if_neg request]
      exact iff_of_true ⟨_, rfl, fun _ => learned_exact slot⟩
        ⟨⟨inside, fun isRequest => absurd isRequest request⟩,
          fun _ isRequest => absurd isRequest request⟩
  · rw [List.getElem?_eq_none (Nat.le_of_not_lt inside)]
    refine iff_of_false ?_ fun both => inside both.1.1
    rintro ⟨handoffs, handed, -⟩
    cases handed

/-- `input_frame` stays in bounds and hands on exactly the payload of a packet, where the ICMP
header is in the frame, the echo in the reply, and the fixed offsets are those of the packet. -/
theorem handsOnPayload_iff (host : Host) (earlier : List (List Byte)) (data : List Byte) :
    HandsOnPayload host earlier data ↔
      (Taken host data → InBounds data ∧ (HoldsPacket data → Aligned data)) := by
  by_cases taken : Taken host data
  · have header := taken.header
    have mac : (field data 6 6).length = 6 := length_field (by omega)
    have src : (field data 26 4).length = 4 := length_field (by omega)
    rw [forall_prop_of_true taken, HandsOnPayload, inputFrame_of_taken taken,
      ipHandoffs_of_ours taken.ours]
    by_cases tcp : data.getD 23 0 = ipProtoTcp
    · have notUdp : data.getD 23 0 ≠ BitVec.ofNat 8 ipProtoUdp := by
        rw [tcp]
        decide
      have notIcmp : data.getD 23 0 ≠ ipProtoIcmp := by
        rw [tcp]
        decide
      rw [if_pos tcp]
      constructor
      · rintro ⟨handoffs, handed, exact⟩
        obtain rfl := Option.some.inj handed
        refine ⟨fun icmp => absurd icmp notIcmp, fun packet => ⟨fun _ => ?_,
          fun udp => absurd udp notUdp, fun icmp => absurd icmp notIcmp⟩⟩
        exact (drop_eq_ipPayload_iff packet (.inl rfl)).mp ((exact_iff_last _).mp (exact packet))
      · rintro ⟨-, aligned⟩
        refine ⟨_, rfl, fun packet => (exact_iff_last _).mpr ?_⟩
        exact (drop_eq_ipPayload_iff packet (.inl rfl)).mpr ((aligned packet).tcp tcp)
    · by_cases udp : data.getD 23 0 = BitVec.ofNat 8 ipProtoUdp
      · have notIcmp : data.getD 23 0 ≠ ipProtoIcmp := by
          rw [udp]
          decide
        rw [if_neg tcp, if_pos udp]
        constructor
        · rintro ⟨handoffs, handed, exact⟩
          obtain rfl := Option.some.inj handed
          refine ⟨fun icmp => absurd icmp notIcmp, fun packet => ⟨fun isTcp => absurd isTcp tcp,
            fun _ accepted => ?_, fun icmp => absurd icmp notIcmp⟩⟩
          exact (payload_eq_ipPayload_iff packet accepted earlier).mp
            ((exact_iff_last _).mp (exact packet) accepted)
        · rintro ⟨-, aligned⟩
          refine ⟨_, rfl, fun packet => (exact_iff_last _).mpr fun accepted => ?_⟩
          exact (payload_eq_ipPayload_iff packet accepted earlier).mpr
            ((aligned packet).udp udp accepted)
      · by_cases icmp : data.getD 23 0 = ipProtoIcmp
        · rw [if_neg tcp, if_neg udp, if_pos icmp]
          have only : Aligned data ↔ (data.getD 34 0 = 8 → headerLen data = 20 ∧
              14 + totalLen data = data.length) :=
            ⟨fun aligned => aligned.icmp icmp, fun aligned => ⟨fun isTcp => absurd isTcp tcp,
              fun isUdp => absurd isUdp udp, fun _ => aligned⟩⟩
          rw [only, InBounds, forall_prop_of_true icmp]
          exact echo_iff mac src
        · rw [if_neg tcp, if_neg udp, if_neg icmp]
          refine iff_of_true ⟨_, rfl, fun _ => learned_exact _⟩ ⟨fun isIcmp => absurd isIcmp icmp,
            fun _ => ⟨fun isTcp => absurd isTcp tcp, fun isUdp => absurd isUdp udp,
              fun isIcmp => absurd isIcmp icmp⟩⟩
  · refine iff_of_true ?_ fun isTaken => absurd isTaken taken
    obtain ⟨handoffs, handed, none⟩ := inputFrame_of_not_taken taken
    refine ⟨handoffs, handed, fun packet => ?_⟩
    rw [none packet.ethertype]
    exact fun handoff member => absurd member List.not_mem_nil

section Samples

def someHost : Host := { ip := #v[10, 0, 0, 2], mac := #v[2, 0, 0, 0, 0, 2] }

/-- A TCP segment without data in the shortest Ethernet frame, which has six bytes of padding. -/
def paddedAck : List Byte :=
  [2, 0, 0, 0, 0, 2, 2, 0, 0, 0, 0, 9, 0x08, 0x00] ++
    ([0x45, 0, 0, 40, 0, 0, 0, 0, 64, 6, 0x66, 0xC6, 10, 0, 0, 9, 10, 0, 0, 2] ++
      ([0x1F, 0x90, 0xC0, 0, 0, 0, 0, 1, 0, 0, 0, 1, 0x50, 0x10, 0x20, 0, 0, 0, 0, 0] ++
        List.replicate 6 0))

theorem paddedAck_holdsPacket : HoldsPacket paddedAck where
  ethertype := by decide
  version := by decide
  header := by decide
  total := by decide
  whole := by decide
  unfragmented := by decide
  checksum := by decide +kernel

/-- The padding goes up as data of the segment. -/
theorem not_handsOnPayload_paddedAck : ¬ HandsOnPayload someHost [] paddedAck := by
  rintro ⟨handoffs, handed, exact⟩
  have up : inputFrame someHost paddedAck = some [.arpLearn [10, 0, 0, 9] [2, 0, 0, 0, 0, 9],
      .tcpInput [10, 0, 0, 9] [2, 0, 0, 0, 0, 9] (paddedAck.drop 34)] := by decide
  obtain rfl := Option.some.inj (up.symm.trans handed)
  have segment : paddedAck.drop 34 = ipPayload paddedAck :=
    exact paddedAck_holdsPacket (.tcpInput _ _ _) (List.mem_cons_of_mem _ List.mem_cons_self)
  exact absurd segment (by decide)

/-- An echo request that ends behind its type. -/
example : inputFrame someHost (paddedAck.take 23 ++ 1 :: (paddedAck.drop 24).take 10 ++ [8]) =
    none := by decide

end Samples

end DBSos.Net
