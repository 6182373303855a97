import Mathlib.Data.List.Lex

/-!
# 802.11 frames and the station

What the driver reads of a received frame: its type, its sender, and the elements of a
beacon.
-/

namespace DBSos.Wifi

/-- The bytes of a frame. -/
abbrev Frame := List UInt8

def Frame.byte (data : Frame) (i : Nat) : Nat := (data.getD i 0).toNat

/-- A little-endian `u16`. -/
def Frame.u16 (data : Frame) (i : Nat) : Nat := data.byte i + 256 * data.byte (i + 1)

/-- The bytes `data[i..j]`. -/
def Frame.slice (data : Frame) (i j : Nat) : Frame := (data.drop i).take (j - i)

/-- The bytes behind the header. -/
def Frame.body (data : Frame) : Frame := data.drop 24

/-- `fc_type`. -/
def fcType (fc : Nat) : Nat := fc / 4 % 4

/-- `fc_subtype`. -/
def fcSubtype (fc : Nat) : Nat := fc / 16 % 16

def fcTypeMgmt : Nat := 0
def fcTypeData : Nat := 2
def fcSubtypeAssocResp : Nat := 1
def fcSubtypeProbeResp : Nat := 5
def fcSubtypeBeacon : Nat := 8
def fcSubtypeAuth : Nat := 11
def statusSuccess : Nat := 0

/-- `EAPOL_ETHER_TYPE`. -/
def eapolEtherType : Nat := 0x888E

/-- The EtherType behind the six bytes of an LLC header. -/
def etherType (payload : Frame) : Nat := payload.byte 6 * 256 + payload.byte 7

/-- What a frame is to `process_rx_frame`. -/
inductive Received where
  | ignored
  | scan
  | auth
  | assoc
  | eapol
deriving DecidableEq

/-- The tests of `process_rx_frame`. -/
def received (data : Frame) : Received :=
  let subtype := fcSubtype (data.u16 0)
  if data.length < 24 then .ignored
  else if fcType (data.u16 0) = fcTypeMgmt then
    if subtype = fcSubtypeBeacon ∨ subtype = fcSubtypeProbeResp then .scan
    else if subtype = fcSubtypeAuth then .auth
    else if subtype = fcSubtypeAssocResp then .assoc
    else .ignored
  else if fcType (data.u16 0) = fcTypeData then
    if 8 ≤ data.body.length ∧ etherType data.body = eapolEtherType then .eapol else .ignored
  else .ignored

/-- Address 2 of a frame: the station that sent it. -/
def transmitter (data : Frame) : Frame := data.slice 10 16

/-- The elements of a list, as far as they are whole. -/
def elementsFrom : Nat → Frame → List (UInt8 × Frame)
  | fuel + 1, id :: len :: rest =>
    if rest.length < len.toNat then []
    else (id, rest.take len.toNat) :: elementsFrom fuel (rest.drop len.toNat)
  | _, _ => []

def elements (ieData : Frame) : List (UInt8 × Frame) := elementsFrom ieData.length ieData

/-- `find_ssid`. -/
def findSsid (ieData : Frame) : Option Frame :=
  ((elements ieData).find? fun e => e.1 = 0).map Prod.snd

/-- `ds_channel`. -/
def dsChannel (ieData : Frame) : Option UInt8 :=
  ((elements ieData).find? fun e => e.1 = 3 ∧ 1 ≤ e.2.length).map fun e => e.2.getD 0 0

/-- `find_rsn`; the version has to be 1. -/
def findRsn (ieData : Frame) : Option Nat :=
  ((elements ieData).find? fun e => e.1 = 48 ∧ 2 ≤ e.2.length).bind fun e =>
    if Frame.u16 e.2 0 = 1 then some 1 else none

/-- `ScanResult`; the signal strength is a constant. -/
structure ScanResult where
  bssid : Frame
  ssid : Frame
  channel : UInt8
  capability : Nat
  hasRsn : Bool
  wpa2Psk : Bool
deriving DecidableEq

/-- What `handle_scan_response` reads of a beacon or a probe response. -/
def scanResult (data : Frame) : Option ScanResult :=
  if data.length ≤ 24 then none
  else
    if data.body.length ≤ 12 then none
    else
      let ieData := data.body.drop 12
      match findSsid ieData with
      | none => none
      | some ssid =>
        if ssid = [] then none
        else
          some
            { bssid := data.slice 16 22
              ssid := ssid.take 32
              channel := (dsChannel ieData).getD 0
              capability := data.u16 20
              hasRsn := (findRsn ieData).isSome
              wpa2Psk := (findRsn ieData).isSome }

/-!
## The supplicant

The four-way handshake as `supplicant.rs` has it. The hashes are parameters. Of the
messages it sends, the model keeps none.
-/

/-- What the driver uses: the radio's address, the stored profiles, and hashes. -/
structure Environment where
  mac : Frame
  find : (ssid : Frame) → Option Nat
  reveal : Nat → Option Frame
  pbkdf2 : (passphrase ssid : Frame) → Frame
  /-- `prf_sha1`, for a key of 48 bytes. -/
  prf : (key context : Frame) → Frame
  /-- The hash behind a MIC. -/
  mac128 : (key message : Frame) → Frame

/-- `Wpa2State`. -/
inductive Wpa2State where
  | disconnected
  | waitingMsg1
  | waitingMsg3
  | handshakeDone
deriving DecidableEq

/-- The statics of the supplicant. -/
structure Supplicant where
  state : Wpa2State
  anonce : Frame
  snonce : Frame
  pmk : Frame
  ptk : Frame
  kckValid : Bool
  sa : Frame
  aa : Frame
  replayCounter : Nat
deriving DecidableEq

namespace Supplicant

variable (env : Environment) (s : Supplicant)

def zeros (n : Nat) : Frame := List.replicate n 0

/-- `init`; the key and the addresses stay. -/
def reset : Supplicant :=
  { s with
    state := .disconnected
    kckValid := false
    replayCounter := 0
    snonce := zeros 32
    ptk := zeros 48 }

/-- `generate_snonce`: the channel and a constant. -/
def generateSnonce (channel : Nat) : Frame :=
  [UInt8.ofNat channel, UInt8.ofNat (channel / 256)] ++
    (List.range' 2 30).map fun i => UInt8.ofNat (i + 0x42)

/-- `start`. -/
def start (channel : Nat) (ap : Frame) : Supplicant :=
  { s with
    sa := env.mac
    aa := ap
    snonce := generateSnonce channel
    state := .waitingMsg1 }

/-- `"Pairwise key expansion"`. -/
def label : Frame :=
  [0x50, 0x61, 0x69, 0x72, 0x77, 0x69, 0x73, 0x65, 0x20, 0x6B, 0x65, 0x79, 0x20, 0x65, 0x78,
    0x70, 0x61, 0x6E, 0x73, 0x69, 0x6F, 0x6E]

/-- Two values, the smaller one first. -/
def ordered (a b : Frame) : Frame := if a < b then a ++ b else b ++ a

/-- The context of a pairwise key. -/
def context : Frame := label ++ ordered s.sa s.aa ++ ordered s.snonce s.anonce

/-- `derive_ptk`. -/
def derivePtk : Supplicant := { s with ptk := env.prf s.pmk s.context }

/-- `handle_msg1`. -/
def handleMsg1 (msg : Frame) : Supplicant :=
  if s.state ≠ .waitingMsg1 ∨ msg.length < 45 then s
  else
    let s := derivePtk env { s with anonce := msg.slice 13 45 }
    { s with replayCounter := s.replayCounter + 1, state := .waitingMsg3 }

/-- `handle_msg3`; nothing is verified. -/
def handleMsg3 (msg : Frame) : Supplicant :=
  if s.state ≠ .waitingMsg3 ∨ msg.length < 45 then s
  else { s with state := .handshakeDone, kckValid := true }

/-! ## What a message 3 should show -/

/-- The key confirmation key of a master key: the first 16 bytes of its pairwise key. -/
def kck (pmk : Frame) : Frame := (env.prf pmk s.context).take 16

/-- The MIC of a key frame, which stands in its bytes 77 to 93, verifies under a key. -/
def MicVerifies (key msg : Frame) : Prop :=
  99 ≤ msg.length ∧
    env.mac128 key (msg.slice 0 77 ++ zeros 16 ++ msg.drop 93) = msg.slice 77 93

instance (key msg : Frame) : Decidable (MicVerifies env key msg) := instDecidableAnd

end Supplicant

/-!
## The state of the station

`wifi/mod.rs`: a station associates with a network that it has seen, and received frames
drive it on. What `handle_eapol` does behind `dhcp::run` is a call of its own.
-/

/-- `WifiState`. -/
inductive WifiState where
  | noRadio
  | disconnected
  | scanning
  | authenticating
  | associating
  | associated
  | handshaking
  | connected
deriving DecidableEq

/-- The statics of the driver, and the channel of the radio. -/
structure Station where
  state : WifiState
  radioCount : Nat
  scanResults : List ScanResult
  ssid : Frame
  bssid : Frame
  channel : Nat
  currentChannel : Nat
  supplicant : Supplicant
deriving DecidableEq

/-- What `associate` returns. -/
inductive Association where
  | noRadio
  | notFound
  | authSent
  | openAuthSent
deriving DecidableEq

/-- An authentication response that says yes. -/
def AuthSuccess (data : Frame) : Prop := data.body.u16 4 = statusSuccess ∧ data.body.u16 2 = 2

instance (data : Frame) : Decidable (AuthSuccess data) := instDecidableAnd

/-- An association response that says yes. -/
def AssocSuccess (data : Frame) : Prop := data.body.u16 2 = statusSuccess

instance (data : Frame) : Decidable (AssocSuccess data) := instDecidableEqNat ..

namespace Station

variable (env : Environment) (s : Station)

/-- `get_current_pmk`. -/
def currentPmk : Option Frame :=
  if s.ssid = [] then none
  else
    match (env.find s.ssid).bind env.reveal with
    | none => none
    | some psk => if psk = [] then none else some (env.pbkdf2 psk s.ssid)

/-- `handle_scan_response`: the first 16 stations heard are kept. -/
def handleScanResponse (data : Frame) : Station :=
  match scanResult data with
  | none => s
  | some result =>
    if 16 ≤ s.scanResults.length ∨ ∃ r ∈ s.scanResults, r.bssid = result.bssid then s
    else { s with scanResults := s.scanResults ++ [result] }

/-- `handle_auth_response`. -/
def handleAuthResponse (data : Frame) : Station :=
  if data.body.length < 6 then s
  else if AuthSuccess data then { s with state := .associating }
  else { s with state := .disconnected }

/-- `handle_assoc_response`. -/
def handleAssocResponse (data : Frame) : Station :=
  if data.body.length < 4 then s
  else if AssocSuccess data then
    { s with
      state := .handshaking
      supplicant := s.supplicant.start env s.currentChannel s.bssid }
  else { s with state := .disconnected }

/-- `handle_eapol`, up to `dhcp::run`. -/
def handleEapol (payload : Frame) : Station :=
  if payload.length < 8 ∨ etherType payload ≠ eapolEtherType then s
  else
    let body := payload.drop 8
    match s.supplicant.state with
    | .waitingMsg1 => { s with supplicant := s.supplicant.handleMsg1 env body }
    | .waitingMsg3 =>
      let supplicant := s.supplicant.handleMsg3 body
      if supplicant.state = .handshakeDone then
        { s with supplicant := supplicant, state := .associated }
      else { s with supplicant := supplicant }
    | _ => s

/-- `handle_eapol`, behind `dhcp::run`. -/
def afterDhcp (leased : Bool) : Station :=
  { s with state := if leased then .connected else .disconnected }

/-- `process_rx_frame`. -/
def processRxFrame (data : Frame) : Station :=
  match received data with
  | .ignored => s
  | .scan => s.handleScanResponse data
  | .auth => s.handleAuthResponse data
  | .assoc => s.handleAssocResponse env data
  | .eapol => s.handleEapol env data.body

/-- The network that `associate` finds. -/
def network (ssid : Frame) : Option ScanResult :=
  (s.scanResults.find? fun r => r.ssid = ssid).filter fun r => r.bssid ≠ Supplicant.zeros 6

/-- `found_ch`. -/
def megahertz (channel : UInt8) : Nat := max 2412 (channel.toNat * 5 + 2407)

/-- `associate`. -/
def associate (ssid : Frame) : Association × Station :=
  if s.radioCount = 0 then (.noRadio, { s with state := .noRadio })
  else
    match s.network ssid with
    | none => (.notFound, s)
    | some r =>
      (if (env.find ssid).isSome then .authSent else .openAuthSent,
        { s with
          bssid := r.bssid
          channel := megahertz r.channel
          currentChannel := megahertz r.channel
          ssid := ssid.take 32
          state := .authenticating })

/-- `disconnect`. -/
def disconnect : Station :=
  { s with
    state := .disconnected
    ssid := []
    bssid := Supplicant.zeros 6
    supplicant := s.supplicant.reset }

end Station

end DBSos.Wifi
