import DBSos.Lib.Fields
import DBSos.Wifi.Mlme
import DBSos.Wifi.Sha1

/-!
# Key frames

How the messages of the four-way handshake are built and read, the key that both sides derive, and
the data frame around a message. `parse_eapol_key`, the two builders, `handle_msg1` and
`send_eapol_frame` each count the bytes on their own; the layouts they should agree on are the
EAPOL-Key frame, in which the replay counter stands at 9, the nonce at 17 and the length of the key
data at 97, and the QoS data frame with its header of 26 bytes and 8 bytes of LLC/SNAP.

`none` is the panic of an access behind a buffer.
-/

namespace DBSos.Wifi

open DBSos.Lib

/-- `EapolKey`. -/
structure EapolKey where
  keyInfo : Nat
  keyLen : Nat
  keyReplayCounter : Nat
  keyMic : Frame
  keyDataLen : Nat
deriving DecidableEq

/-- A big-endian number in the bytes `data[i..i + len]`. -/
def Frame.big (data : Frame) (i len : Nat) : Nat :=
  (data.slice i (i + len)).foldl (fun value b => value * 256 + b.toNat) 0

/-- `parse_eapol_key`. -/
def parseEapolKey (data : Frame) : Option EapolKey :=
  if data.length < 99 then none
  else
    some
      { keyInfo := data.big 5 2
        keyLen := data.big 7 2
        keyReplayCounter := data.big 9 8
        keyMic := data.slice 77 93
        keyDataLen := data.big 97 2 }

/-- The length field, which both builders fill in last. -/
def fillLength (pos : Nat) (out : Frame) : Option (Frame × Nat) := do
  let eapolLen := pos - 4
  let out ← overwrite 2 [UInt8.ofNat (eapolLen / 256)] out
  let out ← overwrite 3 [UInt8.ofNat eapolLen] out
  return (out, pos)

/-- `build_eapol_msg2`; the addresses are not used. -/
def buildEapolMsg2 (snonce : Vector UInt8 32) (mic : Vector UInt8 16) (out : Frame) :
    Option (Frame × Nat) := do
  let pos := 0
  let out ← overwrite pos [0x01] out
  let pos := pos + 1
  let out ← overwrite pos [0x03] out
  let pos := pos + 1
  let out ← overwrite pos [0, 0] out
  let pos := pos + 2
  let out ← overwrite pos [0x01] out
  let pos := pos + 1
  let out ← overwrite pos [0x0A] out
  let pos := pos + 1
  let out ← overwrite pos [0, 16] out
  let pos := pos + 2
  -- of the replay counter, only the first byte is written
  let out ← overwrite pos [1] out
  let pos := pos + 8
  let out ← overwrite pos snonce.toList out
  let pos := pos + 32
  let out ← overwrite pos mic.toList out
  let pos := pos + 16
  let out ← overwrite pos [0, 0] out
  let pos := pos + 2
  fillLength pos out

/-- `build_eapol_msg4`. -/
def buildEapolMsg4 (out : Frame) : Option (Frame × Nat) := do
  let pos := 0
  let out ← overwrite pos [0x01] out
  let pos := pos + 1
  let out ← overwrite pos [0x03] out
  let pos := pos + 1
  let out ← overwrite pos [0, 0] out
  let pos := pos + 2
  let out ← overwrite pos [0x03] out
  let pos := pos + 1
  let out ← overwrite pos [0x0A] out
  let pos := pos + 1
  let out ← overwrite pos [0, 0] out
  let pos := pos + 2
  let pos := pos + 8
  let pos := pos + 32
  let pos := pos + 16
  let out ← overwrite pos [0, 0] out
  let pos := pos + 2
  fillLength pos out

/-- `make_fc` for a QoS data frame to the network. -/
def dataFc : Nat := 1 * 2 ^ 8 + 8 * 2 ^ 4 + 2 * 2 ^ 2

/-- `MAX_80211_FRAME`. -/
def max80211Frame : Nat := 2346

/-- `send_eapol_frame`: what it hands to `tx_frame`. -/
def sendEapolFrame (staAddr bssid : Vector UInt8 6) (frame : Frame) : Option Frame := do
  let pos := 0
  let data ← overwrite pos [UInt8.ofNat dataFc] (List.replicate max80211Frame 0)
  let pos := pos + 1
  let data ← overwrite pos [UInt8.ofNat (dataFc / 256)] data
  let pos := pos + 1
  let data ← overwrite pos [0, 0] data
  let pos := pos + 2
  let data ← overwrite pos bssid.toList data
  let pos := pos + 6
  let data ← overwrite pos staAddr.toList data
  let pos := pos + 6
  let data ← overwrite pos bssid.toList data
  let pos := pos + 6
  let data ← overwrite pos [0, 0] data
  let pos := pos + 2
  let data ← overwrite pos [0, 0] data
  let pos := pos + 2
  let data ← overwrite pos [0xAA, 0xAA, 0x03, 0x00, 0x00, 0x00] data
  let data ← overwrite pos [UInt8.ofNat (eapolEtherType / 256)] data
  let pos := pos + 1
  let data ← overwrite pos [UInt8.ofNat eapolEtherType] data
  let pos := pos + 1
  -- `pos` has gone on by two, and goes back by eight
  let pos := pos - 8
  let data ← overwrite pos [0xAA, 0xAA, 0x03, 0x00, 0x00, 0x00] data
  let pos := pos + 6
  let data ← overwrite pos [UInt8.ofNat (eapolEtherType / 256)] data
  let pos := pos + 1
  let data ← overwrite pos [UInt8.ofNat eapolEtherType] data
  let pos := pos + 1
  let bodyLen := min frame.length (max80211Frame - pos)
  let data ← overwrite pos (frame.take bodyLen) data
  return data.take (pos + bodyLen)

/-! ## What they should agree on -/

/-- The data frame that carries a body: header, LLC/SNAP with the EtherType, and the body. -/
def dataFrame (staAddr bssid : Vector UInt8 6) (body : Frame) : Frame :=
  [UInt8.ofNat dataFc, UInt8.ofNat (dataFc / 256), 0, 0] ++ bssid.toList ++ staAddr.toList ++
    bssid.toList ++ [0, 0] ++ [0, 0] ++
    [0xAA, 0xAA, 0x03, 0x00, 0x00, 0x00, 0x88, 0x8E] ++ body

/-- The parser finds in a built message what was put in, and the replay counter of the message
that it answers. -/
def ReadsBack (built : Option (Frame × Nat)) (keyInfo keyLen : Nat) (mic answered : Frame) : Prop :=
  ∃ out pos key, built = some (out, pos) ∧ parseEapolKey (out.take pos) = some key ∧
    key.keyInfo = keyInfo ∧ key.keyLen = keyLen ∧ key.keyReplayCounter = answered.big 9 8 ∧
    key.keyMic = mic

namespace Supplicant

/-- The statics are arrays of these sizes. -/
structure Sized (s : Supplicant) : Prop where
  pmk : s.pmk.length = 32
  sa : s.sa.length = 6
  aa : s.aa.length = 6
  snonce : s.snonce.length = 32
  anonce : s.anonce.length = 32

/-- The text that 802.11 hashes for a part of the pairwise key: the label, a zero, the addresses and
nonces, each smaller one first, and the number of the part. -/
def standardText (s : Supplicant) (i : Nat) : Frame :=
  label ++ [0] ++ (ordered s.sa s.aa ++ ordered s.snonce s.anonce) ++ [UInt8.ofNat i]

/-- The pairwise key of 802.11, by PRF-384. -/
def pairwiseKey (s : Supplicant) : Frame :=
  ((List.range 3).flatMap fun i => hmac sha1 64 s.pmk (s.standardText i)).take 48

/-- `handle_msg1` takes the nonce of the message. -/
def TakesNonce (env : Environment) (s : Supplicant) (msg : Frame) : Prop :=
  (s.handleMsg1 env msg).anonce = msg.slice 17 49

end Supplicant

/-! ## Where they part -/

theorem fillLength_pos {pos pos' : Nat} {out out' : Frame}
    (filled : fillLength pos out = some (out', pos')) : pos' = pos := by
  unfold fillLength at filled
  obtain ⟨first, -, filled⟩ := Option.bind_eq_some_iff.mp filled
  obtain ⟨second, -, filled⟩ := Option.bind_eq_some_iff.mp filled
  cases filled
  rfl

theorem buildEapolMsg2_pos {snonce : Vector UInt8 32} {mic : Vector UInt8 16} {out out' : Frame}
    {pos : Nat} (built : buildEapolMsg2 snonce mic out = some (out', pos)) : pos = 66 := by
  unfold buildEapolMsg2 at built
  iterate 10 obtain ⟨_, -, built⟩ := Option.bind_eq_some_iff.mp built
  exact fillLength_pos built

theorem buildEapolMsg4_pos {out out' : Frame} {pos : Nat}
    (built : buildEapolMsg4 out = some (out', pos)) : pos = 66 := by
  unfold buildEapolMsg4 at built
  iterate 7 obtain ⟨_, -, built⟩ := Option.bind_eq_some_iff.mp built
  exact fillLength_pos built

/-- A frame of 66 bytes is too short to be read. -/
theorem not_readsBack {built : Option (Frame × Nat)} {keyInfo keyLen : Nat} {mic answered : Frame}
    (short : ∀ out pos, built = some (out, pos) → pos = 66) :
    ¬ ReadsBack built keyInfo keyLen mic answered := by
  rintro ⟨out, pos, key, rfl, parsed, -⟩
  have small : (out.take pos).length < 99 := by
    rw [short out pos rfl, List.length_take]
    omega
  rw [parseEapolKey, if_pos small] at parsed
  cases parsed

/-- The header loses its last six bytes to the LLC/SNAP. -/
theorem length_sendEapolFrame {staAddr bssid : Vector UInt8 6} {frame data : Frame}
    (sent : sendEapolFrame staAddr bssid frame = some data) :
    data.length ≤ 28 + frame.length := by
  unfold sendEapolFrame at sent
  iterate 15 obtain ⟨_, -, sent⟩ := Option.bind_eq_some_iff.mp sent
  cases sent
  rw [List.length_take]
  omega

theorem not_carried (staAddr bssid : Vector UInt8 6) (body : Frame) :
    sendEapolFrame staAddr bssid body ≠ some (dataFrame staAddr bssid body) := by
  intro sent
  have short := length_sendEapolFrame sent
  simp only [dataFrame, List.length_append, List.length_cons, List.length_nil,
    Vector.length_toList] at short
  omega

namespace Supplicant

variable {s : Supplicant}

theorem takesNonce_iff {env : Environment} {msg : Frame} (waiting : s.state = .waitingMsg1)
    (long : 99 ≤ msg.length) : s.TakesNonce env msg ↔ msg.slice 13 45 = msg.slice 17 49 := by
  have taken : ¬ (s.state ≠ .waitingMsg1 ∨ msg.length < 45) := by
    rw [not_or, not_not]
    exact ⟨waiting, by omega⟩
  rw [TakesNonce, handleMsg1, if_neg taken]
  rfl

theorem length_ordered (a b : Frame) : (ordered a b).length = a.length + b.length := by
  unfold ordered
  split_ifs
  · exact List.length_append
  · rw [List.length_append, Nat.add_comm]

theorem Sized.context (sized : s.Sized) : s.context.length = 98 := by
  rw [Supplicant.context, List.length_append, List.length_append, length_ordered, length_ordered,
    sized.sa, sized.aa, sized.snonce, sized.anonce]
  rfl

/-- The inner message of 163 bytes ends early enough in its block. -/
theorem Sized.hmacSha1_context (sized : s.Sized) (counter : UInt8) :
    hmacSha1 s.pmk s.context counter = some (hmac sha1 64 s.pmk (counter :: s.context)) := by
  refine (keyed_standard_iff _ _ _).mpr (.inl ⟨.inl ?_, .inl ⟨?_, .inl ?_⟩⟩)
  · rw [sized.pmk]
    decide
  · rw [sized.context]
    decide
  · rw [innerFed, List.length_append, length_keyPad, List.length_cons, List.length_take,
      sized.context]
    decide

theorem prfLoop_succ {key ctx mac : Frame} {turns counter left : Nat} (more : left ≠ 0)
    (few : counter + 1 < 256) (hashed : hmacSha1 key ctx (UInt8.ofNat counter) = some mac) :
    prfLoop key ctx (turns + 1) counter left =
      (prfLoop key ctx turns (counter + 1) (left - min left 20)).map (mac.take (min left 20) ++ ·) := by
  rw [prfLoop, if_neg more, hashed]
  exact if_pos few

/-- 48 bytes of three hashes. -/
theorem take_three {hashes : Nat → Frame} (size : ∀ i, (hashes i).length = 20) :
    ((List.range 3).flatMap hashes).take 48 = hashes 0 ++ (hashes 1 ++ (hashes 2).take 8) := by
  rw [show List.range 3 = [0, 1, 2] from rfl, List.flatMap_cons, List.flatMap_cons,
    List.flatMap_cons, List.flatMap_nil, List.append_nil, List.take_append, List.take_append,
    size, size, List.take_of_length_le (by rw [size]; decide),
    List.take_of_length_le (by rw [size]; decide)]

/-- What `derive_ptk` leaves in `PTK`: the counter stands in front of the label, and no zero
behind it. -/
theorem Sized.prfSha1_context (sized : s.Sized) :
    prfSha1 s.pmk s.context 48 = some (((List.range 3).flatMap fun i =>
      hmac sha1 64 s.pmk (UInt8.ofNat i :: s.context)).take 48) := by
  have size (i : Nat) : (hmac sha1 64 s.pmk (UInt8.ofNat i :: s.context)).length = 20 :=
    length_sha1 _
  have hashed (i : Nat) := sized.hmacSha1_context (UInt8.ofNat i)
  rw [take_three size]
  change prfLoop s.pmk s.context (44 + 1 + 1 + 1 + 1) 0 48 = _
  rw [prfLoop_succ (by decide) (by decide) (hashed 0),
    prfLoop_succ (by decide) (by decide) (hashed 1),
    prfLoop_succ (by decide) (by decide) (hashed 2), prfLoop, if_pos (by decide),
    Option.map_some, Option.map_some, Option.map_some, List.append_nil]
  change some ((hmac _ _ _ _).take 20 ++ ((hmac _ _ _ _).take 20 ++ (hmac _ _ _ _).take 8)) = _
  rw [List.take_of_length_le (Nat.le_of_eq (size 0)),
    List.take_of_length_le (Nat.le_of_eq (size 1))]

/-- The key of `derive_ptk` is that of the standard only where the hashes of different texts
agree. -/
theorem Sized.pairwiseKey_iff (sized : s.Sized) :
    prfSha1 s.pmk s.context 48 = some s.pairwiseKey ↔
      hmac sha1 64 s.pmk (0 :: s.context) = hmac sha1 64 s.pmk (s.standardText 0) ∧
        hmac sha1 64 s.pmk (1 :: s.context) = hmac sha1 64 s.pmk (s.standardText 1) ∧
          (hmac sha1 64 s.pmk (2 :: s.context)).take 8 =
            (hmac sha1 64 s.pmk (s.standardText 2)).take 8 := by
  have size (text : Frame) : (hmac sha1 64 s.pmk text).length = 20 := length_sha1 _
  rw [sized.prfSha1_context, Option.some_inj, pairwiseKey, take_three fun i => size _,
    take_three fun i => size _]
  constructor
  · intro same
    obtain ⟨first, rest⟩ := List.append_inj same (by rw [size, size])
    obtain ⟨second, third⟩ := List.append_inj rest (by rw [size, size])
    exact ⟨first, second, third⟩
  · rintro ⟨first, second, third⟩
    exact congrArg₂ (· ++ ·) first (congrArg₂ (· ++ ·) second third)

end Supplicant

/-- A key frame that a station may be waiting for as message 1. -/
structure Awaited (s : Supplicant) (msg : Frame) : Prop where
  sized : s.Sized
  waiting : s.state = .waitingMsg1
  long : 99 ≤ msg.length

/-- Neither message can be read back, and no data frame carries a body behind its header. The nonce
is the right one where the message repeats itself every four bytes from 13 to 49, and the key
where other texts than those of the standard have the same hashes. -/
theorem handshake_disagrees (env : Environment) {s : Supplicant} {msg : Frame}
    (awaited : Awaited s msg) (snonce : Vector UInt8 32) (mic : Vector UInt8 16)
    (staAddr bssid : Vector UInt8 6) (out body : Frame) :
    ¬ ReadsBack (buildEapolMsg2 snonce mic out) 0x010A 16 mic.toList msg ∧
      ¬ ReadsBack (buildEapolMsg4 out) 0x030A 0 (Supplicant.zeros 16) msg ∧
      (s.TakesNonce env msg ↔ msg.slice 13 45 = msg.slice 17 49) ∧
      (prfSha1 s.pmk s.context 48 = some s.pairwiseKey ↔
        hmac sha1 64 s.pmk (0 :: s.context) = hmac sha1 64 s.pmk (s.standardText 0) ∧
          hmac sha1 64 s.pmk (1 :: s.context) = hmac sha1 64 s.pmk (s.standardText 1) ∧
            (hmac sha1 64 s.pmk (2 :: s.context)).take 8 =
              (hmac sha1 64 s.pmk (s.standardText 2)).take 8) ∧
      sendEapolFrame staAddr bssid body ≠ some (dataFrame staAddr bssid body) :=
  ⟨not_readsBack fun _ _ => buildEapolMsg2_pos, not_readsBack fun _ _ => buildEapolMsg4_pos,
    Supplicant.takesNonce_iff awaited.waiting awaited.long, awaited.sized.pairwiseKey_iff,
    not_carried staAddr bssid body⟩

/-- The hash of `prf_sha1`; the rest is of no account here. -/
def plainEnvironment : Environment where
  mac := Supplicant.zeros 6
  find _ := none
  reveal _ := none
  pbkdf2 _ _ := []
  prf key context := (prfSha1 key context 48).getD []
  mac128 _ _ := []

/-- A supplicant behind `start`, with zeros for all keys and addresses. -/
def blankSupplicant : Supplicant where
  state := .waitingMsg1
  anonce := Supplicant.zeros 32
  snonce := Supplicant.zeros 32
  pmk := Supplicant.zeros 32
  ptk := Supplicant.zeros 48
  kckValid := false
  sa := Supplicant.zeros 6
  aa := Supplicant.zeros 6
  replayCounter := 0

theorem awaited_blank : Awaited blankSupplicant (Supplicant.zeros 99) where
  sized := ⟨rfl, rfl, rfl, rfl, rfl⟩
  waiting := rfl
  long := Nat.le_refl 99

theorem handshake_disagrees_zeros :
    ¬ ReadsBack (buildEapolMsg2 (.replicate 32 0) (.replicate 16 0) (Supplicant.zeros 256))
        0x010A 16 (Vector.replicate 16 0).toList (Supplicant.zeros 99) ∧
      blankSupplicant.TakesNonce plainEnvironment (Supplicant.zeros 99) := by
  obtain ⟨unread, -, nonce, -, -⟩ := handshake_disagrees plainEnvironment awaited_blank
    (.replicate 32 0) (.replicate 16 0) (.replicate 6 0) (.replicate 6 0) (Supplicant.zeros 256) []
  exact ⟨unread, nonce.mpr (by decide)⟩

/-- A message 2 of zeros is built, and is not read back. -/
theorem message2_unread :
    (buildEapolMsg2 (.replicate 32 0) (.replicate 16 0) (Supplicant.zeros 256)).isSome ∧
      ¬ ReadsBack (buildEapolMsg2 (.replicate 32 0) (.replicate 16 0) (Supplicant.zeros 256))
        0x010A 16 (Vector.replicate 16 0).toList (Supplicant.zeros 99) :=
  ⟨by decide +kernel, not_readsBack fun _ _ => buildEapolMsg2_pos⟩

end DBSos.Wifi
