import DBSos.Net.Tcp
import Mathlib.Data.List.GetD

/-!
# The UDP slot

`udp.rs` keeps one received datagram. The next one overwrites it whether or not it was read,
and a length field that says more than the frame holds leaves bytes of the one before.
-/

namespace DBSos.Net

def udpHdr : Nat := 8

def udpBuf : Nat := 1514

/-- The receive slot, without the sender's addresses, which no client here reads. -/
structure RxSlot where
  valid : Bool
  sport : Port
  dport : Port
  len : Nat
  buf : List Byte
  deriving DecidableEq

namespace RxSlot

/-- `rx_clear`. -/
def clear (slot : RxSlot) : RxSlot := { slot with valid := false }

/-- `rx_payload`. -/
def payload (slot : RxSlot) : List Byte := slot.buf.take slot.len

/-- `input`, for a frame from the Ethernet header on. -/
def input (slot : RxSlot) (data : List Byte) : RxSlot :=
  if data.length < 34 + udpHdr then slot
  else
    let ulen := u16From (data.getD 38 0) (data.getD 39 0)
    let plen := min (ulen.toNat - udpHdr) udpBuf
    let n := min plen (data.length - 42)
    { valid := true
      sport := u16From (data.getD 34 0) (data.getD 35 0)
      dport := u16From (data.getD 36 0) (data.getD 37 0)
      len := plen
      buf :=
        if data.drop 42 = [] then slot.buf
        else (data.drop 42).take n ++ slot.buf.drop n }

end RxSlot

/-- A datagram as it lies in its frame, behind the Ethernet and the IP header. -/
structure Datagram where
  front : Vector Byte 34
  sport : Port
  dport : Port
  checksum : BitVec 16
  payload : List Byte
  padding : List Byte
  fits : payload.length ≤ 1472

namespace Datagram

/-- The frame of a datagram. -/
def frame (d : Datagram) : List Byte :=
  d.front.toList ++ (be16 d.sport ++ be16 d.dport ++
    be16 (BitVec.ofNat 16 (d.payload.length + udpHdr)) ++ be16 d.checksum) ++
    (d.payload ++ d.padding)

/-- What a frame holds behind the first 34 bytes. -/
theorem getD_frame (d : Datagram) (i : Nat) :
    d.frame.getD (34 + i) 0 =
      ((be16 d.sport ++ be16 d.dport ++ be16 (BitVec.ofNat 16 (d.payload.length + udpHdr)) ++
        be16 d.checksum) ++ (d.payload ++ d.padding)).getD i 0 := by
  rw [frame, List.append_assoc, List.getD_append_right _ _ _ _ (by simp)]
  simp

theorem drop_frame (d : Datagram) : d.frame.drop 42 = d.payload ++ d.padding := by
  rw [frame, List.drop_append_of_le_length (by simp [be16])]
  simp [be16]

/-- `input` keeps a datagram whole. -/
theorem input_frame (d : Datagram) (slot : RxSlot) :
    (slot.input d.frame).valid = true ∧ (slot.input d.frame).dport = d.dport ∧
      (slot.input d.frame).payload = d.payload := by
  have fits := d.fits
  have long : ¬ d.frame.length < 34 + udpHdr := by
    simp [frame, be16, udpHdr]
    omega
  have whole : d.frame.length - 42 = d.payload.length + d.padding.length := by
    rw [← List.length_drop, drop_frame, List.length_append]
  have dport : u16From (d.frame.getD 36 0) (d.frame.getD 37 0) = d.dport := by
    rw [getD_frame d 2, getD_frame d 3]
    exact u16From_be16 d.dport
  have ulen : (u16From (d.frame.getD 38 0) (d.frame.getD 39 0)).toNat - udpHdr =
      d.payload.length := by
    rw [getD_frame d 4, getD_frame d 5]
    change (u16From (BitVec.extractLsb' 8 8 (BitVec.ofNat 16 (d.payload.length + udpHdr)))
      (BitVec.extractLsb' 0 8 (BitVec.ofNat 16 (d.payload.length + udpHdr)))).toNat - udpHdr = _
    rw [u16From_be16, BitVec.toNat_ofNat, Nat.mod_eq_of_lt, Nat.add_sub_cancel]
    unfold udpHdr
    omega
  unfold RxSlot.input RxSlot.payload
  rw [if_neg long]
  dsimp only
  rw [ulen, dport, drop_frame, whole]
  have inBuf : min d.payload.length udpBuf = d.payload.length := Nat.min_eq_left (by
    unfold udpBuf
    omega)
  rw [inBuf, Nat.min_eq_left (Nat.le_add_right _ _)]
  refine ⟨rfl, rfl, ?_⟩
  split_ifs with empty
  · obtain ⟨none, -⟩ := List.append_eq_nil_iff.mp empty
    rw [none]
    rfl
  · rw [List.take_append_of_le_length (Nat.le_refl _), List.take_length, List.take_append_of_le_length (Nat.le_refl _),
      List.take_length]

end Datagram

/-! ## What a payload depends on -/

namespace RxSlot

/-- The slot before any datagram. -/
def initial : RxSlot :=
  { valid := false, sport := 0, dport := 0, len := 0, buf := List.replicate udpBuf 0 }

/-- The slot after some frames. -/
def after (frames : List (List Byte)) : RxSlot := frames.foldl input initial

/-- A frame that is long enough for `input`. -/
def Accepted (data : List Byte) : Prop := 34 + udpHdr ≤ data.length

instance (data : List Byte) : Decidable (Accepted data) := Nat.decLe _ _

/-- The payload's length by the length field. -/
def claimedLen (data : List Byte) : Nat :=
  (u16From (data.getD 38 0) (data.getD 39 0)).toNat - udpHdr

/-- The bytes that the datagram of a frame really has. -/
def carried (data : List Byte) : List Byte := (data.drop 42).take (claimedLen data)

variable {slot : RxSlot} {data : List Byte}

theorem input_of_not_accepted (rejected : ¬ Accepted data) : slot.input data = slot :=
  if_pos (Nat.lt_of_not_le rejected)

theorem foldl_input_of_not_accepted {frames : List (List Byte)}
    (rejected : ∀ data ∈ frames, ¬ Accepted data) : frames.foldl input slot = slot := by
  induction frames with
  | nil => rfl
  | cons data rest ih =>
    rw [List.foldl_cons, input_of_not_accepted (rejected data List.mem_cons_self)]
    exact ih fun other member => rejected other (List.mem_cons_of_mem _ member)

theorem input_of_accepted (slot : RxSlot) (accepted : Accepted data) :
    (slot.input data).len = min (claimedLen data) udpBuf ∧
      (slot.input data).buf =
        (data.drop 42).take (min (min (claimedLen data) udpBuf) (data.length - 42)) ++
          slot.buf.drop (min (min (claimedLen data) udpBuf) (data.length - 42)) := by
  unfold input
  rw [if_neg (Nat.not_lt.mpr accepted)]
  refine ⟨rfl, ?_⟩
  dsimp only
  split_ifs with empty
  · have none : data.length - 42 = 0 := by rw [← List.length_drop, empty, List.length_nil]
    rw [none, Nat.min_zero, List.take_zero, List.nil_append, List.drop_zero]
  · rfl

/-- The buffer keeps its length. -/
theorem length_input (whole : slot.buf.length = udpBuf) :
    (slot.input data).buf.length = udpBuf := by
  by_cases accepted : Accepted data
  · rw [(input_of_accepted _ accepted).2, List.length_append, List.length_take, List.length_drop,
      List.length_drop, whole]
    omega
  · rw [input_of_not_accepted accepted, whole]

theorem length_after (frames : List (List Byte)) : (after frames).buf.length = udpBuf := by
  have general (slot : RxSlot) (whole : slot.buf.length = udpBuf) :
      (frames.foldl input slot).buf.length = udpBuf := by
    induction frames generalizing slot with
    | nil => exact whole
    | cons data rest ih => exact ih _ (length_input whole)
  exact general initial (List.length_replicate ..)

/-- A payload is what the frame has, and behind it what the buffer had there. -/
theorem payload_input (accepted : Accepted data) :
    (slot.input data).payload = (carried data).take udpBuf ++
      (slot.buf.take (min (claimedLen data) udpBuf)).drop (data.length - 42) := by
  obtain ⟨len, buf⟩ := input_of_accepted slot accepted
  have carriedIs : (carried data).take udpBuf =
      (data.drop 42).take (min (min (claimedLen data) udpBuf) (data.length - 42)) := by
    rw [carried, List.take_take, Nat.min_comm udpBuf]
    conv_lhs => rw [← List.take_length (l := data.drop 42), List.take_take, List.length_drop]
  rw [payload, len, buf, carriedIs]
  by_cases fits : min (claimedLen data) udpBuf ≤ data.length - 42
  · have stale : (slot.buf.take (min (claimedLen data) udpBuf)).drop (data.length - 42) = [] :=
      List.drop_eq_nil_of_le (Nat.le_trans (List.length_take_le _ _) fits)
    rw [stale, List.append_nil, Nat.min_eq_left fits,
      List.take_append_of_le_length (by rw [List.length_take, List.length_drop]; omega),
      List.take_take, Nat.min_self]
  · have short : min (min (claimedLen data) udpBuf) (data.length - 42) = data.length - 42 :=
      Nat.min_eq_right (by omega)
    rw [short, List.take_append, List.length_take, List.length_drop, Nat.min_self, List.take_take,
      Nat.min_eq_right (by omega), List.drop_take]

/-- The payload behind a history: only frames that are too short came after the last one. -/
theorem payload_after (before : List (List Byte)) {last : List Byte} {later : List (List Byte)}
    (accepted : Accepted last) (rejected : ∀ data ∈ later, ¬ Accepted data) :
    (after (before ++ last :: later)).payload = (carried last).take udpBuf ++
      ((after before).buf.take (min (claimedLen last) udpBuf)).drop (last.length - 42) := by
  rw [after, List.foldl_append, List.foldl_cons, foldl_input_of_not_accepted rejected]
  exact payload_input accepted

theorem stale_eq_nil_iff (before : List (List Byte)) (last : List Byte) :
    ((after before).buf.take (min (claimedLen last) udpBuf)).drop (last.length - 42) = [] ↔
      min (claimedLen last) udpBuf ≤ last.length - 42 := by
  rw [List.drop_eq_nil_iff, List.length_take, length_after]
  omega

/-- A frame that fills the buffer with ones. -/
def filler : List Byte := List.replicate 1556 255

theorem buf_after_filler : (after [filler]).buf = List.replicate udpBuf 255 := by
  have accepted : Accepted filler := by
    rw [Accepted, filler, List.length_replicate]
    decide
  have claimed : claimedLen filler = 65527 := by
    rw [claimedLen, filler, List.getD_replicate _ (by decide), List.getD_replicate _ (by decide)]
    rfl
  have copied : min (min 65527 udpBuf) (1556 - 42) = udpBuf := by decide
  rw [after, List.foldl_cons, List.foldl_nil, (input_of_accepted _ accepted).2, claimed, filler,
    List.length_replicate, copied, List.drop_replicate, List.take_replicate, initial,
    List.drop_replicate, Nat.sub_self, List.replicate_zero, List.append_nil]
  exact congrArg (List.replicate · 255) (by decide)

/-- The payload is what the last accepted datagram carried, as far as the buffer goes, exactly
where its length field says no more than the frame holds; and only there it depends on that
datagram alone. -/
theorem payload_eq_carried_iff (last : List Byte) :
    (∀ frames : List (List Byte), (∀ data ∈ frames, ¬ Accepted data) →
      (after frames).payload = []) ∧
    (∀ before later : List (List Byte), Accepted last → (∀ data ∈ later, ¬ Accepted data) →
      ((after (before ++ last :: later)).payload = (carried last).take udpBuf ↔
        min (claimedLen last) udpBuf ≤ last.length - 42)) ∧
    (Accepted last →
      ((∀ before before' later later' : List (List Byte), (∀ data ∈ later, ¬ Accepted data) →
        (∀ data ∈ later', ¬ Accepted data) →
          (after (before ++ last :: later)).payload =
            (after (before' ++ last :: later')).payload) ↔
        min (claimedLen last) udpBuf ≤ last.length - 42)) := by
  have first (before later : List (List Byte)) (accepted : Accepted last)
      (rejected : ∀ data ∈ later, ¬ Accepted data) :
      (after (before ++ last :: later)).payload = (carried last).take udpBuf ↔
        min (claimedLen last) udpBuf ≤ last.length - 42 := by
    rw [payload_after before accepted rejected, ← stale_eq_nil_iff before last]
    exact List.append_right_eq_self
  refine ⟨?_, first, fun accepted => ⟨?_, ?_⟩⟩
  · intro frames rejected
    rw [after, foldl_input_of_not_accepted rejected]
    rfl
  · intro same
    by_contra beyond
    -- Two histories that leave different bytes in the buffer.
    have differ := same [] [filler] [] [] (by simp) (by simp)
    rw [payload_after [] accepted (by simp), payload_after [filler] accepted (by simp)] at differ
    have stale := List.append_cancel_left differ
    rw [buf_after_filler, after, List.foldl_nil, initial, List.take_replicate, List.take_replicate,
      List.drop_replicate, List.drop_replicate, List.replicate_inj] at stale
    rcases stale.2 with none | same
    · omega
    · exact absurd same (by decide)
  · intro fits before before' later later' rejected rejected'
    rw [(first before later accepted rejected).mpr fits,
      (first before' later' accepted rejected').mpr fits]

section Samples

/-- A frame without payload, with a length field for three bytes of it. -/
def claiming : List Byte := List.replicate 38 0 ++ [0, 11, 0, 0]

def carrying : List Byte := List.replicate 38 0 ++ [0, 11, 0, 0, 1, 2, 3]

/-- It shows the three bytes of the datagram before. -/
theorem payload_stale :
    (after [carrying, claiming]).payload = [1, 2, 3] ∧ carried claiming = [] := by
  decide

theorem payload_eq_carried_iff_carrying :
    (after ([claiming] ++ carrying :: [[1]])).payload = (carried carrying).take udpBuf :=
  ((payload_eq_carried_iff carrying).2.1 [claiming] [[1]] (by decide) (by decide)).mpr (by decide)

end Samples

end RxSlot

end DBSos.Net
