import DBSos.Lib.EndAround
import DBSos.Net.Tcp
import Mathlib.Data.List.GetD

/-!
# The internet checksum, three times

`ip_checksum`, the `checksum` of the TCP stack and `udp_checksum` each sum the words of a buffer
in a loop of their own. `none` is the panic of a `u32` that overflows.
-/

namespace DBSos.Net

open DBSos.Lib

/-- A sum of two `u32`. -/
def add32 (a b : Nat) : Option Nat := if a + b < 2 ^ 32 then some (a + b) else none

/-- The word at a position. -/
def wordAt (buf : List Byte) (i : Nat) : Nat :=
  (buf.getD i 0).toNat * 256 + (buf.getD (i + 1) 0).toNat

/-- The loop that adds the carries. -/
def carries (sum : Nat) : Nat :=
  if sum / 2 ^ 16 = 0 then sum else carries (sum % 2 ^ 16 + sum / 2 ^ 16)
termination_by sum
decreasing_by omega

/-- `!(sum as u16)` behind that loop. -/
def complemented (sum : Nat) : BitVec 16 := ~~~ BitVec.ofNat 16 (carries sum)

/-- `ip_checksum`. -/
def ipChecksum (buf : List Byte) : Option (BitVec 16) := do
  let sum ← (List.range' 0 ((buf.length + 1) / 2) 2).foldlM (fun sum i =>
    add32 sum (if i + 1 < buf.length then wordAt buf i else (buf.getD i 0).toNat * 256)) 0
  some (complemented sum)

/-- The loop over the pairs of bytes in `checksum` and `udp_checksum`: where it stops, and the
sum. -/
def pairSum (buf : List Byte) : (left i sum : Nat) → Option (Nat × Nat)
  | 0, i, sum => some (i, sum)
  | left + 1, i, sum =>
    if i + 1 < buf.length then do
      let sum ← add32 sum (wordAt buf i)
      pairSum buf left (i + 2) sum
    else some (i, sum)

/-- The last byte, if it is left over. -/
def addOdd (buf : List Byte) (i sum : Nat) : Option Nat :=
  if i < buf.length then add32 sum ((buf.getD i 0).toNat * 256) else some sum

/-- `checksum` of the TCP stack. -/
def tcpChecksum (buf : List Byte) : Option (BitVec 16) := do
  let (i, sum) ← pairSum buf buf.length 0 0
  let sum ← addOdd buf i sum
  some (complemented sum)

def ipProtoUdp : Nat := 17

/-- `udp_checksum`. -/
def udpChecksum (src dst : Ipv4) (sport dport : Port) (payload : List Byte) :
    Option (BitVec 16) := do
  let ulen := (8 + payload.length) % 2 ^ 32
  let sum ← [wordAt src.toList 0, wordAt src.toList 2, wordAt dst.toList 0, wordAt dst.toList 2,
    ipProtoUdp, ulen, sport.toNat, dport.toNat, ulen].foldlM add32 0
  let (i, sum) ← pairSum payload payload.length 0 sum
  let sum ← addOdd payload i sum
  let c := complemented sum
  some (if c = 0 then 0xFFFF else c)

/-! ## Sums of words -/

/-- The words of a buffer, the last of an odd length filled up with zero bits. -/
def words : List Byte → List Nat
  | [] => []
  | [high] => [high.toNat * 256]
  | high :: low :: rest => (high.toNat * 256 + low.toNat) :: words rest

variable {buf : List Byte}

theorem sum_words (buf : List Byte) : (words buf).sum = wordSum buf := by
  induction buf using words.induct with
  | case1 => rfl
  | case2 high => simp [words, wordSum]
  | case3 high low rest ih =>
    rw [words, wordSum, List.sum_cons, ih]

theorem words_le (buf : List Byte) : ∀ word ∈ words buf, word ≤ 65535 := by
  induction buf using words.induct with
  | case1 => simp [words]
  | case2 high =>
    have := high.isLt
    simp [words]
    omega
  | case3 high low rest ih =>
    have := high.isLt
    have := low.isLt
    rw [words]
    intro word member
    rcases List.mem_cons.mp member with rfl | member
    · omega
    · exact ih word member

theorem wordSum_le (buf : List Byte) : wordSum buf ≤ (buf.length + 1) / 2 * 65535 := by
  induction buf using words.induct with
  | case1 => simp [wordSum]
  | case2 high =>
    have := high.isLt
    simp [wordSum]
    omega
  | case3 high low rest ih =>
    have := high.isLt
    have := low.isLt
    simp only [wordSum, List.length_cons]
    omega

theorem words_append {front : List Byte} (even : 2 ∣ front.length) (back : List Byte) :
    words (front ++ back) = words front ++ words back := by
  induction front using words.induct with
  | case1 => rfl
  | case2 high => exact absurd even (by simp)
  | case3 high low rest ih =>
    simp only [List.length_cons] at even
    simp only [List.cons_append, words]
    rw [ih (by omega)]

theorem words_drop_pair {i : Nat} (pair : i + 1 < buf.length) :
    words (buf.drop i) = wordAt buf i :: words (buf.drop (i + 2)) := by
  rw [List.drop_eq_getElem_cons (by omega), List.drop_eq_getElem_cons pair, words, wordAt,
    List.getD_eq_getElem _ _ (by omega), List.getD_eq_getElem _ _ pair]

theorem words_drop_odd {i : Nat} (odd : i + 1 = buf.length) :
    words (buf.drop i) = [(buf.getD i 0).toNat * 256] := by
  rw [List.drop_eq_getElem_cons (by omega), List.drop_eq_nil_of_le (by omega), words,
    List.getD_eq_getElem _ _ (by omega)]

/-- A sum of words overflows only at its end. -/
theorem foldlM_add32 (list : List Nat) {start : Nat} (small : start < 2 ^ 32) :
    list.foldlM add32 start =
      if start + list.sum < 2 ^ 32 then some (start + list.sum) else none := by
  induction list generalizing start with
  | nil => exact (if_pos (by simpa using small)).symm
  | cons word rest ih =>
    rw [List.foldlM_cons, List.sum_cons, add32]
    by_cases fits : start + word < 2 ^ 32
    · rw [if_pos fits, Option.bind_eq_bind, Option.bind_some, ih fits,
        Nat.add_assoc]
    · rw [if_neg fits, if_neg (by omega)]
      rfl

/-- The loop of `ip_checksum` meets the words of the buffer. -/
theorem map_range_eq_words (buf : List Byte) (n i : Nat) (count : n = (buf.length - i + 1) / 2) :
    (List.range' i n 2).map (fun i =>
      if i + 1 < buf.length then wordAt buf i else (buf.getD i 0).toNat * 256) =
        words (buf.drop i) := by
  induction n generalizing i with
  | zero =>
    rw [List.drop_eq_nil_of_le (by omega)]
    rfl
  | succ n ih =>
    rw [List.range'_succ, List.map_cons, ih (i + 2) (by omega)]
    split_ifs with pair
    · exact (words_drop_pair pair).symm
    · have odd : i + 1 = buf.length := by omega
      rw [words_drop_odd odd, List.drop_eq_nil_of_le (by omega)]
      rfl

/-- And so does the loop over pairs, with the odd byte. -/
theorem pairSum_addOdd (buf : List Byte) (left i sum : Nat) (enough : buf.length ≤ i + 2 * left + 1) :
    ((pairSum buf left i sum).bind fun stop => addOdd buf stop.1 stop.2) =
      (words (buf.drop i)).foldlM add32 sum := by
  have last (i sum : Nat) (noPair : ¬ i + 1 < buf.length) :
      addOdd buf i sum = (words (buf.drop i)).foldlM add32 sum := by
    unfold addOdd
    split_ifs with odd
    · rw [words_drop_odd (by omega), List.foldlM_cons]
      exact (bind_pure _).symm
    · rw [List.drop_eq_nil_of_le (by omega)]
      rfl
  induction left generalizing i sum with
  | zero => exact last i sum (by omega)
  | succ left ih =>
    rw [pairSum]
    split_ifs with pair
    · rw [words_drop_pair pair, List.foldlM_cons]
      cases added : add32 sum (wordAt buf i) with
      | none => rfl
      | some sum => exact ih (i + 2) sum (by omega)
    · exact last i sum pair

/-! ## The three checksums -/

theorem carries_eq (sum : Nat) : carries sum = EndAround.residue 65535 sum := by
  induction sum using carries.induct with
  | case1 sum done => rw [carries, if_pos done, EndAround.residue_of_le (by omega)]
  | case2 sum more ih =>
    rw [carries, if_neg more, ih]
    exact EndAround.residue_fold sum

theorem toNat_complemented (sum : Nat) :
    (complemented sum).toNat = 65535 - EndAround.residue 65535 sum := by
  have small := EndAround.residue_le (n := sum) (m := 65535) (by decide)
  rw [complemented, carries_eq, BitVec.toNat_not, BitVec.toNat_ofNat, Nat.mod_eq_of_lt (by omega)]

theorem ipChecksum_eq (buf : List Byte) :
    ipChecksum buf = if wordSum buf < 2 ^ 32 then some (complemented (wordSum buf)) else none := by
  have loop : (List.range' 0 ((buf.length + 1) / 2) 2).foldlM (fun sum i =>
      add32 sum (if i + 1 < buf.length then wordAt buf i else (buf.getD i 0).toNat * 256)) 0 =
        (words buf).foldlM add32 0 := by
    have met := map_range_eq_words buf _ 0 rfl
    rw [List.drop_zero] at met
    rewrite [← met, List.foldlM_map]
    rfl
  rw [ipChecksum, loop, foldlM_add32 _ (by decide), sum_words, Nat.zero_add]
  split_ifs <;> rfl

/-- A loop over the pairs, and the odd byte behind it. -/
theorem pairs_eq (buf : List Byte) {start : Nat} (small : start < 2 ^ 32) {Result : Type}
    (finish : Nat → Option Result) :
    (do
      let (i, sum) ← pairSum buf buf.length 0 start
      let sum ← addOdd buf i sum
      finish sum) = if start + wordSum buf < 2 ^ 32 then finish (start + wordSum buf) else none := by
  have loop := pairSum_addOdd buf buf.length 0 start (by omega)
  rw [List.drop_zero, foldlM_add32 _ small, sum_words] at loop
  calc (do
      let (i, sum) ← pairSum buf buf.length 0 start
      let sum ← addOdd buf i sum
      finish sum)
      = ((pairSum buf buf.length 0 start).bind fun stop => addOdd buf stop.1 stop.2).bind finish :=
        (Option.bind_assoc _ _ _).symm
    _ = _ := by
        rw [loop]
        split_ifs <;> rfl

theorem tcpChecksum_eq (buf : List Byte) :
    tcpChecksum buf = if wordSum buf < 2 ^ 32 then some (complemented (wordSum buf)) else none := by
  have whole := pairs_eq buf (show 0 < 2 ^ 32 by decide) fun sum => some (complemented sum)
  rw [Nat.zero_add] at whole
  exact whole

theorem toNat_be16 (value : BitVec 16) :
    (value.extractLsb' 8 8).toNat * 256 + (value.extractLsb' 0 8).toNat = value.toNat := by
  have := value.isLt
  simp only [BitVec.extractLsb'_toNat, Nat.shiftRight_eq_div_pow]
  omega

theorem words_be16 (value : BitVec 16) (rest : List Byte) :
    words (be16 value ++ rest) = value.toNat :: words rest := by
  rw [be16, List.cons_append, List.cons_append, List.nil_append, words, toNat_be16]

theorem words_ipv4 (ip : Ipv4) : words ip.toList = [wordAt ip.toList 0, wordAt ip.toList 2] := by
  have length : ip.toList.length = 4 := ip.length_toList
  rw [← List.drop_zero (l := ip.toList), words_drop_pair (by omega), words_drop_pair (by omega),
    List.drop_eq_nil_of_le (by omega)]
  rfl

/-- The twelve bytes that a UDP checksum covers before the header. -/
def udpPseudoHeader (src dst : Ipv4) (length : Nat) : List Byte :=
  src.toList ++ dst.toList ++ [0, 17] ++ be16 (BitVec.ofNat 16 length)

/-- A UDP header whose checksum is not there yet. -/
def udpHeader (sport dport : Port) (length : Nat) : List Byte :=
  be16 sport ++ be16 dport ++ be16 (BitVec.ofNat 16 length) ++ be16 0

/-- The buffer of a UDP checksum: pseudo header, header and payload. -/
def udpCovered (src dst : Ipv4) (sport dport : Port) (payload : List Byte) : List Byte :=
  udpPseudoHeader src dst (8 + payload.length) ++
    (udpHeader sport dport (8 + payload.length) ++ payload)

/-- 0 stands for a datagram without a checksum, and is sent as all ones. -/
def zeroReplaced (c : BitVec 16) : BitVec 16 := if c = 0 then 0xFFFF else c

/-- The words that `udp_checksum` starts from are those of the two headers. -/
theorem words_udpCovered (src dst : Ipv4) (sport dport : Port) {payload : List Byte}
    (fits : 8 + payload.length < 2 ^ 16) :
    wordSum (udpCovered src dst sport dport payload) =
      [wordAt src.toList 0, wordAt src.toList 2, wordAt dst.toList 0, wordAt dst.toList 2,
        ipProtoUdp, 8 + payload.length, sport.toNat, dport.toNat, 8 + payload.length].sum +
        wordSum payload := by
  have length : (BitVec.ofNat 16 (8 + payload.length)).toNat = 8 + payload.length := by
    rw [BitVec.toNat_ofNat, Nat.mod_eq_of_lt fits]
  have address (ip : Ipv4) (rest : List Byte) :
      words (ip.toList ++ rest) = wordAt ip.toList 0 :: wordAt ip.toList 2 :: words rest := by
    rw [words_append (by simp), words_ipv4]
    rfl
  have protocol (rest : List Byte) : words ([0, 17] ++ rest) = ipProtoUdp :: words rest := rfl
  rw [← sum_words, udpCovered, udpPseudoHeader, udpHeader]
  simp only [List.append_assoc, address, protocol, words_be16, length, List.sum_cons, List.sum_nil,
    sum_words, show (0 : BitVec 16).toNat = 0 from rfl]
  omega

theorem udpChecksum_eq (src dst : Ipv4) (sport dport : Port) {payload : List Byte}
    (fits : 8 + payload.length < 2 ^ 16) :
    udpChecksum src dst sport dport payload =
      (ipChecksum (udpCovered src dst sport dport payload)).map zeroReplaced := by
  have address (ip : Ipv4) (i : Nat) : wordAt ip.toList i ≤ 65535 := by
    have := (ip.toList.getD i 0).isLt
    have := (ip.toList.getD (i + 1) 0).isLt
    unfold wordAt
    omega
  have ulen : (8 + payload.length) % 2 ^ 32 = 8 + payload.length := Nat.mod_eq_of_lt (by omega)
  set start := [wordAt src.toList 0, wordAt src.toList 2, wordAt dst.toList 0,
    wordAt dst.toList 2, ipProtoUdp, 8 + payload.length, sport.toNat, dport.toNat,
    8 + payload.length].sum with startIs
  have small : start < 2 ^ 32 := by
    have srcHigh := address src 0
    have srcLow := address src 2
    have dstHigh := address dst 0
    have dstLow := address dst 2
    have := sport.isLt
    have := dport.isLt
    simp only [startIs, List.sum_cons, List.sum_nil, ipProtoUdp]
    omega
  rw [udpChecksum, ulen, foldlM_add32 _ (by decide), Nat.zero_add, ← startIs, if_pos small,
    ipChecksum_eq, words_udpCovered src dst sport dport fits, ← startIs]
  refine (pairs_eq payload small fun sum => some (zeroReplaced (complemented sum))).trans ?_
  split_ifs <;> rfl

/-! ## What a receiver sums -/

/-- A word is written, with its high byte first. -/
def putWord (buf : List Byte) (k : Nat) (word : BitVec 16) : List Byte :=
  (buf.set k (word.extractLsb' 8 8)).set (k + 1) (word.extractLsb' 0 8)

/-- A word in a place of zeros adds itself. -/
theorem wordSum_putWord {k : Nat} (even : 2 ∣ k) (inside : k + 1 < buf.length)
    (high : buf.getD k 0 = 0) (low : buf.getD (k + 1) 0 = 0) (word : BitVec 16) :
    wordSum (putWord buf k word) = wordSum buf + word.toNat := by
  induction buf using words.induct generalizing k with
  | case1 => exact absurd inside (by simp)
  | case2 => exact absurd inside (by simp)
  | case3 first second rest ih =>
    rcases k with _ | _ | k
    · have firstZero : first = 0 := by simpa using high
      have secondZero : second = 0 := by simpa using low
      have written := toNat_be16 word
      subst firstZero secondZero
      simp only [putWord, List.set_cons_zero, List.set_cons_succ, wordSum]
      rw [written, show (0 : Byte).toNat = 0 from rfl, Nat.zero_mul, Nat.zero_add,
        Nat.add_comm]
    · exact absurd even (by decide)
    · have rest := ih (k := k) (by omega) (by simpa using inside)
        (by simpa using high) (by simpa using low)
      simp only [putWord, List.set_cons_succ, wordSum] at rest ⊢
      omega

/-- The sum that a receiver takes over a buffer with its checksum comes to all ones. -/
theorem sum_putWord {k : Nat} (even : 2 ∣ k) (inside : k + 1 < buf.length)
    (high : buf.getD k 0 = 0) (low : buf.getD (k + 1) 0 = 0) :
    EndAround.sum 65535 (words (putWord buf k (complemented (wordSum buf)))) = 65535 := by
  rw [EndAround.sum_eq (by decide) (words_le _), sum_words,
    wordSum_putWord even inside high low, toNat_complemented]
  exact EndAround.residue_add_complement (by decide) _

theorem wordSum_lt (short : buf.length ≤ 65535) : wordSum buf < 2 ^ 32 := by
  have := wordSum_le buf
  omega

/-- The three checksums are one: a buffer with its checksum sums to all ones, the TCP stack's
checksum is that of `ip_checksum`, and so is UDP's over its headers and payload up to the zero
that is sent as all ones. No sum overflows. -/
theorem checksums_agree :
    (∀ (buf : List Byte) (k : Nat), buf.length ≤ 65535 → 2 ∣ k → k + 1 < buf.length →
      buf.getD k 0 = 0 → buf.getD (k + 1) 0 = 0 →
        ∃ c, ipChecksum buf = some c ∧ EndAround.sum 65535 (words (putWord buf k c)) = 65535) ∧
    (∀ buf : List Byte, tcpChecksum buf = ipChecksum buf) ∧
    (∀ buf : List Byte, buf.length ≤ 65535 →
      (ipChecksum buf).isSome = true ∧ (tcpChecksum buf).isSome = true) ∧
    ∀ (src dst : Ipv4) (sport dport : Port) (payload : List Byte),
      8 + payload.length < 2 ^ 16 →
        ∃ c, ipChecksum (udpCovered src dst sport dport payload) = some c ∧
          udpChecksum src dst sport dport payload = some (if c = 0 then 0xFFFF else c) := by
  have sums {buf : List Byte} (fits : wordSum buf < 2 ^ 32) :
      ipChecksum buf = some (complemented (wordSum buf)) := by
    rw [ipChecksum_eq, if_pos fits]
  have same (buf : List Byte) : tcpChecksum buf = ipChecksum buf :=
    (tcpChecksum_eq buf).trans (ipChecksum_eq buf).symm
  refine ⟨?_, same, ?_, ?_⟩
  · intro buf k short even inside high low
    exact ⟨_, sums (wordSum_lt short), sum_putWord even inside high low⟩
  · intro buf short
    rw [same, sums (wordSum_lt short)]
    exact ⟨rfl, rfl⟩
  · intro src dst sport dport payload fits
    have overflows : wordSum (udpCovered src dst sport dport payload) < 2 ^ 32 := by
      have most := wordSum_le (udpCovered src dst sport dport payload)
      have length : (udpCovered src dst sport dport payload).length = 20 + payload.length := by
        simp [udpCovered, udpPseudoHeader, udpHeader, be16]
        omega
      omega
    refine ⟨_, sums overflows, ?_⟩
    rw [udpChecksum_eq src dst sport dport fits, sums overflows]
    rfl

section Samples

/-- A header of ten words with its checksum, and one of an odd length. -/
theorem checksums_agree_sample :
    (∃ c, ipChecksum [0x45, 0, 0, 20, 0, 0, 0x40, 0, 64, 1, 0, 0, 10, 0, 0, 1, 10, 0, 0, 2] =
        some c ∧
      EndAround.sum 65535 (words (putWord
        [0x45, 0, 0, 20, 0, 0, 0x40, 0, 64, 1, 0, 0, 10, 0, 0, 1, 10, 0, 0, 2] 10 c)) = 65535) ∧
      tcpChecksum [1, 2, 3] = ipChecksum [1, 2, 3] :=
  ⟨checksums_agree.1 _ 10 (by decide) (by decide) (by decide) (by decide) (by decide),
    checksums_agree.2.1 [1, 2, 3]⟩

end Samples

end DBSos.Net
