import DBSos.Lib.Digest
import Mathlib.Tactic.NormNum

/-!
# The hashes of the handshake

SHA-1 and HMAC-SHA1 as `ieee80211.rs` has them. `Sha1` is fed in pieces: `update` fills a buffer of
64 bytes and processes it when it is full, `finalize` pads what is in it. Nothing clears the buffer
behind a block, so the rest of a message stands in front of what the last block has left there.

The kernel is built with overflow checks: `none` is the panic of one that fails.
-/

namespace DBSos.Wifi

open DBSos.Lib

/-- `Sha1`. -/
structure Sha1 where
  state : Vector UInt32 5
  total : Nat
  buf : List UInt8
  bufLen : Nat

namespace Sha1

/-- `new`. -/
def new : Sha1 :=
  { state := #v[0x67452301, 0xefcdab89, 0x98badcfe, 0x10325476, 0xc3d2e1f0]
    total := 0
    buf := List.replicate 64 0
    bufLen := 0 }

/-- `rotate_left`. -/
def rotateLeft (x n : UInt32) : UInt32 := (x <<< n) ||| (x >>> (32 - n))

/-- One of the first 16 words. -/
def blockWord (block : List UInt8) (i : Nat) : UInt32 :=
  ((block.getD (i * 4) 0).toUInt32 <<< 24) ||| ((block.getD (i * 4 + 1) 0).toUInt32 <<< 16) |||
    ((block.getD (i * 4 + 2) 0).toUInt32 <<< 8) ||| (block.getD (i * 4 + 3) 0).toUInt32

/-- One of the other words. -/
def mixedWord (w : List UInt32) (i : Nat) : UInt32 :=
  rotateLeft (w.getD (i - 3) 0 ^^^ w.getD (i - 8) 0 ^^^ w.getD (i - 14) 0 ^^^ w.getD (i - 16) 0) 1

/-- `w`. -/
def words (block : List UInt8) : List UInt32 :=
  let w := (List.range' 0 16).foldl (fun w i => w.set i (blockWord block i)) (List.replicate 80 0)
  (List.range' 16 64).foldl (fun w i => w.set i (mixedWord w i)) w

/-- `f` and `k`. -/
def mixing (i : Nat) (b c d : UInt32) : UInt32 × UInt32 :=
  if i ≤ 19 then ((b &&& c) ||| (~~~ b &&& d), 0x5a827999)
  else if i ≤ 39 then (b ^^^ c ^^^ d, 0x6ed9eba1)
  else if i ≤ 59 then ((b &&& c) ||| (b &&& d) ||| (c &&& d), 0x8f1bbcdc)
  else (b ^^^ c ^^^ d, 0xca62c1d6)

/-- One of the 80 rounds, on `[a, b, c, d, e]`. -/
def round (w : List UInt32) (s : Vector UInt32 5) (i : Nat) : Vector UInt32 5 :=
  let fk := mixing i s[1] s[2] s[3]
  let temp := rotateLeft s[0] 5 + fk.1 + s[4] + fk.2 + w.getD i 0
  #v[temp, s[0], rotateLeft s[1] 30, s[2], s[3]]

/-- `process_block`. -/
def processBlock (state : Vector UInt32 5) (block : List UInt8) : Vector UInt32 5 :=
  let s := (List.range 80).foldl (round (words block)) state
  Vector.ofFn fun i => state[i] + s[i]

/-- The loop of `update`, which takes a byte at least in every turn. -/
def updateLoop : Nat → Sha1 → List UInt8 → Sha1
  | 0, s, _ => s
  | turns + 1, s, data =>
    if data.length = 0 then s
    else
      let take := min (64 - s.bufLen) data.length
      let buf := s.buf.take s.bufLen ++ data.take take ++ s.buf.drop (s.bufLen + take)
      if s.bufLen + take = 64 then
        let s := { s with state := processBlock s.state buf, buf := buf, bufLen := 0 }
        updateLoop turns s (data.drop take)
      else updateLoop turns { s with buf := buf, bufLen := s.bufLen + take } (data.drop take)

/-- `update`. -/
def update (s : Sha1) (data : List UInt8) : Option Sha1 :=
  if s.total + data.length < 2 ^ 64 then
    some (updateLoop data.length { s with total := s.total + data.length } data)
  else none

/-- The eight bytes of `total_bits`. -/
def totalBytes (totalBits : Nat) : List UInt8 :=
  [UInt8.ofNat (totalBits >>> 56), UInt8.ofNat (totalBits >>> 48), UInt8.ofNat (totalBits >>> 40),
    UInt8.ofNat (totalBits >>> 32), UInt8.ofNat (totalBits >>> 24), UInt8.ofNat (totalBits >>> 16),
    UInt8.ofNat (totalBits >>> 8), UInt8.ofNat totalBits]

/-- `out`. -/
def digest (state : Vector UInt32 5) : List UInt8 :=
  state.toList.flatMap fun (x : UInt32) =>
    [(x >>> 24).toUInt8, (x >>> 16).toUInt8, (x >>> 8).toUInt8, x.toUInt8]

/-- The loop that only counts up to 64 leaves the buffer as it is. -/
def closeBlock (s : Sha1) : Sha1 :=
  let s := { s with buf := s.buf.set s.bufLen 0x80, bufLen := s.bufLen + 1 }
  if 56 < s.bufLen then
    { s with state := processBlock s.state s.buf, bufLen := 0, buf := List.replicate 64 0 }
  else s

/-- `finalize`. -/
def finalize (s : Sha1) : Option (List UInt8) :=
  if s.total * 8 < 2 ^ 64 then
    let totalBits := s.total * 8
    let s := closeBlock s
    let buf := s.buf.take s.bufLen ++ List.replicate (56 - s.bufLen) 0 ++ totalBytes totalBits
    some (digest (processBlock s.state buf))
  else none

/-- A message is fed in pieces. -/
def updates (s : Sha1) (pieces : List (List UInt8)) : Option Sha1 := pieces.foldlM update s

end Sha1

/-- The pad of a key: longer keys are cut off. -/
def keyPad (pad : UInt8) (key : List UInt8) : List UInt8 :=
  (key.take 64).map (pad ^^^ ·) ++ List.replicate (64 - key.length) pad

/-- `hmac_sha1`. -/
def hmacSha1 (key msg : List UInt8) (extra : UInt8) : Option (List UInt8) := do
  let mlen := min msg.length 254
  let sha ← Sha1.updates .new [keyPad 0x36 key, extra :: msg.take mlen]
  let inner ← sha.finalize
  let sha2 ← Sha1.updates .new [keyPad 0x5c key, inner]
  sha2.finalize

/-- `prf_sha1`, with a turn for each 20 bytes. -/
def prfLoop (key ctx : List UInt8) : (turns counter left : Nat) → Option (List UInt8)
  | 0, _, _ => some []
  | turns + 1, counter, left =>
    if left = 0 then some []
    else do
      let hmac ← hmacSha1 key ctx (UInt8.ofNat counter)
      let copyLen := min left 20
      if counter + 1 < 256 then
        (hmac.take copyLen ++ ·) <$> prfLoop key ctx turns (counter + 1) (left - copyLen)
      else none

/-- `prf_sha1`. -/
def prfSha1 (key ctx : List UInt8) (len : Nat) : Option (List UInt8) := prfLoop key ctx len 0 len

/-! ## The rounds are those of the standard -/

namespace Sha1

theorem ch_eq (x y z : UInt32) : (x &&& y) ||| (~~~ x &&& z) = Lib.Sha1.ch x y z := by
  apply UInt32.toBitVec_inj.mp
  simp only [Lib.Sha1.ch, UInt32.toBitVec_or, UInt32.toBitVec_and, UInt32.toBitVec_not,
    UInt32.toBitVec_xor]
  ext i inside
  simp only [BitVec.getElem_or, BitVec.getElem_and, BitVec.getElem_xor, BitVec.getElem_not]
  cases x.toBitVec[i] <;> cases y.toBitVec[i] <;> cases z.toBitVec[i] <;> rfl

theorem maj_eq (x y z : UInt32) :
    (x &&& y) ||| (x &&& z) ||| (y &&& z) = Lib.Sha1.maj x y z := by
  apply UInt32.toBitVec_inj.mp
  simp only [Lib.Sha1.maj, UInt32.toBitVec_or, UInt32.toBitVec_and, UInt32.toBitVec_xor]
  ext i inside
  simp only [BitVec.getElem_or, BitVec.getElem_and, BitVec.getElem_xor]
  cases x.toBitVec[i] <;> cases y.toBitVec[i] <;> cases z.toBitVec[i] <;> rfl

theorem mixing_eq (i : Nat) (b c d : UInt32) :
    mixing i b c d = (Lib.Sha1.f i b c d, Lib.Sha1.k i) := by
  unfold mixing Lib.Sha1.f Lib.Sha1.k
  by_cases first : i < 20
  · rw [if_pos (by omega), if_pos first, if_pos first, ch_eq]
  · rw [if_neg (by omega), if_neg first, if_neg first]
    by_cases second : i < 40
    · rw [if_pos (by omega), if_pos second, if_pos second]
      rfl
    · rw [if_neg (by omega), if_neg second, if_neg second]
      by_cases third : i < 60
      · rw [if_pos (by omega), if_pos third, if_pos third, maj_eq]
      · rw [if_neg (by omega), if_neg third, if_neg third]
        rfl

theorem round_eq (w : List UInt32) (s : Vector UInt32 5) (i : Nat) :
    round w s i = Lib.Sha1.round w s i := by
  unfold round
  rw [mixing_eq]
  rfl

/-- Words that are set one after the other are appended, where each only looks back. -/
theorem foldl_set (give give' : List UInt32 → Nat → UInt32) (start count room : Nat)
    (back : ∀ i ≥ start, ∀ front behind : List UInt32, front.length = i →
      give (front ++ behind) i = give' front i)
    {front : List UInt32} (long : front.length = start) :
    (List.range' start count).foldl (fun w i => w.set i (give w i))
        (front ++ List.replicate (count + room) 0) =
      (List.range' start count).foldl (fun w i => w ++ [give' w i]) front ++
        List.replicate room 0 := by
  induction count generalizing start front with
  | zero => rw [Nat.zero_add, List.range'_zero, List.foldl_nil, List.foldl_nil]
  | succ count ih =>
    have step : (front ++ List.replicate (count + 1 + room) 0).set start (give' front start) =
        front ++ [give' front start] ++ List.replicate (count + room) 0 := by
      rw [List.set_append_right _ _ (Nat.le_of_eq long), long, Nat.sub_self,
        Nat.add_right_comm, List.replicate_succ, List.set_cons_zero, List.append_assoc]
      rfl
    have longer : (front ++ [give' front start]).length = start + 1 := by
      rw [List.length_append, long]
      rfl
    rw [List.range'_succ, List.foldl_cons, List.foldl_cons,
      back start (Nat.le_refl _) front _ long, step]
    exact ih _ (fun i above => back i (Nat.le_of_succ_le above)) longer

theorem mixedWord_append {front : List UInt32} {i : Nat} (above : 16 ≤ i) (long : front.length = i)
    (behind : List UInt32) : mixedWord (front ++ behind) i = Lib.Sha1.nextWord front i := by
  unfold mixedWord Lib.Sha1.nextWord
  rw [List.getD_append _ _ _ _ (by omega), List.getD_append _ _ _ _ (by omega),
    List.getD_append _ _ _ _ (by omega), List.getD_append _ _ _ _ (by omega)]
  rfl

theorem words_eq (block : List UInt8) : words block = Lib.Sha1.schedule block := by
  have start : (List.range' 0 16).foldl (fun w i => w ++ [blockWord block i]) [] =
      (List.range 16).map (Lib.Sha1.word block) := rfl
  have first := foldl_set (fun _ => blockWord block) (fun _ => blockWord block) 0 16 64
    (fun _ _ _ _ _ => rfl) (List.length_nil : ([] : List UInt32).length = 0)
  rw [start, List.nil_append] at first
  have sixteen : ((List.range 16).map (Lib.Sha1.word block)).length = 16 := by
    rw [List.length_map, List.length_range]
  have rest := foldl_set mixedWord Lib.Sha1.nextWord 16 64 0
    (fun i above front behind long => mixedWord_append above long behind) sixteen
  rw [List.replicate_zero, List.append_nil] at rest
  exact (congrArg (fun w => (List.range' 16 64).foldl (fun w i => w.set i (mixedWord w i)) w)
    first).trans rest

theorem processBlock_eq (state : Vector UInt32 5) (block : List UInt8) :
    processBlock state block = Lib.Sha1.compress state block := by
  have rounds : round (words block) = Lib.Sha1.round (Lib.Sha1.schedule block) := by
    funext s i
    rw [round_eq, words_eq]
  unfold processBlock Lib.Sha1.compress
  rw [rounds]
  rfl

theorem totalBytes_eq (len : Nat) : totalBytes (len * 8) = Lib.Sha1.bitLength len := by
  unfold totalBytes Lib.Sha1.bitLength
  rw [show List.range 8 = [0, 1, 2, 3, 4, 5, 6, 7] from rfl]
  simp only [Nat.shiftRight_eq_div_pow, List.map_cons, List.map_nil]
  norm_num

/-! ## What has been fed -/

/-- The state behind a message, in whatever pieces it came. -/
structure Holds (s : Sha1) (msg : List UInt8) : Prop where
  state : s.state = (blocks 64 msg).foldl Lib.Sha1.compress Lib.Sha1.initial
  buf : s.buf = buffered 64 (List.replicate 64 0) msg
  bufLen : s.bufLen = msg.length % 64

theorem holds_new : Holds new [] where
  state := rfl
  buf := rfl
  bufLen := rfl

theorem Holds.updateLoop {s : Sha1} {msg : List UInt8} (holds : Holds s msg) {turns : Nat}
    {data : List UInt8} (enough : data.length ≤ turns) :
    Holds (updateLoop turns s data) (msg ++ data) := by
  induction turns generalizing s msg data with
  | zero =>
    rw [List.eq_nil_of_length_eq_zero (Nat.le_zero.mp enough), List.append_nil]
    exact holds
  | succ turns ih =>
    rw [Sha1.updateLoop]
    split_ifs with done
    · rw [List.eq_nil_of_length_eq_zero done, List.append_nil]
      exact holds
    have inside : s.bufLen < 64 := holds.bufLen ▸ Nat.mod_lt _ (by decide)
    dsimp only
    generalize amount : min (64 - s.bufLen) data.length = take
    have whole : msg ++ data = msg ++ data.take take ++ data.drop take := by
      rw [List.append_assoc, List.take_append_drop]
    have piece : (data.take take).length = take := by
      rw [List.length_take]
      omega
    have shorter : (data.drop take).length ≤ turns := by
      rw [List.length_drop]
      omega
    rw [whole]
    split_ifs with full
    · have filled : msg.length % 64 + (data.take take).length = 64 := by
        rw [piece, ← holds.bufLen, full]
      have buffer : s.buf.take s.bufLen ++ data.take take ++ s.buf.drop (s.bufLen + take) =
          leftOver 64 msg ++ data.take take := by
        have blank : (List.replicate 64 (0 : UInt8)).length = 64 := List.length_replicate
        have long := length_buffered (by decide) blank msg
        rw [holds.buf, full, List.drop_of_length_le (Nat.le_of_eq long), List.append_nil,
          holds.bufLen, buffered, List.take_left' (length_leftOver 64 msg)]
      refine ih ⟨?_, ?_, ?_⟩ shorter
      · dsimp only
        rw [buffer, processBlock_eq, holds.state, blocks_of_full (by decide) filled,
          List.foldl_concat]
      · exact buffer.trans (buffered_full (by decide) filled).symm
      · dsimp only
        rw [List.length_append, ← Nat.mod_add_mod, filled]
    · have room : msg.length % 64 + (data.take take).length < 64 := by
        rw [piece, ← holds.bufLen]
        omega
      refine ih ⟨?_, ?_, ?_⟩ shorter
      · exact holds.state.trans (by rw [blocks_of_room room])
      · dsimp only
        rw [buffered_short room, holds.buf, holds.bufLen, piece]
      · dsimp only
        rw [List.length_append, ← Nat.mod_add_mod, Nat.mod_eq_of_lt room, piece, holds.bufLen]

@[simp] theorem updateLoop_total (turns : Nat) (s : Sha1) (data : List UInt8) :
    (updateLoop turns s data).total = s.total := by
  induction turns generalizing s data with
  | zero => rfl
  | succ turns ih =>
    rw [updateLoop]
    split_ifs
    · rfl
    · dsimp only
      split_ifs
      · exact ih _ _
      · exact ih _ _

/-- What was fed before, and a message in pieces. -/
theorem Holds.updates {s : Sha1} {msg : List UInt8} (holds : Holds s msg)
    (total : s.total = msg.length) (pieces : List (List UInt8))
    (small : (msg ++ pieces.flatten).length < 2 ^ 64) :
    ∃ after, updates s pieces = some after ∧ Holds after (msg ++ pieces.flatten) ∧
      after.total = (msg ++ pieces.flatten).length := by
  induction pieces generalizing s msg with
  | nil =>
    rw [List.flatten_nil, List.append_nil]
    exact ⟨s, rfl, holds, total⟩
  | cons piece pieces ih =>
    rw [List.flatten_cons, ← List.append_assoc] at small ⊢
    have fits : s.total + piece.length < 2 ^ 64 := by
      rw [total, ← List.length_append]
      rw [List.length_append] at small
      omega
    have next : Holds (Sha1.updateLoop piece.length { s with total := s.total + piece.length }
        piece) (msg ++ piece) :=
      (show Holds { s with total := s.total + piece.length } msg from
        ⟨holds.state, holds.buf, holds.bufLen⟩).updateLoop (Nat.le_refl _)
    obtain ⟨after, run, behind, length⟩ := ih next
      (by rw [updateLoop_total, total, List.length_append]) small
    refine ⟨after, ?_, behind, length⟩
    rw [Sha1.updates, List.foldlM_cons, update, if_pos fits]
    exact run

/-! ## What is left in the buffer -/

/-- The block that was processed last, or the empty buffer. -/
def lastBlock (msg : List UInt8) : List UInt8 :=
  (blocks 64 msg).getLastD (List.replicate 64 0)

/-- Behind the place of the 0x80, where it leaves no room for the length, the last block has
left nothing but zeros. -/
def Clear (msg : List UInt8) : Prop :=
  msg.length % 64 < 56 ∨
    (lastBlock msg).drop (msg.length % 64 + 1) = List.replicate (63 - msg.length % 64) 0

/-- What `finalize` processes. -/
def closing (msg : List UInt8) : List (List UInt8) :=
  if msg.length % 64 < 56 then
    [leftOver 64 msg ++
      (0x80 :: List.replicate (55 - msg.length % 64) 0 ++ Lib.Sha1.bitLength msg.length)]
  else
    [leftOver 64 msg ++ (0x80 :: (lastBlock msg).drop (msg.length % 64 + 1)),
      List.replicate 56 0 ++ Lib.Sha1.bitLength msg.length]

/-- All that is processed for a message. -/
def processed (msg : List UInt8) : List (List UInt8) := blocks 64 msg ++ closing msg

theorem length_lastBlock (msg : List UInt8) : (lastBlock msg).length = 64 := by
  rw [lastBlock, List.getLastD_eq_getLast?]
  rcases ended : (blocks 64 msg).getLast? with _ | block
  · exact List.length_replicate
  · exact length_of_mem_blocks (List.mem_of_getLast? ended)

theorem closing_eq_of_clear {msg : List UInt8} (clear : Clear msg) :
    closing msg = blocks 64 (leftOver 64 msg ++ Lib.Sha1.padding msg.length) := by
  have inside : msg.length % 64 < 64 := Nat.mod_lt _ (by decide)
  unfold closing Lib.Sha1.padding
  split_ifs with room
  · have zeros : (119 - msg.length % 64) % 64 = 55 - msg.length % 64 := by omega
    rw [zeros, blocks_single (by decide)]
    simp only [List.length_append, List.length_cons, List.length_replicate, length_leftOver,
      Lib.Sha1.length_bitLength]
    omega
  · have zeros : (119 - msg.length % 64) % 64 = 63 - msg.length % 64 + 56 := by omega
    have left := clear.resolve_left room
    have full : (leftOver 64 msg ++ 0x80 :: List.replicate (63 - msg.length % 64) 0).length = 64 := by
      rw [List.length_append, List.length_cons, List.length_replicate, length_leftOver]
      omega
    have short : (List.replicate 56 0 ++ Lib.Sha1.bitLength msg.length).length = 64 := by
      rw [List.length_append, List.length_replicate, Lib.Sha1.length_bitLength]
    have split : leftOver 64 msg ++ (0x80 :: List.replicate (63 - msg.length % 64 + 56) 0 ++
        Lib.Sha1.bitLength msg.length) =
        (leftOver 64 msg ++ 0x80 :: List.replicate (63 - msg.length % 64) 0) ++
          (List.replicate 56 0 ++ Lib.Sha1.bitLength msg.length) := by
      rw [List.replicate_add]
      simp only [List.cons_append, List.append_assoc]
    rw [zeros, split, blocks_append (by decide) (by rw [full]),
      blocks_single (by decide) full, blocks_single (by decide) short, left]
    rfl

theorem processed_of_clear {msg : List UInt8} (clear : Clear msg) :
    processed msg = Lib.Sha1.padded msg := by
  rw [processed, closing_eq_of_clear clear, Lib.Sha1.padded]
  exact (blocks_leftOver (by decide) msg (Lib.Sha1.padding msg.length)).symm

/-- What stands between the message and its length. -/
def filling (msg : List UInt8) : List UInt8 :=
  if msg.length % 64 < 56 then List.replicate (55 - msg.length % 64) 0
  else (lastBlock msg).drop (msg.length % 64 + 1) ++ List.replicate 56 0

theorem length_filling (msg : List UInt8) :
    (filling msg).length = (119 - msg.length % 64) % 64 := by
  have inside : msg.length % 64 < 64 := Nat.mod_lt _ (by decide)
  unfold filling
  split_ifs
  · rw [List.length_replicate]
    omega
  · rw [List.length_append, List.length_drop, length_lastBlock, List.length_replicate]
    omega

theorem flatten_processed (msg : List UInt8) :
    (processed msg).flatten =
      msg ++ (0x80 :: filling msg ++ Lib.Sha1.bitLength msg.length) := by
  have closed : (closing msg).flatten =
      leftOver 64 msg ++ (0x80 :: filling msg ++ Lib.Sha1.bitLength msg.length) := by
    unfold closing filling
    split_ifs <;> simp
  rw [processed, List.flatten_append, closed, ← List.append_assoc, flatten_blocks]

/-- The blocks of a padded message are processed for this message only, and only where the
buffer is clear. -/
theorem processed_eq_padded_iff (msg other : List UInt8) :
    processed msg = Lib.Sha1.padded other ↔ msg = other ∧ Clear msg := by
  constructor
  · intro same
    have flat := congrArg List.flatten same
    rw [flatten_processed, Lib.Sha1.flatten_padded, Lib.Sha1.padding, ← List.append_assoc,
      ← List.append_assoc] at flat
    have sizes := congrArg List.length flat
    simp only [List.length_append, List.length_cons, length_filling, Lib.Sha1.length_bitLength,
      List.length_replicate] at sizes
    obtain ⟨front, lengths⟩ := List.append_inj' flat (by
      rw [Lib.Sha1.length_bitLength, Lib.Sha1.length_bitLength])
    have long := Lib.Sha1.eq_of_bitLength_eq lengths (by omega) (by omega)
    obtain ⟨equal, filled⟩ := List.append_inj front long
    subst equal
    refine ⟨rfl, ?_⟩
    by_cases room : msg.length % 64 < 56
    · exact .inl room
    · have inside : msg.length % 64 < 64 := Nat.mod_lt _ (by decide)
      have zeros : (119 - msg.length % 64) % 64 = 63 - msg.length % 64 + 56 := by omega
      rw [filling, if_neg room, zeros, List.replicate_add] at filled
      exact .inr (List.append_cancel_right (List.tail_eq_of_cons_eq filled))
  · rintro ⟨rfl, clear⟩
    exact processed_of_clear clear

theorem Holds.finalize {s : Sha1} {msg : List UInt8} (holds : Holds s msg)
    (total : s.total = msg.length) (small : msg.length < 2 ^ 61) :
    finalize s = some (Lib.Sha1.hashBlocks (processed msg)) := by
  have fits : s.total * 8 < 2 ^ 64 := by
    rw [total]
    omega
  have inside : msg.length % 64 < 64 := Nat.mod_lt _ (by decide)
  have marked : s.buf.set s.bufLen 0x80 =
      leftOver 64 msg ++ 0x80 :: (lastBlock msg).drop (msg.length % 64 + 1) := by
    have place := length_leftOver 64 msg
    have short : msg.length % 64 < (lastBlock msg).length := by
      rw [length_lastBlock]
      exact inside
    have first : (lastBlock msg).drop (msg.length % 64) =
        (lastBlock msg)[msg.length % 64] :: (lastBlock msg).drop (msg.length % 64 + 1) :=
      List.drop_eq_getElem_cons short
    rw [holds.buf, holds.bufLen, buffered, ← lastBlock, first,
      List.set_append_right _ _ (Nat.le_of_eq place), place, Nat.sub_self, List.set_cons_zero]
  unfold Sha1.finalize
  rw [if_pos fits]
  dsimp only
  rw [total, totalBytes_eq]
  unfold closeBlock
  dsimp only
  rw [marked, processed, closing, Lib.Sha1.hashBlocks, List.foldl_append, holds.bufLen,
    ← holds.state]
  have place := length_leftOver 64 msg
  by_cases room : msg.length % 64 < 56
  · rw [if_neg (by omega), if_pos room, List.foldl_cons, List.foldl_nil, processBlock_eq]
    have front : (leftOver 64 msg ++ 0x80 :: (lastBlock msg).drop (msg.length % 64 + 1)).take
        (msg.length % 64 + 1) = leftOver 64 msg ++ [0x80] := by
      rw [List.take_append, place, List.take_of_length_le (by omega), Nat.add_sub_cancel_left,
        List.take_succ_cons, List.take_zero]
    have zeros : 56 - (msg.length % 64 + 1) = 55 - msg.length % 64 := by omega
    dsimp only
    rw [front, zeros, List.append_assoc, List.append_assoc]
    rfl
  · rw [if_pos (by omega), if_neg room, List.foldl_cons, List.foldl_cons, List.foldl_nil,
      processBlock_eq, processBlock_eq]
    rfl

theorem total_of_updates {s after : Sha1} {pieces : List (List UInt8)}
    (run : updates s pieces = some after) : after.total = s.total + pieces.flatten.length := by
  induction pieces generalizing s with
  | nil =>
    cases run
    rfl
  | cons piece pieces ih =>
    rw [updates, List.foldlM_cons] at run
    obtain ⟨next, updated, rest⟩ := Option.bind_eq_some_iff.mp run
    rw [ih rest, List.flatten_cons, List.length_append, ← Nat.add_assoc]
    congr 1
    unfold update at updated
    split_ifs at updated
    cases updated
    rw [updateLoop_total]

/-- What a fresh hash makes of a message in pieces. -/
theorem finalize_updates {pieces : List (List UInt8)} (small : pieces.flatten.length < 2 ^ 61) :
    (new.updates pieces).bind finalize =
      some (Lib.Sha1.hashBlocks (processed pieces.flatten)) := by
  have fits : ([] ++ pieces.flatten).length < 2 ^ 64 := by
    rw [List.nil_append]
    omega
  obtain ⟨after, run, holds, total⟩ := holds_new.updates rfl pieces fits
  rw [List.nil_append] at holds total
  rw [run, Option.bind_some, holds.finalize total small]

theorem finalize_updates_eq_none {pieces : List (List UInt8)}
    (long : 2 ^ 61 ≤ pieces.flatten.length) : (new.updates pieces).bind finalize = none := by
  rcases run : new.updates pieces with _ | after
  · rfl
  · have total := total_of_updates run
    have tooLong : ¬ after.total * 8 < 2 ^ 64 := by
      rw [total]
      change ¬ (0 + _) * 8 < _
      omega
    rw [Option.bind_some, finalize, if_neg tooLong]

theorem digest_standard_iff (pieces : List (List UInt8)) :
    (new.updates pieces).bind finalize = some (sha1 pieces.flatten) ↔
      pieces.flatten.length < 2 ^ 61 ∧ (Clear pieces.flatten ∨
        Lib.Sha1.Collide (processed pieces.flatten) (Lib.Sha1.padded pieces.flatten)) := by
  by_cases small : pieces.flatten.length < 2 ^ 61
  · rw [finalize_updates small, and_iff_right small, Option.some_inj, sha1,
      Lib.Sha1.hashBlocks_eq_iff, processed_eq_padded_iff, and_iff_right rfl]
  · rw [finalize_updates_eq_none (Nat.le_of_not_lt small)]
    exact iff_of_false nofun fun both => small both.1

end Sha1

/-! ## The keyed hash -/

/-- A key that the pads hold as the standard has it: of one block at most, or beginning with
its own hash and zeros. -/
def KeyFits (key : List UInt8) : Prop := key.length ≤ 64 ∨ key.take 64 = hmacKey sha1 64 key

/-- What `sha` is fed. -/
def innerFed (key msg : List UInt8) (extra : UInt8) : List UInt8 :=
  keyPad 0x36 key ++ extra :: msg.take 254

/-- What `sha2` is fed. -/
def outerFed (key msg : List UInt8) (extra : UInt8) : List UInt8 :=
  keyPad 0x5c key ++ Lib.Sha1.hashBlocks (Sha1.processed (innerFed key msg extra))

theorem length_keyPad (pad : UInt8) (key : List UInt8) : (keyPad pad key).length = 64 := by
  rw [keyPad, List.length_append, List.length_map, List.length_take, List.length_replicate]
  omega

theorem length_sha1 (msg : List UInt8) : (sha1 msg).length = 20 := Lib.Sha1.length_bytes _

theorem keyPad_eq_iff (pad : UInt8) (key : List UInt8) :
    keyPad pad key = (hmacKey sha1 64 key).map (pad ^^^ ·) ↔ KeyFits key := by
  have inj : Function.Injective (pad ^^^ · : UInt8 → UInt8) := by
    intro x y same
    have twice := congrArg (pad ^^^ ·) same
    simpa only [← UInt8.xor_assoc, UInt8.xor_self, UInt8.zero_xor] using twice
  by_cases short : key.length ≤ 64
  · refine iff_of_true ?_ (.inl short)
    rw [keyPad, hmacKey, if_neg (Nat.not_lt.mpr short), List.take_of_length_le short,
      List.map_append, List.map_replicate, UInt8.xor_zero]
  · rw [KeyFits, or_iff_right short, keyPad, show 64 - key.length = 0 by omega,
      List.replicate_zero, List.append_nil]
    exact (List.map_injective_iff.mpr inj).eq_iff

theorem hmacSha1_eq (key msg : List UInt8) (extra : UInt8) :
    hmacSha1 key msg extra = some (sha1 (outerFed key msg extra)) := by
  have inner : (Sha1.new.updates [keyPad 0x36 key, extra :: msg.take (min msg.length 254)]).bind
      Sha1.finalize = some (Lib.Sha1.hashBlocks (Sha1.processed (innerFed key msg extra))) := by
    have taken : msg.take (min msg.length 254) = msg.take 254 := by
      rw [Nat.min_comm, ← List.take_eq_take_min]
    have fed : [keyPad 0x36 key, extra :: msg.take 254].flatten = innerFed key msg extra := by
      simp only [List.flatten_cons, List.flatten_nil, List.append_nil, innerFed]
    rw [taken, Sha1.finalize_updates, fed]
    rw [fed, innerFed, List.length_append, length_keyPad, List.length_cons, List.length_take]
    omega
  have outer : (Sha1.new.updates [keyPad 0x5c key,
      Lib.Sha1.hashBlocks (Sha1.processed (innerFed key msg extra))]).bind Sha1.finalize =
        some (sha1 (outerFed key msg extra)) := by
    have fed : [keyPad 0x5c key, Lib.Sha1.hashBlocks (Sha1.processed (innerFed key msg extra))].flatten =
        outerFed key msg extra := by
      simp only [List.flatten_cons, List.flatten_nil, List.append_nil, outerFed]
    have long : (outerFed key msg extra).length = 84 := by
      rw [outerFed, List.length_append, length_keyPad, Lib.Sha1.hashBlocks, Lib.Sha1.length_bytes]
    have clear : Sha1.Clear (outerFed key msg extra) := .inl (by rw [long]; decide)
    rw [Sha1.finalize_updates, fed, Sha1.processed_of_clear clear, sha1]
    rw [fed, long]
    decide
  unfold hmacSha1
  obtain ⟨sha, fed, ended⟩ := Option.bind_eq_some_iff.mp inner
  obtain ⟨sha2, fed2, ended2⟩ := Option.bind_eq_some_iff.mp outer
  simp only [fed, ended, fed2, ended2, Option.bind_eq_bind, Option.bind_some]

theorem innerFed_eq_iff (key msg : List UInt8) (extra : UInt8) :
    innerFed key msg extra = hmacInner sha1 64 key (extra :: msg) ↔
      KeyFits key ∧ msg.length ≤ 254 := by
  have long : (hmacKey sha1 64 key).length = 64 :=
    length_hmacKey (fun msg => by rw [length_sha1]; decide) key
  rw [innerFed, hmacInner, ← keyPad_eq_iff 0x36]
  constructor
  · intro same
    obtain ⟨pads, texts⟩ := List.append_inj same (by rw [length_keyPad, List.length_map, long])
    exact ⟨pads, List.take_eq_self_iff msg |>.mp (List.tail_eq_of_cons_eq texts)⟩
  · rintro ⟨pads, short⟩
    rw [pads, List.take_of_length_le short]

theorem outerFed_eq_iff (key msg : List UInt8) (extra : UInt8) :
    outerFed key msg extra = hmacOuter sha1 64 key (extra :: msg) ↔
      KeyFits key ∧ Lib.Sha1.hashBlocks (Sha1.processed (innerFed key msg extra)) =
        sha1 (hmacInner sha1 64 key (extra :: msg)) := by
  have long : (hmacKey sha1 64 key).length = 64 :=
    length_hmacKey (fun msg => by rw [length_sha1]; decide) key
  rw [outerFed, hmacOuter, ← keyPad_eq_iff 0x5c]
  constructor
  · intro same
    exact List.append_inj same (by rw [length_keyPad, List.length_map, long])
  · rintro ⟨pads, texts⟩
    rw [pads, texts]

theorem keyed_standard_iff (key msg : List UInt8) (extra : UInt8) :
    hmacSha1 key msg extra = some (hmac sha1 64 key (extra :: msg)) ↔
      KeyFits key ∧ (msg.length ≤ 254 ∧ Sha1.Clear (innerFed key msg extra) ∨
        Lib.Sha1.Collide (Sha1.processed (innerFed key msg extra))
          (Lib.Sha1.padded (hmacInner sha1 64 key (extra :: msg)))) ∨
      Lib.Sha1.Collide (Lib.Sha1.padded (outerFed key msg extra))
        (Lib.Sha1.padded (hmacOuter sha1 64 key (extra :: msg))) := by
  rw [hmacSha1_eq, Option.some_inj, hmac, sha1, sha1, Lib.Sha1.hashBlocks_eq_iff,
    Lib.Sha1.padded_inj, outerFed_eq_iff, sha1, Lib.Sha1.hashBlocks_eq_iff,
    Sha1.processed_eq_padded_iff, innerFed_eq_iff]
  refine or_congr_left ⟨?_, ?_⟩
  · rintro ⟨fits, ⟨⟨-, short⟩, clear⟩ | collide⟩
    · exact ⟨fits, .inl ⟨short, clear⟩⟩
    · exact ⟨fits, .inr collide⟩
  · rintro ⟨fits, ⟨short, clear⟩ | collide⟩
    · exact ⟨fits, .inl ⟨⟨fits, short⟩, clear⟩⟩
    · exact ⟨fits, .inr collide⟩

/-- When the hashes of the handshake are those of the standards: a message must fit SHA-1, and the
bytes that the last block has left behind its end must be zeros where they are hashed; the HMAC
needs a key of one block and a message that `inner_msg` holds as well. In all other cases an
agreement is a collision of SHA-1, between the blocks that are processed and those of the padded
message. -/
theorem hashes_standard_iff (pieces : List (List UInt8)) (key msg : List UInt8) (extra : UInt8) :
    ((Sha1.new.updates pieces).bind Sha1.finalize = some (sha1 pieces.flatten) ↔
        pieces.flatten.length < 2 ^ 61 ∧ (Sha1.Clear pieces.flatten ∨
          Lib.Sha1.Collide (Sha1.processed pieces.flatten) (Lib.Sha1.padded pieces.flatten))) ∧
      (hmacSha1 key msg extra = some (hmac sha1 64 key (extra :: msg)) ↔
        KeyFits key ∧ (msg.length ≤ 254 ∧ Sha1.Clear (innerFed key msg extra) ∨
          Lib.Sha1.Collide (Sha1.processed (innerFed key msg extra))
            (Lib.Sha1.padded (hmacInner sha1 64 key (extra :: msg)))) ∨
        Lib.Sha1.Collide (Lib.Sha1.padded (outerFed key msg extra))
          (Lib.Sha1.padded (hmacOuter sha1 64 key (extra :: msg)))) :=
  ⟨Sha1.digest_standard_iff pieces, keyed_standard_iff key msg extra⟩

/-! The hash values behind the blocks of 120 ones, with and without what the first block leaves. -/

theorem compress_ones : Lib.Sha1.compress Lib.Sha1.initial (List.replicate 64 1) =
    #v[225742272, 346990996, 3261878331, 3799280471, 1556741326] := by
  decide +kernel

theorem compress_leftover :
    Lib.Sha1.compress #v[225742272, 346990996, 3261878331, 3799280471, 1556741326]
      (List.replicate 56 1 ++ 0x80 :: List.replicate 7 1) =
        #v[616091975, 268042948, 56629750, 2497612621, 1981589841] := by
  decide +kernel

theorem compress_cleared :
    Lib.Sha1.compress #v[225742272, 346990996, 3261878331, 3799280471, 1556741326]
      (List.replicate 56 1 ++ 0x80 :: List.replicate 7 0) =
        #v[336025280, 2575058897, 1281775177, 1178210386, 4196852699] := by
  decide +kernel

/-- Of 120 ones, the 56 in the last block and the 0x80 leave seven ones of the block before. -/
theorem leftover_hashed :
    (Sha1.new.updates [List.replicate 120 1]).bind Sha1.finalize ≠
      some (sha1 (List.replicate 120 1)) := by
  have processed : Sha1.processed [List.replicate 120 1].flatten =
      [List.replicate 64 1, List.replicate 56 1 ++ 0x80 :: List.replicate 7 1,
        List.replicate 56 0 ++ Lib.Sha1.bitLength 120] := by decide +kernel
  have padded : Lib.Sha1.padded (List.replicate 120 1) =
      [List.replicate 64 1, List.replicate 56 1 ++ 0x80 :: List.replicate 7 0,
        List.replicate 56 0 ++ Lib.Sha1.bitLength 120] := by decide +kernel
  rw [sha1, Sha1.finalize_updates (by decide), processed, padded]
  simp only [Lib.Sha1.hashBlocks, List.foldl_cons, List.foldl_nil, compress_ones,
    compress_leftover, compress_cleared]
  decide +kernel

end DBSos.Wifi
