import DBSos.Crypto.Aes

/-!
# SHA-256 and HMAC

`sha256` hashes one slice, `sha256_two_part` two slices one after the other, which `hmac_sha256`
needs for messages that do not fit its buffer. The kernel is built with its assertions on: `none`
is the panic of one that fails.
-/

namespace DBSos.Crypto

/-- `[u32; 8]`. -/
abbrev HashState := Vector UInt32 8

namespace Sha256

/-- `SHA_K`. -/
def roundConstants : List UInt32 :=
  [0x428a2f98, 0x71374491, 0xb5c0fbcf, 0xe9b5dba5, 0x3956c25b, 0x59f111f1, 0x923f82a4, 0xab1c5ed5,
    0xd807aa98, 0x12835b01, 0x243185be, 0x550c7dc3, 0x72be5d74, 0x80deb1fe, 0x9bdc06a7, 0xc19bf174,
    0xe49b69c1, 0xefbe4786, 0x0fc19dc6, 0x240ca1cc, 0x2de92c6f, 0x4a7484aa, 0x5cb0a9dc, 0x76f988da,
    0x983e5152, 0xa831c66d, 0xb00327c8, 0xbf597fc7, 0xc6e00bf3, 0xd5a79147, 0x06ca6351, 0x14292967,
    0x27b70a85, 0x2e1b2138, 0x4d2c6dfc, 0x53380d13, 0x650a7354, 0x766a0abb, 0x81c2c92e, 0x92722c85,
    0xa2bfe8a1, 0xa81a664b, 0xc24b8b70, 0xc76c51a3, 0xd192e819, 0xd6990624, 0xf40e3585, 0x106aa070,
    0x19a4c116, 0x1e376c08, 0x2748774c, 0x34b0bcb5, 0x391c0cb3, 0x4ed8aa4a, 0x5b9cca4f, 0x682e6ff3,
    0x748f82ee, 0x78a5636f, 0x84c87814, 0x8cc70208, 0x90befffa, 0xa4506ceb, 0xbef9a3f7, 0xc67178f2]

/-- `rotate_right`. -/
def rotateRight (x n : UInt32) : UInt32 := (x >>> n) ||| (x <<< (32 - n))

/-- The word at the turn `i` of the block. -/
def blockWord (block : List UInt8) (i : Nat) : UInt32 :=
  let byte := fun k => (block.getD (i * 4 + k) 0).toUInt32
  (byte 0 <<< 24) ||| (byte 1 <<< 16) ||| (byte 2 <<< 8) ||| byte 3

/-- The word that the words before it give. -/
def nextWord (w : List UInt32) (i : Nat) : UInt32 :=
  let word := fun k => w.getD k 0
  let w15 := word (i - 15)
  let w2 := word (i - 2)
  let s0 := rotateRight w15 7 ^^^ rotateRight w15 18 ^^^ (w15 >>> 3)
  let s1 := rotateRight w2 17 ^^^ rotateRight w2 19 ^^^ (w2 >>> 10)
  word (i - 16) + s0 + word (i - 7) + s1

/-- `w`. -/
def schedule (block : List UInt8) : List UInt32 :=
  (List.range' 16 48).foldl (fun w i => w ++ [nextWord w i]) ((List.range 16).map (blockWord block))

/-- One of the 64 rounds, from `a` to `hh`. -/
def round (w : List UInt32) (s : HashState) (i : Nat) : HashState :=
  let s1 := rotateRight s[4] 6 ^^^ rotateRight s[4] 11 ^^^ rotateRight s[4] 25
  let ch := (s[4] &&& s[5]) ^^^ (~~~ s[4] &&& s[6])
  let t1 := s[7] + s1 + ch + roundConstants.getD i 0 + w.getD i 0
  let s0 := rotateRight s[0] 2 ^^^ rotateRight s[0] 13 ^^^ rotateRight s[0] 22
  let maj := (s[0] &&& s[1]) ^^^ (s[0] &&& s[2]) ^^^ (s[1] &&& s[2])
  #v[t1 + (s0 + maj), s[0], s[1], s[2], s[3] + t1, s[4], s[5], s[6]]

/-- `sha256_compress`. -/
def compress (h : HashState) (block : List UInt8) : HashState :=
  let s := (List.range 64).foldl (round (schedule block)) h
  Vector.ofFn fun i => h[i] + s[i]

/-- The state that every hash starts with. -/
def initial : HashState :=
  #v[0x6a09e667, 0xbb67ae85, 0x3c6ef372, 0xa54ff53a, 0x510e527f, 0x9b05688c, 0x1f83d9ab, 0x5be0cd19]

/-- What is written to `out`. -/
def digest (h : HashState) : List UInt8 :=
  h.toList.flatMap fun (x : UInt32) =>
    [(x >>> 24).toUInt8, (x >>> 16).toUInt8, (x >>> 8).toUInt8, x.toUInt8]

/-- The eight bytes of `bit_len`. -/
def lengthBytes (len : Nat) : List UInt8 :=
  let bitLen := UInt64.ofNat len * 8
  (List.range 8).map fun i => (bitLen >>> UInt64.ofNat (56 - i * 8)).toUInt8

/-- The loop over whole blocks, with the rest. -/
def wholeBlocks : Nat → HashState → List UInt8 → HashState × List UInt8
  | 0, h, msg => (h, msg)
  | n + 1, h, msg =>
    if 64 ≤ msg.length then wholeBlocks n (compress h (msg.take 64)) (msg.drop 64) else (h, msg)

/-- The one or two blocks behind the whole ones. -/
def lastBlocks (rest : List UInt8) (len : Nat) : List UInt8 :=
  let blocks := if rest.length + 1 + 8 ≤ 64 then 1 else 2
  rest ++ [0x80] ++ List.replicate (blocks * 64 - 8 - (rest.length + 1)) 0 ++ lengthBytes len

end Sha256

open Sha256

/-- `sha256_stream`. -/
def sha256Stream (msg : List UInt8) (h : HashState) : List UInt8 :=
  let (h, rest) := wholeBlocks (msg.length / 64) h msg
  let last := lastBlocks rest msg.length
  digest (wholeBlocks (last.length / 64) h last).1

/-- `sha256`. -/
def sha256 (msg : List UInt8) : List UInt8 := sha256Stream msg initial

namespace Sha256

/-- The state, `buf` and `fill`. -/
structure Stream where
  h : HashState
  buf : List UInt8
  fill : Nat

/-- `feed`, with a turn for each byte at most. -/
def feed : Nat → Stream → List UInt8 → Stream
  | 0, s, _ => s
  | n + 1, s, data =>
    if data.length = 0 then s
    else
      let take := min (64 - s.fill) data.length
      let buf := s.buf.take s.fill ++ data.take take ++ s.buf.drop (s.fill + take)
      if s.fill + take = 64 then feed n { h := compress s.h buf, buf, fill := 0 } (data.drop take)
      else feed n { s with buf, fill := s.fill + take } (data.drop take)

/-- The first `total_pad` bytes of `pad`. -/
def twoPartPad (fill len : Nat) : List UInt8 :=
  [0x80] ++ List.replicate ((56 + 64 - fill % 64) % 64) 0 ++ lengthBytes len

end Sha256

/-- `sha256_two_part`. -/
def sha256TwoPart (a b : List UInt8) : Option (List UInt8) :=
  let s : Stream := { h := initial, buf := List.replicate 64 0, fill := 0 }
  let s := feed a.length s a
  let s := feed b.length s b
  let pad := twoPartPad s.fill (a.length + b.length)
  let s := feed pad.length s pad
  if s.fill = 0 then some (digest s.h) else none

/-- `k`. -/
def hmacKey (key : List UInt8) : List UInt8 :=
  let k := if 64 < key.length then sha256 key else key
  k ++ List.replicate (64 - k.length) 0

/-- `hmac_sha256`. -/
def hmacSha256 (key msg : List UInt8) : Option (List UInt8) :=
  let k := hmacKey key
  let ipad := k.map (0x36 ^^^ ·)
  let opad := k.map (0x5c ^^^ ·)
  let inner :=
    if msg.length ≤ 64 then some (sha256Stream (ipad ++ msg) initial) else sha256TwoPart ipad msg
  inner.map fun inner => sha256 (opad ++ inner)

/-! ## What the padding leaves over -/

namespace Sha256

theorem fill_feed {n : Nat} {s : Stream} (room : s.fill < 64) (data : List UInt8)
    (turns : data.length ≤ n) : (feed n s data).fill = (s.fill + data.length) % 64 := by
  induction n generalizing s data with
  | zero =>
    rw [feed, Nat.le_zero.mp turns, Nat.add_zero, Nat.mod_eq_of_lt room]
  | succ n ih =>
    rw [feed]
    split_ifs with done
    · rw [done, Nat.add_zero, Nat.mod_eq_of_lt room]
    · dsimp only
      have shorter : (data.drop (min (64 - s.fill) data.length)).length ≤ n := by
        rw [List.length_drop]
        omega
      split_ifs with full
      · rw [ih (by dsimp only; omega) _ shorter, List.length_drop]
        dsimp only
        omega
      · rw [ih (by dsimp only; omega) _ shorter, List.length_drop]
        dsimp only
        omega

theorem length_twoPartPad (fill len : Nat) :
    (twoPartPad fill len).length = 1 + (56 + 64 - fill % 64) % 64 + 8 := by
  rw [twoPartPad, List.length_append, List.length_append, List.length_replicate, lengthBytes,
    List.length_map, List.length_range]
  rfl

/-- The padding is one byte longer than the room in the last block. -/
theorem fill_feed_twoPartPad {s : Stream} (room : s.fill < 64) (len : Nat) :
    (feed (twoPartPad s.fill len).length s (twoPartPad s.fill len)).fill = 1 := by
  rw [fill_feed room _ (Nat.le_refl _), length_twoPartPad]
  omega

/-- The assertion that all blocks are hashed never holds. -/
theorem sha256TwoPart_eq_none (a b : List UInt8) : sha256TwoPart a b = none := by
  unfold sha256TwoPart
  dsimp only
  have start : ({ h := initial, buf := List.replicate 64 0, fill := 0 } : Stream).fill < 64 := by
    decide
  have first := fill_feed start a (Nat.le_refl _)
  have second := fill_feed (first ▸ Nat.mod_lt _ (by decide)) b (Nat.le_refl _)
  rw [fill_feed_twoPartPad (second ▸ Nat.mod_lt _ (by decide)), if_neg (by decide)]

end Sha256

/-- HMAC by its definition: the hash of the outer key and the hash of the inner key and the
message. -/
def hmac (key msg : List UInt8) : List UInt8 :=
  sha256 ((hmacKey key).map (0x5c ^^^ ·) ++ sha256 ((hmacKey key).map (0x36 ^^^ ·) ++ msg))

/-- `hmac_sha256` gives the HMAC of the messages of at most one block; for longer ones, and in
`sha256_two_part` always, the assertion behind the padding fails. -/
theorem hmacSha256_eq_iff (key msg : List UInt8) :
    (hmacSha256 key msg = some (hmac key msg) ↔ msg.length ≤ 64) ∧
      ∀ a b, sha256TwoPart a b ≠ some (sha256 (a ++ b)) := by
  constructor
  · constructor
    · intro same
      by_contra long
      unfold hmacSha256 at same
      dsimp only at same
      rw [if_neg long, sha256TwoPart_eq_none] at same
      cases same
    · intro short
      unfold hmacSha256 hmac
      dsimp only
      rw [if_pos short]
      rfl
  · intro a b same
    rw [sha256TwoPart_eq_none] at same
    cases same

/-- The empty key with 65 zeros. -/
theorem hmacSha256_long :
    hmacSha256 [] (List.replicate 65 0) ≠ some (hmac [] (List.replicate 65 0)) := by
  have failed : hmacSha256 [] (List.replicate 65 0) = none := by
    unfold hmacSha256
    dsimp only
    rw [if_neg (by decide), sha256TwoPart_eq_none]
    rfl
  rw [failed]
  exact nofun

example : sha256 [0x61, 0x62, 0x63] =
    [0xba, 0x78, 0x16, 0xbf, 0x8f, 0x01, 0xcf, 0xea, 0x41, 0x41, 0x40, 0xde, 0x5d, 0xae, 0x22, 0x23,
      0xb0, 0x03, 0x61, 0xa3, 0x96, 0x17, 0x7a, 0x9c, 0xb4, 0x10, 0xff, 0x61, 0xf2, 0x00, 0x15,
      0xad] := by
  decide +kernel

end DBSos.Crypto
