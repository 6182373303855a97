import Mathlib.Data.Vector.Basic
import Mathlib.Data.List.GetD

/-!
# Messages in blocks

A message is cut into whole blocks of one size and what is left behind them. An iterated hash
takes the blocks in order, so that all a hash in the making has to keep of a message is the blocks
it has taken and a buffer: the rest of the message and, behind it, what the last block has left
there (`buffered_short`, `buffered_full`).
-/

namespace DBSos.Lib

universe u

variable {α : Type u} {size : Nat} {msg front back piece blank : List α}

/-- The whole blocks of a message. -/
def blocks (size : Nat) (msg : List α) : List (List α) :=
  (List.range (msg.length / size)).map fun i => (msg.drop (i * size)).take size

/-- What is left behind the whole blocks. -/
def leftOver (size : Nat) (msg : List α) : List α := msg.drop (msg.length / size * size)

/-- A buffer that the message has gone through, block by block. -/
def buffered (size : Nat) (blank msg : List α) : List α :=
  leftOver size msg ++ ((blocks size msg).getLastD blank).drop (msg.length % size)

@[simp] theorem length_leftOver (size : Nat) (msg : List α) :
    (leftOver size msg).length = msg.length % size := by
  rw [leftOver, List.length_drop, Nat.mod_eq_sub, Nat.mul_comm]

theorem blocks_of_short (short : msg.length < size) : blocks size msg = [] := by
  rw [blocks, Nat.div_eq_of_lt short]
  rfl

theorem leftOver_of_short (short : msg.length < size) : leftOver size msg = msg := by
  rw [leftOver, Nat.div_eq_of_lt short, Nat.zero_mul]
  rfl

theorem length_of_mem_blocks {block : List α} (member : block ∈ blocks size msg) :
    block.length = size := by
  obtain ⟨i, inside, rfl⟩ := List.mem_map.mp member
  have fits : (i + 1) * size ≤ msg.length :=
    (Nat.mul_le_mul_right size (List.mem_range.mp inside)).trans (Nat.div_mul_le_self _ _)
  rw [Nat.add_one_mul] at fits
  rw [List.length_take, List.length_drop]
  omega

/-- Behind whole blocks, a message is cut as if it began there. -/
theorem blocks_append (positive : 0 < size) (whole : size ∣ front.length) (back : List α) :
    blocks size (front ++ back) = blocks size front ++ blocks size back := by
  obtain ⟨count, long⟩ := whole
  have counted : (front ++ back).length / size = count + back.length / size := by
    rw [List.length_append, long, Nat.mul_add_div positive]
  have own : front.length / size = count := by
    rw [long, Nat.mul_div_cancel_left _ positive]
  unfold blocks
  rw [counted, own, List.range_add, List.map_append, List.map_map]
  congr 1
  · refine List.map_congr_left fun i inside => ?_
    have fits : (i + 1) * size ≤ front.length := by
      rw [long, Nat.mul_comm size]
      exact Nat.mul_le_mul_right size (List.mem_range.mp inside)
    rw [Nat.add_one_mul] at fits
    rw [List.drop_append_of_le_length (by omega), List.take_append_of_le_length]
    rw [List.length_drop]
    omega
  · refine List.map_congr_left fun i _ => ?_
    have place : (count + i) * size = front.length + i * size := by
      rw [Nat.add_mul, long, Nat.mul_comm count]
    rw [Function.comp_apply, place, List.drop_append, List.drop_of_length_le (Nat.le_add_right _ _),
      Nat.add_sub_cancel_left, List.nil_append]

theorem leftOver_append (positive : 0 < size) (whole : size ∣ front.length) (back : List α) :
    leftOver size (front ++ back) = leftOver size back := by
  obtain ⟨count, long⟩ := whole
  have place : (front ++ back).length / size * size =
      front.length + back.length / size * size := by
    rw [List.length_append, long, Nat.mul_add_div positive, Nat.add_mul, Nat.mul_comm count]
  rw [leftOver, leftOver, place, List.drop_append,
    List.drop_of_length_le (Nat.le_add_right _ _), Nat.add_sub_cancel_left, List.nil_append]

theorem blocks_single (positive : 0 < size) (full : msg.length = size) :
    blocks size msg = [msg] := by
  rw [blocks, full, Nat.div_self positive]
  simp [← full]

/-- A message is its whole blocks and the rest. -/
theorem exists_whole (positive : 0 < size) (msg : List α) :
    ∃ front, msg = front ++ leftOver size msg ∧ size ∣ front.length ∧
      blocks size front = blocks size msg := by
  have whole : size ∣ (msg.take (msg.length / size * size)).length := by
    rw [List.length_take, Nat.min_eq_left (Nat.div_mul_le_self _ _)]
    exact Nat.dvd_mul_left _ _
  refine ⟨msg.take (msg.length / size * size), (List.take_append_drop _ _).symm, whole, ?_⟩
  have short : (leftOver size msg).length < size := by
    rw [length_leftOver]
    exact Nat.mod_lt _ positive
  have cut := blocks_append positive whole (leftOver size msg)
  rw [blocks_of_short short, List.append_nil, leftOver, List.take_append_drop] at cut
  exact cut.symm

/-- The blocks of a message are those of its whole part, and those of the rest with what follows. -/
theorem blocks_leftOver (positive : 0 < size) (msg back : List α) :
    blocks size (msg ++ back) = blocks size msg ++ blocks size (leftOver size msg ++ back) := by
  obtain ⟨front, split, whole, same⟩ := exists_whole positive msg
  conv_lhs => rw [split, List.append_assoc, blocks_append positive whole, same]

theorem leftOver_leftOver (positive : 0 < size) (msg back : List α) :
    leftOver size (msg ++ back) = leftOver size (leftOver size msg ++ back) := by
  obtain ⟨front, split, whole, -⟩ := exists_whole positive msg
  conv_lhs => rw [split, List.append_assoc, leftOver_append positive whole]

theorem flatten_blocks (size : Nat) (msg : List α) :
    (blocks size msg).flatten ++ leftOver size msg = msg := by
  suffices taken : ∀ count, ((List.range count).map fun i =>
      (msg.drop (i * size)).take size).flatten = msg.take (count * size) by
    rw [blocks, taken, leftOver, List.take_append_drop]
  intro count
  induction count with
  | zero => rw [List.range_zero, List.map_nil, List.flatten_nil, Nat.zero_mul, List.take_zero]
  | succ count ih =>
    rw [List.range_succ, List.map_append, List.flatten_append, ih,
      Nat.add_one_mul, List.take_add]
    simp only [List.map_cons, List.map_nil, List.flatten_cons, List.flatten_nil, List.append_nil]

/-! ## A piece more -/

theorem blocks_of_room (room : msg.length % size + piece.length < size) :
    blocks size (msg ++ piece) = blocks size msg := by
  have positive : 0 < size := Nat.zero_lt_of_lt room
  have short : (leftOver size msg ++ piece).length < size := by
    rwa [List.length_append, length_leftOver]
  rw [blocks_leftOver positive, blocks_of_short short, List.append_nil]

theorem leftOver_of_room (room : msg.length % size + piece.length < size) :
    leftOver size (msg ++ piece) = leftOver size msg ++ piece := by
  have positive : 0 < size := Nat.zero_lt_of_lt room
  have short : (leftOver size msg ++ piece).length < size := by
    rwa [List.length_append, length_leftOver]
  rw [leftOver_leftOver positive, leftOver_of_short short]

theorem blocks_of_full (positive : 0 < size) (full : msg.length % size + piece.length = size) :
    blocks size (msg ++ piece) = blocks size msg ++ [leftOver size msg ++ piece] := by
  have single : (leftOver size msg ++ piece).length = size := by
    rwa [List.length_append, length_leftOver]
  rw [blocks_leftOver positive, blocks_single positive single]

theorem leftOver_of_full (full : msg.length % size + piece.length = size) :
    leftOver size (msg ++ piece) = [] := by
  apply List.eq_nil_of_length_eq_zero
  rw [length_leftOver, List.length_append, ← Nat.mod_add_mod, full, Nat.mod_self]

theorem length_buffered (positive : 0 < size) (fits : blank.length = size) (msg : List α) :
    (buffered size blank msg).length = size := by
  have last : ((blocks size msg).getLastD blank).length = size := by
    rw [List.getLastD_eq_getLast?]
    rcases ended : (blocks size msg).getLast? with _ | block
    · exact fits
    · exact length_of_mem_blocks (List.mem_of_getLast? ended)
  have inside := Nat.mod_lt msg.length positive
  rw [buffered, List.length_append, length_leftOver, List.length_drop, last]
  omega

/-- The buffer behind a piece that leaves room. -/
theorem buffered_short (room : msg.length % size + piece.length < size) :
    buffered size blank (msg ++ piece) =
      (buffered size blank msg).take (msg.length % size) ++ piece ++
        (buffered size blank msg).drop (msg.length % size + piece.length) := by
  have inside : (msg ++ piece).length % size = msg.length % size + piece.length := by
    rw [List.length_append, ← Nat.mod_add_mod, Nat.mod_eq_of_lt room]
  have front : (buffered size blank msg).take (msg.length % size) = leftOver size msg := by
    rw [buffered]
    exact List.take_left' (length_leftOver size msg)
  have behind : (buffered size blank msg).drop (msg.length % size + piece.length) =
      ((blocks size msg).getLastD blank).drop (msg.length % size + piece.length) := by
    rw [buffered, ← List.drop_drop, List.drop_left' (length_leftOver size msg), List.drop_drop]
  rw [front, behind, buffered, leftOver_of_room room, blocks_of_room room, inside]

/-- The buffer behind a piece that fills a block. -/
theorem buffered_full (positive : 0 < size) (full : msg.length % size + piece.length = size) :
    buffered size blank (msg ++ piece) = leftOver size msg ++ piece := by
  have none : (msg ++ piece).length % size = 0 := by
    rw [List.length_append, ← Nat.mod_add_mod, full, Nat.mod_self]
  rw [buffered, leftOver_of_full full, blocks_of_full positive full, none, List.nil_append,
    List.drop_zero, List.getLastD_concat]

end DBSos.Lib

/-!
## SHA-1 and HMAC

The hash of FIPS 180-4, section 6.1, with its functions under the names they have there, and the
HMAC over any hash of blocks. A message of `l` bits is padded with a one, zeros up to eight bytes
short of a block and `l` as 64 bits; the standard defines the hash where `l` is below `2 ^ 64`.
-/

namespace DBSos.Lib

namespace Sha1

/-- `ROTL`. -/
def rotl (x n : UInt32) : UInt32 := (x <<< n) ||| (x >>> (32 - n))

def ch (x y z : UInt32) : UInt32 := (x &&& y) ^^^ (~~~ x &&& z)

def parity (x y z : UInt32) : UInt32 := x ^^^ y ^^^ z

def maj (x y z : UInt32) : UInt32 := (x &&& y) ^^^ (x &&& z) ^^^ (y &&& z)

/-- The function of a round. -/
def f (t : Nat) : UInt32 → UInt32 → UInt32 → UInt32 :=
  if t < 20 then ch else if t < 40 then parity else if t < 60 then maj else parity

/-- The constant of a round. -/
def k (t : Nat) : UInt32 :=
  if t < 20 then 0x5a827999
  else if t < 40 then 0x6ed9eba1
  else if t < 60 then 0x8f1bbcdc
  else 0xca62c1d6

/-- A word of the block, with its first byte on top. -/
def word (block : List UInt8) (t : Nat) : UInt32 :=
  let byte := fun i => (block.getD (t * 4 + i) 0).toUInt32
  (byte 0 <<< 24) ||| (byte 1 <<< 16) ||| (byte 2 <<< 8) ||| byte 3

/-- The word that the words before it give. -/
def nextWord (w : List UInt32) (t : Nat) : UInt32 :=
  rotl (w.getD (t - 3) 0 ^^^ w.getD (t - 8) 0 ^^^ w.getD (t - 14) 0 ^^^ w.getD (t - 16) 0) 1

/-- The message schedule `W`. -/
def schedule (block : List UInt8) : List UInt32 :=
  (List.range' 16 64).foldl (fun w t => w ++ [nextWord w t]) ((List.range 16).map (word block))

/-- One round on `a`, `b`, `c`, `d`, `e`. -/
def round (w : List UInt32) (s : Vector UInt32 5) (t : Nat) : Vector UInt32 5 :=
  #v[rotl (s.get 0) 5 + f t (s.get 1) (s.get 2) (s.get 3) + s.get 4 + k t + w.getD t 0, s.get 0,
    rotl (s.get 1) 30, s.get 2, s.get 3]

/-- The hash value behind a block. -/
def compress (h : Vector UInt32 5) (block : List UInt8) : Vector UInt32 5 :=
  let s := (List.range 80).foldl (round (schedule block)) h
  Vector.ofFn fun i => h.get i + s.get i

/-- The hash value in front of the first block. -/
def initial : Vector UInt32 5 :=
  ⟨#[0x67452301, 0xefcdab89, 0x98badcfe, 0x10325476, 0xc3d2e1f0], by decide⟩

/-- The bytes of a hash value. -/
def bytes (h : Vector UInt32 5) : List UInt8 :=
  h.toList.flatMap fun (x : UInt32) =>
    [(x >>> 24).toUInt8, (x >>> 16).toUInt8, (x >>> 8).toUInt8, x.toUInt8]

/-- The hash of a sequence of blocks. -/
def hashBlocks (blocks : List (List UInt8)) : List UInt8 := bytes (blocks.foldl compress initial)

/-- The length of a message in bits, as eight bytes. -/
def bitLength (len : Nat) : List UInt8 :=
  (List.range 8).map fun i => UInt8.ofNat (len * 8 / 256 ^ (7 - i))

/-- What stands behind the message. -/
def padding (len : Nat) : List UInt8 :=
  0x80 :: List.replicate ((119 - len % 64) % 64) 0 ++ bitLength len

/-- The blocks of the padded message. -/
def padded (msg : List UInt8) : List (List UInt8) := blocks 64 (msg ++ padding msg.length)

/-- Two sequences of blocks that are a collision. -/
def Collide (xs ys : List (List UInt8)) : Prop := xs ≠ ys ∧ hashBlocks xs = hashBlocks ys

end Sha1

/-- SHA-1. -/
def sha1 (msg : List UInt8) : List UInt8 := Sha1.hashBlocks (Sha1.padded msg)

/-- A key of one block: a longer key is hashed first. -/
def hmacKey (hash : List UInt8 → List UInt8) (size : Nat) (key : List UInt8) : List UInt8 :=
  let key := if size < key.length then hash key else key
  key ++ List.replicate (size - key.length) 0

/-- What the inner hash is taken of. -/
def hmacInner (hash : List UInt8 → List UInt8) (size : Nat) (key text : List UInt8) : List UInt8 :=
  (hmacKey hash size key).map (0x36 ^^^ ·) ++ text

/-- What the outer hash is taken of. -/
def hmacOuter (hash : List UInt8 → List UInt8) (size : Nat) (key text : List UInt8) : List UInt8 :=
  (hmacKey hash size key).map (0x5c ^^^ ·) ++ hash (hmacInner hash size key text)

/-- HMAC over a hash of blocks of the given size. -/
def hmac (hash : List UInt8 → List UInt8) (size : Nat) (key text : List UInt8) : List UInt8 :=
  hash (hmacOuter hash size key text)

namespace Sha1

@[simp] theorem length_bytes (h : Vector UInt32 5) : (bytes h).length = 20 := by
  rw [bytes, List.length_flatMap]
  simp

@[simp] theorem length_bitLength (len : Nat) : (bitLength len).length = 8 := by
  rw [bitLength, List.length_map, List.length_range]

theorem length_padding (len : Nat) : (padding len).length = 9 + (119 - len % 64) % 64 := by
  rw [padding, List.length_append, List.length_cons, List.length_replicate, length_bitLength]
  omega

/-- The padding ends with a block. -/
theorem padding_whole (len : Nat) : 64 ∣ len + (padding len).length := by
  rw [length_padding]
  omega

/-- The padded message as one list. -/
theorem flatten_padded (msg : List UInt8) :
    (padded msg).flatten = msg ++ padding msg.length := by
  have split := flatten_blocks 64 (msg ++ padding msg.length)
  have none : leftOver 64 (msg ++ padding msg.length) = [] := by
    apply List.eq_nil_of_length_eq_zero
    rw [length_leftOver, List.length_append]
    exact Nat.mod_eq_zero_of_dvd (padding_whole msg.length)
  rwa [none, List.append_nil] at split

/-- Lengths less than a block apart are told from each other. -/
theorem eq_of_bitLength_eq {m n : Nat} (same : bitLength m = bitLength n) (near : m < n + 64)
    (near' : n < m + 64) : m = n := by
  unfold bitLength at same
  rw [show List.range 8 = [0, 1, 2, 3, 4, 5, 6, 7] from rfl] at same
  simp only [List.map_cons, List.map_nil, List.cons.injEq] at same
  obtain ⟨-, -, -, -, -, -, high, low, -⟩ := same
  rw [← UInt8.toNat_inj, UInt8.toNat_ofNat', UInt8.toNat_ofNat'] at high low
  omega

/-- A message can be read off its padded blocks. -/
theorem padded_inj {msg other : List UInt8} : padded msg = padded other ↔ msg = other := by
  constructor
  · intro same
    have flat := congrArg List.flatten same
    rw [flatten_padded, flatten_padded, padding, padding, ← List.append_assoc,
      ← List.append_assoc] at flat
    have sizes := congrArg List.length flat
    simp only [List.length_append, List.length_cons, length_bitLength,
      List.length_replicate] at sizes
    obtain ⟨front, lengths⟩ := List.append_inj' flat (by rw [length_bitLength, length_bitLength])
    exact (List.append_inj front (eq_of_bitLength_eq lengths (by omega) (by omega))).1
  · rintro rfl
    rfl

theorem hashBlocks_eq_iff {xs ys : List (List UInt8)} :
    hashBlocks xs = hashBlocks ys ↔ xs = ys ∨ Collide xs ys := by
  constructor
  · intro same
    by_cases equal : xs = ys
    · exact .inl equal
    · exact .inr ⟨equal, same⟩
  · rintro (rfl | ⟨-, same⟩)
    · rfl
    · exact same

end Sha1

example : sha1 [0x61, 0x62, 0x63] =
    [0xa9, 0x99, 0x3e, 0x36, 0x47, 0x06, 0x81, 0x6a, 0xba, 0x3e, 0x25, 0x71, 0x78, 0x50, 0xc2, 0x6c,
      0x9c, 0xd0, 0xd8, 0x9d] := by
  decide +kernel

theorem length_hmacKey {hash : List UInt8 → List UInt8} {size : Nat}
    (short : ∀ msg, (hash msg).length ≤ size) (key : List UInt8) :
    (hmacKey hash size key).length = size := by
  rw [hmacKey, List.length_append, List.length_replicate]
  split_ifs with long
  · exact Nat.add_sub_cancel' (short key)
  · exact Nat.add_sub_cancel' (Nat.le_of_not_lt long)

end DBSos.Lib
