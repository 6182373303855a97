import DBSos.Lib.Packing
import Mathlib.Tactic.IntervalCases

/-!
# AES-128

The block cipher of `crypto.rs`, on blocks of 16 bytes in columns. Decryption takes the
rounds back one by one, whatever the round keys are.
-/

namespace DBSos.Crypto

/-- `[u8; 16]`. -/
abbrev Block := Vector UInt8 16

namespace Aes

/-- `AES_SBOX`. -/
def sboxTable : List UInt8 :=
  [0x63, 0x7c, 0x77, 0x7b, 0xf2, 0x6b, 0x6f, 0xc5, 0x30, 0x01, 0x67, 0x2b, 0xfe, 0xd7, 0xab, 0x76,
    0xca, 0x82, 0xc9, 0x7d, 0xfa, 0x59, 0x47, 0xf0, 0xad, 0xd4, 0xa2, 0xaf, 0x9c, 0xa4, 0x72, 0xc0,
    0xb7, 0xfd, 0x93, 0x26, 0x36, 0x3f, 0xf7, 0xcc, 0x34, 0xa5, 0xe5, 0xf1, 0x71, 0xd8, 0x31, 0x15,
    0x04, 0xc7, 0x23, 0xc3, 0x18, 0x96, 0x05, 0x9a, 0x07, 0x12, 0x80, 0xe2, 0xeb, 0x27, 0xb2, 0x75,
    0x09, 0x83, 0x2c, 0x1a, 0x1b, 0x6e, 0x5a, 0xa0, 0x52, 0x3b, 0xd6, 0xb3, 0x29, 0xe3, 0x2f, 0x84,
    0x53, 0xd1, 0x00, 0xed, 0x20, 0xfc, 0xb1, 0x5b, 0x6a, 0xcb, 0xbe, 0x39, 0x4a, 0x4c, 0x58, 0xcf,
    0xd0, 0xef, 0xaa, 0xfb, 0x43, 0x4d, 0x33, 0x85, 0x45, 0xf9, 0x02, 0x7f, 0x50, 0x3c, 0x9f, 0xa8,
    0x51, 0xa3, 0x40, 0x8f, 0x92, 0x9d, 0x38, 0xf5, 0xbc, 0xb6, 0xda, 0x21, 0x10, 0xff, 0xf3, 0xd2,
    0xcd, 0x0c, 0x13, 0xec, 0x5f, 0x97, 0x44, 0x17, 0xc4, 0xa7, 0x7e, 0x3d, 0x64, 0x5d, 0x19, 0x73,
    0x60, 0x81, 0x4f, 0xdc, 0x22, 0x2a, 0x90, 0x88, 0x46, 0xee, 0xb8, 0x14, 0xde, 0x5e, 0x0b, 0xdb,
    0xe0, 0x32, 0x3a, 0x0a, 0x49, 0x06, 0x24, 0x5c, 0xc2, 0xd3, 0xac, 0x62, 0x91, 0x95, 0xe4, 0x79,
    0xe7, 0xc8, 0x37, 0x6d, 0x8d, 0xd5, 0x4e, 0xa9, 0x6c, 0x56, 0xf4, 0xea, 0x65, 0x7a, 0xae, 0x08,
    0xba, 0x78, 0x25, 0x2e, 0x1c, 0xa6, 0xb4, 0xc6, 0xe8, 0xdd, 0x74, 0x1f, 0x4b, 0xbd, 0x8b, 0x8a,
    0x70, 0x3e, 0xb5, 0x66, 0x48, 0x03, 0xf6, 0x0e, 0x61, 0x35, 0x57, 0xb9, 0x86, 0xc1, 0x1d, 0x9e,
    0xe1, 0xf8, 0x98, 0x11, 0x69, 0xd9, 0x8e, 0x94, 0x9b, 0x1e, 0x87, 0xe9, 0xce, 0x55, 0x28, 0xdf,
    0x8c, 0xa1, 0x89, 0x0d, 0xbf, 0xe6, 0x42, 0x68, 0x41, 0x99, 0x2d, 0x0f, 0xb0, 0x54, 0xbb, 0x16]

/-- `AES_RSBOX`. -/
def rsboxTable : List UInt8 :=
  [0x52, 0x09, 0x6a, 0xd5, 0x30, 0x36, 0xa5, 0x38, 0xbf, 0x40, 0xa3, 0x9e, 0x81, 0xf3, 0xd7, 0xfb,
    0x7c, 0xe3, 0x39, 0x82, 0x9b, 0x2f, 0xff, 0x87, 0x34, 0x8e, 0x43, 0x44, 0xc4, 0xde, 0xe9, 0xcb,
    0x54, 0x7b, 0x94, 0x32, 0xa6, 0xc2, 0x23, 0x3d, 0xee, 0x4c, 0x95, 0x0b, 0x42, 0xfa, 0xc3, 0x4e,
    0x08, 0x2e, 0xa1, 0x66, 0x28, 0xd9, 0x24, 0xb2, 0x76, 0x5b, 0xa2, 0x49, 0x6d, 0x8b, 0xd1, 0x25,
    0x72, 0xf8, 0xf6, 0x64, 0x86, 0x68, 0x98, 0x16, 0xd4, 0xa4, 0x5c, 0xcc, 0x5d, 0x65, 0xb6, 0x92,
    0x6c, 0x70, 0x48, 0x50, 0xfd, 0xed, 0xb9, 0xda, 0x5e, 0x15, 0x46, 0x57, 0xa7, 0x8d, 0x9d, 0x84,
    0x90, 0xd8, 0xab, 0x00, 0x8c, 0xbc, 0xd3, 0x0a, 0xf7, 0xe4, 0x58, 0x05, 0xb8, 0xb3, 0x45, 0x06,
    0xd0, 0x2c, 0x1e, 0x8f, 0xca, 0x3f, 0x0f, 0x02, 0xc1, 0xaf, 0xbd, 0x03, 0x01, 0x13, 0x8a, 0x6b,
    0x3a, 0x91, 0x11, 0x41, 0x4f, 0x67, 0xdc, 0xea, 0x97, 0xf2, 0xcf, 0xce, 0xf0, 0xb4, 0xe6, 0x73,
    0x96, 0xac, 0x74, 0x22, 0xe7, 0xad, 0x35, 0x85, 0xe2, 0xf9, 0x37, 0xe8, 0x1c, 0x75, 0xdf, 0x6e,
    0x47, 0xf1, 0x1a, 0x71, 0x1d, 0x29, 0xc5, 0x89, 0x6f, 0xb7, 0x62, 0x0e, 0xaa, 0x18, 0xbe, 0x1b,
    0xfc, 0x56, 0x3e, 0x4b, 0xc6, 0xd2, 0x79, 0x20, 0x9a, 0xdb, 0xc0, 0xfe, 0x78, 0xcd, 0x5a, 0xf4,
    0x1f, 0xdd, 0xa8, 0x33, 0x88, 0x07, 0xc7, 0x31, 0xb1, 0x12, 0x10, 0x59, 0x27, 0x80, 0xec, 0x5f,
    0x60, 0x51, 0x7f, 0xa9, 0x19, 0xb5, 0x4a, 0x0d, 0x2d, 0xe5, 0x7a, 0x9f, 0x93, 0xc9, 0x9c, 0xef,
    0xa0, 0xe0, 0x3b, 0x4d, 0xae, 0x2a, 0xf5, 0xb0, 0xc8, 0xeb, 0xbb, 0x3c, 0x83, 0x53, 0x99, 0x61,
    0x17, 0x2b, 0x04, 0x7e, 0xba, 0x77, 0xd6, 0x26, 0xe1, 0x69, 0x14, 0x63, 0x55, 0x21, 0x0c, 0x7d]

/-- `AES_RCON`. -/
def rconTable : List UInt8 := [0x01, 0x02, 0x04, 0x08, 0x10, 0x20, 0x40, 0x80, 0x1b, 0x36]

def sbox (x : UInt8) : UInt8 := sboxTable.getD x.toNat 0

def rsbox (x : UInt8) : UInt8 := rsboxTable.getD x.toNat 0

/-- The four bytes that the turn `i` of `aes_key_expand` adds. -/
def expandWord (rk : List UInt8) (i : Nat) : List UInt8 :=
  let byte := fun j => rk.getD j 0
  let t := [byte (i - 4), byte (i - 3), byte (i - 2), byte (i - 1)]
  let t :=
    if i % 16 = 0 then
      [sbox (t.getD 1 0) ^^^ rconTable.getD (i / 16 - 1) 0, sbox (t.getD 2 0), sbox (t.getD 3 0),
        sbox (t.getD 0 0)]
    else t
  (List.range 4).map fun k => byte (i - 16 + k) ^^^ t.getD k 0

/-- `aes_key_expand`. -/
def keyExpand (key : List UInt8) : List UInt8 :=
  (List.range' 16 40 4).foldl (fun rk i => rk ++ expandWord rk i) key

/-- The key of a round. -/
def roundKey (rk : List UInt8) (round : Nat) : Block :=
  Vector.ofFn fun i => rk.getD (round * 16 + i) 0

def xtime (x : UInt8) : UInt8 := if x &&& 0x80 ≠ 0 then (x <<< 1) ^^^ 0x1b else x <<< 1

def mul2 (x : UInt8) : UInt8 := xtime x
def mul3 (x : UInt8) : UInt8 := xtime x ^^^ x
def mul9 (x : UInt8) : UInt8 := xtime (xtime (xtime x)) ^^^ x
def mul11 (x : UInt8) : UInt8 := xtime (xtime (xtime x) ^^^ x) ^^^ x
def mul13 (x : UInt8) : UInt8 := xtime (xtime (xtime x ^^^ x)) ^^^ x
def mul14 (x : UInt8) : UInt8 := xtime (xtime (xtime x ^^^ x) ^^^ x)

/-- `s[i] ^= rk[i]`. -/
def addKey (s k : Block) : Block := Vector.ofFn fun i => s[i] ^^^ k[i]

/-- `s[i] = AES_SBOX[s[i]]`. -/
def subBytes (s : Block) : Block := s.map sbox
def invSubBytes (s : Block) : Block := s.map rsbox

/-- ShiftRows: the row `r` of the columns moves by `r` columns. -/
def shiftRows (s : Block) : Block :=
  #v[s[0], s[5], s[10], s[15], s[4], s[9], s[14], s[3], s[8], s[13], s[2], s[7], s[12], s[1],
    s[6], s[11]]
def invShiftRows (s : Block) : Block :=
  #v[s[0], s[13], s[10], s[7], s[4], s[1], s[14], s[11], s[8], s[5], s[2], s[15], s[12], s[9],
    s[6], s[3]]

/-- One column of MixColumns. -/
def mixColumn (a0 a1 a2 a3 : UInt8) : UInt8 × UInt8 × UInt8 × UInt8 :=
  (mul2 a0 ^^^ mul3 a1 ^^^ a2 ^^^ a3, a0 ^^^ mul2 a1 ^^^ mul3 a2 ^^^ a3,
    a0 ^^^ a1 ^^^ mul2 a2 ^^^ mul3 a3, mul3 a0 ^^^ a1 ^^^ a2 ^^^ mul2 a3)
def invMixColumn (a0 a1 a2 a3 : UInt8) : UInt8 × UInt8 × UInt8 × UInt8 :=
  (mul14 a0 ^^^ mul11 a1 ^^^ mul13 a2 ^^^ mul9 a3, mul9 a0 ^^^ mul14 a1 ^^^ mul11 a2 ^^^ mul13 a3,
    mul13 a0 ^^^ mul9 a1 ^^^ mul14 a2 ^^^ mul11 a3, mul11 a0 ^^^ mul13 a1 ^^^ mul9 a2 ^^^ mul14 a3)

/-- A function on each column. -/
def onColumns (f : UInt8 → UInt8 → UInt8 → UInt8 → UInt8 × UInt8 × UInt8 × UInt8) (s : Block) :
    Block :=
  let c0 := f s[0] s[1] s[2] s[3]
  let c1 := f s[4] s[5] s[6] s[7]
  let c2 := f s[8] s[9] s[10] s[11]
  let c3 := f s[12] s[13] s[14] s[15]
  #v[c0.1, c0.2.1, c0.2.2.1, c0.2.2.2, c1.1, c1.2.1, c1.2.2.1, c1.2.2.2, c2.1, c2.2.1, c2.2.2.1,
    c2.2.2.2, c3.1, c3.2.1, c3.2.2.1, c3.2.2.2]

def mixColumns : Block → Block := onColumns mixColumn
def invMixColumns : Block → Block := onColumns invMixColumn

/-- The block behind the first rounds of encryption, which mix the columns. -/
def rounds (keys : Nat → Block) (pt : Block) : Nat → Block
  | 0 => addKey pt (keys 0)
  | round + 1 =>
    addKey (mixColumns (shiftRows (subBytes (rounds keys pt round)))) (keys (round + 1))

/-- `aes128_encrypt_block`: ten rounds, the last without mixing. -/
def encryptBlock (key : List UInt8) (pt : Block) : Block :=
  let keys := roundKey (keyExpand key)
  addKey (shiftRows (subBytes (rounds keys pt 9))) (keys 10)

/-- The rounds of decryption from one on. -/
def unrounds (keys : Nat → Block) : Nat → Block → Block
  | 0, s => addKey (invSubBytes (invShiftRows s)) (keys 0)
  | round + 1, s =>
    unrounds keys round
      (invMixColumns (addKey (invSubBytes (invShiftRows s)) (keys (round + 1))))

/-- `aes128_decrypt_block`. -/
def decryptBlock (key : List UInt8) (ct : Block) : Block :=
  let keys := roundKey (keyExpand key)
  unrounds keys 9 (addKey ct (keys 10))

/-! ## The inverse of each step -/

theorem rsbox_sbox (x : UInt8) : rsbox (sbox x) = x := by
  have inverse : sboxTable.map rsbox = (List.range 256).map UInt8.ofNat := by decide +kernel
  have place := congrArg (·[x.toNat]?) inverse
  rw [List.getElem?_map, List.getElem?_map, List.getElem?_range x.toNat_lt, Option.map_some,
    UInt8.ofNat_toNat] at place
  obtain ⟨y, found, value⟩ := Option.map_eq_some_iff.mp place
  rw [sbox, List.getD_eq_getElem?_getD, found, Option.getD_some, value]

/-- `xtime` adds a constant where the top bit is set. -/
theorem xtime_eq : ∀ x, xtime x = (x <<< 1) ^^^ (if x.toBitVec.msb then 0x1b else 0) :=
  Lib.forall_byte _ (by decide +kernel)

theorem xor_left_comm (a b c : UInt8) : a ^^^ (b ^^^ c) = b ^^^ (a ^^^ c) := by
  rw [← UInt8.xor_assoc, UInt8.xor_comm a b, UInt8.xor_assoc]

theorem xor_xor_self (a b : UInt8) : a ^^^ (a ^^^ b) = b := by
  rw [← UInt8.xor_assoc, UInt8.xor_self, UInt8.zero_xor]

/-- `xtime` is linear. -/
theorem xtime_xor (a b : UInt8) : xtime (a ^^^ b) = xtime a ^^^ xtime b := by
  rw [xtime_eq, xtime_eq, xtime_eq, UInt8.shiftLeft_xor, UInt8.toBitVec_xor, BitVec.msb_xor]
  cases a.toBitVec.msb <;> cases b.toBitVec.msb <;>
    simp [UInt8.xor_assoc, UInt8.xor_comm, xor_left_comm]

/-- A function that respects `^^^`. -/
def Linear (f : UInt8 → UInt8) : Prop := ∀ a b, f (a ^^^ b) = f a ^^^ f b

theorem linear_xtime {f : UInt8 → UInt8} (linear : Linear f) : Linear fun x => xtime (f x) := by
  intro a b
  dsimp only
  rw [linear, xtime_xor]

theorem linear_add {f : UInt8 → UInt8} (linear : Linear f) : Linear fun x => f x ^^^ x := by
  intro a b
  dsimp only
  rw [linear]
  ac_rfl

theorem linear_id : Linear fun x => x := fun _ _ => rfl

theorem linear_mul9 : Linear mul9 :=
  linear_add (linear_xtime (linear_xtime (linear_xtime linear_id)))

theorem linear_mul11 : Linear mul11 :=
  linear_add (linear_xtime (linear_add (linear_xtime (linear_xtime linear_id))))

theorem linear_mul13 : Linear mul13 :=
  linear_add (linear_xtime (linear_xtime (linear_add (linear_xtime linear_id))))

theorem linear_mul14 : Linear mul14 :=
  linear_xtime (linear_add (linear_xtime (linear_add (linear_xtime linear_id))))

/-- A row of linear functions on a mixed column, sorted by the bytes of the column. -/
theorem row_mixColumn {f g h k : UInt8 → UInt8} (f_linear : Linear f) (g_linear : Linear g)
    (h_linear : Linear h) (k_linear : Linear k) (a0 a1 a2 a3 : UInt8) :
    f (mixColumn a0 a1 a2 a3).1 ^^^ g (mixColumn a0 a1 a2 a3).2.1 ^^^
        h (mixColumn a0 a1 a2 a3).2.2.1 ^^^ k (mixColumn a0 a1 a2 a3).2.2.2 =
      (f (mul2 a0) ^^^ g a0 ^^^ h a0 ^^^ k (mul3 a0)) ^^^
        (f (mul3 a1) ^^^ g (mul2 a1) ^^^ h a1 ^^^ k a1) ^^^
        (f a2 ^^^ g (mul3 a2) ^^^ h (mul2 a2) ^^^ k a2) ^^^
        (f a3 ^^^ g a3 ^^^ h (mul3 a3) ^^^ k (mul2 a3)) := by
  simp only [mixColumn]
  rw [f_linear, f_linear, f_linear, g_linear, g_linear, g_linear, h_linear, h_linear, h_linear,
    k_linear, k_linear, k_linear]
  ac_rfl

/-- What a row of four functions makes of the four columns of MixColumns. -/
def RowGives (f g h k e0 e1 e2 e3 : UInt8 → UInt8) : Prop := ∀ x,
  (f (mul2 x) ^^^ g x ^^^ h x ^^^ k (mul3 x) = e0 x) ∧
  (f (mul3 x) ^^^ g (mul2 x) ^^^ h x ^^^ k x = e1 x) ∧
  (f x ^^^ g (mul3 x) ^^^ h (mul2 x) ^^^ k x = e2 x) ∧
  (f x ^^^ g x ^^^ h (mul3 x) ^^^ k (mul2 x) = e3 x)

/-- MixColumns is circulant. -/
theorem RowGives.rotate {f g h k e0 e1 e2 e3 : UInt8 → UInt8}
    (gives : RowGives f g h k e0 e1 e2 e3) : RowGives k f g h e3 e0 e1 e2 := by
  intro x
  obtain ⟨first, second, third, fourth⟩ := gives x
  refine ⟨?_, ?_, ?_, ?_⟩
  · rw [← fourth]
    ac_rfl
  · rw [← first]
    ac_rfl
  · rw [← second]
    ac_rfl
  · rw [← third]
    ac_rfl

theorem rowGives : RowGives mul14 mul11 mul13 mul9 (fun x => x) (fun _ => 0) (fun _ => 0)
    fun _ => 0 := by
  intro x
  simp only [mul2, mul3, mul9, mul11, mul13, mul14, xtime_xor]
  refine ⟨?_, ?_, ?_, ?_⟩ <;>
    simp only [UInt8.xor_assoc, UInt8.xor_comm, xor_left_comm, xor_xor_self, UInt8.xor_self,
      UInt8.xor_zero]

theorem invMixColumn_mixColumn (a0 a1 a2 a3 : UInt8) :
    invMixColumn (mixColumn a0 a1 a2 a3).1 (mixColumn a0 a1 a2 a3).2.1
      (mixColumn a0 a1 a2 a3).2.2.1 (mixColumn a0 a1 a2 a3).2.2.2 = (a0, a1, a2, a3) := by
  have first := rowGives
  have second := first.rotate
  have third := second.rotate
  have fourth := third.rotate
  rw [invMixColumn, row_mixColumn linear_mul14 linear_mul11 linear_mul13 linear_mul9,
    row_mixColumn linear_mul9 linear_mul14 linear_mul11 linear_mul13,
    row_mixColumn linear_mul13 linear_mul9 linear_mul14 linear_mul11,
    row_mixColumn linear_mul11 linear_mul13 linear_mul9 linear_mul14,
    (first a0).1, (first a1).2.1, (first a2).2.2.1, (first a3).2.2.2,
    (second a0).1, (second a1).2.1, (second a2).2.2.1, (second a3).2.2.2,
    (third a0).1, (third a1).2.1, (third a2).2.2.1, (third a3).2.2.2,
    (fourth a0).1, (fourth a1).2.1, (fourth a2).2.2.1, (fourth a3).2.2.2]
  simp only [UInt8.xor_zero, UInt8.zero_xor]

/-! ## Rounds -/

theorem addKey_addKey (s k : Block) : addKey (addKey s k) k = s := by
  ext i bound
  simp [addKey, UInt8.xor_assoc]

theorem invSubBytes_subBytes (s : Block) : invSubBytes (subBytes s) = s := by
  ext i bound
  simp [invSubBytes, subBytes, rsbox_sbox]

theorem invShiftRows_shiftRows (s : Block) : invShiftRows (shiftRows s) = s := by
  ext i bound
  interval_cases i <;> rfl

theorem invMixColumns_mixColumns (s : Block) : invMixColumns (mixColumns s) = s := by
  have c0 := invMixColumn_mixColumn s[0] s[1] s[2] s[3]
  have c1 := invMixColumn_mixColumn s[4] s[5] s[6] s[7]
  have c2 := invMixColumn_mixColumn s[8] s[9] s[10] s[11]
  have c3 := invMixColumn_mixColumn s[12] s[13] s[14] s[15]
  simp only [invMixColumns, mixColumns, onColumns, Vector.getElem_mk, List.getElem_toArray,
    List.getElem_cons_zero, List.getElem_cons_succ, c0, c1, c2, c3]
  ext i bound
  interval_cases i <;> rfl

/-- Decryption takes a round back. -/
theorem unrounds_rounds (keys : Nat → Block) (pt : Block) (round : Nat) :
    unrounds keys round (shiftRows (subBytes (rounds keys pt round))) = pt := by
  induction round with
  | zero => rw [unrounds, invShiftRows_shiftRows, invSubBytes_subBytes, rounds, addKey_addKey]
  | succ round ih =>
    rw [unrounds, invShiftRows_shiftRows, invSubBytes_subBytes, rounds, addKey_addKey,
      invMixColumns_mixColumns, ih]

/-- Decryption inverts encryption. -/
theorem decryptBlock_encryptBlock (key : List UInt8) (pt : Block) :
    decryptBlock key (encryptBlock key pt) = pt := by
  simp only [decryptBlock, encryptBlock, addKey_addKey, unrounds_rounds]

end Aes

end DBSos.Crypto
