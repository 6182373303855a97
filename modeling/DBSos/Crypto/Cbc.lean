import DBSos.Crypto.Aes
import Mathlib.Data.Finite.Vector
import Mathlib.Data.List.GetD

/-!
# CBC with padding

`aes_cbc_encrypt` and `aes_cbc_decrypt`. The output buffer is the list of bytes written to
it, and its length an argument.
-/

namespace DBSos.Crypto

open Aes

/-- The first 16 bytes of a list. -/
def block (data : List UInt8) : Block := Vector.ofFn fun i => data.getD i 0

/-- Blocks are chained: each plaintext is added to the ciphertext before it. -/
def encryptBlocks (key : List UInt8) : Nat → Block → List UInt8 → List UInt8
  | 0, _, _ => []
  | n + 1, prev, data =>
    let ct := encryptBlock key (addKey (block data) prev)
    ct.toList ++ encryptBlocks key n ct (data.drop 16)

def decryptBlocks (key : List UInt8) : Nat → Block → List UInt8 → List UInt8
  | 0, _, _ => []
  | n + 1, prev, data =>
    (addKey (decryptBlock key (block data)) prev).toList ++
      decryptBlocks key n (block data) (data.drop 16)

/-- The padding of a message. -/
def padding (len : Nat) : Nat := 16 - len % 16

/-- A message and its padding: as many bytes of the value of their number. -/
def padded (data : List UInt8) : List UInt8 :=
  data ++ List.replicate (padding data.length) (UInt8.ofNat (padding data.length))

/-- `aes_cbc_encrypt`. -/
def aesCbcEncrypt (key : List UInt8) (iv : Block) (data : List UInt8) (outLen : Nat) :
    Option (List UInt8) :=
  let total := data.length + padding data.length
  if outLen < total ∨ total = 0 then none
  else some (encryptBlocks key (total / 16) iv (padded data))

/-- The padding is taken off; every byte of it has the value of their number. -/
def unpad (out : List UInt8) : Option (List UInt8) :=
  let pad := (out.getLastD 0).toNat
  if pad = 0 ∨ 16 < pad then none
  else if (out.drop (out.length - pad)).all fun byte => byte.toNat = pad then
    some (out.take (out.length - pad))
  else none

/-- `aes_cbc_decrypt`. -/
def aesCbcDecrypt (key : List UInt8) (iv : Block) (data : List UInt8) (outLen : Nat) :
    Option (List UInt8) :=
  if data = [] ∨ data.length % 16 ≠ 0 ∨ outLen + 16 < data.length then none
  else if outLen < data.length then none
  else unpad (decryptBlocks key (data.length / 16) iv data)

/-! ## Round trip -/

theorem block_toList_append (b : Block) (rest : List UInt8) : block (b.toList ++ rest) = b := by
  refine Vector.ext fun i bound => ?_
  have inside : i < b.toList.length := by simpa using bound
  simp only [block, Vector.getElem_ofFn]
  rw [List.getD_append _ _ _ _ inside, List.getD_eq_getElem _ _ inside, Vector.getElem_toList]

theorem toList_block {data : List UInt8} (enough : 16 ≤ data.length) :
    (block data).toList = data.take 16 := by
  refine List.ext_getElem (by simp [enough]) fun i first second => ?_
  have bound : i < data.length := by
    rw [List.length_take] at second
    omega
  simp only [block, Vector.getElem_toList, Vector.getElem_ofFn, List.getElem_take]
  rw [List.getD_eq_getElem _ _ bound]

@[simp] theorem length_encryptBlocks (key : List UInt8) (n : Nat) (prev : Block)
    (data : List UInt8) : (encryptBlocks key n prev data).length = 16 * n := by
  induction n generalizing prev data with
  | zero => rfl
  | succ n ih =>
    rw [encryptBlocks, List.length_append, ih, Vector.length_toList]
    omega

theorem decryptBlocks_encryptBlocks (key : List UInt8) (n : Nat) (prev : Block)
    {data : List UInt8} (whole : data.length = 16 * n) :
    decryptBlocks key n prev (encryptBlocks key n prev data) = data := by
  induction n generalizing prev data with
  | zero => exact (List.length_eq_zero_iff.mp whole).symm
  | succ n ih =>
    have rest : (data.drop 16).length = 16 * n := by
      rw [List.length_drop]
      omega
    rw [encryptBlocks, decryptBlocks, block_toList_append, decryptBlock_encryptBlock,
      addKey_addKey, toList_block (by omega),
      List.drop_left' (Vector.length_toList), ih _ rest,
      List.take_append_drop]

theorem padding_bounds (len : Nat) : 0 < padding len ∧ padding len ≤ 16 := by
  unfold padding
  omega

theorem length_padded (data : List UInt8) :
    (padded data).length = data.length + padding data.length := by
  simp [padded]

theorem padded_whole (data : List UInt8) : (padded data).length % 16 = 0 := by
  rw [length_padded, padding]
  omega

theorem unpad_padded (data : List UInt8) : unpad (padded data) = some data := by
  obtain ⟨positive, small⟩ := padding_bounds data.length
  have value : (UInt8.ofNat (padding data.length)).toNat = padding data.length := by
    rw [UInt8.toNat_ofNat']
    omega
  have last : (padded data).getLastD 0 = UInt8.ofNat (padding data.length) := by
    rw [padded, List.getLastD_eq_getLast?, List.getLast?_append, List.getLast?_replicate,
      if_neg (by omega)]
    rfl
  have behind : (padded data).length - padding data.length = data.length := by
    rw [length_padded]
    omega
  unfold unpad
  dsimp only
  rw [last, value, behind, if_neg (by omega), padded, List.drop_left, List.take_left, if_pos]
  simp [value]

/-- What is returned fills whole blocks, of which the padding is a byte at least. -/
theorem length_aesCbcEncrypt {key : List UInt8} {iv : Block} {data ct : List UInt8} {outLen : Nat}
    (encrypted : aesCbcEncrypt key iv data outLen = some ct) :
    ct.length = data.length + padding data.length ∧ ct.length ≤ outLen := by
  unfold aesCbcEncrypt at encrypted
  dsimp only at encrypted
  split_ifs at encrypted with refused
  obtain rfl := Option.some.inj encrypted
  have whole := padded_whole data
  rw [length_padded] at whole
  rw [length_encryptBlocks]
  omega

/-- Decryption inverts encryption, into any buffer that the ciphertext fits in. -/
theorem aesCbcDecrypt_encrypt {key : List UInt8} {iv : Block} {data ct : List UInt8}
    {outLen room : Nat} (encrypted : aesCbcEncrypt key iv data outLen = some ct)
    (fits : ct.length ≤ room) : aesCbcDecrypt key iv ct room = some data := by
  unfold aesCbcEncrypt at encrypted
  dsimp only at encrypted
  split_ifs at encrypted with refused
  obtain rfl := Option.some.inj encrypted
  rw [length_encryptBlocks] at fits
  have bounds := padding_bounds data.length
  have whole := padded_whole data
  rw [length_padded] at whole
  have length : 16 * ((data.length + padding data.length) / 16) =
      data.length + padding data.length := by omega
  have some :
      encryptBlocks key ((data.length + padding data.length) / 16) iv (padded data) ≠ [] := by
    rw [← List.length_pos_iff, length_encryptBlocks]
    omega
  unfold aesCbcDecrypt
  rw [length_encryptBlocks, length, if_neg, if_neg (by omega),
    decryptBlocks_encryptBlocks _ _ _ (by rw [length_padded, length]), unpad_padded]
  simp only [some, false_or, not_or]
  omega

/-- `aes_cbc_encrypt` succeeds in every buffer that has room for the next multiple of 16 above the
length of the data, and `aes_cbc_decrypt` gives back the data. -/
theorem cbc_roundTrips (key data : List UInt8) (iv : Block) (outLen room : Nat)
    (enough : (data.length / 16 + 1) * 16 ≤ outLen)
    (enough' : (data.length / 16 + 1) * 16 ≤ room) :
    (∃ ct, aesCbcEncrypt key iv data outLen = some ct ∧
      ct.length = (data.length / 16 + 1) * 16 ∧ aesCbcDecrypt key iv ct room = some data) ∧
    ∀ pt, decryptBlock key (encryptBlock key pt) = pt := by
  refine ⟨?_, decryptBlock_encryptBlock key⟩
  have total : data.length + padding data.length = (data.length / 16 + 1) * 16 := by
    rw [padding]
    omega
  have encrypted : aesCbcEncrypt key iv data outLen =
      some (encryptBlocks key ((data.length + padding data.length) / 16) iv (padded data)) := by
    unfold aesCbcEncrypt
    dsimp only
    rw [if_neg (by omega)]
  have length := (length_aesCbcEncrypt encrypted).1
  exact ⟨_, encrypted, length.trans total,
    aesCbcDecrypt_encrypt encrypted (by rw [length, total]; exact enough')⟩

/-- Sixteen bytes take two blocks. -/
theorem cbc_roundTrips_whole :
    (∃ ct, aesCbcEncrypt (List.replicate 16 0x2b) (Vector.replicate 16 0x0f)
        (List.replicate 16 0x41) 32 = some ct ∧ ct.length = 32 ∧
      aesCbcDecrypt (List.replicate 16 0x2b) (Vector.replicate 16 0x0f) ct 48 =
        some (List.replicate 16 0x41)) ∧
    ∀ pt, decryptBlock (List.replicate 16 0x2b) (encryptBlock (List.replicate 16 0x2b) pt) = pt :=
  cbc_roundTrips (List.replicate 16 0x2b) (List.replicate 16 0x41) (Vector.replicate 16 0x0f) 32 48
    (by decide) (by decide)

/-! ## What decryption accepts -/

/-- Every block is the encryption of a block: the cipher is one to one on finitely many. -/
theorem encryptBlock_decryptBlock (key : List UInt8) (ct : Block) :
    encryptBlock key (decryptBlock key ct) = ct := by
  have : Finite Block := .of_injective (fun b (i : Fin 16) => b[i].toFin) fun b b' same =>
    Vector.ext fun i bound => UInt8.toFin_inj.mp (congrFun same ⟨i, bound⟩)
  obtain ⟨pt, rfl⟩ := Finite.surjective_of_injective
    (Function.LeftInverse.injective (decryptBlock_encryptBlock key)) ct
  rw [decryptBlock_encryptBlock]

theorem encryptBlocks_decryptBlocks (key : List UInt8) (n : Nat) (prev : Block) {ct : List UInt8}
    (whole : ct.length = 16 * n) : encryptBlocks key n prev (decryptBlocks key n prev ct) = ct := by
  induction n generalizing prev ct with
  | zero => exact (List.length_eq_zero_iff.mp whole).symm
  | succ n ih =>
    have rest : (ct.drop 16).length = 16 * n := by
      rw [List.length_drop]
      omega
    rw [decryptBlocks, encryptBlocks, block_toList_append, addKey_addKey,
      encryptBlock_decryptBlock, List.drop_left' (Vector.length_toList), toList_block (by omega),
      ih _ rest, List.take_append_drop]

@[simp] theorem length_decryptBlocks (key : List UInt8) (n : Nat) (prev : Block)
    (ct : List UInt8) : (decryptBlocks key n prev ct).length = 16 * n := by
  induction n generalizing prev ct with
  | zero => rfl
  | succ n ih =>
    rw [decryptBlocks, List.length_append, ih, Vector.length_toList]
    omega

/-- Only padded messages lose their padding. -/
theorem padded_of_unpad {out data : List UInt8} (whole : out.length % 16 = 0)
    (taken : unpad out = some data) : padded data = out := by
  unfold unpad at taken
  dsimp only at taken
  split_ifs at taken with bounds same
  obtain rfl := Option.some.inj taken
  generalize pads : (out.getLastD 0).toNat = pad at *
  have some : out ≠ [] := by
    rintro rfl
    exact bounds (.inl pads.symm)
  have positive := List.length_pos_iff.mpr some
  have count : padding (out.take (out.length - pad)).length = pad := by
    rw [List.length_take, padding]
    omega
  have tail : out.drop (out.length - pad) = List.replicate pad (UInt8.ofNat pad) := by
    refine List.eq_replicate_iff.mpr ⟨by rw [List.length_drop]; omega, fun byte member => ?_⟩
    rw [← of_decide_eq_true (List.all_eq_true.mp same byte member), UInt8.ofNat_toNat]
  rw [padded, count, ← tail, List.take_append_drop]

/-- Decryption accepts exactly what encryption makes. -/
theorem aesCbcDecrypt_iff (key : List UInt8) (iv : Block) (data ct : List UInt8) (room : Nat) :
    aesCbcDecrypt key iv ct room = some data ↔
      ct.length ≤ room ∧ aesCbcEncrypt key iv data ct.length = some ct := by
  constructor
  · intro decrypted
    unfold aesCbcDecrypt at decrypted
    split_ifs at decrypted with refused small
    have whole : (decryptBlocks key (ct.length / 16) iv ct).length % 16 = 0 := by
      rw [length_decryptBlocks]
      omega
    have back := padded_of_unpad whole decrypted
    have length := congrArg List.length back
    rw [length_padded, length_decryptBlocks] at length
    have blocks : 16 * (ct.length / 16) = ct.length := by omega
    have some := List.length_pos_iff.mpr fun empty => refused (.inl empty)
    refine ⟨by omega, ?_⟩
    unfold aesCbcEncrypt
    dsimp only
    rw [length, if_neg (by omega), back, Nat.mul_div_cancel_left _ (by decide),
      encryptBlocks_decryptBlocks _ _ _ blocks.symm]
  · rintro ⟨fits, encrypted⟩
    exact aesCbcDecrypt_encrypt encrypted fits

end DBSos.Crypto
