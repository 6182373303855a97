import Mathlib.Data.Nat.Bitwise
import Mathlib.Algebra.Order.Ring.Nat

/-!
# Byte buffers and bitmaps

A buffer is a function from positions to bytes; which positions exist is the
business of whoever indexes it. Numbers are stored in little-endian order.
-/

namespace DBSos.Lib

abbrev Buffer := Nat → UInt8

namespace Buffer

variable {buf buf' : Buffer} {off len : Nat} {bytes : List UInt8}

def zero : Buffer := fun _ => 0

/-- The bytes from a position on are overwritten. -/
def put (buf : Buffer) (off : Nat) (bytes : List UInt8) : Buffer :=
  fun i => if i < off then buf i else (bytes[i - off]?).getD (buf i)

/-- The `len` bytes from a position on. -/
def slice (buf : Buffer) (off len : Nat) : List UInt8 := (List.range len).map fun i => buf (off + i)

/-- The number in the `len` bytes from a position on. -/
def number (buf : Buffer) : (off len : Nat) → Nat
  | _, 0 => 0
  | off, len + 1 => (buf off).toNat + 256 * number buf (off + 1) len

/-- The `len` low bytes of a number. -/
def digits : (value len : Nat) → List UInt8
  | _, 0 => []
  | value, len + 1 => UInt8.ofNat value :: digits (value / 256) len

@[simp] theorem length_slice (buf : Buffer) (off len : Nat) : (buf.slice off len).length = len := by
  simp [slice]

@[simp] theorem length_digits (value len : Nat) : (digits value len).length = len := by
  induction len generalizing value with
  | zero => rfl
  | succ len ih => rw [digits, List.length_cons, ih]

theorem put_inside (buf : Buffer) (off : Nat) {i : Nat} (inside : i < bytes.length) :
    buf.put off bytes (off + i) = bytes[i] := by
  have notBefore : ¬ off + i < off := by omega
  simp [put, notBefore, inside]

theorem put_outside (buf : Buffer) {i : Nat} (outside : i < off ∨ off + bytes.length ≤ i) :
    buf.put off bytes i = buf i := by
  rcases outside with before | behind
  · simp [put, before]
  · have past : bytes.length ≤ i - off := by omega
    simp [put, List.getElem?_eq_none past]

theorem number_congr {off len : Nat} (same : ∀ i, off ≤ i → i < off + len → buf i = buf' i) :
    buf.number off len = buf'.number off len := by
  induction len generalizing off with
  | zero => rfl
  | succ len ih =>
    rw [number, number, same off le_rfl (by omega),
      ih fun i above below => same i (by omega) (by omega)]

/-- The number that the bytes of a number spell. -/
theorem number_of_digits {off len value : Nat} (small : value < 256 ^ len)
    (spelled : ∀ i < len, buf (off + i) = UInt8.ofNat (value / 256 ^ i)) :
    buf.number off len = value := by
  induction len generalizing off value with
  | zero => exact (Nat.lt_one_iff.mp small).symm
  | succ len ih =>
    have first := spelled 0 (Nat.succ_pos len)
    have rest : buf.number (off + 1) len = value / 256 := by
      refine ih ?_ fun i below => ?_
      · rw [Nat.pow_succ] at small
        omega
      · rw [Nat.div_div_eq_div_mul, ← Nat.pow_succ', ← spelled (i + 1) (by omega)]
        congr 1
        omega
    rw [number, rest, show buf off = UInt8.ofNat value by simpa using first, UInt8.toNat_ofNat']
    omega

theorem number_lt (buf : Buffer) (off len : Nat) : buf.number off len < 256 ^ len := by
  induction len generalizing off with
  | zero => exact Nat.one_pos
  | succ len ih =>
    have byte : (buf off).toNat < 256 := (buf off).toNat_lt
    have rest := ih (off + 1)
    rw [number, Nat.pow_succ]
    omega

end Buffer

end DBSos.Lib

/-!
## Bitmaps in a buffer

A bitmap starts at a byte of a buffer and has eight bits in every byte, the lowest first. Marking
a bit adds exactly that one.
-/

namespace DBSos.Lib.Buffer

variable {buf buf' : Buffer} {off bit other : Nat}

/-- A bit of the bitmap from a position on. -/
def marked (buf : Buffer) (off bit : Nat) : Bool := (buf (off + bit / 8)).toNat.testBit (bit % 8)

/-- The byte of a bit with that bit set. -/
def withBit (byte : UInt8) (bit : Nat) : UInt8 := byte ||| (1 <<< UInt8.ofNat (bit % 8))

/-- The bitmap with one more bit. -/
def mark (buf : Buffer) (off bit : Nat) : Buffer :=
  buf.put (off + bit / 8) [withBit (buf (off + bit / 8)) bit]

theorem toNat_mask (bit : Nat) : (1 <<< UInt8.ofNat (bit % 8) : UInt8).toNat = 2 ^ (bit % 8) := by
  have below : bit % 8 < 8 := Nat.mod_lt _ (by decide)
  generalize bit % 8 = place at below
  revert place
  decide

theorem mask_eq_zero_iff (byte : UInt8) (bit : Nat) :
    byte &&& (1 <<< UInt8.ofNat (bit % 8)) = 0 ↔ byte.toNat.testBit (bit % 8) = false := by
  rw [← UInt8.toNat_inj, UInt8.toNat_and, toNat_mask, Nat.and_two_pow]
  cases byte.toNat.testBit (bit % 8) <;> simp

theorem testBit_withBit (byte : UInt8) (bit place : Nat) :
    (withBit byte bit).toNat.testBit place = (byte.toNat.testBit place || bit % 8 == place) := by
  rw [withBit, UInt8.toNat_or, toNat_mask, Nat.testBit_or, Nat.testBit_two_pow]
  rfl

theorem mark_of_ne {a : Nat} (elsewhere : a ≠ off + bit / 8) : buf.mark off bit a = buf a :=
  put_outside buf (by rw [List.length_singleton]; omega)

theorem mark_self : buf.mark off bit (off + bit / 8) = withBit (buf (off + bit / 8)) bit := by
  rw [mark, put, if_neg (Nat.lt_irrefl _), Nat.sub_self]
  rfl

theorem marked_mark (buf : Buffer) (off bit other : Nat) :
    (buf.mark off bit).marked off other = (buf.marked off other || bit == other) := by
  unfold marked
  by_cases same : other / 8 = bit / 8
  · rw [same, mark_self, testBit_withBit]
    have places : (bit % 8 == other % 8) = (bit == other) := by
      rw [Bool.eq_iff_iff, beq_iff_eq, beq_iff_eq]
      omega
    rw [places]
  · have different : (bit == other) = false := beq_false_of_ne fun equal => same (by rw [equal])
    rw [mark_of_ne (by omega), different, Bool.or_false]

/-- No bit of any bitmap is cleared. -/
theorem marked_mark_of_marked {start : Nat} (marked : buf.marked start other = true) :
    (buf.mark off bit).marked start other = true := by
  unfold Buffer.marked at marked ⊢
  by_cases same : start + other / 8 = off + bit / 8
  · rw [same] at marked ⊢
    rw [mark_self, testBit_withBit, marked, Bool.true_or]
  · rw [mark_of_ne same, marked]

theorem marked_congr {start : Nat} (same : buf (off + bit / 8) = buf' (start + bit / 8)) :
    buf.marked off bit = buf'.marked start bit := by
  rw [marked, marked, same]

end DBSos.Lib.Buffer

/-!
## Numbers one behind the other

A layout is a list of lengths. Packing writes a list of numbers by it, unpacking reads them back
from a position on. The two are inverse where each number fits its length.
-/

namespace DBSos.Lib.Buffer

variable {buf : Buffer} {off len : Nat} {lens values : List Nat}

/-- The bytes of numbers with these lengths. -/
def pack : (lens values : List Nat) → List UInt8
  | len :: lens, value :: values => digits value len ++ pack lens values
  | _, _ => []

/-- The numbers with these lengths from a position on. -/
def unpack (buf : Buffer) : (off : Nat) → (lens : List Nat) → List Nat
  | _, [] => []
  | off, len :: lens => buf.number off len :: unpack buf (off + len) lens

/-- Each number fits its length. -/
def Fit (lens values : List Nat) : Prop :=
  List.Forall₂ (fun len value => value < 256 ^ len) lens values

/-- A number is that of any buffer with the same bytes, also elsewhere. -/
theorem number_shift {buf' : Buffer} {pos : Nat}
    (same : ∀ i, off ≤ i → i < off + len → buf i = buf' (pos + i)) :
    buf.number off len = buf'.number (pos + off) len := by
  induction len generalizing off with
  | zero => rfl
  | succ len ih =>
    rw [number, number, same off le_rfl (by omega),
      ih fun i above below => same i (by omega) (by omega), Nat.add_assoc]

theorem slice_succ (buf : Buffer) (off len : Nat) :
    buf.slice off (len + 1) = buf off :: buf.slice (off + 1) len := by
  unfold slice
  rw [List.range_succ_eq_map, List.map_cons, List.map_map]
  refine congrArg₂ _ rfl (List.map_congr_left fun i _ => ?_)
  exact congrArg buf (by omega)

theorem slice_add (buf : Buffer) (off a b : Nat) :
    buf.slice off (a + b) = buf.slice off a ++ buf.slice (off + a) b := by
  unfold slice
  rw [List.range_add, List.map_append, List.map_map]
  refine congrArg₂ _ rfl (List.map_congr_left fun i _ => ?_)
  exact congrArg buf (Nat.add_assoc off a i).symm

theorem digits_number (buf : Buffer) (off len : Nat) :
    digits (buf.number off len) len = buf.slice off len := by
  induction len generalizing off with
  | zero => rfl
  | succ len ih =>
    have byte : (buf off).toNat < 256 := (buf off).toNat_lt
    have first : UInt8.ofNat ((buf off).toNat + 256 * buf.number (off + 1) len) = buf off := by
      apply UInt8.toNat_inj.mp
      rw [UInt8.toNat_ofNat']
      omega
    have rest : ((buf off).toNat + 256 * buf.number (off + 1) len) / 256 =
        buf.number (off + 1) len := by omega
    rw [number, digits, first, rest, ih, slice_succ]

theorem digits_inj {v w : Nat} (vFits : v < 256 ^ len) (wFits : w < 256 ^ len)
    (same : digits v len = digits w len) : v = w := by
  induction len generalizing v w with
  | zero => omega
  | succ len ih =>
    rw [Nat.pow_succ] at vFits wFits
    obtain ⟨low, high⟩ := List.cons.inj same
    have lowNat := congrArg UInt8.toNat low
    rw [UInt8.toNat_ofNat', UInt8.toNat_ofNat'] at lowNat
    have := ih (by omega) (by omega) high
    omega

theorem pack_unpack (buf : Buffer) (off : Nat) (lens : List Nat) :
    pack lens (buf.unpack off lens) = buf.slice off lens.sum := by
  induction lens generalizing off with
  | nil => rfl
  | cons len lens ih =>
    rw [unpack, pack, digits_number, ih, List.sum_cons, slice_add]

theorem fit_unpack (buf : Buffer) (off : Nat) (lens : List Nat) :
    Fit lens (buf.unpack off lens) := by
  induction lens generalizing off with
  | nil => exact .nil
  | cons len lens ih => exact .cons (number_lt buf off len) (ih _)

theorem length_pack (paired : lens.length = values.length) :
    (pack lens values).length = lens.sum := by
  induction lens generalizing values with
  | nil => rfl
  | cons len lens ih =>
    cases values with
    | nil => exact absurd paired (by simp)
    | cons value values =>
      rw [pack, List.length_append, length_digits, List.sum_cons,
        ih (by simpa using paired)]

/-- What was packed is read back. -/
theorem unpack_pack (fit : Fit lens values) (packed : buf.slice off lens.sum = pack lens values) :
    buf.unpack off lens = values := by
  induction fit generalizing off with
  | nil => rfl
  | @cons len value lens values fits _ ih =>
    rw [List.sum_cons, slice_add, pack] at packed
    obtain ⟨first, rest⟩ := List.append_inj packed (by rw [length_slice, length_digits])
    rw [← digits_number] at first
    rw [unpack, digits_inj (number_lt buf off len) fits first, ih rest]

end DBSos.Lib.Buffer
