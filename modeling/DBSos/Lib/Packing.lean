import Mathlib.Tactic.Ring

/-!
# Fields of a number

Masks, shifts and disjunctions of natural numbers as division, remainder and
sum, for numbers that are put together from bytes or share a byte.
-/

namespace DBSos.Lib

/-- A number below a shifted one. -/
theorem or_shiftLeft {low width : Nat} (fits : low < 2 ^ width) (high : Nat) :
    low ||| high <<< width = low + high * 2 ^ width := by
  rw [Nat.or_comm, ← Nat.shiftLeft_add_eq_or_of_lt fits, Nat.shiftLeft_eq]
  ring

theorem and_mask (width : Nat) {mask : Nat} (isMask : mask = 2 ^ width - 1) (x : Nat) :
    x &&& mask = x % 2 ^ width := by
  rw [isMask, Nat.and_two_pow_sub_one_eq_mod]

/-- The bits from `width` on. -/
theorem and_high (size width : Nat) {x mask : Nat} (fits : x < 2 ^ size)
    (isMask : mask = (2 ^ (size - width) - 1) <<< width) :
    x &&& mask = x / 2 ^ width * 2 ^ width := by
  rw [isMask, ← Nat.shiftRight_eq_div_pow, ← Nat.shiftLeft_eq]
  apply Nat.eq_of_testBit_eq
  intro i
  simp only [Nat.testBit_and, Nat.testBit_shiftLeft, Nat.testBit_two_pow_sub_one,
    Nat.testBit_shiftRight]
  by_cases above : width ≤ i
  · have index : width + (i - width) = i := by omega
    rw [index]
    by_cases below : i < size
    · have inMask : i - width < size - width := by omega
      simp [above, inMask]
    · have zero : x.testBit i = false :=
        Nat.testBit_lt_two_pow (fits.trans_le (Nat.pow_le_pow_right (by norm_num) (by omega)))
      simp [zero]
  · simp [above]

/-- Keep the high part and replace the low one. -/
theorem replace_low (size width : Nat) {x v high low : Nat} (fits : x < 2 ^ size)
    (isHigh : high = (2 ^ (size - width) - 1) <<< width) (isLow : low = 2 ^ width - 1) :
    x &&& high ||| v &&& low = x / 2 ^ width * 2 ^ width + v % 2 ^ width := by
  have below : v % 2 ^ width < 2 ^ width := Nat.mod_lt _ (Nat.two_pow_pos _)
  rw [and_high _ _ fits isHigh, and_mask _ isLow, ← Nat.shiftLeft_eq,
    Nat.shiftLeft_add_eq_or_of_lt below]

/-- Keep the low part and replace the one above it. -/
theorem replace_high (width bits : Nat) {x v low mask : Nat} (isLow : low = 2 ^ width - 1)
    (isMask : mask = 2 ^ bits - 1) :
    x &&& low ||| (v &&& mask) <<< width = x % 2 ^ width + v % 2 ^ bits * 2 ^ width := by
  rw [and_mask _ isLow, and_mask _ isMask]
  exact or_shiftLeft (Nat.mod_lt _ (Nat.two_pow_pos _)) _

/-- A fact about a byte is one about its 256 values. -/
theorem forall_byte (p : UInt8 → Prop) (all : ∀ n < 256, p (UInt8.ofNat n)) (x : UInt8) : p x := by
  have value := all x.toNat x.toNat_lt
  rwa [UInt8.ofNat_toNat] at value

end DBSos.Lib
