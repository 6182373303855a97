import Mathlib.Algebra.Order.Ring.Nat

/-!
# End-around carries

Addition in one's complement: what is carried out of the top of a word comes in again at its
bottom. Words are the numbers up to `m`, which stands for zero as 0 does. A sum can be taken
word by word, or with the carries left over to the end.
-/

namespace DBSos.Lib.EndAround

variable {m : Nat}

/-- One's complement addition of two words. -/
def add (m a b : Nat) : Nat := if a + b ≤ m then a + b else a + b - m

/-- The one's complement sum of words. -/
def sum (m : Nat) (words : List Nat) : Nat := words.foldl (add m) 0

/-- The word that a number comes to. Only 0 comes to 0. -/
def residue (m n : Nat) : Nat := if n = 0 then 0 else (n - 1) % m + 1

/-- One round of adding the carries. -/
def fold (m n : Nat) : Nat := n % (m + 1) + n / (m + 1)

theorem residue_of_le {n : Nat} (small : n ≤ m) : residue m n = n := by
  unfold residue
  split_ifs with zero
  · exact zero.symm
  · rw [Nat.mod_eq_of_lt (by omega)]
    omega

theorem residue_le {n : Nat} (positive : 0 < m) : residue m n ≤ m := by
  unfold residue
  split_ifs
  · omega
  · exact Nat.mod_lt _ positive

/-- What is left out are multiples of `m`. -/
theorem residue_add_mul {n : Nat} (nonzero : n ≠ 0) (k : Nat) :
    residue m (n + m * k) = residue m n := by
  have shifted : n + m * k - 1 = n - 1 + m * k := by omega
  rw [residue, residue, if_neg nonzero, if_neg (by omega), shifted, Nat.add_mul_mod_self_left]

theorem eq_residue_add (m n : Nat) : ∃ k, n = residue m n + m * k := by
  unfold residue
  split_ifs with zero
  · exact ⟨0, by rw [zero, Nat.mul_zero]⟩
  · refine ⟨(n - 1) / m, ?_⟩
    have parts := Nat.mod_add_div (n - 1) m
    omega

theorem residue_eq_zero_iff {n : Nat} : residue m n = 0 ↔ n = 0 := by
  unfold residue
  by_cases zero : n = 0
  · rw [if_pos zero]
    exact iff_of_true rfl zero
  · rw [if_neg zero]
    exact iff_of_false (Nat.succ_ne_zero _) zero

/-- A number is the sum of two exactly if it comes to the same word. -/
theorem residue_congr {a b k l : Nat} (zero : a = 0 ↔ b = 0) (same : a + m * k = b + m * l) :
    residue m a = residue m b := by
  by_cases nonzero : a = 0
  · rw [nonzero, zero.mp nonzero]
  · rw [← residue_add_mul nonzero k, ← residue_add_mul (fun none => nonzero (zero.mpr none)) l, same]

theorem residue_fold (n : Nat) : residue m (fold m n) = residue m n := by
  have parts := Nat.mod_add_div n (m + 1)
  rw [Nat.add_mul, Nat.one_mul] at parts
  refine residue_congr (k := n / (m + 1)) (l := 0) ?_ (by unfold fold; omega)
  unfold fold
  constructor
  · intro none
    obtain ⟨low, high⟩ := Nat.add_eq_zero_iff.mp none
    rw [low, high] at parts
    simpa using parts.symm
  · rintro rfl
    simp

theorem add_residue (positive : 0 < m) (a b : Nat) :
    add m (residue m a) (residue m b) = residue m (a + b) := by
  have leftLe := residue_le (n := a) positive
  have rightLe := residue_le (n := b) positive
  have leftZero := residue_eq_zero_iff (m := m) (n := a)
  have rightZero := residue_eq_zero_iff (m := m) (n := b)
  obtain ⟨k, left⟩ := eq_residue_add m a
  obtain ⟨l, right⟩ := eq_residue_add m b
  have whole : a + b + m * 0 = residue m a + residue m b + m * (k + l) := by
    rw [Nat.mul_add]
    omega
  unfold add
  split_ifs with fits
  · rw [← residue_of_le fits]
    exact residue_congr (by omega) whole.symm
  · rw [← residue_of_le (show residue m a + residue m b - m ≤ m by omega)]
    refine residue_congr (k := k + l + 1) (l := 0) (by omega) ?_
    rw [Nat.mul_add m (k + l) 1]
    omega

/-- Adding word by word comes to the same as adding the carries at the end. -/
theorem sum_eq (positive : 0 < m) {words : List Nat} (small : ∀ word ∈ words, word ≤ m) :
    sum m words = residue m words.sum := by
  have general (words : List Nat) (small : ∀ word ∈ words, word ≤ m) (start : Nat) :
      words.foldl (add m) (residue m start) = residue m (start + words.sum) := by
    induction words generalizing start with
    | nil => rfl
    | cons word rest ih =>
      have first := residue_of_le (small word List.mem_cons_self)
      rw [List.foldl_cons, List.sum_cons, ← Nat.add_assoc,
        ← ih fun other member => small other (List.mem_cons_of_mem _ member),
        ← add_residue positive, first]
  have whole := general words small 0
  rwa [residue_of_le (Nat.zero_le m), Nat.zero_add] at whole

/-- A sum and its complement come to all ones. -/
theorem residue_add_complement (positive : 0 < m) (n : Nat) :
    residue m (n + (m - residue m n)) = m := by
  have le := residue_le (n := n) positive
  have zero := residue_eq_zero_iff (m := m) (n := n)
  obtain ⟨k, parts⟩ := eq_residue_add m n
  have whole : n + (m - residue m n) + m * 0 = m + m * k := by omega
  rw [residue_congr (by omega) whole, residue_of_le le_rfl]

end DBSos.Lib.EndAround
