import Mathlib.Data.List.Range

/-!
# A file as the writes since it was last empty

A list of writes, the latest first, determines an array: as long as the writes reach, with
the last item written at each position, and a default where nothing was written.
-/

namespace DBSos.Lib

variable {α : Type} {log : List (Nat × List α)} {offset p : Nat} {items : List α}

/-- The item that the last write over a position has put there. -/
def lastAt : List (Nat × List α) → Nat → Option α
  | [], _ => none
  | (offset, items) :: earlier, p =>
    if offset ≤ p ∧ p < offset + items.length then items[p - offset]? else lastAt earlier p

/-- How far the writes reach; one without items reaches nowhere. -/
def extent : List (Nat × List α) → Nat
  | [] => 0
  | (offset, items) :: earlier =>
    if items = [] then extent earlier else max (extent earlier) (offset + items.length)

/-- The array that the writes make. -/
def arrayOf (default : α) (log : List (Nat × List α)) : List α :=
  (List.range (extent log)).map fun p => (lastAt log p).getD default

/-- Nothing is written behind the end. -/
theorem lastAt_eq_none (behind : extent log ≤ p) : lastAt log p = none := by
  induction log with
  | nil => rfl
  | cons write earlier ih =>
    obtain ⟨offset, items⟩ := write
    rw [extent] at behind
    rw [lastAt]
    split_ifs at behind with empty
    · rw [if_neg (by simp only [empty, List.length_nil]; omega)]
      exact ih behind
    · rw [if_neg (by omega)]
      exact ih (by omega)

/-- Two arrays over the positions below their sizes agree when the sizes and the items do. -/
theorem map_range_eq_iff {f g : Nat → α} {m n : Nat} :
    (List.range m).map f = (List.range n).map g ↔ m = n ∧ ∀ p < m, f p = g p := by
  constructor
  · intro same
    have length : m = n := by simpa using congrArg List.length same
    subst length
    refine ⟨rfl, fun p below => ?_⟩
    simpa [below] using congrArg (·[p]?) same
  · rintro ⟨rfl, same⟩
    exact List.map_congr_left fun p member => same p (List.mem_range.mp member)

/-- A buffer with a size that a write extends, against the array of the writes: they agree
again exactly when the write starts inside the array, or stores something and the buffer
holds the default in the gap in front of it. -/
theorem write_agrees_iff (default : α) {data data' : Nat → α} {size : Nat}
    (agrees : (List.range size).map data = arrayOf default log)
    (stored : ∀ i, (inside : i < items.length) → data' (offset + i) = items[i])
    (kept : ∀ p, p < offset ∨ offset + items.length ≤ p → data' p = data p) :
    (List.range (max size (offset + items.length))).map data' =
        arrayOf default ((offset, items) :: log) ↔
      offset ≤ size ∨ items ≠ [] ∧ ∀ p, size ≤ p → p < offset → data p = default := by
  obtain ⟨sizes, old⟩ := map_range_eq_iff.mp agrees
  have positive : items ≠ [] ↔ 0 < items.length := List.length_pos_iff.symm
  rw [arrayOf, map_range_eq_iff]
  -- behind the old end the new write is all there is
  have written : ∀ p, (p < size ∨ offset ≤ p) → p < max size (offset + items.length) →
      data' p = (lastAt ((offset, items) :: log) p).getD default := by
    intro p old_or_new below
    rw [lastAt]
    split_ifs with inside
    · obtain ⟨i, rfl⟩ := Nat.exists_eq_add_of_le inside.1
      have bound : i < items.length := by omega
      rw [Nat.add_sub_cancel_left, List.getElem?_eq_getElem bound, stored i bound]
      rfl
    · rw [kept p (by omega), old p (by omega)]
  by_cases within : offset ≤ size
  · refine iff_of_true ⟨?_, fun p below => written p (by omega) below⟩ (.inl within)
    rw [extent]
    split_ifs with empty
    · rw [empty, List.length_nil]
      omega
    · omega
  · rw [or_iff_right within]
    refine and_congr ?_ ?_
    · rw [extent]
      split_ifs with empty
      · simp only [empty, ne_eq, not_true_eq_false, iff_false, List.length_nil]
        omega
      · exact iff_of_true (by omega) empty
    · constructor
      · intro same p above below
        have here := same p (by omega)
        rw [kept p (.inl below), lastAt, if_neg (by omega),
          lastAt_eq_none (sizes ▸ above), Option.getD_none] at here
        exact here
      · intro gap p below
        by_cases inGap : size ≤ p ∧ p < offset
        · rw [kept p (.inl inGap.2), lastAt, if_neg (by omega),
            lastAt_eq_none (sizes ▸ inGap.1), Option.getD_none]
          exact gap p inGap.1 inGap.2
        · exact written p (by omega) below

end DBSos.Lib
