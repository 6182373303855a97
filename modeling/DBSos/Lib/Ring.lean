import Mathlib.Data.Nat.ModEq

/-!
# Ring buffers

A ring keeps its items from a head on, as many as its length says, and goes on at the start behind
its last place. Seen from outside it is a list: `push` appends what there is room for, `pop` takes
items off the front (`contents_push`, `contents_pop`), wherever the head is.
-/

namespace DBSos.Lib

universe u

/-- A buffer of `capacity` places, `len` of them in use from `head` on. -/
structure Ring (α : Type u) (capacity : Nat) where
  buf : Nat → α
  head : Nat
  len : Nat
  head_lt : head < capacity
  len_le : len ≤ capacity

namespace Ring

variable {α : Type u} {capacity : Nat}

/-- The items are written one after the other, from a position on. -/
def store (capacity : Nat) : List α → Nat → (Nat → α) → Nat → α
  | [], _, buf => buf
  | x :: rest, pos, buf => store capacity rest (pos + 1) (Function.update buf (pos % capacity) x)

/-- As many items as there is room for are appended. -/
def push (r : Ring α capacity) (data : List α) : Nat × Ring α capacity :=
  let n := min data.length (capacity - r.len)
  (n, { r with
    buf := store capacity (data.take n) (r.head + r.len) r.buf
    len := r.len + n
    len_le := by
      have := r.len_le
      omega })

/-- The first items, at most `room` of them, are taken off. -/
def pop (r : Ring α capacity) (room : Nat) : List α × Ring α capacity :=
  let n := min room r.len
  ((List.range n).map fun i => r.buf ((r.head + i) % capacity),
    { r with
      head := (r.head + n) % capacity
      len := r.len - n
      head_lt := Nat.mod_lt _ (Nat.zero_lt_of_lt r.head_lt)
      len_le := (Nat.sub_le _ _).trans r.len_le })

/-- The items in order. -/
def contents (r : Ring α capacity) : List α :=
  (List.range r.len).map fun i => r.buf ((r.head + i) % capacity)

@[simp] theorem length_contents (r : Ring α capacity) : r.contents.length = r.len := by
  rw [contents, List.length_map, List.length_range]

/-- Places less than a round apart are different. -/
theorem eq_of_mod_eq {start i j : Nat} (below : i < capacity) (below' : j < capacity)
    (same : (start + i) % capacity = (start + j) % capacity) : i = j :=
  Nat.ModEq.eq_of_lt_of_lt (Nat.ModEq.add_left_cancel' start same) below below'

theorem store_outside {data : List α} {pos place : Nat} {buf : Nat → α}
    (outside : ∀ i < data.length, place ≠ (pos + i) % capacity) :
    store capacity data pos buf place = buf place := by
  induction data generalizing pos buf with
  | nil => rfl
  | cons x rest ih =>
    have here : place ≠ pos % capacity := outside 0 (Nat.succ_pos _)
    rw [store, ih, Function.update_of_ne here]
    intro i inside
    have later := outside (i + 1) (Nat.succ_lt_succ inside)
    rwa [← Nat.add_assoc, Nat.add_right_comm] at later

/-- The item at a position of the data, unless the data goes round. -/
theorem store_inside {data : List α} {pos i : Nat} {buf : Nat → α}
    (fits : data.length ≤ capacity) (inside : i < data.length) :
    store capacity data pos buf ((pos + i) % capacity) = data[i] := by
  induction data generalizing pos buf i with
  | nil => cases inside
  | cons x rest ih =>
    rw [List.length_cons] at fits inside
    cases i with
    | zero =>
      rw [store, store_outside, Nat.add_zero, Function.update_self]
      · rfl
      · intro k below same
        rw [Nat.add_assoc] at same
        have apart := eq_of_mod_eq (by omega) (by omega) same
        omega
    | succ i =>
      have place : pos + (i + 1) = pos + 1 + i := by omega
      rw [store, place, ih (by omega) (Nat.lt_of_succ_lt_succ inside)]
      rfl

theorem push_fst (r : Ring α capacity) (data : List α) :
    (r.push data).1 = min data.length (capacity - r.len) := rfl

/-- What is accepted stands behind what was there. -/
theorem contents_push (r : Ring α capacity) (data : List α) :
    (r.push data).2.contents = r.contents ++ data.take (r.push data).1 := by
  have bound := r.len_le
  rw [push_fst]
  apply List.ext_getElem
  · simp only [length_contents, List.length_append, List.length_take]
    change r.len + _ = _
    omega
  · intro i first second
    rw [length_contents] at first
    change i < r.len + min data.length (capacity - r.len) at first
    have place : (r.push data).2.contents[i] = store capacity
        (data.take (min data.length (capacity - r.len))) (r.head + r.len) r.buf
        ((r.head + i) % capacity) := by
      simp only [contents, List.getElem_map, List.getElem_range]
      rfl
    rw [place]
    by_cases old : i < r.len
    · rw [List.getElem_append_left (by rwa [length_contents]), store_outside]
      · simp only [contents, List.getElem_map, List.getElem_range]
      · intro k below same
        rw [List.length_take] at below
        rw [Nat.add_assoc] at same
        have apart := eq_of_mod_eq (by omega) (by omega) same
        omega
    · obtain ⟨k, rfl⟩ := Nat.exists_eq_add_of_le (Nat.le_of_not_lt old)
      rw [← Nat.add_assoc, store_inside (by rw [List.length_take]; omega)
          (by rw [List.length_take]; omega),
        List.getElem_append_right (by rw [length_contents]; omega)]
      simp only [length_contents, Nat.add_sub_cancel_left]

theorem pop_fst (r : Ring α capacity) (room : Nat) :
    (r.pop room).1 = r.contents.take room := by
  rw [contents, ← List.map_take, List.take_range]
  rfl

/-- What is taken off stood in front. -/
theorem contents_pop (r : Ring α capacity) (room : Nat) :
    r.contents = (r.pop room).1 ++ (r.pop room).2.contents := by
  apply List.ext_getElem
  · simp only [length_contents, List.length_append, pop_fst, List.length_take]
    change _ = _ + (r.len - _)
    omega
  · intro i first second
    rw [length_contents] at first
    by_cases taken : i < min room r.len
    · rw [List.getElem_append_left (by rw [pop_fst, List.length_take, length_contents]; exact taken)]
      simp only [pop_fst, List.getElem_take]
    · have behind : (r.pop room).1.length ≤ i := by
        rw [pop_fst, List.length_take, length_contents]
        exact Nat.le_of_not_lt taken
      rw [List.getElem_append_right behind]
      simp only [contents, List.getElem_map, List.getElem_range, pop_fst, List.length_take,
        List.length_range, List.length_map]
      change _ = r.buf (((r.head + min room r.len) % capacity + _) % capacity)
      rw [Nat.mod_add_mod, Nat.add_assoc, Nat.add_sub_cancel' (Nat.le_of_not_lt taken)]

end Ring

end DBSos.Lib

/-!
## Rings between two indices

Here a ring is kept by the index that is read next and the one that is written next. They are the
same when the ring is empty, and so one place always stays free: an item that would take it is
dropped. Such a ring is one of `Lib.Ring` with the length between the indices (`toRing`), and its
`push` and `pop` are those of one item.
-/

namespace DBSos.Lib

universe u

structure IndexRing (α : Type u) (capacity : Nat) where
  buf : Nat → α
  read : Nat
  write : Nat
  read_lt : read < capacity
  write_lt : write < capacity

namespace IndexRing

variable {α : Type u} {capacity : Nat}

/-- An item is written, unless the ring would then look empty. -/
def push (r : IndexRing α capacity) (x : α) : IndexRing α capacity :=
  if (r.write + 1) % capacity = r.read then r
  else { r with
    buf := Function.update r.buf r.write x
    write := (r.write + 1) % capacity
    write_lt := Nat.mod_lt _ (Nat.zero_lt_of_lt r.write_lt) }

/-- The item in front is taken off. -/
def pop (r : IndexRing α capacity) : Option (α × IndexRing α capacity) :=
  if r.read = r.write then none
  else some (r.buf r.read, { r with
    read := (r.read + 1) % capacity
    read_lt := Nat.mod_lt _ (Nat.zero_lt_of_lt r.read_lt) })

/-- The places from the one index to the other. -/
def between (capacity read write : Nat) : Nat :=
  if read ≤ write then write - read else capacity - read + write

def len (r : IndexRing α capacity) : Nat := between capacity r.read r.write

/-- An item more leaves one place free. -/
def HasRoom (r : IndexRing α capacity) : Prop := r.len + 1 < capacity

instance (r : IndexRing α capacity) : Decidable r.HasRoom := inferInstanceAs (Decidable (_ < _))

theorem len_lt (r : IndexRing α capacity) : r.len < capacity := by
  have readLt := r.read_lt
  have writeLt := r.write_lt
  unfold len between
  split_ifs <;> omega

def toRing (r : IndexRing α capacity) : Ring α capacity where
  buf := r.buf
  head := r.read
  len := r.len
  head_lt := r.read_lt
  len_le := r.len_lt.le

/-- The items in order. -/
def contents (r : IndexRing α capacity) : List α := r.toRing.contents

/-- The next index, which goes back to the start behind the last place. -/
theorem next_eq {index : Nat} (inside : index < capacity) :
    (index + 1) % capacity = if index + 1 = capacity then 0 else index + 1 := by
  split_ifs with last
  · rw [last, Nat.mod_self]
  · exact Nat.mod_eq_of_lt (by omega)

theorem next_eq_read_iff (r : IndexRing α capacity) :
    (r.write + 1) % capacity = r.read ↔ ¬ r.HasRoom := by
  have readLt := r.read_lt
  have writeLt := r.write_lt
  rw [next_eq writeLt, HasRoom, len, between]
  split_ifs <;> omega

/-- The place behind the items is the one that is written. -/
theorem read_add_len (r : IndexRing α capacity) : (r.read + r.len) % capacity = r.write := by
  have readLt := r.read_lt
  have writeLt := r.write_lt
  unfold len between
  split_ifs with before
  · rw [Nat.add_sub_cancel' before, Nat.mod_eq_of_lt writeLt]
  · have around : r.read + (capacity - r.read + r.write) = r.write + capacity := by omega
    rw [around, Nat.add_mod_right, Nat.mod_eq_of_lt writeLt]

theorem push_of_not_hasRoom {r : IndexRing α capacity} (full : ¬ r.HasRoom) (x : α) :
    r.push x = r :=
  if_pos (r.next_eq_read_iff.mpr full)

theorem toRing_push {r : IndexRing α capacity} (room : r.HasRoom) (x : α) :
    (r.push x).toRing = (r.toRing.push [x]).2 := by
  have apart : (r.write + 1) % capacity ≠ r.read := fun same => r.next_eq_read_iff.mp same room
  have readLt := r.read_lt
  have writeLt := r.write_lt
  have one : min 1 (capacity - r.len) = 1 := by
    unfold HasRoom at room
    omega
  have longer : (r.push x).len = r.len + 1 := by
    rw [push, if_neg apart]
    change between capacity r.read ((r.write + 1) % capacity) = between capacity r.read r.write + 1
    rw [next_eq writeLt] at apart ⊢
    unfold between
    split_ifs at apart ⊢ <;> omega
  have place := r.read_add_len
  unfold toRing Ring.push
  simp only [longer, List.length_singleton, one, List.take_succ_cons, List.take_zero, Ring.store,
    place, Ring.mk.injEq, and_true]
  rw [push, if_neg apart]
  exact ⟨rfl, rfl⟩

/-- An item stands last, if there is room for it. -/
theorem contents_push (r : IndexRing α capacity) (x : α) :
    (r.push x).contents = if r.HasRoom then r.contents ++ [x] else r.contents := by
  split_ifs with room
  · have one : min 1 (capacity - r.len) = 1 := by
      unfold HasRoom at room
      omega
    have pushed := r.toRing.contents_push [x]
    rw [← toRing_push room, Ring.push_fst, List.length_singleton, show r.toRing.len = r.len from rfl,
      one, List.take_succ_cons, List.take_zero] at pushed
    exact pushed
  · rw [push_of_not_hasRoom room]

/-- An item is in the ring for good exactly if there is room for it. -/
theorem contents_push_eq_append_iff (r : IndexRing α capacity) (x y : α) :
    (r.push x).contents = r.contents ++ [y] ↔ r.HasRoom ∧ x = y := by
  rw [contents_push]
  split_ifs with room <;> simp [room]

/-- What is taken off stood in front. -/
theorem contents_pop {r after : IndexRing α capacity} {x : α} (popped : r.pop = some (x, after)) :
    r.contents = x :: after.contents := by
  unfold pop at popped
  split_ifs at popped with empty
  have readLt := r.read_lt
  have writeLt := r.write_lt
  obtain ⟨rfl, rfl⟩ := Prod.mk.inj (Option.some.inj popped)
  have one : min 1 r.len = 1 := by
    unfold len between
    split_ifs <;> omega
  have shorter : r.len - 1 = between capacity ((r.read + 1) % capacity) r.write := by
    rw [next_eq readLt]
    unfold len between
    split_ifs <;> omega
  have front := r.toRing.contents_pop 1
  have first : (r.toRing.pop 1).1 = [r.buf r.read] := by
    simp [Ring.pop, toRing, one, Nat.mod_eq_of_lt readLt]
  rw [first] at front
  rw [show r.contents = r.toRing.contents from rfl, front, List.singleton_append]
  congr 1
  unfold contents
  congr 1
  unfold Ring.pop toRing
  simp only [one, Ring.mk.injEq, true_and]
  exact shorter

end IndexRing

end DBSos.Lib

/-!
## Rings with a phase bit

A producer writes entry after entry into a ring and marks each with the phase of its current
pass. Behind its tail every entry carries that phase and from its tail on none does, so that a
consumer at the tail can tell a new entry from one of the pass before, however often the ring
went round.
-/

namespace DBSos.Lib

/-- The phase of the next pass. -/
def flip (phase : Nat) : Nat := if phase = 0 then 1 else 0

theorem flip_ne (phase : Nat) : flip phase ≠ phase := by
  unfold flip
  split_ifs with zero
  · exact zero ▸ Nat.one_ne_zero
  · exact Ne.symm zero

theorem flip_flip {phase : Nat} (binary : phase ≤ 1) : flip (flip phase) = phase := by
  rcases Nat.le_one_iff_eq_zero_or_eq_one.mp binary with rfl | rfl
  · rfl
  · rfl

theorem flip_le (phase : Nat) : flip phase ≤ 1 := by
  unfold flip
  split_ifs
  · exact Nat.le_refl 1
  · exact Nat.zero_le 1

/-- The phase bits of the entries, and where the producer writes next. -/
@[ext]
structure PhaseRing where
  bit : Nat → Nat
  tail : Nat
  phase : Nat

namespace PhaseRing

/-- The phase after a step to `position`. -/
def nextPhase (position phase : Nat) : Nat := if position = 0 then flip phase else phase

/-- The producer writes one entry. -/
def push (size : Nat) (r : PhaseRing) : PhaseRing :=
  { bit := Function.update r.bit r.tail r.phase
    tail := (r.tail + 1) % size
    phase := nextPhase ((r.tail + 1) % size) r.phase }

/-- The entries before the tail are of this pass and the others are not. -/
structure Tidy (size : Nat) (r : PhaseRing) : Prop where
  inside : r.tail < size
  binary : r.phase ≤ 1
  written : ∀ i < r.tail, r.bit i = r.phase
  unwritten : ∀ i, r.tail ≤ i → i < size → r.bit i = flip r.phase

variable {size : Nat} {r : PhaseRing}

/-- A ring of zeros before its first pass. -/
theorem tidy_zeros (room : 0 < size) : Tidy size ⟨fun _ => 0, 0, 1⟩ :=
  ⟨room, Nat.le_refl 1, fun _ before => absurd before (Nat.not_lt_zero _), fun _ _ _ => rfl⟩

/-- What is at the tail is not taken for a new entry. -/
theorem Tidy.bit_tail (tidy : Tidy size r) : r.bit r.tail ≠ r.phase := by
  rw [tidy.unwritten r.tail (Nat.le_refl _) tidy.inside]
  exact flip_ne r.phase

theorem Tidy.push (tidy : Tidy size r) : Tidy size (r.push size) := by
  have inside := tidy.inside
  have room : 0 < size := Nat.zero_lt_of_lt inside
  by_cases last : r.tail + 1 = size
  · have wrapped : (r.tail + 1) % size = 0 := by rw [last, Nat.mod_self]
    refine ⟨Nat.mod_lt _ room, ?_, ?_, ?_⟩
    · simp only [PhaseRing.push, nextPhase, wrapped, if_true]
      exact flip_le r.phase
    · intro i before
      exact absurd (wrapped ▸ before) (Nat.not_lt_zero i)
    · intro i _ bound
      simp only [PhaseRing.push, nextPhase, wrapped, if_true, flip_flip tidy.binary]
      by_cases here : i = r.tail
      · rw [here, Function.update_self]
      · rw [Function.update_of_ne here]
        exact tidy.written i (by omega)
  · have next : (r.tail + 1) % size = r.tail + 1 := Nat.mod_eq_of_lt (by omega)
    have onward : r.tail + 1 ≠ 0 := Nat.succ_ne_zero _
    refine ⟨Nat.mod_lt _ room, ?_, ?_, ?_⟩
    · simp only [PhaseRing.push, nextPhase, next, if_neg onward]
      exact tidy.binary
    · intro i before
      simp only [PhaseRing.push, nextPhase, next, if_neg onward] at before ⊢
      by_cases here : i = r.tail
      · rw [here, Function.update_self]
      · rw [Function.update_of_ne here]
        exact tidy.written i (by omega)
    · intro i after bound
      simp only [PhaseRing.push, nextPhase, next, if_neg onward] at after ⊢
      rw [Function.update_of_ne (by omega)]
      exact tidy.unwritten i (by omega) bound

end PhaseRing

end DBSos.Lib
