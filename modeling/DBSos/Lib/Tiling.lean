import Mathlib.Algebra.Order.Group.Nat

/-!
# Tilings

Blocks lie one behind the other and fill an interval. A block is its address and each has a
size, so a tiling is determined by its start and the sizes. Blocks are added behind the last
one, two neighbours become one and one becomes two.
-/

namespace DBSos.Lib

/-- The blocks follow each other without a gap, from `start` to `stop`. -/
def Tiles (size : Nat → Nat) (stop : Nat) : Nat → List Nat → Prop
  | start, [] => start = stop
  | start, b :: rest => b = start ∧ Tiles size stop (start + size b) rest

namespace Tiles

variable {size size' : Nat → Nat} {start middle stop a b : Nat} {bs us vs : List Nat}

theorem append_iff :
    Tiles size stop start (us ++ vs) ↔
      ∃ middle, Tiles size middle start us ∧ Tiles size stop middle vs := by
  induction us generalizing start with
  | nil => simp [Tiles]
  | cons b rest ih =>
    simp only [List.cons_append, Tiles, ih]
    constructor
    · rintro ⟨first, middle, before, after⟩
      exact ⟨middle, ⟨first, before⟩, after⟩
    · rintro ⟨middle, ⟨first, before⟩, after⟩
      exact ⟨first, middle, before, after⟩

/-- A tiling reads the sizes of its blocks. -/
theorem congr (tiles : Tiles size stop start bs) (same : ∀ b ∈ bs, size' b = size b) :
    Tiles size' stop start bs := by
  induction bs generalizing start with
  | nil => exact tiles
  | cons b rest ih =>
    obtain ⟨first, later⟩ := tiles
    refine ⟨first, ?_⟩
    rw [same b List.mem_cons_self]
    exact ih later fun c member => same c (List.mem_cons_of_mem b member)

theorem start_le (tiles : Tiles size stop start bs) : start ≤ stop := by
  induction bs generalizing start with
  | nil => exact Nat.le_of_eq tiles
  | cons b rest ih =>
    exact (Nat.le_add_right start (size b)).trans (ih tiles.2)

/-- The blocks before and behind one of them. -/
theorem split (tiles : Tiles size stop start bs) (member : b ∈ bs) :
    ∃ us vs, bs = us ++ b :: vs ∧ Tiles size b start us ∧
      Tiles size stop (b + size b) vs := by
  obtain ⟨us, vs, rfl⟩ := List.append_of_mem member
  obtain ⟨middle, before, first, after⟩ := append_iff.mp tiles
  subst first
  exact ⟨us, vs, rfl, before, after⟩

/-- A tiling of a longer interval starts with the same blocks. -/
theorem of_shorter (tiles : Tiles size stop start bs) (shorter : Tiles size middle start us)
    (inside : middle < stop) : ∃ vs, Tiles size stop middle vs := by
  induction us generalizing start bs with
  | nil =>
    obtain rfl : start = middle := shorter
    exact ⟨bs, tiles⟩
  | cons b rest ih =>
    obtain ⟨rfl, later⟩ := shorter
    cases bs with
    | nil =>
      have ended : b = stop := tiles
      have behind := later.start_le
      omega
    | cons c others =>
      obtain ⟨rfl, others⟩ := tiles
      exact ih others later

/-- A block lies in the interval. -/
theorem bounds (tiles : Tiles size stop start bs) (member : b ∈ bs) :
    start ≤ b ∧ b + size b ≤ stop := by
  obtain ⟨us, vs, -, before, after⟩ := tiles.split member
  exact ⟨before.start_le, after.start_le⟩

/-- Two blocks do not overlap. -/
theorem apart (tiles : Tiles size stop start bs) (memberA : a ∈ bs) (memberB : b ∈ bs)
    (different : a ≠ b) : a + size a ≤ b ∨ b + size b ≤ a := by
  obtain ⟨us, vs, rfl, before, after⟩ := tiles.split memberA
  rcases List.mem_append.mp memberB with earlier | later
  · exact .inr (before.bounds earlier).2
  · have behind : b ∈ vs := (List.mem_cons.mp later).resolve_left fun same => different same.symm
    exact .inl (after.bounds behind).1

/-- The block behind one that is not the last. -/
theorem next_mem (tiles : Tiles size stop start bs) (member : b ∈ bs)
    (inside : b + size b < stop) : b + size b ∈ bs := by
  obtain ⟨us, vs, rfl, -, after⟩ := tiles.split member
  cases vs with
  | nil => exact absurd after (Nat.ne_of_lt inside)
  | cons c rest =>
    rw [← after.1]
    simp

/-- A walk counts no more blocks of a size than fit. -/
theorem length_mul_le (tiles : Tiles size stop start bs) {least : Nat}
    (large : ∀ b ∈ bs, least ≤ size b) : bs.length * least ≤ stop - start := by
  induction bs generalizing start with
  | nil => simp
  | cons b rest ih =>
    obtain ⟨rfl, later⟩ := tiles
    have room := large b List.mem_cons_self
    have inside := later.start_le
    have others := ih later
      fun c member => large c (List.mem_cons_of_mem b member)
    rw [List.length_cons, Nat.succ_mul]
    omega

end Tiles

end DBSos.Lib

/-!
## Ordered spans in groups

Items that each cover a stretch of numbers, in order and apart. They come in groups, each under
the number of its first item; a number's item is looked for in one group.
-/

namespace DBSos.Lib

section Spans

variable {α β : Type*} (first stop : α → Nat)

/-- An item ends where a later one starts, at the latest. -/
def Apart (a b : α) : Prop := first a < first b ∧ stop a ≤ first b

def Covers (l : Nat) (a : α) : Prop := first a ≤ l ∧ l < stop a

instance (a b : α) : Decidable (Apart first stop a b) := inferInstanceAs (Decidable (_ ∧ _))

instance (l : Nat) (a : α) : Decidable (Covers first stop l a) :=
  inferInstanceAs (Decidable (_ ∧ _))

/-- The item that covers a number. -/
def covering (items : List α) (l : Nat) : Option α :=
  items.find? fun a => decide (Covers first stop l a)

variable {first stop} {items : List α} {l : Nat} {a b : α}

theorem Apart.not_covers (apart : Apart first stop a b) (earlier : Covers first stop l a) :
    ¬ Covers first stop l b := by
  intro later
  have ends := apart.2
  have below := earlier.2
  have above := later.1
  omega

/-- No two items cover the same number. -/
theorem eq_of_covers (apart : items.Pairwise (Apart first stop)) (here : a ∈ items)
    (there : b ∈ items) (covers : Covers first stop l a) (also : Covers first stop l b) :
    a = b := by
  induction apart with
  | nil => cases here
  | cons head _ ih =>
    rcases List.mem_cons.mp here with rfl | first <;>
      rcases List.mem_cons.mp there with rfl | second
    · rfl
    · exact absurd also ((head b second).not_covers covers)
    · exact absurd covers ((head a first).not_covers also)
    · exact ih first second

theorem covering_eq_none_iff :
    covering first stop items l = none ↔ ∀ a ∈ items, ¬ Covers first stop l a := by
  simp [covering]

theorem covering_eq_some_iff (apart : items.Pairwise (Apart first stop)) :
    covering first stop items l = some a ↔ a ∈ items ∧ Covers first stop l a := by
  constructor
  · intro found
    exact ⟨List.mem_of_find?_eq_some found, by simpa using List.find?_some found⟩
  · rintro ⟨member, covers⟩
    cases found : covering first stop items l with
    | none => exact absurd covers (covering_eq_none_iff.mp found a member)
    | some b =>
      have other : Covers first stop l b := by simpa using List.find?_some found
      rw [eq_of_covers apart member (List.mem_of_find?_eq_some found) covers other]

end Spans

section Groups

variable {α β : Type*} {first stop : α → Nat} (key : β → Nat)

/-- The first group whose number is not below the one wanted, else the last. -/
def firstNotBelow (groups : List β) (l : Nat) : Option β :=
  (groups.find? fun g => decide (l ≤ key g)).or groups.getLast?

variable {key} {groups : List β} {l : Nat} {g : β} {a : α} (group : β → List α)

/-- What is behind the group that is taken is behind one whose number is not below. -/
theorem firstNotBelow_eq_some (taken : firstNotBelow key groups l = some g) :
    ∃ earlier later, groups = earlier ++ g :: later ∧ (later = [] ∨ l ≤ key g) := by
  rcases Option.or_eq_some_iff.mp taken with found | ⟨-, last⟩
  · obtain ⟨reached, earlier, later, rfl, -⟩ := List.find?_eq_some_iff_append.mp found
    exact ⟨earlier, later, rfl, .inr (by simpa using reached)⟩
  · obtain ⟨earlier, rfl⟩ := List.getLast?_eq_some_iff.mp last
    exact ⟨earlier, [], rfl, .inl rfl⟩

theorem mem_of_firstNotBelow (taken : firstNotBelow key groups l = some g) : g ∈ groups := by
  obtain ⟨earlier, later, rfl, -⟩ := firstNotBelow_eq_some taken
  exact List.mem_append_right _ List.mem_cons_self

theorem firstNotBelow_eq_none_iff : firstNotBelow key groups l = none ↔ groups = [] := by
  rw [firstNotBelow, Option.or_eq_none_iff, List.getLast?_eq_none_iff]
  refine ⟨And.right, ?_⟩
  rintro rfl
  exact ⟨rfl, rfl⟩

/-- An item that covers the number is in the group taken, if that does not start behind it. -/
theorem mem_group_of_covers (apart : (groups.flatMap group).Pairwise (Apart first stop))
    (headed : ∃ h rest, group g = h :: rest ∧ first h = key g)
    (taken : firstNotBelow key groups l = some g) (starts : key g ≤ l)
    (member : a ∈ groups.flatMap group) (covers : Covers first stop l a) : a ∈ group g := by
  obtain ⟨h, rest, listed, number⟩ := headed
  have head : h ∈ group g := listed ▸ List.mem_cons_self
  obtain ⟨earlier, later, rfl, behind⟩ := firstNotBelow_eq_some taken
  rw [List.flatMap_append, List.flatMap_cons] at apart member
  obtain ⟨-, apart, before⟩ := List.pairwise_append.mp apart
  obtain ⟨-, -, after⟩ := List.pairwise_append.mp apart
  rcases List.mem_append.mp member with member | member
  · have ends := (before a member h (List.mem_append_left _ head)).2
    have below := covers.2
    omega
  rcases List.mem_append.mp member with member | member
  · exact member
  · rcases behind with rfl | reached
    · cases member
    · have further := (after h head a member).1
      have above := covers.1
      omega

/-- Nothing in a group that starts behind the number covers it. -/
theorem not_covers_of_lt (apart : (group g).Pairwise (Apart first stop))
    (headed : ∃ h rest, group g = h :: rest ∧ first h = key g) (starts : l < key g)
    (member : a ∈ group g) : ¬ Covers first stop l a := by
  intro covers
  obtain ⟨h, rest, listed, number⟩ := headed
  rw [listed] at apart member
  have above := covers.1
  rcases List.mem_cons.mp member with rfl | member
  · omega
  · have further := ((List.pairwise_cons.mp apart).1 a member).1
    omega

end Groups

end DBSos.Lib
