import Mathlib.Order.Fin.Basic

/-!
# Searches that may panic

A search visits the items of a list until one of them ends it. A visit that panics takes the
search with it, so a search is safe exactly where every visit that it comes to is. A loop that
collects goes over all items, and is safe where every turn is.
-/

namespace DBSos.Lib

universe u v

variable {α : Type u} {β : Type v}

/-- What a visit comes to: the search goes on, or it ends. -/
inductive Visit (β : Type v) where
  | next
  | stop (result : β)

/-- Visit the items up to the first that ends the search. `none` is a panic, and `none` inside the
end of the list. -/
def scan (visit : α → Option (Visit β)) : List α → Option (Option β)
  | [] => some none
  | x :: rest =>
    (visit x).bind fun
      | .next => scan visit rest
      | .stop result => some (some result)

/-- The search comes to an item: it passes those before. -/
inductive Comes (passes : α → Prop) : List α → α → Prop where
  | here (x : α) (rest : List α) : Comes passes (x :: rest) x
  | later {x y : α} {rest : List α} (passed : passes x) (comes : Comes passes rest y) :
      Comes passes (x :: rest) y

/-- What every visit comes to: a panic, or the next item, or the end. -/
def Visits (visit : α → Option (Visit β)) (safe passes : α → Prop) : Prop :=
  ∀ x, (visit x = none ∧ ¬ safe x) ∨ (visit x = some .next ∧ safe x ∧ passes x) ∨
    ∃ result, visit x = some (.stop result) ∧ safe x ∧ ¬ passes x

variable {visit : α → Option (Visit β)} {safe passes : α → Prop} {x y : α} {rest xs : List α}

theorem comes_cons : Comes passes (x :: rest) y ↔ y = x ∨ passes x ∧ Comes passes rest y := by
  constructor
  · intro comes
    cases comes with
    | here => exact .inl rfl
    | later passed comes => exact .inr ⟨passed, comes⟩
  · rintro (rfl | ⟨passed, comes⟩)
    · exact .here _ _
    · exact .later passed comes

theorem comes_range' {passes : Nat → Prop} {start count i : Nat} :
    Comes passes (List.range' start count) i ↔
      (start ≤ i ∧ i < start + count) ∧ ∀ j, start ≤ j → j < i → passes j := by
  induction count generalizing start with
  | zero =>
    refine iff_of_false (by rintro ⟨⟩) ?_
    rintro ⟨⟨above, below⟩, -⟩
    omega
  | succ count ih =>
    rw [List.range'_succ, comes_cons, ih]
    constructor
    · rintro (rfl | ⟨first, ⟨above, below⟩, passed⟩)
      · exact ⟨⟨Nat.le_refl _, by omega⟩, fun j above below => absurd above (by omega)⟩
      · refine ⟨⟨by omega, by omega⟩, fun j from' below => ?_⟩
        rcases Nat.eq_or_lt_of_le from' with rfl | later
        · exact first
        · exact passed j later below
    · rintro ⟨⟨above, below⟩, passed⟩
      rcases Nat.eq_or_lt_of_le above with rfl | later
      · exact .inl rfl
      · exact .inr ⟨passed start (Nat.le_refl _) later, ⟨later, by omega⟩,
          fun j from' below => passed j (by omega) below⟩

/-- In a sorted list, the search comes to an item that all smaller ones let pass. -/
theorem comes_sorted [LinearOrder α] (sorted : xs.Pairwise (· < ·)) :
    Comes passes xs x ↔ x ∈ xs ∧ ∀ y ∈ xs, y < x → passes y := by
  induction xs with
  | nil => exact iff_of_false (by rintro ⟨⟩) fun all => List.not_mem_nil all.1
  | cons z rest ih =>
    obtain ⟨least, sorted⟩ := List.pairwise_cons.mp sorted
    rw [comes_cons, ih sorted]
    simp only [List.mem_cons, forall_eq_or_imp]
    constructor
    · rintro (rfl | ⟨passed, member, all⟩)
      · exact ⟨.inl rfl, fun below => absurd below (lt_irrefl _),
          fun y member below => absurd (least y member) (lt_asymm below)⟩
      · exact ⟨.inr member, fun _ => passed, all⟩
    · rintro ⟨rfl | member, first, all⟩
      · exact .inl rfl
      · exact .inr ⟨first (least x member), member, all⟩

/-- A search over all indices comes to an index that all smaller ones let pass. -/
theorem comes_finRange {n : Nat} {passes : Fin n → Prop} {i : Fin n} :
    Comes passes (List.finRange n) i ↔ ∀ j < i, passes j := by
  rw [comes_sorted (List.pairwise_lt_finRange n)]
  simp only [List.mem_finRange, true_and, forall_const]

namespace Visits

variable (visits : Visits visit safe passes)

include visits

/-- A search panics exactly where a visit does that it comes to. -/
theorem scan_ne_none_iff (xs : List α) :
    scan visit xs ≠ none ↔ ∀ x, Comes passes xs x → safe x := by
  induction xs with
  | nil => exact iff_of_true (Option.some_ne_none _) (by rintro _ ⟨⟩)
  | cons x rest ih =>
    simp only [comes_cons, forall_eq_or_imp, and_imp]
    rw [scan]
    rcases visits x with ⟨panics, unsafe'⟩ | ⟨goes, holds, passed⟩ | ⟨_, ends, holds, stays⟩
    · rw [panics, Option.bind_none]
      exact iff_of_false (fun returns => returns rfl) fun all => unsafe' all.1
    · rw [goes, Option.bind_some]
      exact ih.trans
        ⟨fun all => ⟨holds, fun y _ => all y⟩, fun all y => all.2 y passed⟩
    · rw [ends, Option.bind_some]
      exact iff_of_true (Option.some_ne_none _)
        ⟨holds, fun y passed => absurd passed stays⟩

/-- It comes to the end exactly where every item is passed. -/
theorem scan_eq_none_iff (xs : List α) :
    scan visit xs = some none ↔
      (∀ x, Comes passes xs x → safe x) ∧ ∀ x ∈ xs, passes x := by
  induction xs with
  | nil => exact iff_of_true rfl ⟨by rintro _ ⟨⟩, nofun⟩
  | cons x rest ih =>
    simp only [comes_cons, forall_eq_or_imp, and_imp, List.mem_cons]
    rw [scan]
    rcases visits x with ⟨panics, unsafe'⟩ | ⟨goes, holds, passed⟩ | ⟨_, ends, holds, stays⟩
    · rw [panics, Option.bind_none]
      exact iff_of_false (by rintro ⟨⟩) fun all => unsafe' all.1.1
    · rw [goes, Option.bind_some]
      exact ih.trans
        ⟨fun all => ⟨⟨holds, fun y _ => all.1 y⟩, passed, all.2⟩,
          fun all => ⟨fun y => all.1.2 y passed, all.2.2⟩⟩
    · rw [ends, Option.bind_some]
      exact iff_of_false (by rintro ⟨⟩) fun all => stays all.2.1

/-- It ends with a result exactly where it comes to an item whose visit does. -/
theorem scan_eq_some_iff (xs : List α) (result : β) :
    scan visit xs = some (some result) ↔
      (∀ x, Comes passes xs x → safe x) ∧
        ∃ x, Comes passes xs x ∧ visit x = some (.stop result) := by
  induction xs with
  | nil =>
    refine iff_of_false (by rintro ⟨⟩) ?_
    rintro ⟨-, _, ⟨⟩, -⟩
  | cons x rest ih =>
    simp only [comes_cons, forall_eq_or_imp, and_imp]
    rw [scan]
    rcases visits x with ⟨panics, unsafe'⟩ | ⟨goes, holds, passed⟩ | ⟨_, ends, holds, stays⟩
    · rw [panics, Option.bind_none]
      exact iff_of_false (by rintro ⟨⟩) fun all => unsafe' all.1.1
    · rw [goes, Option.bind_some]
      refine ih.trans ⟨?_, ?_⟩
      · rintro ⟨all, y, comes, ends⟩
        exact ⟨⟨holds, fun y _ => all y⟩, y, .inr ⟨passed, comes⟩, ends⟩
      · rintro ⟨⟨-, all⟩, y, rfl | ⟨-, comes⟩, ends⟩
        · rw [goes] at ends
          cases ends
        · exact ⟨fun y => all y passed, y, comes, ends⟩
    · rw [ends, Option.bind_some]
      constructor
      · rintro ⟨⟩
        exact ⟨⟨holds, fun y passed => absurd passed stays⟩, x, .inl rfl, ends⟩
      · rintro ⟨-, y, rfl | ⟨passed, -⟩, stop⟩
        · rw [ends] at stop
          cases stop
          rfl
        · exact absurd passed stays

end Visits

/-! ## Loops that collect -/

/-- What the turns of a loop give, one after another. `none` is a panic. -/
def gather (turn : α → Option (List β)) : List α → Option (List β)
  | [] => some []
  | x :: rest => (turn x).bind fun items => (gather turn rest).map (items ++ ·)

variable {turn : α → Option (List β)} {items : List β} {item : β}

theorem gather_append {front back : List α} {earlier later : List β}
    (first : gather turn front = some earlier) (second : gather turn back = some later) :
    gather turn (front ++ back) = some (earlier ++ later) := by
  induction front generalizing earlier with
  | nil =>
    cases first
    exact second
  | cons x rest ih =>
    rw [gather] at first
    obtain ⟨here, turned, first⟩ := Option.bind_eq_some_iff.mp first
    obtain ⟨others, collected, rfl⟩ := Option.map_eq_some_iff.mp first
    rw [List.cons_append, gather, turned, Option.bind_some, ih collected,
      Option.map_some, List.append_assoc]

/-- A loop panics exactly where a turn does. -/
theorem gather_isSome : (∃ items, gather turn xs = some items) ↔
    ∀ x ∈ xs, ∃ items, turn x = some items := by
  induction xs with
  | nil => exact iff_of_true ⟨[], rfl⟩ nofun
  | cons x rest ih =>
    simp only [List.mem_cons, forall_eq_or_imp, ← ih, gather,
      Option.bind_eq_some_iff, Option.map_eq_some_iff]
    constructor
    · rintro ⟨_, here, turned, others, gathered, rfl⟩
      exact ⟨⟨here, turned⟩, others, gathered⟩
    · rintro ⟨⟨here, turned⟩, others, gathered⟩
      exact ⟨here ++ others, here, turned, others, gathered, rfl⟩

theorem gather_congr {turn' : α → Option (List β)}
    (same : ∀ x ∈ xs, turn x = turn' x) : gather turn xs = gather turn' xs := by
  induction xs with
  | nil => rfl
  | cons x rest ih =>
    rw [gather, gather, same x List.mem_cons_self,
      ih fun y member => same y (List.mem_cons_of_mem _ member)]

/-- A loop whose turns all give something. -/
theorem gather_eq_flatMap {give : α → List β}
    (same : ∀ x ∈ xs, turn x = some (give x)) : gather turn xs = some (xs.flatMap give) := by
  induction xs with
  | nil => rfl
  | cons x rest ih =>
    rw [gather, same x List.mem_cons_self, Option.bind_some,
      ih fun y member => same y (List.mem_cons_of_mem _ member),
      Option.map_some, List.flatMap_cons]

theorem mem_gather (gathered : gather turn xs = some items) :
    item ∈ items ↔ ∃ x ∈ xs, ∃ here, turn x = some here ∧ item ∈ here := by
  induction xs generalizing items with
  | nil =>
    cases gathered
    exact iff_of_false List.not_mem_nil (by rintro ⟨_, ⟨⟩, -⟩)
  | cons x rest ih =>
    rw [gather] at gathered
    obtain ⟨here, turned, mapped⟩ := Option.bind_eq_some_iff.mp gathered
    obtain ⟨others, collected, rfl⟩ := Option.map_eq_some_iff.mp mapped
    rw [List.mem_append, ih collected]
    simp only [List.mem_cons, exists_eq_or_imp, turned, Option.some.injEq, exists_eq_left']

/-- The items are in the order of the turns. -/
theorem pairwise_gather {before : β → β → Prop} (gathered : gather turn xs = some items)
    (inTurn : ∀ x here, turn x = some here → here.Pairwise before)
    (across : xs.Pairwise fun x y => ∀ here, turn x = some here → ∀ there, turn y = some there →
      ∀ a ∈ here, ∀ b ∈ there, before a b) : items.Pairwise before := by
  induction xs generalizing items with
  | nil =>
    cases gathered
    exact .nil
  | cons x rest ih =>
    obtain ⟨first, across⟩ := List.pairwise_cons.mp across
    rw [gather] at gathered
    obtain ⟨here, turned, mapped⟩ := Option.bind_eq_some_iff.mp gathered
    obtain ⟨others, collected, rfl⟩ := Option.map_eq_some_iff.mp mapped
    refine List.pairwise_append.mpr ⟨inTurn x here turned,
      ih collected across, fun a inHere b inOthers => ?_⟩
    obtain ⟨y, member, there, turnedThere, inThere⟩ := (mem_gather collected).mp inOthers
    exact first y member here turned there turnedThere a inHere b inThere

end DBSos.Lib
