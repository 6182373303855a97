import Mathlib.Data.Set.Basic

/-!
# Radix tables

A radix table finds the place of an address level by level: the entry that the
address selects is absent, a leaf, or the name of a table one level below.
Several roots may share the tables below them.

`Layout` says that every table has one level and that a table is entered at one
index: by one entry, or by several roots. Under it, an entry that is replaced by
a fresh table of the same meaning changes no place (`lookup_link`), and a leaf
written at the bottom changes the places of exactly the addresses that end there
(`lookup_write`), which are those of `lastTable_iff`.
-/

namespace DBSos.Radix

universe u v w x y

variable {T : Type u} {I : Type v} {E : Type w} {A : Type x} {P : Type y}

/-- What an entry says. -/
inductive Entry (T : Type u) (A : Type x) (P : Type y) where
  | absent
  | leaf (place : A → P)
  | table (next : T)

/-- The place of an address, unless it is further down. -/
def Entry.value : Entry T A P → A → Option P
  | .leaf place, a => some (place a)
  | _, _ => none

/-- The index of an address and the meaning of an entry, by level. -/
structure Format (T : Type u) (I : Type v) (E : Type w) (A : Type x) (P : Type y) where
  index : Nat → A → I
  decode : Nat → E → Entry T A P

variable (fmt : Format T I E A P)

/-- The entry that an address selects. -/
def Format.entry (mem : T → I → E) (level : Nat) (t : T) (a : A) : Entry T A P :=
  fmt.decode level (mem t (fmt.index level a))

/-- The place of an address, from a table of this level. -/
def Format.lookup (mem : T → I → E) : Nat → T → A → Option P
  | 0, t, a => (fmt.entry mem 0 t a).value a
  | level + 1, t, a =>
    match fmt.entry mem (level + 1) t a with
    | .absent => none
    | .leaf place => some (place a)
    | .table next => lookup mem level next a

/-- The entries that the walk for an address reads, the last one first. -/
def Format.visited (mem : T → I → E) : Nat → T → A → List E
  | 0, t, a => [mem t (fmt.index 0 a)]
  | level + 1, t, a =>
    match fmt.entry mem (level + 1) t a with
    | .table next => visited mem level next a ++ [mem t (fmt.index (level + 1) a)]
    | _ => [mem t (fmt.index (level + 1) a)]

/-- The table of level 0 in which the walk ends. -/
def Format.lastTable (mem : T → I → E) : Nat → T → A → Option T
  | 0, t, _ => some t
  | level + 1, t, a =>
    match fmt.entry mem (level + 1) t a with
    | .table next => lastTable mem level next a
    | _ => none

/-- The same tables, with another place for each leaf. -/
def Format.relabel {Q : Type y} (fmt : Format T I E A P) (place : Nat → E → A → Q) :
    Format T I E A Q where
  index := fmt.index
  decode level e :=
    match fmt.decode level e with
    | .absent => .absent
    | .leaf _ => .leaf (place level e)
    | .table next => .table next

/-- The addresses have one index from this level down. -/
def Format.Same (level : Nat) (a b : A) : Prop := ∀ l ≤ level, fmt.index l a = fmt.index l b

/-- Two roots have one table below the entry of the address. -/
def Format.Meet (mem : T → I → E) (level : Nat) (r s : T) (a : A) : Prop :=
  r = s ∨ ∃ t, fmt.entry mem level r a = .table t ∧ fmt.entry mem level s a = .table t

/-- The levels of the tables below `roots`, whose own level is `depth + 1`. -/
structure Layout (mem : T → I → E) (depth : Nat) (roots : Set T) (level : T → Option Nat) :
    Prop where
  root : ∀ r ∈ roots, level r = some (depth + 1)
  below : ∀ t l a next, level t = some (l + 1) → fmt.entry mem (l + 1) t a = .table next →
    level next = some l
  top : ∀ t s a b next, level t = some (depth + 1) → level s = some (depth + 1) →
    fmt.entry mem (depth + 1) t a = .table next → fmt.entry mem (depth + 1) s b = .table next →
      fmt.index (depth + 1) a = fmt.index (depth + 1) b
  own : ∀ t s l a b next, l < depth → level t = some (l + 1) → level s = some (l + 1) →
    fmt.entry mem (l + 1) t a = .table next → fmt.entry mem (l + 1) s b = .table next →
      t = s ∧ fmt.index (l + 1) a = fmt.index (l + 1) b

variable {fmt} {mem : T → I → E} {depth : Nat} {roots : Set T} {level : T → Option Nat}

theorem decode_relabel {Q : Type y} {place : Nat → E → A → Q} {l : Nat} {e : E} {next : T} :
    (fmt.relabel place).decode l e = .table next ↔ fmt.decode l e = .table next := by
  unfold Format.relabel
  cases found : fmt.decode l e <;> simp [found]

theorem entry_relabel {Q : Type y} {place : Nat → E → A → Q} {l : Nat} {t next : T} {a : A} :
    (fmt.relabel place).entry mem l t a = .table next ↔ fmt.entry mem l t a = .table next :=
  decode_relabel

theorem lastTable_relabel {Q : Type y} {place : Nat → E → A → Q} {l : Nat} {t : T} {a : A} :
    (fmt.relabel place).lastTable mem l t a = fmt.lastTable mem l t a := by
  induction l generalizing t with
  | zero => rfl
  | succ l ih =>
    unfold Format.lastTable Format.entry Format.relabel
    dsimp only
    cases fmt.decode (l + 1) (mem t (fmt.index (l + 1) a)) with
    | absent | leaf => rfl
    | table next => exact ih

theorem lookup_succ {l : Nat} {t next : T} {a : A} (found : fmt.entry mem (l + 1) t a = .table next) :
    fmt.lookup mem (l + 1) t a = fmt.lookup mem l next a := by
  simp [Format.lookup, found]

theorem lookup_eq_value {l : Nat} {t : T} {a : A}
    (last : ∀ next, fmt.entry mem l t a ≠ .table next) :
    fmt.lookup mem l t a = (fmt.entry mem l t a).value a := by
  cases l with
  | zero => rfl
  | succ l =>
    unfold Format.lookup
    cases found : fmt.entry mem (l + 1) t a with
    | absent => rfl
    | leaf place => rfl
    | table next => exact absurd found (last next)

theorem lastTable_succ {l : Nat} {t next : T} {a : A}
    (found : fmt.entry mem (l + 1) t a = .table next) :
    fmt.lastTable mem (l + 1) t a = fmt.lastTable mem l next a := by
  simp [Format.lastTable, found]

theorem lastTable_some {l : Nat} {t last : T} {a : A}
    (ends : fmt.lastTable mem (l + 1) t a = some last) :
    ∃ next, fmt.entry mem (l + 1) t a = .table next ∧ fmt.lastTable mem l next a = some last := by
  unfold Format.lastTable at ends
  cases found : fmt.entry mem (l + 1) t a with
  | absent => simp [found] at ends
  | leaf place => simp [found] at ends
  | table next => exact ⟨next, rfl, by simpa [found] using ends⟩

/-- A walk that ends at a table of level 0 has its place there. -/
theorem lookup_of_lastTable {l : Nat} {t last : T} {a : A}
    (ends : fmt.lastTable mem l t a = some last) :
    fmt.lookup mem l t a = (fmt.entry mem 0 last a).value a := by
  induction l generalizing t with
  | zero =>
    obtain rfl := Option.some.inj ends
    rfl
  | succ l ih =>
    obtain ⟨next, found, ends⟩ := lastTable_some ends
    rw [lookup_succ found]
    exact ih ends

theorem entry_congr {l : Nat} {t : T} {a b : A} (same : fmt.index l a = fmt.index l b) :
    fmt.entry mem l t a = fmt.entry mem l t b := by
  rw [Format.entry, same, Format.entry]

theorem visited_succ {l : Nat} {t next : T} {a : A}
    (found : fmt.entry mem (l + 1) t a = .table next) :
    fmt.visited mem (l + 1) t a = fmt.visited mem l next a ++ [mem t (fmt.index (l + 1) a)] := by
  simp [Format.visited, found]

/-- A walk that ends at a leaf reads it last. -/
theorem visited_eq_singleton {l : Nat} {t : T} {a : A}
    (last : ∀ next, fmt.entry mem l t a ≠ .table next) :
    fmt.visited mem l t a = [mem t (fmt.index l a)] := by
  cases l with
  | zero => rfl
  | succ l =>
    unfold Format.visited
    cases found : fmt.entry mem (l + 1) t a with
    | absent => rfl
    | leaf place => rfl
    | table next => exact absurd found (last next)

/-- Addresses with the same indices have one walk. -/
theorem visited_same {l : Nat} {t : T} {a b : A} (same : fmt.Same l a b) :
    fmt.visited mem l t a = fmt.visited mem l t b := by
  induction l generalizing t with
  | zero => simp only [Format.visited, same 0 (Nat.le_refl 0)]
  | succ l ih =>
    have below : fmt.Same l a b := fun i low => same i (Nat.le_succ_of_le low)
    simp only [Format.visited, entry_congr (same (l + 1) (Nat.le_refl _)),
      same (l + 1) (Nat.le_refl _), ih below]

/-- They are both translated, or neither is. -/
theorem lookup_isSome_same {l : Nat} {t : T} {a b : A} (same : fmt.Same l a b) :
    (fmt.lookup mem l t a).isSome = (fmt.lookup mem l t b).isSome := by
  induction l generalizing t with
  | zero =>
    simp only [Format.lookup, entry_congr (same 0 (Nat.le_refl 0))]
    cases fmt.entry mem 0 t b <;> rfl
  | succ l ih =>
    have below : fmt.Same l a b := fun i low => same i (Nat.le_succ_of_le low)
    simp only [Format.lookup, entry_congr (same (l + 1) (Nat.le_refl _))]
    cases fmt.entry mem (l + 1) t b with
    | absent => rfl
    | leaf place => rfl
    | table next => exact ih below

namespace Layout

/-- A layout says nothing of places. -/
theorem relabel {Q : Type y} (layout : Layout fmt mem depth roots level)
    (place : Nat → E → A → Q) :
    Layout (fmt.relabel place) mem depth roots level where
  root := layout.root
  below t l a next above found := layout.below t l a next above (entry_relabel.mp found)
  top t s a b next tTop sTop tFound sFound :=
    layout.top t s a b next tTop sTop (entry_relabel.mp tFound) (entry_relabel.mp sFound)
  own t s l a b next low tLevel sLevel tFound sFound :=
    layout.own t s l a b next low tLevel sLevel (entry_relabel.mp tFound) (entry_relabel.mp sFound)

/-! ## Where walks end -/

theorem level_lastTable (layout : Layout fmt mem depth roots level) {l : Nat} {t last : T} {a : A}
    (tLevel : level t = some l) (ends : fmt.lastTable mem l t a = some last) :
    level last = some 0 := by
  induction l generalizing t with
  | zero =>
    obtain rfl := Option.some.inj ends
    exact tLevel
  | succ l ih =>
    obtain ⟨next, found, ends⟩ := lastTable_some ends
    exact ih (layout.below t l a next tLevel found) ends

/-- Walks below the roots that end in one table start in one table. -/
theorem same_of_lastTable (layout : Layout fmt mem depth roots level) {l : Nat} {t s last : T}
    {a b : A} (low : l ≤ depth) (tLevel : level t = some l) (sLevel : level s = some l)
    (tEnds : fmt.lastTable mem l t a = some last) (sEnds : fmt.lastTable mem l s b = some last) :
    t = s ∧ ∀ k, 1 ≤ k → k ≤ l → fmt.index k a = fmt.index k b := by
  induction l generalizing t s with
  | zero =>
    obtain rfl := Option.some.inj tEnds
    exact ⟨(Option.some.inj sEnds).symm, fun k positive bound => by omega⟩
  | succ l ih =>
    obtain ⟨tNext, tFound, tEnds⟩ := lastTable_some tEnds
    obtain ⟨sNext, sFound, sEnds⟩ := lastTable_some sEnds
    obtain ⟨rfl, indices⟩ := ih (by omega) (layout.below _ _ _ _ tLevel tFound)
      (layout.below _ _ _ _ sLevel sFound) tEnds sEnds
    obtain ⟨rfl, index⟩ := layout.own _ _ _ _ _ _ (by omega) tLevel sLevel tFound sFound
    refine ⟨rfl, fun k positive bound => ?_⟩
    rcases Nat.lt_or_ge l k with above | inside
    · obtain rfl : k = l + 1 := by omega
      exact index
    · exact indices k positive inside

/-- A walk is determined by the indices it uses. -/
theorem lastTable_congr {l : Nat} {t : T} {a b : A}
    (indices : ∀ k, 1 ≤ k → k ≤ l → fmt.index k a = fmt.index k b) :
    fmt.lastTable mem l t a = fmt.lastTable mem l t b := by
  induction l generalizing t with
  | zero => rfl
  | succ l ih =>
    unfold Format.lastTable
    rw [entry_congr (indices (l + 1) (by omega) (by omega))]
    cases fmt.entry mem (l + 1) t b with
    | absent => rfl
    | leaf place => rfl
    | table next => exact ih fun k positive bound => indices k positive (by omega)

/-- The walks that end in the table where the walk of `a` from `r` ends. -/
theorem lastTable_iff (layout : Layout fmt mem depth roots level) {r s last : T} {a b : A}
    (rootR : r ∈ roots) (rootS : s ∈ roots)
    (ends : fmt.lastTable mem (depth + 1) r a = some last) :
    fmt.lastTable mem (depth + 1) s b = some last ↔
      fmt.Meet mem (depth + 1) s r a ∧
        ∀ k, 1 ≤ k → k ≤ depth + 1 → fmt.index k b = fmt.index k a := by
  obtain ⟨rNext, rFound, rEnds⟩ := lastTable_some ends
  have rLevel := layout.root r rootR
  have sLevel := layout.root s rootS
  constructor
  · intro other
    obtain ⟨sNext, sFound, sEnds⟩ := lastTable_some other
    obtain ⟨rfl, indices⟩ := layout.same_of_lastTable le_rfl
      (layout.below _ _ _ _ sLevel sFound) (layout.below _ _ _ _ rLevel rFound) sEnds rEnds
    have index := layout.top _ _ _ _ _ sLevel rLevel sFound rFound
    refine ⟨.inr ⟨sNext, ?_, rFound⟩, fun k positive bound => ?_⟩
    · rwa [entry_congr index] at sFound
    · rcases Nat.lt_or_ge depth k with above | inside
      · obtain rfl : k = depth + 1 := by omega
        exact index
      · exact indices k positive inside
  · rintro ⟨meet, indices⟩
    rw [lastTable_congr indices]
    rcases meet with rfl | ⟨next, sFound, rFound'⟩
    · exact ends
    · rw [lastTable_succ sFound]
      rwa [lastTable_succ rFound'] at ends

/-! ## A leaf at the bottom -/

section Write

variable [DecidableEq T] [DecidableEq I]

/-- One entry is written. -/
def write (mem : T → I → E) (t : T) (i : I) (e : E) : T → I → E :=
  Function.update mem t (Function.update (mem t) i e)

theorem entry_write {l : Nat} {t s : T} {i : I} {e : E} {a : A} :
    fmt.entry (write mem t i e) l s a =
      if s = t ∧ fmt.index l a = i then fmt.decode l e else fmt.entry mem l s a := by
  unfold Format.entry write
  by_cases table : s = t
  · subst table
    by_cases index : fmt.index l a = i <;> simp [index]
  · simp [table]

/-- Tables above level 0 keep their entries. -/
theorem entry_write_above {l : Nat} {t s : T} {i : I} {e : E} {a : A} (bottom : level t = some 0)
    (above : level s = some (l + 1)) :
    fmt.entry (write mem t i e) (l + 1) s a = fmt.entry mem (l + 1) s a := by
  rw [entry_write, if_neg]
  rintro ⟨rfl, -⟩
  simp [bottom] at above

theorem write_bottom (layout : Layout fmt mem depth roots level) {t : T} {i : I} {e : E}
    (bottom : level t = some 0) : Layout fmt (write mem t i e) depth roots level where
  root := layout.root
  below := by
    intro s l a next above found
    rw [entry_write_above bottom above] at found
    exact layout.below s l a next above found
  top := by
    intro r s a b next rTop sTop rFound sFound
    rw [entry_write_above bottom rTop] at rFound
    rw [entry_write_above bottom sTop] at sFound
    exact layout.top r s a b next rTop sTop rFound sFound
  own := by
    intro r s l a b next low rLevel sLevel rFound sFound
    rw [entry_write_above bottom rLevel] at rFound
    rw [entry_write_above bottom sLevel] at sFound
    exact layout.own r s l a b next low rLevel sLevel rFound sFound

theorem meet_write (layout : Layout fmt mem depth roots level) {t : T} {i : I} {e : E}
    (bottom : level t = some 0) {r s : T} {a : A} (rootR : r ∈ roots) (rootS : s ∈ roots) :
    fmt.Meet (write mem t i e) (depth + 1) r s a ↔ fmt.Meet mem (depth + 1) r s a := by
  unfold Format.Meet
  rw [entry_write_above bottom (layout.root r rootR), entry_write_above bottom (layout.root s rootS)]

/-- The addresses whose walk ends at the written entry have its place, the others keep theirs. -/
theorem lookup_write_bottom (layout : Layout fmt mem depth roots level) {t : T} {i : I} {e : E}
    (bottom : level t = some 0) {l : Nat} {s : T} (sLevel : level s = some l) (a : A) :
    fmt.lookup (write mem t i e) l s a =
      if fmt.lastTable mem l s a = some t ∧ fmt.index 0 a = i then (fmt.decode 0 e).value a
      else fmt.lookup mem l s a := by
  induction l generalizing s with
  | zero =>
    rw [Format.lookup, entry_write]
    simp only [Format.lastTable, Option.some.injEq]
    split_ifs <;> rfl
  | succ l ih =>
    unfold Format.lookup Format.lastTable
    rw [entry_write_above bottom sLevel]
    cases found : fmt.entry mem (l + 1) s a with
    | absent => simp
    | leaf other => simp
    | table next => exact ih (layout.below s l a next sLevel found)

theorem lookup_write (layout : Layout fmt mem depth roots level) {t : T} {i : I} {e : E}
    {place : A → P} (bottom : level t = some 0) (leaf : fmt.decode 0 e = .leaf place) {l : Nat}
    {s : T} (sLevel : level s = some l) (a : A) :
    fmt.lookup (write mem t i e) l s a =
      if fmt.lastTable mem l s a = some t ∧ fmt.index 0 a = i then some (place a)
      else fmt.lookup mem l s a := by
  rw [layout.lookup_write_bottom bottom sLevel, leaf]
  rfl

/-! ### A leaf above the bottom -/

/-- A written leaf enters no table. -/
theorem entry_write_flat {k l : Nat} {t s next : T} {i : I} {e : E} {a : A}
    (tLevel : level t = some k) (flat : ∀ next, fmt.decode k e ≠ .table next)
    (sLevel : level s = some l) (found : fmt.entry (write mem t i e) l s a = .table next) :
    fmt.entry mem l s a = .table next := by
  rw [entry_write] at found
  split_ifs at found with hit
  · obtain ⟨rfl, -⟩ := hit
    obtain rfl := Option.some.inj (tLevel.symm.trans sLevel)
    exact absurd found (flat next)
  · exact found

theorem write_flat (layout : Layout fmt mem depth roots level) {k : Nat} {t : T} {i : I} {e : E}
    (tLevel : level t = some k) (flat : ∀ next, fmt.decode k e ≠ .table next) :
    Layout fmt (write mem t i e) depth roots level where
  root := layout.root
  below s l a next above found :=
    layout.below s l a next above (entry_write_flat tLevel flat above found)
  top r s a b next rTop sTop rFound sFound :=
    layout.top r s a b next rTop sTop (entry_write_flat tLevel flat rTop rFound)
      (entry_write_flat tLevel flat sTop sFound)
  own r s l a b next low rLevel sLevel rFound sFound :=
    layout.own r s l a b next low rLevel sLevel (entry_write_flat tLevel flat rLevel rFound)
      (entry_write_flat tLevel flat sLevel sFound)

/-- A table of another level than the written one, or another table. -/
theorem entry_write_apart {k l : Nat} {t s : T} {i : I} {e : E} {a : A} (tLevel : level t = some k)
    (sLevel : level s = some l) (apart : l ≠ k ∨ s ≠ t) :
    fmt.entry (write mem t i e) l s a = fmt.entry mem l s a := by
  rw [entry_write, if_neg]
  rintro ⟨rfl, -⟩
  rcases apart with other | other
  · exact other (Option.some.inj (sLevel.symm.trans tLevel))
  · exact other rfl

/-- Walks from below do not come to the written entry. -/
theorem lookup_write_below (layout : Layout fmt mem depth roots level) {k l : Nat} {t s : T} {i : I}
    {e : E} (tLevel : level t = some k) (sLevel : level s = some l) (low : l < k) (a : A) :
    fmt.lookup (write mem t i e) l s a = fmt.lookup mem l s a := by
  induction l generalizing s with
  | zero => rw [Format.lookup, entry_write_apart tLevel sLevel (.inl low.ne), Format.lookup]
  | succ l ih =>
    unfold Format.lookup
    rw [entry_write_apart tLevel sLevel (.inl low.ne)]
    cases found : fmt.entry mem (l + 1) s a with
    | absent => rfl
    | leaf _ => rfl
    | table next =>
      exact ih (layout.below s l a next sLevel found) (by omega)

/-- A leaf written two tables below the root is the place of the addresses that share the
three indices. -/
theorem lookup_write_middle (layout : Layout fmt mem (depth + 2) roots level)
    {r s t : T} {e : E} {b : A} (isRoot : r ∈ roots)
    (first : fmt.entry mem (depth + 3) r b = .table s)
    (second : fmt.entry mem (depth + 2) s b = .table t)
    (flat : ∀ next, fmt.decode (depth + 1) e ≠ .table next) (a : A) :
    fmt.lookup (write mem t (fmt.index (depth + 1) b) e) (depth + 3) r a =
      if fmt.index (depth + 3) a = fmt.index (depth + 3) b ∧
          fmt.index (depth + 2) a = fmt.index (depth + 2) b ∧
            fmt.index (depth + 1) a = fmt.index (depth + 1) b then
        (fmt.decode (depth + 1) e).value a
      else fmt.lookup mem (depth + 3) r a := by
  have rLevel := layout.root r isRoot
  have sLevel := layout.below _ _ _ _ rLevel first
  have tLevel := layout.below _ _ _ _ sLevel second
  -- The walk passes the written table exactly with the two upper indices of `b`.
  cases found : fmt.entry mem (depth + 3) r a with
  | absent | leaf =>
    have kept := (entry_write_apart (i := fmt.index (depth + 1) b) (e := e) tLevel rLevel
      (.inl (by omega))).trans found
    rw [if_neg, Format.lookup, Format.lookup, kept, found]
    rintro ⟨same, -⟩
    rw [entry_congr same, first] at found
    cases found
  | table s' =>
    have sLevel' := layout.below _ _ _ _ rLevel found
    rw [lookup_succ ((entry_write_apart tLevel rLevel (.inl (by omega))).trans found),
      lookup_succ found]
    have upper (same : fmt.index (depth + 3) a = fmt.index (depth + 3) b) : s' = s := by
      rw [entry_congr same, first] at found
      exact (Entry.table.inj found).symm
    cases found' : fmt.entry mem (depth + 2) s' a with
    | absent | leaf =>
      have kept := (entry_write_apart (i := fmt.index (depth + 1) b) (e := e) tLevel sLevel'
        (.inl (by omega))).trans found'
      rw [if_neg, Format.lookup, Format.lookup, kept, found']
      rintro ⟨same, same', -⟩
      rw [upper same, entry_congr same', second] at found'
      cases found'
    | table t' =>
      have tLevel' := layout.below _ _ _ _ sLevel' found'
      rw [lookup_succ ((entry_write_apart tLevel sLevel' (.inl (by omega))).trans found'),
        lookup_succ found']
      by_cases passes : t' = t
      · subst passes
        obtain ⟨rfl, middle⟩ := layout.own _ _ _ _ _ _ (by omega) sLevel' sLevel found' second
        have top := layout.top _ _ _ _ _ rLevel rLevel found first
        by_cases last : fmt.index (depth + 1) a = fmt.index (depth + 1) b
        · have written : fmt.entry (write mem t' (fmt.index (depth + 1) b) e) (depth + 1) t' a =
              fmt.decode (depth + 1) e := entry_write.trans (if_pos ⟨rfl, last⟩)
          rw [if_pos ⟨top, middle, last⟩, lookup_eq_value, written]
          rw [written]
          exact flat
        · have kept : fmt.entry (write mem t' (fmt.index (depth + 1) b) e) (depth + 1) t' a =
              fmt.entry mem (depth + 1) t' a := entry_write.trans (if_neg fun hit => last hit.2)
          rw [if_neg fun same => last same.2.2, Format.lookup, Format.lookup, kept]
          cases below : fmt.entry mem (depth + 1) t' a with
          | absent | leaf => rfl
          | table u =>
            exact layout.lookup_write_below tLevel (layout.below _ _ _ _ tLevel below)
              (by omega) a
      · have kept : fmt.entry (write mem t (fmt.index (depth + 1) b) e) (depth + 1) t' a =
            fmt.entry mem (depth + 1) t' a :=
          entry_write_apart tLevel tLevel' (.inr passes)
        rw [if_neg, Format.lookup, Format.lookup, kept]
        · cases below : fmt.entry mem (depth + 1) t' a with
          | absent | leaf => rfl
          | table u =>
            exact layout.lookup_write_below tLevel (layout.below _ _ _ _ tLevel' below)
              (by omega) a
        · rintro ⟨same, same', -⟩
          rw [upper same, entry_congr same', second] at found'
          exact passes (Entry.table.inj found').symm

end Write

/-! ## A fresh table -/

section Link

variable [DecidableEq T] [DecidableEq I]

/-- The memory after `fresh` is filled and entered in place of one entry. -/
def linked (mem : T → I → E) (t : T) (i : I) (e : E) (fresh : T) (content : I → E) : T → I → E :=
  write (Function.update mem fresh content) t i e

/-- A fresh table that may replace an entry: nothing enters it, it enters no table,
and it says of every address what the entry says. -/
structure Fits (fmt : Format T I E A P) (mem : T → I → E) (level : T → Option Nat) (t : T) (i : I)
    (e : E) (fresh : T) (content : I → E) (l : Nat) : Prop where
  above : level t = some (l + 1)
  unused : level fresh = none
  enters : fmt.decode (l + 1) e = .table fresh
  flat : ∀ a next, fmt.decode l (content (fmt.index l a)) ≠ .table next
  wasLast : ∀ next, fmt.decode (l + 1) (mem t i) ≠ .table next
  agrees : ∀ a, fmt.index (l + 1) a = i →
    (fmt.decode l (content (fmt.index l a))).value a = (fmt.decode (l + 1) (mem t i)).value a

variable {t fresh : T} {i : I} {e : E} {content : I → E} {l : Nat}

omit [DecidableEq T] [DecidableEq I] in
theorem Fits.relabel {Q : Type y} {place : Nat → E → A → Q}
    (fits : Fits fmt mem level t i e fresh content l)
    (agrees : ∀ a, fmt.index (l + 1) a = i →
      ((fmt.relabel place).decode l (content (fmt.index l a))).value a =
        ((fmt.relabel place).decode (l + 1) (mem t i)).value a) :
    Fits (fmt.relabel place) mem level t i e fresh content l where
  above := fits.above
  unused := fits.unused
  enters := decode_relabel.mpr fits.enters
  flat a next found := fits.flat a next (decode_relabel.mp found)
  wasLast next found := fits.wasLast next (decode_relabel.mp found)
  agrees := agrees

theorem Fits.linked_of_level (fits : Fits fmt mem level t i e fresh content l) {s : T} {k : Nat}
    (sLevel : level s = some k) (j : I) :
    linked mem t i e fresh content s j = if s = t ∧ j = i then e else mem s j := by
  have other : s ≠ fresh := by
    rintro rfl
    simp [fits.unused] at sLevel
  by_cases table : s = t
  · subst table
    by_cases index : j = i <;> simp [linked, write, index, other]
  · simp [linked, write, table, other]

theorem Fits.linked_fresh (fits : Fits fmt mem level t i e fresh content l) (j : I) :
    linked mem t i e fresh content fresh j = content j := by
  have other : fresh ≠ t := by
    rintro rfl
    have above := fits.above
    simp [fits.unused] at above
  simp [linked, write, other]

theorem Fits.entry_of_level (fits : Fits fmt mem level t i e fresh content l) {s : T} {k m : Nat}
    (sLevel : level s = some k) (a : A) :
    fmt.entry (linked mem t i e fresh content) m s a =
      if s = t ∧ fmt.index m a = i then fmt.decode m e else fmt.entry mem m s a := by
  rw [Format.entry, fits.linked_of_level sLevel, Format.entry]
  split_ifs <;> rfl

theorem Fits.entry_new (fits : Fits fmt mem level t i e fresh content l) {a : A}
    (index : fmt.index (l + 1) a = i) :
    fmt.entry (linked mem t i e fresh content) (l + 1) t a = .table fresh := by
  rw [fits.entry_of_level fits.above, if_pos ⟨rfl, index⟩, fits.enters]

theorem Fits.entry_fresh (fits : Fits fmt mem level t i e fresh content l) (m : Nat) (a : A) :
    fmt.entry (linked mem t i e fresh content) m fresh a =
      fmt.decode m (content (fmt.index m a)) := by
  rw [Format.entry, fits.linked_fresh]

/-- An entry that was a table is not the one replaced. -/
theorem Fits.table_stays (fits : Fits fmt mem level t i e fresh content l) {s next : T} {k : Nat}
    {a : A} (sLevel : level s = some (k + 1)) (found : fmt.entry mem (k + 1) s a = .table next) :
    fmt.entry (linked mem t i e fresh content) (k + 1) s a = .table next := by
  rw [fits.entry_of_level sLevel, if_neg]
  · exact found
  · rintro ⟨rfl, index⟩
    obtain rfl : l = k := by
      have above := fits.above
      simp only [sLevel, Option.some.injEq] at above
      omega
    rw [Format.entry, index] at found
    exact fits.wasLast next found

/-- No place changes. -/
theorem lookup_link (layout : Layout fmt mem depth roots level)
    (fits : Fits fmt mem level t i e fresh content l) {s : T} {k : Nat}
    (sLevel : level s = some k) (a : A) :
    fmt.lookup (linked mem t i e fresh content) k s a = fmt.lookup mem k s a := by
  induction k generalizing s with
  | zero =>
    have other : s ≠ t := by
      rintro rfl
      have above := fits.above
      simp [sLevel] at above
    rw [Format.lookup, Format.lookup, fits.entry_of_level sLevel]
    simp [other]
  | succ k ih =>
    by_cases replaced : s = t ∧ fmt.index (k + 1) a = i
    · obtain ⟨rfl, index⟩ := replaced
      obtain rfl : k = l := by
        have above := fits.above
        simp only [sLevel, Option.some.injEq] at above
        omega
      have enters : fmt.entry (linked mem s i e fresh content) (k + 1) s a = .table fresh := by
        rw [fits.entry_of_level sLevel, if_pos ⟨rfl, index⟩, fits.enters]
      have was : fmt.entry mem (k + 1) s a = fmt.decode (k + 1) (mem s i) := by
        rw [Format.entry, index]
      calc fmt.lookup (linked mem s i e fresh content) (k + 1) s a
          = fmt.lookup (linked mem s i e fresh content) k fresh a := lookup_succ enters
        _ = (fmt.decode k (content (fmt.index k a))).value a := by
            rw [lookup_eq_value] <;> rw [fits.entry_fresh]
            exact fits.flat a
        _ = (fmt.decode (k + 1) (mem s i)).value a := fits.agrees a index
        _ = fmt.lookup mem (k + 1) s a := by
            rw [lookup_eq_value] <;> rw [was]
            exact fits.wasLast
    · unfold Format.lookup
      rw [fits.entry_of_level sLevel, if_neg replaced]
      cases found : fmt.entry mem (k + 1) s a with
      | absent => rfl
      | leaf place => rfl
      | table next => exact ih (layout.below s k a next sLevel found)

/-- The fresh table has its level. -/
def withFresh (level : T → Option Nat) (fresh : T) (l : Nat) : T → Option Nat :=
  Function.update level fresh (some l)

omit [DecidableEq I] in
theorem withFresh_of_level (fits : Fits fmt mem level t i e fresh content l) {s : T} {k : Nat}
    (sLevel : level s = some k) : withFresh level fresh l s = some k := by
  have other : s ≠ fresh := by
    rintro rfl
    simp [fits.unused] at sLevel
  simp [withFresh, other, sLevel]

/-- A table is entered by the new entry, or by an entry that was there. -/
theorem entered (layout : Layout fmt mem depth roots level)
    (fits : Fits fmt mem level t i e fresh content l) {s next : T} {k : Nat} {a : A}
    (sLevel : withFresh level fresh l s = some (k + 1))
    (found : fmt.entry (linked mem t i e fresh content) (k + 1) s a = .table next) :
    (s = t ∧ fmt.index (k + 1) a = i ∧ k = l ∧ next = fresh) ∨
      (level s = some (k + 1) ∧ fmt.entry mem (k + 1) s a = .table next ∧ next ≠ fresh) := by
  by_cases new : s = fresh
  · subst new
    obtain rfl : l = k + 1 := by simpa [withFresh] using sLevel
    rw [fits.entry_fresh] at found
    exact absurd found (fits.flat a next)
  · have old : level s = some (k + 1) := by simpa [withFresh, new] using sLevel
    rw [fits.entry_of_level old] at found
    split_ifs at found with replaced
    · obtain ⟨rfl, index⟩ := replaced
      obtain rfl : k = l := by
        have above := fits.above
        simp only [old, Option.some.injEq] at above
        omega
      rw [fits.enters] at found
      exact .inl ⟨rfl, index, rfl, (Entry.table.inj found).symm⟩
    · refine .inr ⟨old, found, ?_⟩
      rintro rfl
      simpa [fits.unused] using layout.below s k a next old found

theorem link (layout : Layout fmt mem depth roots level)
    (fits : Fits fmt mem level t i e fresh content l) :
    Layout fmt (linked mem t i e fresh content) depth roots (withFresh level fresh l) where
  root := fun r isRoot => withFresh_of_level fits (layout.root r isRoot)
  below := by
    intro s k a next sLevel found
    rcases layout.entered fits sLevel found with ⟨-, -, rfl, rfl⟩ | ⟨old, found, -⟩
    · simp [withFresh]
    · exact withFresh_of_level fits (layout.below s k a next old found)
  top := by
    intro r s a b next rTop sTop rFound sFound
    rcases layout.entered fits rTop rFound with ⟨rfl, rIndex, -, rfl⟩ | ⟨rOld, rFound, rOther⟩
    · rcases layout.entered fits sTop sFound with ⟨rfl, sIndex, -, -⟩ | ⟨-, -, sOther⟩
      · rw [rIndex, sIndex]
      · exact absurd rfl sOther
    · rcases layout.entered fits sTop sFound with ⟨-, -, -, rfl⟩ | ⟨sOld, sFound, -⟩
      · exact absurd rfl rOther
      · exact layout.top r s a b next rOld sOld rFound sFound
  own := by
    intro r s k a b next low rLevel sLevel rFound sFound
    rcases layout.entered fits rLevel rFound with ⟨rfl, rIndex, -, rfl⟩ | ⟨rOld, rFound, rOther⟩
    · rcases layout.entered fits sLevel sFound with ⟨rfl, sIndex, -, -⟩ | ⟨-, -, sOther⟩
      · exact ⟨rfl, by rw [rIndex, sIndex]⟩
      · exact absurd rfl sOther
    · rcases layout.entered fits sLevel sFound with ⟨-, -, -, rfl⟩ | ⟨sOld, sFound, -⟩
      · exact absurd rfl rOther
      · exact layout.own r s k a b next low rOld sOld rFound sFound

theorem meet_link (layout : Layout fmt mem depth roots level)
    (fits : Fits fmt mem level t i e fresh content l) {r s : T} {a : A} (rootR : r ∈ roots)
    (rootS : s ∈ roots) :
    fmt.Meet (linked mem t i e fresh content) (depth + 1) r s a ↔
      fmt.Meet mem (depth + 1) r s a := by
  have rLevel := layout.root r rootR
  have sLevel := layout.root s rootS
  constructor
  · rintro (rfl | ⟨next, rFound, sFound⟩)
    · exact .inl rfl
    · rcases layout.entered fits (withFresh_of_level fits rLevel) rFound with
        ⟨rfl, -, -, rfl⟩ | ⟨-, rFound, rOther⟩
      · rcases layout.entered fits (withFresh_of_level fits sLevel) sFound with
          ⟨rfl, -, -, -⟩ | ⟨-, -, sOther⟩
        · exact .inl rfl
        · exact absurd rfl sOther
      · rcases layout.entered fits (withFresh_of_level fits sLevel) sFound with
          ⟨-, -, -, rfl⟩ | ⟨-, sFound, -⟩
        · exact absurd rfl rOther
        · exact .inr ⟨next, rFound, sFound⟩
  · rintro (rfl | ⟨next, rFound, sFound⟩)
    · exact .inl rfl
    · exact .inr ⟨next, fits.table_stays rLevel rFound, fits.table_stays sLevel sFound⟩

end Link

end Layout

end DBSos.Radix
