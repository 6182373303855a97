import DBSos.Lib.Radix

/-!
# The tables that walks lack

A walk that ends above level 0 lacks the tables below its end. A fresh table in its way
takes one of them from it, and from the walks that share its indices above, so that a
table is counted once for all the addresses that need it (`tablesFor`).
-/

namespace DBSos.Radix

universe u v w x y

variable {T : Type u} {I : Type v} {E : Type w} {A : Type x} {P : Type y}

section Definitions

variable (fmt : Format T I E A P)

/-- The number of tables missing on the walk for an address. -/
def Format.lacks (mem : T → I → E) : Nat → T → A → Nat
  | 0, _, _ => 0
  | level + 1, t, a =>
    match fmt.entry mem (level + 1) t a with
    | .table next => lacks mem level next a
    | _ => level + 1

/-- The highest level, from 1 up, at which two addresses have different indices, or 0. -/
def Format.parting [DecidableEq I] : Nat → A → A → Nat
  | 0, _, _ => 0
  | level + 1, a, b =>
    if fmt.index (level + 1) a = fmt.index (level + 1) b then parting level a b else level + 1

/-- What the walks lack once the walk for `a` is complete. -/
def Format.completed [DecidableEq I] (level : Nat) (lacking : A → Nat) (a b : A) : Nat :=
  min (lacking b) (fmt.parting level b a)

/-- The tables that complete the walks for all of these addresses, where `lacking` says what
each of them lacks alone. -/
def Format.tablesFor [DecidableEq I] (level : Nat) : (A → Nat) → List A → Nat
  | _, [] => 0
  | lacking, a :: rest => lacking a + tablesFor level (fmt.completed level lacking a) rest

/-- The walk for an address, from a table of one level, passes a table of another. -/
inductive Format.Passes (mem : T → I → E) (a : A) : Nat → T → Nat → T → Prop where
  | here (level : Nat) (t : T) : Passes mem a level t level t
  | enters {level k : Nat} {t next s : T} (found : fmt.entry mem (level + 1) t a = .table next)
      (rest : Passes mem a level next k s) : Passes mem a (level + 1) t k s

end Definitions

variable {fmt : Format T I E A P} {mem mem' : T → I → E} {depth level k : Nat}
  {roots : Set T} {levels : T → Option Nat} {r s t : T} {a b : A}

/-! ## Walks -/

theorem Format.Passes.le (passes : fmt.Passes mem a level t k s) : k ≤ level := by
  induction passes with
  | here => exact le_rfl
  | enters _ _ ih => omega

theorem Format.Passes.snoc {next : T} (passes : fmt.Passes mem a level t (k + 1) s)
    (found : fmt.entry mem (k + 1) s a = .table next) : fmt.Passes mem a level t k next := by
  generalize same : k + 1 = j at passes
  induction passes with
  | here => exact same ▸ .enters (same ▸ found) (.here _ _)
  | enters first _ ih =>
    exact .enters first (ih (same ▸ found) same)

/-- A walk is determined by the indices that it has used. -/
theorem Format.Passes.congr (passes : fmt.Passes mem a level t k s)
    (indices : ∀ j, k < j → j ≤ level → fmt.index j b = fmt.index j a) :
    fmt.Passes mem b level t k s := by
  induction passes with
  | here => exact .here _ _
  | enters found rest ih =>
    have bound := rest.le
    refine .enters ?_ (ih fun j above inside => indices j above (by omega))
    rwa [entry_congr (indices _ (by omega) le_rfl)]

theorem Format.Passes.level_eq (layout : Layout fmt mem depth roots levels)
    (passes : fmt.Passes mem a level t k s) (tLevel : levels t = some level) :
    levels s = some k := by
  induction passes with
  | here => exact tLevel
  | enters found _ ih =>
    exact ih (layout.below _ _ _ _ tLevel found)

/-- Walks from one level below the roots that pass one table have had the same indices. -/
theorem Format.Passes.same_below {t' : T} (layout : Layout fmt mem depth roots levels)
    (passes : fmt.Passes mem a level t k s) (passes' : fmt.Passes mem b level t' k s)
    (low : level ≤ depth) (tLevel : levels t = some level) (tLevel' : levels t' = some level) :
    t = t' ∧ ∀ j, k < j → j ≤ level → fmt.index j a = fmt.index j b := by
  induction passes generalizing t' with
  | here =>
    cases passes' with
    | here => exact ⟨rfl, fun j above inside => by omega⟩
    | enters _ rest => exact absurd rest.le (by omega)
  | enters found rest ih =>
    cases passes' with
    | here => exact absurd rest.le (by omega)
    | enters found' rest' =>
      obtain ⟨rfl, indices⟩ := ih rest' (by omega)
        (layout.below _ _ _ _ tLevel found) (layout.below _ _ _ _ tLevel' found')
      obtain ⟨rfl, index⟩ := layout.own _ _ _ _ _ _ (by omega) tLevel tLevel' found found'
      refine ⟨rfl, fun j above inside => ?_⟩
      rcases Nat.lt_or_ge j _ with lower | top
      · exact indices j above (Nat.le_of_lt_succ lower)
      · obtain rfl := Nat.le_antisymm inside top
        exact index

/-- The same for walks from one root. -/
theorem Format.Passes.same (layout : Layout fmt mem depth roots levels) (isRoot : r ∈ roots)
    (passes : fmt.Passes mem a (depth + 1) r k s) (passes' : fmt.Passes mem b (depth + 1) r k s) :
    ∀ j, k < j → j ≤ depth + 1 → fmt.index j a = fmt.index j b := by
  have rLevel := layout.root r isRoot
  cases passes with
  | here => exact fun j above inside => by omega
  | enters found rest =>
    cases passes' with
    | here => exact absurd rest.le (by omega)
    | enters found' rest' =>
      obtain ⟨rfl, indices⟩ := rest.same_below layout rest' le_rfl
        (layout.below _ _ _ _ rLevel found) (layout.below _ _ _ _ rLevel found')
      intro j above inside
      rcases Nat.lt_or_ge j (depth + 1) with lower | top
      · exact indices j above (Nat.le_of_lt_succ lower)
      · obtain rfl := Nat.le_antisymm inside top
        exact layout.top _ _ _ _ _ rLevel rLevel found found'

/-! ## What they lack -/

theorem lacks_le : fmt.lacks mem level t a ≤ level := by
  induction level generalizing t with
  | zero => exact le_rfl
  | succ level ih =>
    unfold Format.lacks
    split
    · exact ih.trans (Nat.le_succ _)
    · exact le_rfl

theorem lacks_of_entry (last : ∀ next, fmt.entry mem level t a ≠ .table next) :
    fmt.lacks mem level t a = level := by
  cases level with
  | zero => rfl
  | succ level =>
    unfold Format.lacks
    split
    · exact absurd ‹_› (last _)
    · rfl

theorem Format.Passes.lacks_eq (passes : fmt.Passes mem a level t k s) :
    fmt.lacks mem level t a = fmt.lacks mem k s a := by
  induction passes with
  | here => rfl
  | enters found _ ih =>
    rw [Format.lacks, found]
    exact ih

theorem Format.Passes.lastTable (passes : fmt.Passes mem a level t 0 s) :
    fmt.lastTable mem level t a = some s := by
  generalize bottom : 0 = k at passes
  induction passes with
  | here => exact bottom ▸ rfl
  | enters found _ ih =>
    exact (lastTable_succ found).trans (ih bottom)

/-- The place of an address is the one from any table on its walk. -/
theorem Format.Passes.lookup_relabel {Q : Type y} (passes : fmt.Passes mem a level t k s)
    (place : Nat → E → A → Q) :
    (fmt.relabel place).lookup mem level t a = (fmt.relabel place).lookup mem k s a := by
  induction passes with
  | here => rfl
  | enters found _ ih =>
    exact (lookup_succ (entry_relabel.mpr found)).trans ih

section Parting

variable [DecidableEq I]

theorem parting_self : fmt.parting level a a = 0 := by
  induction level with
  | zero => rfl
  | succ level ih => rw [Format.parting, if_pos rfl, ih]

theorem parting_comm : fmt.parting level a b = fmt.parting level b a := by
  induction level with
  | zero => rfl
  | succ level ih =>
    rw [Format.parting, Format.parting, ih]
    exact if_congr eq_comm rfl rfl

theorem parting_le_iff :
    fmt.parting level a b ≤ k ↔ ∀ j, k < j → j ≤ level → fmt.index j a = fmt.index j b := by
  induction level with
  | zero => exact iff_of_true (Nat.zero_le k) fun j above inside => by omega
  | succ level ih =>
    unfold Format.parting
    split_ifs with same
    · rw [ih]
      constructor
      · intro indices j above inside
        rcases Nat.lt_or_ge j (level + 1) with lower | top
        · exact indices j above (Nat.le_of_lt_succ lower)
        · obtain rfl := Nat.le_antisymm inside top
          exact same
      · exact fun indices j above inside => indices j above (Nat.le_succ_of_le inside)
    · constructor
      · exact fun low j above inside => by omega
      · intro indices
        by_contra high
        exact same (indices (level + 1) (by omega) le_rfl)

/-- Walks that part below the end of one end where it does. -/
theorem lacks_le_max :
    fmt.lacks mem level t b ≤ max (fmt.lacks mem level t a) (fmt.parting level b a) := by
  induction level generalizing t with
  | zero => exact Nat.zero_le _
  | succ level ih =>
    by_cases same : fmt.index (level + 1) b = fmt.index (level + 1) a
    · unfold Format.lacks Format.parting
      rw [if_pos same, entry_congr same]
      split
      · exact ih
      · exact le_max_left _ _
    · rw [Format.parting, if_neg same]
      exact lacks_le.trans (le_max_right _ _)

end Parting

/-! ## A leaf, a page of its own, a fresh table -/

namespace Layout

/-- Memory that is no table does not count. -/
theorem congr_tables (layout : Layout fmt mem depth roots levels)
    (same : ∀ t l, levels t = some l → mem' t = mem t) : Layout fmt mem' depth roots levels := by
  have entry {l m : Nat} {t : T} {a : A} (known : levels t = some l) :
      fmt.entry mem' m t a = fmt.entry mem m t a := by
    rw [Format.entry, same t l known, Format.entry]
  refine ⟨layout.root, ?_, ?_, ?_⟩
  · intro t l a next known found
    exact layout.below t l a next known ((entry known).symm.trans found)
  · intro t s a b next tTop sTop tFound sFound
    exact layout.top t s a b next tTop sTop ((entry tTop).symm.trans tFound)
      ((entry sTop).symm.trans sFound)
  · intro t s l a b next low tLevel sLevel tFound sFound
    exact layout.own t s l a b next low tLevel sLevel ((entry tLevel).symm.trans tFound)
      ((entry sLevel).symm.trans sFound)

theorem lookup_congr_tables (layout : Layout fmt mem depth roots levels)
    (same : ∀ t l, levels t = some l → mem' t = mem t) (tLevel : levels t = some level) :
    fmt.lookup mem' level t a = fmt.lookup mem level t a := by
  induction level generalizing t with
  | zero => rw [Format.lookup, Format.lookup, Format.entry, Format.entry, same t 0 tLevel]
  | succ level ih =>
    unfold Format.lookup
    rw [Format.entry, same t _ tLevel, ← Format.entry]
    cases found : fmt.entry mem (level + 1) t a with
    | absent | leaf => rfl
    | table next => exact ih (layout.below t level a next tLevel found)

theorem lacks_congr_tables (layout : Layout fmt mem depth roots levels)
    (same : ∀ t l, levels t = some l → mem' t = mem t) (tLevel : levels t = some level) :
    fmt.lacks mem' level t a = fmt.lacks mem level t a := by
  induction level generalizing t with
  | zero => rfl
  | succ level ih =>
    unfold Format.lacks
    rw [Format.entry, same t _ tLevel, ← Format.entry]
    cases found : fmt.entry mem (level + 1) t a with
    | absent | leaf => rfl
    | table next => exact ih (layout.below t level a next tLevel found)

variable [DecidableEq T] [DecidableEq I]

theorem lacks_write {t : T} {i : I} {e : E} (layout : Layout fmt mem depth roots levels)
    (bottom : levels t = some 0) (sLevel : levels s = some level) :
    fmt.lacks (write mem t i e) level s a = fmt.lacks mem level s a := by
  induction level generalizing s with
  | zero => rfl
  | succ level ih =>
    unfold Format.lacks
    rw [entry_write_above bottom sLevel]
    cases found : fmt.entry mem (level + 1) s a with
    | absent | leaf => rfl
    | table next => exact ih (layout.below s level a next sLevel found)

variable {fresh : T} {i : I} {e : E} {content : I → E} {l : Nat}

/-- A fresh table is in the way of no walk. -/
theorem Fits.passes_linked (fits : Fits fmt mem levels t i e fresh content l)
    (layout : Layout fmt mem depth roots levels) {x : T} (passes : fmt.Passes mem a level s k x)
    (sLevel : levels s = some level) :
    fmt.Passes (linked mem t i e fresh content) a level s k x := by
  induction passes with
  | here => exact .here _ _
  | enters found _ ih =>
    exact .enters (fits.table_stays sLevel found)
      (ih (layout.below _ _ _ _ sLevel found))

/-- The walks through a replaced entry end at the fresh table. -/
theorem Fits.lacks_through (fits : Fits fmt mem levels t i e fresh content l)
    (layout : Layout fmt mem depth roots levels) (passes : fmt.Passes mem a level s (l + 1) t)
    (sLevel : levels s = some level) (index : fmt.index (l + 1) a = i) :
    fmt.lacks (linked mem t i e fresh content) level s a = l := by
  generalize top : l + 1 = k at passes
  induction passes with
  | here =>
    subst top
    rw [Format.lacks, fits.entry_new index]
    exact lacks_of_entry fun next found => fits.flat a next (by rwa [fits.entry_fresh] at found)
  | enters found _ ih =>
    rw [Format.lacks, fits.table_stays sLevel found]
    exact ih fits (layout.below _ _ _ _ sLevel found) top

/-- The other walks do not change. -/
theorem Fits.lacks_apart (fits : Fits fmt mem levels t i e fresh content l)
    (layout : Layout fmt mem depth roots levels) (sLevel : levels s = some level)
    (apart : ¬ (fmt.Passes mem a level s (l + 1) t ∧ fmt.index (l + 1) a = i)) :
    fmt.lacks (linked mem t i e fresh content) level s a = fmt.lacks mem level s a := by
  induction level generalizing s with
  | zero => rfl
  | succ level ih =>
    have kept : ¬ (s = t ∧ fmt.index (level + 1) a = i) := by
      rintro ⟨rfl, index⟩
      obtain rfl : level = l := by
        have above := fits.above
        simp only [sLevel, Option.some.injEq] at above
        omega
      exact apart ⟨.here _ _, index⟩
    unfold Format.lacks
    rw [fits.entry_of_level sLevel, if_neg kept]
    cases found : fmt.entry mem (level + 1) s a with
    | absent | leaf => rfl
    | table next =>
      exact ih (layout.below s level a next sLevel found)
        fun through => apart ⟨.enters found through.1, through.2⟩

/-- A fresh table on the walk for `a` is one on the walks that part from it below. -/
theorem Fits.lacks_link (fits : Fits fmt mem levels t i e fresh content l)
    (layout : Layout fmt mem depth roots levels) (isRoot : r ∈ roots)
    (passes : fmt.Passes mem a (depth + 1) r (l + 1) t) (index : fmt.index (l + 1) a = i) (b : A) :
    fmt.lacks (linked mem t i e fresh content) (depth + 1) r b =
      if fmt.parting (depth + 1) b a ≤ l then l else fmt.lacks mem (depth + 1) r b := by
  have rLevel := layout.root r isRoot
  have through : fmt.Passes mem b (depth + 1) r (l + 1) t ∧ fmt.index (l + 1) b = i ↔
      fmt.parting (depth + 1) b a ≤ l := by
    rw [parting_le_iff]
    constructor
    · rintro ⟨passesB, indexB⟩ j above inside
      rcases Nat.lt_or_ge (l + 1) j with higher | here
      · exact passesB.same layout isRoot passes j higher inside
      · obtain rfl : j = l + 1 := by omega
        rw [indexB, index]
    · intro indices
      refine ⟨passes.congr fun j above inside => indices j (by omega) inside, ?_⟩
      rw [indices (l + 1) (by omega) passes.le, index]
  split_ifs with near
  · obtain ⟨passesB, indexB⟩ := through.mpr near
    exact fits.lacks_through layout passesB rLevel indexB
  · exact fits.lacks_apart layout rLevel fun passesB => near (through.mp passesB)

end Layout

end DBSos.Radix
