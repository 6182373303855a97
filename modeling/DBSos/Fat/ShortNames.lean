import DBSos.Fat.Name

/-!
# Names that match and names that are stored

`name_match` compares eight bytes of the base and three of the extension and never looks
at what is left of the name; `name_to_83` refuses a name with something left. A name
that creation refuses is thus found under what remains of it when it is clipped.
-/

namespace DBSos.Fat

open DBSos.Vfs (Path ascii)

variable {e : List UInt8} {u text : Path} {start count : Nat}

/-- A field whose text is followed by blanks only. -/
def SpacePadded (field : List UInt8) : Prop :=
  0 ∉ field ∧ ∀ c ∈ field.dropWhile (· != blank), c = blank

instance (field : List UInt8) : Decidable (SpacePadded field) :=
  inferInstanceAs (Decidable (_ ∧ _))

/-- The eleven bytes of a short name. -/
structure ShortEntry (e : List UInt8) : Prop where
  length : e.length = 11
  base : SpacePadded (e.take 8)
  ext : SpacePadded (e.drop 8)

/-- A name that creation does not refuse: at most eight bytes without a dot, or one to
eight bytes in front of the first dot and one to three behind it. -/
def StorableAt (u : Path) : Option Nat → Prop
  | none => u.length ≤ 8
  | some d => 0 < d ∧ d ≤ 8 ∧ u.drop (d + 1) ≠ [] ∧ (u.drop (d + 1)).length ≤ 3

def Storable (u : Path) : Prop := StorableAt u (dotPosition u)

instance (u : Path) : (position : Option Nat) → Decidable (StorableAt u position)
  | none => inferInstanceAs (Decidable (_ ≤ _))
  | some _ => inferInstanceAs (Decidable (_ ∧ _ ∧ _ ∧ _))

instance (u : Path) : Decidable (Storable u) := inferInstanceAs (Decidable (StorableAt u _))

/-- What the comparison loops look at of a name. -/
def clipped (u : Path) : List UInt8 :=
  match dotPosition u with
  | none => padded 8 (u.take 8) ++ padded 3 []
  | some d => padded 8 ((u.take d).take 8) ++ padded 3 ((u.drop (d + 1)).take 3)

/-! ## Fields -/

theorem length_padded (short : text.length ≤ count) : (padded count text).length = count := by
  simp only [padded, List.length_append, List.length_map, List.length_replicate]
  omega

theorem getElem?_padded (count : Nat) (text : Path) {i : Nat} (inside : i < count) :
    (padded count (text.take count))[i]? =
      some (if i < text.length then upper (text.getD i 0) else blank) := by
  unfold padded
  by_cases here : i < text.length
  · rw [if_pos here, List.getElem?_append_left (by simp only [List.length_map, List.length_take]; omega),
      List.getElem?_map, List.getElem?_take_of_lt inside, List.getElem?_eq_getElem here]
    simp [here]
  · have behind : text.length ≤ i := Nat.le_of_not_lt here
    rw [if_neg here, List.getElem?_append_right (by simp only [List.length_map, List.length_take]; omega),
      List.getElem?_replicate_of_lt (by simp only [List.length_map, List.length_take]; omega)]

/-- A comparison loop compares a field with the clipped and padded text. -/
theorem fieldMatch_iff (fits : start + count ≤ e.length) :
    fieldMatch (e.getD · 0) start count text = true ↔
      (e.drop start).take count = padded count (text.take count) := by
  have width : ((e.drop start).take count).length = count := by
    simp only [List.length_take, List.length_drop]
    omega
  unfold fieldMatch
  rw [List.all_eq_true]
  constructor
  · intro same
    refine List.ext_getElem? fun i => ?_
    by_cases inside : i < count
    · have here := beq_iff_eq.mp (same i (List.mem_range.mpr inside))
      have bound : start + i < e.length := by omega
      rw [getElem?_padded count text inside, ← here, List.getElem?_take_of_lt inside,
        List.getElem?_drop, List.getElem?_eq_getElem bound]
      simp [bound]
    · have short : (padded count (text.take count)).length = count :=
        length_padded (by simp only [List.length_take]; omega)
      rw [List.getElem?_eq_none (by omega), List.getElem?_eq_none (by omega)]
  · intro same i member
    have inside := List.mem_range.mp member
    have bound : start + i < e.length := by omega
    have here := congrArg (·[i]?) same
    simp only [getElem?_padded count text inside, List.getElem?_take_of_lt inside,
      List.getElem?_drop, List.getElem?_eq_getElem bound, Option.some.injEq] at here
    rw [beq_iff_eq, ← here]
    simp [bound]

/-- A space-padded field that starts with a blank is blank. -/
theorem SpacePadded.eq_replicate {field : List UInt8} (padded : SpacePadded field)
    (first : field.head? = some blank) : field = List.replicate field.length blank := by
  obtain ⟨rest, rfl⟩ := List.head?_eq_some_iff.mp first
  exact List.eq_replicate_length.mpr padded.2

/-! ## Whole names -/

theorem storable_length (named : u ≠ []) (storable : Storable u) : ¬ (u = [] ∨ 12 < u.length) := by
  unfold Storable at storable
  cases position : dotPosition u with
  | none =>
    rw [position, StorableAt] at storable
    exact not_or.mpr ⟨named, by omega⟩
  | some d =>
    rw [position, StorableAt, List.length_drop] at storable
    exact not_or.mpr ⟨named, by omega⟩

theorem nameTo83_of_storable (named : u ≠ []) (storable : Storable u) :
    nameTo83 u = some (clipped u) := by
  rw [nameTo83, if_neg (storable_length named storable)]
  unfold Storable at storable
  unfold clipped
  cases position : dotPosition u with
  | none =>
    rw [position, StorableAt] at storable
    simp only [if_neg (Nat.not_lt.mpr storable), List.take_of_length_le storable]
  | some d =>
    rw [position] at storable
    obtain ⟨low, high, some, short⟩ := storable
    have base : (u.take d).length ≤ 8 := by
      rw [List.length_take]
      omega
    simp only
    rw [if_neg (by omega), if_neg (not_or.mpr ⟨some, by omega⟩), List.take_of_length_le base,
      List.take_of_length_le short]

theorem nameTo83_of_not_storable (refused : ¬ Storable u) : nameTo83 u = none := by
  unfold Storable at refused
  rw [nameTo83]
  by_cases long : u = [] ∨ 12 < u.length
  · rw [if_pos long]
  rw [if_neg long]
  cases position : dotPosition u with
  | none =>
    rw [position, StorableAt] at refused
    exact if_pos (Nat.lt_of_not_le refused)
  | some d =>
    rw [position] at refused
    simp only
    split_ifs with base ext
    · rfl
    · rfl
    · exact absurd ⟨by omega, by omega, fun none => ext (.inl none), by omega⟩ refused

/-- `name_match` compares the entry with the clipped name. -/
theorem nameMatch_iff (entry : ShortEntry e) : nameMatch (e.getD · 0) u = true ↔ e = clipped u := by
  have split := List.take_append_drop 8 e
  have length := entry.length
  have extWidth : (e.drop 8).length = 3 := by
    rw [List.length_drop, length]
  have both : ∀ base ext, base.length = 8 →
      (e = base ++ ext ↔ e.take 8 = base ∧ e.drop 8 = ext) := by
    intro base ext width
    constructor
    · rintro rfl
      exact ⟨List.take_left' width, List.drop_left' width⟩
    · rintro ⟨rfl, rfl⟩
      exact split.symm
  have whole : (e.drop 8).take 3 = e.drop 8 := List.take_of_length_le extWidth.le
  unfold nameMatch clipped
  cases dotPosition u with
  | none =>
    have ext : ((e.getD 8 0 == blank || e.getD 8 0 == 0) = true) ↔ e.drop 8 = padded 3 [] := by
      have first : e[8]? = some (e.getD 8 0) := by
        rw [List.getElem?_eq_getElem (by omega)]
        simp [length]
      have nonzero : e.getD 8 0 ≠ 0 := by
        intro zero
        refine entry.ext.1 (List.mem_of_getElem? (i := 0) ?_)
        rw [List.getElem?_drop, first, zero]
      rw [Bool.or_eq_true, beq_iff_eq, beq_iff_eq, or_iff_left nonzero]
      constructor
      · intro starts
        have head : (e.drop 8).head? = some blank := by
          rw [List.head?_drop, first, starts]
        rw [entry.ext.eq_replicate head, extWidth]
        rfl
      · intro blanks
        have head := congrArg List.head? blanks
        rw [List.head?_drop, first] at head
        exact Option.some.inj head
    rw [Bool.and_eq_true, fieldMatch_iff (by omega), List.drop_zero, ext]
    exact (both _ _ (length_padded (List.length_take_le 8 u))).symm
  | some d =>
    rw [Bool.and_eq_true, fieldMatch_iff (by omega), fieldMatch_iff (by omega), List.drop_zero, whole]
    exact (both _ _ (length_padded (List.length_take_le 8 _))).symm

/-- A lookup and a creation agree about an entry and a name exactly when the name can be
stored, or the entry is not what is left of the name. -/
theorem nameMatch_agrees_iff (entry : ShortEntry e) (named : u ≠ []) :
    (nameMatch (e.getD · 0) u = true ↔ nameTo83 u = some e) ↔ Storable u ∨ e ≠ clipped u := by
  rw [nameMatch_iff entry]
  by_cases storable : Storable u
  · rw [nameTo83_of_storable named storable, Option.some.injEq]
    exact iff_of_true eq_comm (.inl storable)
  · rw [nameTo83_of_not_storable storable, or_iff_right storable]
    simp

/-- `readme.md`, under the entry that it is stored in. -/
theorem nameMatch_readme :
    let e := ascii ['R', 'E', 'A', 'D', 'M', 'E', ' ', ' ', 'M', 'D', ' ']
    let u := ascii ['r', 'e', 'a', 'd', 'm', 'e', '.', 'm', 'd']
    nameMatch (e.getD · 0) u = true ↔ nameTo83 u = some e :=
  (nameMatch_agrees_iff ⟨by decide, by decide +kernel, by decide +kernel⟩ (by decide)).mpr
    (.inl (by decide))

/-- Nine letters match the entry of the first eight, and cannot be stored. -/
theorem nameMatch_nine :
    let e := List.replicate 8 (0x41 : UInt8) ++ List.replicate 3 blank
    let u : Path := List.replicate 9 0x41
    ShortEntry e ∧ u ≠ [] ∧ nameMatch (e.getD · 0) u = true ∧ nameTo83 u = none :=
  ⟨⟨by decide, by decide +kernel, by decide +kernel⟩, by decide, by decide, by decide⟩

end DBSos.Fat
