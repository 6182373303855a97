import Mathlib.Tactic.Ring

/-!
# Fields of a record

Parts of a list are read and overwritten by their positions, and there is no answer when the
positions do not exist. A number stands in a field as text: its digits fill the field from the
right, and what does not fit is left over.
-/

namespace DBSos.Lib

variable {α : Type*} {s s' old new left mid right : List α} {lo hi off : Nat}

/-- The part of a list between two positions. -/
def part (s : List α) (lo hi : Nat) : Option (List α) :=
  if lo ≤ hi ∧ hi ≤ s.length then some ((s.take hi).drop lo) else none

/-- The list with the part from a position on overwritten. -/
def overwrite (off : Nat) (new s : List α) : Option (List α) :=
  if off + new.length ≤ s.length then some (s.take off ++ new ++ s.drop (off + new.length))
  else none

theorem part_of_le (ordered : lo ≤ hi) (inside : hi ≤ s.length) :
    part s lo hi = some ((s.take hi).drop lo) := if_pos ⟨ordered, inside⟩

theorem length_of_part (parted : part s lo hi = some mid) : mid.length = hi - lo := by
  unfold part at parted
  split at parted
  case isFalse => cases parted
  case isTrue bounds =>
    cases parted
    simp [Nat.min_eq_left bounds.2]

theorem part_append (starts : lo = left.length) (ends : hi = left.length + mid.length) :
    part (left ++ (mid ++ right)) lo hi = some mid := by
  subst starts ends
  rw [part_of_le (Nat.le_add_right _ _) (by simp), ← List.append_assoc, ← List.length_append,
    List.take_left, List.drop_left]

theorem overwrite_append (starts : off = left.length) (fits : old.length = new.length) :
    overwrite off new (left ++ (old ++ right)) = some (left ++ (new ++ right)) := by
  subst starts
  have inside : left.length + new.length ≤ (left ++ (old ++ right)).length := by
    simp only [List.length_append]
    omega
  have behind : (left ++ (old ++ right)).drop (left.length + new.length) = right := by
    rw [← fits, ← List.length_append, ← List.append_assoc, List.drop_left]
  rw [overwrite, if_pos inside, List.take_left, behind, List.append_assoc]

theorem overwrite_cases (written : overwrite off new s = some s') :
    off + new.length ≤ s.length ∧ s' = s.take off ++ new ++ s.drop (off + new.length) := by
  unfold overwrite at written
  split at written
  case isFalse => cases written
  case isTrue inside => exact ⟨inside, (Option.some.inj written).symm⟩

theorem length_of_overwrite (written : overwrite off new s = some s') :
    s'.length = s.length := by
  obtain ⟨inside, rfl⟩ := overwrite_cases written
  simp only [List.length_append, List.length_take, List.length_drop]
  omega

/-- A write inside the list succeeds, and what follows it sees a list as long as before. -/
theorem overwrite_bind_isSome {β : Type*} {next : List α → Option β}
    (inside : off + new.length ≤ s.length)
    (goes : ∀ s', s'.length = s.length → (next s').isSome) :
    ((overwrite off new s).bind next).isSome := by
  have written : overwrite off new s = some _ := if_pos inside
  rw [written]
  exact goes _ (length_of_overwrite written)

/-- Writing behind what the list is known to begin with. -/
theorem overwrite_behind (begins : left <+: s) (written : overwrite off new s = some s')
    (starts : off = left.length) : left ++ new <+: s' := by
  subst starts
  obtain ⟨rest, rfl⟩ := begins
  obtain ⟨-, rfl⟩ := overwrite_cases written
  rw [List.take_left]
  exact List.prefix_append _ _

/-- Writing into what the list is known to begin with. -/
theorem overwrite_inside (begins : left ++ (old ++ mid) <+: s)
    (written : overwrite off new s = some s') (starts : off = left.length)
    (fits : old.length = new.length) : left ++ (new ++ mid) <+: s' := by
  obtain ⟨rest, rfl⟩ := begins
  rw [List.append_assoc, List.append_assoc, overwrite_append starts fits] at written
  cases written
  exact ⟨rest, by simp only [List.append_assoc]⟩

/-! ## Numbers in text -/

/-- The digits of a number from the right end of the first `places` of a field on, and what is
left of the number. -/
def fillDigits (base : Nat) : (places number : Nat) → (field : List UInt8) → List UInt8 × Nat
  | 0, number, field => (field, number)
  | places + 1, number, field =>
    if number = 0 then (field, 0)
    else fillDigits base places (number / base)
      (field.set places (48 + UInt8.ofNat (number % base)))

def IsDigit (base : Nat) (c : UInt8) : Prop := 48 ≤ c.toNat ∧ c.toNat < 48 + base

instance (base : Nat) (c : UInt8) : Decidable (IsDigit base c) :=
  inferInstanceAs (Decidable (_ ∧ _))

/-- The number read on by one character. What is no digit is passed over. -/
def readDigit (base value : Nat) (c : UInt8) : Nat :=
  if IsDigit base c then value * base + (c.toNat - 48) else value

/-- The number that a text shows. -/
def numeral (base : Nat) (text : List UInt8) : Nat := text.foldl (readDigit base) 0

variable {base places number value : Nat} {pad c : UInt8} {field text rest : List UInt8}

/-- A character that stands for nothing in a number. -/
def IsPad (base : Nat) (pad : UInt8) : Prop := ¬ IsDigit base pad ∨ pad = 48

theorem numeral_replicate (padding : IsPad base pad) (count : Nat) :
    numeral base (List.replicate count pad) = 0 := by
  have still : readDigit base 0 pad = 0 := by
    unfold readDigit
    split
    case isFalse => rfl
    case isTrue digit =>
      rcases padding with none | rfl
      · exact absurd digit none
      · simp
  unfold numeral
  induction count with
  | zero => rfl
  | succ count ih =>
    rw [List.replicate_succ, List.foldl_cons, still, ih]

theorem toNat_digit (small : base ≤ 10) (below : value < base) :
    (48 + UInt8.ofNat value).toNat = 48 + value := by
  rw [UInt8.toNat_add, UInt8.toNat_ofNat']
  have bound : value < 10 := by omega
  change (48 + value % 256) % 256 = 48 + value
  omega

theorem numeral_concat (small : base ≤ 10) (below : value < base) :
    numeral base (text ++ [48 + UInt8.ofNat value]) = numeral base text * base + value := by
  have digit := toNat_digit small below
  have reads : IsDigit base (48 + UInt8.ofNat value) := by
    constructor <;> omega
  rw [numeral, List.foldl_append, List.foldl_cons, List.foldl_nil, readDigit, if_pos reads, digit,
    numeral, Nat.add_sub_cancel_left]

/-- The field shows the number as far as it has places for it. -/
theorem fillDigits_spec (base : Nat) (pad : UInt8) (positive : 0 < base) (small : base ≤ 10)
    (padding : IsPad base pad) (places number : Nat) (rest : List UInt8) :
    ∃ text, fillDigits base places number (List.replicate places pad ++ rest) =
        (text ++ rest, number / base ^ places) ∧
      text.length = places ∧ (∀ c ∈ text, c = pad ∨ IsDigit base c) ∧
      numeral base text = number % base ^ places := by
  induction places generalizing number rest with
  | zero => exact ⟨[], by simp [fillDigits], rfl, by simp, by simp [numeral, Nat.mod_one]⟩
  | succ places ih =>
    by_cases zero : number = 0
    · refine ⟨List.replicate (places + 1) pad, ?_, List.length_replicate,
        fun c listed => .inl (List.eq_of_mem_replicate listed), ?_⟩
      · simp [fillDigits, zero]
      · rw [numeral_replicate padding, zero, Nat.zero_mod]
    · have below : number % base < base := Nat.mod_lt _ positive
      obtain ⟨text, filled, length, shown, worth⟩ := ih (number / base)
        ((48 + UInt8.ofNat (number % base)) :: rest)
      refine ⟨text ++ [48 + UInt8.ofNat (number % base)], ?_, by simp [length], ?_, ?_⟩
      · have set : (List.replicate (places + 1) pad ++ rest).set places
            (48 + UInt8.ofNat (number % base)) =
              List.replicate places pad ++ (48 + UInt8.ofNat (number % base)) :: rest := by
          rw [List.replicate_succ', List.append_assoc, List.set_append_right _ _ (by simp)]
          simp
        rw [fillDigits, if_neg zero, set, filled, List.append_assoc, List.singleton_append,
          Nat.div_div_eq_div_mul, Nat.pow_succ']
      · intro c listed
        rcases List.mem_append.mp listed with early | last
        · exact shown c early
        · rw [List.mem_singleton.mp last]
          have digit := toNat_digit small below
          exact .inr ⟨by omega, by omega⟩
      · rw [numeral_concat small below, worth, Nat.pow_succ', Nat.mod_mul]
        ring

/-- A text of so many characters shows a number below that power of the base. -/
theorem foldl_readDigit_lt (positive : 0 < base) (text : List UInt8) {width : Nat}
    (bound : value < base ^ width) :
    text.foldl (readDigit base) value < base ^ (width + text.length) := by
  induction text generalizing value width with
  | nil => simpa using bound
  | cons c text ih =>
    have next : readDigit base value c < base ^ (width + 1) := by
      have grows : (value + 1) * base ≤ base ^ width * base :=
        Nat.mul_le_mul_right _ bound
      rw [Nat.pow_succ]
      unfold readDigit
      split
      case isTrue digit =>
        have := digit.2
        rw [Nat.add_mul] at grows
        omega
      case isFalse =>
        have := Nat.le_mul_of_pos_right (value + 1) positive
        omega
    have length : width + (c :: text).length = width + 1 + text.length := by
      rw [List.length_cons]
      omega
    rw [List.foldl_cons, length]
    exact ih next

end DBSos.Lib
