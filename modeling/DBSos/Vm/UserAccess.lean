import DBSos.Vm.Translation

/-!
# What a task may access

The processor lets user code read a byte when every entry on its walk has `PTE_USER`, and
write it when every entry has `PTE_WRITABLE` too. `is_user_range_mapped` looks at the last
entry alone, and only at `PTE_USER`.
-/

namespace DBSos.Vm

open DBSos.Memory DBSos.Radix

/-- The entry lets user code through. -/
def Grants (write : Bool) (entry : BitVec 64) : Prop :=
  entry &&& pteUser ≠ 0#64 ∧ (write = true → entry &&& pteWritable ≠ 0#64)

instance (write : Bool) (entry : BitVec 64) : Decidable (Grants write entry) :=
  inferInstanceAs (Decidable (_ ∧ _))

/-- The end of the user half. -/
def userTop : Nat := 0x800000000000

/-- User code may access the byte. -/
structure UserAccess (mem : PageMem) (pml4 : Nat) (write : Bool) (virt : BitVec 64) : Prop where
  low : virt.toNat < userTop
  mapped : (translate mem pml4 virt).isSome = true
  granted : ∀ entry ∈ x86.visited mem 3 pml4 virt, Grants write entry

instance (mem : PageMem) (pml4 : Nat) (write : Bool) (virt : BitVec 64) :
    Decidable (UserAccess mem pml4 write virt) :=
  have : Decidable (∀ entry ∈ x86.visited mem 3 pml4 virt, Grants write entry) :=
    List.decidableBAll _ _
  decidable_of_iff (virt.toNat < userTop ∧ (translate mem pml4 virt).isSome = true ∧
    ∀ entry ∈ x86.visited mem 3 pml4 virt, Grants write entry)
    ⟨fun ⟨low, mapped, granted⟩ => ⟨low, mapped, granted⟩,
      fun ⟨low, mapped, granted⟩ => ⟨low, mapped, granted⟩⟩

/-- The entries above the last one let user code through. -/
def GrantedAbove (mem : PageMem) (pml4 : Nat) (write : Bool) (virt : BitVec 64) : Prop :=
  ∀ entry ∈ (x86.visited mem 3 pml4 virt).tail, Grants write entry

instance (mem : PageMem) (pml4 : Nat) (write : Bool) (virt : BitVec 64) :
    Decidable (GrantedAbove mem pml4 write virt) :=
  List.decidableBAll _ _

/-- The walk ends at a present entry that has `PTE_USER`. -/
structure UserLeaf (mem : PageMem) (pml4 : Nat) (virt : BitVec 64) : Prop where
  mapped : (translate mem pml4 virt).isSome = true
  user : ∃ leaf above, x86.visited mem 3 pml4 virt = leaf :: above ∧ leaf &&& pteUser ≠ 0#64

variable {p : PhysMem} {pml4 : Nat} {virt : BitVec 64}

/-- A table that is only looked up. -/
theorem ensureTable_false (table index : Nat) :
    ensureTable p table index false =
      if Present (getPte p.mem table index) then (p, some ()) else (p, none) := by
  unfold ensureTable
  simp

/-- The page that passes the test of `is_user_range_mapped`. -/
theorem userLeaf_of_userPageMapped (test : userPageMapped p pml4 virt = true) :
    UserLeaf p.mem pml4 virt := by
  unfold userPageMapped walkOrCreate at test
  simp only [ensureTable_false] at test
  by_cases top : Present (getPte p.mem pml4 (pml4Index virt))
  swap
  · simp [top] at test
  simp only [if_pos top] at test
  have first : x86.entry p.mem 3 pml4 virt =
      .table (physFromPte (getPte p.mem pml4 (pml4Index virt))) :=
    decode_table top (by decide) fun low => absurd low (by decide)
  generalize physFromPte (getPte p.mem pml4 (pml4Index virt)) = pdpt at test first
  by_cases present : Present (getPte p.mem pdpt (pdptIndex virt))
  swap
  · simp [present] at test
  simp only [if_pos present] at test
  by_cases huge : Huge (getPte p.mem pdpt (pdptIndex virt))
  · simp [huge] at test
  simp only [if_neg huge] at test
  have second : x86.entry p.mem 2 pdpt virt =
      .table (physFromPte (getPte p.mem pdpt (pdptIndex virt))) :=
    decode_table present (by decide) fun _ => huge
  generalize physFromPte (getPte p.mem pdpt (pdptIndex virt)) = pd at test second
  have upper : x86.lookup p.mem 3 pml4 virt = x86.lookup p.mem 1 pd virt :=
    (lookup_succ first).trans (lookup_succ second)
  have walk : x86.visited p.mem 3 pml4 virt = x86.visited p.mem 1 pd virt ++
      [getPte p.mem pdpt (pdptIndex virt)] ++ [getPte p.mem pml4 (pml4Index virt)] :=
    (visited_succ first).trans (congrArg (· ++ _) (visited_succ second))
  by_cases large : Huge (getPte p.mem pd (pdIndex virt))
  · rw [if_pos ⟨large, trivial⟩] at test
    obtain ⟨-, present, user⟩ := of_decide_eq_true test
    have last : x86.entry p.mem 1 pd virt = .leaf _ :=
      decode_huge present large (by decide) (by decide)
    have ends (next : Nat) : x86.entry p.mem 1 pd virt ≠ .table next := by
      rw [last]
      nofun
    rw [visited_eq_singleton ends] at walk
    refine ⟨?_, _, _, walk, user⟩
    rw [translate, upper, lookup_eq_value ends, last]
    rfl
  · rw [if_neg fun both => large both.1, if_neg large] at test
    by_cases there : Present (getPte p.mem pd (pdIndex virt))
    swap
    · simp [there] at test
    simp only [if_pos there] at test
    have third : x86.entry p.mem 1 pd virt =
        .table (physFromPte (getPte p.mem pd (pdIndex virt))) :=
      decode_table there (by decide) fun _ => large
    generalize physFromPte (getPte p.mem pd (pdIndex virt)) = pt at test third
    obtain ⟨-, present, user⟩ := of_decide_eq_true test
    have last : x86.entry p.mem 0 pt virt = .leaf _ := decode_page present
    rw [visited_succ third] at walk
    refine ⟨?_, _, _, walk, user⟩
    rw [translate, upper, lookup_succ third, Format.lookup, last]
    rfl

/-- Addresses in one page have one walk. -/
theorem same_of_page {a b : BitVec 64} (page : a.toNat / pageSize = b.toNat / pageSize) (l : Nat) :
    x86.Same l a b := by
  intro i _
  have split (virt : BitVec 64) : virt.toNat / 2 ^ (12 + 9 * i) =
      virt.toNat / pageSize / 2 ^ (9 * i) := by
    rw [Nat.div_div_eq_div_mul, pow_add]
    rfl
  rw [index_eq, index_eq, split, split, page]

/-- Every address of a range that passes the check is below the top and ends at a user entry. -/
theorem userLeaf_of_isUserRangeMapped {len : Nat}
    (check : isUserRangeMapped p pml4 virt len = true) {i : Nat} (inside : i < len) :
    (virt + BitVec.ofNat 64 i).toNat < userTop ∧ UserLeaf p.mem pml4 (virt + BitVec.ofNat 64 i) := by
  unfold isUserRangeMapped at check
  split_ifs at check with empty null wraps high
  · omega
  · obtain ⟨low, below⟩ := not_or.mp high
    have address : (virt + BitVec.ofNat 64 i).toNat = virt.toNat + i := by
      rw [BitVec.toNat_add, BitVec.toNat_ofNat]
      omega
    have page := List.all_eq_true.mp check ((virt.toNat + i) / pageSize - virt.toNat / pageSize)
      (by
        rw [List.mem_range]
        simp only [pageSize] at *
        omega)
    have base : virt.toNat / pageSize + ((virt.toNat + i) / pageSize - virt.toNat / pageSize) =
        (virt.toNat + i) / pageSize :=
      Nat.add_sub_cancel' (Nat.div_le_div_right (Nat.le_add_right _ _))
    rw [base] at page
    have same := same_of_page (a := virt + BitVec.ofNat 64 i)
      (b := BitVec.ofNat 64 ((virt.toNat + i) / pageSize * pageSize)) (by
        rw [address, BitVec.toNat_ofNat]
        simp only [pageSize] at *
        omega) 3
    obtain ⟨mapped, user⟩ := userLeaf_of_userPageMapped page
    refine ⟨by rw [address, userTop]; omega, ?_, ?_⟩
    · rw [translate, lookup_isSome_same same]
      exact mapped
    · rw [visited_same same]
      exact user

/-- Where the check passes, the entries above the last one decide on a read. -/
theorem userAccess_iff_grantedAbove {len : Nat}
    (check : isUserRangeMapped p pml4 virt len = true) {i : Nat} (inside : i < len) :
    UserAccess p.mem pml4 false (virt + BitVec.ofNat 64 i) ↔
      GrantedAbove p.mem pml4 false (virt + BitVec.ofNat 64 i) := by
  obtain ⟨low, mapped, leaf, above, walk, user⟩ := userLeaf_of_isUserRangeMapped check inside
  constructor
  · exact fun access entry member => access.granted entry (List.mem_of_mem_tail member)
  · refine fun granted => ⟨low, mapped, fun entry member => ?_⟩
    rw [GrantedAbove, walk] at granted
    rw [walk] at member
    rcases List.mem_cons.mp member with rfl | member
    · exact ⟨user, nofun⟩
    · exact granted entry member

end DBSos.Vm
