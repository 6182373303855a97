import Mathlib.Order.Interval.Finset.Nat

/-!
# The page bitmap and its allocator

One bit a physical page, packed eight to a byte: bit `i` is bit `i & 7` of byte
`i >> 3`. `used_bitSet` is the only fact about the packing that the allocator's
proofs need.
-/

namespace DBSos.Memory

/-- The bytes at `bitmap_addr`. -/
abbrev Bitmap := Nat → BitVec 8

/-- `bit_test`: the value, 0 or 1, of one bit. -/
def bitTest (bitmap : Bitmap) (bit : Nat) : BitVec 8 :=
  (bitmap (bit >>> 3) >>> (bit &&& 7)) &&& 1#8

/-- `bit_set`: set one bit when `val` is not 0, clear it otherwise. -/
def bitSet (bitmap : Bitmap) (bit : Nat) (val : BitVec 8) : Bitmap :=
  Function.update bitmap (bit >>> 3)
    (if val ≠ 0#8 then bitmap (bit >>> 3) ||| (1#8 <<< (bit &&& 7))
      else bitmap (bit >>> 3) &&& ~~~(1#8 <<< (bit &&& 7)))

/-- The page of this bit is marked allocated. -/
def Used (bitmap : Bitmap) (bit : Nat) : Prop := bitTest bitmap bit ≠ 0#8

instance (bitmap : Bitmap) (bit : Nat) : Decidable (Used bitmap bit) :=
  inferInstanceAs (Decidable (bitTest bitmap bit ≠ 0#8))

theorem bitTest_eq_zero_iff {bitmap : Bitmap} {bit : Nat} :
    bitTest bitmap bit = 0#8 ↔ ¬ Used bitmap bit := by
  simp [Used]

/-- A byte holds eight bits, so bit and byte index determine each other. -/
private theorem split_eq_iff {i j : Nat} :
    i = j ↔ i >>> 3 = j >>> 3 ∧ i &&& 7 = j &&& 7 := by
  have low : ∀ n : Nat, n &&& 7 = n % 8 := fun n => Nat.and_two_pow_sub_one_eq_mod n 3
  simp only [Nat.shiftRight_eq_div_pow, low]
  omega

private theorem and_seven_lt (n : Nat) : n &&& 7 < 8 := by
  have low : n &&& 7 = n % 8 := Nat.and_two_pow_sub_one_eq_mod n 3
  omega

/-- `bit_test` reads one bit of one byte. -/
theorem used_iff_getLsbD {bitmap : Bitmap} {bit : Nat} :
    Used bitmap bit ↔ (bitmap (bit >>> 3)).getLsbD (bit &&& 7) = true := by
  unfold Used bitTest
  constructor
  · intro nonzero
    by_contra clear
    apply nonzero
    apply BitVec.eq_of_getLsbD_eq
    intro index _
    by_cases atZero : index = 0
    · subst atZero
      simpa using clear
    · simp [atZero]
  · intro bitOn zero
    have first := congrArg (fun byte => byte.getLsbD 0) zero
    simp [bitOn] at first

/-- Writing one bit changes that bit and no other. -/
theorem used_bitSet {bitmap : Bitmap} {bit other : Nat} {val : BitVec 8} :
    Used (bitSet bitmap bit val) other ↔
      if other = bit then val ≠ 0#8 else Used bitmap other := by
  simp only [used_iff_getLsbD, bitSet, ← BitVec.twoPow_eq]
  by_cases sameByte : other >>> 3 = bit >>> 3
  · have otherLt := and_seven_lt other
    rw [sameByte, Function.update_self]
    by_cases same : other = bit
    · subst same
      by_cases zero : val = 0#8 <;> simp [zero, otherLt]
    · have bitDiffers : other &&& 7 ≠ bit &&& 7 := fun equal =>
        same (split_eq_iff.mpr ⟨sameByte, equal⟩)
      by_cases zero : val = 0#8 <;> simp [zero, same, otherLt, bitDiffers]
  · have same : other ≠ bit := fun equal => sameByte (by rw [equal])
    rw [Function.update_of_ne sameByte, if_neg same]

@[simp] theorem used_bitSet_one {bitmap : Bitmap} {bit other : Nat} :
    Used (bitSet bitmap bit 1#8) other ↔ other = bit ∨ Used bitmap other := by
  rw [used_bitSet]
  split_ifs with same <;> simp [same]

@[simp] theorem used_bitSet_zero {bitmap : Bitmap} {bit other : Nat} :
    Used (bitSet bitmap bit 0#8) other ↔ other ≠ bit ∧ Used bitmap other := by
  rw [used_bitSet]
  split_ifs with same <;> simp [same]

end DBSos.Memory

/-!
## The physical page allocator

`palloc` and `palloc_n` look for clear bits from a moving hint `first_page`;
`pfree` clears a bit and lowers the hint. Addresses are natural numbers, since
the region the firmware hands over lies inside the 64-bit address space.

`palloc_cases` and `pallocN_cases` say once what an allocation can do. The scan
of `palloc_n` is characterised by `Fits`: it stops at the first start, counted
cyclically from the hint, of `n` clear pages.
-/

namespace DBSos.Memory

def pageSize : Nat := 4096

/-- `PhysAllocator`, with the bytes at `bitmap_addr` as its `bitmap`. -/
structure PhysAllocator where
  bitmapAddr : Nat
  bitmap : Bitmap
  physStart : Nat
  totalPages : Nat
  freePages : Nat
  firstPage : Nat

namespace PhysAllocator

/-- The address of page `index` of the region. -/
def pageAddr (a : PhysAllocator) (index : Nat) : Nat := a.physStart + index * pageSize

/-- The loop `for i in lo..hi` of `palloc`: the first clear bit. -/
def firstClear (bitmap : Bitmap) (lo hi : Nat) : Option Nat :=
  (List.range' lo (hi - lo)).find? fun i => bitTest bitmap i = 0#8

/-- `palloc`: one page, or 0. -/
def palloc (a : PhysAllocator) : Nat × PhysAllocator :=
  if a.freePages = 0 ∨ a.bitmapAddr = 0 then (0, a)
  else
    match firstClear a.bitmap a.firstPage a.totalPages with
    | some i =>
      (a.pageAddr i,
        { a with
          bitmap := bitSet a.bitmap i 1#8
          freePages := a.freePages - 1
          firstPage := i + 1 })
    | none =>
      match firstClear a.bitmap 0 a.firstPage with
      | some i =>
        (a.pageAddr i,
          { a with bitmap := bitSet a.bitmap i 1#8, freePages := a.freePages - 1 })
      | none => (0, a)

/-- The page that the scan of `palloc_n` tests at position `i`. -/
def scanIndex (a : PhysAllocator) (i : Nat) : Nat :=
  if i ≥ a.totalPages then i - a.totalPages else i

/-- The loop of `palloc_n` with its accumulators `run_start` and `run_len`. -/
def scanRun (a : PhysAllocator) (n : Nat) : List Nat → Nat → Nat → Option Nat
  | [], _, _ => none
  | i :: rest, runStart, runLen =>
    let idx := a.scanIndex i
    if bitTest a.bitmap idx = 0#8 then
      let runStart := if runLen = 0 then idx else runStart
      let runLen := runLen + 1
      if runLen ≥ n then some runStart else a.scanRun n rest runStart runLen
    else a.scanRun n rest runStart 0

/-- The loop `for j in run_start..run_start + n` that marks a run allocated. -/
def setRun (bitmap : Bitmap) (runStart n : Nat) : Bitmap :=
  (List.range' runStart n).foldl (fun bitmap j => bitSet bitmap j 1#8) bitmap

/-- `palloc_n`: `n` adjacent pages, or 0. -/
def pallocN (a : PhysAllocator) (n : Nat) : Nat × PhysAllocator :=
  if a.freePages < n ∨ a.bitmapAddr = 0 then (0, a)
  else
    match a.scanRun n (List.range' a.firstPage a.totalPages) a.firstPage 0 with
    | some runStart =>
      (a.pageAddr runStart,
        { a with
          bitmap := setRun a.bitmap runStart n
          freePages := a.freePages - n
          firstPage := runStart + n })
    | none => (0, a)

/-- `pfree`: ignores addresses outside the region and pages that are free. -/
def pfree (a : PhysAllocator) (phys : Nat) : PhysAllocator :=
  if phys < a.physStart then a
  else
    let page := (phys - a.physStart) / pageSize
    if page ≥ a.totalPages ∨ a.bitmapAddr = 0 then a
    else if bitTest a.bitmap page = 0#8 then a
    else
      { a with
        bitmap := bitSet a.bitmap page 0#8
        freePages := a.freePages + 1
        firstPage := if page < a.firstPage then page else a.firstPage }

/-- `pfree_n`: free `n` pages one by one. -/
def pfreeN (a : PhysAllocator) (phys n : Nat) : PhysAllocator :=
  (List.range n).foldl (fun a i => a.pfree (phys + i * pageSize)) a

/-! ## One page -/

private theorem firstClear_some {bitmap : Bitmap} {lo hi i : Nat}
    (found : firstClear bitmap lo hi = some i) : i < hi ∧ ¬ Used bitmap i := by
  have clear := List.find?_some found
  have member := List.mem_of_find?_eq_some found
  rw [List.mem_range'_1] at member
  exact ⟨by omega, bitTest_eq_zero_iff.mp (by simpa using clear)⟩

/-- `palloc` either fails without effect or marks one clear page. -/
theorem palloc_cases (a : PhysAllocator) :
    a.palloc = (0, a) ∨
      ∃ i hint, ¬ Used a.bitmap i ∧ 0 < a.freePages ∧ a.bitmapAddr ≠ 0 ∧
        (i < a.totalPages ∧ hint = i + 1 ∨ i < a.firstPage ∧ hint = a.firstPage) ∧
        a.palloc = (a.pageAddr i,
          { a with
            bitmap := bitSet a.bitmap i 1#8
            freePages := a.freePages - 1
            firstPage := hint }) := by
  unfold palloc
  by_cases refused : a.freePages = 0 ∨ a.bitmapAddr = 0
  · exact .inl (by rw [if_pos refused])
  · have positive : 0 < a.freePages := by omega
    have live : a.bitmapAddr ≠ 0 := by omega
    rw [if_neg refused]
    cases upper : firstClear a.bitmap a.firstPage a.totalPages with
    | some i =>
      obtain ⟨bound, clear⟩ := firstClear_some upper
      exact .inr ⟨i, i + 1, clear, positive, live, .inl ⟨bound, rfl⟩, rfl⟩
    | none =>
      cases lower : firstClear a.bitmap 0 a.firstPage with
      | some i =>
        obtain ⟨bound, clear⟩ := firstClear_some lower
        exact .inr ⟨i, a.firstPage, clear, positive, live, .inr ⟨bound, rfl⟩, rfl⟩
      | none => exact .inl rfl

/-! ## Runs of pages -/

/-- The `n` scan positions from `k` lie in `lo..hi` and test clear. -/
def Fits (a : PhysAllocator) (n lo hi k : Nat) : Prop :=
  lo ≤ k ∧ k + n ≤ hi ∧ ∀ j < n, ¬ Used a.bitmap (a.scanIndex (k + j))

/-- `k` is the first such position. -/
def FirstFit (a : PhysAllocator) (n lo hi k : Nat) : Prop :=
  a.Fits n lo hi k ∧ ∀ other, a.Fits n lo hi other → k ≤ other

/-- A used page at the end of a run that is still too short rules out every
start up to it. -/
private theorem fits_past_used {a : PhysAllocator} {n lo len hi k : Nat} (short : len < n)
    (used : Used a.bitmap (a.scanIndex (lo + len))) :
    a.Fits n lo hi k ↔ a.Fits n (lo + len + 1) hi k := by
  constructor
  · rintro ⟨lower, upper, clear⟩
    refine ⟨?_, upper, clear⟩
    by_contra inside
    have reaches := clear (lo + len - k) (by omega)
    rw [show k + (lo + len - k) = lo + len by omega] at reaches
    exact reaches used
  · rintro ⟨lower, upper, clear⟩
    exact ⟨by omega, upper, clear⟩

/-- The scan stops at the first fit of what it has left to see. The run seen so
far, `len` clear positions from `lo`, is the loop's invariant. -/
private theorem scanRun_spec {a : PhysAllocator} {n : Nat} (m : Nat) :
    ∀ lo len runStart, len < n → (∀ j < len, ¬ Used a.bitmap (a.scanIndex (lo + j))) →
      (0 < len → runStart = a.scanIndex lo) →
      (∀ s, a.scanRun n (List.range' (lo + len) m) runStart len = some s →
        ∃ k, a.FirstFit n lo (lo + len + m) k ∧ s = a.scanIndex k) ∧
      (a.scanRun n (List.range' (lo + len) m) runStart len = none →
        ∀ k, ¬ a.Fits n lo (lo + len + m) k) := by
  induction m with
  | zero =>
    intro lo len runStart short _ _
    refine ⟨by simp [scanRun], fun _ k fits => ?_⟩
    have lower := fits.1
    have upper := fits.2.1
    omega
  | succ m ih =>
    intro lo len runStart short run start
    rw [List.range'_succ, scanRun]
    by_cases used : Used a.bitmap (a.scanIndex (lo + len))
    · have rest := ih (lo + len + 1) 0 runStart (by omega)
        (by simp) (by simp)
      have total : lo + len + 1 + 0 + m = lo + len + (m + 1) := by omega
      rw [total, Nat.add_zero] at rest
      have nonzero : ¬ bitTest a.bitmap (a.scanIndex (lo + len)) = 0#8 :=
        mt bitTest_eq_zero_iff.mp (not_not.mpr used)
      simp only [nonzero, if_false, FirstFit, fits_past_used short used]
      exact rest
    · have zero := bitTest_eq_zero_iff.mpr used
      have started : (if len = 0 then a.scanIndex (lo + len) else runStart) =
          a.scanIndex lo := by
        by_cases empty : len = 0
        · simp [empty]
        · rw [if_neg empty, start (by omega)]
      have run' : ∀ j < len + 1, ¬ Used a.bitmap (a.scanIndex (lo + j)) := by
        intro j bound
        by_cases last : j = len
        · rw [last]
          exact used
        · exact run j (by omega)
      simp only [zero, if_true, started]
      by_cases long : len + 1 ≥ n
      · simp only [long, if_true]
        refine ⟨?_, by simp⟩
        rintro s found
        refine ⟨lo, ⟨⟨by omega, by omega, fun j bound => run' j (by omega)⟩,
          fun other fits => fits.1⟩, ?_⟩
        exact (Option.some.inj found).symm
      · have rest := ih lo (len + 1) (a.scanIndex lo) (by omega) run'
          (fun _ => rfl)
        rw [show lo + (len + 1) + m = lo + len + (m + 1) by omega,
          show lo + (len + 1) = lo + len + 1 by omega] at rest
        simp only [long, if_false]
        exact rest

/-- The positions that a whole scan of `palloc_n` visits. -/
abbrev ScanFit (a : PhysAllocator) (n k : Nat) : Prop :=
  a.FirstFit n a.firstPage (a.firstPage + a.totalPages) k

/-- The scan of `palloc_n` finds its first fit. -/
theorem scanRun_eq_some_iff {a : PhysAllocator} {n s : Nat} (positive : 0 < n) :
    a.scanRun n (List.range' a.firstPage a.totalPages) a.firstPage 0 = some s ↔
      ∃ k, a.ScanFit n k ∧ s = a.scanIndex k := by
  have spec := scanRun_spec (a := a) (n := n) a.totalPages a.firstPage 0 a.firstPage
    positive (by simp) (by simp)
  simp only [Nat.add_zero] at spec
  refine ⟨spec.1 s, ?_⟩
  rintro ⟨k, fit, rfl⟩
  cases found : a.scanRun n (List.range' a.firstPage a.totalPages) a.firstPage 0 with
  | none => exact absurd fit.1 (spec.2 found k)
  | some s =>
    obtain ⟨other, otherFit, rfl⟩ := spec.1 s found
    have same : other = k := Nat.le_antisymm (otherFit.2 k fit.1) (fit.2 other otherFit.1)
    rw [same]

/-- `palloc_n` either fails without effect or takes the first fit of its scan. -/
theorem pallocN_cases (a : PhysAllocator) {n : Nat} (positive : 0 < n) :
    a.pallocN n = (0, a) ∨
      ∃ k, a.ScanFit n k ∧ n ≤ a.freePages ∧ a.bitmapAddr ≠ 0 ∧
        a.pallocN n = (a.pageAddr (a.scanIndex k),
          { a with
            bitmap := setRun a.bitmap (a.scanIndex k) n
            freePages := a.freePages - n
            firstPage := a.scanIndex k + n }) := by
  unfold pallocN
  by_cases refused : a.freePages < n ∨ a.bitmapAddr = 0
  · exact .inl (by rw [if_pos refused])
  · rw [if_neg refused]
    cases found : a.scanRun n (List.range' a.firstPage a.totalPages) a.firstPage 0 with
    | none => exact .inl rfl
    | some s =>
      obtain ⟨k, fit, rfl⟩ := (scanRun_eq_some_iff positive).mp found
      exact .inr ⟨k, fit, by omega, by omega, rfl⟩

/-- When the allocator is live, a fit exists and enough pages are counted free,
`palloc_n` takes it. -/
theorem pallocN_of_fit {a : PhysAllocator} {n k : Nat} (positive : 0 < n)
    (live : a.bitmapAddr ≠ 0) (enough : n ≤ a.freePages) (fit : a.ScanFit n k) :
    a.pallocN n = (a.pageAddr (a.scanIndex k),
      { a with
        bitmap := setRun a.bitmap (a.scanIndex k) n
        freePages := a.freePages - n
        firstPage := a.scanIndex k + n }) := by
  have found := (scanRun_eq_some_iff positive).mpr ⟨k, fit, rfl⟩
  unfold pallocN
  rw [if_neg (by omega), found]

/-- Marking a run allocated changes exactly its pages. -/
@[simp] theorem used_setRun {bitmap : Bitmap} {runStart n page : Nat} :
    Used (setRun bitmap runStart n) page ↔
      runStart ≤ page ∧ page < runStart + n ∨ Used bitmap page := by
  induction n with
  | zero =>
    simp only [setRun, List.range'_zero, List.foldl_nil]
    constructor
    · exact .inr
    · rintro (⟨lower, upper⟩ | used)
      · omega
      · exact used
  | succ n ih =>
    have unrolled : setRun bitmap runStart (n + 1) =
        bitSet (setRun bitmap runStart n) (runStart + n) 1#8 := by
      simp [setRun, List.range'_1_concat]
    rw [unrolled, used_bitSet_one, ih]
    constructor
    · rintro (rfl | ⟨lower, upper⟩ | used)
      · exact .inl ⟨by omega, by omega⟩
      · exact .inl ⟨lower, by omega⟩
      · exact .inr used
    · rintro (⟨lower, upper⟩ | used)
      · by_cases last : page = runStart + n
        · exact .inl last
        · exact .inr (.inl ⟨lower, by omega⟩)
      · exact .inr (.inr used)

/-! ## Freeing -/

/-- Freeing the page of a used bit of the region clears that bit. -/
theorem pfree_of_used {a : PhysAllocator} {page : Nat} (live : a.bitmapAddr ≠ 0)
    (inside : page < a.totalPages) (used : Used a.bitmap page) :
    a.pfree (a.pageAddr page) =
      { a with
        bitmap := bitSet a.bitmap page 0#8
        freePages := a.freePages + 1
        firstPage := if page < a.firstPage then page else a.firstPage } := by
  have index : (a.pageAddr page - a.physStart) / pageSize = page := by
    simp [pageAddr, pageSize]
  have nonzero : ¬ bitTest a.bitmap page = 0#8 := mt bitTest_eq_zero_iff.mp (not_not.mpr used)
  unfold pfree
  rw [if_neg (by simp [pageAddr]), index]
  simp only [nonzero, if_false]
  rw [if_neg (by omega)]

theorem pfreeN_zero (a : PhysAllocator) (phys : Nat) : a.pfreeN phys 0 = a := rfl

theorem pfreeN_succ (a : PhysAllocator) (phys n : Nat) :
    a.pfreeN phys (n + 1) = (a.pfreeN phys n).pfree (phys + n * pageSize) := by
  simp [pfreeN, List.range_succ]

/-! ## Growth -/

/-- Nothing has been freed since. -/
structure Grows (a a' : PhysAllocator) : Prop where
  start : a'.physStart = a.physStart
  used : ∀ page, Used a.bitmap page → Used a'.bitmap page

theorem Grows.refl (a : PhysAllocator) : Grows a a := ⟨rfl, fun _ => id⟩

theorem Grows.trans {a b c : PhysAllocator} (first : Grows a b) (second : Grows b c) : Grows a c :=
  ⟨second.start.trans first.start, fun page used => second.used page (first.used page used)⟩

theorem palloc_grows (a : PhysAllocator) : Grows a a.palloc.2 := by
  rcases a.palloc_cases with failed | ⟨i, hint, -, -, -, -, taken⟩
  · rw [failed]
    exact .refl a
  · rw [taken]
    exact ⟨rfl, fun page used => used_bitSet_one.mpr (.inr used)⟩

theorem pallocN_grows (a : PhysAllocator) {n : Nat} (positive : 0 < n) :
    Grows a (a.pallocN n).2 := by
  rcases a.pallocN_cases positive with failed | ⟨k, -, -, -, taken⟩
  · rw [failed]
    exact .refl a
  · rw [taken]
    exact ⟨rfl, fun page used => used_setRun.mpr (.inr used)⟩

/-- A page that has been taken and not freed is not taken again. -/
theorem palloc_ne {a a' : PhysAllocator} (taken : a.palloc.1 ≠ 0) (grows : Grows a.palloc.2 a') :
    a'.palloc.1 = 0 ∨ a'.palloc.1 ≠ a.palloc.1 := by
  rcases a.palloc_cases with failed | ⟨i, hint, -, -, -, -, first⟩
  · rw [failed] at taken
    exact absurd rfl taken
  · rcases a'.palloc_cases with failed | ⟨j, hint', clear, -, -, -, second⟩
    · exact .inl (by rw [failed])
    · refine .inr ?_
      rw [first] at grows
      rw [first, second]
      have apart : j ≠ i := by
        rintro rfl
        exact clear (grows.used j (used_bitSet_one.mpr (.inl rfl)))
      simp only [pageAddr, grows.start, pageSize]
      omega

end PhysAllocator

end DBSos.Memory
