import DBSos.Memory.Ownership
import DBSos.Vm.PageTable

/-!
# Pages that stay allocated

`Allocated` is the test that `pfree` makes before it clears a bit. An allocation
leaves every allocated page allocated, and a free every one but its own.
-/

namespace DBSos.Memory

/-- The index that `pfree` computes for an address. -/
def PhysAllocator.pageOf (a : PhysAllocator) (phys : Nat) : Nat := (phys - a.physStart) / pageSize

/-- The address lies in a page of the region whose bit is set. -/
structure Allocated (a : PhysAllocator) (phys : Nat) : Prop where
  above : a.physStart ≤ phys
  below : a.pageOf phys < a.totalPages
  used : Used a.bitmap (a.pageOf phys)

instance (a : PhysAllocator) (phys : Nat) : Decidable (Allocated a phys) :=
  decidable_of_iff (a.physStart ≤ phys ∧ a.pageOf phys < a.totalPages ∧ Used a.bitmap (a.pageOf phys))
    ⟨fun ⟨above, below, used⟩ => ⟨above, below, used⟩, fun h => ⟨h.above, h.below, h.used⟩⟩

/-- A free of the first address frees the page of the second. -/
def PhysAllocator.Hits (a : PhysAllocator) (freed phys : Nat) : Prop :=
  a.physStart ≤ freed ∧ a.pageOf freed = a.pageOf phys

instance (a : PhysAllocator) (freed phys : Nat) : Decidable (a.Hits freed phys) :=
  inferInstanceAs (Decidable (_ ∧ _))

/-- The allocator still manages the same region. -/
structure PhysAllocator.SameRegion (a a' : PhysAllocator) : Prop where
  start : a'.physStart = a.physStart
  total : a'.totalPages = a.totalPages
  mapped : a'.bitmapAddr = a.bitmapAddr

/-- The pages allocated before are allocated after. -/
structure PhysAllocator.Keeps (a a' : PhysAllocator) : Prop extends SameRegion a a' where
  kept : ∀ phys, Allocated a phys → Allocated a' phys

namespace PhysAllocator

variable {a b c : PhysAllocator} {phys freed : Nat}

theorem SameRegion.pageOf_eq (same : SameRegion a b) : b.pageOf phys = a.pageOf phys := by
  rw [pageOf, pageOf, same.start]

theorem SameRegion.hits_iff (same : SameRegion a b) : b.Hits freed phys ↔ a.Hits freed phys := by
  rw [Hits, Hits, same.start, same.pageOf_eq, same.pageOf_eq]

theorem SameRegion.trans (first : SameRegion a b) (second : SameRegion b c) : SameRegion a c :=
  ⟨second.start.trans first.start, second.total.trans first.total, second.mapped.trans first.mapped⟩

theorem Keeps.refl (a : PhysAllocator) : Keeps a a := ⟨⟨rfl, rfl, rfl⟩, fun _ => id⟩

theorem Keeps.trans (first : Keeps a b) (second : Keeps b c) : Keeps a c :=
  ⟨first.toSameRegion.trans second.toSameRegion, fun phys => second.kept phys ∘ first.kept phys⟩

/-- An allocator that has only grown keeps its pages. -/
theorem Grows.keeps (grows : Grows a b) (same : SameRegion a b) : Keeps a b := by
  refine ⟨same, fun phys allocated => ⟨?_, ?_, ?_⟩⟩
  · rw [same.start]
    exact allocated.above
  · rw [same.pageOf_eq, same.total]
    exact allocated.below
  · rw [same.pageOf_eq]
    exact grows.used _ allocated.used

/-! ## Allocations -/

theorem palloc_sameRegion (a : PhysAllocator) : SameRegion a a.palloc.2 := by
  rcases a.palloc_cases with failed | ⟨i, hint, -, -, -, -, taken⟩
  · rw [failed]
    exact ⟨rfl, rfl, rfl⟩
  · rw [taken]
    exact ⟨rfl, rfl, rfl⟩

theorem pallocN_sameRegion (a : PhysAllocator) {n : Nat} (positive : 0 < n) :
    SameRegion a (a.pallocN n).2 := by
  rcases a.pallocN_cases positive with failed | ⟨k, -, -, -, taken⟩
  · rw [failed]
    exact ⟨rfl, rfl, rfl⟩
  · rw [taken]
    exact ⟨rfl, rfl, rfl⟩

theorem palloc_keeps (a : PhysAllocator) : Keeps a a.palloc.2 :=
  a.palloc_grows.keeps a.palloc_sameRegion

theorem pallocN_keeps (a : PhysAllocator) {n : Nat} (positive : 0 < n) :
    Keeps a (a.pallocN n).2 :=
  (a.pallocN_grows positive).keeps (a.pallocN_sameRegion positive)

/-- Nothing has been freed since, and what differs has been taken. -/
structure Takes (a b : PhysAllocator) : Prop where
  grows : Grows a b
  region : SameRegion a b
  differs : b = a ∨ ∃ page, ¬ Used a.bitmap page ∧ Used b.bitmap page

theorem Takes.refl (a : PhysAllocator) : Takes a a := ⟨.refl a, ⟨rfl, rfl, rfl⟩, .inl rfl⟩

theorem Takes.trans (first : Takes a b) (second : Takes b c) : Takes a c where
  grows := first.grows.trans second.grows
  region := first.region.trans second.region
  differs := by
    rcases first.differs with rfl | ⟨page, clear, used⟩
    · exact second.differs
    · exact .inr ⟨page, clear, second.grows.used page used⟩

/-- What is taken is not given back. -/
theorem Takes.eq_of_eq (first : Takes a b) (second : Takes b c) (same : c = a) : b = a := by
  rcases first.differs with equal | ⟨page, clear, used⟩
  · exact equal
  · subst same
    exact absurd (second.grows.used page used) clear

theorem palloc_takes (a : PhysAllocator) : Takes a a.palloc.2 := by
  refine ⟨a.palloc_grows, a.palloc_sameRegion, ?_⟩
  rcases a.palloc_cases with failed | ⟨i, hint, clear, -, -, -, taken⟩
  · exact .inl (by rw [failed])
  · exact .inr ⟨i, clear, by simp [taken]⟩

theorem pallocN_takes (a : PhysAllocator) {n : Nat} (positive : 0 < n) :
    Takes a (a.pallocN n).2 := by
  refine ⟨a.pallocN_grows positive, a.pallocN_sameRegion positive, ?_⟩
  rcases a.pallocN_cases positive with failed | ⟨k, fit, -, -, taken⟩
  · exact .inl (by rw [failed])
  · have clear := fit.1.2.2 0 positive
    exact .inr ⟨a.scanIndex k, clear, by simp [taken, positive]⟩

/-- An allocation that changes nothing has failed. -/
theorem palloc_eq_of_same (same : a.palloc.2 = a) : a.palloc = (0, a) := by
  rcases a.palloc_cases with failed | ⟨i, hint, clear, -, -, -, taken⟩
  · exact failed
  · have used : Used a.palloc.2.bitmap i := by simp [taken]
    rw [same] at used
    exact absurd used clear

theorem pallocN_eq_of_same {n : Nat} (positive : 0 < n) (same : (a.pallocN n).2 = a) :
    a.pallocN n = (0, a) := by
  rcases a.pallocN_cases positive with failed | ⟨k, fit, -, -, taken⟩
  · exact failed
  · have used : Used (a.pallocN n).2.bitmap (a.scanIndex k) := by simp [taken, positive]
    rw [same] at used
    exact absurd used (fit.1.2.2 0 positive)

/-! ## Frees -/

theorem pfree_sameRegion (a : PhysAllocator) (freed : Nat) : SameRegion a (a.pfree freed) := by
  unfold pfree
  dsimp only
  split_ifs <;> exact ⟨rfl, rfl, rfl⟩

/-- A free clears the bit of its own page, if that lies in the region. -/
theorem used_pfree {page : Nat} :
    Used (a.pfree freed).bitmap page ↔ Used a.bitmap page ∧
      ¬ (a.physStart ≤ freed ∧ a.pageOf freed = page ∧ page < a.totalPages ∧ a.bitmapAddr ≠ 0) := by
  unfold pfree pageOf
  by_cases above : freed < a.physStart
  · rw [if_pos above]
    exact ⟨fun used => ⟨used, fun hit => absurd hit.1 (not_le.mpr above)⟩, And.left⟩
  · rw [if_neg above]
    dsimp only
    have exact' (clear : ¬ bitTest a.bitmap ((freed - a.physStart) / pageSize) = 0#8 ∧
        ¬ ((freed - a.physStart) / pageSize ≥ a.totalPages ∨ a.bitmapAddr = 0)) :
        Used (bitSet a.bitmap ((freed - a.physStart) / pageSize) 0#8) page ↔
          Used a.bitmap page ∧ ¬ (a.physStart ≤ freed ∧
            (freed - a.physStart) / pageSize = page ∧ page < a.totalPages ∧ a.bitmapAddr ≠ 0) := by
      rw [used_bitSet_zero, and_comm]
      refine and_congr_right fun _ => ⟨fun differs hit => differs hit.2.1.symm, fun apart same => ?_⟩
      obtain ⟨-, inside⟩ := clear
      exact apart ⟨not_lt.mp above, same.symm, by omega, by omega⟩
    by_cases outside : (freed - a.physStart) / pageSize ≥ a.totalPages ∨ a.bitmapAddr = 0
    · rw [if_pos outside]
      refine ⟨fun used => ⟨used, fun hit => ?_⟩, And.left⟩
      obtain ⟨-, same, inside, mapped⟩ := hit
      omega
    · rw [if_neg outside]
      by_cases clear : bitTest a.bitmap ((freed - a.physStart) / pageSize) = 0#8
      · rw [if_pos clear]
        refine ⟨fun used => ⟨used, fun hit => ?_⟩, And.left⟩
        rw [hit.2.1] at clear
        exact bitTest_eq_zero_iff.mp clear used
      · rw [if_neg clear]
        exact exact' ⟨clear, outside⟩

theorem pfree_allocated (allocated : Allocated a phys) (apart : ¬ a.Hits freed phys) :
    Allocated (a.pfree freed) phys := by
  have same := a.pfree_sameRegion freed
  refine ⟨same.start ▸ allocated.above, ?_, ?_⟩
  · rw [same.pageOf_eq, same.total]
    exact allocated.below
  · rw [same.pageOf_eq, used_pfree]
    exact ⟨allocated.used, fun hit => apart ⟨hit.1, hit.2.1⟩⟩

theorem foldl_pfree_sameRegion (freed : List Nat) (a : PhysAllocator) :
    SameRegion a (freed.foldl pfree a) := by
  induction freed generalizing a with
  | nil => exact ⟨rfl, rfl, rfl⟩
  | cons one rest ih =>
    exact (a.pfree_sameRegion one).trans (ih (a.pfree one))

/-- Frees one after the other keep a page that none of them hits. -/
theorem foldl_pfree_allocated {freed : List Nat} (allocated : Allocated a phys)
    (apart : ∀ one ∈ freed, ¬ a.Hits one phys) : Allocated (freed.foldl pfree a) phys := by
  induction freed generalizing a with
  | nil => exact allocated
  | cons one rest ih =>
    have after := pfree_allocated allocated (apart one List.mem_cons_self)
    refine ih after fun other member => ?_
    rw [(a.pfree_sameRegion one).hits_iff]
    exact apart other (List.mem_cons_of_mem _ member)

theorem pfreeN_eq_foldl (a : PhysAllocator) (phys n : Nat) :
    a.pfreeN phys n = (pages phys n).foldl pfree a := by
  rw [pfreeN, pages, List.foldl_map]

/-- The frees of a run clear its pages in the region. -/
theorem used_pfreeN {start page : Nat} (mapped : a.bitmapAddr ≠ 0) (n : Nat) :
    Used (a.pfreeN (a.pageAddr start) n).bitmap page ↔ Used a.bitmap page ∧
      ¬ (start ≤ page ∧ page < start + n ∧ page < a.totalPages) := by
  induction n with
  | zero =>
    rw [pfreeN_zero]
    exact ⟨fun used => ⟨used, by omega⟩, And.left⟩
  | succ n ih =>
    have same : SameRegion a (a.pfreeN (a.pageAddr start) n) := by
      rw [pfreeN_eq_foldl]
      exact foldl_pfree_sameRegion _ a
    have index : a.pageOf (a.pageAddr start + n * pageSize) = start + n := by
      simp only [pageOf, pageAddr, pageSize]
      omega
    rw [pfreeN_succ, used_pfree, ih, same.pageOf_eq, same.start, same.total,
      same.mapped, index, and_assoc]
    refine and_congr_right fun _ => ?_
    have above : a.physStart ≤ a.pageAddr start + n * pageSize := by
      simp only [pageAddr]
      omega
    constructor
    · rintro ⟨before, last⟩ hit
      by_cases atLast : page = start + n
      · exact last ⟨above, atLast.symm, hit.2.2, mapped⟩
      · exact before ⟨hit.1, by omega, hit.2.2⟩
    · intro apart
      exact ⟨fun hit => apart ⟨hit.1, by omega, hit.2.2⟩,
        fun hit => apart ⟨by omega, by omega, hit.2.2.1⟩⟩

@[simp] theorem pageOf_pageAddr (a : PhysAllocator) (page : Nat) :
    a.pageOf (a.pageAddr page) = page := by
  simp only [pageOf, pageAddr, pageSize]
  omega

/-- The pages of a fit that lie in the region are clear. -/
theorem clear_of_scanFit {n k i : Nat} (fit : a.ScanFit n k) (inRun : i < n)
    (inside : a.scanIndex k + i < a.totalPages) : ¬ Used a.bitmap (a.scanIndex k + i) := by
  have position : a.scanIndex (k + i) = a.scanIndex k + i := by
    unfold scanIndex at inside ⊢
    split_ifs at inside ⊢ <;> omega
  rw [← position]
  exact fit.1.2.2 i inRun

/-- The pages of a run that was just taken were clear before. -/
theorem not_hits_pallocN {n : Nat} (positive : 0 < n) (taken : (a.pallocN n).1 ≠ 0)
    (allocated : Allocated a phys) {i : Nat} (inRun : i < n) :
    ¬ a.Hits ((a.pallocN n).1 + i * pageSize) phys := by
  rintro ⟨-, same⟩
  rcases a.pallocN_cases positive with failed | ⟨k, fit, -, -, result⟩
  · exact taken (by rw [failed])
  · have index : a.scanIndex k + i = a.pageOf phys := by
      rw [← same, result, ← a.pageOf_pageAddr (a.scanIndex k + i)]
      simp only [pageAddr, Nat.add_mul, Nat.add_assoc]
    have inside := allocated.below
    rw [← index] at inside
    exact clear_of_scanFit fit inRun inside (index ▸ allocated.used)

/-- A run that is taken and given back leaves the pages of others allocated. -/
theorem pfreeN_keeps (a : PhysAllocator) {n : Nat} (positive : 0 < n) (taken : (a.pallocN n).1 ≠ 0)
    (since : Keeps (a.pallocN n).2 b) : Keeps a (b.pfreeN (a.pallocN n).1 n) := by
  have before := (a.pallocN_keeps positive).trans since
  rw [pfreeN_eq_foldl]
  refine ⟨before.toSameRegion.trans (foldl_pfree_sameRegion _ b), fun phys allocated => ?_⟩
  refine foldl_pfree_allocated (before.kept phys allocated) fun freed member => ?_
  obtain ⟨i, inRun, rfl⟩ := Ownership.mem_pages.mp member
  rw [before.toSameRegion.hits_iff]
  exact not_hits_pallocN positive taken allocated inRun

/-- After a run is taken, and perhaps more, and the run is given back, the marked pages
are those of before exactly when nothing more was taken and what the run marks beyond
the region was marked. -/
theorem pfreeN_restores_iff {n : Nat} (positive : 0 < n) (taken : (a.pallocN n).1 ≠ 0)
    (since : Takes (a.pallocN n).2 b) :
    (∀ page, Used (b.pfreeN (a.pallocN n).1 n).bitmap page ↔ Used a.bitmap page) ↔
      b = (a.pallocN n).2 ∧ ∀ j < n, a.totalPages ≤ a.pageOf (a.pallocN n).1 + j →
        Used a.bitmap (a.pageOf (a.pallocN n).1 + j) := by
  have region := (a.pallocN_sameRegion positive).trans since.region
  rcases a.pallocN_cases positive with failed | ⟨k, fit, -, mapped, result⟩
  · exact absurd (by rw [failed]) taken
  · have marked (page : Nat) : Used (a.pallocN n).2.bitmap page ↔
        a.scanIndex k ≤ page ∧ page < a.scanIndex k + n ∨ Used a.bitmap page := by
      rw [result, used_setRun]
    have address : (a.pallocN n).1 = b.pageAddr (a.scanIndex k) := by
      rw [result, pageAddr, pageAddr, region.start]
    have index : a.pageOf (a.pallocN n).1 = a.scanIndex k := by rw [result, pageOf_pageAddr]
    have freed (page : Nat) : Used (b.pfreeN (b.pageAddr (a.scanIndex k)) n).bitmap page ↔
        Used b.bitmap page ∧ ¬ (a.scanIndex k ≤ page ∧ page < a.scanIndex k + n ∧
          page < a.totalPages) := by
      rw [← region.total]
      exact used_pfreeN (by rwa [region.mapped]) n
    rw [index, address]
    simp only [freed]
    constructor
    · intro restored
      constructor
      · rcases since.differs with same | ⟨page, clear, used⟩
        · exact same
        · have outside := mt (marked page).mpr clear
          refine absurd ((restored page).mp ⟨used, fun hit => outside (.inl ⟨hit.1, hit.2.1⟩)⟩)
            fun before => outside (.inr before)
      · intro j inRun beyond
        refine (restored _).mp ⟨since.grows.used _ ((marked _).mpr (.inl (by omega))), by omega⟩
    · rintro ⟨rfl, whole⟩ page
      rw [marked]
      constructor
      · rintro ⟨inRun | before, apart⟩
        · have beyond : a.totalPages ≤ page := by
            by_contra inside
            exact apart ⟨inRun.1, inRun.2, by omega⟩
          have used := whole (page - a.scanIndex k) (by omega) (by omega)
          rwa [show a.scanIndex k + (page - a.scanIndex k) = page by omega] at used
        · exact before
      · intro before
        refine ⟨.inr before, fun hit => ?_⟩
        have clear := clear_of_scanFit fit (show page - a.scanIndex k < n by omega) (by omega)
        rw [show a.scanIndex k + (page - a.scanIndex k) = page by omega] at clear
        exact clear before

end PhysAllocator

end DBSos.Memory

namespace DBSos.Vm

open DBSos.Memory

theorem identityMap2mb_takes (p : PhysMem) (pml4 start stop : Nat) (flags : BitVec 64) :
    p.alloc.Takes (identityMap2mb p pml4 start stop flags).1.alloc :=
  identityMap2mb_allocates .refl .trans PhysAllocator.palloc_takes p pml4 start stop flags

theorem identityMap2mb_keeps (p : PhysMem) (pml4 start stop : Nat) (flags : BitVec 64) :
    p.alloc.Keeps (identityMap2mb p pml4 start stop flags).1.alloc :=
  identityMap2mb_allocates .refl .trans PhysAllocator.palloc_keeps p pml4 start stop flags

end DBSos.Vm

/-!
## Runs of allocated pages

A run of `palloc_n` that does not reach past the end of the region consists of allocated
pages and shares none with a run that was allocated before. It stays allocated while no
free hits one of its pages.
-/

namespace DBSos.Memory

/-- `n` adjacent allocated pages from an address on. -/
structure AllocatedRun (a : PhysAllocator) (phys n : Nat) : Prop where
  aligned : ∃ first, phys = a.pageAddr first
  pages : ∀ page ∈ pages phys n, Allocated a page

/-- The runs share no byte. -/
def ApartRuns (phys other n : Nat) : Prop :=
  phys + n * pageSize ≤ other ∨ other + n * pageSize ≤ phys

/-- What `palloc_n` finds does not reach past the end of the region. -/
def PhysAllocator.Whole (a : PhysAllocator) (n : Nat) : Prop :=
  a.bitmapAddr ≠ 0 → n ≤ a.freePages → ∀ k, a.ScanFit n k → a.scanIndex k + n ≤ a.totalPages

variable {a b : PhysAllocator} {phys other n : Nat}

theorem ApartRuns.symm (apart : ApartRuns phys other n) : ApartRuns other phys n := Or.symm apart

theorem whole_iff (positive : 0 < n) : a.Whole n ↔ (a.bitmapAddr ≠ 0 → n ≤ a.freePages →
    ∀ s ∈ a.scanRun n (List.range' a.firstPage a.totalPages) a.firstPage 0,
      s + n ≤ a.totalPages) := by
  simp only [PhysAllocator.Whole, Option.mem_def, PhysAllocator.scanRun_eq_some_iff positive]
  refine imp_congr_right fun _ => imp_congr_right fun _ => ⟨?_, fun whole k fit => ?_⟩
  · rintro whole s ⟨k, fit, rfl⟩
    exact whole k fit
  · exact whole _ ⟨k, fit, rfl⟩

theorem PhysAllocator.pageAddr_add (a : PhysAllocator) (first i : Nat) :
    a.pageAddr first + i * pageSize = a.pageAddr (first + i) := by
  simp only [pageAddr, Nat.add_mul, Nat.add_assoc]

theorem AllocatedRun.keeps (run : AllocatedRun a phys n) (keeps : a.Keeps b) :
    AllocatedRun b phys n := by
  obtain ⟨first, rfl⟩ := run.aligned
  refine ⟨⟨first, ?_⟩, fun page member => keeps.kept page (run.pages page member)⟩
  simp only [PhysAllocator.pageAddr, keeps.start]

/-- Frees that hit no page of a run leave it allocated. -/
theorem AllocatedRun.frees (run : AllocatedRun a phys n) {freed : List Nat}
    (spared : ∀ page ∈ Memory.pages phys n, ∀ one ∈ freed, ¬ a.Hits one page) :
    AllocatedRun (freed.foldl PhysAllocator.pfree a) phys n := by
  obtain ⟨first, rfl⟩ := run.aligned
  refine ⟨⟨first, ?_⟩, fun page member => ?_⟩
  · simp only [PhysAllocator.pageAddr, (PhysAllocator.foldl_pfree_sameRegion freed a).start]
  · exact PhysAllocator.foldl_pfree_allocated (run.pages page member) (spared page member)

/-- Page-aligned runs are apart exactly when no page of one is hit by a free of one of the
other. -/
theorem apartRuns_iff (aligned : ∃ first, phys = a.pageAddr first)
    (alignedOther : ∃ first, other = a.pageAddr first) :
    ApartRuns phys other n ↔
      ∀ page ∈ pages phys n, ∀ one ∈ pages other n, ¬ a.Hits one page := by
  obtain ⟨first, rfl⟩ := aligned
  obtain ⟨second, rfl⟩ := alignedOther
  have addresses : ApartRuns (a.pageAddr first) (a.pageAddr second) n ↔
      first + n ≤ second ∨ second + n ≤ first := by
    simp only [ApartRuns, PhysAllocator.pageAddr, pageSize]
    omega
  have hits (i j : Nat) : a.Hits (a.pageAddr second + j * pageSize)
      (a.pageAddr first + i * pageSize) ↔ second + j = first + i := by
    rw [a.pageAddr_add, a.pageAddr_add, PhysAllocator.Hits, PhysAllocator.pageOf_pageAddr,
      PhysAllocator.pageOf_pageAddr]
    exact and_iff_right (by simp [PhysAllocator.pageAddr])
  rw [addresses]
  constructor
  · intro apart page member one hit
    obtain ⟨i, inFirst, rfl⟩ := Ownership.mem_pages.mp member
    obtain ⟨j, inSecond, rfl⟩ := Ownership.mem_pages.mp hit
    rw [hits]
    omega
  · intro spared
    by_contra overlap
    rcases Nat.le_total first second with below | above
    · refine spared _ (Ownership.mem_pages.mpr ⟨second - first, by omega, rfl⟩) _
        (Ownership.mem_pages.mpr ⟨0, by omega, rfl⟩) ((hits _ _).mpr ?_)
      omega
    · refine spared _ (Ownership.mem_pages.mpr ⟨0, by omega, rfl⟩) _
        (Ownership.mem_pages.mpr ⟨first - second, by omega, rfl⟩) ((hits _ _).mpr ?_)
      omega

/-- A run that `palloc_n` takes inside the region is allocated, and apart from every run
that was. -/
theorem pallocN_run (positive : 0 < n) (whole : a.Whole n) (taken : (a.pallocN n).1 ≠ 0) :
    AllocatedRun (a.pallocN n).2 (a.pallocN n).1 n ∧
      ∀ other, AllocatedRun a other n → ApartRuns other (a.pallocN n).1 n := by
  have unhit := fun {page : Nat} (allocated : Allocated a page) {i : Nat} =>
    PhysAllocator.not_hits_pallocN (i := i) positive taken allocated
  rcases a.pallocN_cases positive with failed | ⟨k, fit, enough, mapped, result⟩
  · exact absurd (by rw [failed]) taken
  · have inside := whole mapped enough k fit
    refine ⟨⟨⟨a.scanIndex k, by rw [result]; rfl⟩, fun page member => ?_⟩, fun other run => ?_⟩
    · obtain ⟨i, inRun, rfl⟩ := Ownership.mem_pages.mp member
      rw [result, a.pageAddr_add]
      refine ⟨by simp [PhysAllocator.pageAddr], ?_, ?_⟩
      · have index := a.pageOf_pageAddr (a.scanIndex k + i)
        simp only [PhysAllocator.pageOf] at index ⊢
        omega
      · have index := a.pageOf_pageAddr (a.scanIndex k + i)
        simp only [PhysAllocator.pageOf] at index ⊢
        rw [index, PhysAllocator.used_setRun]
        exact .inl ⟨by omega, by omega⟩
    · refine (apartRuns_iff run.aligned ⟨a.scanIndex k, by rw [result]⟩).mpr ?_
      intro page member one fresh
      obtain ⟨i, inRun, rfl⟩ := Ownership.mem_pages.mp fresh
      exact unhit (run.pages page member) inRun

end DBSos.Memory
