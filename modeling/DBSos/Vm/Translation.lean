import DBSos.Lib.Radix
import DBSos.Vm.PageTable

/-!
# What the processor translates

The processor reads the tables of `vm` as a radix table: level 3 is the PML4, a
present entry with `PTE_HUGE` is a leaf of 1 GiB at level 2 and of 2 MiB at
level 1. `map_page` changes the translation of one page, in every address space
that meets the caller's at its PML4 entry, and no other translation.
-/

namespace DBSos.Vm

open DBSos.Memory DBSos.Radix

/-- The bytes below an entry of this level. -/
def spanOf (level : Nat) : Nat := 2 ^ (12 + 9 * level)

/-- The format of x86-64 page tables; the place of an address is physical. -/
def x86 : Format Nat Nat (BitVec 64) (BitVec 64) Nat where
  index level virt := ((virt >>> (12 + 9 * level)) &&& 0x1FF#64).toNat
  decode level entry :=
    if ¬ Present entry then .absent
    else if level = 0 then .leaf fun virt => physFromPte entry + virt.toNat % spanOf 0
    else if Huge entry ∧ level < 3 then
      .leaf fun virt => physFromPte entry / spanOf level * spanOf level + virt.toNat % spanOf level
    else .table (physFromPte entry)

/-- The physical address of a virtual one. -/
def translate (mem : PageMem) (pml4 : Nat) (virt : BitVec 64) : Option Nat :=
  x86.lookup mem 3 pml4 virt

/-- The bits of an entry that the split of a 2 MiB page hands on. -/
def x86Flags : Format Nat Nat (BitVec 64) (BitVec 64) (BitVec 64) :=
  x86.relabel fun _ entry _ => splitFlags entry

/-- The permission bits in the leaf of an address. -/
def leafFlags (mem : PageMem) (pml4 : Nat) (virt : BitVec 64) : Option (BitVec 64) :=
  x86Flags.lookup mem 3 pml4 virt

theorem index_three (virt : BitVec 64) : x86.index 3 virt = pml4Index virt := rfl
theorem index_two (virt : BitVec 64) : x86.index 2 virt = pdptIndex virt := rfl
theorem index_one (virt : BitVec 64) : x86.index 1 virt = pdIndex virt := rfl
theorem index_zero (virt : BitVec 64) : x86.index 0 virt = ptIndex virt := rfl

/-- The tables of the address spaces `roots`. No free page is a table, and 2 MiB
entries are aligned. -/
structure Tables (p : PhysMem) (roots : Set Nat) (level : Nat → Option Nat) : Prop extends
    Layout x86 p.mem 2 roots level where
  start : pageSize ∣ p.alloc.physStart
  small : p.alloc.physStart + p.alloc.totalPages * pageSize ≤ 2 ^ 48
  hint : p.alloc.firstPage ≤ p.alloc.totalPages
  unused : ∀ i < p.alloc.totalPages, ¬ Used p.alloc.bitmap i → level (p.alloc.pageAddr i) = none
  aligned : ∀ t virt, level t = some 1 → Present (getPte p.mem t (pdIndex virt)) →
    Huge (getPte p.mem t (pdIndex virt)) →
      spanOf 1 ∣ physFromPte (getPte p.mem t (pdIndex virt))

/-! ## Entry words -/

/-- The bits of a field. -/
theorem and_field (n width low : Nat) :
    n &&& (2 ^ width - 1) * 2 ^ low = n / 2 ^ low % 2 ^ width * 2 ^ low := by
  apply Nat.eq_of_testBit_eq
  intro bit
  simp only [Nat.testBit_and, Nat.testBit_mul_two_pow, Nat.testBit_mod_two_pow,
    Nat.testBit_div_two_pow, Nat.testBit_two_pow_sub_one]
  by_cases above : low ≤ bit
  · simp [above, Bool.and_comm]
  · simp [above]

theorem physFromPte_eq (entry : BitVec 64) :
    physFromPte entry = entry.toNat / 2 ^ 12 % 2 ^ 36 * 2 ^ 12 := by
  have mask : pageMask.toNat = (2 ^ 36 - 1) * 2 ^ 12 := by decide
  rw [physFromPte, BitVec.toNat_and, mask, and_field]

/-- The address field of a word with other bits set. -/
theorem physFromPte_or (word extra : BitVec 64) (outside : extra &&& pageMask = 0#64) :
    physFromPte (word ||| extra) = physFromPte word := by
  rw [physFromPte, BitVec.and_or_distrib_right, outside, BitVec.or_zero, physFromPte]

/-- A page address is its own address field. -/
theorem physFromPte_page {page : Nat} (aligned : pageSize ∣ page) (small : page < 2 ^ 48) :
    physFromPte (BitVec.ofNat 64 page) = page := by
  obtain ⟨index, rfl⟩ := aligned
  rw [physFromPte_eq, BitVec.toNat_ofNat]
  simp only [pageSize] at small ⊢
  omega

theorem present_iff {entry : BitVec 64} : Present entry ↔ entry.getLsbD 0 = true := by
  have one : ptePresent = BitVec.twoPow 64 0 := by decide
  rw [Present, one, BitVec.and_twoPow]
  split_ifs with bit
  · exact iff_of_true (by decide) bit
  · exact iff_of_false (not_not.mpr rfl) bit

theorem huge_iff {entry : BitVec 64} : Huge entry ↔ entry.getLsbD 7 = true := by
  have one : pteHuge = BitVec.twoPow 64 7 := by decide
  rw [Huge, one, BitVec.and_twoPow]
  split_ifs with bit
  · exact iff_of_true (by decide) bit
  · exact iff_of_false (not_not.mpr rfl) bit

/-- A page address has no bits below 12. -/
theorem getLsbD_page {page bit : Nat} (aligned : pageSize ∣ page) (low : bit < 12) :
    (BitVec.ofNat 64 page).getLsbD bit = false := by
  obtain ⟨index, rfl⟩ := aligned
  have power : pageSize * index = index * 2 ^ 12 := by simp [pageSize, Nat.mul_comm]
  rw [BitVec.getLsbD_ofNat, power, Nat.testBit_mul_two_pow]
  simp [show ¬ 12 ≤ bit by omega]

/-- A present word that is not a leaf enters a table. -/
theorem decode_table {level : Nat} {entry : BitVec 64} (present : Present entry)
    (above : level ≠ 0) (notLeaf : level < 3 → ¬ Huge entry) :
    x86.decode level entry = .table (physFromPte entry) := by
  simp only [x86]
  rw [if_neg (not_not.mpr present), if_neg above, if_neg]
  rintro ⟨huge, low⟩
  exact notLeaf low huge

theorem decode_absent {level : Nat} {entry : BitVec 64} (absent : ¬ Present entry) :
    x86.decode level entry = .absent := by
  simp only [x86]
  rw [if_pos absent]

/-- An entry of a page table. -/
theorem decode_page {entry : BitVec 64} (present : Present entry) :
    x86.decode 0 entry = .leaf fun virt => physFromPte entry + virt.toNat % spanOf 0 := by
  simp only [x86]
  rw [if_neg (not_not.mpr present), if_true]

theorem decode_zero_ne_table (entry : BitVec 64) (next : Nat) :
    x86.decode 0 entry ≠ .table next := by
  by_cases present : Present entry
  · rw [decode_page present]
    exact nofun
  · rw [decode_absent present]
    exact nofun

/-- A huge entry. -/
theorem decode_huge {level : Nat} {entry : BitVec 64} (present : Present entry)
    (huge : Huge entry) (above : level ≠ 0) (low : level < 3) :
    x86.decode level entry =
      .leaf fun virt =>
        physFromPte entry / spanOf level * spanOf level + virt.toNat % spanOf level := by
  simp only [x86]
  rw [if_neg (not_not.mpr present), if_neg above, if_pos ⟨huge, low⟩]

/-- An entered table is in the address field. -/
theorem physFromPte_of_entry {mem : PageMem} {l t next : Nat} {virt : BitVec 64}
    (found : x86.entry mem l t virt = .table next) :
    physFromPte (getPte mem t (x86.index l virt)) = next := by
  simp only [Format.entry, x86] at found
  split_ifs at found
  exact Entry.table.inj found

/-- The word for a new table page. -/
theorem decode_newTable {level page : Nat} {extra : BitVec 64} (aligned : pageSize ∣ page)
    (small : page < 2 ^ 48) (above : level ≠ 0) (present : Present extra)
    (outside : extra &&& (pageMask ||| pteHuge) = 0#64) :
    x86.decode level (BitVec.ofNat 64 page ||| extra) = .table page := by
  rw [BitVec.and_or_distrib_left, BitVec.or_eq_zero_iff] at outside
  have isPresent : Present (BitVec.ofNat 64 page ||| extra) := by
    rw [present_iff, BitVec.getLsbD_or, present_iff.mp present, Bool.or_true]
  have notHuge : ¬ Huge (BitVec.ofNat 64 page ||| extra) := by
    have clear : ¬ Huge extra := not_not.mpr outside.2
    rw [huge_iff] at clear ⊢
    rw [BitVec.getLsbD_or, getLsbD_page aligned (by omega), Bool.false_or]
    exact clear
  rw [decode_table isPresent above fun _ => notHuge, physFromPte_or _ _ outside.1,
    physFromPte_page aligned small]

/-! ## Steps that keep every translation -/

/-- What the walk's own steps keep. -/
structure Kept (p p' : PhysMem) (roots : Set Nat) (level level' : Nat → Option Nat) : Prop where
  tables : Tables p' roots level'
  grows : ∀ t l, level t = some l → level' t = some l
  translates : ∀ r ∈ roots, ∀ virt, translate p'.mem r virt = translate p.mem r virt
  flags : ∀ r ∈ roots, ∀ virt, leafFlags p'.mem r virt = leafFlags p.mem r virt
  meets : ∀ r ∈ roots, ∀ s ∈ roots, ∀ virt,
    x86.Meet p'.mem 3 r s virt ↔ x86.Meet p.mem 3 r s virt
  stays : ∀ t l virt next, level t = some (l + 1) → x86.entry p.mem (l + 1) t virt = .table next →
    x86.entry p'.mem (l + 1) t virt = .table next

variable {p p' p'' : PhysMem} {roots : Set Nat} {level level' level'' : Nat → Option Nat}

theorem Kept.refl (tables : Tables p roots level) : Kept p p roots level level where
  tables := tables
  grows := fun _ _ known => known
  translates := fun _ _ _ => rfl
  flags := fun _ _ _ => rfl
  meets := fun _ _ _ _ _ => Iff.rfl
  stays := fun _ _ _ _ _ found => found

theorem Kept.trans (first : Kept p p' roots level level') (second : Kept p' p'' roots level' level'') :
    Kept p p'' roots level level'' where
  tables := second.tables
  grows := fun t l known => second.grows t l (first.grows t l known)
  translates := fun r isRoot virt =>
    (second.translates r isRoot virt).trans (first.translates r isRoot virt)
  flags := fun r isRoot virt => (second.flags r isRoot virt).trans (first.flags r isRoot virt)
  meets := fun r rootR s rootS virt =>
    (second.meets r rootR s rootS virt).trans (first.meets r rootR s rootS virt)
  stays := fun t l virt next known found =>
    second.stays t l virt next (first.grows t _ known) (first.stays t l virt next known found)

/-- A page that no table entry, and no later allocation, refers to. -/
structure FreshPage (alloc : PhysAllocator) (level : Nat → Option Nat) (page : Nat) : Prop where
  aligned : pageSize ∣ page
  small : page < 2 ^ 48
  unused : level page = none
  taken : ∀ i < alloc.totalPages, ¬ Used alloc.bitmap i → alloc.pageAddr i ≠ page

/-- An allocation keeps the tables, and its page is fresh. -/
theorem Tables.palloc {alloc : PhysAllocator} {page : Nat} (tables : Tables p roots level)
    (result : p.alloc.palloc = (page, alloc)) :
    Tables ⟨alloc, p.mem⟩ roots level ∧ (page ≠ 0 → FreshPage alloc level page) := by
  obtain ⟨layout, start, small, hint, unused, aligned⟩ := tables
  rcases p.alloc.palloc_cases with failed | ⟨i, next, clear, -, -, bound, taken⟩
  · obtain ⟨rfl, rfl⟩ := Prod.mk.inj (failed.symm.trans result)
    exact ⟨⟨layout, start, small, hint, unused, aligned⟩, fun nonzero => absurd rfl nonzero⟩
  · have inside : i < p.alloc.totalPages := by omega
    obtain ⟨rfl, rfl⟩ := Prod.mk.inj (taken.symm.trans result)
    refine ⟨⟨layout, start, small, ?_, ?_, aligned⟩, fun _ => ⟨?_, ?_, unused i inside clear, ?_⟩⟩
    · dsimp only
      omega
    · intro other otherInside otherClear
      exact unused other otherInside fun used => otherClear (used_bitSet_one.mpr (.inr used))
    · exact Nat.dvd_add start (Nat.dvd_mul_left _ _)
    · have step : i * pageSize + pageSize ≤ p.alloc.totalPages * pageSize := by
        rw [← Nat.succ_mul]
        exact Nat.mul_le_mul_right _ inside
      simp only [PhysAllocator.pageAddr, pageSize] at small step ⊢
      omega
    · intro other _ otherClear same
      refine otherClear (used_bitSet_one.mpr (.inl ?_))
      simp only [PhysAllocator.pageAddr, pageSize] at same
      omega

/-- A fresh table is entered. -/
theorem Tables.link {alloc : PhysAllocator} {t i page l : Nat} {entry : BitVec 64}
    {content : Nat → BitVec 64} (tables : Tables ⟨alloc, p.mem⟩ roots level)
    (fits : Layout.Fits x86 p.mem level t i entry page content l)
    (agrees : ∀ virt, x86.index (l + 1) virt = i →
      (x86Flags.decode l (content (x86.index l virt))).value virt =
        (x86Flags.decode (l + 1) (p.mem t i)).value virt)
    (fresh : FreshPage alloc level page)
    (empty : l ≠ 0 → ∀ j, ¬ Present (content j)) :
    Kept p ⟨alloc, Layout.linked p.mem t i entry page content⟩ roots level
      (Layout.withFresh level page l) where
  tables := by
    refine ⟨tables.toLayout.link fits, tables.start, tables.small, tables.hint, ?_, ?_⟩
    · intro j inside clear
      have other := fresh.taken j inside clear
      simpa [Layout.withFresh, other] using tables.unused j inside clear
    · intro s virt sLevel present huge
      simp only [getPte] at present huge ⊢
      by_cases new : s = page
      · subst new
        obtain rfl : l = 1 := by simpa [Layout.withFresh] using sLevel
        refine absurd ?_ (empty (by decide) (pdIndex virt))
        rwa [fits.linked_fresh] at present
      · have old : level s = some 1 := by simpa [Layout.withFresh, new] using sLevel
        rw [fits.linked_of_level old] at present huge ⊢
        split_ifs at present huge ⊢ with replaced
        · obtain ⟨rfl, -⟩ := replaced
          obtain rfl : l = 0 := by
            have above := fits.above
            simp only [old, Option.some.injEq] at above
            omega
          have enters := fits.enters
          simp [x86, present, huge] at enters
        · exact tables.aligned s virt old present huge
  grows := fun _ _ known => Layout.withFresh_of_level fits known
  translates := fun r isRoot virt =>
    tables.toLayout.lookup_link fits (tables.root r isRoot) virt
  flags := fun r isRoot virt =>
    (tables.toLayout.relabel _).lookup_link (fits.relabel agrees) (tables.root r isRoot) virt
  meets := fun r rootR s rootS virt => tables.toLayout.meet_link fits rootR rootS
  stays := fun s k virt next known found => fits.table_stays known found

theorem Kept.realloc {alloc : PhysAllocator} (tables : Tables ⟨alloc, p.mem⟩ roots level) :
    Kept p ⟨alloc, p.mem⟩ roots level level :=
  { Kept.refl tables with }

/-- An empty table may replace an absent entry. -/
theorem fits_empty {alloc : PhysAllocator} {t l page : Nat} {virt extra : BitVec 64}
    (above : level t = some (l + 1)) (fresh : FreshPage alloc level page)
    (absent : ¬ Present (getPte p.mem t (x86.index (l + 1) virt))) (present : Present extra)
    (outside : extra &&& (pageMask ||| pteHuge) = 0#64) :
    Layout.Fits x86 p.mem level t (x86.index (l + 1) virt) (BitVec.ofNat 64 page ||| extra) page
      (fun _ => 0#64) l := by
  have absent : x86.decode (l + 1) (p.mem t (x86.index (l + 1) virt)) = .absent :=
    decode_absent absent
  have empty : x86.decode l 0#64 = .absent := decode_absent (by decide)
  refine ⟨above, fresh.unused,
    decode_newTable fresh.aligned fresh.small (by omega) present outside, ?_, ?_, ?_⟩
  · intro a next
    simp [empty]
  · intro next
    simp [absent]
  · intro a _
    rw [absent, empty]

/-- Neither has a place, of whatever kind. -/
theorem relabel_empty {Q : Type} (place : Nat → BitVec 64 → BitVec 64 → Q) {t i l : Nat}
    (absent : ¬ Present (getPte p.mem t i)) (virt : BitVec 64) :
    ((x86.relabel place).decode l 0#64).value virt =
      ((x86.relabel place).decode (l + 1) (p.mem t i)).value virt := by
  have absent : x86.decode (l + 1) (p.mem t i) = .absent := decode_absent absent
  have empty : x86.decode l 0#64 = .absent := decode_absent (by decide)
  simp only [Format.relabel, absent, empty]

/-- The arm that fills an absent entry. -/
theorem Tables.ensureTable {t l : Nat} (tables : Tables p roots level)
    (above : level t = some (l + 1)) (virt : BitVec 64) :
    ∃ level', Kept p (ensureTable p t (x86.index (l + 1) virt) true).1 roots level level' ∧
      ((Vm.ensureTable p t (x86.index (l + 1) virt) true).2 = some () →
        (l + 1 < 3 → ¬ Huge (getPte p.mem t (x86.index (l + 1) virt))) →
          ∃ next, x86.entry (Vm.ensureTable p t (x86.index (l + 1) virt) true).1.mem (l + 1) t virt =
            .table next) := by
  unfold Vm.ensureTable
  split_ifs with present
  · exact ⟨level, .refl tables, fun _ notLeaf => ⟨_, decode_table present (by omega) notLeaf⟩⟩
  · contradiction
  · rcases result : p.alloc.palloc with ⟨page, alloc⟩
    obtain ⟨kept, fresh⟩ := tables.palloc result
    dsimp only
    split_ifs with failed
    · exact ⟨level, .realloc kept, nofun⟩
    · have fresh := fresh failed
      have fits := fits_empty above fresh present
        (show Present (ptePresent ||| (pteWritable ||| pteUser)) by decide) (by decide)
      rw [← BitVec.or_assoc, ← BitVec.or_assoc] at fits
      exact ⟨_, kept.link fits (fun virt' _ => relabel_empty _ present virt') fresh
        fun _ _ => by decide, fun _ _ => ⟨page, fits.entry_new rfl⟩⟩

/-! ## Splitting a 2 MiB entry -/

theorem index_eq (l : Nat) (virt : BitVec 64) :
    x86.index l virt = virt.toNat / 2 ^ (12 + 9 * l) % 512 := by
  have mask : (0x1FF#64).toNat = 2 ^ 9 - 1 := by decide
  simp only [x86]
  rw [BitVec.toNat_and, mask, Nat.and_two_pow_sub_one_eq_mod, BitVec.toNat_ushiftRight,
    Nat.shiftRight_eq_div_pow]

theorem splitFlags_outside (entry : BitVec 64) : splitFlags entry &&& pageMask = 0#64 := by
  rw [splitFlags, BitVec.and_assoc, show ~~~(pageMask ||| pteHuge ||| pteAccessed ||| pteDirty) &&&
    pageMask = 0#64 by decide, BitVec.and_zero]

theorem pageSize_dvd_physFromPte (entry : BitVec 64) : pageSize ∣ physFromPte entry := by
  rw [physFromPte_eq]
  exact Nat.dvd_mul_left _ _

/-- A 4 KiB entry is present if the 2 MiB entry was. -/
theorem present_splitEntry {entry : BitVec 64} {i : Nat} :
    Present (splitEntry entry i) ↔ Present entry := by
  have page : pageSize ∣ physFromPte entry + i * 4096 :=
    Nat.dvd_add (pageSize_dvd_physFromPte entry) (Nat.dvd_mul_left _ _)
  have keeps : (~~~(pageMask ||| pteHuge ||| pteAccessed ||| pteDirty)).getLsbD 0 = true := by decide
  rw [present_iff, present_iff, splitEntry, BitVec.getLsbD_or, getLsbD_page page (by omega),
    splitFlags, BitVec.getLsbD_and, keeps, Bool.false_or, Bool.and_true]

theorem physFromPte_splitEntry {entry : BitVec 64} {i : Nat} (inside : i < 512)
    (aligned : spanOf 1 ∣ physFromPte entry) :
    physFromPte (splitEntry entry i) = physFromPte entry + i * 4096 := by
  have small : physFromPte entry < 2 ^ 48 := by
    rw [physFromPte_eq]
    omega
  obtain ⟨frame, address⟩ := aligned
  rw [splitEntry, physFromPte_or _ _ (splitFlags_outside entry), physFromPte_page]
  · exact Nat.dvd_add (pageSize_dvd_physFromPte entry) (Nat.dvd_mul_left _ _)
  · simp only [spanOf] at address
    omega

/-- The 4 KiB entries have the places of the 2 MiB entry. -/
theorem split_agrees {entry : BitVec 64} (huge : Huge entry)
    (aligned : Present entry → spanOf 1 ∣ physFromPte entry) (virt : BitVec 64) :
    (x86.decode 0 (splitEntry entry (x86.index 0 virt))).value virt =
      (x86.decode 1 entry).value virt := by
  by_cases present : Present entry
  · have inside : x86.index 0 virt < 512 := by
      rw [index_eq]
      omega
    rw [decode_huge present huge (by decide) (by decide),
      decode_page (present_splitEntry.mpr present), Entry.value, Entry.value,
      physFromPte_splitEntry inside (aligned present)]
    obtain ⟨frame, address⟩ := aligned present
    rw [address, index_eq]
    simp only [spanOf]
    refine congrArg some ?_
    omega
  · rw [decode_absent present, decode_absent fun split => present (present_splitEntry.mp split)]

/-- They have its permission bits. -/
theorem splitFlags_splitEntry {entry : BitVec 64} {i : Nat} (inside : i < 512)
    (aligned : spanOf 1 ∣ physFromPte entry) :
    splitFlags (splitEntry entry i) = splitFlags entry := by
  have small : physFromPte entry < 2 ^ 48 := by
    rw [physFromPte_eq]
    omega
  have page : BitVec.ofNat 64 (physFromPte entry + i * 4096) &&& pageMask =
      BitVec.ofNat 64 (physFromPte entry + i * 4096) := by
    apply BitVec.eq_of_toNat_eq
    rw [← physFromPte, physFromPte_page, BitVec.toNat_ofNat, Nat.mod_eq_of_lt]
    · omega
    · exact Nat.dvd_add (pageSize_dvd_physFromPte entry) (Nat.dvd_mul_left _ _)
    · obtain ⟨frame, address⟩ := aligned
      simp only [spanOf] at address
      omega
  have apart : pageMask &&& ~~~(pageMask ||| pteHuge ||| pteAccessed ||| pteDirty) = 0#64 := by
    decide
  rw [splitEntry, splitFlags, splitFlags, BitVec.and_or_distrib_right, ← page, BitVec.and_assoc,
    apart, BitVec.and_zero, BitVec.zero_or, BitVec.and_assoc, BitVec.and_self]

/-- The arm that splits a 2 MiB entry. -/
theorem Tables.splitHuge {t : Nat} (tables : Tables p roots level) (above : level t = some 1)
    (virt : BitVec 64) (huge : Huge (getPte p.mem t (x86.index 1 virt))) :
    ∃ level', Kept p (splitHuge p t (x86.index 1 virt)).1 roots level level' ∧
      ((Vm.splitHuge p t (x86.index 1 virt)).2 = some () →
        ∃ next, x86.entry (Vm.splitHuge p t (x86.index 1 virt)).1.mem 1 t virt = .table next) := by
  unfold Vm.splitHuge
  rcases result : p.alloc.palloc with ⟨page, alloc⟩
  obtain ⟨kept, fresh⟩ := tables.palloc result
  dsimp only
  split_ifs with failed
  · exact ⟨level, .realloc kept, nofun⟩
  · have fresh := fresh failed
    have enters : x86.decode 1 (tableEntry page |||
        (getPte p.mem t (x86.index 1 virt) &&& pteGlobal)) = .table page := by
      rw [tableEntry, BitVec.or_assoc, BitVec.or_assoc, BitVec.or_assoc]
      refine decode_newTable fresh.aligned fresh.small (by decide) ?_ ?_
      · rw [present_iff, BitVec.getLsbD_or]
        rfl
      · simp only [BitVec.and_or_distrib_right, BitVec.and_assoc]
        rw [show pteGlobal &&& (pageMask ||| pteHuge) = 0#64 by decide, BitVec.and_zero]
        decide
    have fits : Layout.Fits x86 p.mem level t (x86.index 1 virt)
        (tableEntry page ||| (getPte p.mem t (x86.index 1 virt) &&& pteGlobal)) page
        (fun i => if i < 512 then splitEntry (getPte p.mem t (x86.index 1 virt)) i else 0#64) 0 := by
      refine ⟨above, fresh.unused, enters, fun a next => decode_zero_ne_table _ _, ?_, ?_⟩
      · intro next
        by_cases present : Present (getPte p.mem t (x86.index 1 virt))
        · have leaf := decode_huge present huge (show 0 + 1 ≠ 0 by decide) (by decide)
          simp only [getPte] at leaf
          simp [leaf]
        · have absent : x86.decode 1 (p.mem t (x86.index 1 virt)) = .absent := decode_absent present
          simp [absent]
      · intro a index
        have inside : x86.index 0 a < 512 := by
          rw [index_eq]
          omega
        rw [if_pos inside]
        exact split_agrees huge (fun present => tables.aligned t virt above present huge) a
    have agrees (virt' : BitVec 64) (_ : x86.index (0 + 1) virt' = x86.index 1 virt) :
        (x86Flags.decode 0 (if x86.index 0 virt' < 512 then
            splitEntry (getPte p.mem t (x86.index 1 virt)) (x86.index 0 virt') else 0#64)).value virt' =
          (x86Flags.decode 1 (getPte p.mem t (x86.index 1 virt))).value virt' := by
      have inside : x86.index 0 virt' < 512 := by
        rw [index_eq]
        omega
      rw [if_pos inside]
      unfold x86Flags Format.relabel
      by_cases present : Present (getPte p.mem t (x86.index 1 virt))
      · simp only [decode_page (present_splitEntry.mpr present),
          decode_huge present huge (show 1 ≠ 0 by decide) (show 1 < 3 by decide), Entry.value]
        exact congrArg some
          (splitFlags_splitEntry inside (tables.aligned t virt above present huge))
      · simp only [decode_absent present,
          decode_absent fun split => present (present_splitEntry.mp split)]
    exact ⟨_, kept.link fits agrees fresh nofun, fun _ => ⟨page, fits.entry_new rfl⟩⟩

/-! ## Mapping a page -/

/-- The last arm of the walk: a huge entry is split, an absent one filled. -/
theorem Tables.lastArm {t : Nat} (tables : Tables p roots level) (above : level t = some 1)
    (virt : BitVec 64) :
    ∃ level', Kept p (if Huge (getPte p.mem t (x86.index 1 virt)) then
        Vm.splitHuge p t (x86.index 1 virt)
          else Vm.ensureTable p t (x86.index 1 virt) true).1 roots level level' ∧
      ((if Huge (getPte p.mem t (x86.index 1 virt)) then Vm.splitHuge p t (x86.index 1 virt)
          else Vm.ensureTable p t (x86.index 1 virt) true).2 = some () →
        ∃ next, x86.entry (if Huge (getPte p.mem t (x86.index 1 virt)) then
          Vm.splitHuge p t (x86.index 1 virt)
            else Vm.ensureTable p t (x86.index 1 virt) true).1.mem 1 t virt = .table next) := by
  by_cases huge : Huge (getPte p.mem t (x86.index 1 virt))
  · simp only [if_pos huge]
    exact tables.splitHuge above virt huge
  · simp only [if_neg huge]
    obtain ⟨level', kept, found⟩ := tables.ensureTable above virt
    exact ⟨level', kept, fun linked => found linked fun _ => huge⟩

/-- `walk_or_create` keeps every translation and finds the page table that the
processor walks to. -/
theorem Tables.walkOrCreate (tables : Tables p roots level) {pml4 : Nat} (isRoot : pml4 ∈ roots)
    (virt : BitVec 64) :
    ∃ level', Kept p (walkOrCreate p pml4 virt true).1 roots level level' ∧
      ∀ pte entry, (Vm.walkOrCreate p pml4 virt true).2 = some (pte, entry) →
        pte.index = x86.index 0 virt ∧ level' pte.table = some 0 ∧
          x86.lastTable (Vm.walkOrCreate p pml4 virt true).1.mem 3 pml4 virt = some pte.table := by
  have rootLevel := tables.root pml4 isRoot
  obtain ⟨level1, kept1, found1⟩ := tables.ensureTable rootLevel virt
  rw [index_three] at kept1 found1
  unfold Vm.walkOrCreate
  rcases step1 : Vm.ensureTable p pml4 (pml4Index virt) true with ⟨p1, _ | ⟨⟩⟩
  · rw [step1] at kept1
    exact ⟨level1, kept1, nofun⟩
  rw [step1] at kept1 found1
  obtain ⟨pdpt, entered1⟩ := found1 rfl (by omega)
  have address1 := physFromPte_of_entry entered1
  have pdptLevel := kept1.tables.below _ _ _ _ (kept1.grows _ _ rootLevel) entered1
  obtain ⟨level2, kept2, found2⟩ := kept1.tables.ensureTable pdptLevel virt
  rw [index_three] at address1
  rw [index_two] at kept2 found2
  dsimp only
  rw [address1]
  rcases step2 : Vm.ensureTable p1 pdpt (pdptIndex virt) true with ⟨p2, _ | ⟨⟩⟩
  · rw [step2] at kept2
    exact ⟨level2, kept1.trans kept2, nofun⟩
  rw [step2] at kept2 found2
  dsimp only
  by_cases huge1 : Huge (getPte p1.mem pdpt (pdptIndex virt))
  · rw [if_pos huge1]
    exact ⟨level2, kept1.trans kept2, nofun⟩
  rw [if_neg huge1, if_neg (by simp)]
  obtain ⟨pd, entered2⟩ := found2 rfl fun _ => huge1
  have address2 := physFromPte_of_entry entered2
  have pdLevel := kept2.tables.below _ _ _ _ (kept2.grows _ _ pdptLevel) entered2
  obtain ⟨level3, kept3, found3⟩ := kept2.tables.lastArm pdLevel virt
  rw [index_two] at address2
  rw [index_one] at kept3 found3
  rw [address2]
  rcases step3 : (if Huge (getPte p2.mem pd (pdIndex virt)) then Vm.splitHuge p2 pd (pdIndex virt)
    else Vm.ensureTable p2 pd (pdIndex virt) true) with ⟨p3, _ | ⟨⟩⟩
  · rw [step3] at kept3
    exact ⟨level3, kept1.trans (kept2.trans kept3), nofun⟩
  rw [step3] at kept3 found3
  obtain ⟨pt, entered3⟩ := found3 rfl
  have address3 := physFromPte_of_entry entered3
  have ptLevel := kept3.tables.below _ _ _ _ (kept3.grows _ _ pdLevel) entered3
  rw [index_one] at address3
  refine ⟨level3, kept1.trans (kept2.trans kept3), ?_⟩
  intro pte entry result
  obtain ⟨rfl, -⟩ := Prod.mk.inj (Option.some.inj result)
  dsimp only at address3 ⊢
  rw [address3]
  refine ⟨rfl, ptLevel, ?_⟩
  have stays1 := (kept2.trans kept3).stays _ _ _ _ (kept1.grows _ _ rootLevel) entered1
  have stays2 := kept3.stays _ _ _ _ (kept2.grows _ _ pdptLevel) entered2
  rw [lastTable_succ stays1, lastTable_succ stays2, lastTable_succ entered3, Format.lastTable]

/-- The addresses of one page. -/
abbrev SamePage (virt virt' : BitVec 64) : Prop := x86.Same 3 virt virt'

/-- The address spaces translate the page of the address through one entry, or are
one. -/
abbrev Meet (mem : PageMem) (pml4 pml4' : Nat) (virt : BitVec 64) : Prop :=
  x86.Meet mem 3 pml4 pml4' virt

open Classical in
/-- The translation after the page of `virt` is mapped to `phys` in the address space
`pml4` of `mem`, and so in those that meet it there. -/
noncomputable def remap (mem : PageMem) (pml4 : Nat) (phys virt : BitVec 64)
    (before : Nat → BitVec 64 → Option Nat) (root : Nat) (virt' : BitVec 64) : Option Nat :=
  if Meet mem root pml4 virt ∧ SamePage virt' virt then
    some (physFromPte phys + virt'.toNat % spanOf 0)
  else before root virt'

/-- The walks that end at the entry of the address are those for its page, in the address
spaces that meet the caller's there. -/
theorem ends_at_page_iff {mem : PageMem} (layout : Layout x86 mem 2 roots level)
    {pml4 r last : Nat} {virt virt' : BitVec 64} (isRoot : pml4 ∈ roots) (rootR : r ∈ roots)
    (ends : x86.lastTable mem 3 pml4 virt = some last) :
    x86.lastTable mem 3 r virt' = some last ∧ x86.index 0 virt' = x86.index 0 virt ↔
      Meet mem r pml4 virt ∧ SamePage virt' virt := by
  rw [layout.lastTable_iff isRoot rootR ends]
  constructor
  · rintro ⟨⟨meet, indices⟩, last⟩
    refine ⟨meet, fun l bound => ?_⟩
    rcases Nat.eq_zero_or_pos l with rfl | positive
    · exact last
    · exact indices l positive bound
  · rintro ⟨meet, same⟩
    exact ⟨⟨meet, fun l _ bound => same l bound⟩, same 0 (by omega)⟩

/-- The word that `map_page` writes. -/
theorem decode_mapped (phys : BitVec 64) {flags : BitVec 64} (outside : flags &&& pageMask = 0#64) :
    x86.decode 0 (pteFromPhys phys ||| ptePresent ||| flags) =
      .leaf fun virt => physFromPte phys + virt.toNat % spanOf 0 := by
  rw [BitVec.or_assoc, decode_page]
  · rw [physFromPte_or, physFromPte, pteFromPhys, BitVec.and_assoc, BitVec.and_self, physFromPte]
    rw [BitVec.and_or_distrib_right, outside]
    decide
  · rw [present_iff, BitVec.getLsbD_or, BitVec.getLsbD_or]
    simp [show ptePresent.getLsbD 0 = true by decide]

/-- What `map_page` does to the address spaces `roots`. -/
structure Maps (p p' : PhysMem) (roots : Set Nat) (translation : Nat → BitVec 64 → Option Nat) :
    Prop where
  tables : ∃ level, Tables p' roots level
  meets : ∀ r ∈ roots, ∀ s ∈ roots, ∀ virt, Meet p'.mem r s virt ↔ Meet p.mem r s virt
  translates : ∀ r ∈ roots, ∀ virt, translate p'.mem r virt = translation r virt

theorem Kept.maps (kept : Kept p p' roots level level') :
    Maps p p' roots (translate p.mem) where
  tables := ⟨level', kept.tables⟩
  meets := kept.meets
  translates := kept.translates

/-- A mapped page has its new place in every address space that meets the caller's;
a page that cannot be mapped leaves every translation as it was. -/
theorem Tables.mapPage (tables : Tables p roots level) {pml4 : Nat} (isRoot : pml4 ∈ roots)
    (phys virt flags : BitVec 64) (outside : flags &&& pageMask = 0#64) :
    Maps p (mapPage p pml4 phys virt flags).1 roots
      (if (Vm.mapPage p pml4 phys virt flags).2 then remap p.mem pml4 phys virt (translate p.mem)
        else translate p.mem) := by
  obtain ⟨level', kept, found⟩ := tables.walkOrCreate isRoot virt
  unfold Vm.mapPage
  rcases walked : Vm.walkOrCreate p pml4 virt true with ⟨q, _ | ⟨pte, existing⟩⟩
  · rw [walked] at kept
    exact kept.maps
  rw [walked] at kept found
  obtain ⟨index, bottom, ends⟩ := found pte existing rfl
  dsimp only at kept ends ⊢
  by_cases null : pte.addr = 0
  · simpa [null] using kept.maps
  simp only [if_neg null, if_true]
  have layout := kept.tables.toLayout
  refine ⟨⟨level', layout.write_bottom bottom, ?_, ?_, ?_, ?_, ?_⟩, ?_, ?_⟩
  · exact kept.tables.start
  · exact kept.tables.small
  · exact kept.tables.hint
  · exact kept.tables.unused
  · intro t virt' tLevel
    have other : t ≠ pte.table := by
      rintro rfl
      simp [bottom] at tLevel
    simpa [getPte, setPte, other] using kept.tables.aligned t virt' tLevel
  · intro r rootR s rootS virt'
    exact (layout.meet_write bottom rootR rootS).trans (kept.meets r rootR s rootS virt')
  · intro r rootR virt'
    have samePage : x86.lastTable q.mem 3 r virt' = some pte.table ∧
        x86.index 0 virt' = pte.index ↔ Meet p.mem r pml4 virt ∧ SamePage virt' virt := by
      rw [index, ends_at_page_iff layout isRoot rootR ends]
      exact and_congr_left' (kept.meets r rootR pml4 isRoot virt)
    have written := layout.lookup_write bottom (decode_mapped phys outside) (layout.root r rootR) virt'
      (i := pte.index)
    refine written.trans ?_
    rw [remap]
    by_cases changes : Meet p.mem r pml4 virt ∧ SamePage virt' virt
    · rw [if_pos (samePage.mpr changes), if_pos changes]
    · rw [if_neg (fun same => changes (samePage.mp same)), if_neg changes]
      exact kept.translates r rootR virt'

end DBSos.Vm
