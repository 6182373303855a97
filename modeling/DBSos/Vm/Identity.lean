import DBSos.Vm.Frames

/-!
# What `identity_map_2mb` covers

A turn of the loop writes the entry of one 2 MiB block, in the PML4 entry of `start`. In a
1 GiB page it goes on 1 GiB further instead, wherever in the page it is.
-/

namespace DBSos.Vm

open DBSos.Radix

/-- The virtual address whose entry a turn for `addr` writes. -/
def home (i0 addr : Nat) : BitVec 64 := BitVec.ofNat 64 (i0 * 2 ^ 39 + addr % 2 ^ 39)

/-- The level of the leaf that maps an address. -/
def leafLevel (mem : PageMem) (pml4 : Nat) (virt : BitVec 64) : Option Nat :=
  (x86.relabel fun level _ _ => level).lookup mem 3 pml4 virt

/-- The addresses share their 2 MiB block. -/
def SameBlock (virt virt' : BitVec 64) : Prop :=
  x86.index 3 virt = x86.index 3 virt' ∧ x86.index 2 virt = x86.index 2 virt' ∧
    x86.index 1 virt = x86.index 1 virt'

instance (virt virt' : BitVec 64) : Decidable (SameBlock virt virt') :=
  inferInstanceAs (Decidable (_ ∧ _ ∧ _))

/-- The addresses for which the loop writes an entry, in order. -/
def turns (mem : PageMem) (pml4 i0 stop : Nat) : Nat → Nat → List Nat
  | 0, _ => []
  | fuel + 1, addr =>
    if addr < stop then
      if leafLevel mem pml4 (home i0 addr) = some 2 then
        turns mem pml4 i0 stop fuel (addr + 0x40000000)
      else addr :: turns mem pml4 i0 stop fuel (addr + 0x200000)
    else []

/-- The last of the turns that write the entry of an address. -/
def lastTurn (i0 : Nat) (addrs : List Nat) (virt : BitVec 64) : Option Nat :=
  addrs.reverse.find? fun addr => SameBlock virt (home i0 addr)

variable {p : PhysMem} {roots : Set Nat} {level : Nat → Option Nat} {pml4 : Nat}

theorem index_home {i0 addr l : Nat} (small : i0 < 512) (bound : l ≤ 3) :
    x86.index l (home i0 addr) = if l = 3 then i0 else x86.index l (BitVec.ofNat 64 addr) := by
  rw [index_eq, index_eq, home, BitVec.toNat_ofNat, BitVec.toNat_ofNat]
  obtain rfl | rfl | rfl | rfl : l = 0 ∨ l = 1 ∨ l = 2 ∨ l = 3 := by omega
  · rw [if_neg (by decide)]
    omega
  · rw [if_neg (by decide)]
    omega
  · rw [if_neg (by decide)]
    omega
  · rw [if_pos rfl]
    omega

/-- The arm of the kernel's mapping that fills an absent entry. -/
theorem Tables.kernelTable {t l : Nat} (tables : Tables p roots level)
    (above : level t = some (l + 1)) (virt : BitVec 64) :
    ∃ level', Kept p (kernelTable p t (x86.index (l + 1) virt)).1 roots level level' ∧
      (∀ r ∈ roots, ∀ virt', leafLevel (Vm.kernelTable p t (x86.index (l + 1) virt)).1.mem r virt' =
        leafLevel p.mem r virt') ∧
      ∀ next, (Vm.kernelTable p t (x86.index (l + 1) virt)).2 = some next →
        (l + 1 < 3 → Present (getPte p.mem t (x86.index (l + 1) virt)) →
          ¬ Huge (getPte p.mem t (x86.index (l + 1) virt))) →
        x86.entry (Vm.kernelTable p t (x86.index (l + 1) virt)).1.mem (l + 1) t virt =
          .table next := by
  unfold Vm.kernelTable
  rcases result : p.alloc.palloc with ⟨page, alloc⟩
  obtain ⟨kept, fresh⟩ := tables.palloc result
  dsimp only
  split_ifs with present failed
  · refine ⟨level, .refl tables, fun _ _ _ => rfl, fun next enters notLeaf => ?_⟩
    obtain rfl := Option.some.inj enters
    exact decode_table present (by omega) fun low => notLeaf low present
  · exact ⟨level, .realloc kept, fun _ _ _ => rfl, nofun⟩
  · have fresh := fresh failed
    have fits := fits_empty above fresh present
      (show Present (ptePresent ||| pteWritable) by decide) (by decide)
    rw [← BitVec.or_assoc] at fits
    have empty (place : Nat → BitVec 64 → BitVec 64 → Nat) := fits.relabel
      fun virt' _ => relabel_empty place present virt'
    refine ⟨_, kept.link fits (fun virt' _ => relabel_empty _ present virt') fresh
      fun _ _ => by decide, fun r isRoot virt' => ?_, fun next enters _ => ?_⟩
    · exact (tables.toLayout.relabel _).lookup_link (empty _) (tables.root r isRoot) virt'
    · obtain rfl := Option.some.inj enters
      exact fits.entry_new rfl

/-- The entry that a turn writes. -/
def blockEntry (addr : Nat) (flags : BitVec 64) : BitVec 64 :=
  (BitVec.ofNat 64 addr &&& 0xFFFFFFE00000#64) ||| ptePresent ||| pteHuge ||| flags

/-- The physical address of the block of an address. -/
def blockOf (addr : Nat) : Nat := addr % 2 ^ 48 / 2 ^ 21 * 2 ^ 21

theorem decode_blockEntry (addr : Nat) {flags : BitVec 64} (outside : flags &&& pageMask = 0#64) :
    Present (blockEntry addr flags) ∧ Huge (blockEntry addr flags) ∧
      physFromPte (blockEntry addr flags) = blockOf addr := by
  refine ⟨?_, ?_, ?_⟩
  · rw [present_iff, blockEntry, BitVec.getLsbD_or, BitVec.getLsbD_or, BitVec.getLsbD_or]
    simp [show ptePresent.getLsbD 0 = true by decide]
  · rw [huge_iff, blockEntry, BitVec.getLsbD_or, BitVec.getLsbD_or]
    simp [show pteHuge.getLsbD 7 = true by decide]
  · have none : (ptePresent ||| (pteHuge ||| flags)) &&& pageMask = 0#64 := by
      simp only [BitVec.and_or_distrib_right, outside]
      decide
    rw [blockEntry, BitVec.or_assoc, BitVec.or_assoc, physFromPte_or _ _ none, physFromPte,
      BitVec.and_assoc, show 0xFFFFFFE00000#64 &&& pageMask = 0xFFFFFFE00000#64 by decide,
      BitVec.toNat_and, show (0xFFFFFFE00000#64).toNat = (2 ^ 27 - 1) * 2 ^ 21 by decide, and_field,
      BitVec.toNat_ofNat, blockOf]
    omega

/-- From a table of a level there are leaves of this level and below. -/
theorem leafLevel_le {l : Nat} {t level : Nat} {mem : PageMem} {virt : BitVec 64}
    (found : (x86.relabel fun level _ _ => level).lookup mem l t virt = some level) : level ≤ l := by
  induction l generalizing t with
  | zero =>
    unfold Format.lookup Format.entry Format.relabel at found
    dsimp only at found
    cases entry : x86.decode 0 (mem t (x86.index 0 virt)) with
    | absent | table => simp [entry, Entry.value] at found
    | leaf place =>
      rw [entry] at found
      exact (Option.some.inj found).ge
  | succ l ih =>
    unfold Format.lookup Format.entry at found
    cases entry : x86.decode (l + 1) (mem t (x86.index (l + 1) virt)) with
    | absent => simp [Format.relabel, entry] at found
    | leaf place =>
      simp only [Format.relabel, entry] at found
      exact (Option.some.inj found).ge
    | table next =>
      simp only [Format.relabel, entry] at found
      exact (ih found).trans (Nat.le_succ l)

/-- A turn of the loop. In a 1 GiB page it maps nothing; elsewhere it maps one block. -/
structure Turned (p q : PhysMem) (roots : Set Nat) (pml4 i0 addr : Nat) : Prop where
  tables : ∃ level, Tables q roots level
  translates : ∀ virt, translate q.mem pml4 virt =
    if SameBlock virt (home i0 addr) then some (blockOf addr + virt.toNat % 2 ^ 21)
    else translate p.mem pml4 virt
  levels : ∀ virt, leafLevel q.mem pml4 virt =
    if SameBlock virt (home i0 addr) then some 1 else leafLevel p.mem pml4 virt

/-- The entry of a block is written into the page directory that its address goes through. -/
theorem turned_of_write {pdpt pd addr i0 : Nat} {flags : BitVec 64} (tables : Tables p roots level)
    (isRoot : pml4 ∈ roots) (outside : flags &&& pageMask = 0#64)
    (first : x86.entry p.mem 3 pml4 (home i0 addr) = .table pdpt)
    (second : x86.entry p.mem 2 pdpt (home i0 addr) = .table pd) :
    Turned p ⟨p.alloc, setPte p.mem pd (x86.index 1 (home i0 addr)) (blockEntry addr flags)⟩ roots
      pml4 i0 addr := by
  have layout := tables.toLayout
  have pdLevel := layout.below _ _ _ _ (layout.below _ _ _ _ (layout.root pml4 isRoot) first) second
  obtain ⟨present, huge, place⟩ := decode_blockEntry addr outside
  have leaf := decode_huge present huge (show 1 ≠ 0 by decide) (show 1 < 3 by decide)
  have flat (next : Nat) : x86.decode 1 (blockEntry addr flags) ≠ .table next := by
    rw [leaf]
    nofun
  refine ⟨⟨level, layout.write_flat pdLevel flat, tables.start, tables.small, tables.hint,
    tables.unused, ?_⟩, ?_, ?_⟩
  · intro t virt known presentT hugeT
    by_cases written : t = pd ∧ pdIndex virt = x86.index 1 (home i0 addr)
    · obtain ⟨rfl, same⟩ := written
      have read : getPte (setPte p.mem t (x86.index 1 (home i0 addr)) (blockEntry addr flags)) t
          (pdIndex virt) = blockEntry addr flags := by
        simp [getPte, setPte, same]
      rw [read, place]
      exact Nat.dvd_mul_left _ _
    · have read : getPte (setPte p.mem pd (x86.index 1 (home i0 addr)) (blockEntry addr flags)) t
          (pdIndex virt) = getPte p.mem t (pdIndex virt) := by
        unfold getPte setPte
        by_cases table : t = pd
        · subst table
          rw [Function.update_self, Function.update_of_ne fun same => written ⟨rfl, same⟩]
        · rw [Function.update_of_ne table]
      rw [read] at presentT hugeT ⊢
      exact tables.aligned t virt known presentT hugeT
  · intro virt
    refine (layout.lookup_write_middle isRoot first second flat virt).trans ?_
    refine if_congr Iff.rfl ?_ rfl
    rw [leaf, place]
    simp only [Entry.value, blockOf, spanOf]
    refine congrArg some ?_
    omega
  · intro virt
    refine ((layout.relabel fun level _ _ => level).lookup_write_middle isRoot
      (entry_relabel.mpr first) (entry_relabel.mpr second)
      (fun next found => flat next (decode_relabel.mp found)) virt).trans ?_
    refine if_congr Iff.rfl ?_ rfl
    simp only [Format.relabel, leaf]
    rfl

/-- A turn in a 1 GiB page. -/
structure Skipped (p q : PhysMem) (roots : Set Nat) (pml4 i0 addr : Nat) : Prop where
  tables : ∃ level, Tables q roots level
  translates : ∀ virt, translate q.mem pml4 virt = translate p.mem pml4 virt
  levels : ∀ virt, leafLevel q.mem pml4 virt = leafLevel p.mem pml4 virt

/-- One turn that does not fail. -/
theorem identityMapFrom_turn {i0 addr stop fuel : Nat} {flags : BitVec 64}
    (tables : Tables p roots level) (isRoot : pml4 ∈ roots) (small : i0 < 512)
    (outside : flags &&& pageMask = 0#64) (inside : addr < stop)
    (mapped : (identityMapFrom pml4 i0 stop flags (fuel + 1) p addr).2 = true) :
    (leafLevel p.mem pml4 (home i0 addr) = some 2 ∧ ∃ q, Skipped p q roots pml4 i0 addr ∧
        identityMapFrom pml4 i0 stop flags (fuel + 1) p addr =
          identityMapFrom pml4 i0 stop flags fuel q (addr + 0x40000000)) ∨
      ((∀ virt, SameBlock virt (home i0 addr) → leafLevel p.mem pml4 virt ≠ some 2) ∧
        ∃ q, Turned p q roots pml4 i0 addr ∧
        identityMapFrom pml4 i0 stop flags (fuel + 1) p addr =
          identityMapFrom pml4 i0 stop flags fuel q (addr + 0x200000)) := by
  have top : x86.index 3 (home i0 addr) = i0 := (index_home small le_rfl).trans (if_pos rfl)
  have middle : x86.index 2 (home i0 addr) = pdptIndex (BitVec.ofNat 64 addr) :=
    (index_home small (by decide)).trans (if_neg (by decide))
  have bottom : x86.index 1 (home i0 addr) = pdIndex (BitVec.ofNat 64 addr) :=
    (index_home small (by decide)).trans (if_neg (by decide))
  rw [identityMapFrom, if_pos inside] at mapped ⊢
  obtain ⟨level1, kept1, levels1, found1⟩ :=
    tables.kernelTable (tables.root pml4 isRoot) (home i0 addr)
  rw [top] at kept1 levels1 found1
  rcases step1 : Vm.kernelTable p pml4 i0 with ⟨p1, _ | pdpt⟩
  · rw [step1] at mapped
    cases mapped
  rw [step1] at kept1 levels1 found1 mapped
  have first : x86.entry p1.mem 3 pml4 (home i0 addr) = .table pdpt :=
    found1 pdpt rfl fun low => absurd low (by decide)
  have pdptLevel := kept1.tables.below _ _ _ _ (kept1.tables.root pml4 isRoot) first
  dsimp only at mapped ⊢
  by_cases gib : Present (getPte p1.mem pdpt (pdptIndex (BitVec.ofNat 64 addr))) ∧
      Huge (getPte p1.mem pdpt (pdptIndex (BitVec.ofNat 64 addr)))
  · rw [if_pos gib] at mapped ⊢
    refine .inl ⟨?_, p1, ⟨⟨level1, kept1.tables⟩, kept1.translates pml4 isRoot,
      levels1 pml4 isRoot⟩, rfl⟩
    rw [← levels1 pml4 isRoot, leafLevel, lookup_succ (entry_relabel.mpr first), Format.lookup,
      Format.entry]
    have leaf := decode_huge gib.1 gib.2 (show 2 ≠ 0 by decide) (show 2 < 3 by decide)
    simp only [getPte, ← middle] at leaf
    simp only [Format.relabel, leaf]
  rw [if_neg gib] at mapped ⊢
  obtain ⟨level2, kept2, levels2, found2⟩ := kept1.tables.kernelTable pdptLevel (home i0 addr)
  rw [middle] at kept2 levels2 found2
  rcases step2 : Vm.kernelTable p1 pdpt (pdptIndex (BitVec.ofNat 64 addr)) with ⟨p2, _ | pd⟩
  · rw [step2] at mapped
    cases mapped
  rw [step2] at kept2 levels2 found2
  have second : x86.entry p2.mem 2 pdpt (home i0 addr) = .table pd :=
    found2 pd rfl fun _ present huge => gib ⟨present, huge⟩
  have first : x86.entry p2.mem 3 pml4 (home i0 addr) = .table pdpt :=
    kept2.stays _ _ _ _ (kept1.tables.root pml4 isRoot) first
  have turned := turned_of_write kept2.tables isRoot outside first second
  have kept := kept1.trans kept2
  have levels (virt : BitVec 64) : leafLevel p2.mem pml4 virt = leafLevel p.mem pml4 virt :=
    (levels2 pml4 isRoot virt).trans (levels1 pml4 isRoot virt)
  refine .inr ⟨fun virt block => ?_, _, ⟨turned.tables, fun virt => ?_, fun virt => ?_⟩, ?_⟩
  · rw [← levels, leafLevel, lookup_succ (entry_relabel.mpr ((entry_congr block.1).trans first)),
      lookup_succ (entry_relabel.mpr ((entry_congr block.2.1).trans second))]
    intro found
    exact absurd (leafLevel_le found) (by decide)
  · rw [turned.translates, kept.translates pml4 isRoot]
  · rw [turned.levels, levels]
  · rw [bottom]
    rfl

/-- The turns depend on the 1 GiB pages alone. -/
theorem turns_congr {mem mem' : PageMem} {i0 stop : Nat}
    (same : ∀ virt, leafLevel mem' pml4 virt = some 2 ↔ leafLevel mem pml4 virt = some 2)
    (fuel addr : Nat) : turns mem' pml4 i0 stop fuel addr = turns mem pml4 i0 stop fuel addr := by
  induction fuel generalizing addr with
  | zero => rfl
  | succ fuel ih =>
    unfold turns
    simp only [same, ih]

/-- An address has its place from the last turn for its block. -/
theorem identityMapFrom_translates {i0 stop fuel : Nat} {flags : BitVec 64} (isRoot : pml4 ∈ roots)
    (small : i0 < 512) (outside : flags &&& pageMask = 0#64) (tables : Tables p roots level)
    (addr : Nat) (mapped : (identityMapFrom pml4 i0 stop flags fuel p addr).2 = true)
    (virt : BitVec 64) :
    translate (identityMapFrom pml4 i0 stop flags fuel p addr).1.mem pml4 virt =
      match lastTurn i0 (turns p.mem pml4 i0 stop fuel addr) virt with
      | some last => some (blockOf last + virt.toNat % 2 ^ 21)
      | none => translate p.mem pml4 virt := by
  induction fuel generalizing p level addr with
  | zero => rfl
  | succ fuel ih =>
    by_cases inside : addr < stop
    swap
    · rw [identityMapFrom, if_neg inside, turns, if_neg inside]
      rfl
    rcases identityMapFrom_turn tables isRoot small outside inside mapped with
      ⟨gib, q, skipped, rest⟩ | ⟨apart, q, turned, rest⟩
    · obtain ⟨level', tables'⟩ := skipped.tables
      have same (virt : BitVec 64) :
          leafLevel q.mem pml4 virt = some 2 ↔ leafLevel p.mem pml4 virt = some 2 := by
        rw [skipped.levels]
      rw [rest] at mapped ⊢
      rw [ih tables' _ mapped, turns, if_pos inside, if_pos gib,
        turns_congr same, skipped.translates]
    · obtain ⟨level', tables'⟩ := turned.tables
      have same (virt : BitVec 64) :
          leafLevel q.mem pml4 virt = some 2 ↔ leafLevel p.mem pml4 virt = some 2 := by
        rw [turned.levels]
        split_ifs with block
        · exact iff_of_false (by decide) (apart virt block)
        · exact Iff.rfl
      have stays : leafLevel p.mem pml4 (home i0 addr) ≠ some 2 := apart _ ⟨rfl, rfl, rfl⟩
      rw [rest] at mapped ⊢
      rw [ih tables' _ mapped, turns, if_pos inside, if_neg stays,
        turns_congr same, turned.translates]
      unfold lastTurn
      rw [List.reverse_cons, List.find?_append]
      cases later : (turns p.mem pml4 i0 stop fuel (addr + 0x200000)).reverse.find?
          fun addr => SameBlock virt (home i0 addr) with
      | some last => rfl
      | none =>
        by_cases block : SameBlock virt (home i0 addr)
        · simp [block]
        · simp [block]

/-- Every address of the range lies in the block of the last turn for it, or has no turn and
translates to itself already. -/
def Covered (p : PhysMem) (pml4 start stop : Nat) : Prop :=
  ∀ addr, start ≤ addr → addr < stop →
    match lastTurn (pml4Index (BitVec.ofNat 64 start))
        (turns p.mem pml4 (pml4Index (BitVec.ofNat 64 start)) stop
          ((stop - start) / 0x200000 + 2) (start - start % 0x200000)) (BitVec.ofNat 64 addr) with
    | some last => blockOf last ≤ addr ∧ addr < blockOf last + 2 ^ 21
    | none => translate p.mem pml4 (BitVec.ofNat 64 addr) = some addr

/-- A mapping that succeeds maps its range to itself exactly if the turns cover it. -/
theorem identityMap2mb_iff_covered {start stop : Nat} {flags : BitVec 64}
    (tables : Tables p roots level) (isRoot : pml4 ∈ roots) (outside : flags &&& pageMask = 0#64)
    (words : stop ≤ 2 ^ 64) (mapped : (identityMap2mb p pml4 start stop flags).2 = true) :
    (∀ addr, start ≤ addr → addr < stop →
      translate (identityMap2mb p pml4 start stop flags).1.mem pml4 (BitVec.ofNat 64 addr) =
        some addr) ↔ Covered p pml4 start stop := by
  have small : pml4Index (BitVec.ofNat 64 start) < 512 := by
    rw [← index_three, index_eq]
    omega
  refine forall_congr' fun addr => imp_congr_right fun _ => imp_congr_right fun below => ?_
  rw [identityMap2mb, identityMapFrom_translates isRoot small outside tables _ mapped]
  cases lastTurn (pml4Index (BitVec.ofNat 64 start))
      (turns p.mem pml4 (pml4Index (BitVec.ofNat 64 start)) stop
        ((stop - start) / 0x200000 + 2) (start - start % 0x200000)) (BitVec.ofNat 64 addr) with
  | none => exact Iff.rfl
  | some last =>
    have word : (BitVec.ofNat 64 addr).toNat = addr := by
      rw [BitVec.toNat_ofNat]
      exact Nat.mod_eq_of_lt (by omega)
    dsimp only
    rw [word, Option.some.injEq, blockOf]
    omega

/-- The first byte of an empty address space. -/
theorem identityMap2mb_emptySpace :
    translate (identityMap2mb emptySpace 0x1000 0 1 pteWritable).1.mem 0x1000
      (BitVec.ofNat 64 0) = some 0 := by
  refine (identityMap2mb_iff_covered tables_emptySpace rfl (by decide) (by decide)
    (by decide +kernel)).mpr (fun addr _ below => ?_) 0 le_rfl Nat.one_pos
  obtain rfl : addr = 0 := by omega
  have turn : lastTurn (pml4Index (BitVec.ofNat 64 0)) (turns emptySpace.mem 0x1000
      (pml4Index (BitVec.ofNat 64 0)) 1 ((1 - 0) / 0x200000 + 2) (0 - 0 % 0x200000))
        (BitVec.ofNat 64 0) = some 0 := by
    decide +kernel
  rw [turn]
  decide

/-- An address space of one 1 GiB page, which maps to itself. -/
def gibSpace : PhysMem where
  alloc := ⟨0x100000, fun _ => 0#8, 0x101000, 64, 64, 0⟩
  mem := fun t i =>
    if i ≠ 0 then 0#64
    else if t = 0x1000 then 0x2003#64
    else if t = 0x2000 then 0x83#64
    else 0#64

def gibLevel (t : Nat) : Option Nat :=
  if t = 0x1000 then some 3 else if t = 0x2000 then some 2 else none

theorem entry_gibSpace {t l next : Nat} {virt : BitVec 64} (known : gibLevel t = some (l + 1))
    (found : x86.entry gibSpace.mem (l + 1) t virt = .table next) :
    x86.index (l + 1) virt = 0 ∧ t = 0x1000 ∧ l = 2 ∧ next = 0x2000 := by
  by_cases first : x86.index (l + 1) virt = 0
  swap
  · have absent : x86.entry gibSpace.mem (l + 1) t virt = .absent := by
      rw [Format.entry, gibSpace]
      dsimp only
      rw [if_pos first]
      exact decode_absent (by decide)
    rw [absent] at found
    cases found
  refine ⟨first, ?_⟩
  rw [Format.entry, first] at found
  unfold gibLevel at known
  split_ifs at known with root pdpt
  · obtain rfl : l = 2 := by simpa using known.symm
    subst root
    exact ⟨rfl, rfl, (Entry.table.inj (found.symm.trans (by rfl))).trans (by decide)⟩
  · obtain rfl : l = 1 := by simpa using known.symm
    subst pdpt
    have leaf : x86.decode 2 0x83#64 = .leaf _ :=
      decode_huge (by decide) (by decide) (by decide) (by decide)
    cases found.symm.trans leaf

theorem tables_gibSpace : Tables gibSpace {0x1000} gibLevel := by
  refine ⟨⟨?_, ?_, ?_, ?_⟩, ?_, ?_, ?_, ?_, ?_⟩
  · rintro r rfl
    rfl
  · intro t l virt next known found
    obtain ⟨-, -, rfl, rfl⟩ := entry_gibSpace known found
    rfl
  · intro t s a b next tTop sTop tFound sFound
    rw [(entry_gibSpace tTop tFound).1, (entry_gibSpace sTop sFound).1]
  · intro t s l a b next low tLevel sLevel tFound sFound
    have top := (entry_gibSpace tLevel tFound).2.2.1
    omega
  · decide
  · decide
  · decide
  · intro i _ _
    have above : 0x101000 ≤ gibSpace.alloc.pageAddr i := Nat.le_add_right _ _
    unfold gibLevel
    rw [if_neg (by omega), if_neg (by omega)]
  · intro t virt known
    unfold gibLevel at known
    split_ifs at known <;> simp at known

/-- From the middle of a 1 GiB page the loop goes on in the middle of the next GiB. -/
theorem identity_map_2mb_skips :
    ¬ ∀ (p : PhysMem) (roots : Set Nat) (level : Nat → Option Nat) (pml4 start stop : Nat)
      (flags : BitVec 64), Tables p roots level → pml4 ∈ roots → flags &&& pageMask = 0#64 →
        start < stop → stop ≤ 2 ^ 64 → (identityMap2mb p pml4 start stop flags).2 = true →
          ∀ addr, start ≤ addr → addr < stop →
            translate (identityMap2mb p pml4 start stop flags).1.mem pml4
              (BitVec.ofNat 64 addr) = some addr := by
  intro always
  have mapped := always gibSpace _ _ 0x1000 0x20000000 0x60000000 pteWritable tables_gibSpace rfl
    (by decide) (by decide) (by decide) (by decide +kernel) 0x40000000 (by decide) (by decide)
  have missing : translate (identityMap2mb gibSpace 0x1000 0x20000000 0x60000000 pteWritable).1.mem
      0x1000 (BitVec.ofNat 64 0x40000000) = none := by
    decide +kernel
  rw [missing] at mapped
  cases mapped

end DBSos.Vm
