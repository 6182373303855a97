import DBSos.Vm.UserAccess

/-!
# What mapping and unmapping a page leave alone

`map_page` changes the translation of its page and nothing else. `unmap_page` takes whatever
entry the walk ends at for the entry of a 4 KiB page.
-/

namespace DBSos.Vm

open DBSos.Memory DBSos.Radix

variable {p q : PhysMem} {roots : Set Nat} {level : Nat → Option Nat} {pml4 : Nat}

instance (virt virt' : BitVec 64) : Decidable (SamePage virt virt') :=
  inferInstanceAs (Decidable (∀ l ≤ 3, x86.index l virt = x86.index l virt'))

/-- The last entry of a walk that ends at a page. -/
def leafEntry (mem : PageMem) (pml4 : Nat) (virt : BitVec 64) : Option (BitVec 64) :=
  (x86.relabel fun _ entry _ => entry).lookup mem 3 pml4 virt

/-- The page has its entry, and every other page its place and its permission bits. -/
structure MapFrame (p q : PhysMem) (pml4 : Nat) (phys virt flags : BitVec 64) : Prop where
  entry : leafEntry q.mem pml4 virt = some (pteFromPhys phys ||| ptePresent ||| flags)
  mapped : flags &&& pageMask = 0#64 → ∀ virt', SamePage virt' virt →
    translate q.mem pml4 virt' = some (physFromPte phys + virt'.toNat % spanOf 0)
  others : ∀ virt', ¬ SamePage virt' virt →
    translate q.mem pml4 virt' = translate p.mem pml4 virt'
  permissions : ∀ virt', ¬ SamePage virt' virt →
    leafFlags q.mem pml4 virt' = leafFlags p.mem pml4 virt'

/-- No translation has changed. -/
structure Untouched (p q : PhysMem) (roots : Set Nat) : Prop where
  translates : ∀ r ∈ roots, ∀ virt, translate q.mem r virt = translate p.mem r virt
  permissions : ∀ r ∈ roots, ∀ virt, leafFlags q.mem r virt = leafFlags p.mem r virt

/-- An entry written at the bottom is the last one for its page, and for no other. -/
theorem lookup_page {Q : Type} {mem : PageMem} {t : Nat} {virt word : BitVec 64}
    (layout : Layout x86 mem 2 roots level) (isRoot : pml4 ∈ roots) (bottom : level t = some 0)
    (ends : x86.lastTable mem 3 pml4 virt = some t) (place : Nat → BitVec 64 → BitVec 64 → Q)
    (virt' : BitVec 64) :
    (x86.relabel place).lookup (setPte mem t (x86.index 0 virt) word) 3 pml4 virt' =
      if SamePage virt' virt then ((x86.relabel place).decode 0 word).value virt'
      else (x86.relabel place).lookup mem 3 pml4 virt' := by
  have written := (layout.relabel place).lookup_write_bottom bottom (layout.root pml4 isRoot) virt'
    (i := x86.index 0 virt) (e := word)
  rw [lastTable_relabel] at written
  refine written.trans (if_congr ?_ rfl rfl)
  exact (ends_at_page_iff layout isRoot isRoot ends).trans (and_iff_right (.inl rfl))

/-- A page that is mapped changes alone; where `map_page` fails nothing does. -/
theorem mapPage_frame (tables : Tables p roots level) (isRoot : pml4 ∈ roots)
    (phys virt flags : BitVec 64) :
    ((mapPage p pml4 phys virt flags).2 = true →
      MapFrame p (mapPage p pml4 phys virt flags).1 pml4 phys virt flags) ∧
    ((mapPage p pml4 phys virt flags).2 = false →
      Untouched p (mapPage p pml4 phys virt flags).1 roots) := by
  obtain ⟨level', kept, found⟩ := tables.walkOrCreate isRoot virt
  unfold Vm.mapPage
  rcases walked : Vm.walkOrCreate p pml4 virt true with ⟨q, _ | ⟨pte, existing⟩⟩
  · rw [walked] at kept
    exact ⟨nofun, fun _ => ⟨kept.translates, kept.flags⟩⟩
  rw [walked] at kept found
  obtain ⟨index, bottom, ends⟩ := found pte existing rfl
  dsimp only at kept ends ⊢
  by_cases null : pte.addr = 0
  · simp only [if_pos null]
    exact ⟨nofun, fun _ => ⟨kept.translates, kept.flags⟩⟩
  simp only [if_neg null]
  refine ⟨fun _ => ?_, nofun⟩
  have layout := kept.tables.toLayout
  have present : Present (pteFromPhys phys ||| ptePresent ||| flags) := by
    rw [present_iff, BitVec.getLsbD_or, BitVec.getLsbD_or]
    simp [show ptePresent.getLsbD 0 = true by decide]
  rw [index]
  constructor
  · refine (lookup_page layout isRoot bottom ends _ virt).trans ((if_pos fun _ _ => rfl).trans ?_)
    simp only [Format.relabel, decode_page present]
    rfl
  · intro outside virt' same
    refine (layout.lookup_write bottom (decode_mapped phys outside) (layout.root pml4 isRoot)
      virt').trans (if_pos ?_)
    exact (ends_at_page_iff layout isRoot isRoot ends).mpr ⟨.inl rfl, same⟩
  · intro virt' other
    have last : ¬ (x86.lastTable q.mem 3 pml4 virt' = some pte.table ∧
        x86.index 0 virt' = x86.index 0 virt) :=
      fun same => other ((ends_at_page_iff layout isRoot isRoot ends).mp same).2
    refine ((layout.lookup_write_bottom bottom (layout.root pml4 isRoot) virt').trans
      (if_neg last)).trans ?_
    exact kept.translates pml4 isRoot virt'
  · intro virt' other
    refine ((lookup_page layout isRoot bottom ends _ virt').trans (if_neg other)).trans ?_
    exact kept.flags pml4 isRoot virt'

/-- 64 free pages and an empty PML4. -/
def emptySpace : PhysMem where
  alloc := ⟨0x100000, fun _ => 0#8, 0x101000, 64, 64, 0⟩
  mem := fun _ _ => 0#64

theorem tables_emptySpace_of {roots : Set Nat} (only : ∀ r ∈ roots, r = 0x1000) :
    Tables emptySpace roots fun t => if t = 0x1000 then some 3 else none := by
  have absent : ∀ l t virt, x86.entry emptySpace.mem l t virt = .absent := fun l t virt =>
    decode_absent (show ¬ Present 0#64 by decide)
  refine ⟨⟨?_, ?_, ?_, ?_⟩, ?_, ?_, ?_, ?_, ?_⟩
  · intro r isRoot
    rw [only r isRoot]
    rfl
  · intro t l virt next _ found
    simp [absent] at found
  · intro t s a b next _ _ found
    simp [absent] at found
  · intro t s l a b next _ _ _ found
    simp [absent] at found
  · decide
  · decide
  · decide
  · intro i _ _
    rw [if_neg]
    simp only [emptySpace, PhysAllocator.pageAddr, pageSize]
    omega
  · intro t virt _ present
    exact absurd present (show ¬ Present 0#64 by decide)

theorem tables_emptySpace :
    Tables emptySpace {0x1000} fun t => if t = 0x1000 then some 3 else none :=
  tables_emptySpace_of fun _ isRoot => isRoot

/-- A page mapped in an empty address space. -/
theorem mapPage_frame_emptySpace :
    MapFrame emptySpace (mapPage emptySpace 0x1000 0x5000#64 0x40000000#64 pteWritable).1 0x1000
      0x5000#64 0x40000000#64 pteWritable :=
  (mapPage_frame tables_emptySpace rfl 0x5000#64 0x40000000#64 pteWritable).1
    (by decide +kernel)

/-! ## Unmapping -/

/-- Where the walk without `create` ends: at an entry of a page table, at the entry of a 2 MiB
page, or nowhere. -/
inductive Walked (p : PhysMem) (pml4 : Nat) (virt : BitVec 64) : Prop
  | page (t : Nat) (ends : x86.lastTable p.mem 3 pml4 virt = some t)
      (walked : walkOrCreate p pml4 virt false =
        (p, some (⟨t, x86.index 0 virt⟩, getPte p.mem t (x86.index 0 virt))))
  | huge (pdpt pd : Nat) (first : x86.entry p.mem 3 pml4 virt = .table pdpt)
      (second : x86.entry p.mem 2 pdpt virt = .table pd)
      (huge : Huge (getPte p.mem pd (x86.index 1 virt)))
      (walked : walkOrCreate p pml4 virt false =
        (p, some (⟨pd, x86.index 1 virt⟩, getPte p.mem pd (x86.index 1 virt))))
  | nowhere (ends : x86.lastTable p.mem 3 pml4 virt = none)
      (walked : walkOrCreate p pml4 virt false = (p, none))

theorem walked (p : PhysMem) (pml4 : Nat) (virt : BitVec 64) : Walked p pml4 virt := by
  by_cases top : Present (getPte p.mem pml4 (pml4Index virt))
  swap
  · refine .nowhere ?_ (by simp [walkOrCreate, ensureTable_false, top])
    have absent : x86.entry p.mem 3 pml4 virt = .absent := decode_absent top
    rw [Format.lastTable, absent]
  have first : x86.entry p.mem 3 pml4 virt =
      .table (physFromPte (getPte p.mem pml4 (pml4Index virt))) :=
    decode_table top (by decide) fun low => absurd low (by decide)
  obtain ⟨pdpt, enters⟩ : ∃ pdpt, physFromPte (getPte p.mem pml4 (pml4Index virt)) = pdpt :=
    ⟨_, rfl⟩
  rw [enters] at first
  by_cases present : Present (getPte p.mem pdpt (pdptIndex virt))
  swap
  · refine .nowhere ?_ (by simp [walkOrCreate, ensureTable_false, top, enters, present])
    have absent : x86.entry p.mem 2 pdpt virt = .absent := decode_absent present
    rw [lastTable_succ first, Format.lastTable, absent]
  by_cases gib : Huge (getPte p.mem pdpt (pdptIndex virt))
  · refine .nowhere ?_ (by simp [walkOrCreate, ensureTable_false, top, enters, present, gib])
    have leaf : x86.entry p.mem 2 pdpt virt = .leaf _ :=
      decode_huge present gib (by decide) (by decide)
    rw [lastTable_succ first, Format.lastTable, leaf]
  have second : x86.entry p.mem 2 pdpt virt =
      .table (physFromPte (getPte p.mem pdpt (pdptIndex virt))) :=
    decode_table present (by decide) fun _ => gib
  obtain ⟨pd, entersPd⟩ : ∃ pd, physFromPte (getPte p.mem pdpt (pdptIndex virt)) = pd := ⟨_, rfl⟩
  rw [entersPd] at second
  by_cases mib : Huge (getPte p.mem pd (pdIndex virt))
  · exact .huge pdpt pd first second mib
      (by simp [walkOrCreate, ensureTable_false, top, enters, present, gib, entersPd, mib, index_one])
  by_cases there : Present (getPte p.mem pd (pdIndex virt))
  · have third : x86.entry p.mem 1 pd virt =
        .table (physFromPte (getPte p.mem pd (pdIndex virt))) :=
      decode_table there (by decide) fun _ => mib
    refine .page _ (by rw [lastTable_succ first, lastTable_succ second, lastTable_succ third]; rfl) ?_
    simp [walkOrCreate, ensureTable_false, top, enters, present, gib, entersPd, mib, there, index_zero]
  · refine .nowhere ?_
      (by simp [walkOrCreate, ensureTable_false, top, enters, present, gib, entersPd, mib, there])
    have absent : x86.entry p.mem 1 pd virt = .absent := decode_absent there
    rw [lastTable_succ first, lastTable_succ second, Format.lastTable, absent]

/-- The page is unmapped, and no other page has changed. -/
structure Unmaps (p q : PhysMem) (pml4 : Nat) (virt : BitVec 64) : Prop where
  unmapped : ∀ virt', SamePage virt' virt → translate q.mem pml4 virt' = none
  others : ∀ virt', ¬ SamePage virt' virt →
    translate q.mem pml4 virt' = translate p.mem pml4 virt'

/-- A 2 MiB or 1 GiB page maps the address. -/
def MappedHuge (mem : PageMem) (pml4 : Nat) (virt : BitVec 64) : Prop :=
  (translate mem pml4 virt).isSome = true ∧ x86.lastTable mem 3 pml4 virt = none

/-- Another page in the 2 MiB page of an address. -/
theorem neighbour (virt : BitVec 64) :
    ¬ SamePage (virt ^^^ 0x1000#64) virt ∧
      ∀ l, 1 ≤ l → l ≤ 3 → x86.index l (virt ^^^ 0x1000#64) = x86.index l virt := by
  constructor
  · intro same
    have bit := congrArg (fun i => i.testBit 0) (same 0 (by decide))
    have set : Nat.testBit 4096 12 = true := by decide
    simp [x86, BitVec.testBit_toNat, set] at bit
  · intro l positive bound
    have gone : (0x1000#64 : BitVec 64) >>> (12 + 9 * l) = 0#64 := by
      obtain rfl | rfl | rfl : l = 1 ∨ l = 2 ∨ l = 3 := by omega
      · decide
      · decide
      · decide
    simp only [x86]
    rw [BitVec.ushiftRight_xor_distrib, gone, BitVec.xor_zero]

/-- `unmap_page` unmaps the page of the address and nothing else exactly where no huge page maps
it. -/
theorem unmapPage_iff (tables : Tables p roots level) (isRoot : pml4 ∈ roots)
    (null : level 0 = none) (virt : BitVec 64) :
    Unmaps p (unmapPage p pml4 virt) pml4 virt ↔ ¬ MappedHuge p.mem pml4 virt := by
  have layout := tables.toLayout
  have rootLevel := layout.root pml4 isRoot
  have self : SamePage virt virt := fun _ _ => rfl
  -- A page that is not mapped is so at each of its addresses.
  have unmapped (absent : translate p.mem pml4 virt = none) : Unmaps p p pml4 virt := by
    refine ⟨fun virt' page => ?_, fun _ _ => rfl⟩
    have mapped : (translate p.mem pml4 virt').isSome = (translate p.mem pml4 virt).isSome :=
      lookup_isSome_same page
    rw [absent] at mapped
    exact Option.isSome_eq_false_iff.mp mapped |> Option.isNone_iff_eq_none.mp
  unfold unmapPage
  rcases walked p pml4 virt with
    ⟨t, ends, walk⟩ | ⟨pdpt, pd, first, second, huge, walk⟩ | ⟨ends, walk⟩
  · rw [walk]
    refine iff_of_true ?_ fun ⟨_, lost⟩ => by rw [ends] at lost; cases lost
    have bottom := layout.level_lastTable rootLevel ends
    have notNull : t ≠ 0 := by
      rintro rfl
      rw [null] at bottom
      cases bottom
    have place := lookup_of_lastTable ends
    dsimp only
    split_ifs with skipped
    · rcases skipped with zero | absent
      · exact absurd (Nat.add_eq_zero_iff.mp zero).1 notNull
      · have decoded : x86.entry p.mem 0 t virt = .absent := decode_absent absent
        rw [decoded] at place
        exact unmapped place
    · have written (virt' : BitVec 64) : translate
          (setPte p.mem t (x86.index 0 virt) 0#64) pml4 virt' =
            if SamePage virt' virt then none else translate p.mem pml4 virt' := by
        refine (layout.lookup_write_bottom bottom rootLevel virt').trans (if_congr ?_ ?_ rfl)
        · exact (ends_at_page_iff layout isRoot isRoot ends).trans (and_iff_right (.inl rfl))
        · rw [decode_absent (by decide)]
          rfl
      exact ⟨fun virt' page => (written virt').trans (if_pos page),
        fun virt' other => (written virt').trans (if_neg other)⟩
  · rw [walk]
    have pdptLevel := layout.below _ _ _ _ rootLevel first
    have pdLevel := layout.below _ _ _ _ pdptLevel second
    by_cases present : Present (getPte p.mem pd (x86.index 1 virt))
    swap
    · have decoded : x86.entry p.mem 1 pd virt = .absent := decode_absent present
      have absent : translate p.mem pml4 virt = none := by
        rw [translate, lookup_succ first, lookup_succ second, Format.lookup, decoded]
      simp only [present, not_false_eq_true, or_true, if_true]
      refine iff_of_true (unmapped absent) fun ⟨mapped, _⟩ => ?_
      rw [absent] at mapped
      cases mapped
    · have leaf : x86.entry p.mem 1 pd virt = .leaf _ :=
        decode_huge present huge (by decide) (by decide)
      have mapped : (translate p.mem pml4 virt).isSome = true := by
        rw [translate, lookup_succ first, lookup_succ second, Format.lookup, leaf]
        rfl
      have lost : x86.lastTable p.mem 3 pml4 virt = none := by
        rw [lastTable_succ first, lastTable_succ second, Format.lastTable, leaf]
      refine iff_of_false ?_ (not_not.mpr ⟨mapped, lost⟩)
      dsimp only
      split_ifs with skipped
      · rintro ⟨unmapped, -⟩
        rw [unmapped virt self] at mapped
        cases mapped
      · -- Another page of the 2 MiB is unmapped with it.
        rintro ⟨-, others⟩
        obtain ⟨other, same⟩ := neighbour virt
        have kept := others _ other
        have above (t : Nat) (apart : t ≠ pd) (l : Nat) (a : BitVec 64) :
            x86.entry (setPte p.mem pd (x86.index 1 virt) 0#64) l t a = x86.entry p.mem l t a :=
          Layout.entry_write.trans (if_neg fun hit => apart hit.1)
        have rootApart : pml4 ≠ pd := by
          rintro rfl
          rw [rootLevel] at pdLevel
          cases pdLevel
        have pdptApart : pdpt ≠ pd := by
          rintro rfl
          rw [pdptLevel] at pdLevel
          cases pdLevel
        have first' := (entry_congr (same 3 (by decide) le_rfl)).trans first
        have second' := (entry_congr (same 2 (by decide) (by decide))).trans second
        have leaf' := Eq.trans (entry_congr (same 1 le_rfl (by decide))) leaf
        have gone : translate (setPte p.mem pd (x86.index 1 virt) 0#64) pml4
            (virt ^^^ 0x1000#64) = none := by
          have erased : x86.entry (setPte p.mem pd (x86.index 1 virt) 0#64) 1 pd
              (virt ^^^ 0x1000#64) = .absent :=
            (Layout.entry_write.trans (if_pos ⟨rfl, same 1 le_rfl (by decide)⟩)).trans
              (decode_absent (by decide))
          rw [translate, lookup_succ ((above pml4 rootApart 3 _).trans first'),
            lookup_succ ((above pdpt pdptApart 2 _).trans second'), Format.lookup, erased]
        have was : (translate p.mem pml4 (virt ^^^ 0x1000#64)).isSome = true := by
          rw [translate, lookup_succ first', lookup_succ second', Format.lookup, leaf']
          rfl
        rw [← kept, gone] at was
        cases was
  · rw [walk]
    constructor
    · rintro ⟨unmapped, -⟩ ⟨mapped, -⟩
      rw [unmapped virt self] at mapped
      cases mapped
    · intro small
      exact unmapped (Option.not_isSome_iff_eq_none.mp fun mapped => small ⟨mapped, ends⟩)

/-- Nothing is mapped in an empty address space. -/
theorem unmapPage_emptySpace :
    Unmaps emptySpace (unmapPage emptySpace 0x1000 0x40000000#64) 0x1000 0x40000000#64 :=
  (unmapPage_iff tables_emptySpace rfl rfl 0x40000000#64).mpr
    fun mapped => absurd mapped.1 (by decide +kernel)

/-- An address space of one 2 MiB page. -/
def hugeSpace : PhysMem where
  alloc := ⟨0x100000, fun _ => 0#8, 0x101000, 64, 64, 0⟩
  mem := fun t i =>
    if i ≠ 0 then 0#64
    else if t = 0x1000 then 0x2003#64
    else if t = 0x2000 then 0x3003#64
    else if t = 0x3000 then 0x200083#64
    else 0#64

def hugeLevel (t : Nat) : Option Nat :=
  if t = 0x1000 then some 3
  else if t = 0x2000 then some 2
  else if t = 0x3000 then some 1
  else none

/-- The PML4 and its only table have one entry each. -/
theorem entry_hugeSpace {t l next : Nat} {virt : BitVec 64} (known : hugeLevel t = some (l + 1))
    (found : x86.entry hugeSpace.mem (l + 1) t virt = .table next) :
    x86.index (l + 1) virt = 0 ∧
      (t = 0x1000 ∧ l = 2 ∧ next = 0x2000 ∨ t = 0x2000 ∧ l = 1 ∧ next = 0x3000) := by
  by_cases first : x86.index (l + 1) virt = 0
  swap
  · have absent : x86.entry hugeSpace.mem (l + 1) t virt = .absent := by
      rw [Format.entry, hugeSpace]
      dsimp only
      rw [if_pos first]
      exact decode_absent (by decide)
    rw [absent] at found
    cases found
  refine ⟨first, ?_⟩
  rw [Format.entry, first] at found
  unfold hugeLevel at known
  split_ifs at known with root pdpt pd
  · obtain rfl : l = 2 := by simpa using known.symm
    subst root
    exact .inl ⟨rfl, rfl, (Entry.table.inj (found.symm.trans (by rfl))).trans (by decide)⟩
  · obtain rfl : l = 1 := by simpa using known.symm
    subst pdpt
    exact .inr ⟨rfl, rfl, (Entry.table.inj (found.symm.trans (by rfl))).trans (by decide)⟩
  · obtain rfl : l = 0 := by simpa using known.symm
    subst pd
    have leaf : x86.decode 1 0x200083#64 = .leaf _ :=
      decode_huge (by decide) (by decide) (by decide) (by decide)
    cases found.symm.trans leaf

theorem tables_hugeSpace : Tables hugeSpace {0x1000} hugeLevel := by
  refine ⟨⟨?_, ?_, ?_, ?_⟩, ?_, ?_, ?_, ?_, ?_⟩
  · rintro r rfl
    rfl
  · intro t l virt next known found
    rcases entry_hugeSpace known found with ⟨-, ⟨-, rfl, rfl⟩ | ⟨-, rfl, rfl⟩⟩ <;> rfl
  · intro t s a b next tTop sTop tFound sFound
    rw [(entry_hugeSpace tTop tFound).1, (entry_hugeSpace sTop sFound).1]
  · intro t s l a b next low tLevel sLevel tFound sFound
    obtain ⟨tFirst, tCase⟩ := entry_hugeSpace tLevel tFound
    obtain ⟨sFirst, sCase⟩ := entry_hugeSpace sLevel sFound
    refine ⟨?_, tFirst.trans sFirst.symm⟩
    rcases tCase with ⟨-, rfl, -⟩ | ⟨rfl, rfl, -⟩
    · omega
    · rcases sCase with ⟨-, bad, -⟩ | ⟨rfl, -, -⟩
      · omega
      · rfl
  · decide
  · decide
  · decide
  · intro i _ _
    have above : 0x101000 ≤ hugeSpace.alloc.pageAddr i := Nat.le_add_right _ _
    unfold hugeLevel
    rw [if_neg (by omega), if_neg (by omega), if_neg (by omega)]
  · intro t virt known present huge
    have pd : t = 0x3000 := by
      unfold hugeLevel at known
      split_ifs at known with root pdpt pd
      · simp at known
      · simp at known
      · exact pd
    subst pd
    have first : pdIndex virt = 0 := by
      by_contra other
      simp [getPte, hugeSpace, other] at present
    rw [first]
    decide

/-- The neighbour of a page that is unmapped in a 2 MiB page is unmapped too. -/
theorem unmap_page_drops_2mb :
    ¬ ∀ (p : PhysMem) (roots : Set Nat) (level : Nat → Option Nat) (pml4 : Nat) (virt : BitVec 64),
      Tables p roots level → pml4 ∈ roots → level 0 = none →
        Unmaps p (unmapPage p pml4 virt) pml4 virt := by
  intro always
  have unmaps := always hugeSpace _ _ 0x1000 0x1000#64 tables_hugeSpace rfl rfl
  have kept := unmaps.others 0#64 fun same => absurd (same 0 (by decide)) (by decide)
  have gone : translate (unmapPage hugeSpace 0x1000 0x1000#64).mem 0x1000 0#64 = none := by
    decide +kernel
  have was : translate hugeSpace.mem 0x1000 0#64 = some 0x200000 := by decide +kernel
  rw [gone, was] at kept
  cases kept

end DBSos.Vm
