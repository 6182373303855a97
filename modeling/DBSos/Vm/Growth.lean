import DBSos.Lib.Walks
import DBSos.Memory.Completeness
import DBSos.Vm.Frames

/-!
# Mapping a page that is not mapped

`map_page` completes the walk for its page with fresh tables. Where no entry is in the way
and `palloc` gives the tables that the walk lacks, it maps the page, and the walks for
other pages lack as much less as they have in common with it.
-/

namespace DBSos.Vm

open DBSos.Memory DBSos.Radix

variable {p q : PhysMem} {roots : Set Nat} {level level' : Nat → Option Nat} {pml4 : Nat}
  {virt : BitVec 64}

/-- The number of tables that the walk for an address lacks. -/
def lacking (mem : PageMem) (pml4 : Nat) (virt : BitVec 64) : Nat := x86.lacks mem 3 pml4 virt

/-- The tables as the paging code keeps them: besides, no table is at address 0, where
`palloc` gives no page, and no entry of a table of level 2 is huge but absent. -/
structure Paging (p : PhysMem) (roots : Set Nat) (level : Nat → Option Nat) : Prop extends
    Tables p roots level where
  booted : p.alloc.Booted
  null : level 0 = none
  clean : ∀ t i, level t = some 2 → Huge (getPte p.mem t i) → Present (getPte p.mem t i)

/-- A fresh table without entries is entered. -/
theorem Paging.link {alloc : PhysAllocator} {t i page l : Nat} {entry : BitVec 64}
    {content : Nat → BitVec 64} (paging : Paging p roots level)
    (tables : Tables ⟨alloc, Layout.linked p.mem t i entry page content⟩ roots
      (Layout.withFresh level page l)) (booted : alloc.Booted)
    (fits : Layout.Fits x86 p.mem level t i entry page content l) (given : page ≠ 0)
    (present : Present entry) (clean : l = 2 → ∀ j, ¬ Huge (content j)) :
    Paging ⟨alloc, Layout.linked p.mem t i entry page content⟩ roots
      (Layout.withFresh level page l) where
  toTables := tables
  booted := booted
  null := by simp [Layout.withFresh, Ne.symm given, paging.null]
  clean s j sLevel huge := by
    simp only [getPte] at huge ⊢
    by_cases new : s = page
    · subst new
      obtain rfl : l = 2 := by simpa [Layout.withFresh] using sLevel
      rw [fits.linked_fresh] at huge
      exact absurd huge (clean rfl j)
    · have old : level s = some 2 := by simpa [Layout.withFresh, new] using sLevel
      rw [fits.linked_of_level old] at huge ⊢
      split_ifs at huge ⊢ with replaced
      · exact present
      · exact paging.clean s j old huge

/-- `q` is `p` with the walk for an address completed down to a table of level `l`. -/
structure Descended (p q : PhysMem) (roots : Set Nat) (level : Nat → Option Nat) (pml4 : Nat)
    (virt : BitVec 64) (l t : Nat) : Prop where
  paging : Paging q roots level
  passes : x86.Passes q.mem virt 3 pml4 l t
  entries : ∀ virt', leafEntry q.mem pml4 virt' = leafEntry p.mem pml4 virt'
  lacks : ∀ virt', lacking q.mem pml4 virt' =
    min (lacking p.mem pml4 virt') (max l (x86.parting 3 virt' virt))
  frames : q.alloc.available + (lacking p.mem pml4 virt - l) = p.alloc.available

theorem Descended.refl (paging : Paging p roots level) :
    Descended p p roots level pml4 virt 3 pml4 where
  paging := paging
  passes := .here 3 pml4
  entries _ := rfl
  lacks _ := (min_eq_left (lacks_le.trans (le_max_left _ _))).symm
  frames := by
    have bound : lacking p.mem pml4 virt ≤ 3 := lacks_le
    omega

namespace Descended

variable {l t : Nat}

theorem level_eq (descended : Descended p q roots level pml4 virt l t) (isRoot : pml4 ∈ roots) :
    level t = some l :=
  descended.passes.level_eq descended.paging.toLayout (descended.paging.root pml4 isRoot)

/-- A present entry on the walk for a page that is not mapped enters a table. -/
theorem not_huge (descended : Descended p q roots level pml4 virt (l + 1) t)
    (unmapped : leafEntry p.mem pml4 virt = none) (low : l + 1 < 3)
    (present : Present (getPte q.mem t (x86.index (l + 1) virt))) :
    ¬ Huge (getPte q.mem t (x86.index (l + 1) virt)) := by
  intro huge
  have leaf : x86.entry q.mem (l + 1) t virt = .leaf _ := decode_huge present huge (by omega) low
  rw [← descended.entries, leafEntry, descended.passes.lookup_relabel] at unmapped
  simp only [Format.entry] at leaf
  simp [Format.lookup, Format.entry, Format.relabel, leaf] at unmapped

/-- What the walk lacks is above or below its end. -/
theorem lacks_here (descended : Descended p q roots level pml4 virt l t) :
    min (lacking p.mem pml4 virt) l = x86.lacks q.mem l t virt := by
  have here := descended.lacks virt
  rw [parting_self, Nat.max_zero] at here
  rw [← here, lacking, descended.passes.lacks_eq]

/-- An entry that enters a table is followed. -/
theorem follow (descended : Descended p q roots level pml4 virt (l + 1) t) {next : Nat}
    (found : x86.entry q.mem (l + 1) t virt = .table next) :
    Descended p q roots level pml4 virt l next := by
  have low : lacking p.mem pml4 virt ≤ l := by
    have here := descended.lacks_here
    have below : x86.lacks q.mem (l + 1) t virt ≤ l := by
      rw [Format.lacks, found]
      exact lacks_le
    omega
  refine ⟨descended.paging, descended.passes.snoc found, descended.entries, fun virt' => ?_, ?_⟩
  · have bound : lacking p.mem pml4 virt' ≤
        max (lacking p.mem pml4 virt) (x86.parting 3 virt' virt) := lacks_le_max
    rw [descended.lacks virt', min_eq_left (by omega), min_eq_left (by omega)]
  · have frames := descended.frames
    omega

/-- An absent entry is replaced by a table without entries. -/
theorem fill (descended : Descended p q roots level pml4 virt (l + 1) t) (isRoot : pml4 ∈ roots)
    (enough : lacking p.mem pml4 virt ≤ p.alloc.available)
    (absent : ¬ Present (getPte q.mem t (x86.index (l + 1) virt))) {page : Nat}
    {alloc : PhysAllocator} (result : q.alloc.palloc = (page, alloc)) (extra : BitVec 64)
    (content : Nat → BitVec 64) (present : Present extra)
    (outside : extra &&& (pageMask ||| pteHuge) = 0#64)
    (blank : ∀ j, ¬ Present (content j)) (clean : l = 2 → ∀ j, ¬ Huge (content j)) :
    page ≠ 0 ∧
      x86.entry (Layout.linked q.mem t (x86.index (l + 1) virt) (BitVec.ofNat 64 page ||| extra)
        page content) (l + 1) t virt = .table page ∧
      ∃ level', Descended p
        ⟨alloc, Layout.linked q.mem t (x86.index (l + 1) virt) (BitVec.ofNat 64 page ||| extra)
          page content⟩ roots level' pml4 virt l page := by
  have layout := descended.paging.toLayout
  have above := descended.level_eq isRoot
  have decoded : x86.decode (l + 1) (q.mem t (x86.index (l + 1) virt)) = .absent :=
    decode_absent absent
  have flat (j : Nat) : x86.decode l (content j) = .absent := decode_absent (blank j)
  -- The walk ends here, so its table is among those that are left.
  have lacks : l + 1 ≤ lacking p.mem pml4 virt := by
    have here := descended.lacks_here
    have ends : x86.lacks q.mem (l + 1) t virt = l + 1 := lacks_of_entry fun next found => by
      rw [Format.entry, decoded] at found
      cases found
    omega
  have frames := descended.frames
  obtain ⟨given, rest⟩ := PhysAllocator.palloc_of_available descended.paging.booted
    descended.paging.hint (show q.alloc.available ≠ 0 by omega)
  rw [result] at given rest
  dsimp only at given rest
  obtain ⟨kept, fresh⟩ := descended.paging.toTables.palloc result
  have fresh := fresh given
  have fits : Layout.Fits x86 q.mem level t (x86.index (l + 1) virt)
      (BitVec.ofNat 64 page ||| extra) page content l := by
    refine ⟨above, fresh.unused,
      decode_newTable fresh.aligned fresh.small (by omega) present outside, ?_, ?_, ?_⟩
    · intro a next
      simp [flat]
    · intro next
      simp [decoded]
    · intro a _
      rw [decoded, flat]
  have agrees {Q : Type} (place : Nat → BitVec 64 → BitVec 64 → Q) (virt' : BitVec 64) :
      ((x86.relabel place).decode l (content (x86.index l virt'))).value virt' =
        ((x86.relabel place).decode (l + 1) (q.mem t (x86.index (l + 1) virt))).value virt' := by
    simp only [Format.relabel, decoded, flat]
  have linked := kept.link fits (fun virt' _ => agrees _ virt') fresh fun _ => blank
  have booted : alloc.Booted := by
    have answered := descended.paging.booted.answer .palloc
    rwa [PhysAllocator.answer, result] at answered
  have entered : Present (BitVec.ofNat 64 page ||| extra) := by
    rw [present_iff, BitVec.getLsbD_or, present_iff.mp present, Bool.or_true]
  refine ⟨given, fits.entry_new rfl, _,
    descended.paging.link linked.tables booted fits given entered clean, ?_, fun virt' => ?_,
    fun virt' => ?_, ?_⟩
  · have passes := fits.passes_linked layout descended.passes (layout.root pml4 isRoot)
    exact passes.snoc (fits.entry_new rfl)
  · rw [← descended.entries virt']
    exact (layout.relabel _).lookup_link (fits.relabel fun virt'' _ => agrees _ virt'')
      (layout.root pml4 isRoot) virt'
  · have step : lacking (Layout.linked q.mem t (x86.index (l + 1) virt)
        (BitVec.ofNat 64 page ||| extra) page content) pml4 virt' =
          if x86.parting 3 virt' virt ≤ l then l else lacking q.mem pml4 virt' :=
      fits.lacks_link layout isRoot descended.passes rfl virt'
    have bound : lacking p.mem pml4 virt ≤
        max (lacking p.mem pml4 virt') (x86.parting 3 virt virt') := lacks_le_max
    rw [parting_comm] at bound
    rw [step, descended.lacks virt']
    split_ifs with near
    · omega
    · omega
  · dsimp only
    omega

/-- The arm that fills an absent entry, or follows a present one. -/
theorem ensureTable (descended : Descended p q roots level pml4 virt (l + 1) t)
    (isRoot : pml4 ∈ roots) (unmapped : leafEntry p.mem pml4 virt = none)
    (enough : lacking p.mem pml4 virt ≤ p.alloc.available) :
    ∃ q' level' next, Vm.ensureTable q t (x86.index (l + 1) virt) true = (q', some ()) ∧
      x86.entry q'.mem (l + 1) t virt = .table next ∧
        Descended p q' roots level' pml4 virt l next := by
  unfold Vm.ensureTable
  by_cases present : Present (getPte q.mem t (x86.index (l + 1) virt))
  · have found : x86.entry q.mem (l + 1) t virt = .table _ :=
      decode_table present (by omega) fun low => descended.not_huge unmapped low present
    exact ⟨q, level, _, if_pos present, found, descended.follow found⟩
  · rcases result : q.alloc.palloc with ⟨page, alloc⟩
    obtain ⟨given, found, level', deeper⟩ := descended.fill isRoot enough present result
      (ptePresent ||| (pteWritable ||| pteUser)) (fun _ => 0#64)
      (by decide) (by decide) (fun _ => by decide) (fun _ _ => by decide)
    rw [← BitVec.or_assoc, ← BitVec.or_assoc] at found deeper
    refine ⟨_, level', page, ?_, found, deeper⟩
    rw [if_neg present, if_neg (by decide)]
    dsimp only
    rw [if_neg given]
    rfl

/-- The arm that splits a 2 MiB entry, for one that is absent. -/
theorem splitHuge (descended : Descended p q roots level pml4 virt 1 t) (isRoot : pml4 ∈ roots)
    (unmapped : leafEntry p.mem pml4 virt = none)
    (enough : lacking p.mem pml4 virt ≤ p.alloc.available)
    (huge : Huge (getPte q.mem t (x86.index 1 virt))) :
    ∃ q' level' next, Vm.splitHuge q t (x86.index 1 virt) = (q', some ()) ∧
      x86.entry q'.mem 1 t virt = .table next ∧ Descended p q' roots level' pml4 virt 0 next := by
  unfold Vm.splitHuge
  have absent : ¬ Present (getPte q.mem t (x86.index 1 virt)) :=
    fun present => descended.not_huge unmapped (by decide) present huge
  rcases result : q.alloc.palloc with ⟨page, alloc⟩
  have global (entry : BitVec 64) :
      (ptePresent ||| (pteWritable ||| (pteUser ||| (entry &&& pteGlobal)))) &&&
        (pageMask ||| pteHuge) = 0#64 := by
    simp only [BitVec.and_or_distrib_right, BitVec.and_assoc]
    rw [show pteGlobal &&& (pageMask ||| pteHuge) = 0#64 by decide, BitVec.and_zero]
    decide
  obtain ⟨given, found, level', deeper⟩ := descended.fill isRoot enough absent result
    (ptePresent ||| (pteWritable ||| (pteUser |||
      (getPte q.mem t (x86.index 1 virt) &&& pteGlobal))))
    (fun i => if i < 512 then splitEntry (getPte q.mem t (x86.index 1 virt)) i else 0#64)
    (by rw [present_iff, BitVec.getLsbD_or]; rfl) (global _)
    (fun j => by
      split_ifs
      · exact fun present => absent (present_splitEntry.mp present)
      · decide)
    nofun
  rw [← BitVec.or_assoc, ← BitVec.or_assoc, ← BitVec.or_assoc] at found deeper
  refine ⟨_, level', page, ?_, found, deeper⟩
  dsimp only
  rw [if_neg given]
  rfl

end Descended

/-- The walk for a page that is not mapped is completed where the tables it lacks are available. -/
theorem Paging.walkOrCreate (paging : Paging p roots level) (isRoot : pml4 ∈ roots)
    (unmapped : leafEntry p.mem pml4 virt = none)
    (enough : lacking p.mem pml4 virt ≤ p.alloc.available) :
    ∃ q level' t, Vm.walkOrCreate p pml4 virt true =
        (q, some (⟨t, x86.index 0 virt⟩, getPte q.mem t (x86.index 0 virt))) ∧
      Descended p q roots level' pml4 virt 0 t := by
  have start : Descended p p roots level pml4 virt 3 pml4 := .refl paging
  obtain ⟨p1, level1, pdpt, step1, found1, down1⟩ := start.ensureTable isRoot unmapped enough
  have address1 := physFromPte_of_entry found1
  obtain ⟨p2, level2, pd, step2, found2, down2⟩ := down1.ensureTable isRoot unmapped enough
  have address2 := physFromPte_of_entry found2
  -- A huge entry here would be absent, which the paging code leaves nowhere.
  have notHuge1 : ¬ Huge (getPte p1.mem pdpt (x86.index 2 virt)) := fun huge =>
    down1.not_huge unmapped (by decide)
      (down1.paging.clean pdpt _ (down1.level_eq isRoot) huge) huge
  obtain ⟨p3, level3, pt, step3, found3, down3⟩ : ∃ p3 level3 pt,
      (if Huge (getPte p2.mem pd (x86.index 1 virt)) then Vm.splitHuge p2 pd (x86.index 1 virt)
        else Vm.ensureTable p2 pd (x86.index 1 virt) true) = (p3, some ()) ∧
      x86.entry p3.mem 1 pd virt = .table pt ∧ Descended p p3 roots level3 pml4 virt 0 pt := by
    by_cases huge : Huge (getPte p2.mem pd (x86.index 1 virt))
    · simp only [if_pos huge]
      exact down2.splitHuge isRoot unmapped enough huge
    · simp only [if_neg huge]
      exact down2.ensureTable isRoot unmapped enough
  have address3 := physFromPte_of_entry found3
  refine ⟨p3, level3, pt, ?_, down3⟩
  rw [index_three] at step1 address1
  rw [index_two] at step2 address2 notHuge1
  rw [index_one] at step3 address3
  unfold Vm.walkOrCreate
  rw [step1]
  dsimp only
  rw [address1, step2]
  dsimp only
  rw [if_neg notHuge1, address2, if_neg (by simp), step3]
  dsimp only
  rw [address3, index_zero]

/-- The page is mapped, and nothing else changes but what other walks lack. -/
structure Grown (p q : PhysMem) (roots : Set Nat) (level : Nat → Option Nat) (pml4 : Nat)
    (virt word : BitVec 64) : Prop where
  paging : Paging q roots level
  entries : ∀ virt', leafEntry q.mem pml4 virt' =
    if SamePage virt' virt then some word else leafEntry p.mem pml4 virt'
  lacks : ∀ virt', lacking q.mem pml4 virt' = x86.completed 3 (lacking p.mem pml4) virt virt'
  frames : q.alloc.available + lacking p.mem pml4 virt = p.alloc.available

/-- `map_page` on a page that is not mapped. -/
theorem Paging.mapPage (paging : Paging p roots level) (isRoot : pml4 ∈ roots)
    (unmapped : leafEntry p.mem pml4 virt = none)
    (enough : lacking p.mem pml4 virt ≤ p.alloc.available) (phys flags : BitVec 64) :
    ∃ q level', Vm.mapPage p pml4 phys virt flags = (q, true) ∧
      Grown p q roots level' pml4 virt (pteFromPhys phys ||| ptePresent ||| flags) := by
  obtain ⟨q, level', t, walked, down⟩ := paging.walkOrCreate isRoot unmapped enough
  have layout := down.paging.toLayout
  have bottom := down.level_eq isRoot
  have notNull : t ≠ 0 := by
    rintro rfl
    rw [down.paging.null] at bottom
    cases bottom
  have ends := down.passes.lastTable
  have present : Present (pteFromPhys phys ||| ptePresent ||| flags) := by
    rw [present_iff, BitVec.getLsbD_or, BitVec.getLsbD_or]
    simp [show ptePresent.getLsbD 0 = true by decide]
  refine ⟨⟨q.alloc, setPte q.mem t (x86.index 0 virt) (pteFromPhys phys ||| ptePresent ||| flags)⟩,
    level', ?_, ⟨⟨⟨layout.write_bottom bottom, down.paging.start, down.paging.small,
      down.paging.hint, down.paging.unused, ?_⟩, down.paging.booted, down.paging.null, ?_⟩,
      ?_, ?_, ?_⟩⟩
  · unfold Vm.mapPage
    rw [walked]
    dsimp only
    rw [if_neg (by simp only [PtePtr.addr]; omega)]
  · intro s virt' sLevel
    have other : s ≠ t := by
      rintro rfl
      simp [bottom] at sLevel
    simpa [getPte, setPte, other] using down.paging.aligned s virt' sLevel
  · intro s i sLevel
    have other : s ≠ t := by
      rintro rfl
      simp [bottom] at sLevel
    simpa [getPte, setPte, other] using down.paging.clean s i sLevel
  · intro virt'
    refine (lookup_page layout isRoot bottom ends _ virt').trans ?_
    simp only [Format.relabel, decode_page present]
    exact if_congr Iff.rfl rfl (down.entries virt')
  · intro virt'
    have written : lacking (setPte q.mem t (x86.index 0 virt)
        (pteFromPhys phys ||| ptePresent ||| flags)) pml4 virt' = lacking q.mem pml4 virt' :=
      layout.lacks_write bottom (layout.root pml4 isRoot)
    rw [written, down.lacks virt', Nat.zero_max, Format.completed]
  · exact down.frames

/-- A page from `palloc` may be cleared: it is no table. -/
theorem Paging.freshPage (paging : Paging p roots level) (left : p.alloc.available ≠ 0) {page : Nat}
    {alloc : PhysAllocator} (result : p.alloc.palloc = (page, alloc)) :
    page ≠ 0 ∧ Paging ⟨alloc, zeroPage p.mem page⟩ roots level ∧
      (∀ t l, level t = some l → zeroPage p.mem page t = p.mem t) ∧
        alloc.available + 1 = p.alloc.available := by
  obtain ⟨given, rest⟩ := PhysAllocator.palloc_of_available paging.booted paging.hint left
  rw [result] at given rest
  obtain ⟨kept, fresh⟩ := paging.toTables.palloc result
  have same (t l : Nat) (known : level t = some l) : zeroPage p.mem page t = p.mem t := by
    have other : t ≠ page := by
      rintro rfl
      rw [(fresh given).unused] at known
      cases known
    simp [zeroPage, other]
  have booted := paging.booted.answer .palloc
  rw [PhysAllocator.answer, result] at booted
  refine ⟨given, ⟨⟨paging.toLayout.congr_tables same, kept.start, kept.small, kept.hint,
    kept.unused, ?_⟩, booted, paging.null, ?_⟩, same, rest⟩
  · intro t virt' known
    simpa only [getPte, same t 1 known] using kept.aligned t virt' known
  · intro t i known
    simpa only [getPte, same t 2 known] using paging.clean t i known

/-- Addresses of one page below 2⁴⁸ have one page number. -/
theorem page_of_same {a b : Nat} (low : a < 2 ^ 48) (low' : b < 2 ^ 48)
    (same : SamePage (BitVec.ofNat 64 a) (BitVec.ofNat 64 b)) : a / pageSize = b / pageSize := by
  have indices (l : Nat) (bound : l ≤ 3) :
      a / 2 ^ (12 + 9 * l) % 512 = b / 2 ^ (12 + 9 * l) % 512 := by
    have index := same l bound
    rw [index_eq, index_eq, BitVec.toNat_ofNat, BitVec.toNat_ofNat,
      Nat.mod_eq_of_lt (show a < 2 ^ 64 by omega),
      Nat.mod_eq_of_lt (show b < 2 ^ 64 by omega)] at index
    exact index
  have first := indices 0 (by decide)
  have second := indices 1 (by decide)
  have third := indices 2 (by decide)
  have fourth := indices 3 (by decide)
  simp only [pageSize] at first second third fourth ⊢
  omega

end DBSos.Vm
