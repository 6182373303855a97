import DBSos.Linux.Process
import DBSos.Vm.Growth

/-!
# The heap and the mappings of a Linux task

`sys_brk` and `sys_mmap` map new pages one by one. Neither looks at what is mapped there,
nor at the half of the address space, and what they do when memory runs out in the middle
stays: `sys_brk` moves `brk` all the same, `sys_mmap` its base.
-/

namespace DBSos.Linux

open DBSos.Lib DBSos.Memory DBSos.Radix DBSos.Vm

/-- A call for more memory. -/
inductive MemCall where
  | brk (newBrk : BitVec 64)
  | mmap (addr length : BitVec 64) (prot : BitVec 32)

namespace World

variable {δ ρ : Type} {roots : Set Nat} {level : Nat → Option Nat} {pml4 : Nat} {p q : PhysMem}

/-! ## The loop -/

/-- There is room for new pages at these addresses: they are in the user half, nothing is mapped
there, and `palloc` gives them and the tables that they lack. -/
structure Room (p : PhysMem) (pml4 : Nat) (pages : List Nat) : Prop where
  userHalf : ∀ virt ∈ pages, virt < userTop
  unmapped : ∀ virt ∈ pages, leafEntry p.mem pml4 (BitVec.ofNat 64 virt) = none
  frames : pages.length + x86.tablesFor 3 (lacking p.mem pml4) (pages.map (BitVec.ofNat 64)) ≤
    p.alloc.available

/-- The addresses are of different pages. -/
def Apart (pages : List Nat) : Prop :=
  pages.Pairwise fun a b => ¬ SamePage (BitVec.ofNat 64 b) (BitVec.ofNat 64 a)

/-- The pages at these addresses are mapped with these flags, and nothing else changes. -/
structure Filled (p q : PhysMem) (roots : Set Nat) (level : Nat → Option Nat) (pml4 : Nat)
    (flags : BitVec 64) (pages : List Nat) : Prop where
  paging : Paging q roots level
  mapped : ∀ virt ∈ pages, ∀ virt', SamePage virt' (BitVec.ofNat 64 virt) →
    ∃ phys, leafEntry q.mem pml4 virt' = some (pteFromPhys phys ||| ptePresent ||| flags)
  others : ∀ virt', (∀ virt ∈ pages, ¬ SamePage virt' (BitVec.ofNat 64 virt)) →
    leafEntry q.mem pml4 virt' = leafEntry p.mem pml4 virt'

/-- Where there is room the loop maps every page. -/
theorem mapFresh_filled (paging : Paging p roots level) (isRoot : pml4 ∈ roots) (flags : BitVec 64)
    {pages : List Nat} (room : Room p pml4 pages) (apart : Apart pages) :
    ∃ q level', mapFresh pml4 flags pages p = some (q, true) ∧
      Filled p q roots level' pml4 flags pages := by
  induction pages generalizing p level with
  | nil => exact ⟨p, level, rfl, paging, nofun, fun _ _ => rfl⟩
  | cons virt rest ih =>
    obtain ⟨others, apart⟩ := List.pairwise_cons.mp apart
    have frames := room.frames
    rw [List.map_cons, Format.tablesFor, List.length_cons] at frames
    -- The page itself is taken first, then the tables.
    rcases result : p.alloc.palloc with ⟨page, alloc⟩
    obtain ⟨given, paging1, tables, left⟩ := paging.freshPage (by omega) result
    have entries (virt' : BitVec 64) : leafEntry (zeroPage p.mem page) pml4 virt' =
        leafEntry p.mem pml4 virt' :=
      (paging.toLayout.relabel _).lookup_congr_tables tables (paging.root pml4 isRoot)
    have lacks : lacking (zeroPage p.mem page) pml4 = lacking p.mem pml4 :=
      funext fun _ => paging.toLayout.lacks_congr_tables tables (paging.root pml4 isRoot)
    obtain ⟨q, level1, mapped, grown⟩ := paging1.mapPage isRoot
      ((entries _).trans (room.unmapped virt (List.mem_cons_self ..)))
      (by rw [lacks]; dsimp only; omega) (BitVec.ofNat 64 page) flags
    have growth := grown.frames
    have lacking1 : lacking q.mem pml4 =
        x86.completed 3 (lacking p.mem pml4) (BitVec.ofNat 64 virt) := by
      rw [← lacks]
      exact funext grown.lacks
    dsimp only at growth
    rw [lacks] at growth
    have room1 : Room q pml4 rest := by
      refine ⟨fun v member => room.userHalf v (List.mem_cons_of_mem _ member),
        fun v member => ?_, ?_⟩
      · rw [grown.entries, if_neg (others v member), entries]
        exact room.unmapped v (List.mem_cons_of_mem _ member)
      · rw [lacking1]
        omega
    obtain ⟨q', level2, ran, filled⟩ := ih grown.paging room1 apart
    refine ⟨q', level2, ?_, filled.paging, fun v member virt' same => ?_, fun virt' other => ?_⟩
    · have small := room.userHalf virt (List.mem_cons_self ..)
      have low : userTop < 2 ^ 64 := by decide
      rw [mapFresh, result]
      dsimp only
      rw [if_neg given, if_pos (by omega), mapped]
      exact ran
    · rcases List.mem_cons.mp member with rfl | later
      · rw [filled.others virt' fun v member same' => others v member fun l bound =>
          (same' l bound).symm.trans (same l bound), grown.entries, if_pos same]
        exact ⟨_, rfl⟩
      · exact filled.mapped v later virt' same
    · rw [filled.others virt' fun v member => other v (List.mem_cons_of_mem _ member),
        grown.entries, if_neg (other virt (List.mem_cons_self ..)), entries]

/-- Without a page to give, the loop ends before it begins. -/
theorem mapFresh_of_unavailable (pml4 : Nat) (paging : Paging p roots level)
    (spent : p.alloc.available = 0) (flags : BitVec 64) (pages : List Nat) :
    mapFresh pml4 flags pages p = some (p, decide (pages = [])) := by
  cases pages with
  | nil => rfl
  | cons virt rest =>
    rw [mapFresh, PhysAllocator.palloc_of_unavailable paging.hint spent]
    rfl

theorem pagesFrom_apart {start : BitVec 64} {pages : Nat}
    (userHalf : ∀ virt ∈ pagesFrom start pages, virt < userTop) :
    Apart (pagesFrom start pages) := by
  have low : userTop < 2 ^ 48 := by decide
  refine List.pairwise_map.mpr (List.pairwise_lt_range.imp_of_mem ?_)
  intro j k memberJ memberK less same
  have first := userHalf _ (List.mem_map_of_mem memberJ)
  have second := userHalf _ (List.mem_map_of_mem memberK)
  have page := page_of_same (by omega) (by omega) same
  simp only [pageSize] at page
  omega

theorem roundUp_eq_some {size aligned : BitVec 64} (rounded : roundUp size = some aligned) :
    aligned.toNat = (size.toNat + 0xFFF) / pageSize * pageSize := by
  unfold roundUp at rounded
  split_ifs at rounded with small
  obtain rfl := Option.some.inj rounded
  have mask : (~~~(0xFFF : BitVec 64)).toNat = (2 ^ 52 - 1) * 2 ^ 12 := by decide
  have sum : (size + 0xFFF).toNat = size.toNat + 0xFFF := by
    rw [BitVec.toNat_add]
    exact Nat.mod_eq_of_lt small
  have field := and_field (size.toNat + 0xFFF) 52 12
  rw [BitVec.toNat_and, mask, sum, field]
  simp only [pageSize]
  omega

/-! ## The calls -/

variable (w : World δ ρ) (i : Slot)

/-- A call of the task; `none` is a panic. -/
def serve : MemCall → Option (BitVec 64 × World δ ρ)
  | .brk newBrk => w.sysBrk i newBrk
  | .mmap addr length prot => w.sysMmap i addr length prot

/-- The addresses at which a call maps a page, unless its size overflows. -/
def newPages : MemCall → Option (List Nat)
  | .brk newBrk =>
    let brk := (w.tasks i).brk
    if newBrk = 0 ∨ newBrk ≤ brk then some []
    else (roundUp newBrk).map fun aligned => pagesFrom brk ((aligned - brk).toNat / pageSize)
  | .mmap addr length _ =>
    (roundUp length).map fun size =>
      pagesFrom (if addr = 0 then (w.tasks i).mmapBase else addr) (size.toNat / pageSize)

/-- The last entry for an address in the task's address space. -/
def entryAt (virt : BitVec 64) : Option (BitVec 64) :=
  leafEntry w.machine.kernel.phys.mem (w.tasks i).pml4Phys virt

/-- The address is mapped, and its entry allows writes. -/
def Writable (virt : BitVec 64) : Prop :=
  ∃ entry, w.entryAt i virt = some entry ∧ entry &&& pteWritable ≠ 0#64

/-- The result says that the call has failed: the old break, or an error. -/
def Reports (result : BitVec 64) : MemCall → Prop
  | .brk _ => result = (w.tasks i).brk
  | .mmap _ _ _ => result = errno linuxENOMEM

/-- What a call that fails leaves as it was. -/
structure Unchanged (w w' : World δ ρ) (i : Slot) : Prop where
  brk : (w'.tasks i).brk = (w.tasks i).brk
  mmapBase : (w'.tasks i).mmapBase = (w.tasks i).mmapBase
  mappings : ∀ virt, w'.entryAt i virt = w.entryAt i virt
  free : w'.machine.kernel.phys.alloc.clearBits = w.machine.kernel.phys.alloc.clearBits

/-- A call fails if it says so, or leaves a page unmapped. -/
def Fails (w w' : World δ ρ) (i : Slot) (result : BitVec 64) (call : MemCall) : Prop :=
  w.Reports i result call ∨ ∃ pages, w.newPages i call = some pages ∧
    ∃ virt ∈ pages, ¬ w'.Writable i (BitVec.ofNat 64 virt)

/-- What a call is to do, for a task whose break was `start` at first. -/
structure Behaves (start : BitVec 64) (i : Slot) (w w' : World δ ρ) (call : MemCall)
    (result : BitVec 64) : Prop where
  heap : ∀ newBrk, call = .brk newBrk → ∀ virt, start ≤ virt → virt < result → w'.Writable i virt
  failed : Fails w w' i result call → w.Reports i result call ∧ Unchanged w w' i
  kept : ∀ virt entry, w.entryAt i virt = some entry → w'.entryAt i virt = some entry
  userHalf : ∀ pages, w.newPages i call = some pages → ∀ virt ∈ pages,
    w'.entryAt i (BitVec.ofNat 64 virt) ≠ w.entryAt i (BitVec.ofNat 64 virt) → virt < userTop
  kernelHalf : ∀ virt, 256 ≤ pml4Index virt → w'.entryAt i virt = w.entryAt i virt

/-- The caller says where to map. -/
def Placed : MemCall → Prop
  | .brk _ => False
  | .mmap addr _ _ => addr ≠ 0

/-- The size of a call does not overflow, and there is room for its pages, or no page at all
for an `mmap` that leaves the base alone. -/
def Meets (call : MemCall) : Prop :=
  ∃ pages ∈ w.newPages i call,
    Room w.machine.kernel.phys (w.tasks i).pml4Phys pages ∨
      w.machine.kernel.phys.alloc.available = 0 ∧ Placed call

/-- A task as the loader and the calls leave it. -/
structure Loaded (roots : Set Nat) : Prop where
  paging : ∃ level, Paging w.machine.kernel.phys roots level
  root : (w.tasks i).pml4Phys ∈ roots
  aligned : pageSize ∣ (w.tasks i).brk.toNat

/-- Every address from the first break to the break is writable. -/
def HeapMapped (start : BitVec 64) : Prop :=
  ∀ virt, start ≤ virt → virt < (w.tasks i).brk → w.Writable i virt

variable {w w' : World δ ρ} {i : Slot} {start : BitVec 64} {pages : List Nat} {flags : BitVec 64}

/-- The flags of both calls allow writes. -/
theorem writable_word (phys : BitVec 64) {flags : BitVec 64}
    (writable : flags &&& pteWritable ≠ 0#64) :
    (pteFromPhys phys ||| ptePresent ||| flags) &&& pteWritable ≠ 0#64 := by
  intro clear
  rw [BitVec.and_or_distrib_right, BitVec.or_eq_zero_iff] at clear
  exact writable clear.2

/-- What holds behind a call that has mapped its pages. -/
structure Extended (w w' : World δ ρ) (i : Slot) (pages : List Nat) : Prop where
  mapped : ∀ virt ∈ pages, ∀ virt', SamePage virt' (BitVec.ofNat 64 virt) → w'.Writable i virt'
  kept : ∀ virt entry, w.entryAt i virt = some entry → w'.entryAt i virt = some entry
  kernelHalf : ∀ virt, 256 ≤ pml4Index virt → w'.entryAt i virt = w.entryAt i virt

theorem Filled.extended {level' : Nat → Option Nat}
    (filled : Filled w.machine.kernel.phys q roots level' (w.tasks i).pml4Phys flags pages)
    (room : Room w.machine.kernel.phys (w.tasks i).pml4Phys pages)
    (writable : flags &&& pteWritable ≠ 0#64) (phys : w'.machine.kernel.phys = q)
    (table : (w'.tasks i).pml4Phys = (w.tasks i).pml4Phys) : Extended w w' i pages := by
  subst phys
  have after (virt : BitVec 64) : w'.entryAt i virt =
      leafEntry w'.machine.kernel.phys.mem (w.tasks i).pml4Phys virt := by rw [entryAt, table]
  refine ⟨fun virt member virt' same => ?_, fun virt entry found => ?_, fun virt high => ?_⟩
  · obtain ⟨page, mapped⟩ := filled.mapped virt member virt' same
    exact ⟨_, (after virt').trans mapped, writable_word page writable⟩
  · rw [after, filled.others virt, ← entryAt, found]
    intro page member same
    have unmapped := room.unmapped page member
    have alike : (w.entryAt i virt).isSome = (w.entryAt i (BitVec.ofNat 64 page)).isSome :=
      lookup_isSome_same same
    rw [found, entryAt, unmapped] at alike
    cases alike
  · rw [after, filled.others virt, ← entryAt]
    intro page member same
    have low := room.userHalf page member
    have index : pml4Index virt = x86.index 3 (BitVec.ofNat 64 page) := same 3 le_rfl
    rw [index, index_eq, BitVec.toNat_ofNat] at high
    simp only [userTop] at low
    omega

/-- The pages from an aligned break to a higher one have all the addresses between them. -/
theorem page_of_between {low high : BitVec 64} (lowAligned : pageSize ∣ low.toNat)
    (highAligned : pageSize ∣ high.toNat) {virt : BitVec 64} (above : low ≤ virt)
    (below : virt < high) :
    ∃ page ∈ pagesFrom low ((high - low).toNat / pageSize),
      SamePage virt (BitVec.ofNat 64 page) := by
  have above : low.toNat ≤ virt.toNat := above
  have below : virt.toNat < high.toNat := below
  have bound := high.isLt
  obtain ⟨first, lowPages⟩ := lowAligned
  obtain ⟨last, highPages⟩ := highAligned
  have difference : (high - low).toNat = high.toNat - low.toNat :=
    BitVec.toNat_sub_of_le (show low.toNat ≤ high.toNat by omega)
  simp only [pageSize] at lowPages highPages
  refine ⟨low.toNat + (virt.toNat - low.toNat) / pageSize * pageSize,
    List.mem_map.mpr ⟨(virt.toNat - low.toNat) / pageSize, List.mem_range.mpr ?_, rfl⟩,
    same_of_page ?_ 3⟩
  · rw [difference]
    simp only [pageSize]
    omega
  · rw [BitVec.toNat_ofNat]
    simp only [pageSize]
    omega

/-- `sys_brk` where its condition is met. -/
theorem sysBrk_behaves {newBrk : BitVec 64} (loaded : w.Loaded i roots)
    (heap : w.HeapMapped i start) (meets : w.Meets i (.brk newBrk)) :
    ∃ result w', w.serve i (.brk newBrk) = some (result, w') ∧ w'.Loaded i roots ∧
      w'.HeapMapped i start ∧ Behaves start i w w' (.brk newBrk) result := by
  by_cases idle : newBrk = 0 ∨ newBrk ≤ (w.tasks i).brk
  · refine ⟨(w.tasks i).brk, w, if_pos idle, loaded, heap, fun _ _ => heap, fun _ => ⟨rfl, ?_⟩,
      fun _ _ => id, fun _ _ _ _ changed => absurd rfl changed, fun _ _ => rfl⟩
    exact ⟨rfl, rfl, fun _ => rfl, rfl⟩
  obtain ⟨pages, asked, room | ⟨-, nowhere⟩⟩ := meets
  swap
  · cases nowhere
  have asked : w.newPages i (.brk newBrk) = some pages := asked
  rw [newPages, if_neg idle] at asked
  obtain ⟨aligned, rounded, rfl⟩ := Option.map_eq_some_iff.mp asked
  obtain ⟨level, paging⟩ := loaded.paging
  obtain ⟨q, level', ran, filled⟩ := mapFresh_filled paging loaded.root
    (pteWritable ||| pteUser) room (pagesFrom_apart room.userHalf)
  have multiple : pageSize ∣ aligned.toNat := by
    rw [roundUp_eq_some rounded]
    exact Nat.dvd_mul_left _ _
  have grows : (w.tasks i).brk < aligned := by
    obtain ⟨-, above⟩ := not_or.mp idle
    have above : (w.tasks i).brk.toNat < newBrk.toNat := Nat.lt_of_not_le above
    have size := roundUp_eq_some rounded
    have less : (w.tasks i).brk.toNat < aligned.toNat := by
      simp only [pageSize] at size
      omega
    exact less
  have extended : Extended w ((w.withPhys q).modify i fun t => { t with brk := aligned }) i
      (pagesFrom (w.tasks i).brk ((aligned - (w.tasks i).brk).toNat / pageSize)) :=
    filled.extended room (by decide) rfl (by simp [withPhys])
  have broken :
      (((w.withPhys q).modify i fun t => { t with brk := aligned }).tasks i).brk = aligned := by
    simp
  have heap' : HeapMapped ((w.withPhys q).modify i fun t => { t with brk := aligned }) i start := by
    intro virt above below
    rw [broken] at below
    rcases Nat.lt_or_ge virt.toNat (w.tasks i).brk.toNat with old | new
    · obtain ⟨entry, found, writable⟩ := heap virt above old
      exact ⟨entry, extended.kept virt entry found, writable⟩
    · obtain ⟨page, member, same⟩ := page_of_between loaded.aligned multiple new below
      exact extended.mapped page member virt same
  refine ⟨aligned, _, ?_, ⟨⟨level', by simpa [withPhys] using filled.paging⟩,
    by simpa [withPhys] using loaded.root, by rwa [broken]⟩, heap', ?_, ?_, extended.kept, ?_,
    extended.kernelHalf⟩
  · simp only [serve, sysBrk, if_neg idle, rounded, Option.bind_some, ran, Option.map_some]
  · intro _ _ virt above below
    exact heap' virt above (broken.symm ▸ below)
  · -- It does not fail: the result is new, and every page is mapped.
    rintro (old | ⟨pages, asked', virt, member, unmapped⟩)
    · exact absurd (old ▸ grows : (w.tasks i).brk < (w.tasks i).brk) (BitVec.lt_irrefl _)
    · simp only [newPages, if_neg idle, rounded, Option.map_some, Option.some.injEq] at asked'
      exact absurd (extended.mapped virt (asked' ▸ member) _ fun _ _ => rfl) unmapped
  · intro pages asked' virt member _
    simp only [newPages, if_neg idle, rounded, Option.map_some, Option.some.injEq] at asked'
    exact room.userHalf virt (asked' ▸ member)

/-- The flags of `sys_mmap`. -/
def mmapFlags (prot : BitVec 32) : BitVec 64 :=
  pteWritable ||| pteUser ||| (if prot &&& 1 = 0 then pteNx else 0)

/-- The state in which `sys_mmap` begins to map. -/
def based (w : World δ ρ) (i : Slot) (addr size : BitVec 64) : World δ ρ :=
  if addr = 0 then w.modify i fun t => { t with mmapBase := (w.tasks i).mmapBase + size } else w

theorem based_machine {addr size : BitVec 64} : (w.based i addr size).machine = w.machine := by
  unfold based
  split_ifs <;> rfl

theorem based_task {addr size : BitVec 64} : (w.based i addr size).tasks i =
    { w.tasks i with
      mmapBase := if addr = 0 then (w.tasks i).mmapBase + size else (w.tasks i).mmapBase } := by
  unfold based
  split_ifs
  · simp
  · rfl

/-- Where the base does not move and the loop takes nothing, nothing changes. -/
theorem based_unchanged {addr size : BitVec 64} (same : addr ≠ 0 ∨ size = 0) :
    Unchanged w ((w.based i addr size).withPhys w.machine.kernel.phys) i := by
  have task : ((w.based i addr size).withPhys w.machine.kernel.phys).tasks i =
      (w.based i addr size).tasks i := rfl
  refine ⟨by rw [task, based_task], ?_, fun virt => ?_, rfl⟩
  · rw [task, based_task]
    dsimp only
    split_ifs with zero
    · obtain rfl := same.resolve_left fun nonzero => nonzero zero
      exact BitVec.add_zero _
    · rfl
  · rw [entryAt, entryAt, task, based_task]
    rfl

/-- `sys_mmap` behind its checks: the loop decides. -/
theorem serve_mmap {addr length size : BitVec 64} {prot : BitVec 32} {mapped : Bool}
    (rounded : roundUp length = some size)
    (bounded : ¬ (addr = 0 ∧ (w.tasks i).mmapBase.toNat + size.toNat ≥ 2 ^ 64))
    (ran : mapFresh (w.tasks i).pml4Phys (mmapFlags prot)
      (pagesFrom (if addr = 0 then (w.tasks i).mmapBase else addr) (size.toNat / pageSize))
      w.machine.kernel.phys = some (q, mapped)) :
    w.serve i (.mmap addr length prot) = some
      (if mapped then (if addr = 0 then (w.tasks i).mmapBase else addr) else errno linuxENOMEM,
        (w.based i addr size).withPhys q) := by
  have table : ((w.based i addr size).tasks i).pml4Phys = (w.tasks i).pml4Phys := by rw [based_task]
  have phys : (w.based i addr size).machine.kernel.phys = w.machine.kernel.phys := by
    rw [based_machine]
  rw [← table, ← phys] at ran
  rw [serve, sysMmap, rounded, Option.bind_some]
  dsimp only
  rw [if_neg bounded]
  change Option.map _ (mapFresh ((w.based i addr size).tasks i).pml4Phys (mmapFlags prot) _
    (w.based i addr size).machine.kernel.phys) = _
  rw [ran]
  rfl

/-- With its last page in the user half, the mapping does not end behind the last address. -/
theorem mmap_bounded {addr size : BitVec 64}
    (whole : size.toNat / pageSize * pageSize = size.toNat)
    (userHalf : ∀ virt ∈ pagesFrom (if addr = 0 then (w.tasks i).mmapBase else addr)
      (size.toNat / pageSize), virt < userTop) :
    ¬ (addr = 0 ∧ (w.tasks i).mmapBase.toNat + size.toNat ≥ 2 ^ 64) := by
  rintro ⟨zero, overflow⟩
  have base := (w.tasks i).mmapBase.isLt
  rcases Nat.eq_zero_or_pos (size.toNat / pageSize) with none | some
  · rw [none] at whole
    omega
  · have last := userHalf _ (List.mem_map_of_mem
      (List.mem_range.mpr (Nat.sub_lt some Nat.one_pos)))
    rw [if_pos zero, Nat.sub_mul, whole] at last
    simp only [userTop, pageSize] at last
    omega

/-- `sys_mmap` where its condition is met. -/
theorem sysMmap_behaves {addr length : BitVec 64} {prot : BitVec 32} (loaded : w.Loaded i roots)
    (heap : w.HeapMapped i start) (meets : w.Meets i (.mmap addr length prot)) :
    ∃ result w', w.serve i (.mmap addr length prot) = some (result, w') ∧ w'.Loaded i roots ∧
      w'.HeapMapped i start ∧ Behaves start i w w' (.mmap addr length prot) result := by
  obtain ⟨pages, asked, meets⟩ := meets
  rw [newPages] at asked
  obtain ⟨size, rounded, rfl⟩ := Option.map_eq_some_iff.mp asked
  obtain ⟨level, paging⟩ := loaded.paging
  have whole : size.toNat / pageSize * pageSize = size.toNat := by
    rw [roundUp_eq_some rounded]
    simp only [pageSize]
    omega
  have task (q : PhysMem) :
      ((w.based i addr size).withPhys q).tasks i = (w.based i addr size).tasks i := rfl
  have brk (q : PhysMem) : (((w.based i addr size).withPhys q).tasks i).brk = (w.tasks i).brk := by
    rw [task, based_task]
  have table (q : PhysMem) :
      (((w.based i addr size).withPhys q).tasks i).pml4Phys = (w.tasks i).pml4Phys := by
    rw [task, based_task]
  rcases meets with room | ⟨spent, nonzero⟩
  · have bounded := mmap_bounded (w := w) whole room.userHalf
    obtain ⟨q, level', ran, filled⟩ := mapFresh_filled paging loaded.root (mmapFlags prot) room
      (pagesFrom_apart room.userHalf)
    have extended : Extended w ((w.based i addr size).withPhys q) i
        (pagesFrom (if addr = 0 then (w.tasks i).mmapBase else addr) (size.toNat / pageSize)) :=
      filled.extended room (by unfold mmapFlags; split_ifs <;> decide) rfl (table q)
    refine ⟨_, _, serve_mmap rounded bounded ran, ⟨⟨level', filled.paging⟩, ?_, ?_⟩, ?_, by simp, ?_,
      extended.kept, ?_, extended.kernelHalf⟩
    · exact (table q).symm ▸ loaded.root
    · exact (brk q).symm ▸ loaded.aligned
    · intro virt above below
      obtain ⟨entry, found, writable⟩ := heap virt above (brk q ▸ below)
      exact ⟨entry, extended.kept virt entry found, writable⟩
    · -- An address of the user half is no error, and no page is left out.
      rintro (refused | ⟨pages, asked', virt, member, unmapped⟩)
      · have refused : (if addr = 0 then (w.tasks i).mmapBase else addr) = errno linuxENOMEM :=
          refused
        rcases Nat.eq_zero_or_pos (size.toNat / pageSize) with none | some
        · have size : size = 0 := by
            rw [none, Nat.zero_mul] at whole
            exact BitVec.eq_of_toNat_eq whole.symm
          rw [none] at ran
          obtain ⟨rfl, -⟩ := Prod.mk.inj (Option.some.inj ran)
          exact ⟨refused, based_unchanged (.inr size)⟩
        · have first := room.userHalf _ (List.mem_map_of_mem (List.mem_range.mpr some))
          rw [refused] at first
          exact absurd first (by decide)
      · simp only [newPages, rounded, Option.map_some, Option.some.injEq] at asked'
        exact absurd (extended.mapped virt (asked' ▸ member) _ fun _ _ => rfl) unmapped
    · intro pages asked' virt member _
      simp only [newPages, rounded, Option.map_some, Option.some.injEq] at asked'
      exact room.userHalf virt (asked' ▸ member)
  · have ran := mapFresh_of_unavailable (w.tasks i).pml4Phys paging spent (mmapFlags prot)
      (pagesFrom (if addr = 0 then (w.tasks i).mmapBase else addr) (size.toNat / pageSize))
    have unchanged : Unchanged w ((w.based i addr size).withPhys w.machine.kernel.phys) i :=
      based_unchanged (.inl nonzero)
    refine ⟨_, _, serve_mmap rounded (fun wraps => nonzero wraps.1) ran, ⟨⟨level, paging⟩, ?_, ?_⟩,
      ?_, by simp, ?_, fun virt entry found => (unchanged.mappings virt).trans found,
      fun _ _ _ _ changed => absurd (unchanged.mappings _) changed,
      fun virt _ => unchanged.mappings virt⟩
    · exact (table _).symm ▸ loaded.root
    · exact (brk _).symm ▸ loaded.aligned
    · intro virt above below
      obtain ⟨entry, found, writable⟩ := heap virt above (brk _ ▸ below)
      exact ⟨entry, (unchanged.mappings virt).trans found, writable⟩
    · rintro (refused | ⟨pages, asked', virt, member, unmapped⟩)
      · exact ⟨refused, unchanged⟩
      · simp only [newPages, rounded, Option.map_some, Option.some.injEq] at asked'
        have asks : pagesFrom (if addr = 0 then (w.tasks i).mmapBase else addr)
            (size.toNat / pageSize) ≠ [] := by
          rw [asked']
          exact List.ne_nil_of_mem member
        refine ⟨?_, unchanged⟩
        rw [decide_eq_false asks]
        exact if_neg Bool.false_ne_true

/-! ## Runs -/

/-- A call of the task that returns. -/
def Serves (i : Slot) (w : World δ ρ) (call : MemCall) (w' : World δ ρ) : Prop :=
  ∃ result, w.serve i call = some (result, w')

/-- What one call does where its condition is met. -/
theorem serve_behaves {call : MemCall} (loaded : w.Loaded i roots) (heap : w.HeapMapped i start)
    (meets : w.Meets i call) :
    ∃ result w', w.serve i call = some (result, w') ∧ w'.Loaded i roots ∧ w'.HeapMapped i start ∧
      Behaves start i w w' call result := by
  cases call with
  | brk newBrk => exact sysBrk_behaves loaded heap meets
  | mmap addr length prot => exact sysMmap_behaves loaded heap meets

/-- In a run whose calls all meet the condition every call does what it is to do, and another
one that meets it does not panic. -/
theorem growth_behaves {final : World δ ρ} {taken : List (Transition (World δ ρ) MemCall)}
    (loaded : w.Loaded i roots) (trace : Trace (Serves i) w taken final)
    (met : Guarded (fun w call => w.Meets i call) taken) :
    (∀ transition ∈ taken, ∃ result,
      transition.before.serve i transition.label = some (result, transition.after) ∧
        Behaves (w.tasks i).brk i transition.before transition.after transition.label result) ∧
    ∀ call, final.Meets i call → ∃ result after, final.serve i call = some (result, after) := by
  let inv (w' : World δ ρ) : Prop := w'.Loaded i roots ∧ w'.HeapMapped i (w.tasks i).brk
  have start : inv w := ⟨loaded, fun virt above below => absurd below (Nat.not_lt.mpr above)⟩
  have kept (before : World δ ρ) (call : MemCall) (after : World δ ρ)
      (holds : inv before) (meets : before.Meets i call) (valid : Serves i before call after) :
      inv after ∧ ∃ result, before.serve i call = some (result, after) ∧
          Behaves (w.tasks i).brk i before after call result := by
    obtain ⟨result, w', served, loaded', heap', behaves⟩ := serve_behaves holds.1 holds.2 meets
    obtain ⟨_, valid⟩ := valid
    obtain ⟨-, rfl⟩ := Prod.mk.inj (Option.some.inj (valid.symm.trans served))
    exact ⟨⟨loaded', heap'⟩, result, served, behaves⟩
  refine ⟨trace.forall_of_guarded inv start kept met, fun call meets => ?_⟩
  have reached := trace.final_of_guarded inv start
    (fun before call after holds meets valid => (kept before call after holds meets valid).1) met
  obtain ⟨result, after, served, -⟩ := serve_behaves reached.1 reached.2 meets
  exact ⟨result, after, served⟩

section Samples

instance (p : PhysMem) (pml4 : Nat) (pages : List Nat) : Decidable (Room p pml4 pages) :=
  decidable_of_iff ((∀ virt ∈ pages, virt < userTop) ∧
    (∀ virt ∈ pages, leafEntry p.mem pml4 (BitVec.ofNat 64 virt) = none) ∧
      pages.length + x86.tablesFor 3 (lacking p.mem pml4) (pages.map (BitVec.ofNat 64)) ≤
        p.alloc.available)
    ⟨fun ⟨userHalf, unmapped, frames⟩ => ⟨userHalf, unmapped, frames⟩,
      fun ⟨userHalf, unmapped, frames⟩ => ⟨userHalf, unmapped, frames⟩⟩

instance (call : MemCall) : Decidable (Placed call) :=
  match call with
  | .brk _ => .isFalse id
  | .mmap addr _ _ => inferInstanceAs (Decidable (addr ≠ 0))

instance (w : World δ ρ) (i : Slot) (call : MemCall) : Decidable (w.Meets i call) :=
  inferInstanceAs (Decidable (∃ pages ∈ w.newPages i call, _))

/-- A Linux task with an empty address space, and as many free pages as are counted. -/
def grower (counted : Nat) : World Unit Unit where
  tasks i :=
    if i = 0 then
      { LinuxTask.empty with
        alive := true, pml4Phys := 0x1000, brk := 0x600000, mmapBase := 0x7F0000000000 }
    else .empty
  machine :=
    { kernel :=
        { Syscall.oneTask.kernel with
          phys := ⟨{ emptySpace.alloc with freePages := counted }, emptySpace.mem⟩ }
      user := fun _ => 0
      currentUid := 0
      users := []
      mmioRegions := []
      framebuffer := Syscall.oneTask.framebuffer
      rest := Vfs.Tables.empty () }
  rest := ()

theorem loaded_grower (counted : Nat) : (grower counted).Loaded 0 {0x1000} where
  paging := by
    refine ⟨_, ⟨⟨tables_emptySpace.toLayout, tables_emptySpace.start, tables_emptySpace.small,
      tables_emptySpace.hint, tables_emptySpace.unused, tables_emptySpace.aligned⟩, ⟨?_, ?_⟩, rfl,
      fun t i _ huge => absurd huge (show ¬ Huge 0#64 by decide)⟩⟩
    · exact (by decide : (0x100000 : Nat) ≠ 0)
    · exact (by decide : (0x101000 : Nat) ≠ 0)
  root := rfl
  aligned := ⟨0x600, rfl⟩

/-- Where a call leads, if it returns. -/
def follow (w : World Unit Unit) (call : MemCall) : Option (World Unit Unit) :=
  (w.serve 0 call).map Prod.snd

/-- The heap grows twice, and an anonymous mapping lies between. -/
theorem growth_behaves_grower : ∃ taken final,
    Trace (Serves 0) (grower 64) taken final ∧ taken.length = 3 ∧
      (∀ transition ∈ taken, ∃ result,
        transition.before.serve 0 transition.label = some (result, transition.after) ∧
          Behaves ((grower 64).tasks 0).brk 0 transition.before transition.after transition.label
            result) ∧
      ∀ call, final.Meets 0 call → ∃ result after, final.serve 0 call = some (result, after) := by
  obtain ⟨⟨taken, final⟩, recorded, steps, met⟩ :
      ∃ run ∈ record follow (grower 64) [.brk 0x601800, .mmap 0 0x2000 1, .brk 0x603000],
        run.1.length = 3 ∧
        ∀ transition ∈ run.1, transition.before.Meets 0 transition.label := by
    decide +kernel
  have trace : Trace (Serves 0) (grower 64) taken final :=
    (trace_of_record recorded).mono fun {w call w'} followed => by
      obtain ⟨⟨result, _⟩, served, rfl⟩ := Option.map_eq_some_iff.mp followed
      exact ⟨result, served⟩
  exact ⟨taken, final, trace, steps, growth_behaves (loaded_grower 64) trace met⟩

/-- Without memory `sys_brk` returns the new break, and nothing is mapped below it. -/
theorem brk_without_memory :
    ¬ ∀ (w final : World Unit Unit) (i : Slot) (roots : Set Nat)
      (taken : List (Transition (World Unit Unit) MemCall)),
      w.Loaded i roots → Trace (Serves i) w taken final →
        ∀ transition ∈ taken, ∃ result,
          transition.before.serve i transition.label = some (result, transition.after) ∧
            Behaves (w.tasks i).brk i transition.before transition.after transition.label
              result := by
  intro claim
  have served : ((grower 0).serve 0 (.brk 0x601000)).map (fun reply =>
      (reply.1, reply.2.entryAt 0 0x600000)) = some (0x601000, none) := by
    decide +kernel
  obtain ⟨⟨result, w'⟩, returns, reply⟩ := Option.map_eq_some_iff.mp served
  obtain ⟨rfl, unmapped⟩ := Prod.mk.inj reply
  obtain ⟨_, returns', behaves⟩ := claim (grower 0) w' 0 {0x1000} [⟨grower 0, .brk 0x601000, w'⟩]
    (loaded_grower 0) (.snoc .nil ⟨_, returns⟩) _ (List.mem_singleton_self _)
  obtain ⟨rfl, -⟩ := Prod.mk.inj (Option.some.inj (returns.symm.trans returns'))
  obtain ⟨entry, mapped, -⟩ := behaves.heap 0x601000 rfl 0x600000 (by decide) (by decide)
  cases unmapped.symm.trans mapped

end Samples

end World

end DBSos.Linux
