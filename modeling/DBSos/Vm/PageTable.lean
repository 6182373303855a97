import DBSos.Memory.Allocator

/-!
# Four-level page tables

Physical memory is read as tables of 512 entries: a table is named by the
address of its page, an entry by its table and index. Every table pointer of
the source is a page address (a `palloc` result or the masked address field of
an entry), so distinct pairs are distinct words of memory. Virtual addresses
and entries are 64-bit words and their arithmetic wraps.
-/

namespace DBSos.Vm

open DBSos.Memory

/-- 64-bit entries by table address and index. -/
abbrev PageMem := Nat → Nat → BitVec 64

/-- Memory the paging code works on: the page allocator and the tables. -/
structure PhysMem where
  alloc : PhysAllocator
  mem : PageMem

def pageMask : BitVec 64 := 0xFFFFFFFFF000#64

def ptePresent : BitVec 64 := 0x1#64
def pteWritable : BitVec 64 := 0x2#64
def pteUser : BitVec 64 := 0x4#64
def pteCacheDisable : BitVec 64 := 0x10#64
def pteAccessed : BitVec 64 := 0x20#64
def pteDirty : BitVec 64 := 0x40#64
def pteHuge : BitVec 64 := 0x80#64
def pteGlobal : BitVec 64 := 0x100#64

/-- `entry & PTE_PRESENT != 0`. -/
abbrev Present (entry : BitVec 64) : Prop := entry &&& ptePresent ≠ 0#64

/-- `entry & PTE_HUGE != 0`. -/
abbrev Huge (entry : BitVec 64) : Prop := entry &&& pteHuge ≠ 0#64

def physFromPte (entry : BitVec 64) : Nat := (entry &&& pageMask).toNat

def pteFromPhys (phys : BitVec 64) : BitVec 64 := phys &&& pageMask

def getPte (mem : PageMem) (table index : Nat) : BitVec 64 := mem table index

def setPte (mem : PageMem) (table index : Nat) (value : BitVec 64) : PageMem :=
  Function.update mem table (Function.update (mem table) index value)

/-- `write_bytes(page, 0, 512)`. -/
def zeroPage (mem : PageMem) (page : Nat) : PageMem :=
  Function.update mem page fun _ => 0#64

def pml4Index (virt : BitVec 64) : Nat := ((virt >>> 39) &&& 0x1FF#64).toNat
def pdptIndex (virt : BitVec 64) : Nat := ((virt >>> 30) &&& 0x1FF#64).toNat
def pdIndex (virt : BitVec 64) : Nat := ((virt >>> 21) &&& 0x1FF#64).toNat
def ptIndex (virt : BitVec 64) : Nat := ((virt >>> 12) &&& 0x1FF#64).toNat

/-- A leaf entry's place: `table.add(index)`. -/
structure PtePtr where
  table : Nat
  index : Nat
deriving DecidableEq

/-- The pointer as an address; the callers compare it with 0. -/
def PtePtr.addr (pointer : PtePtr) : Nat := pointer.table + 8 * pointer.index

/-- The entry word of a fresh table page. -/
def tableEntry (page : Nat) : BitVec 64 :=
  BitVec.ofNat 64 page ||| ptePresent ||| pteWritable ||| pteUser

/-- The arm of `walk_or_create` that fills an absent entry with a zeroed table,
written three times in the source. `none` when the walk gives up. -/
def ensureTable (p : PhysMem) (table index : Nat) (create : Bool) : PhysMem × Option Unit :=
  if Present (getPte p.mem table index) then (p, some ())
  else if !create then (p, none)
  else
    let (page, alloc) := p.alloc.palloc
    if page = 0 then (⟨alloc, p.mem⟩, none)
    else (⟨alloc, setPte (zeroPage p.mem page) table index (tableEntry page)⟩, some ())

/-- The flags a 2 MiB entry passes to its 4 KiB entries. -/
def splitFlags (entry : BitVec 64) : BitVec 64 :=
  entry &&& ~~~(pageMask ||| pteHuge ||| pteAccessed ||| pteDirty)

/-- The 512 entries that replace a 2 MiB entry. -/
def splitEntry (entry : BitVec 64) (i : Nat) : BitVec 64 :=
  BitVec.ofNat 64 (physFromPte entry + i * 4096) ||| splitFlags entry

/-- The arm of `walk_or_create` that splits a 2 MiB entry. -/
def splitHuge (p : PhysMem) (pd index : Nat) : PhysMem × Option Unit :=
  let e2 := getPte p.mem pd index
  let (page, alloc) := p.alloc.palloc
  if page = 0 then (⟨alloc, p.mem⟩, none)
  else
    let filled : PageMem := Function.update p.mem page fun i =>
      if i < 512 then splitEntry e2 i else 0#64
    (⟨alloc, setPte filled pd index (tableEntry page ||| (e2 &&& pteGlobal))⟩, some ())

/-- `walk_or_create`: the leaf entry's place and value, `none` for the source's
`(0, 0)`. A present 1 GiB entry ends the walk; a 2 MiB entry is returned as the
leaf, or split when `create` is set. -/
def walkOrCreate (p : PhysMem) (pml4 : Nat) (virt : BitVec 64) (create : Bool) :
    PhysMem × Option (PtePtr × BitVec 64) :=
  match ensureTable p pml4 (pml4Index virt) create with
  | (p, none) => (p, none)
  | (p, some ()) =>
    let pdpt := physFromPte (getPte p.mem pml4 (pml4Index virt))
    let e1 := getPte p.mem pdpt (pdptIndex virt)
    match ensureTable p pdpt (pdptIndex virt) create with
    | (p, none) => (p, none)
    | (p, some ()) =>
      if Huge e1 then (p, none)
      else
        let pd := physFromPte (getPte p.mem pdpt (pdptIndex virt))
        let e2 := getPte p.mem pd (pdIndex virt)
        if Huge e2 ∧ create = false then (p, some (⟨pd, pdIndex virt⟩, e2))
        else
          match if Huge e2 then splitHuge p pd (pdIndex virt)
            else ensureTable p pd (pdIndex virt) create with
          | (p, none) => (p, none)
          | (p, some ()) =>
            let pt := physFromPte (getPte p.mem pd (pdIndex virt))
            (p, some (⟨pt, ptIndex virt⟩, getPte p.mem pt (ptIndex virt)))

/-- `map_page`: `false` for the source's `!0`. -/
def mapPage (p : PhysMem) (pml4 : Nat) (phys virt flags : BitVec 64) : PhysMem × Bool :=
  match walkOrCreate p pml4 virt true with
  | (p, none) => (p, false)
  | (p, some (pte, _)) =>
    if pte.addr = 0 then (p, false)
    else
      (⟨p.alloc, setPte p.mem pte.table pte.index (pteFromPhys phys ||| ptePresent ||| flags)⟩,
        true)

/-- `unmap_page`. -/
def unmapPage (p : PhysMem) (pml4 : Nat) (virt : BitVec 64) : PhysMem :=
  match walkOrCreate p pml4 virt false with
  | (p, none) => p
  | (p, some (pte, existing)) =>
    if pte.addr = 0 ∨ ¬ Present existing then p
    else ⟨p.alloc, setPte p.mem pte.table pte.index 0#64⟩

/-- The test of `is_user_range_mapped` on one page. -/
def userPageMapped (p : PhysMem) (pml4 : Nat) (virt : BitVec 64) : Bool :=
  match (walkOrCreate p pml4 virt false).2 with
  | none => false
  | some (pte, entry) => pte.addr ≠ 0 ∧ Present entry ∧ entry &&& pteUser ≠ 0#64

/-- `is_user_range_mapped`. -/
def isUserRangeMapped (p : PhysMem) (pml4 : Nat) (virt : BitVec 64) (len : Nat) : Bool :=
  if len = 0 then true
  else if pml4 = 0 then false
  else if virt.toNat + len ≥ 2 ^ 64 then false
  else if virt.toNat ≥ 0x800000000000 ∨ virt.toNat + len > 0x800000000000 then false
  else
    let first := virt.toNat / pageSize
    (List.range ((virt.toNat + len + 0xFFF) / pageSize - first)).all fun i =>
      userPageMapped p pml4 (BitVec.ofNat 64 ((first + i) * pageSize))

/-- Copy the present entries `lo..hi` of one table into another; the loops of
`clone_kernel_mappings` and of both forks. -/
def copyEntries (mem : PageMem) (src dst lo hi : Nat) : PageMem :=
  Function.update mem dst fun i =>
    if lo ≤ i ∧ i < hi ∧ Present (getPte mem src i) then getPte mem src i else getPte mem dst i

/-- The arms of `identity_map_2mb` that follow an entry, or fill it with a zeroed
table without `PTE_USER`. -/
def kernelTable (p : PhysMem) (table index : Nat) : PhysMem × Option Nat :=
  let entry := getPte p.mem table index
  if Present entry then (p, some (physFromPte entry))
  else
    let (page, alloc) := p.alloc.palloc
    if page = 0 then (⟨alloc, p.mem⟩, none)
    else
      (⟨alloc, setPte (zeroPage p.mem page) table index
        (BitVec.ofNat 64 page ||| ptePresent ||| pteWritable)⟩, some page)

/-- The loop of `identity_map_2mb`. Every turn advances by 2 MiB or 1 GiB, so
`fuel` turns of 2 MiB reach the end. -/
def identityMapFrom (pml4 i0 stop : Nat) (flags : BitVec 64) : Nat → PhysMem → Nat → PhysMem × Bool
  | 0, p, _ => (p, true)
  | fuel + 1, p, addr =>
    if addr < stop then
      match kernelTable p pml4 i0 with
      | (p, none) => (p, false)
      | (p, some pdpt) =>
        let i1 := pdptIndex (BitVec.ofNat 64 addr)
        let e1 := getPte p.mem pdpt i1
        if Present e1 ∧ Huge e1 then
          identityMapFrom pml4 i0 stop flags fuel p (addr + 0x40000000)
        else
          match kernelTable p pdpt i1 with
          | (p, none) => (p, false)
          | (p, some pd) =>
            let entry := (BitVec.ofNat 64 addr &&& 0xFFFFFFE00000#64) ||| ptePresent |||
              pteHuge ||| flags
            identityMapFrom pml4 i0 stop flags fuel
              ⟨p.alloc, setPte p.mem pd (pdIndex (BitVec.ofNat 64 addr)) entry⟩
              (addr + 0x200000)
    else (p, true)

/-- `identity_map_2mb`: the range lies inside one PML4 entry. -/
def identityMap2mb (p : PhysMem) (pml4 start stop : Nat) (flags : BitVec 64) : PhysMem × Bool :=
  identityMapFrom pml4 (pml4Index (BitVec.ofNat 64 start)) stop flags
    ((stop - start) / 0x200000 + 2) p (start - start % 0x200000)

/-- The loops of `destroy_address_space` over one page directory: its page
tables; 2 MiB entries are shared identity mappings. -/
def pdPages (mem : PageMem) (pd : Nat) : List Nat :=
  (List.range 512).filterMap fun k =>
    let e2 := getPte mem pd k
    if Present e2 ∧ ¬ Huge e2 then some (physFromPte e2) else none

/-- One page-directory-pointer table: each directory after its tables. -/
def pdptPages (mem : PageMem) (pdpt : Nat) : List Nat :=
  (List.range 512).flatMap fun j =>
    let e1 := getPte mem pdpt j
    if Present e1 ∧ ¬ Huge e1 then pdPages mem (physFromPte e1) ++ [physFromPte e1] else []

/-- The pages `destroy_address_space` returns to the allocator, in its order. -/
def addressSpacePages (mem : PageMem) (pml4 : Nat) : List Nat :=
  ((List.range 256).flatMap fun i =>
    let e0 := getPte mem pml4 i
    if Present e0 then
      if Huge e0 then [physFromPte e0]
      else pdptPages mem (physFromPte e0) ++ [physFromPte e0]
    else []) ++ [pml4]

/-- `destroy_address_space`: the tables are only read, so the frees commute
with the loops that find them. -/
def destroyAddressSpace (p : PhysMem) (pml4 : Nat) : PhysMem :=
  ⟨(addressSpacePages p.mem pml4).foldl PhysAllocator.pfree p.alloc, p.mem⟩

/-! ## What these take -/

section Allocations

/-! The kernel mapping touches the allocator through `palloc` alone, so it has every
relation between allocators that `palloc` has. -/

variable {related : PhysAllocator → PhysAllocator → Prop} (refl : ∀ a, related a a)
  (trans : ∀ {a b c}, related a b → related b c → related a c)
  (palloc : ∀ a : PhysAllocator, related a a.palloc.2)
include refl palloc

theorem kernelTable_allocates (p : PhysMem) (table index : Nat) :
    related p.alloc (kernelTable p table index).1.alloc := by
  unfold kernelTable
  dsimp only
  split_ifs
  · exact refl _
  · exact palloc p.alloc
  · exact palloc p.alloc

include trans

theorem identityMapFrom_allocates (pml4 i0 stop : Nat) (flags : BitVec 64) (fuel : Nat)
    (p : PhysMem) (addr : Nat) :
    related p.alloc (identityMapFrom pml4 i0 stop flags fuel p addr).1.alloc := by
  induction fuel generalizing p addr with
  | zero => exact refl _
  | succ fuel ih =>
    rw [identityMapFrom]
    split_ifs with inside
    · have first := kernelTable_allocates refl palloc p pml4 i0
      split
      · rename_i failed
        rwa [failed] at first
      · rename_i p pdpt found
        rw [found] at first
        dsimp only
        split_ifs
        · exact trans first (ih _ _)
        · have second := kernelTable_allocates refl palloc p pdpt
            (pdptIndex (BitVec.ofNat 64 addr))
          split
          · rename_i failed
            rw [failed] at second
            exact trans first second
          · rename_i p pd found
            rw [found] at second
            dsimp only at second
            have rest := ih ⟨p.alloc, setPte p.mem pd (pdIndex (BitVec.ofNat 64 addr))
              ((BitVec.ofNat 64 addr &&& 0xFFFFFFE00000#64) ||| ptePresent ||| pteHuge ||| flags)⟩
              (addr + 0x200000)
            exact trans first (trans second rest)
    · exact refl _

theorem identityMap2mb_allocates (p : PhysMem) (pml4 start stop : Nat) (flags : BitVec 64) :
    related p.alloc (identityMap2mb p pml4 start stop flags).1.alloc :=
  identityMapFrom_allocates refl trans palloc _ _ _ _ _ _ _

end Allocations

theorem identityMap2mb_grows (p : PhysMem) (pml4 start stop : Nat) (flags : BitVec 64) :
    p.alloc.Grows (identityMap2mb p pml4 start stop flags).1.alloc :=
  identityMap2mb_allocates .refl .trans PhysAllocator.palloc_grows p pml4 start stop flags

end DBSos.Vm
