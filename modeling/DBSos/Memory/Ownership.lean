import DBSos.Lib.Trace
import DBSos.Memory.Allocator

/-!
# Ownership of physical pages

The allocator runs beside the list of pages its callers hold. `Sound` is what
the callers rely on: held pages are apart, lie in the region, and `free_pages`
counts the clear bits. The run counter of `palloc_n` survives the wrap from the
last page to page 0, so `Sound` is kept exactly by the requests that meet
`NoWrap`.
-/

namespace DBSos.Memory

open DBSos.Lib

/-- The allocator and the addresses of the pages handed out and not yet freed. -/
structure Ownership where
  alloc : PhysAllocator
  live : List Nat

/-- The calls of the page allocator's interface. -/
inductive Request where
  | palloc
  | pallocN (n : Nat)
  | pfree (phys : Nat)
  | pfreeN (phys n : Nat)

/-- The addresses of `n` adjacent pages. -/
def pages (phys n : Nat) : List Nat := (List.range n).map fun i => phys + i * pageSize

namespace Ownership

/-- Record the pages of a successful allocation; address 0 means failure. -/
def grant (o : Ownership) (n : Nat) (result : Nat × PhysAllocator) : Ownership where
  alloc := result.2
  live := if result.1 = 0 then o.live else pages result.1 n ++ o.live

/-- One request by callers that ask for at least one page and free only pages
they hold. -/
def step (o : Ownership) : Request → Option Ownership
  | .palloc => some (o.grant 1 o.alloc.palloc)
  | .pallocN n => if n = 0 then none else some (o.grant n (o.alloc.pallocN n))
  | .pfree phys =>
    if phys ∈ o.live then some ⟨o.alloc.pfree phys, o.live.erase phys⟩ else none
  | .pfreeN phys n =>
    if ∀ page ∈ pages phys n, page ∈ o.live then
      some ⟨o.alloc.pfreeN phys n, o.live.diff (pages phys n)⟩
    else none

/-- The transition relation of the requests. -/
def Steps (o : Ownership) (request : Request) (next : Ownership) : Prop :=
  o.step request = some next

end Ownership

/-- Two pages share no byte. -/
def Apart (p q : Nat) : Prop := p + pageSize ≤ q ∨ q + pageSize ≤ p

/-- The page lies in `phys_start .. phys_start + total_pages * 4096`. -/
def Inside (a : PhysAllocator) (p : Nat) : Prop :=
  a.physStart ≤ p ∧ p + pageSize ≤ a.physStart + a.totalPages * pageSize

instance (a : PhysAllocator) (p : Nat) : Decidable (Inside a p) :=
  inferInstanceAs (Decidable (_ ∧ _))

/-- The clear bits among `0..total_pages`. -/
def clearPages (a : PhysAllocator) : Finset Nat :=
  (Finset.range a.totalPages).filter fun i => ¬ Used a.bitmap i

/-- What the callers of the allocator rely on. -/
structure Ownership.Sound (o : Ownership) : Prop where
  apart : o.live.Pairwise Apart
  inside : ∀ page ∈ o.live, Inside o.alloc page
  counted : o.alloc.freePages = (clearPages o.alloc).card

/-- An allocator as `memory::init` leaves it. -/
structure Fresh (a : PhysAllocator) : Prop where
  clear : ∀ i < a.totalPages, ¬ Used a.bitmap i
  free : a.freePages = a.totalPages
  hint : a.firstPage = 0

/-- A `palloc_n` whose scan first meets enough adjacent clear pages on one side
of the wrap; every other request qualifies. -/
def NoWrap (o : Ownership) : Request → Prop
  | .pallocN n => o.alloc.bitmapAddr ≠ 0 → n ≤ o.alloc.freePages →
      ∀ k, o.alloc.ScanFit n k → k + n ≤ o.alloc.totalPages ∨ o.alloc.totalPages ≤ k
  | _ => True

/-- The inductive strengthening of `Sound`: held pages are whole pages of the
region whose bits are set. -/
structure Ownership.Inv (o : Ownership) : Prop where
  hint : o.alloc.firstPage ≤ o.alloc.totalPages
  nodup : o.live.Nodup
  mapped : o.live ≠ [] → o.alloc.bitmapAddr ≠ 0
  held : ∀ page ∈ o.live, ∃ i < o.alloc.totalPages,
    page = o.alloc.pageAddr i ∧ Used o.alloc.bitmap i
  counted : o.alloc.freePages = (clearPages o.alloc).card

namespace Ownership

theorem mem_pages {phys n page : Nat} :
    page ∈ pages phys n ↔ ∃ i < n, page = phys + i * pageSize := by
  simp only [pages, List.mem_map, List.mem_range]
  constructor
  · rintro ⟨i, bound, rfl⟩
    exact ⟨i, bound, rfl⟩
  · rintro ⟨i, bound, rfl⟩
    exact ⟨i, bound, rfl⟩

theorem nodup_pages (phys n : Nat) : (pages phys n).Nodup := by
  refine List.Nodup.map ?_ List.nodup_range
  intro i j same
  simp only [pageSize] at same
  omega

theorem mem_clearPages {a : PhysAllocator} {i : Nat} :
    i ∈ clearPages a ↔ i < a.totalPages ∧ ¬ Used a.bitmap i := by
  simp [clearPages]

/-- The invariant gives the callers' view. -/
theorem Inv.sound {o : Ownership} (inv : o.Inv) : o.Sound where
  apart := by
    refine inv.nodup.imp_of_mem ?_
    intro p q pHeld qHeld differ
    obtain ⟨i, _, rfl, _⟩ := inv.held p pHeld
    obtain ⟨j, _, rfl, _⟩ := inv.held q qHeld
    have indexDiffer : i ≠ j := fun same => differ (by rw [same])
    simp only [Apart, PhysAllocator.pageAddr, pageSize]
    omega
  inside := by
    intro page held
    obtain ⟨i, bound, rfl, _⟩ := inv.held page held
    simp only [Inside, PhysAllocator.pageAddr, pageSize]
    omega
  counted := inv.counted

theorem inv_of_fresh {a : PhysAllocator} (fresh : Fresh a) : Inv ⟨a, []⟩ where
  hint := by
    have zero := fresh.hint
    simp only
    omega
  nodup := List.nodup_nil
  mapped := fun nonempty => absurd rfl nonempty
  held := by simp
  counted := by
    have all : clearPages a = Finset.range a.totalPages :=
      Finset.filter_true_of_mem fun i member => fresh.clear i (Finset.mem_range.mp member)
    rw [all, Finset.card_range, fresh.free]

/-- Taking a run of clear pages of the region keeps the invariant. -/
theorem inv_take {o : Ownership} (inv : o.Inv) {first n hint : Nat}
    (mapped : o.alloc.bitmapAddr ≠ 0) (bound : first + n ≤ o.alloc.totalPages)
    (clear : ∀ i, first ≤ i → i < first + n → ¬ Used o.alloc.bitmap i)
    (hintBound : hint ≤ o.alloc.totalPages) {bitmap : Bitmap}
    (marked : ∀ i, Used bitmap i ↔ first ≤ i ∧ i < first + n ∨ Used o.alloc.bitmap i) :
    (o.grant n (o.alloc.pageAddr first,
      { o.alloc with
        bitmap := bitmap
        freePages := o.alloc.freePages - n
        firstPage := hint })).Inv where
  hint := hintBound
  nodup := by
    simp only [grant]
    split_ifs
    · exact inv.nodup
    · refine (nodup_pages _ _).append inv.nodup ?_
      intro page fresh old
      obtain ⟨i, iBound, rfl⟩ := mem_pages.mp fresh
      obtain ⟨j, _, same, used⟩ := inv.held _ old
      have index : j = first + i := by
        simp only [PhysAllocator.pageAddr, pageSize] at same
        omega
      exact clear j (by omega) (by omega) used
  mapped := fun _ => mapped
  held := by
    intro page held
    simp only [grant] at held
    have old : page ∈ o.live → ∃ i < o.alloc.totalPages,
        page = o.alloc.pageAddr i ∧ Used bitmap i := by
      intro member
      obtain ⟨i, iBound, same, used⟩ := inv.held page member
      exact ⟨i, iBound, same, (marked i).mpr (.inr used)⟩
    split_ifs at held
    · exact old held
    · rcases List.mem_append.mp held with fresh | member
      · obtain ⟨i, iBound, rfl⟩ := mem_pages.mp fresh
        have inRegion : first + i < o.alloc.totalPages := by omega
        have address : o.alloc.pageAddr first + i * pageSize =
            o.alloc.pageAddr (first + i) := by
          simp only [PhysAllocator.pageAddr, pageSize]
          omega
        exact ⟨first + i, inRegion, address, (marked _).mpr (.inl ⟨by omega, by omega⟩)⟩
      · exact old member
  counted := by
    have taken : Finset.Ico first (first + n) ⊆ clearPages o.alloc := by
      intro i member
      rw [Finset.mem_Ico] at member
      exact mem_clearPages.mpr ⟨by omega, clear i member.1 member.2⟩
    have remaining : clearPages { o.alloc with
        bitmap := bitmap
        freePages := o.alloc.freePages - n
        firstPage := hint } = clearPages o.alloc \ Finset.Ico first (first + n) := by
      ext i
      simp only [mem_clearPages, Finset.mem_sdiff, Finset.mem_Ico, marked]
      tauto
    simp only [grant]
    rw [remaining, Finset.card_sdiff_of_subset taken, Nat.card_Ico, inv.counted]
    omega

/-- Freeing a held page keeps the invariant. -/
theorem inv_pfree {o : Ownership} (inv : o.Inv) {phys : Nat} (held : phys ∈ o.live) :
    Inv ⟨o.alloc.pfree phys, o.live.erase phys⟩ := by
  obtain ⟨page, bound, rfl, used⟩ := inv.held phys held
  have mapped := inv.mapped (List.ne_nil_of_mem held)
  rw [PhysAllocator.pfree_of_used mapped bound used]
  refine ⟨?_, inv.nodup.erase _, fun _ => mapped, ?_, ?_⟩
  · have hint := inv.hint
    simp only
    split_ifs <;> omega
  · intro other member
    obtain ⟨differs, old⟩ := inv.nodup.mem_erase_iff.mp member
    obtain ⟨i, iBound, rfl, iUsed⟩ := inv.held other old
    have indexDiffers : i ≠ page := fun same => differs (by rw [same])
    exact ⟨i, iBound, rfl, used_bitSet_zero.mpr ⟨indexDiffers, iUsed⟩⟩
  · have fresh : page ∉ clearPages o.alloc := fun member => (mem_clearPages.mp member).2 used
    have grown : clearPages { o.alloc with
        bitmap := bitSet o.alloc.bitmap page 0#8
        freePages := o.alloc.freePages + 1
        firstPage := if page < o.alloc.firstPage then page else o.alloc.firstPage } =
        insert page (clearPages o.alloc) := by
      ext i
      simp only [mem_clearPages, Finset.mem_insert, used_bitSet_zero]
      by_cases same : i = page
      · simp [same, bound]
      · simp [same]
    simp only
    rw [grown, Finset.card_insert_of_notMem fresh, inv.counted]

/-- Freeing held pages one by one keeps the invariant. -/
theorem inv_pfreeN {o : Ownership} (inv : o.Inv) {phys : Nat} (n : Nat)
    (held : ∀ page ∈ pages phys n, page ∈ o.live) :
    Inv ⟨o.alloc.pfreeN phys n, o.live.diff (pages phys n)⟩ := by
  induction n with
  | zero => exact inv
  | succ n ih =>
    have unrolled : pages phys (n + 1) = pages phys n ++ [phys + n * pageSize] := by
      simp [pages, List.range_succ]
    have before := ih fun page member =>
      held page (unrolled ▸ List.mem_append_left _ member)
    have last : phys + n * pageSize ∈ o.live.diff (pages phys n) := by
      refine List.mem_diff_of_mem (held _ (by simp [unrolled])) ?_
      intro earlier
      obtain ⟨i, bound, same⟩ := mem_pages.mp earlier
      simp only [pageSize] at same
      omega
    rw [PhysAllocator.pfreeN_succ, unrolled, List.diff_append, List.diff_cons, List.diff_nil]
    exact inv_pfree before last

/-- A scan that stops on one side of the wrap has found adjacent clear pages of
the region. -/
theorem scanFit_clear {a : PhysAllocator} {n k : Nat} (hint : a.firstPage ≤ a.totalPages) (fit : a.ScanFit n k)
    (side : k + n ≤ a.totalPages ∨ a.totalPages ≤ k) :
    a.scanIndex k + n ≤ a.totalPages ∧
      ∀ i, a.scanIndex k ≤ i → i < a.scanIndex k + n → ¬ Used a.bitmap i := by
  obtain ⟨⟨lower, upper, clear⟩, _⟩ := fit
  have position : ∀ j < n, a.scanIndex (k + j) = a.scanIndex k + j := by
    intro j bound
    unfold PhysAllocator.scanIndex
    split_ifs <;> omega
  refine ⟨?_, fun i above below => ?_⟩
  · unfold PhysAllocator.scanIndex
    split_ifs <;> omega
  · have atI := clear (i - a.scanIndex k) (by omega)
    rw [position _ (by omega)] at atI
    rwa [show a.scanIndex k + (i - a.scanIndex k) = i by omega] at atI

/-- Every request that meets `NoWrap` keeps the invariant. -/
theorem inv_step {o next : Ownership} {request : Request} (inv : o.Inv)
    (noWrap : NoWrap o request) (valid : o.Steps request next) : next.Inv := by
  cases request with
  | palloc =>
    obtain rfl := Option.some.inj valid
    rcases o.alloc.palloc_cases with failed | ⟨i, hint, clear, positive, mapped, found, taken⟩
    · rw [failed]
      exact inv
    · rw [taken]
      have inRegion := inv.hint
      exact inv_take inv mapped (by omega)
        (fun j lower upper => by rwa [show j = i by omega]) (by omega)
        (fun j => by
          have single : i ≤ j ∧ j < i + 1 ↔ j = i := by omega
          rw [used_bitSet_one, single])
  | pallocN n =>
    by_cases zero : n = 0
    · simp [Steps, step, zero] at valid
    · simp only [Steps, step, zero, if_false, Option.some.injEq] at valid
      subst valid
      have positive : 0 < n := Nat.pos_of_ne_zero zero
      rcases o.alloc.pallocN_cases positive with failed | ⟨k, fit, enough, mapped, taken⟩
      · rw [failed]
        exact inv
      · rw [taken]
        obtain ⟨bound, clear⟩ :=
          scanFit_clear inv.hint fit (noWrap mapped enough k fit)
        exact inv_take inv mapped bound clear bound
          (fun j => PhysAllocator.used_setRun)
  | pfree phys =>
    by_cases held : phys ∈ o.live
    · simp only [Steps, step, held, if_true, Option.some.injEq] at valid
      subst valid
      exact inv_pfree inv held
    · simp [Steps, step, held] at valid
  | pfreeN phys n =>
    by_cases held : ∀ page ∈ pages phys n, page ∈ o.live
    · simp only [Steps, step, if_pos held, Option.some.injEq] at valid
      subst valid
      exact inv_pfreeN inv n held
    · simp [Steps, step, if_neg held] at valid

/-- A run found across the wrap is handed out past the end of the region. -/
theorem not_sound_of_wrap {o next : Ownership} {request : Request}
    (wraps : ¬ NoWrap o request) (valid : o.Steps request next) : ¬ next.Sound := by
  cases request with
  | pallocN n =>
    simp only [NoWrap, not_forall, not_or] at wraps
    obtain ⟨mapped, enough, k, fit, crossesEnd, startsBelow⟩ := wraps
    by_cases zero : n = 0
    · simp [Steps, step, zero] at valid
    · simp only [Steps, step, zero, if_false, Option.some.injEq] at valid
      have index : o.alloc.scanIndex k = k := by
        unfold PhysAllocator.scanIndex
        rw [if_neg (by omega)]
      rw [PhysAllocator.pallocN_of_fit (by omega) mapped enough fit, index] at valid
      have window := fit.1.2.1
      have lower := fit.1.1
      have nonzero : o.alloc.pageAddr k ≠ 0 := by
        simp only [PhysAllocator.pageAddr, pageSize]
        omega
      intro sound
      have last : o.alloc.pageAddr k + (n - 1) * pageSize ∈ next.live := by
        rw [← valid]
        simp only [grant, if_neg nonzero]
        exact List.mem_append_left _ (mem_pages.mpr ⟨n - 1, by omega, rfl⟩)
      have inside := (sound.inside _ last).2
      rw [← valid] at inside
      simp only [grant, PhysAllocator.pageAddr, pageSize] at inside
      omega
  | palloc => exact absurd trivial wraps
  | pfree phys => exact absurd trivial wraps
  | pfreeN phys n => exact absurd trivial wraps

/-- From a fresh allocator, held pages stay apart and inside the region and
`free_pages` stays exact throughout a run if and only if no `palloc_n` of the
run takes pages across the wrap. -/
theorem sound_throughout_iff_noWrap {a : PhysAllocator} (fresh : Fresh a)
    {taken : List (Transition Ownership Request)} {final : Ownership}
    (trace : Trace Steps ⟨a, []⟩ taken final) :
    Throughout Sound ⟨a, []⟩ taken ↔ Guarded NoWrap taken :=
  Trace.throughout_iff_guarded Inv (inv_of_fresh fresh) (fun _ inv => inv.sound)
    (fun _ _ _ inv noWrap valid => inv_step inv noWrap valid)
    (fun _ _ _ _ wraps valid => not_sound_of_wrap wraps valid) trace

/-- A region of six pages as `memory::init` leaves it. -/
def sixPages : PhysAllocator where
  bitmapAddr := 0x100000
  bitmap := fun _ => 0#8
  physStart := 0x101000
  totalPages := 6
  freePages := 6
  firstPage := 0

theorem fresh_sixPages : Fresh sixPages := ⟨by decide, rfl, rfl⟩

/-- One `palloc` on six fresh pages. -/
def firstPalloc : Transition Ownership Request where
  before := ⟨sixPages, []⟩
  label := .palloc
  after := grant ⟨sixPages, []⟩ 1 sixPages.palloc

theorem sound_iff_noWrap_firstPalloc :
    Throughout Sound ⟨sixPages, []⟩ [firstPalloc] ↔ Guarded NoWrap [firstPalloc] :=
  sound_throughout_iff_noWrap fresh_sixPages (Trace.snoc Trace.nil rfl)

/-- Pages 0 and 5 are clear and the hint is 5: `palloc_n(2)` hands out pages 5
and 6 of a region of six. -/
theorem palloc_n_wraps :
    ∃ taken final, Trace Steps ⟨sixPages, []⟩ taken final ∧ ¬ Throughout Sound ⟨sixPages, []⟩ taken := by
  obtain ⟨⟨taken, final⟩, recorded, page, held, notInside⟩ :
      ∃ run ∈ record step ⟨sixPages, []⟩
          [.palloc, .palloc, .palloc, .pfree 0x101000, .pallocN 2, .pallocN 2],
        ∃ page ∈ run.2.live, ¬ Inside run.2.alloc page := by
    decide
  have trace := trace_of_record recorded
  exact ⟨taken, final, trace, fun sound =>
    notInside ((trace.final_of_throughout sound).inside page held)⟩

end Ownership

end DBSos.Memory
