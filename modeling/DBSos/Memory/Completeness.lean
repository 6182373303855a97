import DBSos.Memory.Allocated

/-!
# Which runs `palloc_n` finds

The scan of `palloc_n` goes once around the region, from the hint to the last page and from
page 0 up to the hint. It sees every page, but a run that lies over the hint comes in two
parts, one at each end of the scan.
-/

namespace DBSos.Memory

open DBSos.Lib
open Ownership (sixPages)

namespace PhysAllocator

/-- The allocator behind a call. -/
def answer (a : PhysAllocator) : Request → PhysAllocator
  | .palloc => a.palloc.2
  | .pallocN n => (a.pallocN n).2
  | .pfree phys => a.pfree phys
  | .pfreeN phys n => a.pfreeN phys n

/-- The allocator serves any call, also one that frees what it does not hold. -/
def Steps (a : PhysAllocator) (request : Request) (next : PhysAllocator) : Prop :=
  next = a.answer request

/-- `n` adjacent clear pages of the region. -/
def ClearRun (a : PhysAllocator) (n start : Nat) : Prop :=
  start + n ≤ a.totalPages ∧ ∀ j < n, ¬ Used a.bitmap (start + j)

instance (a : PhysAllocator) (n start : Nat) : Decidable (a.ClearRun n start) :=
  inferInstanceAs (Decidable (_ ∧ ∀ j < n, _))

/-- `palloc_n` fails only where no run of the length is clear. -/
def Complete (a : PhysAllocator) : Prop :=
  ∀ n, 0 < n → (a.pallocN n).1 = 0 → ∀ start, ¬ a.ClearRun n start

/-- Where a run is clear, the free pages are enough by count and the scan meets enough clear
pages in a row. -/
def Unsplit (a : PhysAllocator) : Prop :=
  ∀ n, 0 < n → (∃ start, a.ClearRun n start) →
    n ≤ a.freePages ∧ ∃ k, a.Fits n a.firstPage (a.firstPage + a.totalPages) k

/-- An allocator that `memory::init` has found a region for. -/
structure Booted (a : PhysAllocator) : Prop where
  bitmap : a.bitmapAddr ≠ 0
  start : a.physStart ≠ 0

variable {a : PhysAllocator} {n : Nat}

/-- No call changes the region. -/
theorem answer_sameRegion (a : PhysAllocator) (request : Request) :
    SameRegion a (a.answer request) := by
  cases request with
  | palloc => exact palloc_sameRegion a
  | pallocN n =>
    dsimp only [answer, pallocN]
    split_ifs
    · exact ⟨rfl, rfl, rfl⟩
    · cases a.scanRun n (List.range' a.firstPage a.totalPages) a.firstPage 0 <;>
        exact ⟨rfl, rfl, rfl⟩
  | pfree phys => exact pfree_sameRegion a phys
  | pfreeN phys n =>
    rw [answer, pfreeN_eq_foldl]
    exact foldl_pfree_sameRegion _ a

theorem Booted.answer (booted : a.Booted) (request : Request) : (a.answer request).Booted := by
  obtain ⟨start, -, bitmap⟩ := answer_sameRegion a request
  exact ⟨bitmap ▸ booted.bitmap, start ▸ booted.start⟩

/-- A call that finds a run returns its address, which is not 0. -/
theorem pallocN_eq_zero_iff (booted : a.Booted) (positive : 0 < n) :
    (a.pallocN n).1 = 0 ↔
      ¬ (n ≤ a.freePages ∧ ∃ k, a.Fits n a.firstPage (a.firstPage + a.totalPages) k) := by
  have start := booted.start
  have nonzero (page : Nat) : a.pageAddr page ≠ 0 := by
    unfold pageAddr
    omega
  classical
  constructor
  · rintro failed ⟨enough, found⟩
    have first : a.ScanFit n (Nat.find found) :=
      ⟨Nat.find_spec found, fun _ fits => Nat.find_min' found fits⟩
    rw [pallocN_of_fit positive booted.bitmap enough first] at failed
    exact nonzero _ failed
  · intro missing
    rcases a.pallocN_cases positive with failed | ⟨k, fit, enough, -, -⟩
    · rw [failed]
    · exact absurd ⟨enough, k, fit.1⟩ missing

/-- What the scan can see decides on completeness. -/
theorem complete_iff_unsplit (booted : a.Booted) : a.Complete ↔ a.Unsplit := by
  refine forall₂_congr fun n positive => ?_
  rw [pallocN_eq_zero_iff booted positive, ← not_exists]
  exact not_imp_not

theorem booted_sixPages : Booted sixPages := ⟨by decide, by decide⟩

end PhysAllocator

end DBSos.Memory

/-!
## The pages that `palloc` still gives

`palloc` needs a clear bit of the region and a count above 0, and takes one from each. The
calls that follow one another succeed as often as both of them allow.
-/

namespace DBSos.Memory.PhysAllocator

variable {a : PhysAllocator}

/-- The clear bits of the region. -/
def clearBits (a : PhysAllocator) : Finset Nat :=
  (Finset.range a.totalPages).filter fun i => ¬ Used a.bitmap i

/-- The number of pages that `palloc` gives before it fails. -/
def available (a : PhysAllocator) : Nat :=
  if a.bitmapAddr = 0 then 0 else min a.freePages a.clearBits.card

theorem mem_clearBits {i : Nat} : i ∈ a.clearBits ↔ i < a.totalPages ∧ ¬ Used a.bitmap i := by
  rw [clearBits, Finset.mem_filter, Finset.mem_range]

/-- The loop of `palloc` passes over no clear bit. -/
theorem firstClear_eq_none {bitmap : Bitmap} {lo hi : Nat} (missed : firstClear bitmap lo hi = none)
    {i : Nat} (above : lo ≤ i) (below : i < hi) : Used bitmap i := by
  by_contra clear
  have listed : i ∈ List.range' lo (hi - lo) := List.mem_range'_1.mpr ⟨above, by omega⟩
  have rejected := List.find?_eq_none.mp missed i listed
  exact rejected (decide_eq_true (bitTest_eq_zero_iff.mpr clear))

/-- Where none is left `palloc` fails without effect. -/
theorem palloc_of_unavailable (hint : a.firstPage ≤ a.totalPages) (spent : a.available = 0) :
    a.palloc = (0, a) := by
  rcases a.palloc_cases with failed | ⟨i, next, clear, counted, live, bound, -⟩
  · exact failed
  · rw [available, if_neg live] at spent
    have member : i ∈ a.clearBits := mem_clearBits.mpr ⟨by omega, clear⟩
    have positive := Finset.card_pos.mpr ⟨i, member⟩
    omega

/-- Else it gives a page, and one less is left. -/
theorem palloc_of_available (booted : a.Booted) (hint : a.firstPage ≤ a.totalPages)
    (left : a.available ≠ 0) :
    a.palloc.1 ≠ 0 ∧ a.palloc.2.available + 1 = a.available := by
  have live := booted.bitmap
  rw [available, if_neg live] at left
  have counted : a.freePages ≠ 0 := by omega
  obtain ⟨i, member⟩ := Finset.card_pos.mp (show 0 < a.clearBits.card by omega)
  obtain ⟨inside, clear⟩ := mem_clearBits.mp member
  rcases a.palloc_cases with failed | ⟨j, next, clear', -, -, bound, taken⟩
  · -- One of the two loops comes to the clear bit.
    exfalso
    unfold palloc at failed
    rw [if_neg (by omega)] at failed
    have start := booted.start
    cases upper : firstClear a.bitmap a.firstPage a.totalPages with
    | some k =>
      rw [upper] at failed
      have address := congrArg Prod.fst failed
      simp only [pageAddr] at address
      omega
    | none =>
      cases lower : firstClear a.bitmap 0 a.firstPage with
      | some k =>
        rw [upper, lower] at failed
        have address := congrArg Prod.fst failed
        simp only [pageAddr] at address
        omega
      | none =>
        rcases Nat.lt_or_ge i a.firstPage with before | behind
        · exact clear (firstClear_eq_none lower (Nat.zero_le i) before)
        · exact clear (firstClear_eq_none upper behind inside)
  · rw [taken]
    have start := booted.start
    have member' : j ∈ a.clearBits := mem_clearBits.mpr ⟨by omega, clear'⟩
    have rest : clearBits { a with
        bitmap := bitSet a.bitmap j 1#8, freePages := a.freePages - 1, firstPage := next } =
        a.clearBits.erase j := by
      ext k
      simp only [mem_clearBits, used_bitSet_one, Finset.mem_erase]
      tauto
    refine ⟨by simp only [pageAddr]; omega, ?_⟩
    have one := Finset.card_erase_add_one member'
    rw [available, available, if_neg live, if_neg live, rest]
    dsimp only
    omega

end DBSos.Memory.PhysAllocator
