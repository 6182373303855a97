import DBSos.Syscall.UserHalf

/-!
# Mapping device memory

`SYS_MMIO_MAP` and `SYS_FB_MAP` check the byte range of the request, but map whole
pages: the page of `phys` at the page of `virt`, and as many behind it as `size`
alone takes. The two agree when the addresses are on one offset of a page and the
range does not reach into one page more.
-/

namespace DBSos.Syscall

open DBSos.Abi DBSos.Vm

variable {σ : Type} {m : Machine σ}

/-- What a request maps. -/
inductive Device where
  | mmio
  | framebuffer
deriving DecidableEq

/-- A call for device memory. -/
structure Request where
  device : Device
  phys : BitVec 64
  virt : BitVec 64
  size : BitVec 64
deriving DecidableEq

namespace Request

variable (r : Request)

def call : MapCall :=
  match r.device with
  | .mmio => .mmio r.phys r.size r.virt
  | .framebuffer => .fb r.phys r.virt r.size

/-- A byte of the device. -/
def Serves (m : Machine σ) (byte : Nat) : Prop :=
  match r.device with
  | .mmio => ∃ region ∈ m.mmioRegions,
      region.base.toNat ≤ byte ∧ byte < region.base.toNat + region.size.toNat
  | .framebuffer => m.framebuffer.phys.toNat ≤ byte ∧
      byte < m.framebuffer.phys.toNat + m.framebuffer.stride.toNat * m.framebuffer.height.toNat * 4

end Request

/-- The processor translates only these addresses. -/
def Canonical (virt : BitVec 64) : Prop :=
  virt.toNat < 0x800000000000 ∨ 0xFFFF800000000000 ≤ virt.toNat

/-- The translation of an address in the calling task's address space. -/
def Machine.place (m : Machine σ) (p : PhysMem) (virt : BitVec 64) : Option Nat :=
  translate p.mem m.kernel.currentTask.pml4 virt

/-- What a request may do: what it maps is what was asked for, and is device memory;
where it is refused, it maps nothing. -/
structure Request.Sound (m : Machine σ) (r : Request) : Prop where
  noWrap : r.call.run m ≠ .panic
  maps : ∀ after, r.call.run m = .ret 0#64 after → ∀ i < r.size.toNat,
    Canonical (r.virt + BitVec.ofNat 64 i) ∧
      m.place after.kernel.phys (r.virt + BitVec.ofNat 64 i) = some (r.phys.toNat + i)
  serves : ∀ value after, r.call.run m = .ret value after → ∀ virt,
    m.place after.kernel.phys virt ≠ m.place m.kernel.phys virt →
      ∃ place, m.place after.kernel.phys virt = some place ∧
        ∃ byte, byte / 0x1000 = place / 0x1000 ∧ r.Serves m byte
  refused : ∀ value after, r.call.run m = .ret value after → value ≠ 0#64 → ∀ virt,
    m.place after.kernel.phys virt = m.place m.kernel.phys virt

/-! ## Pages -/

theorem samePage_iff {a b : BitVec 64} :
    SamePage a b ↔ a.toNat / 0x1000 % 2 ^ 36 = b.toNat / 0x1000 % 2 ^ 36 := by
  constructor
  · intro same
    have index0 := same 0 (by decide)
    have index1 := same 1 (by decide)
    have index2 := same 2 (by decide)
    have index3 := same 3 (by decide)
    simp only [index_eq] at index0 index1 index2 index3
    omega
  · intro same l bound
    rw [index_eq, index_eq]
    have levels : l = 0 ∨ l = 1 ∨ l = 2 ∨ l = 3 := by omega
    rcases levels with rfl | rfl | rfl | rfl
    all_goals omega

/-- An entry of the page tables names an address of 48 bits. -/
theorem place_lt {mem : PageMem} {level table : Nat} {virt : BitVec 64} {place : Nat}
    (found : x86.lookup mem level table virt = some place) : place < 2 ^ 48 := by
  have leaf (l : Nat) (entry : BitVec 64) (at' : BitVec 64 → Nat)
      (isLeaf : x86.decode l entry = .leaf at') : at' virt < 2 ^ 48 := by
    have frame := physFromPte_eq entry
    simp only [x86] at isLeaf
    split_ifs at isLeaf with absent bottom huge
    · obtain rfl := Radix.Entry.leaf.inj isLeaf
      simp only [spanOf]
      omega
    · obtain rfl := Radix.Entry.leaf.inj isLeaf
      have levels : l = 1 ∨ l = 2 := by omega
      rcases levels with rfl | rfl
      all_goals
        simp only [spanOf]
        omega
  induction level generalizing table with
  | zero =>
    unfold Radix.Format.lookup Radix.Format.entry at found
    cases decoded : x86.decode 0 (mem table (x86.index 0 virt)) with
    | absent => simp [decoded, Radix.Entry.value] at found
    | table next => simp [decoded, Radix.Entry.value] at found
    | leaf at' =>
      rw [decoded] at found
      obtain rfl := Option.some.inj found
      exact leaf 0 _ at' decoded
  | succ level ih =>
    unfold Radix.Format.lookup at found
    cases decoded : x86.entry mem (level + 1) table virt with
    | absent => simp [decoded] at found
    | table next =>
      rw [decoded] at found
      exact ih found
    | leaf at' =>
      rw [decoded] at found
      obtain rfl := Option.some.inj found
      exact leaf (level + 1) _ at' decoded

/-! ## Requests that are refused, and requests that are mapped -/

namespace Request

variable {r : Request} {plan : Plan}

/-- The sums that the checks come to are words. -/
def ChecksFit (m : Machine σ) (r : Request) : Prop :=
  match r.device with
  | .mmio => m.validateMmio r.phys r.size = true → m.kernel.currentTask.pml4 ≠ 0 →
      r.size.toNat + 0xFFF < 2 ^ 64
  | .framebuffer => ¬ (r.phys = 0#64 ∨ r.virt = 0#64 ∨ r.size = 0#64) →
      ∃ fbSize, m.fbSize = some fbSize ∧ (m.framebuffer.phys.toNat ≤ r.phys.toNat →
        r.phys.toNat + r.size.toNat < 2 ^ 64 ∧ m.framebuffer.phys.toNat + fbSize < 2 ^ 64 ∧
          (r.phys.toNat + r.size.toNat ≤ m.framebuffer.phys.toNat + fbSize →
            r.size.toNat + 0xFFF < 2 ^ 64))

/-- What a request without a plan comes to. -/
theorem run_of_refused (refused : r.call.plan m = none) :
    (r.call.run m = .panic ∧ ¬ r.ChecksFit m) ∨
      r.ChecksFit m ∧ ∃ value, value ≠ 0#64 ∧ r.call.run m = .ret value m := by
  have denied : ipcCode ipcErrDenied ≠ 0#64 := by decide
  have magic : exitMagic ≠ 0#64 := by decide
  rcases r with ⟨- | -, phys, virt, size⟩
  · change (MapCall.mmio phys size virt).plan m = none at refused
    rw [MapCall.plan] at refused
    split_ifs at refused with allowed
    simp only [call, MapCall.run, Machine.mmioMap, ChecksFit]
    by_cases valid : m.validateMmio phys size = true
    · rw [if_pos valid]
      by_cases null : m.kernel.currentTask.pml4 = 0
      · rw [if_pos null]
        exact .inr ⟨fun _ some => absurd null some, _, denied, rfl⟩
      · have wraps : size.toNat + 0xFFF ≥ 2 ^ 64 :=
          not_lt.mp fun fits => allowed ⟨valid, null, fits⟩
        rw [if_neg null, if_pos wraps]
        exact .inl ⟨rfl, fun fits => not_lt.mpr wraps (fits valid null)⟩
    · rw [if_neg valid]
      exact .inr ⟨fun isValid => absurd isValid valid, _, denied, rfl⟩
  · change (MapCall.fb phys virt size).plan m = none at refused
    rw [MapCall.plan] at refused
    simp only [call, MapCall.run, Machine.fbMap, ChecksFit]
    by_cases zero : phys = 0#64 ∨ virt = 0#64 ∨ size = 0#64
    · rw [if_pos zero]
      exact .inr ⟨fun nonzero => absurd zero nonzero, _, magic, rfl⟩
    rw [if_neg zero]
    cases sized : m.fbSize with
    | none => exact .inl ⟨rfl, fun fits => by simpa using fits zero⟩
    | some fbSize =>
      rw [sized] at refused
      dsimp only at refused ⊢
      split_ifs at refused with allowed
      by_cases below : phys.toNat < m.framebuffer.phys.toNat
      · rw [if_pos below]
        exact .inr ⟨fun _ => ⟨fbSize, rfl, fun above => absurd below (not_lt.mpr above)⟩,
          _, magic, rfl⟩
      rw [if_neg below]
      have fits_iff {p : Prop} (fits : ∃ n, some fbSize = some n ∧
          (m.framebuffer.phys.toNat ≤ phys.toNat → phys.toNat + size.toNat < 2 ^ 64 ∧
            m.framebuffer.phys.toNat + n < 2 ^ 64 ∧
              (phys.toNat + size.toNat ≤ m.framebuffer.phys.toNat + n →
                size.toNat + 0xFFF < 2 ^ 64)))
          (fails : ¬ (phys.toNat + size.toNat < 2 ^ 64 ∧
            m.framebuffer.phys.toNat + fbSize < 2 ^ 64 ∧
              (phys.toNat + size.toNat ≤ m.framebuffer.phys.toNat + fbSize →
                size.toNat + 0xFFF < 2 ^ 64))) : p := by
        obtain ⟨n, same, fits⟩ := fits
        obtain rfl := Option.some.inj same
        exact absurd (fits (not_lt.mp below)) fails
      by_cases wraps : phys.toNat + size.toNat ≥ 2 ^ 64 ∨
          m.framebuffer.phys.toNat + fbSize ≥ 2 ^ 64
      · rw [if_pos wraps]
        exact .inl ⟨rfl, fun fits => fits_iff (fits zero) fun all =>
          not_or.mpr ⟨not_le.mpr all.1, not_le.mpr all.2.1⟩ wraps⟩
      rw [if_neg wraps]
      by_cases outside : phys.toNat + size.toNat > m.framebuffer.phys.toNat + fbSize
      · rw [if_pos outside]
        exact .inr ⟨fun _ => ⟨fbSize, rfl, fun _ => ⟨by omega, by omega, fun _ => by omega⟩⟩,
          _, magic, rfl⟩
      rw [if_neg outside]
      by_cases large : size.toNat + 0xFFF ≥ 2 ^ 64
      · rw [if_pos large]
        exact .inl ⟨rfl, fun fits => fits_iff (fits zero) fun all =>
          not_lt.mpr large (all.2.2 (not_lt.mp outside))⟩
      rw [if_neg large]
      by_cases null : m.kernel.currentTask.pml4 = 0
      · rw [if_pos null]
        exact .inr ⟨fun _ => ⟨fbSize, rfl, fun _ => ⟨by omega, by omega, fun _ => by omega⟩⟩,
          _, magic, rfl⟩
      · simp only [not_or] at zero
        exact absurd ⟨zero, by omega, by omega, by omega, by omega, by omega, null⟩ allowed

/-- What a plan says about its request. -/
structure Planned (m : Machine σ) (r : Request) (plan : Plan) : Prop where
  phys : plan.phys = r.phys
  virt : plan.virt = r.virt
  pages : plan.pages = pageCount r.size
  checks : r.ChecksFit m
  serves : r.phys.toNat + r.size.toNat ≤ 2 ^ 48 → ∀ k < r.size.toNat, r.Serves m (r.phys.toNat + k)
  done : ∀ p, plan.mapped m plan.pages = (p, .done) → r.call.run m = .ret 0#64 (m.withPhys p)
  failed : ∀ p, plan.mapped m plan.pages = (p, .failed) →
    ∃ value, value ≠ 0#64 ∧ r.call.run m = .ret value (m.withPhys p)
  overflow : ∀ p, plan.mapped m plan.pages = (p, .overflow) → r.call.run m = .panic

theorem planned_of_plan (found : r.call.plan m = some plan) : r.Planned m plan := by
  rcases r with ⟨- | -, phys, virt, size⟩
  · change (MapCall.mmio phys size virt).plan m = some plan at found
    rw [MapCall.plan] at found
    split_ifs at found with allowed
    obtain ⟨valid, null, large⟩ := allowed
    obtain rfl := Option.some.inj found
    have run (p : PhysMem) (ending : Ending) (mapped : mapFrom m.kernel.currentTask.pml4 phys virt
        (pteWritable ||| pteUser ||| pteCacheDisable) 0 (pageCount size) m.kernel.phys =
          (p, ending)) : (MapCall.mmio phys size virt).run m =
        ending.casesOn (.ret 0#64 (m.withPhys p)) (.ret (ipcCode ipcErrNoMem) (m.withPhys p))
          .panic := by
      rw [MapCall.run, Machine.mmioMap, if_pos valid]
      dsimp only
      rw [if_neg null, if_neg (not_le.mpr large)]
      simp only [mapped]
      cases ending <;> rfl
    refine ⟨rfl, rfl, rfl, fun _ _ => large, fun small k inside => ?_, ?_, ?_, ?_⟩
    · obtain ⟨region, member, covers⟩ := List.any_eq_true.mp valid
      have covers := of_decide_eq_true covers
      refine ⟨region, member, ?_, ?_⟩
      · dsimp only
        omega
      · dsimp only at inside small ⊢
        omega
    · exact fun p mapped => run p _ mapped
    · exact fun p mapped => ⟨_, show ipcCode ipcErrNoMem ≠ 0#64 by decide, run p _ mapped⟩
    · exact fun p mapped => run p _ mapped
  · change (MapCall.fb phys virt size).plan m = some plan at found
    rw [MapCall.plan] at found
    cases sized : m.fbSize with
    | none =>
      rw [sized] at found
      cases found
    | some fbSize =>
      rw [sized] at found
      dsimp only at found
      split_ifs at found with allowed
      obtain ⟨nonzero, below, sum, fbSum, inside, rounds, null⟩ := allowed
      obtain rfl := Option.some.inj found
      have run (p : PhysMem) (ending : Ending) (mapped : mapFrom m.kernel.currentTask.pml4 phys
          virt (pteWritable ||| pteUser) 0 (pageCount size) m.kernel.phys = (p, ending)) :
          (MapCall.fb phys virt size).run m =
            ending.casesOn (.ret 0#64 (m.withPhys p)) (.fail (m.withPhys p)) .panic := by
        rw [MapCall.run, Machine.fbMap, sized, if_neg (by simp [nonzero])]
        dsimp only
        rw [if_neg (not_lt.mpr below), if_neg (not_or.mpr ⟨not_le.mpr sum, not_le.mpr fbSum⟩),
          if_neg (not_lt.mpr inside), if_neg (not_le.mpr rounds), if_neg null]
        simp only [mapped]
        cases ending <;> rfl
      have bytes : fbSize = m.framebuffer.stride.toNat * m.framebuffer.height.toNat * 4 := by
        unfold Machine.fbSize at sized
        dsimp only at sized
        split_ifs at sized
        exact (Option.some.inj sized).symm
      refine ⟨rfl, rfl, rfl, fun _ => ⟨fbSize, sized, fun _ => ⟨sum, fbSum, fun _ => rounds⟩⟩,
        fun _ k within => ?_, ?_, ?_, ?_⟩
      · dsimp only at within
        refine ⟨?_, ?_⟩
        · dsimp only
          omega
        · dsimp only
          omega
      · exact fun p mapped => run p _ mapped
      · exact fun p mapped => ⟨_, show exitMagic ≠ 0#64 by decide, run p _ mapped⟩
      · exact fun p mapped => run p _ mapped

end Request

/-! ## The pages of a plan -/

namespace Plan

variable {plan : Plan} {mem : PageMem} {root n i : Nat} {virt : BitVec 64}

theorem hits_iff : plan.Hits mem root root virt i ↔
    virt.toNat / 0x1000 % 2 ^ 36 = (plan.virt.toNat / 0x1000 + i) % 2 ^ 36 := by
  have turn : (plan.virtAt i).toNat / 0x1000 % 2 ^ 36 =
      (plan.virt.toNat / 0x1000 + i) % 2 ^ 36 := by
    rw [virtAt, BitVec.toNat_add, BitVec.toNat_ofNat]
    omega
  rw [Hits, samePage_iff, turn]
  exact and_iff_right (.inl rfl)

theorem placeAt_eq : plan.placeAt virt i =
    (plan.phys.toNat / 0x1000 + i) % 2 ^ 36 * 0x1000 + virt.toNat % 0x1000 := by
  have frame := physFromPte_eq (plan.physAt i)
  have sum : (plan.physAt i).toNat = (plan.phys.toNat + i * 0x1000 % 2 ^ 64) % 2 ^ 64 := by
    rw [physAt, BitVec.toNat_add, BitVec.toNat_ofNat]
  rw [placeAt, frame, sum]
  simp only [spanOf]
  omega

/-- A page that some turn maps has the place that this turn gives it: turns that map one
page are a multiple of the address space apart. -/
theorem remapAll_hit {before : Nat → BitVec 64 → Option Nat} (inside : i < n)
    (hit : plan.Hits mem root root virt i) :
    plan.remapAll mem root 0 n before root virt = some (plan.placeAt virt i) := by
  rcases plan.lastHit_or_not_hits n with ⟨j, below, last, none⟩ | misses
  · rw [remapAll_of_last (Nat.zero_le j) (by omega) last fun k above inside =>
      none k above (by omega), placeAt_eq, placeAt_eq]
    rw [hits_iff] at hit last
    have same : (plan.phys.toNat / 0x1000 + j) % 2 ^ 36 =
        (plan.phys.toNat / 0x1000 + i) % 2 ^ 36 := by omega
    rw [same]
  · exact absurd hit (misses i inside)

end Plan

/-- A request whose whole pages are what it asks for: the addresses have one offset in
their pages, and what the range has behind its last page is where it should be. -/
structure Request.Exact (m : Machine σ) (r : Request) : Prop where
  offset : r.phys.toNat % 0x1000 = r.virt.toNat % 0x1000
  small : r.phys.toNat + r.size.toNat ≤ 2 ^ 48
  canonical : ∀ i < r.size.toNat, Canonical (r.virt + BitVec.ofNat 64 i)
  behind : ∀ i < r.size.toNat, pageCount r.size * 0x1000 ≤ r.virt.toNat % 0x1000 + i →
    m.place m.kernel.phys (r.virt + BitVec.ofNat 64 i) = some (r.phys.toNat + i)

/-- The request is refused, or all of its pages can be mapped and are what it asks for,
or it stops at a page that cannot be mapped, behind pages that were there before. -/
def Request.Fits (m : Machine σ) (r : Request) : Prop :=
  r.ChecksFit m ∧ ∀ plan, r.call.plan m = some plan →
    match (plan.mapped m plan.pages).2 with
    | .done => r.size = 0#64 ∨ r.Exact m
    | .failed => ∀ virt n i, plan.Reaches m n → ¬ plan.Reaches m (n + 1) →
        plan.LastHit m.kernel.phys.mem m.kernel.currentTask.pml4
          m.kernel.currentTask.pml4 virt n i →
          m.place m.kernel.phys virt = some (plan.placeAt virt i)
    | .overflow => False

namespace Request

variable {r : Request} {plan : Plan} {p : PhysMem}

/-- The loop has mapped all pages of the plan. -/
def AllMapped (m : Machine σ) (plan : Plan) (p : PhysMem) : Prop :=
  ∀ virt, m.place p virt = plan.remapAll m.kernel.phys.mem m.kernel.currentTask.pml4 0 plan.pages
    (translate m.kernel.phys.mem) m.kernel.currentTask.pml4 virt

theorem toNat_step (virt : BitVec 64) (i : Nat) :
    (virt + BitVec.ofNat 64 i).toNat / 0x1000 % 2 ^ 36 =
        (virt.toNat / 0x1000 + (virt.toNat % 0x1000 + i) / 0x1000) % 2 ^ 36 ∧
      (virt + BitVec.ofNat 64 i).toNat % 0x1000 = (virt.toNat % 0x1000 + i) % 0x1000 := by
  rw [BitVec.toNat_add, BitVec.toNat_ofNat]
  omega

/-- An address in a page that is mapped. -/
theorem place_of_page (planned : r.Planned m plan) (all : AllMapped m plan p) {i : Nat}
    (page : (r.virt.toNat % 0x1000 + i) / 0x1000 < pageCount r.size) :
    m.place p (r.virt + BitVec.ofNat 64 i) =
      some ((r.phys.toNat / 0x1000 + (r.virt.toNat % 0x1000 + i) / 0x1000) % 2 ^ 36 * 0x1000 +
        (r.virt.toNat % 0x1000 + i) % 0x1000) := by
  obtain ⟨slot, offset⟩ := toNat_step r.virt i
  rw [all, Plan.remapAll_hit (planned.pages ▸ page) (Plan.hits_iff.mpr ?_), Plan.placeAt_eq,
    offset, planned.phys]
  rw [planned.virt, slot]

/-- An address in the page behind those that are mapped. -/
theorem place_behind (planned : r.Planned m plan) (all : AllMapped m plan p) {i : Nat}
    (offset : r.phys.toNat % 0x1000 = r.virt.toNat % 0x1000)
    (small : r.phys.toNat + r.size.toNat ≤ 2 ^ 48) (inside : i < r.size.toNat)
    (behind : pageCount r.size ≤ (r.virt.toNat % 0x1000 + i) / 0x1000) :
    m.place p (r.virt + BitVec.ofNat 64 i) =
      m.place m.kernel.phys (r.virt + BitVec.ofNat 64 i) := by
  obtain ⟨slot, -⟩ := toNat_step r.virt i
  rw [all, Plan.remapAll_of_not_hits fun j _ below hit => ?_]
  · rfl
  rw [Plan.hits_iff, slot, planned.virt] at hit
  rw [planned.pages] at below
  simp only [pageCount] at behind below
  omega

/-- Whole pages are what was asked for on exact requests, and on no others. -/
theorem maps_iff (planned : r.Planned m plan) (all : AllMapped m plan p) :
    (∀ i < r.size.toNat, Canonical (r.virt + BitVec.ofNat 64 i) ∧
      m.place p (r.virt + BitVec.ofNat 64 i) = some (r.phys.toNat + i)) ↔
    r.size = 0#64 ∨ r.Exact m := by
  have first : r.size ≠ 0#64 → 0 < r.size.toNat := fun some => by
    have nonzero := BitVec.toNat_ne_iff_ne.mpr some
    simp only [BitVec.toNat_ofNat, Nat.zero_mod] at nonzero
    omega
  constructor
  · intro maps
    by_cases empty : r.size = 0#64
    · exact .inl empty
    have nonempty := first empty
    have start := (maps 0 nonempty).2
    rw [place_of_page planned all (by simp only [pageCount]; omega)] at start
    have start := Option.some.inj start
    have offset : r.phys.toNat % 0x1000 = r.virt.toNat % 0x1000 := by omega
    have small : r.phys.toNat + r.size.toNat ≤ 2 ^ 48 := by
      by_contra large
      have last := (maps (2 ^ 48 - r.phys.toNat) (by omega)).2
      have bound := place_lt last
      omega
    refine .inr ⟨offset, small, fun i inside => (maps i inside).1, fun i inside behind => ?_⟩
    rw [← place_behind planned all offset small inside (by omega)]
    exact (maps i inside).2
  · rintro (empty | exact') i inside
    · rw [empty] at inside
      cases inside
    · refine ⟨exact'.canonical i inside, ?_⟩
      have offset := exact'.offset
      have small := exact'.small
      by_cases page : (r.virt.toNat % 0x1000 + i) / 0x1000 < pageCount r.size
      · rw [place_of_page planned all page]
        refine congrArg some ?_
        omega
      · rw [place_behind planned all offset small inside (by omega)]
        exact exact'.behind i inside (by omega)

/-- What an exact request maps is device memory. -/
theorem serves_of_exact (planned : r.Planned m plan) (all : AllMapped m plan p)
    (exact' : r.size = 0#64 ∨ r.Exact m) {virt : BitVec 64}
    (changed : m.place p virt ≠ m.place m.kernel.phys virt) :
    ∃ place, m.place p virt = some place ∧
      ∃ byte, byte / 0x1000 = place / 0x1000 ∧ r.Serves m byte := by
  rw [all] at changed ⊢
  rcases plan.lastHit_or_not_hits plan.pages with ⟨j, below, hit, -⟩ | misses
  · have inside : j * 0x1000 < r.size.toNat := by
      rw [planned.pages, pageCount] at below
      omega
    rcases exact' with empty | exact'
    · rw [empty] at inside
      cases inside
    have small := exact'.small
    refine ⟨_, Plan.remapAll_hit below hit, r.phys.toNat + j * 0x1000, ?_,
      planned.serves small _ inside⟩
    rw [Plan.placeAt_eq, planned.phys]
    omega
  · exact absurd (Plan.remapAll_of_not_hits fun j _ below => misses j (by omega)) changed

/-- A request does what it may on the requests that fit, and on no others. -/
theorem sound_iff (wellFormed : WellFormed m) (r : Request) : r.Sound m ↔ r.Fits m := by
  obtain ⟨level, tables⟩ := wellFormed.tables
  cases found : r.call.plan m with
  | none =>
    rcases run_of_refused found with ⟨panics, wraps⟩ | ⟨fits, value, failed, returns⟩
    · exact iff_of_false (fun sound => sound.noWrap panics) fun all => wraps all.1
    · have same {value' : BitVec 64} {after : Machine σ}
          (result : r.call.run m = .ret value' after) : value' = value ∧ after = m := by
        rw [returns] at result
        obtain ⟨rfl, rfl⟩ := Reply.ret.inj result
        exact ⟨rfl, rfl⟩
      refine iff_of_true ⟨?_, ?_, ?_, ?_⟩ ⟨fits, fun plan planned => ?_⟩
      · rw [returns]
        simp
      · exact fun after result => absurd (same result).1.symm failed
      · exact fun value' after result virt changed => absurd (by rw [(same result).2]) changed
      · exact fun value' after result _ virt => by rw [(same result).2]
      · rw [found] at planned
        cases planned
  | some plan =>
    have planned := planned_of_plan found
    obtain ⟨nonzero, outside⟩ := MapCall.plan_spec found
    have own : m.kernel.currentTask.pml4 ∈ m.spaces :=
      ⟨nonzero, .inr ⟨m.kernel.current, by
        have running := wellFormed.running
        unfold Kernel.currentTask at running
        simp [running, Kernel.currentTask]⟩⟩
    obtain ⟨n, maps, bound, dones⟩ := plan.mapFrom_maps tables own outside plan.pages 0
    have fits_iff : r.Fits m ↔ _ := ⟨fun fits => fits.2 plan found, fun fits =>
      ⟨planned.checks, fun other same => Option.some.inj (found.symm.trans same) ▸ fits⟩⟩
    have place (virt : BitVec 64) : m.place (plan.mapped m plan.pages).1 virt =
        plan.remapAll m.kernel.phys.mem m.kernel.currentTask.pml4 0 n
          (translate m.kernel.phys.mem) m.kernel.currentTask.pml4 virt :=
      maps.translates _ own virt
    rw [fits_iff]
    rcases ends : plan.mapped m plan.pages with ⟨p, ending⟩
    rw [ends] at place
    dsimp only at place ⊢
    cases ending with
    | done =>
      have returns := planned.done p ends
      obtain rfl : plan.pages = n :=
        Nat.le_antisymm ((dones plan.pages le_rfl).mp (congrArg Prod.snd ends)) bound
      have result {value : BitVec 64} {after : Machine σ}
          (same : r.call.run m = .ret value after) :
            value = 0#64 ∧ after = m.withPhys p := by
        rw [returns] at same
        obtain ⟨rfl, rfl⟩ := Reply.ret.inj same
        exact ⟨rfl, rfl⟩
      rw [← maps_iff planned place]
      constructor
      · exact fun sound => sound.maps _ returns
      · intro exact'
        refine ⟨by rw [returns]; simp, ?_, ?_, ?_⟩
        · intro after same
          rw [(result same).2]
          exact exact'
        · intro value after same virt changed
          rw [(result same).2] at changed ⊢
          exact serves_of_exact planned place ((maps_iff planned place).mp exact') changed
        · exact fun value after same some => absurd (result same).1 some
    | failed =>
      obtain ⟨value, failed, returns⟩ := planned.failed p ends
      have result {value' : BitVec 64} {after : Machine σ}
          (same : r.call.run m = .ret value' after) :
            value' = value ∧ after = m.withPhys p := by
        rw [returns] at same
        obtain ⟨rfl, rfl⟩ := Reply.ret.inj same
        exact ⟨rfl, rfl⟩
      have reaches (k : Nat) : plan.Reaches m k ↔ k ≤ n := by
        constructor
        · exact fun reached => (dones k reached.1).mp reached.2
        · exact fun inside => ⟨by omega, (dones k (by omega)).mpr inside⟩
      have unchanged : (∀ virt, m.place p virt = m.place m.kernel.phys virt) ↔
          ∀ virt n i, plan.Reaches m n → ¬ plan.Reaches m (n + 1) →
            plan.LastHit m.kernel.phys.mem m.kernel.currentTask.pml4
              m.kernel.currentTask.pml4 virt n i →
                m.place m.kernel.phys virt = some (plan.placeAt virt i) := by
        constructor
        · intro same virt k i reached stopped last
          obtain rfl : k = n := by
            rw [reaches] at reached stopped
            omega
          exact Plan.remapAll_eq_iff.mp ((place virt).symm.trans (same virt)) i last
        · refine fun earlier virt => (place virt).trans (Plan.remapAll_eq_iff.mpr fun i => ?_)
          refine earlier virt n i ((reaches n).mpr le_rfl) fun more => ?_
          have beyond := (reaches (n + 1)).mp more
          omega
      rw [← unchanged]
      constructor
      · exact fun sound => sound.refused value _ returns failed
      · intro same
        refine ⟨by rw [returns]; simp, ?_, ?_, ?_⟩
        · exact fun after zero => absurd (result zero).1.symm failed
        · intro value' after returned virt changed
          rw [(result returned).2] at changed
          exact absurd (same virt) changed
        · intro value' after returned _ virt
          rw [(result returned).2]
          exact same virt
    | overflow => exact iff_of_false (fun sound => sound.noWrap (planned.overflow p ends)) id

end Request

/-- A ring-3 task and one registered region. -/
def prober : Machine Unit := { mapper with mmioRegions := [⟨0xFEBF0000#64, 0x1000#64⟩] }

theorem wellFormed_prober : WellFormed prober :=
  ⟨wellFormed_mapper.running, wellFormed_mapper.tables⟩

/-- The region is mapped as a whole. -/
theorem sound_region :
    Request.Sound prober ⟨.mmio, 0xFEBF0000#64, 0x40000000#64, 0x1000#64⟩ := by
  refine (Request.sound_iff wellFormed_prober _).mpr ⟨fun _ _ => by decide, fun plan found => ?_⟩
  have pages : MapCall.plan prober
      (Request.call ⟨.mmio, 0xFEBF0000#64, 0x40000000#64, 0x1000#64⟩) =
      some ⟨0xFEBF0000#64, 0x40000000#64, pteWritable ||| pteUser ||| pteCacheDisable, 1⟩ := by
    decide +kernel
  obtain rfl := Option.some.inj (pages.symm.trans found)
  have done : (Plan.mapped ⟨0xFEBF0000#64, 0x40000000#64,
      pteWritable ||| pteUser ||| pteCacheDisable, 1⟩ prober 1).2 = .done := by decide +kernel
  rw [done]
  refine .inr ⟨by decide, by decide, fun i inside => .inl ?_, fun i inside behind => ?_⟩
  · simp only [BitVec.toNat_ofNat, BitVec.toNat_add] at inside ⊢
    omega
  · simp only [pageCount, BitVec.toNat_ofNat] at inside behind
    omega

/-- A region that does not start on a page is mapped 16 bytes off. -/
theorem offset_lost : ¬ ∀ (m : Machine Unit) (r : Request), WellFormed m → r.Sound m := by
  intro always
  have sound := always prober ⟨.mmio, 0xFEBF0010#64, 0x40000000#64, 0x10#64⟩ wellFormed_prober
  have mapped : (((Request.call ⟨.mmio, 0xFEBF0010#64, 0x40000000#64, 0x10#64⟩).run
      prober).returned.any fun reply => decide (reply.1 = 0#64 ∧ prober.place reply.2.kernel.phys
        (0x40000000#64 + BitVec.ofNat 64 0) = some 0xFEBF0000)) = true := by decide +kernel
  rcases returns : (Request.call ⟨.mmio, 0xFEBF0010#64, 0x40000000#64, 0x10#64⟩).run prober with
    ⟨value, after⟩ | ⟨_, _⟩ | _
  · rw [returns] at mapped
    obtain ⟨rfl, place⟩ := of_decide_eq_true mapped
    have asked := (sound.maps after returns 0 (by decide)).2
    rw [place] at asked
    exact absurd asked (by decide)
  · rw [returns] at mapped
    cases mapped
  · rw [returns] at mapped
    cases mapped

end DBSos.Syscall
