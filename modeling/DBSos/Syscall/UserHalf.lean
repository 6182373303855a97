import DBSos.Syscall.Dispatch
import DBSos.Vm.Frames

/-!
# Mappings outside the user half

The three calls that map memory take the virtual address from the user and pass
it to `map_page` unchecked. A call keeps to the user half of its own address space
exactly when every page it maps elsewhere was mapped there before: in PML4 entries
256..511, whose tables every address space shares, or in the user half of a
relative whose tables `SYS_FORK` shared.
-/

namespace DBSos.Syscall

open DBSos.Abi DBSos.Scheduler DBSos.Vm

variable {σ : Type}

/-- A call that maps memory. -/
inductive MapCall where
  | shmem (cap virt : BitVec 64)
  | mmio (phys size virt : BitVec 64)
  | fb (phys virt size : BitVec 64)
deriving DecidableEq

namespace MapCall

/-- The handler of the call. -/
def run (m : Machine σ) : MapCall → Reply σ
  | .shmem cap virt => m.shmemMap cap virt
  | .mmio phys size virt => m.mmioMap phys size virt
  | .fb phys virt size => m.fbMap phys virt size

end MapCall

/-- The pages that a call maps: `pages` of them, from `phys` to `virt`. -/
structure Plan where
  phys : BitVec 64
  virt : BitVec 64
  flags : BitVec 64
  pages : Nat
deriving DecidableEq

namespace Plan

/-- The page of turn `i`. -/
def physAt (plan : Plan) (i : Nat) : BitVec 64 := plan.phys + BitVec.ofNat 64 (i * 0x1000)
def virtAt (plan : Plan) (i : Nat) : BitVec 64 := plan.virt + BitVec.ofNat 64 (i * 0x1000)

/-- The mapping loop over the first `pages` pages. -/
def mapped (plan : Plan) (m : Machine σ) (pages : Nat) : PhysMem × Ending :=
  mapFrom m.kernel.currentTask.pml4 plan.phys plan.virt plan.flags 0 pages m.kernel.phys

end Plan

/-- The loop of a single turn is `map_page`. -/
theorem mapFrom_one (pml4 : Nat) (phys virt flags : BitVec 64) (p : PhysMem) :
    mapFrom pml4 phys virt flags 0 1 p =
      match mapPage p pml4 phys virt flags with
      | (p, true) => (p, .done)
      | (p, false) => (p, .failed) := by
  have physBound := phys.isLt
  have virtBound := virt.isLt
  rw [mapFrom, if_neg (by omega)]
  simp only [Nat.zero_mul, BitVec.add_zero]
  rcases mapPage p pml4 phys virt flags with ⟨q, _ | _⟩
  · rfl
  · rfl

namespace MapCall

/-- The checks of the handlers: the pages to map, or none for a call that maps
nothing. -/
def plan (m : Machine σ) : MapCall → Option Plan
  | .shmem cap virt =>
    match m.kernel.capGet (cap.setWidth 16).toNat with
    | none => none
    | some held =>
      if Machine.CanShare held ∧ m.kernel.currentTask.pml4 ≠ 0 then
        some ⟨BitVec.ofNat 64 held.data, virt, pteWritable ||| pteUser, 1⟩
      else none
  | .mmio phys size virt =>
    if m.validateMmio phys size = true ∧ m.kernel.currentTask.pml4 ≠ 0 ∧
        size.toNat + 0xFFF < 2 ^ 64 then
      some ⟨phys, virt, pteWritable ||| pteUser ||| pteCacheDisable, pageCount size⟩
    else none
  | .fb phys virt size =>
    match m.fbSize with
    | none => none
    | some fbSize =>
      if (phys ≠ 0#64 ∧ virt ≠ 0#64 ∧ size ≠ 0#64) ∧
          m.framebuffer.phys.toNat ≤ phys.toNat ∧
          phys.toNat + size.toNat < 2 ^ 64 ∧ m.framebuffer.phys.toNat + fbSize < 2 ^ 64 ∧
          phys.toNat + size.toNat ≤ m.framebuffer.phys.toNat + fbSize ∧
          size.toNat + 0xFFF < 2 ^ 64 ∧ m.kernel.currentTask.pml4 ≠ 0 then
        some ⟨phys, virt, pteWritable ||| pteUser, pageCount size⟩
      else none

/-- A call without a plan changes no table. -/
theorem phys_of_refused {m after : Machine σ} {call : MapCall} {value : BitVec 64}
    (refused : call.plan m = none) (returns : call.run m = .ret value after) :
    after.kernel.phys = m.kernel.phys := by
  cases call with
  | shmem cap virt =>
    rw [plan] at refused
    rw [run, Machine.shmemMap] at returns
    cases found : m.kernel.capGet (cap.setWidth 16).toNat with
    | none =>
      rw [found] at returns
      obtain ⟨-, rfl⟩ := Reply.ret.inj returns
      rfl
    | some held =>
      rw [found] at refused returns
      dsimp only at refused returns
      split_ifs at refused with allowed
      by_cases share : Machine.CanShare held
      · have null : m.kernel.currentTask.pml4 = 0 := by
          by_contra table
          exact allowed ⟨share, table⟩
        rw [if_pos share, if_pos null] at returns
        obtain ⟨-, rfl⟩ := Reply.ret.inj returns
        rfl
      · rw [if_neg share] at returns
        obtain ⟨-, rfl⟩ := Reply.ret.inj returns
        rfl
  | mmio phys size virt =>
    rw [plan] at refused
    rw [run, Machine.mmioMap] at returns
    split_ifs at refused with allowed
    dsimp only at returns
    split_ifs at returns with valid null large
    · obtain ⟨-, rfl⟩ := Reply.ret.inj returns
      rfl
    · exact absurd ⟨valid, null, not_le.mp large⟩ allowed
    · obtain ⟨-, rfl⟩ := Reply.ret.inj returns
      rfl
  | fb phys virt size =>
    rw [plan] at refused
    rw [run, Machine.fbMap] at returns
    by_cases zero : phys = 0#64 ∨ virt = 0#64 ∨ size = 0#64
    · rw [if_pos zero] at returns
      obtain ⟨-, rfl⟩ := Reply.ret.inj returns
      rfl
    rw [if_neg zero] at returns
    cases sized : m.fbSize with
    | none => simp [sized] at returns
    | some fbSize =>
      rw [sized] at refused returns
      dsimp only at refused returns
      split_ifs at refused with allowed
      split_ifs at returns with below overflows outside rounds null
      · obtain ⟨-, rfl⟩ := Reply.ret.inj returns
        rfl
      · obtain ⟨-, rfl⟩ := Reply.ret.inj returns
        rfl
      · obtain ⟨-, rfl⟩ := Reply.ret.inj returns
        rfl
      · obtain ⟨sum, fbSum⟩ := not_or.mp overflows
        simp only [not_or] at zero
        exact absurd ⟨zero, not_lt.mp below, not_le.mp sum, not_le.mp fbSum, not_lt.mp outside,
          not_le.mp rounds, null⟩ allowed

/-- A call with a plan runs the loop and returns, unless a sum overflows. -/
theorem run_of_plan {m : Machine σ} {call : MapCall} {plan : Plan}
    (planned : call.plan m = some plan) :
    match plan.mapped m plan.pages with
    | (_, .overflow) => call.run m = .panic
    | (p, _) => ∃ value, call.run m = .ret value (m.withPhys p) := by
  cases call with
  | shmem cap virt =>
    rw [MapCall.plan] at planned
    rw [run, Machine.shmemMap]
    cases found : m.kernel.capGet (cap.setWidth 16).toNat with
    | none =>
      rw [found] at planned
      cases planned
    | some held =>
      rw [found] at planned
      dsimp only at planned ⊢
      split_ifs at planned with allowed
      obtain rfl := Option.some.inj planned
      rw [if_pos allowed.1, if_neg allowed.2, Plan.mapped, mapFrom_one]
      rcases mapPage m.kernel.phys m.kernel.currentTask.pml4 (BitVec.ofNat 64 held.data) virt
        (pteWritable ||| pteUser) with ⟨p, _ | _⟩
      · exact ⟨_, rfl⟩
      · exact ⟨_, rfl⟩
  | mmio phys size virt =>
    rw [MapCall.plan] at planned
    rw [run, Machine.mmioMap]
    split_ifs at planned with allowed
    obtain ⟨valid, null, large⟩ := allowed
    obtain rfl := Option.some.inj planned
    dsimp only [Plan.mapped]
    rw [if_pos valid, if_neg null, if_neg (not_le.mpr large)]
    rcases mapFrom m.kernel.currentTask.pml4 phys virt
      (pteWritable ||| pteUser ||| pteCacheDisable) 0 (pageCount size) m.kernel.phys with ⟨p, ending⟩
    cases ending with
    | done => exact ⟨_, rfl⟩
    | failed => exact ⟨_, rfl⟩
    | overflow => rfl
  | fb phys virt size =>
    rw [MapCall.plan] at planned
    rw [run, Machine.fbMap]
    cases sized : m.fbSize with
    | none =>
      rw [sized] at planned
      cases planned
    | some fbSize =>
      rw [sized] at planned
      dsimp only [Plan.mapped] at planned ⊢
      split_ifs at planned with allowed
      obtain ⟨⟨physNonzero, virtNonzero, sizeNonzero⟩, below, sum, fbSum, inside, rounds, null⟩ :=
        allowed
      obtain rfl := Option.some.inj planned
      rw [if_neg (by simp [physNonzero, virtNonzero, sizeNonzero]), if_neg (not_lt.mpr below),
        if_neg (not_or.mpr ⟨not_le.mpr sum, not_le.mpr fbSum⟩), if_neg (not_lt.mpr inside),
        if_neg (not_le.mpr rounds), if_neg null]
      dsimp only
      rcases mapFrom m.kernel.currentTask.pml4 phys virt (pteWritable ||| pteUser) 0
        (pageCount size) m.kernel.phys with ⟨p, ending⟩
      cases ending with
      | done => exact ⟨_, rfl⟩
      | failed => exact ⟨_, rfl⟩
      | overflow => rfl

end MapCall

/-! ## The loop -/

namespace Plan

variable {p : PhysMem} {roots : Set Nat} {level : Nat → Option Nat} {pml4 : Nat}

/-- The translation after the turns `i..i + n` of the loop. -/
noncomputable def remapAll (plan : Plan) (mem : PageMem) (pml4 : Nat) :
    Nat → Nat → (Nat → BitVec 64 → Option Nat) → Nat → BitVec 64 → Option Nat
  | _, 0, before => before
  | i, n + 1, before =>
    remapAll plan mem pml4 (i + 1) n (remap mem pml4 (plan.physAt i) (plan.virtAt i) before)

theorem remapAll_congr (plan : Plan) {mem mem' : PageMem}
    (meets : ∀ r ∈ roots, ∀ virt, Meet mem r pml4 virt ↔ Meet mem' r pml4 virt) (n : Nat) :
    ∀ (i : Nat) (before before' : Nat → BitVec 64 → Option Nat),
      (∀ r ∈ roots, ∀ virt, before r virt = before' r virt) →
        ∀ r ∈ roots, ∀ virt, plan.remapAll mem pml4 i n before r virt =
          plan.remapAll mem' pml4 i n before' r virt := by
  induction n with
  | zero =>
    intro i before before' same
    exact same
  | succ n ih =>
    intro i before before' same
    refine ih (i + 1) _ _ fun r rootR virt => ?_
    rw [remap, remap, same r rootR]
    by_cases hits : Meet mem r pml4 (plan.virtAt i) ∧ SamePage virt (plan.virtAt i)
    · rw [if_pos hits, if_pos ⟨(meets r rootR _).mp hits.1, hits.2⟩]
    · rw [if_neg hits, if_neg fun other => hits ⟨(meets r rootR _).mpr other.1, other.2⟩]

/-- The loop maps a first part of its pages. -/
theorem mapFrom_maps (plan : Plan) (tables : Tables p roots level) (isRoot : pml4 ∈ roots)
    (outside : plan.flags &&& pageMask = 0#64) (pages i : Nat) :
    ∃ n, Maps p (mapFrom pml4 plan.phys plan.virt plan.flags i pages p).1 roots
        (plan.remapAll p.mem pml4 i n (translate p.mem)) ∧ n ≤ pages ∧
      ∀ k ≤ pages, (mapFrom pml4 plan.phys plan.virt plan.flags i k p).2 = .done ↔ k ≤ n := by
  induction pages generalizing i p level with
  | zero =>
    refine ⟨0, (Kept.refl tables).maps, le_rfl, fun k bound => ?_⟩
    obtain rfl : k = 0 := by omega
    simp [mapFrom]
  | succ pages ih =>
    have stops : ∀ {q : PhysMem}, Maps p q roots (translate p.mem) →
        (∀ k, (mapFrom pml4 plan.phys plan.virt plan.flags i (k + 1) p).2 ≠ .done) →
        (mapFrom pml4 plan.phys plan.virt plan.flags i (pages + 1) p).1 = q →
        ∃ n, Maps p (mapFrom pml4 plan.phys plan.virt plan.flags i (pages + 1) p).1 roots
            (plan.remapAll p.mem pml4 i n (translate p.mem)) ∧ n ≤ pages + 1 ∧
          ∀ k ≤ pages + 1,
            (mapFrom pml4 plan.phys plan.virt plan.flags i k p).2 = .done ↔ k ≤ n := by
      rintro q maps notDone rfl
      refine ⟨0, maps, by omega, fun k bound => ?_⟩
      cases k with
      | zero => simp [mapFrom]
      | succ k => exact iff_of_false (notDone k) (by omega)
    by_cases overflows : plan.phys.toNat + i * 0x1000 ≥ 2 ^ 64 ∨
        plan.virt.toNat + i * 0x1000 ≥ 2 ^ 64
    · refine stops (Kept.refl tables).maps (fun k => ?_) ?_
      · rw [mapFrom, if_pos overflows]
        exact nofun
      · rw [mapFrom, if_pos overflows]
    have maps := tables.mapPage isRoot (plan.physAt i) (plan.virtAt i) plan.flags outside
    have turn : ∀ k, mapFrom pml4 plan.phys plan.virt plan.flags i (k + 1) p =
        match mapPage p pml4 (plan.physAt i) (plan.virtAt i) plan.flags with
        | (q, true) => mapFrom pml4 plan.phys plan.virt plan.flags (i + 1) k q
        | (q, false) => (q, .failed) := by
      intro k
      rw [mapFrom, if_neg overflows]
      rfl
    rcases result : mapPage p pml4 (plan.physAt i) (plan.virtAt i) plan.flags with ⟨q, _ | _⟩
    all_goals rw [result] at maps turn
    · refine stops maps (fun k => ?_) ?_
      · rw [turn]
        exact nofun
      · rw [turn]
    · simp only [if_true] at maps
      obtain ⟨level', tables'⟩ := maps.tables
      obtain ⟨n, rest, bound, dones⟩ := ih tables' (i + 1)
      rw [turn]
      refine ⟨n + 1, ⟨rest.tables, ?_, ?_⟩, by omega, fun k inside => ?_⟩
      · intro r rootR s rootS virt
        exact (rest.meets r rootR s rootS virt).trans (maps.meets r rootR s rootS virt)
      · intro r rootR virt
        rw [rest.translates r rootR virt]
        exact plan.remapAll_congr (fun r rootR virt => maps.meets r rootR pml4 isRoot virt) n
          (i + 1) _ _ maps.translates r rootR virt
      · cases k with
        | zero => simp [mapFrom]
        | succ k =>
          rw [turn]
          dsimp only
          rw [dones k (by omega)]
          omega

/-- Turn `i` maps the page of the address, in this address space too. -/
def Hits (plan : Plan) (mem : PageMem) (pml4 root : Nat) (virt : BitVec 64) (i : Nat) : Prop :=
  Meet mem root pml4 (plan.virtAt i) ∧ SamePage virt (plan.virtAt i)

/-- The place that turn `i` gives the address. -/
def placeAt (plan : Plan) (virt : BitVec 64) (i : Nat) : Nat :=
  physFromPte (plan.physAt i) + virt.toNat % spanOf 0

variable {plan : Plan} {mem : PageMem} {root : Nat} {virt : BitVec 64}

/-- Turn `i` is the last of the first `n` that maps the page of the address. -/
def LastHit (plan : Plan) (mem : PageMem) (pml4 root : Nat) (virt : BitVec 64) (n i : Nat) : Prop :=
  i < n ∧ plan.Hits mem pml4 root virt i ∧ ∀ j, i < j → j < n → ¬ plan.Hits mem pml4 root virt j

theorem remapAll_of_not_hits {n i : Nat} {before : Nat → BitVec 64 → Option Nat}
    (misses : ∀ j, i ≤ j → j < i + n → ¬ plan.Hits mem pml4 root virt j) :
    plan.remapAll mem pml4 i n before root virt = before root virt := by
  induction n generalizing i before with
  | zero => rfl
  | succ n ih =>
    rw [remapAll, ih fun j low high => misses j (by omega) (by omega)]
    exact if_neg (misses i le_rfl (by omega))

theorem remapAll_of_last {n i j : Nat} {before : Nat → BitVec 64 → Option Nat} (low : i ≤ j)
    (high : j < i + n) (hit : plan.Hits mem pml4 root virt j)
    (last : ∀ k, j < k → k < i + n → ¬ plan.Hits mem pml4 root virt k) :
    plan.remapAll mem pml4 i n before root virt = some (plan.placeAt virt j) := by
  induction n generalizing i before with
  | zero => omega
  | succ n ih =>
    rcases Nat.eq_or_lt_of_le low with rfl | above
    · rw [remapAll, remapAll_of_not_hits fun k above inside => last k (by omega) (by omega)]
      exact if_pos hit
    · exact ih (by omega) (by omega) fun k above' inside => last k above' (by omega)

/-- Some turn maps the page last, or none maps it. -/
theorem lastHit_or_not_hits (n : Nat) :
    (∃ i, plan.LastHit mem pml4 root virt n i) ∨ ∀ j < n, ¬ plan.Hits mem pml4 root virt j := by
  induction n with
  | zero => exact .inr fun j bound => by omega
  | succ n ih =>
    by_cases hit : plan.Hits mem pml4 root virt n
    · exact .inl ⟨n, by omega, hit, fun j above inside => by omega⟩
    · rcases ih with ⟨i, bound, hits, last⟩ | misses
      · refine .inl ⟨i, by omega, hits, fun j above inside => ?_⟩
        rcases Nat.lt_or_eq_of_le (Nat.le_of_lt_succ inside) with below | rfl
        · exact last j above below
        · exact hit
      · refine .inr fun j inside => ?_
        rcases Nat.lt_or_eq_of_le (Nat.le_of_lt_succ inside) with below | rfl
        · exact misses j below
        · exact hit

/-- The loop leaves the translation of the address as it was. -/
theorem remapAll_eq_iff {n : Nat} {before : Nat → BitVec 64 → Option Nat} :
    plan.remapAll mem pml4 0 n before root virt = before root virt ↔
      ∀ i, plan.LastHit mem pml4 root virt n i → before root virt = some (plan.placeAt virt i) := by
  constructor
  · rintro same i ⟨bound, hit, last⟩
    rw [← same]
    exact remapAll_of_last (by omega) (by omega) hit fun k above inside => last k above (by omega)
  · intro places
    rcases plan.lastHit_or_not_hits n with ⟨i, lastHit⟩ | misses
    · rw [places i lastHit]
      obtain ⟨bound, hit, last⟩ := lastHit
      exact remapAll_of_last (by omega) (by omega) hit fun k above inside => last k above (by omega)
    · exact remapAll_of_not_hits fun j _ inside => misses j (by omega)

end Plan

/-! ## Calls -/

/-- The address spaces of the kernel and of every task that has not exited. -/
def Machine.spaces (m : Machine σ) : Set Nat :=
  {root | root ≠ 0 ∧ (root = m.kernel.kernelPml4 ∨
    ∃ slot, (m.kernel.tasks slot).state ≠ .free ∧ (m.kernel.tasks slot).state ≠ .exited ∧
      (m.kernel.tasks slot).pml4 = root)}

/-- The calling task runs, and the address spaces are made of tables. -/
structure WellFormed (m : Machine σ) : Prop where
  running : m.kernel.currentTask.state = .running
  tables : ∃ level, Tables m.kernel.phys m.spaces level

/-- An address outside of the user half, PML4 entries 0..255, of the calling task. -/
def Foreign (m : Machine σ) (root : Nat) (virt : BitVec 64) : Prop :=
  root ∈ m.spaces ∧ ¬ (root = m.kernel.currentTask.pml4 ∧ pml4Index virt < 256)

/-- Only addresses in the user half of the calling task changed their translation. -/
def OnlyUserHalf (m : Machine σ) (after : PhysMem) : Prop :=
  ∀ root virt, Foreign m root virt →
    translate after.mem root virt = translate m.kernel.phys.mem root virt

/-- The pages that the loop maps: up to the first that cannot be mapped. -/
def Plan.Reaches (plan : Plan) (m : Machine σ) (pages : Nat) : Prop :=
  pages ≤ plan.pages ∧ (plan.mapped m pages).2 = .done

/-- Every page that the loop maps at a foreign address, and does not map again, had its
place there before. -/
def Plan.StaysInside (plan : Plan) (m : Machine σ) : Prop :=
  ∀ root virt, Foreign m root virt →
    ∀ n i, plan.Reaches m n → ¬ plan.Reaches m (n + 1) →
      plan.LastHit m.kernel.phys.mem m.kernel.currentTask.pml4 root virt n i →
        translate m.kernel.phys.mem root virt = some (plan.placeAt virt i)

/-- The call is refused, panics, or maps pages that stay inside. -/
def MapCall.StaysInside (m : Machine σ) (call : MapCall) : Prop :=
  ∀ plan, call.plan m = some plan → (plan.mapped m plan.pages).2 ≠ .overflow → plan.StaysInside m

/-- Pages in the user half of an address space that no other one meets there. -/
theorem Plan.staysInside_of_userHalf {plan : Plan} {m : Machine σ}
    (low : ∀ i < plan.pages, pml4Index (plan.virtAt i) < 256)
    (alone : ∀ root ∈ m.spaces, ∀ i < plan.pages,
      Meet m.kernel.phys.mem root m.kernel.currentTask.pml4 (plan.virtAt i) →
        root = m.kernel.currentTask.pml4) : plan.StaysInside m := by
  rintro root virt ⟨space, foreign⟩ n i reached _ ⟨bound, ⟨meet, samePage⟩, _⟩
  have inside : i < plan.pages := Nat.lt_of_lt_of_le bound reached.1
  have index : pml4Index virt = pml4Index (plan.virtAt i) := samePage 3 le_rfl
  exact absurd ⟨alone root space i inside meet, index ▸ low i inside⟩ foreign

namespace MapCall

theorem plan_spec {m : Machine σ} {call : MapCall} {plan : Plan}
    (planned : call.plan m = some plan) :
    m.kernel.currentTask.pml4 ≠ 0 ∧ plan.flags &&& pageMask = 0#64 := by
  cases call with
  | shmem cap virt =>
    rw [MapCall.plan] at planned
    split at planned
    · cases planned
    · split_ifs at planned with allowed
      obtain rfl := Option.some.inj planned
      exact ⟨allowed.2, show (pteWritable ||| pteUser) &&& pageMask = 0#64 by decide⟩
  | mmio phys size virt =>
    rw [MapCall.plan] at planned
    split_ifs at planned with allowed
    obtain rfl := Option.some.inj planned
    exact ⟨allowed.2.1,
      show (pteWritable ||| pteUser ||| pteCacheDisable) &&& pageMask = 0#64 by decide⟩
  | fb phys virt size =>
    rw [MapCall.plan] at planned
    split at planned
    · cases planned
    · split_ifs at planned with allowed
      obtain rfl := Option.some.inj planned
      exact ⟨allowed.2.2.2.2.2.2,
        show (pteWritable ||| pteUser) &&& pageMask = 0#64 by decide⟩

theorem returned_iff {m : Machine σ} {call : MapCall} {value : BitVec 64} {p : PhysMem}
    (returns : call.run m = .ret value (m.withPhys p)) :
    (∀ value after, call.run m = .ret value after → OnlyUserHalf m after.kernel.phys) ↔
      OnlyUserHalf m p := by
  constructor
  · intro all
    exact all value _ returns
  · intro only other after result
    rw [returns] at result
    obtain ⟨-, rfl⟩ := Reply.ret.inj result
    exact only

/-- The mapping calls keep to the user half of the calling task on the calls that
stay inside it, and on no others. -/
theorem onlyUserHalf_iff {m : Machine σ} (wellFormed : WellFormed m) (call : MapCall) :
    (∀ value after, call.run m = .ret value after → OnlyUserHalf m after.kernel.phys) ↔
      call.StaysInside m := by
  obtain ⟨level, tables⟩ := wellFormed.tables
  cases planned : call.plan m with
  | none =>
    refine iff_of_true ?_ ?_
    · intro value after returns root virt _
      rw [phys_of_refused planned returns]
    · intro plan found
      rw [planned] at found
      cases found
  | some plan =>
    obtain ⟨nonzero, outside⟩ := plan_spec planned
    have own : m.kernel.currentTask.pml4 ∈ m.spaces :=
      ⟨nonzero, .inr ⟨m.kernel.current, by
        have running := wellFormed.running
        unfold Kernel.currentTask at running
        simp [running, Kernel.currentTask]⟩⟩
    obtain ⟨n, maps, bound, dones⟩ := plan.mapFrom_maps tables own outside plan.pages 0
    have reaches : ∀ k, plan.Reaches m k ↔ k ≤ n := by
      intro k
      constructor
      · rintro ⟨inside, done⟩
        exact (dones k inside).mp done
      · intro inside
        exact ⟨by omega, (dones k (by omega)).mpr inside⟩
    have kept : OnlyUserHalf m (plan.mapped m plan.pages).1 ↔ plan.StaysInside m := by
      have place : ∀ root virt, Foreign m root virt →
          (translate (plan.mapped m plan.pages).1.mem root virt =
              translate m.kernel.phys.mem root virt ↔
            ∀ i, plan.LastHit m.kernel.phys.mem m.kernel.currentTask.pml4 root virt n i →
              translate m.kernel.phys.mem root virt = some (plan.placeAt virt i)) := by
        intro root virt foreign
        rw [Plan.mapped, maps.translates root foreign.1 virt]
        exact Plan.remapAll_eq_iff
      constructor
      · intro kept root virt foreign n' i reached stopped
        obtain rfl : n' = n := by
          rw [reaches] at reached stopped
          omega
        exact (place root virt foreign).mp (kept root virt foreign) i
      · intro inside root virt foreign
        refine (place root virt foreign).mpr fun i => ?_
        exact inside root virt foreign n i ((reaches n).mpr le_rfl) fun more => by
          have beyond := (reaches (n + 1)).mp more
          omega
    have runs := run_of_plan planned
    rcases ends : plan.mapped m plan.pages with ⟨p, ending⟩
    rw [ends] at runs kept
    have onlyPlan : call.StaysInside m ↔ (ending ≠ .overflow → plan.StaysInside m) := by
      simp [StaysInside, planned, ends]
    rw [onlyPlan, ← kept]
    cases ending with
    | overflow =>
      dsimp only at runs
      simp [runs]
    | done =>
      obtain ⟨value, returns⟩ := runs
      simp [returned_iff returns]
    | failed =>
      obtain ⟨value, returns⟩ := runs
      simp [returned_iff returns]

end MapCall

/-- A ring-3 task with a shared page and an empty address space. -/
def mapper : Machine Unit :=
  { oneTask with
    kernel := { oneTask.kernel with
      tasks := fun slot =>
        if slot = 0 then { Task.free with state := .running, ring3 := true, pml4 := 0x1000 }
        else Task.free
      capTables := fun _ =>
        ⟨fun idx =>
          if idx = 0 then ⟨CapType.sharedMem.value, 0, capRead ||| capWrite, 0x5000⟩ else Cap.null⟩ } }

theorem spaces_mapper {root : Nat} (space : root ∈ mapper.spaces) : root = 0x1000 := by
  rcases space with ⟨nonzero, kernel | ⟨slot, used, -, rfl⟩⟩
  · exact absurd kernel nonzero
  · by_cases first : slot = 0
    · subst first
      rfl
    · exact absurd (by simp [mapper, first, Task.free]) used

theorem wellFormed_mapper : WellFormed mapper where
  running := by decide
  tables := ⟨_, tables_emptySpace_of fun _ => spaces_mapper⟩

/-- The shared page is mapped in the user half. -/
theorem onlyUserHalf_mapper :
    ∃ after, (MapCall.shmem 0#64 0x40000000#64).run mapper = .ret 0#64 after ∧
      OnlyUserHalf mapper after.kernel.phys := by
  have inside : (MapCall.shmem 0#64 0x40000000#64).StaysInside mapper := by
    intro plan planned _
    have pages : (MapCall.shmem 0#64 0x40000000#64).plan mapper =
        some ⟨0x5000#64, 0x40000000#64, pteWritable ||| pteUser, 1⟩ := by decide
    obtain rfl := Option.some.inj (pages.symm.trans planned)
    refine Plan.staysInside_of_userHalf ?_ ?_
    · decide
    · intro root space _ _ _
      exact spaces_mapper space
  have mapped : (((MapCall.shmem 0#64 0x40000000#64).run mapper).returned.any fun reply =>
      decide (reply.1 = 0#64)) = true := by decide +kernel
  rcases returns : (MapCall.shmem 0#64 0x40000000#64).run mapper with ⟨value, after⟩ | ⟨_, _⟩ | _
  · rw [returns] at mapped
    obtain rfl := of_decide_eq_true mapped
    exact ⟨after, rfl, (MapCall.onlyUserHalf_iff wellFormed_mapper _).mpr inside _ _ returns⟩
  · rw [returns] at mapped
    cases mapped
  · rw [returns] at mapped
    cases mapped

/-- A shared page mapped at the first kernel address. -/
theorem kernel_address_mapped :
    ¬ ∀ (m : Machine Unit) (call : MapCall) (value : BitVec 64) (after : Machine Unit),
      WellFormed m → m.kernel.currentTask.ring3 = true → call.run m = .ret value after →
        OnlyUserHalf m after.kernel.phys := by
  intro always
  have mapped : (((MapCall.shmem 0#64 0xFFFF800000000000#64).run mapper).returned.any
      fun (reply : BitVec 64 × Machine Unit) => decide
        (translate reply.2.kernel.phys.mem 0x1000 0xFFFF800000000000#64 = some 0x5000)) =
          true := by decide +kernel
  rcases returns : (MapCall.shmem 0#64 0xFFFF800000000000#64).run mapper with
    ⟨value, after⟩ | ⟨_, _⟩ | _
  · rw [returns] at mapped
    have own : (0x1000 : Nat) ∈ mapper.spaces :=
      ⟨by decide, .inr ⟨0, by decide, by decide, by decide⟩⟩
    have kept := always mapper _ value after wellFormed_mapper (by decide) returns 0x1000
      0xFFFF800000000000#64 ⟨own, by decide⟩
    rw [of_decide_eq_true mapped] at kept
    exact absurd kept (by decide)
  · rw [returns] at mapped
    cases mapped
  · rw [returns] at mapped
    cases mapped

end DBSos.Syscall
