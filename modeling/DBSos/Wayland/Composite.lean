import DBSos.Vm.PageTable
import DBSos.Lib.Audit
import DBSos.Lib.Buffer

/-!
# Pools and surfaces

A pool is a run of pages. What `identity_map_2mb` returns is not looked at.
-/

namespace DBSos.Wayland

open DBSos.Memory DBSos.Vm

/-- `ShmPool`. -/
structure ShmPool where
  phys : Nat
  size : Nat
  inUse : Bool
deriving DecidableEq

/-- An index below `MAX_POOLS`. -/
abbrev PoolIdx := Fin 8

/-- The pools, the memory they come from and the kernel's root table. -/
structure Shm where
  phys : PhysMem
  kernelPml4 : Nat
  pools : PoolIdx → ShmPool

namespace Shm

variable (s : Shm)

/-- `(0..MAX_POOLS).find(|&i| !POOLS[i].in_use)`. -/
def freePool : Option PoolIdx := (List.finRange 8).find? fun i => !(s.pools i).inUse

/-- The pages of a pool. -/
def pagesOf (size : Nat) : Nat := (size + pageSize - 1) / pageSize

/-- `pool_create`; `none` is an overflow. -/
def poolCreate (size : Nat) : Option (Option PoolIdx × Shm) :=
  if 2 ^ 64 ≤ size + pageSize then none
  else if pagesOf size = 0 then some (none, s)
  else
    let (phys, alloc) := s.phys.alloc.pallocN (pagesOf size)
    if phys = 0 then some (none, { s with phys := ⟨alloc, s.phys.mem⟩ })
    else if 2 ^ 64 ≤ phys + pagesOf size * pageSize then none
    else
      let mapped := (identityMap2mb ⟨alloc, s.phys.mem⟩ s.kernelPml4 phys
        (phys + pagesOf size * pageSize) pteWritable).1
      match s.freePool with
      | none => some (none, { s with phys := mapped })
      | some slot =>
        some (some slot,
          { s with
            phys := mapped
            pools := Function.update s.pools slot ⟨phys, pagesOf size * pageSize, true⟩ })

/-- `pool_destroy`. -/
def poolDestroy (idx : Nat) : Bool × Shm :=
  if bound : idx < 8 then
    let pool := s.pools ⟨idx, bound⟩
    if pool.inUse then
      (true,
        { s with
          phys := ⟨s.phys.alloc.pfreeN pool.phys (pool.size / pageSize), s.phys.mem⟩
          pools := Function.update s.pools ⟨idx, bound⟩ { pool with inUse := false } })
    else (false, s)
  else (false, s)

/-- `pool_phys`, with the index. -/
def poolPhys (idx : Nat) : Option (PoolIdx × Nat) :=
  if bound : idx < 8 then
    if (s.pools ⟨idx, bound⟩).inUse then some (⟨idx, bound⟩, (s.pools ⟨idx, bound⟩).phys) else none
  else none

variable {s}

/-- A creation has room when the size can be rounded up, the pages that it is granted end
below 2^64, and there is a pool for them. -/
structure HasRoom (s : Shm) (size : Nat) : Prop where
  word : size + pageSize < 2 ^ 64
  fits : (s.phys.alloc.pallocN (pagesOf size)).1 + pagesOf size * pageSize < 2 ^ 64
  pool : s.freePool.isSome ∨ pagesOf size = 0 ∨ (s.phys.alloc.pallocN (pagesOf size)).1 = 0

/-- What a creation comes to: it fails and takes nothing, or it makes one pool. -/
inductive Creates (s : Shm) (size : Nat) : Option PoolIdx × Shm → Prop where
  | failed : Creates s size (none, s)
  | made {slot : PoolIdx} {after : Shm} (free : (s.pools slot).inUse = false)
      (start : after.phys.alloc.physStart = s.phys.alloc.physStart)
      (others : ∀ i, i ≠ slot → after.pools i = s.pools i) : Creates s size (some slot, after)

/-- Where the memory does not start at 0, a failed allocation takes nothing. -/
theorem pallocN_refused {a : PhysAllocator} {n : Nat} (positive : 0 < n) (start : 0 < a.physStart)
    (refused : (a.pallocN n).1 = 0) : (a.pallocN n).2 = a := by
  rcases a.pallocN_cases positive with failed | ⟨k, -, -, -, taken⟩
  · rw [failed]
  · rw [taken] at refused
    simp only [PhysAllocator.pageAddr] at refused
    omega

theorem poolCreate_creates {size : Nat} (start : 0 < s.phys.alloc.physStart)
    (room : s.HasRoom size) : ∃ result, s.poolCreate size = some result ∧ s.Creates size result := by
  unfold poolCreate
  rw [if_neg (not_le.mpr room.word)]
  by_cases empty : pagesOf size = 0
  · exact ⟨_, if_pos empty, .failed⟩
  rw [if_neg empty]
  have refused := pallocN_refused (Nat.pos_of_ne_zero empty) start
  have grows := s.phys.alloc.pallocN_grows (Nat.pos_of_ne_zero empty)
  have pool := room.pool
  have fits := room.fits
  rcases granted : s.phys.alloc.pallocN (pagesOf size) with ⟨phys, alloc⟩
  rw [granted] at refused grows pool fits
  dsimp only at refused grows pool fits ⊢
  by_cases null : phys = 0
  · refine ⟨_, if_pos null, ?_⟩
    rw [refused null]
    exact .failed
  · rw [if_neg null, if_neg (not_le.mpr fits)]
    obtain ⟨slot, free⟩ : ∃ slot, s.freePool = some slot :=
      Option.isSome_iff_exists.mp (pool.resolve_right (not_or.mpr ⟨empty, null⟩))
    rw [free]
    refine ⟨_, rfl, .made ?_ ?_ fun i apart => Function.update_of_ne apart ..⟩
    · simpa using List.find?_some free
    · have mapped := identityMap2mb_grows ⟨alloc, s.phys.mem⟩ s.kernelPml4 phys
        (phys + pagesOf size * pageSize) pteWritable
      exact mapped.start.trans grows.start

theorem pfree_physStart (a : PhysAllocator) (page : Nat) :
    (a.pfree page).physStart = a.physStart := by
  unfold PhysAllocator.pfree
  dsimp only
  split_ifs <;> rfl

theorem pfreeN_physStart (a : PhysAllocator) (phys n : Nat) :
    (a.pfreeN phys n).physStart = a.physStart := by
  induction n with
  | zero => rfl
  | succ n ih =>
    rw [PhysAllocator.pfreeN_succ, pfree_physStart, ih]

/-- What a destruction comes to. -/
theorem poolDestroy_spec (idx : Nat) :
    (s.poolDestroy idx).2 = s ∨ ∃ slot : PoolIdx, slot.val = idx ∧
      (s.poolDestroy idx).1 = true ∧
      (s.poolDestroy idx).2.phys.alloc.physStart = s.phys.alloc.physStart ∧
      ∀ i, i ≠ slot → (s.poolDestroy idx).2.pools i = s.pools i := by
  unfold poolDestroy
  dsimp only
  split_ifs with bound
  · refine .inr ⟨⟨idx, bound⟩, rfl, rfl, ?_, fun i apart => Function.update_of_ne apart ..⟩
    exact pfreeN_physStart _ _ _
  · exact .inl rfl
  · exact .inl rfl

theorem poolPhys_spec {idx : Nat} {p : PoolIdx} {phys : Nat}
    (found : s.poolPhys idx = some (p, phys)) :
    (s.pools p).inUse = true ∧ (s.pools p).phys = phys := by
  unfold poolPhys at found
  split_ifs at found with bound used
  obtain ⟨rfl, rfl⟩ := Prod.mk.inj (Option.some.inj found)
  exact ⟨used, rfl⟩

end Shm

/-!
## Surfaces

`WlSurface` without its input events. A surface knows its buffer by address only. The
calls are the arms of the dispatcher, with the arguments as it casts them.
-/

/-- `WlSurface`. -/
structure WlSurface where
  inUse : Bool
  id : Nat
  x : Int
  y : Int
  w : Nat
  h : Nat
  bufPtr : Nat
  bufW : Nat
  bufH : Nat
  stride : Nat
  damage : Bool
deriving DecidableEq

/-- An index below `MAX_SURFACES`. -/
abbrev SurfaceIdx := Fin 16

/-- The state of the Wayland calls. -/
structure Compositor where
  shm : Shm
  surfaces : SurfaceIdx → WlSurface
  nextId : Nat
  surfaceCount : Nat

namespace Compositor

variable (w : Compositor)

/-- The surface with an id. -/
def findSurface (id : Nat) : Option SurfaceIdx :=
  (List.finRange 16).find? fun i => (w.surfaces i).inUse ∧ (w.surfaces i).id = id

def setSurface (i : SurfaceIdx) (s : WlSurface) : Compositor :=
  { w with surfaces := Function.update w.surfaces i s }

/-- `wl_surface_create`; `none` where the ids run out. -/
def wlSurfaceCreate (x y : Int) (width height : Nat) : Option (Option Nat × Compositor) :=
  if 16 ≤ w.surfaceCount then some (none, w)
  else
    match (List.finRange 16).find? fun i => !(w.surfaces i).inUse with
    | none => some (none, w)
    | some slot =>
      if 2 ^ 32 ≤ w.nextId + 1 then none
      else
        some (some w.nextId,
          { w.setSurface slot ⟨true, w.nextId, x, y, width, height, 0, 0, 0, 0, true⟩ with
            nextId := w.nextId + 1
            surfaceCount := w.surfaceCount + 1 })

/-- `surface_create`, for a user. -/
def surfaceCreate (uid : Nat) (x y : Int) (width height : Nat) :
    Option (Option Nat × Compositor) :=
  if uid ≠ 0 ∧ 8 ≤ w.surfaceCount then some (none, w) else w.wlSurfaceCreate x y width height

/-- `surface_destroy`. -/
def surfaceDestroy (id : Nat) : Bool × Compositor :=
  match w.findSurface id with
  | none => (false, w)
  | some i =>
    (true,
      { w.setSurface i { w.surfaces i with inUse := false } with
        surfaceCount := w.surfaceCount - 1 })

/-- `surface_attach`, with the surface and the pool that it finds; `none` where the address
does not fit. -/
def surfaceAttach (id pool offset width height stride : Nat) :
    Option (Option (SurfaceIdx × PoolIdx) × Compositor) :=
  match w.shm.poolPhys pool with
  | none => some (none, w)
  | some (p, phys) =>
    if 2 ^ 64 ≤ phys + offset then none
    else
      match w.findSurface id with
      | none => some (none, w)
      | some i =>
        some (some (i, p), w.setSurface i
          { w.surfaces i with
            bufPtr := phys + offset
            bufW := width
            bufH := height
            stride := stride
            damage := true })

/-- `surface_set_pos`. -/
def surfaceSetPos (id : Nat) (x y : Int) : Bool × Compositor :=
  match w.findSurface id with
  | none => (false, w)
  | some i => (true, w.setSurface i { w.surfaces i with x := x, y := y, damage := true })

/-- `surface_commit`. -/
def surfaceCommit (id : Nat) : Bool × Compositor :=
  match w.findSurface id with
  | none => (false, w)
  | some i => (true, w.setSurface i { w.surfaces i with damage := true })

end Compositor

/-- A call, with the arguments of the dispatcher. -/
inductive Call where
  | shmCreate (size : BitVec 64)
  | shmDestroy (idx : BitVec 64)
  | surfaceCreate (uid : Nat) (x y width height : BitVec 64)
  | surfaceDestroy (id : BitVec 64)
  | surfaceAttach (id pool offset wh : BitVec 64)
  | surfaceCommit (id : BitVec 64)
  | surfaceSetPos (id x y : BitVec 64)

end DBSos.Wayland

/-!
## The compositor

`wayland_composite` on a framebuffer in the layout of `Framebuffer::from_display`: 4 bytes
to a pixel, and the stride of the display. The buffers of the surfaces are read from
memory; a read outside the region that a surface may read, or a write outside the
framebuffer, is a fault, and a sum or product that does not fit its type a stop.
-/

namespace DBSos.Wayland

open DBSos.Lib DBSos.Lib.Audit

/-- `Framebuffer`; a row is no longer than the stride. -/
structure Framebuffer where
  width : BitVec 32
  height : BitVec 32
  stride : BitVec 32
  isBgr : Bool
  rows : width.toNat ≤ stride.toNat

/-- `bpp`. -/
def bpp : Nat := 4

/-- The bytes of the framebuffer. -/
def Framebuffer.bytes (fb : Framebuffer) : Nat := fb.stride.toNat * fb.height.toNat * bpp

/-- What the compositor must not do. -/
inductive Access where
  | readOutside
  | writeOutside
deriving DecidableEq

/-- A number that does not fit its type. -/
inductive Overflow where
  | overflow
deriving DecidableEq

/-- Painting changes the bytes of the framebuffer. -/
abbrev Paint := Audit Buffer Access Overflow

/-- A value of `u32`. -/
def u32 (value : Nat) : Paint Nat := if value < 2 ^ 32 then pure value else stop .overflow

/-- The values of `i32`. -/
def FitsI32 (value : Int) : Prop := -2 ^ 31 ≤ value ∧ value < 2 ^ 31

instance : DecidablePred FitsI32 := fun _ => instDecidableAnd

/-- A value of `i32`. -/
def i32 (value : Int) : Paint Int := if FitsI32 value then pure value else stop .overflow

/-- The bytes that a surface may read. -/
structure Region where
  start : Nat
  size : Nat

def Region.Covers (r : Region) (addr len : Nat) : Prop :=
  r.start ≤ addr ∧ addr + len ≤ r.start + r.size

instance (r : Region) (addr len : Nat) : Decidable (r.Covers addr len) := instDecidableAnd

section Painting

variable (fb : Framebuffer) (mem : Buffer) (region : Option Region) (s : WlSurface)

/-- A colour over another. -/
def mix (source below alpha : Nat) : UInt8 :=
  if alpha = 255 then UInt8.ofNat source
  else UInt8.ofNat ((source * alpha + below * (255 - alpha)) / 255)

/-- The three bytes that a pixel writes. -/
def blend (isBgr : Bool) (canvas : Buffer) (dst sb sg sr sa : Nat) : List UInt8 :=
  let db := (canvas dst).toNat
  let dg := (canvas (dst + 1)).toNat
  let dr := (canvas (dst + 2)).toNat
  if isBgr then [mix sb db sa, mix sg dg sa, mix sr dr sa]
  else [mix sr dr sa, mix sg dg sa, mix sb db sa]

/-- One pixel. -/
def compositePixel (srcStride row : Nat) (dstY : Int) (col : Nat) : Paint Unit := do
  let line ← u32 (row * srcStride)
  let left ← u32 (col * 4)
  let srcOff ← u32 (line + left)
  let dstPx ← i32 (s.x + col)
  if dstPx < 0 ∨ fb.width.toInt ≤ dstPx then pure ()
  else do
    let dstLine ← u32 (dstY.toNat * fb.stride.toNat)
    let dstLeft ← u32 (dstPx.toNat * bpp)
    let dst ← u32 (dstLine + dstLeft)
    ensure (∃ r ∈ region, r.Covers (s.bufPtr + srcOff) 4) .readOutside
    let source := fun i => (mem (s.bufPtr + srcOff + i)).toNat
    if source 3 = 0 then pure ()
    else do
      ensure (dst + 3 ≤ fb.bytes) .writeOutside
      modify fun canvas =>
        canvas.put dst (blend fb.isBgr canvas dst (source 0) (source 1) (source 2) (source 3))

/-- One row. -/
def compositeRow (srcStride row : Nat) : Paint Unit := do
  let dstY ← i32 (s.y + row)
  if dstY < 0 ∨ fb.height.toInt ≤ dstY then pure ()
  else do
    let right ← i32 (fb.width.toInt - s.x)
    upTo (compositePixel fb mem region s srcStride row dstY) (min (min s.w s.bufW) right.toNat)

/-- `src_stride`. -/
def WlSurface.srcStride : Paint Nat := if s.stride = 0 then u32 (s.bufW * 4) else pure s.stride

/-- One surface. -/
def compositeSurface : Paint Unit :=
  if s.inUse = false ∨ s.bufPtr = 0 then pure ()
  else do
    let srcStride ← s.srcStride
    upTo (compositeRow fb mem region s srcStride) (min s.h s.bufH)

end Painting

/-- `wayland_composite`, with the region of each surface. -/
def composite (fb : Framebuffer) (mem : Buffer) (regions : SurfaceIdx → Option Region)
    (surfaces : SurfaceIdx → WlSurface) : Paint Unit :=
  upTo (fun i =>
    if bound : i < 16 then
      compositeSurface fb mem (regions ⟨i, bound⟩) (surfaces ⟨i, bound⟩)
    else pure ()) 16

/-! ## What is clean -/

section Clean

variable {fb : Framebuffer} {mem canvas : Buffer} {region : Option Region} {s : WlSurface}

@[simp] theorem clean_u32 {value : Nat} {post : Nat → Buffer → Prop} :
    Clean (u32 value) canvas post ↔ value < 2 ^ 32 ∧ post value canvas := by
  unfold u32
  split_ifs with fits
  · simp only [clean_pure, fits, true_and]
  · simp only [clean_stop, fits, false_and]

@[simp] theorem clean_i32 {value : Int} {post : Int → Buffer → Prop} :
    Clean (i32 value) canvas post ↔ FitsI32 value ∧ post value canvas := by
  unfold i32
  split_ifs with fits
  · simp only [clean_pure, fits, true_and]
  · simp only [clean_stop, fits, false_and]

/-- Where the last pixel that a surface may show ends in its buffer. -/
def WlSurface.span (s : WlSurface) : Nat :=
  (min s.h s.bufH - 1) * s.stride + min s.w s.bufW * 4

/-- The buffer of a surface is in its region. -/
structure Backed (region : Option Region) (s : WlSurface) : Prop where
  stride : s.stride ≠ 0
  inside : ∃ r ∈ region, r.Covers s.bufPtr s.span
  word : s.span ≤ 2 ^ 32

/-- The coordinates of a surface, and those of the framebuffer, fit their types. -/
structure Placed (fb : Framebuffer) (s : WlSurface) : Prop where
  left : -2 ^ 31 ≤ s.x
  right : FitsI32 (fb.width.toInt - s.x)
  top : -2 ^ 31 ≤ s.y
  bottom : s.y + (min s.h s.bufH : Nat) ≤ 2 ^ 31
  frame : (fb.height.toNat - 1) * fb.stride.toNat + fb.width.toNat * bpp ≤ 2 ^ 32

/-- A pixel in the framebuffer. -/
theorem pixel_inside (fb : Framebuffer) {x y : Nat} (column : x < fb.width.toNat)
    (row : y < fb.height.toNat) : y * fb.stride.toNat + x * bpp + 3 ≤ fb.bytes := by
  have rows := fb.rows
  have lines : (y + 1) * fb.stride.toNat ≤ fb.height.toNat * fb.stride.toNat :=
    Nat.mul_le_mul_right _ row
  rw [Nat.add_mul, Nat.one_mul, Nat.mul_comm fb.height.toNat] at lines
  simp only [Framebuffer.bytes, bpp]
  omega

theorem toInt_le (value : BitVec 32) : value.toInt ≤ value.toNat := by
  rw [BitVec.toInt_eq_toNat_cond]
  split_ifs <;> omega

theorem clean_compositePixel (backed : Backed region s) (placed : Placed fb s) {row col : Nat}
    {dstY : Int} (visible : 0 ≤ dstY ∧ dstY < fb.height.toInt) (inRow : row < min s.h s.bufH)
    (inColumn : col < min (min s.w s.bufW) (fb.width.toInt - s.x).toNat) :
    Clean (compositePixel fb mem region s s.stride row dstY col) canvas fun _ _ => True := by
  obtain ⟨r, isRegion, start, stop⟩ := backed.inside
  have word := backed.word
  have frame := placed.frame
  have lines : row * s.stride ≤ (min s.h s.bufH - 1) * s.stride :=
    Nat.mul_le_mul_right _ (by omega)
  unfold WlSurface.span at word stop
  have left := placed.left
  have columns := toInt_le fb.width
  have wide : fb.width.toInt < 2 ^ 31 := BitVec.toInt_lt
  have column : FitsI32 (s.x + col) := by
    unfold FitsI32
    omega
  simp only [compositePixel, clean_bind, clean_u32, clean_i32, clean_ite, clean_pure]
  refine ⟨by omega, by omega, by omega, column, ?_⟩
  by_cases hidden : s.x + col < 0 ∨ fb.width.toInt ≤ s.x + col
  · rw [if_pos hidden]
    trivial
  rw [if_neg hidden]
  have shown : (s.x + col).toNat < fb.width.toNat := by omega
  have height := toInt_le fb.height
  have below : dstY.toNat < fb.height.toNat := by omega
  have dstLines : dstY.toNat * fb.stride.toNat ≤ (fb.height.toNat - 1) * fb.stride.toNat :=
    Nat.mul_le_mul_right _ (by omega)
  have write := pixel_inside fb shown below
  simp only [bpp] at frame write ⊢
  refine ⟨by omega, by omega, by omega, ?_⟩
  rw [clean_ensure]
  refine ⟨⟨r, isRegion, by omega, by omega⟩, ?_⟩
  split_ifs
  exact clean_ensure.mpr ⟨write, clean_modify.mpr trivial⟩

theorem clean_compositeRow (backed : Backed region s) (placed : Placed fb s) {row : Nat}
    (inRow : row < min s.h s.bufH) :
    Clean (compositeRow fb mem region s s.stride row) canvas fun _ _ => True := by
  have top := placed.top
  have bottom := placed.bottom
  have line : FitsI32 (s.y + row) := by
    unfold FitsI32
    omega
  simp only [compositeRow, clean_bind, clean_i32, clean_ite, clean_pure]
  refine ⟨line, ?_⟩
  split_ifs with hidden
  refine ⟨placed.right, (clean_upTo fun col inColumn canvas => iff_of_true ?_ trivial).mpr
    fun _ _ => trivial⟩
  exact clean_compositePixel backed placed (by omega) inRow inColumn

/-- A surface that is backed and placed is painted cleanly. -/
theorem clean_compositeSurface
    (shown : s.inUse = true → s.bufPtr ≠ 0 → Backed region s ∧ Placed fb s) :
    Clean (compositeSurface fb mem region s) canvas fun _ _ => True := by
  unfold compositeSurface
  rw [clean_ite]
  split_ifs with skipped
  · rw [clean_pure]
    trivial
  · obtain ⟨used, some⟩ := not_or.mp skipped
    obtain ⟨backed, placed⟩ := shown (by simpa using used) some
    rw [clean_bind, WlSurface.srcStride, if_neg backed.stride, clean_pure]
    exact (clean_upTo fun row inRow canvas => iff_of_true
      (clean_compositeRow backed placed inRow) trivial).mpr fun _ _ => trivial

theorem clean_composite {regions : SurfaceIdx → Option Region} {surfaces : SurfaceIdx → WlSurface}
    (shown : ∀ i, (surfaces i).inUse = true → (surfaces i).bufPtr ≠ 0 →
      Backed (regions i) (surfaces i) ∧ Placed fb (surfaces i)) :
    Clean (composite fb mem regions surfaces) canvas fun _ _ => True := by
  refine (clean_upTo fun i below canvas => iff_of_true ?_ trivial).mpr fun _ _ => trivial
  rw [dif_pos below]
  exact clean_compositeSurface (shown ⟨i, below⟩)

end Clean

end DBSos.Wayland
