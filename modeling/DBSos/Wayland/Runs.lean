import DBSos.Lib.Trace
import DBSos.Syscall.Resources
import DBSos.Wayland.Composite

/-!
# Runs of the Wayland calls

Calls in any order, with passes of the compositor between them. A surface may read the pool
that was attached to it last, for as long as that pool lives. A panic ends the run.
-/

namespace DBSos.Wayland

open DBSos.Lib DBSos.Lib.Audit
open DBSos.Syscall.Machine (SurfaceSize attachWidth attachHeight)

/-- The state of the calls, and the live pool attached to each surface. -/
structure Session where
  compositor : Compositor
  attached : SurfaceIdx → Option PoolIdx
  halted : Bool

/-- What happens: a call, or a pass of the compositor. -/
inductive Event where
  | call (call : Call)
  | composite (fb : Framebuffer) (mem canvas : Buffer)

namespace Session

variable (s : Session)

/-- The pools. -/
def shm : Shm := s.compositor.shm

/-- The surfaces. -/
def surfaces : SurfaceIdx → WlSurface := s.compositor.surfaces

/-- A call on the surfaces only. -/
def with' (compositor : Compositor) : Session := { s with compositor := compositor }

/-- `SYS_WL_SURFACE_ATTACH`. -/
def surfaceAttach (id pool offset wh : BitVec 64) : Option Session :=
  let width := attachWidth wh
  let height := attachHeight wh
  if width = 0#32 ∨ height = 0#32 then some s
  else if 2 ^ 32 ≤ width.toNat * 4 then none
  else
    (s.compositor.surfaceAttach (id.setWidth 32).toNat pool.toNat (offset.setWidth 32).toNat
      width.toNat height.toNat (width * 4#32).toNat).map fun (found, compositor) =>
        match found with
        | none => s
        | some (i, p) => ⟨compositor, Function.update s.attached i (some p), s.halted⟩

/-- A call; `none` where it panics. -/
def call : Call → Option Session
  | .shmCreate size =>
    (s.shm.poolCreate size.toNat).map fun (_, shm) =>
      s.with' { s.compositor with shm := shm }
  | .shmDestroy idx =>
    some ⟨{ s.compositor with shm := (s.shm.poolDestroy idx.toNat).2 },
      fun i => (s.attached i).filter fun p => p.val ≠ idx.toNat, s.halted⟩
  | .surfaceCreate uid x y width height =>
    if SurfaceSize (width.setWidth 32) (height.setWidth 32) then
      (s.compositor.surfaceCreate uid (x.setWidth 32).toInt (y.setWidth 32).toInt
        (width.setWidth 32).toNat (height.setWidth 32).toNat).map fun (_, compositor) =>
          s.with' compositor
    else some s
  | .surfaceDestroy id => some (s.with' (s.compositor.surfaceDestroy (id.setWidth 32).toNat).2)
  | .surfaceAttach id pool offset wh => s.surfaceAttach id pool offset wh
  | .surfaceCommit id => some (s.with' (s.compositor.surfaceCommit (id.setWidth 32).toNat).2)
  | .surfaceSetPos id x y =>
    some (s.with' (s.compositor.surfaceSetPos (id.setWidth 32).toNat (x.setWidth 32).toInt
      (y.setWidth 32).toInt).2)

/-- The pool that a surface may read. -/
def region (i : SurfaceIdx) : Option Region :=
  (s.attached i).map fun p => ⟨(s.shm.pools p).phys, (s.shm.pools p).size⟩

/-- A pass of the compositor. -/
def paint (fb : Framebuffer) (mem : Buffer) : Paint Unit :=
  composite fb mem s.region s.surfaces

/-- A pass that overflows ends the run. -/
def settle : Except Overflow Unit → Session
  | .ok _ => s
  | .error _ => { s with halted := true }

/-- Whatever happens. -/
def next : Event → Session
  | .call call => (s.call call).getD { s with halted := true }
  | .composite fb mem canvas => s.settle (s.paint fb mem canvas).result

/-- One step of a run. -/
def Step (before : Session) (event : Event) (after : Session) : Prop :=
  before.halted = false ∧ after = before.next event

/-- What a step must not do wrong. -/
def Lawful (before : Session) (event : Event) (_ : Session) : Prop :=
  match event with
  | .call (.shmCreate size) =>
    ∃ result, before.shm.poolCreate size.toNat = some result ∧
      (result.1 = none → result.2.phys.alloc = before.shm.phys.alloc)
  | .call (.surfaceAttach id pool offset wh) => (before.surfaceAttach id pool offset wh).isSome
  | .call _ => True
  | .composite fb mem canvas => Clean (before.paint fb mem) canvas fun _ _ => True

/-- A surface that is shown. -/
def Shown (i : SurfaceIdx) : Prop := (s.surfaces i).inUse = true ∧ (s.surfaces i).bufPtr ≠ 0

/-- The part of the buffer that a surface shows is in the pool. -/
structure Fits (s : Session) (i : SurfaceIdx) (p : PoolIdx) (offset width height : Nat) :
    Prop where
  inside : offset + ((min (s.surfaces i).h height - 1) * (width * 4) +
    min (s.surfaces i).w width * 4) ≤ (s.shm.pools p).size
  word : (min (s.surfaces i).h height - 1) * (width * 4) +
    min (s.surfaces i).w width * 4 ≤ 2 ^ 32

/-- What a step has to meet. -/
def Guard (s : Session) : Event → Prop
  | .call (.shmCreate size) => s.shm.HasRoom size.toNat
  | .call (.surfaceAttach id pool offset wh) =>
    attachWidth wh ≠ 0#32 → attachHeight wh ≠ 0#32 →
      (attachWidth wh).toNat * 4 < 2 ^ 32 ∧
      ∀ p phys, s.shm.poolPhys pool.toNat = some (p, phys) →
        phys + (offset.setWidth 32).toNat < 2 ^ 64 ∧
        ∀ i, s.compositor.findSurface (id.setWidth 32).toNat = some i →
          s.Fits i p (offset.setWidth 32).toNat (attachWidth wh).toNat (attachHeight wh).toNat
  | .call _ => True
  | .composite fb _ _ => ∀ i, s.Shown i → s.attached i ≠ none ∧ Placed fb (s.surfaces i)

/-- What every step keeps: a surface that shows a live pool shows a part of it. -/
structure Inv (s : Session) : Prop where
  start : 0 < s.shm.phys.alloc.physStart
  live : ∀ i p, s.Shown i → s.attached i = some p →
    (s.shm.pools p).inUse = true ∧
      Backed (some ⟨(s.shm.pools p).phys, (s.shm.pools p).size⟩) (s.surfaces i)

/-! ## What one step keeps -/

variable {s}

/-- Two surfaces show the same part of the same buffer. -/
structure SameBuffer (a b : WlSurface) : Prop where
  bufPtr : b.bufPtr = a.bufPtr
  stride : b.stride = a.stride
  height : min b.h b.bufH = min a.h a.bufH
  width : min b.w b.bufW = min a.w a.bufW

theorem backed_of_same {region : Option Region} {a b : WlSurface} (same : SameBuffer a b)
    (backed : Backed region a) : Backed region b := by
  have span : b.span = a.span := by
    simp only [WlSurface.span, same.stride, same.height, same.width]
  refine ⟨?_, ?_, ?_⟩
  · rw [same.stride]
    exact backed.stride
  · rw [same.bufPtr, span]
    exact backed.inside
  · rw [span]
    exact backed.word

/-- A call that makes no surface show anything new. -/
theorem inv_surfaces (inv : s.Inv) {compositor : Compositor}
    (shm : compositor.shm = s.compositor.shm)
    (same : ∀ i, (s.with' compositor).Shown i →
      s.Shown i ∧ SameBuffer (s.surfaces i) (compositor.surfaces i)) :
    (s.with' compositor).Inv := by
  have pools : (s.with' compositor).shm = s.shm := shm
  refine ⟨?_, fun i p shown attached => ?_⟩
  · rw [pools]
    exact inv.start
  · obtain ⟨shown, same⟩ := same i shown
    obtain ⟨live, backed⟩ := inv.live i p shown attached
    rw [pools]
    exact ⟨live, backed_of_same same backed⟩

/-- The surface that changes shows nothing, or what it did. -/
theorem inv_setSurface (inv : s.Inv) {compositor : Compositor} {i : SurfaceIdx}
    {surface : WlSurface} (shm : compositor.shm = s.compositor.shm)
    (surfaces : compositor.surfaces = Function.update s.surfaces i surface)
    (same : surface.inUse = true → surface.bufPtr ≠ 0 →
      s.Shown i ∧ SameBuffer (s.surfaces i) surface) : (s.with' compositor).Inv := by
  refine inv_surfaces inv shm fun j shown => ?_
  have there : (s.with' compositor).surfaces j = compositor.surfaces j := rfl
  unfold Shown at shown
  rw [there] at shown
  rw [surfaces] at shown ⊢
  by_cases changed : j = i
  · subst changed
    rw [Function.update_self] at shown ⊢
    exact same shown.1 shown.2
  · rw [Function.update_of_ne changed] at shown ⊢
    exact ⟨shown, rfl, rfl, rfl, rfl⟩

theorem inv_shmCreate (inv : s.Inv) {size : Nat} {result : Option PoolIdx × Shm}
    (creates : s.shm.Creates size result) :
    (s.with' { s.compositor with shm := result.2 }).Inv := by
  cases creates with
  | failed => exact inv
  | @made slot after free start others =>
    refine ⟨?_, fun i p shown attached => ?_⟩
    · exact lt_of_lt_of_eq inv.start start.symm
    · have live := inv.live i p shown attached
      have apart : p ≠ slot := by
        rintro rfl
        rw [free] at live
        exact absurd live.1 Bool.false_ne_true
      change (after.pools p).inUse = true ∧
        Backed (some ⟨(after.pools p).phys, (after.pools p).size⟩) (s.surfaces i)
      rw [others p apart]
      exact live

theorem inv_shmDestroy (inv : s.Inv) (idx : Nat) :
    Inv ⟨{ s.compositor with shm := (s.shm.poolDestroy idx).2 },
      fun i => (s.attached i).filter fun p => p.val ≠ idx, s.halted⟩ := by
  have start : (s.shm.poolDestroy idx).2.phys.alloc.physStart = s.shm.phys.alloc.physStart := by
    rcases s.shm.poolDestroy_spec idx with same | ⟨slot, -, -, start, -⟩
    · rw [same]
    · exact start
  refine ⟨lt_of_lt_of_eq inv.start start.symm, fun i p shown attached => ?_⟩
  obtain ⟨attached, apart⟩ := Option.filter_eq_some_iff.mp attached
  have live := inv.live i p shown attached
  have pools : (s.shm.poolDestroy idx).2.pools p = s.shm.pools p := by
    rcases s.shm.poolDestroy_spec idx with same | ⟨slot, rfl, -, -, others⟩
    · rw [same]
    · exact others p fun same => by simp [same] at apart
  change ((s.shm.poolDestroy idx).2.pools p).inUse = true ∧
    Backed (some ⟨((s.shm.poolDestroy idx).2.pools p).phys,
      ((s.shm.poolDestroy idx).2.pools p).size⟩) (s.surfaces i)
  rw [pools]
  exact live

theorem inv_surfaceCreate (inv : s.Inv) {uid : Nat} {x y : Int} {width height : Nat}
    {result : Option Nat × Compositor}
    (created : s.compositor.surfaceCreate uid x y width height = some result) :
    (s.with' result.2).Inv := by
  unfold Compositor.surfaceCreate at created
  split_ifs at created with limited
  · obtain rfl := Option.some.inj created
    exact inv
  unfold Compositor.wlSurfaceCreate at created
  by_cases full : 16 ≤ s.compositor.surfaceCount
  · rw [if_pos full] at created
    obtain rfl := Option.some.inj created
    exact inv
  rw [if_neg full] at created
  rcases free : (List.finRange 16).find? fun i => !(s.compositor.surfaces i).inUse with _ | slot
  · rw [free] at created
    obtain rfl := Option.some.inj created
    exact inv
  · rw [free] at created
    dsimp only at created
    split_ifs at created with fits
    obtain rfl := Option.some.inj created
    exact inv_setSurface inv rfl rfl fun _ some => absurd rfl some

theorem inv_surfaceDestroy (inv : s.Inv) (id : Nat) :
    (s.with' (s.compositor.surfaceDestroy id).2).Inv := by
  unfold Compositor.surfaceDestroy
  split
  · exact inv
  · exact inv_setSurface inv rfl rfl fun used _ => absurd used Bool.false_ne_true

theorem inv_surfaceSetPos (inv : s.Inv) (id : Nat) (x y : Int) :
    (s.with' (s.compositor.surfaceSetPos id x y).2).Inv := by
  unfold Compositor.surfaceSetPos
  split
  · exact inv
  · exact inv_setSurface inv rfl rfl fun used some => ⟨⟨used, some⟩, rfl, rfl, rfl, rfl⟩

theorem inv_surfaceCommit (inv : s.Inv) (id : Nat) :
    (s.with' (s.compositor.surfaceCommit id).2).Inv := by
  unfold Compositor.surfaceCommit
  split
  · exact inv
  · exact inv_setSurface inv rfl rfl fun used some => ⟨⟨used, some⟩, rfl, rfl, rfl, rfl⟩

/-- A surface that comes to show a part of a live pool. -/
theorem inv_attached (inv : s.Inv) {compositor : Compositor} {i : SurfaceIdx} {p : PoolIdx}
    {surface : WlSurface} (shm : compositor.shm = s.compositor.shm)
    (surfaces : compositor.surfaces = Function.update s.surfaces i surface)
    (live : (s.shm.pools p).inUse = true)
    (backed : Backed (some ⟨(s.shm.pools p).phys, (s.shm.pools p).size⟩) surface) :
    Inv ⟨compositor, Function.update s.attached i (some p), s.halted⟩ := by
  refine ⟨?_, fun j q shown attached => ?_⟩
  · change 0 < compositor.shm.phys.alloc.physStart
    rw [shm]
    exact inv.start
  · change (compositor.shm.pools q).inUse = true ∧
      Backed (some ⟨(compositor.shm.pools q).phys, (compositor.shm.pools q).size⟩)
        (compositor.surfaces j)
    change (compositor.surfaces j).inUse = true ∧ (compositor.surfaces j).bufPtr ≠ 0 at shown
    dsimp only at attached
    rw [surfaces] at shown ⊢
    rw [shm]
    by_cases changed : j = i
    · subst changed
      rw [Function.update_self] at attached ⊢
      obtain rfl := Option.some.inj attached
      exact ⟨live, backed⟩
    · rw [Function.update_of_ne changed] at shown attached ⊢
      exact inv.live j q shown attached

/-- An attachment that the pool can hold. -/
theorem inv_surfaceAttach (inv : s.Inv) {id pool offset wh : BitVec 64}
    (guard : s.Guard (.call (.surfaceAttach id pool offset wh))) :
    ∃ after, s.surfaceAttach id pool offset wh = some after ∧ after.Inv := by
  unfold surfaceAttach
  dsimp only
  by_cases empty : attachWidth wh = 0#32 ∨ attachHeight wh = 0#32
  · exact ⟨s, if_pos empty, inv⟩
  rw [if_neg empty]
  obtain ⟨width, height⟩ := not_or.mp empty
  obtain ⟨stride, fits⟩ := guard width height
  rw [if_neg (not_le.mpr stride)]
  unfold Compositor.surfaceAttach
  rcases live : s.compositor.shm.poolPhys pool.toNat with _ | ⟨p, phys⟩
  · exact ⟨s, rfl, inv⟩
  obtain ⟨address, fits⟩ := fits p phys live
  obtain ⟨used, rfl⟩ := Shm.poolPhys_spec live
  dsimp only
  rw [if_neg (not_le.mpr address)]
  rcases found : s.compositor.findSurface (id.setWidth 32).toNat with _ | i
  · exact ⟨s, rfl, inv⟩
  refine ⟨_, rfl, inv_attached inv rfl rfl used ?_⟩
  have fits := fits i found
  have wide : (attachWidth wh).toNat ≠ 0 := fun zero => width (BitVec.eq_of_toNat_eq zero)
  have line : (attachWidth wh * 4#32).toNat = (attachWidth wh).toNat * 4 := by
    rw [BitVec.toNat_mul, BitVec.toNat_ofNat, Nat.mod_eq_of_lt (by omega)]
  refine ⟨?_, ⟨_, rfl, ?_⟩, ?_⟩
  · dsimp only
    omega
  · have inside := fits.inside
    unfold Region.Covers WlSurface.span
    dsimp only
    rw [line]
    constructor
    · exact Nat.le_add_right _ _
    · rw [Nat.add_assoc]
      exact Nat.add_le_add_left inside _
  · have word := fits.word
    unfold WlSurface.span
    dsimp only
    rw [line]
    exact word

/-- A pass over surfaces that show live pools. -/
theorem clean_paint (inv : s.Inv) {fb : Framebuffer} (mem canvas : Buffer)
    (placed : ∀ i, s.Shown i → s.attached i ≠ none ∧ Placed fb (s.surfaces i)) :
    Clean (s.paint fb mem) canvas fun _ _ => True := by
  refine clean_composite fun i used some => ?_
  obtain ⟨attached, placed⟩ := placed i ⟨used, some⟩
  obtain ⟨p, attached⟩ := Option.ne_none_iff_exists'.mp attached
  refine ⟨?_, placed⟩
  rw [region, attached]
  exact (inv.live i p ⟨used, some⟩ attached).2

/-! ## Runs -/

theorem guarded_step {before after : Session} {event : Event} (inv : before.Inv)
    (guard : before.Guard event) (step : before.Step event after) :
    after.Inv ∧ before.Lawful event after := by
  obtain ⟨-, rfl⟩ := step
  cases event with
  | composite fb mem canvas =>
    have clean := clean_paint inv mem canvas guard
    obtain ⟨_, ended⟩ := ok_of_clean clean
    rw [next, ended]
    exact ⟨inv, clean⟩
  | call call =>
    cases call with
    | shmCreate size =>
      obtain ⟨result, created, creates⟩ := Shm.poolCreate_creates inv.start guard
      refine ⟨?_, result, created, fun failed => ?_⟩
      · simp only [next, Session.call, created]
        exact inv_shmCreate inv creates
      · cases creates with
        | failed => rfl
        | made => cases failed
    | shmDestroy idx => exact ⟨inv_shmDestroy inv idx.toNat, trivial⟩
    | surfaceCreate uid x y width height =>
      refine ⟨?_, trivial⟩
      simp only [next, Session.call]
      split_ifs
      · rcases created : before.compositor.surfaceCreate uid (x.setWidth 32).toInt
          (y.setWidth 32).toInt (width.setWidth 32).toNat (height.setWidth 32).toNat with
          _ | result
        · exact ⟨inv.start, inv.live⟩
        · exact inv_surfaceCreate inv created
      · exact inv
    | surfaceDestroy id => exact ⟨inv_surfaceDestroy inv _, trivial⟩
    | surfaceAttach id pool offset wh =>
      obtain ⟨after, attached, kept⟩ := inv_surfaceAttach inv guard
      simp only [next, Session.call, Lawful, attached]
      exact ⟨kept, rfl⟩
    | surfaceCommit id => exact ⟨inv_surfaceCommit inv _, trivial⟩
    | surfaceSetPos id x y => exact ⟨inv_surfaceSetPos inv _ _ _, trivial⟩

/-- Nothing is shown, and the memory does not start at address 0. -/
structure Initial (s : Session) : Prop where
  start : 0 < s.shm.phys.alloc.physStart
  blank : ∀ i, (s.surfaces i).inUse = false

/-- In a run whose steps meet the guard, the compositor stays inside the live pools and the
framebuffer, nothing overflows, and a failed creation takes no page. -/
theorem lawful_of_guarded {start final : Session} {taken : List (Transition Session Event)}
    (initial : start.Initial) (trace : Trace Step start taken final)
    (guarded : Guarded Guard taken) :
    ∀ transition ∈ taken, transition.before.Lawful transition.label transition.after := by
  refine trace.forall_of_guarded Inv ⟨initial.start, fun i p shown _ => ?_⟩
    (fun before event after => guarded_step) guarded
  exact absurd ((initial.blank i).symm.trans shown.1) Bool.false_ne_true

/-- A machine of 64 free pages, without pools and surfaces. -/
def booted : Session where
  compositor :=
    { shm :=
        { phys := ⟨⟨0x100000, fun _ => 0#8, 0x200000, 64, 64, 0⟩, fun _ _ => 0#64⟩
          kernelPml4 := 0x1000
          pools := fun _ => ⟨0, 0, false⟩ }
      surfaces := fun _ => ⟨false, 0, 0, 0, 0, 0, 0, 0, 0, 0, false⟩
      nextId := 1
      surfaceCount := 0 }
  attached := fun _ => none
  halted := false

theorem initial_booted : booted.Initial := ⟨by decide, fun _ => rfl⟩

/-- A framebuffer of one pixel. -/
theorem onePixel_rows : (1#32).toNat ≤ (1#32).toNat := le_rfl

def onePixel : Framebuffer := ⟨1#32, 1#32, 1#32, false, onePixel_rows⟩

/-- A pool of one page and a surface of one pixel. -/
def pooled : Session := booted.next (.call (.shmCreate 4096#64))
def surfaced : Session := pooled.next (.call (.surfaceCreate 0 0#64 0#64 1#64 1#64))

/-- The pixel is attached at an offset of the pool. -/
def attachment (offset : BitVec 64) : Event :=
  .call (.surfaceAttach 1#64 0#64 offset 0x100000001#64)

/-- A pass over it. -/
def pass : Event := .composite onePixel (fun _ => 255) Buffer.zero

theorem trace_pixel {offset : BitVec 64} {shown : Session}
    (attached : surfaced.next (attachment offset) = shown) (live : shown.halted = false) :
    Trace Step booted [⟨booted, .call (.shmCreate 4096#64), pooled⟩,
      ⟨pooled, .call (.surfaceCreate 0 0#64 0#64 1#64 1#64), surfaced⟩,
      ⟨surfaced, attachment offset, shown⟩, ⟨shown, pass, shown.next pass⟩]
      (shown.next pass) :=
  .cons ⟨rfl, rfl⟩ <| .cons ⟨by decide +kernel, rfl⟩ <|
    .cons ⟨by decide +kernel, attached.symm⟩ <| .cons ⟨live, rfl⟩ .nil

/-- A pixel at the start of its pool is shown. -/
theorem lawful_pixel :
    Clean ((surfaced.next (attachment 0#64)).paint onePixel fun _ => 255) Buffer.zero
      fun _ _ => True := by
  have trace := @trace_pixel 0#64 _ rfl (by decide +kernel)
  have lawful := lawful_of_guarded initial_booted trace ?_ _
    (.tail _ (.tail _ (.tail _ (.head _))))
  · rw [pass, Lawful] at lawful
    exact lawful
  intro transition member
  simp only [List.mem_cons, List.not_mem_nil, or_false] at member
  rcases member with rfl | rfl | rfl | rfl
  · exact ⟨by decide, by decide +kernel, .inl (by decide +kernel)⟩
  · trivial
  · intro _ _
    refine ⟨by decide, fun p phys live => ?_⟩
    have pool : surfaced.shm.poolPhys (0#64).toNat = some (0, 0x200000) := by decide +kernel
    obtain ⟨rfl, rfl⟩ := Prod.mk.inj (Option.some.inj (pool.symm.trans live))
    refine ⟨by decide, fun i found => ?_⟩
    have surface : surfaced.compositor.findSurface ((1#64).setWidth 32).toNat = some 0 := by
      decide +kernel
    obtain rfl := Option.some.inj (surface.symm.trans found)
    exact ⟨by decide +kernel, by decide +kernel⟩
  · intro i shown
    have first : ∀ i, ((surfaced.next (attachment 0#64)).surfaces i).inUse = true → i = 0 := by
      decide +kernel
    obtain rfl := first i shown.1
    exact ⟨by decide +kernel, by decide +kernel, by decide +kernel, by decide +kernel,
      by decide +kernel, by decide⟩

/-- The compositor reads behind the pool. -/
theorem attach_unchecked :
    ¬ ∀ (start final : Session) (taken : List (Transition Session Event)), start.Initial →
      Trace Step start taken final →
        ∀ transition ∈ taken, transition.before.Lawful transition.label transition.after := by
  intro always
  have lawful := always booted _ _ initial_booted
    (@trace_pixel 4096#64 _ rfl (by decide +kernel)) _
    (.tail _ (.tail _ (.tail _ (.head _))))
  rw [pass, Lawful] at lawful
  have faults : ((surfaced.next (attachment 4096#64)).paint onePixel (fun _ => 255)
      Buffer.zero).faults = [.readOutside] := by decide +kernel
  rw [lawful.1] at faults
  cases faults

end Session

end DBSos.Wayland
