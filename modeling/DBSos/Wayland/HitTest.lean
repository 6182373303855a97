import DBSos.Wayland.Runs

/-!
# Which surface is at a point

`find_surface_at`, which the pointer events are routed by, and the strokes that a pass of the
compositor leaves on the screen. A stroke is a pixel that is not transparent, and a later
stroke lies on the earlier ones. Points have the coordinates that the compositor draws at.
-/

namespace DBSos.Wayland

open DBSos.Lib DBSos.Lib.Audit

/-- `value as i32`. -/
def asI32 (value : Nat) : Int := (BitVec.ofNat 32 value).toInt

/-- A sum of `i32`; `none` where it does not fit. -/
def sumI32 (a b : Int) : Option Int := if FitsI32 (a + b) then some (a + b) else none

/-- The test of `find_surface_at` for one surface; the sums are taken where it comes to them. -/
def WlSurface.hit (s : WlSurface) (px py : Int) : Option Bool :=
  if px < s.x then some false
  else
    (sumI32 s.x (asI32 s.w)).bind fun right =>
      if right ≤ px ∨ py < s.y then some false
      else (sumI32 s.y (asI32 s.h)).map fun bottom => py < bottom

/-- What `find_surface_at` does with the surface in a slot. -/
def WlSurface.test (s : WlSurface) (px py : Int) : Option (Visit Nat) :=
  if s.inUse = false ∨ s.bufPtr = 0 then some .next
  else (s.hit px py).map fun hit => if hit then .stop s.id else .next

/-- `find_surface_at`; `none` where a sum does not fit. -/
def Compositor.findSurfaceAt (w : Compositor) (px py : Int) : Option (Option Nat) :=
  scan (fun i => (w.surfaces i).test px py) (List.finRange 16)

/-! ## Strokes -/

/-- A pixel that is drawn, with the address of its colour. -/
structure Stroke where
  surface : SurfaceIdx
  x : Int
  y : Int
  source : Nat
deriving DecidableEq

section Strokes

variable (fb : Framebuffer) (mem : Buffer)

/-- What a stroke does to the framebuffer. -/
def Stroke.draw (canvas : Buffer) (stroke : Stroke) : Buffer :=
  let dst := stroke.y.toNat * fb.stride.toNat + stroke.x.toNat * bpp
  let colour := fun i => (mem (stroke.source + i)).toNat
  canvas.put dst (blend fb.isBgr canvas dst (colour 0) (colour 1) (colour 2) (colour 3))

/-- The stroke of one pixel, unless it is outside the screen or transparent. -/
def pixelStroke (i : SurfaceIdx) (s : WlSurface) (srcStride row : Nat) (dstY : Int) (col : Nat) :
    Option (List Stroke) :=
  (sumI32 s.x col).map fun dstPx =>
    let source := s.bufPtr + (row * srcStride + col * 4)
    if (dstPx < 0 ∨ fb.width.toInt ≤ dstPx) ∨ (mem (source + 3)).toNat = 0 then []
    else [⟨i, dstPx, dstY, source⟩]

/-- The strokes of one row. -/
def rowStrokes (i : SurfaceIdx) (s : WlSurface) (srcStride row : Nat) : Option (List Stroke) :=
  (sumI32 s.y row).bind fun dstY =>
    if dstY < 0 ∨ fb.height.toInt ≤ dstY then some []
    else
      (sumI32 fb.width.toInt (-s.x)).bind fun right =>
        gather (pixelStroke fb mem i s srcStride row dstY)
          (List.range (min (min s.w s.bufW) right.toNat))

/-- The bytes from a row of the buffer to the next. -/
def WlSurface.line (s : WlSurface) : Nat := if s.stride = 0 then s.bufW * 4 else s.stride

/-- The strokes of one surface. -/
def surfaceStrokes (i : SurfaceIdx) (s : WlSurface) : Option (List Stroke) :=
  if s.inUse = false ∨ s.bufPtr = 0 then some []
  else gather (rowStrokes fb mem i s s.line) (List.range (min s.h s.bufH))

/-- The strokes of `wayland_composite`, in the order in which they are drawn; `none` where a
sum of `i32` does not fit. -/
def strokes (surfaces : SurfaceIdx → WlSurface) : Option (List Stroke) :=
  gather (fun i => surfaceStrokes fb mem i (surfaces i)) (List.finRange 16)

variable {fb mem} {region : Option Region} {s : WlSurface} {i : SurfaceIdx}

theorem ends_u32 {value : Nat} {canvas : Buffer} {post : Nat → Buffer → Prop}
    (holds : post value canvas) : Ends (u32 value) canvas post := by
  unfold u32
  exact ends_ite (fun _ => ends_pure holds) fun _ => ends_stop

theorem ends_i32 {value : Int} {canvas : Buffer} {post : Int → Buffer → Prop}
    (holds : FitsI32 value → post value canvas) : Ends (i32 value) canvas post := by
  unfold i32
  exact ends_ite (fun fits => ends_pure (holds fits)) fun _ => ends_stop

theorem sumI32_eq_some {a b sum : Int} :
    sumI32 a b = some sum ↔ FitsI32 (a + b) ∧ a + b = sum := by
  rw [sumI32, Option.ite_none_right_eq_some, Option.some.injEq]

theorem sumI32_of_fits {a b : Int} (fits : FitsI32 (a + b)) : sumI32 a b = some (a + b) :=
  sumI32_eq_some.mpr ⟨fits, rfl⟩

theorem makes_compositePixel {srcStride row : Nat} {dstY : Int} {col : Nat} :
    Makes (Stroke.draw fb mem) (compositePixel fb mem region s srcStride row dstY col)
      (pixelStroke fb mem i s srcStride row dstY col) := by
  intro canvas
  unfold compositePixel
  refine ends_bind (ends_u32 (ends_bind (ends_u32 (ends_bind (ends_u32
    (ends_bind (ends_i32 fun fits => ?_)))))))
  rw [pixelStroke, sumI32_of_fits fits, Option.map_some]
  refine ends_ite (fun hidden => ?_) fun shown => ?_
  · rw [if_pos (.inl hidden)]
    exact makes_pure canvas
  refine ends_bind (ends_u32 (ends_bind (ends_u32 (ends_bind (ends_u32
    (ends_bind (ends_ensure (ends_ite (fun transparent => ?_) fun opaque' => ?_))))))))
  · rw [if_pos (.inr transparent)]
    exact makes_pure canvas
  · rw [if_neg (not_or.mpr ⟨shown, opaque'⟩)]
    exact ends_bind (ends_ensure (ends_modify ⟨_, rfl, rfl⟩))

theorem makes_compositeRow {srcStride row : Nat} :
    Makes (Stroke.draw fb mem) (compositeRow fb mem region s srcStride row)
      (rowStrokes fb mem i s srcStride row) := by
  intro canvas
  unfold compositeRow rowStrokes
  refine ends_bind (ends_i32 fun line => ?_)
  rw [sumI32_of_fits line, Option.bind_some]
  refine ends_ite (fun hidden => ?_) fun shown => ?_
  · rw [if_pos hidden]
    exact makes_pure canvas
  · rw [if_neg shown]
    refine ends_bind (ends_i32 fun right => ?_)
    rw [sumI32_of_fits (Int.sub_eq_add_neg ▸ right), Option.bind_some, ← Int.sub_eq_add_neg]
    exact makes_upTo (fun _ _ => makes_compositePixel) canvas

theorem makes_compositeSurface :
    Makes (Stroke.draw fb mem) (compositeSurface fb mem region s)
      (surfaceStrokes fb mem i s) := by
  intro canvas
  unfold compositeSurface surfaceStrokes
  refine ends_ite (fun skipped => ?_) fun drawn => ?_
  · rw [if_pos skipped]
    exact makes_pure canvas
  · rw [if_neg drawn]
    have line : Ends s.srcStride canvas fun srcStride after =>
        srcStride = s.line ∧ after = canvas := by
      unfold WlSurface.srcStride WlSurface.line
      refine ends_ite (fun zero => ?_) fun given => ?_
      · rw [if_pos zero]
        exact ends_u32 ⟨rfl, rfl⟩
      · rw [if_neg given]
        exact ends_pure ⟨rfl, rfl⟩
    refine ends_bind (ends_mono line ?_)
    rintro _ _ ⟨rfl, rfl⟩
    exact makes_upTo (fun _ _ => makes_compositeRow) _

/-- A pass of the compositor that comes to its end has drawn its strokes in their order. -/
theorem makes_composite {regions : SurfaceIdx → Option Region}
    {surfaces : SurfaceIdx → WlSurface} :
    Makes (Stroke.draw fb mem) (composite fb mem regions surfaces) (strokes fb mem surfaces) := by
  have turns : Makes (Stroke.draw fb mem) (composite fb mem regions surfaces)
      (gather (fun i => if bound : i < 16 then
        surfaceStrokes fb mem ⟨i, bound⟩ (surfaces ⟨i, bound⟩) else some []) (List.range 16)) := by
    refine makes_upTo fun i below => ?_
    rw [dif_pos below, dif_pos below]
    exact makes_compositeSurface
  exact turns

/-! ## What is seen -/

/-- A surface has a pixel at the point that is on the screen and not transparent. -/
structure Drawn (fb : Framebuffer) (mem : Buffer) (s : WlSurface) (x y : Int) : Prop where
  shown : s.inUse = true ∧ s.bufPtr ≠ 0
  column : s.x ≤ x ∧ x < s.x + (min s.w s.bufW : Nat)
  row : s.y ≤ y ∧ y < s.y + (min s.h s.bufH : Nat)
  onScreen : (0 ≤ x ∧ x < fb.width.toInt) ∧ 0 ≤ y ∧ y < fb.height.toInt
  visible :
    (mem (s.bufPtr + ((y - s.y).toNat * s.line + (x - s.x).toNat * 4) + 3)).toNat ≠ 0

variable {srcStride row col : Nat} {dstY x y : Int} {l : List Stroke} {stroke : Stroke}

theorem mem_pixelStroke (drawn : pixelStroke fb mem i s srcStride row dstY col = some l) :
    stroke ∈ l ↔
      stroke = ⟨i, s.x + col, dstY, s.bufPtr + (row * srcStride + col * 4)⟩ ∧
      (0 ≤ s.x + col ∧ s.x + col < fb.width.toInt) ∧
      (mem (s.bufPtr + (row * srcStride + col * 4) + 3)).toNat ≠ 0 := by
  obtain ⟨dstPx, sum, rfl⟩ := Option.map_eq_some_iff.mp drawn
  obtain ⟨-, rfl⟩ := sumI32_eq_some.mp sum
  dsimp only
  split_ifs with hidden
  · refine iff_of_false List.not_mem_nil ?_
    rintro ⟨-, ⟨left, right⟩, visible⟩
    rcases hidden with outside | transparent
    · omega
    · exact visible transparent
  · obtain ⟨inside, visible⟩ := not_or.mp hidden
    rw [List.mem_singleton]
    exact (and_iff_left ⟨by omega, visible⟩).symm

theorem mem_rowStrokes (drawn : rowStrokes fb mem i s srcStride row = some l) :
    stroke ∈ l ↔ ∃ col : Nat, col < min s.w s.bufW ∧
      stroke = ⟨i, s.x + col, s.y + row, s.bufPtr + (row * srcStride + col * 4)⟩ ∧
      ((0 ≤ s.x + col ∧ s.x + col < fb.width.toInt) ∧
        0 ≤ s.y + row ∧ s.y + row < fb.height.toInt) ∧
      (mem (s.bufPtr + (row * srcStride + col * 4) + 3)).toNat ≠ 0 := by
  obtain ⟨dstY, sum, drawn⟩ := Option.bind_eq_some_iff.mp drawn
  obtain ⟨-, rfl⟩ := sumI32_eq_some.mp sum
  split_ifs at drawn with hidden
  · cases drawn
    refine iff_of_false List.not_mem_nil ?_
    rintro ⟨col, -, -, ⟨-, above, below⟩, -⟩
    omega
  · obtain ⟨right, sum, drawn⟩ := Option.bind_eq_some_iff.mp drawn
    obtain ⟨-, rfl⟩ := sumI32_eq_some.mp sum
    rw [mem_gather drawn]
    constructor
    · rintro ⟨col, inRow, here, drawn, member⟩
      obtain ⟨same, onScreen, visible⟩ := (mem_pixelStroke drawn).mp member
      exact ⟨col, by rw [List.mem_range] at inRow; omega, same,
        ⟨onScreen, by omega⟩, visible⟩
    · rintro ⟨col, inRow, same, ⟨onScreen, -⟩, visible⟩
      have inTurns : col ∈ List.range (min (min s.w s.bufW) (fb.width.toInt + -s.x).toNat) := by
        rw [List.mem_range]
        omega
      obtain ⟨here, turned⟩ := gather_isSome.mp ⟨l, drawn⟩ col inTurns
      exact ⟨col, inTurns, here, turned, (mem_pixelStroke turned).mpr ⟨same, onScreen, visible⟩⟩

/-- The strokes of a surface are its pixels on the screen that are not transparent. -/
theorem mem_surfaceStrokes (drawn : surfaceStrokes fb mem i s = some l) :
    stroke ∈ l ↔
      stroke = ⟨i, stroke.x, stroke.y, s.bufPtr +
        ((stroke.y - s.y).toNat * s.line + (stroke.x - s.x).toNat * 4)⟩ ∧
      Drawn fb mem s stroke.x stroke.y := by
  unfold surfaceStrokes at drawn
  split_ifs at drawn with skipped
  · cases drawn
    refine iff_of_false List.not_mem_nil ?_
    rintro ⟨-, ⟨used, some⟩, -⟩
    rcases skipped with unused | nowhere
    · exact absurd (unused.symm.trans used) Bool.false_ne_true
    · exact some nowhere
  obtain ⟨used, some⟩ := not_or.mp skipped
  rw [mem_gather drawn]
  constructor
  · rintro ⟨row, inRows, here, turned, member⟩
    obtain ⟨col, inRow, rfl, onScreen, visible⟩ := (mem_rowStrokes turned).mp member
    have column : (s.x + col - s.x).toNat = col := by omega
    have line : (s.y + row - s.y).toNat = row := by omega
    rw [List.mem_range] at inRows
    refine ⟨by rw [column, line], ⟨by simpa using used, some⟩, ?_, ?_, onScreen, ?_⟩
    · exact ⟨by dsimp only; omega, by dsimp only; omega⟩
    · exact ⟨by dsimp only; omega, by dsimp only; omega⟩
    · dsimp only
      rw [column, line]
      exact visible
  · rintro ⟨same, there⟩
    obtain ⟨left, right⟩ := there.column
    obtain ⟨top, bottom⟩ := there.row
    have inTurns : (stroke.y - s.y).toNat ∈ List.range (min s.h s.bufH) := by
      rw [List.mem_range]
      omega
    have column : s.x + ((stroke.x - s.x).toNat : Nat) = stroke.x := by omega
    have line : s.y + ((stroke.y - s.y).toNat : Nat) = stroke.y := by omega
    obtain ⟨here, turned⟩ := gather_isSome.mp ⟨l, drawn⟩ _ inTurns
    refine ⟨_, inTurns, here, turned, (mem_rowStrokes turned).mpr
      ⟨(stroke.x - s.x).toNat, by omega, ?_, ?_, there.visible⟩⟩
    · rw [column, line]
      exact same
    · rw [column, line]
      exact there.onScreen

/-- The strokes of a pass are in the order of the surfaces. -/
theorem sorted_strokes {surfaces : SurfaceIdx → WlSurface}
    (drawn : strokes fb mem surfaces = some l) :
    l.Pairwise fun a b => a.surface ≤ b.surface := by
  have owned {i : SurfaceIdx} {here : List Stroke} {stroke : Stroke}
      (turned : surfaceStrokes fb mem i (surfaces i) = some here) (member : stroke ∈ here) :
      stroke.surface = i := by
    rw [((mem_surfaceStrokes turned).mp member).1]
  refine pairwise_gather drawn (fun i here turned => ?_)
    ((List.pairwise_lt_finRange 16).imp fun {i j} before here turned there turnedThere a inHere b
      inThere => ?_)
  · refine List.pairwise_of_forall_mem_list fun a inHere b inHere' => ?_
    rw [owned turned inHere, owned turned inHere']
  · rw [owned turned inHere, owned turnedThere inThere]
    exact before.le

theorem mem_strokes {surfaces : SurfaceIdx → WlSurface}
    (drawn : strokes fb mem surfaces = some l) :
    (∃ stroke ∈ l, (stroke.x = x ∧ stroke.y = y) ∧ stroke.surface = i) ↔
      Drawn fb mem (surfaces i) x y := by
  constructor
  · rintro ⟨stroke, member, ⟨rfl, rfl⟩, rfl⟩
    obtain ⟨j, -, here, turned, member⟩ := (mem_gather drawn).mp member
    obtain ⟨same, there⟩ := (mem_surfaceStrokes turned).mp member
    rw [same]
    exact there
  · intro there
    obtain ⟨here, turned⟩ := gather_isSome.mp ⟨l, drawn⟩ i (List.mem_finRange i)
    refine ⟨⟨i, x, y, (surfaces i).bufPtr + ((y - (surfaces i).y).toNat * (surfaces i).line +
      (x - (surfaces i).x).toNat * 4)⟩, ?_, ⟨rfl, rfl⟩, rfl⟩
    exact (mem_gather drawn).mpr ⟨i, List.mem_finRange i, here, turned,
      (mem_surfaceStrokes turned).mpr ⟨rfl, there⟩⟩

/-- The surface of the last stroke at a point. -/
def topmost (l : List Stroke) (x y : Int) : Option SurfaceIdx :=
  ((l.filter fun stroke => stroke.x = x ∧ stroke.y = y).getLast?).map (·.surface)

theorem topmost_eq_none : topmost l x y = none ↔
    ∀ i, ¬ ∃ stroke ∈ l, (stroke.x = x ∧ stroke.y = y) ∧ stroke.surface = i := by
  rw [topmost, Option.map_eq_none_iff, List.getLast?_eq_none_iff, List.filter_eq_nil_iff]
  simp only [decide_eq_true_eq, not_exists, not_and]
  exact ⟨fun all i stroke member there _ => all stroke member there.1 there.2,
    fun all stroke member left top => all _ stroke member ⟨left, top⟩ rfl⟩

/-- In strokes in the order of the surfaces, the last is of the last surface. -/
theorem topmost_eq_some (sorted : l.Pairwise fun a b => a.surface ≤ b.surface) :
    topmost l x y = some i ↔
      (∃ stroke ∈ l, (stroke.x = x ∧ stroke.y = y) ∧ stroke.surface = i) ∧
      ∀ j, (∃ stroke ∈ l, (stroke.x = x ∧ stroke.y = y) ∧ stroke.surface = j) → j ≤ i := by
  have sorted := sorted.filter fun stroke => decide (stroke.x = x ∧ stroke.y = y)
  have mem {stroke : Stroke} :
      (stroke ∈ l.filter fun stroke => decide (stroke.x = x ∧ stroke.y = y)) ↔
        stroke ∈ l ∧ stroke.x = x ∧ stroke.y = y := by
    rw [List.mem_filter, decide_eq_true_eq]
  unfold topmost
  generalize (l.filter fun stroke => decide (stroke.x = x ∧ stroke.y = y)) = here at sorted mem ⊢
  have last {i : SurfaceIdx} (isLast : here.getLast?.map (·.surface) = some i) :
      (∃ stroke ∈ here, stroke.surface = i) ∧ ∀ stroke ∈ here, stroke.surface ≤ i := by
    obtain ⟨top, ends, rfl⟩ := Option.map_eq_some_iff.mp isLast
    obtain ⟨below, rfl⟩ := List.getLast?_eq_some_iff.mp ends
    refine ⟨⟨top, by simp, rfl⟩, fun stroke member => ?_⟩
    rcases List.mem_append.mp member with before | same
    · exact (List.pairwise_append.mp sorted).2.2 stroke before top (List.mem_singleton.mpr rfl)
    · rw [List.mem_singleton.mp same]
  have exists_iff (j : SurfaceIdx) :
      (∃ stroke ∈ l, (stroke.x = x ∧ stroke.y = y) ∧ stroke.surface = j) ↔
        ∃ stroke ∈ here, stroke.surface = j := by
    simp only [mem, and_assoc]
  simp only [exists_iff]
  constructor
  · intro isLast
    obtain ⟨there, greatest⟩ := last isLast
    refine ⟨there, ?_⟩
    rintro j ⟨stroke, member, rfl⟩
    exact greatest stroke member
  · rintro ⟨⟨stroke, member, rfl⟩, greatest⟩
    rcases ends : here.getLast? with _ | top
    · rw [List.getLast?_eq_none_iff.mp ends] at member
      cases member
    · obtain ⟨there, most⟩ := last (show here.getLast?.map (·.surface) = some top.surface by
        rw [ends, Option.map_some])
      exact congrArg some (le_antisymm (greatest _ there) (most stroke member))

/-- The sums of a pass over a surface fit. -/
structure Sums (fb : Framebuffer) (s : WlSurface) : Prop where
  bottom : s.y + (min s.h s.bufH : Nat) ≤ 2 ^ 31
  right : ∀ row < min s.h s.bufH, 0 ≤ s.y + row → s.y + row < fb.height.toInt →
    FitsI32 (fb.width.toInt - s.x)

theorem exists_pixelStroke (placed : FitsI32 s.x)
    (inRow : col < min (min s.w s.bufW) (fb.width.toInt + -s.x).toNat) :
    ∃ l, pixelStroke fb mem i s srcStride row dstY col = some l := by
  have wide : fb.width.toInt < 2 ^ 31 := BitVec.toInt_lt
  have fits : FitsI32 (s.x + col) := by
    unfold FitsI32 at placed ⊢
    omega
  exact ⟨_, by rw [pixelStroke, sumI32_of_fits fits, Option.map_some]⟩

theorem exists_rowStrokes (placed : FitsI32 s.x) :
    (∃ l, rowStrokes fb mem i s srcStride row = some l) ↔
      FitsI32 (s.y + row) ∧ (0 ≤ s.y + row → s.y + row < fb.height.toInt →
        FitsI32 (fb.width.toInt - s.x)) := by
  constructor
  · rintro ⟨l, drawn⟩
    obtain ⟨dstY, sum, drawn⟩ := Option.bind_eq_some_iff.mp drawn
    obtain ⟨fits, rfl⟩ := sumI32_eq_some.mp sum
    refine ⟨fits, fun above below => ?_⟩
    rw [if_neg (by omega)] at drawn
    obtain ⟨right, sum, -⟩ := Option.bind_eq_some_iff.mp drawn
    rw [Int.sub_eq_add_neg]
    exact (sumI32_eq_some.mp sum).1
  · rintro ⟨fits, right⟩
    rw [rowStrokes, sumI32_of_fits fits, Option.bind_some]
    split_ifs with hidden
    · exact ⟨[], rfl⟩
    · rw [sumI32_of_fits (Int.sub_eq_add_neg ▸ right (by omega) (by omega)), Option.bind_some]
      exact gather_isSome.mpr fun col inTurns =>
        exists_pixelStroke placed (List.mem_range.mp inTurns)

theorem exists_surfaceStrokes (left : FitsI32 s.x) (top : FitsI32 s.y) :
    (∃ l, surfaceStrokes fb mem i s = some l) ↔
      (s.inUse = true ∧ s.bufPtr ≠ 0 → Sums fb s) := by
  unfold surfaceStrokes
  split_ifs with skipped
  · refine iff_of_true ⟨[], rfl⟩ fun shown => ?_
    rcases skipped with unused | nowhere
    · exact absurd (unused.symm.trans shown.1) Bool.false_ne_true
    · exact absurd nowhere shown.2
  obtain ⟨used, some⟩ := not_or.mp skipped
  rw [gather_isSome, imp_iff_right ⟨by simpa using used, some⟩]
  simp only [List.mem_range, exists_rowStrokes left]
  unfold FitsI32 at top
  constructor
  · intro all
    refine ⟨?_, fun row inRows => (all row inRows).2⟩
    by_cases blank : min s.h s.bufH = 0
    · omega
    · have last := (all (min s.h s.bufH - 1) (by omega)).1.2
      omega
  · intro sums row inRows
    have bottom := sums.bottom
    exact ⟨⟨by omega, by omega⟩, sums.right row inRows⟩

end Strokes

/-! ## The test -/

/-- The point is in the extent that is tested. -/
def WlSurface.Contains (s : WlSurface) (x y : Int) : Prop :=
  (s.x ≤ x ∧ x < s.x + s.w) ∧ s.y ≤ y ∧ y < s.y + s.h

/-- The sums of a test fit: those that it comes to. -/
def WlSurface.Testable (s : WlSurface) (x y : Int) : Prop :=
  s.x ≤ x → s.x + s.w < 2 ^ 31 ∧ (x < s.x + s.w → s.y ≤ y → s.y + s.h < 2 ^ 31)

theorem asI32_of_small {value : Nat} (small : value < 2 ^ 31) : asI32 value = value := by
  rw [asI32, BitVec.toInt_eq_toNat_of_lt (by rw [BitVec.toNat_ofNat]; omega),
    BitVec.toNat_ofNat, Nat.mod_eq_of_lt (by omega)]

/-- The position and the size of a surface are in the bounds of the calls. -/
structure WlSurface.Sized (s : WlSurface) : Prop where
  left : FitsI32 s.x
  top : FitsI32 s.y
  width : s.w ≤ 2048
  height : s.h ≤ 2048

theorem WlSurface.hit_cases {s : WlSurface} (sized : s.Sized) (x y : Int) :
    (s.hit x y = none ∧ ¬ s.Testable x y) ∨
      (s.hit x y = some false ∧ s.Testable x y ∧ ¬ s.Contains x y) ∨
      (s.hit x y = some true ∧ s.Testable x y ∧ s.Contains x y) := by
  obtain ⟨left, top, width, height⟩ := sized
  unfold FitsI32 at left top
  unfold WlSurface.hit WlSurface.Testable WlSurface.Contains
  rw [asI32_of_small (by omega), asI32_of_small (by omega)]
  by_cases before : x < s.x
  · rw [if_pos before]
    exact .inr (.inl ⟨rfl, fun here => absurd before (not_lt.mpr here), fun inside => by omega⟩)
  rw [if_neg before]
  by_cases right : s.x + s.w < 2 ^ 31
  swap
  · rw [sumI32, if_neg (by unfold FitsI32; omega), Option.bind_none]
    exact .inl ⟨rfl, fun fits => right (fits (by omega)).1⟩
  rw [sumI32_of_fits (by unfold FitsI32; omega), Option.bind_some]
  by_cases beside : s.x + s.w ≤ x ∨ y < s.y
  · rw [if_pos beside]
    exact .inr (.inl ⟨rfl, fun _ => ⟨right, fun inside above => by omega⟩,
      fun inside => by omega⟩)
  rw [if_neg beside]
  by_cases bottom : s.y + s.h < 2 ^ 31
  swap
  · rw [sumI32, if_neg (by unfold FitsI32; omega), Option.map_none]
    exact .inl ⟨rfl, fun fits => bottom ((fits (by omega)).2 (by omega) (by omega))⟩
  rw [sumI32_of_fits (by unfold FitsI32; omega), Option.map_some]
  by_cases below : y < s.y + s.h
  · rw [decide_eq_true below]
    exact .inr (.inr ⟨rfl, fun _ => ⟨right, fun _ _ => bottom⟩, by omega, by omega, below⟩)
  · rw [decide_eq_false below]
    exact .inr (.inl ⟨rfl, fun _ => ⟨right, fun _ _ => bottom⟩, fun inside => below inside.2.2⟩)

namespace Session

variable {s : Session}

/-- What the calls keep of the surfaces in use; their ids tell them apart. -/
structure Tidy (s : Session) : Prop where
  sized : ∀ i, (s.surfaces i).inUse = true → (s.surfaces i).Sized
  issued : ∀ i, (s.surfaces i).inUse = true → (s.surfaces i).id < s.compositor.nextId
  distinct : ∀ i j, (s.surfaces i).inUse = true → (s.surfaces j).inUse = true →
    (s.surfaces i).id = (s.surfaces j).id → i = j

theorem test_cases (tidy : s.Tidy) (x y : Int) (i : SurfaceIdx) :
    ((s.surfaces i).test x y = none ∧ ¬ (s.Shown i → (s.surfaces i).Testable x y)) ∨
      ((s.surfaces i).test x y = some .next ∧ (s.Shown i → (s.surfaces i).Testable x y) ∧
        ¬ (s.Shown i ∧ (s.surfaces i).Contains x y)) ∨
      ((s.surfaces i).test x y = some (.stop (s.surfaces i).id) ∧
        (s.Shown i → (s.surfaces i).Testable x y) ∧
        (s.Shown i ∧ (s.surfaces i).Contains x y)) := by
  unfold WlSurface.test
  split_ifs with skipped
  · have hidden : ¬ s.Shown i := by
      rintro ⟨used, some⟩
      rcases skipped with unused | nowhere
      · exact absurd (unused.symm.trans used) Bool.false_ne_true
      · exact some nowhere
    exact .inr (.inl ⟨rfl, fun shown => absurd shown hidden, fun inside => hidden inside.1⟩)
  obtain ⟨used, some⟩ := not_or.mp skipped
  have shown : s.Shown i := ⟨by simpa using used, some⟩
  rcases WlSurface.hit_cases (tidy.sized i shown.1) x y with
    ⟨hit, unsafe'⟩ | ⟨hit, safe, outside⟩ | ⟨hit, safe, inside⟩
  · rw [hit]
    exact .inl ⟨rfl, fun safe => unsafe' (safe shown)⟩
  · rw [hit]
    exact .inr (.inl ⟨rfl, fun _ => safe, fun inside => outside inside.2⟩)
  · rw [hit]
    exact .inr (.inr ⟨rfl, fun _ => safe, shown, inside⟩)

/-- The search stops at a surface that is shown around the point. -/
theorem findSurfaceAt_visits (tidy : s.Tidy) (x y : Int) :
    Visits (fun i => (s.surfaces i).test x y)
      (fun i => s.Shown i → (s.surfaces i).Testable x y)
      fun i => ¬ (s.Shown i ∧ (s.surfaces i).Contains x y) := by
  intro i
  rcases test_cases tidy x y i with panics | passes | ⟨stops, safe, inside⟩
  · exact .inl panics
  · exact .inr (.inl passes)
  · exact .inr (.inr ⟨_, stops, safe, fun outside => outside inside⟩)

/-! ## What the calls keep -/

theorem fitsI32_toInt (value : BitVec 32) : FitsI32 value.toInt :=
  ⟨BitVec.le_toInt value, BitVec.toInt_lt⟩

/-- The surfaces in use were, with the same ids. -/
theorem tidy_of_same (tidy : s.Tidy) {after : Session}
    (issued : s.compositor.nextId ≤ after.compositor.nextId)
    (same : ∀ i, (after.surfaces i).inUse = true → (s.surfaces i).inUse = true ∧
      (after.surfaces i).id = (s.surfaces i).id ∧ (after.surfaces i).Sized) : after.Tidy := by
  refine ⟨fun i used => (same i used).2.2, fun i used => ?_, fun i j used other equal => ?_⟩
  · obtain ⟨was, id, -⟩ := same i used
    exact id ▸ lt_of_lt_of_le (tidy.issued i was) issued
  · obtain ⟨was, id, -⟩ := same i used
    obtain ⟨was', id', -⟩ := same j other
    exact tidy.distinct i j was was' (id.symm.trans (equal.trans id'))

/-- A surface in use that changes keeps its id. -/
theorem tidy_setSurface (tidy : s.Tidy) {compositor : Compositor} {i : SurfaceIdx}
    {surface : WlSurface} (attached : SurfaceIdx → Option PoolIdx)
    (issued : compositor.nextId = s.compositor.nextId)
    (surfaces : compositor.surfaces = Function.update s.surfaces i surface)
    (same : surface.inUse = true → (s.surfaces i).inUse = true ∧
      surface.id = (s.surfaces i).id ∧ surface.Sized) :
    Tidy ⟨compositor, attached, s.halted⟩ := by
  refine tidy_of_same tidy issued.ge fun j used => ?_
  change (compositor.surfaces j).inUse = true at used
  change _ ∧ (compositor.surfaces j).id = _ ∧ (compositor.surfaces j).Sized
  rw [surfaces] at used ⊢
  by_cases changed : j = i
  · subst changed
    rw [Function.update_self] at used ⊢
    exact same used
  · rw [Function.update_of_ne changed] at used ⊢
    exact ⟨used, rfl, tidy.sized j used⟩

theorem tidy_surfaceCreate (tidy : s.Tidy) {uid : Nat} {x y : Int} {width height : Nat}
    (placed : FitsI32 x ∧ FitsI32 y) (sized : width ≤ 2048 ∧ height ≤ 2048)
    {result : Option Nat × Compositor}
    (created : s.compositor.surfaceCreate uid x y width height = some result) :
    (s.with' result.2).Tidy := by
  unfold Compositor.surfaceCreate at created
  split_ifs at created with limited
  · obtain rfl := Option.some.inj created
    exact tidy
  unfold Compositor.wlSurfaceCreate at created
  by_cases full : 16 ≤ s.compositor.surfaceCount
  · rw [if_pos full] at created
    obtain rfl := Option.some.inj created
    exact tidy
  rw [if_neg full] at created
  rcases free : (List.finRange 16).find? fun i => !(s.compositor.surfaces i).inUse with _ | slot
  · rw [free] at created
    obtain rfl := Option.some.inj created
    exact tidy
  rw [free] at created
  dsimp only at created
  split_ifs at created with fits
  obtain rfl := Option.some.inj created
  have self := @Function.update_self SurfaceIdx (fun _ => WlSurface) _ slot
    ⟨true, s.compositor.nextId, x, y, width, height, 0, 0, 0, 0, true⟩ s.surfaces
  have others {i : SurfaceIdx} (other : i ≠ slot) := @Function.update_of_ne SurfaceIdx
    (fun _ => WlSurface) _ i slot other
    ⟨true, s.compositor.nextId, x, y, width, height, 0, 0, 0, 0, true⟩ s.surfaces
  have new {i : SurfaceIdx} (other : i ≠ slot) (used : (s.surfaces i).inUse = true) :=
    ne_of_lt (tidy.issued i used)
  refine ⟨fun i used => ?_, fun i used => ?_, fun i j used used' same => ?_⟩
  all_goals
    simp only [with', surfaces, Compositor.setSurface] at *
    by_cases here : i = slot
  · rw [here, self]
    exact ⟨placed.1, placed.2, sized.1, sized.2⟩
  · rw [others here] at used ⊢
    exact tidy.sized i used
  · rw [here, self]
    exact Nat.lt_succ_self _
  · rw [others here] at used ⊢
    exact Nat.lt_succ_of_lt (tidy.issued i used)
  all_goals
    by_cases there : j = slot
  · rw [here, there]
  · rw [here, self, others there] at same
    rw [others there] at used'
    exact absurd same.symm (new there used')
  · rw [there, self, others here] at same
    rw [others here] at used
    exact absurd same (new here used)
  · rw [others here] at used same
    rw [others there] at used' same
    exact tidy.distinct i j used used' same

theorem tidy_next (tidy : s.Tidy) (event : Event) : (s.next event).Tidy := by
  have halt : Tidy { s with halted := true } := tidy_of_same tidy le_rfl fun i used =>
    ⟨used, rfl, tidy.sized i used⟩
  have found {id : Nat} {i : SurfaceIdx} (found : s.compositor.findSurface id = some i) :
      (s.surfaces i).inUse = true := by
    have holds := List.find?_some found
    simp only [decide_eq_true_eq] at holds
    exact holds.1
  cases event with
  | composite fb mem canvas =>
    rw [next]
    unfold settle
    split
    · exact tidy
    · exact halt
  | call call =>
    rw [next]
    cases call with
    | shmCreate size =>
      rw [Session.call]
      rcases s.shm.poolCreate size.toNat with _ | ⟨_, shm⟩
      · exact halt
      · exact tidy_of_same tidy le_rfl fun i used => ⟨used, rfl, tidy.sized i used⟩
    | shmDestroy idx =>
      exact tidy_of_same tidy le_rfl fun i used => ⟨used, rfl, tidy.sized i used⟩
    | surfaceCreate uid x y width height =>
      rw [Session.call]
      split_ifs with sized
      · rcases created : s.compositor.surfaceCreate uid (x.setWidth 32).toInt
          (y.setWidth 32).toInt (width.setWidth 32).toNat (height.setWidth 32).toNat with
          _ | result
        · exact halt
        · exact tidy_surfaceCreate tidy ⟨fitsI32_toInt _, fitsI32_toInt _⟩
            ⟨sized.2.2.1, sized.2.2.2⟩ created
      · exact tidy
    | surfaceDestroy id =>
      rw [Session.call, Compositor.surfaceDestroy]
      split
      · exact tidy
      · exact tidy_setSurface tidy s.attached rfl rfl fun used =>
          absurd used Bool.false_ne_true
    | surfaceAttach id pool offset wh =>
      rw [Session.call, surfaceAttach, Compositor.surfaceAttach]
      dsimp only
      split_ifs
      · exact tidy
      · exact halt
      rcases s.compositor.shm.poolPhys pool.toNat with _ | ⟨p, phys⟩
      · exact tidy
      dsimp only
      split_ifs
      · exact halt
      rcases at' : s.compositor.findSurface (id.setWidth 32).toNat with _ | i
      · exact tidy
      · exact tidy_setSurface tidy _ rfl rfl fun used =>
          ⟨used, rfl, (tidy.sized i (found at')).left, (tidy.sized i (found at')).top,
            (tidy.sized i (found at')).width, (tidy.sized i (found at')).height⟩
    | surfaceCommit id =>
      rw [Session.call, Compositor.surfaceCommit]
      split
      · exact tidy
      · next i at' =>
        exact tidy_setSurface tidy s.attached rfl rfl fun used =>
          ⟨used, rfl, (tidy.sized i (found at')).left, (tidy.sized i (found at')).top,
            (tidy.sized i (found at')).width, (tidy.sized i (found at')).height⟩
    | surfaceSetPos id x y =>
      rw [Session.call, Compositor.surfaceSetPos]
      split
      · exact tidy
      · next i at' =>
        exact tidy_setSurface tidy s.attached rfl rfl fun used =>
          ⟨used, rfl, fitsI32_toInt _, fitsI32_toInt _,
            (tidy.sized i (found at')).width, (tidy.sized i (found at')).height⟩

/-- The states of the runs. -/
def Reached (s : Session) : Prop :=
  ∃ start taken, start.Initial ∧ Trace Step start taken s

theorem tidy_of_reached (reached : s.Reached) : s.Tidy := by
  obtain ⟨start, taken, initial, trace⟩ := reached
  have unused {i : SurfaceIdx} (used : (start.surfaces i).inUse = true) : False :=
    Bool.false_ne_true ((initial.blank i).symm.trans used)
  refine trace.final_of_guarded Tidy
    ⟨fun _ used => (unused used).elim, fun _ used => (unused used).elim,
      fun _ _ used => (unused used).elim⟩
    (fun before event after tidy (_ : True) step => ?_) fun _ _ => trivial
  obtain ⟨-, rfl⟩ := step
  exact tidy_next tidy event

/-! ## The surface at a point -/

/-- The test finds the surface of the last stroke at the point, and no sum of `i32` overflows
in it or in the pass. -/
def Routed (s : Session) (fb : Framebuffer) (mem : Buffer) (x y : Int) : Prop :=
  ∃ drawn, strokes fb mem s.surfaces = some drawn ∧
    s.compositor.findSurfaceAt x y =
      some ((topmost drawn x y).map fun i => (s.surfaces i).id)

/-- The sums fit, and if the point is in the extent of a surface, the one in the first slot of
these is drawn there, and no other is. -/
structure Alone (s : Session) (fb : Framebuffer) (mem : Buffer) (x y : Int) : Prop where
  drawing : ∀ i, s.Shown i → Sums fb (s.surfaces i)
  testing : ∀ i, (∀ j < i, ¬ (s.Shown j ∧ (s.surfaces j).Contains x y)) →
    s.Shown i → (s.surfaces i).Testable x y
  first : ∀ i, (∀ j < i, ¬ (s.Shown j ∧ (s.surfaces j).Contains x y)) →
    s.Shown i ∧ (s.surfaces i).Contains x y →
      ∀ j, Drawn fb mem (s.surfaces j) x y ↔ j = i

theorem contains_of_drawn {fb : Framebuffer} {mem : Buffer} {x y : Int} {i : SurfaceIdx}
    (drawn : Drawn fb mem (s.surfaces i) x y) : s.Shown i ∧ (s.surfaces i).Contains x y := by
  obtain ⟨left, right⟩ := drawn.column
  obtain ⟨top, bottom⟩ := drawn.row
  exact ⟨drawn.shown, ⟨left, by omega⟩, top, by omega⟩

/-- In every state of every run, the surface found at a point is the one that the compositor
leaves visible there exactly where the first surface around the point is drawn there alone. -/
theorem routed_iff (reached : s.Reached) (fb : Framebuffer) (mem : Buffer) (x y : Int) :
    s.Routed fb mem x y ↔ s.Alone fb mem x y := by
  have tidy := tidy_of_reached reached
  have visits := findSurfaceAt_visits tidy x y
  have panics := visits.scan_ne_none_iff (List.finRange 16)
  have nowhere := visits.scan_eq_none_iff (List.finRange 16)
  have somewhere := visits.scan_eq_some_iff (List.finRange 16)
  simp only [comes_finRange, List.mem_finRange, forall_const] at panics nowhere somewhere
  change s.compositor.findSurfaceAt x y ≠ none ↔ _ at panics
  change s.compositor.findSurfaceAt x y = some none ↔ _ at nowhere
  change ∀ result, s.compositor.findSurfaceAt x y = some (some result) ↔ _ at somewhere
  constructor
  · rintro ⟨l, drawn, found⟩
    refine ⟨fun i shown => ?_, fun i first => ?_, fun i first inside j => ?_⟩
    · obtain ⟨here, turned⟩ := gather_isSome.mp ⟨l, drawn⟩ i (List.mem_finRange i)
      exact (exists_surfaceStrokes (tidy.sized i shown.1).left (tidy.sized i shown.1).top).mp
        ⟨here, turned⟩ shown
    · exact panics.mp (by rw [found]; exact Option.some_ne_none _) i first
    · have safe := panics.mp (by rw [found]; exact Option.some_ne_none _)
      have hit : s.compositor.findSurfaceAt x y = some (some (s.surfaces i).id) := by
        refine (somewhere _).mpr ⟨safe, i, first, ?_⟩
        rcases test_cases tidy x y i with
          ⟨-, unsafe'⟩ | ⟨-, -, outside⟩ | ⟨stops, -⟩
        · exact absurd (safe i first) unsafe'
        · exact absurd inside outside
        · exact stops
      obtain ⟨k, top, same⟩ := Option.map_eq_some_iff.mp
        (Option.some.inj (found.symm.trans hit))
      obtain ⟨there, greatest⟩ := (topmost_eq_some (sorted_strokes drawn)).mp top
      have there := (mem_strokes drawn).mp there
      obtain rfl := tidy.distinct k i there.shown.1 inside.1.1 same
      constructor
      · intro drawnToo
        have below := greatest j ((mem_strokes drawn).mpr drawnToo)
        refine le_antisymm below (not_lt.mp fun before => ?_)
        exact first j before (contains_of_drawn drawnToo)
      · rintro rfl
        exact there
  · rintro ⟨drawing, testing, alone⟩
    obtain ⟨l, drawn⟩ : ∃ l, strokes fb mem s.surfaces = some l := by
      refine gather_isSome.mpr fun i _ => ?_
      by_cases used : (s.surfaces i).inUse = true
      · exact (exists_surfaceStrokes (tidy.sized i used).left (tidy.sized i used).top).mpr
          (drawing i)
      · exact ⟨[], if_pos (.inl (by simpa using used))⟩
    refine ⟨l, drawn, ?_⟩
    rcases found : s.compositor.findSurfaceAt x y with _ | _ | id
    · exact absurd found (panics.mpr testing)
    · have outside := (nowhere.mp found).2
      rw [topmost_eq_none.mpr fun i there =>
        outside i (contains_of_drawn ((mem_strokes drawn).mp there)), Option.map_none]
    · obtain ⟨-, i, first, stop⟩ := (somewhere id).mp found
      obtain ⟨same, inside⟩ : (s.surfaces i).id = id ∧
          s.Shown i ∧ (s.surfaces i).Contains x y := by
        rcases test_cases tidy x y i with ⟨panic, -⟩ | ⟨passed, -⟩ | ⟨stops, -, inside⟩
        · exact absurd (panic.symm.trans stop) (by nofun)
        · exact absurd (passed.symm.trans stop) (by nofun)
        · cases stops.symm.trans stop
          exact ⟨rfl, inside⟩
      have alone := alone i first inside
      have top : topmost l x y = some i := by
        refine (topmost_eq_some (sorted_strokes drawn)).mpr
          ⟨(mem_strokes drawn).mpr ((alone i).mpr rfl), fun j there => ?_⟩
        exact ((alone j).mp ((mem_strokes drawn).mp there)).le
      rw [top, Option.map_some, same]

theorem reached_next (reached : s.Reached) (live : s.halted = false) (event : Event) :
    (s.next event).Reached := by
  obtain ⟨start, taken, initial, trace⟩ := reached
  exact ⟨start, _, initial, trace.snoc ⟨live, rfl⟩⟩

/-- One surface of one pixel, with its buffer. -/
def single : Session := surfaced.next (attachment 0#64)

theorem reached_single : single.Reached :=
  reached_next (reached_next (reached_next ⟨booted, [], initial_booted, .nil⟩ rfl _)
    (by decide +kernel) _) (by decide +kernel) _

/-- A surface that is drawn alone is found. -/
theorem routed_single : single.Routed onePixel (fun _ => 255) 0 0 := by
  have only : ∀ i, (single.surfaces i).inUse = true → i = 0 := by decide +kernel
  refine (routed_iff reached_single _ _ _ _).mpr ⟨fun i shown => ?_, fun i _ shown => ?_,
    fun i _ inside j => ?_⟩
  · obtain rfl := only i shown.1
    exact ⟨by decide +kernel, by decide +kernel⟩
  · obtain rfl := only i shown.1
    exact fun _ => by decide +kernel
  · obtain rfl := only i inside.1.1
    constructor
    · exact fun drawn => only j drawn.shown.1
    · rintro rfl
      exact ⟨by decide +kernel, by decide +kernel, by decide +kernel, by decide +kernel,
        by decide +kernel⟩

/-- Another surface on the same pixel. -/
def doubled : Session := single.next (.call (.surfaceCreate 0 0#64 0#64 1#64 1#64))

/-- Both show their buffers. -/
def overlaid : Session :=
  doubled.next (.call (.surfaceAttach 2#64 0#64 0#64 0x100000001#64))

/-- The lower of two surfaces is found. -/
theorem not_routed_overlaid :
    ¬ ∀ (s : Session) (fb : Framebuffer) (mem : Buffer) (x y : Int), s.Reached →
      (0 ≤ x ∧ x < fb.width.toInt) → (0 ≤ y ∧ y < fb.height.toInt) → s.Routed fb mem x y := by
  intro always
  have reached : overlaid.Reached :=
    reached_next (reached_next reached_single (by decide +kernel) _) (by decide +kernel) _
  obtain ⟨drawn, strokes, found⟩ :=
    always overlaid onePixel (fun _ => 255) 0 0 reached (by decide) (by decide)
  have both : Wayland.strokes onePixel (fun _ => 255) overlaid.surfaces =
      some [⟨0, 0, 0, 0x200000⟩, ⟨1, 0, 0, 0x200000⟩] := by decide +kernel
  have lower : overlaid.compositor.findSurfaceAt 0 0 = some (some 1) := by decide +kernel
  obtain rfl := Option.some.inj (both.symm.trans strokes)
  rw [lower] at found
  exact absurd found (by decide +kernel)

end Session

end DBSos.Wayland
