import DBSos.Wayland.HitTest

/-!
# Two drawing layers

`Framebuffer` of the graphics layer beside the functions of the display, on one framebuffer.
Both keep the stride in pixels; the display multiplies a whole offset by the four bytes of a
pixel, the graphics layer the column only. A call is the list of pixels that it touches, each
with the offset of its first byte.
-/

namespace DBSos.Gfx

open DBSos.Lib DBSos.Lib.Audit DBSos.Wayland

/-- A pixel that is touched. -/
structure Dot where
  x : Nat
  y : Nat
  off : Nat
deriving DecidableEq

section Layers

variable (fb : Framebuffer)

/-! ## The graphics layer -/

/-- `(y * self.stride + x * self.bpp) as usize`; `none` where `u32` overflows. -/
def offset (x y : Nat) : Option Nat :=
  if y * fb.stride.toNat + x * bpp < 2 ^ 32 then some (y * fb.stride.toNat + x * bpp) else none

/-- A pixel of the graphics layer. -/
def dot (x y : Nat) : Option (List Dot) := (offset fb x y).map fun off => [⟨x, y, off⟩]

/-- `set_pixel`. -/
def setPixel (x y : Nat) : Option (List Dot) :=
  if fb.width.toNat ≤ x ∨ fb.height.toNat ≤ y then some [] else dot fb x y

/-- `for d in 0..count`, with `start + d` in `u32`, up to a break at the limit. -/
def clipped (limit : Nat) (body : Nat → Option (List Dot)) : (start count : Nat) →
    Option (List Dot)
  | _, 0 => some []
  | p, count + 1 =>
    if 2 ^ 32 ≤ p then none
    else if limit ≤ p then some []
    else (body p).bind fun dots => (clipped limit body (p + 1) count).map (dots ++ ·)

/-- `fill_rect`. -/
def fillRect (x y w h : Nat) : Option (List Dot) :=
  clipped fb.height.toNat
    (fun py => clipped fb.width.toNat (fun px => setPixel fb px py) x w) y h

/-- `fill_rect_alpha`, which takes the offsets itself. -/
def fillRectAlpha (x y w h : Nat) : Option (List Dot) :=
  clipped fb.height.toNat (fun py => clipped fb.width.toNat (fun px => dot fb px py) x w) y h

/-- `clear`. -/
def clear : Option (List Dot) := fillRect fb 0 0 fb.width.toNat fb.height.toNat

/-- The pixel of a stroke of the compositor. -/
def strokeDot (stroke : Stroke) : Dot :=
  ⟨stroke.x.toNat, stroke.y.toNat, stroke.y.toNat * fb.stride.toNat + stroke.x.toNat * bpp⟩

/-- `wayland_composite`; `none` where it panics. -/
def pass (mem : Buffer) (surfaces : SurfaceIdx → WlSurface) : Option (List Dot) :=
  match (composite fb mem (fun _ => none) surfaces Buffer.zero).result with
  | .error _ => none
  | .ok _ => (strokes fb mem surfaces).map (List.map (strokeDot fb))

/-! ## The display -/

/-- `pixel_offset`. -/
def pixelOffset (x y : Nat) : Nat := (y * fb.stride.toNat + x) * 4

/-- `draw_pixel`. -/
def drawPixel (x y : Nat) : List Dot :=
  if fb.width.toNat ≤ x ∨ fb.height.toNat ≤ y then [] else [⟨x, y, pixelOffset fb x y⟩]

/-- `rect`. -/
def rect (x y w h : Nat) : List Dot :=
  if fb.width.toNat ≤ x ∨ fb.height.toNat ≤ y then []
  else
    (List.range (min h (fb.height.toNat - y))).flatMap fun dy =>
      (List.range (min w (fb.width.toNat - x))).map fun dx =>
        ⟨x + dx, y + dy, ((y + dy) * fb.stride.toNat + x) * 4 + dx * 4⟩

end Layers

/-! ## Loops -/

variable {fb : Framebuffer}

/-- The sums of a loop do not overflow: the break comes first. -/
theorem clipped_eq {limit : Nat} (word : limit < 2 ^ 32) (body : Nat → Option (List Dot))
    {start : Nat} (inWord : start < 2 ^ 32) (count : Nat) :
    clipped limit body start count =
      gather body (List.range' start (min count (limit - start))) := by
  induction count generalizing start with
  | zero => rw [clipped, Nat.zero_min, List.range'_zero, gather]
  | succ count ih =>
    rw [clipped, if_neg (not_le.mpr inWord)]
    by_cases out : limit ≤ start
    · rw [if_pos out, Nat.sub_eq_zero_of_le out, Nat.min_zero, List.range'_zero, gather]
    · have next : min (count + 1) (limit - start) =
          min count (limit - (start + 1)) + 1 := by omega
      rw [if_neg out, next, List.range'_succ, gather, ih (by omega)]

/-- The rows and columns of a rectangle that is clipped to the screen. -/
def rows (fb : Framebuffer) (y h : Nat) : List Nat :=
  List.range' y (min h (fb.height.toNat - y))
def columns (fb : Framebuffer) (x w : Nat) : List Nat :=
  List.range' x (min w (fb.width.toNat - x))

@[simp] theorem mem_rows {y h py : Nat} :
    py ∈ rows fb y h ↔ (y ≤ py ∧ py < y + h) ∧ py < fb.height.toNat := by
  rw [rows, List.mem_range'_1]
  omega

@[simp] theorem mem_columns {x w px : Nat} :
    px ∈ columns fb x w ↔ (x ≤ px ∧ px < x + w) ∧ px < fb.width.toNat := by
  rw [columns, List.mem_range'_1]
  omega

theorem fillRectAlpha_eq {x y : Nat} (left : x < 2 ^ 32) (top : y < 2 ^ 32) (w h : Nat) :
    fillRectAlpha fb x y w h =
      gather (fun py => gather (fun px => dot fb px py) (columns fb x w)) (rows fb y h) := by
  rw [fillRectAlpha, clipped_eq fb.height.isLt _ top]
  exact gather_congr fun py _ => clipped_eq fb.width.isLt _ left w

/-- The two fills touch the same pixels. -/
theorem fillRect_eq {x y : Nat} (left : x < 2 ^ 32) (top : y < 2 ^ 32) (w h : Nat) :
    fillRect fb x y w h = fillRectAlpha fb x y w h := by
  rw [fillRectAlpha_eq left top, fillRect, clipped_eq fb.height.isLt _ top]
  refine gather_congr fun py inRows => ?_
  rw [clipped_eq fb.width.isLt _ left]
  refine gather_congr fun px inColumns => ?_
  have row := (mem_rows.mp inRows).2
  have column := (mem_columns.mp inColumns).2
  rw [setPixel, if_neg (by omega)]

theorem rect_eq (x y w h : Nat) :
    rect fb x y w h = (rows fb y h).flatMap fun py =>
      (columns fb x w).map fun px => ⟨px, py, pixelOffset fb px py⟩ := by
  unfold rect
  split_ifs with outside
  · symm
    rw [List.flatMap_eq_nil_iff]
    intro py inRows
    rw [List.map_eq_nil_iff, List.eq_nil_iff_forall_not_mem]
    intro px inColumns
    have row := (mem_rows.mp inRows)
    have column := (mem_columns.mp inColumns)
    omega
  · rw [rows, columns, List.range'_eq_map_range, List.range'_eq_map_range, List.flatMap_map]
    refine congrArg (List.flatMap · _) (funext fun dy => ?_)
    rw [List.map_map]
    refine congrArg (List.map · _) (funext fun dx => ?_)
    rw [Function.comp, pixelOffset, ← Nat.add_mul, Nat.add_assoc]

/-! ## Where the layers agree -/

theorem offset_eq_some {x y off : Nat} : offset fb x y = some off ↔
    y * fb.stride.toNat + x * bpp < 2 ^ 32 ∧ y * fb.stride.toNat + x * bpp = off := by
  rw [offset, Option.ite_none_right_eq_some, Option.some.injEq]

/-- The offsets of a pixel on the screen agree in the first row only. -/
theorem dot_agrees {x y : Nat} (column : x < fb.width.toNat) :
    dot fb x y = some [⟨x, y, pixelOffset fb x y⟩] ↔ y = 0 ∧ x < 2 ^ 30 := by
  have stride : 0 < fb.stride.toNat := lt_of_lt_of_le (Nat.zero_lt_of_lt column) fb.rows
  rw [dot, Option.map_eq_some_iff]
  simp only [offset_eq_some, pixelOffset, bpp, List.cons.injEq, Dot.mk.injEq, and_true, true_and]
  constructor
  · rintro ⟨off, ⟨word, rfl⟩, same⟩
    have none : y * fb.stride.toNat = 0 := by omega
    rcases Nat.mul_eq_zero.mp none with top | empty
    · exact ⟨top, by omega⟩
    · omega
  · rintro ⟨rfl, narrow⟩
    exact ⟨_, ⟨by omega, rfl⟩, by omega⟩

/-- Every pixel of a rectangle that is on the screen is in the first row, and its offset fits. -/
def Aligned (fb : Framebuffer) (x y w h : Nat) : Prop :=
  ∀ px py, ((x ≤ px ∧ px < x + w) ∧ px < fb.width.toNat) →
    ((y ≤ py ∧ py < y + h) ∧ py < fb.height.toNat) → py = 0 ∧ px < 2 ^ 30

theorem setPixel_agrees (x y : Nat) :
    setPixel fb x y = some (drawPixel fb x y) ↔ Aligned fb x y 1 1 := by
  unfold setPixel drawPixel
  split_ifs with outside
  · refine iff_of_true rfl fun px py column row => ?_
    omega
  · rw [dot_agrees (by omega)]
    constructor
    · intro agrees px py column row
      omega
    · intro aligned
      exact aligned x y (by omega) (by omega)

theorem fillRectAlpha_agrees {x y : Nat} (left : x < 2 ^ 32) (top : y < 2 ^ 32) (w h : Nat) :
    fillRectAlpha fb x y w h = some (rect fb x y w h) ↔ Aligned fb x y w h := by
  rw [fillRectAlpha_eq left top, rect_eq]
  constructor
  · intro agrees px py column row
    obtain ⟨here, turned⟩ := gather_isSome.mp ⟨_, agrees⟩ py (mem_rows.mpr row)
    obtain ⟨dots, touched⟩ := gather_isSome.mp ⟨_, turned⟩ px (mem_columns.mpr column)
    obtain ⟨off, fits, rfl⟩ := Option.map_eq_some_iff.mp touched
    have member := (mem_gather agrees).mpr ⟨py, mem_rows.mpr row, here, turned,
      (mem_gather turned).mpr ⟨px, mem_columns.mpr column, _, touched, List.mem_singleton_self _⟩⟩
    obtain ⟨py', -, member⟩ := List.mem_flatMap.mp member
    obtain ⟨px', -, same⟩ := List.mem_map.mp member
    cases same
    exact (dot_agrees column.2).mp touched
  · intro aligned
    refine gather_eq_flatMap fun py inRows => ?_
    rw [List.map_eq_flatMap]
    refine gather_eq_flatMap fun px inColumns => ?_
    exact (dot_agrees (mem_columns.mp inColumns).2).mpr
      (aligned px py (mem_columns.mp inColumns) (mem_rows.mp inRows))

/-- The display stays in the framebuffer. -/
theorem pixelOffset_inside {x y : Nat} (column : x < fb.width.toNat) (row : y < fb.height.toNat) :
    pixelOffset fb x y + 4 ≤ fb.bytes := by
  have rows := fb.rows
  have lines : (y + 1) * fb.stride.toNat ≤ fb.height.toNat * fb.stride.toNat :=
    Nat.mul_le_mul_right _ row
  rw [Nat.add_mul, Nat.one_mul, Nat.mul_comm fb.height.toNat] at lines
  simp only [Framebuffer.bytes, bpp, pixelOffset]
  omega

/-- Every pixel of the display's calls is on the screen and in its place. -/
theorem mem_rect {x y w h : Nat} {d : Dot} (member : d ∈ rect fb x y w h) :
    (d.x < fb.width.toNat ∧ d.y < fb.height.toNat) ∧ d.off = pixelOffset fb d.x d.y := by
  rw [rect_eq] at member
  obtain ⟨py, inRows, member⟩ := List.mem_flatMap.mp member
  obtain ⟨px, inColumns, rfl⟩ := List.mem_map.mp member
  exact ⟨⟨(mem_columns.mp inColumns).2, (mem_rows.mp inRows).2⟩, rfl⟩

theorem mem_drawPixel {x y : Nat} {d : Dot} (member : d ∈ drawPixel fb x y) :
    (d.x < fb.width.toNat ∧ d.y < fb.height.toNat) ∧ d.off = pixelOffset fb d.x d.y := by
  unfold drawPixel at member
  split_ifs at member with outside
  · cases member
  · obtain rfl := List.mem_singleton.mp member
    exact ⟨by dsimp only; omega, rfl⟩

/-! ## The compositor -/

/-- What a pass computes for a surface fits its types. -/
structure Computes (fb : Framebuffer) (s : WlSurface) : Prop where
  stride : s.stride = 0 → s.bufW * 4 < 2 ^ 32
  line : ∀ row < min s.h s.bufH, FitsI32 (s.y + row)
  right : ∀ row < min s.h s.bufH, 0 ≤ s.y + row ∧ s.y + row < fb.height.toInt →
    FitsI32 (fb.width.toInt - s.x)
  source : ∀ row < min s.h s.bufH, 0 ≤ s.y + row ∧ s.y + row < fb.height.toInt →
    ∀ col < min (min s.w s.bufW) (fb.width.toInt - s.x).toNat,
      row * s.line + col * 4 < 2 ^ 32 ∧ FitsI32 (s.x + col)
  target : ∀ row < min s.h s.bufH, 0 ≤ s.y + row ∧ s.y + row < fb.height.toInt →
    ∀ col < min (min s.w s.bufW) (fb.width.toInt - s.x).toNat,
      0 ≤ s.x + col ∧ s.x + col < fb.width.toInt →
        (s.y + row).toNat * fb.stride.toNat + (s.x + col).toNat * bpp < 2 ^ 32

section Pass

variable {mem canvas : Buffer} {region : Option Region} {s : WlSurface} {srcStride row col : Nat}
  {dstY : Int}

@[simp] theorem returns_u32 {value : Nat} {post : Nat → Buffer → Prop} :
    Returns (u32 value) canvas post ↔ value < 2 ^ 32 ∧ post value canvas := by
  unfold u32
  split_ifs with fits
  · simp only [returns_pure, fits, true_and]
  · simp only [returns_stop, fits, false_and]

@[simp] theorem returns_i32 {value : Int} {post : Int → Buffer → Prop} :
    Returns (i32 value) canvas post ↔ FitsI32 value ∧ post value canvas := by
  unfold i32
  split_ifs with fits
  · simp only [returns_pure, fits, true_and]
  · simp only [returns_stop, fits, false_and]

theorem returns_compositePixel :
    Returns (compositePixel fb mem region s srcStride row dstY col) canvas (fun _ _ => True) ↔
      (row * srcStride + col * 4 < 2 ^ 32 ∧ FitsI32 (s.x + col)) ∧
      (0 ≤ s.x + col ∧ s.x + col < fb.width.toInt →
        dstY.toNat * fb.stride.toNat + (s.x + col).toNat * bpp < 2 ^ 32) := by
  simp only [compositePixel, returns_bind, returns_u32, returns_i32, returns_ite, returns_pure,
    returns_ensure, returns_modify]
  by_cases hidden : s.x + col < 0 ∨ fb.width.toInt ≤ s.x + col
  · simp only [if_pos hidden, and_true]
    constructor
    · rintro ⟨_, _, source, fits⟩
      exact ⟨⟨source, fits⟩, fun shown => by omega⟩
    · rintro ⟨⟨source, fits⟩, _⟩
      exact ⟨by omega, by omega, source, fits⟩
  · simp only [if_neg hidden, ite_self, and_true]
    constructor
    · rintro ⟨_, _, source, fits, _, _, target⟩
      exact ⟨⟨source, fits⟩, fun _ => target⟩
    · rintro ⟨⟨source, fits⟩, target⟩
      have target := target (by omega)
      exact ⟨by omega, by omega, source, fits, by omega, by omega, target⟩

theorem returns_compositeRow :
    Returns (compositeRow fb mem region s srcStride row) canvas (fun _ _ => True) ↔
      FitsI32 (s.y + row) ∧ (0 ≤ s.y + row ∧ s.y + row < fb.height.toInt →
        FitsI32 (fb.width.toInt - s.x) ∧
        ∀ col < min (min s.w s.bufW) (fb.width.toInt - s.x).toNat,
          (row * srcStride + col * 4 < 2 ^ 32 ∧ FitsI32 (s.x + col)) ∧
          (0 ≤ s.x + col ∧ s.x + col < fb.width.toInt →
            (s.y + row).toNat * fb.stride.toNat + (s.x + col).toNat * bpp < 2 ^ 32)) := by
  simp only [compositeRow, returns_bind, returns_i32, returns_ite, returns_pure,
    returns_upTo fun col _ canvas => returns_compositePixel]
  by_cases hidden : s.y + row < 0 ∨ fb.height.toInt ≤ s.y + row
  · rw [if_pos hidden, and_true]
    exact (and_iff_left fun shown => by omega).symm
  · rw [if_neg hidden, imp_iff_right (by omega : _ ∧ _)]

theorem returns_compositeSurface :
    Returns (compositeSurface fb mem region s) canvas (fun _ _ => True) ↔
      (s.inUse = true ∧ s.bufPtr ≠ 0 → Computes fb s) := by
  unfold compositeSurface
  rw [returns_ite]
  split_ifs with skipped
  · rw [returns_pure]
    refine iff_of_true trivial fun shown => ?_
    rcases skipped with unused | nowhere
    · exact absurd (unused.symm.trans shown.1) Bool.false_ne_true
    · exact absurd nowhere shown.2
  obtain ⟨used, some⟩ := not_or.mp skipped
  rw [imp_iff_right ⟨by simpa using used, some⟩, returns_bind]
  have stride : Returns s.srcStride canvas (fun srcStride canvas =>
      Returns (upTo (compositeRow fb mem region s srcStride) (min s.h s.bufH)) canvas
        fun _ _ => True) ↔ (s.stride = 0 → s.bufW * 4 < 2 ^ 32) ∧
      Returns (upTo (compositeRow fb mem region s s.line) (min s.h s.bufH)) canvas
        fun _ _ => True := by
    unfold WlSurface.srcStride WlSurface.line
    rw [returns_ite]
    split_ifs with zero
    · rw [returns_u32, imp_iff_right zero]
    · rw [returns_pure, and_iff_right (absurd · zero)]
  rw [stride, returns_upTo fun row _ canvas => returns_compositeRow]
  constructor
  · rintro ⟨stride, all⟩
    exact ⟨stride, fun row inRows => (all row inRows).1,
      fun row inRows shown => ((all row inRows).2 shown).1,
      fun row inRows shown col inRow => (((all row inRows).2 shown).2 col inRow).1,
      fun row inRows shown col inRow => (((all row inRows).2 shown).2 col inRow).2⟩
  · rintro ⟨stride, line, right, source, target⟩
    exact ⟨stride, fun row inRows => ⟨line row inRows, fun shown => ⟨right row inRows shown,
      fun col inRow => ⟨source row inRows shown col inRow, target row inRows shown col inRow⟩⟩⟩⟩

/-- A pass comes to its end exactly where all that it computes fits. -/
theorem returns_composite {regions : SurfaceIdx → Option Region}
    {surfaces : SurfaceIdx → WlSurface} :
    Returns (composite fb mem regions surfaces) canvas (fun _ _ => True) ↔
      ∀ i, (surfaces i).inUse = true ∧ (surfaces i).bufPtr ≠ 0 → Computes fb (surfaces i) := by
  unfold composite
  have turn (i : Nat) (below : i < 16) (canvas : Buffer) : Returns (if bound : i < 16 then
      compositeSurface fb mem (regions ⟨i, bound⟩) (surfaces ⟨i, bound⟩) else pure ()) canvas
      (fun _ _ => True) ↔ ∀ bound : i < 16, (surfaces ⟨i, bound⟩).inUse = true ∧
        (surfaces ⟨i, bound⟩).bufPtr ≠ 0 → Computes fb (surfaces ⟨i, bound⟩) := by
    rw [dif_pos below, returns_compositeSurface]
    exact ⟨fun holds _ => holds, fun all => all below⟩
  rw [returns_upTo turn]
  exact ⟨fun all i => all i.val i.isLt i.isLt, fun all i below bound => all ⟨i, bound⟩⟩

/-- A pass touches its pixels where the display does exactly where all that it computes fits
and no surface has a visible pixel below the first row. -/
theorem pass_agrees {surfaces : SurfaceIdx → WlSurface} :
    (∃ dots, pass fb mem surfaces = some dots ∧ ∀ d ∈ dots, d.off = pixelOffset fb d.x d.y) ↔
      (∀ i, (surfaces i).inUse = true ∧ (surfaces i).bufPtr ≠ 0 → Computes fb (surfaces i)) ∧
      ∀ i x y, Drawn fb mem (surfaces i) x y → y = 0 := by
  rw [← @returns_composite fb mem Buffer.zero (fun _ => none) surfaces]
  unfold pass
  constructor
  · rintro ⟨dots, touched, agrees⟩
    split at touched
    · cases touched
    next ended =>
    obtain ⟨l, drawn, rfl⟩ := Option.map_eq_some_iff.mp touched
    refine ⟨⟨_, ended, trivial⟩, fun i x y there => ?_⟩
    obtain ⟨stroke, member, ⟨rfl, rfl⟩, -⟩ := (mem_strokes drawn).mpr there
    have same := agrees _ (List.mem_map_of_mem member)
    obtain ⟨⟨left, right⟩, above, -⟩ := there.onScreen
    have columns := toInt_le fb.width
    have rows := fb.rows
    simp only [strokeDot, pixelOffset, bpp] at same
    have none : stroke.y.toNat * fb.stride.toNat = 0 := by omega
    rcases Nat.mul_eq_zero.mp none with top | empty <;> omega
  · rintro ⟨⟨_, ended, -⟩, first⟩
    obtain ⟨l, drawn, -⟩ := makes_composite _ _ ended
    rw [ended]
    refine ⟨_, Option.map_eq_some_iff.mpr ⟨l, drawn, rfl⟩, fun d inDots => ?_⟩
    obtain ⟨stroke, member, rfl⟩ := List.mem_map.mp inDots
    have there := (mem_strokes drawn).mp ⟨stroke, member, ⟨rfl, rfl⟩, rfl⟩
    have top : stroke.y.toNat = 0 := by
      rw [first _ _ _ there, Int.toNat_zero]
    simp only [strokeDot, pixelOffset, bpp, top]
    omega

/-- Every pixel of a pass is on the screen. -/
theorem mem_pass {surfaces : SurfaceIdx → WlSurface} {dots : List Dot} {d : Dot}
    (touched : pass fb mem surfaces = some dots) (inDots : d ∈ dots) :
    d.x < fb.width.toNat ∧ d.y < fb.height.toNat := by
  unfold pass at touched
  split at touched
  · cases touched
  obtain ⟨l, drawn, rfl⟩ := Option.map_eq_some_iff.mp touched
  obtain ⟨stroke, member, rfl⟩ := List.mem_map.mp inDots
  have there := (mem_strokes drawn).mp ⟨stroke, member, ⟨rfl, rfl⟩, rfl⟩
  obtain ⟨column, row⟩ := there.onScreen
  have columns := toInt_le fb.width
  have lines := toInt_le fb.height
  dsimp only [strokeDot]
  omega

end Pass

end DBSos.Gfx
