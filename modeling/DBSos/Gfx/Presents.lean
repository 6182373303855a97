import DBSos.Gfx.Drawing

/-!
# What is presented

Drawing goes to the back buffer, and `present` copies the rows of the dirty interval to the
front. The interval grows by `display::mark_dirty` only: no call of the graphics layer marks
what it draws. A panic ends the run.
-/

namespace DBSos.Gfx

open DBSos.Lib DBSos.Wayland

/-- The colour of a call. -/
structure Colour where
  r : UInt8
  g : UInt8
  b : UInt8

/-- A call that draws; a pass of the compositor comes in a state of the Wayland calls. -/
inductive Draw where
  | setPixel (x y : BitVec 32) (colour : Colour)
  | fillRect (x y w h : BitVec 32) (colour : Colour)
  | fillRectAlpha (x y w h : BitVec 32) (colour : Colour) (alpha : UInt8)
  | clear (colour : Colour)
  | surfaces (session : { s : Session // s.Reached }) (mem : Buffer)

/-- The bytes of a pixel in a colour. -/
def solid (isBgr : Bool) (colour : Colour) : List UInt8 :=
  if isBgr then [colour.b, colour.g, colour.r] else [colour.r, colour.g, colour.b]

/-- A channel over the one below. -/
def mix (source below alpha : Nat) : UInt8 :=
  UInt8.ofNat ((source * alpha + below * (255 - alpha)) / 255)

/-- The bytes of a pixel in a colour over the pixel that is there. -/
def blended (isBgr : Bool) (colour : Colour) (alpha : UInt8) (canvas : Buffer) (off : Nat) :
    List UInt8 :=
  let r := mix colour.r.toNat (canvas (off + 2)).toNat alpha.toNat
  let g := mix colour.g.toNat (canvas (off + 1)).toNat alpha.toNat
  let b := mix colour.b.toNat (canvas off).toNat alpha.toNat
  if isBgr then [b, g, r] else [r, g, b]

/-- Pixels drawn one after another. -/
def paint (bytes : Buffer → Nat → List UInt8) (dots : List Dot) (canvas : Buffer) : Buffer :=
  dots.foldl (fun canvas d => canvas.put d.off (bytes canvas d.off)) canvas

namespace Draw

variable (fb : Framebuffer)

/-- The pixels that a call touches; `none` where it panics. -/
def touched : Draw → Option (List Dot)
  | .setPixel x y _ => Gfx.setPixel fb x.toNat y.toNat
  | .fillRect x y w h _ => Gfx.fillRect fb x.toNat y.toNat w.toNat h.toNat
  | .fillRectAlpha x y w h _ _ => Gfx.fillRectAlpha fb x.toNat y.toNat w.toNat h.toNat
  | .clear _ => Gfx.clear fb
  | .surfaces session mem => pass fb mem session.1.surfaces

/-- What a call makes of the back buffer. -/
def drawOn (draw : Draw) (canvas : Buffer) : Option Buffer :=
  match draw with
  | .setPixel _ _ colour | .fillRect _ _ _ _ colour | .clear colour =>
    (draw.touched fb).map fun dots => paint (fun _ _ => solid fb.isBgr colour) dots canvas
  | .fillRectAlpha _ _ _ _ colour alpha =>
    (draw.touched fb).map fun dots => paint (blended fb.isBgr colour alpha) dots canvas
  | .surfaces session mem =>
    match composite fb mem (fun _ => none) session.1.surfaces canvas with
    | ⟨_, .ok _, canvas⟩ => some canvas
    | ⟨_, .error _, _⟩ => none

/-- The rows that a call draws in. -/
def rows (draw : Draw) : List Nat := ((draw.touched fb).getD []).map (·.y)

/-- A call touches the pixels that the display's function would, where it would; a pass
touches each of its pixels where the display would. -/
def Agrees : Draw → Prop
  | .setPixel x y _ => Gfx.setPixel fb x.toNat y.toNat = some (drawPixel fb x.toNat y.toNat)
  | .fillRect x y w h _ => Gfx.fillRect fb x.toNat y.toNat w.toNat h.toNat =
      some (rect fb x.toNat y.toNat w.toNat h.toNat)
  | .fillRectAlpha x y w h _ _ => Gfx.fillRectAlpha fb x.toNat y.toNat w.toNat h.toNat =
      some (rect fb x.toNat y.toNat w.toNat h.toNat)
  | .clear _ => Gfx.clear fb = some (rect fb 0 0 fb.width.toNat fb.height.toNat)
  | .surfaces session mem => ∃ dots, pass fb mem session.1.surfaces = some dots ∧
      ∀ d ∈ dots, d.off = pixelOffset fb d.x d.y

/-- It does not touch a byte outside the framebuffer. -/
def Inside (draw : Draw) : Prop :=
  ∀ dots, draw.touched fb = some dots → ∀ d ∈ dots, d.off + bpp ≤ fb.bytes

/-- What a call that draws has to meet: nothing visible below the first row, and the numbers of
a pass fit. -/
def Guard : Draw → Prop
  | .setPixel x y _ => Aligned fb x.toNat y.toNat 1 1
  | .fillRect x y w h _ | .fillRectAlpha x y w h _ _ =>
    Aligned fb x.toNat y.toNat w.toNat h.toNat
  | .clear _ => Aligned fb 0 0 fb.width.toNat fb.height.toNat
  | .surfaces session mem =>
    (∀ i, session.1.Shown i → Computes fb (session.1.surfaces i)) ∧
    ∀ i x y, Drawn fb mem (session.1.surfaces i) x y → y = 0

variable {fb}

theorem agrees_iff (draw : Draw) : draw.Agrees fb ↔ draw.Guard fb := by
  cases draw with
  | setPixel x y colour => exact setPixel_agrees _ _
  | fillRect x y w h colour =>
    change Gfx.fillRect _ _ _ _ _ = _ ↔ _
    rw [fillRect_eq x.isLt y.isLt]
    exact fillRectAlpha_agrees x.isLt y.isLt _ _
  | fillRectAlpha x y w h colour alpha => exact fillRectAlpha_agrees x.isLt y.isLt _ _
  | clear colour =>
    change Gfx.fillRect _ _ _ _ _ = _ ↔ _
    rw [fillRect_eq (by decide) (by decide)]
    exact fillRectAlpha_agrees (by decide) (by decide) _ _
  | surfaces session mem => exact pass_agrees

/-- A call that agrees with the display stays inside the framebuffer. -/
theorem inside_of_agrees {draw : Draw} (agrees : draw.Agrees fb) : draw.Inside fb := by
  have placed {d : Dot} (onScreen : d.x < fb.width.toNat ∧ d.y < fb.height.toNat)
      (off : d.off = pixelOffset fb d.x d.y) : d.off + bpp ≤ fb.bytes :=
    off ▸ pixelOffset_inside onScreen.1 onScreen.2
  intro dots touched d member
  cases draw with
  | setPixel x y colour =>
    obtain rfl := Option.some.inj (touched.symm.trans agrees)
    exact placed (mem_drawPixel member).1 (mem_drawPixel member).2
  | fillRect x y w h colour | fillRectAlpha x y w h colour alpha | clear colour =>
    obtain rfl := Option.some.inj (touched.symm.trans agrees)
    exact placed (mem_rect member).1 (mem_rect member).2
  | surfaces session mem =>
    obtain ⟨dots', passed, agrees⟩ := agrees
    obtain rfl := Option.some.inj (touched.symm.trans passed)
    exact placed (mem_pass passed member) (agrees d member)

end Draw

/-! ## The screen -/

/-- The two buffers of the display, its dirty interval, and the rows drawn since the last
`present`. -/
structure Screen where
  fb : Framebuffer
  front : Buffer
  back : Buffer
  dirtyMinY : Int
  dirtyMaxY : Int
  drawn : List Nat
  halted : Bool

/-- What happens. -/
inductive Event where
  | draw (draw : Draw)
  | markDirty (y h : BitVec 32)
  | present

namespace Screen

variable (s : Screen)

/-- `reset_dirty`. -/
def resetDirty : Screen := { s with dirtyMinY := -1, dirtyMaxY := -1 }

/-- `mark_dirty`, which looks at the rows only; `none` where a sum overflows. -/
def markDirty (y h : BitVec 32) : Option Screen :=
  let height := s.fb.height.toInt
  if h = 0#32 ∨ height ≤ 0 then some s
  else
    (sumI32 y.toInt h.toInt).bind fun below => (sumI32 below (-1)).map fun last =>
      let y1 := min (max y.toInt 0) (height - 1)
      let y2 := min (max last 0) (height - 1)
      let top := if y2 < y1 then y2 else y1
      let bottom := if y2 < y1 then y1 else y2
      { s with
        dirtyMinY := if s.dirtyMinY < 0 ∨ top < s.dirtyMinY then top else s.dirtyMinY
        dirtyMaxY := if s.dirtyMaxY < 0 ∨ s.dirtyMaxY < bottom then bottom else s.dirtyMaxY }

/-- `value as usize`. -/
def asUsize (value : Int) : Nat := (value % 2 ^ 64).toNat

/-- `display::present`, also where the graphics layer calls it. -/
def present : Screen :=
  if s.dirtyMinY < 0 then s
  else
    let minY := asUsize (max s.dirtyMinY 0)
    let maxY := asUsize (min (s.dirtyMaxY + 1) s.fb.height.toInt)
    if maxY ≤ minY then s.resetDirty
    else
      let rowBytes := s.fb.stride.toNat * 4
      let start := minY * rowBytes
      let count := (maxY - minY) * rowBytes
      if start + count ≤ s.fb.bytes then
        { s.resetDirty with
          front := fun i => if start ≤ i ∧ i < start + count then s.back i else s.front i }
      else s.resetDirty

/-- Whatever happens. -/
def next : Event → Screen
  | .draw draw =>
    match draw.drawOn s.fb s.back with
    | none => { s with halted := true }
    | some back => { s with back := back, drawn := draw.rows s.fb ++ s.drawn }
  | .markDirty y h => (s.markDirty y h).getD { s with halted := true }
  | .present => { s.present with drawn := [] }

/-- One step of a run. -/
def Step (before : Screen) (event : Event) (after : Screen) : Prop :=
  before.halted = false ∧ after = before.next event

/-- The buffers agree in a row. -/
def SameRow (row : Nat) : Prop :=
  ∀ i, row * (s.fb.stride.toNat * 4) ≤ i → i < (row + 1) * (s.fb.stride.toNat * 4) →
    s.front i = s.back i

/-- What a step must do. -/
def Lawful (before : Screen) (event : Event) (after : Screen) : Prop :=
  match event with
  | .draw draw => draw.Agrees before.fb ∧ draw.Inside before.fb
  | .markDirty _ _ => True
  | .present => ∀ row ∈ before.drawn, after.SameRow row

/-- What a step has to meet: a drawn row is presented where it is marked as dirty, or where it
has not changed. -/
def Guard (s : Screen) : Event → Prop
  | .draw draw => draw.Guard s.fb
  | .markDirty _ _ => True
  | .present => ∀ row ∈ s.drawn, (s.dirtyMinY ≤ row ∧ row ≤ s.dirtyMaxY) ∨ s.SameRow row

/-- The dirty interval is empty, or on the screen. -/
def Inv : Prop :=
  (s.dirtyMinY = -1 ∧ s.dirtyMaxY = -1) ∨
    (0 ≤ s.dirtyMinY ∧ s.dirtyMinY ≤ s.dirtyMaxY ∧ s.dirtyMaxY < s.fb.height.toInt)

/-- Double buffering has come on: nothing is drawn and nothing is dirty. -/
structure Initial : Prop where
  drawn : s.drawn = []
  clean : s.dirtyMinY = -1 ∧ s.dirtyMaxY = -1
  same : s.front = s.back

variable {s}

theorem inv_markDirty (inv : s.Inv) {y h : BitVec 32} {after : Screen}
    (marked : s.markDirty y h = some after) : after.Inv := by
  unfold markDirty at marked
  dsimp only at marked
  split_ifs at marked with nothing
  · obtain rfl := Option.some.inj marked
    exact inv
  · obtain ⟨below, -, marked⟩ := Option.bind_eq_some_iff.mp marked
    obtain ⟨last, -, rfl⟩ := Option.map_eq_some_iff.mp marked
    refine .inr ?_
    unfold Inv at inv
    dsimp only
    split_ifs <;> omega

theorem asUsize_of_nonneg {value : Int} (above : 0 ≤ value) (word : value < 2 ^ 64) :
    asUsize value = value.toNat := by
  rw [asUsize, Int.emod_eq_of_lt above word]

@[simp] theorem present_fb : s.present.fb = s.fb := by
  unfold present resetDirty
  dsimp only
  split_ifs <;> rfl

@[simp] theorem present_back : s.present.back = s.back := by
  unfold present resetDirty
  dsimp only
  split_ifs <;> rfl

/-- The rows from one to another, as bytes. -/
def InRows (s : Screen) (top bottom i : Nat) : Prop :=
  top * (s.fb.stride.toNat * 4) ≤ i ∧ i < (bottom + 1) * (s.fb.stride.toNat * 4)

instance (top bottom i : Nat) : Decidable (s.InRows top bottom i) := instDecidableAnd

/-- `present` copies the rows of the interval and no other. -/
theorem present_front (inv : s.Inv) (i : Nat) :
    s.present.front i =
      if 0 ≤ s.dirtyMinY ∧ s.InRows s.dirtyMinY.toNat s.dirtyMaxY.toNat i then s.back i
      else s.front i := by
  unfold present
  rcases inv with ⟨clean, -⟩ | ⟨above, ordered, below⟩
  · rw [if_pos (by omega), if_neg fun dirty => by omega]
  have height := toInt_le s.fb.height
  have word : s.fb.height.toInt < 2 ^ 31 := BitVec.toInt_lt
  have minY : asUsize (max s.dirtyMinY 0) = s.dirtyMinY.toNat := by
    rw [max_eq_left above, asUsize_of_nonneg above (by omega)]
  have maxY : asUsize (min (s.dirtyMaxY + 1) s.fb.height.toInt) = s.dirtyMaxY.toNat + 1 := by
    rw [min_eq_left below, asUsize_of_nonneg (by omega) (by omega)]
    omega
  rw [if_neg (by omega)]
  dsimp only
  rw [minY, maxY, if_neg (by omega)]
  have start : s.dirtyMinY.toNat * (s.fb.stride.toNat * 4) +
      (s.dirtyMaxY.toNat + 1 - s.dirtyMinY.toNat) * (s.fb.stride.toNat * 4) =
      (s.dirtyMaxY.toNat + 1) * (s.fb.stride.toNat * 4) := by
    rw [← Nat.add_mul]
    congr 1
    omega
  have total : (s.dirtyMaxY.toNat + 1) * (s.fb.stride.toNat * 4) ≤ s.fb.bytes := by
    rw [Framebuffer.bytes, bpp, Nat.mul_right_comm, Nat.mul_comm]
    exact Nat.mul_le_mul_left _ (by omega)
  rw [start, if_pos total]
  simp only [InRows, above, true_and]

/-- A row is presented where it is in the interval, and stays as it is elsewhere. -/
theorem sameRow_present (inv : s.Inv) (row : Nat) :
    s.present.SameRow row ↔ (s.dirtyMinY ≤ row ∧ row ≤ s.dirtyMaxY) ∨ s.SameRow row := by
  unfold SameRow
  simp only [present_fb, present_back, present_front inv]
  by_cases dirty : s.dirtyMinY ≤ row ∧ row ≤ s.dirtyMaxY
  · refine iff_of_true (fun i first last => ?_) (.inl dirty)
    have top : s.dirtyMinY.toNat * (s.fb.stride.toNat * 4) ≤ row * (s.fb.stride.toNat * 4) :=
      Nat.mul_le_mul_right _ (by omega)
    have bottom : (row + 1) * (s.fb.stride.toNat * 4) ≤
        (s.dirtyMaxY.toNat + 1) * (s.fb.stride.toNat * 4) := Nat.mul_le_mul_right _ (by omega)
    have above : 0 ≤ s.dirtyMinY := by
      unfold Inv at inv
      omega
    exact if_pos ⟨above, by omega, by omega⟩
  · rw [or_iff_right dirty]
    refine forall_congr' fun i => imp_congr_right fun first => imp_congr_right fun last => ?_
    rw [if_neg]
    rintro ⟨above, from', to'⟩
    unfold Inv at inv
    rcases lt_or_ge row s.dirtyMinY.toNat with before | after
    · have top : (row + 1) * (s.fb.stride.toNat * 4) ≤
          s.dirtyMinY.toNat * (s.fb.stride.toNat * 4) := Nat.mul_le_mul_right _ before
      omega
    · have bottom : (s.dirtyMaxY.toNat + 1) * (s.fb.stride.toNat * 4) ≤
          row * (s.fb.stride.toNat * 4) := Nat.mul_le_mul_right _ (by omega)
      omega

theorem inv_next (inv : s.Inv) (event : Event) : (s.next event).Inv := by
  cases event with
  | draw draw =>
    rw [next]
    split <;> exact inv
  | markDirty y h =>
    rw [next]
    rcases marked : s.markDirty y h with _ | after
    · exact inv
    · exact inv_markDirty inv marked
  | present =>
    change s.present.Inv
    unfold present resetDirty
    dsimp only
    split_ifs
    · exact inv
    · exact .inl ⟨rfl, rfl⟩
    · exact .inl ⟨rfl, rfl⟩
    · exact .inl ⟨rfl, rfl⟩

theorem inv_step {event : Event} {after : Screen} (inv : s.Inv) (step : s.Step event after) :
    after.Inv := by
  obtain ⟨-, rfl⟩ := step
  exact inv_next inv event

theorem lawful_step {event : Event} {after : Screen} (inv : s.Inv)
    (step : s.Step event after) : s.Lawful event after ↔ s.Guard event := by
  obtain ⟨-, rfl⟩ := step
  cases event with
  | draw draw =>
    change draw.Agrees s.fb ∧ draw.Inside s.fb ↔ draw.Guard s.fb
    rw [← Draw.agrees_iff]
    exact and_iff_left_of_imp Draw.inside_of_agrees
  | markDirty y h => exact Iff.rfl
  | present =>
    change (∀ row ∈ s.drawn, s.present.SameRow row) ↔ _
    simp only [sameRow_present inv]
    exact Iff.rfl

/-- In every run, all that is drawn is drawn where the display would draw it, inside the
framebuffer, and every `present` brings the drawn rows to the front, exactly where every step
meets its condition. -/
theorem drawn_and_presented_iff {start final : Screen} {taken : List (Transition Screen Event)}
    (initial : start.Initial) (trace : Trace Step start taken final) :
    (∀ transition ∈ taken, transition.before.Lawful transition.label transition.after) ↔
      Guarded Guard taken :=
  trace.forall_iff_guarded Inv (.inl initial.clean) (fun _ _ _ inv _ => inv_step inv)
    fun _ _ _ => lawful_step

/-- A framebuffer of one column, all black. -/
def blank (height : BitVec 32) : Screen :=
  ⟨⟨1#32, height, 1#32, false, le_rfl⟩, Buffer.zero, Buffer.zero, -1, -1, [], false⟩

theorem initial_blank (height : BitVec 32) : (blank height).Initial := ⟨rfl, ⟨rfl, rfl⟩, rfl⟩

/-- A white pixel in the only column. -/
def white (y : BitVec 32) : Event := .draw (.setPixel 0#32 y ⟨255, 255, 255⟩)

/-- A pixel of the first row in a marked row. -/
def marked : Screen := (blank 1#32).next (.markDirty 0#32 1#32)

/-- The marked row is presented. -/
theorem presented_white :
    ((marked.next (white 0#32)).next .present).SameRow 0 := by
  have rows : (marked.next (white 0#32)).drawn = [0] := by decide +kernel
  have trace : Trace Step (blank 1#32)
      [⟨blank 1#32, .markDirty 0#32 1#32, marked⟩,
        ⟨marked, white 0#32, marked.next (white 0#32)⟩,
        ⟨marked.next (white 0#32), .present, (marked.next (white 0#32)).next .present⟩]
      ((marked.next (white 0#32)).next .present) :=
    .cons ⟨rfl, rfl⟩ <| .cons ⟨by decide +kernel, rfl⟩ <| .cons ⟨by decide +kernel, rfl⟩ .nil
  refine (drawn_and_presented_iff (initial_blank _) trace).mpr (fun transition member => ?_) _
    (.tail _ (.tail _ (.head _))) 0 (rows ▸ .head _)
  simp only [List.mem_cons, List.not_mem_nil, or_false] at member
  rcases member with rfl | rfl | rfl
  · trivial
  · intro px py column row
    have width : marked.fb.width.toNat = 1 := by decide +kernel
    have height : marked.fb.height.toNat = 1 := by decide +kernel
    have first : px < 1 := width ▸ column.2
    have top : py < 1 := height ▸ row.2
    omega
  · intro row drawn
    obtain rfl := List.mem_singleton.mp (rows ▸ drawn)
    exact .inl (by decide +kernel)

/-- A pixel of the second row is drawn in the first. -/
theorem misplaced_second_row :
    ¬ ∀ (start final : Screen) (taken : List (Transition Screen Event)), start.Initial →
      Trace Step start taken final →
        ∀ transition ∈ taken, transition.before.Lawful transition.label transition.after := by
  intro always
  have trace : Trace Step (blank 2#32) [⟨blank 2#32, white 1#32, (blank 2#32).next (white 1#32)⟩]
      ((blank 2#32).next (white 1#32)) := .cons ⟨rfl, rfl⟩ .nil
  have agrees : setPixel (blank 2#32).fb 0 1 = some (drawPixel (blank 2#32).fb 0 1) :=
    (always _ _ _ (initial_blank _) trace _ (.head _)).1
  exact absurd agrees (by decide +kernel)

end Screen

end DBSos.Gfx
