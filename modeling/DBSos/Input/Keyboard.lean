import DBSos.Lib.Packing
import DBSos.Lib.Trace

/-!
# The two decoders of the keyboard

`keyboard_handler` hands every byte of the keyboard first to the seat of the compositor and then to
the driver, and each keeps a flag of its own for the prefix 0xE0. The driver turns keys into
characters, which it hands to `write_buf`; the seat turns them into the key codes of evdev, which it
hands to `send_key`.
-/

namespace DBSos.Input

/-- `KEYMAP`: scancode to ASCII, without shift. -/
def keymap : List UInt8 :=
  [0, 0x1b, 0x31, 0x32, 0x33, 0x34, 0x35, 0x36, 0x37, 0x38, 0x39, 0x30, 0x2d, 0x3d, 0x08, 0x09,
    0x71, 0x77, 0x65, 0x72, 0x74, 0x79, 0x75, 0x69, 0x6f, 0x70, 0x5b, 0x5d, 0x0a, 0, 0x61, 0x73,
    0x64, 0x66, 0x67, 0x68, 0x6a, 0x6b, 0x6c, 0x3b, 0x27, 0x60, 0, 0x5c, 0x7a, 0x78, 0x63, 0x76,
    0x62, 0x6e, 0x6d, 0x2c, 0x2e, 0x2f, 0, 0x2a, 0, 0x20, 0, 0, 0, 0, 0, 0, 0, 0, 0, 0, 0, 0, 0,
    0x37, 0x38, 0x39, 0x2d, 0x34, 0x35, 0x36, 0x2b, 0x31, 0x32, 0x33, 0x30, 0x2e, 0, 0, 0, 0, 0,
    0, 0, 0, 0, 0, 0, 0, 0, 0, 0, 0, 0, 0, 0, 0, 0, 0, 0, 0, 0, 0, 0, 0, 0, 0, 0, 0, 0, 0, 0, 0,
    0, 0, 0, 0, 0, 0, 0, 0]

/-- `KEYMAP_SHIFT`. -/
def keymapShift : List UInt8 :=
  [0, 0x1b, 0x21, 0x40, 0x23, 0x24, 0x25, 0x5e, 0x26, 0x2a, 0x28, 0x29, 0x5f, 0x2b, 0x08, 0x09,
    0x51, 0x57, 0x45, 0x52, 0x54, 0x59, 0x55, 0x49, 0x4f, 0x50, 0x7b, 0x7d, 0x0a, 0, 0x41, 0x53,
    0x44, 0x46, 0x47, 0x48, 0x4a, 0x4b, 0x4c, 0x3a, 0x22, 0x7e, 0, 0x7c, 0x5a, 0x58, 0x43, 0x56,
    0x42, 0x4e, 0x4d, 0x3c, 0x3e, 0x3f, 0, 0x2a, 0, 0x20, 0, 0, 0, 0, 0, 0, 0, 0, 0, 0, 0, 0, 0,
    0x37, 0x38, 0x39, 0x2d, 0x34, 0x35, 0x36, 0x2b, 0x31, 0x32, 0x33, 0x30, 0x2e, 0, 0, 0, 0, 0,
    0, 0, 0, 0, 0, 0, 0, 0, 0, 0, 0, 0, 0, 0, 0, 0, 0, 0, 0, 0, 0, 0, 0, 0, 0, 0, 0, 0, 0, 0, 0,
    0, 0, 0, 0, 0, 0, 0, 0]

/-- `KEYMAP_RU`, in CP1251. -/
def keymapRu : List UInt8 :=
  [0, 0x1b, 0x31, 0x32, 0x33, 0x34, 0x35, 0x36, 0x37, 0x38, 0x39, 0x30, 0x2d, 0x3d, 0x08, 0x09,
    0xe9, 0xf6, 0xf3, 0xea, 0xe5, 0xed, 0xe3, 0xf8, 0xf9, 0xe7, 0xf5, 0xfa, 0x0a, 0, 0xf4, 0xfb,
    0xe2, 0xe0, 0xef, 0xf0, 0xee, 0xeb, 0xe4, 0xe6, 0xfd, 0xb8, 0, 0x5c, 0xff, 0xf7, 0xf1, 0xec,
    0xe8, 0xf2, 0xfc, 0xe1, 0xfe, 0x2e, 0, 0x2a, 0, 0x20, 0, 0, 0, 0, 0, 0, 0, 0, 0, 0, 0, 0, 0,
    0x37, 0x38, 0x39, 0x2d, 0x34, 0x35, 0x36, 0x2b, 0x31, 0x32, 0x33, 0x30, 0x2e, 0, 0, 0, 0, 0,
    0, 0, 0, 0, 0, 0, 0, 0, 0, 0, 0, 0, 0, 0, 0, 0, 0, 0, 0, 0, 0, 0, 0, 0, 0, 0, 0, 0, 0, 0, 0,
    0, 0, 0, 0, 0, 0, 0, 0]

/-- `KEYMAP_RU_SHIFT`. -/
def keymapRuShift : List UInt8 :=
  [0, 0x1b, 0x21, 0x22, 0x23, 0x3b, 0x25, 0x3a, 0x3f, 0x2a, 0x28, 0x29, 0x5f, 0x2b, 0x08, 0x09,
    0xc9, 0xd6, 0xd3, 0xca, 0xc5, 0xcd, 0xc3, 0xd8, 0xd9, 0xc7, 0xd5, 0xda, 0x0a, 0, 0xd4, 0xdb,
    0xc2, 0xc0, 0xcf, 0xd0, 0xce, 0xcb, 0xc4, 0xc6, 0xdd, 0xa8, 0, 0x7c, 0xdf, 0xd7, 0xd1, 0xcc,
    0xc8, 0xd2, 0xdc, 0xc1, 0xde, 0x2e, 0, 0x2a, 0, 0x20, 0, 0, 0, 0, 0, 0, 0, 0, 0, 0, 0, 0, 0,
    0x37, 0x38, 0x39, 0x2d, 0x34, 0x35, 0x36, 0x2b, 0x31, 0x32, 0x33, 0x30, 0x2e, 0, 0, 0, 0, 0,
    0, 0, 0, 0, 0, 0, 0, 0, 0, 0, 0, 0, 0, 0, 0, 0, 0, 0, 0, 0, 0, 0, 0, 0, 0, 0, 0, 0, 0, 0, 0,
    0, 0, 0, 0, 0, 0, 0, 0]

/-- The statics of the driver, up to the buffer of characters. -/
structure Ps2 where
  shift : Bool
  alt : Bool
  ctrl : Bool
  extended : Bool
  layoutRu : Bool
  caps : Bool
deriving DecidableEq

namespace Ps2

/-- `is_letter_pair`. -/
def isLetterPair (plain shifted : UInt8) : Bool :=
  if plain = 0 ∨ shifted = 0 then false
  else if 0x61 ≤ plain ∧ plain ≤ 0x7a ∧ 0x41 ≤ shifted ∧ shifted ≤ 0x5a then true
  else if 0xe0 ≤ plain ∧ 0xc0 ≤ shifted ∧ shifted ≤ 0xdf ∧ shifted = plain - 0x20 then true
  else (plain = 0xb8 ∧ shifted = 0xa8) ∨ (plain = 0xa8 ∧ shifted = 0xb8)

/-- The character of a key without a prefix. -/
def character (ru caps shift : Bool) (scancode : UInt8) : UInt8 :=
  let plain := (if ru then keymapRu else keymap).getD scancode.toNat 0
  let shifted := (if ru then keymapRuShift else keymapShift).getD scancode.toNat 0
  if caps ∧ isLetterPair plain shifted then if shift then plain else shifted
  else if shift then shifted else plain

/-- The special key of a key with a prefix: `KEY_UP` to `KEY_PAGE_DOWN`, or 0. -/
def specialKey (scancode : UInt8) : UInt8 :=
  if scancode ∈ [0x48, 0x50, 0x4B, 0x4D, 0x47, 0x4F, 0x53, 0x52, 0x49, 0x51] then 0x80 ||| scancode
  else 0

/-- What is handed to `write_buf`: nothing for 0. -/
def written (c : UInt8) : Option UInt8 := if c ≠ 0 then some c else none

/-- SHIFT and ALT together change the layout. -/
def switchedIf (s : Ps2) (other : Bool) : Bool := if other then !s.layoutRu else s.layoutRu

/-- `handle_scancode`, and the character that it writes. Where a code has come this far with its top
bit clear, the tests for RALT and RCTRL behind a prefix have been answered above. -/
def handleScancode (s : Ps2) (scancode : UInt8) : Ps2 × Option UInt8 :=
  if scancode = 0xE0 then ({ s with extended := true }, none)
  else if scancode = 0xE1 then ({ s with extended := false }, none)
  else if scancode = 0x2A ∨ scancode = 0x36 then
    ({ s with shift := true, layoutRu := s.switchedIf s.alt }, none)
  else if scancode = 0xAA ∨ scancode = 0xB6 then ({ s with shift := false }, none)
  else if scancode = 0x38 then ({ s with alt := true, layoutRu := s.switchedIf s.shift }, none)
  else if scancode = 0xB8 then ({ s with alt := false }, none)
  else if scancode = 0x1D then ({ s with ctrl := true }, none)
  else if scancode = 0x9D then ({ s with ctrl := false }, none)
  else if scancode &&& 0x80 ≠ 0 then ({ s with extended := false }, none)
  else if scancode = 0x3A then ({ s with caps := !s.caps }, none)
  else
    let after := { s with extended := false }
    if s.extended then
      if scancode = 0x38 then
        ({ after with alt := true, layoutRu := after.switchedIf s.shift }, none)
      else if scancode = 0xB8 then ({ after with alt := false }, none)
      else if scancode = 0x1D then ({ after with ctrl := true }, none)
      else if scancode = 0x9D then ({ after with ctrl := false }, none)
      else (after, written (specialKey scancode))
    else (after, written (character s.layoutRu s.caps s.shift scancode))

end Ps2

namespace Seat

/-- `SCANCODE_MAP`: the codes of evdev are those of the set up to KPDOT. -/
def scancodeMap : List Nat := List.range 84 ++ List.replicate 5 0

/-- The keys with a prefix, and their codes. -/
def extendedMap : List (UInt8 × Nat) :=
  [(0x48, 103), (0x50, 108), (0x4B, 105), (0x4D, 106), (0x47, 102), (0x4F, 107), (0x53, 111),
    (0x52, 110), (0x49, 104), (0x51, 109), (0x1D, 97), (0x38, 100), (0x35, 98), (0x5B, 125),
    (0x5C, 126), (0x5D, 127)]

/-- `scancode_to_keycode`. -/
def scancodeToKeycode (raw : UInt8) (extended : Bool) : Nat :=
  if extended then (extendedMap.lookup raw).getD 0 else scancodeMap.getD raw.toNat 0

/-- A call of `send_key`. -/
structure KeyEvent where
  key : Nat
  pressed : Bool
deriving DecidableEq

/-- The call of `send_key` for a key code: none for 0. -/
def sent (keycode : Nat) (pressed : Bool) : Option KeyEvent :=
  if keycode ≠ 0 then some ⟨keycode, pressed⟩ else none

/-- `forward_scancode` on `SEAT_EXT`. -/
def forwardScancode (ext : Bool) (scancode : UInt8) : Bool × Option KeyEvent :=
  if scancode = 0xE0 then (true, none)
  else if scancode = 0xE1 then (false, none)
  else
    let pressed := scancode &&& 0x80 = 0
    (if pressed then ext else false,
      sent (scancodeToKeycode (scancode &&& 0x7F) ext) (decide pressed))

end Seat

/-- The driver and the flag of the seat. -/
structure Keyboard where
  ps2 : Ps2
  seatExt : Bool
deriving DecidableEq

/-- What the decoders make of some bytes. -/
structure Decoded where
  characters : List UInt8
  events : List Seat.KeyEvent
deriving DecidableEq

namespace Keyboard

def boot : Keyboard where
  ps2 := ⟨false, false, false, false, false, false⟩
  seatExt := false

/-- `keyboard_handler` on a byte. -/
def handler (k : Keyboard) (scancode : UInt8) : Keyboard × Decoded :=
  let (seatExt, event) := Seat.forwardScancode k.seatExt scancode
  let (ps2, character) := k.ps2.handleScancode scancode
  (⟨ps2, seatExt⟩, ⟨character.toList, event.toList⟩)

/-- The bytes that come in, one interrupt each. -/
def handlers (k : Keyboard) : List UInt8 → Keyboard × Decoded
  | [] => (k, ⟨[], []⟩)
  | scancode :: rest =>
    let (k, first) := k.handler scancode
    let (k, later) := handlers k rest
    (k, ⟨first.characters ++ later.characters, first.events ++ later.events⟩)

end Keyboard

end DBSos.Input

/-!
## Strokes

A stroke makes or breaks a key. In scancode set 1 it is one byte, or 0xE0 and one byte, with the top
bit set in a break; no key has the codes 0x60 and 0x61, whose breaks would be the prefixes 0xE0 and
0xE1. The hands know which keys are down and whether the caps lock is on, and so what both decoders
should make of a stroke; the decoders keep to it as long as every stroke is plain.
-/

namespace DBSos.Input

open DBSos.Lib

/-- A key of the set. The fake shifts, 0x2A and 0x36 with a prefix, count as keys. -/
structure Key where
  extended : Bool
  code : UInt8
  isKey : code < 0x80 ∧ code ≠ 0x60 ∧ code ≠ 0x61
deriving DecidableEq

namespace Key

def leftShift : Key := ⟨false, 0x2A, by decide⟩
def rightShift : Key := ⟨false, 0x36, by decide⟩
def leftCtrl : Key := ⟨false, 0x1D, by decide⟩
def rightCtrl : Key := ⟨true, 0x1D, by decide⟩
def leftAlt : Key := ⟨false, 0x38, by decide⟩
def rightAlt : Key := ⟨true, 0x38, by decide⟩
def capsLock : Key := ⟨false, 0x3A, by decide⟩

/-- A key whose code is that of a modifier. -/
def Modifying (k : Key) : Prop := k.code ∈ [0x2A, 0x36, 0x1D, 0x38]

instance (k : Key) : Decidable k.Modifying := inferInstanceAs (Decidable (_ ∈ _))

end Key

/-- A key is made or broken. -/
structure Stroke where
  key : Key
  pressed : Bool
deriving DecidableEq

namespace Stroke

/-- The byte of the code. -/
def byte (stroke : Stroke) : UInt8 :=
  if stroke.pressed then stroke.key.code else stroke.key.code ||| 0x80

/-- The bytes of the stroke. -/
def bytes (stroke : Stroke) : List UInt8 :=
  if stroke.key.extended then [0xE0, stroke.byte] else [stroke.byte]

/-- The event that the seat owes: one for a key with a code. -/
def event (stroke : Stroke) : Option Seat.KeyEvent :=
  Seat.sent (Seat.scancodeToKeycode stroke.key.code stroke.key.extended) stroke.pressed

end Stroke

/-- The keys that are down, and the caps lock, which every make of its key turns. -/
structure Hands where
  down : Key → Bool
  caps : Bool

namespace Hands

def idle : Hands := ⟨fun _ => false, false⟩

def shift (h : Hands) : Bool := h.down .leftShift || h.down .rightShift
def ctrl (h : Hands) : Bool := h.down .leftCtrl || h.down .rightCtrl
def alt (h : Hands) : Bool := h.down .leftAlt || h.down .rightAlt

def after (h : Hands) (stroke : Stroke) : Hands where
  down := Function.update h.down stroke.key stroke.pressed
  caps := if stroke.key = .capsLock ∧ stroke.pressed then !h.caps else h.caps

/-- The character that the driver owes for a stroke, in its layout. -/
def character (h : Hands) (ru : Bool) (stroke : Stroke) : Option UInt8 :=
  if stroke.pressed ∧ ¬ stroke.key.Modifying ∧ stroke.key.code ≠ 0x3A then
    if stroke.key.extended then Ps2.written (Ps2.specialKey stroke.key.code)
    else Ps2.written (Ps2.character ru h.caps h.shift stroke.key.code)
  else none

end Hands

/-- The flags of the driver are those of the hands, and no prefix is left over. -/
structure Follows (s : Ps2) (h : Hands) : Prop where
  shift : s.shift = h.shift
  ctrl : s.ctrl = h.ctrl
  alt : s.alt = h.alt
  caps : s.caps = h.caps
  extended : s.extended = false

/-- The keyboard and the hands on it. -/
structure Typing where
  keyboard : Keyboard
  hands : Hands

namespace Typing

def boot : Typing := ⟨.boot, .idle⟩

/-- After a stroke. -/
def stroked (t : Typing) (stroke : Stroke) : Typing :=
  ⟨(t.keyboard.handlers stroke.bytes).1, t.hands.after stroke⟩

def step (t : Typing) (stroke : Stroke) (next : Typing) : Prop := t.stroked stroke = next

/-- The decoders make of a stroke what they owe, and the flags are right behind it. -/
structure Decodes (t : Typing) (stroke : Stroke) (next : Typing) : Prop where
  characters : (t.keyboard.handlers stroke.bytes).2.characters =
    (t.hands.character t.keyboard.ps2.layoutRu stroke).toList
  events : (t.keyboard.handlers stroke.bytes).2.events = stroke.event.toList
  follows : Follows next.keyboard.ps2 next.hands

/-- A stroke that the decoders are up to. -/
structure Plain (t : Typing) (stroke : Stroke) : Prop where
  /-- No modifier, fake shift or caps lock comes with a prefix. -/
  prefixed : stroke.key.extended → ¬ stroke.key.Modifying ∧
    ¬ (stroke.key.code = 0x3A ∧ stroke.pressed)
  /-- A shift is let go only when the other one is up. -/
  lastShift : stroke.pressed = false →
    (stroke.key = .leftShift → t.hands.down .rightShift = false) ∧
      (stroke.key = .rightShift → t.hands.down .leftShift = false)
  /-- With a prefix left over in the seat, a key without one has no code either way. -/
  silent : stroke.key.extended = false → t.keyboard.seatExt = true →
    Seat.scancodeToKeycode stroke.key.code true = 0 ∧
      Seat.scancodeToKeycode stroke.key.code false = 0

/-! ## One byte -/

/-- The byte of a make is neither a prefix nor a break; the byte of a break is no prefix, and holds
the code. -/
theorem key_bytes : ∀ code : UInt8, code < 0x80 ∧ code ≠ 0x60 ∧ code ≠ 0x61 →
    (code ≠ 0xE0 ∧ code ≠ 0xE1 ∧ code &&& 0x80 = 0 ∧ code &&& 0x7F = code) ∧
      code ||| 0x80 ≠ 0xE0 ∧ code ||| 0x80 ≠ 0xE1 ∧ (code ||| 0x80) &&& 0x80 ≠ 0 ∧
        (code ||| 0x80) &&& 0x7F = code :=
  forall_byte _ (by decide +kernel)

theorem make_byte (code : UInt8) (isKey : code < 0x80 ∧ code ≠ 0x60 ∧ code ≠ 0x61) :
    code ≠ 0xE0 ∧ code ≠ 0xE1 ∧ code &&& 0x80 = 0 ∧ code &&& 0x7F = code :=
  (key_bytes code isKey).1

theorem break_byte (code : UInt8) (isKey : code < 0x80 ∧ code ≠ 0x60 ∧ code ≠ 0x61) :
    code ||| 0x80 ≠ 0xE0 ∧ code ||| 0x80 ≠ 0xE1 ∧ (code ||| 0x80) &&& 0x80 ≠ 0 ∧
      (code ||| 0x80) &&& 0x7F = code :=
  (key_bytes code isKey).2

/-- Below 0x80, codes with the top bit are told from each other, and from those without it. -/
theorem break_eq_iff (code : UInt8) (small : code < 0x80) :
    (code ||| 0x80 = 0xAA ↔ code = 0x2A) ∧ (code ||| 0x80 = 0xB6 ↔ code = 0x36) ∧
      (code ||| 0x80 = 0xB8 ↔ code = 0x38) ∧ (code ||| 0x80 = 0x9D ↔ code = 0x1D) := by
  revert code
  exact forall_byte _ (by decide +kernel)

theorem make_ne_break (code : UInt8) (small : code < 0x80) :
    code ≠ 0xAA ∧ code ≠ 0xB6 ∧ code ≠ 0xB8 ∧ code ≠ 0x9D := by
  refine ⟨?_, ?_, ?_, ?_⟩ <;> rintro rfl <;> exact absurd small (by decide)

theorem break_ne_make (code : UInt8) :
    code ||| 0x80 ≠ 0x2A ∧ code ||| 0x80 ≠ 0x36 ∧ code ||| 0x80 ≠ 0x38 ∧
      code ||| 0x80 ≠ 0x1D := by
  revert code
  exact forall_byte _ (by decide +kernel)

/-- A key has different codes with and without a prefix. -/
theorem keycodes_apart (code : UInt8)
    (same : Seat.scancodeToKeycode code true = Seat.scancodeToKeycode code false) :
    Seat.scancodeToKeycode code true = 0 := by
  revert code
  exact forall_byte _ (by decide +kernel)

/-- What the driver does with the byte of a make. -/
theorem handleScancode_make (s : Ps2) {code : UInt8}
    (isKey : code < 0x80 ∧ code ≠ 0x60 ∧ code ≠ 0x61) :
    s.handleScancode code =
      if code = 0x2A ∨ code = 0x36 then
        ({ s with shift := true, layoutRu := s.switchedIf s.alt }, none)
      else if code = 0x38 then ({ s with alt := true, layoutRu := s.switchedIf s.shift }, none)
      else if code = 0x1D then ({ s with ctrl := true }, none)
      else if code = 0x3A then ({ s with caps := !s.caps }, none)
      else ({ s with extended := false },
        Ps2.written (if s.extended then Ps2.specialKey code
          else Ps2.character s.layoutRu s.caps s.shift code)) := by
  obtain ⟨notE0, notE1, top, -⟩ := make_byte code isKey
  obtain ⟨notAA, notB6, notB8, not9D⟩ := make_ne_break code isKey.1
  unfold Ps2.handleScancode
  rw [if_neg notE0, if_neg notE1, if_neg (not_or.mpr ⟨notAA, notB6⟩), if_neg notB8, if_neg not9D,
    if_neg (not_not.mpr top)]
  split_ifs <;> rfl

/-- What the driver does with the byte of a break. -/
theorem handleScancode_break (s : Ps2) {code : UInt8}
    (isKey : code < 0x80 ∧ code ≠ 0x60 ∧ code ≠ 0x61) :
    s.handleScancode (code ||| 0x80) =
      (if code = 0x2A ∨ code = 0x36 then { s with shift := false }
        else if code = 0x38 then { s with alt := false }
        else if code = 0x1D then { s with ctrl := false }
        else { s with extended := false }, none) := by
  obtain ⟨notE0, notE1, top, -⟩ := break_byte code isKey
  obtain ⟨isAA, isB6, isB8, is9D⟩ := break_eq_iff code isKey.1
  obtain ⟨not2A, not36, not38, not1D⟩ := break_ne_make code
  unfold Ps2.handleScancode
  rw [if_neg notE0, if_neg notE1, if_neg (not_or.mpr ⟨not2A, not36⟩), if_neg not38, if_neg not1D,
    if_pos top]
  simp only [isAA, isB6, isB8, is9D]
  split_ifs <;> rfl

theorem handleScancode_prefix (s : Ps2) :
    s.handleScancode 0xE0 = ({ s with extended := true }, none) := rfl

/-- What the seat does with the byte of a stroke. -/
theorem forwardScancode_byte (ext : Bool) (stroke : Stroke) :
    Seat.forwardScancode ext stroke.byte =
      (stroke.pressed && ext,
        Seat.sent (Seat.scancodeToKeycode stroke.key.code ext) stroke.pressed) := by
  unfold Stroke.byte Seat.forwardScancode
  cases stroke.pressed with
  | true =>
    obtain ⟨notE0, notE1, top, low⟩ := make_byte _ stroke.key.isKey
    rw [if_pos rfl, if_neg notE0, if_neg notE1]
    simp only [top, low]
    rfl
  | false =>
    obtain ⟨notE0, notE1, top, low⟩ := break_byte _ stroke.key.isKey
    rw [if_neg Bool.false_ne_true, if_neg notE0, if_neg notE1]
    simp only [top, low]
    rfl

/-! ## One stroke -/

/-- What the decoders make of a stroke, when the driver has no prefix left over. -/
theorem handlers_bytes (k : Keyboard) (stroke : Stroke) (clear : k.ps2.extended = false) :
    k.handlers stroke.bytes =
      let after := ({ k.ps2 with extended := stroke.key.extended }).handleScancode stroke.byte
      let ext := stroke.key.extended || k.seatExt
      (⟨after.1, stroke.pressed && ext⟩, ⟨after.2.toList,
        (Seat.sent (Seat.scancodeToKeycode stroke.key.code ext) stroke.pressed).toList⟩) := by
  have same : { k.ps2 with extended := false } = k.ps2 := by rw [← clear]
  unfold Stroke.bytes
  cases prefixed : stroke.key.extended with
  | false =>
    simp only [Bool.false_eq_true, if_false, Keyboard.handlers, Keyboard.handler,
      forwardScancode_byte, List.append_nil, same, Bool.false_or]
  | true =>
    simp only [if_true, Keyboard.handlers, Keyboard.handler, handleScancode_prefix,
      forwardScancode_byte, List.append_nil, Bool.true_or]
    rfl

/-- The hands behind the driver: the flags are theirs, and a right control or alt is never down. -/
structure Behind (t : Typing) : Prop where
  follows : Follows t.keyboard.ps2 t.hands
  rightCtrl : t.hands.down .rightCtrl = false
  rightAlt : t.hands.down .rightAlt = false

/-- The driver tells five codes from all others. -/
theorem kinds (code : UInt8) :
    code = 0x2A ∨ code = 0x36 ∨ code = 0x38 ∨ code = 0x1D ∨ code = 0x3A ∨
      (code ≠ 0x2A ∧ code ≠ 0x36 ∧ code ≠ 0x38 ∧ code ≠ 0x1D ∧ code ≠ 0x3A) := by
  tauto

/-- The flags behind a make. -/
theorem make_flags (s : Ps2) (key : Key) :
    let after := (s.handleScancode key.code).1
    after.shift = (s.shift || decide (key.code = 0x2A ∨ key.code = 0x36)) ∧
      after.ctrl = (s.ctrl || decide (key.code = 0x1D)) ∧
      after.alt = (s.alt || decide (key.code = 0x38)) ∧
      after.caps = (s.caps != decide (key.code = 0x3A)) ∧
      after.extended = (s.extended && decide (key.Modifying ∨ key.code = 0x3A)) := by
  rw [handleScancode_make s key.isKey]
  simp only [Key.Modifying, List.mem_cons, List.not_mem_nil, or_false]
  rcases kinds key.code with code | code | code | code | code | ⟨not2A, not36, not38, not1D, not3A⟩
  all_goals simp [*]

/-- The flags behind a break. -/
theorem break_flags (s : Ps2) (key : Key) :
    let after := (s.handleScancode (key.code ||| 0x80)).1
    after.shift = (s.shift && decide (¬ (key.code = 0x2A ∨ key.code = 0x36))) ∧
      after.ctrl = (s.ctrl && decide (key.code ≠ 0x1D)) ∧
      after.alt = (s.alt && decide (key.code ≠ 0x38)) ∧
      after.caps = s.caps ∧
      after.extended = (s.extended && decide key.Modifying) := by
  rw [handleScancode_break s key.isKey]
  simp only [Key.Modifying, List.mem_cons, List.not_mem_nil, or_false]
  rcases kinds key.code with code | code | code | code | code | ⟨not2A, not36, not38, not1D, not3A⟩
  all_goals simp [*]

theorem down_make (h : Hands) (key other : Key) :
    (h.after ⟨key, true⟩).down other = (h.down other || decide (key = other)) := by
  simp only [Hands.after, Function.update_apply]
  by_cases same : key = other
  · simp [same]
  · simp [same, Ne.symm same]

theorem down_break (h : Hands) (key other : Key) :
    (h.after ⟨key, false⟩).down other = (h.down other && decide (key ≠ other)) := by
  simp only [Hands.after, Function.update_apply]
  by_cases same : key = other
  · simp [same]
  · simp [same, Ne.symm same]

/-- A make keeps the flags right unless it is that of a modifier or of the caps lock with a prefix:
there the driver returns before it lets go of the prefix. -/
theorem follows_make {s : Ps2} {h : Hands} (follows : Follows s h) (key : Key) :
    Follows (({ s with extended := key.extended }).handleScancode key.code).1
        (h.after ⟨key, true⟩) ↔
      (key.extended → ¬ key.Modifying ∧ key.code ≠ 0x3A) := by
  obtain ⟨shift, ctrl, alt, caps, extended⟩ :=
    make_flags { s with extended := key.extended } key
  constructor
  · intro after prefixed
    have clear := after.extended
    rw [extended, prefixed, Bool.true_and, decide_eq_false_iff_not, not_or] at clear
    exact clear
  · intro plain
    obtain ⟨prefixed, code, isKey⟩ := key
    have shiftWas := follows.shift
    have ctrlWas := follows.ctrl
    have altWas := follows.alt
    have capsWas := follows.caps
    simp only [Key.Modifying, List.mem_cons, List.not_mem_nil, or_false] at plain
    constructor
    · rw [shift, shiftWas]
      simp only [Hands.shift, down_make, Key.leftShift, Key.rightShift, Key.mk.injEq]
      grind
    · rw [ctrl, ctrlWas]
      simp only [Hands.ctrl, down_make, Key.leftCtrl, Key.rightCtrl, Key.mk.injEq]
      grind
    · rw [alt, altWas]
      simp only [Hands.alt, down_make, Key.leftAlt, Key.rightAlt, Key.mk.injEq]
      grind
    · rw [caps, capsWas]
      simp only [Hands.after, Key.capsLock, Key.mk.injEq]
      grind
    · rw [extended]
      simp only [Key.Modifying, List.mem_cons, List.not_mem_nil, or_false]
      grind

/-- A break keeps the flags right unless it is that of a modifier with a prefix, or of a shift while
the other is down: the driver has one flag for both. -/
theorem follows_break {s : Ps2} {h : Hands} (follows : Follows s h)
    (rightCtrl : h.down .rightCtrl = false) (rightAlt : h.down .rightAlt = false) (key : Key) :
    Follows (({ s with extended := key.extended }).handleScancode (key.code ||| 0x80)).1
        (h.after ⟨key, false⟩) ↔
      (key.extended → ¬ key.Modifying) ∧ (key = .leftShift → h.down .rightShift = false) ∧
        (key = .rightShift → h.down .leftShift = false) := by
  obtain ⟨shift, ctrl, alt, caps, extended⟩ :=
    break_flags { s with extended := key.extended } key
  constructor
  · intro after
    have clear := after.extended
    have shiftIs := after.shift
    rw [shift] at shiftIs
    refine ⟨fun prefixed => ?_, fun left => ?_, fun right => ?_⟩
    · rw [extended, prefixed, Bool.true_and, decide_eq_false_iff_not] at clear
      exact clear
    · subst left
      simpa [Hands.shift, down_break, Key.leftShift, Key.rightShift] using shiftIs
    · subst right
      simpa [Hands.shift, down_break, Key.leftShift, Key.rightShift] using shiftIs
  · rintro ⟨plain, left, right⟩
    obtain ⟨prefixed, code, isKey⟩ := key
    have shiftWas := follows.shift
    have ctrlWas := follows.ctrl
    have altWas := follows.alt
    simp only [Key.Modifying, List.mem_cons, List.not_mem_nil, or_false] at plain
    constructor
    · rw [shift, shiftWas]
      simp only [Hands.shift, down_break, Key.leftShift, Key.rightShift, Key.mk.injEq, ne_eq]
        at left right ⊢
      grind
    · rw [ctrl, ctrlWas]
      simp only [Hands.ctrl, down_break, Key.leftCtrl, Key.rightCtrl, Key.mk.injEq, ne_eq]
        at rightCtrl ⊢
      grind
    · rw [alt, altWas]
      simp only [Hands.alt, down_break, Key.leftAlt, Key.rightAlt, Key.mk.injEq, ne_eq]
        at rightAlt ⊢
      grind
    · rw [caps, follows.caps]
      simp [Hands.after]
    · rw [extended]
      simp only [Key.Modifying, List.mem_cons, List.not_mem_nil, or_false]
      grind

theorem follows_after_iff (t : Typing) (stroke : Stroke) (behind : t.Behind) :
    Follows ((t.keyboard.handlers stroke.bytes).1.ps2) (t.hands.after stroke) ↔
      (stroke.key.extended → ¬ stroke.key.Modifying ∧
          ¬ (stroke.key.code = 0x3A ∧ stroke.pressed)) ∧
        (stroke.pressed = false →
          (stroke.key = .leftShift → t.hands.down .rightShift = false) ∧
            (stroke.key = .rightShift → t.hands.down .leftShift = false)) := by
  obtain ⟨follows, rightCtrl, rightAlt⟩ := behind
  rw [handlers_bytes _ _ follows.extended]
  obtain ⟨key, pressed⟩ := stroke
  cases pressed with
  | true =>
    have made := follows_make follows key
    simpa [Stroke.byte] using made
  | false =>
    have broken := follows_break follows rightCtrl rightAlt key
    simpa [Stroke.byte] using broken

theorem sent_toList_iff (keycode owed : Nat) (pressed : Bool) :
    (Seat.sent keycode pressed).toList = (Seat.sent owed pressed).toList ↔ keycode = owed := by
  unfold Seat.sent
  split_ifs <;> simp_all [eq_comm]

/-- The seat is right about a stroke unless it takes a prefix left over for that of a key which has
a code without it or with it. -/
theorem events_iff (t : Typing) (stroke : Stroke) (clear : t.keyboard.ps2.extended = false) :
    (t.keyboard.handlers stroke.bytes).2.events = stroke.event.toList ↔
      (stroke.key.extended = false → t.keyboard.seatExt = true →
        Seat.scancodeToKeycode stroke.key.code true = 0 ∧
          Seat.scancodeToKeycode stroke.key.code false = 0) := by
  rw [handlers_bytes _ _ clear]
  change (Seat.sent _ _).toList = (Seat.sent _ _).toList ↔ _
  rw [sent_toList_iff]
  cases prefixed : stroke.key.extended with
  | true => simp
  | false =>
    cases left : t.keyboard.seatExt with
    | false => simp
    | true =>
      rw [Bool.false_or]
      constructor
      · intro same _ _
        have none := keycodes_apart _ same
        exact ⟨none, same ▸ none⟩
      · intro silent
        obtain ⟨with_, without⟩ := silent rfl rfl
        rw [with_, without]

/-- The driver writes the character that it owes for every stroke. -/
theorem characters_eq (t : Typing) (stroke : Stroke) (follows : Follows t.keyboard.ps2 t.hands) :
    (t.keyboard.handlers stroke.bytes).2.characters =
      (t.hands.character t.keyboard.ps2.layoutRu stroke).toList := by
  rw [handlers_bytes _ _ follows.extended]
  obtain ⟨key, pressed⟩ := stroke
  change Option.toList _ = _
  congr 1
  unfold Hands.character Stroke.byte
  simp only [Key.Modifying, List.mem_cons, List.not_mem_nil, or_false]
  cases pressed with
  | true =>
    rw [if_pos rfl, handleScancode_make _ key.isKey, ← follows.shift, ← follows.caps]
    rcases kinds key.code with code | code | code | code | code | ⟨not2A, not36, not38, not1D, not3A⟩
    all_goals simp [*]
    cases key.extended <;> rfl
  | false =>
    rw [if_neg Bool.false_ne_true, handleScancode_break _ key.isKey]
    simp

/-! ## Runs of strokes -/

theorem decodes_iff (t : Typing) (stroke : Stroke) (next : Typing) (behind : t.Behind)
    (stepped : t.step stroke next) : t.Decodes stroke next ↔ t.Plain stroke := by
  have follows := follows_after_iff t stroke behind
  have events := events_iff t stroke behind.follows.extended
  constructor
  · rintro ⟨-, seen, flags⟩
    rw [← stepped] at flags
    obtain ⟨prefixed, lastShift⟩ := follows.mp flags
    exact ⟨prefixed, lastShift, events.mp seen⟩
  · rintro ⟨prefixed, lastShift, silent⟩
    refine ⟨characters_eq t stroke behind.follows, events.mpr silent, ?_⟩
    rw [← stepped]
    exact follows.mpr ⟨prefixed, lastShift⟩

theorem behind_boot : Behind boot := ⟨⟨rfl, rfl, rfl, rfl, rfl⟩, rfl, rfl⟩

theorem behind_step (t : Typing) (stroke : Stroke) (next : Typing) (behind : t.Behind)
    (plain : t.Plain stroke) (stepped : t.step stroke next) : next.Behind := by
  have decoded := (decodes_iff t stroke next behind stepped).mpr plain
  have kept : ∀ other : Key, other.extended = true → other.Modifying →
      t.hands.down other = false → (t.hands.after stroke).down other = false := by
    intro other prefixed modifying up
    have apart : other ≠ stroke.key := by
      rintro rfl
      exact (plain.prefixed prefixed).1 modifying
    simp only [Hands.after, Function.update_of_ne apart, up]
  refine ⟨decoded.follows, ?_, ?_⟩ <;> rw [← stepped]
  · exact kept .rightCtrl rfl (by decide) behind.rightCtrl
  · exact kept .rightAlt rfl (by decide) behind.rightAlt

/-- Bytes that come in later are decoded behind those that came before. -/
theorem handlers_append (k : Keyboard) (first later : List UInt8) :
    k.handlers (first ++ later) =
      let before := k.handlers first
      let behind := before.1.handlers later
      (behind.1, ⟨before.2.characters ++ behind.2.characters,
        before.2.events ++ behind.2.events⟩) := by
  induction first generalizing k with
  | nil => rfl
  | cons scancode rest ih =>
    simp only [List.cons_append, Keyboard.handlers, ih, List.append_assoc]

/-- A run of strokes is one run of bytes. -/
theorem events_of_decodes {taken : List (Transition Typing Stroke)} {final : Typing}
    (trace : Trace step boot taken final)
    (decodes : ∀ transition ∈ taken, transition.before.Decodes transition.label transition.after) :
    (Keyboard.boot.handlers (taken.flatMap fun transition => transition.label.bytes)).1 =
        final.keyboard ∧
      (Keyboard.boot.handlers (taken.flatMap fun transition => transition.label.bytes)).2.events =
        taken.flatMap fun transition => transition.label.event.toList := by
  induction trace with
  | nil => exact ⟨rfl, rfl⟩
  | @snoc taken state stroke next prior valid ih =>
    obtain ⟨reached, seen⟩ :=
      ih fun transition member => decodes transition (by simp [member])
    have last : state.Decodes stroke next := decodes ⟨state, stroke, next⟩ (by simp)
    rw [← show state.stroked stroke = next from valid]
    simp only [stroked, List.flatMap_append, List.flatMap_cons, List.flatMap_nil, List.append_nil,
      handlers_append, reached, seen, last.events, and_self]

/-- From boot, every stroke of a run is decoded exactly when every stroke is plain, and then the
events of the run are those of its strokes. -/
theorem strokes_decoded_iff {taken : List (Transition Typing Stroke)} {final : Typing}
    (trace : Trace step boot taken final) :
    ((∀ transition ∈ taken,
        transition.before.Decodes transition.label transition.after) ↔ Guarded Plain taken) ∧
      (Guarded Plain taken →
        (Keyboard.boot.handlers (taken.flatMap fun transition => transition.label.bytes)).2.events =
          taken.flatMap fun transition => transition.label.event.toList) := by
  have exactly := Trace.forall_iff_guarded Behind behind_boot behind_step decodes_iff trace
  exact ⟨exactly, fun plain => (events_of_decodes trace (exactly.mpr plain)).2⟩

/-- A capital A. -/
theorem capital_decoded :
    let shift : Stroke := ⟨.leftShift, true⟩
    let letter : Stroke := ⟨⟨false, 0x1E, by decide⟩, true⟩
    let held := boot.stroked shift
    (∀ transition ∈ [Transition.mk boot shift held, ⟨held, letter, held.stroked letter⟩],
        transition.before.Decodes transition.label transition.after) ∧
      (Keyboard.boot.handlers [0x2A, 0x1E]).2 = ⟨[0x41], [⟨42, true⟩, ⟨30, true⟩]⟩ := by
  intro shift letter held
  have trace : Trace step boot [⟨boot, shift, held⟩, ⟨held, letter, held.stroked letter⟩]
      (held.stroked letter) := (Trace.nil.snoc rfl).snoc rfl
  refine ⟨(strokes_decoded_iff trace).1.mpr ?_, by decide⟩
  simp only [Guarded, List.forall_mem_cons, List.not_mem_nil, false_imp_iff, implies_true, and_true]
  exact ⟨⟨by decide, by decide, by decide⟩, by decide, by decide, by decide⟩

/-- The right control leaves the prefix to the key behind it, and both decoders lose an A. -/
theorem rightCtrl_leaves_prefix :
    let press : Stroke := ⟨.rightCtrl, true⟩
    let next := boot.stroked press
    boot.step press next ∧ ¬ boot.Decodes press next ∧ next.keyboard.ps2.extended = true ∧
      (next.keyboard.handlers [0x1E]).2 = ⟨[], []⟩ ∧
      (Keyboard.boot.handlers [0x1E]).2 = ⟨[0x61], [⟨30, true⟩]⟩ :=
  ⟨rfl, fun decodes => absurd decodes.follows.extended (by decide), by decide, by decide,
    by decide⟩

end Typing

end DBSos.Input
