import DBSos.Lib.Ring
import DBSos.Lib.Packing
import DBSos.Lib.Trace

/-!
# The mouse

`mouse_irq_handler` puts packets of three bytes together. A packet moves the cursor, and goes to the
seat, to the ring that `poll_event` reads and to the events that `poll_mouse` reads.
-/

namespace DBSos.Input

open DBSos.Lib

structure MouseEvent where
  dx : Int
  dy : Int
  left : Bool
  right : Bool
  middle : Bool
deriving DecidableEq

inductive EventType where
  | keyPress
  | keyRelease
  | mouseMove
  | mouseClick
  | mouseRelease
  | focusIn
  | focusOut
deriving DecidableEq

structure Event where
  kind : EventType
  key : UInt8
  x : Int
  y : Int
  dx : Int
  dy : Int
  button : UInt8
  modifiers : UInt8
deriving DecidableEq

structure WlInputEvent where
  kind : Nat
  key : Nat
  state : Nat
  time : Nat
  dx : Int
  dy : Int
  button : Nat
deriving DecidableEq

/-- What the handler asks of the rest of the kernel: the surfaces, the clock and the modifiers. -/
structure Compositor where
  findSurfaceAt : Int → Int → Option Nat
  surfacePosition : Nat → Option (Int × Int)
  millis : Nat
  modifiers : UInt8

/-- A call of `push_input_event`. -/
structure Push where
  surface : Nat
  event : WlInputEvent
deriving DecidableEq

/-- The size of the display, as the `i32` that the handler takes it for. -/
structure Screen where
  width : Int
  height : Int

namespace Seat

/-- `send_pointer_motion`, with the cursor at a place. -/
def sendPointerMotion (c : Compositor) (x y dx dy : Int) : List Push :=
  match c.findSurfaceAt x y with
  | none => []
  | some id =>
    ⟨id, ⟨2, 0, 0, c.millis, dx, dy, 0⟩⟩ ::
      match c.surfacePosition id with
      | none => []
      | some (sx, sy) => [⟨id, ⟨7, 0, 0, c.millis, x - sx, y - sy, 0⟩⟩]

/-- `send_pointer_button`. -/
def sendPointerButton (c : Compositor) (x y : Int) (button : Nat) (pressed : Bool) : List Push :=
  match c.findSurfaceAt x y with
  | none => []
  | some id => [⟨id, ⟨3, button, if pressed then 1 else 0, c.millis, 0, 0, button⟩⟩]

/-- A button is reported when it has changed. -/
def sendIfChanged (c : Compositor) (x y : Int) (button : Nat) (old new : Bool) : List Push :=
  if new ≠ old then sendPointerButton c x y button new else []

end Seat

/-- The statics of the driver, and the events of the mouse. `PACKET_BYTE` never leaves the packet. -/
structure Mouse where
  left : Bool
  right : Bool
  middle : Bool
  x : Int
  y : Int
  packet : Vector UInt8 3
  packetByte : Fin 3
  irqCount : Nat
  rawByteCount : Nat
  mouseBuf : IndexRing MouseEvent 256
  mouseEvents : IndexRing Event 512

namespace Mouse

/-- A byte `as i8 as i32`. -/
def asI8 (b : UInt8) : Int := b.toInt8.toInt

/-- The two tests of a coordinate against the screen. -/
def clamped (v limit : Int) : Int :=
  let v := if v < 0 then 0 else v
  if v ≥ limit then limit - 1 else v

/-- The event of `push_mouse`. -/
def pushMouse (modifiers : UInt8) (dx dy : Int) (left right middle : Bool) : Event where
  kind := .mouseMove
  key := 0
  x := 0
  y := 0
  dx := dx
  dy := dy
  button := if left then 1 else if right then 2 else if middle then 3 else 0
  modifiers := modifiers

/-- The arm of the third byte. -/
def finish (screen : Screen) (c : Compositor) (m : Mouse) : Mouse × List Push :=
  let b0 := m.packet[0]
  let dx := asI8 m.packet[1]
  let dy := -asI8 m.packet[2]
  let left := b0 &&& 0x01 ≠ 0
  let right := b0 &&& 0x02 ≠ 0
  let middle := b0 &&& 0x04 ≠ 0
  let x := clamped (m.x + dx) screen.width
  let y := clamped (m.y + dy) screen.height
  ({ m with
      left := left
      right := right
      middle := middle
      x := x
      y := y
      packetByte := 0
      mouseBuf := m.mouseBuf.push ⟨dx, dy, left, right, middle⟩
      mouseEvents := m.mouseEvents.push (pushMouse c.modifiers dx dy left right middle) },
    Seat.sendPointerMotion c x y dx dy ++ Seat.sendIfChanged c x y 0x110 m.left left ++
      Seat.sendIfChanged c x y 0x111 m.right right ++
      Seat.sendIfChanged c x y 0x112 m.middle middle)

/-- A byte is put into the packet. -/
def received (m : Mouse) (byte : UInt8) : Mouse :=
  { m with
    rawByteCount := m.rawByteCount + 1
    packet := m.packet.set m.packetByte byte }

/-- The match on `PACKET_BYTE`, behind `received`. -/
def advance (screen : Screen) (c : Compositor) (m : Mouse) (byte : UInt8) : Mouse × List Push :=
  match m.packetByte with
  | 0 => (if byte &&& 0x08 ≠ 0 then { m with packetByte := 1 } else m, [])
  | 1 => ({ m with packetByte := 2 }, [])
  | 2 => m.finish screen c

/-- The filter of the handler: the output buffer is full, and from the mouse. -/
def FromMouse (status : UInt8) : Prop := status &&& 1 ≠ 0 ∧ status &&& 0x20 ≠ 0

instance (status : UInt8) : Decidable (FromMouse status) := inferInstanceAs (Decidable (_ ∧ _))

/-- `mouse_irq_handler`, with the status and the byte that the controller holds. -/
def mouseIrqHandler (screen : Screen) (c : Compositor) (m : Mouse) (status byte : UInt8) :
    Mouse × List Push :=
  if FromMouse status then
    (received { m with irqCount := m.irqCount + 1 } byte).advance screen c byte
  else ({ m with irqCount := m.irqCount + 1 }, [])

/-- `poll_event`. -/
def pollEvent (m : Mouse) : Option MouseEvent × Mouse :=
  match m.mouseBuf.pop with
  | none => (none, m)
  | some (event, rest) => (some event, { m with mouseBuf := rest })

/-- `poll_mouse`. -/
def pollMouse (m : Mouse) : Option Event × Mouse :=
  match m.mouseEvents.pop with
  | none => (none, m)
  | some (event, rest) => (some event, { m with mouseEvents := rest })

/-- The driver behind `init`. -/
def boot : Mouse where
  left := false
  right := false
  middle := false
  x := 640
  y := 400
  packet := .replicate 3 0
  packetByte := 0
  irqCount := 0
  rawByteCount := 0
  mouseBuf := ⟨fun _ => ⟨0, 0, false, false, false⟩, 0, 0, by decide, by decide⟩
  mouseEvents := ⟨fun _ => ⟨.keyPress, 0, 0, 0, 0, 0, 0, 0⟩, 0, 0, by decide, by decide⟩

end Mouse

end DBSos.Input

/-!
## Packets of the mouse

The mouse sends packets of three bytes, with its movement in nine bits of two's complement, and now
and then a stray byte between them. Interrupts from elsewhere and polls come at any time. The driver
keeps in step with the packets throughout; what it reports of one is right if the movement fits in
eight bits and the rings have room.
-/

namespace DBSos.Input

open DBSos.Lib

/-- A packet of the mouse: bit 3 of the first byte marks it. -/
structure Packet where
  first : UInt8
  second : UInt8
  third : UInt8
  marked : first &&& 0x08 ≠ 0
deriving DecidableEq

namespace Packet

/-- Eight bits of magnitude and a sign from elsewhere. -/
def nineBits (negative : Bool) (magnitude : UInt8) : Int :=
  magnitude.toNat - if negative then 256 else 0

def moveX (p : Packet) : Int := nineBits (p.first &&& 0x10 ≠ 0) p.second
def moveY (p : Packet) : Int := nineBits (p.first &&& 0x20 ≠ 0) p.third

def left (p : Packet) : Bool := p.first &&& 0x01 ≠ 0
def right (p : Packet) : Bool := p.first &&& 0x02 ≠ 0
def middle (p : Packet) : Bool := p.first &&& 0x04 ≠ 0

/-- The movement fits in eight bits. -/
structure Small (p : Packet) : Prop where
  x : -128 ≤ p.moveX ∧ p.moveX ≤ 127
  y : -128 ≤ p.moveY ∧ p.moveY ≤ 127

/-- The event that the change of a button is owed. -/
def change (button : UInt8) (old new : Bool) : List (EventType × UInt8) :=
  if new ≠ old then [(if new then .mouseClick else .mouseRelease, button)] else []

/-- The changes that a packet brings. -/
def changes (p : Packet) (m : Mouse) : List (EventType × UInt8) :=
  change 1 m.left p.left ++ change 2 m.right p.right ++ change 3 m.middle p.middle

end Packet

/-- How far the mouse has come with a packet. -/
inductive Sending where
  | idle
  | one (p : Packet)
  | two (p : Packet)

/-- What the mouse sends next. -/
inductive Arrival where
  | start (p : Packet)
  | more
  | stray (byte : UInt8)

/-- The byte, and how far the mouse has come with it. -/
def Sending.send : Sending → Arrival → Option (UInt8 × Sending)
  | .idle, .start p => some (p.first, .one p)
  | .one p, .more => some (p.second, .two p)
  | .two p, .more => some (p.third, .idle)
  | .idle, .stray byte => if byte &&& 0x08 = 0 then some (byte, .idle) else none
  | _, _ => none

/-- The driver, the mouse, and what the seat has handed on. -/
structure Desk where
  mouse : Mouse
  sending : Sending
  pushed : List Push

namespace Desk

inductive Label where
  /-- An interrupt with a byte of the mouse. -/
  | byte (arrival : Arrival) (status : UInt8) (c : Compositor)
  /-- An interrupt with nothing of the mouse in the controller. -/
  | elsewhere (status byte : UInt8) (c : Compositor)
  | pollEvent
  | pollMouse

/-- The handler runs. -/
def irq (screen : Screen) (c : Compositor) (d : Desk) (status byte : UInt8) (sending : Sending) :
    Desk :=
  let (mouse, pushes) := d.mouse.mouseIrqHandler screen c status byte
  ⟨mouse, sending, d.pushed ++ pushes⟩

def next (screen : Screen) (d : Desk) : Label → Option Desk
  | .byte arrival status c =>
    if Mouse.FromMouse status then
      (d.sending.send arrival).map fun sent => d.irq screen c status sent.1 sent.2
    else none
  | .elsewhere status byte c =>
    if Mouse.FromMouse status then none else some (d.irq screen c status byte d.sending)
  | .pollEvent => some { d with mouse := d.mouse.pollEvent.2 }
  | .pollMouse => some { d with mouse := d.mouse.pollMouse.2 }

def boot : Desk := ⟨.boot, .idle, []⟩

/-- The packet that a step completes, and what the handler sees of the kernel then. -/
def completes : Sending → Label → Option (Packet × Compositor)
  | .two p, .byte .more _ c => some (p, c)
  | _, _ => none

/-- A place on the screen. -/
def onScreen (v limit : Int) : Int := min (max v 0) (limit - 1)

/-- A packet is reported: the cursor moves by it and stays on the screen, the buttons are those of
the packet, and the seat, the ring and the events get the movement. -/
structure Reports (screen : Screen) (c : Compositor) (p : Packet) (before after : Desk) : Prop where
  x : after.mouse.x = onScreen (before.mouse.x + p.moveX) screen.width
  y : after.mouse.y = onScreen (before.mouse.y - p.moveY) screen.height
  buttons : (after.mouse.left, after.mouse.right, after.mouse.middle) = (p.left, p.right, p.middle)
  seat : after.pushed = before.pushed ++
    (Seat.sendPointerMotion c after.mouse.x after.mouse.y p.moveX (-p.moveY) ++
      Seat.sendIfChanged c after.mouse.x after.mouse.y 0x110 before.mouse.left p.left ++
      Seat.sendIfChanged c after.mouse.x after.mouse.y 0x111 before.mouse.right p.right ++
      Seat.sendIfChanged c after.mouse.x after.mouse.y 0x112 before.mouse.middle p.middle)
  polled : after.mouse.mouseBuf.contents =
    before.mouse.mouseBuf.contents ++ [⟨p.moveX, -p.moveY, p.left, p.right, p.middle⟩]
  moves : ∃ events, after.mouse.mouseEvents.contents = before.mouse.mouseEvents.contents ++ events ∧
    (events.filter (·.kind = .mouseMove)).map (fun e => (e.dx, e.dy)) = [(p.moveX, -p.moveY)]

/-- The events of the mouse tell every change of a button. -/
def Clicks (p : Packet) (before after : Desk) : Prop :=
  ∃ events, after.mouse.mouseEvents.contents = before.mouse.mouseEvents.contents ++ events ∧
    (events.filter fun e => e.kind = .mouseClick ∨ e.kind = .mouseRelease).map
      (fun e => (e.kind, e.button)) = p.changes before.mouse

/-- Nothing is reported; a poll may take what was reported before. -/
structure Quiet (before after : Desk) : Prop where
  cursor : (after.mouse.x, after.mouse.y) = (before.mouse.x, before.mouse.y)
  buttons : (after.mouse.left, after.mouse.right, after.mouse.middle) =
    (before.mouse.left, before.mouse.right, before.mouse.middle)
  seat : after.pushed = before.pushed
  polled : after.mouse.mouseBuf.contents <:+ before.mouse.mouseBuf.contents
  events : after.mouse.mouseEvents.contents <:+ before.mouse.mouseEvents.contents

/-- A step reports the packet that it completes, if any. -/
def Follows (screen : Screen) (before : Desk) (label : Label) (after : Desk) : Prop :=
  match completes before.sending label with
  | some (p, c) => Reports screen c p before after
  | none => Quiet before after

/-- The step follows, and tells the changes of the buttons. -/
def Tells (screen : Screen) (before : Desk) (label : Label) (after : Desk) : Prop :=
  Follows screen before label after ∧
    ∀ packet ∈ completes before.sending label, Clicks packet.1 before after

/-- A packet that the driver is up to comes when there is room for it. -/
def Fits (before : Desk) (label : Label) : Prop :=
  ∀ packet ∈ completes before.sending label,
    packet.1.Small ∧ before.mouse.mouseBuf.HasRoom ∧ before.mouse.mouseEvents.HasRoom

/-- And it leaves the buttons as they are. -/
def FitsStill (before : Desk) (label : Label) : Prop :=
  Fits before label ∧
    ∀ packet ∈ completes before.sending label, packet.1.changes before.mouse = []

/-- The driver has the bytes that the mouse has sent of a packet. -/
def InStep (d : Desk) : Prop :=
  match d.sending with
  | .idle => d.mouse.packetByte = 0
  | .one p => d.mouse.packetByte = 1 ∧ d.mouse.packet[0] = p.first
  | .two p => d.mouse.packetByte = 2 ∧ d.mouse.packet[0] = p.first ∧ d.mouse.packet[1] = p.second

/-! ## One interrupt -/

/-- A byte is taken for the movement that it is the magnitude of if that fits in eight bits. -/
theorem asI8_eq_nineBits_iff (negative : Bool) (magnitude : UInt8) :
    Mouse.asI8 magnitude = Packet.nineBits negative magnitude ↔
      -128 ≤ Packet.nineBits negative magnitude ∧ Packet.nineBits negative magnitude ≤ 127 := by
  revert magnitude
  cases negative <;> exact forall_byte _ (by decide +kernel)

theorem clamped_eq_onScreen (v limit : Int) : Mouse.clamped v limit = onScreen v limit := by
  unfold Mouse.clamped onScreen
  dsimp only
  split_ifs <;> omega

/-- Without a byte of the mouse, only the count of the interrupts changes. -/
theorem handler_elsewhere (screen : Screen) (c : Compositor) (m : Mouse) {status : UInt8}
    (elsewhere : ¬ Mouse.FromMouse status) (byte : UInt8) :
    m.mouseIrqHandler screen c status byte = ({ m with irqCount := m.irqCount + 1 }, []) :=
  if_neg elsewhere

/-- The driver with a byte more. -/
def counted (m : Mouse) (byte : UInt8) : Mouse :=
  Mouse.received { m with irqCount := m.irqCount + 1 } byte

theorem handler_fromMouse (screen : Screen) (c : Compositor) (m : Mouse) {status : UInt8}
    (fromMouse : Mouse.FromMouse status) (byte : UInt8) :
    m.mouseIrqHandler screen c status byte = (counted m byte).advance screen c byte :=
  if_pos fromMouse

theorem advance_first (screen : Screen) (c : Compositor) {m : Mouse} (byte : UInt8)
    (position : m.packetByte = 0) :
    m.advance screen c byte = (if byte &&& 0x08 ≠ 0 then { m with packetByte := 1 } else m, []) := by
  unfold Mouse.advance
  rw [position]

theorem advance_second (screen : Screen) (c : Compositor) {m : Mouse} (byte : UInt8)
    (position : m.packetByte = 1) :
    m.advance screen c byte = ({ m with packetByte := 2 }, []) := by
  unfold Mouse.advance
  rw [position]

theorem advance_third (screen : Screen) (c : Compositor) {m : Mouse} (byte : UInt8)
    (position : m.packetByte = 2) : m.advance screen c byte = m.finish screen c := by
  unfold Mouse.advance
  rw [position]

theorem handler_third (screen : Screen) (c : Compositor) {m : Mouse} {status : UInt8}
    (fromMouse : Mouse.FromMouse status) (byte : UInt8) (position : m.packetByte = 2) :
    m.mouseIrqHandler screen c status byte = (counted m byte).finish screen c := by
  have here : (counted m byte).packetByte = 2 := position
  rw [handler_fromMouse _ _ _ fromMouse, advance_third _ _ _ here]

/-- The movement that the driver takes a packet for. -/
def taken (p : Packet) : Int × Int := (Mouse.asI8 p.second, -Mouse.asI8 p.third)

theorem taken_eq_iff (p : Packet) : taken p = (p.moveX, -p.moveY) ↔ p.Small := by
  have x : Mouse.asI8 p.second = p.moveX ↔ _ := asI8_eq_nineBits_iff _ p.second
  have y : Mouse.asI8 p.third = p.moveY ↔ _ := asI8_eq_nineBits_iff _ p.third
  rw [taken, Prod.mk.injEq, neg_inj, x, y]
  exact ⟨fun ⟨x, y⟩ => ⟨x, y⟩, fun ⟨x, y⟩ => ⟨x, y⟩⟩

/-- The third byte of a packet. -/
theorem finish_counted (screen : Screen) (c : Compositor) {m : Mouse} {p : Packet}
    (position : m.packetByte = 2) (first : m.packet[0] = p.first) (second : m.packet[1] = p.second) :
    let x := onScreen (m.x + (taken p).1) screen.width
    let y := onScreen (m.y + (taken p).2) screen.height
    let finished := (counted m p.third).finish screen c
    finished.2 = Seat.sendPointerMotion c x y (taken p).1 (taken p).2 ++
        Seat.sendIfChanged c x y 0x110 m.left p.left ++
        Seat.sendIfChanged c x y 0x111 m.right p.right ++
        Seat.sendIfChanged c x y 0x112 m.middle p.middle ∧
      finished.1.x = x ∧ finished.1.y = y ∧
      (finished.1.left, finished.1.right, finished.1.middle) = (p.left, p.right, p.middle) ∧
      finished.1.packetByte = 0 ∧
      finished.1.mouseBuf =
        m.mouseBuf.push ⟨(taken p).1, (taken p).2, p.left, p.right, p.middle⟩ ∧
      finished.1.mouseEvents = m.mouseEvents.push
        (Mouse.pushMouse c.modifiers (taken p).1 (taken p).2 p.left p.right p.middle) := by
  have firstIs : (counted m p.third).packet[0] = p.first := by
    simp [counted, Mouse.received, position, first]
  have secondIs : (counted m p.third).packet[1] = p.second := by
    simp [counted, Mouse.received, position, second]
  have thirdIs : (counted m p.third).packet[2] = p.third := by
    simp [counted, Mouse.received, position]
  unfold Mouse.finish
  simp only [firstIs, secondIs, thirdIs, clamped_eq_onScreen]
  exact ⟨rfl, rfl, rfl, rfl, trivial, rfl, rfl⟩

/-! ## One step -/

/-- The last byte of a packet. -/
theorem reports_iff (screen : Screen) (c : Compositor) {d : Desk} {p : Packet} {status : UInt8}
    (fromMouse : Mouse.FromMouse status) (sending : d.sending = .two p) (inStep : d.InStep) :
    Reports screen c p d (d.irq screen c status p.third .idle) ↔
      p.Small ∧ d.mouse.mouseBuf.HasRoom ∧ d.mouse.mouseEvents.HasRoom := by
  simp only [InStep, sending] at inStep
  obtain ⟨position, first, second⟩ := inStep
  obtain ⟨pushes, x, y, buttons, -, polled, events⟩ :=
    finish_counted screen c position first second
  rw [irq, handler_third screen c fromMouse p.third position]
  constructor
  · intro reports
    have polledIs := reports.polled
    obtain ⟨appended, eventsAre, moves⟩ := reports.moves
    dsimp only at polledIs eventsAre
    rw [polled, IndexRing.contents_push_eq_append_iff] at polledIs
    obtain ⟨room, same⟩ := polledIs
    have small : taken p = (p.moveX, -p.moveY) := by
      simp only [MouseEvent.mk.injEq] at same
      exact Prod.ext same.1 same.2.1
    refine ⟨(taken_eq_iff p).mp small, room, ?_⟩
    by_contra full
    rw [events, IndexRing.push_of_not_hasRoom full, List.self_eq_append_right] at eventsAre
    rw [eventsAre] at moves
    cases moves
  · rintro ⟨small, room, eventsRoom⟩
    have exactly := (taken_eq_iff p).mpr small
    rw [exactly] at pushes x y polled events
    constructor
    · exact x
    · rw [Int.sub_eq_add_neg]
      exact y
    · exact buttons
    · dsimp only
      rw [x, y]
      exact congrArg _ pushes
    · dsimp only
      rw [polled, IndexRing.contents_push, if_pos room]
    · dsimp only
      rw [events, IndexRing.contents_push, if_pos eventsRoom]
      exact ⟨_, rfl, rfl⟩

/-- No event of the mouse is ever a click or a release. -/
theorem clicks_iff (screen : Screen) (c : Compositor) {d : Desk} {p : Packet} {status : UInt8}
    (fromMouse : Mouse.FromMouse status) (sending : d.sending = .two p) (inStep : d.InStep) :
    Clicks p d (d.irq screen c status p.third .idle) ↔ p.changes d.mouse = [] := by
  simp only [InStep, sending] at inStep
  obtain ⟨position, first, second⟩ := inStep
  obtain ⟨-, -, -, -, -, -, events⟩ := finish_counted screen c position first second
  rw [irq, handler_third screen c fromMouse p.third position]
  unfold Clicks
  dsimp only
  rw [events, IndexRing.contents_push]
  split_ifs with room
  · constructor
    · rintro ⟨appended, same, clicks⟩
      rw [← List.append_cancel_left same] at clicks
      exact clicks.symm
    · intro none
      exact ⟨_, rfl, none.symm⟩
  · constructor
    · rintro ⟨appended, same, clicks⟩
      rw [List.self_eq_append_right] at same
      rw [same] at clicks
      exact clicks.symm
    · intro none
      exact ⟨[], (List.append_nil _).symm, none.symm⟩

theorem pollEvent_quiet (d : Desk) : Quiet d { d with mouse := d.mouse.pollEvent.2 } := by
  unfold Mouse.pollEvent
  split
  · exact ⟨rfl, rfl, rfl, List.suffix_rfl, List.suffix_rfl⟩
  · next popped =>
      exact ⟨rfl, rfl, rfl, ⟨[_], (IndexRing.contents_pop popped).symm⟩, List.suffix_rfl⟩

theorem pollMouse_quiet (d : Desk) : Quiet d { d with mouse := d.mouse.pollMouse.2 } := by
  unfold Mouse.pollMouse
  split
  · exact ⟨rfl, rfl, rfl, List.suffix_rfl, List.suffix_rfl⟩
  · next popped =>
      exact ⟨rfl, rfl, rfl, List.suffix_rfl, ⟨[_], (IndexRing.contents_pop popped).symm⟩⟩

theorem polls_inStep {d : Desk} (inStep : d.InStep) :
    InStep { d with mouse := d.mouse.pollEvent.2 } ∧
      InStep { d with mouse := d.mouse.pollMouse.2 } := by
  unfold Mouse.pollEvent Mouse.pollMouse
  constructor <;> split <;> exact inStep

/-- A step that completes a packet takes its last byte. -/
theorem next_completes {screen : Screen} {d d' : Desk} {label : Label} {p : Packet} {c : Compositor}
    (stepped : d.next screen label = some d') (complete : completes d.sending label = some (p, c)) :
    ∃ status, Mouse.FromMouse status ∧ d.sending = .two p ∧
      d' = d.irq screen c status p.third .idle := by
  unfold completes at complete
  split at complete
  · next sending =>
      obtain ⟨rfl, rfl⟩ := Prod.mk.inj (Option.some.inj complete)
      simp only [next, sending, Sending.send, Option.map_some] at stepped
      split_ifs at stepped with fromMouse
      exact ⟨_, fromMouse, sending, (Option.some.inj stepped).symm⟩
  · cases complete

/-- A step that completes none reports nothing, and the driver stays in step. -/
theorem next_other {screen : Screen} {d d' : Desk} {label : Label} (inStep : d.InStep)
    (stepped : d.next screen label = some d') (other : completes d.sending label = none) :
    Quiet d d' ∧ d'.InStep := by
  cases label with
  | pollEvent =>
    obtain rfl := Option.some.inj stepped
    exact ⟨d.pollEvent_quiet, (polls_inStep inStep).1⟩
  | pollMouse =>
    obtain rfl := Option.some.inj stepped
    exact ⟨d.pollMouse_quiet, (polls_inStep inStep).2⟩
  | elsewhere status byte c =>
    simp only [next] at stepped
    split_ifs at stepped with fromMouse
    obtain rfl := Option.some.inj stepped
    rw [irq, handler_elsewhere screen c d.mouse fromMouse]
    exact ⟨⟨rfl, rfl, List.append_nil _, List.suffix_rfl, List.suffix_rfl⟩, inStep⟩
  | byte arrival status c =>
    simp only [next] at stepped
    split_ifs at stepped with fromMouse
    cases sending : d.sending with
    | idle =>
      simp only [InStep, sending] at inStep
      have here : ∀ byte, (counted d.mouse byte).packetByte = 0 := fun _ => inStep
      cases arrival with
      | start p =>
        obtain rfl := Option.some.inj (sending ▸ stepped)
        change Quiet d (d.irq screen c status p.first (.one p)) ∧
          (d.irq screen c status p.first (.one p)).InStep
        rw [irq, handler_fromMouse _ _ _ fromMouse, advance_first _ _ _ (here _),
          if_pos p.marked]
        refine ⟨⟨rfl, rfl, List.append_nil _, List.suffix_rfl, List.suffix_rfl⟩, rfl, ?_⟩
        simp [counted, Mouse.received, inStep]
      | stray byte =>
        simp only [sending, Sending.send, Option.map_eq_some_iff] at stepped
        obtain ⟨_, sent, rfl⟩ := stepped
        split_ifs at sent with unmarked
        obtain rfl := Option.some.inj sent
        rw [irq, handler_fromMouse _ _ _ fromMouse, advance_first _ _ _ (here _),
          if_neg (not_not.mpr unmarked)]
        exact ⟨⟨rfl, rfl, List.append_nil _, List.suffix_rfl, List.suffix_rfl⟩, here _⟩
      | more => simp [sending, Sending.send] at stepped
    | one p =>
      simp only [InStep, sending] at inStep
      have here : ∀ byte, (counted d.mouse byte).packetByte = 1 := fun _ => inStep.1
      cases arrival with
      | more =>
        obtain rfl := Option.some.inj (sending ▸ stepped)
        change Quiet d (d.irq screen c status p.second (.two p)) ∧
          (d.irq screen c status p.second (.two p)).InStep
        rw [irq, handler_fromMouse _ _ _ fromMouse, advance_second _ _ _ (here _)]
        refine ⟨⟨rfl, rfl, List.append_nil _, List.suffix_rfl, List.suffix_rfl⟩, rfl, ?_⟩
        simp [counted, Mouse.received, inStep]
      | start _ => simp [sending, Sending.send] at stepped
      | stray _ => simp [sending, Sending.send] at stepped
    | two p =>
      cases arrival with
      | more => simp [sending, completes] at other
      | start _ => simp [sending, Sending.send] at stepped
      | stray _ => simp [sending, Sending.send] at stepped

theorem inStep_next {screen : Screen} {d d' : Desk} {label : Label} (inStep : d.InStep)
    (stepped : d.next screen label = some d') : d'.InStep := by
  cases complete : completes d.sending label with
  | none => exact (next_other inStep stepped complete).2
  | some packet =>
    obtain ⟨status, fromMouse, sending, rfl⟩ := next_completes stepped complete
    simp only [InStep, sending] at inStep
    obtain ⟨position, first, second⟩ := inStep
    obtain ⟨-, -, -, -, atStart, -, -⟩ :=
      finish_counted screen packet.2 position first second
    rw [irq, handler_third screen packet.2 fromMouse packet.1.third position]
    exact atStart

/-! ## Runs -/

theorem inStep_boot : InStep boot := rfl

def step (screen : Screen) (before : Desk) (label : Label) (after : Desk) : Prop :=
  before.next screen label = some after

theorem follows_iff (screen : Screen) (before : Desk) (label : Label) (after : Desk)
    (inStep : before.InStep) (stepped : step screen before label after) :
    Follows screen before label after ↔ Fits before label := by
  unfold Follows Fits
  cases complete : completes before.sending label with
  | none => simpa using (next_other inStep stepped complete).1
  | some packet =>
    obtain ⟨status, fromMouse, sending, rfl⟩ := next_completes stepped complete
    simpa using reports_iff screen packet.2 fromMouse sending inStep

theorem tells_iff (screen : Screen) (before : Desk) (label : Label) (after : Desk)
    (inStep : before.InStep) (stepped : step screen before label after) :
    Tells screen before label after ↔ FitsStill before label := by
  unfold Tells FitsStill
  rw [follows_iff screen before label after inStep stepped]
  cases complete : completes before.sending label with
  | none => simp
  | some packet =>
    obtain ⟨status, fromMouse, sending, rfl⟩ := next_completes stepped complete
    simpa using fun _ => clicks_iff screen packet.2 fromMouse sending inStep

/-- In every run from boot the driver stays in step with the packets. It reports all of them right
exactly if each fits, and tells the changes of the buttons to the events only where there are none. -/
theorem packets_reported_iff {screen : Screen} {taken : List (Transition Desk Label)} {final : Desk}
    (trace : Trace (step screen) boot taken final) :
    Throughout InStep boot taken ∧
      ((∀ transition ∈ taken,
          Follows screen transition.before transition.label transition.after) ↔
        Guarded Fits taken) ∧
      ((∀ transition ∈ taken,
          Tells screen transition.before transition.label transition.after) ↔
        Guarded FitsStill taken) := by
  have always : Guarded (fun _ _ => True) taken := fun _ _ => trivial
  refine ⟨Trace.throughout_of_guarded InStep inStep_boot
    (fun _ _ _ inStep _ stepped => inStep_next inStep stepped) trace always, ?_, ?_⟩
  · exact Trace.forall_iff_guarded InStep inStep_boot
      (fun _ _ _ inStep _ stepped => inStep_next inStep stepped) (follows_iff screen) trace
  · exact Trace.forall_iff_guarded InStep inStep_boot
      (fun _ _ _ inStep _ stepped => inStep_next inStep stepped) (tells_iff screen) trace

/-- A surface over all of the screen. -/
def surfaceCompositor : Compositor := ⟨fun _ _ => some 1, fun _ => some (0, 0), 7, 0⟩

/-- The desk behind the bytes of a packet. -/
def behind (screen : Screen) (p : Packet) : Desk × Desk × Desk :=
  let first := boot.irq screen surfaceCompositor 0x21 p.first (.one p)
  let second := first.irq screen surfaceCompositor 0x21 p.second (.two p)
  (first, second, second.irq screen surfaceCompositor 0x21 p.third .idle)

/-- The left button goes down while the mouse moves by 5 and 3. -/
theorem packet_reported :
    let p : Packet := ⟨0x09, 5, 3, by decide⟩
    let path := behind ⟨1280, 800⟩ p
    let start : Label := .byte (.start p) 0x21 surfaceCompositor
    let more : Label := .byte .more 0x21 surfaceCompositor
    (∀ transition ∈ [Transition.mk boot start path.1, ⟨path.1, more, path.2.1⟩,
          ⟨path.2.1, more, path.2.2⟩],
        Follows ⟨1280, 800⟩ transition.before transition.label transition.after) ∧
      (path.2.2.mouse.x, path.2.2.mouse.y) = (645, 397) := by
  intro p path start more
  have trace : Trace (step ⟨1280, 800⟩) boot [⟨boot, start, path.1⟩, ⟨path.1, more, path.2.1⟩,
      ⟨path.2.1, more, path.2.2⟩] path.2.2 :=
    ((Trace.nil.snoc rfl).snoc rfl).snoc rfl
  refine ⟨(packets_reported_iff trace).2.1.mpr ?_, by decide⟩
  simp only [Guarded, List.forall_mem_cons, List.not_mem_nil, false_imp_iff, implies_true, and_true]
  refine ⟨by rintro _ ⟨⟩, by rintro _ ⟨⟩, ?_⟩
  rintro _ ⟨⟩
  exact ⟨⟨by decide, by decide⟩, by decide, by decide⟩

/-- A movement of 200 to the right takes the cursor 56 to the left. -/
theorem right_taken_for_left :
    let p : Packet := ⟨0x08, 200, 0, by decide⟩
    let (_, second, third) := behind ⟨1280, 800⟩ p
    p.moveX = 200 ∧ third.mouse.x = 584 ∧ onScreen (second.mouse.x + p.moveX) 1280 = 840 ∧
      second.next ⟨1280, 800⟩ (.byte .more 0x21 surfaceCompositor) = some third ∧
      ¬ Follows ⟨1280, 800⟩ second (.byte .more 0x21 surfaceCompositor) third :=
  ⟨by decide, by decide, by decide, rfl, fun reports => absurd reports.x (by decide)⟩

end Desk

end DBSos.Input
