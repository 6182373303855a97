import DBSos.Lib.Ring
import DBSos.Lib.Trace

/-!
# Socket pairs

The table of `unix.rs`: eight pairs with a ring for each direction. A handle is the number of the
slot, doubled, and the end. What callers see is a log of calls and answers; it says which handles
are open and which bytes are under way, whatever the order of the calls.
-/

namespace DBSos.Unix

open DBSos.Lib

/-- `MAX_PAIRS`. -/
def maxPairs : Nat := 8

/-- `RING`. -/
def ringSize : Nat := 2048

abbrev OneWay := Ring UInt8 ringSize

/-- `OneWay::empty`. -/
def OneWay.empty : OneWay := ⟨fun _ => 0, 0, 0, by decide, by decide⟩

structure Pair where
  used : Bool
  aToB : OneWay
  bToA : OneWay
  aOpen : Bool
  bOpen : Bool

/-- `Pair::empty`. -/
def Pair.empty : Pair := ⟨false, OneWay.empty, OneWay.empty, false, false⟩

/-- A pair as `pair` makes it. -/
def Pair.fresh : Pair := { Pair.empty with used := true, aOpen := true, bOpen := true }

/-- The first `MAX_PAIRS` entries are `PAIRS`. -/
abbrev Table := Nat → Pair

/-- `PAIRS` as it is initialised. -/
def Table.initial : Table := fun _ => Pair.empty

namespace Table

/-- `split`. -/
def split (t : Table) (h : Nat) : Option (Nat × Nat) :=
  let p := h / 2
  let e := h % 2
  if maxPairs ≤ p then none
  else if ¬ (t p).used then none
  else if (e = 0 ∧ ¬ (t p).aOpen) ∨ (e = 1 ∧ ¬ (t p).bOpen) then none
  else some (p, e)

/-- `pair`. -/
def pair (t : Table) : Option (Nat × Nat) × Table :=
  match (List.range maxPairs).find? fun i => !(t i).used with
  | none => (none, t)
  | some i => (some (i * 2, i * 2 + 1), Function.update t i Pair.fresh)

/-- `send`. -/
def send (t : Table) (h : Nat) (data : List UInt8) : Nat × Table :=
  match t.split h with
  | none => (0, t)
  | some (p, e) =>
    if e = 0 then
      let (n, ring) := (t p).aToB.push data
      (n, Function.update t p { t p with aToB := ring })
    else
      let (n, ring) := (t p).bToA.push data
      (n, Function.update t p { t p with bToA := ring })

/-- `recv`, into a buffer of `room` bytes. -/
def recv (t : Table) (h room : Nat) : List UInt8 × Table :=
  match t.split h with
  | none => ([], t)
  | some (p, e) =>
    if e = 0 then
      let (bytes, ring) := (t p).bToA.pop room
      (bytes, Function.update t p { t p with bToA := ring })
    else
      let (bytes, ring) := (t p).aToB.pop room
      (bytes, Function.update t p { t p with aToB := ring })

/-- `close`. -/
def close (t : Table) (h : Nat) : Table :=
  let p := h / 2
  let e := h % 2
  if maxPairs ≤ p ∨ ¬ (t p).used then t
  else
    let q : Pair := if e = 0 then { t p with aOpen := false } else { t p with bOpen := false }
    Function.update t p (if ¬ q.aOpen ∧ ¬ q.bOpen then Pair.empty else q)

end Table

/-! ## Logs -/

/-- A call with what it answers. -/
inductive Event where
  | pair (handles : Option (Nat × Nat))
  | send (h : Nat) (data : List UInt8) (accepted : Nat)
  | recv (h room : Nat) (bytes : List UInt8)
  | close (h : Nat)

/-- One call. -/
inductive Step : Table → Event → Table → Prop where
  | pair (t : Table) : Step t (.pair t.pair.1) t.pair.2
  | send (t : Table) (h : Nat) (data : List UInt8) :
      Step t (.send h data (t.send h data).1) (t.send h data).2
  | recv (t : Table) (h room : Nat) :
      Step t (.recv h room (t.recv h room).1) (t.recv h room).2
  | close (t : Table) (h : Nat) : Step t (.close h) (t.close h)

/-- The pair that a call is about. -/
def Event.slot : Event → Option Nat
  | .pair handles => handles.map fun pair => pair.1 / 2
  | .send h _ _ => some (h / 2)
  | .recv h _ _ => some (h / 2)
  | .close h => some (h / 2)

/-- The handle of the other end. -/
def peer (h : Nat) : Nat := if h % 2 = 0 then h + 1 else h - 1

/-- Whether a handle is open behind a call, from whether it was. -/
def nextOpen (h : Nat) (isOpen : Bool) : Event → Bool
  | .pair (some handles) => isOpen || h = handles.1 || h = handles.2
  | .close h' => isOpen && h ≠ h'
  | _ => isOpen

/-- `pair` has returned the handle and it has not been closed since. -/
def opened (log : List Event) (h : Nat) : Bool := log.foldl (nextOpen h) false

def nextSent (h : Nat) (bytes : List UInt8) : Event → List UInt8
  | .pair (some handles) => if h = handles.1 ∨ h = handles.2 then [] else bytes
  | .send h' data accepted => if h' = h then bytes ++ data.take accepted else bytes
  | _ => bytes

/-- The bytes accepted at a handle since `pair` returned it. -/
def sent (log : List Event) (h : Nat) : List UInt8 := log.foldl (nextSent h) []

def nextReceived (h : Nat) (bytes : List UInt8) : Event → List UInt8
  | .pair (some handles) => if h = handles.1 ∨ h = handles.2 then [] else bytes
  | .recv h' _ more => if h' = peer h then bytes ++ more else bytes
  | _ => bytes

/-- The bytes that the other end has received since. -/
def received (log : List Event) (h : Nat) : List UInt8 := log.foldl (nextReceived h) []

/-- What a call answers by the log alone. -/
def Answers (log : List Event) : Event → Prop
  | .pair handles => ∀ pair, handles = some pair →
      pair.1 < 2 * maxPairs ∧ pair.2 = peer pair.1 ∧ ¬ opened log pair.1 ∧ ¬ opened log pair.2
  | .send h data accepted => accepted =
      if opened log h then
        min data.length (ringSize - ((sent log h).length - (received log h).length))
      else 0
  | .recv h room bytes => bytes =
      if opened log h then
        ((sent log (peer h)).drop (received log (peer h)).length).take room
      else []
  | .close _ => True

namespace Pair

/-- Whether an end is open. -/
def isOpen (pair : Pair) (e : Nat) : Bool := if e = 0 then pair.aOpen else pair.bOpen

/-- The ring that an end sends into. -/
def way (pair : Pair) (e : Nat) : OneWay := if e = 0 then pair.aToB else pair.bToA

def setWay (pair : Pair) (e : Nat) (ring : OneWay) : Pair :=
  if e = 0 then { pair with aToB := ring } else { pair with bToA := ring }

@[simp] theorem used_setWay (pair : Pair) (e : Nat) (ring : OneWay) :
    (pair.setWay e ring).used = pair.used := by
  unfold setWay
  split_ifs <;> rfl

@[simp] theorem aOpen_setWay (pair : Pair) (e : Nat) (ring : OneWay) :
    (pair.setWay e ring).aOpen = pair.aOpen := by
  unfold setWay
  split_ifs <;> rfl

@[simp] theorem bOpen_setWay (pair : Pair) (e : Nat) (ring : OneWay) :
    (pair.setWay e ring).bOpen = pair.bOpen := by
  unfold setWay
  split_ifs <;> rfl

@[simp] theorem isOpen_setWay (pair : Pair) (e e' : Nat) (ring : OneWay) :
    (pair.setWay e ring).isOpen e' = pair.isOpen e' := by
  unfold isOpen
  rw [aOpen_setWay, bOpen_setWay]

theorem way_setWay (pair : Pair) {e e' : Nat} (ring : OneWay) (bit : e < 2) (bit' : e' < 2) :
    (pair.setWay e ring).way e' = if e' = e then ring else pair.way e' := by
  unfold setWay way
  obtain rfl | rfl : e = 0 ∨ e = 1 := by omega
  all_goals obtain rfl | rfl : e' = 0 ∨ e' = 1 := by omega
  all_goals rfl

end Pair

/-- The table is what the log says. -/
structure Mirrors (log : List Event) (t : Table) : Prop where
  beyond : ∀ p, maxPairs ≤ p → t p = Pair.empty
  used : ∀ p, (t p).used = ((t p).aOpen || (t p).bOpen)
  ends : ∀ h, (t (h / 2)).isOpen (h % 2) = opened log h
  flow : ∀ h, (t (h / 2)).used = true →
    sent log h = received log h ++ ((t (h / 2)).way (h % 2)).contents

variable {log : List Event} {t t' : Table} {h : Nat} {event : Event}

theorem mirrors_initial : Mirrors [] Table.initial where
  beyond _ _ := rfl
  used _ := rfl
  ends h := by
    change (if h % 2 = 0 then false else false) = false
    split_ifs <;> rfl
  flow _ used := by cases used

theorem opened_concat : opened (log ++ [event]) h = nextOpen h (opened log h) event := by
  rw [opened, List.foldl_append, List.foldl_cons, List.foldl_nil, opened]

theorem sent_concat : sent (log ++ [event]) h = nextSent h (sent log h) event := by
  rw [sent, List.foldl_append, List.foldl_cons, List.foldl_nil, sent]

theorem received_concat : received (log ++ [event]) h = nextReceived h (received log h) event := by
  rw [received, List.foldl_append, List.foldl_cons, List.foldl_nil, received]

/-- A handle is accepted where the log says that it is open. -/
theorem Mirrors.split_eq (mirrors : Mirrors log t) (h : Nat) :
    t.split h = if opened log h then some (h / 2, h % 2) else none := by
  have used := mirrors.used (h / 2)
  have bit : h % 2 = 0 ∨ h % 2 = 1 := by omega
  rw [← mirrors.ends h]
  unfold Table.split Pair.isOpen
  dsimp only
  by_cases inside : maxPairs ≤ h / 2
  · rw [mirrors.beyond _ inside, if_pos inside]
    simp [Pair.empty]
  · rw [if_neg inside, used]
    rcases bit with zero | one
    · rw [zero]
      cases (t (h / 2)).aOpen <;> cases (t (h / 2)).bOpen <;> rfl
    · rw [one]
      cases (t (h / 2)).aOpen <;> cases (t (h / 2)).bOpen <;> rfl

/-- An open handle is one of a pair in use. -/
theorem Mirrors.used_of_opened (mirrors : Mirrors log t) (isOpen : opened log h = true) :
    (t (h / 2)).used = true := by
  rw [← mirrors.ends h] at isOpen
  rw [mirrors.used]
  unfold Pair.isOpen at isOpen
  split_ifs at isOpen
  · rw [isOpen, Bool.true_or]
  · rw [isOpen, Bool.or_true]

theorem peer_div (h : Nat) : peer h / 2 = h / 2 := by
  unfold peer
  split_ifs <;> omega

theorem peer_mod (h : Nat) : peer h % 2 = if h % 2 = 0 then 1 else 0 := by
  unfold peer
  split_ifs <;> omega

theorem peer_peer (h : Nat) : peer (peer h) = h := by
  unfold peer
  split_ifs <;> omega

/-- Handles are the same if slot and end are. -/
theorem handle_ext {h g : Nat} (slot : h / 2 = g / 2) (side : h % 2 = g % 2) : h = g := by omega

/-- An open end sends into its ring. -/
theorem Mirrors.send_eq (mirrors : Mirrors log t) (isOpen : opened log h = true)
    (data : List UInt8) :
    t.send h data = ((((t (h / 2)).way (h % 2)).push data).1,
      Function.update t (h / 2)
        ((t (h / 2)).setWay (h % 2) (((t (h / 2)).way (h % 2)).push data).2)) := by
  unfold Table.send Pair.way Pair.setWay
  rw [mirrors.split_eq, if_pos isOpen]
  dsimp only
  split_ifs <;> rfl

/-- An open end receives from the ring of the other. -/
theorem Mirrors.recv_eq (mirrors : Mirrors log t) (isOpen : opened log h = true) (room : Nat) :
    t.recv h room = ((((t (h / 2)).way (peer h % 2)).pop room).1,
      Function.update t (h / 2)
        ((t (h / 2)).setWay (peer h % 2) (((t (h / 2)).way (peer h % 2)).pop room).2)) := by
  unfold Table.recv Pair.way Pair.setWay
  rw [mirrors.split_eq, if_pos isOpen, peer_mod]
  dsimp only
  split_ifs <;> first | rfl | contradiction

/-- A call that changes one ring, and what the log says about its handle. -/
theorem Mirrors.rewire (mirrors : Mirrors log t) {g : Nat} {ring : OneWay}
    (live : (t (g / 2)).used = true) (sameOpen : ∀ h, opened (log ++ [event]) h = opened log h)
    (others : ∀ h, h ≠ g → sent (log ++ [event]) h = sent log h ∧
      received (log ++ [event]) h = received log h)
    (here : sent (log ++ [event]) g = received (log ++ [event]) g ++ ring.contents) :
    Mirrors (log ++ [event])
      (Function.update t (g / 2) ((t (g / 2)).setWay (g % 2) ring)) where
  beyond p outside := by
    have other : p ≠ g / 2 := by
      rintro rfl
      rw [mirrors.beyond _ outside] at live
      cases live
    rw [Function.update_of_ne other, mirrors.beyond p outside]
  used p := by
    by_cases slot : p = g / 2
    · rw [slot, Function.update_self, Pair.used_setWay, Pair.aOpen_setWay, Pair.bOpen_setWay,
        mirrors.used]
    · rw [Function.update_of_ne slot, mirrors.used]
  ends h := by
    rw [sameOpen, ← mirrors.ends]
    by_cases slot : h / 2 = g / 2
    · rw [slot, Function.update_self, Pair.isOpen_setWay]
    · rw [Function.update_of_ne slot]
  flow h inUse := by
    by_cases same : h = g
    · rw [same, Function.update_self, Pair.way_setWay _ _ (Nat.mod_lt _ (by decide))
        (Nat.mod_lt _ (by decide)), if_pos rfl, here]
    · obtain ⟨sentSame, receivedSame⟩ := others h same
      rw [sentSame, receivedSame]
      by_cases slot : h / 2 = g / 2
      · have side : h % 2 ≠ g % 2 := fun side => same (handle_ext slot side)
        rw [slot, Function.update_self, Pair.way_setWay _ _ (Nat.mod_lt _ (by decide))
          (Nat.mod_lt _ (by decide)), if_neg side, ← slot]
        exact mirrors.flow h (slot ▸ live)
      · rw [Function.update_of_ne slot] at inUse ⊢
        exact mirrors.flow h inUse

/-- A refused call leaves everything as it was. -/
theorem Mirrors.quiet (mirrors : Mirrors log t)
    (sameOpen : ∀ h, opened (log ++ [event]) h = opened log h)
    (same : ∀ h, sent (log ++ [event]) h = sent log h ∧
      received (log ++ [event]) h = received log h) : Mirrors (log ++ [event]) t where
  beyond := mirrors.beyond
  used := mirrors.used
  ends h := by rw [sameOpen, mirrors.ends]
  flow h inUse := by
    rw [(same h).1, (same h).2]
    exact mirrors.flow h inUse

/-! ## One call -/

theorem Mirrors.send_refused (mirrors : Mirrors log t) (shut : ¬ opened log h = true)
    (data : List UInt8) : t.send h data = (0, t) := by
  rw [Table.send, mirrors.split_eq, if_neg shut]

theorem Mirrors.recv_refused (mirrors : Mirrors log t) (shut : ¬ opened log h = true)
    (room : Nat) : t.recv h room = ([], t) := by
  rw [Table.recv, mirrors.split_eq, if_neg shut]

theorem Mirrors.send (mirrors : Mirrors log t) (h : Nat) (data : List UInt8) :
    Mirrors (log ++ [.send h data (t.send h data).1]) (t.send h data).2 := by
  by_cases isOpen : opened log h = true
  · have live := mirrors.used_of_opened isOpen
    rw [mirrors.send_eq isOpen]
    refine mirrors.rewire live (fun _ => opened_concat) (fun h' other => ⟨?_, ?_⟩) ?_
    · exact sent_concat.trans (if_neg (Ne.symm other))
    · exact received_concat
    · rw [sent_concat, received_concat, Ring.contents_push, ← List.append_assoc]
      change (if h = h then sent log h ++ _ else _) = received log h ++ _ ++ _
      rw [if_pos rfl, mirrors.flow h live]
  · rw [mirrors.send_refused isOpen]
    refine mirrors.quiet (fun _ => opened_concat) fun h' => ⟨?_, received_concat⟩
    rw [sent_concat]
    change (if h = h' then sent log h' ++ [] else _) = _
    rw [List.append_nil, ite_self]

theorem Mirrors.recv (mirrors : Mirrors log t) (h room : Nat) :
    Mirrors (log ++ [.recv h room (t.recv h room).1]) (t.recv h room).2 := by
  by_cases isOpen : opened log h = true
  · have live : (t (peer h / 2)).used = true := by
      rw [peer_div]
      exact mirrors.used_of_opened isOpen
    rw [mirrors.recv_eq isOpen, ← peer_div h]
    refine mirrors.rewire live (fun _ => opened_concat) (fun h' other => ⟨?_, ?_⟩) ?_
    · exact sent_concat
    · refine received_concat.trans (if_neg fun same => other ?_)
      rw [same, peer_peer]
    · rw [sent_concat, received_concat]
      change sent log (peer h) = (if h = peer (peer h) then _ else _) ++ _
      rw [if_pos (peer_peer h).symm, List.append_assoc, ← Ring.contents_pop, mirrors.flow _ live]
  · rw [mirrors.recv_refused isOpen]
    refine mirrors.quiet (fun _ => opened_concat) fun h' => ⟨sent_concat, ?_⟩
    rw [received_concat]
    change (if h = peer h' then received log h' ++ [] else _) = _
    rw [List.append_nil, ite_self]

/-- A pair that is not in use has no open end. -/
theorem Mirrors.shut_of_idle (mirrors : Mirrors log t) {p : Nat} (idle : (t p).used = false)
    (e : Nat) : (t p).isOpen e = false := by
  obtain ⟨first, second⟩ := Bool.or_eq_false_iff.mp ((mirrors.used p).symm.trans idle)
  unfold Pair.isOpen
  split_ifs
  · exact first
  · exact second

/-- `pair` takes a slot that is not in use, or there is none. -/
theorem pair_cases (t : Table) : t.pair = (none, t) ∨
    ∃ i < maxPairs, (t i).used = false ∧
      t.pair = (some (i * 2, i * 2 + 1), Function.update t i Pair.fresh) := by
  unfold Table.pair
  cases found : (List.range maxPairs).find? fun i => !(t i).used with
  | none => exact .inl rfl
  | some i =>
    have idle := List.find?_some found
    have member := List.mem_range.mp (List.mem_of_find?_eq_some found)
    exact .inr ⟨i, member, by simpa using idle, rfl⟩

theorem Mirrors.pair (mirrors : Mirrors log t) :
    Mirrors (log ++ [.pair t.pair.1]) t.pair.2 := by
  rcases pair_cases t with none | ⟨i, inside, idle, taken⟩
  · rw [none]
    exact mirrors.quiet (fun _ => opened_concat) fun _ => ⟨sent_concat, received_concat⟩
  · rw [taken]
    dsimp only
    have place (h : Nat) : (h = i * 2 ∨ h = i * 2 + 1) ↔ h / 2 = i := by omega
    refine ⟨fun p outside => ?_, fun p => ?_, fun h => ?_, fun h inUse => ?_⟩
    · rw [Function.update_of_ne (Nat.ne_of_gt (Nat.lt_of_lt_of_le inside outside)),
        mirrors.beyond p outside]
    · by_cases slot : p = i
      · rw [slot, Function.update_self]
        rfl
      · rw [Function.update_of_ne slot, mirrors.used]
    · rw [opened_concat, nextOpen, Bool.or_assoc, ← Bool.decide_or, ← mirrors.ends]
      by_cases slot : h / 2 = i
      · rw [decide_eq_true ((place h).mpr slot), Bool.or_true, slot, Function.update_self]
        unfold Pair.isOpen
        split_ifs <;> rfl
      · rw [decide_eq_false fun same => slot ((place h).mp same), Bool.or_false,
          Function.update_of_ne slot]
    · rw [sent_concat, received_concat, nextSent, nextReceived]
      by_cases slot : h / 2 = i
      · rw [if_pos ((place h).mpr slot), if_pos ((place h).mpr slot), slot, Function.update_self]
        unfold Pair.way
        split_ifs <;> rfl
      · rw [if_neg fun same => slot ((place h).mp same),
          if_neg fun same => slot ((place h).mp same)]
        rw [Function.update_of_ne slot] at inUse ⊢
        exact mirrors.flow h inUse

/-- The pair behind `close`, with its other end as it was. -/
def Pair.shut (pair : Pair) (e : Nat) : Pair :=
  if e = 0 then { pair with aOpen := false } else { pair with bOpen := false }

theorem Pair.isOpen_shut (pair : Pair) {e e' : Nat} (bit : e < 2) (bit' : e' < 2) :
    (pair.shut e).isOpen e' = (pair.isOpen e' && decide (e' ≠ e)) := by
  unfold Pair.shut Pair.isOpen
  obtain rfl | rfl : e = 0 ∨ e = 1 := by omega
  all_goals obtain rfl | rfl : e' = 0 ∨ e' = 1 := by omega
  all_goals simp

theorem Pair.way_shut (pair : Pair) (e e' : Nat) : (pair.shut e).way e' = pair.way e' := by
  unfold Pair.shut Pair.way
  split_ifs <;> rfl

theorem Mirrors.close (mirrors : Mirrors log t) (h : Nat) :
    Mirrors (log ++ [.close h]) (t.close h) := by
  have sameSent (h' : Nat) : sent (log ++ [.close h]) h' = sent log h' := sent_concat
  have sameReceived (h' : Nat) : received (log ++ [.close h]) h' = received log h' :=
    received_concat
  have sameOpen (h' : Nat) : opened (log ++ [.close h]) h' = (opened log h' && decide (h' ≠ h)) :=
    opened_concat
  by_cases refused : maxPairs ≤ h / 2 ∨ ¬ (t (h / 2)).used = true
  · have idle : (t (h / 2)).used = false := by
      rcases refused with outside | idle
      · rw [mirrors.beyond _ outside]
        rfl
      · exact Bool.eq_false_iff.mpr idle
    have still : t.close h = t := if_pos refused
    rw [still]
    refine mirrors.quiet (fun h' => ?_) fun h' => ⟨sameSent h', sameReceived h'⟩
    rw [sameOpen]
    by_cases same : h' = h
    · rw [same, ← mirrors.ends, mirrors.shut_of_idle idle, Bool.false_and]
    · rw [decide_eq_true same, Bool.and_true]
  · obtain ⟨inside, live⟩ := not_or.mp refused
    have closed : t.close h = Function.update t (h / 2)
        (if ¬ ((t (h / 2)).shut (h % 2)).aOpen ∧ ¬ ((t (h / 2)).shut (h % 2)).bOpen
          then Pair.empty else (t (h / 2)).shut (h % 2)) := if_neg refused
    have gone {pair : Pair} (both : ¬ pair.aOpen = true ∧ ¬ pair.bOpen = true) (e : Nat) :
        pair.isOpen e = Pair.empty.isOpen e := by
      unfold Pair.isOpen Pair.empty
      rw [Bool.eq_false_iff.mpr both.1, Bool.eq_false_iff.mpr both.2]
    rw [closed]
    refine ⟨fun p outside => ?_, fun p => ?_, fun h' => ?_, fun h' inUse => ?_⟩
    · rw [Function.update_of_ne (by omega), mirrors.beyond p outside]
    · by_cases slot : p = h / 2
      · rw [slot, Function.update_self]
        split_ifs with both
        · rfl
        · have used : ((t (h / 2)).shut (h % 2)).used = true := by
            unfold Pair.shut
            split_ifs <;> exact not_not.mp live
          rw [used]
          symm
          rw [Bool.or_eq_true]
          by_contra neither
          exact both (not_or.mp neither)
      · rw [Function.update_of_ne slot, mirrors.used]
    · rw [sameOpen, ← mirrors.ends]
      by_cases slot : h' / 2 = h / 2
      · have side : decide (h' ≠ h) = decide (h' % 2 ≠ h % 2) :=
          decide_eq_decide.mpr (by omega)
        rw [side, slot, Function.update_self,
          ← Pair.isOpen_shut _ (Nat.mod_lt _ (by decide)) (Nat.mod_lt _ (by decide))]
        split_ifs with both
        · exact (gone both _).symm
        · rfl
      · have other : h' ≠ h := fun same => slot (by rw [same])
        rw [Function.update_of_ne slot, decide_eq_true other, Bool.and_true]
    · rw [sameSent, sameReceived]
      by_cases slot : h' / 2 = h / 2
      · rw [slot, Function.update_self] at inUse ⊢
        split_ifs at inUse ⊢ with both
        · cases inUse
        · rw [Pair.way_shut, ← slot]
          exact mirrors.flow h' (slot ▸ not_not.mp live)
      · rw [Function.update_of_ne slot] at inUse ⊢
        exact mirrors.flow h' inUse

/-- The table follows the log. -/
theorem Mirrors.step (mirrors : Mirrors log t) (step : Step t event t') :
    Mirrors (log ++ [event]) t' := by
  cases step with
  | pair => exact mirrors.pair
  | send h data => exact mirrors.send h data
  | recv h room => exact mirrors.recv h room
  | close h => exact mirrors.close h

/-- So every call answers by the log. -/
theorem Mirrors.answers (mirrors : Mirrors log t) (step : Step t event t') :
    Answers log event := by
  have buffered {h : Nat} (live : (t (h / 2)).used = true) :
      ((t (h / 2)).way (h % 2)).contents = (sent log h).drop (received log h).length := by
    rw [mirrors.flow h live, List.drop_left]
  cases step with
  | pair =>
    intro handles returned
    rcases pair_cases t with none | ⟨i, inside, idle, taken⟩
    · rw [none] at returned
      cases returned
    · rw [taken] at returned
      cases returned
      have shut {h : Nat} (slot : h / 2 = i) : ¬ opened log h = true := by
        rw [← mirrors.ends, slot, mirrors.shut_of_idle idle]
        exact Bool.false_ne_true
      refine ⟨by dsimp only; omega, ?_, shut (by dsimp only; omega), shut (by dsimp only; omega)⟩
      unfold peer
      dsimp only
      rw [if_pos (by omega)]
  | send h data =>
    unfold Answers
    dsimp only
    split_ifs with isOpen
    · have live := mirrors.used_of_opened isOpen
      rw [mirrors.send_eq isOpen, Ring.push_fst, ← Ring.length_contents, buffered live,
        List.length_drop]
    · rw [mirrors.send_refused isOpen]
  | recv h room =>
    unfold Answers
    dsimp only
    split_ifs with isOpen
    · have live : (t (peer h / 2)).used = true := by
        rw [peer_div]
        exact mirrors.used_of_opened isOpen
      rw [mirrors.recv_eq isOpen, Ring.pop_fst, ← peer_div h, buffered live]
    · rw [mirrors.recv_refused isOpen]
  | close => trivial

theorem slot_of_split {place : Nat × Nat} (found : t.split h = some place) : place.1 = h / 2 := by
  unfold Table.split at found
  dsimp only at found
  split_ifs at found
  cases found
  rfl

/-- A call leaves every other pair alone. -/
theorem frame_of_step (step : Step t event t') {p : Nat} (other : event.slot ≠ some p) :
    t' p = t p := by
  have apart {h : Nat} (slot : some (h / 2) ≠ some p) : p ≠ h / 2 := fun same => slot (same ▸ rfl)
  cases step with
  | pair =>
    rcases pair_cases t with none | ⟨i, -, -, taken⟩
    · rw [none]
    · rw [taken] at other ⊢
      refine Function.update_of_ne (fun same => other ?_) _ _
      change some (i * 2 / 2) = some p
      rw [Nat.mul_div_cancel _ (by decide), same]
  | send h data =>
    unfold Table.send
    cases found : t.split h with
    | none => rfl
    | some place =>
      have elsewhere : p ≠ place.1 := slot_of_split found ▸ apart other
      dsimp only
      split_ifs
      · exact Function.update_of_ne elsewhere _ _
      · exact Function.update_of_ne elsewhere _ _
  | recv h room =>
    unfold Table.recv
    cases found : t.split h with
    | none => rfl
    | some place =>
      have elsewhere : p ≠ place.1 := slot_of_split found ▸ apart other
      dsimp only
      split_ifs
      · exact Function.update_of_ne elsewhere _ _
      · exact Function.update_of_ne elsewhere _ _
  | close h =>
    unfold Table.close
    dsimp only
    split_ifs
    · rfl
    all_goals exact Function.update_of_ne (apart other) _ _

/-! ## Any order of calls -/

theorem mirrors_of_trace {taken : List (Transition Table Event)}
    (trace : Trace Step Table.initial taken t) : Mirrors (taken.map Transition.label) t := by
  induction trace with
  | nil => exact mirrors_initial
  | snoc _ step ih =>
    rw [List.map_append]
    exact ih.step step

/-- After any calls in any order a handle is accepted exactly between the `pair` that returned it
and its `close`, what has been received in a direction of a live pair is a prefix of what was
accepted, at most 2048 bytes behind it, and the next call answers by that alone and leaves every
other pair as it is. -/
theorem pairs_lawful {taken : List (Transition Table Event)}
    (trace : Trace Step Table.initial taken t) :
    (∀ h, (t.split h).isSome = opened (taken.map Transition.label) h) ∧
      (∀ h, (opened (taken.map Transition.label) h ∨
          opened (taken.map Transition.label) (peer h)) →
        received (taken.map Transition.label) h <+: sent (taken.map Transition.label) h ∧
          (sent (taken.map Transition.label) h).length ≤
            (received (taken.map Transition.label) h).length + ringSize) ∧
      ∀ event t', Step t event t' → Answers (taken.map Transition.label) event ∧
        ∀ p, event.slot ≠ some p → t' p = t p := by
  have mirrors := mirrors_of_trace trace
  refine ⟨fun h => ?_, fun h live => ?_, fun event t' step => ?_⟩
  · rw [mirrors.split_eq]
    cases opened (taken.map Transition.label) h <;> rfl
  · have inUse : (t (h / 2)).used = true := by
      rcases live with here | there
      · exact mirrors.used_of_opened here
      · rw [← peer_div]
        exact mirrors.used_of_opened there
    have flow := mirrors.flow h inUse
    refine ⟨⟨_, flow.symm⟩, ?_⟩
    rw [flow, List.length_append, Ring.length_contents]
    exact Nat.add_le_add_left (Ring.len_le _) _
  · exact ⟨mirrors.answers step, fun p => frame_of_step step⟩

/-- A pair, three bytes, of which two are received. -/
theorem pairs_lawful_exchange :
    ∃ (taken : List (Transition Table Event)) (t : Table), Trace Step Table.initial taken t ∧
      taken.length = 3 ∧ ∀ h, (t.split h).isSome = opened (taken.map Transition.label) h := by
  have trace := ((Trace.nil.snoc (Step.pair Table.initial)).snoc (Step.send _ 0 [1, 2, 3])).snoc
    (Step.recv _ 1 2)
  exact ⟨_, _, trace, rfl, (pairs_lawful trace).1⟩

end DBSos.Unix
