import Mathlib.Algebra.Order.BigOperators.Group.List
import Mathlib.Algebra.Order.Group.Nat
import Mathlib.Data.List.GetD
import DBSos.Syscall.Titles

/-!
# What a receive delivers

`recv` takes up to 2048 bytes out of `rx_buf` before the handler looks at the length of the
caller's buffer, and the handler copies no more than that length. A byte between the two is
in neither place afterwards.
-/

namespace DBSos.Syscall

open DBSos.Lib DBSos.Net.Tcp

variable {τ : Type}

/-- Lists of chunks that are prefixes of others, one by one, spell the same text only if the
chunks are the same. -/
theorem flatMap_eq_iff_of_prefixes {α β : Type*} {short long : β → List α} {all : List β}
    (prefixes : ∀ b ∈ all, short b <+: long b) :
    all.flatMap short = all.flatMap long ↔ ∀ b ∈ all, short b = long b := by
  induction all with
  | nil => simp
  | cons b rest ih =>
    have first := prefixes b List.mem_cons_self
    have later := fun c member => prefixes c (List.mem_cons_of_mem b member)
    have shorter : (rest.flatMap short).length ≤ (rest.flatMap long).length := by
      simp only [List.length_flatMap]
      exact List.sum_le_sum fun c member => (later c member).length_le
    rw [List.forall_mem_cons, ← ih later, List.flatMap_cons, List.flatMap_cons]
    constructor
    · intro same
      have lengths := congrArg List.length same
      simp only [List.length_append] at lengths
      have atFirst := first.length_le
      exact List.append_inj same (by omega)
    · rintro ⟨atFirst, atRest⟩
      rw [atFirst, atRest]

namespace Machine

/-- The connection that a descriptor's entry names. -/
def connAt (m : Machine (Below τ)) (idx : BitVec 64) : Option Net.Tcp.Slot :=
  (m.fd idx).bind fun found => toConn (connOf found.2)

/-- What waits in the `rx_buf` of a connection. -/
def waiting (m : Machine (Below τ)) (i : Net.Tcp.Slot) : List Net.Byte := (m.rest.stack.conns i).rx

/-- A call with the value it returns. -/
abbrev Returned (τ : Type) := DescriptorCall τ × BitVec 64

/-- One call as a step. -/
def Returns (env : Services (Below τ)) (m : Machine (Below τ)) (call : Returned τ)
    (m' : Machine (Below τ)) : Prop :=
  m.descriptorCall env call.1 = some (call.2, m')

/-- The connection that a call receives from. -/
def receives (m : Machine (Below τ)) : DescriptorCall τ → Option Net.Tcp.Slot
  | .recv idx _ _ => m.connAt idx
  | _ => none

end Machine

section Deliveries

variable (i : Net.Tcp.Slot) (t : Transition (Machine (Below τ)) (Machine.Returned τ))

/-- The bytes that a receive from the connection has put into the caller's buffer. -/
def copied : List UInt8 :=
  match t.label with
  | (.recv idx buf _, value) =>
    if t.before.connAt idx = some i then t.after.readBytes buf value.toNat else []
  | _ => []

/-- The bytes that a receive has taken from the front of `rx_buf`. -/
def drained : List UInt8 :=
  if t.before.receives t.label.1 = some i then
    ((t.before.waiting i).take ((t.before.waiting i).length - (t.after.waiting i).length)).map
      UInt8.ofBitVec
  else []

end Deliveries

/-- A receive asks for all that `recv` will take. -/
def AsksForAll (i : Net.Tcp.Slot) (m : Machine (Below τ)) (call : Machine.Returned τ) : Prop :=
  match call.1 with
  | .recv idx _ len => m.connAt idx = some i → min 2048 (m.waiting i).length ≤ len.toNat
  | _ => True

instance (i : Net.Tcp.Slot) (m : Machine (Below τ)) (call : Machine.Returned τ) :
    Decidable (AsksForAll i m call) := by
  unfold AsksForAll
  split <;> infer_instance

namespace Machine

variable {env : Services (Below τ)} {m m' : Machine (Below τ)} {value : BitVec 64}
  {idx buf len : BitVec 64} {i : Net.Tcp.Slot}

/-- Bytes read back where they were written. -/
theorem readBytes_writeBytes (m : Machine (Below τ)) (buf : BitVec 64) {bytes : List UInt8}
    (short : bytes.length < 2 ^ 64) : (m.writeBytes buf bytes).readBytes buf bytes.length = bytes := by
  refine List.ext_getElem (by simp [readBytes]) fun k inRead inBytes => ?_
  have back : buf + BitVec.ofNat 64 k - buf = BitVec.ofNat 64 k := by
    rw [BitVec.add_comm, BitVec.add_sub_cancel]
  have position : (BitVec.ofNat 64 k).toNat = k := by
    rw [BitVec.toNat_ofNat, Nat.mod_eq_of_lt (by omega)]
  simp only [readBytes, writeBytes, List.getElem_map, List.getElem_range]
  rw [back, position, List.getD_eq_getElem _ _ inBytes]

/-- What a receive does: `recv` takes a prefix out of the buffer, and the caller gets a prefix
of that. -/
theorem recv_returned (connected : m.connAt idx = some i)
    (called : (m.recv (overStack env) idx buf len).returned = some (value, m')) :
    m'.waiting i = (m.waiting i).drop 2048 ∧
      m'.readBytes buf value.toNat =
        ((m.waiting i).take (min 2048 len.toNat)).map UInt8.ofBitVec := by
  obtain ⟨⟨slot, entry⟩, found, named⟩ := Option.bind_eq_some_iff.mp connected
  rcases withFd_returned called with ⟨absent, -, -⟩ | ⟨slot', entry', found', returned⟩
  · rw [found] at absent
    cases absent
  obtain ⟨rfl, rfl⟩ := Prod.mk.inj (Option.some.inj (found.symm.trans found'))
  simp only [overStack, overTcp, atConn, named, Option.elim_some, Syscall.received] at returned
  have count : (Fin.ofNat 2049 (m.rest.stack.recv i 2048).1.length).val =
      min 2048 (m.waiting i).length := by
    simp only [Stack.recv, Fin.val_ofNat, List.length_take, waiting]
    omega
  have left : ∀ after : Machine (Below τ), after.rest.stack = (m.rest.stack.recv i 2048).2 →
      after.waiting i = (m.waiting i).drop 2048 := by
    intro after stack
    simp only [waiting, stack, Stack.recv, Stack.log_conns, Stack.modify_conns_self]
    rw [← List.drop_eq_drop_min]
  split_ifs at returned with none
  · obtain ⟨rfl, rfl⟩ := Prod.mk.inj (Option.some.inj returned)
    rw [count] at none
    refine ⟨left _ rfl, ?_⟩
    rcases Nat.min_eq_zero_iff.mp none with impossible | empty
    · cases impossible
    · rw [List.length_eq_zero_iff.mp empty, List.take_nil, List.map_nil]
      exact rfl
  · obtain ⟨rfl, rfl⟩ := Prod.mk.inj (Option.some.inj returned)
    refine ⟨left _ rfl, ?_⟩
    rw [count]
    set bytes := (List.range (min (min 2048 (m.waiting i).length) len.toNat)).map fun k =>
      UInt8.ofBitVec ((m.rest.stack.recv i 2048).1.getD k 0) with copies
    have short : bytes.length = min (min 2048 (m.waiting i).length) len.toNat := by
      simp [copies]
    have value : (BitVec.ofNat 64 (min (min 2048 (m.waiting i).length) len.toNat)).toNat =
        bytes.length := by
      rw [BitVec.toNat_ofNat, short, Nat.mod_eq_of_lt (by omega)]
    rw [value, readBytes_writeBytes _ _ (by omega)]
    refine List.ext_getElem (by simp [copies, waiting]; omega) fun k inCopies inTaken => ?_
    simp only [copies, List.getElem_map, List.getElem_range, Stack.recv, List.getElem_take]
    rw [List.getD_eq_getElem, List.getElem_take]
    · rfl
    · simp only [List.length_take, List.length_map] at inTaken ⊢
      simp only [waiting] at inTaken
      omega

end Machine

section Runs

variable {env : Services (Below τ)} {i : Net.Tcp.Slot} {m m' : Machine (Below τ)}
  {call : Machine.Returned τ}

/-- The bytes that a receive takes out are those in front. -/
theorem drained_recv {idx buf len value : BitVec 64} (connected : m.connAt idx = some i)
    (left : m'.waiting i = (m.waiting i).drop 2048) :
    drained i ⟨m, (.recv idx buf len, value), m'⟩ = ((m.waiting i).take 2048).map UInt8.ofBitVec := by
  have count : (m.waiting i).length - (m'.waiting i).length = min 2048 (m.waiting i).length := by
    rw [left, List.length_drop]
    omega
  simp only [drained, Machine.receives, if_pos connected, count]
  rw [← List.take_eq_take_min]

/-- A receive gives the caller a prefix of what it takes out, and all of it exactly if the
caller asked for all. -/
theorem copied_prefix (returns : Machine.Returns env m call m') :
    copied i ⟨m, call, m'⟩ <+: drained i ⟨m, call, m'⟩ ∧
      (copied i ⟨m, call, m'⟩ = drained i ⟨m, call, m'⟩ ↔ AsksForAll i m call) := by
  obtain ⟨call, value⟩ := call
  cases call with
  | recv idx buf len =>
    by_cases connected : m.connAt idx = some i
    swap
    · have copies : copied i ⟨m, (.recv idx buf len, value), m'⟩ = [] := if_neg connected
      have drains : drained i ⟨m, (.recv idx buf len, value), m'⟩ = [] := if_neg connected
      rw [copies, drains]
      exact ⟨List.prefix_rfl, iff_of_true rfl fun here => absurd here connected⟩
    obtain ⟨left, given⟩ := Machine.recv_returned connected returns
    have copies : copied i ⟨m, (.recv idx buf len, value), m'⟩ =
        ((m.waiting i).take (min 2048 len.toNat)).map UInt8.ofBitVec := by
      simp only [copied, if_pos connected]
      exact given
    rw [copies, drained_recv connected left]
    refine ⟨(List.take_prefix_take_left (Nat.min_le_left _ _)).map _, ?_⟩
    constructor
    · intro same _
      have lengths := congrArg List.length same
      simp only [List.length_map, List.length_take] at lengths
      show min 2048 (m.waiting i).length ≤ len.toNat
      omega
    · intro asks
      have enough : min 2048 (m.waiting i).length ≤ len.toNat := asks connected
      rw [List.take_eq_take_min, List.take_eq_take_min (i := 2048)]
      congr 2
      omega
  | _ => exact ⟨List.prefix_rfl, iff_of_true rfl trivial⟩

/-- In every run of calls, the bytes that the receives from a connection give to their callers
are those that they take out of `rx_buf`, in order, exactly if each asks for all that `recv`
takes. -/
theorem copied_eq_drained_iff {start final : Machine (Below τ)}
    {taken : List (Transition (Machine (Below τ)) (Machine.Returned τ))}
    (trace : Trace (Machine.Returns env) start taken final) (i : Net.Tcp.Slot) :
    taken.flatMap (copied i) = taken.flatMap (drained i) ↔
      ∀ t ∈ taken, AsksForAll i t.before t.label := by
  have steps : ∀ t ∈ taken, copied i t <+: drained i t ∧
      (copied i t = drained i t ↔ AsksForAll i t.before t.label) :=
    fun t member => copied_prefix (trace.step_of_mem member)
  rw [flatMap_eq_iff_of_prefixes fun t member => (steps t member).1]
  exact forall₂_congr fun t member => (steps t member).2

end Runs

/-! ## A client that sends two bytes -/

/-- A call with the value that it is to return, as a step. -/
def returning (env : Services (Below τ)) (m : Machine (Below τ)) (call : Machine.Returned τ) :
    Option (Machine (Below τ)) :=
  (m.descriptorCall env call.1).bind fun (value, m') => if value = call.2 then some m' else none

theorem returns_of_returning {env : Services (Below τ)} {m m' : Machine (Below τ)}
    {call : Machine.Returned τ} (step : returning env m call = some m') :
    Machine.Returns env m call m' := by
  obtain ⟨⟨value, after⟩, called, same⟩ := Option.bind_eq_some_iff.mp step
  dsimp only at same
  split_ifs at same with equal
  obtain rfl := Option.some.inj same
  rw [Machine.Returns, called, equal]

/-- A segment of the client's connection. -/
def fromClient (payload : List Net.Byte) : DescriptorCall Unit :=
  .stack (.input ⟨clientIp, clientMac,
    (Net.Segment.mk 5000 80 1001 1 Net.flagAck payload).encode clientIp serverIp, 0⟩)

/-- A server on port 80 accepts a connection, and the client sends two bytes. -/
def greeting : List (Machine.Returned Unit) :=
  [(.compute fun addr => if addr = 2 then 80 else 0, 0), (.socket 2 1, 0), (.bind 0 0, 0),
    (.listen 0, 0), (.stack (syn 5000), 0), (.accept 0 0 0, 1), (fromClient [], 0),
    (fromClient [65, 66], 0)]

def idleMachine : Machine (Below Unit) :=
  { oneTask with rest := ⟨Stack.boot (fun _ => true) serverIp serverMac, [], ()⟩ }

/-- A caller with room for 64 bytes gets both. -/
theorem both_copied : ∃ taken final,
    Trace (Machine.Returns noServices) idleMachine taken final ∧
      taken.flatMap (drained 1) = [65, 66] ∧ taken.flatMap (copied 1) = [65, 66] := by
  obtain ⟨⟨taken, final⟩, recorded, drains, asks⟩ :
      ∃ run ∈ record (returning noServices) idleMachine
          (greeting ++ [(.recv 1 0x1000 64, 2)]),
        run.1.flatMap (drained 1) = [65, 66] ∧
          ∀ t ∈ run.1, AsksForAll 1 t.before t.label := by
    decide +kernel
  have trace : Trace (Machine.Returns noServices) idleMachine taken final :=
    (trace_of_record recorded).mono returns_of_returning
  exact ⟨taken, final, trace, drains, ((copied_eq_drained_iff trace 1).mpr asks).trans drains⟩

/-- A caller with room for one byte loses the other. -/
theorem second_byte_lost : ¬ ∀ (taken : List (Transition (Machine (Below Unit)) _))
    (final : Machine (Below Unit)) (i : Net.Tcp.Slot),
    Trace (Machine.Returns noServices) idleMachine taken final →
      taken.flatMap (copied i) = taken.flatMap (drained i) := by
  intro always
  obtain ⟨⟨taken, final⟩, recorded, copies, drains⟩ :
      ∃ run ∈ record (returning noServices) idleMachine
          (greeting ++ [(.recv 1 0x1000 1, 1), (.recv 1 0x1000 1, 0)]),
        run.1.flatMap (copied 1) = [65] ∧ run.1.flatMap (drained 1) = [65, 66] := by
    decide +kernel
  have same := always taken final 1 ((trace_of_record recorded).mono returns_of_returning)
  rw [copies, drains] at same
  cases same

end DBSos.Syscall
