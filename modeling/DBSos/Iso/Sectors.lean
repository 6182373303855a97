import DBSos.Lib.Buffer

/-!
# Directory sectors

Both loops of `isofs.rs` over a sector, in `scan_sector` and in `iso_readdir`, go from record
to record by the length in the first byte, and end at a length of 0. A sector that holds
records yields them.
-/

namespace DBSos.Iso

open DBSos.Lib

abbrev Path := List UInt8

/-- `'/'`, `'.'` and `';'`. -/
def slash : UInt8 := 0x2F
def dot : UInt8 := 0x2E
def semicolon : UInt8 := 0x3B

/-! ## The loops -/

/-- What the loops read of a record. -/
structure Slot where
  name : List UInt8
  extent : Nat
  size : Nat
  flags : UInt8
deriving DecidableEq

/-- `le32`. -/
def le32 (buf : Buffer) (o : Nat) : Nat := buf.number o 4

/-- The record at an offset, unless it has no name or the name leaves the sector. -/
def slotAt (buf : Buffer) (o : Nat) : Option Slot :=
  let nl := (buf (o + 32)).toNat
  if 0 < nl ∧ o + 33 + nl ≤ 2048 then
    some ⟨buf.slice (o + 33) nl, le32 buf (o + 2), le32 buf (o + 10), buf (o + 25)⟩
  else none

/-- The records from an offset on. A turn takes at least one byte, so that as many turns as
bytes are left are enough. -/
def slotsFrom (buf : Buffer) : (turns o : Nat) → List Slot
  | 0, _ => []
  | turns + 1, o =>
    let rl := (buf o).toNat
    if 2048 < o + 33 ∨ rl = 0 ∨ 2048 < o + rl then []
    else (slotAt buf o).toList ++ slotsFrom buf turns (o + rl)

/-- The records of a sector. -/
def slots (buf : Buffer) : List Slot := slotsFrom buf 2048 0

/-- `strip_ver`. -/
def stripVer (name : List UInt8) : List UInt8 :=
  if 2 < name.length ∧ name[name.length - 2]? = some semicolon then name.take (name.length - 2)
  else name

/-- A lower case letter as upper case. -/
def upper (c : UInt8) : UInt8 := if 0x61 ≤ c ∧ c ≤ 0x7A then c - 32 else c

/-- The codes of `.` and `..`. -/
def IsDot (name : List UInt8) : Prop := name = [0] ∨ name = [1]

instance : DecidablePred IsDot := fun _ => instDecidableOr

/-- The components `.` and `..`. -/
def WantsDot (comp : List UInt8) : Prop := comp = [dot] ∨ comp = [dot, dot]

instance : DecidablePred WantsDot := fun _ => instDecidableOr

/-- The test of `scan_sector`. -/
def Slot.Matches (slot : Slot) (comp : List UInt8) : Prop :=
  let cmp := if IsDot slot.name then slot.name else stripVer slot.name
  ((IsDot slot.name ↔ WantsDot comp) ∧ cmp.length = comp.length) ∧
  (∀ pair ∈ cmp.zip comp,
    if IsDot slot.name then pair.1 = pair.2 else upper pair.1 = upper pair.2) ∧
  (IsDot slot.name → (slot.name = [0] ∧ comp = [dot]) ∨ (slot.name = [1] ∧ comp = [dot, dot]))

instance (slot : Slot) : DecidablePred slot.Matches := fun _ =>
  @instDecidableAnd _ _ inferInstance (@instDecidableAnd _ _ (List.decidableBAll _ _) inferInstance)

/-- `scan_sector`. -/
def scanSector (buf : Buffer) (comp : List UInt8) : Option Slot :=
  (slots buf).find? fun slot => slot.Matches comp

/-- No record answers to `.` or `..`: the codes in the records are 0 and 1, and the test
compares them with the characters. -/
theorem not_matches_dot (slot : Slot) {comp : List UInt8} (wants : WantsDot comp) :
    ¬ slot.Matches comp := by
  rintro ⟨⟨both, length⟩, same, -⟩
  have isDot := both.mpr wants
  simp only [if_pos isDot] at same length
  rcases isDot with code | code <;> rcases wants with rfl | rfl <;> rw [code] at same length
  · exact absurd (same _ (List.mem_singleton_self _)) (by decide)
  · cases length
  · exact absurd (same _ (List.mem_singleton_self _)) (by decide)
  · cases length

theorem map_eq_map_iff_zip {f : UInt8 → UInt8} {a b : List UInt8} :
    a.map f = b.map f ↔ a.length = b.length ∧ ∀ pair ∈ a.zip b, f pair.1 = f pair.2 := by
  induction a generalizing b with
  | nil => cases b <;> simp
  | cons x a ih =>
    cases b with
    | nil => simp
    | cons y b =>
      simp only [List.map_cons, List.cons.injEq, ih, List.length_cons,
        Nat.succ.injEq, List.zip_cons_cons, List.mem_cons, forall_eq_or_imp]
      tauto

/-- Every other component is compared without its case, and with the version cut. -/
theorem matches_iff (slot : Slot) {comp : List UInt8} (plain : ¬ WantsDot comp) :
    slot.Matches comp ↔
      ¬ IsDot slot.name ∧ (stripVer slot.name).map upper = comp.map upper := by
  unfold Slot.Matches
  by_cases isDot : IsDot slot.name
  · refine iff_of_false (fun all => plain (all.1.1.mp isDot)) fun all => all.1 isDot
  · simp only [isDot, plain, if_false, map_eq_map_iff_zip, false_imp_iff, and_true, true_and,
      not_false_eq_true]

/-! ## Records -/

/-- A directory record: its length stands in its first byte, and its name is inside. -/
structure Record where
  bytes : List UInt8
  length : (bytes.getD 0 0).toNat = bytes.length
  named : 0 < (bytes.getD 32 0).toNat
  inside : 33 + (bytes.getD 32 0).toNat ≤ bytes.length

namespace Record

variable (r : Record)

/-- The bytes from the start of the record. -/
def buf : Buffer := fun i => r.bytes.getD i 0

def name : List UInt8 := r.buf.slice 33 (r.buf 32).toNat
def extent : Nat := le32 r.buf 2
def size : Nat := le32 r.buf 10
def flags : UInt8 := r.buf 25

/-- What a loop reads of it. -/
def slot : Slot := ⟨r.name, r.extent, r.size, r.flags⟩

end Record

/-- Records one behind another. -/
def contents (rs : List Record) : List UInt8 := rs.flatMap Record.bytes

/-- A sector holds records, and zeros behind them. -/
structure Holds (buf : Buffer) (rs : List Record) : Prop where
  room : (contents rs).length ≤ 2048
  bytes : ∀ i < 2048, buf i = (contents rs).getD i 0

variable {buf : Buffer} {r : Record} {rs : List Record} {o : Nat}

theorem slice_congr {buf' : Buffer} {len p : Nat} (same : ∀ i < len, buf (o + i) = buf' (p + i)) :
    buf.slice o len = buf'.slice p len :=
  List.map_congr_left fun i inRange => same i (List.mem_range.mp inRange)

theorem number_shift {buf' : Buffer} {len p : Nat}
    (same : ∀ i < len, buf (o + i) = buf' (p + i)) : buf.number o len = buf'.number p len := by
  induction len generalizing o p with
  | zero => rfl
  | succ len ih =>
    have first : buf o = buf' p := same 0 (Nat.succ_pos len)
    rw [Buffer.number, Buffer.number, first, ih fun i below => ?_]
    have next := same (i + 1) (Nat.succ_lt_succ below)
    rw [Nat.add_right_comm, Nat.add_right_comm p 1, Nat.add_assoc, Nat.add_assoc]
    exact next

/-- A record that stands at an offset is read there. -/
theorem slotAt_record (room : o + r.bytes.length ≤ 2048)
    (same : ∀ i < r.bytes.length, buf (o + i) = r.buf i) : slotAt buf o = some r.slot := by
  have inside := r.inside
  have named := r.named
  change 33 + (r.buf 32).toNat ≤ _ at inside
  change 0 < (r.buf 32).toNat at named
  have nl : buf (o + 32) = r.buf 32 := same 32 (by omega)
  have number {at' : Nat} (fits : at' + 4 ≤ r.bytes.length) :
      buf.number (o + at') 4 = r.buf.number at' 4 :=
    number_shift fun i below => by rw [Nat.add_assoc]; exact same _ (by omega)
  unfold slotAt
  rw [nl, if_pos ⟨named, by omega⟩, Record.slot, Record.name, Record.extent, Record.size,
    Record.flags, le32, le32, le32, le32, number (by omega), number (by omega),
    same 25 (by omega)]
  rw [slice_congr fun i below => ?_]
  rw [Nat.add_assoc]
  exact same _ (by omega)

theorem slotsFrom_holds {turns : Nat} (enough : 2048 ≤ o + turns)
    (room : o + (contents rs).length ≤ 2048)
    (bytes : ∀ i, o + i < 2048 → buf (o + i) = (contents rs).getD i 0) :
    slotsFrom buf turns o = rs.map Record.slot := by
  induction rs generalizing turns o with
  | nil =>
    cases turns with
    | zero => rfl
    | succ turns =>
      rw [slotsFrom]
      refine if_pos ?_
      by_cases last : 2048 < o + 33
      · exact .inl last
      · have zero : buf (o + 0) = 0 := bytes 0 (by omega)
        rw [Nat.add_zero] at zero
        exact .inr (.inl (by rw [zero]; rfl))
  | cons r rest ih =>
    have split : contents (r :: rest) = r.bytes ++ contents rest := List.flatMap_cons
    rw [split, List.length_append] at room
    have inside := r.inside
    obtain ⟨turns, rfl⟩ : ∃ turns', turns = turns' + 1 := ⟨turns - 1, by omega⟩
    have here (i : Nat) (below : i < r.bytes.length) : buf (o + i) = r.buf i := by
      rw [bytes i (by omega), split, List.getD_append _ _ _ _ below]
      rfl
    have length : (buf o).toNat = r.bytes.length := by
      rw [← Nat.add_zero o, here 0 (by omega)]
      exact r.length
    simp only [slotsFrom]
    rw [length, if_neg (by omega), slotAt_record (by omega) here, Option.toList_some,
      List.singleton_append, List.map_cons,
      ih (by omega) (by omega) fun i below => ?_]
    rw [Nat.add_assoc, bytes _ (by omega), split, List.getD_append_right _ _ _ _ (by omega),
      Nat.add_sub_cancel_left]

/-- The loops read the records of a sector. -/
theorem slots_holds (holds : Holds buf rs) : slots buf = rs.map Record.slot :=
  slotsFrom_holds (by omega) (by rw [Nat.zero_add]; exact holds.room) fun i below => by
    rw [Nat.zero_add] at below ⊢
    exact holds.bytes i below

/-- Only a sector without records starts with 0. -/
theorem first_eq_zero_iff (holds : Holds buf rs) : buf 0 = 0 ↔ rs = [] := by
  rw [holds.bytes 0 (by decide)]
  cases rs with
  | nil => exact iff_of_true rfl rfl
  | cons r rest =>
    have inside := r.inside
    have length := r.length
    refine iff_of_false (fun zero => ?_) (List.cons_ne_nil _ _)
    rw [show contents (r :: rest) = r.bytes ++ contents rest from List.flatMap_cons,
      List.getD_append _ _ _ _ (by omega)] at zero
    rw [zero] at length
    exact absurd length (by change (0 : UInt8).toNat ≠ _; rw [UInt8.toNat_zero]; omega)

theorem scanSector_holds (holds : Holds buf rs) (comp : List UInt8) :
    scanSector buf comp = (rs.find? fun r => r.slot.Matches comp).map Record.slot := by
  rw [scanSector, slots_holds holds, List.find?_map]
  rfl

end DBSos.Iso
