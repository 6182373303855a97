import DBSos.Lib.Pieces
import DBSos.Net.Tcp

/-!
# Names on the wire

`encode_name` writes a name label by label. It looks for room before each label, but not before
the zero byte behind the last, and an empty label ends it only where a dot follows.
`read_qname_len` finds the length of a name in a packet.
-/

namespace DBSos.Net.Dns

open DBSos.Lib

def dot : Byte := 0x2E

/-- Bytes stored to a slice. `none` is the panic of a store beyond its end. -/
def store (out : List Byte) (pos : Nat) (bytes : List Byte) : Option (List Byte) :=
  if pos + bytes.length ≤ out.length then
    some (out.take pos ++ bytes ++ out.drop (pos + bytes.length))
  else none

/-- The loop of `encode_name` before the rest of a name: what it returns, and the buffer. -/
def encodeLoop (name : List Byte) :
    (rest : List Byte) → (i label pos : Nat) → (out : List Byte) → Option (Option Nat × List Byte)
  | [], i, label, pos, out =>
    if pos + 1 + label > out.length then some (none, out)
    else do
      let out ← store out pos [BitVec.ofNat 8 label]
      let out ← store out (pos + 1) ((name.drop (i - label)).take label)
      let out ← store out (pos + 1 + label) [0]
      some (some (pos + 1 + label + 1), out)
  | c :: rest, i, label, pos, out =>
    if c = dot then
      if pos + 1 + label > out.length then some (none, out)
      else do
        let out ← store out pos [BitVec.ofNat 8 label]
        if label = 0 then some (none, out)
        else do
          let out ← store out (pos + 1) ((name.drop (i - label)).take label)
          encodeLoop name rest (i + 1) 0 (pos + 1 + label) out
    else encodeLoop name rest (i + 1) (label + 1) pos out

/-- `encode_name`. -/
def encodeName (name out : List Byte) : Option (Option Nat × List Byte) :=
  encodeLoop name name 0 0 0 out

/-- The loop of `read_qname_len`. -/
def qnameLoop (pkt : List Byte) (off total : Nat) : Option Nat :=
  if inside : off < pkt.length then
    let len := pkt[off]
    if len = 0 then some (total + 1)
    else if len &&& 0xC0 = 0xC0 then some (total + 2)
    else qnameLoop pkt (off + (1 + len.toNat)) (total + (1 + len.toNat))
  else none
termination_by pkt.length - off
decreasing_by omega

/-- `read_qname_len`. -/
def readQnameLen (pkt : List Byte) (off : Nat) : Option Nat := qnameLoop pkt off 0

/-! ## Names -/

/-- A label of a name. -/
structure Label where
  bytes : List Byte
  nonempty : 1 ≤ bytes.length
  short : bytes.length ≤ 63

/-- How a name in a packet ends: at the root, or somewhere else in the packet. -/
inductive Ending where
  | root
  | pointer (high : BitVec 6) (low : Byte)

/-- A name in a packet. -/
structure WireName where
  labels : List Label
  ending : Ending

/-- The bytes of a label behind their number. -/
def counted (bytes : List Byte) : List Byte := BitVec.ofNat 8 bytes.length :: bytes

def Ending.bytes : Ending → List Byte
  | .root => [0]
  | .pointer high low => [0b11#2 ++ high, low]

def WireName.bytes (name : WireName) : List Byte :=
  (name.labels.map Label.bytes).flatMap counted ++ name.ending.bytes

/-- The full name of some labels. -/
def wire (labels : List Label) : List Byte := (WireName.mk labels .root).bytes

/-- What a name in text says: labels with dots between them, one of which may trail. -/
structure Spells (labels : List Label) (name : List Byte) : Prop where
  nonempty : labels ≠ []
  undotted : ∀ label ∈ labels, dot ∉ label.bytes
  spelled : name = [dot].intercalate (labels.map Label.bytes) ∨
    name = [dot].intercalate (labels.map Label.bytes) ++ [dot]

/-! ## The walk over a name -/

theorem qnameLoop_at {front : List Byte} (len : Byte) (back : List Byte) (total : Nat) :
    qnameLoop (front ++ len :: back) front.length total =
      if len = 0 then some (total + 1)
      else if len &&& 0xC0 = 0xC0 then some (total + 2)
      else qnameLoop (front ++ len :: back) (front.length + (1 + len.toNat))
        (total + (1 + len.toNat)) := by
  have inside : front.length < (front ++ len :: back).length := by simp
  have met : (front ++ len :: back)[front.length] = len := by simp
  rw [qnameLoop, dif_pos inside]
  dsimp only
  rw [met]

/-- The length byte of a label is neither a terminator nor a pointer. -/
theorem Label.length_byte (label : Label) :
    BitVec.ofNat 8 label.bytes.length ≠ 0 ∧
      BitVec.ofNat 8 label.bytes.length &&& 0xC0 ≠ 0xC0 ∧
      (BitVec.ofNat 8 label.bytes.length).toNat = label.bytes.length := by
  have all : ∀ length : Fin 64, length.val ≠ 0 → BitVec.ofNat 8 length.val ≠ 0 ∧
      BitVec.ofNat 8 length.val &&& 0xC0 ≠ 0xC0 ∧
      (BitVec.ofNat 8 length.val).toNat = length.val := by decide
  have short := label.short
  have nonempty := label.nonempty
  exact all ⟨label.bytes.length, by omega⟩ (Nat.ne_of_gt nonempty)

theorem pointer_byte (high : BitVec 6) :
    (0b11#2 ++ high : Byte) ≠ 0 ∧ (0b11#2 ++ high : Byte) &&& 0xC0 = 0xC0 := by
  revert high
  decide

theorem qnameLoop_name (name : WireName) (front back : List Byte) (total : Nat) :
    qnameLoop (front ++ (name.bytes ++ back)) front.length total =
      some (total + name.bytes.length) := by
  obtain ⟨labels, ending⟩ := name
  unfold WireName.bytes
  dsimp only
  induction labels generalizing front total with
  | nil =>
    cases ending with
    | root => exact qnameLoop_at 0 back total
    | pointer high low =>
      obtain ⟨nonzero, pointing⟩ := pointer_byte high
      refine (qnameLoop_at (0b11#2 ++ high) (low :: back) total).trans ?_
      rw [if_neg nonzero, if_pos pointing]
      rfl
  | cons label rest ih =>
    obtain ⟨nonzero, direct, length⟩ := label.length_byte
    set others := (rest.map Label.bytes).flatMap counted ++ ending.bytes with othersIs
    have parts : (((label :: rest).map Label.bytes).flatMap counted ++ ending.bytes) ++ back =
        BitVec.ofNat 8 label.bytes.length :: (label.bytes ++ (others ++ back)) := by
      simp [counted, othersIs]
    have moved : front ++ BitVec.ofNat 8 label.bytes.length :: (label.bytes ++ (others ++ back)) =
        (front ++ counted label.bytes) ++ (others ++ back) := by
      simp [counted]
    have step := ih (front ++ counted label.bytes)
      (total + (1 + label.bytes.length))
    have frontLength : (front ++ counted label.bytes).length =
        front.length + (1 + label.bytes.length) := by
      simp [counted]
      omega
    rw [frontLength] at step
    rw [parts, qnameLoop_at, if_neg nonzero, if_neg direct, length, moved, step]
    simp [counted, othersIs]
    omega

/-- `read_qname_len` finds the end of any name. -/
theorem readQnameLen_name (name : WireName) (front back : List Byte) :
    readQnameLen (front ++ (name.bytes ++ back)) front.length = some name.bytes.length := by
  rw [readQnameLen, qnameLoop_name, Nat.zero_add]

/-! ## The loop over a text -/

variable {name piece rest written free : List Byte} {i : Nat}

theorem store_append (written : List Byte) {bytes : List Byte}
    (room : bytes.length ≤ free.length) :
    store (written ++ free) written.length bytes =
      some (written ++ bytes ++ free.drop bytes.length) := by
  rw [store, if_pos (by rw [List.length_append]; omega), List.take_left', List.drop_append]
  · simp
  · rfl

theorem store_inside (out : List Byte) (pos : Nat) (bytes : List Byte)
    (inside : pos + bytes.length ≤ out.length) :
    ∃ out', store out pos bytes = some out' ∧ out'.length = out.length := by
  refine ⟨_, if_pos inside, ?_⟩
  rw [List.length_append, List.length_append, List.length_take, List.length_drop]
  omega

/-- The bytes of a label are stored behind its length. -/
theorem store_counted (written : List Byte) (room : (counted piece).length ≤ free.length) :
    store (written ++ free) written.length [BitVec.ofNat 8 piece.length] =
        some (written ++ [BitVec.ofNat 8 piece.length] ++ free.drop 1) ∧
      store (written ++ [BitVec.ofNat 8 piece.length] ++ free.drop 1) (written.length + 1) piece =
        some (written ++ counted piece ++ free.drop (piece.length + 1)) := by
  have length : (counted piece).length = piece.length + 1 := rfl
  have stored : store (written ++ [BitVec.ofNat 8 piece.length] ++ free.drop 1) _ piece = _ :=
    store_append (written ++ [BitVec.ofNat 8 piece.length]) (by rw [List.length_drop]; omega)
  rw [List.length_append, List.length_singleton, List.drop_drop, Nat.add_comm 1 piece.length]
    at stored
  refine ⟨store_append _ (by rw [List.length_singleton]; omega), stored.trans ?_⟩
  simp [counted]

/-- The loop counts the bytes of a label. -/
theorem encodeLoop_count (name : List Byte) (undotted : dot ∉ piece) (rest : List Byte)
    (i label pos : Nat) (out : List Byte) :
    encodeLoop name (piece ++ rest) i label pos out =
      encodeLoop name rest (i + piece.length) (label + piece.length) pos out := by
  induction piece generalizing i label with
  | nil => rfl
  | cons c tail ih =>
    obtain ⟨differs, undotted⟩ := not_or.mp (mt List.mem_cons.mpr undotted)
    rw [List.cons_append, encodeLoop, if_neg (Ne.symm differs), ih undotted,
      List.length_cons, Nat.add_assoc, Nat.add_assoc, Nat.add_comm 1]

/-- The last label: without room for it the loop gives up, and without room for the zero byte
behind it, it panics. -/
theorem encodeLoop_last (undotted : dot ∉ piece) (here : name.drop i = piece) :
    encodeLoop name piece i 0 written.length (written ++ free) =
      if free.length < (counted piece).length then some (none, written ++ free)
      else if free.length = (counted piece).length then none
      else some (some (written.length + (counted piece).length + 1),
        written ++ counted piece ++ 0 :: free.drop ((counted piece).length + 1)) := by
  have counting := encodeLoop_count name undotted [] i 0 written.length (written ++ free)
  rw [List.append_nil, Nat.zero_add] at counting
  have length : (counted piece).length = piece.length + 1 := rfl
  have copied : (name.drop (i + piece.length - piece.length)).take piece.length = piece := by
    rw [Nat.add_sub_cancel, here, List.take_length]
  rw [counting, encodeLoop, length]
  by_cases room : free.length < piece.length + 1
  · rw [if_pos (by rw [List.length_append]; omega), if_pos room]
  · obtain ⟨first, second⟩ := store_counted written (Nat.le_of_not_lt room)
    rw [if_neg (by rw [List.length_append]; omega), if_neg room, copied, first,
      Option.bind_eq_bind, Option.bind_some, second, Option.bind_some]
    have front : written.length + 1 + piece.length = (written ++ counted piece).length := by
      rw [List.length_append, length]
      omega
    split_ifs with full
    · rw [store, if_neg]
      · rfl
      · simp only [List.length_append, List.length_drop, List.length_singleton]
        omega
    · rw [front, store_append _ (by rw [List.length_drop, List.length_singleton]; omega),
        List.drop_drop, List.length_append, length]
      simp

/-- A label with a dot behind it. -/
theorem encodeLoop_dot (undotted : dot ∉ piece) (here : name.drop i = piece ++ dot :: rest) :
    encodeLoop name (piece ++ dot :: rest) i 0 written.length (written ++ free) =
      if free.length < (counted piece).length then some (none, written ++ free)
      else if piece = [] then some (none, written ++ 0 :: free.drop 1)
      else encodeLoop name rest (i + piece.length + 1) 0 (written ++ counted piece).length
        (written ++ counted piece ++ free.drop (counted piece).length) := by
  have length : (counted piece).length = piece.length + 1 := rfl
  have copied : (name.drop (i + piece.length - piece.length)).take piece.length = piece := by
    rw [Nat.add_sub_cancel, here, List.take_left']
    rfl
  rw [encodeLoop_count _ undotted, encodeLoop, if_pos rfl, Nat.zero_add, length]
  by_cases room : free.length < piece.length + 1
  · rw [if_pos (by rw [List.length_append]; omega), if_pos room]
  · obtain ⟨first, second⟩ := store_counted written (Nat.le_of_not_lt room)
    rw [if_neg (by rw [List.length_append]; omega), if_neg room, first,
      Option.bind_eq_bind, Option.bind_some]
    by_cases empty : piece = []
    · rw [if_pos (by rw [empty]; rfl), if_pos empty, empty]
      simp
    · rw [if_neg (by rwa [List.length_eq_zero_iff]), if_neg empty, copied, second,
        Option.bind_some, List.length_append, length, Nat.add_assoc,
        Nat.add_right_comm written.length]
      rfl

/-- The labels of a text with their lengths. -/
def lengthened (pieces : List (List Byte)) : List Byte := pieces.flatMap counted

/-- What `encode_name` comes to: it gives up at an empty label with a dot behind it or where the
labels do not fit, panics where they fill the buffer, and else writes them with a zero byte. -/
theorem encodeLoop_pieces {pieces : List (List Byte)} (some : pieces ≠ [])
    (undotted : ∀ piece ∈ pieces, dot ∉ piece)
    (here : name.drop i = [dot].intercalate pieces) (written free : List Byte) :
    (([] ∈ pieces.dropLast ∨ free.length < (lengthened pieces).length) ∧
      ∃ out, encodeLoop name ([dot].intercalate pieces) i 0 written.length (written ++ free) =
        .some (none, out)) ∨
    ([] ∉ pieces.dropLast ∧ free.length = (lengthened pieces).length ∧
      encodeLoop name ([dot].intercalate pieces) i 0 written.length (written ++ free) = none) ∨
    ([] ∉ pieces.dropLast ∧ (lengthened pieces).length < free.length ∧
      encodeLoop name ([dot].intercalate pieces) i 0 written.length (written ++ free) =
        .some (.some (written.length + (lengthened pieces).length + 1),
          written ++ lengthened pieces ++ 0 :: free.drop ((lengthened pieces).length + 1))) := by
  induction pieces generalizing i written free with
  | nil => exact absurd rfl some
  | cons piece rest ih =>
    have pieceUndotted := undotted piece List.mem_cons_self
    rcases rest with _ | ⟨second, rest⟩
    · rw [List.intercalate_singleton] at here ⊢
      have alone : lengthened [piece] = counted piece := List.append_nil _
      have noneBefore : [] ∉ [piece].dropLast := List.not_mem_nil
      rw [encodeLoop_last pieceUndotted here, alone]
      split_ifs with lacking full
      · exact .inl ⟨.inr lacking, _, rfl⟩
      · exact .inr (.inl ⟨noneBefore, full, rfl⟩)
      · exact .inr (.inr ⟨noneBefore, by omega, rfl⟩)
    · have parts : lengthened (piece :: second :: rest) =
          counted piece ++ lengthened (second :: rest) := List.flatMap_cons
      have total := congrArg List.length parts
      rw [List.length_append] at total
      have joined : [dot].intercalate (piece :: second :: rest) =
          piece ++ dot :: [dot].intercalate (second :: rest) := by
        rw [List.intercalate_cons_cons, List.append_assoc, List.singleton_append]
      have later : name.drop (i + piece.length + 1) = [dot].intercalate (second :: rest) := by
        rw [Nat.add_assoc, ← List.drop_drop, here, joined, List.append_cons]
        exact List.drop_left' (by simp)
      rw [joined] at here ⊢
      rw [List.dropLast_cons_cons, encodeLoop_dot pieceUndotted here]
      split_ifs with lacking empty
      · exact .inl ⟨.inr (by omega), _, rfl⟩
      · exact .inl ⟨.inl (by rw [empty]; exact List.mem_cons_self), _, rfl⟩
      · have nonempty : [] ∈ piece :: (second :: rest).dropLast ↔
            [] ∈ (second :: rest).dropLast := by
          rw [List.mem_cons, or_iff_right (Ne.symm empty)]
        have left : (free.drop (counted piece).length).length =
            free.length - (counted piece).length := List.length_drop
        rcases ih (List.cons_ne_nil _ _)
          (fun other member => undotted other (List.mem_cons_of_mem _ member)) later
          (written ++ counted piece) (free.drop (counted piece).length) with
          ⟨reason, gaveUp⟩ | ⟨full, exact, panics⟩ | ⟨full, room, done⟩
        · refine .inl ⟨?_, gaveUp⟩
          rw [nonempty]
          exact reason.imp_right (by omega)
        · exact .inr (.inl ⟨mt nonempty.mp full, by omega, panics⟩)
        · refine .inr (.inr ⟨mt nonempty.mp full, by omega, ?_⟩)
          rw [done, parts, List.drop_drop]
          simp [Nat.add_assoc]

/-! ## The labels of a text -/

/-- All labels of a text, also the empty ones. -/
def pieces (name : List Byte) : List (List Byte) := name.splitOn dot

theorem encodeName_cases (name out : List Byte) :
    (([] ∈ (pieces name).dropLast ∨ out.length < (lengthened (pieces name)).length) ∧
      ∃ out', encodeName name out = some (none, out')) ∨
    ([] ∉ (pieces name).dropLast ∧ out.length = (lengthened (pieces name)).length ∧
      encodeName name out = none) ∨
    ([] ∉ (pieces name).dropLast ∧ (lengthened (pieces name)).length < out.length ∧
      encodeName name out = some (some ((lengthened (pieces name)).length + 1),
        lengthened (pieces name) ++ 0 :: out.drop ((lengthened (pieces name)).length + 1))) := by
  have joined : [dot].intercalate (pieces name) = name := List.intercalate_splitOn dot
  have cases := encodeLoop_pieces (i := 0) (List.splitOn_ne_nil dot name)
    (fun piece member => (mem_splitOn member).1) joined.symm [] out
  unfold pieces at joined
  rw [joined, List.length_nil, Nat.zero_add, List.nil_append, List.nil_append] at cases
  exact cases

/-- A length that is returned lies in the buffer. -/
theorem encodeName_le {name out out' : List Byte} {n : Nat}
    (encoded : encodeName name out = some (some n, out')) : n ≤ out.length := by
  rcases encodeName_cases name out with ⟨-, other, gaveUp⟩ | ⟨-, -, panics⟩ | ⟨-, room, done⟩
  · rw [gaveUp] at encoded
    cases encoded
  · rw [panics] at encoded
    cases encoded
  · rw [done] at encoded
    cases encoded
    exact room

/-- The labels of a text that spells a name: a trailing dot leaves an empty one behind. -/
theorem Spells.pieces_eq {labels : List Label} (spells : Spells labels name) :
    pieces name = labels.map Label.bytes ∨ pieces name = labels.map Label.bytes ++ [[]] := by
  have nonempty : labels.map Label.bytes ≠ [] := mt List.map_eq_nil_iff.mp spells.nonempty
  have undotted : ∀ bytes ∈ labels.map Label.bytes, dot ∉ bytes := by
    intro bytes member
    obtain ⟨label, inside, rfl⟩ := List.mem_map.mp member
    exact spells.undotted label inside
  unfold pieces
  rcases spells.spelled with plain | trailing
  · rw [plain, List.splitOn_intercalate dot undotted nonempty]
    exact .inl rfl
  · rw [trailing, List.splitOn_append_cons_self, List.splitOn_intercalate dot undotted nonempty]
    exact .inr rfl

theorem nil_not_mem_bytes (labels : List Label) : [] ∉ labels.map Label.bytes := by
  intro member
  obtain ⟨label, -, empty⟩ := List.mem_map.mp member
  exact absurd label.nonempty (by rw [empty]; decide)

theorem length_wire (labels : List Label) :
    (wire labels).length = (lengthened (labels.map Label.bytes)).length + 1 := by
  rw [wire, WireName.bytes, List.length_append]
  rfl

theorem lengthened_trailing (pieces : List (List Byte)) :
    (lengthened (pieces ++ [[]])).length = (lengthened pieces).length + 1 := by
  rw [lengthened, List.flatMap_append, List.length_append]
  rfl

/-- What is expected of `encode_name`: no panic; a length for the texts that spell a name which
fits the buffer and 255 bytes, and for no other; and then the name, as a reader finds it. -/
def Encodes (name out : List Byte) : Prop :=
  ∃ result out', encodeName name out = some (result, out') ∧
    (result.isSome = true ↔ ∃ labels, Spells labels name ∧
      (wire labels).length ≤ out.length ∧ (wire labels).length ≤ 255) ∧
    ∀ n, result = some n → ∃ labels, Spells labels name ∧ out'.take n = wire labels ∧
      n = (wire labels).length ∧ readQnameLen (out'.take n) 0 = some n

theorem readQnameLen_wire (labels : List Label) :
    readQnameLen (wire labels) 0 = some (wire labels).length := by
  have found := readQnameLen_name ⟨labels, .root⟩ [] []
  rwa [List.append_nil] at found

/-- Nothing is expected where `encode_name` gives up. -/
theorem not_spells_of_cases {name out : List Byte}
    (reason : [] ∈ (pieces name).dropLast ∨ out.length < (lengthened (pieces name)).length) :
    ¬ ∃ labels, Spells labels name ∧ (wire labels).length ≤ out.length ∧
      (wire labels).length ≤ 255 := by
  rintro ⟨labels, spells, fits, -⟩
  have length := length_wire labels
  have full := nil_not_mem_bytes labels
  rcases spells.pieces_eq with plain | trailing
  · rw [plain] at reason
    rcases reason with early | lacking
    · exact full (List.dropLast_subset _ early)
    · omega
  · rw [trailing, List.dropLast_concat, lengthened_trailing] at reason
    rcases reason with early | lacking
    · exact full early
    · omega

/-- Where all labels have the right lengths, the text spells them. -/
theorem exists_spells {name : List Byte}
    (right : ∀ piece ∈ pieces name, 1 ≤ piece.length ∧ piece.length ≤ 63) :
    ∃ labels : List Label, labels.map Label.bytes = pieces name ∧ Spells labels name := by
  let labels := (pieces name).attach.map fun piece =>
    Label.mk piece.val (right _ piece.property).1 (right _ piece.property).2
  have bytes : labels.map Label.bytes = pieces name := by
    rw [List.map_map]
    exact List.attach_map_subtype_val _
  refine ⟨labels, bytes, ?_, ?_, .inl ?_⟩
  · intro empty
    rw [empty] at bytes
    exact List.splitOn_ne_nil dot name bytes.symm
  · intro label member
    have inside : label.bytes ∈ pieces name := bytes ▸ List.mem_map_of_mem member
    exact (mem_splitOn inside).1
  · rw [bytes]
    exact (List.intercalate_splitOn dot).symm

/-- `encode_name` does what is expected exactly where an empty label has a dot behind it, where
the labels do not fit the buffer, or where all labels have 1 to 63 bytes and fit the buffer and
255 bytes with the zero byte behind them. -/
theorem encodes_iff (name out : List Byte) :
    Encodes name out ↔
      [] ∈ (pieces name).dropLast ∨ out.length < (lengthened (pieces name)).length ∨
        (lengthened (pieces name)).length < out.length ∧
          (lengthened (pieces name)).length < 255 ∧
            ∀ piece ∈ pieces name, 1 ≤ piece.length ∧ piece.length ≤ 63 := by
  rcases encodeName_cases name out with ⟨reason, out', gaveUp⟩ | ⟨full, exact, panics⟩ |
    ⟨full, room, done⟩
  · refine iff_of_true ⟨none, out', gaveUp, ?_, fun n impossible => by cases impossible⟩ ?_
    · exact iff_of_false (by simp) (not_spells_of_cases reason)
    · exact reason.imp_right .inl
  · refine iff_of_false ?_ ?_
    · rintro ⟨result, out', returned, -⟩
      rw [panics] at returned
      cases returned
    · rintro (early | lacking | ⟨room, -⟩)
      · exact full early
      · omega
      · omega
  · constructor
    · rintro ⟨result, out', returned, expected, content⟩
      rw [done] at returned
      obtain ⟨rfl, rfl⟩ := Prod.mk.inj (Option.some.inj returned)
      obtain ⟨labels, spells, -, length, -⟩ := content _ rfl
      obtain ⟨others, othersSpell, -, short⟩ := expected.mp rfl
      rw [length_wire] at length short
      have plain : pieces name = labels.map Label.bytes := by
        rcases spells.pieces_eq with plain | trailing
        · exact plain
        · rw [trailing, lengthened_trailing] at length
          omega
      have othersPlain : pieces name = others.map Label.bytes := by
        rcases othersSpell.pieces_eq with plain | trailing
        · exact plain
        · refine absurd ?_ (nil_not_mem_bytes labels)
          rw [← plain, trailing]
          exact List.mem_append_right _ List.mem_cons_self
      rw [← othersPlain] at short
      refine .inr (.inr ⟨room, by omega, ?_⟩)
      intro piece member
      rw [plain] at member
      obtain ⟨label, -, rfl⟩ := List.mem_map.mp member
      exact ⟨label.nonempty, label.short⟩
    · rintro (early | lacking | ⟨-, short, right⟩)
      · exact absurd early full
      · omega
      · obtain ⟨labels, bytes, spells⟩ := exists_spells right
        have length := length_wire labels
        have written : (lengthened (pieces name) ++
            0 :: out.drop ((lengthened (pieces name)).length + 1)).take
              ((lengthened (pieces name)).length + 1) = wire labels := by
          rw [List.append_cons]
          refine (List.take_left' (by simp)).trans ?_
          rw [← bytes]
          rfl
        rw [bytes] at length
        refine ⟨_, _, done, iff_of_true rfl ⟨labels, spells, by omega, by omega⟩, ?_⟩
        intro n returned
        obtain rfl := Option.some.inj returned
        refine ⟨labels, spells, written, length.symm, ?_⟩
        rw [written, readQnameLen_wire, length]

section Samples

/-- With its trailing dot, `a.` ends in two zero bytes, of which a reader takes one. -/
theorem not_encodes_trailing : ¬ Encodes [0x61, dot] (List.replicate 255 0) := by
  rintro ⟨result, out', returned, -, content⟩
  have written : encodeName [0x61, dot] (List.replicate 255 0) =
      some (some 4, [1, 0x61, 0, 0] ++ List.replicate 251 0) := by decide +kernel
  rw [written] at returned
  obtain ⟨rfl, rfl⟩ := Prod.mk.inj (Option.some.inj returned)
  obtain ⟨-, -, -, -, found⟩ := content 4 rfl
  have three : readQnameLen [1, 0x61, 0, 0] 0 = some 3 :=
    readQnameLen_name ⟨[⟨[0x61], by decide, by decide⟩], .root⟩ [] [0]
  exact absurd (three.symm.trans found) (by decide)

/-- A label that fills the buffer leaves no room for the zero byte. -/
example : encodeName [0x61] [0, 0] = none := by decide

end Samples

end DBSos.Net.Dns
