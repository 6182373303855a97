import DBSos.Net.Wget
import DBSos.Lib.Packing
import Mathlib.Data.List.TakeDrop

/-!
# Responses in chunks

A response has a header of lines, an empty line and a body, which may be framed in chunks. What
`http_recv_full` makes of it depends on the word `chunked` anywhere in the header, on the size of
the buffer for the body, and on the sizes that the chunks give for themselves.
-/

namespace DBSos.Net.Wget

open DBSos.Lib

/-- The end of a line. -/
def crlf : List UInt8 := [0x0D, 0x0A]

/-- The lines in front of the empty line. -/
structure Header where
  lines : List (List UInt8)
  some_line : lines ≠ []
  filled : ∀ line ∈ lines, line ≠ []
  oneLine : ∀ line ∈ lines, 0x0D ∉ line

namespace Header

def bytes (h : Header) : List UInt8 := h.lines.flatMap (· ++ crlf) ++ crlf

/-- A letter in lower case. -/
def lower (c : UInt8) : UInt8 := if 0x41 ≤ c ∧ c ≤ 0x5A then c + 0x20 else c

/-- `transfer-encoding:`. -/
def transferEncoding : List UInt8 :=
  [0x74, 0x72, 0x61, 0x6E, 0x73, 0x66, 0x65, 0x72, 0x2D, 0x65, 0x6E, 0x63, 0x6F, 0x64, 0x69, 0x6E,
    0x67, 0x3A]

/-- A field gives `chunked` for the transfer encoding. -/
def Chunked (h : Header) : Prop :=
  ∃ line ∈ h.lines, ∃ value, line.map lower = transferEncoding ++ value ∧ chunkedWord <:+: value

/-- The word stands somewhere in the header, in either case. -/
def Mentions (h : Header) : Prop := chunkedWord <:+: h.bytes.map (· ||| 0x20)

end Header

/-- A hex digit in either case. -/
structure Digit where
  value : Fin 16
  upper : Bool

def Digit.byte (d : Digit) : UInt8 :=
  if d.value.val < 10 then 0x30 + UInt8.ofNat d.value
  else (if d.upper then 0x37 else 0x57) + UInt8.ofNat d.value

/-- The line in front of a chunk: its size, and perhaps an extension. -/
structure SizeLine where
  digits : List Digit
  extension : List UInt8
  marked : extension = [] ∨ extension.head? = some 0x3B
  oneLine : 0x0D ∉ extension

namespace SizeLine

def value (line : SizeLine) : Nat := line.digits.foldl (fun v d => v * 16 + d.value) 0

def text (line : SizeLine) : List UInt8 := line.digits.map Digit.byte ++ line.extension

def bytes (line : SizeLine) : List UInt8 := line.text ++ crlf

end SizeLine

structure Chunk where
  line : SizeLine
  data : List UInt8
  filled : data ≠ []
  size : line.value = data.length

def Chunk.bytes (c : Chunk) : List UInt8 := c.line.bytes ++ (c.data ++ crlf)

/-- A body in chunks, up to the line with size 0 and what trails behind it. -/
structure Framed where
  chunks : List Chunk
  last : SizeLine
  zero : last.value = 0
  trailer : List UInt8

namespace Framed

def body (f : Framed) : List UInt8 := f.chunks.flatMap Chunk.data

def bytes (f : Framed) : List UInt8 := f.chunks.flatMap Chunk.bytes ++ (f.last.bytes ++ f.trailer)

end Framed

/-- All that `recv` has in a run of the receiving loop. -/
def heard (before : List UInt8) : List Turn → List UInt8
  | [] => before
  | turn :: later =>
    let before := before ++ turn.data
    if turn.data ≠ [] ∧ before.length ≥ rawSize then before
    else if turn.isOpen = false ∧ (turn.data = [] ∨ before ≠ []) then
      before ++ (turn.rest.takeWhile (· ≠ [])).flatten
    else heard before later

/-- A response comes in, in whatever pieces, and fits in the raw buffer. -/
structure Delivery (response : List UInt8) where
  turns : List Turn
  all : heard [] turns = response
  fits : response.length ≤ rawSize

/-! ## Receiving -/

/-- The raw buffer has the first bytes of what came in. -/
theorem gather_take (before data : List UInt8) :
    gather (before.take rawSize) data = (before ++ data).take rawSize := by
  have room : rawSize - (before.take rawSize).length = rawSize - before.length := by
    rw [List.length_take]
    omega
  rw [gather, room, List.take_append]

theorem drain_take (before : List UInt8) (rest : List (List UInt8)) :
    drain (before.take rawSize) rest =
      (before ++ (rest.takeWhile (· ≠ [])).flatten).take rawSize := by
  induction rest generalizing before with
  | nil => rw [drain, List.takeWhile_nil, List.flatten_nil, List.append_nil]
  | cons data rest ih =>
    cases data with
    | nil => simp [drain]
    | cons a tail =>
      rw [drain, gather_take, ih, List.append_assoc]
      · simp
      · exact nofun

theorem receive_take (before : List UInt8) (turns : List Turn) :
    receive (before.take rawSize) turns = (heard before turns).take rawSize := by
  induction turns generalizing before with
  | nil => rfl
  | cons turn later ih =>
    have full : ((before ++ turn.data).take rawSize).length ≥ rawSize ↔
        (before ++ turn.data).length ≥ rawSize := by
      rw [List.length_take]
      omega
    have empty : (before ++ turn.data).take rawSize ≠ [] ↔ before ++ turn.data ≠ [] := by
      rw [ne_eq, List.take_eq_nil_iff]
      simp [rawSize]
    simp only [receive, heard, gather_take, full, empty]
    split_ifs
    · rfl
    · exact drain_take _ _
    · exact ih _

theorem Delivery.receive_eq {response : List UInt8} (d : Delivery response) :
    receive [] d.turns = response := by
  have received := receive_take [] d.turns
  rwa [List.take_nil, d.all, List.take_of_length_le d.fits] at received

/-! ## The header -/

theorem headerEnd_cons {a : UInt8} (notCr : a ≠ 0x0D) (text : List UInt8) :
    headerEnd (a :: text) = (headerEnd text).map (· + 1) := by
  match text with
  | [] => rfl
  | [_] => rfl
  | [_, _] => rfl
  | b :: c :: d :: rest =>
    rw [headerEnd, if_neg fun ends => notCr ends.1]

theorem headerEnd_append {line : List UInt8} (oneLine : 0x0D ∉ line) (text : List UInt8) :
    headerEnd (line ++ text) = (headerEnd text).map (· + line.length) := by
  induction line with
  | nil => simp
  | cons a line ih =>
    obtain ⟨notCr, oneLine⟩ := List.ne_and_not_mem_of_not_mem_cons oneLine
    rw [List.cons_append, headerEnd_cons notCr.symm, ih oneLine, Option.map_map]
    rfl

/-- The end of a line in front of another line is not the end of the header. -/
theorem headerEnd_crlf {a : UInt8} (notCr : a ≠ 0x0D) (text : List UInt8) :
    headerEnd (crlf ++ a :: text) = (headerEnd (a :: text)).map (· + 2) := by
  have lf : (0x0A : UInt8) ≠ 0x0D := by decide
  change headerEnd (0x0D :: 0x0A :: a :: text) = _
  cases text with
  | nil => rfl
  | cons b text =>
    rw [headerEnd, if_neg fun ends => notCr ends.2.2.1, headerEnd_cons lf, Option.map_map]
    rfl

theorem headerEnd_lines {lines : List (List UInt8)} (some_line : lines ≠ [])
    (filled : ∀ line ∈ lines, line ≠ []) (oneLine : ∀ line ∈ lines, 0x0D ∉ line)
    (body : List UInt8) :
    headerEnd (lines.flatMap (· ++ crlf) ++ (crlf ++ body)) =
      some (lines.flatMap (· ++ crlf) ++ crlf).length := by
  induction lines with
  | nil => exact absurd rfl some_line
  | cons line lines ih =>
    rw [List.forall_mem_cons] at filled oneLine
    simp only [List.flatMap_cons, List.append_assoc]
    rw [headerEnd_append oneLine.1]
    cases lines with
    | nil =>
      have ends : headerEnd (crlf ++ ([] ++ (crlf ++ body))) = some 4 := rfl
      rw [List.flatMap_nil, ends]
      simp [crlf, Nat.add_comm]
    | cons next lines =>
      have later := ih (List.cons_ne_nil _ _) filled.2 oneLine.2
      obtain ⟨a, rest, rfl⟩ := List.exists_cons_of_ne_nil (filled.2 next (by simp))
      have notCr : a ≠ 0x0D := fun same =>
        oneLine.2 (a :: rest) (by simp) (by simp [same])
      simp only [List.flatMap_cons, List.append_assoc, List.cons_append] at later ⊢
      rw [headerEnd_crlf notCr, later]
      simp [crlf]
      omega

theorem Header.headerEnd_eq (h : Header) (body : List UInt8) :
    headerEnd (h.bytes ++ body) = some h.bytes.length := by
  rw [Header.bytes, List.append_assoc]
  exact headerEnd_lines h.some_line h.filled h.oneLine body

/-- The search passes over no place where the word could stand, since the header ends with a line
end. -/
theorem Header.mentionsChunked_iff (h : Header) : mentionsChunked h.bytes = true ↔ h.Mentions := by
  have last : (h.bytes.map (· ||| 0x20)).getLast? = some 0x2A := by
    simp only [Header.bytes, crlf, List.map_append, List.getLast?_append]
    rfl
  unfold mentionsChunked Header.Mentions
  simp only [List.any_eq_true, List.mem_range, decide_eq_true_eq]
  constructor
  · rintro ⟨i, -, found⟩
    rw [← found]
    exact ((List.take_prefix _ _).isInfix.trans (List.drop_suffix _ _).isInfix).map _
  · rintro ⟨front, back, found⟩
    have lengths := congrArg List.length found
    simp only [List.length_append, List.length_map] at lengths
    have behind : back ≠ [] := by
      rintro rfl
      rw [← found, List.append_nil] at last
      simp [chunkedWord] at last
    have length := List.length_pos_of_ne_nil behind
    have seven : chunkedWord.length = 7 := rfl
    refine ⟨front.length, by omega, ?_⟩
    rw [List.map_take, List.map_drop, ← found, List.append_assoc, List.drop_left, ← seven,
      List.take_left]

/-- A letter that is in lower case either way. -/
theorem or_of_lower (c : UInt8) : ∀ letter ∈ chunkedWord, Header.lower c = letter →
    c ||| 0x20 = letter := by
  have all : ∀ c, chunkedWord.all
      (fun letter => Header.lower c != letter || c ||| 0x20 == letter) = true :=
    forall_byte _ (by decide +kernel)
  intro letter member same
  simpa [same] using List.all_eq_true.mp (all c) letter member

theorem map_or_of_map_lower {text : List UInt8} :
    ∀ {word : List UInt8}, (∀ letter ∈ word, letter ∈ chunkedWord) →
      text.map Header.lower = word → text.map (· ||| 0x20) = word := by
  induction text with
  | nil => exact fun _ same => same
  | cons c text ih =>
    rintro word letters rfl
    rw [List.map_cons, List.map_cons, ih (fun letter member =>
      letters letter (List.mem_cons_of_mem _ member)) rfl]
    rw [or_of_lower c _ (letters _ (by simp)) rfl]

/-- A field that gives `chunked` mentions it. -/
theorem Header.mentions_of_chunked {h : Header} (chunked : h.Chunked) : h.Mentions := by
  obtain ⟨line, member, value, field, front, back, rfl⟩ := chunked
  have parts : line.map Header.lower =
      (Header.transferEncoding ++ front) ++ chunkedWord ++ back := by
    simpa only [List.append_assoc] using field
  obtain ⟨start, rest, split, first, -⟩ := List.map_eq_append_iff.mp parts
  obtain ⟨ahead, word, rfl, -, same⟩ := List.map_eq_append_iff.mp first
  have inLine : word <:+: line := ⟨ahead, rest, split.symm⟩
  have inHeader : line <:+: h.bytes := by
    obtain ⟨before, behind, lines⟩ := List.append_of_mem member
    rw [Header.bytes, lines]
    exact ⟨before.flatMap (· ++ crlf), crlf ++ (behind.flatMap (· ++ crlf) ++ crlf), by simp⟩
  have found := (inLine.trans inHeader).map (· ||| 0x20)
  rwa [map_or_of_map_lower (fun _ letter => letter) same] at found

/-! ## Lines and sizes -/

theorem splitLine_append {line : List UInt8} (oneLine : 0x0D ∉ line) (rest : List UInt8) :
    splitLine (line ++ (crlf ++ rest)) = some (line, rest) := by
  induction line with
  | nil => rfl
  | cons a line ih =>
    obtain ⟨notCr, oneLine⟩ := List.ne_and_not_mem_of_not_mem_cons oneLine
    have later := ih oneLine
    cases text : line ++ (crlf ++ rest) with
    | nil => simp [crlf] at text
    | cons b tail =>
      rw [text] at later
      rw [List.cons_append, text, splitLine, if_neg fun ends => notCr ends.1.symm, later]
      rfl

/-- The size on a line, however large. -/
def lineValue (len : Nat) : List UInt8 → Nat
  | [] => len
  | c :: rest =>
    match hexDigit c with
    | some d => lineValue (len * 16 + d) rest
    | none => if c = 0x3B then len else lineValue len rest

theorem le_lineValue (len : Nat) (line : List UInt8) : len ≤ lineValue len line := by
  induction line generalizing len with
  | nil => exact le_rfl
  | cons c rest ih =>
    unfold lineValue
    split
    · exact le_trans (by omega) (ih _)
    · split_ifs
      · exact le_rfl
      · exact ih _

/-- The size overflows exactly if its value does. -/
theorem chunkSize_eq {len : Nat} (small : len < 2 ^ 64) (line : List UInt8) :
    chunkSize len line =
      if lineValue len line < 2 ^ 64 then some (lineValue len line) else none := by
  induction line generalizing len with
  | nil => rw [chunkSize, lineValue, if_pos small]
  | cons c rest ih =>
    cases digit : hexDigit c with
    | some d =>
      simp only [chunkSize, lineValue, digit]
      by_cases fits : len * 16 + d < 2 ^ 64
      · rw [if_pos fits, ih fits]
      · have large := le_lineValue (len * 16 + d) rest
        rw [if_neg fits, if_neg (by omega)]
    | none =>
      simp only [chunkSize, lineValue, digit]
      by_cases ends : c = 0x3B
      · rw [if_pos ends, if_pos ends, if_pos small]
      · rw [if_neg ends, if_neg ends, ih small]

theorem hexDigit_byte (d : Digit) : hexDigit d.byte = some d.value.val := by
  obtain ⟨value, upper⟩ := d
  revert value
  cases upper <;> decide

theorem lineValue_extension {extension : List UInt8}
    (marked : extension = [] ∨ extension.head? = some 0x3B) (len : Nat) :
    lineValue len extension = len := by
  rcases marked with rfl | marked
  · rfl
  · cases extension with
    | nil => rfl
    | cons c rest =>
      obtain rfl := Option.some.inj marked
      rfl

theorem SizeLine.lineValue_text (line : SizeLine) : lineValue 0 line.text = line.value := by
  unfold SizeLine.text SizeLine.value
  generalize 0 = len
  induction line.digits generalizing len with
  | nil => exact lineValue_extension line.marked len
  | cons d digits ih =>
    rw [List.map_cons, List.cons_append, lineValue, hexDigit_byte]
    exact ih _

theorem SizeLine.text_oneLine (line : SizeLine) : 0x0D ∉ line.text := by
  have digit : ∀ d : Digit, d.byte ≠ 0x0D := by
    rintro ⟨value, upper⟩
    revert value
    cases upper <;> decide
  simp only [SizeLine.text, List.mem_append, List.mem_map, not_or, not_exists, not_and]
  exact ⟨fun d _ => digit d, line.oneLine⟩

/-! ## The loop over the chunks -/

theorem decodeChunks_end {size room : Nat} {text : List UInt8}
    (ends : room = 0 ∨ splitLine text = none) : decodeChunks size text room = some [] := by
  rw [decodeChunks]
  split_ifs with stop
  · rfl
  · split
    · rfl
    · next split =>
        rcases ends with full | none
        · exact absurd (.inr full) stop
        · cases none.symm.trans split

/-- A turn of the loop. -/
theorem decodeChunks_line {size room : Nat} {text line rest : List UInt8} (open_ : room ≠ 0)
    (split : splitLine text = some (line, rest)) :
    decodeChunks size text room =
      if lineValue 0 line = 0 then some []
      else if size - rest.length + lineValue 0 line + 1 < 2 ^ 64 then
        if min (min (lineValue 0 line) rest.length) room < lineValue 0 line then
          some (rest.take (min (min (lineValue 0 line) rest.length) room))
        else
          (decodeChunks size (skipEnd (rest.drop (lineValue 0 line)))
            (room - lineValue 0 line)).map (rest.take (lineValue 0 line) ++ ·)
      else none := by
  have going : ¬ (text = [] ∨ room = 0) := by
    rintro (rfl | full)
    · cases split
    · exact open_ full
  rw [decodeChunks, if_neg going]
  split
  · next none => cases none.symm.trans split
  · next line' rest' split' =>
      obtain ⟨rfl, rfl⟩ := Prod.mk.inj (Option.some.inj (split'.symm.trans split))
      rw [chunkSize_eq (by omega)]
      generalize lineValue 0 line' = value
      by_cases small : value < 2 ^ 64
      · rw [if_pos small]
        cases value with
        | zero => rfl
        | succ value =>
          rw [if_neg (Nat.succ_ne_zero _)]
          change (if size - rest'.length + (value + 1) + 1 < 2 ^ 64 then
            if min (min (value + 1) rest'.length) room < value + 1 then
              some (rest'.take (min (min (value + 1) rest'.length) room))
            else
              (decodeChunks size (skipEnd (rest'.drop (value + 1)))
                (room - min (min (value + 1) rest'.length) room)).map
                  (rest'.take (min (min (value + 1) rest'.length) room) ++ ·)
            else none) = _
          by_cases short : min (min (value + 1) rest'.length) room < value + 1
          · rw [if_pos short, if_pos short]
          · have whole : min (min (value + 1) rest'.length) room = value + 1 := by omega
            rw [if_neg short, if_neg short, whole]
      · rw [if_neg small, if_neg (by omega), if_neg (by omega)]

/-- What the loop takes out is shorter than the text. -/
theorem length_decodeChunks {size : Nat} (text : List UInt8) (room : Nat) {out : List UInt8}
    (decoded : decodeChunks size text room = some out) : out = [] ∨ out.length < text.length := by
  induction length : text.length using Nat.strong_induction_on generalizing text room out with
  | _ n ih =>
    subst length
    by_cases full : room = 0
    · rw [decodeChunks_end (.inl full)] at decoded
      exact .inl (Option.some.inj decoded).symm
    cases split : splitLine text with
    | none =>
      rw [decodeChunks_end (.inr split)] at decoded
      exact .inl (Option.some.inj decoded).symm
    | some parts =>
      have lengths := length_splitLine split
      rw [decodeChunks_line full split] at decoded
      split_ifs at decoded with ends fits short
      · exact .inl (Option.some.inj decoded).symm
      · obtain rfl := Option.some.inj decoded
        right
        rw [List.length_take]
        omega
      · obtain ⟨later, decodedLater, rfl⟩ := Option.map_eq_some_iff.mp decoded
        right
        have shorter := length_skipEnd_le (parts.2.drop (lineValue 0 parts.1))
        rw [List.length_drop] at shorter
        have laterLength := ih _ (by omega) _ _ decodedLater rfl
        rw [List.length_append, List.length_take]
        rcases laterLength with rfl | laterLength
        · rw [List.length_nil]
          omega
        · omega

/-- A chunk that is whole and fits leads on to what stands behind it. -/
def NextChunk (before after : List UInt8 × Nat) : Prop :=
  ∃ line rest, splitLine before.1 = some (line, rest) ∧ before.2 ≠ 0 ∧ lineValue 0 line ≠ 0 ∧
    lineValue 0 line ≤ rest.length ∧ lineValue 0 line ≤ before.2 ∧
    after = (skipEnd (rest.drop (lineValue 0 line)), before.2 - lineValue 0 line)

/-- The size that comes next keeps the position within `usize`. -/
def SizeFits (size : Nat) (at_ : List UInt8 × Nat) : Prop :=
  ∀ line rest, at_.2 ≠ 0 → splitLine at_.1 = some (line, rest) → lineValue 0 line ≠ 0 →
    size - rest.length + lineValue 0 line + 1 < 2 ^ 64

/-- The loop is without overflow exactly if every size fits that whole chunks lead up to. -/
theorem decodeChunks_isSome_iff {size : Nat} (text : List UInt8) (room : Nat) :
    (decodeChunks size text room).isSome ↔
      ∀ at_, Relation.ReflTransGen NextChunk (text, room) at_ → SizeFits size at_ := by
  induction length : text.length using Nat.strong_induction_on generalizing text room with
  | _ n ih =>
    subst length
    constructor
    · intro decoded at_ reached
      rcases reached.cases_head with rfl | ⟨next, taken, later⟩
      · intro line rest open_ split some_
        rw [decodeChunks_line open_ split, if_neg some_] at decoded
        by_contra large
        rw [if_neg large] at decoded
        cases decoded
      · obtain ⟨line, rest, split, open_, some_, whole, room_, rfl⟩ := taken
        dsimp only at split open_ room_ later
        have lengths := length_splitLine split
        have shorter := length_skipEnd_le (rest.drop (lineValue 0 line))
        rw [List.length_drop] at shorter
        rw [decodeChunks_line open_ split, if_neg some_] at decoded
        split_ifs at decoded with fits short
        · omega
        · rw [Option.isSome_map] at decoded
          exact (ih _ (by omega) _ _ rfl).mp decoded at_ later
        · cases decoded
    · intro fits
      by_cases full : room = 0
      · rw [decodeChunks_end (.inl full)]
        rfl
      cases split : splitLine text with
      | none =>
        rw [decodeChunks_end (.inr split)]
        rfl
      | some parts =>
        have lengths := length_splitLine split
        have shorter := length_skipEnd_le (parts.2.drop (lineValue 0 parts.1))
        rw [List.length_drop] at shorter
        rw [decodeChunks_line full split]
        split_ifs with ends here short
        · rfl
        · rfl
        · rw [Option.isSome_map]
          have next : NextChunk (text, room) (skipEnd (parts.2.drop (lineValue 0 parts.1)),
              room - lineValue 0 parts.1) :=
            ⟨parts.1, parts.2, split, full, ends, by omega, by dsimp only; omega, rfl⟩
          exact (ih _ (by omega) _ _ rfl).mpr fun at_ later =>
            fits at_ (later.head next)
        · exact absurd (fits _ .refl parts.1 parts.2 full split ends) here

/-- The loop takes the body out of its frame, as much as there is room for. -/
theorem Framed.decodeChunks_bytes {size : Nat} (small : size ≤ rawSize) (f : Framed) (room : Nat)
    (inside : f.bytes.length ≤ rawSize) :
    decodeChunks size f.bytes room = some (f.body.take room) := by
  obtain ⟨chunks, last, zero, trailer⟩ := f
  unfold Framed.bytes Framed.body at *
  dsimp only at *
  induction chunks generalizing room with
  | nil =>
    by_cases full : room = 0
    · rw [decodeChunks_end (.inl full), List.flatMap_nil, List.take_nil]
    · have split : splitLine (last.bytes ++ trailer) = some (last.text, trailer) := by
        rw [SizeLine.bytes, List.append_assoc]
        exact splitLine_append last.text_oneLine trailer
      rw [List.flatMap_nil, List.nil_append, decodeChunks_line full split,
        last.lineValue_text, if_pos zero, List.flatMap_nil, List.take_nil]
  | cons c chunks ih =>
    by_cases full : room = 0
    · rw [decodeChunks_end (.inl full), full, List.take_zero]
    · generalize tail : chunks.flatMap Chunk.bytes ++ (last.bytes ++ trailer) = text at *
      have frame : (c :: chunks).flatMap Chunk.bytes ++ (last.bytes ++ trailer) =
          c.line.text ++ (crlf ++ (c.data ++ (crlf ++ text))) := by
        simp only [List.flatMap_cons, Chunk.bytes, SizeLine.bytes, List.append_assoc, ← tail]
      have split := splitLine_append c.line.text_oneLine (c.data ++ (crlf ++ text))
      have filled := List.length_pos_of_ne_nil c.filled
      have two : crlf.length = 2 := rfl
      have rest : (c.data ++ (crlf ++ text)).length = c.data.length + 2 + text.length := by
        rw [List.length_append, List.length_append, two, Nat.add_assoc]
      have value : lineValue 0 c.line.text = c.data.length := by
        rw [c.line.lineValue_text, c.size]
      rw [frame] at inside ⊢
      have lengths := length_splitLine split
      rw [rest] at lengths
      unfold rawSize at small inside
      rw [decodeChunks_line full split, value, rest, if_neg (by omega), if_pos (by omega),
        List.flatMap_cons]
      split_ifs with short
      · have cut : min (min c.data.length (c.data.length + 2 + text.length)) room = room := by
          omega
        rw [cut, List.take_append_of_le_length (by omega), List.take_append_of_le_length (by omega)]
      · have later := ih (room - c.data.length) (by unfold rawSize; omega)
        have behind : skipEnd ((c.data ++ (crlf ++ text)).drop c.data.length) = text := by
          rw [List.drop_left]
          rfl
        have whole : c.data.take room = c.data := List.take_of_length_le (by omega)
        rw [behind, later, List.take_left, List.take_append, whole]
        rfl

/-! ## Responses -/

/-- The body that `http_recv_full` leaves. -/
def bodyOf (turns : List Turn) (bodyRoom headerRoom : Nat) : Option (List UInt8) :=
  (httpRecvFull turns bodyRoom headerRoom).map Received.body

theorem bodyOf_eq (turns : List Turn) (bodyRoom headerRoom : Nat) :
    bodyOf turns bodyRoom headerRoom =
      match headerEnd (receive [] turns) with
      | none => some []
      | some hdrEnd =>
        let bodyRaw := (receive [] turns).drop hdrEnd
        if mentionsChunked ((receive [] turns).take hdrEnd) then
          decodeChunks bodyRaw.length bodyRaw bodyRoom
        else some (bodyRaw.take bodyRoom) := by
  cases ends : headerEnd (receive [] turns) with
  | none => simp only [bodyOf, httpRecvFull, ends, Option.map_some]
  | some hdrEnd =>
    simp only [bodyOf, httpRecvFull, ends, Option.map_map]
    exact Option.map_id'

/-- The body of a response that has come in. -/
theorem Delivery.bodyOf_eq {h : Header} {body : List UInt8} (d : Delivery (h.bytes ++ body))
    (bodyRoom headerRoom : Nat) [Decidable h.Mentions] :
    bodyOf d.turns bodyRoom headerRoom =
      if h.Mentions then decodeChunks body.length body bodyRoom else some (body.take bodyRoom) := by
  rw [Wget.bodyOf_eq, d.receive_eq, h.headerEnd_eq]
  dsimp only
  rw [List.drop_left, List.take_left]
  simp only [h.mentionsChunked_iff]

/-- A framed body behind a header that gives `chunked` comes back whole exactly if there is room. -/
theorem framed_iff {h : Header} (chunked : h.Chunked) {f : Framed} (d : Delivery (h.bytes ++ f.bytes))
    (bodyRoom headerRoom : Nat) :
    bodyOf d.turns bodyRoom headerRoom = some (f.body.take bodyRoom) ∧
      (bodyOf d.turns bodyRoom headerRoom = some f.body ↔ f.body.length ≤ bodyRoom) := by
  classical
  have inside : f.bytes.length ≤ rawSize := by
    have fits := d.fits
    rw [List.length_append] at fits
    omega
  have taken : bodyOf d.turns bodyRoom headerRoom = some (f.body.take bodyRoom) := by
    rw [d.bodyOf_eq, if_pos (Header.mentions_of_chunked chunked),
      f.decodeChunks_bytes inside bodyRoom inside]
  refine ⟨taken, ?_⟩
  rw [taken, Option.some_inj, List.take_eq_self_iff]

/-- A body comes back as it is exactly if it is empty, or there is room for it and no word `chunked`
in the header. -/
theorem verbatim_iff {h : Header} {body : List UInt8} (d : Delivery (h.bytes ++ body))
    (bodyRoom headerRoom : Nat) :
    bodyOf d.turns bodyRoom headerRoom = some body ↔
      body = [] ∨ (¬ h.Mentions ∧ body.length ≤ bodyRoom) := by
  classical
  rw [d.bodyOf_eq]
  split_ifs with mentions
  · simp only [mentions, not_true_eq_false, false_and, or_false]
    constructor
    · intro decoded
      rcases length_decodeChunks body bodyRoom decoded with empty | shorter
      · exact empty
      · exact absurd shorter (Nat.lt_irrefl _)
    · rintro rfl
      exact decodeChunks_end (.inr rfl)
  · rw [Option.some_inj, List.take_eq_self_iff]
    simp only [mentions, not_false_eq_true, true_and]
    constructor
    · exact .inr
    · rintro (rfl | fits)
      · exact Nat.zero_le _
      · exact fits

/-- Whatever comes in, nothing overflows exactly if no size that whole chunks lead up to takes the
position out of `usize`. -/
theorem noOverflow_iff (turns : List Turn) (bodyRoom headerRoom : Nat) :
    (httpRecvFull turns bodyRoom headerRoom).isSome ↔
      ∀ hdrEnd, headerEnd (receive [] turns) = some hdrEnd →
        mentionsChunked ((receive [] turns).take hdrEnd) →
        ∀ at_, Relation.ReflTransGen NextChunk ((receive [] turns).drop hdrEnd, bodyRoom) at_ →
          SizeFits ((receive [] turns).drop hdrEnd).length at_ := by
  have body : (httpRecvFull turns bodyRoom headerRoom).isSome =
      (bodyOf turns bodyRoom headerRoom).isSome := Option.isSome_map.symm
  rw [body, Wget.bodyOf_eq]
  cases headerEnd (receive [] turns) with
  | none => simp
  | some hdrEnd =>
    dsimp only
    split_ifs with mentions
    · rw [decodeChunks_isSome_iff]
      simp [mentions]
    · simp [mentions]

/-- What comes back of a response, and when nothing overflows: a framed body is whole exactly if
there is room for it, any other body is as it was sent exactly if it is empty or there is room and
the header has no word `chunked`, and the sizes of the chunks are added up without overflow exactly
if every one that is reached fits. -/
theorem response_taken_iff (bodyRoom headerRoom : Nat) :
    (∀ (h : Header), h.Chunked → ∀ (f : Framed) (d : Delivery (h.bytes ++ f.bytes)),
      bodyOf d.turns bodyRoom headerRoom = some (f.body.take bodyRoom) ∧
        (bodyOf d.turns bodyRoom headerRoom = some f.body ↔ f.body.length ≤ bodyRoom)) ∧
      (∀ (h : Header) (body : List UInt8) (d : Delivery (h.bytes ++ body)),
        bodyOf d.turns bodyRoom headerRoom = some body ↔
          body = [] ∨ (¬ h.Mentions ∧ body.length ≤ bodyRoom)) ∧
      ∀ turns : List Turn,
        (httpRecvFull turns bodyRoom headerRoom).isSome ↔
          ∀ hdrEnd, headerEnd (receive [] turns) = some hdrEnd →
            mentionsChunked ((receive [] turns).take hdrEnd) →
            ∀ at_, Relation.ReflTransGen NextChunk ((receive [] turns).drop hdrEnd, bodyRoom) at_ →
              SizeFits ((receive [] turns).drop hdrEnd).length at_ :=
  ⟨fun _ chunked _ d => framed_iff chunked d bodyRoom headerRoom,
    fun _ _ d => verbatim_iff d bodyRoom headerRoom,
    fun turns => noOverflow_iff turns bodyRoom headerRoom⟩

/-- `Transfer-Encoding: chunked`. -/
def fieldLine : List UInt8 :=
  [0x54, 0x72, 0x61, 0x6E, 0x73, 0x66, 0x65, 0x72, 0x2D, 0x45, 0x6E, 0x63, 0x6F, 0x64, 0x69, 0x6E,
    0x67, 0x3A, 0x20, 0x63, 0x68, 0x75, 0x6E, 0x6B, 0x65, 0x64]

def fieldHeader : Header := ⟨[fieldLine], by decide, by decide, by decide⟩

/-- `A` and `BC` in two chunks, the second one with an extension. -/
def sampleFrame : Framed where
  chunks := [⟨⟨[⟨1, false⟩], [], by decide, by decide⟩, [0x41], by decide, by decide⟩,
    ⟨⟨[⟨0, false⟩, ⟨2, true⟩], [0x3B, 0x78], by decide, by decide⟩, [0x42, 0x43], by decide,
      by decide⟩]
  last := ⟨[⟨0, false⟩], [], by decide, by decide⟩
  zero := by decide
  trailer := crlf

/-- The response comes in two pieces, cut within the first size line. -/
def sampleDelivery : Delivery (fieldHeader.bytes ++ sampleFrame.bytes) where
  turns := [⟨(fieldHeader.bytes ++ sampleFrame.bytes).take 31, true, []⟩,
    ⟨(fieldHeader.bytes ++ sampleFrame.bytes).drop 31, true, []⟩]
  all := by decide
  fits := by decide

theorem sample_taken : bodyOf sampleDelivery.turns 65536 2048 = some [0x41, 0x42, 0x43] :=
  ((response_taken_iff 65536 2048).1 fieldHeader ⟨fieldLine, by decide, 0x20 :: chunkedWord,
    by decide, ⟨[0x20], [], by decide⟩⟩ sampleFrame sampleDelivery).2.mpr (by decide)

/-- `X: chunked`. -/
def mentionHeader : Header :=
  ⟨[[0x58, 0x3A, 0x20, 0x63, 0x68, 0x75, 0x6E, 0x6B, 0x65, 0x64]], by decide, by decide, by decide⟩

/-- The response whose body is `A`, with the word in a field of another name. -/
def mentionDelivery : Delivery (mentionHeader.bytes ++ [0x41]) where
  turns := [⟨mentionHeader.bytes ++ [0x41], true, []⟩]
  all := by decide
  fits := by decide

/-- The size of a chunk is 16 to the power of 16. -/
def hugeTurns : List Turn :=
  [⟨fieldHeader.bytes ++ ([0x31] ++ List.replicate 16 0x30 ++ crlf), true, []⟩]

/-- The body `A` is lost with a word in a field of no account, and a size overflows. -/
theorem mention_loses_body :
    ¬ mentionHeader.Chunked ∧ bodyOf mentionDelivery.turns 65536 2048 = some [] ∧
      httpRecvFull hugeTurns 65536 2048 = none := by
  refine ⟨?_, ?_, ?_⟩
  · rintro ⟨line, member, value, same, -⟩
    obtain rfl := List.mem_singleton.mp member
    cases congrArg List.head? same
  · rw [bodyOf_eq]
    change (if mentionsChunked mentionHeader.bytes then decodeChunks 1 [0x41] 65536 else _) = _
    rw [if_pos (by decide), decodeChunks_end (.inr rfl)]
  · have split : splitLine ([0x31] ++ List.replicate 16 0x30 ++ crlf) =
        some ([0x31] ++ List.replicate 16 0x30, []) := rfl
    change Option.map _ (if mentionsChunked fieldHeader.bytes then
      decodeChunks 19 ([0x31] ++ List.replicate 16 0x30 ++ crlf) 65536 else _) = none
    rw [if_pos (by decide), decodeChunks_line (by decide) split, if_neg (by decide),
      if_neg (by decide), Option.map_none]

end DBSos.Net.Wget
