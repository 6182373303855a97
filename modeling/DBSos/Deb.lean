import DBSos.Lib.Fields
import Mathlib.Data.List.Induction
import Mathlib.Data.List.Nodup

/-!
# The containers of a package

`deb.rs` looks members up by name in an `ar` archive and in a `tar` archive, and has an emitter
for each. Positions are machine numbers: an addition that leaves their range, like a slice out of
bounds, ends the kernel, which is `none` here.
-/

namespace DBSos.Deb

open DBSos.Lib

abbrev Bytes := List UInt8

/-- What a slice of bytes can be. -/
structure Slice where
  bytes : Bytes
  fits : bytes.length < 2 ^ 63

/-- A value of type `usize`. -/
def usize (n : Nat) : Option Nat := if n < 2 ^ 64 then some n else none

/-! ## Looking up -/

/-- `!<arch>\n`. -/
def arMagic : Bytes := [33, 60, 97, 114, 99, 104, 62, 10]

/-- What ends the name of a member: `/`, a space or NUL. -/
def arStops : Bytes := [47, 32, 0]

/-- The length of the name in a header. -/
def arNameLen (hdr : Bytes) : Nat := ((hdr.take 16).takeWhile fun c => c ∉ arStops).length

/-- The decimal size of a member. -/
def decimal : Bytes → Nat → Option Nat
  | [], size => some size
  | c :: rest, size =>
    if 48 ≤ c ∧ c ≤ 57 then (usize (size * 10 + (c.toNat - 48))).bind (decimal rest)
    else decimal rest size

/-- How a turn of a search ends: with the answer, or with the next position. -/
inductive Turn where
  | answer (data : Option Bytes)
  | next (off : Nat)

/-- The loop of both searches. -/
def search (turn : Nat → Option Turn) : (fuel off : Nat) → Option (Option Bytes)
  | 0, _ => none
  | fuel + 1, off => (turn off).bind fun
      | .answer data => some data
      | .next off => search turn fuel off

/-- A turn of the loop of `ar_find`. -/
def arTurn (archive name : Bytes) (off : Nat) : Option Turn := do
  let headerEnd ← usize (off + 60)
  if archive.length < headerEnd then some (.answer none)
  else
    let hdr ← part archive off headerEnd
    let magic ← part hdr 58 60
    if magic ≠ [96, 10] then some (.answer none)
    else
      let nlen := arNameLen hdr
      let size ← decimal (← part hdr 48 58) 0
      let dataStart ← usize (off + 60)
      -- The table of names and the long names of GNU are passed over.
      if hdr.head? ≠ some 47 ∧ nlen = name.length ∧ hdr.take nlen = name then
        let dataEnd ← usize (dataStart + size)
        if archive.length < dataEnd then some (.answer none)
        else
          let data ← part archive dataStart dataEnd
          some (.answer (some data))
      else
        let rounded := (← usize (size + 1)) / 2 * 2
        let off ← usize (dataStart + rounded)
        some (.next off)

/-- `ar_find`. -/
def arFind (archive name : Bytes) : Option (Option Bytes) :=
  if archive.length < 8 ∨ archive.take 8 ≠ arMagic then some none
  else search (arTurn archive name) (archive.length + 1) 8

/-- The loop of `octal`. -/
def octalLoop : Bytes → Nat → Option Nat
  | [], v => some v
  | c :: rest, v =>
    if c = 0 ∨ c = 32 then some v
    else if c < 48 ∨ 55 < c then some 0
    else (usize (v * 8 + (c.toNat - 48))).bind (octalLoop rest)

/-- `octal`. -/
def octal (b : Bytes) : Option Nat := octalLoop b 0

/-- The path in a header: its name, behind its prefix when it has one. The buffer for both has
256 bytes. -/
def tarPath (hdr : Bytes) : Option Bytes :=
  let name := (hdr.take 100).takeWhile (· ≠ 0)
  let lead := ((hdr.drop 345).take 155).takeWhile (· ≠ 0)
  if lead = [] then some name
  else if lead.length + 1 + name.length ≤ 256 then some (lead ++ [47] ++ name) else none

/-- A turn of the loop of `tar_find`. -/
def tarTurn (archive path : Bytes) (off : Nat) : Option Turn := do
  let headerEnd ← usize (off + 512)
  if archive.length < headerEnd then some (.answer none)
  else
    let hdr ← part archive off headerEnd
    if hdr.all (· = 0) then some (.answer none)
    else
      let full ← tarPath hdr
      let size ← octal (← part hdr 124 136)
      let dataStart ← usize (off + 512)
      let dataEnd ← usize (dataStart + size)
      if archive.length < dataEnd then some (.answer none)
      else
        let kind ← hdr[156]?
        if (kind = 0 ∨ kind = 48) ∧ full = path then
          let data ← part archive dataStart dataEnd
          some (.answer (some data))
        else
          let off ← usize (dataEnd + (512 - size % 512) % 512)
          some (.next off)

/-- `tar_find`. -/
def tarFind (archive path : Bytes) : Option (Option Bytes) :=
  search (tarTurn archive path) (archive.length + 1) 0

/-! ## Emitting -/

/-- The digits of `ar_emit`, and what is left of a number that has more than ten. -/
def arDigits (sz : Nat) : Bytes × Nat :=
  if sz = 0 then ((List.replicate 10 32).set 9 48, 0)
  else fillDigits 10 10 sz (List.replicate 10 32)

/-- The size field of `ar_emit`: no answer for a number that has more digits than places. -/
def arSize (sz : Nat) : Option Bytes :=
  if (arDigits sz).2 = 0 then some (arDigits sz).1 else none

/-- The 16 bytes of the name, before the slash goes in. -/
def arName (name : Bytes) : Bytes := (name ++ List.replicate 16 32).take 16

/-- A name of less than 16 bytes gets a slash. -/
def arSlash (name buf : Bytes) : Option Bytes :=
  if name.length < 16 then overwrite (8 + name.length) [47] buf else some buf

/-- A content of odd length gets one more byte. -/
def arEven (data buf : Bytes) : Option (Bytes × Nat) :=
  if data.length % 2 = 1 then
    (overwrite (68 + data.length) [10] buf).map fun buf => (buf, 68 + data.length + 1)
  else some (buf, 68 + data.length)

/-- `ar_emit`: the buffer afterwards and the length. -/
def arEmit (buf name data : Bytes) : Option (Bytes × Nat) := do
  let buf ← overwrite 0 arMagic buf
  let buf ← overwrite 8 (arName name) buf
  let buf ← arSlash name buf
  let buf ← overwrite 24 (List.replicate 32 32) buf
  let size ← arSize data.length
  let buf ← overwrite 56 size buf
  let buf ← overwrite 66 [96, 10] buf
  let buf ← overwrite 68 data buf
  arEven data buf

/-- The size field of `tar_emit`: the lowest eleven octal digits. -/
def tarSize (sz : Nat) : Bytes := (fillDigits 8 11 sz (List.replicate 11 48)).1

/-- `while o % 512 != 0 { buf[o] = 0; o += 1 }`. -/
def padBlock : (fuel o : Nat) → Bytes → Option (Bytes × Nat)
  | 0, _, _ => none
  | fuel + 1, o, buf =>
    if o % 512 = 0 then some (buf, o)
    else (overwrite o [0] buf).bind (padBlock fuel (o + 1))

/-- `tar_emit`: the buffer afterwards and the length. -/
def tarEmit (buf path data : Bytes) : Option (Bytes × Nat) := do
  let buf ← overwrite 0 (List.replicate 512 0) buf
  let buf ← overwrite 0 (path.take 100) buf
  let buf ← overwrite 124 (List.replicate 11 48) buf
  let buf ← overwrite 135 [0] buf
  let buf ← overwrite 124 (tarSize data.length) buf
  let buf ← overwrite 156 [48] buf
  let buf ← overwrite 257 [117, 115, 116, 97, 114] buf
  let buf ← overwrite 512 data buf
  padBlock 512 (512 + data.length) buf

/-- What can name a member: at most `limit` bytes, and none of those that end a name. -/
structure Name (limit : Nat) (stops : Bytes) where
  bytes : Bytes
  nonempty : bytes ≠ []
  short : bytes.length ≤ limit
  solid : ∀ c ∈ bytes, c ∉ stops

/-- A named content. -/
structure Member (limit : Nat) (stops : Bytes) where
  name : Name limit stops
  content : Bytes

abbrev ArMember := Member 15 arStops

abbrev TarMember := Member 100 [0]

/-- The magic, and behind it what `ar_emit` leaves in some buffer for each of the members, there
without its magic. -/
inductive ArArchive : List ArMember → Bytes → Prop where
  | empty : ArArchive [] arMagic
  | append {members : List ArMember} {bytes buf buf' : Bytes} {member : ArMember} {length : Nat}
      (before : ArArchive members bytes)
      (emitted : arEmit buf member.name.bytes member.content = some (buf', length)) :
      ArArchive (members ++ [member]) (bytes ++ (buf'.take length).drop 8)

/-- What `tar_emit` leaves in some buffer for each of the members. -/
inductive TarBlocks : List TarMember → Bytes → Prop where
  | empty : TarBlocks [] []
  | append {members : List TarMember} {bytes buf buf' : Bytes} {member : TarMember} {length : Nat}
      (before : TarBlocks members bytes)
      (emitted : tarEmit buf member.name.bytes member.content = some (buf', length)) :
      TarBlocks (members ++ [member]) (bytes ++ buf'.take length)

/-- The blocks and two blocks of zeros. -/
def TarArchive (members : List TarMember) (bytes : Bytes) : Prop :=
  ∃ blocks, TarBlocks members blocks ∧ bytes = blocks ++ List.replicate 1024 0

/-- The lookup finds the content of every member, and nothing under another name. -/
def Found {limit : Nat} {stops : Bytes} (find : Bytes → Option (Option Bytes))
    (members : List (Member limit stops)) : Prop :=
  (∀ member ∈ members, find member.name.bytes = some (some member.content)) ∧
  ∀ name, (∀ member ∈ members, member.name.bytes ≠ name) → find name = some none

variable {archive name path text hdr left rest data buf buf' : Bytes} {fuel off n v width : Nat}

theorem usize_of_lt (below : n < 2 ^ 64) : usize n = some n := if_pos below

/-! ## Safety -/

theorem isDigit_ten (c : UInt8) : IsDigit 10 c ↔ 48 ≤ c ∧ c ≤ 57 := by
  rw [IsDigit, UInt8.le_iff_toNat_le, UInt8.le_iff_toNat_le]
  change 48 ≤ c.toNat ∧ c.toNat < 58 ↔ 48 ≤ c.toNat ∧ c.toNat ≤ 57
  omega

theorem decimal_eq (start : v < 10 ^ width) (short : width + text.length ≤ 19) :
    decimal text v = some (text.foldl (readDigit 10) v) := by
  induction text generalizing v width with
  | nil => rfl
  | cons c text ih =>
    have wide : width + 1 + text.length ≤ 19 := by
      rw [List.length_cons] at short
      omega
    have next : readDigit 10 v c < 10 ^ (width + 1) :=
      foldl_readDigit_lt (by decide) [c] start
    have limit : 10 ^ (width + 1) ≤ 10 ^ 19 := Nat.pow_le_pow_right (by decide) (by omega)
    rw [List.foldl_cons, decimal, ← ih next wide]
    by_cases digit : IsDigit 10 c
    · have value : readDigit 10 v c = v * 10 + (c.toNat - 48) := if_pos digit
      rw [if_pos ((isDigit_ten c).mp digit), ← value, usize_of_lt (by omega), Option.bind_some]
    · rw [if_neg (mt (isDigit_ten c).mpr digit), readDigit, if_neg digit]

theorem octalLoop_isSome (start : v < 8 ^ width) (short : width + text.length ≤ 20) :
    ∃ size, octalLoop text v = some size ∧ size < 8 ^ (width + text.length) := by
  induction text generalizing v width with
  | nil => exact ⟨v, rfl, start⟩
  | cons c text ih =>
    have grows : 8 ^ width ≤ 8 ^ (width + (c :: text).length) :=
      Nat.pow_le_pow_right (by decide) (Nat.le_add_right _ _)
    unfold octalLoop
    split_ifs with ends bad
    · exact ⟨v, rfl, by omega⟩
    · exact ⟨0, rfl, by omega⟩
    · have digit : c.toNat ≤ 55 := by
        have := (not_or.mp bad).2
        rw [UInt8.lt_iff_toNat_lt] at this
        exact Nat.not_lt.mp this
      have next : v * 8 + (c.toNat - 48) < 8 ^ (width + 1) := by
        rw [Nat.pow_succ]
        omega
      have length : width + (c :: text).length = width + 1 + text.length := by
        rw [List.length_cons]
        omega
      have limit : 8 ^ (width + 1) ≤ 8 ^ 20 := Nat.pow_le_pow_right (by decide) (by omega)
      rw [usize_of_lt (by omega), Option.bind_some, length]
      exact ih next (by omega)

/-- A search comes to an answer when its turns fail nowhere and each one that goes on started
inside the archive and leads further, but not beyond some limit. -/
theorem search_isSome {turn : Nat → Option Turn} {limit length : Nat}
    (turns : ∀ off ≤ limit, ∃ result, turn off = some result ∧
      ∀ next, result = .next next → off < length ∧ off < next ∧ next ≤ limit)
    (near : off ≤ limit) (enough : length < off + fuel) (positive : 0 < fuel) :
    (search turn fuel off).isSome := by
  induction fuel generalizing off with
  | zero => exact absurd positive (Nat.lt_irrefl 0)
  | succ fuel ih =>
    obtain ⟨result, turned, goes⟩ := turns off near
    rw [search, turned, Option.bind_some]
    cases result with
    | answer data => rfl
    | next next =>
      obtain ⟨inside, further, below⟩ := goes next rfl
      exact ih below (by omega) (by omega)

/-- A turn goes on behind the header, and by no more than the size field can hold. -/
theorem arTurn_total (fits : archive.length < 2 ^ 63) (near : off ≤ archive.length + 2 ^ 40) :
    ∃ result, arTurn archive name off = some result ∧ ∀ next, result = .next next →
      off < archive.length ∧ off < next ∧ next ≤ archive.length + 2 ^ 40 := by
  have stop : ∀ data next, Turn.answer data = .next next →
      off < archive.length ∧ off < next ∧ next ≤ archive.length + 2 ^ 40 := by
    rintro data next ⟨⟩
  unfold arTurn
  rw [usize_of_lt (show off + 60 < 2 ^ 64 by omega)]
  by_cases short : archive.length < off + 60
  · exact ⟨_, if_pos short, stop _⟩
  have header := part_of_le (Nat.le_add_right off 60) (Nat.not_lt.mp short)
  have length := length_of_part header
  generalize (archive.take (off + 60)).drop off = hdr at header length
  have magic := part_of_le (show 58 ≤ 60 by decide) (show 60 ≤ hdr.length by omega)
  have field := part_of_le (show 48 ≤ 58 by decide) (show 58 ≤ hdr.length by omega)
  have ten := length_of_part field
  generalize (hdr.take 58).drop 48 = text at field ten
  have read := decimal_eq (v := 0) (show 0 < 10 ^ 0 by decide) (show 0 + text.length ≤ 19 by omega)
  have small := foldl_readDigit_lt (show 0 < 10 by decide) text (show 0 < 10 ^ 0 by decide)
  rw [ten] at small
  generalize text.foldl (readDigit 10) 0 = size at read small
  simp only [Option.bind_eq_bind, Option.bind_some, if_neg short, header, magic, field, read,
    usize_of_lt (show size + 1 < 2 ^ 64 by omega),
    usize_of_lt (show off + 60 + (size + 1) / 2 * 2 < 2 ^ 64 by omega),
    usize_of_lt (show off + 60 + size < 2 ^ 64 by omega)]
  split_ifs with bad named behind
  · exact ⟨_, rfl, stop _⟩
  · exact ⟨_, rfl, stop _⟩
  · rw [part_of_le (by omega) (by omega)]
    exact ⟨_, rfl, stop _⟩
  · refine ⟨_, rfl, ?_⟩
    rintro next ⟨⟩
    omega

theorem tarPath_isSome (hdr : Bytes) : (tarPath hdr).isSome := by
  have shortName : ((hdr.take 100).takeWhile (· ≠ 0)).length ≤ 100 :=
    (List.takeWhile_prefix _).length_le.trans (List.length_take_le _ _)
  have shortLead : (((hdr.drop 345).take 155).takeWhile (· ≠ 0)).length ≤ 155 :=
    (List.takeWhile_prefix _).length_le.trans (List.length_take_le _ _)
  rw [tarPath, if_pos (show _ ≤ 256 by omega)]
  split_ifs
  · rfl
  · rfl

/-- A turn goes on behind the header, to less than a block behind the archive. -/
theorem tarTurn_total (fits : archive.length < 2 ^ 63) (near : off ≤ archive.length + 512) :
    ∃ result, tarTurn archive path off = some result ∧ ∀ next, result = .next next →
      off < archive.length ∧ off < next ∧ next ≤ archive.length + 512 := by
  have stop : ∀ data next, Turn.answer data = .next next →
      off < archive.length ∧ off < next ∧ next ≤ archive.length + 512 := by
    rintro data next ⟨⟩
  unfold tarTurn
  rw [usize_of_lt (show off + 512 < 2 ^ 64 by omega)]
  by_cases short : archive.length < off + 512
  · exact ⟨_, if_pos short, stop _⟩
  have header := part_of_le (Nat.le_add_right off 512) (Nat.not_lt.mp short)
  have length := length_of_part header
  generalize (archive.take (off + 512)).drop off = hdr at header length
  have field := part_of_le (show 124 ≤ 136 by decide) (show 136 ≤ hdr.length by omega)
  have twelve := length_of_part field
  generalize (hdr.take 136).drop 124 = text at field twelve
  obtain ⟨size, read, small⟩ := octalLoop_isSome (v := 0) (show 0 < 8 ^ 0 by decide)
    (show 0 + text.length ≤ 20 by omega)
  rw [twelve] at small
  obtain ⟨full, joined⟩ := Option.isSome_iff_exists.mp (tarPath_isSome hdr)
  obtain ⟨kind, at156⟩ : ∃ kind, hdr[156]? = some kind :=
    ⟨_, List.getElem?_eq_getElem (by omega)⟩
  simp only [Option.bind_eq_bind, Option.bind_some, if_neg short, header, field, octal, read,
    joined, at156, usize_of_lt (show off + 512 + size < 2 ^ 64 by omega)]
  split_ifs with zero behind found
  · exact ⟨_, rfl, stop _⟩
  · exact ⟨_, rfl, stop _⟩
  · rw [part_of_le (by omega) (by omega)]
    exact ⟨_, rfl, stop _⟩
  · rw [usize_of_lt (by omega)]
    refine ⟨_, rfl, ?_⟩
    rintro next ⟨⟩
    omega

theorem arFind_isSome (archive : Slice) (name : Bytes) : (arFind archive.bytes name).isSome := by
  unfold arFind
  split_ifs with bad
  · rfl
  · exact search_isSome (fun off near => arTurn_total archive.fits near) (by omega) (by omega)
      (Nat.succ_pos _)

theorem tarFind_isSome (archive : Slice) (path : Bytes) : (tarFind archive.bytes path).isSome :=
  search_isSome (fun off near => tarTurn_total archive.fits near) (Nat.zero_le _) (by omega)
    (Nat.succ_pos _)

/-! ## What the emitters leave -/

/-- The header of a member of an `ar` archive. -/
def arHeader (name size : Bytes) : Bytes :=
  name ++ ([47] ++ (List.replicate (15 - name.length) 32 ++ (List.replicate 32 32 ++
    (size ++ [96, 10]))))

/-- The byte that brings a content to an even length. -/
def arPad (data : Bytes) : Bytes := if data.length % 2 = 1 then [10] else []

theorem arDigits_spec (n : Nat) : ∃ text, arDigits n = (text, n / 10 ^ 10) ∧
    text.length = 10 ∧ numeral 10 text = n % 10 ^ 10 := by
  unfold arDigits
  split_ifs with zero
  · subst zero
    exact ⟨_, rfl, by decide, by decide⟩
  · obtain ⟨text, filled, length, -, worth⟩ :=
      fillDigits_spec 10 32 (by decide) (by decide) (.inl (by decide)) 10 n []
    rw [List.append_nil, List.append_nil] at filled
    exact ⟨text, filled, length, worth⟩

theorem arSize_eq_some_iff {size : Bytes} :
    arSize n = some size ↔ n < 10 ^ 10 ∧ size = (arDigits n).1 := by
  obtain ⟨text, filled, -⟩ := arDigits_spec n
  have done : (arDigits n).2 = 0 ↔ n < 10 ^ 10 := by
    rw [filled]
    exact Nat.div_eq_zero_iff_lt (by decide)
  rw [arSize, Option.ite_none_right_eq_some, Option.some_inj, done, eq_comm (a := size)]

theorem arName_eq (short : name.length ≤ 15) :
    arName name = name ++ ([32] ++ List.replicate (15 - name.length) 32) := by
  have blanks : List.replicate 16 (32 : UInt8) =
      ([32] ++ List.replicate (15 - name.length) 32) ++ List.replicate name.length 32 := by
    rw [← List.replicate_one, List.replicate_append_replicate, List.replicate_append_replicate]
    congr 1
    omega
  rw [arName, blanks, ← List.append_assoc]
  exact List.take_left' (by simp; omega)

/-- The record of a member, which stands behind the magic in the buffer. -/
theorem arEmit_spec {length : Nat} (short : name.length ≤ 15)
    (emitted : arEmit buf name data = some (buf', length)) :
    data.length < 10 ^ 10 ∧ (buf'.take length).drop 8 =
      arHeader name (arDigits data.length).1 ++ (data ++ arPad data) := by
  unfold arEmit at emitted
  simp only [Option.bind_eq_bind, Option.bind_eq_some_iff] at emitted
  obtain ⟨buf₁, written₁, buf₂, written₂, buf₃, written₃, buf₄, written₄, size, shown, buf₅,
    written₅, buf₆, written₆, buf₇, written₇, last⟩ := emitted
  obtain ⟨below, rfl⟩ := arSize_eq_some_iff.mp shown
  obtain ⟨digits, filled, ten, -⟩ := arDigits_spec data.length
  rw [filled] at written₅ ⊢
  rw [arName_eq short] at written₂
  rw [arSlash, if_pos (by omega)] at written₃
  have magic := overwrite_behind List.nil_prefix written₁ rfl
  have named := overwrite_behind magic written₂ rfl
  rw [← List.append_assoc _ name] at named
  have slashed := overwrite_inside named written₃ (by simp [arMagic]; omega) rfl
  have spaced := overwrite_behind slashed written₄ (by simp [arMagic]; omega)
  have sized := overwrite_behind spaced written₅ (by simp [arMagic]; omega)
  have ended := overwrite_behind sized written₆ (by simp [arMagic, ten]; omega)
  have filled := overwrite_behind ended written₇ (by simp [arMagic, ten]; omega)
  have even : ([] ++ arMagic ++ name ++ ([47] ++ List.replicate (15 - name.length) 32) ++
      List.replicate 32 32 ++ digits ++ [96, 10] ++ data) ++ arPad data <+: buf' ∧
      length = 68 + data.length + (arPad data).length := by
    unfold arEven at last
    unfold arPad
    split_ifs at last ⊢ with odd
    · obtain ⟨buf₈, written₈, done⟩ := Option.map_eq_some_iff.mp last
      cases done
      exact ⟨overwrite_behind filled written₈ (by simp [arMagic, ten]; omega), rfl⟩
    · cases last
      exact ⟨by simpa using filled, rfl⟩
  obtain ⟨begins, rfl⟩ := even
  refine ⟨below, ?_⟩
  have whole := List.prefix_iff_eq_take.mp begins
  have total : 68 + data.length + (arPad data).length = ([] ++ arMagic ++ name ++
      ([47] ++ List.replicate (15 - name.length) 32) ++ List.replicate 32 32 ++ digits ++
      [96, 10] ++ data ++ arPad data).length := by
    simp [arMagic, ten]
    omega
  rw [total, ← whole]
  simp [arHeader, arMagic]

/-- The header of a member of a `tar` archive. -/
def tarHeader (path : Bytes) (sz : Nat) : Bytes :=
  path ++ (List.replicate (124 - path.length) 0 ++ (tarSize sz ++ (List.replicate 21 0 ++
    ([48] ++ (List.replicate 100 0 ++ ([117, 115, 116, 97, 114] ++ List.replicate 250 0))))))

def tarPad (data : Bytes) : Bytes := List.replicate ((512 - data.length % 512) % 512) 0

theorem padBlock_spec {o o' fuel : Nat} (begins : left <+: buf) (starts : o = left.length)
    (padded : padBlock fuel o buf = some (buf', o')) :
    left ++ List.replicate ((512 - o % 512) % 512) 0 <+: buf' ∧
      o' = o + (512 - o % 512) % 512 := by
  induction fuel generalizing o buf left with
  | zero => cases padded
  | succ fuel ih =>
    rw [padBlock] at padded
    split at padded
    case isTrue whole =>
      cases padded
      rw [whole]
      exact ⟨by simpa using begins, rfl⟩
    case isFalse broken =>
      obtain ⟨next, written, rest⟩ := Option.bind_eq_some_iff.mp padded
      have one := overwrite_behind begins written starts
      obtain ⟨more, ends⟩ := ih one (by simp [starts]) rest
      have turns : (512 - o % 512) % 512 = (512 - (o + 1) % 512) % 512 + 1 := by omega
      rw [turns, List.replicate_succ]
      exact ⟨by simpa using more, by omega⟩

theorem length_tarSize (sz : Nat) : (tarSize sz).length = 11 := by
  obtain ⟨text, filled, length, -⟩ :=
    fillDigits_spec 8 48 (by decide) (by decide) (.inr rfl) 11 sz []
  rw [List.append_nil, List.append_nil] at filled
  rw [tarSize, filled, length]

/-- The block of a file: every write goes into the zeros that the header begins with. -/
theorem tarEmit_spec {length : Nat} (short : path.length ≤ 100)
    (emitted : tarEmit buf path data = some (buf', length)) :
    buf'.take length = tarHeader path data.length ++ (data ++ tarPad data) := by
  unfold tarEmit at emitted
  simp only [Option.bind_eq_bind, Option.bind_eq_some_iff] at emitted
  obtain ⟨buf₁, written₁, buf₂, written₂, buf₃, written₃, buf₄, written₄, buf₅, written₅,
    buf₆, written₆, buf₇, written₇, buf₈, written₈, last⟩ := emitted
  have zeros (m n : Nat) : List.replicate (m + n) (0 : UInt8) =
      List.replicate m 0 ++ List.replicate n 0 := List.replicate_append_replicate.symm
  have gap : 512 - path.length = 124 - path.length + (11 + 377) := by omega
  have whole : 512 = path.length + (512 - path.length) := by omega
  have cleared := overwrite_behind List.nil_prefix written₁ rfl
  rw [whole, zeros] at cleared
  rw [List.take_of_length_le short] at written₂
  have named := overwrite_inside cleared written₂ rfl (by simp)
  rw [gap, zeros, zeros, ← List.append_assoc, ← List.append_assoc] at named
  have numbered := overwrite_inside named written₃ (by simp; omega) rfl
  rw [show 377 = 1 + 376 from rfl, zeros, ← List.append_assoc] at numbered
  have closed := overwrite_inside numbered written₄ (by simp; omega) rfl
  rw [List.append_assoc] at closed
  have sized := overwrite_inside closed written₅ (by simp; omega) (by simp [length_tarSize])
  have split : [0] ++ List.replicate 376 (0 : UInt8) =
      List.replicate 21 0 ++ ([0] ++ List.replicate 355 0) := by
    change List.replicate 1 0 ++ _ = _ ++ (List.replicate 1 0 ++ _)
    rw [← zeros, ← zeros, ← zeros]
  rw [split, ← List.append_assoc, ← List.append_assoc] at sized
  have typed := overwrite_inside sized written₆
    (by simp [-List.reduceReplicate, length_tarSize]; omega) rfl
  rw [show 355 = 100 + (5 + 250) from rfl, zeros, zeros, ← List.append_assoc,
    ← List.append_assoc] at typed
  have marked := overwrite_inside typed written₇
    (by simp [-List.reduceReplicate, length_tarSize]; omega) rfl
  have filled := overwrite_behind marked written₈
    (by simp [-List.reduceReplicate, length_tarSize]; omega)
  obtain ⟨padded, rfl⟩ := padBlock_spec filled
    (by simp [-List.reduceReplicate, length_tarSize]; omega) last
  have shape : tarHeader path data.length ++ (data ++ tarPad data) = [] ++ path ++
      List.replicate (124 - path.length) 0 ++ tarSize data.length ++ List.replicate 21 0 ++
      [48] ++ List.replicate 100 0 ++ ([117, 115, 116, 97, 114] ++ List.replicate 250 0) ++ data ++
      List.replicate ((512 - (512 + data.length) % 512) % 512) 0 := by
    rw [tarHeader, tarPad, Nat.add_mod_left]
    simp only [List.append_assoc, List.nil_append]
  rw [← shape] at padded
  have whole := List.prefix_iff_eq_take.mp padded
  have block : 512 + data.length + (512 - (512 + data.length) % 512) % 512 =
      (tarHeader path data.length ++ (data ++ tarPad data)).length := by
    rw [shape]
    simp [-List.reduceReplicate, length_tarSize]
    omega
  rw [block, ← whole]

/-! ## Reading them -/

def arRecord (member : ArMember) : Bytes :=
  arHeader member.name.bytes (arDigits member.content.length).1 ++
    (member.content ++ arPad member.content)

def tarRecord (member : TarMember) : Bytes :=
  tarHeader member.name.bytes member.content.length ++ (member.content ++ tarPad member.content)

theorem length_arHeader {size : Bytes} (short : name.length ≤ 15) (ten : size.length = 10) :
    (arHeader name size).length = 60 := by
  simp [-List.reduceReplicate, arHeader, ten]
  omega

theorem length_tarHeader (short : path.length ≤ 100) : (tarHeader path n).length = 512 := by
  simp [-List.reduceReplicate, tarHeader, length_tarSize]
  omega

theorem decimal_shown {size : Bytes} (ten : size.length = 10) :
    decimal size 0 = some (numeral 10 size) ∧ numeral 10 size < 10 ^ 10 := by
  have start : 0 < 10 ^ 0 := by decide
  have small := foldl_readDigit_lt (by decide) size start
  rw [ten] at small
  exact ⟨decimal_eq start (by omega), small⟩

/-- What `ar_find` reads of a header. -/
theorem arHeader_parts (title : Name 15 arStops) {size : Bytes} (ten : size.length = 10) :
    part (arHeader title.bytes size) 58 60 = some [96, 10] ∧
      part (arHeader title.bytes size) 48 58 = some size ∧
      arNameLen (arHeader title.bytes size) = title.bytes.length ∧
      (arHeader title.bytes size).head? ≠ some 47 := by
  obtain ⟨title, nonempty, short, solid⟩ := title
  have shape : arHeader title size =
      (title ++ [47] ++ List.replicate (15 - title.length) 32 ++ List.replicate 32 32) ++
        (size ++ [96, 10]) := by
    simp only [arHeader, List.append_assoc]
  have start : (title ++ [47] ++ List.replicate (15 - title.length) (32 : UInt8) ++
      List.replicate 32 32).length = 48 := by
    simp [-List.reduceReplicate]
    omega
  refine ⟨?_, ?_, ?_, ?_⟩
  · have ends : arHeader title size = (title ++ [47] ++ List.replicate (15 - title.length) 32 ++
        List.replicate 32 32 ++ size) ++ ([96, 10] ++ []) := by
      rw [shape, List.append_nil, List.append_assoc _ size]
    rw [ends]
    exact part_append (by rw [List.length_append, start, ten])
      (by rw [List.length_append, start, ten]; rfl)
  · rw [shape]
    exact part_append start.symm (by rw [start, ten])
  · have stops : ∀ c ∈ title, decide (c ∉ arStops) = true := fun c listed =>
      decide_eq_true (solid c listed)
    have first : (arHeader title size).take 16 =
        title ++ 47 :: List.replicate (15 - title.length) 32 := by
      have sixteen : (title ++ [47] ++ List.replicate (15 - title.length) (32 : UInt8)).length =
          16 := by
        simp
        omega
      rw [shape, List.append_assoc _ (List.replicate 32 32), List.take_left' sixteen,
        List.append_assoc, List.singleton_append]
    rw [arNameLen, first, List.takeWhile_append_of_pos stops,
      List.takeWhile_cons_of_neg (by decide), List.append_nil]
  · obtain ⟨c, cs, rfl⟩ := List.exists_cons_of_ne_nil nonempty
    intro slash
    have slashed : c = 47 := by simpa [arHeader] using slash
    exact solid c List.mem_cons_self (by rw [slashed]; decide)

/-- A turn of `ar_find` at a header. -/
theorem arTurn_header {title : Name 15 arStops} {size : Bytes} (ten : size.length = 10)
    (fits : (left ++ (arHeader title.bytes size ++ rest)).length < 2 ^ 63)
    (inside : numeral 10 size ≤ rest.length) :
    arTurn (left ++ (arHeader title.bytes size ++ rest)) name left.length =
      some (if title.bytes = name then .answer (some (rest.take (numeral 10 size)))
        else .next (left.length + 60 + (numeral 10 size + 1) / 2 * 2)) := by
  obtain ⟨read, small⟩ := decimal_shown ten
  obtain ⟨magic, field, nlen, plain⟩ := arHeader_parts title ten
  obtain ⟨title, nonempty, short, solid⟩ := title
  generalize numeral 10 size = n at inside read small
  have sixty : (arHeader title size).length = 60 := length_arHeader short ten
  have total : (left ++ (arHeader title size ++ rest)).length =
      left.length + (60 + rest.length) := by
    rw [List.length_append, List.length_append, sixty]
  have header : part (left ++ (arHeader title size ++ rest)) left.length (left.length + 60) =
      some (arHeader title size) := part_append rfl (by rw [sixty])
  have data : part (left ++ (arHeader title size ++ rest)) (left.length + 60)
      (left.length + 60 + n) = some (rest.take n) := by
    have split : left ++ (arHeader title size ++ rest) =
        left ++ arHeader title size ++ (rest.take n ++ rest.drop n) := by
      rw [List.take_append_drop, List.append_assoc]
    rw [split]
    exact part_append (by rw [List.length_append, sixty])
      (by rw [List.length_append, sixty, List.length_take_of_le inside])
  have named : title.length = name.length ∧ (arHeader title size).take title.length = name ↔
      title = name := by
    rw [arHeader, List.take_left' rfl]
    exact ⟨fun both => both.2, fun same => ⟨congrArg List.length same, same⟩⟩
  dsimp only at fits magic field nlen plain ⊢
  generalize arHeader title size = hdr at *
  unfold arTurn
  simp only [usize_of_lt (show left.length + 60 < 2 ^ 64 by omega), Option.bind_eq_bind,
    Option.bind_some, if_neg (show ¬ (left ++ (hdr ++ rest)).length < left.length + 60 by omega),
    header, magic, field, read, nlen, named, plain, ne_eq, not_true_eq_false, if_false,
    not_false_eq_true, true_and]
  split_ifs with found
  · rw [usize_of_lt (by omega), Option.bind_some, if_neg (by omega), data, Option.bind_some]
  · rw [usize_of_lt (by omega), Option.bind_some, usize_of_lt (by omega), Option.bind_some]

theorem octalLoop_shown (digits : ∀ c ∈ text, IsDigit 8 c) (short : text.length ≤ 20) :
    ∀ {v width}, v < 8 ^ width → width + text.length ≤ 20 →
      octalLoop (text ++ [0]) v = some (text.foldl (readDigit 8) v) := by
  induction text with
  | nil => exact fun _ _ => rfl
  | cons c text ih =>
    intro v width start fits
    rw [List.length_cons] at short fits
    obtain ⟨lowest, highest⟩ := digits c List.mem_cons_self
    have value : readDigit 8 v c = v * 8 + (c.toNat - 48) := if_pos ⟨lowest, highest⟩
    have next : readDigit 8 v c < 8 ^ (width + 1) := foldl_readDigit_lt (by decide) [c] start
    have limit : 8 ^ (width + 1) ≤ 8 ^ 20 := Nat.pow_le_pow_right (by decide) (by omega)
    have plainDigit : ¬ (c = 0 ∨ c = 32) := by
      rintro (rfl | rfl)
      · exact absurd lowest (by decide)
      · exact absurd lowest (by decide)
    have octalDigit : ¬ (c < 48 ∨ 55 < c) := by
      rw [UInt8.lt_iff_toNat_lt, UInt8.lt_iff_toNat_lt]
      change ¬ (c.toNat < 48 ∨ 55 < c.toNat)
      omega
    rw [List.cons_append, octalLoop, if_neg plainDigit, if_neg octalDigit, ← value,
      usize_of_lt (by omega), Option.bind_some, List.foldl_cons]
    exact ih (fun c listed => digits c (List.mem_cons_of_mem _ listed))
      (by omega) next (by omega)

/-- The size that `tar_find` reads is what eleven octal digits hold of the length. -/
theorem octal_tarSize (n : Nat) : octal (tarSize n ++ [0]) = some (n % 8 ^ 11) := by
  obtain ⟨text, filled, length, shown, worth⟩ :=
    fillDigits_spec 8 48 (by decide) (by decide) (.inr rfl) 11 n []
  rw [List.append_nil, List.append_nil] at filled
  have digits : ∀ c ∈ text, IsDigit 8 c := by
    intro c listed
    rcases shown c listed with rfl | digit
    · decide
    · exact digit
  rw [tarSize, filled, octal, ← worth]
  exact octalLoop_shown digits (by omega) (show 0 < 8 ^ 0 by decide) (by omega)

/-- What `tar_find` reads of a header. -/
theorem tarHeader_parts (title : Name 100 [0]) (n : Nat) :
    (tarHeader title.bytes n).all (· = 0) = false ∧
      tarPath (tarHeader title.bytes n) = some title.bytes ∧
      part (tarHeader title.bytes n) 124 136 = some (tarSize n ++ [0]) ∧
      (tarHeader title.bytes n)[156]? = some 48 := by
  obtain ⟨title, nonempty, short, solid⟩ := title
  have zeros (m n : Nat) : List.replicate (m + n) (0 : UInt8) =
      List.replicate m 0 ++ List.replicate n 0 := List.replicate_append_replicate.symm
  have start : (title ++ List.replicate (124 - title.length) (0 : UInt8)).length = 124 := by
    simp
    omega
  refine ⟨?_, ?_, ?_, ?_⟩
  · obtain ⟨c, cs, rfl⟩ := List.exists_cons_of_ne_nil nonempty
    have shown : c ≠ 0 := fun zero => solid c List.mem_cons_self (by rw [zero]; decide)
    rw [tarHeader, List.cons_append, List.all_cons, decide_eq_false shown, Bool.false_and]
  · have first : (tarHeader title n).take 100 = title ++ List.replicate (100 - title.length) 0 := by
      have hundred : (title ++ List.replicate (100 - title.length) (0 : UInt8)).length = 100 := by
        simp
        omega
      rw [tarHeader, show 124 - title.length = 100 - title.length + 24 by omega, zeros,
        List.append_assoc, ← List.append_assoc, List.take_left' hundred]
    have lead : ((tarHeader title n).drop 345).take 155 = List.replicate 155 0 := by
      have split : tarHeader title n = (title ++ List.replicate (124 - title.length) 0 ++
          tarSize n ++ List.replicate 21 0 ++ [48] ++ List.replicate 100 0 ++
          [117, 115, 116, 97, 114] ++ List.replicate 83 0) ++
          (List.replicate 155 0 ++ List.replicate 12 0) := by
        rw [tarHeader, show 250 = 83 + (155 + 12) from rfl, zeros, zeros]
        simp only [List.append_assoc]
      rw [split, List.drop_left' (by simp [-List.reduceReplicate, length_tarSize]; omega),
        List.take_left' List.length_replicate]
    have nameOf : (title ++ List.replicate (100 - title.length) 0).takeWhile (· ≠ 0) = title := by
      have plain : ∀ c ∈ title, decide (c ≠ 0) = true := fun c listed =>
        decide_eq_true (List.ne_of_not_mem_cons (solid c listed))
      rw [List.takeWhile_append_of_pos plain]
      cases 100 - title.length with
      | zero => exact List.append_nil _
      | succ count =>
        rw [List.replicate_succ, List.takeWhile_cons_of_neg (by decide), List.append_nil]
    rw [tarPath, first, lead, nameOf]
    rfl
  · have split : tarHeader title n = (title ++ List.replicate (124 - title.length) 0) ++
        ((tarSize n ++ [0]) ++ (List.replicate 20 0 ++ ([48] ++ (List.replicate 100 0 ++
          ([117, 115, 116, 97, 114] ++ List.replicate 250 0))))) := by
      rw [tarHeader, show 21 = 1 + 20 from rfl, zeros]
      simp only [List.append_assoc, List.replicate_one]
    rw [split]
    exact part_append start.symm (by simp [start, length_tarSize])
  · have split : tarHeader title n = (title ++ List.replicate (124 - title.length) 0 ++
        tarSize n ++ List.replicate 21 0) ++ ([48] ++ (List.replicate 100 0 ++
          ([117, 115, 116, 97, 114] ++ List.replicate 250 0))) := by
      simp only [tarHeader, List.append_assoc]
    have place : (title ++ List.replicate (124 - title.length) 0 ++ tarSize n ++
        List.replicate 21 0).length = 156 := by
      simp [-List.reduceReplicate, length_tarSize]
      omega
    rw [split, List.getElem?_append_right (by omega), place]
    rfl

/-- A turn of `tar_find` at a header. -/
theorem tarTurn_header {title : Name 100 [0]}
    (fits : (left ++ (tarHeader title.bytes n ++ rest)).length < 2 ^ 63)
    (inside : n % 8 ^ 11 ≤ rest.length) :
    tarTurn (left ++ (tarHeader title.bytes n ++ rest)) path left.length =
      some (if title.bytes = path then .answer (some (rest.take (n % 8 ^ 11)))
        else .next (left.length + 512 + n % 8 ^ 11 + (512 - n % 8 ^ 11 % 512) % 512)) := by
  obtain ⟨used, joined, field, kind⟩ := tarHeader_parts title n
  have read := octal_tarSize n
  have block := length_tarHeader (n := n) title.short
  generalize tarHeader title.bytes n = hdr at *
  generalize n % 8 ^ 11 = size at *
  have total : (left ++ (hdr ++ rest)).length = left.length + (512 + rest.length) := by
    rw [List.length_append, List.length_append, block]
  have header : part (left ++ (hdr ++ rest)) left.length (left.length + 512) = some hdr :=
    part_append rfl (by rw [block])
  have data : part (left ++ (hdr ++ rest)) (left.length + 512) (left.length + 512 + size) =
      some (rest.take size) := by
    have split : left ++ (hdr ++ rest) = left ++ hdr ++ (rest.take size ++ rest.drop size) := by
      rw [List.take_append_drop, List.append_assoc]
    rw [split]
    exact part_append (by rw [List.length_append, block])
      (by rw [List.length_append, block, List.length_take_of_le inside])
  unfold tarTurn
  simp only [usize_of_lt (show left.length + 512 < 2 ^ 64 by omega), Option.bind_eq_bind,
    Option.bind_some, if_neg (show ¬ (left ++ (hdr ++ rest)).length < left.length + 512 by omega),
    header, used, joined, field, read, kind, or_true, true_and, Bool.false_eq_true, if_false,
    usize_of_lt (show left.length + 512 + size < 2 ^ 64 by omega),
    if_neg (show ¬ (left ++ (hdr ++ rest)).length < left.length + 512 + size by omega), data]
  split_ifs with found
  · rfl
  · rw [usize_of_lt (by omega), Option.bind_some]

/-! ## Whole archives -/

/-- A content has an even length with its byte. -/
theorem length_arPad (data : Bytes) :
    (data.length + 1) / 2 * 2 = data.length + (arPad data).length := by
  unfold arPad
  split_ifs with odd
  · rw [List.length_singleton]
    omega
  · rw [List.length_nil]
    omega

theorem ArArchive.records {members : List ArMember} {bytes : Bytes}
    (built : ArArchive members bytes) : bytes = arMagic ++ members.flatMap arRecord ∧
      ∀ member ∈ members, member.content.length < 10 ^ 10 := by
  induction built with
  | empty => exact ⟨rfl, by simp⟩
  | append _ emitted ih =>
    obtain ⟨rfl, sizes⟩ := ih
    rename_i member _ _
    obtain ⟨below, record⟩ := arEmit_spec member.name.short emitted
    refine ⟨?_, ?_⟩
    · rw [record, List.flatMap_append, List.flatMap_singleton, List.append_assoc]
      rfl
    · intro other listed
      rcases List.mem_append.mp listed with early | last
      · exact sizes other early
      · rwa [List.mem_singleton.mp last]

theorem TarBlocks.records {members : List TarMember} {bytes : Bytes}
    (built : TarBlocks members bytes) : bytes = members.flatMap tarRecord := by
  induction built with
  | empty => rfl
  | append _ emitted ih =>
    rename_i member _ _
    rw [ih, tarEmit_spec member.name.short emitted, List.flatMap_append,
      List.flatMap_singleton]
    rfl

section Search

variable {limit : Nat} {stops : Bytes} {turn : Nat → Option Turn}
  {members : List (Member limit stops)}

/-- A search whose turns read one record after the other comes to the first member of the
name. -/
theorem search_records (record : Member limit stops → Bytes)
    (each : ∀ before member after, members = before ++ member :: after →
      turn (off + (before.flatMap record).length) =
        some (if member.name.bytes = name then .answer (some member.content)
          else .next (off + (before.flatMap record).length + (record member).length)))
    (last : turn (off + (members.flatMap record).length) = some (.answer none))
    (enough : members.length < fuel) :
    search turn fuel off =
      some ((members.find? fun member => member.name.bytes = name).map (·.content)) := by
  induction members generalizing off fuel with
  | nil =>
    obtain ⟨fuel, rfl⟩ := Nat.exists_eq_succ_of_ne_zero (Nat.ne_of_gt enough)
    rw [search, show turn off = some (.answer none) from last]
    rfl
  | cons member members ih =>
    obtain ⟨fuel, rfl⟩ := Nat.exists_eq_succ_of_ne_zero (Nat.ne_of_gt (Nat.zero_lt_of_lt enough))
    rw [List.length_cons] at enough
    have first := each [] member members rfl
    rw [List.flatMap_nil, List.length_nil, Nat.add_zero] at first
    rw [search, first, Option.bind_some, List.find?_cons]
    by_cases found : member.name.bytes = name
    · rw [if_pos found, decide_eq_true found]
      rfl
    · rw [if_neg found, decide_eq_false found]
      refine ih ?_ ?_ (by omega)
      · intro before other after split
        have later := each (member :: before) other after (by rw [split, List.cons_append])
        rwa [List.flatMap_cons, List.length_append, ← Nat.add_assoc] at later
      · rwa [List.flatMap_cons, List.length_append, ← Nat.add_assoc] at last

/-- With distinct names, the first member of a name is the only one. -/
theorem found_of_find {find : Bytes → Option (Option Bytes)}
    (finds : ∀ name, find name =
      some ((members.find? fun member => member.name.bytes = name).map (·.content)))
    (distinct : (members.map (·.name.bytes)).Nodup) : Found find members := by
  constructor
  · intro member listed
    rw [finds]
    cases first : members.find? fun other => other.name.bytes = member.name.bytes with
    | none => exact absurd (decide_eq_true rfl) (List.find?_eq_none.mp first member listed)
    | some other =>
      have same : other.name.bytes = member.name.bytes := by
        simpa using List.find?_some first
      rw [List.inj_on_of_nodup_map distinct (List.mem_of_find?_eq_some first) listed same]
      rfl
  · intro name absent
    rw [finds, List.find?_eq_none.mpr fun member listed => by simpa using absent member listed]
    rfl

theorem length_le_flatMap {record : Member limit stops → Bytes}
    (shown : ∀ member, 0 < (record member).length) (members : List (Member limit stops)) :
    members.length ≤ (members.flatMap record).length := by
  induction members with
  | nil => exact Nat.zero_le _
  | cons member members ih =>
    rw [List.flatMap_cons, List.length_append, List.length_cons]
    have := shown member
    omega

end Search

theorem arTurn_record {member : ArMember} (below : member.content.length < 10 ^ 10)
    (fits : (left ++ (arRecord member ++ rest)).length < 2 ^ 63) :
    arTurn (left ++ (arRecord member ++ rest)) name left.length =
      some (if member.name.bytes = name then .answer (some member.content)
        else .next (left.length + (arRecord member).length)) := by
  obtain ⟨size, filled, ten, worth⟩ := arDigits_spec member.content.length
  rw [Nat.mod_eq_of_lt below] at worth
  have shape : arRecord member ++ rest = arHeader member.name.bytes size ++
      (member.content ++ (arPad member.content ++ rest)) := by
    rw [arRecord, filled, List.append_assoc, List.append_assoc]
  have length : (arRecord member).length =
      60 + (member.content.length + (arPad member.content).length) := by
    rw [arRecord, filled, List.length_append, length_arHeader member.name.short ten,
      List.length_append]
  rw [shape] at fits ⊢
  rw [arTurn_header ten fits (by rw [worth, List.length_append]; exact Nat.le_add_right _ _),
    worth, List.take_left' rfl, length_arPad, length, Nat.add_assoc]

theorem tarTurn_record {member : TarMember} (below : member.content.length < 8 ^ 11)
    (fits : (left ++ (tarRecord member ++ rest)).length < 2 ^ 63) :
    tarTurn (left ++ (tarRecord member ++ rest)) path left.length =
      some (if member.name.bytes = path then .answer (some member.content)
        else .next (left.length + (tarRecord member).length)) := by
  have worth := Nat.mod_eq_of_lt below
  have shape : tarRecord member ++ rest = tarHeader member.name.bytes member.content.length ++
      (member.content ++ (tarPad member.content ++ rest)) := by
    rw [tarRecord, List.append_assoc, List.append_assoc]
  have length : (tarRecord member).length = 512 + (member.content.length +
      (512 - member.content.length % 512) % 512) := by
    rw [tarRecord, List.length_append, length_tarHeader member.name.short, List.length_append,
      tarPad, List.length_replicate]
  rw [shape] at fits ⊢
  rw [tarTurn_header fits (by rw [worth, List.length_append]; exact Nat.le_add_right _ _),
    worth, List.take_left' rfl, length, Nat.add_assoc, Nat.add_assoc]

theorem arFind_built {members : List ArMember} {archive : Slice}
    (built : ArArchive members archive.bytes) (name : Bytes) : arFind archive.bytes name =
      some ((members.find? fun member => member.name.bytes = name).map (·.content)) := by
  obtain ⟨shape, sizes⟩ := built.records
  have fits := archive.fits
  have start : archive.bytes.take 8 = arMagic := by
    rw [shape]
    exact List.take_left' rfl
  have total : archive.bytes.length = 8 + (members.flatMap arRecord).length := by
    rw [shape, List.length_append]
    rfl
  have shown (member : ArMember) : 0 < (arRecord member).length := by
    rw [arRecord, arHeader]
    simp [-List.reduceReplicate]
  have shorter := length_le_flatMap shown members
  rw [arFind, if_neg (by rw [start]; simp; omega)]
  refine search_records arRecord ?_ ?_ (by omega)
  · intro before member after split
    have here : archive.bytes = arMagic ++ before.flatMap arRecord ++
        (arRecord member ++ after.flatMap arRecord) := by
      rw [shape, split, List.flatMap_append, List.flatMap_cons, List.append_assoc]
    have place : 8 + (before.flatMap arRecord).length =
        (arMagic ++ before.flatMap arRecord).length := by
      rw [List.length_append]
      rfl
    rw [here] at fits ⊢
    rw [place]
    exact arTurn_record (sizes member (by rw [split]; simp)) fits
  · rw [← total, arTurn, usize_of_lt (by omega)]
    exact if_pos (by omega)

theorem tarFind_built {members : List TarMember} {archive : Slice}
    (built : TarArchive members archive.bytes)
    (sizes : ∀ member ∈ members, member.content.length < 8 ^ 11) (path : Bytes) :
    tarFind archive.bytes path =
      some ((members.find? fun member => member.name.bytes = path).map (·.content)) := by
  obtain ⟨blocks, built, shape⟩ := built
  rw [built.records] at shape
  have fits := archive.fits
  have total : archive.bytes.length = (members.flatMap tarRecord).length + 1024 := by
    rw [shape, List.length_append, List.length_replicate]
  have shown (member : TarMember) : 0 < (tarRecord member).length := by
    rw [tarRecord, tarHeader]
    simp [-List.reduceReplicate]
  have shorter := length_le_flatMap shown members
  refine search_records tarRecord ?_ ?_ (by omega)
  · intro before member after split
    have here : archive.bytes = before.flatMap tarRecord ++
        (tarRecord member ++ (after.flatMap tarRecord ++ List.replicate 1024 0)) := by
      rw [shape, split, List.flatMap_append, List.flatMap_cons, List.append_assoc,
        List.append_assoc]
    rw [here] at fits ⊢
    rw [Nat.zero_add]
    exact tarTurn_record (sizes member (by rw [split]; simp)) fits
  · have header : part archive.bytes (members.flatMap tarRecord).length
        ((members.flatMap tarRecord).length + 512) = some (List.replicate 512 0) := by
      rw [shape, show 1024 = 512 + 512 from rfl, ← List.replicate_append_replicate]
      exact part_append rfl (by rw [List.length_replicate])
    have zeros : (List.replicate 512 (0 : UInt8)).all (· = 0) = true :=
      List.all_eq_true.mpr fun c listed => decide_eq_true (List.eq_of_mem_replicate listed)
    rw [Nat.zero_add, tarTurn, usize_of_lt (by omega)]
    simp only [Option.bind_eq_bind, Option.bind_some, header, zeros, if_true, if_neg
      (show ¬ archive.bytes.length < (members.flatMap tarRecord).length + 512 by omega)]

/-! ## The emitters' own limits -/

theorem arEmit_isSome (short : name.length ≤ 15) (below : data.length < 10 ^ 10)
    (room : 68 + (data.length + (arPad data).length) ≤ buf.length) :
    (arEmit buf name data).isSome := by
  obtain ⟨digits, filled, ten, -⟩ := arDigits_spec data.length
  have size : arSize data.length = some digits := arSize_eq_some_iff.mpr ⟨below, by rw [filled]⟩
  have sixteen : (arName name).length = 16 := by simp [arName]
  have blanks : (List.replicate 32 (32 : UInt8)).length = 32 := List.length_replicate
  unfold arEmit
  refine overwrite_bind_isSome (show 0 + 8 ≤ _ by omega) fun buf₁ length₁ => ?_
  refine overwrite_bind_isSome (by omega) fun buf₂ length₂ => ?_
  rw [arSlash, if_pos (by omega)]
  refine overwrite_bind_isSome (show 8 + name.length + 1 ≤ _ by omega) fun buf₃ length₃ => ?_
  refine overwrite_bind_isSome (by omega) fun buf₄ length₄ => ?_
  rw [size]
  refine overwrite_bind_isSome (by omega) fun buf₅ length₅ => ?_
  refine overwrite_bind_isSome (show 66 + 2 ≤ _ by omega) fun buf₆ length₆ => ?_
  refine overwrite_bind_isSome (by omega) fun buf₇ length₇ => ?_
  unfold arPad at room
  unfold arEven
  split_ifs at room ⊢ with odd
  · rw [List.length_singleton] at room
    have inside : 68 + data.length + [(10 : UInt8)].length ≤ buf₇.length := by
      rw [List.length_singleton]
      omega
    rw [Option.isSome_map, overwrite, if_pos inside]
    rfl
  · rfl

theorem padBlock_isSome {o fuel : Nat} (turns : (512 - o % 512) % 512 < fuel)
    (room : o + (512 - o % 512) % 512 ≤ buf.length) : (padBlock fuel o buf).isSome := by
  induction fuel generalizing o buf with
  | zero => exact absurd turns (Nat.not_lt_zero _)
  | succ fuel ih =>
    unfold padBlock
    split_ifs with whole
    · rfl
    · refine overwrite_bind_isSome (show o + 1 ≤ _ by omega) fun next length => ?_
      exact ih (by omega) (by omega)

theorem tarEmit_isSome (path : Bytes)
    (room : 512 + (data.length + (tarPad data).length) ≤ buf.length) :
    (tarEmit buf path data).isSome := by
  have zeros : (List.replicate 512 (0 : UInt8)).length = 512 := List.length_replicate
  have title : (path.take 100).length ≤ 100 := List.length_take_le _ _
  have eleven : (List.replicate 11 (48 : UInt8)).length = 11 := List.length_replicate
  have size := length_tarSize data.length
  have pad : (tarPad data).length = (512 - data.length % 512) % 512 := List.length_replicate
  unfold tarEmit
  refine overwrite_bind_isSome (by omega) fun buf₁ length₁ => ?_
  refine overwrite_bind_isSome (by omega) fun buf₂ length₂ => ?_
  refine overwrite_bind_isSome (by omega) fun buf₃ length₃ => ?_
  refine overwrite_bind_isSome (show 135 + 1 ≤ _ by omega) fun buf₄ length₄ => ?_
  refine overwrite_bind_isSome (by omega) fun buf₅ length₅ => ?_
  refine overwrite_bind_isSome (show 156 + 1 ≤ _ by omega) fun buf₆ length₆ => ?_
  refine overwrite_bind_isSome (show 257 + 5 ≤ _ by omega) fun buf₇ length₇ => ?_
  refine overwrite_bind_isSome (by omega) fun buf₈ length₈ => ?_
  exact padBlock_isSome (by omega) (by omega)

/-- `ar_emit` makes an archive of any members that it can measure. -/
theorem arArchive_of (members : List ArMember)
    (sizes : ∀ member ∈ members, member.content.length < 10 ^ 10) :
    ArArchive members (arMagic ++ members.flatMap arRecord) := by
  induction members using List.reverseRecOn with
  | nil => exact .empty
  | append_singleton members member ih =>
    have before := ih fun other listed => sizes other (by simp [listed])
    have below := sizes member (by simp)
    obtain ⟨⟨buf', length⟩, emitted⟩ := Option.isSome_iff_exists.mp
      (arEmit_isSome member.name.short below (List.length_replicate (a := (0 : UInt8))).ge)
    have grown := before.append emitted
    rw [(arEmit_spec member.name.short emitted).2, List.append_assoc] at grown
    rwa [List.flatMap_append, List.flatMap_singleton]

/-- `tar_emit` makes an archive of any members. -/
theorem tarArchive_of (members : List TarMember) :
    TarArchive members (members.flatMap tarRecord ++ List.replicate 1024 0) := by
  refine ⟨_, ?_, rfl⟩
  induction members using List.reverseRecOn with
  | nil => exact .empty
  | append_singleton members member ih =>
    obtain ⟨⟨buf', length⟩, emitted⟩ := Option.isSome_iff_exists.mp
      (tarEmit_isSome member.name.bytes (List.length_replicate (a := (0 : UInt8))).ge)
    have grown := ih.append emitted
    rw [tarEmit_spec member.name.short emitted] at grown
    rwa [List.flatMap_append, List.flatMap_singleton]

/-- Both lookups end without overflow and inside the archive, whatever its bytes. In an archive
made by `ar_emit`, and in one made by `tar_emit` of contents that eleven octal digits can
measure, they find every member and nothing else; and both emitters put any such member into a
buffer that has room for it. -/
theorem members_found {arMembers : List ArMember} {tarMembers : List TarMember}
    {arArchive tarArchive : Slice} (arBuilt : ArArchive arMembers arArchive.bytes)
    (tarBuilt : TarArchive tarMembers tarArchive.bytes)
    (arDistinct : (arMembers.map (·.name.bytes)).Nodup)
    (tarDistinct : (tarMembers.map (·.name.bytes)).Nodup)
    (measured : ∀ member ∈ tarMembers, member.content.length < 8 ^ 11) :
    Found (arFind arArchive.bytes) arMembers ∧ Found (tarFind tarArchive.bytes) tarMembers ∧
      (∀ (archive : Slice) (name : Bytes),
        (arFind archive.bytes name).isSome ∧ (tarFind archive.bytes name).isSome) ∧
      (∀ (member : ArMember) (buf : Bytes), member.content.length < 10 ^ 10 →
        68 + (member.content.length + (arPad member.content).length) ≤ buf.length →
          (arEmit buf member.name.bytes member.content).isSome) ∧
      ∀ (member : TarMember) (buf : Bytes),
        512 + (member.content.length + (tarPad member.content).length) ≤ buf.length →
          (tarEmit buf member.name.bytes member.content).isSome :=
  ⟨found_of_find (arFind_built arBuilt) arDistinct,
    found_of_find (tarFind_built tarBuilt measured) tarDistinct,
    fun archive name => ⟨arFind_isSome archive name, tarFind_isSome archive name⟩,
    fun member _ below room => arEmit_isSome member.name.short below room,
    fun _ _ room => tarEmit_isSome _ room⟩

/-- The names `a` and `b`. -/
def nameOf (limit : Nat) (stops : Bytes) (letter : UInt8) (positive : 1 ≤ limit)
    (plain : letter ∉ stops) : Name limit stops :=
  ⟨[letter], List.cons_ne_nil _ _, positive, by simpa using plain⟩

def arPair : List ArMember :=
  [⟨nameOf 15 arStops 97 (by decide) (by decide), [65, 65, 65, 65]⟩,
    ⟨nameOf 15 arStops 98 (by decide) (by decide), [66, 66, 66]⟩]

def tarPair : List TarMember :=
  [⟨nameOf 100 [0] 97 (by decide) (by decide), [65, 65, 65, 65]⟩,
    ⟨nameOf 100 [0] 98 (by decide) (by decide), [66, 66, 66]⟩]

theorem members_found_pair :
    Found (arFind (arMagic ++ arPair.flatMap arRecord)) arPair ∧
      Found (tarFind (tarPair.flatMap tarRecord ++ List.replicate 1024 0)) tarPair :=
  have arBuilt : ArArchive arPair (Slice.mk (arMagic ++ arPair.flatMap arRecord)
      (by decide +kernel)).bytes := arArchive_of arPair (by decide)
  have tarBuilt : TarArchive tarPair (Slice.mk (tarPair.flatMap tarRecord ++
      List.replicate 1024 0) (by decide +kernel)).bytes := tarArchive_of tarPair
  have both := members_found arBuilt tarBuilt (by decide) (by decide) (by decide)
  ⟨both.1, both.2.1⟩

/-- The size field keeps the lowest digits: what is found of a single file begins the content. -/
theorem tarFind_single {member : TarMember} {archive : Slice}
    (built : TarArchive [member] archive.bytes) :
    tarFind archive.bytes member.name.bytes =
      some (some (member.content.take (member.content.length % 8 ^ 11))) := by
  obtain ⟨blocks, built, shape⟩ := built
  have fits := archive.fits
  have record : archive.bytes = [] ++ (tarHeader member.name.bytes member.content.length ++
      (member.content ++ (tarPad member.content ++ List.replicate 1024 0))) := by
    rw [shape, built.records, List.flatMap_singleton, tarRecord]
    simp only [List.append_assoc, List.nil_append]
  have short := Nat.mod_le member.content.length (8 ^ 11)
  rw [record] at fits ⊢
  rw [tarFind, search, ← List.length_nil (α := UInt8),
    tarTurn_header fits (by rw [List.length_append]; omega), if_pos rfl,
    List.take_append_of_le_length short]
  rfl

/-- A file of 8 GiB. -/
def eightGibibytes : TarMember :=
  ⟨nameOf 100 [0] 97 (by decide) (by decide), List.replicate (8 ^ 11) 0⟩

theorem tarFind_eightGibibytes : ∃ archive : Slice, TarArchive [eightGibibytes] archive.bytes ∧
    ¬ Found (tarFind archive.bytes) [eightGibibytes] := by
  have length : eightGibibytes.content.length = 8 ^ 11 := List.length_replicate
  have built := tarArchive_of [eightGibibytes]
  have fits : ([eightGibibytes].flatMap tarRecord ++ List.replicate 1024 (0 : UInt8)).length <
      2 ^ 63 := by
    rw [List.flatMap_singleton, List.length_append, tarRecord, List.length_append,
      length_tarHeader eightGibibytes.name.short, List.length_append, length, tarPad,
      List.length_replicate, List.length_replicate, length]
    decide
  refine ⟨⟨_, fits⟩, built, fun found => ?_⟩
  have empty := @tarFind_single eightGibibytes ⟨_, fits⟩ built
  have whole := found.1 eightGibibytes List.mem_cons_self
  rw [length, Nat.mod_self, List.take_zero] at empty
  have same := empty.symm.trans whole
  have none := congrArg List.length (Option.some.inj (Option.some.inj same))
  rw [length] at none
  exact absurd none (by decide)

end DBSos.Deb
