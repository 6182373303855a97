import DBSos.Ext4.InodeTable
import DBSos.Ext4.Searches

/-!
# Listing a directory

`read_dir_entries` adds up the lengths of the records that it meets. A record length that it does
not take leaves the offset where it was, so that the loop never ends, and the entries of a block are
all stored without another look at the room that is left.
-/

namespace DBSos.Ext4

open DBSos.Lib

/-- The records that the inner loop of `read_dir_entries` meets from a position on. -/
def listedFrom (block : Buffer) (blockSize : Nat) : (left pos : Nat) → List Nat
  | 0, _ => []
  | left + 1, pos =>
    if pos + entryBase ≤ blockSize ∧ entryBase ≤ recLen block pos ∧
        recLen block pos ≤ blockSize then
      pos :: listedFrom block blockSize left (pos + recLen block pos)
    else []

def listed (block : Buffer) (blockSize start : Nat) : List Nat :=
  listedFrom block blockSize (blockSize / entryBase) start

/-- The length of records together. -/
def lengths (block : Buffer) (positions : List Nat) : Nat := (positions.map (recLen block)).sum

/-- The number of records that are in use. -/
def inUse (block : Buffer) (positions : List Nat) : Nat :=
  positions.countP fun pos => inoAt block pos ≠ 0

/-- Where the outer loop of `read_dir_entries` goes on behind the records of a block. -/
def nextOffset (block : Buffer) (blockSize offset : Nat) : Nat :=
  let length := lengths block (listed block blockSize (offset % blockSize))
  if blockSize < offset % blockSize + length + entryBase then
    ((offset + length) / blockSize + 1) * blockSize
  else offset + length

theorem lengths_cons (block : Buffer) (pos : Nat) (rest : List Nat) :
    lengths block (pos :: rest) = recLen block pos + lengths block rest := by
  rw [lengths, List.map_cons, List.sum_cons, lengths]

theorem inUse_cons_of_free {block : Buffer} {pos : Nat} (free : inoAt block pos = 0)
    (rest : List Nat) : inUse block (pos :: rest) = inUse block rest :=
  List.countP_cons_of_neg (by simp [free])

theorem inUse_cons_of_used {block : Buffer} {pos : Nat} (used : inoAt block pos ≠ 0)
    (rest : List Nat) : inUse block (pos :: rest) = inUse block rest + 1 :=
  List.countP_cons_of_pos (by simp [used])

namespace Volume

variable {v : Volume} {dirBuf block : Buffer} {size room offset count pos left : Nat}
  {entries : List Entry}

/-- The entry of a record can be made: its name is in the buffer, and the inode that it names can
be read, unless it is a directory. -/
structure EntrySafe (v : Volume) (block : Buffer) (pos : Nat) : Prop where
  name : pos + entryBase + min (nameLen block pos) (maxName - 1) ≤ bufferSize
  child : block (pos + 7) ≠ 2 → v.readInode (inoAt block pos) ≠ none

/-- One turn of the outer loop over a block: the entries of its records can be made and have room,
and the offset moves on and stays a number. -/
structure BlockTurn (v : Volume) (block : Buffer) (room offset count : Nat) : Prop where
  entries : ∀ pos ∈ listed block v.blockSize (offset % v.blockSize), inoAt block pos ≠ 0 →
    v.EntrySafe block pos
  room : count + inUse block (listed block v.blockSize (offset % v.blockSize)) ≤ room
  moves : listed block v.blockSize (offset % v.blockSize) ≠ [] ∨
    v.blockSize < offset % v.blockSize + entryBase
  small : offset + lengths block (listed block v.blockSize (offset % v.blockSize)) < 2 ^ 64 ∧
    nextOffset block v.blockSize offset < 2 ^ 64

/-- One turn of the outer loop. -/
structure TurnSafe (v : Volume) (dirBuf : Buffer) (room offset count : Nat) : Prop where
  mapped : v.extentLookup dirBuf (offset / v.blockSize % 2 ^ 32) ≠ none
  hole : v.extentLookup dirBuf (offset / v.blockSize % 2 ^ 32) = some none →
    offset + v.blockSize < 2 ^ 64
  read : ∀ phys, v.extentLookup dirBuf (offset / v.blockSize % 2 ^ 32) = some (some phys) →
    v.readBlock phys ≠ none
  block : ∀ block, v.Holds dirBuf (offset / v.blockSize) block →
    v.BlockTurn block room offset count

/-- One turn takes an offset and a number of entries to the next ones. -/
inductive Turn (v : Volume) (dirBuf : Buffer) (offset count : Nat) : Nat → Nat → Prop where
  | hole (mapped : v.extentLookup dirBuf (offset / v.blockSize % 2 ^ 32) = some none) :
      Turn v dirBuf offset count (offset + v.blockSize) count
  | block {block : Buffer} (holds : v.Holds dirBuf (offset / v.blockSize) block) :
      Turn v dirBuf offset count (nextOffset block v.blockSize offset)
        (count + inUse block (listed block v.blockSize (offset % v.blockSize)))

/-- The loop comes from an offset and a number of entries to others. -/
inductive Reaches (v : Volume) (dirBuf : Buffer) (size room : Nat) :
    (offset count offset' count' : Nat) → Prop where
  | here (offset count : Nat) : Reaches v dirBuf size room offset count offset count
  | turn {offset count offset' count' last entries : Nat} (goesOn : offset < size ∧ count < room)
      (turn : v.Turn dirBuf offset count offset' count')
      (later : Reaches v dirBuf size room offset' count' last entries) :
      Reaches v dirBuf size room offset count last entries

/-- Every turn that the loop comes to is safe. -/
def LoopSafe (v : Volume) (dirBuf : Buffer) (size room offset count : Nat) : Prop :=
  ∀ offset' count', v.Reaches dirBuf size room offset count offset' count' →
    offset' < size ∧ count' < room → v.TurnSafe dirBuf room offset' count'

/-- The directory can be listed. -/
structure ListSafe (v : Volume) (inodeNum room : Nat) : Prop where
  read : v.readInode inodeNum ≠ none
  loop : ∀ dirBuf, v.readInode inodeNum = some (some dirBuf) →
    (Inode.parse dirBuf).isDir = true → v.LoopSafe dirBuf (Inode.parse dirBuf).size room 0 0

/-! ## The records of a block -/

theorem entryAt_ne_none_iff : v.entryAt block pos ≠ none ↔ v.EntrySafe block pos := by
  unfold entryAt
  dsimp only
  by_cases name : pos + entryBase + min (nameLen block pos) (maxName - 1) ≤ bufferSize
  · rw [within, if_pos name, Option.bind_eq_bind, Option.bind_some]
    by_cases dir : block (pos + 7) = 2
    · rw [dir]
      exact iff_of_true (Option.some_ne_none _) ⟨name, fun file => absurd dir file⟩
    · rw [if_neg (by simpa using dir)]
      cases read : v.readInode (inoAt block pos) with
      | none => exact iff_of_false (fun returns => returns rfl) fun safe => safe.child dir read
      | some child =>
        refine iff_of_true (Option.some_ne_none _) ⟨name, fun _ => ?_⟩
        rw [read]
        exact Option.some_ne_none _
  · rw [within, if_neg name]
    exact iff_of_false (fun returns => returns rfl) fun safe => name safe.name

/-- What the inner loop makes of the records that it meets. -/
theorem listRecords_cases (block : Buffer) (left pos : Nat) (entries : List Entry)
    (fits : entries.length ≤ room) :
    let positions := listedFrom block v.blockSize left pos
    let safe := (∀ pos ∈ positions, inoAt block pos ≠ 0 → v.EntrySafe block pos) ∧
      entries.length + inUse block positions ≤ room
    (v.listRecords block room left pos entries = none ∧ ¬ safe) ∨
      ∃ more, v.listRecords block room left pos entries =
          some (more, pos + lengths block positions) ∧
        more.length = entries.length + inUse block positions ∧ safe := by
  induction left generalizing pos entries with
  | zero => exact .inr ⟨entries, rfl, rfl, nofun, fits⟩
  | succ left ih =>
    dsimp only
    rw [listRecords, listedFrom]
    by_cases met : pos + entryBase ≤ v.blockSize ∧ entryBase ≤ recLen block pos ∧
        recLen block pos ≤ v.blockSize
    · rw [if_pos met, if_pos met, lengths_cons, ← Nat.add_assoc]
      by_cases free : inoAt block pos = 0
      · rw [if_neg (not_not.mpr free), inUse_cons_of_free free]
        simp only [List.forall_mem_cons, free, ne_eq, not_true_eq_false, false_imp_iff, true_and]
        exact ih (pos + recLen block pos) entries fits
      · rw [if_pos free, inUse_cons_of_used free]
        simp only [List.forall_mem_cons, free, ne_eq, not_false_eq_true, true_imp_iff]
        cases made : v.entryAt block pos with
        | none => exact .inl ⟨rfl, fun safe => entryAt_ne_none_iff.mpr safe.1.1 made⟩
        | some entry =>
          have entrySafe := entryAt_ne_none_iff.mp (by rw [made]; exact Option.some_ne_none _)
          rw [Option.bind_eq_bind, Option.bind_some]
          by_cases vacant : entries.length < room
          · rw [if_pos vacant]
            have longer : (entries ++ [entry]).length = entries.length + 1 := by simp
            have later := ih (pos + recLen block pos) (entries ++ [entry])
              (by omega)
            dsimp only at later
            rw [longer] at later
            rcases later with ⟨panics, unsafe'⟩ | ⟨more, listed, length, names, bound⟩
            · exact .inl ⟨panics, fun safe => unsafe' ⟨safe.1.2, by omega⟩⟩
            · exact .inr ⟨more, listed, by omega, ⟨entrySafe, names⟩, by omega⟩
          · rw [if_neg vacant]
            exact .inl ⟨rfl, fun safe => by omega⟩
    · rw [if_neg met, if_neg met]
      exact .inr ⟨entries, rfl, rfl, nofun, fits⟩

/-- Without a record the inner loop leaves everything as it is. -/
theorem listRecords_of_nil (nothing : listedFrom block v.blockSize left pos = []) :
    v.listRecords block room left pos entries = some (entries, pos) := by
  cases left with
  | zero => rfl
  | succ left =>
    rw [listedFrom] at nothing
    rw [listRecords]
    split_ifs at nothing ⊢ with met
    rfl

/-! ## The turns of the loop -/

theorem lengths_of_mem (block : Buffer) (blockSize left pos : Nat)
    (some : listedFrom block blockSize left pos ≠ []) :
    0 < lengths block (listedFrom block blockSize left pos) := by
  cases left with
  | zero => exact absurd rfl some
  | succ left =>
    rw [listedFrom] at some ⊢
    split_ifs at some ⊢ with met
    · rw [lengths_cons]
      have length : 8 ≤ recLen block pos := met.2.1
      omega
    · exact absurd rfl some

/-- A turn whose records move on takes the loop to a later offset. -/
theorem lt_nextOffset {blockSize : Nat} (positive : 0 < blockSize)
    (moves : listed block blockSize (offset % blockSize) ≠ [] ∨
      blockSize < offset % blockSize + entryBase) : offset < nextOffset block blockSize offset := by
  unfold nextOffset
  dsimp only
  split_ifs with behind
  · exact Nat.lt_of_le_of_lt (Nat.le_add_right _ _)
      (Nat.mul_comm _ _ ▸ Nat.lt_mul_div_succ _ positive)
  · rcases moves with some | short
    · have := lengths_of_mem block blockSize _ _ some
      exact Nat.lt_add_of_pos_right this
    · omega

section Turns

variable {phys : Nat} (fuel : Nat) (goesOn : offset < size ∧ entries.length < room)

include goesOn

theorem listFrom_of_hole
    (mapped : v.extentLookup dirBuf (offset / v.blockSize % 2 ^ 32) = some none) :
    v.listFrom dirBuf size room (fuel + 1) offset entries =
      if offset + v.blockSize < 2 ^ 64 then
        v.listFrom dirBuf size room fuel (offset + v.blockSize) entries
      else none := by
  rw [listFrom, if_pos goesOn, mapped, Option.bind_eq_bind, Option.bind_some]
  dsimp only
  rw [checked64]
  split_ifs <;> rfl

theorem listFrom_of_block {more : List Entry}
    (mapped : v.extentLookup dirBuf (offset / v.blockSize % 2 ^ 32) = some (some phys))
    (read : v.readBlock phys = some (some block))
    (met : v.listRecords block room (v.blockSize / entryBase) (offset % v.blockSize) entries =
      some (more, offset % v.blockSize +
        lengths block (listed block v.blockSize (offset % v.blockSize)))) :
    v.listFrom dirBuf size room (fuel + 1) offset entries =
      if offset + lengths block (listed block v.blockSize (offset % v.blockSize)) < 2 ^ 64 ∧
          nextOffset block v.blockSize offset < 2 ^ 64 then
        v.listFrom dirBuf size room fuel (nextOffset block v.blockSize offset) more
      else none := by
  rw [listFrom, if_pos goesOn]
  unfold nextOffset checked64
  simp only [mapped, read, met, Option.bind_eq_bind, Option.bind_some, Nat.add_sub_cancel_left]
  generalize lengths block (listed block v.blockSize (offset % v.blockSize)) = length
  by_cases small : offset + length < 2 ^ 64
  · by_cases behind : v.blockSize < offset % v.blockSize + length + entryBase
    · rw [if_pos small, Option.bind_some, if_pos behind, if_pos behind]
      by_cases rounded : ((offset + length) / v.blockSize + 1) * v.blockSize < 2 ^ 64
      · rw [if_pos rounded, Option.bind_some, if_pos ⟨small, rounded⟩]
      · rw [if_neg rounded, Option.bind_none, if_neg fun both => rounded both.2]
    · rw [if_pos small, Option.bind_some, if_neg behind, if_neg behind, if_pos ⟨small, small⟩]
  · rw [if_neg small, Option.bind_none, if_neg fun both => small both.1]

end Turns

/-- A turn panics or never ends, or it is the last, or it takes the loop to a later offset. -/
theorem listFrom_cases (positive : 0 < v.blockSize)
    (goesOn : offset < size ∧ entries.length < room) :
    ((∀ fuel, v.listFrom dirBuf size room fuel offset entries = none) ∧
        ¬ v.TurnSafe dirBuf room offset entries.length) ∨
      ((∀ fuel, v.listFrom dirBuf size room (fuel + 1) offset entries ≠ none) ∧
        v.TurnSafe dirBuf room offset entries.length ∧
        ∀ offset' count, ¬ v.Turn dirBuf offset entries.length offset' count) ∨
      ∃ offset' more,
        (∀ fuel, v.listFrom dirBuf size room (fuel + 1) offset entries =
          v.listFrom dirBuf size room fuel offset' more) ∧
        v.TurnSafe dirBuf room offset entries.length ∧ offset < offset' ∧
        ∀ last count, v.Turn dirBuf offset entries.length last count ↔
          last = offset' ∧ count = more.length := by
  have panics (turn : ∀ fuel, v.listFrom dirBuf size room (fuel + 1) offset entries = none)
      (fuel : Nat) : v.listFrom dirBuf size room fuel offset entries = none := by
    cases fuel with
    | zero => rfl
    | succ fuel => exact turn fuel
  cases mapped : v.extentLookup dirBuf (offset / v.blockSize % 2 ^ 32) with
  | none =>
    refine .inl ⟨panics fun fuel => ?_, fun safe => safe.mapped mapped⟩
    rw [listFrom, if_pos goesOn, mapped]
    rfl
  | some found =>
    have returns : v.extentLookup dirBuf (offset / v.blockSize % 2 ^ 32) ≠ none := by
      rw [mapped]
      exact Option.some_ne_none _
    cases found with
    | none =>
      have empty (block : Buffer) : ¬ v.Holds dirBuf (offset / v.blockSize) block := by
        rintro ⟨phys, found, -⟩
        cases mapped.symm.trans found
      by_cases small : offset + v.blockSize < 2 ^ 64
      · refine .inr (.inr ⟨offset + v.blockSize, entries, fun fuel => ?_, ?_, by omega,
          fun last count => ⟨fun turn => ?_, ?_⟩⟩)
        · rw [listFrom_of_hole fuel goesOn mapped, if_pos small]
        · exact ⟨returns, fun _ => small, fun phys found => (by cases mapped.symm.trans found),
            fun block holds => absurd holds (empty block)⟩
        · cases turn with
          | hole => exact ⟨rfl, rfl⟩
          | block holds => exact absurd holds (empty _)
        · rintro ⟨rfl, rfl⟩
          exact .hole mapped
      · refine .inl ⟨panics fun fuel => ?_, fun safe => small (safe.hole mapped)⟩
        rw [listFrom_of_hole fuel goesOn mapped, if_neg small]
    | some phys =>
      have notHole : v.extentLookup dirBuf (offset / v.blockSize % 2 ^ 32) ≠ some none :=
        fun hole => by cases mapped.symm.trans hole
      cases read : v.readBlock phys with
      | none =>
        refine .inl ⟨panics fun fuel => ?_, fun safe => safe.read phys mapped read⟩
        rw [listFrom, if_pos goesOn, mapped, Option.bind_eq_bind, Option.bind_some]
        dsimp only
        rw [read]
        rfl
      | some content =>
        have readable (phys' : Nat)
            (found : v.extentLookup dirBuf (offset / v.blockSize % 2 ^ 32) =
              some (some phys')) : v.readBlock phys' ≠ none := by
          obtain rfl := Option.some.inj (Option.some.inj (mapped.symm.trans found))
          rw [read]
          exact Option.some_ne_none _
        cases content with
        | none =>
          have empty (block : Buffer) :
              ¬ v.Holds dirBuf (offset / v.blockSize) block := fun holds => by
            cases read.symm.trans (holds.read mapped)
          refine .inr (.inl ⟨fun fuel => ?_, ?_, fun last count turn => ?_⟩)
          · rw [listFrom, if_pos goesOn]
            simp only [mapped, read, Option.bind_eq_bind, Option.bind_some]
            exact Option.some_ne_none _
          · exact ⟨returns, fun hole => absurd hole notHole, readable,
              fun block holds => absurd holds (empty block)⟩
          · cases turn with
            | hole hole => exact notHole hole
            | block holds => exact empty _ holds
        | some block =>
          have holds : v.Holds dirBuf (offset / v.blockSize) block := ⟨phys, mapped, read⟩
          have only {other : Buffer}
              (holds : v.Holds dirBuf (offset / v.blockSize) other) : other = block :=
            Option.some.inj (Option.some.inj ((holds.read mapped).symm.trans read))
          rcases listRecords_cases block (v.blockSize / entryBase) (offset % v.blockSize)
              entries (Nat.le_of_lt goesOn.2) with
            ⟨stops, unsafe'⟩ | ⟨more, met, length, made, fits⟩
          · refine .inl ⟨panics fun fuel => ?_, fun safe => unsafe'
              ⟨(safe.block block holds).entries, (safe.block block holds).room⟩⟩
            rw [listFrom, if_pos goesOn]
            simp only [mapped, read, stops, Option.bind_eq_bind, Option.bind_some,
              Option.bind_none]
          · have turn (fuel : Nat) := listFrom_of_block fuel goesOn mapped read met
            have safe (moves) (small) : v.TurnSafe dirBuf room offset entries.length :=
              ⟨returns, fun hole => absurd hole notHole, readable,
                fun other holds => only holds ▸ ⟨made, fits, moves, small⟩⟩
            by_cases small : offset + lengths block
                  (listed block v.blockSize (offset % v.blockSize)) < 2 ^ 64 ∧
                nextOffset block v.blockSize offset < 2 ^ 64
            · simp only [if_pos small] at turn
              by_cases moves : listed block v.blockSize (offset % v.blockSize) ≠ [] ∨
                  v.blockSize < offset % v.blockSize + entryBase
              · refine .inr (.inr ⟨_, more, turn, safe moves small,
                  lt_nextOffset positive moves, fun last count => ⟨fun turn => ?_, ?_⟩⟩)
                · cases turn with
                  | hole hole => exact absurd hole notHole
                  | block holds =>
                    obtain rfl := only holds
                    exact ⟨rfl, length.symm⟩
                · rintro ⟨rfl, rfl⟩
                  rw [length]
                  exact .block holds
              · -- The inner loop stops at its first record: the next turn is the same.
                obtain ⟨nothing, long⟩ := not_or.mp moves
                rw [not_not] at nothing
                have same : nextOffset block v.blockSize offset = offset := by
                  rw [nextOffset, nothing]
                  exact if_neg long
                have stays := met.symm.trans (listRecords_of_nil nothing)
                obtain rfl : more = entries :=
                  (Prod.ext_iff.mp (Option.some.inj stays)).1
                refine .inl ⟨fun fuel => ?_, fun safe =>
                  moves (safe.block block holds).moves⟩
                induction fuel with
                | zero => rfl
                | succ fuel ih => rw [turn, same, ih]
            · simp only [if_neg small] at turn
              exact .inl ⟨panics turn, fun safe => small (safe.block block holds).small⟩

theorem loopSafe_iff (goesOn : offset < size ∧ count < room) :
    v.LoopSafe dirBuf size room offset count ↔
      v.TurnSafe dirBuf room offset count ∧
        ∀ offset' count', v.Turn dirBuf offset count offset' count' →
          v.LoopSafe dirBuf size room offset' count' := by
  constructor
  · intro safe
    exact ⟨safe offset count (.here _ _) goesOn, fun _ _ turn last entries reaches =>
      safe last entries (.turn goesOn turn reaches)⟩
  · rintro ⟨first, later⟩ last entries reaches
    cases reaches with
    | here => exact fun _ => first
    | turn _ turn reaches => exact later _ _ turn last entries reaches

theorem loopSafe_of_end (ended : ¬ (offset < size ∧ count < room)) :
    v.LoopSafe dirBuf size room offset count := by
  rintro last entries reaches goesOn
  cases reaches with
  | here => exact absurd goesOn ended
  | turn first => exact absurd first ended

/-- With a turn for every byte the loop comes to its end exactly where every turn is safe. -/
theorem listFrom_ne_none_iff (positive : 0 < v.blockSize) (fuel : Nat)
    (enough : size - offset < fuel) :
    v.listFrom dirBuf size room fuel offset entries ≠ none ↔
      v.LoopSafe dirBuf size room offset entries.length := by
  induction fuel generalizing offset entries with
  | zero => exact absurd enough (Nat.not_lt_zero _)
  | succ fuel ih =>
    by_cases goesOn : offset < size ∧ entries.length < room
    · rw [loopSafe_iff goesOn]
      rcases listFrom_cases positive goesOn with
        ⟨panics, unsafe'⟩ | ⟨returns, safe, last⟩ | ⟨offset', more, next, safe, later, turns⟩
      · exact iff_of_false (fun returns => returns (panics _)) fun all => unsafe' all.1
      · exact iff_of_true (returns fuel)
          ⟨safe, fun offset' count turn => absurd turn (last offset' count)⟩
      · rw [next, ih (by omega)]
        refine ⟨fun rest => ⟨safe, fun last count turn => ?_⟩, fun all =>
          all.2 _ _ ((turns _ _).mpr ⟨rfl, rfl⟩)⟩
        obtain ⟨rfl, rfl⟩ := (turns last count).mp turn
        exact rest
    · rw [listFrom, if_neg goesOn]
      exact iff_of_true (Option.some_ne_none _) (loopSafe_of_end goesOn)

theorem readDirEntries_ne_none_iff (positive : 0 < v.blockSize) (inodeNum room : Nat) :
    v.readDirEntries inodeNum room ≠ none ↔ v.ListSafe inodeNum room := by
  unfold readDirEntries
  refine Iff.trans (bind_ne_none_iff (fun dirBuf => (Inode.parse dirBuf).isDir = true →
    v.LoopSafe dirBuf (Inode.parse dirBuf).size room 0 0) (Option.some_ne_none _)
    fun dirBuf _ => ?_) ⟨fun both => ⟨both.1, both.2⟩, fun safe => ⟨safe.read, safe.loop⟩⟩
  dsimp only
  by_cases dir : (Inode.parse dirBuf).isDir = true
  · have loop : v.listFrom dirBuf (Inode.parse dirBuf).size room _ 0 [] ≠ none ↔ _ :=
      listFrom_ne_none_iff positive ((Inode.parse dirBuf).size + 1) (by omega)
    rw [if_pos dir, imp_iff_right dir]
    refine Iff.trans ?_ loop
    cases v.listFrom dirBuf (Inode.parse dirBuf).size room _ 0 [] with
    | none => exact iff_of_false (· rfl) (· rfl)
    | some entries => exact iff_of_true (Option.some_ne_none _) (Option.some_ne_none _)
  · rw [if_neg dir]
    exact iff_of_true (Option.some_ne_none _) fun isDir => absurd isDir dir

end Volume

/-- On a mounted volume each of the four functions comes back exactly where no record that it comes
to takes it out of the block buffer or out of the entries, and where a listing moves on. -/
theorem directories_return_iff {sb : Buffer} {super : Super}
    (accepted : parseSuperblock sb = some (some super)) (partBase : Nat) (disk : Disk) :
    let v := super.mounted partBase disk
    (∀ inodeNum room, v.readDirEntries inodeNum room ≠ none ↔ v.ListSafe inodeNum room) ∧
    (∀ rootInode path, v.lookupPath rootInode path ≠ none ↔
      v.LookupSafe rootInode (Volume.components path)) ∧
    (∀ parentInode childInode name fileType,
      v.addDirEntry parentInode childInode name fileType ≠ none ↔ v.InsertSafe parentInode name) ∧
    ∀ parentInode name,
      v.removeDirEntry parentInode name ≠ none ↔ v.RemoveSafe parentInode name := by
  obtain ⟨whole, positive⟩ := blockSize_of_accepted accepted
  exact ⟨Volume.readDirEntries_ne_none_iff positive, Volume.lookupPath_ne_none_iff,
    Volume.addDirEntry_ne_none_iff (Nat.le_of_dvd positive whole),
    Volume.removeDirEntry_ne_none_iff⟩

section Samples

/-- Fifteen records with the longest of names, and a free one that ends behind the block. -/
def fullBlock : Buffer := fun p =>
  if p < 3960 then
    match p % 264 with
    | 0 => 1
    | 4 => 8
    | 5 => 1
    | 6 => 255
    | _ => 0
  else if p = 3964 then 0x2C
  else if p = 3965 then 1
  else 0

/-- Directory 2 has a name of five bytes in the last eight bytes of its block, directory 3 is
`fullBlock`, and directory 4 has a record without a length. -/
def malformedSectors : Nat → Buffer := fun lba =>
  match lba with
  | 8 => Buffer.zero.put 8 [3]
  | 24 => (Buffer.zero.put 256 [0, 0x40, 0, 0, 0, 0x10]).put 296 [4]
  | 25 => (((Buffer.zero.put 0 [0, 0x40, 0, 0, 0, 0x10]).put 40 [5]).put 256
      [0, 0x40, 0, 0, 12]).put 296 [6]
  | 32 => Buffer.zero.put 0 [5, 0, 0, 0, 0xF8, 0x0F]
  | 39 => Buffer.zero.put 504 [7, 0, 0, 0, 8, 0, 5]
  | _ => if 40 ≤ lba ∧ lba < 48 then fun i => fullBlock ((lba - 40) * 512 + i) else Buffer.zero

def malformed : Volume := largeSuper.mounted 0 { blankDisk with sectors := malformedSectors }

/-- Each of the four panics, or never comes back, on a directory of this disk. -/
theorem malformed_panics :
    malformed.readDirEntries 2 8 = none ∧ malformed.readDirEntries 3 1 = none ∧
      malformed.readDirEntries 4 1 = none ∧
      malformed.lookupPath 2 [97, 98, 99, 100, 101] = none ∧
      malformed.addDirEntry 3 9 (List.replicate 255 97) 1 = none ∧
      malformed.removeDirEntry 2 [97, 98, 99, 100, 101] = none := by
  refine ⟨by decide +kernel, by decide +kernel, by decide +kernel, by decide +kernel, ?_, ?_⟩
  · exact Option.isNone_iff_eq_none.mp (by decide +kernel)
  · exact Option.isNone_iff_eq_none.mp (by decide +kernel)

theorem directories_return_blank : (largeSuper.mounted 0 blankDisk).readDirEntries 1 0 ≠ none := by
  refine ((directories_return_iff largeInodes_accepted 0 blankDisk).1 1 0).mpr
    ⟨readInode_ne_none (by decide) (by decide) (by decide) 1, fun dirBuf read dir => ?_⟩
  have held : ((largeSuper.mounted 0 blankDisk).readInode 1).map
      (·.map fun buf => (Inode.parse buf).isDir) = some (some false) := by decide +kernel
  rw [read, Option.map_some, Option.map_some, dir] at held
  cases held

end Samples

end DBSos.Ext4
