import DBSos.Ext4.Directory
import DBSos.Ext4.Partition
import DBSos.Ext4.Superblock
import DBSos.Lib.Scan

/-!
# Searches of a directory

Looking a name up, entering one and removing one all go through the records of one block after the
other. A record's lengths are taken from the disk: what is read or written behind its header may
leave the buffer, which is where the driver panics.
-/

namespace DBSos.Ext4

open DBSos.Lib

/-- What a search looks for in the records of a block, and when what it touches is in the
buffer. -/
structure Search where
  ends : Buffer → Nat → Prop
  inside : Buffer → Nat → Prop

/-- The code that goes through the records of a block makes this search: it panics where the search
leaves the buffer, and finds nothing where no record ends it. -/
structure Search.Describes {α : Type} (search : Search)
    (inner : Buffer → List Nat → Option (Option α)) : Prop where
  returns : ∀ block positions, inner block positions ≠ none ↔
    ∀ pos, Comes (fun pos => ¬ search.ends block pos) positions pos → search.inside block pos
  absent : ∀ block positions, inner block positions = some none ↔
    (∀ pos, Comes (fun pos => ¬ search.ends block pos) positions pos → search.inside block pos) ∧
      ∀ pos ∈ positions, ¬ search.ends block pos

variable {block : Buffer} {name : List UInt8} {pos len : Nat}

theorem none_iff_of_isSome {α β : Type} {found : Option (Option α)} {other : Option (Option β)}
    (same : found.map Option.isSome = other.map Option.isSome) :
    (found ≠ none ↔ other ≠ none) ∧ (found = some none ↔ other = some none) := by
  rcases found with _ | _ | _ <;> rcases other with _ | _ | _ <;> simp at same ⊢

/-- A reading and what follows it, which returns where nothing is read. -/
theorem bind_ne_none_iff {α β : Type} {found : Option (Option α)} {rest : Option α → Option β}
    (good : α → Prop) (absent : rest none ≠ none)
    (present : ∀ a, found = some (some a) → (rest (some a) ≠ none ↔ good a)) :
    found.bind rest ≠ none ↔ found ≠ none ∧ ∀ a, found = some (some a) → good a := by
  rcases found with _ | _ | a
  · simp
  · simp [absent]
  · simp [present]

/-- A search that is a scan of the records, up to what it returns. -/
theorem Search.Describes.of_scan {α β : Type} {search : Search}
    {inner : Buffer → List Nat → Option (Option α)} {visit : Buffer → Nat → Option (Visit β)}
    (visits : ∀ block, Visits (visit block) (search.inside block)
      fun pos => ¬ search.ends block pos)
    (same : ∀ block positions,
      (inner block positions).map Option.isSome =
        (scan (visit block) positions).map Option.isSome) :
    search.Describes inner where
  returns block positions :=
    (none_iff_of_isSome (same block positions)).1.trans ((visits block).scan_ne_none_iff positions)
  absent block positions :=
    (none_iff_of_isSome (same block positions)).2.trans ((visits block).scan_eq_none_iff positions)

/-! ## Names -/

/-- The search for a record that carries a name. -/
def Search.named (name : List UInt8) : Search where
  ends block pos := inoAt block pos ≠ 0 ∧ nameLen block pos = name.length ∧
    block.slice (pos + entryBase) name.length = name
  inside block pos := inoAt block pos ≠ 0 ∧ nameLen block pos = name.length →
    pos + entryBase + name.length ≤ bufferSize

theorem carries_eq (block : Buffer) (name : List UInt8) (pos : Nat) :
    carries block name pos =
      if inoAt block pos ≠ 0 ∧ nameLen block pos = name.length then
        (within (pos + entryBase) name.length).map fun _ =>
          decide (block.slice (pos + entryBase) name.length = name)
      else some false := by
  unfold carries
  split_ifs
  · cases within (pos + entryBase) name.length <;> rfl
  · rfl

theorem carries_cases (block : Buffer) (name : List UInt8) (pos : Nat) :
    (carries block name pos = none ∧ ¬ (Search.named name).inside block pos) ∨
      (carries block name pos = some false ∧ (Search.named name).inside block pos ∧
        ¬ (Search.named name).ends block pos) ∨
      (carries block name pos = some true ∧ (Search.named name).inside block pos ∧
        (Search.named name).ends block pos) := by
  rw [carries_eq]
  by_cases long : inoAt block pos ≠ 0 ∧ nameLen block pos = name.length
  · rw [if_pos long]
    by_cases fits : pos + entryBase + name.length ≤ bufferSize
    · rw [within, if_pos fits, Option.map_some]
      by_cases same : block.slice (pos + entryBase) name.length = name
      · exact .inr (.inr ⟨by rw [decide_eq_true same], fun _ => fits, long.1, long.2, same⟩)
      · exact .inr (.inl ⟨by rw [decide_eq_false same], fun _ => fits, fun ends => same ends.2.2⟩)
    · rw [within, if_neg fits]
      exact .inl ⟨rfl, fun inside => fits (inside long)⟩
  · rw [if_neg long]
    exact .inr (.inl ⟨rfl, fun both => absurd both long, fun ends => long ⟨ends.1, ends.2.1⟩⟩)

/-- The visit of a record in `lookup_path`. -/
def namedVisit (name : List UInt8) (block : Buffer) (pos : Nat) : Option (Visit Nat) :=
  (carries block name pos).map fun carried => if carried then .stop pos else .next

theorem findNamed_eq_scan (block : Buffer) (name : List UInt8) (positions : List Nat) :
    findNamed block name positions = scan (namedVisit name block) positions := by
  induction positions with
  | nil => rfl
  | cons pos rest ih =>
    rw [findNamed, scan, namedVisit, ih]
    rcases carries block name pos with _ | _ | _ <;> rfl

theorem visits_named (name : List UInt8) (block : Buffer) :
    Visits (namedVisit name block) ((Search.named name).inside block)
      fun pos => ¬ (Search.named name).ends block pos := by
  intro pos
  unfold namedVisit
  rcases carries_cases block name pos with ⟨found, outside⟩ | ⟨found, rest⟩ | ⟨found, inside, ends⟩
  · exact .inl ⟨by rw [found]; rfl, outside⟩
  · exact .inr (.inl ⟨by rw [found]; rfl, rest⟩)
  · exact .inr (.inr ⟨pos, by rw [found]; rfl, inside, not_not.mpr ends⟩)

/-- The first record that carries the name is found. -/
theorem findNamed_eq_some_iff {positions : List Nat}
    (inside : ∀ pos, Comes (fun pos => ¬ (Search.named name).ends block pos) positions pos →
      (Search.named name).inside block pos) :
    findNamed block name positions = some (some pos) ↔
      Comes (fun pos => ¬ (Search.named name).ends block pos) positions pos ∧
        (Search.named name).ends block pos := by
  rw [findNamed_eq_scan, (visits_named name block).scan_eq_some_iff]
  have stops (pos' : Nat) : namedVisit name block pos' = some (.stop pos) ↔
      carries block name pos' = some true ∧ pos' = pos := by
    unfold namedVisit
    rcases carries block name pos' with _ | _ | _ <;> simp
  constructor
  · rintro ⟨-, pos', comes, found⟩
    obtain ⟨carried, rfl⟩ := (stops pos').mp found
    refine ⟨comes, ?_⟩
    rcases carries_cases block name pos' with ⟨found, -⟩ | ⟨found, -⟩ | ⟨-, -, ends⟩
    · cases carried.symm.trans found
    · cases carried.symm.trans found
    · exact ends
  · rintro ⟨comes, ends⟩
    refine ⟨inside, pos, comes, (stops pos).mpr ⟨?_, rfl⟩⟩
    rcases carries_cases block name pos with ⟨-, outside⟩ | ⟨-, -, goesOn⟩ | ⟨found, -⟩
    · exact absurd (inside pos comes) outside
    · exact absurd ends goesOn
    · exact found

theorem describes_findNamed (name : List UInt8) :
    (Search.named name).Describes fun block positions => findNamed block name positions :=
  .of_scan (visits_named name) fun block positions => by rw [findNamed_eq_scan]

/-! ## Removal -/

/-- The search for the record that `remove_dir_entry` zeroes, throughout its length. -/
def Search.removed (name : List UInt8) : Search where
  ends := (named name).ends
  inside block pos := (named name).inside block pos ∧
    ((named name).ends block pos → pos + recLen block pos ≤ bufferSize)

/-- The visit of a record in `remove_dir_entry`. -/
def removedVisit (name : List UInt8) (block : Buffer) (pos : Nat) : Option (Visit Unit) :=
  (carries block name pos).bind fun carried =>
    if carried then (within pos (recLen block pos)).map fun _ => .stop () else some .next

theorem removeAt_isSome (block : Buffer) (name : List UInt8) (prev : Option Nat)
    (positions : List Nat) :
    (removeAt block name prev positions).map Option.isSome =
      (scan (removedVisit name block) positions).map Option.isSome := by
  induction positions generalizing prev with
  | nil => rfl
  | cons pos rest ih =>
    rw [removeAt, scan, removedVisit]
    rcases carries block name pos with _ | _ | _
    · rfl
    · exact ih _
    · change Option.map _ ((within pos (recLen block pos)).bind _) =
        Option.map _ (((within pos (recLen block pos)).map _).bind _)
      cases within pos (recLen block pos) <;> rfl

theorem visits_removed (name : List UInt8) (block : Buffer) :
    Visits (removedVisit name block) ((Search.removed name).inside block)
      fun pos => ¬ (Search.removed name).ends block pos := by
  intro pos
  unfold removedVisit
  rcases carries_cases block name pos with
    ⟨found, outside⟩ | ⟨found, inside, goesOn⟩ | ⟨found, inside, ends⟩
  · exact .inl ⟨by rw [found]; rfl, fun safe => outside safe.1⟩
  · exact .inr (.inl ⟨by rw [found]; rfl, ⟨inside, fun ends => absurd ends goesOn⟩, goesOn⟩)
  · rw [found, Option.bind_some, if_pos rfl]
    by_cases fits : pos + recLen block pos ≤ bufferSize
    · rw [within, if_pos fits]
      exact .inr (.inr ⟨(), rfl, ⟨inside, fun _ => fits⟩, not_not.mpr ends⟩)
    · rw [within, if_neg fits]
      exact .inl ⟨rfl, fun safe => fits (safe.2 ends)⟩

theorem describes_removeAt (name : List UInt8) :
    (Search.removed name).Describes fun block positions => removeAt block name none positions :=
  .of_scan (visits_removed name) fun block positions => removeAt_isSome block name none positions

/-! ## Insertion -/

/-- A free record with room for the name. -/
def Vacant (block : Buffer) (name : List UInt8) (pos : Nat) : Prop :=
  inoAt block pos = 0 ∧ entryLen name.length ≤ recLen block pos

/-- A record in use with room for the name behind its own. -/
def Roomy (block : Buffer) (name : List UInt8) (pos : Nat) : Prop :=
  inoAt block pos ≠ 0 ∧
    entryLen (nameLen block pos) + entryLen name.length < recLen block pos

/-- The search for a record that has room for a new one. -/
def Search.vacant (name : List UInt8) : Search where
  ends block pos := Vacant block name pos ∨ Roomy block name pos
  inside block pos :=
    (Vacant block name pos → pos + (entryBase + name.length) ≤ bufferSize) ∧
      (Roomy block name pos →
        pos + entryLen (nameLen block pos) + (entryBase + name.length) ≤ bufferSize)

instance : Decidable (Vacant block name pos) := inferInstanceAs (Decidable (_ ∧ _))

instance : Decidable (Roomy block name pos) := inferInstanceAs (Decidable (_ ∧ _))

/-- The visit of a record in `add_dir_entry`. -/
def vacantVisit (name : List UInt8) (block : Buffer) (pos : Nat) : Option (Visit Unit) :=
  if Vacant block name pos then (within pos (entryBase + name.length)).map fun _ => .stop ()
  else if Roomy block name pos then
    (within (pos + entryLen (nameLen block pos)) (entryBase + name.length)).map fun _ => .stop ()
  else some .next

theorem insertAt_isSome (block : Buffer) (childInode : Nat) (name : List UInt8) (fileType : UInt8)
    (positions : List Nat) :
    (insertAt block childInode name fileType positions).map Option.isSome =
      (scan (vacantVisit name block) positions).map Option.isSome := by
  induction positions with
  | nil => rfl
  | cons pos rest ih =>
    rw [insertAt, scan, vacantVisit]
    by_cases vacant : Vacant block name pos
    · rw [if_pos vacant]
      refine (congrArg _ (if_pos vacant)).trans ?_
      cases within pos (entryBase + name.length) <;> rfl
    · rw [if_neg vacant]
      refine (congrArg _ (if_neg vacant)).trans ?_
      by_cases roomy : Roomy block name pos
      · rw [if_pos roomy]
        refine (congrArg _ (if_pos roomy)).trans ?_
        cases within (pos + entryLen (nameLen block pos)) (entryBase + name.length) <;> rfl
      · rw [if_neg roomy]
        exact (congrArg _ (if_neg roomy)).trans ih

theorem visits_vacant (name : List UInt8) (block : Buffer) :
    Visits (vacantVisit name block) ((Search.vacant name).inside block)
      fun pos => ¬ (Search.vacant name).ends block pos := by
  intro pos
  unfold vacantVisit
  by_cases vacant : Vacant block name pos
  · have crowded : ¬ Roomy block name pos := fun roomy => roomy.1 vacant.1
    rw [if_pos vacant]
    by_cases fits : pos + (entryBase + name.length) ≤ bufferSize
    · rw [within, if_pos fits]
      exact .inr (.inr ⟨(), rfl, ⟨fun _ => fits, fun roomy => absurd roomy crowded⟩,
        not_not.mpr (.inl vacant)⟩)
    · rw [within, if_neg fits]
      exact .inl ⟨rfl, fun inside => fits (inside.1 vacant)⟩
  · rw [if_neg vacant]
    by_cases roomy : Roomy block name pos
    · rw [if_pos roomy]
      by_cases fits : pos + entryLen (nameLen block pos) + (entryBase + name.length) ≤ bufferSize
      · rw [within, if_pos fits]
        exact .inr (.inr ⟨(), rfl, ⟨fun free => absurd free vacant, fun _ => fits⟩,
          not_not.mpr (.inr roomy)⟩)
      · rw [within, if_neg fits]
        exact .inl ⟨rfl, fun inside => fits (inside.2 roomy)⟩
    · rw [if_neg roomy]
      exact .inr (.inl ⟨rfl, ⟨fun free => absurd free vacant, fun room => absurd room roomy⟩,
        fun ends => ends.elim vacant roomy⟩)

theorem describes_insertAt (childInode : Nat) (name : List UInt8) (fileType : UInt8) :
    (Search.vacant name).Describes fun block positions =>
      insertAt block childInode name fileType positions :=
  .of_scan (visits_vacant name) fun block positions =>
    insertAt_isSome block childInode name fileType positions

/-! ## Block after block -/

namespace Volume

variable {v : Volume} {dirBuf : Buffer} {search : Search} {log : Nat}

/-- A block of the directory can be read and holds these bytes. -/
def Holds (v : Volume) (dirBuf : Buffer) (log : Nat) (block : Buffer) : Prop :=
  ∃ phys, v.extentLookup dirBuf (log % 2 ^ 32) = some (some phys) ∧
    v.readBlock phys = some (some block)

/-- The directory has a hole there, or no record of the block ends the search. -/
def Passes (v : Volume) (dirBuf : Buffer) (search : Search) (log : Nat) : Prop :=
  v.extentLookup dirBuf (log % 2 ^ 32) = some none ∨
    ∃ block, v.Holds dirBuf log block ∧
      ∀ pos ∈ records block v.blockSize, ¬ search.ends block pos

/-- The search of one block: its number is found, it is read, what the search touches of the
records that it comes to is in the buffer, and if the search goes on, the next offset is a
number. -/
structure BlockSafe (v : Volume) (dirBuf : Buffer) (search : Search) (log : Nat) : Prop where
  mapped : v.extentLookup dirBuf (log % 2 ^ 32) ≠ none
  read : ∀ phys, v.extentLookup dirBuf (log % 2 ^ 32) = some (some phys) → v.readBlock phys ≠ none
  inside : ∀ block, v.Holds dirBuf log block →
    ∀ pos, Comes (fun pos => ¬ search.ends block pos) (records block v.blockSize) pos →
      search.inside block pos
  next : v.Passes dirBuf search log → (log + 1) * v.blockSize < 2 ^ 64

/-- The search of a directory: every block that it comes to is safe. -/
def ScanSafe (v : Volume) (dirBuf : Buffer) (search : Search) : Prop :=
  ∀ log < (Inode.parse dirBuf).dirBlocks v.blockSize,
    (∀ earlier < log, v.Passes dirBuf search earlier) → v.BlockSafe dirBuf search log

/-- The visit of a block: what ends the search in it is finished with the block's number. -/
def blockVisit {α β : Type} (v : Volume) (dirBuf : Buffer)
    (inner : Buffer → List Nat → Option (Option α)) (finish : Nat → Buffer → α → Option β)
    (unreadable : β) (log : Nat) : Option (Visit β) :=
  (v.extentLookup dirBuf (log % 2 ^ 32)).bind fun
    | none => (checked64 ((log + 1) * v.blockSize)).map fun _ => .next
    | some phys =>
      (v.readBlock phys).bind fun
        | none => some (.stop unreadable)
        | some block =>
          (inner block (records block v.blockSize)).bind fun
            | some found => (finish phys block found).map .stop
            | none => (checked64 ((log + 1) * v.blockSize)).map fun _ => .next

/-- The visit of a block in `lookup_path`. -/
def lookupVisit (v : Volume) (dirBuf : Buffer) (component : List UInt8) :
    Nat → Option (Visit (Option Nat)) :=
  v.blockVisit dirBuf (fun block positions => findNamed block component positions)
    (fun _ block pos => some (some (inoAt block pos))) none

/-- The visit of a block in `add_dir_entry` and `remove_dir_entry`. -/
def editVisit (v : Volume) (dirBuf : Buffer)
    (edit : Buffer → List Nat → Option (Option Buffer)) : Nat → Option (Visit Edit) :=
  v.blockVisit dirBuf edit
    (fun phys _ block => (v.writeBlock phys block).map fun done => .wrote done.1 done.2) .absent

theorem lookupBlocks_eq_scan (v : Volume) (dirBuf : Buffer) (component : List UInt8)
    (left log : Nat) :
    v.lookupBlocks dirBuf component left log =
      (scan (v.lookupVisit dirBuf component) (List.range' log left)).map (·.getD none) := by
  induction left generalizing log with
  | zero => rfl
  | succ left ih =>
    rw [lookupBlocks, List.range'_succ, scan, lookupVisit, blockVisit]
    have later := ih (log + 1)
    cases v.extentLookup dirBuf (log % 2 ^ 32) with
    | none => rfl
    | some mapped =>
      cases mapped with
      | none =>
        simp only [Option.bind_eq_bind, Option.bind_some]
        cases checked64 ((log + 1) * v.blockSize) with
        | none => rfl
        | some _ => exact later
      | some phys =>
        simp only [Option.bind_eq_bind, Option.bind_some]
        cases v.readBlock phys with
        | none => rfl
        | some read =>
          cases read with
          | none => rfl
          | some block =>
            simp only [Option.bind_some]
            cases findNamed block component (records block v.blockSize) with
            | none => rfl
            | some found =>
              cases found with
              | some pos => rfl
              | none =>
                simp only [Option.bind_some]
                cases checked64 ((log + 1) * v.blockSize) with
                | none => rfl
                | some _ => exact later

theorem editBlocks_eq_scan (v : Volume) (dirBuf : Buffer)
    (edit : Buffer → List Nat → Option (Option Buffer)) (left log : Nat) :
    v.editBlocks dirBuf edit left log =
      (scan (v.editVisit dirBuf edit) (List.range' log left)).map (·.getD .absent) := by
  induction left generalizing log with
  | zero => rfl
  | succ left ih =>
    rw [editBlocks, List.range'_succ, scan, editVisit, blockVisit]
    have later := ih (log + 1)
    cases v.extentLookup dirBuf (log % 2 ^ 32) with
    | none => rfl
    | some mapped =>
      cases mapped with
      | none =>
        simp only [Option.bind_eq_bind, Option.bind_some]
        cases checked64 ((log + 1) * v.blockSize) with
        | none => rfl
        | some _ => exact later
      | some phys =>
        simp only [Option.bind_eq_bind, Option.bind_some]
        cases v.readBlock phys with
        | none => rfl
        | some read =>
          cases read with
          | none => rfl
          | some block =>
            simp only [Option.bind_some]
            cases edit block (records block v.blockSize) with
            | none => rfl
            | some found =>
              cases found with
              | some block =>
                simp only [Option.bind_some]
                cases v.writeBlock phys block <;> rfl
              | none =>
                simp only [Option.bind_some]
                cases checked64 ((log + 1) * v.blockSize) with
                | none => rfl
                | some _ => exact later

theorem Holds.read {block : Buffer} {phys : Nat} (holds : v.Holds dirBuf log block)
    (mapped : v.extentLookup dirBuf (log % 2 ^ 32) = some (some phys)) :
    v.readBlock phys = some (some block) := by
  obtain ⟨phys', found, read⟩ := holds
  obtain rfl := Option.some.inj (Option.some.inj (mapped.symm.trans found))
  exact read

theorem visits_blocks {α β : Type} {inner : Buffer → List Nat → Option (Option α)}
    (describes : search.Describes inner) {finish : Nat → Buffer → α → Option β}
    (finishes : ∀ phys block found, v.readBlock phys ≠ none → finish phys block found ≠ none)
    (dirBuf : Buffer) (unreadable : β) :
    Visits (v.blockVisit dirBuf inner finish unreadable) (v.BlockSafe dirBuf search)
      (v.Passes dirBuf search) := by
  intro log
  unfold blockVisit
  cases mapped : v.extentLookup dirBuf (log % 2 ^ 32) with
  | none => exact .inl ⟨rfl, fun safe => safe.mapped mapped⟩
  | some found =>
    have returns : v.extentLookup dirBuf (log % 2 ^ 32) ≠ none := by
      rw [mapped]
      exact Option.some_ne_none _
    cases found with
    | none =>
      have passes : v.Passes dirBuf search log := .inl mapped
      rw [Option.bind_some, checked64]
      dsimp only
      split_ifs with small
      · refine .inr (.inl ⟨rfl, ⟨returns, fun phys found => ?_, fun block holds => ?_,
          fun _ => small⟩, passes⟩)
        · cases mapped.symm.trans found
        · obtain ⟨phys, found, -⟩ := holds
          cases mapped.symm.trans found
      · exact .inl ⟨rfl, fun safe => small (safe.next passes)⟩
    | some phys =>
      rw [Option.bind_some]
      dsimp only
      cases read : v.readBlock phys with
      | none => exact .inl ⟨rfl, fun safe => safe.read phys mapped read⟩
      | some content =>
        have readable (phys' : Nat)
            (found : v.extentLookup dirBuf (log % 2 ^ 32) = some (some phys')) :
            v.readBlock phys' ≠ none := by
          obtain rfl := Option.some.inj (Option.some.inj (mapped.symm.trans found))
          rw [read]
          exact Option.some_ne_none _
        rw [Option.bind_some]
        cases content with
        | none =>
          have empty (block : Buffer) : ¬ v.Holds dirBuf log block := fun holds => by
            cases read.symm.trans (holds.read mapped)
          have stays : ¬ v.Passes dirBuf search log := by
            rintro (hole | ⟨block, holds, -⟩)
            · cases mapped.symm.trans hole
            · exact empty block holds
          exact .inr (.inr ⟨_, rfl, ⟨returns, readable,
            fun block holds => absurd holds (empty block),
            fun passes => absurd passes stays⟩, stays⟩)
        | some block =>
          have holds : v.Holds dirBuf log block := ⟨phys, mapped, read⟩
          have only {other : Buffer} (holds : v.Holds dirBuf log other) : other = block :=
            Option.some.inj (Option.some.inj ((holds.read mapped).symm.trans read))
          dsimp only
          cases found : inner block (records block v.blockSize) with
          | none =>
            exact .inl ⟨rfl, fun safe =>
              (describes.returns _ _).mpr (safe.inside block holds) found⟩
          | some result =>
            have inside := (describes.returns block (records block v.blockSize)).mp
              (by rw [found]; exact Option.some_ne_none _)
            rw [Option.bind_some]
            cases result with
            | none =>
              have passes : v.Passes dirBuf search log :=
                .inr ⟨block, holds, ((describes.absent _ _).mp found).2⟩
              dsimp only
              rw [checked64]
              split_ifs with small
              · exact .inr (.inl ⟨rfl, ⟨returns, readable,
                  fun other holds => only holds ▸ inside, fun _ => small⟩, passes⟩)
              · exact .inl ⟨rfl, fun safe => small (safe.next passes)⟩
            | some a =>
              have stays : ¬ v.Passes dirBuf search log := by
                rintro (hole | ⟨other, other_holds, passed⟩)
                · cases mapped.symm.trans hole
                · obtain rfl := only other_holds
                  cases found.symm.trans ((describes.absent _ _).mpr ⟨inside, passed⟩)
              obtain ⟨b, finished⟩ := Option.ne_none_iff_exists'.mp
                (finishes phys block a (readable phys mapped))
              dsimp only
              rw [finished]
              exact .inr (.inr ⟨b, rfl, ⟨returns, readable,
                fun other holds => only holds ▸ inside,
                fun passes => absurd passes stays⟩, stays⟩)

theorem scan_ne_none_iff_scanSafe {β : Type} {visit : Nat → Option (Visit β)}
    (visits : Visits visit (v.BlockSafe dirBuf search) (v.Passes dirBuf search)) :
    scan visit (List.range' 0 ((Inode.parse dirBuf).dirBlocks v.blockSize)) ≠ none ↔
      v.ScanSafe dirBuf search := by
  rw [visits.scan_ne_none_iff]
  simp only [comes_range', Nat.zero_le, true_and, Nat.zero_add, forall_const, and_imp]
  rfl

theorem writeBlock_ne_none {phys : Nat} {buf : Buffer} (readable : v.readBlock phys ≠ none) :
    v.writeBlock phys buf ≠ none := by
  unfold readBlock at readable
  unfold writeBlock
  split_ifs at readable ⊢
  · exact Option.some_ne_none _
  · exact absurd rfl readable
  · exact Option.some_ne_none _

/-! ## Lookups -/

/-- The search of one component of a path. -/
structure ComponentSafe (v : Volume) (current : Nat) (component : List UInt8) : Prop where
  read : v.readInode current ≠ none
  scan : ∀ dirBuf, v.readInode current = some (some dirBuf) → (Inode.parse dirBuf).isDir = true →
    v.ScanSafe dirBuf (.named component)

/-- The directory's first record with that name, in the first block that has one, names the
inode. -/
def Finds (v : Volume) (current : Nat) (component : List UInt8) (ino : Nat) : Prop :=
  ∃ dirBuf, v.readInode current = some (some dirBuf) ∧ (Inode.parse dirBuf).isDir = true ∧
    ∃ log < (Inode.parse dirBuf).dirBlocks v.blockSize,
      (∀ earlier < log, v.Passes dirBuf (.named component) earlier) ∧
      ∃ block, v.Holds dirBuf log block ∧
      ∃ pos, Comes (fun pos => ¬ (Search.named component).ends block pos)
        (records block v.blockSize) pos ∧
        (Search.named component).ends block pos ∧ ino = inoAt block pos

/-- The components lead from one inode to another. -/
inductive Leads (v : Volume) : Nat → List (List UInt8) → Nat → Prop where
  | here (current : Nat) : Leads v current [] current
  | next {current next last : Nat} {component : List UInt8} {rest : List (List UInt8)}
      (finds : v.Finds current component next) (leads : Leads v next rest last) :
      Leads v current (component :: rest) last

/-- Every component is searched safely in the directory that those before it lead to. -/
def LookupSafe (v : Volume) (rootInode : Nat) (components : List (List UInt8)) : Prop :=
  ∀ front component rest, components = front ++ component :: rest →
    ∀ current, v.Leads rootInode front current → v.ComponentSafe current component

variable {current ino : Nat} {component : List UInt8}

theorem visits_lookup (v : Volume) (dirBuf : Buffer) (component : List UInt8) :
    Visits (v.lookupVisit dirBuf component) (v.BlockSafe dirBuf (.named component))
      (v.Passes dirBuf (.named component)) :=
  visits_blocks (describes_findNamed component) (fun _ _ _ _ => Option.some_ne_none _) dirBuf none

theorem lookupComponent_ne_none_iff :
    v.lookupComponent current component ≠ none ↔ v.ComponentSafe current component := by
  unfold lookupComponent
  refine Iff.trans (bind_ne_none_iff (fun dirBuf => (Inode.parse dirBuf).isDir = true →
    v.ScanSafe dirBuf (.named component)) (Option.some_ne_none _) fun dirBuf _ => ?_)
    ⟨fun both => ⟨both.1, both.2⟩, fun safe => ⟨safe.read, safe.scan⟩⟩
  dsimp only
  split_ifs with dir
  · rw [lookupBlocks_eq_scan, Ne, Option.map_eq_none_iff, ← Ne,
      scan_ne_none_iff_scanSafe (v.visits_lookup dirBuf component)]
    exact ⟨fun safe _ => safe, fun safe => safe dir⟩
  · exact iff_of_true (Option.some_ne_none _) fun isDir => absurd isDir dir

theorem lookupVisit_eq_stop_iff :
    v.lookupVisit dirBuf component log = some (.stop (some ino)) ↔
      ∃ block, v.Holds dirBuf log block ∧
        ∃ pos, findNamed block component (records block v.blockSize) = some (some pos) ∧
          ino = inoAt block pos := by
  unfold lookupVisit blockVisit
  constructor
  · intro stops
    obtain ⟨found, mapped, stops⟩ := Option.bind_eq_some_iff.mp stops
    cases found with
    | none => exact absurd stops (by simp)
    | some phys =>
      obtain ⟨content, read, stops⟩ := Option.bind_eq_some_iff.mp stops
      cases content with
      | none => cases stops
      | some block =>
        obtain ⟨result, found, stops⟩ := Option.bind_eq_some_iff.mp stops
        cases result with
        | none => exact absurd stops (by simp)
        | some pos =>
          cases stops
          exact ⟨block, ⟨phys, mapped, read⟩, pos, found, rfl⟩
  · rintro ⟨block, ⟨phys, mapped, read⟩, pos, found, rfl⟩
    rw [mapped, Option.bind_some]
    dsimp only
    rw [read, Option.bind_some]
    dsimp only
    rw [found]
    rfl

theorem lookupComponent_eq_some_iff (safe : v.ComponentSafe current component) :
    v.lookupComponent current component = some (some ino) ↔ v.Finds current component ino := by
  unfold lookupComponent Finds
  cases read : v.readInode current with
  | none => exact absurd read safe.read
  | some found =>
    rw [Option.bind_eq_bind, Option.bind_some]
    cases found with
    | none => exact iff_of_false nofun (by rintro ⟨_, ⟨⟩, -⟩)
    | some dirBuf =>
      simp only [Option.some.injEq, exists_eq_left']
      split_ifs with dir
      · have scanSafe := safe.scan dirBuf read dir
        have visits := v.visits_lookup dirBuf component
        have returns := (visits.scan_ne_none_iff _).mp
          ((scan_ne_none_iff_scanSafe visits).mpr scanSafe)
        have unwrapped (result : Option (Option (Option Nat))) :
            result.map (·.getD none) = some (some ino) ↔ result = some (some (some ino)) := by
          rcases result with _ | _ | _ <;> simp
        rw [lookupBlocks_eq_scan, unwrapped, visits.scan_eq_some_iff]
        simp only [comes_range', Nat.zero_le, true_and, Nat.zero_add, forall_const,
          lookupVisit_eq_stop_iff]
        constructor
        · rintro ⟨-, log, ⟨below, earlier⟩, block, holds, pos, found, rfl⟩
          have inside := (scanSafe log below earlier).inside block holds
          obtain ⟨comes, ends⟩ := (findNamed_eq_some_iff inside).mp found
          exact ⟨dir, log, below, earlier, block, holds, pos, comes, ends, rfl⟩
        · rintro ⟨-, log, below, earlier, block, holds, pos, comes, ends, rfl⟩
          have inside := (scanSafe log below earlier).inside block holds
          exact ⟨fun log comes => returns log (comes_range'.mpr ⟨⟨Nat.zero_le _, by omega⟩,
              fun j _ => comes.2 j⟩), log, ⟨below, earlier⟩, block, holds, pos,
            (findNamed_eq_some_iff inside).mpr ⟨comes, ends⟩, rfl⟩
      · exact iff_of_false nofun fun finds => dir finds.1

theorem lookupSafe_cons {rest : List (List UInt8)} :
    v.LookupSafe current (component :: rest) ↔
      v.ComponentSafe current component ∧
        ∀ next, v.Finds current component next → v.LookupSafe next rest := by
  constructor
  · intro safe
    refine ⟨safe [] component rest rfl current (.here current), fun next finds => ?_⟩
    rintro front last rest rfl there leads
    exact safe (component :: front) last rest rfl there (.next finds leads)
  · rintro ⟨first, later⟩ front last back split there leads
    cases leads with
    | here =>
      cases split
      exact first
    | next finds leads =>
      cases split
      exact later _ finds _ last back rfl there leads

theorem lookupComponents_ne_none_iff (current : Nat) (components : List (List UInt8)) :
    v.lookupComponents current components ≠ none ↔ v.LookupSafe current components := by
  induction components generalizing current with
  | nil => exact iff_of_true (Option.some_ne_none _) fun front _ rest split => by simp at split
  | cons component rest ih =>
    rw [lookupSafe_cons, ← lookupComponent_ne_none_iff]
    by_cases panics : v.lookupComponent current component = none
    · rw [lookupComponents, panics]
      exact iff_of_false (fun returns => returns rfl) fun safe => safe.1 rfl
    · have safe := lookupComponent_ne_none_iff.mp panics
      obtain ⟨found, here⟩ := Option.ne_none_iff_exists'.mp panics
      rw [lookupComponents, here, Option.bind_eq_bind, Option.bind_some]
      cases found with
      | none =>
        refine iff_of_true (Option.some_ne_none _) ⟨Option.some_ne_none _, fun next finds => ?_⟩
        cases here.symm.trans ((lookupComponent_eq_some_iff safe).mpr finds)
      | some ino =>
        have finds := (lookupComponent_eq_some_iff safe).mp here
        refine (ih ino).trans ⟨fun later => ⟨Option.some_ne_none _,
          fun next other => ?_⟩, fun both => both.2 ino finds⟩
        have same := here.symm.trans ((lookupComponent_eq_some_iff safe).mpr other)
        cases same
        exact later

/-- The components of a path. -/
def components (path : List UInt8) : List (List UInt8) := (path.splitOn slash).filter (· ≠ [])

theorem lookupPath_ne_none_iff (rootInode : Nat) (path : List UInt8) :
    v.lookupPath rootInode path ≠ none ↔ v.LookupSafe rootInode (components path) :=
  lookupComponents_ne_none_iff rootInode (components path)

/-! ## Edits -/

/-- No record of the blocks ends the search, up to one that cannot be read. -/
def Absent (v : Volume) (dirBuf : Buffer) (search : Search) : Prop :=
  (∀ log < (Inode.parse dirBuf).dirBlocks v.blockSize, v.Passes dirBuf search log) ∨
    ∃ log < (Inode.parse dirBuf).dirBlocks v.blockSize,
      (∀ earlier < log, v.Passes dirBuf search earlier) ∧
      ∃ phys, v.extentLookup dirBuf (log % 2 ^ 32) = some (some phys) ∧
        v.readBlock phys = some none

/-- The end of `add_dir_entry`: a block is found, and if it is written and has a place in the
inode, then the inode's counts can take it. -/
structure AppendSafe (v : Volume) (inode : Inode) : Prop where
  allocates : v.allocBlock ≠ none
  counts : ∀ newBlk v', v.allocBlock = some (some newBlk, v') → v.Writes newBlk →
    (∃ i : Fin 15, i.val < 12 ∧ inode.block i = 0) →
      inode.blocks + v.blockSize / 512 < 2 ^ 32 ∧ inode.sizeLo + v.blockSize < 2 ^ 32

/-- The search for room in a directory, and the block that is appended where there is none. -/
structure InsertSafe (v : Volume) (parentInode : Nat) (name : List UInt8) : Prop where
  read : v.readInode parentInode ≠ none
  scan : ∀ dirBuf, v.readInode parentInode = some (some dirBuf) →
    v.ScanSafe dirBuf (.vacant (name.take 255))
  append : ∀ dirBuf, v.readInode parentInode = some (some dirBuf) →
    v.Absent dirBuf (.vacant (name.take 255)) → v.AppendSafe (Inode.parse dirBuf)

/-- The search for the record to be removed. -/
structure RemoveSafe (v : Volume) (parentInode : Nat) (name : List UInt8) : Prop where
  read : v.readInode parentInode ≠ none
  scan : ∀ dirBuf, v.readInode parentInode = some (some dirBuf) →
    v.ScanSafe dirBuf (.removed name)

variable {edit : Buffer → List Nat → Option (Option Buffer)} {parentInode childInode : Nat}
  {name : List UInt8} {fileType : UInt8}

theorem visits_edit (describes : search.Describes edit) (v : Volume) (dirBuf : Buffer) :
    Visits (v.editVisit dirBuf edit) (v.BlockSafe dirBuf search) (v.Passes dirBuf search) := by
  refine visits_blocks describes (fun phys block found readable => ?_) dirBuf _
  rw [Ne, Option.map_eq_none_iff]
  exact writeBlock_ne_none readable

theorem editBlocks_ne_none_iff (describes : search.Describes edit) :
    v.editBlocks dirBuf edit ((Inode.parse dirBuf).dirBlocks v.blockSize) 0 ≠ none ↔
      v.ScanSafe dirBuf search := by
  rw [editBlocks_eq_scan, Ne, Option.map_eq_none_iff, ← Ne]
  exact scan_ne_none_iff_scanSafe (visits_edit describes v dirBuf)

theorem editVisit_eq_absent_iff :
    v.editVisit dirBuf edit log = some (.stop .absent) ↔
      ∃ phys, v.extentLookup dirBuf (log % 2 ^ 32) = some (some phys) ∧
        v.readBlock phys = some none := by
  unfold editVisit blockVisit
  constructor
  · intro stops
    obtain ⟨found, mapped, stops⟩ := Option.bind_eq_some_iff.mp stops
    cases found with
    | none => exact absurd stops (by simp)
    | some phys =>
      obtain ⟨content, read, stops⟩ := Option.bind_eq_some_iff.mp stops
      cases content with
      | none => exact ⟨phys, mapped, read⟩
      | some block =>
        obtain ⟨result, found, stops⟩ := Option.bind_eq_some_iff.mp stops
        cases result with
        | none => exact absurd stops (by simp)
        | some block => exact absurd stops (by simp)
  · rintro ⟨phys, mapped, read⟩
    rw [mapped, Option.bind_some]
    dsimp only
    rw [read]
    rfl

theorem editBlocks_eq_absent_iff (describes : search.Describes edit)
    (safe : v.ScanSafe dirBuf search) :
    v.editBlocks dirBuf edit ((Inode.parse dirBuf).dirBlocks v.blockSize) 0 = some .absent ↔
      v.Absent dirBuf search := by
  have visits := visits_edit describes v dirBuf
  have returns := (visits.scan_ne_none_iff _).mp ((scan_ne_none_iff_scanSafe visits).mpr safe)
  have unwrapped (result : Option (Option Edit)) :
      result.map (·.getD .absent) = some .absent ↔
        result = some none ∨ result = some (some .absent) := by
    rcases result with _ | _ | _ <;> simp
  rw [editBlocks_eq_scan, unwrapped, visits.scan_eq_none_iff, visits.scan_eq_some_iff]
  refine or_congr ?_ ?_
  · simp only [List.mem_range'_1, Nat.zero_le, true_and, Nat.zero_add]
    exact ⟨fun all => all.2, fun all => ⟨returns, all⟩⟩
  · simp only [comes_range', Nat.zero_le, true_and, Nat.zero_add, forall_const,
      editVisit_eq_absent_iff]
    constructor
    · rintro ⟨-, log, ⟨below, earlier⟩, unreadable⟩
      exact ⟨log, below, earlier, unreadable⟩
    · rintro ⟨log, below, earlier, unreadable⟩
      exact ⟨fun log comes => returns log (comes_range'.mpr ⟨⟨Nat.zero_le _, by omega⟩,
        fun j _ => comes.2 j⟩), log, ⟨below, earlier⟩, unreadable⟩

theorem le_of_readSpan {pos len room : Nat} {buf : Buffer}
    (span : v.readSpan pos len room = some (some buf)) : len ≤ room := by
  unfold readSpan at span
  dsimp only at span
  split at span
  · cases span
  · split_ifs at span with first fits short both
    · exact fits
    · exact both.1
    · split at span <;> cases span

/-- What a record in its table says of the geometry. -/
theorem geometry_of_readInode (read : v.readInode parentInode = some (some dirBuf)) :
    1 ≤ parentInode ∧ v.descSize ≤ 64 ∧ v.super.inodesPerGroup ≠ 0 ∧ v.super.inodeSize ≤ 256 := by
  unfold readInode at read
  by_cases zero : parentInode < 1
  · rw [if_pos zero] at read
    cases read
  · rw [if_neg zero] at read
    obtain ⟨found, located, span⟩ := Option.bind_eq_some_iff.mp read
    cases found with
    | none => cases span
    | some pos =>
      unfold inodePos at located
      split_ifs at located with grouped
      obtain ⟨bgd, described, positioned⟩ := Option.bind_eq_some_iff.mp located
      obtain ⟨content, reads, mapped⟩ := Option.bind_eq_some_iff.mp described
      cases content with
      | none =>
        cases mapped
        cases positioned
      | some buf =>
        exact ⟨Nat.le_of_not_lt zero, le_of_readSpan reads, (not_or.mp grouped).2,
          le_of_readSpan span⟩

theorem checked32_of_lt {n : Nat} (small : n < 2 ^ 32) : checked32 n = some n := if_pos small

/-- The new block's place in the inode. -/
theorem attach_ne_none_iff {inode : Inode} {newBlk : Nat} (positive : 1 ≤ parentInode)
    (descriptor : v.descSize ≤ 64) (grouped : v.super.inodesPerGroup ≠ 0)
    (record : v.super.inodeSize ≤ 256) :
    (match (List.finRange 15).find? fun i => i.val < 12 ∧ inode.block i = 0 with
      | none => some (false, v)
      | some i => do
        let blocks ← checked32 (inode.blocks + v.blockSize / 512)
        let sizeLo ← checked32 (inode.sizeLo + v.blockSize)
        v.writeInode parentInode
          { inode with block := Function.update inode.block i newBlk, blocks, sizeLo }) ≠ none ↔
      ((∃ i : Fin 15, i.val < 12 ∧ inode.block i = 0) →
        inode.blocks + v.blockSize / 512 < 2 ^ 32 ∧ inode.sizeLo + v.blockSize < 2 ^ 32) := by
  cases found : (List.finRange 15).find? fun i => i.val < 12 ∧ inode.block i = 0 with
  | none =>
    refine iff_of_true (Option.some_ne_none _) ?_
    rintro ⟨i, place⟩
    have full := List.find?_eq_none.mp found i (List.mem_finRange i)
    exact absurd (decide_eq_true place) full
  | some i =>
    have place : i.val < 12 ∧ inode.block i = 0 := by simpa using List.find?_some found
    dsimp only
    by_cases blocks : inode.blocks + v.blockSize / 512 < 2 ^ 32
    · rw [checked32_of_lt blocks, Option.bind_eq_bind, Option.bind_some]
      by_cases size : inode.sizeLo + v.blockSize < 2 ^ 32
      · rw [checked32_of_lt size, Option.bind_some]
        exact iff_of_true (writeInode_ne_none descriptor grouped record positive _)
          fun _ => ⟨blocks, size⟩
      · rw [checked32, if_neg size]
        exact iff_of_false (fun returns => returns rfl) fun counts => size (counts ⟨i, place⟩).2
    · rw [checked32, if_neg blocks]
      exact iff_of_false (fun returns => returns rfl) fun counts => blocks (counts ⟨i, place⟩).1

theorem appendBlock_ne_none_iff (sector : 512 ≤ v.blockSize)
    (read : v.readInode parentInode = some (some dirBuf)) (childInode : Nat) (name : List UInt8)
    (fileType : UInt8) :
    v.appendBlock parentInode (Inode.parse dirBuf) childInode name fileType ≠ none ↔
      v.AppendSafe (Inode.parse dirBuf) := by
  obtain ⟨positive, descriptor, grouped, record⟩ := geometry_of_readInode read
  unfold appendBlock
  cases claimed : v.allocBlock with
  | none => exact iff_of_false (fun returns => returns rfl) fun safe => safe.allocates claimed
  | some result =>
    obtain ⟨newBlk, middle⟩ := result
    have allocates : v.allocBlock ≠ none := by
      rw [claimed]
      exact Option.some_ne_none _
    rw [Option.bind_eq_bind, Option.bind_some]
    dsimp only
    cases newBlk with
    | none =>
      refine iff_of_true (Option.some_ne_none _) ⟨allocates, fun newBlk v' other => ?_⟩
      cases claimed.symm.trans other
    | some newBlk =>
      obtain ⟨frame, bounded⟩ := claimFrom_frame claimed
      have fits := bounded (Option.some_ne_none _)
      have middleSize : middle.blockSize = v.blockSize := congrArg Super.blockSize frame.super
      have only {other : Nat} {v' : Volume} (again : v.allocBlock = some (some other, v')) :
          other = newBlk := by
        cases claimed.symm.trans again
        rfl
      have writable : middle.Writes newBlk ↔ v.Writes newBlk := by
        unfold Writes blockLba
        rw [middleSize, frame.partBase, frame.hasPage, frame.writable]
      dsimp only
      generalize Buffer.zero.put 0 _ = first
      cases wrote : middle.writeBlock newBlk first with
      | none =>
        refine absurd wrote ?_
        unfold writeBlock
        rw [middleSize, if_pos fits]
        split_ifs <;> simp
      | some result =>
        obtain ⟨done, last⟩ := result
        have kept := frame.trans (writeBlock_frame wrote)
        have lastSize : last.blockSize = v.blockSize := congrArg Super.blockSize kept.super
        rw [Option.bind_eq_bind, Option.bind_some]
        dsimp only
        cases done with
        | false =>
          refine iff_of_true (Option.some_ne_none _) ⟨allocates,
            fun other v' again writes => ?_⟩
          obtain rfl := only again
          have success := writeBlock_of_writes (middleSize ▸ fits) (middleSize ▸ sector)
            (writable.mpr writes) first
          cases wrote.symm.trans success
        | true =>
          have writes := writable.mp (writes_of_writeBlock wrote).1
          rw [if_pos rfl]
          refine (attach_ne_none_iff positive (kept.descSize ▸ descriptor)
            (kept.super ▸ grouped) (kept.super ▸ record)).trans ?_
          rw [lastSize]
          exact ⟨fun counts => ⟨allocates, fun other v' again _ => counts⟩,
            fun safe => safe.counts newBlk middle claimed writes⟩

theorem addDirEntry_ne_none_iff (sector : 512 ≤ v.blockSize) (parentInode childInode : Nat)
    (name : List UInt8) (fileType : UInt8) :
    v.addDirEntry parentInode childInode name fileType ≠ none ↔ v.InsertSafe parentInode name := by
  unfold addDirEntry
  refine Iff.trans (bind_ne_none_iff (fun dirBuf => v.ScanSafe dirBuf (.vacant (name.take 255)) ∧
    (v.Absent dirBuf (.vacant (name.take 255)) → v.AppendSafe (Inode.parse dirBuf)))
    (Option.some_ne_none _) fun dirBuf read => ?_)
    ⟨fun both => ⟨both.1, fun d found => (both.2 d found).1, fun d found => (both.2 d found).2⟩,
      fun safe => ⟨safe.read, fun d found => ⟨safe.scan d found, safe.append d found⟩⟩⟩
  have describes := describes_insertAt childInode (name.take 255) fileType
  have scans : v.editBlocks dirBuf _ _ 0 ≠ none ↔ _ := editBlocks_ne_none_iff describes
  dsimp only
  cases edited : v.editBlocks dirBuf (insertAt · childInode (name.take 255) fileType ·)
      ((Inode.parse dirBuf).dirBlocks v.blockSize) 0 with
  | none =>
    exact iff_of_false (fun returns => returns rfl) fun safe => scans.mpr safe.1 edited
  | some result =>
    have safe := scans.mp (by rw [edited]; exact Option.some_ne_none _)
    have absent := editBlocks_eq_absent_iff describes safe
    cases result with
    | wrote written after =>
      refine iff_of_true (Option.some_ne_none _) ⟨safe, fun none => ?_⟩
      cases edited.symm.trans (absent.mpr none)
    | absent =>
      exact (appendBlock_ne_none_iff sector read childInode _ fileType).trans
        ⟨fun append => ⟨safe, fun _ => append⟩, fun all => all.2 (absent.mp edited)⟩

theorem removeDirEntry_ne_none_iff (parentInode : Nat) (name : List UInt8) :
    v.removeDirEntry parentInode name ≠ none ↔ v.RemoveSafe parentInode name := by
  unfold removeDirEntry
  refine Iff.trans (bind_ne_none_iff (v.ScanSafe · (.removed name)) (Option.some_ne_none _)
    fun dirBuf _ => ?_) ⟨fun both => ⟨both.1, both.2⟩, fun safe => ⟨safe.read, safe.scan⟩⟩
  refine Iff.trans ?_ (editBlocks_ne_none_iff (describes_removeAt name))
  dsimp only
  cases v.editBlocks dirBuf (removeAt · name none ·) ((Inode.parse dirBuf).dirBlocks v.blockSize) 0 with
  | none => exact iff_of_false (· rfl) (· rfl)
  | some result =>
    cases result <;> exact iff_of_true (Option.some_ne_none _) (Option.some_ne_none _)

end Volume

end DBSos.Ext4
