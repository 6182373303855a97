import DBSos.Iso.Images

/-!
# Listings and files

`iso_readdir` lists the records of up to eight sectors, and ends at the first without records;
like the search it reads on behind the directory. `iso_read` goes by the extent and the size
alone.
-/

namespace DBSos.Iso

open DBSos.Lib

/-! ## The driver -/

/-- `DirEntry`; the name takes 32 bytes, with zeros behind it. -/
structure DirEntry where
  name : List UInt8
  isDir : Bool
  size : Nat
deriving DecidableEq

/-- The name that is shown for a record. -/
def Slot.shown (slot : Slot) : List UInt8 :=
  if slot.name = [0] then [dot]
  else if slot.name = [1] then [dot, dot]
  else (stripVer slot.name).take 32

/-- What `iso_readdir` stores for a record. -/
def Slot.entry (slot : Slot) : DirEntry :=
  ⟨slot.shown ++ List.replicate (32 - slot.shown.length) 0, slot.isDir, slot.size⟩

/-- The records that `iso_readdir` comes to in so many sectors. `none` where the number of the
next sector overflows. -/
def listFrom (disc : Disc) : (left lba : Nat) → Option (List Slot)
  | 0, _ => some []
  | left + 1, lba =>
    match disc lba with
    | none => some []
    | some buf =>
      if buf 0 = 0 then some []
      else if 2 ^ 32 ≤ lba + 1 then none
      else (listFrom disc left (lba + 1)).map (slots buf ++ ·)

/-- `iso_readdir`, with the room of the caller. -/
def readdir (disc : Disc) (root : Option Nat) (path : Path) (room : Nat) :
    Option (Option (List DirEntry)) :=
  (resolve disc root path).bind fun
    | none => some none
    | some node =>
      if node.isDir then
        (listFrom disc 8 node.extent).map fun found => some ((found.take room).map Slot.entry)
      else some none

/-- `Handle`. -/
structure Handle where
  used : Bool
  extent : Nat
  size : Nat
deriving DecidableEq

/-- `HANDLES`. -/
abbrev Handles := Fin 16 → Handle

/-- `!0usize`. -/
def noHandle : Nat := 2 ^ 64 - 1

/-- The loop of `iso_read`. A turn reads at least one byte. `none` where the number of a sector
overflows. -/
def readFrom (disc : Disc) (extent stop : Nat) : (turns off : Nat) → Option (List UInt8)
  | 0, _ => some []
  | turns + 1, off =>
    if stop ≤ off then some []
    else if 2 ^ 32 ≤ extent + off / 2048 then none
    else
      match disc (extent + off / 2048) with
      | none => some []
      | some bounce =>
        let n := min (2048 - off % 2048) (stop - off)
        (readFrom disc extent stop turns (off + n)).map (bounce.slice (off % 2048) n ++ ·)

/-- `iso_read`. -/
def isoRead (disc : Disc) (handles : Handles) (handle len offset : Nat) :
    Option (Option (List UInt8)) :=
  if handle = noHandle then some (some [])
  else if bound : handle < 16 then
    let h := handles ⟨handle, bound⟩
    if h.used = false then some none
    else if h.size ≤ offset ∨ len = 0 then some (some [])
    else if 2 ^ 64 ≤ offset + len then none
    else
      let stop := min (offset + len) h.size
      (readFrom disc h.extent stop (stop - offset) offset).map some
  else some none

/-! ## Listings -/

/-- The records of the sectors up to an empty one. -/
def own (left : Nat) (sectors : List (List Record)) : List Record :=
  ((sectors.take left).takeWhile (· ≠ [])).flatten

/-- The directory ends before the sectors that are read do. -/
def RunsOn (left : Nat) (sectors : List (List Record)) : Prop :=
  sectors.length < left ∧ ∀ rs ∈ sectors, rs ≠ []

instance (left : Nat) (sectors : List (List Record)) : Decidable (RunsOn left sectors) :=
  instDecidableAnd

variable {disc : Disc} {left lba : Nat} {sectors : List (List Record)}

theorem exists_listFrom (small : lba + left < 2 ^ 32) :
    ∃ found, listFrom disc left lba = some found := by
  induction left generalizing lba with
  | zero => exact ⟨[], rfl⟩
  | succ left ih =>
    obtain ⟨found, listed⟩ := ih (by omega : lba + 1 + left < 2 ^ 32)
    rw [listFrom]
    rcases disc lba with _ | buf
    · exact ⟨[], rfl⟩
    · dsimp only
      rw [listed, if_neg (by omega : ¬ 2 ^ 32 ≤ lba + 1)]
      split_ifs
      · exact ⟨[], rfl⟩
      · exact ⟨_, rfl⟩

/-- The records of the directory come first, and behind it those of whatever follows. -/
theorem listFrom_own (small : lba + left < 2 ^ 32)
    (held : ∀ k rs, sectors[k]? = some rs → ∃ buf, disc (lba + k) = some buf ∧ Holds buf rs) :
    listFrom disc left lba =
      (if RunsOn left sectors then
        listFrom disc (left - sectors.length) (lba + sectors.length) else some []).map
        ((own left sectors).map Record.slot ++ ·) := by
  induction sectors generalizing left lba with
  | nil =>
    by_cases more : 0 < left
    · rw [if_pos ⟨more, nofun⟩]
      simp [own]
    · obtain rfl : left = 0 := by omega
      rfl
  | cons rs rest ih =>
    rcases left with _ | left
    · rw [if_neg fun runsOn => absurd runsOn.1 (Nat.not_lt_zero _)]
      rfl
    obtain ⟨buf, read, holds⟩ := held 0 rs rfl
    rw [Nat.add_zero] at read
    rw [listFrom, read]
    dsimp only
    by_cases empty : rs = []
    · rw [if_pos ((first_eq_zero_iff holds).mpr empty),
        if_neg fun runsOn => runsOn.2 rs List.mem_cons_self empty]
      simp [own, empty]
    · have next : listFrom disc left (lba + 1) = _ :=
        ih (by omega) fun k rs' there => by
          rw [Nat.add_right_comm, Nat.add_assoc]
          exact held (k + 1) rs' there
      have same : RunsOn (left + 1) (rs :: rest) ↔ RunsOn left rest := by
        simp [RunsOn, empty]
      have here : own (left + 1) (rs :: rest) = rs ++ own left rest := by
        simp [own, empty]
      rw [if_neg (mt (first_eq_zero_iff holds).mp empty), if_neg (by omega), next,
        slots_holds holds, here, List.length_cons, Nat.add_sub_add_right,
        Nat.add_right_comm lba 1, Nat.add_assoc lba]
      simp only [same, Option.map_map]
      congr 1
      funext foreign
      simp only [Function.comp, List.map_append, List.append_assoc]

theorem slots_of_zero {buf : Buffer} (zero : buf 0 = 0) : slots buf = [] :=
  if_pos (.inr (.inl (by rw [zero]; rfl)))

/-- Nothing is listed where no sector that is read has a record. -/
theorem listFrom_eq_nil (small : lba + left < 2 ^ 32) :
    listFrom disc left lba = some [] ↔
      ∀ k < left, (∀ j < k, Open disc (lba + j)) → ∀ buf, disc (lba + k) = some buf →
        slots buf = [] := by
  induction left generalizing lba with
  | zero => exact iff_of_true rfl nofun
  | succ left ih =>
    rw [listFrom]
    -- A sector that ends the listing leaves only itself to look at.
    have ends (shut : ¬ Open disc lba) (quiet : ∀ buf, disc lba = some buf → slots buf = []) :
        ∀ k < left + 1, (∀ j < k, Open disc (lba + j)) → ∀ buf, disc (lba + k) = some buf →
          slots buf = [] := by
      intro k _ open' buf read
      rcases k with _ | k
      · exact quiet buf read
      · exact absurd (open' 0 (Nat.succ_pos k)) shut
    rcases read : disc lba with _ | buf
    · refine iff_of_true rfl (ends ?_ fun buf there => absurd (read.symm.trans there) (by nofun))
      rintro ⟨buf, there, -⟩
      exact absurd (read.symm.trans there) (by nofun)
    dsimp only
    by_cases zero : buf 0 = 0
    · rw [if_pos zero]
      refine iff_of_true rfl (ends ?_ fun buf' there => ?_)
      · rintro ⟨buf', there, more⟩
        obtain rfl := Option.some.inj (read.symm.trans there)
        exact more zero
      · obtain rfl := Option.some.inj (read.symm.trans there)
        exact slots_of_zero zero
    · have next : lba + 1 + left < 2 ^ 32 := by omega
      obtain ⟨found, listed⟩ := @exists_listFrom disc left (lba + 1) next
      rw [if_neg zero, if_neg (by omega), listed, Option.map_some, Option.some.injEq,
        List.append_eq_nil_iff]
      have rest := ih next
      rw [listed, Option.some.injEq] at rest
      rw [rest]
      constructor
      · rintro ⟨here, further⟩ k below open' buf' there
        rcases k with _ | k
        · obtain rfl := Option.some.inj (read.symm.trans there)
          exact here
        · rw [Nat.add_comm k, ← Nat.add_assoc] at there
          refine further k (by omega) (fun j before => ?_) buf' there
          rw [Nat.add_assoc, Nat.add_comm 1]
          exact open' (j + 1) (by omega)
      · intro all
        refine ⟨all 0 (Nat.succ_pos left) nofun buf read, fun k below open' buf' there => ?_⟩
        rw [Nat.add_assoc, Nat.add_comm 1] at there
        refine all (k + 1) (by omega) (fun j before => ?_) buf' there
        rcases j with _ | j
        · exact ⟨buf, read, zero⟩
        · rw [Nat.add_comm j, ← Nat.add_assoc]
          exact open' j (by omega)

theorem own_begins (left : Nat) (sectors : List (List Record)) :
    own left sectors <+: sectors.flatten := by
  obtain ⟨rest, split⟩ := (List.takeWhile_prefix _).trans (List.take_prefix left sectors)
  exact ⟨rest.flatten, by rw [own, ← List.flatten_append, split]⟩

/-- Where the listing runs on, it has come by every record of the directory. -/
theorem own_of_runsOn (runsOn : RunsOn left sectors) : own left sectors = sectors.flatten := by
  have all : ∀ rs ∈ sectors, decide (rs ≠ []) = true := fun rs member => by
    simpa using runsOn.2 rs member
  rw [own, List.take_of_length_le runsOn.1.le, List.takeWhile_eq_self_iff.mpr all]

/-- A list and one that it begins, with something behind it that is not a part of it: their
first items agree where the beginning is long enough, or nothing is behind it. -/
theorem take_append_iff {α : Type} {front whole behind : List α} {room : Nat}
    (isPrefix : front <+: whole) (atEnd : behind ≠ [] → front = whole) :
    (front ++ behind).take room = whole.take room ↔
      room ≤ front.length ∨ (front.length = whole.length ∧ behind = []) := by
  obtain ⟨rest, rfl⟩ := isPrefix
  constructor
  · intro same
    by_cases fits : room ≤ front.length
    · exact .inl fits
    have lengths := congrArg List.length same
    simp only [List.length_take, List.length_append] at lengths ⊢
    by_cases nothing : behind = []
    · rw [nothing, List.length_nil] at lengths
      exact .inr ⟨by omega, nothing⟩
    · have none : rest = [] := by simpa using atEnd nothing
      have some := List.length_pos_of_ne_nil nothing
      rw [none, List.length_nil] at lengths
      omega
  · rintro (fits | ⟨length, rfl⟩)
    · rw [List.take_append_of_le_length fits, List.take_append_of_le_length fits]
    · rw [List.length_append, Nat.left_eq_add, List.length_eq_zero_iff] at length
      rw [length]

namespace Image

variable (image : Image) {extent room : Nat}

/-- What a path lists: the records of the directory that it names, as far as there is room. -/
def listing (path : Path) (room : Nat) : Option (List DirEntry) :=
  (image.meaning path).bind fun node =>
    if node.isDir then
      (image.dirs node.extent).map fun sectors =>
        (sectors.flatten.take room).map fun r => r.slot.entry
    else none

/-- A path is resolved right, and lists what it should. -/
def Lists (path : Path) (room : Nat) : Prop :=
  image.Resolves path ∧
    readdir image.disc (init image.disc) path room = some (image.listing path room)

/-- What a listing has to meet: there is no room for more than the records in front of an empty
sector and in the first eight, or these are all, and no sector that is read behind the directory
has a record. -/
def Listable (extent room : Nat) : Prop :=
  ∀ sectors, image.dirs extent = some sectors →
    room ≤ (own 8 sectors).length ∨
      ((own 8 sectors).length = sectors.flatten.length ∧ ∀ k < 8, sectors.length ≤ k →
        (∀ j < k, Open image.disc (extent + j)) → ∀ buf, image.disc (extent + k) = some buf →
          slots buf = [])

variable {image}

/-- What is listed behind a directory. -/
theorem behind_iff (there : image.dirs extent = some sectors) :
    (if RunsOn 8 sectors then
      listFrom image.disc (8 - sectors.length) (extent + sectors.length) else some []) = some [] ↔
      ∀ k < 8, sectors.length ≤ k → (∀ j < k, Open image.disc (extent + j)) →
        ∀ buf, image.disc (extent + k) = some buf → slots buf = [] := by
  have small := extent_small there
  have sector {j : Nat} (inside : j < sectors.length) :
      Open image.disc (extent + j) ↔ sectors[j] ≠ [] :=
    open_iff there (List.getElem?_eq_getElem inside)
  split_ifs with runsOn
  · have room := runsOn.1
    rw [listFrom_eq_nil (by omega)]
    constructor
    · intro quiet k below behind open' buf read
      obtain ⟨d, rfl⟩ := Nat.exists_eq_add_of_le behind
      rw [← Nat.add_assoc] at read
      refine quiet d (by omega) (fun j before => ?_) buf read
      rw [Nat.add_assoc]
      exact open' _ (by omega)
    · intro quiet d below open' buf read
      rw [Nat.add_assoc] at read
      refine quiet _ (by omega) (Nat.le_add_right _ _) (fun j before => ?_) buf read
      rcases lt_or_ge j sectors.length with inside | past
      · exact (sector inside).mpr (runsOn.2 _ (List.getElem_mem inside))
      · obtain ⟨i, rfl⟩ := Nat.exists_eq_add_of_le past
        rw [← Nat.add_assoc]
        exact open' i (by omega)
  · refine iff_of_true rfl fun k below behind open' => absurd ⟨by omega, fun rs member => ?_⟩ runsOn
    obtain ⟨j, inside, rfl⟩ := List.mem_iff_getElem.mp member
    exact (sector inside).mp (open' j (by omega))

theorem listFrom_iff (there : image.dirs extent = some sectors) :
    (listFrom image.disc 8 extent).map (fun found => (found.take room).map Slot.entry) =
      some ((sectors.flatten.take room).map fun r => r.slot.entry) ↔
        image.Listable extent room := by
  have small := extent_small there
  rw [listFrom_own small fun k rs inside => image.sectors there inside]
  have behind := behind_iff there
  obtain ⟨foreign, listed⟩ : ∃ foreign, (if RunsOn 8 sectors then
      listFrom image.disc (8 - sectors.length) (extent + sectors.length) else some []) =
        some foreign := by
    split_ifs with runsOn
    · have room := runsOn.1
      exact exists_listFrom (by omega)
    · exact ⟨[], rfl⟩
  have atEnd : foreign.map Slot.entry ≠ [] → (own 8 sectors).map (fun r => r.slot.entry) =
      sectors.flatten.map fun r => r.slot.entry := by
    intro some
    split_ifs at listed with runsOn
    · rw [own_of_runsOn runsOn]
    · cases listed
      exact absurd rfl some
  have first := @take_append_iff _ _ _ _ room ((own_begins 8 sectors).map fun r => r.slot.entry)
    atEnd
  rw [listed, Option.some.injEq] at behind
  rw [List.map_eq_nil_iff, behind, List.length_map, List.length_map] at first
  rw [listed, Option.map_some, Option.map_some, Option.some.injEq, List.map_take,
    List.map_append, List.map_map, List.map_take]
  refine first.trans ⟨fun holds S there' => ?_, fun listable => listable sectors there⟩
  obtain rfl := Option.some.inj (there.symm.trans there')
  exact holds

/-- What a path names is a directory of the image, or a file. -/
theorem named_dir {comps : List (List UInt8)} {node found : Node}
    (known : node.isDir = true → ∃ sectors, image.dirs node.extent = some sectors)
    (named : image.named comps node = some found) (isDir : found.isDir = true) :
    ∃ sectors, image.dirs found.extent = some sectors := by
  induction comps generalizing node with
  | nil =>
    cases named
    exact known isDir
  | cons comp rest ih =>
    rw [Image.named] at named
    split_ifs at named with down
    obtain ⟨r, there, named⟩ := Option.bind_eq_some_iff.mp named
    obtain ⟨sectors, dir⟩ := known down
    refine ih (fun isDir => ?_) named
    obtain ⟨below, dir', -⟩ := image.children dir (find_mem dir there) isDir
    exact ⟨below, dir'⟩

theorem meaning_dir {path : Path} {node : Node} (names : image.meaning path = some node)
    (isDir : node.isDir = true) : ∃ sectors, image.dirs node.extent = some sectors := by
  obtain ⟨sectors, there, -⟩ := image.root
  exact named_dir (fun _ => ⟨sectors, there⟩) names isDir

/-- A path lists what it should exactly where it is resolved right and, if it names a directory,
the directory can be listed. -/
theorem readdir_iff (path : Path) (room : Nat) :
    image.Lists path room ↔ image.Resolves path ∧
      ∀ node, image.meaning path = some node → node.isDir = true →
        image.Listable node.extent room := by
  refine and_congr_right fun right => ?_
  have resolved : resolve image.disc (init image.disc) path = some (image.meaning path) :=
    right path (List.prefix_refl _) id
  rw [readdir, resolved, Option.bind_some, listing]
  rcases names : image.meaning path with _ | node
  · exact iff_of_true rfl nofun
  rw [Option.bind_some]
  simp only [Option.some.injEq, forall_eq']
  by_cases isDir : node.isDir = true
  · obtain ⟨sectors, there⟩ := meaning_dir names isDir
    rw [if_pos isDir, if_pos isDir, there, Option.map_some, imp_iff_right isDir,
      ← listFrom_iff there]
    rcases listFrom image.disc 8 node.extent with _ | found
    · exact iff_of_false (by nofun) (by nofun)
    · simp only [Option.map_some, Option.some.injEq]
  · rw [if_neg isDir, if_neg isDir]
    exact iff_of_true rfl fun dir => absurd dir isDir

/-! ## Files -/

/-- A byte of a file in one extent. -/
def byteAt (image : Image) (extent i : Nat) : UInt8 :=
  ((image.disc (extent + i / 2048)).getD Buffer.zero) (i % 2048)

/-- The bytes of a file from an offset on, as far as a buffer takes them. -/
def fileBytes (image : Image) (r : Record) (offset len : Nat) : List UInt8 :=
  (List.range' offset (min (offset + len) r.size - offset)).map (image.byteAt r.extent)

/-- The part of a file in one sector. -/
theorem slice_byteAt {extent off n : Nat} {buf : Buffer}
    (read : image.disc (extent + off / 2048) = some buf) (inside : off % 2048 + n ≤ 2048) :
    buf.slice (off % 2048) n = (List.range' off n).map (image.byteAt extent) := by
  rw [List.range'_eq_map_range, List.map_map, Buffer.slice]
  refine List.map_congr_left fun i inRange => ?_
  rw [List.mem_range] at inRange
  have sector : (off + i) / 2048 = off / 2048 := by omega
  have place : (off + i) % 2048 = off % 2048 + i := by omega
  rw [Function.comp, byteAt, sector, place, read, Option.getD_some]

theorem readFrom_file {extent size stop turns off : Nat}
    (held : ∀ k, k * 2048 < size → ∃ buf, image.disc (extent + k) = some buf)
    (inFile : stop ≤ size) (enough : stop ≤ off + turns) :
    readFrom image.disc extent stop turns off =
      some ((List.range' off (stop - off)).map (image.byteAt extent)) := by
  induction turns generalizing off with
  | zero =>
    rw [readFrom, Nat.sub_eq_zero_of_le (by omega : stop ≤ off), List.range'_zero, List.map_nil]
  | succ turns ih =>
    rw [readFrom]
    split_ifs with ends wraps
    · rw [Nat.sub_eq_zero_of_le ends, List.range'_zero, List.map_nil]
    · obtain ⟨buf, read⟩ := held (off / 2048) (by omega)
      have small := image.bounded read
      omega
    · obtain ⟨buf, read⟩ := held (off / 2048) (by omega)
      rw [read]
      dsimp only
      generalize count : min (2048 - off % 2048) (stop - off) = n
      rw [ih (by omega), Option.map_some, slice_byteAt read (by omega),
        ← List.map_append]
      have split : stop - off = n + (stop - (off + n)) := by omega
      rw [split, ← List.range'_append_1]

/-- A file of the image. -/
def IsFile (image : Image) (r : Record) : Prop :=
  ∃ extent sectors, image.dirs extent = some sectors ∧ r ∈ sectors.flatten ∧ r.isDir = false

/-- A file that is open is read right, at any offset. -/
theorem isoRead_file {r : Record} (isFile : image.IsFile r) {handles : Handles} {handle : Fin 16}
    (opened : handles handle = ⟨true, r.extent, r.size⟩) (len : BitVec 63) (offset : BitVec 64) :
    isoRead image.disc handles handle len.toNat offset.toNat =
      some (some (image.fileBytes r offset.toNat len.toNat)) := by
  obtain ⟨extent, sectors, there, member, file⟩ := isFile
  have size : r.size < 256 ^ 4 := Buffer.number_lt _ _ _
  have room := len.isLt
  have index := handle.isLt
  rw [isoRead, if_neg (by unfold noHandle; omega), dif_pos index]
  simp only [Fin.eta, opened, Bool.true_eq_false, if_false]
  rw [fileBytes]
  split_ifs with nothing wraps
  · have none : min (offset.toNat + len.toNat) r.size - offset.toNat = 0 := by omega
    rw [none, List.range'_zero, List.map_nil]
  · omega
  · rw [readFrom_file (image.files there member file) (min_le_right _ _) (by omega),
      Option.map_some]

/-! ## What is asked of the driver -/

/-- A question to the driver: to resolve a path, to list one, to resolve the name that is shown
for a record in the directory at a path, to read a file that is open. -/
inductive Query where
  | resolve (path : Path)
  | readdir (path : Path) (room : Nat)
  | back (path : Path) (r : Record)
  | read (r : Record) (handles : Handles) (handle : Fin 16) (len : BitVec 63)
      (offset : BitVec 64)

/-- A record is in the directory at a path. -/
def IsIn (image : Image) (r : Record) (path : Path) : Prop :=
  ∃ node sectors, image.meaning path = some node ∧ node.isDir = true ∧
    image.dirs node.extent = some sectors ∧ r ∈ sectors.flatten

/-- The path of the name that is shown for a record. -/
def shownPath (path : Path) (r : Record) : Path := path ++ slash :: r.slot.shown

/-- The answer is right. -/
def Answered (image : Image) : Query → Prop
  | .resolve path => image.Resolves path
  | .readdir path room => image.Lists path room
  | .back path r => image.IsIn r path →
      image.Resolves (shownPath path r) ∧ image.meaning (shownPath path r) = some r.node
  | .read r handles handle len offset => image.IsFile r →
      handles handle = ⟨true, r.extent, r.size⟩ →
        isoRead image.disc handles handle len.toNat offset.toNat =
          some (some (image.fileBytes r offset.toNat len.toNat))

/-- The searches for a path can pass; the root alone has one sector. -/
def Findable (image : Image) (path : Path) : Prop :=
  (components path = [] → image.rootSize = 2048) ∧
    image.Walkable (components path) image.rootExtent

/-- What a question has to meet. A file can always be read. -/
def Answerable (image : Image) : Query → Prop
  | .resolve path => image.Findable path
  | .readdir path room => image.Findable path ∧
      ∀ node, image.meaning path = some node → node.isDir = true →
        image.Listable node.extent room
  | .back path r => image.IsIn r path →
      image.Findable (shownPath path r) ∧ image.meaning (shownPath path r) = some r.node
  | .read .. => True

/-- The driver answers right exactly where the question meets its condition. -/
theorem answered_iff_answerable (image : Image) (query : Query) :
    image.Answered query ↔ image.Answerable query := by
  cases query with
  | resolve path => exact resolves_iff image path
  | readdir path room => exact (readdir_iff path room).trans (and_congr_left' (resolves_iff image path))
  | back path r => exact imp_congr_right fun _ => and_congr_left' (resolves_iff image _)
  | read r handles handle len offset =>
    exact iff_of_true (fun isFile opened => isoRead_file isFile opened len offset) trivial

/-! ## The root alone -/

/-- The bytes of a record with a small extent, size and name. -/
def recordBytes (extent low high flags : UInt8) (name : List UInt8) : List UInt8 :=
  let rl := UInt8.ofNat (33 + name.length + (name.length + 1) % 2)
  [rl, 0, extent, 0, 0, 0, 0, 0, 0, 0, low, high, 0, 0] ++ List.replicate 11 0 ++ [flags] ++
    List.replicate 6 0 ++ [UInt8.ofNat name.length] ++ name ++
    List.replicate ((name.length + 1) % 2) 0

/-- `.`, `..` and `HI.TXT;1`, as in the driver's own test. -/
def selfRecord : Record := ⟨recordBytes 17 0 8 2 [0], by decide, by decide, by decide⟩
def parentRecord : Record := ⟨recordBytes 17 0 8 2 [1], by decide, by decide, by decide⟩
def fileRecord : Record :=
  ⟨recordBytes 18 5 0 0 [0x48, 0x49, 0x2E, 0x54, 0x58, 0x54, 0x3B, 0x31], by decide, by decide,
    by decide⟩

def rootRecords : List Record := [selfRecord, parentRecord, fileRecord]

/-- The volume descriptor. -/
def descriptorBytes : Buffer := fun i =>
  if i = 0 then 1 else if i < 6 then magic.getD (i - 1) 0 else if i = 158 then 17
  else if i = 167 then 8 else 0

def discOf : Disc := fun lba =>
  if lba = 16 then some descriptorBytes
  else if lba = 17 then some fun i => (contents rootRecords).getD i 0
  else if lba = 18 then some Buffer.zero
  else none

/-- An image with one file. -/
def oneFile : Image where
  disc := discOf
  rootExtent := 17
  rootSize := 2048
  dirs extent := if extent = 17 then some [rootRecords] else none
  descriptor := ⟨descriptorBytes, rfl, rfl, by decide, by decide, by decide⟩
  root := ⟨[rootRecords], rfl, rfl⟩
  sectors {extent sectors k rs} there inside := by
    obtain ⟨rfl, same⟩ := Option.ite_none_right_eq_some.mp there
    obtain rfl := Option.some.inj same
    obtain ⟨rfl, rfl⟩ : k = 0 ∧ rs = rootRecords := by
      rcases k with _ | k
      · exact ⟨rfl, (Option.some.inj inside).symm⟩
      · cases inside
    exact ⟨_, rfl, by decide, fun _ _ => rfl⟩
  dots {extent sectors} there := by
    obtain ⟨rfl, same⟩ := Option.ite_none_right_eq_some.mp there
    obtain rfl := Option.some.inj same
    refine ⟨selfRecord, parentRecord, [fileRecord], rfl, by decide, by decide, ?_⟩
    intro r member
    obtain rfl := List.mem_singleton.mp member
    decide
  children {extent sectors r} there member isDir := by
    obtain ⟨rfl, same⟩ := Option.ite_none_right_eq_some.mp there
    obtain rfl := Option.some.inj same
    have cases : r = selfRecord ∨ r = parentRecord ∨ r = fileRecord := by
      simpa [rootRecords] using member
    rcases cases with rfl | rfl | rfl
    · exact ⟨[rootRecords], if_pos (by decide), by decide⟩
    · exact ⟨[rootRecords], if_pos (by decide), by decide⟩
    · exact absurd isDir (by decide)
  files {extent sectors r} there member file k inFile := by
    obtain ⟨rfl, same⟩ := Option.ite_none_right_eq_some.mp there
    obtain rfl := Option.some.inj same
    have cases : r = selfRecord ∨ r = parentRecord ∨ r = fileRecord := by
      simpa [rootRecords] using member
    rcases cases with rfl | rfl | rfl
    · exact absurd file (by decide)
    · exact absurd file (by decide)
    · have size : fileRecord.size = 5 := by decide
      obtain rfl : k = 0 := by omega
      have extent : fileRecord.extent = 18 := by decide
      exact ⟨Buffer.zero, by rw [extent]; rfl⟩
  bounded {lba buf} read := by
    unfold discOf at read
    split_ifs at read <;> omega

/-- The name `.` is not found in the root. -/
theorem dot_unanswered : ¬ ∀ (image : Image) (query : Query), image.Answered query := by
  intro always
  have resolved := always oneFile (.resolve [slash, dot]) [slash, dot] (List.prefix_refl _) id
  have nothing : oneFile.resolved [slash, dot] = some none := by decide +kernel
  have named : oneFile.meaning [slash, dot] = some ⟨17, 2048, true⟩ := by decide +kernel
  rw [nothing, named] at resolved
  cases resolved

end Image

end DBSos.Iso
