import DBSos.Fat.Allocation

/-!
# An entry written and read back

The sector of an entry is found by the volume's sector size and held in a buffer of 512
bytes, and a write goes to the second table too, wherever the first one is said to end.
-/

namespace DBSos.Fat

variable {bpb : Bpb} {disk : Disk} {cluster other value : Nat} {readable writable : Nat → Bool}

/-- A write returns, the entry reads back as written and every other entry of the volume
reads as before. -/
def RoundTrips (bpb : Bpb) (disk : Disk) (cluster value : Nat) : Prop :=
  ∃ ok disk', fatWriteEntry bpb disk cluster value = some (ok, disk') ∧
    fatReadEntry bpb disk' cluster = some value ∧
    ∀ other, InVolume bpb other → other ≠ cluster →
      fatReadEntry bpb disk' other = fatReadEntry bpb disk other

/-- Where the write goes besides. -/
def mirrorSector (bpb : Bpb) (cluster : Nat) : Nat := entrySector bpb cluster + fatSectors bpb

/-- The entry lies in its buffer, its sector can be read and written, and the second write
does not hit a sector with entries of other clusters of the volume. -/
structure Separable (bpb : Bpb) (readable writable : Nat → Bool) (cluster : Nat) : Prop where
  inBuffer : InBuffer bpb cluster
  sectorReadable : readable (entrySector bpb cluster) = true
  sectorWritable : writable (entrySector bpb cluster) = true
  apart : 1 < bpb.numFats → 0 < fatSectors bpb →
    readable (mirrorSector bpb cluster) = true → writable (mirrorSector bpb cluster) = true →
    ∀ other, InVolume bpb other → other ≠ cluster → InBuffer bpb other →
      entrySector bpb other ≠ mirrorSector bpb cluster

/-! ## The sectors behind a write -/

theorem writeTable_of_not_writable {sector : Nat} (buf : Sector)
    (writable : disk.writable sector = false) : writeTable bpb disk sector buf = (false, disk) := by
  simp [writeTable, Disk.write, writable]

theorem writeTable_same {sector : Nat} (buf : Sector) (writable : disk.writable sector = true) :
    (writeTable bpb disk sector buf).2.sectors sector = buf := by
  simp only [writeTable, Disk.write_fst, writable, if_true]
  split_ifs
  · by_cases same : sector = sector + fatSectors bpb
    · rw [← same]
      exact Disk.write_same _ _ _ (by rw [Disk.write_writable]; exact writable)
    · rw [Disk.write_other _ _ _ same, Disk.write_same _ _ _ writable]
  · exact Disk.write_same _ _ _ writable

/-- The second write. -/
theorem writeTable_mirror {sector : Nat} (buf : Sector) (writable : disk.writable sector = true)
    (many : 1 < bpb.numFats) (mirror : disk.writable (sector + fatSectors bpb) = true) :
    (writeTable bpb disk sector buf).2.sectors (sector + fatSectors bpb) = buf := by
  simp only [writeTable, Disk.write_fst, writable, if_true, if_pos many]
  exact Disk.write_same _ _ _ (by rw [Disk.write_writable]; exact mirror)

/-- Without a writable mirror only the sector itself changes. -/
theorem writeTable_unmirrored {sector lba : Nat} (buf : Sector) (notFirst : lba ≠ sector)
    (single : ¬ (1 < bpb.numFats ∧ disk.writable (sector + fatSectors bpb) = true)) :
    (writeTable bpb disk sector buf).2.sectors lba = disk.sectors lba := by
  by_cases many : 1 < bpb.numFats
  · have closed : disk.writable (sector + fatSectors bpb) = false := by
      simpa using fun open_ => single ⟨many, open_⟩
    simp only [writeTable]
    split_ifs with written
    · rw [Disk.write, if_neg (by simp [closed])]
      exact Disk.write_other _ _ _ notFirst
    · exact Disk.write_other _ _ _ notFirst
  · exact writeTable_other buf notFirst fun more => absurd more many

/-- An entry reads the same when its sector does. -/
theorem fatReadEntry_congr {disk' : Disk} (access : disk'.readable = disk.readable)
    (same : disk.readable (entrySector bpb cluster) = true → InBuffer bpb cluster →
      entryOf bpb.fatType (window bpb (disk'.sectors (entrySector bpb cluster)) cluster) cluster =
        entryOf bpb.fatType (window bpb (disk.sectors (entrySector bpb cluster)) cluster) cluster) :
    fatReadEntry bpb disk' cluster = fatReadEntry bpb disk cluster := by
  rw [fatReadEntry_window, fatReadEntry_window, Disk.read, Disk.read, access]
  by_cases open_ : disk.readable (entrySector bpb cluster) = true
  · rw [if_pos open_, if_pos open_]
    dsimp only
    by_cases inBuffer : InBuffer bpb cluster
    · rw [if_pos inBuffer, if_pos inBuffer, same open_ inBuffer]
    · rw [if_neg inBuffer, if_neg inBuffer]
  · rw [if_neg open_, if_neg open_]

/-! ## Zeros and ones -/

theorem window_zero (bpb : Bpb) (cluster x : Nat) : window bpb Sector.zero cluster x = 0 := rfl

theorem window_ones (bpb : Bpb) (cluster x : Nat) :
    window bpb (fun _ => 255) cluster x = 255 := rfl

theorem entryOf_zero (type : FatType) {byte : Nat → Nat} (zeros : ∀ x, byte x = 0) (cluster : Nat) :
    entryOf type byte cluster = 0 := by
  cases type <;> simp [entryOf, zeros]

theorem entryOf_ones (type : FatType) {byte : Nat → Nat} (ones : ∀ x, byte x = 255)
    (cluster : Nat) : entryOf type byte cluster ≠ 0 := by
  cases type <;> simp only [entryOf, ones]
  · split_ifs <;> omega
  · omega
  · omega

/-- An entry of zero put into zeros. -/
theorem put_zeros (type : FatType) {byte : Nat → Nat} (zeros : ∀ x, byte x = 0)
    (cluster pos : Nat) :
    Sector.zero.put pos (lowBytes type.entryBytes (packedOf type byte cluster 0)) = Sector.zero := by
  have packed : packedOf type byte cluster 0 = 0 := by
    cases type <;> simp [packedOf, zeros]
  funext i
  rw [packed, Sector.put, lowBytes]
  split_ifs with front
  · rfl
  · rw [List.getElem?_map]
    cases (List.range type.entryBytes)[i - pos]? with
    | none => rfl
    | some j => simp [Sector.zero]

/-! ## What a write needs -/

theorem fatEoc_ne_one (bpb : Bpb) : fatEoc bpb ≠ 1 := by
  unfold fatEoc
  cases bpb.fatType <;> decide

theorem one_lt_entryLimit (type : FatType) : 1 < type.entryLimit := by
  cases type <;> decide

/-- On an empty disk only an entry that can be read, written and lies in its buffer reads
back as 1. -/
theorem roundTrips_one (trips : RoundTrips bpb ⟨fun _ => Sector.zero, readable, writable⟩ cluster 1) :
    InBuffer bpb cluster ∧ readable (entrySector bpb cluster) = true ∧
      writable (entrySector bpb cluster) = true := by
  obtain ⟨ok, disk', wrote, read, -⟩ := trips
  rw [fatWriteEntry_window, Disk.read] at wrote
  by_cases open_ : readable (entrySector bpb cluster) = true
  · rw [if_pos open_] at wrote
    dsimp only at wrote
    by_cases inBuffer : InBuffer bpb cluster
    · refine ⟨inBuffer, open_, by_contra fun closed => ?_⟩
      rw [if_pos inBuffer, writeTable_of_not_writable _ (by simpa using closed)] at wrote
      cases wrote
      rw [fatReadEntry_window, Disk.read, if_pos open_] at read
      dsimp only at read
      rw [if_pos inBuffer, entryOf_zero _ (window_zero bpb cluster)] at read
      cases read
    · rw [if_neg inBuffer] at wrote
      cases wrote
  · rw [if_neg open_] at wrote
    cases wrote
    rw [fatReadEntry_window, Disk.read, if_neg open_] at read
    exact absurd (Option.some.inj read) (fatEoc_ne_one bpb)

/-- Writing a zero into an empty table overwrites the ones of another entry that the
second write hits. -/
theorem not_roundTrips_zero (many : 1 < bpb.numFats) (some : 0 < fatSectors bpb)
    (inBuffer : InBuffer bpb cluster) (open_ : readable (entrySector bpb cluster) = true)
    (free : writable (entrySector bpb cluster) = true)
    (mirrorOpen : readable (mirrorSector bpb cluster) = true)
    (mirrorFree : writable (mirrorSector bpb cluster) = true) (inside : InVolume bpb other)
    (differs : other ≠ cluster) (otherInBuffer : InBuffer bpb other)
    (hit : entrySector bpb other = mirrorSector bpb cluster) :
    ¬ RoundTrips bpb ⟨fun lba => if lba = mirrorSector bpb cluster then fun _ => 255
      else Sector.zero, readable, writable⟩ cluster 0 := by
  rintro ⟨ok, disk', wrote, -, others⟩
  have unchanged := others other inside differs
  have away : entrySector bpb cluster ≠ mirrorSector bpb cluster := by
    unfold mirrorSector
    omega
  rw [fatWriteEntry_window, Disk.read, if_pos open_] at wrote
  dsimp only at wrote
  rw [if_pos inBuffer, if_neg away, put_zeros _ (window_zero bpb cluster)] at wrote
  have isDisk := congrArg Prod.snd (Option.some.inj wrote)
  dsimp only at isDisk
  have zeros : disk'.sectors (mirrorSector bpb cluster) = Sector.zero := by
    rw [← isDisk]
    exact writeTable_mirror _ free many mirrorFree
  have access : disk'.readable = readable := by
    rw [← isDisk, writeTable_readable]
  rw [fatReadEntry_window, fatReadEntry_window, Disk.read, Disk.read, access, hit,
    if_pos mirrorOpen, if_pos mirrorOpen, zeros] at unchanged
  dsimp only at unchanged
  rw [if_pos otherInBuffer, if_pos otherInBuffer, if_pos rfl,
    entryOf_zero _ (window_zero bpb other)] at unchanged
  exact entryOf_ones bpb.fatType (window_ones bpb other) other (Option.some.inj unchanged).symm

/-! ## What a write does -/

/-- In the sector of an entry a write changes that entry alone. -/
theorem entryOf_put (fits : value < bpb.fatType.entryLimit) (buf : Sector)
    (sameSector : entrySector bpb other = entrySector bpb cluster) :
    let buf' := buf.put (entryPos bpb cluster) (lowBytes bpb.fatType.entryBytes
      (packedOf bpb.fatType (window bpb buf cluster) cluster value))
    entryOf bpb.fatType (window bpb buf' cluster) cluster = value ∧
      (other ≠ cluster → entryOf bpb.fatType (window bpb buf' other) other =
        entryOf bpb.fatType (window bpb buf other) other) := by
  intro buf'
  have base : bpb.fatType.entryOffset other / bpb.bytesPerSector =
      bpb.fatType.entryOffset cluster / bpb.bytesPerSector := Nat.add_left_cancel sameSector
  have shared : ∀ b : Sector, window bpb b other = window bpb b cluster := fun b => by
    funext x
    rw [window, window, base]
  have length : (lowBytes bpb.fatType.entryBytes
      (packedOf bpb.fatType (window bpb buf cluster) cluster value)).length =
      bpb.fatType.entryBytes := by simp [lowBytes]
  have split := entryPos_add bpb cluster
  have splitOther := entryPos_add bpb other
  rw [base] at splitOther
  rw [shared, shared]
  refine entryOf_relink (window_lt bpb buf cluster) fits (fun i below => ?_) other
    (fun x above below apart => ?_)
  · rw [window_at]
    dsimp only [buf']
    rw [Sector.put_inside buf (below.trans_eq length.symm)]
    simp [lowBytes]
  · rw [window, window]
    dsimp only [buf']
    rw [Sector.put_outside buf (by omega)]

theorem Separable.roundTrips (separable : Separable bpb readable writable cluster)
    (sectors : Nat → Sector) (fits : value < bpb.fatType.entryLimit) :
    RoundTrips bpb ⟨sectors, readable, writable⟩ cluster value := by
  have inBuffer := separable.inBuffer
  let buf' := (sectors (entrySector bpb cluster)).put (entryPos bpb cluster)
    (lowBytes bpb.fatType.entryBytes (packedOf bpb.fatType
      (window bpb (sectors (entrySector bpb cluster)) cluster) cluster value))
  let disk' := (writeTable bpb ⟨sectors, readable, writable⟩ (entrySector bpb cluster) buf').2
  have wrote : fatWriteEntry bpb ⟨sectors, readable, writable⟩ cluster value =
      some (writeTable bpb ⟨sectors, readable, writable⟩ (entrySector bpb cluster) buf') := by
    rw [fatWriteEntry_window, Disk.read, if_pos separable.sectorReadable]
    exact if_pos inBuffer
  have access : disk'.readable = readable := writeTable_readable _ _
  have first : disk'.sectors (entrySector bpb cluster) = buf' :=
    writeTable_same _ separable.sectorWritable
  refine ⟨_, disk', wrote, ?_, fun other inside differs => ?_⟩
  · rw [fatReadEntry_window, Disk.read, access, if_pos separable.sectorReadable, first]
    dsimp only
    rw [if_pos inBuffer]
    exact congrArg some (entryOf_put fits _ rfl).1
  · refine fatReadEntry_congr access fun open_ otherInBuffer => ?_
    by_cases same : entrySector bpb other = entrySector bpb cluster
    · rw [same, first]
      exact (entryOf_put fits _ same).2 differs
    · -- another sector is as it was, or it is the mirror
      by_cases mirrored : 1 < bpb.numFats ∧ writable (mirrorSector bpb cluster) = true ∧
          entrySector bpb other = mirrorSector bpb cluster
      · obtain ⟨many, free, hit⟩ := mirrored
        have some : 0 < fatSectors bpb := by
          unfold mirrorSector at hit
          omega
        rw [hit] at open_
        exact absurd hit (separable.apart many some open_ free other inside differs otherInBuffer)
      · have unchanged : disk'.sectors (entrySector bpb other) = sectors (entrySector bpb other) := by
          by_cases hit : entrySector bpb other = mirrorSector bpb cluster
          · exact writeTable_unmirrored _ same fun both => mirrored ⟨both.1, both.2, hit⟩
          · exact writeTable_other _ same fun _ => hit
        rw [unchanged]

/-- On a device with these readable and writable sectors every value reads back from the
entry of a cluster, and nothing else changes, whatever the table holds, exactly when the
entry is separable. -/
theorem roundTrips_iff (bpb : Bpb) (readable writable : Nat → Bool) (cluster : Nat) :
    (∀ sectors value, value < bpb.fatType.entryLimit →
        RoundTrips bpb ⟨sectors, readable, writable⟩ cluster value) ↔
      Separable bpb readable writable cluster := by
  constructor
  · intro trips
    obtain ⟨inBuffer, open_, free⟩ :=
      roundTrips_one (trips _ 1 (one_lt_entryLimit bpb.fatType))
    refine ⟨inBuffer, open_, free, ?_⟩
    intro many some mirrorOpen mirrorFree other inside differs otherInBuffer hit
    exact not_roundTrips_zero many some inBuffer open_ free mirrorOpen mirrorFree inside differs
      otherInBuffer hit (trips _ 0 ((one_lt_entryLimit _).trans' Nat.zero_lt_one))
  · intro separable sectors value fits
    exact separable.roundTrips sectors fits

/-- The boot sector of a volume of 400 sectors with a table of two sectors. -/
def wideBootSector : Sector := fun i =>
  match i with
  | 12 => 2
  | 13 => 1
  | 14 => 1
  | 16 => 1
  | 17 => 16
  | 19 => 0x90
  | 20 => 1
  | 22 => 2
  | _ => 0

def wideDisk : Disk where
  sectors lba := if lba = 0 then wideBootSector else Sector.zero
  readable lba := lba < 400
  writable lba := lba < 400

/-- The 12-bit entry of cluster 341 starts in the last byte of its sector. -/
theorem fatWriteEntry_straddles :
    ∃ bpb, readBpb wideDisk = some (some bpb) ∧ bpb.fatType = .fat12 ∧ InVolume bpb 341 ∧
      fatWriteEntry bpb wideDisk 341 5 = none ∧ ¬ RoundTrips bpb wideDisk 341 5 := by
  have boot : (readBpb wideDisk).any (fun read => read.any fun bpb =>
      decide (bpb.fatType = .fat12 ∧ InVolume bpb 341 ∧
        (fatWriteEntry bpb wideDisk 341 5).isNone = true)) = true := by
    decide +kernel
  obtain ⟨read, isRead, some⟩ := (Option.any_eq_true _ _).mp boot
  obtain ⟨bpb, rfl, checked⟩ := (Option.any_eq_true _ _).mp some
  obtain ⟨type, inside, straddles⟩ := of_decide_eq_true checked
  have none := Option.isNone_iff_eq_none.mp straddles
  refine ⟨bpb, isRead, type, inside, none, ?_⟩
  rintro ⟨ok, disk', wrote, -⟩
  rw [none] at wrote
  cases wrote

end DBSos.Fat
