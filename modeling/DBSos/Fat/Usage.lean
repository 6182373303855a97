import DBSos.Fat.DirectoryEnd

/-!
# Which clusters stay in use

Marking a cluster, linking it behind a chain and writing data never make the entry of a
cluster zero, also where a number behind the volume is taken. Freeing never makes an entry
other than zero.
-/

namespace DBSos.Fat

variable {bpb : Bpb} {disk disk' : Disk} {dir cluster value : Nat}

/-- Nothing in front of the tables or in them differs. -/
structure KeepsTables (bpb : Bpb) (disk disk' : Disk) : Prop where
  readable : disk'.readable = disk.readable
  writable : disk'.writable = disk.writable
  same : ∀ lba < bpb.reservedSectors + bpb.numFats * fatSectors bpb,
    disk'.sectors lba = disk.sectors lba

/-- No cluster of the volume that is in use becomes free. -/
structure KeepsUsed (bpb : Bpb) (disk disk' : Disk) : Prop where
  readable : disk'.readable = disk.readable
  writable : disk'.writable = disk.writable
  used : ∀ c, InVolume bpb c → fatEntry bpb disk c ≠ 0 → fatEntry bpb disk' c ≠ 0

theorem KeepsUsed.refl : KeepsUsed bpb disk disk := ⟨rfl, rfl, fun _ _ used => used⟩

theorem KeepsUsed.trans {middle : Disk} (first : KeepsUsed bpb disk middle)
    (second : KeepsUsed bpb middle disk') : KeepsUsed bpb disk disk' where
  readable := second.readable.trans first.readable
  writable := second.writable.trans first.writable
  used := fun c inside used => second.used c inside (first.used c inside used)

theorem KeepsTables.trans {middle : Disk} (first : KeepsTables bpb disk middle)
    (second : KeepsTables bpb middle disk') : KeepsTables bpb disk disk' where
  readable := second.readable.trans first.readable
  writable := second.writable.trans first.writable
  same := fun lba below => (second.same lba below).trans (first.same lba below)

theorem KeepsUsed.tables (kept : KeepsUsed bpb disk disk') (tables : Tables bpb disk) :
    Tables bpb disk' :=
  tables.of_access kept.readable kept.writable

/-! ## Writing data -/

/-- An entry in the table depends on the tables alone. -/
theorem KeepsTables.fatEntry_eq (kept : KeepsTables bpb disk disk') (tables : Tables bpb disk)
    (inTable : InFirstTable bpb cluster) : fatEntry bpb disk' cluster = fatEntry bpb disk cluster := by
  unfold InFirstTable at inTable
  have more : fatSectors bpb ≤ bpb.numFats * fatSectors bpb :=
    Nat.le_mul_of_pos_left _ tables.numFats
  rw [DBSos.Fat.fatEntry_eq, DBSos.Fat.fatEntry_eq]
  refine entryOf_congr fun i inside => ?_
  rw [tableByte, tableByte, kept.same _ (by omega)]

theorem KeepsTables.keepsUsed (kept : KeepsTables bpb disk disk') (tables : Tables bpb disk) :
    KeepsUsed bpb disk disk' where
  readable := kept.readable
  writable := kept.writable
  used := fun c inside used => by
    rw [kept.fatEntry_eq tables (tables.covers c inside.2)]
    exact used

theorem keepsTables_write {lba : Nat} (buf : Sector)
    (behind : bpb.reservedSectors + bpb.numFats * fatSectors bpb ≤ lba) :
    KeepsTables bpb disk (disk.write lba buf).2 where
  readable := Disk.write_readable _ _ _
  writable := Disk.write_writable _ _ _
  same := fun _ below => Disk.write_other _ _ _ (by omega)

theorem keepsTables_zeroFrom {lba : Nat} (count : Nat)
    (behind : bpb.reservedSectors + bpb.numFats * fatSectors bpb ≤ lba) :
    KeepsTables bpb disk (disk.zeroFrom lba count) where
  readable := Disk.zeroFrom_readable _ _ _
  writable := Disk.zeroFrom_writable _ _ _
  same := fun _ below => Disk.zeroFrom_other _ _ (.inl (by omega))

/-- The sectors of a number taken for a cluster lie behind the tables. -/
theorem clusterToLba_behind (tables : Tables bpb disk) {lba : Nat}
    (isLba : clusterToLba bpb cluster = some lba) :
    bpb.reservedSectors + bpb.numFats * fatSectors bpb ≤ lba := by
  have start := tables.dataStart
  unfold clusterToLba at isLba
  split_ifs at isLba
  rw [← Option.some.inj isLba]
  omega

/-- So do those of a directory, wherever its chain leads. -/
theorem dirSectorLba_behind (tables : Tables bpb disk) (other : Disk) {sec lba : Nat}
    (found : dirSectorLba bpb other dir sec = some (some lba)) :
    bpb.reservedSectors + bpb.numFats * fatSectors bpb ≤ lba := by
  unfold dirSectorLba at found
  split_ifs at found
  · cases found
  · cases found
  · rw [← Option.some.inj (Option.some.inj found)]
    omega
  · obtain ⟨reached, -, later⟩ := Option.bind_eq_some_iff.mp found
    cases reached with
    | none => cases Option.some.inj later
    | some c =>
      obtain ⟨first, isLba, whole⟩ := Option.bind_eq_some_iff.mp later
      have behind := clusterToLba_behind tables isLba
      rw [← Option.some.inj (Option.some.inj whole)]
      omega

theorem writeDirSector_keepsTables (tables : Tables bpb disk) {sec : Nat} {buf : Sector} {ok : Bool}
    (wrote : writeDirSector bpb disk dir sec buf = some (ok, disk')) :
    KeepsTables bpb disk disk' := by
  obtain ⟨lba, found, later⟩ := Option.bind_eq_some_iff.mp wrote
  cases lba with
  | none =>
    obtain rfl := congrArg Prod.snd (Option.some.inj later)
    exact ⟨rfl, rfl, fun _ _ => rfl⟩
  | some lba =>
    obtain rfl := congrArg Prod.snd (Option.some.inj later)
    exact keepsTables_write buf (dirSectorLba_behind tables disk found)

/-! ## Writing entries -/

theorem fatWriteEntry_access (tables : Tables bpb disk) {ok : Bool}
    (wrote : fatWriteEntry bpb disk cluster value = some (ok, disk')) :
    disk'.readable = disk.readable ∧ disk'.writable = disk.writable := by
  rcases fatWriteEntry_some tables wrote with rfl | ⟨-, rfl⟩
  · exact ⟨rfl, rfl⟩
  · exact ⟨writeTable_readable _ _, writeTable_writable _ _⟩

/-- An entry that is not zero keeps every cluster in use, wherever it is put. -/
theorem fatWriteEntry_keepsUsed (tables : Tables bpb disk) (nonzero : value ≠ 0)
    (fits : value < bpb.fatType.entryLimit) {ok : Bool}
    (wrote : fatWriteEntry bpb disk cluster value = some (ok, disk')) : KeepsUsed bpb disk disk' := by
  obtain ⟨readable, writable⟩ := fatWriteEntry_access tables wrote
  refine ⟨readable, writable, fun c inside used => ?_⟩
  by_cases here : c = cluster
  · subst here
    rw [(fatWriteEntry_relinks tables inside.2 fits wrote).entry]
    exact nonzero
  · rw [fatWriteEntry_others tables fits wrote (tables.covers c inside.2) here]
    exact used

/-- A zero leaves every other entry as it is. -/
theorem fatWriteEntry_keepsFree (tables : Tables bpb disk) {ok : Bool}
    (wrote : fatWriteEntry bpb disk cluster 0 = some (ok, disk')) {c : Nat}
    (inside : InVolume bpb c) (free : fatEntry bpb disk c = 0) : fatEntry bpb disk' c = 0 := by
  have limit : 0 < bpb.fatType.entryLimit := (Nat.zero_le _).trans_lt (fatEoc_lt bpb)
  by_cases here : c = cluster
  · subst here
    exact (fatWriteEntry_relinks tables inside.2 limit wrote).entry
  · rw [fatWriteEntry_others tables limit wrote (tables.covers c inside.2) here]
    exact free

/-! ## Growing a directory -/

/-- The search returns nothing above its bound. -/
theorem allocCluster_lt {new : Nat} (found : allocCluster bpb disk = some new) :
    new < bpb.fatType.entryLimit := by
  have limit : bpb.fatType.allocMax ≤ bpb.fatType.entryLimit := by
    unfold FatType.allocMax FatType.entryLimit
    cases bpb.fatType <;> decide
  have low : 2 ≤ bpb.fatType.allocMax := by
    unfold FatType.allocMax
    cases bpb.fatType <;> decide
  unfold allocCluster at found
  rcases allocFrom_cases bpb disk (bpb.fatType.allocMax - 2) 2 with
    ⟨-, none⟩ | ⟨n, above, below, -, ⟨-, some⟩ | ⟨-, none⟩⟩
  · have zero := Option.some.inj (none.symm.trans found)
    omega
  · have same := Option.some.inj (some.symm.trans found)
    omega
  · cases none.symm.trans found

theorem extendDir_keepsUsed (tables : Tables bpb disk) {extended : Option Nat}
    (done : extendDir bpb disk dir = some (extended, disk')) : KeepsUsed bpb disk disk' := by
  obtain ⟨new, allocated, later⟩ := Option.bind_eq_some_iff.mp done
  have fits := allocCluster_lt allocated
  split_ifs at later with zero
  · obtain rfl := congrArg Prod.snd (Option.some.inj later)
    exact .refl
  obtain ⟨⟨ok, marked⟩, wrote, later⟩ := Option.bind_eq_some_iff.mp later
  have first := fatWriteEntry_keepsUsed tables (fatEoc_ne_zero bpb) (fatEoc_lt bpb) wrote
  obtain ⟨last, -, later⟩ := Option.bind_eq_some_iff.mp later
  cases last with
  | none =>
    obtain rfl := congrArg Prod.snd (Option.some.inj later)
    exact first
  | some last =>
    obtain ⟨⟨ok', linked⟩, wrote', later⟩ := Option.bind_eq_some_iff.mp later
    obtain rfl := congrArg Prod.snd (Option.some.inj later)
    exact first.trans (fatWriteEntry_keepsUsed (first.tables tables) zero fits wrote')

theorem dirSectorFor_keepsUsed (tables : Tables bpb disk) {sec : Nat} {sector : Option Sector}
    (done : dirSectorFor bpb disk dir sec = some (sector, disk')) : KeepsUsed bpb disk disk' := by
  obtain ⟨read, -, later⟩ := Option.bind_eq_some_iff.mp done
  cases read with
  | some buf =>
    obtain rfl := congrArg Prod.snd (Option.some.inj later)
    exact .refl
  | none =>
    dsimp only at later
    split_ifs at later with root
    · obtain rfl := congrArg Prod.snd (Option.some.inj later)
      exact .refl
    obtain ⟨⟨extended, grown⟩, extends_, later⟩ := Option.bind_eq_some_iff.mp later
    have first := extendDir_keepsUsed tables extends_
    cases extended with
    | none =>
      obtain rfl := congrArg Prod.snd (Option.some.inj later)
      exact first
    | some new =>
      obtain ⟨lba, isLba, later⟩ := Option.bind_eq_some_iff.mp later
      obtain ⟨again, -, later⟩ := Option.bind_eq_some_iff.mp later
      obtain rfl := congrArg Prod.snd (Option.some.inj later)
      exact first.trans ((keepsTables_zeroFrom _
        (clusterToLba_behind tables isLba)).keepsUsed (first.tables tables))

/-- Adding an entry to a directory frees nothing. -/
theorem addFrom_keepsUsed {short : List UInt8} {attr : UInt8} {size left sec : Nat}
    {added : Option Nat} (tables : Tables bpb disk)
    (done : addFrom bpb dir short attr cluster size left sec disk = some (added, disk')) :
    KeepsUsed bpb disk disk' := by
  induction left generalizing sec disk with
  | zero =>
    obtain rfl := congrArg Prod.snd (Option.some.inj done)
    exact .refl
  | succ left ih =>
    obtain ⟨⟨sector, grown⟩, found, later⟩ := Option.bind_eq_some_iff.mp done
    have first := dirSectorFor_keepsUsed tables found
    cases sector with
    | none =>
      obtain rfl := congrArg Prod.snd (Option.some.inj later)
      exact first
    | some buf =>
      dsimp only at later
      cases place : freeEntry buf with
      | none =>
        rw [place] at later
        exact first.trans (ih (first.tables tables) later)
      | some i =>
        rw [place] at later
        obtain ⟨⟨ok, written⟩, wrote, later⟩ := Option.bind_eq_some_iff.mp later
        obtain rfl := congrArg Prod.snd (Option.some.inj later)
        have grownTables := first.tables tables
        exact first.trans
          ((writeDirSector_keepsTables grownTables wrote).keepsUsed grownTables)

theorem initDirCluster_keepsTables (tables : Tables bpb disk) {parent : Nat}
    (done : initDirCluster bpb disk cluster parent = some disk') : KeepsTables bpb disk disk' := by
  obtain ⟨lba, isLba, later⟩ := Option.bind_eq_some_iff.mp done
  have behind := clusterToLba_behind tables isLba
  obtain rfl := Option.some.inj later
  exact (keepsTables_write _ behind).trans (keepsTables_zeroFrom _ (by omega))

/-! ## Freeing -/

theorem freeFrom_low {left : Nat} (low : cluster < 2) :
    freeFrom bpb left cluster disk = some disk := by
  cases left with
  | zero => rfl
  | succ left => rw [freeFrom, if_neg (fun goes => absurd goes.2 (by omega))]

/-- A free cluster stays free. -/
theorem freeFrom_keepsFree {left : Nat} (tables : Tables bpb disk) {c : Nat}
    (inside : InVolume bpb c) (free : fatEntry bpb disk c = 0)
    (freed : freeFrom bpb left cluster disk = some disk') : fatEntry bpb disk' c = 0 := by
  induction left generalizing cluster disk with
  | zero =>
    obtain rfl := Option.some.inj freed
    exact free
  | succ left ih =>
    rw [freeFrom] at freed
    split_ifs at freed with goes
    · obtain ⟨next, -, later⟩ := Option.bind_eq_some_iff.mp freed
      obtain ⟨⟨ok, middle⟩, wrote, later⟩ := Option.bind_eq_some_iff.mp later
      obtain ⟨readable, writable⟩ := fatWriteEntry_access tables wrote
      exact ih (tables.of_access readable writable)
        (fatWriteEntry_keepsFree tables wrote inside free) later
    · obtain rfl := Option.some.inj freed
      exact free

/-- The first step of `free_chain`. -/
theorem freeChain_step (tables : Tables bpb disk) (inside : InVolume bpb cluster)
    (freed : freeChain bpb disk cluster = some disk') :
    ∃ ok middle, fatWriteEntry bpb disk cluster 0 = some (ok, middle) ∧
      freeFrom bpb 99999 (fatEntry bpb disk cluster) middle = some disk' := by
  have goes : ¬ fatIsEoc bpb cluster ∧ 2 ≤ cluster :=
    ⟨by simp [tables.not_eoc inside], inside.1⟩
  rw [freeChain, freeFrom, if_pos goes] at freed
  obtain ⟨next, read, later⟩ := Option.bind_eq_some_iff.mp freed
  obtain ⟨⟨ok, middle⟩, wrote, later⟩ := Option.bind_eq_some_iff.mp later
  rw [← (fatReadEntry_eq_some tables inside read).2] at later
  exact ⟨ok, middle, wrote, later⟩

/-- A cluster whose chain was freed is free. -/
theorem freeChain_frees (tables : Tables bpb disk) (inside : InVolume bpb cluster)
    (freed : freeChain bpb disk cluster = some disk') : fatEntry bpb disk' cluster = 0 := by
  have limit : 0 < bpb.fatType.entryLimit := (Nat.zero_le _).trans_lt (fatEoc_lt bpb)
  obtain ⟨ok, middle, wrote, later⟩ := freeChain_step tables inside freed
  have relinks := fatWriteEntry_relinks tables inside.2 limit wrote
  exact freeFrom_keepsFree (relinks.tables tables) inside relinks.entry later

/-! ## Numbers behind the volume -/

/-- No number behind the last cluster reads as free or can come to: its sector cannot be
read, its entry leaves the buffer, or it lies in the table and is not zero. -/
def Confined (bpb : Bpb) (disk : Disk) : Prop :=
  ∀ n, bpb.totalClusters + 2 ≤ n → n < bpb.fatType.allocMax →
    disk.readable (entrySector bpb n) = false ∨ ¬ InBuffer bpb n ∨
      InFirstTable bpb n ∧ fatEntry bpb disk n ≠ 0

theorem ReadsFree.entry (tables : Tables bpb disk) (free : ReadsFree bpb disk cluster) :
    disk.readable (entrySector bpb cluster) = true ∧ InBuffer bpb cluster ∧
      fatEntry bpb disk cluster = 0 := by
  rw [ReadsFree, fatReadEntry_window, Disk.read] at free
  by_cases readable : disk.readable (entrySector bpb cluster) = true
  · rw [if_pos readable] at free
    dsimp only at free
    split_ifs at free with inBuffer
    refine ⟨readable, inBuffer, ?_⟩
    rw [tables.entrySector_eq, entryOf_congr fun i inside =>
      tables.window_eq ((tables.whole_iff cluster).mpr inBuffer) inside, ← fatEntry_eq] at free
    exact Option.some.inj free
  · rw [if_neg readable] at free
    exact absurd (Option.some.inj free) (fatEoc_ne_zero bpb)

/-- Where nothing behind the volume looks free, `alloc_cluster` takes free clusters only. -/
theorem Confined.free (confined : Confined bpb disk) (tables : Tables bpb disk) {c : Nat}
    (allocated : allocCluster bpb disk = some c) (nonzero : c ≠ 0) :
    FreeCluster bpb disk c ∧ ReadsFree bpb disk c := by
  unfold allocCluster at allocated
  rcases allocFrom_cases bpb disk (bpb.fatType.allocMax - 2) 2 with
    ⟨-, none⟩ | ⟨n, above, below, -, ⟨free, some⟩ | ⟨-, none⟩⟩
  · exact absurd (Option.some.inj (allocated.symm.trans none)) nonzero
  · obtain rfl := Option.some.inj (some.symm.trans allocated)
    obtain ⟨readable, inBuffer, entry⟩ := free.entry tables
    refine ⟨⟨⟨above, ?_⟩, by omega, entry⟩, free⟩
    by_contra behind
    rcases confined n (by omega) (by omega) with closed | outside | ⟨-, taken⟩
    · rw [closed] at readable
      cases readable
    · exact outside inBuffer
    · exact taken entry
  · cases allocated.symm.trans none

theorem Confined.allocatesInside (confined : Confined bpb disk) (tables : Tables bpb disk) {c : Nat}
    (allocated : allocCluster bpb disk = some c) : AllocatesInside bpb disk := by
  by_cases zero : c = 0
  · exact ⟨c, allocated, .inl zero⟩
  · obtain ⟨free, reads⟩ := confined.free tables allocated zero
    refine ⟨c, allocated, .inr ⟨free.1, reads, ?_, clusterToLba_inside free.1⟩⟩
    rw [InTable, tables.bytesPerSector]
    exact tables.entry_sector free.1.2

/-- Writing the entry of a cluster of the volume leaves those behind it. -/
theorem Confined.write (confined : Confined bpb disk) (tables : Tables bpb disk)
    (inside : InVolume bpb cluster) (fits : value < bpb.fatType.entryLimit) {ok : Bool}
    (wrote : fatWriteEntry bpb disk cluster value = some (ok, disk')) : Confined bpb disk' := by
  intro n behind below
  have last := inside.2
  refine (confined n behind below).imp (fun closed => ?_) (Or.imp_right fun ⟨inTable, taken⟩ => ?_)
  · rw [(fatWriteEntry_access tables wrote).1]
    exact closed
  · rw [fatWriteEntry_others tables fits wrote inTable (by omega)]
    exact ⟨inTable, taken⟩

theorem Confined.data (confined : Confined bpb disk) (tables : Tables bpb disk)
    (kept : KeepsTables bpb disk disk') : Confined bpb disk' := by
  intro n behind below
  refine (confined n behind below).imp (fun closed => ?_) (Or.imp_right fun ⟨inTable, taken⟩ => ?_)
  · rw [kept.readable]
    exact closed
  · rw [kept.fatEntry_eq tables inTable]
    exact ⟨inTable, taken⟩

end DBSos.Fat
