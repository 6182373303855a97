import DBSos.Fat.Entries
import DBSos.Fat.Layout

/-!
# Behind the last cluster of a directory

The walk to a sector of a directory tests each cluster that it leaves for an end marker,
but not the last one that it reaches. So behind the end it takes the marker for a cluster,
and whether that fails is up to the device.
-/

namespace DBSos.Fat

variable {bpb : Bpb} {disk disk' : Disk} {dir marker cluster value : Nat} {clusters : List Nat}

/-- A number that the driver takes for a cluster. -/
structure IsCluster (bpb : Bpb) (cluster : Nat) : Prop where
  low : 2 ≤ cluster
  notEoc : fatIsEoc bpb cluster = false

/-- A chain as the driver reads it from the table, and the marker that ends it. -/
inductive Follows (bpb : Bpb) (disk : Disk) : Nat → List Nat → Nat → Prop where
  | last {c marker : Nat} (isCluster : IsCluster bpb c)
      (read : fatReadEntry bpb disk c = some marker) (ends : fatIsEoc bpb marker = true) :
      Follows bpb disk c [c] marker
  | step {c next marker : Nat} {rest : List Nat} (isCluster : IsCluster bpb c)
      (read : fatReadEntry bpb disk c = some next) (follows : Follows bpb disk next rest marker) :
      Follows bpb disk c (c :: rest) marker

/-- A sector of a cluster. -/
def sectorOf (bpb : Bpb) (cluster sec : Nat) : Nat :=
  bpb.dataStart + (cluster - 2) * bpb.sectorsPerCluster + sec

/-- `read_dir_sector` and `write_dir_sector` succeed only for the sectors of the chain, and
access the sector of the cluster that the index falls into. -/
structure StaysInChain (bpb : Bpb) (disk : Disk) (dir : Nat) (clusters : List Nat) : Prop where
  reads : ∀ s buf, readDirSector bpb disk dir s = some (some buf) →
    s < clusters.length * bpb.sectorsPerCluster ∧
      ∃ c, clusters[s / bpb.sectorsPerCluster]? = some c ∧
        buf = disk.sectors (sectorOf bpb c (s % bpb.sectorsPerCluster))
  writes : ∀ s buf disk', writeDirSector bpb disk dir s buf = some (true, disk') →
    s < clusters.length * bpb.sectorsPerCluster ∧
      ∃ c, clusters[s / bpb.sectorsPerCluster]? = some c ∧
        disk' = { disk with
          sectors := Function.update disk.sectors
            (sectorOf bpb c (s % bpb.sectorsPerCluster)) buf }

/-- No entry of the directory is free. -/
def Full (bpb : Bpb) (disk : Disk) (clusters : List Nat) : Prop :=
  ∀ c ∈ clusters, ∀ sec < bpb.sectorsPerCluster, freeEntry (disk.sectors (sectorOf bpb c sec)) = none

/-- What becomes of a full directory: the addition fails when no cluster can be taken or
the chain is longer than the driver follows, and else puts the entry first in a new
cluster behind the others. The sectors that the marker would have are as they were. -/
def Extends (bpb : Bpb) (disk : Disk) (dir : Nat) (clusters : List Nat) (marker : Nat)
    (result : Option Nat) (disk' : Disk) : Prop :=
  (result = none ∧ (allocCluster bpb disk = some 0 ∨ maxRounds + 1 < clusters.length) ∨
    ∃ new, allocCluster bpb disk = some new ∧
      result = some (clusters.length * bpb.sectorsPerCluster * 16) ∧
      Follows bpb disk' dir (clusters ++ [new]) (fatEoc bpb)) ∧
  ∀ sec < bpb.sectorsPerCluster,
    disk'.sectors (sectorOf bpb marker sec) = disk.sectors (sectorOf bpb marker sec)

/-- `add_dir_entry` extends a full directory, on a volume where the search for a cluster
stays inside. -/
def ExtendsFull (bpb : Bpb) (disk : Disk) (dir : Nat) (clusters : List Nat) (marker : Nat) : Prop :=
  Volume bpb disk → (∀ c ∈ clusters, InVolume bpb c) → AllocatesInside bpb disk →
    Full bpb disk clusters → ∀ short attr cluster size, ∃ result disk',
      addDirEntry bpb disk dir short attr cluster size = some (result, disk') ∧
        Extends bpb disk dir clusters marker result disk'

/-- The device has no sectors where the marker, taken for a cluster, would have them. -/
def Closed (bpb : Bpb) (disk : Disk) (marker : Nat) : Prop :=
  ∀ sec < bpb.sectorsPerCluster, disk.readable (sectorOf bpb marker sec) = false ∧
    disk.writable (sectorOf bpb marker sec) = false

/-! ## The walk -/

theorem Follows.dir_low (follows : Follows bpb disk dir clusters marker) : 2 ≤ dir := by
  cases follows with
  | last isCluster => exact isCluster.low
  | step isCluster => exact isCluster.low

theorem Follows.notEoc (follows : Follows bpb disk dir clusters marker) :
    fatIsEoc bpb dir = false := by
  cases follows with
  | last isCluster => exact isCluster.notEoc
  | step isCluster => exact isCluster.notEoc

theorem Follows.marker_low (follows : Follows bpb disk dir clusters marker) : 2 ≤ marker := by
  induction follows with
  | last _ _ ends => exact two_le_of_eoc ends
  | step _ _ _ ih => exact ih

theorem Follows.marker_eoc (follows : Follows bpb disk dir clusters marker) :
    fatIsEoc bpb marker = true := by
  induction follows with
  | last _ _ ends => exact ends
  | step _ _ _ ih => exact ih

theorem Follows.low (follows : Follows bpb disk dir clusters marker) :
    ∀ c ∈ clusters ++ [marker], 2 ≤ c := by
  induction follows with
  | last isCluster _ ends =>
    intro c member
    rcases List.mem_pair.mp member with rfl | rfl
    · exact isCluster.low
    · exact two_le_of_eoc ends
  | step isCluster _ _ ih =>
    intro c member
    rcases List.mem_cons.mp member with rfl | later
    · exact isCluster.low
    · exact ih c later

/-- The walk reaches the clusters of the chain in order, then the marker, then nothing. -/
theorem Follows.walk_eq (follows : Follows bpb disk dir clusters marker) (head : Nat) :
    walk bpb disk head dir = some (clusters ++ [marker])[head]? := by
  induction follows generalizing head with
  | last isCluster read ends =>
    cases head with
    | zero => rfl
    | succ head =>
      have high := two_le_of_eoc ends
      rw [walk, if_neg (by simp [isCluster.notEoc]), read, Option.bind_eq_bind,
        Option.bind_some, if_neg (by omega), walk_marker ends]
      cases head <;> rfl
  | step isCluster read follows ih =>
    cases head with
    | zero => rfl
    | succ head =>
      have high := follows.dir_low
      rw [walk, if_neg (by simp [isCluster.notEoc]), read, Option.bind_eq_bind,
        Option.bind_some, if_neg (by omega), ih]
      rfl

theorem Follows.dirSectorLba_eq (follows : Follows bpb disk dir clusters marker) (s : Nat) :
    dirSectorLba bpb disk dir s =
      some ((clusters ++ [marker])[s / bpb.sectorsPerCluster]?.map fun c =>
        sectorOf bpb c (s % bpb.sectorsPerCluster)) := by
  have high := follows.dir_low
  rw [dirSectorLba, if_neg (by omega), follows.walk_eq, Option.bind_eq_bind, Option.bind_some]
  cases at_ : (clusters ++ [marker])[s / bpb.sectorsPerCluster]? with
  | none => rfl
  | some c =>
    have low := follows.low c (List.mem_of_getElem? at_)
    dsimp only
    rw [clusterToLba, if_neg (by omega)]
    rfl

theorem Follows.readDirSector_eq (follows : Follows bpb disk dir clusters marker) (s : Nat) :
    readDirSector bpb disk dir s =
      some ((clusters ++ [marker])[s / bpb.sectorsPerCluster]?.bind fun c =>
        disk.read (sectorOf bpb c (s % bpb.sectorsPerCluster))) := by
  rw [readDirSector, follows.dirSectorLba_eq, Option.bind_eq_bind, Option.bind_some]
  cases (clusters ++ [marker])[s / bpb.sectorsPerCluster]? <;> rfl

theorem Follows.writeDirSector_eq (follows : Follows bpb disk dir clusters marker) (s : Nat)
    (buf : Sector) : writeDirSector bpb disk dir s buf =
      some (match (clusters ++ [marker])[s / bpb.sectorsPerCluster]? with
        | none => (false, disk)
        | some c => disk.write (sectorOf bpb c (s % bpb.sectorsPerCluster)) buf) := by
  rw [writeDirSector, follows.dirSectorLba_eq, Option.bind_eq_bind, Option.bind_some]
  cases (clusters ++ [marker])[s / bpb.sectorsPerCluster]? <;> rfl

/-- An index of the chain, or one of the marker. -/
theorem reached_cases {s : Nat} (positive : 0 < bpb.sectorsPerCluster) {c : Nat}
    (at_ : (clusters ++ [marker])[s / bpb.sectorsPerCluster]? = some c) :
    s < clusters.length * bpb.sectorsPerCluster ∧
        clusters[s / bpb.sectorsPerCluster]? = some c ∨
      c = marker := by
  by_cases inside : s / bpb.sectorsPerCluster < clusters.length
  · rw [List.getElem?_append_left inside] at at_
    exact .inl ⟨(Nat.div_lt_iff_lt_mul positive).mp inside, at_⟩
  · rw [List.getElem?_append_right (by omega)] at at_
    exact .inr (List.mem_singleton.mp (List.mem_of_getElem? at_))

/-- The first sectors behind the chain are those of the next number. -/
theorem reached_next (clusters : List Nat) (next : Nat) (more : List Nat) {sec : Nat}
    (below : sec < bpb.sectorsPerCluster) :
    (clusters ++ next :: more)[(clusters.length * bpb.sectorsPerCluster + sec) /
        bpb.sectorsPerCluster]? = some next ∧
      (clusters.length * bpb.sectorsPerCluster + sec) % bpb.sectorsPerCluster = sec := by
  have positive : 0 < bpb.sectorsPerCluster := by omega
  rw [Nat.mul_comm, Nat.mul_add_div positive, Nat.div_eq_of_lt below, Nat.add_zero,
    Nat.mul_add_mod, Nat.mod_eq_of_lt below, List.getElem?_append_right le_rfl, Nat.sub_self]
  exact ⟨rfl, rfl⟩

/-- Behind a closed end reads and writes fail. -/
theorem Closed.staysInChain (closed : Closed bpb disk marker)
    (follows : Follows bpb disk dir clusters marker) (positive : 0 < bpb.sectorsPerCluster) :
    StaysInChain bpb disk dir clusters where
  reads := by
    intro s buf read
    rw [follows.readDirSector_eq] at read
    obtain ⟨c, at_, found⟩ := Option.bind_eq_some_iff.mp (Option.some.inj read)
    have below := Nat.mod_lt s positive
    rw [Disk.read] at found
    split_ifs at found with readable
    rcases reached_cases positive at_ with ⟨inside, inChain⟩ | rfl
    · exact ⟨inside, c, inChain, (Option.some.inj found).symm⟩
    · rw [(closed _ below).1] at readable
      cases readable
  writes := by
    intro s buf disk' wrote
    rw [follows.writeDirSector_eq] at wrote
    have done := Option.some.inj wrote
    have below := Nat.mod_lt s positive
    cases at_ : (clusters ++ [marker])[s / bpb.sectorsPerCluster]? with
    | none =>
      rw [at_] at done
      cases done
    | some c =>
      rw [at_] at done
      dsimp only [Disk.write] at done
      split_ifs at done with writable
      · rcases reached_cases positive at_ with ⟨inside, inChain⟩ | rfl
        · exact ⟨inside, c, inChain, (congrArg Prod.snd done).symm⟩
        · rw [(closed _ below).2] at writable
          cases writable
      · cases done

/-- An open end can be read or written. -/
theorem StaysInChain.closed (stays : StaysInChain bpb disk dir clusters)
    (follows : Follows bpb disk dir clusters marker) : Closed bpb disk marker := by
  intro sec below
  obtain ⟨at_, offset⟩ := reached_next clusters marker [] below
  refine ⟨Bool.eq_false_iff.mpr fun readable => ?_, Bool.eq_false_iff.mpr fun writable => ?_⟩
  · have read := follows.readDirSector_eq (clusters.length * bpb.sectorsPerCluster + sec)
    rw [at_, offset, Option.bind_some, Disk.read, if_pos readable] at read
    have inside := (stays.reads _ _ read).1
    omega
  · have wrote := follows.writeDirSector_eq (clusters.length * bpb.sectorsPerCluster + sec)
      Sector.zero
    rw [at_, offset] at wrote
    dsimp only [Disk.write] at wrote
    rw [if_pos writable] at wrote
    have inside := (stays.writes _ _ _ wrote).1
    omega

/-! ## Entries of the chain -/

theorem Follows.head_mem (follows : Follows bpb disk dir clusters marker) : dir ∈ clusters := by
  cases follows with
  | last => exact List.mem_singleton_self dir
  | step => exact List.mem_cons_self

theorem Follows.reads (follows : Follows bpb disk dir clusters marker) :
    ∀ c ∈ clusters, ∃ value, fatReadEntry bpb disk c = some value ∧ 2 ≤ value := by
  induction follows with
  | last _ read ends =>
    intro c member
    obtain rfl := List.mem_singleton.mp member
    exact ⟨_, read, two_le_of_eoc ends⟩
  | step _ read follows ih =>
    intro c member
    rcases List.mem_cons.mp member with rfl | later
    · exact ⟨_, read, follows.dir_low⟩
    · exact ih c later

theorem Follows.congr (follows : Follows bpb disk dir clusters marker)
    (same : ∀ c ∈ clusters, fatReadEntry bpb disk' c = fatReadEntry bpb disk c) :
    Follows bpb disk' dir clusters marker := by
  induction follows with
  | last isCluster read ends =>
    exact .last isCluster ((same _ (List.mem_singleton_self _)).trans read) ends
  | step isCluster read _ ih =>
    exact .step isCluster ((same _ List.mem_cons_self).trans read)
      (ih fun c member => same c (List.mem_cons_of_mem _ member))

/-- `extend_dir` finds the last cluster of a chain that is not too long. -/
theorem Follows.lastCluster_eq (follows : Follows bpb disk dir clusters marker) (left : Nat) :
    lastCluster bpb disk left dir =
      some (if clusters.length ≤ left + 1 then clusters.getLast? else none) := by
  induction follows generalizing left with
  | last _ read ends =>
    rw [lastCluster, read, Option.bind_eq_bind, Option.bind_some, if_pos ends]
    simp
  | @step c next marker rest _ read follows ih =>
    have more : rest ≠ [] := List.ne_nil_of_mem follows.head_mem
    have positive := List.length_pos_iff.mpr more
    rw [lastCluster, read, Option.bind_eq_bind, Option.bind_some,
      if_neg (by simp [follows.notEoc]), List.getLast?_cons_of_ne_nil more]
    cases left with
    | zero => simp [more]
    | succ left =>
      dsimp only
      rw [ih, List.length_cons]
      simp only [Nat.add_le_add_iff_right]

/-- A new cluster behind the last one. -/
theorem Follows.link {last new : Nat} (follows : Follows bpb disk dir clusters marker)
    (distinct : clusters.Nodup) (isLast : clusters.getLast? = some last)
    (others : ∀ c ∈ clusters, c ≠ last → fatReadEntry bpb disk' c = fatReadEntry bpb disk c)
    (linked : fatReadEntry bpb disk' last = some new)
    (own : Follows bpb disk' new [new] value) :
    Follows bpb disk' dir (clusters ++ [new]) value := by
  induction follows with
  | last isCluster _ _ =>
    obtain rfl := Option.some.inj isLast
    exact .step isCluster linked own
  | @step c next marker rest isCluster read follows ih =>
    have more : rest ≠ [] := List.ne_nil_of_mem follows.head_mem
    obtain ⟨apart, distinct⟩ := List.nodup_cons.mp distinct
    rw [List.getLast?_cons_of_ne_nil more] at isLast
    have differs : c ≠ last := by
      rintro rfl
      exact apart (List.mem_of_getLast? isLast)
    exact .step isCluster ((others c List.mem_cons_self differs).trans read)
      (ih distinct isLast fun d member =>
        others d (List.mem_cons_of_mem _ member))

/-! ## Entries of a volume -/

section OnVolume

variable (tables : Tables bpb disk)

include tables

theorem fatReadEntry_eq_some (inside : InVolume bpb cluster)
    (read : fatReadEntry bpb disk cluster = some value) :
    Whole bpb cluster ∧ fatEntry bpb disk cluster = value := by
  rw [fatReadEntry_eq tables inside.2] at read
  split_ifs at read with whole
  exact ⟨whole, Option.some.inj read⟩

/-- What can be read can be written. -/
theorem fatWriteEntry_of_read (inside : InVolume bpb cluster)
    (read : fatReadEntry bpb disk cluster = some value) (new : Nat) :
    ∃ ok disk', fatWriteEntry bpb disk cluster new = some (ok, disk') := by
  rw [fatWriteEntry_eq tables inside.2, if_pos (fatReadEntry_eq_some tables inside read).1]
  exact ⟨_, _, rfl⟩

theorem Relinks.read_other (relinks : Relinks bpb disk disk' cluster value) {other : Nat}
    (inside : InVolume bpb other) (differs : other ≠ cluster) :
    fatReadEntry bpb disk' other = fatReadEntry bpb disk other := by
  rw [fatReadEntry_eq tables inside.2, fatReadEntry_eq (relinks.tables tables) inside.2,
    relinks.others other inside.2 differs]

theorem Relinks.read_same (relinks : Relinks bpb disk disk' cluster value)
    (inside : InVolume bpb cluster) (whole : Whole bpb cluster) :
    fatReadEntry bpb disk' cluster = some value := by
  rw [fatReadEntry_eq (relinks.tables tables) inside.2, if_pos whole, relinks.entry]

/-- The entries of a volume lie in front of its data. -/
theorem fatReadEntry_of_data (inside : InVolume bpb cluster)
    (readable : disk'.readable = disk.readable)
    (same : ∀ lba < bpb.dataStart, disk'.sectors lba = disk.sectors lba) :
    fatReadEntry bpb disk' cluster = fatReadEntry bpb disk cluster := by
  have sector := tables.entry_sector inside.2
  have start := tables.dataStart
  have more : fatSectors bpb ≤ bpb.numFats * fatSectors bpb :=
    Nat.le_mul_of_pos_left _ tables.numFats
  refine fatReadEntry_congr readable fun _ _ => ?_
  rw [same _ (by rw [tables.entrySector_eq]; omega)]

theorem isCluster_of_inVolume (inside : InVolume bpb cluster) : IsCluster bpb cluster :=
  ⟨inside.1, tables.not_eoc inside⟩

/-- The chain of the table. -/
theorem Follows.chainOf (follows : Follows bpb disk dir clusters marker)
    (inside : ∀ c ∈ clusters, InVolume bpb c) : ChainOf bpb disk dir clusters := by
  induction follows with
  | @last c marker _ read ends =>
    have first := inside c (List.mem_singleton_self c)
    have entry := (fatReadEntry_eq_some tables first read).2
    refine ⟨.last (if_neg fun both => ?_), first, fun d member _ => ?_⟩
    · rw [entry] at both
      exact tables.eoc_not_inVolume ends both.2
    · obtain rfl := List.mem_singleton.mp member
      exact entry ▸ ends
  | @step c next marker rest _ read follows ih =>
    have first := inside c List.mem_cons_self
    have chain := ih fun d member => inside d (List.mem_cons_of_mem _ member)
    have entry := (fatReadEntry_eq_some tables first read).2
    have link : nextOf bpb disk c = some next :=
      nextOf_eq_some.mpr ⟨first, chain.inVolume, entry⟩
    refine ⟨.step link chain.path, first, fun d member stops => ?_⟩
    rcases List.mem_cons.mp member with rfl | later
    · rw [link] at stops
      cases stops
    · exact chain.ends d later stops

end OnVolume

/-! ## Adding to a full directory -/

/-- `extend_dir` takes the cluster that `alloc_cluster` finds and puts it behind the chain. -/
theorem extendDir_eq (tables : Tables bpb disk) (inside : ∀ c ∈ clusters, InVolume bpb c)
    (follows : Follows bpb disk dir clusters marker) (allocates : AllocatesInside bpb disk) :
    ∃ extended disk', extendDir bpb disk dir = some (extended, disk') ∧ Retable bpb disk disk' ∧
      (extended = none ∧ (allocCluster bpb disk = some 0 ∨ maxRounds + 1 < clusters.length) ∨
        ∃ new, extended = some new ∧ allocCluster bpb disk = some new ∧ InVolume bpb new ∧
          Follows bpb disk' dir (clusters ++ [new]) (fatEoc bpb)) := by
  obtain ⟨new, allocated, zero | ⟨newInside, free, -⟩⟩ := allocates
  · subst zero
    refine ⟨none, disk, ?_, .refl, .inl ⟨rfl, .inl allocated⟩⟩
    rw [extendDir, allocated]
    rfl
  have newLow := newInside.1
  have newWhole := (fatReadEntry_eq_some tables newInside free).1
  have fresh : new ∉ clusters := by
    intro member
    obtain ⟨value, read, low⟩ := follows.reads new member
    have same := Option.some.inj (read.symm.trans free)
    omega
  -- the new cluster gets its end marker
  obtain ⟨ok, marked, wrote⟩ := fatWriteEntry_of_read tables newInside free (fatEoc bpb)
  have relinks := fatWriteEntry_relinks tables newInside.2 (fatEoc_lt bpb) wrote
  have others : ∀ c ∈ clusters, fatReadEntry bpb marked c = fatReadEntry bpb disk c := by
    intro c member
    refine relinks.read_other tables (inside c member) ?_
    rintro rfl
    exact fresh member
  have follows' := follows.congr others
  have tables' := relinks.tables tables
  have own : Follows bpb marked new [new] (fatEoc bpb) :=
    .last (isCluster_of_inVolume tables newInside) (relinks.read_same tables newInside newWhole)
      (fatIsEoc_fatEoc bpb)
  have last := follows'.lastCluster_eq maxRounds
  by_cases short : clusters.length ≤ maxRounds + 1
  · obtain ⟨final, isLast⟩ : ∃ final, clusters.getLast? = some final :=
      Option.isSome_iff_exists.mp (List.getLast?_isSome.mpr (List.ne_nil_of_mem follows.head_mem))
    have member := List.mem_of_getLast? isLast
    have finalInside := inside final member
    obtain ⟨value, read, -⟩ := follows'.reads final member
    have finalWhole := (fatReadEntry_eq_some tables' finalInside read).1
    obtain ⟨ok', disk', linked⟩ := fatWriteEntry_of_read tables' finalInside read new
    have relinks' := fatWriteEntry_relinks tables' finalInside.2 (tables.inVolume_lt newInside) linked
    have apart : new ≠ final := by
      rintro rfl
      exact fresh member
    refine ⟨some new, disk', ?_, relinks.retable.trans relinks'.retable,
      .inr ⟨new, rfl, allocated, newInside, ?_⟩⟩
    · rw [if_pos short, isLast] at last
      rw [extendDir, allocated]
      simp only [Option.bind_eq_bind, Option.bind_some]
      rw [if_neg (by omega), wrote]
      simp only [Option.bind_some]
      rw [last]
      simp only [Option.bind_some]
      rw [linked]
      rfl
    · refine follows'.link (follows'.chainOf tables' inside).path.nodup isLast
        (fun c inChain differs => relinks'.read_other tables' (inside c inChain) differs)
        (relinks'.read_same tables' finalInside finalWhole) (own.congr fun c inOwn => ?_)
      obtain rfl := List.mem_singleton.mp inOwn
      exact relinks'.read_other tables' newInside apart
  · refine ⟨none, marked, ?_, relinks.retable, .inl ⟨rfl, .inr (by omega)⟩⟩
    rw [if_neg short] at last
    rw [extendDir, allocated]
    simp only [Option.bind_eq_bind, Option.bind_some]
    rw [if_neg (by omega), wrote]
    simp only [Option.bind_some]
    rw [last]
    rfl

/-- The loop of `add_dir_entry` passes the sectors without a free entry. -/
theorem addFrom_full {short : List UInt8} {attr : UInt8} {size : Nat} (count left : Nat)
    (full : ∀ s < count, ∃ buf, dirSectorFor bpb disk dir s = some (some buf, disk) ∧
      freeEntry buf = none) :
    addFrom bpb dir short attr cluster size (left + count) 0 disk =
      addFrom bpb dir short attr cluster size left count disk := by
  induction count generalizing left with
  | zero => rfl
  | succ count ih =>
    obtain ⟨buf, sector, none⟩ := full count (Nat.lt_succ_self count)
    rw [show left + (count + 1) = left + 1 + count by omega,
      ih (left + 1) fun s below => full s (Nat.lt_succ_of_lt below),
      addFrom, sector, Option.bind_eq_bind, Option.bind_some]
    dsimp only
    rw [none]

theorem sectorOf_mem (bpb : Bpb) (cluster : Nat) {sec : Nat} (below : sec < bpb.sectorsPerCluster) :
    sectorOf bpb cluster sec ∈ clusterLbas bpb cluster :=
  List.mem_map.mpr ⟨sec, List.mem_range.mpr below, rfl⟩

theorem dataStart_le_sectorOf (bpb : Bpb) (cluster sec : Nat) :
    bpb.dataStart ≤ sectorOf bpb cluster sec := by
  unfold sectorOf
  omega

/-- A sector of the data area is in no table. -/
theorem Retable.sectorOf (retable : Retable bpb disk disk') (tables : Tables bpb disk)
    (cluster sec : Nat) :
    disk'.sectors (sectorOf bpb cluster sec) = disk.sectors (sectorOf bpb cluster sec) := by
  have start := tables.dataStart
  have behind := dataStart_le_sectorOf bpb cluster sec
  exact retable.outside _ (.inr (by omega))

/-- A sector that none of a cluster's is lies in front of them or behind them. -/
theorem sectorOf_outside {lba : Nat}
    (apart : ∀ sec < bpb.sectorsPerCluster, lba ≠ sectorOf bpb cluster sec) :
    lba < sectorOf bpb cluster 0 ∨ sectorOf bpb cluster 0 + bpb.sectorsPerCluster ≤ lba := by
  by_contra within
  have here := apart (lba - sectorOf bpb cluster 0) (by omega)
  unfold sectorOf at here within
  omega

/-- What `add_dir_entry` does where the directory ends. -/
theorem addFrom_end {short : List UInt8} {attr : UInt8} {size left : Nat}
    (closed : disk.readable (sectorOf bpb marker 0) = false)
    (follows : Follows bpb disk dir clusters marker)
    (volume : Volume bpb disk) (inside : ∀ c ∈ clusters, InVolume bpb c)
    (allocates : AllocatesInside bpb disk) :
    ∃ result disk', addFrom bpb dir short attr cluster size (left + 1)
        (clusters.length * bpb.sectorsPerCluster) disk = some (result, disk') ∧
      Extends bpb disk dir clusters marker result disk' ∧
      (result = none → extendDir bpb disk dir = some (none, disk')) := by
  have positive := volume.sectorsPerCluster
  have high := follows.dir_low
  obtain ⟨at_, offset⟩ := reached_next clusters marker [] positive
  have read := follows.readDirSector_eq (clusters.length * bpb.sectorsPerCluster + 0)
  rw [at_, offset, Option.bind_some, Disk.read, if_neg (by simp [closed]), Nat.add_zero] at read
  obtain ⟨extended, disk₁, extends_, retable, fails | grows⟩ :=
    extendDir_eq volume.toTables inside follows allocates
  · obtain ⟨rfl, why⟩ := fails
    refine ⟨none, disk₁, ?_, ⟨.inl ⟨rfl, why⟩,
      fun sec _ => retable.sectorOf volume.toTables marker sec⟩, fun _ => extends_⟩
    rw [addFrom, dirSectorFor, read]
    simp only [Option.bind_eq_bind, Option.bind_some]
    rw [if_neg (by omega), extends_]
    rfl
  obtain ⟨new, rfl, allocated, newInside, follows₁⟩ := grows
  have newLow := newInside.1
  have volume₁ := volume.of_access retable.readable retable.writable
  have bounds : ∀ sec < bpb.sectorsPerCluster, sectorOf bpb new sec <
      bpb.dataStart + bpb.totalClusters * bpb.sectorsPerCluster := fun sec below =>
    (clusterLbas_bounds newInside (sectorOf_mem bpb new below)).2
  -- the sectors of the new cluster are zero
  let disk₂ := disk₁.zeroFrom (sectorOf bpb new 0) bpb.sectorsPerCluster
  have readable₂ : disk₂.readable = disk₁.readable := Disk.zeroFrom_readable _ _ _
  have writable₂ : disk₂.writable = disk₁.writable := Disk.zeroFrom_writable _ _ _
  have inside₁ : ∀ c ∈ clusters ++ [new], InVolume bpb c := by
    intro c member
    rcases List.mem_append.mp member with old | isNew
    · exact inside c old
    · exact List.mem_singleton.mp isNew ▸ newInside
  have behind := dataStart_le_sectorOf bpb new 0
  have follows₂ : Follows bpb disk₂ dir (clusters ++ [new]) (fatEoc bpb) :=
    follows₁.congr fun c member => fatReadEntry_of_data volume₁.toTables (inside₁ c member) readable₂
      fun lba below => Disk.zeroFrom_other _ _ (.inl (by omega))
  have zeros : disk₂.sectors (sectorOf bpb new 0) = Sector.zero :=
    Disk.zeroFrom_inside disk₁ (sectorOf bpb new 0) positive
      (volume₁.writable _ (bounds 0 positive))
  obtain ⟨newAt, newOffset⟩ := reached_next clusters new [fatEoc bpb] positive
  rw [List.append_cons] at newAt
  have found := follows₂.readDirSector_eq (clusters.length * bpb.sectorsPerCluster + 0)
  rw [newAt, newOffset, Option.bind_some, Disk.read, readable₂,
    if_pos (volume₁.readable _ (bounds 0 positive)), zeros, Nat.add_zero] at found
  -- the entry goes into the first of them
  have wrote := follows₂.writeDirSector_eq (clusters.length * bpb.sectorsPerCluster + 0)
    (putEntry bpb Sector.zero (0 * 32) short attr cluster size)
  rw [newAt, newOffset, Nat.add_zero] at wrote
  dsimp only at wrote
  refine ⟨some (clusters.length * bpb.sectorsPerCluster * 16),
    (disk₂.write (sectorOf bpb new 0) (putEntry bpb Sector.zero (0 * 32) short attr cluster size)).2,
    ?_, ⟨.inr ⟨new, allocated, rfl, ?_⟩, fun sec below => ?_⟩, fun none => by cases none⟩
  · have lba : clusterToLba bpb new = some (sectorOf bpb new 0) := if_neg (by omega)
    rw [addFrom, dirSectorFor, read]
    simp only [Option.bind_eq_bind, Option.bind_some]
    rw [if_neg (by omega), extends_]
    simp only [Option.bind_some]
    rw [lba]
    simp only [Option.bind_some]
    rw [found]
    simp only [Option.bind_some]
    rw [show freeEntry Sector.zero = some 0 from rfl]
    dsimp only
    rw [wrote]
    rfl
  · refine follows₂.congr fun c member => fatReadEntry_of_data
      (volume₁.of_access readable₂ writable₂).toTables (inside₁ c member) (Disk.write_readable _ _ _)
      fun lba below => Disk.write_other _ _ _ (by omega)
  · -- the marker is the number of no cluster of the volume
    have differs : new ≠ marker := by
      rintro rfl
      exact volume.eoc_not_inVolume follows.marker_eoc newInside
    have apart : ∀ sec' < bpb.sectorsPerCluster, sectorOf bpb marker sec ≠ sectorOf bpb new sec' :=
      fun sec' below' same => clusterLbas_disjoint volume.toTables newLow follows.marker_low differs
        (same ▸ sectorOf_mem bpb new below') (sectorOf_mem bpb marker below)
    rw [Disk.write_other _ _ _ (apart 0 positive),
      Disk.zeroFrom_other _ _ (sectorOf_outside apart), retable.sectorOf volume.toTables]

/-- Behind a closed end `add_dir_entry` extends a full directory. -/
theorem Closed.extendsFull (closed : Closed bpb disk marker)
    (follows : Follows bpb disk dir clusters marker) :
    ExtendsFull bpb disk dir clusters marker := by
  intro volume inside allocates full short attr cluster size
  have positive := volume.sectorsPerCluster
  have high := follows.dir_low
  have few := (follows.chainOf volume.toTables inside).sectors_lt volume.toTables
  obtain ⟨left, enough⟩ := Nat.exists_eq_add_of_le' (Nat.succ_le_of_lt few)
  have passed : ∀ s < clusters.length * bpb.sectorsPerCluster, ∃ buf,
      dirSectorFor bpb disk dir s = some (some buf, disk) ∧ freeEntry buf = none := by
    intro s below
    have index := (Nat.div_lt_iff_lt_mul positive).mpr below
    have member := List.getElem_mem index
    have sec := Nat.mod_lt s positive
    have readable := volume.readable _
      (clusterLbas_bounds (inside _ member) (sectorOf_mem bpb _ sec)).2
    refine ⟨_, ?_, full _ member _ sec⟩
    rw [dirSectorFor, follows.readDirSector_eq, List.getElem?_append_left index,
      List.getElem?_eq_getElem index, Option.bind_some, Disk.read, if_pos readable]
    rfl
  rw [addDirEntry, dirMaxSectors, if_neg (by omega),
    show 2 ^ 64 - 1 = left + 1 + clusters.length * bpb.sectorsPerCluster by omega,
    addFrom_full _ _ passed]
  obtain ⟨result, disk', added, extends_, -⟩ :=
    addFrom_end (closed 0 positive).1 follows volume inside allocates
  exact ⟨result, disk', added, extends_⟩

/-- The volume of five sectors on a device of so many, with a full directory in cluster 2. -/
def directoryOn (size : Nat) : Disk where
  sectors lba :=
    if lba = 0 then bootSector
    else if lba = 1 then fun i => if i < 4 then 0xFF else if i = 4 then 0x0F else 0
    else if lba = 3 then fun _ => 0x41
    else Sector.zero
  readable lba := lba < size
  writable lba := lba < size

end DBSos.Fat
