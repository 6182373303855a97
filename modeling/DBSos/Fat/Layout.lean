import DBSos.Fat.Directory
import DBSos.Fat.Space

/-!
# Where a directory lies

The sectors of a directory as one list: the fixed root area, or those of the clusters
of a chain. The driver's walk finds the sector of each index in it, and the clusters
of different chains have no sector in common.
-/

namespace DBSos.Fat

variable {bpb : Bpb} {disk : Disk} {dir cluster : Nat}

/-- The sectors of a cluster. -/
def clusterLbas (bpb : Bpb) (cluster : Nat) : List Nat :=
  (List.range bpb.sectorsPerCluster).map fun sec =>
    bpb.dataStart + (cluster - 2) * bpb.sectorsPerCluster + sec

/-- The clusters from this one to the end of its chain, at most so many. -/
def chainFrom (bpb : Bpb) (disk : Disk) : (left cluster : Nat) → List Nat
  | 0, _ => []
  | left + 1, cluster =>
    cluster :: match nextOf bpb disk cluster with
      | none => []
      | some next => chainFrom bpb disk left next

/-- The clusters of a chain. -/
def clustersOf (bpb : Bpb) (disk : Disk) (first : Nat) : List Nat :=
  chainFrom bpb disk bpb.totalClusters first

/-- The sectors of the fixed root. -/
def rootLbas (bpb : Bpb) : List Nat :=
  if bpb.fatType = .fat32 then []
  else (List.range ((bpb.rootEntryCount * 32 + 511) / 512)).map fun sec =>
    bpb.reservedSectors + bpb.numFats * fatSectors bpb + sec

/-- The sectors of a directory, in order. -/
def dirLbas (bpb : Bpb) (disk : Disk) (dir : Nat) : List Nat :=
  if dir = 0 then rootLbas bpb else (clustersOf bpb disk dir).flatMap (clusterLbas bpb)

/-- The fixed root, or a chain of clusters. -/
def IsDir (bpb : Bpb) (disk : Disk) (dir : Nat) : Prop :=
  dir = 0 ∨ ∃ clusters, ChainOf bpb disk dir clusters

/-! ## The clusters of a chain -/

theorem ChainOf.length_le {clusters : List Nat} (chain : ChainOf bpb disk cluster clusters) :
    clusters.length ≤ bpb.totalClusters := by
  have inside : clusters ⊆ List.range' 2 bpb.totalClusters := by
    intro c member
    have bounds := chain.mem_inVolume member
    rw [List.mem_range'_1, Nat.add_comm]
    exact bounds
  simpa using (chain.path.nodup.subperm inside).length_le

theorem chainFrom_path {left first : Nat} {clusters : List Nat}
    (path : Lib.Path (nextOf bpb disk) first clusters) (enough : clusters.length ≤ left) :
    chainFrom bpb disk left first = clusters := by
  induction path generalizing left with
  | last stops =>
    obtain ⟨left, rfl⟩ := Nat.exists_eq_add_of_le' enough
    simp [chainFrom, stops]
  | step link _ ih =>
    obtain ⟨left, rfl⟩ := Nat.exists_eq_add_of_le' (Nat.one_le_of_lt enough)
    rw [List.length_cons] at enough
    simp [chainFrom, link, ih (Nat.le_of_succ_le_succ enough)]

theorem ChainOf.clustersOf_eq {clusters : List Nat} (chain : ChainOf bpb disk cluster clusters) :
    clustersOf bpb disk cluster = clusters :=
  chainFrom_path chain.path chain.length_le

theorem ChainOf.dirLbas_eq {clusters : List Nat} (chain : ChainOf bpb disk dir clusters) :
    dirLbas bpb disk dir = clusters.flatMap (clusterLbas bpb) := by
  have positive := chain.inVolume.1
  rw [dirLbas, if_neg (by omega), chain.clustersOf_eq]

/-! ## Sectors of clusters -/

/-- A sector of the data area belongs to one cluster. -/
theorem mem_clusterLbas (tables : Tables bpb disk) (low : 2 ≤ cluster) {lba : Nat} :
    lba ∈ clusterLbas bpb cluster ↔
      bpb.dataStart ≤ lba ∧ (lba - bpb.dataStart) / bpb.sectorsPerCluster + 2 = cluster := by
  have positive := tables.sectorsPerCluster
  simp only [clusterLbas, List.mem_map, List.mem_range]
  constructor
  · rintro ⟨sec, below, rfl⟩
    have offset : bpb.dataStart + (cluster - 2) * bpb.sectorsPerCluster + sec - bpb.dataStart =
        sec + (cluster - 2) * bpb.sectorsPerCluster := by omega
    rw [offset, Nat.add_mul_div_right _ _ positive, Nat.div_eq_of_lt below]
    exact ⟨by omega, by omega⟩
  · rintro ⟨above, rfl⟩
    refine ⟨(lba - bpb.dataStart) % bpb.sectorsPerCluster, Nat.mod_lt _ positive, ?_⟩
    have parts := Nat.div_add_mod' (lba - bpb.dataStart) bpb.sectorsPerCluster
    rw [Nat.add_sub_cancel]
    omega

/-- Different clusters have no sector in common. -/
theorem clusterLbas_disjoint (tables : Tables bpb disk) {other lba : Nat} (low : 2 ≤ cluster)
    (otherLow : 2 ≤ other) (differs : cluster ≠ other) (member : lba ∈ clusterLbas bpb cluster) :
    lba ∉ clusterLbas bpb other := by
  intro shared
  rw [mem_clusterLbas tables low] at member
  rw [mem_clusterLbas tables otherLow] at shared
  exact differs (member.2.symm.trans shared.2)

/-- The sectors of a cluster of the volume lie in its data area. -/
theorem clusterLbas_bounds (inside : InVolume bpb cluster) {lba : Nat}
    (member : lba ∈ clusterLbas bpb cluster) :
    bpb.dataStart ≤ lba ∧ lba < bpb.dataStart + bpb.totalClusters * bpb.sectorsPerCluster := by
  simp only [clusterLbas, List.mem_map, List.mem_range] at member
  obtain ⟨sec, below, rfl⟩ := member
  have next : (cluster - 2 + 1) * bpb.sectorsPerCluster ≤
      bpb.totalClusters * bpb.sectorsPerCluster :=
    Nat.mul_le_mul_right _ (by have := inside.1; have := inside.2; omega)
  rw [Nat.succ_mul] at next
  omega

/-! ## Sectors of a directory -/

theorem mem_rootLbas {lba : Nat} (member : lba ∈ rootLbas bpb) :
    bpb.fatType ≠ .fat32 ∧ bpb.reservedSectors + bpb.numFats * fatSectors bpb ≤ lba ∧
      lba < bpb.reservedSectors + bpb.numFats * fatSectors bpb +
        (bpb.rootEntryCount * 32 + 511) / 512 := by
  unfold rootLbas at member
  split_ifs at member with wide
  · cases member
  · simp only [List.mem_map, List.mem_range] at member
    obtain ⟨sec, below, rfl⟩ := member
    exact ⟨wide, by omega, by omega⟩

/-- The fixed root lies behind the tables and in front of the data area. -/
theorem rootLbas_bounds (tables : Tables bpb disk) {lba : Nat} (member : lba ∈ rootLbas bpb) :
    bpb.reservedSectors + bpb.numFats * fatSectors bpb ≤ lba ∧ lba < bpb.dataStart := by
  obtain ⟨narrow, above, below⟩ := mem_rootLbas member
  have start := tables.dataStart
  rw [if_neg narrow] at start
  exact ⟨above, by omega⟩

/-- A directory lies behind the tables, inside the tables. -/
theorem IsDir.bounds (isDir : IsDir bpb disk dir) (tables : Tables bpb disk) {lba : Nat}
    (member : lba ∈ dirLbas bpb disk dir) :
    bpb.reservedSectors + bpb.numFats * fatSectors bpb ≤ lba ∧
      lba < bpb.dataStart + bpb.totalClusters * bpb.sectorsPerCluster := by
  have start := tables.dataStart
  rcases isDir with rfl | ⟨clusters, chain⟩
  · obtain ⟨above, below⟩ := rootLbas_bounds tables member
    exact ⟨above, by omega⟩
  · rw [chain.dirLbas_eq] at member
    obtain ⟨c, inChain, inCluster⟩ := List.mem_flatMap.mp member
    obtain ⟨above, below⟩ := clusterLbas_bounds (chain.mem_inVolume inChain) inCluster
    exact ⟨by omega, below⟩

/-- The sectors of equally long clusters, by their index. -/
theorem getElem?_flatMap_clusterLbas (positive : 0 < bpb.sectorsPerCluster) (clusters : List Nat)
    (sec : Nat) : (clusters.flatMap (clusterLbas bpb))[sec]? =
      (clusters[sec / bpb.sectorsPerCluster]?).map fun c =>
        bpb.dataStart + (c - 2) * bpb.sectorsPerCluster + sec % bpb.sectorsPerCluster := by
  induction clusters generalizing sec with
  | nil => simp
  | cons c rest ih =>
    have length : (clusterLbas bpb c).length = bpb.sectorsPerCluster := by simp [clusterLbas]
    rw [List.flatMap_cons]
    by_cases here : sec < bpb.sectorsPerCluster
    · rw [List.getElem?_append_left (by omega), Nat.div_eq_of_lt here, Nat.mod_eq_of_lt here]
      simp [clusterLbas, here]
    · obtain ⟨later, rfl⟩ := Nat.exists_eq_add_of_le (Nat.le_of_not_lt here)
      rw [List.getElem?_append_right (by omega), length, Nat.add_sub_cancel_left,
        ih, Nat.add_div_left _ positive, Nat.add_mod_left]
      rfl

/-- A chain of the volume has far fewer sectors than the driver would follow. -/
theorem ChainOf.sectors_lt {clusters : List Nat} (chain : ChainOf bpb disk dir clusters)
    (tables : Tables bpb disk) : clusters.length * bpb.sectorsPerCluster < 2 ^ 64 - 1 := by
  have few := chain.length_le
  have fits := tables.sectorsFit
  have below := tables.clusters
  have limit : bpb.fatType.firstEoc ≤ 2 ^ 28 := by
    unfold FatType.firstEoc
    cases bpb.fatType <;> decide
  have product : clusters.length * bpb.sectorsPerCluster ≤ 2 ^ 28 * 256 :=
    Nat.mul_le_mul (by omega) (by omega)
  omega

/-! ## The walk of the driver -/

/-- From an end marker the walk goes nowhere. -/
theorem walk_marker {head : Nat} (marker : fatIsEoc bpb cluster = true) :
    walk bpb disk head cluster = some (if head = 0 then some cluster else none) := by
  cases head with
  | zero => rfl
  | succ head => rw [walk, if_pos marker, if_neg (Nat.succ_ne_zero head)]

theorem two_le_of_eoc (marker : fatIsEoc bpb cluster = true) : 2 ≤ cluster := by
  have low : 2 ≤ bpb.fatType.firstEoc := by
    unfold FatType.firstEoc
    cases bpb.fatType <;> decide
  exact low.trans (of_decide_eq_true marker)

/-- The walk along a chain reaches its clusters, then the end marker, and no more. -/
theorem walk_spec (tables : Tables bpb disk) {head : Nat} {clusters : List Nat}
    {result : Option Nat} (chain : ChainOf bpb disk cluster clusters)
    (walked : walk bpb disk head cluster = some result) :
    match clusters[head]? with
    | some c => result = some c
    | none => ∀ c, result = some c → fatIsEoc bpb c = true := by
  induction head generalizing cluster clusters with
  | zero =>
    obtain rfl := Option.some.inj walked
    cases chain.path <;> rfl
  | succ head ih =>
    have inside := chain.inVolume
    rw [walk, tables.not_eoc inside, if_neg (by decide),
      fatReadEntry_eq tables inside.2] at walked
    split_ifs at walked with whole
    · simp only [Option.bind_eq_bind, Option.bind_some] at walked
      cases chain.path with
      | last stops =>
        have marker := chain.ends cluster (List.mem_singleton_self _) stops
        have high := two_le_of_eoc marker
        rw [if_neg (by omega), walk_marker marker] at walked
        obtain rfl := Option.some.inj walked
        intro c reached
        split_ifs at reached
        exact Option.some.inj reached ▸ marker
      | @step _ next rest link path =>
        obtain ⟨-, target, entry⟩ := nextOf_eq_some.mp link
        have high := target.1
        rw [entry, if_neg (by omega)] at walked
        exact ih (chain.rest link).1 walked
    · cases walked

/-- Each index of a directory is found in its sector; an index behind the end is in no
sector that can be read. -/
theorem dirSectorLba_spec (isDir : IsDir bpb disk dir) (geometry : Geometry bpb disk) {sec : Nat}
    {result : Option Nat} (found : dirSectorLba bpb disk dir sec = some result) :
    match (dirLbas bpb disk dir)[sec]? with
    | some lba => result = some lba
    | none => ∀ lba, result = some lba → disk.readable lba = false := by
  rcases isDir with rfl | ⟨clusters, chain⟩
  · rw [dirSectorLba, if_pos rfl] at found
    rw [dirLbas, if_pos rfl, rootLbas]
    split_ifs at found ⊢ with wide behind
    · obtain rfl := Option.some.inj found
      simp
    · obtain rfl := Option.some.inj found
      simp [behind]
    · obtain rfl := Option.some.inj found
      simp [Nat.lt_of_not_le behind]
  · have positive := chain.inVolume.1
    have spc := geometry.sectorsPerCluster
    rw [dirSectorLba, if_neg (by omega)] at found
    obtain ⟨reached, walked, later⟩ := Option.bind_eq_some_iff.mp found
    have spec := walk_spec geometry.toTables chain walked
    rw [chain.dirLbas_eq, getElem?_flatMap_clusterLbas spc]
    cases at_ : clusters[sec / bpb.sectorsPerCluster]? with
    | some c =>
      rw [at_] at spec
      obtain rfl := spec
      have low := (chain.mem_inVolume (List.mem_of_getElem? at_)).1
      simp only [clusterToLba, if_neg (Nat.not_lt.mpr low)] at later
      exact (Option.some.inj later).symm
    | none =>
      rw [at_] at spec
      intro lba isLba
      cases reached with
      | none =>
        obtain rfl := Option.some.inj later
        cases isLba
      | some c =>
        have marker := spec c rfl
        have low := two_le_of_eoc marker
        simp only [clusterToLba, if_neg (Nat.not_lt.mpr low)] at later
        obtain rfl := Option.some.inj ((Option.some.inj later).trans isLba)
        exact geometry.beyond c (of_decide_eq_true marker) _ (Nat.mod_lt _ spc)

/-- `read_dir_sector` reads the sector of the index, and fails behind the end. -/
theorem readDirSector_spec (isDir : IsDir bpb disk dir) (geometry : Geometry bpb disk) {sec : Nat}
    {result : Option Sector} (read : readDirSector bpb disk dir sec = some result) :
    result = ((dirLbas bpb disk dir)[sec]?).map disk.sectors := by
  obtain ⟨lba, found, later⟩ := Option.bind_eq_some_iff.mp read
  have spec := dirSectorLba_spec isDir geometry found
  cases at_ : (dirLbas bpb disk dir)[sec]? with
  | some lba' =>
    rw [at_] at spec
    obtain rfl := spec
    have readable := geometry.readable _ (isDir.bounds geometry.toTables (List.mem_of_getElem? at_)).2
    rw [← Option.some.inj later, Disk.read, if_pos readable]
    rfl
  | none =>
    rw [at_] at spec
    cases lba with
    | none => exact (Option.some.inj later).symm
    | some lba =>
      rw [← Option.some.inj later, Disk.read, spec lba rfl]
      rfl

end DBSos.Fat
