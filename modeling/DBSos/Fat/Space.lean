import DBSos.Fat.Chain
import DBSos.Lib.Links

/-!
# Clusters in use

The table links the clusters of each file and directory. Taking a cluster, linking it
behind a chain and freeing a chain keep the links a forest whose roots are the first
clusters of files and directories.
-/

namespace DBSos.Fat

open DBSos.Lib

variable {bpb : Bpb} {disk disk' : Disk} {cluster value : Nat}

/-- The next cluster of the volume that the table names. -/
def nextOf (bpb : Bpb) (disk : Disk) (cluster : Nat) : Option Nat :=
  if InVolume bpb cluster ∧ InVolume bpb (fatEntry bpb disk cluster) then
    some (fatEntry bpb disk cluster)
  else none

/-- A cluster of the volume whose entry is not free. -/
def InUse (bpb : Bpb) (disk : Disk) (cluster : Nat) : Prop :=
  InVolume bpb cluster ∧ fatEntry bpb disk cluster ≠ 0

/-- A chain of clusters of the volume that ends with an end marker. -/
structure ChainOf (bpb : Bpb) (disk : Disk) (first : Nat) (clusters : List Nat) : Prop where
  path : Path (nextOf bpb disk) first clusters
  inVolume : InVolume bpb first
  ends : ∀ c ∈ clusters, nextOf bpb disk c = none → fatIsEoc bpb (fatEntry bpb disk c) = true

/-- The table of a volume with these first clusters of files and directories. -/
structure Space (bpb : Bpb) (disk : Disk) (roots : List Nat) : Prop where
  volume : Volume bpb disk
  forest : Forest (nextOf bpb disk) (InUse bpb disk) roots
  chains : ∀ r ∈ roots, ∃ clusters, ChainOf bpb disk r clusters

/-! ## End markers -/

theorem Tables.of_access (tables : Tables bpb disk) (readable : disk'.readable = disk.readable)
    (writable : disk'.writable = disk.writable) : Tables bpb disk' where
  bytesPerSector := tables.bytesPerSector
  sectorsPerCluster := tables.sectorsPerCluster
  sectorsFit := tables.sectorsFit
  numFats := tables.numFats
  covers := tables.covers
  dataStart := tables.dataStart
  clusters := tables.clusters
  readable := readable ▸ tables.readable
  tablesWritable := writable ▸ tables.tablesWritable

theorem Volume.of_access (volume : Volume bpb disk) (readable : disk'.readable = disk.readable)
    (writable : disk'.writable = disk.writable) : Volume bpb disk' where
  toTables := volume.toTables.of_access readable writable
  writable := writable ▸ volume.writable

theorem Geometry.of_access (geometry : Geometry bpb disk) (readable : disk'.readable = disk.readable)
    (writable : disk'.writable = disk.writable) : Geometry bpb disk' where
  toVolume := geometry.toVolume.of_access readable writable
  beyond := readable ▸ geometry.beyond

theorem Relinks.tables (relinks : Relinks bpb disk disk' cluster value)
    (tables : Tables bpb disk) : Tables bpb disk' :=
  tables.of_access relinks.readable relinks.writable

theorem Relinks.volume (relinks : Relinks bpb disk disk' cluster value)
    (volume : Volume bpb disk) : Volume bpb disk' :=
  volume.of_access relinks.readable relinks.writable

theorem Tables.not_eoc (tables : Tables bpb disk) (inside : InVolume bpb cluster) :
    fatIsEoc bpb cluster = false := by
  have clusters := tables.clusters
  have below := inside.2
  simp only [fatIsEoc, decide_eq_false_iff_not]
  omega

theorem fatIsEoc_fatEoc (bpb : Bpb) : fatIsEoc bpb (fatEoc bpb) = true := by
  unfold fatIsEoc fatEoc FatType.firstEoc
  cases bpb.fatType <;> rfl

theorem fatEoc_lt (bpb : Bpb) : fatEoc bpb < bpb.fatType.entryLimit := by
  unfold fatEoc FatType.entryLimit
  cases bpb.fatType <;> decide

theorem fatEoc_ne_zero (bpb : Bpb) : fatEoc bpb ≠ 0 := by
  unfold fatEoc
  cases bpb.fatType <;> decide

theorem Tables.eoc_not_inVolume (tables : Tables bpb disk)
    (marker : fatIsEoc bpb value = true) : ¬ InVolume bpb value := by
  intro inside
  rw [tables.not_eoc inside] at marker
  cases marker

theorem Tables.inVolume_lt (tables : Tables bpb disk) (inside : InVolume bpb cluster) :
    cluster < bpb.fatType.entryLimit := by
  have clusters := tables.clusters
  have limit : bpb.fatType.firstEoc ≤ bpb.fatType.entryLimit := by
    unfold FatType.firstEoc FatType.entryLimit
    cases bpb.fatType <;> decide
  exact inside.2.trans_le (clusters.trans limit)

/-! ## Links of a changed table -/

theorem nextOf_eq_some {next : Nat} : nextOf bpb disk cluster = some next ↔
    InVolume bpb cluster ∧ InVolume bpb next ∧ fatEntry bpb disk cluster = next := by
  unfold nextOf
  constructor
  · intro link
    split_ifs at link with inside
    obtain rfl := Option.some.inj link
    exact ⟨inside.1, inside.2, rfl⟩
  · rintro ⟨inside, target, rfl⟩
    rw [if_pos ⟨inside, target⟩]

/-- Links and use depend on the entries of the volume's clusters alone. -/
theorem nextOf_congr (same : InVolume bpb cluster →
    fatEntry bpb disk' cluster = fatEntry bpb disk cluster) :
    nextOf bpb disk' cluster = nextOf bpb disk cluster := by
  by_cases inside : InVolume bpb cluster
  · rw [nextOf, nextOf, same inside]
  · rw [nextOf, nextOf, if_neg (fun both => inside both.1), if_neg (fun both => inside both.1)]

theorem Relinks.nextOf_other (relinks : Relinks bpb disk disk' cluster value) {other : Nat}
    (differs : other ≠ cluster) : nextOf bpb disk' other = nextOf bpb disk other :=
  nextOf_congr fun inside => relinks.others other inside.2 differs

theorem Relinks.inUse_other (relinks : Relinks bpb disk disk' cluster value) {other : Nat}
    (differs : other ≠ cluster) : InUse bpb disk' other ↔ InUse bpb disk other := by
  refine and_congr_right fun inside => ?_
  rw [relinks.others other inside.2 differs]

theorem ChainOf.mem_inVolume {first : Nat} {clusters : List Nat}
    (chain : ChainOf bpb disk first clusters) (member : cluster ∈ clusters) :
    InVolume bpb cluster := by
  rcases chain.path.predecessor member with rfl | ⟨z, _, link⟩
  · exact chain.inVolume
  · exact (nextOf_eq_some.mp link).2.1

/-- A chain is as it was when the entries of its clusters are. -/
theorem ChainOf.congr {first : Nat} {clusters : List Nat} (chain : ChainOf bpb disk first clusters)
    (same : ∀ c ∈ clusters, fatEntry bpb disk' c = fatEntry bpb disk c) :
    ChainOf bpb disk' first clusters := by
  have links : ∀ c ∈ clusters, nextOf bpb disk' c = nextOf bpb disk c := fun c member =>
    nextOf_congr fun _ => same c member
  refine ⟨chain.path.congr links, chain.inVolume, fun c member stops => ?_⟩
  rw [links c member] at stops
  rw [same c member]
  exact chain.ends c member stops

/-- A chain that does not contain the changed cluster is as it was. -/
theorem ChainOf.relinks {first : Nat} {clusters : List Nat} (chain : ChainOf bpb disk first clusters)
    (relinks : Relinks bpb disk disk' cluster value) (outside : cluster ∉ clusters) :
    ChainOf bpb disk' first clusters := by
  refine chain.congr fun c member => relinks.others c (chain.mem_inVolume member).2 ?_
  rintro rfl
  exact outside member

/-- The chains of these roots are as they were. -/
def KeepsChains (bpb : Bpb) (disk disk' : Disk) (roots : List Nat) : Prop :=
  ∀ r ∈ roots, ∀ clusters, ChainOf bpb disk r clusters → ChainOf bpb disk' r clusters

theorem KeepsChains.trans {middle : Disk} {roots : List Nat}
    (first : KeepsChains bpb disk middle roots) (second : KeepsChains bpb middle disk' roots) :
    KeepsChains bpb disk disk' roots :=
  fun r isRoot clusters chain => second r isRoot clusters (first r isRoot clusters chain)

/-! ## Taking a cluster -/

/-- The search returns the first free entry, if the volume has one. -/
theorem allocFrom_spec (tables : Tables bpb disk) {left cl result target : Nat}
    (found : allocFrom bpb disk left cl = some result) (low : cl ≤ target)
    (high : target < cl + left) (inside : target < bpb.totalClusters + 2)
    (free : fatEntry bpb disk target = 0) :
    cl ≤ result ∧ result ≤ target ∧ fatEntry bpb disk result = 0 := by
  induction left generalizing cl with
  | zero => omega
  | succ left ih =>
    rw [allocFrom, fatReadEntry_eq tables (by omega)] at found
    split_ifs at found with whole
    · simp only [Option.bind_eq_bind, Option.bind_some] at found
      by_cases zero : fatEntry bpb disk cl = 0
      · rw [if_pos zero, if_pos zero] at found
        obtain rfl := Option.some.inj found
        exact ⟨le_rfl, low, zero⟩
      · rw [if_neg zero] at found
        have differs : cl ≠ target := by
          rintro rfl
          exact zero free
        obtain ⟨above, below, isFree⟩ := ih found (by omega) (by omega)
        exact ⟨by omega, below, isFree⟩
    · cases found

/-- A cluster that `alloc_cluster` may take: free, and below its search bound. -/
def FreeCluster (bpb : Bpb) (disk : Disk) (cluster : Nat) : Prop :=
  InVolume bpb cluster ∧ cluster < bpb.fatType.allocMax ∧ fatEntry bpb disk cluster = 0

theorem allocCluster_spec (tables : Tables bpb disk) {result target : Nat}
    (found : allocCluster bpb disk = some result) (free : FreeCluster bpb disk target) :
    FreeCluster bpb disk result := by
  have positive : 2 ≤ bpb.fatType.allocMax := by
    unfold FatType.allocMax
    cases bpb.fatType <;> decide
  have low := free.1.1
  have high := free.2.1
  obtain ⟨above, below, isFree⟩ := allocFrom_spec tables found low (by omega) free.1.2 free.2.2
  exact ⟨⟨above, below.trans_lt free.1.2⟩, below.trans_lt high, isFree⟩

/-- A free cluster becomes a chain of its own. -/
theorem Space.claim {roots : List Nat} (space : Space bpb disk roots)
    (free : FreeCluster bpb disk cluster) {ok : Bool}
    (wrote : fatWriteEntry bpb disk cluster (fatEoc bpb) = some (ok, disk')) :
    Relinks bpb disk disk' cluster (fatEoc bpb) ∧ Space bpb disk' (cluster :: roots) ∧
      KeepsChains bpb disk disk' roots ∧ ChainOf bpb disk' cluster [cluster] := by
  have relinks := fatWriteEntry_relinks space.volume.toTables free.1.2 (fatEoc_lt bpb) wrote
  have unused : ¬ InUse bpb disk cluster := fun used => used.2 free.2.2
  have stops : nextOf bpb disk' cluster = none := by
    rw [nextOf, relinks.entry, if_neg]
    exact fun both => space.volume.eoc_not_inVolume (fatIsEoc_fatEoc bpb) both.2
  have own : ChainOf bpb disk' cluster [cluster] := by
    refine ⟨.last stops, free.1, fun c member _ => ?_⟩
    obtain rfl := List.mem_singleton.mp member
    rw [relinks.entry]
    exact fatIsEoc_fatEoc bpb
  have kept : KeepsChains bpb disk disk' roots := fun r isRoot clusters chain =>
    chain.relinks relinks fun inside =>
      unused (space.forest.path_inUse isRoot chain.path inside)
  refine ⟨relinks, ⟨relinks.volume space.volume, ?_, ?_⟩, kept, own⟩
  · refine space.forest.claim unused stops (fun y differs => relinks.nextOf_other differs) ?_
    intro y
    by_cases here : y = cluster
    · subst here
      simp [InUse, free.1, relinks.entry, fatEoc_ne_zero]
    · simp [relinks.inUse_other here, here]
  · intro r member
    rcases List.mem_cons.mp member with rfl | old
    · exact ⟨_, own⟩
    · exact (space.chains r old).imp (kept r old)

/-! ## Changes of the table alone -/

/-- Nothing but the tables differs. -/
structure Retable (bpb : Bpb) (disk disk' : Disk) : Prop where
  readable : disk'.readable = disk.readable
  writable : disk'.writable = disk.writable
  outside : ∀ lba, lba < bpb.reservedSectors ∨
      bpb.reservedSectors + bpb.numFats * fatSectors bpb ≤ lba →
    disk'.sectors lba = disk.sectors lba

theorem Retable.refl : Retable bpb disk disk := ⟨rfl, rfl, fun _ _ => rfl⟩

theorem Retable.trans {middle : Disk} (first : Retable bpb disk middle)
    (second : Retable bpb middle disk') : Retable bpb disk disk' where
  readable := second.readable.trans first.readable
  writable := second.writable.trans first.writable
  outside := fun lba apart => (second.outside lba apart).trans (first.outside lba apart)

theorem Relinks.retable (relinks : Relinks bpb disk disk' cluster value) :
    Retable bpb disk disk' :=
  ⟨relinks.readable, relinks.writable, relinks.outside⟩

/-! ## Linking and freeing -/

/-- A cluster with a chain of its own goes behind the last cluster of another chain. -/
theorem Space.link {roots clusters : List Nat} {new first last : Nat}
    (space : Space bpb disk (new :: roots)) (own : ChainOf bpb disk new [new])
    (root : first ∈ roots) (chain : ChainOf bpb disk first clusters) (member : last ∈ clusters)
    (stops : nextOf bpb disk last = none) {ok : Bool}
    (wrote : fatWriteEntry bpb disk last new = some (ok, disk')) :
    Relinks bpb disk disk' last new ∧ Space bpb disk' roots ∧
      KeepsChains bpb disk disk' (roots.filter (· ≠ first)) ∧
      ChainOf bpb disk' first (clusters ++ [new]) := by
  have inside := chain.mem_inVolume member
  have relinks := fatWriteEntry_relinks space.volume.toTables inside.2
    (space.volume.inVolume_lt own.inVolume) wrote
  have root' : first ∈ new :: roots := List.mem_cons_of_mem new root
  have differs : new ≠ first := by
    rintro rfl
    exact (List.nodup_cons.mp space.forest.distinct).1 root
  have fresh : new ∉ clusters :=
    space.forest.root_not_mem List.mem_cons_self differs chain.path
  have apart : new ≠ last := by
    rintro rfl
    exact fresh member
  have linked : nextOf bpb disk' last = some new :=
    nextOf_eq_some.mpr ⟨inside, own.inVolume, relinks.entry⟩
  have ownStops : nextOf bpb disk new = none := by
    cases own.path with
    | last ends => exact ends
    | step _ rest => cases rest
  have newStops : nextOf bpb disk' new = none := (relinks.nextOf_other apart).trans ownStops
  have extended : ChainOf bpb disk' first (clusters ++ [new]) := by
    refine ⟨chain.path.extend fresh newStops (fun z _ goes => ?_) (fun z here ends => ?_),
      chain.inVolume, fun c here ends => ?_⟩
    · refine relinks.nextOf_other ?_
      rintro rfl
      exact goes stops
    · rw [chain.path.end_unique here ends member stops, linked]
    · by_cases isLast : c = last
      · rw [isLast, linked] at ends
        cases ends
      · rw [relinks.nextOf_other isLast] at ends
        rcases List.mem_append.mp here with old | isNew
        · exact absurd (chain.path.end_unique old ends member stops) isLast
        · obtain rfl := List.mem_singleton.mp isNew
          rw [relinks.others c own.inVolume.2 isLast]
          exact own.ends c List.mem_cons_self ends
  have kept : KeepsChains bpb disk disk' (roots.filter (· ≠ first)) := by
    intro r isOther others other
    obtain ⟨isRoot, differs⟩ := List.mem_filter.mp isOther
    have apart : first ≠ r := fun same => of_decide_eq_true differs same.symm
    exact other.relinks relinks (space.forest.disjoint root' (List.mem_cons_of_mem new isRoot)
      apart chain.path other.path member)
  refine ⟨relinks, ⟨relinks.volume space.volume, ?_, fun r isRoot => ?_⟩, kept, extended⟩
  · refine (space.forest.link (space.forest.path_inUse root' chain.path member) linked
      (fun y away => relinks.nextOf_other away)).used_congr fun y => ?_
    by_cases here : y = last
    · have positive := own.inVolume.1
      have used := space.forest.path_inUse root' chain.path member
      have nonzero : new ≠ 0 := by omega
      rw [here]
      exact ⟨fun _ => used, fun _ => ⟨inside, relinks.entry ▸ nonzero⟩⟩
    · exact relinks.inUse_other here
  · by_cases same : r = first
    · exact ⟨_, same ▸ extended⟩
    · exact (space.chains r (List.mem_cons_of_mem new isRoot)).imp
        (kept r (List.mem_filter.mpr ⟨isRoot, decide_eq_true same⟩))

/-- The rest of a chain is a chain without its first cluster. -/
theorem ChainOf.rest {first next : Nat} {rest : List Nat}
    (chain : ChainOf bpb disk first (first :: rest)) (link : nextOf bpb disk first = some next) :
    ChainOf bpb disk next rest ∧ first ∉ rest := by
  cases chain.path with
  | last stops =>
    rw [link] at stops
    cases stops
  | step first' path =>
    obtain rfl := Option.some.inj (link.symm.trans first')
    exact ⟨⟨path, (nextOf_eq_some.mp link).2.1, fun c member =>
      chain.ends c (List.mem_cons_of_mem _ member)⟩, (List.nodup_cons.mp chain.path.nodup).1⟩

theorem freeFrom_stop {left : Nat} (marker : fatIsEoc bpb cluster = true) :
    freeFrom bpb left cluster disk = some disk := by
  cases left with
  | zero => rfl
  | succ left => rw [freeFrom, if_neg (fun goes => goes.1 marker)]

end DBSos.Fat
