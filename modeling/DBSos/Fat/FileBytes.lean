import DBSos.Fat.ChainGrowth
import DBSos.Fat.ClusterBytes

/-!
# The bytes of a file

The bytes of a file are those of the sectors of its chain, in order. Growing the chain keeps
them, and writing into one cluster replaces a range of them.
-/

namespace DBSos.Fat

variable {bpb : Bpb} {disk disk' : Disk} {roots clusters clusters' : List Nat}
  {first cluster k start : Nat}

/-- How many bytes a cluster has. -/
def clusterSize (bpb : Bpb) : Nat := 512 * bpb.sectorsPerCluster

/-- A byte of the file with these clusters. -/
def fileByte (bpb : Bpb) (disk : Disk) (clusters : List Nat) (i : Nat) : Option UInt8 :=
  ((fileLbas bpb clusters)[i / 512]?).map fun lba => disk.sectors lba (i % 512)

/-- A byte of the file with this first cluster. -/
def chainByte (bpb : Bpb) (disk : Disk) (first i : Nat) : Option UInt8 :=
  fileByte bpb disk (clustersOf bpb disk first) i

/-- A range of the bytes of a file is replaced, and the others are as they were. -/
structure Wrote (bpb : Bpb) (disk disk' : Disk) (clusters clusters' : List Nat) (start : Nat)
    (bytes : List UInt8) : Prop where
  inside : ∀ i < bytes.length, fileByte bpb disk' clusters' (start + i) = bytes[i]?
  kept : ∀ i b, fileByte bpb disk clusters i = some b →
    i < start ∨ start + bytes.length ≤ i → fileByte bpb disk' clusters' i = some b

theorem Wrote.trans {middle : Disk} {between : List Nat} {bytes more : List UInt8}
    (before : Wrote bpb disk middle clusters between start bytes)
    (after : Wrote bpb middle disk' between clusters' (start + bytes.length) more) :
    Wrote bpb disk disk' clusters clusters' start (bytes ++ more) where
  inside := by
    intro i below
    rw [List.length_append] at below
    by_cases early : i < bytes.length
    · rw [List.getElem?_append_left early, List.getElem?_eq_getElem early]
      refine after.kept _ _ ((before.inside i early).trans (List.getElem?_eq_getElem early)) ?_
      exact .inl (by omega)
    · obtain ⟨j, rfl⟩ := Nat.exists_eq_add_of_le (Nat.le_of_not_lt early)
      rw [List.getElem?_append_right (by omega), Nat.add_sub_cancel_left, ← Nat.add_assoc]
      exact after.inside j (by omega)
  kept := by
    intro i b isByte outside
    rw [List.length_append] at outside
    refine after.kept i b (before.kept i b isByte ?_) ?_ <;> omega

/-! ## Positions -/

/-- A byte of a file by its cluster and its position in it. -/
theorem fileByte_eq (positive : 0 < bpb.sectorsPerCluster) (disk : Disk) (clusters : List Nat)
    (i : Nat) : fileByte bpb disk clusters i =
      (clusters[i / clusterSize bpb]?).map fun c =>
        byteAt disk (sectorOf bpb c 0) (i % clusterSize bpb) := by
  rw [fileByte, fileLbas, getElem?_flatMap_clusterLbas positive, Nat.div_div_eq_div_mul,
    Option.map_map, clusterSize]
  congr 1
  funext c
  rw [Function.comp_apply, byteAt, sectorOf, Nat.mod_mul_right_div_self, Nat.mod_mul_right_mod]
  rfl

theorem fileByte_at (positive : 0 < bpb.sectorsPerCluster) (at_ : clusters[k]? = some cluster)
    {x : Nat} (below : x < clusterSize bpb) :
    fileByte bpb disk clusters (k * clusterSize bpb + x) =
      some (byteAt disk (sectorOf bpb cluster 0) x) := by
  have size : 0 < clusterSize bpb := by omega
  rw [fileByte_eq positive, Nat.mul_comm, Nat.mul_add_div size, Nat.div_eq_of_lt below, Nat.add_zero,
    at_, Nat.mul_add_mod, Nat.mod_eq_of_lt below]
  rfl

/-- Growing the chain keeps the bytes. -/
theorem Grows.wrote (grows : Grows bpb disk disk' roots first clusters clusters')
    (tables : Tables bpb disk) : Wrote bpb disk disk' clusters clusters' start [] where
  inside := fun _ below => absurd below (Nat.not_lt_zero _)
  kept := by
    intro i b isByte _
    obtain ⟨lba, at_, isB⟩ := Option.map_eq_some_iff.mp isByte
    obtain ⟨more, rfl⟩ := grows.grown
    obtain ⟨c, -, inCluster⟩ := List.mem_flatMap.mp (List.mem_of_getElem? at_)
    obtain ⟨sec, -, rfl⟩ := List.mem_map.mp inCluster
    rw [fileLbas] at at_
    have inside := (List.getElem?_eq_some_iff.mp at_).1
    rw [fileByte, fileLbas, List.flatMap_append, List.getElem?_append_left inside]
    exact Option.map_eq_some_iff.mpr ⟨_, at_, (congrFun (grows.retable.sectorOf tables c sec) _).trans isB⟩

/-! ## Writing into one cluster -/

theorem byteAt_overwrite (disk : Disk) (lba start stop x : Nat) (byte : Nat → UInt8) :
    byteAt (overwrite disk lba start stop byte) lba x =
      if start ≤ x ∧ x < stop then byte x else byteAt disk lba x := by
  have position : (lba + x / 512 - lba) * 512 + x % 512 = x := by omega
  have low : x % 512 < 512 := Nat.mod_lt _ (by decide)
  unfold byteAt overwrite
  dsimp only
  rw [position]
  by_cases inside : start ≤ x ∧ x < stop
  · rw [if_pos inside, if_pos ⟨by omega, low, inside⟩]
  · rw [if_neg inside, if_neg fun all => inside all.2.2]

/-- No sector outside is touched. -/
theorem overwrite_other {lba stop count l : Nat} (byte : Nat → UInt8) (fits : stop ≤ count * 512)
    (outside : l < lba ∨ lba + count ≤ l) :
    (overwrite disk lba start stop byte).sectors l = disk.sectors l := by
  funext j
  unfold overwrite
  dsimp only
  rw [if_neg (by omega)]

theorem KeepsTables.nextOf_eq (kept : KeepsTables bpb disk disk') (tables : Tables bpb disk) :
    nextOf bpb disk' = nextOf bpb disk := by
  funext c
  exact nextOf_congr fun inside => kept.fatEntry_eq tables (tables.covers c inside.2)

theorem KeepsTables.chainOf (kept : KeepsTables bpb disk disk') (tables : Tables bpb disk)
    (chain : ChainOf bpb disk first clusters) : ChainOf bpb disk' first clusters :=
  chain.congr fun c member =>
    kept.fatEntry_eq tables (tables.covers c (chain.mem_inVolume member).2)

/-- Data that is written leaves the links of the volume. -/
theorem FileOf.data (file : FileOf bpb disk roots first clusters)
    (kept : KeepsTables bpb disk disk') : FileOf bpb disk' roots first clusters := by
  have tables := file.space.volume.toTables
  refine ⟨⟨file.space.volume.of_access kept.readable kept.writable, ?_, fun r root => ?_⟩,
    file.root, kept.chainOf tables file.chain⟩
  · rw [kept.nextOf_eq tables]
    refine file.space.forest.used_congr fun c => and_congr_right fun inside => ?_
    rw [kept.fatEntry_eq tables (tables.covers c inside.2)]
  · exact (file.space.chains r root).imp fun _ => kept.chainOf tables

/-- What a write of a range of one cluster does to the file. -/
theorem FileOf.of_overwrite {stop : Nat} {byte : Nat → UInt8} {bytes : List UInt8}
    (file : FileOf bpb disk roots first clusters) (at_ : clusters[k]? = some cluster)
    (length : start + bytes.length = stop) (fits : stop ≤ clusterSize bpb)
    (slice : ∀ i < bytes.length, bytes[i]? = some (byte (start + i))) :
    FileOf bpb (overwrite disk (sectorOf bpb cluster 0) start stop byte) roots first clusters ∧
      KeepsTables bpb disk (overwrite disk (sectorOf bpb cluster 0) start stop byte) ∧
      Evolves bpb disk (overwrite disk (sectorOf bpb cluster 0) start stop byte) roots first
        clusters clusters ∧
      Wrote bpb disk (overwrite disk (sectorOf bpb cluster 0) start stop byte) clusters clusters
        (k * clusterSize bpb + start) bytes := by
  have tables := file.space.volume.toTables
  have positive := tables.sectorsPerCluster
  have begins := tables.dataStart
  have behind := dataStart_le_sectorOf bpb cluster 0
  have size : clusterSize bpb = bpb.sectorsPerCluster * 512 := Nat.mul_comm _ _
  have member := List.mem_of_getElem? at_
  have inside := file.chain.mem_inVolume member
  have kept : KeepsTables bpb disk
      (overwrite disk (sectorOf bpb cluster 0) start stop byte) :=
    ⟨rfl, rfl, fun lba below => overwrite_other byte (size ▸ fits) (.inl (by omega))⟩
  refine ⟨file.data kept, kept, ⟨rfl, rfl, List.prefix_rfl, fun _ _ _ chain =>
    kept.chainOf tables chain, fun lba _ outside => ?_⟩, fun i below => ?_, fun i b isByte apart => ?_⟩
  · refine overwrite_other byte (size ▸ fits) (sectorOf_outside fun sec below same => outside ?_)
    exact List.mem_flatMap.mpr ⟨cluster, member, same ▸ sectorOf_mem bpb cluster below⟩
  · rw [Nat.add_assoc, fileByte_at positive at_ (by omega), byteAt_overwrite, if_pos (by omega),
      slice i below]
  · rw [fileByte_eq positive] at isByte ⊢
    obtain ⟨c, atC, isB⟩ := Option.map_eq_some_iff.mp isByte
    refine Option.map_eq_some_iff.mpr ⟨c, atC, ?_⟩
    have parts := Nat.div_add_mod i (clusterSize bpb)
    have low : i % clusterSize bpb < clusterSize bpb := Nat.mod_lt _ (by omega)
    by_cases here : c = cluster
    · -- the same cluster, at a position outside the range
      subst here
      have index : i / clusterSize bpb = k := by
        have distinct := file.chain.path.nodup
        obtain ⟨inside₁, is₁⟩ := List.getElem?_eq_some_iff.mp atC
        obtain ⟨inside₂, is₂⟩ := List.getElem?_eq_some_iff.mp at_
        exact (distinct.getElem_inj_iff).mp (is₁.trans is₂.symm)
      rw [index, Nat.mul_comm] at parts
      rw [byteAt_overwrite, if_neg (by omega)]
      exact isB
    · rw [← isB, byteAt, byteAt]
      refine congrFun (overwrite_other byte (size ▸ fits) (sectorOf_outside fun sec below same => ?_)) _
      have inC : sectorOf bpb c 0 + i % clusterSize bpb / 512 ∈ clusterLbas bpb c := by
        have sector : i % clusterSize bpb / 512 < bpb.sectorsPerCluster := by omega
        exact sectorOf_mem bpb c sector
      exact clusterLbas_disjoint tables (file.chain.mem_inVolume (List.mem_of_getElem? atC)).1
        inside.1 here inC (same ▸ sectorOf_mem bpb cluster below)

end DBSos.Fat
