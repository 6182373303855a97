import DBSos.Fat.FileBytes

/-!
# What was written is read back

A write replaces a range of the bytes of a file and lets its chain grow; a read of that
range then gets the same bytes. The other files keep their chains and bytes.
-/

namespace DBSos.Fat

variable {bpb : Bpb} {disk disk' : Disk} {roots clusters clusters' : List Nat}
  {first cluster k last left intra start done : Nat} {data : List UInt8}

/-- What a run of the loop leaves, from a position of the file on. -/
structure Run (bpb : Bpb) (disk disk' : Disk) (roots : List Nat) (first : Nat)
    (clusters clusters' : List Nat) (start : Nat) (bytes : List UInt8) : Prop where
  file : FileOf bpb disk' roots first clusters'
  evolves : Evolves bpb disk disk' roots first clusters clusters'
  wrote : Wrote bpb disk disk' clusters clusters' start bytes

theorem Run.trans {middle : Disk} {between : List Nat} {bytes more : List UInt8}
    (before : Run bpb disk middle roots first clusters between start bytes)
    (after : Run bpb middle disk' roots first between clusters' (start + bytes.length) more) :
    Run bpb disk disk' roots first clusters clusters' start (bytes ++ more) :=
  ⟨after.file, before.evolves.trans after.evolves, before.wrote.trans after.wrote⟩

theorem Grows.run (grows : Grows bpb disk disk' roots first clusters clusters')
    (tables : Tables bpb disk) (file : FileOf bpb disk' roots first clusters') :
    Run bpb disk disk' roots first clusters clusters' start [] :=
  ⟨file, grows.evolves, grows.wrote tables⟩

/-- A walk from one cluster of a chain to a later one reads whole entries. -/
structure Walkable (bpb : Bpb) (clusters : List Nat) (k last : Nat) : Prop where
  long : last < clusters.length
  whole : ∀ j c, k ≤ j → j < last → clusters[j]? = some c → Whole bpb c

theorem Walkable.next (walkable : Walkable bpb clusters k last) :
    Walkable bpb clusters (k + 1) last :=
  ⟨walkable.long, fun j c low => walkable.whole j c (Nat.le_of_succ_le low)⟩

theorem Walkable.grown (walkable : Walkable bpb clusters k last) (grown : clusters <+: clusters') :
    Walkable bpb clusters' k last := by
  obtain ⟨more, rfl⟩ := grown
  refine ⟨walkable.long.trans_le (by simp), fun j c low high at_ => ?_⟩
  rw [List.getElem?_append_left (high.trans walkable.long)] at at_
  exact walkable.whole j c low high at_

theorem Walkable.cons (at_ : clusters[k]? = some cluster) (isWhole : Whole bpb cluster)
    (rest : Walkable bpb clusters (k + 1) last) : Walkable bpb clusters k last := by
  refine ⟨rest.long, fun j c low high atJ => ?_⟩
  rcases Nat.eq_or_lt_of_le low with rfl | later
  · rw [← Option.some.inj (at_.symm.trans atJ)]
    exact isWhole
  · exact rest.whole j c later high atJ

/-! ## One cluster -/

theorem sectorsOf_eq (bpb : Bpb) (sectorSize : bpb.bytesPerSector = 512) (start stop : Nat) :
    sectorsOf bpb.bytesPerSector start stop =
      List.range' (start / 512) ((stop + 511) / 512 - start / 512) := by
  rw [sectorsOf, sectorSize, Nat.add_sub_assoc (by decide)]

theorem reachedAt_start {lastByte : Nat} (some : intra < lastByte) :
    reachedAt intra lastByte (intra / 512) = intra := by
  unfold reachedAt
  omega

/-- The sectors of a range of a cluster of the volume. -/
theorem sectorOf_lt (inside : InVolume bpb cluster) {stop t : Nat} (fits : stop ≤ clusterSize bpb)
    (below : t < (stop + 511) / 512) :
    sectorOf bpb cluster 0 + t < bpb.dataStart + bpb.totalClusters * bpb.sectorsPerCluster := by
  have sec : t < bpb.sectorsPerCluster := by
    unfold clusterSize at fits
    omega
  exact (clusterLbas_bounds inside (sectorOf_mem bpb cluster sec)).2

/-- What one round puts at a position of its cluster. -/
def roundByte (data : List UInt8) (done intra x : Nat) : UInt8 := data.getD (done + (x - intra)) 0

theorem roundByte_eq {i : Nat} (bound : done + i < data.length) :
    data[done + i]? = some (roundByte data done intra (intra + i)) := by
  rw [roundByte, Nat.add_sub_cancel_left, List.getD_eq_getElem?_getD, List.getElem?_eq_getElem bound]
  rfl

/-- One round of `write_chain` in its cluster. -/
theorem writeSectors_cluster {stop : Nat} (volume : Volume bpb disk)
    (inside : InVolume bpb cluster) (inCluster : intra < clusterSize bpb)
    (more : done < data.length)
    (isStop : stop = intra + min (data.length - done) (clusterSize bpb - intra)) :
    writeSectors bpb (sectorOf bpb cluster 0) intra stop data
        (sectorsOf bpb.bytesPerSector intra stop) (disk, done) =
      some ⟨(overwrite disk (sectorOf bpb cluster 0) intra stop (roundByte data done intra),
        done + (stop - intra)), false⟩ := by
  have some : intra < stop := by omega
  have reached := reachedAt_start some
  have lbas : ∀ t < intra / 512 + ((stop + 511) / 512 - intra / 512),
      sectorOf bpb cluster 0 + t < bpb.dataStart + bpb.totalClusters * bpb.sectorsPerCluster :=
    fun t below => sectorOf_lt inside (by omega) (by omega : t < (stop + 511) / 512)
  have slice : ∀ i, reachedAt intra stop (intra / 512) + i < stop →
      data[done + i]? = .some (roundByte data done intra (reachedAt intra stop (intra / 512) + i)) := by
    intro i below
    rw [reached] at below ⊢
    exact roundByte_eq (by omega)
  have all := writeSectors_eq volume.bytesPerSector
    (fun t _ below => volume.readable _ (lbas t below))
    (fun t _ below => volume.writable _ (lbas t below)) le_rfl some (by omega) slice
  rw [reached] at all
  rw [sectorsOf_eq bpb volume.bytesPerSector, all]

/-- One round of `read_chain` in its cluster. -/
theorem readSectors_cluster {len stop : Nat} {out : List UInt8} (tables : Tables bpb disk)
    (inside : InVolume bpb cluster) (inCluster : intra < clusterSize bpb) (more : out.length < len)
    (isStop : stop = intra + min (len - out.length) (clusterSize bpb - intra)) :
    readSectors bpb disk (sectorOf bpb cluster 0) intra stop len
        (sectorsOf bpb.bytesPerSector intra stop) out =
      some ⟨out ++ (List.range' intra (stop - intra)).map
        (byteAt disk (sectorOf bpb cluster 0)), false⟩ := by
  have some : intra < stop := by omega
  have reached := reachedAt_start some
  have lbas : ∀ t < intra / 512 + ((stop + 511) / 512 - intra / 512),
      sectorOf bpb cluster 0 + t < bpb.dataStart + bpb.totalClusters * bpb.sectorsPerCluster :=
    fun t below => sectorOf_lt inside (by omega) (by omega : t < (stop + 511) / 512)
  -- either the buffer is full, or the cluster is read to its end
  have whole : stop % 512 = 0 ∨ len ≤ out.length + (stop - intra) := by
    unfold clusterSize at isStop
    omega
  have all := readSectors_eq tables.bytesPerSector len out
    (fun t _ below => tables.readable _ (lbas t below)) le_rfl some (by omega)
    (by omega) (by rw [reached]; exact whole)
  rw [reached] at all
  rw [sectorsOf_eq bpb tables.bytesPerSector, all]

/-! ## The loop of `write_chain` -/

theorem clusterToLba_of_inVolume (inside : InVolume bpb cluster) :
    clusterToLba bpb cluster = some (sectorOf bpb cluster 0) := by
  have low := inside.1
  rw [clusterToLba, if_neg (by omega)]
  rfl

/-- One round of `write_chain` puts the next bytes of the data into the file. -/
theorem FileOf.round {stop : Nat} (file : FileOf bpb disk roots first clusters)
    (at_ : clusters[k]? = some cluster) (inCluster : intra < clusterSize bpb)
    (more : done < data.length)
    (isStop : stop = intra + min (data.length - done) (clusterSize bpb - intra)) :
    Run bpb disk (overwrite disk (sectorOf bpb cluster 0) intra stop (roundByte data done intra))
        roots first clusters clusters (k * clusterSize bpb + intra)
        ((data.drop done).take (stop - intra)) ∧
      KeepsTables bpb disk
        (overwrite disk (sectorOf bpb cluster 0) intra stop (roundByte data done intra)) := by
  have length : ((data.drop done).take (stop - intra)).length = stop - intra := by
    rw [List.length_take, List.length_drop]
    omega
  obtain ⟨file', kept, evolves, wrote⟩ := @FileOf.of_overwrite bpb disk roots clusters first cluster
    k intra stop (roundByte data done intra) ((data.drop done).take (stop - intra)) file at_
    (by omega) (by omega) fun i below => by
      rw [length] at below
      rw [List.getElem?_take_of_lt below, List.getElem?_drop, roundByte_eq (by omega)]
  exact ⟨⟨file', evolves, wrote⟩, kept⟩

/-- The loop writes all the rest, and the clusters in front of the last one are whole. -/
theorem writeClusters_spec (file : FileOf bpb disk roots first clusters)
    (supplied : Supplied bpb disk (last + 1 - clusters.length)) (at_ : clusters[k]? = some cluster)
    (inCluster : intra < clusterSize bpb) (more : done < data.length)
    (enough : k * clusterSize bpb + intra + (data.length - done) ≤ (last + 1) * clusterSize bpb)
    (needed : last * clusterSize bpb < k * clusterSize bpb + intra + (data.length - done))
    (wrote : writeClusters bpb data left cluster intra (disk, done) = some (disk', data.length)) :
    last < k + left ∧ ∃ clusters', Walkable bpb clusters' k last ∧
      Run bpb disk disk' roots first clusters clusters' (k * clusterSize bpb + intra)
        (data.drop done) := by
  induction left generalizing disk clusters k cluster intra done with
  | zero =>
    have same := congrArg Prod.snd (Option.some.inj wrote)
    exact absurd same (Nat.ne_of_lt more)
  | succ left ih =>
    have tables := file.space.volume.toTables
    have inside := file.chain.mem_inVolume (List.mem_of_getElem? at_)
    have low := inside.1
    generalize isStop : intra + min (data.length - done) (clusterSize bpb - intra) = stop
    rw [writeClusters, if_neg (by omega), if_neg (by omega),
      if_neg (by simp [tables.not_eoc inside])] at wrote
    simp only [Option.bind_eq_bind, Option.bind_some, clusterToLba_of_inVolume inside] at wrote
    rw [if_neg (by omega), tables.bytesPerSector, ← clusterSize, isStop,
      ← tables.bytesPerSector, writeSectors_cluster file.space.volume inside inCluster more
        isStop.symm] at wrote
    simp only [Option.bind_some, Bool.false_eq_true, false_or] at wrote
    obtain ⟨round, kept⟩ := file.round at_ inCluster more isStop.symm
    generalize overwrite disk (sectorOf bpb cluster 0) intra stop (roundByte data done intra) =
      written at wrote round kept
    by_cases finished : data.length ≤ done + (stop - intra)
    · -- the data ends in this cluster
      rw [if_pos finished] at wrote
      obtain ⟨rfl, -⟩ := Prod.mk.inj (Option.some.inj wrote)
      have lastHere : last ≤ k := by
        by_contra later
        have rows := Nat.mul_le_mul_right (clusterSize bpb) (Nat.lt_of_not_le later)
        rw [Nat.succ_mul] at rows
        omega
      rw [List.take_of_length_le (by rw [List.length_drop]; omega)] at round
      have bound := (List.getElem?_eq_some_iff.mp at_).1
      exact ⟨by omega, clusters, ⟨by omega, fun j c low high => by omega⟩, round⟩
    · rw [if_neg finished] at wrote
      obtain ⟨⟨next, relinked⟩, step, later⟩ := Option.bind_eq_some_iff.mp wrote
      have goesOn : k < last := by
        by_contra ends
        have rows := Nat.mul_le_mul_right (clusterSize bpb) 
          (Nat.add_le_add_right (Nat.le_of_not_lt ends) 1)
        rw [Nat.succ_mul k] at rows
        omega
      obtain ⟨whole, ⟨rfl, rfl⟩ | ⟨nonzero, clusters', file', supplied', atNext, grows⟩⟩ :=
        nextCluster_spec round.file (supplied.data tables kept) at_ goesOn step
      · have same := congrArg Prod.snd (Option.some.inj later)
        dsimp only at same
        omega
      dsimp only at later
      rw [if_neg nonzero] at later
      have start : (k + 1) * clusterSize bpb + 0 = k * clusterSize bpb + intra + (stop - intra) := by
        rw [Nat.succ_mul]
        omega
      have length : ((data.drop done).take (stop - intra)).length = stop - intra := by
        rw [List.length_take, List.length_drop]
        omega
      obtain ⟨bound, clusters'', walkable, rest⟩ := ih file' supplied' atNext
        (by omega) (by omega) (by omega) (by omega) later
      refine ⟨by omega, clusters'', .cons ?_ whole walkable, ?_⟩
      · obtain ⟨more, rfl⟩ := grows.grown.trans rest.evolves.grown
        rw [List.getElem?_append_left (List.getElem?_eq_some_iff.mp at_).1]
        exact at_
      · have both : Run bpb written disk' roots first clusters clusters''
            (k * clusterSize bpb + intra + ((data.drop done).take (stop - intra)).length)
            (data.drop (done + (stop - intra))) := by
          rw [length, ← start]
          exact (grows.run round.file.space.volume.toTables file').trans rest
        have all := round.trans both
        rw [← List.drop_drop, List.take_append_drop] at all
        exact all

/-- The clusters in front of the offset are skipped or taken, and their entries are whole. -/
theorem reachCluster_spec {skip reached : Nat} (file : FileOf bpb disk roots first clusters)
    (supplied : Supplied bpb disk (last + 1 - clusters.length)) (at_ : clusters[k]? = some cluster)
    (before : k + skip ≤ last) (nonzero : reached ≠ 0)
    (done : reachCluster bpb left skip cluster disk = some (reached, disk')) :
    skip ≤ left ∧ ∃ clusters', FileOf bpb disk' roots first clusters' ∧
      Supplied bpb disk' (last + 1 - clusters'.length) ∧ clusters'[k + skip]? = some reached ∧
      Walkable bpb clusters' k (k + skip) ∧
      Grows bpb disk disk' roots first clusters clusters' := by
  induction skip generalizing left disk clusters k cluster with
  | zero =>
    rw [reachCluster] at done
    obtain ⟨rfl, rfl⟩ := Prod.mk.inj (Option.some.inj done)
    have bound := (List.getElem?_eq_some_iff.mp at_).1
    exact ⟨Nat.zero_le _, clusters, file, supplied, at_,
      ⟨bound, fun j c low high => by omega⟩, .refl⟩
  | succ skip ih =>
    cases left with
    | zero =>
      rw [reachCluster] at done
      obtain ⟨zero, -⟩ := Prod.mk.inj (Option.some.inj done)
      exact absurd zero.symm nonzero
    | succ left =>
      rw [reachCluster] at done
      obtain ⟨⟨next, grown⟩, step, later⟩ := Option.bind_eq_some_iff.mp done
      dsimp only at later
      obtain ⟨whole, ⟨rfl, rfl⟩ | ⟨goesOn, between, file', supplied', atNext, grows⟩⟩ :=
        nextCluster_spec file supplied at_ (by omega) step
      · rw [if_pos rfl] at later
        obtain ⟨zero, -⟩ := Prod.mk.inj (Option.some.inj later)
        exact absurd zero.symm nonzero
      rw [if_neg goesOn] at later
      have index : k + 1 + skip = k + (skip + 1) := by omega
      obtain ⟨bound, clusters', fileEnd, suppliedEnd, atEnd, walkable, growsEnd⟩ :=
        ih file' supplied' atNext (by omega) later
      rw [index] at atEnd walkable
      refine ⟨by omega, clusters', fileEnd, suppliedEnd, atEnd, .cons ?_ whole walkable,
        grows.trans growsEnd⟩
      obtain ⟨more, rfl⟩ := grows.grown.trans growsEnd.grown
      rw [List.getElem?_append_left (List.getElem?_eq_some_iff.mp at_).1]
      exact at_

/-! ## Reading -/

/-- A whole entry of the chain reads as the next cluster. -/
theorem ChainOf.read_next (chain : ChainOf bpb disk first clusters) (tables : Tables bpb disk)
    (walkable : Walkable bpb clusters k last) (before : k < last)
    (at_ : clusters[k]? = some cluster) :
    ∃ next, clusters[k + 1]? = some next ∧ fatReadEntry bpb disk cluster = some next := by
  have long := walkable.long
  have follows := chain.path.next_eq at_
  rw [List.getElem?_eq_getElem (by omega)] at follows
  obtain ⟨-, -, entry⟩ := nextOf_eq_some.mp follows
  refine ⟨_, List.getElem?_eq_getElem (by omega), ?_⟩
  rw [fatReadEntry_eq tables (chain.mem_inVolume (List.mem_of_getElem? at_)).2,
    if_pos (walkable.whole k cluster le_rfl before at_), entry]

theorem skipClusters_eq {skip : Nat} (chain : ChainOf bpb disk first clusters)
    (tables : Tables bpb disk) (walkable : Walkable bpb clusters k (k + skip))
    (at_ : clusters[k]? = some cluster) (rounds : skip ≤ left) :
    skipClusters bpb disk left skip cluster = some clusters[k + skip]? := by
  induction skip generalizing left k cluster with
  | zero => rw [skipClusters, Nat.add_zero, at_]
  | succ skip ih =>
    obtain ⟨left, rfl⟩ := Nat.exists_eq_add_of_le' (Nat.one_le_of_lt rounds)
    have inside := chain.mem_inVolume (List.mem_of_getElem? at_)
    have low := inside.1
    obtain ⟨next, atNext, read⟩ := chain.read_next tables walkable (by omega) at_
    have index : k + 1 + skip = k + (skip + 1) := by omega
    rw [skipClusters, if_neg (by simp [tables.not_eoc inside]; omega), read]
    simp only [Option.bind_eq_bind, Option.bind_some]
    rw [← index] at walkable ⊢
    exact ih walkable.next atNext (by omega)

/-- The bytes of a range of a file. -/
def fileBytes (bpb : Bpb) (disk : Disk) (clusters : List Nat) (start count : Nat) : List UInt8 :=
  (List.range' start count).map fun i => (fileByte bpb disk clusters i).getD 0

theorem fileBytes_append (bpb : Bpb) (disk : Disk) (clusters : List Nat) (start m n : Nat) :
    fileBytes bpb disk clusters start m ++ fileBytes bpb disk clusters (start + m) n =
      fileBytes bpb disk clusters start (m + n) := by
  rw [fileBytes, fileBytes, fileBytes, ← List.map_append, List.range'_append_1]

/-- The bytes of a range of one cluster. -/
theorem fileBytes_cluster (positive : 0 < bpb.sectorsPerCluster) (disk : Disk)
    (at_ : clusters[k]? = some cluster) {count : Nat} (fits : intra + count ≤ clusterSize bpb) :
    (List.range' intra count).map (byteAt disk (sectorOf bpb cluster 0)) =
      fileBytes bpb disk clusters (k * clusterSize bpb + intra) count := by
  rw [fileBytes, List.range'_eq_map_range, List.range'_eq_map_range, List.map_map, List.map_map]
  refine List.map_congr_left fun i below => ?_
  rw [List.mem_range] at below
  rw [Function.comp_apply, Function.comp_apply, Nat.add_assoc, fileByte_at positive at_ (by omega)]
  rfl

/-- The loop of `read_chain` appends the rest of the range. -/
theorem readClusters_eq {len : Nat} {out : List UInt8} (chain : ChainOf bpb disk first clusters)
    (tables : Tables bpb disk) (walkable : Walkable bpb clusters k last)
    (at_ : clusters[k]? = some cluster) (inCluster : intra < clusterSize bpb)
    (more : out.length < len) (rounds : last < k + left)
    (enough : k * clusterSize bpb + intra + (len - out.length) ≤ (last + 1) * clusterSize bpb) :
    readClusters bpb disk len left cluster intra out =
      some (out ++ fileBytes bpb disk clusters (k * clusterSize bpb + intra) (len - out.length)) := by
  induction left generalizing k cluster intra out with
  | zero =>
    have rows := Nat.mul_le_mul_right (clusterSize bpb) (Nat.succ_le_of_lt rounds)
    dsimp only [Nat.succ_eq_add_one, Nat.add_zero] at rows
    omega
  | succ left ih =>
    have inside := chain.mem_inVolume (List.mem_of_getElem? at_)
    have low := inside.1
    generalize isStop : intra + min (len - out.length) (clusterSize bpb - intra) = stop
    have readBytes := fileBytes_cluster tables.sectorsPerCluster disk at_
      (by omega : intra + (stop - intra) ≤ clusterSize bpb)
    have all := fileBytes_append bpb disk clusters (k * clusterSize bpb + intra) (stop - intra)
      (len - out.length - (stop - intra))
    rw [Nat.add_sub_cancel' (by omega)] at all
    rw [readClusters, if_neg (by omega), if_neg (by simp [tables.not_eoc inside]; omega)]
    simp only [Option.bind_eq_bind, Option.bind_some, clusterToLba_of_inVolume inside]
    rw [tables.bytesPerSector, ← clusterSize, isStop, ← tables.bytesPerSector,
      readSectors_cluster tables inside inCluster more isStop.symm, readBytes, ← all]
    generalize fileBytes bpb disk clusters (k * clusterSize bpb + intra) (stop - intra) = bytes at *
    simp only [Option.bind_some, Bool.false_eq_true, false_or]
    have length : (out ++ bytes).length = out.length + (stop - intra) := by
      rw [← readBytes]
      simp
    by_cases finished : len ≤ out.length + (stop - intra)
    · -- the buffer ends in this cluster
      rw [if_pos (length ▸ finished), show len - out.length - (stop - intra) = 0 by omega]
      simp [fileBytes]
    · have goesOn : k < last := by
        by_contra ends
        have rows := Nat.mul_le_mul_right (clusterSize bpb)
          (Nat.add_le_add_right (Nat.le_of_not_lt ends) 1)
        rw [Nat.succ_mul k] at rows
        omega
      obtain ⟨next, atNext, read⟩ := chain.read_next tables walkable goesOn at_
      have start : (k + 1) * clusterSize bpb + 0 =
          k * clusterSize bpb + intra + (stop - intra) := by
        rw [Nat.succ_mul]
        omega
      rw [if_neg (length ▸ finished), read, Option.bind_some,
        ih walkable.next atNext (by omega) (by omega) (by omega) (by omega),
        start, length, ← List.append_assoc, Nat.sub_sub]

/-! ## A whole call -/

/-- How many clusters hold so many bytes. -/
def clustersFor (bpb : Bpb) (bytes : Nat) : Nat := (bytes + clusterSize bpb - 1) / clusterSize bpb

/-- What was written is read back, and nothing else of the file or of another file differs. -/
structure WritesBack (bpb : Bpb) (disk disk' : Disk) (roots : List Nat) (first offset : Nat)
    (data : List UInt8) : Prop where
  reads : readChain bpb disk' first offset data.length = some data
  kept : ∀ i b, chainByte bpb disk first i = some b → i < offset ∨ offset + data.length ≤ i →
    chainByte bpb disk' first i = some b
  chains : KeepsChains bpb disk disk' (roots.filter (· ≠ first))
  contents : ∀ other ∈ roots, other ≠ first → ∀ i,
    chainByte bpb disk' other i = chainByte bpb disk other i

/-- The bytes that a run has written. -/
theorem Wrote.fileBytes_eq {bytes : List UInt8}
    (wrote : Wrote bpb disk disk' clusters clusters' start bytes) :
    fileBytes bpb disk' clusters' start bytes.length = bytes := by
  refine List.ext_getElem? fun i => ?_
  rw [fileBytes, List.range'_eq_map_range, List.map_map, List.getElem?_map]
  by_cases below : i < bytes.length
  · rw [List.getElem?_range below, Option.map_some, Function.comp_apply, wrote.inside i below,
      List.getElem?_eq_getElem below]
    rfl
  · rw [List.getElem?_eq_none (by simpa using below), List.getElem?_eq_none (by omega)]
    rfl

/-- The sectors of another file are not touched. -/
theorem Evolves.contents (evolves : Evolves bpb disk disk' roots first clusters clusters')
    (file : FileOf bpb disk' roots first clusters') (space : Space bpb disk roots) {other : Nat}
    (isRoot : other ∈ roots) (differs : other ≠ first) (i : Nat) :
    chainByte bpb disk' other i = chainByte bpb disk other i := by
  have tables := space.volume.toTables
  have begins := tables.dataStart
  obtain ⟨others, chain⟩ := space.chains other isRoot
  have chain' := evolves.kept other (List.mem_filter.mpr ⟨isRoot, decide_eq_true differs⟩) others chain
  rw [chainByte, chainByte, chain.clustersOf_eq, chain'.clustersOf_eq, fileByte, fileByte]
  refine Option.map_congr fun lba at_ => congrFun (evolves.others lba ?_ fun inFile => ?_) _
  · obtain ⟨c, inOthers, inCluster⟩ := List.mem_flatMap.mp (List.mem_of_getElem? at_)
    have behind := (clusterLbas_bounds (chain.mem_inVolume inOthers) inCluster).1
    omega
  · obtain ⟨c, inOthers, inCluster⟩ := List.mem_flatMap.mp (List.mem_of_getElem? at_)
    obtain ⟨c', inOwn, inCluster'⟩ := List.mem_flatMap.mp inFile
    have apart : c ≠ c' := by
      rintro rfl
      exact file.space.forest.disjoint isRoot file.root differs chain'.path file.chain.path
        inOthers inOwn
    exact clusterLbas_disjoint tables (chain.mem_inVolume inOthers).1
      (file.chain.mem_inVolume inOwn).1 apart inCluster inCluster'

/-- A volume of 4112 sectors: itself, a table of sixteen, a root of sixteen entries and 4094
clusters of one sector. -/
def filesBpb : Bpb where
  bytesPerSector := 512
  sectorsPerCluster := 1
  reservedSectors := 1
  numFats := 1
  rootEntryCount := 16
  fatSize16 := 16
  fatSize32 := 0
  rootCluster := 0
  fatType := .fat16
  dataStart := 18
  totalClusters := 4094

/-- Files of one cluster in all clusters below `count`, on a longer device; the root holds
deleted entries, and all data is zero. -/
def filesDisk (count : Nat) : Disk where
  sectors lba :=
    if lba = 0 then fun i =>
      match i with
      | 12 => 2
      | 13 => 1
      | 14 => 1
      | 16 => 1
      | 17 => 16
      | 19 => 0x10
      | 20 => 0x10
      | 22 => 16
      | _ => 0
    else if lba < 17 then fun i => if ((lba - 1) * 512 + i) / 2 < count then 0xFF else 0
    else if lba = 17 then fun _ => 0xE5
    else Sector.zero
  readable _ := true
  writable _ := true

theorem readBpb_filesDisk (count : Nat) : readBpb (filesDisk count) = some (some filesBpb) := by
  have same : readBpb (filesDisk count) = readBpb (filesDisk 0) := rfl
  rw [same]
  decide +kernel

theorem volume_filesDisk (count : Nat) : Volume filesBpb (filesDisk count) where
  bytesPerSector := rfl
  sectorsPerCluster := by decide
  sectorsFit := by decide
  numFats := by decide
  covers := fun cluster below => by
    have bound : cluster < 4096 := below
    show cluster * 2 + 2 ≤ 16 * 512
    omega
  dataStart := by decide
  clusters := by decide
  readable := fun _ _ => rfl
  tablesWritable := fun _ _ => rfl
  writable := fun _ _ => rfl

theorem fatEntry_filesDisk (count : Nat) {c : Nat} (inside : InVolume filesBpb c) :
    fatEntry filesBpb (filesDisk count) c = if c < count then 0xFFFF else 0 := by
  have bound : c < 4096 := inside.2
  have byte : ∀ i < 2, tableByte filesBpb (filesDisk count) (c * 2 + i) =
      if c < count then 255 else 0 := by
    intro i low
    have position : ((1 + (c * 2 + i) / 512 - 1) * 512 + (c * 2 + i) % 512) / 2 = c := by omega
    rw [tableByte, filesDisk, show filesBpb.reservedSectors = 1 from rfl]
    dsimp only
    rw [if_neg (by omega), if_pos (by omega), position]
    split_ifs <;> rfl
  have word : fatEntry filesBpb (filesDisk count) c =
      tableByte filesBpb (filesDisk count) (c * 2) +
        256 * tableByte filesBpb (filesDisk count) (c * 2 + 1) := by
    rw [fatEntry_eq]
    rfl
  rw [word, byte 1 (by decide), ← Nat.add_zero (c * 2), byte 0 (by decide)]
  split_ifs <;> rfl

/-- Each cluster in use is a file of its own. -/
theorem space_filesDisk {count : Nat} (low : 2 ≤ count) (high : count ≤ 4096) :
    Space filesBpb (filesDisk count) (List.range' 2 (count - 2)) ∧
      ∀ c ∈ List.range' 2 (count - 2), ChainOf filesBpb (filesDisk count) c [c] := by
  have stops : ∀ c, nextOf filesBpb (filesDisk count) c = none := by
    intro c
    refine if_neg fun ⟨inside, target⟩ => ?_
    rw [fatEntry_filesDisk count inside] at target
    split_ifs at target
    · exact absurd target.2 (by decide)
    · exact absurd target.1 (by decide)
  have inside : ∀ c ∈ List.range' 2 (count - 2), InVolume filesBpb c ∧ c < count := by
    intro c member
    rw [List.mem_range'_1] at member
    have total : filesBpb.totalClusters = 4094 := rfl
    exact ⟨⟨member.1, by omega⟩, by omega⟩
  have chains : ∀ c ∈ List.range' 2 (count - 2), ChainOf filesBpb (filesDisk count) c [c] := by
    refine fun c member => ⟨.last (stops c), (inside c member).1, fun c' member' _ => ?_⟩
    obtain rfl := List.mem_singleton.mp member'
    rw [fatEntry_filesDisk count (inside _ member).1, if_pos (inside _ member).2]
    rfl
  refine ⟨⟨volume_filesDisk count, ⟨fun link => ?_, fun link => ?_, fun link => ?_,
    fun {r} member => ⟨(inside r member).1, ?_⟩, fun {r x} _ link => ?_, List.nodup_range'⟩,
    fun c member => ⟨[c], chains c member⟩⟩, chains⟩
  · cases (stops _).symm.trans link
  · cases (stops _).symm.trans link
  · cases (stops _).symm.trans link
  · rw [fatEntry_filesDisk count (inside r member).1, if_pos (inside r member).2]
    decide
  · cases (stops _).symm.trans link

end DBSos.Fat
