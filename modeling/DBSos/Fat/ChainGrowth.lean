import DBSos.Fat.Usage

/-!
# A chain that grows

`write_chain` steps along a chain and takes new clusters behind its end. While the volume
has enough of them, the chain of the file grows, and every other chain is as it was.
-/

namespace DBSos.Fat

variable {bpb : Bpb} {disk disk' : Disk} {roots clusters clusters' : List Nat}
  {first cluster need k next : Nat}

/-- The volume has free clusters for so many more, or nothing behind it looks free. -/
def Supplied (bpb : Bpb) (disk : Disk) (need : Nat) : Prop :=
  Confined bpb disk ∨
    ∃ free : List Nat, free.Nodup ∧ need ≤ free.length ∧ ∀ c ∈ free, FreeCluster bpb disk c

/-- A file or directory of a volume, with its chain. -/
structure FileOf (bpb : Bpb) (disk : Disk) (roots : List Nat) (first : Nat) (clusters : List Nat) :
    Prop where
  space : Space bpb disk roots
  root : first ∈ roots
  chain : ChainOf bpb disk first clusters

/-- The sectors of a file, in order. -/
def fileLbas (bpb : Bpb) (clusters : List Nat) : List Nat := clusters.flatMap (clusterLbas bpb)

/-- A chain has grown, and nothing has changed but the tables. -/
structure Grows (bpb : Bpb) (disk disk' : Disk) (roots : List Nat) (first : Nat)
    (clusters clusters' : List Nat) : Prop where
  retable : Retable bpb disk disk'
  grown : clusters <+: clusters'
  kept : KeepsChains bpb disk disk' (roots.filter (· ≠ first))

/-- A chain has grown, and nothing has changed but the tables and the sectors of the file. -/
structure Evolves (bpb : Bpb) (disk disk' : Disk) (roots : List Nat) (first : Nat)
    (clusters clusters' : List Nat) : Prop where
  readable : disk'.readable = disk.readable
  writable : disk'.writable = disk.writable
  grown : clusters <+: clusters'
  kept : KeepsChains bpb disk disk' (roots.filter (· ≠ first))
  others : ∀ lba, bpb.reservedSectors + bpb.numFats * fatSectors bpb ≤ lba →
    lba ∉ fileLbas bpb clusters' → disk'.sectors lba = disk.sectors lba

theorem fileLbas_subset (grown : clusters <+: clusters') : fileLbas bpb clusters ⊆
    fileLbas bpb clusters' := by
  obtain ⟨more, rfl⟩ := grown
  rw [fileLbas, fileLbas, List.flatMap_append]
  exact List.subset_append_left _ _

theorem Evolves.trans {middle : Disk} {between : List Nat}
    (before : Evolves bpb disk middle roots first clusters between)
    (after : Evolves bpb middle disk' roots first between clusters') :
    Evolves bpb disk disk' roots first clusters clusters' where
  readable := after.readable.trans before.readable
  writable := after.writable.trans before.writable
  grown := before.grown.trans after.grown
  kept := before.kept.trans after.kept
  others := fun lba behind outside => (after.others lba behind outside).trans
    (before.others lba behind fun inside => outside (fileLbas_subset after.grown inside))

theorem Grows.evolves (grows : Grows bpb disk disk' roots first clusters clusters') :
    Evolves bpb disk disk' roots first clusters clusters' where
  readable := grows.retable.readable
  writable := grows.retable.writable
  grown := grows.grown
  kept := grows.kept
  others := fun lba behind _ => grows.retable.outside lba (.inr behind)

theorem Grows.refl : Grows bpb disk disk roots first clusters clusters :=
  ⟨.refl, List.prefix_rfl, fun _ _ _ chain => chain⟩

theorem Grows.trans {middle : Disk} {between : List Nat}
    (before : Grows bpb disk middle roots first clusters between)
    (after : Grows bpb middle disk' roots first between clusters') :
    Grows bpb disk disk' roots first clusters clusters' where
  retable := before.retable.trans after.retable
  grown := before.grown.trans after.grown
  kept := before.kept.trans after.kept

/-! ## Supply -/

theorem Supplied.mono {less : Nat} (supplied : Supplied bpb disk need) (le : less ≤ need) :
    Supplied bpb disk less :=
  supplied.imp_right fun ⟨free, distinct, enough, all⟩ => ⟨free, distinct, le.trans enough, all⟩

/-- What `alloc_cluster` takes while there is supply. -/
theorem Supplied.free (supplied : Supplied bpb disk (need + 1)) (tables : Tables bpb disk) {c : Nat}
    (allocated : allocCluster bpb disk = some c) (nonzero : c ≠ 0) : FreeCluster bpb disk c := by
  rcases supplied with confined | ⟨free, -, enough, all⟩
  · exact (confined.free tables allocated nonzero).1
  · obtain ⟨target, member⟩ := List.exists_mem_of_length_pos (Nat.lt_of_lt_of_le need.succ_pos enough)
    exact allocCluster_spec tables allocated (all target member)

/-- One entry that is not free less. -/
theorem Supplied.write {value : Nat} (supplied : Supplied bpb disk (need + 1))
    (tables : Tables bpb disk) (inside : InVolume bpb cluster)
    (fits : value < bpb.fatType.entryLimit) {ok : Bool}
    (wrote : fatWriteEntry bpb disk cluster value = some (ok, disk')) :
    Supplied bpb disk' need := by
  refine supplied.imp (fun confined => confined.write tables inside fits wrote) ?_
  rintro ⟨free, distinct, enough, all⟩
  refine ⟨free.erase cluster, distinct.erase cluster, ?_, fun c member => ?_⟩
  · have length := List.length_erase_le (l := free) (a := cluster)
    have less := List.le_length_erase (l := free) (a := cluster)
    omega
  · obtain ⟨differs, old⟩ := distinct.mem_erase_iff.mp member
    obtain ⟨inVolume, below, entry⟩ := all c old
    exact ⟨inVolume, below, ((fatWriteEntry_relinks tables inside.2 fits wrote).others c inVolume.2
      differs).trans entry⟩

/-- An entry of a cluster in use takes no supply. -/
theorem Supplied.relink {value : Nat} (supplied : Supplied bpb disk need) (tables : Tables bpb disk)
    (inside : InVolume bpb cluster) (used : fatEntry bpb disk cluster ≠ 0)
    (fits : value < bpb.fatType.entryLimit) {ok : Bool}
    (wrote : fatWriteEntry bpb disk cluster value = some (ok, disk')) :
    Supplied bpb disk' need := by
  refine supplied.imp (fun confined => confined.write tables inside fits wrote) ?_
  rintro ⟨free, distinct, enough, all⟩
  refine ⟨free, distinct, enough, fun c member => ?_⟩
  obtain ⟨inVolume, below, entry⟩ := all c member
  have differs : c ≠ cluster := by
    rintro rfl
    exact used entry
  exact ⟨inVolume, below, ((fatWriteEntry_relinks tables inside.2 fits wrote).others c inVolume.2
    differs).trans entry⟩

theorem Supplied.data (supplied : Supplied bpb disk need) (tables : Tables bpb disk)
    (kept : KeepsTables bpb disk disk') : Supplied bpb disk' need := by
  refine supplied.imp (fun confined => confined.data tables kept) ?_
  rintro ⟨free, distinct, enough, all⟩
  refine ⟨free, distinct, enough, fun c member => ?_⟩
  obtain ⟨inVolume, below, entry⟩ := all c member
  exact ⟨inVolume, below, (kept.fatEntry_eq tables (tables.covers c inVolume.2)).trans entry⟩

/-! ## One step -/

/-- Without a cluster nothing changes; else it goes behind the last one of the chain. -/
theorem extendChain_spec (file : FileOf bpb disk roots first clusters)
    (supplied : Supplied bpb disk (need + 1)) (member : cluster ∈ clusters)
    (stops : nextOf bpb disk cluster = none)
    (done : extendChain bpb disk cluster = some (next, disk')) :
    next = 0 ∧ disk' = disk ∨
      next ≠ 0 ∧ FileOf bpb disk' roots first (clusters ++ [next]) ∧ Supplied bpb disk' need ∧
        Grows bpb disk disk' roots first clusters (clusters ++ [next]) := by
  have tables := file.space.volume.toTables
  obtain ⟨new, allocated, later⟩ := Option.bind_eq_some_iff.mp done
  split_ifs at later with zero
  · obtain ⟨rfl, rfl⟩ := Prod.mk.inj (Option.some.inj later)
    exact .inl ⟨rfl, rfl⟩
  obtain ⟨⟨ok, marked⟩, wrote, later⟩ := Option.bind_eq_some_iff.mp later
  obtain ⟨⟨ok', linked⟩, wrote', later⟩ := Option.bind_eq_some_iff.mp later
  obtain ⟨rfl, rfl⟩ := Prod.mk.inj (Option.some.inj later)
  have free := supplied.free tables allocated zero
  obtain ⟨marks, space₁, kept₁, own⟩ := file.space.claim free wrote
  have chain₁ := kept₁ first file.root clusters file.chain
  have used := file.space.forest.path_inUse file.root file.chain.path member
  have apart : cluster ≠ new := by
    rintro rfl
    exact used.2 free.2.2
  obtain ⟨links, space₂, kept₂, chain₂⟩ := space₁.link own file.root chain₁ member
    ((marks.nextOf_other apart).trans stops) wrote'
  have used₁ : fatEntry bpb marked cluster ≠ 0 := by
    rw [marks.others cluster used.1.2 apart]
    exact used.2
  refine .inr ⟨zero, ⟨space₂, file.root, chain₂⟩, ?_, ?_⟩
  · exact (supplied.write tables free.1 (fatEoc_lt bpb) wrote).relink (marks.tables tables) used.1
      used₁ (tables.inVolume_lt free.1) wrote'
  · exact ⟨marks.retable.trans links.retable, List.prefix_append _ _, fun r isOther others chain =>
      kept₂ r isOther others (kept₁ r (List.mem_of_mem_filter isOther) others chain)⟩

/-- A step along the chain, with supply for the clusters up to number `last`. -/
theorem nextCluster_spec {last : Nat} (file : FileOf bpb disk roots first clusters)
    (supplied : Supplied bpb disk (last + 1 - clusters.length)) (at_ : clusters[k]? = some cluster)
    (before : k < last) (done : nextCluster bpb disk cluster = some (next, disk')) :
    Whole bpb cluster ∧ (next = 0 ∧ disk' = disk ∨
      next ≠ 0 ∧ ∃ clusters', FileOf bpb disk' roots first clusters' ∧
        Supplied bpb disk' (last + 1 - clusters'.length) ∧ clusters'[k + 1]? = some next ∧
        Grows bpb disk disk' roots first clusters clusters') := by
  have tables := file.space.volume.toTables
  have member := List.mem_of_getElem? at_
  have inside := file.chain.mem_inVolume member
  have follows := file.chain.path.next_eq at_
  obtain ⟨value, read, later⟩ := Option.bind_eq_some_iff.mp done
  obtain ⟨whole, entry⟩ := fatReadEntry_eq_some tables inside read
  refine ⟨whole, ?_⟩
  cases link : nextOf bpb disk cluster with
  | some target =>
    obtain ⟨-, inVolume, isTarget⟩ := nextOf_eq_some.mp link
    obtain rfl := isTarget.symm.trans entry
    have low := inVolume.1
    have goesOn : ¬ (fatIsEoc bpb target = true ∨ target < 2) :=
      not_or.mpr ⟨Bool.not_eq_true _ ▸ tables.not_eoc inVolume, Nat.not_lt.mpr low⟩
    rw [if_neg goesOn] at later
    obtain ⟨rfl, rfl⟩ := Prod.mk.inj (Option.some.inj later)
    exact .inr ⟨by omega, clusters, file, supplied, follows.symm.trans link, .refl⟩
  | none =>
    have ends := file.chain.ends cluster member link
    rw [entry] at ends
    rw [if_pos (.inl ends)] at later
    have length : clusters.length = k + 1 := by
      have below := (List.getElem?_eq_some_iff.mp at_).1
      have above := List.getElem?_eq_none_iff.mp (follows.symm.trans link)
      omega
    have needs : last + 1 - clusters.length = last - clusters.length + 1 := by omega
    rw [needs] at supplied
    rcases extendChain_spec file supplied member link later with same | ⟨nonzero, grown⟩
    · exact .inl same
    · obtain ⟨file', supplied', grows⟩ := grown
      refine .inr ⟨nonzero, _, file', ?_, ?_, grows⟩
      · rw [List.length_append, List.length_singleton]
        exact supplied'.mono (by omega)
      · rw [← length]
        exact List.getElem?_concat_length

end DBSos.Fat
