import DBSos.Fat.Driver
import DBSos.Fat.Usage

/-!
# Calls that fail

A creation marks its cluster before it looks for a place in the directory, and a removal
frees the chain before it deletes the entry. A call that fails in between leaves a mark on
the volume.
-/

namespace DBSos.Fat

open DBSos.Vfs (Path slash)

variable {bpb : Bpb} {disk disk' : Disk} {path : Path} {dir : Nat}

/-- The entries of consecutive sectors. -/
def entriesFrom (disk : Disk) : (sec : Nat) → List Nat → List Indexed
  | _, [] => []
  | sec, lba :: rest => entriesOf sec (disk.sectors lba) ++ entriesFrom disk (sec + 1) rest

/-- The entries of a directory, in order. -/
def dirEntries (bpb : Bpb) (disk : Disk) (dir : Nat) : List Indexed :=
  entriesFrom disk 0 (dirLbas bpb disk dir)

/-- The same clusters are in use, and every directory has the same entries. -/
structure Untouched (bpb : Bpb) (disk disk' : Disk) : Prop where
  used : ∀ c, InVolume bpb c → (fatEntry bpb disk' c = 0 ↔ fatEntry bpb disk c = 0)
  entries : ∀ dir, IsDir bpb disk dir → dirEntries bpb disk' dir = dirEntries bpb disk dir

theorem Untouched.refl : Untouched bpb disk disk := ⟨fun _ _ => .rfl, fun _ _ => rfl⟩

/-- No cluster of the volume has been freed. -/
def FreesNothing (bpb : Bpb) (disk disk' : Disk) : Prop :=
  ∀ c, InVolume bpb c → fatEntry bpb disk c ≠ 0 → fatEntry bpb disk' c ≠ 0

/-- The parent of a path exists, and the lookup of its name in it has this result. -/
structure LooksUp (bpb : Bpb) (disk : Disk) (path : Path) (dir : Nat) (found : Option Found) :
    Prop where
  parent : resolveParent bpb disk path = some (some dir)
  named : lastComponent path ≠ []
  looked : findInDir bpb disk dir (lastComponent path) = some found

/-- The name is new and valid. -/
structure Creatable (bpb : Bpb) (disk : Disk) (path : Path) (dir : Nat) (short : List UInt8) :
    Prop extends LooksUp bpb disk path dir none where
  valid : nameTo83 (lastComponent path) = some short

/-- Something can be created, and a cluster is found for it. -/
def TakesCluster (bpb : Bpb) (disk : Disk) (path : Path) : Prop :=
  (∃ dir short, Creatable bpb disk path dir short) ∧
    ∃ c, allocCluster bpb disk = some c ∧ c ≠ 0

/-- A file, or an empty directory, is there to be removed. -/
structure Removable (bpb : Bpb) (disk : Disk) (path : Path) (isDir : Bool) (dir : Nat)
    (found : Found) : Prop extends LooksUp bpb disk path dir (some found) where
  kind : isDirAttr found.attr = isDir
  empty : isDir = true → isDirEmpty bpb disk found.cluster = some true

/-- What is there to be removed has clusters. -/
def FreesClusters (bpb : Bpb) (disk : Disk) (path : Path) (isDir : Bool) : Prop :=
  ∃ dir found, Removable bpb disk path isDir dir found ∧ InVolume bpb found.cluster ∧
    fatEntry bpb disk found.cluster ≠ 0

/-- The entry of a path names a cluster of the volume or none. -/
def NamesCluster (bpb : Bpb) (disk : Disk) (path : Path) : Prop :=
  ∀ dir found, LooksUp bpb disk path dir (some found) →
    found.cluster < 2 ∨ fatIsEoc bpb found.cluster = true ∨ InVolume bpb found.cluster

/-! ## Looking up -/

theorem LooksUp.unique {found found' : Option Found} {dir' : Nat}
    (looksUp : LooksUp bpb disk path dir found) (other : LooksUp bpb disk path dir' found') :
    dir' = dir ∧ found' = found := by
  obtain rfl := Option.some.inj (Option.some.inj (other.parent.symm.trans looksUp.parent))
  exact ⟨rfl, Option.some.inj (other.looked.symm.trans looksUp.looked)⟩

/-- The common start of the calls: without a parent and a name they fail, and then the
rest decides. -/
theorem looksUp_cases (body : Nat → Option Found → Option (Bool × Disk)) {result : Bool}
    (done : (do
      match ← resolveParent bpb disk path with
      | none => some (false, disk)
      | some dir =>
        if lastComponent path = [] then some (false, disk)
        else
          let found ← findInDir bpb disk dir (lastComponent path)
          body dir found) = some (result, disk')) :
    result = false ∧ disk' = disk ∧ (∀ dir found, ¬ LooksUp bpb disk path dir found) ∨
      ∃ dir found, LooksUp bpb disk path dir found ∧ body dir found = some (result, disk') := by
  obtain ⟨parent, resolved, later⟩ := Option.bind_eq_some_iff.mp done
  cases parent with
  | none =>
    obtain ⟨rfl, rfl⟩ := Prod.mk.inj (Option.some.inj later)
    exact .inl ⟨rfl, rfl, fun dir found looksUp => nomatch looksUp.parent.symm.trans resolved⟩
  | some dir =>
    dsimp only at later
    split_ifs at later with unnamed
    · obtain ⟨rfl, rfl⟩ := Prod.mk.inj (Option.some.inj later)
      exact .inl ⟨rfl, rfl, fun dir found looksUp => looksUp.named unnamed⟩
    · obtain ⟨found, looked, rest⟩ := Option.bind_eq_some_iff.mp later
      exact .inr ⟨dir, found, ⟨resolved, unnamed, looked⟩, rest⟩

/-! ## Creating a directory -/

/-- `fat_mkdir` ends before it takes a cluster, or takes one and adds an entry. -/
theorem mkdirAt_cases {made : Bool} (done : mkdirAt bpb path disk = some (made, disk')) :
    made = false ∧ disk' = disk ∧ ¬ TakesCluster bpb disk path ∨
    ∃ dir short c ok disk₁ disk₂ added, Creatable bpb disk path dir short ∧
      allocCluster bpb disk = some c ∧ c ≠ 0 ∧
      fatWriteEntry bpb disk c (fatEoc bpb) = some (ok, disk₁) ∧
      initDirCluster bpb disk₁ c dir = some disk₂ ∧
      addDirEntry bpb disk₂ dir short 0x10 c 0 = some (added, disk') ∧ made = added.isSome := by
  unfold mkdirAt at done
  rcases looksUp_cases _ done with
    ⟨rfl, rfl, nowhere⟩ | ⟨dir, found, looksUp, later⟩
  · refine .inl ⟨rfl, rfl, ?_⟩
    rintro ⟨⟨dir, short, creatable⟩, -⟩
    exact nowhere dir none creatable.toLooksUp
  · cases found with
    | some found =>
      obtain ⟨rfl, rfl⟩ := Prod.mk.inj (Option.some.inj later)
      refine .inl ⟨rfl, rfl, ?_⟩
      rintro ⟨⟨dir, short, creatable⟩, -⟩
      cases (looksUp.unique creatable.toLooksUp).2
    | none =>
      dsimp only at later
      cases valid : nameTo83 (lastComponent path) with
      | none =>
        rw [valid] at later
        obtain ⟨rfl, rfl⟩ := Prod.mk.inj (Option.some.inj later)
        refine .inl ⟨rfl, rfl, ?_⟩
        rintro ⟨⟨dir, short, creatable⟩, -⟩
        cases creatable.valid.symm.trans valid
      | some short =>
        rw [valid] at later
        obtain ⟨c, allocated, later⟩ := Option.bind_eq_some_iff.mp later
        split_ifs at later with zero
        · obtain ⟨rfl, rfl⟩ := Prod.mk.inj (Option.some.inj later)
          refine .inl ⟨rfl, rfl, ?_⟩
          rintro ⟨-, c', found, nonzero⟩
          exact nonzero ((Option.some.inj (found.symm.trans allocated)).trans zero)
        · obtain ⟨⟨ok, disk₁⟩, wrote, later⟩ := Option.bind_eq_some_iff.mp later
          obtain ⟨disk₂, initialised, later⟩ := Option.bind_eq_some_iff.mp later
          obtain ⟨⟨added, disk₃⟩, adds, later⟩ := Option.bind_eq_some_iff.mp later
          obtain ⟨rfl, rfl⟩ := Prod.mk.inj (Option.some.inj later)
          exact .inr ⟨dir, short, c, ok, disk₁, disk₂, added, ⟨looksUp, valid⟩, allocated,
            zero, wrote, initialised, adds, rfl⟩

/-- A cluster that the search returns on a volume where it stays inside. -/
theorem AllocatesInside.free (inside : AllocatesInside bpb disk) (tables : Tables bpb disk) {c : Nat}
    (allocated : allocCluster bpb disk = some c) (nonzero : c ≠ 0) :
    InVolume bpb c ∧ fatEntry bpb disk c = 0 := by
  obtain ⟨c', found, zero | ⟨inVolume, free, -⟩⟩ := inside
  · exact absurd ((Option.some.inj (allocated.symm.trans found)).trans zero) nonzero
  · obtain rfl := Option.some.inj (allocated.symm.trans found)
    exact ⟨inVolume, (fatReadEntry_eq_some tables inVolume free).2⟩

/-- A `fat_mkdir` that fails leaves the volume as it was unless it had taken a cluster. -/
theorem mkdir_untouched_iff (tables : Tables bpb disk) (inside : AllocatesInside bpb disk)
    (failed : mkdirAt bpb path disk = some (false, disk')) :
    Untouched bpb disk disk' ↔ ¬ TakesCluster bpb disk path := by
  rcases mkdirAt_cases failed with ⟨-, rfl, notTaken⟩ | ⟨dir, short, c, ok, disk₁, disk₂, added,
    creatable, allocated, nonzero, wrote, initialised, adds, -⟩
  · exact iff_of_true .refl notTaken
  · obtain ⟨inVolume, free⟩ := inside.free tables allocated nonzero
    have relinks := fatWriteEntry_relinks tables inVolume.2 (fatEoc_lt bpb) wrote
    have tables₁ := relinks.tables tables
    have second := (initDirCluster_keepsTables tables₁ initialised).keepsUsed tables₁
    have marked := second.used c inVolume (relinks.entry ▸ fatEoc_ne_zero bpb)
    have third := addFrom_keepsUsed (second.tables tables₁) adds
    refine iff_of_false (fun untouched => ?_)
      (not_not_intro ⟨⟨dir, short, creatable⟩, c, allocated, nonzero⟩)
    exact third.used c inVolume marked ((untouched.used c inVolume).mpr free)

/-! ## Removing -/

theorem deleteEntry_false {index : Nat}
    (failed : deleteEntry bpb disk dir index = some (false, disk')) : disk' = disk := by
  obtain ⟨read, -, later⟩ := Option.bind_eq_some_iff.mp failed
  cases read with
  | none => exact (congrArg Prod.snd (Option.some.inj later)).symm
  | some buf =>
    obtain ⟨lba, -, later⟩ := Option.bind_eq_some_iff.mp later
    cases lba with
    | none => exact (congrArg Prod.snd (Option.some.inj later)).symm
    | some lba =>
      have done := Option.some.inj later
      unfold Disk.write at done
      split_ifs at done
      · cases done
      · exact (congrArg Prod.snd done).symm

/-- The common end of the removals. -/
theorem dropEntry_false {found : Found} (tables : Tables bpb disk)
    (names : found.cluster < 2 ∨ fatIsEoc bpb found.cluster = true ∨ InVolume bpb found.cluster)
    (failed : dropEntry bpb disk dir found = some (false, disk')) :
    FreesNothing bpb disk disk' ↔
      ¬ (InVolume bpb found.cluster ∧ fatEntry bpb disk found.cluster ≠ 0) := by
  obtain ⟨middle, freed, deleted⟩ := Option.bind_eq_some_iff.mp failed
  obtain rfl := deleteEntry_false deleted
  rcases names with low | marker | inside
  · rw [freeChain, freeFrom_low low] at freed
    obtain rfl := Option.some.inj freed
    refine iff_of_true (fun _ _ used => used) fun both => absurd both.1.1 (by omega)
  · rw [freeChain, freeFrom_stop marker] at freed
    obtain rfl := Option.some.inj freed
    exact iff_of_true (fun _ _ used => used) fun both => tables.eoc_not_inVolume marker both.1
  · by_cases used : fatEntry bpb disk found.cluster = 0
    · obtain ⟨ok, first, wrote, later⟩ := freeChain_step tables inside freed
      have limit : 0 < bpb.fatType.entryLimit := (Nat.zero_le _).trans_lt (fatEoc_lt bpb)
      have relinks := fatWriteEntry_relinks tables inside.2 limit wrote
      rw [used, freeFrom_low (by decide)] at later
      obtain rfl := Option.some.inj later
      refine iff_of_true (fun c inVolume nonzero => ?_) fun both => both.2 used
      have differs : c ≠ found.cluster := by
        rintro rfl
        exact nonzero used
      rw [relinks.others c inVolume.2 differs]
      exact nonzero
    · exact iff_of_false (fun kept => kept _ inside used (freeChain_frees tables inside freed))
        (not_not_intro ⟨inside, used⟩)

/-- `fat_unlink` ends before it frees anything, or drops the entry. -/
theorem unlinkAt_cases {gone : Bool} (done : unlinkAt bpb path disk = some (gone, disk')) :
    gone = false ∧ disk' = disk ∧ (∀ dir found, ¬ Removable bpb disk path false dir found) ∨
    ∃ dir found, Removable bpb disk path false dir found ∧
      dropEntry bpb disk dir found = some (gone, disk') := by
  unfold unlinkAt at done
  rcases looksUp_cases _ done with ⟨rfl, rfl, nowhere⟩ | ⟨dir, found, looksUp, later⟩
  · exact .inl ⟨rfl, rfl, fun dir found removable => nowhere dir _ removable.toLooksUp⟩
  · cases found with
    | none =>
      obtain ⟨rfl, rfl⟩ := Prod.mk.inj (Option.some.inj later)
      refine .inl ⟨rfl, rfl, fun dir found removable => ?_⟩
      cases (looksUp.unique removable.toLooksUp).2
    | some found =>
      dsimp only at later
      split_ifs at later with isDir
      · obtain ⟨rfl, rfl⟩ := Prod.mk.inj (Option.some.inj later)
        refine .inl ⟨rfl, rfl, fun dir found removable => ?_⟩
        obtain rfl := Option.some.inj (looksUp.unique removable.toLooksUp).2
        cases removable.kind.symm.trans isDir
      · exact .inr ⟨dir, found, ⟨looksUp, by simpa using isDir, by simp⟩, later⟩

/-- `fat_rmdir` ends before it frees anything, or drops the entry. -/
theorem rmdirAt_cases {gone : Bool} (done : rmdirAt bpb path disk = some (gone, disk')) :
    gone = false ∧ disk' = disk ∧ (∀ dir found, ¬ Removable bpb disk path true dir found) ∨
    ∃ dir found, Removable bpb disk path true dir found ∧
      dropEntry bpb disk dir found = some (gone, disk') := by
  unfold rmdirAt at done
  rcases looksUp_cases _ done with
    ⟨rfl, rfl, nowhere⟩ | ⟨dir, found, looksUp, later⟩
  · exact .inl ⟨rfl, rfl, fun dir found removable => nowhere dir _ removable.toLooksUp⟩
  · cases found with
    | none =>
      obtain ⟨rfl, rfl⟩ := Prod.mk.inj (Option.some.inj later)
      refine .inl ⟨rfl, rfl, fun dir found removable => ?_⟩
      cases (looksUp.unique removable.toLooksUp).2
    | some found =>
      dsimp only at later
      split_ifs at later with notDir
      · obtain ⟨rfl, rfl⟩ := Prod.mk.inj (Option.some.inj later)
        refine .inl ⟨rfl, rfl, fun dir found removable => ?_⟩
        obtain rfl := Option.some.inj (looksUp.unique removable.toLooksUp).2
        cases removable.kind.symm.trans notDir
      · obtain ⟨empty, listed, later⟩ := Option.bind_eq_some_iff.mp later
        split_ifs at later with full
        · obtain ⟨rfl, rfl⟩ := Prod.mk.inj (Option.some.inj later)
          refine .inl ⟨rfl, rfl, fun dir found removable => ?_⟩
          obtain rfl := Option.some.inj (looksUp.unique removable.toLooksUp).2
          rw [full] at listed
          cases (removable.empty rfl).symm.trans listed
        · refine .inr ⟨dir, found, ⟨looksUp, by simpa using notDir, fun _ => ?_⟩, later⟩
          rw [listed, Bool.eq_true_of_not_eq_false full]

/-- A removal that fails has freed nothing unless there was something to remove that has
clusters. -/
theorem remove_frees_iff {isDir : Bool} (tables : Tables bpb disk) (names : NamesCluster bpb disk path)
    (cases : disk' = disk ∧ (∀ dir found, ¬ Removable bpb disk path isDir dir found) ∨
      ∃ dir found, Removable bpb disk path isDir dir found ∧
        dropEntry bpb disk dir found = some (false, disk')) :
    FreesNothing bpb disk disk' ↔ ¬ FreesClusters bpb disk path isDir := by
  rcases cases with ⟨rfl, nothing⟩ | ⟨dir, found, removable, dropped⟩
  · exact iff_of_true (fun _ _ used => used) fun ⟨dir, found, removable, _⟩ =>
      nothing dir found removable
  · rw [dropEntry_false tables (names dir found removable.toLooksUp) dropped]
    refine not_congr ⟨fun both => ⟨dir, found, removable, both⟩, ?_⟩
    rintro ⟨dir', found', other, both⟩
    obtain rfl := Option.some.inj (removable.unique other.toLooksUp).2
    exact both

/-! ## Creating a file -/

/-- A `fat_open` that fails to create ends before it takes a cluster, or frees the one
that it took. -/
theorem openAt_none {flags : Nat} (creating : flags &&& oCreat ≠ 0)
    (failed : openAt bpb path flags disk = some (none, disk')) :
    disk' = disk ∧
      ((∀ dir short, ¬ Creatable bpb disk path dir short) ∨ allocCluster bpb disk = some 0) ∨
    ∃ dir short c ok disk₁ disk₂, Creatable bpb disk path dir short ∧
      allocCluster bpb disk = some c ∧ c ≠ 0 ∧
      fatWriteEntry bpb disk c (fatEoc bpb) = some (ok, disk₁) ∧
      addDirEntry bpb (disk₁.zeroFrom (sectorOf bpb c 0) bpb.sectorsPerCluster) dir short
        0x20 c 0 = some (none, disk₂) ∧
      freeChain bpb disk₂ c = some disk' := by
  obtain ⟨parent, resolved, later⟩ := Option.bind_eq_some_iff.mp failed
  cases parent with
  | none =>
    refine .inl ⟨(congrArg Prod.snd (Option.some.inj later)).symm, .inl fun dir short creatable => ?_⟩
    cases creatable.parent.symm.trans resolved
  | some dir =>
    dsimp only at later
    by_cases unnamed : lastComponent path = []
    · rw [if_pos unnamed] at later
      cases later
    rw [if_neg unnamed] at later
    obtain ⟨found, looked, later⟩ := Option.bind_eq_some_iff.mp later
    have looksUp : LooksUp bpb disk path dir found := ⟨resolved, unnamed, looked⟩
    cases found with
    | some found =>
      dsimp only at later
      split_ifs at later
      · obtain ⟨freed, -, later⟩ := Option.bind_eq_some_iff.mp later
        obtain ⟨cut, -, later⟩ := Option.bind_eq_some_iff.mp later
        cases later
      · cases later
    | none =>
      dsimp only at later
      rw [if_neg creating] at later
      obtain ⟨⟨created, made⟩, creates, later⟩ := Option.bind_eq_some_iff.mp later
      obtain ⟨nothing, rfl⟩ := Prod.mk.inj (Option.some.inj later)
      obtain rfl := Option.map_eq_none_iff.mp nothing
      unfold createFile at creates
      cases valid : nameTo83 (lastComponent path) with
      | none =>
        rw [valid] at creates
        refine .inl ⟨(congrArg Prod.snd (Option.some.inj creates)).symm,
          .inl fun dir short creatable => ?_⟩
        cases creatable.valid.symm.trans valid
      | some short =>
        rw [valid] at creates
        obtain ⟨c, allocated, creates⟩ := Option.bind_eq_some_iff.mp creates
        split_ifs at creates with zero
        · exact .inl ⟨(congrArg Prod.snd (Option.some.inj creates)).symm,
            .inr (zero ▸ allocated)⟩
        obtain ⟨⟨ok, disk₁⟩, wrote, creates⟩ := Option.bind_eq_some_iff.mp creates
        obtain ⟨lba, isLba, creates⟩ := Option.bind_eq_some_iff.mp creates
        obtain ⟨⟨added, disk₂⟩, adds, creates⟩ := Option.bind_eq_some_iff.mp creates
        cases added with
        | some index => cases creates
        | none =>
          obtain ⟨freed, frees, creates⟩ := Option.bind_eq_some_iff.mp creates
          obtain rfl := congrArg Prod.snd (Option.some.inj creates)
          unfold clusterToLba at isLba
          split_ifs at isLba
          obtain rfl := Option.some.inj isLba
          exact .inr ⟨dir, short, c, ok, disk₁, disk₂, ⟨looksUp, valid⟩, allocated, zero,
            wrote, adds, frees⟩

/-- In the fixed root an addition that fails changes nothing. -/
theorem addFrom_root {short : List UInt8} {attr : UInt8} {cluster size left sec : Nat}
    (failed : addFrom bpb 0 short attr cluster size left sec disk = some (none, disk')) :
    disk' = disk := by
  induction left generalizing sec with
  | zero => exact (congrArg Prod.snd (Option.some.inj failed)).symm
  | succ left ih =>
    obtain ⟨⟨sector, same⟩, found, later⟩ := Option.bind_eq_some_iff.mp failed
    obtain ⟨read, -, found⟩ := Option.bind_eq_some_iff.mp found
    cases read with
    | none =>
      obtain ⟨rfl, rfl⟩ := Prod.mk.inj (Option.some.inj found)
      exact (congrArg Prod.snd (Option.some.inj later)).symm
    | some buf =>
      obtain ⟨rfl, rfl⟩ := Prod.mk.inj (Option.some.inj found)
      dsimp only at later
      cases place : freeEntry buf with
      | none =>
        rw [place] at later
        exact ih later
      | some i =>
        rw [place] at later
        obtain ⟨written, -, later⟩ := Option.bind_eq_some_iff.mp later
        cases later

/-- An addition that fails has come to the end of its directory. -/
theorem addFrom_reaches_end {short : List UInt8} {attr : UInt8} {cluster size left sec : Nat}
    {clusters : List Nat} (geometry : Geometry bpb disk) (chain : ChainOf bpb disk dir clusters)
    (enough : clusters.length * bpb.sectorsPerCluster < sec + left)
    (before : sec ≤ clusters.length * bpb.sectorsPerCluster)
    (failed : addFrom bpb dir short attr cluster size left sec disk = some (none, disk')) :
    (∃ left', addFrom bpb dir short attr cluster size (left' + 1)
        (clusters.length * bpb.sectorsPerCluster) disk = some (none, disk')) ∧
      ∃ read, readDirSector bpb disk dir (clusters.length * bpb.sectorsPerCluster) = some read := by
  induction left generalizing sec with
  | zero => omega
  | succ left ih =>
    rcases Nat.eq_or_lt_of_le before with rfl | inside
    · obtain ⟨⟨sector, same⟩, found, -⟩ := Option.bind_eq_some_iff.mp failed
      obtain ⟨read, isRead, -⟩ := Option.bind_eq_some_iff.mp found
      exact ⟨⟨left, failed⟩, read, isRead⟩
    · obtain ⟨⟨sector, same⟩, found, later⟩ := Option.bind_eq_some_iff.mp failed
      obtain ⟨read, isRead, found⟩ := Option.bind_eq_some_iff.mp found
      have spec := readDirSector_spec (.inr ⟨clusters, chain⟩) geometry isRead
      have index : sec < (dirLbas bpb disk dir).length := by
        rw [chain.dirLbas_eq]
        simpa [List.length_flatMap, clusterLbas] using inside
      rw [List.getElem?_eq_getElem index] at spec
      subst spec
      obtain ⟨rfl, rfl⟩ := Prod.mk.inj (Option.some.inj found)
      dsimp only at later
      cases place : freeEntry (disk.sectors (dirLbas bpb disk dir)[sec]) with
      | none =>
        rw [place] at later
        exact ih (by omega) inside later
      | some i =>
        rw [place] at later
        obtain ⟨written, -, later⟩ := Option.bind_eq_some_iff.mp later
        cases later

/-- A chain that the walk gets to the end of is one that the driver follows. -/
theorem ChainOf.follows {clusters : List Nat} {reached : Option Nat} (tables : Tables bpb disk)
    (chain : ChainOf bpb disk dir clusters)
    (walked : walk bpb disk clusters.length dir = some reached) :
    ∃ marker, Follows bpb disk dir clusters marker := by
  obtain ⟨path, inside, ends⟩ := chain
  induction path with
  | @last c stops =>
    rw [List.length_singleton, walk, if_neg (by simp [tables.not_eoc inside])] at walked
    obtain ⟨marker, read, -⟩ := Option.bind_eq_some_iff.mp walked
    have entry := (fatReadEntry_eq_some tables inside read).2
    exact ⟨marker, .last (isCluster_of_inVolume tables inside) read
      (entry ▸ ends c (List.mem_singleton_self c) stops)⟩
  | @step c next rest link path ih =>
    obtain ⟨-, target, entry⟩ := nextOf_eq_some.mp link
    rw [List.length_cons, walk, if_neg (by simp [tables.not_eoc inside])] at walked
    obtain ⟨next', read, walked⟩ := Option.bind_eq_some_iff.mp walked
    obtain rfl := (fatReadEntry_eq_some tables inside read).2.symm.trans entry
    have high := target.1
    rw [if_neg (by omega)] at walked
    obtain ⟨marker, follows⟩ := ih walked target
      (fun d member => ends d (List.mem_cons_of_mem _ member))
    exact ⟨marker, .step (isCluster_of_inVolume tables inside) read follows⟩

/-- What `extend_dir` leaves when it fails: nothing, or a cluster that is marked. -/
theorem extendDir_none (failed : extendDir bpb disk dir = some (none, disk')) :
    disk' = disk ∧ allocCluster bpb disk = some 0 ∨
    ∃ c ok, allocCluster bpb disk = some c ∧ c ≠ 0 ∧
      fatWriteEntry bpb disk c (fatEoc bpb) = some (ok, disk') := by
  obtain ⟨c, allocated, later⟩ := Option.bind_eq_some_iff.mp failed
  split_ifs at later with zero
  · exact .inl ⟨(congrArg Prod.snd (Option.some.inj later)).symm, zero ▸ allocated⟩
  obtain ⟨⟨ok, marked⟩, wrote, later⟩ := Option.bind_eq_some_iff.mp later
  obtain ⟨last, -, later⟩ := Option.bind_eq_some_iff.mp later
  cases last with
  | none =>
    obtain rfl := congrArg Prod.snd (Option.some.inj later)
    exact .inr ⟨c, ok, allocated, zero, wrote⟩
  | some last =>
    obtain ⟨linked, -, later⟩ := Option.bind_eq_some_iff.mp later
    cases later

/-- An addition that fails in a chain has failed to extend it, for want of a cluster or
because the chain is too long. -/
theorem addDirEntry_none {short : List UInt8} {attr : UInt8} {cluster size : Nat}
    {clusters : List Nat} (geometry : Geometry bpb disk) (confined : Confined bpb disk)
    (chain : ChainOf bpb disk dir clusters)
    (failed : addDirEntry bpb disk dir short attr cluster size = some (none, disk')) :
    disk' = disk ∧ allocCluster bpb disk = some 0 ∨
    maxRounds + 1 < clusters.length ∧ ∃ c ok, allocCluster bpb disk = some c ∧ c ≠ 0 ∧
      fatWriteEntry bpb disk c (fatEoc bpb) = some (ok, disk') := by
  have tables := geometry.toTables
  have positive := geometry.sectorsPerCluster
  have high := chain.inVolume.1
  have few := chain.sectors_lt tables
  have inside : ∀ c ∈ clusters, InVolume bpb c := fun c => chain.mem_inVolume
  rw [addDirEntry, dirMaxSectors, if_neg (by omega)] at failed
  obtain ⟨⟨left, atEnd⟩, read, isRead⟩ :=
    addFrom_reaches_end geometry chain (by omega) (Nat.zero_le _) failed
  -- the walk has read every entry of the chain
  obtain ⟨lba, found, -⟩ := Option.bind_eq_some_iff.mp isRead
  rw [dirSectorLba, if_neg (by omega), Nat.mul_div_cancel _ positive] at found
  obtain ⟨reached, walked, -⟩ := Option.bind_eq_some_iff.mp found
  obtain ⟨marker, follows⟩ := chain.follows tables walked
  have closed : disk.readable (sectorOf bpb marker 0) = false :=
    geometry.beyond marker (of_decide_eq_true follows.marker_eoc) 0 positive
  have allocated : ∃ c, allocCluster bpb disk = some c := by
    obtain ⟨⟨sector, same⟩, looked, -⟩ := Option.bind_eq_some_iff.mp atEnd
    obtain ⟨read, isRead, looked⟩ := Option.bind_eq_some_iff.mp looked
    obtain rfl := readDirSector_spec (.inr ⟨clusters, chain⟩) geometry isRead
    rw [List.getElem?_eq_none (by rw [chain.dirLbas_eq]; simp [List.length_flatMap, clusterLbas]),
      Option.map_none, if_neg (by omega)] at looked
    obtain ⟨⟨extended, grown⟩, extends_, -⟩ := Option.bind_eq_some_iff.mp looked
    obtain ⟨c, allocated, -⟩ := Option.bind_eq_some_iff.mp extends_
    exact ⟨c, allocated⟩
  obtain ⟨c, isCluster⟩ := allocated
  obtain ⟨result, end_, added, extends_, failure⟩ := addFrom_end closed follows geometry.toVolume
    inside (confined.allocatesInside tables isCluster)
  obtain ⟨rfl, rfl⟩ := Prod.mk.inj (Option.some.inj (atEnd.symm.trans added))
  rcases extendDir_none (failure rfl) with same | ⟨c', ok, found, nonzero, wrote⟩
  · exact .inl same
  · rcases extends_.1 with ⟨-, none | long⟩ | ⟨new, -, impossible, -⟩
    · exact absurd (Option.some.inj (found.symm.trans none)) nonzero
    · exact .inr ⟨long, c', ok, found, nonzero, wrote⟩
    · cases impossible

/-- The parent of a new file is a chain longer than the driver follows, and there is a
cluster to extend it. -/
def Outgrown (bpb : Bpb) (disk : Disk) (path : Path) : Prop :=
  (∃ dir short, Creatable bpb disk path dir short ∧
    ∃ clusters, ChainOf bpb disk dir clusters ∧ maxRounds + 1 < clusters.length) ∧
  ∃ c c', c ≠ c' ∧ FreeCluster bpb disk c ∧ FreeCluster bpb disk c'

theorem ChainOf.entry_ne_zero {clusters : List Nat} (chain : ChainOf bpb disk dir clusters) :
    ∀ c ∈ clusters, fatEntry bpb disk c ≠ 0 := by
  intro c member zero
  cases link : nextOf bpb disk c with
  | none =>
    have low := two_le_of_eoc (chain.ends c member link)
    omega
  | some next =>
    obtain ⟨-, target, entry⟩ := nextOf_eq_some.mp link
    have low := target.1
    omega

theorem entriesFrom_congr {lbas : List Nat} (sec : Nat)
    (same : ∀ lba ∈ lbas, disk'.sectors lba = disk.sectors lba) :
    entriesFrom disk' sec lbas = entriesFrom disk sec lbas := by
  induction lbas generalizing sec with
  | nil => rfl
  | cons lba rest ih =>
    rw [entriesFrom, entriesFrom, same lba List.mem_cons_self,
      ih _ fun other member => same other (List.mem_cons_of_mem _ member)]

/-- A directory has the same entries when its chain and its sectors are the same. -/
theorem IsDir.dirEntries_eq (isDir : IsDir bpb disk dir)
    (links : ∀ clusters, ChainOf bpb disk dir clusters →
      ∀ c ∈ clusters, fatEntry bpb disk' c = fatEntry bpb disk c)
    (same : ∀ lba ∈ dirLbas bpb disk dir, disk'.sectors lba = disk.sectors lba) :
    dirEntries bpb disk' dir = dirEntries bpb disk dir := by
  have lbas : dirLbas bpb disk' dir = dirLbas bpb disk dir := by
    rcases isDir with rfl | ⟨clusters, chain⟩
    · rfl
    · rw [chain.dirLbas_eq, (chain.congr (links clusters chain)).dirLbas_eq]
  rw [dirEntries, dirEntries, lbas]
  exact entriesFrom_congr 0 same

/-- A cluster that was taken, filled with zeros and freed again leaves no trace. -/
theorem rollback_untouched {c : Nat} {ok : Bool} {disk₁ : Disk} (tables : Tables bpb disk)
    (free : FreeCluster bpb disk c)
    (wrote : fatWriteEntry bpb disk c (fatEoc bpb) = some (ok, disk₁))
    (freed : freeChain bpb (disk₁.zeroFrom (sectorOf bpb c 0) bpb.sectorsPerCluster) c =
      some disk') : Untouched bpb disk disk' := by
  have inside := free.1
  have limit : 0 < bpb.fatType.entryLimit := (Nat.zero_le _).trans_lt (fatEoc_lt bpb)
  have start := tables.dataStart
  have behind := dataStart_le_sectorOf bpb c 0
  have marked := fatWriteEntry_relinks tables inside.2 (fatEoc_lt bpb) wrote
  have tables₁ := marked.tables tables
  have kept : KeepsTables bpb disk₁ (disk₁.zeroFrom (sectorOf bpb c 0) bpb.sectorsPerCluster) :=
    keepsTables_zeroFrom _ (by omega)
  have tables₂ := tables₁.of_access kept.readable kept.writable
  obtain ⟨ok', middle, wrote', later⟩ := freeChain_step tables₂ inside freed
  rw [kept.fatEntry_eq tables₁ (tables.covers c inside.2), marked.entry,
    freeFrom_stop (fatIsEoc_fatEoc bpb)] at later
  obtain rfl := Option.some.inj later
  have cleared := fatWriteEntry_relinks tables₂ inside.2 limit wrote'
  have others : ∀ x, InVolume bpb x → x ≠ c → fatEntry bpb middle x = fatEntry bpb disk x := by
    intro x inVolume differs
    rw [cleared.others x inVolume.2 differs, kept.fatEntry_eq tables₁ (tables.covers x inVolume.2),
      marked.others x inVolume.2 differs]
  refine ⟨fun x inVolume => ?_, fun dir isDir => isDir.dirEntries_eq ?_ fun lba member => ?_⟩
  · by_cases here : x = c
    · rw [here, cleared.entry]
      exact iff_of_true rfl free.2.2
    · rw [others x inVolume here]
  · intro clusters chain x member
    refine others x (chain.mem_inVolume member) ?_
    rintro rfl
    exact chain.entry_ne_zero x member free.2.2
  · have outside : lba < sectorOf bpb c 0 ∨ sectorOf bpb c 0 + bpb.sectorsPerCluster ≤ lba := by
      rcases isDir with rfl | ⟨clusters, chain⟩
      · rw [dirLbas, if_pos rfl] at member
        exact .inl ((rootLbas_bounds tables member).2.trans_le behind)
      · rw [chain.dirLbas_eq] at member
        obtain ⟨d, inChain, inCluster⟩ := List.mem_flatMap.mp member
        refine sectorOf_outside fun sec below same => ?_
        have differs : d ≠ c := by
          rintro rfl
          exact chain.entry_ne_zero d inChain free.2.2
        exact clusterLbas_disjoint tables (chain.mem_inVolume inChain).1 inside.1 differs inCluster
          (same ▸ sectorOf_mem bpb c below)
    have above := (isDir.bounds tables member).1
    rw [cleared.outside lba (.inr above), Disk.zeroFrom_other _ _ outside,
      marked.outside lba (.inr above)]

/-- A creating `fat_open` that fails leaves the volume as it was unless the parent had
outgrown the driver. -/
theorem open_untouched_iff {flags : Nat} (geometry : Geometry bpb disk)
    (confined : Confined bpb disk)
    (parents : ∀ dir, resolveParent bpb disk path = some (some dir) → IsDir bpb disk dir)
    (creating : flags &&& oCreat ≠ 0)
    (failed : openAt bpb path flags disk = some (none, disk')) :
    Untouched bpb disk disk' ↔ ¬ Outgrown bpb disk path := by
  have tables := geometry.toTables
  rcases openAt_none creating failed with ⟨rfl, nothing | none⟩ |
    ⟨dir, short, c, ok, disk₁, disk₂, creatable, allocated, nonzero, wrote, adds, freed⟩
  · exact iff_of_true .refl fun outgrown => outgrown.1.elim fun dir ⟨short, creatable, _⟩ =>
      nothing dir short creatable
  · refine iff_of_true .refl ?_
    rintro ⟨-, c, -, -, free, -⟩
    exact absurd (allocCluster_spec tables none free).1.1 (by decide)
  have free := (confined.free tables allocated nonzero).1
  have inside := free.1
  have start := tables.dataStart
  have behind := dataStart_le_sectorOf bpb c 0
  have marked := fatWriteEntry_relinks tables inside.2 (fatEoc_lt bpb) wrote
  have tables₁ := marked.tables tables
  have kept : KeepsTables bpb disk₁ (disk₁.zeroFrom (sectorOf bpb c 0) bpb.sectorsPerCluster) :=
    keepsTables_zeroFrom _ (by omega)
  rcases parents dir creatable.parent with rfl | ⟨clusters, chain⟩
  · -- the fixed root is never extended
    obtain rfl := addFrom_root adds
    refine iff_of_true (rollback_untouched tables free wrote freed) ?_
    rintro ⟨⟨dir, short', other, clusters, chain, -⟩, -⟩
    obtain rfl := (creatable.unique other.toLooksUp).1
    exact absurd chain.inVolume.1 (by decide)
  have fresh : c ∉ clusters := fun member => chain.entry_ne_zero c member free.2.2
  have same : ∀ x, InVolume bpb x → x ≠ c → fatEntry bpb
      (disk₁.zeroFrom (sectorOf bpb c 0) bpb.sectorsPerCluster) x = fatEntry bpb disk x := by
    intro x inVolume differs
    rw [kept.fatEntry_eq tables₁ (tables.covers x inVolume.2), marked.others x inVolume.2 differs]
  have own : fatEntry bpb (disk₁.zeroFrom (sectorOf bpb c 0) bpb.sectorsPerCluster) c =
      fatEoc bpb := by
    rw [kept.fatEntry_eq tables₁ (tables.covers c inside.2), marked.entry]
  have tables₂ := tables₁.of_access kept.readable kept.writable
  have chain₂ := chain.congr fun x member => same x (chain.mem_inVolume member) fun here =>
    fresh (here ▸ member)
  have geometry₂ := geometry.of_access (kept.readable.trans marked.readable)
    (kept.writable.trans marked.writable)
  have confined₂ := (confined.write tables inside (fatEoc_lt bpb) wrote).data tables₁ kept
  rcases addDirEntry_none geometry₂ confined₂ chain₂ adds with
    ⟨rfl, none⟩ | ⟨long, c', ok', found, nonzero', wrote'⟩
  · -- no second cluster: the first one is freed again
    refine iff_of_true (rollback_untouched tables free wrote freed) ?_
    rintro ⟨-, x, y, differs, freeX, freeY⟩
    have other : ∀ z, z ≠ c → ¬ FreeCluster bpb disk z := fun z away freeZ =>
      absurd (allocCluster_spec tables₂ none
        ⟨freeZ.1, freeZ.2.1, (same z freeZ.1 away).trans freeZ.2.2⟩).1.1 (by decide)
    by_cases here : x = c
    · exact other y (fun there => differs (here.trans there.symm)) freeY
    · exact other x here freeX
  · -- the second cluster stays marked
    have free' := (confined₂.free tables₂ found nonzero').1
    have differs : c' ≠ c := by
      rintro rfl
      exact fatEoc_ne_zero bpb (own.symm.trans free'.2.2)
    have entry := (same c' free'.1 differs).symm.trans free'.2.2
    have marked' := fatWriteEntry_relinks tables₂ free'.1.2 (fatEoc_lt bpb) wrote'
    have tables₃ := marked'.tables tables₂
    obtain ⟨ok₃, middle, wrote₃, later⟩ := freeChain_step tables₃ inside freed
    rw [marked'.others c inside.2 differs.symm, own, freeFrom_stop (fatIsEoc_fatEoc bpb)] at later
    obtain rfl := Option.some.inj later
    refine iff_of_false (fun untouched => ?_) (not_not_intro ⟨⟨dir, short, creatable, clusters,
      chain, long⟩, c, c', differs.symm, free, free'.1, free'.2.1, entry⟩)
    have zero := (untouched.used c' free'.1).mpr entry
    rw [fatWriteEntry_others tables₃ ((Nat.zero_le _).trans_lt (fatEoc_lt bpb)) wrote₃
      (tables.covers c' free'.1.2) differs, marked'.entry] at zero
    exact fatEoc_ne_zero bpb zero

/-! ## All calls -/

/-- A volume of sixteen sectors: itself, a table of twelve, a root of sixteen entries and
two clusters of one sector. -/
def rootBpb : Bpb where
  bytesPerSector := 512
  sectorsPerCluster := 1
  reservedSectors := 1
  numFats := 1
  rootEntryCount := 16
  fatSize16 := 12
  fatSize32 := 0
  rootCluster := 0
  fatType := .fat12
  dataStart := 14
  totalClusters := 2

/-- Both clusters are free, and the root is full. -/
def fullRoot : Disk where
  sectors lba :=
    if lba = 0 then fun i =>
      match i with
      | 12 => 2
      | 13 => 1
      | 14 => 1
      | 16 => 1
      | 17 => 16
      | 19 => 16
      | 22 => 12
      | _ => 0
    else if lba = 1 then fun i => if 3 ≤ i ∧ i < 6 then 0 else 255
    else if lba < 13 then fun _ => 255
    else if lba = 13 then fun i => if i % 32 = 0 then 0x41 else 0
    else Sector.zero
  readable lba := lba < 16
  writable lba := lba < 16

theorem readBpb_fullRoot : readBpb fullRoot = some (some rootBpb) := by decide +kernel

theorem geometry_fullRoot : Geometry rootBpb fullRoot where
  bytesPerSector := rfl
  sectorsPerCluster := by decide
  sectorsFit := by decide
  numFats := by decide
  covers := by decide
  dataStart := by decide
  clusters := by decide
  readable := fun lba below => decide_eq_true below
  tablesWritable := fun sector below => decide_eq_true (by
    have inside : sector < 1 * 12 := below
    show 1 + sector < 16
    omega)
  writable := fun lba below => decide_eq_true below
  beyond := fun marker high sec _ => decide_eq_false (by
    have above : 0x0FF8 ≤ marker := high
    show ¬ 14 + (marker - 2) * 1 + sec < 16
    omega)

theorem confined_fullRoot : Confined rootBpb fullRoot := by
  intro n behind below
  have low : 4 ≤ n := behind
  have high : n < 0x0FF0 := below
  refine .inr (.inr ⟨?_, ?_⟩)
  · show n + n / 2 + 2 ≤ 12 * 512
    omega
  · have ones : entryOf .fat12 (tableByte rootBpb fullRoot) n = entryOf .fat12 (fun _ => 255) n := by
      refine entryOf_congr fun i inside => ?_
      have two : i < 2 := inside
      have offset : FatType.fat12.entryOffset n = n + n / 2 := rfl
      rw [tableByte, fullRoot, show rootBpb.reservedSectors = 1 from rfl]
      dsimp only
      rw [if_neg (by omega)]
      by_cases first : 1 + (FatType.fat12.entryOffset n + i) / 512 = 1
      · rw [if_pos first, if_neg (by omega)]
        rfl
      · rw [if_neg first, if_pos (by omega)]
        rfl
    rw [fatEntry_eq, show rootBpb.fatType = .fat12 from rfl, ones]
    exact entryOf_ones .fat12 (fun _ => rfl) n

end DBSos.Fat
